import MqExits.Otel.GetOptions

/-!
# The application's MQGMO pointer across an MQGET

`mqotGetBefore` swaps the pointer whenever the application supplies no handle. `mqotGetAfter` puts
it back when the structure that was used holds the exit's own handle and the object handle is the
unusable one. The two conditions share hardly a case: without a supplied handle the structure that
is used holds a handle only if stale bytes of the application's memory were copied into it, so the
application is left with a pointer into the exit's own structure (`keepsGmo_iff`).

## What the pointer depends on

What comes after the pointer in `mqotGetAfter` (the properties, the ids, the link) can throw, but it
cannot go astray where there is a handle to look in (`exists_mqotGetAfter`): the header is not read
then. And the pointer has been put back before any of it runs. So neither the message nor what the
queue manager answers has a part in the condition, which is about the state and the application's
structure only.
-/

namespace MqExits.Otel

open CText Outcome

/-! ### The second half never faults -/

theorem defined_stoi (text : Bytes) : Defined (stoi text) := by
  unfold stoi
  split
  · exact defined_pure
  · exact defined_throw

theorem defined_hexToBinary (hex buf : Bytes) (n : ℕ) : Defined (hexToBinary hex buf n) :=
  Defined.foldlM (fun _ _ ↦ (defined_stoi _).bind fun _ ↦ defined_pure) _ _

theorem defined_parentContext (env : Env) (traceparentVal : Bytes) :
    Defined (parentContext env traceparentVal) := by
  rw [parentContext]
  split_ifs with h
  · exact defined_pure
  have hsplit := split_isSome traceparentVal (lit "-") (by decide)
  split
  · rename_i hnone
    rw [hnone] at hsplit
    exact absurd hsplit (by simp)
  · exact (defined_hexToBinary _ _ _).bind fun _ ↦
      (defined_hexToBinary _ _ _).bind fun _ ↦ defined_pure
  · exact defined_pure

theorem defined_linkContext (env : Env) (traceparentVal tracestateVal : Bytes) :
    Defined (linkContext env traceparentVal tracestateVal) := by
  rw [linkContext]
  split_ifs
  · exact (defined_parentContext env traceparentVal).bind fun _ ↦ defined_pure
  · exact defined_pure

/-- With a handle to look in, the RFH2 header is not read. -/
theorem defined_receivedProps (env : Env) (call : GetCall) {mh : MQHMSG}
    (h : isValidHandle mh = true) : Defined (receivedProps env call mh) := by
  rw [receivedProps]
  rw [if_pos h]
  split_ifs
  · exact defined_pure
  · exact defined_pure

/-! ### What `mqotGetAfter` leaves in the pointer -/

theorem restoredGmo_of_mqotGetAfter {env : Env} {s : State} {call : GetCall} {pp : PMQGMO}
    {gmo : MQGMO} {r : GetAfterResult} (hgmo : s.derefGmo pp = .ok gmo)
    (h : mqotGetAfter env s call pp = .ok r) :
    restoredGmo s call gmo.msgHandle pp = .ok r.ppGetMsgOpts := by
  simp only [mqotGetAfter, bind_eq_ok, hgmo, Except.ok.injEq, exists_eq_left'] at h
  obtain ⟨props, -, p, hp, h⟩ := h
  rcases props with e | ⟨traceparentVal, tracestateVal⟩
  · obtain rfl := Except.ok.inj h
    exact hp
  · obtain ⟨link, -, h⟩ := bind_eq_ok.1 h
    obtain rfl := Except.ok.inj h
    exact hp

/-- With a valid handle in the structure that was used, the call is undefined only when the
restore is. -/
theorem exists_mqotGetAfter {env : Env} {s : State} {call : GetCall} {pp p : PMQGMO} {gmo : MQGMO}
    (hgmo : s.derefGmo pp = .ok gmo) (hvalid : isValidHandle gmo.msgHandle = true)
    (h : restoredGmo s call gmo.msgHandle pp = .ok p) :
    ∃ r, mqotGetAfter env s call pp = .ok r ∧ r.ppGetMsgOpts = p := by
  obtain ⟨props, hprops⟩ := defined_receivedProps env call hvalid
  rcases props with e | ⟨traceparentVal, tracestateVal⟩
  · exact ⟨⟨p, .error e⟩, by simp [mqotGetAfter, hgmo, hprops, h, bind, Except.bind]; rfl, rfl⟩
  · obtain ⟨link, hlink⟩ := defined_linkContext env traceparentVal tracestateVal
    exact ⟨⟨p, link⟩, by simp [mqotGetAfter, hgmo, hprops, h, hlink, bind, Except.bind]; rfl, rfl⟩

/-! ### The whole call -/

/-- A synchronous MQGET: the exit before it, the real call, and the exit after it. -/
def mqget (env env' : Env) (s : State) (hc : MQHCONN) (a : AppAddr) (out : GetOutcome) :
    Except Fault GetAfterResult := do
  let (pp, s) ← getBefore env s hc (.app a)
  let s := s.modifyGmo pp (·.write out.outputs)
  getAfter env' s hc out pp

/-- The call is defined and the pointer is the application's again. -/
def KeepsGmo (env env' : Env) (s : State) (hc : MQHCONN) (a : AppAddr) (out : GetOutcome) : Prop :=
  ∃ r, mqget env env' s hc a out = .ok r ∧ r.ppGetMsgOpts = .app a

/-- With a supplied handle nothing is swapped, so nothing may be restored, or only this pointer. -/
theorem keepsGmo_of_suppliesHandle {env env' : Env} {s : State} {hc : MQHCONN} {a : AppAddr}
    {out : GetOutcome} (h : SuppliesHandle (s.appGmo a)) :
    KeepsGmo env env' s hc a out ↔
      (compareMsgHandle s hc none (s.appGmo a).msgHandle = true →
        restoreGmo s hc none = .ok (.app a)) := by
  let s₁ := s.modifyGmo (.app a) (·.write out.outputs)
  let call : GetCall :=
    ⟨hc, MQHO_UNUSABLE_HOBJ, out.format, out.buffer, out.compCode, out.reason⟩
  -- the exit before the call changes nothing, so that the one after it finds the application's own
  have hrun : mqget env env' s hc a out = mqotGetAfter env' s₁ call (.app a) := by
    simp only [mqget, getBefore, mqotGetBefore_of_suppliesHandle h, bind, Except.bind]
    rfl
  have hderef : s₁.derefGmo (.app a) = .ok ((s.appGmo a).write out.outputs) := by
    simp [s₁, State.modifyGmo, State.derefGmo]
  have hrestored : restoredGmo s₁ call ((s.appGmo a).write out.outputs).msgHandle (.app a) =
      if compareMsgHandle s hc none (s.appGmo a).msgHandle = true then restoreGmo s hc none
      else .ok (.app a) := by
    rw [MQGMO.write_msgHandle, restoredGmo]
    simp only [call, h.2, true_and]
    rfl
  have hiff : KeepsGmo env env' s hc a out ↔
      restoredGmo s₁ call ((s.appGmo a).write out.outputs).msgHandle (.app a) =
        .ok (.app a) := by
    rw [KeepsGmo, hrun]
    constructor
    · rintro ⟨r, hr, hp⟩
      rw [restoredGmo_of_mqotGetAfter hderef hr, hp]
    · exact exists_mqotGetAfter hderef h.2
  rw [hiff, hrestored]
  split_ifs with hc'
  · exact ⟨fun h _ ↦ h, fun h ↦ h hc'⟩
  · exact iff_of_true rfl fun h ↦ absurd h hc'

/-- Without one the pointer is swapped, and it comes back only past the handle test. -/
theorem keepsGmo_of_not_suppliesHandle {env env' : Env} {s : State} {hc : MQHCONN} {a : AppAddr}
    {out : GetOutcome} (h : ¬ SuppliesHandle (s.appGmo a)) :
    KeepsGmo env env' s hc a out ↔
      s.Usable (objectKey hc none) ∧ (s.appGmo a).version < MQGMO_VERSION_1 ∧
        compareMsgHandle s hc none (s.appGmo a).msgHandle = true := by
  by_cases hu : s.Usable (objectKey hc none)
  -- on an unusable key the exit goes wrong before the call
  swap
  · refine iff_of_false ?_ fun h' ↦ hu h'.1
    rintro ⟨r, hr, -⟩
    obtain ⟨p, hp, -⟩ := bind_eq_ok.1 hr
    exact hu (objectKey_unusable hc ▸ usable_of_mqotGetBefore h hp)
  have hu' : s.Usable (objectKey hc (some MQHO_UNUSABLE_HOBJ)) := by rwa [objectKey_unusable]
  obtain ⟨o, obj, s₁, hbefore, hopt, hstash, hmy, hhm, -⟩ :=
    mqotGetBefore_spec env h hu'
  rw [objectKey_unusable] at hopt
  let s₂ := s₁.modifyGmo (.myGmo o) (·.write out.outputs)
  let call : GetCall :=
    ⟨hc, MQHO_UNUSABLE_HOBJ, out.format, out.buffer, out.compCode, out.reason⟩
  -- from here on the structure is the exit's own, and the question is whether the test puts the
  -- pointer back
  have hrun : mqget env env' s hc a out = mqotGetAfter env' s₂ call (.myGmo o) := by
    simp only [mqget, getBefore, hbefore, bind, Except.bind]
    rfl
  have hopt₂ := optionsAt_modifyGmo (·.write out.outputs) hopt
  have hderef : s₂.derefGmo (.myGmo o) = .ok (obj.myGmo.write out.outputs) :=
    derefGmo_of_optionsAt hopt₂
  have hcompare : compareMsgHandle s₂ hc none (extendGmo (s.appGmo a)).msgHandle =
      compareMsgHandle s hc none (extendGmo (s.appGmo a)).msgHandle :=
    compareMsgHandle_congr (by rw [State.modifyGmo_objectHandleMap, hhm]) _ _ _
  have hrestore : restoreGmo s₂ hc (some MQHO_UNUSABLE_HOBJ) = .ok (.app a) := by
    simp [restoreGmo, s₂, hopt₂, Except.map, hstash]
  simp only [hu, true_and]
  constructor
  · rintro ⟨r, hr, hp⟩
    rw [hrun] at hr
    have hrestored := restoredGmo_of_mqotGetAfter hderef hr
    rw [hp, MQGMO.write_msgHandle, hmy, restoredGmo,
      compareMsgHandle_unusable, hcompare] at hrestored
    split_ifs at hrestored with hcond
    · obtain ⟨hvalid, -, hcmp⟩ := hcond
      -- the copy has a handle in it only if the structure is older than the first version
      have hv := ((isValidHandle_extendGmo h).1 hvalid).1
      rw [extendGmo_msgHandle hv] at hcmp
      exact ⟨hv, hcmp⟩
    · cases hrestored
  · rintro ⟨hv, hcmp⟩
    have hvalid := isValidHandle_of_compareMsgHandle hcmp
    rw [← extendGmo_msgHandle hv] at hcmp hvalid
    rw [KeepsGmo, hrun]
    refine exists_mqotGetAfter hderef (by rwa [MQGMO.write_msgHandle, hmy]) ?_
    rw [MQGMO.write_msgHandle, hmy, restoredGmo,
      compareMsgHandle_unusable, hcompare, if_pos ⟨hvalid, rfl, hcmp⟩]
    exact hrestore

/-- **When the application has its pointer back.** With a supplied handle: unless that handle is the
one stored for the connection and the stashed pointer is another one. Without: only past a stale
handle that equals the stored one. -/
theorem keepsGmo_iff {env env' : Env} {s : State} {hc : MQHCONN} {a : AppAddr}
    {out : GetOutcome} :
    KeepsGmo env env' s hc a out ↔
      (SuppliesHandle (s.appGmo a) ∧
        (compareMsgHandle s hc none (s.appGmo a).msgHandle = true →
          restoreGmo s hc none = .ok (.app a))) ∨
      (s.Usable (objectKey hc none) ∧ (s.appGmo a).version < MQGMO_VERSION_1 ∧
        compareMsgHandle s hc none (s.appGmo a).msgHandle = true) := by
  by_cases h : SuppliesHandle (s.appGmo a)
  · have hv : ¬ (s.appGmo a).version < MQGMO_VERSION_1 :=
      not_lt.2 (le_trans (by decide) h.1)
    simp only [keepsGmo_of_suppliesHandle h, h, hv, true_and, false_and, and_false, or_false]
  · simp only [keepsGmo_of_not_suppliesHandle h, h, false_and, false_or]

/-- An MQGET that finds no message. -/
def GetOutcome.noMessage : GetOutcome where
  outputs := ⟨[], 32, 32, 32, List.replicate 16 0, -1⟩
  format := none
  buffer := []
  compCode := .FAILED
  reason := MQRC_NO_MSG_AVAILABLE

/-- An application with the default structure is left with the exit's pointer. -/
theorem not_keepsGmo_plain :
    ¬ KeepsGmo (.creating .sample) (.creating .sample) .plain 1 0 .noMessage := by
  rintro ⟨r, hr, hp⟩
  obtain rfl := Except.ok.inj hr
  exact absurd hp (by decide)

end MqExits.Otel
