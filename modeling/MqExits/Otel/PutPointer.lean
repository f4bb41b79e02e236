import MqExits.Otel.Module

/-!
# The application's MQPMO pointer across an MQPUT

`mqotPutBefore` swaps the pointer when the application supplies no handle; `mqotPutAfter` puts it
back when the structure that was used holds the handle stored for the connection. Where a handle is
stored or can be created the two agree. Where MQCRTMH fails, the structure is used with an unusable
handle in it, and since that is never a stored one the pointer stays swapped (`safePut_iff`).

## What a safe put is

`SafePut` follows the put from one exit to the other: the first one returns, the real call is made
with a structure that has the application's values, and the second one is defined and leaves the
application's pointer. The real call writes its outputs to the structure between the two, whatever
they are.

The first exit has two parts, which fail for different reasons: it picks the structure to use
(`putTarget`), and looks at the header of the message (`rfh2Skips`). The second one reads outside
the message if the header says so, and `PutMessage.HeaderInside` is exactly when it does not. A
header without a text is inside any message, as nothing is read of it.

With a supplied handle nothing is swapped. Then the second exit may take that handle for its own, if
the application has got hold of it, and put back a pointer which an earlier put has stashed.
-/

namespace MqExits.Otel

open CText Outcome

/-- There is a message handle for the connection's puts, or one can be created. -/
def HasPutHandle (env : Env) (s : State) (hc : MQHCONN) : Prop :=
  (s.objectHandleMap.lookup (objectKey hc none)).isSome ∨ (env.crtmh hc).isSome

instance (env : Env) (s : State) (hc : MQHCONN) : Decidable (HasPutHandle env s hc) :=
  inferInstanceAs (Decidable (_ ∨ _))

/-- The handle that is stored after `getMsgHandle` is the one that it returns. -/
theorem HasPutHandle.exists_stored {env : Env} {s : State} {hc : MQHCONN}
    (h : HasPutHandle env s hc) :
    ∃ mh, (getMsgHandle env s hc none).1 = mh.val ∧
      (getMsgHandle env s hc none).2.objectHandleMap.lookup (objectKey hc none) = some mh := by
  rcases getMsgHandle_cases env s hc none with ⟨mh, hm, heq, hlookup, -, -⟩ | ⟨-, hl, hcr⟩
  · exact ⟨mh, by rw [heq], by rw [heq]; exact hlookup⟩
  · exact absurd h (by simp [HasPutHandle, hl, hcr])

/-- Without one, `getMsgHandle` changes nothing. -/
theorem getMsgHandle_of_not_hasPutHandle {env : Env} {s : State} {hc : MQHCONN}
    (h : ¬ HasPutHandle env s hc) : getMsgHandle env s hc none = (MQHM_UNUSABLE_HMSG, s) := by
  rcases getMsgHandle_cases env s hc none with ⟨mh, hm, -, -, -, hfrom⟩ | ⟨heq, -⟩
  · refine absurd ?_ h
    rcases hfrom with hl | ⟨-, hl⟩ <;> simp [HasPutHandle, hl]
  · exact heq

/-- The handle that `getMsgHandle` returns is recognised when it is one. -/
theorem compareMsgHandle_getMsgHandle {env : Env} {s : State} {hc : MQHCONN} :
    compareMsgHandle (getMsgHandle env s hc none).2 hc none (getMsgHandle env s hc none).1 = true ↔
      HasPutHandle env s hc := by
  rw [compareMsgHandle_iff]
  constructor
  · rintro ⟨mh, hl, -⟩
    by_contra hno
    rw [getMsgHandle_of_not_hasPutHandle hno] at hl
    exact hno (.inl (by simp [hl]))
  · intro h
    obtain ⟨mh, hmh, hl⟩ := h.exists_stored
    exact ⟨mh, hl, hmh.symm⟩

/-- The text of the header that the message announces, if it does, is empty or lies in the
message. -/
def PutMessage.HeaderInside (msg : PutMessage) : Prop :=
  msg.hasRfh2 = true → ∃ len, Returns (strucLength msg.buffer) len ∧
    (len = MQRFH_STRUC_LENGTH_FIXED_2 ∨
      MQRFH_STRUC_LENGTH_FIXED_2 ≤ len ∧ len ≤ msg.buffer.length)

/-- A string is read from a buffer exactly when it is empty or lies in it. -/
theorem exists_returns_stringAt {buffer : Bytes} {offset len : ℤ} :
    (∃ text, Returns (stringAt buffer offset len) text) ↔
      len = 0 ∨ 0 ≤ len ∧ offset + len ≤ buffer.length := by
  rw [stringAt]
  split_ifs with hneg hend
  · exact iff_of_false (fun ⟨_, h⟩ ↦ not_returns_throw h) (by omega)
  · exact iff_of_true ⟨_, returns_pure.2 rfl⟩ (by omega)
  · exact iff_of_false (fun ⟨_, h⟩ ↦ not_returns_fault h) (by omega)

/-- The RFH2 part returns exactly when the header lies in the message. -/
theorem exists_returns_rfh2Skips (msg : PutMessage) :
    (∃ skips, Returns (rfh2Skips msg) skips) ↔ msg.HeaderInside := by
  rw [rfh2Skips, PutMessage.HeaderInside]
  split_ifs with h
  · simp only [h, forall_const, returns_bind]
    constructor
    · rintro ⟨skips, len, hlen, props, hprops, -⟩
      have hinside := exists_returns_stringAt.1 ⟨props, hprops⟩
      exact ⟨len, hlen, by omega⟩
    · rintro ⟨len, hlen, hinside⟩
      obtain ⟨props, hprops⟩ := exists_returns_stringAt.2
        (show len - MQRFH_STRUC_LENGTH_FIXED_2 = 0 ∨ 0 ≤ len - MQRFH_STRUC_LENGTH_FIXED_2 ∧
          MQRFH_STRUC_LENGTH_FIXED_2 + (len - MQRFH_STRUC_LENGTH_FIXED_2) ≤ msg.buffer.length by
          omega)
      exact ⟨_, len, hlen, props, hprops, returns_pure.2 rfl⟩
  · simp [h]

/-! ### The property -/

/-- `used` has the values of the application's structure, and no unusable handle but its own. -/
structure HasOwnValues (pmo used : MQPMO) : Prop where
  fields : { used.memcpy pmo (pmoLength pmo) with version := used.version } = used
  handle : used.originalMsgHandle = MQHM_UNUSABLE_HMSG →
    pmo.version ≥ MQPMO_VERSION_3 ∧ pmo.originalMsgHandle = MQHM_UNUSABLE_HMSG

/-- The exit before the put returns, the real call is made as it should be, and the exit after it
is defined and leaves the application's pointer. -/
def SafePut (env : Env) (s : State) (hc : MQHCONN) (ho : Option MQHOBJ) (msg : PutMessage)
    (a : AppAddr) (out : PmoOutputs) : Prop :=
  ∃ r calls used, mqotPutBefore env s hc ho msg (.app a) = .ok r ∧ r.outcome = .ok calls ∧
    r.state.derefPmo r.ppPutMsgOpts = .ok used ∧
    (¬ SuppliesPutHandle (s.appPmo a) → ¬ HasPutHandle env s hc →
      HasOwnValues (s.appPmo a) used) ∧
    mqotPutAfter (r.state.modifyPmo r.ppPutMsgOpts (·.write out)) hc ho r.ppPutMsgOpts =
      .ok (.app a)

/-! ### The two cases -/

/-- `mqotPutBefore` returns exactly when its two parts do. -/
theorem mqotPutBefore_returns_iff {env : Env} {s : State} {hc : MQHCONN} {ho : Option MQHOBJ}
    {msg : PutMessage} {pp : PMQPMO} {t : PutTarget} (ht : putTarget env s hc ho pp = .ok t)
    {r : PutBeforeResult} :
    (mqotPutBefore env s hc ho msg pp = .ok r ∧ ∃ calls, r.outcome = .ok calls) ↔
      ∃ skips, Returns (rfh2Skips msg) skips ∧
        r = ⟨t.ppPutMsgOpts, t.state,
          .ok (setmpCalls env t.mh (t.skipParent || skips.1) (t.skipState || skips.2))⟩ := by
  simp only [mqotPutBefore, ht, bind, Except.bind, Returns]
  rcases (rfh2Skips msg).run with e | (e | ⟨inParent, inState⟩)
  · simp
  · simp only [Except.ok.injEq, reduceCtorEq, false_and, exists_false, iff_false, not_and]
    rintro hr ⟨calls, hcalls⟩
    obtain rfl := Except.ok.inj hr
    cases hcalls
  · constructor
    · rintro ⟨hr, -⟩
      exact ⟨_, rfl, (Except.ok.inj hr).symm⟩
    · rintro ⟨skips, hskips, rfl⟩
      obtain rfl := Except.ok.inj (Except.ok.inj hskips)
      exact ⟨rfl, _, rfl⟩

theorem safePut_iff_of_putTarget {env : Env} {s : State} {hc : MQHCONN} {ho : Option MQHOBJ}
    {msg : PutMessage} {a : AppAddr} {out : PmoOutputs} {t : PutTarget}
    (ht : putTarget env s hc ho (.app a) = .ok t) :
    SafePut env s hc ho msg a out ↔
      (∃ skips, Returns (rfh2Skips msg) skips) ∧
      (∃ used, t.state.derefPmo t.ppPutMsgOpts = .ok used ∧
        (¬ SuppliesPutHandle (s.appPmo a) → ¬ HasPutHandle env s hc →
          HasOwnValues (s.appPmo a) used)) ∧
      mqotPutAfter (t.state.modifyPmo t.ppPutMsgOpts (·.write out)) hc ho t.ppPutMsgOpts =
        .ok (.app a) := by
  constructor
  · rintro ⟨r, calls, used, hr, hcalls, hused, hown, hafter⟩
    obtain ⟨skips, hskips, rfl⟩ := (mqotPutBefore_returns_iff ht).1 ⟨hr, calls, hcalls⟩
    exact ⟨⟨skips, hskips⟩, ⟨used, hused, hown⟩, hafter⟩
  · rintro ⟨⟨skips, hskips⟩, ⟨used, hused, hown⟩, hafter⟩
    obtain ⟨hr, calls, hcalls⟩ := (mqotPutBefore_returns_iff ht).2 ⟨skips, hskips, rfl⟩
    exact ⟨_, calls, used, hr, hcalls, hused, hown, hafter⟩

/-- With a supplied handle nothing is swapped, so nothing may be restored, or only this pointer. -/
theorem safePut_of_suppliesPutHandle {env : Env} {s : State} {hc : MQHCONN} {ho : Option MQHOBJ}
    {msg : PutMessage} {a : AppAddr} {out : PmoOutputs} (h : SuppliesPutHandle (s.appPmo a)) :
    SafePut env s hc ho msg a out ↔
      (∃ skips, Returns (rfh2Skips msg) skips) ∧
        (compareMsgHandle s hc none (s.appPmo a).originalMsgHandle = true →
          restorePmo s hc ho = .ok (.app a)) := by
  obtain ⟨t, ht, hpp, hstate⟩ :=
    putTarget_of_suppliesPutHandle env hc ho h
  rw [safePut_iff_of_putTarget ht, hpp, hstate]
  -- the handle in the structure may still be the one stored for the connection
  have hafter : mqotPutAfter (s.modifyPmo (.app a) (·.write out)) hc ho (.app a) =
      if compareMsgHandle s hc none (s.appPmo a).originalMsgHandle = true then
        restorePmo s hc ho
      else .ok (.app a) := by
    simp only [mqotPutAfter, State.derefPmo, State.modifyPmo, Function.update_self, bind,
      Except.bind, MQPMO.write_originalMsgHandle]
    rfl
  rw [hafter]
  refine and_congr_right fun _ ↦ ?_
  constructor
  · rintro ⟨-, hrestored⟩ hcmp
    rwa [if_pos hcmp] at hrestored
  · intro hrestored
    refine ⟨⟨s.appPmo a, rfl, fun hnot ↦ absurd h hnot⟩, ?_⟩
    split_ifs with hcmp
    · exact hrestored hcmp
    · rfl

/-- Without one the pointer comes back exactly when there is a handle to recognise. -/
theorem safePut_of_not_suppliesPutHandle {env : Env} {s : State} {hc : MQHCONN}
    {ho : Option MQHOBJ} {msg : PutMessage} {a : AppAddr} {out : PmoOutputs}
    (h : ¬ SuppliesPutHandle (s.appPmo a)) (hu : s.Usable (objectKey hc ho)) :
    SafePut env s hc ho msg a out ↔
      (∃ skips, Returns (rfh2Skips msg) skips) ∧ HasPutHandle env s hc := by
  obtain ⟨o, obj, s', ht, hhm, hopt, hstash, hmy, -⟩ := putTarget_spec env h hu
  rw [safePut_iff_of_putTarget ht]
  have hopt' := optionsAt_modifyPmo (·.write out) hopt
  have hcompare : compareMsgHandle (s'.modifyPmo (.myPmo o) (·.write out)) hc none
      (getMsgHandle env s hc none).1 = true ↔ HasPutHandle env s hc := by
    rw [← compareMsgHandle_getMsgHandle]
    exact iff_of_eq (congrArg (· = true)
      (compareMsgHandle_congr (by rw [State.modifyPmo_objectHandleMap, hhm]) _ _ _))
  -- the pointer comes back where the handle in the copy is the stored one
  have hafter : mqotPutAfter (s'.modifyPmo (.myPmo o) (·.write out)) hc ho (.myPmo o) =
      if HasPutHandle env s hc then .ok (.app a) else .ok (.myPmo o) := by
    simp only [mqotPutAfter, derefPmo_of_optionsAt hopt', hmy, MQPMO.write_originalMsgHandle,
      extendPmo, bind, Except.bind, restorePmo, hopt', Except.map, hstash]
    by_cases hh : HasPutHandle env s hc
    · rw [if_pos hh, if_pos (hcompare.2 hh)]
    · rw [if_neg hh, if_neg fun hc' ↦ hh (hcompare.1 hc')]
      rfl
  rw [hafter]
  refine and_congr_right fun _ ↦ ?_
  constructor
  · rintro ⟨-, hrestored⟩
    by_contra hh
    rw [if_neg hh] at hrestored
    cases hrestored
  · intro hh
    rw [if_pos hh]
    exact ⟨⟨_, derefPmo_of_optionsAt hopt, fun _ hnot ↦ absurd hh hnot⟩, rfl⟩

/-- **When a put is safe.** In every state the module can reach: with a supplied handle, unless
it is the one stored for the connection and the stashed pointer is another one; without, exactly
when a handle is stored for the connection or can be created. The text of a header that the message
announces has to be empty or to lie in it in either case. -/
theorem safePut_iff {appGmo : AppAddr → MQGMO} {appPmo : AppAddr → MQPMO}
    {tr : List (Machine.Event State ExitCall Unit)} {env : Env} {s : State} {hc : MQHCONN}
    {ho : Option MQHOBJ} {msg : PutMessage} {a : AppAddr} {out : PmoOutputs}
    (hrun : otelModule.Run (State.init appGmo appPmo) tr s) :
    SafePut env s hc ho msg a out ↔
      msg.HeaderInside ∧
        if SuppliesPutHandle (s.appPmo a) then
          compareMsgHandle s hc none (s.appPmo a).originalMsgHandle = true →
            restorePmo s hc ho = .ok (.app a)
        else HasPutHandle env s hc := by
  rw [← exists_returns_rfh2Skips]
  split_ifs with h
  · exact safePut_of_suppliesPutHandle h
  · exact safePut_of_not_suppliesPutHandle h ((wellFormed_of_run hrun).usable hc ho)

/-- A message without a header. -/
def PutMessage.plain : PutMessage where
  format := none
  buffer := []

theorem safePut_iff_plain :
    SafePut (.creating .sample) .plain 1 (some 3) .plain 0 ⟨0, 0, 0, [], []⟩ ↔
      PutMessage.plain.HeaderInside ∧
        if SuppliesPutHandle (State.plain.appPmo 0) then
          compareMsgHandle .plain 1 none (State.plain.appPmo 0).originalMsgHandle = true →
            restorePmo .plain 1 (some 3) = .ok (.app 0)
        else HasPutHandle (.creating .sample) .plain 1 :=
  safePut_iff (show otelModule.Run (State.init (fun _ ↦ MQGMO_DEFAULT) fun _ ↦ MQPMO_DEFAULT) []
    State.plain from .nil)

/-- In the module as it is loaded, with a queue manager that creates no handle, a put with the
default structure is not safe. -/
theorem not_safePut_refusing :
    otelModule.Run (State.init (fun _ ↦ MQGMO_DEFAULT) fun _ ↦ MQPMO_DEFAULT) [] State.plain ∧
      ¬ SafePut (.refusing .sample) .plain 1 (some 3) .plain 0 ⟨0, 0, 0, [], []⟩ := by
  refine ⟨.nil, ?_⟩
  rintro ⟨r, calls, used, hr, -, -, -, hafter⟩
  obtain rfl := Except.ok.inj hr
  exact absurd (Except.ok.inj hafter) (by decide)

end MqExits.Otel
