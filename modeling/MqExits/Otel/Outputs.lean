import MqExits.Otel.Effects

/-!
# The output fields of a put or a get

The queue manager writes its output fields (the resolved names, the counts of destinations, the
status of the group and the segment, the token) to the structure it is given. Where the application
supplies no message handle that is the exit's copy. The fields of the application's structure are
copied into it before the call, but nothing is copied back after it: the pointer is put back, and
the application finds in its structure what was there before (`outputs_iff`).

## What is compared

A call through the exit with the same call without it. What the queue manager writes is a function
of the structure that it is given (`qm`), so that the two calls can differ only in which structure
that is. The fields compared are those that the queue manager writes; whatever else the exit does to
a structure does not matter here.

The outputs can be right by chance, where the queue manager would write just what is in the
structure already. Nothing is said of a call that the exit leaves with an exception.
-/

namespace MqExits.Otel

open CText Outcome

/-! ### The calls through the exit -/

/-- An MQPUT or MQPUT1 with the application's structure at `a`, and a queue manager that writes the
outputs `qm` gives for the structure it is given: the state it leaves, or the exception with which
the exit was left. -/
def stateAfterPut (env : Env) (s : State) (hc : MQHCONN) (ho : Option MQHOBJ) (msg : PutMessage)
    (a : AppAddr) (qm : MQPMO → PmoOutputs) : Except Fault (Except CppException State) := do
  let r ← mqotPutBefore env s hc ho msg (.app a)
  match r.outcome with
  | .error e => return .error e
  | .ok _ =>
    let used ← r.state.derefPmo r.ppPutMsgOpts
    let s := r.state.modifyPmo r.ppPutMsgOpts (·.write (qm used))
    let _ ← mqotPutAfter s hc ho r.ppPutMsgOpts
    return .ok s

/-- A synchronous MQGET with the application's structure at `a`. -/
def stateAfterGet (env env' : Env) (s : State) (hc : MQHCONN) (a : AppAddr)
    (qm : MQGMO → GetOutcome) : Except Fault (Except CppException State) := do
  let (pp, s) ← getBefore env s hc (.app a)
  let used ← s.derefGmo pp
  let s := s.modifyGmo pp (·.write (qm used).outputs)
  let r ← getAfter env' s hc (qm used) pp
  match r.outcome with
  | .error e => return .error e
  | .ok _ => return .ok s

/-- What the application's MQPMO holds is what it would hold without the exit. -/
def SamePmoOutputs (s s' : State) (a : AppAddr) (qm : MQPMO → PmoOutputs) : Prop :=
  (s'.appPmo a).outputs = ((s.appPmo a).write (qm (s.appPmo a))).outputs

/-- What the application's MQGMO holds is what it would hold without the exit. -/
def SameGmoOutputs (s s' : State) (a : AppAddr) (qm : MQGMO → GetOutcome) : Prop :=
  (s'.appGmo a).outputs = ((s.appGmo a).write (qm (s.appGmo a)).outputs).outputs

/-! ### Whose structure is written to -/

/-- **What `mqotPutBefore` leaves for the MQPUT**: the application's structure, if that has a
message handle, or a copy; the application's own is as it was. -/
theorem ppPutMsgOpts_mqotPutBefore {env : Env} {s : State} {hc : MQHCONN} {ho : Option MQHOBJ}
    {msg : PutMessage} {a : AppAddr} {r : PutBeforeResult}
    (h : mqotPutBefore env s hc ho msg (.app a) = .ok r) :
    (SuppliesPutHandle (s.appPmo a) ∧ r.ppPutMsgOpts = .app a ∧ r.state = s) ∨
      (¬ SuppliesPutHandle (s.appPmo a) ∧ (∃ o, r.ppPutMsgOpts = .myPmo o) ∧
        r.state.appPmo = s.appPmo) := by
  obtain ⟨t, ht, h⟩ := bind_eq_ok.1 h
  obtain ⟨skips, -, h⟩ := bind_eq_ok.1 h
  -- what the header says decides which properties are set, and not where
  have hsame : r.ppPutMsgOpts = t.ppPutMsgOpts ∧ r.state = t.state := by
    rcases skips with e | ⟨inParent, inState⟩
    · obtain rfl := Except.ok.inj h
      exact ⟨rfl, rfl⟩
    · obtain rfl := Except.ok.inj h
      exact ⟨rfl, rfl⟩
  rw [hsame.1, hsame.2]
  by_cases hsupplies : SuppliesPutHandle (s.appPmo a)
  · obtain ⟨t', ht', hpp, hstate⟩ := putTarget_of_suppliesPutHandle env hc ho hsupplies
    rw [ht] at ht'
    obtain rfl := Except.ok.inj ht'
    exact Or.inl ⟨hsupplies, hpp, hstate⟩
  · obtain ⟨o, obj, s', ht', -, -, -, -, happ⟩ :=
      putTarget_spec env hsupplies (usable_of_putTarget hsupplies ht)
    rw [ht] at ht'
    obtain rfl := Except.ok.inj ht'
    exact Or.inr ⟨hsupplies, ⟨o, rfl⟩, happ⟩

/-- **What `mqotGetBefore` leaves for the MQGET.** -/
theorem ppGetMsgOpts_getBefore {env : Env} {s : State} {hc : MQHCONN} {a : AppAddr}
    {r : PMQGMO × State} (h : getBefore env s hc (.app a) = .ok r) :
    (SuppliesHandle (s.appGmo a) ∧ r = (.app a, s)) ∨
      (¬ SuppliesHandle (s.appGmo a) ∧ (∃ o, r.1 = .myGmo o) ∧ r.2.appGmo = s.appGmo) := by
  rw [getBefore] at h
  by_cases hsupplies : SuppliesHandle (s.appGmo a)
  · rw [mqotGetBefore_of_suppliesHandle hsupplies] at h
    exact Or.inl ⟨hsupplies, (Except.ok.inj h).symm⟩
  · obtain ⟨o, obj, s', hrun, -, -, -, -, happ⟩ :=
      mqotGetBefore_spec env hsupplies (usable_of_mqotGetBefore hsupplies h)
    rw [hrun] at h
    obtain rfl := Except.ok.inj h
    exact Or.inr ⟨hsupplies, ⟨o, rfl⟩, happ⟩

/-! ### What the application finds -/

/-- **After a put**: the outputs, if its own structure was used, and else what was there before. -/
theorem appPmo_stateAfterPut {env : Env} {s s' : State} {hc : MQHCONN} {ho : Option MQHOBJ}
    {msg : PutMessage} {a : AppAddr} {qm : MQPMO → PmoOutputs}
    (h : stateAfterPut env s hc ho msg a qm = .ok (.ok s')) :
    s'.appPmo a = if SuppliesPutHandle (s.appPmo a) then (s.appPmo a).write (qm (s.appPmo a))
      else s.appPmo a := by
  obtain ⟨r, hr, h⟩ := bind_eq_ok.1 h
  have hs' : ∃ used, r.state.derefPmo r.ppPutMsgOpts = .ok used ∧
      s' = r.state.modifyPmo r.ppPutMsgOpts (·.write (qm used)) := by
    rcases hout : r.outcome with e | calls
    · rw [hout] at h
      cases Except.ok.inj h
    · rw [hout] at h
      obtain ⟨used, hused, h⟩ := bind_eq_ok.1 h
      obtain ⟨pp, -, h⟩ := bind_eq_ok.1 h
      exact ⟨used, hused, (Except.ok.inj (Except.ok.inj h)).symm⟩
  obtain ⟨used, hused, rfl⟩ := hs'
  rcases ppPutMsgOpts_mqotPutBefore hr with ⟨hsupplies, hpp, hstate⟩ | ⟨hnot, ⟨o, hpp⟩, happ⟩
  · rw [if_pos hsupplies]
    rw [hpp, hstate] at hused ⊢
    obtain rfl := Except.ok.inj hused
    exact Function.update_self ..
  · rw [if_neg hnot, hpp, State.modifyPmo_myPmo_appPmo, happ]

/-- **After a get.** -/
theorem appGmo_stateAfterGet {env env' : Env} {s s' : State} {hc : MQHCONN} {a : AppAddr}
    {qm : MQGMO → GetOutcome} (h : stateAfterGet env env' s hc a qm = .ok (.ok s')) :
    s'.appGmo a = if SuppliesHandle (s.appGmo a) then
      (s.appGmo a).write (qm (s.appGmo a)).outputs else s.appGmo a := by
  obtain ⟨⟨pp, s₁⟩, hr, h⟩ := bind_eq_ok.1 h
  obtain ⟨used, hused, h⟩ := bind_eq_ok.1 h
  obtain ⟨r, -, h⟩ := bind_eq_ok.1 h
  have hs' : s' = s₁.modifyGmo pp (·.write (qm used).outputs) := by
    rcases hout : r.outcome with e | link
    · rw [hout] at h
      cases Except.ok.inj h
    · rw [hout] at h
      exact (Except.ok.inj (Except.ok.inj h)).symm
  rw [hs']
  rcases ppGetMsgOpts_getBefore hr with ⟨hsupplies, heq⟩ | ⟨hnot, ⟨o, hpp⟩, happ⟩
  · obtain ⟨rfl, rfl⟩ := Prod.mk.inj heq
    rw [if_pos hsupplies]
    obtain rfl := Except.ok.inj hused
    exact Function.update_self ..
  · obtain rfl : pp = .myGmo o := hpp
    rw [if_neg hnot, State.modifyGmo_myGmo_appGmo]
    exact congrFun happ a

/-- **When the application finds the outputs of its call.** In its MQPMO after an MQPUT or MQPUT1,
and in its MQGMO after an MQGET: when it supplies a message handle there, or when the queue manager
would write just what is there already. -/
theorem outputs_iff (env env' : Env) (s : State) (hc : MQHCONN) (a : AppAddr) :
    (∀ ho msg qm s', stateAfterPut env s hc ho msg a qm = .ok (.ok s') →
      (SamePmoOutputs s s' a qm ↔
        SuppliesPutHandle (s.appPmo a) ∨ qm (s.appPmo a) = (s.appPmo a).outputs)) ∧
    ∀ qm s', stateAfterGet env env' s hc a qm = .ok (.ok s') →
      (SameGmoOutputs s s' a qm ↔ SuppliesHandle (s.appGmo a) ∨
        ((s.appGmo a).write (qm (s.appGmo a)).outputs).outputs = (s.appGmo a).outputs) := by
  refine ⟨fun ho msg qm s' h ↦ ?_, fun qm s' h ↦ ?_⟩
  · rw [SamePmoOutputs, appPmo_stateAfterPut h]
    split_ifs with hsupplies
    · exact iff_of_true rfl (Or.inl hsupplies)
    · have hwritten : ((s.appPmo a).write (qm (s.appPmo a))).outputs = qm (s.appPmo a) := rfl
      rw [hwritten, or_iff_right hsupplies]
      exact eq_comm
  · rw [SameGmoOutputs, appGmo_stateAfterGet h]
    split_ifs with hsupplies
    · exact iff_of_true rfl (Or.inl hsupplies)
    · rw [or_iff_right hsupplies]
      exact eq_comm

/-! ### A put whose outputs are lost -/

/-- A queue manager that resolves every queue to `Q`. -/
def resolvingQ (_ : MQPMO) : PmoOutputs where
  knownDestCount := 1
  unknownDestCount := 0
  invalidDestCount := 0
  resolvedQName := lit "Q"
  resolvedQMgrName := lit "QM"

/-- The state that a put with the default structure leaves. -/
def plainPut : Except Fault (Except CppException State) :=
  stateAfterPut (.creating .sample) .plain 1 (some 3) ⟨none, []⟩ 0 resolvingQ

theorem outputs_iff_plainPut :
    ∃ s', plainPut = .ok (.ok s') ∧ (SamePmoOutputs .plain s' 0 resolvingQ ↔
      SuppliesPutHandle (State.plain.appPmo 0) ∨
        resolvingQ (State.plain.appPmo 0) = (State.plain.appPmo 0).outputs) :=
  ⟨_, rfl, (outputs_iff (.creating .sample) (.creating .sample) .plain 1 0).1 (some 3) ⟨none, []⟩
    resolvingQ _ rfl⟩

/-- The application's structure does not have the name of the queue. -/
theorem not_samePmoOutputs_plainPut :
    ∃ s', plainPut = .ok (.ok s') ∧ ¬ SamePmoOutputs .plain s' 0 resolvingQ := by
  refine ⟨_, rfl, fun h ↦ ?_⟩
  exact absurd (congrArg PmoOutputs.resolvedQName h) (by decide)

end MqExits.Otel
