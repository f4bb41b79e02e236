import MqExits.Otel.Isolation

/-!
# Whose PROPCTL value an MQGET reads

`mqotOpenAfter` records the PROPCTL attribute of a queue under the handle of the object, for
`mqotGetBefore` to read when a message is got from it. But the hook for a synchronous MQGET passes
`MQHO_UNUSABLE_HOBJ` in place of the handle, so what is read is the field of the structure that all
MQGETs and MQPUT1s of the connection share, and these allocate it without writing the field.

A run here is one of MQI calls, each step one hook of `mqiotel.c` (`MqiCall`, `mqiModule`). What was
stored, and for which object, is read off the steps before (`writtenTo`, `storedPropCtl`); an
invariant of the run says where in the maps it still is (`Traced`).

## What is read

`propCtlRead` is the first part of `mqotGetBefore`, up to the value of the field; that it is just
that part is `mqotGetBefore_eq_propCtlRead`. It reads nothing if the application supplies a handle,
and then there is nothing to be wrong. Else it reads the field of the shared structure, which is no
object's.

That a value is an object's own means that it was stored for that object and has been there ever
since. A field that happens to have the same number in it does not count.
-/

namespace MqExits.Otel

open CText Outcome

/-! ### The hooks of the MQI calls -/

/-- One hook of an MQI call, what the queue manager does in the call, or the application at work
between two calls. -/
inductive MqiCall
  | openAfter (env : Env) (hc : MQHCONN) (od : MQOD) (openOptions : BitVec 32) (ho : MQHOBJ)
  /-- The MQCLOSE of `ho` leaves `left` in the variable that held the handle. -/
  | closeAfter (hc : MQHCONN) (ho left : MQHOBJ)
  | putBefore (env : Env) (hc : MQHCONN) (ho : MQHOBJ) (msg : PutMessage) (a : AppAddr)
  | putAfter (hc : MQHCONN) (ho : MQHOBJ) (pp : PMQPMO)
  | put1Before (env : Env) (hc : MQHCONN) (msg : PutMessage) (a : AppAddr)
  | put1After (hc : MQHCONN) (pp : PMQPMO)
  | getBefore (env : Env) (hc : MQHCONN) (ho : MQHOBJ) (a : AppAddr)
  | getAfter (env : Env) (hc : MQHCONN) (ho : MQHOBJ) (out : GetOutcome) (pp : PMQGMO)
  | put (pp : PMQPMO) (out : PmoOutputs)
  | get (pp : PMQGMO) (out : GmoOutputs)
  | application (appGmo : AppAddr → MQGMO) (appPmo : AppAddr → MQPMO)

/-- What a hook calls: `PutBefore` and its like pass their arguments on, while `Put1Before`,
`Put1After`, `GetBefore` and `GetAfter` pass a dummy object. -/
def MqiCall.exitCall : MqiCall → ExitCall
  | .openAfter env hc od openOptions ho => .openAfter env hc od openOptions ho
  | .closeAfter hc _ left => .closeAfter hc left
  | .putBefore env hc ho msg a => .putBefore env hc (some ho) msg (.app a)
  | .putAfter hc ho pp => .putAfter hc (some ho) pp
  | .put1Before env hc msg a => .putBefore env hc (some MQHO_UNUSABLE_HOBJ) msg (.app a)
  | .put1After hc pp => .putAfter hc (some MQHO_UNUSABLE_HOBJ) pp
  | .getBefore env hc _ a => .getBefore env hc (some MQHO_UNUSABLE_HOBJ) (.app a)
  | .getAfter env hc _ out pp => .getAfter env
      ⟨hc, MQHO_UNUSABLE_HOBJ, out.format, out.buffer, out.compCode, out.reason⟩ pp
  | .put pp out => .put pp out
  | .get pp out => .get pp out
  | .application appGmo appPmo => .application appGmo appPmo

/-- The module under an application that opens, closes, puts and gets. -/
def mqiModule : Machine State MqiCall Unit where
  step s call := otelModule.step s call.exitCall

/-- A step of such a run. -/
abbrev MqiEvent := Machine.Event State MqiCall Unit

theorem mqiModule_step {s s' : State} {call : MqiCall} {o : Unit} :
    mqiModule.step s call = some (s', o) ↔ exitStep s call.exitCall = .ok s' :=
  otelModule_step

/-! ### The value that is read -/

/-- The value of `propCtl` when `mqotGetBefore` decides on the handle, with the structure it has
read it from if it has; `none` when the application supplies a handle and nothing is decided. -/
def propCtlRead (env : Env) (s : State) (hc : MQHCONN) (ho : Option MQHOBJ)
    (ppGetMsgOpts : PMQGMO) : Except Fault (Option (Option ObjAddr × MQLONG)) := do
  let gmo ← s.derefGmo ppGetMsgOpts
  if gmo.version ≥ MQGMO_VERSION_4 ∧ isValidHandle gmo.msgHandle then
    return none
  let (_, s) ← saveGmo env s hc ho ppGetMsgOpts
  if (s.objectOptionsMap.lookup (objectKey hc ho)).isNone then
    return some (none, -1)
  let (o, opts) ← optionsAt s (objectKey hc ho)
  return some (some o, opts.propCtl)

/-- The part of `mqotGetBefore` behind the read: what it makes of the value. -/
def useHandle (env : Env) (s : State) (hc : MQHCONN) (ho : Option MQHOBJ) (ppGetMsgOpts : PMQGMO)
    (getOptions : BitVec 32) (o : ObjAddr) (propCtl : MQLONG) :
    Except Fault (PMQGMO × State) := do
  let s := s.modifyGmo (.myGmo o) fun _ ↦ MQGMO_DEFAULT
  let gmo ← s.derefGmo ppGetMsgOpts
  let s := s.modifyGmo (.myGmo o) fun my ↦ my.memcpy gmo (gmoLength gmo)
  let s := s.modifyGmo (.myGmo o) fun my ↦
    if my.version < MQGMO_VERSION_4 then { my with version := MQGMO_VERSION_4 } else my
  if getOptions = MQGMO_NO_PROPERTIES ∨
      getOptions = MQGMO_PROPERTIES_AS_Q_DEF ∧ propCtl = MQPROP_NONE then
    let s := s.modifyGmo ppGetMsgOpts fun g ↦
      { g with options := g.options &&& ~~~MQGMO_NO_PROPERTIES ||| MQGMO_PROPERTIES_IN_HANDLE }
    let (mh, s) := getMsgHandle env s hc ho
    return (.myGmo o, s.modifyGmo (.myGmo o) fun my ↦ { my with msgHandle := mh })
  else
    return (.myGmo o, s)

/-- **`mqotGetBefore` goes by the value that is read**, and reads nothing else of the structure. -/
theorem mqotGetBefore_eq_propCtlRead (env : Env) (s : State) (hc : MQHCONN) (ho : Option MQHOBJ)
    (ppGetMsgOpts : PMQGMO) :
    mqotGetBefore env s hc ho ppGetMsgOpts = (do
      match ← propCtlRead env s hc ho ppGetMsgOpts with
      | none => return (ppGetMsgOpts, s)
      | some (read, propCtl) =>
        let gmo ← s.derefGmo ppGetMsgOpts
        let (o, s) ← saveGmo env s hc ho ppGetMsgOpts
        if read.isNone then return (ppGetMsgOpts, s)
        else useHandle env s hc ho ppGetMsgOpts (propGetOptions gmo.options) o propCtl) := by
  simp only [mqotGetBefore, propCtlRead, bind, Except.bind]
  -- the same tests in the same order, up to the read of the value
  rcases s.derefGmo ppGetMsgOpts with e | gmo
  · rfl
  dsimp only
  by_cases hsupplied : gmo.version ≥ MQGMO_VERSION_4 ∧ isValidHandle gmo.msgHandle = true
  · rw [if_pos hsupplied, if_pos hsupplied]
    rfl
  rw [if_neg hsupplied, if_neg hsupplied]
  rcases saveGmo env s hc ho ppGetMsgOpts with e | ⟨o, s₁⟩
  · rfl
  dsimp only
  by_cases hnone : (s₁.objectOptionsMap.lookup (objectKey hc ho)).isNone = true
  · rw [if_pos hnone, if_pos hnone]
    rfl
  rw [if_neg hnone, if_neg hnone]
  rcases optionsAt s₁ (objectKey hc ho) with e | ⟨o', opts⟩
  · rfl
  · rfl

/-- With a handle of the application's, nothing is read. -/
theorem propCtlRead_of_suppliesHandle {env : Env} {s : State} {hc : MQHCONN} {ho : Option MQHOBJ}
    {a : AppAddr} (h : SuppliesHandle (s.appGmo a)) :
    propCtlRead env s hc ho (.app a) = .ok none := by
  obtain ⟨hv, hm⟩ := h
  simp [propCtlRead, State.derefGmo, hv, hm, bind, Except.bind, pure, Except.pure]

/-- **What is read without one**: the field of the key's structure, or of a fresh one where the key
has none. -/
theorem propCtlRead_spec (env : Env) {s : State} {hc : MQHCONN} {ho : Option MQHOBJ}
    {a : AppAddr} (h : ¬ SuppliesHandle (s.appGmo a)) (hu : s.Usable (objectKey hc ho)) :
    ∃ o v, propCtlRead env s hc ho (.app a) = .ok (some (some o, v)) ∧
      ((∃ base, optionsAt s (objectKey hc ho) = .ok (o, base) ∧ base.propCtl = v) ∨
        s.objectOptionsMap.lookup (objectKey hc ho) = none ∧ o = s.nextObj ∧
          v = env.uninitObj.propCtl) := by
  obtain ⟨o, base, s₁, hsave, hopt, hbase, -⟩ :=
    saveOptions_spec env (fun h ↦ { h with gmo := .app a }) hu
  have hcond : ¬ ((s.appGmo a).version ≥ MQGMO_VERSION_4 ∧
      isValidHandle (s.appGmo a).msgHandle = true) := h
  have hpresent : (s₁.objectOptionsMap.lookup (objectKey hc ho)).isNone = false := by
    rw [(optionsAt_eq_ok.1 hopt).1]
    rfl
  refine ⟨o, base.propCtl, ?_, ?_⟩
  · simp only [propCtlRead, State.derefGmo, saveGmo, bind, Except.bind, if_neg hcond, hsave,
      hpresent, hopt]
    rfl
  · rcases hbase with hold | ⟨hnone, rfl⟩
    · exact Or.inl ⟨base, hold, rfl⟩
    · refine Or.inr ⟨hnone, ?_, rfl⟩
      rw [saveOptions, hnone] at hsave
      exact (Prod.mk.inj (Except.ok.inj hsave)).1.symm

/-! ### What was stored -/

/-- A value of PROPCTL, and the object for which `mqotOpenAfter` has stored it. -/
structure PropCtlRecord where
  hConn : MQHCONN
  hObj : MQHOBJ
  propCtl : MQLONG
  deriving DecidableEq

/-- What the step writes to the `propCtl` field of the structure at `o`. -/
def writesTo (o : ObjAddr) (e : MqiEvent) : Option PropCtlRecord :=
  match e.input with
  | .openAfter env hc od openOptions ho =>
    if RecordsOpen od openOptions ∧ e.pre.nextObj = o then
      some ⟨hc, ho, inquirePropCtl env hc ho od openOptions⟩
    else none
  | _ => none

/-- The last write to the field, or `none` for a field that nothing has written. -/
def writtenTo (tr : List MqiEvent) (o : ObjAddr) : Option PropCtlRecord :=
  Machine.latest (writesTo o) tr

/-- What the step does to the value stored for an object: an MQOPEN that returns the handle stores
one or, where it does not record, leaves the new object without; an MQCLOSE ends the object. -/
def setsPropCtl (hc : MQHCONN) (ho : MQHOBJ) (e : MqiEvent) : Option (Option MQLONG) :=
  match e.input with
  | .openAfter env hc' od openOptions ho' =>
    if hc' = hc ∧ ho' = ho then
      some (if RecordsOpen od openOptions then some (inquirePropCtl env hc ho od openOptions)
        else none)
    else none
  | .closeAfter hc' ho' _ => if hc' = hc ∧ ho' = ho then some none else none
  | _ => none

/-- The value the latest `mqotOpenAfter` has stored for the open object. -/
def storedPropCtl (tr : List MqiEvent) (hc : MQHCONN) (ho : MQHOBJ) : Option MQLONG :=
  (Machine.latest (setsPropCtl hc ho) tr).join

/-- What is read is the object's own: the value that was stored for it, read where it was stored, or
-1 where none was. -/
def IsOwn (tr : List MqiEvent) (hc : MQHCONN) (ho : MQHOBJ) :
    Option (Option ObjAddr × MQLONG) → Prop
  | none => True
  | some (none, v) => v = -1 ∧ storedPropCtl tr hc ho = none
  | some (some o, v) => writtenTo tr o = some ⟨hc, ho, v⟩ ∧ storedPropCtl tr hc ho = some v

/-- An MQGET on an object reads the object's own value. -/
def ReadsOwnPropCtl (tr : List MqiEvent) (e : MqiEvent) : Prop :=
  match e.input with
  | .getBefore env hc ho a => ho ≠ MQHO_UNUSABLE_HOBJ →
    ∃ read, propCtlRead env e.pre hc (some MQHO_UNUSABLE_HOBJ) (.app a) = .ok read ∧
      IsOwn tr hc ho read
  | _ => True

/-- The step is an MQGET on an object without a message handle of the application's. -/
def GetsWithoutHandle (e : MqiEvent) : Prop :=
  match e.input with
  | .getBefore _ _ ho a => ho ≠ MQHO_UNUSABLE_HOBJ ∧ ¬ SuppliesHandle (e.pre.appGmo a)
  | _ => False

/-! ### Where it still is -/

/-- What was stored stands under the key of the object it was stored for. -/
structure Traced (tr : List MqiEvent) (s : State) : Prop where
  wellFormed : s.WellFormed
  fresh : ∀ o, s.nextObj ≤ o → writtenTo tr o = none
  stored : ∀ key o w, s.objectOptionsMap.lookup key = some (some o) → writtenTo tr o = some w →
    key = objectKey w.hConn (some w.hObj) ∧ (s.heap o).map (·.propCtl) = some w.propCtl

theorem Traced.init (appGmo : AppAddr → MQGMO) (appPmo : AppAddr → MQPMO) :
    Traced [] (State.init appGmo appPmo) where
  wellFormed := State.wellFormed_init appGmo appPmo
  fresh _ _ := rfl
  stored _ _ _ _ h := by cases h

/-- A step writes to the structure it allocates or to none. -/
theorem writesTo_eq_none {e : MqiEvent} {o : ObjAddr}
    (h : e.input.exitCall.Records → e.pre.nextObj ≠ o) : writesTo o e = none := by
  rw [writesTo]
  split
  · rename_i heq
    rw [heq] at h
    exact if_neg fun hw ↦ h hw.1 hw.2
  · rfl

theorem writtenTo_append_of_none {tr : List MqiEvent} {e : MqiEvent} {o : ObjAddr}
    (h : e.input.exitCall.Records → e.pre.nextObj ≠ o) :
    writtenTo (tr ++ [e]) o = writtenTo tr o := by
  rw [writtenTo, Machine.latest_append_singleton, writesTo_eq_none h, Option.none_or]
  rfl

/-- A step that keeps the entries and the recorded values. -/
theorem Traced.congr {tr : List MqiEvent} {e : MqiEvent} (h : Traced tr e.pre)
    (hwf : e.post.WellFormed) (hkeeps : ¬ e.input.exitCall.Records)
    (hmap : e.post.objectOptionsMap = e.pre.objectOptionsMap)
    (hnext : e.post.nextObj = e.pre.nextObj)
    (hpropCtl : ∀ o, (e.post.heap o).map (·.propCtl) = (e.pre.heap o).map (·.propCtl)) :
    Traced (tr ++ [e]) e.post where
  wellFormed := hwf
  fresh o ho := by
    rw [writtenTo_append_of_none fun hr ↦ absurd hr hkeeps]
    exact h.fresh o (hnext ▸ ho)
  stored key o w hl hw := by
    rw [writtenTo_append_of_none fun hr ↦ absurd hr hkeeps] at hw
    rw [hpropCtl]
    exact h.stored key o w (hmap ▸ hl) hw

/-- A recorded MQOPEN stores its value in the structure it enters. -/
theorem heap_of_records {s s' : State} {call : MqiCall} (hr : call.exitCall.Records)
    (hstep : exitStep s call.exitCall = .ok s') :
    ∃ w, writesTo s.nextObj ⟨s, call, (), s'⟩ = some w ∧
      call.exitCall.target = some (w.hConn, some w.hObj) ∧
      (s'.heap s.nextObj).map (·.propCtl) = some w.propCtl := by
  cases call with
  | openAfter env hc od openOptions ho =>
    have hr' : od.objectType = MQOT_Q ∧ openOptions &&& OPEN_GET_OPTIONS ≠ 0 := hr
    obtain rfl := Except.ok.inj hstep
    refine ⟨⟨hc, ho, inquirePropCtl env hc ho od openOptions⟩, if_pos ⟨hr', rfl⟩, rfl, ?_⟩
    rw [mqotOpenAfter, if_pos hr']
    simp [mqotMalloc, State.setObj]
  | closeAfter _ _ _ | putBefore _ _ _ _ _ | putAfter _ _ _ | put1Before _ _ _ _ | put1After _ _
  | getBefore _ _ _ _ | getAfter _ _ _ _ _ | put _ _ | get _ _ | application _ _ => exact hr.elim

/-- A call that works on one key. -/
theorem Traced.keyStep {tr : List MqiEvent} {s s' : State} {call : MqiCall} {hc : MQHCONN}
    {ho : Option MQHOBJ} (h : Traced tr s) (hwf : s'.WellFormed)
    (htarget : call.exitCall.target = some (hc, ho))
    (hstep : exitStep s call.exitCall = .ok s') : Traced (tr ++ [⟨s, call, (), s'⟩]) s' := by
  have hkey := (keyStep_exitStep htarget hstep).1
  -- what is stored for the other keys
  have hother : ∀ key o w, key ≠ objectKey hc ho →
      s'.objectOptionsMap.lookup key = some (some o) →
      writtenTo (tr ++ [⟨s, call, (), s'⟩]) o = some w →
      key = objectKey w.hConn (some w.hObj) ∧ (s'.heap o).map (·.propCtl) = some w.propCtl := by
    intro key o w hne hl hw
    rw [hkey.lookup_ne hne] at hl
    rw [writtenTo_append_of_none fun _ ↦ (h.wellFormed.ne_nextObj hl).symm] at hw
    rw [hkey.heap_ne h.wellFormed hne hl]
    exact h.stored key o w hl hw
  cases hkey with
  | kept keeps map next live propCtl frame =>
    exact h.congr (e := ⟨s, call, (), s'⟩) hwf keeps map next propCtl
  | allocated entry map next live frame =>
    refine ⟨hwf, fun o hle ↦ ?_, fun key o w hl hw ↦ ?_⟩
    · rw [next] at hle
      rw [writtenTo_append_of_none fun _ ↦ Nat.ne_of_lt hle]
      exact h.fresh o (Nat.le_of_succ_le hle)
    · rcases eq_or_ne key (objectKey hc ho) with rfl | hne
      · rw [map, AList.lookup_insert] at hl
        obtain rfl := Option.some.inj (Option.some.inj hl)
        by_cases hr : call.exitCall.Records
        · obtain ⟨w', hw', htarget', hvalue⟩ := heap_of_records hr hstep
          rw [writtenTo, Machine.latest_append_singleton, hw', Option.some_or] at hw
          obtain rfl := Option.some.inj hw
          rw [htarget] at htarget'
          obtain ⟨rfl, rfl⟩ := Prod.mk.inj (Option.some.inj htarget')
          exact ⟨rfl, hvalue⟩
        · -- `saveGmo` and `savePmo` leave the field as it is
          rw [writtenTo_append_of_none fun hr' ↦ absurd hr' hr, h.fresh _ le_rfl] at hw
          cases hw
      · exact hother key o w hne hl hw
  | freed keeps p s₁ entry free erase =>
    have hnext : s'.nextObj = s.nextObj := by
      rw [erase]
      show s₁.nextObj = s.nextObj
      exact nextObj_mqotFree free
    refine ⟨hwf, fun o hle ↦ ?_, fun key o w hl hw ↦ ?_⟩
    · rw [writtenTo_append_of_none fun hr ↦ absurd hr keeps]
      exact h.fresh o (hnext ▸ hle)
    · have hne : key ≠ objectKey hc ho := by
        rw [erase] at hl
        exact (lookup_erase_eq_some.1 hl).1
      exact hother key o w hne hl hw

/-- **One step keeps what was stored traceable.** -/
theorem Traced.step {tr : List MqiEvent} {s s' : State} {call : MqiCall} (h : Traced tr s)
    (hstep : exitStep s call.exitCall = .ok s') : Traced (tr ++ [⟨s, call, (), s'⟩]) s' := by
  have hwf := wellFormed_exitStep h.wellFormed hstep
  rcases htarget : call.exitCall.target with - | ⟨hc, ho⟩
  swap
  · exact h.keyStep hwf htarget hstep
  cases call with
  | put pp out =>
    obtain rfl := Except.ok.inj hstep
    exact h.congr (e := ⟨s, .put pp out, (), s.modifyPmo pp (·.write out)⟩) hwf id
      (s.modifyPmo_objectOptionsMap pp _) (s.modifyPmo_nextObj pp _) (s.modifyPmo_heap_propCtl pp _)
  | get pp out =>
    obtain rfl := Except.ok.inj hstep
    exact h.congr (e := ⟨s, .get pp out, (), s.modifyGmo pp (·.write out)⟩) hwf id
      (s.modifyGmo_objectOptionsMap pp _) (s.modifyGmo_nextObj pp _) (s.modifyGmo_heap_propCtl pp _)
  | application appGmo appPmo =>
    obtain rfl := Except.ok.inj hstep
    exact h.congr (e := ⟨s, .application appGmo appPmo, (), _⟩) hwf id rfl rfl fun _ ↦ rfl
  | openAfter _ _ _ _ _ | closeAfter _ _ _ | putBefore _ _ _ _ _ | putAfter _ _ _
  | put1Before _ _ _ _ | put1After _ _ | getBefore _ _ _ _ | getAfter _ _ _ _ _ => cases htarget

/-! ### Runs -/

/-- **What an MQGET reads** is a field that nothing has written, or the value stored for an MQOPEN
of the connection that ended without a handle. -/
theorem Traced.propCtlRead {tr : List MqiEvent} {s : State} (h : Traced tr s) (env : Env)
    (hc : MQHCONN) {a : AppAddr} (hgmo : ¬ SuppliesHandle (s.appGmo a)) :
    ∃ o v, Otel.propCtlRead env s hc (some MQHO_UNUSABLE_HOBJ) (.app a) = .ok (some (some o, v)) ∧
      (writtenTo tr o = none ∨ writtenTo tr o = some ⟨hc, MQHO_UNUSABLE_HOBJ, v⟩) := by
  obtain ⟨o, v, hread, hfrom⟩ := propCtlRead_spec env hgmo (h.wellFormed.usable hc _)
  refine ⟨o, v, hread, ?_⟩
  rcases hfrom with ⟨base, hopt, rfl⟩ | ⟨-, rfl, -⟩
  · obtain ⟨hl, hheap⟩ := optionsAt_eq_ok.1 hopt
    rcases hw : writtenTo tr o with - | w
    · exact Or.inl rfl
    · obtain ⟨hkey, hvalue⟩ := h.stored _ o w hl hw
      rw [hheap] at hvalue
      obtain ⟨hhc, hho⟩ := objectKey_inj.1 hkey
      have hobj : w.hObj = MQHO_UNUSABLE_HOBJ := by
        rcases hho with heq | ⟨-, hnone | hsome⟩
        · exact (Option.some.inj heq).symm
        · cases hnone
        · exact Option.some.inj hsome
      have hread' : base.propCtl = w.propCtl := Option.some.inj hvalue
      refine Or.inr (congrArg some ?_)
      rw [hhc, ← hobj, hread']
  · exact Or.inl (h.fresh _ le_rfl)

/-- A step reads the object's own value only where it reads none. -/
theorem readsOwnPropCtl_step {tr : List MqiEvent} {e : MqiEvent} (h : Traced tr e.pre) :
    ReadsOwnPropCtl tr e ↔ ¬ GetsWithoutHandle e := by
  rw [ReadsOwnPropCtl, GetsWithoutHandle]
  split
  swap
  · exact iff_of_true trivial id
  rename_i env hc ho a heq
  rw [not_and_not_right]
  refine forall_congr' fun hne ↦ ?_
  constructor
  · rintro ⟨read, hread, hown⟩
    by_contra hgmo
    obtain ⟨o, v, hread', hfrom⟩ := h.propCtlRead env hc hgmo
    rw [hread'] at hread
    obtain rfl := Except.ok.inj hread
    obtain ⟨hwritten, -⟩ := hown
    rcases hfrom with hnone | hother
    · rw [hnone] at hwritten
      cases hwritten
    · rw [hother] at hwritten
      exact hne (congrArg PropCtlRecord.hObj (Option.some.inj hwritten)).symm
  · intro hgmo
    exact ⟨none, propCtlRead_of_suppliesHandle hgmo, trivial⟩

/-- **When the MQGETs of a run read the values of their own objects**: when each of them supplies a
message handle, so that the module reads no value at all. -/
theorem readsOwnPropCtl_iff {appGmo : AppAddr → MQGMO} {appPmo : AppAddr → MQPMO}
    {tr : List MqiEvent} {s : State} (hrun : mqiModule.Run (State.init appGmo appPmo) tr s) :
    (∀ before e after, tr = before ++ e :: after → ReadsOwnPropCtl before e) ↔
      ∀ e ∈ tr, ¬ GetsWithoutHandle e := by
  have hiff := hrun.forall_mem_iff (I := Traced) (P := fun e ↦ ¬ GetsWithoutHandle e)
    (Q := ReadsOwnPropCtl) (Traced.init appGmo appPmo)
    (fun _ _ _ _ _ h hstep ↦ h.step (mqiModule_step.1 hstep))
    fun _ _ _ _ _ h _ ↦ (readsOwnPropCtl_step h).symm
  exact hiff.symm

/-! ### A run that reads another's -/

/-- A queue is opened for input, with a PROPCTL value of 1, and a message is got from it. -/
def getCalls : List MqiCall :=
  let env : Env := { Env.refusing .sample with
    reopen := fun _ _ _ ↦ some 4
    inq := fun _ _ ↦ some 1 }
  [.openAfter env 1 ⟨MQOT_Q, lit "Q", []⟩ MQOO_INPUT_SHARED 3, .getBefore env 1 3 0]

def getRun : List MqiEvent × State :=
  (mqiModule.replay .plain getCalls).getD ([], .plain)

theorem run_getRun : mqiModule.Run State.plain getRun.1 getRun.2 :=
  Machine.run_getD_replay rfl

theorem readsOwnPropCtl_iff_getRun :
    (∀ before e after, getRun.1 = before ++ e :: after → ReadsOwnPropCtl before e) ↔
      ∀ e ∈ getRun.1, ¬ GetsWithoutHandle e :=
  readsOwnPropCtl_iff run_getRun

/-- The value 1 was stored for the object, and a field that nothing has written is read. -/
theorem not_readsOwnPropCtl_getRun :
    mqiModule.Run State.plain getRun.1 getRun.2 ∧
      ¬ ∀ before e after, getRun.1 = before ++ e :: after → ReadsOwnPropCtl before e := by
  refine ⟨run_getRun, fun h ↦ ?_⟩
  obtain ⟨read, hread, hown⟩ := h (getRun.1.take 1) _ [] rfl (by decide)
  obtain rfl := Except.ok.inj hread
  exact absurd hown.1 (by decide)

end MqExits.Otel
