import MqExits.Otel.PutPointer

/-!
# The properties the messages carry

A run of MQPUT and MQPUT1 calls on one connection whose application supplies neither a message
handle nor an RFH2 header. All of them use the one handle stored for the connection. A property set
in it stays there until it is set again, and every put sends all it holds.

So a message carries **the latest values set on the connection** (`message_eq_latest`), which are
not always those of its own span: a put within no valid span sets nothing, and one within a span
without a trace state sets no trace state, and what an earlier put has set goes out with them.

## Histories

What a put sets is a function of its input (`setsParent`, `setsState`), so that the latest value set
is one of the steps before and not of the state. The invariant ties the two (`HoldsLatest`): the
stored handle holds the latest values, and while there is none, nothing has been set. The second
half is needed where the first handle is created, which holds nothing when it is new.

The condition for a message to have its own span's context is on the put and on the history before
it (`NothingStale`). It says nothing of a put that sends no message, or for which there is no
handle.
-/

namespace MqExits.Otel

open CText Outcome

/-! ### The machine -/

/-- The properties of a message handle, or of a message, by name. -/
abbrev Props := Bytes → Option Bytes

/-- The module, and what the queue manager holds for its message handles. -/
structure PutState where
  exit : State
  props : MQHMSG → Props

/-- The module as it is loaded; no handle holds a property. -/
def PutState.loaded (appGmo : AppAddr → MQGMO) (appPmo : AppAddr → MQPMO) : PutState where
  exit := State.init appGmo appPmo
  props _ _ := none

/-- One MQPUT or MQPUT1. -/
structure PutInput where
  env : Env
  ho : Option MQHOBJ
  msg : PutMessage
  a : AppAddr
  /-- What the application has in its structure. -/
  pmo : MQPMO
  /-- The queue manager accepts the put, given a handle that it knows. -/
  accepted : Bool
  out : PmoOutputs

/-- MQSETMP. It fails on an unusable handle. -/
def setmp (props : MQHMSG → Props) (c : SetmpCall) : MQHMSG → Props :=
  if isValidHandle c.mh then
    Function.update props c.mh (Function.update (props c.mh) c.name (some c.value))
  else props

/-- The message that goes out, if one does: it carries every property of the handle. -/
def sentMessage (props : MQHMSG → Props) (accepted : Bool) (used : MQPMO) : Option Props :=
  if accepted ∧ isValidHandle used.originalMsgHandle then some (props used.originalMsgHandle)
  else none

/-- The part of a put after the exit before it has returned. -/
def finishPut (s : PutState) (hc : MQHCONN) (i : PutInput) (r : PutBeforeResult)
    (calls : List SetmpCall) : Except Fault (PutState × Option Props) := do
  let used ← r.state.derefPmo r.ppPutMsgOpts
  let props := calls.foldl setmp s.props
  let exit := r.state.modifyPmo r.ppPutMsgOpts (·.write i.out)
  let _ ← mqotPutAfter exit hc i.ho r.ppPutMsgOpts
  return (⟨exit, props⟩, sentMessage props i.accepted used)

/-- A put without a supplied handle and without a header: the exit before it, the real call, and
the exit after it. -/
def putStep (hc : MQHCONN) (s : PutState) (i : PutInput) : Option (PutState × Option Props) :=
  if SuppliesPutHandle i.pmo ∨ i.msg.hasRfh2 then none
  else
    let exit := { s.exit with appPmo := Function.update s.exit.appPmo i.a i.pmo }
    match mqotPutBefore i.env exit hc i.ho i.msg (.app i.a) with
    | .error _ => none
    | .ok r =>
      match r.outcome with
      | .error _ => none
      | .ok calls => (finishPut s hc i r calls).toOption

/-- The puts on connection `hc`. -/
def putMachine (hc : MQHCONN) : Machine PutState PutInput (Option Props) where
  step := putStep hc

/-- A step of that machine. -/
abbrev PutEvent := Machine.Event PutState PutInput (Option Props)

/-! ### What a put sets and what it should set -/

/-- The `traceparent` value for a span. -/
def wantedParent (c : SpanContext) : Option Bytes :=
  if c.isValid then some (traceparentText c) else none

/-- The `tracestate` value for a span: its header, unless that is empty. -/
def wantedState (c : SpanContext) : Option Bytes :=
  if c.isValid then c.traceState.filter (· ≠ []) else none

/-- The `tracestate` value that is set: what is read where the header was, unless that is empty. -/
def readState (env : Env) : Option Bytes :=
  if env.currentSpan.isValid then
    (env.currentSpan.traceState.map (tracestateText env)).filter (· ≠ [])
  else none

/-- The handle of a put. -/
def putHandle (hc : MQHCONN) (s : PutState) (i : PutInput) : MQHMSG :=
  (getMsgHandle i.env s.exit hc none).1

/-- The `traceparent` value that a step sets in the handle. -/
def setsParent (hc : MQHCONN) (e : PutEvent) : Option Bytes :=
  if HasPutHandle e.input.env e.pre.exit hc then wantedParent e.input.env.currentSpan else none

/-- The `tracestate` value that a step sets in the handle. -/
def setsState (hc : MQHCONN) (e : PutEvent) : Option Bytes :=
  if HasPutHandle e.input.env e.pre.exit hc then readState e.input.env else none

/-- The handle of a put is valid when one is stored or can be created. -/
theorem isValidHandle_putHandle {hc : MQHCONN} {s : PutState} {i : PutInput} :
    isValidHandle (putHandle hc s i) = true ↔ HasPutHandle i.env s.exit hc := by
  rw [← compareMsgHandle_getMsgHandle]
  refine ⟨fun h ↦ ?_, isValidHandle_of_compareMsgHandle⟩
  rcases getMsgHandle_cases i.env s.exit hc none with ⟨mh, hm, heq, hl, -, -⟩ | ⟨heq, -, -⟩
  · rw [heq]
    exact compareMsgHandle_iff.2 ⟨mh, hl, rfl⟩
  · rw [putHandle, heq] at h
    simp at h

/-- The two properties are two. -/
theorem TRACEPARENT_ne_TRACESTATE : TRACEPARENT ≠ TRACESTATE := by decide

/-- The calls, in terms of the two values and the two flags. -/
theorem setmpCalls_eq (env : Env) (mh : MQHMSG) (skipParent skipState : Bool) :
    setmpCalls env mh skipParent skipState =
      (if skipParent then [] else
        ((wantedParent env.currentSpan).map fun v ↦ ⟨mh, TRACEPARENT, v⟩).toList) ++
      (if skipState then [] else ((readState env).map fun v ↦ ⟨mh, TRACESTATE, v⟩).toList) := by
  unfold setmpCalls wantedParent readState
  by_cases hspan : env.currentSpan.isValid = true
  · rcases hts : env.currentSpan.traceState with - | header
    · simp [hspan]
    · by_cases hv : tracestateText env header = []
      · simp [hspan, hv]
      · simp [hspan, hv, List.length_pos_iff, Option.filter]
  · simp [hspan]

/-- What the calls leave in a handle: the new values over the old ones. -/
theorem foldl_setmp (env : Env) {mh : MQHMSG} (hmh : isValidHandle mh = true)
    (props : MQHMSG → Props) :
    ((setmpCalls env mh false false).foldl setmp props) mh TRACEPARENT =
        (wantedParent env.currentSpan).or (props mh TRACEPARENT) ∧
      ((setmpCalls env mh false false).foldl setmp props) mh TRACESTATE =
        (readState env).or (props mh TRACESTATE) := by
  have hne := TRACEPARENT_ne_TRACESTATE
  rw [setmpCalls_eq]
  rcases wantedParent env.currentSpan with - | v <;> rcases readState env with - | w <;>
    simp [setmp, hmh, hne, hne.symm]

/-- Without a handle nothing is set. -/
theorem foldl_setmp_of_not_valid {env : Env} {mh : MQHMSG} (hmh : ¬ isValidHandle mh = true)
    (props : MQHMSG → Props) : (setmpCalls env mh false false).foldl setmp props = props := by
  rw [setmpCalls_eq]
  rcases wantedParent env.currentSpan with - | v <;> rcases readState env with - | w <;>
    simp [setmp, hmh]

/-! ### One put -/

/-- **What one put does**: it uses the connection's handle, sets what it sets in it, and sends what
the handle then holds. -/
theorem putStep_spec {hc : MQHCONN} {s s' : PutState} {i : PutInput} {message : Option Props}
    (h : putStep hc s i = some (s', message)) :
    s'.exit.objectHandleMap = (getMsgHandle i.env s.exit hc none).2.objectHandleMap ∧
      s'.props = (setmpCalls i.env (putHandle hc s i) false false).foldl setmp s.props ∧
      message = if i.accepted ∧ isValidHandle (putHandle hc s i) then
        some (s'.props (putHandle hc s i)) else none := by
  simp only [putStep] at h
  split_ifs at h with hguard
  simp only [not_or, Bool.not_eq_true] at hguard
  obtain ⟨hsupplies, hheader⟩ := hguard
  let exit : State := { s.exit with appPmo := Function.update s.exit.appPmo i.a i.pmo }
  have hpmo : exit.appPmo i.a = i.pmo := Function.update_self _ _ _
  rcases hr : mqotPutBefore i.env exit hc i.ho i.msg (.app i.a) with e | r
  · simp [exit, hr] at h
  rcases hcalls : r.outcome with e | calls
  · simp [exit, hr, hcalls] at h
  -- the exit before the put has stashed the pointer and set the properties
  obtain ⟨t, ht, -⟩ := bind_eq_ok.1 hr
  have hnot : ¬ SuppliesPutHandle (exit.appPmo i.a) := by rwa [hpmo]
  have hu : exit.Usable (objectKey hc i.ho) := usable_of_putTarget hnot ht
  obtain ⟨o, obj, s₁, ht₁, hhm, hopt, -, hmy, -⟩ := putTarget_spec i.env hnot hu
  obtain ⟨skips, hskips, rfl⟩ := (mqotPutBefore_returns_iff ht₁).1 ⟨hr, calls, hcalls⟩
  obtain rfl : skips = (false, false) := by
    rw [rfh2Skips, hheader] at hskips
    exact (returns_pure.1 hskips).symm
  obtain rfl := Except.ok.inj hcalls
  -- the handle of the connection does not depend on the application's structures
  have hmap : exit.objectHandleMap = s.exit.objectHandleMap := rfl
  have hget : getMsgHandle i.env exit hc none = (putHandle hc s i,
      { exit with objectHandleMap := (getMsgHandle i.env s.exit hc none).2.objectHandleMap }) :=
    getMsgHandle_congr hmap i.env hc none
  have hmh : putHandle hc s i = (getMsgHandle i.env exit hc none).1 := by rw [hget]
  simp only [exit, hr] at h
  rcases hfinish : finishPut s hc i _ _ with e | q
  · rw [hfinish] at h
    cases h
  rw [hfinish] at h
  obtain rfl := Option.some.inj h
  obtain ⟨used, hused, hfinish⟩ := bind_eq_ok.1 hfinish
  obtain ⟨_, -, hfinish⟩ := bind_eq_ok.1 hfinish
  obtain ⟨rfl, rfl⟩ := Prod.mk.inj (Except.ok.inj hfinish)
  rw [derefPmo_of_optionsAt hopt, hmy] at hused
  obtain rfl := Except.ok.inj hused
  refine ⟨?_, ?_, ?_⟩
  · rw [State.modifyPmo_objectHandleMap, hhm, hget]
  · rw [hmh]
    rfl
  · rw [hmh]
    rfl

/-! ### A run of puts -/

/-- What the history says of the state: the stored handle holds the latest values set, and while
none is stored nothing has been set. -/
structure HoldsLatest (hc : MQHCONN) (tr : List PutEvent) (s : PutState) : Prop where
  stored : ∀ mh, s.exit.objectHandleMap.lookup (objectKey hc none) = some mh →
    s.props mh.val TRACEPARENT = Machine.latest (setsParent hc) tr ∧
      s.props mh.val TRACESTATE = Machine.latest (setsState hc) tr
  unset : s.exit.objectHandleMap.lookup (objectKey hc none) = none →
    (∀ mh name, s.props mh name = none) ∧ Machine.latest (setsParent hc) tr = none ∧
      Machine.latest (setsState hc) tr = none

/-- The handle that a put uses holds the latest values set, also when it is a new one. -/
theorem HoldsLatest.putHandle {hc : MQHCONN} {tr : List PutEvent} {s : PutState} {i : PutInput}
    (h : HoldsLatest hc tr s) (hmh : isValidHandle (putHandle hc s i) = true) :
    s.props (putHandle hc s i) TRACEPARENT = Machine.latest (setsParent hc) tr ∧
      s.props (putHandle hc s i) TRACESTATE = Machine.latest (setsState hc) tr := by
  rcases getMsgHandle_cases i.env s.exit hc none with ⟨mh, hm, heq, -, -, hfrom⟩ | ⟨heq, -, -⟩
  · have hval : Otel.putHandle hc s i = mh.val := by rw [Otel.putHandle, heq]
    rw [hval]
    rcases hfrom with hl | ⟨hl, -⟩
    · exact h.stored mh hl
    · obtain ⟨hprops, hparent, hstate⟩ := h.unset hl
      rw [hprops, hprops, hparent, hstate]
      exact ⟨rfl, rfl⟩
  · rw [Otel.putHandle, heq] at hmh
    simp at hmh

/-- What a put leaves in its handle. -/
theorem props_putStep {hc : MQHCONN} {tr : List PutEvent} {s s' : PutState} {i : PutInput}
    {message : Option Props} (h : HoldsLatest hc tr s)
    (hstep : putStep hc s i = some (s', message))
    (hmh : isValidHandle (putHandle hc s i) = true) :
    s'.props (putHandle hc s i) TRACEPARENT =
        Machine.latest (setsParent hc) (tr ++ [⟨s, i, message, s'⟩]) ∧
      s'.props (putHandle hc s i) TRACESTATE =
        Machine.latest (setsState hc) (tr ++ [⟨s, i, message, s'⟩]) := by
  obtain ⟨-, hprops, -⟩ := putStep_spec hstep
  obtain ⟨hparent, hstate⟩ := foldl_setmp i.env hmh s.props
  obtain ⟨hparent₀, hstate₀⟩ := h.putHandle hmh
  rw [hprops, hparent, hstate, hparent₀, hstate₀, Machine.latest_append_singleton,
    Machine.latest_append_singleton, setsParent, setsState,
    if_pos (isValidHandle_putHandle.1 hmh), if_pos (isValidHandle_putHandle.1 hmh)]
  exact ⟨rfl, rfl⟩

/-- **One put preserves the invariant.** -/
theorem HoldsLatest.step {hc : MQHCONN} {tr : List PutEvent} {s s' : PutState} {i : PutInput}
    {message : Option Props} (h : HoldsLatest hc tr s)
    (hstep : putStep hc s i = some (s', message)) :
    HoldsLatest hc (tr ++ [⟨s, i, message, s'⟩]) s' := by
  obtain ⟨hmap, hprops, -⟩ := putStep_spec hstep
  by_cases hhas : HasPutHandle i.env s.exit hc
  · obtain ⟨mh, hmh, hl⟩ := hhas.exists_stored
    rw [← hmap] at hl
    constructor
    · intro mh' hmh'
      obtain rfl := Option.some.inj (hl.symm.trans hmh')
      rw [← hmh]
      exact props_putStep h hstep (isValidHandle_putHandle.2 hhas)
    · intro hnone
      cases hl.symm.trans hnone
  · -- no handle: nothing is set, and none is stored
    have hl : s.exit.objectHandleMap.lookup (objectKey hc none) = none :=
      Option.not_isSome_iff_eq_none.1 fun hsome ↦ hhas (.inl hsome)
    rw [foldl_setmp_of_not_valid (mt isValidHandle_putHandle.1 hhas)] at hprops
    rw [getMsgHandle_of_not_hasPutHandle hhas] at hmap
    obtain ⟨hprops₀, hparent, hstate⟩ := h.unset hl
    constructor
    · intro mh' hmh'
      rw [hmap] at hmh'
      cases hl.symm.trans hmh'
    · intro _
      rw [hprops, Machine.latest_append_singleton, Machine.latest_append_singleton, setsParent,
        setsState, if_neg hhas, if_neg hhas]
      exact ⟨hprops₀, hparent, hstate⟩

theorem holdsLatest_loaded (hc : MQHCONN) (appGmo : AppAddr → MQGMO)
    (appPmo : AppAddr → MQPMO) : HoldsLatest hc [] (PutState.loaded appGmo appPmo) where
  stored mh h := by simp [PutState.loaded, State.init] at h
  unset _ := ⟨fun _ _ ↦ rfl, rfl, rfl⟩

/-- **What a message carries**: the latest values set on the connection, its own put included. -/
theorem message_eq_latest {hc : MQHCONN} {tr : List PutEvent} {s s' : PutState} {i : PutInput}
    {m : Props} (h : HoldsLatest hc tr s) (hstep : putStep hc s i = some (s', some m)) :
    m TRACEPARENT = Machine.latest (setsParent hc) (tr ++ [⟨s, i, some m, s'⟩]) ∧
      m TRACESTATE = Machine.latest (setsState hc) (tr ++ [⟨s, i, some m, s'⟩]) := by
  obtain ⟨-, -, hm⟩ := putStep_spec hstep
  split_ifs at hm with hcond
  obtain rfl := Option.some.inj hm
  exact props_putStep h hstep hcond.2

/-! ### Messages with the context of their own span -/

/-- The message of a step, if one goes out, carries the context of the span current at it. -/
def CarriesOwnContext (e : PutEvent) : Prop :=
  ∀ m, e.output = some m → m TRACEPARENT = wantedParent e.input.env.currentSpan ∧
    m TRACESTATE = wantedState e.input.env.currentSpan

/-- The trace state in the handle will be the span's own, given the latest one that an earlier put
has set: the header is read back as it is, or as nothing where the latest one is the same; and
without a header nothing is read and nothing was set. -/
def ReadsOwnState (env : Env) (earlier : Option Bytes) : Prop :=
  match wantedState env.currentSpan with
  | some header =>
    tracestateText env header = header ∨ tracestateText env header = [] ∧ earlier = some header
  | none => readState env = none ∧ earlier = none

theorem or_eq_wantedState_iff {env : Env} {earlier : Option Bytes} :
    (readState env).or earlier = wantedState env.currentSpan ↔ ReadsOwnState env earlier := by
  rw [ReadsOwnState]
  split
  · next header hwanted =>
    have hparts : env.currentSpan.isValid = true ∧ env.currentSpan.traceState = some header ∧
        header ≠ [] := by
      rw [wantedState] at hwanted
      split_ifs at hwanted with hspan
      obtain ⟨htext, hne⟩ := Option.filter_eq_some_iff.1 hwanted
      exact ⟨hspan, htext, by simpa using hne⟩
    obtain ⟨hspan, htext, hne⟩ := hparts
    rw [hwanted, readState, if_pos hspan, htext, Option.map_some]
    by_cases hread : tracestateText env header = []
    · simp [hread, Ne.symm hne]
    · simp [hread, Option.filter]
  · next hwanted =>
    rw [hwanted, Option.or_eq_none_iff]

/-- Nothing that an earlier put has set goes out with a message that should not have it, and the
trace state is the span's own. -/
def NothingStale (hc : MQHCONN) (before : List PutEvent) (e : PutEvent) : Prop :=
  e.input.accepted = true → HasPutHandle e.input.env e.pre.exit hc →
    (e.input.env.currentSpan.isValid = true ∨ ∀ e' ∈ before,
      HasPutHandle e'.input.env e'.pre.exit hc → e'.input.env.currentSpan.isValid = false) ∧
    ReadsOwnState e.input.env (Machine.latest (setsState hc) before)

/-- No put has set a trace parent when none with a handle was made within a valid span. -/
theorem latest_setsParent_eq_none_iff {hc : MQHCONN} {tr : List PutEvent} :
    Machine.latest (setsParent hc) tr = none ↔ ∀ e ∈ tr,
      HasPutHandle e.input.env e.pre.exit hc → e.input.env.currentSpan.isValid = false := by
  rw [Machine.latest_eq_none_iff]
  refine forall₂_congr fun e _ ↦ ?_
  rw [setsParent, wantedParent]
  split_ifs with hhandle hspan
  · simp [hhandle, hspan]
  · simp [hspan]
  · simp [hhandle]

/-- One put carries the context of its span exactly when nothing is stale at it. -/
theorem carriesOwnContext_step {hc : MQHCONN} {tr : List PutEvent} {s s' : PutState}
    {i : PutInput} {message : Option Props} (h : HoldsLatest hc tr s)
    (hstep : putStep hc s i = some (s', message)) :
    CarriesOwnContext ⟨s, i, message, s'⟩ ↔ NothingStale hc tr ⟨s, i, message, s'⟩ := by
  have hmessage := (putStep_spec hstep).2.2
  simp only [isValidHandle_putHandle] at hmessage
  by_cases hcond : i.accepted = true ∧ HasPutHandle i.env s.exit hc
  · rw [if_pos hcond] at hmessage
    subst hmessage
    obtain ⟨hparent, hstate⟩ := message_eq_latest h hstep
    rw [Machine.latest_append_singleton, setsParent, if_pos hcond.2] at hparent
    rw [Machine.latest_append_singleton, setsState, if_pos hcond.2] at hstate
    have hparentIff : (wantedParent i.env.currentSpan).or (Machine.latest (setsParent hc) tr) =
          wantedParent i.env.currentSpan ↔
        i.env.currentSpan.isValid = true ∨ Machine.latest (setsParent hc) tr = none := by
      rw [wantedParent]
      by_cases hspan : i.env.currentSpan.isValid = true <;> simp [hspan]
    simp only [CarriesOwnContext, NothingStale, Option.some.injEq, forall_eq', hparent, hstate,
      hparentIff, latest_setsParent_eq_none_iff, or_eq_wantedState_iff, hcond.1, hcond.2,
      forall_const]
  · rw [if_neg hcond] at hmessage
    subst hmessage
    refine iff_of_true (fun m hm ↦ by cases hm) fun h₁ h₂ ↦ absurd ⟨h₁, h₂⟩ hcond

/-- **When every message of a run carries the context of its own span**: when no put within no
valid span comes after one within a valid span, and no put without a trace state after one that set
one, and every trace state is read back as it is. -/
theorem carriesOwnContext_iff {hc : MQHCONN} {appGmo : AppAddr → MQGMO}
    {appPmo : AppAddr → MQPMO} {tr : List PutEvent} {s : PutState}
    (h : (putMachine hc).Run (PutState.loaded appGmo appPmo) tr s) :
    (∀ e ∈ tr, CarriesOwnContext e) ↔
      ∀ before e after, tr = before ++ e :: after → NothingStale hc before e :=
  h.forall_mem_iff (I := HoldsLatest hc) (holdsLatest_loaded hc appGmo appPmo)
    (fun _ _ _ _ _ hI hstep ↦ hI.step hstep)
    fun _ _ _ _ _ hI hstep ↦ carriesOwnContext_step hI hstep

/-! ### A run with a stale context -/

/-- A put with the default structure from within the span `c`. -/
def PutInput.within (c : SpanContext) : PutInput where
  env := .creating c
  ho := some 3
  msg := .plain
  a := 0
  pmo := MQPMO_DEFAULT
  accepted := true
  out := ⟨0, 0, 0, [], []⟩

/-- Two puts, from within a valid span and from within none. -/
def staleRun : List PutEvent × PutState :=
  ((putMachine 1).replay (PutState.loaded (fun _ ↦ MQGMO_DEFAULT) fun _ ↦ MQPMO_DEFAULT)
    [.within .sample, .within .invalid]).getD
      ([], PutState.loaded (fun _ ↦ MQGMO_DEFAULT) fun _ ↦ MQPMO_DEFAULT)

theorem run_staleRun :
    (putMachine 1).Run (PutState.loaded (fun _ ↦ MQGMO_DEFAULT) fun _ ↦ MQPMO_DEFAULT)
      staleRun.1 staleRun.2 :=
  Machine.run_getD_replay rfl

theorem carriesOwnContext_iff_staleRun :
    (∀ e ∈ staleRun.1, CarriesOwnContext e) ↔
      ∀ before e after, staleRun.1 = before ++ e :: after → NothingStale 1 before e :=
  carriesOwnContext_iff run_staleRun

/-- The second message carries the trace parent of the first. -/
theorem not_carriesOwnContext_staleRun :
    (putMachine 1).Run (PutState.loaded (fun _ ↦ MQGMO_DEFAULT) fun _ ↦ MQPMO_DEFAULT)
        staleRun.1 staleRun.2 ∧
      ¬ ∀ e ∈ staleRun.1, CarriesOwnContext e := by
  refine ⟨run_staleRun, fun h ↦ ?_⟩
  have hall : staleRun.1.all fun e ↦
      e.output.all fun m ↦ m TRACEPARENT == wantedParent e.input.env.currentSpan := by
    rw [List.all_eq_true]
    intro e he
    rcases ho : e.output with - | m
    · rfl
    · simp [(h e he m ho).1]
  exact absurd hall (by decide +kernel)

end MqExits.Otel
