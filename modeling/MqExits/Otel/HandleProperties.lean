import MqExits.Otel.HeaderProperties

/-!
# A put with a message handle of the application's

`mqotPutBefore` asks the queue manager what the handle holds already, and sets the properties that
it lacks. With a NewMsgHandle it asks about the handle it then writes to. With an OriginalMsgHandle
it asks about the variable `mho`, which nothing has written: where that is no handle at all the
inquiry fails for another reason than a missing property, and both properties count as present.

So the put is right where the handle that is inquired answers like the one that is written, and the
header of the trace state is still there to be read (`setsMissingInHandle_iff`).

## What is assumed of MQINQMP

What a handle holds is a function of the handle, and `none` for a value which is no handle
(`handles`). MQINQMP answers from it as it is documented: that the property is not available,
exactly for a handle without the property. For a value that is no handle it fails in some other way,
and nothing more is assumed of how (`AnswersFrom`).

What the variable `mho` holds is a field of the environment, like everything that nothing has
written, so the theorem is about whatever it holds.
-/

namespace MqExits.Otel

open CText Outcome

/-! ### The two handles -/

/-- The application's handle, which receives the properties. -/
def suppliedHandle (pmo : MQPMO) : MQHMSG :=
  if isValidHandle pmo.newMsgHandle then pmo.newMsgHandle else pmo.originalMsgHandle

/-- The handle that is asked for them. -/
def inquiredHandle (env : Env) (pmo : MQPMO) : MQHMSG :=
  if isValidHandle pmo.newMsgHandle then pmo.newMsgHandle else env.uninitHmsg

/-- What `putTarget` decides with a supplied handle. -/
theorem putTarget_eq_of_suppliesPutHandle (env : Env) {s : State} (hc : MQHCONN)
    (ho : Option MQHOBJ) {a : AppAddr} (h : SuppliesPutHandle (s.appPmo a)) :
    putTarget env s hc ho (.app a) =
      .ok ⟨suppliedHandle (s.appPmo a),
        propsContain env hc (inquiredHandle env (s.appPmo a)) TRACEPARENT,
        propsContain env hc (inquiredHandle env (s.appPmo a)) TRACESTATE, .app a, s⟩ := by
  obtain ⟨hv, hm⟩ := h
  by_cases hnew : isValidHandle (s.appPmo a).newMsgHandle = true
  · rw [putTarget_of_newMsgHandle hv hnew, suppliedHandle, inquiredHandle, if_pos hnew, if_pos hnew]
  · rw [putTarget_of_originalMsgHandle hv hnew (hm.resolve_left hnew), suppliedHandle,
      inquiredHandle, if_neg hnew, if_neg hnew]

/-! ### The answers of the queue manager -/

/-- MQINQMP answers on connection `hc` from what the message handles hold; `none` is no handle. -/
structure AnswersFrom (env : Env) (hc : MQHCONN) (handles : MQHMSG → Option Props) : Prop where
  noHandle : ∀ mh prop, handles mh = none →
    (env.inqmp hc mh prop).cc = .FAILED ∧ (env.inqmp hc mh prop).rc ≠ MQRC_PROPERTY_NOT_AVAILABLE
  absent : ∀ mh prop p, handles mh = some p → p prop = none →
    (env.inqmp hc mh prop).cc = .FAILED ∧ (env.inqmp hc mh prop).rc = MQRC_PROPERTY_NOT_AVAILABLE
  present : ∀ mh prop p, handles mh = some p → (p prop).isSome →
    (env.inqmp hc mh prop).rc ≠ MQRC_PROPERTY_NOT_AVAILABLE

/-- A message handle that holds the property. -/
def Holds (handles : MQHMSG → Option Props) (mh : MQHMSG) (prop : Bytes) : Prop :=
  ∃ p, handles mh = some p ∧ (p prop).isSome

/-- It holds the property or is no handle: the inquiry does not say that the property is missing. -/
def SeemsHeld (handles : MQHMSG → Option Props) (mh : MQHMSG) (prop : Bytes) : Prop :=
  handles mh = none ∨ Holds handles mh prop

theorem AnswersFrom.propsContain_iff {env : Env} {hc : MQHCONN}
    {handles : MQHMSG → Option Props} (h : AnswersFrom env hc handles) (mh : MQHMSG)
    (prop : Bytes) : propsContain env hc mh prop = true ↔ SeemsHeld handles mh prop := by
  rw [propsContain, decide_eq_true_iff, SeemsHeld, Holds]
  rcases hmh : handles mh with - | p
  · exact iff_of_true (Or.inr (h.noHandle mh prop hmh).2) (Or.inl rfl)
  rcases hprop : p prop with - | v
  · obtain ⟨hcc, hrc⟩ := h.absent mh prop p hmh hprop
    simp [hcc, hrc, hprop]
  · have hrc := h.present mh prop p hmh (by simp [hprop])
    simp [hrc, hprop]

/-! ### The property -/

/-- The put sets each of the two properties in the supplied handle exactly where it should: where
the handle lacks it and the span has a value for it. -/
def SetsMissingInHandle (env : Env) (s : State) (hc : MQHCONN) (ho : Option MQHOBJ)
    (msg : PutMessage) (a : AppAddr) (handles : MQHMSG → Option Props) : Prop :=
  ∃ r calls, mqotPutBefore env s hc ho msg (.app a) = .ok r ∧ r.outcome = .ok calls ∧
    (Sets calls (suppliedHandle (s.appPmo a)) TRACEPARENT ↔
      ¬ Holds handles (suppliedHandle (s.appPmo a)) TRACEPARENT) ∧
    (Sets calls (suppliedHandle (s.appPmo a)) TRACESTATE ↔
      ¬ Holds handles (suppliedHandle (s.appPmo a)) TRACESTATE ∧ HasStateHeader env.currentSpan)

/-- The inquired handle is to the put what the supplied one would be, and the header of the trace
state reads as a text where there is one to set. -/
structure InquiresAlike (env : Env) (handles : MQHMSG → Option Props) (pmo : MQPMO) : Prop where
  parent : SeemsHeld handles (inquiredHandle env pmo) TRACEPARENT ↔
    Holds handles (suppliedHandle pmo) TRACEPARENT
  missing : ¬ Holds handles (suppliedHandle pmo) TRACESTATE → HasStateHeader env.currentSpan →
    ¬ SeemsHeld handles (inquiredHandle env pmo) TRACESTATE ∧ (readState env).isSome
  unwanted : Holds handles (suppliedHandle pmo) TRACESTATE ∨ ¬ HasStateHeader env.currentSpan →
    SeemsHeld handles (inquiredHandle env pmo) TRACESTATE ∨ readState env = none

/-- With a NewMsgHandle only the header matters. -/
theorem inquiresAlike_iff_of_newMsgHandle {env : Env} {handles : MQHMSG → Option Props}
    {pmo : MQPMO} (hnew : isValidHandle pmo.newMsgHandle = true)
    (hhandle : (handles pmo.newMsgHandle).isSome) :
    InquiresAlike env handles pmo ↔
      (¬ Holds handles pmo.newMsgHandle TRACESTATE →
        (HasStateHeader env.currentSpan ↔ (readState env).isSome)) := by
  -- the handle that is inquired is the one that is written, so what seems to be held is held
  have hseems : ∀ prop, SeemsHeld handles (inquiredHandle env pmo) prop ↔
      Holds handles pmo.newMsgHandle prop := by
    intro prop
    rw [SeemsHeld, inquiredHandle, if_pos hnew, or_iff_right (Option.isSome_iff_ne_none.1 hhandle)]
  have hsupplied : suppliedHandle pmo = pmo.newMsgHandle := if_pos hnew
  constructor
  · intro h hnot
    have hmissing := h.missing
    have hunwanted := h.unwanted
    rw [hseems, hsupplied] at hmissing hunwanted
    refine ⟨fun hheader ↦ (hmissing hnot hheader).2, fun hread ↦ ?_⟩
    by_contra hheader
    have hnone := (hunwanted (Or.inr hheader)).resolve_left hnot
    simp [hnone] at hread
  · intro h
    refine ⟨?_, fun hnot hheader ↦ ?_, fun hcase ↦ ?_⟩
    · rw [hseems, hsupplied]
    · rw [hsupplied] at hnot
      rw [hseems]
      exact ⟨hnot, (h hnot).1 hheader⟩
    · rw [hsupplied] at hcase
      rw [hseems]
      refine or_iff_not_imp_left.2 fun hnot ↦ ?_
      rw [← Option.not_isSome_iff_eq_none, ← h hnot]
      exact hcase.resolve_left hnot

/-- The calls of a put with a supplied handle and no header. -/
theorem mqotPutBefore_of_suppliesPutHandle (env : Env) {s : State} (hc : MQHCONN)
    (ho : Option MQHOBJ) {msg : PutMessage} {a : AppAddr} {r : PutBeforeResult}
    (hsupplied : SuppliesPutHandle (s.appPmo a)) (hformat : msg.hasRfh2 = false) :
    (mqotPutBefore env s hc ho msg (.app a) = .ok r ∧ ∃ calls, r.outcome = .ok calls) ↔
      r = ⟨.app a, s, .ok (setmpCalls env (suppliedHandle (s.appPmo a))
        (propsContain env hc (inquiredHandle env (s.appPmo a)) TRACEPARENT)
        (propsContain env hc (inquiredHandle env (s.appPmo a)) TRACESTATE))⟩ := by
  have hskips : ∀ skips, Returns (rfh2Skips msg) skips ↔ skips = (false, false) := by
    intro skips
    rw [rfh2Skips, hformat]
    exact returns_pure.trans eq_comm
  rw [mqotPutBefore_returns_iff (putTarget_eq_of_suppliesPutHandle env hc ho hsupplied)]
  simp [hskips]

/-- What such a put sets. -/
theorem setsMissingInHandle_iff_seemsHeld {env : Env} {s : State} {hc : MQHCONN}
    {ho : Option MQHOBJ} {msg : PutMessage} {a : AppAddr} {handles : MQHMSG → Option Props}
    (hsupplied : SuppliesPutHandle (s.appPmo a)) (hspan : env.currentSpan.isValid = true)
    (hformat : msg.hasRfh2 = false) (hanswers : AnswersFrom env hc handles) :
    SetsMissingInHandle env s hc ho msg a handles ↔
      (¬ SeemsHeld handles (inquiredHandle env (s.appPmo a)) TRACEPARENT ↔
        ¬ Holds handles (suppliedHandle (s.appPmo a)) TRACEPARENT) ∧
      (¬ SeemsHeld handles (inquiredHandle env (s.appPmo a)) TRACESTATE ∧ (readState env).isSome ↔
        ¬ Holds handles (suppliedHandle (s.appPmo a)) TRACESTATE ∧
          HasStateHeader env.currentSpan) := by
  -- a property is set exactly where it does not seem to be held and there is a value
  have hsets : ∀ calls, calls = setmpCalls env (suppliedHandle (s.appPmo a))
      (propsContain env hc (inquiredHandle env (s.appPmo a)) TRACEPARENT)
      (propsContain env hc (inquiredHandle env (s.appPmo a)) TRACESTATE) →
      (Sets calls (suppliedHandle (s.appPmo a)) TRACEPARENT ↔
        ¬ SeemsHeld handles (inquiredHandle env (s.appPmo a)) TRACEPARENT) ∧
      (Sets calls (suppliedHandle (s.appPmo a)) TRACESTATE ↔
        ¬ SeemsHeld handles (inquiredHandle env (s.appPmo a)) TRACESTATE ∧
          (readState env).isSome) := by
    rintro calls rfl
    rw [sets_traceparent_iff, sets_tracestate_iff, and_iff_left hspan,
      ← hanswers.propsContain_iff, ← hanswers.propsContain_iff, Bool.not_eq_true,
      Bool.not_eq_true]
    exact ⟨Iff.rfl, Iff.rfl⟩
  constructor
  · rintro ⟨r, calls, hr, hcalls, hparent, hstate⟩
    obtain rfl := (mqotPutBefore_of_suppliesPutHandle env hc ho hsupplied hformat).1
      ⟨hr, calls, hcalls⟩
    obtain ⟨hsetsParent, hsetsState⟩ := hsets calls (Except.ok.inj hcalls).symm
    exact ⟨hsetsParent.symm.trans hparent, hsetsState.symm.trans hstate⟩
  · rintro ⟨hparent, hstate⟩
    obtain ⟨hr, calls, hcalls⟩ :=
      (mqotPutBefore_of_suppliesPutHandle env hc ho hsupplied hformat).2 rfl
    obtain ⟨hsetsParent, hsetsState⟩ := hsets calls (Except.ok.inj hcalls).symm
    exact ⟨_, calls, hr, hcalls, hsetsParent.trans hparent, hsetsState.trans hstate⟩

/-- **When a put with the application's handle sets what is missing**: the handle that is inquired
answers like the one that is written. -/
theorem setsMissingInHandle_iff {env : Env} {s : State} {hc : MQHCONN} {ho : Option MQHOBJ}
    {msg : PutMessage} {a : AppAddr} {handles : MQHMSG → Option Props}
    (hsupplied : SuppliesPutHandle (s.appPmo a)) (hspan : env.currentSpan.isValid = true)
    (hformat : msg.hasRfh2 = false) (hanswers : AnswersFrom env hc handles) :
    SetsMissingInHandle env s hc ho msg a handles ↔ InquiresAlike env handles (s.appPmo a) := by
  rw [setsMissingInHandle_iff_seemsHeld hsupplied hspan hformat hanswers, not_iff_not]
  constructor
  · rintro ⟨hparent, hstate⟩
    refine ⟨hparent, fun hnot hheader ↦ hstate.2 ⟨hnot, hheader⟩, fun hcase ↦ ?_⟩
    by_contra hcon
    rw [not_or, ← ne_eq, ← Option.isSome_iff_ne_none] at hcon
    obtain ⟨hnot, hheader⟩ := hstate.1 hcon
    exact hcase.elim hnot (not_not_intro hheader)
  · intro h
    refine ⟨h.parent, fun ⟨hnot, hread⟩ ↦ ?_, fun ⟨hnot, hheader⟩ ↦ h.missing hnot hheader⟩
    by_contra hcon
    rw [not_and_or, not_not] at hcon
    have hnone := (h.unwanted hcon).resolve_left hnot
    simp [hnone] at hread

/-! ### A handle that is no longer asked -/

/-- A queue manager whose message handles are `handles`, seen from within the span `c`. -/
def Env.holding (handles : MQHMSG → Option Props) (c : SpanContext) : Env :=
  { Env.refusing c with
    inqmp := fun _ mh prop ↦
      match handles mh with
      | none => ⟨.FAILED, MQRC_HMSG_ERROR, []⟩
      | some p =>
        match p prop with
        | none => ⟨.FAILED, MQRC_PROPERTY_NOT_AVAILABLE, []⟩
        | some v => ⟨.OK, MQRC_NONE, v⟩ }

theorem answersFrom_holding (handles : MQHMSG → Option Props) (c : SpanContext) (hc : MQHCONN) :
    AnswersFrom (.holding handles c) hc handles where
  noHandle mh prop h := by
    simp [Env.holding, h, MQRC_HMSG_ERROR, MQRC_PROPERTY_NOT_AVAILABLE]
  absent mh prop p h hprop := by
    simp [Env.holding, h, hprop]
  present mh prop p h hprop := by
    obtain ⟨v, hv⟩ := Option.isSome_iff_exists.1 hprop
    simp [Env.holding, h, hv, MQRC_NONE, MQRC_PROPERTY_NOT_AVAILABLE]

/-- The one message handle is 7, and it holds nothing. -/
def emptyHandle (mh : MQHMSG) : Option Props :=
  if mh = 7 then some fun _ ↦ none else none

/-- An application that puts with the handle 7 as its OriginalMsgHandle. -/
def State.withOriginalMsgHandle : State :=
  State.init (fun _ ↦ MQGMO_DEFAULT) fun _ ↦
    { MQPMO_DEFAULT with version := MQPMO_VERSION_3, originalMsgHandle := 7 }

/-- The one message handle is 7, and it holds a trace state. -/
def stateHandle (mh : MQHMSG) : Option Props :=
  if mh = 7 then some fun prop ↦ if prop = TRACESTATE then some (lit "rojo=1") else none else none

/-- An application that puts with the handle 7 as its NewMsgHandle. -/
def State.withNewMsgHandle : State :=
  State.init (fun _ ↦ MQGMO_DEFAULT) fun _ ↦
    { MQPMO_DEFAULT with version := MQPMO_VERSION_3, newMsgHandle := 7 }

theorem inquiresAlike_stateHandle :
    InquiresAlike (.holding stateHandle .sample) stateHandle
      (State.withNewMsgHandle.appPmo 0) := by
  refine (inquiresAlike_iff_of_newMsgHandle (by decide) (by decide)).2 fun hmissing ↦ ?_
  exact absurd ⟨_, rfl, rfl⟩ hmissing

/-- Of the handle that holds one of the two properties the put sets the other. -/
theorem setsMissingInHandle_iff_stateHandle :
    SetsMissingInHandle (.holding stateHandle .sample) .withNewMsgHandle 1 (some 3) .plain 0
        stateHandle ∧
      (SetsMissingInHandle (.holding emptyHandle .sample) .withOriginalMsgHandle 1 (some 3) .plain 0
        emptyHandle ↔ InquiresAlike (.holding emptyHandle .sample) emptyHandle
          (State.withOriginalMsgHandle.appPmo 0)) :=
  ⟨(setsMissingInHandle_iff (by decide) (by decide) (by decide) (answersFrom_holding _ _ _)).2
      inquiresAlike_stateHandle,
    setsMissingInHandle_iff (by decide) (by decide) (by decide) (answersFrom_holding _ _ _)⟩

/-- The handle lacks `traceparent`, and the put does not set it. -/
theorem not_setsMissingInHandle_emptyHandle :
    SuppliesPutHandle (State.withOriginalMsgHandle.appPmo 0) ∧ SpanContext.sample.isValid = true ∧
      PutMessage.plain.hasRfh2 = false ∧
      AnswersFrom (.holding emptyHandle .sample) 1 emptyHandle ∧
      (emptyHandle (suppliedHandle (State.withOriginalMsgHandle.appPmo 0))).isSome ∧
      ¬ SetsMissingInHandle (.holding emptyHandle .sample) .withOriginalMsgHandle 1 (some 3) .plain
        0 emptyHandle := by
  have hanswers := answersFrom_holding emptyHandle .sample 1
  refine ⟨by decide, by decide, by decide, hanswers, by decide, ?_⟩
  rw [setsMissingInHandle_iff_seemsHeld (by decide) (by decide) (by decide) hanswers]
  rintro ⟨hparent, -⟩
  have hmissing : ¬ Holds emptyHandle (suppliedHandle (State.withOriginalMsgHandle.appPmo 0))
      TRACEPARENT := by
    rintro ⟨p, hp, hprop⟩
    obtain rfl := Option.some.inj hp
    cases hprop
  exact hparent.2 hmissing (Or.inl rfl)

end MqExits.Otel
