import MqExits.Otel.Get

/-!
# The put side: `mqotPutBefore` and `mqotPutAfter`

Before an MQPUT or MQPUT1 the exit sets the context of the current span as properties of a message
handle: one of the application's where it supplies one, else the exit's own, which is stored for
the connection and used for every put. In the latter case the exit's MQPMO takes the place of the
application's until `mqotPutAfter` puts that back.

The MQSETMP calls are an output of the model. Three points of the source are kept as they are:

* with an application's OriginalMsgHandle, the properties are looked up in the variable `mho`, which
  nothing has written;
* the result of `find` on the RFH2 text is used as a truth value, which holds wherever the tag is
  not at the very start;
* the trace state is read through a pointer into a string that no longer exists.
-/

namespace MqExits.Otel

open CText Outcome

/-- `propsContain`: any reason but `MQRC_PROPERTY_NOT_AVAILABLE` counts as present. -/
def propsContain (env : Env) (hc : MQHCONN) (mh : MQHMSG) (propertyName : Bytes) : Bool :=
  let reply := env.inqmp hc mh propertyName
  reply.cc = .OK ∨ reply.rc ≠ MQRC_PROPERTY_NOT_AVAILABLE

/-- `pmoLength`. -/
def pmoLength (pmo : MQPMO) : ℕ :=
  if pmo.version = MQPMO_VERSION_1 then MQPMO_LENGTH_1
  else if pmo.version = MQPMO_VERSION_2 then MQPMO_LENGTH_2
  else MQPMO_LENGTH_3

/-- The digit of a value below 16. -/
def hexChar (v : ℕ) : UInt8 :=
  UInt8.ofNat (if v < 10 then 48 + v else 87 + v)

/-- `ToLowerBase16`. -/
def toLowerBase16 (bytes : Bytes) : Bytes :=
  bytes.flatMap fun b ↦ [hexChar (b.toNat / 16), hexChar (b.toNat % 16)]

/-- `%n.ns` of `sprintf`: no more than `n` bytes of a buffer, and blanks before them up to `n`. -/
def sprintfField (n : ℕ) (buf : Bytes) : Bytes :=
  List.replicate (n - (cstr (buf.take n)).length) 32 ++ cstr (buf.take n)

/-- The W3C text of a context. -/
def traceparentText (c : SpanContext) : Bytes :=
  lit "00" ++ lit "-" ++ sprintfField 32 (toLowerBase16 c.traceId) ++ lit "-" ++
    sprintfField 16 (toLowerBase16 c.spanId) ++ lit "-" ++
    sprintfField 2 (toLowerBase16 [c.traceFlags])

/-- The text of a header as it is read through the pointer that outlives it. -/
def tracestateText (env : Env) (header : Bytes) : Bytes :=
  cstr (env.danglingRead header)

/-! ### The message handle -/

/-- What the first part of `mqotPutBefore` decides: the handle that receives the properties, the two
skip flags, and the pointer and the state it leaves. -/
structure PutTarget where
  mh : MQHMSG
  skipParent : Bool
  skipState : Bool
  ppPutMsgOpts : PMQPMO
  state : State

/-- The first part of `mqotPutBefore`: whose handle it is. -/
def putTarget (env : Env) (s : State) (hc : MQHCONN) (ho : Option MQHOBJ)
    (ppPutMsgOpts : PMQPMO) : Except Fault PutTarget := do
  let pmo ← s.derefPmo ppPutMsgOpts
  if pmo.version ≥ MQPMO_VERSION_3 ∧ isValidHandle pmo.newMsgHandle then
    let mh := pmo.newMsgHandle
    return ⟨mh, propsContain env hc mh TRACEPARENT, propsContain env hc mh TRACESTATE,
      ppPutMsgOpts, s⟩
  else if pmo.version ≥ MQPMO_VERSION_3 ∧ isValidHandle pmo.originalMsgHandle then
    -- `mho` is looked up, not the handle just found
    let mho := env.uninitHmsg
    return ⟨pmo.originalMsgHandle, propsContain env hc mho TRACEPARENT,
      propsContain env hc mho TRACESTATE, ppPutMsgOpts, s⟩
  else
    let (o, s) ← savePmo env s hc ho ppPutMsgOpts
    let s := s.modifyPmo (.myPmo o) fun _ ↦ MQPMO_DEFAULT
    let pmo ← s.derefPmo ppPutMsgOpts
    let s := s.modifyPmo (.myPmo o) fun my ↦ my.memcpy pmo (pmoLength pmo)
    let (mh, s) := getMsgHandle env s hc none
    let s := s.modifyPmo (.myPmo o) fun my ↦ { my with originalMsgHandle := mh }
    let s := s.modifyPmo (.myPmo o) fun my ↦
      if my.version < MQPMO_VERSION_3 then { my with version := MQPMO_VERSION_3 } else my
    return ⟨mh, false, false, .myPmo o, s⟩

/-! ### The properties -/

/-- The data of a put: the Format field of the message descriptor, `none` for a null descriptor, and
the message. -/
structure PutMessage where
  format : Option Bytes
  buffer : Bytes

/-- Does the message start with an MQRFH2 header? -/
def PutMessage.hasRfh2 (msg : PutMessage) : Bool :=
  msg.format.any (strncmpEq · MQFMT_RF_HEADER_2 8)

/-- `props.find("<" + string(prop) + ">", 0)` as a condition. -/
def findIsTrue (props prop : Bytes) : Bool :=
  find props (lit "<" ++ prop ++ lit ">") 0 ≠ some 0

/-- Whether the RFH2 part of `mqotPutBefore` sets each of the two skip flags. -/
def rfh2Skips (msg : PutMessage) : Cpp (Bool × Bool) :=
  if msg.hasRfh2 then do
    let propsLen := (← strucLength msg.buffer) - MQRFH_STRUC_LENGTH_FIXED_2
    let props ← stringAt msg.buffer MQRFH_STRUC_LENGTH_FIXED_2 propsLen
    return (findIsTrue props TRACEPARENT, findIsTrue props TRACESTATE)
  else
    return (false, false)

/-- One MQSETMP call. -/
structure SetmpCall where
  mh : MQHMSG
  name : Bytes
  value : Bytes
  deriving DecidableEq

/-- The last part of `mqotPutBefore`: the properties it sets. -/
def setmpCalls (env : Env) (mh : MQHMSG) (skipParent skipState : Bool) : List SetmpCall :=
  if env.currentSpan.isValid then
    (if skipParent then [] else [⟨mh, TRACEPARENT, traceparentText env.currentSpan⟩]) ++
    (if skipState then [] else
      match env.currentSpan.traceState with
      | none => []
      | some header =>
        let value := tracestateText env header
        if 0 < value.length then [⟨mh, TRACESTATE, value⟩] else [])
  else []

/-! ### The two exits -/

/-- What `mqotPutBefore` leaves: the pointer, the state, and the properties it has set, or the
exception with which it was left. -/
structure PutBeforeResult where
  ppPutMsgOpts : PMQPMO
  state : State
  outcome : Except CppException (List SetmpCall)

/-- `mqotPutBefore`. -/
def mqotPutBefore (env : Env) (s : State) (hc : MQHCONN) (ho : Option MQHOBJ) (msg : PutMessage)
    (ppPutMsgOpts : PMQPMO) : Except Fault PutBeforeResult := do
  let t ← putTarget env s hc ho ppPutMsgOpts
  match ← (rfh2Skips msg).run with
  | .error e => return ⟨t.ppPutMsgOpts, t.state, .error e⟩
  | .ok (inParent, inState) =>
    return ⟨t.ppPutMsgOpts, t.state,
      .ok (setmpCalls env t.mh (t.skipParent || inParent) (t.skipState || inState))⟩

/-- `mqotPutAfter`. It changes neither map. -/
def mqotPutAfter (s : State) (hc : MQHCONN) (ho : Option MQHOBJ) (ppPutMsgOpts : PMQPMO) :
    Except Fault PMQPMO := do
  let pmo ← s.derefPmo ppPutMsgOpts
  if compareMsgHandle s hc none pmo.originalMsgHandle then restorePmo s hc ho
  else return ppPutMsgOpts

/-! ### What the exit puts in place of the application's structure -/

/-- The application supplies a message handle. -/
def SuppliesPutHandle (pmo : MQPMO) : Prop :=
  pmo.version ≥ MQPMO_VERSION_3 ∧
    (isValidHandle pmo.newMsgHandle = true ∨ isValidHandle pmo.originalMsgHandle = true)

instance (pmo : MQPMO) : Decidable (SuppliesPutHandle pmo) :=
  inferInstanceAs (Decidable (_ ∧ _))

/-- The application's structure lengthened to version 3, with a handle in it. -/
def extendPmo (pmo : MQPMO) (mh : MQHMSG) : MQPMO :=
  { MQPMO_DEFAULT.memcpy pmo (pmoLength pmo) with
    originalMsgHandle := mh
    version := max pmo.version MQPMO_VERSION_3 }

/-- The version test of the source takes the larger of the two versions. -/
theorem ite_pmo_version_eq (my : MQPMO) :
    (if my.version < MQPMO_VERSION_3 then { my with version := MQPMO_VERSION_3 } else my) =
      { my with version := max my.version MQPMO_VERSION_3 } := by
  split_ifs with h
  · rw [max_eq_right h.le]
  · rw [max_eq_left (not_lt.1 h)]

theorem putTarget_of_newMsgHandle {env : Env} {s : State} {hc : MQHCONN} {ho : Option MQHOBJ}
    {a : AppAddr} (hv : (s.appPmo a).version ≥ MQPMO_VERSION_3)
    (hnew : isValidHandle (s.appPmo a).newMsgHandle = true) :
    putTarget env s hc ho (.app a) =
      .ok ⟨(s.appPmo a).newMsgHandle,
        propsContain env hc (s.appPmo a).newMsgHandle TRACEPARENT,
        propsContain env hc (s.appPmo a).newMsgHandle TRACESTATE, .app a, s⟩ := by
  simp only [putTarget, State.derefPmo, hv, hnew, bind, Except.bind, and_self, if_true]
  rfl

theorem putTarget_of_originalMsgHandle {env : Env} {s : State} {hc : MQHCONN}
    {ho : Option MQHOBJ} {a : AppAddr} (hv : (s.appPmo a).version ≥ MQPMO_VERSION_3)
    (hnew : ¬ isValidHandle (s.appPmo a).newMsgHandle = true)
    (horig : isValidHandle (s.appPmo a).originalMsgHandle = true) :
    putTarget env s hc ho (.app a) =
      .ok ⟨(s.appPmo a).originalMsgHandle, propsContain env hc env.uninitHmsg TRACEPARENT,
        propsContain env hc env.uninitHmsg TRACESTATE, .app a, s⟩ := by
  simp only [putTarget, State.derefPmo, hv, hnew, horig, bind, Except.bind, and_self, if_true,
    true_and, if_false, Bool.false_eq_true]
  rfl

/-- A supplied handle is used, and nothing is swapped. -/
theorem putTarget_of_suppliesPutHandle (env : Env) {s : State} (hc : MQHCONN)
    (ho : Option MQHOBJ) {a : AppAddr} (h : SuppliesPutHandle (s.appPmo a)) :
    ∃ t, putTarget env s hc ho (.app a) = .ok t ∧ t.ppPutMsgOpts = .app a ∧ t.state = s := by
  obtain ⟨hv, hm⟩ := h
  by_cases hnew : isValidHandle (s.appPmo a).newMsgHandle = true
  · exact ⟨_, putTarget_of_newMsgHandle hv hnew, rfl, rfl⟩
  · exact ⟨_, putTarget_of_originalMsgHandle hv hnew (hm.resolve_left hnew), rfl, rfl⟩

/-- **What `putTarget` does without a supplied handle**: it stashes the application's pointer in the
object's structure, and leaves the copy there with the connection's handle in it. -/
theorem putTarget_spec (env : Env) {s : State} {hc : MQHCONN} {ho : Option MQHOBJ} {a : AppAddr}
    (h : ¬ SuppliesPutHandle (s.appPmo a)) (hu : s.Usable (objectKey hc ho)) :
    ∃ o obj s', putTarget env s hc ho (.app a) =
        .ok ⟨(getMsgHandle env s hc none).1, false, false, .myPmo o, s'⟩ ∧
      s'.objectHandleMap = (getMsgHandle env s hc none).2.objectHandleMap ∧
      optionsAt s' (objectKey hc ho) = .ok (o, obj) ∧ obj.pmo = .app a ∧
      obj.myPmo = extendPmo (s.appPmo a) (getMsgHandle env s hc none).1 ∧
      s'.appPmo = s.appPmo := by
  obtain ⟨o, base, s₁, hsave, hopt₁, -, hhm, -, hap⟩ :=
    saveOptions_spec env (fun h ↦ { h with pmo := .app a }) hu
  let s₂ := s₁.modifyPmo (.myPmo o) fun _ ↦ MQPMO_DEFAULT
  let s₃ := s₂.modifyPmo (.myPmo o) fun my ↦ my.memcpy (s.appPmo a) (pmoLength (s.appPmo a))
  let mh := (getMsgHandle env s hc none).1
  let s₄ : State := { s₃ with objectHandleMap := (getMsgHandle env s hc none).2.objectHandleMap }
  have hget : getMsgHandle env s₃ hc none = (mh, s₄) :=
    getMsgHandle_congr (by simpa [s₃, s₂] using hhm) env hc none
  let s₅ := s₄.modifyPmo (.myPmo o) fun my ↦ { my with originalMsgHandle := mh }
  let s₆ := s₅.modifyPmo (.myPmo o) fun my ↦
    if my.version < MQPMO_VERSION_3 then { my with version := MQPMO_VERSION_3 } else my
  have hopt₃ := optionsAt_modifyPmo (fun my ↦ my.memcpy (s.appPmo a) (pmoLength (s.appPmo a)))
    (optionsAt_modifyPmo (fun _ ↦ MQPMO_DEFAULT) hopt₁)
  -- the handle map plays no part in what a key's structure is
  have hopt₄ : optionsAt s₄ (objectKey hc ho) = _ := hopt₃
  have hopt₆ := optionsAt_modifyPmo (fun my ↦
      if my.version < MQPMO_VERSION_3 then { my with version := MQPMO_VERSION_3 } else my)
    (optionsAt_modifyPmo (fun my ↦ { my with originalMsgHandle := mh }) hopt₄)
  have hrun : putTarget env s hc ho (.app a) = .ok ⟨mh, false, false, .myPmo o, s₆⟩ := by
    have hnew : ¬ ((s.appPmo a).version ≥ MQPMO_VERSION_3 ∧
        isValidHandle (s.appPmo a).newMsgHandle = true) := fun hn ↦ h ⟨hn.1, Or.inl hn.2⟩
    have horig : ¬ ((s.appPmo a).version ≥ MQPMO_VERSION_3 ∧
        isValidHandle (s.appPmo a).originalMsgHandle = true) := fun ho ↦ h ⟨ho.1, Or.inr ho.2⟩
    have hderef : (s₁.modifyPmo (.myPmo o) fun _ ↦ MQPMO_DEFAULT).derefPmo (.app a) =
        .ok (s.appPmo a) := by
      rw [State.derefPmo, State.modifyPmo_myPmo_appPmo, hap]
    have hderef₀ : s.derefPmo (.app a) = .ok (s.appPmo a) := rfl
    simp only [putTarget, savePmo, bind, Except.bind, hderef₀, if_neg hnew, if_neg horig, hsave,
      hderef]
    rw [show getMsgHandle env (State.modifyPmo _ _ _) hc none = (mh, s₄) from hget]
    rfl
  refine ⟨o, _, s₆, hrun, ?_, hopt₆, rfl, ?_, ?_⟩
  · simp [s₆, s₅, s₄]
  · exact ite_pmo_version_eq _
  · simpa [s₆, s₅, s₄, s₃, s₂] using hap

theorem usable_of_putTarget {env : Env} {s : State} {hc : MQHCONN} {ho : Option MQHOBJ}
    {a : AppAddr} {t : PutTarget} (h : ¬ SuppliesPutHandle (s.appPmo a))
    (hrun : putTarget env s hc ho (.app a) = .ok t) : s.Usable (objectKey hc ho) := by
  have hnew : ¬ ((s.appPmo a).version ≥ MQPMO_VERSION_3 ∧
      isValidHandle (s.appPmo a).newMsgHandle = true) := fun hn ↦ h ⟨hn.1, Or.inl hn.2⟩
  have horig : ¬ ((s.appPmo a).version ≥ MQPMO_VERSION_3 ∧
      isValidHandle (s.appPmo a).originalMsgHandle = true) := fun ho ↦ h ⟨ho.1, Or.inr ho.2⟩
  obtain ⟨pmo, hpmo, hrun⟩ := bind_eq_ok.1 hrun
  obtain rfl := Except.ok.inj hpmo
  rw [if_neg hnew, if_neg horig] at hrun
  obtain ⟨r, hs, -⟩ := bind_eq_ok.1 hrun
  exact usable_of_saveOptions hs

end MqExits.Otel
