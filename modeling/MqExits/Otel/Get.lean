import MqExits.Otel.State
import MqExits.Text.Stoi

/-!
# The get side: `mqotGetBefore` and `mqotGetAfter`

Before an MQGET the exit puts its own MQGMO in place of the application's, so that a message handle
of its own can receive the properties. After it, the exit looks for the trace context in the handle
or in the RFH2 header of the message, and links it to the current span.

Two points of the source decide much of what is proved later, and both are kept as they are:

* `GETPROPSOPTIONS` is a macro without parentheses, so `gmo->Options & GETPROPSOPTIONS` masks with
  its first constant only and then sets the other three (`propGetOptions`);
* the pointer is swapped whenever the application supplies no handle, and put back only when the
  structure that was used holds the exit's own handle.
-/

namespace MqExits.Otel

open CText Outcome

/-! ### Strings -/

/-- The W3C names of the two properties. -/
def TRACEPARENT : Bytes := lit "traceparent"
def TRACESTATE : Bytes := lit "tracestate"

/-- The `StrucLength` field of an MQRFH2 header, a little-endian integer at offset 8. -/
def strucLength (buffer : Bytes) : Cpp ℤ :=
  match buffer.drop 8 with
  | b₀ :: b₁ :: b₂ :: b₃ :: _ =>
    return (BitVec.ofNat 32
      (b₀.toNat + 256 * (b₁.toNat + 256 * (b₂.toNat + 256 * b₃.toNat)))).toInt
  | _ => fault .overRead

/-- `string(&buffer[offset], len)`: a negative length throws, a length of zero reads nothing, and a
length past the end of the message reads bytes that are not part of it. -/
def stringAt (buffer : Bytes) (offset len : ℤ) : Cpp Bytes :=
  if len < 0 then throw .lengthError
  else if len = 0 ∨ offset + len ≤ buffer.length then
    return substr buffer offset.toNat len.toNat
  else fault .overRead

/-- `extractRFH2PropVal`: the text between the tag and the next `<`. -/
def extractRFH2PropVal (props prop : Bytes) : Bytes :=
  let propXml := lit "<" ++ prop ++ lit ">"
  match find props propXml 0 with
  | none => []
  | some start =>
    match find props (lit "<") (start + propXml.length) with
    | none => []
    | some stop => substr props (start + propXml.length) (stop - start - propXml.length)

/-- The loop of `split`, with the position `prev` it has reached. One unit of fuel is one
iteration; `none` when the fuel runs out. -/
def splitLoop (str delim : Bytes) : ℕ → ℕ → Option (List Bytes)
  | 0, _ => none
  | fuel + 1, prev =>
    let pos := (find str delim prev).getD str.length
    let token := substr str prev (pos - prev)
    let next := pos + delim.length
    let rest := if pos < str.length ∧ next < str.length then splitLoop str delim fuel next
      else some []
    if token.isEmpty then rest else rest.map (token :: ·)

/-- `split`. -/
def split (str delim : Bytes) : Option (List Bytes) :=
  splitLoop str delim (str.length + 1) 0

/-- Each iteration moves past a delimiter, so fuel for the rest of the string is enough. -/
theorem splitLoop_isSome {str delim : Bytes} (hd : delim ≠ []) :
    ∀ {fuel prev : ℕ}, prev ≤ str.length → str.length < prev + fuel →
      (splitLoop str delim fuel prev).isSome := by
  intro fuel
  induction fuel with
  | zero => intro prev _ h; omega
  | succ fuel ih =>
    intro prev hprev h
    have hdelim : 0 < delim.length := List.length_pos_of_ne_nil hd
    have hpos : prev ≤ (find str delim prev).getD str.length := by
      rcases hf : find str delim prev with - | i
      · exact hprev
      · exact (le_of_find hf).1
    rw [splitLoop]
    generalize (find str delim prev).getD str.length = pos at hpos ⊢
    have hrest : (if pos < str.length ∧ pos + delim.length < str.length then
        splitLoop str delim fuel (pos + delim.length) else some []).isSome := by
      split_ifs with hc
      · exact ih (by omega) (by omega)
      · rfl
    -- an empty piece is left out
    by_cases ht : (substr str prev (pos - prev)).isEmpty
    · simp only [ht, if_true]
      exact hrest
    · simp only [ht, Bool.false_eq_true, if_false, Option.isSome_map]
      exact hrest

/-- **`split` terminates** on a non-empty delimiter. -/
theorem split_isSome (str delim : Bytes) (hd : delim ≠ []) : (split str delim).isSome :=
  splitLoop_isSome hd (Nat.zero_le _) (by omega)

/-- `static_cast<uint8_t>` of an `int`. -/
def toUInt8 (v : ℤ) : UInt8 := UInt8.ofNat (v % 256).toNat

/-- The exception a failed conversion raises. -/
def ofStoi : StoiError → CppException
  | .invalidArgument => .invalidArgument
  | .outOfRange => .outOfRange

/-- `stoi(text, nullptr, 16)` as the module calls it. -/
def stoi (text : Bytes) : Cpp ℤ :=
  match stoi16 text with
  | .ok v => return v
  | .error e => throw (ofStoi e)

/-- The indices at which the loop of `HexToBinary` has an iteration: those before either of its
two conditions fails. -/
def hexIndices (hex : Bytes) (buflen : ℕ) : List ℕ :=
  (List.range buflen).takeWhile fun i ↦ i * 2 < hex.length

/-- `HexToBinary`, from the contents `buf` the buffer has before it. -/
def hexToBinary (hex buf : Bytes) (buflen : ℕ) : Cpp Bytes :=
  (hexIndices hex buflen).foldlM (fun buf i ↦ do
    let byteValue ← stoi (substr hex (i * 2) 2)
    return buf.set i (toUInt8 byteValue)) buf

/-! ### Before an MQGET -/

/-- `gmoLength`. -/
def gmoLength (gmo : MQGMO) : ℕ :=
  if gmo.version = MQGMO_VERSION_1 then MQGMO_LENGTH_1
  else if gmo.version = MQGMO_VERSION_2 then MQGMO_LENGTH_2
  else if gmo.version = MQGMO_VERSION_3 then MQGMO_LENGTH_3
  else MQGMO_LENGTH_4

/-- `gmo->Options & GETPROPSOPTIONS`, as the macro expands: `&` binds tighter than `|`. -/
def propGetOptions (options : BitVec 32) : BitVec 32 :=
  (options &&& MQGMO_PROPERTIES_FORCE_MQRFH2) ||| MQGMO_PROPERTIES_IN_HANDLE |||
    MQGMO_NO_PROPERTIES ||| MQGMO_PROPERTIES_COMPATIBILITY

/-- `mqotGetBefore`, from the pointer in `*ppGetMsgOpts` to the one it leaves there. -/
def mqotGetBefore (env : Env) (s : State) (hc : MQHCONN) (ho : Option MQHOBJ)
    (ppGetMsgOpts : PMQGMO) : Except Fault (PMQGMO × State) := do
  let gmo ← s.derefGmo ppGetMsgOpts
  let getOptions := propGetOptions gmo.options
  if gmo.version ≥ MQGMO_VERSION_4 ∧ isValidHandle gmo.msgHandle then
    return (ppGetMsgOpts, s)
  let (o, s) ← saveGmo env s hc ho ppGetMsgOpts
  if (s.objectOptionsMap.lookup (objectKey hc ho)).isNone then
    return (ppGetMsgOpts, s)
  let (_, opts) ← optionsAt s (objectKey hc ho)
  let s := s.modifyGmo (.myGmo o) fun _ ↦ MQGMO_DEFAULT
  let gmo ← s.derefGmo ppGetMsgOpts
  let s := s.modifyGmo (.myGmo o) fun my ↦ my.memcpy gmo (gmoLength gmo)
  let s := s.modifyGmo (.myGmo o) fun my ↦
    if my.version < MQGMO_VERSION_4 then { my with version := MQGMO_VERSION_4 } else my
  if getOptions = MQGMO_NO_PROPERTIES ∨
      getOptions = MQGMO_PROPERTIES_AS_Q_DEF ∧ opts.propCtl = MQPROP_NONE then
    -- the edit is of the application's structure, not of the copy
    let s := s.modifyGmo ppGetMsgOpts fun g ↦
      { g with options := g.options &&& ~~~MQGMO_NO_PROPERTIES ||| MQGMO_PROPERTIES_IN_HANDLE }
    let (mh, s) := getMsgHandle env s hc ho
    return (.myGmo o, s.modifyGmo (.myGmo o) fun my ↦ { my with msgHandle := mh })
  else
    return (.myGmo o, s)

/-! ### After an MQGET -/

/-- The arguments of `mqotGetAfter` that the MQGET has filled in. -/
structure GetCall where
  hConn : MQHCONN
  hObj : MQHOBJ
  /-- The Format field of the message descriptor, `none` for a null descriptor. -/
  format : Option Bytes
  /-- The message data. -/
  buffer : Bytes
  compCode : MQCC
  reason : MQRC

/-- Has the call returned a message? -/
def GetCall.haveMsg (call : GetCall) : Bool :=
  call.compCode = .OK ∨ call.reason = MQRC_TRUNCATED_MSG_ACCEPTED

/-- `propsValue`: the value of a property, empty unless MQINQMP succeeds. -/
def propsValue (env : Env) (hc : MQHCONN) (mh : MQHMSG) (name : Bytes) : Bytes :=
  let reply := env.inqmp hc mh name
  if reply.cc = .OK then reply.value else []

/-- `traceparentVal` and `tracestateVal`, from the handle or from the RFH2 header. -/
def receivedProps (env : Env) (call : GetCall) (mh : MQHMSG) : Cpp (Bytes × Bytes) := do
  if isValidHandle mh then
    if call.haveMsg then
      return (propsValue env call.hConn mh TRACEPARENT, propsValue env call.hConn mh TRACESTATE)
    else
      return ([], [])
  else if call.haveMsg ∧ call.format.any (strncmpEq · MQFMT_RF_HEADER_2 8) then
    let offset := MQRFH_STRUC_LENGTH_FIXED_2
    let propsLen := (← strucLength call.buffer) - offset
    -- step past the length of the first name/value block
    let offset := offset + 4
    let propsLen := propsLen - 4
    let props ← stringAt call.buffer offset propsLen
    return (extractRFH2PropVal props TRACEPARENT, extractRFH2PropVal props TRACESTATE)
  else
    return ([], [])

/-- The span context that a link refers to. `traceState` is the header it is parsed from. -/
structure Link where
  traceId : Bytes
  spanId : Bytes
  sampled : Bool
  traceState : Option Bytes
  deriving DecidableEq

/-- The ids and the flag in a `traceparent` text of four pieces. Any other text has none. -/
def parentContext (env : Env) (traceparentVal : Bytes) : Cpp (Option (Bytes × Bytes × Bool)) :=
  if traceparentVal = [] then pure none
  else
    match split traceparentVal (lit "-") with
    | none => fault .diverges
    | some [_, elem₁, elem₂, elem₃] => do
      let traceIdBuf ← hexToBinary elem₁ env.uninitTraceId.val 16
      let spanIdBuf ← hexToBinary elem₂ env.uninitSpanId.val 8
      return some (traceIdBuf, spanIdBuf, elem₃ == lit "01")
    | some _ => pure none

/-- The context built from what was received, if anything was. -/
def newContext (parent : Option (Bytes × Bytes × Bool)) (tracestateVal : Bytes) : Option Link :=
  let state := if tracestateVal = [] then none else some tracestateVal
  match parent with
  | some (traceId, spanId, sampled) => some ⟨traceId, spanId, sampled, state⟩
  | none =>
    if tracestateVal = [] then none
    else some ⟨List.replicate 16 0, List.replicate 8 0, false, state⟩

/-- The second half of `mqotGetAfter`: the link that is added to the current span, if any. -/
def linkContext (env : Env) (traceparentVal tracestateVal : Bytes) : Cpp (Option Link) :=
  if env.currentSpan.isValid then do
    let parent ← parentContext env traceparentVal
    return newContext parent tracestateVal
  else
    return none

/-- The pointer that `mqotGetAfter` leaves: our own handle in the structure that was used means
that the application's structure is put back, except for an asynchronous callback. -/
def restoredGmo (s : State) (call : GetCall) (mh : MQHMSG) (ppGetMsgOpts : PMQGMO) :
    Except Fault PMQGMO :=
  if isValidHandle mh ∧ call.hObj = MQHO_UNUSABLE_HOBJ ∧
      compareMsgHandle s call.hConn (some call.hObj) mh then
    restoreGmo s call.hConn (some call.hObj)
  else .ok ppGetMsgOpts

/-- What `mqotGetAfter` leaves: the pointer in `*ppGetMsgOpts`, and the link it has added, or the
exception with which it was left. -/
structure GetAfterResult where
  ppGetMsgOpts : PMQGMO
  outcome : Except CppException (Option Link)

/-- `mqotGetAfter`. It changes neither map. -/
def mqotGetAfter (env : Env) (s : State) (call : GetCall) (ppGetMsgOpts : PMQGMO) :
    Except Fault GetAfterResult := do
  let gmo ← s.derefGmo ppGetMsgOpts
  let props ← (receivedProps env call gmo.msgHandle).run
  let pp ← restoredGmo s call gmo.msgHandle ppGetMsgOpts
  match props with
  | .error e => return ⟨pp, .error e⟩
  | .ok (traceparentVal, tracestateVal) =>
    return ⟨pp, ← (linkContext env traceparentVal tracestateVal).run⟩

/-! ### The hooks for a synchronous MQGET -/

/-- `GetBefore`: all synchronous MQGETs share the entries of the connection. -/
def getBefore (env : Env) (s : State) (hc : MQHCONN) (ppGetMsgOpts : PMQGMO) :
    Except Fault (PMQGMO × State) :=
  mqotGetBefore env s hc (some MQHO_UNUSABLE_HOBJ) ppGetMsgOpts

/-- What a synchronous MQGET leaves. -/
structure GetOutcome where
  outputs : GmoOutputs
  format : Option Bytes
  buffer : Bytes
  compCode : MQCC
  reason : MQRC

/-- `GetAfter`. -/
def getAfter (env : Env) (s : State) (hc : MQHCONN) (out : GetOutcome) (ppGetMsgOpts : PMQGMO) :
    Except Fault GetAfterResult :=
  mqotGetAfter env s
    ⟨hc, MQHO_UNUSABLE_HOBJ, out.format, out.buffer, out.compCode, out.reason⟩ ppGetMsgOpts

end MqExits.Otel
