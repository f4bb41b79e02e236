import MqExits.Otel.Get
import MqExits.Text.XmlText

/-!
# The trace state from the handle and from the header

`mqotGetAfter` takes the `tracestate` of a message from the message handle, with MQINQMP, or, when
there is none, from the RFH2 header, where a property of the `usr` folder is an XML element. MQINQMP
returns the value; `extractRFH2PropVal` cuts out **the text of the element as it is written**, with
its entities. The two agree exactly on the values that are written as they are (`obtains_same_iff`).

## The two ways a value arrives

* In a handle: MQINQMP copies the value to a buffer of 1024 bytes, and fails if it is longer. Then
  no trace state is obtained (`InqmpReply.IsFor`).
* In a header: the value is in an element of the `usr` folder, with the characters that XML reserves
  as entities. There may be anything before the element but another one of that name, and anything
  after it (`HasElement`).

The two calls need have nothing else in common, neither state nor environment.
-/

namespace MqExits.Otel

open CText Outcome XmlText

/-- `mqotGetAfter` obtains the text `t` as the `tracestate` of the message. -/
def Obtains (env : Env) (s : State) (call : GetCall) (ppGetMsgOpts : PMQGMO) (t : Bytes) : Prop :=
  ∃ gmo traceparentVal, s.derefGmo ppGetMsgOpts = .ok gmo ∧
    Returns (receivedProps env call gmo.msgHandle) (traceparentVal, t)

/-- It is the header from which the trace state of a link is parsed. -/
theorem traceState_of_obtains {env : Env} {s : State} {call : GetCall} {pp : PMQGMO} {t : Bytes}
    (h : Obtains env s call pp t) {r : GetAfterResult} (hr : mqotGetAfter env s call pp = .ok r)
    {link : Link} (hlink : r.outcome = .ok (some link)) :
    link.traceState = if t = [] then none else some t := by
  obtain ⟨gmo, traceparentVal, hgmo, hprops⟩ := h
  rw [Returns] at hprops
  simp only [mqotGetAfter, bind_eq_ok, hgmo, hprops, Except.ok.injEq, exists_eq_left'] at hr
  obtain ⟨pp', -, outcome, hcontext, hr⟩ := hr
  obtain rfl := Except.ok.inj hr
  obtain rfl : outcome = .ok (some link) := hlink
  have hreturns : Returns (linkContext env traceparentVal t) (some link) := hcontext
  rw [linkContext] at hreturns
  split_ifs at hreturns
  · obtain ⟨parent, -, hnew⟩ := returns_bind.1 hreturns
    have hnew := returns_pure.1 hnew
    simp only [newContext] at hnew
    -- without a parent the link has the trace state alone, and is made only if there is one
    cases parent with
    | some parent =>
      obtain rfl := Option.some.inj hnew
      rfl
    | none =>
      split_ifs at hnew with hnil
      obtain rfl := Option.some.inj hnew
      exact (if_neg hnil).symm
  · cases returns_pure.1 hreturns

/-! ### The message handle -/

/-- What MQINQMP answers for a property of value `v`: the value, or, where that is longer than the
buffer of `propsValue`, a failure. -/
def InqmpReply.IsFor (reply : InqmpReply) (v : Bytes) : Prop :=
  reply.cc = .OK ∧ reply.value = v ∨ reply.cc ≠ .OK ∧ 1024 < v.length

/-- The message comes with a handle in which the property has the value `v`. -/
structure DeliversInHandle (env : Env) (s : State) (call : GetCall) (ppGetMsgOpts : PMQGMO)
    (gmo : MQGMO) (v : Bytes) : Prop where
  deref : s.derefGmo ppGetMsgOpts = .ok gmo
  handle : isValidHandle gmo.msgHandle = true
  haveMsg : call.haveMsg = true
  reply : (env.inqmp call.hConn gmo.msgHandle TRACESTATE).IsFor v

theorem obtains_iff_of_handle {env : Env} {s : State} {call : GetCall} {pp : PMQGMO} {gmo : MQGMO}
    {v t : Bytes} (h : DeliversInHandle env s call pp gmo v) :
    Obtains env s call pp t ↔ propsValue env call.hConn gmo.msgHandle TRACESTATE = t := by
  have hprops : receivedProps env call gmo.msgHandle =
      pure (propsValue env call.hConn gmo.msgHandle TRACEPARENT,
        propsValue env call.hConn gmo.msgHandle TRACESTATE) := by
    rw [receivedProps, if_pos h.handle, if_pos h.haveMsg]
  rw [Obtains]
  simp only [h.deref, Except.ok.injEq, exists_and_left, exists_eq_left', hprops, returns_pure,
    Prod.mk.injEq, exists_eq_left']

/-! ### The RFH2 header -/

/-- The message data begins with an RFH2 header: a fixed part, a length, and the text up to
`StrucLength`, in which the first `tracestate` element has the value `v`. Before it there are the
tag that opens the folder and other elements. -/
def HasElement (buffer v : Bytes) : Prop :=
  ∃ fixed nameValueLength before after body : Bytes, fixed.length = 36 ∧
    nameValueLength.length = 4 ∧ ¬ openTag TRACESTATE <:+: before ∧
    buffer = fixed ++ nameValueLength ++ (before ++ element TRACESTATE v ++ after) ++ body ∧
    Returns (strucLength buffer) (40 + (before ++ element TRACESTATE v ++ after).length)

/-- The message comes without a handle, and its RFH2 header has the property with the value `v`. -/
structure DeliversInRfh2 (s : State) (call : GetCall) (ppGetMsgOpts : PMQGMO) (gmo : MQGMO)
    (v : Bytes) : Prop where
  deref : s.derefGmo ppGetMsgOpts = .ok gmo
  handle : isValidHandle gmo.msgHandle = false
  haveMsg : call.haveMsg = true
  format : call.format.any (strncmpEq · MQFMT_RF_HEADER_2 8) = true
  element : HasElement call.buffer v

/-- What follows the first tag that opens the property is cut out, up to the next tag. -/
theorem extractRFH2PropVal_openTag {prop before value : Bytes} (hprop : (60 : UInt8) ∉ prop)
    (hvalue : (60 : UInt8) ∉ value) (hfirst : ¬ openTag prop <:+: before) (after : Bytes) :
    extractRFH2PropVal (before ++ (openTag prop ++ (value ++ 60 :: after))) prop = value := by
  have htag : openTag prop = 60 :: (prop ++ lit ">") := rfl
  have hno : (60 : UInt8) ∉ prop ++ lit ">" := fun h ↦
    (List.mem_append.1 h).elim hprop fun h ↦ absurd h (by decide)
  generalize htext : before ++ (openTag prop ++ (value ++ 60 :: after)) = text
  -- the first search: no tag that opens the property before this one
  have hstart : find text (openTag prop) 0 = some before.length := by
    rw [find, if_pos (Nat.zero_le _), List.drop_zero, ← htext, htag,
      findAt_append_of_not_infix hno (htag ▸ hfirst)]
    simp
  have hdrop : text.drop (before.length + (openTag prop).length) = value ++ 60 :: after := by
    rw [← htext, ← List.append_assoc, ← List.length_append, List.drop_left]
  have hlen : before.length + (openTag prop).length ≤ text.length := by
    rw [← htext]
    simp only [List.length_append]
    omega
  -- the second search: no bracket in the value
  have hstop : find text (lit "<") (before.length + (openTag prop).length) =
      some (before.length + (openTag prop).length + value.length) := by
    rw [find, if_pos hlen, hdrop]
    show (findAt [60] _).map _ = _
    rw [findAt_singleton_append hvalue]
    rfl
  have hcount : before.length + (openTag prop).length + value.length - before.length -
      (openTag prop).length = value.length := by
    omega
  have hopen : lit "<" ++ prop ++ lit ">" = openTag prop := rfl
  simp only [extractRFH2PropVal, hopen, hstart, hstop]
  rw [substr, hdrop, hcount, List.take_left]

/-- **The text of the first element** is cut out as it is written. -/
theorem extractRFH2PropVal_element {prop before : Bytes} (hprop : (60 : UInt8) ∉ prop)
    (hfirst : ¬ openTag prop <:+: before) (v after : Bytes) :
    extractRFH2PropVal (before ++ element prop v ++ after) prop = escape v := by
  have hsplit : before ++ element prop v ++ after =
      before ++ (openTag prop ++ (escape v ++ 60 :: (lit "/" ++ prop ++ lit ">" ++ after))) := by
    simp only [element, closeTag, List.append_assoc]
    rfl
  rw [hsplit]
  exact extractRFH2PropVal_openTag hprop (not_mem_escape v) hfirst _

theorem obtains_iff_of_rfh2 {env : Env} {s : State} {call : GetCall} {pp : PMQGMO} {gmo : MQGMO}
    {v t : Bytes} (h : DeliversInRfh2 s call pp gmo v) :
    Obtains env s call pp t ↔ escape v = t := by
  obtain ⟨fixed, nameValueLength, before, after, body, hfixed, hlength, hfirst, hbuffer, hstruc⟩ :=
    h.element
  generalize htext : before ++ element TRACESTATE v ++ after = text at hbuffer hstruc
  have hstate : extractRFH2PropVal text TRACESTATE = escape v := by
    rw [← htext]
    exact extractRFH2PropVal_element (by decide) hfirst v after
  -- the text lies inside the message
  have hat : stringAt call.buffer (MQRFH_STRUC_LENGTH_FIXED_2 + 4)
      (40 + text.length - MQRFH_STRUC_LENGTH_FIXED_2 - 4) = pure text := by
    have hoffset : MQRFH_STRUC_LENGTH_FIXED_2 + 4 = 40 := rfl
    have hlen : (40 : ℤ) + text.length - MQRFH_STRUC_LENGTH_FIXED_2 - 4 = text.length := by
      rw [MQRFH_STRUC_LENGTH_FIXED_2]
      omega
    have hdrop : call.buffer.drop 40 = text ++ body := by
      have h40 : (fixed ++ nameValueLength).length = 40 := by
        rw [List.length_append, hfixed, hlength]
      rw [hbuffer, List.append_assoc, ← h40, List.drop_left]
    have hinside : 40 + text.length ≤ call.buffer.length := by
      rw [hbuffer]
      simp only [List.length_append]
      omega
    rw [hoffset, hlen, stringAt, if_neg (by omega), if_pos (by omega), substr]
    show pure ((call.buffer.drop 40).take text.length) = _
    rw [hdrop, List.take_left]
  have hprops : Returns (receivedProps env call gmo.msgHandle)
      (extractRFH2PropVal text TRACEPARENT, escape v) := by
    rw [receivedProps, if_neg (by rw [h.handle]; exact Bool.false_ne_true),
      if_pos ⟨h.haveMsg, h.format⟩]
    simp only [returns_bind, returns_pure]
    exact ⟨_, hstruc, text, by rw [hat]; exact returns_pure.2 rfl, by rw [hstate]⟩
  rw [Obtains]
  simp only [h.deref, Except.ok.injEq, exists_and_left, exists_eq_left']
  constructor
  · rintro ⟨traceparentVal, hreturns⟩
    exact (Prod.mk.inj (Except.ok.inj (Except.ok.inj (hprops.symm.trans hreturns)))).2
  · rintro rfl
    exact ⟨_, hprops⟩

/-! ### The two together -/

/-- **The two deliveries give the same text** exactly when nothing in the value is written as an
entity, and MQINQMP has returned it. -/
theorem obtains_same_iff {env : Env} {s s' : State} {call call' : GetCall} {pp pp' : PMQGMO}
    {gmo gmo' : MQGMO} {v : Bytes} (hhandle : DeliversInHandle env s call pp gmo v)
    (hrfh2 : DeliversInRfh2 s' call' pp' gmo' v) :
    (∃ t, Obtains env s call pp t ∧ Obtains env s' call' pp' t) ↔
      Plain v ∧ (env.inqmp call.hConn gmo.msgHandle TRACESTATE).cc = .OK := by
  simp only [obtains_iff_of_handle hhandle, obtains_iff_of_rfh2 hrfh2, exists_eq_left']
  rw [propsValue]
  rcases hhandle.reply with ⟨hcc, hvalue⟩ | ⟨hcc, hlong⟩
  · simp only [hcc, if_true, hvalue, and_true]
    exact escape_eq_self_iff
  · simp only [hcc, if_false, and_false, iff_false]
    intro hnil
    have := (length_escape v).1
    rw [hnil, List.length_nil] at this
    omega

/-! ### A sample -/

/-- A queue manager whose messages have the trace state `v` and no trace parent. -/
def Env.withTraceState (v : Bytes) : Env :=
  { Env.refusing .sample with
    inqmp := fun _ _ name ↦
      if name = TRACESTATE then ⟨.OK, MQRC_NONE, v⟩
      else ⟨.FAILED, MQRC_PROPERTY_NOT_AVAILABLE, []⟩ }

/-- The `usr` folder with the trace state `v`. -/
def usrFolder (v : Bytes) : Bytes :=
  lit "<usr>" ++ element TRACESTATE v ++ lit "</usr>"

/-- A message without data, with the folder in its RFH2 header. The folder must be short. -/
def usrMessage (v : Bytes) : Bytes :=
  lit "RFH " ++ [2, 0, 0, 0] ++ [UInt8.ofNat (40 + (usrFolder v).length), 0, 0, 0] ++
    List.replicate 24 0 ++ [UInt8.ofNat (usrFolder v).length, 0, 0, 0] ++ usrFolder v

/-- An MQGET that has returned the message. -/
def GetCall.withTraceState (v : Bytes) : GetCall where
  hConn := 1
  hObj := MQHO_UNUSABLE_HOBJ
  format := some MQFMT_RF_HEADER_2
  buffer := usrMessage v
  compCode := .OK
  reason := MQRC_NONE

/-- The structure of the application that gets with handle 7. -/
def MQGMO.withHandle : MQGMO :=
  { version := MQGMO_VERSION_4, msgHandle := 7 }

/-- The same text is obtained of the message with handle 7 and of that with the folder. -/
def SampleAgrees (v : Bytes) : Prop :=
  ∃ t, Obtains (.withTraceState v) .withHandle (.withTraceState v) (.app 0) t ∧
    Obtains (.withTraceState v) .plain (.withTraceState v) (.app 0) t

theorem deliversInHandle_sample (v : Bytes) :
    DeliversInHandle (.withTraceState v) .withHandle (.withTraceState v) (.app 0)
      MQGMO.withHandle v where
  deref := rfl
  handle := by decide
  haveMsg := rfl
  reply := Or.inl ⟨rfl, rfl⟩

theorem hasElement_usrMessage {v : Bytes} (hv : (usrFolder v).length < 216) :
    HasElement (usrMessage v) v := by
  have hlength : 40 + (usrFolder v).length < 256 := by omega
  refine ⟨lit "RFH " ++ [2, 0, 0, 0] ++ [UInt8.ofNat (40 + (usrFolder v).length), 0, 0, 0] ++
    List.replicate 24 0, [UInt8.ofNat (usrFolder v).length, 0, 0, 0], lit "<usr>", lit "</usr>", [],
    rfl, rfl, by decide, (List.append_nil _).symm, ?_⟩
  show Returns (pure (BitVec.ofNat 32 ((UInt8.ofNat (40 + (usrFolder v).length)).toNat + 256 *
    ((0 : UInt8).toNat + 256 * ((0 : UInt8).toNat + 256 * (0 : UInt8).toNat)))).toInt) _
  rw [returns_pure, UInt8.toNat_ofNat', Nat.mod_eq_of_lt hlength]
  show (BitVec.ofNat 32 (40 + (usrFolder v).length)).toInt = 40 + (usrFolder v).length
  have hmod : (40 + (usrFolder v).length) % 2 ^ 32 = 40 + (usrFolder v).length :=
    Nat.mod_eq_of_lt (by omega)
  rw [BitVec.toInt_eq_toNat_of_lt (by rw [BitVec.toNat_ofNat, hmod]; omega), BitVec.toNat_ofNat,
    hmod, Nat.cast_add, Nat.cast_ofNat]

theorem deliversInRfh2_sample {v : Bytes} (hv : (usrFolder v).length < 216) :
    DeliversInRfh2 .plain (.withTraceState v) (.app 0) MQGMO_DEFAULT v where
  deref := rfl
  handle := rfl
  haveMsg := rfl
  format := by
    show (some MQFMT_RF_HEADER_2).any (strncmpEq · MQFMT_RF_HEADER_2 8) = true
    decide
  element := hasElement_usrMessage hv

theorem obtains_same_iff_sample :
    DeliversInHandle (.withTraceState (lit "rojo=00f0")) .withHandle
      (.withTraceState (lit "rojo=00f0")) (.app 0) MQGMO.withHandle (lit "rojo=00f0") ∧
    DeliversInRfh2 .plain (.withTraceState (lit "rojo=00f0")) (.app 0) MQGMO_DEFAULT
      (lit "rojo=00f0") ∧
    (SampleAgrees (lit "rojo=00f0") ↔ Plain (lit "rojo=00f0") ∧
      ((Env.withTraceState (lit "rojo=00f0")).inqmp 1 7 TRACESTATE).cc = .OK) :=
  have hhandle := deliversInHandle_sample (lit "rojo=00f0")
  have hrfh2 := deliversInRfh2_sample (v := lit "rojo=00f0") (by decide)
  ⟨hhandle, hrfh2, obtains_same_iff hhandle hrfh2⟩

/-- A value with an ampersand is received as it is written in the header. -/
theorem not_obtains_same_ampersand :
    DeliversInHandle (.withTraceState (lit "rojo=a&b")) .withHandle
      (.withTraceState (lit "rojo=a&b")) (.app 0) MQGMO.withHandle (lit "rojo=a&b") ∧
    DeliversInRfh2 .plain (.withTraceState (lit "rojo=a&b")) (.app 0) MQGMO_DEFAULT
      (lit "rojo=a&b") ∧ ¬ SampleAgrees (lit "rojo=a&b") := by
  have hhandle := deliversInHandle_sample (lit "rojo=a&b")
  have hrfh2 := deliversInRfh2_sample (v := lit "rojo=a&b") (by decide)
  refine ⟨hhandle, hrfh2, ?_⟩
  rintro ⟨t, ht, ht'⟩
  obtain rfl := (obtains_iff_of_handle hhandle).1 ht
  have hsame := (obtains_iff_of_rfh2 hrfh2).1 ht'
  exact absurd hsame (by decide)

end MqExits.Otel
