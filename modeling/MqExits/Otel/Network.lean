import MqExits.Otel.Delivery
import MqExits.Otel.GetPointer
import MqExits.Otel.Isolation
import MqExits.Otel.Propagation
import MqExits.Otel.PutProperties

/-!
# Processes that exchange messages

Any number of processes, each with a module of its own and any number of connections, put messages
and get them, in any order. A put is that of `putStep`. A get is the exit before it, the real call
and the exit after it, where the queue manager presents the properties of the message in the message
handle that is used, or as an RFH2 header, or not at all (`Delivery`).

**Every run is one of the machine `propagation`** (`network_refines`): whatever the interleaving, a
get within a valid span links to what the connection of the message passed on when it was put, and
what a connection passes on is what its own puts have set. So a link is always to a context that a
put was made within (`link_eq_of_run`).

## What is assumed of an application

It puts without a message handle and without an RFH2 header of its own, so that the exit uses the
handle it keeps for the connection (`putStep` has no step for any other put). It gets with whatever
structure it likes, as long as it does not have the exit's own handle in it. The other exit
functions may be called at any time with any arguments, but for those that create or discard a
message handle (`ExitCall.keepsHandles`).

## The relation

`Network.Refines` has two parts for each connection, and one for the messages:

* what the stored handle holds is what the connection passes on, as texts (`HasProps`);
* a connection without a stored handle has set nothing, and no handle of it holds anything, so that
  a handle which is created by a put begins with nothing;
* the messages that were sent are, one by one, those of the other machine.

A put changes the first two for its own connection only, as the keys of two connections are never
equal. It is one lemma for a put that has a handle and one for a put that has none: the second sets
nothing and sends nothing, which is a put of the other machine too. A get changes nothing, and its
link is computed from what the route delivers (`getStep_spec`); every other call leaves the handles
as they are.
-/

namespace MqExits.Otel

open CText Outcome XmlText

/-! ### How a message is presented -/

/-- MQINQMP returns a value that fits into the buffer of `propsValue`. -/
def InqmpReply.Gives (reply : InqmpReply) : Option Bytes → Prop
  | none => reply.cc ≠ .OK
  | some v => if v.length ≤ VALUE_BUFFER_SIZE then reply.cc = .OK ∧ reply.value = v
    else reply.cc ≠ .OK

/-- The name/value text has the property as an element, or no element of that name. -/
def ShowsProp (text prop : Bytes) : Option Bytes → Prop
  | none => ¬ openTag prop <:+: text
  | some v => ∃ before after, text = before ++ element prop v ++ after ∧
    ¬ openTag prop <:+: before

/-- The message data begins with an RFH2 header whose name/value text has the two properties. -/
def ShowsHeader (buffer : Bytes) (m : Props) : Prop :=
  ∃ fixed nameValueLength text body : Bytes, fixed.length = 36 ∧ nameValueLength.length = 4 ∧
    buffer = fixed ++ nameValueLength ++ text ++ body ∧
    Returns (strucLength buffer) (40 + text.length) ∧
    ShowsProp text TRACEPARENT (m TRACEPARENT) ∧ ShowsProp text TRACESTATE (m TRACESTATE)

/-- How an MQGET presents the message with the properties `m`. A header comes as a whole. -/
structure Delivery (m : Props) where
  out : GetOutcome
  /-- The properties are put in the handle of the MQGMO. -/
  inHandle : Bool
  /-- The replies for that handle. -/
  inqmp : Bytes → InqmpReply
  haveMsg : out.compCode = .OK ∨ out.reason = MQRC_TRUNCATED_MSG_ACCEPTED
  gives : ∀ prop, (inqmp prop).Gives (if inHandle then m prop else none)
  header : out.format.any (strncmpEq · MQFMT_RF_HEADER_2 8) = true → ShowsHeader out.buffer m

/-- Where the exit looks for the properties, given the handle in the structure that was used. -/
def Delivery.route {m : Props} (d : Delivery m) (mh : MQHMSG) : Route :=
  if isValidHandle mh then if d.inHandle then .handle else .nowhere
  else if d.out.format.any (strncmpEq · MQFMT_RF_HEADER_2 8) then .header else .nowhere

/-! ### The machine -/

/-- One of the processes: its module, and by connection what the queue manager holds for message
handles. -/
structure Peer where
  exit : State
  props : MQHCONN → MQHMSG → Props

/-- The processes, and the messages that have been put, oldest first. -/
structure Network where
  process : ℕ → Peer
  messages : List Props

/-- Processes that have just loaded the module. -/
def Network.start (appGmo : ℕ → AppAddr → MQGMO) (appPmo : ℕ → AppAddr → MQPMO) : Network where
  process p := ⟨State.init (appGmo p) (appPmo p), fun _ _ _ ↦ none⟩
  messages := []

/-- One MQGET that returns a message. -/
structure GetInput where
  /-- What is outside the module before the real call, and after it. -/
  env : Env
  env' : Env
  a : AppAddr
  /-- What the application has in its structure. -/
  gmo : MQGMO
  /-- Which message it is. -/
  n : ℕ
  delivery : (m : Props) → Delivery m

/-- The structure of the real MQGET. -/
def usedGmo (gmo : MQGMO) : MQGMO :=
  if SuppliesHandle gmo then gmo else extendGmo gmo

/-- The exit before an MQGET, the real call, and the exit after it. -/
def getStep (s : State) (hc : MQHCONN) (i : GetInput) (m : Props) :
    Except Fault (State × Except CppException (Option Link)) := do
  let d := i.delivery m
  let s := { s with appGmo := Function.update s.appGmo i.a i.gmo }
  let (pp, s) ← getBefore i.env s hc (.app i.a)
  let s := s.modifyGmo pp (·.write d.out.outputs)
  let r ← getAfter { i.env' with inqmp := fun _ _ ↦ d.inqmp } s hc d.out pp
  return (s, r.outcome)

/-- Calls that neither create a message handle nor discard one. -/
def ExitCall.keepsHandles : ExitCall → Bool
  | .putBefore _ _ _ _ _ | .discBefore _ => false
  | _ => true

/-- What a process does. -/
inductive NetworkStep
  | put (p : ℕ) (hc : MQHCONN) (i : PutInput)
  | get (p : ℕ) (hc : MQHCONN) (i : GetInput)
  /-- Any other use of the exits: opening and closing objects, gets that return no message. -/
  | call (p : ℕ) (call : ExitCall)

/-- The processes. The message handle that an application gets with is one of its own. -/
def network : Machine Network NetworkStep (Option (Except CppException (Option Link))) where
  step w
    | .put p hc i =>
      (putStep hc ⟨(w.process p).exit, (w.process p).props hc⟩ i).map fun r ↦
        (⟨Function.update w.process p
            ⟨r.1.exit, Function.update (w.process p).props hc r.1.props⟩,
          w.messages ++ r.2.toList⟩, none)
    | .get p hc i =>
      if compareMsgHandle (w.process p).exit hc none i.gmo.msgHandle then none
      else (w.messages[i.n]?).bind fun m ↦
        (getStep (w.process p).exit hc i m).toOption.map fun r ↦
          ({ w with process := Function.update w.process p { w.process p with exit := r.1 } },
            some r.2)
    | .call p call =>
      if call.keepsHandles then
        (exitStep (w.process p).exit call).toOption.map fun s ↦
          ({ w with process := Function.update w.process p { w.process p with exit := s } }, none)
      else none

/-- A step of that machine. -/
abbrev NetworkEvent :=
  Machine.Event Network NetworkStep (Option (Except CppException (Option Link)))

/-! ### What a step does to what is passed on -/

/-- What a put within the current span sets. -/
def Env.sets (env : Env) : Carried where
  span := if env.currentSpan.isValid then some env.currentSpan else none
  state := readState env
  valid c h := by
    split_ifs at h with hvalid
    rwa [← Option.some.inj h]
  span_isSome h := by
    rw [readState] at h
    split_ifs at h ⊢
    · rfl
    · cases h

/-- What a put sets: nothing without a handle. -/
def putSets (hc : MQHCONN) (exit : State) (i : PutInput) : Carried :=
  if HasPutHandle i.env exit hc then i.env.sets else .nothing

/-- A put is made and its message goes out. -/
def sends (hc : MQHCONN) (exit : State) (i : PutInput) : Bool :=
  i.accepted ∧ HasPutHandle i.env exit hc

/-- How the message of a get is presented. -/
def GetInput.route (i : GetInput) (w : Network) : Route :=
  (w.messages[i.n]?).elim .nowhere fun m ↦ (i.delivery m).route (usedGmo i.gmo).msgHandle

/-- The step, as one of the machine `propagation`. -/
def NetworkStep.propagates (w : Network) : NetworkStep → PropagationStep
  | .put p hc i => .put p hc (putSets hc (w.process p).exit i) (Otel.sends hc (w.process p).exit i)
  | .get _ _ i => .get i.n i.env'.currentSpan.isValid (i.route w)
  | .call _ _ => .other

/-! ### The text of a context -/

/-- The text of a context has only digits and dashes in it. -/
theorem mem_traceparentText {c : SpanContext} {b : UInt8} (h : b ∈ traceparentText c) :
    isxdigit b = true ∨ b = 45 := by
  have hversion : ∀ b ∈ lit "00", isxdigit b = true := by decide +kernel
  simp only [traceparentText_eq, parentPieces, List.intercalate, List.intersperse_cons_cons,
    List.intersperse_singleton, List.flatten_cons, List.flatten_nil, List.append_nil,
    List.mem_append] at h
  rcases h with h | h | h | h | h | h | h
  · exact Or.inl (hversion b h)
  · exact Or.inr (List.mem_singleton.1 h)
  · exact Or.inl (isxdigit_of_mem_toLowerBase16 h)
  · exact Or.inr (List.mem_singleton.1 h)
  · exact Or.inl (isxdigit_of_mem_toLowerBase16 h)
  · exact Or.inr (List.mem_singleton.1 h)
  · exact Or.inl (isxdigit_of_mem_toLowerBase16 h)

/-- So it is written in a header as it is, -/
theorem escape_traceparentText (c : SpanContext) :
    escape (traceparentText c) = traceparentText c := by
  refine escape_eq_self_iff.2 fun b hb ↦ ⟨?_, ?_, ?_⟩ <;>
  · rintro rfl
    exact absurd (mem_traceparentText hb) (by decide)

/-- and it fits into the buffer of `propsValue`. -/
theorem length_traceparentText (c : SpanContext) : (traceparentText c).length = 55 := by
  simp only [traceparentText_eq, parentPieces, List.intercalate, List.intersperse_cons_cons,
    List.intersperse_singleton, List.flatten_cons, List.flatten_nil, List.append_nil,
    List.length_append, length_toLowerBase16, c.traceId_length, c.spanId_length]
  rfl

/-- The text of the flags is that of the sampled flag when no other one is set. -/
theorem toLowerBase16_flags (flags : UInt8) :
    (toLowerBase16 [flags] == lit "01") = (flags == 1) := by
  have hdigit : ∀ v < 16, (hexChar v = 48 ↔ v = 0) ∧ (hexChar v = 49 ↔ v = 1) := by decide
  have hlt := flags.toNat_lt
  obtain ⟨hhigh, -⟩ := hdigit (flags.toNat / 16) (by omega)
  obtain ⟨-, hlow⟩ := hdigit (flags.toNat % 16) (by omega)
  have hone : flags = 1 ↔ flags.toNat = 1 := UInt8.toNat_inj.symm
  have htext : lit "01" = [48, 49] := by decide
  rw [Bool.eq_iff_iff, beq_iff_eq, beq_iff_eq, toLowerBase16_cons, htext, hone]
  simp only [List.cons.injEq, hhigh, hlow]
  show _ ∧ _ ∧ toLowerBase16 [] = [] ↔ _
  rw [show toLowerBase16 [] = [] from rfl, and_iff_left rfl]
  omega

/-- What is read from the text of a context, whatever its flags. -/
theorem returns_parentContext_text (c : SpanContext) (env : Env) :
    Returns (parentContext env (traceparentText c))
      (some (c.traceId, c.spanId, c.traceFlags == 1)) := by
  have hne : traceparentText c ≠ [] := by
    intro h
    have hlen := length_traceparentText c
    rw [h] at hlen
    cases hlen
  rw [parentContext, if_neg hne, split_traceparentText, parentPieces]
  simp only [returns_bind, returns_pure]
  exact ⟨_, hexToBinary_toLowerBase16 c.traceId_length env.uninitTraceId, _,
    hexToBinary_toLowerBase16 c.spanId_length env.uninitSpanId, by rw [toLowerBase16_flags]⟩

/-- The link to a context that was received as a text. -/
theorem returns_linkContext (env : Env) (span : Option SpanContext) (tracestateVal : Bytes)
    (h : span = none → tracestateVal = []) :
    Returns (linkContext env ((span.map traceparentText).getD []) tracestateVal)
      (if env.currentSpan.isValid then span.map (·.linked tracestateVal) else none) := by
  rw [linkContext]
  split_ifs
  · rw [returns_bind]
    rcases span with - | c
    · refine ⟨none, ?_, returns_pure.2 ?_⟩
      · exact returns_pure.2 rfl
      · rw [newContext, h rfl]
        rfl
    · exact ⟨_, returns_parentContext_text c env, returns_pure.2 rfl⟩
  · exact returns_pure.2 rfl

/-! ### What is received -/

/-- The properties are what is passed on: the text of the context, and the trace state. -/
def HasProps (m : Props) (c : Carried) : Prop :=
  m TRACEPARENT = c.span.map traceparentText ∧ m TRACESTATE = c.state

theorem propsValue_of_gives {env : Env} {hc : MQHCONN} {mh : MQHMSG} {prop : Bytes}
    {v : Option Bytes} (h : (env.inqmp hc mh prop).Gives v) :
    propsValue env hc mh prop = (v.map Route.handle.text).getD [] := by
  rw [propsValue]
  rcases v with - | v
  · exact if_neg h
  · rw [InqmpReply.Gives] at h
    rw [Option.map_some, Option.getD_some, Route.text]
    by_cases hlen : v.length ≤ VALUE_BUFFER_SIZE
    · rw [if_pos hlen] at h ⊢
      rw [if_pos h.1, h.2]
    · rw [if_neg hlen] at h ⊢
      exact if_neg h

theorem extractRFH2PropVal_of_showsProp {text prop : Bytes} {v : Option Bytes}
    (hprop : (60 : UInt8) ∉ prop) (h : ShowsProp text prop v) :
    extractRFH2PropVal text prop = (v.map Route.header.text).getD [] := by
  rcases v with - | v
  · have hnone : find text (lit "<" ++ prop ++ lit ">") 0 = none := by
      rw [find, if_pos (Nat.zero_le _), List.drop_zero, Option.map_eq_none_iff]
      exact findAt_eq_none_iff.2 h
    rw [extractRFH2PropVal, hnone]
    rfl
  · obtain ⟨before, after, rfl, hfirst⟩ := h
    exact extractRFH2PropVal_element hprop hfirst v after

/-- The text of the properties is the name/value text of the header. -/
theorem returns_header {buffer : Bytes} {m : Props} (h : ShowsHeader buffer m) :
    ∃ len text, Returns (strucLength buffer) len ∧
      Returns (stringAt buffer (MQRFH_STRUC_LENGTH_FIXED_2 + 4)
        (len - MQRFH_STRUC_LENGTH_FIXED_2 - 4)) text ∧
      ShowsProp text TRACEPARENT (m TRACEPARENT) ∧ ShowsProp text TRACESTATE (m TRACESTATE) := by
  obtain ⟨fixed, nameValueLength, text, body, hfixed, hlength, hbuffer, hstruc, hparent, hstate⟩ :=
    h
  refine ⟨_, text, hstruc, ?_, hparent, hstate⟩
  have hoffset : MQRFH_STRUC_LENGTH_FIXED_2 + 4 = 40 := rfl
  -- `StrucLength` counts the fixed part and the length of the text, which the exit takes off again
  have hlen : (40 : ℤ) + text.length - MQRFH_STRUC_LENGTH_FIXED_2 - 4 = text.length := by
    rw [MQRFH_STRUC_LENGTH_FIXED_2]
    omega
  have hdrop : buffer.drop 40 = text ++ body := by
    have h40 : (fixed ++ nameValueLength).length = 40 := by
      rw [List.length_append, hfixed, hlength]
    rw [hbuffer, List.append_assoc, ← h40, List.drop_left]
  have hinside : 40 + text.length ≤ buffer.length := by
    rw [hbuffer]
    simp only [List.length_append]
    omega
  rw [hoffset, hlen, stringAt, if_neg (by omega), if_pos (by omega), substr]
  refine returns_pure.2 ?_
  show (buffer.drop 40).take text.length = text
  rw [hdrop, List.take_left]

/-- The texts that arrive by a route, of the context and of the trace state. -/
def Route.received (route : Route) (c : Carried) : Bytes × Bytes :=
  if route = .nowhere then ([], [])
  else ((c.span.map traceparentText).getD [], (c.state.map route.text).getD [])

/-- **What the exit finds**, wherever it looks. -/
theorem returns_receivedProps {m : Props} {c : Carried} (hm : HasProps m c) (d : Delivery m)
    (env : Env) (hc : MQHCONN) (mh : MQHMSG) (henv : env.inqmp = fun _ _ ↦ d.inqmp) :
    Returns (receivedProps env ⟨hc, MQHO_UNUSABLE_HOBJ, d.out.format, d.out.buffer,
      d.out.compCode, d.out.reason⟩ mh) ((d.route mh).received c) := by
  obtain ⟨hparent, hstate⟩ := hm
  -- the text of a context is not changed on the way
  have htext : ∀ route : Route, route ≠ .nowhere →
      ((c.span.map traceparentText).map route.text).getD [] =
        (c.span.map traceparentText).getD [] := by
    intro route hroute
    rcases c.span with - | span
    · rfl
    · rcases route with - | - | -
      · exact if_pos (by rw [length_traceparentText]; decide)
      · exact escape_traceparentText span
      · exact absurd rfl hroute
  have hmsg : GetCall.haveMsg ⟨hc, MQHO_UNUSABLE_HOBJ, d.out.format, d.out.buffer,
      d.out.compCode, d.out.reason⟩ = true := by
    rw [GetCall.haveMsg, decide_eq_true_iff]
    exact d.haveMsg
  by_cases hvalid : isValidHandle mh = true
  · have hgives : ∀ prop, propsValue env hc mh prop =
        ((if d.inHandle then m prop else none).map Route.handle.text).getD [] :=
      fun prop ↦ propsValue_of_gives (by rw [henv]; exact d.gives prop)
    rw [receivedProps, if_pos hvalid, if_pos hmsg, Delivery.route, if_pos hvalid, returns_pure,
      hgives, hgives]
    by_cases hin : d.inHandle = true
    · rw [if_pos hin, if_pos hin, if_pos hin, hparent, hstate, htext _ (by decide)]
      rfl
    · rw [if_neg hin, if_neg hin, if_neg hin]
      rfl
  · rw [receivedProps, if_neg hvalid, Delivery.route, if_neg hvalid]
    by_cases hformat : d.out.format.any (strncmpEq · MQFMT_RF_HEADER_2 8) = true
    · obtain ⟨len, text, hlen, hat, hshowsParent, hshowsState⟩ := returns_header (d.header hformat)
      rw [if_pos ⟨hmsg, hformat⟩, if_pos hformat]
      simp only [returns_bind, returns_pure]
      refine ⟨len, hlen, text, hat, ?_⟩
      rw [extractRFH2PropVal_of_showsProp (by decide) hshowsParent,
        extractRFH2PropVal_of_showsProp (by decide) hshowsState, hparent, hstate,
        htext _ (by decide)]
      rfl
    · rw [if_neg fun h ↦ hformat h.2, if_neg hformat]
      exact returns_pure.2 rfl

/-- The link that is added for it. -/
theorem returns_linkContext_received (env : Env) (route : Route) (c : Carried) :
    Returns (linkContext env (route.received c).1 (route.received c).2)
      (if env.currentSpan.isValid then route.link c.span c.state else none) := by
  rw [Route.received, Route.link]
  split_ifs with hroute hvalid hvalid
  · have hnothing := returns_linkContext env none [] fun _ ↦ rfl
    rwa [if_pos hvalid] at hnothing
  · have hnothing := returns_linkContext env none [] fun _ ↦ rfl
    rwa [if_neg hvalid] at hnothing
  all_goals
    have hlink := returns_linkContext env c.span ((c.state.map route.text).getD []) fun hspan ↦ by
      have hnone : ¬ c.state.isSome = true := fun h ↦ by
        have := c.span_isSome h
        rw [hspan] at this
        cases this
      rw [Option.not_isSome_iff_eq_none.1 hnone]
      rfl
  · rwa [if_pos hvalid] at hlink
  · rwa [if_neg hvalid] at hlink

/-! ### One get -/

/-- The handle in the structure of the real call. -/
theorem exists_derefGmo_of_getBefore {env : Env} {s s' : State} {hc : MQHCONN} {a : AppAddr}
    {pp : PMQGMO} (h : getBefore env s hc (.app a) = .ok (pp, s')) (out : GmoOutputs) :
    ∃ used, (s'.modifyGmo pp (·.write out)).derefGmo pp = .ok used ∧
      used.msgHandle = (usedGmo (s.appGmo a)).msgHandle := by
  by_cases hsupplied : SuppliesHandle (s.appGmo a)
  · have hsame := (mqotGetBefore_of_suppliesHandle hsupplied).symm.trans h
    obtain ⟨rfl, rfl⟩ := Prod.mk.inj (Except.ok.inj hsame)
    refine ⟨(s.appGmo a).write out, ?_, ?_⟩
    · simp [State.modifyGmo, State.derefGmo]
    · rw [usedGmo, if_pos hsupplied, MQGMO.write_msgHandle]
  · obtain ⟨o, obj, s₁, hspec, hopt, -, hmy, -⟩ :=
      mqotGetBefore_spec env hsupplied (usable_of_mqotGetBefore hsupplied h)
    obtain ⟨rfl, rfl⟩ := Prod.mk.inj (Except.ok.inj (hspec.symm.trans h))
    refine ⟨_, derefGmo_of_optionsAt (optionsAt_modifyGmo _ hopt), ?_⟩
    rw [MQGMO.write_msgHandle, hmy, usedGmo, if_neg hsupplied]

/-- **What a get does**: no message handle changes, and the link is to what its message carries. -/
theorem getStep_spec {s s' : State} {hc : MQHCONN} {i : GetInput} {m : Props} {c : Carried}
    {outcome : Except CppException (Option Link)} (hm : HasProps m c)
    (h : getStep s hc i m = .ok (s', outcome)) :
    s'.objectHandleMap = s.objectHandleMap ∧
      outcome = .ok (if i.env'.currentSpan.isValid then
        ((i.delivery m).route (usedGmo i.gmo).msgHandle).link c.span c.state else none) := by
  obtain ⟨⟨pp, s₁⟩, hbefore, h⟩ := bind_eq_ok.1 h
  obtain ⟨r, hafter, h⟩ := bind_eq_ok.1 h
  obtain ⟨rfl, rfl⟩ := Prod.mk.inj (Except.ok.inj h)
  have hmap := (keyStep_mqotGetBefore hbefore).2
  refine ⟨by rw [State.modifyGmo_objectHandleMap, hmap], ?_⟩
  obtain ⟨used, hderef, hused⟩ :=
    exists_derefGmo_of_getBefore hbefore (i.delivery m).out.outputs
  simp only [Function.update_self] at hused
  obtain ⟨gmo, hgmo, hafter⟩ := bind_eq_ok.1 hafter
  obtain rfl := Except.ok.inj (hderef.symm.trans hgmo)
  -- the three parts of the exit after the call: what it finds, the pointer, the link
  have hreceived := returns_receivedProps hm (i.delivery m)
    { i.env' with inqmp := fun _ _ ↦ (i.delivery m).inqmp } hc used.msgHandle rfl
  obtain ⟨props, hprops, hafter⟩ := bind_eq_ok.1 hafter
  obtain rfl := Except.ok.inj (hreceived.symm.trans hprops)
  obtain ⟨pp', -, hafter⟩ := bind_eq_ok.1 hafter
  obtain ⟨outcome, houtcome, hafter⟩ := bind_eq_ok.1 hafter
  obtain rfl := Except.ok.inj hafter
  have hlink := returns_linkContext_received
    { i.env' with inqmp := fun _ _ ↦ (i.delivery m).inqmp }
    ((i.delivery m).route used.msgHandle) c
  obtain rfl := Except.ok.inj (hlink.symm.trans houtcome)
  rw [hused]

/-! ### The refinement -/

/-- What the message handles and the messages hold is what is passed on. A connection without a
message handle has set nothing. -/
structure Network.Refines (w : Network) (t : Propagation) : Prop where
  stored : ∀ p hc mh, (w.process p).exit.objectHandleMap.lookup (objectKey hc none) = some mh →
    HasProps ((w.process p).props hc mh.val) (t.carried p hc)
  unset : ∀ p hc, (w.process p).exit.objectHandleMap.lookup (objectKey hc none) = none →
    (∀ mh name, (w.process p).props hc mh name = none) ∧ t.carried p hc = .nothing
  messages : List.Forall₂ HasProps w.messages t.messages

theorem hasProps_nothing {m : Props} (h : ∀ name, m name = none) : HasProps m .nothing :=
  ⟨h _, h _⟩

theorem Network.refines_start (appGmo : ℕ → AppAddr → MQGMO) (appPmo : ℕ → AppAddr → MQPMO) :
    (Network.start appGmo appPmo).Refines .start where
  stored p hc mh h := by simp [Network.start, State.init] at h
  unset p hc _ := ⟨fun _ _ ↦ rfl, rfl⟩
  messages := .nil

/-- What a put leaves in its handle. -/
theorem hasProps_foldl_setmp (env : Env) {mh : MQHMSG} {props : MQHMSG → Props} {c : Carried}
    (hmh : isValidHandle mh = true) (h : HasProps (props mh) c) :
    HasProps (((setmpCalls env mh false false).foldl setmp props) mh) (env.sets.over c) := by
  obtain ⟨hparent, hstate⟩ := foldl_setmp env hmh props
  refine ⟨?_, ?_⟩
  · rw [hparent, h.1, Carried.over, Env.sets, wantedParent]
    split_ifs <;> rfl
  · rw [hstate, h.2]
    rfl

/-- The handle of a put holds what the connection passes on, also when it is a new one. -/
theorem Network.Refines.putHandle {w : Network} {t : Propagation} (h : w.Refines t) {p : ℕ}
    {hc : MQHCONN} {i : PutInput}
    (hhas : HasPutHandle i.env (w.process p).exit hc) :
    HasProps ((w.process p).props hc
      (Otel.putHandle hc ⟨(w.process p).exit, (w.process p).props hc⟩ i)) (t.carried p hc) := by
  rcases getMsgHandle_cases i.env (w.process p).exit hc none with
    ⟨mh, hm, heq, -, -, hfrom⟩ | ⟨-, hl, hcr⟩
  · rw [Otel.putHandle, heq]
    rcases hfrom with hl | ⟨hl, -⟩
    · exact h.stored p hc mh hl
    · obtain ⟨hprops, hnothing⟩ := h.unset p hc hl
      rw [hnothing]
      exact hasProps_nothing (hprops mh.val)
  · rcases hhas with hhas | hhas
    · rw [hl] at hhas
      cases hhas
    · rw [hcr] at hhas
      cases hhas

/-- A step that changes one connection's handle and what it holds. -/
theorem Network.Refines.update {w : Network} {t : Propagation} (h : w.Refines t) {p : ℕ}
    {hc : MQHCONN} {exit : State} {props : MQHMSG → Props} {c : Carried}
    (hother : ∀ hc', hc' ≠ hc → exit.objectHandleMap.lookup (objectKey hc' none) =
      (w.process p).exit.objectHandleMap.lookup (objectKey hc' none))
    (hstored : ∀ mh, exit.objectHandleMap.lookup (objectKey hc none) = some mh →
      HasProps (props mh.val) c)
    (hunset : exit.objectHandleMap.lookup (objectKey hc none) = none →
      (∀ mh name, props mh name = none) ∧ c = .nothing)
    {messages : List Props} {carried : List Carried}
    (hmessages : List.Forall₂ HasProps messages carried) :
    Network.Refines
      ⟨Function.update w.process p ⟨exit, Function.update (w.process p).props hc props⟩, messages⟩
      ⟨Function.update t.carried p (Function.update (t.carried p) hc c), carried⟩ := by
  refine ⟨fun p' hc' mh hl ↦ ?_, fun p' hc' hl ↦ ?_, hmessages⟩
  · -- another process, another connection of this one, or the connection itself
    rcases eq_or_ne p' p with rfl | hp
    · simp only [Function.update_self] at hl ⊢
      rcases eq_or_ne hc' hc with rfl | hhc
      · simpa using hstored mh hl
      · rw [hother hc' hhc] at hl
        rw [Function.update_of_ne hhc, Function.update_of_ne hhc]
        exact h.stored p' hc' mh hl
    · simp only [Function.update_of_ne hp] at hl ⊢
      exact h.stored p' hc' mh hl
  · rcases eq_or_ne p' p with rfl | hp
    · simp only [Function.update_self] at hl ⊢
      rcases eq_or_ne hc' hc with rfl | hhc
      · simpa using hunset hl
      · rw [hother hc' hhc] at hl
        rw [Function.update_of_ne hhc, Function.update_of_ne hhc]
        exact h.unset p' hc' hl
    · simp only [Function.update_of_ne hp] at hl ⊢
      exact h.unset p' hc' hl

/-- A step that changes no message handle. -/
theorem Network.Refines.exit {w : Network} {t : Propagation} (h : w.Refines t) {p : ℕ}
    {exit : State} (hmap : exit.objectHandleMap = (w.process p).exit.objectHandleMap) :
    Network.Refines
      ⟨Function.update w.process p ⟨exit, (w.process p).props⟩, w.messages⟩ t := by
  refine ⟨fun p' hc mh hl ↦ ?_, fun p' hc hl ↦ ?_, h.messages⟩
  · rcases eq_or_ne p' p with rfl | hp
    · simp only [Function.update_self, hmap] at hl ⊢
      exact h.stored p' hc mh hl
    · simp only [Function.update_of_ne hp] at hl ⊢
      exact h.stored p' hc mh hl
  · rcases eq_or_ne p' p with rfl | hp
    · simp only [Function.update_self, hmap] at hl ⊢
      exact h.unset p' hc hl
    · simp only [Function.update_of_ne hp] at hl ⊢
      exact h.unset p' hc hl

/-- A put leaves the message handles of the other connections. -/
theorem lookup_putStep_ne {hc hc' : MQHCONN} (hne : hc' ≠ hc) {s s' : PutState} {i : PutInput}
    {message : Option Props} (hstep : putStep hc s i = some (s', message)) :
    s'.exit.objectHandleMap.lookup (objectKey hc' none) =
      s.exit.objectHandleMap.lookup (objectKey hc' none) := by
  rw [(putStep_spec hstep).1]
  exact lookup_getMsgHandle_ne fun hkey ↦ hne (objectKey_inj.1 hkey).1

/-- A put with a handle: what it sets goes over what the handle holds, and the message has both. -/
theorem Network.Refines.put_of_hasPutHandle {w : Network} {t : Propagation} (h : w.Refines t)
    {p : ℕ} {hc : MQHCONN} {i : PutInput} (hhas : HasPutHandle i.env (w.process p).exit hc)
    {s' : PutState} {message : Option Props}
    (hstep : putStep hc ⟨(w.process p).exit, (w.process p).props hc⟩ i = some (s', message)) :
    Network.Refines ⟨Function.update w.process p
        ⟨s'.exit, Function.update (w.process p).props hc s'.props⟩, w.messages ++ message.toList⟩
      ⟨Function.update t.carried p
        (Function.update (t.carried p) hc (i.env.sets.over (t.carried p hc))),
        if i.accepted then t.messages ++ [i.env.sets.over (t.carried p hc)] else t.messages⟩ := by
  obtain ⟨hmap, hprops, hmessage⟩ := putStep_spec hstep
  have hvalid := isValidHandle_putHandle.2 (show HasPutHandle i.env
    (⟨(w.process p).exit, (w.process p).props hc⟩ : PutState).exit hc from hhas)
  -- the handle holds what the connection carries, so that the step is the one of `Carried.over`
  have hholds := hasProps_foldl_setmp i.env hvalid (h.putHandle hhas)
  rw [← hprops] at hholds
  obtain ⟨mh, hmh, hstored⟩ := hhas.exists_stored
  rw [← hmap] at hstored
  refine h.update (fun hc' hne ↦ lookup_putStep_ne hne hstep) (fun mh' hl ↦ ?_) (fun hnone ↦ ?_) ?_
  · obtain rfl := Option.some.inj (hstored.symm.trans hl)
    rw [← hmh]
    exact hholds
  · cases hstored.symm.trans hnone
  · rw [hmessage]
    by_cases hacc : i.accepted = true
    · rw [if_pos ⟨hacc, hvalid⟩, if_pos hacc]
      exact List.rel_append h.messages (.cons hholds .nil)
    · rw [if_neg fun hh ↦ hacc hh.1, if_neg hacc]
      simpa using h.messages

/-- A put without a handle sets nothing, and no message goes out. -/
theorem Network.Refines.put_of_not_hasPutHandle {w : Network} {t : Propagation} (h : w.Refines t)
    {p : ℕ} {hc : MQHCONN} {i : PutInput} (hhas : ¬ HasPutHandle i.env (w.process p).exit hc)
    {s' : PutState} {message : Option Props}
    (hstep : putStep hc ⟨(w.process p).exit, (w.process p).props hc⟩ i = some (s', message)) :
    Network.Refines ⟨Function.update w.process p
        ⟨s'.exit, Function.update (w.process p).props hc s'.props⟩, w.messages ++ message.toList⟩
      ⟨Function.update t.carried p (Function.update (t.carried p) hc (t.carried p hc)),
        t.messages⟩ := by
  obtain ⟨hmap, hprops, hmessage⟩ := putStep_spec hstep
  have hnot : ¬ isValidHandle (Otel.putHandle hc
      ⟨(w.process p).exit, (w.process p).props hc⟩ i) = true :=
    fun hv ↦ hhas (isValidHandle_putHandle.1 hv)
  rw [getMsgHandle_of_not_hasPutHandle hhas] at hmap
  rw [foldl_setmp_of_not_valid hnot] at hprops
  refine h.update (fun hc' hne ↦ lookup_putStep_ne hne hstep) ?_ ?_ ?_
  · rw [hmap, hprops]
    exact h.stored p hc
  · rw [hmap, hprops]
    exact h.unset p hc
  · rw [hmessage, if_neg fun hh ↦ hnot hh.2]
    simpa using h.messages

/-- **One put** is a put of the other machine. -/
theorem Network.Refines.put {w : Network} {t : Propagation} (h : w.Refines t) {p : ℕ}
    {hc : MQHCONN} {i : PutInput} {s' : PutState} {message : Option Props}
    (hstep : putStep hc ⟨(w.process p).exit, (w.process p).props hc⟩ i = some (s', message)) :
    ∃ t', propagation.step t (.put p hc (putSets hc (w.process p).exit i)
        (Otel.sends hc (w.process p).exit i)) = some (t', none) ∧
      Network.Refines ⟨Function.update w.process p
          ⟨s'.exit, Function.update (w.process p).props hc s'.props⟩,
        w.messages ++ message.toList⟩ t' := by
  refine ⟨_, rfl, ?_⟩
  by_cases hhas : HasPutHandle i.env (w.process p).exit hc
  · have hsets : putSets hc (w.process p).exit i = i.env.sets := if_pos hhas
    have hsends : Otel.sends hc (w.process p).exit i = i.accepted := by simp [Otel.sends, hhas]
    rw [hsets, hsends]
    exact h.put_of_hasPutHandle hhas hstep
  · have hsets : putSets hc (w.process p).exit i = .nothing := if_neg hhas
    have hsends : ¬ Otel.sends hc (w.process p).exit i = true := by simp [Otel.sends, hhas]
    rw [hsets, Carried.nothing_over, if_neg hsends]
    exact h.put_of_not_hasPutHandle hhas hstep

/-- The other calls leave the message handles as they are. -/
theorem objectHandleMap_exitStep {s s' : State} {call : ExitCall}
    (hkeeps : call.keepsHandles = true) (h : exitStep s call = .ok s') :
    s'.objectHandleMap = s.objectHandleMap := by
  cases call with
  | openAfter env hc od openOptions ho =>
    obtain rfl := Except.ok.inj h
    rw [mqotOpenAfter]
    split_ifs <;> rfl
  | closeAfter hc ho => exact objectHandleMap_mqotCloseAfter h
  | getBefore env hc ho pp =>
    obtain ⟨r, hr, rfl⟩ := map_eq_ok.1 h
    exact (keyStep_mqotGetBefore hr).2
  | putAfter hc ho pp | getAfter env call pp =>
    obtain ⟨r, -, rfl⟩ := map_eq_ok.1 h
    rfl
  | put pp out =>
    obtain rfl := Except.ok.inj h
    exact State.modifyPmo_objectHandleMap ..
  | get pp out =>
    obtain rfl := Except.ok.inj h
    exact State.modifyGmo_objectHandleMap ..
  | application appGmo appPmo =>
    obtain rfl := Except.ok.inj h
    rfl
  -- these create handles and discard them
  | putBefore _ _ _ _ _ | discBefore _ => cases hkeeps

/-- **Each step is one of the other machine.** -/
theorem Network.Refines.step {w w' : Network} {t : Propagation} (h : w.Refines t)
    {i : NetworkStep} {o : Option (Except CppException (Option Link))}
    (hstep : network.step w i = some (w', o)) :
    ∃ t' o', propagation.step t (i.propagates w) = some (t', o') ∧ o = o'.map .ok ∧
      w'.Refines t' := by
  cases i with
  | put p hc i =>
    obtain ⟨⟨s', message⟩, hput, heq⟩ := Option.map_eq_some_iff.1 hstep
    obtain ⟨rfl, rfl⟩ := Prod.mk.inj heq
    obtain ⟨t', ht', hrefines⟩ := h.put hput
    exact ⟨t', none, ht', rfl, hrefines⟩
  | get p hc i =>
    simp only [network] at hstep
    split_ifs at hstep
    obtain ⟨m, hm, hstep⟩ := Option.bind_eq_some_iff.1 hstep
    obtain ⟨⟨s', outcome⟩, hget, heq⟩ := Option.map_eq_some_iff.1 hstep
    obtain ⟨rfl, rfl⟩ := Prod.mk.inj heq
    obtain ⟨hn, rfl⟩ := List.getElem?_eq_some_iff.1 hm
    have hn' : i.n < t.messages.length := h.messages.length_eq ▸ hn
    -- the message with this number carries the same in both
    have hprops : HasProps w.messages[i.n] t.messages[i.n] := h.messages.get hn hn'
    obtain ⟨hmap, rfl⟩ := getStep_spec hprops (toOption_eq_some.1 hget)
    have hroute : i.route w =
        (i.delivery w.messages[i.n]).route (usedGmo i.gmo).msgHandle := by
      rw [GetInput.route, hm]
      rfl
    refine ⟨t, some (if i.env'.currentSpan.isValid then
      (i.route w).link t.messages[i.n].span t.messages[i.n].state else none), ?_, ?_, h.exit hmap⟩
    · show (t.messages[i.n]?).map _ = _
      rw [List.getElem?_eq_getElem hn']
      rfl
    · rw [hroute]
      rfl
  | call p call =>
    simp only [network] at hstep
    split_ifs at hstep with hkeeps
    obtain ⟨s', hs, heq⟩ := Option.map_eq_some_iff.1 hstep
    obtain ⟨rfl, rfl⟩ := Prod.mk.inj heq
    have hmap := objectHandleMap_exitStep hkeeps (toOption_eq_some.1 hs)
    exact ⟨t, none, rfl, rfl, h.exit hmap⟩

/-- Every run is one of the other machine. -/
theorem exists_run_propagation {appGmo : ℕ → AppAddr → MQGMO} {appPmo : ℕ → AppAddr → MQPMO}
    {tr : List NetworkEvent} {w : Network} (h : network.Run (.start appGmo appPmo) tr w) :
    ∃ (tr' : List PropagationEvent) (t : Propagation), propagation.Run .start tr' t ∧
      w.Refines t ∧ tr'.map Machine.Event.input = tr.map (fun e ↦ e.input.propagates e.pre) ∧
      tr.map Machine.Event.output = tr'.map fun e ↦ e.output.map .ok :=
  h.simulates (Network.refines_start appGmo appPmo) (fun w i ↦ i.propagates w)
    (fun o' : Option (Option Link) ↦ o'.map .ok) fun _ _ _ _ _ hR hstep ↦ hR.step hstep

/-- **The exits pass contexts on**: every run of the processes, whatever the interleaving, is one of
the machine `propagation`, with the links it prescribes. No get is left with an exception. -/
theorem network_refines {appGmo : ℕ → AppAddr → MQGMO} {appPmo : ℕ → AppAddr → MQPMO}
    {tr : List NetworkEvent} {w : Network} (h : network.Run (.start appGmo appPmo) tr w) :
    ∃ (tr' : List PropagationEvent) (t : Propagation), propagation.Run .start tr' t ∧
      w.Refines t ∧ tr'.map Machine.Event.input = tr.map (fun e ↦ e.input.propagates e.pre) ∧
      tr.map Machine.Event.output = tr'.map fun e ↦ e.output.map .ok :=
  exists_run_propagation h

/-! ### What a link refers to -/

/-- The span of a put on the connection, if it is a valid one and there is a handle to set it in. -/
def spanSet (p : ℕ) (hc : MQHCONN) (e : NetworkEvent) : Option SpanContext :=
  match e.input with
  | .put p' hc' i =>
    if p' = p ∧ hc' = hc ∧ HasPutHandle i.env (e.pre.process p').exit hc' ∧
        i.env.currentSpan.isValid then some i.env.currentSpan
    else none
  | _ => none

/-- The trace state that a put on the connection sets. -/
def stateSet (p : ℕ) (hc : MQHCONN) (e : NetworkEvent) : Option Bytes :=
  match e.input with
  | .put p' hc' i =>
    if p' = p ∧ hc' = hc ∧ HasPutHandle i.env (e.pre.process p').exit hc' then readState i.env
    else none
  | _ => none

/-- The step is a put whose message goes out. -/
def sendsMessage (e : NetworkEvent) : Bool :=
  match e.input with
  | .put p hc i => sends hc (e.pre.process p).exit i
  | _ => false

theorem sendsMessage_eq (e : NetworkEvent) :
    sendsMessage e = (e.input.propagates e.pre).sends := by
  rw [sendsMessage]
  rcases e.input with ⟨p, hc, i⟩ | ⟨p, hc, i⟩ | ⟨p, call⟩ <;> rfl

theorem spanSet_eq (p : ℕ) (hc : MQHCONN) (e : NetworkEvent) :
    spanSet p hc e = (e.input.propagates e.pre).spanOn p hc := by
  rw [spanSet]
  rcases e.input with ⟨p', hc', i⟩ | ⟨p', hc', i⟩ | ⟨p', call⟩
  · show (if p' = p ∧ hc' = hc ∧ HasPutHandle i.env (e.pre.process p').exit hc' ∧
        i.env.currentSpan.isValid then some i.env.currentSpan else none) =
      if p' = p ∧ hc' = hc then (putSets hc' (e.pre.process p').exit i).span else none
    by_cases hhas : HasPutHandle i.env (e.pre.process p').exit hc'
    · rw [putSets, if_pos hhas, Env.sets]
      simp [hhas, ite_and]
    · rw [putSets, if_neg hhas]
      simp [hhas, Carried.nothing]
  · rfl
  · rfl

theorem stateSet_eq (p : ℕ) (hc : MQHCONN) (e : NetworkEvent) :
    stateSet p hc e = (e.input.propagates e.pre).stateOn p hc := by
  rw [stateSet]
  rcases e.input with ⟨p', hc', i⟩ | ⟨p', hc', i⟩ | ⟨p', call⟩
  · show (if p' = p ∧ hc' = hc ∧ HasPutHandle i.env (e.pre.process p').exit hc' then
        readState i.env else none) =
      if p' = p ∧ hc' = hc then (putSets hc' (e.pre.process p').exit i).state else none
    by_cases hhas : HasPutHandle i.env (e.pre.process p').exit hc'
    · rw [putSets, if_pos hhas, Env.sets]
      simp [hhas]
    · rw [putSets, if_neg hhas]
      simp [hhas, Carried.nothing]
  · rfl
  · rfl

/-- **What a link refers to.** In every run of the processes, a get of the `n`-th message within a
valid span links, by whatever route the properties come, to the span of the latest put within a
valid one on the connection of the message, up to the put of the message, and to the latest trace
state set there. -/
theorem link_eq_of_run {appGmo : ℕ → AppAddr → MQGMO} {appPmo : ℕ → AppAddr → MQPMO}
    {tr : List NetworkEvent} {w : Network} (h : network.Run (.start appGmo appPmo) tr w) :
    ∀ before e after, tr = before ++ e :: after → ∀ p hc i, e.input = .get p hc i →
      ∃ earlier put later p₁ hc₁ i₁, before = earlier ++ put :: later ∧
        put.input = .put p₁ hc₁ i₁ ∧ sendsMessage put = true ∧
        (earlier.filter sendsMessage).length = i.n ∧
        e.output = some (.ok (if i.env'.currentSpan.isValid then
          (i.route e.pre).link (Machine.latest (spanSet p₁ hc₁) (earlier ++ [put]))
            (Machine.latest (stateSet p₁ hc₁) (earlier ++ [put])) else none)) := by
  obtain ⟨tr', t, hrun, -, hinputs, houtputs⟩ := exists_run_propagation h
  rintro before e after rfl p hc i hi
  -- the same place in the other run
  rw [List.map_append, List.map_cons] at hinputs houtputs
  obtain ⟨before', rest', rfl, hbefore, hrest⟩ := List.map_eq_append_iff.1 hinputs
  obtain ⟨e', after', rfl, he, -⟩ := List.map_eq_cons_iff.1 hrest
  have hlen : before.length = before'.length := by
    simpa using (congrArg List.length hbefore).symm
  rw [List.map_append, List.map_cons] at houtputs
  have houtput : e.output = e'.output.map .ok :=
    (List.cons.inj (List.append_inj houtputs (by simpa using hlen)).2).1
  have hinput : e'.input = .get i.n i.env'.currentSpan.isValid (i.route e.pre) := by
    rw [he, hi]
    rfl
  obtain ⟨earlier', later', p₁, hc₁, set, c, hsplit, hn, ⟨hspan, hstate⟩, hlink⟩ :=
    exists_put_of_get hrun before' e' after' rfl _ _ _ hinput
  -- and the put of the message
  rw [hbefore] at hsplit
  obtain ⟨earlier, rest, rfl, rfl, hrest⟩ := List.map_eq_append_iff.1 hsplit
  obtain ⟨put, later, rfl, hput, -⟩ := List.map_eq_cons_iff.1 hrest
  obtain ⟨i₁, hi₁⟩ : ∃ i₁, put.input = .put p₁ hc₁ i₁ := by
    rcases hcase : put.input with ⟨p', hc', i'⟩ | ⟨p', hc', i'⟩ | ⟨p', call⟩
    · rw [hcase] at hput
      obtain ⟨rfl, rfl, -, -⟩ := PropagationStep.put.inj hput
      exact ⟨i', rfl⟩
    · rw [hcase] at hput
      cases hput
    · rw [hcase] at hput
      cases hput
  have hhistory : earlier.map (fun e ↦ e.input.propagates e.pre) ++ [.put p₁ hc₁ set true] =
      (earlier ++ [put]).map fun e ↦ e.input.propagates e.pre := by
    rw [List.map_append, List.map_singleton, hput]
  rw [hhistory, Machine.latest_map] at hspan hstate
  simp only [← spanSet_eq, ← stateSet_eq] at hspan hstate
  refine ⟨earlier, put, later, p₁, hc₁, i₁, rfl, hi₁, ?_, ?_, ?_⟩
  · rw [sendsMessage_eq, hput]
    rfl
  · rw [← hn, List.filter_map, List.length_map]
    congr 2
    funext e
    exact sendsMessage_eq e
  · rw [houtput, hlink, hspan, hstate]
    rfl

/-! ### A message from one process to another -/

/-- The reply to MQINQMP for a property of this value. -/
def InqmpReply.of : Option Bytes → InqmpReply
  | none => ⟨.FAILED, MQRC_PROPERTY_NOT_AVAILABLE, []⟩
  | some v => if v.length ≤ VALUE_BUFFER_SIZE then ⟨.OK, MQRC_NONE, v⟩
    else ⟨.FAILED, MQRC_PROPERTY_VALUE_TOO_BIG, []⟩

theorem InqmpReply.gives_of (v : Option Bytes) : (InqmpReply.of v).Gives v := by
  rcases v with - | v
  · exact MQCC.noConfusion
  · rw [InqmpReply.Gives, InqmpReply.of]
    split_ifs
    · exact ⟨rfl, rfl⟩
    · exact MQCC.noConfusion

/-- A message that is presented in the handle. -/
def Delivery.handle (m : Props) : Delivery m where
  out := { GetOutcome.noMessage with compCode := .OK, reason := MQRC_NONE }
  inHandle := true
  inqmp prop := .of (m prop)
  haveMsg := Or.inl rfl
  gives prop := InqmpReply.gives_of (m prop)
  header h := by cases h

/-- A get of the first message with the application's handle 7, from within the span `c`. -/
def GetInput.within (c : SpanContext) : GetInput where
  env := .refusing c
  env' := .refusing c
  a := 0
  gmo := { version := MQGMO_VERSION_4, msgHandle := 7 }
  n := 0
  delivery := .handle

/-- One process puts a message, and another gets it. -/
def relay : List NetworkEvent × Network :=
  (network.replay (.start (fun _ _ ↦ MQGMO_DEFAULT) fun _ _ ↦ MQPMO_DEFAULT)
    [.put 0 1 (.within .sample), .get 1 1 (.within .sample)]).getD
      ([], .start (fun _ _ ↦ MQGMO_DEFAULT) fun _ _ ↦ MQPMO_DEFAULT)

theorem run_relay : network.Run (.start (fun _ _ ↦ MQGMO_DEFAULT) fun _ _ ↦ MQPMO_DEFAULT)
    relay.1 relay.2 :=
  Machine.run_getD_replay (by decide +kernel)

theorem network_refines_relay :
    ∃ (tr' : List PropagationEvent) (t : Propagation), propagation.Run .start tr' t ∧
      relay.2.Refines t ∧
      tr'.map Machine.Event.input = relay.1.map (fun e ↦ e.input.propagates e.pre) ∧
      relay.1.map Machine.Event.output = tr'.map fun e ↦ e.output.map .ok :=
  network_refines run_relay

theorem ne_nil_relay : relay.1 ≠ [] :=
  List.ne_nil_of_length_pos (by decide +kernel)

theorem input_getLast_relay : (relay.1.getLast ne_nil_relay).input = .get 1 1 (.within .sample) :=
  rfl

/-- The link is to the span of the put. -/
theorem link_eq_of_run_relay :
    ∃ earlier put later p₁ hc₁ i₁, relay.1.dropLast = earlier ++ put :: later ∧
      put.input = .put p₁ hc₁ i₁ ∧ sendsMessage put = true ∧
      (earlier.filter sendsMessage).length = (GetInput.within .sample).n ∧
      (relay.1.getLast ne_nil_relay).output =
        some (.ok (if (GetInput.within .sample).env'.currentSpan.isValid then
          ((GetInput.within .sample).route (relay.1.getLast ne_nil_relay).pre).link
            (Machine.latest (spanSet p₁ hc₁) (earlier ++ [put]))
            (Machine.latest (stateSet p₁ hc₁) (earlier ++ [put])) else none)) :=
  link_eq_of_run run_relay relay.1.dropLast (relay.1.getLast ne_nil_relay) []
    (List.dropLast_append_getLast ne_nil_relay).symm 1 1 (.within .sample) input_getLast_relay

example : relay.1.map Machine.Event.output =
    [none, some (.ok (some (SpanContext.sample.linked [])))] := by
  decide +kernel

end MqExits.Otel
