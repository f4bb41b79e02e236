import MqExits.Otel.TraceContext
import MqExits.Runs.Machine
import MqExits.Text.XmlText

/-!
# What the exits of several processes do together

Each connection passes on one context: that of the span of its latest put within a valid one. It
goes with every message of the connection, and whoever gets the message within a valid span links to
it. This is a machine of its own, with nothing of handles, of options or of the text of a property
(`propagation`). That the exits do this is shown with their model.

The history of a run says what a link refers to: the context of the latest valid span of a put on
the connection of the message, up to the put of the message (`exists_put_of_get`).

## What goes along, and what does not

The context of a put has two halves, and they may be of different puts. A put within a valid span
passes on its trace parent. It passes on its trace state only if there is one; else the connection
goes on passing on an earlier one (`Carried.over`). So `IsLatest` says of each half apart where it
comes from.

How a message arrives (`Route`) decides how much of a trace state is left: in the handle a text that
is too long is not obtained at all, in the header one is obtained as it is written, entities and
all. The ids of the trace parent arrive either way.
-/

namespace MqExits.Otel

open CText XmlText

/-! ### What goes with a message -/

/-- The context that a connection passes on: the span it is of, and the text of a trace state, which
never comes without a span. -/
@[ext]
structure Carried where
  span : Option SpanContext
  state : Option Bytes
  valid : ∀ c, span = some c → c.isValid = true
  span_isSome : state.isSome → span.isSome

/-- A connection before its first put. -/
def Carried.nothing : Carried where
  span := none
  state := none
  valid _ h := by cases h
  span_isSome h := by cases h

/-- What a put within a span sets over what was there. Neither part is ever taken away. -/
def Carried.over (new old : Carried) : Carried where
  span := new.span.or old.span
  state := new.state.or old.state
  valid c h := by
    rcases Option.or_eq_some_iff.1 h with h | ⟨-, h⟩
    · exact new.valid c h
    · exact old.valid c h
  span_isSome h := by
    rw [Option.isSome_or, Bool.or_eq_true] at h ⊢
    exact h.imp new.span_isSome old.span_isSome

@[simp] theorem Carried.nothing_over (c : Carried) : Carried.nothing.over c = c := by
  ext1 <;> rfl

/-! ### Links -/

/-- The link to a context whose flags are read from their text: sampled means that no other flag is
set. -/
def SpanContext.linked (c : SpanContext) (tracestateVal : Bytes) : Link where
  traceId := c.traceId
  spanId := c.spanId
  sampled := c.traceFlags == 1
  traceState := if tracestateVal = [] then none else some tracestateVal

/-- Where the program that gets a message finds its properties. -/
inductive Route
  | handle
  | header
  | nowhere
  deriving DecidableEq

/-- The buffer of `propsValue`. -/
def VALUE_BUFFER_SIZE : ℕ := 1024

/-- What arrives of a trace state. -/
def Route.text : Route → Bytes → Bytes
  | .handle, v => if v.length ≤ VALUE_BUFFER_SIZE then v else []
  | .header, v => escape v
  | .nowhere, _ => []

/-- The link to what goes with a message. -/
def Route.link (route : Route) (span : Option SpanContext) (state : Option Bytes) : Option Link :=
  if route = .nowhere then none
  else span.map (·.linked ((state.map route.text).getD []))

/-! ### The machine -/

/-- The connections, each of a process, and the messages that have been put, oldest first. -/
structure Propagation where
  carried : ℕ → MQHCONN → Carried
  messages : List Carried

/-- Nothing has been put. -/
def Propagation.start : Propagation where
  carried _ _ := .nothing
  messages := []

/-- One step. A message may be got any number of times: it is browsed, or it is a publication. -/
inductive PropagationStep
  | put (p : ℕ) (hc : MQHCONN) (set : Carried) (sent : Bool)
  | get (n : ℕ) (within : Bool) (route : Route)
  | other

/-- The machine. The output of a get is its link. -/
def propagation : Machine Propagation PropagationStep (Option (Option Link)) where
  step s
    | .put p hc set sent =>
      let c := set.over (s.carried p hc)
      some (⟨Function.update s.carried p (Function.update (s.carried p) hc c),
        if sent then s.messages ++ [c] else s.messages⟩, none)
    | .get n within route =>
      (s.messages[n]?).map fun c ↦ (s, some (if within then route.link c.span c.state else none))
    | .other => some (s, none)

/-- A step of that machine. -/
abbrev PropagationEvent := Machine.Event Propagation PropagationStep (Option (Option Link))

/-! ### The history -/

/-- The span of a put on the connection. -/
def PropagationStep.spanOn (p : ℕ) (hc : MQHCONN) : PropagationStep → Option SpanContext
  | .put p' hc' set _ => if p' = p ∧ hc' = hc then set.span else none
  | _ => none

/-- The trace state that a put on the connection sets. -/
def PropagationStep.stateOn (p : ℕ) (hc : MQHCONN) : PropagationStep → Option Bytes
  | .put p' hc' set _ => if p' = p ∧ hc' = hc then set.state else none
  | _ => none

/-- A message goes out. -/
def PropagationStep.sends : PropagationStep → Bool
  | .put _ _ _ sent => sent
  | _ => false

/-- The latest that puts on the connection have set. -/
def IsLatest (steps : List PropagationStep) (p : ℕ) (hc : MQHCONN) (c : Carried) : Prop :=
  c.span = Machine.latest (·.spanOn p hc) steps ∧ c.state = Machine.latest (·.stateOn p hc) steps

/-- What a history says of a state: each connection passes on the latest that was set on it, and
each message has what its connection passed on when it was put. -/
structure Propagation.Tracks (steps : List PropagationStep) (s : Propagation) : Prop where
  carried : ∀ p hc, IsLatest steps p hc (s.carried p hc)
  messages : ∀ n c, s.messages[n]? = some c → ∃ before after p hc set,
    steps = before ++ .put p hc set true :: after ∧ (before.filter (·.sends)).length = n ∧
      IsLatest (before ++ [.put p hc set true]) p hc c
  length : s.messages.length = (steps.filter (·.sends)).length

theorem isLatest_append {steps : List PropagationStep} {i : PropagationStep} {p : ℕ}
    {hc : MQHCONN} {c : Carried} :
    IsLatest (steps ++ [i]) p hc c ↔
      c.span = (i.spanOn p hc).or (Machine.latest (·.spanOn p hc) steps) ∧
        c.state = (i.stateOn p hc).or (Machine.latest (·.stateOn p hc) steps) := by
  rw [IsLatest, Machine.latest_append_singleton, Machine.latest_append_singleton]

/-- A put on the connection goes over what was latest. -/
theorem IsLatest.put {steps : List PropagationStep} {p : ℕ} {hc : MQHCONN} {c : Carried}
    (h : IsLatest steps p hc c) (set : Carried) (sent : Bool) :
    IsLatest (steps ++ [.put p hc set sent]) p hc (set.over c) := by
  rw [isLatest_append, PropagationStep.spanOn, PropagationStep.stateOn, if_pos ⟨rfl, rfl⟩,
    if_pos ⟨rfl, rfl⟩, ← h.1, ← h.2]
  exact ⟨rfl, rfl⟩

/-- A put on another connection does not. -/
theorem IsLatest.put_ne {steps : List PropagationStep} {p p' : ℕ} {hc hc' : MQHCONN} {c : Carried}
    (h : IsLatest steps p hc c) (hne : ¬ (p' = p ∧ hc' = hc)) (set : Carried) (sent : Bool) :
    IsLatest (steps ++ [.put p' hc' set sent]) p hc c := by
  rw [isLatest_append, PropagationStep.spanOn, PropagationStep.stateOn, if_neg hne, if_neg hne]
  exact h

/-- The messages there were stay where they were. -/
theorem Propagation.Tracks.messages_append {steps : List PropagationStep} {s : Propagation}
    (h : s.Tracks steps) (i : PropagationStep) {n : ℕ} {c : Carried}
    (hn : s.messages[n]? = some c) : ∃ before after p hc set,
      steps ++ [i] = before ++ .put p hc set true :: after ∧
        (before.filter (·.sends)).length = n ∧
        IsLatest (before ++ [.put p hc set true]) p hc c := by
  obtain ⟨before, after, p, hc, set, rfl, hlen, hlatest⟩ := h.messages n c hn
  exact ⟨before, after ++ [i], p, hc, set, by simp, hlen, hlatest⟩

/-- **One step keeps the history true.** -/
theorem Propagation.Tracks.step {steps : List PropagationStep} {s s' : Propagation}
    {i : PropagationStep} {o : Option (Option Link)} (h : s.Tracks steps)
    (hstep : propagation.step s i = some (s', o)) : s'.Tracks (steps ++ [i]) := by
  cases i with
  | put p hc set sent =>
    obtain ⟨rfl, -⟩ := Prod.mk.inj (Option.some.inj hstep)
    have hnew := (h.carried p hc).put set sent
    refine ⟨fun p' hc' ↦ ?_, fun n c hn ↦ ?_, ?_⟩
    · by_cases heq : p = p' ∧ hc = hc'
      · obtain ⟨rfl, rfl⟩ := heq
        simpa using hnew
      · have hother : (Function.update s.carried p (Function.update (s.carried p) hc
            (set.over (s.carried p hc)))) p' hc' = s.carried p' hc' := by
          by_cases hp : p' = p
          · subst hp
            rw [Function.update_self, Function.update_of_ne fun hh ↦ heq ⟨rfl, hh.symm⟩]
          · rw [Function.update_of_ne hp]
        show IsLatest _ p' hc' (Function.update s.carried p _ p' hc')
        rw [hother]
        exact (h.carried p' hc').put_ne heq set sent
    · dsimp only at hn
      split_ifs at hn with hsent
      · rw [hsent] at hnew ⊢
        rcases Nat.lt_or_ge n s.messages.length with hlt | hge
        · rw [List.getElem?_append_left hlt] at hn
          exact h.messages_append _ hn
        · -- the last message is the one just put
          rw [List.getElem?_append_right hge] at hn
          obtain ⟨hlt, rfl⟩ := List.getElem?_eq_some_iff.1 hn
          have hn' : n = s.messages.length := by simp at hlt; omega
          refine ⟨steps, [], p, hc, set, rfl, by rw [hn', h.length], ?_⟩
          simpa using hnew
      · exact h.messages_append _ hn
    · rw [List.filter_append, List.length_append, ← h.length]
      cases sent <;> simp [PropagationStep.sends]
  | get n within route =>
    obtain ⟨c, -, heq⟩ := Option.map_eq_some_iff.1 hstep
    obtain ⟨rfl, -⟩ := Prod.mk.inj heq
    refine ⟨fun p hc ↦ ?_, fun n c hn ↦ h.messages_append _ hn, ?_⟩
    · exact isLatest_append.2 (h.carried p hc)
    · simpa [PropagationStep.sends] using h.length
  | other =>
    obtain ⟨rfl, -⟩ := Prod.mk.inj (Option.some.inj hstep)
    refine ⟨fun p hc ↦ ?_, fun n c hn ↦ h.messages_append _ hn, ?_⟩
    · exact isLatest_append.2 (h.carried p hc)
    · simpa [PropagationStep.sends] using h.length

theorem Propagation.tracks_start : Propagation.start.Tracks [] where
  carried _ _ := ⟨rfl, rfl⟩
  messages n c h := by simp [Propagation.start] at h
  length := rfl

/-- **What a get links to**: what its message carries is the latest that was set on the connection
of the message, up to the put of the message. -/
theorem exists_put_of_get {tr : List PropagationEvent} {s : Propagation}
    (h : propagation.Run .start tr s) :
    ∀ before e after, tr = before ++ e :: after → ∀ n within route,
      e.input = .get n within route →
      ∃ earlier later p hc set c, before.map Machine.Event.input =
          earlier ++ .put p hc set true :: later ∧
        (earlier.filter (·.sends)).length = n ∧
        IsLatest (earlier ++ [.put p hc set true]) p hc c ∧
        e.output = some (if within then route.link c.span c.state else none) := by
  refine h.forall_split (I := fun tr s ↦ s.Tracks (tr.map Machine.Event.input))
    (P := fun before e ↦ ∀ n within route, e.input = .get n within route →
      ∃ earlier later p hc set c, before.map Machine.Event.input =
          earlier ++ .put p hc set true :: later ∧
        (earlier.filter (·.sends)).length = n ∧
        IsLatest (earlier ++ [.put p hc set true]) p hc c ∧
        e.output = some (if within then route.link c.span c.state else none))
    Propagation.tracks_start ?_ ?_
  · -- a step keeps what is known of the connections and of the messages
    intro tr s i s' o hI hstep
    rw [List.map_append, List.map_singleton]
    exact hI.step hstep
  · -- and that is what a get reads off
    rintro tr s i s' o hI hstep n within route rfl
    obtain ⟨c, hc, heq⟩ := Option.map_eq_some_iff.1 hstep
    obtain ⟨rfl, rfl⟩ := Prod.mk.inj heq
    obtain ⟨earlier, later, p, hconn, set, htr, hlen, hlatest⟩ := hI.messages n c hc
    exact ⟨earlier, later, p, hconn, set, c, htr, hlen, hlatest, rfl⟩

end MqExits.Otel
