import MqExits.Otel.PutProperties

/-!
# A put with an MQRFH2 header

`mqotPutBefore` looks for the elements of the two properties in the name/value part of the header,
and takes the position that `find` returns for a truth value. A position is true unless it is the
first, and so is the value for no occurrence: a property is set exactly where the text begins with
its element. That is as meant only where the element is in the text, and not at its beginning
(`setsMissing_iff`).

## The two properties

They differ in what the span has for them. Within a valid span there is always a trace parent to
set, but a trace state only if its header is not empty. So the element of the trace state matters
only to a span that has one, which is why `ElementsBehindStart` says four things and not two.

Whether an element is in the text and whether the text begins with it are related by one fact: what
begins a text is in it. `prefix_and_iff_not_infix_and` is the step from there to the condition, once
for both properties.
-/

namespace MqExits.Otel

open CText Outcome

/-- The start of a property's element. -/
def elementTag (prop : Bytes) : Bytes :=
  lit "<" ++ prop ++ lit ">"

/-- The name/value part of a header of `len` bytes. -/
def nameValueText (buffer : Bytes) (len : ℤ) : Bytes :=
  substr buffer MQRFH_STRUC_LENGTH_FIXED_2.toNat (len - MQRFH_STRUC_LENGTH_FIXED_2).toNat

theorem findIsTrue_eq_false_iff {props prop : Bytes} :
    findIsTrue props prop = false ↔ elementTag prop <+: props := by
  rw [findIsTrue, decide_eq_false_iff_not, not_not]
  exact find_eq_zero_iff

/-- The two flags that the header part sets. -/
theorem returns_rfh2Skips {msg : PutMessage} {len : ℤ} (hformat : msg.hasRfh2 = true)
    (hlen : Returns (strucLength msg.buffer) len) (hmin : MQRFH_STRUC_LENGTH_FIXED_2 ≤ len)
    (hmax : len ≤ msg.buffer.length) :
    Returns (rfh2Skips msg) (findIsTrue (nameValueText msg.buffer len) TRACEPARENT,
      findIsTrue (nameValueText msg.buffer len) TRACESTATE) := by
  have hprops : Returns (stringAt msg.buffer MQRFH_STRUC_LENGTH_FIXED_2
      (len - MQRFH_STRUC_LENGTH_FIXED_2)) (nameValueText msg.buffer len) := by
    rw [stringAt, if_neg (by omega), if_pos (by omega)]
    exact returns_pure.2 rfl
  rw [rfh2Skips, if_pos hformat]
  exact returns_bind.2 ⟨len, hlen, returns_bind.2 ⟨_, hprops, returns_pure.2 rfl⟩⟩

/-! ### The calls -/

/-- The calls set the property in the handle. -/
def Sets (calls : List SetmpCall) (mh : MQHMSG) (prop : Bytes) : Prop :=
  ∃ value, ⟨mh, prop, value⟩ ∈ calls

theorem sets_traceparent_iff {env : Env} {mh : MQHMSG} {skipParent skipState : Bool} :
    Sets (setmpCalls env mh skipParent skipState) mh TRACEPARENT ↔
      skipParent = false ∧ env.currentSpan.isValid = true := by
  have hwanted : (∃ v, wantedParent env.currentSpan = some v) ↔
      env.currentSpan.isValid = true := by
    simp [wantedParent]
  rw [← hwanted, Sets, setmpCalls_eq]
  cases skipParent <;> cases skipState <;> simp [TRACEPARENT_ne_TRACESTATE.symm]

theorem sets_tracestate_iff {env : Env} {mh : MQHMSG} {skipParent skipState : Bool} :
    Sets (setmpCalls env mh skipParent skipState) mh TRACESTATE ↔
      skipState = false ∧ (readState env).isSome := by
  rw [Option.isSome_iff_exists, Sets, setmpCalls_eq]
  cases skipParent <;> cases skipState <;> simp [TRACEPARENT_ne_TRACESTATE]

/-! ### The property -/

/-- The header of the span's trace state is not empty. -/
def HasStateHeader (c : SpanContext) : Prop :=
  ∃ header, c.traceState = some header ∧ header ≠ []

/-- The put is left with each of the two properties set exactly where it should be: where its
element is not in the text and the span has a value for it. -/
def SetsMissing (env : Env) (s : State) (hc : MQHCONN) (ho : Option MQHOBJ) (msg : PutMessage)
    (a : AppAddr) (text : Bytes) : Prop :=
  ∃ r calls, mqotPutBefore env s hc ho msg (.app a) = .ok r ∧ r.outcome = .ok calls ∧
    (Sets calls (getMsgHandle env s hc none).1 TRACEPARENT ↔
      ¬ elementTag TRACEPARENT <:+: text) ∧
    (Sets calls (getMsgHandle env s hc none).1 TRACESTATE ↔
      ¬ elementTag TRACESTATE <:+: text ∧ HasStateHeader env.currentSpan)

/-- The elements that the span has values for are in the text, and none of them at its
beginning. -/
structure ElementsBehindStart (env : Env) (text : Bytes) : Prop where
  parent : elementTag TRACEPARENT <:+: text
  parentBehind : ¬ elementTag TRACEPARENT <+: text
  state : HasStateHeader env.currentSpan → elementTag TRACESTATE <:+: text
  stateBehind : (readState env).isSome → ¬ elementTag TRACESTATE <+: text

/-- A text that begins with a word contains it, so to ask for the one instead of the absence of the
other is right only where the word comes later. -/
theorem prefix_and_iff_not_infix_and {tag text : Bytes} {p q : Prop} :
    (tag <+: text ∧ p ↔ ¬ tag <:+: text ∧ q) ↔
      (q → tag <:+: text) ∧ (p → ¬ tag <+: text) := by
  have hinside : tag <+: text → tag <:+: text := List.IsPrefix.isInfix
  tauto

/-- What the put sets with the exit's own handle. -/
theorem setsMissing_iff_of_rfh2Skips {env : Env} {s : State} {hc : MQHCONN} {ho : Option MQHOBJ}
    {msg : PutMessage} {a : AppAddr} {text : Bytes} (hsupplied : ¬ SuppliesPutHandle (s.appPmo a))
    (husable : s.Usable (objectKey hc ho))
    (hskips : Returns (rfh2Skips msg) (findIsTrue text TRACEPARENT, findIsTrue text TRACESTATE)) :
    SetsMissing env s hc ho msg a text ↔
      (elementTag TRACEPARENT <+: text ∧ env.currentSpan.isValid = true ↔
        ¬ elementTag TRACEPARENT <:+: text) ∧
      (elementTag TRACESTATE <+: text ∧ (readState env).isSome ↔
        ¬ elementTag TRACESTATE <:+: text ∧ HasStateHeader env.currentSpan) := by
  obtain ⟨o, obj, s', ht, -⟩ := putTarget_spec env hsupplied husable
  -- a property is set exactly where its element begins the text and there is a value
  have hsets : ∀ calls, calls = setmpCalls env (getMsgHandle env s hc none).1
      (findIsTrue text TRACEPARENT) (findIsTrue text TRACESTATE) →
      (Sets calls (getMsgHandle env s hc none).1 TRACEPARENT ↔
        elementTag TRACEPARENT <+: text ∧ env.currentSpan.isValid = true) ∧
      (Sets calls (getMsgHandle env s hc none).1 TRACESTATE ↔
        elementTag TRACESTATE <+: text ∧ (readState env).isSome) := by
    rintro calls rfl
    rw [sets_traceparent_iff, sets_tracestate_iff, findIsTrue_eq_false_iff,
      findIsTrue_eq_false_iff]
    exact ⟨Iff.rfl, Iff.rfl⟩
  constructor
  · rintro ⟨r, calls, hr, hcalls, hparent, hstate⟩
    obtain ⟨skips, hskips', rfl⟩ := (mqotPutBefore_returns_iff ht).1 ⟨hr, calls, hcalls⟩
    obtain rfl := Except.ok.inj (Except.ok.inj (hskips.symm.trans hskips'))
    obtain ⟨hsetsParent, hsetsState⟩ := hsets calls (Except.ok.inj hcalls).symm
    exact ⟨hsetsParent.symm.trans hparent, hsetsState.symm.trans hstate⟩
  · rintro ⟨hparent, hstate⟩
    obtain ⟨hr, calls, hcalls⟩ := (mqotPutBefore_returns_iff ht).2 ⟨_, hskips, rfl⟩
    obtain ⟨hsetsParent, hsetsState⟩ := hsets calls (Except.ok.inj hcalls).symm
    exact ⟨_, calls, hr, hcalls, hsetsParent.trans hparent, hsetsState.trans hstate⟩

/-- **When an MQRFH2 message gets its properties right**: its text has the elements already, and
not at the beginning. -/
theorem setsMissing_iff {env : Env} {s : State} {hc : MQHCONN} {ho : Option MQHOBJ}
    {msg : PutMessage} {a : AppAddr} {len : ℤ} (hsupplied : ¬ SuppliesPutHandle (s.appPmo a))
    (husable : s.Usable (objectKey hc ho)) (hspan : env.currentSpan.isValid = true)
    (hformat : msg.hasRfh2 = true) (hlen : Returns (strucLength msg.buffer) len)
    (hmin : MQRFH_STRUC_LENGTH_FIXED_2 ≤ len) (hmax : len ≤ msg.buffer.length) :
    SetsMissing env s hc ho msg a (nameValueText msg.buffer len) ↔
      ElementsBehindStart env (nameValueText msg.buffer len) := by
  have hparent : ∀ tag text : Bytes, (tag <+: text ∧ env.currentSpan.isValid = true ↔
      ¬ tag <:+: text) ↔ tag <:+: text ∧ ¬ tag <+: text := by
    intro tag text
    rw [← and_true (¬ tag <:+: text), prefix_and_iff_not_infix_and]
    simp [hspan]
  rw [setsMissing_iff_of_rfh2Skips hsupplied husable (returns_rfh2Skips hformat hlen hmin hmax),
    hparent, prefix_and_iff_not_infix_and]
  constructor
  · rintro ⟨⟨h₁, h₂⟩, h₃, h₄⟩
    exact ⟨h₁, h₂, h₃, h₄⟩
  · rintro ⟨h₁, h₂, h₃, h₄⟩
    exact ⟨⟨h₁, h₂⟩, h₃, h₄⟩

/-- An MQRFH2 header of 60 bytes, whose one name/value block is `text`. -/
def PutMessage.withHeader (text : Bytes) : PutMessage where
  format := some MQFMT_RF_HEADER_2
  buffer :=
    lit "RFH " ++ [2, 0, 0, 0] ++ [60, 0, 0, 0] ++ [34, 2, 0, 0] ++ [184, 4, 0, 0] ++
      lit "MQSTR   " ++ [0, 0, 0, 0] ++ [184, 4, 0, 0] ++ [20, 0, 0, 0] ++ text

/-- A header with a property of the application's, and none of the exit's. -/
def PutMessage.withUsr : PutMessage :=
  .withHeader (lit "<usr><a>1</a></usr> ")

theorem strucLength_withUsr : Returns (strucLength PutMessage.withUsr.buffer) 60 := rfl

theorem setsMissing_iff_withUsr :
    SetsMissing (.creating .sample) .plain 1 (some 3) .withUsr 0
        (nameValueText PutMessage.withUsr.buffer 60) ↔
      ElementsBehindStart (.creating .sample) (nameValueText PutMessage.withUsr.buffer 60) :=
  setsMissing_iff (by decide) (Or.inl rfl) (by decide) (by decide) strucLength_withUsr (by decide)
    (by decide)

/-- That message lacks `traceparent`, and the put does not set it. -/
theorem not_setsMissing_withUsr :
    PutMessage.withUsr.hasRfh2 = true ∧ Returns (strucLength PutMessage.withUsr.buffer) 60 ∧
      (MQRFH_STRUC_LENGTH_FIXED_2 ≤ 60 ∧ 60 ≤ PutMessage.withUsr.buffer.length) ∧
      ¬ SetsMissing (.creating .sample) .plain 1 (some 3) .withUsr 0
        (nameValueText PutMessage.withUsr.buffer 60) := by
  refine ⟨by decide, strucLength_withUsr, by decide, ?_⟩
  have hskips := returns_rfh2Skips (by decide) strucLength_withUsr (by decide) (by decide)
  rw [setsMissing_iff_of_rfh2Skips (by decide) (Or.inl rfl) hskips]
  rintro ⟨hparent, -⟩
  have hmissing : ¬ elementTag TRACEPARENT <:+:
      nameValueText PutMessage.withUsr.buffer 60 := by decide
  exact absurd (hparent.2 hmissing).1 (by decide)

end MqExits.Otel
