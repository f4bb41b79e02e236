import MqExits.Otel.Put
import MqExits.Otel.Split
import MqExits.Otel.Traceparent

/-!
# The trace context across a message

What one process formats with `mqotPutBefore` and another reads with `mqotGetAfter`. The writer is a
`sprintf` with fixed widths, the reader a generic splitter that drops empty pieces and a decoder of
pairs of digits that stops at the end of the text or of its buffer, whichever comes first.

They agree because the widths are those of the ids: each piece is its bytes in base 16, so nothing
is cut or padded (`sprintfField_eq_self`), no piece is empty or holds a dash, so the splitter finds
the four of them (`split_intercalate`), and the decoder fills its buffer to the last byte
(`hexToBinary_toLowerBase16`).
-/

namespace MqExits.Otel

open CText Outcome

/-! ### Base 16 -/

theorem hexDigit?_hexChar : ∀ v < 16, hexDigit? (hexChar v) = some v := by
  decide

theorem toLowerBase16_cons (b : UInt8) (bytes : Bytes) :
    toLowerBase16 (b :: bytes) =
      hexChar (b.toNat / 16) :: hexChar (b.toNat % 16) :: toLowerBase16 bytes := rfl

/-- Every byte of the text is a digit. -/
theorem isxdigit_of_mem_toLowerBase16 {bytes : Bytes} {c : UInt8}
    (h : c ∈ toLowerBase16 bytes) : isxdigit c = true := by
  obtain ⟨b, -, hc⟩ := List.mem_flatMap.1 h
  have hdigit : ∀ v < 16, isxdigit (hexChar v) = true := fun v hv ↦ by
    rw [isxdigit, hexDigit?_hexChar v hv]
    rfl
  have hlt := b.toNat_lt
  rcases List.mem_pair.1 hc with rfl | rfl
  · exact hdigit _ (by omega)
  · exact hdigit _ (by omega)

theorem length_toLowerBase16 (bytes : Bytes) :
    (toLowerBase16 bytes).length = 2 * bytes.length := by
  induction bytes with
  | nil => rfl
  | cons b bytes ih =>
    rw [toLowerBase16_cons, List.length_cons, List.length_cons, ih, List.length_cons]
    omega

/-- The digits of the bytes from the `i`-th on. -/
theorem drop_toLowerBase16 (bytes : Bytes) (i : ℕ) :
    (toLowerBase16 bytes).drop (i * 2) = toLowerBase16 (bytes.drop i) := by
  induction bytes generalizing i with
  | nil => simp [toLowerBase16]
  | cons b bytes ih =>
    cases i with
    | zero => rfl
    | succ i =>
      rw [toLowerBase16_cons, show (i + 1) * 2 = i * 2 + 1 + 1 by omega, List.drop_succ_cons,
        List.drop_succ_cons, ih, List.drop_succ_cons]

/-- `stoi` reads a byte back from its two digits. -/
theorem returns_stoi_byte {bytes : Bytes} {i : ℕ} {b : UInt8} (h : bytes[i]? = some b) :
    Returns (stoi (substr (toLowerBase16 bytes) (i * 2) 2)) (b.toNat : ℤ) := by
  have hlt := b.toNat_lt
  have hdrop : bytes.drop i = b :: bytes.drop (i + 1) := by
    obtain ⟨hi, hb⟩ := List.getElem?_eq_some_iff.1 h
    rw [List.drop_eq_getElem_cons hi, hb]
  have hpair : substr (toLowerBase16 bytes) (i * 2) 2 =
      [hexChar (b.toNat / 16), hexChar (b.toNat % 16)] := by
    rw [substr, drop_toLowerBase16, hdrop, toLowerBase16_cons]
    rfl
  rw [hpair, stoi, stoi16_pair (hexDigit?_hexChar _ (by omega)) (hexDigit?_hexChar _ (by omega))]
  rw [returns_pure]
  omega

/-- The cast of a byte is that byte. -/
theorem toUInt8_toNat (b : UInt8) : toUInt8 (b.toNat : ℤ) = b := by
  have hlt := b.toNat_lt
  rw [toUInt8, show ((b.toNat : ℤ) % 256).toNat = b.toNat by omega, UInt8.ofNat_toNat]

/-- **The decoder reads back what was written**, whatever the buffer held before. -/
theorem hexToBinary_toLowerBase16 {bytes : Bytes} {n : ℕ} (hn : bytes.length = n) (buf : Field n) :
    Returns (hexToBinary (toLowerBase16 bytes) buf.val n) bytes := by
  have hlen : bytes.length = min n (((toLowerBase16 bytes).length + 1) / 2) := by
    rw [length_toLowerBase16]
    omega
  have hread := returns_hexToBinary buf hlen fun i b hb ↦
    ⟨_, returns_stoi_byte hb, toUInt8_toNat b⟩
  rwa [List.drop_of_length_le (by rw [buf.2, hn]), List.append_nil] at hread

/-! ### The format -/

/-- A text without NULs that has the width of its field is written as it is. -/
theorem sprintfField_eq_self {n : ℕ} {s : Bytes} (hlen : s.length = n) (hnul : (0 : UInt8) ∉ s) :
    sprintfField n s = s := by
  rw [sprintfField, List.take_of_length_le hlen.le, cstr_eq_self hnul, hlen, Nat.sub_self]
  rfl

theorem sprintfField_toLowerBase16 (bytes : Bytes) :
    sprintfField (2 * bytes.length) (toLowerBase16 bytes) = toLowerBase16 bytes :=
  sprintfField_eq_self (length_toLowerBase16 bytes) fun h ↦
    absurd (isxdigit_of_mem_toLowerBase16 h) (by decide)

/-- The pieces of the text of a context. -/
def parentPieces (c : SpanContext) : List Bytes :=
  [lit "00", toLowerBase16 c.traceId, toLowerBase16 c.spanId, toLowerBase16 [c.traceFlags]]

/-- The text is its pieces with a dash between each two. -/
theorem traceparentText_eq (c : SpanContext) :
    traceparentText c = (lit "-").intercalate (parentPieces c) := by
  have ht := sprintfField_toLowerBase16 c.traceId
  have hs := sprintfField_toLowerBase16 c.spanId
  have hf := sprintfField_toLowerBase16 [c.traceFlags]
  rw [c.traceId_length] at ht
  rw [c.spanId_length] at hs
  rw [traceparentText, ht, hs, show (2 : ℕ) = 2 * [c.traceFlags].length from rfl, hf]
  simp [parentPieces, List.intercalate]

/-! ### The splitter -/

/-- **Splitting undoes joining**, for pieces that are not empty and do not hold the delimiter. -/
theorem split_intercalate {c : UInt8} {toks : List Bytes} (hne : toks ≠ [])
    (htoks : ∀ tok ∈ toks, tok ≠ [] ∧ c ∉ tok) :
    split ([c].intercalate toks) [c] = some toks := by
  have hcuts := cuts_intercalate hne fun tok h ↦ (htoks tok h).2
  have hall : nonempty toks = toks := List.filter_eq_self.2 fun tok h ↦ by
    rw [Bool.not_eq_true', List.isEmpty_eq_false_iff]
    exact (htoks tok h).1
  rw [split_eq_of_cuts (List.cons_ne_nil c []) hcuts, hall]

/-- **The text of a context is split into its four pieces.** -/
theorem split_traceparentText (c : SpanContext) :
    split (traceparentText c) (lit "-") = some (parentPieces c) := by
  have hids : ∀ bytes : Bytes, bytes ≠ [] →
      toLowerBase16 bytes ≠ [] ∧ 45 ∉ toLowerBase16 bytes := by
    intro bytes hne
    constructor
    · intro h
      have hlen := length_toLowerBase16 bytes
      rw [h] at hlen
      have := List.length_pos_of_ne_nil hne
      simp only [List.length_nil] at hlen
      omega
    · intro h
      exact absurd (isxdigit_of_mem_toLowerBase16 h) (by decide)
  have htrace : c.traceId ≠ [] := List.ne_nil_of_length_pos (by rw [c.traceId_length]; decide)
  have hspan : c.spanId ≠ [] := List.ne_nil_of_length_pos (by rw [c.spanId_length]; decide)
  rw [traceparentText_eq]
  refine split_intercalate (by simp [parentPieces]) ?_
  simp only [parentPieces, List.forall_mem_cons]
  exact ⟨by decide, hids _ htrace, hids _ hspan, hids _ (by simp), by simp⟩

/-! ### The context that is read -/

/-- `TraceFlags::IsSampled`. -/
def SpanContext.isSampled (c : SpanContext) : Bool :=
  c.traceFlags &&& 1 ≠ 0

/-- The link to the context `c`, with the trace state that came with it. -/
def SpanContext.link (c : SpanContext) (tracestateVal : Bytes) : Link where
  traceId := c.traceId
  spanId := c.spanId
  sampled := c.isSampled
  traceState := if tracestateVal = [] then none else some tracestateVal

/-- The last piece is compared with the text of the sampled flag. -/
theorem sampled_piece {c : SpanContext} (hflags : c.traceFlags = 0 ∨ c.traceFlags = 1) :
    (toLowerBase16 [c.traceFlags] == lit "01") = c.isSampled := by
  rcases hflags with h | h
  · rw [SpanContext.isSampled, h]
    decide
  · rw [SpanContext.isSampled, h]
    decide

/-- The ids and the flag are read back. -/
theorem returns_parentContext {c : SpanContext} (hflags : c.traceFlags = 0 ∨ c.traceFlags = 1)
    (env : Env) :
    Returns (parentContext env (traceparentText c)) (some (c.traceId, c.spanId, c.isSampled)) := by
  have hne : traceparentText c ≠ [] := by
    intro h
    have hsplit := split_traceparentText c
    rw [h, split_nil] at hsplit
    cases Option.some.inj hsplit
  have htrace := hexToBinary_toLowerBase16 c.traceId_length env.uninitTraceId
  have hspan := hexToBinary_toLowerBase16 c.spanId_length env.uninitSpanId
  rw [parentContext, if_neg hne, split_traceparentText, parentPieces]
  simp only [returns_bind, returns_pure]
  exact ⟨_, htrace, _, hspan, by rw [sampled_piece hflags]⟩

/-- A trace parent that a put sets is the text of its span. -/
theorem value_of_mem_setmpCalls {env : Env} {mh : MQHMSG} {skipParent skipState : Bool}
    {call : SetmpCall} (hmem : call ∈ setmpCalls env mh skipParent skipState)
    (hname : call.name = TRACEPARENT) : call.value = traceparentText env.currentSpan := by
  by_cases hvalid : env.currentSpan.isValid = true
  · rw [setmpCalls, if_pos hvalid, List.mem_append] at hmem
    rcases hmem with hparent | hstate
    · split_ifs at hparent
      · cases hparent
      · rw [List.mem_singleton.1 hparent]
    · -- the other property has another name
      have hother : call.name = TRACESTATE := by
        split_ifs at hstate
        · cases hstate
        · rcases hstate' : env.currentSpan.traceState with - | header
          · rw [hstate'] at hstate
            cases hstate
          · rw [hstate'] at hstate
            dsimp only at hstate
            split_ifs at hstate
            · rw [List.mem_singleton.1 hstate]
            · cases hstate
      rw [hname] at hother
      exact absurd hother (by decide)
  · rw [setmpCalls, if_neg hvalid] at hmem
    cases hmem

theorem value_of_mqotPutBefore {env : Env} {s : State} {hc : MQHCONN} {ho : Option MQHOBJ}
    {msg : PutMessage} {pp : PMQPMO} {r : PutBeforeResult} {calls : List SetmpCall}
    (hput : mqotPutBefore env s hc ho msg pp = .ok r) (hcalls : r.outcome = .ok calls)
    {call : SetmpCall} (hmem : call ∈ calls) (hname : call.name = TRACEPARENT) :
    call.value = traceparentText env.currentSpan := by
  obtain ⟨t, -, hput⟩ := bind_eq_ok.1 hput
  obtain ⟨skips, -, hput⟩ := bind_eq_ok.1 hput
  rcases skips with e | ⟨inParent, inState⟩
  · rw [← Except.ok.inj hput] at hcalls
    cases hcalls
  · rw [← Except.ok.inj hput] at hcalls
    rw [← Except.ok.inj hcalls] at hmem
    exact value_of_mem_setmpCalls hmem hname

/-- **The context of the sender is the context that is linked.** Whatever trace parent a put sets is
the text of its span; that text is split into its four pieces and decoded to the same ids and the
same flag; and an MQGET that receives it within a valid span links exactly that context. -/
theorem traceContext_roundTrip {c : SpanContext} (hflags : c.traceFlags = 0 ∨ c.traceFlags = 1) :
    (∀ env s hc ho msg pp r calls, env.currentSpan = c →
      mqotPutBefore env s hc ho msg pp = .ok r → r.outcome = .ok calls →
      ∀ call ∈ calls, call.name = TRACEPARENT → call.value = traceparentText c) ∧
    split (traceparentText c) (lit "-") = some (parentPieces c) ∧
    (∀ env, Returns (parentContext env (traceparentText c))
      (some (c.traceId, c.spanId, c.isSampled))) ∧
    ∀ env s call pp gmo tracestateVal, State.derefGmo s pp = .ok gmo →
      Returns (receivedProps env call gmo.msgHandle) (traceparentText c, tracestateVal) →
      env.currentSpan.isValid = true → HasStash s call gmo.msgHandle →
      ∃ pp', mqotGetAfter env s call pp = .ok ⟨pp', .ok (some (c.link tracestateVal))⟩ := by
  refine ⟨?_, split_traceparentText c, returns_parentContext hflags, ?_⟩
  · rintro env s hc ho msg pp r calls rfl hput hcalls call hmem hname
    exact value_of_mqotPutBefore hput hcalls hmem hname
  · intro env s call pp gmo tracestateVal hgmo hprops hvalid hstash
    -- the pointer that comes back is of no account for the link
    obtain ⟨pp', hpp⟩ : ∃ pp', restoredGmo s call gmo.msgHandle pp = .ok pp' :=
      exists_restoredGmo_iff.2 hstash
    have hlink : Returns (linkContext env (traceparentText c) tracestateVal)
        (some (c.link tracestateVal)) := by
      rw [linkContext, if_pos hvalid]
      simp only [returns_bind, returns_pure]
      exact ⟨_, returns_parentContext hflags env, rfl⟩
    rw [Returns] at hprops hlink
    refine ⟨pp', ?_⟩
    simp only [mqotGetAfter, hgmo, hprops, hpp, hlink, bind, Except.bind]
    rfl

/-- A put that sets the text as the property of the handle 5, and an MQGET that receives it. -/
theorem traceContext_roundTrip_sample :
    (∃ r call, mqotPutBefore (.creating .sample) .plain 1 (some 3) ⟨none, []⟩ (.app 0) = .ok r ∧
      r.outcome = .ok [call] ∧ call.mh = 5 ∧ call.name = TRACEPARENT ∧
      call.value = traceparentText .sample) ∧
    ∃ pp', mqotGetAfter (.delivering (traceparentText .sample)) .withHandle (.of [] []) (.app 0) =
      .ok ⟨pp', .ok (some (SpanContext.sample.link []))⟩ := by
  obtain ⟨hputs, -, -, hget⟩ := traceContext_roundTrip (c := .sample) (Or.inr rfl)
  constructor
  · have hput : ∃ r, mqotPutBefore (.creating .sample) .plain 1 (some 3) ⟨none, []⟩ (.app 0) =
        .ok r ∧ r.outcome = .ok [⟨5, TRACEPARENT, traceparentText .sample⟩] := ⟨_, rfl, rfl⟩
    obtain ⟨r, hr, hcalls⟩ := hput
    have hvalue := hputs (.creating .sample) .plain 1 (some 3) ⟨none, []⟩ (.app 0) r _ rfl hr hcalls
      _ (List.mem_singleton_self _) rfl
    exact ⟨r, _, hr, hcalls, rfl, rfl, hvalue⟩
  · exact hget (.delivering (traceparentText .sample)) .withHandle (.of [] []) (.app 0) _ [] rfl rfl
      (by decide) fun _ hcmp ↦ absurd hcmp (by decide)

example : traceparentText .sample =
    lit "00-01010101010101010101010101010101-0101010101010101-01" := by decide

end MqExits.Otel
