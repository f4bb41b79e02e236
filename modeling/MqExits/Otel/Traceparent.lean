import MqExits.Otel.Get

/-!
# Received trace parents

What a `traceparent` text has to look like for `mqotGetAfter` to survive it. The text is the
sender's: it reaches `HexToBinary` after nothing but a split at the dashes, and `std::stoi` throws
on the first two bytes that do not start a number.

The condition is one on the bytes (`ReadableParent`). A text that does not split into four pieces is
ignored. In one that does, every pair of bytes that the decoder consults in the second and third
piece has to start a number; what is past the sixteenth and the eighth pair is never looked at.
-/

namespace MqExits.Otel

open CText Outcome

/-- Each of the first `n` pairs of bytes of `hex`, a last odd byte standing for a pair, reads as a
number. -/
def ReadsHex (hex : Bytes) (n : ℕ) : Prop :=
  ∀ i < n, i * 2 < hex.length → ReadsPair (substr hex (i * 2) 2)

/-- The texts that are ignored or decoded. -/
def ReadableParent (traceparent : Bytes) : Prop :=
  ∀ elem₀ elem₁ elem₂ elem₃,
    split traceparent (lit "-") = some [elem₀, elem₁, elem₂, elem₃] →
      ReadsHex elem₁ 16 ∧ ReadsHex elem₂ 8

/-! ### The decoder -/

/-- The decoder has an iteration for each two characters, and none past the buffer. -/
theorem hexIndices_eq_range (hex : Bytes) (n : ℕ) :
    hexIndices hex n = List.range (min n ((hex.length + 1) / 2)) := by
  have hcond : ∀ i, decide (i * 2 < hex.length) = decide (i < (hex.length + 1) / 2) := by
    intro i
    rw [decide_eq_decide]
    omega
  rw [hexIndices]
  simp only [hcond]
  exact takeWhile_range_lt n _

/-- The indices of the decoder's loop are those that satisfy both of its conditions. -/
theorem mem_hexIndices {hex : Bytes} {buflen i : ℕ} :
    i ∈ hexIndices hex buflen ↔ i < buflen ∧ i * 2 < hex.length := by
  rw [hexIndices_eq_range, List.mem_range]
  omega

theorem length_substr_le (s : Bytes) (pos n : ℕ) : (substr s pos n).length ≤ n := by
  simp [substr]

/-- `stoi` of a pair returns exactly when the pair reads. -/
theorem exists_returns_stoi {s : Bytes} (hs : s.length ≤ 2) :
    (∃ v, Returns (stoi s) v) ↔ ReadsPair s := by
  rw [← stoi16_isOk_iff hs, stoi]
  rcases stoi16 s with e | v <;> simp

/-- **The decoder returns exactly on readable pieces**, whatever the buffer held before. -/
theorem exists_returns_hexToBinary (hex buf : Bytes) (n : ℕ) :
    (∃ out, Returns (hexToBinary hex buf n) out) ↔ ReadsHex hex n := by
  unfold hexToBinary ReadsHex
  have hstep : ∀ (buf : Bytes) (i : ℕ), (∃ buf', Returns (do
      let byteValue ← stoi (substr hex (i * 2) 2)
      return buf.set i (toUInt8 byteValue)) buf') ↔ ReadsPair (substr hex (i * 2) 2) := by
    intro buf i
    rw [← exists_returns_stoi (length_substr_le hex (i * 2) 2)]
    simp
  rw [exists_returns_foldlM hstep]
  simp only [mem_hexIndices, and_imp]

/-- A loop that writes the bytes of a buffer from the first on leaves the rest of it. The induction
is on the bytes written. -/
theorem returns_foldlM_set {value : ℕ → Cpp UInt8} {bytes buf : Bytes}
    (hlen : bytes.length ≤ buf.length)
    (hvalue : ∀ i b, bytes[i]? = some b → Returns (value i) b) :
    Returns ((List.range bytes.length).foldlM (fun buf i ↦ do
      let b ← value i
      return buf.set i b) buf) (bytes ++ buf.drop bytes.length) := by
  induction bytes using List.reverseRecOn with
  | nil => simp
  | append_singleton bytes b ih =>
    rw [List.length_append, List.length_singleton] at hlen
    -- the last byte is written behind those before it
    have hset : (bytes ++ buf.drop bytes.length).set bytes.length b =
        bytes ++ [b] ++ buf.drop (bytes.length + 1) := by
      rw [List.drop_eq_getElem_cons hlen, List.set_append_right _ _ le_rfl, Nat.sub_self,
        List.set_cons_zero, List.append_assoc]
      rfl
    have hinit : ∀ i c, bytes[i]? = some c → Returns (value i) c := by
      intro i c hc
      refine hvalue i c ?_
      rwa [List.getElem?_append_left (List.getElem?_eq_some_iff.1 hc).1]
    have hlast : Returns (value bytes.length) b := hvalue bytes.length b List.getElem?_concat_length
    rw [List.length_append, List.length_singleton, List.range_succ, List.foldlM_append, ← hset]
    refine returns_bind.2 ⟨_, ih (by omega) hinit, ?_⟩
    simp only [List.foldlM_cons, List.foldlM_nil, returns_bind, returns_pure]
    exact ⟨_, ⟨b, hlast, rfl⟩, rfl⟩

/-- **What the decoder writes**: the number of each pair, up to the last pair or the end of the
buffer. -/
theorem returns_hexToBinary {hex bytes : Bytes} {n : ℕ} (buf : Field n)
    (hlen : bytes.length = min n ((hex.length + 1) / 2))
    (hvalue : ∀ i b, bytes[i]? = some b →
      ∃ v, Returns (stoi (substr hex (i * 2) 2)) v ∧ toUInt8 v = b) :
    Returns (hexToBinary hex buf.val n) (bytes ++ buf.val.drop bytes.length) := by
  have hle : bytes.length ≤ buf.val.length := by
    rw [hlen, buf.2]
    exact min_le_left _ _
  have hloop := returns_foldlM_set hle
    fun i b hb ↦ returns_map.2 (hvalue i b hb)
  rw [hexToBinary, hexIndices_eq_range, ← hlen]
  simpa only [map_eq_pure_bind, bind_assoc, pure_bind] using hloop

/-! ### The link -/

theorem split_nil (delim : Bytes) : split [] delim = some [] := by
  have hsub : ∀ n, substr [] 0 n = [] := fun n ↦ by simp [substr]
  simp [split, splitLoop, hsub]

/-- The ids are decoded without a throw exactly on readable texts. -/
theorem exists_returns_parentContext (env : Env) (traceparent : Bytes) :
    (∃ parent, Returns (parentContext env traceparent) parent) ↔ ReadableParent traceparent := by
  rw [parentContext]
  by_cases htp : traceparent = []
  · subst htp
    simp [ReadableParent, split_nil]
  rw [if_neg htp]
  obtain ⟨elems, helems⟩ := Option.isSome_iff_exists.1
    (split_isSome traceparent (lit "-") (by decide))
  rw [ReadableParent]
  rw [helems]
  -- only four pieces are decoded, and of these the second and the third
  match elems with
  | [] | [_] | [_, _] | [_, _, _] | _ :: _ :: _ :: _ :: _ :: _ => simp
  | [elem₀, elem₁, elem₂, elem₃] =>
    constructor
    · rintro ⟨parent, h⟩ e₀ e₁ e₂ e₃ heq
      simp only [returns_bind] at h
      obtain ⟨traceId, ht, spanId, hs, -⟩ := h
      simp only [Option.some.injEq, List.cons.injEq, and_true] at heq
      obtain ⟨-, rfl, rfl, -⟩ := heq
      exact ⟨(exists_returns_hexToBinary elem₁ _ 16).1 ⟨traceId, ht⟩,
        (exists_returns_hexToBinary elem₂ _ 8).1 ⟨spanId, hs⟩⟩
    · intro h
      obtain ⟨h₁, h₂⟩ := h _ _ _ _ rfl
      obtain ⟨traceId, ht⟩ := (exists_returns_hexToBinary elem₁ env.uninitTraceId.val 16).2 h₁
      obtain ⟨spanId, hs⟩ := (exists_returns_hexToBinary elem₂ env.uninitSpanId.val 8).2 h₂
      refine ⟨some (traceId, spanId, elem₃ == lit "01"), ?_⟩
      simp only [returns_bind]
      exact ⟨traceId, ht, spanId, hs, returns_pure.2 rfl⟩

/-- With a current span, the second half of `mqotGetAfter` returns exactly on readable texts. -/
theorem exists_returns_linkContext {env : Env} (hspan : env.currentSpan.isValid = true)
    (traceparent tracestate : Bytes) :
    (∃ link, Returns (linkContext env traceparent tracestate) link) ↔
      ReadableParent traceparent := by
  rw [← exists_returns_parentContext env, linkContext, if_pos hspan]
  simp

/-- What the call restores the pointer from, if it restores it, is there: a live structure for the
connection. -/
def HasStash (s : State) (call : GetCall) (mh : MQHMSG) : Prop :=
  call.hObj = MQHO_UNUSABLE_HOBJ → compareMsgHandle s call.hConn none mh = true →
    ∃ p, optionsAt s (objectKey call.hConn none) = .ok p

/-- The pointer can be restored exactly when what it is restored from is there. -/
theorem exists_restoredGmo_iff {s : State} {call : GetCall} {mh : MQHMSG} {pp : PMQGMO} :
    (∃ pp', restoredGmo s call mh pp = .ok pp') ↔ HasStash s call mh := by
  rw [restoredGmo, HasStash]
  split_ifs with h
  · obtain ⟨-, hobj, hcmp⟩ := h
    rw [hobj, compareMsgHandle_unusable] at hcmp
    simp only [hobj, hcmp, forall_const, restoreGmo, objectKey_unusable, map_eq_ok]
    constructor
    · rintro ⟨pp', p, hp, -⟩
      exact ⟨p, hp⟩
    · rintro ⟨p, hp⟩
      exact ⟨_, p, hp, rfl⟩
  · refine iff_of_true ⟨pp, rfl⟩ fun hobj hcmp ↦ absurd ?_ h
    exact ⟨isValidHandle_of_compareMsgHandle hcmp, hobj, by rwa [hobj, compareMsgHandle_unusable]⟩

/-- **When `mqotGetAfter` returns.** Whatever way the trace parent was received, the call ends
without an exception exactly when the text is readable, provided that the structure it restores the
pointer from, if it restores it, is there. -/
theorem mqotGetAfter_returns_iff {env : Env} {s : State} {call : GetCall} {pp : PMQGMO}
    {gmo : MQGMO} {traceparent tracestate : Bytes} (hgmo : s.derefGmo pp = .ok gmo)
    (hprops : Returns (receivedProps env call gmo.msgHandle) (traceparent, tracestate))
    (hspan : env.currentSpan.isValid = true) :
    (∃ pp' link, mqotGetAfter env s call pp = .ok ⟨pp', .ok link⟩) ↔
      HasStash s call gmo.msgHandle ∧ ReadableParent traceparent := by
  rw [← exists_returns_linkContext hspan traceparent tracestate,
    ← exists_restoredGmo_iff ]
  unfold Returns at hprops ⊢
  simp only [mqotGetAfter, hgmo, hprops, bind, Except.bind]
  rcases restoredGmo s call gmo.msgHandle pp with e | pp'
  · simp
  · rcases (linkContext env traceparent tracestate).run with e | (e | link)
    · simp
    · simp [pure, Except.pure]
    · simp [pure, Except.pure]

/-! ### A text that throws -/

/-- A queue manager whose every handle holds a trace parent, seen from within a valid span. -/
def Env.delivering (traceparent : Bytes) : Env :=
  { Env.refusing .sample with
    inqmp := fun _ _ name ↦
      if name = TRACEPARENT then ⟨.OK, MQRC_NONE, traceparent⟩
      else ⟨.FAILED, MQRC_PROPERTY_NOT_AVAILABLE, []⟩ }

/-- A message that is an RFH2 header with one block of properties. The lengths are those of
headers of less than 256 bytes. -/
def rfh2Message (nameValue : Bytes) : Bytes :=
  let len := UInt8.ofNat nameValue.length
  lit "RFH " ++ [2, 0, 0, 0] ++ [40 + len, 0, 0, 0] ++ List.replicate 24 0 ++ [len, 0, 0, 0] ++
    nameValue

/-- A successful synchronous MQGET on connection 1. -/
def GetCall.of (format buffer : Bytes) : GetCall where
  hConn := 1
  hObj := MQHO_UNUSABLE_HOBJ
  format := some format
  buffer := buffer
  compCode := .OK
  reason := MQRC_NONE

theorem mqotGetAfter_returns_sample :
    (∃ pp' link, mqotGetAfter (.delivering (lit "00-0a-0b-01")) .withHandle (.of [] []) (.app 0) =
        .ok ⟨pp', .ok link⟩) ↔
      HasStash .withHandle (.of [] []) 7 ∧ ReadableParent (lit "00-0a-0b-01") :=
  mqotGetAfter_returns_iff
    (show State.derefGmo .withHandle (.app 0) =
      .ok { version := MQGMO_VERSION_4, msgHandle := 7 } from rfl)
    (show Returns (receivedProps _ _ _) (lit "00-0a-0b-01", []) from rfl) (by decide)

/-- Four pieces, the second of which is no number: the call is left by an exception, whether the
text comes with the handle or in the header of the message. -/
theorem mqotGetAfter_throws :
    mqotGetAfter (.delivering (lit "00-zz-00-01")) .withHandle (.of [] []) (.app 0) =
        .ok ⟨.app 0, .error .invalidArgument⟩ ∧
      mqotGetAfter (.refusing .sample) .plain
          (.of MQFMT_RF_HEADER_2
            (rfh2Message (lit "<usr><traceparent>00-zz-00-01</traceparent></usr>"))) (.app 0) =
        .ok ⟨.app 0, .error .invalidArgument⟩ ∧
      SpanContext.sample.isValid = true :=
  ⟨by rfl, by rfl, by decide⟩

end MqExits.Otel
