import MqExits.Otel.Traceparent

/-!
# Where the linked ids come from

`mqotGetAfter` decodes the two ids of a received `traceparent` into local buffers that nothing has
written before. `HexToBinary` writes one byte for each two characters of its piece, and the whole
buffer goes into the link: what a short piece leaves unwritten is what was on the stack
(`linksAlike_iff`).

## How it is said

That nothing unwritten is used is a statement about pairs of calls. `LinksAlike` compares two calls
in all that they do, with the same state, message and pointer, that differ in what the buffers held
before. What the buffers held is a field of the environment, which nothing but these two buffers is
made of.

A piece that is an odd number of characters long has one last byte of a single character, so
`WholeIds` asks for a character less than twice the size of the buffer. It asks this of a text of
four pieces only. Any other text has no parent, and the link, if there is one, is to ids that are
all zeros, whatever the buffers held.
-/

namespace MqExits.Otel

open CText Outcome

/-! ### What the decoder writes -/

/-- A readable piece determines the bytes that are written, and the rest of the buffer stays. -/
theorem exists_forall_returns_hexToBinary {hex : Bytes} {n : ℕ} (h : ReadsHex hex n) :
    ∃ bytes : Bytes, bytes.length = min n ((hex.length + 1) / 2) ∧
      ∀ buf : Field n, Returns (hexToBinary hex buf.val n)
        (bytes ++ buf.val.drop bytes.length) := by
  have hvalue : ∀ i, i < min n ((hex.length + 1) / 2) →
      ∃ v, Returns (stoi (substr hex (i * 2) 2)) v := fun i hi ↦
    (exists_returns_stoi (length_substr_le hex (i * 2) 2)).2 (h i (by omega) (by omega))
  choose! value hvalue using hvalue
  let bytes : Bytes := (List.range (min n ((hex.length + 1) / 2))).map (toUInt8 ∘ value)
  have hlen : bytes.length = min n ((hex.length + 1) / 2) := by simp [bytes]
  refine ⟨bytes, hlen, fun buf ↦ returns_hexToBinary buf hlen fun i b hb ↦ ?_⟩
  obtain ⟨hi, rfl⟩ := List.getElem?_eq_some_iff.1 hb
  exact ⟨value i, hvalue i (hlen ▸ hi), by simp [bytes]⟩

/-- What is written fills the buffer, whatever that held, exactly where there are characters enough
for all but half of the last byte. -/
theorem forall_append_drop_iff {n : ℕ} {bytes hex : Bytes}
    (hlen : bytes.length = min n ((hex.length + 1) / 2)) :
    (∀ buf buf' : Field n,
      bytes ++ buf.val.drop bytes.length = bytes ++ buf'.val.drop bytes.length) ↔
      2 * n ≤ hex.length + 1 := by
  simp only [List.append_cancel_left_eq]
  constructor
  · intro h
    have hrest := h ⟨List.replicate n 0, List.length_replicate⟩
      ⟨List.replicate n 1, List.length_replicate⟩
    rw [List.drop_replicate, List.drop_replicate] at hrest
    by_contra hlt
    obtain ⟨k, hk⟩ : ∃ k, n - bytes.length = k + 1 := ⟨n - bytes.length - 1, by omega⟩
    rw [hk, List.replicate_succ, List.replicate_succ] at hrest
    exact absurd (List.cons.inj hrest).1 (by decide)
  · intro h buf buf'
    rw [List.drop_of_length_le (by rw [buf.2]; omega),
      List.drop_of_length_le (by rw [buf'.2]; omega)]

/-! ### The parent -/

/-- The text splits into four pieces. -/
def FourPieces (traceparent elem₀ elem₁ elem₂ elem₃ : Bytes) : Prop :=
  split traceparent (lit "-") = some [elem₀, elem₁, elem₂, elem₃]

/-- Any other text has no parent. -/
theorem returns_parentContext_none {traceparent : Bytes}
    (h : ∀ elem₀ elem₁ elem₂ elem₃, ¬ FourPieces traceparent elem₀ elem₁ elem₂ elem₃) (env : Env) :
    Returns (parentContext env traceparent) none := by
  rw [parentContext]
  split_ifs
  · exact returns_pure.2 rfl
  · obtain ⟨elems, helems⟩ := Option.isSome_iff_exists.1
      (split_isSome traceparent (lit "-") (by decide))
    rw [helems]
    split
    · simp at *
    · rename_i heq
      exact absurd (helems.trans heq) (h _ _ _ _)
    · exact returns_pure.2 rfl

/-- The ids of four readable pieces: what they say, and what the buffers held behind that. -/
theorem returns_parentContext_some {traceparent elem₀ elem₁ elem₂ elem₃ : Bytes}
    (h : FourPieces traceparent elem₀ elem₁ elem₂ elem₃) (hread : ReadableParent traceparent) :
    ∃ traceId spanId : Bytes, traceId.length = min 16 ((elem₁.length + 1) / 2) ∧
      spanId.length = min 8 ((elem₂.length + 1) / 2) ∧
      ∀ env, Returns (parentContext env traceparent)
        (some (traceId ++ env.uninitTraceId.val.drop traceId.length,
          spanId ++ env.uninitSpanId.val.drop spanId.length, elem₃ == lit "01")) := by
  obtain ⟨hread₁, hread₂⟩ := hread _ _ _ _ h
  obtain ⟨traceId, htlen, htrace⟩ := exists_forall_returns_hexToBinary hread₁
  obtain ⟨spanId, hslen, hspan⟩ := exists_forall_returns_hexToBinary hread₂
  refine ⟨traceId, spanId, htlen, hslen, fun env ↦ ?_⟩
  have hne : traceparent ≠ [] := by
    rintro rfl
    rw [FourPieces, split_nil] at h
    cases h
  rw [parentContext, if_neg hne, show split traceparent (lit "-") = _ from h]
  simp only [returns_bind, returns_pure]
  exact ⟨_, htrace env.uninitTraceId, _, hspan env.uninitSpanId, rfl⟩

/-! ### The link -/

/-- The same world, with other contents of `traceIdBuf` and `spanIdBuf`. -/
def Env.withBuffers (env : Env) (traceIdBuf : Field 16) (spanIdBuf : Field 8) : Env :=
  { env with uninitTraceId := traceIdBuf, uninitSpanId := spanIdBuf }

@[simp] theorem Env.withBuffers_uninitTraceId (env : Env) (b : Field 16) (c : Field 8) :
    (env.withBuffers b c).uninitTraceId = b := rfl

@[simp] theorem Env.withBuffers_uninitSpanId (env : Env) (b : Field 16) (c : Field 8) :
    (env.withBuffers b c).uninitSpanId = c := rfl

/-- Whatever the buffers held, the call comes to the same: the same link, or none. -/
def LinksAlike (env : Env) (s : State) (call : GetCall) (ppGetMsgOpts : PMQGMO) : Prop :=
  ∀ traceIdBuf spanIdBuf traceIdBuf' spanIdBuf',
    mqotGetAfter (env.withBuffers traceIdBuf spanIdBuf) s call ppGetMsgOpts =
      mqotGetAfter (env.withBuffers traceIdBuf' spanIdBuf') s call ppGetMsgOpts

/-- Both ids are whole: of four pieces, the second and the third are long enough. -/
def WholeIds (traceparent : Bytes) : Prop :=
  ∀ elem₀ elem₁ elem₂ elem₃, FourPieces traceparent elem₀ elem₁ elem₂ elem₃ →
    2 * 16 ≤ elem₁.length + 1 ∧ 2 * 8 ≤ elem₂.length + 1

theorem FourPieces.wholeIds_iff {traceparent elem₀ elem₁ elem₂ elem₃ : Bytes}
    (h : FourPieces traceparent elem₀ elem₁ elem₂ elem₃) :
    WholeIds traceparent ↔ 2 * 16 ≤ elem₁.length + 1 ∧ 2 * 8 ≤ elem₂.length + 1 := by
  refine ⟨fun hwhole ↦ hwhole _ _ _ _ h, fun hlong e₀ e₁ e₂ e₃ h' ↦ ?_⟩
  have heq := Option.some.inj (h.symm.trans h')
  simp only [List.cons.injEq] at heq
  obtain ⟨-, rfl, rfl, -⟩ := heq
  exact hlong

/-- `mqotGetAfter` restores the pointer, and adds the link. -/
theorem mqotGetAfter_eq {env : Env} {s : State} {call : GetCall} {pp : PMQGMO} {gmo : MQGMO}
    {traceparent tracestate : Bytes} (hgmo : s.derefGmo pp = .ok gmo)
    (hprops : Returns (receivedProps env call gmo.msgHandle) (traceparent, tracestate)) :
    mqotGetAfter env s call pp = do
      let pp' ← restoredGmo s call gmo.msgHandle pp
      let outcome ← (linkContext env traceparent tracestate).run
      return ⟨pp', outcome⟩ := by
  unfold Returns at hprops
  simp only [mqotGetAfter, hgmo, hprops, bind, Except.bind]

/-- Within a valid span, what is linked is built of the parent. -/
theorem run_linkContext {env : Env} {traceparent : Bytes} (tracestate : Bytes)
    {parent : Option (Bytes × Bytes × Bool)} (hspan : env.currentSpan.isValid = true)
    (h : Returns (parentContext env traceparent) parent) :
    (linkContext env traceparent tracestate).run = .ok (.ok (newContext parent tracestate)) := by
  have hlink : Returns (linkContext env traceparent tracestate) (newContext parent tracestate) := by
    rw [linkContext, if_pos hspan]
    exact returns_bind.2 ⟨_, h, returns_pure.2 rfl⟩
  exact hlink

/-- Two links with ids are equal if the ids are. -/
theorem forall_newContext_eq_iff {traceId : Field 16 → Bytes} {spanId : Field 8 → Bytes}
    {sampled : Bool} {tracestate : Bytes} :
    (∀ b c b' c', newContext (some (traceId b, spanId c, sampled)) tracestate =
      newContext (some (traceId b', spanId c', sampled)) tracestate) ↔
      (∀ b b', traceId b = traceId b') ∧ ∀ c c', spanId c = spanId c' := by
  simp only [newContext, Option.some.injEq, Link.mk.injEq, and_true]
  constructor
  · intro h
    exact ⟨fun b b' ↦ (h b (.pad 8 0 []) b' (.pad 8 0 [])).1,
      fun c c' ↦ (h (.pad 16 0 []) c (.pad 16 0 []) c').2⟩
  · rintro ⟨htrace, hspan⟩ b c b' c'
    exact ⟨htrace b b', hspan c c'⟩

/-- The context does not depend on the buffers exactly where both ids are whole, or none is
linked. -/
theorem forall_linkContext_eq_iff {env : Env} {traceparent : Bytes} (tracestate : Bytes)
    (hread : ReadableParent traceparent) :
    (∀ b c b' c', (linkContext (env.withBuffers b c) traceparent tracestate).run =
      (linkContext (env.withBuffers b' c') traceparent tracestate).run) ↔
      (env.currentSpan.isValid = true → WholeIds traceparent) := by
  by_cases hspan : env.currentSpan.isValid = true
  · have hvalid : ∀ b c, (env.withBuffers b c).currentSpan.isValid = true := fun _ _ ↦ hspan
    simp only [hspan, forall_const]
    -- without four pieces nothing is decoded, and no buffer is read
    by_cases hpieces : ∃ elem₀ elem₁ elem₂ elem₃, FourPieces traceparent elem₀ elem₁ elem₂ elem₃
    · obtain ⟨elem₀, elem₁, elem₂, elem₃, h⟩ := hpieces
      obtain ⟨traceId, spanId, htlen, hslen, hparent⟩ := returns_parentContext_some h hread
      have hlink := fun b c ↦
        run_linkContext tracestate (hvalid b c) (hparent (env.withBuffers b c))
      simp only [hlink, Except.ok.injEq, Env.withBuffers_uninitTraceId,
        Env.withBuffers_uninitSpanId]
      rw [forall_newContext_eq_iff, forall_append_drop_iff htlen, forall_append_drop_iff hslen,
        h.wholeIds_iff]
    · have hlink := fun b c ↦ run_linkContext tracestate (hvalid b c)
        (returns_parentContext_none (fun _ _ _ _ h ↦ hpieces ⟨_, _, _, _, h⟩) _)
      simp only [hlink, true_iff, implies_true]
      exact fun _ _ _ _ h ↦ absurd ⟨_, _, _, _, h⟩ hpieces
  · have hlink : ∀ b c, (linkContext (env.withBuffers b c) traceparent tracestate).run =
        .ok (.ok none) := fun b c ↦ by
      rw [linkContext, if_neg (show ¬ (env.withBuffers b c).currentSpan.isValid = true from hspan)]
      rfl
    simp [hlink, hspan]

/-- The call comes to the same where the context does, or where it does not get that far. -/
theorem linksAlike_iff_linkContext {env : Env} {s : State} {call : GetCall} {pp : PMQGMO}
    {gmo : MQGMO} {traceparent tracestate : Bytes} (hgmo : s.derefGmo pp = .ok gmo)
    (hprops : Returns (receivedProps env call gmo.msgHandle) (traceparent, tracestate)) :
    LinksAlike env s call pp ↔ (HasStash s call gmo.msgHandle → ∀ b c b' c',
      (linkContext (env.withBuffers b c) traceparent tracestate).run =
        (linkContext (env.withBuffers b' c') traceparent tracestate).run) := by
  have hprops' : ∀ b c, Returns (receivedProps (env.withBuffers b c) call gmo.msgHandle)
      (traceparent, tracestate) := fun _ _ ↦ hprops
  rw [← (exists_restoredGmo_iff : (∃ pp', restoredGmo s call gmo.msgHandle pp = .ok pp') ↔ _)]
  simp only [LinksAlike, mqotGetAfter_eq hgmo (hprops' _ _)]
  rcases restoredGmo s call gmo.msgHandle pp with e | pp'
  · simp [bind, Except.bind]
  · have hcancel : ∀ x y : Except Fault (Except CppException (Option Link)),
        (x >>= fun outcome ↦ pure (GetAfterResult.mk pp' outcome)) =
          (y >>= fun outcome ↦ pure (GetAfterResult.mk pp' outcome)) ↔ x = y := by
      intro x y
      rcases x with e | x <;> rcases y with e' | y <;>
        simp [bind, Except.bind, pure, Except.pure]
    have hok : (∃ pp'', (Except.ok pp' : Except Fault PMQGMO) = .ok pp'') := ⟨pp', rfl⟩
    simp only [hok, forall_const, ← hcancel]
    rfl

/-- **When a link shows nothing of the buffers.** A received text on which no conversion fails
determines what is linked exactly if its ids are whole, or it does not come to a link. -/
theorem linksAlike_iff {env : Env} {s : State} {call : GetCall} {pp : PMQGMO} {gmo : MQGMO}
    {traceparent tracestate : Bytes} (hgmo : s.derefGmo pp = .ok gmo)
    (hprops : Returns (receivedProps env call gmo.msgHandle) (traceparent, tracestate))
    (hread : ReadableParent traceparent) :
    LinksAlike env s call pp ↔
      (HasStash s call gmo.msgHandle → env.currentSpan.isValid = true → WholeIds traceparent) := by
  rw [linksAlike_iff_linkContext hgmo hprops, forall_linkContext_eq_iff tracestate hread]

/-- Four pieces that are readable, with ids of one byte. -/
theorem readableParent_short : ReadableParent (lit "00-0a-0b-01") :=
  (exists_returns_parentContext (.refusing .sample) _).1 ⟨_, rfl⟩

theorem derefGmo_withHandle : State.derefGmo .withHandle (.app 0) =
    .ok { version := MQGMO_VERSION_4, msgHandle := 7 } := rfl

theorem receivedProps_short : Returns (receivedProps (.delivering (lit "00-0a-0b-01"))
    (.of [] []) 7) (lit "00-0a-0b-01", []) := rfl

theorem linksAlike_iff_short :
    LinksAlike (.delivering (lit "00-0a-0b-01")) .withHandle (.of [] []) (.app 0) ↔
      (HasStash .withHandle (.of [] []) 7 →
        (Env.delivering (lit "00-0a-0b-01")).currentSpan.isValid = true →
          WholeIds (lit "00-0a-0b-01")) :=
  linksAlike_iff derefGmo_withHandle receivedProps_short readableParent_short

/-- The rest of either id is what was on the stack. -/
theorem not_linksAlike_short :
    ReadableParent (lit "00-0a-0b-01") ∧
      ¬ LinksAlike (.delivering (lit "00-0a-0b-01")) .withHandle (.of [] []) (.app 0) := by
  refine ⟨readableParent_short, fun h ↦ ?_⟩
  have hstash : HasStash .withHandle (.of [] []) 7 := fun _ hcmp ↦ absurd hcmp (by decide)
  have hlink := (linksAlike_iff_linkContext derefGmo_withHandle receivedProps_short).1 h hstash
  have hwhole := (forall_linkContext_eq_iff _ readableParent_short).1 hlink (by decide)
  exact absurd (hwhole (lit "00") (lit "0a") (lit "0b") (lit "01") rfl) (by decide)

end MqExits.Otel
