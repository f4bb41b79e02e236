import Mathlib.Data.List.Forall2
import Mathlib.Data.List.Nodup
import MqExits.Text.QuotedScalar

/-!
# A list of entries in YAML

The part of YAML 1.2 in which logs are written: a block sequence of block mappings, each key
indented by two blanks and followed by a double-quoted scalar or a plain one. `Reader.step` reads it
one byte at a time, so a text is read in parts (`List.foldlM_append`); a value between quotes may go
on over further lines, which then must be indented more than the key.

`write` writes entries with what is between quotes **as it is**. What was meant reads back from what
was so written exactly when nothing was cut off and every text between quotes is plain and UTF-8
(`reads_write_iff`): a text that is not plain never reads back as itself, whatever comes after it.

## Where the difficulty is

That plain texts read back is a walk along the line (`foldlM_pairText`). The other direction has to
deal with texts that are not plain but are still read: a quote in a value can end it, and what is
behind the quote can be keys and entries in their own right. Two facts exclude that such a text
reads back as what was meant.

* A value that goes on beyond the quote that was to close it never ends well (`prefix_of_closed`):
  behind that quote `write` puts a line break and then a key, an entry or nothing (`Follows`), and a
  line of a value is indented more than a key. So what is read of the value is a part of what was
  written of it.
* What is read of a part is lighter than the part unless the part is plain (`plain_of_weight_le`).
  So it is what was meant only if all of it was read, and plain.

`CutTo` says what was written of what was meant: all of it, or a beginning of it, as where the
writer has a buffer. It is by the same measure that nothing can have been cut off.

The reader asks for UTF-8 before anything else, as YAML does. As the text around a value is ASCII,
that is a question about each value (`valid_write`).
-/

namespace Yaml

open CText

/-! ### Reading -/

/-- The value of a key. -/
inductive Scalar
  | quoted (value : Bytes)
  | plain (text : Bytes)
  deriving DecidableEq

/-- The keys and values of a mapping, in the order of the text. -/
abbrev Entry := List (Bytes × Scalar)

/-- Where a reader is. -/
inductive Place
  | lineStart
  | dash
  | indent
  | key (k : Bytes)
  | colon (k : Bytes)
  | value (k : Bytes)
  | quoted (k : Bytes) (q : Quoted)
  | plain (k t : Bytes)
  | closed (k v : Bytes)

/-- A reader, with the entries that are complete and the one it is in. -/
structure Reader where
  done : List Entry
  current : Option Entry
  place : Place

/-- The entries so far. -/
def Reader.doc (r : Reader) : List Entry :=
  r.done ++ r.current.toList

def Reader.start : Reader :=
  ⟨[], none, .lineStart⟩

/-- Go on to a place. -/
def Reader.go (r : Reader) (p : Place) : Option Reader :=
  some { r with place := p }

/-- A key and its value are complete. -/
def Reader.add (r : Reader) (k : Bytes) (v : Scalar) : Option Reader :=
  r.current.map fun e ↦ ⟨r.done, some (e ++ [(k, v)]), .lineStart⟩

/-- The bytes of keys and of plain values: letters, digits and the underscore. -/
def isWordByte (b : UInt8) : Bool :=
  (48 ≤ b.toNat ∧ b.toNat ≤ 57) ∨ (65 ≤ b.toNat ∧ b.toNat ≤ 90) ∨ b.toNat = 95 ∨
    (97 ≤ b.toNat ∧ b.toNat ≤ 122)

/-- The indentation of the lines of a value: one more than that of its key. -/
def valueIndent : ℕ := 3

/-- **One byte.** -/
def Reader.step (r : Reader) (b : UInt8) : Option Reader :=
  match r.place with
  | .lineStart =>
    if b = 45 then r.go .dash
    else if b = 32 ∧ r.current.isSome then r.go .indent
    else none
  | .dash => if b = 10 then some ⟨r.doc, some [], .lineStart⟩ else none
  | .indent => if b = 32 then r.go (.key []) else none
  | .key k =>
    if isWordByte b then r.go (.key (k ++ [b]))
    else if b = 58 ∧ k ≠ [] then r.go (.colon k)
    else none
  | .colon k => if b = 32 then r.go (.value k) else none
  | .value k =>
    if b = 34 then r.go (.quoted k .start)
    else if isWordByte b then r.go (.plain k [b])
    else none
  | .quoted k q =>
    match q.step valueIndent b with
    | none => none
    | some (.reading q') => r.go (.quoted k q')
    | some (.closed v) => r.go (.closed k v)
  | .plain k t =>
    if isWordByte b then r.go (.plain k (t ++ [b]))
    else if b = 10 then r.add k (.plain t)
    else none
  | .closed k v => if b = 10 then r.add k (.quoted v) else none

/-- The entries of a text. -/
def read (text : Bytes) : Option (List Entry) :=
  if Utf8.valid text then
    (text.foldlM Reader.step .start).bind fun r ↦
      match r.place with
      | .lineStart => some r.doc
      | _ => none
  else none

/-- The text reads back as these entries, where the order of the keys does not matter. -/
def Reads (text : Bytes) (doc : List Entry) : Prop :=
  ∃ doc', read text = some doc' ∧ List.Forall₂ List.Perm doc' doc

/-! ### Writing -/

/-- A line for a key, with a quoted value as it is. -/
def pairText (p : Bytes × Scalar) : Bytes :=
  match p.2 with
  | .quoted t => [32, 32] ++ p.1 ++ [58, 32, 34] ++ t ++ [34, 10]
  | .plain t => [32, 32] ++ p.1 ++ [58, 32] ++ t ++ [10]

/-- The lines of an entry. -/
def entryText (e : Entry) : Bytes :=
  [45, 10] ++ e.flatMap pairText

/-- The text of some entries. -/
def write (doc : List Entry) : Bytes :=
  doc.flatMap entryText

/-- A text of word bytes. -/
def Word (t : Bytes) : Prop :=
  t ≠ [] ∧ ∀ b ∈ t, isWordByte b = true

instance (t : Bytes) : Decidable (Word t) :=
  @instDecidableAnd _ _ _ (List.decidableBAll _ t)

/-- The value can be written without harm to the text around it. -/
def Scalar.Safe : Scalar → Prop
  | .quoted t => Plain t ∧ Utf8.valid t = true
  | .plain _ => True

/-- Keys and plain values are words, and no key is there twice. -/
structure WellFormed (e : Entry) : Prop where
  keys : ∀ p ∈ e, Word p.1
  plain : ∀ p ∈ e, ∀ t, p.2 = .plain t → Word t
  nodup : (e.map Prod.fst).Nodup

/-! ### Reading what is plain -/

/-- Reading a text in two parts. -/
theorem foldlM_append_eq_some {σ : Type} {step : σ → UInt8 → Option σ} {x y : Bytes} {s f : σ} :
    (x ++ y).foldlM step s = some f ↔
      ∃ m, x.foldlM step s = some m ∧ y.foldlM step m = some f := by
  rw [List.foldlM_append, Option.bind_eq_bind, Option.bind_eq_some_iff]

theorem foldlM_cons_eq_some {σ : Type} {step : σ → UInt8 → Option σ} {b : UInt8} {y : Bytes}
    {s f : σ} :
    (b :: y).foldlM step s = some f ↔ ∃ m, step s b = some m ∧ y.foldlM step m = some f := by
  rw [List.foldlM_cons, Option.bind_eq_bind, Option.bind_eq_some_iff]

theorem foldlM_key {done : List Entry} {current : Option Entry} {t k : Bytes}
    (ht : ∀ b ∈ t, isWordByte b = true) :
    t.foldlM Reader.step ⟨done, current, .key k⟩ = some ⟨done, current, .key (k ++ t)⟩ := by
  induction t generalizing k with
  | nil => rw [List.append_nil]; rfl
  | cons b t ih =>
    have hb := ht b List.mem_cons_self
    refine foldlM_cons_eq_some.2 ⟨⟨done, current, .key (k ++ [b])⟩, ?_, ?_⟩
    · simp only [Reader.step, hb, if_true, Reader.go]
    · rw [ih fun c hc ↦ ht c (List.mem_cons_of_mem _ hc), List.append_assoc, List.singleton_append]

theorem foldlM_plain {done : List Entry} {current : Option Entry} {k t t₀ : Bytes}
    (ht : ∀ b ∈ t, isWordByte b = true) :
    t.foldlM Reader.step ⟨done, current, .plain k t₀⟩ =
      some ⟨done, current, .plain k (t₀ ++ t)⟩ := by
  induction t generalizing t₀ with
  | nil => rw [List.append_nil]; rfl
  | cons b t ih =>
    have hb := ht b List.mem_cons_self
    refine foldlM_cons_eq_some.2 ⟨⟨done, current, .plain k (t₀ ++ [b])⟩, ?_, ?_⟩
    · simp only [Reader.step, hb, if_true, Reader.go]
    · rw [ih fun c hc ↦ ht c (List.mem_cons_of_mem _ hc), List.append_assoc, List.singleton_append]

/-- A line up to its value. -/
theorem foldlM_keyText {done : List Entry} {e : Entry} {k : Bytes} (hk : Word k) :
    ([32, 32] ++ k ++ [58, 32]).foldlM Reader.step ⟨done, some e, .lineStart⟩ =
      some ⟨done, some e, .value k⟩ := by
  have hcolon : isWordByte 58 = false := by decide
  refine foldlM_append_eq_some.2 ⟨⟨done, some e, .key k⟩,
    foldlM_append_eq_some.2 ⟨⟨done, some e, .key []⟩, rfl, foldlM_key hk.2⟩, ?_⟩
  refine foldlM_cons_eq_some.2 ⟨⟨done, some e, .colon k⟩, ?_, rfl⟩
  simp only [Reader.step, hcolon, Bool.false_eq_true, if_false, hk.1, ne_eq, not_false_eq_true,
    and_self, if_true, Reader.go]

/-- Reading on in a quoted value. -/
theorem foldlM_quoted {done : List Entry} {e : Entry} {k c : Bytes} {q q' : Quoted}
    (h : c.foldlM (Quoted.readOn valueIndent) q = some q') :
    c.foldlM Reader.step ⟨done, some e, .quoted k q⟩ = some ⟨done, some e, .quoted k q'⟩ := by
  induction c generalizing q with
  | nil =>
    obtain rfl := Option.some.inj h
    rfl
  | cons b c ih =>
    obtain ⟨q₁, hb, hrest⟩ := foldlM_cons_eq_some.1 h
    refine foldlM_cons_eq_some.2 ⟨⟨done, some e, .quoted k q₁⟩, ?_, ih hrest⟩
    rw [Quoted.readOn] at hb
    split at hb
    · next hstep =>
      obtain rfl := Option.some.inj hb
      simp only [Reader.step, hstep, Reader.go]
    · cases hb

/-- **A line with a safe value is read as it was written.** -/
theorem foldlM_pairText {done : List Entry} {e : Entry} {p : Bytes × Scalar} (hk : Word p.1)
    (hplain : ∀ t, p.2 = .plain t → Word t) (hquoted : ∀ t, p.2 = .quoted t → Plain t) :
    (pairText p).foldlM Reader.step ⟨done, some e, .lineStart⟩ =
      some ⟨done, some (e ++ [p]), .lineStart⟩ := by
  obtain ⟨k, v⟩ := p
  cases v with
  | quoted t =>
    obtain ⟨out, blanks, hread, heq⟩ := readOn_foldlM_plain valueIndent (hquoted t rfl) [] []
    -- Nothing was folded, so the quote closes the value as it stands in the line.
    have hclose : (⟨out, .text (.white blanks)⟩ : Quoted).step valueIndent 34 =
        some (.closed t) := by
      simp only [Quoted.step, if_true, Gap.text, Option.map_some, heq, List.nil_append]
    have htext : pairText (k, .quoted t) =
        ([32, 32] ++ k ++ [58, 32]) ++ ([34] ++ (t ++ [34, 10])) := by simp [pairText]
    rw [htext]
    refine foldlM_append_eq_some.2 ⟨_, foldlM_keyText hk, foldlM_append_eq_some.2
      ⟨⟨done, some e, .quoted k .start⟩, rfl, foldlM_append_eq_some.2
      ⟨_, foldlM_quoted hread, foldlM_cons_eq_some.2 ⟨⟨done, some e, .closed k t⟩, ?_, rfl⟩⟩⟩⟩
    simp only [Reader.step, hclose, Reader.go]
  | plain t =>
    obtain ⟨hne, hword⟩ := hplain t rfl
    obtain ⟨b, t, rfl⟩ := List.exists_cons_of_ne_nil hne
    have hb : isWordByte b = true := hword b List.mem_cons_self
    have hquote : b ≠ 34 := by
      rintro rfl
      exact absurd hb (by decide)
    -- The newline is no byte of a word, and so it ends the value.
    have hend : isWordByte 10 = false := by decide
    have htext : pairText (k, .plain (b :: t)) =
        ([32, 32] ++ k ++ [58, 32]) ++ ([b] ++ (t ++ [10])) := by simp [pairText]
    rw [htext]
    refine foldlM_append_eq_some.2 ⟨_, foldlM_keyText hk, foldlM_append_eq_some.2
      ⟨⟨done, some e, .plain k [b]⟩, ?_, foldlM_append_eq_some.2
      ⟨_, foldlM_plain fun c hc ↦ hword c (List.mem_cons_of_mem _ hc),
        foldlM_cons_eq_some.2 ⟨_, ?_, rfl⟩⟩⟩⟩
    · refine foldlM_cons_eq_some.2 ⟨_, ?_, rfl⟩
      simp only [Reader.step, if_neg hquote, hb, if_true, Reader.go]
    · simp only [Reader.step, hend, Bool.false_eq_true, if_false, if_true, Reader.add,
        Option.map_some, List.singleton_append]

/-! ### What every reader keeps -/

/-- One byte adds to the entry that a reader is in, or begins a new one. -/
theorem step_cases {r r' : Reader} {b : UInt8} {e : Entry} (h : r.step b = some r')
    (he : r.current = some e) :
    (r'.done = r.done ∧ ∃ e', r'.current = some e' ∧ ∃ x, e' = e ++ x) ∨
      (r'.done = r.done ++ [e] ∧ r'.current = some []) := by
  -- Most bytes move the reader within its entry.
  have hgo : ∀ {p : Place}, r.go p = some r' →
      r'.done = r.done ∧ ∃ e', r'.current = some e' ∧ ∃ x, e' = e ++ x := by
    intro p hp
    -- Only the line break after a dash begins an entry.
    obtain rfl := Option.some.inj hp
    exact ⟨rfl, e, he, [], (List.append_nil e).symm⟩
  -- A value that ends is added to the entry.
  have hadd : ∀ {k : Bytes} {v : Scalar}, r.add k v = some r' →
      r'.done = r.done ∧ ∃ e', r'.current = some e' ∧ ∃ x, e' = e ++ x := by
    intro k v hp
    rw [Reader.add, he] at hp
    obtain rfl := Option.some.inj hp
    exact ⟨rfl, _, rfl, _, rfl⟩
  rw [Reader.step] at h
  split at h
  · split_ifs at h
    · exact .inl (hgo h)
    · exact .inl (hgo h)
  · split_ifs at h
    obtain rfl := Option.some.inj h
    exact .inr ⟨by rw [Reader.doc, he, Option.toList_some], rfl⟩
  · split_ifs at h
    exact .inl (hgo h)
  · split_ifs at h
    · exact .inl (hgo h)
    · exact .inl (hgo h)
  · split_ifs at h
    exact .inl (hgo h)
  · split_ifs at h
    · exact .inl (hgo h)
    · exact .inl (hgo h)
  · split at h
    · cases h
    · exact .inl (hgo h)
    · exact .inl (hgo h)
  · split_ifs at h
    · exact .inl (hgo h)
    · exact .inl (hadd h)
  · split_ifs at h
    exact .inl (hadd h)

/-- The entry a reader is in stays where it is, and only grows. -/
theorem exists_doc_of_foldlM {text : Bytes} {r f : Reader} {e : Entry}
    (h : text.foldlM Reader.step r = some f) (he : r.current = some e) :
    ∃ x more, f.doc = r.done ++ (e ++ x) :: more := by
  induction text generalizing r e with
  | nil =>
    obtain rfl := Option.some.inj h
    exact ⟨[], [], by rw [Reader.doc, he, List.append_nil, Option.toList_some]⟩
  | cons b text ih =>
    obtain ⟨r₁, hb, hrest⟩ := foldlM_cons_eq_some.1 h
    obtain ⟨hdone, e₁, he₁, x₁, hx₁⟩ | ⟨hdone, hnew⟩ := step_cases hb he
    · obtain ⟨x, more, hdoc⟩ := ih hrest he₁
      exact ⟨x₁ ++ x, more, by rw [hdoc, hdone, hx₁, List.append_assoc]⟩
    · obtain ⟨x, more, hdoc⟩ := ih hrest hnew
      refine ⟨[], x :: more, ?_⟩
      rw [hdoc, hdone, List.append_nil, List.append_assoc, List.nil_append, List.singleton_append]

/-- **A quoted value ends at a quote**, before a line break. -/
theorem exists_closed_of_foldlM {text : Bytes} {done : List Entry} {e : Entry} {k : Bytes}
    {q : Quoted} {f : Reader}
    (h : text.foldlM Reader.step ⟨done, some e, .quoted k q⟩ = some f)
    (hf : f.place = .lineStart) :
    ∃ c rest v q', text = c ++ 34 :: 10 :: rest ∧
      c.foldlM (Quoted.readOn valueIndent) q = some q' ∧
      q'.step valueIndent 34 = some (.closed v) ∧
      rest.foldlM Reader.step ⟨done, some (e ++ [(k, .quoted v)]), .lineStart⟩ = some f := by
  induction text generalizing q with
  | nil =>
    obtain rfl := Option.some.inj h
    cases hf
  | cons b text ih =>
    obtain ⟨r₁, hb, hrest⟩ := foldlM_cons_eq_some.1 h
    rcases hstep : q.step valueIndent b with - | (q₁ | v)
    · simp [Reader.step, hstep] at hb
    · -- the value goes on
      simp only [Reader.step, hstep, Reader.go, Option.some.injEq] at hb
      obtain rfl := hb
      obtain ⟨c, rest, v, q', rfl, hc, hclose, hrun⟩ := ih hrest
      refine ⟨b :: c, rest, v, q', rfl, foldlM_cons_eq_some.2 ⟨q₁, ?_, hc⟩, hclose, hrun⟩
      simp only [Quoted.readOn, hstep]
    · -- the value ends here
      simp only [Reader.step, hstep, Reader.go, Option.some.injEq] at hb
      obtain rfl := hb
      obtain rfl : b = 34 := (Quoted.noHeavier_step hstep).1
      cases text with
      | nil =>
        obtain rfl := Option.some.inj hrest
        cases hf
      | cons b text =>
        obtain ⟨r₂, hb₂, hrest₂⟩ := foldlM_cons_eq_some.1 hrest
        simp only [Reader.step] at hb₂
        split_ifs at hb₂ with hb
        obtain rfl := Option.some.inj hb₂
        rw [hb]
        exact ⟨[], text, v, q, rfl, rfl, hstep, hrest₂⟩

/-! ### What is not plain -/

/-- The text after a quoted value goes on as `write` writes it: with the next key, with the next
entry, or not at all. -/
inductive Follows : Bytes → Prop
  | nil : Follows []
  | dash (text : Bytes) : Follows (45 :: text)
  | key (b : UInt8) (text : Bytes) (hb : isWordByte b = true) : Follows (32 :: 32 :: b :: text)

/-- A key cannot stand in a value that goes on, where blanks are missing before it. -/
theorem readOn_of_missing {b : UInt8} (hb : isWordByte b = true) (out folded : Bytes)
    (empties missing : ℕ) (cr : Bool) :
    Quoted.readOn valueIndent ⟨out, .text (.lines folded empties (missing + 1) cr)⟩ b = none := by
  have hne : ∀ c, isWordByte c = false → b ≠ c := by
    rintro c hc rfl
    rw [hb] at hc
    cases hc
  have hbreak : ¬ (b = 10 ∨ b = 13) := not_or.2 ⟨hne 10 (by decide), hne 13 (by decide)⟩
  have hblank : ¬ (b = 32 ∨ b = 9) := not_or.2 ⟨hne 32 (by decide), hne 9 (by decide)⟩
  have hlow : ¬ b.toNat < 32 := by
    simp only [isWordByte, decide_eq_true_eq] at hb
    omega
  simp only [Quoted.readOn, Quoted.step, if_neg (hne 34 (by decide)), if_neg (hne 92 (by decide)),
    if_neg hbreak, if_neg hblank, if_neg hlow, Gap.text, Nat.succ_ne_zero, if_false,
    Option.map_none]

/-- No value goes on over such a text: its lines are indented too little. -/
theorem Follows.not_closed {tail c rest : Bytes} (h : Follows tail) {out : Bytes} {q : Quoted}
    (htail : tail = c ++ 34 :: rest) :
    c.foldlM (Quoted.readOn valueIndent) ⟨out, .text (.lines [32] 0 3 false)⟩ ≠ some q := by
  intro hc
  cases h with
  | nil => simp at htail
  | dash text =>
    cases c with
    | nil => simp at htail
    | cons b c =>
      obtain ⟨rfl, -⟩ := List.cons.inj htail
      obtain ⟨q₁, hb, -⟩ := foldlM_cons_eq_some.1 hc
      -- A dash at the start of a line has no indentation at all.
      cases hb
  | key b text hb =>
    match c, htail, hc with
    | [], htail, _ => simp at htail
    | [_], htail, _ => simp at htail
    | [_, _], htail, _ =>
      have h34 : b = 34 := by
        simpa using (List.cons.inj (List.cons.inj (List.cons.inj htail).2).2).1
      rw [h34] at hb
      cases hb
    | b₁ :: b₂ :: b₃ :: c, htail, hc =>
      -- Two blanks are one too few for the value, and the byte of the key is no blank.
      simp only [List.cons_append, List.cons.injEq] at htail
      obtain ⟨rfl, rfl, rfl, -⟩ := htail
      obtain ⟨q₁, hq₁, hc⟩ := foldlM_cons_eq_some.1 hc
      obtain ⟨q₂, hq₂, hc⟩ := foldlM_cons_eq_some.1 hc
      obtain ⟨q₃, hq₃, -⟩ := foldlM_cons_eq_some.1 hc
      obtain rfl := Option.some.inj hq₁
      obtain rfl := Option.some.inj hq₂
      have hq₃' := readOn_of_missing hb out [32] 0 0 false
      exact Option.some_ne_none q₃ (hq₃.symm.trans hq₃')

/-- A quote that does not close was escaped. -/
theorem readOn_quote {q q' : Quoted} (h : q.readOn valueIndent 34 = some q') :
    ∃ out, q' = ⟨out, .text (.white [])⟩ := by
  obtain ⟨out, mode⟩ := q
  cases mode with
  | text gap =>
    simp only [Quoted.readOn, Quoted.step, if_true] at h
    cases ht : gap.text <;> simp [ht] at h
  | escape =>
    obtain rfl := Option.some.inj h
    exact ⟨_, rfl⟩
  | hex digits value => cases h

/-- **A value never goes on beyond its closing quote**: either it ends within what was written, or
it is an error. -/
theorem prefix_of_closed {p tail c rest : Bytes} (hfollows : Follows tail) {q : Quoted}
    (htext : p ++ 34 :: 10 :: tail = c ++ 34 :: 10 :: rest)
    (hc : c.foldlM (Quoted.readOn valueIndent) .start = some q) : c <+: p := by
  rcases List.append_eq_append_iff.1 htext with ⟨z, rfl, hz⟩ | ⟨z, rfl, hz⟩
  · -- the closing quote would be read on over
    cases z with
    | nil => exact ⟨[], by rw [List.append_nil, List.append_nil]⟩
    | cons b z =>
      rw [List.cons_append, List.cons.injEq] at hz
      obtain ⟨rfl, hz⟩ := hz
      obtain ⟨q₁, -, hc₁⟩ := foldlM_append_eq_some.1 hc
      obtain ⟨q₂, hquote, hc₂⟩ := foldlM_cons_eq_some.1 hc₁
      obtain ⟨out, rfl⟩ := readOn_quote hquote
      cases z with
      | nil => simp at hz
      | cons b z =>
        rw [List.cons_append, List.cons.injEq] at hz
        obtain ⟨rfl, hz⟩ := hz
        obtain ⟨q₃, hbreak, hc₃⟩ := foldlM_cons_eq_some.1 hc₂
        obtain rfl := Option.some.inj hbreak
        exact absurd hc₃ (hfollows.not_closed hz)
  · exact List.prefix_append c z

/-! ### What was written and what was meant -/

theorem forall₂_append_cons {α : Type} {R : α → α → Prop} {a b c d : List α} {x y : α}
    (h : List.Forall₂ R (a ++ x :: b) (c ++ y :: d)) (hlen : a.length = c.length) :
    R x y ∧ List.Forall₂ R b d := by
  have hdrop := List.forall₂_drop a.length h
  rw [List.drop_left, hlen, List.drop_left] at hdrop
  exact List.forall₂_cons.1 hdrop

/-- What was written of a value is what was meant, or less of it. -/
def Scalar.CutTo : Scalar → Scalar → Prop
  | .quoted p, .quoted r => p <+: r
  | .plain t, .plain t' => t = t'
  | _, _ => False

/-- The same, for a key and its value. -/
def CutTo (p r : Bytes × Scalar) : Prop :=
  p.1 = r.1 ∧ p.2.CutTo r.2

theorem CutTo.refl (p : Bytes × Scalar) : CutTo p p := by
  obtain ⟨k, v⟩ := p
  cases v with
  | quoted t => exact ⟨rfl, List.prefix_refl t⟩
  | plain t => exact ⟨rfl, rfl⟩

/-- **A line that reads back** as what was meant was written with all of it, and is plain. -/
theorem eq_of_foldlM_pairText {done : List Entry} {e : Entry} {p m : Bytes × Scalar}
    {tail : Bytes} {f : Reader} (hcut : CutTo p m) (hk : Word m.1)
    (hplain : ∀ t, m.2 = .plain t → Word t) (hfollows : Follows tail)
    (h : (pairText p ++ tail).foldlM Reader.step ⟨done, some e, .lineStart⟩ = some f)
    (hf : f.place = .lineStart)
    (hmeant : ∀ v x more, f.doc = done ++ (e ++ (m.1, v) :: x) :: more → v = m.2) :
    p = m ∧ (∀ t, m.2 = .quoted t → Plain t) ∧
      tail.foldlM Reader.step ⟨done, some (e ++ [m]), .lineStart⟩ = some f := by
  obtain ⟨k, v⟩ := p
  obtain ⟨k', r⟩ := m
  obtain ⟨rfl, hv⟩ : k = k' ∧ v.CutTo r := hcut
  match v, r, hv with
  | .plain t, .plain _, rfl =>
    obtain ⟨r₁, hline, hrest⟩ := foldlM_append_eq_some.1 h
    have hread : (pairText (k, .plain t)).foldlM Reader.step ⟨done, some e, .lineStart⟩ =
        some ⟨done, some (e ++ [(k, .plain t)]), .lineStart⟩ :=
      foldlM_pairText hk hplain fun t ht ↦ Scalar.noConfusion ht
    obtain rfl := Option.some.inj (hline.symm.trans hread)
    exact ⟨rfl, fun t ht ↦ (Scalar.noConfusion ht), hrest⟩
  | .quoted p, .quoted r, hpre =>
    have htext : pairText (k, .quoted p) ++ tail =
        ([32, 32] ++ k ++ [58, 32]) ++ ([34] ++ (p ++ 34 :: 10 :: tail)) := by simp [pairText]
    rw [htext] at h
    obtain ⟨r₁, hkey, h⟩ := foldlM_append_eq_some.1 h
    obtain rfl := Option.some.inj (hkey.symm.trans (foldlM_keyText hk))
    obtain ⟨r₂, hopen, h⟩ := foldlM_append_eq_some.1 h
    obtain rfl := Option.some.inj hopen
    obtain ⟨c, rest, v, q, hsplit, hc, hclose, hrun⟩ := exists_closed_of_foldlM h hf
    have hcp := prefix_of_closed hfollows hsplit hc
    -- the value read is the one meant, so no part of the text was lost
    obtain ⟨x, more, hdoc⟩ := exists_doc_of_foldlM hrun rfl
    have hvr : Scalar.quoted v = .quoted r := hmeant (.quoted v) x more (by simpa using hdoc)
    obtain rfl := Scalar.quoted.inj hvr
    have hweight : weight c ≤ weight v := weight_mono_of_prefixOf (hcp.trans hpre)
    have hself : Plain c ∧ v = [] ++ [] ++ c :=
      plain_of_weight_le hc hclose (by simpa using hweight)
    obtain ⟨hplainc, rfl⟩ := hself
    obtain rfl : p = v := hpre.eq_of_length_le hcp.length_le
    refine ⟨rfl, fun t ht ↦ Scalar.quoted.inj ht ▸ hplainc, ?_⟩
    obtain rfl : rest = tail := by simpa using hsplit.symm
    exact hrun

theorem keys_eq_of_cutTo {ws ms : Entry} (h : List.Forall₂ CutTo ws ms) :
    ws.map Prod.fst = ms.map Prod.fst := by
  induction h with
  | nil => rfl
  | cons hwm _ ih => rw [List.map_cons, List.map_cons, hwm.1, ih]

theorem follows_flatMap {e : Entry} (hk : ∀ k ∈ e.map Prod.fst, Word k) {tail : Bytes}
    (h : Follows tail) : Follows (e.flatMap pairText ++ tail) := by
  cases e with
  | nil => exact h
  | cons p e =>
    obtain ⟨k, v⟩ := p
    obtain ⟨hne, hword⟩ := hk k List.mem_cons_self
    obtain ⟨b, k, rfl⟩ := List.exists_cons_of_ne_nil hne
    cases v <;> exact .key b _ (hword b List.mem_cons_self)

theorem follows_write (doc : List Entry) : Follows (write doc) := by
  cases doc with
  | nil => exact .nil
  | cons e doc => exact .dash _

/-- So are all lines of an entry that reads back. -/
theorem eq_of_foldlM_entry {done : List Entry} {m : Entry} (hwf : WellFormed m) {ws ms : Entry}
    (hcut : List.Forall₂ CutTo ws ms) (hsub : ∀ p ∈ ms, p ∈ m) {e : Entry} {tail : Bytes}
    {f : Reader} (hfollows : Follows tail)
    (h : (ws.flatMap pairText ++ tail).foldlM Reader.step ⟨done, some e, .lineStart⟩ = some f)
    (hf : f.place = .lineStart) (hmeant : ∀ x more, f.doc = done ++ x :: more → x.Perm m) :
    ws = ms ∧ (∀ p ∈ ms, ∀ t, p.2 = .quoted t → Plain t) ∧
      tail.foldlM Reader.step ⟨done, some (e ++ ms), .lineStart⟩ = some f := by
  induction hcut generalizing e with
  | nil => exact ⟨rfl, fun p hp ↦ absurd hp List.not_mem_nil, by rw [List.append_nil]; exact h⟩
  | @cons w p ws ms hwp hrest ih =>
    have hp : p ∈ m := hsub p List.mem_cons_self
    have hws : ∀ k ∈ ws.map Prod.fst, Word k := by
      rw [keys_eq_of_cutTo hrest]
      intro k hk
      obtain ⟨p', hp', rfl⟩ := List.mem_map.1 hk
      exact hwf.keys p' (hsub p' (List.mem_cons_of_mem _ hp'))
    rw [List.flatMap_cons, List.append_assoc] at h
    -- The first line is whole, as the entry has one value under its key.
    obtain ⟨rfl, hplain, hrun⟩ := eq_of_foldlM_pairText hwp (hwf.keys p hp) (hwf.plain p hp)
      (follows_flatMap hws hfollows) h hf fun v x more hdoc ↦ by
        have hmem : (p.1, v) ∈ m := (hmeant _ _ hdoc).subset (by simp)
        exact congrArg Prod.snd (List.inj_on_of_nodup_map hwf.nodup hmem hp rfl)
    obtain ⟨rfl, hplains, hrun⟩ := ih (fun p hp ↦ hsub p (List.mem_cons_of_mem _ hp)) hrun
    refine ⟨rfl, fun p' hp' ↦ ?_, by rwa [List.append_assoc] at hrun⟩
    rcases List.mem_cons.1 hp' with rfl | hp'
    · exact hplain
    · exact hplains p' hp'

/-- So are all entries of a text that reads back. -/
theorem eq_of_foldlM_write {ws ms : List Entry} (hcut : List.Forall₂ (List.Forall₂ CutTo) ws ms)
    (hwf : ∀ m ∈ ms, WellFormed m) {done : List Entry} {current : Option Entry} {f : Reader}
    (h : (write ws).foldlM Reader.step ⟨done, current, .lineStart⟩ = some f)
    (hf : f.place = .lineStart) {before : List Entry}
    (hlen : before.length = (done ++ current.toList).length)
    (hmeant : List.Forall₂ List.Perm f.doc (before ++ ms)) :
    ws = ms ∧ ∀ m ∈ ms, ∀ p ∈ m, ∀ t, p.2 = .quoted t → Plain t := by
  induction hcut generalizing done current before with
  | nil => exact ⟨rfl, fun m hm ↦ absurd hm List.not_mem_nil⟩
  | @cons w m ws ms hwm hrest ih =>
    have htext : write (w :: ws) = [45, 10] ++ (w.flatMap pairText ++ write ws) := by
      simp [write, entryText]
    rw [htext] at h
    obtain ⟨r₁, hdash, h⟩ := foldlM_append_eq_some.1 h
    obtain rfl := Option.some.inj hdash
    -- The entry that is read here is the one at the same place in the document.
    obtain ⟨rfl, hplain, hrun⟩ := eq_of_foldlM_entry (hwf m List.mem_cons_self) hwm (fun p hp ↦ hp)
      (follows_write ws) h hf fun x more hdoc ↦ by
        rw [hdoc] at hmeant
        exact (forall₂_append_cons hmeant hlen.symm).1
    obtain ⟨rfl, hplains⟩ := ih (fun m hm ↦ hwf m (List.mem_cons_of_mem _ hm)) hrun
      (show (before ++ [w]).length = _ by simp [hlen, Reader.doc, Nat.add_assoc])
      (by simpa using hmeant)
    refine ⟨rfl, fun m' hm' ↦ ?_⟩
    rcases List.mem_cons.1 hm' with rfl | hm'
    · exact hplain
    · exact hplains m' hm'

/-- Reading what was written with plain values. -/
theorem foldlM_write {doc : List Entry} (hwf : ∀ e ∈ doc, WellFormed e)
    (hplain : ∀ e ∈ doc, ∀ p ∈ e, ∀ t, p.2 = .quoted t → Plain t) (done : List Entry)
    (current : Option Entry) :
    ∃ f, (write doc).foldlM Reader.step ⟨done, current, .lineStart⟩ = some f ∧
      f.place = .lineStart ∧ f.doc = done ++ current.toList ++ doc := by
  induction doc generalizing done current with
  | nil => exact ⟨_, rfl, rfl, by simp [Reader.doc]⟩
  | cons e doc ih =>
    -- The lines of the entry, by induction on those that are left.
    have hlines : ∀ ps : Entry, (∀ p ∈ ps, p ∈ e) → ∀ e₀ : Entry,
        (ps.flatMap pairText).foldlM Reader.step
          ⟨done ++ current.toList, some e₀, .lineStart⟩ =
        some ⟨done ++ current.toList, some (e₀ ++ ps), .lineStart⟩ := by
      intro ps hps
      induction ps with
      | nil =>
        intro e₀
        rw [List.append_nil]
        rfl
      | cons p ps ihp =>
        intro e₀
        have hp : p ∈ e := hps p List.mem_cons_self
        rw [List.flatMap_cons]
        refine foldlM_append_eq_some.2 ⟨_, foldlM_pairText
          ((hwf e List.mem_cons_self).keys p hp) ((hwf e List.mem_cons_self).plain p hp)
          (hplain e List.mem_cons_self p hp), ?_⟩
        rw [ihp (fun p hp ↦ hps p (List.mem_cons_of_mem _ hp)), List.append_assoc,
          List.singleton_append]
    obtain ⟨f, hrun, hf, hdoc⟩ := ih (fun e he ↦ hwf e (List.mem_cons_of_mem _ he))
      (fun e he ↦ hplain e (List.mem_cons_of_mem _ he)) (done ++ current.toList) (some e)
    have htext : write (e :: doc) = [45, 10] ++ (e.flatMap pairText ++ write doc) := by
      simp [write, entryText]
    refine ⟨f, ?_, hf, by rw [hdoc]; simp⟩
    rw [htext]
    exact foldlM_append_eq_some.2 ⟨⟨done ++ current.toList, some [], .lineStart⟩, rfl,
      foldlM_append_eq_some.2 ⟨_, hlines e (fun p hp ↦ hp) [], hrun⟩⟩

/-! ### UTF-8 -/

/-- The text between quotes is UTF-8. -/
def Scalar.Utf8 : Scalar → Prop
  | .quoted t => Utf8.valid t = true
  | .plain _ => True

theorem toNat_lt_of_isWordByte {b : UInt8} (h : isWordByte b = true) : b.toNat < 0x80 := by
  simp only [isWordByte, decide_eq_true_eq] at h
  omega

/-- A line cuts a text where only its value matters. -/
theorem valid_pairText {p : Bytes × Scalar} (hk : Word p.1) (hplain : ∀ t, p.2 = .plain t → Word t)
    (rest : Bytes) :
    Utf8.valid (pairText p ++ rest) = true ↔ p.2.Utf8 ∧ Utf8.valid rest = true := by
  obtain ⟨k, v⟩ := p
  -- Keys, plain values and all that stands between them are ASCII.
  have hkey : ∀ b ∈ k, b.toNat < 0x80 := fun b hb ↦ toNat_lt_of_isWordByte (hk.2 b hb)
  have hline : ∀ b ∈ [32, 32] ++ k ++ [58, 32], b.toNat < 0x80 := by
    intro b hb
    simp only [List.mem_append, List.mem_cons, List.not_mem_nil, or_false] at hb
    obtain ((rfl | rfl) | hb) | (rfl | rfl) := hb
    · decide
    · decide
    · exact hkey b hb
    · decide
    · decide
  have hend : ∀ rest, Utf8.valid (10 :: rest) = true ↔ Utf8.valid rest = true := fun rest ↦
    (Utf8.valid_append_ascii (v := []) (by decide)).trans (and_iff_right rfl)
  cases v with
  | quoted t =>
    have htext : pairText (k, .quoted t) ++ rest =
        ([32, 32] ++ k ++ [58, 32]) ++ 34 :: (t ++ 34 :: 10 :: rest) := by simp [pairText]
    rw [htext, Utf8.valid_append_ascii (by decide), and_iff_right (Utf8.valid_of_ascii hline),
      Utf8.valid_append_ascii (by decide), hend, Scalar.Utf8]
  | plain t =>
    have htext : pairText (k, .plain t) ++ rest =
        (([32, 32] ++ k ++ [58, 32]) ++ t) ++ 10 :: rest := by simp [pairText]
    have hascii : ∀ b ∈ ([32, 32] ++ k ++ [58, 32]) ++ t, b.toNat < 0x80 := by
      intro b hb
      rcases List.mem_append.1 hb with hb | hb
      · exact hline b hb
      · exact toNat_lt_of_isWordByte ((hplain t rfl).2 b hb)
    rw [htext, Utf8.valid_append_ascii (by decide), and_iff_right (Utf8.valid_of_ascii hascii),
      Scalar.Utf8, true_and]

theorem valid_flatMap {e : Entry} (hwf : ∀ p ∈ e, Word p.1 ∧ ∀ t, p.2 = .plain t → Word t)
    (rest : Bytes) :
    Utf8.valid (e.flatMap pairText ++ rest) = true ↔
      (∀ p ∈ e, p.2.Utf8) ∧ Utf8.valid rest = true := by
  induction e with
  | nil => simp
  | cons p e ih =>
    obtain ⟨hk, hplain⟩ := hwf p List.mem_cons_self
    rw [List.flatMap_cons, List.append_assoc, valid_pairText hk hplain,
      ih fun p hp ↦ hwf p (List.mem_cons_of_mem _ hp), List.forall_mem_cons, and_assoc]

/-- The text is UTF-8 when every value in it is. -/
theorem valid_write {doc : List Entry} (hwf : ∀ e ∈ doc, WellFormed e) :
    Utf8.valid (write doc) = true ↔ ∀ e ∈ doc, ∀ p ∈ e, p.2.Utf8 := by
  induction doc with
  | nil => exact iff_of_true rfl fun e he ↦ absurd he List.not_mem_nil
  | cons e doc ih =>
    have hdash : ∀ rest, Utf8.valid (45 :: 10 :: rest) = true ↔ Utf8.valid rest = true :=
      fun rest ↦ (Utf8.valid_append_ascii (v := [45]) (by decide)).trans (and_iff_right rfl)
    have htext : write (e :: doc) = 45 :: 10 :: (e.flatMap pairText ++ write doc) := by
      simp [write, entryText]
    have he := hwf e List.mem_cons_self
    rw [htext, hdash, valid_flatMap fun p hp ↦ ⟨he.keys p hp, he.plain p hp⟩,
      ih fun e he ↦ hwf e (List.mem_cons_of_mem _ he), List.forall_mem_cons]

/-! ### Reading back -/

theorem Scalar.safe_iff {v : Scalar} :
    v.Safe ↔ (∀ t, v = .quoted t → Plain t) ∧ v.Utf8 := by
  cases v with
  | quoted t => simp [Scalar.Safe, Scalar.Utf8]
  | plain t => simp [Scalar.Safe, Scalar.Utf8]

theorem read_eq_some_iff {text : Bytes} {doc : List Entry} :
    read text = some doc ↔ Utf8.valid text = true ∧
      ∃ f, text.foldlM Reader.step .start = some f ∧ f.place = .lineStart ∧ f.doc = doc := by
  rw [read]
  split_ifs with hvalid
  · rw [Option.bind_eq_some_iff, and_iff_right hvalid]
    refine exists_congr fun f ↦ and_congr_right fun _ ↦ ?_
    cases f.place <;> simp
  · simp [hvalid]

/-- **What reads back as it was meant**: entries of which nothing was cut off and in which every
text between quotes is plain and UTF-8. -/
theorem reads_write_iff {ws ms : List Entry} (hcut : List.Forall₂ (List.Forall₂ CutTo) ws ms)
    (hwf : ∀ m ∈ ms, WellFormed m) :
    Reads (write ws) ms ↔ ws = ms ∧ ∀ m ∈ ms, ∀ p ∈ m, p.2.Safe := by
  constructor
  · rintro ⟨doc, hread, hperm⟩
    obtain ⟨hvalid, f, hrun, hf, rfl⟩ := read_eq_some_iff.1 hread
    obtain ⟨rfl, hplain⟩ := eq_of_foldlM_write hcut hwf hrun hf
      (show ([] : List Entry).length = _ from rfl) hperm
    refine ⟨rfl, fun m hm p hp ↦ Scalar.safe_iff.2 ⟨hplain m hm p hp, ?_⟩⟩
    exact (valid_write hwf).1 hvalid m hm p hp
  · rintro ⟨rfl, hsafe⟩
    obtain ⟨f, hrun, hf, hdoc⟩ := foldlM_write hwf
      (fun e he p hp ↦ (Scalar.safe_iff.1 (hsafe e he p hp)).1) [] none
    have hvalid := (valid_write hwf).2 fun e he p hp ↦ (Scalar.safe_iff.1 (hsafe e he p hp)).2
    refine ⟨ws, read_eq_some_iff.2 ⟨hvalid, f, hrun, hf, ?_⟩, List.forall₂_same.2 fun e _ ↦ .refl e⟩
    simpa using hdoc

end Yaml
