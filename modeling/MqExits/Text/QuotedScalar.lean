import MqExits.Text.Utf8

/-!
# Double-quoted scalars of YAML

What the text between two quotes stands for, by YAML 1.2, one byte at a time: escapes are decoded
and line breaks folded. `Quoted.step` is one byte; it reads on, or at the closing quote gives the
value.

A text that can stand between quotes as it is has no quote, no backslash and no control but the tab
(`Plain`). **Only a plain text reads back as itself** (`plain_of_weight_le`): by the `weight` below,
every escape and every folded line break makes a value lighter than the text it is written with.
-/

namespace Yaml

open CText

/-! ### Reading -/

/-- What lies between the last character read and the next: blanks, or line breaks. -/
inductive Gap
  | white (blanks : Bytes)
  /-- A line break that is read as `folded`, and some empty lines after it; the next character must
  be preceded by `missing` more blanks. `cr` says that the break could be half of a CRLF. -/
  | lines (folded : Bytes) (empties missing : ℕ) (cr : Bool)

/-- Where a reader of a double-quoted scalar is. -/
inductive Mode
  | text (gap : Gap)
  | escape
  | hex (digits value : ℕ)

/-- A reader of a double-quoted scalar, with the value so far. -/
structure Quoted where
  out : Bytes
  mode : Mode

/-- What reading a byte leads to. -/
inductive Scan
  | reading (q : Quoted)
  | closed (value : Bytes)

/-- What a gap is read as when a character follows. -/
def Gap.text : Gap → Option Bytes
  | .white blanks => some blanks
  | .lines folded empties missing _ =>
    if missing = 0 then some (if empties = 0 then folded else List.replicate empties 10) else none

/-- A line break in a gap. -/
def Gap.break (indent : ℕ) (b : UInt8) : Gap → Gap
  | .white _ => .lines [32] 0 indent (b == 13)
  | .lines folded empties _ cr =>
    if b = 10 ∧ cr then .lines folded empties indent false
    else .lines folded (empties + 1) indent (b == 13)

/-- A blank or a tab in a gap. Only blanks make an indentation. -/
def Gap.blank (b : UInt8) : Gap → Option Gap
  | .white blanks => some (.white (blanks ++ [b]))
  | .lines folded empties missing _ =>
    if b = 32 then some (.lines folded empties (missing - 1) false)
    else if missing = 0 then some (.lines folded empties 0 false)
    else none

/-- The escapes of one character. -/
def escapes : List (UInt8 × Bytes) :=
  [(48, [0]), (97, [7]), (98, [8]), (116, [9]), (9, [9]), (110, [10]), (118, [11]), (102, [12]),
    (114, [13]), (101, [27]), (32, [32]), (34, [34]), (47, [47]), (92, [92]), (78, [0xC2, 0x85]),
    (95, [0xC2, 0xA0]), (76, [0xE2, 0x80, 0xA8]), (80, [0xE2, 0x80, 0xA9])]

/-- The number of digits after `x`, `u` and `U`. -/
def hexEscapes : List (UInt8 × ℕ) :=
  [(120, 2), (117, 4), (85, 8)]

/-- **One byte** of a double-quoted scalar. A line after the first must begin with `indent`
blanks. -/
def Quoted.step (indent : ℕ) (q : Quoted) (b : UInt8) : Option Scan :=
  match q.mode with
  | .text gap =>
    if b = 34 then gap.text.map fun t ↦ .closed (q.out ++ t)
    else if b = 92 then gap.text.map fun t ↦ .reading ⟨q.out ++ t, .escape⟩
    else if b = 10 ∨ b = 13 then some (.reading ⟨q.out, .text (gap.break indent b)⟩)
    else if b = 32 ∨ b = 9 then (gap.blank b).map fun g ↦ .reading ⟨q.out, .text g⟩
    else if b.toNat < 32 then none
    else gap.text.map fun t ↦ .reading ⟨q.out ++ t ++ [b], .text (.white [])⟩
  | .escape =>
    -- a line break after a backslash is read as nothing
    if b = 10 ∨ b = 13 then some (.reading ⟨q.out, .text (.lines [] 0 indent (b == 13))⟩)
    else
      match hexEscapes.lookup b with
      | some digits => some (.reading ⟨q.out, .hex digits 0⟩)
      | none =>
        (escapes.lookup b).map fun t ↦ .reading ⟨q.out ++ t, .text (.white [])⟩
  | .hex digits value =>
    match hexDigit? b with
    | none => none
    | some d =>
      if digits ≤ 1 then
        (Utf8.encode (16 * value + d)).map fun t ↦ .reading ⟨q.out ++ t, .text (.white [])⟩
      else some (.reading ⟨q.out, .hex (digits - 1) (16 * value + d)⟩)

/-- The reader after an opening quote. -/
def Quoted.start : Quoted :=
  ⟨[], .text (.white [])⟩

/-- One byte that does not end the scalar. -/
def Quoted.readOn (indent : ℕ) (q : Quoted) (b : UInt8) : Option Quoted :=
  match q.step indent b with
  | some (.reading q') => some q'
  | _ => none

/-! ### Plain texts -/

/-- The byte stands for itself between quotes. -/
def PlainByte (b : UInt8) : Prop :=
  (b = 9 ∨ 32 ≤ b.toNat) ∧ b ≠ 34 ∧ b ≠ 92

instance (b : UInt8) : Decidable (PlainByte b) :=
  inferInstanceAs (Decidable (_ ∧ _))

/-- Every byte stands for itself. -/
def Plain (text : Bytes) : Prop :=
  ∀ b ∈ text, PlainByte b

instance (text : Bytes) : Decidable (Plain text) :=
  List.decidableBAll PlainByte text

/-- **A plain byte is read as it is**, with the blanks before it. -/
theorem readOn_plain (indent : ℕ) {b : UInt8} (hb : PlainByte b) (out blanks : Bytes) :
    ∃ out' blanks', Quoted.readOn indent ⟨out, .text (.white blanks)⟩ b =
      some ⟨out', .text (.white blanks')⟩ ∧ out' ++ blanks' = out ++ blanks ++ [b] := by
  obtain ⟨hlow, h34, h92⟩ := hb
  have hbreak : ¬ (b = 10 ∨ b = 13) := by
    rintro (rfl | rfl) <;> revert hlow <;> decide
  by_cases hblank : b = 32 ∨ b = 9
  · refine ⟨out, blanks ++ [b], ?_, (List.append_assoc _ _ _).symm⟩
    simp only [Quoted.readOn, Quoted.step, if_neg h34, if_neg h92, if_neg hbreak, if_pos hblank,
      Gap.blank, Option.map_some]
  · have hprint : ¬ b.toNat < 32 := by
      have h9 : b ≠ 9 := fun h ↦ hblank (.inr h)
      have := hlow.resolve_left h9
      omega
    refine ⟨out ++ blanks ++ [b], [], ?_, List.append_nil _⟩
    simp only [Quoted.readOn, Quoted.step, if_neg h34, if_neg h92, if_neg hbreak, if_neg hblank,
      if_neg hprint, Gap.text, Option.map_some]

/-- So is a plain text. -/
theorem readOn_foldlM_plain (indent : ℕ) {text : Bytes} (h : Plain text) (out blanks : Bytes) :
    ∃ out' blanks', text.foldlM (Quoted.readOn indent) ⟨out, .text (.white blanks)⟩ =
      some ⟨out', .text (.white blanks')⟩ ∧ out' ++ blanks' = out ++ blanks ++ text := by
  induction text generalizing out blanks with
  | nil => exact ⟨out, blanks, rfl, (List.append_nil _).symm⟩
  | cons b text ih =>
    obtain ⟨out₁, blanks₁, hb, heq₁⟩ := readOn_plain indent (h b List.mem_cons_self) out blanks
    obtain ⟨out', blanks', hrest, heq⟩ :=
      ih (fun c hc ↦ h c (List.mem_cons_of_mem _ hc)) out₁ blanks₁
    refine ⟨out', blanks', ?_, ?_⟩
    · rw [List.foldlM_cons, hb]
      exact hrest
    · rw [heq, heq₁, List.append_assoc, List.singleton_append]

/-! ### The weight of a text -/

/-- Line breaks weigh most, and what is not ASCII nothing. -/
def byteWeight (b : UInt8) : ℕ :=
  if b.toNat = 10 ∨ b.toNat = 13 then 3 else if b.toNat < 128 then 2 else 0

def weight (text : Bytes) : ℕ :=
  (text.map byteWeight).sum

@[simp] theorem weight_nil : weight [] = 0 := rfl

@[simp] theorem weight_cons (b : UInt8) (text : Bytes) :
    weight (b :: text) = byteWeight b + weight text :=
  List.sum_cons

@[simp] theorem weight_append (v w : Bytes) : weight (v ++ w) = weight v + weight w := by
  rw [weight, List.map_append, List.sum_append, weight, weight]

theorem weight_mono_of_prefixOf {v w : Bytes} (h : v <+: w) : weight v ≤ weight w := by
  obtain ⟨z, rfl⟩ := h
  rw [weight_append]
  exact Nat.le_add_right _ _

/-- What the text that is read as a gap weighs at most. -/
def Gap.weight : Gap → ℕ
  | .white blanks => Yaml.weight blanks
  | .lines folded empties _ _ => Yaml.weight folded + 3 * empties

/-- The weight of a reader: of its value, and of what is still to be read as part of it. -/
def Quoted.weight (q : Quoted) : ℕ :=
  Yaml.weight q.out +
    match q.mode with
    | .text gap => gap.weight
    | .escape => 1
    | .hex _ _ => 3

theorem byteWeight_le (b : UInt8) : byteWeight b ≤ 3 := by
  rw [byteWeight]
  split_ifs <;> omega

theorem Gap.weight_text {gap : Gap} {t : Bytes} (h : gap.text = some t) :
    Yaml.weight t ≤ gap.weight := by
  cases gap with
  | white blanks =>
    obtain rfl := Option.some.inj h
    exact le_rfl
  | lines folded empties missing cr =>
    simp only [Gap.text] at h
    split_ifs at h with hm he
    · obtain rfl := Option.some.inj h
      exact Nat.le_add_right _ _
    · obtain rfl := Option.some.inj h
      have hbreaks : Yaml.weight (List.replicate empties 10) = 3 * empties := by
        simp [Yaml.weight, byteWeight, Nat.mul_comm]
      rw [Gap.weight, hbreaks]
      exact Nat.le_add_left _ _

theorem byteWeight_ofNat {n : ℕ} (h₁ : 128 ≤ n) (h₂ : n < 256) :
    byteWeight (UInt8.ofNat n) = 0 := by
  have hnat : (UInt8.ofNat n).toNat = n := by
    rw [UInt8.toNat_ofNat']
    omega
  rw [byteWeight, hnat, if_neg (by omega), if_neg (by omega)]

theorem weight_encode {c : ℕ} {t : Bytes} (h : Utf8.encode c = some t) : weight t ≤ 3 := by
  rw [Utf8.encode] at h
  split_ifs at h <;> obtain rfl := Option.some.inj h <;> simp only [weight_cons, weight_nil]
  · exact byteWeight_le _
  · rw [byteWeight_ofNat (by omega) (by omega), byteWeight_ofNat (by omega) (by omega)]
    omega
  · rw [byteWeight_ofNat (by omega) (by omega), byteWeight_ofNat (by omega) (by omega),
      byteWeight_ofNat (by omega) (by omega)]
    omega
  · rw [byteWeight_ofNat (by omega) (by omega), byteWeight_ofNat (by omega) (by omega),
      byteWeight_ofNat (by omega) (by omega), byteWeight_ofNat (by omega) (by omega)]
    omega

/-! ### What is read is no heavier -/

theorem weight_break (indent : ℕ) {b : UInt8} (hb : b = 10 ∨ b = 13) (gap : Gap) :
    (gap.break indent b).weight ≤ gap.weight + byteWeight b := by
  have hw : byteWeight b = 3 := by rcases hb with rfl | rfl <;> rfl
  cases gap with
  | white blanks =>
    have hfold : Yaml.weight [32] = 2 := rfl
    simp only [Gap.break, Gap.weight, hfold, hw]
    omega
  | lines folded empties missing cr =>
    simp only [Gap.break]
    split_ifs
    · simp only [Gap.weight]
      omega
    · simp only [Gap.weight, hw]
      omega

theorem weight_blank {b : UInt8} {gap gap' : Gap} (h : gap.blank b = some gap') :
    gap'.weight ≤ gap.weight + byteWeight b := by
  cases gap with
  | white blanks =>
    obtain rfl := Option.some.inj h
    simp [Gap.weight]
  | lines folded empties missing cr =>
    simp only [Gap.blank] at h
    split_ifs at h <;> obtain rfl := Option.some.inj h <;> exact Nat.le_add_right _ _

/-- What is found in a table is in it. -/
theorem mem_of_lookup {α β : Type} [BEq α] [LawfulBEq α] {l : List (α × β)} {a : α} {b : β}
    (h : l.lookup a = some b) : (a, b) ∈ l := by
  obtain ⟨l₁, l₂, rfl, -⟩ := List.lookup_eq_some_iff.1 h
  exact List.mem_append_right _ List.mem_cons_self

theorem weight_escapes : ∀ e ∈ escapes, weight e.2 ≤ 3 ∧ byteWeight e.1 = 2 := by
  decide

theorem weight_hexEscapes : ∀ e ∈ hexEscapes, byteWeight e.1 = 2 := by
  decide

/-- What a byte makes of a scalar is no heavier than the text read, which is `w` before that byte.
Only a quote ends the scalar. -/
def Scan.NoHeavier (w : ℕ) (b : UInt8) : Scan → Prop
  | .reading q => q.weight ≤ w + byteWeight b
  | .closed value => b = 34 ∧ Yaml.weight value ≤ w

/-- In the text, blanks and line breaks that are held back count with what they will stand for. -/
theorem noHeavier_text {indent : ℕ} {out : Bytes} {gap : Gap} {b : UInt8} {r : Scan}
    (h : Quoted.step indent ⟨out, .text gap⟩ b = some r) :
    r.NoHeavier (Quoted.weight ⟨out, .text gap⟩) b := by
  simp only [Quoted.step] at h
  split_ifs at h with h34 h92 hbreak hblank hlow
  · -- The closing quote: what is held back is in the value.
    obtain ⟨t, ht, rfl⟩ := Option.map_eq_some_iff.1 h
    have hgap := Gap.weight_text ht
    refine ⟨h34, ?_⟩
    simp only [Quoted.weight, weight_append]
    omega
  · -- A backslash, whose weight is that of the escape to come.
    obtain ⟨t, ht, rfl⟩ := Option.map_eq_some_iff.1 h
    have hgap := Gap.weight_text ht
    have hb : byteWeight b = 2 := by rw [h92]; rfl
    simp only [Scan.NoHeavier, Quoted.weight, weight_append, hb]
    omega
  · -- A line break, which will be a blank or a newline of the value.
    obtain rfl := Option.some.inj h
    have hgap := weight_break indent hbreak gap
    simp only [Scan.NoHeavier, Quoted.weight]
    omega
  · -- A blank, which is in the value only if no line break follows.
    obtain ⟨gap', hblanks, rfl⟩ := Option.map_eq_some_iff.1 h
    have hgap := weight_blank hblanks
    simp only [Scan.NoHeavier, Quoted.weight]
    omega
  · -- Any other byte, behind what was held back.
    obtain ⟨t, ht, rfl⟩ := Option.map_eq_some_iff.1 h
    have hgap := Gap.weight_text ht
    have hnone : (Gap.white []).weight = 0 := rfl
    simp only [Scan.NoHeavier, Quoted.weight, weight_append, weight_cons, weight_nil, hnone]
    omega

/-- After a backslash: the backslash has been counted, and no escape stands for more than three. -/
theorem noHeavier_escape {indent : ℕ} {out : Bytes} {b : UInt8} {r : Scan}
    (h : Quoted.step indent ⟨out, .escape⟩ b = some r) :
    r.NoHeavier (Quoted.weight ⟨out, .escape⟩) b := by
  simp only [Quoted.step] at h
  split_ifs at h with hbreak
  · obtain rfl := Option.some.inj h
    simp only [Scan.NoHeavier, Quoted.weight, Gap.weight, weight_nil]
    omega
  · rcases hhex : hexEscapes.lookup b with - | digits
    · rw [hhex] at h
      obtain ⟨t, ht, rfl⟩ := Option.map_eq_some_iff.1 h
      obtain ⟨hw, hb⟩ : Yaml.weight t ≤ 3 ∧ byteWeight b = 2 :=
        weight_escapes _ (mem_of_lookup ht)
      simp only [Scan.NoHeavier, Quoted.weight, weight_append, Gap.weight, weight_nil, hb]
      omega
    · rw [hhex] at h
      obtain rfl := Option.some.inj h
      have hb : byteWeight b = 2 := weight_hexEscapes _ (mem_of_lookup hhex)
      simp only [Scan.NoHeavier, Quoted.weight, hb]
      omega

/-- Within a code in hexadecimal: the character comes with the last of the digits. -/
theorem noHeavier_hex {indent : ℕ} {out : Bytes} {digits value : ℕ} {b : UInt8} {r : Scan}
    (h : Quoted.step indent ⟨out, .hex digits value⟩ b = some r) :
    r.NoHeavier (Quoted.weight ⟨out, .hex digits value⟩) b := by
  simp only [Quoted.step] at h
  rcases hdigit : hexDigit? b with - | d
  · simp [hdigit] at h
  · simp only [hdigit] at h
    split_ifs at h
    · obtain ⟨t, ht, rfl⟩ := Option.map_eq_some_iff.1 h
      have hcode := weight_encode ht
      simp only [Scan.NoHeavier, Quoted.weight, weight_append, Gap.weight, weight_nil]
      omega
    · obtain rfl := Option.some.inj h
      simp only [Scan.NoHeavier, Quoted.weight]
      omega

/-- **One byte**: a scalar that goes on is no heavier than the text read; one that ends does so at a
quote. -/
theorem Quoted.noHeavier_step {indent : ℕ} {q : Quoted} {b : UInt8} {r : Scan}
    (h : q.step indent b = some r) : r.NoHeavier q.weight b := by
  obtain ⟨out, mode⟩ := q
  cases mode with
  | text gap => exact noHeavier_text h
  | escape => exact noHeavier_escape h
  | hex digits value => exact noHeavier_hex h

theorem weight_readOn {indent : ℕ} {q q' : Quoted} {b : UInt8} (h : q.readOn indent b = some q') :
    q'.weight ≤ q.weight + byteWeight b := by
  rw [Quoted.readOn] at h
  split at h
  · next q₁ hstep =>
    obtain rfl := Option.some.inj h
    exact Quoted.noHeavier_step hstep
  · cases h

theorem weight_foldlM {indent : ℕ} {text : Bytes} {q q' : Quoted}
    (h : text.foldlM (Quoted.readOn indent) q = some q') :
    q'.weight ≤ q.weight + weight text := by
  induction text generalizing q with
  | nil =>
    obtain rfl := Option.some.inj h
    exact Nat.le_add_right _ _
  | cons b text ih =>
    rw [List.foldlM_cons, Option.bind_eq_bind, Option.bind_eq_some_iff] at h
    obtain ⟨q₁, hb, hrest⟩ := h
    have h₁ := weight_readOn hb
    have h₂ := ih hrest
    rw [weight_cons]
    omega

/-- **A byte that is not plain** makes the scalar lighter than the text. -/
theorem weight_readOn_lt {indent : ℕ} {out blanks : Bytes} {b : UInt8} {q : Quoted}
    (h : Quoted.readOn indent ⟨out, .text (.white blanks)⟩ b = some q) (hb : ¬ PlainByte b) :
    q.weight < weight out + weight blanks + byteWeight b := by
  rw [Quoted.readOn] at h
  simp only [Quoted.step, Gap.text, Gap.blank, Gap.break, Option.map_some] at h
  split_ifs at h with h34 h92 hbreak hblank hlow
  · obtain rfl := Option.some.inj h
    have hw : byteWeight b = 2 := by rw [h92]; rfl
    simp only [Quoted.weight, weight_append, hw]
    omega
  · obtain rfl := Option.some.inj h
    have hw : byteWeight b = 3 := by rcases hbreak with rfl | rfl <;> rfl
    have hfold : Gap.weight (.lines [32] 0 indent (b == 13)) = 2 := rfl
    simp only [Quoted.weight, hfold, hw]
    omega
  · refine absurd ⟨?_, h34, h92⟩ hb
    rcases hblank with rfl | rfl
    · exact .inr (by decide)
    · exact .inl rfl
  · exact absurd ⟨.inr (not_lt.1 hlow), h34, h92⟩ hb

/-- **Only a plain text reads back as itself.** -/
theorem plain_of_weight_le {indent : ℕ} {text out blanks value : Bytes} {q : Quoted}
    (h : text.foldlM (Quoted.readOn indent) ⟨out, .text (.white blanks)⟩ = some q)
    (hclosed : q.step indent 34 = some (.closed value))
    (hw : weight out + weight blanks + weight text ≤ weight value) :
    Plain text ∧ value = out ++ blanks ++ text := by
  induction text generalizing out blanks with
  | nil =>
    obtain rfl := Option.some.inj h
    have hvalue : Scan.closed (out ++ blanks) = .closed value := Option.some.inj hclosed
    obtain rfl := Scan.closed.inj hvalue
    exact ⟨fun b hb ↦ absurd hb List.not_mem_nil, (List.append_nil _).symm⟩
  | cons b text ih =>
    rw [List.foldlM_cons, Option.bind_eq_bind, Option.bind_eq_some_iff] at h
    obtain ⟨q₁, hb, hrest⟩ := h
    by_cases hplain : PlainByte b
    · obtain ⟨out₁, blanks₁, hb₁, heq⟩ := readOn_plain indent hplain out blanks
      obtain rfl := Option.some.inj (hb.symm.trans hb₁)
      have hweight : weight out₁ + weight blanks₁ = weight out + weight blanks + byteWeight b := by
        have := congrArg weight heq
        simpa [Nat.add_assoc] using this
      obtain ⟨hrestplain, rfl⟩ := ih hrest (by rw [weight_cons] at hw; omega)
      refine ⟨?_, by rw [heq, List.append_assoc, List.singleton_append]⟩
      rintro c hc
      rcases List.mem_cons.1 hc with rfl | hc
      · exact hplain
      · exact hrestplain c hc
    · -- A byte that is not plain makes the reader lighter, and no later byte makes up for it.
      have h₁ := weight_readOn_lt hb hplain
      have h₂ := weight_foldlM hrest
      have h₃ : weight value ≤ q.weight := (Quoted.noHeavier_step hclosed).2
      rw [weight_cons] at hw
      omega

end Yaml
