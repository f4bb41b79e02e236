import Mathlib.Algebra.Ring.Nat
import Mathlib.Data.List.DropRight

/-!
# Byte strings and the C text functions

The text layer under every exit: what the C and C++ libraries do to bytes, with no exit in sight.
A buffer or a `std::string` is a list of bytes; a **C string** is the part of a buffer before its
first NUL (`cstr`). Everything here computes, so a model built on it can be run.

The character classes are those of the C locale, which is the one a process has until it calls
`setlocale`.

`find` is `std::string::find`: the first occurrence at or after a position, or `none` for `npos`.
-/

namespace CText

/-- A byte string: the contents of a C buffer or of a `std::string`. -/
abbrev Bytes := List UInt8

/-- The bytes of an ASCII literal. -/
def lit (s : String) : Bytes :=
  s.toList.map fun c ↦ UInt8.ofNat c.toNat

/-! ### Character classes -/

/-- `isspace` in the C locale: the blank, and the five controls from tab to carriage return. -/
def isspace (b : UInt8) : Bool :=
  b.toNat = 32 ∨ (9 ≤ b.toNat ∧ b.toNat ≤ 13)

/-- The value of a hexadecimal digit, in either case. -/
def hexDigit? (b : UInt8) : Option ℕ :=
  if 48 ≤ b.toNat ∧ b.toNat ≤ 57 then some (b.toNat - 48)
  else if 97 ≤ b.toNat ∧ b.toNat ≤ 102 then some (b.toNat - 87)
  else if 65 ≤ b.toNat ∧ b.toNat ≤ 70 then some (b.toNat - 55)
  else none

/-- `isxdigit`. -/
def isxdigit (b : UInt8) : Bool :=
  (hexDigit? b).isSome

theorem hexDigit?_lt {b : UInt8} {v : ℕ} (h : hexDigit? b = some v) : v < 16 := by
  rw [hexDigit?] at h
  split_ifs at h <;> simp only [Option.some.injEq] at h <;> omega

/-- No byte is both a digit and a blank. -/
theorem isspace_of_isxdigit {b : UInt8} (h : isxdigit b = true) : isspace b = false := by
  rw [isxdigit, hexDigit?] at h
  rw [isspace, decide_eq_false_iff_not]
  split_ifs at h
  · omega
  · omega
  · omega
  · simp at h

/-! ### Up to a byte -/

theorem forall_bne_of_not_mem {c : UInt8} {b : Bytes} (h : c ∉ b) : ∀ x ∈ b, (x != c) = true := by
  intro x hx
  rw [bne_iff_ne]
  exact fun heq ↦ h (heq ▸ hx)

theorem not_mem_takeWhile_bne (c : UInt8) (b : Bytes) : c ∉ b.takeWhile (· != c) := by
  intro h
  simpa using List.mem_takeWhile_imp h

theorem takeWhile_bne_eq_self {c : UInt8} {b : Bytes} (h : c ∉ b) : b.takeWhile (· != c) = b :=
  List.takeWhile_eq_self_iff.2 (forall_bne_of_not_mem h)

/-! ### Without what is at the end -/

theorem rdropWhile_cons {α : Type} (p : α → Bool) (a : α) (l : List α) :
    (a :: l).rdropWhile p =
      if l.rdropWhile p = [] then (if p a then [] else [a]) else a :: l.rdropWhile p := by
  simp only [List.rdropWhile, List.reverse_cons, List.dropWhile_append, List.isEmpty_iff,
    List.reverse_eq_nil_iff]
  split_ifs with hl ha
  · simp [ha]
  · simp [ha]
  · simp

/-- What stands behind a text that is left as it is. -/
theorem rdropWhile_append_of_eq_self {α : Type} {p : α → Bool} {l : List α}
    (h : l.rdropWhile p = l) (w : List α) : (l ++ w).rdropWhile p = l ++ w.rdropWhile p := by
  induction w using List.reverseRecOn with
  | nil => rw [List.append_nil, h, List.rdropWhile_nil, List.append_nil]
  | append_singleton w a ih =>
    rw [← List.append_assoc, List.rdropWhile_concat, List.rdropWhile_concat]
    split_ifs
    · exact ih
    · rw [List.append_assoc]

/-- What is taken off first makes no difference to what takes off more. -/
theorem rdropWhile_rdropWhile {α : Type} {p q : α → Bool} (h : ∀ a, p a = true → q a = true)
    (l : List α) : (l.rdropWhile p).rdropWhile q = l.rdropWhile q := by
  induction l using List.reverseRecOn with
  | nil => rfl
  | append_singleton l a ih =>
    by_cases ha : p a = true
    · rw [List.rdropWhile_concat_pos _ _ _ ha, List.rdropWhile_concat_pos _ _ _ (h a ha), ih]
    · rw [List.rdropWhile_concat_neg _ _ _ ha]

/-! ### C strings -/

/-- The C string at the start of a buffer: its bytes before the first NUL. -/
def cstr (b : Bytes) : Bytes :=
  b.takeWhile (· != 0)

/-- `strncmp(a, b, n) == 0`, for buffers of at least `n` bytes or terminated before that. -/
def strncmpEq (a b : Bytes) (n : ℕ) : Bool :=
  cstr (a.take n) == cstr (b.take n)

/-- `strncpy(dst, src, n)` into a zeroed buffer of more than `n` bytes, read as a C string. -/
def strncpy (src : Bytes) (n : ℕ) : Bytes :=
  cstr (src.take n)

/-- `memset(p, c, n)` followed by `memcpy(p, src, src.length)`: `src` padded with `c` to `n`. -/
def padTo (n : ℕ) (c : UInt8) (src : Bytes) : Bytes :=
  src ++ List.replicate (n - src.length) c

theorem cstr_eq_self {b : Bytes} (h : (0 : UInt8) ∉ b) : cstr b = b :=
  takeWhile_bne_eq_self h

theorem not_mem_cstr (b : Bytes) : (0 : UInt8) ∉ cstr b :=
  not_mem_takeWhile_bne 0 b

theorem cstr_cstr (b : Bytes) : cstr (cstr b) = cstr b :=
  cstr_eq_self (not_mem_cstr b)

/-- A C string begins with the bytes before its first NUL. -/
theorem cstr_append {u : Bytes} (hu : ∀ c ∈ u, c ≠ 0) (r : Bytes) : cstr (u ++ r) = u ++ cstr r :=
  List.takeWhile_append_of_pos fun c hc ↦ by simpa using hu c hc

/-- A text written into a buffer with its terminator. -/
theorem cstr_append_nul (b r : Bytes) : cstr (b ++ 0 :: r) = cstr b := by
  rw [cstr, cstr, List.takeWhile_append]
  split_ifs with h
  · have hb : b.takeWhile (· != 0) = b := (List.takeWhile_prefix _).eq_of_length h
    rw [hb]
    exact List.append_nil b
  · rfl

theorem cstr_length_le (b : Bytes) : (cstr b).length ≤ b.length :=
  (List.takeWhile_prefix _).length_le

/-- There is no C string where another one ends. -/
theorem cstr_dropWhile (b : Bytes) : cstr (b.dropWhile (· != 0)) = [] := by
  rw [cstr, List.takeWhile_eq_nil_iff]
  intro h
  simpa using List.dropWhile_get_zero_not (· != 0) b h

/-- What follows a C string is nothing, or begins with a NUL. -/
theorem eq_nil_or_of_cstr_eq_nil {r : Bytes} (h : cstr r = []) : r = [] ∨ ∃ r', r = 0 :: r' := by
  rcases r with - | ⟨c, r⟩
  · exact .inl rfl
  · have hc : c = 0 := by
      by_contra hne
      simp [cstr, hne] at h
    exact .inr ⟨r, by rw [hc]⟩

theorem padTo_length {n : ℕ} {c : UInt8} {src : Bytes} (h : src.length ≤ n) :
    (padTo n c src).length = n := by
  simp only [padTo, List.length_append, List.length_replicate]
  omega

/-- Padding further and cutting back is padding less. -/
theorem take_padTo {m n : ℕ} {c : UInt8} {src : Bytes} (h : src.length ≤ m) (hmn : m ≤ n) :
    (padTo n c src).take m = padTo m c src := by
  simp only [padTo, List.take_append, List.take_of_length_le h, List.take_replicate]
  congr 2
  omega

/-! ### Fields of fixed size -/

/-- A field of `n` bytes, which no NUL need end. -/
abbrev Field (n : ℕ) := {b : Bytes // b.length = n}

/-- `memset(p, c, n)` followed by `memcpy(p, src, src.length)`, for a field of `n` bytes and a
source of no more. -/
def Field.pad (n : ℕ) (c : UInt8) (src : Bytes) : Field n :=
  ⟨(padTo n c src).take n, by simp [padTo]; omega⟩

theorem Field.pad_val {n : ℕ} {c : UInt8} {src : Bytes} (h : src.length ≤ n) :
    (Field.pad n c src).val = padTo n c src :=
  List.take_of_length_le (padTo_length h).le

/-- A field without its padding: up to the first NUL, and without the blanks at the end. -/
def unpadded (field : Bytes) : Bytes :=
  (cstr field).rdropWhile (· == 32)

/-- `strchr(b, c)`: the position of `c` in a C string. -/
def strchr (b : Bytes) (c : UInt8) : Option ℕ :=
  (cstr b).findIdx? (· == c)

/-- The position found is that of the first occurrence. -/
theorem strchr_eq_some {b : Bytes} (hb : (0 : UInt8) ∉ b) {c : UInt8} {i : ℕ} :
    strchr b c = some i ↔ ∃ x y, b = x ++ c :: y ∧ c ∉ x ∧ x.length = i := by
  rw [strchr, cstr_eq_self hb, List.findIdx?_eq_some_iff_getElem]
  constructor
  · rintro ⟨hi, hc, hbefore⟩
    refine ⟨b.take i, b.drop (i + 1), ?_, fun hmem ↦ ?_, by simp; omega⟩
    · have hget : b[i] = c := by simpa using hc
      rw [← hget, ← List.drop_eq_getElem_cons hi, List.take_append_drop]
    · obtain ⟨j, hj, hget⟩ := List.mem_iff_getElem.1 hmem
      rw [List.length_take] at hj
      rw [List.getElem_take] at hget
      exact absurd (hbefore j (by omega)) (by simp [hget])
  · rintro ⟨x, y, rfl, hx, rfl⟩
    refine ⟨by simp, by simp, fun j hj ↦ ?_⟩
    rw [List.getElem_append_left hj]
    simp only [Bool.not_eq_true, beq_eq_false_iff_ne, ne_eq]
    exact fun h ↦ hx (h ▸ List.getElem_mem hj)

/-! ### `std::string` -/

/-- `s.substr(pos, n)`. -/
def substr (s : Bytes) (pos n : ℕ) : Bytes :=
  (s.drop pos).take n

/-- The offset of the first occurrence of `pat`. -/
def findAt (pat : Bytes) : Bytes → Option ℕ
  | [] => if pat = [] then some 0 else none
  | c :: t => if pat.isPrefixOf (c :: t) then some 0 else (findAt pat t).map (· + 1)

/-- `s.find(pat, pos)`, with `none` for `npos`. -/
def find (s pat : Bytes) (pos : ℕ) : Option ℕ :=
  if pos ≤ s.length then (findAt pat (s.drop pos)).map (pos + ·) else none

/-- `s.find(pat, 0) == 0` asks whether the text starts so. -/
theorem find_eq_zero_iff {s pat : Bytes} : find s pat 0 = some 0 ↔ pat <+: s := by
  have hat : findAt pat s = some 0 ↔ pat <+: s := by
    cases s with
    | nil =>
      rw [findAt, List.prefix_nil]
      split_ifs with h
      · simp [h]
      · simp [h]
    | cons c t =>
      rw [findAt, ← List.isPrefixOf_iff_prefix]
      split_ifs with h
      · simp [h]
      · simp [h]
  rw [find, if_pos (Nat.zero_le _), List.drop_zero, ← hat]
  rcases findAt pat s with - | i
  · simp
  · simp

/-- An occurrence starts inside the text. -/
theorem findAt_le {pat s : Bytes} {i : ℕ} (h : findAt pat s = some i) : i ≤ s.length := by
  induction s generalizing i with
  | nil =>
    rw [findAt] at h
    split_ifs at h
    simp_all
  | cons c t ih =>
    rw [findAt] at h
    split_ifs at h
    · obtain rfl := Option.some.inj h
      exact Nat.zero_le _
    · obtain ⟨j, hj, rfl⟩ := Option.map_eq_some_iff.1 h
      have := ih hj
      simp only [List.length_cons]
      omega

theorem findAt_eq_none_iff {pat s : Bytes} : findAt pat s = none ↔ ¬ pat <:+: s := by
  induction s with
  | nil => simp [findAt]
  | cons c t ih =>
    rw [findAt, List.infix_cons_iff, ← List.isPrefixOf_iff_prefix]
    split_ifs with h
    · simp [h]
    · simp [h, ih]

/-- Where the pattern is found it stands, and nowhere before. -/
theorem findAt_eq_some {pat s : Bytes} {i : ℕ} (h : findAt pat s = some i) :
    pat <+: s.drop i ∧ ∀ k < i, ¬ pat <+: s.drop k := by
  induction s generalizing i with
  | nil =>
    rw [findAt] at h
    split_ifs at h with hpat
    obtain rfl := Option.some.inj h
    exact ⟨hpat ▸ List.nil_prefix, fun k hk ↦ absurd hk (Nat.not_lt_zero k)⟩
  | cons c t ih =>
    rw [findAt] at h
    split_ifs at h with hpre
    · obtain rfl := Option.some.inj h
      exact ⟨List.isPrefixOf_iff_prefix.1 hpre, fun k hk ↦ absurd hk (Nat.not_lt_zero k)⟩
    · obtain ⟨j, hj, rfl⟩ := Option.map_eq_some_iff.1 h
      obtain ⟨hat, hbefore⟩ := ih hj
      refine ⟨hat, fun k hk ↦ ?_⟩
      rcases k with - | k
      · exact mt List.isPrefixOf_iff_prefix.2 hpre
      · exact hbefore k (Nat.lt_of_succ_lt_succ hk)

/-- A byte is found where it first occurs. -/
theorem findAt_singleton_append {c : UInt8} {s : Bytes} (h : c ∉ s) (rest : Bytes) :
    findAt [c] (s ++ c :: rest) = some s.length := by
  induction s with
  | nil => simp [findAt]
  | cons b s ih =>
    obtain ⟨hb, hs⟩ := not_or.1 (mt List.mem_cons.2 h)
    rw [List.cons_append, findAt, ih hs]
    simp [hb]

/-- A pattern that begins with a byte it does not have again is found behind a text without it: no
occurrence begins in the text and ends in the pattern. -/
theorem findAt_append_of_not_infix {c : UInt8} {pat text : Bytes} (hc : c ∉ pat)
    (h : ¬ (c :: pat) <:+: text) (rest : Bytes) :
    findAt (c :: pat) (text ++ (c :: pat ++ rest)) = some text.length := by
  induction text with
  | nil =>
    have hprefix : (c :: pat).isPrefixOf (c :: pat ++ rest) = true :=
      List.isPrefixOf_iff_prefix.2 (List.prefix_append _ _)
    rw [List.nil_append, List.cons_append, findAt]
    exact if_pos hprefix
  | cons b text ih =>
    have hno : ¬ (c :: pat) <+: b :: text ++ (c :: pat ++ rest) := by
      intro hpre
      rcases List.prefix_or_prefix_of_prefix hpre (List.prefix_append _ _) with hin | ⟨x, hx⟩
      · exact h hin.isInfix
      · -- the pattern would have the byte again, where the text ends
        rw [← hx, List.append_assoc, List.prefix_append_right_inj] at hpre
        have hx' : text ++ x = pat := (List.cons.inj hx).2
        cases x with
        | nil =>
          rw [List.append_nil] at hx
          exact h (hx ▸ List.infix_rfl)
        | cons d x =>
          obtain ⟨y, hy⟩ := hpre
          have hd : d = c := (List.cons.inj hy).1.trans (List.cons.inj hx).1
          exact hc (hx' ▸ List.mem_append_right _ (hd ▸ List.mem_cons_self))
    have hno' : ¬ (c :: pat).isPrefixOf (b :: (text ++ (c :: pat ++ rest))) = true :=
      fun hpre ↦ hno (List.isPrefixOf_iff_prefix.1 hpre)
    rw [List.cons_append, findAt, if_neg hno', ih fun hin ↦ h (List.infix_cons hin)]
    rfl

/-- `find` never looks back. -/
theorem le_of_find {s pat : Bytes} {pos i : ℕ} (h : find s pat pos = some i) :
    pos ≤ i ∧ i ≤ s.length := by
  rw [find] at h
  split_ifs at h with hpos
  obtain ⟨j, hj, rfl⟩ := Option.map_eq_some_iff.1 h
  have := findAt_le hj
  rw [List.length_drop] at this
  omega

/-! ### Indexed loops -/

/-- A loop over an index with a second bound runs up to the lower of the two. -/
theorem takeWhile_range_lt (n m : ℕ) :
    (List.range n).takeWhile (fun i ↦ decide (i < m)) = List.range (min n m) := by
  induction n with
  | zero => rfl
  | succ n ih =>
    rw [List.range_succ, List.takeWhile_append, ih, List.length_range, List.length_range]
    by_cases hn : n < m
    · rw [min_eq_left hn.le, min_eq_left (Nat.succ_le_of_lt hn), if_pos rfl, List.range_succ]
      simp [hn]
    · rw [min_eq_right (not_lt.1 hn), min_eq_right (by omega)]
      split_ifs with h
      · obtain rfl : m = n := by omega
        simp
      · rfl

/-! ### Decimal texts -/

/-- `std::to_string` of an integer. -/
def toDecimal (i : ℤ) : Bytes :=
  let digits := (Nat.toDigits 10 i.natAbs).map fun c ↦ UInt8.ofNat c.toNat
  if i < 0 then 45 :: digits else digits

/-- A decimal digit is one of ten characters. -/
theorem toNat_mem_toDigits {n : ℕ} {c : Char} (hc : c ∈ Nat.toDigits 10 n) :
    48 ≤ c.toNat ∧ c.toNat ≤ 57 := by
  have hd := Nat.isDigit_of_mem_toDigits (by decide) (by decide) hc
  simp only [Char.isDigit, Bool.and_eq_true, decide_eq_true_eq, UInt32.le_iff_toNat_le] at hd
  exact hd

/-- The digits of a decimal text. -/
def digitBytes (n : ℕ) : Bytes :=
  (Nat.toDigits 10 n).map fun c ↦ UInt8.ofNat c.toNat

theorem mem_digitBytes {n : ℕ} {b : UInt8} (h : b ∈ digitBytes n) :
    48 ≤ b.toNat ∧ b.toNat ≤ 57 := by
  obtain ⟨c, hc, rfl⟩ := List.mem_map.1 h
  have := toNat_mem_toDigits hc
  rw [UInt8.toNat_ofNat']
  omega

/-- The digits determine the number. -/
theorem digitBytes_injective : Function.Injective digitBytes := by
  have hback : ∀ n, (digitBytes n).map (fun b ↦ Char.ofNat b.toNat) = Nat.toDigits 10 n := by
    intro n
    rw [digitBytes, List.map_map]
    refine (List.map_congr_left fun c hc ↦ ?_).trans (List.map_id _)
    have hlt : c.toNat % 2 ^ 8 = c.toNat := by
      have := toNat_mem_toDigits hc
      omega
    rw [Function.comp_apply, UInt8.toNat_ofNat', hlt, Char.ofNat_toNat, id]
  intro m n h
  have hdigits : Nat.toDigits 10 m = Nat.toDigits 10 n := by rw [← hback, h, hback]
  have hread := congrArg (Nat.ofDigitChars 10 · 0) hdigits
  simpa using hread

theorem toDecimal_eq (i : ℤ) :
    toDecimal i = if i < 0 then 45 :: digitBytes i.natAbs else digitBytes i.natAbs := rfl

/-- A decimal text has bytes between the sign and the last digit, and so no slash. -/
theorem toDecimal_ne_slash {i : ℤ} {b : UInt8} (h : b ∈ toDecimal i) : b ≠ 47 := by
  have hdigit : ∀ b ∈ digitBytes i.natAbs, b ≠ 47 := by
    rintro b hb rfl
    exact absurd (mem_digitBytes hb).1 (by decide)
  rw [toDecimal_eq] at h
  split_ifs at h
  · rcases List.mem_cons.1 h with rfl | h
    · decide
    · exact hdigit b h
  · exact hdigit b h

theorem toDecimal_ne_nil (i : ℤ) : toDecimal i ≠ [] := by
  rw [toDecimal]
  split_ifs
  · simp
  · simp [Nat.toDigits_ne_nil]

/-- **A decimal text determines its integer.** -/
theorem toDecimal_injective : Function.Injective toDecimal := by
  have hsign : ∀ (m n : ℕ), 45 :: digitBytes m ≠ digitBytes n := by
    intro m n h
    have := mem_digitBytes (n := n) (h ▸ List.mem_cons_self ..)
    exact absurd this.1 (by decide)
  intro i j h
  rw [toDecimal_eq, toDecimal_eq] at h
  split_ifs at h with hi hj hj
  · have := digitBytes_injective (List.cons.inj h).2
    omega
  · exact absurd h (hsign _ _)
  · exact absurd h.symm (hsign _ _)
  · have := digitBytes_injective h
    omega

example : toDecimal (-12) = lit "-12" := by decide

end CText
