import MqExits.Text.Bytes
import Mathlib.Tactic.Ring

/-!
# `std::stoi` in base 16

`std::stoi(text, nullptr, 16)` is `strtol` with two ways to throw: `invalid_argument` when nothing
was converted, `out_of_range` when the value is no `int`. `strtol` skips blanks, takes one optional
sign and an optional `0x`, and reads digits as far as they go; **trailing text is not an error**.

So a conversion happens exactly when a digit stands after the blanks and the sign
(`strtol16_isSome_iff`). The prefix plays no part in that: its own `0` is already a digit. For a
text of at most two bytes the value cannot leave the range of an `int`, and the condition is a
condition on the two bytes (`stoi16_isOk_iff`).
-/

namespace CText

/-- What `std::stoi` throws. -/
inductive StoiError
  | invalidArgument
  | outOfRange
  deriving DecidableEq, Repr

/-- The optional sign of a number, and the text after it. -/
def skipSign : Bytes → Bool × Bytes
  | 43 :: t => (false, t)
  | 45 :: t => (true, t)
  | t => (false, t)

/-- The optional `0x` or `0X`, which counts only when a digit follows. -/
def skipPrefix : Bytes → Bytes
  | 48 :: x :: d :: t => if (x = 120 ∨ x = 88) ∧ isxdigit d then d :: t else 48 :: x :: d :: t
  | t => t

/-- The value of a run of digits. -/
def hexValue (ds : Bytes) : ℕ :=
  ds.foldl (fun v d ↦ 16 * v + (hexDigit? d).getD 0) 0

/-- `strtol(s, &end, 16)`; `none` when nothing is converted (`end == s`). -/
def strtol16 (s : Bytes) : Option ℤ :=
  let (neg, t) := skipSign (s.dropWhile isspace)
  let ds := (skipPrefix t).takeWhile isxdigit
  if ds = [] then none else some (if neg then -(hexValue ds : ℤ) else hexValue ds)

/-- `std::stoi(s, nullptr, 16)`. -/
def stoi16 (s : Bytes) : Except StoiError ℤ :=
  match strtol16 s with
  | none => .error .invalidArgument
  | some v => if v < -2147483648 ∨ 2147483647 < v then .error .outOfRange else .ok v

/-! ### When a number starts -/

/-- Skipping the prefix never changes whether a digit comes first. -/
theorem head?_skipPrefix (t : Bytes) :
    (skipPrefix t).head?.any isxdigit = t.head?.any isxdigit := by
  unfold skipPrefix
  split
  · split_ifs with h
    · simp only [List.head?_cons, Option.any_some, h.2]
      decide
    · rfl
  · rfl

theorem takeWhile_ne_nil_iff {p : UInt8 → Bool} {t : Bytes} :
    t.takeWhile p ≠ [] ↔ t.head?.any p = true := by
  cases t with
  | nil => simp
  | cons c t => by_cases h : p c <;> simp [h]

/-- **A conversion happens exactly when a digit follows the blanks and the sign.** -/
theorem strtol16_isSome_iff (s : Bytes) :
    (strtol16 s).isSome ↔ (skipSign (s.dropWhile isspace)).2.head?.any isxdigit = true := by
  rw [strtol16]
  rcases skipSign (s.dropWhile isspace) with ⟨neg, t⟩
  simp only
  rw [← head?_skipPrefix t, ← takeWhile_ne_nil_iff]
  split_ifs with h <;> simp [h]

/-! ### The range of a short number -/

theorem hexValue_append (ds : Bytes) (d : UInt8) :
    hexValue (ds ++ [d]) = 16 * hexValue ds + (hexDigit? d).getD 0 := by
  simp [hexValue, List.foldl_append]

theorem hexDigit?_getD_lt (d : UInt8) : (hexDigit? d).getD 0 < 16 := by
  rcases h : hexDigit? d with - | v
  · simp
  · simpa using hexDigit?_lt h

theorem hexValue_lt (ds : Bytes) : hexValue ds < 16 ^ ds.length := by
  induction ds using List.reverseRecOn with
  | nil => simp [hexValue]
  | append_singleton ds d ih =>
    have hd := hexDigit?_getD_lt d
    rw [hexValue_append, List.length_append, List.length_singleton, pow_succ]
    omega

theorem length_skipSign_le (t : Bytes) : (skipSign t).2.length ≤ t.length := by
  unfold skipSign
  split <;> simp

theorem length_skipPrefix_le (t : Bytes) : (skipPrefix t).length ≤ t.length := by
  unfold skipPrefix
  split
  · split_ifs <;> simp only [List.length_cons] <;> omega
  · exact le_rfl

/-- A text of two bytes is far inside the range of an `int`. -/
theorem natAbs_strtol16_lt {s : Bytes} (hs : s.length ≤ 2) {v : ℤ} (h : strtol16 s = some v) :
    v.natAbs < 256 := by
  have hds : ∀ t : Bytes, t.length ≤ 2 → hexValue ((skipPrefix t).takeWhile isxdigit) < 256 := by
    intro t ht
    have hlen : ((skipPrefix t).takeWhile isxdigit).length ≤ 2 :=
      ((List.takeWhile_sublist _).length_le.trans (length_skipPrefix_le t)).trans ht
    calc hexValue ((skipPrefix t).takeWhile isxdigit)
        < 16 ^ ((skipPrefix t).takeWhile isxdigit).length := hexValue_lt _
      _ ≤ 16 ^ 2 := Nat.pow_le_pow_right (by omega) hlen
      _ = 256 := rfl
  have hlen : (skipSign (s.dropWhile isspace)).2.length ≤ 2 :=
    ((length_skipSign_le _).trans (List.dropWhile_sublist _).length_le).trans hs
  rcases hr : skipSign (s.dropWhile isspace) with ⟨neg, t⟩
  rw [hr] at hlen
  have hv := hds t hlen
  simp only [strtol16, hr] at h
  split_ifs at h <;> simp only [Option.some.injEq] at h <;> omega

/-! ### Texts of one or two bytes -/

/-- The first byte is a digit, or it is a blank or a sign and the second byte is a digit. -/
def ReadsPair (s : Bytes) : Prop :=
  s[0]?.any isxdigit = true ∨
    s[0]?.any (fun c ↦ isspace c || c == 43 || c == 45) = true ∧ s[1]?.any isxdigit = true

instance (s : Bytes) : Decidable (ReadsPair s) :=
  inferInstanceAs (Decidable (_ ∨ _))

theorem not_isxdigit_of_isspace {b : UInt8} (h : isspace b = true) : isxdigit b = false := by
  by_contra hx
  rw [isspace_of_isxdigit (Bool.of_not_eq_false hx)] at h
  exact Bool.false_ne_true h

theorem skipSign_of_ne {c : UInt8} {t : Bytes} (h₁ : c ≠ 43) (h₂ : c ≠ 45) :
    skipSign (c :: t) = (false, c :: t) := by
  unfold skipSign
  split <;> simp_all

/-- Where a number starts in a text of at most two bytes. -/
theorem head?_skipSign_iff {s : Bytes} (hs : s.length ≤ 2) :
    (skipSign (s.dropWhile isspace)).2.head?.any isxdigit = true ↔ ReadsPair s := by
  rw [ReadsPair]
  match s with
  | [] => simp [skipSign]
  | [c] =>
    by_cases hsp : isspace c
    · simp [hsp, skipSign, not_isxdigit_of_isspace hsp]
    · by_cases h43 : c = 43
      · subst h43; decide
      · by_cases h45 : c = 45
        · subst h45; decide
        · simp [hsp, skipSign_of_ne h43 h45]
  | [c, d] =>
    by_cases hsp : isspace c
    · have hx := not_isxdigit_of_isspace hsp
      -- After a blank the second byte is a digit, or no digit can follow it.
      by_cases hd : isxdigit d
      · have hd' := isspace_of_isxdigit hd
        have h43 : d ≠ 43 := by rintro rfl; exact absurd hd (by decide)
        have h45 : d ≠ 45 := by rintro rfl; exact absurd hd (by decide)
        simp [hsp, hx, hd, hd', skipSign_of_ne h43 h45]
      · by_cases hd' : isspace d
        · simp [hsp, hx, hd, hd', skipSign]
        · by_cases h43 : d = 43
          · subst h43; simp [hsp, hx, hd, hd', skipSign]
          · by_cases h45 : d = 45
            · subst h45; simp [hsp, hx, hd, hd', skipSign]
            · simp [hsp, hx, hd, hd', skipSign_of_ne h43 h45]
    · by_cases h43 : c = 43
      · subst h43; simp [show isspace 43 = false by decide, skipSign,
          show isxdigit 43 = false by decide]
      · by_cases h45 : c = 45
        · subst h45; simp [show isspace 45 = false by decide, skipSign,
            show isxdigit 45 = false by decide]
        · simp [hsp, skipSign_of_ne h43 h45, h43, h45]

/-- **`stoi` converts a text of at most two bytes exactly when the two bytes read as a pair.** -/
theorem stoi16_isOk_iff {s : Bytes} (hs : s.length ≤ 2) :
    (∃ v, stoi16 s = .ok v) ↔ ReadsPair s := by
  rw [← head?_skipSign_iff hs, ← strtol16_isSome_iff]
  rw [stoi16]
  rcases h : strtol16 s with - | v
  · simp
  · have hv := natAbs_strtol16_lt hs h
    have hr : ¬ (v < -2147483648 ∨ 2147483647 < v) := by omega
    simp [hr]

/-- Two digits read as the number they write. -/
theorem stoi16_pair {c d : UInt8} {v w : ℕ} (hc : hexDigit? c = some v)
    (hd : hexDigit? d = some w) : stoi16 [c, d] = .ok (16 * v + w) := by
  have hxc : isxdigit c = true := by rw [isxdigit, hc]; rfl
  have hxd : isxdigit d = true := by rw [isxdigit, hd]; rfl
  have hsign : skipSign [c, d] = (false, [c, d]) := by
    refine skipSign_of_ne ?_ ?_
    · rintro rfl
      exact absurd hxc (by decide)
    · rintro rfl
      exact absurd hxc (by decide)
  -- Two bytes are too few for a prefix and a digit.
  have hshort : skipPrefix [c, d] = [c, d] := by
    unfold skipPrefix
    split
    · rename_i h
      simp at h
    · rfl
  have hvalue : hexValue [c, d] = 16 * v + w := by
    simp [hexValue, hc, hd]
  have hlong : strtol16 [c, d] = some ((16 * v + w : ℕ) : ℤ) := by
    simp [strtol16, isspace_of_isxdigit hxc, hsign, hshort, hxc, hxd, hvalue]
  have hv := hexDigit?_lt hc
  have hw := hexDigit?_lt hd
  rw [stoi16, hlong]
  simp only [show ¬ (((16 * v + w : ℕ) : ℤ) < -2147483648 ∨
    2147483647 < ((16 * v + w : ℕ) : ℤ)) by omega, if_false]
  rw [Nat.cast_add, Nat.cast_mul, Nat.cast_ofNat]

example : stoi16 (lit "0x") = .ok 0 := by decide
example : stoi16 (lit "-1") = .ok (-1) := by decide
example : stoi16 (lit "zz") = .error .invalidArgument := by decide

end CText
