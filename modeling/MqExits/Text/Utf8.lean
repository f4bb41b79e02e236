import MqExits.Text.Bytes

/-!
# UTF-8

Whether a text is UTF-8, one byte at a time. What is carried from byte to byte is the list of the
ranges in which the bytes that a character still owes must lie; each of them is a range of non-ASCII
bytes, so **an ASCII byte stands between characters** (`valid_append_ascii`): a text cut at one is
UTF-8 when both parts are.
-/

namespace Utf8

open CText

/-- The ranges of the bytes that a character still owes. -/
abbrev Owed := List (ℕ × ℕ)

/-- Any continuation byte. -/
def tail : ℕ × ℕ := (0x80, 0xBF)

/-- What a byte between characters owes, if a character can begin with it. -/
def lead (b : ℕ) : Option Owed :=
  if b < 0x80 then some []
  else if b < 0xC2 then none
  else if b < 0xE0 then some [tail]
  else if b = 0xE0 then some [(0xA0, 0xBF), tail]
  else if b = 0xED then some [(0x80, 0x9F), tail]
  else if b < 0xF0 then some [tail, tail]
  else if b = 0xF0 then some [(0x90, 0xBF), tail, tail]
  else if b < 0xF4 then some [tail, tail, tail]
  else if b = 0xF4 then some [(0x80, 0x8F), tail, tail]
  else none

/-- One byte. -/
def step : Owed → UInt8 → Option Owed
  | [], b => lead b.toNat
  | (lo, hi) :: owed, b => if lo ≤ b.toNat ∧ b.toNat ≤ hi then some owed else none

/-- The text is UTF-8. -/
def valid (text : Bytes) : Bool :=
  text.foldlM step [] == some []

/-- The code of a character. -/
def encode (c : ℕ) : Option Bytes :=
  if c < 0x80 then some [UInt8.ofNat c]
  else if c < 0x800 then some [UInt8.ofNat (0xC0 + c / 64), UInt8.ofNat (0x80 + c % 64)]
  else if 0xD800 ≤ c ∧ c < 0xE000 then none
  else if c < 0x10000 then
    some [UInt8.ofNat (0xE0 + c / 4096), UInt8.ofNat (0x80 + c / 64 % 64),
      UInt8.ofNat (0x80 + c % 64)]
  else if c < 0x110000 then
    some [UInt8.ofNat (0xF0 + c / 262144), UInt8.ofNat (0x80 + c / 4096 % 64),
      UInt8.ofNat (0x80 + c / 64 % 64), UInt8.ofNat (0x80 + c % 64)]
  else none

/-- Only non-ASCII bytes are owed. -/
def NonAscii (owed : Owed) : Prop :=
  ∀ r ∈ owed, 0x80 ≤ r.1

theorem nonAscii_lead {b : ℕ} {owed : Owed} (h : lead b = some owed) : NonAscii owed := by
  rw [lead] at h
  split_ifs at h <;> obtain rfl := Option.some.inj h <;> simp [NonAscii, tail]

theorem nonAscii_step {owed owed' : Owed} {b : UInt8} (ho : NonAscii owed)
    (h : step owed b = some owed') : NonAscii owed' := by
  cases owed with
  | nil => exact nonAscii_lead h
  | cons r owed =>
    rw [step] at h
    split_ifs at h
    obtain rfl := Option.some.inj h
    exact fun r hr ↦ ho r (List.mem_cons_of_mem _ hr)

theorem nonAscii_foldlM {text : Bytes} {owed owed' : Owed} (ho : NonAscii owed)
    (h : text.foldlM step owed = some owed') : NonAscii owed' := by
  induction text generalizing owed with
  | nil =>
    obtain rfl := Option.some.inj h
    exact ho
  | cons b text ih =>
    rw [List.foldlM_cons, Option.bind_eq_bind, Option.bind_eq_some_iff] at h
    obtain ⟨owed₁, hstep, hrest⟩ := h
    exact ih (nonAscii_step ho hstep) hrest

/-- An ASCII byte is a character, and pays nothing that is owed. -/
theorem step_ascii {owed : Owed} (ho : NonAscii owed) {b : UInt8} (hb : b.toNat < 0x80) :
    step owed b = if owed = [] then some [] else none := by
  cases owed with
  | nil => rw [step, lead, if_pos hb, if_pos rfl]
  | cons r owed =>
    have hr : 0x80 ≤ r.1 := ho r List.mem_cons_self
    rw [step, if_neg (by omega), if_neg (List.cons_ne_nil _ _)]

/-- **A text cut at an ASCII byte.** -/
theorem valid_append_ascii {v w : Bytes} {b : UInt8} (hb : b.toNat < 0x80) :
    valid (v ++ b :: w) = true ↔ valid v = true ∧ valid w = true := by
  simp only [valid, beq_iff_eq, List.foldlM_append, List.foldlM_cons, Option.bind_eq_bind]
  cases hv : v.foldlM step [] with
  | none => simp
  | some owed =>
    have ho : NonAscii owed := nonAscii_foldlM (fun r hr ↦ by cases hr) hv
    rw [Option.bind_some, step_ascii ho hb]
    split_ifs with h
    · simp [h]
    · simp [h]

/-- An ASCII text is UTF-8. -/
theorem valid_of_ascii {text : Bytes} (h : ∀ b ∈ text, b.toNat < 0x80) : valid text = true := by
  induction text with
  | nil => rfl
  | cons b text ih =>
    have hb := h b List.mem_cons_self
    exact (valid_append_ascii (v := []) hb).2 ⟨rfl, ih fun c hc ↦ h c (List.mem_cons_of_mem _ hc)⟩

example : valid (lit "a" ++ [0xC3, 0xA9, 0xE2, 0x84, 0xA2]) = true ∧ valid [0xC3, 65] = false := by
  decide

end Utf8
