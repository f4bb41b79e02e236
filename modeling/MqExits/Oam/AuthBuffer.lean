import MqExits.Oam.AuthStr
import Mathlib.Algebra.Order.BigOperators.Group.List
import Mathlib.Algebra.Order.Group.Nat

/-!
# The length of the text of an authority mask

`OASetAuth`, `OACheckAuth` and `OAEnumAuth` of `oamlog` give `OAAuthStr` a buffer of `AUTHBUF`
bytes, which it fills without a check. What a mask takes there is not monotone in the mask: a
complete group of bits is written as one short word.

`authWidths` says what each bit takes. A mask with neither group complete takes the sum of what its
bits take, so the text fits exactly when the bits that the mask lacks make up for the rest.
-/

namespace MqExits.Oam.Oamlog

open CText FlagNames

/-- The characters that each bit takes, with its blank, if no group is written as a word; the last
row is for any bits without a name. -/
def authWidths : Table 32 ℕ :=
  [(MQZAO_CONNECT, 8), (MQZAO_BROWSE, 7), (MQZAO_INPUT, 4), (MQZAO_OUTPUT, 4), (MQZAO_INQUIRE, 4),
   (MQZAO_SET, 4), (MQZAO_PUBLISH, 4), (MQZAO_SUBSCRIBE, 4), (MQZAO_RESUME, 7),
   (MQZAO_PASS_IDENTITY_CONTEXT, 7), (MQZAO_PASS_ALL_CONTEXT, 8), (MQZAO_SET_IDENTITY_CONTEXT, 6),
   (MQZAO_SET_ALL_CONTEXT, 7), (MQZAO_ALTERNATE_USER_AUTHORITY, 7), (MQZAO_CREATE, 4),
   (MQZAO_DELETE, 4), (MQZAO_DISPLAY, 4), (MQZAO_CHANGE, 4), (MQZAO_CLEAR, 4), (MQZAO_CONTROL, 5),
   (MQZAO_CONTROL_EXTENDED, 6), (MQZAO_AUTHORIZE, 5), (MQZAO_SYSTEM, 7), (MQZAO_REMOVE, 4),
   (notAllFlags, 8)]

/-- What the bits that `x` lacks would take. -/
def lacking (x : BitVec 32) : ℕ :=
  (Table.names (authWidths.filter fun e ↦ x &&& e.1 = 0)).sum

/-- A group is complete, or the bits that `x` lacks would take enough. -/
def TextFits (x : BitVec 32) : Prop :=
  x &&& MQZAO_ALL_MQI = MQZAO_ALL_MQI ∨ x &&& MQZAO_ALL_ADMIN = MQZAO_ALL_ADMIN ∨ 22 ≤ lacking x

instance (x : BitVec 32) : Decidable (TextFits x) :=
  inferInstanceAs (Decidable (_ ∨ _))

/-! ### Widths -/

/-- The characters that names take, with a blank after each. -/
def width (l : List Bytes) : ℕ :=
  (l.map fun s ↦ s.length + 1).sum

theorem length_spaced (l : List Bytes) : (spaced l).length = width l := by
  induction l with
  | nil => rfl
  | cons s l ih =>
    rw [spaced_cons, List.length_append, List.length_cons, ih, width, width, List.map_cons,
      List.sum_cons]
    omega

@[simp] theorem width_append (l l' : List Bytes) : width (l ++ l') = width l + width l' := by
  rw [width, List.map_append, List.sum_append]
  rfl

/-- The table of widths that goes with a table of names. -/
def widths (t : Table 32 Bytes) : Table 32 ℕ :=
  t.map fun e ↦ (e.1, e.2.length + 1)

/-- What is shown of the names is as wide as what is shown of the widths. -/
theorem width_shown (t : Table 32 Bytes) (x : BitVec 32) :
    width (t.shown x).names = ((widths t).shown x).names.sum := by
  rw [width, widths, Table.shown, Table.shown, Table.names, Table.names, List.filter_map,
    List.map_map, List.map_map]
  rfl

/-- Less is shown than there is. -/
theorem width_shown_le (t : Table 32 Bytes) (x : BitVec 32) :
    width (t.shown x).names ≤ width t.names :=
  ((List.filter_sublist.map _).map _).sum_le_sum fun _ _ ↦ Nat.zero_le _

/-- What is shown and what is lacking make up the whole table. -/
theorem sum_shown_add_lacking (x : BitVec 32) :
    (authWidths.shown x).names.sum + lacking x = authWidths.names.sum := by
  have hperm := List.filter_append_perm (fun e : BitVec 32 × ℕ ↦ decide (x &&& e.1 ≠ 0)) authWidths
  have hsum := (hperm.map Prod.snd).sum_nat
  rw [List.map_append, List.sum_append] at hsum
  rw [← show _ = authWidths.names.sum from hsum, lacking]
  congr 3
  refine List.filter_congr fun e _ ↦ ?_
  simp

/-! ### The text -/

/-- The header, the brackets and the names. -/
theorem length_oAAuthStr (x : BitVec 32) : (OAAuthStr x).1.length = 13 + (inner x).length := by
  have hopen : (lit " [").length = 2 := by decide
  have hzero : (lit "0x").length = 2 := by decide
  have hclose : (lit "]").length = 1 := by decide
  rw [oAAuthStr_eq, List.length_append, List.length_append, List.length_append, List.length_append,
    hopen, hzero, hclose, hex8, List.length_map, List.length_range]
  omega

theorem width_unknownName_le (x : BitVec 32) : width (unknownName x) ≤ 8 := by
  rw [unknownName]
  split_ifs
  · decide
  · decide

theorem width_back_le {x : BitVec 32} (hne : x ≠ MQZAO_NONE) : width (back x) ≤ 19 := by
  have hshown := width_shown_le [(MQZAO_SYSTEM, lit "system"), (MQZAO_REMOVE, lit "rem")] x
  have hunknown := width_unknownName_le x
  rw [back, noneName, if_neg hne, width_append, List.nil_append]
  exact Nat.add_le_add hshown hunknown

/-- A complete group leaves room enough. -/
theorem length_inner_le {x : BitVec 32}
    (hx : x &&& MQZAO_ALL_MQI = MQZAO_ALL_MQI ∨ x &&& MQZAO_ALL_ADMIN = MQZAO_ALL_ADMIN) :
    (inner x).length ≤ 114 := by
  have hne : x ≠ MQZAO_NONE := by
    rintro rfl
    exact absurd hx (by decide)
  have hback := width_back_le hne
  have hcrt : width (Table.shown [(MQZAO_CREATE, lit "crt")] x).names ≤ 4 :=
    width_shown_le [(MQZAO_CREATE, lit "crt")] x
  have hbits : width (mqiNames.shown x).names ≤ 81 := width_shown_le mqiNames x
  have hadminBits : width (adminNames.shown x).names ≤ 32 := width_shown_le adminNames x
  have hall : width (Table.names [(MQZAO_ALL_MQI, lit "allmqi")]) = 7 := by decide
  have halladm : (lit "alladm").length = 6 := by decide
  rw [inner, front, Table.group, List.length_append, length_spaced, Table.names_append,
    width_append]
  split_ifs
  · rw [hall, List.length_append, length_spaced, halladm]
    omega
  · rw [hall, length_spaced, width_append]
    omega
  · rw [List.length_append, length_spaced, halladm]
    omega
  · exact absurd hx (by simp_all)

/-- With no complete group, the names are as long as the bits of the mask make them. -/
theorem length_inner {x : BitVec 32} (hne : x ≠ MQZAO_NONE)
    (hmqi : x &&& MQZAO_ALL_MQI ≠ MQZAO_ALL_MQI)
    (hadmin : x &&& MQZAO_ALL_ADMIN ≠ MQZAO_ALL_ADMIN) :
    (inner x).length = (authWidths.shown x).names.sum := by
  have hunknown : unknownName x = (Table.shown [(notAllFlags, lit "unknown")] x).names := by
    rw [unknownName, BitVec.and_comm, Table.shown, List.filter_singleton]
    split_ifs <;> simp_all [Table.names]
  have hwidths : authWidths = widths (mqiNames ++ ([(MQZAO_CREATE, lit "crt")] ++ (adminNames ++
      ([(MQZAO_SYSTEM, lit "system"), (MQZAO_REMOVE, lit "rem")] ++
        [(notAllFlags, lit "unknown")])))) := by decide
  rw [inner, if_neg hadmin, front, Table.group, if_neg hmqi, back, noneName, if_neg hne, hunknown,
    hwidths, ← width_shown]
  simp only [Table.shown_append, Table.names_append, width_append, length_spaced,
    List.length_append, List.nil_append, Nat.add_assoc]

/-- The length of the text, against that of the buffer. -/
theorem length_oAAuthStr_lt_iff (x : BitVec 32) :
    (OAAuthStr x).1.length < AUTHBUF ↔ TextFits x := by
  rw [length_oAAuthStr, AUTHBUF, TextFits]
  have htotal := sum_shown_add_lacking x
  rw [show authWidths.names.sum = 136 by decide] at htotal
  by_cases hmqi : x &&& MQZAO_ALL_MQI = MQZAO_ALL_MQI
  · have := length_inner_le (.inl hmqi)
    exact iff_of_true (by omega) (.inl hmqi)
  by_cases hadmin : x &&& MQZAO_ALL_ADMIN = MQZAO_ALL_ADMIN
  · have := length_inner_le (.inr hadmin)
    exact iff_of_true (by omega) (.inr (.inl hadmin))
  rw [or_iff_right hmqi, or_iff_right hadmin]
  by_cases hne : x = MQZAO_NONE
  · exact iff_of_true (by rw [hne]; decide) (by rw [hne]; decide)
  · rw [length_inner hne hmqi hadmin]
    omega

/-- **The text and its NUL fit in `AUTHBUF` bytes exactly if a group is complete or the bits that
the mask lacks would take 22 characters.** -/
theorem oAAuthStr_fits_iff (x : BitVec 32) :
    (OAAuthStr x).1.length + 1 ≤ AUTHBUF ↔
      x &&& MQZAO_ALL_MQI = MQZAO_ALL_MQI ∨ x &&& MQZAO_ALL_ADMIN = MQZAO_ALL_ADMIN ∨
        22 ≤ lacking x :=
  length_oAAuthStr_lt_iff x

/-- All authorities with `MQZAO_CREATE`, but not `MQZAO_INPUT` and `MQZAO_DELETE`. -/
theorem oAAuthStr_not_fits : ¬ (OAAuthStr 0x02FD3FFB).1.length + 1 ≤ AUTHBUF := by
  rw [length_oAAuthStr, length_inner (by decide) (by decide) (by decide)]
  decide

end MqExits.Oam.Oamlog
