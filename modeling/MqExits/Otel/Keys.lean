import MqExits.Otel.State
import Mathlib.Data.List.Basic

/-!
# What a key says

A key is the decimal text of the connection, a slash, and the decimal text of the object or a star.
No decimal text holds a slash, so the first slash separates the two parts and the key determines
both (`objectKey_inj`); and the parts before the slash tell the connections apart even where one
decimal text starts with another, such as `1/` and `11/` (`belongsTo_objectKey`).
-/

namespace MqExits.Otel

open CText

/-- No object is given, or one that cannot be used. -/
def NoObject (ho : Option MQHOBJ) : Prop :=
  ho = none ∨ ho = some MQHO_UNUSABLE_HOBJ

/-- What the keys of a connection start with. -/
def keyStart (hc : MQHCONN) : Bytes :=
  toDecimal hc ++ lit "/"

/-- The key is one of the connection's. -/
def BelongsTo (key : Bytes) (hc : MQHCONN) : Prop :=
  keyStart hc <+: key

instance (key : Bytes) (hc : MQHCONN) : Decidable (BelongsTo key hc) :=
  inferInstanceAs (Decidable (_ <+: _))

/-- The part of a key after the slash. -/
def objectText (ho : Option MQHOBJ) : Bytes :=
  match ho with
  | none => lit "*"
  | some o => if o = MQHO_UNUSABLE_HOBJ then lit "*" else toDecimal o

theorem objectKey_eq (hc : MQHCONN) (ho : Option MQHOBJ) :
    objectKey hc ho = toDecimal hc ++ 47 :: objectText ho := by
  rcases ho with - | o
  · rfl
  · rw [objectKey, objectText]
    split_ifs
    · rfl
    · rw [List.append_assoc]
      rfl

theorem slash_notMem_toDecimal (i : ℤ) : 47 ∉ toDecimal i :=
  fun h ↦ toDecimal_ne_slash h rfl

theorem slash_notMem_objectText (ho : Option MQHOBJ) : 47 ∉ objectText ho := by
  rcases ho with - | o
  · decide
  · rw [objectText]
    split_ifs
    · decide
    · exact slash_notMem_toDecimal o

/-- The object's part is a star exactly where there is no object. -/
theorem objectText_eq_star {ho : Option MQHOBJ} : objectText ho = lit "*" ↔ NoObject ho := by
  rcases ho with - | o
  · exact iff_of_true rfl (Or.inl rfl)
  · have hne : toDecimal o ≠ lit "*" := by
      intro h
      have hstar : (42 : UInt8) ∈ toDecimal o := by
        rw [h]
        decide
      rw [toDecimal_eq] at hstar
      split_ifs at hstar
      · rcases List.mem_cons.1 hstar with h' | h'
        · exact absurd h' (by decide)
        · exact absurd (mem_digitBytes h').1 (by decide)
      · exact absurd (mem_digitBytes hstar).1 (by decide)
    simp only [objectText, NoObject, reduceCtorEq, Option.some.injEq, false_or]
    split_ifs with h
    · exact iff_of_true rfl h
    · exact iff_of_false hne h

/-- Two parts are equal exactly where the objects are, or where there is none. -/
theorem objectText_inj {ho ho' : Option MQHOBJ} :
    objectText ho = objectText ho' ↔ ho = ho' ∨ NoObject ho ∧ NoObject ho' := by
  constructor
  · intro h
    by_cases hno : NoObject ho
    · exact Or.inr ⟨hno, objectText_eq_star.1 (h ▸ objectText_eq_star.2 hno)⟩
    · have hno' : ¬ NoObject ho' := fun hno' ↦
        hno (objectText_eq_star.1 (h.trans (objectText_eq_star.2 hno')))
      have htext : ∀ {o : Option MQHOBJ}, ¬ NoObject o → ∃ i, o = some i ∧
          objectText o = toDecimal i := by
        intro o ho
        rcases o with - | i
        · exact absurd (Or.inl rfl) ho
        · exact ⟨i, rfl, if_neg fun hi ↦ ho (Or.inr (congrArg some hi))⟩
      obtain ⟨i, rfl, hi⟩ := htext hno
      obtain ⟨j, rfl, hj⟩ := htext hno'
      rw [hi, hj] at h
      exact Or.inl (congrArg some (toDecimal_injective h))
  · rintro (rfl | ⟨h, h'⟩)
    · rfl
    · rw [objectText_eq_star.2 h, objectText_eq_star.2 h']

/-- **A key determines the connection and the object.** -/
theorem objectKey_inj {hc hc' : MQHCONN} {ho ho' : Option MQHOBJ} :
    objectKey hc ho = objectKey hc' ho' ↔
      hc = hc' ∧ (ho = ho' ∨ NoObject ho ∧ NoObject ho') := by
  rw [objectKey_eq, objectKey_eq, List.append_cons_inj_of_notMem (slash_notMem_toDecimal hc)
    (slash_notMem_objectText ho), toDecimal_injective.eq_iff, objectText_inj]
  exact and_congr_right fun _ ↦ and_iff_right rfl

/-- **A key starts with a connection exactly when it was made from it.** -/
theorem belongsTo_objectKey {hc hc' : MQHCONN} {ho : Option MQHOBJ} :
    BelongsTo (objectKey hc' ho) hc ↔ hc' = hc := by
  constructor
  · rintro ⟨rest, h⟩
    rw [keyStart, List.append_assoc, objectKey_eq] at h
    have h' : toDecimal hc' ++ 47 :: objectText ho = toDecimal hc ++ 47 :: rest := h.symm
    rw [List.append_cons_inj_of_notMem (slash_notMem_toDecimal hc') (slash_notMem_objectText ho)]
      at h'
    exact toDecimal_injective h'.1
  · rintro rfl
    refine ⟨objectText ho, ?_⟩
    rw [keyStart, List.append_assoc, objectKey_eq]
    rfl

/-- A key is one connection's. -/
theorem BelongsTo.unique {key : Bytes} {hc hc' : MQHCONN} (h : BelongsTo key hc)
    (h' : BelongsTo key hc') : hc = hc' := by
  -- of the two beginnings one starts with the other, and a beginning ends with its only slash
  have hle : ∀ {i j : MQHCONN}, keyStart i <+: keyStart j → i = j := by
    rintro i j ⟨rest, hrest⟩
    rw [keyStart, keyStart, List.append_assoc] at hrest
    have heq : toDecimal j ++ 47 :: [] = toDecimal i ++ 47 :: rest := hrest.symm
    rw [List.append_cons_inj_of_notMem (slash_notMem_toDecimal j) (List.not_mem_nil)] at heq
    exact (toDecimal_injective heq.1).symm
  rcases List.prefix_or_prefix_of_prefix h h' with hpre | hpre
  · exact hle hpre
  · exact (hle hpre).symm

example : ¬ BelongsTo (objectKey 11 (some 3)) 1 := by decide

end MqExits.Otel
