import Mathlib.Data.List.Nodup
import Mathlib.Data.List.Perm.Subperm
import Mathlib.Data.List.Range
import Mathlib.Logic.Function.Basic

/-!
# Objects that own others

A store of objects, each with a value that refers to the objects it owns. To release an object is to
release all that it owns as well. `Forest` says what that is for several objects.

Code that builds a tree makes new objects, and has them adopted by others. `Grown` follows it: the
objects made since some state are those of the trees whose roots have not been adopted yet. It has
three rules:

* `Grown.alloc`, a new object is one more root;
* `Grown.adopt`, a root that is adopted by the next one is no root any more;
* `Grown.release`, when there is one root left and it is released, **each object made is released,
  and once**, and all others are as they were.
-/

namespace ObjectTree

variable {α : Type}

/-- Objects under their numbers. Nothing is there from `top` on. -/
structure Store (α : Type) where
  cells : ℕ → Option α
  /-- The number of the next object. -/
  top : ℕ
  fresh : ∀ i, top ≤ i → cells i = none

/-! ### Operations -/

/-- The store without objects. -/
def Store.empty : Store α where
  cells _ := none
  top := 0
  fresh _ _ := rfl

/-- A new object. -/
def Store.alloc (s : Store α) (a : α) : Store α × ℕ :=
  ({ cells := Function.update s.cells s.top (some a)
     top := s.top + 1
     fresh := fun i hi ↦ by
      rw [Function.update_of_ne (by omega)]
      exact s.fresh i (by omega) }, s.top)

/-- Another value for the object `i`. -/
def Store.replace (s : Store α) (i : ℕ) (a : α) : Store α where
  cells := Function.update s.cells i ((s.cells i).map fun _ ↦ a)
  top := s.top
  fresh j hj := by
    rcases eq_or_ne j i with rfl | hne
    · rw [Function.update_self, s.fresh j hj, Option.map_none]
    · rw [Function.update_of_ne hne, s.fresh j hj]

/-- The store without the object `i`. -/
def Store.erase (s : Store α) (i : ℕ) : Store α where
  cells := Function.update s.cells i none
  top := s.top
  fresh j hj := by
    rcases eq_or_ne j i with rfl | hne
    · rw [Function.update_self]
    · rw [Function.update_of_ne hne, s.fresh j hj]

/-- The number of objects that are there. -/
def Store.live (s : Store α) : ℕ :=
  (List.range s.top).countP fun i ↦ (s.cells i).isSome

@[simp] theorem Store.top_alloc (s : Store α) (a : α) : (s.alloc a).1.top = s.top + 1 := rfl

@[simp] theorem Store.alloc_snd (s : Store α) (a : α) : (s.alloc a).2 = s.top := rfl

theorem Store.cells_alloc_self (s : Store α) (a : α) : (s.alloc a).1.cells s.top = some a :=
  Function.update_self ..

theorem Store.cells_alloc_of_lt {s : Store α} {i : ℕ} (hi : i < s.top) (a : α) :
    (s.alloc a).1.cells i = s.cells i :=
  Function.update_of_ne hi.ne ..

theorem Store.cells_replace_self {s : Store α} {i : ℕ} {b : α} (hi : s.cells i = some b) (a : α) :
    (s.replace i a).cells i = some a := by
  show Function.update _ _ _ _ = _
  rw [Function.update_self, hi, Option.map_some]

theorem Store.cells_replace_of_ne {s : Store α} {i j : ℕ} (hne : j ≠ i) (a : α) :
    (s.replace i a).cells j = s.cells j :=
  Function.update_of_ne hne ..

theorem Store.lt_top {s : Store α} {i : ℕ} {a : α} (hi : s.cells i = some a) : i < s.top := by
  by_contra hge
  rw [s.fresh i (not_lt.1 hge)] at hi
  cases hi

/-- One object more is there. -/
theorem Store.live_alloc (s : Store α) (a : α) : (s.alloc a).1.live = s.live + 1 := by
  have hbelow : (List.range s.top).countP (fun i ↦ ((s.alloc a).1.cells i).isSome) = s.live := by
    refine List.countP_congr fun i hi ↦ ?_
    rw [cells_alloc_of_lt (List.mem_range.1 hi)]
  rw [live, top_alloc, List.range_succ, List.countP_append, hbelow, List.countP_singleton,
    cells_alloc_self]
  rfl

/-- Numbers that were given and are free again do not count. -/
theorem Store.live_eq_of_cells {s s' : Store α} (hle : s.top ≤ s'.top)
    (hcells : ∀ i, s'.cells i = s.cells i) : s'.live = s.live := by
  obtain ⟨k, hk⟩ := Nat.exists_eq_add_of_le hle
  have habove : ((List.range k).map (s.top + ·)).countP (fun i ↦ (s.cells i).isSome) = 0 := by
    rw [List.countP_eq_zero]
    intro i hi
    obtain ⟨j, -, rfl⟩ := List.mem_map.1 hi
    rw [s.fresh _ (Nat.le_add_right _ _)]
    exact Bool.false_ne_true
  simp only [live, hcells, hk, List.range_add, List.countP_append, habove, Nat.add_zero]

/-! ### Releasing -/

variable (children : α → List ℕ)

/-- Release objects and all that they own. There is no result for an object that is not there. The
released ones are returned, in order. One unit of fuel is one object. -/
def Store.releaseAll : ℕ → Store α → List ℕ → Option (Store α × List ℕ)
  | _, s, [] => some (s, [])
  | 0, _, _ :: _ => none
  | fuel + 1, s, i :: rest => do
    let a ← s.cells i
    let (s, released) ← releaseAll fuel (s.erase i) (children a ++ rest)
    return (s, i :: released)

/-- Release one object and all that it owns. -/
def Store.release (s : Store α) (i : ℕ) : Option (Store α × List ℕ) :=
  s.releaseAll children s.top [i]

/-- The objects `ids` are `roots`, and all that they own. -/
inductive Forest (s : Store α) : List ℕ → List ℕ → Prop
  | nil : Forest s [] []
  | cons {i : ℕ} {a : α} {rest ids : List ℕ} :
      s.cells i = some a → Forest s (children a ++ rest) ids → Forest s (i :: rest) (i :: ids)

variable {children} {s s' : Store α} {roots ids : List ℕ}

theorem Forest.append {rest ids' : List ℕ} (h : Forest children s roots ids)
    (h' : Forest children s rest ids') : Forest children s (roots ++ rest) (ids ++ ids') := by
  induction h with
  | nil => exact h'
  | cons hi _ ih =>
    rw [List.append_assoc] at ih
    exact ih.cons hi

/-- The trees of two lists of roots. -/
theorem Forest.of_append {rest : List ℕ} (h : Forest children s (roots ++ rest) ids) :
    ∃ u v, ids = u ++ v ∧ Forest children s roots u ∧ Forest children s rest v := by
  generalize hroots : roots ++ rest = all at h
  induction h generalizing roots with
  | nil =>
    obtain ⟨rfl, rfl⟩ := List.append_eq_nil_iff.1 hroots
    exact ⟨[], [], rfl, .nil, .nil⟩
  | @cons i a rest' ids hi h ih =>
    rcases roots with - | ⟨j, roots⟩
    · obtain rfl : rest = i :: rest' := hroots
      exact ⟨[], i :: ids, rfl, .nil, h.cons hi⟩
    · obtain ⟨rfl, rfl⟩ := List.cons.inj hroots
      have hkids : children a ++ roots ++ rest = children a ++ (roots ++ rest) :=
        List.append_assoc ..
      obtain ⟨u, v, rfl, hu, hv⟩ := ih hkids
      exact ⟨j :: u, v, rfl, hu.cons hi, hv⟩

/-- A forest depends on its own objects only. -/
theorem Forest.congr (h : Forest children s roots ids)
    (hcells : ∀ i ∈ ids, s'.cells i = s.cells i) : Forest children s' roots ids := by
  induction h with
  | nil => exact .nil
  | cons hi _ ih =>
    refine .cons ((hcells _ List.mem_cons_self).trans hi) (ih fun j hj ↦ ?_)
    exact hcells j (List.mem_cons_of_mem _ hj)

theorem Forest.lt_top (h : Forest children s roots ids) {i : ℕ} (hi : i ∈ ids) : i < s.top := by
  induction h with
  | nil => cases hi
  | cons hj _ ih =>
    rcases List.mem_cons.1 hi with rfl | hi
    · exact Store.lt_top hj
    · exact ih hi

/-- **Releasing a forest** releases each of its objects once, and none besides. -/
theorem Forest.releaseAll (h : Forest children s roots ids) (hnodup : ids.Nodup) {fuel : ℕ}
    (hfuel : ids.length ≤ fuel) :
    ∃ s', s.releaseAll children fuel roots = some (s', ids) ∧ s'.top = s.top ∧
      (∀ i ∈ ids, s'.cells i = none) ∧ ∀ i, i ∉ ids → s'.cells i = s.cells i := by
  induction fuel generalizing s roots ids with
  | zero =>
    obtain rfl : ids = [] := List.eq_nil_of_length_eq_zero (Nat.le_zero.1 hfuel)
    rcases h with - | -
    exact ⟨s, rfl, rfl, fun i hi ↦ (by cases hi), fun i _ ↦ rfl⟩
  | succ fuel ih =>
    rcases h with - | @⟨i, a, rest, ids, hi, h⟩
    · exact ⟨s, rfl, rfl, fun i hi ↦ (by cases hi), fun i _ ↦ rfl⟩
    · -- The first root is released, and its children come before the other roots.
      obtain ⟨hnot, hnodup⟩ := List.nodup_cons.1 hnodup
      have hother : ∀ j, j ≠ i → (s.erase i).cells j = s.cells j := fun j hne ↦
        Function.update_of_ne hne ..
      have hself : (s.erase i).cells i = none := Function.update_self ..
      -- No other object of the forest is this one, so the forest of the rest is as it was.
      have herase : Forest children (s.erase i) (children a ++ rest) ids :=
        h.congr fun j hj ↦ hother j (ne_of_mem_of_not_mem hj hnot)
      obtain ⟨s', hs', htop, hgone, hkept⟩ := ih herase hnodup (Nat.le_of_succ_le_succ hfuel)
      refine ⟨s', ?_, htop, ?_, ?_⟩
      · rw [Store.releaseAll, hi]
        simp only [Option.bind_eq_bind, Option.bind_some, hs']
        rfl
      · intro j hj
        rcases List.mem_cons.1 hj with rfl | hj
        · rw [hkept j hnot, hself]
        · exact hgone j hj
      · intro j hj
        rw [List.mem_cons, not_or] at hj
        rw [hkept j hj.2, hother j hj.1]

/-! ### Building -/

/-- The objects made since `s₀` are the trees of the roots, and the others are as they were. -/
structure Grown (children : α → List ℕ) (s₀ s : Store α) (roots : List ℕ) : Prop where
  le_top : s₀.top ≤ s.top
  below : ∀ i < s₀.top, s.cells i = s₀.cells i
  trees : ∃ ids, Forest children s roots ids ∧ ids.Perm (List.range' s₀.top (s.top - s₀.top))

variable {s₀ : Store α}

theorem Grown.refl (s : Store α) : Grown children s s [] :=
  ⟨le_rfl, fun _ _ ↦ rfl, [], .nil, by rw [Nat.sub_self]; exact .nil⟩

/-- **A new object**. -/
theorem Grown.alloc (h : Grown children s₀ s roots) {a : α} (ha : children a = []) :
    Grown children s₀ (s.alloc a).1 (s.top :: roots) := by
  obtain ⟨ids, hforest, hids⟩ := h.trees
  refine ⟨h.le_top.trans (Nat.le_succ _), fun i hi ↦ ?_, s.top :: ids, ?_, ?_⟩
  · rw [Store.cells_alloc_of_lt (hi.trans_le h.le_top), h.below i hi]
  · refine .cons (s.cells_alloc_self a) ?_
    rw [ha, List.nil_append]
    exact hforest.congr fun i hi ↦ Store.cells_alloc_of_lt (hforest.lt_top hi) a
  · have hlast : s₀.top + (s.top - s₀.top) = s.top := Nat.add_sub_of_le h.le_top
    rw [Store.top_alloc, Nat.succ_sub h.le_top, List.range'_1_concat, hlast]
    exact (hids.cons _).trans (List.perm_append_singleton _ _).symm

/-- **A root that is adopted**. -/
theorem Grown.adopt {c p : ℕ} {a b : α} (h : Grown children s₀ s (c :: p :: roots))
    (hp : s.cells p = some a) (hb : children b = children a ++ [c]) :
    Grown children s₀ (s.replace p b) (p :: roots) := by
  obtain ⟨ids, hforest, hids⟩ := h.trees
  have hnodup : ids.Nodup := hids.nodup_iff.2 List.nodup_range'
  rw [← List.singleton_append] at hforest
  -- The trees: `u` is that of `c`, then `p` with the trees `kids` below it, then `w`.
  obtain ⟨u, v, rfl, hc, hrest⟩ := hforest.of_append
  rcases hrest with - | @⟨_, a', _, v, hp', hrest⟩
  obtain rfl : a' = a := Option.some.inj (hp'.symm.trans hp)
  obtain ⟨kids, w, rfl, hkids, hw⟩ := hrest.of_append
  obtain ⟨hpu, hpv⟩ : p ∉ u ∧ p ∉ kids ++ w := by
    rw [List.nodup_append] at hnodup
    exact ⟨fun hu ↦ hnodup.2.2 p hu p List.mem_cons_self rfl, (List.nodup_cons.1 hnodup.2.1).1⟩
  -- The tree of `c` moves below `p`, behind the children that are there.
  have hperm : (p :: (kids ++ u ++ w)).Perm (u ++ p :: (kids ++ w)) := by
    have hswap : (kids ++ u ++ w).Perm (u ++ (kids ++ w)) := by
      rw [← List.append_assoc]
      exact (List.perm_append_comm).append_right w
    exact (hswap.cons p).trans List.perm_middle.symm
  have hge : s₀.top ≤ p := (List.mem_range'_1.1 (hids.subset (by simp))).1
  refine ⟨h.le_top, fun i hi ↦ ?_, p :: (kids ++ u ++ w), ?_, hperm.trans hids⟩
  · rw [Store.cells_replace_of_ne (hi.trans_le hge).ne, h.below i hi]
  · -- Only the cell of `p` is written, and `p` is in none of the three parts.
    refine .cons (Store.cells_replace_self hp b) ?_
    rw [hb]
    refine ((hkids.append hc).append hw).congr fun i hi ↦ Store.cells_replace_of_ne ?_ b
    rintro rfl
    simp only [List.mem_append] at hi hpv
    tauto

/-- All objects made between two states have been released, each once. -/
structure Cleared (s s' : Store α) (released : List ℕ) : Prop where
  le_top : s.top ≤ s'.top
  cells : ∀ i, s'.cells i = s.cells i
  once : released.Perm (List.range' s.top (s'.top - s.top))

/-- **The last root**. -/
theorem Grown.release {i : ℕ} (h : Grown children s₀ s [i]) :
    ∃ s' released, s.release children i = some (s', released) ∧ Cleared s₀ s' released := by
  obtain ⟨ids, hforest, hids⟩ := h.trees
  have hfuel : ids.length ≤ s.top := by
    rw [hids.length_eq, List.length_range']
    exact Nat.sub_le _ _
  obtain ⟨s', hs', htop, hgone, hkept⟩ :=
    hforest.releaseAll (hids.nodup_iff.2 List.nodup_range') hfuel
  refine ⟨s', ids, hs', htop ▸ h.le_top, fun j ↦ ?_, htop ▸ hids⟩
  by_cases hj : j ∈ ids
  · have hmade := List.mem_range'_1.1 (hids.subset hj)
    rw [hgone j hj, s₀.fresh j hmade.1]
  · rw [hkept j hj]
    rcases Nat.lt_or_ge j s₀.top with hlt | hge
    · exact h.below j hlt
    · -- neither made nor there before
      have hout : s.top ≤ j := by
        by_contra hlt
        exact hj (hids.mem_iff.2 (List.mem_range'_1.2 ⟨hge, by omega⟩))
      rw [s.fresh j hout, s₀.fresh j hge]

theorem Cleared.live {released : List ℕ} (h : Cleared s s' released) : s'.live = s.live :=
  Store.live_eq_of_cells h.le_top h.cells

theorem Cleared.count {released : List ℕ} (h : Cleared s s' released) (i : ℕ) :
    released.count i = if s.top ≤ i ∧ i < s'.top then 1 else 0 := by
  have hend : s.top + (s'.top - s.top) = s'.top := Nat.add_sub_of_le h.le_top
  rw [h.once.count_eq, List.Nodup.count List.nodup_range']
  simp only [List.mem_range'_1, hend]

end ObjectTree
