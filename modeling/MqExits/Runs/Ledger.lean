import Mathlib.Logic.Function.Basic
import Mathlib.Order.Nat
import MqExits.Runs.Machine

/-!
# Ledgers of resources

What code does with the resources it acquires and releases (memory, descriptors, locks), as the list
of the operations, oldest first. A resource is **held** when the latest operation on it acquired it.
A ledger is **disciplined** when each release is of a resource held then: nothing is released that
was not acquired, and nothing twice without being acquired again in between.

Both are computed by appending one operation at a time, which is how the ledger of a run grows.

Where resources are numbered as they are acquired and each belongs to one party, `Owned` says what
becomes of them: one that a party still has was never released, and any other was released **once**.
-/

namespace Ledger

/-- An operation on the resources `α`. -/
inductive Op (α : Type*)
  | acquire (a : α)
  | release (a : α)
  deriving DecidableEq

variable {α : Type*} [DecidableEq α]

/-- Whether an operation on `a` leaves it held; `none` for an operation on another resource. -/
def Op.about (a : α) : Op α → Option Bool
  | .acquire b => if b = a then some true else none
  | .release b => if b = a then some false else none

/-- Acquired, and not released since. -/
def Held (l : List (Op α)) (a : α) : Prop :=
  Machine.latest (Op.about a) l = some true

@[simp] theorem not_held_nil (a : α) : ¬ Held [] a := by
  rw [Held, Machine.latest_nil]
  exact Option.some_ne_none true ∘ Eq.symm

@[simp] theorem held_append_acquire {l : List (Op α)} {a b : α} :
    Held (l ++ [.acquire b]) a ↔ b = a ∨ Held l a := by
  rw [Held, Machine.latest_append_singleton, Op.about]
  split_ifs with h
  · simp [h]
  · simp [h, Held]

@[simp] theorem held_append_release {l : List (Op α)} {a b : α} :
    Held (l ++ [.release b]) a ↔ b ≠ a ∧ Held l a := by
  rw [Held, Machine.latest_append_singleton, Op.about]
  split_ifs with h
  · simp [h]
  · simp [h, Held]

/-- What was acquired and never released is held. -/
theorem held_of_mem {l : List (Op α)} {a : α} (hacq : .acquire a ∈ l) (hrel : .release a ∉ l) :
    Held l a := by
  induction l using List.reverseRecOn with
  | nil => cases hacq
  | append_singleton l op ih =>
    have hrel' : .release a ∉ l := fun h ↦ hrel (List.mem_append_left _ h)
    cases op with
    | acquire b =>
      rw [held_append_acquire]
      rcases List.mem_append.1 hacq with h | h
      · exact Or.inr (ih h hrel')
      · exact Or.inl (Op.acquire.inj (List.mem_singleton.1 h)).symm
    | release b =>
      have hne : b ≠ a := fun h ↦ hrel (List.mem_append_right _ (List.mem_singleton.2 (h ▸ rfl)))
      rcases List.mem_append.1 hacq with h | h
      · exact held_append_release.2 ⟨hne, ih h hrel'⟩
      · cases List.mem_singleton.1 h

/-- Every release is of a resource that is held. -/
def Disciplined (l : List (Op α)) : Prop :=
  ∀ before a after, l = before ++ .release a :: after → Held before a

@[simp] theorem disciplined_nil : Disciplined ([] : List (Op α)) := by
  intro before a after h
  simp at h

/-- A ledger is disciplined when what came before the last operation is, and that operation, if a
release, is of a resource held. -/
theorem disciplined_append_singleton {l : List (Op α)} {op : Op α} :
    Disciplined (l ++ [op]) ↔ Disciplined l ∧ ∀ a, op = .release a → Held l a := by
  constructor
  · intro h
    refine ⟨fun before a after heq ↦ h before a (after ++ [op]) ?_, fun a ha ↦ h l a [] ?_⟩
    · rw [heq, List.append_assoc, List.cons_append]
    · rw [ha]
  · rintro ⟨hl, hop⟩ before a after heq
    rcases List.eq_nil_or_concat after with rfl | ⟨after', op', rfl⟩
    · obtain ⟨rfl, hlast⟩ := List.append_inj' heq rfl
      exact hop a (List.singleton_inj.1 hlast)
    · rw [List.concat_eq_append, ← List.cons_append, ← List.append_assoc] at heq
      exact hl before a after' (List.append_inj' heq rfl).1

@[simp] theorem disciplined_append_acquire {l : List (Op α)} {a : α} :
    Disciplined (l ++ [.acquire a]) ↔ Disciplined l := by
  rw [disciplined_append_singleton]
  exact and_iff_left fun b h ↦ by cases h

@[simp] theorem disciplined_append_release {l : List (Op α)} {a : α} :
    Disciplined (l ++ [.release a]) ↔ Disciplined l ∧ Held l a := by
  rw [disciplined_append_singleton]
  refine and_congr_right fun _ ↦ ⟨fun h ↦ h a rfl, fun h b hb ↦ ?_⟩
  obtain rfl := Op.release.inj hb
  exact h

/-! ### One owner for each -/

variable {τ : Type*} [DecidableEq τ]

/-- The resources below `next` have been acquired, in that order. Each belongs to at most one party,
and has been released exactly once when it belongs to none. -/
structure Owned (own : τ → Option ℕ) (next : ℕ) (l : List (Op ℕ)) : Prop where
  below : ∀ {t a}, own t = some a → a < next
  unshared : ∀ {t t' a}, own t = some a → own t' = some a → t = t'
  acquired : ∀ a, l.count (.acquire a) = if a < next then 1 else 0
  kept : ∀ {t a}, own t = some a → l.count (.release a) = 0
  released : ∀ a < next, (∀ t, own t ≠ some a) → l.count (.release a) = 1
  unused : ∀ a, next ≤ a → l.count (.release a) = 0

omit [DecidableEq τ] in
/-- Nothing has been acquired. -/
theorem Owned.nil : Owned (fun _ : τ ↦ none) 0 [] where
  below h := by cases h
  unshared h := by cases h
  acquired _ := rfl
  kept h := by cases h
  released a ha := absurd ha (Nat.not_lt_zero a)
  unused _ _ := rfl

/-- A party that owns nothing acquires the next resource. -/
theorem Owned.acquire {own : τ → Option ℕ} {next : ℕ} {l : List (Op ℕ)} (h : Owned own next l)
    {t : τ} (ht : own t = none) :
    Owned (Function.update own t (some next)) (next + 1) (l ++ [.acquire next]) where
  below {t' a} ha := by
    rcases eq_or_ne t' t with rfl | hne
    · rw [Function.update_self] at ha
      have := Option.some.inj ha
      omega
    · rw [Function.update_of_ne hne] at ha
      have := h.below ha
      omega
  unshared {t₁ t₂ a} h₁ h₂ := by
    -- What a party owned before is older than the new resource.
    have hself : ∀ {t'}, own t' = some a → a ≠ next := fun h' hn ↦
      absurd (h.below h') (by omega)
    rcases eq_or_ne t t₁ with rfl | hne₁ <;> rcases eq_or_ne t t₂ with rfl | hne₂
    · rfl
    · rw [Function.update_self] at h₁
      rw [Function.update_of_ne hne₂.symm] at h₂
      exact absurd (Option.some.inj h₁).symm (hself h₂)
    · rw [Function.update_self] at h₂
      rw [Function.update_of_ne hne₁.symm] at h₁
      exact absurd (Option.some.inj h₂).symm (hself h₁)
    · rw [Function.update_of_ne hne₁.symm] at h₁
      rw [Function.update_of_ne hne₂.symm] at h₂
      exact h.unshared h₁ h₂
  acquired a := by
    rw [List.count_append, h.acquired, List.count_singleton]
    -- Resources below `next` are acquired already, this one now, and the others not yet.
    rcases lt_trichotomy a next with hlt | rfl | hgt
    · simp [hlt, Nat.lt_succ_of_lt hlt, hlt.ne']
    · simp
    · simp [hgt.not_gt, hgt.ne, show ¬ a < next + 1 by omega]
  kept {t' a} ha := by
    rw [List.count_append, List.count_singleton]
    rcases eq_or_ne t' t with rfl | hne
    · rw [Function.update_self] at ha
      simp [h.unused a (le_of_eq (Option.some.inj ha))]
    · rw [Function.update_of_ne hne] at ha
      simp [h.kept ha]
  released a ha hno := by
    -- The new resource has an owner, so one without an owner is older, and had none before.
    have hne : a ≠ next := by
      rintro rfl
      exact hno t (Function.update_self _ _ _)
    rw [List.count_append, List.count_singleton]
    refine (congrArg (· + _) (h.released a (by omega) fun t' ht' ↦ ?_)).trans (by simp)
    have hne' : t' ≠ t := by
      rintro rfl
      rw [ht] at ht'
      cases ht'
    exact hno t' ((Function.update_of_ne hne' _ _).trans ht')
  unused a ha := by
    rw [List.count_append, List.count_singleton]
    simp [h.unused a (by omega)]

/-- A party releases what it owns. -/
theorem Owned.release {own : τ → Option ℕ} {next : ℕ} {l : List (Op ℕ)} (h : Owned own next l)
    {t : τ} {a : ℕ} (ht : own t = some a) :
    Owned (Function.update own t none) next (l ++ [.release a]) := by
  -- The other parties own what they owned.
  have hsub : ∀ {t' b}, Function.update own t none t' = some b → t' ≠ t ∧ own t' = some b := by
    intro t' b hb
    rcases eq_or_ne t' t with rfl | hne
    · rw [Function.update_self] at hb
      cases hb
    · exact ⟨hne, by rwa [Function.update_of_ne hne] at hb⟩
  -- The new operation counts for this resource only.
  have hcount : ∀ b, (l ++ [Op.release a]).count (Op.release b) =
      l.count (Op.release b) + if a = b then 1 else 0 := fun b ↦ by
    rw [List.count_append, List.count_singleton]
    simp
  refine ⟨fun hb ↦ h.below (hsub hb).2, fun h₁ h₂ ↦ h.unshared (hsub h₁).2 (hsub h₂).2,
    fun b ↦ ?_, fun {t' b} hb ↦ ?_, fun b hb hno ↦ ?_, fun b hb ↦ ?_⟩
  · rw [List.count_append, h.acquired, List.count_singleton]
    simp
  · obtain ⟨hne, hb⟩ := hsub hb
    have hab : a ≠ b := by
      rintro rfl
      exact hne (h.unshared hb ht)
    rw [hcount, h.kept hb, if_neg hab]
  · rw [hcount]
    rcases eq_or_ne a b with rfl | hab
    · -- This resource: its owner had not released it, and now it has.
      rw [h.kept ht, if_pos rfl]
    · rw [if_neg hab, h.released b hb fun t' ht' ↦ ?_]
      have hne : t' ≠ t := by
        rintro rfl
        exact hab (Option.some.inj (ht.symm.trans ht'))
      exact hno t' ((Function.update_of_ne hne _ _).trans ht')
  · have hab : a ≠ b := fun hab ↦ absurd (h.below ht) (by omega)
    rw [hcount, h.unused b hb, if_neg hab]

omit [DecidableEq τ] in
/-- What a party owns is held. -/
theorem Owned.held {own : τ → Option ℕ} {next : ℕ} {l : List (Op ℕ)} (h : Owned own next l) {t : τ}
    {a : ℕ} (ht : own t = some a) : Held l a := by
  have hacq : l.count (.acquire a) = 1 := (h.acquired a).trans (if_pos (h.below ht))
  exact held_of_mem (List.count_pos_iff.1 (by omega)) (List.count_eq_zero.1 (h.kept ht))

end Ledger
