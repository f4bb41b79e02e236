import Mathlib.Data.List.Infix

/-!
# Cutting a list at a delimiter

A list is cut at the first occurrence of a delimiter, and what comes behind that is cut in the same
way: an occurrence that overlaps the one before does not count. The pieces may be empty.
-/

namespace CText

variable {α : Type*}

/-- The pieces of a list. -/
inductive Cuts (delim : List α) : List α → List (List α) → Prop
  | last {s : List α} : ¬ delim <:+: s → Cuts delim s [s]
  | cut {u v : List α} {pieces : List (List α)} :
      (∀ k < u.length, ¬ delim <+: (u ++ (delim ++ v)).drop k) → Cuts delim v pieces →
      Cuts delim (u ++ (delim ++ v)) (u :: pieces)

/-- There is one first occurrence. -/
theorem eq_of_first {delim u v u' v' : List α} (heq : u ++ (delim ++ v) = u' ++ (delim ++ v'))
    (h : ∀ k < u.length, ¬ delim <+: (u ++ (delim ++ v)).drop k)
    (h' : ∀ k < u'.length, ¬ delim <+: (u' ++ (delim ++ v')).drop k) : u = u' ∧ v = v' := by
  have hlen : u.length = u'.length := by
    rcases Nat.lt_trichotomy u.length u'.length with hlt | hlen | hlt
    · refine absurd ?_ (h' _ hlt)
      rw [← heq, List.drop_left]
      exact List.prefix_append ..
    · exact hlen
    · refine absurd ?_ (h _ hlt)
      rw [heq, List.drop_left]
      exact List.prefix_append ..
  obtain ⟨hu, hrest⟩ := List.append_inj heq hlen
  exact ⟨hu, List.append_cancel_left hrest⟩

/-- **The pieces are determined** by the list and the delimiter. -/
theorem Cuts.unique {delim s : List α} {pieces pieces' : List (List α)} (h : Cuts delim s pieces)
    (h' : Cuts delim s pieces') : pieces = pieces' := by
  induction h generalizing pieces' with
  | last hno =>
    rcases h' with - | ⟨-, -⟩
    · rfl
    · exact absurd ⟨_, _, List.append_assoc ..⟩ hno
  | @cut u v pieces hfirst _ ih =>
    generalize hs : u ++ (delim ++ v) = s at h'
    rcases h' with hno | @⟨u', v', pieces', hfirst', hrest⟩
    · exact absurd ⟨u, v, (List.append_assoc ..).trans hs⟩ hno
    · obtain ⟨rfl, rfl⟩ := eq_of_first hs hfirst hfirst'
      rw [ih hrest]

/-- A delimiter of one element **cuts at the places where pieces without it were joined**. -/
theorem cuts_intercalate {c : α} {pieces : List (List α)} (hne : pieces ≠ [])
    (h : ∀ piece ∈ pieces, c ∉ piece) : Cuts [c] ([c].intercalate pieces) pieces := by
  induction pieces with
  | nil => exact absurd rfl hne
  | cons piece pieces ih =>
    obtain ⟨hc, hrest⟩ := List.forall_mem_cons.1 h
    rcases pieces with - | ⟨piece', pieces⟩
    · rw [List.intercalate_singleton]
      exact .last fun hin ↦ hc (hin.subset (List.mem_singleton_self c))
    · rw [List.intercalate_cons_cons, List.append_assoc]
      refine .cut (fun k hk hpre ↦ hc ?_) (ih (List.cons_ne_nil _ _) hrest)
      -- what is at `k` is in the piece
      rw [List.drop_append_of_le_length hk.le] at hpre
      obtain ⟨d, t, hd⟩ := List.exists_cons_of_ne_nil (mt List.drop_eq_nil_iff.1 (not_le.2 hk))
      rw [hd, List.cons_append, List.singleton_prefix_cons_iff] at hpre
      have hmem : c ∈ piece.drop k := by
        rw [hd, hpre]
        exact List.mem_cons_self
      exact List.mem_of_mem_drop hmem

end CText
