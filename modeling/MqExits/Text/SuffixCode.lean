import Mathlib.InformationTheory.Coding.UniquelyDecodable
import Mathlib.Data.List.Infix

/-!
# Suffix codes

A code no word of which ends with another can be read back from the right: the last word of a
message is the only word that the message ends with. So a letter code with such words is injective
on messages (`flatMap_injective`).
-/

namespace SuffixCode

open InformationTheory

variable {α β : Type*}

/-- No word ends with another one. -/
def SuffixFree (S : Set (List β)) : Prop :=
  ∀ u ∈ S, ∀ v ∈ S, u <:+ v → u = v

/-- **A suffix code is uniquely decodable**, if it has no empty word. The induction is on the words
of the first message, from the last one on. -/
theorem SuffixFree.uniquelyDecodable {S : Set (List β)} (h : SuffixFree S) (hne : [] ∉ S) :
    UniquelyDecodable S := by
  intro L₁
  induction L₁ using List.reverseRecOn with
  | nil =>
    intro L₂ _ h₂ heq
    rcases L₂ with - | ⟨w, L₂⟩
    · rfl
    · have hw : w = [] := (List.append_eq_nil_iff.1 heq.symm).1
      exact absurd (hw ▸ h₂ w List.mem_cons_self) hne
  | append_singleton L₁ w₁ ih =>
    intro L₂ h₁ h₂ heq
    obtain ⟨hL₁, hw₁⟩ := List.forall_mem_append.1 h₁
    rw [List.forall_mem_singleton] at hw₁
    rcases List.eq_nil_or_concat L₂ with rfl | ⟨L₂, w₂, rfl⟩
    · rw [List.flatten_append, List.flatten_singleton] at heq
      exact absurd ((List.append_eq_nil_iff.1 heq).2 ▸ hw₁) hne
    · rw [List.concat_eq_append] at h₂ heq ⊢
      obtain ⟨hL₂, hw₂⟩ := List.forall_mem_append.1 h₂
      rw [List.forall_mem_singleton] at hw₂
      simp only [List.flatten_append, List.flatten_singleton] at heq
      have hw : w₁ = w₂ := by
        -- Both last words end the same text, so the shorter one is a suffix of the other.
        rcases List.suffix_or_suffix_of_suffix (List.suffix_append _ w₁)
          (heq ▸ List.suffix_append _ w₂) with hsuffix | hsuffix
        · exact h w₁ hw₁ w₂ hw₂ hsuffix
        · exact (h w₂ hw₂ w₁ hw₁ hsuffix).symm
      subst hw
      rw [ih L₂ hL₁ hL₂ (List.append_cancel_right heq)]

/-- **A message can be read back** where different letters have different words. -/
theorem flatMap_injective {f : α → List β} (hf : Function.Injective f)
    (h : SuffixFree (Set.range f)) (hne : ∀ a, f a ≠ []) :
    Function.Injective fun s : List α ↦ s.flatMap f := by
  intro s t heq
  have hwords : ∀ s : List α, ∀ w ∈ s.map f, w ∈ Set.range f := fun s w hw ↦ by
    obtain ⟨a, -, rfl⟩ := List.mem_map.1 hw
    exact Set.mem_range_self a
  have hnil : [] ∉ Set.range f := fun ⟨a, ha⟩ ↦ hne a ha
  exact List.map_injective_iff.2 hf (h.uniquelyDecodable hnil _ _ (hwords s) (hwords t) heq)

end SuffixCode
