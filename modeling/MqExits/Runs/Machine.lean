import Mathlib.Data.List.Induction
import Mathlib.Tactic.TypeStar

/-!
# Machines and their runs

A machine is a partial step function: from a state and an input it produces the next state and an
output, or it has no step (`none`: the input is not enabled, or the step ends the process). A
**run** from a state is the list of its steps, each recorded with the state it was taken in, so a
property of a run can speak of inputs, outputs and states alike, and of what came before a step.

The induction over runs is done once, here. A consumer supplies an invariant of the history and the
state, shows that one step preserves it, and reads off

* `Run.invariant`, what holds of every state reached;
* `Run.forall_split`, what holds of every step, given the history before it;
* `Run.forall_mem_iff`, that two properties which agree at each step hold of the same runs,
* `Run.invariant_of_forall`, what holds at the end of a run whose steps all meet a condition,
* `Run.always_of_forall`, what holds after every step, if each step meets a condition under which
  it keeps it, and `Run.forall_split_of_forall`, what holds of every step then,
* `Run.forall_split_congr`, that two properties hold of the same runs which agree as long as they
  keep an invariant;
* `exists_run`, that inputs which are all enabled when they come have a run,
* `Run.simulates`, that a machine whose steps are steps of another one has only runs of that one,
* `Run.always_iff`, that a property lasts through a run exactly when each step meets the condition
  under which it keeps it.

`replay` computes a run from its inputs; `run_getD_replay` says that it is one.
-/

/-- A machine with inputs `ι` and outputs `ω`. -/
structure Machine (σ ι ω : Type*) where
  /-- The step on an input; `none` when there is none. -/
  step : σ → ι → Option (σ × ω)

namespace Machine

variable {σ ι ω : Type*}

/-- One step of a run. -/
structure Event (σ ι ω : Type*) where
  /-- The state before the step. -/
  pre : σ
  input : ι
  output : ω
  /-- The state after the step. -/
  post : σ

variable (M : Machine σ ι ω)

/-- The runs from `s₀`: the steps taken, oldest first, and the state reached. -/
inductive Run (s₀ : σ) : List (Event σ ι ω) → σ → Prop
  | nil : Run s₀ [] s₀
  | snoc {tr : List (Event σ ι ω)} {s s' : σ} {i : ι} {o : ω} :
      Run s₀ tr s → M.step s i = some (s', o) → Run s₀ (tr ++ [⟨s, i, o, s'⟩]) s'

/-- The run of a machine on a list of inputs. -/
def replay : σ → List ι → Option (List (Event σ ι ω) × σ)
  | s, [] => some ([], s)
  | s, i :: is =>
    match M.step s i with
    | none => none
    | some (s', o) => (replay s' is).map fun r ↦ (⟨s, i, o, s'⟩ :: r.1, r.2)

variable {M} {s₀ : σ}

/-! ### The run rules -/

/-- The steps of a longer run are those of the shorter one and the last. -/
theorem forall_split_append_singleton {α : Type*} {tr : List α} {e : α}
    {P : List α → α → Prop} :
    (∀ before e' after, tr ++ [e] = before ++ e' :: after → P before e') ↔
      (∀ before e' after, tr = before ++ e' :: after → P before e') ∧ P tr e := by
  constructor
  · intro h
    refine ⟨fun before e' after heq ↦ h before e' (after ++ [e]) ?_, h tr e [] rfl⟩
    rw [heq, List.append_assoc, List.cons_append]
  · rintro ⟨htr, he⟩ before e' after heq
    rcases List.eq_nil_or_concat after with rfl | ⟨after', e'', rfl⟩
    · obtain ⟨rfl, hlast⟩ := List.append_inj' heq rfl
      rwa [← List.singleton_inj.1 hlast]
    · rw [List.concat_eq_append, ← List.cons_append, ← List.append_assoc] at heq
      exact htr before e' after' (List.append_inj' heq rfl).1

/-- **The invariant rule**: what holds at the start and is preserved by each step, of the history
and the state together, holds of every run. -/
theorem Run.invariant {I : List (Event σ ι ω) → σ → Prop} (hnil : I [] s₀)
    (hsnoc : ∀ tr s i s' o, I tr s → M.step s i = some (s', o) → I (tr ++ [⟨s, i, o, s'⟩]) s')
    {tr : List (Event σ ι ω)} {s : σ} (h : M.Run s₀ tr s) : I tr s := by
  induction h with
  | nil => exact hnil
  | snoc _ hs ih => exact hsnoc _ _ _ _ _ ih hs

/-- **The step rule**: what an invariant gives at each step holds of every step of every run, with
the history before that step. -/
theorem Run.forall_split {I : List (Event σ ι ω) → σ → Prop} (hnil : I [] s₀)
    (hsnoc : ∀ tr s i s' o, I tr s → M.step s i = some (s', o) → I (tr ++ [⟨s, i, o, s'⟩]) s')
    {P : List (Event σ ι ω) → Event σ ι ω → Prop}
    (hP : ∀ tr s i s' o, I tr s → M.step s i = some (s', o) → P tr ⟨s, i, o, s'⟩)
    {tr : List (Event σ ι ω)} {s : σ} (h : M.Run s₀ tr s) :
    ∀ before e after, tr = before ++ e :: after → P before e := by
  induction h with
  | nil => intro before e after h; simp at h
  | snoc hrun hs ih =>
    exact forall_split_append_singleton.2 ⟨ih, hP _ _ _ _ _ (hrun.invariant hnil hsnoc) hs⟩

/-- **Stepwise equivalence lifts to runs**: a property of a step that an invariant shows to be
equivalent to one of the step and its history holds of all steps of a run exactly when that does. -/
theorem Run.forall_mem_iff {I : List (Event σ ι ω) → σ → Prop} (hnil : I [] s₀)
    (hsnoc : ∀ tr s i s' o, I tr s → M.step s i = some (s', o) → I (tr ++ [⟨s, i, o, s'⟩]) s')
    {P : Event σ ι ω → Prop} {Q : List (Event σ ι ω) → Event σ ι ω → Prop}
    (hPQ : ∀ tr s i s' o, I tr s → M.step s i = some (s', o) →
      (P ⟨s, i, o, s'⟩ ↔ Q tr ⟨s, i, o, s'⟩))
    {tr : List (Event σ ι ω)} {s : σ} (h : M.Run s₀ tr s) :
    (∀ e ∈ tr, P e) ↔ ∀ before e after, tr = before ++ e :: after → Q before e := by
  have hiff := h.forall_split hnil hsnoc (P := fun tr e ↦ P e ↔ Q tr e) hPQ
  constructor
  · rintro hP before e after rfl
    exact (hiff before e after rfl).1 (hP e (by simp))
  · intro hQ e he
    obtain ⟨before, after, rfl⟩ := List.append_of_mem he
    exact (hiff before e after rfl).2 (hQ before e after rfl)

/-- A property of the steps alone. -/
theorem forall_split_iff_forall_mem {tr : List (Event σ ι ω)} {Q : Event σ ι ω → Prop} :
    (∀ before e after, tr = before ++ e :: after → Q e) ↔ ∀ e ∈ tr, Q e := by
  constructor
  · intro h e he
    obtain ⟨before, after, rfl⟩ := List.append_of_mem he
    exact h before e after rfl
  · rintro h before e after rfl
    exact h e (by simp)

/-- **The always rule**: a property of the history and the state that each step keeps exactly under
a condition holds after every step of a run exactly when every step meets the condition. -/
theorem Run.always_iff {I : List (Event σ ι ω) → σ → Prop}
    {C : List (Event σ ι ω) → Event σ ι ω → Prop} (hnil : I [] s₀)
    (hstep : ∀ tr s i s' o, M.Run s₀ tr s → I tr s → M.step s i = some (s', o) →
      (I (tr ++ [⟨s, i, o, s'⟩]) s' ↔ C tr ⟨s, i, o, s'⟩))
    {tr : List (Event σ ι ω)} {s : σ} (h : M.Run s₀ tr s) :
    (∀ before e after, tr = before ++ e :: after → I (before ++ [e]) e.post) ↔
      ∀ before e after, tr = before ++ e :: after → C before e := by
  -- the property after every step gives the property now
  suffices hboth : ((∀ before e after, tr = before ++ e :: after → I (before ++ [e]) e.post) ↔
      ∀ before e after, tr = before ++ e :: after → C before e) ∧
      ((∀ before e after, tr = before ++ e :: after → I (before ++ [e]) e.post) → I tr s) from
    hboth.1
  induction h with
  | nil => exact ⟨by simp, fun _ ↦ hnil⟩
  | @snoc tr s s' i o hrun hs ih =>
    obtain ⟨hiff, hnow⟩ := ih
    rw [forall_split_append_singleton (P := fun before e ↦ I (before ++ [e]) e.post),
      forall_split_append_singleton, ← hiff]
    exact ⟨and_congr_right fun hall ↦ hstep tr s i s' o hrun (hnow hall) hs, And.right⟩

/-- The always rule for a property of the state alone. -/
theorem Run.forall_post_iff {I : σ → Prop} {C : Event σ ι ω → Prop} (hnil : I s₀)
    (hstep : ∀ tr s i s' o, M.Run s₀ tr s → I s → M.step s i = some (s', o) →
      (I s' ↔ C ⟨s, i, o, s'⟩))
    {tr : List (Event σ ι ω)} {s : σ} (h : M.Run s₀ tr s) :
    (∀ e ∈ tr, I e.post) ↔ ∀ e ∈ tr, C e := by
  rw [← forall_split_iff_forall_mem, ← forall_split_iff_forall_mem]
  exact h.always_iff (I := fun _ s ↦ I s) (C := fun _ e ↦ C e) hnil hstep

/-- **The conditional rule**: a property of the history and the state that each step keeps if it
meets a condition holds after every step of a run whose steps all do. -/
theorem Run.always_of_forall {I : List (Event σ ι ω) → σ → Prop}
    {C : List (Event σ ι ω) → Event σ ι ω → Prop} (hnil : I [] s₀)
    (hstep : ∀ tr s i s' o, I tr s → M.step s i = some (s', o) → C tr ⟨s, i, o, s'⟩ →
      I (tr ++ [⟨s, i, o, s'⟩]) s')
    {tr : List (Event σ ι ω)} {s : σ} (h : M.Run s₀ tr s)
    (hC : ∀ before e after, tr = before ++ e :: after → C before e) :
    ∀ before e after, tr = before ++ e :: after → I (before ++ [e]) e.post := by
  suffices hboth : (∀ before e after, tr = before ++ e :: after → I (before ++ [e]) e.post) ∧
      I tr s from hboth.1
  induction h with
  | nil => exact ⟨by simp, hnil⟩
  | @snoc tr s s' i o hrun hs ih =>
    rw [forall_split_append_singleton] at hC
    obtain ⟨hall, hnow⟩ := ih hC.1
    have hnext := hstep tr s i s' o hnow hs hC.2
    rw [forall_split_append_singleton (P := fun before e ↦ I (before ++ [e]) e.post)]
    exact ⟨⟨hall, hnext⟩, hnext⟩

/-- **The conditional invariant rule**: what each step that meets a condition keeps holds at the end
of a run whose steps all do. -/
theorem Run.invariant_of_forall {I : List (Event σ ι ω) → σ → Prop} {C : Event σ ι ω → Prop}
    (hnil : I [] s₀)
    (hstep : ∀ tr s i s' o, I tr s → M.step s i = some (s', o) → C ⟨s, i, o, s'⟩ →
      I (tr ++ [⟨s, i, o, s'⟩]) s')
    {tr : List (Event σ ι ω)} {s : σ} (h : M.Run s₀ tr s) (hC : ∀ e ∈ tr, C e) : I tr s := by
  induction h with
  | nil => exact hnil
  | snoc _ hs ih =>
    rw [List.forall_mem_append, List.forall_mem_singleton] at hC
    exact hstep _ _ _ _ _ (ih hC.1) hs hC.2

/-- The conditional rule for a property of the state alone. -/
theorem Run.forall_post {I : σ → Prop} {C : Event σ ι ω → Prop} (hnil : I s₀)
    (hstep : ∀ s i s' o, I s → M.step s i = some (s', o) → C ⟨s, i, o, s'⟩ → I s')
    {tr : List (Event σ ι ω)} {s : σ} (h : M.Run s₀ tr s) (hC : ∀ e ∈ tr, C e) :
    ∀ e ∈ tr, I e.post :=
  forall_split_iff_forall_mem.1 (h.always_of_forall (I := fun _ s ↦ I s) (C := fun _ e ↦ C e) hnil
    (fun _ s i s' o hs hi hc ↦ hstep s i s' o hs hi hc) (forall_split_iff_forall_mem.2 hC))

/-- **The conditional step rule**: if each step that meets a condition keeps an invariant and has a
property, then in a run whose steps all meet the condition they all have the property. -/
theorem Run.forall_split_of_forall {I : List (Event σ ι ω) → σ → Prop}
    {C P : List (Event σ ι ω) → Event σ ι ω → Prop} (hnil : I [] s₀)
    (hstep : ∀ tr s i s' o, I tr s → M.step s i = some (s', o) → C tr ⟨s, i, o, s'⟩ →
      I (tr ++ [⟨s, i, o, s'⟩]) s' ∧ P tr ⟨s, i, o, s'⟩)
    {tr : List (Event σ ι ω)} {s : σ} (h : M.Run s₀ tr s)
    (hC : ∀ before e after, tr = before ++ e :: after → C before e) :
    ∀ before e after, tr = before ++ e :: after → P before e := by
  suffices hboth : (∀ before e after, tr = before ++ e :: after → P before e) ∧ I tr s from
    hboth.1
  induction h with
  | nil => exact ⟨by simp, hnil⟩
  | snoc hrun hs ih =>
    rw [forall_split_append_singleton] at hC
    obtain ⟨hall, hnow⟩ := ih hC.1
    obtain ⟨hnext, hlast⟩ := hstep _ _ _ _ _ hnow hs hC.2
    exact ⟨forall_split_append_singleton.2 ⟨hall, hlast⟩, hnext⟩

/-- **The conditional equivalence rule**: if two properties agree at each step that an invariant
holds before, and a step that has them keeps it, then they hold of all steps of the same runs. -/
theorem Run.forall_split_congr {I : List (Event σ ι ω) → σ → Prop}
    {P C : List (Event σ ι ω) → Event σ ι ω → Prop} (hnil : I [] s₀)
    (hstep : ∀ tr s i s' o, I tr s → M.step s i = some (s', o) →
      (P tr ⟨s, i, o, s'⟩ ↔ C tr ⟨s, i, o, s'⟩) ∧
        (C tr ⟨s, i, o, s'⟩ → I (tr ++ [⟨s, i, o, s'⟩]) s'))
    {tr : List (Event σ ι ω)} {s : σ} (h : M.Run s₀ tr s) :
    (∀ before e after, tr = before ++ e :: after → P before e) ↔
      ∀ before e after, tr = before ++ e :: after → C before e := by
  constructor
  · refine h.forall_split_of_forall hnil fun tr s i s' o hI hs hP ↦ ?_
    obtain ⟨hiff, hkeeps⟩ := hstep tr s i s' o hI hs
    exact ⟨hkeeps (hiff.1 hP), hiff.1 hP⟩
  · refine h.forall_split_of_forall hnil fun tr s i s' o hI hs hC ↦ ?_
    obtain ⟨hiff, hkeeps⟩ := hstep tr s i s' o hI hs
    exact ⟨hkeeps hC, hiff.2 hC⟩

/-- The inputs decide the run. -/
theorem Run.eq_of_inputs {tr : List (Event σ ι ω)} {s : σ} (h : M.Run s₀ tr s) :
    ∀ {tr' : List (Event σ ι ω)} {s' : σ}, M.Run s₀ tr' s' →
      tr.map Event.input = tr'.map Event.input → tr = tr' ∧ s = s' := by
  induction h with
  | nil =>
    intro tr' s' h' heq
    cases h' with
    | nil => exact ⟨rfl, rfl⟩
    | snoc => simp at heq
  | @snoc tr s t i o _ hs ih =>
    intro tr' s' h' heq
    rw [List.map_append, List.map_singleton] at heq
    cases h' with
    | nil => simp at heq
    | @snoc tr' s' t' i' o' h' hs' =>
      rw [List.map_append, List.map_singleton] at heq
      obtain ⟨htr, hi⟩ := List.append_inj' heq rfl
      obtain ⟨rfl, rfl⟩ := ih h' htr
      obtain rfl : i = i' := List.singleton_inj.1 hi
      obtain ⟨rfl, rfl⟩ := Prod.mk.inj (Option.some.inj (hs.symm.trans hs'))
      exact ⟨rfl, rfl⟩

/-- **The progress rule**: if an invariant gives a step on every input that a condition on the
inputs before allows, and the step keeps it, then inputs that are all allowed have a run. -/
theorem exists_run {I : List (Event σ ι ω) → σ → Prop} {C : List ι → ι → Prop} (hnil : I [] s₀)
    (hstep : ∀ tr s i, I tr s → C (tr.map Event.input) i →
      ∃ s' o, M.step s i = some (s', o) ∧ I (tr ++ [⟨s, i, o, s'⟩]) s')
    {is : List ι} (hC : ∀ before i after, is = before ++ i :: after → C before i) :
    ∃ tr s, M.Run s₀ tr s ∧ tr.map Event.input = is ∧ I tr s := by
  induction is using List.reverseRecOn with
  | nil => exact ⟨[], s₀, .nil, rfl, hnil⟩
  | append_singleton is i ih =>
    obtain ⟨tr, s, hrun, rfl, hI⟩ := ih fun before i' after h ↦ hC before i' (after ++ [i]) (by
      rw [h, List.append_assoc, List.cons_append])
    obtain ⟨s', o, hs, hI'⟩ := hstep tr s i hI (hC _ i [] rfl)
    exact ⟨_, s', hrun.snoc hs, by rw [List.map_append, List.map_singleton], hI'⟩

/-- **The simulation rule**: if each step is one of the machine `N` between related states, with the
outputs that belong together, then each run is one of `N`. -/
theorem Run.simulates {σ' ι' ω' : Type*} {N : Machine σ' ι' ω'} {R : σ → σ' → Prop} {t₀ : σ'}
    (h₀ : R s₀ t₀) (f : σ → ι → ι') (g : ω' → ω)
    (hstep : ∀ s i s' o t, R s t → M.step s i = some (s', o) →
      ∃ t' o', N.step t (f s i) = some (t', o') ∧ o = g o' ∧ R s' t')
    {tr : List (Event σ ι ω)} {s : σ} (h : M.Run s₀ tr s) :
    ∃ tr' t, N.Run t₀ tr' t ∧ R s t ∧ tr'.map Event.input = tr.map (fun e ↦ f e.pre e.input) ∧
      tr.map Event.output = tr'.map fun e ↦ g e.output := by
  induction h with
  | nil => exact ⟨[], t₀, .nil, h₀, rfl, rfl⟩
  | @snoc tr s s' i o _ hs ih =>
    obtain ⟨tr', t, hrun, hR, hinputs, houtputs⟩ := ih
    obtain ⟨t', o', hs', ho, hR'⟩ := hstep s i s' o t hR hs
    refine ⟨_, t', hrun.snoc hs', hR', ?_, ?_⟩
    · rw [List.map_append, List.map_append, hinputs]
      rfl
    · rw [List.map_append, List.map_append, houtputs, List.map_singleton, List.map_singleton, ho]

/-- A machine whose steps are those of another one, with other names for the inputs, has its
runs. -/
theorem Run.map_input {ι' : Type*} {N : Machine σ ι' ω} (f : ι → ι')
    (hstep : ∀ s i s' o, M.step s i = some (s', o) → N.step s (f i) = some (s', o))
    {tr : List (Event σ ι ω)} {s : σ} (h : M.Run s₀ tr s) :
    N.Run s₀ (tr.map fun e ↦ ⟨e.pre, f e.input, e.output, e.post⟩) s := by
  induction h with
  | nil => exact .nil
  | snoc _ hs ih =>
    rw [List.map_append, List.map_singleton]
    exact ih.snoc (hstep _ _ _ _ hs)

/-! ### What was recorded -/

/-- What the steps of a run record, with that of one step more. -/
theorem filterMap_append_singleton {α β : Type*} (f : α → Option β) (l : List α) (a : α) :
    (l ++ [a]).filterMap f = l.filterMap f ++ (f a).toList := by
  rw [List.filterMap_append, List.filterMap_cons, List.filterMap_nil]
  cases f a <;> rfl

/-- The value that the latest step with a value has. -/
def latest {α β : Type*} (f : α → Option β) (l : List α) : Option β :=
  l.foldl (fun acc a ↦ (f a).or acc) none

@[simp] theorem latest_nil {α β : Type*} (f : α → Option β) : latest f [] = none := rfl

@[simp] theorem latest_append_singleton {α β : Type*} (f : α → Option β) (l : List α) (a : α) :
    latest f (l ++ [a]) = (f a).or (latest f l) := by
  rw [latest, List.foldl_append]
  rfl

/-- Nothing was recorded when no step has a value. -/
theorem latest_eq_none_iff {α β : Type*} {f : α → Option β} {l : List α} :
    latest f l = none ↔ ∀ a ∈ l, f a = none := by
  induction l using List.reverseRecOn with
  | nil => simp
  | append_singleton l a ih =>
    rw [latest_append_singleton, Option.or_eq_none_iff, ih]
    simp [and_comm, or_imp, forall_and]

/-- What is recorded through a function is recorded of its values. -/
theorem latest_map {α β γ : Type*} (f : β → Option γ) (g : α → β) (l : List α) :
    latest f (l.map g) = latest (fun a ↦ f (g a)) l := by
  rw [latest, List.foldl_map]
  rfl

/-! ### Computed runs -/

/-- A computed run extends a run. -/
theorem Run.append_replay {is : List ι} : ∀ {tr tr' : List (Event σ ι ω)} {s t : σ},
    M.Run s₀ tr s → M.replay s is = some (tr', t) → M.Run s₀ (tr ++ tr') t := by
  induction is with
  | nil =>
    intro tr tr' s t h hr
    simp only [replay, Option.some.injEq, Prod.mk.injEq] at hr
    obtain ⟨rfl, rfl⟩ := hr
    simpa using h
  | cons i is ih =>
    intro tr tr' s t h hr
    rw [replay] at hr
    rcases hs : M.step s i with - | ⟨s', o⟩
    · rw [hs] at hr; simp at hr
    · rw [hs] at hr
      obtain ⟨⟨tr'', t'⟩, hrest, heq⟩ := Option.map_eq_some_iff.1 hr
      obtain ⟨rfl, rfl⟩ := Prod.mk.inj heq
      have := ih (h.snoc hs) hrest
      rwa [List.append_assoc] at this

/-- **A computed run is a run.** -/
theorem run_of_replay {is : List ι} {tr : List (Event σ ι ω)} {t : σ}
    (h : M.replay s₀ is = some (tr, t)) : M.Run s₀ tr t :=
  Run.nil.append_replay h

/-- A computed run has the inputs that it was computed from. -/
theorem map_input_of_replay {is : List ι} : ∀ {tr : List (Event σ ι ω)} {s t : σ},
    M.replay s is = some (tr, t) → tr.map Event.input = is := by
  induction is with
  | nil =>
    intro tr s t hr
    simp only [replay, Option.some.injEq, Prod.mk.injEq] at hr
    obtain ⟨rfl, rfl⟩ := hr
    rfl
  | cons i is ih =>
    intro tr s t hr
    rw [replay] at hr
    rcases hs : M.step s i with - | ⟨s', o⟩
    · rw [hs] at hr; simp at hr
    · rw [hs] at hr
      obtain ⟨⟨tr', t'⟩, hrest, heq⟩ := Option.map_eq_some_iff.1 hr
      obtain ⟨rfl, rfl⟩ := Prod.mk.inj heq
      rw [List.map_cons, ih hrest]

/-- The run that `replay` computes, where it computes one. -/
theorem run_getD_replay {is : List ι} (h : (M.replay s₀ is).isSome) :
    M.Run s₀ ((M.replay s₀ is).getD ([], s₀)).1 ((M.replay s₀ is).getD ([], s₀)).2 := by
  obtain ⟨r, hr⟩ := Option.isSome_iff_exists.1 h
  rw [hr]
  exact run_of_replay hr

end Machine
