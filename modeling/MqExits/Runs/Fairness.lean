import MqExits.Runs.Machine
import Mathlib.Order.MinMax
import Mathlib.Data.Nat.Init

/-!
# Executions and fairness

That something happens in the end is no property of a run, which may stop before it. An
**execution** goes on for ever: it has a state at each time, and takes a step from each to the next,
or none. Each of its states is reached by a run (`Execution.exists_run`), so the invariants of runs
hold in it.

Nothing need happen in an execution unless it is fair. `FairTo` is strong fairness: an input that is
enabled again and again is taken again and again. The rule for it is `Execution.eventually`: what is
waited for happens if one input brings it nearer, no other takes it back, and that one is enabled
again and again while it is waited for.
-/

namespace Machine

variable {σ ι ω : Type*}

/-- The input has a step in the state. -/
def Enabled (M : Machine σ ι ω) (s : σ) (i : ι) : Prop :=
  (M.step s i).isSome

/-- An execution. -/
structure Execution (M : Machine σ ι ω) where
  state : ℕ → σ
  /-- The input at a time; `none` when there is no step. -/
  input : ℕ → Option ι
  step : ∀ n, match input n with
    | some i => ∃ o, M.step (state n) i = some (state (n + 1), o)
    | none => state (n + 1) = state n

namespace Execution

variable {M : Machine σ ι ω} (x : M.Execution)

theorem step_of_input {n : ℕ} {i : ι} (h : x.input n = some i) :
    ∃ o, M.step (x.state n) i = some (x.state (n + 1), o) := by
  have hstep := x.step n
  rwa [h] at hstep

theorem state_of_input {n : ℕ} (h : x.input n = none) : x.state (n + 1) = x.state n := by
  have hstep := x.step n
  rwa [h] at hstep

/-- **Each state is reached by a run.** -/
theorem exists_run (n : ℕ) : ∃ tr, M.Run (x.state 0) tr (x.state n) := by
  induction n with
  | zero => exact ⟨[], .nil⟩
  | succ n ih =>
    obtain ⟨tr, hrun⟩ := ih
    rcases h : x.input n with - | i
    · rw [x.state_of_input h]
      exact ⟨tr, hrun⟩
    · obtain ⟨o, hs⟩ := x.step_of_input h
      exact ⟨_, hrun.snoc hs⟩

/-- Strong fairness: an input that is enabled again and again is taken again and again. -/
def FairTo (i : ι) : Prop :=
  (∀ n, ∃ m, n ≤ m ∧ M.Enabled (x.state m) i) → ∀ n, ∃ m, n ≤ m ∧ x.input m = some i

variable {x}

/-- **An input is taken** if no other ends the waiting for it, and it is enabled again and again in
the meantime. -/
theorem exists_input {i : ι} (hfair : x.FairTo i) {P : σ → Prop} {n : ℕ} (hP : P (x.state n))
    (hkeep : ∀ m, n ≤ m → P (x.state m) → x.input m ≠ some i → P (x.state (m + 1)))
    (henabled : ∀ m, n ≤ m → P (x.state m) →
      ∃ k, m ≤ k ∧ (P (x.state k) → M.Enabled (x.state k) i)) :
    ∃ m, n ≤ m ∧ P (x.state m) ∧ x.input m = some i := by
  by_contra hnone
  have hall : ∀ m, n ≤ m → P (x.state m) := by
    intro m hm
    induction m, hm using Nat.le_induction with
    | base => exact hP
    | succ m hm ih => exact hkeep m hm ih fun hi ↦ hnone ⟨m, hm, ih, hi⟩
  have hagain : ∀ m, ∃ k, m ≤ k ∧ M.Enabled (x.state k) i := by
    intro m
    have hle : n ≤ max n m := le_max_left n m
    obtain ⟨k, hk, hen⟩ := henabled (max n m) hle (hall _ hle)
    exact ⟨k, (le_max_right n m).trans hk, hen (hall k (hle.trans hk))⟩
  obtain ⟨m, hm, hi⟩ := hfair hagain n
  exact hnone ⟨m, hm, hall m hm, hi⟩

/-- **The rule of strong fairness**: from `P` there will be `Q`, if each time the input is taken it
brings `Q`, or leaves `P` with less of the measure, and no other input does more than to bring
`Q`. -/
theorem eventually {i : ι} (hfair : x.FairTo i) {P Q : σ → Prop} {r : σ → ℕ}
    (hkeep : ∀ m, P (x.state m) → x.input m ≠ some i →
      Q (x.state (m + 1)) ∨ P (x.state (m + 1)) ∧ r (x.state (m + 1)) = r (x.state m))
    (hless : ∀ m, P (x.state m) → x.input m = some i →
      Q (x.state (m + 1)) ∨ P (x.state (m + 1)) ∧ r (x.state (m + 1)) < r (x.state m))
    (henabled : ∀ m, P (x.state m) → ∃ k, m ≤ k ∧ (P (x.state k) → M.Enabled (x.state k) i))
    {n : ℕ} (hP : P (x.state n)) : ∃ m, n ≤ m ∧ Q (x.state m) := by
  by_contra hnone
  have hnever : ∀ m, n ≤ m → ¬ Q (x.state m) := fun m hm hQ ↦ hnone ⟨m, hm, hQ⟩
  -- there is no first value of the measure to stay at
  suffices hfalse : ∀ v m, n ≤ m → P (x.state m) → r (x.state m) = v → False from
    hfalse _ n le_rfl hP rfl
  intro v
  induction v using Nat.strong_induction_on with
  | _ v ih =>
    intro m hm hPm hv
    obtain ⟨k, hk, ⟨hPk, hvk⟩, hi⟩ := exists_input hfair
      (P := fun s ↦ P s ∧ r s = v) ⟨hPm, hv⟩
      (fun k hk h hi ↦ by
        obtain hQ | ⟨hP', hr⟩ := hkeep k h.1 hi
        · exact absurd hQ (hnever (k + 1) (by omega))
        · exact ⟨hP', hr.trans h.2⟩)
      (fun k _ h ↦ by
        obtain ⟨l, hl, hen⟩ := henabled k h.1
        exact ⟨l, hl, fun h' ↦ hen h'.1⟩)
    obtain hQ | ⟨hP', hr⟩ := hless k hPk hi
    · exact hnever (k + 1) (by omega) hQ
    · exact ih _ (by omega) (k + 1) (by omega) hP' rfl

end Execution

/-! ### Schedules -/

/-- The state at a time, if an input that has no step is passed over. -/
def stateAt (M : Machine σ ι ω) (s₀ : σ) (order : ℕ → Option ι) : ℕ → σ
  | 0 => s₀
  | n + 1 => ((order n).bind (M.step (stateAt M s₀ order n))).elim (stateAt M s₀ order n) Prod.fst

/-- **Every order of inputs has an execution.** -/
def schedule (M : Machine σ ι ω) (s₀ : σ) (order : ℕ → Option ι) : M.Execution where
  state := M.stateAt s₀ order
  input n := (order n).filter fun i ↦ (M.step (M.stateAt s₀ order n) i).isSome
  step n := by
    rcases h : order n with - | i
    · simp [stateAt, h]
    · rcases hs : M.step (M.stateAt s₀ order n) i with - | ⟨s', o⟩
      · simp [stateAt, h, hs, Option.filter]
      · simp [stateAt, h, hs, Option.filter]

end Machine
