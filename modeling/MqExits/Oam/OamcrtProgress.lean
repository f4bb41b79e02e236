import MqExits.Oam.OamcrtStash
import MqExits.Runs.Fairness

/-!
# Every call of `oamcrt` returns

`permittedObject` and `readConfig` take a mutex, which all the threads of the process share, and
give it back a few steps later. A thread has the mutex exactly while it is between the two
(`mutexInv_of_run`), and nothing that it does there can be held up. So the mutex is free again and
again, a thread that waits for it gets it, and under a scheduler that is fair to the threads **every
call returns** (`exists_idle_of_fair`), whatever calls the other threads make.

What decreases is the number of steps up to the return (`Pc.remaining`): the source has no loop that
waits for another thread, and each branch of a call is a few steps long.
-/

namespace MqExits.Oam

open CText

/-! ### The steps that are left -/

/-- The number of steps up to the return, at most. -/
def Pc.remaining : Pc → ℕ
  | .idle => 0
  | .checkReset _ => 7
  | .checkFree _ => 6
  | .checkTest _ => 5
  | .checkLock _ => 4
  | .checkCompare _ => 3
  | .checkUnlock _ _ => 2
  | .checkStash _ => 2
  | .checkReturn _ _ => 1
  | .copyTest _ => 7
  | .copyLock _ => 6
  | .copyCompare _ => 5
  | .copyUnlock _ _ => 4
  | .copyReset _ _ => 3
  | .copyFree _ _ => 2
  | .copyReturn _ _ => 1
  | .refreshReset => 5
  | .refreshTest => 4
  | .refreshLock => 3
  | .refreshSet => 2
  | .refreshUnlock => 1

/-- The next step is to take the mutex. -/
def Pc.waits : Pc → Bool
  | .checkLock _ | .copyLock _ | .refreshLock => true
  | _ => false

/-- The thread is between taking the mutex and giving it back. -/
def Pc.holds : Pc → Bool
  | .checkCompare _ | .checkUnlock _ _ | .copyCompare _ | .copyUnlock _ _ | .refreshSet
  | .refreshUnlock => true
  | _ => false

theorem Pc.not_waits_of_holds {pc : Pc} (h : pc.holds = true) : pc.waits = false := by
  cases pc <;> first | rfl | cases h

theorem Pc.ne_idle_of_waits {pc : Pc} (h : pc.waits = true) : pc ≠ .idle := by
  rintro rfl
  cases h

theorem Pc.ne_idle_of_holds {pc : Pc} (h : pc.holds = true) : pc ≠ .idle := by
  rintro rfl
  cases h

variable {τ : Type} [DecidableEq τ]

/-- What a step of the thread does with the mutex: nothing, or it takes it, or gives it back. -/
inductive MutexEffect (s s' : OamState τ) (t : τ) : Prop
  | keeps (hm : s'.mutex = s.mutex)
      (hp : (s'.threads t).pc.holds = (s.threads t).pc.holds)
  | takes (hfree : s.mutex = none) (hm : s'.mutex = some t)
      (hp : (s'.threads t).pc.holds = true)
  | gives (hold : (s.threads t).pc.holds = true) (hm : s'.mutex = none)
      (hp : (s'.threads t).pc.holds = false)

theorem freeUser_mutex (s : OamState τ) (t : τ) (pc : Pc) :
    (freeUser s t pc).1.mutex = s.mutex := by
  rcases hu : (s.threads t).prepareToCopyUser with - | a
  · rw [freeUser_of_none pc hu]
    rfl
  · rw [freeUser_of_some pc hu]
    rfl

theorem lockMutex_spec {s s' : OamState τ} {t : τ} {pc : Pc} (h : lockMutex s t pc = some s') :
    s.mutex = none ∧ s'.mutex = some t ∧ (s'.threads t).pc = pc := by
  have hs' := lockMutex_eq_some h
  rw [lockMutex] at h
  split at h
  · rename_i hfree
    refine ⟨hfree, by rw [hs']; rfl, ?_⟩
    rw [hs', OamState.set_self]
  · cases h

/-- **One step** of a thread: it is nearer to its return, and the mutex is with the thread that is
where one has it. -/
theorem stepThread_mutexEffect {s s' : OamState τ} {t : τ} {obs : Obs}
    (h : stepThread s t = some (s', obs)) :
    (s'.threads t).pc.remaining < (s.threads t).pc.remaining ∧ MutexEffect s s' t := by
  cases hpc : (s.threads t).pc with
  | idle => simp [stepThread, hpc] at h
  | checkReset args | checkReturn args result | copyReset objectName result
  | copyReturn objectName result | refreshReset | checkCompare args | copyCompare objectName
  | refreshSet | checkStash args =>
    simp only [stepThread, hpc, Option.some.injEq, Prod.mk.injEq] at h
    obtain ⟨rfl, rfl⟩ := h
    rw [OamState.set_self]
    exact ⟨by simp [Pc.remaining], .keeps rfl (by rw [OamState.set_self, hpc]; rfl)⟩
  -- the three places where the mutex is given back, and the three where it is taken
  | checkUnlock args permitted | copyUnlock objectName permitted | refreshUnlock =>
    simp only [stepThread, hpc, Option.some.injEq, Prod.mk.injEq] at h
    obtain ⟨rfl, rfl⟩ := h
    rw [unlockMutex, OamState.set_self]
    exact ⟨by simp [Pc.remaining], .gives (by rw [hpc]; rfl) rfl (by rw [OamState.set_self]; rfl)⟩
  | checkLock args | copyLock objectName | refreshLock =>
    simp only [stepThread, hpc, Option.map_eq_some_iff, Prod.mk.injEq] at h
    obtain ⟨s₁, hlock, rfl, rfl⟩ := h
    obtain ⟨hfree, hm, hp⟩ := lockMutex_spec hlock
    rw [hp]
    exact ⟨by simp [Pc.remaining], .takes hfree hm (by rw [hp]; rfl)⟩
  | checkFree args | copyFree objectName result =>
    simp only [stepThread, hpc, Option.some.injEq, Prod.mk.injEq] at h
    obtain ⟨rfl, rfl⟩ := h
    rw [freeUser_thread]
    exact ⟨by simp [Pc.remaining],
      .keeps (freeUser_mutex s t _) (by rw [freeUser_thread, hpc]; rfl)⟩
  | checkTest args | copyTest objectName | refreshTest =>
    simp only [stepThread, hpc] at h
    split_ifs at h <;>
    · simp only [Option.some.injEq, Prod.mk.injEq] at h
      obtain ⟨rfl, rfl⟩ := h
      rw [OamState.set_self]
      exact ⟨by simp [Pc.remaining], .keeps rfl (by rw [OamState.set_self, hpc]; rfl)⟩

/-- **A thread in a call has a step**, unless it waits for the mutex and the mutex is taken. -/
theorem isSome_stepThread {s : OamState τ} {t : τ} (hpc : (s.threads t).pc ≠ .idle)
    (hwaits : (s.threads t).pc.waits = true → s.mutex = none) : (stepThread s t).isSome := by
  cases h : (s.threads t).pc with
  | idle => exact absurd h hpc
  | checkLock args | copyLock objectName | refreshLock =>
    have hfree : s.mutex = none := hwaits (by rw [h]; rfl)
    simp [stepThread, h, lockMutex, hfree]
  | checkTest args | copyTest objectName | refreshTest =>
    simp only [stepThread, h]
    split_ifs <;> rfl
  | _ => simp [stepThread, h]

/-- What a thread waits for it then has. -/
theorem mutex_eq_of_waits {s s' : OamState τ} {t : τ} {obs : Obs}
    (h : stepThread s t = some (s', obs)) (hwaits : (s.threads t).pc.waits = true) :
    s'.mutex = some t := by
  cases hpc : (s.threads t).pc with
  | checkLock args | copyLock objectName | refreshLock =>
    simp only [stepThread, hpc, Option.map_eq_some_iff, Prod.mk.injEq] at h
    obtain ⟨s₁, hlock, rfl, rfl⟩ := h
    exact (lockMutex_spec hlock).2.1
  | _ =>
    rw [hpc] at hwaits
    cases hwaits

/-! ### The mutex -/

/-- The thread that has the mutex is the one between taking it and giving it back. -/
def MutexInv (s : OamState τ) : Prop :=
  ∀ t, s.mutex = some t ↔ (s.threads t).pc.holds = true

omit [DecidableEq τ] in
theorem mutexInv_start : MutexInv (OamState.start τ) :=
  fun _ ↦ iff_of_false (by simp [OamState.start]) (by simp [OamState.start, Pc.holds])

omit [DecidableEq τ] in
/-- A step of one thread, as far as the mutex is concerned. -/
theorem MutexInv.of_effect {s s' : OamState τ} {t : τ} (h : MutexInv s) (he : MutexEffect s s' t)
    (hother : ∀ t', t' ≠ t → s'.threads t' = s.threads t') : MutexInv s' := by
  intro t'
  rcases eq_or_ne t' t with rfl | hne
  · rcases he with ⟨hm, hp⟩ | ⟨-, hm, hp⟩ | ⟨-, hm, hp⟩
    · rw [hm, hp]
      exact h t'
    · rw [hm, hp]
      exact iff_of_true rfl rfl
    · rw [hm, hp]
      exact iff_of_false (by simp) (by simp)
  · rw [hother t' hne]
    rcases he with ⟨hm, -⟩ | ⟨hfree, hm, -⟩ | ⟨hold, hm, -⟩
    · rw [hm]
      exact h t'
    · -- no other thread had it
      rw [hm, ← h t', hfree]
      exact iff_of_false (by simpa using hne.symm) (by simp)
    · have hmine := (h t).2 hold
      rw [hm, ← h t', hmine]
      exact iff_of_false (by simp) (by simpa using hne.symm)

/-- **Each step keeps it.** -/
theorem MutexInv.step {s s' : OamState τ} {i : τ × Option OaCall} {o : Obs} (h : MutexInv s)
    (hs : (oamcrt τ).step s i = some (s', o)) : MutexInv s' := by
  obtain ⟨t, - | call⟩ := i
  · have hstep : stepThread s t = some (s', o) := hs
    exact h.of_effect (stepThread_mutexEffect hstep).2 (stepThread_effect hstep).2
  · simp only [oamcrt] at hs
    split_ifs at hs with hidle
    obtain ⟨rfl, -⟩ := Prod.mk.inj (Option.some.inj hs)
    refine h.of_effect (t := t) (.keeps rfl ?_) fun t' hne ↦ OamState.set_of_ne s _ hne
    rw [OamState.set_self, hidle]
    cases call <;> rfl

theorem mutexInv_of_run {tr : List (OamEvent τ)} {s : OamState τ}
    (h : (oamcrt τ).Run (OamState.start τ) tr s) : MutexInv s :=
  h.invariant (I := fun _ s ↦ MutexInv s) mutexInv_start fun _ _ _ _ _ hI hs ↦ hI.step hs

/-! ### Every call returns -/

/-- The process, for ever: any calls, in any order. -/
abbrev OamExecution (τ : Type) [DecidableEq τ] := (oamcrt τ).Execution

section Fair

variable {x : OamExecution τ}

theorem OamExecution.mutexInv (hstart : x.state 0 = .start τ) (n : ℕ) : MutexInv (x.state n) := by
  obtain ⟨tr, hrun⟩ := x.exists_run n
  rw [hstart] at hrun
  exact mutexInv_of_run hrun

/-- While a thread is in a call, only its own steps change where it is. -/
theorem OamExecution.thread_eq {n : ℕ} {t : τ} (hpc : ((x.state n).threads t).pc ≠ .idle)
    (hi : x.input n ≠ some (t, none)) :
    (x.state (n + 1)).threads t = (x.state n).threads t := by
  rcases h : x.input n with - | ⟨t', - | call⟩
  · rw [x.state_of_input h]
  · obtain ⟨o, hs⟩ := x.step_of_input h
    have hne : t ≠ t' := by
      rintro rfl
      exact hi h
    exact (stepThread_effect (show stepThread _ t' = _ from hs)).2 t hne
  · obtain ⟨o, hs⟩ := x.step_of_input h
    simp only [oamcrt] at hs
    split_ifs at hs with hidle
    have hne : t ≠ t' := by
      rintro rfl
      exact hpc hidle
    rw [← (Prod.mk.inj (Option.some.inj hs)).1, OamState.set_of_ne _ _ hne]

/-- The holder keeps the mutex until it gives it back. -/
theorem OamExecution.mutex_eq (hstart : x.state 0 = .start τ) {n : ℕ} {t : τ}
    (hm : (x.state n).mutex = some t) (hi : x.input n ≠ some (t, none)) :
    (x.state (n + 1)).mutex = some t := by
  have hholds := (OamExecution.mutexInv hstart n t).1 hm
  rw [OamExecution.mutexInv hstart (n + 1) t,
    OamExecution.thread_eq (Pc.ne_idle_of_holds hholds) hi]
  exact hholds

/-- **The mutex is free again.** -/
theorem OamExecution.exists_mutex_free (hstart : x.state 0 = .start τ)
    (hfair : ∀ t, x.FairTo (t, none)) (n : ℕ) : ∃ m, n ≤ m ∧ (x.state m).mutex = none := by
  rcases hm : (x.state n).mutex with - | t
  · exact ⟨n, le_rfl, hm⟩
  · refine Machine.Execution.eventually (hfair t) (P := fun s ↦ s.mutex = some t)
      (Q := fun s ↦ s.mutex = none) (r := fun s ↦ (s.threads t).pc.remaining)
      (fun m hm hi ↦ ?_) (fun m hm hi ↦ ?_) (fun m hm ↦ ⟨m, le_rfl, fun _ ↦ ?_⟩) hm
    · have hholds := (OamExecution.mutexInv hstart m t).1 hm
      refine Or.inr ⟨OamExecution.mutex_eq hstart hm hi, ?_⟩
      simp only [OamExecution.thread_eq (Pc.ne_idle_of_holds hholds) hi]
    · obtain ⟨o, hs⟩ := x.step_of_input hi
      obtain ⟨hless, he⟩ := stepThread_mutexEffect (show stepThread _ t = _ from hs)
      rcases he with ⟨hkeep, -⟩ | ⟨hfree, -⟩ | ⟨-, hfree, -⟩
      · exact Or.inr ⟨hkeep.trans hm, hless⟩
      · rw [hm] at hfree
        cases hfree
      · exact Or.inl hfree
    · -- nothing holds up the thread that has it
      have hholds := (OamExecution.mutexInv hstart m t).1 hm
      refine isSome_stepThread (Pc.ne_idle_of_holds hholds) fun hwaits ↦ ?_
      rw [Pc.not_waits_of_holds hholds] at hwaits
      cases hwaits

/-- **A thread that waits for the mutex gets it.** -/
theorem OamExecution.exists_mutex_eq (hstart : x.state 0 = .start τ)
    (hfair : ∀ t, x.FairTo (t, none)) {n : ℕ} {t : τ}
    (hwaits : ((x.state n).threads t).pc.waits = true) :
    ∃ m, n ≤ m ∧ (x.state m).mutex = some t := by
  refine Machine.Execution.eventually (hfair t) (P := fun s ↦ (s.threads t).pc.waits = true)
    (Q := fun s ↦ s.mutex = some t) (r := fun s ↦ (s.threads t).pc.remaining)
    (fun m hw hi ↦ ?_) (fun m hw hi ↦ ?_) (fun m hw ↦ ?_) hwaits
  · have hsame := OamExecution.thread_eq (Pc.ne_idle_of_waits hw) hi
    exact Or.inr ⟨by rwa [hsame], by rw [hsame]⟩
  · obtain ⟨o, hs⟩ := x.step_of_input hi
    exact Or.inl (mutex_eq_of_waits (show stepThread _ t = _ from hs) hw)
  · obtain ⟨k, hk, hfree⟩ := OamExecution.exists_mutex_free hstart hfair m
    exact ⟨k, hk, fun hw ↦ isSome_stepThread (Pc.ne_idle_of_waits hw) fun _ ↦ hfree⟩

/-- **Every call returns.** -/
theorem OamExecution.exists_idle (hstart : x.state 0 = .start τ)
    (hfair : ∀ t, x.FairTo (t, none)) (n : ℕ) (t : τ) :
    ∃ m, n ≤ m ∧ ((x.state m).threads t).pc = .idle := by
  by_cases hidle : ((x.state n).threads t).pc = .idle
  · exact ⟨n, le_rfl, hidle⟩
  · refine Machine.Execution.eventually (hfair t) (P := fun s ↦ (s.threads t).pc ≠ .idle)
      (Q := fun s ↦ (s.threads t).pc = .idle) (r := fun s ↦ (s.threads t).pc.remaining)
      (fun m hpc hi ↦ ?_) (fun m hpc hi ↦ ?_) (fun m hpc ↦ ?_) hidle
    · have hsame := OamExecution.thread_eq hpc hi
      exact Or.inr ⟨by rwa [hsame], by rw [hsame]⟩
    · obtain ⟨o, hs⟩ := x.step_of_input hi
      have hless := (stepThread_mutexEffect (show stepThread _ t = _ from hs)).1
      by_cases hdone : ((x.state (m + 1)).threads t).pc = .idle
      · exact Or.inl hdone
      · exact Or.inr ⟨hdone, hless⟩
    · obtain ⟨k, hk, hfree⟩ := OamExecution.exists_mutex_free hstart hfair m
      exact ⟨k, hk, fun hpc ↦ isSome_stepThread hpc fun _ ↦ hfree⟩

/-- **Progress**, under a scheduler that is fair to the threads: every call returns; a thread has
the mutex exactly while it is between taking it and giving it back; the mutex is free again and
again, and who waits for it gets it. -/
theorem exists_idle_of_fair (hstart : x.state 0 = .start τ) (hfair : ∀ t, x.FairTo (t, none)) :
    (∀ n t, ∃ m, n ≤ m ∧ ((x.state m).threads t).pc = .idle) ∧
      (∀ n t, (x.state n).mutex = some t ↔ ((x.state n).threads t).pc.holds = true) ∧
      (∀ n, ∃ m, n ≤ m ∧ (x.state m).mutex = none) ∧
      ∀ n t, ((x.state n).threads t).pc.waits = true →
        ∃ m, n ≤ m ∧ (x.state m).mutex = some t :=
  ⟨OamExecution.exists_idle hstart hfair, OamExecution.mutexInv hstart,
    OamExecution.exists_mutex_free hstart hfair,
    fun _ _ ↦ OamExecution.exists_mutex_eq hstart hfair⟩

end Fair

/-! ### Two threads that want the mutex -/

/-- The definition of a queue, by the thread `false`, and a refresh, by the thread `true`, which
waits for the mutex. -/
def contendedSteps : List (Bool × Option OaCall) :=
  [(false, some (.checkAuth ⟨lit "app", lit "NOTALLOWED.Q", MQOT_Q, MQZAO_CREATE⟩)), (false, none),
    (false, none), (false, none), (true, some .refreshCache), (true, none), (true, none),
    (false, none), (true, none), (false, none), (false, none), (true, none), (true, none),
    (true, none), (false, none)]

def contended : OamExecution Bool :=
  (oamcrt Bool).schedule (.start Bool) fun n ↦ contendedSteps[n]?

/-- Nothing happens behind the last step. -/
theorem contended_state {n : ℕ} (hn : 15 ≤ n) : contended.state n = contended.state 15 := by
  induction n, hn using Nat.le_induction with
  | base => rfl
  | succ n hn ih =>
    have hnone : contendedSteps[n]? = none := List.getElem?_eq_none hn
    rw [contended.state_of_input (by simp [contended, Machine.schedule, hnone]), ih]

/-- Then no thread is in a call. -/
theorem step_contended_eq_none (t : Bool) :
    (oamcrt Bool).step (contended.state 15) (t, none) = none := by
  have hall : ∀ t, ((oamcrt Bool).step (contended.state 15) (t, none)).isNone := by decide +kernel
  exact Option.isNone_iff_eq_none.1 (hall t)

theorem fairTo_contended (t : Bool) : contended.FairTo (t, none) := by
  intro hagain
  obtain ⟨m, hm, henabled⟩ := hagain 15
  rw [contended_state hm, Machine.Enabled, step_contended_eq_none] at henabled
  cases henabled

/-- The refresh, which waits at the eighth step, while the other thread has the mutex, gets it and
returns. -/
theorem exists_idle_of_fair_contended :
    (∃ m, 8 ≤ m ∧ ((contended.state m).threads true).pc = .idle) ∧
      ((contended.state 8).mutex = some false ↔
        ((contended.state 8).threads false).pc.holds = true) ∧
      (∃ m, 8 ≤ m ∧ (contended.state m).mutex = none) ∧
      ∃ m, 8 ≤ m ∧ (contended.state m).mutex = some true := by
  have hwaits : ((contended.state 8).threads true).pc.waits = true := by decide +kernel
  obtain ⟨hreturns, hheld, hfree, hgets⟩ :=
    exists_idle_of_fair (x := contended) rfl fairTo_contended
  exact ⟨hreturns 8 true, hheld 8 false, hfree 8, hgets 8 true hwaits⟩

end MqExits.Oam
