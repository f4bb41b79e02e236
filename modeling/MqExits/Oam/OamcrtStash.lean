import MqExits.Oam.Oamcrt

/-!
# What `oamcrt` stashes for a thread

The decision of `OACopyAllAuth` is about the user that the latest earlier `OACheckAuth` of the same
thread has left behind. The invariant says, for each place a thread can be in, what its two
variables hold in terms of the calls the thread has begun (`LocalFacts`), and for each duplicated
name how often it has been freed (`Ledger.Owned`). No step of another thread touches either: it
writes to its own variables, to a new name, or to the name it has stashed itself
(`stepThread_effect`).

Two things are said apart, as they are kept for different reasons:

* `LocalFacts` reads one thread only. At each place of a call it says as much as the rest of the
  call needs: before the reset what the last call has left behind, between the reset and the free
  that the flag is off, after them that nothing is stashed, and behind the test which of its
  branches has been taken.
* `Owned` is about the names of all the threads together. A name is stashed by one thread, and
  freed when that thread is in its next call; so no other thread can come upon a name that is gone.

`OamInv.step` puts them together, and `copyAllAuth_refuses_iff` reads off what the invariant says at
the return of `OACopyAllAuth`.
-/

namespace MqExits.Oam

open CText Ledger

variable {τ : Type} [DecidableEq τ]

/-! ### The calls of a thread -/

/-- The call makes the next `OACopyAllAuth` of the thread a check. -/
def CheckArgs.stashes (args : CheckArgs) : Prop :=
  args.objectType = MQOT_MODEL_Q ∧ args.authority = MQZAO_DISPLAY

instance (args : CheckArgs) : Decidable args.stashes :=
  inferInstanceAs (Decidable (_ ∧ _))

/-- The user name that a call leaves behind. -/
def OaCall.stash : OaCall → Option Bytes
  | .checkAuth args => if args.stashes then some (cstr args.entityName) else none
  | _ => none

/-- The `OACheckAuth` or `OACopyAllAuth` call that an input begins on a thread. -/
def begun (t : τ) : τ × Option OaCall → Option OaCall
  | (t', some call) => if t' = t ∧ call ≠ .refreshCache then some call else none
  | (_, none) => none

/-- The `OACheckAuth` and `OACopyAllAuth` calls that a thread has begun, oldest first. -/
def callsOf (t : τ) (tr : List (OamEvent τ)) : List OaCall :=
  tr.filterMap fun e ↦ begun t e.input

@[simp] theorem callsOf_append_singleton (t : τ) (tr : List (OamEvent τ)) (e : OamEvent τ) :
    callsOf t (tr ++ [e]) = callsOf t tr ++ (begun t e.input).toList := by
  rw [callsOf, List.filterMap_append]
  cases h : begun t e.input <;> simp [callsOf, h]

/-- What the latest of some calls has left behind. -/
def stashAfter (calls : List OaCall) : Option Bytes :=
  calls.getLast?.bind OaCall.stash

/-- The result of an `OACopyAllAuth` with what it finds left behind. -/
def copyResult (stash : Option Bytes) (objectName : Bytes) : ServiceResult :=
  if stash.isSome ∧ permittedName objectName = false then refused else copyDefault

theorem copyResult_eq_refused {stash : Option Bytes} {objectName : Bytes} :
    copyResult stash objectName = refused ↔
      stash.isSome ∧ permittedName objectName = false := by
  rw [copyResult]
  split_ifs with h
  · exact iff_of_true rfl h
  · exact iff_of_false (by decide) h

/-! ### The invariants -/

/-- The two variables of a thread stand for what has been left behind. -/
def HoldsStash (names : NameAddr → Option Bytes) (th : Thread) : Option Bytes → Prop
  | none => th.prepareToCopy = false ∧ th.prepareToCopyUser = none
  | some name => th.prepareToCopy = true ∧
      ∃ a, th.prepareToCopyUser = some a ∧ names a = some name

/-- What holds of a thread, by where it is: `calls` are the calls it has begun, the one it is in
included. -/
def LocalFacts (names : NameAddr → Option Bytes) (th : Thread) (calls : List OaCall) : Prop :=
  match th.pc with
  | .checkReset args => calls.getLast? = some (.checkAuth args) ∧
      HoldsStash names th (stashAfter calls.dropLast)
  | .checkFree args => calls.getLast? = some (.checkAuth args) ∧ th.prepareToCopy = false
  | .checkTest args => calls.getLast? = some (.checkAuth args) ∧ HoldsStash names th none
  | .checkLock args | .checkCompare args | .checkUnlock args _ =>
      calls.getLast? = some (.checkAuth args) ∧ ¬ args.stashes ∧ HoldsStash names th none
  | .checkStash args => calls.getLast? = some (.checkAuth args) ∧ args.stashes ∧
      th.prepareToCopy = true ∧ th.prepareToCopyUser = none
  | .checkReturn args _ => calls.getLast? = some (.checkAuth args) ∧
      HoldsStash names th (stashAfter calls)
  | .copyTest objectName => calls.getLast? = some (.copyAllAuth objectName) ∧
      HoldsStash names th (stashAfter calls.dropLast)
  | .copyLock objectName | .copyCompare objectName =>
      calls.getLast? = some (.copyAllAuth objectName) ∧
      HoldsStash names th (stashAfter calls.dropLast) ∧ (stashAfter calls.dropLast).isSome
  | .copyUnlock objectName permitted => calls.getLast? = some (.copyAllAuth objectName) ∧
      HoldsStash names th (stashAfter calls.dropLast) ∧ (stashAfter calls.dropLast).isSome ∧
      permitted = permittedName objectName
  | .copyReset objectName result => calls.getLast? = some (.copyAllAuth objectName) ∧
      HoldsStash names th (stashAfter calls.dropLast) ∧
      result = copyResult (stashAfter calls.dropLast) objectName
  | .copyFree objectName result => calls.getLast? = some (.copyAllAuth objectName) ∧
      th.prepareToCopy = false ∧ result = copyResult (stashAfter calls.dropLast) objectName
  | .copyReturn objectName result => calls.getLast? = some (.copyAllAuth objectName) ∧
      HoldsStash names th none ∧ result = copyResult (stashAfter calls.dropLast) objectName
  | .idle | .refreshReset | .refreshTest | .refreshLock | .refreshSet | .refreshUnlock =>
      HoldsStash names th (stashAfter calls)

/-- The ledger of the duplicated names. -/
def namesLedger (tr : List (OamEvent τ)) : List (Op NameAddr) :=
  tr.filterMap fun e ↦ e.output.op

omit [DecidableEq τ] in
@[simp] theorem namesLedger_append_singleton (tr : List (OamEvent τ)) (e : OamEvent τ) :
    namesLedger (tr ++ [e]) = namesLedger tr ++ e.output.op.toList := by
  rw [namesLedger, List.filterMap_append]
  cases h : e.output.op <;> simp [namesLedger, h]

/-- The duplicated name of each thread. -/
def OamState.stashes (s : OamState τ) (t : τ) : Option NameAddr :=
  (s.threads t).prepareToCopyUser

/-- The invariant. -/
structure OamInv (tr : List (OamEvent τ)) (s : OamState τ) : Prop where
  local_ : ∀ t, LocalFacts s.names (s.threads t) (callsOf t tr)
  owned : Owned s.stashes s.next (namesLedger tr)

/-! ### What one step does -/

@[simp] theorem OamState.set_self (s : OamState τ) (t : τ) (th : Thread) :
    (s.set t th).threads t = th :=
  Function.update_self _ _ _

theorem OamState.set_of_ne (s : OamState τ) {t t' : τ} (th : Thread) (h : t' ≠ t) :
    (s.set t th).threads t' = s.threads t' :=
  Function.update_of_ne h _ _

/-- The effect of one step of thread `t` on the duplicated names: none, one more, which that thread
stashes, or one less, which it had stashed. -/
inductive Effect (s s' : OamState τ) (t : τ) : Option (Op NameAddr) → Prop
  | none (hn : s'.names = s.names) (hx : s'.next = s.next)
      (hu : (s'.threads t).prepareToCopyUser = (s.threads t).prepareToCopyUser) :
      Effect s s' t .none
  | acquire (name : Bytes) (hp : ∃ args, (s.threads t).pc = .checkStash args)
      (hn : s'.names = Function.update s.names s.next (some name)) (hx : s'.next = s.next + 1)
      (hu : (s'.threads t).prepareToCopyUser = some s.next) :
      Effect s s' t (some (.acquire s.next))
  | release (a : NameAddr) (ha : (s.threads t).prepareToCopyUser = some a)
      (hn : s'.names = Function.update s.names a .none) (hx : s'.next = s.next)
      (hu : (s'.threads t).prepareToCopyUser = .none) :
      Effect s s' t (some (.release a))

/-- A step that writes to its own thread and to none of the names. -/
theorem effect_set {s s₀ : OamState τ} {t : τ} {th : Thread} (ht : s₀.threads = s.threads)
    (hn : s₀.names = s.names) (hx : s₀.next = s.next)
    (hu : th.prepareToCopyUser = (s.threads t).prepareToCopyUser) :
    Effect s (s₀.set t th) t .none ∧ ∀ t', t' ≠ t → (s₀.set t th).threads t' = s.threads t' :=
  ⟨.none hn hx (by rw [OamState.set_self, hu]), fun _ h ↦ by rw [OamState.set_of_ne _ _ h, ht]⟩

theorem freeUser_of_none {s : OamState τ} {t : τ} (pc : Pc)
    (hu : (s.threads t).prepareToCopyUser = none) :
    freeUser s t pc = (s.set t { s.threads t with pc := pc }, none) := by
  simp only [freeUser, hu]

theorem freeUser_of_some {s : OamState τ} {t : τ} {a : NameAddr} (pc : Pc)
    (hu : (s.threads t).prepareToCopyUser = some a) :
    freeUser s t pc = ({ s with names := Function.update s.names a none }.set t
      { s.threads t with pc := pc, prepareToCopyUser := none }, some a) := by
  simp only [freeUser, hu]

/-- `freeUser` releases what is stashed. -/
theorem freeUser_effect (s : OamState τ) (t : τ) (pc : Pc) :
    Effect s (freeUser s t pc).1 t (freedObs (freeUser s t pc).2).op ∧
      ∀ t', t' ≠ t → (freeUser s t pc).1.threads t' = s.threads t' := by
  rcases hu : (s.threads t).prepareToCopyUser with - | a
  · rw [freeUser_of_none pc hu]
    exact effect_set rfl rfl rfl rfl
  · rw [freeUser_of_some pc hu]
    refine ⟨.release a hu rfl rfl (by rw [OamState.set_self]), fun t' ht ↦ ?_⟩
    exact OamState.set_of_ne { s with names := Function.update s.names a none } _ ht

theorem lockMutex_eq_some {s s' : OamState τ} {t : τ} {pc : Pc} (h : lockMutex s t pc = some s') :
    s' = { s with mutex := some t }.set t { s.threads t with pc := pc } := by
  rw [lockMutex] at h
  split at h
  · exact (Option.some.inj h).symm
  · cases h

/-- **What one step does** to the names and to the other threads. -/
theorem stepThread_effect {s s' : OamState τ} {t : τ} {obs : Obs}
    (h : stepThread s t = some (s', obs)) :
    Effect s s' t obs.op ∧ ∀ t', t' ≠ t → s'.threads t' = s.threads t' := by
  cases hpc : (s.threads t).pc with
  | idle => simp [stepThread, hpc] at h
  | checkReset args | checkCompare args | checkUnlock args permitted | checkReturn args result
  | copyCompare objectName | copyUnlock objectName permitted | copyReset objectName result
  | copyReturn objectName result | refreshReset | refreshSet | refreshUnlock =>
    simp only [stepThread, hpc, Option.some.injEq, Prod.mk.injEq] at h
    obtain ⟨rfl, rfl⟩ := h
    exact effect_set rfl rfl rfl rfl
  | checkLock args | copyLock objectName | refreshLock =>
    simp only [stepThread, hpc, Option.map_eq_some_iff, Prod.mk.injEq] at h
    obtain ⟨s₁, hlock, rfl, rfl⟩ := h
    rw [lockMutex_eq_some hlock]
    exact effect_set rfl rfl rfl rfl
  | checkFree args | copyFree objectName result =>
    simp only [stepThread, hpc, Option.some.injEq, Prod.mk.injEq] at h
    obtain ⟨rfl, rfl⟩ := h
    exact freeUser_effect s t _
  | checkTest args | copyTest objectName | refreshTest =>
    simp only [stepThread, hpc] at h
    split_ifs at h <;>
    · simp only [Option.some.injEq, Prod.mk.injEq] at h
      obtain ⟨rfl, rfl⟩ := h
      exact effect_set rfl rfl rfl rfl
  | checkStash args =>
    simp only [stepThread, hpc, Option.some.injEq, Prod.mk.injEq] at h
    obtain ⟨rfl, rfl⟩ := h
    -- the one step that makes a name, and stashes it for its own thread
    refine ⟨.acquire _ ⟨args, hpc⟩ rfl rfl (by rw [OamState.set_self]), fun t' ht ↦ ?_⟩
    exact OamState.set_of_ne { s with
      names := Function.update s.names s.next (some (cstr args.entityName))
      next := s.next + 1 } _ ht

/-! ### The facts about a thread -/

/-- The facts about a thread read no name but its own. -/
theorem LocalFacts.congr {names names' : NameAddr → Option Bytes} {th : Thread}
    {calls : List OaCall} (h : LocalFacts names th calls)
    (hn : ∀ a, th.prepareToCopyUser = some a → names' a = names a) :
    LocalFacts names' th calls := by
  have hstash : ∀ stash, HoldsStash names th stash → HoldsStash names' th stash := by
    rintro (- | name) hs
    · exact hs
    · obtain ⟨hp, a, ha, hname⟩ := hs
      exact ⟨hp, a, ha, (hn a ha).trans hname⟩
  rw [LocalFacts] at h ⊢
  cases hpc : th.pc <;> simp only [hpc] at h ⊢ <;> grind

theorem stashAfter_of_checkAuth {calls : List OaCall} {args : CheckArgs}
    (h : calls.getLast? = some (.checkAuth args)) :
    stashAfter calls = if args.stashes then some (cstr args.entityName) else none := by
  rw [stashAfter, h]
  rfl

theorem stashAfter_of_copyAllAuth {calls : List OaCall} {objectName : Bytes}
    (h : calls.getLast? = some (.copyAllAuth objectName)) : stashAfter calls = none := by
  rw [stashAfter, h]
  rfl

/-- The flag says whether anything has been left behind. -/
theorem HoldsStash.prepareToCopy_iff {names : NameAddr → Option Bytes} {th : Thread}
    {stash : Option Bytes} (h : HoldsStash names th stash) :
    th.prepareToCopy = true ↔ stash.isSome := by
  cases stash with
  | none => simp [h.1]
  | some name => simp [h.1]

/-- After `freeUser` nothing is stashed. -/
theorem freeUser_thread (s : OamState τ) (t : τ) (pc : Pc) :
    (freeUser s t pc).1.threads t =
      { s.threads t with pc := pc, prepareToCopyUser := none } := by
  rcases hu : (s.threads t).prepareToCopyUser with - | a
  · rw [freeUser_of_none pc hu, OamState.set_self, ← hu]
  · rw [freeUser_of_some pc hu, OamState.set_self]

section Steps

variable {s s' : OamState τ} {t : τ} {obs : Obs} {calls : List OaCall}

/-- The test of `OACheckAuth`, which chooses between the name of the queue, the stash and the
return. -/
theorem LocalFacts.checkTest {args : CheckArgs} (hf : LocalFacts s.names (s.threads t) calls)
    (hpc : (s.threads t).pc = .checkTest args) (h : stepThread s t = some (s', obs)) :
    LocalFacts s'.names (s'.threads t) calls := by
  simp only [LocalFacts, hpc] at hf
  obtain ⟨hlast, hprep, huser⟩ := hf
  have hstash := stashAfter_of_checkAuth hlast
  simp only [Oam.stepThread, hpc] at h
  split_ifs at h with hq hc hm
  · -- a queue to be created is none that is asked about
    obtain ⟨rfl, -⟩ := Prod.mk.inj (Option.some.inj h)
    have hno : ¬ args.stashes := fun hs ↦ absurd (hq.symm.trans hs.1) (by decide)
    simp only [LocalFacts, OamState.set_self, HoldsStash]
    exact ⟨hlast, hno, hprep, huser⟩
  · obtain ⟨rfl, -⟩ := Prod.mk.inj (Option.some.inj h)
    have hno : ¬ args.stashes := fun hs ↦ absurd (hq.symm.trans hs.1) (by decide)
    simp only [LocalFacts, OamState.set_self, hstash, if_neg hno, HoldsStash]
    exact ⟨hlast, hprep, huser⟩
  · obtain ⟨rfl, -⟩ := Prod.mk.inj (Option.some.inj h)
    simp only [LocalFacts, OamState.set_self, true_and]
    exact ⟨hlast, hm, huser⟩
  · obtain ⟨rfl, -⟩ := Prod.mk.inj (Option.some.inj h)
    have hno : ¬ args.stashes := hm
    simp only [LocalFacts, OamState.set_self, hstash, if_neg hno, HoldsStash]
    exact ⟨hlast, hprep, huser⟩

/-- The step that stashes the name of the user. -/
theorem LocalFacts.checkStash {args : CheckArgs} (hf : LocalFacts s.names (s.threads t) calls)
    (hpc : (s.threads t).pc = .checkStash args) (h : stepThread s t = some (s', obs)) :
    LocalFacts s'.names (s'.threads t) calls := by
  simp only [Oam.stepThread, hpc, Option.some.injEq, Prod.mk.injEq] at h
  obtain ⟨rfl, -⟩ := h
  simp only [LocalFacts, hpc] at hf
  obtain ⟨hlast, hyes, hprep, -⟩ := hf
  simp only [LocalFacts, OamState.set_self, stashAfter_of_checkAuth hlast, if_pos hyes, HoldsStash]
  exact ⟨hlast, hprep, s.next, rfl, Function.update_self _ _ _⟩

/-- The step that gives the mutex back, on the way to the return. -/
theorem LocalFacts.checkUnlock {args : CheckArgs} {permitted : Bool}
    (hf : LocalFacts s.names (s.threads t) calls)
    (hpc : (s.threads t).pc = .checkUnlock args permitted) (h : stepThread s t = some (s', obs)) :
    LocalFacts s'.names (s'.threads t) calls := by
  simp only [Oam.stepThread, hpc, Option.some.injEq, Prod.mk.injEq] at h
  obtain ⟨rfl, -⟩ := h
  simp only [LocalFacts, hpc] at hf
  obtain ⟨hlast, hno, hstash⟩ := hf
  simp only [LocalFacts, unlockMutex, OamState.set_self, stashAfter_of_checkAuth hlast, if_neg hno]
  exact ⟨hlast, hstash⟩

/-- The test of `OACopyAllAuth`: without a stash the result is decided. -/
theorem LocalFacts.copyTest {objectName : Bytes} (hf : LocalFacts s.names (s.threads t) calls)
    (hpc : (s.threads t).pc = .copyTest objectName) (h : stepThread s t = some (s', obs)) :
    LocalFacts s'.names (s'.threads t) calls := by
  simp only [LocalFacts, hpc] at hf
  obtain ⟨hlast, hstash⟩ := hf
  have hprep := hstash.prepareToCopy_iff
  simp only [Oam.stepThread, hpc] at h
  split_ifs at h with hp
  · obtain ⟨rfl, -⟩ := Prod.mk.inj (Option.some.inj h)
    simp only [LocalFacts, OamState.set_self]
    exact ⟨hlast, hstash, hprep.1 hp⟩
  · obtain ⟨rfl, -⟩ := Prod.mk.inj (Option.some.inj h)
    simp only [LocalFacts, OamState.set_self]
    refine ⟨hlast, hstash, ?_⟩
    rw [copyResult, if_neg fun hs ↦ hp (hprep.2 hs.1)]

/-- With one, the comparison decides it. -/
theorem LocalFacts.copyUnlock {objectName : Bytes} {permitted : Bool}
    (hf : LocalFacts s.names (s.threads t) calls)
    (hpc : (s.threads t).pc = .copyUnlock objectName permitted)
    (h : stepThread s t = some (s', obs)) : LocalFacts s'.names (s'.threads t) calls := by
  simp only [Oam.stepThread, hpc, Option.some.injEq, Prod.mk.injEq] at h
  obtain ⟨rfl, -⟩ := h
  simp only [LocalFacts, hpc] at hf
  obtain ⟨hlast, hstash, hsome, rfl⟩ := hf
  simp only [LocalFacts, unlockMutex, OamState.set_self]
  refine ⟨hlast, hstash, ?_⟩
  cases hperm : permittedName objectName <;> simp [copyResult, hsome, hperm]

/-- **One step of a thread preserves its facts.** -/
theorem LocalFacts.stepThread (hf : LocalFacts s.names (s.threads t) calls)
    (h : stepThread s t = some (s', obs)) : LocalFacts s'.names (s'.threads t) calls := by
  cases hpc : (s.threads t).pc with
  | idle => simp [Oam.stepThread, hpc] at h
  | checkTest args => exact hf.checkTest hpc h
  | checkUnlock args permitted => exact hf.checkUnlock hpc h
  | checkStash args => exact hf.checkStash hpc h
  | copyTest objectName => exact hf.copyTest hpc h
  | copyUnlock objectName permitted => exact hf.copyUnlock hpc h
  | checkLock args | copyLock objectName | refreshLock =>
    simp only [Oam.stepThread, hpc, Option.map_eq_some_iff, Prod.mk.injEq] at h
    obtain ⟨s₁, hlock, rfl, -⟩ := h
    simp only [LocalFacts, hpc] at hf
    rw [lockMutex_eq_some hlock]
    simp only [LocalFacts, OamState.set_self]
    exact hf
  | checkFree args | copyFree objectName result =>
    simp only [Oam.stepThread, hpc, Option.some.injEq, Prod.mk.injEq] at h
    obtain ⟨rfl, -⟩ := h
    simp only [LocalFacts, hpc] at hf
    simp only [LocalFacts, freeUser_thread, HoldsStash, and_true]
    exact hf
  | checkCompare args | copyCompare objectName | refreshReset | refreshSet | refreshUnlock =>
    -- the facts are those of the next place
    simp only [Oam.stepThread, hpc, Option.some.injEq, Prod.mk.injEq] at h
    obtain ⟨rfl, -⟩ := h
    simp only [LocalFacts, hpc] at hf
    simp only [LocalFacts, unlockMutex, OamState.set_self, and_true]
    exact hf
  | checkReset args =>
    -- the flag is off, and the name is still there
    simp only [Oam.stepThread, hpc, Option.some.injEq, Prod.mk.injEq] at h
    obtain ⟨rfl, -⟩ := h
    simp only [LocalFacts, hpc] at hf
    simp only [LocalFacts, OamState.set_self, and_true]
    exact hf.1
  | copyReset objectName result =>
    simp only [Oam.stepThread, hpc, Option.some.injEq, Prod.mk.injEq] at h
    obtain ⟨rfl, -⟩ := h
    simp only [LocalFacts, hpc] at hf
    simp only [LocalFacts, OamState.set_self, true_and]
    exact ⟨hf.1, hf.2.2⟩
  | checkReturn args result =>
    simp only [Oam.stepThread, hpc, Option.some.injEq, Prod.mk.injEq] at h
    obtain ⟨rfl, -⟩ := h
    simp only [LocalFacts, hpc] at hf
    simp only [LocalFacts, OamState.set_self]
    exact hf.2
  | copyReturn objectName result =>
    simp only [Oam.stepThread, hpc, Option.some.injEq, Prod.mk.injEq] at h
    obtain ⟨rfl, -⟩ := h
    simp only [LocalFacts, hpc] at hf
    simp only [LocalFacts, OamState.set_self, stashAfter_of_copyAllAuth hf.1]
    exact hf.2.1
  | refreshTest =>
    simp only [LocalFacts, hpc] at hf
    simp only [Oam.stepThread, hpc] at h
    split_ifs at h <;>
    · obtain ⟨rfl, -⟩ := Prod.mk.inj (Option.some.inj h)
      simp only [LocalFacts, OamState.set_self]
      exact hf

end Steps

omit [DecidableEq τ] in
/-- One step of another thread preserves the facts about a thread. -/
theorem LocalFacts.of_effect {s s' : OamState τ} {t t' : τ} {op : Option (Op NameAddr)}
    {l : List (Op NameAddr)} {calls : List OaCall} (hf : LocalFacts s.names (s.threads t') calls)
    (he : Effect s s' t op) (hown : Owned s.stashes s.next l) (hne : t' ≠ t) :
    LocalFacts s'.names (s.threads t') calls := by
  refine hf.congr fun a ha ↦ ?_
  cases he with
  | none hn => rw [hn]
  | acquire name hp hn =>
    have hlt : a < s.next := hown.below (show s.stashes t' = some a from ha)
    rw [hn, Function.update_of_ne hlt.ne]
  | release b hb hn =>
    have hab : a ≠ b := by
      rintro rfl
      exact hne (hown.unshared (show s.stashes t' = some a from ha)
        (show s.stashes t = some a from hb))
    rw [hn, Function.update_of_ne hab]

/-- **One step preserves the ownership of the names.** -/
theorem Effect.owned {s s' : OamState τ} {t : τ} {op : Option (Op NameAddr)}
    {l : List (Op NameAddr)} {calls : List OaCall} (he : Effect s s' t op)
    (hother : ∀ t', t' ≠ t → s'.threads t' = s.threads t') (hown : Owned s.stashes s.next l)
    (hf : LocalFacts s.names (s.threads t) calls) :
    Owned s'.stashes s'.next (l ++ op.toList) := by
  -- no step touches the stash of another thread
  have hstashes : s'.stashes =
      Function.update s.stashes t (s'.threads t).prepareToCopyUser := by
    funext t'
    rcases eq_or_ne t' t with rfl | hne
    · rw [Function.update_self, OamState.stashes]
    · rw [Function.update_of_ne hne, OamState.stashes, hother t' hne, OamState.stashes]
  rw [hstashes]
  cases he with
  | none hn hx hu =>
    rw [hu, hx, Option.toList_none, List.append_nil]
    have hself : Function.update s.stashes t (s.threads t).prepareToCopyUser = s.stashes :=
      Function.update_eq_self _ _
    rwa [hself]
  | acquire name hp hn hx hu =>
    obtain ⟨args, hpc⟩ := hp
    -- before it stashes a name the call has freed the one before
    have hnone : s.stashes t = Option.none := by
      simp only [LocalFacts, hpc] at hf
      exact hf.2.2.2
    rw [hu, hx]
    exact hown.acquire hnone
  | release a ha hn hx hu =>
    rw [hu, hx]
    exact hown.release ha

/-! ### Runs -/

/-- The facts hold when a thread begins a call. -/
theorem LocalFacts.enter {names : NameAddr → Option Bytes} {th : Thread} {calls : List OaCall}
    (hf : LocalFacts names th calls) (hpc : th.pc = .idle) (t : τ) (call : OaCall) :
    LocalFacts names { th with pc := Pc.enter call }
      (calls ++ (begun t (t, some call)).toList) := by
  simp only [LocalFacts, hpc] at hf
  cases call with
  | checkAuth args =>
    have hbegun : begun t (t, some (.checkAuth args)) = some (.checkAuth args) := by simp [begun]
    simp only [hbegun, LocalFacts, Pc.enter, Option.toList_some, List.getLast?_concat,
      List.dropLast_concat, true_and]
    exact hf
  | copyAllAuth objectName =>
    have hbegun : begun t (t, some (.copyAllAuth objectName)) = some (.copyAllAuth objectName) := by
      simp [begun]
    simp only [hbegun, LocalFacts, Pc.enter, Option.toList_some, List.getLast?_concat,
      List.dropLast_concat, true_and]
    exact hf
  | refreshCache =>
    have hbegun : begun t (t, some .refreshCache) = none := by simp [begun]
    simp only [hbegun, LocalFacts, Pc.enter, Option.toList_none, List.append_nil]
    exact hf

theorem oamInv_start : OamInv [] (OamState.start τ) where
  local_ _ := ⟨rfl, rfl⟩
  owned := .nil

/-- **One step preserves the invariant.** -/
theorem OamInv.step {tr : List (OamEvent τ)} {s s' : OamState τ} {i : τ × Option OaCall} {o : Obs}
    (h : OamInv tr s) (hs : (oamcrt τ).step s i = some (s', o)) :
    OamInv (tr ++ [⟨s, i, o, s'⟩]) s' := by
  obtain ⟨t, - | call⟩ := i
  · -- the next step of a call
    have hstep : stepThread s t = some (s', o) := hs
    obtain ⟨he, hother⟩ := stepThread_effect hstep
    refine ⟨fun t' ↦ ?_, ?_⟩
    · rw [callsOf_append_singleton]
      show LocalFacts s'.names (s'.threads t') (callsOf t' tr ++ [])
      rw [List.append_nil]
      rcases eq_or_ne t' t with rfl | hne
      · exact (h.local_ t').stepThread hstep
      · rw [hother t' hne]
        exact (h.local_ t').of_effect he h.owned hne
    · rw [namesLedger_append_singleton]
      exact he.owned hother h.owned (h.local_ t)
  · -- the first step of a call
    simp only [oamcrt] at hs
    split_ifs at hs with hpc
    obtain ⟨rfl, rfl⟩ := Prod.mk.inj (Option.some.inj hs)
    have hset : Effect s (s.set t { s.threads t with pc := Pc.enter call }) t none ∧
        ∀ t', t' ≠ t → (s.set t { s.threads t with pc := Pc.enter call }).threads t' =
          s.threads t' :=
      effect_set rfl rfl rfl rfl
    obtain ⟨he, hother⟩ := hset
    refine ⟨fun t' ↦ ?_, ?_⟩
    · rw [callsOf_append_singleton]
      rcases eq_or_ne t' t with rfl | hne
      · rw [OamState.set_self]
        exact (h.local_ t').enter hpc t' call
      · have hbegun : begun t' (t, some call) = none := by simp [begun, hne.symm]
        rw [hother t' hne]
        show LocalFacts s.names (s.threads t') (callsOf t' tr ++ (begun t' (t, some call)).toList)
        rw [hbegun, Option.toList_none, List.append_nil]
        exact h.local_ t'
    · rw [namesLedger_append_singleton]
      exact he.owned hother h.owned (h.local_ t)

theorem oamInv_of_run {tr : List (OamEvent τ)} {s : OamState τ}
    (h : (oamcrt τ).Run (OamState.start τ) tr s) : OamInv tr s :=
  h.invariant oamInv_start fun _ _ _ _ _ hI hs ↦ hI.step hs

end MqExits.Oam
