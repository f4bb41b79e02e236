import MqExits.Oam.OamcrtStash

/-!
# The creation of dynamic queues

What `oamcrt` guarantees over any run of its threads (`copyAllAuth_refuses_iff`): an `OACopyAllAuth`
is refused exactly when the thread's previous call was the `OACheckAuth` of the model queue and the
new name is not permitted, and the user it is asked about is the one of that call.

The two variables agree with each other **between** these calls. Within one they do not: the flag is
set or reset before the name is duplicated or freed. A duplicated name is freed **once**, by the
next call of its thread; one that no call has followed is still there.

## The previous call

It is read off the run: the calls that a thread has begun, in order, of which the last one is the
call in question (`callsOf`). Calls of other threads come between, in any number and at any point,
and are left out by it. So the statements name no variable of the source, but for the one that the
flag and the stash agree.

The ledger of the names is that of all the threads together (`namesLedger`): a name is acquired
once, as each duplicate is a name of its own, and which of them are released is said by who still
has one.
-/

namespace MqExits.Oam

open CText Ledger

variable {τ : Type} [DecidableEq τ]

/-! ### Where observations come from -/

theorem freedObs_ne_copied (freed : Option NameAddr) (result : ServiceResult) :
    freedObs freed ≠ .copied result := by
  cases freed <;> exact Obs.noConfusion

theorem freedObs_ne_asked (freed : Option NameAddr) (objectName : Bytes) (user : Option Bytes) :
    freedObs freed ≠ .asked objectName user := by
  cases freed <;> exact Obs.noConfusion

/-- Only the end of an `OACopyAllAuth` returns its result. -/
theorem stepThread_copied {s s' : OamState τ} {t : τ} {result : ServiceResult}
    (h : stepThread s t = some (s', .copied result)) :
    ∃ objectName, (s.threads t).pc = .copyReturn objectName result := by
  cases hpc : (s.threads t).pc with
  | copyReturn objectName result' =>
    simp only [stepThread, hpc, Option.some.injEq, Prod.mk.injEq, Obs.copied.injEq] at h
    exact ⟨objectName, by rw [h.2]⟩
  | checkFree args | copyFree objectName result' =>
    simp only [stepThread, hpc, Option.some.injEq, Prod.mk.injEq] at h
    exact absurd h.2 (freedObs_ne_copied _ _)
  | checkTest args | copyTest objectName | refreshTest =>
    simp only [stepThread, hpc] at h
    split_ifs at h <;> simp at h
  | _ => simp [stepThread, hpc] at h

/-- Only the tests of the two calls ask about an object; `OACopyAllAuth` asks about the name that is
stashed. -/
theorem stepThread_asked {s s' : OamState τ} {t : τ} {objectName : Bytes} {user : Option Bytes}
    (h : stepThread s t = some (s', .asked objectName user)) :
    (∃ args, (s.threads t).pc = .checkTest args) ∨
      (s.threads t).pc = .copyTest objectName ∧ (s.threads t).prepareToCopy = true ∧
        user = (s.threads t).prepareToCopyUser.bind s.names := by
  cases hpc : (s.threads t).pc with
  | checkTest args => exact .inl ⟨args, rfl⟩
  | copyTest objectName' =>
    simp only [stepThread, hpc] at h
    split_ifs at h with hprep
    · simp only [Option.some.injEq, Prod.mk.injEq, Obs.asked.injEq] at h
      obtain ⟨-, rfl, rfl⟩ := h
      exact .inr ⟨rfl, hprep, rfl⟩
    · simp at h
  | checkFree args | copyFree objectName' result' =>
    simp only [stepThread, hpc, Option.some.injEq, Prod.mk.injEq] at h
    exact absurd h.2 (freedObs_ne_asked _ _ _)
  | refreshTest =>
    simp only [stepThread, hpc] at h
    split_ifs at h <;> simp at h
  | _ => simp [stepThread, hpc] at h

/-- A step that begins a call shows nothing. -/
theorem step_of_not_silent {s s' : OamState τ} {i : τ × Option OaCall} {o : Obs}
    (h : (oamcrt τ).step s i = some (s', o)) (ho : o ≠ .silent) :
    stepThread s i.1 = some (s', o) := by
  obtain ⟨t, - | call⟩ := i
  · exact h
  · simp only [oamcrt] at h
    split_ifs at h
    exact absurd (Prod.mk.inj (Option.some.inj h)).2.symm ho

/-! ### The decision -/

/-- An `OACheckAuth` for a model queue was the latest of these calls. -/
def FollowsModelQueueCheck (prior : List OaCall) (args : CheckArgs) : Prop :=
  prior.getLast? = some (.checkAuth args) ∧ args.stashes

theorem stashAfter_eq_some {prior : List OaCall} {name : Bytes} :
    stashAfter prior = some name ↔
      ∃ args, FollowsModelQueueCheck prior args ∧ cstr args.entityName = name := by
  unfold stashAfter FollowsModelQueueCheck
  rcases prior.getLast? with - | (args | objectName | -)
  · simp
  · simp only [Option.bind_some, OaCall.stash, Option.some.injEq, OaCall.checkAuth.injEq]
    split_ifs with hs
    · simp [hs]
    · simp [hs]
  · simp [OaCall.stash]
  · simp [OaCall.stash]

theorem stashAfter_isSome {prior : List OaCall} :
    (stashAfter prior).isSome ↔ ∃ args, FollowsModelQueueCheck prior args := by
  rw [Option.isSome_iff_exists]
  constructor
  · rintro ⟨name, h⟩
    obtain ⟨args, hargs, -⟩ := stashAfter_eq_some.1 h
    exact ⟨args, hargs⟩
  · rintro ⟨args, h⟩
    exact ⟨_, stashAfter_eq_some.2 ⟨args, h, rfl⟩⟩

/-- A call that returns is refused exactly when it follows an `OACheckAuth` for a model queue and
its name is not permitted. `prior` are the calls its thread had begun before. -/
def RefusesRightly (before : List (OamEvent τ)) (e : OamEvent τ) : Prop :=
  ∀ result, e.output = .copied result → ∃ prior objectName,
    callsOf e.input.1 before = prior ++ [.copyAllAuth objectName] ∧
      (result = refused ↔
        (∃ args, FollowsModelQueueCheck prior args) ∧ permittedName objectName = false)

/-- What `permittedObject` is asked by an `OACopyAllAuth` is about its own object and the user of
the `OACheckAuth` before it. -/
def AsksForUser (before : List (OamEvent τ)) (e : OamEvent τ) : Prop :=
  ∀ asked user prior objectName, e.output = .asked asked user →
    callsOf e.input.1 before = prior ++ [.copyAllAuth objectName] →
      asked = objectName ∧
        ∃ args, FollowsModelQueueCheck prior args ∧ user = some (cstr args.entityName)

theorem OamInv.refusesRightly {tr : List (OamEvent τ)} {s s' : OamState τ}
    {i : τ × Option OaCall} {o : Obs} (h : OamInv tr s)
    (hs : (oamcrt τ).step s i = some (s', o)) : RefusesRightly tr ⟨s, i, o, s'⟩ := by
  intro result ho
  obtain rfl : o = .copied result := ho
  obtain ⟨objectName, hpc⟩ := stepThread_copied (step_of_not_silent hs Obs.noConfusion)
  have hf := h.local_ i.1
  simp only [LocalFacts, hpc] at hf
  obtain ⟨hlast, -, hresult⟩ := hf
  refine ⟨(callsOf i.1 tr).dropLast, objectName,
    (List.dropLast_append_getLast? _ hlast).symm, ?_⟩
  rw [hresult, copyResult_eq_refused, stashAfter_isSome]

theorem OamInv.asksForUser {tr : List (OamEvent τ)} {s s' : OamState τ}
    {i : τ × Option OaCall} {o : Obs} (h : OamInv tr s)
    (hs : (oamcrt τ).step s i = some (s', o)) : AsksForUser tr ⟨s, i, o, s'⟩ := by
  intro asked user prior objectName ho hcalls
  obtain rfl : o = .asked asked user := ho
  have hlast : (callsOf i.1 tr).getLast? = some (.copyAllAuth objectName) := by
    rw [show callsOf i.1 tr = _ from hcalls, List.getLast?_concat]
  have hprior : (callsOf i.1 tr).dropLast = prior := by
    rw [show callsOf i.1 tr = _ from hcalls, List.dropLast_concat]
  have hf := h.local_ i.1
  obtain ⟨args, hpc⟩ | ⟨hpc, hprep, rfl⟩ :=
    stepThread_asked (step_of_not_silent hs Obs.noConfusion)
  · -- the question of an `OACheckAuth`
    simp only [LocalFacts, hpc] at hf
    have hcall := hf.1.symm.trans hlast
    simp at hcall
  · simp only [LocalFacts, hpc, hprior] at hf
    obtain ⟨hself, hstash⟩ := hf
    obtain ⟨name, hname⟩ := Option.isSome_iff_exists.1 (hstash.prepareToCopy_iff.1 hprep)
    obtain ⟨args, hargs, rfl⟩ := stashAfter_eq_some.1 hname
    rw [hname] at hstash
    obtain ⟨-, a, ha, hnames⟩ := hstash
    refine ⟨?_, args, hargs, by rw [ha, Option.bind_some, hnames]⟩
    simpa using hself.symm.trans hlast

/-! ### The stash -/

/-- The thread is in no call that uses its two variables. -/
def Pc.outside : Pc → Bool
  | .idle | .refreshReset | .refreshTest | .refreshLock | .refreshSet | .refreshUnlock => true
  | _ => false

theorem LocalFacts.holdsStash_of_outside {names : NameAddr → Option Bytes} {th : Thread}
    {calls : List OaCall} (h : LocalFacts names th calls) (hout : th.pc.outside) :
    HoldsStash names th (stashAfter calls) := by
  rw [LocalFacts] at h
  cases hpc : th.pc <;> simp only [hpc] at h hout <;> first | exact h | cases hout

/-- The flag stands for the stashed name. -/
def FlagTellsStash (s : OamState τ) (t : τ) : Prop :=
  (s.threads t).prepareToCopy = true ↔ (s.stashes t).isSome

omit [DecidableEq τ] in
theorem HoldsStash.flagTellsStash {s : OamState τ} {t : τ} {stash : Option Bytes}
    (h : HoldsStash s.names (s.threads t) stash) : FlagTellsStash s t := by
  rw [FlagTellsStash, OamState.stashes]
  cases stash with
  | none => simp [h.1, h.2]
  | some name =>
    obtain ⟨hprep, a, ha, -⟩ := h
    simp [hprep, ha]

/-- **What `oamcrt` decides and frees**, over any run. -/
theorem copyAllAuth_refuses_iff {tr : List (OamEvent τ)} {s : OamState τ}
    (h : (oamcrt τ).Run (OamState.start τ) tr s) :
    (∀ before e after, tr = before ++ e :: after →
      RefusesRightly before e ∧ AsksForUser before e) ∧
    (∀ t, (s.threads t).pc.outside → FlagTellsStash s t ∧
      ((s.stashes t).isSome ↔ ∃ args, FollowsModelQueueCheck (callsOf t tr) args)) ∧
    ∀ a, Op.acquire a ∈ namesLedger tr →
      (namesLedger tr).count (Op.acquire a) = 1 ∧
      ((∃ t, s.stashes t = some a) → (namesLedger tr).count (Op.release a) = 0) ∧
      ((∀ t, s.stashes t ≠ some a) → (namesLedger tr).count (Op.release a) = 1) := by
  have hinv := oamInv_of_run h
  refine ⟨?_, fun t hout ↦ ?_, fun a ha ↦ ?_⟩
  · exact h.forall_split oamInv_start (fun _ _ _ _ _ hI hs ↦ hI.step hs)
      fun _ _ _ _ _ hI hs ↦ ⟨hI.refusesRightly hs, hI.asksForUser hs⟩
  · have hstash := (hinv.local_ t).holdsStash_of_outside hout
    have hflag := hstash.flagTellsStash
    exact ⟨hflag, by rw [← stashAfter_isSome, ← hstash.prepareToCopy_iff]; exact hflag.symm⟩
  · have hcount := hinv.owned.acquired a
    have hlt : a < s.next := by
      -- a name that is not yet given out has been acquired by nobody
      by_contra hge
      rw [if_neg hge] at hcount
      exact absurd (List.count_eq_zero.1 hcount) (not_not_intro ha)
    rw [if_pos hlt] at hcount
    exact ⟨hcount, fun ⟨t, ht⟩ ↦ hinv.owned.kept ht, hinv.owned.released a hlt⟩

/-! ### One thread and a model queue -/

/-- An application is about to open a model queue. -/
def CheckArgs.sample : CheckArgs where
  entityName := lit "alice"
  objectName := lit "SYSTEM.DEFAULT.MODEL.QUEUE"
  objectType := MQOT_MODEL_Q
  authority := MQZAO_DISPLAY

/-- `n` steps of the call for it. -/
def checkInputs (n : ℕ) : List (Unit × Option OaCall) :=
  ((), some (.checkAuth .sample)) :: List.replicate n ((), none)

/-- The run on some inputs. -/
def runOn (is : List (Unit × Option OaCall)) : List (OamEvent Unit) × OamState Unit :=
  ((oamcrt Unit).replay (OamState.start Unit) is).getD ([], OamState.start Unit)

theorem run_runOn {is : List (Unit × Option OaCall)}
    (h : ((oamcrt Unit).replay (OamState.start Unit) is).isSome) :
    (oamcrt Unit).Run (OamState.start Unit) (runOn is).1 (runOn is).2 :=
  Machine.run_getD_replay h

/-- The check, and the creation of a queue whose name is not permitted. -/
def refusedInputs : List (Unit × Option OaCall) :=
  checkInputs 5 ++ ((), some (.copyAllAuth (lit "NOTALLOWED.1"))) :: List.replicate 7 ((), none)

theorem copyAllAuth_refuses_iff_refusedInputs :
    (oamcrt Unit).Run (OamState.start Unit) (runOn refusedInputs).1 (runOn refusedInputs).2 ∧
    (∀ before e after, (runOn refusedInputs).1 = before ++ e :: after →
      RefusesRightly before e ∧ AsksForUser before e) ∧
    (∀ t, ((runOn refusedInputs).2.threads t).pc.outside →
      FlagTellsStash (runOn refusedInputs).2 t ∧ (((runOn refusedInputs).2.stashes t).isSome ↔
        ∃ args, FollowsModelQueueCheck (callsOf t (runOn refusedInputs).1) args)) ∧
    ∀ a, Op.acquire a ∈ namesLedger (runOn refusedInputs).1 →
      (namesLedger (runOn refusedInputs).1).count (Op.acquire a) = 1 ∧
      ((∃ t, (runOn refusedInputs).2.stashes t = some a) →
        (namesLedger (runOn refusedInputs).1).count (Op.release a) = 0) ∧
      ((∀ t, (runOn refusedInputs).2.stashes t ≠ some a) →
        (namesLedger (runOn refusedInputs).1).count (Op.release a) = 1) :=
  ⟨run_runOn rfl, copyAllAuth_refuses_iff (run_runOn rfl)⟩

/-- A name that no call has followed is still allocated, and inside a call the flag and the name
disagree. -/
theorem not_flagTellsStash_and_freed :
    (¬ ∀ (tr : List (OamEvent Unit)) (s : OamState Unit),
      (oamcrt Unit).Run (OamState.start Unit) tr s →
        ∀ a, Op.acquire a ∈ namesLedger tr → (namesLedger tr).count (Op.release a) = 1) ∧
    ¬ ∀ (tr : List (OamEvent Unit)) (s : OamState Unit),
      (oamcrt Unit).Run (OamState.start Unit) tr s → ∀ t, FlagTellsStash s t := by
  constructor
  · intro h
    have hrun : (oamcrt Unit).Run (OamState.start Unit) (runOn (checkInputs 5)).1 _ :=
      run_runOn rfl
    exact absurd (h _ _ hrun 0 (by decide)) (by decide)
  · intro h
    have hrun : (oamcrt Unit).Run (OamState.start Unit) _ (runOn (checkInputs 3)).2 :=
      run_runOn rfl
    exact absurd ((h _ _ hrun ()).1 rfl) (by decide)

end MqExits.Oam
