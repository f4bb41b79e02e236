import MqExits.Oam.DynamicQueue

/-!
# Which creations are checked

`oamcrt` is there to refuse the creation of queues by name: a queue that is defined, which asks for
`MQZAO_CREATE` on it, and a dynamic queue, which asks for `MQZAO_DISPLAY` on its model. An authority
mask can ask for more than one thing at a time, but `OACheckAuth` compares it with the one value.

`CreationChecked` is what the service is for, whatever else is asked for in the same call;
`AsksAlone` is the condition on a call under which it gets it, and over a run the two come to the
same (`creationChecked_iff_asksAlone`).

## The two directions

A call that does not ask alone goes wrong at its own return, whatever the rest of the run does. So
one direction is about a step. The other needs the whole run before it: the check of a dynamic queue
is made when it is copied, with what the check of its model has left, and that one must have asked
alone too. `Answered` carries it: of every `OACheckAuth` that a thread has begun it is known, but
for the one that is not over.
-/

namespace MqExits.Oam

open CText

variable {τ : Type} [DecidableEq τ]

/-! ### What the service is for -/

/-- The call asks, among other things, for the creation of a queue. -/
def CheckArgs.Creates (args : CheckArgs) : Prop :=
  args.objectType = MQOT_Q ∧ args.authority &&& MQZAO_CREATE ≠ 0

/-- The call asks, among other things, for the display of a model queue. -/
def CheckArgs.OpensModel (args : CheckArgs) : Prop :=
  args.objectType = MQOT_MODEL_Q ∧ args.authority &&& MQZAO_DISPLAY ≠ 0

/-- The creation of a queue whose name is not permitted is refused; the display of a model queue
leaves the user name for the `OACopyAllAuth` that follows; and that is refused in turn if its name
is not permitted. `prior` are the calls the thread had begun before. -/
structure CreationChecked (before : List (OamEvent τ)) (e : OamEvent τ) : Prop where
  refuses : ∀ result prior args, e.output = .checked result →
    callsOf e.input.1 before = prior ++ [.checkAuth args] → args.Creates →
      permittedName args.objectName = false → result = refused
  prepares : ∀ result prior args, e.output = .checked result →
    callsOf e.input.1 before = prior ++ [.checkAuth args] → args.OpensModel →
      HoldsStash e.post.names (e.post.threads e.input.1) (some (cstr args.entityName))
  copies : ∀ result prior args objectName, e.output = .copied result →
    callsOf e.input.1 before = prior ++ [.copyAllAuth objectName] →
      prior.getLast? = some (.checkAuth args) → args.OpensModel →
        permittedName objectName = false → result = refused

/-- The call asks for nothing besides, where it matters. -/
def CheckArgs.AsksAlone (args : CheckArgs) : Prop :=
  (args.Creates → permittedName args.objectName = false → args.authority = MQZAO_CREATE) ∧
    (args.OpensModel → args.authority = MQZAO_DISPLAY)

/-- If an `OACheckAuth` returns, it was a call that asked for nothing besides. -/
def ReturnsAlone (before : List (OamEvent τ)) (e : OamEvent τ) : Prop :=
  ∀ result prior args, e.output = .checked result →
    callsOf e.input.1 before = prior ++ [.checkAuth args] → args.AsksAlone

/-! ### Inside an `OACheckAuth` -/

/-- What an `OACheckAuth` returns. -/
def checkResult (args : CheckArgs) : ServiceResult :=
  if args.objectType = MQOT_Q ∧ args.authority = MQZAO_CREATE ∧
    permittedName args.objectName = false then refused else checkDefault

/-- The `OACheckAuth` that a thread is in. -/
def Pc.inCheck : Pc → Option CheckArgs
  | .checkReset args | .checkFree args | .checkTest args | .checkLock args | .checkCompare args
  | .checkUnlock args _ | .checkStash args | .checkReturn args _ => some args
  | _ => none

/-- What has been decided on the way to the result. -/
def Pc.Decided : Pc → Prop
  | .checkLock args | .checkCompare args =>
    args.objectType = MQOT_Q ∧ args.authority = MQZAO_CREATE
  | .checkUnlock args permitted => args.objectType = MQOT_Q ∧ args.authority = MQZAO_CREATE ∧
      permitted = permittedName args.objectName
  | .checkStash args => args.stashes
  | .checkReturn args result => result = checkResult args
  | _ => True

/-- A step of a thread stays in its `OACheckAuth`, or returns from it. -/
def StaysInCheck (pc pc' : Pc) (obs : Obs) : Prop :=
  (pc'.inCheck = pc.inCheck ∧ ∀ result, obs ≠ .checked result) ∨
    ∃ args result, pc = .checkReturn args result ∧ pc' = .idle ∧ obs = .checked result

theorem freedObs_ne_checked (freed : Option NameAddr) (result : ServiceResult) :
    freedObs freed ≠ .checked result := by
  cases freed <;> exact Obs.noConfusion

/-- **One step of a thread**, as far as its `OACheckAuth` goes. -/
theorem stepThread_inCheck {s s' : OamState τ} {t : τ} {obs : Obs}
    (h : stepThread s t = some (s', obs)) :
    StaysInCheck (s.threads t).pc (s'.threads t).pc obs := by
  cases hpc : (s.threads t).pc with
  | idle => simp [stepThread, hpc] at h
  | checkReturn args result =>
    simp only [stepThread, hpc, Option.some.injEq, Prod.mk.injEq] at h
    obtain ⟨rfl, rfl⟩ := h
    -- the only step that says what has been checked
    exact .inr ⟨args, result, rfl, by rw [OamState.set_self], rfl⟩
  | checkReset args | checkCompare args | checkUnlock args permitted | checkStash args
  | copyCompare objectName | copyUnlock objectName permitted | copyReset objectName result
  | copyReturn objectName result | refreshReset | refreshSet | refreshUnlock =>
    simp only [stepThread, hpc, Option.some.injEq, Prod.mk.injEq] at h
    obtain ⟨rfl, rfl⟩ := h
    exact .inl ⟨by simp only [unlockMutex, OamState.set_self, Pc.inCheck], fun _ ↦ Obs.noConfusion⟩
  | checkLock args | copyLock objectName | refreshLock =>
    simp only [stepThread, hpc, Option.map_eq_some_iff, Prod.mk.injEq] at h
    obtain ⟨s₁, hlock, rfl, rfl⟩ := h
    rw [lockMutex_eq_some hlock]
    exact .inl ⟨by simp only [OamState.set_self, Pc.inCheck], fun _ ↦ Obs.noConfusion⟩
  | checkFree args | copyFree objectName result =>
    simp only [stepThread, hpc, Option.some.injEq, Prod.mk.injEq] at h
    obtain ⟨rfl, rfl⟩ := h
    exact .inl ⟨congrArg (fun th ↦ th.pc.inCheck) (freeUser_thread s t _), freedObs_ne_checked _⟩
  | checkTest args | copyTest objectName | refreshTest =>
    simp only [stepThread, hpc] at h
    split_ifs at h <;>
    · simp only [Option.some.injEq, Prod.mk.injEq] at h
      obtain ⟨rfl, rfl⟩ := h
      exact .inl ⟨by simp only [OamState.set_self, Pc.inCheck], fun _ ↦ Obs.noConfusion⟩

/-- **One step of a thread keeps what has been decided.** -/
theorem Pc.Decided.stepThread {s s' : OamState τ} {t : τ} {obs : Obs}
    (hd : (s.threads t).pc.Decided) (h : stepThread s t = some (s', obs)) :
    (s'.threads t).pc.Decided := by
  cases hpc : (s.threads t).pc with
  | idle => simp [Oam.stepThread, hpc] at h
  | checkTest args =>
    simp only [Oam.stepThread, hpc] at h
    -- the branches of the test: a definition, a model queue, or neither
    split_ifs at h with hq hc hm <;>
    · obtain ⟨rfl, -⟩ := Prod.mk.inj (Option.some.inj h)
      rw [OamState.set_self]
      simp_all [Pc.Decided, checkResult, CheckArgs.stashes]
  | checkCompare args =>
    simp only [Oam.stepThread, hpc, Option.some.injEq, Prod.mk.injEq] at h
    obtain ⟨rfl, -⟩ := h
    rw [hpc] at hd
    rw [OamState.set_self]
    exact ⟨hd.1, hd.2, rfl⟩
  | checkUnlock args permitted =>
    simp only [Oam.stepThread, hpc, Option.some.injEq, Prod.mk.injEq] at h
    obtain ⟨rfl, -⟩ := h
    rw [hpc] at hd
    obtain ⟨hq, hc, rfl⟩ := hd
    rw [unlockMutex, OamState.set_self]
    show _ = checkResult args
    -- the name was looked at in the step before, under the mutex
    cases hperm : permittedName args.objectName <;> simp [checkResult, hq, hc, hperm]
  | checkStash args =>
    simp only [Oam.stepThread, hpc, Option.some.injEq, Prod.mk.injEq] at h
    obtain ⟨rfl, -⟩ := h
    rw [hpc] at hd
    rw [OamState.set_self]
    have hq : args.objectType ≠ MQOT_Q := fun hq ↦ absurd (hq.symm.trans hd.1) (by decide)
    exact (if_neg fun hall ↦ hq hall.1).symm
  | checkLock args =>
    simp only [Oam.stepThread, hpc, Option.map_eq_some_iff, Prod.mk.injEq] at h
    obtain ⟨s₁, hlock, rfl, -⟩ := h
    rw [hpc] at hd
    rw [lockMutex_eq_some hlock, OamState.set_self]
    exact hd
  -- the other calls decide nothing about a check
  | copyLock objectName | refreshLock =>
    simp only [Oam.stepThread, hpc, Option.map_eq_some_iff, Prod.mk.injEq] at h
    obtain ⟨s₁, hlock, rfl, -⟩ := h
    rw [lockMutex_eq_some hlock, OamState.set_self]
    trivial
  | checkFree args | copyFree objectName result =>
    simp only [Oam.stepThread, hpc, Option.some.injEq, Prod.mk.injEq] at h
    obtain ⟨rfl, -⟩ := h
    rw [freeUser_thread]
    trivial
  | copyTest objectName | refreshTest =>
    simp only [Oam.stepThread, hpc] at h
    split_ifs at h <;>
    · obtain ⟨rfl, -⟩ := Prod.mk.inj (Option.some.inj h)
      rw [OamState.set_self]
      trivial
  | _ =>
    simp only [Oam.stepThread, hpc, Option.some.injEq, Prod.mk.injEq] at h
    obtain ⟨rfl, -⟩ := h
    simp only [unlockMutex, OamState.set_self, Pc.Decided]

/-! ### Runs -/

/-- The invariant of the stash, with what each thread has decided. -/
structure CheckInv (tr : List (OamEvent τ)) (s : OamState τ) : Prop where
  oam : OamInv tr s
  decided : ∀ t, (s.threads t).pc.Decided

theorem checkInv_start : CheckInv [] (OamState.start τ) where
  oam := oamInv_start
  decided _ := trivial

theorem CheckInv.step {tr : List (OamEvent τ)} {s s' : OamState τ} {i : τ × Option OaCall}
    {o : Obs} (h : CheckInv tr s) (hs : (oamcrt τ).step s i = some (s', o)) :
    CheckInv (tr ++ [⟨s, i, o, s'⟩]) s' := by
  refine ⟨h.oam.step hs, fun t' ↦ ?_⟩
  obtain ⟨t, - | call⟩ := i
  · have hstep : stepThread s t = some (s', o) := hs
    rcases eq_or_ne t' t with rfl | hne
    · exact (h.decided t').stepThread hstep
    · rw [(stepThread_effect hstep).2 t' hne]
      exact h.decided t'
  · simp only [oamcrt] at hs
    split_ifs at hs
    obtain ⟨rfl, -⟩ := Prod.mk.inj (Option.some.inj hs)
    rcases eq_or_ne t' t with rfl | hne
    · rw [OamState.set_self]
      cases call <;> trivial
    · rw [OamState.set_of_ne _ _ hne]
      exact h.decided t'

/-- The result of an `OACheckAuth` and what it leaves behind follow from its arguments. -/
theorem CheckInv.checked {tr : List (OamEvent τ)} {s s' : OamState τ} {i : τ × Option OaCall}
    {result : ServiceResult} {prior : List OaCall} {args : CheckArgs} (h : CheckInv tr s)
    (hs : (oamcrt τ).step s i = some (s', .checked result))
    (hcalls : callsOf i.1 tr = prior ++ [.checkAuth args]) :
    result = checkResult args ∧ HoldsStash s'.names (s'.threads i.1)
      (if args.stashes then some (cstr args.entityName) else none) := by
  have hstep := step_of_not_silent hs Obs.noConfusion
  obtain ⟨-, hne⟩ | ⟨args', result', hpc, -, hobs⟩ := stepThread_inCheck hstep
  · exact absurd rfl (hne result)
  · obtain rfl := Obs.checked.inj hobs
    have hf := h.oam.local_ i.1
    have hd := h.decided i.1
    rw [hpc] at hd
    simp only [LocalFacts, hpc] at hf
    obtain ⟨hlast, hstash⟩ := hf
    obtain rfl : args = args' := by
      rw [hcalls, List.getLast?_concat] at hlast
      exact OaCall.checkAuth.inj (Option.some.inj hlast)
    simp only [stepThread, hpc, Option.some.injEq, Prod.mk.injEq] at hstep
    obtain ⟨rfl, -⟩ := hstep
    rw [OamState.set_self, ← stashAfter_of_checkAuth hlast]
    exact ⟨hd, hstash⟩

theorem checkResult_eq_refused {args : CheckArgs} : checkResult args = refused ↔
    args.objectType = MQOT_Q ∧ args.authority = MQZAO_CREATE ∧
      permittedName args.objectName = false := by
  rw [checkResult]
  split_ifs with h
  · exact iff_of_true rfl h
  · exact iff_of_false (by decide) h

/-- The check needs the call to ask for nothing besides. -/
theorem CheckInv.returnsAlone {tr : List (OamEvent τ)} {s s' : OamState τ}
    {i : τ × Option OaCall} {o : Obs} (h : CheckInv tr s)
    (hs : (oamcrt τ).step s i = some (s', o)) (hc : CreationChecked tr ⟨s, i, o, s'⟩) :
    ReturnsAlone tr ⟨s, i, o, s'⟩ := by
  intro result prior args ho hcalls
  obtain rfl : o = .checked result := ho
  obtain ⟨hresult, hstash⟩ := h.checked hs hcalls
  refine ⟨fun hcreates hperm ↦ ?_, fun hopens ↦ ?_⟩
  · have hrefused := hc.refuses result prior args rfl hcalls hcreates hperm
    exact (checkResult_eq_refused.1 (hresult.symm.trans hrefused)).2.1
  · obtain ⟨hflag, -⟩ := hc.prepares result prior args rfl hcalls hopens
    by_contra hne
    rw [if_neg fun hstashes : args.stashes ↦ hne hstashes.2] at hstash
    exact absurd (hflag.symm.trans hstash.1) (by decide)

/-- Each `OACheckAuth` of a thread asked for nothing besides, or is not over. -/
def Answered (tr : List (OamEvent τ)) (s : OamState τ) : Prop :=
  ∀ t args, OaCall.checkAuth args ∈ callsOf t tr →
    args.AsksAlone ∨ (s.threads t).pc.inCheck = some args

theorem answered_start : Answered [] (OamState.start τ) := by
  intro t args h
  simp [callsOf] at h

theorem Answered.step {tr : List (OamEvent τ)} {s s' : OamState τ} {i : τ × Option OaCall}
    {o : Obs} (h : Answered tr s) (hinv : CheckInv tr s)
    (hs : (oamcrt τ).step s i = some (s', o)) (halone : ReturnsAlone tr ⟨s, i, o, s'⟩) :
    Answered (tr ++ [⟨s, i, o, s'⟩]) s' := by
  intro t' args hmem
  rw [callsOf_append_singleton] at hmem
  obtain ⟨t, - | call⟩ := i
  · -- the next step of a call
    have hstep : stepThread s t = some (s', o) := hs
    have hold : OaCall.checkAuth args ∈ callsOf t' tr := by simpa [begun] using hmem
    rcases eq_or_ne t' t with rfl | hne
    · obtain ⟨hsame, -⟩ | ⟨args', result, hpc, -, rfl⟩ := stepThread_inCheck hstep
      · rw [hsame]
        exact h t' args hold
      · refine .inl ((h t' args hold).elim id fun hin ↦ ?_)
        rw [hpc] at hin
        obtain rfl : args' = args := Option.some.inj hin
        have hf := hinv.oam.local_ t'
        simp only [LocalFacts, hpc] at hf
        exact halone result _ args' rfl (List.dropLast_append_getLast? _ hf.1).symm
    · rw [(stepThread_effect hstep).2 t' hne]
      exact h t' args hold
  · -- the first step of a call
    simp only [oamcrt] at hs
    split_ifs at hs with hpc
    obtain ⟨rfl, -⟩ := Prod.mk.inj (Option.some.inj hs)
    rcases eq_or_ne t' t with rfl | hne
    · rcases List.mem_append.1 hmem with hold | hnew
      · refine .inl ((h t' args hold).elim id fun hin ↦ ?_)
        rw [hpc] at hin
        cases hin
      · obtain rfl : call = .checkAuth args := by
          simp only [begun, Option.mem_toList] at hnew
          split_ifs at hnew
          exact Option.some.inj hnew
        exact .inr (by rw [OamState.set_self]; rfl)
    · have hold : OaCall.checkAuth args ∈ callsOf t' tr := by
        simpa [begun, hne.symm] using hmem
      rw [OamState.set_of_ne _ _ hne]
      exact h t' args hold

/-- Under the condition a step is checked. -/
theorem Answered.creationChecked {tr : List (OamEvent τ)} {s s' : OamState τ}
    {i : τ × Option OaCall} {o : Obs} (h : Answered tr s) (hinv : CheckInv tr s)
    (hs : (oamcrt τ).step s i = some (s', o)) (halone : ReturnsAlone tr ⟨s, i, o, s'⟩) :
    CreationChecked tr ⟨s, i, o, s'⟩ := by
  refine ⟨?_, ?_, ?_⟩
  · intro result prior args ho hcalls hcreates hperm
    obtain rfl : o = .checked result := ho
    obtain ⟨hresult, -⟩ := hinv.checked hs hcalls
    have hone := (halone result prior args rfl hcalls).1 hcreates hperm
    exact hresult.trans (checkResult_eq_refused.2 ⟨hcreates.1, hone, hperm⟩)
  · intro result prior args ho hcalls hopens
    obtain rfl : o = .checked result := ho
    obtain ⟨-, hstash⟩ := hinv.checked hs hcalls
    have hone := (halone result prior args rfl hcalls).2 hopens
    rwa [if_pos ⟨hopens.1, hone⟩] at hstash
  · intro result prior args objectName ho hcalls hprior hopens hperm
    obtain ⟨prior', objectName', hcalls', hiff⟩ := hinv.oam.refusesRightly hs result ho
    obtain ⟨rfl, hlast⟩ := List.append_inj' (hcalls.symm.trans hcalls') rfl
    obtain rfl := OaCall.copyAllAuth.inj (List.singleton_inj.1 hlast)
    -- the call on the model queue is over
    have hmem : OaCall.checkAuth args ∈ callsOf i.1 tr := by
      rw [show callsOf i.1 tr = _ from hcalls]
      exact List.mem_append_left _ (List.mem_of_getLast? hprior)
    have hout : (s.threads i.1).pc.inCheck ≠ some args := by
      obtain rfl : o = .copied result := ho
      obtain ⟨objectName, hpc⟩ := stepThread_copied (step_of_not_silent hs Obs.noConfusion)
      rw [hpc]
      exact Option.some_ne_none _ |>.symm
    have hone := ((h i.1 args hmem).resolve_right hout).2 hopens
    exact hiff.2 ⟨⟨args, hprior, hopens.1, hone⟩, hperm⟩

/-- **Creations are checked in a run exactly if no call in it asks for more.** -/
theorem creationChecked_iff_asksAlone {tr : List (OamEvent τ)} {s : OamState τ}
    (h : (oamcrt τ).Run (OamState.start τ) tr s) :
    (∀ before e after, tr = before ++ e :: after → CreationChecked before e) ↔
      ∀ before e after, tr = before ++ e :: after → ReturnsAlone before e := by
  constructor
  · intro hall before e after heq
    exact h.forall_split checkInv_start (fun _ _ _ _ _ hI hs ↦ hI.step hs)
      (P := fun before e ↦ CreationChecked before e → ReturnsAlone before e)
      (fun _ _ _ _ _ hI hs ↦ hI.returnsAlone hs) before e after heq (hall before e after heq)
  · exact h.forall_split_of_forall (I := fun tr s ↦ CheckInv tr s ∧ Answered tr s)
      ⟨checkInv_start, answered_start⟩ fun _ _ _ _ _ hI hs halone ↦
        ⟨⟨hI.1.step hs, hI.2.step hI.1 hs halone⟩, hI.2.creationChecked hI.1 hs halone⟩

/-- A user may create the queue and put to it. -/
def CheckArgs.createAndPut : CheckArgs where
  entityName := lit "alice"
  objectName := lit "NOTALLOWED.1"
  objectType := MQOT_Q
  authority := MQZAO_CREATE ||| 0x00000008

/-- The `OACheckAuth` for it, as far as its return. -/
def createAndPutInputs : List (Unit × Option OaCall) :=
  ((), some (.checkAuth .createAndPut)) :: List.replicate 4 ((), none)

theorem creationChecked_iff_asksAlone_createAndPut :
    (∀ before e after, (runOn createAndPutInputs).1 = before ++ e :: after →
      CreationChecked before e) ↔
    ∀ before e after, (runOn createAndPutInputs).1 = before ++ e :: after →
      ReturnsAlone before e :=
  creationChecked_iff_asksAlone (run_runOn rfl)

/-- That creation is not refused. -/
theorem not_creationChecked_createAndPut :
    ¬ ∀ (tr : List (OamEvent Unit)) (s : OamState Unit),
      (oamcrt Unit).Run (OamState.start Unit) tr s →
        ∀ before e after, tr = before ++ e :: after → CreationChecked before e := by
  intro h
  have hrun : (oamcrt Unit).Run (OamState.start Unit) (runOn createAndPutInputs).1 _ :=
    run_runOn rfl
  have hchecked := h _ _ hrun ((runOn createAndPutInputs).1.take 4) _ [] rfl
  have hcreates : CheckArgs.createAndPut.Creates := ⟨rfl, by decide⟩
  exact absurd (hchecked.refuses checkDefault [] .createAndPut rfl rfl hcreates (by decide))
    (by decide)

end MqExits.Oam
