import MqExits.Otel.Registration

/-!
# The connections that are counted

`initCount` is meant to tell which `Terminate` is the last one. `EntryPoint` raises it on every
connection, and `Terminate` lowers it on those that it is registered on. So the two agree exactly as
long as every connection gets the exits (`initCount_eq_pending_iff`).

What the last `Terminate` is to clean up depends on two more things. `closeFp` stays false once the
log has been the standard output or the standard error, so a file opened for the log after that is
not closed; and the members of the `ot` table outlive the module, so the call of `mqotTerm` can be
one into a module that is not there.
-/

namespace MqExits.Otel

open CText

/-! ### What is meant -/

/-- The count is that of the connections on which `Terminate` is registered and has not run. -/
def Counted (h : Host) : Prop :=
  h.process.initCount = h.pending

instance (h : Host) : Decidable (Counted h) :=
  inferInstanceAs (Decidable (_ = _))

/-- The log file that `EntryPoint` has opened itself. -/
def openedHere : Option LogFile → Option LogFile
  | some (.file name) => some (.file name)
  | some .stdout | some .stderr | none => none

/-- When the connection is the only one left, its `Terminate` runs the module's `mqotTerm`, closes
the log if it was opened here, and unloads the module. -/
def CleansUp (h : Host) : Prop :=
  h.pending = 1 → ∃ p r, terminate h.process = some (p, r) ∧
    r.termCalled = h.process.hdl.any (·.module.offers .term) ∧
    r.closed = openedHere h.process.fp ∧ r.unloaded = h.process.hdl.isSome ∧
    p.hdl = none ∧ p.fp = none

/-! ### When it is so -/

/-- If the step is a connection, then it gets the exits: the log is open, unless none is wanted, the
connection gets as far as the module, and `mqotInit` is there and counts as successful if a module
is. -/
def GetsExits (e : HostEvent) : Prop :=
  match e.input with
  | .entryPoint c => (openLog e.pre.process c).isSome ∧ reachesModule c = true ∧
    ∀ m, loadModule e.pre.process c = some m →
      m.module.offers .init = true ∧ (m.initialised = true ∨ m.module.abi = REQUIRED_ABI)
  | .exitFunction _ => True

/-- If the step is a connection, then it leaves no file for the log that is not to be closed. -/
def LogsClosably (e : HostEvent) : Prop :=
  match e.input with
  | .entryPoint c => ∀ name, openLog e.pre.process c ≠ some (some (.file name), false)
  | .exitFunction _ => True

/-- **`EntryPoint` registers the exits** exactly on a connection that gets as far as `mqotInit`. -/
theorem registered_entryPoint_iff (p : Process) (c : Connection) :
    (entryPoint p c).2.registered = true ↔ (openLog p c).isSome ∧ reachesModule c = true ∧
      ∀ m, loadModule p c = some m →
        m.module.offers .init = true ∧ (m.initialised = true ∨ m.module.abi = REQUIRED_ABI) := by
  rcases entryPoint_cases p c with ⟨hlog, heq⟩ | ⟨fp, closeFp, hlog, ⟨hreach, heq⟩ | ⟨hreach, heq⟩⟩
  · rw [heq, hlog]
    simp
  · rw [heq, hreach]
    simp
  · rw [heq, hlog, hreach]
    let p₁ : Process := { p with initCount := p.initCount + 1, fp := fp, closeFp := closeFp }
    have hsame : loadModule p₁ c = loadModule p c := rfl
    simp only [Option.isSome_some, true_and, ← hsame]
    rcases connectModule_cases p₁ c with ⟨hnone, -, heq'⟩ | ⟨m, hm, -⟩
    · rw [heq', hnone]
      simp
    · rw [(connectModule_spec hm).2, hm]
      simp

/-- One step keeps the count exactly when it is no connection without the exits. -/
theorem counted_step {h h' : Host} {call : HostCall} {o : HostOutput} (hcount : Counted h)
    (hstep : hostMachine.step h call = some (h', o)) :
    Counted h' ↔ GetsExits ⟨h, call, o, h'⟩ := by
  rw [Counted] at hcount ⊢
  cases call with
  | entryPoint c =>
    obtain ⟨p, r, hentry, -, rfl⟩ := hostMachine_entryPoint hstep
    have hraised := initCount_entryPoint h.process c
    rw [hentry] at hraised
    have hregistered := registered_entryPoint_iff h.process c
    rw [hentry] at hregistered
    rw [GetsExits]
    dsimp only
    rw [← hregistered, hraised, hcount]
    -- the count is raised on every connection; the registrations only where it gets the exits
    rcases r.registered with - | -
    · refine iff_of_false ?_ Bool.false_ne_true
      show (h.pending : ℤ) + 1 ≠ h.pending
      omega
    · exact iff_of_true rfl rfl
  | exitFunction f =>
    refine iff_of_true ?_ trivial
    obtain ⟨hpending, rfl | ⟨p, r, -, hterm, -, rfl⟩⟩ := hostMachine_exitFunction hstep
    · exact hcount
    · rcases terminate_cases hterm with ⟨-, rfl⟩ | ⟨hlast, -, hzero, -⟩
      · show h.process.initCount - 1 = ((h.pending - 1 : ℕ) : ℤ)
        omega
      · show p.initCount = ((h.pending - 1 : ℕ) : ℤ)
        omega

/-- What is closed is what was opened here. -/
def Process.ClosesLog (p : Process) : Prop :=
  (if p.closeFp then p.fp else none) = openedHere p.fp

/-- The log is opened so that it will be closed if it was opened here, unless it is a file that is
not to be closed. -/
theorem closesLog_openLog {p : Process} {c : Connection} {fp : Option LogFile} {closeFp : Bool}
    (h : p.ClosesLog) (hopen : openLog p c = some (fp, closeFp))
    (hok : ∀ name, fp = some (.file name) → closeFp = true) :
    (if closeFp then fp else none) = openedHere fp := by
  rw [Process.ClosesLog] at h
  rcases hfp : p.fp with - | log
  · rcases hlogfile : c.logfile with - | f
    · rw [openLog, hfp, hlogfile] at hopen
      obtain ⟨rfl, rfl⟩ := Prod.mk.inj (Option.some.inj hopen)
      exact ite_self none
    · rw [openLog, hfp, hlogfile] at hopen
      dsimp only at hopen
      split_ifs at hopen
      · obtain ⟨rfl, rfl⟩ := Prod.mk.inj (Option.some.inj hopen)
        rfl
      · obtain ⟨rfl, rfl⟩ := Prod.mk.inj (Option.some.inj hopen)
        rfl
      · obtain ⟨rfl, -⟩ := Prod.mk.inj (Option.some.inj hopen)
        rw [if_pos (hok f rfl)]
        rfl
  · rw [openLog, hfp] at hopen
    obtain ⟨rfl, rfl⟩ := Prod.mk.inj (Option.some.inj hopen)
    rwa [hfp] at h

/-- One step keeps that when it leaves no file that is not to be closed. -/
theorem closesLog_step {h h' : Host} {call : HostCall} {o : HostOutput}
    (hlog : h.process.ClosesLog) (hstep : hostMachine.step h call = some (h', o))
    (hok : LogsClosably ⟨h, call, o, h'⟩) : h'.process.ClosesLog := by
  cases call with
  | entryPoint c =>
    obtain ⟨p, r, hentry, -, rfl⟩ := hostMachine_entryPoint hstep
    rcases entryPoint_cases h.process c with ⟨-, heq⟩ | ⟨fp, closeFp, hopen, hcase⟩
    · obtain ⟨rfl, rfl⟩ := Prod.mk.inj (hentry.symm.trans heq)
      exact hlog
    · -- loading the module changes neither the file nor the flag
      have hleft : p.fp = fp ∧ p.closeFp = closeFp := by
        rcases hcase with ⟨-, heq⟩ | ⟨-, heq⟩
        · obtain ⟨rfl, rfl⟩ := Prod.mk.inj (hentry.symm.trans heq)
          exact ⟨rfl, rfl⟩
        · rcases connectModule_cases _ c with ⟨-, -, heq'⟩ | ⟨m, -, heq'⟩
          · obtain ⟨rfl, rfl⟩ := Prod.mk.inj (hentry.symm.trans (heq.trans heq'))
            exact ⟨rfl, rfl⟩
          · obtain ⟨rfl, rfl⟩ := Prod.mk.inj (hentry.symm.trans (heq.trans heq'))
            exact ⟨rfl, rfl⟩
      show (if p.closeFp then p.fp else none) = openedHere p.fp
      rw [hleft.1, hleft.2]
      refine closesLog_openLog hlog hopen fun name hname ↦ ?_
      rw [← Bool.not_eq_false]
      intro hfalse
      exact hok name (by rw [hopen, hname, hfalse])
  | exitFunction f =>
    obtain ⟨-, rfl | ⟨p, r, -, hterm, -, rfl⟩⟩ := hostMachine_exitFunction hstep
    · exact hlog
    · rcases terminate_cases hterm with ⟨-, rfl⟩ | ⟨-, -, -, hnone⟩
      · exact hlog
      · -- the last one has closed the log
        show (if p.closeFp then p.fp else none) = openedHere p.fp
        rw [hnone]
        exact ite_self none

/-! ### The last `Terminate` -/

/-- A safe call of `ot.term` is made where the module has `mqotTerm`, and changes the module's own
data at most. -/
theorem callTerm_of_callsLoaded {p : Process} (h : p.CallsLoaded .term) :
    ∃ p', callTerm p = some p' ∧ p'.ot = p.ot ∧ p'.fp = p.fp ∧ p'.closeFp = p.closeFp ∧
      p'.hdl.isSome = p.hdl.isSome := by
  rcases hot : p.ot .term with - | load
  · exact ⟨p, by rw [callTerm, hot], rfl, rfl, rfl, rfl⟩
  · have hload : p.hdl.map (·.load) = some load :=
      (h.resolve_left (by rw [hot]; simp)).symm.trans hot
    obtain ⟨m, hm, rfl⟩ := Option.map_eq_some_iff.1 hload
    refine ⟨{ p with hdl := some (mqotTerm m) }, ?_, rfl, rfl, rfl, by rw [hm]; rfl⟩
    rw [callTerm, hot, hm]
    exact if_pos rfl

/-- **What the last `Terminate` does**, where the count is right, the calls are safe and a log file
is to be closed. -/
theorem cleansUp_of_counted {h : Host} (hc : h.Consistent) (hcount : Counted h)
    (hsafe : CallsLoaded h) (hlog : h.process.ClosesLog) : CleansUp h := by
  intro hone
  have hterm : h.process.CallsLoaded .term :=
    hsafe (hone ▸ Nat.one_ne_zero) (.CONNECTION, .TERM, .Terminate) (by decide)
  let p : Process := { h.process with initCount := h.process.initCount - 1 }
  obtain ⟨p', hcall, hot, hfp, hcloseFp, hhdl⟩ :=
    callTerm_of_callsLoaded (show p.CallsLoaded .term from hterm)
  have hlast : p.initCount ≤ 0 := by
    rw [Counted, hone] at hcount
    show h.process.initCount - 1 ≤ 0
    omega
  have hrun : terminate h.process = some ({ p' with fp := none, hdl := none, initCount := 0 },
      ⟨(p'.ot .term).isSome, if p'.closeFp then p'.fp else none, p'.hdl.isSome⟩) := by
    rw [terminate]
    dsimp only
    rw [if_pos hlast, show callTerm { h.process with initCount := _ } = some p' from hcall]
    rfl
  refine ⟨_, _, hrun, ?_, ?_, hhdl, rfl, rfl⟩
  · rw [hot]
    show (h.process.ot .term).isSome = _
    rcases hm : h.process.hdl with - | m
    · -- a call that is safe without a module is none
      have hnone : h.process.ot .term = none := by
        rcases hterm with heq | heq
        · exact heq
        · rw [heq, hm]
          rfl
      rw [hnone]
      rfl
    · rw [hc.table m hm]
      show (if m.module.offers .term then some m.load else none).isSome = m.module.offers .term
      cases m.module.offers .term <;> rfl
  · dsimp only
    rw [hcloseFp, hfp]
    show (if h.process.closeFp then h.process.fp else none) = openedHere h.process.fp
    exact hlog

/-! ### Runs -/

/-- **When the count is right, and what follows.** `initCount` is the number of connections whose
`Terminate` is still to come, after every step of a run, exactly when every connection of the run
gets the exits. If moreover no connection leaves a file for the log that is not to be closed, and
none that cannot load the module finds members that an unloaded one has left, then the last
`Terminate` cleans up. -/
theorem initCount_eq_pending_iff {tr : List HostEvent} {h : Host}
    (hrun : hostMachine.Run Host.start tr h) :
    ((∀ e ∈ tr, Counted e.post) ↔ ∀ e ∈ tr, GetsExits e) ∧
      ((∀ e ∈ tr, GetsExits e ∧ LogsClosably e ∧ FindsNothingLeft e) →
        ∀ e ∈ tr, CleansUp e.post) := by
  have hcounted : (∀ e ∈ tr, Counted e.post) ↔ ∀ e ∈ tr, GetsExits e := by
    exact hrun.forall_post_iff (show Counted Host.start from rfl)
      fun _ _ _ _ _ _ hcount hstep ↦ counted_step hcount hstep
  refine ⟨hcounted, fun hok e he ↦ ?_⟩
  have hcount := hcounted.2 fun e he ↦ (hok e he).1
  have hcloses := hrun.forall_post (I := fun h ↦ h.process.ClosesLog) (C := LogsClosably)
    (show Host.start.process.ClosesLog from rfl)
    (fun _ _ _ _ hlog hstep ↦ closesLog_step hlog hstep)
    fun e he ↦ (hok e he).2.1
  have hloaded := hrun.forall_post (I := fun h ↦ h.Consistent ∧ CallsLoaded h)
    (C := FindsNothingLeft) ⟨Host.consistent_start, callsLoaded_start⟩
    (fun _ _ _ _ hI hstep hnone ↦
      ⟨hI.1.step hstep, (callsLoaded_step hI.1 hI.2 hstep).2 hnone⟩)
    fun e he ↦ (hok e he).2.2
  exact cleansUp_of_counted (hloaded e he).1 (hcount e he) (hloaded e he).2 (hcloses e he)

/-! ### One connection, with a log -/

/-- An application that finds the module, and a file for its log. -/
def Connection.logging : Connection :=
  { Connection.finding ⟨fun _ ↦ true, 2⟩ with
    logfile := some (lit "otel.log")
    fopen := fun _ ↦ true }

/-- It connects, and its `Terminate` is the last one. -/
def terminatingRun : List HostEvent × Host :=
  (hostMachine.replay .start [.entryPoint .logging, .exitFunction .Terminate]).getD ([], .start)

theorem run_terminatingRun : hostMachine.Run Host.start terminatingRun.1 terminatingRun.2 :=
  Machine.run_getD_replay rfl

theorem meets_terminatingRun :
    ∀ e ∈ terminatingRun.1, GetsExits e ∧ LogsClosably e ∧ FindsNothingLeft e := by
  intro e he
  rcases List.mem_pair.1 he with rfl | rfl
  · refine ⟨⟨rfl, rfl, fun m hm ↦ ?_⟩, fun name hopen ↦ ?_, fun _ _ hnone ↦ ?_⟩
    · cases hm
      exact ⟨rfl, Or.inr rfl⟩
    · cases hopen
    · cases hnone
  · exact ⟨trivial, trivial, trivial⟩

/-- The log is closed, and the module unloaded. -/
theorem initCount_eq_pending_iff_terminatingRun :
    (∀ e ∈ terminatingRun.1, Counted e.post) ∧ ∀ e ∈ terminatingRun.1, CleansUp e.post :=
  ⟨(initCount_eq_pending_iff run_terminatingRun).1.2 fun e he ↦ (meets_terminatingRun e he).1,
    (initCount_eq_pending_iff run_terminatingRun).2 meets_terminatingRun⟩

/-! ### A process that counts one too many -/

/-- An application that is already instrumented, and then an ordinary one. -/
def wrapperCalls : List HostCall :=
  [.entryPoint { Connection.finding ⟨fun _ ↦ true, 2⟩ with wrapper := true },
    .entryPoint (.finding ⟨fun _ ↦ true, 2⟩)]

def wrapperRun : List HostEvent × Host :=
  (hostMachine.replay .start wrapperCalls).getD ([], .start)

theorem run_wrapperRun : hostMachine.Run Host.start wrapperRun.1 wrapperRun.2 :=
  Machine.run_getD_replay rfl

/-- One connection has the exits, and two are counted: its `Terminate` cleans nothing up. -/
theorem not_counted_wrapperRun :
    hostMachine.Run Host.start wrapperRun.1 wrapperRun.2 ∧
      (¬ ∀ e ∈ wrapperRun.1, Counted e.post) ∧ ¬ ∀ e ∈ wrapperRun.1, CleansUp e.post := by
  have hmem : wrapperRun.1.getLast (List.cons_ne_nil _ _) ∈ wrapperRun.1 := List.getLast_mem _
  refine ⟨run_wrapperRun, fun h ↦ ?_, fun h ↦ ?_⟩
  · exact absurd (h _ hmem) (by decide)
  · obtain ⟨p, r, hterm, -, -, hunloaded, -⟩ := h _ hmem rfl
    obtain ⟨-, rfl⟩ := Prod.mk.inj (Option.some.inj hterm)
    cases hunloaded

end MqExits.Otel
