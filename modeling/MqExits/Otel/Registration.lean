import MqExits.Otel.EntryPoint

/-!
# Calls through the `ot` table

`EntryPoint` registers twelve exit functions on a connection, each of which calls through one member
of the `ot` table where that is not null. The members are filled in as a module is loaded and never
cleared, also not when `Terminate` unloads the module. As a connection on which the module cannot be
loaded gets the exits as well, it calls through the members that an earlier module has left.

A run is one of a process and its connections (`hostMachine`); a registered function can run while
the connection lasts. Every call it can make goes into the loaded module exactly as long as no
connection that fails to load the module finds members left (`callsLoaded_iff`).

## States and calls

`CallsLoaded` is about a state: whatever function is called next, the member it calls through is
null or of the module that is loaded. So it is about every call of the run, those that have been
made and those that might have been, and no call need be made for a dangling member to count.

While a connection lasts, its functions are registered, so the question is only asked where there is
one (`Host.pending`).
-/

namespace MqExits.Otel

open CText

/-! ### What is registered -/

/-- When an exit function is called. -/
inductive MQXR
  | BEFORE
  | AFTER
  | CONNECTION
  deriving DecidableEq, Repr

/-- For which function. -/
inductive MQXF
  | OPEN
  | CLOSE
  | PUT
  | PUT1
  | GET
  | CB
  | CALLBACK
  | DISC
  | TERM
  deriving DecidableEq, Repr

/-- The exit functions of `mqiotel.c`. -/
inductive ExitFunction
  | OpenAfter
  | CloseAfter
  | PutBefore
  | PutAfter
  | Put1Before
  | Put1After
  | GetBefore
  | GetAfter
  | CBBefore
  | CallbackBefore
  | DiscBefore
  | Terminate
  deriving DecidableEq, Repr

/-- The twelve uses of MQXEP. -/
def registrations : List (MQXR × MQXF × ExitFunction) :=
  [(.AFTER, .OPEN, .OpenAfter), (.AFTER, .CLOSE, .CloseAfter), (.BEFORE, .PUT, .PutBefore),
    (.AFTER, .PUT, .PutAfter), (.BEFORE, .PUT1, .Put1Before), (.AFTER, .PUT1, .Put1After),
    (.BEFORE, .GET, .GetBefore), (.AFTER, .GET, .GetAfter), (.BEFORE, .CB, .CBBefore),
    (.BEFORE, .CALLBACK, .CallbackBefore), (.AFTER, .DISC, .DiscBefore),
    (.CONNECTION, .TERM, .Terminate)]

/-- The member of the `ot` table that the function calls through. -/
def ExitFunction.member : ExitFunction → OtSymbol
  | .OpenAfter => .openAfter
  | .CloseAfter => .closeAfter
  | .PutBefore => .putBefore
  | .PutAfter => .putAfter
  | .Put1Before => .putBefore
  | .Put1After => .putAfter
  | .GetBefore => .getBefore
  | .GetAfter => .getAfter
  | .CBBefore => .getBefore
  | .CallbackBefore => .getAfter
  | .DiscBefore => .discBefore
  | .Terminate => .term

/-! ### The process and its connections -/

/-- A call through the member is none, as that is null, or it goes into the loaded module. -/
def Process.CallsLoaded (p : Process) (sym : OtSymbol) : Prop :=
  p.ot sym = none ∨ p.ot sym = p.hdl.map (·.load)

instance (p : Process) (sym : OtSymbol) : Decidable (p.CallsLoaded sym) :=
  inferInstanceAs (Decidable (_ ∨ _))

/-- The process, and how many connections there are on which `EntryPoint` has registered
`Terminate` and it has not run. -/
structure Host where
  process : Process
  pending : ℕ

def Host.start : Host where
  process := .start
  pending := 0

/-- What happens in a process: a connection is made, or an exit function runs on one on which it is
registered. -/
inductive HostCall
  | entryPoint (c : Connection)
  | exitFunction (f : ExitFunction)

/-- What a step reports. -/
inductive HostOutput
  | connected (r : EntryResult)
  | terminated (r : TermResult)
  | called

/-- The process and its connections. There is no step for a call into an unloaded module. -/
def hostMachine : Machine Host HostCall HostOutput where
  step h
    | .entryPoint c =>
      let (p, r) := entryPoint h.process c
      some (⟨p, if r.registered then h.pending + 1 else h.pending⟩, .connected r)
    | .exitFunction f =>
      if h.pending = 0 then none
      else if f = .Terminate then
        (terminate h.process).map fun r ↦ (⟨r.1, h.pending - 1⟩, .terminated r.2)
      else if h.process.CallsLoaded f.member then some (h, .called)
      else none

/-- A step of that machine. -/
abbrev HostEvent := Machine.Event Host HostCall HostOutput

/-- Each call that a registered exit function can make now goes into the loaded module. -/
def CallsLoaded (h : Host) : Prop :=
  h.pending ≠ 0 → ∀ r ∈ registrations, h.process.CallsLoaded r.2.2.member

/-- If the step is a connection that gets as far as the module and cannot load it, then the table
has no member left that a registered exit function calls through. -/
def FindsNothingLeft (e : HostEvent) : Prop :=
  match e.input with
  | .entryPoint c => (openLog e.pre.process c).isSome → reachesModule c = true →
    loadModule e.pre.process c = none → ∀ r ∈ registrations, e.pre.process.ot r.2.2.member = none
  | .exitFunction _ => True

/-! ### One step -/

/-- **What `EntryPoint` does**: it counts, opens the log if it can, and then deals with the module
or lets it be. -/
theorem entryPoint_cases (p : Process) (c : Connection) :
    (openLog p c = none ∧
      entryPoint p c = ({ p with initCount := p.initCount + 1 }, ⟨false, false⟩)) ∨
    ∃ fp closeFp, openLog p c = some (fp, closeFp) ∧
      (reachesModule c = false ∧ entryPoint p c =
          ({ p with initCount := p.initCount + 1, fp := fp, closeFp := closeFp }, ⟨true, false⟩) ∨
        reachesModule c = true ∧ entryPoint p c = connectModule
          { p with initCount := p.initCount + 1, fp := fp, closeFp := closeFp } c) := by
  rw [entryPoint_eq]
  rcases hlog : openLog p c with - | ⟨fp, closeFp⟩
  · exact Or.inl ⟨rfl, rfl⟩
  · refine Or.inr ⟨fp, closeFp, rfl, ?_⟩
    rcases hreach : reachesModule c with - | -
    · exact Or.inl ⟨rfl, rfl⟩
    · exact Or.inr ⟨rfl, rfl⟩

@[simp] theorem mqotInit_load (m : Loaded) : (mqotInit m).2.load = m.load := by
  simp only [mqotInit]
  split_ifs <;> rfl

@[simp] theorem callInit_load (m : Loaded) (rc : ℕ) : (callInit m rc).2.load = m.load := by
  rw [callInit]
  split_ifs
  · exact mqotInit_load m
  · rfl

@[simp] theorem callInit_module (m : Loaded) (rc : ℕ) : (callInit m rc).2.module = m.module := by
  rw [callInit]
  split_ifs
  · exact mqotInit_module m
  · rfl

/-- **What it does about the module**: without one nothing, and the exits are registered; with one
the table is filled in from it. -/
theorem connectModule_cases (p : Process) (c : Connection) :
    (loadModule p c = none ∧ p.hdl = none ∧ connectModule p c = (p, ⟨true, true⟩)) ∨
    ∃ m, loadModule p c = some m ∧ connectModule p c =
      ({ p with
          hdl := some (callInit m (dlsyms m).2).2
          ot := (dlsyms m).1
          loads := if p.hdl.isSome then p.loads else p.loads + 1 },
        ⟨true, (callInit m (dlsyms m).2).1 = 0⟩) := by
  rcases hm : loadModule p c with - | m
  · refine Or.inl ⟨rfl, (Option.or_eq_none_iff.1 hm).1, ?_⟩
    rw [connectModule, hm]
  · refine Or.inr ⟨m, rfl, ?_⟩
    rw [connectModule, hm]

/-- Every connection is counted. -/
theorem initCount_entryPoint (p : Process) (c : Connection) :
    (entryPoint p c).1.initCount = p.initCount + 1 := by
  rcases entryPoint_cases p c with ⟨-, heq⟩ | ⟨fp, closeFp, -, ⟨-, heq⟩ | ⟨-, heq⟩⟩
  · rw [heq]
  · rw [heq]
  · rw [heq]
    rcases connectModule_cases
      { p with initCount := p.initCount + 1, fp := fp, closeFp := closeFp } c
      with ⟨-, -, heq'⟩ | ⟨m, -, heq'⟩
    · rw [heq']
    · rw [heq']

/-- The invariant of the process and its connections: the table is that of the module that is
loaded, if one is; and the count is no less than it should be. -/
structure Host.Consistent (h : Host) : Prop where
  table : ∀ m, h.process.hdl = some m → h.process.ot = (dlsyms m).1
  count : (h.pending : ℤ) ≤ h.process.initCount

theorem Host.consistent_start : Host.start.Consistent where
  table m h := by cases h
  count := Int.le_refl 0

/-- The table depends on which load it was, and of which file. -/
theorem dlsyms_callInit (m : Loaded) (rc : ℕ) : (dlsyms (callInit m rc).2).1 = (dlsyms m).1 := by
  funext sym
  show (if (callInit m rc).2.module.offers sym then some (callInit m rc).2.load else none) = _
  rw [callInit_load, callInit_module]
  rfl

/-- The table of the loaded module points into it. -/
theorem Host.Consistent.callsLoaded {h : Host} (hc : h.Consistent) (hhdl : h.process.hdl.isSome)
    (sym : OtSymbol) : h.process.CallsLoaded sym := by
  obtain ⟨m, hm⟩ := Option.isSome_iff_exists.1 hhdl
  rw [Process.CallsLoaded, hc.table m hm, hm]
  by_cases hoffers : m.module.offers sym = true
  · exact Or.inr (if_pos hoffers)
  · exact Or.inl (if_neg hoffers)

/-- The result of `Terminate`: it counts down, or it is the last one and leaves nothing loaded. -/
theorem terminate_cases {p p' : Process} {r : TermResult} (h : terminate p = some (p', r)) :
    (1 < p.initCount ∧ p' = { p with initCount := p.initCount - 1 }) ∨
    (p.initCount ≤ 1 ∧ p'.hdl = none ∧ p'.initCount = 0 ∧ p'.fp = none) := by
  rw [terminate] at h
  dsimp only at h
  split_ifs at h with hlast
  · obtain ⟨q, -, heq⟩ := Option.map_eq_some_iff.1 h
    obtain ⟨rfl, -⟩ := Prod.mk.inj heq
    exact Or.inr ⟨by omega, rfl, rfl, rfl⟩
  · obtain ⟨rfl, -⟩ := Prod.mk.inj (Option.some.inj h)
    exact Or.inl ⟨by omega, rfl⟩

theorem hostMachine_entryPoint {h h' : Host} {c : Connection} {o : HostOutput}
    (hstep : hostMachine.step h (.entryPoint c) = some (h', o)) :
    ∃ p r, entryPoint h.process c = (p, r) ∧ o = .connected r ∧
      h' = ⟨p, if r.registered then h.pending + 1 else h.pending⟩ := by
  obtain ⟨rfl, rfl⟩ := Prod.mk.inj (Option.some.inj hstep)
  exact ⟨_, _, rfl, rfl, rfl⟩

/-- A step of an exit function other than `Terminate` changes nothing; one of `Terminate` is that of
the process. -/
theorem hostMachine_exitFunction {h h' : Host} {f : ExitFunction} {o : HostOutput}
    (hstep : hostMachine.step h (.exitFunction f) = some (h', o)) :
    h.pending ≠ 0 ∧ (h' = h ∨ ∃ p r, f = .Terminate ∧ terminate h.process = some (p, r) ∧
      o = .terminated r ∧ h' = ⟨p, h.pending - 1⟩) := by
  simp only [hostMachine] at hstep
  split_ifs at hstep with hpending hterm
  · obtain ⟨r, hr, heq⟩ := Option.map_eq_some_iff.1 hstep
    obtain ⟨rfl, rfl⟩ := Prod.mk.inj heq
    exact ⟨hpending, Or.inr ⟨r.1, r.2, hterm, hr, rfl, rfl⟩⟩
  · obtain ⟨rfl, -⟩ := Prod.mk.inj (Option.some.inj hstep)
    exact ⟨hpending, Or.inl rfl⟩

/-- **One step preserves the invariant.** -/
theorem Host.Consistent.step {h h' : Host} {call : HostCall} {o : HostOutput}
    (hc : h.Consistent) (hstep : hostMachine.step h call = some (h', o)) : h'.Consistent := by
  have hcount := hc.count
  have hle : (h.pending : ℤ) ≤ h.process.initCount + 1 := by omega
  cases call with
  | entryPoint c =>
    obtain ⟨p, r, hentry, -, rfl⟩ := hostMachine_entryPoint hstep
    -- the log does not open; or it does, and no more is done; or the call goes on to the module
    rcases entryPoint_cases h.process c with ⟨-, heq⟩ | ⟨fp, closeFp, -, ⟨-, heq⟩ | ⟨-, heq⟩⟩
    · obtain ⟨rfl, rfl⟩ := Prod.mk.inj (hentry.symm.trans heq)
      exact ⟨hc.table, hle⟩
    · obtain ⟨rfl, rfl⟩ := Prod.mk.inj (hentry.symm.trans heq)
      exact ⟨hc.table, hle⟩
    · let p₁ : Process :=
        { h.process with initCount := h.process.initCount + 1, fp := fp, closeFp := closeFp }
      rcases connectModule_cases p₁ c with ⟨-, -, heq'⟩ | ⟨m, -, heq'⟩
      · obtain ⟨rfl, rfl⟩ := Prod.mk.inj (hentry.symm.trans (heq.trans heq'))
        refine ⟨hc.table, ?_⟩
        show ((h.pending + 1 : ℕ) : ℤ) ≤ h.process.initCount + 1
        omega
      · obtain ⟨rfl, rfl⟩ := Prod.mk.inj (hentry.symm.trans (heq.trans heq'))
        refine ⟨fun m' hm' ↦ ?_, ?_⟩
        · rw [← Option.some.inj hm']
          exact (dlsyms_callInit m _).symm
        dsimp only [p₁]
        split_ifs <;> omega
  | exitFunction f =>
    obtain ⟨hpending, rfl | ⟨p, r, -, hterm, -, rfl⟩⟩ := hostMachine_exitFunction hstep
    · exact hc
    · -- one of several connections, or the last one, which unloads the module
      rcases terminate_cases hterm with ⟨-, rfl⟩ | ⟨hlast, hhdl, hzero, -⟩
      · refine ⟨hc.table, ?_⟩
        show ((h.pending - 1 : ℕ) : ℤ) ≤ h.process.initCount - 1
        omega
      · refine ⟨fun m hm ↦ ?_, ?_⟩
        · rw [hhdl] at hm
          cases hm
        · show ((h.pending - 1 : ℕ) : ℤ) ≤ p.initCount
          omega

theorem consistent_of_run {tr : List HostEvent} {h : Host}
    (hrun : hostMachine.Run Host.start tr h) : h.Consistent :=
  hrun.invariant (I := fun _ h ↦ h.Consistent) Host.consistent_start fun _ _ _ _ _ hc hstep ↦
    hc.step hstep

/-- Before the first connection no function is registered. -/
theorem callsLoaded_start : CallsLoaded Host.start :=
  fun hpending ↦ absurd rfl hpending

/-- **One step keeps the calls safe exactly when a connection that cannot load the module finds
nothing left.** -/
theorem callsLoaded_step {h h' : Host} {call : HostCall} {o : HostOutput} (hc : h.Consistent)
    (hsafe : CallsLoaded h) (hstep : hostMachine.step h call = some (h', o)) :
    CallsLoaded h' ↔ FindsNothingLeft ⟨h, call, o, h'⟩ := by
  have hc' := hc.step hstep
  cases call with
  | entryPoint c =>
    obtain ⟨p, r, hentry, -, rfl⟩ := hostMachine_entryPoint hstep
    rw [FindsNothingLeft]
    dsimp only
    rcases entryPoint_cases h.process c with ⟨hlog, heq⟩ | ⟨fp, closeFp, hlog, hcase⟩
    · obtain ⟨rfl, rfl⟩ := Prod.mk.inj (hentry.symm.trans heq)
      refine iff_of_true hsafe fun hsome ↦ ?_
      rw [hlog] at hsome
      cases hsome
    rw [hlog, forall_prop_of_true (show (some (fp, closeFp)).isSome from rfl)]
    rcases hcase with ⟨hreach, heq⟩ | ⟨hreach, heq⟩
    · obtain ⟨rfl, rfl⟩ := Prod.mk.inj (hentry.symm.trans heq)
      refine iff_of_true hsafe fun htrue ↦ ?_
      rw [hreach] at htrue
      cases htrue
    rw [forall_prop_of_true hreach]
    let p₁ : Process :=
      { h.process with initCount := h.process.initCount + 1, fp := fp, closeFp := closeFp }
    have hsame : loadModule p₁ c = loadModule h.process c := rfl
    rcases connectModule_cases p₁ c with ⟨hnone, hhdl, heq'⟩ | ⟨m, hm, heq'⟩
    · -- the exits are registered, and there is no module for a member to point into
      obtain ⟨rfl, rfl⟩ := Prod.mk.inj (hentry.symm.trans (heq.trans heq'))
      rw [forall_prop_of_true (hsame ▸ hnone)]
      show (h.pending + 1 ≠ 0 → ∀ r ∈ registrations, p₁.CallsLoaded r.2.2.member) ↔ _
      rw [forall_prop_of_true (Nat.succ_ne_zero h.pending)]
      refine forall_congr' fun r ↦ forall_congr' fun _ ↦ ?_
      show p₁.ot _ = none ∨ p₁.ot _ = p₁.hdl.map _ ↔ p₁.ot _ = none
      rw [hhdl, Option.map_none, or_self]
    · obtain ⟨rfl, rfl⟩ := Prod.mk.inj (hentry.symm.trans (heq.trans heq'))
      refine iff_of_true (fun _ r _ ↦ hc'.callsLoaded rfl _) fun hnone ↦ ?_
      rw [← hsame, hm] at hnone
      cases hnone
  | exitFunction f =>
    refine iff_of_true ?_ trivial
    obtain ⟨hpending, rfl | ⟨p, r, -, hterm, -, rfl⟩⟩ := hostMachine_exitFunction hstep
    · exact hsafe
    · rcases terminate_cases hterm with ⟨-, rfl⟩ | ⟨hlast, -⟩
      · exact fun _ ↦ hsafe hpending
      · -- no connection is left that could call
        have hcount := hc.count
        refine fun hleft ↦ absurd ?_ hleft
        show h.pending - 1 = 0
        omega

/-! ### Runs -/

/-- **When every call goes into the loaded module.** In every state of a run each call that a
registered exit function can make does, exactly when no connection of the run that cannot load the
module finds members that an unloaded one has left. -/
theorem callsLoaded_iff {tr : List HostEvent} {h : Host}
    (hrun : hostMachine.Run Host.start tr h) :
    (∀ e ∈ tr, CallsLoaded e.post) ↔ ∀ e ∈ tr, FindsNothingLeft e := by
  exact hrun.forall_post_iff callsLoaded_start fun _ _ _ _ _ hrun hsafe hstep ↦
    callsLoaded_step (consistent_of_run hrun) hsafe hstep

/-! ### A process with a call into an unloaded module -/

/-- A connection of an ordinary application that does not find the module. -/
def Connection.finding_nothing : Connection :=
  { Connection.finding ⟨fun _ ↦ true, 2⟩ with dlopen := fun _ ↦ none }

/-- The first connection loads the module and, as it ends, unloads it; the second cannot load it. -/
def leftoverCalls : List HostCall :=
  [.entryPoint (.finding ⟨fun _ ↦ true, 2⟩), .exitFunction .Terminate,
    .entryPoint .finding_nothing]

def leftoverRun : List HostEvent × Host :=
  (hostMachine.replay .start leftoverCalls).getD ([], .start)

theorem run_leftoverRun : hostMachine.Run Host.start leftoverRun.1 leftoverRun.2 :=
  Machine.run_getD_replay rfl

theorem callsLoaded_iff_leftoverRun :
    (∀ e ∈ leftoverRun.1, CallsLoaded e.post) ↔ ∀ e ∈ leftoverRun.1, FindsNothingLeft e :=
  callsLoaded_iff run_leftoverRun

/-- An MQOPEN on the second connection calls `mqotOpenAfter` where it was before it was unloaded. -/
theorem not_callsLoaded_leftoverRun :
    hostMachine.Run Host.start leftoverRun.1 leftoverRun.2 ∧
      ¬ ∀ e ∈ leftoverRun.1, CallsLoaded e.post := by
  refine ⟨run_leftoverRun, fun h ↦ ?_⟩
  have hlast := h _ (List.getLast_mem (show leftoverRun.1 ≠ [] from List.cons_ne_nil _ _))
  exact absurd (hlast (by decide) (.AFTER, .OPEN, .OpenAfter) (by decide)) (by decide)

end MqExits.Otel
