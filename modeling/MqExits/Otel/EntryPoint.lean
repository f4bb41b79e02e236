import MqExits.Mqi.Types
import MqExits.Runs.Machine

/-!
# Loading the tracing module

`EntryPoint` runs as each connection is made. It loads `mqioteldl.so` unless that is loaded already,
resolves its nine symbols, calls `mqotInit`, and registers the exit functions when one integer is
zero. That integer counts the missing symbols and is then **overwritten** by what `mqotInit`
returns, where being initialised already counts as success; and `mqotInit` marks the module as
initialised before it checks the ABI.

So a connection gets the exits in two cases in which it should not: a symbol other than `mqotInit`
is missing, or the ABI is wrong and the connection is not the first since the module was loaded
(`registersSafely_iff`).

A loaded module is recorded with the data its own code keeps, and a pointer in the `ot` table with
the load it was resolved in, so a call through a pointer into an unloaded module is visible.

## What is safe to find

The condition is about the module that a connection finds, before anything of the connection has
run: one with all symbols and the right ABI; one whose wrong ABI `mqotInit` has not looked at yet,
so that it is about to report it; or one without `mqotInit`, where the count of the missing symbols
is still there to be tested.

One thing has to be known of the module that is loaded already: whether its ABI was found to be
right is what its own code says (`ChecksAbi`). That is the invariant of a run, and the rest is about
one step.
-/

namespace MqExits.Otel

open CText

/-! ### The module -/

/-- The symbols that `EntryPoint` resolves, in its order. -/
inductive OtSymbol
  | init
  | term
  | openAfter
  | closeAfter
  | discBefore
  | putBefore
  | putAfter
  | getBefore
  | getAfter
  deriving DecidableEq, Repr

def OtSymbol.all : List OtSymbol :=
  [.init, .term, .openAfter, .closeAfter, .discBefore, .putBefore, .putAfter, .getBefore, .getAfter]

theorem OtSymbol.mem_all (sym : OtSymbol) : sym ∈ OtSymbol.all := by
  cases sym <;> decide

/-- A file that `dlopen` accepts: the symbols it has, and the ABI version that the OpenTelemetry
library it runs with reports. -/
structure OtelModule where
  offers : OtSymbol → Bool
  abi : ℤ

def REQUIRED_ABI : ℤ := 2

/-- A module in memory. -/
structure Loaded where
  /-- Which load it is. -/
  load : ℕ
  module : OtelModule
  /-- The module's own `initialised`. -/
  initialised : Bool
  /-- The check of `mqotInit` has succeeded; kept for the specification, no code reads it. -/
  abiOk : Bool

/-- `mqotInit`. -/
def mqotInit (m : Loaded) : MQRC × Loaded :=
  if m.initialised then (MQRC_ALREADY_CONNECTED, m)
  else
    let m := { m with initialised := true }
    if m.module.abi ≠ REQUIRED_ABI then (MQRC_WRONG_VERSION, m)
    else (MQRC_NONE, { m with abiOk := true })

/-- `mqotTerm`. -/
def mqotTerm (m : Loaded) : Loaded :=
  { m with initialised := false }

/-! ### The process -/

/-- Where the log goes. -/
inductive LogFile
  | stdout
  | stderr
  | file (name : Bytes)
  deriving DecidableEq

/-- The static data of `mqiotel.c`. -/
structure Process where
  fp : Option LogFile
  closeFp : Bool
  initCount : ℤ
  hdl : Option Loaded
  /-- The function pointers, each with the load it was resolved in. -/
  ot : OtSymbol → Option ℕ
  /-- The number of loads so far. -/
  loads : ℕ

/-- A process before its first connection. -/
def Process.start : Process where
  fp := none
  closeFp := true
  initCount := 0
  hdl := none
  ot _ := none
  loads := 0

/-- What `EntryPoint` sees at one connection. -/
structure Connection where
  /-- `APIX_LOGFILE`. -/
  logfile : Option Bytes
  /-- Does `fopen(f, "a")` succeed? -/
  fopen : Bytes → Bool
  /-- Is `AMQ_OTEL_INSTRUMENTED` set? -/
  wrapper : Bool
  /-- `BITNESS == 64`. -/
  is64Bit : Bool
  /-- The caller is `MQXACT_EXTERNAL` in environment `MQXE_OTHER`. -/
  isApplication : Bool
  /-- `MQ_INSTALLATION_NAME`. -/
  installationName : Option Bytes
  /-- `MQ_DATA_PATH`. -/
  dataPath : Option Bytes
  dlopen : Bytes → Option OtelModule

def DLMODULE : Bytes := lit "mqioteldl.so"

/-- The paths that are tried, in order. -/
def modulePaths (c : Connection) : List Bytes :=
  [DLMODULE, lit "/var/mqm/exits64" ++ lit "/" ++ DLMODULE] ++
    (c.installationName.map fun p ↦
      lit "/var/mqm/exits64" ++ lit "/" ++ p ++ lit "/" ++ DLMODULE).toList ++
    (c.dataPath.map fun p ↦ p ++ lit "/" ++ lit "exits64" ++ lit "/" ++ DLMODULE).toList ++
    (c.dataPath.bind fun p ↦ c.installationName.map fun p2 ↦
      p ++ lit "/" ++ lit "exits64" ++ lit "/" ++ p2 ++ lit "/" ++ DLMODULE).toList

/-- The log file that a connection opens, and whether it is to be closed; `none` for a failure. -/
def openLog (p : Process) (c : Connection) : Option (Option LogFile × Bool) :=
  match p.fp, c.logfile with
  | some fp, _ => some (some fp, p.closeFp)
  | none, none => some (none, p.closeFp)
  | none, some f =>
    if f = lit "stdout" then some (some .stdout, false)
    else if f = lit "stderr" then some (some .stderr, false)
    else if c.fopen f then some (some (.file f), p.closeFp)
    else none

/-- The module that is loaded once the paths have been tried. -/
def loadModule (p : Process) (c : Connection) : Option Loaded :=
  p.hdl.or <| ((modulePaths c).findSome? c.dlopen).map fun m ↦ ⟨p.loads, m, false, false⟩

/-- The nine uses of `DLSYM`: the table they fill, and the count of missing symbols. -/
def dlsyms (m : Loaded) : (OtSymbol → Option ℕ) × ℕ :=
  (fun sym ↦ if m.module.offers sym then some m.load else none,
    (OtSymbol.all.filter fun sym ↦ !m.module.offers sym).length)

/-- The call of `ot.init`: what becomes of `rc` and of the module. -/
def callInit (m : Loaded) (rc : ℕ) : ℕ × Loaded :=
  if m.module.offers .init then
    let (rc, m) := mqotInit m
    (if rc = MQRC_ALREADY_CONNECTED then MQRC_NONE else rc, m)
  else (rc, m)

/-- What `EntryPoint` reports. -/
structure EntryResult where
  /-- `ExitResponse` is `MQXCC_OK`. -/
  ok : Bool
  /-- The exit functions are registered on this connection. -/
  registered : Bool
  deriving DecidableEq

/-- Does the connection get as far as the module? -/
def reachesModule (c : Connection) : Bool :=
  !c.wrapper && c.is64Bit && c.isApplication

/-- The part of `EntryPoint` that deals with the module. Without one, `rc` stays zero. -/
def connectModule (p : Process) (c : Connection) : Process × EntryResult :=
  match loadModule p c with
  | none => (p, ⟨true, true⟩)
  | some m =>
    let loads := if p.hdl.isSome then p.loads else p.loads + 1
    let (ot, rc) := dlsyms m
    let (rc, m) := callInit m rc
    ({ p with hdl := some m, ot := ot, loads := loads }, ⟨true, rc = 0⟩)

/-- `EntryPoint`. -/
def entryPoint (p : Process) (c : Connection) : Process × EntryResult :=
  let p := { p with initCount := p.initCount + 1 }
  match openLog p c with
  | none => (p, ⟨false, false⟩)
  | some (fp, closeFp) =>
    let p := { p with fp := fp, closeFp := closeFp }
    if reachesModule c then connectModule p c else (p, ⟨true, false⟩)

/-- The call of `ot.term`; `none` when the pointer is into a module that is not loaded. -/
def callTerm (p : Process) : Option Process :=
  match p.ot .term with
  | none => some p
  | some load =>
    match p.hdl with
    | none => none
    | some m => if m.load = load then some { p with hdl := some (mqotTerm m) } else none

/-- What `Terminate` does with the process-wide resources. -/
structure TermResult where
  termCalled : Bool
  /-- The file that is closed. -/
  closed : Option LogFile
  unloaded : Bool
  deriving DecidableEq

/-- `Terminate`. -/
def terminate (p : Process) : Option (Process × TermResult) :=
  let p := { p with initCount := p.initCount - 1 }
  if p.initCount ≤ 0 then
    (callTerm p).map fun p ↦
      ({ p with fp := none, hdl := none, initCount := 0 },
        ⟨(p.ot .term).isSome, if p.closeFp then p.fp else none, p.hdl.isSome⟩)
  else some (p, ⟨false, none, false⟩)

/-- What happens in a process. -/
inductive ProcessCall
  | entryPoint (c : Connection)
  | terminate

/-- What a step reports. -/
inductive ProcessOutput
  | connected (r : EntryResult)
  | terminated (r : TermResult)

/-- The process. -/
def processMachine : Machine Process ProcessCall ProcessOutput where
  step p
    | .entryPoint c => some ((entryPoint p c).1, .connected (entryPoint p c).2)
    | .terminate => (terminate p).map fun r ↦ (r.1, .terminated r.2)

/-- A step of that machine. -/
abbrev ProcessEvent := Machine.Event Process ProcessCall ProcessOutput

/-! ### Safe registration -/

/-- If the step is a connection that registers the exit functions with a module loaded, then every
symbol was found and the check of `mqotInit` has succeeded for the module as loaded. -/
def RegistersSafely (e : ProcessEvent) : Prop :=
  ∀ r m, e.output = .connected r → r.registered = true → e.post.hdl = some m →
    (∀ sym, m.module.offers sym = true) ∧ m.abiOk = true

/-- A module that a connection may find: it has all symbols and the right ABI, or its wrong ABI is
about to be reported, or `mqotInit` is missing. -/
def SafeToFind (m : Loaded) : Prop :=
  m.module.offers .init = true →
    ((∀ sym, m.module.offers sym = true) ∧ m.module.abi = REQUIRED_ABI) ∨
      (m.initialised = false ∧ m.module.abi ≠ REQUIRED_ABI)

/-- If the step is a connection that gets as far as the module, then that is safe to find. -/
def FindsSafeModule (e : ProcessEvent) : Prop :=
  ∀ c m, e.input = .entryPoint c → (openLog e.pre c).isSome → reachesModule c = true →
    loadModule e.pre c = some m → SafeToFind m

/-! ### One connection -/

@[simp] theorem mqotInit_module (m : Loaded) : (mqotInit m).2.module = m.module := by
  simp only [mqotInit]
  split_ifs <;> rfl

@[simp] theorem mqotInit_initialised (m : Loaded) : (mqotInit m).2.initialised = true := by
  simp only [mqotInit]
  split_ifs with h
  · exact h
  · rfl
  · rfl

/-- `mqotInit` counts as successful when the module is initialised already, whatever its ABI. -/
theorem mqotInit_succeeds_iff (m : Loaded) :
    (if (mqotInit m).1 = MQRC_ALREADY_CONNECTED then MQRC_NONE else (mqotInit m).1) = 0 ↔
      m.initialised = true ∨ m.module.abi = REQUIRED_ABI := by
  rw [mqotInit]
  by_cases hinit : m.initialised = true
  · simp [hinit, MQRC_NONE]
  · by_cases habi : m.module.abi = REQUIRED_ABI
    · simp [hinit, habi, MQRC_NONE]
    · simp [hinit, habi, MQRC_WRONG_VERSION, MQRC_ALREADY_CONNECTED]

/-- The check has succeeded exactly for an initialised module of the right ABI. -/
def Loaded.ChecksAbi (m : Loaded) : Prop :=
  m.abiOk = true ↔ m.initialised = true ∧ m.module.abi = REQUIRED_ABI

theorem Loaded.ChecksAbi.mqotInit {m : Loaded} (h : m.ChecksAbi) :
    (mqotInit m).2.ChecksAbi := by
  rw [Otel.mqotInit]
  by_cases hinit : m.initialised = true
  · simpa [hinit] using h
  · have hok : m.abiOk = false := by
      rw [Bool.eq_false_iff]
      exact fun hok ↦ hinit (h.1 hok).1
    by_cases habi : m.module.abi = REQUIRED_ABI
    · simp [Loaded.ChecksAbi, hinit, habi]
    · simp [Loaded.ChecksAbi, hinit, habi, hok]

/-- **The integer that decides** is zero exactly when `mqotInit` is there and counts as successful,
whatever other symbols are missing. -/
theorem callInit_eq_zero_iff (m : Loaded) :
    (callInit m (dlsyms m).2).1 = 0 ↔ m.module.offers .init = true ∧
      (m.initialised = true ∨ m.module.abi = REQUIRED_ABI) := by
  rw [callInit]
  by_cases hinit : m.module.offers .init = true
  · simp only [hinit, if_true, true_and]
    exact mqotInit_succeeds_iff m
  · -- `mqotInit` is itself one of the symbols that are counted
    have hmissing : OtSymbol.init ∈ OtSymbol.all.filter fun sym ↦ !m.module.offers sym := by
      rw [List.mem_filter]
      exact ⟨OtSymbol.mem_all _, by simpa using hinit⟩
    rw [if_neg hinit]
    refine iff_of_false ?_ fun h ↦ hinit h.1
    exact (List.length_pos_of_mem hmissing).ne'

/-- What a connection that finds the module `m` leaves. -/
theorem connectModule_spec {p : Process} {c : Connection} {m : Loaded}
    (h : loadModule p c = some m) :
    (connectModule p c).1.hdl = some (callInit m (dlsyms m).2).2 ∧
      ((connectModule p c).2.registered = true ↔ m.module.offers .init = true ∧
        (m.initialised = true ∨ m.module.abi = REQUIRED_ABI)) := by
  rw [connectModule, h, ← callInit_eq_zero_iff]
  exact ⟨rfl, decide_eq_true_iff⟩

theorem Loaded.ChecksAbi.callInit {m : Loaded} (h : m.ChecksAbi) (rc : ℕ) :
    (callInit m rc).2.ChecksAbi := by
  rw [Otel.callInit]
  split_ifs
  · exact h.mqotInit
  · exact h

/-- The invariant of the process. -/
def ChecksAbi (p : Process) : Prop :=
  ∀ m, p.hdl = some m → m.ChecksAbi

/-- A module that a connection finds has been checked as its data says, or not at all yet. -/
theorem ChecksAbi.loadModule {p : Process} {c : Connection} {m : Loaded} (h : ChecksAbi p)
    (hm : loadModule p c = some m) : m.ChecksAbi := by
  rw [Otel.loadModule] at hm
  rcases hh : p.hdl with - | m'
  · rw [hh, Option.none_or] at hm
    obtain ⟨file, -, rfl⟩ := Option.map_eq_some_iff.1 hm
    simp [Loaded.ChecksAbi]
  · rw [hh, Option.some_or] at hm
    obtain rfl := Option.some.inj hm
    exact h _ hh

theorem ChecksAbi.connectModule {p : Process} {c : Connection} (h : ChecksAbi p) :
    ChecksAbi (connectModule p c).1 := by
  rcases hm : Otel.loadModule p c with - | m
  · rw [Otel.connectModule, hm]
    exact h
  · intro m' hm'
    rw [(connectModule_spec hm).1] at hm'
    obtain rfl := Option.some.inj hm'
    exact (h.loadModule hm).callInit _

/-- What `EntryPoint` is, once the log file has been dealt with. -/
theorem entryPoint_eq (p : Process) (c : Connection) :
    entryPoint p c =
      match openLog p c with
      | none => ({ p with initCount := p.initCount + 1 }, ⟨false, false⟩)
      | some (fp, closeFp) =>
        let p := { p with initCount := p.initCount + 1, fp := fp, closeFp := closeFp }
        if reachesModule c then connectModule p c else (p, ⟨true, false⟩) := by
  rfl

/-- **One step preserves the invariant.** -/
theorem ChecksAbi.step {p p' : Process} {call : ProcessCall} {o : ProcessOutput}
    (h : ChecksAbi p) (hstep : processMachine.step p call = some (p', o)) : ChecksAbi p' := by
  cases call with
  | entryPoint c =>
    obtain ⟨rfl, -⟩ := Prod.mk.inj (Option.some.inj hstep)
    rw [entryPoint_eq]
    rcases openLog p c with - | ⟨fp, closeFp⟩
    · exact h
    · dsimp only
      split_ifs
      · exact ChecksAbi.connectModule h
      · exact h
  | terminate =>
    obtain ⟨r, hr, heq⟩ := Option.map_eq_some_iff.1 hstep
    obtain ⟨rfl, -⟩ := Prod.mk.inj heq
    rw [terminate] at hr
    dsimp only at hr
    split_ifs at hr
    · obtain ⟨q, -, rfl⟩ := Option.map_eq_some_iff.1 hr
      intro m hm
      cases hm
    · obtain rfl := Option.some.inj hr
      exact h

/-- The case of a connection that gets as far as the module `m`. -/
theorem registersSafely_of_loadModule {p : Process} {c : Connection} {m : Loaded}
    (h : ChecksAbi p) (hm : loadModule p c = some m) :
    ((connectModule p c).2.registered = true → ∀ m', (connectModule p c).1.hdl = some m' →
        (∀ sym, m'.module.offers sym = true) ∧ m'.abiOk = true) ↔
      SafeToFind m := by
  obtain ⟨hhdl, hreg⟩ := connectModule_spec hm
  rw [hhdl, hreg]
  rw [SafeToFind]
  by_cases hinit : m.module.offers .init = true
  · have hcall : (callInit m (dlsyms m).2).2 = (mqotInit m).2 := by
      rw [callInit, if_pos hinit]
    have hchecks := (h.loadModule hm).mqotInit
    rw [Loaded.ChecksAbi, mqotInit_initialised, mqotInit_module] at hchecks
    simp only [hcall, hinit, Option.some.injEq, forall_eq', mqotInit_module, hchecks, true_and,
      forall_const]
    by_cases hi : m.initialised = true <;> by_cases ha : m.module.abi = REQUIRED_ABI <;>
      simp [hi, ha]
  · simp [hinit]

/-- At one step, the two properties are one. -/
theorem registersSafely_step {p p' : Process} {call : ProcessCall} {o : ProcessOutput}
    (h : ChecksAbi p) (hstep : processMachine.step p call = some (p', o)) :
    RegistersSafely ⟨p, call, o, p'⟩ ↔ FindsSafeModule ⟨p, call, o, p'⟩ := by
  cases call with
  | terminate =>
    obtain ⟨r, -, heq⟩ := Option.map_eq_some_iff.1 hstep
    obtain ⟨rfl, rfl⟩ := Prod.mk.inj heq
    exact iff_of_true (fun _ _ h ↦ by cases h) fun _ _ h ↦ by cases h
  | entryPoint c =>
    obtain ⟨rfl, rfl⟩ := Prod.mk.inj (Option.some.inj hstep)
    -- what is said of the two outputs comes down to what is said of this call
    have hresult : RegistersSafely ⟨p, .entryPoint c, .connected (entryPoint p c).2,
          (entryPoint p c).1⟩ ↔
        ((entryPoint p c).2.registered = true → ∀ m, (entryPoint p c).1.hdl = some m →
          (∀ sym, m.module.offers sym = true) ∧ m.abiOk = true) := by
      constructor
      · intro hsafe hreg m hm
        exact hsafe _ m rfl hreg hm
      · intro hsafe r m hr hreg hm
        obtain rfl := ProcessOutput.connected.inj hr
        exact hsafe hreg m hm
    have hfinds : FindsSafeModule ⟨p, .entryPoint c, .connected (entryPoint p c).2,
          (entryPoint p c).1⟩ ↔
        ((openLog p c).isSome → reachesModule c = true →
          ∀ m, loadModule p c = some m → SafeToFind m) := by
      constructor
      · intro hfinds hlog hreach m hm
        exact hfinds c m rfl hlog hreach hm
      · intro hfinds c' m hc hlog hreach hm
        obtain rfl := ProcessCall.entryPoint.inj hc
        exact hfinds hlog hreach m hm
    rw [hresult, hfinds, entryPoint_eq]
    rcases openLog p c with - | ⟨fp, closeFp⟩
    · simp
    -- the log is open: the call goes on to the module, or it does not
    by_cases hreach : reachesModule c = true
    · let p₁ : Process := { p with initCount := p.initCount + 1, fp := fp, closeFp := closeFp }
      have hload : loadModule p₁ c = loadModule p c := rfl
      have h₁ : ChecksAbi p₁ := h
      simp only [hreach, if_true, Option.isSome_some, forall_const]
      rcases hm : loadModule p c with - | m
      · have hnone : (connectModule p₁ c).1.hdl = none := by
          rw [connectModule, hload, hm]
          exact (Option.or_eq_none_iff.1 hm).1
        simp [p₁, hnone]
      · simp only [Option.some.injEq, forall_eq']
        exact registersSafely_of_loadModule h₁ (hload.trans hm)
    · simp [hreach]

/-- **When no connection of a process registers unsafely**: when every connection that gets as far
as the module finds one that has all symbols and the right ABI, or one whose wrong ABI is about to
be reported, or one without `mqotInit`. -/
theorem registersSafely_iff {tr : List ProcessEvent} {p : Process}
    (h : processMachine.Run Process.start tr p) :
    (∀ e ∈ tr, RegistersSafely e) ↔ ∀ e ∈ tr, FindsSafeModule e := by
  have hstart : ChecksAbi Process.start := fun m hm ↦ by cases hm
  rw [h.forall_mem_iff (I := fun _ p ↦ ChecksAbi p) (Q := fun _ e ↦ FindsSafeModule e) hstart
    (fun _ _ _ _ _ hI hstep ↦ hI.step hstep)
    fun _ _ _ _ _ hI hstep ↦ registersSafely_step hI hstep]
  exact Machine.forall_split_iff_forall_mem

/-! ### Two unsafe processes -/

/-- A connection of an ordinary application that finds the module `m` in the library path. -/
def Connection.finding (m : OtelModule) : Connection where
  logfile := none
  fopen _ := false
  wrapper := false
  is64Bit := true
  isApplication := true
  installationName := none
  dataPath := none
  dlopen path := if path = DLMODULE then some m else none

/-- Two connections with a module of ABI 1. -/
def wrongAbiRun : List ProcessEvent × Process :=
  (processMachine.replay Process.start
    [.entryPoint (.finding ⟨fun _ ↦ true, 1⟩),
      .entryPoint (.finding ⟨fun _ ↦ true, 1⟩)]).getD ([], Process.start)

theorem run_wrongAbiRun : processMachine.Run Process.start wrongAbiRun.1 wrongAbiRun.2 :=
  Machine.run_getD_replay rfl

theorem registersSafely_iff_wrongAbiRun :
    (∀ e ∈ wrongAbiRun.1, RegistersSafely e) ↔ ∀ e ∈ wrongAbiRun.1, FindsSafeModule e :=
  registersSafely_iff run_wrongAbiRun

/-- The second connection gets the exits of a module whose wrong ABI the first was told of. -/
theorem not_registersSafely_wrongAbiRun :
    processMachine.Run Process.start wrongAbiRun.1 wrongAbiRun.2 ∧
      ¬ ∀ e ∈ wrongAbiRun.1, RegistersSafely e := by
  refine ⟨run_wrongAbiRun, fun h ↦ ?_⟩
  have hlast := h _ (List.getLast_mem (show wrongAbiRun.1 ≠ [] by simp [wrongAbiRun]; decide))
  exact absurd (hlast _ _ rfl rfl rfl).2 (by decide)

end MqExits.Otel
