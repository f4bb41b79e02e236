import MqExits.Runs.Machine
import MqExits.Oam.Oamcrt

/-!
# Starting and stopping a service: `MQStart` and `OATerm`

The three services share one protocol. `MQStart` opens the log file unless it is open, and registers
the functions of the service; `OATerm` closes the log file, but not when a secondary part of the
primary process ends. Both can come any number of times in a process.

`oamlog` and `oamok` are one definition with the functions they register. `oamcrt` has a body of its
own: it loads its configuration between the two parts, and the completion code of the load takes the
place of that of the open.

`StartsRightly` is what a caller relies on at each call, and `LogCanOpen` the condition under which
it gets it.

## What the condition leaves out

It is a condition on `oamcrt` alone. A start at which a function cannot be registered fails whatever
became of the log, and reports a reason as it should, so that it is right by the definition.

Whether the file can be opened is an input of each call, and so is what `MQZEP` answers for each
function: a call may fail at one time and go well the next.
-/

namespace MqExits.Oam

def MQRC_INITIALIZATION_FAILED : MQRC := 2286

/-- `MQZIO_PRIMARY`, which the code writes as 0, and `MQZTO_PRIMARY`. -/
def MQZIO_PRIMARY : MQLONG := 0
def MQZTO_PRIMARY : MQLONG := 0

/-- The functions that a service registers. -/
inductive MQZID
  | INIT_AUTHORITY
  | TERM_AUTHORITY
  | CHECK_AUTHORITY
  | COPY_ALL_AUTHORITY
  | DELETE_AUTHORITY
  | SET_AUTHORITY
  | GET_AUTHORITY
  | GET_EXPLICIT_AUTHORITY
  | REFRESH_CACHE
  | ENUMERATE_AUTHORITY_DATA
  | AUTHENTICATE_USER
  | FREE_USER
  | INQUIRE
  | CHECK_PRIVILEGED
  deriving DecidableEq

/-- What a call of `MQStart` is given and what it meets. -/
structure StartArgs where
  options : MQLONG
  /-- The log file can be opened. -/
  canOpen : Bool
  /-- What `MQZEP` returns for each function. -/
  MQZEP : MQZID → MQCC × MQRC

/-- The global variables of a service. -/
structure ServiceState where
  /-- `fp` is not `NULL`, or `fd` is not -1. -/
  logOpen : Bool
  primaryProcess : Bool
  /-- `alreadyRead`, of `oamcrt`. -/
  alreadyRead : Bool
  deriving DecidableEq

/-- No call has been made. -/
def ServiceState.start : ServiceState := ⟨false, false, false⟩

/-! ### The functions -/

/-- `if (Options == 0) primary_process = 1;` -/
def ServiceState.markPrimary (s : ServiceState) (options : MQLONG) : ServiceState :=
  if options = MQZIO_PRIMARY then { s with primaryProcess := true } else s

/-- Open the log file unless it is open; `CC` is what comes of it. -/
def ServiceState.openLog (s : ServiceState) (canOpen : Bool) : MQCC × ServiceState :=
  if s.logOpen then (.OK, s)
  else if canOpen then (.OK, { s with logOpen := true })
  else (.FAILED, s)

/-- The lines `if (CC == MQCC_OK) MQZEP(hc, id, f, &CC, &Reason);`. -/
def register (zep : MQZID → MQCC × MQRC) (ids : List MQZID) (r : MQCC × MQRC) : MQCC × MQRC :=
  ids.foldl (fun r id ↦ if r.1 = .OK then zep id else r) r

/-- What `MQStart` returns when it fails. -/
def startFailed : MQCC × MQRC := (.FAILED, MQRC_INITIALIZATION_FAILED)

/-- The `MQStart` of `oamlog` and of `oamok`, for the functions `ids`. -/
def startWith (ids : List MQZID) (s : ServiceState) (a : StartArgs) :
    (MQCC × MQRC) × ServiceState :=
  let (cc, s) := (s.markPrimary a.options).openLog a.canOpen
  let r := register a.MQZEP ids (cc, MQRC_NONE)
  (if s.logOpen = false ∨ r.1 ≠ .OK then startFailed else r, s)

/-- `OATerm`, which the three services have alike. -/
def OATerm (s : ServiceState) (options : MQLONG) : ServiceState :=
  if (s.primaryProcess ∧ options = MQZTO_PRIMARY) ∨ ¬ s.primaryProcess then
    { s with logOpen := false }
  else s

namespace Oamlog

/-- What `oamlog` registers, in its order. -/
def functions : List MQZID :=
  [.INIT_AUTHORITY, .TERM_AUTHORITY, .CHECK_AUTHORITY, .COPY_ALL_AUTHORITY, .DELETE_AUTHORITY,
   .SET_AUTHORITY, .GET_AUTHORITY, .GET_EXPLICIT_AUTHORITY, .REFRESH_CACHE,
   .ENUMERATE_AUTHORITY_DATA, .AUTHENTICATE_USER, .FREE_USER, .INQUIRE, .CHECK_PRIVILEGED]

def MQStart (s : ServiceState) (a : StartArgs) : (MQCC × MQRC) × ServiceState :=
  startWith functions s a

end Oamlog

namespace Oamok

/-- What `oamok` registers. -/
def functions : List MQZID :=
  [.INIT_AUTHORITY, .TERM_AUTHORITY, .CHECK_AUTHORITY, .AUTHENTICATE_USER]

def MQStart (s : ServiceState) (a : StartArgs) : (MQCC × MQRC) × ServiceState :=
  startWith functions s a

end Oamok

namespace Oamcrt

/-- What `oamcrt` registers. -/
def functions : List MQZID :=
  [.INIT_AUTHORITY, .TERM_AUTHORITY, .CHECK_AUTHORITY, .COPY_ALL_AUTHORITY, .REFRESH_CACHE]

/-- `readConfig`, with nobody else at the mutex. -/
def readConfig (s : ServiceState) : MQCC × ServiceState :=
  (.OK, if s.alreadyRead then s else { s with alreadyRead := true })

def MQStart (s : ServiceState) (a : StartArgs) : (MQCC × MQRC) × ServiceState :=
  let (_, s) := (s.markPrimary a.options).openLog a.canOpen
  -- the completion code of the open is lost here
  let (cc, s) := readConfig s
  let r := register a.MQZEP functions (cc, MQRC_NONE)
  (if r.1 ≠ .OK then startFailed else r, s)

end Oamcrt

/-- The three services. -/
inductive Service
  | oamlog
  | oamok
  | oamcrt
  deriving DecidableEq

def Service.functions : Service → List MQZID
  | .oamlog => Oamlog.functions
  | .oamok => Oamok.functions
  | .oamcrt => Oamcrt.functions

def Service.MQStart : Service → ServiceState → StartArgs → (MQCC × MQRC) × ServiceState
  | .oamlog => Oamlog.MQStart
  | .oamok => Oamok.MQStart
  | .oamcrt => Oamcrt.MQStart

/-- A call of `MQStart` or of `OATerm`. -/
inductive ServiceCall
  | start (a : StartArgs)
  | term (options : MQLONG)

/-- A process with the service in it. -/
def Service.process (v : Service) : Machine ServiceState ServiceCall (MQCC × MQRC) where
  step s
    | .start a => some ((v.MQStart s a).2, (v.MQStart s a).1)
    | .term options => some (OATerm s options, (.OK, MQRC_NONE))

/-- A call in a process. -/
abbrev ServiceEvent := Machine.Event ServiceState ServiceCall (MQCC × MQRC)

/-! ### What a caller relies on -/

/-- There has been a primary start. -/
def PrimaryStart (tr : List ServiceEvent) : Prop :=
  ∃ e ∈ tr, ∃ a, e.input = .start a ∧ a.options = MQZIO_PRIMARY

/-- A start that succeeds leaves the log file open, one that fails gives the reason, and an open
log file is closed by a primary `OATerm`, or by any in a process without a primary start. -/
structure StartsRightly (before : List ServiceEvent) (e : ServiceEvent) : Prop where
  opens : ∀ a, e.input = .start a → e.output.1 = .OK → e.post.logOpen = true
  reason : ∀ a, e.input = .start a → e.output.1 ≠ .OK → e.output.2 = MQRC_INITIALIZATION_FAILED
  stays : e.pre.logOpen = true → e.post.logOpen = true ∨
    ∃ options, e.input = .term options ∧ (options = MQZTO_PRIMARY ∨ ¬ PrimaryStart before)

/-- If the call starts `oamcrt`, the log file is open or can be opened, or some function cannot be
registered. -/
def LogCanOpen (v : Service) (e : ServiceEvent) : Prop :=
  ∀ a, v = .oamcrt → e.input = .start a →
    e.pre.logOpen = true ∨ a.canOpen = true ∨ ∃ id ∈ Oamcrt.functions, (a.MQZEP id).1 ≠ .OK

/-! ### One call -/

@[simp] theorem markPrimary_logOpen (s : ServiceState) (options : MQLONG) :
    (s.markPrimary options).logOpen = s.logOpen := by
  rw [ServiceState.markPrimary]
  split_ifs
  · rfl
  · rfl

theorem openLog_eq (s : ServiceState) (canOpen : Bool) : s.openLog canOpen =
    (if s.logOpen ∨ canOpen then .OK else .FAILED, { s with logOpen := s.logOpen || canOpen }) := by
  rcases s with ⟨_ | _, _, _⟩
  · cases canOpen <;> rfl
  · rfl

/-- Registration succeeds when nothing has failed before and every call of `MQZEP` succeeds. -/
theorem register_eq_OK {zep : MQZID → MQCC × MQRC} {ids : List MQZID} {r : MQCC × MQRC} :
    (register zep ids r).1 = .OK ↔ r.1 = .OK ∧ ∀ id ∈ ids, (zep id).1 = .OK := by
  induction ids generalizing r with
  | nil => simp [register]
  | cons id ids ih =>
    rw [register, List.foldl_cons]
    refine ih.trans ?_
    rw [List.forall_mem_cons]
    by_cases h : r.1 = .OK
    · rw [if_pos h]
      simp [h]
    · rw [if_neg h]
      simp [h]

theorem markPrimary_primaryProcess (s : ServiceState) (options : MQLONG) :
    (s.markPrimary options).primaryProcess =
      (s.primaryProcess || decide (options = MQZIO_PRIMARY)) := by
  rw [ServiceState.markPrimary]
  split_ifs with h
  · simp [h]
  · simp [h]

@[simp] theorem readConfig_logOpen (s : ServiceState) :
    (Oamcrt.readConfig s).2.logOpen = s.logOpen := by
  rw [Oamcrt.readConfig]
  split_ifs
  · rfl
  · rfl

@[simp] theorem readConfig_primaryProcess (s : ServiceState) :
    (Oamcrt.readConfig s).2.primaryProcess = s.primaryProcess := by
  rw [Oamcrt.readConfig]
  split_ifs
  · rfl
  · rfl

/-- **What a start does**, in each of the three services. -/
theorem mQStart_post (v : Service) (s : ServiceState) (a : StartArgs) :
    (v.MQStart s a).2.logOpen = (s.logOpen || a.canOpen) ∧
      (v.MQStart s a).2.primaryProcess =
        (s.primaryProcess || decide (a.options = MQZIO_PRIMARY)) := by
  rw [← markPrimary_primaryProcess, ← markPrimary_logOpen s a.options]
  have hlog := congrArg (·.2.logOpen) (openLog_eq (s.markPrimary a.options) a.canOpen)
  have hprimary := congrArg (·.2.primaryProcess) (openLog_eq (s.markPrimary a.options) a.canOpen)
  cases v with
  | oamlog => exact ⟨hlog, hprimary⟩
  | oamok => exact ⟨hlog, hprimary⟩
  | oamcrt =>
    exact ⟨(readConfig_logOpen _).trans hlog, (readConfig_primaryProcess _).trans hprimary⟩

/-- What a start returns if it is a failure or the result of the registration. -/
theorem startFailed_or {P : Prop} [Decidable P] {r : MQCC × MQRC} (hP : r.1 ≠ .OK → P) :
    ((if P then startFailed else r).1 = .OK ↔ ¬ P) ∧
      ((if P then startFailed else r).1 ≠ .OK → (if P then startFailed else r) = startFailed) := by
  split_ifs with h
  · exact ⟨iff_of_false (by decide) (not_not_intro h), fun _ ↦ rfl⟩
  · exact ⟨iff_of_true (not_not.1 (mt hP h)) h, fun hr ↦ absurd (hP hr) h⟩

theorem startWith_fst (ids : List MQZID) (s : ServiceState) (a : StartArgs) :
    ((startWith ids s a).1.1 = .OK ↔
        (s.logOpen || a.canOpen) = true ∧ ∀ id ∈ ids, (a.MQZEP id).1 = .OK) ∧
      ((startWith ids s a).1.1 ≠ .OK → (startWith ids s a).1 = startFailed) := by
  rw [startWith, openLog_eq, markPrimary_logOpen]
  refine ⟨(startFailed_or Or.inr).1.trans ?_, (startFailed_or Or.inr).2⟩
  rw [not_or, not_not, register_eq_OK, Bool.not_eq_false]
  refine and_congr_right fun hopen ↦ ?_
  rw [if_pos (by simpa using hopen)]
  simp

/-- **What a start returns.** -/
theorem mQStart_fst (v : Service) (s : ServiceState) (a : StartArgs) :
    ((v.MQStart s a).1.1 = .OK ↔ (v = .oamcrt ∨ (s.logOpen || a.canOpen) = true) ∧
        ∀ id ∈ v.functions, (a.MQZEP id).1 = .OK) ∧
      ((v.MQStart s a).1.1 ≠ .OK → (v.MQStart s a).1 = startFailed) := by
  cases v with
  | oamlog =>
    rw [or_iff_right (by decide)]
    exact startWith_fst Oamlog.functions s a
  | oamok =>
    rw [or_iff_right (by decide)]
    exact startWith_fst Oamok.functions s a
  | oamcrt =>
    refine ⟨(startFailed_or id).1.trans ?_, (startFailed_or id).2⟩
    rw [not_not, register_eq_OK]
    simp [Service.functions]

/-- `OATerm` closes the log file under the condition it tests. -/
theorem oATerm_logOpen {s : ServiceState} {options : MQLONG} (h : s.logOpen = true) :
    (OATerm s options).logOpen = true ∨ options = MQZTO_PRIMARY ∨ s.primaryProcess = false := by
  rw [OATerm]
  split_ifs with hclose
  · rcases hclose with ⟨-, hoptions⟩ | hprimary
    · exact .inr (.inl hoptions)
    · exact .inr (.inr (Bool.not_eq_true _ ▸ hprimary))
  · exact .inl h

@[simp] theorem oATerm_primaryProcess (s : ServiceState) (options : MQLONG) :
    (OATerm s options).primaryProcess = s.primaryProcess := by
  rw [OATerm]
  split_ifs
  · rfl
  · rfl

/-! ### Runs -/

variable {v : Service}

theorem primaryStart_append_singleton {tr : List ServiceEvent} {e : ServiceEvent} :
    PrimaryStart (tr ++ [e]) ↔
      PrimaryStart tr ∨ ∃ a, e.input = .start a ∧ a.options = MQZIO_PRIMARY := by
  simp only [PrimaryStart, List.mem_append, List.mem_singleton, or_and_right, exists_or,
    exists_eq_left]

/-- The flag of the process tells whether there has been a primary start. -/
def FlagTells (tr : List ServiceEvent) (s : ServiceState) : Prop :=
  s.primaryProcess = true ↔ PrimaryStart tr

theorem flagTells_start : FlagTells [] .start := by
  simp [FlagTells, ServiceState.start, PrimaryStart]

theorem FlagTells.step {tr : List ServiceEvent} {s s' : ServiceState} {i : ServiceCall}
    {o : MQCC × MQRC} (h : FlagTells tr s) (hs : v.process.step s i = some (s', o)) :
    FlagTells (tr ++ [⟨s, i, o, s'⟩]) s' := by
  rw [FlagTells] at h ⊢
  rw [primaryStart_append_singleton, ← h]
  cases i with
  | start a =>
    obtain ⟨rfl, -⟩ := Prod.mk.inj (Option.some.inj hs)
    rw [(mQStart_post v s a).2]
    simp
  | term options =>
    obtain ⟨rfl, -⟩ := Prod.mk.inj (Option.some.inj hs)
    simp

/-- **A call is right exactly if it can log.** -/
theorem FlagTells.logCanOpen_iff {before : List ServiceEvent} {s s' : ServiceState}
    {i : ServiceCall} {o : MQCC × MQRC} (h : FlagTells before s)
    (hs : v.process.step s i = some (s', o)) :
    LogCanOpen v ⟨s, i, o, s'⟩ ↔ StartsRightly before ⟨s, i, o, s'⟩ := by
  cases i with
  | start a =>
    obtain ⟨rfl, rfl⟩ := Prod.mk.inj (Option.some.inj hs)
    obtain ⟨hok, hfailed⟩ := mQStart_fst v s a
    have hopen := (mQStart_post v s a).1
    constructor
    · intro hlog
      refine ⟨fun a' ha' hcc ↦ ?_, fun a' _ hcc ↦ ?_, fun hpre ↦ .inl ?_⟩
      · show (v.MQStart s a).2.logOpen = true
        rw [hopen]
        obtain ⟨hv | hv, hzep⟩ := hok.1 hcc
        · rcases hlog a hv rfl with hpre | hcan | ⟨id, hid, hne⟩
          · simp [show s.logOpen = true from hpre]
          · simp [hcan]
          · subst hv
            exact absurd (hzep id hid) hne
        · exact hv
      · exact congrArg Prod.snd (hfailed hcc)
      · show (v.MQStart s a).2.logOpen = true
        rw [hopen, show s.logOpen = true from hpre, Bool.true_or]
    · rintro hright a' rfl ha'
      obtain rfl := ServiceCall.start.inj ha'
      -- if it could not log, it would still report success: the completion code is not that of the
      -- open
      by_contra hnone
      obtain ⟨hpre, hnone⟩ := not_or.1 hnone
      obtain ⟨hcan, hnone⟩ := not_or.1 hnone
      have hzep : ∀ id ∈ Oamcrt.functions, (a.MQZEP id).1 = .OK :=
        fun id hid ↦ not_not.1 fun hne ↦ hnone ⟨id, hid, hne⟩
      have hpost := hright.opens a rfl (hok.2 ⟨.inl rfl, hzep⟩)
      rw [show _ = (s.logOpen || a.canOpen) from hopen] at hpost
      simp_all
  | term options =>
    obtain ⟨rfl, rfl⟩ := Prod.mk.inj (Option.some.inj hs)
    have hterm : ∀ a, ServiceCall.term options ≠ .start a := fun _ ↦ nofun
    refine iff_of_true (fun a _ ha ↦ absurd ha (hterm a))
      ⟨fun a ha ↦ absurd ha (hterm a), fun a ha ↦ absurd ha (hterm a), fun hpre ↦ ?_⟩
    refine (oATerm_logOpen hpre).imp_right fun hclosed ↦ ⟨options, rfl, ?_⟩
    -- the flag that OATerm goes by is the one that MQStart has set
    rwa [← show s.primaryProcess = true ↔ _ from h, Bool.not_eq_true]

/-- **In every run, the calls are right exactly if they can all log.** -/
theorem startsRightly_iff_logCanOpen {tr : List ServiceEvent} {s : ServiceState}
    (h : v.process.Run .start tr s) :
    (∀ before e after, tr = before ++ e :: after → StartsRightly before e) ↔
      ∀ e ∈ tr, LogCanOpen v e :=
  (h.forall_mem_iff flagTells_start (fun _ _ _ _ _ hI hs ↦ hI.step hs)
    fun _ _ _ _ _ hI hs ↦ hI.logCanOpen_iff hs).symm

/-- The first start of `oamcrt` in a process, with no directory for the log file. -/
def noDirectory : List ServiceEvent × ServiceState :=
  (Service.oamcrt.process.replay .start
    [.start ⟨MQZIO_PRIMARY, false, fun _ ↦ (.OK, MQRC_NONE)⟩]).getD ([], .start)

theorem run_noDirectory : Service.oamcrt.process.Run .start noDirectory.1 noDirectory.2 :=
  Machine.run_getD_replay rfl

/-- A start of `oamcrt` with the directory there, and the end of the process. -/
def directory : List ServiceEvent × ServiceState :=
  (Service.oamcrt.process.replay .start
    [.start ⟨MQZIO_PRIMARY, true, fun _ ↦ (.OK, MQRC_NONE)⟩, .term MQZTO_PRIMARY]).getD ([], .start)

theorem run_directory : Service.oamcrt.process.Run .start directory.1 directory.2 :=
  Machine.run_getD_replay rfl

theorem logCanOpen_directory : ∀ e ∈ directory.1, LogCanOpen .oamcrt e := by
  intro e he a _ ha
  rcases List.mem_pair.1 he with rfl | rfl
  · cases ha
    exact Or.inr (Or.inl rfl)
  · cases ha

/-- With the directory every call is right; without it, that is as one can tell from the calls. -/
theorem startsRightly_iff_logCanOpen_directory :
    (∀ before e after, directory.1 = before ++ e :: after → StartsRightly before e) ∧
      ((∀ before e after, noDirectory.1 = before ++ e :: after → StartsRightly before e) ↔
        ∀ e ∈ noDirectory.1, LogCanOpen .oamcrt e) :=
  ⟨(startsRightly_iff_logCanOpen run_directory).2 logCanOpen_directory,
    startsRightly_iff_logCanOpen run_noDirectory⟩

/-- That start succeeds with the log file closed. -/
theorem not_startsRightly_noDirectory :
    ¬ ∀ (v : Service) (tr : List ServiceEvent) (s : ServiceState), v.process.Run .start tr s →
      ∀ before e after, tr = before ++ e :: after → StartsRightly before e := by
  intro h
  have hright := h .oamcrt _ _ run_noDirectory [] _ [] rfl
  exact absurd (hright.opens _ rfl rfl) (by decide)

end MqExits.Oam
