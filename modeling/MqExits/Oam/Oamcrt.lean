import MqExits.Mqi.Types
import MqExits.Runs.Ledger

/-!
# The creation check: `oamcrt`

A service that runs before the default OAM and refuses the creation of objects by name. The creation
of a dynamic queue comes as two calls on one thread: `OACheckAuth` for the model queue, which
knows the user but not the name, and `OACopyAllAuth`, which knows the name but not the user. The
first leaves the user name in two thread-specific variables for the second.

The calls of any number of threads interleave, one access to a variable, one mutex call or one
allocation at a time. The thread-specific variables and the program counter make up a `Thread`; the
mutex, the flag of the configuration and the duplicated names are shared.
-/

namespace MqExits.Oam

open CText Ledger

/-! ### Calls and results -/

/-- The continuation indicators. -/
inductive MQZCI
  | CONTINUE
  | STOP
  deriving DecidableEq, Repr

/-- What a service call returns. -/
structure ServiceResult where
  compCode : MQCC
  reason : MQRC
  continuation : MQZCI
  deriving DecidableEq

/-- `OA_DEF_CC`. -/
def OA_DEF_CC : MQCC := .WARNING

def MQZAO_CREATE : BitVec 32 := 0x00010000
def MQZAO_DISPLAY : BitVec 32 := 0x00040000

/-- The call is refused. -/
def refused : ServiceResult := ⟨.FAILED, MQRC_NOT_AUTHORIZED, .STOP⟩

/-- The arguments of `OACheckAuth` that it uses. -/
structure CheckArgs where
  /-- `pEntityData->EntityNamePtr`. -/
  entityName : Bytes
  objectName : Bytes
  objectType : MQLONG
  authority : BitVec 32
  deriving DecidableEq

/-- A call of the service. -/
inductive OaCall
  | checkAuth (args : CheckArgs)
  | copyAllAuth (objectName : Bytes)
  | refreshCache
  deriving DecidableEq

/-- The comparison of `permittedObject`. -/
def permittedName (objectName : Bytes) : Bool :=
  !strncmpEq objectName (lit "NOTALLOWED") 10

/-! ### States -/

/-- Where a thread is. `OACheckAuth` and `OACopyAllAuth` are inlined with the `permittedObject` they
call, and `OARefreshCache` with `readConfig`. -/
inductive Pc
  | idle
  | checkReset (args : CheckArgs)
  | checkFree (args : CheckArgs)
  | checkTest (args : CheckArgs)
  | checkLock (args : CheckArgs)
  | checkCompare (args : CheckArgs)
  | checkUnlock (args : CheckArgs) (permitted : Bool)
  | checkStash (args : CheckArgs)
  | checkReturn (args : CheckArgs) (result : ServiceResult)
  | copyTest (objectName : Bytes)
  | copyLock (objectName : Bytes)
  | copyCompare (objectName : Bytes)
  | copyUnlock (objectName : Bytes) (permitted : Bool)
  | copyReset (objectName : Bytes) (result : ServiceResult)
  | copyFree (objectName : Bytes) (result : ServiceResult)
  | copyReturn (objectName : Bytes) (result : ServiceResult)
  | refreshReset
  | refreshTest
  | refreshLock
  | refreshSet
  | refreshUnlock
  deriving DecidableEq

/-- The address of a duplicated name. -/
abbrev NameAddr := ℕ

/-- A thread and its thread-specific variables. -/
structure Thread where
  pc : Pc
  prepareToCopy : Bool
  prepareToCopyUser : Option NameAddr

/-- The state of a process with threads `τ`. -/
structure OamState (τ : Type) where
  threads : τ → Thread
  mutex : Option τ
  alreadyRead : Bool
  names : NameAddr → Option Bytes
  /-- Where the next name goes. -/
  next : NameAddr

/-- No call has been made. -/
def OamState.start (τ : Type) : OamState τ where
  threads _ := ⟨.idle, false, none⟩
  mutex := none
  alreadyRead := false
  names _ := none
  next := 0

/-- What can be observed of a step. -/
inductive Obs
  | silent
  /-- `permittedObject` is called. -/
  | asked (objectName : Bytes) (userName : Option Bytes)
  | duplicated (a : NameAddr)
  | freed (a : NameAddr)
  /-- `OACheckAuth` returns. -/
  | checked (result : ServiceResult)
  /-- `OACopyAllAuth` returns. -/
  | copied (result : ServiceResult)
  /-- `OARefreshCache` returns. -/
  | refreshed (result : ServiceResult)
  deriving DecidableEq

/-- What a step does with the duplicated names. -/
def Obs.op : Obs → Option (Op NameAddr)
  | .duplicated a => some (.acquire a)
  | .freed a => some (.release a)
  | _ => none

/-! ### Steps -/

variable {τ : Type} [DecidableEq τ]

/-- Replace one thread. -/
def OamState.set (s : OamState τ) (t : τ) (th : Thread) : OamState τ :=
  { s with threads := Function.update s.threads t th }

/-- The first step of a call. -/
def Pc.enter : OaCall → Pc
  | .checkAuth args => .checkReset args
  | .copyAllAuth objectName => .copyTest objectName
  | .refreshCache => .refreshReset

/-- The result that `OACheckAuth` starts from. -/
def checkDefault : ServiceResult := ⟨OA_DEF_CC, MQRC_UNKNOWN_OBJECT_NAME, .CONTINUE⟩

/-- The result of an `OACopyAllAuth` that refuses nothing. -/
def copyDefault : ServiceResult := ⟨OA_DEF_CC, MQRC_NONE, .CONTINUE⟩

/-- `if (prepareToCopyUser != NULL) { free(prepareToCopyUser); prepareToCopyUser = NULL; }`, and on
to `pc`. -/
def freeUser (s : OamState τ) (t : τ) (pc : Pc) : OamState τ × Option NameAddr :=
  let th := s.threads t
  match th.prepareToCopyUser with
  | none => (s.set t { th with pc := pc }, none)
  | some a =>
    ({ s with names := Function.update s.names a none }.set t
      { th with pc := pc, prepareToCopyUser := none }, some a)

/-- Take the mutex, and go on to `pc`. A thread waits while another has it. -/
def lockMutex (s : OamState τ) (t : τ) (pc : Pc) : Option (OamState τ) :=
  match s.mutex with
  | none => some ({ s with mutex := some t }.set t { s.threads t with pc := pc })
  | some _ => none

/-- Give the mutex back, and go on to `pc`. -/
def unlockMutex (s : OamState τ) (t : τ) (pc : Pc) : OamState τ :=
  { s with mutex := none }.set t { s.threads t with pc := pc }

/-- What can be observed of `freeUser`. -/
def freedObs : Option NameAddr → Obs
  | none => .silent
  | some a => .freed a

/-- The next step of a thread that is in a call. -/
def stepThread (s : OamState τ) (t : τ) : Option (OamState τ × Obs) :=
  let th := s.threads t
  match th.pc with
  | .idle => none
  -- OACheckAuth
  | .checkReset args =>
    some (s.set t { th with pc := .checkFree args, prepareToCopy := false }, .silent)
  | .checkFree args =>
    let (s, freed) := freeUser s t (.checkTest args)
    some (s, freedObs freed)
  | .checkTest args =>
    if args.objectType = MQOT_Q then
      if args.authority = MQZAO_CREATE then
        some (s.set t { th with pc := .checkLock args },
          .asked args.objectName (some (cstr args.entityName)))
      else some (s.set t { th with pc := .checkReturn args checkDefault }, .silent)
    else if args.objectType = MQOT_MODEL_Q ∧ args.authority = MQZAO_DISPLAY then
      some (s.set t { th with pc := .checkStash args, prepareToCopy := true }, .silent)
    else some (s.set t { th with pc := .checkReturn args checkDefault }, .silent)
  | .checkLock args => (lockMutex s t (.checkCompare args)).map fun s ↦ (s, .silent)
  | .checkCompare args =>
    some (s.set t { th with pc := .checkUnlock args (permittedName args.objectName) }, .silent)
  | .checkUnlock args permitted =>
    some (unlockMutex s t (.checkReturn args (if permitted then checkDefault else refused)),
      .silent)
  | .checkStash args =>
    some ({ s with
      names := Function.update s.names s.next (some (cstr args.entityName))
      next := s.next + 1 }.set t
        { th with pc := .checkReturn args checkDefault, prepareToCopyUser := some s.next },
      .duplicated s.next)
  | .checkReturn _ result => some (s.set t { th with pc := .idle }, .checked result)
  -- OACopyAllAuth
  | .copyTest objectName =>
    if th.prepareToCopy then
      some (s.set t { th with pc := .copyLock objectName },
        .asked objectName (th.prepareToCopyUser.bind s.names))
    else some (s.set t { th with pc := .copyReset objectName copyDefault }, .silent)
  | .copyLock objectName => (lockMutex s t (.copyCompare objectName)).map fun s ↦ (s, .silent)
  | .copyCompare objectName =>
    some (s.set t { th with pc := .copyUnlock objectName (permittedName objectName) }, .silent)
  | .copyUnlock objectName permitted =>
    some (unlockMutex s t (.copyReset objectName (if permitted then copyDefault else refused)),
      .silent)
  | .copyReset objectName result =>
    some (s.set t { th with pc := .copyFree objectName result, prepareToCopy := false }, .silent)
  | .copyFree objectName result =>
    let (s, freed) := freeUser s t (.copyReturn objectName result)
    some (s, freedObs freed)
  | .copyReturn _ result => some (s.set t { th with pc := .idle }, .copied result)
  -- OARefreshCache
  | .refreshReset =>
    some ({ s with alreadyRead := false }.set t { th with pc := .refreshTest }, .silent)
  | .refreshTest =>
    if s.alreadyRead then
      some (s.set t { th with pc := .idle }, .refreshed ⟨.OK, MQRC_NONE, .CONTINUE⟩)
    else some (s.set t { th with pc := .refreshLock }, .silent)
  | .refreshLock => (lockMutex s t .refreshSet).map fun s ↦ (s, .silent)
  | .refreshSet =>
    some ({ s with alreadyRead := true }.set t { th with pc := .refreshUnlock }, .silent)
  | .refreshUnlock =>
    some (unlockMutex s t .idle, .refreshed ⟨.OK, MQRC_NONE, .CONTINUE⟩)

/-- The process: a thread begins a call, or takes the next step of the one it is in. -/
def oamcrt (τ : Type) [DecidableEq τ] : Machine (OamState τ) (τ × Option OaCall) Obs where
  step s
    | (t, some call) =>
      if (s.threads t).pc = .idle then
        some (s.set t { s.threads t with pc := Pc.enter call }, .silent)
      else none
    | (t, none) => stepThread s t

/-- A step of that machine. -/
abbrev OamEvent (τ : Type) := Machine.Event (OamState τ) (τ × Option OaCall) Obs

end MqExits.Oam
