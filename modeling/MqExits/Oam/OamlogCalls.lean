import MqExits.Oam.AuthBuffer
import MqExits.Oam.ServiceStart

/-!
# What a call of `oamlog` leaves as it was

`oamlog` is the first service of a chain: it writes a log and lets the queue manager go on to the
next service with the same arguments. Each of its fourteen functions is here as far as it touches
memory. The text of the log is left out, but the arguments of `rpt` are evaluated whether or not
there is a log, and some of them have effects: `OAEntityStr` trims the entity name where it is, and
`OAAuthStr` fills a buffer of its caller.

Memory is what the arguments of a call reach; the output parameters are apart from it, as what the
call returns (`Outputs`). `none` is behaviour the language leaves undefined.

## What can go wrong

A name that ends in blanks is changed, which the next service sees; and a name without a NUL makes
`trim` read behind it. The text of an authority mask can be longer than its buffer. What all this
has in common is that the call does not return with the memory as it was, so `Transparent` asks for
that, of all the functions at once, and `Harmless` says what can happen to each: some evaluate the
name only if there is a log, some always, and some decode it only if it is of a kind they know.
-/

namespace MqExits.Oam.Oamlog

open CText

/-! ### Memory -/

/-- The memory that the arguments reach. -/
abbrev Mem := Bytes

/-- `strlen(s)`, for a string that has a NUL. -/
def strlen (m : Mem) (s : ℕ) : Option ℕ :=
  if (0 : UInt8) ∈ m.drop s then some (cstr (m.drop s)).length else none

/-- The loop of `trim`, from `s[n - 1]` down. -/
def trimLoop (m : Mem) (s : ℕ) : ℕ → Mem
  | 0 => m
  | i + 1 => if m.getD (s + i) 0 = blank then trimLoop (m.set (s + i) 0) s i else m

/-- `trim(s)`. -/
def trim (m : Mem) (s : ℕ) : Option Mem :=
  (strlen m s).map (trimLoop m s)

/-- The `EntityNamePtr` of an MQZED; `none` is `NULL`. -/
structure MQZED where
  entityNamePtr : Option ℕ
  deriving DecidableEq

/-- The fields of an MQZAD that `OAEnumAuth` needs. -/
structure MQZAD where
  entityType : MQLONG
  entityDataPtr : Option MQZED
  authority : BitVec 32
  deriving DecidableEq

def MQZAET_PRINCIPAL : MQLONG := 1
def MQZAET_GROUP : MQLONG := 2

/-- `OAEntityStr`, where the pointer to the MQZED can be `NULL` too. -/
def OAEntityStr (m : Mem) (entity : Option MQZED) : Option Mem :=
  (entity.bind MQZED.entityNamePtr).bind (trim m)

/-- `OAAuthStr` with a buffer of `AUTHBUF` bytes on the stack. -/
def authBuffer (x : BitVec 32) : Option Bytes :=
  if (OAAuthStr x).1.length < AUTHBUF then some (OAAuthStr x).1 else none

/-! ### The functions -/

/-- The output parameters of a call. `MQStart` and `OATerm` have no `pContinuation`, and `MQStart`
alone returns a `Version`. -/
structure Outputs where
  compCode : MQCC
  reason : MQRC
  continuation : Option MQZCI
  version : Option MQLONG
  deriving DecidableEq

/-- The outputs that make the queue manager go on to the next service. -/
def goOn (compCode : MQCC) (reason : MQRC) : Outputs := ⟨compCode, reason, some .CONTINUE, none⟩

/-- What comes of a call, and of memory. -/
abbrev Result := Option (Outputs × Mem)

section

variable (s : ServiceState) (m : Mem)

def OACopyAllAuth : Result := some (goOn OA_DEF_CC MQRC_NONE, m)
def OADeleteAuth : Result := some (goOn OA_DEF_CC MQRC_NONE, m)
def OARefreshCache : Result := some (goOn .OK MQRC_NONE, m)
def OAInquire : Result := some (goOn .OK MQRC_NONE, m)

/-- `OAPtrStr` writes to a buffer of the function's own, which is long enough for a pointer. -/
def OAAuthUser : Result := some (goOn OA_DEF_CC MQRC_NONE, m)
def OAFreeUser : Result := some (goOn OA_DEF_CC MQRC_NONE, m)

/-- The argument of `rpt` is evaluated before `rpt` looks at `fp`. -/
def OAGetAuth (pEntityData : Option MQZED) : Result := do
  let m ← OAEntityStr m pEntityData
  some (goOn OA_DEF_CC MQRC_NONE, m)

def OAGetExplicitAuth (pEntityData : Option MQZED) : Result := do
  let m ← OAEntityStr m pEntityData
  some (goOn OA_DEF_CC MQRC_NONE, m)

/-- The log entry of `OASetAuth` and `OACheckAuth`, which they write if there is a log. -/
def logAuth (pEntityData : Option MQZED) (Authority : BitVec 32) : Option Mem :=
  if s.logOpen then do
    let m ← OAEntityStr m pEntityData
    let _ ← authBuffer Authority
    some m
  else some m

def OASetAuth (pEntityData : Option MQZED) (Authority : BitVec 32) : Result := do
  let m ← logAuth s m pEntityData Authority
  some (goOn OA_DEF_CC MQRC_NONE, m)

def OACheckAuth (pEntityData : Option MQZED) (Authority : BitVec 32) : Result := do
  let m ← logAuth s m pEntityData Authority
  some (goOn OA_DEF_CC MQRC_UNKNOWN_OBJECT_NAME, m)

/-- `decodeEnt`: the entity type says that there is a name. -/
def decodeEnt (entityType : MQLONG) : Bool :=
  entityType = MQZAET_PRINCIPAL ∨ entityType = MQZAET_GROUP

/-- `(decodeEnt!=0) ? OAEntityStr(x) : "Not Specified"`. -/
def entityOrNone (entityType : MQLONG) (entity : Option MQZED) : Option Mem :=
  if decodeEnt entityType then OAEntityStr m entity else some m

/-- The log entry of `OAEnumAuth`. -/
def logEnum (pFilter : MQZAD) : Option Mem :=
  if s.logOpen then do
    let m ← entityOrNone m pFilter.entityType pFilter.entityDataPtr
    let _ ← authBuffer pFilter.authority
    some m
  else some m

def OAEnumAuth (pFilter : MQZAD) : Result := do
  let m ← logEnum s m pFilter
  some (goOn OA_DEF_CC MQRC_NONE, m)

/-- The log entry of `OACheckPrivileged`. -/
def logPrivileged (pEntityData : Option MQZED) (EntityType : MQLONG) : Option Mem :=
  if s.logOpen then entityOrNone m EntityType pEntityData else some m

def OACheckPrivileged (pEntityData : Option MQZED) (EntityType : MQLONG) : Result := do
  let m ← logPrivileged s m pEntityData EntityType
  some (goOn OA_DEF_CC MQRC_NONE, m)

end

/-- The functions that `oamlog` registers, with the arguments that matter here. -/
inductive Request
  | MQStart (a : StartArgs)
  | OATerm (Options : MQLONG)
  | OACheckAuth (pEntityData : Option MQZED) (Authority : BitVec 32)
  | OACopyAllAuth
  | OADeleteAuth
  | OASetAuth (pEntityData : Option MQZED) (Authority : BitVec 32)
  | OAGetAuth (pEntityData : Option MQZED)
  | OAGetExplicitAuth (pEntityData : Option MQZED)
  | OARefreshCache
  | OAEnumAuth (pFilter : MQZAD)
  | OAAuthUser
  | OAFreeUser
  | OAInquire
  | OACheckPrivileged (pEntityData : Option MQZED) (EntityType : MQLONG)

/-- A call; `version` is the `SupportedVersion` of the build. -/
def call (version : MQLONG) (s : ServiceState) (m : Mem) : Request → Result
  | .MQStart a => some (⟨(MQStart s a).1.1, (MQStart s a).1.2, none, some version⟩, m)
  | .OATerm _ => some (⟨.OK, MQRC_NONE, none, none⟩, m)
  | .OACheckAuth entity x => OACheckAuth s m entity x
  | .OACopyAllAuth => OACopyAllAuth m
  | .OADeleteAuth => OADeleteAuth m
  | .OASetAuth entity x => OASetAuth s m entity x
  | .OAGetAuth entity => OAGetAuth m entity
  | .OAGetExplicitAuth entity => OAGetExplicitAuth m entity
  | .OARefreshCache => OARefreshCache m
  | .OAEnumAuth filter => OAEnumAuth s m filter
  | .OAAuthUser => OAAuthUser m
  | .OAFreeUser => OAFreeUser m
  | .OAInquire => OAInquire m
  | .OACheckPrivileged entity entityType => OACheckPrivileged s m entity entityType

/-! ### What the queue manager relies on -/

/-- The call returns, and memory is as it was. -/
def Transparent (version : MQLONG) (s : ServiceState) (m : Mem) (r : Request) : Prop :=
  ∃ outputs, call version s m r = some (outputs, m)

/-- There is an entity name, it has a NUL, and it does not end in a blank. -/
def NameOk (m : Mem) (entity : Option MQZED) : Prop :=
  ∃ p, entity.bind MQZED.entityNamePtr = some p ∧ (0 : UInt8) ∈ m.drop p ∧
    (cstr (m.drop p)).getLast? ≠ some blank

/-- What a call evaluates is harmless: its entity name, and its authority mask if there is a log. -/
def Harmless (s : ServiceState) (m : Mem) : Request → Prop
  | .OAGetAuth entity | .OAGetExplicitAuth entity => NameOk m entity
  | .OACheckAuth entity x | .OASetAuth entity x =>
    s.logOpen = true → NameOk m entity ∧ TextFits x
  | .OAEnumAuth filter => s.logOpen = true →
    (decodeEnt filter.entityType = true → NameOk m filter.entityDataPtr) ∧
      TextFits filter.authority
  | .OACheckPrivileged entity entityType =>
    s.logOpen = true → decodeEnt entityType = true → NameOk m entity
  | _ => True

/-! ### The entity name -/

theorem getD_set_zero (m : Mem) (k j : ℕ) :
    (m.set k 0).getD j 0 = if k = j then 0 else m.getD j 0 := by
  rw [List.getD_eq_getElem?_getD, List.getElem?_set, List.getD_eq_getElem?_getD]
  split_ifs
  · rfl
  · rfl
  · rfl

/-- A NUL stays where it is. -/
theorem trimLoop_zero {m : Mem} {s j : ℕ} (h : m.getD j 0 = 0) (n : ℕ) :
    (trimLoop m s n).getD j 0 = 0 := by
  induction n generalizing m with
  | zero => exact h
  | succ i ih =>
    rw [trimLoop]
    split_ifs
    · refine ih ?_
      rw [getD_set_zero, h, ite_self]
    · exact h

/-- The last byte of a string, where it is in memory. -/
theorem getLast?_cstr {m : Mem} {s i : ℕ} (h : (cstr (m.drop s)).length = i + 1) :
    (cstr (m.drop s)).getLast? = some (m.getD (s + i) 0) := by
  have hi : i < (cstr (m.drop s)).length := by omega
  have hprefix : cstr (m.drop s) <+: m.drop s := List.takeWhile_prefix _
  rw [List.getLast?_eq_getElem?, h, Nat.add_sub_cancel, List.getElem?_eq_getElem hi,
    hprefix.getElem hi, List.getElem_drop, List.getD_eq_getElem?_getD, List.getElem?_eq_getElem]
  rfl

/-- **The loop leaves memory alone exactly if the string does not end in a blank.** -/
theorem trimLoop_eq_self_iff (m : Mem) (s : ℕ) :
    trimLoop m s (cstr (m.drop s)).length = m ↔ (cstr (m.drop s)).getLast? ≠ some blank := by
  rcases hn : (cstr (m.drop s)).length with - | i
  · rw [List.length_eq_zero_iff] at hn
    exact iff_of_true rfl (by simp [hn])
  · rw [getLast?_cstr hn, trimLoop]
    split_ifs with h
    · refine iff_of_false (fun heq ↦ ?_) (not_not_intro (congrArg some h))
      have hzero : (trimLoop (m.set (s + i) 0) s i).getD (s + i) 0 = 0 :=
        trimLoop_zero (by rw [getD_set_zero, if_pos rfl]) i
      rw [heq, h] at hzero
      exact absurd hzero (by decide)
    · exact iff_of_true rfl (by simpa using h)

theorem oAEntityStr_eq_some_self_iff {m : Mem} {entity : Option MQZED} :
    OAEntityStr m entity = some m ↔ NameOk m entity := by
  rw [OAEntityStr, NameOk]
  rcases entity.bind MQZED.entityNamePtr with - | p
  · simp
  · rw [Option.bind_some, trim, strlen]
    split_ifs with h
    · simp [h, trimLoop_eq_self_iff]
    · simp [h]

theorem entityOrNone_eq_some_self_iff {m : Mem} {entityType : MQLONG} {entity : Option MQZED} :
    entityOrNone m entityType entity = some m ↔
      (decodeEnt entityType = true → NameOk m entity) := by
  rw [entityOrNone]
  split_ifs with h
  · simp [h, oAEntityStr_eq_some_self_iff]
  · simp [h]

/-- The authority text can be built exactly if it fits. -/
theorem authBuffer_isSome_iff {x : BitVec 32} :
    (∃ text, authBuffer x = some text) ↔ TextFits x := by
  rw [authBuffer, ← length_oAAuthStr_lt_iff]
  split_ifs with h
  · simp [h]
  · simp [h]

/-! ### Every call -/

/-- The end of a call returns the memory it was given. -/
theorem exists_outputs_iff {e : Option Mem} {o : Outputs} {m : Mem} :
    (∃ outputs, (e >>= fun m' ↦ some (o, m')) = some (outputs, m)) ↔ e = some m := by
  rcases e with - | m'
  · simp
  · simp

theorem logAuth_eq_some_self_iff {s : ServiceState} {m : Mem} {entity : Option MQZED}
    {x : BitVec 32} :
    logAuth s m entity x = some m ↔ (s.logOpen = true → NameOk m entity ∧ TextFits x) := by
  rw [logAuth, ← oAEntityStr_eq_some_self_iff, ← authBuffer_isSome_iff]
  split_ifs with h
  · simp [h, Option.bind_eq_some_iff, and_comm]
  · simp [h]

/-- **A call leaves memory as it was exactly if what it evaluates is harmless.** -/
theorem transparent_iff (version : MQLONG) (s : ServiceState) (m : Mem) (r : Request) :
    Transparent version s m r ↔ Harmless s m r := by
  rw [Transparent]
  cases r with
  | OAGetAuth entity | OAGetExplicitAuth entity =>
    exact exists_outputs_iff.trans oAEntityStr_eq_some_self_iff
  | OACheckAuth entity x | OASetAuth entity x =>
    exact exists_outputs_iff.trans logAuth_eq_some_self_iff
  | OAEnumAuth filter =>
    refine exists_outputs_iff.trans ?_
    rw [logEnum, Harmless, ← entityOrNone_eq_some_self_iff, ← authBuffer_isSome_iff]
    split_ifs with h
    · simp [h, Option.bind_eq_some_iff, and_comm]
    · simp [h]
  | OACheckPrivileged entity entityType =>
    refine exists_outputs_iff.trans ?_
    rw [logPrivileged, Harmless, ← entityOrNone_eq_some_self_iff]
    split_ifs with h
    · simp [h]
    · simp [h]
  | _ => exact iff_of_true ⟨_, rfl⟩ trivial

/-- A user name of six characters, padded to twelve. -/
def paddedName : Mem := lit "alice1      " ++ [0]

/-- `OAGetAuth` for it, without a log. -/
theorem not_transparent_paddedName :
    ¬ Transparent 5 .start paddedName (.OAGetAuth (some ⟨some 0⟩)) := by
  rintro ⟨outputs, h⟩
  have hmem : (call 5 .start paddedName (.OAGetAuth (some ⟨some 0⟩))).map Prod.snd =
      some paddedName := congrArg (Option.map Prod.snd) h
  exact absurd hmem (by decide)

end MqExits.Oam.Oamlog
