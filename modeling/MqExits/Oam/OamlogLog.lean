import MqExits.Oam.OamlogFormats

/-!
# What a call of `oamlog` logs

The first text that a call prints is its record (`Call.shown`), made from its arguments: a name is
printed to its width, an entity name as `trim` leaves it in memory. Two kinds of call go on with
more lines (`Call.later`): one line for the unknown bits of an authority, and one for each selector
of `OAInquire`, which both arrays must have.

Some functions look at `fp` before they evaluate anything, and some leave that to `rpt`. So a call
has to be defined for its memory in the same way as without the log (`isSome_run_iff`).
-/

namespace MqExits.Oam.Oamlog.Log

open CText Printf

/-! ### The calls -/

/-- An object and an entity, as four of the functions are given them. -/
structure EntityArgs where
  /-- The memory that the entity is in. -/
  mem : Mem
  pEntityData : Option MQZED
  entityType : MQLONG
  pObjectName : Field 48
  objectType : MQLONG

/-- The arguments of `OAAuthUser`, as far as they are logged. -/
structure AuthUserArgs where
  userIdentifier : Field 12
  effectiveUserID : Field 12
  applName : Field 28
  applIdentityData : Field 32
  environment : MQLONG
  callerType : MQLONG
  authenticationType : MQLONG
  bindType : MQLONG
  processId : MQLONG
  threadId : MQLONG
  correlationPtr : BitVec 64

/-- The arguments of `OAEnumAuth`. -/
structure EnumArgs where
  mem : Mem
  startEnumeration : MQLONG
  pFilter : MQZAD
  options : BitVec 32
  profileName : Field 48
  objectType : MQLONG

/-- A call of a function other than `MQStart` and `OATerm`. -/
inductive Call
  | OADeleteAuth (pObjectName : Field 48) (objectType : MQLONG)
  | OARefreshCache
  | OAGetAuth (a : EntityArgs)
  | OAGetExplicitAuth (a : EntityArgs)
  | OASetAuth (a : EntityArgs) (authority : BitVec 32)
  | OACopyAllAuth (pRefObjectName pObjectName : Field 48) (objectType : MQLONG)
  | OACheckAuth (a : EntityArgs) (authority : BitVec 32)
  | OAAuthUser (a : AuthUserArgs)
  | OAFreeUser (correlationPtr : BitVec 64)
  | OAInquire (selectorCount : MQLONG) (pSelectors pIntAttrs : List MQLONG)
  | OAEnumAuth (a : EnumArgs)
  | OACheckPrivileged (mem : Mem) (pEntityData : Option MQZED) (entityType : MQLONG)

/-- The text of `OAEntityStr`: the name, once it is trimmed. -/
def entityText (m : Mem) (entity : Option MQZED) : Option Bytes := do
  let p ← entity.bind MQZED.entityNamePtr
  let m ← trim m p
  some (cstr (m.drop p))

/-- The text that is printed for an entity that there may be none of. -/
def entityOrNoneText (m : Mem) (entityType : MQLONG) (entity : Option MQZED) : Option Bytes :=
  if decodeEnt entityType then entityText m entity else some (lit "Not Specified")

def EntityArgs.shown (a : EntityArgs) : Option ObjectEntity :=
  (entityText a.mem a.pEntityData).map fun entity ↦
    ⟨fill 48 a.pObjectName.val, OAOTStr a.objectType, OAETStr a.entityType, entity⟩

def AuthUserArgs.shown (a : AuthUserArgs) : UserContext where
  userIdentifier := fill 12 a.userIdentifier.val
  effectiveUserID := fill 12 a.effectiveUserID.val
  applName := fill 28 a.applName.val
  applIdentityData := fill 32 a.applIdentityData.val
  environment := OAEnvStr a.environment
  callerType := OACTStr a.callerType
  authenticationType := OAATStr a.authenticationType
  bindType := OABTStr a.bindType
  processId := a.processId
  threadId := a.threadId
  correlationPtr := a.correlationPtr

def EnumArgs.shown (a : EnumArgs) : Option EnumFilter := do
  let entity ← entityOrNoneText a.mem a.pFilter.entityType a.pFilter.entityDataPtr
  let _ ← authBuffer a.pFilter.authority
  some {
    start := a.startEnumeration ≠ 0
    options := a.options
    profile := fill 48 a.profileName.val
    type := OAOTStr a.objectType
    kind := OAETStr a.pFilter.entityType
    entity := entity
    authority := a.pFilter.authority }

namespace Call

def function : Call → MQZID
  | .OADeleteAuth _ _ => .DELETE_AUTHORITY
  | .OARefreshCache => .REFRESH_CACHE
  | .OAGetAuth _ => .GET_AUTHORITY
  | .OAGetExplicitAuth _ => .GET_EXPLICIT_AUTHORITY
  | .OASetAuth _ _ => .SET_AUTHORITY
  | .OACopyAllAuth _ _ _ => .COPY_ALL_AUTHORITY
  | .OACheckAuth _ _ => .CHECK_AUTHORITY
  | .OAAuthUser _ => .AUTHENTICATE_USER
  | .OAFreeUser _ => .FREE_USER
  | .OAInquire _ _ _ => .INQUIRE
  | .OAEnumAuth _ => .ENUMERATE_AUTHORITY_DATA
  | .OACheckPrivileged _ _ _ => .CHECK_PRIVILEGED

/-- What the first call of `rpt` or `fprintf` prints; `none` for what the language leaves
undefined. -/
def shown : (c : Call) → Option (Shown c.function)
  | .OADeleteAuth pObjectName objectType =>
    some (.delfmt (fill 48 pObjectName.val) (OAOTStr objectType))
  | .OARefreshCache => some .refreshfmt
  | .OAGetAuth a => a.shown.map .getauthfmt
  | .OAGetExplicitAuth a => a.shown.map .explauthfmt
  | .OASetAuth a authority => do
    let e ← a.shown
    let _ ← authBuffer authority
    some (.setauthfmt e authority)
  | .OACopyAllAuth pRefObjectName pObjectName objectType =>
    some (.copyallfmt (fill 48 pRefObjectName.val) (OAOTStr objectType) (fill 48 pObjectName.val))
  | .OACheckAuth a authority => do
    let e ← a.shown
    let _ ← authBuffer authority
    some (.checkauthfmt e authority)
  | .OAAuthUser a => some (.authuserfmt a.shown)
  | .OAFreeUser correlationPtr => some (.freeuserfmt correlationPtr)
  | .OAInquire _ _ _ => some .inquirefmt
  | .OAEnumAuth a => a.shown.map .authenumfmt
  | .OACheckPrivileged mem pEntityData entityType =>
    (entityOrNoneText mem entityType pEntityData).map (.checkprivfmt (OAETStr entityType))

/-- `unknownauthfmt`, if there are unknown bits. -/
def unknownLines (authority : BitVec 32) : List (List Item) :=
  if (OAAuthStr authority).2 ≠ 0 then
    [[fmt "Unk Flag: 0x", .hex 8 (OAAuthStr authority).2]]
  else []

/-- `attrfmt`. -/
def attrLine (attr val : MQLONG) : List Item :=
  [fmt "Attr    : \"", .fixed 20 (fillRight 20 (OAAttrStr attr)), fmt "\" [",
   .lit (List.replicate (4 - (toDecimal attr).length) 32), .dec attr, fmt "]  Value : ", .dec val]

/-- What the later calls print, a line each. -/
def later : Call → Option (List (List Item))
  | .OASetAuth _ authority | .OACheckAuth _ authority => some (unknownLines authority)
  | .OAEnumAuth a => some (unknownLines a.pFilter.authority)
  | .OAInquire selectorCount pSelectors pIntAttrs =>
    if selectorCount = 0 then some [[fmt "No selectors"]]
    else (List.range selectorCount.toNat).mapM fun i ↦ do
      let attr ← pSelectors[i]?
      let val ← pIntAttrs[i]?
      some (attrLine attr val)
  | _ => some []

/-- The function looks at `fp` before it evaluates what is printed. -/
def testsFp : Call → Bool
  | .OASetAuth _ _ | .OACheckAuth _ _ | .OAEnumAuth _ | .OACheckPrivileged _ _ _ => true
  | _ => false

/-- A call: what it prints, if there is a log. -/
def run (logOpen : Bool) (c : Call) : Option (Option (Shown c.function × List (List Item))) :=
  if c.testsFp && !logOpen then some none
  else do
    let x ← c.shown
    let later ← c.later
    some (if logOpen then some (x, later) else none)

end Call

/-! ### The call in memory -/

namespace Call

/-- The memory of the call. -/
def mem : Call → Mem
  | .OAGetAuth a | .OAGetExplicitAuth a | .OASetAuth a _ | .OACheckAuth a _ => a.mem
  | .OAEnumAuth a => a.mem
  | .OACheckPrivileged mem _ _ => mem
  | _ => []

/-- The call as far as it touches memory. -/
def request : Call → Request
  | .OADeleteAuth _ _ => .OADeleteAuth
  | .OARefreshCache => .OARefreshCache
  | .OAGetAuth a => .OAGetAuth a.pEntityData
  | .OAGetExplicitAuth a => .OAGetExplicitAuth a.pEntityData
  | .OASetAuth a authority => .OASetAuth a.pEntityData authority
  | .OACopyAllAuth _ _ _ => .OACopyAllAuth
  | .OACheckAuth a authority => .OACheckAuth a.pEntityData authority
  | .OAAuthUser _ => .OAAuthUser
  | .OAFreeUser _ => .OAFreeUser
  | .OAInquire _ _ _ => .OAInquire
  | .OAEnumAuth a => .OAEnumAuth a.pFilter
  | .OACheckPrivileged _ pEntityData entityType => .OACheckPrivileged pEntityData entityType

/-- Both arrays of `OAInquire` are as long as the count says. -/
def Covered : Call → Prop
  | .OAInquire selectorCount pSelectors pIntAttrs =>
    selectorCount.toNat ≤ pSelectors.length ∧ selectorCount.toNat ≤ pIntAttrs.length
  | _ => True

end Call

theorem isSome_mapM_iff {α β : Type} {f : α → Option β} {l : List α} :
    (l.mapM f).isSome ↔ ∀ a ∈ l, (f a).isSome := by
  induction l with
  | nil => simp
  | cons a l ih =>
    rw [List.forall_mem_cons, ← ih, List.mapM_cons]
    rcases f a with - | b
    · simp
    · rcases l.mapM f with - | bs
      · simp
      · simp

theorem isSome_entityText_iff (m : Mem) (entity : Option MQZED) :
    (entityText m entity).isSome ↔ (OAEntityStr m entity).isSome := by
  rw [entityText, OAEntityStr]
  rcases entity.bind MQZED.entityNamePtr with - | p
  · exact Iff.rfl
  · rcases h : trim m p with - | m'
    · simp [h]
    · simp [h]

theorem isSome_entityOrNoneText_iff (m : Mem) (entityType : MQLONG) (entity : Option MQZED) :
    (entityOrNoneText m entityType entity).isSome ↔ (entityOrNone m entityType entity).isSome := by
  rw [entityOrNoneText, entityOrNone]
  split_ifs
  · exact isSome_entityText_iff m entity
  · exact Iff.rfl

theorem isSome_bind_some {α β : Type} (x : Option α) (g : α → β) :
    (x.bind fun a ↦ some (g a)).isSome = x.isSome := by
  cases x <;> rfl

theorem isSome_bind_bind_some {α β γ : Type} (x : Option α) (y : Option β) (g : α → β → γ) :
    (x >>= fun a ↦ y >>= fun b ↦ some (g a b)).isSome ↔ x.isSome ∧ y.isSome := by
  cases x <;> cases y <;> simp

/-- What is printed is evaluated unless the function finds that there is no log. -/
theorem isSome_run (logOpen : Bool) (c : Call) : (c.run logOpen).isSome ↔
    ((c.testsFp = true → logOpen = true) → c.shown.isSome ∧ c.later.isSome) := by
  rw [Call.run]
  by_cases hfp : c.testsFp = true → logOpen = true
  · have htests : ¬ (c.testsFp && !logOpen) = true := by simpa using hfp
    rw [if_neg htests, isSome_bind_bind_some, imp_iff_right hfp]
  · have htests : (c.testsFp && !logOpen) = true := by simpa using hfp
    rw [if_pos htests]
    exact iff_of_true rfl fun h ↦ absurd h hfp

/-- The selectors can be read if the arrays are long enough. -/
theorem isSome_later_OAInquire {selectorCount : MQLONG} {pSelectors pIntAttrs : List MQLONG} :
    (Call.OAInquire selectorCount pSelectors pIntAttrs).later.isSome ↔
      (Call.OAInquire selectorCount pSelectors pIntAttrs).Covered := by
  rw [Call.later, Call.Covered]
  split_ifs with hzero
  · simp [hzero]
  · have hget : ∀ (l : List MQLONG) (i : ℕ), l[i]?.isSome ↔ i < l.length := fun l i ↦ by simp
    rw [isSome_mapM_iff]
    simp only [isSome_bind_bind_some, List.mem_range, hget]
    constructor
    · intro h
      exact ⟨not_lt.1 fun hlt ↦ lt_irrefl _ (h _ hlt).1, not_lt.1 fun hlt ↦ lt_irrefl _ (h _ hlt).2⟩
    · intro h i hi
      exact ⟨hi.trans_le h.1, hi.trans_le h.2⟩

theorem isSome_shown_iff {f : MQZID} (a : EntityArgs) (g : ObjectEntity → Shown f) :
    (a.shown.map g).isSome ↔ (entityText a.mem a.pEntityData).isSome := by
  rw [Option.isSome_map, EntityArgs.shown, Option.isSome_map]

theorem isSome_shown_bind_iff {f : MQZID} (a : EntityArgs) (x : BitVec 32)
    (g : ObjectEntity → Shown f) :
    (a.shown >>= fun e ↦ authBuffer x >>= fun _ ↦ some (g e)).isSome ↔
      (entityText a.mem a.pEntityData).isSome ∧ (authBuffer x).isSome := by
  rw [isSome_bind_bind_some _ _ fun e _ ↦ g e, EntityArgs.shown, Option.isSome_map]

/-- What the memory has to do with `OASetAuth` and `OACheckAuth`. -/
theorem isSome_logAuth_iff (s : ServiceState) (m : Mem) (entity : Option MQZED) (x : BitVec 32) :
    (logAuth s m entity x).isSome ↔
      (s.logOpen = true → (entityText m entity).isSome ∧ (authBuffer x).isSome) := by
  rw [logAuth, isSome_entityText_iff]
  split_ifs with hopen
  · rw [isSome_bind_bind_some, imp_iff_right hopen]
  · exact iff_of_true rfl fun h ↦ absurd h hopen

theorem isSome_shown_enum_iff (a : EnumArgs) :
    (a.shown.map Shown.authenumfmt).isSome ↔
      (entityOrNone a.mem a.pFilter.entityType a.pFilter.entityDataPtr).isSome ∧
        (authBuffer a.pFilter.authority).isSome := by
  rw [Option.isSome_map, EnumArgs.shown, isSome_bind_bind_some, isSome_entityOrNoneText_iff]

theorem isSome_logEnum_iff (s : ServiceState) (m : Mem) (filter : MQZAD) :
    (logEnum s m filter).isSome ↔ (s.logOpen = true →
      (entityOrNone m filter.entityType filter.entityDataPtr).isSome ∧
        (authBuffer filter.authority).isSome) := by
  rw [logEnum]
  split_ifs with hopen
  · rw [isSome_bind_bind_some, imp_iff_right hopen]
  · exact iff_of_true rfl fun h ↦ absurd h hopen

theorem isSome_shown_privileged_iff (m : Mem) (entity : Option MQZED) (entityType : MQLONG) :
    ((entityOrNoneText m entityType entity).map (Shown.checkprivfmt (OAETStr entityType))).isSome ↔
      (entityOrNone m entityType entity).isSome := by
  rw [Option.isSome_map, isSome_entityOrNoneText_iff]

theorem isSome_logPrivileged_iff (s : ServiceState) (m : Mem) (entity : Option MQZED)
    (entityType : MQLONG) : (logPrivileged s m entity entityType).isSome ↔
      (s.logOpen = true → (entityOrNone m entityType entity).isSome) := by
  rw [logPrivileged]
  split_ifs with hopen
  · rw [imp_iff_right hopen]
  · exact iff_of_true rfl fun h ↦ absurd h hopen

/-- **A call can be logged** exactly if it is defined for the memory, and the arrays of `OAInquire`
are long enough. -/
theorem isSome_run_iff (version : MQLONG) (s : ServiceState) (c : Call) :
    (c.run s.logOpen).isSome ↔
      (Oamlog.call version s c.mem c.request).isSome ∧ c.Covered := by
  rw [isSome_run]
  cases c with
  | OAGetAuth a =>
    rw [show (Call.OAGetAuth a).shown.isSome ↔ _ from isSome_shown_iff a Shown.getauthfmt]
    simp [Call.testsFp, Call.later, Call.Covered, Call.mem, Call.request, Oamlog.call, OAGetAuth,
      isSome_entityText_iff, isSome_bind_some]
  | OAGetExplicitAuth a =>
    rw [show (Call.OAGetExplicitAuth a).shown.isSome ↔ _ from isSome_shown_iff a Shown.explauthfmt]
    simp [Call.testsFp, Call.later, Call.Covered, Call.mem, Call.request, Oamlog.call,
      OAGetExplicitAuth, isSome_entityText_iff, isSome_bind_some]
  -- the one call whose later lines read arrays, which can be too short
  | OAInquire selectorCount pSelectors pIntAttrs =>
    rw [isSome_later_OAInquire]
    exact ⟨fun h ↦ ⟨rfl, (h nofun).2⟩, fun h _ ↦ ⟨rfl, h.2⟩⟩
  | OASetAuth a authority =>
    rw [show (Call.OASetAuth a authority).shown.isSome ↔ _ from
      isSome_shown_bind_iff a authority fun e ↦ .setauthfmt e authority]
    simp [Call.testsFp, Call.later, Call.Covered, Call.mem, Call.request, Oamlog.call, OASetAuth,
      isSome_logAuth_iff, isSome_bind_some]
  | OACheckAuth a authority =>
    rw [show (Call.OACheckAuth a authority).shown.isSome ↔ _ from
      isSome_shown_bind_iff a authority fun e ↦ .checkauthfmt e authority]
    simp [Call.testsFp, Call.later, Call.Covered, Call.mem, Call.request, Oamlog.call, OACheckAuth,
      isSome_logAuth_iff, isSome_bind_some]
  | OAEnumAuth a =>
    rw [show (Call.OAEnumAuth a).shown.isSome ↔ _ from isSome_shown_enum_iff a]
    simp [Call.testsFp, Call.later, Call.Covered, Call.mem, Call.request, Oamlog.call, OAEnumAuth,
      isSome_logEnum_iff, isSome_bind_some]
  | OACheckPrivileged mem pEntityData entityType =>
    rw [show (Call.OACheckPrivileged mem pEntityData entityType).shown.isSome ↔ _ from
      isSome_shown_privileged_iff mem pEntityData entityType]
    simp [Call.testsFp, Call.later, Call.Covered, Call.mem, Call.request, Oamlog.call,
      OACheckPrivileged, isSome_logPrivileged_iff, isSome_bind_some]
  -- the others read nothing that can be missing
  | _ => exact ⟨fun _ ↦ ⟨rfl, trivial⟩, fun _ _ ↦ ⟨rfl, rfl⟩⟩

end MqExits.Oam.Oamlog.Log
