import MqExits.Mqi.Types
import MqExits.Oam.AuthStr
import MqExits.Runs.Machine
import MqExits.Runs.ObjectTree

/-!
# The JSON objects of `oamok`

`OACheckAuth` and `OAAuthUser` build the record of a request as a tree of json-c objects, which they
write to the log and release. An object that is added to another belongs to that one from then on,
and `json_object_put` releases an object with all that belongs to it (`ObjectTree`).

Both make the root of the tree before they look at the request, and both return at once for a
request that has failed already. The root is not released then: **a call releases what it has made
exactly if the request has not failed before** (`balanced_iff`).

## What the proof follows

A call makes objects and adds each to one that is there, so at any time the objects made since the
call began are the trees of some roots (`Grown`). Making an object is one root more, and adding one
is one root less. At the release there is a single root, whose tree is all that was made, so that
`json_object_put` releases each of them once (`Forest.releaseAll`).

The store may hold anything else before the call: it is as it was afterwards, as nothing of it is in
the trees.
-/

namespace MqExits.Oam

open CText ObjectTree

/-! ### json-c -/

/-- The value of an object that has no other objects. -/
inductive JsonScalar
  | string (text : Bytes)
  | int (n : ℤ)

/-- The value of an object. -/
inductive JsonValue
  | scalar (x : JsonScalar)
  | array (items : List ℕ)
  | object (members : List (Bytes × ℕ))

/-- The objects whose references an object has. -/
def JsonValue.children : JsonValue → List ℕ
  | .scalar _ => []
  | .array items => items
  | .object members => members.map Prod.snd

abbrev JsonStore := Store JsonValue

/-- `json_object_array_add`, which takes over the reference. -/
def jsonObjectArrayAdd (s : JsonStore) (obj val : ℕ) : Option JsonStore :=
  match s.cells obj with
  | some (.array items) => some (s.replace obj (.array (items ++ [val])))
  | _ => none

/-- `json_object_object_add`, which takes over the reference. There is no result for a key that the
object has. -/
def jsonObjectObjectAdd (s : JsonStore) (obj : ℕ) (key : Bytes) (val : ℕ) : Option JsonStore :=
  match s.cells obj with
  | some (.object members) =>
    if key ∈ members.map Prod.fst then none
    else some (s.replace obj (.object (members ++ [(key, val)])))
  | _ => none

/-- `json_object_put`, with the objects that it releases. -/
def jsonObjectPut (s : JsonStore) (obj : ℕ) : Option (JsonStore × List ℕ) :=
  s.release JsonValue.children obj

/-! ### The functions -/

namespace Oamok.Json

/-- `json_object_object_add` of a new object. -/
def addNew (s : JsonStore) (obj : ℕ) (key : Bytes) (x : JsonScalar) : Option JsonStore :=
  let (s, val) := s.alloc (.scalar x)
  jsonObjectObjectAdd s obj key val

/-- A line of `addNew` for each of the members, one after the other. -/
def addMembers (s : JsonStore) (obj : ℕ) (members : List (Bytes × JsonScalar)) : Option JsonStore :=
  members.foldlM (fun s m ↦ addNew s obj m.1 m.2) s

/-- `jcat`. -/
def jcat (s : JsonStore) (j : ℕ) (text : Bytes) : Option JsonStore :=
  let (s, val) := s.alloc (.scalar (.string text))
  jsonObjectArrayAdd s j val

/-- `OAAuthStr`: a call of `jcat` for each name. -/
def OAAuthStr (s : JsonStore) (j : ℕ) (x : BitVec 32) : Option JsonStore :=
  (Oamok.OAAuthStr [] x).foldlM (fun s name ↦ jcat s j name) s

/-- The name of an entity, and its domain on Windows. -/
structure Entity where
  name : Bytes
  domain : Option Bytes

/-- `OAEntityStr`. -/
def OAEntityStr (s : JsonStore) (j : ℕ) (z : Entity) : Option JsonStore :=
  match z.domain with
  | none => addMembers s j [(lit "identity", .string z.name)]
  | some domain => addMembers s j [(lit "identity", .string z.name),
      (lit "domain", .string domain)]

/-- The request of a call of `OACheckAuth`, with the texts that go into its record. -/
structure CheckAuth where
  compCode : MQCC
  reason : MQRC
  now : ℤ
  timeString : Bytes
  queueManager : Bytes
  objectType : Bytes
  objectName : Bytes
  entity : Entity
  authority : BitVec 32
  correlator : Bytes

/-- The request of a call of `OAAuthUser`, with the texts that go into its record. -/
structure AuthUser where
  compCode : MQCC
  reason : MQRC
  now : ℤ
  timeString : Bytes
  queueManager : Bytes
  userIdentifier : Bytes
  applName : Bytes
  environment : Bytes
  callerType : Bytes
  authType : Bytes
  userId : Bytes
  authenticationType : Bytes
  bindType : Bytes
  processId : ℤ
  threadId : ℤ
  correlator : Bytes

/-- `OACheckAuth`, with the objects that it releases. -/
def OACheckAuth (s : JsonStore) (r : CheckAuth) : Option (JsonStore × List ℕ) := do
  let (s, jRoot) := s.alloc (.object [])
  if r.compCode = .FAILED ∨ r.reason ≠ MQRC_NONE then return (s, [])
  let s ← addMembers s jRoot [
    (lit "action", .string (lit "authorise")),
    (lit "timeEpoch", .int r.now),
    (lit "timeString", .string r.timeString),
    (lit "queueManager", .string r.queueManager),
    (lit "objectType", .string r.objectType),
    (lit "objectName", .string r.objectName)]
  let s ← OAEntityStr s jRoot r.entity
  let s ← addMembers s jRoot [
    (lit "authorityHex", .string (lit "0x" ++ Oamlog.hex8 r.authority))]
  let (s, jArr) := s.alloc (.array [])
  let s ← OAAuthStr s jArr r.authority
  let s ← jsonObjectObjectAdd s jRoot (lit "authorityString") jArr
  let s ← addMembers s jRoot [(lit "connCorrel", .string r.correlator)]
  jsonObjectPut s jRoot

/-- `OAAuthUser`, with the objects that it releases. -/
def OAAuthUser (s : JsonStore) (r : AuthUser) : Option (JsonStore × List ℕ) := do
  let (s, jRoot) := s.alloc (.object [])
  if r.compCode = .FAILED ∨ r.reason ≠ MQRC_NONE then return (s, [])
  let s ← addMembers s jRoot [
    (lit "action", .string (lit "authenticate")),
    (lit "timeEpoch", .int r.now),
    (lit "timeString", .string r.timeString),
    (lit "queueManager", .string r.queueManager),
    (lit "identity", .string r.userIdentifier),
    (lit "applicationName", .string r.applName),
    (lit "environment", .string r.environment),
    (lit "caller", .string r.callerType),
    (lit "cspAuthenticationType", .string r.authType),
    (lit "cspUserId", .string r.userId),
    (lit "authenticationContext", .string r.authenticationType),
    (lit "bindType", .string r.bindType),
    (lit "applicationPid", .int r.processId),
    (lit "applicationTid", .int r.threadId),
    (lit "connCorrel", .string r.correlator)]
  jsonObjectPut s jRoot

/-- The calls of the queue manager. -/
inductive Call
  | checkAuth (r : CheckAuth)
  | authUser (r : AuthUser)

/-- The request has failed before the call. -/
def Call.Failed : Call → Prop
  | .checkAuth r => r.compCode = .FAILED ∨ r.reason ≠ MQRC_NONE
  | .authUser r => r.compCode = .FAILED ∨ r.reason ≠ MQRC_NONE

/-- The objects of the process, one call after the other. The output is what a call releases. -/
def jsonObjects : Machine JsonStore Call (List ℕ) where
  step s
    | .checkAuth r => OACheckAuth s r
    | .authUser r => OAAuthUser s r

/-! ### A record that is being built -/

/-- The objects made since `s₀` are the tree of `obj`, an object with these keys. -/
structure Record (s₀ s : JsonStore) (obj : ℕ) (keys : List Bytes) : Prop where
  grown : Grown JsonValue.children s₀ s [obj]
  members : ∃ members, s.cells obj = some (.object members) ∧ members.map Prod.fst = keys

theorem record_alloc (s : JsonStore) : Record s (s.alloc (.object [])).1 s.top [] where
  grown := (Grown.refl s).alloc rfl
  members := ⟨[], s.cells_alloc_self _, rfl⟩

variable {s₀ s : JsonStore} {obj : ℕ} {keys : List Bytes}

/-- A root becomes a member. -/
theorem jsonObjectObjectAdd_ok {val : ℕ} {key : Bytes}
    (hgrown : Grown JsonValue.children s₀ s [val, obj])
    (hmembers : ∃ members, s.cells obj = some (.object members) ∧ members.map Prod.fst = keys)
    (hnodup : (keys ++ [key]).Nodup) :
    ∃ s', jsonObjectObjectAdd s obj key val = some s' ∧ Record s₀ s' obj (keys ++ [key]) := by
  obtain ⟨members, hobj, rfl⟩ := hmembers
  refine ⟨s.replace obj (.object (members ++ [(key, val)])), ?_, ?_, _,
    Store.cells_replace_self hobj _, List.map_append⟩
  · rw [jsonObjectObjectAdd, hobj]
    exact if_neg fun hkey ↦ List.disjoint_of_nodup_append hnodup hkey List.mem_cons_self
  · exact hgrown.adopt hobj List.map_append

theorem Record.addNew (h : Record s₀ s obj keys) {key : Bytes}
    (hnodup : (keys ++ [key]).Nodup) (x : JsonScalar) :
    ∃ s', addNew s obj key x = some s' ∧ Record s₀ s' obj (keys ++ [key]) := by
  obtain ⟨members, hobj, hkeys⟩ := h.members
  exact jsonObjectObjectAdd_ok (h.grown.alloc rfl)
    ⟨members, (Store.cells_alloc_of_lt (Store.lt_top hobj) _).trans hobj, hkeys⟩ hnodup

/-- **A list of members** is added, if no key comes twice. -/
theorem Record.addMembers (h : Record s₀ s obj keys) (members : List (Bytes × JsonScalar))
    {new : List Bytes} (hnew : members.map Prod.fst = new) (hnodup : (keys ++ new).Nodup) :
    ∃ s', addMembers s obj members = some s' ∧ Record s₀ s' obj (keys ++ new) := by
  subst hnew
  induction members generalizing s keys with
  | nil => exact ⟨s, rfl, by rwa [List.map_nil, List.append_nil]⟩
  | cons m members ih =>
    have hsplit : keys ++ (m :: members).map Prod.fst =
        keys ++ [m.1] ++ members.map Prod.fst := by
      rw [List.append_assoc]
      rfl
    rw [hsplit] at hnodup ⊢
    obtain ⟨s₁, hs₁, h₁⟩ := h.addNew hnodup.of_append_left m.2
    obtain ⟨s₂, hs₂, h₂⟩ := ih h₁ hnodup
    refine ⟨s₂, ?_, h₂⟩
    rw [Json.addMembers, List.foldlM_cons, hs₁]
    exact hs₂

/-- **The names of the authorities** go into the array. -/
theorem OAAuthStr_ok {j : ℕ} {roots items : List ℕ}
    (h : Grown JsonValue.children s₀ s (j :: roots)) (hj : s.cells j = some (.array items))
    (x : BitVec 32) :
    ∃ s', OAAuthStr s j x = some s' ∧ Grown JsonValue.children s₀ s' (j :: roots) ∧
      ∀ i < s.top, i ≠ j → s'.cells i = s.cells i := by
  rw [OAAuthStr]
  induction Oamok.OAAuthStr [] x generalizing s items with
  | nil => exact ⟨s, rfl, h, fun i _ _ ↦ rfl⟩
  | cons name names ih =>
    have hj' : (s.alloc (.scalar (.string name))).1.cells j = some (.array items) := by
      rw [Store.cells_alloc_of_lt (Store.lt_top hj), hj]
    obtain ⟨s', hs', hgrown, hframe⟩ := ih ((h.alloc rfl).adopt hj' (b := .array _) rfl)
      (Store.cells_replace_self hj' _)
    refine ⟨s', ?_, hgrown, fun i hi hne ↦ ?_⟩
    · rw [List.foldlM_cons, jcat]
      simp only [jsonObjectArrayAdd, Store.alloc_snd, hj', Option.bind_eq_bind, Option.bind_some]
      exact hs'
    · rw [hframe i (Nat.lt_succ_of_lt hi) hne, Store.cells_replace_of_ne hne,
        Store.cells_alloc_of_lt hi]

/-- The array of the names becomes a member. -/
theorem Record.authorityString (h : Record s₀ s obj keys) {key : Bytes}
    (hnodup : (keys ++ [key]).Nodup) (x : BitVec 32) :
    ∃ s' s'', OAAuthStr (s.alloc (.array [])).1 s.top x = some s' ∧
      jsonObjectObjectAdd s' obj key s.top = some s'' ∧ Record s₀ s'' obj (keys ++ [key]) := by
  obtain ⟨members, hobj, hkeys⟩ := h.members
  have hlt : obj < s.top := Store.lt_top hobj
  obtain ⟨s', hs', hgrown, hframe⟩ :=
    OAAuthStr_ok (h.grown.alloc (a := .array []) rfl) (s.cells_alloc_self _) x
  have hobj' : s'.cells obj = some (.object members) := by
    rw [hframe obj (Nat.lt_succ_of_lt hlt) hlt.ne, Store.cells_alloc_of_lt hlt, hobj]
  obtain ⟨s'', hs'', hrecord⟩ := jsonObjectObjectAdd_ok hgrown ⟨members, hobj', hkeys⟩ hnodup
  exact ⟨s', s'', hs', hs'', hrecord⟩

/-! ### A call -/

/-- An entity is one member, or two. -/
theorem Record.entity (h : Record s₀ s obj keys) (z : Entity)
    (hnodup : (keys ++ [lit "identity", lit "domain"]).Nodup) :
    ∃ s' new, OAEntityStr s obj z = some s' ∧ Record s₀ s' obj (keys ++ new) ∧
      new.Sublist [lit "identity", lit "domain"] := by
  rcases z with ⟨name, - | domain⟩
  · have hsub : [lit "identity"].Sublist [lit "identity", lit "domain"] := by simp
    obtain ⟨s', hs', hrecord⟩ := h.addMembers [(lit "identity", .string name)] rfl
      (hnodup.sublist ((List.Sublist.refl keys).append hsub))
    exact ⟨s', _, hs', hrecord, hsub⟩
  · obtain ⟨s', hs', hrecord⟩ :=
      h.addMembers [(lit "identity", .string name), (lit "domain", .string domain)] rfl hnodup
    exact ⟨s', _, hs', hrecord, .refl _⟩

/-- **A request that has failed** leaves the root of its record behind. -/
theorem OACheckAuth_failed {r : CheckAuth} (h : (Call.checkAuth r).Failed) (s : JsonStore) :
    OACheckAuth s r = some ((s.alloc (.object [])).1, []) :=
  if_pos h

theorem OAAuthUser_failed {r : AuthUser} (h : (Call.authUser r).Failed) (s : JsonStore) :
    OAAuthUser s r = some ((s.alloc (.object [])).1, []) :=
  if_pos h

/-- **Another request** leaves nothing behind. -/
theorem OACheckAuth_ok {r : CheckAuth} (h : ¬ (Call.checkAuth r).Failed) (s : JsonStore) :
    ∃ s' released, OACheckAuth s r = some (s', released) ∧ Cleared s s' released := by
  have hall : ([] ++ [lit "action", lit "timeEpoch", lit "timeString", lit "queueManager",
      lit "objectType", lit "objectName"] ++ [lit "identity", lit "domain"] ++
      ([lit "authorityHex"] ++ [lit "authorityString"] ++ [lit "connCorrel"])).Nodup := by
    decide +kernel
  -- the members in the order of the source; those of the entity depend on its type
  obtain ⟨s₁, hs₁, h₁⟩ := (record_alloc s).addMembers [
    (lit "action", .string (lit "authorise")),
    (lit "timeEpoch", .int r.now),
    (lit "timeString", .string r.timeString),
    (lit "queueManager", .string r.queueManager),
    (lit "objectType", .string r.objectType),
    (lit "objectName", .string r.objectName)] rfl hall.of_append_left.of_append_left
  obtain ⟨s₂, new, hs₂, h₂, hsub⟩ := h₁.entity r.entity hall.of_append_left
  replace hall := hall.sublist (((List.Sublist.refl _).append hsub).append (.refl _))
  rw [← List.append_assoc, ← List.append_assoc] at hall
  obtain ⟨s₃, hs₃, h₃⟩ := h₂.addMembers
    [(lit "authorityHex", .string (lit "0x" ++ Oamlog.hex8 r.authority))] rfl
    hall.of_append_left.of_append_left
  obtain ⟨s₄, s₅, hs₄, hs₅, h₅⟩ := h₃.authorityString hall.of_append_left r.authority
  obtain ⟨s₆, hs₆, h₆⟩ := h₅.addMembers [(lit "connCorrel", .string r.correlator)] rfl hall
  obtain ⟨s', released, hs', hcleared⟩ := h₆.grown.release
  refine ⟨s', released, ?_, hcleared⟩
  have hgoes : ¬ (r.compCode = .FAILED ∨ r.reason ≠ MQRC_NONE) := h
  simp only [OACheckAuth, if_neg hgoes, Store.alloc_snd, hs₁, hs₂, hs₃, hs₄, hs₅, hs₆,
    Option.bind_eq_bind, Option.bind_some]
  exact hs'

theorem OAAuthUser_ok {r : AuthUser} (h : ¬ (Call.authUser r).Failed) (s : JsonStore) :
    ∃ s' released, OAAuthUser s r = some (s', released) ∧ Cleared s s' released := by
  have hall : ([] ++ [lit "action", lit "timeEpoch", lit "timeString", lit "queueManager",
      lit "identity", lit "applicationName", lit "environment", lit "caller",
      lit "cspAuthenticationType", lit "cspUserId", lit "authenticationContext", lit "bindType",
      lit "applicationPid", lit "applicationTid", lit "connCorrel"]).Nodup := by
    decide +kernel
  -- the members in the order of the source
  obtain ⟨s₁, hs₁, h₁⟩ := (record_alloc s).addMembers [
    (lit "action", .string (lit "authenticate")),
    (lit "timeEpoch", .int r.now),
    (lit "timeString", .string r.timeString),
    (lit "queueManager", .string r.queueManager),
    (lit "identity", .string r.userIdentifier),
    (lit "applicationName", .string r.applName),
    (lit "environment", .string r.environment),
    (lit "caller", .string r.callerType),
    (lit "cspAuthenticationType", .string r.authType),
    (lit "cspUserId", .string r.userId),
    (lit "authenticationContext", .string r.authenticationType),
    (lit "bindType", .string r.bindType),
    (lit "applicationPid", .int r.processId),
    (lit "applicationTid", .int r.threadId),
    (lit "connCorrel", .string r.correlator)] rfl hall
  obtain ⟨s', released, hs', hcleared⟩ := h₁.grown.release
  refine ⟨s', released, ?_, hcleared⟩
  have hgoes : ¬ (r.compCode = .FAILED ∨ r.reason ≠ MQRC_NONE) := h
  simp only [OAAuthUser, if_neg hgoes, Store.alloc_snd, hs₁, Option.bind_eq_bind, Option.bind_some]
  exact hs'

/-! ### The property -/

/-- As many objects are there as before, and each that was made was released once. -/
structure Balanced (e : Machine.Event JsonStore Call (List ℕ)) : Prop where
  live : e.post.live = e.pre.live
  once : ∀ obj, e.output.count obj = if e.pre.top ≤ obj ∧ obj < e.post.top then 1 else 0

theorem balanced_of_cleared {call : Call} {s' : JsonStore} {released : List ℕ}
    (h : Cleared s s' released) : Balanced ⟨s, call, released, s'⟩ :=
  ⟨h.live, h.count⟩

/-- **One call**. -/
theorem step_balanced_iff (s : JsonStore) (call : Call) :
    ∃ s' released, jsonObjects.step s call = some (s', released) ∧
      (Balanced ⟨s, call, released, s'⟩ ↔ ¬ call.Failed) := by
  by_cases h : call.Failed
  · refine ⟨(s.alloc (.object [])).1, [], ?_, iff_of_false (fun hbal ↦ ?_) (not_not.2 h)⟩
    · cases call with
      | checkAuth r => exact OACheckAuth_failed h s
      | authUser r => exact OAAuthUser_failed h s
    · -- the root is one object more
      have hlive : (s.alloc (.object [])).1.live = s.live := hbal.live
      rw [Store.live_alloc] at hlive
      exact Nat.succ_ne_self _ hlive
  · cases call with
    | checkAuth r =>
      obtain ⟨s', released, hs', hcleared⟩ := OACheckAuth_ok h s
      exact ⟨s', released, hs', iff_of_true (balanced_of_cleared hcleared) h⟩
    | authUser r =>
      obtain ⟨s', released, hs', hcleared⟩ := OAAuthUser_ok h s
      exact ⟨s', released, hs', iff_of_true (balanced_of_cleared hcleared) h⟩

/-- **When the objects of a run are balanced**: exactly if no request has failed before its call. -/
theorem balanced_iff (s₀ : JsonStore) (calls : List Call) :
    (∃ tr s, jsonObjects.Run s₀ tr s ∧ tr.map Machine.Event.input = calls) ∧
      ∀ tr s, jsonObjects.Run s₀ tr s → tr.map Machine.Event.input = calls →
        ((∀ e ∈ tr, Balanced e) ↔ ∀ call ∈ calls, ¬ call.Failed) := by
  constructor
  · have hruns : ∃ tr s, jsonObjects.Run s₀ tr s ∧ tr.map Machine.Event.input = calls ∧ True :=
      Machine.exists_run (I := fun _ _ ↦ True) (C := fun _ _ ↦ True) trivial
        (fun _ s call _ _ ↦ by
          obtain ⟨s', released, hs', -⟩ := step_balanced_iff s call
          exact ⟨s', released, hs', trivial⟩) fun _ _ _ _ ↦ trivial
    obtain ⟨tr, s, hrun, htr, -⟩ := hruns
    exact ⟨tr, s, hrun, htr⟩
  · rintro tr s hrun rfl
    have hstep : ∀ e ∈ tr, (Balanced e ↔ ¬ e.input.Failed) :=
      Machine.forall_split_iff_forall_mem.1 <|
        hrun.forall_split (I := fun _ _ ↦ True) (P := fun _ e ↦ Balanced e ↔ ¬ e.input.Failed)
          trivial (fun _ _ _ _ _ _ _ ↦ trivial) fun _ s call s' released _ hs ↦ by
            obtain ⟨s'', released', hs'', hiff⟩ := step_balanced_iff s call
            obtain ⟨rfl, rfl⟩ := Prod.mk.inj (Option.some.inj (hs''.symm.trans hs))
            exact hiff
    rw [List.forall_mem_map]
    exact forall₂_congr hstep

/-- A request that has failed before. -/
def CheckAuth.failed : CheckAuth where
  compCode := .FAILED
  reason := MQRC_NOT_AUTHORIZED
  now := 0
  timeString := []
  queueManager := lit "QM1"
  objectType := lit "Q"
  objectName := lit "A"
  entity := ⟨lit "app", none⟩
  authority := MQZAO_OUTPUT
  correlator := lit "1.1"

/-- Its root is never released. -/
theorem not_balanced_failed :
    ∃ tr s, jsonObjects.Run Store.empty tr s ∧
      tr.map Machine.Event.input = [.checkAuth .failed] ∧ ¬ ∀ e ∈ tr, Balanced e := by
  obtain ⟨s', released, hs', hiff⟩ := step_balanced_iff Store.empty (.checkAuth .failed)
  refine ⟨[⟨Store.empty, .checkAuth .failed, released, s'⟩], s', .snoc .nil hs', rfl, fun h ↦ ?_⟩
  exact hiff.1 (h _ List.mem_cons_self) (Or.inl rfl)

end Oamok.Json

end MqExits.Oam
