import MqExits.Mqi.Types
import MqExits.Runs.Outcome
import Mathlib.Data.List.AList

/-!
# The state of the tracing module

`mqioteldl.so` keeps two maps between calls: `objectHandleMap`, from an object key to a message
handle, and `objectOptionsMap`, from an object key to a `hobjOptions` structure on the heap. A call
of the exit reads and writes these, the heap, and the application's own option structures.

A pointer to an option structure is either the application's or points into a `hobjOptions`
(`PMQGMO`, `PMQPMO`), so the swap and the restore the exit performs are visible as values. Heap
addresses are never reused, a freed structure is an absent one, and reading through a null pointer
or a freed structure is a `Fault`.

## What a call is given

Whatever decides what a call does and is not its argument is in an `Env`: the replies of the queue
manager, the current span, and the bytes of memory that nothing has written. The last are parameters
because the source reads some of them: a structure that `mqotMalloc` returns has fields which no one
sets, `mho` is a variable that is never assigned, and the text of a trace state is read through a
pointer that outlives its string. A property that holds for every `Env` does not depend on them.

## The maps

* A stored message handle is a valid one (`MsgHandle` carries that), as `getMsgHandle` enters a
  handle only after MQCRTMH has returned it.
* The value of an option map entry is a pointer, and may be null: `operator[]` on a missing key
  enters a null pointer. `optionsAt` is what reading through that pointer comes to, and `Usable`
  says of a key that it is either missing or can be read through.
* `saveOptions` is what `saveGmo` and `savePmo` have in common, and `saveOptions_spec` is all that
  is said of it later: no proof about a get or a put looks into the maps again.
-/

namespace MqExits.Otel

open CText Outcome

/-- The address of a `hobjOptions` structure. -/
abbrev ObjAddr := ℕ

/-- A pointer to an MQGMO: the application's, or the `myGmo` of a `hobjOptions`. -/
inductive PMQGMO
  | null
  | app (a : AppAddr)
  | myGmo (o : ObjAddr)
  deriving DecidableEq, Repr

/-- A pointer to an MQPMO: the application's, or the `myPmo` of a `hobjOptions`. -/
inductive PMQPMO
  | null
  | app (a : AppAddr)
  | myPmo (o : ObjAddr)
  deriving DecidableEq, Repr

/-- `struct tagHobjOptions`. -/
structure HobjOptions where
  /-- The PROPCTL attribute of the queue, or -1 if unknown. -/
  propCtl : MQLONG
  gmo : PMQGMO
  pmo : PMQPMO
  myPmo : MQPMO
  myGmo : MQGMO
  deriving DecidableEq

/-- The module's maps, its heap, and the application's structures. -/
structure State where
  objectHandleMap : AList fun _ : Bytes ↦ MsgHandle
  /-- A value is a pointer, which `operator[]` on a missing key makes null. -/
  objectOptionsMap : AList fun _ : Bytes ↦ Option ObjAddr
  heap : ObjAddr → Option HobjOptions
  nextObj : ObjAddr
  appGmo : AppAddr → MQGMO
  appPmo : AppAddr → MQPMO

/-- The module as it is loaded: no entry in either map, nothing allocated. -/
def State.init (appGmo : AppAddr → MQGMO) (appPmo : AppAddr → MQPMO) : State where
  objectHandleMap := ∅
  objectOptionsMap := ∅
  heap _ := none
  nextObj := 0
  appGmo := appGmo
  appPmo := appPmo

/-- The state of an application that supplies no handle. -/
def State.plain : State :=
  State.init (fun _ ↦ MQGMO_DEFAULT) fun _ ↦ MQPMO_DEFAULT

/-- The state of an application that gets with handle 7. -/
def State.withHandle : State :=
  State.init (fun _ ↦ { version := MQGMO_VERSION_4, msgHandle := 7 }) fun _ ↦ MQPMO_DEFAULT

/-! ### Spans -/

/-- The context of a span. `traceState` is the text of its header, or `none` for no state. -/
structure SpanContext where
  traceId : Bytes
  traceId_length : traceId.length = 16
  spanId : Bytes
  spanId_length : spanId.length = 8
  traceFlags : UInt8
  traceState : Option Bytes
  deriving DecidableEq

/-- `SpanContext::IsValid`: neither id is all zeros. -/
def SpanContext.isValid (c : SpanContext) : Bool :=
  c.traceId ≠ List.replicate 16 0 ∧ c.spanId ≠ List.replicate 8 0

/-- The context a process without a current span sees. -/
def SpanContext.invalid : SpanContext where
  traceId := List.replicate 16 0
  traceId_length := rfl
  spanId := List.replicate 8 0
  spanId_length := rfl
  traceFlags := 0
  traceState := none

/-- A valid context without a trace state. -/
def SpanContext.sample : SpanContext where
  traceId := List.replicate 16 1
  traceId_length := rfl
  spanId := List.replicate 8 1
  spanId_length := rfl
  traceFlags := 1
  traceState := none

/-! ### What a call sees of the world outside -/

/-- The reply to MQINQMP. -/
structure InqmpReply where
  cc : MQCC
  rc : MQRC
  value : Bytes

/-- What is outside the module at one call: the replies of the queue manager, the current span, and
the contents of memory that nothing has written. -/
structure Env where
  /-- The handle MQCRTMH returns, `none` when it fails. -/
  crtmh : MQHCONN → Option MsgHandle
  inqmp : MQHCONN → MQHMSG → Bytes → InqmpReply
  /-- The handle MQOPEN returns for inquiring the named queue, `none` when it fails. -/
  reopen : MQHCONN → Bytes → Bytes → Option MQHOBJ
  /-- The PROPCTL value MQINQ returns, `none` when it fails. -/
  inq : MQHCONN → MQHOBJ → Option MQLONG
  currentSpan : SpanContext
  /-- What a pointer from `c_str` reads as, given the text it was taken of, once the temporary
  string that held the text has been destroyed. -/
  danglingRead : Bytes → Bytes
  uninitObj : HobjOptions
  uninitHmsg : MQHMSG
  uninitTraceId : Field 16
  uninitSpanId : Field 8

/-- A queue manager that refuses every call, seen from within the span `c`. -/
def Env.refusing (c : SpanContext) : Env where
  crtmh _ := none
  inqmp _ _ _ := ⟨.FAILED, MQRC_PROPERTY_NOT_AVAILABLE, []⟩
  reopen _ _ _ := none
  inq _ _ := none
  currentSpan := c
  danglingRead t := t
  uninitObj := ⟨0, .null, .null, MQPMO_DEFAULT, MQGMO_DEFAULT⟩
  uninitHmsg := 0
  uninitTraceId := ⟨List.replicate 16 0, rfl⟩
  uninitSpanId := ⟨List.replicate 8 0, rfl⟩

/-- A queue manager whose every message handle is 5. -/
def Env.creating (c : SpanContext) : Env :=
  { Env.refusing c with crtmh := fun _ ↦ some ⟨5, by decide⟩ }

/-! ### Keys -/

/-- `objectKey`: the connection, and the object where there is one. -/
def objectKey (hc : MQHCONN) (ho : Option MQHOBJ) : Bytes :=
  match ho with
  | none => toDecimal hc ++ lit "/*"
  | some o =>
    if o = MQHO_UNUSABLE_HOBJ then toDecimal hc ++ lit "/*"
    else toDecimal hc ++ lit "/" ++ toDecimal o

@[simp] theorem objectKey_unusable (hc : MQHCONN) :
    objectKey hc (some MQHO_UNUSABLE_HOBJ) = objectKey hc none := by
  simp [objectKey]

/-! ### Message handles -/

/-- `getMsgHandle`: the stored handle of the key, or a new one; the unusable handle when MQCRTMH
fails, and then nothing is stored. -/
def getMsgHandle (env : Env) (s : State) (hc : MQHCONN) (ho : Option MQHOBJ) : MQHMSG × State :=
  match s.objectHandleMap.lookup (objectKey hc ho) with
  | some mh => (mh.val, s)
  | none =>
    match env.crtmh hc with
    | some mh =>
      (mh.val, { s with objectHandleMap := s.objectHandleMap.insert (objectKey hc ho) mh })
    | none => (MQHM_UNUSABLE_HMSG, s)

/-- `compareMsgHandle`: is this the handle stored for the key? -/
def compareMsgHandle (s : State) (hc : MQHCONN) (ho : Option MQHOBJ) (mh : MQHMSG) : Bool :=
  match s.objectHandleMap.lookup (objectKey hc ho) with
  | some mhLocal => mhLocal.val = mh
  | none => false

@[simp] theorem compareMsgHandle_unusable (s : State) (hc : MQHCONN) (mh : MQHMSG) :
    compareMsgHandle s hc (some MQHO_UNUSABLE_HOBJ) mh = compareMsgHandle s hc none mh := by
  unfold compareMsgHandle
  rw [objectKey_unusable]

theorem compareMsgHandle_iff {s : State} {hc : MQHCONN} {ho : Option MQHOBJ} {mh : MQHMSG} :
    compareMsgHandle s hc ho mh = true ↔
      ∃ mhLocal, s.objectHandleMap.lookup (objectKey hc ho) = some mhLocal ∧
        mhLocal.val = mh := by
  rw [compareMsgHandle]
  split <;> simp_all

/-- The comparison reads nothing but the handle map. -/
theorem compareMsgHandle_congr {s s' : State} (h : s.objectHandleMap = s'.objectHandleMap)
    (hc : MQHCONN) (ho : Option MQHOBJ) (mh : MQHMSG) :
    compareMsgHandle s hc ho mh = compareMsgHandle s' hc ho mh := by
  rw [compareMsgHandle, compareMsgHandle, h]

/-- A stored handle is a valid one. -/
theorem isValidHandle_of_compareMsgHandle {s : State} {hc : MQHCONN} {ho : Option MQHOBJ}
    {mh : MQHMSG} (h : compareMsgHandle s hc ho mh = true) : isValidHandle mh = true := by
  obtain ⟨mhLocal, -, rfl⟩ := compareMsgHandle_iff.1 h
  exact mhLocal.2

/-- `getMsgHandle` reads and writes nothing but the handle map. -/
theorem getMsgHandle_congr {s s' : State} (h : s'.objectHandleMap = s.objectHandleMap) (env : Env)
    (hc : MQHCONN) (ho : Option MQHOBJ) :
    getMsgHandle env s' hc ho = ((getMsgHandle env s hc ho).1,
      { s' with objectHandleMap := (getMsgHandle env s hc ho).2.objectHandleMap }) := by
  unfold getMsgHandle
  rw [h]
  rcases s.objectHandleMap.lookup (objectKey hc ho) with - | mh
  · rcases env.crtmh hc with - | mh
    · simp only [← h]
    · rfl
  · simp only [← h]

/-- **What `getMsgHandle` does**: it returns the handle that is then stored for the key, or, when
none is stored and none can be created, the unusable one. Nothing but the handle map changes, and
of that only the key's entry. -/
theorem getMsgHandle_cases (env : Env) (s : State) (hc : MQHCONN) (ho : Option MQHOBJ) :
    (∃ mh hm, getMsgHandle env s hc ho = (mh.val, { s with objectHandleMap := hm }) ∧
      hm.lookup (objectKey hc ho) = some mh ∧
      (∀ k, k ≠ objectKey hc ho → hm.lookup k = s.objectHandleMap.lookup k) ∧
      (s.objectHandleMap.lookup (objectKey hc ho) = some mh ∨
        s.objectHandleMap.lookup (objectKey hc ho) = none ∧ env.crtmh hc = some mh)) ∨
    getMsgHandle env s hc ho = (MQHM_UNUSABLE_HMSG, s) ∧
      s.objectHandleMap.lookup (objectKey hc ho) = none ∧ env.crtmh hc = none := by
  rw [getMsgHandle]
  rcases hl : s.objectHandleMap.lookup (objectKey hc ho) with - | mh
  · rcases hc' : env.crtmh hc with - | mh
    · exact Or.inr ⟨rfl, rfl, rfl⟩
    · refine Or.inl ⟨mh, _, rfl, AList.lookup_insert _, fun k hk ↦ ?_, Or.inr ⟨rfl, rfl⟩⟩
      exact AList.lookup_insert_ne hk
  · exact Or.inl ⟨mh, s.objectHandleMap, rfl, hl, fun _ _ ↦ rfl, Or.inl rfl⟩

/-! ### Option structures -/

/-- Write one `hobjOptions`. -/
def State.setObj (s : State) (o : ObjAddr) (h : HobjOptions) : State :=
  { s with heap := Function.update s.heap o (some h) }

@[simp] theorem State.setObj_heap_self (s : State) (o : ObjAddr) (h : HobjOptions) :
    (s.setObj o h).heap o = some h := by
  simp [State.setObj]

/-- `mqotMalloc(sizeof(hobjOptions))`: a structure nothing has written yet. -/
def mqotMalloc (env : Env) (s : State) : ObjAddr × State :=
  (s.nextObj, { s with
    heap := Function.update s.heap s.nextObj (some env.uninitObj)
    nextObj := s.nextObj + 1 })

/-- `mqotFree`: nothing for a null pointer. -/
def mqotFree (s : State) : Option ObjAddr → Except Fault State
  | none => .ok s
  | some o =>
    if (s.heap o).isSome then .ok { s with heap := Function.update s.heap o none }
    else .error .doubleFree

/-- Freeing changes the heap alone, and of that only the structure it is given. -/
theorem mqotFree_spec {s s' : State} {p : Option ObjAddr} (h : mqotFree s p = .ok s') :
    ∃ heap, s' = { s with heap := heap } ∧ ∀ a, p ≠ some a → heap a = s.heap a := by
  rcases p with - | o
  · exact ⟨s.heap, (Except.ok.inj h).symm, fun _ _ ↦ rfl⟩
  · rw [mqotFree] at h
    split_ifs at h
    refine ⟨_, (Except.ok.inj h).symm, fun a ha ↦ Function.update_of_ne ?_ _ _⟩
    exact fun hao ↦ ha (congrArg some hao.symm)

theorem objectOptionsMap_mqotFree {s s' : State} {p : Option ObjAddr}
    (h : mqotFree s p = .ok s') : s'.objectOptionsMap = s.objectOptionsMap := by
  obtain ⟨heap, rfl, -⟩ := mqotFree_spec h
  rfl

theorem nextObj_mqotFree {s s' : State} {p : Option ObjAddr} (h : mqotFree s p = .ok s') :
    s'.nextObj = s.nextObj := by
  obtain ⟨heap, rfl, -⟩ := mqotFree_spec h
  rfl

theorem heap_mqotFree_ne {s s' : State} {p : Option ObjAddr} (h : mqotFree s p = .ok s')
    {a : ObjAddr} (ha : p ≠ some a) : s'.heap a = s.heap a := by
  obtain ⟨heap, rfl, hsame⟩ := mqotFree_spec h
  exact hsame a ha

/-- A structure is freed exactly if it is there; a null pointer always is. -/
theorem exists_mqotFree_iff {s : State} {p : Option ObjAddr} :
    (∃ s', mqotFree s p = .ok s') ↔ ∀ o, p = some o → (s.heap o).isSome := by
  constructor
  · rintro ⟨s', h⟩ o rfl
    rw [mqotFree] at h
    split_ifs at h with hlive
    exact hlive
  · intro hlive
    rcases p with - | o
    · exact ⟨s, rfl⟩
    · exact ⟨_, if_pos (hlive o rfl)⟩

theorem heap_mqotFree_self {s s' : State} {o : ObjAddr} (h : mqotFree s (some o) = .ok s') :
    s'.heap o = none := by
  rw [mqotFree] at h
  split_ifs at h
  rw [← Except.ok.inj h]
  exact Function.update_self ..

/-- An entry that is left when one is taken away. -/
theorem lookup_erase_eq_some {α : Type} {m : AList fun _ : Bytes ↦ α} {key k : Bytes} {v : α} :
    (m.erase key).lookup k = some v ↔ k ≠ key ∧ m.lookup k = some v := by
  rcases eq_or_ne k key with rfl | hne
  · simp
  · rw [AList.lookup_erase_ne hne, and_iff_right hne]

/-- The structure the map holds for a key, read through `objectOptionsMap[key]`. On a missing key
`operator[]` inserts a null pointer, and it is that pointer which is then read through. -/
def optionsAt (s : State) (key : Bytes) : Except Fault (ObjAddr × HobjOptions) :=
  match s.objectOptionsMap.lookup key with
  | some (some o) =>
    match s.heap o with
    | some h => .ok (o, h)
    | none => .error .useAfterFree
  | some none => .error .nullDeref
  | none => .error .nullDeref

/-- The common part of `saveGmo` and `savePmo`: the key's structure, allocated when the map has
none, with one pointer stashed in it. -/
def saveOptions (env : Env) (s : State) (key : Bytes) (stash : HobjOptions → HobjOptions) :
    Except Fault (ObjAddr × State) :=
  match s.objectOptionsMap.lookup key with
  | none =>
    let (o, s₁) := mqotMalloc env s
    let s₂ := { s₁ with objectOptionsMap := s₁.objectOptionsMap.insert key (some o) }
    .ok (o, s₂.setObj o (stash env.uninitObj))
  | some _ =>
    match optionsAt s key with
    | .ok (o, h) => .ok (o, s.setObj o (stash h))
    | .error e => .error e

/-- `saveGmo`. -/
def saveGmo (env : Env) (s : State) (hc : MQHCONN) (ho : Option MQHOBJ) (gmo : PMQGMO) :
    Except Fault (ObjAddr × State) :=
  saveOptions env s (objectKey hc ho) fun h ↦ { h with gmo := gmo }

/-- `savePmo`. -/
def savePmo (env : Env) (s : State) (hc : MQHCONN) (ho : Option MQHOBJ) (pmo : PMQPMO) :
    Except Fault (ObjAddr × State) :=
  saveOptions env s (objectKey hc ho) fun h ↦ { h with pmo := pmo }

/-- `restoreGmo`. -/
def restoreGmo (s : State) (hc : MQHCONN) (ho : Option MQHOBJ) : Except Fault PMQGMO :=
  (optionsAt s (objectKey hc ho)).map fun p ↦ p.2.gmo

/-- `restorePmo`. -/
def restorePmo (s : State) (hc : MQHCONN) (ho : Option MQHOBJ) : Except Fault PMQPMO :=
  (optionsAt s (objectKey hc ho)).map fun p ↦ p.2.pmo

/-- The key's entry, if it has one, points to a live structure. -/
def State.Usable (s : State) (key : Bytes) : Prop :=
  s.objectOptionsMap.lookup key = none ∨ ∃ p, optionsAt s key = .ok p

theorem optionsAt_eq_ok {s : State} {key : Bytes} {o : ObjAddr} {h : HobjOptions} :
    optionsAt s key = .ok (o, h) ↔
      s.objectOptionsMap.lookup key = some (some o) ∧ s.heap o = some h := by
  rw [optionsAt]
  split
  · rename_i o' hl
    rw [hl]
    rcases hh : s.heap o' with - | h'
    · simp only [reduceCtorEq, Option.some.injEq, false_iff, not_and]
      rintro rfl
      simp [hh]
    · simp only [Except.ok.injEq, Prod.mk.injEq, Option.some.injEq]
      refine and_congr_right ?_
      rintro rfl
      simp [hh]
  · simp_all
  · simp_all

/-- **What `saveOptions` does**: it succeeds exactly on a usable key, and then the key's entry
holds the stashed pointer; the previous structure is kept, or a fresh one is used. Neither the
handles nor the application's structures are touched. -/
theorem saveOptions_spec (env : Env) {s : State} {key : Bytes}
    (stash : HobjOptions → HobjOptions) (h : s.Usable key) :
    ∃ o base s', saveOptions env s key stash = .ok (o, s') ∧
      optionsAt s' key = .ok (o, stash base) ∧
      (optionsAt s key = .ok (o, base) ∨
        s.objectOptionsMap.lookup key = none ∧ base = env.uninitObj) ∧
      s'.objectHandleMap = s.objectHandleMap ∧ s'.appGmo = s.appGmo ∧ s'.appPmo = s.appPmo := by
  rcases hl : s.objectOptionsMap.lookup key with - | p
  · have heq : saveOptions env s key stash = .ok (s.nextObj, State.setObj
        { (mqotMalloc env s).2 with
          objectOptionsMap := s.objectOptionsMap.insert key (some s.nextObj) }
        s.nextObj (stash env.uninitObj)) := by
      rw [saveOptions, hl]
      rfl
    refine ⟨s.nextObj, env.uninitObj, _, heq, ?_, Or.inr ⟨rfl, rfl⟩, rfl, rfl, rfl⟩
    rw [optionsAt_eq_ok]
    exact ⟨AList.lookup_insert _, State.setObj_heap_self _ _ _⟩
  · -- the structure that is there is kept, with one pointer written
    rcases h with h | ⟨⟨o, base⟩, h⟩
    · rw [hl] at h
      exact absurd h (by simp)
    · refine ⟨o, base, s.setObj o (stash base), by rw [saveOptions, hl, h], ?_,
        Or.inl h, rfl, rfl, rfl⟩
      rw [optionsAt_eq_ok] at h ⊢
      exact ⟨h.1, State.setObj_heap_self _ _ _⟩

/-- The handles play no part. -/
theorem objectHandleMap_saveOptions {env : Env} {s s' : State} {key : Bytes}
    {stash : HobjOptions → HobjOptions} {o : ObjAddr}
    (h : saveOptions env s key stash = .ok (o, s')) :
    s'.objectHandleMap = s.objectHandleMap := by
  rw [saveOptions] at h
  split at h
  · obtain ⟨-, rfl⟩ := Prod.mk.inj (Except.ok.inj h)
    rfl
  · rcases hopt : optionsAt s key with e | ⟨o', base⟩
    · rw [hopt] at h
      cases h
    · rw [hopt] at h
      obtain ⟨-, rfl⟩ := Prod.mk.inj (Except.ok.inj h)
      rfl

theorem usable_of_saveOptions {env : Env} {s : State} {key : Bytes}
    {stash : HobjOptions → HobjOptions} {r : ObjAddr × State}
    (h : saveOptions env s key stash = .ok r) : s.Usable key := by
  rcases hl : s.objectOptionsMap.lookup key with - | p
  · exact Or.inl hl
  · rw [saveOptions, hl] at h
    rcases ho : optionsAt s key with e | p
    · simp [ho] at h
    · exact Or.inr ⟨p, ho⟩

/-! ### Pointers to option structures -/

/-- Read the MQGMO a pointer points to. -/
def State.derefGmo (s : State) : PMQGMO → Except Fault MQGMO
  | .null => .error .nullDeref
  | .app a => .ok (s.appGmo a)
  | .myGmo o =>
    match s.heap o with
    | some h => .ok h.myGmo
    | none => .error .useAfterFree

/-- Update the MQGMO a pointer points to. -/
def State.modifyGmo (s : State) (p : PMQGMO) (f : MQGMO → MQGMO) : State :=
  match p with
  | .null => s
  | .app a => { s with appGmo := Function.update s.appGmo a (f (s.appGmo a)) }
  | .myGmo o => { s with
      heap := Function.update s.heap o <| (s.heap o).map fun h ↦ { h with myGmo := f h.myGmo } }

/-- Read the MQPMO a pointer points to. -/
def State.derefPmo (s : State) : PMQPMO → Except Fault MQPMO
  | .null => .error .nullDeref
  | .app a => .ok (s.appPmo a)
  | .myPmo o =>
    match s.heap o with
    | some h => .ok h.myPmo
    | none => .error .useAfterFree

/-- Update the MQPMO a pointer points to. -/
def State.modifyPmo (s : State) (p : PMQPMO) (f : MQPMO → MQPMO) : State :=
  match p with
  | .null => s
  | .app a => { s with appPmo := Function.update s.appPmo a (f (s.appPmo a)) }
  | .myPmo o => { s with
      heap := Function.update s.heap o <| (s.heap o).map fun h ↦ { h with myPmo := f h.myPmo } }

@[simp] theorem State.modifyGmo_objectHandleMap (s : State) (p : PMQGMO) (f : MQGMO → MQGMO) :
    (s.modifyGmo p f).objectHandleMap = s.objectHandleMap := by
  cases p <;> rfl

@[simp] theorem State.modifyGmo_objectOptionsMap (s : State) (p : PMQGMO) (f : MQGMO → MQGMO) :
    (s.modifyGmo p f).objectOptionsMap = s.objectOptionsMap := by
  cases p <;> rfl

@[simp] theorem State.modifyPmo_objectHandleMap (s : State) (p : PMQPMO) (f : MQPMO → MQPMO) :
    (s.modifyPmo p f).objectHandleMap = s.objectHandleMap := by
  cases p <;> rfl

@[simp] theorem State.modifyPmo_objectOptionsMap (s : State) (p : PMQPMO) (f : MQPMO → MQPMO) :
    (s.modifyPmo p f).objectOptionsMap = s.objectOptionsMap := by
  cases p <;> rfl

@[simp] theorem State.modifyGmo_myGmo_appGmo (s : State) (o : ObjAddr) (f : MQGMO → MQGMO) :
    (s.modifyGmo (.myGmo o) f).appGmo = s.appGmo := rfl

@[simp] theorem State.modifyPmo_myPmo_appPmo (s : State) (o : ObjAddr) (f : MQPMO → MQPMO) :
    (s.modifyPmo (.myPmo o) f).appPmo = s.appPmo := rfl

theorem State.modifyGmo_myGmo_heap (s : State) (o : ObjAddr) (f : MQGMO → MQGMO) (a : ObjAddr) :
    (s.modifyGmo (.myGmo o) f).heap a =
      if a = o then (s.heap a).map fun h ↦ { h with myGmo := f h.myGmo } else s.heap a := by
  split_ifs with h
  · rw [h]
    exact Function.update_self ..
  · exact Function.update_of_ne h _ _

theorem State.modifyPmo_myPmo_heap (s : State) (o : ObjAddr) (f : MQPMO → MQPMO) (a : ObjAddr) :
    (s.modifyPmo (.myPmo o) f).heap a =
      if a = o then (s.heap a).map fun h ↦ { h with myPmo := f h.myPmo } else s.heap a := by
  split_ifs with h
  · rw [h]
    exact Function.update_self ..
  · exact Function.update_of_ne h _ _

/-- Writing through a pointer into a key's structure. -/
theorem optionsAt_modifyGmo {s : State} {key : Bytes} {o : ObjAddr} {h : HobjOptions}
    (f : MQGMO → MQGMO) (hopt : optionsAt s key = .ok (o, h)) :
    optionsAt (s.modifyGmo (.myGmo o) f) key = .ok (o, { h with myGmo := f h.myGmo }) := by
  rw [optionsAt_eq_ok] at hopt ⊢
  exact ⟨hopt.1, by simp [State.modifyGmo, hopt.2]⟩

theorem optionsAt_modifyPmo {s : State} {key : Bytes} {o : ObjAddr} {h : HobjOptions}
    (f : MQPMO → MQPMO) (hopt : optionsAt s key = .ok (o, h)) :
    optionsAt (s.modifyPmo (.myPmo o) f) key = .ok (o, { h with myPmo := f h.myPmo }) := by
  rw [optionsAt_eq_ok] at hopt ⊢
  exact ⟨hopt.1, by simp [State.modifyPmo, hopt.2]⟩

theorem derefGmo_of_optionsAt {s : State} {key : Bytes} {o : ObjAddr} {h : HobjOptions}
    (hopt : optionsAt s key = .ok (o, h)) : s.derefGmo (.myGmo o) = .ok h.myGmo := by
  rw [optionsAt_eq_ok] at hopt
  simp [State.derefGmo, hopt.2]

theorem derefPmo_of_optionsAt {s : State} {key : Bytes} {o : ObjAddr} {h : HobjOptions}
    (hopt : optionsAt s key = .ok (o, h)) : s.derefPmo (.myPmo o) = .ok h.myPmo := by
  rw [optionsAt_eq_ok] at hopt
  simp [State.derefPmo, hopt.2]

@[simp] theorem State.modifyGmo_nextObj (s : State) (p : PMQGMO) (f : MQGMO → MQGMO) :
    (s.modifyGmo p f).nextObj = s.nextObj := by
  cases p <;> rfl

@[simp] theorem State.modifyPmo_nextObj (s : State) (p : PMQPMO) (f : MQPMO → MQPMO) :
    (s.modifyPmo p f).nextObj = s.nextObj := by
  cases p <;> rfl

/-- Writing through either kind of pointer leaves the other fields of the structures as they are. -/
theorem State.modifyGmo_heap_map {α : Type} {proj : HobjOptions → α}
    (hproj : ∀ h my, proj { h with myGmo := my } = proj h) (s : State) (p : PMQGMO)
    (f : MQGMO → MQGMO) (o : ObjAddr) :
    ((s.modifyGmo p f).heap o).map proj = (s.heap o).map proj := by
  cases p with
  | null => rfl
  | app a => rfl
  | myGmo o' =>
    rcases eq_or_ne o o' with rfl | hne
    · rcases h : s.heap o with - | b <;> simp [State.modifyGmo, h, hproj]
    · simp [State.modifyGmo, hne]

theorem State.modifyPmo_heap_map {α : Type} {proj : HobjOptions → α}
    (hproj : ∀ h my, proj { h with myPmo := my } = proj h) (s : State) (p : PMQPMO)
    (f : MQPMO → MQPMO) (o : ObjAddr) :
    ((s.modifyPmo p f).heap o).map proj = (s.heap o).map proj := by
  cases p with
  | null => rfl
  | app a => rfl
  | myPmo o' =>
    rcases eq_or_ne o o' with rfl | hne
    · rcases h : s.heap o with - | b <;> simp [State.modifyPmo, h, hproj]
    · simp [State.modifyPmo, hne]

theorem State.modifyGmo_heap_gmo (s : State) (p : PMQGMO) (f : MQGMO → MQGMO) (o : ObjAddr) :
    ((s.modifyGmo p f).heap o).map (·.gmo) = (s.heap o).map (·.gmo) :=
  s.modifyGmo_heap_map (fun _ _ ↦ rfl) p f o

theorem State.modifyPmo_heap_pmo (s : State) (p : PMQPMO) (f : MQPMO → MQPMO) (o : ObjAddr) :
    ((s.modifyPmo p f).heap o).map (·.pmo) = (s.heap o).map (·.pmo) :=
  s.modifyPmo_heap_map (fun _ _ ↦ rfl) p f o

theorem State.modifyGmo_heap_propCtl (s : State) (p : PMQGMO) (f : MQGMO → MQGMO) (o : ObjAddr) :
    ((s.modifyGmo p f).heap o).map (·.propCtl) = (s.heap o).map (·.propCtl) :=
  s.modifyGmo_heap_map (fun _ _ ↦ rfl) p f o

theorem State.modifyPmo_heap_propCtl (s : State) (p : PMQPMO) (f : MQPMO → MQPMO) (o : ObjAddr) :
    ((s.modifyPmo p f).heap o).map (·.propCtl) = (s.heap o).map (·.propCtl) :=
  s.modifyPmo_heap_map (fun _ _ ↦ rfl) p f o

/-- And it neither allocates nor frees. -/
theorem State.modifyGmo_isSome (s : State) (p : PMQGMO) (f : MQGMO → MQGMO) (o : ObjAddr) :
    ((s.modifyGmo p f).heap o).isSome = (s.heap o).isSome := by
  have := congrArg Option.isSome (s.modifyGmo_heap_gmo p f o)
  simpa using this

theorem State.modifyPmo_isSome (s : State) (p : PMQPMO) (f : MQPMO → MQPMO) (o : ObjAddr) :
    ((s.modifyPmo p f).heap o).isSome = (s.heap o).isSome := by
  have := congrArg Option.isSome (s.modifyPmo_heap_pmo p f o)
  simpa using this

end MqExits.Otel
