import MqExits.Otel.State
import Mathlib.Data.List.Sort

/-!
# Opening, closing and disconnecting

`mqotOpenAfter` records the PROPCTL value of a queue opened for input, `mqotCloseAfter` discards the
record, and `mqotDiscBefore` discards what the two maps hold for a connection.

`mqotDiscBefore` is modelled as its two loops run: over the keys in the order of the map, with an
iterator that moves only past an entry that is erased, and with `objectOptionsMap[key]` looked up at
the common prefix of the keys and not at the key of the entry, which enters a null pointer under it.
-/

namespace MqExits.Otel

open CText Outcome

/-! ### MQOPEN and MQCLOSE -/

/-- `OPEN_GET_OPTIONS`. -/
def OPEN_GET_OPTIONS : BitVec 32 :=
  MQOO_INPUT_AS_Q_DEF ||| MQOO_INPUT_SHARED ||| MQOO_INPUT_EXCLUSIVE

/-- The PROPCTL value that `mqotOpenAfter` finds, or -1. -/
def inquirePropCtl (env : Env) (hc : MQHCONN) (ho : MQHOBJ) (od : MQOD)
    (openOptions : BitVec 32) : MQLONG :=
  if openOptions &&& MQOO_INQUIRE ≠ 0 then (env.inq hc ho).getD (-1)
  else
    match env.reopen hc (strncpy od.objectName 48) (strncpy od.objectQMgrName 48) with
    | none => -1
    | some inqHobj => (env.inq hc inqHobj).getD (-1)

/-- `mqotOpenAfter`. -/
def mqotOpenAfter (env : Env) (s : State) (hc : MQHCONN) (od : MQOD) (openOptions : BitVec 32)
    (ho : MQHOBJ) : State :=
  if od.objectType = MQOT_Q ∧ openOptions &&& OPEN_GET_OPTIONS ≠ 0 then
    let key := objectKey hc (some ho)
    let propCtl := inquirePropCtl env hc ho od openOptions
    let (o, s) := mqotMalloc env s
    let s := s.setObj o { env.uninitObj with propCtl := propCtl }
    { s with objectOptionsMap := s.objectOptionsMap.insert key (some o) }
  else s

/-- `mqotCloseAfter`. -/
def mqotCloseAfter (s : State) (hc : MQHCONN) (ho : MQHOBJ) : Except Fault State := do
  let key := objectKey hc (some ho)
  match s.objectOptionsMap.lookup key with
  | none => return s
  | some o =>
    let s ← mqotFree s o
    return { s with objectOptionsMap := s.objectOptionsMap.erase key }

/-! ### MQDISC -/

/-- The keys of a map in the order in which its iterator meets them. -/
def keysInOrder {α : Type} (m : AList fun _ : Bytes ↦ α) : List Bytes :=
  m.keys.insertionSort (· ≤ ·)

/-- The loop over `objectHandleMap`, from the keys the iterator has before it. One unit of fuel is
one iteration; `none` when the fuel runs out. -/
def discHandles (key : Bytes) : ℕ → List Bytes → AList (fun _ : Bytes ↦ MsgHandle) →
    Option (AList fun _ : Bytes ↦ MsgHandle)
  | _, [], m => some m
  | 0, _ :: _, _ => none
  | fuel + 1, mapKey :: rest, m =>
    if find mapKey key 0 = some 0 then discHandles key fuel rest (m.erase mapKey)
    else discHandles key fuel (mapKey :: rest) m

/-- `objectOptionsMap[key]`, which enters a null pointer where there is no entry. -/
def optionsPointer (s : State) (key : Bytes) : Option ObjAddr × State :=
  match s.objectOptionsMap.lookup key with
  | some o => (o, s)
  | none => (none, { s with objectOptionsMap := s.objectOptionsMap.insert key none })

/-- The loop over `objectOptionsMap`. An entry that it enters sorts before the one the iterator is
at, so the keys still to come are those it started with. -/
def discOptions (key : Bytes) : ℕ → List Bytes → State → Except Fault State
  | _, [], s => .ok s
  | 0, _ :: _, _ => .error .diverges
  | fuel + 1, mapKey :: rest, s =>
    if find mapKey key 0 = some 0 then do
      let (o, s) := optionsPointer s key
      let s ← mqotFree s o
      discOptions key fuel rest
        { s with objectOptionsMap := s.objectOptionsMap.erase mapKey }
    else discOptions key fuel (mapKey :: rest) s

/-- `mqotDiscBefore`. -/
def mqotDiscBefore (s : State) (hc : MQHCONN) : Except Fault State := do
  let key := toDecimal hc ++ lit "/"
  let handles := keysInOrder s.objectHandleMap
  match discHandles key handles.length handles s.objectHandleMap with
  | none => .error .diverges
  | some hm =>
    let s := { s with objectHandleMap := hm }
    let keys := keysInOrder s.objectOptionsMap
    discOptions key keys.length keys s

/-! ### What a call that returns has done -/

theorem mqotCloseAfter_of_none {s : State} {hc : MQHCONN} {ho : MQHOBJ}
    (h : s.objectOptionsMap.lookup (objectKey hc (some ho)) = none) :
    mqotCloseAfter s hc ho = .ok s := by
  simp only [mqotCloseAfter, h]
  rfl

/-- A close that discards something frees it and erases the entry. -/
theorem mqotCloseAfter_of_some {s s' : State} {hc : MQHCONN} {ho : MQHOBJ} {p : Option ObjAddr}
    (h : s.objectOptionsMap.lookup (objectKey hc (some ho)) = some p) :
    mqotCloseAfter s hc ho = .ok s' ↔ ∃ s₁, mqotFree s p = .ok s₁ ∧
      s' = { s₁ with objectOptionsMap := s₁.objectOptionsMap.erase (objectKey hc (some ho)) } := by
  simp only [mqotCloseAfter, h, bind_eq_ok]
  refine exists_congr fun s₁ ↦ and_congr_right fun _ ↦ ?_
  exact ⟨fun heq ↦ (Except.ok.inj heq).symm, fun heq ↦ congrArg Except.ok heq.symm⟩

@[simp] theorem discHandles_nil (key : Bytes) (fuel : ℕ) (m : AList fun _ : Bytes ↦ MsgHandle) :
    discHandles key fuel [] m = some m := by
  cases fuel <;> rfl

/-- Where the first loop ends, the entry that comes first is erased. -/
theorem discHandles_cons {key mapKey : Bytes} {fuel : ℕ} {rest : List Bytes}
    {m m' : AList fun _ : Bytes ↦ MsgHandle}
    (h : discHandles key fuel (mapKey :: rest) m = some m') :
    key <+: mapKey ∧ ∃ fuel', discHandles key fuel' rest (m.erase mapKey) = some m' := by
  induction fuel with
  | zero => cases h
  | succ fuel ih =>
    rw [discHandles] at h
    split_ifs at h with hstart
    · exact ⟨find_eq_zero_iff.1 hstart, fuel, h⟩
    · -- the iterator has not moved
      exact ih h

theorem optionsPointer_of_some {s : State} {key : Bytes} {p : Option ObjAddr}
    (h : s.objectOptionsMap.lookup key = some p) : optionsPointer s key = (p, s) := by
  rw [optionsPointer, h]

@[simp] theorem discOptions_nil (key : Bytes) (fuel : ℕ) (s : State) :
    discOptions key fuel [] s = .ok s := by
  cases fuel <;> rfl

/-- One iteration of the second loop. -/
theorem discOptions_succ_cons {key mapKey : Bytes} {fuel : ℕ} {rest : List Bytes}
    {s s₁ s₂ : State} {p : Option ObjAddr} (hstart : key <+: mapKey)
    (hpointer : optionsPointer s key = (p, s₁)) (hfree : mqotFree s₁ p = .ok s₂) :
    discOptions key (fuel + 1) (mapKey :: rest) s =
      discOptions key fuel rest
        { s₂ with objectOptionsMap := s₂.objectOptionsMap.erase mapKey } := by
  rw [discOptions, if_pos (find_eq_zero_iff.2 hstart), hpointer]
  show (mqotFree s₁ p >>= _) = _
  rw [hfree]
  rfl

/-- Where the second loop ends, the structure under the common beginning is freed, whatever the
entry that comes first, and that entry is erased. -/
theorem discOptions_cons {key mapKey : Bytes} {fuel : ℕ} {rest : List Bytes} {s s' : State}
    (h : discOptions key fuel (mapKey :: rest) s = .ok s') :
    key <+: mapKey ∧ ∃ fuel' s₁,
      mqotFree (optionsPointer s key).2 (optionsPointer s key).1 = .ok s₁ ∧
        discOptions key fuel' rest
          { s₁ with objectOptionsMap := s₁.objectOptionsMap.erase mapKey } = .ok s' := by
  induction fuel with
  | zero => cases h
  | succ fuel ih =>
    rw [discOptions] at h
    split_ifs at h with hstart
    · obtain ⟨s₁, hfree, hrest⟩ := bind_eq_ok.1 h
      exact ⟨find_eq_zero_iff.1 hstart, fuel, s₁, hfree, hrest⟩
    · exact ih h

end MqExits.Otel
