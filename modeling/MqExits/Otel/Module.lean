import MqExits.Otel.Effects
import MqExits.Runs.Machine

/-!
# The module as a machine

A step of `otelModule` is one exit function called with any arguments, the queue manager writing to
an option structure, or the application rewriting its own. A call that the language gives no meaning
to, or that never returns, has no step.

Every state reached is well formed (`wellFormed_of_run`): each entry of `objectOptionsMap` under a
key that a call can ask for points to a live structure, and no two entries share one. So every key a
call can ask for is usable (`WellFormed.usable`), which is the hypothesis of the specifications of
`mqotGetBefore` and `mqotPutBefore`.
-/

namespace MqExits.Otel

open CText Outcome

/-! ### The machine -/

/-- What can happen to the module's state. -/
inductive ExitCall
  | openAfter (env : Env) (hc : MQHCONN) (od : MQOD) (openOptions : BitVec 32) (ho : MQHOBJ)
  | closeAfter (hc : MQHCONN) (ho : MQHOBJ)
  | discBefore (hc : MQHCONN)
  | putBefore (env : Env) (hc : MQHCONN) (ho : Option MQHOBJ) (msg : PutMessage) (pp : PMQPMO)
  | putAfter (hc : MQHCONN) (ho : Option MQHOBJ) (pp : PMQPMO)
  | getBefore (env : Env) (hc : MQHCONN) (ho : Option MQHOBJ) (pp : PMQGMO)
  | getAfter (env : Env) (call : GetCall) (pp : PMQGMO)
  /-- The queue manager's own part of an MQPUT or MQPUT1. -/
  | put (pp : PMQPMO) (out : PmoOutputs)
  /-- The queue manager's own part of an MQGET. -/
  | get (pp : PMQGMO) (out : GmoOutputs)
  | application (appGmo : AppAddr → MQGMO) (appPmo : AppAddr → MQPMO)

/-- The state after a call. -/
def exitStep (s : State) : ExitCall → Except Fault State
  | .openAfter env hc od openOptions ho => .ok (mqotOpenAfter env s hc od openOptions ho)
  | .closeAfter hc ho => mqotCloseAfter s hc ho
  | .discBefore hc => mqotDiscBefore s hc
  | .putBefore env hc ho msg pp => (mqotPutBefore env s hc ho msg pp).map (·.state)
  | .putAfter hc ho pp => (mqotPutAfter s hc ho pp).map fun _ ↦ s
  | .getBefore env hc ho pp => (mqotGetBefore env s hc ho pp).map (·.2)
  | .getAfter env call pp => (mqotGetAfter env s call pp).map fun _ ↦ s
  | .put pp out => .ok (s.modifyPmo pp (·.write out))
  | .get pp out => .ok (s.modifyGmo pp (·.write out))
  | .application appGmo appPmo => .ok { s with appGmo := appGmo, appPmo := appPmo }

/-- The connection and the object of a call of one of the six functions that work on one key. -/
def ExitCall.target : ExitCall → Option (MQHCONN × Option MQHOBJ)
  | .openAfter _ hc _ _ ho => some (hc, some ho)
  | .closeAfter hc ho => some (hc, some ho)
  | .putBefore _ hc ho _ _ => some (hc, ho)
  | .putAfter hc ho _ => some (hc, ho)
  | .getBefore _ hc ho _ => some (hc, ho)
  | .getAfter _ call _ => some (call.hConn, some call.hObj)
  | .discBefore _ | .put _ _ | .get _ _ | .application _ _ => none

/-- The call enters a new structure whatever its key has. -/
def ExitCall.Records : ExitCall → Prop
  | .openAfter _ _ od openOptions _ => RecordsOpen od openOptions
  | _ => False

/-- **What one of the six functions does**: it works on the entry of its key, and at most asks for
the handle of its connection. -/
theorem keyStep_exitStep {s s' : State} {call : ExitCall} {hc : MQHCONN} {ho : Option MQHOBJ}
    (htarget : call.target = some (hc, ho)) (hstep : exitStep s call = .ok s') :
    KeyStep (objectKey hc ho) call.Records s s' ∧ (s'.objectHandleMap = s.objectHandleMap ∨
      ∃ env, s'.objectHandleMap = (getMsgHandle env s hc none).2.objectHandleMap) := by
  cases call with
  | openAfter env hc od openOptions ho =>
    obtain ⟨rfl, rfl⟩ := Prod.mk.inj (Option.some.inj htarget)
    obtain rfl := Except.ok.inj hstep
    refine ⟨keyStep_mqotOpenAfter env s hc od openOptions ho, Or.inl ?_⟩
    rw [mqotOpenAfter]
    split_ifs <;> rfl
  | closeAfter hc ho =>
    obtain ⟨rfl, rfl⟩ := Prod.mk.inj (Option.some.inj htarget)
    exact ⟨keyStep_mqotCloseAfter hstep, Or.inl (objectHandleMap_mqotCloseAfter hstep)⟩
  | putBefore env hc ho msg pp =>
    obtain ⟨rfl, rfl⟩ := Prod.mk.inj (Option.some.inj htarget)
    obtain ⟨r, hr, rfl⟩ := map_eq_ok.1 hstep
    obtain ⟨hkey, hhandle⟩ := keyStep_mqotPutBefore hr
    exact ⟨hkey, hhandle.imp_right fun h ↦ ⟨env, h⟩⟩
  | getBefore env hc ho pp =>
    obtain ⟨rfl, rfl⟩ := Prod.mk.inj (Option.some.inj htarget)
    obtain ⟨r, hr, rfl⟩ := map_eq_ok.1 hstep
    exact (keyStep_mqotGetBefore hr).imp_right Or.inl
  | putAfter hc ho pp =>
    obtain ⟨r, -, rfl⟩ := map_eq_ok.1 hstep
    exact ⟨.refl _ not_false _, Or.inl rfl⟩
  | getAfter env call pp =>
    obtain ⟨r, -, rfl⟩ := map_eq_ok.1 hstep
    exact ⟨.refl _ not_false _, Or.inl rfl⟩
  | discBefore _ | put _ _ | get _ _ | application _ _ => cases htarget

/-- The module. -/
def otelModule : Machine State ExitCall Unit where
  step s call := (exitStep s call).toOption.map fun s' ↦ (s', ())

theorem otelModule_step {s s' : State} {call : ExitCall} {o : Unit} :
    otelModule.step s call = some (s', o) ↔ exitStep s call = .ok s' := by
  simp only [otelModule]
  rcases exitStep s call with e | s''
  · simp [Except.toOption]
  · simp [Except.toOption]

/-! ### Well-formed states -/

/-- The invariant of the maps and the heap. A null entry is one that `mqotDiscBefore` has left, and
its key is none that a call asks for. -/
structure State.WellFormed (s : State) : Prop where
  live : ∀ key o, s.objectOptionsMap.lookup key = some (some o) → (s.heap o).isSome
  unshared : ∀ key key' o, s.objectOptionsMap.lookup key = some (some o) →
    s.objectOptionsMap.lookup key' = some (some o) → key = key'
  fresh : ∀ o, s.nextObj ≤ o → s.heap o = none
  null : ∀ key p, s.objectOptionsMap.lookup key = some p →
    (p = none ↔ key.getLast? = some 47)

/-- A key never ends with a slash. -/
theorem objectKey_getLast? (hc : MQHCONN) (ho : Option MQHOBJ) :
    (objectKey hc ho).getLast? ≠ some 47 := by
  have hstar : (toDecimal hc ++ lit "/*").getLast? ≠ some 47 := by
    rw [List.getLast?_append, show (lit "/*").getLast? = some 42 by decide, Option.some_or]
    decide
  unfold objectKey
  split
  · exact hstar
  · split_ifs
    · exact hstar
    · intro h
      rw [List.getLast?_append] at h
      rcases hl : (toDecimal ‹_›).getLast? with - | b
      · exact toDecimal_ne_nil _ (List.getLast?_eq_none_iff.1 hl)
      · rw [hl] at h
        obtain rfl := Option.some.inj h
        exact toDecimal_ne_slash (List.mem_of_getLast? hl) rfl

/-- Every key a call can ask for is usable. -/
theorem State.WellFormed.usable {s : State} (h : s.WellFormed) (hc : MQHCONN)
    (ho : Option MQHOBJ) : s.Usable (objectKey hc ho) := by
  rcases hl : s.objectOptionsMap.lookup (objectKey hc ho) with - | (- | o)
  · exact Or.inl hl
  · exact absurd ((h.null _ _ hl).1 rfl) (objectKey_getLast? hc ho)
  · obtain ⟨obj, hobj⟩ := Option.isSome_iff_exists.1 (h.live _ _ hl)
    exact Or.inr ⟨(o, obj), optionsAt_eq_ok.2 ⟨hl, hobj⟩⟩

/-- No entry points to where the next structure will be. -/
theorem State.WellFormed.ne_nextObj {s : State} (h : s.WellFormed) {key : Bytes} {o : ObjAddr}
    (hl : s.objectOptionsMap.lookup key = some (some o)) : o ≠ s.nextObj := by
  rintro rfl
  have hlive := h.live key _ hl
  rw [h.fresh _ le_rfl] at hlive
  cases hlive

theorem State.wellFormed_init (appGmo : AppAddr → MQGMO) (appPmo : AppAddr → MQPMO) :
    (State.init appGmo appPmo).WellFormed where
  live key o h := by simp [State.init] at h
  unshared key key' o h := by simp [State.init] at h
  fresh o _ := rfl
  null key p h := by simp [State.init] at h

/-- Only the entries, the live addresses and the allocator matter. -/
theorem State.WellFormed.congr {s s' : State} (h : s.WellFormed)
    (hmap : s'.objectOptionsMap = s.objectOptionsMap)
    (hheap : ∀ o, (s'.heap o).isSome = (s.heap o).isSome) (hnext : s'.nextObj = s.nextObj) :
    s'.WellFormed where
  live key o hl := by
    rw [hheap]
    exact h.live key o (hmap ▸ hl)
  unshared := by
    rw [hmap]
    exact h.unshared
  fresh o ho := by
    have hnone := h.fresh o (hnext ▸ ho)
    rw [← Option.not_isSome_iff_eq_none, hheap, hnone]
    simp
  null := by
    rw [hmap]
    exact h.null

/-! ### What each operation preserves -/

theorem State.WellFormed.modifyGmo {s : State} (h : s.WellFormed) (p : PMQGMO)
    (f : MQGMO → MQGMO) : (s.modifyGmo p f).WellFormed :=
  h.congr (s.modifyGmo_objectOptionsMap p f) (s.modifyGmo_isSome p f) (s.modifyGmo_nextObj p f)

theorem State.WellFormed.modifyPmo {s : State} (h : s.WellFormed) (p : PMQPMO)
    (f : MQPMO → MQPMO) : (s.modifyPmo p f).WellFormed :=
  h.congr (s.modifyPmo_objectOptionsMap p f) (s.modifyPmo_isSome p f) (s.modifyPmo_nextObj p f)

/-- An entry for a newly allocated structure. -/
theorem State.WellFormed.insertNew {s s' : State} {key : Bytes} (h : s.WellFormed)
    (hkey : key.getLast? ≠ some 47)
    (hmap : s'.objectOptionsMap = s.objectOptionsMap.insert key (some s.nextObj))
    (hnext : s'.nextObj = s.nextObj + 1) (hlive : (s'.heap s.nextObj).isSome)
    (hframe : ∀ o, o ≠ s.nextObj → s'.heap o = s.heap o) : s'.WellFormed := by
  -- the address is a new one, so no other entry has it
  have hlookup : ∀ k, s'.objectOptionsMap.lookup k =
      if k = key then some (some s.nextObj) else s.objectOptionsMap.lookup k := by
    intro k
    rw [hmap]
    split_ifs with hk
    · rw [hk, AList.lookup_insert]
    · rw [AList.lookup_insert_ne hk]
  constructor
  · intro k o hl
    rw [hlookup] at hl
    split_ifs at hl with hk
    · obtain rfl := Option.some.inj (Option.some.inj hl)
      exact hlive
    · rw [hframe o (h.ne_nextObj hl)]
      exact h.live k o hl
  · intro k k' o hl hl'
    rw [hlookup] at hl hl'
    split_ifs at hl hl' with hk hk'
    · rw [hk, hk']
    · exact absurd (Option.some.inj (Option.some.inj hl)).symm (h.ne_nextObj hl')
    · exact absurd (Option.some.inj (Option.some.inj hl')).symm (h.ne_nextObj hl)
    · exact h.unshared k k' o hl hl'
  · intro o ho
    rw [hnext] at ho
    rw [hframe o (Nat.ne_of_gt ho)]
    exact h.fresh o (Nat.le_of_succ_le ho)
  · intro k p hl
    rw [hlookup] at hl
    split_ifs at hl with hk
    · obtain rfl := Option.some.inj hl
      rw [hk]
      exact iff_of_false (by simp) hkey
    · exact h.null k p hl

/-- Taking an entry away. -/
theorem State.WellFormed.erase {s : State} (h : s.WellFormed) (key : Bytes) :
    State.WellFormed { s with objectOptionsMap := s.objectOptionsMap.erase key } := by
  have hsub : ∀ k p, (s.objectOptionsMap.erase key).lookup k = some p →
      s.objectOptionsMap.lookup k = some p := fun k p hl ↦ (lookup_erase_eq_some.1 hl).2
  constructor
  · exact fun k o hl ↦ h.live k o (hsub k _ hl)
  · exact fun k k' o hl hl' ↦ h.unshared k k' o (hsub k _ hl) (hsub k' _ hl')
  · exact h.fresh
  · exact fun k p hl ↦ h.null k p (hsub k _ hl)

/-- Freeing the structure of an entry that is then taken away. -/
theorem State.WellFormed.freeErase {s s' : State} {key : Bytes} {p : Option ObjAddr}
    (h : s.WellFormed) (hl : s.objectOptionsMap.lookup key = some p)
    (hfree : mqotFree s p = .ok s') :
    State.WellFormed { s' with objectOptionsMap := s'.objectOptionsMap.erase key } := by
  rcases p with - | o
  · obtain rfl := Except.ok.inj hfree
    exact h.erase key
  simp only [mqotFree] at hfree
  split_ifs at hfree
  obtain rfl := Except.ok.inj hfree
  have herase := h.erase key
  constructor
  · intro k o' hl'
    -- no other entry points to it
    have hne : o' ≠ o := by
      rintro rfl
      obtain ⟨hk, hl'⟩ := lookup_erase_eq_some.1 hl'
      exact hk (h.unshared k key _ hl' hl)
    simpa [hne] using herase.live k o' hl'
  · exact herase.unshared
  · intro o' ho'
    rcases eq_or_ne o' o with rfl | hne
    · simp
    · simpa [hne] using h.fresh o' ho'
  · exact herase.null

/-- **A call that works on one key preserves the invariant.** -/
theorem State.WellFormed.keyStep {s s' : State} {key : Bytes} {records : Prop}
    (h : s.WellFormed) (hkey : key.getLast? ≠ some 47) (hstep : KeyStep key records s s') :
    s'.WellFormed := by
  cases hstep with
  | kept keeps map next live propCtl frame => exact h.congr map live next
  | allocated entry map next live frame => exact h.insertNew hkey map next live frame
  | freed keeps p s₁ entry free erase => exact erase ▸ h.freeErase entry free

/-- A null entry under a key that no call asks for. -/
theorem State.WellFormed.optionsPointer {s : State} {key : Bytes} (h : s.WellFormed)
    (hkey : key.getLast? = some 47) : (optionsPointer s key).2.WellFormed := by
  rw [Otel.optionsPointer]
  split
  · exact h
  -- it is a null pointer, so nothing is said of a structure
  have hlookup : ∀ k p, (s.objectOptionsMap.insert key none).lookup k = some p →
      s.objectOptionsMap.lookup k = some p ∨ p = none ∧ k = key := by
    intro k p hl
    rcases eq_or_ne k key with rfl | hk
    · rw [AList.lookup_insert] at hl
      exact Or.inr ⟨(Option.some.inj hl).symm, rfl⟩
    · rw [AList.lookup_insert_ne hk] at hl
      exact Or.inl hl
  constructor
  · intro k o hl
    exact h.live k o ((hlookup k _ hl).resolve_right (by simp))
  · intro k k' o hl hl'
    exact h.unshared k k' o ((hlookup k _ hl).resolve_right (by simp))
      ((hlookup k' _ hl').resolve_right (by simp))
  · exact h.fresh
  · intro k p hl
    rcases hlookup k _ hl with hl | ⟨rfl, rfl⟩
    · exact h.null k p hl
    · simp [hkey]

/-- The pointer that `mqotDiscBefore` frees is always null. -/
theorem State.WellFormed.optionsPointer_eq {s : State} {key : Bytes} (h : s.WellFormed)
    (hkey : key.getLast? = some 47) : (Otel.optionsPointer s key).1 = none := by
  rw [Otel.optionsPointer]
  split
  · rename_i p hl
    exact (h.null key p hl).2 hkey
  · rfl

theorem State.WellFormed.discOptions {key : Bytes} {fuel : ℕ} {keys : List Bytes} {s s' : State}
    (h : s.WellFormed) (hkey : key.getLast? = some 47)
    (hd : discOptions key fuel keys s = .ok s') : s'.WellFormed := by
  induction keys generalizing fuel s with
  | nil =>
    rw [discOptions_nil] at hd
    rwa [← Except.ok.inj hd]
  | cons mapKey rest ih =>
    obtain ⟨-, fuel', s₁, hfree, hloop⟩ := discOptions_cons hd
    have hwf := h.optionsPointer hkey
    rw [h.optionsPointer_eq hkey] at hfree
    rw [Except.ok.inj hfree] at hwf
    exact ih (hwf.erase mapKey) hloop

/-! ### Steps and runs -/

/-- **One step preserves the invariant.** -/
theorem wellFormed_exitStep {s s' : State} {call : ExitCall} (h : s.WellFormed)
    (hstep : exitStep s call = .ok s') : s'.WellFormed := by
  rcases htarget : call.target with - | ⟨hc, ho⟩
  swap
  · exact h.keyStep (objectKey_getLast? hc ho) (keyStep_exitStep htarget hstep).1
  cases call with
  | discBefore hc =>
    -- the key of the entry ends with the slash, which no key of a call does
    have hkey : (toDecimal hc ++ lit "/").getLast? = some 47 := by
      rw [List.getLast?_append]
      rfl
    simp only [exitStep, mqotDiscBefore] at hstep
    split at hstep
    · cases hstep
    · rename_i hm _
      have hh : State.WellFormed { s with objectHandleMap := hm } :=
        h.congr rfl (fun _ ↦ rfl) rfl
      exact hh.discOptions hkey hstep
  | put pp out =>
    obtain rfl := Except.ok.inj hstep
    exact h.modifyPmo pp _
  | get pp out =>
    obtain rfl := Except.ok.inj hstep
    exact h.modifyGmo pp _
  | application appGmo appPmo =>
    obtain rfl := Except.ok.inj hstep
    exact h.congr rfl (fun _ ↦ rfl) rfl
  | openAfter _ _ _ _ _ | closeAfter _ _ | putBefore _ _ _ _ _ | putAfter _ _ _
  | getBefore _ _ _ _ | getAfter _ _ _ => cases htarget

/-- **Every state reached is well formed.** -/
theorem wellFormed_of_run {appGmo : AppAddr → MQGMO} {appPmo : AppAddr → MQPMO}
    {tr : List (Machine.Event State ExitCall Unit)} {s : State}
    (h : otelModule.Run (State.init appGmo appPmo) tr s) : s.WellFormed := by
  refine h.invariant (I := fun _ s ↦ s.WellFormed) (State.wellFormed_init appGmo appPmo) ?_
  exact fun tr s call s' o hs hstep ↦ wellFormed_exitStep hs (otelModule_step.1 hstep)

end MqExits.Otel
