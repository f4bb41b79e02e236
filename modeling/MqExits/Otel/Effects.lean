import MqExits.Otel.GetOptions
import MqExits.Otel.Open
import MqExits.Otel.Put

/-!
# What a call does to the entry of its key

Each of the six exit functions that an MQOPEN, MQCLOSE, MQPUT or MQGET runs works on one key. What
it can do there is one of three things (`KeyStep`): write to the key's structure, allocate one and
enter it, or free the structure and take the entry away. Everything later proved about the maps and
the heap over a run (the invariant, who owns a structure, whose value a call reads, that the
connections do not meet) is a case analysis over those three.
-/

namespace MqExits.Otel

open CText Outcome

/-- What a call that works on one key does. The proposition `records` says that the call enters a
new structure whatever the key has. -/
inductive KeyStep (key : Bytes) (records : Prop) (s s' : State) : Prop
  /-- At most the key's structure is written to. -/
  | kept (keeps : ¬ records) (map : s'.objectOptionsMap = s.objectOptionsMap)
      (next : s'.nextObj = s.nextObj) (live : ∀ o, (s'.heap o).isSome = (s.heap o).isSome)
      (propCtl : ∀ o, (s'.heap o).map (·.propCtl) = (s.heap o).map (·.propCtl))
      (frame : ∀ o, s.objectOptionsMap.lookup key ≠ some (some o) → s'.heap o = s.heap o)
  /-- A new structure is entered for the key. -/
  | allocated (entry : s.objectOptionsMap.lookup key = none ∨ records)
      (map : s'.objectOptionsMap = s.objectOptionsMap.insert key (some s.nextObj))
      (next : s'.nextObj = s.nextObj + 1) (live : (s'.heap s.nextObj).isSome)
      (frame : ∀ o, o ≠ s.nextObj → s'.heap o = s.heap o)
  /-- The key's structure is freed, and its entry taken away. -/
  | freed (keeps : ¬ records) (p : Option ObjAddr) (s₁ : State)
      (entry : s.objectOptionsMap.lookup key = some p) (free : mqotFree s p = .ok s₁)
      (erase : s' = { s₁ with objectOptionsMap := s₁.objectOptionsMap.erase key })

theorem KeyStep.refl (key : Bytes) {records : Prop} (h : ¬ records) (s : State) :
    KeyStep key records s s :=
  .kept h rfl rfl (fun _ ↦ rfl) (fun _ ↦ rfl) fun _ _ ↦ rfl

/-- A call goes on to write to the structure that it leaves for the key. -/
theorem KeyStep.write {key : Bytes} {records : Prop} {s s₁ s' : State} {o : ObjAddr}
    (h : KeyStep key records s s₁)
    (ho : s₁.objectOptionsMap.lookup key = some (some o))
    (hmap : s'.objectOptionsMap = s₁.objectOptionsMap) (hnext : s'.nextObj = s₁.nextObj)
    (hlive : ∀ a, (s'.heap a).isSome = (s₁.heap a).isSome)
    (hpropCtl : ∀ a, (s'.heap a).map (·.propCtl) = (s₁.heap a).map (·.propCtl))
    (hframe : ∀ a, a ≠ o → s'.heap a = s₁.heap a) : KeyStep key records s s' := by
  cases h with
  | kept keeps map next live propCtl frame =>
    refine .kept keeps (hmap.trans map) (hnext.trans next) (fun a ↦ (hlive a).trans (live a))
      (fun a ↦ (hpropCtl a).trans (propCtl a)) fun a ha ↦ ?_
    have hne : a ≠ o := by
      rintro rfl
      exact ha (map ▸ ho)
    exact (hframe a hne).trans (frame a ha)
  | allocated entry map next live frame =>
    rw [map, AList.lookup_insert] at ho
    obtain rfl := Option.some.inj (Option.some.inj ho)
    refine .allocated entry (hmap.trans map) (hnext.trans next) (by rw [hlive]; exact live)
      fun a ha ↦ ?_
    exact (hframe a ha).trans (frame a ha)
  -- after that there is no entry to write to
  | freed keeps p s₂ entry free erase =>
    subst erase
    exact absurd rfl (lookup_erase_eq_some.1 ho).1

theorem KeyStep.modifyGmo {key : Bytes} {records : Prop} {s s₁ : State} {o : ObjAddr}
    (h : KeyStep key records s s₁)
    (ho : s₁.objectOptionsMap.lookup key = some (some o)) (f : MQGMO → MQGMO) :
    KeyStep key records s (s₁.modifyGmo (.myGmo o) f) := by
  refine h.write ho rfl rfl (fun a ↦ ?_) (fun a ↦ ?_) fun a ha ↦ ?_
  · rw [State.modifyGmo_myGmo_heap]
    split_ifs <;> simp
  · rw [State.modifyGmo_myGmo_heap]
    split_ifs <;> simp [Function.comp_def]
  · rw [State.modifyGmo_myGmo_heap, if_neg ha]

theorem KeyStep.modifyPmo {key : Bytes} {records : Prop} {s s₁ : State} {o : ObjAddr}
    (h : KeyStep key records s s₁)
    (ho : s₁.objectOptionsMap.lookup key = some (some o)) (f : MQPMO → MQPMO) :
    KeyStep key records s (s₁.modifyPmo (.myPmo o) f) := by
  refine h.write ho rfl rfl (fun a ↦ ?_) (fun a ↦ ?_) fun a ha ↦ ?_
  · rw [State.modifyPmo_myPmo_heap]
    split_ifs <;> simp
  · rw [State.modifyPmo_myPmo_heap]
    split_ifs <;> simp [Function.comp_def]
  · rw [State.modifyPmo_myPmo_heap, if_neg ha]

/-- A call goes on to do what leaves the options map and the heap alone. -/
theorem KeyStep.congr {key : Bytes} {records : Prop} {s s₁ s' : State} {o : ObjAddr}
    (h : KeyStep key records s s₁)
    (ho : s₁.objectOptionsMap.lookup key = some (some o))
    (hmap : s'.objectOptionsMap = s₁.objectOptionsMap) (hheap : s'.heap = s₁.heap)
    (hnext : s'.nextObj = s₁.nextObj) : KeyStep key records s s' :=
  h.write ho hmap hnext (fun a ↦ by rw [hheap]) (fun a ↦ by rw [hheap]) fun a _ ↦ by rw [hheap]

/-! ### The parts of the exit functions -/

/-- The common part of `saveGmo` and `savePmo`. -/
theorem keyStep_saveOptions {env : Env} {s s' : State} {key : Bytes}
    {stash : HobjOptions → HobjOptions} {o : ObjAddr}
    (h : saveOptions env s key stash = .ok (o, s')) (hstash : ∀ h, (stash h).propCtl = h.propCtl) :
    KeyStep key False s s' ∧ s'.objectOptionsMap.lookup key = some (some o) := by
  rw [saveOptions] at h
  split at h
  · -- no entry: a structure is allocated, with fields that nothing has written
    rename_i hl
    obtain ⟨rfl, rfl⟩ := Prod.mk.inj (Except.ok.inj h)
    refine ⟨.allocated (Or.inl hl) rfl rfl ?_ fun a ha ↦ ?_, AList.lookup_insert _⟩
    · simp [State.setObj]
    · simp [State.setObj, ha]
  · rcases hopt : optionsAt s key with e | ⟨o', base⟩
    · rw [hopt] at h
      cases h
    · rw [hopt] at h
      obtain ⟨rfl, rfl⟩ := Prod.mk.inj (Except.ok.inj h)
      obtain ⟨hl, hheap⟩ := optionsAt_eq_ok.1 hopt
      refine ⟨.kept not_false rfl rfl (fun a ↦ ?_) (fun a ↦ ?_) fun a ha ↦ ?_, hl⟩
      · rcases eq_or_ne a o' with rfl | hne
        · simp [hheap]
        · simp [State.setObj, hne]
      · rcases eq_or_ne a o' with rfl | hne
        · simp [hheap, hstash]
        · simp [State.setObj, hne]
      · have hne : a ≠ o' := by
          rintro rfl
          exact ha hl
        simp [State.setObj, hne]

/-- The opens that `mqotOpenAfter` records: those of a queue for input. -/
def RecordsOpen (od : MQOD) (openOptions : BitVec 32) : Prop :=
  od.objectType = MQOT_Q ∧ openOptions &&& OPEN_GET_OPTIONS ≠ 0

instance (od : MQOD) (openOptions : BitVec 32) : Decidable (RecordsOpen od openOptions) :=
  inferInstanceAs (Decidable (_ ∧ _))

/-- `mqotOpenAfter` enters a structure or does nothing. -/
theorem keyStep_mqotOpenAfter (env : Env) (s : State) (hc : MQHCONN) (od : MQOD)
    (openOptions : BitVec 32) (ho : MQHOBJ) :
    KeyStep (objectKey hc (some ho)) (RecordsOpen od openOptions) s
      (mqotOpenAfter env s hc od openOptions ho) := by
  rw [mqotOpenAfter]
  split_ifs with h
  · refine .allocated (Or.inr h) rfl rfl ?_ fun a ha ↦ ?_
    · simp [State.setObj, mqotMalloc]
    · simp [State.setObj, mqotMalloc, ha]
  · exact .refl _ h _

theorem keyStep_mqotCloseAfter {s s' : State} {hc : MQHCONN} {ho : MQHOBJ}
    (h : mqotCloseAfter s hc ho = .ok s') : KeyStep (objectKey hc (some ho)) False s s' := by
  rcases hl : s.objectOptionsMap.lookup (objectKey hc (some ho)) with - | p
  · rw [mqotCloseAfter_of_none hl] at h
    rw [← Except.ok.inj h]
    exact .refl _ not_false _
  · obtain ⟨s₁, hfree, heq⟩ := (mqotCloseAfter_of_some hl).1 h
    exact .freed not_false p s₁ hl hfree heq

theorem objectHandleMap_mqotCloseAfter {s s' : State} {hc : MQHCONN} {ho : MQHOBJ}
    (h : mqotCloseAfter s hc ho = .ok s') : s'.objectHandleMap = s.objectHandleMap := by
  rcases hl : s.objectOptionsMap.lookup (objectKey hc (some ho)) with - | p
  · rw [mqotCloseAfter_of_none hl] at h
    rw [← Except.ok.inj h]
  · obtain ⟨s₁, hfree, rfl⟩ := (mqotCloseAfter_of_some hl).1 h
    obtain ⟨heap, rfl, -⟩ := mqotFree_spec hfree
    rfl

/-- `mqotGetBefore` does not touch the handle map: the branch that asks for a handle is dead. -/
theorem keyStep_mqotGetBefore {env : Env} {s : State} {hc : MQHCONN} {ho : Option MQHOBJ}
    {pp : PMQGMO} {r : PMQGMO × State} (h : mqotGetBefore env s hc ho pp = .ok r) :
    KeyStep (objectKey hc ho) False s r.2 ∧ r.2.objectHandleMap = s.objectHandleMap := by
  simp only [mqotGetBefore, bind_eq_ok] at h
  obtain ⟨gmo, -, h⟩ := h
  split_ifs at h
  · rw [← Except.ok.inj h]
    exact ⟨.refl _ not_false _, rfl⟩
  obtain ⟨⟨o, s₁⟩, hsave, h⟩ := bind_eq_ok.1 h
  obtain ⟨hstep, hl⟩ := keyStep_saveOptions hsave fun _ ↦ rfl
  have hhm : s₁.objectHandleMap = s.objectHandleMap := objectHandleMap_saveOptions hsave
  split_ifs at h
  · rw [← Except.ok.inj h]
    exact ⟨hstep, hhm⟩
  · obtain ⟨p, -, h⟩ := bind_eq_ok.1 h
    obtain ⟨gmo', -, h⟩ := bind_eq_ok.1 h
    have hstep' := ((hstep.modifyGmo hl fun _ ↦ MQGMO_DEFAULT).modifyGmo hl
      fun my ↦ my.memcpy gmo' (gmoLength gmo')).modifyGmo hl fun my ↦
        if my.version < MQGMO_VERSION_4 then { my with version := MQGMO_VERSION_4 } else my
    obtain ⟨hne₁, hne₂⟩ := propGetOptions_ne gmo.options
    rw [if_neg (by simp [hne₁, hne₂])] at h
    rw [← Except.ok.inj h]
    exact ⟨hstep', by simpa using hhm⟩

theorem keyStep_putTarget {env : Env} {s : State} {hc : MQHCONN} {ho : Option MQHOBJ}
    {pp : PMQPMO} {t : PutTarget} (h : putTarget env s hc ho pp = .ok t) :
    KeyStep (objectKey hc ho) False s t.state ∧
      (t.state.objectHandleMap = s.objectHandleMap ∨
        t.state.objectHandleMap = (getMsgHandle env s hc none).2.objectHandleMap) := by
  obtain ⟨pmo, -, h⟩ := bind_eq_ok.1 h
  split_ifs at h
  · rw [← Except.ok.inj h]
    exact ⟨.refl _ not_false _, Or.inl rfl⟩
  · rw [← Except.ok.inj h]
    exact ⟨.refl _ not_false _, Or.inl rfl⟩
  obtain ⟨⟨o, s₁⟩, hsave, h⟩ := bind_eq_ok.1 h
  obtain ⟨hstep, hl⟩ := keyStep_saveOptions hsave fun _ ↦ rfl
  have hhm : s₁.objectHandleMap = s.objectHandleMap := objectHandleMap_saveOptions hsave
  obtain ⟨pmo', -, h⟩ := bind_eq_ok.1 h
  let s₃ := (s₁.modifyPmo (.myPmo o) fun _ ↦ MQPMO_DEFAULT).modifyPmo (.myPmo o)
    fun my ↦ my.memcpy pmo' (pmoLength pmo')
  have hstep₃ : KeyStep (objectKey hc ho) False s s₃ := (hstep.modifyPmo hl _).modifyPmo hl _
  -- the handle is asked for after the structure has been written, which it does not read
  have hget : getMsgHandle env s₃ hc none = ((getMsgHandle env s hc none).1,
      { s₃ with objectHandleMap := (getMsgHandle env s hc none).2.objectHandleMap }) :=
    getMsgHandle_congr (show s₃.objectHandleMap = s.objectHandleMap from hhm) env hc none
  dsimp only at h
  rw [show getMsgHandle env (State.modifyPmo _ _ _) hc none = _ from hget] at h
  rw [← Except.ok.inj h]
  have hstep₄ : KeyStep (objectKey hc ho) False s
      { s₃ with objectHandleMap := (getMsgHandle env s hc none).2.objectHandleMap } :=
    hstep₃.congr hl rfl rfl rfl
  dsimp only
  exact ⟨(hstep₄.modifyPmo hl _).modifyPmo hl _, Or.inr rfl⟩

theorem keyStep_mqotPutBefore {env : Env} {s : State} {hc : MQHCONN} {ho : Option MQHOBJ}
    {msg : PutMessage} {pp : PMQPMO} {r : PutBeforeResult}
    (h : mqotPutBefore env s hc ho msg pp = .ok r) :
    KeyStep (objectKey hc ho) False s r.state ∧
      (r.state.objectHandleMap = s.objectHandleMap ∨
        r.state.objectHandleMap = (getMsgHandle env s hc none).2.objectHandleMap) := by
  obtain ⟨t, ht, h⟩ := bind_eq_ok.1 h
  obtain ⟨skips, -, h⟩ := bind_eq_ok.1 h
  have hstate : r.state = t.state := by
    rcases skips with e | ⟨inParent, inState⟩
    · rw [← Except.ok.inj h]
    · rw [← Except.ok.inj h]
  rw [hstate]
  exact keyStep_putTarget ht

end MqExits.Otel
