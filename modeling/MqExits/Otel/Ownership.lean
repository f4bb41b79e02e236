import MqExits.Otel.Disconnect
import MqExits.Otel.Module
import MqExits.Runs.Ledger

/-!
# Who owns a `hobjOptions`

Every structure the module allocates is meant to belong to one key of `objectOptionsMap`, and to be
freed when it no longer does. The module keeps that in all but two places: `mqotOpenAfter` puts the
new structure over the one the key has, which nothing points to from then on; and `mqotDiscBefore`,
which looks the pointer to free up under the common beginning of the keys, erases the entries
without freeing what they point to. So the ownership lasts through a run exactly when neither
happens in it (`ownsObjects_iff`).

## The ledger

What a step allocates and frees is read off the heap before and after it (`objOps`), and not off the
calls it is known to make, so nothing can be left out. `OwnsObjects` is the ledger of the operations
so far, with the keys as the parties: a structure that a key has was allocated once and not freed,
and one that no key has was allocated and freed once.

The step lemma is an equivalence: from a state with such a ledger a step leads to another one
exactly if it loses no structure (`ownsObjects_step`). So the theorem, which is about all the states
of a run, follows from it in both directions.
-/

namespace MqExits.Otel

open CText Outcome Ledger

/-- A step of the module. -/
abbrev ExitEvent := Machine.Event State ExitCall Unit

/-- The structure of a key. -/
def State.ownedBy (s : State) (key : Bytes) : Option ObjAddr :=
  (s.objectOptionsMap.lookup key).join

/-- What a step allocates and frees. -/
def objOps (e : ExitEvent) : List (Op ℕ) :=
  (if e.pre.nextObj < e.post.nextObj then [.acquire e.pre.nextObj] else []) ++
    ((List.range e.pre.nextObj).filter fun o ↦
      (e.pre.heap o).isSome && (e.post.heap o).isNone).map .release

/-- Each structure allocated so far belongs to one key, and has then not been freed, or to none, and
has then been freed exactly once. -/
def OwnsObjects (tr : List ExitEvent) (s : State) : Prop :=
  Owned s.ownedBy s.nextObj (tr.flatMap objOps)

/-- The step takes the entry of a structure away and leaves the structure: an MQOPEN is recorded for
a key that has one, or the connection that is disconnected has one. -/
def Loses (e : ExitEvent) : Prop :=
  match e.input with
  | .openAfter _ hc od openOptions ho =>
    RecordsOpen od openOptions ∧ e.pre.ownedBy (objectKey hc (some ho)) ≠ none
  | .discBefore hc => ∃ key, BelongsTo key hc ∧ e.pre.ownedBy key ≠ none
  | _ => False

theorem ownedBy_eq_some {s : State} {key : Bytes} {o : ObjAddr} :
    s.ownedBy key = some o ↔ s.objectOptionsMap.lookup key = some (some o) := by
  rw [State.ownedBy, Option.join_eq_some_iff]

theorem ownedBy_eq_none {s : State} {key : Bytes} :
    s.ownedBy key = none ↔ ∀ o, s.objectOptionsMap.lookup key ≠ some (some o) := by
  rw [Option.eq_none_iff_forall_ne_some]
  exact forall_congr' fun o ↦ not_congr ownedBy_eq_some

/-! ### What a step does to the ledger -/

/-- The structures of a step that keeps them all. -/
theorem objOps_of_kept {e : ExitEvent} (hnext : e.post.nextObj = e.pre.nextObj)
    (hlive : ∀ o, (e.post.heap o).isSome = (e.pre.heap o).isSome) : objOps e = [] := by
  have hfreed : ∀ o, ((e.pre.heap o).isSome && (e.post.heap o).isNone) = false := by
    intro o
    rw [← hlive]
    rcases e.post.heap o with - | b <;> rfl
  rw [objOps, hnext, if_neg (lt_irrefl _)]
  simp [hfreed]

theorem objOps_of_allocated {e : ExitEvent} (hnext : e.post.nextObj = e.pre.nextObj + 1)
    (hframe : ∀ o, o ≠ e.pre.nextObj → e.post.heap o = e.pre.heap o) :
    objOps e = [.acquire e.pre.nextObj] := by
  have hfreed : (List.range e.pre.nextObj).filter (fun o ↦
      (e.pre.heap o).isSome && (e.post.heap o).isNone) = [] := by
    rw [List.filter_eq_nil_iff]
    intro o ho
    rw [hframe o (List.mem_range.1 ho).ne]
    rcases e.pre.heap o with - | b <;> simp
  rw [objOps, hfreed, hnext, if_pos (Nat.lt_succ_self _)]
  rfl

theorem objOps_of_freed {e : ExitEvent} {o : ObjAddr} (hnext : e.post.nextObj = e.pre.nextObj)
    (ho : o < e.pre.nextObj) (hlive : (e.pre.heap o).isSome)
    (hheap : e.post.heap = Function.update e.pre.heap o none) : objOps e = [.release o] := by
  have hfreed : (List.range e.pre.nextObj).filter (fun a ↦
      (e.pre.heap a).isSome && (e.post.heap a).isNone) = [o] := by
    have hiff : ∀ a, ((e.pre.heap a).isSome && (e.post.heap a).isNone) = (a == o) := by
      intro a
      rw [hheap]
      rcases eq_or_ne a o with rfl | hne
      · simp [hlive]
      · rw [Function.update_of_ne hne]
        rcases e.pre.heap a with - | b <;> simp [hne]
    rw [List.filter_congr fun a _ ↦ hiff a, List.filter_beq,
      List.count_eq_one_of_mem List.nodup_range (List.mem_range.2 ho)]
    rfl
  rw [objOps, hfreed, hnext, if_neg (lt_irrefl _)]
  rfl

/-! ### The steps -/

/-- A step that keeps the entries and the structures. -/
theorem ownsObjects_of_kept {tr : List ExitEvent} {e : ExitEvent} (h : OwnsObjects tr e.pre)
    (hown : ∀ key, e.post.ownedBy key = e.pre.ownedBy key)
    (hnext : e.post.nextObj = e.pre.nextObj)
    (hlive : ∀ o, (e.post.heap o).isSome = (e.pre.heap o).isSome) :
    OwnsObjects (tr ++ [e]) e.post := by
  rw [OwnsObjects, List.flatMap_append, List.flatMap_singleton, objOps_of_kept hnext hlive,
    List.append_nil, hnext, show e.post.ownedBy = e.pre.ownedBy from funext hown]
  exact h

/-- A step that takes the entry of a structure away without freeing it. -/
theorem not_ownsObjects_of_lost {tr : List ExitEvent} {e : ExitEvent} {key : Bytes} {o : ObjAddr}
    (h : OwnsObjects tr e.pre) (ho : e.pre.ownedBy key = some o)
    (hlost : ∀ k, e.post.ownedBy k ≠ some o) (hnext : e.pre.nextObj ≤ e.post.nextObj)
    (hops : .release o ∉ objOps e) : ¬ OwnsObjects (tr ++ [e]) e.post := by
  intro h'
  have hone := h'.released o ((h.below ho).trans_le hnext) hlost
  rw [List.flatMap_append, List.flatMap_singleton, List.count_append, h.kept ho,
    List.count_eq_zero.2 hops] at hone
  exact absurd hone (by decide)

/-- What a key that gets a new structure owns, and the others. -/
theorem ownedBy_of_insert {s s' : State} {key : Bytes} {o : ObjAddr}
    (map : s'.objectOptionsMap = s.objectOptionsMap.insert key (some o)) :
    s'.ownedBy = Function.update s.ownedBy key (some o) := by
  funext k
  rw [State.ownedBy, map]
  rcases eq_or_ne k key with rfl | hne
  · rw [AList.lookup_insert, Function.update_self]
    rfl
  · rw [AList.lookup_insert_ne hne, Function.update_of_ne hne]
    rfl

/-- A step that enters a new structure keeps the ownership unless the key has one. -/
theorem ownsObjects_allocated_iff {tr : List ExitEvent} {e : ExitEvent} {key : Bytes}
    (h : OwnsObjects tr e.pre)
    (map : e.post.objectOptionsMap = e.pre.objectOptionsMap.insert key (some e.pre.nextObj))
    (hnext : e.post.nextObj = e.pre.nextObj + 1)
    (hframe : ∀ o, o ≠ e.pre.nextObj → e.post.heap o = e.pre.heap o) :
    OwnsObjects (tr ++ [e]) e.post ↔ e.pre.ownedBy key = none := by
  have hown := ownedBy_of_insert map
  rcases hold : e.pre.ownedBy key with - | o
  · refine iff_of_true ?_ rfl
    rw [OwnsObjects, List.flatMap_append, List.flatMap_singleton,
      objOps_of_allocated hnext hframe, hnext, hown]
    exact Owned.acquire h hold
  · -- the old structure is nobody's, and nothing has freed it
    refine iff_of_false ?_ (Option.some_ne_none o)
    refine not_ownsObjects_of_lost h hold (fun k hk ↦ ?_) (hnext ▸ Nat.le_succ _) ?_
    · rw [hown] at hk
      rcases eq_or_ne k key with rfl | hne
      · rw [Function.update_self] at hk
        exact absurd (Option.some.inj hk).symm (h.below hold).ne
      · rw [Function.update_of_ne hne] at hk
        exact hne (h.unshared hk hold)
    · rw [objOps_of_allocated hnext hframe]
      simp

/-- A step that frees the structure of a key, if it has one, and takes its entry away. -/
theorem ownsObjects_of_freed {tr : List ExitEvent} {e : ExitEvent} {key : Bytes}
    {p : Option ObjAddr} {s₁ : State} (hwf : e.pre.WellFormed) (h : OwnsObjects tr e.pre)
    (entry : e.pre.objectOptionsMap.lookup key = some p) (free : mqotFree e.pre p = .ok s₁)
    (erase : e.post = { s₁ with objectOptionsMap := s₁.objectOptionsMap.erase key }) :
    OwnsObjects (tr ++ [e]) e.post := by
  have hown : e.post.ownedBy = Function.update e.pre.ownedBy key none := by
    funext k
    rw [State.ownedBy, erase]
    rcases eq_or_ne k key with rfl | hne
    · rw [AList.lookup_erase, Function.update_self]
      rfl
    · rw [AList.lookup_erase_ne hne, Function.update_of_ne hne, objectOptionsMap_mqotFree free]
      rfl
  rcases p with - | o
  · -- a null pointer: the key owned nothing
    obtain rfl := Except.ok.inj free
    have hnone : e.pre.ownedBy key = none := by
      rw [State.ownedBy, entry]
      rfl
    have hsame : ∀ k, e.post.ownedBy k = e.pre.ownedBy k := fun k ↦ by
      rw [hown, ← hnone, Function.update_eq_self]
    exact ownsObjects_of_kept h hsame (by rw [erase]) fun a ↦ by rw [erase]
  · have ho : e.pre.ownedBy key = some o := ownedBy_eq_some.2 entry
    have hlive := hwf.live key o entry
    simp only [mqotFree, hlive, if_true] at free
    obtain rfl := Except.ok.inj free
    rw [OwnsObjects, List.flatMap_append, List.flatMap_singleton,
      objOps_of_freed (by rw [erase]) (h.below ho) hlive (by rw [erase]), hown,
      show e.post.nextObj = e.pre.nextObj by rw [erase]]
    exact Owned.release h ho

/-- **A call that works on one key** keeps the ownership unless it enters a new structure over the
one the key has. -/
theorem ownsObjects_keyStep {tr : List ExitEvent} {e : ExitEvent} {key : Bytes} {records : Prop}
    (hwf : e.pre.WellFormed) (h : OwnsObjects tr e.pre)
    (hstep : KeyStep key records e.pre e.post) :
    OwnsObjects (tr ++ [e]) e.post ↔ ¬ (records ∧ e.pre.ownedBy key ≠ none) := by
  cases hstep with
  | kept keeps map next live propCtl frame =>
    refine iff_of_true (ownsObjects_of_kept h (fun k ↦ ?_) next live) fun hr ↦ keeps hr.1
    rw [State.ownedBy, map]
    rfl
  | allocated entry map next live frame =>
    rw [ownsObjects_allocated_iff h map next frame, not_and, not_not]
    refine ⟨fun hnone _ ↦ hnone, fun hnone ↦ ?_⟩
    -- where nothing is recorded, the key had no entry at all
    rcases entry with hno | hrecords
    · rw [State.ownedBy, hno]
      rfl
    · exact hnone hrecords
  | freed keeps p s₁ entry free erase =>
    exact iff_of_true (ownsObjects_of_freed hwf h entry free erase) fun hr ↦ keeps hr.1

/-- No structure is stored under the common beginning of the keys. -/
theorem State.WellFormed.lookup_keyStart {s : State} (h : s.WellFormed) (hc : MQHCONN)
    (o : ObjAddr) : s.objectOptionsMap.lookup (keyStart hc) ≠ some (some o) := by
  intro hl
  have hslash : (keyStart hc).getLast? = some 47 := by
    rw [keyStart, List.getLast?_append]
    rfl
  cases (h.null _ _ hl).2 hslash

/-- **A disconnect** keeps it unless the connection has a structure. -/
theorem ownsObjects_discBefore {tr : List ExitEvent} {e : ExitEvent} {hc : MQHCONN}
    (hwf : e.pre.WellFormed) (h : OwnsObjects tr e.pre)
    (hstep : mqotDiscBefore e.pre hc = .ok e.post) :
    OwnsObjects (tr ++ [e]) e.post ↔ ¬ ∃ key, BelongsTo key hc ∧ e.pre.ownedBy key ≠ none := by
  obtain ⟨-, hkeys, hheap, hnext, -, hleft⟩ := mqotDiscBefore_ok (hwf.lookup_keyStart hc) hstep
  have hnone : ∀ key, e.post.ownedBy key = none := fun key ↦ ownedBy_eq_none.2 (hleft key)
  have hlive : ∀ o, (e.post.heap o).isSome = (e.pre.heap o).isSome := fun o ↦ by rw [hheap]
  by_cases hold : ∃ key, BelongsTo key hc ∧ e.pre.ownedBy key ≠ none
  · refine iff_of_false ?_ (not_not_intro hold)
    obtain ⟨key, -, hkey⟩ := hold
    obtain ⟨o, ho⟩ := Option.ne_none_iff_exists'.1 hkey
    refine not_ownsObjects_of_lost h ho (fun k ↦ by simp [hnone]) hnext.ge ?_
    rw [objOps_of_kept hnext hlive]
    exact List.not_mem_nil
  · refine iff_of_true (ownsObjects_of_kept h (fun key ↦ ?_) hnext hlive) hold
    rw [hnone]
    rcases ho : e.pre.ownedBy key with - | o
    · rfl
    · have hl := ownedBy_eq_some.1 ho
      exact absurd ⟨key, hkeys key (by rw [hl]; rfl), by simp [ho]⟩ hold

/-- **One step keeps the ownership exactly when it loses no structure.** -/
theorem ownsObjects_step {tr : List ExitEvent} {s s' : State} {call : ExitCall}
    (hwf : s.WellFormed) (h : OwnsObjects tr s) (hstep : exitStep s call = .ok s') :
    OwnsObjects (tr ++ [⟨s, call, (), s'⟩]) s' ↔ ¬ Loses ⟨s, call, (), s'⟩ := by
  rcases htarget : call.target with - | ⟨hc, ho⟩
  -- the six functions with a key: only `mqotOpenAfter` can put a structure over another one
  swap
  · have hkey := (keyStep_exitStep htarget hstep).1
    rw [ownsObjects_keyStep (e := ⟨s, call, (), s'⟩) hwf h hkey]
    cases call with
    | openAfter env hc od openOptions ho =>
      obtain ⟨rfl, rfl⟩ := Prod.mk.inj (Option.some.inj htarget)
      rfl
    | discBefore hc => cases htarget
    | closeAfter _ _ | putBefore _ _ _ _ _ | putAfter _ _ _ | getBefore _ _ _ _ | getAfter _ _ _
    | put _ _ | get _ _ | application _ _ => exact iff_of_true (fun hr ↦ hr.1) id
  have hkept : (∀ key, s'.ownedBy key = s.ownedBy key) → s'.nextObj = s.nextObj →
      (∀ o, (s'.heap o).isSome = (s.heap o).isSome) →
      OwnsObjects (tr ++ [⟨s, call, (), s'⟩]) s' := fun hown hnext hlive ↦
    ownsObjects_of_kept (e := ⟨s, call, (), s'⟩) h hown hnext hlive
  cases call with
  | discBefore hc => exact ownsObjects_discBefore (e := ⟨s, .discBefore hc, (), s'⟩) hwf h hstep
  | put pp out =>
    obtain rfl := Except.ok.inj hstep
    exact iff_of_true (hkept (fun k ↦ by rw [State.ownedBy, State.modifyPmo_objectOptionsMap]; rfl)
      (s.modifyPmo_nextObj pp _) (s.modifyPmo_isSome pp _)) id
  | get pp out =>
    obtain rfl := Except.ok.inj hstep
    exact iff_of_true (hkept (fun k ↦ by rw [State.ownedBy, State.modifyGmo_objectOptionsMap]; rfl)
      (s.modifyGmo_nextObj pp _) (s.modifyGmo_isSome pp _)) id
  | application appGmo appPmo =>
    obtain rfl := Except.ok.inj hstep
    exact iff_of_true (hkept (fun _ ↦ rfl) rfl fun _ ↦ rfl) id
  | openAfter _ _ _ _ _ | closeAfter _ _ | putBefore _ _ _ _ _ | putAfter _ _ _
  | getBefore _ _ _ _ | getAfter _ _ _ => cases htarget

/-! ### Runs -/

/-- `mqotCloseAfter` always returns, so what it frees is there. -/
theorem State.WellFormed.exists_mqotCloseAfter {s : State} (h : s.WellFormed) (hc : MQHCONN)
    (ho : MQHOBJ) : ∃ s', mqotCloseAfter s hc ho = .ok s' := by
  rcases hl : s.objectOptionsMap.lookup (objectKey hc (some ho)) with - | p
  · exact ⟨s, mqotCloseAfter_of_none hl⟩
  · obtain ⟨s₁, hfree⟩ : ∃ s₁, mqotFree s p = .ok s₁ :=
      exists_mqotFree_iff.2 fun o ho ↦ h.live _ o (hl.trans (congrArg some ho))
    exact ⟨_, (mqotCloseAfter_of_some hl).2 ⟨s₁, hfree, rfl⟩⟩

/-- `mqotDiscBefore` frees null pointers only; where it does not return, it runs for ever. -/
theorem discOptions_error {key : Bytes} {fuel : ℕ} {keys : List Bytes} {s : State} {e : Fault}
    (hnull : ∀ o, s.objectOptionsMap.lookup key ≠ some (some o))
    (h : discOptions key fuel keys s = .error e) : e = .diverges := by
  induction fuel generalizing keys s with
  | zero =>
    cases keys with
    | nil => cases h
    | cons mapKey rest => exact (Except.error.inj h).symm
  | succ fuel ih =>
    cases keys with
    | nil => cases h
    | cons mapKey rest =>
      rw [discOptions] at h
      split_ifs at h
      · obtain ⟨s₁, hpointer, -, -, -, hlookup⟩ := optionsPointer_of_null hnull
        rw [hpointer] at h
        refine ih (fun o ho ↦ ?_) h
        exact hnull o ((hlookup key o).1 (lookup_erase_eq_some.1 ho).2)
      · exact ih hnull h

theorem State.WellFormed.mqotDiscBefore_ne_doubleFree {s : State} (h : s.WellFormed)
    (hc : MQHCONN) : mqotDiscBefore s hc ≠ .error .doubleFree := by
  intro herror
  simp only [mqotDiscBefore] at herror
  split at herror
  · cases herror
  · rename_i hm _
    let s₁ : State := { s with objectHandleMap := hm }
    have hnull : ∀ o, s₁.objectOptionsMap.lookup (keyStart hc) ≠ some (some o) :=
      h.lookup_keyStart hc
    cases discOptions_error hnull herror

/-- **When every structure is owned or freed once.** It is after every call of a run exactly when no
call of the run loses one: no recorded MQOPEN of a key that has a structure, and no disconnect of a
connection that has one. Nothing is ever freed twice. -/
theorem ownsObjects_iff {appGmo : AppAddr → MQGMO} {appPmo : AppAddr → MQPMO}
    {tr : List ExitEvent} {s : State} (hrun : otelModule.Run (State.init appGmo appPmo) tr s) :
    ((∀ before e after, tr = before ++ e :: after → OwnsObjects (before ++ [e]) e.post) ↔
      ∀ e ∈ tr, ¬ Loses e) ∧
    (∀ hc ho, ∃ s', mqotCloseAfter s hc ho = .ok s') ∧
      ∀ hc, mqotDiscBefore s hc ≠ .error .doubleFree := by
  have hwf := wellFormed_of_run hrun
  refine ⟨?_, hwf.exists_mqotCloseAfter, hwf.mqotDiscBefore_ne_doubleFree⟩
  have hnil : OwnsObjects [] (State.init appGmo appPmo) := Owned.nil
  rw [hrun.always_iff (C := fun _ e ↦ ¬ Loses e) hnil fun tr s call s' _ hrun h hstep ↦
    ownsObjects_step (wellFormed_of_run hrun) h (otelModule_step.1 hstep)]
  exact Machine.forall_split_iff_forall_mem

/-! ### A run that loses one -/

/-- A queue opened for input. -/
def inputQueue : MQOD where
  objectType := MQOT_Q
  objectName := lit "Q"
  objectQMgrName := []

/-- MQ gives the handle of a closed object out again. The exit was told of the close with the
handle already unusable, so the record of the first open is still there. -/
def reopenCalls : List ExitCall :=
  [.openAfter (.refusing .sample) 1 inputQueue MQOO_INPUT_SHARED 3,
    .closeAfter 1 MQHO_UNUSABLE_HOBJ,
    .openAfter (.refusing .sample) 1 inputQueue MQOO_INPUT_SHARED 3]

def reopenRun : List ExitEvent × State :=
  (otelModule.replay .plain reopenCalls).getD ([], .plain)

theorem run_reopenRun : otelModule.Run State.plain reopenRun.1 reopenRun.2 :=
  Machine.run_getD_replay rfl

theorem ownsObjects_iff_reopenRun :
    (∀ before e after, reopenRun.1 = before ++ e :: after → OwnsObjects (before ++ [e]) e.post) ↔
      ∀ e ∈ reopenRun.1, ¬ Loses e :=
  (ownsObjects_iff run_reopenRun).1

/-- After the second open nothing has freed the first structure, and no key has it. -/
theorem not_ownsObjects_reopenRun :
    otelModule.Run State.plain reopenRun.1 reopenRun.2 ∧
      ¬ ∀ before e after, reopenRun.1 = before ++ e :: after →
        OwnsObjects (before ++ [e]) e.post := by
  refine ⟨run_reopenRun, fun h ↦ ?_⟩
  have hlast := h (reopenRun.1.take 2) _ [] rfl
  have hmap : reopenRun.2.objectOptionsMap =
      (AList.insert (objectKey 1 (some 3)) (some 0) ∅).insert (objectKey 1 (some 3)) (some 1) := rfl
  have hnone : ∀ key, reopenRun.2.ownedBy key ≠ some 0 := by
    intro key hkey
    rw [State.ownedBy, hmap] at hkey
    rcases eq_or_ne key (objectKey 1 (some 3)) with rfl | hne
    · rw [AList.lookup_insert] at hkey
      exact absurd hkey (by decide)
    · rw [AList.lookup_insert_ne hne, AList.lookup_insert_ne hne] at hkey
      cases hkey
  exact absurd (hlast.released 0 (by decide) hnone) (by decide)

end MqExits.Otel
