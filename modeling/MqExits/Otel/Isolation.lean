import MqExits.Otel.Keys
import MqExits.Otel.Module
import MqExits.Otel.OpenClose

/-!
# The connections do not meet

A call made for one connection leaves what is stored for every other one as it is: the entries, what
they hold and the structures they point to (`connections_isolated`). Three facts carry this:

* a key belongs to one connection (`belongsTo_objectKey`), so the entry a call works on is not
  another connection's. The slash behind the number is what this rests on: without it the handles of
  connection 11 would be under keys that begin like those of connection 1;
* no two entries share a structure (`State.WellFormed`), so what a call writes through its entry, or
  frees, is not another connection's either;
* what a call does to its entry is one of three things (`KeyStep`), and a handle is created under
  the key of its own connection only.

`mqotDiscBefore` is not among these calls. It looks at every entry of both maps, and does not return
where one of them belongs to another connection; what it leaves is the subject of a module of its
own.
-/

namespace MqExits.Otel

open CText Outcome

/-- The entries of a key and what they point to are the same in both states. -/
structure SameEntry (key : Bytes) (s s' : State) : Prop where
  handle : s'.objectHandleMap.lookup key = s.objectHandleMap.lookup key
  options : s'.objectOptionsMap.lookup key = s.objectOptionsMap.lookup key
  contents : ∀ o, s.objectOptionsMap.lookup key = some (some o) → s'.heap o = s.heap o

/-- A call that works on one key leaves the options of the others alone. -/
theorem KeyStep.lookup_ne {key key' : Bytes} {records : Prop} {s s' : State}
    (hstep : KeyStep key records s s') (hne : key' ≠ key) :
    s'.objectOptionsMap.lookup key' = s.objectOptionsMap.lookup key' := by
  cases hstep with
  | kept keeps map next live propCtl frame => rw [map]
  | allocated entry map next live frame => rw [map, AList.lookup_insert_ne hne]
  | freed keeps p s₁ entry free erase =>
    rw [erase, AList.lookup_erase_ne hne, objectOptionsMap_mqotFree free]

/-- And their structures. -/
theorem KeyStep.heap_ne {key key' : Bytes} {records : Prop} {s s' : State}
    (hstep : KeyStep key records s s') (h : s.WellFormed) (hne : key' ≠ key) {o : ObjAddr}
    (ho : s.objectOptionsMap.lookup key' = some (some o)) : s'.heap o = s.heap o := by
  cases hstep with
  | kept keeps map next live propCtl frame =>
    exact frame o fun h' ↦ hne (h.unshared key' key o ho h')
  | allocated entry map next live frame => exact frame o (h.ne_nextObj ho)
  | freed keeps p s₁ entry free erase =>
    rw [erase]
    refine heap_mqotFree_ne free fun hp ↦ ?_
    rw [hp] at entry
    exact hne (h.unshared key' key o ho entry)

/-- Asking for the handle of a connection leaves the handles of the others alone. -/
theorem lookup_getMsgHandle_ne {env : Env} {s : State} {hc : MQHCONN} {ho : Option MQHOBJ}
    {key : Bytes} (hne : key ≠ objectKey hc ho) :
    (getMsgHandle env s hc ho).2.objectHandleMap.lookup key = s.objectHandleMap.lookup key := by
  rcases getMsgHandle_cases env s hc ho with ⟨mh, hm, heq, -, hother, -⟩ | ⟨heq, -⟩
  · rw [heq]
    exact hother key hne
  · rw [heq]

/-- **A call for one connection leaves the entries of the others alone.** -/
theorem sameEntry_exitStep {s s' : State} {call : ExitCall} {hc hc' : MQHCONN}
    {ho : Option MQHOBJ} {key : Bytes} (h : s.WellFormed) (htarget : call.target = some (hc, ho))
    (hstep : exitStep s call = .ok s') (hne : hc' ≠ hc) (hkey : BelongsTo key hc') :
    SameEntry key s s' := by
  have hother : ∀ ho, key ≠ objectKey hc ho := by
    rintro ho rfl
    exact hne (hkey.unique (belongsTo_objectKey.2 rfl))
  obtain ⟨hoptions, hhandle⟩ := keyStep_exitStep htarget hstep
  refine ⟨?_, hoptions.lookup_ne (hother ho), fun o ↦ hoptions.heap_ne h (hother ho)⟩
  rcases hhandle with heq | ⟨env, heq⟩
  · rw [heq]
  · rw [heq, lookup_getMsgHandle_ne (hother none)]

/-- **The connections are isolated.** Keys are equal exactly for one connection and one object, a
key starts with a connection exactly when it was made from it, and in every state the module can
reach a call for one connection leaves the entries of every other one, and what they point to, as
they are. -/
theorem connections_isolated {appGmo : AppAddr → MQGMO} {appPmo : AppAddr → MQPMO}
    {tr : List (Machine.Event State ExitCall Unit)} {s : State}
    (hrun : otelModule.Run (State.init appGmo appPmo) tr s) :
    (∀ hc hc' ho ho', objectKey hc ho = objectKey hc' ho' ↔
      hc = hc' ∧ (ho = ho' ∨ NoObject ho ∧ NoObject ho')) ∧
    (∀ hc hc' ho, toDecimal hc ++ lit "/" <+: objectKey hc' ho ↔ hc' = hc) ∧
    ∀ call s' hc ho, ExitCall.target call = some (hc, ho) → exitStep s call = .ok s' →
      ∀ hc' ≠ hc, ∀ key, BelongsTo key hc' → SameEntry key s s' :=
  ⟨fun _ _ _ _ ↦ objectKey_inj, fun _ _ _ ↦ belongsTo_objectKey,
    fun _ _ _ _ htarget hstep _ hne _ hkey ↦
      sameEntry_exitStep (wellFormed_of_run hrun) htarget hstep hne hkey⟩

/-- Two connections open an object and get the same handle, with different PROPCTL values. -/
def twoConnectionsCalls : List ExitCall :=
  [.openAfter { Env.creating .sample with reopen := fun _ _ _ ↦ some 4, inq := fun _ _ ↦ some 1 }
      1 queueForInput MQOO_INPUT_SHARED 3,
    .openAfter { Env.creating .sample with reopen := fun _ _ _ ↦ some 4, inq := fun _ _ ↦ some 2 }
      11 queueForInput MQOO_INPUT_SHARED 3]

def twoConnectionsRun : List (Machine.Event State ExitCall Unit) × State :=
  (otelModule.replay .plain twoConnectionsCalls).getD ([], .plain)

theorem run_twoConnectionsRun :
    otelModule.Run State.plain twoConnectionsRun.1 twoConnectionsRun.2 :=
  Machine.run_getD_replay rfl

/-- Closing object 3 of connection 1 discards its entry, and leaves that of object 3 of connection
11 with its structure. -/
theorem connections_isolated_twoConnections :
    ∃ s', exitStep twoConnectionsRun.2 (.closeAfter 1 3) = .ok s' ∧
      SameEntry (objectKey 11 (some 3)) twoConnectionsRun.2 s' ∧
      s'.objectOptionsMap.lookup (objectKey 1 (some 3)) = none ∧
      ∃ o, s'.objectOptionsMap.lookup (objectKey 11 (some 3)) = some (some o) ∧
        (s'.heap o).map (·.propCtl) = some 2 := by
  have hsame (s' : State) (hstep : exitStep twoConnectionsRun.2 (.closeAfter 1 3) = .ok s') :
      SameEntry (objectKey 11 (some 3)) twoConnectionsRun.2 s' :=
    (connections_isolated run_twoConnectionsRun).2.2 _ s' 1 (some 3) rfl hstep 11 (by decide) _
      (belongsTo_objectKey.2 rfl)
  have hentry : twoConnectionsRun.2.objectOptionsMap.lookup (objectKey 11 (some 3)) =
      some (some 1) := rfl
  have hheap : (twoConnectionsRun.2.heap 1).map (·.propCtl) = some 2 := rfl
  obtain ⟨s', hstep, hgone⟩ : ∃ s', exitStep twoConnectionsRun.2 (.closeAfter 1 3) = .ok s' ∧
      s'.objectOptionsMap.lookup (objectKey 1 (some 3)) = none := ⟨_, rfl, rfl⟩
  have hsame := hsame s' hstep
  refine ⟨s', hstep, hsame, hgone, 1, hsame.options.trans hentry, ?_⟩
  rw [hsame.contents 1 hentry]
  exact hheap

end MqExits.Otel
