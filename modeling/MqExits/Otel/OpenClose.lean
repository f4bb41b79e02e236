import MqExits.Otel.Effects
import MqExits.Otel.Keys

/-!
# Opening and closing, and the entry that is shared

The unusable object handle stands for no object, and its key is the one that MQPUT1 and all
synchronous MQGETs of a connection share. It is also what a queue manager leaves in the variable of
an MQOPEN that has failed and of an MQCLOSE that has completed. Neither `mqotOpenAfter` nor
`mqotCloseAfter` looks at what the call has come to, so a failed open of a queue for input takes the
shared entry for its own (`keepsOptions_iff`), and a close discards that entry in place of the
object's (`discardsOwn_iff`).

## What is asked of a close

The entry of the object is gone, the others are there, and no structure but the object's own has
changed (`DiscardsOwn`). If the variable still has the handle, that is so wherever the structure can
be freed. If it has the unusable handle, it is so only where there was nothing to do: no entry of
the object, and no shared one.
-/

namespace MqExits.Otel

open CText Outcome

/-! ### A failed MQOPEN -/

/-- The exit after a failed open leaves the map as it was. -/
def KeepsOptions (env : Env) (s : State) (hc : MQHCONN) (od : MQOD) (openOptions : BitVec 32) :
    Prop :=
  ∀ key, (mqotOpenAfter env s hc od openOptions MQHO_UNUSABLE_HOBJ).objectOptionsMap.lookup key =
    s.objectOptionsMap.lookup key

/-- The entry that an open records. -/
theorem lookup_mqotOpenAfter (env : Env) (s : State) (hc : MQHCONN) (ho : MQHOBJ) {od : MQOD}
    {openOptions : BitVec 32} (h : RecordsOpen od openOptions) :
    (mqotOpenAfter env s hc od openOptions ho).objectOptionsMap.lookup (objectKey hc (some ho)) =
      some (some s.nextObj) := by
  rw [mqotOpenAfter, if_pos (show _ ∧ _ from h)]
  exact AList.lookup_insert _

/-- **When a failed open leaves the map alone**: exactly if it is none that is recorded. What the
queue manager answers to the exit makes no difference. -/
theorem keepsOptions_iff {env : Env} {s : State} {hc : MQHCONN} {od : MQOD}
    {openOptions : BitVec 32}
    (hfresh : s.objectOptionsMap.lookup (objectKey hc none) ≠ some (some s.nextObj)) :
    KeepsOptions env s hc od openOptions ↔ ¬ RecordsOpen od openOptions := by
  constructor
  · intro h hrecords
    have hshared := h (objectKey hc (some MQHO_UNUSABLE_HOBJ))
    rw [lookup_mqotOpenAfter env s hc _ hrecords, objectKey_unusable] at hshared
    exact hfresh hshared.symm
  · intro hnot key
    rw [mqotOpenAfter, if_neg (show ¬ (_ ∧ _) from hnot)]

/-- A queue that an application opens for input. -/
def queueForInput : MQOD := ⟨MQOT_Q, lit "DEV.QUEUE.1", []⟩

theorem keepsOptions_iff_queue :
    KeepsOptions (.refusing .sample) .plain 1 queueForInput MQOO_INPUT_SHARED ↔
      ¬ RecordsOpen queueForInput MQOO_INPUT_SHARED :=
  keepsOptions_iff (by decide)

/-- A synchronous MQGET has entered the structure at 0 for connection 1. -/
def State.shared : State :=
  { State.plain with
    objectOptionsMap := AList.insert (objectKey 1 none) (some 0) ∅
    heap := Function.update (fun _ ↦ none) 0 (some ⟨7, .null, .null, MQPMO_DEFAULT, MQGMO_DEFAULT⟩)
    nextObj := 1 }

theorem lookup_shared :
    State.shared.objectOptionsMap.lookup (objectKey 1 none) = some (some 0) :=
  AList.lookup_insert _

/-- The failed open of a queue puts another structure in its place. -/
theorem not_keepsOptions_shared :
    ¬ KeepsOptions (.refusing .sample) .shared 1 queueForInput MQOO_INPUT_SHARED := by
  intro h
  have hrecorded := lookup_mqotOpenAfter (.refusing .sample) .shared 1 MQHO_UNUSABLE_HOBJ
    (show RecordsOpen queueForInput MQOO_INPUT_SHARED by decide)
  rw [h, objectKey_unusable, lookup_shared] at hrecorded
  exact absurd (Option.some.inj (Option.some.inj hrecorded)) (by decide)

/-! ### A completed MQCLOSE -/

/-- The entry of the key is gone, and nothing else is: the other entries are as they were, and so
are the structures, but for the key's own. -/
structure DiscardsOwn (key : Bytes) (s s' : State) : Prop where
  own : s'.objectOptionsMap.lookup key = none
  others : ∀ key', key' ≠ key → s'.objectOptionsMap.lookup key' = s.objectOptionsMap.lookup key'
  structures : ∀ o, s.objectOptionsMap.lookup key ≠ some (some o) → s'.heap o = s.heap o

/-- A structure that the key has is there. -/
def HasLive (s : State) (key : Bytes) : Prop :=
  ∀ o, s.objectOptionsMap.lookup key = some (some o) → (s.heap o).isSome

/-- Where the call returns, the key that it looks at has no entry any more. -/
theorem lookup_mqotCloseAfter {s s' : State} {hc : MQHCONN} {ho : MQHOBJ}
    (h : mqotCloseAfter s hc ho = .ok s') :
    s'.objectOptionsMap.lookup (objectKey hc (some ho)) = none := by
  rcases hl : s.objectOptionsMap.lookup (objectKey hc (some ho)) with - | p
  · rw [mqotCloseAfter_of_none hl] at h
    rw [← Except.ok.inj h, hl]
  · obtain ⟨s₁, -, rfl⟩ := (mqotCloseAfter_of_some hl).1 h
    exact AList.lookup_erase _ _

/-- With the handle of the object the right entry is discarded, if the structure can be freed. -/
theorem discardsOwn_self_iff {s : State} {hc : MQHCONN} {ho : MQHOBJ} :
    (∃ s', mqotCloseAfter s hc ho = .ok s' ∧ DiscardsOwn (objectKey hc (some ho)) s s') ↔
      HasLive s (objectKey hc (some ho)) := by
  rcases hl : s.objectOptionsMap.lookup (objectKey hc (some ho)) with - | p
  · refine iff_of_true ⟨s, mqotCloseAfter_of_none hl, hl, fun _ _ ↦ rfl, fun _ _ ↦ rfl⟩ ?_
    intro o ho
    rw [hl] at ho
    cases ho
  · simp only [mqotCloseAfter_of_some hl, HasLive, hl, Option.some.injEq]
    rw [← exists_mqotFree_iff]
    constructor
    · rintro ⟨s', ⟨s₁, hfree, -⟩, -⟩
      exact ⟨s₁, hfree⟩
    · rintro ⟨s₁, hfree⟩
      refine ⟨_, ⟨s₁, hfree, rfl⟩, AList.lookup_erase _ _, fun key' hne ↦ ?_, fun o ho ↦ ?_⟩
      · rw [AList.lookup_erase_ne hne, objectOptionsMap_mqotFree hfree]
      · rw [hl] at ho
        exact heap_mqotFree_ne hfree fun hp ↦ ho (congrArg some hp)

/-- With the unusable handle it is the shared entry that is discarded, so there may be neither that
nor one of the object's. -/
theorem discardsOwn_unusable_iff {s : State} {hc : MQHCONN} {ho : MQHOBJ}
    (hho : ho ≠ MQHO_UNUSABLE_HOBJ) :
    (∃ s', mqotCloseAfter s hc MQHO_UNUSABLE_HOBJ = .ok s' ∧
      DiscardsOwn (objectKey hc (some ho)) s s') ↔
      s.objectOptionsMap.lookup (objectKey hc (some ho)) = none ∧
        s.objectOptionsMap.lookup (objectKey hc none) = none := by
  have hne : objectKey hc none ≠ objectKey hc (some ho) := by
    intro heq
    rcases (objectKey_inj.1 heq).2 with h | ⟨-, h⟩
    · cases h
    · rcases h with h | h
      · cases h
      · exact hho (Option.some.inj h)
  constructor
  · rintro ⟨s', hclose, hown⟩
    have hshared := lookup_mqotCloseAfter hclose
    rw [objectKey_unusable, hown.others _ hne] at hshared
    rw [mqotCloseAfter_of_none (by rwa [objectKey_unusable])] at hclose
    obtain rfl := Except.ok.inj hclose
    exact ⟨hown.own, hshared⟩
  · rintro ⟨hown, hshared⟩
    exact ⟨s, mqotCloseAfter_of_none (by rwa [objectKey_unusable]), hown, fun _ _ ↦ rfl,
      fun _ _ ↦ rfl⟩

/-- **When a close discards the entry of its object and no other.** -/
theorem discardsOwn_iff {s : State} {hc : MQHCONN} {ho left : MQHOBJ}
    (hho : ho ≠ MQHO_UNUSABLE_HOBJ) (hleft : left = ho ∨ left = MQHO_UNUSABLE_HOBJ) :
    (∃ s', mqotCloseAfter s hc left = .ok s' ∧ DiscardsOwn (objectKey hc (some ho)) s s') ↔
      if left = ho then HasLive s (objectKey hc (some ho))
      else s.objectOptionsMap.lookup (objectKey hc (some ho)) = none ∧
        s.objectOptionsMap.lookup (objectKey hc none) = none := by
  rcases hleft with rfl | rfl
  · rw [if_pos rfl]
    exact discardsOwn_self_iff
  · rw [if_neg hho.symm]
    exact discardsOwn_unusable_iff hho

theorem discardsOwn_iff_shared :
    (∃ s', mqotCloseAfter .shared 1 MQHO_UNUSABLE_HOBJ = .ok s' ∧
      DiscardsOwn (objectKey 1 (some 3)) .shared s') ↔
      if MQHO_UNUSABLE_HOBJ = 3 then HasLive .shared (objectKey 1 (some 3))
      else State.shared.objectOptionsMap.lookup (objectKey 1 (some 3)) = none ∧
        State.shared.objectOptionsMap.lookup (objectKey 1 none) = none :=
  discardsOwn_iff (by decide) (Or.inr rfl)

/-- The close of object 3 discards the entry that the connection shares. -/
theorem not_discardsOwn_shared :
    ¬ ∃ s', mqotCloseAfter .shared 1 MQHO_UNUSABLE_HOBJ = .ok s' ∧
      DiscardsOwn (objectKey 1 (some 3)) .shared s' := by
  rw [discardsOwn_unusable_iff (by decide)]
  rintro ⟨-, hshared⟩
  rw [lookup_shared] at hshared
  cases hshared

end MqExits.Otel
