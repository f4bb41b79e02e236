import MqExits.Otel.Keys
import MqExits.Otel.Open

/-!
# What `mqotDiscBefore` leaves

Its two loops move on only past an entry that they erase, so it returns only where every entry of
both maps is one of the connection's (`mqotDiscBefore_ok`). It then leaves no entry with a
structure, and it has freed none of them: the pointer it frees is the one stored under the common
beginning of the keys, where no structure ever is.

For maps with any keys at all, `loopsEnd_iff` says when the loops end, and `discarded_iff` when the
maps are then left as they should be: only where there is no entry but one that no call makes.

## The order of the keys

The loops go through the keys as the map orders them. The common beginning of a connection's keys
comes before all that begin so, which matters twice: if it is a key, the second loop comes to it
first, and frees what it should; and if it is none, the lookup `objectOptionsMap[key]` of the first
round enters a null pointer under it, before the iterator and so out of its sight. That pointer is
what is left in the map at the end.

## The number of rounds

The loops are given a number of rounds. `LoopsEnd` asks for any number with which they end, and
`loopsEnd_of_mqotDiscBefore` shows that the number that is used is large enough, so that not to
return means to go on for ever.
-/

namespace MqExits.Otel

open CText Outcome

/-- The first loop ends only where every key starts so, and then it has erased them all. -/
theorem discHandles_eq_some {key : Bytes} {fuel : ℕ} {keys : List Bytes}
    {m m' : AList fun _ : Bytes ↦ MsgHandle} (h : discHandles key fuel keys m = some m') :
    (∀ k ∈ keys, key <+: k) ∧ ∀ k mh, m'.lookup k = some mh → k ∉ keys ∧ m.lookup k = some mh := by
  induction keys generalizing fuel m with
  | nil =>
    rw [discHandles_nil] at h
    obtain rfl := Option.some.inj h
    exact ⟨by simp, by simp⟩
  | cons mapKey rest ih =>
    obtain ⟨hstart, fuel', hloop⟩ := discHandles_cons h
    obtain ⟨hrest, hlookup⟩ := ih hloop
    refine ⟨List.forall_mem_cons.2 ⟨hstart, hrest⟩, fun k mh hk ↦ ?_⟩
    obtain ⟨hnot, hold⟩ := hlookup k mh hk
    obtain ⟨hne, hold⟩ := lookup_erase_eq_some.1 hold
    exact ⟨by simp [hne, hnot], hold⟩

/-- One look at `objectOptionsMap[key]` where no structure is: it yields a null pointer, and enters
one at most. -/
theorem optionsPointer_of_null {s : State} {key : Bytes}
    (hnull : ∀ o, s.objectOptionsMap.lookup key ≠ some (some o)) :
    ∃ s₁, optionsPointer s key = (none, s₁) ∧ s₁.heap = s.heap ∧ s₁.nextObj = s.nextObj ∧
      s₁.objectHandleMap = s.objectHandleMap ∧
      ∀ k o, s₁.objectOptionsMap.lookup k = some (some o) ↔
        s.objectOptionsMap.lookup k = some (some o) := by
  rcases hl : s.objectOptionsMap.lookup key with - | (- | o)
  · have heq : optionsPointer s key =
        (none, { s with objectOptionsMap := s.objectOptionsMap.insert key none }) := by
      rw [optionsPointer, hl]
    refine ⟨_, heq, rfl, rfl, rfl, fun k o ↦ ?_⟩
    rcases eq_or_ne k key with rfl | hne
    · rw [AList.lookup_insert, hl]
      simp
    · rw [AList.lookup_insert_ne hne]
  · exact ⟨s, by rw [optionsPointer, hl], rfl, rfl, rfl, fun _ _ ↦ Iff.rfl⟩
  · exact absurd hl (hnull o)

/-- The second loop ends only where every key starts so, whatever it frees. -/
theorem forall_of_discOptions {key : Bytes} {fuel : ℕ} {keys : List Bytes} {s s' : State}
    (h : discOptions key fuel keys s = .ok s') : ∀ k ∈ keys, key <+: k := by
  induction keys generalizing fuel s with
  | nil => simp
  | cons mapKey rest ih =>
    obtain ⟨hstart, fuel', s₁, -, hloop⟩ := discOptions_cons h
    exact List.forall_mem_cons.2 ⟨hstart, ih hloop⟩

/-- Where no structure is under the common beginning, the structures of the entries that the second
loop has erased are all still there. -/
theorem discOptions_ok {key : Bytes} {fuel : ℕ} {keys : List Bytes} {s s' : State}
    (hnull : ∀ o, s.objectOptionsMap.lookup key ≠ some (some o))
    (h : discOptions key fuel keys s = .ok s') :
    s'.heap = s.heap ∧ s'.nextObj = s.nextObj ∧ s'.objectHandleMap = s.objectHandleMap ∧
      ∀ k o, s'.objectOptionsMap.lookup k = some (some o) →
        k ∉ keys ∧ s.objectOptionsMap.lookup k = some (some o) := by
  induction keys generalizing fuel s with
  | nil =>
    rw [discOptions_nil] at h
    obtain rfl := Except.ok.inj h
    exact ⟨rfl, rfl, rfl, by simp⟩
  | cons mapKey rest ih =>
    obtain ⟨-, fuel', s₂, hfree, hloop⟩ := discOptions_cons h
    -- the pointer that is freed is null, and the look-up enters no more than a null pointer
    obtain ⟨s₁, hpointer, hheap, hnext, hhandles, hlookup⟩ := optionsPointer_of_null hnull
    rw [hpointer] at hfree
    obtain rfl := Except.ok.inj hfree
    have herase : ∀ k o, (s₁.objectOptionsMap.erase mapKey).lookup k = some (some o) →
        k ≠ mapKey ∧ s.objectOptionsMap.lookup k = some (some o) := fun k o hk ↦ by
      rwa [lookup_erase_eq_some, hlookup] at hk
    obtain ⟨hheap', hnext', hhandles', hlookup'⟩ :=
      ih (fun o ho ↦ hnull o (herase key o ho).2) hloop
    refine ⟨hheap'.trans hheap, hnext'.trans hnext, hhandles'.trans hhandles, fun k o hk ↦ ?_⟩
    obtain ⟨hnot, hold⟩ := hlookup' k o hk
    obtain ⟨hne, hold⟩ := herase k o hold
    exact ⟨by simp [hne, hnot], hold⟩

theorem mem_keysInOrder {α : Type} {m : AList fun _ : Bytes ↦ α} {key : Bytes} :
    key ∈ keysInOrder m ↔ (m.lookup key).isSome := by
  rw [keysInOrder, List.mem_insertionSort, AList.lookup_isSome]
  exact AList.mem_keys.symm

/-- Both loops have ended, from the entries in order. -/
theorem exists_discOptions {s s' : State} {hc : MQHCONN} (h : mqotDiscBefore s hc = .ok s') :
    ∃ hm, discHandles (keyStart hc) (keysInOrder s.objectHandleMap).length
        (keysInOrder s.objectHandleMap) s.objectHandleMap = some hm ∧
      discOptions (keyStart hc) (keysInOrder s.objectOptionsMap).length
        (keysInOrder s.objectOptionsMap) { s with objectHandleMap := hm } = .ok s' := by
  simp only [mqotDiscBefore] at h
  split at h
  · cases h
  · rename_i hm hhandles
    exact ⟨hm, hhandles, h⟩

/-- The first loop leaves no handle. -/
theorem lookup_of_discHandles {key : Bytes} {fuel : ℕ} {m m' : AList fun _ : Bytes ↦ MsgHandle}
    (h : discHandles key fuel (keysInOrder m) m = some m') (k : Bytes) : m'.lookup k = none := by
  rcases hl : m'.lookup k with - | mh
  · rfl
  · obtain ⟨hnot, hold⟩ := (discHandles_eq_some h).2 k mh hl
    exact absurd (mem_keysInOrder.2 (by rw [hold]; rfl)) hnot

/-- **What a call of `mqotDiscBefore` that returns has done.** Every entry was one of the
connection's, and no handle and no structure is entered any more; but no structure has been
freed. -/
theorem mqotDiscBefore_ok {s s' : State} {hc : MQHCONN}
    (hnull : ∀ o, s.objectOptionsMap.lookup (keyStart hc) ≠ some (some o))
    (h : mqotDiscBefore s hc = .ok s') :
    (∀ key, (s.objectHandleMap.lookup key).isSome → BelongsTo key hc) ∧
      (∀ key, (s.objectOptionsMap.lookup key).isSome → BelongsTo key hc) ∧
      s'.heap = s.heap ∧ s'.nextObj = s.nextObj ∧
      (∀ key, s'.objectHandleMap.lookup key = none) ∧
      ∀ key o, s'.objectOptionsMap.lookup key ≠ some (some o) := by
  obtain ⟨hm, hhandles, hoptions⟩ := exists_discOptions h
  have hstart := (discHandles_eq_some hhandles).1
  have hstart' := forall_of_discOptions hoptions
  obtain ⟨hheap, hnext, hmap, hleft⟩ :=
    discOptions_ok (s := { s with objectHandleMap := hm }) hnull hoptions
  refine ⟨fun key hk ↦ hstart key (mem_keysInOrder.2 hk),
    fun key hk ↦ hstart' key (mem_keysInOrder.2 hk), hheap, hnext, fun key ↦ ?_, fun key o hk ↦ ?_⟩
  · rw [hmap]
    exact lookup_of_discHandles hhandles key
  · obtain ⟨hnot, hold⟩ := hleft key o hk
    exact hnot (mem_keysInOrder.2 (by rw [hold]; rfl))

/-! ### Whether the loops end -/

/-- Both loops end, after as many iterations as it takes. -/
def LoopsEnd (s : State) (hc : MQHCONN) : Prop :=
  ∃ n hm, discHandles (keyStart hc) n (keysInOrder s.objectHandleMap) s.objectHandleMap = some hm ∧
    ∃ n' s', discOptions (keyStart hc) n' (keysInOrder s.objectOptionsMap)
      { s with objectHandleMap := hm } = .ok s'

/-- The first loop ends if every key starts so, after one iteration for each. -/
theorem discHandles_of_forall {key : Bytes} {keys : List Bytes}
    (hall : ∀ k ∈ keys, key <+: k) (m : AList fun _ : Bytes ↦ MsgHandle) :
    ∃ m', discHandles key keys.length keys m = some m' := by
  induction keys generalizing m with
  | nil => exact ⟨m, rfl⟩
  | cons mapKey rest ih =>
    obtain ⟨hstart, hrest⟩ := List.forall_mem_cons.1 hall
    rw [List.length_cons, discHandles, if_pos (find_eq_zero_iff.2 hstart)]
    exact ih hrest _

/-- The second loop ends if every key starts so and no structure is under the common beginning. -/
theorem discOptions_of_forall {key : Bytes} {keys : List Bytes} {s : State}
    (hall : ∀ k ∈ keys, key <+: k)
    (hnull : ∀ o, s.objectOptionsMap.lookup key ≠ some (some o)) :
    ∃ s', discOptions key keys.length keys s = .ok s' := by
  induction keys generalizing s with
  | nil => exact ⟨s, rfl⟩
  | cons mapKey rest ih =>
    obtain ⟨hstart, hrest⟩ := List.forall_mem_cons.1 hall
    obtain ⟨s₁, hpointer, -, -, -, hlookup⟩ := optionsPointer_of_null hnull
    have hfree : mqotFree s₁ none = .ok s₁ := rfl
    rw [List.length_cons, discOptions_succ_cons hstart hpointer hfree]
    refine ih hrest fun o ho ↦ ?_
    exact hnull o ((hlookup key o).1 (lookup_erase_eq_some.1 ho).2)

/-- The common beginning of the keys, if it is a key, comes first. -/
theorem keysInOrder_eq_cons {α : Type} {m : AList fun _ : Bytes ↦ α} {key : Bytes}
    (hkey : key ∈ keysInOrder m) (hall : ∀ k ∈ keysInOrder m, key <+: k) :
    ∃ rest, keysInOrder m = key :: rest := by
  have hsorted : (keysInOrder m).Pairwise (· ≤ ·) := List.pairwise_insertionSort _ _
  rcases hkeys : keysInOrder m with - | ⟨k, rest⟩
  · simp [hkeys] at hkey
  · rw [hkeys] at hkey hall hsorted
    obtain ⟨t, rfl⟩ := hall k List.mem_cons_self
    have hle : key ++ t ≤ key := by
      rcases List.mem_cons.1 hkey with heq | hmem
      · exact heq ▸ List.le_refl _
      · exact (List.pairwise_cons.1 hsorted).1 key hmem
    rw [List.le_antisymm hle List.le_append_left]
    exact ⟨rest, rfl⟩

/-- What the two maps hold is the connection's, and a structure that is entered under the common
beginning of its keys, if any, can be freed. -/
structure HoldsOnly (s : State) (hc : MQHCONN) : Prop where
  handles : ∀ key, (s.objectHandleMap.lookup key).isSome → BelongsTo key hc
  options : ∀ key, (s.objectOptionsMap.lookup key).isSome → BelongsTo key hc
  live : ∀ o, s.objectOptionsMap.lookup (keyStart hc) = some (some o) → (s.heap o).isSome

theorem keysInOrder_of_lookup {s : State} {key : Bytes} {o : ObjAddr}
    (ho : s.objectOptionsMap.lookup key = some (some o))
    (hall : ∀ k ∈ keysInOrder s.objectOptionsMap, key <+: k) :
    ∃ rest, keysInOrder s.objectOptionsMap = key :: rest :=
  keysInOrder_eq_cons (mem_keysInOrder.2 (by rw [ho]; rfl)) hall

theorem LoopsEnd.holdsOnly {s : State} {hc : MQHCONN} (h : LoopsEnd s hc) : HoldsOnly s hc := by
  obtain ⟨n, hm, hhandles, n', s', hoptions⟩ := h
  have hall := forall_of_discOptions hoptions
  refine ⟨fun key hk ↦ (discHandles_eq_some hhandles).1 key (mem_keysInOrder.2 hk),
    fun key hk ↦ hall key (mem_keysInOrder.2 hk), fun o ho ↦ ?_⟩
  obtain ⟨rest, hkeys⟩ := keysInOrder_of_lookup ho hall
  rw [hkeys] at hoptions
  obtain ⟨-, -, s₁, hfree, -⟩ := discOptions_cons hoptions
  rw [optionsPointer_of_some (s := { s with objectHandleMap := hm }) ho] at hfree
  exact exists_mqotFree_iff.1 ⟨s₁, hfree⟩ o rfl

/-- Then `mqotDiscBefore` returns, after one iteration for each entry. -/
theorem HoldsOnly.mqotDiscBefore {s : State} {hc : MQHCONN} (h : HoldsOnly s hc) :
    ∃ s', Otel.mqotDiscBefore s hc = .ok s' := by
  have hhandles : ∀ k ∈ keysInOrder s.objectHandleMap, keyStart hc <+: k :=
    fun k hk ↦ h.handles k (mem_keysInOrder.1 hk)
  obtain ⟨hm, hm'⟩ := discHandles_of_forall hhandles s.objectHandleMap
  have hall : ∀ k ∈ keysInOrder s.objectOptionsMap, keyStart hc <+: k :=
    fun k hk ↦ h.options k (mem_keysInOrder.1 hk)
  have hsecond : ∃ s', discOptions (keyStart hc) (keysInOrder s.objectOptionsMap).length
      (keysInOrder s.objectOptionsMap) { s with objectHandleMap := hm } = .ok s' := by
    by_cases hnull : ∀ o, s.objectOptionsMap.lookup (keyStart hc) ≠ some (some o)
    · exact discOptions_of_forall hall hnull
    · -- a structure under the common beginning: it is freed in the first iteration, and only there
      obtain ⟨o, ho⟩ := not_forall_not.1 hnull
      obtain ⟨rest, hkeys⟩ := keysInOrder_of_lookup ho hall
      let s₁ : State := { s with objectHandleMap := hm }
      have hpointer : optionsPointer s₁ (keyStart hc) = (some o, s₁) := optionsPointer_of_some ho
      obtain ⟨s₂, hfree⟩ : ∃ s₂, mqotFree s₁ (some o) = .ok s₂ :=
        exists_mqotFree_iff.2 fun o' ho' ↦ h.live o' (ho' ▸ ho)
      rw [hkeys] at hall ⊢
      rw [List.length_cons, discOptions_succ_cons List.prefix_rfl hpointer hfree]
      exact discOptions_of_forall (List.forall_mem_cons.1 hall).2
        fun o ho ↦ (lookup_erase_eq_some.1 ho).1 rfl
  obtain ⟨s', hs'⟩ := hsecond
  refine ⟨s', ?_⟩
  simp only [Otel.mqotDiscBefore]
  rw [show toDecimal hc ++ lit "/" = keyStart hc from rfl, hm']
  exact hs'

/-- The iterations that `mqotDiscBefore` is given are enough, if any number is. -/
theorem loopsEnd_of_mqotDiscBefore {s s' : State} {hc : MQHCONN}
    (h : mqotDiscBefore s hc = .ok s') : LoopsEnd s hc := by
  obtain ⟨hm, hhandles, hoptions⟩ := exists_discOptions h
  exact ⟨_, hm, hhandles, _, s', hoptions⟩

/-- **The loops end exactly if every entry of both maps is one of the connection's**, and a
structure that is entered under the common beginning of its keys, if any, can be freed. -/
theorem loopsEnd_iff (s : State) (hc : MQHCONN) : LoopsEnd s hc ↔ HoldsOnly s hc := by
  constructor
  · exact LoopsEnd.holdsOnly
  · intro h
    obtain ⟨s', hs'⟩ := h.mqotDiscBefore
    exact loopsEnd_of_mqotDiscBefore hs'

/-- The exit has a handle for connection 2. -/
def State.second : State :=
  { State.plain with objectHandleMap := AList.insert (objectKey 2 none) ⟨77, by decide⟩ ∅ }

/-- Then connection 1 cannot disconnect. -/
theorem not_loopsEnd_second : ¬ LoopsEnd State.second 1 := by
  intro h
  have hbelongs := h.holdsOnly.handles (objectKey 2 none)
    (Option.isSome_iff_exists.2 ⟨_, AList.lookup_insert _⟩)
  exact absurd (show keyStart 1 <+: objectKey 2 none from hbelongs) (by decide)

/-! ### What is left of the maps -/

/-- The entries of the connection are discarded, and no others, and every structure of one of them
has been freed. A structure that is freed twice is a fault. -/
structure Discarded (hc : MQHCONN) (s s' : State) : Prop where
  handles : ∀ key, s'.objectHandleMap.lookup key =
    if BelongsTo key hc then none else s.objectHandleMap.lookup key
  options : ∀ key, s'.objectOptionsMap.lookup key =
    if BelongsTo key hc then none else s.objectOptionsMap.lookup key
  freed : ∀ key o, s.objectOptionsMap.lookup key = some (some o) → BelongsTo key hc →
    (s.heap o).isSome ∧ s'.heap o = none

theorem keysInOrder_nodup {α : Type} (m : AList fun _ : Bytes ↦ α) : (keysInOrder m).Nodup :=
  (List.perm_insertionSort _ _).nodup_iff.2 m.nodupKeys

/-- Each entry under another key leaves a null pointer under the common beginning. -/
theorem lookup_discOptions {key : Bytes} {fuel : ℕ} {keys : List Bytes} {s s' : State}
    (hnotin : key ∉ keys) (hkeys : s.objectOptionsMap.lookup key = some none ∨
      keys ≠ [] ∧ s.objectOptionsMap.lookup key = none)
    (h : discOptions key fuel keys s = .ok s') : s'.objectOptionsMap.lookup key = some none := by
  induction keys generalizing fuel s with
  | nil =>
    rw [discOptions_nil] at h
    rcases hkeys with hnull | ⟨hne, -⟩
    · rw [← Except.ok.inj h, hnull]
    · exact absurd rfl hne
  | cons mapKey rest ih =>
    rw [List.mem_cons, not_or] at hnotin
    obtain ⟨-, fuel', s₂, hfree, hloop⟩ := discOptions_cons h
    -- the look-up enters a null pointer, if there is none already
    have hpointer : ∃ s₁, optionsPointer s key = (none, s₁) ∧
        s₁.objectOptionsMap.lookup key = some none := by
      rcases hkeys with hnull | ⟨-, hnone⟩
      · exact ⟨s, optionsPointer_of_some hnull, hnull⟩
      · rw [optionsPointer, hnone]
        exact ⟨_, rfl, AList.lookup_insert _⟩
    obtain ⟨s₁, hpointer, hnull⟩ := hpointer
    rw [hpointer] at hfree
    obtain rfl := Except.ok.inj hfree
    refine ih hnotin.2 (Or.inl ?_) hloop
    exact (AList.lookup_erase_ne hnotin.1).trans hnull

/-- Where an entry is under the common beginning, which comes first, it is freed and discarded. -/
theorem discOptions_cons_self {key : Bytes} {fuel : ℕ} {rest : List Bytes} {s s' : State}
    {p : Option ObjAddr} (hp : s.objectOptionsMap.lookup key = some p)
    (h : discOptions key fuel (key :: rest) s = .ok s') :
    ∃ fuel' s₁, mqotFree s p = .ok s₁ ∧ discOptions key fuel' rest
      { s₁ with objectOptionsMap := s.objectOptionsMap.erase key } = .ok s' := by
  obtain ⟨-, fuel', s₁, hfree, hloop⟩ := discOptions_cons h
  rw [optionsPointer_of_some hp] at hfree
  rw [objectOptionsMap_mqotFree hfree] at hloop
  exact ⟨fuel', s₁, hfree, hloop⟩

theorem lookup_mqotDiscBefore_of_ne {s s' : State} {hc : MQHCONN} {key : Bytes}
    (h : mqotDiscBefore s hc = .ok s') (hkey : (s.objectOptionsMap.lookup key).isSome)
    (hne : key ≠ keyStart hc) : s'.objectOptionsMap.lookup (keyStart hc) = some none := by
  obtain ⟨hm, -, hoptions⟩ := exists_discOptions h
  have hmem : key ∈ keysInOrder s.objectOptionsMap := mem_keysInOrder.2 hkey
  rcases hl : s.objectOptionsMap.lookup (keyStart hc) with - | p
  · refine lookup_discOptions (s := { s with objectHandleMap := hm }) (fun hin ↦ ?_)
      (Or.inr ⟨List.ne_nil_of_mem hmem, hl⟩) hoptions
    have hsome := mem_keysInOrder.1 hin
    rw [hl] at hsome
    cases hsome
  · obtain ⟨rest, hkeys⟩ := keysInOrder_eq_cons (mem_keysInOrder.2 (by rw [hl]; rfl))
      (forall_of_discOptions hoptions)
    have hnodup := keysInOrder_nodup s.objectOptionsMap
    rw [hkeys] at hmem hnodup hoptions
    obtain ⟨fuel', s₁, -, hrest⟩ :=
      discOptions_cons_self (s := { s with objectHandleMap := hm }) hl hoptions
    have hin : key ∈ rest := (List.mem_cons.1 hmem).resolve_left hne
    exact lookup_discOptions (List.nodup_cons.1 hnodup).1
      (Or.inr ⟨List.ne_nil_of_mem hin, AList.lookup_erase _ _⟩) hrest

/-- A map without entries is what is left of one with the connection's only. -/
theorem lookup_eq_ite_of_none {α : Type} {hc : MQHCONN} {m m' : AList fun _ : Bytes ↦ α}
    (hnone : ∀ key, m'.lookup key = none)
    (hall : ∀ key, (m.lookup key).isSome → BelongsTo key hc) (key : Bytes) :
    m'.lookup key = if BelongsTo key hc then none else m.lookup key := by
  rw [hnone]
  split_ifs with hkey
  · rfl
  · exact (Option.not_isSome_iff_eq_none.1 fun hsome ↦ hkey (hall key hsome)).symm

/-- Without an entry under another key the second loop has one iteration at most. -/
theorem discarded_of_forall {s s' : State} {hc : MQHCONN} (h : mqotDiscBefore s hc = .ok s')
    (hall : ∀ key, (s.objectOptionsMap.lookup key).isSome → key = keyStart hc) :
    Discarded hc s s' := by
  obtain ⟨hm, hhandles, hoptions⟩ := exists_discOptions h
  have hstart := (discHandles_eq_some hhandles).1
  have hlookup : ∀ key, hm.lookup key =
      if BelongsTo key hc then none else s.objectHandleMap.lookup key :=
    lookup_eq_ite_of_none (lookup_of_discHandles hhandles)
      fun key hkey ↦ hstart key (mem_keysInOrder.2 hkey)
  have hbelongs : ∀ key, (s.objectOptionsMap.lookup key).isSome → BelongsTo key hc :=
    fun key hkey ↦ hall key hkey ▸ List.prefix_refl _
  have hmem : ∀ k ∈ keysInOrder s.objectOptionsMap, k = keyStart hc :=
    fun k hk ↦ hall k (mem_keysInOrder.1 hk)
  have hnodup := keysInOrder_nodup s.objectOptionsMap
  rcases hkeys : keysInOrder s.objectOptionsMap with - | ⟨k, rest⟩
  · have hnone : ∀ key, s.objectOptionsMap.lookup key = none := fun key ↦
      Option.not_isSome_iff_eq_none.1 fun hsome ↦ by
        simpa [hkeys] using mem_keysInOrder.2 hsome
    rw [hkeys] at hoptions
    obtain rfl := Except.ok.inj hoptions
    refine ⟨hlookup, lookup_eq_ite_of_none hnone hbelongs, fun key o ho ↦ ?_⟩
    rw [hnone] at ho
    cases ho
  · rw [hkeys] at hmem hnodup hoptions
    obtain ⟨hk, hrest⟩ := List.forall_mem_cons.1 hmem
    -- the one key there can be is there once
    have hnil : rest = [] := List.eq_nil_iff_forall_not_mem.2 fun k' hk' ↦
      (List.nodup_cons.1 hnodup).1 (hk.trans (hrest k' hk').symm ▸ hk')
    subst hk hnil
    obtain ⟨p, hp⟩ := Option.isSome_iff_exists.1 (mem_keysInOrder.1 (hkeys ▸ List.mem_cons_self))
    -- so the pointer that is freed is the one of the entry that is erased
    obtain ⟨fuel', s₁, hfree, hend⟩ :=
      discOptions_cons_self (s := { s with objectHandleMap := hm }) hp hoptions
    rw [discOptions_nil] at hend
    obtain rfl := Except.ok.inj hend
    obtain ⟨heap, rfl, -⟩ := mqotFree_spec hfree
    refine ⟨hlookup, lookup_eq_ite_of_none (fun key ↦ ?_) hbelongs, fun key o ho _ ↦ ?_⟩
    · rcases eq_or_ne key (keyStart hc) with rfl | hne
      · exact AList.lookup_erase _ _
      · exact (AList.lookup_erase_ne hne).trans
          (Option.not_isSome_iff_eq_none.1 fun hsome ↦ hne (hall key hsome))
    · obtain rfl := hall key (by rw [ho]; rfl)
      obtain rfl := Option.some.inj (hp.symm.trans ho)
      have hfreed : heap o = none := heap_mqotFree_self hfree
      exact ⟨exists_mqotFree_iff.1 ⟨_, hfree⟩ o rfl, hfreed⟩

/-- **When an MQDISC discards what it should.** -/
theorem discarded_iff {s s' : State} {hc : MQHCONN} (h : mqotDiscBefore s hc = .ok s') :
    Discarded hc s s' ↔ ∀ key, (s.objectOptionsMap.lookup key).isSome → key = keyStart hc := by
  refine ⟨fun hdiscarded key hkey ↦ ?_, discarded_of_forall h⟩
  by_contra hne
  have hnull := lookup_mqotDiscBefore_of_ne h hkey hne
  rw [hdiscarded.options, if_pos (show BelongsTo (keyStart hc) hc from List.prefix_refl _)] at hnull
  cases hnull

/-- The module as it is loaded, with a structure at 0 for object 3 of connection 1. -/
def State.opened : State :=
  { State.plain with
    objectOptionsMap := AList.insert (objectKey 1 (some 3)) (some 0) ∅
    heap := Function.update (fun _ ↦ none) 0
      (some ⟨-1, .null, .null, MQPMO_DEFAULT, MQGMO_DEFAULT⟩)
    nextObj := 1 }

theorem lookup_opened :
    State.opened.objectOptionsMap.lookup (objectKey 1 (some 3)) = some (some 0) :=
  AList.lookup_insert _

theorem eq_of_lookup_opened {key : Bytes}
    (hkey : (State.opened.objectOptionsMap.lookup key).isSome) : key = objectKey 1 (some 3) := by
  by_contra hne
  rw [State.opened, AList.lookup_insert_ne hne] at hkey
  cases hkey

theorem holdsOnly_opened : HoldsOnly .opened 1 where
  handles key hkey := by cases hkey
  options key hkey := by
    rw [eq_of_lookup_opened hkey]
    exact belongsTo_objectKey.2 rfl
  live o ho := absurd (eq_of_lookup_opened (by rw [ho]; rfl))
    (show keyStart 1 ≠ objectKey 1 (some 3) by decide)

/-- The module with the handle that the exit makes for the messages of connection 1. -/
def State.connected : State :=
  { State.plain with objectHandleMap := AList.insert (objectKey 1 none) ⟨77, by decide⟩ ∅ }

theorem holdsOnly_connected : HoldsOnly .connected 1 where
  handles key hkey := by
    rcases eq_or_ne key (objectKey 1 none) with rfl | hne
    · exact belongsTo_objectKey.2 rfl
    · have hnone : State.connected.objectHandleMap.lookup key = none := AList.lookup_insert_ne hne
      rw [hnone] at hkey
      cases hkey
  options key hkey := by cases hkey
  live o ho := by cases ho

/-- A handle is discarded; with a structure it is not so. -/
theorem discarded_iff_connected :
    (∃ s', mqotDiscBefore .connected 1 = .ok s' ∧ Discarded 1 .connected s') ∧
      ∃ s', mqotDiscBefore .opened 1 = .ok s' ∧ (Discarded 1 .opened s' ↔
        ∀ key, (State.opened.objectOptionsMap.lookup key).isSome → key = keyStart 1) := by
  obtain ⟨s', hs'⟩ := holdsOnly_connected.mqotDiscBefore
  obtain ⟨s'', hs''⟩ := holdsOnly_opened.mqotDiscBefore
  exact ⟨⟨s', hs', (discarded_iff hs').2 fun key hkey ↦ by cases hkey⟩, s'', hs'',
    discarded_iff hs''⟩

/-- The entry of object 3 is not discarded as it should be: a null pointer is left. -/
theorem not_discarded_opened :
    ∃ s', mqotDiscBefore .opened 1 = .ok s' ∧ ¬ Discarded 1 .opened s' := by
  obtain ⟨s', hs'⟩ := holdsOnly_opened.mqotDiscBefore
  refine ⟨s', hs', fun hdiscarded ↦ ?_⟩
  have hne : objectKey 1 (some 3) ≠ keyStart 1 := by decide
  have hnull := lookup_mqotDiscBefore_of_ne hs' (by rw [lookup_opened]; rfl) hne
  rw [hdiscarded.options, if_pos (show BelongsTo (keyStart 1) 1 from List.prefix_refl _)] at hnull
  cases hnull

end MqExits.Otel
