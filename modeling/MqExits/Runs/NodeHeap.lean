import Mathlib.Data.List.Nodup
import Mathlib.Data.List.Perm.Subperm
import Mathlib.Data.List.Range
import Mathlib.Logic.Function.Basic
import MqExits.Runs.Ledger
import MqExits.Runs.Outcome

/-!
# Linked lists in a heap

Singly linked lists as C code builds them: nodes at addresses, each with a value and a pointer to
the next. `Seg` says what the nodes from one pointer to another hold, `Chain` that they make a list
that ends. Following a null pointer, or one to no node, is a `Fault`.

Three rules cover a list that is filled at its end, searched, and freed from its start:

* `Chain.append`, a node linked behind the last one extends the list by its value;
* `search_chain`, a loop along the list that stops at the first value a test accepts **terminates**
  and finds the first value of the list that the test accepts;
* `freeAll_chain`, a loop that frees the list node by node frees **each of its nodes once**, and
  reads none that it has freed.

A heap **accounts** for a ledger when the nodes in it are those that the ledger holds, each
allocated once: what is gone was freed exactly once, while it was there.
-/

namespace NodeHeap

open Ledger Outcome

variable {α : Type}

/-- A node of a linked list. -/
structure Node (α : Type) where
  val : α
  next : Option ℕ

/-- A heap of nodes. Nothing lies from `top` on. -/
structure Heap (α : Type) where
  cells : ℕ → Option (Node α)
  /-- Where the next node goes. -/
  top : ℕ
  fresh : ∀ a, top ≤ a → cells a = none

/-! ### Operations -/

/-- The heap without nodes. -/
def Heap.empty : Heap α where
  cells _ := none
  top := 0
  fresh _ _ := rfl

/-- A new node, linked to nothing. -/
def Heap.alloc (h : Heap α) (x : α) : Heap α × ℕ :=
  ({ cells := Function.update h.cells h.top (some ⟨x, none⟩)
     top := h.top + 1
     fresh := fun a ha ↦ by
      rw [Function.update_of_ne (by omega)]
      exact h.fresh a (by omega) }, h.top)

/-- Read the node at a pointer. -/
def Heap.load (h : Heap α) : Option ℕ → Except Fault (Node α)
  | none => .error .nullDeref
  | some a =>
    match h.cells a with
    | none => .error .useAfterFree
    | some n => .ok n

/-- Link the node at `a` to `q`. -/
def Heap.link (h : Heap α) (a : ℕ) (q : Option ℕ) : Heap α where
  cells := Function.update h.cells a ((h.cells a).map fun n ↦ { n with next := q })
  top := h.top
  fresh b hb := by
    rcases eq_or_ne b a with rfl | hne
    · rw [Function.update_self, h.fresh b hb, Option.map_none]
    · rw [Function.update_of_ne hne, h.fresh b hb]

/-- `p->next = q`. -/
def Heap.setNext (h : Heap α) (p q : Option ℕ) : Except Fault (Heap α) :=
  match p with
  | none => .error .nullDeref
  | some a => (h.load p).map fun _ ↦ h.link a q

/-- The heap without the node at `a`. -/
def Heap.erase (h : Heap α) (a : ℕ) : Heap α where
  cells := Function.update h.cells a none
  top := h.top
  fresh b hb := by
    rcases eq_or_ne b a with rfl | hne
    · rw [Function.update_self]
    · rw [Function.update_of_ne hne, h.fresh b hb]

/-- `free(p)`. -/
def Heap.free (h : Heap α) : Option ℕ → Except Fault (Heap α)
  | none => .ok h
  | some a =>
    match h.cells a with
    | none => .error .doubleFree
    | some _ => .ok (h.erase a)

/-- A loop that frees the list from `p`: it reads where a node points, and frees it. The nodes freed
are returned, in order. One unit of fuel is one node. -/
def Heap.freeAll (h : Heap α) : ℕ → Option ℕ → Except Fault (Heap α × List ℕ)
  | _, none => .ok (h, [])
  | 0, some _ => .error .diverges
  | fuel + 1, some a => do
    let n ← h.load (some a)
    let h ← h.free (some a)
    let (h, freed) ← h.freeAll fuel n.next
    return (h, a :: freed)

/-- A loop along the list from `p`, which stops at the first node whose value passes the test, or at
the end. One unit of fuel is one node. -/
def Heap.search (h : Heap α) (test : α → Except Fault Bool) :
    ℕ → Option ℕ → Except Fault (Option ℕ)
  | _, none => .ok none
  | 0, some _ => .error .diverges
  | fuel + 1, some a => do
    let n ← h.load (some a)
    if ← test n.val then return some a
    h.search test fuel n.next

/-! ### What a list holds -/

/-- The nodes from `p` on are those of `l`, and the last of them points to `q`. -/
def Seg (h : Heap α) : Option ℕ → List (ℕ × α) → Option ℕ → Prop
  | p, [], q => p = q
  | p, (a, x) :: l, q => p = some a ∧ ∃ r, h.cells a = some ⟨x, r⟩ ∧ Seg h r l q

@[simp] theorem seg_nil {h : Heap α} {p q : Option ℕ} : Seg h p [] q ↔ p = q := Iff.rfl

@[simp] theorem seg_cons {h : Heap α} {p q : Option ℕ} {a : ℕ} {x : α} {l : List (ℕ × α)} :
    Seg h p ((a, x) :: l) q ↔ p = some a ∧ ∃ r, h.cells a = some ⟨x, r⟩ ∧ Seg h r l q :=
  Iff.rfl

theorem seg_append {h : Heap α} {p q : Option ℕ} {l m : List (ℕ × α)} :
    Seg h p (l ++ m) q ↔ ∃ r, Seg h p l r ∧ Seg h r m q := by
  induction l generalizing p with
  | nil => simp
  | cons n l ih =>
    obtain ⟨a, x⟩ := n
    simp only [List.cons_append, seg_cons, ih]
    constructor
    · rintro ⟨hp, r, hr, r', hl, hm⟩
      exact ⟨r', ⟨hp, r, hr, hl⟩, hm⟩
    · rintro ⟨r', ⟨hp, r, hr, hl⟩, hm⟩
      exact ⟨hp, r, hr, r', hl, hm⟩

/-- A list depends on its own nodes alone. -/
theorem Seg.congr {h h' : Heap α} {p q : Option ℕ} {l : List (ℕ × α)} (hl : Seg h p l q)
    (hh : ∀ n ∈ l, h'.cells n.1 = h.cells n.1) : Seg h' p l q := by
  induction l generalizing p with
  | nil => exact hl
  | cons n l ih =>
    obtain ⟨a, x⟩ := n
    obtain ⟨hp, r, hr, hrest⟩ := hl
    refine ⟨hp, r, (hh (a, x) List.mem_cons_self).trans hr, ih hrest fun n hn ↦ ?_⟩
    exact hh n (List.mem_cons_of_mem _ hn)

theorem Seg.cells_of_mem {h : Heap α} {p q : Option ℕ} {l : List (ℕ × α)} (hl : Seg h p l q)
    {n : ℕ × α} (hn : n ∈ l) : ∃ r, h.cells n.1 = some ⟨n.2, r⟩ := by
  induction l generalizing p with
  | nil => cases hn
  | cons m l ih =>
    obtain ⟨a, x⟩ := m
    obtain ⟨-, r, hr, hrest⟩ := hl
    rcases List.mem_cons.1 hn with rfl | hn
    · exact ⟨r, hr⟩
    · exact ih hrest hn

theorem Heap.load_eq_ok {h : Heap α} {a : ℕ} {n : Node α} (ha : h.cells a = some n) :
    h.load (some a) = .ok n := by
  simp only [Heap.load, ha]

/-- The list from `p` on holds `l` and ends, with each node in it once. -/
structure Chain (h : Heap α) (p : Option ℕ) (l : List (ℕ × α)) : Prop where
  seg : Seg h p l none
  nodup : (l.map Prod.fst).Nodup

theorem Chain.nil (h : Heap α) : Chain h none [] :=
  ⟨rfl, List.nodup_nil⟩

theorem Chain.lt_top {h : Heap α} {p : Option ℕ} {l : List (ℕ × α)} (hc : Chain h p l)
    {n : ℕ × α} (hn : n ∈ l) : n.1 < h.top := by
  obtain ⟨r, hr⟩ := hc.seg.cells_of_mem hn
  by_contra hge
  rw [h.fresh n.1 (not_lt.1 hge)] at hr
  cases hr

/-- A list is no longer than the heap. -/
theorem Chain.length_le {h : Heap α} {p : Option ℕ} {l : List (ℕ × α)} (hc : Chain h p l) :
    l.length ≤ h.top := by
  have hsub : l.map Prod.fst ⊆ List.range h.top := by
    intro a ha
    obtain ⟨n, hn, rfl⟩ := List.mem_map.1 ha
    exact List.mem_range.2 (hc.lt_top hn)
  have hlen := (hc.nodup.subperm hsub).length_le
  rwa [List.length_map, List.length_range] at hlen

theorem Chain.eq_none_iff {h : Heap α} {p : Option ℕ} {l : List (ℕ × α)} (hc : Chain h p l) :
    p = none ↔ l = [] := by
  cases l with
  | nil => exact iff_of_true hc.seg rfl
  | cons n l =>
    obtain ⟨a, x⟩ := n
    have hp : p = some a := hc.seg.1
    exact iff_of_false (by rw [hp]; exact Option.some_ne_none a) (List.cons_ne_nil _ _)

/-! ### Appending a node -/

/-- The list of one new node. -/
theorem chain_alloc (h : Heap α) (x : α) :
    Chain (h.alloc x).1 (some (h.alloc x).2) [((h.alloc x).2, x)] where
  seg := ⟨rfl, none, Function.update_self _ _ _, rfl⟩
  nodup := List.nodup_singleton _

/-- **A node linked behind the last one** extends the list. -/
theorem Chain.append {h : Heap α} {p : Option ℕ} {l : List (ℕ × α)} {a : ℕ} {x : α}
    (hc : Chain h p (l ++ [(a, x)])) (y : α) :
    ∃ h', (h.alloc y).1.setNext (some a) (some (h.alloc y).2) = .ok h' ∧
      h'.top = h.top + 1 ∧ Chain h' p (l ++ [(a, x)] ++ [((h.alloc y).2, y)]) := by
  have hbelow : ∀ n ∈ l ++ [(a, x)], n.1 ≠ h.top := fun n hn ↦ (hc.lt_top hn).ne
  have hne : a ≠ h.top := hbelow (a, x) (by simp)
  obtain ⟨r, hl, ha⟩ := seg_append.1 hc.seg
  obtain ⟨rfl, r', hcell, rfl⟩ := ha
  have hcell' : (h.alloc y).1.cells a = some ⟨x, none⟩ :=
    (Function.update_of_ne hne _ _).trans hcell
  refine ⟨_, by rw [Heap.setNext, Heap.load_eq_ok hcell']; rfl, rfl, ?_, ?_⟩
  · refine seg_append.2 ⟨some h.top, seg_append.2 ⟨some a, ?_, rfl, some h.top, ?_, rfl⟩, rfl, none,
      ?_, rfl⟩
    · -- the nodes before the last are untouched, as no node is there twice
      refine hl.congr fun n hn ↦ ?_
      have hna : n.1 ≠ a := by
        have hnodup := hc.nodup
        rw [List.map_append, List.nodup_append] at hnodup
        exact hnodup.2.2 _ (List.mem_map_of_mem hn) _ (by simp)
      show Function.update (h.alloc y).1.cells a _ n.1 = h.cells n.1
      rw [Function.update_of_ne hna]
      exact Function.update_of_ne (hbelow n (List.mem_append_left _ hn)) _ _
    · show Function.update (h.alloc y).1.cells a _ a = _
      rw [Function.update_self, hcell', Option.map_some]
      rfl
    · show Function.update (h.alloc y).1.cells a _ h.top = _
      rw [Function.update_of_ne hne.symm]
      exact Function.update_self _ _ _
  · rw [List.map_append, List.nodup_append]
    refine ⟨hc.nodup, List.nodup_singleton _, ?_⟩
    intro b hb c hcmem
    obtain ⟨n, hn, rfl⟩ := List.mem_map.1 hb
    obtain rfl : c = h.top := by simpa [Heap.alloc] using hcmem
    exact hbelow n hn

/-! ### Searching -/

/-- **The search rule.** -/
theorem search_chain {h : Heap α} {test : α → Except Fault Bool} {t : α → Bool}
    {l : List (ℕ × α)} (ht : ∀ n ∈ l, test n.2 = .ok (t n.2)) {p : Option ℕ} {fuel : ℕ}
    (hl : Seg h p l none) (hfuel : l.length ≤ fuel) :
    h.search test fuel p = .ok ((l.find? fun n ↦ t n.2).map Prod.fst) := by
  induction l generalizing p fuel with
  | nil =>
    obtain rfl : p = none := hl
    cases fuel <;> rfl
  | cons n l ih =>
    obtain ⟨a, x⟩ := n
    obtain ⟨rfl, r, hr, hrest⟩ := hl
    cases fuel with
    | zero => exact absurd hfuel (Nat.not_succ_le_zero _)
    | succ fuel =>
      have hx : test x = .ok (t x) := ht (a, x) List.mem_cons_self
      -- One round of the loop: the node is loaded and tested, and the search ends or goes on.
      have hstep : h.search test (fuel + 1) (some a) =
          if t x then .ok (some a) else h.search test fuel r := by
        simp only [Heap.search, Heap.load_eq_ok hr, bind, Except.bind, hx]
        rfl
      rw [hstep, List.find?_cons]
      cases hb : t x with
      | true => rfl
      | false =>
        exact ih (fun n hn ↦ ht n (List.mem_cons_of_mem _ hn)) hrest
          (Nat.le_of_succ_le_succ hfuel)

/-! ### The ledger of a heap -/

/-- There is a node at `a`. -/
def Heap.live (h : Heap α) (a : ℕ) : Bool :=
  (h.cells a).isSome

theorem Seg.live {h : Heap α} {p q : Option ℕ} {l : List (ℕ × α)} (hl : Seg h p l q) {n : ℕ × α}
    (hn : n ∈ l) : h.live n.1 = true := by
  obtain ⟨r, hr⟩ := hl.cells_of_mem hn
  rw [Heap.live, hr]
  rfl

/-- A node that is there owns its address. -/
def Heap.owner (h : Heap α) (a : ℕ) : Option ℕ :=
  if h.live a then some a else none

/-- The nodes in the heap are those that the ledger holds, and each was allocated once. -/
structure Heap.Accounts (h : Heap α) (ops : List (Op ℕ)) : Prop where
  owned : Owned h.owner h.top ops
  disciplined : Disciplined ops

theorem Heap.accounts_empty : (Heap.empty : Heap α).Accounts [] :=
  ⟨Owned.nil, disciplined_nil⟩

theorem Heap.Accounts.congr {h h' : Heap α} {ops : List (Op ℕ)} (hops : h.Accounts ops)
    (htop : h'.top = h.top) (hlive : ∀ a, h'.live a = h.live a) : h'.Accounts ops := by
  have howner : h'.owner = h.owner := funext fun a ↦ by rw [owner, owner, hlive]
  exact ⟨by rw [htop, howner]; exact hops.owned, hops.disciplined⟩

/-- A new node is acquired. -/
theorem Heap.Accounts.alloc {h : Heap α} {ops : List (Op ℕ)} (hops : h.Accounts ops) (x : α) :
    (h.alloc x).1.Accounts (ops ++ [.acquire h.top]) := by
  have hnone : h.owner h.top = none := by
    rw [owner, live, h.fresh h.top le_rfl]
    rfl
  have howner : (h.alloc x).1.owner = Function.update h.owner h.top (some h.top) := by
    funext a
    rw [owner, live]
    show (if (Function.update h.cells h.top _ a).isSome then some a else none) = _
    rcases eq_or_ne a h.top with rfl | hne
    · rw [Function.update_self, Function.update_self]
      rfl
    · rw [Function.update_of_ne hne, Function.update_of_ne hne, owner, live]
  refine ⟨?_, disciplined_append_acquire.2 hops.disciplined⟩
  rw [howner]
  exact hops.owned.acquire hnone

/-- Linking a node acquires and releases nothing. -/
theorem Heap.Accounts.setNext {h h' : Heap α} {ops : List (Op ℕ)} (hops : h.Accounts ops)
    {p q : Option ℕ} (hset : h.setNext p q = .ok h') : h'.Accounts ops ∧ h'.top = h.top := by
  cases p with
  | none => cases hset
  | some a =>
    obtain ⟨n, -, rfl⟩ := map_eq_ok.1 hset
    have hlive : ∀ b, (h.link a q).live b = h.live b := fun b ↦ by
      rw [live, live]
      show (Function.update h.cells a _ b).isSome = _
      rcases eq_or_ne b a with rfl | hne
      · rw [Function.update_self, Option.isSome_map]
      · rw [Function.update_of_ne hne]
    have htop : (h.link a q).top = h.top := rfl
    exact ⟨hops.congr htop hlive, htop⟩

/-- A node that is freed is released. -/
theorem Heap.Accounts.erase {h : Heap α} {ops : List (Op ℕ)} (hops : h.Accounts ops) {a : ℕ}
    (ha : h.live a = true) : (h.erase a).Accounts (ops ++ [.release a]) := by
  have howner : (h.erase a).owner = Function.update h.owner a none := by
    funext b
    rw [owner, live]
    show (if (Function.update h.cells a none b).isSome then some b else none) = _
    rcases eq_or_ne b a with rfl | hne
    · rw [Function.update_self, Function.update_self]
      rfl
    · rw [Function.update_of_ne hne, Function.update_of_ne hne, owner, live]
  have hown : h.owner a = some a := by
    rw [owner, ha]
    rfl
  refine ⟨?_, disciplined_append_release.2 ⟨hops.disciplined, hops.owned.held hown⟩⟩
  rw [howner]
  exact hops.owned.release hown

/-- A node was allocated once, or not yet. -/
theorem Heap.Accounts.acquired {h : Heap α} {ops : List (Op ℕ)} (hops : h.Accounts ops) (a : ℕ) :
    ops.count (.acquire a) = if a < h.top then 1 else 0 :=
  hops.owned.acquired a

/-- A node that is there has not been freed. -/
theorem Heap.Accounts.kept {h : Heap α} {ops : List (Op ℕ)} (hops : h.Accounts ops) {a : ℕ}
    (ha : h.live a = true) : a < h.top ∧ ops.count (.release a) = 0 := by
  have hown : h.owner a = some a := by
    rw [owner, ha]
    rfl
  exact ⟨hops.owned.below hown, hops.owned.kept hown⟩

/-- In a heap without nodes, everything allocated was freed exactly once. -/
theorem Heap.Accounts.released {h : Heap α} {ops : List (Op ℕ)} (hops : h.Accounts ops)
    (hlive : ∀ a, h.live a = false) (a : ℕ) :
    ops.count (.release a) = ops.count (.acquire a) := by
  rw [hops.acquired]
  split_ifs with ha
  · refine hops.owned.released a ha fun b ↦ ?_
    rw [owner, hlive]
    exact Option.some_ne_none a ∘ Eq.symm
  · exact hops.owned.unused a (not_lt.1 ha)

/-- If as many nodes as a list has are all there can be, the list has them all. -/
theorem Chain.mem_of_live {h : Heap α} {p : Option ℕ} {l : List (ℕ × α)} (hc : Chain h p l) {n : ℕ}
    (hlive : ∀ a, h.live a = true → n ≤ a ∧ a < n + l.length) {a : ℕ} (ha : h.live a = true) :
    a ∈ l.map Prod.fst := by
  have hsub : l.map Prod.fst ⊆ List.range' n l.length := by
    intro b hb
    obtain ⟨m, hm, rfl⟩ := List.mem_map.1 hb
    exact List.mem_range'_1.2 (hlive m.1 (hc.seg.live hm))
  have hperm := (hc.nodup.subperm hsub).perm_of_length_le (by simp)
  exact hperm.mem_iff.2 (List.mem_range'_1.2 (hlive a ha))

/-! ### Freeing a list -/

/-- **The free rule.** -/
theorem freeAll_chain {h : Heap α} {p : Option ℕ} {l : List (ℕ × α)} (hc : Chain h p l) {fuel : ℕ}
    (hfuel : l.length ≤ fuel) {ops : List (Op ℕ)} (hops : h.Accounts ops) :
    ∃ h', h.freeAll fuel p = .ok (h', l.map Prod.fst) ∧
      (∀ a, h'.live a = true ↔ h.live a = true ∧ a ∉ l.map Prod.fst) ∧
      h'.Accounts (ops ++ (l.map Prod.fst).map .release) := by
  induction l generalizing h p fuel ops with
  | nil =>
    obtain rfl : p = none := hc.seg
    refine ⟨h, ?_, fun a ↦ by simp, by rwa [List.map_nil, List.map_nil, List.append_nil]⟩
    cases fuel <;> rfl
  | cons n l ih =>
    obtain ⟨a, x⟩ := n
    obtain ⟨rfl, r, hr, hrest⟩ := hc.seg
    obtain ⟨fuel, rfl⟩ : ∃ m, fuel = m + 1 :=
      ⟨fuel - 1, by rw [List.length_cons] at hfuel; omega⟩
    have hnodup := List.nodup_cons.1 hc.nodup
    have hlive : h.live a = true := hc.seg.live (n := (a, x)) List.mem_cons_self
    -- the rest of the list does not go through the node that is freed
    have hrest' : Seg (h.erase a) r l none := hrest.congr fun m hm ↦ by
      have hmem : m.1 ∈ l.map Prod.fst := List.mem_map_of_mem hm
      have hne : m.1 ≠ a := fun heq ↦ hnodup.1 (heq ▸ hmem)
      exact Function.update_of_ne hne _ _
    obtain ⟨h', hfree, hlive', hops'⟩ :=
      ih ⟨hrest', hnodup.2⟩ (Nat.le_of_succ_le_succ hfuel) (hops.erase hlive)
    refine ⟨h', ?_, fun b ↦ ?_, ?_⟩
    · have herase : h.free (some a) = .ok (h.erase a) := by
        simp only [Heap.free, hr]
      simp only [Heap.freeAll, Heap.load_eq_ok hr, herase, hfree, bind, Except.bind]
      rfl
    · have hb : (h.erase a).live b = true ↔ b ≠ a ∧ h.live b = true := by
        rw [Heap.live, Heap.live]
        show (Function.update h.cells a none b).isSome = true ↔ _
        rcases eq_or_ne b a with rfl | hne
        · rw [Function.update_self]
          simp
        · rw [Function.update_of_ne hne]
          exact (and_iff_right hne).symm
      rw [hlive', hb, List.map_cons, List.mem_cons, not_or]
      exact ⟨fun ⟨⟨hne, h₁⟩, h₂⟩ ↦ ⟨h₁, hne, h₂⟩, fun ⟨h₁, hne, h₂⟩ ↦ ⟨⟨hne, h₁⟩, h₂⟩⟩
    · rw [List.append_assoc] at hops'
      exact hops'

end NodeHeap
