import Mathlib.Data.Finset.Card
import MqExits.Runs.ObjectTree
import MqExits.Text.Bytes

/-!
# The memory of a C program

Blocks of bytes that `malloc` and `realloc` give out and `free` takes back. Whether a request is
granted, and what a new block holds at first, is not up to the program. To use a pointer to no
block, or to go outside a block, is a `MemFault`.

A block is **owned over** other cells when the memory has these cells and the block
(`Memory.Owns`). Each operation on an owned block has one rule: the block changes, **and the other
cells stay as they are**; when it has been freed, they are all there is (`free_owned`).

An address is given to one block only. That no program gives out one again (`GivesOnce`) is shown
along its steps: each operation has it, and a program has it whose parts do.
-/

namespace CMemory

open CText ObjectTree

/-- How a program goes wrong with its memory. -/
inductive MemFault
  | nullDeref
  | useAfterFree
  | doubleFree
  | outOfBounds
  | intOverflow
  deriving DecidableEq, Repr

/-- A block of the program, or an object of a library, which only the library can look into. -/
inductive Block
  | bytes (contents : Bytes)
  | object
  deriving DecidableEq

/-- What the C library does with requests for memory, by the number of the request. -/
structure Allocator where
  grants : ℕ → Bool
  /-- The bytes that a new block starts with. -/
  junk : ℕ → ℕ → UInt8

/-- The first bytes of a new block, before anything is written to it. -/
def Allocator.fill (A : Allocator) (request n : ℕ) : Bytes :=
  (List.range n).map (A.junk request)

@[simp] theorem Allocator.length_fill (A : Allocator) (request n : ℕ) :
    (A.fill request n).length = n := by
  rw [fill, List.length_map, List.length_range]

structure Memory where
  store : Store Block
  /-- How many requests there have been. -/
  requests : ℕ
  /-- What the blocks held that have been given to `free`, oldest first. -/
  freed : List Bytes

/-- The blocks that are there, by their addresses. -/
abbrev Cells := ℕ → Option Block

/-- The memory at the start of a program. -/
def Memory.empty : Memory :=
  ⟨.empty, 0, []⟩

/-- A program that works on the memory. -/
abbrev Prog := StateT Memory (Except MemFault)

/-! ### Operations -/

variable (A : Allocator)

/-- A request that is granted. -/
def Memory.granted (m : Memory) (b : Block) : Memory :=
  ⟨(m.store.alloc b).1, m.requests + 1, m.freed⟩

/-- A request that is refused. -/
def Memory.refused (m : Memory) : Memory :=
  ⟨m.store, m.requests + 1, m.freed⟩

/-- The memory with other bytes in the block at `a`. -/
def Memory.put (m : Memory) (a : ℕ) (bs : Bytes) : Memory :=
  ⟨m.store.replace a (.bytes bs), m.requests, m.freed⟩

/-- The memory without the block at `a`. -/
def Memory.drop (m : Memory) (a : ℕ) : Memory :=
  ⟨m.store.erase a, m.requests, m.freed⟩

/-- A new block or object. -/
def alloc (content : ℕ → Block) : Prog (Option ℕ) := fun m ↦
  if A.grants m.requests then .ok (some m.store.top, m.granted (content m.requests))
  else .ok (none, m.refused)

/-- `malloc(n)`. -/
def malloc (n : ℕ) : Prog (Option ℕ) :=
  alloc A fun request ↦ .bytes (A.fill request n)

/-- The bytes at a pointer. -/
def load : Option ℕ → Prog Bytes
  | none => fun _ ↦ .error .nullDeref
  | some a => fun m ↦
    match m.store.cells a with
    | some (.bytes bs) => .ok (bs, m)
    | _ => .error .useAfterFree

/-- `realloc(p, n)`. The block that it gives is another one, which holds what the old one did. -/
def realloc (p : Option ℕ) (n : ℕ) : Prog (Option ℕ) :=
  match p with
  | none => malloc A n
  | some a => do
    let bs ← load (some a)
    fun m ↦
      if A.grants m.requests then
        let grown := bs.take n ++ A.fill m.requests (n - bs.length)
        .ok (some m.store.top, (m.granted (.bytes grown)).drop a)
      else .ok (none, m.refused)

/-- Write bytes at an offset from a pointer: `memcpy`, and `memset` with the same byte. Nothing is
written for no bytes, whatever the pointer is. -/
def write (p : Option ℕ) (offset : ℕ) (data : Bytes) : Prog Unit :=
  match p, data with
  | _, [] => pure ()
  | none, _ :: _ => fun _ ↦ .error .nullDeref
  | some a, b :: data => do
    let bs ← load (some a)
    fun m ↦
      if offset + (b :: data).length ≤ bs.length then
        .ok ((), m.put a (bs.take offset ++ b :: data ++ bs.drop (offset + (b :: data).length)))
      else .error .outOfBounds

/-- Read `n` bytes from a pointer. -/
def read (p : Option ℕ) (n : ℕ) : Prog Bytes :=
  match p, n with
  | _, 0 => pure []
  | none, _ + 1 => fun _ ↦ .error .nullDeref
  | some a, n + 1 => do
    let bs ← load (some a)
    fun m ↦ if n + 1 ≤ bs.length then .ok (bs.take (n + 1), m) else .error .outOfBounds

/-- `strlen(p)`. -/
def strlen (p : Option ℕ) : Prog ℕ := do
  let bs ← load p
  fun m ↦ if 0 ∈ bs then .ok ((cstr bs).length, m) else .error .outOfBounds

/-- `free(p)`. -/
def free (p : Option ℕ) : Prog Unit :=
  match p with
  | none => pure ()
  | some a => fun m ↦
    match m.store.cells a with
    | none => .error .doubleFree
    | some .object => .ok ((), m.drop a)
    | some (.bytes bs) => .ok ((), ⟨m.store.erase a, m.requests, m.freed ++ [bs]⟩)

/-! ### Running programs -/

variable {A} {α β : Type} {m m' : Memory}

/-- After a step that ends, the rest of the program runs. -/
theorem bind_of_ok {x : Prog α} {f : α → Prog β} {a : α} (h : x m = .ok (a, m')) :
    (x >>= f) m = f a m' := by
  show (x m >>= fun r ↦ f r.1 r.2) = _
  rw [h]
  rfl

/-- After a fault, nothing runs. -/
theorem bind_of_error {x : Prog α} {f : α → Prog β} {e : MemFault} (h : x m = .error e) :
    (x >>= f) m = .error e := by
  show (x m >>= fun r ↦ f r.1 r.2) = _
  rw [h]
  rfl

/-! ### Owned blocks -/

/-- The memory has the cells of `base`, and the block at `a` besides. -/
structure Memory.Owns (m : Memory) (base : Cells) (a : ℕ) (b : Block) : Prop where
  free : base a = none
  cells : m.store.cells = Function.update base a (some b)

variable {base : Cells} {a : ℕ} {bs data : Bytes}

theorem Memory.Owns.at_self {b : Block} (h : m.Owns base a b) : m.store.cells a = some b := by
  rw [h.cells, Function.update_self]

theorem Memory.owns_granted (m : Memory) (b : Block) :
    (m.granted b).Owns m.store.cells m.store.top b :=
  ⟨m.store.fresh _ le_rfl, rfl⟩

/-- Any block that is there is owned over the others. -/
theorem Memory.owns_of_cells {b : Block} (h : m.store.cells a = some b) :
    m.Owns (Function.update m.store.cells a none) a b := by
  refine ⟨Function.update_self _ _ _, ?_⟩
  rw [Function.update_idem, ← h, Function.update_eq_self]

/-- Two blocks, in the other order. -/
theorem Memory.Owns.swap {b b' : Block} {a' : ℕ} (hfree : base a = none)
    (h : m.Owns (Function.update base a (some b)) a' b') :
    a ≠ a' ∧ m.Owns (Function.update base a' (some b')) a b := by
  have hne : a ≠ a' := by
    rintro rfl
    have habs := h.free
    rw [Function.update_self] at habs
    cases habs
  refine ⟨hne, ?_, ?_⟩
  · rw [Function.update_of_ne hne, hfree]
  · rw [h.cells, Function.update_comm hne]

/-- **Framing**: a block made while another is owned is one of the cells that it is owned over. -/
theorem Memory.Owns.frame {b b' : Block} {a' : ℕ} (h : m.Owns base a b)
    (h' : m'.Owns m.store.cells a' b') :
    base a' = none ∧ m'.Owns (Function.update base a' (some b')) a b := by
  rw [h.cells] at h'
  obtain ⟨hne, howns⟩ := h'.swap h.free
  have hfree := h'.free
  rw [Function.update_of_ne hne.symm] at hfree
  exact ⟨hfree, howns⟩

theorem Memory.Owns.drop {b : Block} (h : m.Owns base a b) : (m.drop a).store.cells = base := by
  show Function.update m.store.cells a none = base
  rw [h.cells, Function.update_idem, ← h.free, Function.update_eq_self]

/-! ### What is left -/

/-- The cells are those of `base`, and new ones besides. -/
structure Extends (base cells : Cells) (new : Finset ℕ) : Prop where
  fresh : ∀ a ∈ new, base a = none
  there : ∀ a ∈ new, cells a ≠ none
  rest : ∀ a ∉ new, cells a = base a

theorem Extends.refl (base : Cells) : Extends base base ∅ where
  fresh _ h := absurd h (Finset.notMem_empty _)
  there _ h := absurd h (Finset.notMem_empty _)
  rest _ _ := rfl

theorem Extends.update {base : Cells} {a : ℕ} (ha : base a = none) (b : Block) :
    Extends base (Function.update base a (some b)) {a} where
  fresh a' h := Finset.mem_singleton.1 h ▸ ha
  there a' h := by
    rw [Finset.mem_singleton.1 h, Function.update_self]
    exact Option.some_ne_none b
  rest a' h := Function.update_of_ne (fun heq ↦ h (Finset.mem_singleton.2 heq)) _ _

/-- What is there stays there. -/
theorem Extends.kept {base cells : Cells} {new : Finset ℕ} (h : Extends base cells new) {a : ℕ}
    {b : Block} (ha : base a = some b) : cells a = some b := by
  rw [← ha]
  refine h.rest a fun hnew ↦ ?_
  rw [h.fresh a hnew] at ha
  cases ha

/-- **What two parts of a program leave**. -/
theorem Extends.trans {base cells cells' : Cells} {new new' : Finset ℕ}
    (h : Extends base cells new) (h' : Extends cells cells' new') :
    Disjoint new new' ∧ Extends base cells' (new ∪ new') := by
  have hdisjoint : Disjoint new new' :=
    Finset.disjoint_left.2 fun a ha ha' ↦ h.there a ha (h'.fresh a ha')
  refine ⟨hdisjoint, fun a ha ↦ ?_, fun a ha ↦ ?_, fun a ha ↦ ?_⟩
  · rcases Finset.mem_union.1 ha with ha | ha
    · exact h.fresh a ha
    · rw [← h.rest a (Finset.disjoint_right.1 hdisjoint ha)]
      exact h'.fresh a ha
  · rcases Finset.mem_union.1 ha with ha | ha
    · rw [h'.rest a (Finset.disjoint_left.1 hdisjoint ha)]
      exact h.there a ha
    · exact h'.there a ha
  · rw [Finset.mem_union, not_or] at ha
    rw [h'.rest a ha.2, h.rest a ha.1]

/-- One block more. -/
theorem Extends.add {base cells : Cells} {new : Finset ℕ} (h : Extends base cells new) {a : ℕ}
    (ha : cells a = none) (b : Block) :
    ∃ new', Extends base (Function.update cells a (some b)) new' ∧ new'.card = new.card + 1 := by
  obtain ⟨hdisjoint, htrans⟩ := h.trans (Extends.update ha b)
  refine ⟨_, htrans, ?_⟩
  rw [Finset.card_union_of_disjoint hdisjoint, Finset.card_singleton]

/-! ### One rule an operation -/

theorem alloc_granted {content : ℕ → Block} (hgrant : A.grants m.requests = true) :
    alloc A content m = .ok (some m.store.top, m.granted (content m.requests)) := by
  rw [alloc, if_pos hgrant]

theorem alloc_refused {content : ℕ → Block} (hgrant : A.grants m.requests = false) :
    alloc A content m = .ok (none, m.refused) := by
  rw [alloc, hgrant]
  rfl

/-- **A new block**. -/
theorem malloc_granted (hgrant : A.grants m.requests = true) (n : ℕ) :
    ∃ m', malloc A n m = .ok (some m.store.top, m') ∧
      m'.Owns m.store.cells m.store.top (.bytes (A.fill m.requests n)) ∧
      m'.requests = m.requests + 1 ∧ m'.freed = m.freed :=
  ⟨_, alloc_granted hgrant, m.owns_granted _, rfl, rfl⟩

theorem malloc_refused (hgrant : A.grants m.requests = false) (n : ℕ) :
    malloc A n m = .ok (none, m.refused) :=
  alloc_refused hgrant

theorem load_owned (h : m.Owns base a (.bytes bs)) : load (some a) m = .ok (bs, m) := by
  simp only [load, h.at_self]

/-- **A block that grows** keeps what it holds. -/
theorem realloc_granted (h : m.Owns base a (.bytes bs)) (hgrant : A.grants m.requests = true)
    {n : ℕ} (hn : bs.length ≤ n) :
    ∃ m', realloc A (some a) n m = .ok (some m.store.top, m') ∧
      m'.Owns base m.store.top (.bytes (bs ++ A.fill m.requests (n - bs.length))) ∧
      m'.requests = m.requests + 1 ∧ m'.freed = m.freed := by
  have howns := m.owns_granted (.bytes (bs ++ A.fill m.requests (n - bs.length)))
  rw [h.cells] at howns
  obtain ⟨hne, hold⟩ := howns.swap h.free
  refine ⟨(m.granted (.bytes (bs ++ A.fill m.requests (n - bs.length)))).drop a, ?_,
    ⟨?_, hold.drop⟩, rfl, rfl⟩
  · rw [realloc, bind_of_ok (load_owned h), if_pos hgrant, List.take_of_length_le hn]
  · have hnew := howns.free
    rwa [Function.update_of_ne hne.symm] at hnew

theorem realloc_refused (h : m.Owns base a (.bytes bs)) (hgrant : A.grants m.requests = false)
    (n : ℕ) : realloc A (some a) n m = .ok (none, m.refused) := by
  rw [realloc, bind_of_ok (load_owned h), hgrant]
  rfl

theorem write_nil (p : Option ℕ) (offset : ℕ) : write p offset [] = pure () := by
  rcases p with - | a
  · rfl
  · rfl

/-- To write anything through a null pointer is a fault. -/
theorem write_null (hdata : data ≠ []) (offset : ℕ) :
    write none offset data m = .error .nullDeref := by
  rcases data with - | ⟨b, data⟩
  · exact absurd rfl hdata
  · rfl

/-- **A write inside the block**. -/
theorem write_owned (h : m.Owns base a (.bytes bs)) {offset : ℕ}
    (hfits : offset + data.length ≤ bs.length) :
    ∃ m', write (some a) offset data m = .ok ((), m') ∧
      m'.Owns base a (.bytes (bs.take offset ++ data ++ bs.drop (offset + data.length))) ∧
      m'.requests = m.requests ∧ m'.freed = m.freed := by
  rcases data with - | ⟨b, data⟩
  · refine ⟨m, rfl, ?_, rfl, rfl⟩
    rw [List.append_nil, List.length_nil, Nat.add_zero, List.take_append_drop]
    exact h
  · refine ⟨m.put a (bs.take offset ++ b :: data ++ bs.drop (offset + (b :: data).length)), ?_,
      ⟨h.free, ?_⟩, rfl, rfl⟩
    · rw [write, bind_of_ok (load_owned h), if_pos hfits]
    · show Function.update m.store.cells a _ = _
      rw [h.at_self, h.cells, Function.update_idem]
      rfl

theorem read_owned (h : m.Owns base a (.bytes bs)) {n : ℕ} (hn : n ≤ bs.length) :
    read (some a) n m = .ok (bs.take n, m) := by
  rcases n with - | n
  · rfl
  · rw [read, bind_of_ok (load_owned h), if_pos hn]

theorem strlen_owned (h : m.Owns base a (.bytes bs)) (hnul : (0 : UInt8) ∈ bs) :
    strlen (some a) m = .ok ((cstr bs).length, m) := by
  rw [strlen, bind_of_ok (load_owned h), if_pos hnul]

/-- **A block that is freed** leaves the other cells. -/
theorem free_owned (h : m.Owns base a (.bytes bs)) :
    ∃ m', free (some a) m = .ok ((), m') ∧ m'.store.cells = base ∧
      m'.requests = m.requests ∧ m'.freed = m.freed ++ [bs] := by
  refine ⟨⟨m.store.erase a, m.requests, m.freed ++ [bs]⟩, ?_, h.drop, rfl, rfl⟩
  simp only [free, h.at_self]

/-- **A copy that ends with a NUL**: a new block is cleared, and the bytes are copied to it. -/
theorem copy_granted (hgrant : A.grants m.requests = true) (body : Bytes) :
    ∃ a m₁ m₂ m₃, malloc A (body.length + 1) m = .ok (some a, m₁) ∧
      write (some a) 0 (List.replicate (body.length + 1) 0) m₁ = .ok ((), m₂) ∧
      m₂.Owns m.store.cells a (.bytes (List.replicate (body.length + 1) 0)) ∧
      write (some a) 0 body m₂ = .ok ((), m₃) ∧
      m₃.Owns m.store.cells a (.bytes (body ++ [0])) ∧ m₃.requests = m.requests + 1 ∧
      m₃.freed = m.freed := by
  obtain ⟨m₁, hmalloc, howns, hreq₁, hfreed₁⟩ := malloc_granted hgrant (body.length + 1)
  have hlen := A.length_fill m.requests (body.length + 1)
  generalize A.fill m.requests (body.length + 1) = fill at howns hlen
  have hzero : 0 + (List.replicate (body.length + 1) (0 : UInt8)).length ≤ fill.length := by
    rw [Nat.zero_add, List.length_replicate, hlen]
  -- memset covers the block, so nothing is left of what malloc gave.
  obtain ⟨m₂, hmemset, hcleared, hreq₂, hfreed₂⟩ := write_owned howns hzero
  have hzeros : fill.take 0 ++ List.replicate (body.length + 1) (0 : UInt8) ++
      fill.drop (0 + (List.replicate (body.length + 1) (0 : UInt8)).length) =
        List.replicate (body.length + 1) 0 := by
    rw [List.take_zero, List.nil_append, List.length_replicate, Nat.zero_add,
      List.drop_eq_nil_of_le hlen.le, List.append_nil]
  rw [hzeros] at hcleared
  -- The body leaves the last byte as it is, which is the NUL.
  have hbody : 0 + body.length ≤ (List.replicate (body.length + 1) (0 : UInt8)).length := by
    rw [Nat.zero_add, List.length_replicate]
    exact Nat.le_succ _
  obtain ⟨m₃, hmemcpy, howns, hreq₃, hfreed₃⟩ := write_owned hcleared hbody
  rw [List.take_zero, List.nil_append, Nat.zero_add, List.drop_replicate, Nat.add_sub_cancel_left]
    at howns
  exact ⟨_, m₁, m₂, m₃, hmalloc, hmemset, hcleared, hmemcpy, howns, by rw [hreq₃, hreq₂, hreq₁],
    by rw [hfreed₃, hfreed₂, hfreed₁]⟩

/-! ### Addresses -/

/-- From one memory to a later one: an address that was given out, and is free, stays free. -/
structure Advances (m m' : Memory) : Prop where
  top_le : m.store.top ≤ m'.store.top
  free : ∀ a < m.store.top, m.store.cells a = none → m'.store.cells a = none

theorem Advances.refl (m : Memory) : Advances m m :=
  ⟨le_rfl, fun _ _ h ↦ h⟩

theorem Advances.trans {m₁ m₂ m₃ : Memory} (h : Advances m₁ m₂) (h' : Advances m₂ m₃) :
    Advances m₁ m₃ where
  top_le := h.top_le.trans h'.top_le
  free a ha hfree := h'.free a (ha.trans_le h.top_le) (h.free a ha hfree)

theorem advances_granted (m : Memory) (b : Block) : Advances m (m.granted b) where
  top_le := Nat.le_succ _
  free _ ha hfree := (Function.update_of_ne ha.ne _ _).trans hfree

theorem advances_refused (m : Memory) : Advances m m.refused :=
  ⟨le_rfl, fun _ _ h ↦ h⟩

theorem advances_put (m : Memory) (a : ℕ) (bs : Bytes) : Advances m (m.put a bs) where
  top_le := le_rfl
  free a' _ hfree := by
    show Function.update m.store.cells a _ a' = none
    rcases eq_or_ne a' a with rfl | hne
    · rw [Function.update_self, hfree, Option.map_none]
    · rw [Function.update_of_ne hne, hfree]

/-- A block that goes leaves one more address free. -/
theorem advances_erase {m m' : Memory} {a : ℕ} (h : m'.store = m.store.erase a) :
    Advances m m' where
  top_le := le_of_eq (congrArg Store.top h).symm
  free a' _ hfree := by
    rw [h]
    show Function.update m.store.cells a none a' = none
    rcases eq_or_ne a' a with rfl | hne
    · rw [Function.update_self]
    · rw [Function.update_of_ne hne, hfree]

/-- The program gives out no address a second time. -/
def GivesOnce (x : Prog α) : Prop :=
  ∀ m r m', x m = .ok (r, m') → Advances m m'

/-- A program that only looks at the memory. -/
theorem givesOnce_of_same {x : Prog α} (h : ∀ m r m', x m = .ok (r, m') → m' = m) :
    GivesOnce x := by
  intro m r m' hrun
  rw [h m r m' hrun]
  exact Advances.refl m

theorem givesOnce_pure (a : α) : GivesOnce (pure a) :=
  givesOnce_of_same fun _ _ _ h ↦ by cases h; rfl

theorem givesOnce_error (e : MemFault) : GivesOnce (fun _ ↦ .error e : Prog α) :=
  givesOnce_of_same fun _ _ _ h ↦ by cases h

/-- **One part of a program after another.** -/
theorem GivesOnce.bind {x : Prog α} {f : α → Prog β} (hx : GivesOnce x)
    (hf : ∀ a, GivesOnce (f a)) : GivesOnce (x >>= f) := by
  intro m r m' h
  rcases hxm : x m with e | ⟨a, m₁⟩
  · rw [bind_of_error hxm] at h
    cases h
  · rw [bind_of_ok hxm] at h
    exact (hx m a m₁ hxm).trans (hf a m₁ r m' h)

theorem GivesOnce.ite {c : Prop} [Decidable c] {x y : Prog α} (hx : GivesOnce x)
    (hy : GivesOnce y) : GivesOnce (if c then x else y) := by
  split_ifs
  · exact hx
  · exact hy

theorem givesOnce_alloc (A : Allocator) (content : ℕ → Block) : GivesOnce (alloc A content) := by
  intro m r m' h
  rw [alloc] at h
  split_ifs at h
  · cases h
    exact advances_granted m _
  · cases h
    exact advances_refused m

theorem givesOnce_malloc (A : Allocator) (n : ℕ) : GivesOnce (malloc A n) :=
  givesOnce_alloc A _

theorem load_eq_ok {p : Option ℕ} (h : load p m = .ok (bs, m')) : m' = m := by
  rcases p with - | a
  · cases h
  · simp only [load] at h
    split at h
    · cases h
      rfl
    · cases h

theorem givesOnce_load (p : Option ℕ) : GivesOnce (load p) :=
  givesOnce_of_same fun _ _ _ h ↦ load_eq_ok h

theorem givesOnce_realloc (A : Allocator) (p : Option ℕ) (n : ℕ) : GivesOnce (realloc A p n) := by
  rcases p with - | a
  · exact givesOnce_malloc A n
  · refine (givesOnce_load (some a)).bind fun bs m r m' h ↦ ?_
    simp only [] at h
    split_ifs at h
    · cases h
      exact (advances_granted m _).trans (advances_erase rfl)
    · cases h
      exact advances_refused m

theorem givesOnce_write (p : Option ℕ) (offset : ℕ) (data : Bytes) :
    GivesOnce (write p offset data) := by
  rcases data with - | ⟨b, data⟩
  · rw [write_nil]
    exact givesOnce_pure ()
  rcases p with - | a
  · exact givesOnce_error _
  · refine (givesOnce_load (some a)).bind fun bs m r m' h ↦ ?_
    split_ifs at h
    cases h
    exact advances_put m a _

theorem givesOnce_read (p : Option ℕ) (n : ℕ) : GivesOnce (read p n) := by
  rcases n with - | n
  · rcases p with - | a
    · exact givesOnce_pure []
    · exact givesOnce_pure []
  rcases p with - | a
  · exact givesOnce_error _
  · refine (givesOnce_load (some a)).bind fun bs m r m' h ↦ ?_
    split_ifs at h
    cases h
    exact Advances.refl m

theorem givesOnce_strlen (p : Option ℕ) : GivesOnce (strlen p) := by
  refine (givesOnce_load p).bind fun bs m r m' h ↦ ?_
  split_ifs at h
  cases h
  exact Advances.refl m

theorem givesOnce_free (p : Option ℕ) : GivesOnce (free p) := by
  rcases p with - | a
  · exact givesOnce_pure ()
  · intro m r m' h
    simp only [free] at h
    split at h
    · cases h
    · cases h
      exact advances_erase rfl
    · cases h
      exact advances_erase rfl

end CMemory
