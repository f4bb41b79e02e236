import MqExits.Text.Bytes

/-!
# Masks written as names

A mask is shown to a reader as the names of its bits. A `Table` lists masks with what each is
called; `shown` keeps the rows that a mask meets, and `group` puts one word in the place of a table
when the mask has all of it. Reading the names back takes the union of their masks.

`union_shown` and `union_group` say what is read back: the mask, cut down to the bits of the table.
The one hypothesis is that the rows are single bits.

The last part is about the text in which the names stand: words with a blank after each.
-/

namespace FlagNames

variable {w : ℕ} {α : Type*}

/-- Masks, and what each is called. -/
abbrev Table (w : ℕ) (α : Type*) := List (BitVec w × α)

/-! ### Tables -/

/-- The bits of all rows. -/
def Table.union (t : Table w α) : BitVec w :=
  t.foldr (fun e m ↦ e.1 ||| m) 0

/-- The names of all rows. -/
def Table.names (t : Table w α) : List α :=
  t.map Prod.snd

/-- The rows that a mask meets. -/
def Table.shown (t : Table w α) (x : BitVec w) : Table w α :=
  t.filter fun e ↦ x &&& e.1 ≠ 0

/-- One row for all of `all`, or else the rows of the table that the mask meets. -/
def Table.group (all : BitVec w) (word : α) (t : Table w α) (x : BitVec w) : Table w α :=
  if x &&& all = all then [(all, word)] else t.shown x

@[simp] theorem Table.union_cons (e : BitVec w × α) (t : Table w α) :
    Table.union (e :: t) = e.1 ||| t.union := rfl

@[simp] theorem Table.union_append (t u : Table w α) :
    Table.union (t ++ u) = t.union ||| u.union := by
  induction t with
  | nil => exact (BitVec.zero_or).symm
  | cons e t ih =>
    rw [List.cons_append, union_cons, union_cons, ih, BitVec.or_assoc]

@[simp] theorem Table.names_append (t u : Table w α) :
    Table.names (t ++ u) = t.names ++ u.names :=
  List.map_append

theorem Table.names_subset {t u : Table w α} (h : t ⊆ u) : t.names ⊆ u.names :=
  List.map_subset _ h

/-- Each row is one bit. -/
def Table.Single (t : Table w α) : Prop :=
  ∀ e ∈ t, ∃ i : Fin w, e.1 = BitVec.twoPow w i

instance (t : Table w α) : Decidable t.Single := by
  unfold Table.Single
  infer_instance

/-- A mask has a bit, or nothing of it. -/
theorem and_twoPow_eq (x : BitVec w) (i : ℕ) :
    x &&& BitVec.twoPow w i = 0 ∨ x &&& BitVec.twoPow w i = BitVec.twoPow w i := by
  rw [BitVec.and_twoPow]
  split_ifs
  · exact .inr rfl
  · exact .inl rfl

/-- **The rows shown are the bits of the mask in the table.** -/
theorem Table.union_shown {t : Table w α} (ht : t.Single) (x : BitVec w) :
    (t.shown x).union = x &&& t.union := by
  induction t with
  | nil => exact (BitVec.and_zero).symm
  | cons e t ih =>
    have htail := ih fun e he ↦ ht e (List.mem_cons_of_mem _ he)
    rw [shown] at htail ⊢
    obtain ⟨i, hi⟩ := ht e List.mem_cons_self
    rw [List.filter_cons, union_cons, BitVec.and_or_distrib_left]
    rcases and_twoPow_eq x i with h | h
    · rw [if_neg (by simp [hi, h]), htail, hi, h]
      exact BitVec.zero_or.symm
    · rw [hi, h, ← htail]
      split_ifs with hmeets
      · rw [union_cons, hi]
      · have hzero : BitVec.twoPow w i = 0 := by simpa [hi, h] using hmeets
        rw [hzero]
        exact BitVec.zero_or.symm

theorem Table.union_group {all : BitVec w} {word : α} {t : Table w α} (ht : t.Single)
    (hall : t.union = all) (x : BitVec w) : (Table.group all word t x).union = x &&& all := by
  rw [group]
  split_ifs with h
  · rw [h, union_cons]
    exact BitVec.or_zero
  · rw [union_shown ht, hall]

theorem Table.shown_append (t u : Table w α) (x : BitVec w) :
    Table.shown (t ++ u) x = t.shown x ++ u.shown x :=
  List.filter_append _ _

theorem Table.shown_subset {t s : Table w α} (h : t ⊆ s) (x : BitVec w) : t.shown x ⊆ s :=
  fun _ he ↦ h (List.mem_of_mem_filter he)

theorem Table.group_subset {all : BitVec w} {word : α} {t s : Table w α}
    (h : (all, word) :: t ⊆ s) (x : BitVec w) : Table.group all word t x ⊆ s := by
  obtain ⟨hword, hbits⟩ := List.cons_subset.1 h
  rw [group]
  split_ifs
  · exact List.cons_subset.2 ⟨hword, List.nil_subset _⟩
  · exact shown_subset hbits x

/-- Nothing is shown of a mask that has no bit of the table. -/
theorem Table.shown_eq_nil_iff {t : Table w α} {x : BitVec w} :
    t.shown x = [] ↔ x &&& t.union = 0 := by
  rw [shown, List.filter_eq_nil_iff]
  induction t with
  | nil => exact iff_of_true (by simp) BitVec.and_zero
  | cons e t ih =>
    rw [List.forall_mem_cons, ih, union_cons, BitVec.and_or_distrib_left]
    simp only [ne_eq, decide_not, Bool.not_eq_eq_eq_not, Bool.not_true, decide_eq_false_iff_not,
      not_not]
    exact BitVec.or_eq_zero_iff.symm

/-- A loop that appends something for each row the mask meets. -/
theorem Table.foldl_shown {β : Type*} (f : α → List β) (t : Table w α) (x : BitVec w)
    (acc : List β) :
    t.foldl (fun acc e ↦ if x &&& e.1 ≠ 0 then acc ++ f e.2 else acc) acc =
      acc ++ (t.shown x).names.flatMap f := by
  induction t generalizing acc with
  | nil => simp [shown, names]
  | cons e t ih =>
    rw [List.foldl_cons, ih, shown, shown]
    by_cases hmeets : x &&& e.1 ≠ 0
    · rw [if_pos hmeets, List.filter_cons_of_pos (by simpa using hmeets), List.append_assoc]
      rfl
    · rw [if_neg hmeets, List.filter_cons_of_neg (by simpa using hmeets)]

/-! ### Reading names back -/

section Read

variable [DecidableEq α]

/-- What a name stands for. -/
def Table.read (t : Table w α) (name : α) : Option (BitVec w) :=
  (t.find? fun e ↦ e.2 = name).map Prod.fst

/-- The union of what the names stand for. -/
def Table.readAll (t : Table w α) (names : List α) : BitVec w :=
  names.foldr (fun name m ↦ (t.read name).getD 0 ||| m) 0

@[simp] theorem Table.readAll_cons (t : Table w α) (name : α) (names : List α) :
    t.readAll (name :: names) = (t.read name).getD 0 ||| t.readAll names := rfl

@[simp] theorem Table.readAll_append (t : Table w α) (l l' : List α) :
    t.readAll (l ++ l') = t.readAll l ||| t.readAll l' := by
  induction l with
  | nil => exact (BitVec.zero_or).symm
  | cons name l ih => rw [List.cons_append, readAll_cons, readAll_cons, ih, BitVec.or_assoc]

/-- A name that is not in the table stands for nothing. -/
theorem Table.read_eq_none {t : Table w α} {name : α} (h : name ∉ t.names) :
    t.read name = none := by
  rw [read, Option.map_eq_none_iff, List.find?_eq_none]
  intro e he
  have hne : e.2 ≠ name := fun heq ↦ h (heq ▸ List.mem_map_of_mem he)
  simpa using hne

/-- Names outside the table add nothing. -/
theorem Table.readAll_eq_zero {t : Table w α} {l : List α} (h : ∀ name ∈ l, name ∉ t.names) :
    t.readAll l = 0 := by
  induction l with
  | nil => rfl
  | cons name l ih =>
    rw [readAll_cons, read_eq_none (h name List.mem_cons_self),
      ih fun name hname ↦ h name (List.mem_cons_of_mem _ hname)]
    exact BitVec.zero_or

/-- In a table without two rows of one name, a row is read back from its name. -/
theorem Table.read_of_mem {t : Table w α} (ht : t.names.Nodup) {e : BitVec w × α} (he : e ∈ t) :
    t.read e.2 = some e.1 := by
  induction t with
  | nil => simp at he
  | cons f t ih =>
    obtain ⟨hf, ht⟩ := List.nodup_cons.1 (show (f.2 :: Table.names t).Nodup from ht)
    rw [read, List.find?_cons]
    rcases List.mem_cons.1 he with rfl | he
    · simp
    · have hne : f.2 ≠ e.2 := fun heq ↦ hf (heq ▸ List.mem_map_of_mem he)
      simpa [hne, read] using ih ht he

/-- **The names of some rows are read back as their union.** -/
theorem Table.readAll_names {t u : Table w α} (ht : t.names.Nodup) (hu : u ⊆ t) :
    t.readAll u.names = u.union := by
  induction u with
  | nil => rfl
  | cons e u ih =>
    obtain ⟨he, hu⟩ := List.cons_subset.1 hu
    show t.readAll (e.2 :: Table.names u) = _
    rw [readAll_cons, read_of_mem ht he, ih hu, union_cons, Option.getD_some]

end Read

end FlagNames

namespace CText

/-! ### Words in a text -/

/-- The blank. -/
def blank : UInt8 := 32

/-- The words of a text: what stands between its blanks. -/
def words (s : Bytes) : List Bytes :=
  (s.splitOn blank).filter (· ≠ [])

/-- A text can be read as a word. -/
def IsWord (s : Bytes) : Prop :=
  s ≠ [] ∧ blank ∉ s

instance (s : Bytes) : Decidable (IsWord s) := by
  unfold IsWord
  infer_instance

@[simp] theorem words_nil : words [] = [] := rfl

theorem words_word {s : Bytes} (hs : IsWord s) : words s = [s] := by
  rw [words, List.splitOn_eq_singleton hs.2]
  simp [hs.1]

theorem words_cons {s : Bytes} (hs : IsWord s) (rest : Bytes) :
    words (s ++ blank :: rest) = s :: words rest := by
  rw [words, List.splitOn_append_cons_self_of_not_mem hs.2,
    List.filter_cons_of_pos (by simpa using hs.1), words]

/-- Each word with a blank after it. -/
def spaced (l : List Bytes) : Bytes :=
  l.flatMap (· ++ [blank])

@[simp] theorem spaced_nil : spaced [] = [] := rfl

@[simp] theorem spaced_cons (s : Bytes) (l : List Bytes) :
    spaced (s :: l) = s ++ blank :: spaced l := by
  rw [spaced, List.flatMap_cons, List.append_assoc]
  rfl

@[simp] theorem spaced_append (l l' : List Bytes) : spaced (l ++ l') = spaced l ++ spaced l' :=
  List.flatMap_append

theorem not_mem_spaced {c : UInt8} (hc : c ≠ blank) {l : List Bytes} (hl : ∀ s ∈ l, c ∉ s) :
    c ∉ spaced l := by
  intro h
  obtain ⟨s, hs, h⟩ := List.mem_flatMap.1 h
  rcases List.mem_append.1 h with h | h
  · exact hl s hs h
  · exact hc (List.mem_singleton.1 h)

/-- **Words with a blank after each are read back.** -/
theorem words_spaced_append {l : List Bytes} (hl : ∀ s ∈ l, IsWord s) (rest : Bytes) :
    words (spaced l ++ rest) = l ++ words rest := by
  induction l with
  | nil => rfl
  | cons s l ih =>
    obtain ⟨hs, hl⟩ := List.forall_mem_cons.1 hl
    rw [spaced_cons, List.append_assoc, List.cons_append, words_cons hs, ih hl]
    rfl

theorem words_spaced {l : List Bytes} (hl : ∀ s ∈ l, IsWord s) : words (spaced l) = l := by
  have h := words_spaced_append hl []
  rwa [List.append_nil, words_nil, List.append_nil] at h

/-- Put a word before the first of a list with no blank between. -/
def glue (s : Bytes) : List Bytes → List Bytes
  | [] => [s]
  | s' :: l => (s ++ s') :: l

/-- A word without a blank after it is read as one with the next. -/
theorem words_append_spaced {s : Bytes} (hs : IsWord s) {l : List Bytes} (hl : ∀ s ∈ l, IsWord s) :
    words (s ++ spaced l) = glue s l := by
  match l, hl with
  | [], _ => rw [spaced_nil, List.append_nil, words_word hs, glue]
  | s' :: l, hl =>
    obtain ⟨hs', hl⟩ := List.forall_mem_cons.1 hl
    have hword : IsWord (s ++ s') :=
      ⟨by simp [hs.1], fun h ↦ (List.mem_append.1 h).elim hs.2 hs'.2⟩
    rw [spaced_cons, ← List.append_assoc, words_cons hword, glue]
    exact congrArg _ (words_spaced hl)

end CText
