import MqExits.Text.Lines
import Mathlib.Data.List.Forall2
import Mathlib.Data.List.ModifyLast

/-!
# Records of lines

A log of records, each of a **head** and of **details** under it, all of them lines. A detail has a
tab before it, and a head has not; so a reader knows where a record begins, and needs no more
(`readEntries`).

What is printed may come in pieces: a record with some of its details, and details for which
another record may have come first. `readEntries_printed_iff` says what is read then: the records
as they were printed, each with the details that were printed before the next one, unless some line
is not a line.
-/

namespace CText

namespace LineRecords

/-- A record. -/
@[ext] structure Entry where
  head : Bytes
  details : List Bytes
  deriving DecidableEq

/-- The tab before a detail. -/
def tab : UInt8 := 9

/-- The line of a detail. -/
def detailText (detail : Bytes) : Bytes :=
  tab :: detail ++ [newline]

/-- The lines of a record. -/
def Entry.text (e : Entry) : Bytes :=
  e.head ++ [newline] ++ e.details.flatMap detailText

/-- The record with more details. -/
def Entry.under (e : Entry) (details : List Bytes) : Entry :=
  { e with details := e.details ++ details }

/-- Every line of the record is one line, and the head is not taken for a detail. -/
structure Entry.Whole (e : Entry) : Prop where
  head : newline ∉ e.head
  head_ne_tab : e.head.head? ≠ some tab
  details : ∀ detail ∈ e.details, newline ∉ detail

/-! ### Reading -/

/-- Read one more line. A detail before any head is skipped. -/
def addLine (entries : List Entry) (line : Bytes) : List Entry :=
  if line.head? = some tab then entries.modifyLast fun e ↦ e.under [line.tail]
  else entries ++ [⟨line, []⟩]

/-- The lines that a newline ends. -/
def endedLines (file : Bytes) : List Bytes :=
  (linesOf file).dropLast

/-- The records of a file. -/
def readEntries (file : Bytes) : List Entry :=
  (endedLines file).foldl addLine []

/-- The file is lines. -/
def Ended (file : Bytes) : Prop :=
  file = [] ∨ file.getLast? = some newline

theorem ended_append {file text : Bytes} (hfile : Ended file) (htext : Ended text) :
    Ended (file ++ text) := by
  rcases htext with rfl | htext
  · rwa [List.append_nil]
  · exact .inr (by rw [List.getLast?_append, htext, Option.some_or])

theorem linesOf_ne_nil (file : Bytes) : linesOf file ≠ [] :=
  List.splitOn_ne_nil _ _

/-- The lines on both sides of a newline. -/
theorem linesOf_append_newline (file rest : Bytes) :
    linesOf (file ++ newline :: rest) = linesOf file ++ linesOf rest := by
  induction file using lines_induction with
  | last l hl => rw [linesOf_line hl, linesOf_last hl, List.singleton_append]
  | line l file hl ih =>
    rw [List.append_assoc, List.cons_append, linesOf_line hl, linesOf_line hl, ih,
      List.cons_append]

/-- **Behind ended lines the reader starts again.** -/
theorem endedLines_append {file : Bytes} (h : Ended file) (text : Bytes) :
    endedLines (file ++ text) = endedLines file ++ endedLines text := by
  rcases h with rfl | h
  · rfl
  · obtain ⟨file, rfl⟩ := List.getLast?_eq_some_iff.1 h
    have hnil : linesOf ([] : Bytes) = [[]] := rfl
    rw [endedLines, endedLines, endedLines, List.append_assoc, List.singleton_append,
      linesOf_append_newline, linesOf_append_newline, hnil, List.dropLast_concat,
      List.dropLast_append_of_ne_nil (linesOf_ne_nil text)]

theorem endedLines_line {line : Bytes} (h : newline ∉ line) :
    endedLines (line ++ [newline]) = [line] := by
  rw [endedLines, linesOf_line h]
  rfl

theorem readEntries_append {file : Bytes} (h : Ended file) (text : Bytes) :
    readEntries (file ++ text) = (endedLines text).foldl addLine (readEntries file) := by
  rw [readEntries, readEntries, endedLines_append h, List.foldl_append]

theorem ended_line (line : Bytes) : Ended (line ++ [newline]) :=
  .inr List.getLast?_concat

theorem ended_detailText (detail : Bytes) : Ended (detailText detail) :=
  ended_line _

theorem ended_details (details : List Bytes) : Ended (details.flatMap detailText) := by
  induction details with
  | nil => exact .inl rfl
  | cons detail details ih => exact ended_append (ended_detailText detail) ih

theorem Entry.ended_text (e : Entry) : Ended e.text :=
  ended_append (ended_line e.head) (ended_details e.details)

/-- A detail is read under the last record. -/
theorem readEntries_detailText {file : Bytes} (h : Ended file) {detail : Bytes}
    (hdetail : newline ∉ detail) : readEntries (file ++ detailText detail) =
      (readEntries file).modifyLast fun e ↦ e.under [detail] := by
  have hline : newline ∉ tab :: detail :=
    not_or.2 ⟨by decide, hdetail⟩ ∘ List.mem_cons.1
  rw [readEntries_append h, detailText, endedLines_line hline, List.foldl_cons, List.foldl_nil,
    addLine, if_pos List.head?_cons, List.tail_cons]

theorem readEntries_details {file : Bytes} (h : Ended file) {e : Entry} {before : List Entry}
    (hread : readEntries file = before ++ [e]) {details : List Bytes}
    (hdetails : ∀ detail ∈ details, newline ∉ detail) :
    readEntries (file ++ details.flatMap detailText) = before ++ [e.under details] := by
  induction details using List.reverseRecOn with
  | nil => rw [List.flatMap_nil, List.append_nil, hread, Entry.under, List.append_nil]
  | append_singleton details detail ih =>
    obtain ⟨hdetails, hdetail⟩ := List.forall_mem_append.1 hdetails
    rw [List.flatMap_append, List.flatMap_singleton, ← List.append_assoc,
      readEntries_detailText (ended_append h (ended_details details))
        (hdetail detail (List.mem_singleton_self detail)),
      ih hdetails, List.modifyLast_concat]
    simp only [Entry.under, List.append_assoc]

/-- **A whole record is read as it is.** -/
theorem readEntries_text {file : Bytes} (h : Ended file) {e : Entry} (he : e.Whole) :
    readEntries (file ++ e.text) = readEntries file ++ [e] := by
  have hhead : readEntries (file ++ (e.head ++ [newline])) =
      readEntries file ++ [⟨e.head, []⟩] := by
    rw [readEntries_append h, endedLines_line he.head]
    exact if_neg he.head_ne_tab
  rw [Entry.text, ← List.append_assoc,
    readEntries_details (ended_append h (ended_line e.head)) hhead he.details]
  rfl

theorem newline_notMem_of_mem_linesOf {file line : Bytes} (h : line ∈ linesOf file) :
    newline ∉ line := by
  induction file using lines_induction with
  | last l hl =>
    rw [linesOf_last hl, List.mem_singleton] at h
    rwa [h]
  | line l file hl ih =>
    rw [linesOf_line hl] at h
    exact (List.mem_cons.1 h).elim (fun heq ↦ heq ▸ hl) ih

/-- What is read is whole. -/
theorem whole_of_mem_readEntries {file : Bytes} {e : Entry} (h : e ∈ readEntries file) :
    e.Whole := by
  have hlines : ∀ line ∈ endedLines file, newline ∉ line := fun line hline ↦
    newline_notMem_of_mem_linesOf (List.dropLast_subset _ hline)
  rw [readEntries] at h
  generalize endedLines file = lines at h hlines
  induction lines using List.reverseRecOn generalizing e with
  | nil => cases h
  | append_singleton lines line ih =>
    obtain ⟨hlines, hline⟩ := List.forall_mem_append.1 hlines
    have hline := hline line (List.mem_singleton_self line)
    rw [List.foldl_append, List.foldl_cons, List.foldl_nil, addLine] at h
    split_ifs at h with htab
    · -- A detail belongs to the last record, if there is one.
      rcases List.eq_nil_or_concat (lines.foldl addLine []) with hnil | ⟨before, last, hlast⟩
      · rw [hnil] at h
        cases h
      · rw [List.concat_eq_append] at hlast
        rw [hlast, List.modifyLast_concat] at h
        rcases List.mem_append.1 h with h | h
        · exact ih (hlast ▸ List.mem_append_left _ h) hlines
        · obtain rfl := List.mem_singleton.1 h
          have hwhole : last.Whole := ih (by rw [hlast]; simp) hlines
          refine ⟨hwhole.head, hwhole.head_ne_tab, ?_⟩
          refine List.forall_mem_append.2 ⟨hwhole.details, ?_⟩
          intro detail hdetail
          rw [List.mem_singleton.1 hdetail]
          exact mt List.mem_of_mem_tail hline
    · rcases List.mem_append.1 h with h | h
      · exact ih h hlines
      · obtain rfl := List.mem_singleton.1 h
        exact ⟨hline, htab, fun _ hnone ↦ by cases hnone⟩

/-! ### What is printed in pieces -/

/-- A record with its first details, or a detail. -/
inductive Piece
  | entry (e : Entry)
  | detail (detail : Bytes)

namespace Piece

def text : Piece → Bytes
  | .entry e => e.text
  | .detail d => detailText d

def entry? : Piece → Option Entry
  | .entry e => some e
  | .detail _ => none

def detail? : Piece → Option Bytes
  | .entry _ => none
  | .detail d => some d

end Piece

/-- The records with the details that come between them and the next one. -/
def withDetails (entries : List Entry) (details : List (List Bytes)) : List Entry :=
  List.zipWith Entry.under entries details

theorem ended_pieces (pieces : List Piece) : Ended (pieces.flatMap Piece.text) := by
  induction pieces with
  | nil => exact .inl rfl
  | cons piece pieces ih =>
    refine ended_append ?_ ih
    rcases piece with e | detail
    · exact e.ended_text
    · exact ended_detailText detail

/-- The pieces are read as their records, in order, each with the details printed behind it. -/
structure ReadAs (file : Bytes) (pieces : List Piece) (details : List (List Bytes)) : Prop where
  length_eq : details.length = (pieces.filterMap Piece.entry?).length
  flatten_eq : details.flatten = pieces.filterMap Piece.detail?
  read_eq : readEntries (file ++ pieces.flatMap Piece.text) =
    readEntries file ++ withDetails (pieces.filterMap Piece.entry?) details

/-- A detail comes behind a record. -/
def Headed (pieces : List Piece) : Prop :=
  ∀ front detail, front ++ [.detail detail] <+: pieces → front.filterMap Piece.entry? ≠ []

theorem Headed.of_append {pieces : List Piece} {piece : Piece} (h : Headed (pieces ++ [piece])) :
    Headed pieces :=
  fun front detail hfront ↦ h front detail (hfront.trans (List.prefix_append _ _))

theorem headed_nil : Headed [] :=
  fun front detail hfront ↦ absurd (List.prefix_nil.1 hfront) (by simp)

/-- One piece more, with a record before it if it is a detail. -/
theorem Headed.append {pieces : List Piece} {piece : Piece} (h : Headed pieces)
    (hpiece : piece.detail?.isSome → pieces.filterMap Piece.entry? ≠ []) :
    Headed (pieces ++ [piece]) := by
  intro front detail hfront
  rcases List.prefix_concat_iff.1 hfront with heq | hfront
  · obtain ⟨rfl, rfl⟩ := List.append_singleton_inj.1 heq
    exact hpiece rfl
  · exact h front detail hfront

/-- One record more. -/
theorem ReadAs.entry {file : Bytes} (hfile : Ended file) {pieces : List Piece}
    {details : List (List Bytes)} (h : ReadAs file pieces details) {e : Entry} (he : e.Whole) :
    ReadAs file (pieces ++ [.entry e]) (details ++ [[]]) := by
  have hlast : e.under [] = e := by rw [Entry.under, List.append_nil]
  refine ⟨?_, ?_, ?_⟩
  · simp [h.length_eq, Piece.entry?]
  · simp [h.flatten_eq, Piece.detail?]
  · have hentries : (pieces ++ [Piece.entry e]).filterMap Piece.entry? =
        pieces.filterMap Piece.entry? ++ [e] := by
      simp [Piece.entry?]
    rw [hentries, withDetails, List.zipWith_append h.length_eq.symm, List.flatMap_append,
      List.flatMap_singleton, ← List.append_assoc, Piece.text,
      readEntries_text (ended_append hfile (ended_pieces pieces)) he, h.read_eq, withDetails,
      List.zipWith_cons_cons, List.zipWith_nil_left, hlast, List.append_assoc]

theorem Entry.under_under (e : Entry) (details details' : List Bytes) :
    (e.under details).under details' = e.under (details ++ details') := by
  simp only [Entry.under, List.append_assoc]

/-- One detail more, under the last record. -/
theorem ReadAs.detail {file : Bytes} (hfile : Ended file) {pieces : List Piece}
    {details : List (List Bytes)} (h : ReadAs file pieces details)
    (hne : pieces.filterMap Piece.entry? ≠ []) {detail : Bytes} (hdetail : newline ∉ detail) :
    ∃ details', ReadAs file (pieces ++ [.detail detail]) details' := by
  -- There is a last record, so the details have a last list too.
  obtain ⟨entries, e, hentries⟩ := (List.eq_nil_or_concat' _).resolve_left hne
  have hlength := h.length_eq
  rw [hentries, List.length_append, List.length_singleton] at hlength
  obtain ⟨front, last, rfl⟩ := (List.eq_nil_or_concat' details).resolve_left
    (List.ne_nil_of_length_eq_add_one hlength)
  have hfront : front.length = entries.length := by simpa using hlength
  have hnew : (pieces ++ [Piece.detail detail]).filterMap Piece.entry? = entries ++ [e] := by
    simp [Piece.entry?, hentries]
  -- The detail is the last one of that list, and the other lists are as they were.
  refine ⟨front ++ [last ++ [detail]], ?_, ?_, ?_⟩
  · rw [hnew, List.length_append, List.length_append, hfront]
    rfl
  · have hflatten := h.flatten_eq
    rw [List.flatten_append, List.flatten_singleton] at hflatten
    rw [List.flatten_append, List.flatten_singleton, List.filterMap_append, ← hflatten,
      List.append_assoc]
    rfl
  · have hread := h.read_eq
    rw [hentries, withDetails, List.zipWith_append hfront.symm, List.zipWith_cons_cons,
      List.zipWith_nil_left, ← List.append_assoc] at hread
    rw [hnew, withDetails, List.zipWith_append hfront.symm, List.zipWith_cons_cons,
      List.zipWith_nil_left, ← List.append_assoc, List.flatMap_append, List.flatMap_singleton,
      ← List.append_assoc, Piece.text,
      readEntries_detailText (ended_append hfile (ended_pieces pieces)) hdetail, hread,
      List.modifyLast_concat, Entry.under_under]

/-- A record whose details are a part of those of a whole one is whole. -/
theorem Entry.Whole.of_under {e : Entry} {details : List Bytes} (h : (e.under details).Whole) :
    e.Whole :=
  ⟨h.head, h.head_ne_tab, fun _ hdetail ↦ h.details _ (List.mem_append_left _ hdetail)⟩

theorem exists_mem_withDetails {entries : List Entry} {details : List (List Bytes)}
    (hlength : details.length = entries.length) {e : Entry} (he : e ∈ entries) :
    ∃ under, e.under under ∈ withDetails entries details := by
  obtain ⟨n, hn, rfl⟩ := List.mem_iff_getElem.1 he
  have hn' : n < (withDetails entries details).length := by
    rw [withDetails, List.length_zipWith, hlength, min_self]
    exact hn
  refine ⟨details[n], ?_⟩
  rw [← List.getElem_zipWith (h := hn')]
  exact List.getElem_mem hn'

/-- **What is read of what is printed in pieces**: the records as they were printed, each with the
details behind it, exactly if the lines of the records are lines. -/
theorem exists_readAs_iff {file : Bytes} (hfile : Ended file) {pieces : List Piece}
    (hheaded : Headed pieces)
    (hdetails : ∀ detail ∈ pieces.filterMap Piece.detail?, newline ∉ detail) :
    (∃ details, ReadAs file pieces details) ↔
      ∀ e ∈ pieces.filterMap Piece.entry?, e.Whole := by
  constructor
  · rintro ⟨details, h⟩ e he
    obtain ⟨under, hunder⟩ := exists_mem_withDetails h.length_eq he
    have hmem : e.under under ∈ readEntries (file ++ pieces.flatMap Piece.text) := by
      rw [h.read_eq]
      exact List.mem_append_right _ hunder
    exact (whole_of_mem_readEntries hmem).of_under
  · intro hwhole
    induction pieces using List.reverseRecOn with
    | nil => exact ⟨[], rfl, rfl, by simp [withDetails]⟩
    | append_singleton pieces piece ih =>
      simp only [List.filterMap_append, List.forall_mem_append] at hdetails hwhole
      obtain ⟨details, hread⟩ := ih hheaded.of_append hdetails.1 hwhole.1
      rcases piece with e | detail
      · exact ⟨_, hread.entry hfile (hwhole.2 e (List.mem_singleton_self e))⟩
      · exact hread.detail hfile (hheaded pieces detail List.prefix_rfl)
          (hdetails.2 detail (List.mem_singleton_self detail))

/-! ### Two ways to print the same -/

/-- The second record is the first with more details. -/
def Entry.Begins (e e' : Entry) : Prop :=
  ∃ details, e.under details = e'

theorem forall₂_begins {entries : List Entry} {details : List (List Bytes)}
    (hlength : details.length = entries.length) :
    List.Forall₂ Entry.Begins entries (withDetails entries details) := by
  induction entries generalizing details with
  | nil =>
    obtain rfl := List.length_eq_zero_iff.1 hlength
    exact .nil
  | cons e entries ih =>
    obtain ⟨first, rest, rfl⟩ := List.exists_cons_of_length_eq_add_one hlength
    exact .cons ⟨first, rfl⟩ (ih (Nat.succ.inj hlength))

/-- **Pieces that print the same have the same records**, if these can be told by how they begin. -/
theorem ReadAs.eq_of_text_eq {α : Type*} {f : α → Entry}
    (hf : Relator.LeftUnique fun a e ↦ (f a).Begins e) {as as' : List α} {file : Bytes}
    {pieces pieces' : List Piece} {details details' : List (List Bytes)}
    (has : pieces.filterMap Piece.entry? = as.map f)
    (has' : pieces'.filterMap Piece.entry? = as'.map f) (h : ReadAs file pieces details)
    (h' : ReadAs file pieces' details')
    (heq : file ++ pieces.flatMap Piece.text = file ++ pieces'.flatMap Piece.text) : as = as' := by
  have hread : withDetails (as.map f) details = withDetails (as'.map f) details' := by
    refine List.append_cancel_left (show readEntries file ++ _ = readEntries file ++ _ from ?_)
    rw [← has, ← has', ← h.read_eq, ← h'.read_eq, heq]
  have hbegins := forall₂_begins (has ▸ h.length_eq)
  have hbegins' := forall₂_begins (has' ▸ h'.length_eq)
  rw [hread, List.forall₂_map_left_iff] at hbegins
  rw [List.forall₂_map_left_iff] at hbegins'
  exact List.left_unique_forall₂' hf hbegins hbegins'

end LineRecords

end CText
