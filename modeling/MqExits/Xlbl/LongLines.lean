import MqExits.Xlbl.CertificateLabel

/-!
# Lines that are longer than the buffer

`fgets` returns a longer line in pieces of 2046 bytes, and `readConfigFile` takes each piece for a
line. So the list has the entries of all the pieces of all the lines (`readConfigFile_lineEntries`),
and a rule can come out of the tail of a line: of a comment, or of a value that is too long. The
lines are read as they should be exactly when no piece behind the first text of a line has the form
of a mapping (`linesObeyed_iff`).

## What a line may contribute

One mapping at most, read from its start, and nothing if it is a comment (`Obeyed`). Blanks at the
start of a line are trimmed, and a piece may consist of nothing else; so the start of a line may be
in a later piece than the first, and the mapping of that piece is the line's own.

A piece behind the first text of its line is trimmed and parsed like a line, so it may state a
mapping of its own, whatever comes before it. That is what the condition excludes, for each piece by
itself (`NoRuleInTail`).
-/

namespace MqExits.Xlbl

open CText Outcome NodeHeap

/-! ### The entries of a line -/

/-- The entries of the pieces of a line. -/
def lineEntries (line : Bytes) : List XLBLMAPENTRY :=
  (List.range (line.length / 2046 + 1)).filterMap fun k ↦ readEntry (pieceAt 2046 line k)

theorem lineEntries_short {line : Bytes} (h : line.length < 2046) :
    lineEntries line = (readEntry line).toList := by
  rw [lineEntries, Nat.div_eq_of_lt h]
  show [0].filterMap _ = _
  rw [filterMap_cons_toList, pieceAt_zero_of_le h.le, List.filterMap_nil, List.append_nil]

theorem lineEntries_long {line : Bytes} (h : 2046 ≤ line.length) :
    lineEntries line = (readEntry (line.take 2046)).toList ++ lineEntries (line.drop 2046) := by
  have hcount : line.length / 2046 = (line.drop 2046).length / 2046 + 1 := by
    rw [List.length_drop, ← Nat.div_eq_sub_div (by decide) h]
  rw [lineEntries, hcount, List.range_succ_eq_map, filterMap_cons_toList, List.filterMap_map,
    lineEntries]
  simp only [Function.comp_def, Nat.succ_eq_add_one, pieceAt_succ]
  rfl

theorem readEntry_append_newline {line : Bytes} (hnul : (0 : UInt8) ∉ line) :
    readEntry (line ++ [newline]) = readEntry line := by
  have hnul' : (0 : UInt8) ∉ line ++ [newline] := by
    intro h
    rcases List.mem_append.1 h with h | h
    · exact hnul h
    · exact absurd h (by decide)
  rw [readEntry, readEntry, cstr_eq_self hnul', cstr_eq_self hnul, lineEntry_append_newline]

/-- What the reads make of a line of any length, with `tail` left behind it, once it is known of
short lines. The induction is on the length of the line. -/
theorem filterMap_readsFrom (rest tail : Bytes)
    (hshort : ∀ {line : Bytes} {n : ℕ}, newline ∉ line → (0 : UInt8) ∉ line →
      line.length < 2046 → (line ++ rest).length ≤ n → ∃ n', tail.length ≤ n' ∧
        (readsFrom 2046 n (line ++ rest)).filterMap readEntry =
          (readEntry line).toList ++ (readsFrom 2046 n' tail).filterMap readEntry)
    {line : Bytes} (hline : newline ∉ line) (hnul : (0 : UInt8) ∉ line) {n : ℕ}
    (hn : (line ++ rest).length ≤ n) :
    ∃ n', tail.length ≤ n' ∧ (readsFrom 2046 n (line ++ rest)).filterMap readEntry =
      lineEntries line ++ (readsFrom 2046 n' tail).filterMap readEntry := by
  induction hl : line.length using Nat.strong_induction_on generalizing line n with
  | _ len ih =>
    rcases Nat.lt_or_ge line.length 2046 with hlt | hlong
    · rw [lineEntries_short hlt]
      exact hshort hline hnul hlt hn
    · -- A long line gives a piece of 2046 bytes, and the rest of it is read as a line of its own.
      have hne : line ++ rest ≠ [] := by
        intro hnil
        rw [(List.append_eq_nil_iff.1 hnil).1] at hlong
        exact absurd hlong (by decide)
      obtain ⟨n', hn', hreads⟩ := readsFrom_of_ne_nil (n := 2046) (by decide) hne hn
      rw [readLine_long hline hlong] at hreads hn'
      have hlt : (line.drop 2046).length < len := by
        rw [List.length_drop]
        omega
      obtain ⟨n'', hn'', hrest⟩ := ih _ hlt (mt List.mem_of_mem_drop hline)
        (mt List.mem_of_mem_drop hnul) hn' rfl
      refine ⟨n'', hn'', ?_⟩
      rw [hreads, filterMap_cons_toList, hrest, lineEntries_long hlong, List.append_assoc]

/-- A line with a newline, and what follows that. -/
theorem filterMap_readsFrom_line {line : Bytes} (hline : newline ∉ line)
    (hnul : (0 : UInt8) ∉ line) (rest : Bytes) {n : ℕ}
    (hn : (line ++ newline :: rest).length ≤ n) :
    ∃ n', rest.length ≤ n' ∧ (readsFrom 2046 n (line ++ newline :: rest)).filterMap readEntry =
      lineEntries line ++ (readsFrom 2046 n' rest).filterMap readEntry := by
  refine filterMap_readsFrom _ rest (fun {line n} hline hnul hlt hn ↦ ?_) hline hnul hn
  obtain ⟨n', hn', hreads⟩ := readsFrom_of_ne_nil (n := 2046) (by decide) (by simp) hn
  rw [readLine_line hline hlt rest] at hreads hn'
  exact ⟨n', hn', by rw [hreads, filterMap_cons_toList, readEntry_append_newline hnul]⟩

/-- What follows the last newline. -/
theorem filterMap_readsFrom_last {line : Bytes} (hline : newline ∉ line)
    (hnul : (0 : UInt8) ∉ line) {n : ℕ} (hn : line.length ≤ n) :
    (readsFrom 2046 n line).filterMap readEntry = lineEntries line := by
  have hall : ∃ n', 0 ≤ n' ∧ (readsFrom 2046 n (line ++ [])).filterMap readEntry =
      lineEntries line ++ (readsFrom 2046 n' []).filterMap readEntry := by
    refine filterMap_readsFrom [] [] (fun {line n} hline hnul hlt hn ↦ ⟨0, le_rfl, ?_⟩) hline hnul
      (by rwa [List.append_nil])
    rw [List.append_nil] at hn ⊢
    rcases eq_or_ne line [] with rfl | hne
    · rw [readsFrom_nil]
      rfl
    · obtain ⟨n', -, hreads⟩ := readsFrom_of_ne_nil (n := 2046) (by decide) hne hn
      rw [readLine_last hline hlt.le] at hreads
      rw [hreads, filterMap_cons_toList, readsFrom_nil, readsFrom_nil]
  obtain ⟨n', -, hall⟩ := hall
  rwa [List.append_nil, readsFrom_nil, List.filterMap_nil, List.append_nil] at hall

/-- **The entries of a file** are those of its lines, however long they are. -/
theorem fileEntries_eq_lineEntries {file : Bytes} (hnul : (0 : UInt8) ∉ file) :
    fileEntries file = (linesOf file).flatMap lineEntries := by
  have hall : ∀ n, file.length ≤ n →
      (readsFrom 2046 n file).filterMap readEntry = (linesOf file).flatMap lineEntries := by
    induction file using lines_induction with
    | last l hl =>
      intro n hn
      rw [filterMap_readsFrom_last hl hnul hn, linesOf_last hl, List.flatMap_singleton]
    | line l rest hl ih =>
      intro n hn
      have hnul' : (0 : UInt8) ∉ l ∧ (0 : UInt8) ∉ rest := by
        simpa [newline] using hnul
      obtain ⟨n', hn', hread⟩ := filterMap_readsFrom_line hl hnul'.1 rest hn
      rw [hread, ih hnul'.2 n' hn', linesOf_line hl, List.flatMap_cons]
  exact hall _ le_rfl

/-- **The list that is read** has the entries of the lines, in order. -/
theorem readConfigFile_lineEntries {file : Bytes} (hnul : (0 : UInt8) ∉ file)
    (heap : Heap XLBLMAPENTRY) :
    ∃ data, readConfigFile ⟨heap, none⟩ (.opened file) = .ok (data, 0) ∧
      ∃ l, Chain data.heap data.pMapList l ∧
        l.map Prod.snd = (linesOf file).flatMap lineEntries := by
  have hstart : Holds ⟨⟨heap, none⟩, none, List.replicate CONFIG_BUFFER_SIZE 0⟩ [] :=
    ⟨[], .nil heap, rfl, rfl⟩
  obtain ⟨s, hloop, l, hchain, hl, -⟩ := readLoop_ok (Nat.lt_succ_self _) hstart
  refine ⟨s.data, ?_, l, hchain, by rw [hl, fileEntries_eq_lineEntries hnul, List.nil_append]⟩
  simp only [readConfigFile, hloop, bind, Except.bind]
  rfl

/-! ### What a line may contribute -/

/-- The text of a mapping. -/
def Mapping.text (m : Mapping) : Bytes :=
  m.kind.keyword ++ m.name ++ 61 :: m.label

/-- A line contributes one mapping at most, which is read from its start, and none as a comment. -/
structure Obeyed (line : Bytes) : Prop where
  once : (lineEntries line).length ≤ 1
  fromStart : ∀ k entry, readEntry (pieceAt 2046 line k) = some entry →
    trimmed (line.take (2046 * k)) = [] ∧ ∃ m : Mapping, m.entry = entry ∧ m.text <+: trimmed line
  comment : (trimmed line).headD 0 = 35 → lineEntries line = []

/-- The list that is read consists of what the lines contribute, and each line that ends in a
newline contributes what it may. -/
def LinesObeyed (heap : Heap XLBLMAPENTRY) (file : Bytes) : Prop :=
  ∃ data, readConfigFile ⟨heap, none⟩ (.opened file) = .ok (data, 0) ∧
    (∃ l, Chain data.heap data.pMapList l ∧
      l.map Prod.snd = (linesOf file).flatMap lineEntries) ∧
    ∀ line ∈ (linesOf file).dropLast, Obeyed line

/-- No piece of the line states a mapping, unless there are only blanks before it. -/
def NoRuleInTail (line : Bytes) : Prop :=
  ∀ k m, trimmed (line.take (2046 * k)) ≠ [] → ¬ States (trimmed (pieceAt 2046 line k)) m

/-- A piece has the entry of the mapping that it states. -/
theorem readEntry_pieceAt_iff {line : Bytes} (hnul : (0 : UInt8) ∉ line) {k : ℕ}
    {entry : XLBLMAPENTRY} :
    readEntry (pieceAt 2046 line k) = some entry ↔
      ∃ m, States (trimmed (pieceAt 2046 line k)) m ∧ m.entry = entry := by
  have hpiece : (0 : UInt8) ∉ pieceAt 2046 line k := fun h ↦
    hnul (List.mem_of_mem_drop (List.mem_of_mem_take h))
  have hlen : (trimmed (pieceAt 2046 line k)).length < 2 ^ 64 := by
    have hle := trimmed_length_le (pieceAt 2046 line k)
    rw [pieceAt, List.length_take] at hle
    rw [pieceAt]
    omega
  have h := parseLine_eq_some_iff (fun h ↦ hpiece (mem_of_mem_trimmed h)) (r := []) rfl hlen
    (e := entry)
  rw [List.append_nil] at h
  rw [readEntry, cstr_eq_self hpiece, lineEntry, h]

theorem mem_lineEntries_iff {line : Bytes} {entry : XLBLMAPENTRY} :
    entry ∈ lineEntries line ↔ ∃ k, readEntry (pieceAt 2046 line k) = some entry := by
  rw [lineEntries, List.mem_filterMap]
  constructor
  · rintro ⟨k, -, h⟩
    exact ⟨k, h⟩
  · rintro ⟨k, h⟩
    refine ⟨k, List.mem_range.2 ?_, h⟩
    -- there is nothing behind the last piece
    by_contra hout
    have hnil : pieceAt 2046 line k = [] := by
      rw [pieceAt, List.drop_of_length_le (by omega), List.take_nil]
    rw [hnil] at h
    cases h

/-- Where the form of a mapping stands at the start of a line, its text does. -/
theorem text_prefix_trimmed {line : Bytes} {k : ℕ} {m : Mapping}
    (hblank : trimmed (line.take (2046 * k)) = [])
    (hm : States (trimmed (pieceAt 2046 line k)) m) : m.text <+: trimmed line := by
  have htext : trimmed (pieceAt 2046 line k) = m.text := hm.form
  have hne : trimmed (pieceAt 2046 line k) ≠ [] := by
    rw [htext, Mapping.text]
    simp
  have hprefix := trimmed_prefix_trimmed hblank hne (line.drop (2046 * (k + 1)))
  rwa [take_append_pieceAt, htext] at hprefix

theorem length_filterMap_le_one {α β : Type} {f : α → Option β} {l : List α}
    (h : l.Pairwise fun a b ↦ (f a).isSome → f b = none) : (l.filterMap f).length ≤ 1 := by
  induction l with
  | nil => exact Nat.zero_le _
  | cons a l ih =>
    obtain ⟨ha, hl⟩ := List.pairwise_cons.1 h
    rcases hfa : f a with - | b
    · rw [List.filterMap_cons_none hfa]
      exact ih hl
    · have hnone : l.filterMap f = [] := by
        rw [List.filterMap_eq_nil_iff]
        exact fun c hc ↦ ha c hc (by rw [hfa]; rfl)
      rw [List.filterMap_cons_some hfa, hnone]
      exact le_rfl

/-- A piece with text before which there is more of the line. -/
theorem trimmed_take_ne_nil {line : Bytes} {i j : ℕ} (hij : i < j)
    (hi : trimmed (pieceAt 2046 line i) ≠ []) : trimmed (line.take (2046 * j)) ≠ [] := by
  rw [ne_eq, trimmed_eq_nil_iff] at hi ⊢
  intro hblank
  refine hi fun b hb ↦ hblank b ?_
  have htake : line.take (2046 * (i + 1)) = line.take (2046 * i) ++ pieceAt 2046 line i := by
    rw [pieceAt, Nat.mul_succ, List.take_add]
  have hsub : line.take (2046 * (i + 1)) <+: line.take (2046 * j) :=
    List.take_prefix_take_left (by omega)
  refine hsub.subset ?_
  rw [htake]
  exact List.mem_append_right _ hb

/-- **One line**: it contributes what it may exactly when no rule stands in its tail. -/
theorem obeyed_iff {line : Bytes} (hnul : (0 : UInt8) ∉ line) :
    Obeyed line ↔ NoRuleInTail line := by
  constructor
  · intro h k m hne hm
    exact hne (h.fromStart k m.entry ((readEntry_pieceAt_iff hnul).2 ⟨m, hm, rfl⟩)).1
  · intro h
    have hstart : ∀ k entry, readEntry (pieceAt 2046 line k) = some entry →
        trimmed (line.take (2046 * k)) = [] ∧
          ∃ m : Mapping, m.entry = entry ∧ m.text <+: trimmed line := by
      intro k entry hentry
      obtain ⟨m, hm, rfl⟩ := (readEntry_pieceAt_iff hnul).1 hentry
      have hblank : trimmed (line.take (2046 * k)) = [] := by
        by_contra hne
        exact h k m hne hm
      exact ⟨hblank, m, rfl, text_prefix_trimmed hblank hm⟩
    refine ⟨length_filterMap_le_one ?_, hstart, fun hcomment ↦ ?_⟩
    · -- a later piece has the text of an earlier one before it
      refine List.pairwise_lt_range.imp fun {i j} hij hi ↦ ?_
      obtain ⟨entry, hentry⟩ := Option.isSome_iff_exists.1 hi
      obtain ⟨m, hm, rfl⟩ := (readEntry_pieceAt_iff hnul).1 hentry
      have hne : trimmed (pieceAt 2046 line i) ≠ [] := by
        rw [hm.form]
        simp
      rw [Option.eq_none_iff_forall_ne_some]
      intro entry' hentry'
      exact trimmed_take_ne_nil hij hne (hstart j entry' hentry').1
    · rw [List.eq_nil_iff_forall_not_mem]
      intro entry hentry
      obtain ⟨k, hk⟩ := mem_lineEntries_iff.1 hentry
      obtain ⟨m, -, rest, hrest⟩ := (hstart k entry hk).2
      rw [← hrest, Mapping.text, List.append_assoc, List.append_assoc, headD_keyword] at hcomment
      exact absurd hcomment (by decide)

/-- **When the lines of a file are obeyed**: no line that ends in a newline has the form of a
mapping in a piece behind its first text. -/
theorem linesObeyed_iff {file : Bytes} (hnul : (0 : UInt8) ∉ file) (heap : Heap XLBLMAPENTRY) :
    LinesObeyed heap file ↔ ∀ line ∈ (linesOf file).dropLast, NoRuleInTail line := by
  have hline : ∀ line ∈ (linesOf file).dropLast, (Obeyed line ↔ NoRuleInTail line) := by
    intro line hline
    exact obeyed_iff fun h ↦ hnul (mem_of_mem_line (List.dropLast_subset _ hline) h)
  constructor
  · rintro ⟨data, -, -, hobeyed⟩ line hmem
    exact (hline line hmem).1 (hobeyed line hmem)
  · intro h
    obtain ⟨data, hread, hlist⟩ := readConfigFile_lineEntries hnul heap
    exact ⟨data, hread, hlist, fun line hmem ↦ (hline line hmem).2 (h line hmem)⟩

theorem linesObeyed_iff_sampleFile :
    LinesObeyed Heap.empty sampleFile ↔
      ∀ line ∈ (linesOf sampleFile).dropLast, NoRuleInTail line :=
  linesObeyed_iff (by decide) Heap.empty

/-- A comment that ends in a text of the form of a mapping, behind `n` blanks. -/
def ruleInComment (n : ℕ) : Bytes :=
  35 :: List.replicate n 32 ++ lit "channel.A=B"

theorem not_mem_ruleInComment {n : ℕ} {c : UInt8} (hc : c ∉ (35 :: 32 :: lit "channel.A=B")) :
    c ∉ ruleInComment n := by
  rw [List.mem_cons, List.mem_cons] at hc
  rw [ruleInComment, List.cons_append, List.mem_cons, List.mem_append, List.mem_replicate]
  tauto

theorem headD_trimmed_ruleInComment (n : ℕ) : (trimmed (ruleInComment n)).headD 0 = 35 := by
  obtain ⟨rest, hrest⟩ := trimmed_prefix_trimmed (u := []) (p := [35]) (by decide) (by decide)
    (List.replicate n 32 ++ lit "channel.A=B")
  have hline : ruleInComment n = [] ++ [35] ++ (List.replicate n 32 ++ lit "channel.A=B") := rfl
  rw [hline, ← hrest]
  rfl

theorem lineEntries_ruleInComment_ne_nil : lineEntries (ruleInComment 2045) ≠ [] := by
  have hlen : (35 :: List.replicate 2045 (32 : UInt8)).length = 2046 := by
    rw [List.length_cons, List.length_replicate]
  have hdrop : (ruleInComment 2045).drop 2046 = lit "channel.A=B" := by
    rw [ruleInComment, ← hlen, List.drop_left]
  have hlong : 2046 ≤ (ruleInComment 2045).length := by
    rw [ruleInComment, List.length_append, hlen]
    exact Nat.le_add_right _ _
  rw [lineEntries_long hlong, hdrop]
  intro h
  exact absurd (List.append_eq_nil_iff.1 h).2 (by decide)

/-- The tail of a comment becomes a rule. -/
theorem not_linesObeyed_ruleInComment :
    (0 : UInt8) ∉ ruleInComment 2045 ++ [newline] ∧
      (trimmed (ruleInComment 2045)).headD 0 = 35 ∧
      ¬ LinesObeyed Heap.empty (ruleInComment 2045 ++ [newline]) := by
  have hline : newline ∉ ruleInComment 2045 := not_mem_ruleInComment (by decide)
  have hcomment := headD_trimmed_ruleInComment 2045
  refine ⟨?_, hcomment, ?_⟩
  · intro h
    rcases List.mem_append.1 h with h | h
    · exact not_mem_ruleInComment (by decide) h
    · exact absurd h (by decide)
  · rintro ⟨data, -, -, hobeyed⟩
    have hlines : linesOf (ruleInComment 2045 ++ [newline]) = [ruleInComment 2045, []] := by
      rw [linesOf_line hline]
      rfl
    rw [hlines] at hobeyed
    have hnone := (hobeyed _ List.mem_cons_self).comment hcomment
    exact lineEntries_ruleInComment_ne_nil hnone

end MqExits.Xlbl
