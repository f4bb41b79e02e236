import MqExits.Text.Bytes

/-!
# Reading a text file line by line

`fgets` into a buffer, and the in-place `trim` that the exits share. A file is its bytes; its
**lines** are the texts between the newlines (`linesOf`). `fgets` returns a line with its newline as
long as it fits, and writes over the start of the buffer only, so what an earlier line has left
behind the terminator stays there.

`cstr_trim` says what the two loops of `trim` do to the C string in a buffer; `lines_induction` is
the induction over the lines of a file, and `readsFrom` what repeated reads make of any file.
-/

namespace CText

/-! ### Lines -/

/-- The newline. -/
def newline : UInt8 := 10

/-- The lines of a file, without their newlines. What follows the last newline is a line too. -/
def linesOf (file : Bytes) : List Bytes :=
  file.splitOn newline

theorem linesOf_last {l : Bytes} (hl : newline ∉ l) : linesOf l = [l] :=
  List.splitOn_eq_singleton hl

theorem linesOf_line {l : Bytes} (hl : newline ∉ l) (rest : Bytes) :
    linesOf (l ++ newline :: rest) = l :: linesOf rest :=
  List.splitOn_append_cons_self_of_not_mem hl rest

/-- Induction over the lines of a file. -/
theorem lines_induction {P : Bytes → Prop} (last : ∀ l, newline ∉ l → P l)
    (line : ∀ l rest, newline ∉ l → P rest → P (l ++ newline :: rest)) (file : Bytes) : P file := by
  induction hn : file.length using Nat.strong_induction_on generalizing file with
  | _ n ih =>
    by_cases h : newline ∈ file
    · obtain ⟨l, rest, rfl, hl⟩ := List.eq_append_cons_of_mem h
      refine line l rest hl (ih rest.length ?_ rest rfl)
      rw [← hn, List.length_append, List.length_cons]
      omega
    · exact last file h

/-- The lines are made of the bytes of the file. -/
theorem mem_of_mem_line {file line : Bytes} (hline : line ∈ linesOf file) {b : UInt8}
    (hb : b ∈ line) : b ∈ file := by
  induction file using lines_induction with
  | last l hl =>
    rw [linesOf_last hl, List.mem_singleton] at hline
    rwa [← hline]
  | line l rest hl ih =>
    rw [linesOf_line hl] at hline
    rcases List.mem_cons.1 hline with rfl | hline
    · exact List.mem_append_left _ hb
    · exact List.mem_append_right _ (List.mem_cons_of_mem _ (ih hline))

/-! ### `fgets` -/

/-- Up to `n` bytes of a stream, and no more after a newline; and what is left of the stream. -/
def readLine : ℕ → Bytes → Bytes × Bytes
  | 0, stream => ([], stream)
  | _ + 1, [] => ([], [])
  | n + 1, b :: stream =>
    if b = newline then ([b], stream)
    else (b :: (readLine n stream).1, (readLine n stream).2)

/-- `fgets(buf, size, stream)`: the buffer and the rest of the stream, or `none` at its end. -/
def fgets (buf : Bytes) (size : ℕ) (stream : Bytes) : Option (Bytes × Bytes) :=
  if stream = [] then none
  else
    let (read, rest) := readLine (size - 1) stream
    some (read ++ 0 :: buf.drop (read.length + 1), rest)

theorem readLine_length_le (n : ℕ) (stream : Bytes) : (readLine n stream).1.length ≤ n := by
  induction n generalizing stream with
  | zero => exact le_rfl
  | succ n ih =>
    cases stream with
    | nil => exact Nat.zero_le _
    | cons b stream =>
      rw [readLine]
      split_ifs
      · exact Nat.succ_le_succ (Nat.zero_le n)
      · exact Nat.succ_le_succ (ih stream)

theorem readLine_rest_length_le (n : ℕ) (stream : Bytes) :
    (readLine n stream).2.length ≤ stream.length := by
  induction n generalizing stream with
  | zero => exact le_rfl
  | succ n ih =>
    cases stream with
    | nil => exact le_rfl
    | cons b stream =>
      rw [readLine]
      split_ifs
      · exact Nat.le_succ _
      · exact (ih stream).trans (Nat.le_succ _)

/-- A read takes a byte at least. -/
theorem readLine_rest_length_lt {n : ℕ} (hn : 0 < n) {stream : Bytes} (hne : stream ≠ []) :
    (readLine n stream).2.length < stream.length := by
  obtain ⟨n, rfl⟩ : ∃ m, n = m + 1 := ⟨n - 1, by omega⟩
  obtain ⟨b, stream, rfl⟩ := List.exists_cons_of_ne_nil hne
  rw [readLine]
  split_ifs
  · exact Nat.lt_succ_self _
  · exact Nat.lt_succ_of_le (readLine_rest_length_le n stream)

/-- What reading up to `n` bytes of a line at a time reads. One unit of fuel is one read. -/
def readsFrom (n : ℕ) : ℕ → Bytes → List Bytes
  | 0, _ => []
  | fuel + 1, stream =>
    if stream = [] then []
    else (readLine n stream).1 :: readsFrom n fuel (readLine n stream).2

theorem readsFrom_nil (n fuel : ℕ) : readsFrom n fuel [] = [] := by
  cases fuel <;> rfl

theorem readsFrom_of_ne_nil {n : ℕ} (hn : 0 < n) {stream : Bytes} (hne : stream ≠ []) {fuel : ℕ}
    (hfuel : stream.length ≤ fuel) :
    ∃ fuel', (readLine n stream).2.length ≤ fuel' ∧
      readsFrom n fuel stream =
        (readLine n stream).1 :: readsFrom n fuel' (readLine n stream).2 := by
  have hlt := readLine_rest_length_lt hn hne
  obtain ⟨fuel, rfl⟩ : ∃ m, fuel = m + 1 := ⟨fuel - 1, by omega⟩
  exact ⟨fuel, by omega, by rw [readsFrom, if_neg hne]⟩

/-- A line that fits is read with its newline. -/
theorem readLine_line {n : ℕ} {l : Bytes} (hl : newline ∉ l) (hn : l.length < n) (rest : Bytes) :
    readLine n (l ++ newline :: rest) = (l ++ [newline], rest) := by
  induction l generalizing n with
  | nil =>
    obtain ⟨n, rfl⟩ : ∃ m, n = m + 1 := ⟨n - 1, by simp only [List.length_nil] at hn; omega⟩
    rfl
  | cons b l ih =>
    obtain ⟨n, rfl⟩ : ∃ m, n = m + 1 := ⟨n - 1, by omega⟩
    obtain ⟨hb, hl⟩ := not_or.1 (mt List.mem_cons.2 hl)
    rw [List.cons_append, readLine, if_neg (Ne.symm hb), ih hl (Nat.lt_of_succ_lt_succ hn)]
    rfl

/-- So is what follows the last newline. -/
theorem readLine_last {n : ℕ} {l : Bytes} (hl : newline ∉ l) (hn : l.length ≤ n) :
    readLine n l = (l, []) := by
  induction l generalizing n with
  | nil => cases n <;> rfl
  | cons b l ih =>
    obtain ⟨n, rfl⟩ : ∃ m, n = m + 1 := ⟨n - 1, by simp only [List.length_cons] at hn; omega⟩
    obtain ⟨hb, hl⟩ := not_or.1 (mt List.mem_cons.2 hl)
    rw [readLine, if_neg (Ne.symm hb), ih hl (Nat.le_of_succ_le_succ hn)]

/-- A longer line is read in pieces. -/
theorem readLine_long {n : ℕ} {l : Bytes} (hl : newline ∉ l) (hn : n ≤ l.length) (rest : Bytes) :
    readLine n (l ++ rest) = (l.take n, l.drop n ++ rest) := by
  induction n generalizing l with
  | zero => rfl
  | succ n ih =>
    obtain ⟨b, l, rfl⟩ := List.exists_cons_of_length_pos (Nat.zero_lt_of_lt hn)
    obtain ⟨hb, hl⟩ := not_or.1 (mt List.mem_cons.2 hl)
    rw [List.cons_append, readLine, if_neg (Ne.symm hb), ih hl (Nat.le_of_succ_le_succ hn)]
    rfl

/-- The `k`-th piece of `n` bytes of a line. -/
def pieceAt (n : ℕ) (l : Bytes) (k : ℕ) : Bytes :=
  (l.drop (n * k)).take n

theorem pieceAt_zero_of_le {n : ℕ} {l : Bytes} (h : l.length ≤ n) : pieceAt n l 0 = l := by
  rw [pieceAt, Nat.mul_zero, List.drop_zero, List.take_of_length_le h]

theorem pieceAt_succ (n : ℕ) (l : Bytes) (k : ℕ) :
    pieceAt n l (k + 1) = pieceAt n (l.drop n) k := by
  rw [pieceAt, pieceAt, List.drop_drop, Nat.mul_succ, Nat.add_comm]

/-- A piece stands in its line, behind the pieces before it. -/
theorem take_append_pieceAt (n : ℕ) (l : Bytes) (k : ℕ) :
    l.take (n * k) ++ pieceAt n l k ++ l.drop (n * (k + 1)) = l := by
  rw [pieceAt, Nat.mul_succ, ← List.drop_drop, List.append_assoc, List.take_append_drop,
    List.take_append_drop]

/-- **The reads of a line**: its whole pieces first, whatever is behind it. The induction is on
their number. -/
theorem readsFrom_pieces {n : ℕ} (hn : 0 < n) {l : Bytes} (hl : newline ∉ l) (rest : Bytes)
    {k m : ℕ} (hk : (l ++ rest).length ≤ k) (hm : n * m ≤ l.length) :
    ∃ k', (l.drop (n * m) ++ rest).length ≤ k' ∧ readsFrom n k (l ++ rest) =
      (List.range m).map (pieceAt n l) ++ readsFrom n k' (l.drop (n * m) ++ rest) := by
  induction m with
  | zero => exact ⟨k, hk, rfl⟩
  | succ m ih =>
    rw [Nat.mul_succ] at hm ⊢
    obtain ⟨k', hk', hreads⟩ := ih (by omega)
    have hlong : n ≤ (l.drop (n * m)).length := by
      rw [List.length_drop]
      omega
    have hne : l.drop (n * m) ++ rest ≠ [] := by
      intro hnil
      rw [(List.append_eq_nil_iff.1 hnil).1] at hlong
      exact absurd hlong (Nat.not_le.2 hn)
    obtain ⟨k'', hk'', hnext⟩ := readsFrom_of_ne_nil hn hne hk'
    rw [readLine_long (mt List.mem_of_mem_drop hl) hlong, List.drop_drop] at hnext hk''
    refine ⟨k'', hk'', ?_⟩
    rw [hreads, hnext, List.range_succ, List.map_append, List.map_singleton, List.append_assoc]
    rfl

/-- What is left of a line behind its whole pieces. -/
def lastPiece (n : ℕ) (l : Bytes) : Bytes :=
  l.drop (n * (l.length / n))

theorem lastPiece_length_lt {n : ℕ} (hn : 0 < n) (l : Bytes) : (lastPiece n l).length < n := by
  rw [lastPiece, List.length_drop, Nat.sub_lt_iff_lt_add (Nat.mul_div_le _ _), Nat.add_comm]
  exact Nat.lt_mul_div_succ _ hn

theorem not_mem_lastPiece {n : ℕ} {l : Bytes} (hl : newline ∉ l) : newline ∉ lastPiece n l :=
  mt List.mem_of_mem_drop hl

theorem readsFrom_wholePieces {n : ℕ} (hn : 0 < n) {l : Bytes} (hl : newline ∉ l) (rest : Bytes)
    {k : ℕ} (hk : (l ++ rest).length ≤ k) :
    ∃ k', (lastPiece n l ++ rest).length ≤ k' ∧ readsFrom n k (l ++ rest) =
      (List.range (l.length / n)).map (pieceAt n l) ++ readsFrom n k' (lastPiece n l ++ rest) :=
  readsFrom_pieces hn hl rest hk (Nat.mul_div_le l.length n)

/-- A line is read up to its newline. -/
theorem readsFrom_line {n : ℕ} (hn : 0 < n) {l : Bytes} (hl : newline ∉ l) (rest : Bytes) {k : ℕ}
    (hk : (l ++ newline :: rest).length ≤ k) :
    ∃ k', rest.length ≤ k' ∧ readsFrom n k (l ++ newline :: rest) =
      (List.range (l.length / n)).map (pieceAt n l) ++
        (lastPiece n l ++ [newline]) :: readsFrom n k' rest := by
  obtain ⟨k', hk', hreads⟩ := readsFrom_wholePieces hn hl (newline :: rest) hk
  obtain ⟨k'', hk'', hnext⟩ := readsFrom_of_ne_nil hn (by simp) hk'
  rw [readLine_line (not_mem_lastPiece hl) (lastPiece_length_lt hn l) rest] at hnext hk''
  exact ⟨k'', hk'', by rw [hreads, hnext]⟩

/-- So is what follows the last newline, if there is anything left of it. -/
theorem readsFrom_last {n : ℕ} (hn : 0 < n) {l : Bytes} (hl : newline ∉ l) {k : ℕ}
    (hk : l.length ≤ k) : readsFrom n k l = (List.range (l.length / n)).map (pieceAt n l) ++
      if lastPiece n l = [] then [] else [lastPiece n l] := by
  have hall : (l ++ []).length ≤ k := by rwa [List.append_nil]
  obtain ⟨k', hk', hreads⟩ := readsFrom_wholePieces hn hl [] hall
  rw [List.append_nil] at hk' hreads
  rw [List.append_nil] at hreads
  rw [hreads]
  split_ifs with hempty
  · rw [hempty, readsFrom_nil]
  · obtain ⟨k'', -, hnext⟩ := readsFrom_of_ne_nil hn hempty hk'
    rw [hnext, readLine_last (not_mem_lastPiece hl) (lastPiece_length_lt hn l).le, readsFrom_nil]

/-! ### `trim` -/

/-- The first loop of `trim`: write NULs over the blanks before position `p`, from the back. -/
def trimTrailing (line : Bytes) : ℕ → Bytes
  | 0 => line
  | p + 1 => if isspace (line.getD p 0) then trimTrailing (line.set p 0) p else line

/-- `trim`: the buffer, and the position in it of what is returned. -/
def trim (line : Bytes) : Bytes × ℕ :=
  let line := trimTrailing line (cstr line).length
  (line, (line.takeWhile fun c ↦ c ≠ 0 ∧ isspace c).length)

/-- A text without the blanks around it. -/
def trimmed (l : Bytes) : Bytes :=
  (l.rdropWhile isspace).dropWhile isspace

theorem trimmed_append_newline (l : Bytes) : trimmed (l ++ [newline]) = trimmed l := by
  rw [trimmed, List.rdropWhile_concat_pos _ _ _ (by decide), trimmed]

theorem mem_of_mem_trimmed {b : UInt8} {l : Bytes} (h : b ∈ trimmed l) : b ∈ l :=
  (List.rdropWhile_prefix isspace _).subset ((List.dropWhile_suffix _).subset h)

theorem trimmed_length_le (l : Bytes) : (trimmed l).length ≤ l.length :=
  (List.dropWhile_suffix _).length_le.trans (List.rdropWhile_prefix isspace l).length_le

/-- A text of blanks. -/
theorem trimmed_eq_nil_iff {l : Bytes} : trimmed l = [] ↔ ∀ b ∈ l, isspace b = true := by
  rw [← List.rdropWhile_eq_nil_iff, trimmed, List.dropWhile_eq_nil_iff]
  constructor
  · intro h
    by_contra hne
    exact List.rdropWhile_last_not isspace l hne (h _ (List.getLast_mem hne))
  · intro h b hb
    rw [h] at hb
    cases hb

/-- Behind blanks the text begins with what is not blank. -/
theorem trimmed_prefix_trimmed {u p : Bytes} (hu : trimmed u = []) (hp : trimmed p ≠ [])
    (rest : Bytes) : trimmed p <+: trimmed (u ++ p ++ rest) := by
  have hu := trimmed_eq_nil_iff.1 hu
  -- up to the last character that is not blank
  generalize hq : p.rdropWhile isspace = q
  have hne : q ≠ [] := by
    rintro rfl
    exact hp (by rw [trimmed, hq]; rfl)
  have hlast : ¬ isspace (q.getLast hne) = true :=
    List.rdropWhile_eq_self_iff.1 (hq ▸ List.rdropWhile_idempotent isspace p) hne
  obtain ⟨w, rfl⟩ : q <+: p := hq ▸ List.rdropWhile_prefix isspace p
  have hself : (u ++ q).rdropWhile isspace = u ++ q := by
    rw [List.rdropWhile_eq_self_iff]
    intro hne'
    rwa [List.getLast_append_of_ne_nil]
  have hsplit : u ++ (q ++ w) ++ rest = u ++ q ++ (w ++ rest) := by
    simp only [List.append_assoc]
  have hfirst : q.dropWhile isspace ≠ [] := by
    rw [← hq]
    exact hp
  rw [trimmed, trimmed, hq, hsplit, rdropWhile_append_of_eq_self hself, List.append_assoc,
    List.dropWhile_append_of_pos hu, List.dropWhile_append, if_neg (by simpa using hfirst)]
  exact List.prefix_append _ _

theorem trimTrailing_append (s : Bytes) {r : Bytes} (hr : cstr r = []) :
    ∃ r', trimTrailing (s ++ r) s.length = s.rdropWhile isspace ++ r' ∧ cstr r' = [] := by
  induction s using List.reverseRecOn generalizing r with
  | nil => exact ⟨r, by simp [trimTrailing], hr⟩
  | append_singleton s c ih =>
    have hget : (s ++ [c] ++ r).getD s.length 0 = c := by simp
    have hset : (s ++ [c] ++ r).set s.length 0 = s ++ 0 :: r := by simp
    rw [List.length_append, List.length_singleton, trimTrailing, hget, hset,
      List.rdropWhile_concat]
    split_ifs with hc
    · exact ih rfl
    · exact ⟨r, rfl, hr⟩

/-- Skipping the blanks of a C string. -/
theorem dropWhile_isspace_append (u : Bytes) {r : Bytes} (hr : cstr r = []) :
    (u ++ r).dropWhile isspace = u.dropWhile isspace ++ r := by
  have hstop : r.dropWhile isspace = r := by
    obtain rfl | ⟨r', rfl⟩ := eq_nil_or_of_cstr_eq_nil hr
    · rfl
    · rfl
  rw [List.dropWhile_append]
  split_ifs with h
  · rw [List.isEmpty_iff.1 h, List.nil_append, hstop]
  · rfl

/-- **What `trim` leaves**: the C string it returns is that of the buffer without the blanks around
it. -/
theorem cstr_trim (line : Bytes) :
    cstr ((trim line).1.drop (trim line).2) = trimmed (cstr line) := by
  have hsplit : cstr line ++ line.dropWhile (· != 0) = line := List.takeWhile_append_dropWhile
  obtain ⟨r', htrim, hr'⟩ := trimTrailing_append (cstr line) (cstr_dropWhile line)
  rw [hsplit] at htrim
  have hnul : ∀ c ∈ (cstr line).rdropWhile isspace, c ≠ 0 := by
    rintro c hc rfl
    exact not_mem_cstr line ((List.rdropWhile_prefix isspace _).subset hc)
  simp only [trim, htrim]
  have hclass : (fun c ↦ decide (c ≠ 0 ∧ isspace c = true)) = isspace := by
    funext c
    rcases eq_or_ne c 0 with rfl | hc
    · rfl
    · simp [hc]
  have hskip : ∀ b : Bytes, b.drop (b.takeWhile isspace).length = b.dropWhile isspace := fun b ↦ by
    have hb : b.takeWhile isspace ++ b.dropWhile isspace = b := List.takeWhile_append_dropWhile
    calc b.drop (b.takeWhile isspace).length
        = (b.takeWhile isspace ++ b.dropWhile isspace).drop (b.takeWhile isspace).length := by
          rw [hb]
      _ = b.dropWhile isspace := List.drop_left
  rw [hclass, hskip, dropWhile_isspace_append _ hr', cstr_append, hr', List.append_nil, trimmed]
  exact fun c hc ↦ hnul c ((List.dropWhile_suffix _).subset hc)

end CText
