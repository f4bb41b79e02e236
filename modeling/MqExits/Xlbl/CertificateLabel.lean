import MqExits.Xlbl.Mapping

/-!
# The certificate label that is set

Loading a configuration file and evaluating the list takes the label of the **first** line of the
file that states a mapping which applies to the channel (`evalMapList_readConfigFile`). The list
holds the entries of the accepted lines in file order: each iteration of `readConfigFile` appends
the entry of its line, if any, and leaves the list alone otherwise (`readBody_rule`); so the search
along the list is a search along the lines.

The rule for the loop, `readLoop_rule`, is about files of any bytes: with a NUL in a line, or with
lines longer than the buffer, which are read in pieces (`fileEntries`).

## From the list to the lines

Three things are put together: what the loop leaves in memory is a chain with the entries of what
was read (`readConfigFile_ok`), what is read of a text file are its lines (`readsFrom_eq_lines`),
and the evaluation is a search along a chain (`evalMapList_eq`). A text file has no NUL, and no line
that is longer than the buffer; what becomes of the others is the subject of `LongLines`.

That a line which states no mapping could be left out is said with a second file, loaded for itself:
its list need not be at the same addresses, but the channel gets the same.
-/

namespace MqExits.Xlbl

open CText Outcome NodeHeap

/-! ### Building the list -/

/-- The list in memory holds these entries, and the loop knows its last node. -/
def Holds (s : ReadState) (entries : List XLBLMAPENTRY) : Prop :=
  ∃ l : List (ℕ × XLBLMAPENTRY), Chain s.data.heap s.data.pMapList l ∧ l.map Prod.snd = entries ∧
    s.pCurrentMapEntry = l.getLast?.map Prod.fst

theorem addEntry_ok {s : ReadState} {entries : List XLBLMAPENTRY} (h : Holds s entries)
    (entry : XLBLMAPENTRY) :
    ∃ s', addEntry s entry = .ok s' ∧ Holds s' (entries ++ [entry]) := by
  obtain ⟨l, hchain, rfl, hcurrent⟩ := h
  rcases List.eq_nil_or_concat l with rfl | ⟨l, ⟨a, x⟩, rfl⟩
  · -- the first entry is the head
    have hnull : s.data.pMapList = none := hchain.eq_none_iff.2 rfl
    refine ⟨_, by rw [addEntry, hnull]; rfl, [(s.data.heap.top, entry)], chain_alloc _ entry, rfl,
      rfl⟩
  · rw [List.concat_eq_append] at hchain hcurrent ⊢
    obtain ⟨head, hhead⟩ : ∃ head, s.data.pMapList = some head :=
      Option.ne_none_iff_exists'.1 fun hnull ↦ by
        simpa using hchain.eq_none_iff.1 hnull
    have hlast : s.pCurrentMapEntry = some a := by rw [hcurrent]; simp
    obtain ⟨heap, hset, -, hchain'⟩ := hchain.append entry
    refine ⟨⟨⟨heap, some head⟩, some s.data.heap.top, s.line⟩, ?_,
      l ++ [(a, x)] ++ [(s.data.heap.top, entry)], ?_, by simp, by simp⟩
    · simp only [addEntry, hhead, hlast, hset, bind, Except.bind]
      rfl
    · rw [← hhead]
      exact hchain'

/-- The entry of a line of the file. -/
def lineEntry (line : Bytes) : Option XLBLMAPENTRY :=
  parseLine (trimmed line)

/-- The code sees the C string that `trim` leaves, and nothing behind it. -/
theorem parseLine_trim {buf : Bytes} (hlen : (cstr buf).length < 2 ^ 64) :
    parseLine ((trim buf).1.drop (trim buf).2) = lineEntry (cstr buf) := by
  generalize hp : (trim buf).1.drop (trim buf).2 = p
  have hcstr : cstr p = trimmed (cstr buf) := hp ▸ cstr_trim buf
  have hsplit : p = cstr p ++ p.dropWhile (· != 0) := List.takeWhile_append_dropWhile.symm
  have hnul := not_mem_cstr p
  have hrest := cstr_dropWhile p
  have hlen' : (cstr p).length < 2 ^ 64 := by
    rw [hcstr]
    exact lt_of_le_of_lt (trimmed_length_le _) hlen
  rw [lineEntry, ← hcstr]
  refine Option.ext fun e ↦ ?_
  have hleft := parseLine_eq_some_iff hnul hrest hlen' (e := e)
  have hright := parseLine_eq_some_iff hnul (r := []) rfl hlen' (e := e)
  rw [← hsplit] at hleft
  rw [List.append_nil] at hright
  rw [hleft, hright]

/-- The entry of what one `fgets` has read. -/
def readEntry (read : Bytes) : Option XLBLMAPENTRY :=
  lineEntry (cstr read)

/-- The entries of a file, whatever its bytes. -/
def fileEntries (file : Bytes) : List XLBLMAPENTRY :=
  (readsFrom 2046 file.length file).filterMap readEntry

theorem fgets_eq_some {buf stream read rest : Bytes} (hne : stream ≠ [])
    (h : readLine 2046 stream = (read, rest)) :
    fgets buf (CONFIG_BUFFER_SIZE - 1) stream =
      some (read ++ 0 :: buf.drop (read.length + 1), rest) := by
  rw [fgets, if_neg hne]
  simp only [CONFIG_BUFFER_SIZE, h]

/-- What each entry added to the list keeps, whatever the buffer holds. -/
structure LoopInvariant (I : List XLBLMAPENTRY → ReadState → Prop) : Prop where
  add : ∀ {entries s}, I entries s → ∀ entry,
    ∃ s', addEntry s entry = .ok s' ∧ I (entries ++ [entry]) s'
  line : ∀ {entries s}, I entries s → ∀ line, I entries { s with line := line }

/-- **One iteration** adds the entry of its line, if it has one. -/
theorem readBody_rule {I : List XLBLMAPENTRY → ReadState → Prop} (hI : LoopInvariant I)
    {s : ReadState} {entries : List XLBLMAPENTRY} (h : I entries s) {buf : Bytes}
    (hlen : (cstr buf).length < 2 ^ 64) :
    ∃ s', readBody s buf = .ok s' ∧ I (entries ++ (readEntry buf).toList) s' := by
  have hparse := parseLine_trim hlen
  simp only [readBody]
  rw [hparse, readEntry]
  cases lineEntry (cstr buf) with
  | none =>
    rw [Option.toList_none, List.append_nil]
    exact ⟨_, rfl, hI.line h _⟩
  | some entry => exact hI.add (hI.line h _) entry

theorem filterMap_cons_toList {α β : Type} (f : α → Option β) (a : α) (l : List α) :
    (a :: l).filterMap f = (f a).toList ++ l.filterMap f := by
  rw [List.filterMap_eq_flatMap_toList, List.flatMap_cons, ← List.filterMap_eq_flatMap_toList]

/-- **The loop** adds the entries of what it reads, and ends. -/
theorem readLoop_rule {I : List XLBLMAPENTRY → ReadState → Prop} (hI : LoopInvariant I) {fuel : ℕ}
    {stream : Bytes} (hfuel : stream.length < fuel) {n : ℕ} (hn : stream.length ≤ n)
    {s : ReadState} {entries : List XLBLMAPENTRY} (h : I entries s) :
    ∃ s', readLoop fuel stream s = .ok s' ∧
      I (entries ++ (readsFrom 2046 n stream).filterMap readEntry) s' := by
  induction fuel generalizing stream n s entries with
  | zero => exact absurd hfuel (Nat.not_lt_zero _)
  | succ fuel ih =>
    rcases eq_or_ne stream [] with rfl | hne
    · refine ⟨s, rfl, ?_⟩
      rw [readsFrom_nil, List.filterMap_nil, List.append_nil]
      exact h
    · obtain ⟨n', hn', hreads⟩ := readsFrom_of_ne_nil (n := 2046) (by decide) hne hn
      obtain ⟨read, rest, hread⟩ : ∃ read rest, readLine 2046 stream = (read, rest) := ⟨_, _, rfl⟩
      have hlt : rest.length < stream.length := by
        have := readLine_rest_length_lt (n := 2046) (by decide) hne
        rwa [hread] at this
      have hle : read.length ≤ 2046 := by
        have := readLine_length_le 2046 stream
        rwa [hread] at this
      rw [hread] at hreads hn'
      -- the buffer holds what was read, as a C string
      have hcstr : cstr (read ++ 0 :: s.line.drop (read.length + 1)) = cstr read :=
        cstr_append_nul read _
      have hshort : (cstr (read ++ 0 :: s.line.drop (read.length + 1))).length < 2 ^ 64 := by
        have := cstr_length_le read
        rw [hcstr]
        omega
      obtain ⟨s', hbody, hs'⟩ := readBody_rule hI h hshort
      have hentry : readEntry (read ++ 0 :: s.line.drop (read.length + 1)) = readEntry read := by
        rw [readEntry, hcstr, readEntry]
      obtain ⟨s'', hloop, hs''⟩ := ih (hlt.trans_le (Nat.le_of_lt_succ hfuel)) hn' hs'
      refine ⟨s'', ?_, ?_⟩
      · simp only [readLoop, fgets_eq_some hne hread, hbody, bind, Except.bind]
        exact hloop
      · rw [hentry, List.append_assoc, ← filterMap_cons_toList] at hs''
        rw [hreads]
        exact hs''

/-- **Reading a file** appends the entries of what it holds. -/
theorem readLoop_ok {stream : Bytes} {fuel : ℕ} {s : ReadState} {entries : List XLBLMAPENTRY}
    (hfuel : stream.length < fuel) (h : Holds s entries) :
    ∃ s', readLoop fuel stream s = .ok s' ∧ Holds s' (entries ++ fileEntries stream) :=
  have hI : LoopInvariant fun entries s ↦ Holds s entries := ⟨addEntry_ok, fun h _ ↦ h⟩
  readLoop_rule hI hfuel le_rfl h

/-! ### Text files -/

/-- The bytes of a text whose lines fit the buffer. -/
structure Readable (file : Bytes) : Prop where
  no_nul : (0 : UInt8) ∉ file
  short : ∀ line ∈ linesOf file, line.length < 2046

theorem lineEntry_append_newline (line : Bytes) :
    lineEntry (line ++ [newline]) = lineEntry line := by
  rw [lineEntry, trimmed_append_newline, lineEntry]

theorem lineEntry_nil : lineEntry [] = none := rfl

/-- The entries of a text file are those of its lines. -/
theorem readsFrom_eq_lines {file : Bytes} (hfile : Readable file) {n : ℕ}
    (hn : file.length ≤ n) :
    (readsFrom 2046 n file).filterMap readEntry = (linesOf file).filterMap lineEntry := by
  induction file using lines_induction generalizing n with
  | last l hl =>
    have hshort : l.length < 2046 := hfile.short l (by simp [linesOf_last hl])
    rw [linesOf_last hl]
    rcases eq_or_ne l [] with rfl | hne
    · rw [readsFrom_nil, List.filterMap_cons_none lineEntry_nil, List.filterMap_nil,
        List.filterMap_nil]
    · -- The last line has no newline, and one read takes it.
      obtain ⟨n', -, hreads⟩ := readsFrom_of_ne_nil (n := 2046) (by decide) hne hn
      rw [readLine_last hl hshort.le] at hreads
      have hentry : readEntry l = lineEntry l := by rw [readEntry, cstr_eq_self hfile.no_nul]
      rw [hreads, readsFrom_nil, filterMap_cons_toList, filterMap_cons_toList, hentry,
        List.filterMap_nil, List.filterMap_nil]
  | line l rest hl ih =>
    have hlines := linesOf_line hl rest
    have hshort : l.length < 2046 := hfile.short l (by simp [hlines])
    have hrest : Readable rest :=
      ⟨fun h0 ↦ hfile.no_nul (by simp [h0]),
        fun line hline ↦ hfile.short line (by simp [hlines, hline])⟩
    have hnul : (0 : UInt8) ∉ l ++ [newline] := fun h0 ↦ by
      rcases List.mem_append.1 h0 with h0 | h0
      · exact hfile.no_nul (List.mem_append_left _ h0)
      · exact absurd h0 (by decide)
    have hne : l ++ newline :: rest ≠ [] := by simp
    -- One read takes the line and its newline, which the parser drops.
    obtain ⟨n', hn', hreads⟩ := readsFrom_of_ne_nil (n := 2046) (by decide) hne hn
    rw [readLine_line hl hshort rest] at hreads hn'
    have hentry : readEntry (l ++ [newline]) = lineEntry l := by
      rw [readEntry, cstr_eq_self hnul, lineEntry_append_newline]
    rw [hreads, hlines, filterMap_cons_toList, filterMap_cons_toList, hentry, ih hrest hn']

theorem fileEntries_eq_lines {file : Bytes} (hfile : Readable file) :
    fileEntries file = (linesOf file).filterMap lineEntry :=
  readsFrom_eq_lines hfile le_rfl

/-! ### Evaluating the list -/

/-- The cluster names of an MQCD. -/
structure MQCD.HasClusters (cd : MQCD) (names : List (Field 48)) : Prop where
  defined : cd.clustersDefined = names.length
  flat : cd.clusterPtr = (names.map Subtype.val).flatten

/-- The comparisons of `evalMapList`, on the names themselves. -/
def entryMatches (cd : MQCD) (names : List (Field 48)) (entry : XLBLMAPENTRY) : Bool :=
  if entry.entryType = MAP_ENTRY_TYPE_CHANNEL then
    entry.objectName.val.take 20 == cd.channelName.val
  else if entry.entryType = MAP_ENTRY_TYPE_CLUSTER then
    names.any fun name ↦ entry.objectName.val == name.val
  else false

theorem memcmpEq_field {n m : ℕ} {a : Bytes} (ha : n ≤ a.length) (b : Field n) (rest : Bytes)
    (hm : m = n) : memcmpEq a (b.val ++ rest) m = .ok (a.take n == b.val) := by
  subst hm
  have hb : b.val.length = m := b.property
  have htake : (b.val ++ rest).take m = b.val := by
    rw [List.take_append_of_le_length hb.ge, List.take_of_length_le hb.le]
  rw [memcmpEq, if_pos ⟨ha, by rw [List.length_append]; omega⟩, htake]

/-- The loop over the cluster names compares with each. -/
theorem matchesCluster_flatten {objectName : Bytes} (hlen : objectName.length = 48)
    (names : List (Field 48)) :
    matchesCluster objectName names.length (names.map Subtype.val).flatten =
      .ok (names.any fun name ↦ objectName == name.val) := by
  induction names with
  | nil => rfl
  | cons name names ih =>
    have hcmp := memcmpEq_field (m := MQ_CLUSTER_NAME_LENGTH) hlen.ge name
      (names.map Subtype.val).flatten rfl
    have hdrop : (name.val ++ (names.map Subtype.val).flatten).drop MQ_CLUSTER_NAME_LENGTH =
        (names.map Subtype.val).flatten := List.drop_left' name.property
    rw [List.take_of_length_le hlen.le] at hcmp
    simp only [List.length_cons, List.map_cons, List.flatten_cons, matchesCluster, hcmp, hdrop, ih,
      bind, Except.bind, List.any_cons]
    cases objectName == name.val <;> rfl

theorem matchesEntry_eq {cd : MQCD} {names : List (Field 48)} (hcd : cd.HasClusters names)
    (entry : XLBLMAPENTRY) : matchesEntry cd entry = .ok (entryMatches cd names entry) := by
  rw [matchesEntry, entryMatches]
  split_ifs with h₁ h₂
  · have hcmp := memcmpEq_field (m := MQ_CHANNEL_NAME_LENGTH) (a := entry.objectName.val)
      (by rw [entry.objectName.property]; decide) cd.channelName [] rfl
    rwa [List.append_nil] at hcmp
  · rw [hcd.flat, hcd.defined, Int.toNat_natCast]
    exact matchesCluster_flatten entry.objectName.property names
  · rfl

/-- The entry of a mapping matches where the mapping applies. -/
theorem entryMatches_entry {cd : MQCD} {names : List (Field 48)} {m : Mapping}
    (hname : m.name.length ≤ m.kind.maxName) :
    entryMatches cd names m.entry = true ↔ m.Applies cd.channelName names := by
  obtain ⟨kind, name, label⟩ := m
  have h48 : name.length ≤ 48 := hname.trans (maxName_le kind)
  have hval : (Field.pad 48 32 name).val = padTo 48 32 name := Field.pad_val h48
  cases kind with
  | channel =>
    have htake : (padTo 48 32 name).take 20 = padTo 20 32 name := take_padTo hname (by decide)
    simp only [entryMatches, Mapping.entry, Kind.entryType, Mapping.Applies, if_true, hval, htake,
      beq_iff_eq]
  | cluster =>
    have hne : MAP_ENTRY_TYPE_CLUSTER ≠ MAP_ENTRY_TYPE_CHANNEL := by decide
    simp only [entryMatches, Mapping.entry, Kind.entryType, Mapping.Applies, if_neg hne, if_true,
      hval, List.any_eq_true, beq_iff_eq]

/-- **`evalMapList` takes the first entry that matches.** -/
theorem evalMapList_eq {data : XlblData} {l : List (ℕ × XLBLMAPENTRY)}
    (hchain : Chain data.heap data.pMapList l) {cd : MQCD} {names : List (Field 48)}
    (hcd : cd.HasClusters names) :
    evalMapList data cd =
      .ok (match (l.map Prod.snd).find? (entryMatches cd names) with
        | none => (false, cd)
        | some entry => (true, { cd with certificateLabel := entry.certificateLabel })) := by
  have hsearch := search_chain (t := entryMatches cd names)
    (fun n _ ↦ matchesEntry_eq hcd n.2) hchain.seg hchain.length_le
  rw [List.find?_map]
  simp only [evalMapList, hsearch, bind, Except.bind]
  cases hfind : l.find? fun n ↦ entryMatches cd names n.2 with
  | none =>
    simp only [Function.comp_def, hfind]
    rfl
  | some n =>
    obtain ⟨r, hr⟩ := hchain.seg.cells_of_mem (List.mem_of_find?_eq_some hfind)
    simp only [Function.comp_def, hfind, Option.map_some, Heap.load_eq_ok hr]
    rfl

/-! ### The first line that applies -/

/-- The line states a mapping for the channel. -/
def StatesFor (cd : MQCD) (names : List (Field 48)) (line : Bytes) (m : Mapping) : Prop :=
  States (trimmed line) m ∧ m.Applies cd.channelName names

theorem readConfigFile_ok {file : Bytes} (hfile : Readable file) (heap : Heap XLBLMAPENTRY) :
    ∃ data, readConfigFile ⟨heap, none⟩ (.opened file) = .ok (data, 0) ∧
      ∃ l, Chain data.heap data.pMapList l ∧
        l.map Prod.snd = (linesOf file).filterMap lineEntry := by
  have hstart : Holds ⟨⟨heap, none⟩, none, List.replicate CONFIG_BUFFER_SIZE 0⟩ [] :=
    ⟨[], .nil heap, rfl, rfl⟩
  obtain ⟨s, hloop, l, hchain, hl, -⟩ := readLoop_ok (Nat.lt_succ_self _) hstart
  refine ⟨s.data, ?_, l, hchain, by rw [hl, fileEntries_eq_lines hfile, List.nil_append]⟩
  simp only [readConfigFile, hloop, bind, Except.bind]
  rfl

/-- The entry of a line is that of the mapping it states. -/
theorem lineEntry_eq_some_iff {line : Bytes} (hnul : (0 : UInt8) ∉ line) (hlen : line.length < 2046)
    {entry : XLBLMAPENTRY} :
    lineEntry line = some entry ↔ ∃ m, States (trimmed line) m ∧ m.entry = entry := by
  have hnul' : (0 : UInt8) ∉ trimmed line := fun h ↦ hnul (mem_of_mem_trimmed h)
  have hlen' : (trimmed line).length < 2 ^ 64 := by
    have := trimmed_length_le line
    omega
  have h := parseLine_eq_some_iff hnul' (r := []) rfl hlen' (e := entry)
  rwa [List.append_nil] at h

theorem lineEntry_matches_iff {line : Bytes} (hnul : (0 : UInt8) ∉ line)
    (hlen : line.length < 2046) {cd : MQCD} {names : List (Field 48)} :
    (∃ entry, lineEntry line = some entry ∧ entryMatches cd names entry = true) ↔
      ∃ m, StatesFor cd names line m := by
  constructor
  · rintro ⟨entry, hentry, hmatch⟩
    obtain ⟨m, hs, rfl⟩ := (lineEntry_eq_some_iff hnul hlen).1 hentry
    exact ⟨m, hs, (entryMatches_entry hs.name_le).1 hmatch⟩
  · rintro ⟨m, hs, hm⟩
    exact ⟨m.entry, (lineEntry_eq_some_iff hnul hlen).2 ⟨m, hs, rfl⟩,
      (entryMatches_entry hs.name_le).2 hm⟩

theorem not_mem_line {file line : Bytes} (hfile : Readable file) (hline : line ∈ linesOf file) :
    (0 : UInt8) ∉ line :=
  fun h ↦ hfile.no_nul (mem_of_mem_line hline h)

/-- **The label that is set** is that of the first line of the file which states a mapping that
applies to the channel. Without one the MQCD is unchanged, and a line that states no mapping could
be left out. -/
theorem evalMapList_readConfigFile {file : Bytes} (hfile : Readable file) {cd : MQCD}
    {names : List (Field 48)} (hcd : cd.HasClusters names) (heap : Heap XLBLMAPENTRY) :
    ∃ data, readConfigFile ⟨heap, none⟩ (.opened file) = .ok (data, 0) ∧
      (∀ before line after m, linesOf file = before ++ line :: after →
        (∀ line' ∈ before, ∀ m', ¬ StatesFor cd names line' m') → StatesFor cd names line m →
          evalMapList data cd =
            .ok (true, { cd with certificateLabel := Field.pad 64 0 m.label })) ∧
      ((∀ line ∈ linesOf file, ∀ m, ¬ StatesFor cd names line m) →
        evalMapList data cd = .ok (false, cd)) ∧
      ∀ file' before line after, Readable file' → linesOf file = before ++ line :: after →
        linesOf file' = before ++ after → (∀ m, ¬ States (trimmed line) m) →
          ∃ data', readConfigFile ⟨heap, none⟩ (.opened file') = .ok (data', 0) ∧
            evalMapList data' cd = evalMapList data cd := by
  obtain ⟨data, hread, l, hchain, hl⟩ := readConfigFile_ok hfile heap
  have heval := evalMapList_eq hchain hcd
  rw [hl] at heval
  have hno : ∀ line ∈ linesOf file, (∀ m, ¬ StatesFor cd names line m) → ∀ entry,
      lineEntry line = some entry → ¬ entryMatches cd names entry = true :=
    fun line hline hm entry hentry hmatch ↦
      have hex := (lineEntry_matches_iff (not_mem_line hfile hline) (hfile.short line hline)).1
        ⟨entry, hentry, hmatch⟩
      hex.elim hm
  refine ⟨data, hread, fun before line after m hlines hbefore hm ↦ ?_, fun hall ↦ ?_,
    fun file' before line after hfile' hlines hlines' hrejected ↦ ?_⟩
  · -- the entries before that of the line do not match, and it does
    have hmem : ∀ line' ∈ before, line' ∈ linesOf file := fun line' h ↦ by simp [hlines, h]
    have hline : line ∈ linesOf file := by simp [hlines]
    have hentry : lineEntry line = some m.entry :=
      (lineEntry_eq_some_iff (not_mem_line hfile hline) (hfile.short line hline)).2
        ⟨m, hm.1, rfl⟩
    have hnone : (before.filterMap lineEntry).find? (entryMatches cd names) = none := by
      rw [List.find?_eq_none]
      intro entry h
      obtain ⟨line', hline', hentry'⟩ := List.mem_filterMap.1 h
      exact hno line' (hmem line' hline') (hbefore line' hline') entry hentry'
    rw [heval, hlines, List.filterMap_append, List.find?_append, hnone, Option.none_or,
      List.filterMap_cons_some hentry,
      List.find?_cons_of_pos ((entryMatches_entry hm.1.name_le).2 hm.2)]
    rfl
  · have hnone : ((linesOf file).filterMap lineEntry).find? (entryMatches cd names) = none := by
      rw [List.find?_eq_none]
      intro entry h
      obtain ⟨line, hline, hentry⟩ := List.mem_filterMap.1 h
      exact hno line hline (hall line hline) entry hentry
    rw [heval, hnone]
  · obtain ⟨data', hread', l', hchain', hl'⟩ := readConfigFile_ok hfile' heap
    have hline : line ∈ linesOf file := by simp [hlines]
    have hentry : lineEntry line = none := by
      rw [Option.eq_none_iff_forall_ne_some]
      intro entry h
      obtain ⟨m, hs, -⟩ :=
        (lineEntry_eq_some_iff (not_mem_line hfile hline) (hfile.short line hline)).1 h
      exact hrejected m hs
    refine ⟨data', hread', ?_⟩
    rw [evalMapList_eq hchain' hcd, heval, hl', hlines', hlines, List.filterMap_append,
      List.filterMap_append, List.filterMap_cons_none hentry]

/-! ### A sample -/

/-- The two mappings of the sample configuration. -/
def sampleFile : Bytes :=
  lit "# sample\n\ncluster.MY.CLUS1=myCertLabel\n  channel.TO.CLUS2=myOtherCertLabel"

/-- A cluster sender channel in one cluster. -/
def MQCD.sample : MQCD where
  version := 11
  channelName := .pad 20 32 (lit "TO.CLUS2")
  clustersDefined := 1
  clusterPtr := (Field.pad 48 32 (lit "MY.CLUS2")).val
  certificateLabel := .pad 64 0 []

theorem readable_sampleFile : Readable sampleFile where
  no_nul := by decide
  short := by decide

theorem hasClusters_sample : MQCD.sample.HasClusters [.pad 48 32 (lit "MY.CLUS2")] where
  defined := rfl
  flat := by rw [List.map_singleton, List.flatten_singleton]; rfl

theorem evalMapList_readConfigFile_sample :
    Readable sampleFile ∧ MQCD.sample.HasClusters [.pad 48 32 (lit "MY.CLUS2")] ∧
    ∃ data, readConfigFile ⟨Heap.empty, none⟩ (.opened sampleFile) = .ok (data, 0) ∧
      evalMapList data .sample = .ok (true,
        { MQCD.sample with certificateLabel := Field.pad 64 0 (lit "myOtherCertLabel") }) := by
  obtain ⟨data, hread, hfirst, -⟩ :=
    evalMapList_readConfigFile readable_sampleFile hasClusters_sample Heap.empty
  refine ⟨readable_sampleFile, hasClusters_sample, data, hread, ?_⟩
  refine hfirst [lit "# sample", [], lit "cluster.MY.CLUS1=myCertLabel"]
    (lit "  channel.TO.CLUS2=myOtherCertLabel") []
    ⟨.channel, lit "TO.CLUS2", lit "myOtherCertLabel"⟩ (by decide) (fun line hline m hm ↦ ?_)
    ⟨⟨by decide, by decide, by decide, by decide, by decide, by decide, by decide⟩,
      show padTo 20 32 (lit "TO.CLUS2") = _ by decide⟩
  -- none of the lines before has an entry that matches
  have hall : ∀ line ∈ [lit "# sample", [], lit "cluster.MY.CLUS1=myCertLabel"],
      (0 : UInt8) ∉ line ∧ line.length < 2046 ∧ (lineEntry line).all fun entry ↦
        !entryMatches .sample [.pad 48 32 (lit "MY.CLUS2")] entry := by decide
  obtain ⟨hnul, hlen, hno⟩ := hall line hline
  obtain ⟨entry, hentry, hmatch⟩ := (lineEntry_matches_iff hnul hlen).2 ⟨m, hm⟩
  rw [hentry, Option.all_some, hmatch] at hno
  cases hno

end MqExits.Xlbl
