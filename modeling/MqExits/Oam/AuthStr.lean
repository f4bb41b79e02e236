import MqExits.Text.FlagNames
import MqExits.Oam.Oamcrt

/-!
# Authorities in text: the two `OAAuthStr`

Both `oamok` and `oamlog` write an authority mask as the names of its bits, with one word for all of
the MQI bits and one for all of the administration bits. `oamok` makes a JSON array of the names;
`oamlog` appends each with a blank to a buffer of its caller, between brackets.

`Decodes` is what a reader of the names wants. The array has it for every mask. The text has it for
every mask that `AdminLast` describes: the word `alladm` is appended without a blank, so it runs
into the word after it.

The length of the text is the other question, as `OAAuthStr` does not ask for the size of the
buffer. The table `authWidths` has what each bit takes, and the text fits exactly when the bits that
the mask lacks take enough of it, or one of the two words stands for a group.
-/

namespace MqExits.Oam

open CText FlagNames

/-! ### The authorities -/

def MQZAO_NONE : BitVec 32 := 0x00000000
def MQZAO_CONNECT : BitVec 32 := 0x00000001
def MQZAO_BROWSE : BitVec 32 := 0x00000002
def MQZAO_INPUT : BitVec 32 := 0x00000004
def MQZAO_OUTPUT : BitVec 32 := 0x00000008
def MQZAO_INQUIRE : BitVec 32 := 0x00000010
def MQZAO_SET : BitVec 32 := 0x00000020
def MQZAO_PASS_IDENTITY_CONTEXT : BitVec 32 := 0x00000040
def MQZAO_PASS_ALL_CONTEXT : BitVec 32 := 0x00000080
def MQZAO_SET_IDENTITY_CONTEXT : BitVec 32 := 0x00000100
def MQZAO_SET_ALL_CONTEXT : BitVec 32 := 0x00000200
def MQZAO_ALTERNATE_USER_AUTHORITY : BitVec 32 := 0x00000400
def MQZAO_PUBLISH : BitVec 32 := 0x00000800
def MQZAO_SUBSCRIBE : BitVec 32 := 0x00001000
def MQZAO_RESUME : BitVec 32 := 0x00002000
def MQZAO_ALL_MQI : BitVec 32 := 0x00003FFF
def MQZAO_DELETE : BitVec 32 := 0x00020000
def MQZAO_CHANGE : BitVec 32 := 0x00080000
def MQZAO_CLEAR : BitVec 32 := 0x00100000
def MQZAO_CONTROL : BitVec 32 := 0x00200000
def MQZAO_CONTROL_EXTENDED : BitVec 32 := 0x00400000
def MQZAO_AUTHORIZE : BitVec 32 := 0x00800000
def MQZAO_ALL_ADMIN : BitVec 32 := 0x00FE0000
def MQZAO_REMOVE : BitVec 32 := 0x01000000
def MQZAO_SYSTEM : BitVec 32 := 0x02000000
def MQZAO_ALL : BitVec 32 := 0x02FE3FFF

/-- The bits tested when not all of `MQZAO_ALL_MQI` is there, in the order of either source. -/
def mqiNames : Table 32 Bytes :=
  [(MQZAO_CONNECT, lit "connect"), (MQZAO_BROWSE, lit "browse"), (MQZAO_INPUT, lit "get"),
   (MQZAO_OUTPUT, lit "put"), (MQZAO_INQUIRE, lit "inq"), (MQZAO_SET, lit "set"),
   (MQZAO_PUBLISH, lit "pub"), (MQZAO_SUBSCRIBE, lit "sub"), (MQZAO_RESUME, lit "resume"),
   (MQZAO_PASS_IDENTITY_CONTEXT, lit "passid"), (MQZAO_PASS_ALL_CONTEXT, lit "passall"),
   (MQZAO_SET_IDENTITY_CONTEXT, lit "setid"), (MQZAO_SET_ALL_CONTEXT, lit "setall"),
   (MQZAO_ALTERNATE_USER_AUTHORITY, lit "altusr")]

/-- The bits tested when not all of `MQZAO_ALL_ADMIN` is there. -/
def adminNames : Table 32 Bytes :=
  [(MQZAO_DELETE, lit "dlt"), (MQZAO_DISPLAY, lit "dsp"), (MQZAO_CHANGE, lit "chg"),
   (MQZAO_CLEAR, lit "clr"), (MQZAO_CONTROL, lit "ctrl"), (MQZAO_CONTROL_EXTENDED, lit "ctrlx"),
   (MQZAO_AUTHORIZE, lit "auth")]

/-- The bits of neither group. `MQZAO_CREATE` comes before the administration bits in `oamlog`. -/
def otherNames (remove : Bytes) : Table 32 Bytes :=
  [(MQZAO_CREATE, lit "crt"), (MQZAO_SYSTEM, lit "system"), (MQZAO_REMOVE, remove)]

/-- All that a module can write for a bit or a group. -/
def vocabulary (remove : Bytes) : Table 32 Bytes :=
  (MQZAO_ALL_MQI, lit "allmqi") :: mqiNames ++
    ((MQZAO_ALL_ADMIN, lit "alladm") :: adminNames ++ otherNames remove)

/-- The `notAllFlags` of `oamlog`. -/
def notAllFlags : BitVec 32 := ~~~(MQZAO_CREATE ||| MQZAO_REMOVE ||| MQZAO_ALL)

/-! ### The functions -/

namespace Oamok

/-- `jcat`. -/
def jcat (j : List Bytes) (s : Bytes) : List Bytes :=
  j ++ [s]

/-- The lines `if (x & M) jcat(j, s);` of a table. -/
def jcatBits (x : BitVec 32) (t : Table 32 Bytes) (j : List Bytes) : List Bytes :=
  t.foldl (fun j e ↦ if x &&& e.1 ≠ 0 then jcat j e.2 else j) j

def OAAuthStr (j : List Bytes) (x : BitVec 32) : List Bytes :=
  let j :=
    if x &&& MQZAO_ALL_MQI = MQZAO_ALL_MQI then jcat j (lit "allmqi") else jcatBits x mqiNames j
  let j :=
    if x &&& MQZAO_ALL_ADMIN = MQZAO_ALL_ADMIN then jcat j (lit "alladm")
    else jcatBits x adminNames j
  let j := jcatBits x (otherNames (lit "remove")) j
  if x = MQZAO_NONE then jcat j (lit "none") else j

end Oamok

namespace Oamlog

/-- `AUTHBUF`. -/
def AUTHBUF : ℕ := 128

/-- A digit of `%X`. -/
def hexDigit (v : ℕ) : UInt8 :=
  UInt8.ofNat (if v < 10 then 48 + v else 55 + v)

/-- `%08X`. -/
def hex8 (x : BitVec 32) : Bytes :=
  (List.range 8).map fun i ↦ hexDigit (x.toNat / 16 ^ (7 - i) % 16)

/-- The lines `if (x & M) strcat(buf, "name ");` of a table. -/
def strcatBits (x : BitVec 32) (t : Table 32 Bytes) (buf : Bytes) : Bytes :=
  t.foldl (fun buf e ↦ if x &&& e.1 ≠ 0 then buf ++ (e.2 ++ [blank]) else buf) buf

/-- The text left in `buf`, as far as its NUL, and `*unknownFlags`. -/
def OAAuthStr (x : BitVec 32) : Bytes × BitVec 32 :=
  let buf := lit "0x" ++ hex8 x ++ lit " ["
  let buf :=
    if x &&& MQZAO_ALL_MQI = MQZAO_ALL_MQI then buf ++ lit "allmqi " else strcatBits x mqiNames buf
  let buf := if x &&& MQZAO_CREATE ≠ 0 then buf ++ lit "crt " else buf
  let buf :=
    if x &&& MQZAO_ALL_ADMIN = MQZAO_ALL_ADMIN then buf ++ lit "alladm"
    else strcatBits x adminNames buf
  let buf := if x &&& MQZAO_SYSTEM ≠ 0 then buf ++ lit "system " else buf
  let buf := if x &&& MQZAO_REMOVE ≠ 0 then buf ++ lit "rem " else buf
  let buf := if x = MQZAO_NONE then buf ++ lit "none " else buf
  let unknownFlags := notAllFlags &&& x
  let buf := if unknownFlags ≠ 0 then buf ++ lit "unknown " else buf
  (buf ++ lit "]", unknownFlags)

/-- What stands between the brackets, split on blanks. -/
def tokens (text : Bytes) : List Bytes :=
  words (((text.dropWhile (· ≠ 91)).drop 1).takeWhile (· ≠ 93))

end Oamlog

/-! ### What a reader wants -/

/-- The names stand for the bits of `x` that the vocabulary has, with `none` for no bits at all, and
nothing else is there but perhaps `unknown`. -/
structure Decodes (vocab : Table 32 Bytes) (x : BitVec 32) (names : List Bytes) : Prop where
  bits : vocab.readAll names = x &&& vocab.union
  none_iff : lit "none" ∈ names ↔ x = MQZAO_NONE
  known : ∀ n ∈ names, n ∈ vocab.names ∨ n = lit "none" ∨ n = lit "unknown"

/-- Nothing is written after the administration bits, or they are not written as a group. -/
def AdminLast (x : BitVec 32) : Prop :=
  x &&& MQZAO_ALL_ADMIN = MQZAO_ALL_ADMIN →
    x &&& ~~~(MQZAO_ALL_MQI ||| MQZAO_CREATE ||| MQZAO_ALL_ADMIN) = 0

instance (x : BitVec 32) : Decidable (AdminLast x) := by
  unfold AdminLast
  infer_instance

/-! ### The rows behind the names -/

theorem mqiNames_single : mqiNames.Single := by decide

theorem adminNames_single : adminNames.Single := by decide

theorem otherNames_single (remove : Bytes) : (otherNames remove).Single := by
  intro e he
  simp only [otherNames, List.mem_cons, List.not_mem_nil, or_false] at he
  rcases he with rfl | rfl | rfl
  · exact ⟨16, by decide⟩
  · exact ⟨25, by decide⟩
  · exact ⟨24, show MQZAO_REMOVE = _ by decide⟩

theorem mqiNames_union : mqiNames.union = MQZAO_ALL_MQI := by decide

theorem adminNames_union : adminNames.union = MQZAO_ALL_ADMIN := by decide

/-- The rows that are written for `x`: the groups or their bits, and the other bits. -/
def rows (remove : Bytes) (x : BitVec 32) : Table 32 Bytes :=
  Table.group MQZAO_ALL_MQI (lit "allmqi") mqiNames x ++
    (Table.group MQZAO_ALL_ADMIN (lit "alladm") adminNames x ++ (otherNames remove).shown x)

/-- The vocabulary has the rows of both groups, and those of the other bits. -/
theorem subset_vocabulary (remove : Bytes) :
    (MQZAO_ALL_MQI, lit "allmqi") :: mqiNames ⊆ vocabulary remove ∧
      (MQZAO_ALL_ADMIN, lit "alladm") :: adminNames ⊆ vocabulary remove ∧
        otherNames remove ⊆ vocabulary remove := by
  obtain ⟨hmqi, hrest⟩ := List.append_subset.1 (List.Subset.refl (vocabulary remove))
  exact ⟨hmqi, List.append_subset.1 hrest⟩

theorem rows_subset (remove : Bytes) (x : BitVec 32) : rows remove x ⊆ vocabulary remove := by
  obtain ⟨hmqi, hadmin, hother⟩ := subset_vocabulary remove
  exact List.append_subset.2 ⟨Table.group_subset hmqi x,
    List.append_subset.2 ⟨Table.group_subset hadmin x, Table.shown_subset hother x⟩⟩

theorem vocabulary_union (remove : Bytes) : (vocabulary remove).union =
    MQZAO_ALL_MQI ||| (MQZAO_ALL_ADMIN ||| (otherNames remove).union) := by
  rw [vocabulary, Table.union_append, Table.union_append, Table.union_cons, Table.union_cons,
    mqiNames_union, adminNames_union, BitVec.or_self, BitVec.or_self]

/-- **The rows are the bits of `x` that have a name.** -/
theorem union_rows (remove : Bytes) (x : BitVec 32) :
    (rows remove x).union = x &&& (vocabulary remove).union := by
  rw [rows, Table.union_append, Table.union_append,
    Table.union_group mqiNames_single mqiNames_union,
    Table.union_group adminNames_single adminNames_union,
    Table.union_shown (otherNames_single remove), vocabulary_union, BitVec.and_or_distrib_left,
    BitVec.and_or_distrib_left]

/-- **Names of such rows decode**, with `none` where it belongs. -/
theorem decodes_of_rows {vocab u : Table 32 Bytes} {x : BitVec 32} {extras : List Bytes}
    (hnodup : vocab.names.Nodup) (hplain : ∀ n ∈ [lit "none", lit "unknown"], n ∉ vocab.names)
    (hsub : u ⊆ vocab) (hunion : u.union = x &&& vocab.union)
    (hextras : ∀ n ∈ extras, n = lit "none" ∨ n = lit "unknown")
    (hnone : lit "none" ∈ extras ↔ x = MQZAO_NONE) : Decodes vocab x (u.names ++ extras) := by
  have hnames : u.names ⊆ vocab.names := Table.names_subset hsub
  refine ⟨?_, ?_, fun n hn ↦ ?_⟩
  · have hzero : vocab.readAll extras = 0 :=
      Table.readAll_eq_zero fun n hn ↦ hplain n (by simpa using hextras n hn)
    rw [Table.readAll_append, Table.readAll_names hnodup hsub, hunion, hzero]
    exact BitVec.or_zero
  · rw [List.mem_append, hnone, or_iff_right]
    exact fun h ↦ hplain _ (by simp) (hnames h)
  · rcases List.mem_append.1 hn with h | h
    · exact .inl (hnames h)
    · exact .inr (hextras n h)

/-! ### The array -/

/-- `none`, which both modules write for no bits. -/
def noneName (x : BitVec 32) : List Bytes :=
  if x = MQZAO_NONE then [lit "none"] else []

theorem mem_noneName {x : BitVec 32} {n : Bytes} :
    n ∈ noneName x ↔ n = lit "none" ∧ x = MQZAO_NONE := by
  rw [noneName]
  split_ifs with h
  · simp [h]
  · simp [h]

namespace Oamok

theorem jcatBits_eq (x : BitVec 32) (t : Table 32 Bytes) (j : List Bytes) :
    jcatBits x t j = j ++ (t.shown x).names := by
  rw [jcatBits]
  exact (Table.foldl_shown (fun s ↦ [s]) t x j).trans (by rw [List.flatMap_singleton'])

theorem jcat_group (all x : BitVec 32) (word : Bytes) (t : Table 32 Bytes) (j : List Bytes) :
    (if x &&& all = all then jcat j word else jcatBits x t j) =
      j ++ (Table.group all word t x).names := by
  rw [Table.group]
  split_ifs
  · rfl
  · exact jcatBits_eq x t j

/-- The array is the names of the rows. -/
theorem oAAuthStr_eq (j : List Bytes) (x : BitVec 32) :
    OAAuthStr j x = j ++ ((rows (lit "remove") x).names ++ noneName x) := by
  rw [OAAuthStr]
  simp only [jcat_group]
  rw [jcatBits_eq, rows, Table.names_append, Table.names_append, noneName]
  split_ifs
  · simp [jcat]
  · simp

/-- **The array decodes.** -/
theorem oAAuthStr_decodes (x : BitVec 32) :
    Decodes (vocabulary (lit "remove")) x (OAAuthStr [] x) := by
  rw [oAAuthStr_eq, List.nil_append]
  exact decodes_of_rows (by decide) (by decide) (rows_subset _ x) (union_rows _ x)
    (fun n hn ↦ .inl (mem_noneName.1 hn).1) (by simp [mem_noneName])

theorem unknown_not_mem_oAAuthStr (x : BitVec 32) : lit "unknown" ∉ OAAuthStr [] x := by
  rw [oAAuthStr_eq, List.nil_append, List.mem_append, not_or]
  have hvocab : lit "unknown" ∉ (vocabulary (lit "remove")).names := by decide
  exact ⟨fun h ↦ hvocab (Table.names_subset (rows_subset _ x) h),
    fun h ↦ absurd (mem_noneName.1 h).1 (by decide)⟩

end Oamok

/-! ### The text -/

/-- `unknown`, which `oamlog` writes for bits it has no name for. -/
def unknownName (x : BitVec 32) : List Bytes :=
  if notAllFlags &&& x ≠ 0 then [lit "unknown"] else []

theorem mem_unknownName {x : BitVec 32} {n : Bytes} :
    n ∈ unknownName x ↔ n = lit "unknown" ∧ notAllFlags &&& x ≠ 0 := by
  rw [unknownName]
  split_ifs with h
  · rw [List.mem_singleton, and_iff_left h]
  · exact iff_of_false List.not_mem_nil fun hn ↦ h hn.2

namespace Oamlog

/-- The names before the administration bits. -/
def front (x : BitVec 32) : List Bytes :=
  (Table.group MQZAO_ALL_MQI (lit "allmqi") mqiNames x ++
    Table.shown [(MQZAO_CREATE, lit "crt")] x).names

/-- The names after them. -/
def back (x : BitVec 32) : List Bytes :=
  (Table.shown [(MQZAO_SYSTEM, lit "system"), (MQZAO_REMOVE, lit "rem")] x).names ++
    (noneName x ++ unknownName x)

/-- What stands between the brackets. -/
def inner (x : BitVec 32) : Bytes :=
  spaced (front x) ++
    (if x &&& MQZAO_ALL_ADMIN = MQZAO_ALL_ADMIN then lit "alladm" ++ spaced (back x)
    else spaced ((adminNames.shown x).names ++ back x))

theorem strcatBits_eq (x : BitVec 32) (t : Table 32 Bytes) (buf : Bytes) :
    strcatBits x t buf = buf ++ spaced (t.shown x).names :=
  Table.foldl_shown (fun s ↦ s ++ [blank]) t x buf

/-- One line of the code is a table of one row. -/
theorem strcat_line (x m : BitVec 32) (name buf : Bytes) :
    (if x &&& m ≠ 0 then buf ++ (name ++ [blank]) else buf) =
      buf ++ spaced (Table.shown [(m, name)] x).names :=
  strcatBits_eq x [(m, name)] buf

theorem strcat_group (all x : BitVec 32) (word : Bytes) (t : Table 32 Bytes) (buf : Bytes) :
    (if x &&& all = all then buf ++ (word ++ [blank]) else strcatBits x t buf) =
      buf ++ spaced (Table.group all word t x).names := by
  rw [Table.group]
  split_ifs
  · simp [Table.names]
  · exact strcatBits_eq x t buf

theorem strcat_none (x : BitVec 32) (buf : Bytes) :
    (if x = MQZAO_NONE then buf ++ lit "none " else buf) = buf ++ spaced (noneName x) := by
  rw [noneName]
  split_ifs
  · exact congrArg (buf ++ ·) (by decide)
  · exact (List.append_nil buf).symm

theorem strcat_unknown (x : BitVec 32) (buf : Bytes) :
    (if notAllFlags &&& x ≠ 0 then buf ++ lit "unknown " else buf) =
      buf ++ spaced (unknownName x) := by
  rw [unknownName]
  split_ifs
  · exact congrArg (buf ++ ·) (by decide)
  · exact (List.append_nil buf).symm

/-- The names after the administration bits, a line of the code at a time. -/
theorem spaced_back (x : BitVec 32) : spaced (back x) =
    spaced (Table.shown [(MQZAO_SYSTEM, lit "system")] x).names ++
      (spaced (Table.shown [(MQZAO_REMOVE, lit "rem")] x).names ++
        (spaced (noneName x) ++ spaced (unknownName x))) := by
  have hrows := Table.shown_append [(MQZAO_SYSTEM, lit "system")] [(MQZAO_REMOVE, lit "rem")] x
  rw [List.singleton_append] at hrows
  rw [back, hrows, Table.names_append, spaced_append, spaced_append, spaced_append,
    List.append_assoc]

/-- The text is a header and the names between brackets. -/
theorem oAAuthStr_eq (x : BitVec 32) :
    (OAAuthStr x).1 = lit "0x" ++ hex8 x ++ lit " [" ++ inner x ++ lit "]" := by
  have hmqi : lit "allmqi " = lit "allmqi" ++ [blank] := by decide
  have hcrt : lit "crt " = lit "crt" ++ [blank] := by decide
  have hsystem : lit "system " = lit "system" ++ [blank] := by decide
  have hrem : lit "rem " = lit "rem" ++ [blank] := by decide
  rw [OAAuthStr]
  simp only [hmqi, hcrt, hsystem, hrem, strcat_group, strcat_line, strcat_none, strcat_unknown]
  rw [inner, front, Table.names_append, spaced_append]
  split_ifs
  · simp only [spaced_back, List.append_assoc]
  · simp only [spaced_back, strcatBits_eq, spaced_append, List.append_assoc]

/-- Every name can be read as a word, and has no bracket. -/
theorem word_of_mem {n : Bytes}
    (h : n ∈ (vocabulary (lit "rem")).names ∨ n = lit "none" ∨ n = lit "unknown") :
    IsWord n ∧ 93 ∉ n := by
  have hvocab : ∀ n ∈ (vocabulary (lit "rem")).names, IsWord n ∧ (93 : UInt8) ∉ n := by decide
  rcases h with h | rfl | rfl
  · exact hvocab n h
  · decide
  · decide

/-- The rows of the text, in its order. -/
def textRows (x : BitVec 32) : Table 32 Bytes :=
  Table.group MQZAO_ALL_MQI (lit "allmqi") mqiNames x ++
    (Table.shown [(MQZAO_CREATE, lit "crt")] x ++
      (Table.group MQZAO_ALL_ADMIN (lit "alladm") adminNames x ++
        Table.shown [(MQZAO_SYSTEM, lit "system"), (MQZAO_REMOVE, lit "rem")] x))

theorem textRows_subset (x : BitVec 32) : textRows x ⊆ vocabulary (lit "rem") := by
  have hcrt : [(MQZAO_CREATE, lit "crt")] ⊆ vocabulary (lit "rem") := by decide
  have hlast : [(MQZAO_SYSTEM, lit "system"), (MQZAO_REMOVE, lit "rem")] ⊆
      vocabulary (lit "rem") := by decide
  obtain ⟨hmqi, hadmin, -⟩ := subset_vocabulary (lit "rem")
  exact List.append_subset.2 ⟨Table.group_subset hmqi x,
    List.append_subset.2 ⟨Table.shown_subset hcrt x,
      List.append_subset.2 ⟨Table.group_subset hadmin x, Table.shown_subset hlast x⟩⟩⟩

theorem union_textRows (x : BitVec 32) :
    (textRows x).union = x &&& (vocabulary (lit "rem")).union := by
  have hcrt : Table.Single [(MQZAO_CREATE, lit "crt")] := by decide
  have hlast : Table.Single [(MQZAO_SYSTEM, lit "system"), (MQZAO_REMOVE, lit "rem")] := by decide
  rw [textRows, Table.union_append, Table.union_append, Table.union_append,
    Table.union_group mqiNames_single mqiNames_union,
    Table.union_group adminNames_single adminNames_union, Table.union_shown hcrt,
    Table.union_shown hlast, ← BitVec.and_or_distrib_left, ← BitVec.and_or_distrib_left,
    ← BitVec.and_or_distrib_left]
  exact congrArg (x &&& ·) (by decide)

/-- Only known names are written. -/
theorem names_known {x : BitVec 32} {n : Bytes}
    (h : n ∈ front x ∨ n ∈ (adminNames.shown x).names ∨ n ∈ back x) :
    n ∈ (vocabulary (lit "rem")).names ∨ n = lit "none" ∨ n = lit "unknown" := by
  obtain ⟨hmqi, hrest⟩ := List.append_subset.1 (textRows_subset x)
  obtain ⟨hcrt, hrest⟩ := List.append_subset.1 hrest
  rcases h with h | h | h
  · exact .inl (Table.names_subset (List.append_subset.2 ⟨hmqi, hcrt⟩) h)
  · have hadmin : adminNames ⊆ vocabulary (lit "rem") := by decide
    exact .inl (Table.names_subset (Table.shown_subset hadmin x) h)
  · rcases List.mem_append.1 h with h | h
    · exact .inl (Table.names_subset (List.append_subset.1 hrest).2 h)
    · rcases List.mem_append.1 h with h | h
      · exact .inr (.inl (mem_noneName.1 h).1)
      · exact .inr (.inr (mem_unknownName.1 h).1)

theorem hexDigit_ne (v : ℕ) (h : v < 16) : hexDigit v ≠ 91 := by
  revert v
  decide

/-- The names stand between the first opening bracket and the last closing one. -/
theorem tokens_oAAuthStr (x : BitVec 32) : tokens (OAAuthStr x).1 = words (inner x) := by
  -- no opening bracket before the one of the format, and no closing one in a name
  have hheader : ∀ c ∈ lit "0x" ++ hex8 x ++ [32], decide (c ≠ 91) = true := by
    intro c hc
    rw [decide_eq_true_iff]
    rintro rfl
    rw [List.append_assoc, List.mem_append, List.mem_append, hex8] at hc
    rcases hc with h | h | h
    · exact absurd h (by decide)
    · obtain ⟨i, -, hi⟩ := List.mem_map.1 h
      exact hexDigit_ne _ (Nat.mod_lt _ (by decide)) hi
    · exact absurd h (by decide)
  have hword : ∀ {n}, (n ∈ front x ∨ n ∈ (adminNames.shown x).names ∨ n ∈ back x) → 93 ∉ n :=
    fun h ↦ (word_of_mem (names_known h)).2
  have hinner : 93 ∉ inner x := by
    rw [inner, List.mem_append, not_or]
    refine ⟨not_mem_spaced (by decide) fun n hn ↦ hword (.inl hn), ?_⟩
    split_ifs
    · rw [List.mem_append, not_or]
      exact ⟨by decide, not_mem_spaced (by decide) fun n hn ↦ hword (.inr (.inr hn))⟩
    · exact not_mem_spaced (by decide) fun n hn ↦ hword (.inr (List.mem_append.1 hn))
  have htext : (OAAuthStr x).1 = (lit "0x" ++ hex8 x ++ [32]) ++ 91 :: (inner x ++ 93 :: []) := by
    rw [oAAuthStr_eq, show lit " [" = [32, 91] by decide, show lit "]" = [93] by decide]
    simp
  rw [tokens, htext, List.dropWhile_append_of_pos hheader, List.dropWhile_cons_of_neg (by decide),
    List.drop_succ_cons, List.drop_zero, List.takeWhile_append_of_pos,
    List.takeWhile_cons_of_neg (by decide), List.append_nil]
  intro c hc
  rw [decide_eq_true_iff]
  exact fun h ↦ hinner (h ▸ hc)

/-- **What a reader finds between the brackets.** -/
theorem tokens_eq (x : BitVec 32) : tokens (OAAuthStr x).1 =
    front x ++ if x &&& MQZAO_ALL_ADMIN = MQZAO_ALL_ADMIN then glue (lit "alladm") (back x)
      else (adminNames.shown x).names ++ back x := by
  have hword : ∀ {n}, (n ∈ front x ∨ n ∈ (adminNames.shown x).names ∨ n ∈ back x) → IsWord n :=
    fun h ↦ (word_of_mem (names_known h)).1
  rw [tokens_oAAuthStr, inner, words_spaced_append fun n hn ↦ hword (.inl hn)]
  split_ifs
  · rw [words_append_spaced (by decide) fun n hn ↦ hword (.inr (.inr hn))]
  · rw [words_spaced fun n hn ↦ hword (.inr (List.mem_append.1 hn))]

theorem ne_none_of_allAdmin {x : BitVec 32} (h : x &&& MQZAO_ALL_ADMIN = MQZAO_ALL_ADMIN) :
    x ≠ MQZAO_NONE := by
  rintro rfl
  exact absurd h (by decide)

/-- Something is written after the administration bits for a mask with a bit outside. -/
theorem back_eq_nil_iff {x : BitVec 32} (hx : x ≠ MQZAO_NONE) :
    back x = [] ↔ x &&& ~~~(MQZAO_ALL_MQI ||| MQZAO_CREATE ||| MQZAO_ALL_ADMIN) = 0 := by
  have hmask : ~~~(MQZAO_ALL_MQI ||| MQZAO_CREATE ||| MQZAO_ALL_ADMIN) =
      Table.union [(MQZAO_SYSTEM, lit "system"), (MQZAO_REMOVE, lit "rem")] ||| notAllFlags := by
    decide
  have hnone : noneName x = [] := if_neg hx
  have hunknown : unknownName x = [] ↔ x &&& notAllFlags = 0 := by
    rw [unknownName, BitVec.and_comm]
    simp
  rw [hmask, BitVec.and_or_distrib_left, back, hnone, List.nil_append, List.append_eq_nil_iff,
    Table.names, List.map_eq_nil_iff, Table.shown_eq_nil_iff, hunknown]
  exact BitVec.or_eq_zero_iff.symm

/-- A mask that `AdminLast` describes has its administration bits as words of their own. -/
theorem tokens_eq_of_adminLast {x : BitVec 32} (hx : AdminLast x) :
    tokens (OAAuthStr x).1 = (textRows x).names ++ (noneName x ++ unknownName x) := by
  have hrows : (textRows x).names ++ (noneName x ++ unknownName x) =
      front x ++ ((Table.group MQZAO_ALL_ADMIN (lit "alladm") adminNames x).names ++ back x) := by
    simp only [textRows, front, back, Table.names_append, List.append_assoc]
  rw [tokens_eq, hrows, Table.group]
  split_ifs with hall
  · rw [(back_eq_nil_iff (ne_none_of_allAdmin hall)).2 (hx hall), glue]
    rfl
  · rfl

/-- **The text decodes exactly if nothing follows the word for all administration bits.** -/
theorem oAAuthStr_decodes {x : BitVec 32} (hx : AdminLast x) :
    Decodes (vocabulary (lit "rem")) x (tokens (OAAuthStr x).1) := by
  rw [tokens_eq_of_adminLast hx]
  refine decodes_of_rows (by decide) (by decide) (textRows_subset x) (union_textRows x) ?_ ?_
  · intro n hn
    rcases List.mem_append.1 hn with h | h
    · exact .inl (mem_noneName.1 h).1
    · exact .inr (mem_unknownName.1 h).1
  · rw [List.mem_append, mem_noneName, mem_unknownName]
    simp [show lit "none" ≠ lit "unknown" by decide]

theorem unknown_mem_oAAuthStr {x : BitVec 32} (hx : AdminLast x) :
    lit "unknown" ∈ tokens (OAAuthStr x).1 ↔ notAllFlags &&& x ≠ 0 := by
  have hvocab : lit "unknown" ∉ (vocabulary (lit "rem")).names := by decide
  have hrows : lit "unknown" ∉ (textRows x).names :=
    fun h ↦ hvocab (Table.names_subset (textRows_subset x) h)
  rw [tokens_eq_of_adminLast hx, List.mem_append, or_iff_right hrows, List.mem_append,
    mem_noneName, mem_unknownName]
  simp [show lit "unknown" ≠ lit "none" by decide]

/-- The two words that have run together are no name. -/
theorem not_decodes {x : BitVec 32} (hx : ¬ AdminLast x) :
    ¬ Decodes (vocabulary (lit "rem")) x (tokens (OAAuthStr x).1) := by
  intro h
  obtain ⟨hall, hrest⟩ := Classical.not_imp.1 hx
  have hback_iff := back_eq_nil_iff (ne_none_of_allAdmin hall)
  obtain ⟨s, l, hback⟩ := List.exists_cons_of_ne_nil (mt hback_iff.1 hrest)
  have hs : s ∈ [lit "system", lit "rem", lit "none", lit "unknown"] := by
    have hmem : s ∈ back x := hback ▸ List.mem_cons_self
    rw [back, List.mem_append, List.mem_append, mem_noneName, mem_unknownName] at hmem
    rcases hmem with h | h | h
    · exact List.mem_append_left [lit "none", lit "unknown"]
        (Table.names_subset (Table.shown_subset (List.Subset.refl _) x) h)
    · simp [h.1]
    · simp [h.1]
  have hglued : ∀ s ∈ [lit "system", lit "rem", lit "none", lit "unknown"],
      ¬ (lit "alladm" ++ s ∈ (vocabulary (lit "rem")).names ∨ lit "alladm" ++ s = lit "none" ∨
        lit "alladm" ++ s = lit "unknown") := by decide
  refine hglued s hs (h.known _ ?_)
  rw [tokens_eq, if_pos hall, hback, glue]
  exact List.mem_append_right _ List.mem_cons_self

end Oamlog

/-! ### Both renderings -/

/-- The array and the text both decode to the bits of `x`; `unknown` is for the text alone, and for
bits it has no name for. -/
structure RenderingsDecode (x : BitVec 32) : Prop where
  array : Decodes (vocabulary (lit "remove")) x (Oamok.OAAuthStr [] x)
  array_unknown : lit "unknown" ∉ Oamok.OAAuthStr [] x
  text : Decodes (vocabulary (lit "rem")) x (Oamlog.tokens (Oamlog.OAAuthStr x).1)
  text_unknown : lit "unknown" ∈ Oamlog.tokens (Oamlog.OAAuthStr x).1 ↔
    x &&& ~~~(MQZAO_ALL ||| MQZAO_CREATE ||| MQZAO_REMOVE) ≠ 0

/-- **Both renderings of a mask decode exactly if `AdminLast` does not exclude it**: the array
always does, and the text does unless `alladm` runs into another word. -/
theorem renderingsDecode_iff (x : BitVec 32) : RenderingsDecode x ↔ AdminLast x := by
  constructor
  · intro h
    by_contra hx
    exact Oamlog.not_decodes hx h.text
  · intro hx
    have hmask : ~~~(MQZAO_ALL ||| MQZAO_CREATE ||| MQZAO_REMOVE) = notAllFlags := by decide
    refine ⟨Oamok.oAAuthStr_decodes x, Oamok.unknown_not_mem_oAAuthStr x,
      Oamlog.oAAuthStr_decodes hx, ?_⟩
    rw [hmask, BitVec.and_comm]
    exact Oamlog.unknown_mem_oAAuthStr hx

/-- All of the MQI and administration authorities, with `MQZAO_CREATE` and `MQZAO_SYSTEM`: the text
has the token `alladmsystem`. -/
theorem not_renderingsDecode_alladmsystem : ¬ RenderingsDecode 0x02FF3FFF := by
  intro h
  have hmem : lit "alladmsystem" ∈ Oamlog.tokens (Oamlog.OAAuthStr 0x02FF3FFF).1 := by decide
  exact absurd (h.text.known _ hmem) (by decide)

end MqExits.Oam
