import MqExits.Connwarn.FileName
import MqExits.Connwarn.LogEntry

/-!
# What `trim_whitespace` leaves

MQ pads its fields with blanks, and `trim_whitespace` is to take the padding off. It looks at what
`isspace` holds for, and never at the first character: of an all-blank field one blank is left. The
two places where that matters are the path of the log, which is made of the ExitData, and the
comparison of the credentials of the MQCD with those of the MQCSP.

Both come down to one question about a text: is what `trim_whitespace` leaves of it what is left
when the blanks at its end are taken off? `TrimsBlanks` answers it with a condition on the text, and
`trimWhitespace_eq_iff` says that the condition is exact. What is proved about the log and about the
credentials is stated with `TrimsBlanks`, so that neither names what the code computes.

## What is read besides the field

ExitData has 32 bytes, and `strncpy` copies up to `MQ_PATH_MAX` of them: from a field without a NUL
it goes on into what follows the field. The test for a slash at the end looks at the byte before
`path` if the path is empty. Both are memory the exit has no business with, so they are parameters
(`ExitParms.after`, `ExitParms.before`), and `LogPath` records how far the code has read. The log is
where it is meant to be only if nothing of this decides where that is (`logsWhereMeant_iff`).

## Which MQCDs are told apart rightly

For one MQCSP the flag can be right by chance: neither what is left of the fields nor the fields
without their padding are what was sent. So the condition is one on the MQCD, for every MQCSP
(`tellsIdentical_iff`). That it is necessary is shown by the MQCSP which has just what is left of
the fields.
-/

namespace MqExits.Connwarn

open CText

/-! ### Trimming -/

/-- Trimming takes off the blanks at the end and no more: the text is empty, or there is something
else in it, and what is left does not end in other whitespace after its first character. -/
def TrimsBlanks (text : Bytes) : Prop :=
  text = [] ∨ text.rdropWhile (· == 32) ≠ [] ∧
    ∀ b, (text.rdropWhile (· == 32)).tail.getLast? = some b → isspace b = false

theorem isspace_of_beq_blank {b : UInt8} (h : (b == 32) = true) : isspace b = true := by
  rw [beq_iff_eq.1 h]
  decide

theorem rdropWhile_isspace_eq_self_iff {t : Bytes} :
    t.rdropWhile isspace = t ↔ ∀ b, t.getLast? = some b → isspace b = false := by
  rw [List.rdropWhile_eq_self_iff]
  constructor
  · intro h b hb
    have hne : t ≠ [] := by
      rintro rfl
      cases hb
    rw [List.getLast?_eq_some_getLast hne] at hb
    obtain rfl := Option.some.inj hb
    exact Bool.eq_false_iff.2 (h hne)
  · intro h hne
    exact Bool.eq_false_iff.1 (h _ (List.getLast?_eq_some_getLast hne))

/-- **What is trimmed is the padding exactly if** there is something before it, and no other
whitespace. -/
theorem trimWhitespace_eq_iff {text : Bytes} :
    trimWhitespace text = text.rdropWhile (· == 32) ↔ TrimsBlanks text := by
  rw [TrimsBlanks]
  rcases text with - | ⟨b, s⟩
  · exact iff_of_true rfl (Or.inl rfl)
  · have hspace := rdropWhile_rdropWhile (fun _ ↦ isspace_of_beq_blank) s (q := isspace)
    rw [trimWhitespace, rdropWhile_cons, ← hspace]
    simp only [reduceCtorEq, false_or]
    generalize s.rdropWhile (· == 32) = z
    split_ifs with hz hb
    · simp
    · subst hz
      simp
    · rw [List.cons_inj_right, rdropWhile_isspace_eq_self_iff]
      simp

instance (text : Bytes) : Decidable (TrimsBlanks text) :=
  decidable_of_iff (trimWhitespace text = text.rdropWhile (· == 32)) trimWhitespace_eq_iff

/-! ### The path of the log -/

def MQ_PATH_MAX : ℕ := 4096
def MQ_EXIT_DATA_LENGTH : ℕ := 32

def MQCXP_VERSION_2 : MQLONG := 2

/-- `DEFAULT_LOG_LOCATION`. -/
def DEFAULT_LOG_LOCATION : Bytes := lit "/var/mqm/errors/"

/-- The ExitData of an MQCXP, and the memory on either side of what `ChlExit` works on. -/
structure ExitParms where
  version : MQLONG
  exitData : Field MQ_EXIT_DATA_LENGTH
  /-- The bytes that follow ExitData, as far as they are read. -/
  after : Bytes
  /-- The byte in front of `path`. -/
  before : UInt8

/-- A path, and what it has been made of. -/
structure LogPath where
  path : Bytes
  /-- How many bytes have been read from the beginning of ExitData on. -/
  exitDataRead : ℕ
  /-- Whether the byte in front of `path` has been read. -/
  beforeRead : Bool

/-- `if (path[strlen(path) - 1] != '/') strcat(path, "/")`. -/
def withSlash (before : UInt8) (path : Bytes) : Bytes :=
  if path.getLast?.getD before ≠ 47 then path ++ [47] else path

/-- `strncat(path, filename, MQ_PATH_MAX - strlen(path))`. -/
def strncatFilename (path filename : Bytes) : Bytes :=
  if path.length ≤ MQ_PATH_MAX then path ++ filename.take (MQ_PATH_MAX - path.length)
  else path ++ filename

/-- The directory, as `ChlExit` makes it. The condition on the first byte of ExitData holds of every
byte. -/
def logDirectory (p : ExitParms) : LogPath :=
  if p.version ≥ MQCXP_VERSION_2 ∧ (p.exitData.val.headD 0 ≠ 32 ∨ p.exitData.val.headD 0 ≠ 0) then
    let path := cstr ((p.exitData.val ++ p.after).take MQ_PATH_MAX)
    { path := withSlash p.before (trimWhitespace path)
      exitDataRead := min MQ_PATH_MAX (path.length + 1)
      -- `trim_whitespace` and the test for the slash both look at the last byte of the path
      beforeRead := path.isEmpty }
  else
    { path := DEFAULT_LOG_LOCATION
      exitDataRead := 0
      beforeRead := false }

/-- The path that `ChlExit` tries first, for a channel whose name is at `chlname`. -/
def firstLogPath (p : ExitParms) (chlname : Bytes) : Option LogPath :=
  (chlnameToFilename chlname FILENAME_MAX).map fun filename ↦
    { logDirectory p with path := strncatFilename (logDirectory p).path filename }

/-- The path with a slash at its end, if it has none there. -/
def slashed (path : Bytes) : Bytes :=
  if path.getLast? = some 47 then path else path ++ [47]

/-- The directory that is meant: the default one if ExitData is blank, else what ExitData says, with
a slash at its end. -/
def meantDirectory (exitData : Bytes) : Bytes :=
  if exitData.all (· == 32) ∨ exitData.headD 0 = 0 then DEFAULT_LOG_LOCATION
  else slashed (unpadded exitData)

/-- The log is tried first where it is meant to be, and nothing but ExitData and the path itself
decides that. -/
def LogsWhereMeant (p : ExitParms) (chlname : Bytes) : Prop :=
  ∃ filename r, chlnameToFilename chlname FILENAME_MAX = some filename ∧
    firstLogPath p chlname = some r ∧ r.path = meantDirectory p.exitData.val ++ filename ∧
    r.exitDataRead ≤ MQ_EXIT_DATA_LENGTH ∧ r.beforeRead = false

/-- The first byte is not both, so the first branch is taken. -/
theorem logDirectory_of_le {p : ExitParms} (h : p.version ≥ MQCXP_VERSION_2) :
    logDirectory p =
      { path := withSlash p.before
          (trimWhitespace (cstr ((p.exitData.val ++ p.after).take MQ_PATH_MAX)))
        exitDataRead :=
          min MQ_PATH_MAX ((cstr ((p.exitData.val ++ p.after).take MQ_PATH_MAX)).length + 1)
        beforeRead := (cstr ((p.exitData.val ++ p.after).take MQ_PATH_MAX)).isEmpty } := by
  have hfirst : p.exitData.val.headD 0 ≠ 32 ∨ p.exitData.val.headD 0 ≠ 0 := by
    by_cases h32 : p.exitData.val.headD 0 = 32
    · exact Or.inr (by rw [h32]; decide)
    · exact Or.inl h32
  rw [logDirectory, if_pos ⟨h, hfirst⟩]

/-- What is copied of ExitData: its text, where that has an end. -/
theorem cstr_exitData {p : ExitParms} (hnul : (0 : UInt8) ∈ p.exitData.val) :
    cstr ((p.exitData.val ++ p.after).take MQ_PATH_MAX) = cstr p.exitData.val ∧
      (cstr p.exitData.val).length < MQ_EXIT_DATA_LENGTH := by
  obtain ⟨u, v, heq, hu⟩ := List.eq_append_cons_of_mem hnul
  have hlen := p.exitData.2
  rw [heq, List.length_append, List.length_cons] at hlen
  have hcstr : ∀ r, cstr (u ++ 0 :: r) = u := fun r ↦ by
    rw [cstr_append_nul, cstr_eq_self hu]
  have hu : u.length + 1 ≤ MQ_EXIT_DATA_LENGTH := by omega
  rw [heq, hcstr, List.append_assoc, List.cons_append, List.take_append,
    List.take_of_length_le (by exact (Nat.le_of_succ_le hu).trans (by decide))]
  obtain ⟨n, hn⟩ : ∃ n, MQ_PATH_MAX - u.length = n + 1 := by
    refine ⟨MQ_PATH_MAX - u.length - 1, ?_⟩
    have hmax : MQ_EXIT_DATA_LENGTH < MQ_PATH_MAX := by decide
    omega
  rw [hn, List.take_succ_cons, hcstr]
  exact ⟨rfl, hu⟩

/-- Where it has none, more than ExitData is read. -/
theorem lt_exitDataRead {p : ExitParms} (hnul : (0 : UInt8) ∉ p.exitData.val) :
    MQ_EXIT_DATA_LENGTH <
      min MQ_PATH_MAX ((cstr ((p.exitData.val ++ p.after).take MQ_PATH_MAX)).length + 1) := by
  have hle : p.exitData.val.length ≤ MQ_PATH_MAX := by
    rw [p.exitData.2]
    decide
  have hne : ∀ c ∈ p.exitData.val, c ≠ 0 := fun c hc heq ↦ hnul (heq ▸ hc)
  rw [List.take_append, List.take_of_length_le hle, cstr_append hne, List.length_append,
    p.exitData.2]
  exact Nat.lt_min.2 ⟨by decide, by omega⟩

theorem withSlash_of_ne_nil {path : Bytes} (h : path ≠ []) (before : UInt8) :
    withSlash before path = slashed path := by
  rw [withSlash, slashed, List.getLast?_eq_some_getLast h, Option.getD_some, ite_not]
  simp

/-- Two beginnings of a text that lack no slash of it get the same slash only if they are one. -/
theorem slashed_inj {text x y r r' : Bytes} (hx : x ++ r = text) (hy : y ++ r' = text)
    (hr : (47 : UInt8) ∉ r) (hr' : (47 : UInt8) ∉ r') : slashed x = slashed y ↔ x = y := by
  refine ⟨fun h ↦ ?_, fun h ↦ h ▸ rfl⟩
  unfold slashed at h
  split_ifs at h
  · exact h
  · rw [h, ← hy, List.append_assoc] at hx
    exact absurd (List.append_cancel_left hx ▸ List.mem_cons_self) hr'
  · rw [← h, ← hx, List.append_assoc] at hy
    exact absurd (List.append_cancel_left hy ▸ List.mem_cons_self) hr
  · exact List.append_cancel_right h

/-- Neither way of trimming takes off a slash. -/
theorem slashed_trim_inj {text : Bytes} :
    slashed (trimWhitespace text) = slashed (text.rdropWhile (· == 32)) ↔ TrimsBlanks text := by
  rw [← trimWhitespace_eq_iff]
  have hblanks : (47 : UInt8) ∉ text.rtakeWhile (· == 32) := fun h ↦
    absurd (List.mem_rtakeWhile_imp h) (by decide)
  obtain ⟨r, hr, hspaces⟩ : ∃ r, trimWhitespace text ++ r = text ∧ (47 : UInt8) ∉ r := by
    rcases text with - | ⟨b, s⟩
    · exact ⟨[], rfl, List.not_mem_nil⟩
    · refine ⟨s.rtakeWhile isspace, ?_, fun h ↦ absurd (List.mem_rtakeWhile_imp h) (by decide)⟩
      rw [trimWhitespace, List.cons_append, List.rdropWhile_append_rtakeWhile]
  exact slashed_inj hr List.rdropWhile_append_rtakeWhile hspaces hblanks

/-- ExitData has an end, and its text is a path that is trimmed as it should be. -/
structure HoldsPath (exitData : Bytes) : Prop where
  ended : (0 : UInt8) ∈ exitData
  notEmpty : cstr exitData ≠ []
  trims : TrimsBlanks (cstr exitData)

theorem trimWhitespace_length_le (text : Bytes) : (trimWhitespace text).length ≤ text.length := by
  rcases text with - | ⟨b, s⟩
  · exact le_rfl
  · exact Nat.succ_le_succ (List.rdropWhile_prefix isspace s).length_le

theorem strncatFilename_of_le {path filename : Bytes}
    (h : path.length + filename.length ≤ MQ_PATH_MAX) :
    strncatFilename path filename = path ++ filename := by
  rw [strncatFilename, if_pos (by omega), List.take_of_length_le (by omega)]

/-- The path, where ExitData has an end and a text before it. -/
theorem logDirectory_path {p : ExitParms} (hversion : p.version ≥ MQCXP_VERSION_2)
    (hnul : (0 : UInt8) ∈ p.exitData.val) (hne : cstr p.exitData.val ≠ []) :
    (logDirectory p).path = slashed (trimWhitespace (cstr p.exitData.val)) := by
  obtain ⟨b, s, hbs⟩ := List.exists_cons_of_ne_nil hne
  have htrim : trimWhitespace (cstr p.exitData.val) ≠ [] := by
    rw [hbs]
    exact List.cons_ne_nil _ _
  rw [logDirectory_of_le hversion, (cstr_exitData hnul).1, withSlash_of_ne_nil htrim]

theorem meantDirectory_of_mem {exitData : Bytes} (hnul : (0 : UInt8) ∈ exitData)
    (hne : cstr exitData ≠ []) :
    meantDirectory exitData = slashed ((cstr exitData).rdropWhile (· == 32)) := by
  have hblank : ¬ (exitData.all (· == 32) ∨ exitData.headD 0 = 0) := by
    rintro (hall | hhead)
    · exact absurd (List.all_eq_true.1 hall 0 hnul) (by decide)
    · rcases exitData with - | ⟨b, s⟩
      · exact hne rfl
      · obtain rfl : b = 0 := hhead
        exact hne rfl
  rw [meantDirectory, if_neg hblank, unpadded]

/-- **When the log is tried where it is meant to be**: ExitData is ended by a NUL, is not empty, and
its text is trimmed as it should be. -/
theorem logsWhereMeant_iff {p : ExitParms} {chlname filename : Bytes}
    (hversion : p.version ≥ MQCXP_VERSION_2)
    (hname : chlnameToFilename chlname FILENAME_MAX = some filename) :
    LogsWhereMeant p chlname ↔ HoldsPath p.exitData.val := by
  have hdirectory : LogsWhereMeant p chlname ↔
      strncatFilename (logDirectory p).path filename = meantDirectory p.exitData.val ++ filename ∧
        (logDirectory p).exitDataRead ≤ MQ_EXIT_DATA_LENGTH ∧
        (logDirectory p).beforeRead = false := by
    simp [LogsWhereMeant, firstLogPath, hname]
  rw [hdirectory]
  by_cases hnul : (0 : UInt8) ∈ p.exitData.val
  · obtain ⟨htext, hlen⟩ := cstr_exitData hnul
    by_cases hne : cstr p.exitData.val = []
    · -- an empty path: the test for the slash looks before it
      refine iff_of_false ?_ fun h ↦ h.notEmpty hne
      rintro ⟨-, -, hbefore⟩
      rw [logDirectory_of_le hversion, htext, hne] at hbefore
      cases hbefore
    · -- a path: the name is appended whole, and what is left to compare are the two ways to trim
      have hfits : (logDirectory p).path.length + filename.length ≤ MQ_PATH_MAX := by
        have htrim := trimWhitespace_length_le (cstr p.exitData.val)
        have hfile := length_chlnameToFilename hname
        have hmax : MQ_EXIT_DATA_LENGTH + MQ_CHANNEL_NAME_LENGTH + 2 ≤ MQ_PATH_MAX := by decide
        rw [logDirectory_path hversion hnul hne, slashed]
        split_ifs
        · omega
        · rw [List.length_append, List.length_singleton]
          omega
      have hread : (logDirectory p).exitDataRead ≤ MQ_EXIT_DATA_LENGTH := by
        rw [logDirectory_of_le hversion, htext]
        exact (min_le_right _ _).trans hlen
      have hbefore : (logDirectory p).beforeRead = false := by
        rw [logDirectory_of_le hversion, htext]
        exact List.isEmpty_eq_false_iff.2 hne
      rw [strncatFilename_of_le hfits, List.append_cancel_right_eq,
        logDirectory_path hversion hnul hne, meantDirectory_of_mem hnul hne, slashed_trim_inj]
      exact ⟨fun h ↦ ⟨hnul, hne, h.1⟩, fun h ↦ ⟨h.trims, hread, hbefore⟩⟩
  · -- no NUL: the copy goes on behind the field
    refine iff_of_false ?_ fun h ↦ hnul h.ended
    rintro ⟨-, hread, -⟩
    rw [logDirectory_of_le hversion] at hread
    exact absurd hread (not_le.2 (lt_exitDataRead hnul))

/-- ExitData with the path of a directory, padded with NULs. -/
def ExitParms.directory : ExitParms where
  version := MQCXP_VERSION_2
  exitData := .pad 32 0 (lit "/var/log")
  after := []
  before := 0

theorem logsWhereMeant_iff_directory :
    LogsWhereMeant .directory sevenDots ↔ HoldsPath ExitParms.directory.exitData.val :=
  logsWhereMeant_iff (show (2 : ℤ) ≥ 2 from le_rfl)
    (chlnameToFilename_eq heldBy_sevenDots)

/-- Blank ExitData, and the fields after it. -/
def ExitParms.blank : ExitParms where
  version := MQCXP_VERSION_2
  exitData := .pad 32 32 []
  after := [1, 0, 0, 0, 0]
  before := 0

/-- It is taken for a path, and what is after it too. -/
theorem not_logsWhereMeant_blank :
    ExitParms.blank.version ≥ MQCXP_VERSION_2 ∧
      (firstLogPath .blank sevenDots).map (·.path) =
        some (List.replicate 32 32 ++ 1 :: lit "/2e-2e-2e-2e-2e-2e-2e-") ∧
      ¬ LogsWhereMeant .blank sevenDots := by
  refine ⟨le_rfl, by decide, ?_⟩
  rintro ⟨filename, r, -, hr, -, hread, -⟩
  have hlen : (logDirectory .blank).exitDataRead = 34 := by decide
  obtain ⟨filename, -, rfl⟩ := Option.map_eq_some_iff.1 hr
  change (logDirectory .blank).exitDataRead ≤ _ at hread
  rw [hlen] at hread
  exact absurd hread (by decide)

/-! ### Identical credentials -/

/-- The user id that was sent. -/
def MQCSP.user (csp : MQCSP) : Bytes :=
  csp.CSPUserId.take csp.CSPUserIdLength.toNat

/-- The password that was sent. -/
def MQCSP.password (csp : MQCSP) : Bytes :=
  csp.CSPPassword.take csp.CSPPasswordLength.toNat

/-- The lengths are those of memory that is there. -/
structure MQCSP.WellFormed (csp : MQCSP) : Prop where
  user_nonneg : 0 ≤ csp.CSPUserIdLength
  user_le : csp.CSPUserIdLength ≤ csp.CSPUserId.length
  password_nonneg : 0 ≤ csp.CSPPasswordLength
  password_le : csp.CSPPasswordLength ≤ csp.CSPPassword.length

/-- Comparing the lengths first, and then as many bytes, is comparing the bytes that were sent. -/
theorem length_eq_and_strncmpEq_iff {s bytes : Bytes} {len : MQLONG} (hs : (0 : UInt8) ∉ s)
    (hlen : 0 ≤ len) (hle : len ≤ bytes.length) :
    ((s.length : ℤ) = len ∧ strncmpEq s bytes len.toNat = true) ↔ bytes.take len.toNat = s := by
  have htake : (bytes.take len.toNat).length = len.toNat :=
    List.length_take_of_le (Int.toNat_le.2 hle)
  constructor
  · rintro ⟨heq, hcmp⟩
    have hn : len.toNat = s.length := by rw [← heq]; rfl
    rw [strncmpEq, hn, List.take_length, cstr_eq_self hs, beq_iff_eq] at hcmp
    rw [hn] at htake ⊢
    -- a C string as long as its buffer is the buffer
    have hstart : cstr (bytes.take s.length) <+: bytes.take s.length := List.takeWhile_prefix _
    rw [← hcmp] at hstart
    exact (hstart.eq_of_length htake.symm).symm
  · rintro rfl
    rw [htake, strncmpEq, List.take_take, min_self]
    exact ⟨Int.toNat_of_nonneg hlen, beq_self_eq_true _⟩

theorem nul_notMem_trimWhitespace {text : Bytes} (h : (0 : UInt8) ∉ text) :
    (0 : UInt8) ∉ trimWhitespace text := by
  rcases text with - | ⟨b, s⟩
  · exact h
  · rw [List.mem_cons, not_or] at h
    rw [trimWhitespace, List.mem_cons, not_or]
    exact ⟨h.1, fun hs ↦ h.2 ((List.rdropWhile_prefix isspace s).subset hs)⟩

/-- What the MQCSP is compared with is what `trim_whitespace` leaves of the fields. -/
theorem identical_iff {c : Connection} {csp : MQCSP} (h : csp.WellFormed) :
    c.identical csp = true ↔
      csp.user = trimWhitespace (cstr c.remoteUserIdentifier.val) ∧
        csp.password = trimWhitespace (cstr c.remotePassword.val) := by
  have htext : ∀ {n : ℕ} (field : Field n), strncpy field.val n = cstr field.val :=
    fun field ↦ by rw [strncpy, List.take_of_length_le field.2.le]
  have hnul : ∀ {n : ℕ} (field : Field n), (0 : UInt8) ∉ trimWhitespace (cstr field.val) :=
    fun field ↦ nul_notMem_trimWhitespace (not_mem_cstr _)
  rw [MQCSP.user, MQCSP.password,
    ← length_eq_and_strncmpEq_iff (hnul _) h.user_nonneg h.user_le,
    ← length_eq_and_strncmpEq_iff (hnul _) h.password_nonneg h.password_le]
  simp only [Connection.identical, decide_eq_true_eq, htext]
  tauto

/-- The entry says that the credentials are identical exactly if they are. -/
def TellsIdentical (c : Connection) (csp : MQCSP) : Prop :=
  ∃ v, logValues c = some v ∧
    (v.identicalCDCSP = true ↔ csp.user = unpadded c.remoteUserIdentifier.val ∧
      csp.password = unpadded c.remotePassword.val)

/-- With credentials in both, what trimming leaves is compared in place of what was sent. -/
theorem tellsIdentical_iff_trimmed {c : Connection} {csp : MQCSP} {valid : Bool}
    (hcd : c.cdSet = true) (hcsp : c.csp = some csp) (hvalid : c.validaterc = some valid)
    (hwf : csp.WellFormed) :
    TellsIdentical c csp ↔
      (csp.user = trimWhitespace (cstr c.remoteUserIdentifier.val) ∧
          csp.password = trimWhitespace (cstr c.remotePassword.val) ↔
        csp.user = unpadded c.remoteUserIdentifier.val ∧
          csp.password = unpadded c.remotePassword.val) := by
  rw [← identical_iff hwf]
  simp [TellsIdentical, logValues, hcsp, hvalid, hcd]

/-- The connection with another MQCSP, and with what the check of its credentials returns. -/
def Connection.sending (c : Connection) (csp : MQCSP) (valid : Bool) : Connection :=
  { c with securityParms := some csp, validaterc := some valid }

theorem csp_sending {c : Connection} {csp : MQCSP} (valid : Bool)
    (hversion : c.parmsVersion ≥ MQCXP_VERSION_6)
    (hset : csp.CSPUserIdLength > 0 ∨ csp.CSPPasswordLength > 0) :
    (c.sending csp valid).csp = some csp := by
  rw [Connection.csp, if_pos (show (c.sending csp valid).parmsVersion ≥ _ from hversion)]
  exact Option.filter_eq_some_iff.2 ⟨rfl, decide_eq_true hset⟩

/-- The MQCSP with a user and a password. -/
def MQCSP.of (user password : Bytes) : MQCSP :=
  ⟨user.length, user, password.length, password⟩

theorem MQCSP.wellFormed_of (user password : Bytes) : (MQCSP.of user password).WellFormed where
  user_nonneg := Int.natCast_nonneg _
  user_le := le_rfl
  password_nonneg := Int.natCast_nonneg _
  password_le := le_rfl

theorem MQCSP.user_of (user password : Bytes) : (MQCSP.of user password).user = user :=
  List.take_length

theorem MQCSP.password_of (user password : Bytes) : (MQCSP.of user password).password = password :=
  List.take_length

/-- A password that was sent leaves something when it is trimmed. -/
theorem trimWhitespace_password_ne_nil {c : Connection} (hcd : c.cdSet = true) :
    trimWhitespace (cstr c.remotePassword.val) ≠ [] := by
  have hhead : c.remotePassword.val.headD 0 ≠ 0 := by
    simp only [Connection.cdSet, decide_eq_true_eq] at hcd
    exact hcd.2.2
  rcases hpassword : c.remotePassword.val with - | ⟨b, s⟩
  · rw [hpassword] at hhead
    exact absurd rfl hhead
  · rw [hpassword, List.headD_cons] at hhead
    simp [cstr, hhead, trimWhitespace]

/-- **When `identicalCDCSP` is right** for an MQCD, whatever the MQCSP: when trimming takes the
padding off both of its fields and no more. -/
theorem tellsIdentical_iff {c : Connection} (hcd : c.cdSet = true)
    (hversion : c.parmsVersion ≥ MQCXP_VERSION_6) :
    (∀ csp valid, csp.WellFormed → csp.CSPUserIdLength > 0 ∨ csp.CSPPasswordLength > 0 →
      TellsIdentical (c.sending csp valid) csp) ↔
    TrimsBlanks (cstr c.remoteUserIdentifier.val) ∧ TrimsBlanks (cstr c.remotePassword.val) := by
  rw [← trimWhitespace_eq_iff, ← trimWhitespace_eq_iff]
  constructor
  · intro h
    -- the MQCSP with what is left of the fields
    have hlength : 0 < (trimWhitespace (cstr c.remotePassword.val)).length :=
      List.length_pos_of_ne_nil (trimWhitespace_password_ne_nil hcd)
    have hset : (0 : ℤ) < (trimWhitespace (cstr c.remoteUserIdentifier.val)).length ∨
        (0 : ℤ) < (trimWhitespace (cstr c.remotePassword.val)).length :=
      Or.inr (Int.natCast_pos.2 hlength)
    have hwf := MQCSP.wellFormed_of (trimWhitespace (cstr c.remoteUserIdentifier.val))
      (trimWhitespace (cstr c.remotePassword.val))
    have htold := (tellsIdentical_iff_trimmed (show (c.sending _ false).cdSet = true from hcd)
      (csp_sending false hversion hset) rfl hwf).1 (h _ false hwf hset)
    rw [MQCSP.user_of, MQCSP.password_of] at htold
    exact htold.1 ⟨rfl, rfl⟩
  · rintro ⟨huser, hpassword⟩ csp valid hwf hset
    have hsame : csp.user = trimWhitespace (cstr c.remoteUserIdentifier.val) ∧
          csp.password = trimWhitespace (cstr c.remotePassword.val) ↔
        csp.user = unpadded c.remoteUserIdentifier.val ∧
          csp.password = unpadded c.remotePassword.val := by
      rw [huser, hpassword]
      exact Iff.rfl
    exact (tellsIdentical_iff_trimmed (show (c.sending csp valid).cdSet = true from hcd)
      (csp_sending valid hversion hset) rfl hwf).2 hsame

/-- An MQCSP with a password and no user id. -/
def MQCSP.passwordOnly : MQCSP := ⟨0, [], 6, lit "secret"⟩

/-- A connection with that password in the MQCD too, and a blank user id. -/
def Connection.blankUser : Connection where
  parmsVersion := 8
  partnerName := .pad 48 32 []
  remoteVersion := .pad 8 32 (lit "09030300")
  remoteProduct := .pad 4 32 (lit "MQCC")
  securityParms := some .passwordOnly
  cdVersion := 11
  connectionName := .pad 264 32 (lit "10.0.0.1")
  shortConnectionName := .pad 20 32 (lit "10.0.0.1")
  remoteUserIdentifier := .pad 12 32 []
  remotePassword := .pad 12 32 (lit "secret")
  timestamp := lit "2020-11-04T11:45:04+0000"
  validaterc := some false

theorem wellFormed_passwordOnly : MQCSP.passwordOnly.WellFormed :=
  ⟨by decide, by decide, by decide, by decide⟩

/-- A user and a password that fill their fields. -/
def Connection.fullFields : Connection :=
  { Connection.blankUser with
    remoteUserIdentifier := .pad 12 32 (lit "applications")
    remotePassword := .pad 12 32 (lit "secretsecret") }

theorem tellsIdentical_iff_fields :
    (∀ csp valid, csp.WellFormed → csp.CSPUserIdLength > 0 ∨ csp.CSPPasswordLength > 0 →
      TellsIdentical (Connection.fullFields.sending csp valid) csp) ∧
    ¬ ∀ csp valid, csp.WellFormed → csp.CSPUserIdLength > 0 ∨ csp.CSPPasswordLength > 0 →
      TellsIdentical (Connection.blankUser.sending csp valid) csp :=
  ⟨(tellsIdentical_iff (by decide) (by decide)).2 (by decide),
    fun h ↦ absurd ((tellsIdentical_iff (by decide) (by decide)).1 h) (by decide)⟩

/-- The credentials are identical, and the entry says that they are not. -/
theorem not_tellsIdentical_blankUser :
    Connection.blankUser.cdSet = true ∧ Connection.blankUser.csp = some .passwordOnly ∧
      MQCSP.passwordOnly.WellFormed ∧ ¬ TellsIdentical .blankUser .passwordOnly := by
  refine ⟨by decide, rfl, wellFormed_passwordOnly, ?_⟩
  rintro ⟨v, hv, hsame⟩
  have htold : (logValues .blankUser).map (·.identicalCDCSP) = some false := by decide
  rw [hv, Option.map_some, Option.some.injEq] at htold
  rw [htold] at hsame
  exact absurd (hsame.2 (by decide)) (by decide)

end MqExits.Connwarn
