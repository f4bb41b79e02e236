import MqExits.Connwarn.LockedWrite
import MqExits.Connwarn.LogFile
import MqExits.Connwarn.Trimming

/-!
# What keeps the entries whole

`writeOutputEntry` has released its lock when the rest of its entry is written, so that it is not
the lock that keeps the entries of its callers apart. It is the buffer: an entry for which there is
room in it is written at once when the file is closed. **The log is the entries closed so far, whole
and in that order, exactly as long as no caller prints more of an entry than there is room for**
(`wholeEntries_iff`), whoever has the lock.

All that is printed is short, but for the user of an MQCSP. An entry with up to 1024 bytes of it, as
the comment on `MAX_LOG_LINE_LEN` expects, is shorter than 2048 bytes. **A log of such entries reads
back as those that have been closed, exactly if their texts are safe** (`reads_closed_iff`).

Both rest on a stream that writes its buffer out when it is full or when it is closed, and not at
any other time (`Stdio.put`). Where a library keeps a buffer that is exactly full, it differs from
that for an entry of just the size of the buffer. The entries of `reads_closed_iff` are all shorter.

The invariant `Whole` says where the bytes of an unfinished entry are: all of them in the buffer of
its caller, none in the file. Only `fprintf` can break it, and it does so exactly when it writes
(`Whole.fprintf`). The other steps write nothing, or a whole entry.
-/

namespace MqExits.Connwarn

open CText Function Stdio Yaml

variable {ω : Type} {capacity : ℕ}

/-! ### The entries closed -/

/-- The values whose entry the step completes. -/
def closed (e : WriteEvent ω) : Option LogValues :=
  match e.input, e.pre.phase e.input.caller with
  | .fclose _, .unlocked v _ => some v
  | _, _ => none

/-- A log that was there before, and the entries closed since. -/
def closedLog (file : Bytes) (tr : List (WriteEvent ω)) : Bytes :=
  file ++ (tr.filterMap closed).flatMap outputEntry

theorem closedLog_append_singleton (file : Bytes) (tr : List (WriteEvent ω)) (e : WriteEvent ω) :
    closedLog file (tr ++ [e]) =
      closedLog file tr ++ (closed e).toList.flatMap outputEntry := by
  rw [closedLog, closedLog, Machine.filterMap_append_singleton, List.flatMap_append,
    List.append_assoc]

theorem closedLog_of_eq_none {file : Bytes} {tr : List (WriteEvent ω)} {e : WriteEvent ω}
    (h : closed e = none) : closedLog file (tr ++ [e]) = closedLog file tr := by
  rw [closedLog_append_singleton, h, Option.toList_none, List.flatMap_nil, List.append_nil]

theorem closedLog_of_eq_some {file : Bytes} {tr : List (WriteEvent ω)} {e : WriteEvent ω}
    {v : LogValues} (h : closed e = some v) :
    closedLog file (tr ++ [e]) = closedLog file tr ++ outputEntry v := by
  rw [closedLog_append_singleton, h, Option.toList_some, List.flatMap_singleton]

/-- What is printed fits in the buffer, together with what was printed of the entry before. -/
def FitsBuffer (capacity : ℕ) (e : WriteEvent ω) : Prop :=
  match e.input, e.pre.phase e.input.caller with
  | .fprintf _, .printing v k _ _ => (printed v (k + 1)).length < capacity
  | _, _ => True

/-! ### The invariant -/

/-- Nothing of an entry is in the log before it is closed: all that was printed of it is in the
buffer. -/
structure Whole (capacity : ℕ) (file : Bytes) (tr : List (WriteEvent ω)) (s : LogWriters ω) :
    Prop where
  file : s.file = closedLog file tr
  buffer : ∀ c, (s.phase c).buffer = (s.phase c).soFar
  room : ∀ c, (s.phase c).buffer.length < capacity

theorem whole_start (hcapacity : 0 < capacity) (file : Bytes) :
    Whole capacity file [] (.start file : LogWriters ω) where
  file := (List.append_nil file).symm
  buffer _ := rfl
  room _ := hcapacity

variable [DecidableEq ω]

/-- One caller goes on to another phase. -/
theorem Whole.of_update {file : Bytes} {tr tr' : List (WriteEvent ω)} {s s' : LogWriters ω}
    (h : Whole capacity file tr s) {c : ω} {p : WritePhase} (hfile : s'.file = closedLog file tr')
    (hphase : s'.phase = update s.phase c p) (hbuffer : p.buffer = p.soFar)
    (hroom : p.buffer.length < capacity) : Whole capacity file tr' s' := by
  refine ⟨hfile, fun c' ↦ ?_, fun c' ↦ ?_⟩
  all_goals
    rw [hphase]
    rcases eq_or_ne c' c with rfl | hne
  · rw [update_self]
    exact hbuffer
  · rw [update_of_ne hne]
    exact h.buffer c'
  · rw [update_self]
    exact hroom
  · rw [update_of_ne hne]
    exact h.room c'

/-- Nothing is written exactly when there is room for all of it. -/
theorem put_fst_eq_nil_iff_lt {buf : Bytes} (hbuf : buf.length < capacity) (text : Bytes) :
    (put capacity buf text).1 = [] ↔ (buf ++ text).length < capacity := by
  have hcapacity := Nat.zero_lt_of_lt hbuf
  rw [put_fst_eq_nil_iff hcapacity (Nat.mod_eq_of_lt hbuf).symm, Nat.div_eq_of_lt hbuf,
    Nat.div_eq_zero_iff_lt hcapacity, List.length_append]

/-- A step that writes nothing and completes no entry, and leaves all that its caller has printed in
the buffer. -/
theorem Whole.silent {file : Bytes} {tr : List (WriteEvent ω)} {s s' : LogWriters ω}
    {i : WriteStep ω} {out : Bytes} {c : ω} {p : WritePhase} (h : Whole capacity file tr s)
    (hclosed : closed ⟨s, i, out, s'⟩ = none) (hfile : s'.file = s.file)
    (hphase : s'.phase = update s.phase c p) (hbuffer : p.buffer = p.soFar)
    (hroom : p.buffer.length < capacity) :
    Whole capacity file (tr ++ [⟨s, i, out, s'⟩]) s' :=
  h.of_update (by rw [closedLog_of_eq_none hclosed, hfile, h.file]) hphase hbuffer hroom

/-- `fprintf`: the log stays as it is exactly if the text fits, and then all that has been printed
is in the buffer. -/
theorem Whole.fprintf {file : Bytes} {tr : List (WriteEvent ω)} {s s' : LogWriters ω}
    {c : ω} {out : Bytes} (h : Whole capacity file tr s)
    (hs : (logWriters capacity).step s (.fprintf c) = some (s', out)) :
    (s'.file = closedLog file (tr ++ [⟨s, .fprintf c, out, s'⟩]) ↔
        FitsBuffer capacity ⟨s, .fprintf c, out, s'⟩) ∧
      (FitsBuffer capacity ⟨s, .fprintf c, out, s'⟩ →
        Whole capacity file (tr ++ [⟨s, .fprintf c, out, s'⟩]) s') := by
  obtain ⟨v, k, granted, buf, text, hphase, htext, rfl, rfl⟩ := step_fprintf hs
  have hbuf := h.buffer c
  have hroom := h.room c
  rw [hphase] at hbuf hroom
  have hnext : buf ++ text = printed v (k + 1) := by
    rw [printed_succ htext, show buf = printed v k from hbuf]
  have hroom : buf.length < capacity := hroom
  have hfits := put_fst_eq_nil_iff_lt hroom text
  rw [hnext] at hfits
  rw [closedLog_of_eq_none rfl]
  simp only [FitsBuffer, WriteStep.caller, hphase]
  rw [← hfits, ← h.file]
  refine ⟨List.append_right_eq_self, fun hnil ↦ ?_⟩
  -- nothing was written, so that all of it is in the buffer
  have hleft : (put capacity buf text).2 = printed v (k + 1) := by
    have hall : (put capacity buf text).1 ++ (put capacity buf text).2 = buf ++ text :=
      append_put buf text
    rwa [hnil, List.nil_append, hnext] at hall
  refine h.silent rfl ?_ rfl hleft ?_
  · show s.file ++ (put capacity buf text).1 = s.file
    rw [hnil, List.append_nil]
  · show (put capacity buf text).2.length < capacity
    rw [hleft]
    exact hfits.1 hnil

/-- `fclose` writes the whole entry. -/
theorem Whole.fclose {file : Bytes} {tr : List (WriteEvent ω)} {s s' : LogWriters ω}
    {c : ω} {out : Bytes} (h : Whole capacity file tr s)
    (hs : (logWriters capacity).step s (.fclose c) = some (s', out)) :
    Whole capacity file (tr ++ [⟨s, .fclose c, out, s'⟩]) s' := by
  obtain ⟨v, hphase, rfl⟩ := step_fclose hs
  have hbuf := h.buffer c
  rw [hphase] at hbuf
  refine h.of_update ?_ rfl rfl (Nat.zero_lt_of_lt (h.room c))
  show s.file ++ out = closedLog file (tr ++ [⟨s, .fclose c, out,
    { s with file := s.file ++ out, phase := update s.phase c .idle }⟩])
  rw [closedLog_of_eq_some (v := v) (by simp only [closed, WriteStep.caller, hphase]), h.file,
    show out = outputEntry v from hbuf]

/-- **One step**: the log is the entries closed exactly if what is printed fits in the buffer, and
then the next step finds it so. -/
theorem Whole.step {file : Bytes} {tr : List (WriteEvent ω)} {s s' : LogWriters ω}
    {i : WriteStep ω} {out : Bytes} (h : Whole capacity file tr s)
    (hs : (logWriters capacity).step s i = some (s', out)) :
    (s'.file = closedLog file (tr ++ [⟨s, i, out, s'⟩]) ↔ FitsBuffer capacity ⟨s, i, out, s'⟩) ∧
      (FitsBuffer capacity ⟨s, i, out, s'⟩ →
        Whole capacity file (tr ++ [⟨s, i, out, s'⟩]) s') := by
  -- only `fprintf` can write before the entry is complete
  have hother (hfits : FitsBuffer capacity ⟨s, i, out, s'⟩)
      (hnext : Whole capacity file (tr ++ [⟨s, i, out, s'⟩]) s') :
      (s'.file = closedLog file (tr ++ [⟨s, i, out, s'⟩]) ↔
          FitsBuffer capacity ⟨s, i, out, s'⟩) ∧
        (FitsBuffer capacity ⟨s, i, out, s'⟩ →
          Whole capacity file (tr ++ [⟨s, i, out, s'⟩]) s') :=
    ⟨iff_of_true hnext.file hfits, fun _ ↦ hnext⟩
  cases i with
  | fopen c v =>
    obtain ⟨-, rfl, -⟩ := step_fopen hs
    exact hother trivial (h.silent rfl rfl rfl rfl (Nat.zero_lt_of_lt (h.room c)))
  | flock c granted =>
    obtain ⟨v, -, -, rfl, -⟩ := step_flock hs
    exact hother trivial (h.silent rfl rfl rfl rfl (Nat.zero_lt_of_lt (h.room c)))
  | fprintf c => exact h.fprintf hs
  | unlock c =>
    obtain ⟨v, granted, buf, hphase, rfl, -⟩ := step_unlock hs
    have hbuf := h.buffer c
    have hroom := h.room c
    rw [hphase] at hbuf hroom
    refine hother trivial (h.silent rfl rfl rfl ?_ hroom)
    show buf = outputEntry v
    rw [← printed_length]
    exact hbuf
  | fclose c => exact hother trivial (h.fclose hs)

/-! ### The property -/

/-- **When the log is the entries closed so far**, whole and in that order, after every step of a
run: while no caller prints more of an entry than the buffer has room for. -/
theorem wholeEntries_iff (hcapacity : 0 < capacity) {file : Bytes} {tr : List (WriteEvent ω)}
    {s : LogWriters ω} (h : (logWriters capacity).Run (.start file) tr s) :
    (∀ before e after, tr = before ++ e :: after → e.post.file = closedLog file (before ++ [e])) ↔
      ∀ e ∈ tr, FitsBuffer capacity e := by
  rw [← Machine.forall_split_iff_forall_mem]
  exact h.forall_split_congr (I := Whole capacity file)
    (P := fun tr e ↦ e.post.file = closedLog file (tr ++ [e])) (whole_start hcapacity file)
    fun tr s i s' out hI hs ↦ hI.step hs

/-- In such a run they are there at the end. -/
theorem file_eq_closedLog (hcapacity : 0 < capacity) {file : Bytes} {tr : List (WriteEvent ω)}
    {s : LogWriters ω} (h : (logWriters capacity).Run (.start file) tr s)
    (hfits : ∀ e ∈ tr, FitsBuffer capacity e) : s.file = closedLog file tr :=
  (h.invariant_of_forall (I := Whole capacity file) (whole_start hcapacity file)
    (fun _ _ _ _ _ hI hs hC ↦ (hI.step hs).2 hC) hfits).file

/-! ### How long an entry is -/

def MQ_CLIENT_USER_ID_LENGTH : ℕ := 1024

/-- The texts that `ChlExit` copies are as long as the fields that they are copied from. -/
structure LogValues.Bounded (v : LogValues) : Prop where
  conname : v.conname.length ≤ MQ_CONN_NAME_LENGTH
  remoteAppUser : v.remoteAppUser.length ≤ MQ_Q_MGR_NAME_LENGTH
  CDUser : v.CDUser.length ≤ MQ_USER_ID_LENGTH

theorem length_trimWhitespace_strncpy_le (src : Bytes) (n : ℕ) :
    (trimWhitespace (strncpy src n)).length ≤ n :=
  calc (trimWhitespace (strncpy src n)).length
      ≤ (cstr (src.take n)).length := trimWhitespace_length_le _
    _ ≤ (src.take n).length := cstr_length_le _
    _ ≤ n := List.length_take_le n src

theorem bounded_of_logValues {c : Connection} {v : LogValues} (h : logValues c = some v) :
    v.Bounded ∧ v.timestamp = c.timestamp := by
  have hconname : (trimWhitespace (if c.cdVersion ≥ MQCD_VERSION_2 then
      strncpy c.connectionName.val MQ_CONN_NAME_LENGTH
      else strncpy c.shortConnectionName.val MQ_SHORT_CONN_NAME_LENGTH)).length ≤
        MQ_CONN_NAME_LENGTH := by
    split_ifs
    · exact length_trimWhitespace_strncpy_le ..
    · exact (length_trimWhitespace_strncpy_le ..).trans (by decide)
  have happUser : (trimWhitespace (if c.cdVersion ≥ MQCD_VERSION_2 then
      strncpy c.remoteUserIdentifier.val MQ_USER_ID_LENGTH
      else if c.parmsVersion ≥ MQCXP_VERSION_3 then
        strncpy c.partnerName.val MQ_Q_MGR_NAME_LENGTH
      else lit "[UNKNOWN]")).length ≤ MQ_Q_MGR_NAME_LENGTH := by
    split_ifs
    · exact (length_trimWhitespace_strncpy_le ..).trans (by decide)
    · exact length_trimWhitespace_strncpy_le ..
    · exact (trimWhitespace_length_le _).trans (by decide)
  have hCDUser : (if c.cdSet then
      trimWhitespace (strncpy c.remoteUserIdentifier.val MQ_USER_ID_LENGTH)
      else lit "N/A").length ≤ MQ_USER_ID_LENGTH := by
    split_ifs
    · exact length_trimWhitespace_strncpy_le ..
    · decide
  rw [logValues] at h
  split at h
  · obtain rfl := Option.some.inj h
    exact ⟨⟨hconname, happUser, hCDUser⟩, rfl⟩
  · obtain ⟨valid, -, rfl⟩ := Option.map_eq_some_iff.1 h
    exact ⟨⟨hconname, happUser, hCDUser⟩, rfl⟩

/-- No more is printed than what there is, or the width. -/
theorem length_printWidth_le (w p : ℕ) (s : Bytes) : (printWidth w p s).length ≤ max w p := by
  have hcut : (cstr (s.take p)).length ≤ p := (cstr_length_le _).trans (List.length_take_le p s)
  rw [printWidth, List.length_append, List.length_replicate]
  omega

theorem length_remoteProductDecode_le (p : Bytes) : (remoteProductDecode p).length ≤ 40 := by
  have htable : ∀ product ∈ remoteProducts, product.2.length ≤ 40 := by decide +kernel
  rw [remoteProductDecode]
  split
  · next hfind => exact htable _ (List.mem_of_find?_eq_some hfind)
  · decide

/-- **An entry is short** but for the texts that the connection gives it. -/
theorem length_outputEntry_le (v : LogValues) :
    (outputEntry v).length ≤ 450 + v.timestamp.length + v.conname.length +
      v.remoteAppUser.length + v.CDUser.length + v.printedCspUser.length := by
  -- the keys, the flags and the fixed fields; what is left are the texts
  have hkeys : (entryKeys.map List.length).sum = 153 := by decide
  have hflag (b : Bool) : (trueFalse b).length ≤ 5 := by cases b <;> decide
  have hversion := length_printWidth_le 8 8 v.remoteVersion
  have hproduct := length_printWidth_le 4 4 v.remoteProduct
  have hdecode := (cstr_length_le _).trans (length_remoteProductDecode_le v.remoteProduct)
  have hCDUser : (cstr (if v.CDset then v.CDUser else [])).length ≤ v.CDUser.length := by
    split_ifs
    · exact cstr_length_le _
    · exact Nat.zero_le _
  have htimestamp := cstr_length_le v.timestamp
  have hconname := cstr_length_le v.conname
  have happUser := cstr_length_le v.remoteAppUser
  have hset := hflag v.CDset
  have hcspSet := hflag v.CSPSet
  have hidentical := hflag v.identicalCDCSP
  have hvalid := hflag v.CSPValid
  simp only [entryKeys, List.map_cons, List.map_nil, List.sum_cons, List.sum_nil] at hkeys
  rw [outputEntry_eq]
  simp only [entryText, entryWith, pairText, List.flatMap_cons, List.flatMap_nil,
    List.length_append, List.length_cons, List.length_nil]
  omega

/-- An entry of a connection fits in the buffer, unless its MQCSP has a longer user. -/
theorem length_outputEntry_lt {c : Connection} {v : LogValues} (h : logValues c = some v)
    (htimestamp : c.timestamp.length < 40)
    (huser : v.printedCspUser.length ≤ MQ_CLIENT_USER_ID_LENGTH) :
    (outputEntry v).length < 2048 := by
  obtain ⟨hbounded, hsame⟩ := bounded_of_logValues h
  have hlength := length_outputEntry_le v
  have hconname : v.conname.length ≤ 264 := hbounded.conname
  have happUser : v.remoteAppUser.length ≤ 48 := hbounded.remoteAppUser
  have hCDUser : v.CDUser.length ≤ 12 := hbounded.CDUser
  have huser : v.printedCspUser.length ≤ 1024 := huser
  rw [hsame] at hlength
  omega

theorem length_printed_le (v : LogValues) (k : ℕ) :
    (printed v k).length ≤ (outputEntry v).length := by
  have hall : printed v k ++ ((outputTexts v).drop k).flatten = outputEntry v := by
    rw [printed, ← List.flatten_append, List.take_append_drop, flatten_outputTexts]
  rw [← hall, List.length_append]
  exact Nat.le_add_right _ _

/-! ### Reading the log back -/

/-- The values that a caller writes. -/
def WritePhase.values : WritePhase → Option LogValues
  | .opened v | .printing v _ _ _ | .unlocked v _ => some v
  | .idle => none

/-- A caller writes what it has opened the log for. -/
theorem values_eq_some {s s' : LogWriters ω} {i : WriteStep ω} {out : Bytes}
    (hs : (logWriters capacity).step s i = some (s', out)) {c : ω} {v : LogValues}
    (hv : (s'.phase c).values = some v) : (s.phase c).values = some v ∨ i = .fopen c v := by
  rcases eq_or_ne c i.caller with rfl | hne
  · cases i with
    | fopen c w =>
      obtain ⟨-, rfl, -⟩ := step_fopen hs
      simp only [WriteStep.caller, update_self, WritePhase.values, Option.some.injEq] at hv
      exact .inr (by rw [hv]; rfl)
    | flock c granted =>
      obtain ⟨w, hphase, -, rfl, -⟩ := step_flock hs
      simp only [WriteStep.caller, update_self] at hv ⊢
      exact .inl (by rw [hphase]; exact hv)
    | fprintf c =>
      obtain ⟨w, k, granted, buf, text, hphase, -, -, rfl⟩ := step_fprintf hs
      simp only [WriteStep.caller, update_self] at hv ⊢
      exact .inl (by rw [hphase]; exact hv)
    | unlock c =>
      obtain ⟨w, granted, buf, hphase, rfl, -⟩ := step_unlock hs
      simp only [WriteStep.caller, update_self] at hv ⊢
      exact .inl (by rw [hphase]; exact hv)
    | fclose c =>
      obtain ⟨w, -, rfl⟩ := step_fclose hs
      simp only [WriteStep.caller, update_self] at hv
      cases hv
  · rw [phase_of_ne hs hne] at hv
    exact .inl hv

/-- The log is opened only for entries that are shorter than the buffer. -/
def OpensShort (capacity : ℕ) (e : WriteEvent ω) : Prop :=
  ∀ c v, e.input = .fopen c v → (outputEntry v).length < capacity

/-- Short entries fit in the buffer. -/
theorem fitsBuffer_of_opensShort {file : Bytes} {tr : List (WriteEvent ω)} {s : LogWriters ω}
    (h : (logWriters capacity).Run (.start file) tr s) (hopens : ∀ e ∈ tr, OpensShort capacity e) :
    ∀ e ∈ tr, FitsBuffer capacity e := by
  rw [← Machine.forall_split_iff_forall_mem] at hopens ⊢
  refine h.forall_split_of_forall (C := fun _ e ↦ OpensShort capacity e)
    (I := fun _ s ↦ ∀ c v, (s.phase c).values = some v → (outputEntry v).length < capacity)
    (fun c v hv ↦ by cases hv) (fun tr s i s' out hI hs hopen ↦ ⟨fun c v hv ↦ ?_, ?_⟩) hopens
  · rcases values_eq_some hs hv with hbefore | hfopen
    · exact hI c v hbefore
    · exact hopen c v hfopen
  · rw [FitsBuffer]
    split
    · next v k granted buf _ hphase =>
      refine (length_printed_le v (k + 1)).trans_lt (hI i.caller v ?_)
      rw [show s.phase i.caller = _ from hphase]
      rfl
    · trivial

/-- The log is opened for the entry of a connection whose user is no longer than expected. The
buffer for `strftime` has 40 bytes. -/
def OpensForConnection (e : WriteEvent ω) : Prop :=
  ∀ c v, e.input = .fopen c v → ∃ connection, logValues connection = some v ∧
    connection.timestamp.length < 40 ∧ v.printedCspUser.length ≤ MQ_CLIENT_USER_ID_LENGTH

omit [DecidableEq ω] in
theorem OpensForConnection.opensShort {e : WriteEvent ω} (h : OpensForConnection e)
    (hcapacity : 2048 ≤ capacity) : OpensShort capacity e := by
  intro c v hfopen
  obtain ⟨connection, hvalues, htimestamp, huser⟩ := h c v hfopen
  exact (length_outputEntry_lt hvalues htimestamp huser).trans_le hcapacity

theorem flatMap_outputEntry (values : List LogValues) :
    values.flatMap outputEntry = write (values.map fun v ↦ entryWith v v.printedCspUser) := by
  rw [write, List.flatMap_map]
  exact List.flatMap_congr fun v _ ↦ outputEntry_eq v

/-- **When the log of connections reads back** as the entries that have been closed, whoever wrote
them and in whatever order: when each text recorded is plain and UTF-8. -/
theorem reads_closed_iff (hcapacity : 2048 ≤ capacity) {tr : List (WriteEvent ω)}
    {s : LogWriters ω} (h : (logWriters capacity).Run (.start []) tr s)
    (hopens : ∀ e ∈ tr, OpensForConnection e) :
    Reads s.file ((tr.filterMap closed).map LogValues.entry) ↔
      ∀ v ∈ tr.filterMap closed, v.Safe := by
  have hfits := fitsBuffer_of_opensShort h fun e he ↦ (hopens e he).opensShort hcapacity
  have hfile := file_eq_closedLog (Nat.zero_lt_of_lt hcapacity) h hfits
  rw [hfile, closedLog, List.nil_append, flatMap_outputEntry]
  exact reads_values_iff _

/-! ### Two callers -/

/-- A connection with a user. -/
def Connection.ofUser (user : Bytes) : Connection :=
  { Connection.forging with securityParms := some ⟨user.length, user, 6, lit "secret"⟩ }

def LogValues.ofUser (user : Bytes) : LogValues :=
  (logValues (.ofUser user)).getD .sample

theorem logValues_ofUser (user : Bytes) : logValues (.ofUser user) = some (.ofUser user) := by
  have hsome : (logValues (.ofUser user)).isSome := by
    rw [logValues]
    split <;> rfl
  obtain ⟨v, hv⟩ := Option.isSome_iff_exists.1 hsome
  rw [LogValues.ofUser, hv, Option.getD_some]

/-- One caller is granted the lock and one is not, they print in turn, and the one that has opened
the log last closes it first. -/
def twoCallersSteps : List (WriteStep Bool) :=
  [.fopen false (.ofUser (lit "alice")), .fopen true (.ofUser (lit "bob")), .flock false true,
      .flock true false] ++
    (List.replicate 13 [.fprintf false, .fprintf true]).flatten ++
    [.unlock false, .unlock true, .fclose true, .fclose false]

def twoCallers : List (WriteEvent Bool) × LogWriters Bool :=
  ((logWriters 2048).replay (.start []) twoCallersSteps).getD ([], .start [])

theorem isSome_twoCallers : ((logWriters 2048).replay (.start []) twoCallersSteps).isSome := by
  decide +kernel

theorem run_twoCallers : (logWriters 2048).Run (.start []) twoCallers.1 twoCallers.2 :=
  Machine.run_getD_replay isSome_twoCallers

theorem map_input_twoCallers : twoCallers.1.map Machine.Event.input = twoCallersSteps := by
  obtain ⟨⟨tr, s⟩, hreplay⟩ := Option.isSome_iff_exists.1 isSome_twoCallers
  rw [twoCallers, hreplay]
  exact Machine.map_input_of_replay hreplay

theorem opensForConnection_twoCallers : ∀ e ∈ twoCallers.1, OpensForConnection e := by
  intro e he c v hfopen
  have hmem : e.input ∈ twoCallersSteps := by
    rw [← map_input_twoCallers]
    exact List.mem_map_of_mem he
  rw [hfopen] at hmem
  simp only [twoCallersSteps, List.reduceReplicate, List.flatten_cons, List.flatten_nil,
    List.append_nil, List.cons_append, List.nil_append, List.mem_cons, WriteStep.fopen.injEq,
    reduceCtorEq, List.not_mem_nil, or_self, or_false] at hmem
  rcases hmem with ⟨-, rfl⟩ | ⟨-, rfl⟩
  · exact ⟨_, logValues_ofUser (lit "alice"), by decide, by decide +kernel⟩
  · exact ⟨_, logValues_ofUser (lit "bob"), by decide, by decide +kernel⟩

theorem fitsBuffer_twoCallers : ∀ e ∈ twoCallers.1, FitsBuffer 2048 e :=
  fitsBuffer_of_opensShort run_twoCallers fun e he ↦
    (opensForConnection_twoCallers e he).opensShort (le_refl 2048)

theorem wholeEntries_iff_twoCallers :
    (∀ e ∈ twoCallers.1, FitsBuffer 2048 e) ∧
      ∀ before e after, twoCallers.1 = before ++ e :: after →
        e.post.file = closedLog [] (before ++ [e]) :=
  ⟨fitsBuffer_twoCallers, (wholeEntries_iff (by decide) run_twoCallers).2 fitsBuffer_twoCallers⟩

theorem reads_closed_iff_twoCallers :
    Reads twoCallers.2.file ((twoCallers.1.filterMap closed).map LogValues.entry) ↔
      ∀ v ∈ twoCallers.1.filterMap closed, v.Safe :=
  reads_closed_iff (le_refl 2048) run_twoCallers opensForConnection_twoCallers

end MqExits.Connwarn
