import MqExits.Oam.OamlogCalls
import MqExits.Oam.OamokLog

/-!
# The two buffers of `oamok`

`rpt` formats a record into `auditBuf`, of 1024 bytes, and goes on with the length that `vsnprintf`
returns, which is that of the whole text: the bytes it sends are the record's only as long as the
buffer holds it (`logsRecord_iff`).

`trim` copies a field into the buffer of its caller, of `TMPBUFSIZ` bytes, with a length that the
caller gives. The names of the queue manager have lengths of their own. The user id of an MQCSP has
the length that the client has sent, and nothing compares that with the buffer (`trimsAll_iff`).
-/

namespace MqExits.Oam

open CText

/-! ### `auditBuf` -/

/-- The bytes that one call of `rpt` appends to the log. -/
def Report.appended (r : Report) : Bytes :=
  r.written ++ if lacksNewline r.written then [10] else []

/-- The indices at which `rpt` looks at `auditBuf`, once `vsnprintf` has returned `l`: in the loop
that replaces newlines, in the `write`, and in the test of the last byte. -/
def Report.indices (r : Report) : List ℕ :=
  let l := r.text.length
  (if r.singleLine then List.range (l - 1) else []) ++ List.range l ++
    if 0 < l then [l - 1] else []

/-- The record is appended as it is meant, with one newline at its end, and nothing past the buffer
is looked at. -/
structure LogsRecord (r : Report) : Prop where
  appended : r.appended = r.record ++ if r.record.getLast? = some 10 then [] else [10]
  inside : ∀ i ∈ r.indices, i < 1024

theorem lacksNewline_eq {bytes : Bytes} (h : bytes ≠ []) :
    lacksNewline bytes = decide (bytes.getLast? ≠ some 10) := by
  rw [lacksNewline, List.getLast?_eq_some_getLast h]
  simp

theorem blankNewlines_length (bytes : Bytes) : (blankNewlines bytes).length = bytes.length := by
  rcases List.eq_nil_or_concat bytes with rfl | ⟨l, b, rfl⟩
  · rfl
  · simp [blankNewlines]

theorem blankNewlines_getLast? (bytes : Bytes) :
    (blankNewlines bytes).getLast? = bytes.getLast? := by
  rcases List.eq_nil_or_concat bytes with rfl | ⟨l, b, rfl⟩
  · rfl
  · simp [blankNewlines]

theorem Report.record_length (r : Report) : r.record.length = r.text.length := by
  rw [Report.record]
  split_ifs
  · exact blankNewlines_length r.text
  · rfl

theorem Report.record_getLast? (r : Report) : r.record.getLast? = r.text.getLast? := by
  rw [Report.record]
  split_ifs
  · exact blankNewlines_getLast? r.text
  · rfl

theorem Report.record_ne_nil {r : Report} (h : 0 < r.text.length) : r.record ≠ [] := by
  rw [← List.length_pos_iff, r.record_length]
  exact h

/-- A text that the buffer holds is logged as it is meant. -/
theorem logsRecord_of_lt {r : Report} (hpos : 0 < r.text.length) (hlt : r.text.length < 1024) :
    LogsRecord r where
  appended := by
    rw [Report.appended, Report.written_of_lt hlt, lacksNewline_eq (Report.record_ne_nil hpos)]
    simp
  inside i hi := by
    simp only [Report.indices, List.mem_append] at hi
    rcases hi with (hi | hi) | hi
    · split_ifs at hi
      · have := List.mem_range.1 hi
        omega
      · cases hi
    · exact (List.mem_range.1 hi).trans hlt
    · rw [if_pos hpos, List.mem_singleton] at hi
      omega

/-- Of a text that fills the buffer the last byte is cut off for the NUL. -/
theorem Report.written_of_eq {r : Report} (h : r.text.length = 1024) :
    r.written.length = 1024 ∧ r.written.getLast? = some 0 := by
  have hbuf : r.auditBuf = r.text.take 1023 ++ [0] := by
    have hlen : (r.text.take 1023).length = 1023 := by rw [List.length_take, h]; rfl
    rw [Report.auditBuf, h, List.take_append, hlen, List.take_of_length_le (by omega)]
    rfl
  have hlen : r.auditBuf.length = 1024 := by
    rw [hbuf, List.length_append, List.length_take, h]
    rfl
  rw [Report.written]
  split_ifs
  · rw [blankNewlines_length, blankNewlines_getLast?, hlen, hbuf]
    simp
  · rw [hlen, hbuf]
    simp

/-- **When a record is logged as it is meant**: exactly if its text is not empty and shorter than
the buffer. -/
theorem logsRecord_iff {r : Report} (hnul : (0 : UInt8) ∉ r.text) :
    LogsRecord r ↔ 0 < r.text.length ∧ r.text.length < 1024 := by
  refine ⟨fun h ↦ ?_, fun h ↦ logsRecord_of_lt h.1 h.2⟩
  have hpos : 0 < r.text.length := by
    by_contra hzero
    have hnil : r.text = [] := List.length_eq_zero_iff.1 (by omega)
    have happended := h.appended
    simp [Report.appended, Report.written, Report.record, Report.auditBuf, hnil, blankNewlines,
      lacksNewline] at happended
  have hlast : r.text.length - 1 ∈ r.indices := by simp [Report.indices, hpos]
  have hle := h.inside _ hlast
  refine ⟨hpos, lt_of_le_of_ne (by omega) fun hfull ↦ hnul ?_⟩
  obtain ⟨hlen, hzero⟩ := Report.written_of_eq hfull
  have hrecord := List.append_inj_left h.appended (by rw [hlen, r.record_length, hfull])
  rw [hrecord, r.record_getLast?] at hzero
  exact List.mem_of_getLast? hzero

/-- A record that needs more than the buffer, of one letter. -/
def longReport : Report where
  text := List.replicate 1100 65
  singleLine := true
  beyond := List.replicate 76 66

theorem longReport_length : longReport.text.length = 1100 := List.length_replicate

theorem nul_notMem_longReport : (0 : UInt8) ∉ longReport.text :=
  fun h ↦ absurd (List.eq_of_mem_replicate h) (by decide)

theorem logsRecord_iff_longReport :
    LogsRecord longReport ↔ 0 < longReport.text.length ∧ longReport.text.length < 1024 :=
  logsRecord_iff nul_notMem_longReport

/-- What is sent of it is not all its own. -/
theorem not_logsRecord_longReport :
    (0 : UInt8) ∉ longReport.text ∧ ¬ LogsRecord longReport := by
  refine ⟨nul_notMem_longReport, fun h ↦ ?_⟩
  have hlast : 1099 ∈ longReport.indices := by
    simp only [Report.indices, longReport_length, List.mem_append, List.mem_range]
    exact Or.inl (Or.inr (by decide))
  exact absurd (h.inside _ hlast) (by decide)

/-! ### `trim` -/

namespace Oamok

def TMPBUFSIZ : ℕ := 256

/-- `strncpy(out, in, l)` into a buffer whose bytes are all NUL: the string, and NULs up to `l`.
Nothing ends it but the buffer, and a negative length is a very large one. -/
def strncpyInto (out src : Bytes) (l : MQLONG) : Option Bytes :=
  if 0 ≤ l ∧ l ≤ out.length then
    some (padTo l.toNat 0 (cstr (src.take l.toNat)) ++ out.drop l.toNat)
  else none

/-- `trim`, with the loop that `oamlog` has too; `none` for bytes outside the buffer. The memory at
`in` has a NUL, or `l` bytes. -/
def trim (src : Bytes) (l : MQLONG) : Option Bytes := do
  let out ← strncpyInto (List.replicate TMPBUFSIZ 0) src l
  let length ← Oamlog.strlen out 0
  return Oamlog.trimLoop out 0 length

/-- The loop removes the blanks at the end of the string. The induction is on the string. -/
theorem trimLoop_append (u r : Bytes) :
    ∃ r', Oamlog.trimLoop (u ++ 0 :: r) 0 u.length = u.rdropWhile (· == 32) ++ 0 :: r' ∧
      (u.rdropWhile (· == 32)).length + r'.length = u.length + r.length := by
  induction u using List.reverseRecOn generalizing r with
  | nil => exact ⟨r, rfl, rfl⟩
  | append_singleton u b ih =>
    have hget : (u ++ [b] ++ 0 :: r).getD (0 + u.length) 0 = b := by simp
    rw [List.length_append, List.length_singleton, Oamlog.trimLoop, hget]
    split_ifs with hb
    · obtain ⟨r', hloop, hlen⟩ := ih (0 :: r)
      have hset : (u ++ [b] ++ 0 :: r).set (0 + u.length) 0 = u ++ 0 :: 0 :: r := by simp
      rw [hset, hloop, List.rdropWhile_concat_pos _ _ _ (by simpa [blank] using hb)]
      refine ⟨r', rfl, ?_⟩
      rw [hlen, List.length_cons]
      omega
    · rw [List.rdropWhile_concat_neg _ _ _ (by simpa [blank] using hb)]
      exact ⟨r, rfl, by rw [List.length_append, List.length_singleton]⟩

/-- What is copied into the buffer: the string, and NULs for the rest. -/
theorem strncpyInto_replicate {n : ℕ} {src : Bytes} {l : MQLONG} (hl : 0 ≤ l) (hn : l ≤ n) :
    strncpyInto (List.replicate n 0) src l = some (cstr (src.take l.toNat) ++
      List.replicate (n - (cstr (src.take l.toNat)).length) 0) := by
  have hle : (cstr (src.take l.toNat)).length ≤ l.toNat :=
    (cstr_length_le _).trans (List.length_take_le _ _)
  have hln : l.toNat ≤ n := Int.toNat_le.2 hn
  rw [strncpyInto, if_pos ⟨hl, by rwa [List.length_replicate]⟩, padTo, List.drop_replicate,
    List.append_assoc, ← List.replicate_add]
  congr 4
  omega

/-- One call of `trim`. -/
structure TrimCall where
  /-- The memory at `in`. -/
  src : Bytes
  l : MQLONG

/-- The result is in the buffer, with a NUL behind it, and it is the field without its padding. -/
def Trims (call : TrimCall) : Prop :=
  ∃ out, trim call.src call.l = some out ∧ out.length = TMPBUFSIZ ∧ (0 : UInt8) ∈ out ∧
    cstr out = unpadded (call.src.take call.l.toNat)

/-- **A call of `trim` stays in the buffer exactly if** its length does, and leaves room for the
NUL. -/
theorem trims_iff (call : TrimCall) :
    Trims call ↔ 0 ≤ call.l ∧ call.l ≤ TMPBUFSIZ ∧
      (cstr (call.src.take call.l.toNat)).length < TMPBUFSIZ := by
  rw [Trims, trim, unpadded]
  by_cases hl : 0 ≤ call.l ∧ call.l ≤ TMPBUFSIZ
  · rw [strncpyInto_replicate hl.1 hl.2]
    simp only [hl.1, hl.2, true_and, Option.bind_eq_bind, Option.bind_some]
    have hnul := not_mem_cstr (call.src.take call.l.toNat)
    generalize cstr (call.src.take call.l.toNat) = text at hnul ⊢
    rcases hrest : TMPBUFSIZ - text.length with - | n
    · -- no NUL ends the string
      refine iff_of_false ?_ (by omega)
      rintro ⟨out, hout, -⟩
      simp [Oamlog.strlen, hnul] at hout
    · refine iff_of_true ?_ (by omega)
      obtain ⟨r', hloop, hlen⟩ := trimLoop_append text (List.replicate n 0)
      have hstrlen : Oamlog.strlen (text ++ List.replicate (n + 1) 0) 0 = some text.length := by
        rw [Oamlog.strlen, List.drop_zero, if_pos (by simp), List.replicate_succ, cstr_append_nul,
          cstr_eq_self hnul]
      have hout : (0 : UInt8) ∉ text.rdropWhile (· == 32) := fun h ↦
        hnul ((List.rdropWhile_prefix _ _).subset h)
      refine ⟨_, by rw [hstrlen]; rfl, ?_⟩
      rw [List.replicate_succ, hloop]
      refine ⟨?_, by simp, by rw [cstr_append_nul, cstr_eq_self hout]⟩
      rw [List.length_replicate] at hlen
      rw [List.length_append, List.length_cons]
      omega
  · refine iff_of_false ?_ fun h ↦ hl ⟨h.1, h.2.1⟩
    rintro ⟨out, hout, -⟩
    rw [strncpyInto, if_neg (by rwa [List.length_replicate])] at hout
    cases hout

/-- A length below that of the buffer is enough. -/
theorem trims_of_lt {src : Bytes} {l : MQLONG} (hl : 0 ≤ l) (hlt : l < TMPBUFSIZ) :
    Trims ⟨src, l⟩ := by
  have hle : (cstr (src.take l.toNat)).length ≤ l.toNat :=
    (cstr_length_le _).trans (List.length_take_le _ _)
  have hlt' : l.toNat < TMPBUFSIZ := (Int.toNat_lt hl).2 hlt
  exact (trims_iff ⟨src, l⟩).2 ⟨hl, hlt.le, hle.trans_lt hlt'⟩

/-! ### Its callers -/

def MQ_CHANNEL_NAME_LENGTH : ℕ := 20
def MQ_Q_MGR_NAME_LENGTH : ℕ := 48
def MQ_USER_ID_LENGTH : ℕ := 12
def MQ_APPL_NAME_LENGTH : ℕ := 28

def MQOT_CHANNEL : MQLONG := 6
def MQOT_SENDER_CHANNEL : MQLONG := 1007
def MQOT_SERVER_CHANNEL : MQLONG := 1008
def MQOT_REQUESTER_CHANNEL : MQLONG := 1009
def MQOT_RECEIVER_CHANNEL : MQLONG := 1010
def MQOT_SVRCONN_CHANNEL : MQLONG := 1013
def MQOT_CLNTCONN_CHANNEL : MQLONG := 1014
def MQOT_TT_CHANNEL : MQLONG := 1020
def MQOT_AMQP_CHANNEL : MQLONG := 1021

/-- `objLen`. -/
def objLen (objectType : MQLONG) : ℕ :=
  if objectType ∈ [MQOT_CHANNEL, MQOT_SENDER_CHANNEL, MQOT_SERVER_CHANNEL, MQOT_REQUESTER_CHANNEL,
      MQOT_RECEIVER_CHANNEL, MQOT_SVRCONN_CHANNEL, MQOT_CLNTCONN_CHANNEL, MQOT_TT_CHANNEL,
      MQOT_AMQP_CHANNEL] then MQ_CHANNEL_NAME_LENGTH
  else MQ_Q_MGR_NAME_LENGTH

/-- What `OACheckAuth` trims. -/
structure CheckAuthArgs where
  qMgrName : Field MQ_Q_MGR_NAME_LENGTH
  /-- The memory at `EntityNamePtr`. -/
  entityName : Bytes
  /-- The memory at `pObjectName`. -/
  objectName : Bytes
  objectType : MQLONG

/-- What `OAAuthUser` trims. -/
structure AuthUserArgs where
  qMgrName : Field MQ_Q_MGR_NAME_LENGTH
  /-- The memory at `CSPUserIdPtr`, and `CSPUserIdLength`; `none` for no `pSecurityParms`. -/
  securityParms : Option (Bytes × MQLONG)
  userIdentifier : Field MQ_USER_ID_LENGTH
  applName : Field MQ_APPL_NAME_LENGTH

/-- The two functions, each with the codes it finds. -/
inductive Request
  | checkAuth (compCode : MQCC) (reason : MQRC) (args : CheckAuthArgs)
  | authUser (compCode : MQCC) (reason : MQRC) (args : AuthUserArgs)

/-- The call of `trim` in `OAEntityStr`. -/
def entityStrTrims (entityName : Bytes) : List TrimCall :=
  [⟨entityName, MQ_USER_ID_LENGTH⟩]

/-- The calls of `trim` in `OACheckAuth`. -/
def checkAuthTrims (args : CheckAuthArgs) : List TrimCall :=
  [⟨args.qMgrName.val, MQ_Q_MGR_NAME_LENGTH⟩, ⟨args.objectName, objLen args.objectType⟩] ++
    entityStrTrims args.entityName

/-- `userId` and `userIdLen`. -/
def userIdCall (securityParms : Option (Bytes × MQLONG)) : TrimCall :=
  match securityParms with
  | some (userId, userIdLen) => ⟨userId, userIdLen⟩
  | none => ⟨lit "N/A", 3⟩

/-- The calls of `trim` in `OAAuthUser`. -/
def authUserTrims (args : AuthUserArgs) : List TrimCall :=
  [⟨args.qMgrName.val, MQ_Q_MGR_NAME_LENGTH⟩, ⟨args.userIdentifier.val, MQ_USER_ID_LENGTH⟩,
    ⟨args.applName.val, MQ_APPL_NAME_LENGTH⟩, userIdCall args.securityParms]

/-- The calls of `trim` for a request. One that has failed already is not logged. -/
def Request.trimCalls : Request → List TrimCall
  | .checkAuth compCode reason args =>
    if compCode = .FAILED ∨ reason ≠ MQRC_NONE then [] else checkAuthTrims args
  | .authUser compCode reason args =>
    if compCode = .FAILED ∨ reason ≠ MQRC_NONE then [] else authUserTrims args

/-- The user id of the MQCSP, if there is one, fits the buffer and leaves room for the NUL. -/
def Request.UserIdFits : Request → Prop
  | .checkAuth _ _ _ => True
  | .authUser compCode reason args =>
    compCode ≠ .FAILED → reason = MQRC_NONE → ∀ userId userIdLen,
      args.securityParms = some (userId, userIdLen) →
        0 ≤ userIdLen ∧ userIdLen ≤ TMPBUFSIZ ∧
          (cstr (userId.take userIdLen.toNat)).length < TMPBUFSIZ

theorem trims_userIdCall_iff {securityParms : Option (Bytes × MQLONG)} :
    Trims (userIdCall securityParms) ↔ ∀ userId userIdLen,
      securityParms = some (userId, userIdLen) →
        0 ≤ userIdLen ∧ userIdLen ≤ TMPBUFSIZ ∧
          (cstr (userId.take userIdLen.toNat)).length < TMPBUFSIZ := by
  rcases securityParms with - | ⟨userId, userIdLen⟩
  · exact iff_of_true (trims_of_lt (by decide) (by decide)) (by simp)
  · rw [userIdCall, trims_iff]
    simp

/-- The names have lengths that are small enough. -/
theorem trims_checkAuthTrims (args : CheckAuthArgs) : ∀ call ∈ checkAuthTrims args, Trims call := by
  have hobject : Trims ⟨args.objectName, objLen args.objectType⟩ := by
    rw [objLen]
    split_ifs
    · exact trims_of_lt (by decide) (by decide)
    · exact trims_of_lt (by decide) (by decide)
  simp only [checkAuthTrims, entityStrTrims, List.cons_append, List.nil_append,
    List.forall_mem_cons]
  exact ⟨trims_of_lt (by decide) (by decide), hobject, trims_of_lt (by decide) (by decide),
    by simp⟩

theorem trims_authUserTrims_iff (args : AuthUserArgs) :
    (∀ call ∈ authUserTrims args, Trims call) ↔ Trims (userIdCall args.securityParms) := by
  simp only [authUserTrims, List.forall_mem_cons]
  constructor
  · rintro ⟨-, -, -, huser, -⟩
    exact huser
  · intro huser
    exact ⟨trims_of_lt (by decide) (by decide), trims_of_lt (by decide) (by decide),
      trims_of_lt (by decide) (by decide), huser, by simp⟩

/-- **Every call of `trim` that a request makes stays in the buffer, and trims the field, exactly
if** the user id of the MQCSP fits it. -/
theorem trimsAll_iff (r : Request) : (∀ call ∈ r.trimCalls, Trims call) ↔ r.UserIdFits := by
  cases r with
  | checkAuth compCode reason args =>
    refine iff_of_true ?_ trivial
    rw [Request.trimCalls]
    split_ifs
    · simp
    · exact trims_checkAuthTrims args
  | authUser compCode reason args =>
    rw [Request.trimCalls, Request.UserIdFits, ← trims_userIdCall_iff]
    split_ifs with hfailed
    · refine iff_of_true (by simp) fun hcc hreason ↦ ?_
      exact absurd hfailed (not_or.2 ⟨hcc, not_not.2 hreason⟩)
    · rw [trims_authUserTrims_iff]
      obtain ⟨hcc, hreason⟩ := not_or.1 hfailed
      simp [hcc, not_not.1 hreason]

/-- A client that sends a user id of 300 letters. -/
def longUser : Request :=
  .authUser .OK MQRC_NONE ⟨.pad 48 32 (lit "QM1"), some (List.replicate 300 65, 300),
    .pad 12 32 (lit "mqm"), .pad 28 32 (lit "amqsput")⟩

/-- It is written past the buffer. -/
theorem not_trimsAll_longUser : ¬ ∀ call ∈ longUser.trimCalls, Trims call := by
  intro h
  have huser : (⟨List.replicate 300 65, 300⟩ : TrimCall) ∈ longUser.trimCalls :=
    List.mem_of_getElem? (i := 3) rfl
  exact absurd ((trims_iff _).1 (h _ huser)).2.1 (by decide)

end Oamok

end MqExits.Oam
