import MqExits.Oam.OamokBuffers
import MqExits.Text.Json

/-!
# Reading the audit log

`OACheckAuth` and `OAAuthUser` of `oamok` write a record of each request to the log, as a JSON
object with the fields of the request: names without their padding, constants without their
underscores (`prettify`), the authority as a mask and as a list of names. json-c makes a text of the
object, on one line or on several. `rpt` puts it in the log, between those of the other threads of
all processes.

Whoever reads the log gets the records back (`log_reads`): those of each thread, in the order of its
calls, none lost and none twice. What it rests on is that the calls do not overlap (`Guarded`), that
the newlines which `rpt` takes away or adds are between tokens, and that tokens can be read in one
way only.

The fields are bytes, and so is what is read: neither json-c nor the reader asks whether the name of
a user is UTF-8, and no text is changed on the way because it is not. A reader that insists on UTF-8
would refuse a log with one such name in it.

How json-c lays a record out is not fixed. All that is asked of it is that the text has the tokens
of the record (`WritesJson`); both layouts of `JsonText` do.
-/

namespace MqExits.Oam.Oamok.Audit

open CText JsonText

/-! ### `prettify` -/

/-- `toupper` and `tolower`, for the letters of the C locale. -/
def toupper (b : UInt8) : UInt8 := if 97 ≤ b ∧ b ≤ 122 then b - 32 else b
def tolower (b : UInt8) : UInt8 := if 65 ≤ b ∧ b ≤ 90 then b + 32 else b

/-- The variables of the loop. -/
structure Pretty where
  seenUnderscore : Bool
  upperNext : Bool
  out : Bytes

/-- The body of the loop. -/
def Pretty.step (p : Pretty) (c : UInt8) : Pretty :=
  if p.seenUnderscore then
    if c ≠ 95 then
      if p.upperNext then { p with out := p.out ++ [toupper c], upperNext := false }
      else { p with out := p.out ++ [tolower c] }
    else { p with upperNext := true }
  else if c = 95 then { p with seenUnderscore := true }
  else p

/-- `prettify`. A name without an underscore is returned as it is. -/
def prettify (s : Bytes) : Bytes :=
  if 95 ∈ s then
    let out := (s.foldl Pretty.step ⟨false, false, []⟩).out
    if out = lit "q" then lit "queue" else out
  else s

/-! ### The requests -/

def MQCSP_AUTH_NONE : MQLONG := 0

/-- What the module takes from the system at a call. -/
structure Outside where
  now : ℤ
  /-- `tb`. -/
  timeString : Bytes
  getpid : ℕ
  getThreadId : ℕ

/-- The functions of `cmqstrc.h`, which name the values of a constant. -/
structure Names where
  MQOT_STR : MQLONG → Bytes
  MQXE_STR : MQLONG → Bytes
  MQXACT_STR : MQLONG → Bytes
  MQZAT_STR : MQLONG → Bytes
  MQCNO_STR : MQLONG → Bytes

/-- The arguments of `OACheckAuth`. -/
structure CheckAuth extends CheckAuthArgs where
  authority : BitVec 32

/-- The arguments of `OAAuthUser`. -/
structure AuthUser extends AuthUserArgs where
  /-- The `AuthenticationType` of the MQCSP. -/
  cspAuthenticationType : MQLONG
  environment : MQLONG
  callerType : MQLONG
  authenticationType : MQLONG
  bindType : MQLONG
  processId : ℤ
  threadId : ℤ

/-- What `trim` returns, as the string it is. -/
def trimmed (src : Bytes) (l : MQLONG) : Option Bytes :=
  (trim src l).map cstr

/-- `OACorrelator`. -/
def OACorrelator (w : Outside) : Bytes :=
  toDecimal w.getpid ++ lit "." ++ toDecimal w.getThreadId

/-- The record of `OACheckAuth`; `none` for a write outside `buf`. -/
def checkAuthRecord (names : Names) (w : Outside) (r : CheckAuth) : Option Object := do
  let queueManager ← trimmed r.qMgrName.val MQ_Q_MGR_NAME_LENGTH
  let objectName ← trimmed r.objectName (objLen r.objectType)
  let identity ← trimmed r.entityName MQ_USER_ID_LENGTH
  return [
    (lit "action", .str (lit "authorise")),
    (lit "timeEpoch", .int w.now),
    (lit "timeString", .str w.timeString),
    (lit "queueManager", .str queueManager),
    (lit "objectType", .str (prettify (names.MQOT_STR r.objectType))),
    (lit "objectName", .str objectName),
    (lit "identity", .str identity),
    (lit "authorityHex", .str (lit "0x" ++ Oamlog.hex8 r.authority)),
    (lit "authorityString", .strs (OAAuthStr [] r.authority)),
    (lit "connCorrel", .str (OACorrelator w))]

/-- `authType`. -/
def authType (r : AuthUser) : Bytes :=
  if r.securityParms.isSome then
    if r.cspAuthenticationType = MQCSP_AUTH_NONE then lit "none" else lit "password"
  else lit "N/A"

/-- The record of `OAAuthUser`. -/
def authUserRecord (names : Names) (w : Outside) (r : AuthUser) : Option Object := do
  let queueManager ← trimmed r.qMgrName.val MQ_Q_MGR_NAME_LENGTH
  let identity ← trimmed r.userIdentifier.val MQ_USER_ID_LENGTH
  let applicationName ← trimmed r.applName.val MQ_APPL_NAME_LENGTH
  let cspUserId ← trimmed (userIdCall r.securityParms).src (userIdCall r.securityParms).l
  return [
    (lit "action", .str (lit "authenticate")),
    (lit "timeEpoch", .int w.now),
    (lit "timeString", .str w.timeString),
    (lit "queueManager", .str queueManager),
    (lit "identity", .str identity),
    (lit "applicationName", .str applicationName),
    (lit "environment", .str (prettify (names.MQXE_STR r.environment))),
    (lit "caller", .str (prettify (names.MQXACT_STR r.callerType))),
    (lit "cspAuthenticationType", .str (authType r)),
    (lit "cspUserId", .str cspUserId),
    (lit "authenticationContext", .str (prettify (names.MQZAT_STR r.authenticationType))),
    (lit "bindType", .str (prettify (names.MQCNO_STR r.bindType))),
    (lit "applicationPid", .int r.processId),
    (lit "applicationTid", .int r.threadId),
    (lit "connCorrel", .str (OACorrelator w))]

/-- The request has failed already, and is not logged. -/
def hasFailed (found : ServiceResult) : Bool :=
  found.compCode = .FAILED ∨ found.reason ≠ MQRC_NONE

/-- `OACheckAuth`, from the codes it finds: the codes it leaves, and the object it reports. -/
def OACheckAuth (names : Names) (w : Outside) (found : ServiceResult) (r : CheckAuth) :
    Option (ServiceResult × Option Object) :=
  if hasFailed found then some (found, none)
  else (checkAuthRecord names w r).map fun o ↦
    ({ found with compCode := OA_DEF_CC, continuation := .CONTINUE }, some o)

/-- `OAAuthUser`. -/
def OAAuthUser (names : Names) (w : Outside) (found : ServiceResult) (r : AuthUser) :
    Option (ServiceResult × Option Object) :=
  if hasFailed found then some (found, none)
  else (authUserRecord names w r).map fun o ↦ (⟨OA_DEF_CC, MQRC_NONE, .CONTINUE⟩, some o)

/-- A call of the queue manager. -/
inductive Call
  | checkAuth (w : Outside) (found : ServiceResult) (r : CheckAuth)
  | authUser (w : Outside) (found : ServiceResult) (r : AuthUser)

def Call.run (names : Names) : Call → Option (ServiceResult × Option Object)
  | .checkAuth w found r => OACheckAuth names w found r
  | .authUser w found r => OAAuthUser names w found r

/-- The object that the call reports, if it reports one. -/
def Call.object (names : Names) (call : Call) : Option Object :=
  (call.run names).bind Prod.snd

/-! ### The service -/

variable {π τ : Type}

/-- A thread begins to report a call, in the mode of its process, or goes on in `rpt`. -/
inductive AuditStep (π τ : Type)
  | call (c : π × τ) (singleLine : Bool) (beyond : Bytes) (request : Call)
  | rpt (i : RptStep π τ)

/-- The step of `rpt` that begins a call. -/
def begins : RptStep π τ → Bool
  | .lock _ _ => true
  | _ => false

section

variable (names : Names) (json : Object → Bool → Bytes)

/-- What is done in `rpt`. The text is that of `json_object_to_json_string_ext`. -/
def AuditStep.toRpt : AuditStep π τ → RptStep π τ
  | .call c singleLine beyond request =>
    (request.object names).elim (.unmutex c) fun o ↦ .lock c ⟨json o singleLine, singleLine, beyond⟩
  | .rpt i => i

/-- The service in all its processes. A call that has nothing to report takes no step. -/
def auditLog [DecidableEq π] [DecidableEq τ] : Machine (LogState π τ) (AuditStep π τ) Unit where
  step s i :=
    match i with
    | .call _ _ _ request =>
      if (request.object names).isSome then oamokLog.step s (i.toRpt names json) else none
    | .rpt j => if begins j then none else oamokLog.step s j

end

/-- A step of the service. -/
abbrev AuditEvent (π τ : Type) := Machine.Event (LogState π τ) (AuditStep π τ) Unit

/-- The step as one of `rpt`. -/
def rptEvent (names : Names) (json : Object → Bool → Bytes) (e : AuditEvent π τ) : LogEvent π τ :=
  ⟨e.pre, e.input.toRpt names json, e.output, e.post⟩

/-- The object that the thread reports with a step. -/
def reportsBy [DecidableEq π] [DecidableEq τ] (names : Names) (c : π × τ) (e : AuditEvent π τ) :
    Option Object :=
  match e.input with
  | .call c' _ _ request => if c' = c then request.object names else none
  | .rpt _ => none

/-- The bytes of the log. -/
def logBytes (s : LogState π τ) : Bytes :=
  s.log.flatMap fun w ↦ w.bytes

/-! ### The lines of the log -/

/-- The report is that of the object. -/
def IsReportOf (json : Object → Bool → Bytes) (r : Report) (o : Object) : Prop :=
  r.text = json o r.singleLine

/-- json-c writes a JSON text of the object, whatever the flags. -/
def WritesJson (json : Object → Bool → Bytes) : Prop :=
  ∀ o singleLine, Lexes (json o singleLine) o.tokens

theorem WritesJson.rightUnique {json : Object → Bool → Bytes} (h : WritesJson json) :
    Relator.RightUnique (IsReportOf json) := by
  intro r o o' ho ho'
  have hlexes := h o r.singleLine
  have hlexes' := h o' r.singleLine
  rw [← ho] at hlexes
  rw [← ho'] at hlexes'
  exact selfDelimiting_object.injective (hlexes.unique hlexes')

theorem forall₂_blanked_blankNewlines (s : Bytes) : List.Forall₂ Blanked s (blankNewlines s) := by
  rcases List.eq_nil_or_concat s with rfl | ⟨front, b, rfl⟩
  · exact .nil
  · have hfront : List.Forall₂ Blanked front (front.map fun b ↦ if b = 10 then 32 else b) := by
      rw [List.forall₂_map_right_iff, List.forall₂_same]
      intro b _
      split_ifs with hb
      · exact Or.inr ⟨hb, rfl⟩
      · exact Or.inl rfl
    rw [List.concat_eq_append, blankNewlines, List.dropLast_concat, List.getLast?_concat]
    exact List.rel_append hfront (.cons (Or.inl rfl) .nil)

/-- **The line of a report** is read as its object. -/
theorem reads_logLine {json : Object → Bool → Bytes} (hjson : WritesJson json) {c : π × τ}
    {r : Report} {o : Object} (h : IsReportOf json r o) :
    Reads ((logLine c r).flatMap fun w ↦ w.bytes) [o] := by
  have htext : Lexes r.text o.tokens := by
    rw [h]
    exact hjson o r.singleLine
  -- newlines that are blanked out were between tokens
  have hrecord : Lexes r.record o.tokens := by
    rw [Report.record]
    split_ifs
    · exact htext.of_blanked (forall₂_blanked_blankNewlines r.text)
    · exact htext
  rw [Reads, List.flatMap_singleton, logLine]
  rcases List.eq_nil_or_concat r.record with hnil | ⟨front, b, hb⟩
  · rw [hnil] at hrecord
    rcases hrecord with hline | ⟨_, _, hnone, -⟩
    · rw [hnil]
      exact hline
    · cases hnone
  · rw [List.concat_eq_append] at hb
    have hlacks : lacksNewline r.record = decide (b ≠ 10) := by
      rw [hb, lacksNewline, List.getLast?_concat]
      rfl
    rw [hlacks]
    -- the record ends with a newline, or one is written behind it
    by_cases hnewline : b = 10
    · rw [if_neg (by simp [hnewline])]
      rw [hb, hnewline] at hrecord ⊢
      simpa using hrecord.line_of_newline
    · rw [if_pos (by simp [hnewline])]
      simpa using hrecord.newline

/-! ### What a thread has begun and what it has written -/

section Runs

variable [DecidableEq π] [DecidableEq τ]

/-- The report that the thread begins with a step. -/
def begunBy (c : π × τ) (e : LogEvent π τ) : Option Report :=
  match e.input with
  | .lock c' r => if c' = c then some r else none
  | _ => none

/-- The report that is written with a step, and whose it is. -/
def wrote (e : LogEvent π τ) : Option ((π × τ) × Report) :=
  match e.input with
  | .record c =>
    match e.pre.phase c with
    | .record r => some (c, r)
    | _ => none
  | _ => none

/-- What of some pairs is the thread's. -/
def ofThread {α : Type} (c : π × τ) (l : List ((π × τ) × α)) : List α :=
  l.filterMap fun p ↦ if p.1 = c then some p.2 else none

/-- The reports that the thread has begun are those written, and the one still to write. -/
def KeepsReports (tr : List (LogEvent π τ)) (s : LogState π τ) : Prop :=
  ∀ c, tr.filterMap (begunBy c) = ofThread c (tr.filterMap wrote) ++ (s.phase c).toWrite.toList

theorem ofThread_append {α : Type} (c : π × τ) (l l' : List ((π × τ) × α)) :
    ofThread c (l ++ l') = ofThread c l ++ ofThread c l' :=
  List.filterMap_append

/-- A step that neither begins a report nor writes one, and leaves what is still to write. -/
theorem KeepsReports.other {tr : List (LogEvent π τ)} {e : LogEvent π τ}
    (h : KeepsReports tr e.pre) (hbegun : ∀ c, begunBy c e = none) (hwrote : wrote e = none)
    (hphase : ∀ c, (e.post.phase c).toWrite = (e.pre.phase c).toWrite) :
    KeepsReports (tr ++ [e]) e.post := by
  intro c
  rw [Machine.filterMap_append_singleton, Machine.filterMap_append_singleton, hbegun, hwrote,
    hphase, h c]
  simp

theorem toWrite_update {phase : π × τ → RptPhase} {c : π × τ} {p : RptPhase}
    (h : p.toWrite = (phase c).toWrite) (c' : π × τ) :
    (Function.update phase c p c').toWrite = (phase c').toWrite := by
  rcases eq_or_ne c' c with rfl | hne
  · rw [Function.update_self, h]
  · rw [Function.update_of_ne hne]

theorem KeepsReports.lock {tr : List (LogEvent π τ)} {s s' : LogState π τ} {c : π × τ}
    {r : Report} (h : KeepsReports tr s) (hs : oamokLog.step s (.lock c r) = some (s', ())) :
    KeepsReports (tr ++ [⟨s, .lock c r, (), s'⟩]) s' := by
  obtain ⟨hidle, -, rfl⟩ := step_lock hs
  intro c'
  rw [Machine.filterMap_append_singleton, Machine.filterMap_append_singleton, h c']
  rcases eq_or_ne c c' with rfl | hne
  · simp [begunBy, wrote, hidle, RptPhase.toWrite]
  · simp [begunBy, wrote, hne, Function.update_of_ne hne.symm]

/-- What was still to write is written. -/
theorem KeepsReports.record {tr : List (LogEvent π τ)} {s s' : LogState π τ} {c : π × τ}
    (h : KeepsReports tr s) (hs : oamokLog.step s (.record c) = some (s', ())) :
    KeepsReports (tr ++ [⟨s, .record c, (), s'⟩]) s' := by
  obtain ⟨r, hphase, rfl⟩ := step_record hs
  have hwrote : ∀ s', wrote ⟨s, .record c, (), s'⟩ = some (c, r) := by
    intro s'
    simp only [wrote, hphase]
  have hnothing : (if lacksNewline r.written then RptPhase.newline r
      else .unfcntl).toWrite = none := by
    split_ifs <;> rfl
  intro c'
  rw [Machine.filterMap_append_singleton, Machine.filterMap_append_singleton, h c', hwrote,
    ofThread_append]
  rcases eq_or_ne c c' with rfl | hne
  · simp only [Function.update_self, hnothing, hphase]
    simp [begunBy, ofThread, RptPhase.toWrite]
  · simp [begunBy, ofThread, hne, Function.update_of_ne hne.symm]

/-- **Each step keeps the reports.** -/
theorem KeepsReports.step {tr : List (LogEvent π τ)} {s s' : LogState π τ} {i : RptStep π τ}
    {o : Unit} (h : KeepsReports tr s) (hs : oamokLog.step s i = some (s', o)) :
    KeepsReports (tr ++ [⟨s, i, o, s'⟩]) s' := by
  cases i with
  | lock c r => exact h.lock hs
  | record c => exact h.record hs
  | fcntl c =>
    obtain ⟨r, hphase, rfl⟩ := step_fcntl hs
    exact h.other (fun _ ↦ rfl) rfl (toWrite_update (by rw [hphase]; rfl))
  | newline c =>
    obtain ⟨r, hphase, rfl⟩ := step_newline hs
    exact h.other (fun _ ↦ rfl) rfl (toWrite_update (by rw [hphase]; rfl))
  | unfcntl c =>
    obtain ⟨hphase, rfl⟩ := step_unfcntl hs
    exact h.other (fun _ ↦ rfl) rfl (toWrite_update (by rw [hphase]; rfl))
  | unmutex c =>
    obtain ⟨hphase, rfl⟩ := step_unmutex hs
    exact h.other (fun _ ↦ rfl) rfl (toWrite_update (by rw [hphase]; rfl))

theorem keepsReports_of_run {tr : List (LogEvent π τ)} {s : LogState π τ}
    (h : oamokLog.Run .start tr s) : KeepsReports tr s :=
  h.invariant (I := KeepsReports) (fun _ ↦ rfl) fun _ _ _ _ _ hI hs ↦ hI.step hs

end Runs

/-- The lines written are those of the reports written. -/
theorem lineOf_eq (e : LogEvent π τ) :
    lineOf e = (wrote e).toList.flatMap fun p ↦ logLine p.1 p.2 := by
  rcases e with ⟨s, i, o, s'⟩
  rcases i with ⟨c, r⟩ | c | c | c | c | c
  case record =>
    simp only [lineOf, wrote]
    rcases s.phase c with - | r | r | r | - | - <;> simp
  all_goals rfl

theorem flatMap_lineOf (tr : List (LogEvent π τ)) :
    tr.flatMap lineOf = (tr.filterMap wrote).flatMap fun p ↦ logLine p.1 p.2 := by
  rw [List.filterMap_eq_flatMap_toList, List.flatMap_assoc]
  exact List.flatMap_congr fun e _ ↦ lineOf_eq e

/-! ### Reading the log -/

/-- The reports written, and an object for each of them. -/
def EntriesOf (json : Object → Bool → Bytes) :
    List ((π × τ) × Report) → List ((π × τ) × Object) → Prop :=
  List.Forall₂ fun w e ↦ w.1 = e.1 ∧ IsReportOf json w.2 e.2

/-- The lines of the reports are read as the objects. -/
theorem EntriesOf.reads {json : Object → Bool → Bytes} (hjson : WritesJson json)
    {written : List ((π × τ) × Report)} {entries : List ((π × τ) × Object)}
    (h : EntriesOf json written entries) :
    Reads ((written.flatMap fun p ↦ logLine p.1 p.2).flatMap fun w ↦ w.bytes)
      (entries.map Prod.snd) := by
  induction h with
  | nil => exact reads_nil
  | cons hreport _ ih =>
    rw [List.flatMap_cons, List.flatMap_append, List.map_cons]
    exact reads_append (reads_logLine hjson hreport.2) ih

section Threads

variable [DecidableEq π] [DecidableEq τ]

theorem mem_ofThread {α : Type} {c : π × τ} {a : α} {l : List ((π × τ) × α)} :
    a ∈ ofThread c l ↔ (c, a) ∈ l := by
  simp [ofThread, Prod.ext_iff, and_comm]

theorem EntriesOf.ofThread {json : Object → Bool → Bytes} {written : List ((π × τ) × Report)}
    {entries : List ((π × τ) × Object)} (h : EntriesOf json written entries) (c : π × τ) :
    List.Forall₂ (IsReportOf json) (Audit.ofThread c written) (Audit.ofThread c entries) := by
  induction h with
  | nil => exact .nil
  | @cons w e written entries hreport _ ih =>
    obtain ⟨hthread, hreport⟩ := hreport
    simp only [Audit.ofThread, List.filterMap_cons] at ih ⊢
    rw [hthread]
    split_ifs
    · exact .cons hreport ih
    · exact ih

variable {names : Names} {json : Object → Bool → Bytes}

theorem toRpt_step {s s' : LogState π τ} {i : AuditStep π τ} {o : Unit}
    (hs : (auditLog names json).step s i = some (s', o)) :
    oamokLog.step s (i.toRpt names json) = some (s', o) := by
  rcases i with ⟨c, singleLine, beyond, request⟩ | j
  · simp only [auditLog] at hs
    split_ifs at hs
    exact hs
  · simp only [auditLog] at hs
    split_ifs at hs
    exact hs

/-- **A thread begins the report of what its call reports.** -/
theorem forall₂_begunBy {tr : List (AuditEvent π τ)} {s : LogState π τ}
    (h : (auditLog names json).Run .start tr s) (c : π × τ) :
    List.Forall₂ (IsReportOf json) ((tr.map (rptEvent names json)).filterMap (begunBy c))
      (tr.filterMap (reportsBy names c)) := by
  induction h with
  | nil => exact .nil
  | @snoc tr s s' i o _ hs ih =>
    rw [List.map_append, List.map_singleton, Machine.filterMap_append_singleton,
      Machine.filterMap_append_singleton]
    refine List.rel_append ih ?_
    rcases i with ⟨c', singleLine, beyond, request⟩ | j
    · rcases hobject : request.object names with - | object
      · simp [begunBy, reportsBy, rptEvent, AuditStep.toRpt, hobject]
      · simp only [begunBy, reportsBy, rptEvent, AuditStep.toRpt, hobject, Option.elim_some]
        split_ifs
        · exact .cons rfl .nil
        · exact .nil
    · -- the other steps of `rpt` begin no report
      have hbegins : begins j = false := by
        by_contra htrue
        rw [Bool.not_eq_false] at htrue
        simp [auditLog, htrue] at hs
      rcases j with ⟨c', r⟩ | c' | c' | c' | c' | c'
      · cases hbegins
      all_goals exact .nil

/-- **Reading the log.** While no call is under way, if every request for the file lock has been
made while no other process had it and no text was longer than the buffer: the log is read as the
records of the calls, in one way only, and those of each thread are there in the order of its
calls. -/
theorem log_reads (hjson : WritesJson json) {tr : List (AuditEvent π τ)} {s : LogState π τ}
    (hrun : (auditLog names json).Run .start tr s)
    (hgranted : ∀ e ∈ tr, Granted (rptEvent names json e)) (hquiet : s.Quiescent) :
    ∃ entries : List ((π × τ) × Object), Reads (logBytes s) (entries.map Prod.snd) ∧
      (∀ objects, Reads (logBytes s) objects → objects = entries.map Prod.snd) ∧
      ∀ c, ofThread c entries = tr.filterMap (reportsBy names c) := by
  have hrpt : oamokLog.Run .start (tr.map (rptEvent names json)) s :=
    hrun.map_input (AuditStep.toRpt names json) fun _ _ _ _ hs ↦ toRpt_step hs
  have hguarded : Guarded (tr.map (rptEvent names json)) s :=
    hrpt.invariant_of_forall (I := Guarded) (C := Granted) guarded_start
      (fun _ _ _ _ _ h hs hg ↦ h.step hs hg) (List.forall_mem_map.2 hgranted)
  let written := (tr.map (rptEvent names json)).filterMap wrote
  have hlog : s.log = written.flatMap fun p ↦ logLine p.1 p.2 := by
    rw [← flatMap_lineOf]
    refine hguarded.between fun c r heq ↦ ?_
    rw [hquiet c] at heq
    cases heq
  -- what a thread has begun it has written
  have hthread : ∀ c, List.Forall₂ (IsReportOf json) (ofThread c written)
      (tr.filterMap (reportsBy names c)) := by
    intro c
    have hkeeps := keepsReports_of_run hrpt c
    rw [hquiet c] at hkeeps
    have hbegun := forall₂_begunBy hrun c
    rwa [hkeeps, RptPhase.toWrite, Option.toList_none, List.append_nil] at hbegun
  have hexists : ∀ w ∈ written, ∃ o, IsReportOf json w.2 o := by
    intro w hw
    obtain ⟨n, hn⟩ := List.get_of_mem (mem_ofThread.2 hw)
    rw [← hn]
    exact ⟨_, (hthread w.1).get _ ((hthread w.1).length_eq ▸ n.isLt)⟩
  choose! object hobject using hexists
  have hentries : EntriesOf json written (written.map fun w ↦ (w.1, object w)) := by
    rw [EntriesOf, List.forall₂_map_right_iff, List.forall₂_same]
    exact fun w hw ↦ ⟨rfl, hobject w hw⟩
  have hreads := hentries.reads hjson
  rw [← hlog] at hreads
  refine ⟨_, hreads, fun objects h ↦ reads_unique h hreads, fun c ↦ ?_⟩
  exact List.right_unique_forall₂' hjson.rightUnique (hentries.ofThread c) (hthread c)

end Threads

/-! ### Two calls -/

/-- Some of the names. -/
def someNames : Names where
  MQOT_STR x := if x = MQOT_Q then lit "MQOT_Q" else []
  MQXE_STR x := if x = 0 then lit "MQXE_OTHER" else []
  MQXACT_STR x := if x = 1 then lit "MQXACT_EXTERNAL" else []
  MQZAT_STR x := if x = 0 then lit "MQZAT_INITIAL_CONTEXT" else []
  MQCNO_STR x := if x = 0 then lit "MQCNO_STANDARD_BINDING" else []

/-- A JSON text, as wide or as narrow as the flags say. -/
def someJson (o : Object) (singleLine : Bool) : Bytes :=
  o.write (if singleLine then .plain else .pretty)

theorem writesJson_someJson : WritesJson someJson :=
  fun o _ ↦ (lexesLine_write _ o).lexes

def authUserCall : Call :=
  .authUser ⟨1700000000, lit "10:00:00", 20, 21⟩ ⟨.OK, MQRC_NONE, .CONTINUE⟩
    { qMgrName := .pad 48 32 (lit "QM1")
      securityParms := none
      userIdentifier := .pad 12 32 (lit "mqm")
      applName := .pad 28 32 (lit "amqsput")
      cspAuthenticationType := MQCSP_AUTH_NONE
      environment := 0
      callerType := 1
      authenticationType := 0
      bindType := 0
      processId := 77
      threadId := 78 }

def checkAuthCall : Call :=
  .checkAuth ⟨1700000001, lit "10:00:01", 30, 31⟩ ⟨.OK, MQRC_NONE, .CONTINUE⟩
    { qMgrName := .pad 48 32 (lit "QM1")
      entityName := lit "app         "
      objectName := padTo 48 32 (lit "ORDERS")
      objectType := MQOT_Q
      authority := 8 }

/-- The second process has its mutex while the first one writes. -/
def twoCallSteps : List (AuditStep ℕ ℕ) :=
  [.call (0, 0) false [] authUserCall, .rpt (.fcntl (0, 0)), .call (1, 0) true [] checkAuthCall,
    .rpt (.record (0, 0)), .rpt (.newline (0, 0)), .rpt (.unfcntl (0, 0)), .rpt (.fcntl (1, 0)),
    .rpt (.record (1, 0)), .rpt (.unmutex (0, 0)), .rpt (.newline (1, 0)), .rpt (.unfcntl (1, 0)),
    .rpt (.unmutex (1, 0))]

def twoCallRun : List (AuditEvent ℕ ℕ) × LogState ℕ ℕ :=
  ((auditLog someNames someJson).replay .start twoCallSteps).getD ([], .start)

theorem run_twoCallRun : (auditLog someNames someJson).Run .start twoCallRun.1 twoCallRun.2 :=
  Machine.run_getD_replay (by decide +kernel)

/-- The thread is not in `rpt`. -/
def isIdle : RptPhase → Bool
  | .idle => true
  | .fcntl _ | .record _ | .newline _ | .unfcntl | .unmutex => false

theorem eq_idle {p : RptPhase} (h : isIdle p = true) : p = .idle := by
  cases p <;> first | rfl | cases h

theorem quiescent_twoCallRun : twoCallRun.2.Quiescent :=
  quiescent_of_callers (a := (0, 0)) (b := (1, 0))
    (run_twoCallRun.map_input (AuditStep.toRpt someNames someJson) fun _ _ _ _ ↦ toRpt_step)
    (by decide +kernel) (eq_idle (by decide +kernel)) (eq_idle (by decide +kernel))

/-- Both records are there, with those of each process. -/
theorem log_reads_twoCallRun :
    ∃ entries : List ((ℕ × ℕ) × Object),
      Reads (logBytes twoCallRun.2) (entries.map Prod.snd) ∧
      (∀ objects, Reads (logBytes twoCallRun.2) objects → objects = entries.map Prod.snd) ∧
      ∀ c, ofThread c entries = twoCallRun.1.filterMap (reportsBy someNames c) :=
  log_reads writesJson_someJson run_twoCallRun (by decide +kernel) quiescent_twoCallRun

end MqExits.Oam.Oamok.Audit
