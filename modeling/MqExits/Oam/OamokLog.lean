import MqExits.Runs.Machine
import MqExits.Text.Bytes
import Mathlib.Logic.Function.Basic

/-!
# The audit log: `rpt` of `oamok`

Any number of threads, in any number of processes, write records to one log file. `rpt` writes a
record and its newline with two calls of `write`, between `lock` and `unlock`. A thread of the same
process is kept out by a mutex. A thread of another process is to be kept out by a lock on the file;
but that is asked for with F_SETLK, which fails at once where another process has it, and the result
is not looked at.

The interleaving is one of the six steps of each call: the mutex and the file lock, the two writes,
and the two releases. As long as every request for the file lock is granted, and no text is longer
than the buffer, the log consists of complete lines whenever no call is under way
(`completeLines_of_granted`).

## Two locks

The mutex is a thread's, and the file lock its process's. So a second thread of the process that has
the file lock would be granted it again, and the mutex is what keeps it out. `Guarded` has a part
for each: who is in `rpt` has the mutex of its process, and who writes is in the process that has
the file lock. Together they leave one writer at a time.

## What is left open

A record may be in the log without its newline while its call is between the two writes. This is why
the statement is about the states in which no call is under way. A state in which a newline is
missing has a case of its own in the invariant (`Guarded.pending`), as what the log is then is the
lines of the records but for that newline.
-/

namespace MqExits.Oam

open CText

/-! ### Records -/

/-- What `rpt` is given: the text that its arguments format to, the mode of the output, and the
contents of the memory after `auditBuf`. -/
structure Report where
  text : Bytes
  singleLine : Bool
  beyond : Bytes

/-- The `l` bytes at `auditBuf` after `vsnprintf`, where `l` is the length of the text, which may be
more than the buffer holds. -/
def Report.auditBuf (r : Report) : Bytes :=
  (r.text.take 1023 ++ 0 :: r.beyond).take r.text.length

/-- Every newline but the last byte is replaced by a blank. -/
def blankNewlines (bytes : Bytes) : Bytes :=
  (bytes.dropLast.map fun b ↦ if b = 10 then 32 else b) ++ bytes.getLast?.toList

/-- The bytes of the first `write`. -/
def Report.written (r : Report) : Bytes :=
  if r.singleLine then blankNewlines r.auditBuf else r.auditBuf

/-- The record that is meant. -/
def Report.record (r : Report) : Bytes :=
  if r.singleLine then blankNewlines r.text else r.text

/-- `l > 0 && auditBuf[l-1] != '\n'`. -/
def lacksNewline (bytes : Bytes) : Bool :=
  bytes.getLast?.any (· ≠ 10)

/-- A text that the buffer holds is written as it is meant. -/
theorem Report.written_of_lt {r : Report} (h : r.text.length < 1024) : r.written = r.record := by
  have hbuf : r.auditBuf = r.text := by
    rw [Report.auditBuf, List.take_of_length_le (Nat.le_of_lt_succ h), List.take_left]
  rw [Report.written, Report.record, hbuf]

variable {π τ : Type}

/-- One `write` to the log. -/
structure LogWrite (π τ : Type) where
  caller : π × τ
  bytes : Bytes
  deriving DecidableEq

/-- The record and its own newline. -/
def logLine (c : π × τ) (r : Report) : List (LogWrite π τ) :=
  ⟨c, r.record⟩ :: if lacksNewline r.record then [⟨c, [10]⟩] else []

/-! ### The processes -/

/-- Where a thread is in `rpt`. -/
inductive RptPhase
  | idle
  /-- It has the mutex; the file lock comes next. -/
  | fcntl (r : Report)
  | record (r : Report)
  | newline (r : Report)
  /-- The file lock is released next, and then the mutex. -/
  | unfcntl
  | unmutex

/-- The processes that have the log open. -/
structure LogState (π τ : Type) where
  /-- The thread that has the mutex of the process. -/
  mutex : π → Option τ
  /-- The process that has the file lock. -/
  holder : Option π
  phase : π × τ → RptPhase
  /-- The writes so far, oldest first. -/
  log : List (LogWrite π τ)

def LogState.start : LogState π τ where
  mutex _ := none
  holder := none
  phase _ := .idle
  log := []

/-- The steps of `rpt`. -/
inductive RptStep (π τ : Type)
  | lock (c : π × τ) (r : Report)
  | fcntl (c : π × τ)
  | record (c : π × τ)
  | newline (c : π × τ)
  | unfcntl (c : π × τ)
  | unmutex (c : π × τ)

/-- The processes, one step of one thread at a time. -/
def oamokLog [DecidableEq π] [DecidableEq τ] : Machine (LogState π τ) (RptStep π τ) Unit where
  step s
    | .lock c r =>
      match s.phase c, s.mutex c.1 with
      | .idle, none => some ({ s with
          mutex := Function.update s.mutex c.1 (some c.2)
          phase := Function.update s.phase c (.fcntl r) }, ())
      | _, _ => none
    | .fcntl c =>
      match s.phase c with
      | .fcntl r => some ({ s with
          -- a request that is refused makes no difference
          holder := if s.holder = none then some c.1 else s.holder
          phase := Function.update s.phase c (.record r) }, ())
      | _ => none
    | .record c =>
      match s.phase c with
      | .record r => some ({ s with
          log := s.log ++ [⟨c, r.written⟩]
          phase := Function.update s.phase c
            (if lacksNewline r.written then .newline r else .unfcntl) }, ())
      | _ => none
    | .newline c =>
      match s.phase c with
      | .newline _ => some ({ s with
          log := s.log ++ [⟨c, [10]⟩]
          phase := Function.update s.phase c .unfcntl }, ())
      | _ => none
    | .unfcntl c =>
      match s.phase c with
      | .unfcntl => some ({ s with
          holder := if s.holder = some c.1 then none else s.holder
          phase := Function.update s.phase c .unmutex }, ())
      | _ => none
    | .unmutex c =>
      match s.phase c with
      | .unmutex => some ({ s with
          mutex := Function.update s.mutex c.1 none
          phase := Function.update s.phase c .idle }, ())
      | _ => none

/-- The thread whose step it is. -/
def RptStep.caller : RptStep π τ → π × τ
  | .lock c _ | .fcntl c | .record c | .newline c | .unfcntl c | .unmutex c => c

/-- A step of that machine. -/
abbrev LogEvent (π τ : Type) := Machine.Event (LogState π τ) (RptStep π τ) Unit

/-! ### The property -/

/-- No call is under way. -/
def LogState.Quiescent (s : LogState π τ) : Prop :=
  ∀ c, s.phase c = .idle

/-- The line of the record that the step writes. -/
def lineOf (e : LogEvent π τ) : List (LogWrite π τ) :=
  match e.input with
  | .record c =>
    match e.pre.phase c with
    | .record r => logLine c r
    | _ => []
  | _ => []

/-- The log consists of the lines of the records written, in the order in which they were: each
record is complete, and its own newline comes right after it. -/
def CompleteLines (tr : List (LogEvent π τ)) (s : LogState π τ) : Prop :=
  s.log = tr.flatMap lineOf

/-- If the step is a request for the file lock, no other process has it; and if it begins a call,
the buffer holds the text. -/
def Granted (e : LogEvent π τ) : Prop :=
  match e.input with
  | .lock _ r => r.text.length < 1024
  | .fcntl c => ∀ p, e.pre.holder = some p → p = c.1
  | _ => True

/-! ### The invariant -/

/-- The thread is between its request for the file lock and the release. -/
def RptPhase.writes : RptPhase → Bool
  | .record _ | .newline _ | .unfcntl => true
  | .idle | .fcntl _ | .unmutex => false

/-- The newline is written next. -/
def RptPhase.lacksNewline : RptPhase → Bool
  | .newline _ => true
  | .idle | .fcntl _ | .record _ | .unfcntl | .unmutex => false

/-- The text that the phase is still to write. -/
def RptPhase.toWrite : RptPhase → Option Report
  | .fcntl r | .record r => some r
  | .idle | .newline _ | .unfcntl | .unmutex => none

/-- A thread in `rpt` has the mutex of its process, and while it writes the process has the file
lock; and at most the newline of the last record is missing. -/
structure Guarded (tr : List (LogEvent π τ)) (s : LogState π τ) : Prop where
  mutex : ∀ c, s.phase c ≠ .idle → s.mutex c.1 = some c.2
  holder : ∀ c, (s.phase c).writes = true → s.holder = some c.1
  fits : ∀ c r, (s.phase c).toWrite = some r → r.text.length < 1024
  between : (∀ c r, s.phase c ≠ .newline r) → s.log = tr.flatMap lineOf
  pending : ∀ c r, s.phase c = .newline r → s.log ++ [⟨c, [10]⟩] = tr.flatMap lineOf

theorem guarded_start : Guarded [] (LogState.start : LogState π τ) where
  mutex c h := absurd rfl h
  holder c h := by cases h
  fits c r h := by cases h
  between _ := rfl
  pending c r h := by cases h

/-- Two threads in `rpt` are of different processes. -/
theorem Guarded.eq_of_process {tr : List (LogEvent π τ)} {s : LogState π τ} (h : Guarded tr s)
    {c c' : π × τ} (hc : s.phase c ≠ .idle) (hc' : s.phase c' ≠ .idle) (hp : c.1 = c'.1) :
    c = c' := by
  have hmutex := h.mutex c hc
  rw [hp, h.mutex c' hc'] at hmutex
  exact Prod.ext hp (Option.some.inj hmutex).symm

theorem RptPhase.ne_idle_of_writes {p : RptPhase} (h : p.writes = true) : p ≠ .idle := by
  rintro rfl
  cases h

theorem RptPhase.ne_newline {p : RptPhase} (h : p.lacksNewline = false) (r : Report) :
    p ≠ .newline r := by
  rintro rfl
  cases h

/-- **No two threads write at a time.** -/
theorem Guarded.eq_of_writes {tr : List (LogEvent π τ)} {s : LogState π τ} (h : Guarded tr s)
    {c c' : π × τ} (hc : (s.phase c).writes = true) (hc' : (s.phase c').writes = true) :
    c = c' := by
  have hholder := h.holder c hc
  rw [h.holder c' hc'] at hholder
  exact h.eq_of_process (RptPhase.ne_idle_of_writes hc) (RptPhase.ne_idle_of_writes hc')
    (Option.some.inj hholder).symm

/-- While a thread writes, no other waits to write a newline. -/
theorem Guarded.ne_newline {tr : List (LogEvent π τ)} {s : LogState π τ} (h : Guarded tr s)
    {c c' : π × τ} (hc : (s.phase c).writes = true) (hne : c' ≠ c) (r : Report) :
    s.phase c' ≠ .newline r := by
  intro heq
  exact hne (h.eq_of_writes (by rw [heq]; rfl) hc)

theorem flatMap_lineOf_append (tr : List (LogEvent π τ)) (e : LogEvent π τ) :
    (tr ++ [e]).flatMap lineOf = tr.flatMap lineOf ++ lineOf e := by
  rw [List.flatMap_append, List.flatMap_singleton]

section Steps

variable [DecidableEq π] [DecidableEq τ]

/-- The invariant across a step that does not write: the part about the log is as it was. -/
theorem Guarded.of_not_written {tr : List (LogEvent π τ)} {e : LogEvent π τ}
    (h : Guarded tr e.pre) {c : π × τ} {p q : RptPhase} (hpre : e.pre.phase c = q)
    (hphase : e.post.phase = Function.update e.pre.phase c p) (hold : q.lacksNewline = false)
    (hnew : p.lacksNewline = false) (hlog : e.post.log = e.pre.log) (hline : lineOf e = [])
    (hmutex : ∀ c, e.post.phase c ≠ .idle → e.post.mutex c.1 = some c.2)
    (hholder : ∀ c, (e.post.phase c).writes = true → e.post.holder = some c.1)
    (hfits : ∀ c r, (e.post.phase c).toWrite = some r → r.text.length < 1024) :
    Guarded (tr ++ [e]) e.post := by
  have hsame : ∀ c' r, e.post.phase c' = .newline r ↔ e.pre.phase c' = .newline r := by
    intro c' r
    rw [hphase]
    rcases eq_or_ne c' c with rfl | hne
    · rw [Function.update_self, hpre]
      exact iff_of_false (RptPhase.ne_newline hnew r) (RptPhase.ne_newline hold r)
    · rw [Function.update_of_ne hne]
  have hlines := flatMap_lineOf_append tr e
  rw [hline, List.append_nil] at hlines
  refine ⟨hmutex, hholder, hfits, fun hnone ↦ ?_, fun c' r heq ↦ ?_⟩
  · rw [hlog, hlines]
    exact h.between fun c' r heq ↦ hnone c' r ((hsame c' r).2 heq)
  · rw [hlog, hlines]
    exact h.pending c' r ((hsame c' r).1 heq)

variable {tr : List (LogEvent π τ)} {s s' : LogState π τ} {c : π × τ}

/-! ### What each step does -/

theorem step_lock {r : Report} (hs : oamokLog.step s (.lock c r) = some (s', ())) :
    s.phase c = .idle ∧ s.mutex c.1 = none ∧ s' = { s with
      mutex := Function.update s.mutex c.1 (some c.2)
      phase := Function.update s.phase c (.fcntl r) } := by
  simp only [oamokLog] at hs
  split at hs
  case h_1 hidle hfree => exact ⟨hidle, hfree, (Prod.mk.inj (Option.some.inj hs)).1.symm⟩
  case h_2 => cases hs

theorem step_fcntl (hs : oamokLog.step s (.fcntl c) = some (s', ())) :
    ∃ r, s.phase c = .fcntl r ∧ s' = { s with
      holder := if s.holder = none then some c.1 else s.holder
      phase := Function.update s.phase c (.record r) } := by
  simp only [oamokLog] at hs
  split at hs
  case h_1 r hphase => exact ⟨r, hphase, (Prod.mk.inj (Option.some.inj hs)).1.symm⟩
  case h_2 => cases hs

theorem step_record (hs : oamokLog.step s (.record c) = some (s', ())) :
    ∃ r, s.phase c = .record r ∧ s' = { s with
      log := s.log ++ [⟨c, r.written⟩]
      phase := Function.update s.phase c
        (if lacksNewline r.written then .newline r else .unfcntl) } := by
  simp only [oamokLog] at hs
  split at hs
  case h_1 r hphase => exact ⟨r, hphase, (Prod.mk.inj (Option.some.inj hs)).1.symm⟩
  case h_2 => cases hs

theorem step_newline (hs : oamokLog.step s (.newline c) = some (s', ())) :
    ∃ r, s.phase c = .newline r ∧ s' = { s with
      log := s.log ++ [⟨c, [10]⟩]
      phase := Function.update s.phase c .unfcntl } := by
  simp only [oamokLog] at hs
  split at hs
  case h_1 r hphase => exact ⟨r, hphase, (Prod.mk.inj (Option.some.inj hs)).1.symm⟩
  case h_2 => cases hs

theorem step_unfcntl (hs : oamokLog.step s (.unfcntl c) = some (s', ())) :
    s.phase c = .unfcntl ∧ s' = { s with
      holder := if s.holder = some c.1 then none else s.holder
      phase := Function.update s.phase c .unmutex } := by
  simp only [oamokLog] at hs
  split at hs
  case h_1 hphase => exact ⟨hphase, (Prod.mk.inj (Option.some.inj hs)).1.symm⟩
  case h_2 => cases hs

theorem step_unmutex (hs : oamokLog.step s (.unmutex c) = some (s', ())) :
    s.phase c = .unmutex ∧ s' = { s with
      mutex := Function.update s.mutex c.1 none
      phase := Function.update s.phase c .idle } := by
  simp only [oamokLog] at hs
  split at hs
  case h_1 hphase => exact ⟨hphase, (Prod.mk.inj (Option.some.inj hs)).1.symm⟩
  case h_2 => cases hs

/-! ### Each step keeps the invariant -/

/-- A step of a thread that keeps the mutex keeps the other threads' parts of the invariant. -/
theorem Guarded.mutex_update (h : Guarded tr s) (hc : s.phase c ≠ .idle) (p : RptPhase) :
    ∀ c', Function.update s.phase c p c' ≠ .idle → s.mutex c'.1 = some c'.2 :=
  (Function.forall_update_iff s.phase fun c' p' ↦ p' ≠ .idle → s.mutex c'.1 = some c'.2).2
    ⟨fun _ ↦ h.mutex c hc, fun c' _ ↦ h.mutex c'⟩

/-- A thread that begins to write needs the file lock. -/
theorem Guarded.holder_update (h : Guarded tr s) {p : RptPhase}
    (hp : p.writes = true → s.holder = some c.1) :
    ∀ c', (Function.update s.phase c p c').writes = true → s.holder = some c'.1 :=
  (Function.forall_update_iff s.phase fun c' p' ↦ p'.writes = true → s.holder = some c'.1).2
    ⟨hp, fun c' _ ↦ h.holder c'⟩

/-- No thread gains a text to write, unless its own step gives it one. -/
theorem Guarded.fits_update (h : Guarded tr s) {p : RptPhase}
    (hp : ∀ r, p.toWrite = some r → r.text.length < 1024) :
    ∀ c' r, (Function.update s.phase c p c').toWrite = some r → r.text.length < 1024 :=
  (Function.forall_update_iff s.phase fun _ p' ↦
    ∀ r, p'.toWrite = some r → r.text.length < 1024).2 ⟨hp, fun c' _ ↦ h.fits c'⟩

/-- A thread that takes the mutex is the only one of its process in `rpt`. -/
theorem Guarded.lock {r : Report} (h : Guarded tr s)
    (hs : oamokLog.step s (.lock c r) = some (s', ())) (hr : r.text.length < 1024) :
    Guarded (tr ++ [⟨s, .lock c r, (), s'⟩]) s' := by
  obtain ⟨hidle, hfree, rfl⟩ := step_lock hs
  refine h.of_not_written hidle rfl rfl rfl rfl rfl ?_ ?_ ?_
  · refine (Function.forall_update_iff s.phase fun c' p' ↦ p' ≠ .idle →
      Function.update s.mutex c.1 (some c.2) c'.1 = some c'.2).2 ⟨?_, ?_⟩
    · intro _
      rw [Function.update_self]
    · intro c' _ hc'
      have hmutex := h.mutex c' hc'
      have hne : c'.1 ≠ c.1 := by
        intro heq
        rw [heq, hfree] at hmutex
        cases hmutex
      rw [Function.update_of_ne hne]
      exact hmutex
  · refine h.holder_update ?_
    intro hw
    cases hw
  · refine h.fits_update fun r' hr' ↦ ?_
    cases hr'
    exact hr

/-- The request that is granted: the process has the file lock, and the others write nothing. -/
theorem Guarded.fcntl (h : Guarded tr s) (hs : oamokLog.step s (.fcntl c) = some (s', ()))
    (hgranted : ∀ p, s.holder = some p → p = c.1) :
    Guarded (tr ++ [⟨s, .fcntl c, (), s'⟩]) s' := by
  obtain ⟨r, hphase, rfl⟩ := step_fcntl hs
  have hin : s.phase c ≠ .idle := by rw [hphase]; exact RptPhase.noConfusion
  -- the lock is free, or the process has it already
  have hholder : (if s.holder = none then some c.1 else s.holder) = some c.1 := by
    rcases hfree : s.holder with - | p
    · rw [if_pos rfl]
    · rw [if_neg (Option.some_ne_none p), hgranted p hfree]
  refine h.of_not_written hphase rfl rfl rfl rfl rfl ?_ ?_ ?_
  · exact h.mutex_update hin (.record r)
  · refine (Function.forall_update_iff s.phase fun c' p' ↦ p'.writes = true →
      (if s.holder = none then some c.1 else s.holder) = some c'.1).2 ⟨fun _ ↦ hholder, ?_⟩
    intro c' hne hw
    -- no other thread of the process is in `rpt`
    have hp := hgranted _ (h.holder c' hw)
    exact absurd (h.eq_of_process (RptPhase.ne_idle_of_writes hw) hin hp) hne
  · refine h.fits_update fun r' hr' ↦ ?_
    cases hr'
    exact h.fits c r (by rw [hphase]; rfl)

/-- The file lock is released by the one thread that writes. -/
theorem Guarded.unfcntl (h : Guarded tr s) (hs : oamokLog.step s (.unfcntl c) = some (s', ())) :
    Guarded (tr ++ [⟨s, .unfcntl c, (), s'⟩]) s' := by
  obtain ⟨hphase, rfl⟩ := step_unfcntl hs
  have hwrites : (s.phase c).writes = true := by rw [hphase]; rfl
  refine h.of_not_written hphase rfl rfl rfl rfl rfl ?_ ?_ ?_
  · exact h.mutex_update (RptPhase.ne_idle_of_writes hwrites) .unmutex
  · refine (Function.forall_update_iff s.phase fun c' p' ↦ p'.writes = true →
      (if s.holder = some c.1 then none else s.holder) = some c'.1).2 ⟨?_, ?_⟩
    · intro hw
      cases hw
    · exact fun c' hne hw ↦ absurd (h.eq_of_writes hw hwrites) hne
  · refine h.fits_update fun r' hr' ↦ ?_
    cases hr'

/-- The mutex is released by the one thread of its process in `rpt`. -/
theorem Guarded.unmutex (h : Guarded tr s) (hs : oamokLog.step s (.unmutex c) = some (s', ())) :
    Guarded (tr ++ [⟨s, .unmutex c, (), s'⟩]) s' := by
  obtain ⟨hphase, rfl⟩ := step_unmutex hs
  have hin : s.phase c ≠ .idle := by rw [hphase]; exact RptPhase.noConfusion
  refine h.of_not_written hphase rfl rfl rfl rfl rfl ?_ ?_ ?_
  · refine (Function.forall_update_iff s.phase fun c' p' ↦ p' ≠ .idle →
      Function.update s.mutex c.1 none c'.1 = some c'.2).2 ⟨fun hidle ↦ absurd rfl hidle, ?_⟩
    intro c' hne hc'
    have hp : c'.1 ≠ c.1 := fun heq ↦ hne (h.eq_of_process hc' hin heq)
    rw [Function.update_of_ne hp]
    exact h.mutex c' hc'
  · refine h.holder_update ?_
    intro hw
    cases hw
  · refine h.fits_update fun r' hr' ↦ ?_
    cases hr'

/-- The step that writes the record: the log gains it, and lacks its newline where there is to be
one. -/
theorem Guarded.record (h : Guarded tr s) (hs : oamokLog.step s (.record c) = some (s', ())) :
    Guarded (tr ++ [⟨s, .record c, (), s'⟩]) s' := by
  obtain ⟨r, hphase, hs'⟩ := step_record hs
  have hwrites : (s.phase c).writes = true := by rw [hphase]; rfl
  have hwritten : r.written = r.record := Report.written_of_lt (h.fits c r (by rw [hphase]; rfl))
  -- nobody else is between record and newline, so the log is complete lines
  have hbefore : s.log = tr.flatMap lineOf := by
    refine h.between fun c' r' heq ↦ ?_
    rcases eq_or_ne c' c with rfl | hne
    · rw [hphase] at heq
      cases heq
    · exact h.ne_newline hwrites hne r' heq
  have hline : lineOf ⟨s, .record c, (), s'⟩ = logLine c r := by
    show (match s.phase c with | .record r => logLine c r | _ => []) = logLine c r
    rw [hphase]
  have hlines := flatMap_lineOf_append tr ⟨s, .record c, (), s'⟩
  rw [hline, ← hbefore] at hlines
  rw [hwritten] at hs'
  subst hs'
  refine ⟨?_, ?_, ?_, ?_, ?_⟩
  · exact h.mutex_update (RptPhase.ne_idle_of_writes hwrites) _
  · exact h.holder_update fun _ ↦ h.holder c hwrites
  · refine h.fits_update fun r' hr' ↦ ?_
    split at hr' <;> cases hr'
  · -- the record had its newline: the line is complete
    intro hnone
    have hlacks : lacksNewline r.record = false := by
      refine Bool.eq_false_iff.2 fun htrue ↦ hnone c r ?_
      show Function.update s.phase c _ c = _
      rw [Function.update_self, if_pos htrue]
    rw [hlines, logLine, hlacks]
    rfl
  · intro c' r' heq
    change Function.update s.phase c _ c' = _ at heq
    rcases eq_or_ne c' c with rfl | hne
    · -- it had none: this caller is now the one between record and newline
      have hlacks : lacksNewline r.record = true := by
        by_contra hfalse
        rw [Function.update_self, if_neg hfalse] at heq
        cases heq
      rw [hlines, logLine, hlacks]
      exact List.append_assoc _ _ _
    · rw [Function.update_of_ne hne] at heq
      exact absurd heq (h.ne_newline hwrites hne r')

/-- The step that writes the newline: it is the one that the log lacks. -/
theorem Guarded.newline (h : Guarded tr s) (hs : oamokLog.step s (.newline c) = some (s', ())) :
    Guarded (tr ++ [⟨s, .newline c, (), s'⟩]) s' := by
  obtain ⟨r, hphase, hs'⟩ := step_newline hs
  have hwrites : (s.phase c).writes = true := by rw [hphase]; rfl
  have hlines := flatMap_lineOf_append tr ⟨s, .newline c, (), s'⟩
  rw [show lineOf _ = [] from rfl, List.append_nil] at hlines
  subst hs'
  refine ⟨?_, ?_, ?_, ?_, ?_⟩
  · exact h.mutex_update (RptPhase.ne_idle_of_writes hwrites) .unfcntl
  · exact h.holder_update fun _ ↦ h.holder c hwrites
  · refine h.fits_update fun r' hr' ↦ ?_
    cases hr'
  · intro _
    rw [hlines]
    exact h.pending c r hphase
  · intro c' r' heq
    change Function.update s.phase c _ c' = _ at heq
    rcases eq_or_ne c' c with rfl | hne
    · rw [Function.update_self] at heq
      cases heq
    · rw [Function.update_of_ne hne] at heq
      exact absurd heq (h.ne_newline hwrites hne r')

/-- **Each step whose request is granted preserves the invariant.** -/
theorem Guarded.step {i : RptStep π τ} {o : Unit} (h : Guarded tr s)
    (hs : oamokLog.step s i = some (s', o)) (hgranted : Granted ⟨s, i, o, s'⟩) :
    Guarded (tr ++ [⟨s, i, o, s'⟩]) s' := by
  cases i with
  | lock c r => exact h.lock hs hgranted
  | fcntl c => exact h.fcntl hs hgranted
  | record c => exact h.record hs
  | newline c => exact h.newline hs
  | unfcntl c => exact h.unfcntl hs
  | unmutex c => exact h.unmutex hs

/-! ### Complete lines -/

/-- A step leaves the other threads where they are. -/
theorem phase_of_ne_caller {i : RptStep π τ} {o : Unit}
    (hs : oamokLog.step s i = some (s', o)) (hne : c ≠ i.caller) : s'.phase c = s.phase c := by
  cases i with
  | lock c' r =>
    simp only [oamokLog] at hs
    split at hs <;> cases hs
    exact Function.update_of_ne hne _ _
  | fcntl c' | record c' | newline c' | unfcntl c' | unmutex c' =>
    simp only [oamokLog] at hs
    split at hs <;> cases hs
    exact Function.update_of_ne hne _ _

/-- A thread that has taken no step is not in `rpt`. -/
theorem phase_of_forall_ne (hrun : oamokLog.Run LogState.start tr s)
    (h : ∀ e ∈ tr, c ≠ e.input.caller) : s.phase c = .idle := by
  refine hrun.invariant (I := fun tr s ↦ (∀ e ∈ tr, c ≠ e.input.caller) → s.phase c = .idle)
    (fun _ ↦ rfl) ?_ h
  intro tr s i s' o ih hs hne
  rw [List.forall_mem_append, List.forall_mem_singleton] at hne
  rw [phase_of_ne_caller hs hne.2]
  exact ih hne.1

/-- **The log consists of complete lines.** Whenever no call is under way, the log is the lines of
the records written so far, if each request for the file lock has been made while no other process
had it, and no text was longer than the buffer. -/
theorem completeLines_of_granted (hrun : oamokLog.Run LogState.start tr s)
    (hgranted : ∀ e ∈ tr, Granted e) :
    ∀ before e after, tr = before ++ e :: after → e.post.Quiescent →
      CompleteLines (before ++ [e]) e.post := by
  intro before e after htr hquiet
  have hguarded := hrun.always_of_forall (I := Guarded) (C := fun _ e ↦ Granted e) guarded_start
    (fun _ _ _ _ _ h hs hg ↦ h.step hs hg) (Machine.forall_split_iff_forall_mem.2 hgranted)
    before e after htr
  refine hguarded.between fun c r heq ↦ ?_
  rw [hquiet c] at heq
  cases heq

end Steps

/-! ### Two processes -/

/-- No call is under way when those of the only two threads have ended. -/
theorem quiescent_of_callers {tr : List (LogEvent ℕ ℕ)} {s : LogState ℕ ℕ} {a b : ℕ × ℕ}
    (hrun : oamokLog.Run LogState.start tr s)
    (hcaller : ∀ e ∈ tr, e.input.caller = a ∨ e.input.caller = b) (ha : s.phase a = .idle)
    (hb : s.phase b = .idle) : s.Quiescent := by
  intro c
  rcases eq_or_ne c a with rfl | hca
  · exact ha
  rcases eq_or_ne c b with rfl | hcb
  · exact hb
  refine phase_of_forall_ne hrun fun e he ↦ ?_
  rcases hcaller e he with heq | heq
  · rw [heq]; exact hca
  · rw [heq]; exact hcb

instance [DecidableEq π] (e : LogEvent π τ) : Decidable (Granted e) :=
  match he : e.input with
  | .lock _ r => decidable_of_iff (r.text.length < 1024) (by rw [Granted, he])
  | .fcntl c => decidable_of_iff (e.pre.holder.all (· = c.1))
      (by rw [Granted, he]; simp [Option.all_eq_true])
  | .record _ | .newline _ | .unfcntl _ | .unmutex _ => isTrue (by rw [Granted, he]; trivial)

/-- A text of one letter. -/
def letter (b : UInt8) : Report where
  text := [b]
  singleLine := false
  beyond := []

/-- One call, from start to end. -/
def wholeCall (c : ℕ × ℕ) (r : Report) : List (RptStep ℕ ℕ) :=
  [.lock c r, .fcntl c, .record c, .newline c, .unfcntl c, .unmutex c]

/-- One call after the other. -/
def serialSteps : List (RptStep ℕ ℕ) :=
  wholeCall (0, 0) (letter 65) ++ wholeCall (1, 0) (letter 66)

def serialRun : List (LogEvent ℕ ℕ) × LogState ℕ ℕ :=
  (oamokLog.replay .start serialSteps).getD ([], .start)

theorem run_serialRun : oamokLog.Run .start serialRun.1 serialRun.2 :=
  Machine.run_getD_replay rfl

theorem quiescent_serialRun : serialRun.2.Quiescent :=
  quiescent_of_callers run_serialRun (a := (0, 0)) (b := (1, 0)) (by decide) rfl rfl

/-- The log that is left is that of the two calls, one line each. -/
theorem completeLines_of_granted_serialRun : CompleteLines serialRun.1 serialRun.2 :=
  completeLines_of_granted run_serialRun (by decide) serialRun.1.dropLast
    (serialRun.1.getLast (by decide)) [] rfl quiescent_serialRun

/-- The second process asks for the file lock, and is refused, between the two writes of the
first. -/
def overlappingSteps : List (RptStep ℕ ℕ) :=
  [.lock (0, 0) (letter 65), .fcntl (0, 0), .record (0, 0)] ++ wholeCall (1, 0) (letter 66) ++
    [.newline (0, 0), .unfcntl (0, 0), .unmutex (0, 0)]

def overlappingRun : List (LogEvent ℕ ℕ) × LogState ℕ ℕ :=
  (oamokLog.replay .start overlappingSteps).getD ([], .start)

theorem run_overlappingRun : oamokLog.Run .start overlappingRun.1 overlappingRun.2 :=
  Machine.run_getD_replay rfl

theorem quiescent_overlappingRun : overlappingRun.2.Quiescent :=
  quiescent_of_callers run_overlappingRun (a := (0, 0)) (b := (1, 0)) (by decide) rfl rfl

/-- The log that is left is `AB`, and then both newlines. -/
theorem not_completeLines_overlappingRun :
    oamokLog.Run .start overlappingRun.1 overlappingRun.2 ∧ overlappingRun.2.Quiescent ∧
      (overlappingRun.2.log.flatMap fun w ↦ w.bytes) = [65, 66, 10, 10] ∧
      ¬ CompleteLines overlappingRun.1 overlappingRun.2 := by
  refine ⟨run_overlappingRun, quiescent_overlappingRun, rfl, fun h ↦ ?_⟩
  have hlines : overlappingRun.2.log ≠ overlappingRun.1.flatMap lineOf := by decide
  exact hlines h

end MqExits.Oam
