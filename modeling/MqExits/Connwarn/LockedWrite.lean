import MqExits.Connwarn.LogEntry
import MqExits.Runs.Machine
import MqExits.Text.Stdio
import Mathlib.Logic.Function.Basic

/-!
# Writing the log under a lock

On UNIX `writeOutputEntry` opens the log, locks it, prints an entry with `fprintf`, unlocks it and
closes it. But `fprintf` prints to a buffer. What is left in the buffer at the end of an entry is
written when the file is closed, and by then the lock has been released. The result of `flock` is
not looked at either.

Any number of callers do this at the same time, one of the five kinds of steps at a time. Each of
them opens the file for itself, so that the lock keeps all the others out. **The bytes of a run are
appended under the lock** exactly as long as a caller without the lock fills no buffer, and every
entry ends where a buffer does (`appendsLocked_iff`).

## The lock

`flock` waits until nobody else has the lock, or fails: it may return without it at any time, and
the caller goes on all the same (`WriteStep.flock`). So a caller can be printing with the lock or
without, which is what its phase records.

## The buffer

What a caller has printed so far goes to the file in pieces of the size of the buffer, the rest at
the close. The size is any positive number. That a piece goes out at the very step that completes it
is the assumption of `Stdio`; which step that is matters here, as the lock is held at some and not
at others.
-/

namespace MqExits.Connwarn

open CText Function Stdio

/-! ### The calls of `fprintf` -/

/-- The texts that `writeOutputEntry` prints. -/
def outputTexts (v : LogValues) : List Bytes :=
  [lit "-" ++ lit "\n",
    lit "  timestamp: \"" ++ printS v.timestamp ++ lit "\"\n",
    lit "  remote_conname: \"" ++ printS v.conname ++ lit "\"\n",
    lit "  remote_appuser: \"" ++ printS v.remoteAppUser ++ lit "\"\n",
    lit "  remote_version: \"" ++ printWidth 8 8 v.remoteVersion ++ lit "\"\n",
    lit "  remote_product: \"" ++ printWidth 4 4 v.remoteProduct ++ lit "\"\n",
    lit "  remote_product_decode: \"" ++ printS (remoteProductDecode v.remoteProduct) ++
      lit "\"\n",
    lit "  MQCD_set: " ++ trueFalse v.CDset ++ lit "\n",
    lit "  MQCD_user: \"" ++ printS (if v.CDset then v.CDUser else []) ++ lit "\"\n",
    lit "  MQCSP_set: " ++ trueFalse v.CSPSet ++ lit "\n",
    if v.CSPSet then lit "  MQCSP_user: \"" ++ printPrec v.CSPUserLen v.CSPUser ++ lit "\"\n"
    else lit "  MQCSP_user: \"\"" ++ lit "\n",
    lit "  MQCD_MQCSP_identical: " ++ trueFalse v.identicalCDCSP ++ lit "\n",
    lit "  MQCSP_valid: " ++ trueFalse v.CSPValid ++ lit "\n"]

theorem flatten_outputTexts (v : LogValues) : (outputTexts v).flatten = outputEntry v := by
  simp only [outputTexts, outputEntry, List.flatten_cons, List.flatten_nil, List.append_nil,
    List.append_assoc]

/-- What the first `k` calls print. -/
def printed (v : LogValues) (k : ℕ) : Bytes :=
  ((outputTexts v).take k).flatten

theorem printed_succ {v : LogValues} {k : ℕ} {text : Bytes}
    (h : (outputTexts v)[k]? = some text) : printed v (k + 1) = printed v k ++ text := by
  rw [printed, List.take_add_one, h, List.flatten_append]
  simp [printed]

theorem printed_length (v : LogValues) : printed v (outputTexts v).length = outputEntry v := by
  rw [printed, List.take_length, flatten_outputTexts]

/-! ### The callers -/

/-- Where a caller is in `writeOutputEntry`. -/
inductive WritePhase
  | idle
  /-- The file is open; the lock comes next. -/
  | opened (v : LogValues)
  /-- The first `k` texts have been printed, and `buf` is in the buffer. -/
  | printing (v : LogValues) (k : ℕ) (granted : Bool) (buf : Bytes)
  | unlocked (v : LogValues) (buf : Bytes)

/-- What a caller has in its buffer. -/
def WritePhase.buffer : WritePhase → Bytes
  | .printing _ _ _ buf | .unlocked _ buf => buf
  | .idle | .opened _ => []

/-- What a caller has printed of its entry. -/
def WritePhase.soFar : WritePhase → Bytes
  | .printing v k _ _ => printed v k
  | .unlocked v _ => outputEntry v
  | .idle | .opened _ => []

/-- The caller has been granted the lock and has not released it. -/
def WritePhase.hasLock : WritePhase → Bool
  | .printing _ _ granted _ => granted
  | .idle | .opened _ | .unlocked _ _ => false

variable {ω : Type}

/-- The log file and those who write to it. -/
structure LogWriters (ω : Type) where
  file : Bytes
  /-- Who has the lock. -/
  holder : Option ω
  phase : ω → WritePhase

def LogWriters.start (file : Bytes) : LogWriters ω where
  file := file
  holder := none
  phase _ := .idle

/-- The steps of `writeOutputEntry`. `flock` waits until it is granted the lock, or returns without
it. -/
inductive WriteStep (ω : Type)
  | fopen (c : ω) (v : LogValues)
  | flock (c : ω) (granted : Bool)
  | fprintf (c : ω)
  | unlock (c : ω)
  | fclose (c : ω)

/-- Who takes the step. -/
def WriteStep.caller : WriteStep ω → ω
  | .fopen c _ | .flock c _ | .fprintf c | .unlock c | .fclose c => c

/-- The callers, one step of one of them at a time. The output is what is appended to the file. -/
def logWriters [DecidableEq ω] (capacity : ℕ) : Machine (LogWriters ω) (WriteStep ω) Bytes where
  step s
    | .fopen c v =>
      match s.phase c with
      | .idle => some ({ s with phase := update s.phase c (.opened v) }, [])
      | _ => none
    | .flock c granted =>
      match s.phase c with
      | .opened v =>
        if granted = true ∧ s.holder ≠ none then none
        else some ({ s with
          holder := if granted then some c else s.holder
          phase := update s.phase c (.printing v 0 granted []) }, [])
      | _ => none
    | .fprintf c =>
      match s.phase c with
      | .printing v k granted buf =>
        match (outputTexts v)[k]? with
        | some text =>
          let put := put capacity buf text
          some ({ s with
            file := s.file ++ put.1
            phase := update s.phase c (.printing v (k + 1) granted put.2) }, put.1)
        | none => none
      | _ => none
    | .unlock c =>
      match s.phase c with
      | .printing v k _ buf =>
        if k = (outputTexts v).length then some ({ s with
          holder := if s.holder = some c then none else s.holder
          phase := update s.phase c (.unlocked v buf) }, [])
        else none
      | _ => none
    | .fclose c =>
      match s.phase c with
      | .unlocked _ buf => some ({ s with
          file := s.file ++ buf
          phase := update s.phase c .idle }, buf)
      | _ => none

/-- A step of that machine. -/
abbrev WriteEvent (ω : Type) := Machine.Event (LogWriters ω) (WriteStep ω) Bytes

section Steps

variable [DecidableEq ω] {capacity : ℕ} {s s' : LogWriters ω} {c : ω} {out : Bytes}

theorem step_fopen {v : LogValues}
    (hs : (logWriters capacity).step s (.fopen c v) = some (s', out)) :
    s.phase c = .idle ∧ s' = { s with phase := update s.phase c (.opened v) } ∧ out = [] := by
  simp only [logWriters] at hs
  split at hs
  case h_1 hphase =>
    obtain ⟨rfl, rfl⟩ := Prod.mk.inj (Option.some.inj hs)
    exact ⟨hphase, rfl, rfl⟩
  case h_2 => cases hs

theorem step_flock {granted : Bool}
    (hs : (logWriters capacity).step s (.flock c granted) = some (s', out)) :
    ∃ v, s.phase c = .opened v ∧ (granted = true → s.holder = none) ∧ s' = { s with
      holder := if granted then some c else s.holder
      phase := update s.phase c (.printing v 0 granted []) } ∧ out = [] := by
  simp only [logWriters] at hs
  split at hs
  case h_1 v hphase =>
    by_cases hwaits : granted = true ∧ s.holder ≠ none
    · rw [if_pos hwaits] at hs
      cases hs
    · rw [if_neg hwaits] at hs
      obtain ⟨rfl, rfl⟩ := Prod.mk.inj (Option.some.inj hs)
      refine ⟨v, hphase, fun hgranted ↦ ?_, rfl, rfl⟩
      by_contra hheld
      exact hwaits ⟨hgranted, hheld⟩
  case h_2 => cases hs

theorem step_fprintf (hs : (logWriters capacity).step s (.fprintf c) = some (s', out)) :
    ∃ v k granted buf text, s.phase c = .printing v k granted buf ∧
      (outputTexts v)[k]? = some text ∧ out = (put capacity buf text).1 ∧ s' = { s with
        file := s.file ++ out
        phase := update s.phase c (.printing v (k + 1) granted (put capacity buf text).2) } := by
  simp only [logWriters] at hs
  split at hs
  case h_1 v k granted buf hphase =>
    split at hs
    case h_1 text htext =>
      obtain ⟨rfl, rfl⟩ := Prod.mk.inj (Option.some.inj hs)
      exact ⟨v, k, granted, buf, text, hphase, htext, rfl, rfl⟩
    case h_2 => cases hs
  case h_2 => cases hs

theorem step_unlock (hs : (logWriters capacity).step s (.unlock c) = some (s', out)) :
    ∃ v granted buf, s.phase c = .printing v (outputTexts v).length granted buf ∧ s' = { s with
      holder := if s.holder = some c then none else s.holder
      phase := update s.phase c (.unlocked v buf) } ∧ out = [] := by
  simp only [logWriters] at hs
  split at hs
  case h_1 v k granted buf hphase =>
    by_cases hk : k = (outputTexts v).length
    · rw [if_pos hk] at hs
      obtain ⟨rfl, rfl⟩ := Prod.mk.inj (Option.some.inj hs)
      exact ⟨v, granted, buf, hk ▸ hphase, rfl, rfl⟩
    · rw [if_neg hk] at hs
      cases hs
  case h_2 => cases hs

theorem step_fclose (hs : (logWriters capacity).step s (.fclose c) = some (s', out)) :
    ∃ v, s.phase c = .unlocked v out ∧ s' = { s with
      file := s.file ++ out
      phase := update s.phase c .idle } := by
  simp only [logWriters] at hs
  split at hs
  case h_1 v buf hphase =>
    obtain ⟨rfl, rfl⟩ := Prod.mk.inj (Option.some.inj hs)
    exact ⟨v, hphase, rfl⟩
  case h_2 => cases hs

/-- The others stay where they are. -/
theorem phase_of_ne {i : WriteStep ω} (hs : (logWriters capacity).step s i = some (s', out))
    (hne : c ≠ i.caller) : s'.phase c = s.phase c := by
  cases i with
  | fopen c' v =>
    obtain ⟨-, rfl, -⟩ := step_fopen hs
    exact update_of_ne hne ..
  | flock c' granted =>
    obtain ⟨v, -, -, rfl, -⟩ := step_flock hs
    exact update_of_ne hne ..
  | fprintf c' =>
    obtain ⟨v, k, granted, buf, text, -, -, -, rfl⟩ := step_fprintf hs
    exact update_of_ne hne ..
  | unlock c' =>
    obtain ⟨v, granted, buf, -, rfl, -⟩ := step_unlock hs
    exact update_of_ne hne ..
  | fclose c' =>
    obtain ⟨v, -, rfl⟩ := step_fclose hs
    exact update_of_ne hne ..

end Steps

/-! ### The invariant -/

/-- The lock is with the caller that has been granted it, and the buffers hold as much as the
lengths of what was printed say. -/
structure Follows (capacity : ℕ) (s : LogWriters ω) : Prop where
  holder : ∀ c, s.holder = some c ↔ (s.phase c).hasLock = true
  buffer : ∀ c, (s.phase c).buffer.length = (s.phase c).soFar.length % capacity

theorem follows_start (capacity : ℕ) (file : Bytes) :
    Follows capacity (LogWriters.start file : LogWriters ω) where
  holder c := by simp [LogWriters.start, WritePhase.hasLock]
  buffer c := (Nat.zero_mod capacity).symm

variable [DecidableEq ω] {capacity : ℕ}

/-- One caller goes on to another phase, and the lock stays with the others or not with them. -/
theorem Follows.of_update {s s' : LogWriters ω} (h : Follows capacity s) {c : ω} {p : WritePhase}
    (hphase : s'.phase = update s.phase c p)
    (hbuffer : p.buffer.length = p.soFar.length % capacity)
    (hself : s'.holder = some c ↔ p.hasLock = true)
    (hothers : ∀ c', c' ≠ c → (s'.holder = some c' ↔ s.holder = some c')) :
    Follows capacity s' := by
  constructor
  · intro c'
    rw [hphase]
    rcases eq_or_ne c' c with rfl | hne
    · rw [update_self]
      exact hself
    · rw [update_of_ne hne, hothers c' hne]
      exact h.holder c'
  · intro c'
    rw [hphase]
    rcases eq_or_ne c' c with rfl | hne
    · rw [update_self]
      exact hbuffer
    · rw [update_of_ne hne]
      exact h.buffer c'

/-- **One step keeps the invariant.** -/
theorem Follows.step (hcapacity : 0 < capacity) {s s' : LogWriters ω} {i : WriteStep ω}
    {out : Bytes} (h : Follows capacity s)
    (hs : (logWriters capacity).step s i = some (s', out)) : Follows capacity s' := by
  cases i with
  | fopen c v =>
    obtain ⟨hphase, rfl, -⟩ := step_fopen hs
    have hno : ¬ s.holder = some c := by
      rw [h.holder, hphase]
      exact Bool.false_ne_true
    exact h.of_update rfl (Nat.zero_mod capacity).symm (iff_of_false hno Bool.false_ne_true)
      fun c' _ ↦ Iff.rfl
  | flock c granted =>
    obtain ⟨v, hphase, hfree, rfl, -⟩ := step_flock hs
    have hno : ¬ s.holder = some c := by
      rw [h.holder, hphase]
      exact Bool.false_ne_true
    refine h.of_update rfl (Nat.zero_mod capacity).symm ?_ fun c' hne ↦ ?_
    · cases granted
      · exact iff_of_false hno Bool.false_ne_true
      · exact iff_of_true rfl rfl
    · cases granted
      · exact Iff.rfl
      · -- it is granted only if nobody has the lock, so no other caller loses it
        show some c = some c' ↔ _
        rw [hfree rfl]
        simp [hne.symm]
  | fprintf c =>
    obtain ⟨v, k, granted, buf, text, hphase, htext, -, rfl⟩ := step_fprintf hs
    have hbuf := h.buffer c
    have hholder := h.holder c
    rw [hphase] at hbuf hholder
    refine h.of_update rfl ?_ hholder fun c' _ ↦ Iff.rfl
    -- what is left in the buffer is what does not make up a whole buffer
    show _ = (printed v (k + 1)).length % capacity
    rw [printed_succ htext, List.length_append]
    exact length_put_snd hcapacity hbuf text
  | unlock c =>
    obtain ⟨v, granted, buf, hphase, rfl, -⟩ := step_unlock hs
    have hbuf := h.buffer c
    rw [hphase] at hbuf
    refine h.of_update rfl ?_ ?_ fun c' hne ↦ ?_
    · show buf.length = (outputEntry v).length % capacity
      rw [← printed_length]
      exact hbuf
    · refine iff_of_false ?_ Bool.false_ne_true
      -- unlocking gives up the caller's own lock, and nobody else's
      show ¬ (if s.holder = some c then none else s.holder) = some c
      split_ifs with hheld
      · simp
      · exact hheld
    · show (if s.holder = some c then none else s.holder) = some c' ↔ _
      split_ifs with hheld
      · rw [hheld]
        simp [hne.symm]
      · rfl
  | fclose c =>
    obtain ⟨v, hphase, rfl⟩ := step_fclose hs
    have hholder := h.holder c
    rw [hphase] at hholder
    exact h.of_update rfl (Nat.zero_mod capacity).symm hholder fun c' _ ↦ Iff.rfl

/-! ### What a caller appends -/

/-- What the step appends for the caller. -/
def appendedBy (c : ω) (e : WriteEvent ω) : Bytes :=
  if e.input.caller = c then e.output else []

/-- The entry of the caller that the step completes. -/
def completedBy (c : ω) (e : WriteEvent ω) : Bytes :=
  match e.input with
  | .fclose c' => if c' = c then (e.pre.phase c).soFar else []
  | _ => []

/-- One step appends what it completes, up to what is in the buffer before and after it. -/
theorem appendedBy_buffer {s s' : LogWriters ω} {i : WriteStep ω} {out : Bytes}
    (hs : (logWriters capacity).step s i = some (s', out)) (c : ω) {done entries : Bytes}
    (h : done ++ (s.phase c).buffer = entries ++ (s.phase c).soFar) :
    done ++ appendedBy c ⟨s, i, out, s'⟩ ++ (s'.phase c).buffer =
      entries ++ completedBy c ⟨s, i, out, s'⟩ ++ (s'.phase c).soFar := by
  rcases eq_or_ne i.caller c with rfl | hne
  · cases i with
    | fopen c v =>
      obtain ⟨hphase, rfl, rfl⟩ := step_fopen hs
      rw [show (WriteStep.fopen c v).caller = c from rfl, hphase] at h
      simpa [appendedBy, completedBy, WriteStep.caller, WritePhase.buffer, WritePhase.soFar] using h
    | flock c granted =>
      obtain ⟨v, hphase, -, rfl, rfl⟩ := step_flock hs
      rw [show (WriteStep.flock c granted).caller = c from rfl, hphase] at h
      simpa [appendedBy, completedBy, WriteStep.caller, WritePhase.buffer, WritePhase.soFar,
        printed] using h
    | fprintf c =>
      obtain ⟨v, k, granted, buf, text, hphase, htext, rfl, rfl⟩ := step_fprintf hs
      rw [show (WriteStep.fprintf c).caller = c from rfl, hphase] at h
      have h : done ++ buf = entries ++ printed v k := h
      simp only [appendedBy, completedBy, WriteStep.caller, if_true, update_self,
        WritePhase.buffer, WritePhase.soFar, List.append_nil]
      -- what is written and what is left are what was there and the text
      rw [List.append_assoc, append_put, ← List.append_assoc, h, printed_succ htext,
        List.append_assoc]
    | unlock c =>
      obtain ⟨v, granted, buf, hphase, rfl, rfl⟩ := step_unlock hs
      rw [show (WriteStep.unlock c).caller = c from rfl, hphase] at h
      have h : done ++ buf = entries ++ printed v (outputTexts v).length := h
      rw [printed_length] at h
      simpa [appendedBy, completedBy, WriteStep.caller, WritePhase.buffer, WritePhase.soFar] using h
    | fclose c =>
      obtain ⟨v, hphase, rfl⟩ := step_fclose hs
      rw [show (WriteStep.fclose c).caller = c from rfl, hphase] at h
      have h : done ++ out = entries ++ outputEntry v := h
      simpa [appendedBy, completedBy, WriteStep.caller, WritePhase.buffer, WritePhase.soFar,
        hphase] using h
  · have hsame := phase_of_ne hs hne.symm
    -- the step of another caller completes no entry of this one
    have hcompleted : completedBy c ⟨s, i, out, s'⟩ = [] := by
      cases i with
      | fclose c' => exact if_neg hne
      | _ => rfl
    rw [appendedBy, if_neg hne, hcompleted, hsame, List.append_nil, List.append_nil]
    exact h

/-- **A caller appends its entries**, whole and in order, whatever the others do: what it has
appended and has in its buffer is what it has completed and what it has printed since. -/
theorem flatMap_appendedBy {file : Bytes} {tr : List (WriteEvent ω)} {s : LogWriters ω}
    (h : (logWriters capacity).Run (.start file) tr s) (c : ω) :
    tr.flatMap (appendedBy c) ++ (s.phase c).buffer =
      tr.flatMap (completedBy c) ++ (s.phase c).soFar := by
  refine h.invariant (I := fun tr s ↦ tr.flatMap (appendedBy c) ++ (s.phase c).buffer =
    tr.flatMap (completedBy c) ++ (s.phase c).soFar) rfl fun tr s i s' out hI hs ↦ ?_
  rw [List.flatMap_append, List.flatMap_append, List.flatMap_singleton, List.flatMap_singleton]
  exact appendedBy_buffer hs c hI

/-! ### The property -/

/-- What the step appends is appended by the one who has the lock. -/
def AppendsLocked (e : WriteEvent ω) : Prop :=
  e.output ≠ [] → e.pre.holder = some e.input.caller

/-- A text is printed under the lock, or fills no buffer; and an entry that is closed ends where a
buffer does. -/
def FlushedInTime (capacity : ℕ) (e : WriteEvent ω) : Prop :=
  match e.input, e.pre.phase e.input.caller with
  | .fprintf _, .printing v k granted _ =>
    granted = true ∨ (printed v (k + 1)).length / capacity = (printed v k).length / capacity
  | .fclose _, .unlocked v _ => capacity ∣ (outputEntry v).length
  | _, _ => True

instance (capacity : ℕ) (e : WriteEvent ω) : Decidable (FlushedInTime capacity e) := by
  rw [FlushedInTime]
  split <;> infer_instance

theorem appendsLocked_iff_of_step (hcapacity : 0 < capacity) {s s' : LogWriters ω}
    {i : WriteStep ω} {out : Bytes} (h : Follows capacity s)
    (hs : (logWriters capacity).step s i = some (s', out)) :
    AppendsLocked ⟨s, i, out, s'⟩ ↔ FlushedInTime capacity ⟨s, i, out, s'⟩ := by
  cases i with
  | fopen c v =>
    obtain ⟨-, -, rfl⟩ := step_fopen hs
    exact iff_of_true (fun hne ↦ absurd rfl hne) trivial
  | flock c granted =>
    obtain ⟨v, -, -, -, rfl⟩ := step_flock hs
    exact iff_of_true (fun hne ↦ absurd rfl hne) trivial
  | unlock c =>
    obtain ⟨v, granted, buf, -, -, rfl⟩ := step_unlock hs
    exact iff_of_true (fun hne ↦ absurd rfl hne) trivial
  | fprintf c =>
    obtain ⟨v, k, granted, buf, text, hphase, htext, rfl, -⟩ := step_fprintf hs
    have hholder := h.holder c
    rw [hphase] at hholder
    have hbuf : buf.length = (printed v k).length % capacity := by
      have hbuf := h.buffer c
      rwa [hphase] at hbuf
    have hwrites := put_fst_eq_nil_iff hcapacity hbuf text
    -- something is written exactly if a buffer is filled
    show ((put capacity buf text).1 ≠ [] → s.holder = some c) ↔ _
    rw [hholder, ne_eq, hwrites]
    simp only [FlushedInTime, WriteStep.caller, hphase, printed_succ htext, List.length_append]
    show (¬ _ → granted = true) ↔ _
    rw [← or_iff_not_imp_left, or_comm]
  | fclose c =>
    obtain ⟨v, hphase, -⟩ := step_fclose hs
    have hbuf := h.buffer c
    have hholder := h.holder c
    rw [hphase] at hbuf hholder
    -- the lock has been released, so nothing may be left in the buffer
    have hno : ¬ s.holder = some c := by
      rw [hholder]
      exact Bool.false_ne_true
    show (out ≠ [] → s.holder = some c) ↔ _
    simp only [FlushedInTime, WriteStep.caller, hphase, hno, imp_false, not_not]
    rw [Nat.dvd_iff_mod_eq_zero, ← List.length_eq_zero_iff]
    exact ⟨fun hnil ↦ hbuf.symm.trans hnil, fun hmod ↦ hbuf.trans hmod⟩

theorem appendsLocked_iff_of_mem (hcapacity : 0 < capacity) {file : Bytes}
    {tr : List (WriteEvent ω)} {s : LogWriters ω}
    (h : (logWriters capacity).Run (.start file) tr s) :
    ∀ e ∈ tr, (AppendsLocked e ↔ FlushedInTime capacity e) :=
  Machine.forall_split_iff_forall_mem.1 <|
    h.forall_split (I := fun _ s ↦ Follows capacity s)
      (P := fun _ e ↦ AppendsLocked e ↔ FlushedInTime capacity e) (follows_start capacity file)
      (fun _ _ _ _ _ hI hs ↦ hI.step hcapacity hs)
      fun _ _ _ _ _ hI hs ↦ appendsLocked_iff_of_step hcapacity hI hs

/-- **When the bytes of a run are appended under the lock**: a caller without it fills no buffer,
and the buffer is empty when an entry has been printed. -/
theorem appendsLocked_iff (hcapacity : 0 < capacity) {file : Bytes}
    {tr : List (WriteEvent ω)} {s : LogWriters ω}
    (h : (logWriters capacity).Run (.start file) tr s) :
    (∀ e ∈ tr, AppendsLocked e) ↔ ∀ e ∈ tr, FlushedInTime capacity e :=
  forall₂_congr (appendsLocked_iff_of_mem hcapacity h)

/-! ### A single entry -/

/-- A connection from nowhere. -/
def LogValues.sample : LogValues where
  timestamp := lit "2024-01-01T00:00:00+0000"
  conname := lit "127.0.0.1"
  remoteAppUser := lit "app"
  remoteProduct := lit "MQCC"
  remoteVersion := lit "09040000"
  CDset := false
  CDUser := lit "N/A"
  CSPSet := false
  CSPUserLen := 0
  CSPUser := []
  identicalCDCSP := false
  CSPValid := false

/-- One caller writes it, with nobody else there. -/
def aloneSteps : List (WriteStep Unit) :=
  [.fopen () .sample, .flock () true] ++ List.replicate 13 (.fprintf ()) ++
    [.unlock (), .fclose ()]

/-- The run with a buffer of some size. -/
def aloneRunWith (capacity : ℕ) : List (WriteEvent Unit) × LogWriters Unit :=
  ((logWriters capacity).replay (.start []) aloneSteps).getD ([], .start [])

def aloneRun : List (WriteEvent Unit) × LogWriters Unit :=
  aloneRunWith 4096

theorem run_aloneRun : (logWriters 4096).Run (.start []) aloneRun.1 aloneRun.2 :=
  Machine.run_getD_replay (by decide +kernel)

theorem run_aloneRunWith : (logWriters 314).Run (.start []) (aloneRunWith 314).1
    (aloneRunWith 314).2 :=
  Machine.run_getD_replay (by decide +kernel)

/-- A buffer of the length of the entry is written out by the last `fprintf`; and one of 4096 bytes
as one can tell from the steps. -/
theorem appendsLocked_iff_aloneRun :
    (∀ e ∈ (aloneRunWith 314).1, AppendsLocked e) ∧
      ((∀ e ∈ aloneRun.1, AppendsLocked e) ↔ ∀ e ∈ aloneRun.1, FlushedInTime 4096 e) :=
  ⟨(appendsLocked_iff (by decide) run_aloneRunWith).2 (by decide +kernel),
    appendsLocked_iff (by decide) run_aloneRun⟩

/-- The entry is written after the lock has been released. -/
theorem not_appendsLocked_aloneRun :
    (logWriters 4096).Run (.start []) aloneRun.1 aloneRun.2 ∧
      ¬ ∀ e ∈ aloneRun.1, AppendsLocked e := by
  refine ⟨run_aloneRun, fun h ↦ ?_⟩
  -- the entry that is closed does not end where a buffer does
  have hclosed : aloneRun.1.any fun e ↦
      match e.input, e.pre.phase () with
      | .fclose _, .unlocked v _ => (outputEntry v).length % 4096 != 0
      | _, _ => false := by
    decide +kernel
  obtain ⟨⟨s, i, out, s'⟩, he, hlength⟩ := List.any_eq_true.1 hclosed
  have hflushed := (appendsLocked_iff_of_mem (by decide) run_aloneRun _ he).1 (h _ he)
  cases i with
  | fclose c =>
    rcases hphase : s.phase () with - | v | ⟨v, k, granted, buf⟩ | ⟨v, buf⟩ <;>
      simp only [hphase] at hlength
    · cases hlength
    · cases hlength
    · cases hlength
    · rw [FlushedInTime] at hflushed
      simp only [WriteStep.caller, hphase] at hflushed
      simp [Nat.mod_eq_zero_of_dvd hflushed] at hlength
  | _ => cases hlength

end MqExits.Connwarn
