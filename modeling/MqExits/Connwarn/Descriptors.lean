import MqExits.Runs.Machine
import Mathlib.Data.Int.Basic
import Mathlib.Logic.Function.Basic

/-!
# The descriptors of `validateCredentials`

To check a password `validateCredentials` opens two pipes, forks, and closes descriptors at two
places: the ends that the parent does not need, and at the end what it has used. The second place
names `amqoampxOUTFD[0]` where it means `amqoampxOUTFD[1]`. So a call that gets as far closes one
descriptor twice and leaves another open; and by the second time the number may be that of a
descriptor another thread of the channel process has opened.

The machine is the descriptor table of the process, under any number of calls and of other threads.
The child process has a table of its own and plays no part.

## One descriptor and its number

A number is given out again when it is free, so what a call has opened and closed is counted by
number, and whose a number is at a step is what the table says before it. A close of a number that
is nobody's is an error which nobody looks at, but it is a close of what is not the call's own.

## What a call is bound for

The invariant is about one call (`Destined`). Once it is past its first checks it is to go wrong,
and what changes on the way is only what is still to be seen: it has both closes of the number
before it, or the second one and the number is no more its own, or it has done it. The other calls
and the other threads can give the number to somebody else in between, but none can make it the
call's again.
-/

namespace MqExits.Connwarn

/-! ### The table and the calls -/

/-- Who has opened a descriptor. -/
inductive Holder
  | call (t : ℕ)
  | other (thread : ℕ)
  deriving DecidableEq, Repr

/-- Where a call of `validateCredentials` is. -/
inductive Phase
  | idle
  /-- Before the first `pipe`. -/
  | opening
  /-- Before the second `pipe`, with `amqoampxINFD`. -/
  | opened (infd : ℤ × ℤ)
  /-- After the `fork`, in the parent, with the descriptors it is still to close. -/
  | closing (rest : List ℤ)
  | returned
  deriving DecidableEq, Repr

/-- The descriptor table of a process and its calls. -/
structure Descriptors where
  table : ℤ → Option Holder
  phase : ℕ → Phase

/-- A process without a call yet, and with any descriptors of other threads. -/
def Descriptors.start (others : ℤ → Option ℕ) : Descriptors where
  table fd := (others fd).map .other
  phase _ := .idle

/-- What `pipe` leaves in its array: two new descriptors, or, where it fails, what was there. -/
inductive PipeResult
  | opened (fd fd' : ℤ)
  | failed (fd fd' : ℤ)
  deriving DecidableEq, Repr

def PipeResult.fds : PipeResult → ℤ × ℤ
  | .opened fd fd' => (fd, fd')
  | .failed fd fd' => (fd, fd')

/-- The four calls of `close` in the parent, in order: two before it writes the password and reads
the response, and two after that. -/
def parentCloses (infd outfd : ℤ × ℤ) : List ℤ :=
  [outfd.1, infd.2] ++ [infd.1, outfd.1]

/-- The table after a `pipe` of the call; `none` if the result is not one of free numbers. -/
def openPipe (table : ℤ → Option Holder) (t : ℕ) : PipeResult → Option (ℤ → Option Holder)
  | .opened fd fd' =>
    if table fd = none ∧ table fd' = none ∧ fd ≠ fd' then
      some (Function.update (Function.update table fd (some (.call t))) fd' (some (.call t)))
    else none
  | .failed _ _ => some table

/-- What happens in the process. -/
inductive DescStep
  /-- A call begins; `amqoampx` is executable or not, and `malloc` succeeds or not. -/
  | enter (t : ℕ) (executable allocated : Bool)
  | pipe (t : ℕ) (r : PipeResult)
  /-- The next `close` of the call. -/
  | close (t : ℕ)
  | leave (t : ℕ)
  /-- Another thread opens a descriptor, and closes one of its own. -/
  | openOther (thread : ℕ) (fd : ℤ)
  | closeOther (thread : ℕ) (fd : ℤ)

/-- What a step does with descriptors of a call. -/
inductive DescOutput
  | opened (t : ℕ) (fds : List ℤ)
  /-- `close`, of a descriptor of its own or not. -/
  | closed (t : ℕ) (fd : ℤ) (own : Bool)
  | nothing

/-- The output of a `pipe`. -/
def PipeResult.output (t : ℕ) : PipeResult → DescOutput
  | .opened fd fd' => .opened t [fd, fd']
  | .failed _ _ => .nothing

/-- The process. -/
def descriptors : Machine Descriptors DescStep DescOutput where
  step s
    | .enter t executable allocated =>
      if s.phase t = .idle then
        let phase := if executable && allocated then .opening else .returned
        some ({ s with phase := Function.update s.phase t phase }, .nothing)
      else none
    | .pipe t r =>
      (openPipe s.table t r).bind fun table ↦
        match s.phase t with
        | .opening =>
          some (⟨table, Function.update s.phase t (.opened r.fds)⟩, r.output t)
        | .opened infd =>
          some (⟨table, Function.update s.phase t (.closing (parentCloses infd r.fds))⟩, r.output t)
        | .idle | .closing _ | .returned => none
    | .close t =>
      match s.phase t with
      | .closing (fd :: rest) =>
        some (⟨Function.update s.table fd none, Function.update s.phase t (.closing rest)⟩,
          .closed t fd (s.table fd = some (.call t)))
      | .idle | .opening | .opened _ | .closing [] | .returned => none
    | .leave t =>
      if s.phase t = .closing [] then
        some ({ s with phase := Function.update s.phase t .returned }, .nothing)
      else none
    | .openOther thread fd =>
      if s.table fd = none then
        some ({ s with table := Function.update s.table fd (some (.other thread)) }, .nothing)
      else none
    | .closeOther thread fd =>
      if s.table fd = some (.other thread) then
        some ({ s with table := Function.update s.table fd none }, .nothing)
      else none

/-- A step of that machine. -/
abbrev DescEvent := Machine.Event Descriptors DescStep DescOutput

/-! ### The property -/

/-- The descriptors that the call has opened. -/
def openedBy (tr : List DescEvent) (t : ℕ) : List ℤ :=
  tr.flatMap fun e ↦
    match e.output with
    | .opened t' fds => if t' = t then fds else []
    | .closed _ _ _ | .nothing => []

/-- The numbers that the call has closed. -/
def closedBy (tr : List DescEvent) (t : ℕ) : List ℤ :=
  tr.flatMap fun e ↦
    match e.output with
    | .closed t' fd _ => if t' = t then [fd] else []
    | .opened _ _ | .nothing => []

/-- The call has closed a number that was not one of its own descriptors then. -/
def ClosesForeign (tr : List DescEvent) (t : ℕ) : Prop :=
  ∃ e ∈ tr, ∃ fd, e.output = .closed t fd false

/-- The call has closed each descriptor it has opened once, and none that was not its own. -/
structure ClosesItsOwn (tr : List DescEvent) (t : ℕ) : Prop where
  once : ∀ fd ∈ openedBy tr t, (closedBy tr t).count fd = 1
  own : ¬ ClosesForeign tr t

/-- The call cannot execute `amqoampx`, or has no memory for the user, and opens no pipe. -/
def ReturnsEarly (tr : List DescEvent) (t : ℕ) : Prop :=
  ∃ e ∈ tr, ∃ executable allocated, e.input = .enter t executable allocated ∧
    (executable && allocated) = false

/-! ### What a step leaves -/

/-- The call that takes the step. -/
def DescStep.caller : DescStep → Option ℕ
  | .enter t _ _ | .pipe t _ | .close t | .leave t => some t
  | .openOther _ _ | .closeOther _ _ => none

/-- The call whose descriptors it is about. -/
def DescOutput.caller : DescOutput → Option ℕ
  | .opened t _ | .closed t _ _ => some t
  | .nothing => none

/-- A step of another call, or of another thread, leaves the call where it is, and gives it no
descriptor. -/
structure Unconcerned (t : ℕ) (s s' : Descriptors) (o : DescOutput) : Prop where
  phase : s'.phase t = s.phase t
  table : ∀ fd, s.table fd ≠ some (.call t) → s'.table fd ≠ some (.call t)
  output : o.caller ≠ some t

/-- Changing one entry to what is not the call's gives it no descriptor. -/
theorem update_ne_call {table : ℤ → Option Holder} {fd : ℤ} {h : Option Holder} {t : ℕ}
    (hne : h ≠ some (.call t)) {fd' : ℤ} (htable : table fd' ≠ some (.call t)) :
    Function.update table fd h fd' ≠ some (.call t) := by
  rcases eq_or_ne fd' fd with rfl | hfd
  · rwa [Function.update_self]
  · rwa [Function.update_of_ne hfd]

/-- What a `pipe` leaves for another call. -/
theorem openPipe_ne_call {table table' : ℤ → Option Holder} {t t' : ℕ} {r : PipeResult}
    (h : openPipe table t r = some table') (hne : t' ≠ t) {fd : ℤ}
    (htable : table fd ≠ some (.call t')) : table' fd ≠ some (.call t') := by
  cases r with
  | opened fd₁ fd₂ =>
    rw [openPipe] at h
    split_ifs at h
    obtain rfl := Option.some.inj h
    have hcall : some (Holder.call t) ≠ some (.call t') := by
      intro heq
      exact hne (Holder.call.inj (Option.some.inj heq)).symm
    exact update_ne_call hcall (update_ne_call hcall htable)
  | failed _ _ =>
    obtain rfl := Option.some.inj h
    exact htable

/-- **A `pipe`** takes the call one phase on. -/
theorem step_pipe {s s' : Descriptors} {t : ℕ} {r : PipeResult} {o : DescOutput}
    (h : descriptors.step s (.pipe t r) = some (s', o)) :
    o = r.output t ∧ ∃ table, openPipe s.table t r = some table ∧
      ((s.phase t = .opening ∧ s' = ⟨table, Function.update s.phase t (.opened r.fds)⟩) ∨
        ∃ infd, s.phase t = .opened infd ∧
          s' = ⟨table, Function.update s.phase t (.closing (parentCloses infd r.fds))⟩) := by
  obtain ⟨table, htable, h⟩ := Option.bind_eq_some_iff.1 h
  rcases hphase : s.phase t with - | - | infd | rest | -
  all_goals rw [hphase] at h
  · cases h
  · obtain ⟨rfl, rfl⟩ := Prod.mk.inj (Option.some.inj h)
    exact ⟨rfl, table, htable, Or.inl ⟨rfl, rfl⟩⟩
  · obtain ⟨rfl, rfl⟩ := Prod.mk.inj (Option.some.inj h)
    exact ⟨rfl, table, htable, Or.inr ⟨infd, rfl, rfl⟩⟩
  · cases h
  · cases h

/-- **A `close`** of the call is of the next number. -/
theorem step_close {s s' : Descriptors} {t : ℕ} {o : DescOutput}
    (h : descriptors.step s (.close t) = some (s', o)) :
    ∃ fd rest, s.phase t = .closing (fd :: rest) ∧
      s' = ⟨Function.update s.table fd none, Function.update s.phase t (.closing rest)⟩ ∧
      o = .closed t fd (s.table fd = some (.call t)) := by
  simp only [descriptors] at h
  split at h
  · rename_i fd rest hphase
    obtain ⟨rfl, rfl⟩ := Prod.mk.inj (Option.some.inj h)
    exact ⟨fd, rest, hphase, rfl, rfl⟩
  all_goals cases h

theorem unconcerned_of_step {s s' : Descriptors} {i : DescStep} {o : DescOutput} {t : ℕ}
    (h : descriptors.step s i = some (s', o)) (hne : i.caller ≠ some t) : Unconcerned t s s' o := by
  have hother : ∀ {t'}, some t' ≠ some t → t ≠ t' := fun hne heq ↦ hne (congrArg some heq.symm)
  cases i with
  | enter t' executable allocated =>
    simp only [descriptors] at h
    split_ifs at h
    all_goals
      obtain ⟨rfl, rfl⟩ := Prod.mk.inj (Option.some.inj h)
      exact ⟨Function.update_of_ne (hother hne) _ _, fun _ htable ↦ htable, nofun⟩
  | pipe t' r =>
    obtain ⟨rfl, table, htable, hcase⟩ := step_pipe h
    have hs' : s'.phase t = s.phase t ∧ s'.table = table := by
      rcases hcase with ⟨-, rfl⟩ | ⟨infd, -, rfl⟩
      · exact ⟨Function.update_of_ne (hother hne) _ _, rfl⟩
      · exact ⟨Function.update_of_ne (hother hne) _ _, rfl⟩
    -- a pipe gives its numbers to the call that opens it, so none to this one
    refine ⟨hs'.1, fun fd hfd ↦ hs'.2 ▸ openPipe_ne_call htable (hother hne) hfd, ?_⟩
    cases r with
    | opened fd fd' => exact hne
    | failed _ _ => exact nofun
  | close t' =>
    obtain ⟨fd, rest, -, rfl, rfl⟩ := step_close h
    exact ⟨Function.update_of_ne (hother hne) _ _,
      fun _ htable ↦ update_ne_call (by simp) htable, hne⟩
  | leave t' =>
    simp only [descriptors] at h
    split_ifs at h
    obtain ⟨rfl, rfl⟩ := Prod.mk.inj (Option.some.inj h)
    exact ⟨Function.update_of_ne (hother hne) _ _, fun _ htable ↦ htable, nofun⟩
  | openOther thread fd =>
    simp only [descriptors] at h
    split_ifs at h
    obtain ⟨rfl, rfl⟩ := Prod.mk.inj (Option.some.inj h)
    exact ⟨rfl, fun _ htable ↦ update_ne_call (by simp) htable, nofun⟩
  | closeOther thread fd =>
    simp only [descriptors] at h
    split_ifs at h
    obtain ⟨rfl, rfl⟩ := Prod.mk.inj (Option.some.inj h)
    exact ⟨rfl, fun _ htable ↦ update_ne_call (by simp) htable, nofun⟩

/-! ### What becomes of a call -/

/-- The call has neither opened nor closed a descriptor. -/
def Untouched (tr : List DescEvent) (t : ℕ) : Prop :=
  ∀ e ∈ tr, e.output.caller ≠ some t

/-- What a call in its phase has done. One that opens pipes is to close the first descriptor of the
second pipe twice: it has still both before it; or the second, and the descriptor is its own no
more; or it has done so. -/
def Destined (tr : List DescEvent) (table : ℤ → Option Holder) (t : ℕ) : Phase → Prop
  | .idle => Untouched tr t ∧ ¬ ReturnsEarly tr t
  | .opening | .opened _ => ¬ ReturnsEarly tr t
  | .closing rest => ¬ ReturnsEarly tr t ∧
    ((∃ infd outfd, rest = parentCloses infd outfd) ∨
      (∃ fds fd, rest = fds ++ [fd] ∧ table fd ≠ some (.call t)) ∨ ClosesForeign tr t)
  | .returned => (ReturnsEarly tr t ∧ Untouched tr t) ∨ (¬ ReturnsEarly tr t ∧ ClosesForeign tr t)

theorem returnsEarly_append {tr : List DescEvent} {e : DescEvent} {t : ℕ} :
    ReturnsEarly (tr ++ [e]) t ↔ ReturnsEarly tr t ∨ ∃ executable allocated,
      e.input = .enter t executable allocated ∧ (executable && allocated) = false := by
  simp only [ReturnsEarly, List.mem_append, List.mem_singleton, or_and_right, exists_or,
    exists_eq_left]

theorem closesForeign_append {tr : List DescEvent} {e : DescEvent} {t : ℕ} :
    ClosesForeign (tr ++ [e]) t ↔ ClosesForeign tr t ∨ ∃ fd, e.output = .closed t fd false := by
  simp only [ClosesForeign, List.mem_append, List.mem_singleton, or_and_right, exists_or,
    exists_eq_left]

theorem untouched_append {tr : List DescEvent} {e : DescEvent} {t : ℕ} :
    Untouched (tr ++ [e]) t ↔ Untouched tr t ∧ e.output.caller ≠ some t := by
  rw [Untouched, List.forall_mem_append, List.forall_mem_singleton]
  rfl

/-- A step that is no beginning of the call. -/
theorem returnsEarly_append_of_ne {tr : List DescEvent} {e : DescEvent} {t : ℕ}
    (h : ∀ executable allocated, e.input ≠ .enter t executable allocated) :
    ReturnsEarly (tr ++ [e]) t ↔ ReturnsEarly tr t := by
  rw [returnsEarly_append]
  refine or_iff_left ?_
  rintro ⟨executable, allocated, heq, -⟩
  exact h executable allocated heq

/-- A step of another call. -/
theorem Destined.of_unconcerned {tr : List DescEvent} {e : DescEvent} {t : ℕ}
    (h : Destined tr e.pre.table t (e.pre.phase t)) (hne : e.input.caller ≠ some t)
    (hu : Unconcerned t e.pre e.post e.output) :
    Destined (tr ++ [e]) e.post.table t (e.post.phase t) := by
  have hearly : ReturnsEarly (tr ++ [e]) t ↔ ReturnsEarly tr t := by
    refine returnsEarly_append_of_ne fun executable allocated heq ↦ hne ?_
    rw [heq]
    rfl
  have hforeign : ClosesForeign tr t → ClosesForeign (tr ++ [e]) t := fun h ↦
    closesForeign_append.2 (Or.inl h)
  have huntouched : Untouched tr t → Untouched (tr ++ [e]) t := fun h ↦
    untouched_append.2 ⟨h, hu.output⟩
  have hlate : ¬ ReturnsEarly tr t → ¬ ReturnsEarly (tr ++ [e]) t := fun h hr ↦ h (hearly.1 hr)
  rw [hu.phase]
  generalize e.pre.phase t = phase at h ⊢
  cases phase with
  | idle => exact ⟨huntouched h.1, hlate h.2⟩
  | opening => exact hlate h
  | opened infd => exact hlate h
  | closing rest =>
    obtain ⟨hnot, hrest⟩ := h
    refine ⟨hlate hnot, hrest.imp_right (Or.imp ?_ hforeign)⟩
    rintro ⟨fds, fd, hfds, htable⟩
    exact ⟨fds, fd, hfds, hu.table fd htable⟩
  | returned => exact h.imp (And.imp hearly.2 huntouched) (And.imp hlate hforeign)

/-- The call begins. -/
theorem Destined.enter {tr : List DescEvent} {s s' : Descriptors} {t : ℕ}
    {executable allocated : Bool} {o : DescOutput} (h : Destined tr s.table t (s.phase t))
    (hstep : descriptors.step s (.enter t executable allocated) = some (s', o)) :
    Destined (tr ++ [⟨s, .enter t executable allocated, o, s'⟩]) s'.table t (s'.phase t) := by
  simp only [descriptors] at hstep
  split_ifs at hstep with hidle hgoes
  · obtain ⟨rfl, rfl⟩ := Prod.mk.inj (Option.some.inj hstep)
    rw [hidle] at h
    show Destined _ s.table t (Function.update s.phase t .opening t)
    rw [Function.update_self, Destined, returnsEarly_append]
    refine not_or.2 ⟨h.2, ?_⟩
    rintro ⟨executable', allocated', heq, hfalse⟩
    obtain ⟨-, rfl, rfl⟩ := DescStep.enter.inj heq
    rw [hgoes] at hfalse
    cases hfalse
  · obtain ⟨rfl, rfl⟩ := Prod.mk.inj (Option.some.inj hstep)
    rw [hidle] at h
    show Destined _ s.table t (Function.update s.phase t .returned t)
    rw [Function.update_self]
    exact Or.inl ⟨returnsEarly_append.2 (Or.inr ⟨_, _, rfl, Bool.eq_false_iff.2 hgoes⟩),
      untouched_append.2 ⟨h.1, nofun⟩⟩

/-- The call opens a pipe. -/
theorem Destined.pipe {tr : List DescEvent} {s s' : Descriptors} {t : ℕ} {r : PipeResult}
    {o : DescOutput} (h : Destined tr s.table t (s.phase t))
    (hstep : descriptors.step s (.pipe t r) = some (s', o)) :
    Destined (tr ++ [⟨s, .pipe t r, o, s'⟩]) s'.table t (s'.phase t) := by
  have hearly : ReturnsEarly (tr ++ [⟨s, .pipe t r, o, s'⟩]) t ↔ ReturnsEarly tr t :=
    returnsEarly_append_of_ne nofun
  obtain ⟨-, table, -, ⟨hphase, rfl⟩ | ⟨infd, hphase, rfl⟩⟩ := step_pipe hstep
  · rw [hphase] at h
    show Destined _ table t (Function.update s.phase t (.opened r.fds) t)
    rw [Function.update_self]
    exact fun hr ↦ h (hearly.1 hr)
  · rw [hphase] at h
    show Destined _ table t (Function.update s.phase t (.closing (parentCloses infd r.fds)) t)
    rw [Function.update_self]
    exact ⟨fun hr ↦ h (hearly.1 hr), Or.inl ⟨infd, r.fds, rfl⟩⟩

/-- The call closes a descriptor: the first time, or one between, or the last. -/
theorem Destined.close {tr : List DescEvent} {s s' : Descriptors} {t : ℕ} {o : DescOutput}
    (h : Destined tr s.table t (s.phase t))
    (hstep : descriptors.step s (.close t) = some (s', o)) :
    Destined (tr ++ [⟨s, .close t, o, s'⟩]) s'.table t (s'.phase t) := by
  have hearly : ReturnsEarly (tr ++ [⟨s, .close t, o, s'⟩]) t ↔ ReturnsEarly tr t :=
    returnsEarly_append_of_ne nofun
  obtain ⟨fd, rest, hphase, rfl, rfl⟩ := step_close hstep
  rw [hphase] at h
  show Destined _ (Function.update s.table fd none) t (Function.update s.phase t (.closing rest) t)
  rw [Function.update_self]
  obtain ⟨hnot, hrest⟩ := h
  refine ⟨fun hr ↦ hnot (hearly.1 hr), ?_⟩
  rcases hrest with ⟨infd, outfd, heq⟩ | ⟨fds, fd', heq, htable⟩ | hforeign
  · -- the first of the four, after which the same number stands in the list again
    obtain ⟨rfl, rfl⟩ := List.cons.inj heq
    refine Or.inr (Or.inl ⟨[infd.2, infd.1], outfd.1, rfl, ?_⟩)
    rw [Function.update_self]
    exact nofun
  · rcases fds with - | ⟨fd'', fds⟩
    · obtain ⟨rfl, rfl⟩ := List.cons.inj heq
      -- the second time: the number is free, or another thread has it
      refine Or.inr (Or.inr (closesForeign_append.2 (Or.inr ⟨fd, ?_⟩)))
      show DescOutput.closed t fd (decide (s.table fd = some (.call t))) = _
      rw [decide_eq_false htable]
    · obtain ⟨rfl, rfl⟩ := List.cons.inj heq
      exact Or.inr (Or.inl ⟨fds, fd', rfl, update_ne_call (by simp) htable⟩)
  · exact Or.inr (Or.inr (closesForeign_append.2 (Or.inl hforeign)))

/-- The call returns. -/
theorem Destined.leave {tr : List DescEvent} {s s' : Descriptors} {t : ℕ} {o : DescOutput}
    (h : Destined tr s.table t (s.phase t))
    (hstep : descriptors.step s (.leave t) = some (s', o)) :
    Destined (tr ++ [⟨s, .leave t, o, s'⟩]) s'.table t (s'.phase t) := by
  have hearly : ReturnsEarly (tr ++ [⟨s, .leave t, o, s'⟩]) t ↔ ReturnsEarly tr t :=
    returnsEarly_append_of_ne nofun
  simp only [descriptors] at hstep
  split_ifs at hstep with hphase
  obtain ⟨rfl, rfl⟩ := Prod.mk.inj (Option.some.inj hstep)
  rw [hphase] at h
  show Destined _ s.table t (Function.update s.phase t .returned t)
  rw [Function.update_self]
  obtain ⟨hnot, hrest⟩ := h
  refine Or.inr ⟨fun hr ↦ hnot (hearly.1 hr), closesForeign_append.2 (Or.inl ?_)⟩
  rcases hrest with ⟨infd, outfd, heq⟩ | ⟨fds, fd, heq, -⟩ | hforeign
  · cases heq
  · exact absurd heq.symm (List.append_ne_nil_of_right_ne_nil _ (List.cons_ne_nil _ _))
  · exact hforeign

/-- **One step leaves every call what it is destined to.** -/
theorem Destined.step {tr : List DescEvent} {s s' : Descriptors} {i : DescStep} {o : DescOutput}
    {t : ℕ} (h : Destined tr s.table t (s.phase t))
    (hstep : descriptors.step s i = some (s', o)) :
    Destined (tr ++ [⟨s, i, o, s'⟩]) s'.table t (s'.phase t) := by
  by_cases hcaller : i.caller = some t
  swap
  · exact h.of_unconcerned (e := ⟨s, i, o, s'⟩) hcaller (unconcerned_of_step hstep hcaller)
  cases i with
  | enter t' executable allocated =>
    obtain rfl := Option.some.inj hcaller
    exact h.enter hstep
  | pipe t' r =>
    obtain rfl := Option.some.inj hcaller
    exact h.pipe hstep
  | close t' =>
    obtain rfl := Option.some.inj hcaller
    exact h.close hstep
  | leave t' =>
    obtain rfl := Option.some.inj hcaller
    exact h.leave hstep
  | openOther _ _ | closeOther _ _ => cases hcaller

/-! ### Runs -/

/-- A call that has touched no descriptor has closed each it has opened, and no other. -/
theorem Untouched.closesItsOwn {tr : List DescEvent} {t : ℕ} (h : Untouched tr t) :
    ClosesItsOwn tr t := by
  constructor
  · intro fd hfd
    obtain ⟨e, he, hfd⟩ := List.mem_flatMap.1 hfd
    have hne := h e he
    rcases hout : e.output with ⟨t', fds⟩ | ⟨t', fd', own⟩ | -
    all_goals
      rw [hout] at hfd hne
      dsimp only at hfd
    · rw [if_neg fun heq ↦ hne (congrArg some heq)] at hfd
      cases hfd
    · cases hfd
    · cases hfd
  · rintro ⟨e, he, fd, heq⟩
    refine h e he ?_
    rw [heq]
    rfl

/-- **Which calls close their own descriptors.** In every run, of the calls that have returned each
has closed every descriptor it has opened once, and none that was not its own, exactly when each has
returned before it opened a pipe: because `amqoampx` is not executable, or for want of memory. -/
theorem closesItsOwn_iff {others : ℤ → Option ℕ} {tr : List DescEvent} {s : Descriptors}
    (hrun : descriptors.Run (.start others) tr s) :
    (∀ t, s.phase t = .returned → ClosesItsOwn tr t) ↔
      ∀ t, s.phase t = .returned → ReturnsEarly tr t := by
  refine forall_congr' fun t ↦ forall_congr' fun hphase ↦ ?_
  have hnil : Destined [] (Descriptors.start others).table t .idle := by
    refine ⟨nofun, ?_⟩
    rintro ⟨e, he, -⟩
    cases he
  have h := hrun.invariant (I := fun tr s ↦ Destined tr s.table t (s.phase t)) hnil
    fun _ _ _ _ _ h hstep ↦ h.step hstep
  rw [hphase] at h
  rcases h with ⟨hearly, huntouched⟩ | ⟨hnot, hforeign⟩
  · exact iff_of_true huntouched.closesItsOwn hearly
  · exact iff_of_false (fun hown ↦ hown.own hforeign) hnot

/-! ### A call that closes a descriptor of another thread -/

/-- The process has 0, 1 and 2 open, and the lowest free numbers are given out. While the call
waits for the response another thread opens a descriptor. -/
def stolenSteps : List DescStep :=
  [.enter 0 true true, .pipe 0 (.opened 3 4), .pipe 0 (.opened 5 6), .close 0, .close 0,
    .openOther 1 4, .openOther 1 5, .close 0, .close 0, .leave 0]

def standardDescriptors : Descriptors :=
  .start fun fd ↦ if fd = 0 ∨ fd = 1 ∨ fd = 2 then some 0 else none

def stolenRun : List DescEvent × Descriptors :=
  (descriptors.replay standardDescriptors stolenSteps).getD ([], standardDescriptors)

theorem run_stolenRun : descriptors.Run standardDescriptors stolenRun.1 stolenRun.2 :=
  Machine.run_getD_replay rfl

/-- `amqoampx` is not executable: the call returns without a pipe. -/
def earlyRun : List DescEvent × Descriptors :=
  (descriptors.replay standardDescriptors [.enter 0 false true]).getD ([], standardDescriptors)

theorem run_earlyRun : descriptors.Run standardDescriptors earlyRun.1 earlyRun.2 :=
  Machine.run_getD_replay rfl

theorem returnsEarly_earlyRun (t : ℕ) (h : earlyRun.2.phase t = .returned) :
    ReturnsEarly earlyRun.1 t := by
  rcases eq_or_ne t 0 with rfl | hne
  · exact ⟨_, List.mem_singleton_self _, false, true, rfl, rfl⟩
  · have hidle : earlyRun.2.phase t = .idle := Function.update_of_ne hne _ _
    rw [hidle] at h
    cases h

/-- A call that returns early closes its own descriptors; and the run above. -/
theorem closesItsOwn_iff_earlyRun :
    (earlyRun.2.phase 0 = .returned ∧
      ∀ t, earlyRun.2.phase t = .returned → ClosesItsOwn earlyRun.1 t) ∧
      ((∀ t, stolenRun.2.phase t = .returned → ClosesItsOwn stolenRun.1 t) ↔
        ∀ t, stolenRun.2.phase t = .returned → ReturnsEarly stolenRun.1 t) :=
  ⟨⟨rfl, (closesItsOwn_iff run_earlyRun).2 returnsEarly_earlyRun⟩, closesItsOwn_iff run_stolenRun⟩

/-- The second time, 5 is the other thread's; and 6 is never closed. -/
theorem not_closesItsOwn_stolenRun :
    descriptors.Run standardDescriptors stolenRun.1 stolenRun.2 ∧
      stolenRun.2.phase 0 = .returned ∧ ¬ ClosesItsOwn stolenRun.1 0 := by
  refine ⟨run_stolenRun, rfl, fun h ↦ ?_⟩
  exact absurd (h.once 6 (by decide)) (by decide)

end MqExits.Connwarn
