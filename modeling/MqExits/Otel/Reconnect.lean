import MqExits.Otel.Disconnect
import MqExits.Otel.Isolation
import MqExits.Otel.Registration

/-!
# A connection handle that is used again

MQ may give a new connection the handle of one that has ended, and the message handles that were
created for puts on the old connection are of no use on the new one. `mqotDiscBefore` is there to
discard them. But `EntryPoint` registers it to be called after the MQDISC, when the connection
handle has become the unusable one, so it looks for the entries of a connection that there is none
of: it discards nothing, and where there are any entries it never returns
(`mqotDiscBefore_of_foreign`).

A run is one of connections made, used and disconnected (`sessions`). Which connection a handle was
created on is read off the steps before (`createdOn`).

## Two statements

That no connection is given a handle of an earlier one is about every state of a run, and that an
MQDISC leaves nothing of its connection is about the step. They have different conditions: the first
that no new connection has a handle for which there are entries with a message handle, the second
that the connection has no entries at all.

A connection handle stands for one connection after another, so each has a number
(`Sessions.epoch`), and a message handle is an earlier connection's if it was created under a lower
one. A thread that does not return from `mqotDiscBefore` stays in it (`Sessions.hung`); the other
connections go on.
-/

namespace MqExits.Otel

open CText Outcome

/-! ### Connections -/

/-- The connection handle that `DiscBefore` is given when `hc` is disconnected. -/
def discHandle (hc : MQHCONN) : MQHCONN :=
  if (MQXR.BEFORE, MQXF.DISC, ExitFunction.DiscBefore) ∈ registrations then hc
  else MQHC_UNUSABLE_HCONN

theorem discHandle_eq (hc : MQHCONN) : discHandle hc = MQHC_UNUSABLE_HCONN :=
  if_neg (by decide)

/-- The module and the connections of its process. -/
structure Sessions where
  exit : State
  /-- The handles of the connections there are. -/
  live : List MQHCONN
  /-- How many connections a handle has been given to. -/
  epoch : MQHCONN → ℕ
  /-- A thread is in `mqotDiscBefore` for ever. -/
  hung : Bool

/-- A process without connections. -/
def Sessions.start (exit : State) : Sessions where
  exit := exit
  live := []
  epoch _ := 0
  hung := false

/-- Is it the exit for an MQDISC that is called? -/
def ExitCall.isDisc : ExitCall → Bool
  | .discBefore _ => true
  | _ => false

/-- Is the call one that can be made while there are these connections? -/
def ExitCall.madeOn (live : List MQHCONN) (call : ExitCall) : Bool :=
  !call.isDisc && call.target.all fun t ↦ t.1 ∈ live

/-- What happens to the connections of a process. -/
inductive SessionStep
  | connect (hc : MQHCONN)
  | call (call : ExitCall)
  | disconnect (hc : MQHCONN)
  /-- The last connection has ended, and the module is unloaded. -/
  | unload

/-- The connections of a process. Where the exit for an MQDISC does not return, the thread is lost;
the others go on. -/
def sessions : Machine Sessions SessionStep Unit where
  step p
    | .connect hc =>
      if hc ∈ p.live ∨ hc = MQHC_UNUSABLE_HCONN then none
      else some ({ p with
        live := hc :: p.live, epoch := Function.update p.epoch hc (p.epoch hc + 1) }, ())
    | .call call =>
      if call.madeOn p.live then
        (exitStep p.exit call).toOption.map fun s ↦ ({ p with exit := s }, ())
      else none
    | .disconnect hc =>
      if hc ∈ p.live then
        match mqotDiscBefore p.exit (discHandle hc) with
        | .ok s => some ({ p with exit := s, live := p.live.erase hc }, ())
        | .error .diverges => some ({ p with live := p.live.erase hc, hung := true }, ())
        | .error _ => none
      else none
    | .unload =>
      if p.live = [] ∧ p.hung = false then
        some ({ p with exit := State.init p.exit.appGmo p.exit.appPmo }, ())
      else none

/-- A step of such a run. -/
abbrev SessionEvent := Machine.Event Sessions SessionStep Unit

/-! ### Stale handles -/

/-- The connection on which the step creates a handle for the key, by its number among those with
the same connection handle. -/
def creates (key : Bytes) (e : SessionEvent) : Option ℕ :=
  match e.input with
  | .call call =>
    match call.target with
    | some (hc, _) =>
      if (e.pre.exit.objectHandleMap.lookup key).isNone ∧
          (e.post.exit.objectHandleMap.lookup key).isSome then some (e.pre.epoch hc)
      else none
    | none => none
  | _ => none

/-- The connection on which the key's handle was created. -/
def createdOn (tr : List SessionEvent) (key : Bytes) : Option ℕ :=
  Machine.latest (creates key) tr

/-- For some connection there is, `getMsgHandle` returns a handle that was created on an earlier one
with the same connection handle. -/
def ReturnsStale (tr : List SessionEvent) (p : Sessions) : Prop :=
  ∃ hc ∈ p.live, ∃ env ho mh n, p.exit.objectHandleMap.lookup (objectKey hc ho) = some mh ∧
    (getMsgHandle env p.exit hc ho).1 = mh.val ∧
    createdOn tr (objectKey hc ho) = some n ∧ n < p.epoch hc

/-- The step is a new connection with a handle for which message handles are stored. -/
def FindsHandles (e : SessionEvent) : Prop :=
  match e.input with
  | .connect hc => ∃ ho, (e.pre.exit.objectHandleMap.lookup (objectKey hc ho)).isSome
  | _ => False

/-- If the step is an MQDISC, then it leaves no entry of the connection in either map. -/
def Discards (e : SessionEvent) : Prop :=
  match e.input with
  | .disconnect hc => ∀ key, BelongsTo key hc →
    e.post.exit.objectHandleMap.lookup key = none ∧ e.post.exit.objectOptionsMap.lookup key = none
  | _ => True

/-- The step is the MQDISC of a connection that has an entry in one of the maps. -/
def DisconnectsWithEntries (e : SessionEvent) : Prop :=
  match e.input with
  | .disconnect hc => ∃ key, BelongsTo key hc ∧
    ¬ (e.pre.exit.objectHandleMap.lookup key = none ∧ e.pre.exit.objectOptionsMap.lookup key = none)
  | _ => False

/-! ### What the exit for an MQDISC does -/

/-- **Called for a connection that has no entries**, `mqotDiscBefore` returns only where no
connection has any, and changes nothing. -/
theorem mqotDiscBefore_of_foreign {s s' : State} {hc : MQHCONN}
    (hhandles : ∀ key, BelongsTo key hc → s.objectHandleMap.lookup key = none)
    (hoptions : ∀ key, BelongsTo key hc → s.objectOptionsMap.lookup key = none)
    (h : mqotDiscBefore s hc = .ok s') : s' = s := by
  have hnull : ∀ o, s.objectOptionsMap.lookup (keyStart hc) ≠ some (some o) := by
    intro o ho
    rw [hoptions _ List.prefix_rfl] at ho
    cases ho
  obtain ⟨hkeys, hkeys', -⟩ := mqotDiscBefore_ok hnull h
  have hempty : ∀ {α : Type} {m : AList fun _ : Bytes ↦ α},
      (∀ key, (m.lookup key).isSome → BelongsTo key hc) →
      (∀ key, BelongsTo key hc → m.lookup key = none) → keysInOrder m = [] := by
    intro α m hbelongs hnone
    rw [List.eq_nil_iff_forall_not_mem]
    intro key hkey
    rw [mem_keysInOrder] at hkey
    rw [hnone key (hbelongs key hkey)] at hkey
    cases hkey
  simp only [mqotDiscBefore, hempty hkeys hhandles, hempty hkeys' hoptions, discHandles,
    discOptions] at h
  exact (Except.ok.inj h).symm

/-! ### The invariant -/

/-- Each entry is one of a connection that could be made, and a message handle was created on one
that has been. -/
structure Sessions.Tracked (tr : List SessionEvent) (p : Sessions) : Prop where
  wellFormed : p.exit.WellFormed
  usable : ∀ hc ∈ p.live, hc ≠ MQHC_UNUSABLE_HCONN
  handles : ∀ key mh, p.exit.objectHandleMap.lookup key = some mh →
    ∃ hc n, BelongsTo key hc ∧ hc ≠ MQHC_UNUSABLE_HCONN ∧ createdOn tr key = some n ∧
      n ≤ p.epoch hc
  options : ∀ key o, p.exit.objectOptionsMap.lookup key = some o →
    ∃ hc, BelongsTo key hc ∧ hc ≠ MQHC_UNUSABLE_HCONN

theorem Sessions.tracked_start (appGmo : AppAddr → MQGMO) (appPmo : AppAddr → MQPMO) :
    Sessions.Tracked [] (.start (State.init appGmo appPmo)) where
  wellFormed := State.wellFormed_init appGmo appPmo
  usable hc h := by cases h
  handles key mh h := by cases h
  options key o h := by cases h

theorem createdOn_append (tr : List SessionEvent) (e : SessionEvent) (key : Bytes) :
    createdOn (tr ++ [e]) key = (creates key e).or (createdOn tr key) :=
  Machine.latest_append_singleton _ _ _

/-- A handle that was there before is not created. -/
theorem creates_eq_none {key : Bytes} {e : SessionEvent} {mh : MsgHandle}
    (h : e.pre.exit.objectHandleMap.lookup key = some mh) : creates key e = none := by
  rw [creates]
  split
  · split
    · rw [h]
      rfl
    · rfl
  · rfl

/-- The step of a disconnect leaves the module as it is. -/
theorem Sessions.Tracked.disconnect {tr : List SessionEvent} {p p' : Sessions} {hc : MQHCONN}
    {o : Unit} (h : p.Tracked tr) (hstep : sessions.step p (.disconnect hc) = some (p', o)) :
    p'.exit = p.exit ∧ p'.live = p.live.erase hc ∧ p'.epoch = p.epoch := by
  -- no entry is one of the unusable connection, for which the exit is called
  have hforeign : ∀ key, BelongsTo key MQHC_UNUSABLE_HCONN →
      p.exit.objectHandleMap.lookup key = none ∧ p.exit.objectOptionsMap.lookup key = none := by
    intro key hkey
    constructor
    · rcases hl : p.exit.objectHandleMap.lookup key with - | mh
      · rfl
      · obtain ⟨hc', n, hbelongs, hne, -⟩ := h.handles key mh hl
        exact absurd (hbelongs.unique hkey) hne
    · rcases hl : p.exit.objectOptionsMap.lookup key with - | o
      · rfl
      · obtain ⟨hc', hbelongs, hne⟩ := h.options key o hl
        exact absurd (hbelongs.unique hkey) hne
  simp only [sessions] at hstep
  split_ifs at hstep
  split at hstep
  · rename_i s hdisc
    rw [discHandle_eq] at hdisc
    obtain rfl := mqotDiscBefore_of_foreign (fun key hkey ↦ (hforeign key hkey).1)
      (fun key hkey ↦ (hforeign key hkey).2) hdisc
    obtain ⟨rfl, -⟩ := Prod.mk.inj (Option.some.inj hstep)
    exact ⟨rfl, rfl, rfl⟩
  · obtain ⟨rfl, -⟩ := Prod.mk.inj (Option.some.inj hstep)
    exact ⟨rfl, rfl, rfl⟩
  · cases hstep

/-- The step of a call is one of the module's, on a connection there is. -/
theorem sessions_call {p p' : Sessions} {call : ExitCall} {o : Unit}
    (hstep : sessions.step p (.call call) = some (p', o)) :
    ∃ s, exitStep p.exit call = .ok s ∧ p' = { p with exit := s } ∧
      ((∃ hc ho, call.target = some (hc, ho) ∧ hc ∈ p.live) ∨ call.target = none ∧
        s.objectHandleMap = p.exit.objectHandleMap ∧
        s.objectOptionsMap = p.exit.objectOptionsMap) := by
  simp only [sessions] at hstep
  split_ifs at hstep with hmade
  obtain ⟨s, hs, heq⟩ := Option.map_eq_some_iff.1 hstep
  obtain ⟨rfl, -⟩ := Prod.mk.inj heq
  have hexit : exitStep p.exit call = .ok s := by
    rcases h : exitStep p.exit call with e | s'
    · rw [h] at hs
      cases hs
    · rw [h] at hs
      rw [Option.some.inj hs]
  refine ⟨s, hexit, rfl, ?_⟩
  rw [ExitCall.madeOn, Bool.and_eq_true] at hmade
  obtain ⟨hdisc, hlive⟩ := hmade
  -- a function with a key is called on a connection there is; the others change no map
  rcases htarget : call.target with - | ⟨hc, ho⟩
  · refine Or.inr ⟨rfl, ?_⟩
    cases call with
    | discBefore hc => cases hdisc
    | put pp out =>
      obtain rfl := Except.ok.inj hexit
      exact ⟨p.exit.modifyPmo_objectHandleMap pp _, p.exit.modifyPmo_objectOptionsMap pp _⟩
    | get pp out =>
      obtain rfl := Except.ok.inj hexit
      exact ⟨p.exit.modifyGmo_objectHandleMap pp _, p.exit.modifyGmo_objectOptionsMap pp _⟩
    | application appGmo appPmo =>
      obtain rfl := Except.ok.inj hexit
      exact ⟨rfl, rfl⟩
    | openAfter _ _ _ _ _ | closeAfter _ _ | putBefore _ _ _ _ _ | putAfter _ _ _
    | getBefore _ _ _ _ | getAfter _ _ _ => cases htarget
  · rw [htarget] at hlive
    exact Or.inl ⟨hc, ho, rfl, of_decide_eq_true hlive⟩

/-- A handle that a call adds is the one of its connection. -/
theorem creates_of_call {p : Sessions} {s : State} {call : ExitCall} {hc : MQHCONN}
    {ho : Option MQHOBJ} {key : Bytes} {mh : MsgHandle} (htarget : call.target = some (hc, ho))
    (hexit : exitStep p.exit call = .ok s)
    (hnone : p.exit.objectHandleMap.lookup key = none)
    (hmh : s.objectHandleMap.lookup key = some mh) :
    key = objectKey hc none ∧
      creates key ⟨p, .call call, (), { p with exit := s }⟩ = some (p.epoch hc) := by
  constructor
  · by_contra hne
    rcases (keyStep_exitStep htarget hexit).2 with heq | ⟨env, heq⟩
    · rw [heq, hnone] at hmh
      cases hmh
    · rw [heq, lookup_getMsgHandle_ne hne, hnone] at hmh
      cases hmh
  · rw [creates]
    dsimp only
    rw [htarget, hnone, hmh]
    rfl

/-- A new connection has the number after those of its handle, so every entry is an earlier one's or
another handle's. -/
theorem Sessions.Tracked.connect {tr : List SessionEvent} {p p' : Sessions} {hc : MQHCONN}
    {o : Unit} (h : p.Tracked tr) (hstep : sessions.step p (.connect hc) = some (p', o)) :
    p'.Tracked (tr ++ [⟨p, .connect hc, o, p'⟩]) := by
  simp only [sessions] at hstep
  split_ifs at hstep with hfree
  obtain ⟨rfl, -⟩ := Prod.mk.inj (Option.some.inj hstep)
  rw [not_or] at hfree
  refine ⟨h.wellFormed, ?_, fun key mh hl ↦ ?_, h.options⟩
  · rw [List.forall_mem_cons]
    exact ⟨hfree.2, h.usable⟩
  · obtain ⟨hc', n, hkey, hne, hcreated, hle⟩ := h.handles key mh hl
    refine ⟨hc', n, hkey, hne, ?_, ?_⟩
    · rw [createdOn_append, creates_eq_none hl, Option.none_or]
      exact hcreated
    · show n ≤ Function.update p.epoch hc (p.epoch hc + 1) hc'
      rcases eq_or_ne hc' hc with rfl | hne'
      · rw [Function.update_self]
        exact Nat.le_succ_of_le hle
      · rwa [Function.update_of_ne hne']

/-- A call creates a handle, if it does, for the connection that it is made on. -/
theorem Sessions.Tracked.call {tr : List SessionEvent} {p p' : Sessions} {call : ExitCall}
    {o : Unit} (h : p.Tracked tr) (hstep : sessions.step p (.call call) = some (p', o)) :
    p'.Tracked (tr ++ [⟨p, .call call, o, p'⟩]) := by
  obtain ⟨s, hexit, rfl, hcase⟩ := sessions_call hstep
  have hwf := wellFormed_exitStep h.wellFormed hexit
  -- a handle that was there before
  have hold : ∀ key mh, p.exit.objectHandleMap.lookup key = some mh →
      ∃ hc n, BelongsTo key hc ∧ hc ≠ MQHC_UNUSABLE_HCONN ∧
        createdOn (tr ++ [⟨p, .call call, o, { p with exit := s }⟩]) key = some n ∧
        n ≤ p.epoch hc := by
    intro key mh hl
    rw [createdOn_append, creates_eq_none hl, Option.none_or]
    exact h.handles key mh hl
  rcases hcase with ⟨hc, ho, htarget, hlive⟩ | ⟨-, hhandles, hoptions⟩
  · refine ⟨hwf, h.usable, fun key mh hl ↦ ?_, fun key o' hl ↦ ?_⟩
    · rcases hpre : p.exit.objectHandleMap.lookup key with - | mh'
      · obtain ⟨rfl, hcreates⟩ := creates_of_call htarget hexit hpre hl
        refine ⟨hc, p.epoch hc, belongsTo_objectKey.2 rfl, h.usable hc hlive, ?_, le_rfl⟩
        rw [createdOn_append, hcreates, Option.some_or]
      · exact hold key mh' hpre
    · rcases eq_or_ne key (objectKey hc ho) with rfl | hne
      · exact ⟨hc, belongsTo_objectKey.2 rfl, h.usable hc hlive⟩
      · rw [(keyStep_exitStep htarget hexit).1.lookup_ne hne] at hl
        exact h.options key o' hl
  · refine ⟨hwf, h.usable, fun key mh hl ↦ ?_, fun key o' hl ↦ ?_⟩
    · exact hold key mh (hhandles ▸ hl)
    · exact h.options key o' (hoptions ▸ hl)

/-- **One step preserves the invariant.** -/
theorem Sessions.Tracked.step {tr : List SessionEvent} {p p' : Sessions} {i : SessionStep}
    {o : Unit} (h : p.Tracked tr) (hstep : sessions.step p i = some (p', o)) :
    p'.Tracked (tr ++ [⟨p, i, o, p'⟩]) := by
  cases i with
  | connect hc => exact h.connect hstep
  | call call => exact h.call hstep
  | disconnect hc =>
    -- it discards nothing, so all the entries are as they were
    obtain ⟨hexit, hlive, hepoch⟩ := h.disconnect hstep
    refine ⟨hexit ▸ h.wellFormed, fun hc' hmem ↦ ?_, fun key mh hl ↦ ?_, fun key o' hl ↦ ?_⟩
    · rw [hlive] at hmem
      exact h.usable hc' (List.mem_of_mem_erase hmem)
    · rw [hexit] at hl
      rw [createdOn_append, creates_eq_none hl, Option.none_or, hepoch]
      exact h.handles key mh hl
    · rw [hexit] at hl
      exact h.options key o' hl
  | unload =>
    simp only [sessions] at hstep
    split_ifs at hstep
    obtain ⟨rfl, -⟩ := Prod.mk.inj (Option.some.inj hstep)
    refine ⟨State.wellFormed_init _ _, h.usable, fun key mh hl ↦ ?_, fun key o' hl ↦ ?_⟩
    · cases hl
    · cases hl

theorem tracked_of_run {appGmo : AppAddr → MQGMO} {appPmo : AppAddr → MQPMO}
    {tr : List SessionEvent} {p : Sessions}
    (hrun : sessions.Run (.start (State.init appGmo appPmo)) tr p) : p.Tracked tr :=
  hrun.invariant (I := fun tr p ↦ p.Tracked tr) (Sessions.tracked_start appGmo appPmo)
    fun _ _ _ _ _ h hstep ↦ h.step hstep

/-! ### When no stale handle is returned -/

/-- A stored handle is what `getMsgHandle` returns. -/
theorem getMsgHandle_of_lookup {env : Env} {s : State} {hc : MQHCONN} {ho : Option MQHOBJ}
    {mh : MsgHandle} (h : s.objectHandleMap.lookup (objectKey hc ho) = some mh) :
    (getMsgHandle env s hc ho).1 = mh.val := by
  rw [getMsgHandle, h]

/-- What is stale after a step was stale before it, if it was there and its connection was. -/
theorem returnsStale_of_append {tr : List SessionEvent} {e : SessionEvent} {hc : MQHCONN}
    {ho : Option MQHOBJ} {mh : MsgHandle} {n : ℕ} (hlive : hc ∈ e.pre.live)
    (hmh : e.pre.exit.objectHandleMap.lookup (objectKey hc ho) = some mh)
    (hcreated : createdOn (tr ++ [e]) (objectKey hc ho) = some n) (hn : n < e.pre.epoch hc) :
    ReturnsStale tr e.pre := by
  rw [createdOn_append, creates_eq_none hmh, Option.none_or] at hcreated
  exact ⟨hc, hlive, .refusing .sample, ho, mh, n, hmh, getMsgHandle_of_lookup hmh, hcreated, hn⟩

/-- A new connection finds a stale handle exactly when it finds one. -/
theorem returnsStale_connect {tr : List SessionEvent} {p p' : Sessions} {hc : MQHCONN} {o : Unit}
    (h : p.Tracked tr) (hfresh : ¬ ReturnsStale tr p)
    (hstep : sessions.step p (.connect hc) = some (p', o)) :
    ReturnsStale (tr ++ [⟨p, .connect hc, o, p'⟩]) p' ↔
      ∃ ho, (p.exit.objectHandleMap.lookup (objectKey hc ho)).isSome := by
  simp only [sessions] at hstep
  split_ifs at hstep
  obtain ⟨rfl, -⟩ := Prod.mk.inj (Option.some.inj hstep)
  constructor
  · rintro ⟨hc', hlive, env, ho, mh, n, hmh, -, hcreated, hn⟩
    -- only what is said of the new connection can have changed
    rcases eq_or_ne hc' hc with rfl | hne
    · exact ⟨ho, Option.isSome_iff_exists.2 ⟨mh, hmh⟩⟩
    · have hn' : n < Function.update p.epoch hc (p.epoch hc + 1) hc' := hn
      rw [Function.update_of_ne hne] at hn'
      exact absurd
        (returnsStale_of_append (List.mem_of_ne_of_mem hne hlive) hmh hcreated hn') hfresh
  · rintro ⟨ho, hsome⟩
    obtain ⟨mh, hmh⟩ := Option.isSome_iff_exists.1 hsome
    -- a handle that it finds has been created before, so for a connection that is gone
    obtain ⟨hc', n, hkey, -, hcreated, hle⟩ := h.handles _ mh hmh
    obtain rfl := belongsTo_objectKey.1 hkey
    refine ⟨hc, List.mem_cons_self .., .refusing .sample, ho, mh, n, hmh,
      getMsgHandle_of_lookup hmh, ?_, ?_⟩
    · rw [createdOn_append, creates_eq_none hmh, Option.none_or]
      exact hcreated
    · show n < Function.update p.epoch hc (p.epoch hc + 1) hc
      rw [Function.update_self]
      exact Nat.lt_succ_of_le hle

/-- **One step leaves no stale handle exactly when it is no connection that finds one.** -/
theorem returnsStale_step {tr : List SessionEvent} {p p' : Sessions} {i : SessionStep} {o : Unit}
    (h : p.Tracked tr) (hfresh : ¬ ReturnsStale tr p)
    (hstep : sessions.step p i = some (p', o)) :
    ¬ ReturnsStale (tr ++ [⟨p, i, o, p'⟩]) p' ↔ ¬ FindsHandles ⟨p, i, o, p'⟩ := by
  cases i with
  | connect hc => exact not_congr (returnsStale_connect h hfresh hstep)
  | call call =>
    refine iff_of_true ?_ id
    obtain ⟨s, hexit, rfl, hcase⟩ := sessions_call hstep
    rintro ⟨hc, hlive, env, ho, mh, n, hmh, -, hcreated, hn⟩
    rcases hpre : p.exit.objectHandleMap.lookup (objectKey hc ho) with - | mh'
    · rcases hcase with ⟨hc', ho', htarget, -⟩ | ⟨-, hsame, -⟩
      · -- the handle has just been created, on the connection itself
        obtain ⟨hkey, hcreates⟩ := creates_of_call htarget hexit hpre hmh
        obtain ⟨rfl, -⟩ := objectKey_inj.1 hkey
        rw [createdOn_append, hcreates, Option.some_or] at hcreated
        obtain rfl := Option.some.inj hcreated
        exact lt_irrefl _ hn
      · rw [show s.objectHandleMap.lookup _ = p.exit.objectHandleMap.lookup _ by rw [hsame], hpre]
          at hmh
        cases hmh
    · exact hfresh (returnsStale_of_append hlive hpre hcreated hn)
  | disconnect hc =>
    refine iff_of_true ?_ id
    obtain ⟨hexit, hlive', hepoch⟩ := h.disconnect hstep
    rintro ⟨hc', hlive, env, ho, mh, n, hmh, -, hcreated, hn⟩
    rw [hlive'] at hlive
    rw [hexit] at hmh
    rw [hepoch] at hn
    exact hfresh (returnsStale_of_append (List.mem_of_mem_erase hlive) hmh hcreated hn)
  | unload =>
    refine iff_of_true ?_ id
    simp only [sessions] at hstep
    split_ifs at hstep
    obtain ⟨rfl, -⟩ := Prod.mk.inj (Option.some.inj hstep)
    rintro ⟨hc, hlive, env, ho, mh, n, hmh, -⟩
    cases hmh

/-- An MQDISC leaves no entry of its connection exactly when there is none. -/
theorem discards_step {tr : List SessionEvent} {p p' : Sessions} {i : SessionStep} {o : Unit}
    (h : p.Tracked tr) (hstep : sessions.step p i = some (p', o)) :
    Discards ⟨p, i, o, p'⟩ ↔ ¬ DisconnectsWithEntries ⟨p, i, o, p'⟩ := by
  cases i with
  | disconnect hc =>
    obtain ⟨hexit, -⟩ := h.disconnect hstep
    rw [Discards, DisconnectsWithEntries]
    dsimp only
    rw [hexit, not_exists]
    exact forall_congr' fun key ↦ not_and_not_right.symm
  | connect _ | call _ | unload => exact iff_of_true trivial id

/-- **When a connection gets no message handle of an earlier one.** In every state of a run
`getMsgHandle` returns, for no connection there is, a handle created on an earlier connection with
the same connection handle, exactly when no new connection of the run is given a connection handle
for which message handles are stored. And each MQDISC leaves no entries of its connection exactly
when the connection has none. -/
theorem not_returnsStale_iff {appGmo : AppAddr → MQGMO} {appPmo : AppAddr → MQPMO}
    {tr : List SessionEvent} {p : Sessions}
    (hrun : sessions.Run (.start (State.init appGmo appPmo)) tr p) :
    ((∀ before e after, tr = before ++ e :: after → ¬ ReturnsStale (before ++ [e]) e.post) ↔
      ∀ e ∈ tr, ¬ FindsHandles e) ∧
      ((∀ e ∈ tr, Discards e) ↔ ∀ e ∈ tr, ¬ DisconnectsWithEntries e) := by
  constructor
  · have hnil : ¬ ReturnsStale [] (.start (State.init appGmo appPmo)) := by
      rintro ⟨hc, hlive, -⟩
      cases hlive
    rw [hrun.always_iff (I := fun tr p ↦ ¬ ReturnsStale tr p) (C := fun _ e ↦ ¬ FindsHandles e) hnil
      fun _ _ _ _ _ hrun hfresh hstep ↦ returnsStale_step (tracked_of_run hrun) hfresh hstep]
    exact Machine.forall_split_iff_forall_mem
  · rw [hrun.forall_mem_iff (I := fun tr p ↦ p.Tracked tr)
      (Q := fun _ e ↦ ¬ DisconnectsWithEntries e) (Sessions.tracked_start appGmo appPmo)
      (fun _ _ _ _ _ h hstep ↦ h.step hstep) fun _ _ _ _ _ h hstep ↦ discards_step h hstep]
    exact Machine.forall_split_iff_forall_mem

/-! ### A run with a stale handle -/

/-- A connection puts a message and ends, and another one gets its connection handle. -/
def reconnectSteps : List SessionStep :=
  [.connect 1, .call (.putBefore (.creating .sample) 1 (some 2) ⟨none, []⟩ (.app 0)),
    .disconnect 1, .connect 1]

def reconnectRun : List SessionEvent × Sessions :=
  (sessions.replay (.start .plain) reconnectSteps).getD ([], .start .plain)

theorem run_reconnectRun : sessions.Run (.start .plain) reconnectRun.1 reconnectRun.2 :=
  Machine.run_getD_replay rfl

theorem not_returnsStale_iff_reconnectRun :
    (∀ before e after, reconnectRun.1 = before ++ e :: after →
        ¬ ReturnsStale (before ++ [e]) e.post) ↔
      ∀ e ∈ reconnectRun.1, ¬ FindsHandles e :=
  (not_returnsStale_iff run_reconnectRun).1

/-- The second connection puts with the message handle of the first. -/
theorem returnsStale_reconnectRun :
    sessions.Run (.start .plain) reconnectRun.1 reconnectRun.2 ∧
      ¬ ∀ before e after, reconnectRun.1 = before ++ e :: after →
        ¬ ReturnsStale (before ++ [e]) e.post := by
  refine ⟨run_reconnectRun, fun h ↦ h (reconnectRun.1.take 3) _ [] rfl ?_⟩
  exact ⟨1, by decide, .refusing .sample, none, ⟨5, by decide⟩, 1, rfl, rfl, rfl, by decide⟩

end MqExits.Otel
