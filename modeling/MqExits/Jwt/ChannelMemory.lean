import MqExits.Jwt.TokenMemory

/-!
# What a channel with the token exit leaves in memory

`ChlExit` of `extjwtexit` with the blocks that it and what it calls allocate: at MQXR_SEC_PARMS it
obtains a token and copies it behind an MQCSP, at MQXR_TERM it frees the MQCSP. Nothing frees the
copy of the token that `obtainToken` gives it, nor what json-c has made. So over a whole channel
**each token obtained stays in memory**, also when the channel has ended, next to the objects
of json-c; the only blocks that come and go are the MQCSPs (`run_leaves`).

Two accounts are kept along a run. `Accounts` counts the blocks and finds the tokens among them.
`FreesOwn` says where each block that is freed came from: it needs that no address is given out
twice, or the pointer that is left behind MQXR_TERM could be one to an object of json-c. A call that
frees that pointer again goes wrong, and is no step.
-/

namespace MqExits.Jwt.Extjwtexit

open CText CMemory

/-! ### The exit -/

/-- The fields of the MQCXP that the exit uses. -/
structure ChannelParms where
  version : MQLONG
  exitResponse : MQXCC
  /-- `ExitUserArea[0]`. -/
  exitUserArea : UInt8
  securityParms : Option ℕ

/-- A channel at its start, without an MQCSP. -/
def ChannelParms.start (version : MQLONG) : ChannelParms :=
  ⟨version, .OK, 0, none⟩

variable {lib : Libraries}

section Code

variable (A : Allocator) (json : JsonC lib)

/-- The bytes of an MQCSP of version 3 for a token of some length; `sizeof(MQCSP)` is 104. -/
def CspImage := MQLONG → Field 104

variable (image : CspImage)

/-- `ChlExit` at MQXR_SEC_PARMS. -/
def secParms (env : JwtEnv) (t : Transfer) (p : ChannelParms) : Prog ChannelParms := do
  let (rc, token) ← obtainToken A json env t
  if rc ≠ 0 then return { p with exitResponse := .CLOSE_CHANNEL }
  else
    let length ← strlen token
    let csp ← malloc A (104 + length)
    match csp with
    | none => return { p with securityParms := none }
    | some a =>
      write (some a) 0 (image length).val
      let text ← read token length
      write (some a) 104 text
      return { p with securityParms := some a, exitUserArea := SUCCESS }

/-- The call at MQXR_TERM frees what `SecurityParms` points to. -/
def ChannelParms.toFree (p : ChannelParms) : Option ℕ :=
  if p.version > 5 ∧ p.exitUserArea = SUCCESS then p.securityParms else none

/-- `ChlExit` at MQXR_TERM. -/
def term (p : ChannelParms) : Prog ChannelParms := do
  free p.toFree
  return p

/-- A call of the exit as a security exit, by its reason. -/
inductive ExitCall
  | secParms (env : JwtEnv) (t : Transfer)
  | term
  | other

/-- `ChlExit`, called as a security exit. -/
def chlExit (p : ChannelParms) : ExitCall → Prog ChannelParms
  | .secParms env t => secParms A json image env t p
  | .term => term p
  | .other => pure p

/-- The exit on one channel. There is no step where it goes wrong. -/
def extjwtexit : Machine (ChannelParms × Memory) ExitCall Unit where
  step s call :=
    match chlExit A json image s.1 call s.2 with
    | .ok s' => some (s', ())
    | .error _ => none

end Code

/-! ### Addresses -/

section Addresses

variable (A : Allocator) (json : JsonC lib) (image : CspImage)

theorem givesOnce_argument (v : Option EnvText) : GivesOnce (argument v) := by
  rcases v with - | v
  · exact givesOnce_error _
  · exact givesOnce_pure v

theorem givesOnce_sprintfPost (env : JwtEnv) : GivesOnce (sprintfPost env) := by
  refine (givesOnce_argument _).bind fun user ↦ (givesOnce_argument _).bind fun password ↦
    (givesOnce_argument _).bind fun clientId ↦ ?_
  split
  · exact givesOnce_error _
  · exact givesOnce_pure ()

theorem givesOnce_writeMemoryCallback (contents : Bytes) (mem : MemoryStruct) :
    GivesOnce (writeMemoryCallback A contents mem) := by
  refine (givesOnce_realloc A _ _).bind fun ptr ↦ ?_
  rcases ptr with - | a
  · exact givesOnce_pure _
  · exact (givesOnce_write _ _ _).bind fun _ ↦ (givesOnce_write _ _ _).bind fun _ ↦
      givesOnce_pure _

/-- The transfer, piece by piece. -/
theorem givesOnce_perform (chunks : List Bytes) (code : ℤ) (mem : MemoryStruct) :
    GivesOnce (perform A chunks code mem) := by
  induction chunks generalizing mem with
  | nil => exact givesOnce_pure _
  | cons chunk chunks ih =>
    exact (givesOnce_writeMemoryCallback A chunk mem).bind fun r ↦
      .ite (ih r.2) (givesOnce_pure _)

theorem givesOnce_authTokenLogin (env : JwtEnv) (t : Transfer) :
    GivesOnce (authTokenLogin A env t) := by
  refine (givesOnce_malloc A 1).bind fun memory ↦ .bind (.ite ?_ (givesOnce_pure _)) fun r ↦
    (givesOnce_write _ _ _).bind fun _ ↦ (givesOnce_free _).bind fun _ ↦ givesOnce_pure _
  exact (givesOnce_sprintfPost env).bind fun _ ↦ (givesOnce_perform A _ _ _).bind fun r ↦
    .ite (givesOnce_pure _) <| (givesOnce_malloc A _).bind fun response ↦
      (givesOnce_write _ _ _).bind fun _ ↦ (givesOnce_read _ _).bind fun held ↦
        (givesOnce_write _ _ _).bind fun _ ↦ givesOnce_pure _

theorem givesOnce_copyToken (tokenstr : Bytes) : GivesOnce (copyToken A tokenstr) := by
  rw [copyToken]
  split_ifs
  · exact givesOnce_error _
  · exact givesOnce_error _
  · exact (givesOnce_malloc A _).bind fun _ ↦ (givesOnce_write _ _ _).bind fun _ ↦
      (givesOnce_write _ _ _).bind fun _ ↦ givesOnce_pure _

theorem givesOnce_findToken (text : Bytes) : GivesOnce (findToken A json text) := by
  rw [findToken]
  split_ifs
  · refine (givesOnce_alloc A _).bind fun root ↦ ?_
    rcases root with - | _
    · exact givesOnce_pure _
    · rcases lib.jsonC text with - | token
      · exact givesOnce_pure _
      · exact (givesOnce_copyToken A _).bind fun _ ↦ givesOnce_pure _
  · exact givesOnce_pure _

theorem givesOnce_retrieveTokenFromResponse (response : Option ℕ) :
    GivesOnce (retrieveTokenFromResponse A json response) := by
  rcases response with - | a
  · exact givesOnce_pure _
  · refine (givesOnce_alloc A _).bind fun tok ↦ (givesOnce_strlen _).bind fun length ↦
      (givesOnce_read _ _).bind fun text ↦ ?_
    rcases tok with - | _
    · exact givesOnce_error _
    · exact givesOnce_findToken A json text

theorem givesOnce_obtainToken (env : JwtEnv) (t : Transfer) :
    GivesOnce (obtainToken A json env t) := by
  refine (givesOnce_argument _).bind fun _ ↦ (givesOnce_argument _).bind fun _ ↦
    (givesOnce_authTokenLogin A env t).bind fun r ↦ .ite ?_ (givesOnce_pure _)
  exact (givesOnce_retrieveTokenFromResponse A json _).bind fun _ ↦ (givesOnce_strlen _).bind
    fun _ ↦ (givesOnce_write _ _ _).bind fun _ ↦ (givesOnce_free _).bind fun _ ↦ givesOnce_pure _

theorem givesOnce_secParms (env : JwtEnv) (t : Transfer) (p : ChannelParms) :
    GivesOnce (secParms A json image env t p) := by
  refine (givesOnce_obtainToken A json env t).bind fun r ↦ .ite (givesOnce_pure _) <|
    (givesOnce_strlen _).bind fun length ↦ (givesOnce_malloc A _).bind fun csp ↦ ?_
  rcases csp with - | a
  · exact givesOnce_pure _
  · exact (givesOnce_write _ _ _).bind fun _ ↦ (givesOnce_read _ _).bind fun _ ↦
      (givesOnce_write _ _ _).bind fun _ ↦ givesOnce_pure _

/-- **No call of the exit gives out an address a second time.** -/
theorem givesOnce_chlExit (p : ChannelParms) (call : ExitCall) :
    GivesOnce (chlExit A json image p call) := by
  rcases call with ⟨env, t⟩ | - | -
  · exact givesOnce_secParms A json image env t p
  · exact (givesOnce_free _).bind fun _ ↦ givesOnce_pure _
  · exact givesOnce_pure _

end Addresses

/-- A step of the exit. -/
abbrev ExitEvent := Machine.Event (ChannelParms × Memory) ExitCall Unit

/-! ### What a step accounts for -/

variable (A : Allocator) (json : JsonC lib)

/-- If the call is at MQXR_SEC_PARMS, what the exit does not check is as it should be. -/
def ExitCall.MeetsUnchecked (lib : Libraries) (r : ℕ) : ExitCall → Prop
  | .secParms env t => Unchecked A lib env t r
  | .term | .other => True

instance (r : ℕ) : (call : ExitCall) → Decidable (call.MeetsUnchecked A lib r)
  | .secParms env t => inferInstanceAs (Decidable (Unchecked A lib env t r))
  | .term | .other => inferInstanceAs (Decidable True)

/-- What the step does not check is as it should be. -/
abbrev MeetsUnchecked (lib : Libraries) (e : ExitEvent) : Prop :=
  e.input.MeetsUnchecked A lib e.pre.2.requests

/-- The token that the step obtains. -/
def tokenOf (lib : Libraries) (e : ExitEvent) : Option Bytes :=
  match e.input with
  | .secParms _ t => expectedToken A lib e.pre.2.requests t
  | .term | .other => none

/-- The blocks that the step leaves for good. -/
def lostBy (e : ExitEvent) : ℕ :=
  match e.input with
  | .secParms _ t => lost A json e.pre.2.requests t
  | .term | .other => 0

/-- The MQCSPs that the step makes. -/
def installedBy (lib : Libraries) (e : ExitEvent) : ℕ :=
  match e.input with
  | .secParms _ t =>
    if (expectedToken A lib e.pre.2.requests t).isSome ∧
      A.grants (e.pre.2.requests + 5 + t.chunks.length) = true then 1 else 0
  | .term | .other => 0

/-- The blocks that the step frees. -/
def freedBy (e : ExitEvent) : ℕ :=
  match e.input with
  | .term => if e.pre.1.toFree.isSome then 1 else 0
  | .secParms .. | .other => 0

/-- An MQCSP with its token behind it. -/
def cspOf (image : CspImage) (token : Bytes) : Bytes :=
  (image token.length).val ++ token

/-- The step makes a new block the MQCSP of the channel, with the token that it has obtained. -/
structure Installs (lib : Libraries) (image : CspImage) (e : ExitEvent) (a : ℕ) : Prop where
  fresh : e.pre.2.store.cells a = none
  parms : e.post.1.securityParms = some a
  csp : ∃ token, tokenOf A lib e = some token ∧
    e.post.2.store.cells a = some (.bytes (cspOf image token))

/-- The step frees the block. -/
def Frees (e : ExitEvent) (a : ℕ) : Prop :=
  match e.input with
  | .term => e.pre.1.toFree = some a
  | .secParms .. | .other => False

/-- A block holds a token. -/
def HoldsToken (cells : Cells) (a : ℕ) (token : Bytes) : Prop :=
  cells a = some (.bytes (token ++ [0]))

/-- The memory after a history: the blocks from before, and those that the history accounts for;
each token it has obtained is in a block of its own; and `SecurityParms` points to none of these. -/
structure Accounts (base : Cells) (tr : List ExitEvent) (s : ChannelParms × Memory) : Prop where
  blocks : ∃ new, Extends base s.2.store.cells new ∧
    new.card + (tr.map freedBy).sum =
      (tr.map (lostBy A json)).sum + (tr.map (installedBy A lib)).sum
  tokens : ∃ addrs : List ℕ, addrs.Nodup ∧
    List.Forall₂ (HoldsToken s.2.store.cells) addrs (tr.filterMap (tokenOf A lib)) ∧
      ∀ a ∈ addrs, s.1.securityParms ≠ some a
  parms : ∀ a, s.1.securityParms = some a → base a = none

/-! ### The steps -/

variable {A} {json} {image : CspImage} {base : Cells} {tr : List ExitEvent} {p p' : ChannelParms}
  {m m' : Memory} {env : JwtEnv} {t : Transfer}

theorem not_mem_expectedToken {r : ℕ} {token : Bytes}
    (h : expectedToken A lib r t = some token) : (0 : UInt8) ∉ token := by
  rw [expectedToken, if_pos (completes_of_expectedToken h), found] at h
  split_ifs at h
  obtain ⟨tokenstr, -, rfl⟩ := Option.map_eq_some_iff.1 h
  exact not_mem_cstr tokenstr

/-- The structure is written to the front of a new block. -/
theorem exists_write_header {cells : Cells} {a n : ℕ} {fill : Bytes}
    (h : m.Owns cells a (.bytes fill)) (hfill : fill.length = 104 + n) (header : Field 104) :
    ∃ m' rest, rest.length = n ∧ write (some a) 0 header.val m = .ok ((), m') ∧
      m'.Owns cells a (.bytes (header.val ++ rest)) := by
  have hheader := header.property
  have hfits : 0 + header.val.length ≤ fill.length := by omega
  obtain ⟨m', hwrite, howns, -, -⟩ := write_owned h hfits
  refine ⟨m', fill.drop 104, by rw [List.length_drop]; omega, hwrite, ?_⟩
  rwa [List.take_zero, List.nil_append, hheader] at howns

/-- What is written to the rest of the block. -/
theorem exists_write_behind {cells : Cells} {a n : ℕ} {header rest text : Bytes}
    (h : m.Owns cells a (.bytes (header ++ rest))) (hheader : header.length = n)
    (hrest : rest.length = text.length) :
    ∃ m', write (some a) n text m = .ok ((), m') ∧
      m'.Owns cells a (.bytes (header ++ text)) := by
  subst hheader
  have hfits : header.length + text.length ≤ (header ++ rest).length := by
    rw [List.length_append, hrest]
  obtain ⟨m', hwrite, howns, -, -⟩ := write_owned h hfits
  refine ⟨m', hwrite, ?_⟩
  have hall : (header ++ rest).length ≤ header.length + text.length := by
    rw [List.length_append, hrest]
  rwa [List.take_left, List.drop_eq_nil_of_le hall, List.append_nil] at howns

/-- **A call at MQXR_SEC_PARMS**: it refuses the channel, or has a token, with an MQCSP or without
the memory for it. -/
theorem secParms_cases (json : JsonC lib) (image : CspImage) (p : ChannelParms)
    (h : Unchecked A lib env t m.requests) :
    (expectedToken A lib m.requests t = none ∧ ∃ m' answer,
      secParms A json image env t p m = .ok ({ p with exitResponse := .CLOSE_CHANNEL }, m') ∧
        Leaves m m' (lost A json m.requests t) answer) ∨
    ∃ token a m₁ answer, expectedToken A lib m.requests t = some token ∧
      HoldsToken m₁.store.cells a token ∧ m.store.cells a = none ∧
      Leaves m m₁ (lost A json m.requests t) answer ∧
      ((A.grants (m.requests + 5 + t.chunks.length) = false ∧
        secParms A json image env t p m = .ok ({ p with securityParms := none }, m₁.refused)) ∨
      (A.grants (m.requests + 5 + t.chunks.length) = true ∧ ∃ q m',
        secParms A json image env t p m =
          .ok ({ p with securityParms := some q, exitUserArea := SUCCESS }, m') ∧
        m'.Owns m₁.store.cells q (.bytes (cspOf image token)))) := by
  rcases hsome : expectedToken A lib m.requests t with - | token
  · obtain ⟨rc, m', hrc, hrun, hleaves⟩ := obtainToken_none json h hsome
    refine Or.inl ⟨rfl, m', _, ?_, hleaves⟩
    rw [secParms, bind_of_ok hrun]
    simp only [ne_eq, hrc, not_false_eq_true, if_true]
    rfl
  · obtain ⟨a, m₁, hrun, hcell, hfresh, hreq, hleaves⟩ := obtainToken_token json h hsome
    refine Or.inr ⟨token, a, m₁, _, rfl, hcell, hfresh, hleaves, ?_⟩
    have hnul : (0 : UInt8) ∈ token ++ [0] := List.mem_append_right _ (List.mem_singleton_self _)
    have hlength := strlen_owned (Memory.owns_of_cells hcell) hnul
    rw [cstr_append_nul, cstr_eq_self (not_mem_expectedToken hsome)] at hlength
    rw [secParms, bind_of_ok hrun]
    simp only [ne_eq, not_true_eq_false, if_false]
    rw [bind_of_ok hlength, ← hreq]
    rcases hgrant : A.grants m₁.requests with - | -
    · refine Or.inl ⟨rfl, ?_⟩
      rw [bind_of_ok (malloc_refused hgrant _)]
      rfl
    · refine Or.inr ⟨rfl, ?_⟩
      obtain ⟨m₂, hmalloc, howns₂, -, -⟩ := malloc_granted hgrant (104 + token.length)
      obtain ⟨m₃, rest, hrest, hheader, howns₃⟩ :=
        exists_write_header howns₂ (A.length_fill _ _) (image token.length)
      -- the copy of the token is another block
      have hne : a ≠ m₁.store.top := by
        rintro rfl
        rw [m₁.store.fresh _ le_rfl] at hcell
        cases hcell
      have hcell₃ : m₃.store.cells a = some (.bytes (token ++ [0])) := by
        rw [howns₃.cells, Function.update_of_ne hne, hcell]
      have hle : token.length ≤ (token ++ [0]).length := by simp
      have hread := read_owned (Memory.owns_of_cells hcell₃) hle
      rw [List.take_left] at hread
      obtain ⟨m₄, hcopy, howns₄⟩ := exists_write_behind howns₃ (image token.length).property hrest
      refine ⟨_, m₄, ?_, howns₄⟩
      rw [bind_of_ok hmalloc]
      simp only []
      rw [bind_of_ok hheader, bind_of_ok hread, bind_of_ok hcopy]
      rfl

theorem securityParms_of_toFree {a : ℕ} (h : p.toFree = some a) : p.securityParms = some a := by
  rw [ChannelParms.toFree] at h
  split_ifs at h
  exact h

theorem securityParms_of_frees {e : ExitEvent} {a : ℕ} (h : Frees e a) :
    e.pre.1.securityParms = some a := by
  rw [Frees] at h
  split at h
  · exact securityParms_of_toFree h
  · exact h.elim
  · exact h.elim

/-- What a call at MQXR_TERM that goes well has freed. -/
theorem term_cases (h : term p m = .ok (p', m')) :
    p' = p ∧ ((p.toFree = none ∧ m' = m) ∨
      ∃ a b, p.toFree = some a ∧ m.store.cells a = some b ∧
        m'.store.cells = Function.update m.store.cells a none) := by
  rw [term] at h
  rcases hfree : p.toFree with - | a
  · rw [hfree] at h
    cases h
    exact ⟨rfl, Or.inl ⟨rfl, rfl⟩⟩
  · rw [hfree] at h
    rcases hcell : m.store.cells a with - | b
    · have hfault : free (some a) m = .error .doubleFree := by
        simp only [free, hcell]
      rw [bind_of_error hfault] at h
      cases h
    · rcases b with bs | -
      · obtain ⟨m₁, hrun, hcells, -, -⟩ := free_owned (Memory.owns_of_cells hcell)
        rw [bind_of_ok hrun] at h
        cases h
        exact ⟨rfl, Or.inr ⟨a, _, rfl, hcell, hcells⟩⟩
      · have hrun : free (some a) m = .ok ((), m.drop a) := by
          simp only [free, hcell]
        rw [bind_of_ok hrun] at h
        cases h
        exact ⟨rfl, Or.inr ⟨a, _, rfl, hcell, rfl⟩⟩

/-! ### Each step keeps the account -/

/-- Tokens in blocks that stay as they are. -/
theorem forall₂_holdsToken {cells cells' : Cells} {addrs : List ℕ} {tokens : List Bytes}
    (h : List.Forall₂ (HoldsToken cells) addrs tokens)
    (hkept : ∀ a ∈ addrs, ∀ token, HoldsToken cells a token → HoldsToken cells' a token) :
    List.Forall₂ (HoldsToken cells') addrs tokens := by
  induction h with
  | nil => exact .nil
  | cons hat _ ih =>
    refine .cons (hkept _ List.mem_cons_self _ hat) (ih fun a ha ↦ ?_)
    exact hkept a (List.mem_cons_of_mem _ ha)

theorem ne_none_of_forall₂_holdsToken {cells : Cells} {addrs : List ℕ} {tokens : List Bytes}
    (h : List.Forall₂ (HoldsToken cells) addrs tokens) : ∀ a ∈ addrs, cells a ≠ none := by
  induction h with
  | nil => exact fun a ha ↦ absurd ha List.not_mem_nil
  | cons hat _ ih =>
    rw [List.forall_mem_cons]
    exact ⟨fun hnone ↦ Option.some_ne_none _ (hat.symm.trans hnone), ih⟩

theorem sum_map_append_singleton (f : ExitEvent → ℕ) (tr : List ExitEvent) (e : ExitEvent) :
    ((tr ++ [e]).map f).sum = (tr.map f).sum + f e := by
  rw [List.map_append, List.sum_append, List.map_singleton, List.sum_singleton]

/-- A step that adds blocks, and no token. -/
theorem Accounts.extend (h : Accounts A json base tr (p, m)) {new : Finset ℕ}
    (hextends : Extends m.store.cells m'.store.cells new) {call : ExitCall}
    (hparms : p'.securityParms = p.securityParms)
    (htoken : tokenOf A lib ⟨(p, m), call, (), (p', m')⟩ = none)
    (hcard : new.card + freedBy ⟨(p, m), call, (), (p', m')⟩ =
      lostBy A json ⟨(p, m), call, (), (p', m')⟩ +
        installedBy A lib ⟨(p, m), call, (), (p', m')⟩) :
    Accounts A json base (tr ++ [⟨(p, m), call, (), (p', m')⟩]) (p', m') := by
  obtain ⟨⟨old, hold, hsum⟩, ⟨addrs, hnodup, htokens, hapart⟩, hp⟩ := h
  obtain ⟨hdisjoint, hall⟩ := hold.trans hextends
  refine ⟨⟨_, hall, ?_⟩, ⟨addrs, hnodup, ?_, ?_⟩, ?_⟩
  · simp only [Finset.card_union_of_disjoint hdisjoint, sum_map_append_singleton]
    omega
  · rw [List.filterMap_append, List.filterMap_cons_none htoken, List.filterMap_nil,
      List.append_nil]
    exact forall₂_holdsToken htokens fun a _ token hat ↦ hextends.kept hat
  · exact fun a ha ↦ hparms ▸ hapart a ha
  · exact fun a ha ↦ hp a (hparms ▸ ha)

/-- A call that obtains a token, and leaves one pointer or none. -/
theorem Accounts.obtains (h : Accounts A json base tr (p, m)) {token : Bytes} {a : ℕ}
    {new : Finset ℕ} (hextends : Extends m.store.cells m'.store.cells new)
    (htoken : expectedToken A lib m.requests t = some token)
    (hat : HoldsToken m'.store.cells a token) (hfresh : m.store.cells a = none)
    (hparms : ∀ q, p'.securityParms = some q → q ≠ a ∧ m.store.cells q = none)
    (hcard : new.card = lost A json m.requests t +
      if A.grants (m.requests + 5 + t.chunks.length) = true then 1 else 0) :
    Accounts A json base (tr ++ [⟨(p, m), .secParms env t, (), (p', m')⟩]) (p', m') := by
  obtain ⟨⟨old, hold, hsum⟩, ⟨addrs, hnodup, htokens, hapart⟩, hp⟩ := h
  obtain ⟨hdisjoint, hall⟩ := hold.trans hextends
  -- the blocks of the tokens before are there, so that of this one is another
  have hthere := ne_none_of_forall₂_holdsToken htokens
  refine ⟨⟨_, hall, ?_⟩, ⟨addrs ++ [a], ?_, ?_, ?_⟩, ?_⟩
  · simp only [Finset.card_union_of_disjoint hdisjoint, sum_map_append_singleton, hcard, freedBy,
      lostBy, installedBy, htoken, Option.isSome_some, true_and]
    omega
  · rw [List.nodup_append]
    refine ⟨hnodup, List.nodup_singleton a, fun b hb c hc ↦ ?_⟩
    rw [List.mem_singleton.1 hc]
    rintro rfl
    exact hthere _ hb hfresh
  · rw [List.filterMap_append]
    refine List.rel_append ?_ ?_
    · exact forall₂_holdsToken htokens fun b _ token hb ↦ hextends.kept hb
    · have hone : [(⟨(p, m), .secParms env t, (), (p', m')⟩ : ExitEvent)].filterMap
          (tokenOf A lib) = [token] := List.filterMap_cons_some htoken
      rw [hone]
      exact .cons hat .nil
  · intro b hb hq
    obtain ⟨hne, hfree⟩ := hparms b hq
    rcases List.mem_append.1 hb with hb | hb
    · exact hthere b hb hfree
    · exact hne (List.mem_singleton.1 hb)
  · intro q hq
    by_contra hne
    obtain ⟨b, hb⟩ := Option.ne_none_iff_exists'.1 hne
    have habs := (hparms q hq).2
    rw [hold.kept hb] at habs
    cases habs

/-- A call at MQXR_TERM that goes well frees an MQCSP of the exit, and no token. -/
theorem Accounts.term (h : Accounts A json base tr (p, m)) (hs : term p m = .ok (p', m')) :
    Accounts A json base (tr ++ [⟨(p, m), .term, (), (p', m')⟩]) (p', m') := by
  obtain ⟨rfl, ⟨hnone, rfl⟩ | ⟨a, b, hfree, hcell, hcells⟩⟩ := term_cases hs
  · refine h.extend (Extends.refl _) rfl rfl ?_
    simp only [freedBy, hnone, lostBy, installedBy]
    rfl
  obtain ⟨⟨new, hnew, hsum⟩, ⟨addrs, hnodup, htokens, hapart⟩, hp⟩ := h
  have hparms := securityParms_of_toFree hfree
  have hbase := hp a hparms
  -- the block is one that the channel has made, as there was none there before
  have hmem : a ∈ new := by
    by_contra hnot
    have hrest := hnew.rest a hnot
    rw [hcell, hbase] at hrest
    cases hrest
  refine ⟨⟨new.erase a, ⟨?_, ?_, ?_⟩, ?_⟩, ⟨addrs, hnodup, ?_, hapart⟩, hp⟩
  · exact fun c hc ↦ hnew.fresh c (Finset.mem_of_mem_erase hc)
  · intro c hc
    show m'.store.cells c ≠ none
    rw [hcells, Function.update_of_ne (Finset.ne_of_mem_erase hc)]
    exact hnew.there c (Finset.mem_of_mem_erase hc)
  · intro c hc
    show m'.store.cells c = _
    rcases eq_or_ne c a with rfl | hne
    · rw [hcells, Function.update_self, hbase]
    · rw [hcells, Function.update_of_ne hne]
      exact hnew.rest c fun hin ↦ hc (Finset.mem_erase.2 ⟨hne, hin⟩)
  · have hcard := Finset.card_erase_add_one hmem
    simp only [sum_map_append_singleton, freedBy, hfree, Option.isSome_some, if_true, lostBy,
      installedBy]
    omega
  · have htoken : tokenOf A lib ⟨(p', m), .term, (), (p', m')⟩ = none := rfl
    rw [List.filterMap_append, List.filterMap_cons_none htoken, List.filterMap_nil,
      List.append_nil]
    refine forall₂_holdsToken htokens fun c hc token hat ↦ ?_
    -- the tokens are in other blocks
    have hne : c ≠ a := by
      rintro rfl
      exact hapart c hc hparms
    show m'.store.cells c = _
    rw [hcells, Function.update_of_ne hne]
    exact hat

theorem chlExit_of_step {call : ExitCall} {o : Unit}
    (hs : (extjwtexit A json image).step (p, m) call = some ((p', m'), o)) :
    chlExit A json image p call m = .ok (p', m') := by
  simp only [extjwtexit] at hs
  split at hs
  case h_1 r hr =>
    rw [hr, (Prod.mk.inj (Option.some.inj hs)).1]
  case h_2 => cases hs

/-- **Each step keeps the account**, if what the exit does not check is as it should be. -/
theorem Accounts.step {s s' : ChannelParms × Memory} {call : ExitCall}
    (h : Accounts A json base tr s) (hs : (extjwtexit A json image).step s call = some (s', ()))
    (hmeets : MeetsUnchecked A lib ⟨s, call, (), s'⟩) :
    Accounts A json base (tr ++ [⟨s, call, (), s'⟩]) s' := by
  obtain ⟨p, m⟩ := s
  obtain ⟨p', m'⟩ := s'
  have hrun := chlExit_of_step hs
  rcases call with ⟨env, t⟩ | - | -
  · rcases secParms_cases json image p hmeets with
      ⟨hnone, m₁, answer, hcall, ⟨new, hextends, hcard⟩, -⟩ |
      ⟨token, a, m₁, answer, hsome, hat, hfresh, ⟨⟨new, hextends, hcard⟩, -⟩, hcsp⟩
    · rw [chlExit, hcall] at hrun
      cases hrun
      -- no token: the account changes by the objects of json-c
      refine h.extend hextends rfl hnone ?_
      simp only [freedBy, lostBy, installedBy, hcard, hnone]
      rfl
    · rcases hcsp with ⟨hgrant, hcall⟩ | ⟨hgrant, q, m₂, hcall, howns⟩
      · rw [chlExit, hcall] at hrun
        cases hrun
        -- a token, but no memory for an MQCSP
        refine h.obtains hextends hsome hat hfresh (fun q hq ↦ by cases hq) ?_
        rw [hcard, hgrant]
        rfl
      · rw [chlExit, hcall] at hrun
        cases hrun
        -- a token, and an MQCSP in a block of its own
        obtain ⟨new', hextends', hcard'⟩ := hextends.add howns.free (.bytes (cspOf image token))
        have hne : a ≠ q := by
          rintro rfl
          exact Option.some_ne_none _ (hat.symm.trans howns.free)
        refine h.obtains (howns.cells ▸ hextends') hsome ?_ hfresh (fun q' hq ↦ ?_) ?_
        · rw [HoldsToken, howns.cells, Function.update_of_ne hne]
          exact hat
        · cases hq
          refine ⟨hne.symm, ?_⟩
          by_contra hne'
          obtain ⟨b, hb⟩ := Option.ne_none_iff_exists'.1 hne'
          exact Option.some_ne_none _ ((hextends.kept hb).symm.trans howns.free)
        · rw [hcard', hcard, hgrant, if_pos rfl]
  · exact h.term hrun
  · cases hrun
    refine h.extend (Extends.refl _) rfl rfl ?_
    rfl

theorem accounts_start (version : MQLONG) (m : Memory) :
    Accounts A json m.store.cells [] (ChannelParms.start version, m) where
  blocks := ⟨∅, Extends.refl _, rfl⟩
  tokens := ⟨[], List.nodup_nil, .nil, fun a ha ↦ absurd ha List.not_mem_nil⟩
  parms a ha := by cases ha

/-! ### What is freed -/

/-- What a step does with the blocks: it frees none, and installs an MQCSP or not; or it frees the
MQCSP. -/
inductive ExitEffect (A : Allocator) (image : CspImage) (lib : Libraries) (e : ExitEvent) : Prop
  | keeps (hextends : ∃ new, Extends e.pre.2.store.cells e.post.2.store.cells new)
      (hfrees : ∀ a, ¬ Frees e a)
      (hparms : ∀ a, e.post.1.securityParms = some a →
        e.pre.1.securityParms = some a ∨ Installs A lib image e a)
  | frees (a : ℕ) (hfrees : Frees e a) (hthere : e.pre.2.store.cells a ≠ none)
      (hcells : e.post.2.store.cells = Function.update e.pre.2.store.cells a none)
      (hsame : e.post.1 = e.pre.1)

/-- **What a step does**, if what the exit does not check is as it should be. -/
theorem exitEffect {call : ExitCall} (hrun : chlExit A json image p call m = .ok (p', m'))
    (hmeets : MeetsUnchecked A lib ⟨(p, m), call, (), (p', m')⟩) :
    ExitEffect A image lib ⟨(p, m), call, (), (p', m')⟩ := by
  rcases call with ⟨env, t⟩ | - | -
  · rcases secParms_cases json image p hmeets with
      ⟨-, m₁, answer, hcall, ⟨new, hextends, -⟩, -⟩ |
      ⟨token, a, m₁, answer, hsome, -, -, ⟨⟨new, hextends, -⟩, -⟩, ⟨-, hcall⟩ |
        ⟨-, q, m₂, hcall, howns⟩⟩
    · rw [chlExit, hcall] at hrun
      cases hrun
      exact .keeps ⟨new, hextends⟩ (fun _ h ↦ h) fun a ha ↦ Or.inl ha
    · rw [chlExit, hcall] at hrun
      cases hrun
      exact .keeps ⟨new, hextends⟩ (fun _ h ↦ h) fun a ha ↦ absurd ha (by simp)
    · rw [chlExit, hcall] at hrun
      cases hrun
      obtain ⟨new', hextends', -⟩ := hextends.add howns.free (.bytes (cspOf image token))
      refine .keeps ⟨new', howns.cells ▸ hextends'⟩ (fun _ h ↦ h) fun a ha ↦ Or.inr ?_
      cases ha
      refine ⟨?_, rfl, token, hsome, howns.at_self⟩
      -- what is free behind the answer was free before it
      by_contra hne
      obtain ⟨b, hb⟩ := Option.ne_none_iff_exists'.1 hne
      exact Option.some_ne_none _ ((hextends.kept hb).symm.trans howns.free)
  · obtain ⟨rfl, ⟨hnone, rfl⟩ | ⟨a, b, hfree, hcell, hcells⟩⟩ := term_cases hrun
    · refine .keeps ⟨∅, Extends.refl _⟩ (fun a ha ↦ ?_) fun a ha ↦ Or.inl ha
      rw [Frees, hnone] at ha
      cases ha
    · refine .frees a hfree ?_ hcells rfl
      show m.store.cells a ≠ none
      rw [hcell]
      exact Option.some_ne_none b
  · cases hrun
    exact .keeps ⟨∅, Extends.refl _⟩ (fun _ h ↦ h) fun a ha ↦ Or.inl ha

/-- What has been freed in a history are MQCSPs of the exit, and no object of json-c has gone. -/
structure FreesOwn (A : Allocator) (image : CspImage) (lib : Libraries) (tr : List ExitEvent)
    (s : ChannelParms × Memory) : Prop where
  parms : ∀ a, s.1.securityParms = some a → (∃ e ∈ tr, Installs A lib image e a) ∧
    a < s.2.store.top ∧ s.2.store.cells a ≠ some .object
  objects : ∀ e ∈ tr, ∀ a, e.post.2.store.cells a = some .object →
    s.2.store.cells a = some .object
  frees : ∀ before e after, tr = before ++ e :: after → ∀ a, Frees e a →
    (∃ e' ∈ before, Installs A lib image e' a) ∧ a < s.2.store.top ∧
      s.2.store.cells a = none

theorem lt_top_of_cells {a : ℕ} {b : Block} (h : m.store.cells a = some b) :
    a < m.store.top := by
  by_contra hge
  rw [m.store.fresh a (not_lt.1 hge)] at h
  cases h

/-- **Each step keeps it.** -/
theorem FreesOwn.step {e : ExitEvent} (h : FreesOwn A image lib tr e.pre)
    (hadvances : Advances e.pre.2 e.post.2) (heffect : ExitEffect A image lib e) :
    FreesOwn A image lib (tr ++ [e]) e.post := by
  have hobjects : (∀ a, e.pre.2.store.cells a = some .object →
      e.post.2.store.cells a = some .object) → ∀ e' ∈ tr ++ [e], ∀ a,
        e'.post.2.store.cells a = some .object → e.post.2.store.cells a = some .object := by
    intro hkept e' he' a ha
    rcases List.mem_append.1 he' with he' | he'
    · exact hkept a (h.objects e' he' a ha)
    · rwa [← List.mem_singleton.1 he']
  have hfreed : (∀ a, Frees e a → (∃ e' ∈ tr, Installs A lib image e' a) ∧
      a < e.post.2.store.top ∧ e.post.2.store.cells a = none) →
      ∀ before e' after, tr ++ [e] = before ++ e' :: after → ∀ a, Frees e' a →
        (∃ e'' ∈ before, Installs A lib image e'' a) ∧ a < e.post.2.store.top ∧
          e.post.2.store.cells a = none := by
    intro hlast
    refine Machine.forall_split_append_singleton.2 ⟨fun before e' after htr a ha ↦ ?_, hlast⟩
    obtain ⟨hinstalls, hlt, hnone⟩ := h.frees before e' after htr a ha
    exact ⟨hinstalls, hlt.trans_le hadvances.top_le, hadvances.free a hlt hnone⟩
  rcases heffect with ⟨⟨new, hextends⟩, hnot, hparms⟩ | ⟨a, hfrees, hthere, hcells, hsame⟩
  · -- a step that frees nothing: either it leaves SecurityParms, or it installs an MQCSP
    refine ⟨fun q hq ↦ ?_, hobjects fun a ha ↦ hextends.kept ha,
      hfreed fun a ha ↦ absurd ha (hnot a)⟩
    rcases hparms q hq with hq | hinstalls
    · obtain ⟨⟨e', he', hinstalls⟩, hlt, hblock⟩ := h.parms q hq
      refine ⟨⟨e', List.mem_append_left _ he', hinstalls⟩, hlt.trans_le hadvances.top_le, ?_⟩
      rcases hcell : e.pre.2.store.cells q with - | b
      · rw [hadvances.free q hlt hcell]
        exact (Option.some_ne_none _).symm
      · rw [hextends.kept hcell, ← hcell]
        exact hblock
    · obtain ⟨token, -, hcell⟩ := hinstalls.csp
      refine ⟨⟨e, List.mem_append_right _ (List.mem_singleton_self e), hinstalls⟩,
        lt_top_of_cells hcell, ?_⟩
      rw [hcell]
      exact fun heq ↦ Block.noConfusion (Option.some.inj heq)
  · -- a step that frees: it is SecurityParms that is freed, and an earlier step has installed it
    have ha := securityParms_of_frees hfrees
    obtain ⟨⟨e', he', hinstalls⟩, hlt, hblock⟩ := h.parms a ha
    have hnone : e.post.2.store.cells a = none := by rw [hcells, Function.update_self]
    have hless : a < e.post.2.store.top := hlt.trans_le hadvances.top_le
    refine ⟨fun q hq ↦ ?_, hobjects fun q hq ↦ ?_, hfreed fun q hq ↦ ?_⟩
    · rw [hsame, ha] at hq
      cases hq
      refine ⟨⟨e', List.mem_append_left _ he', hinstalls⟩, hless, ?_⟩
      rw [hnone]
      exact (Option.some_ne_none _).symm
    · -- what it frees is no object of json-c
      have hne : q ≠ a := by
        rintro rfl
        exact hblock hq
      rw [hcells, Function.update_of_ne hne]
      exact hq
    · cases (securityParms_of_frees hq).symm.trans ha
      exact ⟨⟨e', he', hinstalls⟩, hless, hnone⟩

theorem freesOwn_start (version : MQLONG) (m : Memory) :
    FreesOwn A image lib [] (ChannelParms.start version, m) where
  parms a ha := by cases ha
  objects e he := absurd he List.not_mem_nil
  frees before e after htr := by simp at htr

theorem freesOwn_of_run {version : MQLONG} {m : Memory} {s : ChannelParms × Memory}
    (h : (extjwtexit A json image).Run (ChannelParms.start version, m) tr s)
    (hmeets : ∀ e ∈ tr, MeetsUnchecked A lib e) : FreesOwn A image lib tr s := by
  refine h.invariant_of_forall (freesOwn_start version m) (fun tr s call s' o hI hs hC ↦ ?_) hmeets
  obtain ⟨p, m⟩ := s
  obtain ⟨p', m'⟩ := s'
  have hrun := chlExit_of_step hs
  exact hI.step (e := ⟨(p, m), call, (), (p', m')⟩)
    (givesOnce_chlExit A json image p call m p' m' hrun) (exitEffect hrun hC)

/-- **What a channel leaves in memory**: its MQCSPs come and go, and everything else stays, with
each token it has obtained in a block of its own, before and after MQXR_TERM. What is freed is an
MQCSP that an earlier call has made, and no token or object of json-c. -/
theorem run_leaves {version : MQLONG} {m : Memory} {s : ChannelParms × Memory}
    (h : (extjwtexit A json image).Run (ChannelParms.start version, m) tr s)
    (hmeets : ∀ e ∈ tr, MeetsUnchecked A lib e) :
    (∃ new, Extends m.store.cells s.2.store.cells new ∧
      new.card + (tr.map freedBy).sum =
        (tr.map (lostBy A json)).sum + (tr.map (installedBy A lib)).sum) ∧
    (∃ addrs : List ℕ, addrs.Nodup ∧
      List.Forall₂ (HoldsToken s.2.store.cells) addrs (tr.filterMap (tokenOf A lib)) ∧
      ∀ e ∈ tr, ∀ a, Frees e a → a ∉ addrs) ∧
    (∀ e ∈ tr, ∀ a, e.post.2.store.cells a = some .object →
      s.2.store.cells a = some .object) ∧
    ∀ before e after, tr = before ++ e :: after → ∀ a, Frees e a →
      (∃ e' ∈ before, Installs A lib image e' a) ∧ s.2.store.cells a = none := by
  have haccounts : Accounts A json m.store.cells tr s :=
    h.invariant_of_forall (accounts_start version m) (fun _ _ _ _ _ hI hs hC ↦ hI.step hs hC) hmeets
  obtain ⟨addrs, hnodup, htokens, -⟩ := haccounts.tokens
  have howns := freesOwn_of_run h hmeets
  refine ⟨haccounts.blocks, ⟨addrs, hnodup, htokens, fun e he a ha hmem ↦ ?_⟩, howns.objects,
    fun before e after htr a ha ↦ ?_⟩
  · obtain ⟨before, after, htr⟩ := List.append_of_mem he
    exact ne_none_of_forall₂_holdsToken htokens a hmem (howns.frees before e after htr a ha).2.2
  · obtain ⟨hinstalls, -, hnone⟩ := howns.frees before e after htr a ha
    exact ⟨hinstalls, hnone⟩

/-! ### A channel -/

def zeroImage : CspImage :=
  fun _ ↦ ⟨List.replicate 104 0, rfl⟩

/-- Two requests, the answer to each in two pieces, and the end of the channel. -/
def twoRequests : List ExitCall :=
  List.replicate 2 (.secParms someEnv oneTransfer) ++ [.term]

def twoRequestsRun : List ExitEvent × (ChannelParms × Memory) :=
  ((extjwtexit ampleMemory oneAnswerJson zeroImage).replay (.start 6, .empty) twoRequests).getD
    ([], .start 6, .empty)

theorem run_leaves_twoRequests :
    (∃ new, Extends Memory.empty.store.cells twoRequestsRun.2.2.store.cells new ∧
      new.card + (twoRequestsRun.1.map freedBy).sum =
        (twoRequestsRun.1.map (lostBy ampleMemory oneAnswerJson)).sum +
          (twoRequestsRun.1.map (installedBy ampleMemory oneAnswer)).sum) ∧
    (∃ addrs : List ℕ, addrs.Nodup ∧
      List.Forall₂ (HoldsToken twoRequestsRun.2.2.store.cells) addrs
        (twoRequestsRun.1.filterMap (tokenOf ampleMemory oneAnswer)) ∧
      ∀ e ∈ twoRequestsRun.1, ∀ a, Frees e a → a ∉ addrs) ∧
    (∀ e ∈ twoRequestsRun.1, ∀ a, e.post.2.store.cells a = some .object →
      twoRequestsRun.2.2.store.cells a = some .object) ∧
    ∀ before e after, twoRequestsRun.1 = before ++ e :: after → ∀ a, Frees e a →
      (∃ e' ∈ before, Installs ampleMemory oneAnswer zeroImage e' a) ∧
        twoRequestsRun.2.2.store.cells a = none :=
  run_leaves (Machine.run_getD_replay (by decide +kernel)) (by decide +kernel)

example : (twoRequestsRun.1.filterMap (tokenOf ampleMemory oneAnswer)) =
    [lit "abc", lit "abc"] := by decide +kernel

end MqExits.Jwt.Extjwtexit
