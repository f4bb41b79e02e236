import MqExits.Mqi.Types
import MqExits.Runs.Ledger

/-!
# The token exit: who owns `SecurityParms`

`ChlExit` of `extjwtexit` is called at MQXR_SEC_PARMS to put an MQCSP with a token in
`SecurityParms`, and at MQXR_TERM to free it. Whether the block is the exit's own is kept in the
first byte of `ExitUserArea`, where **the value for success is the value the area starts with**. So
at MQXR_TERM whatever `SecurityParms` points to is freed; and a block that a later token replaces is
freed by nobody (`ownsParms_iff`).

## What is kept over the calls

A channel makes any number of calls at MQXR_SEC_PARMS, and one at MQXR_TERM after them. Before that
one, each call does one of three things (`secParms_cases`): without a token it closes the channel,
with a token it installs a new block, and where there is no memory for that it leaves a null
pointer. None of them frees anything. So what is held at MQXR_TERM is every block that was installed
(`Tracks`), and freeing the one in `SecurityParms` is right if it is the only one.

The MQCSP that the exit was given is no block of its own, so a call that frees it is outside what
the ledger allows.
-/

namespace MqExits.Jwt

open CText Ledger

/-- The address of an MQCSP. -/
abbrev CspAddr := ℕ

/-- The fields of an MQCSP that the exit sets, and the bytes that follow the structure. -/
structure MQCSP where
  version : MQLONG := 1
  authenticationType : MQLONG := 0
  tokenLength : MQLONG := 0
  tokenOffset : MQLONG := 0
  tail : Bytes := []
  deriving DecidableEq

def MQCSP_DEFAULT : MQCSP := {}

def MQCSP_AUTH_ID_TOKEN : MQLONG := 3

/-- `sizeof(MQCSP)`, with 64-bit pointers. -/
def sizeofMQCSP : MQLONG := 104

def SUCCESS : UInt8 := 0

/-- `ExitResponse`. -/
inductive MQXCC
  | OK
  | CLOSE_CHANNEL
  deriving DecidableEq, Repr

/-- The fields of the MQCXP that the exit uses, and the blocks that can be read. -/
structure ExitParms where
  version : MQLONG
  exitResponse : MQXCC
  /-- `ExitUserArea[0]`. -/
  exitUserArea : UInt8
  securityParms : Option CspAddr
  heap : CspAddr → Option MQCSP
  /-- Where the next allocation goes. -/
  next : CspAddr

/-- A channel at its start: the user area is zero, and `SecurityParms` is null or points to an MQCSP
that is somebody else's. -/
def ExitParms.start (version : MQLONG) (supplied : Option MQCSP) : ExitParms where
  version := version
  exitResponse := .OK
  exitUserArea := 0
  securityParms := supplied.map fun _ ↦ 0
  heap a := if a = 0 then supplied else none
  next := 1

/-- What one MQXR_SEC_PARMS call meets: the token that `obtainToken` gets, if it gets one, and
whether `malloc` succeeds. -/
structure SecParmsCall where
  token : Option Bytes
  mallocOk : Bool

/-- The MQCSP for a token. -/
def tokenCsp (token : Bytes) : MQCSP :=
  { MQCSP_DEFAULT with
    version := 3
    authenticationType := MQCSP_AUTH_ID_TOKEN
    tokenLength := token.length
    tokenOffset := sizeofMQCSP
    tail := token }

/-- `ChlExit` of a security exit at MQXR_SEC_PARMS. -/
def secParms (p : ExitParms) (call : SecParmsCall) : ExitParms × List (Op CspAddr) :=
  match call.token with
  | none => ({ p with exitResponse := .CLOSE_CHANNEL }, [])
  | some token =>
    if call.mallocOk then
      ({ p with
        securityParms := some p.next
        heap := Function.update p.heap p.next (some (tokenCsp (cstr token)))
        next := p.next + 1
        exitUserArea := SUCCESS }, [.acquire p.next])
    else ({ p with securityParms := none }, [])

/-- `ChlExit` of a security exit at MQXR_TERM. -/
def term (p : ExitParms) : ExitParms × List (Op CspAddr) :=
  if p.version > 5 then
    match p.securityParms with
    | none => (p, [])
    | some a =>
      if p.exitUserArea = SUCCESS then
        ({ p with heap := Function.update p.heap a none }, [.release a])
      else (p, [])
  else (p, [])

/-- A call of the exit as a security exit, by its reason. -/
inductive ChlExitCall
  | secParms (call : SecParmsCall)
  | term
  | other

/-- `ChlExit`, called as a security exit. -/
def chlExit (p : ExitParms) : ChlExitCall → ExitParms × List (Op CspAddr)
  | .secParms call => secParms p call
  | .term => term p
  | .other => (p, [])

/-- A run of the exit on one channel, with the ledger of its blocks. -/
def runChannel (p : ExitParms) (calls : List ChlExitCall) : ExitParms × List (Op CspAddr) :=
  calls.foldl (fun r call ↦ ((chlExit r.1 call).1, r.2 ++ (chlExit r.1 call).2)) (p, [])

theorem runChannel_append_singleton (p : ExitParms) (calls : List ChlExitCall)
    (call : ChlExitCall) :
    runChannel p (calls ++ [call]) =
      ((chlExit (runChannel p calls).1 call).1,
        (runChannel p calls).2 ++ (chlExit (runChannel p calls).1 call).2) := by
  rw [runChannel, List.foldl_append]
  rfl

/-- The MQXR_SEC_PARMS calls on a channel. -/
def secParmsCalls (p : ExitParms) (calls : List SecParmsCall) : ExitParms × List (Op CspAddr) :=
  runChannel p (calls.map .secParms)

@[simp] theorem secParmsCalls_nil (p : ExitParms) : secParmsCalls p [] = (p, []) := rfl

theorem secParmsCalls_append_singleton (p : ExitParms) (calls : List SecParmsCall)
    (call : SecParmsCall) :
    secParmsCalls p (calls ++ [call]) =
      ((secParms (secParmsCalls p calls).1 call).1,
        (secParmsCalls p calls).2 ++ (secParms (secParmsCalls p calls).1 call).2) := by
  rw [secParmsCalls, List.map_append]
  exact runChannel_append_singleton p _ (.secParms call)

/-- The ledger of a whole channel: any number of MQXR_SEC_PARMS calls, then MQXR_TERM. -/
def channelLedger (version : MQLONG) (supplied : Option MQCSP) (calls : List SecParmsCall) :
    List (Op CspAddr) :=
  (runChannel (.start version supplied) (calls.map .secParms ++ [.term])).2

theorem channelLedger_eq (version : MQLONG) (supplied : Option MQCSP)
    (calls : List SecParmsCall) :
    channelLedger version supplied calls =
      (secParmsCalls (.start version supplied) calls).2 ++
        (term (secParmsCalls (.start version supplied) calls).1).2 := by
  rw [channelLedger, runChannel_append_singleton]
  rfl

/-! ### What the calls keep -/

/-- The call puts a new block in `SecurityParms`. -/
def SecParmsCall.installs (call : SecParmsCall) : Prop :=
  call.token.isSome ∧ call.mallocOk = true

/-- **What one call does**: nothing but refuse, or install a new block, or lose the pointer. -/
theorem secParms_cases (p : ExitParms) (call : SecParmsCall) :
    (call.token = none ∧ secParms p call = ({ p with exitResponse := .CLOSE_CHANNEL }, [])) ∨
    (call.installs ∧ ∃ csp, secParms p call =
      ({ p with
        securityParms := some p.next
        heap := Function.update p.heap p.next (some csp)
        next := p.next + 1
        exitUserArea := SUCCESS }, [.acquire p.next])) ∨
    (call.token.isSome ∧ ¬ call.installs ∧
      secParms p call = ({ p with securityParms := none }, [])) := by
  rw [secParms, SecParmsCall.installs]
  rcases call.token with - | token
  · exact Or.inl ⟨rfl, rfl⟩
  · rcases call.mallocOk with - | -
    · exact Or.inr (Or.inr ⟨rfl, by simp, rfl⟩)
    · exact Or.inr (Or.inl ⟨⟨rfl, rfl⟩, _, rfl⟩)

/-- What holds while no MQXR_TERM has come: the user area never says anything but success, and the
blocks held are exactly those some call has installed. -/
structure Tracks (version : MQLONG) (calls : List SecParmsCall) (p : ExitParms)
    (ops : List (Op CspAddr)) : Prop where
  version : p.version = version
  userArea : p.exitUserArea = SUCCESS
  disciplined : Disciplined ops
  fresh : ∀ a, Held ops a → a < p.next
  holds : (∀ a, ¬ Held ops a) ↔ ∀ call ∈ calls, ¬ call.installs

theorem tracks_secParmsCalls (version : MQLONG) (supplied : Option MQCSP)
    (calls : List SecParmsCall) :
    Tracks version calls (secParmsCalls (.start version supplied) calls).1
      (secParmsCalls (.start version supplied) calls).2 := by
  induction calls using List.reverseRecOn with
  | nil =>
    exact ⟨rfl, rfl, disciplined_nil, fun a h ↦ absurd h (not_held_nil a), by simp⟩
  | append_singleton calls call ih =>
    rw [secParmsCalls_append_singleton]
    generalize secParmsCalls (.start version supplied) calls = r at ih
    obtain ⟨hv, hua, hd, hfresh, hholds⟩ := ih
    have hall : (∀ c ∈ calls ++ [call], ¬ c.installs) ↔
        (∀ c ∈ calls, ¬ c.installs) ∧ ¬ call.installs := by
      simp [or_imp, forall_and]
    -- no token; a token and memory for its MQCSP; a token and no memory
    rcases secParms_cases r.1 call with ⟨ht, heq⟩ | ⟨hi, csp, heq⟩ | ⟨-, hni, heq⟩
    · have hni : ¬ call.installs := fun hi ↦ by simp [SecParmsCall.installs, ht] at hi
      rw [heq, List.append_nil]
      exact ⟨hv, hua, hd, hfresh, by rw [hall, hholds]; exact (and_iff_left hni).symm⟩
    · rw [heq]
      refine ⟨hv, rfl, disciplined_append_acquire.2 hd, ?_, ?_⟩
      · intro a ha
        rcases held_append_acquire.1 ha with rfl | ha
        · exact Nat.lt_succ_self _
        · exact Nat.lt_succ_of_lt (hfresh a ha)
      · refine iff_of_false (fun h ↦ ?_) fun h ↦ ?_
        · exact h r.1.next (held_append_acquire.2 (Or.inl rfl))
        · exact (hall.1 h).2 hi
    · rw [heq, List.append_nil]
      exact ⟨hv, hua, hd, hfresh, by rw [hall, hholds]; exact (and_iff_left hni).symm⟩

/-! ### The channel -/

/-- The exit frees nothing but its own blocks, none of them twice, and leaves none. -/
def OwnsParms (ops : List (Op CspAddr)) : Prop :=
  Disciplined ops ∧ ∀ a, ¬ Held ops a

/-- What MQXR_TERM makes of a ledger. -/
theorem ownsParms_term {version : MQLONG} {calls : List SecParmsCall} {p : ExitParms}
    {ops : List (Op CspAddr)} (h : Tracks version calls p ops) (hv : 5 < version) :
    OwnsParms (ops ++ (term p).2) ↔
      match p.securityParms with
      | none => ∀ a, ¬ Held ops a
      | some a => Held ops a ∧ ∀ b, b ≠ a → ¬ Held ops b := by
  have hgt : p.version > 5 := h.version ▸ hv
  rw [term, if_pos hgt]
  rcases p.securityParms with - | a
  · simp [OwnsParms, h.disciplined]
  · simp only [h.userArea, if_true, OwnsParms, disciplined_append_release, h.disciplined,
      true_and, held_append_release, not_and]
    exact and_congr_right fun _ ↦ forall_congr' fun b ↦ by rw [ne_comm]

/-- **When the exit frees exactly its own blocks**: when it was given none or gets a token at some
call, and no call gets a token after one that has installed a block. -/
theorem ownsParms_iff {version : MQLONG} (hv : 5 < version) (supplied : Option MQCSP)
    (calls : List SecParmsCall) :
    OwnsParms (channelLedger version supplied calls) ↔
      (supplied = none ∨ ∃ call ∈ calls, call.token.isSome) ∧
        calls.Pairwise fun call call' ↦ call.installs → call'.token = none := by
  have htracks := tracks_secParmsCalls version supplied
  rw [channelLedger_eq]
  induction calls using List.reverseRecOn with
  | nil =>
    rw [ownsParms_term (htracks []) hv]
    cases supplied <;> simp [ExitParms.start]
  | append_singleton calls call ih =>
    rw [ownsParms_term (htracks _) hv] at ih ⊢
    rw [secParmsCalls_append_singleton]
    have hprev := htracks calls
    generalize secParmsCalls (.start version supplied) calls = r at ih hprev ⊢
    -- a call without a token changes neither side; after one with a token, both sides say that no
    -- call before it has installed a block
    have htoken : call.token.isSome →
        ((supplied = none ∨ ∃ c ∈ calls ++ [call], c.token.isSome) ∧
            (calls ++ [call]).Pairwise (fun c c' ↦ c.installs → c'.token = none) ↔
          ∀ a, ¬ Held r.2 a) := by
      intro ht
      rw [hprev.holds, List.pairwise_append]
      constructor
      · rintro ⟨-, -, -, hpair⟩ c hc hi
        rw [hpair c hc call (by simp) hi] at ht
        cases ht
      · intro h
        refine ⟨Or.inr ⟨call, by simp, ht⟩, ?_, List.pairwise_singleton _ _, ?_⟩
        · exact List.Pairwise.imp_of_mem (fun hc _ _ hi ↦ absurd hi (h _ hc))
            (List.pairwise_of_forall fun _ _ ↦ trivial)
        · exact fun c hc _ _ hi ↦ absurd hi (h c hc)
    rcases secParms_cases r.1 call with ⟨ht, heq⟩ | ⟨hi, csp, heq⟩ | ⟨ht, -, heq⟩
    · rw [heq, List.append_nil]
      refine ih.trans ?_
      simp [ht, List.pairwise_append]
    · rw [heq, htoken hi.1]
      constructor
      · rintro ⟨-, h⟩ a ha
        exact h a (hprev.fresh a ha).ne (held_append_acquire.2 (Or.inr ha))
      · intro h
        refine ⟨held_append_acquire.2 (Or.inl rfl), fun b hb hheld ↦ ?_⟩
        rcases held_append_acquire.1 hheld with rfl | hheld
        · exact hb rfl
        · exact h b hheld
    · rw [heq, htoken ht, List.append_nil]

theorem ownsParms_iff_none :
    OwnsParms (channelLedger 6 none [⟨some (lit "token"), true⟩]) ↔
      ((none : Option MQCSP) = none ∨
        ∃ call ∈ [SecParmsCall.mk (some (lit "token")) true], call.token.isSome) ∧
        [SecParmsCall.mk (some (lit "token")) true].Pairwise
          fun call call' ↦ call.installs → call'.token = none :=
  ownsParms_iff (by decide) none _

/-- An MQCSP that somebody else has supplied is freed when no token is obtained, and a second token
leaves the block of the first. -/
theorem not_ownsParms :
    ¬ OwnsParms (channelLedger 6 (some MQCSP_DEFAULT) [⟨none, true⟩]) ∧
      ¬ OwnsParms (channelLedger 6 none
        [⟨some (lit "token"), true⟩, ⟨some (lit "token"), true⟩]) := by
  constructor
  · rintro ⟨hd, -⟩
    exact absurd (hd [] 0 [] rfl) (not_held_nil 0)
  · rintro ⟨-, hall⟩
    exact hall 1 rfl

end MqExits.Jwt
