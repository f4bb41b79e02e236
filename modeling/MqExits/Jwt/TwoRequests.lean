import MqExits.Jwt.JmsJwtExit

/-!
# The two requests of the Java exit

`JmsJwtExit.channelSecurityExit` requests a token to see whether there is one, and requests another
to set it. The calls stand in a `try` whose `catch` only prints. So what a run leaves depends on the
replies to both requests and on the first call that throws: it is as it should be where the second
reply has a token whenever the first did not close the channel, and nothing is thrown
(`lawful_iff`).

## Exceptions

A `Try` is the code of the block with what it has written so far, which an exception does not undo.
Which of its calls throw is a parameter, for any subset of them (`TryEnv.throws`), and so are the
replies; the two requests need not be answered alike. Where nothing throws, the block is the exit of
`JmsJwtExit`.

The first reply closes the channel only if the token that comes of it **is** the literal `""`. An
empty token that the library has made itself is another object, so it does not.
-/

namespace MqExits.Jwt

open CText

/-! ### The exit with its exceptions -/

/-- The calls in the `try` block. -/
inductive TryCall
  | setAuthenticationType
  | setVersion
  | firstObtainToken
  | secondObtainToken
  | setToken
  | setSecurityParms
  | setExitResponse
  deriving DecidableEq

/-- What a run of the exit meets: the replies to the two requests, and the calls that throw. A
request that fails within the `try` of `obtainToken` does not throw. -/
structure TryEnv where
  lib : Libraries
  first : Reply
  second : Reply
  throws : TryCall → Bool

/-- An exception of Java. -/
structure JavaException where
  thrownBy : TryCall

/-- What the block works on: the parameters, and the fields of `mycsp`. -/
structure TryState where
  parms : JmsParms
  version : MQLONG
  authenticationType : MQLONG
  token : Bytes

/-- The parameters as they are at MQXR_SEC_PARMS without an MQCSP, and the MQCSP that
`createMQCSP` makes. -/
def TryState.start : TryState :=
  ⟨⟨.OK, none⟩, 0, 0, []⟩

/-- Code that keeps what it has done when it throws. -/
abbrev Try := EStateM JavaException TryState

/-- A call that has an effect unless it throws. -/
def call (env : TryEnv) (c : TryCall) (effect : TryState → TryState) : Try Unit :=
  if env.throws c then throw ⟨c⟩ else modify effect

/-- A call of `obtainToken`. -/
def request (env : TryEnv) (c : TryCall) (reply : Reply) : Try JavaString :=
  if env.throws c then throw ⟨c⟩ else pure (JmsJwtExit.obtainToken env.lib reply)

/-- The `try` block. -/
def tryBlock (env : TryEnv) : Try Unit := do
  call env .setAuthenticationType fun s ↦ { s with authenticationType := MQCSP_AUTH_ID_TOKEN }
  call env .setVersion fun s ↦ { s with version := 3 }
  let tested ← request env .firstObtainToken env.first
  if tested.isEmptyLiteral then
    call env .setExitResponse fun s ↦
      { s with parms := { s.parms with exitResponse := .CLOSE_CHANNEL } }
  else
    let obtained ← request env .secondObtainToken env.second
    call env .setToken fun s ↦ { s with token := obtained.chars }
    call env .setSecurityParms fun s ↦
      { s with parms := { s.parms with
          securityParms := some (.created s.version s.authenticationType s.token) } }

/-- What the code leaves, whether it ends or throws: the `catch` does nothing to it. -/
def Try.leaves (block : Try Unit) (s : TryState) : TryState :=
  match block.run s with
  | .ok _ s' => s'
  | .error _ s' => s'

/-- `channelSecurityExit` at MQXR_SEC_PARMS with no MQCSP yet. -/
def securityExitLeaves (env : TryEnv) : JmsParms :=
  ((tryBlock env).leaves .start).parms

theorem leaves_call_bind {env : TryEnv} {c : TryCall} {effect : TryState → TryState}
    {rest : Unit → Try Unit} {s : TryState} :
    Try.leaves (call env c effect >>= rest) s =
      if env.throws c then s else Try.leaves (rest ()) (effect s) := by
  by_cases h : env.throws c = true
  · rw [if_pos h, call, if_pos h]
    rfl
  · rw [if_neg h, call, if_neg h]
    rfl

theorem leaves_call {env : TryEnv} {c : TryCall} {effect : TryState → TryState} {s : TryState} :
    Try.leaves (call env c effect) s = if env.throws c then s else effect s := by
  by_cases h : env.throws c = true
  · rw [if_pos h, call, if_pos h]
    rfl
  · rw [if_neg h, call, if_neg h]
    rfl

theorem leaves_request_bind {env : TryEnv} {c : TryCall} {reply : Reply}
    {rest : JavaString → Try Unit} {s : TryState} :
    Try.leaves (request env c reply >>= rest) s =
      if env.throws c then s
      else Try.leaves (rest (JmsJwtExit.obtainToken env.lib reply)) s := by
  by_cases h : env.throws c = true
  · rw [if_pos h, request, if_pos h]
    rfl
  · rw [if_neg h, request, if_neg h]
    rfl

theorem leaves_ite {p : Prop} [Decidable p] {block block' : Try Unit} {s : TryState} :
    Try.leaves (if p then block else block') s =
      if p then Try.leaves block s else Try.leaves block' s :=
  apply_ite (fun b : Try Unit ↦ Try.leaves b s) ..

/-- **What a run leaves**, by the first call that throws and the two replies. -/
theorem securityExitLeaves_eq (env : TryEnv) :
    securityExitLeaves env =
      if env.throws .setAuthenticationType ∨ env.throws .setVersion ∨
          env.throws .firstObtainToken then ⟨.OK, none⟩
      else if (JmsJwtExit.obtainToken env.lib env.first).isEmptyLiteral then
        if env.throws .setExitResponse then ⟨.OK, none⟩ else ⟨.CLOSE_CHANNEL, none⟩
      else if env.throws .secondObtainToken ∨ env.throws .setToken ∨
          env.throws .setSecurityParms then ⟨.OK, none⟩
      else ⟨.OK, some (.created 3 MQCSP_AUTH_ID_TOKEN
        (JmsJwtExit.obtainToken env.lib env.second).chars)⟩ := by
  -- a call that throws leaves the parameters as they were at the start
  simp only [securityExitLeaves, tryBlock, leaves_call_bind, leaves_request_bind, leaves_call,
    leaves_ite, apply_ite TryState.parms, ite_or]
  rfl

/-- Where nothing throws, it is the exit of the other module. -/
theorem securityExitLeaves_of_not_throws {env : TryEnv} (h : ∀ c, env.throws c = false) :
    securityExitLeaves env =
      JmsJwtExit.channelSecurityExit env.lib ⟨.OK, none⟩ env.first env.second := by
  simp only [securityExitLeaves_eq, h, Bool.false_eq_true, or_self, if_false,
    JmsJwtExit.channelSecurityExit]

/-! ### The law -/

/-- The MQCSP that is installed has a token that is not empty and that one of the requests has
returned; without one the channel is closed. -/
structure Lawful (env : TryEnv) : Prop where
  token : ∀ csp, (securityExitLeaves env).securityParms = some csp →
    ∃ version authenticationType token, csp = .created version authenticationType token ∧
      token ≠ [] ∧ (token = (JmsJwtExit.obtainToken env.lib env.first).chars ∨
        token = (JmsJwtExit.obtainToken env.lib env.second).chars)
  closed : (securityExitLeaves env).securityParms = none →
    (securityExitLeaves env).exitResponse = .CLOSE_CHANNEL

/-- The reply leads to the literal `""`: there is no token in it, or one that the library takes for
that literal. -/
def LacksToken (lib : Libraries) (reply : Reply) : Prop :=
  ∀ token, tokenOfJava lib reply = some token → token = [] ∧ lib.emptyIsLiteral = true

theorem isEmptyLiteral_obtainToken_iff {lib : Libraries} {reply : Reply} :
    (JmsJwtExit.obtainToken lib reply).isEmptyLiteral = true ↔ LacksToken lib reply := by
  rw [jmsObtainToken_eq, LacksToken]
  rcases tokenOfJava lib reply with - | token
  · simp
  · simp

theorem chars_obtainToken_ne_nil_iff {lib : Libraries} {reply : Reply} :
    (JmsJwtExit.obtainToken lib reply).chars ≠ [] ↔
      ∃ token, tokenOfJava lib reply = some token ∧ token ≠ [] := by
  rw [jmsObtainToken_eq]
  rcases tokenOfJava lib reply with - | token
  · simp
  · simp

/-- The replies and the calls for which it holds. -/
structure Answered (env : TryEnv) : Prop where
  reaches : ∀ c ∈ [TryCall.setAuthenticationType, .setVersion, .firstObtainToken],
    env.throws c = false
  closes : LacksToken env.lib env.first → env.throws .setExitResponse = false
  installs : ¬ LacksToken env.lib env.first →
    (∃ token, tokenOfJava env.lib env.second = some token ∧ token ≠ []) ∧
      ∀ c ∈ [TryCall.secondObtainToken, .setToken, .setSecurityParms], env.throws c = false

theorem forall_throws_iff {env : TryEnv} {a b c : TryCall} :
    (∀ x ∈ [a, b, c], env.throws x = false) ↔
      ¬ (env.throws a = true ∨ env.throws b = true ∨ env.throws c = true) := by
  simp

/-- **When the Java exit keeps the law**: nothing throws on its way, and a first reply that does not
close the channel is followed by one with a token. -/
theorem lawful_iff (env : TryEnv) : Lawful env ↔ Answered env := by
  have hopen : securityExitLeaves env = ⟨.OK, none⟩ → ¬ Lawful env := by
    intro heq h
    have hclosed := h.closed (by rw [heq])
    rw [heq] at hclosed
    cases hclosed
  have heq := securityExitLeaves_eq env
  -- in the order of the calls: up to the first request
  by_cases hreaches : env.throws .setAuthenticationType = true ∨ env.throws .setVersion = true ∨
      env.throws .firstObtainToken = true
  · rw [if_pos hreaches] at heq
    exact iff_of_false (hopen heq) fun h ↦ forall_throws_iff.1 h.reaches hreaches
  have hreaches' := forall_throws_iff.2 hreaches
  rw [if_neg hreaches] at heq
  -- the first reply has no token, so that the channel is to be closed
  by_cases hlacks : LacksToken env.lib env.first
  · rw [if_pos (isEmptyLiteral_obtainToken_iff.2 hlacks)] at heq
    by_cases hexit : env.throws .setExitResponse = true
    · rw [if_pos hexit] at heq
      refine iff_of_false (hopen heq) fun h ↦ ?_
      exact absurd (h.closes hlacks) (by simp [hexit])
    · rw [if_neg hexit] at heq
      refine iff_of_true ⟨fun csp hcsp ↦ ?_, fun _ ↦ by rw [heq]⟩
        ⟨hreaches', fun _ ↦ Bool.eq_false_iff.2 hexit, fun h ↦ absurd hlacks h⟩
      rw [heq] at hcsp
      cases hcsp
  rw [if_neg (mt isEmptyLiteral_obtainToken_iff.1 hlacks)] at heq
  -- the first reply has one: what is set comes from the second request
  by_cases hthrows : env.throws .secondObtainToken = true ∨ env.throws .setToken = true ∨
      env.throws .setSecurityParms = true
  · rw [if_pos hthrows] at heq
    exact iff_of_false (hopen heq) fun h ↦ forall_throws_iff.1 (h.installs hlacks).2 hthrows
  rw [if_neg hthrows] at heq
  constructor
  · intro h
    obtain ⟨version, authenticationType, token, hcsp, hne, -⟩ := h.token _ (by rw [heq])
    obtain ⟨-, -, rfl⟩ := JmsCsp.created.inj hcsp
    exact ⟨hreaches', fun hl ↦ absurd hl hlacks, fun _ ↦
      ⟨chars_obtainToken_ne_nil_iff.1 hne, forall_throws_iff.2 hthrows⟩⟩
  · intro h
    have hne := chars_obtainToken_ne_nil_iff.2 (h.installs hlacks).1
    refine ⟨fun csp hcsp ↦ ?_, fun hnone ↦ ?_⟩
    · rw [heq] at hcsp
      obtain rfl := Option.some.inj hcsp
      exact ⟨_, _, _, rfl, hne, Or.inr rfl⟩
    · rw [heq] at hnone
      cases hnone

/-- The first request gets a token, and the second fails. -/
def TryEnv.secondFails : TryEnv where
  lib := .sample
  first := .response sampleBody
  second := .failed
  throws _ := false

/-- The empty string is installed as a token. -/
theorem not_lawful_secondFails : ¬ Lawful .secondFails := by
  intro h
  have hparms : (securityExitLeaves .secondFails).securityParms =
      some (.created 3 MQCSP_AUTH_ID_TOKEN []) := by
    rw [securityExitLeaves_of_not_throws fun _ ↦ rfl]
    rfl
  obtain ⟨version, authenticationType, token, hcsp, hne, -⟩ := h.token _ hparms
  exact hne (JmsCsp.created.inj hcsp).2.2.symm

end MqExits.Jwt
