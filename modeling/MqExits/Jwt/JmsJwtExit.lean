import MqExits.Jwt.ChlExit

/-!
# The two token exits at MQXR_SEC_PARMS

`JmsJwtExit.channelSecurityExit` is the Java counterpart of the C exit's `ChlExit`. With the same
replies of the token endpoint the two should leave the same: an MQCSP that is there is kept, a token
is put in a new one, and without a token the channel is closed (`expected`).

They differ in what they check. The C exit does not look whether an MQCSP is there, and takes an
empty token for a token. The Java exit compares the token with `""` by reference, which is true of
the literal it returns for a failure, and of an empty token as the library has made it or not.
`outcomesMatch_iff` says where both do what they should.

## What is a parameter

What the two JSON libraries find in a reply, as they are not part of the exits (`Libraries`). A
request leads to a body or fails (`Reply`). So the variable with the endpoint is taken to hold a URL
that can be asked; what the Java exit leaves where a call throws instead is the subject of
`TwoRequests`.

## How outcomes are compared

The two exits keep an MQCSP in different types, so what is compared is an outcome: the MQCSP that
was there, a new one with a token, or none, and the response to the channel. An MQCSP is kept if the
pointer is the one that was there, and what it points to is as it was; the address of a new one
makes no difference (`ExitParms.outcome`).
-/

namespace MqExits.Jwt

open CText Ledger

/-! ### Obtaining a token -/

/-- What a request to the token endpoint leads to. -/
inductive Reply
  | failed
  | response (body : Bytes)

/-- The JSON libraries. -/
structure Libraries where
  /-- The string that json-c finds under `access_token` in a text, if it parses the text and finds a
  string. -/
  jsonC : Bytes → Option Bytes
  /-- The string that org.json finds so. -/
  orgJson : Bytes → Option Bytes
  /-- Whether an empty string of org.json is the literal `""`. -/
  emptyIsLiteral : Bool

/-- `RetrieveTokenFromResponse`. The token is copied as a C string. -/
def retrieveTokenFromResponse (lib : Libraries) (response : Bytes) : Option Bytes :=
  (lib.jsonC (cstr response)).map cstr

/-- `obtainToken` of the C exit. -/
def obtainToken (lib : Libraries) : Reply → Option Bytes
  | .failed => none
  | .response body => retrieveTokenFromResponse lib body

/-- A string of Java, and whether it is the literal `""`. -/
structure JavaString where
  chars : Bytes
  isEmptyLiteral : Bool

/-- `obtainToken` of the Java exit. An exception leaves the literal. -/
def JmsJwtExit.obtainToken (lib : Libraries) : Reply → JavaString
  | .failed => ⟨[], true⟩
  | .response body =>
    match lib.orgJson body with
    | none => ⟨[], true⟩
    | some token => ⟨token, token = [] && lib.emptyIsLiteral⟩

/-! ### The Java exit -/

/-- An MQCSP of Java: the one supplied, or a new one with what is set in it. -/
inductive JmsCsp
  | supplied (csp : MQCSP)
  | created (version authenticationType : MQLONG) (token : Bytes)

/-- The fields of the Java MQCXP that the exit uses. -/
structure JmsParms where
  exitResponse : MQXCC
  securityParms : Option JmsCsp

/-- `channelSecurityExit` at MQXR_SEC_PARMS. It requests a token to compare it with `""`, and
another to set it. -/
def JmsJwtExit.channelSecurityExit (lib : Libraries) (p : JmsParms) (first second : Reply) :
    JmsParms :=
  match p.securityParms with
  | some _ => p
  | none =>
    if (JmsJwtExit.obtainToken lib first).isEmptyLiteral then
      { p with exitResponse := .CLOSE_CHANNEL }
    else
      { p with
        securityParms :=
          some (.created 3 MQCSP_AUTH_ID_TOKEN (JmsJwtExit.obtainToken lib second).chars) }

/-! ### Outcomes -/

/-- What an exit leaves in `SecurityParms`. -/
inductive CspOutcome
  | none
  | kept
  | installed (version authenticationType : MQLONG) (token : Bytes)
  deriving DecidableEq

/-- What a call of either exit leaves. -/
structure SecParmsOutcome where
  securityParms : CspOutcome
  closed : Bool
  deriving DecidableEq

/-- What the C exit has left. -/
def ExitParms.outcome (before after : ExitParms) : SecParmsOutcome where
  securityParms :=
    match after.securityParms with
    | none => .none
    | some a =>
      if before.securityParms = some a ∧ after.heap a = before.heap a then .kept
      else
        match after.heap a with
        | none => .none
        | some csp =>
          .installed csp.version csp.authenticationType (csp.tail.take csp.tokenLength.toNat)
  closed := after.exitResponse = .CLOSE_CHANNEL

/-- What the Java exit has left. -/
def JmsParms.outcome (after : JmsParms) : SecParmsOutcome where
  securityParms :=
    match after.securityParms with
    | none => .none
    | some (.supplied _) => .kept
    | some (.created version authenticationType token) =>
      .installed version authenticationType token
  closed := after.exitResponse = .CLOSE_CHANNEL

/-- The C exit, called once, with the reply to its request. -/
def cOutcome (lib : Libraries) (version : MQLONG) (supplied : Option MQCSP) (mallocOk : Bool)
    (reply : Reply) : SecParmsOutcome :=
  (ExitParms.start version supplied).outcome
    (secParms (.start version supplied) ⟨obtainToken lib reply, mallocOk⟩).1

/-- The Java exit, called once, with the same reply to both of its requests. -/
def jmsOutcome (lib : Libraries) (supplied : Option MQCSP) (reply : Reply) : SecParmsOutcome :=
  (JmsJwtExit.channelSecurityExit lib ⟨.OK, supplied.map .supplied⟩ reply reply).outcome

/-- What should be left, when the reply has this token. -/
def expected (supplied : Option MQCSP) (token : Option Bytes) : SecParmsOutcome :=
  match supplied, token with
  | some _, _ => ⟨.kept, false⟩
  | none, none => ⟨.none, true⟩
  | none, some [] => ⟨.none, true⟩
  | none, some (c :: token) => ⟨.installed 3 MQCSP_AUTH_ID_TOKEN (c :: token), false⟩

/-- The token that a reply has for json-c. -/
def tokenOfC (lib : Libraries) : Reply → Option Bytes
  | .failed => none
  | .response body => lib.jsonC (cstr body)

/-- The token that a reply has for org.json. -/
def tokenOfJava (lib : Libraries) : Reply → Option Bytes
  | .failed => none
  | .response body => lib.orgJson body

/-- Both exits leave what they should, and the same. -/
structure OutcomesMatch (lib : Libraries) (version : MQLONG) (supplied : Option MQCSP)
    (mallocOk : Bool) (reply : Reply) : Prop where
  c : cOutcome lib version supplied mallocOk reply = expected supplied (tokenOfC lib reply)
  java : jmsOutcome lib supplied reply = expected supplied (tokenOfJava lib reply)
  same : cOutcome lib version supplied mallocOk reply = jmsOutcome lib supplied reply

/-- The conditions under which they do. -/
structure Matching (lib : Libraries) (supplied : Option MQCSP) (mallocOk : Bool) (reply : Reply) :
    Prop where
  /-- There is no MQCSP yet. -/
  none : supplied = none
  /-- A token that json-c finds is not empty, is a C string, and can be copied. -/
  token : ∀ t, tokenOfC lib reply = some t → t ≠ [] ∧ (0 : UInt8) ∉ t ∧ mallocOk = true
  /-- An empty token that org.json finds is the literal. -/
  literal : tokenOfJava lib reply = some [] → lib.emptyIsLiteral = true
  /-- The libraries find the same; an empty token is none. -/
  same : (tokenOfJava lib reply).filter (· ≠ []) = tokenOfC lib reply

/-! ### What each exit does -/

theorem obtainToken_eq (lib : Libraries) (reply : Reply) :
    obtainToken lib reply = (tokenOfC lib reply).map cstr := by
  cases reply <;> rfl

theorem jmsObtainToken_eq (lib : Libraries) (reply : Reply) :
    JmsJwtExit.obtainToken lib reply =
      match tokenOfJava lib reply with
      | none => ⟨[], true⟩
      | some token => ⟨token, token = [] && lib.emptyIsLiteral⟩ := by
  cases reply <;> rfl

/-- A token that can be copied is installed, whatever was there. -/
theorem outcome_installs {p : ExitParms} (hp : p.securityParms ≠ some p.next) (token : Bytes) :
    p.outcome (secParms p ⟨some token, true⟩).1 =
      ⟨.installed 3 MQCSP_AUTH_ID_TOKEN (cstr token), p.exitResponse = .CLOSE_CHANNEL⟩ := by
  have hparms : (secParms p ⟨some token, true⟩).1.securityParms = some p.next := rfl
  have hcell : (secParms p ⟨some token, true⟩).1.heap p.next = some (tokenCsp (cstr token)) :=
    Function.update_self _ _ _
  have hresponse : (secParms p ⟨some token, true⟩).1.exitResponse = p.exitResponse := rfl
  have htoken : (cstr token).take ((cstr token).length : ℤ).toNat = cstr token := by
    rw [Int.toNat_natCast, List.take_length]
  simp only [ExitParms.outcome, hparms, hcell, hresponse, hp, false_and, if_false, tokenCsp, htoken]

/-- Without an MQCSP the C exit installs any token that it can copy. -/
theorem cOutcome_none (lib : Libraries) (version : MQLONG) (mallocOk : Bool) (reply : Reply) :
    cOutcome lib version none mallocOk reply =
      match tokenOfC lib reply with
      | none => ⟨.none, true⟩
      | some t =>
        if mallocOk then ⟨.installed 3 MQCSP_AUTH_ID_TOKEN (cstr t), false⟩
        else ⟨.none, false⟩ := by
  rw [cOutcome, obtainToken_eq]
  cases tokenOfC lib reply with
  | none => rfl
  | some t =>
    cases mallocOk with
    | false => rfl
    | true =>
      have hinstalls := outcome_installs (p := .start version none) (Option.some_ne_none _).symm
        (cstr t)
      rw [cstr_cstr] at hinstalls
      exact hinstalls

/-- An MQCSP that is there is never left as it should be by the C exit: the channel is closed, or
another MQCSP or none is there instead. -/
theorem cOutcome_some_ne (lib : Libraries) (version : MQLONG) (csp : MQCSP) (mallocOk : Bool)
    (reply : Reply) : cOutcome lib version (some csp) mallocOk reply ≠ ⟨.kept, false⟩ := by
  rw [cOutcome, obtainToken_eq]
  cases tokenOfC lib reply with
  | none =>
    intro h
    exact Bool.noConfusion (show true = false from congrArg SecParmsOutcome.closed h)
  | some t =>
    cases mallocOk with
    | false =>
      intro h
      exact CspOutcome.noConfusion
        (show CspOutcome.none = .kept from congrArg SecParmsOutcome.securityParms h)
    | true =>
      have hne : (ExitParms.start version (some csp)).securityParms ≠
          some (ExitParms.start version (some csp)).next := by
        show some 0 ≠ some 1
        decide
      rw [show Option.map cstr (some t) = some (cstr t) from rfl, outcome_installs hne]
      intro h
      cases congrArg SecParmsOutcome.securityParms h

/-- Without an MQCSP the Java exit installs any token but the literal `""`. -/
theorem jmsOutcome_none (lib : Libraries) (reply : Reply) :
    jmsOutcome lib none reply =
      match tokenOfJava lib reply with
      | none => ⟨.none, true⟩
      | some t =>
        if t = [] ∧ lib.emptyIsLiteral = true then ⟨.none, true⟩
        else ⟨.installed 3 MQCSP_AUTH_ID_TOKEN t, false⟩ := by
  rw [jmsOutcome, JmsJwtExit.channelSecurityExit]
  simp only [Option.map_none, jmsObtainToken_eq]
  cases tokenOfJava lib reply with
  | none => rfl
  | some t =>
    by_cases h : t = [] ∧ lib.emptyIsLiteral = true
    · obtain ⟨rfl, hliteral⟩ := h
      simp only [hliteral, decide_true, Bool.and_true, if_true, and_self]
      rfl
    · have hfalse : (decide (t = []) && lib.emptyIsLiteral) = false := by
        rw [Bool.and_eq_false_iff, decide_eq_false_iff_not, Bool.eq_false_iff]
        exact not_and_or.1 h
      simp only [hfalse, Bool.false_eq_true, if_false, if_neg h]
      rfl

/-! ### When each does what it should -/

/-- Without an MQCSP an empty token is no token. -/
theorem expected_none (token : Option Bytes) :
    expected none token =
      match token.filter (· ≠ []) with
      | none => ⟨.none, true⟩
      | some t => ⟨.installed 3 MQCSP_AUTH_ID_TOKEN t, false⟩ := by
  rcases token with - | - | ⟨c, t⟩
  · rfl
  · rfl
  · rfl

theorem expected_none_eq_iff {token token' : Option Bytes} :
    expected none token = expected none token' ↔
      token.filter (· ≠ []) = token'.filter (· ≠ []) := by
  rw [expected_none, expected_none]
  generalize token.filter (· ≠ []) = usable
  generalize token'.filter (· ≠ []) = usable'
  constructor
  · intro h
    rcases usable with - | t <;> rcases usable' with - | t'
    · rfl
    · cases congrArg SecParmsOutcome.closed h
    · cases congrArg SecParmsOutcome.closed h
    · exact congrArg some (CspOutcome.installed.inj (congrArg SecParmsOutcome.securityParms h)).2.2
  · intro h
    rw [h]

/-- The C exit: any token is a non-empty C string that can be copied. -/
theorem cOutcome_none_eq_iff {lib : Libraries} {version : MQLONG} {mallocOk : Bool}
    {reply : Reply} :
    cOutcome lib version none mallocOk reply = expected none (tokenOfC lib reply) ↔
      ∀ t, tokenOfC lib reply = some t → t ≠ [] ∧ (0 : UInt8) ∉ t ∧ mallocOk = true := by
  rw [cOutcome_none]
  rcases tokenOfC lib reply with - | t
  · exact iff_of_true rfl fun t h ↦ by cases h
  · simp only [Option.some.injEq, forall_eq']
    rcases t with - | ⟨c, t⟩
    · -- an empty token should close the channel, and does not
      refine iff_of_false (fun h ↦ ?_) fun h ↦ h.1 rfl
      cases mallocOk
      · cases congrArg SecParmsOutcome.closed h
      · cases congrArg SecParmsOutcome.closed h
    · cases mallocOk with
      | false =>
        refine iff_of_false (fun h ↦ ?_) fun h ↦ Bool.noConfusion h.2.2
        cases congrArg SecParmsOutcome.securityParms h
      | true =>
        -- what is copied is the token up to its first NUL
        have hcstr : cstr (c :: t) = c :: t ↔ (0 : UInt8) ∉ c :: t :=
          ⟨fun h ↦ h ▸ not_mem_cstr (c :: t), cstr_eq_self⟩
        refine Iff.trans ⟨fun h ↦ ?_, fun h ↦ ?_⟩
          (hcstr.trans ⟨fun h ↦ ⟨List.cons_ne_nil c t, h, rfl⟩, fun h ↦ h.2.1⟩)
        · exact (CspOutcome.installed.inj (congrArg SecParmsOutcome.securityParms h)).2.2
        · rw [h]
          rfl

/-- The Java exit: an empty token is the literal. -/
theorem jmsOutcome_none_eq_iff {lib : Libraries} {reply : Reply} :
    jmsOutcome lib none reply = expected none (tokenOfJava lib reply) ↔
      (tokenOfJava lib reply = some [] → lib.emptyIsLiteral = true) := by
  rw [jmsOutcome_none]
  rcases tokenOfJava lib reply with - | - | ⟨c, t⟩
  · exact iff_of_true rfl fun h ↦ by cases h
  · simp only [true_and, forall_const]
    by_cases h : lib.emptyIsLiteral = true
    · rw [if_pos h]
      exact iff_of_true rfl h
    · rw [if_neg h]
      exact iff_of_false (fun heq ↦ by cases congrArg SecParmsOutcome.closed heq) h
  · exact iff_of_true (if_neg fun h ↦ List.cons_ne_nil c t h.1) fun h ↦ by
      cases Option.some.inj h

/-! ### The two together -/

/-- **The two exits do what they should** exactly when there is no MQCSP yet, and the reply has no
token, or the same non-empty one for both. -/
theorem outcomesMatch_iff (lib : Libraries) (version : MQLONG) (supplied : Option MQCSP)
    (mallocOk : Bool) (reply : Reply) :
    OutcomesMatch lib version supplied mallocOk reply ↔ Matching lib supplied mallocOk reply := by
  cases supplied with
  | some csp =>
    exact iff_of_false (fun h ↦ cOutcome_some_ne lib version csp mallocOk reply h.c)
      fun h ↦ Option.some_ne_none csp h.none
  | none =>
    -- where both do what they should, they do the same when the tokens are the same
    have hfilter (htoken : ∀ t, tokenOfC lib reply = some t →
        t ≠ [] ∧ (0 : UInt8) ∉ t ∧ mallocOk = true) :
        (tokenOfC lib reply).filter (· ≠ []) = tokenOfC lib reply := by
      rcases h : tokenOfC lib reply with - | t
      · rfl
      · exact if_pos (decide_eq_true (htoken t h).1)
    constructor
    · rintro ⟨hc, hjava, hsame⟩
      have htoken := cOutcome_none_eq_iff.1 hc
      refine ⟨rfl, htoken, jmsOutcome_none_eq_iff.1 hjava, ?_⟩
      rw [hc, hjava, expected_none_eq_iff, hfilter htoken] at hsame
      exact hsame.symm
    · rintro ⟨-, htoken, hliteral, hsame⟩
      have hc : cOutcome lib version none mallocOk reply = expected none (tokenOfC lib reply) :=
        cOutcome_none_eq_iff.2 htoken
      have hjava := jmsOutcome_none_eq_iff.2 hliteral
      refine ⟨hc, hjava, ?_⟩
      rw [hc, hjava, expected_none_eq_iff, hfilter htoken]
      exact hsame.symm

/-- A reply with a token. -/
def sampleBody : Bytes :=
  lit "\x7b\"access_token\":\"jwt\"\x7d"

/-- Libraries that find the token of the sample. -/
def Libraries.sample : Libraries where
  jsonC text := if text = sampleBody then some (lit "jwt") else none
  orgJson text := if text = sampleBody then some (lit "jwt") else none
  emptyIsLiteral := false

/-- The C exit puts the token in place of an MQCSP that is there. -/
theorem not_outcomesMatch_supplied :
    ¬ OutcomesMatch .sample 6 (some MQCSP_DEFAULT) true (.response sampleBody) := by
  intro h
  exact absurd h.c (by decide)

end MqExits.Jwt
