import MqExits.Mqi.Types
import MqExits.Text.FormUrlencoded

/-!
# The request for a token

Both token exits post a form with the user name, the password and the client id, and both write the
values **as they are**: `AuthTokenLogin` of `extjwtexit` with `sprintf`, into a buffer of fixed
size, and `obtainToken` of `JmsJwtExit` with `String.format`. The server reads the body as
`application/x-www-form-urlencoded`, which is what libcurl declares for a posted body and what the
Java exit declares itself. It finds the fields with their values exactly when the values are safe to
write so, and the body of the C exit fits (`requestsAgree_iff`).

## What a value is

The value of an environment variable, which has no NUL in it (`EnvText`). The C exit writes its
bytes. The Java exit has the text that these bytes are in the character set of the platform, and
`ofString` writes it in UTF-8; the two are taken to be the same bytes, which they are for a value
that is text in UTF-8 on a platform that uses it.

## What the server finds

The fields of either body are to be those four, in any order and with nothing besides. An ampersand
in a value begins another field, and a plus or a percent sign is read as something else. That
nothing else can go wrong is `decode_rawBody_perm_iff`, from the library for forms: what comes after
a separator is one field more than there should be.
-/

namespace MqExits.Jwt

open CText FormUrlencoded

/-- The value of an environment variable. -/
def EnvText := {v : Bytes // (0 : UInt8) ∉ v}

def sizeofPOSTOPTBUILDUP : ℕ := 65536

/-- `POSTOPTBUILDUP` of `AuthTokenLogin`, as the C string that is posted; `none` where `sprintf`
writes past the end of the buffer. -/
def postOptBuildUp (UserId Password ClientId : EnvText) : Option Bytes :=
  let text := lit "username=" ++ UserId.val ++ lit "&password=" ++ Password.val ++
    lit "&grant_type=password&client_id=" ++ ClientId.val
  if text.length < sizeofPOSTOPTBUILDUP then some text else none

/-- `postBuild` of the Java `obtainToken`, in UTF-8. -/
def postBuild (tokenClientId tokenUsername tokenPassword : EnvText) : Bytes :=
  lit "client_id=" ++ tokenClientId.val ++ lit "&username=" ++ tokenUsername.val ++
    lit "&password=" ++ tokenPassword.val ++ lit "&grant_type=password"

/-- The fields of a request, in the order of `AuthTokenLogin`. -/
def tokenFields (userId password clientId : EnvText) : List (Bytes × Bytes) :=
  [(lit "username", userId.val), (lit "password", password.val),
    (lit "grant_type", lit "password"), (lit "client_id", clientId.val)]

/-- A server that decodes the body finds these fields, and no others. -/
def GivesFields (body : Option Bytes) (fields : List (Bytes × Bytes)) : Prop :=
  ∃ text, body = some text ∧ (decode text).Perm fields

/-- Both requests give the server the credentials. -/
def RequestsAgree (userId password clientId : EnvText) : Prop :=
  GivesFields (postOptBuildUp userId password clientId) (tokenFields userId password clientId) ∧
    GivesFields (some (postBuild clientId userId password)) (tokenFields userId password clientId)

/-- All of the credentials can be written as they are. -/
def CredentialsSafe (userId password clientId : EnvText) : Prop :=
  Safe userId.val ∧ Safe password.val ∧ Safe clientId.val

/-! ### The two bodies -/

/-- The body of the C exit, where it fits. -/
theorem postOptBuildUp_eq (userId password clientId : EnvText) :
    postOptBuildUp userId password clientId =
      if 50 + userId.val.length + password.val.length + clientId.val.length < 65536 then
        some (rawBody (tokenFields userId password clientId)) else none := by
  have htext : lit "username=" ++ userId.val ++ lit "&password=" ++ password.val ++
      lit "&grant_type=password&client_id=" ++ clientId.val =
        rawBody (tokenFields userId password clientId) := by
    simp only [rawBody, tokenFields, List.map_cons, List.map_nil, List.intercalate_cons_cons,
      List.intercalate_singleton, rawField]
    simp [lit]
  have hlen : (rawBody (tokenFields userId password clientId)).length =
      50 + userId.val.length + password.val.length + clientId.val.length := by
    rw [← htext]
    simp only [List.length_append]
    have h₁ : (lit "username=").length = 9 := rfl
    have h₂ : (lit "&password=").length = 10 := rfl
    have h₃ : (lit "&grant_type=password&client_id=").length = 31 := rfl
    omega
  rw [postOptBuildUp]
  simp only [htext, hlen, sizeofPOSTOPTBUILDUP]

/-- The fields of the Java exit, in its order. -/
def javaFields (userId password clientId : EnvText) : List (Bytes × Bytes) :=
  [(lit "client_id", clientId.val), (lit "username", userId.val),
    (lit "password", password.val), (lit "grant_type", lit "password")]

theorem postBuild_eq (userId password clientId : EnvText) :
    postBuild clientId userId password = rawBody (javaFields userId password clientId) := by
  simp only [postBuild, rawBody, javaFields, List.map_cons, List.map_nil,
    List.intercalate_cons_cons, List.intercalate_singleton, rawField]
  simp [lit]

theorem javaFields_perm (userId password clientId : EnvText) :
    (javaFields userId password clientId).Perm (tokenFields userId password clientId) :=
  (List.perm_append_singleton (lit "client_id", clientId.val) _).symm

/-! ### What the server finds -/

theorem isName_tokenFields (userId password clientId : EnvText) :
    ∀ f ∈ tokenFields userId password clientId, IsName f.1 := by
  have hnames : ∀ n ∈ [lit "username", lit "password", lit "grant_type", lit "client_id"],
      IsName n := by decide
  intro f hf
  exact hnames f.1 (List.mem_map_of_mem (f := Prod.fst) hf)

theorem nodup_tokenFields (userId password clientId : EnvText) :
    ((tokenFields userId password clientId).map Prod.fst).Nodup := by
  show [lit "username", lit "password", lit "grant_type", lit "client_id"].Nodup
  decide

/-- The values are safe when the credentials are, as the grant type is. -/
theorem forall_safe_tokenFields {userId password clientId : EnvText} :
    (∀ f ∈ tokenFields userId password clientId, Safe f.2) ↔
      CredentialsSafe userId password clientId := by
  have hgrant : Safe (lit "password") := by decide
  rw [tokenFields, CredentialsSafe]
  simp only [List.forall_mem_cons, hgrant, true_and, List.not_mem_nil, false_implies, implies_true,
    and_true]

/-- A body with the fields in any order. -/
theorem decode_perm_tokenFields_iff {userId password clientId : EnvText}
    {fields : List (Bytes × Bytes)} (hperm : fields.Perm (tokenFields userId password clientId)) :
    (decode (rawBody fields)).Perm (tokenFields userId password clientId) ↔
      CredentialsSafe userId password clientId := by
  have hnames : ∀ f ∈ fields, IsName f.1 := fun f hf ↦
    isName_tokenFields userId password clientId f (hperm.subset hf)
  have hnodup : (fields.map Prod.fst).Nodup :=
    (hperm.map Prod.fst).nodup_iff.2 (nodup_tokenFields userId password clientId)
  rw [← forall_safe_tokenFields]
  constructor
  · intro h f hf
    exact (decode_rawBody_perm_iff hnames hnodup).1 (h.trans hperm.symm) f (hperm.mem_iff.2 hf)
  · intro h
    exact ((decode_rawBody_perm_iff hnames hnodup).2 fun f hf ↦ h f (hperm.subset hf)).trans hperm

/-- **The requests give the credentials** exactly when none of them has a separator, a plus or an
escape in it, and the body of the C exit fits its buffer with its terminator. -/
theorem requestsAgree_iff (userId password clientId : EnvText) :
    RequestsAgree userId password clientId ↔
      CredentialsSafe userId password clientId ∧
        50 + userId.val.length + password.val.length + clientId.val.length < 65536 := by
  have hjava : GivesFields (some (postBuild clientId userId password))
      (tokenFields userId password clientId) ↔ CredentialsSafe userId password clientId := by
    rw [postBuild_eq, ← decode_perm_tokenFields_iff (javaFields_perm userId password clientId)]
    exact ⟨fun ⟨_, htext, h⟩ ↦ Option.some.inj htext ▸ h, fun h ↦ ⟨_, rfl, h⟩⟩
  rw [RequestsAgree, hjava, postOptBuildUp_eq]
  split_ifs with hfits
  · rw [and_iff_left hfits]
    refine and_iff_right_of_imp fun hsafe ↦ ⟨_, rfl, ?_⟩
    exact (decode_perm_tokenFields_iff (List.Perm.refl _)).2 hsafe
  · refine iff_of_false ?_ fun h ↦ hfits h.2
    rintro ⟨⟨_, htext, -⟩, -⟩
    cases htext

/-- A password with a separator ends there, and begins another field. -/
theorem not_requestsAgree_separator :
    ¬ RequestsAgree ⟨lit "admin", by decide⟩ ⟨lit "pass&word", by decide⟩
      ⟨lit "admin-cli", by decide⟩ := by
  rintro ⟨-, text, htext, hperm⟩
  obtain rfl := Option.some.inj htext
  exact absurd hperm.length_eq (by decide)

end MqExits.Jwt
