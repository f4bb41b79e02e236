import MqExits.Jwt.TokenResponse

/-!
# Obtaining a token

`obtainToken` of `extjwtexit` as it works on its memory, against what it is to compute: the token of
the whole answer. It does exactly that when what it does not check is as it should be: the two
requests for memory whose results it uses at once are granted, the texts are there and fit, and the
length of the token is an `int` (`obtains_iff`).

What it frees it has wiped before, but for what follows the first NUL of an answer
(`freesWiped_iff`). What it does not free are the objects of json-c, and the token (`Leaves`).

## How the two directions go

* That the conditions are enough is a walk along the code, with one lemma for each way the call can
  end: the login fails (`obtainToken_fails`), there is no token in the answer
  (`obtainToken_no_token`), there is one (`obtainToken_token`). Each of them says at once what is
  returned, what is left and what was freed, so that the account of a whole channel can use them.
* That they are necessary is shown one condition at a time (`unchecked_of_obtains`): the code goes
  wrong at the place that relies on it, and code that goes wrong obtains nothing. Only a token whose
  length is no `int` may do without a fault: `tokLen` is then less than the length, and the copy is
  shorter than the token (`copyToken_not_fits`).

## What is left

`Leaves` counts the blocks that a call leaves behind and lists what it has given to `free`. The
blocks are those of json-c, two where it makes something of the answer and else one, and the copy of
the token, which is the caller's. The lists of what was freed end with the block of the answer: it
is wiped with `strlen`, so up to its first NUL (`answerLeft`).
-/

namespace MqExits.Jwt.Extjwtexit

open CText CMemory

variable {A : Allocator} {base : Cells} {m : Memory} {body : Bytes} {t : Transfer}

/-! ### The token -/

variable {lib : Libraries} (json : JsonC lib)

/-- The length of a token is an `int`, and so is the size of its copy. -/
def FitsInt (token : Bytes) : Prop :=
  token.length < INT_MAX

theorem toInt_of_le {n : ℕ} (h : (n : ℤ) ≤ INT_MAX) : toInt n = n := by
  rw [INT_MAX] at h
  have hlow : -((4294967296 : ℕ) : ℤ) ≤ (n : ℤ) * 2 := by omega
  have hhigh : (n : ℤ) * 2 < ((4294967296 : ℕ) : ℤ) := by omega
  exact Int.bmod_eq_of_le_mul_two hlow hhigh

/-- A length that is no `int` becomes less. -/
theorem toInt_lt {n : ℕ} (h : INT_MAX < n) : toInt n < n := by
  have hlarge : (2147483647 : ℤ) < n := h
  have hlt : toInt n < (((4294967296 : ℕ) : ℤ) + 1) / 2 := Int.bmod_lt (Nat.zero_lt_succ _)
  omega

/-- A token that is copied whole. -/
theorem copyToken_fits {token : Bytes} (hfits : FitsInt token)
    (hgrant : A.grants m.requests = true) :
    ∃ a m', copyToken A token m = .ok (some a, m') ∧
      m'.Owns m.store.cells a (.bytes (token ++ [0])) ∧ m'.requests = m.requests + 1 ∧
      m'.freed = m.freed := by
  obtain ⟨a, m₁, m₂, m₃, hmalloc, hmemset, -, hmemcpy, howns, hreq, hfreed⟩ :=
    copy_granted hgrant token
  refine ⟨a, m₃, ?_, howns, hreq, hfreed⟩
  have hnonneg : ¬ (token.length : ℤ) < 0 := Int.not_lt.2 (Int.natCast_nonneg _)
  rw [copyToken, toInt_of_le hfits.le]
  simp only [Int.toNat_natCast, List.take_length, if_neg hfits.ne, if_neg hnonneg]
  rw [bind_of_ok hmalloc, bind_of_ok hmemset, bind_of_ok hmemcpy]
  rfl

/-- A token that is not copied whole, if its copy comes about at all. -/
theorem copyToken_not_fits {token : Bytes} (h : ¬ (FitsInt token ∧ A.grants m.requests = true)) :
    (∃ e, copyToken A token m = .error e) ∨
      ∃ a m' part, copyToken A token m = .ok (some a, m') ∧
        m'.Owns m.store.cells a (.bytes (part ++ [0])) ∧ m'.freed = m.freed ∧
        part.length < token.length := by
  rw [copyToken]
  by_cases hmax : toInt token.length = INT_MAX
  · exact Or.inl ⟨_, by rw [if_pos hmax]⟩
  by_cases hneg : toInt token.length < 0
  · exact Or.inl ⟨_, by rw [if_neg hmax, if_pos hneg]⟩
  simp only [if_neg hmax, if_neg hneg]
  rcases hgrant : A.grants m.requests with - | -
  · refine Or.inl ⟨.nullDeref, ?_⟩
    rw [bind_of_ok (malloc_refused hgrant _)]
    exact bind_of_error (write_null (List.replicate_succ ▸ List.cons_ne_nil _ _) 0)
  · -- the length is more than an `int`, and another one after the conversion
    have hlarge : INT_MAX < token.length := by
      rcases lt_trichotomy (token.length : ℤ) INT_MAX with hlt | heq | hgt
      · exact absurd ⟨hlt, hgrant⟩ h
      · exact absurd ((toInt_of_le heq.le).trans heq) hmax
      · exact hgt
    have hless : (toInt token.length).toNat < token.length :=
      (Int.toNat_lt (Int.not_lt.1 hneg)).2 (toInt_lt hlarge)
    obtain ⟨a, m₁, m₂, m₃, hmalloc, hmemset, -, hmemcpy, howns, -, hfreed⟩ :=
      copy_granted hgrant (token.take (toInt token.length).toNat)
    have hpart : (token.take (toInt token.length).toNat).length = (toInt token.length).toNat := by
      rw [List.length_take, min_eq_left hless.le]
    rw [hpart] at hmalloc hmemset
    rw [← hpart] at hless
    refine Or.inr ⟨a, m₃, _, ?_, howns, hfreed, hless⟩
    rw [bind_of_ok hmalloc, bind_of_ok hmemset, bind_of_ok hmemcpy]
    rfl

/-- The token that the answer has, if there is memory to parse it. -/
def found (A : Allocator) (lib : Libraries) (r : ℕ) (body : Bytes) : Option Bytes :=
  if A.grants (r + 1) then Jwt.retrieveTokenFromResponse lib body else none

/-- How many objects of json-c are made for the answer, and not released. -/
def objectsLost (A : Allocator) (json : JsonC lib) (r : ℕ) (body : Bytes) : ℕ :=
  if json.parses (cstr body) = true ∧ A.grants (r + 1) = true then 2 else 1

/-- The text that is parsed is the answer up to its first NUL. -/
theorem take_length_cstr (body : Bytes) :
    (body ++ [0]).take (cstr (body ++ [0])).length = cstr body := by
  have hpre : cstr (body ++ [0]) <+: body ++ [0] := List.takeWhile_prefix _
  rw [← List.prefix_iff_eq_take.1 hpre, cstr_append_nul]

variable {a : ℕ}

/-- With a tokener, what is left is the text. -/
theorem retrieve_of_granted (h : m.Owns base a (.bytes (body ++ [0])))
    (hgrant : A.grants m.requests = true) :
    ∃ m' base', retrieveTokenFromResponse A json (some a) m = findToken A json (cstr body) m' ∧
      m'.Owns base' a (.bytes (body ++ [0])) ∧ m'.requests = m.requests + 1 ∧
      m'.freed = m.freed ∧ ∃ new, Extends base base' new ∧ new.card = 1 := by
  obtain ⟨hfree, howns⟩ := h.frame (m.owns_granted .object)
  have hnul : (0 : UInt8) ∈ body ++ [0] := List.mem_append_right _ (List.mem_singleton_self _)
  refine ⟨m.granted .object, _, ?_, howns, rfl, rfl, _, Extends.update hfree .object,
    Finset.card_singleton _⟩
  have hread := read_owned howns (n := (cstr (body ++ [0])).length) (cstr_length_le _)
  rw [retrieveTokenFromResponse, bind_of_ok (alloc_granted hgrant),
    bind_of_ok (strlen_owned howns hnul), bind_of_ok hread, take_length_cstr]

theorem retrieve_refused (h : m.Owns base a (.bytes (body ++ [0])))
    (hgrant : A.grants m.requests = false) :
    ∃ e, retrieveTokenFromResponse A json (some a) m = .error e := by
  have howns : m.refused.Owns base a (.bytes (body ++ [0])) := ⟨h.free, h.cells⟩
  have hnul : (0 : UInt8) ∈ body ++ [0] := List.mem_append_right _ (List.mem_singleton_self _)
  have hread := read_owned howns (n := (cstr (body ++ [0])).length) (cstr_length_le _)
  refine ⟨.nullDeref, ?_⟩
  rw [retrieveTokenFromResponse, bind_of_ok (alloc_refused hgrant),
    bind_of_ok (strlen_owned howns hnul), bind_of_ok hread]

/-- **An answer without a token**. -/
theorem retrieve_fails (h : m.Owns base a (.bytes (body ++ [0])))
    (hgrant : A.grants m.requests = true) (hfound : found A lib m.requests body = none) :
    ∃ rc m' base' new, rc ≠ 0 ∧
      retrieveTokenFromResponse A json (some a) m = .ok ((rc, none), m') ∧
      m'.Owns base' a (.bytes (body ++ [0])) ∧ m'.freed = m.freed ∧ Extends base base' new ∧
      new.card = objectsLost A json m.requests body := by
  obtain ⟨m₁, base₁, hrun, howns, hreq, hfreed, new, hextends, hcard⟩ :=
    retrieve_of_granted json h hgrant
  rw [hrun, findToken]
  -- there is no token where the text is not parsed, or there is no memory for what json-c makes of
  -- it, or it has none
  rcases hparses : json.parses (cstr body) with - | -
  · refine ⟨-1, m₁, base₁, new, by decide, rfl, howns, hfreed, hextends, ?_⟩
    rw [hcard, objectsLost, hparses, if_neg fun h ↦ Bool.false_ne_true h.1]
  rw [if_pos rfl]
  rcases hroot : A.grants (m.requests + 1) with - | -
  · refine ⟨-1, m₁.refused, base₁, new, by decide, ?_, ⟨howns.free, howns.cells⟩, hfreed, hextends,
      ?_⟩
    · rw [bind_of_ok (alloc_refused (hreq ▸ hroot))]
      rfl
    · rw [hcard, objectsLost, hroot, if_neg fun h ↦ Bool.false_ne_true h.2]
  · obtain ⟨hfree₂, howns₂⟩ := howns.frame (m₁.owns_granted .object)
    obtain ⟨new₂, hextends₂, hcard₂⟩ := hextends.add hfree₂ .object
    have hnone : lib.jsonC (cstr body) = none := by
      rw [found, hroot, if_pos rfl, Jwt.retrieveTokenFromResponse, Option.map_eq_none_iff] at hfound
      exact hfound
    refine ⟨-2, m₁.granted .object, _, new₂, by decide, ?_, howns₂, hfreed, hextends₂, ?_⟩
    · rw [bind_of_ok (alloc_granted (hreq ▸ hroot))]
      simp only [hnone]
      rfl
    · rw [hcard₂, hcard, objectsLost, hparses, hroot, if_pos ⟨rfl, rfl⟩]

/-- An answer with a token comes to the copy of the token. -/
theorem retrieve_of_found (h : m.Owns base a (.bytes (body ++ [0])))
    (hgrant : A.grants m.requests = true) {token : Bytes}
    (hfound : found A lib m.requests body = some token) :
    ∃ m' base' new, retrieveTokenFromResponse A json (some a) m =
        (copyToken A token >>= fun copy ↦ pure (0, copy) : Prog (ℤ × Option ℕ)) m' ∧
      m'.Owns base' a (.bytes (body ++ [0])) ∧ m'.requests = m.requests + 2 ∧
      m'.freed = m.freed ∧ Extends base base' new ∧ new.card = 2 ∧
      objectsLost A json m.requests body = 2 := by
  obtain ⟨m₁, base₁, hrun, howns, hreq, hfreed, new, hextends, hcard⟩ :=
    retrieve_of_granted json h hgrant
  -- with no memory for what json-c makes of the text there is no token
  rcases hroot : A.grants (m.requests + 1) with - | -
  · rw [found, hroot, if_neg Bool.false_ne_true] at hfound
    cases hfound
  rw [found, hroot, if_pos rfl, Jwt.retrieveTokenFromResponse, Option.map_eq_some_iff] at hfound
  obtain ⟨tokenstr, hjson, rfl⟩ := hfound
  have hparses := json.parses_of_found _ _ hjson
  obtain ⟨hfree₂, howns₂⟩ := howns.frame (m₁.owns_granted .object)
  obtain ⟨new₂, hextends₂, hcard₂⟩ := hextends.add hfree₂ .object
  refine ⟨m₁.granted .object, _, new₂, ?_, howns₂, ?_, hfreed, hextends₂, ?_, ?_⟩
  · rw [hrun, findToken, if_pos hparses, bind_of_ok (alloc_granted (hreq ▸ hroot))]
    simp only [hjson]
  · show m₁.requests + 1 = _
    rw [hreq]
  · rw [hcard₂, hcard]
  · rw [objectsLost, hparses, hroot, if_pos ⟨rfl, rfl⟩]

/-! ### `obtainToken` -/

/-- What is left in the block of the answer when it is freed. -/
def answerLeft (body : Bytes) : Bytes :=
  List.replicate (cstr body).length 0 ++ (body ++ [0]).drop (cstr body).length

/-- The answer is wiped up to its first NUL, and freed. -/
theorem release_answer (h : m.Owns base a (.bytes (body ++ [0]))) :
    ∃ m₁ m₂, strlen (some a) m = .ok ((cstr body).length, m) ∧
      write (some a) 0 (List.replicate (cstr body).length 0) m = .ok ((), m₁) ∧
      free (some a) m₁ = .ok ((), m₂) ∧ m₂.store.cells = base ∧ m₂.requests = m.requests ∧
      m₂.freed = m.freed ++ [answerLeft body] := by
  have hnul : (0 : UInt8) ∈ body ++ [0] := List.mem_append_right _ (List.mem_singleton_self _)
  have hlength := strlen_owned h hnul
  rw [cstr_append_nul] at hlength
  have hfits : 0 + (List.replicate (cstr body).length (0 : UInt8)).length ≤
      (body ++ [0]).length := by
    rw [Nat.zero_add, List.length_replicate, List.length_append]
    exact (cstr_length_le body).trans (Nat.le_add_right _ _)
  obtain ⟨m₁, hwrite, howns, hreq₁, hfreed₁⟩ := write_owned h hfits
  obtain ⟨m₂, hfree, hcells, hreq₂, hfreed₂⟩ := free_owned howns
  refine ⟨m₁, m₂, hlength, hwrite, hfree, hcells, hreq₂.trans hreq₁, ?_⟩
  rw [hfreed₂, hfreed₁, List.take_zero, List.nil_append, List.length_replicate, Nat.zero_add,
    answerLeft]

/-- After the answer has been looked at, it is released, whatever was in it. -/
theorem obtainToken_of_retrieve {env : JwtEnv} (hendpoint : env.tokenEndpoint.isSome)
    (husername : env.username.isSome) {m₁ m₂ : Memory}
    (hlogin : authTokenLogin A env t m = .ok ((0, some a), m₁)) {rc : ℤ} {p : Option ℕ}
    (hretrieve : retrieveTokenFromResponse A json (some a) m₁ = .ok ((rc, p), m₂))
    (h : m₂.Owns base a (.bytes (body ++ [0]))) :
    ∃ m', obtainToken A json env t m = .ok ((rc, p), m') ∧ m'.store.cells = base ∧
      m'.requests = m₂.requests ∧ m'.freed = m₂.freed ++ [answerLeft body] := by
  obtain ⟨endpoint, hendpoint⟩ := Option.isSome_iff_exists.1 hendpoint
  obtain ⟨username, husername⟩ := Option.isSome_iff_exists.1 husername
  obtain ⟨m₃, m', hlength, hwrite, hfree, hcells, hreq, hfreed⟩ := release_answer h
  refine ⟨m', ?_, hcells, hreq, hfreed⟩
  rw [obtainToken, hendpoint, husername]
  simp only [argument, pure_bind]
  rw [bind_of_ok hlogin]
  simp only [if_true]
  rw [bind_of_ok hretrieve, bind_of_ok hlength, bind_of_ok hwrite, bind_of_ok hfree]
  rfl

/-- What a fault in the login or in looking at the answer makes of it all. -/
theorem obtainToken_of_error {env : JwtEnv}
    (h : (∃ e, authTokenLogin A env t m = .error e) ∨
      ∃ r m₁, authTokenLogin A env t m = .ok ((0, r), m₁) ∧
        ∃ e, retrieveTokenFromResponse A json r m₁ = .error e) :
    ∃ e, obtainToken A json env t m = .error e := by
  rw [obtainToken]
  rcases env.tokenEndpoint with - | endpoint
  · exact ⟨_, rfl⟩
  rcases env.username with - | username
  · exact ⟨_, rfl⟩
  simp only [argument, pure_bind]
  rcases h with ⟨e, he⟩ | ⟨r, m₁, hlogin, e, he⟩
  · exact ⟨e, bind_of_error he⟩
  · refine ⟨e, ?_⟩
    rw [bind_of_ok hlogin]
    simp only [if_true]
    exact bind_of_error he

/-- The token that there is to obtain. -/
def expectedToken (A : Allocator) (lib : Libraries) (r : ℕ) (t : Transfer) : Option Bytes :=
  if t.completes A (r + 1) then found A lib (r + 2 + t.chunks.length) t.chunks.flatten else none

theorem completes_of_expectedToken {r : ℕ} {token : Bytes}
    (h : expectedToken A lib r t = some token) : t.completes A (r + 1) = true := by
  by_contra hc
  rw [expectedToken, if_neg hc] at h
  cases h

/-- What the exit relies on without a check, when `r` requests came before. -/
structure Unchecked (A : Allocator) (lib : Libraries) (env : JwtEnv) (t : Transfer) (r : ℕ) :
    Prop where
  tokenEndpoint : env.tokenEndpoint.isSome
  username : env.username.isSome
  posts : t.initOk = true → env.Posts
  /-- The requests for the copy of the answer and for the tokener are granted. -/
  response : t.completes A (r + 1) = true → A.grants (r + 1 + t.chunks.length) = true
  tokener : t.completes A (r + 1) = true → A.grants (r + 2 + t.chunks.length) = true
  token : ∀ token, expectedToken A lib r t = some token →
    FitsInt token ∧ A.grants (r + 4 + t.chunks.length) = true

instance {lib : Libraries} {env : JwtEnv} {t : Transfer} {r : ℕ} :
    Decidable (Unchecked A lib env t r) :=
  decidable_of_iff
    (env.tokenEndpoint.isSome ∧ env.username.isSome ∧ (t.initOk = true → env.Posts) ∧
      (t.completes A (r + 1) = true → A.grants (r + 1 + t.chunks.length) = true) ∧
      (t.completes A (r + 1) = true → A.grants (r + 2 + t.chunks.length) = true) ∧
      ∀ token ∈ expectedToken A lib r t,
        (token.length : ℤ) < INT_MAX ∧ A.grants (r + 4 + t.chunks.length) = true)
    ⟨fun ⟨h₁, h₂, h₃, h₄, h₅, h₆⟩ ↦ ⟨h₁, h₂, h₃, h₄, h₅, h₆⟩,
      fun h ↦ ⟨h.1, h.2, h.3, h.4, h.5, h.6⟩⟩

/-- **What a call leaves**: the cells from before and as many as are said, and in what was freed
nothing of the answer but what followed its first NUL. -/
structure Leaves (m m' : Memory) (lost : ℕ) (answer : List Bytes) : Prop where
  cells : ∃ new, Extends m.store.cells m'.store.cells new ∧ new.card = lost
  freed : ∃ wiped, m'.freed = m.freed ++ wiped ++ answer ∧ ∀ bs ∈ wiped, Wiped bs

theorem obtainToken_fails {env : JwtEnv} (h : Unchecked A lib env t m.requests)
    (hc : t.completes A (m.requests + 1) = false) :
    ∃ rc m', rc ≠ 0 ∧ obtainToken A json env t m = .ok ((rc, none), m') ∧ Leaves m m' 0 [] := by
  obtain ⟨endpoint, hendpoint⟩ := Option.isSome_iff_exists.1 h.tokenEndpoint
  obtain ⟨username, husername⟩ := Option.isSome_iff_exists.1 h.username
  obtain ⟨rc, m', wiped, hrc, hlogin, hcells, hfreed, hwiped⟩ := authTokenLogin_fails h.posts hc
  refine ⟨rc, m', hrc, ?_, ⟨∅, ?_, rfl⟩, wiped, ?_, hwiped⟩
  · rw [obtainToken, hendpoint, husername]
    simp only [argument, pure_bind]
    rw [bind_of_ok hlogin]
    simp only [if_neg hrc]
    rfl
  · rw [hcells]
    exact Extends.refl _
  · rw [hfreed, List.append_nil]

/-- How many blocks a call leaves behind that nothing will free. -/
def lost (A : Allocator) (json : JsonC lib) (r : ℕ) (t : Transfer) : ℕ :=
  if t.completes A (r + 1) then
    objectsLost A json (r + 2 + t.chunks.length) t.chunks.flatten +
      if (expectedToken A lib r t).isSome then 1 else 0
  else 0

/-- The block of the answer when it is freed, if there was an answer. -/
def answerFreed (A : Allocator) (r : ℕ) (t : Transfer) : List Bytes :=
  if t.completes A (r + 1) then [answerLeft t.chunks.flatten] else []

variable {env : JwtEnv}

/-- An answer without a token. -/
theorem obtainToken_no_token (h : Unchecked A lib env t m.requests)
    (hc : t.completes A (m.requests + 1) = true)
    (hnone : expectedToken A lib m.requests t = none) :
    ∃ rc m', rc ≠ 0 ∧ obtainToken A json env t m = .ok ((rc, none), m') ∧
      Leaves m m' (lost A json m.requests t) (answerFreed A m.requests t) := by
  obtain ⟨a, m₁, wiped, hlogin, howns, hreq, hfreed₁, hwiped⟩ :=
    authTokenLogin_completes h.posts hc (h.response hc)
  have hfound := hnone
  rw [expectedToken, if_pos hc, ← hreq] at hfound
  obtain ⟨rc, m₂, base, new, hrc, hretrieve, howns₂, hfreed₂, hextends, hcard⟩ :=
    retrieve_fails json howns (hreq ▸ h.tokener hc) hfound
  obtain ⟨m', hrun, hcells, -, hfreed⟩ :=
    obtainToken_of_retrieve json h.tokenEndpoint h.username hlogin hretrieve howns₂
  refine ⟨rc, m', hrc, hrun, ⟨new, hcells ▸ hextends, ?_⟩, wiped, ?_, hwiped⟩
  · rw [hcard, hreq, lost, if_pos hc, hnone]
    rfl
  · rw [hfreed, hfreed₂, hfreed₁, answerFreed, if_pos hc]

/-- An answer with a token. -/
theorem obtainToken_token (h : Unchecked A lib env t m.requests) {token : Bytes}
    (hsome : expectedToken A lib m.requests t = some token) :
    ∃ p m', obtainToken A json env t m = .ok ((0, some p), m') ∧
      m'.store.cells p = some (.bytes (token ++ [0])) ∧ m.store.cells p = none ∧
      m'.requests = m.requests + 5 + t.chunks.length ∧
      Leaves m m' (lost A json m.requests t) (answerFreed A m.requests t) := by
  have hc := completes_of_expectedToken hsome
  obtain ⟨a, m₁, wiped, hlogin, howns, hreq, hfreed₁, hwiped⟩ :=
    authTokenLogin_completes h.posts hc (h.response hc)
  have hfound := hsome
  rw [expectedToken, if_pos hc, ← hreq] at hfound
  obtain ⟨m₂, base₂, new, hretrieve, howns₂, hreq₂, hfreed₂, hextends, hcard, hobjects⟩ :=
    retrieve_of_found json howns (hreq ▸ h.tokener hc) hfound
  have hsum : m₂.requests = m.requests + 4 + t.chunks.length := by omega
  obtain ⟨hfits, hgrant⟩ := h.token token hsome
  -- three blocks in turn: the answer, what json-c makes of it, and the copy of the token
  obtain ⟨p, m₃, hcopy, hcopied, hreq₃, hfreed₃⟩ := copyToken_fits hfits (hsum ▸ hgrant)
  obtain ⟨hfree₃, howns₃⟩ := howns₂.frame hcopied
  obtain ⟨new₃, hextends₃, hcard₃⟩ := hextends.add hfree₃ (.bytes (token ++ [0]))
  rw [bind_of_ok hcopy] at hretrieve
  obtain ⟨m', hrun, hcells, hreq', hfreed⟩ :=
    obtainToken_of_retrieve json h.tokenEndpoint h.username hlogin hretrieve howns₃
  refine ⟨p, m', hrun, ?_, ?_, by omega, ⟨new₃, hcells ▸ hextends₃, ?_⟩, wiped, ?_, hwiped⟩
  · rw [hcells, Function.update_self]
  · -- the block of the token is a new one
    by_contra hne
    obtain ⟨b, hb⟩ := Option.ne_none_iff_exists'.1 hne
    rw [hextends.kept hb] at hfree₃
    cases hfree₃
  · rw [hcard₃, hcard, lost, if_pos hc, hsome, ← hreq, hobjects]
    rfl
  · rw [hfreed, hfreed₃, hfreed₂, hfreed₁, answerFreed, if_pos hc]

/-- The token that there is to obtain has been obtained, or there is none. -/
def Obtains (A : Allocator) (json : JsonC lib) (env : JwtEnv) (t : Transfer) (m : Memory) : Prop :=
  ∃ rc p m', obtainToken A json env t m = .ok ((rc, p), m') ∧
    match expectedToken A lib m.requests t with
    | none => rc ≠ 0 ∧ p = none
    | some token => rc = 0 ∧ ∃ a, p = some a ∧ m'.store.cells a = some (.bytes (token ++ [0]))

/-- Code that relies on something else does not obtain it. -/
theorem unchecked_of_obtains (h : Obtains A json env t m) : Unchecked A lib env t m.requests := by
  obtain ⟨rc, p, m', hrun, hresult⟩ := h
  have hno : ¬ ∃ e, obtainToken A json env t m = .error e := by
    rintro ⟨e, he⟩
    rw [hrun] at he
    cases he
  -- what is printed with `%s` is not null
  have hendpoint : env.tokenEndpoint.isSome := by
    by_contra hnone
    rw [Option.not_isSome_iff_eq_none] at hnone
    exact hno ⟨.nullDeref, by rw [obtainToken, hnone]; rfl⟩
  have husername : env.username.isSome := by
    by_contra hnone
    rw [Option.not_isSome_iff_eq_none] at hnone
    obtain ⟨endpoint, hendpoint⟩ := Option.isSome_iff_exists.1 hendpoint
    exact hno ⟨.nullDeref, by rw [obtainToken, hnone, hendpoint]; rfl⟩
  have hposts : t.initOk = true → env.Posts := by
    intro hinit
    by_contra hposts
    exact hno (obtainToken_of_error json (Or.inl (authTokenLogin_not_posts hinit hposts)))
  -- the copy of the answer is written to at once
  have hresponse : t.completes A (m.requests + 1) = true →
      A.grants (m.requests + 1 + t.chunks.length) = true := by
    intro hc
    by_contra hgrant
    rw [Bool.not_eq_true] at hgrant
    exact hno (obtainToken_of_error json (Or.inl (authTokenLogin_refused hposts hc hgrant)))
  -- json-c is called with a tokener that is not there
  have htokener : t.completes A (m.requests + 1) = true →
      A.grants (m.requests + 2 + t.chunks.length) = true := by
    intro hc
    by_contra hgrant
    rw [Bool.not_eq_true] at hgrant
    obtain ⟨a, m₁, wiped, hlogin, howns, hreq, -, -⟩ :=
      authTokenLogin_completes hposts hc (hresponse hc)
    exact hno (obtainToken_of_error json (Or.inr ⟨_, m₁, hlogin,
      retrieve_refused json howns (hreq ▸ hgrant)⟩))
  refine ⟨hendpoint, husername, hposts, hresponse, htokener, fun token hsome ↦ ?_⟩
  -- the copy of the token: no memory, or a length that is no int
  by_contra hunfit
  have hc := completes_of_expectedToken hsome
  obtain ⟨a, m₁, wiped, hlogin, howns, hreq, -, -⟩ :=
    authTokenLogin_completes hposts hc (hresponse hc)
  have hfound := hsome
  rw [expectedToken, if_pos hc, ← hreq] at hfound
  obtain ⟨m₂, base₂, new, hretrieve, howns₂, hreq₂, -, -⟩ :=
    retrieve_of_found json howns (hreq ▸ htokener hc) hfound
  have hsum : m₂.requests = m.requests + 4 + t.chunks.length := by omega
  rw [← hsum] at hunfit
  rcases copyToken_not_fits hunfit with ⟨e, he⟩ | ⟨q, m₃, part, hcopy, hcopied, -, hshort⟩
  · refine hno (obtainToken_of_error json (Or.inr ⟨_, m₁, hlogin, e, ?_⟩))
    rw [hretrieve]
    exact bind_of_error he
  · -- the copy is of another length
    obtain ⟨-, howns₃⟩ := howns₂.frame hcopied
    rw [bind_of_ok hcopy] at hretrieve
    obtain ⟨m₄, hrun', hcells, -, -⟩ :=
      obtainToken_of_retrieve json hendpoint husername hlogin hretrieve howns₃
    rw [hrun'] at hrun
    cases hrun
    rw [hsome] at hresult
    obtain ⟨-, b, hb, hcell⟩ := hresult
    cases hb
    rw [hcells, Function.update_self] at hcell
    cases List.append_cancel_right (Block.bytes.inj (Option.some.inj hcell))
    exact lt_irrefl _ hshort

/-- Without a token, whatever the reason is. -/
theorem obtainToken_none (h : Unchecked A lib env t m.requests)
    (hnone : expectedToken A lib m.requests t = none) :
    ∃ rc m', rc ≠ 0 ∧ obtainToken A json env t m = .ok ((rc, none), m') ∧
      Leaves m m' (lost A json m.requests t) (answerFreed A m.requests t) := by
  rcases hc : t.completes A (m.requests + 1) with - | -
  · rw [lost, answerFreed, hc]
    exact obtainToken_fails json h hc
  · exact obtainToken_no_token json h hc hnone

/-- **The token of the whole answer** is what the code obtains, however the answer is cut into
pieces, exactly when what it does not check is as it should be. -/
theorem obtains_iff (A : Allocator) (env : JwtEnv) (t : Transfer) (m : Memory) :
    Obtains A json env t m ↔ Unchecked A lib env t m.requests := by
  refine ⟨unchecked_of_obtains json, fun h ↦ ?_⟩
  rw [Obtains]
  rcases hsome : expectedToken A lib m.requests t with - | token
  · obtain ⟨rc, m', hrc, hrun, -⟩ := obtainToken_none json h hsome
    exact ⟨rc, none, m', hrun, hrc, rfl⟩
  · obtain ⟨p, m', hrun, hcell, -⟩ := obtainToken_token json h hsome
    exact ⟨0, some p, m', hrun, rfl, p, rfl, hcell⟩

/-! ### What is freed -/

/-- A call that ends, and has wiped what it has given to `free`. -/
def FreesWiped (A : Allocator) (json : JsonC lib) (env : JwtEnv) (t : Transfer) (m : Memory) :
    Prop :=
  ∃ r m', obtainToken A json env t m = .ok (r, m') ∧
    ∀ bs ∈ m'.freed.drop m.freed.length, Wiped bs

/-- A call that relies on nothing it should not. -/
theorem obtainToken_leaves (h : Unchecked A lib env t m.requests) :
    ∃ r m', obtainToken A json env t m = .ok (r, m') ∧
      Leaves m m' (lost A json m.requests t) (answerFreed A m.requests t) := by
  rcases hsome : expectedToken A lib m.requests t with - | token
  · obtain ⟨rc, m', -, hrun, hleaves⟩ := obtainToken_none json h hsome
    exact ⟨_, m', hrun, hleaves⟩
  · obtain ⟨p, m', hrun, -, -, -, hleaves⟩ := obtainToken_token json h hsome
    exact ⟨_, m', hrun, hleaves⟩

/-- The block of an answer is wiped when nothing follows the first NUL of the answer. -/
theorem wiped_answerLeft {body : Bytes} :
    Wiped (answerLeft body) ↔ ∀ b ∈ body.drop (cstr body).length, b = 0 := by
  have hle := cstr_length_le body
  have hlen : (answerLeft body).length = body.length + 1 := by
    rw [answerLeft, List.length_append, List.length_replicate, List.length_drop,
      List.length_append, List.length_singleton]
    omega
  have hzeros : (∀ b ∈ answerLeft body, b = 0) ↔ ∀ b ∈ body.drop (cstr body).length, b = 0 := by
    rw [answerLeft, List.drop_append_of_le_length hle, List.forall_mem_append,
      List.forall_mem_append]
    simp
  rw [Wiped, hzeros, hlen]
  refine or_iff_right_of_imp fun hone ↦ ?_
  obtain rfl : body = [] := List.eq_nil_of_length_eq_zero (Nat.succ_injective hone)
  exact fun b hb ↦ absurd hb List.not_mem_nil

/-- **What is given to `free` has been wiped** exactly when no byte but NUL follows the first NUL of
the answer. -/
theorem freesWiped_iff (h : Unchecked A lib env t m.requests) :
    FreesWiped A json env t m ↔
      (t.completes A (m.requests + 1) = true →
        ∀ b ∈ t.chunks.flatten.drop (cstr t.chunks.flatten).length, b = 0) := by
  obtain ⟨r, m', hrun, -, wiped, hfreed, hwiped⟩ := obtainToken_leaves json h
  have hends : FreesWiped A json env t m ↔ ∀ bs ∈ answerFreed A m.requests t, Wiped bs := by
    have hdrop : m'.freed.drop m.freed.length = wiped ++ answerFreed A m.requests t := by
      rw [hfreed, List.append_assoc, List.drop_left]
    constructor
    · rintro ⟨r', m₁, hrun', hall⟩
      cases hrun.symm.trans hrun'
      rw [hdrop, List.forall_mem_append] at hall
      exact hall.2
    · intro hall
      refine ⟨r, m', hrun, ?_⟩
      rw [hdrop, List.forall_mem_append]
      exact ⟨hwiped, hall⟩
  rw [hends, answerFreed]
  rcases hc : t.completes A (m.requests + 1) with - | -
  · simp
  · simp only [if_true, List.forall_mem_singleton, wiped_answerLeft, true_imp_iff]

/-! ### An answer -/

/-- Memory for every request. -/
def ampleMemory : Allocator :=
  ⟨fun _ ↦ true, fun _ _ ↦ 0⟩

/-- The pieces of an answer. -/
def answerPieces : List Bytes :=
  [lit "\x7b\"access_token\":", lit "\"abc\"\x7d"]

/-- A library for that answer. -/
def oneAnswer : Libraries where
  jsonC text := if text = answerPieces.flatten then some (lit "abc") else none
  orgJson _ := none
  emptyIsLiteral := true

def oneAnswerJson : JsonC oneAnswer where
  parses text := text = answerPieces.flatten
  parses_of_found text token h := by
    simp only [oneAnswer] at h
    split_ifs at h with heq
    exact decide_eq_true heq

/-- Variables that are all set. -/
def someEnv : JwtEnv :=
  let text : Option EnvText := some ⟨lit "mq", by decide⟩
  ⟨text, text, text, text⟩

/-- The transfer of that answer. -/
def oneTransfer : Transfer :=
  ⟨true, answerPieces, CURLE_OK⟩

theorem freesWiped_iff_oneTransfer :
    FreesWiped ampleMemory oneAnswerJson someEnv oneTransfer .empty ↔
      (oneTransfer.completes ampleMemory 1 = true →
        ∀ b ∈ oneTransfer.chunks.flatten.drop (cstr oneTransfer.chunks.flatten).length, b = 0) :=
  freesWiped_iff oneAnswerJson (by decide +kernel)

end MqExits.Jwt.Extjwtexit
