import MqExits.Jwt.JmsJwtExit
import MqExits.Jwt.RequestBody
import MqExits.Runs.CMemory

/-!
# The answer of the token endpoint in memory

The code of `extjwtexit` that obtains a token, with the memory it works on. What the token endpoint
answers arrives in pieces: `WriteMemoryCallback` appends each to a block that it makes larger,
`AuthTokenLogin` copies the whole, `RetrieveTokenFromResponse` has the copy parsed, and copies the
token out of it.

However the answer is cut into pieces, a transfer that takes all of them has the whole of it
(`Holds.perform`), and a login that goes well leaves its copy and nothing else
(`authTokenLogin_completes`).

## What is a parameter

libcurl is what a `Transfer` says of it: whether it can be initialised, the pieces it hands over,
and the code it ends with if all of them are taken. A piece of which less is taken ends the transfer
with `CURLE_WRITE_ERROR`, as libcurl documents it. json-c is a `JsonC`: which texts it parses, and
which token it finds in one. What it allocates for a text counts as one object, which nobody but
json-c can look into; the tokener is another.

Whether a request for memory is granted is up to the `Allocator`, by the number of the request. So
the lemmas count requests: if `r` of them came before the call, the block for the first piece is the
next but one.

## What carries the induction

`Holds` is about the block that the pieces go to: it has what was received and one byte more, which
is a NUL behind any piece. `realloc` of no block is `malloc`, so a transfer can begin without one;
that case has a constructor of its own. All other blocks stay as they are (`Owns`), which is what
lets the copy of the answer be made while the block is there (`Holds.frame`).
-/

namespace MqExits.Jwt.Extjwtexit

open CText ObjectTree CMemory

/-! ### The code -/

/-- `struct MemoryStruct`. -/
structure MemoryStruct where
  memory : Option ℕ
  size : ℕ

section Code

variable (A : Allocator)

/-- `WriteMemoryCallback`. It returns how many bytes it has taken. -/
def writeMemoryCallback (contents : Bytes) (mem : MemoryStruct) : Prog (ℕ × MemoryStruct) := do
  let ptr ← realloc A mem.memory (mem.size + contents.length + 1)
  match ptr with
  | none => return (0, mem)
  | some a =>
    write (some a) mem.size contents
    write (some a) (mem.size + contents.length) [0]
    return (contents.length, ⟨some a, mem.size + contents.length⟩)

def CURLE_OK : ℤ := 0

def CURLE_WRITE_ERROR : ℤ := 23

/-- What a transfer meets: whether libcurl can be initialised, the pieces in which the body of the
answer arrives, and the code of the transfer if all of them are taken. -/
structure Transfer where
  initOk : Bool
  chunks : List Bytes
  code : ℤ

/-- `curl_easy_perform`. A piece that is not taken as a whole ends the transfer. -/
def perform : List Bytes → ℤ → MemoryStruct → Prog (ℤ × MemoryStruct)
  | [], code, mem => return (code, mem)
  | chunk :: chunks, code, mem => do
    let (taken, mem) ← writeMemoryCallback A chunk mem
    if taken = chunk.length then perform chunks code mem else return (CURLE_WRITE_ERROR, mem)

/-- The environment variables of the exit. -/
structure JwtEnv where
  tokenEndpoint : Option EnvText
  username : Option EnvText
  password : Option EnvText
  clientId : Option EnvText

/-- `%s`. -/
def argument : Option EnvText → Prog EnvText
  | none => fun _ ↦ .error .nullDeref
  | some v => pure v

/-- The text that is posted. -/
def sprintfPost (env : JwtEnv) : Prog Unit := do
  let user ← argument env.username
  let password ← argument env.password
  let clientId ← argument env.clientId
  match postOptBuildUp user password clientId with
  | none => fun _ ↦ .error .outOfBounds
  | some _ => pure ()

/-- The transfer, and the copy of its body. -/
def transferBody (env : JwtEnv) (t : Transfer) (memory : Option ℕ) :
    Prog (ℤ × Option ℕ × MemoryStruct) := do
  if t.initOk then
    sprintfPost env
    let (res, chunk) ← perform A t.chunks t.code ⟨memory, 0⟩
    if res ≠ CURLE_OK then return (res, none, chunk)
    else
      let response ← malloc A (chunk.size + 1)
      write response 0 (List.replicate (chunk.size + 1) 0)
      let held ← read chunk.memory chunk.size
      write response 0 held
      return (0, response, chunk)
  else return (-2, none, ⟨memory, 0⟩)

/-- `AuthTokenLogin`. -/
def authTokenLogin (env : JwtEnv) (t : Transfer) : Prog (ℤ × Option ℕ) := do
  let memory ← malloc A 1
  let (rc, response, chunk) ← transferBody A env t memory
  write chunk.memory 0 (List.replicate chunk.size 0)
  free chunk.memory
  return (rc, response)

/-- json-c: which texts it parses, besides what it finds in them. -/
structure JsonC (lib : Libraries) where
  parses : Bytes → Bool
  parses_of_found : ∀ text token, lib.jsonC text = some token → parses text = true

variable {lib : Libraries} (json : JsonC lib)

def INT_MAX : ℤ := 2147483647

/-- `(int) n`. -/
def toInt (n : ℕ) : ℤ :=
  Int.bmod n 4294967296

/-- The copy of a token of json-c. -/
def copyToken (tokenstr : Bytes) : Prog (Option ℕ) := do
  let tokLen := toInt tokenstr.length
  if tokLen = INT_MAX then fun _ ↦ .error .intOverflow
  else if tokLen < 0 then
    -- as the size of a block or of a copy, this is more than there can be
    fun _ ↦ .error .outOfBounds
  else
    let token ← malloc A (tokLen.toNat + 1)
    write token 0 (List.replicate (tokLen.toNat + 1) 0)
    write token 0 (tokenstr.take tokLen.toNat)
    return token

/-- What is made of a text, once there is a tokener for it. One object stands for all that json-c
makes of the text. -/
def findToken (text : Bytes) : Prog (ℤ × Option ℕ) := do
  if json.parses text then
    match ← alloc A fun _ ↦ .object with
    | none => return (-1, none)
    | some _ =>
      match lib.jsonC text with
      | none => return (-2, none)
      | some token =>
        let copy ← copyToken A (cstr token)
        return (0, copy)
  else return (-1, none)

/-- `RetrieveTokenFromResponse`. -/
def retrieveTokenFromResponse (response : Option ℕ) : Prog (ℤ × Option ℕ) := do
  match response with
  | none => return (-1, none)
  | some a =>
    let tok ← alloc A fun _ ↦ .object
    let length ← strlen (some a)
    let text ← read (some a) length
    match tok with
    | none => fun _ ↦ .error .nullDeref
    | some _ => findToken A json text

/-- `obtainToken`. -/
def obtainToken (env : JwtEnv) (t : Transfer) : Prog (ℤ × Option ℕ) := do
  let _ ← argument env.tokenEndpoint
  let _ ← argument env.username
  let (rc, response) ← authTokenLogin A env t
  if rc = 0 then
    let (rc, token) ← retrieveTokenFromResponse A json response
    let length ← strlen response
    write response 0 (List.replicate length 0)
    free response
    return (rc, token)
  else return (rc, none)

end Code

/-! ### Receiving the answer -/

variable {A : Allocator}

/-- Whether each piece is taken, when the request for the first one is the `r`-th. -/
def takesAll (A : Allocator) : ℕ → List Bytes → Bool
  | _, [] => true
  | r, chunk :: chunks => (chunk.isEmpty || A.grants r) && takesAll A (r + 1) chunks

/-- The block that the pieces received so far are in: none before the first, if there was no memory
for it. -/
inductive Holds (base : Cells) (m : Memory) : MemoryStruct → Bytes → Prop
  | null : m.store.cells = base → Holds base m ⟨none, 0⟩ []
  | block {a : ℕ} {body : Bytes} {x : UInt8} :
      m.Owns base a (.bytes (body ++ [x])) → (body ≠ [] → x = 0) →
        Holds base m ⟨some a, body.length⟩ body

variable {base : Cells} {m : Memory} {mem : MemoryStruct} {body : Bytes}

theorem Holds.size (h : Holds base m mem body) : mem.size = body.length := by
  rcases h with - | - <;> rfl

theorem Holds.refused (h : Holds base m mem body) : Holds base m.refused mem body := by
  rcases h with h | ⟨h, hx⟩
  · exact .null h
  · exact .block ⟨h.free, h.cells⟩ hx

/-- The block for one piece more: it holds what was received, and has room for the piece. -/
theorem Holds.realloc (h : Holds base m mem body) (hgrant : A.grants m.requests = true)
    (k : ℕ) :
    ∃ a room m', realloc A mem.memory (mem.size + k + 1) m = .ok (some a, m') ∧
      m'.Owns base a (.bytes (body ++ room)) ∧ room.length = k + 1 ∧
      m'.requests = m.requests + 1 ∧ m'.freed = m.freed := by
  rcases h with h | @⟨a, body, x, h, -⟩
  · obtain ⟨m', hrun, howns, hreq, hfreed⟩ := malloc_granted hgrant (0 + k + 1)
    rw [h] at howns
    refine ⟨_, A.fill m.requests (0 + k + 1), m', hrun, howns, ?_, hreq, hfreed⟩
    rw [A.length_fill, Nat.zero_add]
  · have hn : (body ++ [x]).length ≤ body.length + k + 1 := by
      rw [List.length_append, List.length_singleton]
      omega
    obtain ⟨m', hrun, howns, hreq, hfreed⟩ := realloc_granted h hgrant hn
    refine ⟨_, x :: A.fill m.requests (body.length + k + 1 - (body ++ [x]).length), m', hrun, ?_,
      ?_, hreq, hfreed⟩
    · rwa [List.append_assoc, List.singleton_append] at howns
    · rw [List.length_cons, A.length_fill, List.length_append, List.length_singleton]
      omega

/-- **One piece more**. -/
theorem Holds.callback (h : Holds base m mem body) (hgrant : A.grants m.requests = true)
    (contents : Bytes) :
    ∃ mem' m', writeMemoryCallback A contents mem m = .ok ((contents.length, mem'), m') ∧
      Holds base m' mem' (body ++ contents) ∧ m'.requests = m.requests + 1 ∧
      m'.freed = m.freed := by
  obtain ⟨a, room, m₁, hrun, howns, hroom, hreq₁, hfreed₁⟩ := h.realloc hgrant contents.length
  have hfits : body.length + contents.length ≤ (body ++ room).length := by
    rw [List.length_append]
    omega
  obtain ⟨m₂, hcopy, howns, hreq₂, hfreed₂⟩ := write_owned howns hfits
  -- behind the piece there is room for one byte more, which becomes the NUL
  obtain ⟨x, hx⟩ : ∃ x, room.drop contents.length = [x] := by
    rw [← List.length_eq_one_iff, List.length_drop]
    omega
  rw [List.take_left, List.drop_length_add_append, hx] at howns
  have hend : body.length + contents.length = (body ++ contents).length :=
    List.length_append.symm
  have hlast : (body ++ contents ++ [x]).length = (body ++ contents).length + 1 := by
    rw [List.length_append, List.length_singleton]
  have hroom₂ : (body ++ contents).length + [(0 : UInt8)].length ≤
      (body ++ contents ++ [x]).length := hlast.ge
  obtain ⟨m₃, hnul, howns, hreq₃, hfreed₃⟩ := write_owned howns hroom₂
  rw [List.length_singleton, List.take_left, List.drop_eq_nil_of_le hlast.le,
    List.append_nil] at howns
  refine ⟨⟨some a, body.length + contents.length⟩, m₃, ?_, ?_, ?_, ?_⟩
  · rw [writeMemoryCallback, bind_of_ok hrun]
    simp only [h.size]
    rw [bind_of_ok hcopy, hend, bind_of_ok hnul, ← hend]
    rfl
  · rw [hend]
    exact .block howns fun _ ↦ rfl
  · rw [hreq₃, hreq₂, hreq₁]
  · rw [hfreed₃, hfreed₂, hfreed₁]

/-- A piece for which there is no memory is not taken, and what there is stays. -/
theorem Holds.callback_refused (h : Holds base m mem body) (hgrant : A.grants m.requests = false)
    (contents : Bytes) :
    writeMemoryCallback A contents mem m = .ok ((0, mem), m.refused) := by
  have hrun : CMemory.realloc A mem.memory (mem.size + contents.length + 1) m =
      .ok (none, m.refused) := by
    rcases h with - | h
    · exact malloc_refused hgrant _
    · exact realloc_refused h hgrant _
  rw [writeMemoryCallback, bind_of_ok hrun]
  rfl

/-- **However the body is cut**, a transfer whose pieces are all taken leaves the whole of it. -/
theorem Holds.perform (h : Holds base m mem body) (chunks : List Bytes) (code : ℤ) :
    ∃ res mem' m' body', perform A chunks code mem m = .ok ((res, mem'), m') ∧
      Holds base m' mem' body' ∧ m'.freed = m.freed ∧
      if takesAll A m.requests chunks then
        res = code ∧ body' = body ++ chunks.flatten ∧ m'.requests = m.requests + chunks.length
      else res = CURLE_WRITE_ERROR := by
  induction chunks generalizing m mem body with
  | nil => exact ⟨code, mem, m, body, rfl, h, rfl, by simp [takesAll]⟩
  | cons chunk chunks ih =>
    rcases hgrant : A.grants m.requests with - | -
    · have hcall := h.callback_refused hgrant chunk
      rcases chunk with - | ⟨b, chunk⟩
      · -- a piece without bytes is taken all the same
        obtain ⟨res, mem', m', body', hrun, hholds, hfreed, hres⟩ := ih h.refused
        refine ⟨res, mem', m', body', ?_, hholds, hfreed, ?_⟩
        · rw [Extjwtexit.perform, bind_of_ok hcall]
          exact hrun
        · have hreq : m.refused.requests = m.requests + 1 := rfl
          rw [hreq] at hres
          simp only [takesAll, List.isEmpty_nil, Bool.true_or, Bool.true_and, List.flatten_cons,
            List.nil_append, List.length_cons]
          rw [Nat.add_right_comm] at hres
          exact hres
      · refine ⟨CURLE_WRITE_ERROR, mem, m.refused, body, ?_, h.refused, rfl, ?_⟩
        · rw [Extjwtexit.perform, bind_of_ok hcall]
          rfl
        · simp [takesAll, hgrant]
    · obtain ⟨mem₁, m₁, hcall, hholds₁, hreq₁, hfreed₁⟩ := h.callback hgrant chunk
      obtain ⟨res, mem', m', body', hrun, hholds, hfreed, hres⟩ := ih hholds₁
      refine ⟨res, mem', m', body', ?_, hholds, hfreed.trans hfreed₁, ?_⟩
      · rw [Extjwtexit.perform, bind_of_ok hcall]
        simp only [if_true]
        exact hrun
      · simp only [takesAll, hgrant, Bool.or_true, Bool.true_and, List.flatten_cons,
          ← List.append_assoc, List.length_cons]
        rw [hreq₁, Nat.add_assoc, Nat.add_comm 1] at hres
        exact hres

/-! ### `AuthTokenLogin` -/

/-- The credentials can be posted. -/
def JwtEnv.Posts (env : JwtEnv) : Prop :=
  (env.username.bind fun user ↦ env.password.bind fun password ↦ env.clientId.bind fun clientId ↦
    postOptBuildUp user password clientId).isSome = true

instance (env : JwtEnv) : Decidable env.Posts :=
  inferInstanceAs (Decidable (_ = true))

/-- The transfer ends with the whole body. -/
def Transfer.completes (A : Allocator) (r : ℕ) (t : Transfer) : Bool :=
  t.initOk && takesAll A r t.chunks && t.code == CURLE_OK

theorem sprintfPost_of_posts {env : JwtEnv} (h : env.Posts) (m : Memory) :
    sprintfPost env m = .ok ((), m) := by
  obtain ⟨text, h⟩ := Option.isSome_iff_exists.1 h
  obtain ⟨user, huser, h⟩ := Option.bind_eq_some_iff.1 h
  obtain ⟨password, hpassword, h⟩ := Option.bind_eq_some_iff.1 h
  obtain ⟨clientId, hclientId, htext⟩ := Option.bind_eq_some_iff.1 h
  rw [sprintfPost, huser, hpassword, hclientId]
  simp only [argument, pure_bind, htext]
  rfl

theorem sprintfPost_of_not_posts {env : JwtEnv} (h : ¬ env.Posts) (m : Memory) :
    ∃ e, sprintfPost env m = .error e := by
  rw [sprintfPost]
  rcases huser : env.username with - | user
  · exact ⟨_, rfl⟩
  rcases hpassword : env.password with - | password
  · exact ⟨_, rfl⟩
  rcases hclientId : env.clientId with - | clientId
  · exact ⟨_, rfl⟩
  rcases htext : postOptBuildUp user password clientId with - | text
  · simp only [argument, pure_bind, htext]
    exact ⟨_, rfl⟩
  · rw [JwtEnv.Posts, huser, hpassword, hclientId] at h
    simp only [Option.bind_some, htext, Option.isSome_some, not_true_eq_false] at h

theorem Holds.read (h : Holds base m mem body) :
    CMemory.read mem.memory mem.size m = .ok (body, m) := by
  rcases h with - | @⟨a, body, x, h, -⟩
  · rfl
  · have hle : body.length ≤ (body ++ [x]).length := by simp
    show CMemory.read (some a) body.length m = _
    rw [read_owned h hle, List.take_left]

/-- A block made while the pieces arrive is none of theirs. -/
theorem Holds.frame {m' : Memory} {a : ℕ} {b : Block} (h : Holds base m mem body)
    (h' : m'.Owns m.store.cells a b) :
    base a = none ∧ Holds (Function.update base a (some b)) m' mem body := by
  rcases h with h | ⟨h, hx⟩
  · exact ⟨h ▸ h'.free, .null (h ▸ h'.cells)⟩
  · obtain ⟨hfree, howns⟩ := h.frame h'
    exact ⟨hfree, .block howns hx⟩

/-- Nothing of an answer is left in a block: there was none in it, or all of its bytes are zero. -/
def Wiped (bs : Bytes) : Prop :=
  bs.length = 1 ∨ ∀ b ∈ bs, b = 0

/-- **The block of the pieces** is wiped and freed. -/
theorem Holds.release (h : Holds base m mem body) :
    ∃ m₁ m₂ wiped, write mem.memory 0 (List.replicate mem.size 0) m = .ok ((), m₁) ∧
      free mem.memory m₁ = .ok ((), m₂) ∧ m₂.store.cells = base ∧ m₂.requests = m.requests ∧
      m₂.freed = m.freed ++ wiped ∧ ∀ bs ∈ wiped, Wiped bs := by
  rcases h with h | @⟨a, body, x, h, hx⟩
  · exact ⟨m, m, [], rfl, rfl, h, rfl, (List.append_nil _).symm,
      fun bs hbs ↦ absurd hbs List.not_mem_nil⟩
  · have hfits : 0 + (List.replicate body.length (0 : UInt8)).length ≤ (body ++ [x]).length := by
      simp
    obtain ⟨m₁, hwrite, howns, hreq₁, hfreed₁⟩ := write_owned h hfits
    have hzeros : (body ++ [x]).take 0 ++ List.replicate body.length (0 : UInt8) ++
        (body ++ [x]).drop (0 + (List.replicate body.length (0 : UInt8)).length) =
          List.replicate body.length 0 ++ [x] := by
      rw [List.take_zero, List.nil_append, List.length_replicate, Nat.zero_add, List.drop_left]
    rw [hzeros] at howns
    obtain ⟨m₂, hfree, hcells, hreq₂, hfreed₂⟩ := free_owned howns
    refine ⟨m₁, m₂, [List.replicate body.length 0 ++ [x]], hwrite, hfree, hcells,
      hreq₂.trans hreq₁, by rw [hfreed₂, hfreed₁], ?_⟩
    intro bs hbs
    rw [List.mem_singleton.1 hbs]
    -- the one byte of the first block may be anything, but it has never been one of the answer
    rcases eq_or_ne body [] with rfl | hne
    · exact Or.inl rfl
    · refine Or.inr fun b hb ↦ ?_
      rcases List.mem_append.1 hb with hb | hb
      · exact List.eq_of_mem_replicate hb
      · rw [List.mem_singleton.1 hb, hx hne]

/-- Where the first block goes. -/
theorem Holds.start (A : Allocator) (m : Memory) :
    ∃ p m', malloc A 1 m = .ok (p, m') ∧ Holds m.store.cells m' ⟨p, 0⟩ [] ∧
      m'.requests = m.requests + 1 ∧ m'.freed = m.freed := by
  rcases hgrant : A.grants m.requests with - | -
  · exact ⟨none, m.refused, malloc_refused hgrant 1, .null rfl, rfl, rfl⟩
  · obtain ⟨m', hrun, howns, hreq, hfreed⟩ := malloc_granted hgrant 1
    obtain ⟨x, hx⟩ := List.length_eq_one_iff.1 (A.length_fill m.requests 1)
    rw [hx] at howns
    exact ⟨_, m', hrun, .block howns (fun hne ↦ absurd rfl hne), hreq, hfreed⟩

/-- After the transfer, the pieces are wiped and freed, whatever it has led to. -/
theorem authTokenLogin_of_transfer {env : JwtEnv} {t : Transfer} {p : Option ℕ} {m₁ m₂ : Memory}
    {rc : ℤ} {response : Option ℕ} (hmalloc : malloc A 1 m = .ok (p, m₁))
    (htransfer : transferBody A env t p m₁ = .ok ((rc, response, mem), m₂))
    (hholds : Holds base m₂ mem body) :
    ∃ m' wiped, authTokenLogin A env t m = .ok ((rc, response), m') ∧ m'.store.cells = base ∧
      m'.requests = m₂.requests ∧ m'.freed = m₂.freed ++ wiped ∧ ∀ bs ∈ wiped, Wiped bs := by
  obtain ⟨m₃, m', wiped, hwipe, hrelease, hcells, hreq, hfreed, hwiped⟩ := hholds.release
  refine ⟨m', wiped, ?_, hcells, hreq, hfreed, hwiped⟩
  rw [authTokenLogin, bind_of_ok hmalloc, bind_of_ok htransfer]
  dsimp only
  rw [bind_of_ok hwipe, bind_of_ok hrelease]
  rfl

variable {env : JwtEnv} {t : Transfer}

/-- **A login that gets the body** leaves a copy of it, and nothing else. -/
theorem authTokenLogin_completes (hposts : t.initOk = true → env.Posts)
    (hc : t.completes A (m.requests + 1) = true)
    (hgrant : A.grants (m.requests + 1 + t.chunks.length) = true) :
    ∃ a m' wiped, authTokenLogin A env t m = .ok ((0, some a), m') ∧
      m'.Owns m.store.cells a (.bytes (t.chunks.flatten ++ [0])) ∧
      m'.requests = m.requests + 2 + t.chunks.length ∧ m'.freed = m.freed ++ wiped ∧
      ∀ bs ∈ wiped, Wiped bs := by
  simp only [Transfer.completes, Bool.and_eq_true, beq_iff_eq] at hc
  obtain ⟨⟨hinit, htakes⟩, hcode⟩ := hc
  obtain ⟨p, m₁, hmalloc, hholds, hreq₁, hfreed₁⟩ := Holds.start A m
  obtain ⟨res, mem, m₂, body, hperform, hholds, hfreed₂, hres⟩ := hholds.perform t.chunks t.code
  rw [hreq₁, if_pos htakes, List.nil_append] at hres
  obtain ⟨rfl, rfl, hreq₂⟩ := hres
  -- the copy is made while the block of the pieces is there, and leaves it as it is
  obtain ⟨a, m₃, m₄, m₅, hresponse, hmemset, hcleared, hmemcpy, howns, hreq₅, hfreed₅⟩ :=
    copy_granted (hreq₂ ▸ hgrant) t.chunks.flatten
  obtain ⟨hfree, hholds₅⟩ := hholds.frame howns
  have htransfer : transferBody A env t p m₁ = .ok ((0, some a, mem), m₅) := by
    have hread := (hholds.frame hcleared).2.read
    rw [transferBody, if_pos hinit, bind_of_ok (sprintfPost_of_posts (hposts hinit) m₁),
      bind_of_ok hperform]
    rw [← hholds.size] at hresponse hmemset
    simp only [hcode, ne_eq, not_true_eq_false, if_false]
    rw [bind_of_ok hresponse, bind_of_ok hmemset, bind_of_ok hread, bind_of_ok hmemcpy]
    rfl
  obtain ⟨m', wiped, hrun, hcells, hreq, hfreed, hwiped⟩ :=
    authTokenLogin_of_transfer hmalloc htransfer hholds₅
  refine ⟨a, m', wiped, hrun, ⟨hfree, hcells⟩, ?_, ?_, hwiped⟩
  · omega
  · rw [hfreed, hfreed₅, hfreed₂, hfreed₁]

/-- The copy of the body is not checked. -/
theorem authTokenLogin_refused (hposts : t.initOk = true → env.Posts)
    (hc : t.completes A (m.requests + 1) = true)
    (hgrant : A.grants (m.requests + 1 + t.chunks.length) = false) :
    ∃ e, authTokenLogin A env t m = .error e := by
  simp only [Transfer.completes, Bool.and_eq_true, beq_iff_eq] at hc
  obtain ⟨⟨hinit, htakes⟩, hcode⟩ := hc
  obtain ⟨p, m₁, hmalloc, hholds, hreq₁, -⟩ := Holds.start A m
  obtain ⟨res, mem, m₂, body, hperform, hholds, -, hres⟩ := hholds.perform t.chunks t.code
  rw [hreq₁, if_pos htakes] at hres
  obtain ⟨rfl, -, hreq₂⟩ := hres
  refine ⟨.nullDeref, ?_⟩
  rw [authTokenLogin, bind_of_ok hmalloc]
  refine bind_of_error ?_
  rw [transferBody, if_pos hinit, bind_of_ok (sprintfPost_of_posts (hposts hinit) m₁),
    bind_of_ok hperform]
  simp only [hcode, ne_eq, not_true_eq_false, if_false]
  rw [bind_of_ok (malloc_refused (hreq₂ ▸ hgrant) _)]
  rfl

/-- **A login that fails** leaves nothing. -/
theorem authTokenLogin_fails (hposts : t.initOk = true → env.Posts)
    (hc : t.completes A (m.requests + 1) = false) :
    ∃ rc m' wiped, rc ≠ 0 ∧ authTokenLogin A env t m = .ok ((rc, none), m') ∧
      m'.store.cells = m.store.cells ∧ m'.freed = m.freed ++ wiped ∧ ∀ bs ∈ wiped, Wiped bs := by
  obtain ⟨p, m₁, hmalloc, hholds, hreq₁, hfreed₁⟩ := Holds.start A m
  rcases hinit : t.initOk with - | -
  · have htransfer : transferBody A env t p m₁ = .ok ((-2, none, ⟨p, 0⟩), m₁) := by
      rw [transferBody, hinit]
      rfl
    obtain ⟨m', wiped, hrun, hcells, -, hfreed, hwiped⟩ :=
      authTokenLogin_of_transfer hmalloc htransfer hholds
    exact ⟨-2, m', wiped, by decide, hrun, hcells, by rw [hfreed, hfreed₁], hwiped⟩
  · obtain ⟨res, mem, m₂, body, hperform, hholds, hfreed₂, hres⟩ := hholds.perform t.chunks t.code
    -- a piece was not taken, or the transfer ends with a code of its own
    have hfails : res ≠ CURLE_OK := by
      rw [hreq₁] at hres
      rw [Transfer.completes, hinit, Bool.true_and] at hc
      rcases htakes : takesAll A (m.requests + 1) t.chunks with - | -
      · rw [htakes, if_neg Bool.false_ne_true] at hres
        rw [hres]
        decide
      · rw [htakes, if_pos rfl] at hres
        rw [htakes, Bool.true_and, beq_eq_false_iff_ne] at hc
        rw [hres.1]
        exact hc
    have htransfer : transferBody A env t p m₁ = .ok ((res, none, mem), m₂) := by
      rw [transferBody, if_pos hinit, bind_of_ok (sprintfPost_of_posts (hposts hinit) m₁),
        bind_of_ok hperform]
      simp only [hfails, ne_eq, not_false_eq_true, if_true]
      rfl
    obtain ⟨m', wiped, hrun, hcells, -, hfreed, hwiped⟩ :=
      authTokenLogin_of_transfer hmalloc htransfer hholds
    exact ⟨res, m', wiped, hfails, hrun, hcells, by rw [hfreed, hfreed₂, hfreed₁], hwiped⟩

/-- Credentials that cannot be posted. -/
theorem authTokenLogin_not_posts (hinit : t.initOk = true) (hposts : ¬ env.Posts) :
    ∃ e, authTokenLogin A env t m = .error e := by
  obtain ⟨p, m₁, hmalloc, -, -, -⟩ := Holds.start A m
  obtain ⟨e, he⟩ := sprintfPost_of_not_posts hposts m₁
  refine ⟨e, ?_⟩
  rw [authTokenLogin, bind_of_ok hmalloc]
  refine bind_of_error ?_
  rw [transferBody, if_pos hinit]
  exact bind_of_error he

end MqExits.Jwt.Extjwtexit
