import MqExits.Text.Bytes

/-!
# The answer to `validateCredentials`

On UNIX `validateCredentials` has a helper check the password, and reads its answer from a pipe, in
a loop that ends when there is no more or the buffer holds 999 bytes. How much of what is there one
call of `read` returns is up to the system, within the size it is given (`Pipe`).

The loop ends, it stays in the buffer, and **the buffer holds the start of the answer however it was
cut**; the credentials are taken for valid exactly if the answer starts with a plus
(`readResponse_ok`).
-/

namespace MqExits.Connwarn

open CText

/-! ### The loop -/

/-- The helper's end of a pipe. -/
structure Pipe where
  /-- What the helper sends. -/
  sent : Bytes
  /-- Whether `read` fails when there is no more, or returns 0. -/
  fails : Bool
  /-- How many bytes `read` returns, of those that are left, when it is called for the `i`-th time
  and given `size`. -/
  count : (i size left : ℕ) → ℕ
  count_pos : ∀ i size left, 0 < size → 0 < left → 0 < count i size left
  count_le : ∀ i size left, count i size left ≤ size ∧ count i size left ≤ left

/-- `read`, with `rest` still in the pipe: the bytes, or `none` for a failure. -/
def Pipe.read (p : Pipe) (i : ℕ) (rest : Bytes) (size : ℕ) : Option Bytes :=
  if rest = [] ∧ p.fails = true then none
  else some (rest.take (p.count i size rest.length))

/-- `sizeof(response)`. -/
def RESPONSE_SIZE : ℕ := 1000

/-- `sizeof(response)-1-bytesRead`, which has no sign. -/
def readSize (bytesRead : ℕ) : ℕ :=
  (2 ^ 64 + (RESPONSE_SIZE - 1) - bytesRead) % 2 ^ 64

/-- The array `mem` with `bytes` written from `offset` on; `none` if they do not fit. -/
def writeAt (mem : Bytes) (offset : ℕ) (bytes : Bytes) : Option Bytes :=
  if offset + bytes.length ≤ mem.length then
    some (mem.take offset ++ (bytes ++ mem.drop (offset + bytes.length)))
  else none

/-- The variables of the loop, and what the calls of `read` were given: an offset in `response` and
a size. -/
structure ReadState where
  rest : Bytes
  response : Bytes
  bytesRead : ℕ
  reads : List (ℕ × ℕ)

/-- The array is all NULs before the loop. -/
def Pipe.start (p : Pipe) : ReadState where
  rest := p.sent
  response := List.replicate RESPONSE_SIZE 0
  bytesRead := 0
  reads := []

/-- The loop. One unit of fuel is one iteration; `none` when the fuel runs out, or a byte comes to
lie outside the array. -/
def Pipe.readLoop (p : Pipe) : ℕ → ReadState → Option ReadState
  | 0, _ => none
  | fuel + 1, s =>
    let size := readSize s.bytesRead
    let reads := s.reads ++ [(s.bytesRead, size)]
    match p.read s.reads.length s.rest size with
    | none => some { s with reads }
    | some piece =>
      if piece = [] then some { s with reads }
      else do
        let response ← writeAt s.response s.bytesRead piece
        let bytesRead := s.bytesRead + piece.length
        let s := { rest := s.rest.drop piece.length, response, bytesRead, reads }
        if bytesRead = RESPONSE_SIZE - 1 then return s
        p.readLoop fuel s

/-- The state after the loop. -/
def readResponse (p : Pipe) : Option ReadState :=
  p.readLoop RESPONSE_SIZE p.start

/-- `rc`, once the answer has been read. -/
def validates (p : Pipe) : Option Bool :=
  (readResponse p).map fun s ↦ s.response.headD 0 == 43

/-! ### The invariant -/

/-- Each `read` was given a size, and room for as much before the last byte of the array. -/
def ReadsInside (reads : List (ℕ × ℕ)) : Prop :=
  ∀ r ∈ reads, 0 < r.2 ∧ r.1 + r.2 ≤ RESPONSE_SIZE - 1

/-- The array holds the start of the answer, and the pipe the rest. -/
structure Stored (p : Pipe) (s : ReadState) : Prop where
  le : s.bytesRead ≤ p.sent.length
  rest : s.rest = p.sent.drop s.bytesRead
  response : s.response = padTo RESPONSE_SIZE 0 (p.sent.take s.bytesRead)
  reads : ReadsInside s.reads

theorem stored_start (p : Pipe) : Stored p p.start where
  le := Nat.zero_le _
  rest := List.drop_zero.symm
  response := rfl
  reads r hr := by cases hr

theorem readSize_eq {bytesRead : ℕ} (h : bytesRead ≤ RESPONSE_SIZE - 1) :
    readSize bytesRead = RESPONSE_SIZE - 1 - bytesRead := by
  rw [readSize, Nat.add_sub_assoc h, Nat.add_mod_left, Nat.mod_eq_of_lt]
  exact (Nat.sub_le _ _).trans_lt (by decide)

theorem ReadsInside.append {reads : List (ℕ × ℕ)} (h : ReadsInside reads) {bytesRead : ℕ}
    (hroom : bytesRead < RESPONSE_SIZE - 1) :
    ReadsInside (reads ++ [(bytesRead, readSize bytesRead)]) := by
  intro r hr
  rcases List.mem_append.1 hr with hr | hr
  · exact h r hr
  · obtain rfl := List.mem_singleton.1 hr
    rw [readSize_eq hroom.le]
    show 0 < RESPONSE_SIZE - 1 - bytesRead ∧ bytesRead + (RESPONSE_SIZE - 1 - bytesRead) ≤ _
    omega

/-- Writing behind what is there. -/
theorem writeAt_padTo {n : ℕ} {u : Bytes} (bytes : Bytes) (h : u.length + bytes.length ≤ n) :
    writeAt (padTo n 0 u) u.length bytes = some (padTo n 0 (u ++ bytes)) := by
  have hlen : (padTo n 0 u).length = n := padTo_length ((Nat.le_add_right _ _).trans h)
  have hdrop : (padTo n 0 u).drop (u.length + bytes.length) =
      List.replicate (n - (u ++ bytes).length) 0 := by
    rw [padTo, ← List.drop_drop, List.drop_left, List.drop_replicate, List.length_append,
      Nat.sub_sub]
  rw [writeAt, hlen, if_pos h, hdrop, padTo, List.take_left, padTo, List.append_assoc]

/-- What `read` returns, where there is room: nothing when there is no more, else the next bytes. -/
theorem read_cases (p : Pipe) (i : ℕ) (rest : Bytes) {size : ℕ} (hsize : 0 < size) :
    rest = [] ∧ (p.read i rest size = none ∨ p.read i rest size = some []) ∨
      ∃ n, 0 < n ∧ n ≤ size ∧ n ≤ rest.length ∧ p.read i rest size = some (rest.take n) := by
  rcases eq_or_ne rest [] with rfl | hne
  · refine Or.inl ⟨rfl, ?_⟩
    rw [Pipe.read]
    split_ifs
    · exact Or.inl rfl
    · exact Or.inr (by rw [List.take_nil])
  · obtain ⟨hle, hleft⟩ := p.count_le i size rest.length
    refine Or.inr ⟨_, p.count_pos i size rest.length hsize (List.length_pos_of_ne_nil hne), hle,
      hleft, ?_⟩
    rw [Pipe.read, if_neg fun h ↦ hne h.1]

/-- What an iteration makes of the next `n` bytes. -/
def ReadState.next (s : ReadState) (p : Pipe) (n : ℕ) : ReadState where
  rest := s.rest.drop n
  response := padTo RESPONSE_SIZE 0 (p.sent.take (s.bytesRead + n))
  bytesRead := s.bytesRead + n
  reads := s.reads ++ [(s.bytesRead, readSize s.bytesRead)]

/-- The next bytes go where the array has NULs. -/
theorem Stored.writeAt {p : Pipe} {s : ReadState} (h : Stored p s) {n : ℕ} (hn : n ≤ s.rest.length)
    (hroom : s.bytesRead + n ≤ RESPONSE_SIZE) :
    writeAt s.response s.bytesRead (s.rest.take n) = some (s.next p n).response := by
  have hlen : (p.sent.take s.bytesRead).length = s.bytesRead := by
    rw [List.length_take, Nat.min_eq_left h.le]
  have hpiece : (s.rest.take n).length = n := by rw [List.length_take, Nat.min_eq_left hn]
  have hwrite := writeAt_padTo (n := RESPONSE_SIZE) (u := p.sent.take s.bytesRead) (s.rest.take n)
    (by rw [hlen, hpiece]; exact hroom)
  rwa [hlen, h.rest, ← List.take_add, ← h.response, ← h.rest] at hwrite

/-- **An iteration** that reads something. -/
theorem Stored.next {p : Pipe} {s : ReadState} (h : Stored p s)
    (hroom : s.bytesRead < RESPONSE_SIZE - 1) {n : ℕ} (hn : n ≤ s.rest.length) :
    Stored p (s.next p n) where
  le := by
    rw [h.rest, List.length_drop] at hn
    exact Nat.add_le_of_le_sub' h.le hn
  rest := by
    show s.rest.drop n = _
    rw [h.rest, List.drop_drop]
    rfl
  response := rfl
  reads := h.reads.append hroom

/-! ### The run of the loop -/

/-- The loop has read all there is, or all there is room for. -/
structure Complete (p : Pipe) (s : ReadState) : Prop where
  bytesRead : s.bytesRead = min (RESPONSE_SIZE - 1) p.sent.length
  response : s.response = padTo RESPONSE_SIZE 0 (p.sent.take (RESPONSE_SIZE - 1))
  reads : ReadsInside s.reads

theorem Stored.complete {p : Pipe} {s : ReadState} (h : Stored p s)
    (hend : s.bytesRead = min (RESPONSE_SIZE - 1) p.sent.length) : Complete p s := by
  refine ⟨hend, ?_, h.reads⟩
  rw [h.response, List.take_eq_take_iff.2]
  rw [hend, Nat.min_assoc, Nat.min_self]

/-- **The loop completes the answer**. Each iteration but the last reads a byte at least. The
induction is on the fuel. -/
theorem Stored.readLoop {p : Pipe} {fuel : ℕ} {s : ReadState} (h : Stored p s)
    (hroom : s.bytesRead < RESPONSE_SIZE - 1) (hfuel : RESPONSE_SIZE - 1 ≤ s.bytesRead + fuel) :
    ∃ s', p.readLoop fuel s = some s' ∧ Complete p s' := by
  induction fuel generalizing s with
  | zero => exact absurd hfuel (not_le.2 hroom)
  | succ fuel ih =>
    have hsize := readSize_eq hroom.le
    have hpos : 0 < readSize s.bytesRead := hsize ▸ Nat.sub_pos_of_lt hroom
    rcases read_cases p s.reads.length s.rest hpos with
      ⟨hnil, hread⟩ | ⟨n, hn, hnsize, hnrest, hread⟩
    · -- the end of the answer
      have hend : s.bytesRead = min (RESPONSE_SIZE - 1) p.sent.length := by
        rw [h.rest, List.drop_eq_nil_iff] at hnil
        rw [← le_antisymm h.le hnil, Nat.min_eq_right hroom.le]
      have hstored :
          Stored p { s with reads := s.reads ++ [(s.bytesRead, readSize s.bytesRead)] } :=
        ⟨h.le, h.rest, h.response, h.reads.append hroom⟩
      refine ⟨_, ?_, hstored.complete hend⟩
      rcases hread with hread | hread
      · rw [Pipe.readLoop, hread]
      · rw [Pipe.readLoop, hread]
        rfl
    · rw [hsize] at hnsize
      have hpiece : (s.rest.take n).length = n := by rw [List.length_take, Nat.min_eq_left hnrest]
      have hne : s.rest.take n ≠ [] := List.ne_nil_of_length_pos (hpiece.symm ▸ hn)
      have hwrite := h.writeAt hnrest (by omega)
      have hstep : p.readLoop (fuel + 1) s =
          if s.bytesRead + n = RESPONSE_SIZE - 1 then some (s.next p n)
          else p.readLoop fuel (s.next p n) := by
        rw [Pipe.readLoop, hread]
        simp only [if_neg hne, hwrite, hpiece, Option.bind_eq_bind, Option.bind_some]
        rfl
      rw [hstep]
      split_ifs with hfull
      · refine ⟨_, rfl, (h.next hroom hnrest).complete ?_⟩
        have hle : s.bytesRead + n ≤ p.sent.length := (h.next hroom hnrest).le
        show s.bytesRead + n = _
        rw [hfull, Nat.min_eq_left (hfull ▸ hle)]
      · exact ih (h.next hroom hnrest)
          (show s.bytesRead + n < _ by omega) (show _ ≤ s.bytesRead + n + fuel by omega)

/-- **The answer is read** whole or up to 999 bytes, and the credentials are valid exactly if it
starts with a plus. How it was cut makes no difference. -/
theorem readResponse_ok (p : Pipe) :
    ∃ s, readResponse p = some s ∧ Complete p s ∧
      validates p = some (p.sent.head? == some 43) := by
  have hroom : 0 < RESPONSE_SIZE - 1 := by decide
  have hfuel : RESPONSE_SIZE - 1 ≤ 0 + RESPONSE_SIZE := by decide
  obtain ⟨s, hread, hcomplete⟩ := (stored_start p).readLoop hroom hfuel
  refine ⟨s, hread, hcomplete, ?_⟩
  have hrc : s.response.headD 0 == 43 ↔ p.sent.head? == some 43 := by
    rw [hcomplete.response]
    rcases p.sent with - | ⟨c, sent⟩
    · decide
    · have hsize : RESPONSE_SIZE - 1 = 998 + 1 := rfl
      rw [hsize, List.take_succ_cons, padTo]
      rfl
  rw [validates, readResponse, hread, Option.map_some]
  exact congrArg some (Bool.eq_iff_iff.2 hrc)

/-- A pipe that gives one byte at a time. -/
def Pipe.slow (sent : Bytes) : Pipe where
  sent := sent
  fails := false
  count _ size left := min 1 (min size left)
  count_pos _ _ _ hsize hleft := by omega
  count_le _ _ _ := by omega

example : validates (.slow (lit "+0")) = some true := by decide +kernel

end MqExits.Connwarn
