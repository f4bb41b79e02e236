import MqExits.Mqi.Types
import MqExits.Oam.Sput

/-!
# The messages of `sput`

The program reads its input with `fgets` into a buffer of 65535 bytes and puts what it reads,
without the newline, as a message, until there is nothing to put or a put fails. So a line of more
than 65534 bytes comes in pieces, and where a piece is empty the input ends: at an empty line, and
behind a line whose length is a multiple of 65534.

**The messages are the pieces of the lines up to there** (`putLoop_eq`), and `main` makes its calls
around them (`main_eq`). What is read has to begin with something else than a NUL:
`isSome_putLoop_iff` says when the program looks at a byte before the buffer.
-/

namespace MqExits.Oam.Sput

open CText

/-! ### The loop -/

/-- The completion code and the reason of a call. -/
structure Reply where
  compCode : MQCC
  reason : MQRC

/-- `sizeof(buffer)`. -/
def BUFFER_SIZE : ℕ := 65535

/-- What the loop reads: the buffer, `messlen`, and what is left of the input. `none` for a look at
`buffer[-1]`. -/
def readPiece (buffer stdin : Bytes) : Option (Bytes × ℕ × Bytes) :=
  match fgets buffer BUFFER_SIZE stdin with
  | none => some (buffer, 0, stdin)
  | some (buffer, stdin) =>
    let messlen := (cstr buffer).length
    if messlen = 0 then none
    else if buffer.getD (messlen - 1) 0 = newline then
      some (buffer.set (messlen - 1) 0, messlen - 1, stdin)
    else some (buffer, messlen, stdin)

/-- The loop: the data of the messages that are put. `puts` are the replies to the MQPUT calls, of
which `n` have been made. One unit of fuel is one read. -/
def putLoop (puts : ℕ → Reply) : ℕ → ℕ → Bytes → Bytes → Option (List Bytes)
  | 0, _, _, _ => none
  | fuel + 1, n, buffer, stdin =>
    (readPiece buffer stdin).bind fun (buffer, messlen, stdin) ↦
      if 0 < messlen then
        if (puts n).compCode ≠ .FAILED then
          (putLoop puts fuel (n + 1) buffer stdin).map fun data ↦ buffer.take messlen :: data
        else some [buffer.take messlen]
      else some []

/-! ### What is read -/

/-- The message that is read. -/
def messageOf (read : Bytes) : Bytes :=
  withoutNewline (cstr read)

/-- The string in a buffer, and its NUL. -/
theorem exists_eq_cstr_append (text tail : Bytes) :
    ∃ tail', text ++ 0 :: tail = cstr text ++ 0 :: tail' := by
  have hsplit : cstr (text ++ 0 :: tail) ++ (text ++ 0 :: tail).dropWhile (· != 0) =
      text ++ 0 :: tail := List.takeWhile_append_dropWhile
  rw [cstr_append_nul] at hsplit
  rcases eq_nil_or_of_cstr_eq_nil (cstr_dropWhile (text ++ 0 :: tail)) with hnil | ⟨tail', htail⟩
  · rw [List.dropWhile_eq_nil_iff] at hnil
    exact absurd (hnil 0 (by simp)) (by decide)
  · exact ⟨tail', by rw [← htail, hsplit]⟩

/-- **One read**: the message is in the buffer. -/
theorem exists_readPiece {stdin : Bytes} (hne : stdin ≠ []) (buffer : Bytes)
    (hread : cstr (readLine 65534 stdin).1 ≠ []) :
    ∃ buffer', readPiece buffer stdin =
      some (buffer', (messageOf (readLine 65534 stdin).1).length, (readLine 65534 stdin).2) ∧
      buffer'.take (messageOf (readLine 65534 stdin).1).length =
        messageOf (readLine 65534 stdin).1 := by
  obtain ⟨tail, htail⟩ := exists_eq_cstr_append (readLine 65534 stdin).1
    (buffer.drop ((readLine 65534 stdin).1.length + 1))
  have hfgets : fgets buffer BUFFER_SIZE stdin =
      some (cstr (readLine 65534 stdin).1 ++ 0 :: tail, (readLine 65534 stdin).2) := by
    rw [fgets, if_neg hne, ← htail]
    rfl
  have hnul := not_mem_cstr (readLine 65534 stdin).1
  rw [readPiece, hfgets, messageOf]
  generalize cstr (readLine 65534 stdin).1 = text at hread hnul ⊢
  have hlen : text.length ≠ 0 := mt List.length_eq_zero_iff.1 hread
  have hcstr : cstr (text ++ 0 :: tail) = text := by rw [cstr_append_nul, cstr_eq_self hnul]
  simp only [hcstr, if_neg hlen, withoutNewline]
  -- the newline is taken off where there is one before the NUL
  have hends := endsInNewline_iff text tail
  rw [and_iff_right (Nat.pos_of_ne_zero hlen)] at hends
  rw [if_congr hends rfl rfl]
  split_ifs
  · refine ⟨_, by rw [List.length_dropLast], ?_⟩
    have hfirst : (text ++ 0 :: tail).set (text.length - 1) 0 =
        text.set (text.length - 1) 0 ++ 0 :: tail := List.set_append_left _ _ (by omega)
    rw [hfirst, List.length_dropLast, List.take_append_of_le_length (by simp),
      List.take_set_of_le le_rfl, List.dropLast_eq_take]
  · exact ⟨_, rfl, List.take_left⟩

/-- A read that begins with a NUL. -/
theorem readPiece_eq_none {stdin : Bytes} (hne : stdin ≠ []) (buffer : Bytes)
    (hread : cstr (readLine 65534 stdin).1 = []) : readPiece buffer stdin = none := by
  have hcstr : ∀ tail, cstr ((readLine 65534 stdin).1 ++ 0 :: tail) = [] := by
    intro tail
    rw [cstr_append_nul, hread]
  rw [readPiece, fgets, if_neg hne]
  simp only [BUFFER_SIZE, hcstr]
  rfl

/-! ### The messages of the reads -/

/-- The messages up to the first empty one. -/
def upToEmpty (messages : List Bytes) : List Bytes :=
  messages.takeWhile (· ≠ [])

/-- The messages up to the first whose put fails, with that one; `n` have been put before. -/
def upToFailure (puts : ℕ → Reply) : ℕ → List Bytes → List Bytes
  | _, [] => []
  | n, m :: messages =>
    m :: if (puts n).compCode = .FAILED then [] else upToFailure puts (n + 1) messages

/-- The reads that the loop makes. -/
def readsOf (stdin : Bytes) : List Bytes :=
  readsFrom 65534 stdin.length stdin

/-- The reads before the `k`-th one are put, and their puts do not fail; `n` have been put
before. -/
def Reaches (puts : ℕ → Reply) (n : ℕ) (reads : List Bytes) (k : ℕ) : Prop :=
  ∀ j < k, ∀ r, reads[j]? = some r → messageOf r ≠ [] ∧ (puts (n + j)).compCode ≠ .FAILED

/-- No read that the loop comes to begins with a NUL. -/
def ReadsText (puts : ℕ → Reply) (n : ℕ) (reads : List Bytes) : Prop :=
  ∀ k r, reads[k]? = some r → Reaches puts n reads k → cstr r ≠ []

theorem reaches_cons {puts : ℕ → Reply} {n k : ℕ} {r : Bytes} {reads : List Bytes} :
    Reaches puts n (r :: reads) (k + 1) ↔
      (messageOf r ≠ [] ∧ (puts n).compCode ≠ .FAILED) ∧ Reaches puts (n + 1) reads k := by
  constructor
  · refine fun h ↦ ⟨h 0 (Nat.succ_pos k) r rfl, fun j hj r' hr' ↦ ?_⟩
    have hnext := h (j + 1) (Nat.succ_lt_succ hj) r' hr'
    rwa [Nat.add_comm j 1, ← Nat.add_assoc] at hnext
  · rintro ⟨hfirst, hrest⟩ j hj r' hr'
    rcases j with - | j
    · obtain rfl := Option.some.inj hr'
      exact hfirst
    · rw [Nat.add_comm j 1, ← Nat.add_assoc]
      exact hrest j (Nat.lt_of_succ_lt_succ hj) r' hr'

theorem readsText_cons {puts : ℕ → Reply} {n : ℕ} {r : Bytes} {reads : List Bytes} :
    ReadsText puts n (r :: reads) ↔ cstr r ≠ [] ∧
      (messageOf r ≠ [] → (puts n).compCode ≠ .FAILED → ReadsText puts (n + 1) reads) := by
  constructor
  · intro h
    refine ⟨h 0 r rfl fun j hj ↦ absurd hj (Nat.not_lt_zero j), fun hr hput k r' hr' hk ↦ ?_⟩
    exact h (k + 1) r' hr' (reaches_cons.2 ⟨⟨hr, hput⟩, hk⟩)
  · rintro ⟨hfirst, hrest⟩ k r' hr' hk
    rcases k with - | k
    · obtain rfl := Option.some.inj hr'
      exact hfirst
    · obtain ⟨⟨hr, hput⟩, hk⟩ := reaches_cons.1 hk
      exact hrest hr hput k r' hr' hk

theorem readsText_nil (puts : ℕ → Reply) (n : ℕ) : ReadsText puts n [] :=
  fun _ _ h ↦ absurd h (by simp)

/-- **The loop over the reads.** The induction is on what is left of the input. -/
theorem putLoop_reads (puts : ℕ → Reply) {fuel k : ℕ} {stdin : Bytes} (hfuel : stdin.length < fuel)
    (hk : stdin.length ≤ k) (n : ℕ) (buffer : Bytes) :
    (ReadsText puts n (readsFrom 65534 k stdin) → putLoop puts fuel n buffer stdin =
      some (upToFailure puts n (upToEmpty ((readsFrom 65534 k stdin).map messageOf)))) ∧
      (¬ ReadsText puts n (readsFrom 65534 k stdin) →
        putLoop puts fuel n buffer stdin = none) := by
  induction hlen : stdin.length using Nat.strong_induction_on
    generalizing stdin fuel k n buffer with
  | _ len ih =>
  obtain ⟨fuel, rfl⟩ : ∃ f, fuel = f + 1 := ⟨fuel - 1, by omega⟩
  rcases eq_or_ne stdin [] with rfl | hne
  · rw [readsFrom_nil]
    exact ⟨fun _ ↦ rfl, fun h ↦ absurd (readsText_nil puts n) h⟩
  · obtain ⟨k', hk', hreads⟩ := readsFrom_of_ne_nil (n := 65534) (by decide) hne hk
    have hlt := readLine_rest_length_lt (n := 65534) (by decide) hne
    rw [hreads, readsText_cons, List.map_cons, putLoop]
    by_cases hread : cstr (readLine 65534 stdin).1 = []
    · -- the piece begins with a NUL: the program looks at the byte before the buffer
      rw [readPiece_eq_none hne buffer hread]
      exact ⟨fun h ↦ absurd hread h.1, fun _ ↦ rfl⟩
    · obtain ⟨buffer', hpiece, hdata⟩ := exists_readPiece hne buffer hread
      rw [hpiece, Option.bind_some]
      generalize messageOf (readLine 65534 stdin).1 = message at hdata ⊢
      simp only [hdata, List.length_pos_iff]
      rcases eq_or_ne message [] with rfl | hmessage
      · rw [if_neg (by simp)]
        refine ⟨fun _ ↦ rfl, fun h ↦ absurd ⟨hread, fun hempty ↦ absurd rfl hempty⟩ h⟩
      · rw [if_pos hmessage, upToEmpty, List.takeWhile_cons_of_pos (by simpa using hmessage),
          upToFailure]
        -- the put fails and the loop ends, or it goes on with what is left of the input
        by_cases hput : (puts n).compCode = .FAILED
        · rw [if_neg (by simp [hput]), if_pos hput]
          exact ⟨fun _ ↦ rfl, fun h ↦ absurd ⟨hread, fun _ hok ↦ absurd hput hok⟩ h⟩
        · obtain ⟨hsome, hnone⟩ := ih _ (by omega) (show _ < fuel by omega) hk' (n + 1) buffer' rfl
          rw [if_pos hput, if_neg hput]
          refine ⟨fun h ↦ ?_, fun h ↦ ?_⟩
          · rw [hsome (h.2 hmessage hput)]
            rfl
          · rw [hnone fun hrest ↦ h ⟨hread, fun _ _ ↦ hrest⟩]
            rfl

/-! ### The messages of the lines -/

/-- The pieces of a line. The last one may be empty. -/
def piecesOf (line : Bytes) : List Bytes :=
  (List.range (line.length / 65534)).map (pieceAt 65534 line) ++ [lastPiece 65534 line]

/-- What is put of an input: the pieces of its lines, up to the first empty one. -/
def messagesOf (input : Bytes) : List Bytes :=
  upToEmpty ((linesOf input).flatMap piecesOf)

theorem messageOf_of_not_mem {read : Bytes} (hline : newline ∉ read) (hnul : (0 : UInt8) ∉ read) :
    messageOf read = read := by
  rw [messageOf, cstr_eq_self hnul, withoutNewline_of_not_mem hline]

theorem messageOf_append_newline {read : Bytes} (hnul : (0 : UInt8) ∉ read) :
    messageOf (read ++ [newline]) = read := by
  have hnul' : (0 : UInt8) ∉ read ++ [newline] := by
    rw [List.mem_append, List.mem_singleton]
    exact not_or.2 ⟨hnul, by decide⟩
  rw [messageOf, cstr_eq_self hnul', withoutNewline_append]

theorem mem_of_mem_pieceAt {n k : ℕ} {l : Bytes} {b : UInt8} (h : b ∈ pieceAt n l k) : b ∈ l :=
  List.mem_of_mem_drop (List.mem_of_mem_take h)

/-- The whole pieces of a line are put as they are. -/
theorem map_messageOf_pieces {line : Bytes} (hline : newline ∉ line) (hnul : (0 : UInt8) ∉ line)
    (m : ℕ) : ((List.range m).map (pieceAt 65534 line)).map messageOf =
      (List.range m).map (pieceAt 65534 line) := by
  rw [List.map_map]
  exact List.map_congr_left fun k _ ↦
    messageOf_of_not_mem (mt mem_of_mem_pieceAt hline) (mt mem_of_mem_pieceAt hnul)

theorem upToEmpty_append_congr {front messages messages' : List Bytes}
    (h : upToEmpty messages = upToEmpty messages') :
    upToEmpty (front ++ messages) = upToEmpty (front ++ messages') := by
  rw [upToEmpty, upToEmpty, List.takeWhile_append, List.takeWhile_append]
  split_ifs
  · exact congrArg _ h
  · rfl

/-- **The messages of the reads are those of the lines.** -/
theorem upToEmpty_map_messageOf {stdin : Bytes} (hnul : (0 : UInt8) ∉ stdin) {k : ℕ}
    (hk : stdin.length ≤ k) :
    upToEmpty ((readsFrom 65534 k stdin).map messageOf) = messagesOf stdin := by
  induction stdin using lines_induction generalizing k with
  | last l hl =>
    have hlast : (0 : UInt8) ∉ lastPiece 65534 l := mt List.mem_of_mem_drop hnul
    rw [readsFrom_last (by decide) hl hk, messagesOf, linesOf_last hl, List.flatMap_singleton,
      piecesOf, List.map_append, map_messageOf_pieces hl hnul]
    refine upToEmpty_append_congr ?_
    split_ifs with hempty
    · rw [hempty]
      rfl
    · rw [List.map_singleton, messageOf_of_not_mem (not_mem_lastPiece hl) hlast]
  | line l rest hl ih =>
    have hnul' : (0 : UInt8) ∉ l ∧ (0 : UInt8) ∉ rest := by
      simpa [newline] using hnul
    have hlast : (0 : UInt8) ∉ lastPiece 65534 l := mt List.mem_of_mem_drop hnul'.1
    obtain ⟨k', hk', hreads⟩ := readsFrom_line (n := 65534) (by decide) hl rest hk
    rw [hreads, messagesOf, linesOf_line hl, List.flatMap_cons, piecesOf, List.map_append,
      map_messageOf_pieces hl hnul'.1, List.map_cons, messageOf_append_newline hlast,
      List.append_assoc]
    refine upToEmpty_append_congr ?_
    show upToEmpty ([_] ++ _) = upToEmpty ([_] ++ _)
    exact upToEmpty_append_congr (ih hnul'.2 hk')

theorem readLine_fst_prefix (n : ℕ) (stream : Bytes) :
    (readLine n stream).1 ++ (readLine n stream).2 = stream := by
  induction n generalizing stream with
  | zero => rfl
  | succ n ih =>
    rcases stream with - | ⟨b, stream⟩
    · rfl
    · rw [readLine]
      split_ifs
      · rfl
      · exact congrArg _ (ih stream)

/-- A read is of the input, and not empty. -/
theorem mem_readsFrom {n : ℕ} (hn : 0 < n) {k : ℕ} {stdin r : Bytes}
    (h : r ∈ readsFrom n k stdin) : r ≠ [] ∧ r ⊆ stdin := by
  induction k generalizing stdin with
  | zero => exact absurd h (List.not_mem_nil)
  | succ k ih =>
    rw [readsFrom] at h
    split_ifs at h with hne
    · exact absurd h List.not_mem_nil
    · have hsplit := readLine_fst_prefix n stdin
      rcases List.mem_cons.1 h with rfl | h
      · refine ⟨fun hnil ↦ ?_, fun b hb ↦ ?_⟩
        · have hlt := readLine_rest_length_lt hn hne
          rw [hnil, List.nil_append] at hsplit
          rw [hsplit] at hlt
          exact absurd hlt (lt_irrefl _)
        · rw [← hsplit]
          exact List.mem_append_left _ hb
      · obtain ⟨hr, hsub⟩ := ih h
        refine ⟨hr, fun b hb ↦ ?_⟩
        rw [← hsplit]
        exact List.mem_append_right _ (hsub hb)

theorem readsText_of_not_mem {stdin : Bytes} (hnul : (0 : UInt8) ∉ stdin) (puts : ℕ → Reply)
    (n k : ℕ) : ReadsText puts n (readsFrom 65534 k stdin) := by
  intro j r hr _
  obtain ⟨hne, hsub⟩ := mem_readsFrom (by decide) (List.mem_of_getElem? hr)
  rwa [cstr_eq_self fun h ↦ hnul (hsub h)]

/-- **What the loop puts**: the pieces of the lines, up to the first empty one and the first whose
put fails. -/
theorem putLoop_eq {stdin : Bytes} (hnul : (0 : UInt8) ∉ stdin) (puts : ℕ → Reply)
    (buffer : Bytes) : putLoop puts (stdin.length + 1) 0 buffer stdin =
      some (upToFailure puts 0 (messagesOf stdin)) := by
  rw [← upToEmpty_map_messageOf hnul le_rfl]
  exact (putLoop_reads puts (Nat.lt_succ_self _) le_rfl 0 buffer).1
    (readsText_of_not_mem hnul puts 0 _)

/-- **When the loop stays in its buffer.** -/
theorem isSome_putLoop_iff (puts : ℕ → Reply) (buffer stdin : Bytes) :
    (putLoop puts (stdin.length + 1) 0 buffer stdin).isSome ↔
      ReadsText puts 0 (readsOf stdin) := by
  obtain ⟨hsome, hnone⟩ := putLoop_reads puts (Nat.lt_succ_self stdin.length) le_rfl 0 buffer
  by_cases h : ReadsText puts 0 (readsOf stdin)
  · rw [hsome h]
    exact iff_of_true rfl h
  · rw [hnone h]
    exact iff_of_false (by simp) h

/-! ### The program -/

def MQ_Q_NAME_LENGTH : ℕ := 48
def MQ_Q_MGR_NAME_LENGTH : ℕ := 48

def MQOO_OUTPUT : ℤ := 0x10
def MQOO_FAIL_IF_QUIESCING : ℤ := 0x2000
def MQPMO_NO_SYNCPOINT : ℤ := 0x4
def MQPMO_FAIL_IF_QUIESCING : ℤ := 0x2000
def MQCO_NONE : ℤ := 0

/-- A call of the queue manager, with what the program gives it. Names are without their padding. -/
inductive MqiCall
  /-- The user id and the password of the MQCSP, if there is one. -/
  | MQCONNX (qMgrName : Bytes) (csp : Option (Bytes × Bytes))
  | MQOPEN (objectName objectQMgrName dynamicQName : Bytes) (options : ℤ)
  | MQPUT (format : Bytes) (options : ℤ) (data : Bytes)
  | MQCLOSE (options : ℤ)
  | MQDISC
  deriving DecidableEq

/-- What the program finds: its arguments, `MQSAMP_USER_ID`, its input, and the replies of the queue
manager. -/
structure Env where
  argv : List Bytes
  userId : Option Bytes
  isatty : Bool
  stdin : Bytes
  /-- The memory of `buffer`. -/
  buffer : Bytes
  connx : Reply
  opens : Reply
  puts : ℕ → Reply

/-- `strtol` in base 10. A value that no `long` has becomes the nearest one. -/
def strtol (s : Bytes) : ℤ :=
  let (negative, digits) := skipSign (s.dropWhile isspace)
  let value := (digits.takeWhile fun c ↦ 48 ≤ c ∧ c ≤ 57).foldl
    (fun n c ↦ 10 * n + ((c.toNat : ℤ) - 48)) 0
  max (-2 ^ 63) (min (if negative then -value else value) (2 ^ 63 - 1))

/-- `atoi`: the `long` cut to an `int`. -/
def atoi (s : Bytes) : ℤ :=
  (BitVec.ofInt 32 (strtol s)).toInt

example : atoi (lit " -1 ") = -1 ∧ atoi (lit "8208x") = 8208 ∧ atoi (lit "4294967295") = -1 ∧
    atoi (lit "99999999999999999999") = -1 := by
  decide +kernel

/-- An option that is given as an argument, and not as `-1`. -/
def optionArg (argv : List Bytes) (k : ℕ) (default : ℤ) : ℤ :=
  match argv[k]? with
  | some arg => if atoi arg ≠ -1 then atoi arg else default
  | none => default

/-- A name that is given as an argument, and not as `_`. -/
def nameArg (argv : List Bytes) (k : ℕ) (default : Bytes) : Bytes :=
  match argv[k]? with
  | some arg => if arg ≠ lit "_" then strncpy arg MQ_Q_NAME_LENGTH else default
  | none => default

/-- The call of MQCONNX. The default queue manager has no name. -/
def Env.callConnx (env : Env) (csp : Option (Bytes × Bytes)) : MqiCall :=
  .MQCONNX (strncpy (env.argv.getD 2 []) MQ_Q_MGR_NAME_LENGTH) csp

/-- The call of MQOPEN. The defaults are those of `MQOD_DEFAULT`. -/
def Env.callOpen (env : Env) : MqiCall :=
  .MQOPEN (strncpy (env.argv.getD 1 []) MQ_Q_NAME_LENGTH) (nameArg env.argv 5 [])
    (nameArg env.argv 6 (lit "AMQ.*"))
    (optionArg env.argv 3 (MQOO_OUTPUT + MQOO_FAIL_IF_QUIESCING))

def callPut (data : Bytes) : MqiCall :=
  .MQPUT (lit "MQSTR   ") (MQPMO_NO_SYNCPOINT + MQPMO_FAIL_IF_QUIESCING) data

def Env.callClose (env : Env) : MqiCall :=
  .MQCLOSE (optionArg env.argv 4 MQCO_NONE)

/-- The MQCSP, and the input that is left for the messages. -/
def Env.security (env : Env) : Option (Option (Bytes × Bytes) × Bytes) :=
  match env.userId with
  | some userId => (readPassword env.isatty env.stdin).map fun r ↦ (some (userId, r.1), r.2)
  | none => some (none, env.stdin)

/-- `exit`: of the status, its parent sees the low 8 bits. -/
def exitStatus (status : ℕ) : ℕ :=
  status % 256

/-- `main`: the calls in order, and the exit status. -/
def main (env : Env) : Option (List MqiCall × ℕ) :=
  if env.argv.length < 2 then some ([], exitStatus 99)
  else do
    let (csp, stdin) ← env.security
    if env.connx.compCode = .FAILED then return ([env.callConnx csp], exitStatus env.connx.reason)
    let data ←
      if env.opens.compCode ≠ .FAILED then putLoop env.puts (stdin.length + 1) 0 env.buffer stdin
      else some []
    return (env.callConnx csp :: env.callOpen :: data.map callPut ++
      (if env.opens.compCode ≠ .FAILED then [env.callClose] else []) ++
      (if env.connx.reason ≠ MQRC_ALREADY_CONNECTED then [.MQDISC] else []), exitStatus 0)

/-! ### What is put -/

/-- The input behind the line of the password, which fits if there is one; and the MQCSP. -/
def Env.InputIs (env : Env) (csp : Option (Bytes × Bytes)) (input : Bytes) : Prop :=
  match env.userId with
  | some userId => ∃ line, newline ∉ line ∧ (0 : UInt8) ∉ line ∧ PasswordFits env.isatty line ∧
      env.stdin = line ++ newline :: input ∧ csp = some (userId, passwordOf env.isatty line)
  | none => env.stdin = input ∧ csp = none

/-- The calls around these messages, up to the first whose put fails. -/
def Env.calls (env : Env) (csp : Option (Bytes × Bytes)) (messages : List Bytes) :
    List MqiCall :=
  env.callConnx csp :: if env.connx.compCode = .FAILED then [] else
    env.callOpen :: (if env.opens.compCode = .FAILED then [] else
      (upToFailure env.puts 0 messages).map callPut ++ [env.callClose]) ++
    if env.connx.reason = MQRC_ALREADY_CONNECTED then [] else [.MQDISC]

theorem Env.InputIs.security {env : Env} {csp : Option (Bytes × Bytes)} {input : Bytes}
    (h : env.InputIs csp input) : env.security = some (csp, input) := by
  rw [Env.security]
  rw [InputIs] at h
  rcases huser : env.userId with - | userId
  · rw [huser] at h
    obtain ⟨rfl, rfl⟩ := h
    rfl
  · rw [huser] at h
    obtain ⟨line, hline, hnul, hfits, hstdin, rfl⟩ := h
    have hread := readPassword_of_passwordFits hline hnul hfits input
    simp only [hstdin, hread, Option.map_some]

/-- The run of a program that is given a queue name. -/
theorem main_of_two_le {env : Env} {csp : Option (Bytes × Bytes)} {input : Bytes}
    (hargs : 2 ≤ env.argv.length) (hinput : env.InputIs csp input) (hnul : (0 : UInt8) ∉ input) :
    main env = some (env.calls csp (messagesOf input),
      if env.connx.compCode = .FAILED then env.connx.reason % 256 else 0) := by
  rw [main, if_neg (by omega), hinput.security, Env.calls]
  by_cases hconnx : env.connx.compCode = .FAILED
  · simp [hconnx, exitStatus]
  · by_cases hopens : env.opens.compCode = .FAILED
    · simp [hconnx, hopens, exitStatus]
    · simp [hconnx, hopens, putLoop_eq hnul, exitStatus]

/-- **What `sput` puts**: the pieces of the lines behind the password, in order, each once. Without
a queue name it makes no call. -/
theorem main_eq {env : Env} {csp : Option (Bytes × Bytes)} {input : Bytes}
    (hinput : env.InputIs csp input) (hnul : (0 : UInt8) ∉ input) :
    main env = some (if env.argv.length < 2 then ([], 99)
      else (env.calls csp (messagesOf input),
        if env.connx.compCode = .FAILED then env.connx.reason % 256 else 0)) := by
  split_ifs with hargs hconnx
  · rw [main, if_pos hargs]
    rfl
  · rw [main_of_two_le (not_lt.1 hargs) hinput hnul, if_pos hconnx]
  · rw [main_of_two_le (not_lt.1 hargs) hinput hnul, if_neg hconnx]

/-! ### Whether all of it is put -/

theorem flatten_pieces (n : ℕ) (l : Bytes) (m : ℕ) :
    ((List.range m).map (pieceAt n l)).flatten = l.take (n * m) := by
  induction m with
  | zero => simp
  | succ m ih =>
    rw [List.range_succ, List.map_append, List.flatten_append, ih, List.map_singleton,
      List.flatten_singleton, pieceAt, Nat.mul_succ, List.take_add]

/-- The pieces of a line make it up. -/
theorem flatten_piecesOf (line : Bytes) : (piecesOf line).flatten = line := by
  rw [piecesOf, List.flatten_append, flatten_pieces, List.flatten_singleton, lastPiece,
    List.take_append_drop]

theorem lastPiece_eq_nil_iff {n : ℕ} {l : Bytes} :
    lastPiece n l = [] ↔ n ∣ l.length := by
  rw [lastPiece, List.drop_eq_nil_iff, Nat.dvd_iff_mod_eq_zero]
  have hsplit := Nat.div_add_mod l.length n
  have hle := Nat.mul_div_le l.length n
  omega

theorem pieceAt_ne_nil {n k : ℕ} {l : Bytes} (hn : 0 < n) (hk : k < l.length / n) :
    pieceAt n l k ≠ [] := by
  have hlt : n * k < l.length := by
    calc n * k < n * (l.length / n) := Nat.mul_lt_mul_of_pos_left hk hn
      _ ≤ l.length := Nat.mul_div_le l.length n
  rw [pieceAt, Ne, List.take_eq_nil_iff, List.drop_eq_nil_iff]
  omega

/-- Of the pieces of a line only the last one may be empty. -/
theorem upToEmpty_pieces (l : Bytes) (messages : List Bytes) :
    upToEmpty ((List.range (l.length / 65534)).map (pieceAt 65534 l) ++ messages) =
      (List.range (l.length / 65534)).map (pieceAt 65534 l) ++ upToEmpty messages := by
  rw [upToEmpty, List.takeWhile_append_of_pos, upToEmpty]
  intro piece hpiece
  obtain ⟨k, hk, rfl⟩ := List.mem_map.1 hpiece
  exact decide_eq_true (pieceAt_ne_nil (by decide) (List.mem_range.1 hk))

/-- **All of the lines are put** exactly if nothing comes behind a line whose length is a multiple
of 65534. -/
theorem flatten_upToEmpty_iff (lines : List Bytes) :
    (upToEmpty (lines.flatMap piecesOf)).flatten = lines.flatten ↔
      ∀ before l after, lines = before ++ l :: after → 65534 ∣ l.length → after.flatten = [] := by
  induction lines with
  | nil => simp [upToEmpty]
  | cons line lines ih =>
    have hsplit : (∀ before l after, line :: lines = before ++ l :: after → 65534 ∣ l.length →
        after.flatten = []) ↔ (65534 ∣ line.length → lines.flatten = []) ∧
          ∀ before l after, lines = before ++ l :: after → 65534 ∣ l.length →
            after.flatten = [] := by
      constructor
      · exact fun h ↦ ⟨h [] line lines rfl, fun before l after heq ↦
          h (line :: before) l after (by rw [heq]; rfl)⟩
      · rintro ⟨hfirst, hrest⟩ before l after heq
        rcases before with - | ⟨b, before⟩
        · obtain ⟨rfl, rfl⟩ := List.cons.inj heq
          exact hfirst
        · obtain ⟨rfl, rfl⟩ := List.cons.inj heq
          exact hrest before l after rfl
    have hline := flatten_piecesOf line
    rw [piecesOf, List.flatten_append, List.flatten_singleton] at hline
    rw [hsplit, List.flatMap_cons, piecesOf, List.append_assoc, upToEmpty_pieces,
      List.flatten_append, List.flatten_cons]
    -- an empty last piece ends the messages at this line, and else they go on behind it
    by_cases hdvd : 65534 ∣ line.length
    · have hempty := lastPiece_eq_nil_iff.2 hdvd
      rw [hempty, List.append_nil] at hline
      rw [hempty, hline]
      have hstop : upToEmpty ([[]] ++ lines.flatMap piecesOf) = [] := rfl
      rw [hstop, List.flatten_nil, List.append_nil, List.self_eq_append_right]
      refine ⟨fun hnil ↦ ⟨fun _ ↦ hnil, fun before l after heq _ ↦ ?_⟩, fun h ↦ h.1 hdvd⟩
      rw [heq, List.flatten_append, List.flatten_cons, List.append_eq_nil_iff,
        List.append_eq_nil_iff] at hnil
      exact hnil.2.2
    · have hne := mt lastPiece_eq_nil_iff.1 hdvd
      have hgo : upToEmpty ([lastPiece 65534 line] ++ lines.flatMap piecesOf) =
          lastPiece 65534 line :: upToEmpty (lines.flatMap piecesOf) :=
        List.takeWhile_cons_of_pos (decide_eq_true hne)
      rw [hgo, List.flatten_cons, ← List.append_assoc, hline, List.append_cancel_left_eq, ih]
      exact (and_iff_right fun h ↦ absurd h hdvd).symm

/-- The data of an MQPUT. -/
def MqiCall.data : MqiCall → Option Bytes
  | .MQPUT _ _ data => some data
  | .MQCONNX _ _ | .MQOPEN _ _ _ _ | .MQCLOSE _ | .MQDISC => none

theorem upToFailure_of_forall {puts : ℕ → Reply} (h : ∀ n, (puts n).compCode ≠ .FAILED) (n : ℕ)
    (messages : List Bytes) : upToFailure puts n messages = messages := by
  induction messages generalizing n with
  | nil => rfl
  | cons m messages ih => rw [upToFailure, if_neg (h n), ih]

theorem filterMap_data_calls {env : Env} (csp : Option (Bytes × Bytes)) (messages : List Bytes)
    (hconnx : env.connx.compCode ≠ .FAILED) (hopens : env.opens.compCode ≠ .FAILED) :
    (env.calls csp messages).filterMap MqiCall.data = upToFailure env.puts 0 messages := by
  have hputs : ∀ l : List Bytes, (l.map callPut).filterMap MqiCall.data = l := by
    intro l
    rw [List.filterMap_map]
    exact List.filterMap_some
  have hconn : (env.callConnx csp).data = none := rfl
  have hopen : env.callOpen.data = none := rfl
  have hclose : env.callClose.data = none := rfl
  have hdisc : MqiCall.MQDISC.data = none := rfl
  rw [Env.calls, if_neg hconnx, if_neg hopens]
  split_ifs
  · simp [hputs, hconn, hopen, hclose]
  · simp [hputs, hconn, hopen, hclose, hdisc]

/-- **Whether the program puts all of its input**, if no call fails. -/
theorem main_delivers_iff {env : Env} {csp : Option (Bytes × Bytes)} {input : Bytes}
    (hargs : 2 ≤ env.argv.length) (hinput : env.InputIs csp input) (hnul : (0 : UInt8) ∉ input)
    (hconnx : env.connx.compCode ≠ .FAILED) (hopens : env.opens.compCode ≠ .FAILED)
    (hputs : ∀ n, (env.puts n).compCode ≠ .FAILED) :
    ∃ calls status, main env = some (calls, status) ∧
      ((calls.filterMap MqiCall.data).flatten = (linesOf input).flatten ↔
        ∀ before l after, linesOf input = before ++ l :: after → 65534 ∣ l.length →
          after.flatten = []) := by
  refine ⟨_, _, main_of_two_le hargs hinput hnul, ?_⟩
  rw [filterMap_data_calls csp _ hconnx hopens, upToFailure_of_forall hputs, messagesOf]
  exact flatten_upToEmpty_iff (linesOf input)

/-! ### Two lines behind a password -/

/-- The reply to a call that is well. -/
def Reply.ok : Reply := ⟨.OK, MQRC_NONE⟩

def Env.sample : Env where
  argv := [lit "sput", lit "SYSTEM.DEFAULT.MODEL.QUEUE", lit "QM1", lit "-1", lit "-1", lit "_",
    lit "ORDERS.*"]
  userId := some (lit "app")
  isatty := false
  stdin := lit "secret\none\ntwo"
  buffer := []
  connx := .ok
  opens := .ok
  puts _ := .ok

theorem inputIs_sample :
    Env.sample.InputIs (some (lit "app", lit "secret")) (lit "one\ntwo") := by
  refine ⟨lit "secret", by decide, by decide, ?_, by decide, rfl⟩
  show (lit "secret").length + 1 < 256
  decide

/-- The sample, and the program without an argument. -/
theorem main_eq_sample :
    main Env.sample = some (Env.sample.calls (some (lit "app", lit "secret"))
      (messagesOf (lit "one\ntwo")), 0) ∧
      main { Env.sample with argv := [lit "sput"] } = some ([], 99) :=
  ⟨main_eq inputIs_sample (by decide),
    main_eq (show Env.InputIs { Env.sample with argv := [lit "sput"] } _ _ from inputIs_sample)
      (by decide)⟩

theorem main_delivers_iff_sample :
    ∃ calls status, main Env.sample = some (calls, status) ∧
      ((calls.filterMap MqiCall.data).flatten = (linesOf (lit "one\ntwo")).flatten ↔
        ∀ before l after, linesOf (lit "one\ntwo") = before ++ l :: after → 65534 ∣ l.length →
          after.flatten = []) :=
  main_delivers_iff (by decide) inputIs_sample (by decide) (by decide) (by decide)
    fun _ ↦ MQCC.noConfusion

example : (main Env.sample).map Prod.fst =
    some [.MQCONNX (lit "QM1") (some (lit "app", lit "secret")),
      .MQOPEN (lit "SYSTEM.DEFAULT.MODEL.QUEUE") [] (lit "ORDERS.*") 0x2010,
      .MQPUT (lit "MQSTR   ") 0x2004 (lit "one"), .MQPUT (lit "MQSTR   ") 0x2004 (lit "two"),
      .MQCLOSE 0, .MQDISC] := by
  decide +kernel

end MqExits.Oam.Sput
