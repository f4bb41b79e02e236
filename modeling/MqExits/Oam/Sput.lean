import MqExits.Oam.OamlogCalls
import MqExits.Text.Lines
import MqExits.Text.Stoi

/-!
# The program that puts messages: `sput`

`sput` tries out `oamcrt`: it opens a queue, which may be a model queue, and puts the lines of its
input to it. If there is a user id in the environment it asks for a password first, and reads it
from the same input.

The password goes into a buffer of 257 bytes. On a terminal it is read key by key (`editLoop`), with
a key that takes the last one back; else it is read as a line. In both cases **the line of the
password is taken as a whole exactly if it fits** (`readPassword_eq_iff`). Of a longer one, a
terminal leaves no NUL in the buffer, and what is not a terminal leaves the rest of the line in the
input, where the messages come from (`LeavesRest`).
-/

namespace MqExits.Oam.Sput

open CText

/-! ### The password -/

def MQ_CSP_PASSWORD_LENGTH : ℕ := 256

def BACKSPACE : UInt8 := 8
def DELETE : UInt8 := 127
def RETURN : UInt8 := 10

/-- A store into the buffer; `none` outside it. -/
def store (buffer : Bytes) (i : ℕ) (c : UInt8) : Option Bytes :=
  if i < buffer.length then some (buffer.set i c) else none

/-- The loop of `get_password`, from `buffer[i]`: the buffer, and what is left of the input. -/
def editLoop (size : ℕ) : Bytes → ℕ → Bytes → Option (Bytes × Bytes)
  | buffer, i, [] => (store buffer i 0).map fun buffer ↦ (buffer, [])
  | buffer, i, c :: stdin =>
    if c ≠ RETURN then
      if c = BACKSPACE ∨ c = DELETE then
        if 0 < i then
          (store buffer (i - 1) 0).bind fun buffer ↦
            if i - 1 ≤ size then editLoop size buffer (i - 1) stdin else some (buffer, stdin)
        else if i ≤ size then editLoop size buffer i stdin
        else some (buffer, stdin)
      else
        (store buffer i c).bind fun buffer ↦
          if i + 1 ≤ size then editLoop size buffer (i + 1) stdin else some (buffer, stdin)
    else (store buffer i 0).map fun buffer ↦ (buffer, stdin)

/-- `get_password`. -/
def get_password (isatty : Bool) (buffer : Bytes) (size : ℕ) (stdin : Bytes) :
    Option (Bytes × Bytes) :=
  if isatty then editLoop size buffer 0 stdin
  else some ((fgets buffer size stdin).getD (buffer, stdin))

/-- The password of the MQCSP, and what is left of the input. A newline at its end is removed. -/
def readPassword (isatty : Bool) (stdin : Bytes) : Option (Bytes × Bytes) := do
  let password := List.replicate (MQ_CSP_PASSWORD_LENGTH + 1) 0
  let (password, stdin) ← get_password isatty password (password.length - 1) stdin
  let length ← Oamlog.strlen password 0
  if 0 < length ∧ password.getD (length - 1) 0 = 10 then
    return (cstr (password.set (length - 1) 0), stdin)
  else return (cstr password, stdin)

/-! ### What a terminal makes of the keys -/

/-- One more key. -/
def editKey (text : Bytes) (c : UInt8) : Bytes :=
  if c = BACKSPACE ∨ c = DELETE then text.dropLast else text ++ [c]

/-- The text after these keys, from a text that is there already. -/
def editFrom (text keys : Bytes) : Bytes :=
  keys.foldl editKey text

/-- While the keys are typed the text never is longer than `size`. -/
def EditFits (size : ℕ) (text keys : Bytes) : Prop :=
  ∀ front, front <+: keys → (editFrom text front).length ≤ size

/-- The buffer with a text in it. -/
def holding (n : ℕ) (text : Bytes) : Bytes :=
  text ++ List.replicate (n - text.length) 0

theorem editFits_cons {size : ℕ} {text keys : Bytes} {c : UInt8} :
    EditFits size text (c :: keys) ↔ text.length ≤ size ∧ EditFits size (editKey text c) keys := by
  constructor
  · refine fun h ↦ ⟨h [] (List.nil_prefix), fun front hfront ↦ ?_⟩
    exact h (c :: front) (List.cons_prefix_cons.2 ⟨rfl, hfront⟩)
  · rintro ⟨htext, hkeys⟩ front hfront
    rcases List.prefix_cons_iff.1 hfront with rfl | ⟨front', rfl, hfront'⟩
    · exact htext
    · exact hkeys front' hfront'

theorem length_holding {n : ℕ} {text : Bytes} (h : text.length ≤ n) :
    (holding n text).length = n := by
  rw [holding, List.length_append, List.length_replicate]
  omega

/-- A key that is stored behind the text. -/
theorem store_holding {n : ℕ} {text : Bytes} (h : text.length < n) (c : UInt8) :
    store (holding n text) text.length c = some (holding n (text ++ [c])) := by
  have hroom : n - text.length = n - (text.length + 1) + 1 := by omega
  rw [store, length_holding h.le, if_pos h, holding, holding, hroom, List.replicate_succ,
    List.set_append_right _ _ le_rfl, Nat.sub_self, List.set_cons_zero, List.length_append,
    List.length_singleton, List.append_assoc]
  rfl

/-- The key that is taken back. -/
theorem store_holding_dropLast {n : ℕ} {text : Bytes} (h : text.length ≤ n) (hne : text ≠ []) :
    store (holding n text) (text.length - 1) 0 = some (holding n text.dropLast) := by
  have hlen : text.dropLast.length = text.length - 1 := List.length_dropLast
  have hpos : 0 < text.length := List.length_pos_iff.2 hne
  have hroom : n - (text.length - 1) = n - text.length + 1 := by omega
  have hset : text.set (text.length - 1) 0 = text.dropLast ++ [0] := by
    conv_lhs => rw [← List.dropLast_append_getLast hne]
    rw [List.length_append, List.length_singleton, Nat.add_sub_cancel,
      List.set_append_right _ _ le_rfl, Nat.sub_self, List.set_cons_zero]
  rw [store, length_holding h, if_pos (by omega), holding, holding, hlen, hroom,
    List.replicate_succ, List.set_append_left _ _ (by omega), hset, List.append_assoc]
  rfl

/-- **One key**: the buffer holds the text after it, and the loop goes on while that leaves room. -/
theorem editLoop_key {size : ℕ} {text : Bytes} {c : UInt8} (hc : c ≠ RETURN)
    (hlen : text.length ≤ size) (stdin : Bytes) :
    editLoop size (holding (size + 1) text) text.length (c :: stdin) =
      if (editKey text c).length ≤ size then
        editLoop size (holding (size + 1) (editKey text c)) (editKey text c).length stdin
      else some (holding (size + 1) (editKey text c), stdin) := by
  rw [editLoop, if_pos hc, editKey]
  by_cases hdelete : c = BACKSPACE ∨ c = DELETE
  · rw [if_pos hdelete, if_pos hdelete, List.length_dropLast]
    by_cases hpos : 0 < text.length
    · rw [if_pos hpos, store_holding_dropLast (by omega) (List.ne_nil_of_length_pos hpos)]
      rfl
    · obtain rfl : text = [] := List.length_eq_zero_iff.1 (by omega)
      rw [if_neg hpos]
      rfl
  · rw [if_neg hdelete, if_neg hdelete, store_holding (by omega), List.length_append,
      List.length_singleton]
    rfl

/-- **A text that fits** is in the buffer when the line ends. -/
theorem editLoop_of_editFits {size : ℕ} {keys : Bytes} (hkeys : RETURN ∉ keys) {text : Bytes}
    (h : EditFits size text keys) (rest : Bytes) :
    editLoop size (holding (size + 1) text) text.length (keys ++ RETURN :: rest) =
      some (holding (size + 1) (editFrom text keys), rest) := by
  induction keys generalizing text with
  | nil =>
    have hlen : text.length < size + 1 := Nat.lt_succ_of_le (h [] List.nil_prefix)
    have hroom : size + 1 - text.length = size + 1 - (text.length + 1) + 1 := by omega
    have hnul : holding (size + 1) (text ++ [0]) = holding (size + 1) text := by
      rw [holding, holding, hroom, List.replicate_succ, List.length_append, List.length_singleton,
        List.append_assoc]
      rfl
    rw [List.nil_append, editLoop, if_neg (by simp), store_holding hlen, hnul]
    rfl
  | cons c keys ih =>
    obtain ⟨hc, hkeys⟩ := not_or.1 (mt List.mem_cons.2 hkeys)
    obtain ⟨hlen, hfits⟩ := editFits_cons.1 h
    have hroom : (editKey text c).length ≤ size := hfits [] List.nil_prefix
    rw [List.cons_append, editLoop_key (Ne.symm hc) hlen, if_pos hroom, ih hkeys hfits]
    rfl

theorem not_mem_editKey {b c : UInt8} {text : Bytes} (htext : b ∉ text) (hc : b ≠ c) :
    b ∉ editKey text c := by
  rw [editKey]
  split_ifs
  · exact fun h ↦ htext (List.dropLast_subset text h)
  · rw [List.mem_append, List.mem_singleton]
    exact not_or.2 ⟨htext, hc⟩

/-- **A text that does not fit** leaves no room for the NUL. -/
theorem editLoop_of_not_editFits {size : ℕ} {keys : Bytes} (hkeys : RETURN ∉ keys)
    (hnul : (0 : UInt8) ∉ keys) {text : Bytes} (htext : (0 : UInt8) ∉ text)
    (hlen : text.length ≤ size) (h : ¬ EditFits size text keys) (rest : Bytes) :
    ∃ buffer rest', editLoop size (holding (size + 1) text) text.length (keys ++ RETURN :: rest) =
      some (buffer, rest') ∧ (0 : UInt8) ∉ buffer := by
  induction keys generalizing text with
  | nil =>
    refine absurd (fun front hfront ↦ ?_) h
    rw [List.prefix_nil.1 hfront]
    exact hlen
  | cons c keys ih =>
    obtain ⟨hc, hkeys⟩ := not_or.1 (mt List.mem_cons.2 hkeys)
    obtain ⟨hc0, hnul⟩ := not_or.1 (mt List.mem_cons.2 hnul)
    have hkey : (0 : UInt8) ∉ editKey text c := not_mem_editKey htext hc0
    have hlong : (editKey text c).length ≤ size + 1 := by
      rw [editKey]
      split_ifs
      · rw [List.length_dropLast]
        omega
      · rw [List.length_append, List.length_singleton]
        omega
    rw [List.cons_append, editLoop_key (Ne.symm hc) hlen]
    split_ifs with hroom
    · exact ih hkeys hnul hkey hroom fun hfits ↦ h (editFits_cons.2 ⟨hlen, hfits⟩)
    · -- the last byte of the buffer is one of the text
      have hfull : size + 1 - (editKey text c).length = 0 := by omega
      refine ⟨_, _, rfl, ?_⟩
      rwa [holding, hfull, List.replicate_zero, List.append_nil]

/-! ### The line of the password -/

/-- What is taken for the password. -/
def passwordOf (isatty : Bool) (line : Bytes) : Bytes :=
  if isatty then editFrom [] line else line

/-- The buffer is long enough for it, with its newline where that is stored too. -/
def PasswordFits (isatty : Bool) (line : Bytes) : Prop :=
  if isatty then EditFits MQ_CSP_PASSWORD_LENGTH [] line
  else line.length + 1 < MQ_CSP_PASSWORD_LENGTH

theorem not_mem_editFrom {b : UInt8} {text keys : Bytes} (htext : b ∉ text) (hkeys : b ∉ keys) :
    b ∉ editFrom text keys := by
  induction keys generalizing text with
  | nil => exact htext
  | cons c keys ih =>
    obtain ⟨hc, hkeys⟩ := not_or.1 (mt List.mem_cons.2 hkeys)
    exact ih (not_mem_editKey htext hc) hkeys

/-- A text without the newline at its end. -/
def withoutNewline (text : Bytes) : Bytes :=
  if text.getLast? = some newline then text.dropLast else text

theorem withoutNewline_of_not_mem {text : Bytes} (h : newline ∉ text) :
    withoutNewline text = text :=
  if_neg fun hlast ↦ h (List.mem_of_getLast? hlast)

theorem withoutNewline_append (text : Bytes) : withoutNewline (text ++ [newline]) = text := by
  rw [withoutNewline, if_pos List.getLast?_concat, List.dropLast_concat]

/-- The test for a newline at the end of the string in a buffer. -/
theorem endsInNewline_iff (text tail : Bytes) :
    0 < text.length ∧ (text ++ 0 :: tail).getD (text.length - 1) 0 = newline ↔
      text.getLast? = some newline := by
  rcases List.eq_nil_or_concat text with rfl | ⟨front, b, rfl⟩
  · simp
  · simp

/-- The string is shorter by one when a NUL is put there. -/
theorem cstr_set_pred {text : Bytes} (hnul : (0 : UInt8) ∉ text) (hne : text ≠ [])
    (tail : Bytes) : cstr ((text ++ 0 :: tail).set (text.length - 1) 0) = text.dropLast := by
  obtain ⟨front, b, rfl⟩ := (List.eq_nil_or_concat text).resolve_left hne
  rw [List.concat_eq_append] at hnul ⊢
  have hfront : (0 : UInt8) ∉ front := fun h ↦ hnul (List.mem_append_left _ h)
  have hset : (front ++ [b] ++ 0 :: tail).set ((front ++ [b]).length - 1) 0 =
      front ++ 0 :: 0 :: tail := by
    simp
  rw [hset, cstr_append_nul, cstr_eq_self hfront, List.dropLast_concat]

theorem strlen_append_nul {text : Bytes} (hnul : (0 : UInt8) ∉ text) (tail : Bytes) :
    Oamlog.strlen (text ++ 0 :: tail) 0 = some text.length := by
  rw [Oamlog.strlen, List.drop_zero, if_pos (by simp), cstr_append_nul, cstr_eq_self hnul]

/-- The password, from the string that `get_password` leaves in the buffer. -/
theorem readPassword_of_get {isatty : Bool} {stdin text tail rest : Bytes}
    (hget : get_password isatty (List.replicate 257 0) 256 stdin = some (text ++ 0 :: tail, rest))
    (hnul : (0 : UInt8) ∉ text) :
    readPassword isatty stdin = some (withoutNewline text, rest) := by
  have hsize : (List.replicate (MQ_CSP_PASSWORD_LENGTH + 1) (0 : UInt8)).length - 1 = 256 := by
    rw [List.length_replicate]
    rfl
  have hcstr : cstr (text ++ 0 :: tail) = text := by
    rw [cstr_append_nul, cstr_eq_self hnul]
  rw [readPassword, hsize]
  change (get_password isatty (List.replicate 257 0) 256 stdin).bind _ = _
  rw [hget, Option.bind_some]
  simp only [strlen_append_nul hnul, Option.bind_eq_bind, Option.bind_some, withoutNewline]
  change (if 0 < text.length ∧ (text ++ 0 :: tail).getD (text.length - 1) 0 = newline then
    some (cstr ((text ++ 0 :: tail).set (text.length - 1) 0), rest)
      else some (cstr (text ++ 0 :: tail), rest)) = _
  rw [hcstr, if_congr (endsInNewline_iff text tail) rfl rfl]
  split_ifs with hlast
  · rw [cstr_set_pred hnul (fun hnil ↦ by rw [hnil] at hlast; cases hlast)]
  · rfl

theorem holding_eq {n : ℕ} {text : Bytes} (h : text.length < n) :
    holding n text = text ++ 0 :: List.replicate (n - (text.length + 1)) 0 := by
  have hroom : n - text.length = n - (text.length + 1) + 1 := by omega
  rw [holding, hroom, List.replicate_succ]

/-- A line that is too long for the terminal: no NUL ends the string in the buffer. -/
theorem get_password_of_not_editFits {line : Bytes} (hline : newline ∉ line)
    (hnul : (0 : UInt8) ∉ line) (hlong : ¬ EditFits MQ_CSP_PASSWORD_LENGTH [] line)
    (rest : Bytes) :
    ∃ buffer rest', get_password true (List.replicate (MQ_CSP_PASSWORD_LENGTH + 1) 0)
      MQ_CSP_PASSWORD_LENGTH (line ++ newline :: rest) = some (buffer, rest') ∧
        (0 : UInt8) ∉ buffer :=
  editLoop_of_not_editFits hline hnul List.not_mem_nil (Nat.zero_le _) hlong rest

/-- **The password line on a terminal.** -/
theorem readPassword_terminal {line : Bytes} (hline : newline ∉ line) (hnul : (0 : UInt8) ∉ line)
    (rest : Bytes) (r : Bytes × Bytes) :
    readPassword true (line ++ newline :: rest) = some r ↔
      EditFits MQ_CSP_PASSWORD_LENGTH [] line ∧ r = (editFrom [] line, rest) := by
  by_cases hfits : EditFits MQ_CSP_PASSWORD_LENGTH [] line
  · have hlen : (editFrom [] line).length < 257 :=
      Nat.lt_succ_of_le (hfits line (List.prefix_refl line))
    have hget := editLoop_of_editFits hline hfits rest
    change get_password true (List.replicate 257 0) 256 (line ++ newline :: rest) =
      some (holding 257 (editFrom [] line), rest) at hget
    rw [holding_eq hlen] at hget
    rw [readPassword_of_get hget (not_mem_editFrom List.not_mem_nil hnul),
      withoutNewline_of_not_mem (not_mem_editFrom List.not_mem_nil hline), Option.some_inj]
    exact ⟨fun h ↦ ⟨hfits, h.symm⟩, fun h ↦ h.2.symm⟩
  · obtain ⟨buffer, rest', hget, hbuffer⟩ := get_password_of_not_editFits hline hnul hfits rest
    -- `strlen` runs out of the buffer
    have hnone : readPassword true (line ++ newline :: rest) = none := by
      have hsize : (List.replicate (MQ_CSP_PASSWORD_LENGTH + 1) (0 : UInt8)).length - 1 =
          MQ_CSP_PASSWORD_LENGTH := by
        rw [List.length_replicate]
        rfl
      rw [readPassword, hsize, hget]
      simp [Oamlog.strlen, hbuffer]
    rw [hnone]
    exact iff_of_false (by simp) fun h ↦ hfits h.1

/-- **The password line that is not typed**: what is too long for the buffer stays in the
input. -/
theorem readPassword_pipe {line : Bytes} (hline : newline ∉ line) (hnul : (0 : UInt8) ∉ line)
    (rest : Bytes) :
    readPassword false (line ++ newline :: rest) = some (line.take 255,
      if line.length < 255 then rest else line.drop 255 ++ newline :: rest) := by
  have hne : line ++ newline :: rest ≠ [] := by simp
  have hget : ∀ r, readLine 255 (line ++ newline :: rest) = r →
      get_password false (List.replicate 257 0) 256 (line ++ newline :: rest) =
        some (r.1 ++ 0 :: (List.replicate 257 0).drop (r.1.length + 1), r.2) := by
    rintro r rfl
    rw [get_password, fgets, if_neg hne]
    rfl
  split_ifs with hfits
  · have hnul' : (0 : UInt8) ∉ line ++ [newline] := by
      rw [List.mem_append, List.mem_singleton]
      exact not_or.2 ⟨hnul, by decide⟩
    rw [readPassword_of_get (hget _ (readLine_line hline hfits rest)) hnul',
      withoutNewline_append, List.take_of_length_le hfits.le]
  · have htake : newline ∉ line.take 255 := fun h ↦ hline (List.mem_of_mem_take h)
    rw [readPassword_of_get (hget _ (readLine_long hline (not_lt.1 hfits) (newline :: rest)))
      fun h ↦ hnul (List.mem_of_mem_take h), withoutNewline_of_not_mem htake]

/-- What a line that is too long leaves: on a terminal a buffer without a NUL, where `strlen` looks
for one; else the end of the line in the input, and its first 255 bytes as the password. -/
def LeavesRest (isatty : Bool) (line rest : Bytes) : Prop :=
  if isatty then
    ∃ buffer rest', get_password true (List.replicate (MQ_CSP_PASSWORD_LENGTH + 1) 0)
      MQ_CSP_PASSWORD_LENGTH (line ++ newline :: rest) = some (buffer, rest') ∧
        (0 : UInt8) ∉ buffer
  else readPassword false (line ++ newline :: rest) =
    some (line.take 255, line.drop 255 ++ newline :: rest)

theorem readPassword_of_passwordFits {isatty : Bool} {line : Bytes} (hline : newline ∉ line)
    (hnul : (0 : UInt8) ∉ line) (hfits : PasswordFits isatty line) (rest : Bytes) :
    readPassword isatty (line ++ newline :: rest) = some (passwordOf isatty line, rest) := by
  rcases isatty with - | -
  · have hlen : line.length + 1 < 256 := hfits
    rw [readPassword_pipe hline hnul, if_pos (by omega), List.take_of_length_le (by omega)]
    rfl
  · exact (readPassword_terminal hline hnul rest _).2 ⟨hfits, rfl⟩

theorem leavesRest_of_not_passwordFits {isatty : Bool} {line : Bytes} (hline : newline ∉ line)
    (hnul : (0 : UInt8) ∉ line) (hlong : ¬ PasswordFits isatty line) (rest : Bytes) :
    LeavesRest isatty line rest := by
  rcases isatty with - | -
  · have hlen : ¬ line.length + 1 < 256 := hlong
    show readPassword false _ = _
    rw [readPassword_pipe hline hnul, if_neg (by omega)]
  · exact get_password_of_not_editFits hline hnul hlong rest

theorem passwordFits_of_readPassword {isatty : Bool} {line rest : Bytes} (hline : newline ∉ line)
    (hnul : (0 : UInt8) ∉ line)
    (h : readPassword isatty (line ++ newline :: rest) = some (passwordOf isatty line, rest)) :
    PasswordFits isatty line := by
  rcases isatty with - | -
  · rw [readPassword_pipe hline hnul] at h
    show line.length + 1 < 256
    have hrest := congrArg List.length (Prod.mk.inj (Option.some.inj h)).2
    split_ifs at hrest with hfits
    · omega
    · rw [List.length_append, List.length_cons] at hrest
      omega
  · exact ((readPassword_terminal hline hnul rest _).1 h).1

/-- **When the line of the password is taken as a whole**: exactly if it fits; and what a longer one
leaves. -/
theorem readPassword_eq_iff (isatty : Bool) {line : Bytes} (hline : newline ∉ line)
    (hnul : (0 : UInt8) ∉ line) (rest : Bytes) :
    (readPassword isatty (line ++ newline :: rest) = some (passwordOf isatty line, rest) ↔
      PasswordFits isatty line) ∧
      (¬ PasswordFits isatty line → LeavesRest isatty line rest) :=
  ⟨⟨passwordFits_of_readPassword hline hnul,
    fun hfits ↦ readPassword_of_passwordFits hline hnul hfits rest⟩,
    fun hlong ↦ leavesRest_of_not_passwordFits hline hnul hlong rest⟩

/-- A key that is taken back, and a line of 300 bytes that is not typed. -/
theorem readPassword_eq_iff_typed :
    (readPassword true (lit "secrex\x7ft" ++ newline :: lit "one\n") =
      some (passwordOf true (lit "secrex\x7ft"), lit "one\n") ↔
        PasswordFits true (lit "secrex\x7ft")) ∧
      LeavesRest false (List.replicate 300 97) (lit "one\n") := by
  have hline : newline ∉ List.replicate 300 (97 : UInt8) := fun h ↦
    absurd (List.eq_of_mem_replicate h) (by decide)
  have hnul : (0 : UInt8) ∉ List.replicate 300 (97 : UInt8) := fun h ↦
    absurd (List.eq_of_mem_replicate h) (by decide)
  have hlong : ¬ PasswordFits false (List.replicate 300 97) := by
    show ¬ (List.replicate 300 _).length + 1 < 256
    rw [List.length_replicate]
    decide
  exact ⟨(readPassword_eq_iff true (by decide) (by decide) (lit "one\n")).1,
    (readPassword_eq_iff false hline hnul (lit "one\n")).2 hlong⟩

example : readPassword true (lit "secrex\x7ft\none\n") = some (lit "secret", lit "one\n") := by
  decide +kernel

end MqExits.Oam.Sput
