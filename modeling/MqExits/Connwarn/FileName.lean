import MqExits.Text.Bytes
import MqExits.Text.SuffixCode

/-!
# The file name of a channel

`chlname_to_filename` copies a channel name, and writes each of five characters that a file name
should not have as two hexadecimal digits and a dash. As the dash is one of the five, it ends those
words and no other, and what is written can be read back. But the loop stops after
`MQ_CHANNEL_NAME_LENGTH` characters **of the output**, so the rest of a name with many such
characters makes no difference (`fileName_ne_iff`).

## The code apart from the cut

Character by character the names are written in a code of which no word ends another one
(`escaped_suffixFree`), so it can be decoded from the end, and the name as a whole is determined
(`encode_injective`). All that can make two names one is the cut.

`copied` is what the loop gets to of a name. Two file names are equal exactly if that is the same of
both channel names. If the names differ, it is the same only where they begin with the same
characters up to where the loop ends: `ChannelName.SharesStart`.
-/

namespace MqExits.Connwarn

open CText

def MQ_CHANNEL_NAME_LENGTH : ℕ := 20
def FILENAME_MAX : ℕ := 4096

/-! ### The loop -/

/-- The words of the five characters that are replaced. -/
def replacement (c : UInt8) : Option Bytes :=
  if c = 46 then some (lit "2e-")
  else if c = 47 then some (lit "2f-")
  else if c = 95 then some (lit "5f-")
  else if c = 37 then some (lit "25-")
  else if c = 45 then some (lit "2d-")
  else none

/-- What is written for a character. -/
def escaped (c : UInt8) : Bytes :=
  (replacement c).getD [c]

/-- The loop of `chlname_to_filename`, from `pIn` on and with `currentSize` bytes written: the bytes
it writes. `none` where it reads past the memory that there is. -/
def chlnameToFilenameLoop (maxsize : ℕ) : (pIn : Bytes) → (currentSize : ℕ) → Option Bytes
  | [], _ => none
  | c :: pIn, currentSize =>
    if c ≠ 32 ∧ c ≠ 0 ∧ currentSize < MQ_CHANNEL_NAME_LENGTH then
      -- a replacement is tested against the bound before it is written, and then again
      if (replacement c).isSome ∧ currentSize + 3 ≥ maxsize then some []
      else if currentSize + (escaped c).length ≥ maxsize then some (escaped c)
      else
        (chlnameToFilenameLoop maxsize pIn (currentSize + (escaped c).length)).map (escaped c ++ ·)
    else some []

/-- `chlname_to_filename`, of the memory that begins with a channel name. The buffer is all NULs
before it, so what is written is the file name. -/
def chlnameToFilename (chlname : Bytes) (maxsize : ℕ) : Option Bytes :=
  chlnameToFilenameLoop maxsize chlname 0

/-! ### The code -/

/-- The characters that are replaced. -/
def special : Bytes := lit "./_%-"

theorem special_eq : special = [46, 47, 95, 37, 45] := by decide

theorem replacement_eq_none_iff {c : UInt8} : replacement c = none ↔ c ∉ special := by
  rw [replacement, special_eq]
  split_ifs <;> simp_all

theorem forall_mem_special {p : UInt8 → Prop} :
    (∀ c ∈ special, p c) ↔ p 46 ∧ p 47 ∧ p 95 ∧ p 37 ∧ p 45 := by
  simp [special_eq]

theorem replacement_injOn :
    ∀ c ∈ special, ∀ d ∈ special, replacement c = replacement d → c = d := by
  rw [forall_mem_special]
  refine ⟨?_, ?_, ?_, ?_, ?_⟩ <;> exact forall_mem_special.2 (by decide)

/-- A dash ends the words of three bytes and no other. -/
theorem escaped_cases (c : UInt8) :
    c ∉ special ∧ escaped c = [c] ∧ (escaped c).getLast? ≠ some 45 ∨
      c ∈ special ∧ (escaped c).length = 3 ∧ (escaped c).getLast? = some 45 := by
  by_cases hc : c ∈ special
  · have hall : ∀ c ∈ special, (escaped c).length = 3 ∧ (escaped c).getLast? = some 45 :=
      forall_mem_special.2 (by decide)
    exact Or.inr ⟨hc, hall c hc⟩
  · have heq : escaped c = [c] := by rw [escaped, replacement_eq_none_iff.2 hc]; rfl
    refine Or.inl ⟨hc, heq, ?_⟩
    rw [heq]
    rintro ⟨⟩
    exact hc (by decide)

theorem escaped_ne_nil (c : UInt8) : escaped c ≠ [] := by
  intro h
  rcases escaped_cases c with ⟨-, heq, -⟩ | ⟨-, hlen, -⟩
  · simp [h] at heq
  · simp [h] at hlen

/-- No word ends with another one: they end alike only if they are of one length. -/
theorem escaped_suffixFree : SuffixCode.SuffixFree (Set.range escaped) := by
  rintro - ⟨c, rfl⟩ - ⟨d, rfl⟩ hsuffix
  have hlast : (escaped c).getLast? = (escaped d).getLast? := by
    obtain ⟨x, hx⟩ := hsuffix
    rw [← hx, List.getLast?_append_of_ne_nil _ (escaped_ne_nil c)]
  refine hsuffix.eq_of_length ?_
  rcases escaped_cases c with ⟨-, hc, hc'⟩ | ⟨-, hc, hc'⟩
  · rcases escaped_cases d with ⟨-, hd, -⟩ | ⟨-, -, hd'⟩
    · rw [hc, hd]
      rfl
    · exact absurd (hlast.trans hd') hc'
  · rcases escaped_cases d with ⟨-, -, hd'⟩ | ⟨-, hd, -⟩
    · exact absurd (hlast.symm.trans hc') hd'
    · rw [hc, hd]

theorem escaped_injective : Function.Injective escaped := by
  intro c d h
  rcases escaped_cases c with ⟨-, hc, hc'⟩ | ⟨hc, -, hc'⟩
  · rcases escaped_cases d with ⟨-, hd, -⟩ | ⟨-, -, hd'⟩
    · rw [hc, hd] at h
      exact List.singleton_inj.1 h
    · exact absurd (h ▸ hd') hc'
  · rcases escaped_cases d with ⟨-, -, hd'⟩ | ⟨hd, -, -⟩
    · exact absurd (h ▸ hc') hd'
    · refine replacement_injOn c hc d hd ?_
      have hsome : ∀ c ∈ special, replacement c = some (escaped c) :=
        forall_mem_special.2 (by decide)
      rw [hsome c hc, hsome d hd, h]

/-- **What is written for a text can be read back.** -/
theorem encode_injective : Function.Injective fun name : Bytes ↦ name.flatMap escaped :=
  SuffixCode.flatMap_injective escaped_injective escaped_suffixFree escaped_ne_nil

/-! ### What the loop gets to -/

/-- The part of a name that is written, where `currentSize` bytes have been. -/
def copied : (name : Bytes) → (currentSize : ℕ) → Bytes
  | [], _ => []
  | c :: name, currentSize =>
    if currentSize < MQ_CHANNEL_NAME_LENGTH then
      c :: copied name (currentSize + (escaped c).length)
    else []

theorem copied_prefix (name : Bytes) (currentSize : ℕ) : copied name currentSize <+: name := by
  induction name generalizing currentSize with
  | nil => exact List.nil_prefix
  | cons c name ih =>
    rw [copied]
    split_ifs
    · exact (List.prefix_cons_inj c).2 (ih _)
    · exact List.nil_prefix

/-- It is the whole name, unless it fills the bound. -/
theorem copied_eq_self {name : Bytes} {currentSize : ℕ}
    (h : currentSize + ((copied name currentSize).flatMap escaped).length <
      MQ_CHANNEL_NAME_LENGTH) : copied name currentSize = name := by
  induction name generalizing currentSize with
  | nil => rfl
  | cons c name ih =>
    rw [copied] at h ⊢
    split_ifs at h ⊢ with hsize
    · rw [List.flatMap_cons, List.length_append, ← Nat.add_assoc] at h
      rw [ih h]
    · exact absurd ((Nat.le_add_right _ _).trans_lt h) hsize

/-- What fills the bound is all that is looked at. -/
theorem copied_append {p : Bytes} {currentSize : ℕ}
    (h : MQ_CHANNEL_NAME_LENGTH ≤ currentSize + (p.flatMap escaped).length) (rest : Bytes) :
    copied (p ++ rest) currentSize = copied p currentSize := by
  induction p generalizing currentSize with
  | nil =>
    rw [List.nil_append]
    have hfull : ¬ currentSize < MQ_CHANNEL_NAME_LENGTH := not_lt.2 h
    cases rest with
    | nil => rfl
    | cons c rest =>
      show copied (c :: rest) currentSize = []
      rw [copied, if_neg hfull]
  | cons c p ih =>
    rw [List.flatMap_cons, List.length_append, ← Nat.add_assoc] at h
    rw [List.cons_append, copied, copied, ih h]

/-! ### Channel names -/

/-- The name of a channel. The characters of MQ's names are letters, digits, and some of those that
are replaced; a blank or a NUL ends a name. -/
structure ChannelName where
  text : Bytes
  length_le : text.length ≤ MQ_CHANNEL_NAME_LENGTH
  ne_end : ∀ c ∈ text, c ≠ 32 ∧ c ≠ 0

/-- The memory from `pCD->ChannelName` on: the name, padded with blanks or with NULs, and the fields
after it. -/
def ChannelName.HeldBy (name : ChannelName) (mem : Bytes) : Prop :=
  ∃ pad after, (pad = 32 ∨ pad = 0) ∧ after ≠ [] ∧
    mem = padTo MQ_CHANNEL_NAME_LENGTH pad name.text ++ after

/-- The name of its file. -/
def ChannelName.fileName (name : ChannelName) : Bytes :=
  (copied name.text 0).flatMap escaped

theorem escaped_length (c : UInt8) : 1 ≤ (escaped c).length ∧ (escaped c).length ≤ 3 := by
  rcases escaped_cases c with ⟨-, heq, -⟩ | ⟨-, hlen, -⟩
  · simp [heq]
  · simp [hlen]

/-- No file name is longer than what the last character below the bound makes of it. -/
theorem length_chlnameToFilenameLoop {maxsize : ℕ} {pIn file : Bytes} {currentSize : ℕ}
    (h : chlnameToFilenameLoop maxsize pIn currentSize = some file)
    (hsize : currentSize ≤ MQ_CHANNEL_NAME_LENGTH + 2) :
    currentSize + file.length ≤ MQ_CHANNEL_NAME_LENGTH + 2 := by
  induction pIn generalizing currentSize file with
  | nil => cases h
  | cons c pIn ih =>
    have hword := (escaped_length c).2
    rw [chlnameToFilenameLoop] at h
    split_ifs at h with hloop hfirst hsecond
    · obtain rfl := Option.some.inj h
      exact hsize
    · obtain rfl := Option.some.inj h
      omega
    · obtain ⟨out, hout, rfl⟩ := Option.map_eq_some_iff.1 h
      have hle := ih hout (by omega)
      rw [List.length_append]
      omega
    · obtain rfl := Option.some.inj h
      exact hsize

theorem length_chlnameToFilename {chlname file : Bytes} {maxsize : ℕ}
    (h : chlnameToFilename chlname maxsize = some file) :
    file.length ≤ MQ_CHANNEL_NAME_LENGTH + 2 := by
  have hle := length_chlnameToFilenameLoop h (Nat.zero_le _)
  rwa [Nat.zero_add] at hle

/-- The loop stops where the name does, or at the bound; the size of the buffer is never reached.
The induction is on the name. -/
theorem chlnameToFilenameLoop_eq {maxsize : ℕ} (hmax : MQ_CHANNEL_NAME_LENGTH + 2 < maxsize)
    {name rest : Bytes} {currentSize : ℕ} (hname : ∀ c ∈ name, c ≠ 32 ∧ c ≠ 0)
    (hrest : ∃ c r, rest = c :: r ∧
      (c = 32 ∨ c = 0 ∨ MQ_CHANNEL_NAME_LENGTH ≤ currentSize + name.length)) :
    chlnameToFilenameLoop maxsize (name ++ rest) currentSize =
      some ((copied name currentSize).flatMap escaped) := by
  induction name generalizing currentSize with
  | nil =>
    obtain ⟨c, r, rfl, hend⟩ := hrest
    have hstop : ¬ (c ≠ 32 ∧ c ≠ 0 ∧ currentSize < MQ_CHANNEL_NAME_LENGTH) := by
      rintro ⟨hblank, hnul, hsize⟩
      rcases hend with rfl | rfl | hfull
      · exact hblank rfl
      · exact hnul rfl
      · exact absurd hsize (not_lt.2 hfull)
    rw [List.nil_append, chlnameToFilenameLoop, if_neg hstop]
    rfl
  | cons c name ih =>
    obtain ⟨hc, hname⟩ := List.forall_mem_cons.1 hname
    rw [List.cons_append, chlnameToFilenameLoop, copied]
    by_cases hsize : currentSize < MQ_CHANNEL_NAME_LENGTH
    · have hword := escaped_length c
      -- below the bound on the name a word of three bytes still fits
      have hfirst : ¬ ((replacement c).isSome ∧ currentSize + 3 ≥ maxsize) := by omega
      have hsecond : ¬ currentSize + (escaped c).length ≥ maxsize := by omega
      have hrest' : ∃ d r, rest = d :: r ∧ (d = 32 ∨ d = 0 ∨
          MQ_CHANNEL_NAME_LENGTH ≤ currentSize + (escaped c).length + name.length) := by
        obtain ⟨d, r, rfl, hend⟩ := hrest
        rw [List.length_cons] at hend
        refine ⟨d, r, rfl, hend.imp_right fun h ↦ h.imp_right fun h ↦ ?_⟩
        omega
      rw [if_pos ⟨hc.1, hc.2, hsize⟩, if_neg hfirst, if_neg hsecond, ih hname hrest', if_pos hsize]
      rfl
    · rw [if_neg fun h ↦ hsize h.2.2, if_neg hsize]
      rfl

/-- **What `chlname_to_filename` writes** for a channel name. -/
theorem chlnameToFilename_eq {name : ChannelName} {mem : Bytes} (h : name.HeldBy mem) :
    chlnameToFilename mem FILENAME_MAX = some name.fileName := by
  obtain ⟨pad, after, hpad, hafter, rfl⟩ := h
  rw [padTo, List.append_assoc]
  refine chlnameToFilenameLoop_eq (by decide) name.ne_end ?_
  rcases hfill : MQ_CHANNEL_NAME_LENGTH - name.text.length with - | n
  · obtain ⟨c, r, rfl⟩ := List.exists_cons_of_ne_nil hafter
    exact ⟨c, r, rfl, Or.inr (Or.inr (by omega))⟩
  · exact ⟨pad, List.replicate n pad ++ after, rfl, hpad.imp_right Or.inl⟩

/-- The names begin alike as far as the loop gets. -/
def ChannelName.SharesStart (name name' : ChannelName) : Prop :=
  ∃ p, p <+: name.text ∧ p <+: name'.text ∧ MQ_CHANNEL_NAME_LENGTH ≤ (p.flatMap escaped).length

/-- Two names have one file exactly if the loop does not get to where they differ. -/
theorem ChannelName.fileName_eq_iff {name name' : ChannelName} (hne : name.text ≠ name'.text) :
    name.fileName = name'.fileName ↔ name.SharesStart name' := by
  rw [ChannelName.fileName, ChannelName.fileName, encode_injective.eq_iff]
  constructor
  · intro h
    refine ⟨copied name.text 0, copied_prefix _ _, h ▸ copied_prefix _ _, not_lt.1 fun hlt ↦ hne ?_⟩
    have hself : copied name.text 0 = name.text := copied_eq_self (by rwa [Nat.zero_add])
    have hself' : copied name'.text 0 = name'.text :=
      copied_eq_self (by rw [Nat.zero_add, ← h]; exact hlt)
    rw [← hself, h, hself']
  · rintro ⟨p, ⟨r, hr⟩, ⟨r', hr'⟩, hfull⟩
    rw [← Nat.zero_add (p.flatMap escaped).length] at hfull
    rw [← hr, ← hr', copied_append hfull, copied_append hfull]

/-- **When two channels have different files**: exactly if they differ before the bound. -/
theorem fileName_ne_iff {name name' : ChannelName} {mem mem' : Bytes} (h : name.HeldBy mem)
    (h' : name'.HeldBy mem') (hne : name.text ≠ name'.text) :
    (∃ file file', chlnameToFilename mem FILENAME_MAX = some file ∧
      chlnameToFilename mem' FILENAME_MAX = some file' ∧ file ≠ file') ↔
      ¬ name.SharesStart name' := by
  rw [← ChannelName.fileName_eq_iff hne, chlnameToFilename_eq h, chlnameToFilename_eq h']
  simp

/-- The name of `n` dots, and its field. -/
def ChannelName.dots (n : ℕ) (h : n ≤ MQ_CHANNEL_NAME_LENGTH) : ChannelName where
  text := List.replicate n 46
  length_le := by rwa [List.length_replicate]
  ne_end c hc := by rw [List.eq_of_mem_replicate hc]; decide

/-- The fields of the names of seven dots and of eight, each with what follows it. -/
def sevenDots : Bytes := padTo 20 32 (List.replicate 7 46) ++ [1, 0, 0, 0]
def eightDots : Bytes := padTo 20 32 (List.replicate 8 46) ++ [1, 0, 0, 0]

theorem heldBy_sevenDots : (ChannelName.dots 7 (by decide)).HeldBy sevenDots :=
  ⟨32, [1, 0, 0, 0], Or.inl rfl, by decide, rfl⟩

theorem heldBy_eightDots : (ChannelName.dots 8 (by decide)).HeldBy eightDots :=
  ⟨32, [1, 0, 0, 0], Or.inl rfl, by decide, rfl⟩

theorem fileName_ne_iff_dots :
    (∃ file file', chlnameToFilename sevenDots FILENAME_MAX = some file ∧
      chlnameToFilename eightDots FILENAME_MAX = some file' ∧ file ≠ file') ↔
      ¬ (ChannelName.dots 7 (by decide)).SharesStart (.dots 8 (by decide)) :=
  fileName_ne_iff heldBy_sevenDots heldBy_eightDots (by decide)

/-- They have one file. -/
theorem fileName_dots :
    (ChannelName.dots 7 (by decide)).HeldBy sevenDots ∧
      (ChannelName.dots 8 (by decide)).HeldBy eightDots ∧
      (ChannelName.dots 7 (by decide)).text ≠ (ChannelName.dots 8 (by decide)).text ∧
      chlnameToFilename sevenDots FILENAME_MAX = some (lit "2e-2e-2e-2e-2e-2e-2e-") ∧
      chlnameToFilename eightDots FILENAME_MAX = some (lit "2e-2e-2e-2e-2e-2e-2e-") :=
  ⟨heldBy_sevenDots, heldBy_eightDots, by decide, by decide, by decide⟩

end MqExits.Connwarn
