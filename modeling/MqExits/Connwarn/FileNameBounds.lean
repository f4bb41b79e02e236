import MqExits.Connwarn.FileName

/-!
# The bounds of `chlname_to_filename`

The loop stops before it has written more than `maxsize` bytes. It does not count the characters
that it reads. It stops at a blank or a NUL, or when it has written `MQ_CHANNEL_NAME_LENGTH` bytes;
but this it tests after it has read the next character. So where a name fills its field, **the byte
behind the field is read**, unless `maxsize` or a replaced character ends the loop before
(`staysInside_iff`).

## Reading and writing apart

The memory that the loop may read is the field and nothing else, so the loop has no result where it
goes on behind it. That it writes no more than `maxsize` bytes holds of any memory
(`length_le_maxsize`), and needs no condition: each round compares before it writes.

What is left is when the loop ends inside the field. In a field without a blank and a NUL nothing
but the output can end it, so the condition is about the length that the characters before the last
one are written with (`length_flatMap_escaped`).
-/

namespace MqExits.Connwarn

open CText

/-- The field is all that is read, and no more than `maxsize` bytes are written, so that one of the
`maxsize + 1` NULs in the buffer is left. -/
def StaysInside (field : Bytes) (maxsize : ℕ) : Prop :=
  ∃ file, chlnameToFilename field maxsize = some file ∧ file.length ≤ maxsize

/-- A replacement has three bytes. -/
theorem length_escaped (c : UInt8) : (escaped c).length = if c ∈ special then 3 else 1 := by
  rcases escaped_cases c with ⟨hc, heq, -⟩ | ⟨hc, hlen, -⟩
  · rw [if_neg hc, heq]
    rfl
  · rw [if_pos hc, hlen]

/-- The test before a character is written is the one behind it, made earlier. -/
theorem tooBig_iff {c : UInt8} {maxsize currentSize : ℕ} :
    (replacement c).isSome ∧ currentSize + 3 ≥ maxsize ↔
      c ∈ special ∧ currentSize + (escaped c).length ≥ maxsize := by
  rw [Option.isSome_iff_ne_none, ne_eq, replacement_eq_none_iff, not_not, length_escaped]
  refine and_congr_right fun hc ↦ ?_
  rw [if_pos hc]

/-- No more is written than fits, whatever the name is. The induction is on the memory. -/
theorem length_le_maxsize {maxsize : ℕ} {pIn file : Bytes} {currentSize : ℕ}
    (h : chlnameToFilenameLoop maxsize pIn currentSize = some file)
    (hsize : currentSize < maxsize) : currentSize + file.length ≤ maxsize := by
  induction pIn generalizing currentSize file with
  | nil => cases h
  | cons c pIn ih =>
    rw [chlnameToFilenameLoop] at h
    split_ifs at h with hloop hfirst hsecond
    · obtain rfl := Option.some.inj h
      exact hsize.le
    · obtain rfl := Option.some.inj h
      rw [tooBig_iff, not_and, not_le] at hfirst
      by_cases hc : c ∈ special
      · exact (hfirst hc).le
      · rw [length_escaped, if_neg hc]
        exact hsize
    · obtain ⟨out, hout, rfl⟩ := Option.map_eq_some_iff.1 h
      have hle := ih hout (not_le.1 hsecond)
      rw [List.length_append]
      omega
    · obtain rfl := Option.some.inj h
      exact hsize.le

/-- One iteration goes on to the next character. -/
theorem loop_cons_eq_none_iff {maxsize : ℕ} {c : UInt8} {pIn : Bytes} {currentSize : ℕ} :
    chlnameToFilenameLoop maxsize (c :: pIn) currentSize = none ↔
      (c ≠ 32 ∧ c ≠ 0) ∧ currentSize < MQ_CHANNEL_NAME_LENGTH ∧
        currentSize + (escaped c).length < maxsize ∧
        chlnameToFilenameLoop maxsize pIn (currentSize + (escaped c).length) = none := by
  rw [chlnameToFilenameLoop]
  split_ifs with hloop hstop hlarge
  · exact iff_of_false not_false fun h ↦ absurd h.2.2.1 (not_lt.2 (tooBig_iff.1 hstop).2)
  · exact iff_of_false not_false fun h ↦ absurd h.2.2.1 (not_lt.2 hlarge)
  · rw [Option.map_eq_none_iff]
    exact ⟨fun h ↦ ⟨⟨hloop.1, hloop.2.1⟩, hloop.2.2, not_le.1 hlarge, h⟩, fun h ↦ h.2.2.2⟩
  · exact iff_of_false not_false fun h ↦ hloop ⟨h.1.1, h.1.2, h.2.1⟩

/-- **When the loop goes past the memory**: no character ends it, and neither bound is reached. The
induction is on the characters before the last. -/
theorem chlnameToFilenameLoop_eq_none_iff {maxsize : ℕ} {last : UInt8} {pIn : Bytes}
    {currentSize : ℕ} :
    chlnameToFilenameLoop maxsize (pIn ++ [last]) currentSize = none ↔
      (∀ c ∈ pIn ++ [last], c ≠ 32 ∧ c ≠ 0) ∧
        currentSize + (pIn.flatMap escaped).length < MQ_CHANNEL_NAME_LENGTH ∧
        currentSize + (pIn.flatMap escaped).length + (escaped last).length < maxsize := by
  induction pIn generalizing currentSize with
  | nil =>
    rw [List.nil_append, loop_cons_eq_none_iff, chlnameToFilenameLoop]
    simp
  | cons c pIn ih =>
    rw [List.cons_append, loop_cons_eq_none_iff, ih, List.forall_mem_cons, List.flatMap_cons,
      List.length_append, ← Nat.add_assoc]
    refine ⟨fun h ↦ ⟨⟨h.1, h.2.2.2.1⟩, h.2.2.2.2⟩, fun h ↦ ⟨h.1.1, ?_, ?_, h.1.2, h.2⟩⟩
    · omega
    · omega

/-- Each replaced character takes two bytes more than it had. -/
theorem length_flatMap_escaped (name : Bytes) :
    (name.flatMap escaped).length = name.length + 2 * name.countP (· ∈ special) := by
  induction name with
  | nil => rfl
  | cons c name ih =>
    rw [List.flatMap_cons, List.length_append, ih, List.length_cons, length_escaped,
      List.countP_cons]
    by_cases hc : c ∈ special
    · rw [if_pos hc, if_pos (decide_eq_true hc)]
      omega
    · rw [if_neg hc, if_neg (by simpa using hc)]
      omega

/-- Something ends the loop within the field: a blank, a NUL, a character before the last that is
replaced, or `maxsize`. -/
def EndsInside (field : Bytes) (maxsize : ℕ) : Prop :=
  (∃ c ∈ field, c = 32 ∨ c = 0) ∨ (∃ c ∈ field.dropLast, c ∈ special) ∨
    maxsize ≤ if field.getLastD 0 ∈ special then MQ_CHANNEL_NAME_LENGTH + 2
      else MQ_CHANNEL_NAME_LENGTH

/-- **When a field of 20 bytes is all that is read**, and what is written fits. -/
theorem staysInside_iff {field : Bytes} (hfield : field.length = MQ_CHANNEL_NAME_LENGTH)
    {maxsize : ℕ} (hmaxsize : 1 ≤ maxsize) :
    StaysInside field maxsize ↔ EndsInside field maxsize := by
  have hreturns : StaysInside field maxsize ↔ ¬ chlnameToFilename field maxsize = none := by
    constructor
    · rintro ⟨file, hfile, -⟩ hnone
      rw [hnone] at hfile
      cases hfile
    · intro h
      obtain ⟨file, hfile⟩ := Option.ne_none_iff_exists'.1 h
      refine ⟨file, hfile, ?_⟩
      have hle := length_le_maxsize hfile hmaxsize
      rwa [Nat.zero_add] at hle
  obtain ⟨pIn, last, rfl⟩ : ∃ pIn last, field = pIn ++ [last] := by
    rcases List.eq_nil_or_concat field with rfl | ⟨pIn, last, rfl⟩
    · cases hfield
    · exact ⟨pIn, last, List.concat_eq_append⟩
  have hlen : pIn.length = 19 := by
    rw [List.length_append, List.length_singleton] at hfield
    exact Nat.succ.inj hfield
  have hlast : 19 + (escaped last).length =
      if last ∈ special then MQ_CHANNEL_NAME_LENGTH + 2 else MQ_CHANNEL_NAME_LENGTH := by
    rw [length_escaped]
    split_ifs <;> rfl
  have hspecial : (∃ c ∈ pIn, c ∈ special) ↔ 0 < pIn.countP (· ∈ special) := by
    rw [List.countP_pos_iff]
    simp
  have hblank : (∃ c ∈ pIn ++ [last], c = 32 ∨ c = 0) ↔
      ¬ ∀ c ∈ pIn ++ [last], c ≠ 32 ∧ c ≠ 0 := by
    push Not
    simp only [← or_iff_not_imp_left]
  rw [hreturns, chlnameToFilename, chlnameToFilenameLoop_eq_none_iff, length_flatMap_escaped, hlen,
    EndsInside, List.dropLast_concat, List.getLastD_concat, ← hlast, hspecial, hblank]
  rw [not_and, or_iff_not_imp_left, not_not]
  refine imp_congr_right fun _ ↦ ?_
  -- 19 characters keep below the bound only if none of them is replaced
  rw [show MQ_CHANNEL_NAME_LENGTH = 20 from rfl]
  omega

/-- A name of 20 letters, with a blank in it or not. -/
def fullField (last : UInt8) : Bytes :=
  List.replicate 19 65 ++ [last]

theorem staysInside_iff_blank :
    StaysInside (fullField 32) FILENAME_MAX ↔ EndsInside (fullField 32) FILENAME_MAX :=
  staysInside_iff (by decide) (by decide)

/-- The byte behind a name that fills the field is read. -/
theorem not_staysInside_fullField :
    (fullField 65).length = MQ_CHANNEL_NAME_LENGTH ∧ ¬ StaysInside (fullField 65) FILENAME_MAX := by
  refine ⟨by decide, ?_⟩
  rintro ⟨file, hfile, -⟩
  have hnone : chlnameToFilename (fullField 65) FILENAME_MAX = none := by decide
  rw [hnone] at hfile
  cases hfile

end MqExits.Connwarn
