import MqExits.Text.Bytes

/-!
# A buffered stream

What is printed to a stream of the C library is collected in a buffer, and the buffer is written out
when it is full and when the stream is closed. `put` is what printing a text writes and what it
leaves in the buffer.

Nothing is lost and nothing changes places (`append_put`), and how much is written depends on the
lengths alone (`length_put`): whole buffers of what has been printed so far.

A buffer is taken to be written out **as soon as** it is full, as the standard has it for a stream
that is fully buffered: characters are to be transmitted as a block when a buffer is filled. Some
libraries keep a buffer that is exactly full until the next byte comes. They differ from `put` where
a text ends just where a buffer does, and nowhere else.
-/

namespace CText

namespace Stdio

/-- What printing a text writes out, and the buffer that it leaves. -/
def put (capacity : ℕ) : Bytes → Bytes → Bytes × Bytes
  | buf, [] => ([], buf)
  | buf, c :: text =>
    if buf.length + 1 < capacity then put capacity (buf ++ [c]) text
    else (buf ++ [c] ++ (put capacity [] text).1, (put capacity [] text).2)

variable {capacity : ℕ}

/-- What is written and what is left are what was there and the text. -/
theorem append_put (buf text : Bytes) :
    (put capacity buf text).1 ++ (put capacity buf text).2 = buf ++ text := by
  induction text generalizing buf with
  | nil => rw [put, List.nil_append, List.append_nil]
  | cons c text ih =>
    rw [put]
    split_ifs
    · rw [ih, List.append_assoc, List.singleton_append]
    · rw [List.append_assoc, ih, List.nil_append, List.append_assoc, List.singleton_append]

/-- **How much is written**: the buffers that are filled, each as a whole. -/
theorem length_put {buf : Bytes} (hbuf : buf.length < capacity) (text : Bytes) :
    (put capacity buf text).1.length =
        capacity * ((buf.length + text.length) / capacity) ∧
      (put capacity buf text).2.length = (buf.length + text.length) % capacity := by
  induction text generalizing buf with
  | nil =>
    rw [put, List.length_nil, Nat.add_zero, Nat.div_eq_of_lt hbuf, Nat.mod_eq_of_lt hbuf]
    exact ⟨rfl, rfl⟩
  | cons c text ih =>
    rw [put, List.length_cons, ← Nat.add_assoc, Nat.add_right_comm]
    split_ifs with hroom
    · have hlen : (buf ++ [c]).length = buf.length + 1 := List.length_append
      rw [← hlen]
      exact ih (by rw [hlen]; exact hroom)
    · -- the buffer is full, and the rest starts an empty one
      have hfull : buf.length + 1 = capacity := by omega
      have hempty : ([] : Bytes).length < capacity := Nat.zero_lt_of_lt hbuf
      obtain ⟨hwritten, hleft⟩ := ih hempty
      rw [List.length_nil, Nat.zero_add] at hwritten hleft
      rw [List.length_append, List.length_append, List.length_singleton, hwritten, hleft, hfull,
        Nat.add_div_left _ (Nat.zero_lt_of_lt hbuf), Nat.add_mod_left, Nat.mul_succ]
      exact ⟨Nat.add_comm _ _, rfl⟩

/-- **Printing writes nothing** exactly when it does not fill the buffer: after `n` bytes, as many
buffers have been filled as before. -/
theorem put_fst_eq_nil_iff {buf : Bytes} {n : ℕ} (hcapacity : 0 < capacity)
    (hbuf : buf.length = n % capacity) (text : Bytes) :
    (put capacity buf text).1 = [] ↔ (n + text.length) / capacity = n / capacity := by
  have hlt : buf.length < capacity := by
    rw [hbuf]
    exact Nat.mod_lt _ hcapacity
  have hsum : (n + text.length) / capacity =
      n / capacity + (buf.length + text.length) / capacity := by
    calc (n + text.length) / capacity
        = (capacity * (n / capacity) + (n % capacity + text.length)) / capacity := by
          rw [← Nat.add_assoc, Nat.div_add_mod]
      _ = n / capacity + (buf.length + text.length) / capacity := by
          rw [Nat.mul_add_div hcapacity, hbuf]
  rw [← List.length_eq_zero_iff, (length_put hlt text).1, hsum, Nat.add_eq_left,
    Nat.mul_eq_zero]
  exact or_iff_right (Nat.ne_of_gt hcapacity)

/-- The buffer after one more text. -/
theorem length_put_snd {buf : Bytes} {n : ℕ} (hcapacity : 0 < capacity)
    (hbuf : buf.length = n % capacity) (text : Bytes) :
    (put capacity buf text).2.length = (n + text.length) % capacity := by
  have hlt : buf.length < capacity := by
    rw [hbuf]
    exact Nat.mod_lt _ hcapacity
  rw [(length_put hlt text).2, hbuf, Nat.mod_add_mod]

end Stdio

end CText
