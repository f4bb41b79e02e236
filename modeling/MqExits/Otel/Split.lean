import MqExits.Otel.Get
import MqExits.Text.Cut

/-!
# `split`

The loop of `split` moves two positions: where the last delimiter ended, and where the next one
starts. It leaves out empty tokens, and it stops when one of the positions is at the end of the
string. **What it returns are the non-empty pieces** of the string (`split_cuts`).
-/

namespace MqExits.Otel

open CText

/-- The tokens of a list of pieces. -/
def nonempty (pieces : List Bytes) : List Bytes :=
  pieces.filter fun piece ↦ !piece.isEmpty

theorem nonempty_cons (piece : Bytes) (pieces : List Bytes) :
    nonempty (piece :: pieces) =
      if piece.isEmpty then nonempty pieces else piece :: nonempty pieces := by
  rw [nonempty, List.filter_cons]
  rcases piece with - | ⟨c, piece⟩ <;> rfl

/-- The loop ends with the piece behind the last delimiter. -/
theorem splitLoop_last {str delim : Bytes} {prev : ℕ} (hprev : prev ≤ str.length)
    (hnone : findAt delim (str.drop prev) = none) (fuel : ℕ) :
    splitLoop str delim (fuel + 1) prev = some (nonempty [str.drop prev]) := by
  have htoken : substr str prev (str.length - prev) = str.drop prev := by
    rw [substr, List.take_of_length_le (List.length_drop ▸ le_rfl)]
  rw [splitLoop, find, if_pos hprev, hnone]
  simp only [Option.map_none, Option.getD_none, Nat.lt_irrefl, false_and, if_false, htoken]
  rw [nonempty_cons]
  split_ifs <;> rfl

theorem length_eq_of_drop {str u delim v : Bytes} {prev : ℕ} (hprev : prev ≤ str.length)
    (hstr : str.drop prev = u ++ (delim ++ v)) :
    str.length = prev + (u.length + (delim.length + v.length)) := by
  rw [← Nat.add_sub_of_le hprev, ← List.length_drop, hstr, List.length_append, List.length_append]

/-- An iteration takes the piece in front of a delimiter. Nothing is left of the string where the
loop ends behind one. -/
theorem splitLoop_cut {str delim u v : Bytes} {prev : ℕ} (hd : delim ≠ [])
    (hprev : prev ≤ str.length) (hstr : str.drop prev = u ++ (delim ++ v))
    (hfirst : findAt delim (str.drop prev) = some u.length) {fuel : ℕ} {tokens : List Bytes}
    (hrest : v ≠ [] → splitLoop str delim fuel (prev + u.length + delim.length) = some tokens)
    (hend : v = [] → tokens = []) :
    splitLoop str delim (fuel + 1) prev =
      some (if u.isEmpty then tokens else u :: tokens) := by
  have hlen := length_eq_of_drop hprev hstr
  have hdelim : 0 < delim.length := List.length_pos_of_ne_nil hd
  have htoken : substr str prev (prev + u.length - prev) = u := by
    rw [substr, hstr, Nat.add_sub_cancel_left, List.take_left]
  have hloop : (if prev + u.length < str.length ∧ prev + u.length + delim.length < str.length then
      splitLoop str delim fuel (prev + u.length + delim.length) else some []) = some tokens := by
    by_cases hv : v = []
    · have hnil : v.length = 0 := by rw [hv, List.length_nil]
      rw [if_neg (by omega), hend hv]
    · have hpos := List.length_pos_of_ne_nil hv
      rw [if_pos (by omega), hrest hv]
  rw [splitLoop, find, if_pos hprev, hfirst]
  simp only [Option.map_some, Option.getD_some, htoken, hloop]
  split_ifs <;> rfl

/-- **The loop** from a position on takes the pieces of the rest. The induction is on the fuel. -/
theorem splitLoop_cuts {str delim : Bytes} (hd : delim ≠ []) {fuel prev : ℕ}
    (hprev : prev ≤ str.length) (hfuel : str.length < prev + fuel) :
    ∃ pieces, Cuts delim (str.drop prev) pieces ∧
      splitLoop str delim fuel prev = some (nonempty pieces) := by
  induction fuel generalizing prev with
  | zero => omega
  | succ fuel ih =>
    rcases hfind : findAt delim (str.drop prev) with - | i
    · exact ⟨[str.drop prev], .last (findAt_eq_none_iff.1 hfind), splitLoop_last hprev hfind fuel⟩
    · obtain ⟨⟨v, hv⟩, hbefore⟩ := findAt_eq_some hfind
      have hi : ((str.drop prev).take i).length = i := by
        rw [List.length_take, Nat.min_eq_left (findAt_le hfind)]
      have hstr : str.drop prev = (str.drop prev).take i ++ (delim ++ v) := by
        rw [hv, List.take_append_drop]
      generalize (str.drop prev).take i = u at hi hstr
      subst hi
      have hnext : str.drop (prev + u.length + delim.length) = v := by
        rw [← List.drop_drop, ← List.drop_drop, hstr, List.drop_left, List.drop_left]
      have hlen := length_eq_of_drop hprev hstr
      have hdelim : 0 < delim.length := List.length_pos_of_ne_nil hd
      have hle : prev + u.length + delim.length ≤ str.length := by omega
      obtain ⟨pieces, hpieces, hloop⟩ := ih hle (by omega)
      rw [hnext] at hpieces
      refine ⟨u :: pieces, ?_, ?_⟩
      · rw [hstr] at hbefore ⊢
        exact .cut hbefore hpieces
      · rw [nonempty_cons]
        refine splitLoop_cut hd hprev hstr hfind (fun _ ↦ hloop) fun hnil ↦ ?_
        -- the only piece of nothing is empty
        have hlast : Cuts delim v [v] := .last fun hin ↦ hd (by rwa [hnil, List.infix_nil] at hin)
        rw [hpieces.unique hlast, hnil]
        rfl

/-- The pieces decide what is returned. -/
theorem split_eq_of_cuts {str delim : Bytes} (hd : delim ≠ []) {pieces : List Bytes}
    (h : Cuts delim str pieces) : split str delim = some (nonempty pieces) := by
  have hfuel : str.length < 0 + (str.length + 1) := by omega
  obtain ⟨pieces', h', hsplit⟩ := splitLoop_cuts hd (Nat.zero_le _) hfuel
  rw [h.unique h']
  exact hsplit

/-- **What `split` returns**: it cuts the string at each delimiter, in the one way there is to do
this, and leaves out the empty pieces. -/
theorem split_cuts (str : Bytes) {delim : Bytes} (hd : delim ≠ []) :
    ∃ pieces, Cuts delim str pieces ∧ (∀ pieces', Cuts delim str pieces' → pieces' = pieces) ∧
      split str delim = some (nonempty pieces) := by
  have hfuel : str.length < 0 + (str.length + 1) := by omega
  obtain ⟨pieces, hpieces, -⟩ := splitLoop_cuts hd (Nat.zero_le _) hfuel
  exact ⟨pieces, hpieces, fun pieces' h ↦ h.unique hpieces, split_eq_of_cuts hd hpieces⟩

/-- Of a delimiter of two bytes that comes first, twice in a row, and last. -/
theorem split_cuts_dashes :
    ∃ pieces, Cuts (lit "--") (lit "--a----b-c--") pieces ∧
      (∀ pieces', Cuts (lit "--") (lit "--a----b-c--") pieces' → pieces' = pieces) ∧
      split (lit "--a----b-c--") (lit "--") = some (nonempty pieces) :=
  split_cuts (lit "--a----b-c--") (by decide)

example : split (lit "--a----b-c--") (lit "--") = some [lit "a", lit "b-c"] := by decide

end MqExits.Otel
