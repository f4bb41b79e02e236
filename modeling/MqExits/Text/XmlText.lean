import MqExits.Text.Bytes

/-!
# Text content in XML

How a text is written as the content of an XML element: the two brackets and the ampersand become
entities, and everything else stays. Cutting an element's content out of a document gives the text
as it is written there, which is the text itself exactly when it has none of the three
(`escape_eq_self_iff`).
-/

namespace XmlText

open CText

/-- One character as XML writes it. -/
def escapeChar (c : UInt8) : Bytes :=
  if c = 38 then lit "&amp;"
  else if c = 60 then lit "&lt;"
  else if c = 62 then lit "&gt;"
  else [c]

/-- A text as XML writes it. -/
def escape (v : Bytes) : Bytes :=
  v.flatMap escapeChar

/-- The tag that opens an element. -/
def openTag (name : Bytes) : Bytes :=
  lit "<" ++ name ++ lit ">"

/-- The tag that closes an element. -/
def closeTag (name : Bytes) : Bytes :=
  lit "</" ++ name ++ lit ">"

/-- An element with a text. -/
def element (name v : Bytes) : Bytes :=
  openTag name ++ escape v ++ closeTag name

/-- The text has none of the characters that are written as entities. -/
def Plain (v : Bytes) : Prop :=
  ∀ c ∈ v, c ≠ 38 ∧ c ≠ 60 ∧ c ≠ 62

instance (v : Bytes) : Decidable (Plain v) :=
  inferInstanceAs (Decidable (∀ c ∈ v, c ≠ 38 ∧ c ≠ 60 ∧ c ≠ 62))

theorem escape_cons (c : UInt8) (v : Bytes) : escape (c :: v) = escapeChar c ++ escape v := rfl

theorem plain_cons {c : UInt8} {v : Bytes} :
    Plain (c :: v) ↔ (c ≠ 38 ∧ c ≠ 60 ∧ c ≠ 62) ∧ Plain v :=
  List.forall_mem_cons

theorem escapeChar_of_ne {c : UInt8} (h : c ≠ 38 ∧ c ≠ 60 ∧ c ≠ 62) : escapeChar c = [c] := by
  rw [escapeChar, if_neg h.1, if_neg h.2.1, if_neg h.2.2]

/-- A character that is written as an entity is written longer. -/
theorem length_escapeChar (c : UInt8) :
    1 ≤ (escapeChar c).length ∧
      ((escapeChar c).length = 1 ↔ c ≠ 38 ∧ c ≠ 60 ∧ c ≠ 62) := by
  rw [escapeChar]
  split_ifs with h₁ h₂ h₃
  · exact ⟨by decide, iff_of_false (by decide) fun h ↦ h.1 h₁⟩
  · exact ⟨by decide, iff_of_false (by decide) fun h ↦ h.2.1 h₂⟩
  · exact ⟨by decide, iff_of_false (by decide) fun h ↦ h.2.2 h₃⟩
  · exact ⟨le_rfl, iff_of_true rfl ⟨h₁, h₂, h₃⟩⟩

/-- A text is written no shorter than it is, and as long only when it is plain. -/
theorem length_escape (v : Bytes) :
    v.length ≤ (escape v).length ∧ ((escape v).length = v.length → Plain v) := by
  induction v with
  | nil => exact ⟨le_rfl, fun _ ↦ List.forall_mem_nil _⟩
  | cons c v ih =>
    obtain ⟨hle, hplain⟩ := ih
    obtain ⟨hone, hchar⟩ := length_escapeChar c
    rw [escape_cons, List.length_append, List.length_cons, plain_cons]
    exact ⟨by omega, fun h ↦ ⟨hchar.1 (by omega), hplain (by omega)⟩⟩

/-- **A text is written as it is** exactly when nothing in it is written as an entity. -/
theorem escape_eq_self_iff {v : Bytes} : escape v = v ↔ Plain v := by
  constructor
  · intro h
    exact (length_escape v).2 (congrArg List.length h)
  · intro h
    induction v with
    | nil => rfl
    | cons c v ih =>
      obtain ⟨hc, hv⟩ := plain_cons.1 h
      rw [escape_cons, escapeChar_of_ne hc, ih hv, List.singleton_append]

/-- No tag begins within a text. -/
theorem not_mem_escape (v : Bytes) : (60 : UInt8) ∉ escape v := by
  intro h
  obtain ⟨c, -, hc⟩ := List.mem_flatMap.1 h
  rw [escapeChar] at hc
  split_ifs at hc with h₁ h₂ h₃
  · exact absurd hc (by decide)
  · exact absurd hc (by decide)
  · exact absurd hc (by decide)
  · exact h₂ (List.mem_singleton.1 hc).symm

/-! ### Documents -/

/-- A tag, by what stands between its brackets, and the text behind it. -/
structure Tag where
  name : Bytes
  text : Bytes
  left_name : (60 : UInt8) ∉ name
  right_name : (62 : UInt8) ∉ name
  left_text : (60 : UInt8) ∉ text

/-- The document with these tags. -/
def markup (tags : List Tag) : Bytes :=
  tags.flatMap fun t ↦ openTag t.name ++ t.text

theorem markup_cons (t : Tag) (tags : List Tag) :
    markup (t :: tags) = openTag t.name ++ (t.text ++ markup tags) := by
  rw [markup, List.flatMap_cons, List.append_assoc]
  rfl

theorem markup_append (before after : List Tag) :
    markup (before ++ after) = markup before ++ markup after :=
  List.flatMap_append

theorem openTag_eq (name : Bytes) : openTag name = 60 :: (name ++ [62]) := rfl

/-- Names without a closing bracket are told apart by the tags they begin. -/
theorem openTag_prefix_iff {name name' rest : Bytes} (h : (62 : UInt8) ∉ name)
    (h' : (62 : UInt8) ∉ name') : openTag name <+: openTag name' ++ rest ↔ name = name' := by
  constructor
  · rintro ⟨after, hafter⟩
    have hsplit : name ++ 62 :: after = name' ++ 62 :: rest := by
      rw [openTag_eq, openTag_eq] at hafter
      simpa using hafter
    have htake := congrArg (List.takeWhile (· != 62)) hsplit
    rw [List.takeWhile_append_of_pos (forall_bne_of_not_mem h),
      List.takeWhile_append_of_pos (forall_bne_of_not_mem h')] at htake
    simpa using htake
  · rintro rfl
    exact List.prefix_append _ _

/-- An occurrence of a word lies behind a text that does not have its first byte. -/
theorem infix_append_iff_of_not_mem {c : UInt8} {word text rest : Bytes} (h : c ∉ text) :
    c :: word <:+: text ++ rest ↔ c :: word <:+: rest := by
  induction text with
  | nil => rfl
  | cons b text ih =>
    obtain ⟨hb, htext⟩ := not_or.1 (mt List.mem_cons.2 h)
    rw [List.cons_append, List.infix_cons_iff, ih htext, or_iff_right]
    intro hprefix
    exact hb (List.cons_prefix_cons.1 hprefix).1

/-- **An opening tag occurs** where one of that very name stands, and nowhere else. -/
theorem openTag_infix_markup_iff {name : Bytes} (hright : (62 : UInt8) ∉ name) {tags : List Tag} :
    openTag name <:+: markup tags ↔ ∃ t ∈ tags, t.name = name := by
  induction tags with
  | nil => simp [markup, openTag, lit]
  | cons t tags ih =>
    have hbehind : (60 : UInt8) ∉ t.name ++ [62] ++ t.text := by
      simp [t.left_name, t.left_text]
    have hinside : openTag name <:+: markup (t :: tags) ↔
        openTag name <+: openTag t.name ++ (t.text ++ markup tags) ∨
          openTag name <:+: markup tags := by
      rw [markup_cons, openTag_eq, openTag_eq, List.cons_append, List.infix_cons_iff,
        ← List.append_assoc, infix_append_iff_of_not_mem hbehind]
    rw [hinside, ih, openTag_prefix_iff hright t.right_name, List.exists_mem_cons_iff,
      eq_comm (a := name)]

end XmlText
