import MqExits.Text.Bytes

/-!
# Objects in JSON

How a text of several JSON objects is read: bytes to tokens (`lex`), and tokens to objects. The
objects are flat, with strings, integers and lists of strings for values. A writer may put blanks
between any two tokens, escape what it likes, and end each object with a newline or not.

* A newline that is not within a token may as well be another blank (`lex_of_blanked`), and within
  one there is none.
* What ends with a newline is read by itself (`reads_append`).
* **The tokens determine the objects** (`reads_unique`): each value ends where it does, whatever
  comes after it.

## What the reader takes for JSON

It works on bytes. A byte of a string that is not ASCII is kept as it is, and nothing asks whether
the bytes are UTF-8: most readers in C do not unless they are told to, and a program that writes the
bytes of a field has no text in mind. Of the escapes with `\u` it reads those of ASCII characters. A
number is a run of digits and minus signs, compared by its text; it ends at any other byte, or with
the text.

So there are two ways for a text to have some tokens: `Lexes`, where the last of them may be a
number that nothing has ended yet, and `LexesLine`, where no token is open. Only texts of the second
kind can be put one behind the other.

## Why tokens are enough

A reader need not build anything to be unambiguous. `SelfDelimiting` says of a way to write
something in tokens that one can tell where it ends, whatever follows; it passes from items to the
list that encloses them (`SelfDelimiting.enclosed`), and so from strings to values, to members, to
objects. The round trip is about `lex` alone (`lexesLine_write`), for any layout.
-/

namespace JsonText

open CText

/-! ### Tokens -/

/-- A token: a bracket, a brace, a colon or a comma; or a string, or a number by its text. -/
inductive Token
  | mark (b : UInt8)
  | str (s : Bytes)
  | num (s : Bytes)
  deriving DecidableEq

/-- Blanks between tokens. -/
def isBlank (b : UInt8) : Bool :=
  b = 32 ∨ b = 9 ∨ b = 10 ∨ b = 13

/-- The braces, the brackets, the colon and the comma. -/
def isMark (b : UInt8) : Bool :=
  b ∈ lit "\x7b\x7d[]:,"

/-- The bytes of an integer. -/
def isNumberByte (b : UInt8) : Bool :=
  b = 45 ∨ 48 ≤ b ∧ b ≤ 57

/-- What a backslash and this byte stand for. -/
def simpleEscape (b : UInt8) : Option UInt8 :=
  if b = 34 ∨ b = 92 ∨ b = 47 then some b
  else if b = 98 then some 8
  else if b = 102 then some 12
  else if b = 110 then some 10
  else if b = 114 then some 13
  else if b = 116 then some 9
  else none

/-- How far the reader is in a token. -/
inductive LexState
  | between
  | number (text : Bytes)
  | string (text : Bytes)
  /-- Behind a backslash. -/
  | escape (text : Bytes)
  /-- Behind `\u`, with the digits so far. -/
  | unicode (text : Bytes) (digits : List ℕ)

/-- One byte where a token may begin. -/
def lexBetween (b : UInt8) : Option (List Token × LexState) :=
  if isBlank b then some ([], .between)
  else if isMark b then some ([.mark b], .between)
  else if b = 34 then some ([], .string [])
  else if isNumberByte b then some ([], .number [b])
  else none

/-- One byte. A string has no control characters in it, and of the escapes by number it has those of
one byte. -/
def lexByte : LexState → UInt8 → Option (List Token × LexState)
  | .between, b => lexBetween b
  | .number text, b =>
    if isNumberByte b then some ([], .number (text ++ [b]))
    else (lexBetween b).map fun r ↦ (.num text :: r.1, r.2)
  | .string text, b =>
    if b = 34 then some ([.str text], .between)
    else if b = 92 then some ([], .escape text)
    else if b < 32 then none
    else some ([], .string (text ++ [b]))
  | .escape text, b =>
    if b = 117 then some ([], .unicode text [])
    else (simpleEscape b).map fun c ↦ ([], .string (text ++ [c]))
  | .unicode text digits, b =>
    (hexDigit? b).bind fun v ↦
      if digits.length < 3 then some ([], .unicode text (digits ++ [v]))
      else
        let code := (digits ++ [v]).foldl (fun n d ↦ 16 * n + d) 0
        if code < 128 then some ([], .string (text ++ [UInt8.ofNat code])) else none

/-- The tokens of a text, and how far the reader is then. -/
def lex : LexState → Bytes → Option (List Token × LexState)
  | st, [] => some ([], st)
  | st, b :: s =>
    (lexByte st b).bind fun r ↦ (lex r.2 s).map fun r' ↦ (r.1 ++ r'.1, r'.2)

/-- The text is all of these tokens. -/
def Lexes (s : Bytes) (tokens : List Token) : Prop :=
  lex .between s = some (tokens, .between) ∨
    ∃ front text, lex .between s = some (front, .number text) ∧ tokens = front ++ [.num text]

/-- These tokens, up to the end of the text, with no token begun. -/
def LexesLine (s : Bytes) (tokens : List Token) : Prop :=
  lex .between s = some (tokens, .between)

theorem lex_append (st : LexState) (s s' : Bytes) :
    lex st (s ++ s') =
      (lex st s).bind fun r ↦ (lex r.2 s').map fun r' ↦ (r.1 ++ r'.1, r'.2) := by
  induction s generalizing st with
  | nil => simp [lex]
  | cons b s ih =>
    rw [List.cons_append, lex, lex, Option.bind_assoc]
    congr 1
    funext r
    rw [ih]
    rcases lex r.2 s with - | r'
    · rfl
    · rcases h : lex r'.2 s' with - | r''
      · simp [h]
      · simp [h]

theorem lex_singleton (st : LexState) (b : UInt8) : lex st [b] = lexByte st b := by
  simp only [lex, Option.map_some, List.append_nil]
  rcases lexByte st b with - | r <;> rfl

/-- Lines are read one after the other. -/
theorem LexesLine.append {s s' : Bytes} {tokens tokens' : List Token} (h : LexesLine s tokens)
    (h' : LexesLine s' tokens') : LexesLine (s ++ s') (tokens ++ tokens') := by
  rw [LexesLine, lex_append, h, Option.bind_some, h']
  rfl

/-! ### Newlines -/

/-- A newline where a token may begin, or where a number ends. -/
theorem lexByte_newline {st : LexState} {r : List Token × LexState} (h : lexByte st 10 = some r) :
    r.2 = .between ∧ lexByte st 32 = some r ∧
      (st = .between ∧ r.1 = [] ∨ ∃ text, st = .number text ∧ r.1 = [.num text]) := by
  rcases st with - | text | text | text | ⟨text, digits⟩
  · obtain rfl := Option.some.inj h
    exact ⟨rfl, rfl, Or.inl ⟨rfl, rfl⟩⟩
  · obtain rfl := Option.some.inj h
    exact ⟨rfl, rfl, Or.inr ⟨text, rfl, rfl⟩⟩
  · cases h
  · cases h
  · cases h

/-- **The newline at the end of a text** is no part of a token. -/
theorem Lexes.newline {s : Bytes} {tokens : List Token} (h : Lexes s tokens) :
    LexesLine (s ++ [10]) tokens := by
  rw [LexesLine, lex_append]
  rcases h with h | ⟨front, text, h, rfl⟩
  · rw [h, Option.bind_some, lex_singleton]
    simp [lexByte, lexBetween, isBlank]
  · rw [h, Option.bind_some, lex_singleton]
    simp [lexByte, lexBetween, isBlank, isNumberByte]

/-- A text has its tokens and no others. -/
theorem Lexes.unique {s : Bytes} {tokens tokens' : List Token} (h : Lexes s tokens)
    (h' : Lexes s tokens') : tokens = tokens' :=
  (Prod.mk.inj (Option.some.inj (h.newline.symm.trans h'.newline))).1

/-- Nor is it where it is there already. -/
theorem Lexes.line_of_newline {s : Bytes} {tokens : List Token} (h : Lexes (s ++ [10]) tokens) :
    LexesLine (s ++ [10]) tokens := by
  rcases h with h | ⟨front, text, h, -⟩
  · exact h
  · rw [lex_append] at h
    obtain ⟨r, -, h⟩ := Option.bind_eq_some_iff.1 h
    rw [lex_singleton] at h
    obtain ⟨r', hr', h⟩ := Option.map_eq_some_iff.1 h
    have hbetween := (lexByte_newline hr').1
    rw [(Prod.mk.inj h).2] at hbetween
    cases hbetween

/-- The same byte, or a blank in place of a newline. -/
def Blanked (b b' : UInt8) : Prop :=
  b' = b ∨ b = 10 ∧ b' = 32

/-- **Newlines may be blanks**: a text with blanks for some of its newlines has the same tokens. -/
theorem lex_of_blanked {s s' : Bytes} (h : List.Forall₂ Blanked s s') :
    ∀ {st : LexState} {r : List Token × LexState}, lex st s = some r → lex st s' = some r := by
  induction h with
  | nil => exact fun h ↦ h
  | @cons b b' s s' hb _ ih =>
    intro st r hr
    rw [lex] at hr ⊢
    obtain ⟨r', hr', hr⟩ := Option.bind_eq_some_iff.1 hr
    obtain ⟨r'', hr'', rfl⟩ := Option.map_eq_some_iff.1 hr
    have hbyte : lexByte st b' = some r' := by
      rcases hb with rfl | ⟨rfl, rfl⟩
      · exact hr'
      · exact (lexByte_newline hr').2.1
    rw [hbyte, Option.bind_some, ih hr'']
    rfl

theorem Lexes.of_blanked {s s' : Bytes} {tokens : List Token} (hs : List.Forall₂ Blanked s s')
    (h : Lexes s tokens) : Lexes s' tokens := by
  rcases h with h | ⟨front, text, h, htokens⟩
  · exact Or.inl (lex_of_blanked hs h)
  · exact Or.inr ⟨front, text, lex_of_blanked hs h, htokens⟩

/-! ### Objects -/

/-- The value of a member. -/
inductive Value
  | str (s : Bytes)
  | int (n : ℤ)
  | strs (items : List Bytes)
  deriving DecidableEq

/-- An object, by its members in order. -/
abbrev Object := List (Bytes × Value)

/-- Some items with commas between them, from one bracket to the other. -/
def enclosed (left right : UInt8) (items : List (List Token)) : List Token :=
  .mark left :: ([.mark 44].intercalate items ++ [.mark right])

def Value.tokens : Value → List Token
  | .str s => [.str s]
  | .int n => [.num (toDecimal n)]
  | .strs items => enclosed 91 93 (items.map fun s ↦ [.str s])

/-- The tokens of a name and its value. -/
def memberTokens (m : Bytes × Value) : List Token :=
  .str m.1 :: .mark 58 :: m.2.tokens

def Object.tokens (o : Object) : List Token :=
  enclosed 123 125 (o.map memberTokens)

/-- The text is these objects, one after the other. -/
def Reads (s : Bytes) (objects : List Object) : Prop :=
  LexesLine s (objects.flatMap Object.tokens)

/-! ### The tokens determine the objects -/

/-- Of what has these tokens, one can say where they end, whatever comes after them. -/
def SelfDelimiting {α : Type} (tokens : α → List Token) : Prop :=
  ∀ a a' rest rest', tokens a ++ rest = tokens a' ++ rest' → a = a' ∧ rest = rest'

theorem SelfDelimiting.injective {α : Type} {tokens : α → List Token}
    (h : SelfDelimiting tokens) : Function.Injective tokens := by
  intro a a' heq
  exact (h a a' [] [] (by rw [heq])).1

/-- What is self-delimiting can be told apart one after the other. -/
theorem SelfDelimiting.flatMap_injective {α : Type} {tokens : α → List Token}
    (h : SelfDelimiting tokens) (hne : ∀ a, tokens a ≠ []) :
    Function.Injective (List.flatMap tokens) := by
  intro l
  induction l with
  | nil =>
    intro l' heq
    rcases l' with - | ⟨a', l'⟩
    · rfl
    · rw [List.flatMap_nil, List.flatMap_cons] at heq
      exact absurd (List.append_eq_nil_iff.1 heq.symm).1 (hne a')
  | cons a l ih =>
    intro l' heq
    rcases l' with - | ⟨a', l'⟩
    · rw [List.flatMap_nil, List.flatMap_cons] at heq
      exact absurd (List.append_eq_nil_iff.1 heq).1 (hne a)
    · rw [List.flatMap_cons, List.flatMap_cons] at heq
      obtain ⟨rfl, hrest⟩ := h a a' _ _ heq
      rw [ih hrest]

/-- **Enclosed items are self-delimiting** if the items are, and none begins with the bracket that
closes. -/
theorem SelfDelimiting.enclosed {α : Type} {tokens : α → List Token} (h : SelfDelimiting tokens)
    {right : UInt8} (hright : right ≠ 44) (hhead : ∀ a, ∃ t rest, tokens a = t :: rest ∧
      t ≠ .mark right) (left : UInt8) :
    SelfDelimiting fun l : List α ↦ JsonText.enclosed left right (l.map tokens) := by
  -- behind the first item comes a comma, or the end
  have htail : ∀ (l l' : List α) (rest rest' : List Token),
      l.flatMap (fun a ↦ .mark 44 :: tokens a) ++ .mark right :: rest =
        l'.flatMap (fun a ↦ .mark 44 :: tokens a) ++ .mark right :: rest' →
      l = l' ∧ rest = rest' := by
    intro l
    induction l with
    | nil =>
      intro l' rest rest' heq
      rcases l' with - | ⟨a', l'⟩
      · exact ⟨rfl, (List.cons.inj heq).2⟩
      · exact absurd (Token.mark.inj (List.cons.inj heq).1) hright
    | cons a l ih =>
      intro l' rest rest' heq
      rcases l' with - | ⟨a', l'⟩
      · exact absurd (Token.mark.inj (List.cons.inj heq).1).symm hright
      · rw [List.flatMap_cons, List.flatMap_cons, List.cons_append, List.cons_append,
          List.cons_append, List.cons_append, List.append_assoc, List.append_assoc] at heq
        obtain ⟨rfl, hrest⟩ := h a a' _ _ (List.cons.inj heq).2
        obtain ⟨rfl, hend⟩ := ih l' rest rest' hrest
        exact ⟨rfl, hend⟩
  have hsplit : ∀ (a : α) (l : List α), [Token.mark 44].intercalate ((a :: l).map tokens) =
      tokens a ++ l.flatMap fun a ↦ .mark 44 :: tokens a := by
    intro a l
    induction l generalizing a with
    | nil => simp [List.intercalate]
    | cons a' l ih =>
      rw [List.flatMap_cons, List.cons_append, ← ih a']
      simp [List.intercalate]
  intro l l' rest rest' heq
  simp only [JsonText.enclosed, List.cons_append, List.append_assoc, List.cons.injEq,
    true_and] at heq
  rcases l with - | ⟨a, l⟩
  · rcases l' with - | ⟨a', l'⟩
    · exact ⟨rfl, (List.cons.inj heq).2⟩
    · obtain ⟨t, more, hmore, hne⟩ := hhead a'
      rw [hsplit, hmore] at heq
      exact absurd (List.cons.inj heq).1.symm hne
  · rcases l' with - | ⟨a', l'⟩
    · obtain ⟨t, more, hmore, hne⟩ := hhead a
      rw [hsplit, hmore] at heq
      exact absurd (List.cons.inj heq).1 hne
    · rw [hsplit, hsplit, List.append_assoc, List.append_assoc] at heq
      obtain ⟨rfl, hrest⟩ := h a a' _ _ heq
      obtain ⟨rfl, hend⟩ := htail l l' rest rest' hrest
      exact ⟨rfl, hend⟩

theorem selfDelimiting_str : SelfDelimiting fun s : Bytes ↦ [Token.str s] := by
  intro s s' rest rest' h
  obtain ⟨hs, hrest⟩ := List.cons.inj h
  exact ⟨Token.str.inj hs, hrest⟩

theorem selfDelimiting_value : SelfDelimiting Value.tokens := by
  have hstrs : SelfDelimiting fun l : List Bytes ↦
      enclosed 91 93 (l.map fun s ↦ [Token.str s]) :=
    selfDelimiting_str.enclosed (by decide) (fun s ↦ ⟨.str s, [], rfl, by simp⟩) 91
  intro v v' rest rest' h
  rcases v with s | n | items <;> rcases v' with s' | n' | items'
  · obtain ⟨rfl, hrest⟩ := selfDelimiting_str s s' rest rest' h
    exact ⟨rfl, hrest⟩
  · cases (List.cons.inj h).1
  · cases (List.cons.inj h).1
  · cases (List.cons.inj h).1
  · obtain ⟨hn, hrest⟩ := List.cons.inj h
    exact ⟨congrArg _ (toDecimal_injective (Token.num.inj hn)), hrest⟩
  · cases (List.cons.inj h).1
  · cases (List.cons.inj h).1
  · cases (List.cons.inj h).1
  · obtain ⟨rfl, hrest⟩ := hstrs items items' rest rest' h
    exact ⟨rfl, hrest⟩

theorem selfDelimiting_member : SelfDelimiting memberTokens := by
  rintro ⟨name, v⟩ ⟨name', v'⟩ rest rest' h
  obtain ⟨hname, h⟩ := List.cons.inj h
  obtain ⟨rfl, hrest⟩ := selfDelimiting_value v v' rest rest' (List.cons.inj h).2
  exact ⟨Prod.ext (Token.str.inj hname) rfl, hrest⟩

theorem selfDelimiting_object : SelfDelimiting Object.tokens :=
  selfDelimiting_member.enclosed (by decide) (fun m ↦ ⟨.str m.1, _, rfl, by simp⟩) 123

/-- **A text is read in one way only.** -/
theorem reads_unique {s : Bytes} {objects objects' : List Object} (h : Reads s objects)
    (h' : Reads s objects') : objects = objects' := by
  refine selfDelimiting_object.flatMap_injective (fun _ ↦ List.cons_ne_nil _ _) ?_
  exact (Prod.mk.inj (Option.some.inj (h.symm.trans h'))).1

theorem reads_nil : Reads [] [] := rfl

/-- Texts that are read by themselves are read one after the other. -/
theorem reads_append {s s' : Bytes} {objects objects' : List Object} (h : Reads s objects)
    (h' : Reads s' objects') : Reads (s ++ s') (objects ++ objects') := by
  rw [Reads, List.flatMap_append]
  exact LexesLine.append h h'

/-! ### Writing -/

/-- A hexadecimal digit. -/
def hexLower (v : ℕ) : UInt8 :=
  UInt8.ofNat (if v < 10 then 48 + v else 87 + v)

/-- A byte as it is written in a string. -/
def escapeByte (b : UInt8) : Bytes :=
  if b = 34 ∨ b = 92 ∨ b = 47 then [92, b]
  else if b = 8 then lit "\\b"
  else if b = 12 then lit "\\f"
  else if b = 10 then lit "\\n"
  else if b = 13 then lit "\\r"
  else if b = 9 then lit "\\t"
  else if b < 32 then lit "\\u00" ++ [hexLower (b.toNat / 16), hexLower (b.toNat % 16)]
  else [b]

/-- A string with its quotes. -/
def quote (s : Bytes) : Bytes :=
  34 :: (s.flatMap escapeByte ++ [34])

/-- How the parts of an object are set out: what stands behind the brackets that open, behind the
commas and before the brackets that close, of the object and of a list in it. -/
structure Layout where
  object : Bytes
  objectEnd : Bytes
  list : Bytes
  listEnd : Bytes
  blank : ∀ b ∈ object ++ objectEnd ++ list ++ listEnd, isBlank b = true

/-- Some texts with commas between them, from one bracket to the other. -/
def encloseTexts (left right : UInt8) (before after : Bytes) (texts : List Bytes) : Bytes :=
  left :: (before ++ ((44 :: before).intercalate texts ++ (after ++ [right])))

def Value.write (layout : Layout) : Value → Bytes
  | .str s => quote s
  | .int n => toDecimal n
  | .strs items => encloseTexts 91 93 layout.list layout.listEnd (items.map quote)

def writeMember (layout : Layout) (m : Bytes × Value) : Bytes :=
  quote m.1 ++ 58 :: m.2.write layout

/-- An object as a text. -/
def Object.write (layout : Layout) (o : Object) : Bytes :=
  encloseTexts 123 125 layout.object layout.objectEnd (o.map (writeMember layout))

/-- All on one line. -/
def Layout.plain : Layout := ⟨[], [], [], [], by simp⟩

/-- A line for each member, and for each item of a list. -/
def Layout.pretty : Layout := ⟨lit "\n  ", lit "\n", lit "\n    ", lit "\n  ", by decide +kernel⟩

theorem LexesLine.lexes {s : Bytes} {tokens : List Token} (h : LexesLine s tokens) :
    Lexes s tokens :=
  Or.inl h

theorem LexesLine.append_lexes {s s' : Bytes} {tokens tokens' : List Token}
    (h : LexesLine s tokens) (h' : Lexes s' tokens') : Lexes (s ++ s') (tokens ++ tokens') := by
  rcases h' with h' | ⟨front, text, h', rfl⟩
  · exact (h.append h').lexes
  · refine Or.inr ⟨tokens ++ front, text, ?_, (List.append_assoc _ _ _).symm⟩
    rw [lex_append, h, Option.bind_some, h']
    rfl

theorem lexesLine_mark {b : UInt8} (h : isMark b = true) : LexesLine [b] [.mark b] := by
  have hblank : isBlank b = false := by
    rw [isMark, decide_eq_true_iff] at h
    revert h b
    decide +kernel
  rw [LexesLine, lex_singleton, lexByte, lexBetween, hblank, h]
  rfl

theorem lexesLine_blank {s : Bytes} (h : ∀ b ∈ s, isBlank b = true) : LexesLine s [] := by
  induction s with
  | nil => rfl
  | cons b s ih =>
    obtain ⟨hb, hs⟩ := List.forall_mem_cons.1 h
    have hone : LexesLine [b] [] := by
      rw [LexesLine, lex_singleton, lexByte, lexBetween, hb]
      rfl
    exact hone.append (ih hs)

/-- A byte that is in no number ends one. -/
theorem Lexes.append_between {s : Bytes} {tokens : List Token} {b : UInt8} {r : List Token}
    (h : Lexes s tokens) (hb : isNumberByte b = false)
    (hr : lexBetween b = some (r, .between)) : LexesLine (s ++ [b]) (tokens ++ r) := by
  rw [LexesLine, lex_append]
  rcases h with h | ⟨front, text, h, rfl⟩
  · rw [h, Option.bind_some, lex_singleton, lexByte, hr]
    rfl
  · rw [h, Option.bind_some, lex_singleton, lexByte, hb, hr]
    simp

theorem Lexes.append_mark {s : Bytes} {tokens : List Token} {b : UInt8} (h : Lexes s tokens)
    (hb : isMark b = true) : LexesLine (s ++ [b]) (tokens ++ [.mark b]) := by
  refine h.append_between ?_ ?_
  · rw [isMark, decide_eq_true_iff] at hb
    revert hb b
    decide +kernel
  · have hline := lexesLine_mark hb
    rwa [LexesLine, lex_singleton] at hline

theorem Lexes.append_blank {s s' : Bytes} {tokens : List Token} (h : Lexes s tokens)
    (hs' : ∀ b ∈ s', isBlank b = true) : Lexes (s ++ s') tokens := by
  rcases s' with - | ⟨b, s'⟩
  · rwa [List.append_nil]
  · obtain ⟨hb, hs'⟩ := List.forall_mem_cons.1 hs'
    have hnumber : isNumberByte b = false := by
      rw [isBlank, decide_eq_true_iff] at hb
      rcases hb with rfl | rfl | rfl | rfl <;> rfl
    have hend : LexesLine (s ++ [b]) (tokens ++ []) :=
      h.append_between hnumber (by rw [lexBetween, if_pos hb])
    have hall := (hend.append (lexesLine_blank hs')).lexes
    rwa [List.append_nil, List.append_nil, List.append_assoc, List.singleton_append] at hall

/-! ### What is written is read -/

/-- A byte is read from what is written for it. -/
theorem lex_escapeByte (text : Bytes) (b : UInt8) :
    lex (.string text) (escapeByte b) = some ([], .string (text ++ [b])) := by
  rw [escapeByte]
  split_ifs with hself h₈ h₁₂ h₁₀ h₁₃ h₉ hcontrol
  · have hescape : simpleEscape b = some b := if_pos hself
    have hne : b ≠ 117 := by rcases hself with rfl | rfl | rfl <;> decide
    simp [lex, lexByte, hescape, hne]
  · rw [h₈]
    rfl
  · rw [h₁₂]
    rfl
  · rw [h₁₀]
    rfl
  · rw [h₁₃]
    rfl
  · rw [h₉]
    rfl
  · -- the number of a control character has two digits
    have hdigit : ∀ v < 16, hexDigit? (hexLower v) = some v := by decide
    have hlt : b.toNat < 32 := UInt8.lt_iff_toNat_lt.1 hcontrol
    have hhigh := hdigit (b.toNat / 16) (by omega)
    have hlow := hdigit (b.toNat % 16) (by omega)
    have hcode : 16 * (b.toNat / 16) + b.toNat % 16 = b.toNat := by omega
    have hlead : lit "\\u00" = [92, 117, 48, 48] := by decide
    have hzero : hexDigit? 48 = some 0 := by decide
    have hsmall : b.toNat < 128 := by omega
    have hbyte : 16 * UInt8.ofNat (b.toNat / 16) + UInt8.ofNat (b.toNat % 16) = b := by
      rw [← UInt8.toNat_inj]
      simp
      omega
    rw [hlead]
    simp [lex, lexByte, hzero, hhigh, hlow, hcode, hsmall, hbyte]
  · have hquote : b ≠ 34 ∧ b ≠ 92 := by
      rw [not_or, not_or] at hself
      exact ⟨hself.1, hself.2.1⟩
    rw [lex_singleton, lexByte, if_neg hquote.1, if_neg hquote.2, if_neg hcontrol]

theorem lex_flatMap_escapeByte (text s : Bytes) :
    lex (.string text) (s.flatMap escapeByte) = some ([], .string (text ++ s)) := by
  induction s generalizing text with
  | nil => rw [List.flatMap_nil, List.append_nil, lex]
  | cons b s ih =>
    rw [List.flatMap_cons, lex_append, lex_escapeByte, Option.bind_some, ih, List.append_assoc]
    rfl

theorem lexesLine_quote (s : Bytes) : LexesLine (quote s) [.str s] := by
  have hopen : lex .between [34] = some ([], .string []) := rfl
  have hclose : lex (.string s) [34] = some ([.str s], .between) := rfl
  rw [LexesLine, quote, ← List.singleton_append, lex_append, hopen, Option.bind_some, lex_append,
    lex_flatMap_escapeByte, Option.bind_some, List.nil_append, hclose]
  rfl

theorem lex_number {text s : Bytes} (h : ∀ b ∈ s, isNumberByte b = true) :
    lex (.number text) s = some ([], .number (text ++ s)) := by
  induction s generalizing text with
  | nil => rw [lex, List.append_nil]
  | cons b s ih =>
    obtain ⟨hb, hs⟩ := List.forall_mem_cons.1 h
    rw [lex, lexByte, if_pos hb, Option.bind_some, ih hs, List.append_assoc]
    rfl

theorem isNumberByte_of_mem_toDecimal {n : ℤ} {b : UInt8} (h : b ∈ toDecimal n) :
    isNumberByte b = true := by
  have hdigit : ∀ b ∈ digitBytes n.natAbs, isNumberByte b = true := by
    intro b hb
    obtain ⟨hlow, hhigh⟩ := mem_digitBytes hb
    rw [isNumberByte, decide_eq_true_iff, UInt8.le_iff_toNat_le, UInt8.le_iff_toNat_le]
    exact Or.inr ⟨hlow, hhigh⟩
  rw [toDecimal_eq] at h
  split_ifs at h
  · rcases List.mem_cons.1 h with rfl | h
    · rfl
    · exact hdigit b h
  · exact hdigit b h

theorem lexes_toDecimal (n : ℤ) : Lexes (toDecimal n) [.num (toDecimal n)] := by
  rcases hn : toDecimal n with - | ⟨b, s⟩
  · exact absurd hn (toDecimal_ne_nil n)
  · have hall : ∀ b' ∈ b :: s, isNumberByte b' = true := fun b' hb' ↦
      isNumberByte_of_mem_toDecimal (hn ▸ hb')
    obtain ⟨hb, hs⟩ := List.forall_mem_cons.1 hall
    have hother : isBlank b = false ∧ isMark b = false ∧ b ≠ 34 := by
      rw [isNumberByte, decide_eq_true_iff, UInt8.le_iff_toNat_le, UInt8.le_iff_toNat_le] at hb
      have hvalues : b.toNat = 45 ∨ 48 ≤ b.toNat ∧ b.toNat ≤ 57 :=
        hb.imp_left fun h ↦ congrArg UInt8.toNat h
      have hne : ∀ v : UInt8, v.toNat ≠ 45 ∧ ¬ (48 ≤ v.toNat ∧ v.toNat ≤ 57) → b ≠ v := by
        rintro v hv rfl
        exact hvalues.elim hv.1 hv.2
      simp [isBlank, isMark, lit, hne]
    refine Or.inr ⟨[], b :: s, ?_, rfl⟩
    rw [lex, lexByte, lexBetween, hother.1, hother.2.1, if_neg hother.2.2, hb]
    simp [lex_number hs]

/-- **Enclosed texts** are read if each of them is. -/
theorem lexesLine_encloseTexts {α : Type} {text : α → Bytes} {tokens : α → List Token}
    (h : ∀ a, Lexes (text a) (tokens a)) {left right : UInt8} (hleft : isMark left = true)
    (hright : isMark right = true) {before after : Bytes}
    (hbefore : ∀ b ∈ before, isBlank b = true) (hafter : ∀ b ∈ after, isBlank b = true)
    (l : List α) :
    LexesLine (encloseTexts left right before after (l.map text))
      (enclosed left right (l.map tokens)) := by
  have hleftLine : LexesLine (left :: before) [.mark left] := by
    rw [← List.singleton_append]
    exact (lexesLine_mark hleft).append (lexesLine_blank hbefore)
  -- the first item, and those behind it
  have hitems : ∀ (a : α) (l : List α),
      LexesLine ((44 :: before).intercalate ((a :: l).map text) ++ (after ++ [right]))
        ([.mark 44].intercalate ((a :: l).map tokens) ++ [.mark right]) := by
    intro a l
    induction l generalizing a with
    | nil =>
      have hlast := ((h a).append_blank hafter).append_mark hright
      simpa [List.intercalate, List.append_assoc] using hlast
    | cons a' l ih =>
      have hcomma := ((h a).append_mark (b := 44) rfl).append (lexesLine_blank hbefore)
      have hall := hcomma.append (ih a')
      simpa [List.intercalate, List.append_assoc] using hall
  rcases l with - | ⟨a, l⟩
  · have hright' := (hleftLine.append (lexesLine_blank hafter)).append (lexesLine_mark hright)
    simpa [encloseTexts, enclosed, List.intercalate] using hright'
  · have hall := hleftLine.append (hitems a l)
    simpa [encloseTexts, enclosed, List.append_assoc] using hall

theorem Layout.blanks (layout : Layout) :
    (∀ b ∈ layout.object, isBlank b = true) ∧ (∀ b ∈ layout.objectEnd, isBlank b = true) ∧
      (∀ b ∈ layout.list, isBlank b = true) ∧ ∀ b ∈ layout.listEnd, isBlank b = true := by
  have hblank := layout.blank
  simp only [List.mem_append] at hblank
  exact ⟨fun b hb ↦ hblank b (Or.inl (Or.inl (Or.inl hb))),
    fun b hb ↦ hblank b (Or.inl (Or.inl (Or.inr hb))),
    fun b hb ↦ hblank b (Or.inl (Or.inr hb)), fun b hb ↦ hblank b (Or.inr hb)⟩

theorem lexes_value (layout : Layout) (v : Value) : Lexes (v.write layout) v.tokens := by
  obtain ⟨-, -, hlist, hlistEnd⟩ := layout.blanks
  cases v with
  | str s => exact (lexesLine_quote s).lexes
  | int n => exact lexes_toDecimal n
  | strs items =>
    exact (lexesLine_encloseTexts (fun s ↦ (lexesLine_quote s).lexes) rfl rfl hlist hlistEnd
      items).lexes

theorem lexes_member (layout : Layout) (m : Bytes × Value) :
    Lexes (writeMember layout m) (memberTokens m) := by
  have hname := (lexesLine_quote m.1).lexes.append_mark (b := 58) rfl
  have hall := hname.append_lexes (lexes_value layout m.2)
  simpa [writeMember, memberTokens, List.append_assoc] using hall

/-- **The round trip**: an object is read from its text, whatever the layout. -/
theorem lexesLine_write (layout : Layout) (o : Object) : LexesLine (o.write layout) o.tokens := by
  obtain ⟨hobject, hobjectEnd, -⟩ := layout.blanks
  exact lexesLine_encloseTexts (lexes_member layout) rfl rfl hobject hobjectEnd o

end JsonText
