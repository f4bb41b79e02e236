import MqExits.Text.Json
import MqExits.Text.Lines

/-!
# Formats that can be read back

A format of `printf` is a list of directives: texts, and the conversions between them. An **item**
is a directive with its argument, and `print` is what the items print.

Conversions of a known width need no mark behind them, an integer ends where a byte comes that no
integer has, and a string can be found from the back if all that is behind it has a known width. A
format in which every conversion is one of these is `Readable`, and what it prints determines the
arguments (`eq_of_print_eq`).
-/

namespace CText

namespace Printf

/-! ### Directives and items -/

/-- A text of a format, or a conversion without its argument. -/
inductive Directive
  | lit (text : Bytes)
  /-- `%n.ns`. -/
  | fixed (n : ℕ)
  /-- `%0nX`. -/
  | hex (n : ℕ)
  /-- `%d`. -/
  | dec
  /-- `%s`. -/
  | str
  deriving DecidableEq

/-- A digit of `%X`. -/
def hexUpper (v : ℕ) : UInt8 :=
  UInt8.ofNat (if v < 10 then 48 + v else 55 + v)

/-- The digits of `%0nX`, for a number that has no more. -/
def hexDigits : ℕ → ℕ → Bytes
  | 0, _ => []
  | n + 1, v => hexDigits n (v / 16) ++ [hexUpper (v % 16)]

/-- A directive with its argument. That of `%n.ns` is the `n` bytes that are printed. -/
inductive Item
  | lit (text : Bytes)
  | fixed (n : ℕ) (s : Field n)
  | hex (n : ℕ) (x : BitVec (4 * n))
  | dec (i : ℤ)
  | str (s : Bytes)

namespace Item

@[simp] def directive : Item → Directive
  | .lit text => .lit text
  | .fixed n _ => .fixed n
  | .hex n _ => .hex n
  | .dec _ => .dec
  | .str _ => .str

/-- What is printed for it. -/
def text : Item → Bytes
  | .lit text => text
  | .fixed _ s => s.val
  | .hex n x => hexDigits n x.toNat
  | .dec i => toDecimal i
  | .str s => s

end Item

/-- What the items print. -/
def print (items : List Item) : Bytes :=
  items.flatMap Item.text

/-- The format of the items. -/
def format (items : List Item) : List Directive :=
  items.map Item.directive

@[simp] theorem format_nil : format [] = [] := rfl

@[simp] theorem print_cons (i : Item) (items : List Item) :
    print (i :: items) = i.text ++ print items := rfl

@[simp] theorem format_cons (i : Item) (items : List Item) :
    format (i :: items) = i.directive :: format items := rfl

/-! ### The digits -/

theorem length_hexDigits (n v : ℕ) : (hexDigits n v).length = n := by
  induction n generalizing v with
  | zero => rfl
  | succ n ih => rw [hexDigits, List.length_append, ih, List.length_singleton]

/-- The digits by their places. -/
theorem hexDigits_eq (n v : ℕ) :
    hexDigits n v = (List.range n).map fun i ↦ hexUpper (v / 16 ^ (n - 1 - i) % 16) := by
  induction n generalizing v with
  | zero => rfl
  | succ n ih =>
    rw [hexDigits, ih, List.range_succ, List.map_append, List.map_singleton,
      show n + 1 - 1 - n = 0 by omega, pow_zero, Nat.div_one]
    refine congrArg (· ++ _) (List.map_congr_left fun i hi ↦ ?_)
    have hplace : n + 1 - 1 - i = n - 1 - i + 1 := by
      have := List.mem_range.1 hi
      omega
    rw [hplace, pow_succ', Nat.div_div_eq_div_mul]

/-- The digit of a number determines it. -/
theorem hexUpper_inj {v w : ℕ} (hv : v < 16) (hw : w < 16) (h : hexUpper v = hexUpper w) :
    v = w := by
  have hall : ∀ v < 16, ∀ w < 16, hexUpper v = hexUpper w → v = w := by decide
  exact hall v hv w hw h

/-- **The digits determine the number.** -/
theorem hexDigits_inj {n v w : ℕ} (hv : v < 16 ^ n) (hw : w < 16 ^ n)
    (h : hexDigits n v = hexDigits n w) : v = w := by
  induction n generalizing v w with
  | zero => omega
  | succ n ih =>
    rw [hexDigits, hexDigits, List.append_singleton_inj] at h
    rw [pow_succ] at hv hw
    have hquotient : v / 16 = w / 16 :=
      ih (Nat.div_lt_of_lt_mul (by omega)) (Nat.div_lt_of_lt_mul (by omega)) h.1
    have hremainder : v % 16 = w % 16 :=
      hexUpper_inj (Nat.mod_lt _ (by decide)) (Nat.mod_lt _ (by decide)) h.2
    omega

theorem mem_hexDigits {n v : ℕ} {b : UInt8} (h : b ∈ hexDigits n v) : 48 ≤ b.toNat := by
  induction n generalizing v with
  | zero => cases h
  | succ n ih =>
    rcases List.mem_append.1 h with h | h
    · exact ih h
    · obtain rfl := List.mem_singleton.1 h
      have hall : ∀ v < 16, 48 ≤ (hexUpper v).toNat := by decide
      exact hall _ (Nat.mod_lt _ (by decide))

/-! ### Reading -/

/-- The number of bytes that a directive prints, if its argument makes no difference to it. -/
def Directive.width : Directive → Option ℕ
  | .lit text => some text.length
  | .fixed n => some n
  | .hex n => some n
  | .dec => none
  | .str => none

/-- No integer goes on in what the directives print. -/
def endsInteger : List Directive → Bool
  | [] => true
  | .lit (b :: _) :: _ => !JsonText.isNumberByte b
  | _ => false

/-- Every conversion can be told from what is behind it. -/
def readable : List Directive → Bool
  | [] => true
  | .dec :: rest => endsInteger rest && readable rest
  | .str :: rest => rest.all fun d ↦ d.width.isSome
  | _ :: rest => readable rest

theorem Directive.eq_of_width_eq_none {d : Directive} (h : d.width = none) :
    d = .dec ∨ d = .str := by
  rcases d with text | n | n | - | -
  · cases h
  · cases h
  · cases h
  · exact .inl rfl
  · exact .inr rfl

theorem readable_cons_of_width {d : Directive} {n : ℕ} (h : d.width = some n)
    (rest : List Directive) : readable (d :: rest) = readable rest := by
  rcases d with text | n | n | - | -
  · rfl
  · rfl
  · rfl
  · cases h
  · cases h

theorem readable_of_width {format : List Directive}
    (h : (format.all fun d ↦ d.width.isSome) = true) : readable format = true := by
  induction format with
  | nil => rfl
  | cons d format ih =>
    rw [List.all_cons, Bool.and_eq_true] at h
    obtain ⟨n, hn⟩ := Option.isSome_iff_exists.1 h.1
    rw [readable_cons_of_width hn]
    exact ih h.2

theorem Item.exists_dec {i : Item} (h : i.directive = .dec) : ∃ m, i = .dec m := by
  rcases i with text | ⟨n, s⟩ | ⟨n, x⟩ | m | s
  · cases h
  · cases h
  · cases h
  · exact ⟨m, rfl⟩
  · cases h

theorem length_text {i : Item} {n : ℕ} (h : i.directive.width = some n) : i.text.length = n := by
  rcases i with text | ⟨m, s⟩ | ⟨m, x⟩ | i | s
  · exact Option.some.inj h
  · exact s.property.trans (Option.some.inj h)
  · exact (length_hexDigits m _).trans (Option.some.inj h)
  · cases h
  · cases h

/-- Items of a known width print as many bytes as others of the same format. -/
theorem length_print_eq {items items' : List Item} (h : format items = format items')
    (hwidth : (format items).all fun d ↦ d.width.isSome) :
    (print items).length = (print items').length := by
  induction items generalizing items' with
  | nil =>
    obtain rfl := List.map_eq_nil_iff.1 h.symm
    rfl
  | cons i items ih =>
    obtain ⟨i', items', rfl, hi, hitems⟩ := List.map_eq_cons_iff.1 h.symm
    rw [format_cons, List.all_cons, Bool.and_eq_true] at hwidth
    obtain ⟨n, hn⟩ := Option.isSome_iff_exists.1 hwidth.1
    rw [print_cons, print_cons, List.length_append, List.length_append, ih hitems.symm hwidth.2,
      length_text hn, length_text (hi ▸ hn)]

theorem takeWhile_print {items : List Item} (h : endsInteger (format items) = true) :
    (print items).takeWhile JsonText.isNumberByte = [] := by
  rcases items with - | ⟨(- | ⟨b, text⟩) | ⟨m, s⟩ | ⟨m, x⟩ | i | s, items⟩
  · rfl
  · cases h
  · rw [print_cons, Item.text, List.cons_append, List.takeWhile_cons_of_neg]
    simpa [format, Item.directive, endsInteger] using h
  · cases h
  · cases h
  · cases h
  · cases h

/-- An integer is read up to where it ends. -/
theorem takeWhile_toDecimal_append (i : ℤ) {items : List Item}
    (h : endsInteger (format items) = true) :
    (toDecimal i ++ print items).takeWhile JsonText.isNumberByte = toDecimal i := by
  rw [List.takeWhile_append_of_pos fun b hb ↦ JsonText.isNumberByte_of_mem_toDecimal hb,
    takeWhile_print h, List.append_nil]

/-- An item is its directive and what it prints. -/
theorem Item.eq_of_text_eq {i i' : Item} (hdirective : i.directive = i'.directive)
    (h : i.text = i'.text) : i = i' := by
  rcases i with text | ⟨n, s⟩ | ⟨n, x⟩ | i | s
  all_goals rcases i' with text' | ⟨n', s'⟩ | ⟨n', x'⟩ | i' | s'
  all_goals try cases hdirective
  · rfl
  · exact congrArg (Item.fixed n) (Subtype.ext h)
  · have hdigits : x.toNat = x'.toNat :=
      hexDigits_inj (by simpa [pow_mul] using x.isLt) (by simpa [pow_mul] using x'.isLt) h
    exact congrArg (Item.hex n) (BitVec.eq_of_toNat_eq hdigits)
  · exact congrArg Item.dec (toDecimal_injective h)
  · exact congrArg Item.str h

/-- **What a readable format prints determines its arguments.** -/
theorem eq_of_print_eq {items items' : List Item} (hformat : format items = format items')
    (hread : readable (format items) = true) (h : print items = print items') :
    items = items' := by
  induction items generalizing items' with
  | nil => exact (List.map_eq_nil_iff.1 hformat.symm).symm
  | cons i items ih =>
    obtain ⟨i', items', rfl, hi, hitems⟩ := List.map_eq_cons_iff.1 hformat.symm
    have hrest : format items = format items' := hitems.symm
    rw [print_cons, print_cons] at h
    rw [format_cons] at hread
    -- it is enough to find where the first item ends
    suffices hsplit : readable (format items) = true ∧ i.text = i'.text ∧
        print items = print items' by
      rw [Item.eq_of_text_eq hi.symm hsplit.2.1, ih hrest hsplit.1 hsplit.2.2]
    rcases hwidth : i.directive.width with - | n
    · rcases Directive.eq_of_width_eq_none hwidth with hd | hd
      · rw [hd, readable, Bool.and_eq_true] at hread
        rw [hd] at hi
        obtain ⟨m, rfl⟩ := Item.exists_dec hd
        obtain ⟨m', rfl⟩ := Item.exists_dec hi
        have htext : toDecimal m = toDecimal m' := by
          rw [← takeWhile_toDecimal_append m hread.1, ← takeWhile_toDecimal_append m'
            (hrest ▸ hread.1)]
          exact congrArg _ h
        refine ⟨hread.2, htext, ?_⟩
        rw [Item.text, Item.text, htext] at h
        exact List.append_cancel_left h
      · rw [hd, readable] at hread
        exact ⟨readable_of_width hread, List.append_inj' h (length_print_eq hrest hread)⟩
    · have hlength : i.text.length = i'.text.length := by
        rw [length_text hwidth, length_text (hi.symm ▸ hwidth)]
      rw [readable_cons_of_width hwidth] at hread
      exact ⟨hread, List.append_inj h hlength⟩

/-- Lines in readable formats, each by itself. -/
theorem eq_of_map_print_eq {lines lines' : List (List Item)}
    (hformat : lines.map format = lines'.map format)
    (hread : (lines.map format).all readable = true)
    (h : lines.map print = lines'.map print) : lines = lines' := by
  induction lines generalizing lines' with
  | nil => exact (List.map_eq_nil_iff.1 hformat.symm).symm
  | cons line lines ih =>
    obtain ⟨line', lines', rfl, hline, hlines⟩ := List.map_eq_cons_iff.1 hformat.symm
    rw [List.map_cons, List.all_cons, Bool.and_eq_true] at hread
    rw [List.map_cons, List.map_cons, List.cons.injEq] at h
    rw [eq_of_print_eq hline.symm hread.1 h.1, ih hlines.symm hread.2 h.2]

/-! ### Newlines -/

/-- The argument of a conversion that prints a text. -/
def Item.argument : Item → Option Bytes
  | .fixed _ s => some s.val
  | .str s => some s
  | .lit _ => none
  | .hex _ _ => none
  | .dec _ => none

/-- The texts that are printed. -/
def arguments (items : List Item) : List Bytes :=
  items.filterMap Item.argument

/-- The format has no newline of its own. -/
def Directive.inLine : Directive → Bool
  | .lit text => newline ∉ text
  | _ => true

theorem newline_notMem_text_iff {i : Item} (h : i.directive.inLine = true) :
    newline ∉ i.text ↔ ∀ t ∈ i.argument, newline ∉ t := by
  rcases i with text | ⟨n, s⟩ | ⟨n, x⟩ | i | s
  · exact iff_of_true (of_decide_eq_true h) (fun _ ht ↦ by cases ht)
  · exact ⟨fun h t ht ↦ by rwa [← Option.some.inj ht], fun h ↦ h _ rfl⟩
  · exact iff_of_true (fun hmem ↦ absurd (mem_hexDigits hmem) (by decide))
      (fun _ ht ↦ by cases ht)
  · exact iff_of_true
      (fun hmem ↦ absurd (JsonText.isNumberByte_of_mem_toDecimal hmem) (by decide))
      (fun _ ht ↦ by cases ht)
  · exact ⟨fun h t ht ↦ by rwa [← Option.some.inj ht], fun h ↦ h _ rfl⟩

/-- **A line stays one line** exactly if none of its texts has a newline. -/
theorem newline_notMem_print_iff {items : List Item}
    (h : (format items).all Directive.inLine = true) :
    newline ∉ print items ↔ ∀ t ∈ arguments items, newline ∉ t := by
  rw [format, List.all_map, List.all_eq_true] at h
  have hitem : ∀ i ∈ items, (newline ∉ i.text ↔ ∀ t ∈ i.argument, newline ∉ t) :=
    fun i hi ↦ newline_notMem_text_iff (h i hi)
  rw [print, arguments, List.mem_flatMap]
  constructor
  · intro hprint t ht
    obtain ⟨i, hi, hargument⟩ := List.mem_filterMap.1 ht
    exact (hitem i hi).1 (fun hmem ↦ hprint ⟨i, hi, hmem⟩) t hargument
  · rintro harguments ⟨i, hi, hmem⟩
    exact (hitem i hi).2 (fun t ht ↦ harguments t (List.mem_filterMap.2 ⟨i, hi, ht⟩)) hmem

end Printf

end CText
