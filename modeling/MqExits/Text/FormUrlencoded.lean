import Mathlib.Data.List.Nodup
import MqExits.Text.Bytes

/-!
# Form bodies

The format `application/x-www-form-urlencoded`, as a server reads it: fields separated by `&`, empty
ones left out; a name and a value around the first `=`; and in both a `+` for a blank and `%` with
two digits for any byte. A `%` without two digits is itself.

A body that is built by writing the values **as they are** (`rawBody`) gives back its fields exactly
when no value has a separator, a plus or an escape in it (`decode_rawBody_perm_iff`). The fields may
come back in any order, as the names tell them apart.
-/

namespace FormUrlencoded

open CText

/-! ### Decoding -/

/-- The byte that three characters stand for, if they are an escape. -/
def escapeOf (c h l : UInt8) : Option UInt8 :=
  if c = 37 then do
    let a ← hexDigit? h
    let b ← hexDigit? l
    return UInt8.ofNat (16 * a + b)
  else none

/-- A text with a byte for each escape. -/
def percentDecode : Bytes → Bytes
  | c :: h :: l :: rest =>
    match escapeOf c h l with
    | some b => b :: percentDecode rest
    | none => c :: percentDecode (h :: l :: rest)
  | text => text

/-- The blank that a plus stands for. -/
def plusToBlank (c : UInt8) : UInt8 :=
  if c = 43 then 32 else c

def decodeText (v : Bytes) : Bytes :=
  percentDecode (v.map plusToBlank)

/-- The name and the value of a field. -/
def decodeField (field : Bytes) : Bytes × Bytes :=
  (decodeText (field.takeWhile (· != 61)), decodeText (field.dropWhile (· != 61)).tail)

/-- The fields of a body. -/
def decode (body : Bytes) : List (Bytes × Bytes) :=
  ((body.splitOn 38).filter (· ≠ [])).map decodeField

/-! ### Writing as it is -/

/-- A field whose name and value are written as they are. -/
def rawField (f : Bytes × Bytes) : Bytes :=
  f.1 ++ 61 :: f.2

/-- Such fields with separators between them. -/
def rawBody (fields : List (Bytes × Bytes)) : Bytes :=
  [38].intercalate (fields.map rawField)

/-- Is there a `%` with two digits after it? -/
def hasEscape : Bytes → Bool
  | c :: h :: l :: rest => (escapeOf c h l).isSome || hasEscape (h :: l :: rest)
  | _ => false

/-- A value that can be written as it is. -/
def Safe (v : Bytes) : Prop :=
  (38 : UInt8) ∉ v ∧ (43 : UInt8) ∉ v ∧ hasEscape v = false

instance (v : Bytes) : Decidable (Safe v) :=
  inferInstanceAs (Decidable (_ ∧ _ ∧ _))

/-! ### Texts -/

theorem percentDecode_of_escape {c h l b : UInt8} (hb : escapeOf c h l = some b) (rest : Bytes) :
    percentDecode (c :: h :: l :: rest) = b :: percentDecode rest := by
  rw [percentDecode, hb]

theorem percentDecode_of_not {c h l : UInt8} (hno : escapeOf c h l = none) (rest : Bytes) :
    percentDecode (c :: h :: l :: rest) = c :: percentDecode (h :: l :: rest) := by
  rw [percentDecode, hno]

/-- A text decodes to no more bytes than it has, and to as many only without escapes. -/
theorem length_percentDecode (v : Bytes) :
    (percentDecode v).length ≤ v.length ∧
      ((percentDecode v).length = v.length → hasEscape v = false) := by
  induction v using percentDecode.induct with
  | case1 c h l rest b hb ih =>
    rw [percentDecode_of_escape hb]
    simp only [List.length_cons]
    exact ⟨by omega, fun hlen ↦ by omega⟩
  | case2 c h l rest hno ih =>
    rw [percentDecode_of_not hno, hasEscape, hno]
    rw [List.length_cons, List.length_cons]
    exact ⟨by omega, fun hlen ↦ ih.2 (by omega)⟩
  | case3 text hshort =>
    rw [percentDecode, hasEscape]
    · exact ⟨le_rfl, fun _ ↦ rfl⟩
    · exact hshort
    · exact hshort

theorem percentDecode_of_hasEscape_eq_false {v : Bytes} (h : hasEscape v = false) :
    percentDecode v = v := by
  induction v using percentDecode.induct with
  | case1 c h' l rest b hb ih =>
    rw [hasEscape, hb] at h
    cases h
  | case2 c h' l rest hno ih =>
    rw [hasEscape, hno] at h
    rw [percentDecode_of_not hno, ih h]
  | case3 text hshort =>
    rw [percentDecode]
    exact hshort

theorem map_plusToBlank {v : Bytes} (h : (43 : UInt8) ∉ v) : v.map plusToBlank = v := by
  refine (List.map_congr_left fun c hc ↦ ?_).trans (List.map_id v)
  have hne : c ≠ 43 := fun hplus ↦ h (hplus ▸ hc)
  exact if_neg hne

theorem length_decodeText_le (v : Bytes) : (decodeText v).length ≤ v.length := by
  have hle := (length_percentDecode (v.map plusToBlank)).1
  rwa [List.length_map] at hle

/-- **A text stands for itself** exactly when it has neither a plus nor an escape. -/
theorem decodeText_eq_self_iff {v : Bytes} :
    decodeText v = v ↔ (43 : UInt8) ∉ v ∧ hasEscape v = false := by
  constructor
  · intro h
    have hlen : (percentDecode (v.map plusToBlank)).length = (v.map plusToBlank).length := by
      rw [List.length_map]
      exact congrArg List.length h
    have hmap := (length_percentDecode _).2 hlen
    -- without escapes the blanks stay, so there can be no plus
    have hplus : v.map plusToBlank = v := (percentDecode_of_hasEscape_eq_false hmap).symm.trans h
    refine ⟨fun hmem ↦ ?_, hplus ▸ hmap⟩
    rw [← hplus] at hmem
    obtain ⟨c, -, hc⟩ := List.mem_map.1 hmem
    rw [plusToBlank] at hc
    split_ifs at hc with h43
    · exact absurd hc (by decide)
    · exact h43 hc
  · rintro ⟨hplus, hescape⟩
    rw [decodeText, map_plusToBlank hplus, percentDecode_of_hasEscape_eq_false hescape]

theorem safe_iff {v : Bytes} : Safe v ↔ (38 : UInt8) ∉ v ∧ decodeText v = v := by
  rw [Safe, decodeText_eq_self_iff]

/-! ### Fields -/

/-- A name without separators, which stands for itself. -/
structure IsName (n : Bytes) : Prop where
  safe : Safe n
  no_equals : (61 : UInt8) ∉ n

instance (n : Bytes) : Decidable (IsName n) :=
  decidable_of_iff (Safe n ∧ (61 : UInt8) ∉ n) ⟨fun h ↦ ⟨h.1, h.2⟩, fun h ↦ ⟨h.1, h.2⟩⟩

theorem decode_nil : decode [] = [] := rfl

/-- Each side of a separator is decoded by itself. -/
theorem decode_append (a b : Bytes) : decode (a ++ 38 :: b) = decode a ++ decode b := by
  rw [decode, List.splitOn_append_cons_self, List.filter_append, List.map_append, decode, decode]

theorem decode_of_not_mem {field : Bytes} (hsep : (38 : UInt8) ∉ field) (hne : field ≠ []) :
    decode field = [decodeField field] := by
  rw [decode, List.splitOn_eq_singleton hsep, List.filter_cons_of_pos (by simpa using hne)]
  rfl

/-- What is before the first `=` is the name. -/
theorem decodeField_rawField {n : Bytes} (hn : IsName n) (v : Bytes) :
    decodeField (rawField (n, v)) = (n, decodeText v) := by
  have hall := forall_bne_of_not_mem hn.no_equals
  have htake : (n ++ 61 :: v).takeWhile (· != 61) = n := by
    rw [List.takeWhile_append_of_pos hall]
    exact List.append_nil n
  have hdrop : (n ++ 61 :: v).dropWhile (· != 61) = 61 :: v := by
    rw [List.dropWhile_append_of_pos hall]
    rfl
  rw [decodeField, rawField, htake, hdrop, (safe_iff.1 hn.safe).2]
  rfl

/-- **A field written as it is** has its name and what comes before the first separator of its
value; what comes after that is more fields. -/
theorem decode_rawField {n : Bytes} (hn : IsName n) (v : Bytes) :
    decode (rawField (n, v)) =
      (n, decodeText (v.takeWhile (· != 38))) :: decode (v.dropWhile (· != 38)).tail := by
  -- A value without a separator is a field of its own.
  have hfirst : ∀ w : Bytes, (38 : UInt8) ∉ w →
      decode (rawField (n, w)) = [(n, decodeText w)] := by
    intro w hw
    have hsep : (38 : UInt8) ∉ rawField (n, w) := fun h ↦
      (List.mem_append.1 h).elim hn.safe.1 fun h ↦
        (List.mem_cons.1 h).elim (fun h ↦ absurd h (by decide)) hw
    rw [decode_of_not_mem hsep (by simp [rawField]), decodeField_rawField hn]
  have hhead := not_mem_takeWhile_bne 38 v
  have hsplit : v.takeWhile (· != 38) ++ v.dropWhile (· != 38) = v :=
    List.takeWhile_append_dropWhile
  -- The value is cut at its first separator, if it has one.
  rcases hdrop : v.dropWhile (· != 38) with - | ⟨c, rest⟩
  · rw [hdrop, List.append_nil] at hsplit
    rw [hsplit, List.tail_nil, decode_nil]
    exact hfirst v (hsplit ▸ hhead)
  · have hc : c = 38 := by
      have hhead' := List.head?_dropWhile_not (· != 38) v
      rw [hdrop] at hhead'
      simpa using hhead'
    have hraw : rawField (n, v) = rawField (n, v.takeWhile (· != 38)) ++ 38 :: rest := by
      rw [hdrop, hc] at hsplit
      rw [rawField, rawField, List.append_assoc, List.cons_append, hsplit]
    rw [hraw, decode_append, hfirst _ hhead]
    rfl

theorem decode_rawField_of_safe {n v : Bytes} (hn : IsName n) (hv : Safe v) :
    decode (rawField (n, v)) = [(n, v)] := by
  obtain ⟨hsep, hself⟩ := safe_iff.1 hv
  have htake : v.takeWhile (· != 38) = v := takeWhile_bne_eq_self hsep
  have hdrop : v.dropWhile (· != 38) = [] := by
    have hsplit : v.takeWhile (· != 38) ++ v.dropWhile (· != 38) = v :=
      List.takeWhile_append_dropWhile
    rw [htake] at hsplit
    exact List.self_eq_append_right.1 hsplit.symm
  rw [decode_rawField hn, htake, hdrop, hself]
  rfl

/-! ### Bodies -/

theorem decode_rawBody (fields : List (Bytes × Bytes)) :
    decode (rawBody fields) = fields.flatMap fun f ↦ decode (rawField f) := by
  induction fields with
  | nil => rfl
  | cons f fields ih =>
    rcases eq_or_ne fields [] with rfl | hne
    · rw [rawBody, List.map_singleton, List.intercalate_singleton, List.flatMap_singleton]
    · have hne' : fields.map rawField ≠ [] := mt List.map_eq_nil_iff.1 hne
      rw [rawBody, List.map_cons, List.intercalate_cons_of_ne_nil hne', List.flatMap_cons, ← ih]
      exact (congrArg decode (List.append_assoc _ _ _)).trans (decode_append _ _)

/-- **A body written as it is** gives back its fields exactly when their values are safe. -/
theorem decode_rawBody_perm_iff {fields : List (Bytes × Bytes)}
    (hnames : ∀ f ∈ fields, IsName f.1) (hnodup : (fields.map Prod.fst).Nodup) :
    (decode (rawBody fields)).Perm fields ↔ ∀ f ∈ fields, Safe f.2 := by
  rw [decode_rawBody]
  constructor
  · rintro hperm ⟨n, v⟩ hf
    -- the name is that of one field only, so that its value is what the body says
    have hdecoded : (n, decodeText (v.takeWhile (· != 38))) ∈ fields := by
      refine hperm.subset (List.mem_flatMap.2 ⟨(n, v), hf, ?_⟩)
      rw [decode_rawField (hnames _ hf)]
      exact List.mem_cons_self
    have hvalue : decodeText (v.takeWhile (· != 38)) = v :=
      (Prod.mk.inj (List.inj_on_of_nodup_map hnodup hdecoded hf rfl)).2
    have htake : v.takeWhile (· != 38) = v := by
      refine (List.takeWhile_prefix _).eq_of_length_le ?_
      calc v.length = (decodeText (v.takeWhile (· != 38))).length := by rw [hvalue]
        _ ≤ (v.takeWhile (· != 38)).length := length_decodeText_le _
    have hsep : (38 : UInt8) ∉ v := htake ▸ not_mem_takeWhile_bne 38 v
    rw [htake] at hvalue
    exact safe_iff.2 ⟨hsep, hvalue⟩
  · intro hsafe
    have hself : (fields.flatMap fun f ↦ decode (rawField f)) = fields.flatMap fun f ↦ [f] :=
      List.flatMap_congr fun f hf ↦ decode_rawField_of_safe (hnames f hf) (hsafe f hf)
    rw [hself, List.flatMap_singleton']

end FormUrlencoded
