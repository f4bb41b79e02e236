import MqExits.Xlbl.Amqsxlbl

/-!
# The mappings of a configuration file

What a line of the configuration file means, apart from the code: a trimmed line **states** a
mapping when it has the form `channel.NAME=LABEL` or `cluster.NAME=LABEL`, with a name and a label
of allowed lengths, and a mapping **applies** to a channel when its name, padded with blanks, is the
channel's name or one of its cluster names.

`parseLine` accepts exactly the lines that state a mapping (`parseLine_eq_some_iff`), whatever an
earlier line has left in the buffer behind them.
-/

namespace MqExits.Xlbl

open CText Outcome NodeHeap

/-! ### What lines state -/

/-- What a mapping is for. -/
inductive Kind
  | channel
  | cluster
  deriving DecidableEq

/-- A mapping from a name to a certificate label. -/
structure Mapping where
  kind : Kind
  name : Bytes
  label : Bytes

/-- What a line for a mapping begins with. -/
def Kind.keyword : Kind → Bytes
  | .channel => lit "channel."
  | .cluster => lit "cluster."

/-- The longest name. -/
def Kind.maxName : Kind → ℕ
  | .channel => 20
  | .cluster => 48

/-- A trimmed line states a mapping. -/
structure States (line : Bytes) (m : Mapping) : Prop where
  not_comment : line.headD 0 ≠ 35
  form : line = m.kind.keyword ++ m.name ++ 61 :: m.label
  not_mem_name : (61 : UInt8) ∉ m.name
  name_pos : 1 ≤ m.name.length
  name_le : m.name.length ≤ m.kind.maxName
  label_pos : 1 ≤ m.label.length
  label_le : m.label.length ≤ 64

/-- A mapping applies to a channel of a name and with some cluster names. -/
def Mapping.Applies (m : Mapping) (channelName : Field 20) (clusterNames : List (Field 48)) :
    Prop :=
  match m.kind with
  | .channel => padTo 20 32 m.name = channelName.val
  | .cluster => ∃ c ∈ clusterNames, padTo 48 32 m.name = c.val

/-! ### Their entries -/

/-- The entry type of a kind. -/
def Kind.entryType : Kind → UInt8
  | .channel => MAP_ENTRY_TYPE_CHANNEL
  | .cluster => MAP_ENTRY_TYPE_CLUSTER

/-- The entry of a mapping. -/
def Mapping.entry (m : Mapping) : XLBLMAPENTRY where
  entryType := m.kind.entryType
  objectName := .pad 48 32 m.name
  certificateLabel := .pad 64 0 m.label

theorem maxNameLength_entryType (k : Kind) : maxNameLength k.entryType = k.maxName := by
  cases k <;> rfl

theorem not_mem_keyword (k : Kind) {c : UInt8} (hc : c = 0 ∨ c = 61) : c ∉ k.keyword := by
  rcases hc with rfl | rfl <;> cases k <;> decide

theorem keyword_length (k : Kind) : k.keyword.length = 8 := by
  cases k <;> rfl

theorem maxName_le (k : Kind) : k.maxName ≤ 48 := by
  cases k <;> decide

theorem headD_keyword (k : Kind) (l : Bytes) : (k.keyword ++ l).headD 0 = 99 := by
  cases k <;> rfl

/-- A keyword ends before the first equals sign. -/
theorem keyword_prefixOf {k : Kind} {x y : Bytes} (h : k.keyword <+: x ++ 61 :: y) :
    k.keyword <+: x := by
  rcases List.prefix_or_prefix_of_prefix h (List.prefix_append x _) with hx | ⟨z, hz⟩
  · exact hx
  · rw [← hz, List.prefix_append_right_inj] at h
    cases z with
    | nil => exact ⟨[], by rw [← hz, List.append_nil, List.append_nil]⟩
    | cons c z =>
      obtain rfl : c = 61 := (List.cons_prefix_cons.1 h).1
      exact absurd (hz ▸ by simp) (not_mem_keyword k (.inr rfl))

/-- No line has both prefixes. -/
theorem kind_eq_of_keyword {k k' : Kind} {t : Bytes} (h : k.keyword <+: t) (h' : k'.keyword <+: t) :
    k = k' := by
  have hlen : k.keyword.length = k'.keyword.length := by rw [keyword_length, keyword_length]
  have heq := (List.prefix_of_prefix_length_le h h' hlen.le).eq_of_length hlen
  revert heq
  cases k <;> cases k' <;> decide

/-- Comparing a buffer with a text is asking whether its C string begins with it. -/
theorem strncmpEq_iff_prefixOf {pre t r : Bytes} (hpre : (0 : UInt8) ∉ pre) (ht : (0 : UInt8) ∉ t)
    (hr : cstr r = []) : strncmpEq pre (t ++ r) pre.length = true ↔ pre <+: t := by
  have htake : cstr ((t ++ r).take pre.length) = t.take pre.length := by
    have hnul : ∀ c ∈ t.take pre.length, c ≠ 0 := fun c hc h0 ↦
      ht (h0 ▸ List.mem_of_mem_take hc)
    rw [List.take_append, cstr_append hnul]
    have hrest : cstr (r.take (pre.length - t.length)) = [] := by
      obtain rfl | ⟨r', rfl⟩ := eq_nil_or_of_cstr_eq_nil hr
      · rw [List.take_nil]
        rfl
      · cases pre.length - t.length <;> rfl
    rw [hrest, List.append_nil]
  rw [strncmpEq, List.take_length, cstr_eq_self hpre, htake, beq_iff_eq, List.prefix_iff_eq_take]

theorem linePrefix_eq_some_iff {t r : Bytes} (ht : (0 : UInt8) ∉ t) (hr : cstr r = [])
    {v : UInt8 × Bytes} :
    linePrefix (t ++ r) = some v ↔ ∃ k : Kind, v = (k.entryType, k.keyword) ∧ k.keyword <+: t := by
  have hiff : ∀ k : Kind, strncmpEq k.keyword (t ++ r) k.keyword.length = true ↔
      k.keyword <+: t := fun k ↦ strncmpEq_iff_prefixOf (not_mem_keyword k (.inl rfl)) ht hr
  have heq : linePrefix (t ++ r) =
      if strncmpEq Kind.channel.keyword (t ++ r) Kind.channel.keyword.length then
        some (Kind.channel.entryType, Kind.channel.keyword)
      else if strncmpEq Kind.cluster.keyword (t ++ r) Kind.cluster.keyword.length then
        some (Kind.cluster.entryType, Kind.cluster.keyword)
      else none := rfl
  rw [heq]
  constructor
  · intro h
    split_ifs at h with h₁ h₂
    · exact ⟨.channel, (Option.some.inj h).symm, (hiff _).1 h₁⟩
    · exact ⟨.cluster, (Option.some.inj h).symm, (hiff _).1 h₂⟩
  · rintro ⟨k, rfl, hk⟩
    cases k with
    | channel => rw [if_pos ((hiff _).2 hk)]
    | cluster =>
      -- The keywords differ, so the text has only one of them in front.
      have hno : ¬ strncmpEq Kind.channel.keyword (t ++ r) Kind.channel.keyword.length = true :=
        fun h ↦ absurd (kind_eq_of_keyword ((hiff _).1 h) hk) (by decide)
      rw [if_neg hno, if_pos ((hiff _).2 hk)]

theorem strchr_append {t r : Bytes} (ht : (0 : UInt8) ∉ t) (hr : cstr r = []) (c : UInt8) :
    strchr (t ++ r) c = strchr t c := by
  have hnul : ∀ b ∈ t, b ≠ 0 := fun b hb h0 ↦ ht (h0 ▸ hb)
  rw [strchr, cstr_append hnul, hr, List.append_nil, strchr, cstr_eq_self ht]

theorem sizeSub_add (a b : ℕ) (h : b < 2 ^ 64) : sizeSub (a + b) a = b := by
  rw [sizeSub]
  omega

/-- The checks of a line with a keyword and an equals sign. -/
theorem parseLine_form {k : Kind} {name label r : Bytes} (hname : (61 : UInt8) ∉ name)
    (hnul : (0 : UInt8) ∉ k.keyword ++ name ++ 61 :: label) (hr : cstr r = [])
    (hlen : name.length < 2 ^ 64) :
    parseLine (k.keyword ++ name ++ 61 :: label ++ r) =
      if name.length < 1 ∨ name.length > k.maxName then none
      else if label.length < 1 ∨ label.length > 64 then none
      else some (Mapping.mk k name label).entry := by
  have hhead : (k.keyword ++ name ++ 61 :: label ++ r).headD 0 ≠ 35 ∧
      (cstr (k.keyword ++ name ++ 61 :: label ++ r)).length > 0 := by
    constructor
    · simp only [List.append_assoc, headD_keyword]
      decide
    · cases k <;> exact Nat.succ_pos _
  have hprefix : linePrefix (k.keyword ++ name ++ 61 :: label ++ r) =
      some (k.entryType, k.keyword) :=
    (linePrefix_eq_some_iff hnul hr).2
      ⟨k, rfl, by rw [List.append_assoc]; exact List.prefix_append _ _⟩
  -- The first equals sign is the one that was written: the keyword and the name have none.
  have hchr : strchr (k.keyword ++ name ++ 61 :: label ++ r) 61 =
      some (k.keyword.length + name.length) := by
    rw [strchr_append hnul hr, strchr_eq_some hnul]
    refine ⟨k.keyword ++ name, label, rfl, ?_, List.length_append⟩
    exact fun h ↦ (List.mem_append.1 h).elim (not_mem_keyword k (.inr rfl)) hname
  have hdrop : (k.keyword ++ name ++ 61 :: label ++ r).drop
      (k.keyword.length + name.length + 1) = label ++ r := by
    rw [← List.length_append, List.append_assoc _ _ r, List.drop_append]
    simp
  have hlabel : cstr (label ++ r) = label := by
    have hno : ∀ b ∈ label, b ≠ 0 := fun b hb h0 ↦ hnul (by simp [h0 ▸ hb])
    rw [cstr_append hno, hr, List.append_nil]
  have hfield : ((k.keyword ++ name ++ 61 :: label ++ r).drop k.keyword.length).take name.length =
      name := by
    rw [List.append_assoc _ _ r, List.append_assoc, List.drop_left, List.take_left]
  -- Each check of the source is now about one of the parts.
  rw [parseLine]
  simp only [hhead, hprefix, hchr, hdrop, hlabel, hfield, sizeSub_add _ _ hlen,
    maxNameLength_entryType, List.take_left, ne_eq, not_false_eq_true, and_self, if_true]
  rfl

/-- **What `parseLine` accepts**: the C string at `p` states a mapping, and the entry is that of the
mapping. -/
theorem parseLine_eq_some_iff {t r : Bytes} (ht : (0 : UInt8) ∉ t) (hr : cstr r = [])
    (hlen : t.length < 2 ^ 64) {e : XLBLMAPENTRY} :
    parseLine (t ++ r) = some e ↔ ∃ m, States t m ∧ m.entry = e := by
  constructor
  · intro h
    -- the prefix and the equals sign give the line its form
    obtain ⟨k, x, y, hk, hx, rfl⟩ : ∃ (k : Kind) (x y : Bytes),
        k.keyword <+: t ∧ (61 : UInt8) ∉ x ∧ t = x ++ 61 :: y := by
      rw [parseLine] at h
      split_ifs at h with hhead
      rcases hp : linePrefix (t ++ r) with - | v
      · simp [hp] at h
      · obtain ⟨k, rfl, hk⟩ := (linePrefix_eq_some_iff ht hr).1 hp
        rcases hc : strchr (t ++ r) 61 with - | i
        · simp [hp, hc] at h
        · rw [strchr_append ht hr] at hc
          obtain ⟨x, y, ht', hx, -⟩ := (strchr_eq_some ht).1 hc
          exact ⟨k, x, y, hk, hx, ht'⟩
    obtain ⟨name, rfl⟩ := keyword_prefixOf hk
    rw [List.length_append, List.length_append] at hlen
    have hname : (61 : UInt8) ∉ name := fun h ↦ hx (List.mem_append_right _ h)
    rw [parseLine_form hname ht hr (by omega)] at h
    split_ifs at h with h₁ h₂
    obtain ⟨hn₁, hn₂⟩ := not_or.1 h₁
    obtain ⟨hl₁, hl₂⟩ := not_or.1 h₂
    refine ⟨⟨k, name, y⟩, ⟨?_, rfl, hname, Nat.not_lt.1 hn₁, Nat.not_lt.1 hn₂, Nat.not_lt.1 hl₁,
      Nat.not_lt.1 hl₂⟩, Option.some.inj h⟩
    rw [List.append_assoc, headD_keyword]
    decide
  · rintro ⟨⟨k, name, label⟩, hs, rfl⟩
    obtain ⟨-, rfl, hname, hn₁, hn₂, hl₁, hl₂⟩ := hs
    have hlen' : name.length < 2 ^ 64 := by
      refine lt_of_le_of_lt ?_ hlen
      simp only [List.length_append]
      omega
    rw [parseLine_form hname ht hr hlen', if_neg (not_or.2 ⟨Nat.not_lt.2 hn₁, Nat.not_lt.2 hn₂⟩),
      if_neg (not_or.2 ⟨Nat.not_lt.2 hl₁, Nat.not_lt.2 hl₂⟩)]

end MqExits.Xlbl
