import MqExits.Connwarn.LogEntry
import MqExits.Text.Yaml

/-!
# Reading the log back

The log is meant to be a YAML list with one entry for each connection. Its texts are printed between
quotes as they are, so **the log reads back exactly when each text is plain and UTF-8**
(`logFile_reads_iff`): otherwise a client can close the quotes of its value, and go on to write keys
and entries of its own.

## What an entry is compared with

`LogValues.entry` has for each key the text that the client sent, and what is read is to be that, in
any order of the keys. One value may be cut: `%.*s` prints the user id of an MQCSP up to its length,
but no further than a NUL. So what is written of a value is the value or a beginning of it
(`CutTo`).

## Both directions

That safe texts read back is an induction over the lines that are written. For the converse
something has to be said about every other text, of which the reader may make anything. The argument
is one of weight: a text never reads as more than it weighs, so where the whole log reads as what
was meant, each line has to be read as itself, and only a plain one is.
-/

namespace MqExits.Connwarn

open CText Yaml

/-! ### What an entry records -/

/-- The user of the MQCSP, up to its recorded length. -/
def LogValues.cspUser (v : LogValues) : Bytes :=
  if v.CSPSet then
    if v.CSPUserLen < 0 then cstr v.CSPUser else v.CSPUser.take v.CSPUserLen.toNat
  else []

/-- The entry of some values, with the given text for the MQCSP user. -/
def entryWith (v : LogValues) (cspUser : Bytes) : Entry :=
  [(lit "timestamp", .quoted (cstr v.timestamp)),
    (lit "remote_conname", .quoted (cstr v.conname)),
    (lit "remote_appuser", .quoted (cstr v.remoteAppUser)),
    (lit "remote_version", .quoted (printWidth 8 8 v.remoteVersion)),
    (lit "remote_product", .quoted (printWidth 4 4 v.remoteProduct)),
    (lit "remote_product_decode", .quoted (cstr (remoteProductDecode v.remoteProduct))),
    (lit "MQCD_set", .plain (trueFalse v.CDset)),
    (lit "MQCD_user", .quoted (cstr (if v.CDset then v.CDUser else []))),
    (lit "MQCSP_set", .plain (trueFalse v.CSPSet)),
    (lit "MQCSP_user", .quoted cspUser),
    (lit "MQCD_MQCSP_identical", .plain (trueFalse v.identicalCDCSP)),
    (lit "MQCSP_valid", .plain (trueFalse v.CSPValid))]

/-- The entry that records some values. -/
def LogValues.entry (v : LogValues) : Entry :=
  entryWith v v.cspUser

/-- A text that can stand between quotes. -/
def SafeText (t : Bytes) : Prop :=
  Plain t ∧ Utf8.valid t = true

instance (t : Bytes) : Decidable (SafeText t) :=
  inferInstanceAs (Decidable (_ ∧ _))

/-- The texts that come from the client, and the timestamp. -/
structure LogValues.Safe (v : LogValues) : Prop where
  timestamp : SafeText (cstr v.timestamp)
  conname : SafeText (cstr v.conname)
  remoteAppUser : SafeText (cstr v.remoteAppUser)
  remoteVersion : SafeText (printWidth 8 8 v.remoteVersion)
  remoteProduct : SafeText (printWidth 4 4 v.remoteProduct)
  CDUser : SafeText (cstr (if v.CDset then v.CDUser else []))
  CSPUser : SafeText v.cspUser

/-! ### What is written -/

/-- What is printed of the MQCSP user. -/
def LogValues.printedCspUser (v : LogValues) : Bytes :=
  if v.CSPSet then printPrec v.CSPUserLen v.CSPUser else []

/-- The calls of `fprintf` write an entry, with its texts as they are. -/
theorem outputEntry_eq (v : LogValues) :
    outputEntry v = entryText (entryWith v v.printedCspUser) := by
  -- the two calls that can print the user differ in what stands between the quotes alone
  have huser : (if v.CSPSet then
      lit "  MQCSP_user: \"" ++ printPrec v.CSPUserLen v.CSPUser ++ lit "\"\n"
      else lit "  MQCSP_user: \"\"" ++ lit "\n") =
      lit "  MQCSP_user: \"" ++ v.printedCspUser ++ lit "\"\n" := by
    rw [LogValues.printedCspUser]
    split_ifs <;> rfl
  have hdash : lit "-" ++ lit "\n" = [45, 10] := by decide
  have hquote : lit "\"\n" = [34, 10] := by decide
  have hend : lit "\n" = [10] := by decide
  have hkeys : lit "  timestamp: \"" = [32, 32] ++ lit "timestamp" ++ [58, 32, 34] ∧
      lit "  remote_conname: \"" = [32, 32] ++ lit "remote_conname" ++ [58, 32, 34] ∧
      lit "  remote_appuser: \"" = [32, 32] ++ lit "remote_appuser" ++ [58, 32, 34] ∧
      lit "  remote_version: \"" = [32, 32] ++ lit "remote_version" ++ [58, 32, 34] ∧
      lit "  remote_product: \"" = [32, 32] ++ lit "remote_product" ++ [58, 32, 34] ∧
      lit "  remote_product_decode: \"" = [32, 32] ++ lit "remote_product_decode" ++ [58, 32, 34] ∧
      lit "  MQCD_user: \"" = [32, 32] ++ lit "MQCD_user" ++ [58, 32, 34] ∧
      lit "  MQCSP_user: \"" = [32, 32] ++ lit "MQCSP_user" ++ [58, 32, 34] ∧
      lit "  MQCD_set: " = [32, 32] ++ lit "MQCD_set" ++ [58, 32] ∧
      lit "  MQCSP_set: " = [32, 32] ++ lit "MQCSP_set" ++ [58, 32] ∧
      lit "  MQCD_MQCSP_identical: " = [32, 32] ++ lit "MQCD_MQCSP_identical" ++ [58, 32] ∧
      lit "  MQCSP_valid: " = [32, 32] ++ lit "MQCSP_valid" ++ [58, 32] := by
    decide +kernel
  obtain ⟨h₁, h₂, h₃, h₄, h₅, h₆, h₇, h₈, h₉, h₁₀, h₁₁, h₁₂⟩ := hkeys
  rw [outputEntry, huser, hdash, hquote, hend, h₁, h₂, h₃, h₄, h₅, h₆, h₇, h₈, h₉, h₁₀, h₁₁, h₁₂]
  simp only [entryText, entryWith, List.flatMap_cons, List.flatMap_nil, pairText, printS,
    List.append_nil, List.append_assoc]

/-- No more is printed of the MQCSP user than is recorded. -/
theorem printedCspUser_prefixOf (v : LogValues) : v.printedCspUser <+: v.cspUser := by
  rw [LogValues.printedCspUser, LogValues.cspUser, printPrec]
  split_ifs
  · exact List.prefix_refl _
  · exact List.takeWhile_prefix _
  · exact List.prefix_refl _

/-- All of it is printed, if there is no NUL in it. -/
theorem printedCspUser_eq {v : LogValues} (h : Plain v.cspUser) :
    v.printedCspUser = v.cspUser := by
  have hnul : (0 : UInt8) ∉ v.cspUser := fun h0 ↦ absurd (h 0 h0) (by decide)
  revert hnul
  rw [LogValues.printedCspUser, LogValues.cspUser, printPrec]
  split_ifs
  · exact fun _ ↦ rfl
  · exact fun hnul ↦ cstr_eq_self hnul
  · exact fun _ ↦ rfl

theorem word_trueFalse (b : Bool) : Word (trueFalse b) := by
  cases b <;> decide

/-- The keys of an entry, in their order. -/
def entryKeys : List Bytes :=
  [lit "timestamp", lit "remote_conname", lit "remote_appuser", lit "remote_version",
    lit "remote_product", lit "remote_product_decode", lit "MQCD_set", lit "MQCD_user",
    lit "MQCSP_set", lit "MQCSP_user", lit "MQCD_MQCSP_identical", lit "MQCSP_valid"]

theorem map_fst_entryWith (v : LogValues) (cspUser : Bytes) :
    (entryWith v cspUser).map Prod.fst = entryKeys := rfl

theorem word_of_mem_entryKeys : ∀ k ∈ entryKeys, Word k := by
  decide

theorem nodup_entryKeys : entryKeys.Nodup := by
  decide

/-- Every entry has each key once, whatever its values. -/
theorem wellFormed_entryWith (v : LogValues) (cspUser : Bytes) :
    WellFormed (entryWith v cspUser) where
  keys p hp := by
    have hkey : p.1 ∈ (entryWith v cspUser).map Prod.fst := List.mem_map_of_mem hp
    rw [map_fst_entryWith] at hkey
    exact word_of_mem_entryKeys p.1 hkey
  plain p hp t ht := by
    simp only [entryWith, List.mem_cons, List.not_mem_nil, or_false] at hp
    rcases hp with rfl | rfl | rfl | rfl | rfl | rfl | rfl | rfl | rfl | rfl | rfl | rfl <;>
      first
      | exact Scalar.noConfusion ht
      | (obtain rfl := Scalar.plain.inj ht; exact word_trueFalse _)
  nodup := by
    rw [map_fst_entryWith]
    exact nodup_entryKeys

/-- What is written of an entry is what is meant, or less of the MQCSP user. -/
theorem cutTo_entryWith (v : LogValues) :
    List.Forall₂ CutTo (entryWith v v.printedCspUser) v.entry := by
  have huser : CutTo (lit "MQCSP_user", .quoted v.printedCspUser)
      (lit "MQCSP_user", .quoted v.cspUser) := ⟨rfl, printedCspUser_prefixOf v⟩
  simp only [LogValues.entry, entryWith, List.forall₂_cons, CutTo.refl, huser, true_and,
    List.Forall₂.nil]

/-! ### What reads back -/

theorem safeText_decode (p : Bytes) : SafeText (cstr (remoteProductDecode p)) := by
  have htable : ∀ product ∈ remoteProducts, SafeText (cstr product.2) := by decide +kernel
  rw [remoteProductDecode]
  split
  · next hfind => exact htable _ (List.mem_of_find?_eq_some hfind)
  · decide

/-- The values of an entry are safe when the texts are. -/
theorem safe_entry_iff (v : LogValues) : (∀ p ∈ v.entry, p.2.Safe) ↔ v.Safe := by
  simp only [LogValues.entry, entryWith, List.forall_mem_cons, Scalar.Safe, List.not_mem_nil,
    false_implies, implies_true, and_true, true_and]
  constructor
  · rintro ⟨h₁, h₂, h₃, h₄, h₅, -, h₇, h₈⟩
    exact ⟨h₁, h₂, h₃, h₄, h₅, h₇, h₈⟩
  · rintro ⟨h₁, h₂, h₃, h₄, h₅, h₇, h₈⟩
    exact ⟨h₁, h₂, h₃, h₄, h₅, safeText_decode _, h₇, h₈⟩

/-- The log is the entries that were written, one after the other. -/
theorem logFile_eq (connections : List Connection) :
    logFile connections =
      some (write ((connections.filterMap logValues).map fun v ↦
        entryWith v v.printedCspUser)) := by
  have hfold : ∀ (values : List LogValues) (file : Bytes),
      values.foldl writeOutputEntry (some file) =
        some (file ++ write (values.map fun v ↦ entryWith v v.printedCspUser)) := by
    intro values
    induction values with
    | nil => intro file; simp [write]
    | cons v values ih =>
      intro file
      rw [List.foldl_cons, writeOutputEntry, Option.map_some, ih, outputEntry_eq]
      simp [write]
  rw [logFile, hfold, List.nil_append]

theorem reads_values_iff (values : List LogValues) :
    Reads (write (values.map fun v ↦ entryWith v v.printedCspUser))
      (values.map LogValues.entry) ↔ ∀ v ∈ values, v.Safe := by
  have hcut : List.Forall₂ (List.Forall₂ CutTo)
      (values.map fun v ↦ entryWith v v.printedCspUser) (values.map LogValues.entry) := by
    rw [List.forall₂_map_left_iff, List.forall₂_map_right_iff]
    exact List.forall₂_same.2 fun v _ ↦ cutTo_entryWith v
  have hwf : ∀ m ∈ values.map LogValues.entry, WellFormed m := by
    intro m hm
    obtain ⟨v, -, rfl⟩ := List.mem_map.1 hm
    exact wellFormed_entryWith v _
  rw [reads_write_iff hcut hwf]
  constructor
  · rintro ⟨-, hsafe⟩ v hv
    exact (safe_entry_iff v).1 (hsafe v.entry (List.mem_map_of_mem hv))
  · intro h
    refine ⟨List.map_congr_left fun v hv ↦ ?_, fun m hm ↦ ?_⟩
    · rw [LogValues.entry, printedCspUser_eq (h v hv).CSPUser.1]
    · obtain ⟨v, hv, rfl⟩ := List.mem_map.1 hm
      exact (safe_entry_iff v).2 (h v hv)

/-- **When the log reads back** as one entry for each connection, with each key once and with the
value recorded: when every text recorded is plain and UTF-8. -/
theorem logFile_reads_iff (connections : List Connection) :
    (∃ file, logFile connections = some file ∧
      Reads file ((connections.filterMap logValues).map LogValues.entry)) ↔
    ∀ c ∈ connections, ∀ v, logValues c = some v → v.Safe := by
  have hfile := logFile_eq connections
  constructor
  · rintro ⟨file, hlog, hreads⟩ c hc v hv
    obtain rfl := Option.some.inj (hlog.symm.trans hfile)
    exact (reads_values_iff _).1 hreads v (List.mem_filterMap.2 ⟨c, hc, hv⟩)
  · intro h
    refine ⟨_, hfile, (reads_values_iff _).2 fun v hv ↦ ?_⟩
    obtain ⟨c, hc, hcv⟩ := List.mem_filterMap.1 hv
    exact h c hc v hcv

/-! ### A forged entry -/

/-- A user of an MQCSP that closes its quotes, completes the entry and begins another one. -/
def forgingUser : Bytes :=
  lit "mq\"\n  MQCD_MQCSP_identical: false\n  MQCSP_valid: false\n-\n" ++
  lit "  timestamp: \"2020-11-04T11:45:04+0000\"\n  remote_conname: \"127.0.0.1\"\n" ++
  lit "  remote_appuser: \"mqm\"\n  remote_version: \"09030300\"\n" ++
  lit "  remote_product: \"MQCC\"\n  remote_product_decode: \"IBM MQ C client\"\n" ++
  lit "  MQCD_set: false\n  MQCD_user: \"\"\n  MQCSP_set: true\n  MQCSP_user: \"root"

/-- A connection with that user. -/
def Connection.forging : Connection where
  parmsVersion := 8
  partnerName := .pad 48 32 []
  remoteVersion := .pad 8 32 (lit "09030300")
  remoteProduct := .pad 4 32 (lit "MQCC")
  securityParms := some ⟨forgingUser.length, forgingUser, 6, lit "secret"⟩
  cdVersion := 11
  connectionName := .pad 264 32 (lit "10.0.0.1")
  shortConnectionName := .pad 20 32 (lit "10.0.0.1")
  remoteUserIdentifier := .pad 12 32 (lit "app")
  remotePassword := .pad 12 32 []
  timestamp := lit "2020-11-04T11:45:04+0000"
  validaterc := some false

/-- One connection, and two entries in the log. -/
theorem not_reads_forging :
    ¬ ∃ file, logFile [.forging] = some file ∧
      Reads file (([Connection.forging].filterMap logValues).map LogValues.entry) := by
  rintro ⟨file, hlog, doc, hread, hperm⟩
  have hlen : ((logFile [.forging]).bind read).map List.length = some 2 := by decide +kernel
  rw [hlog, Option.bind_some, hread, Option.map_some] at hlen
  -- what should be read back is one entry at most
  have hone := List.length_filterMap_le logValues [Connection.forging]
  have htwo := hperm.length_eq
  rw [Option.some.inj hlen, List.length_map] at htwo
  rw [← htwo] at hone
  exact absurd hone (by decide)

end MqExits.Connwarn
