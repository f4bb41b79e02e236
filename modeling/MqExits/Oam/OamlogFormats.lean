import MqExits.Connwarn.LogEntry
import MqExits.Oam.OamlogCalls
import MqExits.Text.Printf
import MqExits.Text.Records

/-!
# The formats of the `oamlog` log

A function of `oamlog` writes a record with one call of `fprintf`: a head that says which process
and thread is in which function and when, and the arguments of the function on a line each. The
formats are lists of items, a line at a time, with the words of the source.

The text of a record determines what it was made from (`leftUnique_begins`), also where there are
lines under it that are not its own: nothing in it can be taken for something else.

## Why that is so

The head comes first, and its format can be read back; so two records with the same text have the
same stamp and the same function. With that the formats of their lines are the same, and what was
printed on each line determines the arguments (`eq_of_map_print_eq`). The lines of a record are as
many as its function prints, so what stands under them does not matter.

What is left is that the arguments are texts made from other things, and that these can be told
apart by their texts:

* an authority mask and a set of options begin with their hexadecimal digits, so the names behind
  these add nothing (`oAAuthStr_injective`, `oAEnumOptStr_injective`);
* a pointer is its digits or the word for a null pointer, which is shorter (`oAPtrStr_injective`);
* the kinds of entities, the completion codes and the names of the functions are few, and differ.

The tables that turn a number into a word are not injective: two numbers that a `switch` does not
know get the same word. So a record has the word and not the number (`Shown`).

A text with a newline in it is the one thing a reader cannot cope with: it makes a line of the
record into two. `whole_entry_iff` says that nothing else does, as no format has one.
-/

namespace MqExits.Oam.Oamlog.Log

open CText Printf LineRecords
open Connwarn (printWidth)

/-! ### Texts -/

/-- A text of a format. -/
@[simp] def fmt (s : String) : Item :=
  .lit (lit s)

/-- What `%n.ns` prints. -/
def fill (n : ℕ) (s : Bytes) : Field n :=
  ⟨printWidth n n s, by
    have hle : (cstr (s.take n)).length ≤ n := (cstr_length_le _).trans (List.length_take_le _ _)
    rw [printWidth, List.length_append, List.length_replicate]
    omega⟩

/-- What `%-n.ns` prints. -/
def fillRight (n : ℕ) (s : Bytes) : Field n :=
  .pad n 32 (cstr (s.take n))

/-- What `OAETStr` tells apart. -/
inductive EntityKind
  | user
  | group
  | any
  deriving DecidableEq

def EntityKind.text : EntityKind → Bytes
  | .user => lit "User "
  | .group => lit "Group"
  | .any => lit "Any"

def OAETStr (x : MQLONG) : EntityKind :=
  if x = MQZAET_PRINCIPAL then .user else if x = MQZAET_GROUP then .group else .any

def MQZTO_SECONDARY : MQLONG := 1
def MQZIO_SECONDARY : MQLONG := 1

/-- `OATermOptStr` and `OAInitOptStr`. -/
def OAOptStr (secondary : MQLONG) (x : BitVec 32) : Bytes :=
  if x.toInt = secondary then lit "Secondary" else lit "Primary"

/-- The object types that `OAOTStr` knows. -/
def objectTypes : List (MQLONG × Bytes) :=
  [(0, lit "Any"), (1, lit "Queue"), (2, lit "NameList"), (3, lit "Process"), (5, lit "QMgr"),
   (7, lit "AuthInfo"),
   -- the subtypes of a queue
   (1002, lit "Alias Queue"), (1003, lit "Model Queue"), (1004, lit "Local Queue"),
   (1005, lit "Remote Queue"),
   (11, lit "Listener"), (12, lit "Service"), (6, lit "Channel"),
   -- the subtypes of a channel
   (1007, lit "Channel Sender"), (1008, lit "Channel Server"), (1009, lit "Channel Requester"),
   (1010, lit "Channel Receiver"), (1013, lit "Channel SvrConn"),
   (1014, lit "Channel ClientConn"),
   (8, lit "Topic"), (9, lit "Comm Info"), (1016, lit "Channel Auth"), (1017, lit "Remote QMgr")]

/-- A `switch` that returns a text. -/
def switch (table : List (MQLONG × Bytes)) (default : Bytes) (x : MQLONG) : Bytes :=
  (table.lookup x).getD default

def OAOTStr : MQLONG → Bytes :=
  switch objectTypes (lit "Invalid Object Type")

def OAEnvStr : MQLONG → Bytes :=
  switch [(0, lit "Application"), (1, lit "Channel"), (2, lit "Channel SvrConn"),
    (3, lit "Command Server"), (4, lit "MQSC")] (lit "Invalid Environment")

def OABTStr : MQLONG → Bytes :=
  switch [(0x00, lit "Standard"), (0x01, lit "Fastpath"), (0x20, lit "Shared"),
    (0x40, lit "Isolated")] (lit "Invalid BindType")

def OACTStr : MQLONG → Bytes :=
  switch [(2, lit "Internal"), (1, lit "External")] (lit "Invalid Caller Type")

def OAATStr : MQLONG → Bytes :=
  switch [(0, lit "Initial Context"), (1, lit "Change Context")] (lit "Invalid Auth Type")

def MQIACF_USER_ID_SUPPORT : MQLONG := 1262
def MQIACF_INTERFACE_VERSION : MQLONG := 1263

def OAAttrStr : MQLONG → Bytes :=
  switch [(MQIACF_USER_ID_SUPPORT, lit "UserId Support"),
    (MQIACF_INTERFACE_VERSION, lit "Interface Version")] (lit "Unknown attribute")

/-- The options of `OAEnumOptStr`, in its order. -/
def enumOptions : FlagNames.Table 32 Bytes :=
  [(0x00000100, lit "cum"), (0x00000001, lit "ent_explicit"), (0x00000002, lit "ent_set"),
   (0x00000020, lit "name_all"), (0x00000040, lit "name_wildcard"),
   (0x00000010, lit "name_explicit"), (0x00000200, lit "excl_temp")]

/-- The text that `OAEnumOptStr` leaves in its buffer, which it always fits. -/
def OAEnumOptStr (x : BitVec 32) : Bytes :=
  let buf := lit "0x" ++ hex8 x ++ lit " ["
  let buf := if x = 0 then buf ++ lit "none " else strcatBits x enumOptions buf
  buf ++ lit "]"

def OAPtrStr (p : BitVec 64) : Bytes :=
  if p ≠ 0 then lit "0x" ++ hexDigits 16 p.toNat else lit "NULL"

/-! ### Records -/

/-- `prefix(tb)`. -/
structure Stamp where
  getpid : ℕ
  gettid : ℕ
  /-- The 24 characters of `v_ctime(tb)` that are printed. -/
  time : Field 24
  deriving DecidableEq

/-- What is printed of an object and an entity. -/
@[ext] structure ObjectEntity where
  object : Field 48
  type : Bytes
  kind : EntityKind
  entity : Bytes
  deriving DecidableEq

/-- What is printed with `authuserfmt`. -/
@[ext] structure UserContext where
  userIdentifier : Field 12
  effectiveUserID : Field 12
  applName : Field 28
  applIdentityData : Field 32
  environment : Bytes
  callerType : Bytes
  authenticationType : Bytes
  bindType : Bytes
  processId : MQLONG
  threadId : MQLONG
  correlationPtr : BitVec 64
  deriving DecidableEq

/-- What is printed with `authenumfmt`. -/
@[ext] structure EnumFilter where
  start : Bool
  options : BitVec 32
  profile : Field 48
  type : Bytes
  kind : EntityKind
  entity : Bytes
  authority : BitVec 32
  deriving DecidableEq

/-- The formats, with what is printed. -/
inductive Shown : MQZID → Type
  | initfmt (qMgr : Field 48) (CC : MQCC) (Reason : MQRC) (componentDataLength : MQLONG)
      (options : BitVec 32) : Shown .INIT_AUTHORITY
  | termfmt (qMgr : Field 48) (options : BitVec 32) : Shown .TERM_AUTHORITY
  | delfmt (object : Field 48) (type : Bytes) : Shown .DELETE_AUTHORITY
  | refreshfmt : Shown .REFRESH_CACHE
  | getauthfmt (e : ObjectEntity) : Shown .GET_AUTHORITY
  | explauthfmt (e : ObjectEntity) : Shown .GET_EXPLICIT_AUTHORITY
  | setauthfmt (e : ObjectEntity) (authority : BitVec 32) : Shown .SET_AUTHORITY
  | copyallfmt (refObject : Field 48) (type : Bytes) (object : Field 48) :
      Shown .COPY_ALL_AUTHORITY
  | checkauthfmt (e : ObjectEntity) (authority : BitVec 32) : Shown .CHECK_AUTHORITY
  | authuserfmt (u : UserContext) : Shown .AUTHENTICATE_USER
  | freeuserfmt (correlationPtr : BitVec 64) : Shown .FREE_USER
  | inquirefmt : Shown .INQUIRE
  | authenumfmt (f : EnumFilter) : Shown .ENUMERATE_AUTHORITY_DATA
  | checkprivfmt (kind : EntityKind) (entity : Bytes) : Shown .CHECK_PRIVILEGED

/-- The name in the head. -/
def name : MQZID → Bytes
  | .INIT_AUTHORITY => lit "OAInit"
  | .TERM_AUTHORITY => lit "OATerm"
  | .DELETE_AUTHORITY => lit "OADeleteAuth"
  | .REFRESH_CACHE => lit "OARefreshCache"
  | .GET_AUTHORITY => lit "OAGetAuth"
  | .GET_EXPLICIT_AUTHORITY => lit "OAGetExplicitAuth"
  | .SET_AUTHORITY => lit "OASetAuth"
  | .COPY_ALL_AUTHORITY => lit "OACopyAllAuth"
  | .CHECK_AUTHORITY => lit "OACheckAuth"
  | .AUTHENTICATE_USER => lit "OAAuthUser"
  | .FREE_USER => lit "OAFreeUser"
  | .INQUIRE => lit "OAInquire"
  | .ENUMERATE_AUTHORITY_DATA => lit "OAEnumAuth"
  | .CHECK_PRIVILEGED => lit "OACheckPriv"

/-- A line with a field between quotes. -/
@[simp] def fieldLine (label : String) {n : ℕ} (s : Field n) : List Item :=
  [fmt label, .fixed n s, fmt "\""]

/-- A line with a text between quotes. -/
@[simp] def textLine (label : String) (s : Bytes) : List Item :=
  [fmt label, .str s, fmt "\""]

/-- A line with an object and its type. -/
@[simp] def objectLine (label : String) (object : Field 48) (type : Bytes) : List Item :=
  [fmt label, .fixed 48 object, fmt "\" [", .str type, fmt "]"]

/-- A line with options. -/
@[simp] def optionsLine (label : String) (options : BitVec 32) (text : Bytes) : List Item :=
  [fmt label, .hex 8 options, fmt " [", .str text, fmt "]"]

/-- A line with what ends it. -/
@[simp] def lastLine (label : String) (s : Bytes) : List Item :=
  [fmt label, .str s]

/-- A line with a number. -/
@[simp] def numberLine (label : String) (i : ℤ) : List Item :=
  [fmt label, .dec i]

/-- The first lines of a record on an object and an entity. -/
@[simp] def ObjectEntity.lines (e : ObjectEntity) : List (List Item) :=
  [objectLine "Object  : \"" e.object e.type,
   [.fixed 6 (fillRight 6 e.kind.text), fmt "  : \"", .str e.entity, fmt "\""]]

@[simp] def UserContext.lines (u : UserContext) : List (List Item) :=
  [fieldLine "User    : \"" u.userIdentifier,
   fieldLine "EffUser : \"" u.effectiveUserID,
   fieldLine "AppName : \"" u.applName,
   fieldLine "ApIdDt  : \"" u.applIdentityData,
   textLine "Env     : \"" u.environment,
   textLine "Caller  : \"" u.callerType,
   textLine "Type    : \"" u.authenticationType,
   textLine "Bind    : \"" u.bindType,
   numberLine "App Pid : " u.processId,
   numberLine "App Tid : " u.threadId,
   lastLine "Ptr     : " (OAPtrStr u.correlationPtr)]

@[simp] def EnumFilter.lines (f : EnumFilter) : List (List Item) :=
  [lastLine "Start   : " (if f.start then lit "Yes" else lit "No"),
   lastLine "Options : " (OAEnumOptStr f.options),
   [fmt "Profile : \"", .fixed 48 f.profile, fmt "\" [", .str f.type, fmt "] "],
   lastLine "EntType : " f.kind.text,
   textLine "Entity  : \"" f.entity,
   lastLine "Auth    : " (OAAuthStr f.authority).1]

/-- `%d` of a completion code. -/
def compCode : MQCC → ℤ
  | .OK => 0
  | .WARNING => 1
  | .FAILED => 2

/-- The lines behind the head. -/
@[simp] def Shown.lines : {f : MQZID} → Shown f → List (List Item)
  | _, .initfmt qMgr CC Reason componentDataLength options =>
    [fieldLine "QMgr    : \"" qMgr,
     [fmt "CC      : ", .dec (compCode CC), fmt "  \tRC      : ", .dec Reason],
     numberLine "CompSize: " componentDataLength,
     optionsLine "Options : 0x" options (OAOptStr MQZIO_SECONDARY options)]
  | _, .termfmt qMgr options =>
    [fieldLine "QMgr    : \"" qMgr,
     optionsLine "Opts    : 0x" options (OAOptStr MQZTO_SECONDARY options)]
  | _, .delfmt object type => [objectLine "Object  : \"" object type]
  | _, .refreshfmt => []
  | _, .getauthfmt e => e.lines
  | _, .explauthfmt e => e.lines
  | _, .setauthfmt e authority => e.lines ++ [lastLine "Auth    : " (OAAuthStr authority).1]
  | _, .copyallfmt refObject type object =>
    [objectLine "From    : \"" refObject type, fieldLine "To      : \"" object]
  | _, .checkauthfmt e authority => e.lines ++ [lastLine "Auth    : " (OAAuthStr authority).1]
  | _, .authuserfmt u => u.lines
  | _, .freeuserfmt correlationPtr => [lastLine "Ptr     : " (OAPtrStr correlationPtr)]
  | _, .inquirefmt => []
  | _, .authenumfmt f => f.lines
  | _, .checkprivfmt kind entity =>
    [lastLine "EntType : " kind.text, textLine "Entity  : \"" entity]

/-- A record: whose it is, and what is printed. -/
structure Record where
  stamp : Stamp
  function : MQZID
  shown : Shown function

/-- `"[" PRS "] "` and the name. -/
def Record.head (r : Record) : List Item :=
  [fmt "[", .dec r.stamp.getpid, fmt ".", .dec r.stamp.gettid, fmt " @ ", .fixed 24 r.stamp.time,
   fmt "] ", .str (name r.function)]

/-- What is printed of the record. -/
def Record.entry (r : Record) : Entry :=
  ⟨print r.head, r.shown.lines.map print⟩

/-- The texts in a record. -/
def Record.texts (r : Record) : List Bytes :=
  (r.head :: r.shown.lines).flatMap arguments

/-- No text has a newline in it. -/
def Record.Plain (r : Record) : Prop :=
  ∀ t ∈ r.texts, newline ∉ t

instance (r : Record) : Decidable r.Plain :=
  inferInstanceAs (Decidable (∀ t ∈ r.texts, newline ∉ t))

/-! ### The texts determine what they are made from -/

theorem hex8_eq_hexDigits (x : BitVec 32) : hex8 x = hexDigits 8 x.toNat :=
  (hexDigits_eq 8 x.toNat).symm

/-- A text that begins with `0x` and the digits of a mask. -/
theorem hex8_append_inj {x y : BitVec 32} {s t : Bytes}
    (h : lit "0x" ++ hex8 x ++ s = lit "0x" ++ hex8 y ++ t) : x = y := by
  rw [hex8_eq_hexDigits, hex8_eq_hexDigits, List.append_assoc, List.append_assoc,
    List.append_cancel_left_eq] at h
  have hlength : (hexDigits 8 x.toNat).length = (hexDigits 8 y.toNat).length := by
    rw [length_hexDigits, length_hexDigits]
  exact BitVec.eq_of_toNat_eq (hexDigits_inj x.isLt y.isLt (List.append_inj_left h hlength))

theorem oAAuthStr_injective : Function.Injective fun x ↦ (OAAuthStr x).1 := by
  intro x y h
  simp only [oAAuthStr_eq, List.append_assoc] at h
  exact hex8_append_inj (by simpa only [List.append_assoc] using h)

theorem oAEnumOptStr_injective : Function.Injective OAEnumOptStr := by
  have hbits : ∀ x : BitVec 32, ∃ s, OAEnumOptStr x = lit "0x" ++ hex8 x ++ s := by
    intro x
    rw [OAEnumOptStr]
    simp only [strcatBits_eq]
    split_ifs
    · exact ⟨_, by simp only [List.append_assoc]; rfl⟩
    · exact ⟨_, by simp only [List.append_assoc]; rfl⟩
  intro x y h
  obtain ⟨s, hs⟩ := hbits x
  obtain ⟨t, ht⟩ := hbits y
  rw [hs, ht] at h
  exact hex8_append_inj h

theorem oAPtrStr_injective : Function.Injective OAPtrStr := by
  intro p q h
  rw [OAPtrStr, OAPtrStr] at h
  have hnull : ∀ p : BitVec 64, lit "0x" ++ hexDigits 16 p.toNat ≠ lit "NULL" := by
    intro p heq
    have hlength := congrArg List.length heq
    rw [List.length_append, length_hexDigits] at hlength
    exact absurd hlength (by decide)
  split_ifs at h with hp hq hq
  · rw [List.append_cancel_left_eq] at h
    exact BitVec.eq_of_toNat_eq (hexDigits_inj p.isLt q.isLt h)
  · exact absurd h (hnull p)
  · exact absurd h.symm (hnull q)
  · rw [not_not.1 hp, not_not.1 hq]

theorem format_lines_eq {f : MQZID} (a b : Shown f) : a.lines.map format = b.lines.map format := by
  cases a <;> cases b <;> simp

theorem readable_lines {f : MQZID} (a : Shown f) : (a.lines.map format).all readable = true := by
  have hmark : ∃ text, lit "  \tRC      : " = 32 :: text := ⟨_, rfl⟩
  obtain ⟨text, htext⟩ := hmark
  cases a <;> simp [readable, Directive.width, endsInteger, htext, JsonText.isNumberByte]

theorem EntityKind.text_injective : Function.Injective EntityKind.text := by
  intro a b h
  cases a <;> cases b <;> first | rfl | exact absurd h (by decide)

/-- Also where it is padded to six characters. -/
theorem EntityKind.fillRight_injective : Function.Injective fun k : EntityKind ↦
    fillRight 6 k.text := by
  intro a b h
  cases a <;> cases b <;> first | rfl | exact absurd h (by decide)

theorem compCode_injective : Function.Injective compCode := by
  intro a b h
  cases a <;> cases b <;> first | rfl | exact absurd h (by decide)

theorem yesNo_injective : Function.Injective fun b : Bool ↦ if b then lit "Yes" else lit "No" := by
  intro a b h
  cases a <;> cases b <;> first | rfl | exact absurd h (by decide)

theorem name_injective : Function.Injective name := by
  have hread : ∀ f, Oamlog.functions.find? (fun f' ↦ name f' = name f) = some f := by
    intro f
    cases f <;> decide
  intro f f' h
  refine Option.some.inj ?_
  rw [← hread f, ← hread f', h]

theorem ObjectEntity.lines_injective : Function.Injective ObjectEntity.lines := by
  intro e e' h
  simp only [lines, objectLine, List.cons.injEq, Item.fixed.injEq, Item.str.injEq, heq_eq_eq,
    true_and, and_true] at h
  obtain ⟨⟨hobject, htype⟩, hkind, hentity⟩ := h
  exact ObjectEntity.ext hobject htype (EntityKind.fillRight_injective hkind) hentity

theorem UserContext.lines_injective : Function.Injective UserContext.lines := by
  intro u u' h
  simpa [oAPtrStr_injective.eq_iff, UserContext.ext_iff] using h

theorem EnumFilter.lines_injective : Function.Injective EnumFilter.lines := by
  intro f f' h
  simpa [yesNo_injective.eq_iff, oAEnumOptStr_injective.eq_iff, oAAuthStr_injective.eq_iff,
    EntityKind.text_injective.eq_iff, EnumFilter.ext_iff, and_assoc] using h

/-- The lines of an entity and of an authority. -/
theorem lines_auth_inj {e e' : ObjectEntity} {x x' : BitVec 32}
    (h : e.lines ++ [lastLine "Auth    : " (OAAuthStr x).1] =
      e'.lines ++ [lastLine "Auth    : " (OAAuthStr x').1]) : e = e' ∧ x = x' := by
  rw [List.append_singleton_inj] at h
  exact ⟨ObjectEntity.lines_injective h.1, by simpa [oAAuthStr_injective.eq_iff] using h.2⟩

/-- The lines of a record determine what is shown. -/
theorem lines_injective (f : MQZID) : Function.Injective (@Shown.lines f) := by
  intro a b h
  cases a with
  -- the options are there in digits, so that their word adds nothing
  | initfmt qMgr CC Reason componentDataLength options =>
    cases b
    simp only [Shown.lines, fieldLine, numberLine, optionsLine, List.cons.injEq, Item.fixed.injEq,
      Item.dec.injEq, Item.hex.injEq, heq_eq_eq, true_and, and_true] at h
    obtain ⟨rfl, ⟨hCC, hReason⟩, rfl, rfl, -⟩ := h
    rw [compCode_injective hCC, Int.ofNat_inj.1 hReason]
  | setauthfmt e authority | checkauthfmt e authority =>
    cases b
    obtain ⟨rfl, rfl⟩ := lines_auth_inj h
    rfl
  | getauthfmt e | explauthfmt e =>
    cases b
    rw [ObjectEntity.lines_injective h]
  | authuserfmt u =>
    cases b
    rw [UserContext.lines_injective h]
  | authenumfmt f =>
    cases b
    rw [EnumFilter.lines_injective h]
  | termfmt qMgr options =>
    cases b
    simp only [Shown.lines, fieldLine, optionsLine, List.cons.injEq, Item.fixed.injEq,
      Item.hex.injEq, heq_eq_eq, true_and, and_true] at h
    obtain ⟨rfl, rfl, -⟩ := h
    rfl
  | refreshfmt | inquirefmt =>
    cases b
    rfl
  -- the rest have one or two lines
  | _ =>
    cases b
    simpa [oAPtrStr_injective.eq_iff, EntityKind.text_injective.eq_iff, and_assoc] using h

theorem readable_head (r : Record) : readable (format r.head) = true := by
  have hdot : lit "." = [46] := by decide
  have hat : lit " @ " = [32, 64, 32] := by decide
  simp [Record.head, readable, endsInteger, hdot, hat, JsonText.isNumberByte]

/-- The head of a record determines its stamp and its function. -/
theorem head_inj {r r' : Record} (h : print r.head = print r'.head) :
    r.stamp = r'.stamp ∧ r.function = r'.function := by
  have hitems : r.head = r'.head := eq_of_print_eq rfl (readable_head r) h
  simp only [Record.head, List.cons.injEq, Item.dec.injEq, Item.fixed.injEq, Item.str.injEq,
    heq_eq_eq, true_and, and_true] at hitems
  obtain ⟨hpid, htid, htime, hname⟩ := hitems
  rcases r with ⟨⟨pid, tid, time⟩, f, a⟩
  rcases r' with ⟨⟨pid', tid', time'⟩, f', b⟩
  obtain rfl : pid = pid' := Int.ofNat_inj.1 hpid
  obtain rfl : tid = tid' := Int.ofNat_inj.1 htid
  obtain rfl : time = time' := htime
  exact ⟨rfl, name_injective hname⟩

/-- **A record is determined by its text**, whatever is under it. -/
theorem leftUnique_begins : Relator.LeftUnique fun (r : Record) (e : Entry) ↦ r.entry.Begins e := by
  rintro r r' e ⟨details, hdetails⟩ ⟨details', hdetails'⟩
  have heq : r.entry.under details = r'.entry.under details' := hdetails.trans hdetails'.symm
  obtain ⟨hstamp, hfunction⟩ := head_inj (congrArg Entry.head heq)
  rcases r with ⟨stamp, f, a⟩
  rcases r' with ⟨stamp', f', b⟩
  obtain rfl : stamp = stamp' := hstamp
  obtain rfl : f = f' := hfunction
  have hformat := format_lines_eq a b
  have hlength : (a.lines.map print).length = (b.lines.map print).length := by
    simpa using congrArg List.length hformat
  have hlines : a.lines.map print = b.lines.map print :=
    List.append_inj_left (congrArg Entry.details heq) hlength
  rw [lines_injective f (eq_of_map_print_eq hformat (readable_lines a) hlines)]

/-! ### Lines -/

/-- No format has a newline within a line. -/
theorem inLine_lines (r : Record) :
    ∀ line ∈ r.head :: r.shown.lines, (format line).all Directive.inLine = true := by
  refine List.forall_mem_cons.2 ⟨?_, ?_⟩
  · simp only [Record.head, fmt, format_cons, format_nil, Item.directive, Directive.inLine,
      List.all_cons, List.all_nil, Bool.and_true, Bool.true_and]
    decide
  · rcases r with ⟨stamp, f, a⟩
    cases a <;> simp [Directive.inLine]
    all_goals decide

/-- The head of a record is not taken for a line under one. -/
theorem head?_head (r : Record) : (print r.head).head? = some 91 := by
  rw [Record.head, print_cons, fmt, Item.text, show lit "[" = [91] by decide]
  rfl

/-- **A record keeps its lines** exactly if no text in it has a newline. -/
theorem whole_entry_iff (r : Record) : r.entry.Whole ↔ r.Plain := by
  have hline : ∀ line ∈ r.head :: r.shown.lines,
      (newline ∉ print line ↔ ∀ t ∈ arguments line, newline ∉ t) :=
    fun line hline ↦ newline_notMem_print_iff (inLine_lines r line hline)
  have hwhole : r.entry.Whole ↔ ∀ line ∈ r.head :: r.shown.lines, newline ∉ print line := by
    have htab : (print r.head).head? ≠ some tab := by
      rw [head?_head]
      decide
    have hdetails : (∀ detail ∈ r.entry.details, newline ∉ detail) ↔
        ∀ line ∈ r.shown.lines, newline ∉ print line := List.forall_mem_map
    rw [List.forall_mem_cons, ← hdetails]
    exact ⟨fun h ↦ ⟨h.head, h.details⟩, fun h ↦ ⟨h.1, htab, h.2⟩⟩
  rw [hwhole, Record.Plain, Record.texts]
  constructor
  · intro h t ht
    obtain ⟨line, hmem, ht⟩ := List.mem_flatMap.1 ht
    exact (hline line hmem).1 (h line hmem) t ht
  · intro h line hmem
    exact (hline line hmem).2 fun t ht ↦ h t (List.mem_flatMap.2 ⟨line, hmem, ht⟩)

end MqExits.Oam.Oamlog.Log
