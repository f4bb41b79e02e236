import MqExits.Oam.OamlogLog
import Mathlib.Data.Fintype.Basic

/-!
# Reading the `oamlog` log

The threads of a process call the functions of `oamlog` as they come. Each call of `rpt` or of
`fprintf` is one piece of the log, as the stream has a lock of its own and no buffer; but a call
can make several of them, and those of other threads come between. `MQStart` and `OATerm` come while
no other function is under way: that is what the queue manager promises.

The record of a call is one piece, with all of its arguments but the selectors of `OAInquire` and
the unknown bits of an authority. So the log is read as the records of the calls, in the order in
which they began, exactly if no text has a newline in it (`log_reads_iff`), and two logs that are
alike come from calls that are alike (`records_eq_of_file_eq`). Which call a later line is from
cannot be read: it stands under the record that happens to be the last one.
-/

namespace MqExits.Oam.Oamlog.Log

open CText Printf LineRecords

/-! ### The process -/

/-- The log file, what the threads have still to print, and the variables of the module. -/
structure State (τ : Type) where
  service : ServiceState
  pending : τ → List (List Item)
  file : Bytes

/-- No call has been made yet. -/
def State.start {τ : Type} (file : Bytes) : State τ :=
  ⟨.start, fun _ ↦ [], file⟩

/-- A call of a function, up to the first text it prints; or the next text of a call. -/
inductive Step (τ : Type)
  | MQStart (w : Stamp) (a : StartArgs) (qMgrName : Field 48) (componentDataLength : MQLONG)
  | OATerm (w : Stamp) (qMgrName : Field 48) (options : MQLONG)
  | call (t : τ) (w : Stamp) (c : Call)
  | print (t : τ)

/-- What a step prints. -/
inductive Printed
  | nothing
  | record (r : Record)
  | line (line : List Item)

def Printed.record? : Printed → Option Record
  | .record r => some r
  | _ => none

def Printed.line? : Printed → Option (List Item)
  | .line l => some l
  | _ => none

def Printed.piece? : Printed → Option Piece
  | .nothing => none
  | .record r => some (.entry r.entry)
  | .line l => some (.detail (print l))

/-- The file with what is printed. -/
def Printed.after (p : Printed) (file : Bytes) : Bytes :=
  file ++ p.piece?.toList.flatMap Piece.text

/-- A record, if there is a log. -/
def record (logOpen : Bool) (r : Record) : Printed :=
  if logOpen then .record r else .nothing

/-- What `MQStart` reports: `CC` and `Reason` are those before the last check. -/
def initShown (s : ServiceState) (a : StartArgs) (qMgrName : Field 48)
    (componentDataLength : MQLONG) : Shown .INIT_AUTHORITY :=
  let (cc, _) := (s.markPrimary a.options).openLog a.canOpen
  let r := register a.MQZEP functions (cc, MQRC_NONE)
  .initfmt (fill 48 qMgrName.val) r.1 r.2 componentDataLength (BitVec.ofInt 32 a.options)

section

variable {τ : Type} [Fintype τ] [DecidableEq τ]

/-- A process with the module in it. -/
def oamlog : Machine (State τ) (Step τ) Printed where
  step s
    | .MQStart w a qMgrName componentDataLength =>
      if ∀ t, s.pending t = [] then
        let service := (Oamlog.MQStart s.service a).2
        let p := record service.logOpen
          ⟨w, .INIT_AUTHORITY, initShown s.service a qMgrName componentDataLength⟩
        some ({ s with service := service, file := p.after s.file }, p)
      else none
    | .OATerm w qMgrName options =>
      if ∀ t, s.pending t = [] then
        let p := record s.service.logOpen
          ⟨w, .TERM_AUTHORITY, .termfmt (fill 48 qMgrName.val) (BitVec.ofInt 32 options)⟩
        some ({ s with service := Oam.OATerm s.service options, file := p.after s.file }, p)
      else none
    | .call t w c =>
      if s.pending t = [] then
        (c.run s.service.logOpen).map fun
          | none => (s, .nothing)
          | some (x, later) =>
            let p := Printed.record ⟨w, c.function, x⟩
            ({ s with pending := Function.update s.pending t later, file := p.after s.file }, p)
      else none
    | .print t =>
      match s.pending t with
      | [] => none
      | line :: rest =>
        let p := Printed.line line
        some ({ s with pending := Function.update s.pending t rest, file := p.after s.file }, p)

end

/-! ### What has been printed -/

section

variable {τ : Type}

/-- A step of the process. -/
abbrev Event (τ : Type) := Machine.Event (State τ) (Step τ) Printed

/-- The records that have been printed. -/
def records (tr : List (Event τ)) : List Record :=
  tr.filterMap fun e ↦ e.output.record?

/-- The lines printed later. -/
def lines (tr : List (Event τ)) : List (List Item) :=
  tr.filterMap fun e ↦ e.output.line?

def pieces (tr : List (Event τ)) : List Piece :=
  tr.filterMap fun e ↦ e.output.piece?

theorem filterMap_entry?_pieces (tr : List (Event τ)) :
    (pieces tr).filterMap Piece.entry? = (records tr).map Record.entry := by
  rw [pieces, records, List.filterMap_filterMap, List.map_filterMap]
  refine List.filterMap_congr fun e _ ↦ ?_
  rcases e.output with - | r | l
  · rfl
  · rfl
  · rfl

theorem filterMap_detail?_pieces (tr : List (Event τ)) :
    (pieces tr).filterMap Piece.detail? = (lines tr).map print := by
  rw [pieces, lines, List.filterMap_filterMap, List.map_filterMap]
  refine List.filterMap_congr fun e _ ↦ ?_
  rcases e.output with - | r | l
  · rfl
  · rfl
  · rfl

theorem records_append (tr : List (Event τ)) (e : Event τ) :
    records (tr ++ [e]) = records tr ++ e.output.record?.toList :=
  Machine.filterMap_append_singleton ..

theorem lines_append (tr : List (Event τ)) (e : Event τ) :
    lines (tr ++ [e]) = lines tr ++ e.output.line?.toList :=
  Machine.filterMap_append_singleton ..

theorem pieces_append (tr : List (Event τ)) (e : Event τ) :
    pieces (tr ++ [e]) = pieces tr ++ e.output.piece?.toList :=
  Machine.filterMap_append_singleton ..

theorem records_ne_nil_of_append {tr : List (Event τ)} (h : records tr ≠ []) (e : Event τ) :
    records (tr ++ [e]) ≠ [] := by
  rw [records_append]
  exact List.append_ne_nil_of_left_ne_nil h _

/-- A piece that is not a line needs no record before it. -/
theorem headed_append {tr : List (Event τ)} (h : Headed (pieces tr)) {e : Event τ}
    (hline : e.output.line?.isSome → records tr ≠ []) : Headed (pieces (tr ++ [e])) := by
  rw [pieces_append]
  rcases houtput : e.output with - | r | line
  · rw [Printed.piece?, Option.toList_none, List.append_nil]
    exact h
  · exact h.append nofun
  · refine h.append fun _ ↦ ?_
    rw [filterMap_entry?_pieces]
    exact (mt List.map_eq_nil_iff.1 (hline (by rw [houtput]; rfl)))

theorem line?_record (logOpen : Bool) (r : Record) : (record logOpen r).line? = none := by
  cases logOpen <;> rfl

variable [DecidableEq τ]

/-- The line that the thread prints with a step. -/
def lineBy (t : τ) (e : Event τ) : Option (List Item) :=
  match e.input with
  | .print t' => if t' = t then e.output.line? else none
  | _ => none

/-- The lines that the thread has to print later, from a step that begins a call. -/
def laterBy (t : τ) (e : Event τ) : List (List Item) :=
  match e.input with
  | .call t' _ c =>
    if t' = t then ((c.run e.pre.service.logOpen).getD none).elim [] Prod.snd else []
  | _ => []

/-- The log is read as the records, each with some of the lines printed later under it. Those of a
thread are the lines of its calls, in their order, as far as it has come. -/
structure LogReads (file : Bytes) (tr : List (Event τ)) (s : State τ)
    (under : List (List Bytes)) : Prop where
  length_eq : under.length = (records tr).length
  flatten_eq : under.flatten = (lines tr).map print
  read_eq : readEntries s.file =
    readEntries file ++ withDetails ((records tr).map Record.entry) under
  lines_eq : ∀ t, tr.filterMap (lineBy t) ++ s.pending t = tr.flatMap (laterBy t)

/-! ### The lines printed later -/

theorem newline_notMem_attrStr (attr : MQLONG) :
    newline ∉ (fillRight 20 (OAAttrStr attr)).val := by
  have htexts : OAAttrStr attr ∈
      [lit "UserId Support", lit "Interface Version", lit "Unknown attribute"] := by
    rw [OAAttrStr, switch, List.lookup_cons, List.lookup_cons, List.lookup_nil]
    rcases attr == MQIACF_USER_ID_SUPPORT with - | -
    · rcases attr == MQIACF_INTERFACE_VERSION with - | -
      · simp
      · simp
    · simp
  have hplain : ∀ text ∈ [lit "UserId Support", lit "Interface Version", lit "Unknown attribute"],
      newline ∉ (fillRight 20 text).val := by decide +kernel
  exact hplain _ htexts

theorem newline_notMem_attrLine (attr val : MQLONG) : newline ∉ print (Call.attrLine attr val) := by
  have hblanks : newline ∉ List.replicate (4 - (toDecimal attr).length) (32 : UInt8) :=
    fun hmem ↦ absurd (List.eq_of_mem_replicate hmem) (by decide)
  have hformat : (format (Call.attrLine attr val)).all Directive.inLine = true := by
    simp only [Call.attrLine, fmt, format_cons, format_nil, Item.directive, Directive.inLine,
      hblanks, List.all_cons, List.all_nil, Bool.and_true, Bool.true_and, not_false_eq_true,
      decide_true]
    decide
  rw [newline_notMem_print_iff hformat]
  intro t ht
  obtain rfl := List.mem_singleton.1 ht
  exact newline_notMem_attrStr attr

theorem exists_of_mem_mapM {α β : Type} {f : α → Option β} {l : List α} {l' : List β}
    (h : l.mapM f = some l') {b : β} (hb : b ∈ l') : ∃ a ∈ l, f a = some b := by
  induction l generalizing l' with
  | nil =>
    rw [List.mapM_nil] at h
    obtain rfl := Option.some.inj h
    cases hb
  | cons a l ih =>
    rw [List.mapM_cons] at h
    obtain ⟨b', hb', h⟩ := Option.bind_eq_some_iff.1 h
    obtain ⟨bs, hbs, h⟩ := Option.bind_eq_some_iff.1 h
    obtain rfl := Option.some.inj h
    rcases List.mem_cons.1 hb with rfl | hb
    · exact ⟨a, List.mem_cons_self, hb'⟩
    · obtain ⟨a', ha', heq⟩ := ih hbs hb
      exact ⟨a', List.mem_cons_of_mem a ha', heq⟩

/-- The lines printed later are lines. -/
theorem newline_notMem_of_mem_later {c : Call} {later : List (List Item)}
    (h : c.later = some later) : ∀ line ∈ later, newline ∉ print line := by
  have hunknown : ∀ x, ∀ line ∈ Call.unknownLines x, newline ∉ print line := by
    intro x line hline
    rw [Call.unknownLines] at hline
    split_ifs at hline
    · obtain rfl := List.mem_singleton.1 hline
      rw [newline_notMem_print_iff (by simp [Directive.inLine]; decide)]
      exact fun _ hnone ↦ by cases hnone
    · cases hline
  cases c with
  -- one line at most, for the bits that have no name
  | OASetAuth a x | OACheckAuth a x =>
    obtain rfl := Option.some.inj h
    exact hunknown x
  | OAEnumAuth a =>
    obtain rfl := Option.some.inj h
    exact hunknown _
  -- one line for each selector, or one that says that there are none
  | OAInquire selectorCount pSelectors pIntAttrs =>
    rw [Call.later] at h
    split_ifs at h
    · obtain rfl := Option.some.inj h
      rw [List.forall_mem_singleton, newline_notMem_print_iff (by simp [Directive.inLine]; decide)]
      exact fun _ hnone ↦ by cases hnone
    · intro line hline
      obtain ⟨i, -, hi⟩ := exists_of_mem_mapM h hline
      obtain ⟨attr, -, hi⟩ := Option.bind_eq_some_iff.1 hi
      obtain ⟨val, -, hi⟩ := Option.bind_eq_some_iff.1 hi
      obtain rfl := Option.some.inj hi
      exact newline_notMem_attrLine attr val
  | _ =>
    obtain rfl := Option.some.inj h
    exact fun _ hnone ↦ by cases hnone

theorem later_of_run {logOpen : Bool} {c : Call} {x : Shown c.function} {later : List (List Item)}
    (h : c.run logOpen = some (some (x, later))) : c.later = some later := by
  rw [Call.run] at h
  split_ifs at h
  · cases h
  · obtain ⟨x', -, h⟩ := Option.bind_eq_some_iff.1 h
    obtain ⟨later', hlater, h⟩ := Option.bind_eq_some_iff.1 h
    cases h
    exact hlater
  · obtain ⟨x', -, h⟩ := Option.bind_eq_some_iff.1 h
    obtain ⟨later', -, h⟩ := Option.bind_eq_some_iff.1 h
    cases h

/-! ### One step -/

/-- What a step does to what the threads have still to print. -/
inductive Effect (e : Event τ) : Prop
  | other (line : e.output.line? = none) (pending : e.post.pending = e.pre.pending)
      (later : ∀ t, laterBy t e = []) (printed : ∀ t, lineBy t e = none)
  | begins (t : τ) (r : Record) (lines : List (List Item)) (idle : e.pre.pending t = [])
      (output : e.output = .record r)
      (pending : e.post.pending = Function.update e.pre.pending t lines)
      (plain : ∀ line ∈ lines, newline ∉ print line)
      (later : ∀ t', laterBy t' e = if t = t' then lines else [])
      (printed : ∀ t, lineBy t e = none)
  | prints (t : τ) (line : List Item) (rest : List (List Item))
      (next : e.pre.pending t = line :: rest) (output : e.output = .line line)
      (pending : e.post.pending = Function.update e.pre.pending t rest)
      (later : ∀ t', laterBy t' e = [])
      (printed : ∀ t', lineBy t' e = if t = t' then some line else none)

/-! ### Runs -/

/-- What holds of the file and of the lines still to print. -/
structure Printing (file : Bytes) (tr : List (Event τ)) (s : State τ) : Prop where
  file_eq : s.file = file ++ (pieces tr).flatMap Piece.text
  headed : Headed (pieces tr)
  /-- A line is printed behind the record of its call. -/
  pending_headed : ∀ t, s.pending t ≠ [] → records tr ≠ []
  pending_plain : ∀ t, ∀ line ∈ s.pending t, newline ∉ print line
  plain : ∀ line ∈ lines tr, newline ∉ print line
  lines_eq : ∀ t, tr.filterMap (lineBy t) ++ s.pending t = tr.flatMap (laterBy t)

theorem printing_start (file : Bytes) : Printing (τ := τ) file [] (.start file) :=
  ⟨(List.append_nil file).symm, headed_nil, fun _ h ↦ absurd rfl h, fun _ _ ↦ nofun,
    fun _ ↦ nofun, fun _ ↦ rfl⟩

theorem Printing.file_append {file : Bytes} {tr : List (Event τ)} {e : Event τ}
    (h : Printing file tr e.pre) (hfile : e.post.file = e.output.after e.pre.file) :
    e.post.file = file ++ (pieces (tr ++ [e])).flatMap Piece.text := by
  rw [hfile, Printed.after, h.file_eq, pieces_append, List.flatMap_append, List.append_assoc]

/-- What a thread has printed and what it has still to print, one step later. -/
theorem Printing.lines_eq_append {file : Bytes} {tr : List (Event τ)} {e : Event τ}
    (h : Printing file tr e.pre) {t : τ}
    (hnext : (lineBy t e).toList ++ e.post.pending t = e.pre.pending t ++ laterBy t e) :
    (tr ++ [e]).filterMap (lineBy t) ++ e.post.pending t = (tr ++ [e]).flatMap (laterBy t) := by
  rw [Machine.filterMap_append_singleton, List.flatMap_append, List.flatMap_singleton,
    ← h.lines_eq t, List.append_assoc, List.append_assoc, hnext]

/-- Each effect keeps it. -/
theorem Printing.step {file : Bytes} {tr : List (Event τ)} {e : Event τ}
    (h : Printing file tr e.pre) (hfile : e.post.file = e.output.after e.pre.file)
    (heffect : Effect e) : Printing file (tr ++ [e]) e.post := by
  cases heffect with
  -- a record of the service itself, or nothing: no call begins, and none prints a later line
  | other line pending later printed =>
    refine ⟨h.file_append hfile, headed_append h.headed fun hsome ↦ ?_, ?_, ?_, ?_, ?_⟩
    · rw [line] at hsome
      cases hsome
    · rw [pending]
      exact fun t ht ↦ records_ne_nil_of_append (h.pending_headed t ht) e
    · rw [pending]
      exact h.pending_plain
    · rw [lines_append, line, Option.toList_none, List.append_nil]
      exact h.plain
    · intro t
      refine h.lines_eq_append ?_
      rw [printed t, pending, later t, Option.toList_none, List.nil_append, List.append_nil]
  -- a call begins: its record is in the file, and its later lines wait
  | begins t r lines idle output pending plain later printed =>
    have hline : e.output.line? = none := by rw [output]; rfl
    refine ⟨h.file_append hfile, headed_append h.headed fun hsome ↦ ?_, ?_, ?_, ?_, ?_⟩
    · rw [hline] at hsome
      cases hsome
    · intro t' _
      rw [records_append, output]
      exact List.append_ne_nil_of_right_ne_nil _ (List.cons_ne_nil r [])
    · rw [pending]
      intro t'
      rw [Function.update_apply]
      split_ifs
      · exact plain
      · exact h.pending_plain t'
    · rw [lines_append, hline, Option.toList_none, List.append_nil]
      exact h.plain
    · intro t'
      refine h.lines_eq_append ?_
      rw [printed t', pending, later t', Option.toList_none, List.nil_append]
      rcases eq_or_ne t' t with rfl | hne
      · rw [Function.update_self, if_pos rfl, idle, List.nil_append]
      · rw [Function.update_of_ne hne, if_neg hne.symm, List.append_nil]
  -- a line of a call that has begun: it goes under the last record, whoever printed that
  | prints t line rest next output pending later printed =>
    have hpending : e.pre.pending t ≠ [] := next ▸ List.cons_ne_nil line rest
    have hplain := h.pending_plain t
    rw [next, List.forall_mem_cons] at hplain
    refine ⟨h.file_append hfile, headed_append h.headed fun _ ↦ h.pending_headed t hpending,
      fun _ _ ↦ records_ne_nil_of_append (h.pending_headed t hpending) e, ?_, ?_, ?_⟩
    · rw [pending]
      intro t'
      rw [Function.update_apply]
      split_ifs
      · exact hplain.2
      · exact h.pending_plain t'
    · rw [lines_append, output]
      exact List.forall_mem_append.2 ⟨h.plain, List.forall_mem_singleton.2 hplain.1⟩
    · intro t'
      refine h.lines_eq_append ?_
      rw [printed t', pending, later t', List.append_nil]
      rcases eq_or_ne t' t with rfl | hne
      · rw [Function.update_self, if_pos rfl, next]
        rfl
      · rw [Function.update_of_ne hne, if_neg hne.symm, Option.toList_none, List.nil_append]

/-- What is read of the log, in the terms of what is printed. -/
theorem Printing.logReads_iff {file : Bytes} {tr : List (Event τ)} {s : State τ}
    (h : Printing file tr s) (under : List (List Bytes)) :
    LogReads file tr s under ↔ ReadAs file (pieces tr) under := by
  constructor
  · rintro ⟨hlength, hflatten, hread, -⟩
    refine ⟨?_, ?_, ?_⟩
    · rw [filterMap_entry?_pieces, List.length_map, hlength]
    · rw [filterMap_detail?_pieces, hflatten]
    · rw [filterMap_entry?_pieces, ← h.file_eq, hread]
  · rintro ⟨hlength, hflatten, hread⟩
    rw [filterMap_entry?_pieces] at hlength hread
    rw [filterMap_detail?_pieces] at hflatten
    exact ⟨by rw [hlength, List.length_map], hflatten, by rw [h.file_eq, hread], h.lines_eq⟩

variable [Fintype τ]

/-- **One step** prints to the file, and has one of three effects. -/
theorem step_effect {s s' : State τ} {i : Step τ} {p : Printed}
    (h : oamlog.step s i = some (s', p)) :
    s'.file = p.after s.file ∧ Effect ⟨s, i, p, s'⟩ := by
  cases i with
  | MQStart w a qMgrName componentDataLength =>
    simp only [oamlog] at h
    split_ifs at h
    obtain ⟨rfl, rfl⟩ := Prod.mk.inj (Option.some.inj h)
    exact ⟨rfl, .other (line?_record _ _) rfl (fun _ ↦ rfl) fun _ ↦ rfl⟩
  | OATerm w qMgrName options =>
    simp only [oamlog] at h
    split_ifs at h
    obtain ⟨rfl, rfl⟩ := Prod.mk.inj (Option.some.inj h)
    exact ⟨rfl, .other (line?_record _ _) rfl (fun _ ↦ rfl) fun _ ↦ rfl⟩
  | call t w c =>
    simp only [oamlog] at h
    split_ifs at h with hidle
    obtain ⟨outcome, hrun, heq⟩ := Option.map_eq_some_iff.1 h
    -- without a log the call prints nothing, now or later
    rcases outcome with - | ⟨x, later⟩
    · obtain ⟨rfl, rfl⟩ := Prod.mk.inj heq
      refine ⟨(List.append_nil _).symm, .other rfl rfl (fun t' ↦ ?_) fun _ ↦ rfl⟩
      simp [laterBy, hrun]
    · obtain ⟨rfl, rfl⟩ := Prod.mk.inj heq
      refine ⟨rfl, .begins t _ later hidle rfl rfl (newline_notMem_of_mem_later (later_of_run hrun))
        (fun t' ↦ ?_) fun _ ↦ rfl⟩
      simp [laterBy, hrun]
  | print t =>
    simp only [oamlog] at h
    rcases hnext : s.pending t with - | ⟨line, rest⟩
    · rw [hnext] at h
      cases h
    · rw [hnext] at h
      obtain ⟨rfl, rfl⟩ := Prod.mk.inj (Option.some.inj h)
      exact ⟨rfl, .prints t line rest hnext rfl rfl (fun _ ↦ rfl) fun _ ↦ rfl⟩

theorem printing_of_run {file : Bytes} {tr : List (Event τ)} {s : State τ}
    (h : oamlog.Run (.start file) tr s) : Printing file tr s :=
  h.invariant (printing_start file) fun _ _ _ _ _ hprinting hs ↦
    hprinting.step (step_effect hs).1 (step_effect hs).2

/-- What is read are the records, in their order, exactly if no text has a newline. -/
theorem exists_logReads_iff {file : Bytes} (hfile : Ended file) {tr : List (Event τ)} {s : State τ}
    (h : oamlog.Run (.start file) tr s) :
    (∃ under, LogReads file tr s under) ↔ ∀ r ∈ records tr, r.Plain := by
  have hprinting := printing_of_run h
  have hdetails : ∀ detail ∈ (pieces tr).filterMap Piece.detail?, newline ∉ detail := by
    rw [filterMap_detail?_pieces, List.forall_mem_map]
    exact hprinting.plain
  rw [exists_congr hprinting.logReads_iff, exists_readAs_iff hfile hprinting.headed hdetails,
    filterMap_entry?_pieces, List.forall_mem_map]
  exact forall₂_congr fun r _ ↦ whole_entry_iff r

/-- A thread that has printed all of its last call can make any call that is defined. -/
theorem isSome_step_call_iff {s : State τ} {t : τ} (hidle : s.pending t = []) (version : MQLONG)
    (w : Stamp) (c : Call) : (oamlog.step s (.call t w c)).isSome ↔
      (Oamlog.call version s.service c.mem c.request).isSome ∧ c.Covered := by
  rw [← isSome_run_iff]
  simp only [oamlog, if_pos hidle, Option.isSome_map]

/-- **Reading the log**: it is read as the records, in their order, exactly if no text has a
newline. No call is left out of this: each that is defined for its memory can be made. -/
theorem log_reads_iff {file : Bytes} (hfile : Ended file) {tr : List (Event τ)} {s : State τ}
    (h : oamlog.Run (.start file) tr s) :
    ((∃ under, LogReads file tr s under) ↔ ∀ r ∈ records tr, r.Plain) ∧
      ∀ t, s.pending t = [] → ∀ version w c, (oamlog.step s (.call t w c)).isSome ↔
        (Oamlog.call version s.service c.mem c.request).isSome ∧ c.Covered :=
  ⟨exists_logReads_iff hfile h, fun _ hidle version w c ↦ isSome_step_call_iff hidle version w c⟩

end

/-- **Two logs that are alike** come from calls that are alike: in two runs without newlines in
their texts, whatever their threads, the same records have been printed in the same order. -/
theorem records_eq_of_file_eq {τ τ' : Type} [Fintype τ] [DecidableEq τ] [Fintype τ']
    [DecidableEq τ'] {file : Bytes} (hfile : Ended file) {tr : List (Event τ)} {s : State τ}
    {tr' : List (Event τ')} {s' : State τ'} (h : oamlog.Run (.start file) tr s)
    (h' : oamlog.Run (.start file) tr' s') (hplain : ∀ r ∈ records tr, r.Plain)
    (hplain' : ∀ r ∈ records tr', r.Plain) (heq : s.file = s'.file) :
    records tr = records tr' := by
  obtain ⟨under, hunder⟩ := (exists_logReads_iff hfile h).2 hplain
  obtain ⟨under', hunder'⟩ := (exists_logReads_iff hfile h').2 hplain'
  have hprinting := printing_of_run h
  have hprinting' := printing_of_run h'
  refine ReadAs.eq_of_text_eq leftUnique_begins (filterMap_entry?_pieces tr)
    (filterMap_entry?_pieces tr') ((hprinting.logReads_iff under).1 hunder)
    ((hprinting'.logReads_iff under').1 hunder') ?_
  rw [← hprinting.file_eq, ← hprinting'.file_eq, heq]

/-! ### Two threads -/

/-- A stamp of the thread. -/
def stampOf (tid : ℕ) : Stamp :=
  ⟨7, tid, .pad 24 32 (lit "Mon Jan  1 00:00:00 2024")⟩

/-- An application asks for a queue, and for a bit that the module does not know. -/
def appArgs : EntityArgs where
  mem := lit "app         " ++ [0]
  pEntityData := some ⟨some 0⟩
  entityType := MQZAET_PRINCIPAL
  pObjectName := .pad 48 32 (lit "ORDERS")
  objectType := MQOT_Q

/-- The second thread comes between the record and the last line of the first. -/
def twoThreadSteps (first second : Bool) : List (Step Bool) :=
  [.MQStart (stampOf 1) ⟨MQZIO_PRIMARY, true, fun _ ↦ (.OK, MQRC_NONE)⟩ (.pad 48 32 (lit "QM1")) 0,
   .call first (stampOf 2) (.OACheckAuth appArgs 0x80000008),
   .call second (stampOf 3) (.OADeleteAuth (.pad 48 32 (lit "ORDERS")) MQOT_Q),
   .print first,
   .OATerm (stampOf 1) (.pad 48 32 (lit "QM1")) MQZTO_PRIMARY]

def twoThreads (first second : Bool) : List (Event Bool) × State Bool :=
  (oamlog.replay (.start []) (twoThreadSteps first second)).getD ([], .start [])

theorem run_twoThreads :
    oamlog.Run (.start []) (twoThreads false true).1 (twoThreads false true).2 :=
  Machine.run_getD_replay (by decide +kernel)

theorem run_twoThreads_other :
    oamlog.Run (.start []) (twoThreads true false).1 (twoThreads true false).2 :=
  Machine.run_getD_replay (by decide +kernel)

/-- At the end the first thread can make its call again. -/
theorem log_reads_iff_twoThreads :
    ((∃ under, LogReads [] (twoThreads false true).1 (twoThreads false true).2 under) ↔
      ∀ r ∈ records (twoThreads false true).1, r.Plain) ∧
    ((oamlog.step (twoThreads false true).2
        (.call false (stampOf 2) (.OACheckAuth appArgs 0x80000008))).isSome ↔
      (Oamlog.call 0 (twoThreads false true).2.service appArgs.mem
        (.OACheckAuth appArgs.pEntityData 0x80000008)).isSome ∧
          (Call.OACheckAuth appArgs 0x80000008).Covered) := by
  obtain ⟨hreads, hcalls⟩ := log_reads_iff (.inl rfl) run_twoThreads
  exact ⟨hreads, hcalls false (by decide +kernel) 0 (stampOf 2) (.OACheckAuth appArgs 0x80000008)⟩

theorem records_eq_of_file_eq_twoThreads :
    records (twoThreads false true).1 = records (twoThreads true false).1 :=
  records_eq_of_file_eq (.inl rfl) run_twoThreads run_twoThreads_other (by decide +kernel)
    (by decide +kernel) (by decide +kernel)

end MqExits.Oam.Oamlog.Log
