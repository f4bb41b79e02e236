import MqExits.Runs.Machine
import MqExits.Xlbl.CertificateLabel

/-!
# The certificate label exit over its calls

`ChlExit` keeps the head of its list in `ExitUserArea`, from one call to the next: MQXR_INIT reads
the list, each MQXR_AUTO_CLUSSDR evaluates it, MQXR_TERM frees it. In a run in which no MQXR_INIT
comes without an MQXR_TERM after the one before it, the list found by each call is the one that the
latest MQXR_INIT has read, or empty (`chlExit_run`).

Two invariants carry this: the nodes in memory are those of the list, and no others (`InList`), and
the memory accounts for what was allocated and freed. A call that reads a null pointer or a node
that is not there has no step, so that every order of such calls has a run says that no call does.

## Runs that exist

A statement about all runs would be true of a machine that has none. So `chlExit_run` begins with a
run for every such order of calls, and the step lemma is one of existence: whatever the call, if it
is allowed, there is a step and it serves the call (`exists_stepServes`). As the machine is a
function of its input, the run is the only one, and what is known of its states is known of all.

The condition is on the order of the reasons, which is up to MQ. An MQXR_INIT that came a second
time would find the list of the first one in the area.
-/

namespace MqExits.Xlbl

open CText Ledger Machine NodeHeap Outcome

/-! ### The exit -/

def MQCD_VERSION_11 : MQLONG := 11

/-- `freeMapList`, with the entries that it frees. -/
def freeMapList (data : XlblData) : Except Fault (XlblData × List ℕ) := do
  let (heap, freed) ← data.heap.freeAll data.heap.top data.pMapList
  return ({ heap := heap, pMapList := none }, freed)

/-- The MQCD of a cluster sender channel, with the cluster names that it points to. -/
structure ClusterSender where
  cd : MQCD
  names : List (Field 48)
  clusters : cd.HasClusters names

/-- A call of the exit, by its reason. -/
inductive ChlExitCall
  | INIT (configFile : ConfigFile)
  | AUTO_CLUSRCVR
  | AUTO_RECEIVER
  | AUTO_SVRCONN
  | AUTO_CLUSSDR (channel : ClusterSender)
  | TERM
  | other

/-- `ExitResponse`. -/
inductive MQXCC
  | OK
  | SUPPRESS_FUNCTION
  deriving DecidableEq, Repr

/-- What a call sets, and the entries that it allocates and frees. -/
structure ChlExitResult where
  exitResponse : MQXCC
  /-- `Feedback`, if it is set. -/
  feedback : Option MQRC := none
  /-- The MQCD of an MQXR_AUTO_CLUSSDR call, as it is left. -/
  channelDefinition : Option MQCD := none
  ops : List (Op ℕ) := []

/-- The end of `ChlExit`. -/
def response (rc : ℕ) : MQXCC :=
  if rc ≠ 0 then .SUPPRESS_FUNCTION else .OK

/-- The entries that lie in the later of two heaps past the end of the earlier. -/
def allocations (old new : Heap XLBLMAPENTRY) : List (Op ℕ) :=
  (List.range' old.top (new.top - old.top)).map .acquire

/-- `ChlExit`. The return code starts as 1. -/
def chlExit (data : XlblData) : ChlExitCall → Except Fault (XlblData × ChlExitResult)
  | .INIT configFile => do
    let (data', rc) ← readConfigFile data configFile
    return (data', {
      exitResponse := response rc
      feedback := if rc ≠ 0 then some rc else none
      ops := allocations data.heap data'.heap })
  | .AUTO_CLUSRCVR => .ok (data, { exitResponse := response 0 })
  | .AUTO_RECEIVER => .ok (data, { exitResponse := response 0 })
  | .AUTO_SVRCONN => .ok (data, { exitResponse := response 0 })
  | .AUTO_CLUSSDR channel =>
    if channel.cd.version < MQCD_VERSION_11 then
      .ok (data, { exitResponse := response 1, channelDefinition := some channel.cd })
    else do
      let (_, cd) ← evalMapList data channel.cd
      return (data, { exitResponse := response 0, channelDefinition := some cd })
  | .TERM => do
    let (data, freed) ← freeMapList data
    return ({ data with pMapList := none }, {
      exitResponse := response 0
      ops := freed.map .release })
  | .other => .ok (data, { exitResponse := response 1 })

/-- The exit as a machine. A call that is a fault has no step. -/
def exit : Machine XlblData ChlExitCall ChlExitResult where
  step data call := (chlExit data call).toOption

/-- `ExitUserArea` is zero, and nothing is allocated. -/
def XlblData.start : XlblData where
  heap := Heap.empty
  pMapList := none

theorem step_of_eq_ok {data : XlblData} {call : ChlExitCall} {r : XlblData × ChlExitResult}
    (h : chlExit data call = .ok r) : exit.step data call = some (r.1, r.2) := by
  show (chlExit data call).toOption = _
  rw [h]
  rfl

/-! ### The list that a call should find -/

/-- The entries that a configuration has. -/
def ConfigFile.entries : ConfigFile → List XLBLMAPENTRY
  | .unset => []
  | .unreadable => []
  | .opened contents => fileEntries contents

/-- The configuration that a call leaves loaded; `none` for a call that does not touch it. -/
def ChlExitCall.load : ChlExitCall → Option (Option ConfigFile)
  | .INIT configFile => some (some configFile)
  | .TERM => some none
  | _ => none

/-- The configuration of the latest MQXR_INIT, unless MQXR_TERM came after it. -/
def loaded (calls : List ChlExitCall) : Option ConfigFile :=
  (latest ChlExitCall.load calls).join

/-- The entries parsed at the latest MQXR_INIT; none after MQXR_TERM, or when it failed. -/
def parsed (calls : List ChlExitCall) : List XLBLMAPENTRY :=
  ((loaded calls).map ConfigFile.entries).getD []

/-- An MQXR_INIT comes only when there was none before it, or an MQXR_TERM since. -/
def InitAllowed (before : List ChlExitCall) (call : ChlExitCall) : Prop :=
  ∀ configFile, call = .INIT configFile → loaded before = none

/-- No MQXR_INIT is repeated without an MQXR_TERM between. -/
def InitsApart (calls : List ChlExitCall) : Prop :=
  ∀ before call after, calls = before ++ call :: after → InitAllowed before call

theorem loaded_append_singleton (calls : List ChlExitCall) (call : ChlExitCall) :
    loaded (calls ++ [call]) = (call.load.or (latest ChlExitCall.load calls)).join := by
  rw [loaded, latest_append_singleton]

theorem parsed_append_init (calls : List ChlExitCall) (configFile : ConfigFile) :
    parsed (calls ++ [.INIT configFile]) = configFile.entries := by
  rw [parsed, loaded_append_singleton]
  rfl

theorem parsed_append_term (calls : List ChlExitCall) : parsed (calls ++ [.TERM]) = [] := by
  rw [parsed, loaded_append_singleton]
  rfl

theorem parsed_append_of_load_eq_none {call : ChlExitCall} (hcall : call.load = none)
    (calls : List ChlExitCall) : parsed (calls ++ [call]) = parsed calls := by
  rw [parsed, loaded_append_singleton, hcall, Option.none_or, parsed, loaded]

theorem parsed_of_loaded_eq_none {calls : List ChlExitCall} (h : loaded calls = none) :
    parsed calls = [] := by
  rw [parsed, h]
  rfl

/-- The list in memory holds these entries, and there are no other nodes. -/
def InList (data : XlblData) (entries : List XLBLMAPENTRY) : Prop :=
  ∃ l : List (ℕ × XLBLMAPENTRY), Chain data.heap data.pMapList l ∧ l.map Prod.snd = entries ∧
    ∀ a, data.heap.live a = true → a ∈ l.map Prod.fst

theorem inList_start : InList .start [] :=
  ⟨[], .nil _, rfl, fun a ha ↦ by cases ha⟩

/-- An empty list has no head, and nothing is in memory. -/
theorem InList.of_nil {data : XlblData} (h : InList data []) :
    data.pMapList = none ∧ ∀ a, data.heap.live a = false := by
  obtain ⟨l, hchain, hl, hlive⟩ := h
  obtain rfl : l = [] := List.map_eq_nil_iff.1 hl
  refine ⟨hchain.eq_none_iff.2 rfl, fun a ↦ ?_⟩
  rw [Bool.eq_false_iff]
  exact fun ha ↦ absurd (hlive a ha) List.not_mem_nil

/-! ### What each call does -/

theorem addEntry_accounts {s s' : ReadState} {entry : XLBLMAPENTRY} {ops : List (Op ℕ)}
    (hadd : addEntry s entry = .ok s') (hops : s.data.heap.Accounts ops) :
    s'.data.heap.Accounts (ops ++ [.acquire s.data.heap.top]) ∧
      s'.data.heap.top = s.data.heap.top + 1 := by
  have halloc := hops.alloc entry
  rw [addEntry] at hadd
  cases hhead : s.data.pMapList with
  | none =>
    simp only [hhead] at hadd
    obtain rfl := Except.ok.inj hadd
    exact ⟨halloc, rfl⟩
  | some head =>
    simp only [hhead] at hadd
    obtain ⟨heap, hset, hs'⟩ := bind_eq_ok.1 hadd
    obtain rfl := Except.ok.inj hs'
    exact halloc.setNext hset

/-- **Reading a configuration** into an empty memory leaves its entries there, and no other nodes;
each has been allocated. -/
theorem readConfigFile_inList {data : XlblData} (hdata : InList data []) {ops : List (Op ℕ)}
    (hops : data.heap.Accounts ops) (configFile : ConfigFile) :
    ∃ data' rc, readConfigFile data configFile = .ok (data', rc) ∧
      InList data' configFile.entries ∧
      data'.heap.Accounts (ops ++ allocations data.heap data'.heap) := by
  have hnothing : allocations data.heap data.heap = [] := by
    rw [allocations, Nat.sub_self]
    rfl
  cases configFile with
  | unset => exact ⟨data, _, rfl, hdata, by rwa [hnothing, List.append_nil]⟩
  | unreadable => exact ⟨data, _, rfl, hdata, by rwa [hnothing, List.append_nil]⟩
  | opened contents =>
    obtain ⟨hnull, hdead⟩ := hdata.of_nil
    -- the loop keeps the list of what it has added, and an account of it
    let I : List XLBLMAPENTRY → ReadState → Prop := fun entries s ↦
      Holds s entries ∧ s.data.heap.top = data.heap.top + entries.length ∧
        s.data.heap.Accounts
          (ops ++ (List.range' data.heap.top entries.length).map .acquire)
    have hI : LoopInvariant I := by
      refine ⟨fun {entries s} h entry ↦ ?_, fun h _ ↦ h⟩
      obtain ⟨hholds, htop, hacc⟩ := h
      obtain ⟨s', hadd, hholds'⟩ := addEntry_ok hholds entry
      obtain ⟨hacc', htop'⟩ := addEntry_accounts hadd hacc
      refine ⟨s', hadd, hholds', ?_, ?_⟩
      · rw [htop', htop, List.length_append, List.length_singleton, Nat.add_assoc]
      · rw [List.length_append, List.length_singleton, List.range'_concat, List.map_append,
          ← List.append_assoc, Nat.one_mul, ← htop]
        exact hacc'
    have hstart : I [] ⟨data, none, List.replicate CONFIG_BUFFER_SIZE 0⟩ := by
      refine ⟨⟨[], by rw [hnull]; exact .nil _, rfl, rfl⟩, rfl, ?_⟩
      show data.heap.Accounts (ops ++ [])
      rwa [List.append_nil]
    obtain ⟨s, hloop, hs⟩ := readLoop_rule hI (Nat.lt_succ_self _) le_rfl hstart
    rw [List.nil_append] at hs
    obtain ⟨⟨l, hchain, hl, -⟩, htop, hacc⟩ := hs
    have hlen : l.length = (fileEntries contents).length := by
      rw [← List.length_map, hl]
      rfl
    have hallocs : allocations data.heap s.data.heap =
        (List.range' data.heap.top (fileEntries contents).length).map .acquire := by
      rw [allocations, htop, Nat.add_sub_cancel_left]
      rfl
    refine ⟨s.data, 0, ?_, ⟨l, hchain, hl, fun a ha ↦ ?_⟩, by rw [hallocs]; exact hacc⟩
    · simp only [readConfigFile, hloop, bind, Except.bind]
      rfl
    · -- what was allocated before has been freed, so the nodes there are those just added
      refine hchain.mem_of_live (n := data.heap.top) (fun b hb ↦ ?_) ha
      obtain ⟨hlt, hkept⟩ := hacc.kept hb
      rw [List.count_append] at hkept
      have hreleased := hops.released hdead b
      rw [hops.acquired] at hreleased
      refine ⟨?_, by rw [hlen]; exact htop ▸ hlt⟩
      by_contra hbelow
      rw [if_pos (not_le.1 hbelow)] at hreleased
      omega

/-- **Freeing the list** leaves nothing in memory, and each node is freed once. -/
theorem freeMapList_inList {data : XlblData} {entries : List XLBLMAPENTRY}
    (hdata : InList data entries) {ops : List (Op ℕ)} (hops : data.heap.Accounts ops) :
    ∃ data' freed, freeMapList data = .ok (data', freed) ∧ data'.pMapList = none ∧
      InList data' [] ∧ data'.heap.Accounts (ops ++ freed.map .release) := by
  obtain ⟨l, hchain, -, hlive⟩ := hdata
  obtain ⟨heap, hfree, hlive', hops'⟩ := freeAll_chain hchain hchain.length_le hops
  refine ⟨⟨heap, none⟩, l.map Prod.fst, ?_, rfl, ⟨[], .nil heap, rfl, fun a ha ↦ ?_⟩, hops'⟩
  · simp only [freeMapList, hfree, bind, Except.bind]
    rfl
  · obtain ⟨ha, hmem⟩ := (hlive' a).1 ha
    exact absurd (hlive a ha) hmem

/-- The MQCD that evaluating a list leaves: with the label of the first entry that matches. -/
def labelled (channel : ClusterSender) (entries : List XLBLMAPENTRY) : MQCD :=
  match entries.find? (entryMatches channel.cd channel.names) with
  | none => channel.cd
  | some entry => { channel.cd with certificateLabel := entry.certificateLabel }

theorem evalMapList_inList {data : XlblData} {entries : List XLBLMAPENTRY}
    (hdata : InList data entries) (channel : ClusterSender) :
    ∃ found, evalMapList data channel.cd = .ok (found, labelled channel entries) := by
  obtain ⟨l, hchain, rfl, -⟩ := hdata
  rw [evalMapList_eq hchain channel.clusters, labelled]
  cases (l.map Prod.snd).find? (entryMatches channel.cd channel.names) with
  | none => exact ⟨false, rfl⟩
  | some entry => exact ⟨true, rfl⟩

/-! ### Runs -/

/-- The entries that a run has allocated and freed. -/
def ledger (tr : List (Event XlblData ChlExitCall ChlExitResult)) : List (Op ℕ) :=
  tr.flatMap fun e ↦ e.output.ops

theorem ledger_append_singleton (tr : List (Event XlblData ChlExitCall ChlExitResult))
    (e : Event XlblData ChlExitCall ChlExitResult) :
    ledger (tr ++ [e]) = ledger tr ++ e.output.ops := by
  rw [ledger, List.flatMap_append, List.flatMap_singleton, ledger]

/-- What a call does, after the calls before it. -/
structure ServesLatest (before : List (Event XlblData ChlExitCall ChlExitResult))
    (e : Event XlblData ChlExitCall ChlExitResult) : Prop where
  /-- The list that it finds is the one of the latest MQXR_INIT. -/
  list : InList e.pre (parsed (before.map Event.input))
  /-- An MQXR_AUTO_CLUSSDR call takes the label from that list. -/
  label : ∀ channel, e.input = .AUTO_CLUSSDR channel → MQCD_VERSION_11 ≤ channel.cd.version →
    e.output.channelDefinition = some (labelled channel (parsed (before.map Event.input)))
  /-- A call for another reason leaves the list alone. -/
  unchanged : e.input.load = none → e.post = e.pre ∧ e.output.ops = []
  /-- The list left is the one for the next call. -/
  left : InList e.post (parsed ((before ++ [e]).map Event.input))
  /-- Nothing is freed that is not there. -/
  disciplined : Disciplined (ledger (before ++ [e]))
  /-- No entry is allocated twice. -/
  once : ∀ a, (ledger (before ++ [e])).count (.acquire a) ≤ 1
  /-- After MQXR_TERM each entry allocated so far has been freed as often. -/
  freed : e.input = .TERM → ∀ a,
    (ledger (before ++ [e])).count (.release a) = (ledger (before ++ [e])).count (.acquire a)

/-- What one call does, in a state with the list that it should find. -/
structure StepServes (calls : List ChlExitCall) (ops : List (Op ℕ)) (data : XlblData)
    (call : ChlExitCall) (data' : XlblData) (r : ChlExitResult) : Prop where
  step : chlExit data call = .ok (data', r)
  left : InList data' (parsed (calls ++ [call]))
  accounts : data'.heap.Accounts (ops ++ r.ops)
  unchanged : call.load = none → data' = data ∧ r.ops = []
  label : ∀ channel, call = .AUTO_CLUSSDR channel → MQCD_VERSION_11 ≤ channel.cd.version →
    r.channelDefinition = some (labelled channel (parsed calls))

/-- A call that only reads. -/
theorem stepServes_of_load_eq_none {calls : List ChlExitCall} {ops : List (Op ℕ)} {data : XlblData}
    (hlist : InList data (parsed calls)) (hops : data.heap.Accounts ops) {call : ChlExitCall}
    (hcall : call.load = none) {r : ChlExitResult} (hstep : chlExit data call = .ok (data, r))
    (hr : r.ops = [])
    (hlabel : ∀ channel, call = .AUTO_CLUSSDR channel → MQCD_VERSION_11 ≤ channel.cd.version →
      r.channelDefinition = some (labelled channel (parsed calls))) :
    StepServes calls ops data call data r where
  step := hstep
  left := by rwa [parsed_append_of_load_eq_none hcall]
  accounts := by rwa [hr, List.append_nil]
  unchanged _ := ⟨rfl, hr⟩
  label := hlabel

/-- **The step lemma.** Only an MQXR_INIT needs that nothing is loaded. -/
theorem exists_stepServes {calls : List ChlExitCall} {ops : List (Op ℕ)} {data : XlblData}
    (hlist : InList data (parsed calls)) (hops : data.heap.Accounts ops) {call : ChlExitCall}
    (hcall : InitAllowed calls call) :
    ∃ data' r, StepServes calls ops data call data' r := by
  -- The calls that only give a reply.
  have hidle : ∀ call : ChlExitCall, call.load = none →
      (∀ channel, call ≠ .AUTO_CLUSSDR channel) →
      ∀ rc, chlExit data call = .ok (data, { exitResponse := response rc }) →
        ∃ data' r, StepServes calls ops data call data' r := fun call hload hne rc hstep ↦
    ⟨data, _, stepServes_of_load_eq_none hlist hops hload hstep rfl fun channel h ↦
      absurd h (hne channel)⟩
  cases call with
  | INIT configFile =>
    -- Nothing is loaded, so the list that is read is the whole list.
    rw [parsed_of_loaded_eq_none (hcall configFile rfl)] at hlist
    obtain ⟨data', rc, hread, hlist', hops'⟩ := readConfigFile_inList hlist hops configFile
    have hstep : chlExit data (.INIT configFile) = .ok (data', {
        exitResponse := response rc
        feedback := if rc ≠ 0 then some rc else none
        ops := allocations data.heap data'.heap }) := by
      rw [chlExit, hread]
      rfl
    refine ⟨data', _, hstep, ?_, hops', (fun h ↦ by cases h), fun channel h ↦ by cases h⟩
    rwa [parsed_append_init]
  | AUTO_CLUSRCVR => exact hidle _ rfl (fun channel h ↦ by cases h) 0 rfl
  | AUTO_RECEIVER => exact hidle _ rfl (fun channel h ↦ by cases h) 0 rfl
  | AUTO_SVRCONN => exact hidle _ rfl (fun channel h ↦ by cases h) 0 rfl
  | AUTO_CLUSSDR channel =>
    by_cases hold : channel.cd.version < MQCD_VERSION_11
    · refine ⟨data, _, stepServes_of_load_eq_none hlist hops rfl (if_pos hold) rfl ?_⟩
      intro channel' h hnew
      obtain rfl := ChlExitCall.AUTO_CLUSSDR.inj h
      exact absurd hold (Int.not_lt.2 hnew)
    · -- A definition of this version gets the label of the first match.
      obtain ⟨found, heval⟩ := evalMapList_inList hlist channel
      have hstep : chlExit data (.AUTO_CLUSSDR channel) =
          .ok (data, {
            exitResponse := response 0
            channelDefinition := some (labelled channel (parsed calls)) }) := by
        rw [chlExit, if_neg hold, heval]
        rfl
      refine ⟨data, _, stepServes_of_load_eq_none hlist hops rfl hstep rfl ?_⟩
      intro channel' h _
      obtain rfl := ChlExitCall.AUTO_CLUSSDR.inj h
      rfl
  | TERM =>
    obtain ⟨⟨heap, pMapList⟩, freed, hfree, hnull, hlist', hops'⟩ := freeMapList_inList hlist hops
    obtain rfl : pMapList = none := hnull
    have hstep : chlExit data .TERM = .ok (⟨heap, none⟩, {
        exitResponse := response 0
        ops := freed.map .release }) := by
      rw [chlExit, hfree]
      rfl
    refine ⟨⟨heap, none⟩, _, hstep, ?_, hops', (fun h ↦ by cases h), fun channel h ↦ by cases h⟩
    rwa [parsed_append_term]
  | other => exact hidle _ rfl (fun channel h ↦ by cases h) 1 rfl

/-- The step as the step of a run. -/
theorem StepServes.servesLatest {before : List (Event XlblData ChlExitCall ChlExitResult)}
    {data data' : XlblData} {call : ChlExitCall} {r : ChlExitResult}
    (h : StepServes (before.map Event.input) (ledger before) data call data' r)
    (hlist : InList data (parsed (before.map Event.input))) :
    ServesLatest before ⟨data, call, r, data'⟩ := by
  have hledger : ledger (before ++ [⟨data, call, r, data'⟩]) = ledger before ++ r.ops :=
    ledger_append_singleton before _
  refine ⟨hlist, h.label, h.unchanged, ?_, ?_, fun a ↦ ?_, fun hterm a ↦ ?_⟩
  · rw [List.map_append, List.map_singleton]
    exact h.left
  · rw [hledger]
    exact h.accounts.disciplined
  · rw [hledger, h.accounts.acquired]
    split_ifs
    · exact le_rfl
    · exact Nat.zero_le 1
  · obtain rfl : call = .TERM := hterm
    have hleft := h.left
    rw [parsed_append_term] at hleft
    rw [hledger]
    exact h.accounts.released hleft.of_nil.2 a

/-- **Over any order of reasons** in which no MQXR_INIT is repeated without an MQXR_TERM between,
the exit has a run; in it every call is made with the list of the latest MQXR_INIT, and what was
allocated is freed once, by the next MQXR_TERM. -/
theorem chlExit_run {calls : List ChlExitCall} (h : InitsApart calls) :
    (∃ tr s, exit.Run .start tr s ∧ tr.map Event.input = calls) ∧
      ∀ tr s, exit.Run .start tr s → tr.map Event.input = calls →
        ∀ before e after, tr = before ++ e :: after → ServesLatest before e := by
  -- the list is the one that was parsed last, and the memory accounts for the ledger
  let I : List (Event XlblData ChlExitCall ChlExitResult) → XlblData → Prop := fun tr data ↦
    (InList data (parsed (tr.map Event.input)) ∧ data.heap.Accounts (ledger tr)) ∧
      ∀ before e after, tr = before ++ e :: after → ServesLatest before e
  have hnil : I [] .start := ⟨⟨inList_start, Heap.accounts_empty⟩, by simp⟩
  obtain ⟨tr, s, hrun, hinput, -, hall⟩ := exists_run (M := exit) (I := I) hnil
    (fun tr data call hI hcall ↦ by
      obtain ⟨⟨hlist, hops⟩, hall⟩ := hI
      obtain ⟨data', r, hserves⟩ := exists_stepServes hlist hops hcall
      refine ⟨data', r, step_of_eq_ok hserves.step, ⟨?_, ?_⟩, ?_⟩
      · rw [List.map_append, List.map_singleton]
        exact hserves.left
      · rw [ledger_append_singleton]
        exact hserves.accounts
      · exact forall_split_append_singleton.2 ⟨hall, hserves.servesLatest hlist⟩) h
  refine ⟨⟨tr, s, hrun, hinput⟩, fun tr' s' hrun' hinput' ↦ ?_⟩
  obtain ⟨rfl, -⟩ := hrun.eq_of_inputs hrun' (hinput.trans hinput'.symm)
  exact hall

/-! ### A sample -/

/-- The sample configuration is loaded, used and freed; then none can be loaded. -/
def sampleCalls : List ChlExitCall :=
  [.INIT (.opened sampleFile), .AUTO_CLUSSDR ⟨.sample, _, hasClusters_sample⟩, .TERM, .INIT .unset]

theorem initsApart_append_singleton {calls : List ChlExitCall} {call : ChlExitCall} :
    InitsApart (calls ++ [call]) ↔ InitsApart calls ∧ InitAllowed calls call :=
  forall_split_append_singleton

theorem initsApart_sampleCalls : InitsApart sampleCalls := by
  have hnil : InitsApart [] := fun before call after h ↦ by simp at h
  show InitsApart ([] ++ [_] ++ [_] ++ [_] ++ [_])
  simp only [initsApart_append_singleton]
  exact ⟨⟨⟨⟨hnil, fun configFile _ ↦ rfl⟩, fun configFile h ↦ by cases h⟩,
    fun configFile h ↦ by cases h⟩, fun configFile _ ↦ rfl⟩

theorem chlExit_run_sample :
    InitsApart sampleCalls ∧
      (∃ tr s, exit.Run .start tr s ∧ tr.map Event.input = sampleCalls) ∧
      ∀ tr s, exit.Run .start tr s → tr.map Event.input = sampleCalls →
        ∀ before e after, tr = before ++ e :: after → ServesLatest before e :=
  ⟨initsApart_sampleCalls, chlExit_run initsApart_sampleCalls⟩

end MqExits.Xlbl
