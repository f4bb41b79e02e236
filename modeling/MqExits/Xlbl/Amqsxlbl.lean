import MqExits.Mqi.Types
import MqExits.Runs.NodeHeap
import MqExits.Text.Lines

/-!
# The certificate label exit: `amqsxlbl`

A channel auto-definition exit that sets the certificate label of a cluster sender channel from a
configuration file. `readConfigFile` reads the file with `fgets` into one buffer, trims each line in
it, and appends a mapping to a linked list for each line that it accepts; `evalMapList` walks the
list and takes the label of the first mapping that matches the channel name or one of the cluster
names.

The list is the one in memory: nodes that are allocated, filled in and linked behind the last.
-/

namespace MqExits.Xlbl

open CText Outcome NodeHeap

/-! ### Data -/

def MQ_CHANNEL_NAME_LENGTH : ℕ := 20
def MQ_CLUSTER_NAME_LENGTH : ℕ := 48
def MQ_CERT_LABEL_LENGTH : ℕ := 64

/-- `OBJECT_NAME_LENGTH`. -/
def OBJECT_NAME_LENGTH : ℕ := MQ_CLUSTER_NAME_LENGTH

def CONFIG_BUFFER_SIZE : ℕ := 2048

def CONFIG_PREFIX_CHANNEL : Bytes := lit "channel."
def CONFIG_PREFIX_CLUSTER : Bytes := lit "cluster."

def MAP_ENTRY_TYPE_CHANNEL : UInt8 := 1
def MAP_ENTRY_TYPE_CLUSTER : UInt8 := 2

/-- `XLBLMAPENTRY`, without the pointer to the next entry. -/
structure XLBLMAPENTRY where
  entryType : UInt8
  objectName : Field OBJECT_NAME_LENGTH
  certificateLabel : Field MQ_CERT_LABEL_LENGTH
  deriving DecidableEq

/-- The memory that the exit keeps its list in, and the `pMapList` of its `XLBLDATA`. -/
structure XlblData where
  heap : Heap XLBLMAPENTRY
  pMapList : Option ℕ

/-- The fields of an MQCD that the exit uses. The certificate label is there from version 11 on. -/
structure MQCD where
  version : MQLONG
  channelName : Field MQ_CHANNEL_NAME_LENGTH
  clustersDefined : MQLONG
  /-- The bytes at `ClusterPtr`. -/
  clusterPtr : Bytes
  certificateLabel : Field MQ_CERT_LABEL_LENGTH

/-! ### Reading the configuration -/

/-- The difference of two pointers as a `size_t`. -/
def sizeSub (a b : ℕ) : ℕ :=
  (a + 2 ^ 64 - b) % 2 ^ 64

/-- The type and the prefix of the entry that a line begins. -/
def linePrefix (p : Bytes) : Option (UInt8 × Bytes) :=
  if strncmpEq CONFIG_PREFIX_CHANNEL p CONFIG_PREFIX_CHANNEL.length then
    some (MAP_ENTRY_TYPE_CHANNEL, CONFIG_PREFIX_CHANNEL)
  else if strncmpEq CONFIG_PREFIX_CLUSTER p CONFIG_PREFIX_CLUSTER.length then
    some (MAP_ENTRY_TYPE_CLUSTER, CONFIG_PREFIX_CLUSTER)
  else none

/-- The most characters in the name of an entry. -/
def maxNameLength (entryType : UInt8) : ℕ :=
  if entryType = MAP_ENTRY_TYPE_CHANNEL then MQ_CHANNEL_NAME_LENGTH else MQ_CLUSTER_NAME_LENGTH

/-- The entry that the loop body of `readConfigFile` makes of the trimmed line at `p`; `none` where
it ignores the line. -/
def parseLine (p : Bytes) : Option XLBLMAPENTRY :=
  if p.headD 0 ≠ 35 ∧ (cstr p).length > 0 then
    match linePrefix p with
    | none => none
    | some (entryType, entryPrefix) =>
      let objectNamePos := entryPrefix.length
      match strchr p 61 with
      | none => none
      | some equalsPos =>
        let entryObjectNameLength := sizeSub equalsPos objectNamePos
        if entryObjectNameLength < 1 ∨ entryObjectNameLength > maxNameLength entryType then none
        else
          let certLabelLength := (cstr (p.drop (equalsPos + 1))).length
          if certLabelLength < 1 ∨ certLabelLength > MQ_CERT_LABEL_LENGTH then none
          else
            some {
              entryType := entryType
              objectName :=
                .pad OBJECT_NAME_LENGTH 32 ((p.drop objectNamePos).take entryObjectNameLength)
              certificateLabel :=
                .pad MQ_CERT_LABEL_LENGTH 0 ((p.drop (equalsPos + 1)).take certLabelLength) }
  else none

/-- The variables of the loop of `readConfigFile`. -/
structure ReadState where
  data : XlblData
  pCurrentMapEntry : Option ℕ
  line : Bytes

/-- Append an entry to the list. -/
def addEntry (s : ReadState) (entry : XLBLMAPENTRY) : Except Fault ReadState := do
  let (heap, pNewMapEntry) := s.data.heap.alloc entry
  match s.data.pMapList with
  | none =>
    return { s with
      data := { heap := heap, pMapList := some pNewMapEntry }
      pCurrentMapEntry := some pNewMapEntry }
  | some head =>
    let heap ← heap.setNext s.pCurrentMapEntry (some pNewMapEntry)
    return { s with
      data := { heap := heap, pMapList := some head }
      pCurrentMapEntry := some pNewMapEntry }

/-- One iteration of `readConfigFile`, with what `fgets` has left in the buffer. -/
def readBody (s : ReadState) (buf : Bytes) : Except Fault ReadState :=
  let (line, p) := trim buf
  let s := { s with line := line }
  match parseLine (line.drop p) with
  | none => .ok s
  | some entry => addEntry s entry

/-- The loop of `readConfigFile`. One unit of fuel is one iteration. -/
def readLoop : ℕ → Bytes → ReadState → Except Fault ReadState
  | 0, _, _ => .error .diverges
  | fuel + 1, stream, s =>
    match fgets s.line (CONFIG_BUFFER_SIZE - 1) stream with
    | none => .ok s
    | some (buf, rest) => do
      let s ← readBody s buf
      readLoop fuel rest s

/-- What `MQXLBL_CONFIG_FILE` leads to. -/
inductive ConfigFile
  | unset
  | unreadable
  | opened (contents : Bytes)

/-- `readConfigFile`, with its return code. Each iteration reads a byte at least. -/
def readConfigFile (data : XlblData) : ConfigFile → Except Fault (XlblData × MQRC)
  | .unset => .ok (data, MQRC_ENVIRONMENT_ERROR)
  | .unreadable => .ok (data, MQRC_FILE_SYSTEM_ERROR)
  | .opened contents => do
    let s ← readLoop (contents.length + 1) contents
      ⟨data, none, List.replicate CONFIG_BUFFER_SIZE 0⟩
    return (s.data, 0)

/-! ### Evaluating the list -/

/-- `memcmp(a, b, n) == 0`, where both must have `n` bytes. -/
def memcmpEq (a b : Bytes) (n : ℕ) : Except Fault Bool :=
  if n ≤ a.length ∧ n ≤ b.length then .ok (a.take n == b.take n) else .error .overRead

/-- The loop of `evalMapList` over the cluster names at `pClusName`. -/
def matchesCluster (objectName : Bytes) : ℕ → Bytes → Except Fault Bool
  | 0, _ => .ok false
  | n + 1, pClusName => do
    if ← memcmpEq objectName pClusName MQ_CLUSTER_NAME_LENGTH then return true
    matchesCluster objectName n (pClusName.drop MQ_CLUSTER_NAME_LENGTH)

/-- Whether an entry matches a channel. -/
def matchesEntry (cd : MQCD) (entry : XLBLMAPENTRY) : Except Fault Bool :=
  if entry.entryType = MAP_ENTRY_TYPE_CHANNEL then
    memcmpEq entry.objectName.val cd.channelName.val MQ_CHANNEL_NAME_LENGTH
  else if entry.entryType = MAP_ENTRY_TYPE_CLUSTER then
    matchesCluster entry.objectName.val cd.clustersDefined.toNat cd.clusterPtr
  else .ok false

/-- `evalMapList`. A walk over more nodes than there can be goes round for ever. -/
def evalMapList (data : XlblData) (cd : MQCD) : Except Fault (Bool × MQCD) := do
  match ← data.heap.search (matchesEntry cd) data.heap.top data.pMapList with
  | none => return (false, cd)
  | some pCurrentMapEntry =>
    let entry ← data.heap.load (some pCurrentMapEntry)
    return (true, { cd with certificateLabel := entry.val.certificateLabel })

end MqExits.Xlbl
