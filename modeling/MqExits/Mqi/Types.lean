import MqExits.Text.Bytes
import Mathlib.Data.Int.Basic

/-!
# The MQI types the exits handle

Handles, completion codes and the two option structures an API exit sees, with the values of MQ's
own headers. A structure version is a length: an application that declares an older version owns
fewer bytes, and `memcpy` with that version's length copies just those fields
(`MQGMO.memcpy`, `MQPMO.memcpy`). The fields past an application's version are still fields of the
Lean structure; they stand for whatever its memory holds there.

A message handle that MQ has created is never one of the two reserved values, so the handles the
exit stores are a subtype (`MsgHandle`) and no stored handle can be unusable.
-/

namespace MqExits

open CText

/-- A 32-bit signed integer; the exits never compute outside its range. -/
abbrev MQLONG := ℤ

abbrev MQHCONN := ℤ
abbrev MQHOBJ := ℤ
abbrev MQHMSG := ℤ

/-- An address in the application's memory. -/
abbrev AppAddr := ℕ

def MQHC_UNUSABLE_HCONN : MQHCONN := -1
def MQHO_UNUSABLE_HOBJ : MQHOBJ := -1

def MQHM_NONE : MQHMSG := 0
def MQHM_UNUSABLE_HMSG : MQHMSG := -1

/-- Completion codes. -/
inductive MQCC
  | OK
  | WARNING
  | FAILED
  deriving DecidableEq, Repr

/-- Reason codes. -/
abbrev MQRC := ℕ

def MQRC_NONE : MQRC := 0
def MQRC_ALREADY_CONNECTED : MQRC := 2002
def MQRC_ENVIRONMENT_ERROR : MQRC := 2012
def MQRC_NO_MSG_AVAILABLE : MQRC := 2033
def MQRC_NOT_AUTHORIZED : MQRC := 2035
def MQRC_TRUNCATED_MSG_ACCEPTED : MQRC := 2079
def MQRC_UNKNOWN_OBJECT_NAME : MQRC := 2085
def MQRC_FILE_SYSTEM_ERROR : MQRC := 2208
def MQRC_HMSG_ERROR : MQRC := 2460
def MQRC_PROPERTY_VALUE_TOO_BIG : MQRC := 2469
def MQRC_PROPERTY_NOT_AVAILABLE : MQRC := 2471
def MQRC_WRONG_VERSION : MQRC := 6128

/-- `isValidHandle`: neither of the two reserved values. -/
def isValidHandle (mh : MQHMSG) : Bool :=
  mh ≠ MQHM_NONE ∧ mh ≠ MQHM_UNUSABLE_HMSG

@[simp] theorem isValidHandle_unusable : isValidHandle MQHM_UNUSABLE_HMSG = false := rfl

/-- A handle that MQCRTMH has returned. -/
def MsgHandle := {mh : MQHMSG // isValidHandle mh = true}
  deriving DecidableEq

/-- The format name of a message that starts with an MQRFH2 header. -/
def MQFMT_RF_HEADER_2 : Bytes := lit "MQHRF2  "

/-- The length of the fixed part of an MQRFH2 header. -/
def MQRFH_STRUC_LENGTH_FIXED_2 : ℤ := 36

/-! ### Opening an object -/

/-- The object types of a queue and of a model queue. -/
def MQOT_Q : MQLONG := 1
def MQOT_MODEL_Q : MQLONG := 1003

def MQOO_INPUT_AS_Q_DEF : BitVec 32 := 0x00000001
def MQOO_INPUT_SHARED : BitVec 32 := 0x00000002
def MQOO_INPUT_EXCLUSIVE : BitVec 32 := 0x00000004
def MQOO_INQUIRE : BitVec 32 := 0x00000020

/-- The fields of an MQOD that the exits read. -/
structure MQOD where
  objectType : MQLONG
  objectName : Bytes
  objectQMgrName : Bytes
  deriving DecidableEq

/-! ### The get message options -/

def MQGMO_VERSION_1 : MQLONG := 1
def MQGMO_VERSION_2 : MQLONG := 2
def MQGMO_VERSION_3 : MQLONG := 3
def MQGMO_VERSION_4 : MQLONG := 4

def MQGMO_LENGTH_1 : ℕ := 72
def MQGMO_LENGTH_2 : ℕ := 80
def MQGMO_LENGTH_3 : ℕ := 100
def MQGMO_LENGTH_4 : ℕ := 112

def MQGMO_PROPERTIES_AS_Q_DEF : BitVec 32 := 0x00000000
def MQGMO_PROPERTIES_FORCE_MQRFH2 : BitVec 32 := 0x02000000
def MQGMO_NO_PROPERTIES : BitVec 32 := 0x04000000
def MQGMO_PROPERTIES_IN_HANDLE : BitVec 32 := 0x08000000
def MQGMO_PROPERTIES_COMPATIBILITY : BitVec 32 := 0x10000000

/-- The PROPCTL value of a queue that returns no properties. -/
def MQPROP_NONE : MQLONG := 1

/-- MQGMO. The default of each field is the one of `MQGMO_DEFAULT`. -/
structure MQGMO where
  strucId : Bytes := lit "GMO "
  version : MQLONG := MQGMO_VERSION_1
  options : BitVec 32 := 0
  waitInterval : MQLONG := 0
  signal1 : MQLONG := 0
  signal2 : MQLONG := 0
  resolvedQName : Bytes := []
  -- version 2
  matchOptions : MQLONG := 3
  groupStatus : UInt8 := 32
  segmentStatus : UInt8 := 32
  segmentation : UInt8 := 32
  reserved1 : UInt8 := 32
  -- version 3
  msgToken : Bytes := List.replicate 16 0
  returnedLength : MQLONG := -1
  -- version 4
  reserved2 : MQLONG := 0
  msgHandle : MQHMSG := MQHM_NONE
  deriving DecidableEq

def MQGMO_DEFAULT : MQGMO := {}

/-- `memcpy(dst, src, len)`, for `len` one of the structure's four lengths. -/
def MQGMO.memcpy (dst src : MQGMO) (len : ℕ) : MQGMO where
  strucId := src.strucId
  version := src.version
  options := src.options
  waitInterval := src.waitInterval
  signal1 := src.signal1
  signal2 := src.signal2
  resolvedQName := src.resolvedQName
  matchOptions := if MQGMO_LENGTH_2 ≤ len then src.matchOptions else dst.matchOptions
  groupStatus := if MQGMO_LENGTH_2 ≤ len then src.groupStatus else dst.groupStatus
  segmentStatus := if MQGMO_LENGTH_2 ≤ len then src.segmentStatus else dst.segmentStatus
  segmentation := if MQGMO_LENGTH_2 ≤ len then src.segmentation else dst.segmentation
  reserved1 := if MQGMO_LENGTH_2 ≤ len then src.reserved1 else dst.reserved1
  msgToken := if MQGMO_LENGTH_3 ≤ len then src.msgToken else dst.msgToken
  returnedLength := if MQGMO_LENGTH_3 ≤ len then src.returnedLength else dst.returnedLength
  reserved2 := if MQGMO_LENGTH_4 ≤ len then src.reserved2 else dst.reserved2
  msgHandle := if MQGMO_LENGTH_4 ≤ len then src.msgHandle else dst.msgHandle

/-- The fields of an MQGMO that MQGET writes. -/
structure GmoOutputs where
  resolvedQName : Bytes
  groupStatus : UInt8
  segmentStatus : UInt8
  segmentation : UInt8
  msgToken : Bytes
  returnedLength : MQLONG

/-- The output fields as an MQGMO holds them. -/
def MQGMO.outputs (g : MQGMO) : GmoOutputs where
  resolvedQName := g.resolvedQName
  groupStatus := g.groupStatus
  segmentStatus := g.segmentStatus
  segmentation := g.segmentation
  msgToken := g.msgToken
  returnedLength := g.returnedLength

/-- What MQGET leaves in the structure it was given. -/
def MQGMO.write (g : MQGMO) (out : GmoOutputs) : MQGMO :=
  { g with
    resolvedQName := out.resolvedQName
    groupStatus := if MQGMO_VERSION_2 ≤ g.version then out.groupStatus else g.groupStatus
    segmentStatus := if MQGMO_VERSION_2 ≤ g.version then out.segmentStatus else g.segmentStatus
    segmentation := if MQGMO_VERSION_2 ≤ g.version then out.segmentation else g.segmentation
    msgToken := if MQGMO_VERSION_3 ≤ g.version then out.msgToken else g.msgToken
    returnedLength :=
      if MQGMO_VERSION_3 ≤ g.version then out.returnedLength else g.returnedLength }

@[simp] theorem MQGMO.write_msgHandle (g : MQGMO) (out : GmoOutputs) :
    (g.write out).msgHandle = g.msgHandle := rfl

/-! ### The put message options -/

def MQPMO_VERSION_1 : MQLONG := 1
def MQPMO_VERSION_2 : MQLONG := 2
def MQPMO_VERSION_3 : MQLONG := 3

def MQPMO_LENGTH_1 : ℕ := 128
def MQPMO_LENGTH_2 : ℕ := 160
def MQPMO_LENGTH_3 : ℕ := 184

/-- MQPMO. The default of each field is the one of `MQPMO_DEFAULT`. -/
structure MQPMO where
  strucId : Bytes := lit "PMO "
  version : MQLONG := MQPMO_VERSION_1
  options : BitVec 32 := 0
  timeout : MQLONG := -1
  context : MQHOBJ := 0
  knownDestCount : MQLONG := 0
  unknownDestCount : MQLONG := 0
  invalidDestCount : MQLONG := 0
  resolvedQName : Bytes := []
  resolvedQMgrName : Bytes := []
  -- version 2
  recsPresent : MQLONG := 0
  putMsgRecFields : MQLONG := 0
  putMsgRecOffset : MQLONG := 0
  responseRecOffset : MQLONG := 0
  putMsgRecPtr : AppAddr := 0
  responseRecPtr : AppAddr := 0
  -- version 3
  originalMsgHandle : MQHMSG := MQHM_NONE
  newMsgHandle : MQHMSG := MQHM_NONE
  action : MQLONG := 0
  pubLevel : MQLONG := 9
  deriving DecidableEq

def MQPMO_DEFAULT : MQPMO := {}

/-- `memcpy(dst, src, len)`, for `len` one of the structure's three lengths. -/
def MQPMO.memcpy (dst src : MQPMO) (len : ℕ) : MQPMO where
  strucId := src.strucId
  version := src.version
  options := src.options
  timeout := src.timeout
  context := src.context
  knownDestCount := src.knownDestCount
  unknownDestCount := src.unknownDestCount
  invalidDestCount := src.invalidDestCount
  resolvedQName := src.resolvedQName
  resolvedQMgrName := src.resolvedQMgrName
  recsPresent := if MQPMO_LENGTH_2 ≤ len then src.recsPresent else dst.recsPresent
  putMsgRecFields := if MQPMO_LENGTH_2 ≤ len then src.putMsgRecFields else dst.putMsgRecFields
  putMsgRecOffset := if MQPMO_LENGTH_2 ≤ len then src.putMsgRecOffset else dst.putMsgRecOffset
  responseRecOffset :=
    if MQPMO_LENGTH_2 ≤ len then src.responseRecOffset else dst.responseRecOffset
  putMsgRecPtr := if MQPMO_LENGTH_2 ≤ len then src.putMsgRecPtr else dst.putMsgRecPtr
  responseRecPtr := if MQPMO_LENGTH_2 ≤ len then src.responseRecPtr else dst.responseRecPtr
  originalMsgHandle :=
    if MQPMO_LENGTH_3 ≤ len then src.originalMsgHandle else dst.originalMsgHandle
  newMsgHandle := if MQPMO_LENGTH_3 ≤ len then src.newMsgHandle else dst.newMsgHandle
  action := if MQPMO_LENGTH_3 ≤ len then src.action else dst.action
  pubLevel := if MQPMO_LENGTH_3 ≤ len then src.pubLevel else dst.pubLevel

/-- The fields of an MQPMO that MQPUT and MQPUT1 write. -/
structure PmoOutputs where
  knownDestCount : MQLONG
  unknownDestCount : MQLONG
  invalidDestCount : MQLONG
  resolvedQName : Bytes
  resolvedQMgrName : Bytes

/-- The output fields as an MQPMO holds them. -/
def MQPMO.outputs (p : MQPMO) : PmoOutputs where
  knownDestCount := p.knownDestCount
  unknownDestCount := p.unknownDestCount
  invalidDestCount := p.invalidDestCount
  resolvedQName := p.resolvedQName
  resolvedQMgrName := p.resolvedQMgrName

/-- What MQPUT leaves in the structure it was given. -/
def MQPMO.write (p : MQPMO) (out : PmoOutputs) : MQPMO :=
  { p with
    knownDestCount := out.knownDestCount
    unknownDestCount := out.unknownDestCount
    invalidDestCount := out.invalidDestCount
    resolvedQName := out.resolvedQName
    resolvedQMgrName := out.resolvedQMgrName }

@[simp] theorem MQPMO.write_originalMsgHandle (p : MQPMO) (out : PmoOutputs) :
    (p.write out).originalMsgHandle = p.originalMsgHandle := rfl

end MqExits
