import MqExits.Mqi.Types
import Mathlib.Data.List.DropRight

/-!
# The connection warning exit: its log entries

At MQXR_SEC_PARMS the `ChlExit` of `connwarn` collects what the client has sent about itself, copied
and trimmed (`logValues`), and `writeOutputEntry` appends it to the log as a YAML entry, with the
texts printed between double quotes **as they are**.
-/

namespace MqExits.Connwarn

open CText

/-! ### What is printed -/

/-- `%s`. -/
def printS (s : Bytes) : Bytes :=
  cstr s

/-- `%w.ps`. -/
def printWidth (w p : ℕ) (s : Bytes) : Bytes :=
  List.replicate (w - (cstr (s.take p)).length) 32 ++ cstr (s.take p)

/-- `%.*s`. A negative precision counts as none. -/
def printPrec (p : ℤ) (s : Bytes) : Bytes :=
  if p < 0 then cstr s else cstr (s.take p.toNat)

/-- `struct logValues`. -/
structure LogValues where
  timestamp : Bytes
  conname : Bytes
  remoteAppUser : Bytes
  remoteProduct : Bytes
  remoteVersion : Bytes
  CDset : Bool
  CDUser : Bytes
  CSPSet : Bool
  CSPUserLen : ℤ
  CSPUser : Bytes
  identicalCDCSP : Bool
  CSPValid : Bool

def MQ_REMOTE_PRODUCT_LENGTH : ℕ := 4

/-- `remoteProducts`. -/
def remoteProducts : List (Bytes × Bytes) :=
  [(lit "MQMM", lit "Queue Manager (non z/OS Platform)"),
    (lit "MQMV", lit "Queue Manager on z/OS"),
    (lit "MQCC", lit "IBM MQ C client"),
    (lit "MQNM", lit "IBM MQ .NET fully managed client"),
    (lit "MQJB", lit "IBM MQ Classes for JAVA"),
    (lit "MQJM", lit "IBM MQ Classes for JMS (normal mode)"),
    (lit "MQJN", lit "IBM MQ Classes for JMS (migration mode)"),
    (lit "MQJU", lit "Common Java" ++ [0xE2, 0x84, 0xA2] ++ lit " interface to the MQI"),
    (lit "MQXC", lit "XMS client C/C++ (normal mode)"),
    (lit "MQXD", lit "XMS client C/C++ (migration mode)"),
    (lit "MQXN", lit "XMS client .NET (normal mode)"),
    (lit "MQXM", lit "XMS client .NET (migration mode)"),
    (lit "MQXU", lit "IBM MQ .NET XMS client (unmanaged/XA)"),
    (lit "MQNU", lit "IBM MQ .NET unmanaged client")]

/-- `unknownProductDesc`. -/
def unknownProductDesc : Bytes := lit "Unknown"

/-- `remoteProductDecode`. -/
def remoteProductDecode (p : Bytes) : Bytes :=
  match remoteProducts.find? fun product ↦ strncmpEq product.1 p MQ_REMOTE_PRODUCT_LENGTH with
  | some product => product.2
  | none => unknownProductDesc

/-- `b ? "true" : "false"`. -/
def trueFalse (b : Bool) : Bytes :=
  if b then lit "true" else lit "false"

/-- What the calls of `fprintf` in `writeOutputEntry` print. -/
def outputEntry (v : LogValues) : Bytes :=
  lit "-" ++ lit "\n" ++
  (lit "  timestamp: \"" ++ printS v.timestamp ++ lit "\"\n") ++
  (lit "  remote_conname: \"" ++ printS v.conname ++ lit "\"\n") ++
  (lit "  remote_appuser: \"" ++ printS v.remoteAppUser ++ lit "\"\n") ++
  (lit "  remote_version: \"" ++ printWidth 8 8 v.remoteVersion ++ lit "\"\n") ++
  (lit "  remote_product: \"" ++ printWidth 4 4 v.remoteProduct ++ lit "\"\n") ++
  (lit "  remote_product_decode: \"" ++ printS (remoteProductDecode v.remoteProduct) ++
    lit "\"\n") ++
  (lit "  MQCD_set: " ++ trueFalse v.CDset ++ lit "\n") ++
  (lit "  MQCD_user: \"" ++ printS (if v.CDset then v.CDUser else []) ++ lit "\"\n") ++
  (lit "  MQCSP_set: " ++ trueFalse v.CSPSet ++ lit "\n") ++
  (if v.CSPSet then lit "  MQCSP_user: \"" ++ printPrec v.CSPUserLen v.CSPUser ++ lit "\"\n"
    else lit "  MQCSP_user: \"\"" ++ lit "\n") ++
  (lit "  MQCD_MQCSP_identical: " ++ trueFalse v.identicalCDCSP ++ lit "\n") ++
  (lit "  MQCSP_valid: " ++ trueFalse v.CSPValid ++ lit "\n")

/-- `writeOutputEntry`, on the contents of the file at the path; `none` where it cannot be opened,
which is FAIL. -/
def writeOutputEntry (file : Option Bytes) (v : LogValues) : Option Bytes :=
  file.map (· ++ outputEntry v)

/-! ### What is collected -/

def MQ_CONN_NAME_LENGTH : ℕ := 264
def MQ_SHORT_CONN_NAME_LENGTH : ℕ := 20
def MQ_USER_ID_LENGTH : ℕ := 12
def MQ_PASSWORD_LENGTH : ℕ := 12
def MQ_Q_MGR_NAME_LENGTH : ℕ := 48

def MQCD_VERSION_2 : MQLONG := 2
def MQCXP_VERSION_3 : MQLONG := 3
def MQCXP_VERSION_6 : MQLONG := 6

/-- The fields of an MQCSP that the exit uses. -/
structure MQCSP where
  CSPUserIdLength : MQLONG
  /-- The bytes at `CSPUserIdPtr`. -/
  CSPUserId : Bytes
  CSPPasswordLength : MQLONG
  /-- The bytes at `CSPPasswordPtr`. -/
  CSPPassword : Bytes

/-- What `ChlExit` reads at MQXR_SEC_PARMS: fields of the MQCXP and of the MQCD, and what the calls
it makes return. -/
structure Connection where
  /-- `pParms->Version`. -/
  parmsVersion : MQLONG
  partnerName : Field MQ_Q_MGR_NAME_LENGTH
  remoteVersion : Field 8
  remoteProduct : Field MQ_REMOTE_PRODUCT_LENGTH
  securityParms : Option MQCSP
  /-- `pCD->Version`. -/
  cdVersion : MQLONG
  connectionName : Field MQ_CONN_NAME_LENGTH
  shortConnectionName : Field MQ_SHORT_CONN_NAME_LENGTH
  remoteUserIdentifier : Field MQ_USER_ID_LENGTH
  remotePassword : Field MQ_PASSWORD_LENGTH
  /-- What `strftime` makes of the time. -/
  timestamp : Bytes
  /-- What `validateCredentials` returns; `none` for FAIL. -/
  validaterc : Option Bool

/-- `trim_whitespace`, on a C string. Its first character stays. -/
def trimWhitespace : Bytes → Bytes
  | [] => []
  | b :: s => b :: s.rdropWhile isspace

/-- Whether MQCD credentials were sent. -/
def Connection.cdSet (c : Connection) : Bool :=
  c.cdVersion ≥ MQCD_VERSION_2 ∧
    c.remotePassword.val.headD 0 ≠ 32 ∧ c.remotePassword.val.headD 0 ≠ 0

/-- The MQCSP, if credentials were sent in it. -/
def Connection.csp (c : Connection) : Option MQCSP :=
  if c.parmsVersion ≥ MQCXP_VERSION_6 then
    c.securityParms.filter fun csp ↦ csp.CSPUserIdLength > 0 ∨ csp.CSPPasswordLength > 0
  else none

/-- Whether the MQCD credentials are those of an MQCSP. -/
def Connection.identical (c : Connection) (csp : MQCSP) : Bool :=
  let cdUser := trimWhitespace (strncpy c.remoteUserIdentifier.val MQ_USER_ID_LENGTH)
  let cdPass := trimWhitespace (strncpy c.remotePassword.val MQ_PASSWORD_LENGTH)
  (cdUser.length : ℤ) = csp.CSPUserIdLength ∧ (cdPass.length : ℤ) = csp.CSPPasswordLength ∧
    strncmpEq cdUser csp.CSPUserId csp.CSPUserIdLength.toNat ∧
    strncmpEq cdPass csp.CSPPassword csp.CSPPasswordLength.toNat

/-- The values that `ChlExit` passes to `writeOutputEntry`; `none` where it closes the channel as
the credentials could not be checked. -/
def logValues (c : Connection) : Option LogValues :=
  let values : LogValues := {
    timestamp := c.timestamp
    conname := trimWhitespace (if c.cdVersion ≥ MQCD_VERSION_2 then
      strncpy c.connectionName.val MQ_CONN_NAME_LENGTH
      else strncpy c.shortConnectionName.val MQ_SHORT_CONN_NAME_LENGTH)
    remoteAppUser := trimWhitespace (if c.cdVersion ≥ MQCD_VERSION_2 then
      strncpy c.remoteUserIdentifier.val MQ_USER_ID_LENGTH
      else if c.parmsVersion ≥ MQCXP_VERSION_3 then
        strncpy c.partnerName.val MQ_Q_MGR_NAME_LENGTH
      else lit "[UNKNOWN]")
    remoteProduct := c.remoteProduct.val
    remoteVersion := c.remoteVersion.val
    CDset := c.cdSet
    CDUser := if c.cdSet then
      trimWhitespace (strncpy c.remoteUserIdentifier.val MQ_USER_ID_LENGTH) else lit "N/A"
    CSPSet := false
    CSPUserLen := 0
    CSPUser := []
    identicalCDCSP := false
    CSPValid := false }
  match c.csp with
  | none => some values
  | some csp =>
    c.validaterc.map fun valid ↦ { values with
      CSPSet := true
      CSPUserLen := csp.CSPUserIdLength
      CSPUser := csp.CSPUserId
      identicalCDCSP := c.cdSet ∧ c.identical csp
      CSPValid := valid }

/-- The log of a channel, new at first, after some connections. -/
def logFile (connections : List Connection) : Option Bytes :=
  (connections.filterMap logValues).foldl writeOutputEntry (some [])

end MqExits.Connwarn
