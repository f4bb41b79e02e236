import MqExits.Text.Bytes
import MqExits.Text.Stoi
import MqExits.Runs.Machine
import MqExits.Runs.Outcome
import MqExits.Mqi.Types
import MqExits.Otel.State
import MqExits.Otel.Get
import MqExits.Text.Cut
import MqExits.Otel.Split
import MqExits.Otel.Traceparent
import MqExits.Otel.LinkedIds
import MqExits.Otel.Delivery
import MqExits.Otel.Folders
import MqExits.Otel.Disconnect
import MqExits.Otel.Isolation
import MqExits.Otel.Ownership
import MqExits.Otel.PropCtl
import MqExits.Otel.Outputs
import MqExits.Otel.TraceContext
import MqExits.Otel.GetOptions
import MqExits.Otel.GetPointer
import MqExits.Otel.Put
import MqExits.Otel.Open
import MqExits.Otel.Module
import MqExits.Otel.OpenClose
import MqExits.Otel.PutPointer
import MqExits.Otel.PutProperties
import MqExits.Otel.HeaderProperties
import MqExits.Otel.HandleProperties
import MqExits.Otel.HeaderBounds
import MqExits.Otel.EntryPoint
import MqExits.Otel.Registration
import MqExits.Otel.InitCount
import MqExits.Otel.Reconnect
import MqExits.Runs.Ledger
import MqExits.Jwt.ChlExit
import MqExits.Jwt.JmsJwtExit
import MqExits.Jwt.RequestBody
import MqExits.Jwt.TwoRequests
import MqExits.Oam.Oamcrt
import MqExits.Oam.OamcrtStash
import MqExits.Oam.DynamicQueue
import MqExits.Oam.CreationCheck
import MqExits.Oam.OamokLog
import MqExits.Text.Lines
import MqExits.Text.FlagNames
import MqExits.Oam.AuthStr
import MqExits.Oam.AuthBuffer
import MqExits.Oam.ServiceStart
import MqExits.Oam.OamlogCalls
import MqExits.Oam.OamokBuffers
import MqExits.Runs.ObjectTree
import MqExits.Oam.OamokObjects
import MqExits.Runs.NodeHeap
import MqExits.Xlbl.Amqsxlbl
import MqExits.Xlbl.Mapping
import MqExits.Xlbl.CertificateLabel
import MqExits.Xlbl.LongLines
import MqExits.Xlbl.ChlExit
import MqExits.Text.Utf8
import MqExits.Text.QuotedScalar
import MqExits.Text.XmlText
import MqExits.Text.FormUrlencoded
import MqExits.Text.Yaml
import MqExits.Text.SuffixCode
import MqExits.Connwarn.FileName
import MqExits.Connwarn.FileNameBounds
import MqExits.Connwarn.LogEntry
import MqExits.Connwarn.Trimming
import MqExits.Connwarn.LogFile
import MqExits.Text.Stdio
import MqExits.Connwarn.LockedWrite
import MqExits.Connwarn.Descriptors
import MqExits.Connwarn.ReadLoop
import MqExits.Runs.CMemory
import MqExits.Jwt.TokenResponse
import MqExits.Jwt.TokenMemory
import MqExits.Jwt.ChannelMemory
import MqExits.Otel.Propagation
import MqExits.Otel.Network
import MqExits.Text.Json
import MqExits.Oam.OamokRecords
import MqExits.Oam.Sput
import MqExits.Oam.SputMessages
import MqExits.Runs.Fairness
import MqExits.Oam.OamcrtProgress
import MqExits.Oam.OamlogReading
import MqExits.Connwarn.WholeEntries
