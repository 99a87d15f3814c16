import NscaNg.Machine.Runs
import NscaNg.Machine.Provenance
import NscaNg.Libev.Loop
import NscaNg.Memory.Heap
import NscaNg.Memory.Stores
import NscaNg.Posix.CString
import NscaNg.Posix.Ere
import NscaNg.Posix.Regcomp
import NscaNg.Posix.Splice
import NscaNg.Posix.Scan
import NscaNg.Posix.Integer
import NscaNg.Posix.Stdio
import NscaNg.Posix.Printf
import NscaNg.Posix.PrintfUniform
import NscaNg.Common.Util
import NscaNg.Common.Log
import NscaNg.Common.LogFormat
import NscaNg.Common.LogPercent
import NscaNg.Common.Buffer
import NscaNg.Common.Blocks
import NscaNg.Common.BlockChain
import NscaNg.Common.BlockQueue
import NscaNg.Common.Tls
import NscaNg.Common.TlsFrame
import NscaNg.Common.TlsInput
import NscaNg.Common.TlsPending
import NscaNg.Common.TlsCallbacks
import NscaNg.Common.TlsStart
import NscaNg.Common.TlsRelease
import NscaNg.Common.TlsSets
import NscaNg.Common.TlsUpcalls
import NscaNg.Common.TlsTimeout
import NscaNg.Common.TlsTrace
import NscaNg.Common.TlsOutput
import NscaNg.Common.TlsRetry
import NscaNg.Common.TlsLines
import NscaNg.Server.Auth
import NscaNg.Server.Push
import NscaNg.Server.Handlers
import NscaNg.Server.PushSize
import NscaNg.Server.Session
import NscaNg.Server.SessionCalls
import NscaNg.Server.SessionPhases
import NscaNg.Server.LifeCycle
import NscaNg.Server.SessionLog
import NscaNg.Server.Discipline
import NscaNg.Server.Conf
import NscaNg.Server.CommandPatterns
import NscaNg.Server.ResultPatterns
import NscaNg.Server.Fifo
import NscaNg.Server.FifoWatchers
import NscaNg.Server.FifoMarks
import NscaNg.Server.FifoLedger
import NscaNg.Server.FifoRecords
import NscaNg.Server.FifoOrder
import NscaNg.Server.FifoDumps
import NscaNg.Server.FifoSets
import NscaNg.Server.FifoQueue
import NscaNg.Client.Options
import NscaNg.Client.Parse
import NscaNg.Client.Escape
import NscaNg.Client.CheckResult
import NscaNg.Client.Submission
import NscaNg.Client.Input
import NscaNg.Client.ConfLine
import NscaNg.Client.ConfLoop
import NscaNg.Client.ConfLines
import NscaNg.Client.LogicalLines
import NscaNg.Client.Conf
import NscaNg.Client.Delay
import NscaNg.Client.Crlf
import NscaNg.Client.Quoting
import NscaNg.Client.Comments
import NscaNg.Machine.Channel
import NscaNg.Bindings.Submission
import NscaNg.Bindings.Timestamp
import NscaNg.Bindings.Buffers
import NscaNg.Bindings.Agreement
import NscaNg.Bindings.Response
import NscaNg.Server.SessionStreams
import NscaNg.Client.SessionMoves
import NscaNg.Common.TlsChannel
import NscaNg.Exchange.Responses
import NscaNg.Exchange.System
import NscaNg.Exchange.Forwarding
import NscaNg.Exchange.Outcomes
import NscaNg.Server.ServerState
import NscaNg.Server.CommandFile
import NscaNg.Exchange.Network
import NscaNg.Server.Authentication
import NscaNg.Exchange.Progress
import NscaNg.Common.TlsProgress
import NscaNg.Client.Conversation
import NscaNg.Bindings.Connection
import NscaNg.Exchange.Modules
import NscaNg.Common.TlsUsers
import NscaNg.Server.Usage
import NscaNg.Client.Usage
