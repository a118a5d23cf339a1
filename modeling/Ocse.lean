import Ocse.Lib.Buffer
import Ocse.Lib.BigEndian
import Ocse.Lib.Wire
import Ocse.Lib.Socket
import Ocse.Lib.Keyed
import Ocse.Lib.Run
import Ocse.Lib.Sessions
import Ocse.Lib.LinkedQueue
import Ocse.Lib.Traced
import Ocse.Lib.Ranges
import Ocse.AfuEvent
import Ocse.TlxSignal
import Ocse.TlxGet
import Ocse.TlxSend
import Ocse.TlxAp
import Ocse.Frame
import Ocse.HostFrame
import Ocse.AfuFrame
import Ocse.CmdEvent
import Ocse.CmdAdd
import Ocse.CmdService
import Ocse.CmdResponse
import Ocse.OclLoop
import Ocse.Effect
import Ocse.EngineInv
import Ocse.TagLife
import Ocse.Completion
import Ocse.PendingProtocol
import Ocse.SplitCoverage
import Ocse.ResponseClass
import Ocse.ResponseTruth
import Ocse.Outstanding
import Ocse.SlotReuse
import Ocse.ResponseProgress
import Ocse.Routing
import Ocse.Admitted
import Ocse.RequestCodec
import Ocse.Mmio
import Ocse.MmioQueue
import Ocse.HostCredits
import Ocse.AfuCredits
import Ocse.MemRequest
import Ocse.Lpc
import Ocse.MemAfu
import Ocse.MemAccess
import Ocse.MmioCoherence
import Ocse.LpcCoherence
import Ocse.Receiver
import Ocse.ChunkReceive
import Ocse.ChunkInvariance
import Ocse.Amo
import Ocse.AmoFaults
import Ocse.AmoPlacement
import Ocse.ClientMemory
import Ocse.MemReply
import Ocse.AmoOps
import Ocse.MmioLedger
import Ocse.LostAck
import Ocse.AckFraming
import Ocse.AttachAccount
import Ocse.ApiCalls
import Ocse.ApiSuccess
import Ocse.ApiHonest
import Ocse.BeatStream
import Ocse.BeatHandlers
import Ocse.BeatCmd
import Ocse.BeatAssembly
import Ocse.BeatLoop
import Ocse.ByteEnable
import Ocse.ReadTurns
import Ocse.FailedRead
import Ocse.SplitRead
import Ocse.LpcLoop
import Ocse.PutBytes
import Ocse.GetBytes
import Ocse.CopyBounds
import Ocse.DriverFifo
import Ocse.Staging
import Ocse.PasidWindow
import Ocse.Discovery
import Ocse.BarWindows
import Ocse.PasidActag
import Ocse.NameLookup
import Ocse.Lib.CText
import Ocse.DevicePath
import Ocse.Lib.LinkedList
import Ocse.WaitList
import Ocse.EventQueue
import Ocse.BadData
import Ocse.ParmsFile
import Ocse.Lib.DoublyLinked
import Ocse.OclList
import Ocse.MmioAreas
import Ocse.Lib.LinkWalk
import Ocse.CmdList
import Ocse.Server
import Ocse.Lib.History
import Ocse.Traffic
import Ocse.Dma
import Ocse.DmaCoherence
import Ocse.Lib.Fair
import Ocse.Opening
import Ocse.Connections
import Ocse.Handshake
import Ocse.BfmCycle
import Ocse.LinkMessages
import Ocse.LinkGroups
import Ocse.LinkDelivery
import Ocse.SharedInterface
import Ocse.TlxThread
import Ocse.AckOwners
import Ocse.ThreadQueue
