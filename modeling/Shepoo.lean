import Shepoo.Foundation.ByteCodec
import Shepoo.Foundation.BoundedLoop
import Shepoo.Foundation.ByteSource
import Shepoo.Foundation.PosixFile
import Shepoo.Foundation.SharedFile
import Shepoo.Foundation.CellArray
import Shepoo.Foundation.MaskedFrame
import Shepoo.Foundation.FieldSpelling
import Shepoo.Server.Blockstorage
import Shepoo.Server.Packet
import Shepoo.Server.Protocol
import Shepoo.Server.BlockDisclosure
import Shepoo.Server.BlockReading
import Shepoo.Server.BlockNumbers
import Shepoo.Server.BlockLocking
import Shepoo.Server.BlockAvailability
import Shepoo.Server.PayloadAccess
import Shepoo.Server.AnswerHeaders
import Shepoo.Server.WriteRuns
import Shepoo.Server.SendPacket
import Shepoo.Server.FrameConformance
import Shepoo.Server.WebSocketFrame
import Shepoo.Server.FrameRoundTrip
import Shepoo.Server.FrameBuffer
import Shepoo.Server.FrameDispatch
import Shepoo.Server.MaskTransparency
import Shepoo.Server.ClientFrames
import Shepoo.Server.Handshake
import Shepoo.Server.HandshakeReading
import Shepoo.Server.HeaderExtraction
import Shepoo.Server.HeaderAttribution
import Shepoo.Server.HandshakeScan
import Shepoo.Server.HandshakeLimits
import Shepoo.Server.UpgradeRequests
import Shepoo.Server.SecNet
import Shepoo.Server.ListenLoop
import Shepoo.Server.ProcessDescriptors
import Shepoo.Server.ConnectionOutput
import Shepoo.Server.PlainText
import Shepoo.Foundation.PathNames
import Shepoo.Server.Startup
import Shepoo.Server.StartupOptions
import Shepoo.Server.TextDestination
import Shepoo.Server.StorageSecrecy
import Shepoo.Server.RequestSplit
import Shepoo.Server.FrameAlignment
import Shepoo.Server.HeaderSpelling
import Shepoo.Server.RecordCuts
import Shepoo.Server.Admission
import Shepoo.Server.ReplyTransport
import Shepoo.Server.BlockService
import Shepoo.Foundation.Settling
import Shepoo.Foundation.SourceMap
import Shepoo.Server.WebSocketSession
import Shepoo.Server.ChildProgress
import Shepoo.Sigslot.Wiring
import Shepoo.Sigslot.Emission
import Shepoo.Sigslot.EmissionSafety
import Shepoo.Sigslot.Disconnection
import Shepoo.Server.PacketSignal
import Shepoo.Server.Availability
import Shepoo.Server.ShuffleServer
