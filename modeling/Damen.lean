import Damen.Framework.OrderedMap
import Damen.Framework.CyclicField
import Damen.Framework.GaussJordan
import Damen.Model.Wire
import Damen.Model.Fec
import Damen.Properties.ByteField
import Damen.Properties.Elimination
import Damen.Properties.Erasure
import Damen.Framework.Drain
import Damen.Framework.Run
import Damen.Model.Peer
import Damen.Model.Reassembler
import Damen.Model.Fragmenter
import Damen.Properties.WireFormat
import Damen.Properties.Assembly
import Damen.Properties.Message
import Damen.Properties.Reassembly
import Damen.Model.Report
import Damen.Model.Command
import Damen.Model.Bandwidth
import Damen.Model.Session
import Damen.Model.Handlers
import Damen.Model.Endpoint
import Damen.Properties.ReportScan
import Damen.Properties.SequenceTracking
import Damen.Properties.MissingSequences
import Damen.Properties.ReportCoverage
import Damen.Properties.PeerView
import Damen.Properties.Frames
import Damen.Properties.Dispatch
import Damen.Properties.Admission
import Damen.Properties.CommandNonce
import Damen.Properties.TokenDisclosure
import Damen.Properties.Downgrade
import Damen.Properties.HandshakeRetry
import Damen.Properties.ClockSync
import Damen.Properties.Codec
import Damen.Model.Gcm
import Damen.Framework.BitPolynomial
import Damen.Framework.BigEndian
import Damen.Framework.BlockStream
import Damen.Framework.Sp80038D
import Damen.Properties.WordBytes
import Damen.Properties.CounterMode
import Damen.Properties.Ghash
import Damen.Properties.AuthenticatedEncryption
import Damen.Properties.SecureWire
import Damen.Properties.CommandOrder
import Damen.Model.SendQueue
import Damen.Properties.Scheduling
import Damen.Properties.CommandSync
import Damen.Model.DataPath
import Damen.Properties.ReportHandling
import Damen.Properties.DataNonce
import Damen.Properties.NewSession
import Damen.Properties.Reliability
import Damen.Framework.Index
import Damen.Properties.Contact
import Damen.Properties.AddressIndex
import Damen.Model.Outbound
import Damen.Model.Impl
import Damen.Properties.QueuedWork
import Damen.Properties.Routing
import Damen.Properties.PhantomGaps
import Damen.Properties.Resurrection
import Damen.Framework.Locks
import Damen.Model.Locks
import Damen.Properties.CallbackLocks
import Damen.Model.LiteMode
import Damen.Properties.ModeSwitch
import Damen.Properties.PacketSeries
import Damen.Properties.InOrder
import Damen.Framework.Wrapping
import Damen.Framework.Rfc7748
import Damen.Model.X25519
import Damen.Properties.FieldElement
import Damen.Properties.KeyBytes
import Damen.Properties.KeyAgreement
import Damen.Properties.DatagramSize
import Damen.Properties.HandshakePayload
import Damen.Model.Gateway.Message
import Damen.Model.Gateway.Board
import Damen.Model.Gateway.Server
import Damen.Model.Gateway.Reactor
import Damen.Properties.Gateway.Timers
import Damen.Properties.Gateway.InboxLoss
import Damen.Properties.Gateway.DeviceEntries
import Damen.Framework.Threads
import Damen.Model.Gateway.BoardLocks
import Damen.Properties.Gateway.BoardDeadlock
import Damen.Properties.Gateway.DeviceIsolation
import Damen.Properties.Gateway.ConnectionGauge
import Damen.Properties.Gateway.Episodes
import Damen.Framework.Crc
import Damen.Properties.Corruption
import Damen.Properties.HeaderLayout
import Damen.Properties.ReportRoundTrip
import Damen.Properties.EarlyReports
import Damen.Properties.GapTable
import Damen.Properties.GiveUp
import Damen.Properties.MalformedGroups
import Damen.Properties.CheckedErasure
import Damen.Properties.EncodedBytes
import Damen.Properties.CommandWindow
import Damen.Properties.Gateway.OutboundBytes
import Damen.Framework.FlatJson
import Damen.Properties.Gateway.TextSearch
import Damen.Properties.Gateway.UpstreamType
import Damen.Properties.Gateway.DownstreamFields
import Damen.Model.Gateway.Heartbeat
import Damen.Properties.Gateway.HeartbeatTimeout
import Damen.Framework.RingBuffer
import Damen.Properties.BandwidthFilters
import Damen.Framework.RefillingBucket
import Damen.Model.Gateway.RateLimit
import Damen.Properties.Gateway.RateBound
import Damen.Framework.LinkedCells
import Damen.Model.NodeQueue
import Damen.Framework.Simulation
import Damen.Properties.QueueShape
import Damen.Model.Gateway.NodeChannel
import Damen.Properties.Gateway.ChannelShape
import Damen.Model.Pacing
import Damen.Properties.Pacing
import Damen.Properties.EnqueuedSize
import Damen.Properties.OutboundFits
import Damen.Properties.SenderWedge
import Damen.Framework.Fips180
import Damen.Model.Sha256
import Damen.Properties.Compression
import Damen.Properties.StreamingHash
import Damen.Framework.MontgomeryCurve
import Damen.Framework.MontgomeryLadder
import Damen.Framework.Curve25519
import Damen.Properties.SharedSecret
import Damen.Properties.SessionKeys
import Damen.Framework.Fips197
import Damen.Properties.BlockCipher
import Damen.Model.BufferPool
import Damen.Properties.BufferPool
