import EmbedMq.Codec.Integrity
import EmbedMq.Delivery.AtLeastOnce
import EmbedMq.Delivery.AtMostOnce
import EmbedMq.Delivery.Handshake
import EmbedMq.Delivery.Reliable
import EmbedMq.Discovery.Mirror
import EmbedMq.Concurrent.Actions
import EmbedMq.Concurrent.Requests
import EmbedMq.Concurrent.Shutdown
import EmbedMq.Concurrent.Handlers
import EmbedMq.Concurrent.Retransmission
import EmbedMq.Concurrent.Sequential
import EmbedMq.Delivery.Agreement
import EmbedMq.Concurrent.Requester
import EmbedMq.Discovery.Staleness
import EmbedMq.Discovery.Announce
import EmbedMq.Discovery.Farewell
import EmbedMq.Transport.Basic
import EmbedMq.Transport.Link
import EmbedMq.Bus.Publishing
import EmbedMq.Bus.Routing
import EmbedMq.Bus.Services
import EmbedMq.Concurrent.LocalTopics
import EmbedMq.Discovery.Reader
import EmbedMq.Discovery.Routable
import EmbedMq.Discovery.Isolation
import EmbedMq.Transport.Stations
import EmbedMq.Transport.Answers
import EmbedMq.Discovery.Traces
import EmbedMq.Bus.Retention
import EmbedMq.Bus.Replay
import EmbedMq.Concurrent.Durable
import EmbedMq.Concurrent.Unsubscribe
import EmbedMq.Delivery.Retained
import EmbedMq.Transport.Inboxes
import EmbedMq.Transport.Shutdown
import EmbedMq.Transport.Ring
import EmbedMq.Transport.RingSafety
import EmbedMq.Transport.RingDrops
import EmbedMq.Bus.Wildcards
import EmbedMq.Qos.Window
import EmbedMq.Qos.Accounting
import EmbedMq.Transport.SlotAddresses
import EmbedMq.Transport.TcpSender
import EmbedMq.Foundation.Descriptors
import EmbedMq.Transport.TcpSockets
import EmbedMq.Transport.TcpAddressees
import EmbedMq.Transport.Gather
import EmbedMq.Bus.Deadlines
import EmbedMq.Util.TimerWheel
import EmbedMq.Util.Timers
import EmbedMq.Util.TimerPlaces
import EmbedMq.Util.TimerSchedule
import EmbedMq.Util.CancelRecords
import EmbedMq.Foundation.BoundedFifo
import EmbedMq.Util.MpscQueue
import EmbedMq.Util.SpscRing
import EmbedMq.Foundation.ByteMemory
import EmbedMq.Transport.InboxGeometry
import EmbedMq.Transport.Mapping
import EmbedMq.Transport.InboxHistory
import EmbedMq.Foundation.Extents
import EmbedMq.Foundation.LinkChain
import EmbedMq.Util.BlockInvariant
import EmbedMq.Util.BlockPartition
import EmbedMq.Util.BlockAlignment
import EmbedMq.Bus.Tables
import EmbedMq.Participant.Basic
import EmbedMq.Participant.Network
import EmbedMq.Participant.Records
import EmbedMq.Transport.RingDrains
import EmbedMq.Util.WheelThread
import EmbedMq.Foundation.Scan
import EmbedMq.Participant.Answering
import EmbedMq.Participant.Authenticity
import EmbedMq.Transport.ConfigText
import EmbedMq.Transport.UdpDrains
import EmbedMq.Transport.TcpReceiver
import EmbedMq.Transport.TcpShutdown
