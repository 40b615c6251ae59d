import Sponge.Runs
import Sponge.ByteStream
import Sponge.BoundedQueue
import Sponge.ByteStreamRuns
import Sponge.Slices
import Sponge.SlidingWindow
import Sponge.StreamReassembler
import Sponge.ReassemblerWindow
import Sponge.ReassemblerDelivery
import Sponge.ReassemblerRuns
import Sponge.ReassemblerBounds
import Sponge.TCPReceiver
import Sponge.ReceiverRuns
import Sponge.ArbitrarySegments
import Sponge.OutOfWindow
import Sponge.LongStreams
import Sponge.Tilings
import Sponge.TCPSender
import Sponge.SenderInvariant
import Sponge.SenderWindow
import Sponge.SenderHistory
import Sponge.UnacceptableAcks
import Sponge.FillWindow
import Sponge.RetransmissionTimer
import Sponge.TCPConnection
import Sponge.Endpoint
import Sponge.Network
import Sponge.Acknowledgments
import Sponge.AcknowledgedBytes
import Sponge.CleanShutdown
import Sponge.Backoff
import Sponge.DeadConnection
import Sponge.Abort
import Sponge.TCPState
import Sponge.Listening
import Sponge.AdvertisedWindow
import Sponge.EndedInput
import Sponge.BigEndian
import Sponge.OnesComplement
import Sponge.InternetChecksum
import Sponge.NetParser
import Sponge.Pieces
import Sponge.SharedBuffer
import Sponge.NetParserRequests
import Sponge.TCPSerialization
import Sponge.IPv4Datagram
import Sponge.Address
import Sponge.TCPOverIPv4
import Sponge.Demultiplexing
import Sponge.EthernetFrame
import Sponge.NetworkInterface
import Sponge.EthernetAdapter
import Sponge.InterfaceCalls
import Sponge.GatedQueue
import Sponge.DatagramOrder
import Sponge.ExpiringLookup
import Sponge.AddressResolution
import Sponge.ARPTables
import Sponge.LocalNetwork
import Sponge.Router
import Sponge.LastMaximum
import Sponge.LongestPrefix
import Sponge.Forwarding
import Sponge.FileDescriptor
import Sponge.EventLoop
import Sponge.Adapters
import Sponge.EmittedSegments
import Sponge.SpongeSocket
import Sponge.SocketNetwork
import Sponge.SocketClose
import Sponge.StreamCopy
import Sponge.Completion
import Sponge.Internetwork
import Sponge.RoutedNetwork
