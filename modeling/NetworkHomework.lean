import NetworkHomework.Foundation.Transition
import NetworkHomework.Ftp.Checksum
import NetworkHomework.Ftp.Packet
import NetworkHomework.Ftp.Server
import NetworkHomework.Ftp.Client
import NetworkHomework.Ftp.Chunks
import NetworkHomework.Ftp.Moves
import NetworkHomework.Ftp.Pair
import NetworkHomework.Ftp.Integrity
import NetworkHomework.Ftp.Recovery
import NetworkHomework.Foundation.CString
import NetworkHomework.Ftp.Discovery
import NetworkHomework.Ftp.Site
import NetworkHomework.Ftp.Isolation
import NetworkHomework.Chat.Header
import NetworkHomework.Chat.Queue
import NetworkHomework.Chat.Broadcast
import NetworkHomework.Chat.Failure
import NetworkHomework.Chat.Delivery
import NetworkHomework.Chat.Client
import NetworkHomework.Chat.Session
import NetworkHomework.Chat.SessionEnd
import NetworkHomework.Chat.Framing
import NetworkHomework.Chat.Threads
import NetworkHomework.Chat.Descriptors
import NetworkHomework.Chat.OwnDescriptors
import NetworkHomework.Chat.LiveWalks
import NetworkHomework.Foundation.OnesComplement
import NetworkHomework.Foundation.BitString
import NetworkHomework.Ftp.InternetChecksum
import NetworkHomework.Ftp.Reception
import NetworkHomework.Ftp.FileRequest
import NetworkHomework.Ftp.FindServer
import NetworkHomework.Ftp.Ports
import NetworkHomework.Ftp.Emitted
import NetworkHomework.Ftp.Acknowledged
import NetworkHomework.Ftp.Truncated
import NetworkHomework.Ftp.Numbering
import NetworkHomework.Ftp.Peer
import NetworkHomework.Chat.MemberList
import NetworkHomework.Chat.PrivateMessage
import NetworkHomework.Chat.Texts
import NetworkHomework.Chat.TypedLines
import NetworkHomework.Ping.Probe
import NetworkHomework.Ping.Replies
import NetworkHomework.Ping.Packet
import NetworkHomework.Arp.MacAddress
import NetworkHomework.Arp.CommandLine
import NetworkHomework.Foundation.Fields
import NetworkHomework.Foundation.Scan
import NetworkHomework.Arp.Spoof
import NetworkHomework.Arp.PrintedMac
import NetworkHomework.Foundation.Progress
import NetworkHomework.Foundation.Simulation
import NetworkHomework.Ftp.Exchange
import NetworkHomework.Ftp.Recoverable
import NetworkHomework.Ftp.Timers
import NetworkHomework.Ftp.Stages
import NetworkHomework.Ftp.Losses
import NetworkHomework.Ftp.Patience
import NetworkHomework.Foundation.HandOver
import NetworkHomework.Ftp.Refinement
import NetworkHomework.Foundation.ReadsBack
import NetworkHomework.Arp.Listing
import NetworkHomework.Arp.Query
import NetworkHomework.Chat.Conversation
import NetworkHomework.Chat.LocalSteps
import NetworkHomework.Chat.ThreadSessions
import NetworkHomework.Chat.Provenance
import NetworkHomework.Chat.Accounting
import NetworkHomework.Foundation.Locks
import NetworkHomework.Ping.Attribution
import NetworkHomework.Chat.Mutexes
import NetworkHomework.Ftp.Embedding
import NetworkHomework.Ftp.Search
