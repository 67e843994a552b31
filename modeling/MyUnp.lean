import MyUnp.TransitionSystem
import MyUnp.Fifo
import MyUnp.LinePieces
import MyUnp.MemoryBlock
import MyUnp.SlotTable
import MyUnp.Unp
import MyUnp.Atol
import MyUnp.Readn
import MyUnp.Readline
import MyUnp.EchoServer
import MyUnp.StopAndWaitClient
import MyUnp.StopAndWaitSync
import MyUnp.SelectClient
import MyUnp.SelectClientEcho
import MyUnp.SelectClientDeadlock
import MyUnp.PollServer
import MyUnp.PollServerRule
import MyUnp.PollServerTable
import MyUnp.PollServerScan
import MyUnp.PollServerEcho
import MyUnp.PartialDelivery
import MyUnp.PartialDeliveryLaw
import MyUnp.WebChild
import MyUnp.WebChildProtocol
import MyUnp.PreforkServer
import MyUnp.PreforkAccounting
import MyUnp.PreforkPool
import MyUnp.StopAndWaitHang
import MyUnp.SelectLineClient
import MyUnp.SelectLineClientEof
import MyUnp.SelectLineClientBuffers
import MyUnp.MessagePieces
import MyUnp.SctpEchoServer
import MyUnp.PartialDeliveryKinds
import MyUnp.FieldAccess
import MyUnp.NotificationServer
import MyUnp.UrgentReceiver
import MyUnp.ChildProcesses
import MyUnp.ForkServer
import MyUnp.ForkServerReaping
import MyUnp.ForkServerErrno
import MyUnp.DescriptorTable
import MyUnp.TcpListen
import MyUnp.SocketAddress
import MyUnp.SctpBindArgs
import MyUnp.SctpPrintAddrs
import MyUnp.ByteStream
import MyUnp.PreforkIsolation
import MyUnp.PreforkShutdown
import MyUnp.PreforkDrain
import MyUnp.UrgentStream
import MyUnp.UrgentReader
import MyUnp.UrgentInline
import MyUnp.UrgentSelect
import MyUnp.UrgentSignal
import MyUnp.DatagramEcho
import MyUnp.DatagramClient
import MyUnp.Decimal
import MyUnp.EchoAllClient
import MyUnp.ForkDescriptors
import MyUnp.PollServerFaults
import MyUnp.PollServerService
import MyUnp.PollServerClients
import MyUnp.PollServerStarvation
import MyUnp.WebExchange
import MyUnp.WebClient
import MyUnp.WebClientRun
import MyUnp.AccessSpan
import MyUnp.ReceiveBuffer
import MyUnp.SctpReplyStream
import MyUnp.WebClientReply
import MyUnp.PartialDeliveryEnd
import MyUnp.TcpConnect
import MyUnp.Strtol
import MyUnp.Printf
import MyUnp.SctpStrCli
import MyUnp.SctpStrCliLines
import MyUnp.SctpStrCliReply
import MyUnp.CheckNotification
import MyUnp.SctpStrCliLoop
import MyUnp.EchoAllMessages
import MyUnp.InetNtop
import MyUnp.InetPton
import MyUnp.SockNtopText
import MyUnp.Scanf
import MyUnp.StrEcho2
import MyUnp.DaytimeClient
import MyUnp.StopAndWaitProgress
import MyUnp.ForkEcho
import MyUnp.ForkEchoProgress
import MyUnp.InetAton
