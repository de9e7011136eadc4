import Teonet.Lib.Alternation
import Teonet.Lib.Base64
import Teonet.Lib.Bytes
import Teonet.Lib.CString
import Teonet.Lib.Decimal
import Teonet.Lib.Directory
import Teonet.Lib.FailFast
import Teonet.Lib.FinMap
import Teonet.Lib.Framing
import Teonet.Lib.Heap
import Teonet.Lib.JsonText
import Teonet.Lib.Lines
import Teonet.Lib.ListMove
import Teonet.Lib.Multimap
import Teonet.Lib.Pieces
import Teonet.Lib.Pkcs7
import Teonet.Lib.PrefixRange
import Teonet.Lib.Probing
import Teonet.Lib.QuoteMask
import Teonet.Lib.Replace
import Teonet.Lib.Runs
import Teonet.Lib.Sections
import Teonet.Lib.TextBuffer
import Teonet.Lib.TokenScan
import Teonet.Lib.TokenTree
import Teonet.Lib.Windows
import Teonet.AsyncCalls
import Teonet.AsyncQueue
import Teonet.AsyncRuns
import Teonet.Base64
import Teonet.CQue
import Teonet.CQueFields
import Teonet.CQueIds
import Teonet.CQueNested
import Teonet.CQueRuns
import Teonet.CommandCodecs
import Teonet.CommandData
import Teonet.ConnectR
import Teonet.Core
import Teonet.CoreSend
import Teonet.Crypt
import Teonet.CryptBuffers
import Teonet.HostInfo
import Teonet.JsonTags
import Teonet.L0Auth
import Teonet.L0Commands
import Teonet.L0Envelope
import Teonet.L0Expiry
import Teonet.L0Idle
import Teonet.L0Json
import Teonet.L0Names
import Teonet.L0Net
import Teonet.L0Packet
import Teonet.L0Read
import Teonet.L0ReadBuffer
import Teonet.L0Requests
import Teonet.L0Server
import Teonet.L0Sessions
import Teonet.L0Stat
import Teonet.L0Trudp
import Teonet.LogReader
import Teonet.LogReaderReads
import Teonet.Mesh
import Teonet.NetMulti
import Teonet.Packet
import Teonet.PacketReads
import Teonet.PblIterator
import Teonet.PblMap
import Teonet.PblSet
import Teonet.Peers
import Teonet.PeersAnswer
import Teonet.PeersJson
import Teonet.PeersNetwork
import Teonet.PeersTable
import Teonet.Presence
import Teonet.Reconnect
import Teonet.Split
import Teonet.SplitCalls
import Teonet.SplitNested
import Teonet.SplitReads
import Teonet.SplitRuns
import Teonet.Stream
import Teonet.StreamClosePeer
import Teonet.StreamRecords
import Teonet.StreamRuns
import Teonet.StringArr
import Teonet.StringArrMove
import Teonet.StringArrParts
import Teonet.Subscribe
import Teonet.SubscribeNet
import Teonet.SubscribeRoutes
import Teonet.TcpProxy
import Teonet.TcpProxyClient
import Teonet.TcpProxyErrors
import Teonet.TcpProxyReads
import Teonet.TcpProxyServer
import Teonet.TcpProxyStream
import Teonet.TcpProxyWrites
import Teonet.TeoDb
import Teonet.TeoDbJson
import Teonet.TeoDbKeyList
import Teonet.TeoDbNet
import Teonet.TeoDbRange
import Teonet.TeoDbRequests
import Teonet.TermEscapes
import Teonet.TextFilter
import Teonet.TextFilterGrammar
import Teonet.TextFilterMatch
import Teonet.Tunnel
import Teonet.TunnelPair
import Teonet.Vpn
import Teonet.VpnNetwork
import Teonet.WebSocketAuth
import Teonet.WsConversions
import Teonet.WsFrame
