import ServerFrame.Lib.Run
import ServerFrame.Lib.EState
import ServerFrame.Lib.Codec
import ServerFrame.ByteArray.Codec
import ServerFrame.ByteArray.Invariant
import ServerFrame.ByteArray.Refinement
import ServerFrame.ByteArray.Safety
import ServerFrame.ByteArray.Reachable
import ServerFrame.ByteArray.Positional
import ServerFrame.ByteArray.File
import ServerFrame.ByteArray.Empty
import ServerFrame.IOManager.Dispatch
import ServerFrame.Scheduler.Shutdown
import ServerFrame.Scheduler.Exclusive
import ServerFrame.Http.KeepAlive
import ServerFrame.Http.ContentEncoding
import ServerFrame.Http.RoundTrip
import ServerFrame.Http.ChunkedBody
import ServerFrame.Timer.Expiry
import ServerFrame.Timer.Lifetime
import ServerFrame.Timer.Wakeup
import ServerFrame.IOManager.Growth
import ServerFrame.Config.Listeners
import ServerFrame.Config.LexicalCast
import ServerFrame.Config.Loading
import ServerFrame.Pool.Accounting
import ServerFrame.Log.FileAppender
import ServerFrame.Log.Pattern
import ServerFrame.Log.Loggers
import ServerFrame.Log.Definitions
import ServerFrame.Hook.Flags
import ServerFrame.Hook.Timeout
import ServerFrame.Hook.Reuse
import ServerFrame.ByteArray.ShortString
import ServerFrame.Http.Servlet
import ServerFrame.Http.Method
import ServerFrame.Http.FormEncoding
import ServerFrame.Http.LazyParams
import ServerFrame.Http.Documents
import ServerFrame.Http.BodyLimit
import ServerFrame.Stream.FixSize
import ServerFrame.Stream.ZlibStream
import ServerFrame.Socket.SslSocket
import ServerFrame.Socket.Addresses
import ServerFrame.Socket.TcpServer
import ServerFrame.Socket.TcpServerConf
import ServerFrame.IOManager.IdleWait
import ServerFrame.IOManager.Index
import ServerFrame.IOManager.Stop
import ServerFrame.IOManager.Turns
import ServerFrame.IOManager.Tickle
import ServerFrame.Scheduler.Affinity
import ServerFrame.Hook.Contexts
import ServerFrame.Timer.OnTime
import ServerFrame.Hook.Sleep
import ServerFrame.Pool.Limits
import ServerFrame.Pool.Requests
import ServerFrame.Http.UriStates
import ServerFrame.Http.Uri
import ServerFrame.Http.UriZones
import ServerFrame.Http.UriPort
import ServerFrame.Http.IpLiteral
import ServerFrame.Http.Ipv6
import ServerFrame.Http.IpRuns
import ServerFrame.Http.UriHost
import ServerFrame.Http.UriRules
import ServerFrame.Http.UriRoundTrip
import ServerFrame.Util.Base64
import ServerFrame.Util.Hexstring
import ServerFrame.Util.Hash
import ServerFrame.Util.Split
import ServerFrame.Util.Replace
import ServerFrame.Util.Trim
import ServerFrame.Util.UrlCodec
import ServerFrame.Util.JsonUtil
import ServerFrame.Log.Inheritance
import ServerFrame.Util.BinarySearch
import ServerFrame.ByteArray.Varint
import ServerFrame.Socket.Subnet
import ServerFrame.Socket.Lookup
import ServerFrame.Socket.AddressText
import ServerFrame.Util.JsonYaml
import ServerFrame.Util.FSUtil
import ServerFrame.Util.Rm
import ServerFrame.Util.Mv
import ServerFrame.Http.ResponseWalk
import ServerFrame.Http.ResponseRoundTrip
import ServerFrame.Http.Exchange
import ServerFrame.Stream.Transfer
import ServerFrame.Socket.Accepting
