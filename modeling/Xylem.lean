import Xylem.Container.MpscRun
import Xylem.Container.Ringbuf
import Xylem.Container.Spsc
import Xylem.Encoding.Json
import Xylem.Encoding.Url
import Xylem.Http.Decompress
import Xylem.Http.Faithful
import Xylem.Http.InSync
import Xylem.Http.NoProxy
import Xylem.Http.PoolKey
import Xylem.Http.PoolOwner
import Xylem.Http.RedirectClean
import Xylem.Http.TunnelHandshake
import Xylem.Mux.Budget
import Xylem.Mux.Framing
import Xylem.Mux.Shutdown
import Xylem.Net.Writer
import Xylem.Rudp.Dispatcher
import Xylem.Rudp.FecRecover
import Xylem.Runtime.Deadline
import Xylem.Runtime.TimerHeap
import Xylem.Sync.ChannelRecv
import Xylem.Sync.CondWait
import Xylem.Sync.SemCount
import Xylem.Tls.Deadline
import Xylem.Tls.Lifecycle
import Xylem.Utils
import Xylem.Ws.AfterClose
import Xylem.Ws.DeflateContext
import Xylem.Ws.Handshake
import Xylem.Ws.RoundTrip
