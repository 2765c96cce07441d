import NekoLink.Android.Backend
import NekoLink.Android.PublicKeys
import NekoLink.Android.SavedConfig
import NekoLink.Android.Signaling
import NekoLink.Ctl.CacheAgreement
import NekoLink.Ctl.Completion
import NekoLink.Ctl.DnsCache
import NekoLink.Ctl.Exchange
import NekoLink.Ctl.KeyTexts
import NekoLink.Ctl.MtuNegotiation
import NekoLink.Ctl.MtuProbe
import NekoLink.Ctl.Roles
import NekoLink.Ctl.Sidecar
import NekoLink.Ctl.SignalReads
import NekoLink.Ctl.SmartHalt
import NekoLink.Ctl.Socks5Udp
import NekoLink.Ctl.Status
import NekoLink.Ctl.Tasks
import NekoLink.Device.ConnectedSockets
import NekoLink.Device.CryptokeyRouting
import NekoLink.Device.DeliveredPackets
import NekoLink.Device.EventLoop
import NekoLink.Device.FramingProgress
import NekoLink.Device.LimiterSharing
import NekoLink.Device.ListenPort
import NekoLink.Device.PeerIndices
import NekoLink.Device.PeriodicTimers
import NekoLink.Device.RecvBudget
import NekoLink.Device.ReturnPath
import NekoLink.Device.SendBatches
import NekoLink.Device.TcpConnections
import NekoLink.Device.TcpSender
import NekoLink.Device.TunnelMtu
import NekoLink.Device.UdpHandler
import NekoLink.Device.WaitingFrames
import NekoLink.Device.WorkerThreads
import NekoLink.Noise.Agreement
import NekoLink.Noise.Channel
import NekoLink.Noise.ColdStart
import NekoLink.Noise.Keepalives
import NekoLink.Noise.ReplayWindow
import NekoLink.Noise.Retries
import NekoLink.Noise.Survival
