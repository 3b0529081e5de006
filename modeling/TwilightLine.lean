import TwilightLine.Flow.PacketProtoDecoder
import TwilightLine.Base.BPendingGroup
import TwilightLine.Flow.PacketPassFairQueueFairness
import TwilightLine.UdpgwClient.UdpGwSend
import TwilightLine.Socksclient.BSocksClientRuns
import TwilightLine.Tun2socks.SocksUsernameRuns
import TwilightLine.System.BReactorTimerRuns
import TwilightLine.System.BReactorSynchronize
import TwilightLine.App.ProxyManagerRuns
import TwilightLine.Structure.ChunkBuffer2Memory
import TwilightLine.Tun2socks.DeviceChecksum
import TwilightLine.Tun2socks.DeviceReads
import TwilightLine.Tun2socks.DeviceRoundTrip
import TwilightLine.Tun2socks.TcpClientMarkers
import TwilightLine.Tun2socks.TcpClientUpload
import TwilightLine.Tun2socks.TcpClientDownload
import TwilightLine.Tun2socks.UdpDelivery
import TwilightLine.UdpgwClient.UdpGwServer
import TwilightLine.UdpgwClient.UdpGwClientRebind
import TwilightLine.UdpgwClient.UdpGwClientTables
import TwilightLine.SocksUdpClient.SocksUdpDns
import TwilightLine.SocksUdpClient.SocksUdpMessages
import TwilightLine.SocksUdpClient.SocksUdpFamily
import TwilightLine.Tun2socks.SocksUdpGwClientRuns
import TwilightLine.Flow.PacketProtoFlowLarge
import TwilightLine.Tun2socks.DeviceUdpGwRuns
import TwilightLine.SocksUdpClient.SocksUdpResourcesRuns
import TwilightLine.UdpgwClient.UdpGwMessages
import TwilightLine.Flow.PacketPassFairQueueTimes
import TwilightLine.Flow.PacketBuffer
import TwilightLine.Structure.ChunkBuffer2Ints
import TwilightLine.System.BReactorFds
import TwilightLine.System.BConnectionRuns
import TwilightLine.System.BDatagramRuns
import TwilightLine.UdpgwClient.UdpGwClientConids
import TwilightLine.Misc.ParseNumber
import TwilightLine.Misc.Ipaddr6
import TwilightLine.Misc.Ipaddr6Forms
import TwilightLine.Misc.Ipaddr6Steps
import TwilightLine.Misc.Ipaddr6Quad
import TwilightLine.Misc.Ipaddr6Parse
import TwilightLine.Misc.Ipaddr6Print
import TwilightLine.Structure.BAVLRuns
import TwilightLine.Structure.CAvlRuns
import TwilightLine.Lwip.InetChksum
import TwilightLine.Lwip.Ip4Reass
import TwilightLine.Lib.Serial
import TwilightLine.Lwip.TcpIn
import TwilightLine.Lwip.TcpPieces
import TwilightLine.Lwip.TcpReceive
import TwilightLine.Lwip.TcpStream
import TwilightLine.Lwip.TcpDelivery
