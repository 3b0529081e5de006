import TwilightLine.Misc.IpProto
import TwilightLine.Misc.UdpChecksum
import TwilightLine.System.BAddr

/-! UDP between the TUN device and the UDP clients.

`processDeviceUdpPacket` takes a packet read from the device and either submits a
datagram to a UDP client or leaves the packet to lwIP. `udpSendPacketToDevice` is
the way back: it writes the packet that carries a datagram to the device. Both
are `tun2socks.c`'s, with the options and globals they read in `DeviceConfig`. -/
namespace TwilightLine

/-- `enum UdpMode`. -/
inductive UdpMode where
  | none
  | udpgw
  | socks
  deriving DecidableEq, Repr

/-- The options and globals that UDP forwarding reads. -/
structure DeviceConfig where
  /-- `udp_mode`. -/
  udpMode : UdpMode
  /-- `BTap_GetMTU(&device)`. -/
  deviceMtu : Nat
  /-- `udp_mtu`. -/
  udpMtu : Nat
  /-- `options.netif_ip6addr` is given. -/
  netifIp6addr : Bool
  /-- `netif_ipaddr.ipv4`. -/
  netifIpaddr : UInt32
  /-- `options.udpgw_transparent_dns`. -/
  transparentDns : Bool
  deriving DecidableEq, Repr

/-- The arguments of the submit call of a UDP client. -/
structure DeviceDatagram where
  localAddr : BAddr
  remoteAddr : BAddr
  isDns : Bool
  data : List UInt8
  deriving DecidableEq, Repr

/-! ### From the device -/

/-- The checksum test of the IPv4 branch. -/
def udpChecksumTest (iph : Ipv4Header) (udph : UdpHeader) (payload : List UInt8) : Bool :=
  udph.checksum == udpChecksum {udph with checksum := 0} payload iph.sourceAddress iph.destinationAddress

/-- The checksum test of the IPv6 branch. -/
def udpIp6ChecksumTest (iph : Ipv6Header) (udph : UdpHeader) (payload : List UInt8) : Bool :=
  udph.checksum == udpIp6Checksum {udph with checksum := 0} payload iph.sourceAddress iph.destinationAddress

/-- The IPv4 headers and payload of a packet that gets as far as the checksum test. -/
def parseDevice4 (data : List UInt8) : Option (Ipv4Header × UdpHeader × List UInt8) :=
  -- ignore non-UDP packets
  if data.length < ipv4HeaderSize ∨ data.getD 9 0 ≠ 17 then none
  else do
    let (iph, data) ← ipv4Check data
    let (udph, data) ← udpCheck data
    return (iph, udph, data)

/-- The IPv6 headers and payload of a packet that gets as far as the checksum test. -/
def parseDevice6 (data : List UInt8) : Option (Ipv6Header × UdpHeader × List UInt8) :=
  if data.length < ipv6HeaderSize ∨ data.getD 6 0 ≠ 17 then none
  else do
    let (iph, data) ← ipv6Check data
    let (udph, data) ← udpCheck data
    return (iph, udph, data)

/-- `ip_version`. -/
def ipVersion (data : List UInt8) : UInt8 := if data.length > 0 then data.getD 0 0 >>> 4 else 0

/-- The addresses, the DNS mark and the payload of a packet that passes every test
but the last, on the payload's length. -/
def parseDeviceUdp (cfg : DeviceConfig) (data : List UInt8) : Option DeviceDatagram :=
  if ipVersion data = 4 then do
    let (iph, udph, payload) ← parseDevice4 data
    if udpChecksumTest iph udph payload then
      some
        { localAddr := .ipv4 iph.sourceAddress udph.sourcePort
          remoteAddr := .ipv4 iph.destinationAddress udph.destPort
          -- transparent DNS: anything for port 53 of the netif's own address
          isDns := cfg.transparentDns && (iph.destinationAddress == cfg.netifIpaddr) &&
            (udph.destPort == hton16 53)
          data := payload }
    else none
  else if ipVersion data = 6 then
    if !cfg.netifIp6addr then none
    else do
      let (iph, udph, payload) ← parseDevice6 data
      if udpIp6ChecksumTest iph udph payload then
        some
          { localAddr := .ipv6 iph.sourceAddress udph.sourcePort
            remoteAddr := .ipv6 iph.destinationAddress udph.destPort
            isDns := false
            data := payload }
      else none
  else none

/-- `process_device_udp_packet`: the datagram submitted, if any. -/
def processDeviceUdpPacket (cfg : DeviceConfig) (data : List UInt8) : Option DeviceDatagram :=
  if cfg.udpMode = .none then none
  else do
    let datagram ← parseDeviceUdp cfg data
    if datagram.data.length > cfg.udpMtu then none else some datagram

/-! ### To the device -/

/-- What becomes of a datagram for the device. -/
inductive DeviceWrite where
  /-- An assertion fails. -/
  | assertion
  /-- The datagram is dropped with a message. -/
  | dropped
  /-- `BTap_Send` of the packet. -/
  | packet (bytes : List UInt8)
  deriving DecidableEq, Repr

/-- The packet of the IPv4 branch. -/
def deviceUdpPacket4 (localIp : UInt32) (localPort : UInt16) (remoteIp : UInt32) (remotePort : UInt16)
    (data : List UInt8) : List UInt8 :=
  let iph : Ipv4Header :=
    { version4Ihl4 := 0x45
      ds := 0
      totalLength := hton16 (UInt16.ofNat (ipv4HeaderSize + udpHeaderSize + data.length))
      identification := hton16 0
      flags3Fragmentoffset13 := hton16 0
      ttl := 64
      protocol := 17
      checksum := hton16 0
      sourceAddress := remoteIp
      destinationAddress := localIp }
  let iph := {iph with checksum := ipv4Checksum iph []}
  let udph : UdpHeader :=
    { sourcePort := remotePort
      destPort := localPort
      length := hton16 (UInt16.ofNat (udpHeaderSize + data.length))
      checksum := hton16 0 }
  let udph := {udph with checksum := udpChecksum udph data iph.sourceAddress iph.destinationAddress}
  iph.bytes ++ udph.bytes ++ data

/-- The packet of the IPv6 branch. -/
def deviceUdpPacket6 (localIp : Vector UInt8 16) (localPort : UInt16) (remoteIp : Vector UInt8 16)
    (remotePort : UInt16) (data : List UInt8) : List UInt8 :=
  let iph : Ipv6Header :=
    { version4Tc4 := (6 : UInt8) <<< 4
      tc4Fl4 := 0
      fl := hton16 0
      payloadLength := hton16 (UInt16.ofNat (udpHeaderSize + data.length))
      nextHeader := 17
      hopLimit := 64
      sourceAddress := remoteIp
      destinationAddress := localIp }
  let udph : UdpHeader :=
    { sourcePort := remotePort
      destPort := localPort
      length := hton16 (UInt16.ofNat (udpHeaderSize + data.length))
      checksum := hton16 0 }
  let udph := {udph with checksum := udpIp6Checksum udph data iph.sourceAddress iph.destinationAddress}
  iph.bytes ++ udph.bytes ++ data

/-- The assertions of `udp_send_packet_to_device` on the address types. -/
def deviceAddrTypesOk (localAddr remoteAddr : BAddr) : Bool :=
  decide (localAddr.isIp ∧ localAddr.type = remoteAddr.type)

/-- `udp_send_packet_to_device`. -/
def udpSendPacketToDevice (cfg : DeviceConfig) (localAddr remoteAddr : BAddr) (data : List UInt8) :
    DeviceWrite :=
  if cfg.udpMode = .none ∨ !deviceAddrTypesOk localAddr remoteAddr then .assertion
  else
    match localAddr, remoteAddr with
    | .ipv4 localIp localPort, .ipv4 remoteIp remotePort =>
      if data.length > 65535 - (ipv4HeaderSize + udpHeaderSize) ∨
          (data.length : Int) > (cfg.deviceMtu : Int) - (ipv4HeaderSize + udpHeaderSize) then .dropped
      else .packet (deviceUdpPacket4 localIp localPort remoteIp remotePort data)
    | .ipv6 localIp localPort, .ipv6 remoteIp remotePort =>
      if !cfg.netifIp6addr then .dropped
      else if data.length > 65535 - udpHeaderSize ∨
          (data.length : Int) > (cfg.deviceMtu : Int) - (ipv6HeaderSize + udpHeaderSize) then .dropped
      else .packet (deviceUdpPacket6 localIp localPort remoteIp remotePort data)
    | _, _ => .assertion

end TwilightLine
