import TwilightLine.Misc.IpPackets
import TwilightLine.Tun2socks.Device

/-! From the device and back.

What `udp_send_packet_to_device` writes, `process_device_udp_packet` reads: the packet fits
the device, and it comes back as the same datagram in the other direction. Stray bytes after
it do not matter, and neither do options in its IPv4 header (`roundTrip`). -/
namespace TwilightLine

/-- `udp_mtu`, as `main` computes it. -/
def deviceUdpMtu (deviceMtu : Nat) (netifIp6addr : Bool) : Nat :=
  let udpMtu : Int := deviceMtu - (ipv4HeaderSize + udpHeaderSize)
  let udpMtu :=
    if netifIp6addr then
      let udpIp6Mtu : Int := deviceMtu - (ipv6HeaderSize + udpHeaderSize)
      if udpMtu < udpIp6Mtu then udpIp6Mtu else udpMtu
    else udpMtu
  if udpMtu < 0 then 0 else udpMtu.toNat

theorem deviceUdpMtu_eq (deviceMtu : Nat) (netifIp6addr : Bool) : deviceUdpMtu deviceMtu netifIp6addr = deviceMtu - 28 := by
  have hless : ¬(deviceMtu : Int) - (ipv4HeaderSize + udpHeaderSize) < deviceMtu - (ipv6HeaderSize + udpHeaderSize) := by
    simp only [ipv4HeaderSize, ipv6HeaderSize]
    omega
  have hsizes : (ipv4HeaderSize : Int) + udpHeaderSize = 28 := rfl
  unfold deviceUdpMtu
  dsimp only
  rw [if_neg hless, ite_self, hsizes]
  split <;> omega

/-! ### Packets that are submitted -/

/-- What is submitted for an IPv4 packet. -/
def datagram4 (cfg : DeviceConfig) (iph : Ipv4Header) (udph : UdpHeader) (payload : List UInt8) : DeviceDatagram where
  localAddr := .ipv4 iph.sourceAddress udph.sourcePort
  remoteAddr := .ipv4 iph.destinationAddress udph.destPort
  isDns := cfg.transparentDns && (iph.destinationAddress == cfg.netifIpaddr) && (udph.destPort == hton16 53)
  data := payload

theorem version_eq (iph : Ipv4Header) : iph.version = iph.version4Ihl4 >>> 4 := by
  have hlt := iph.version4Ihl4.toNat_lt
  have hmask : iph.version4Ihl4.toNat / 16 &&& 15 = iph.version4Ihl4.toNat / 16 % 16 := Nat.and_two_pow_sub_one_eq_mod _ 4
  apply UInt8.toNat.inj
  rw [Ipv4Header.version, UInt8.toNat_shiftRight, UInt8.toNat_shiftRight, UInt8.toNat_and]
  show (iph.version4Ihl4.toNat &&& 240) >>> 4 = iph.version4Ihl4.toNat >>> 4
  rw [Nat.shiftRight_and_distrib, Nat.shiftRight_eq_div_pow]
  show iph.version4Ihl4.toNat / 16 &&& 15 = iph.version4Ihl4.toNat / 16
  omega

variable {cfg : DeviceConfig} {payload : List UInt8}

theorem processDeviceUdpPacket_ipv4 {iph : Ipv4Header} {udph : UdpHeader} {options : List UInt8}
    (hmode : cfg.udpMode ≠ .none) (hf : Ipv4Fields iph options (udph.bytes ++ payload)) (hprotocol : iph.protocol = 17)
    (hlen : (ntoh16 udph.length).toNat = udpHeaderSize + payload.length) (hsum : udpChecksumTest iph udph payload = true)
    (hmtu : payload.length ≤ cfg.udpMtu) (stray : List UInt8) :
    processDeviceUdpPacket cfg (iph.bytes ++ (options ++ (udph.bytes ++ payload ++ stray))) =
      some (datagram4 cfg iph udph payload) := by
  have hversion : ipVersion (iph.bytes ++ (options ++ (udph.bytes ++ payload ++ stray))) = 4 :=
    (version_eq iph).symm.trans hf.version
  have hudp : ¬((iph.bytes ++ (options ++ (udph.bytes ++ payload ++ stray))).length < ipv4HeaderSize ∨
      (iph.bytes ++ (options ++ (udph.bytes ++ payload ++ stray))).getD 9 0 ≠ 17) := by
    rw [not_or, not_not]
    exact ⟨by simp, hprotocol⟩
  have hip := ipv4Check_eq_some_iff.mpr ⟨options, stray, hf, rfl⟩
  have hcheck := udpCheck_eq_some_iff.mpr ⟨hlen, [], rfl⟩
  rw [List.append_nil] at hcheck
  have hparse : parseDevice4 (iph.bytes ++ (options ++ (udph.bytes ++ payload ++ stray))) = some (iph, udph, payload) := by
    rw [parseDevice4, if_neg hudp, hip]
    show (udpCheck (udph.bytes ++ payload)).bind _ = _
    rw [hcheck]
    rfl
  have hdatagram : parseDeviceUdp cfg (iph.bytes ++ (options ++ (udph.bytes ++ payload ++ stray))) =
      some (datagram4 cfg iph udph payload) := by
    rw [parseDeviceUdp, if_pos hversion, hparse]
    exact if_pos hsum
  rw [processDeviceUdpPacket, if_neg hmode, hdatagram]
  exact if_neg (not_lt.mpr hmtu)

theorem processDeviceUdpPacket_ipv6 {iph : Ipv6Header} {udph : UdpHeader} (hmode : cfg.udpMode ≠ .none)
    (hip6 : cfg.netifIp6addr = true) (hversion : iph.version4Tc4 >>> 4 = 6) (hnext : iph.nextHeader = 17)
    (htotal : (ntoh16 iph.payloadLength).toNat = (udph.bytes ++ payload).length)
    (hlen : (ntoh16 udph.length).toNat = udpHeaderSize + payload.length)
    (hsum : udpIp6ChecksumTest iph udph payload = true) (hmtu : payload.length ≤ cfg.udpMtu) (stray : List UInt8) :
    processDeviceUdpPacket cfg (iph.bytes ++ (udph.bytes ++ payload ++ stray)) =
      some ⟨.ipv6 iph.sourceAddress udph.sourcePort, .ipv6 iph.destinationAddress udph.destPort, false, payload⟩ := by
  have hfirst : ipVersion (iph.bytes ++ (udph.bytes ++ payload ++ stray)) = 6 := hversion
  have hudp : ¬((iph.bytes ++ (udph.bytes ++ payload ++ stray)).length < ipv6HeaderSize ∨
      (iph.bytes ++ (udph.bytes ++ payload ++ stray)).getD 6 0 ≠ 17) := by
    rw [not_or, not_not]
    exact ⟨by simp, hnext⟩
  have hip := ipv6Check_bytes hversion htotal stray
  have hcheck := udpCheck_eq_some_iff.mpr ⟨hlen, [], rfl⟩
  rw [List.append_nil] at hcheck
  have hparse : parseDevice6 (iph.bytes ++ (udph.bytes ++ payload ++ stray)) = some (iph, udph, payload) := by
    rw [parseDevice6, if_neg hudp, hip]
    show (udpCheck (udph.bytes ++ payload)).bind _ = _
    rw [hcheck]
    rfl
  have hdatagram : parseDeviceUdp cfg (iph.bytes ++ (udph.bytes ++ payload ++ stray)) =
      some ⟨.ipv6 iph.sourceAddress udph.sourcePort, .ipv6 iph.destinationAddress udph.destPort, false, payload⟩ := by
    rw [parseDeviceUdp, if_neg (by rw [hfirst]; decide), if_pos hfirst, if_neg (by simp [hip6]), hparse]
    exact if_pos hsum
  rw [processDeviceUdpPacket, if_neg hmode, hdatagram]
  exact if_neg (not_lt.mpr hmtu)

/-! ### Options -/

/-- The header for a packet with these options. -/
def Ipv4Header.withOptions (iph : Ipv4Header) (options : List UInt8) : Ipv4Header :=
  let iph := {iph with
    version4Ihl4 := iph.version4Ihl4 + UInt8.ofNat (options.length / 4)
    totalLength := hton16 (UInt16.ofNat ((ntoh16 iph.totalLength).toNat + options.length))
    checksum := hton16 0}
  {iph with checksum := ipv4Checksum iph options}

/-- The packet with options behind its IPv4 header. -/
def insertOptions (packet options : List UInt8) : List UInt8 :=
  ((Ipv4Header.read packet).withOptions options).bytes ++ (options ++ packet.drop ipv4HeaderSize)

/-- These bytes can be options. -/
structure Options (options body : List UInt8) : Prop where
  words : options.length % 4 = 0
  ihl : options.length ≤ 40
  totalLength : ipv4HeaderSize + options.length + body.length ≤ 65535

theorem ntoh16_hton16_ofNat {n : Nat} (hn : n ≤ 65535) : (ntoh16 (hton16 (UInt16.ofNat n))).toNat = n := by
  rw [ntoh16, hton16_hton16, UInt16.toNat_ofNat', Nat.mod_eq_of_lt (by omega)]

theorem ipv4Fields_withOptions {iph : Ipv4Header} {options body : List UInt8} (hf : Ipv4Fields iph [] body)
    (hbyte : iph.version4Ihl4 = 0x45) (ho : Options options body) : Ipv4Fields (iph.withOptions options) options body := by
  have htotal : (ntoh16 iph.totalLength).toNat + options.length = ipv4HeaderSize + options.length + body.length := by
    rw [hf.totalLength, List.length_nil]
    omega
  have hwords : ∀ k, k ≤ 10 → ((0x45 + UInt8.ofNat k) &&& 0xF0) >>> 4 = 4 ∧ ((0x45 + UInt8.ofNat k) &&& 0x0F).toNat = 5 + k := by
    decide
  obtain ⟨hversion, hihl⟩ := hwords (options.length / 4) (by have := ho.ihl; omega)
  rw [← hbyte] at hversion hihl
  have hlow := ho.words
  refine ⟨hversion, ?_, ?_, rfl⟩
  · show ((iph.version4Ihl4 + UInt8.ofNat (options.length / 4)) &&& 0x0F).toNat * 4 = 20 + options.length
    rw [hihl]
    omega
  · show (ntoh16 (hton16 (UInt16.ofNat ((ntoh16 iph.totalLength).toNat + options.length)))).toNat = _
    rw [htotal, ntoh16_hton16_ofNat ho.totalLength]

/-! ### What is written -/

/-- The IPv4 header that `udp_send_packet_to_device` builds. -/
def deviceIph4 (localIp remoteIp : UInt32) (len : Nat) : Ipv4Header :=
  let iph : Ipv4Header :=
    ⟨0x45, 0, hton16 (UInt16.ofNat (ipv4HeaderSize + udpHeaderSize + len)), hton16 0, hton16 0, 64, 17, hton16 0, remoteIp, localIp⟩
  {iph with checksum := ipv4Checksum iph []}

theorem ipv4Fields_deviceIph4 (localIp remoteIp : UInt32) (udph : UdpHeader)
    (hlen : payload.length ≤ 65535 - (ipv4HeaderSize + udpHeaderSize)) :
    Ipv4Fields (deviceIph4 localIp remoteIp payload.length) [] (udph.bytes ++ payload) := by
  refine ⟨(by decide : ((0x45 : UInt8) &&& 0xF0) >>> 4 = 4), (by decide : ((0x45 : UInt8) &&& 0x0F).toNat * 4 = ipv4HeaderSize + 0), ?_, rfl⟩
  show (ntoh16 (hton16 (UInt16.ofNat (ipv4HeaderSize + udpHeaderSize + payload.length)))).toNat = _
  simp only [ipv4HeaderSize, udpHeaderSize] at *
  rw [ntoh16_hton16_ofNat (by omega)]
  simp [udpHeaderSize]
  omega

/-- What comes back is the datagram in the other direction. -/
structure ComesBack (cfg : DeviceConfig) (localAddr remoteAddr : BAddr) (data packet : List UInt8) : Prop where
  fits : packet.length ≤ cfg.deviceMtu
  parsed : ∃ isDns, ∀ stray, processDeviceUdpPacket cfg (packet ++ stray) = some ⟨remoteAddr, localAddr, isDns, data⟩
  options : localAddr.type = 1 → ∀ options, Options options (packet.drop ipv4HeaderSize) → ∀ stray,
    processDeviceUdpPacket cfg (insertOptions packet options ++ stray) = processDeviceUdpPacket cfg packet

theorem comesBack_ipv4 (hmode : cfg.udpMode ≠ .none) (localIp remoteIp : UInt32) (localPort remotePort : UInt16)
    (hmtu : payload.length ≤ cfg.udpMtu) (hlen : payload.length ≤ 65535 - (ipv4HeaderSize + udpHeaderSize))
    (hfits : ipv4HeaderSize + udpHeaderSize + payload.length ≤ cfg.deviceMtu) :
    ComesBack cfg (.ipv4 localIp localPort) (.ipv4 remoteIp remotePort) payload
      (deviceUdpPacket4 localIp localPort remoteIp remotePort payload) := by
  let iph := deviceIph4 localIp remoteIp payload.length
  let udph₀ : UdpHeader := ⟨remotePort, localPort, hton16 (UInt16.ofNat (udpHeaderSize + payload.length)), 0⟩
  let udph : UdpHeader := {udph₀ with checksum := udpChecksum udph₀ payload remoteIp localIp}
  have hpacket : deviceUdpPacket4 localIp localPort remoteIp remotePort payload = iph.bytes ++ (udph.bytes ++ payload) :=
    List.append_assoc ..
  have hf : Ipv4Fields iph [] (udph.bytes ++ payload) := ipv4Fields_deviceIph4 localIp remoteIp udph hlen
  have hudp : (ntoh16 udph.length).toNat = udpHeaderSize + payload.length := by
    apply ntoh16_hton16_ofNat
    simp only [ipv4HeaderSize, udpHeaderSize] at *
    omega
  have hsum : udpChecksumTest iph udph payload = true := beq_iff_eq.mpr rfl
  have hstray : ∀ stray, processDeviceUdpPacket cfg (iph.bytes ++ (udph.bytes ++ payload) ++ stray) =
      some (datagram4 cfg iph udph payload) := by
    intro stray
    rw [List.append_assoc]
    exact processDeviceUdpPacket_ipv4 hmode hf rfl hudp hsum hmtu stray
  rw [hpacket]
  refine ⟨?_, ⟨(datagram4 cfg iph udph payload).isDns, hstray⟩, ?_⟩
  · simp only [List.length_append, Ipv4Header.bytes_length, UdpHeader.bytes_length]
    omega
  · intro _ options ho stray
    have hdrop : (iph.bytes ++ (udph.bytes ++ payload)).drop ipv4HeaderSize = udph.bytes ++ payload := List.drop_left' rfl
    rw [hdrop] at ho
    have hwith := ipv4Fields_withOptions hf rfl ho
    have hback := hstray []
    rw [List.append_nil] at hback
    rw [insertOptions, Ipv4Header.read_bytes, hdrop, hback, List.append_assoc, List.append_assoc]
    exact processDeviceUdpPacket_ipv4 hmode hwith rfl hudp hsum hmtu stray

theorem comesBack_ipv6 (hmode : cfg.udpMode ≠ .none) (hip6 : cfg.netifIp6addr = true) (localIp remoteIp : Vector UInt8 16)
    (localPort remotePort : UInt16) (hmtu : payload.length ≤ cfg.udpMtu) (hlen : payload.length ≤ 65535 - udpHeaderSize)
    (hfits : ipv6HeaderSize + udpHeaderSize + payload.length ≤ cfg.deviceMtu) :
    ComesBack cfg (.ipv6 localIp localPort) (.ipv6 remoteIp remotePort) payload
      (deviceUdpPacket6 localIp localPort remoteIp remotePort payload) := by
  let iph : Ipv6Header :=
    ⟨(6 : UInt8) <<< 4, 0, hton16 0, hton16 (UInt16.ofNat (udpHeaderSize + payload.length)), 17, 64, remoteIp, localIp⟩
  let udph₀ : UdpHeader := ⟨remotePort, localPort, hton16 (UInt16.ofNat (udpHeaderSize + payload.length)), 0⟩
  let udph : UdpHeader := {udph₀ with checksum := udpIp6Checksum udph₀ payload remoteIp localIp}
  have hpacket : deviceUdpPacket6 localIp localPort remoteIp remotePort payload = iph.bytes ++ (udph.bytes ++ payload) :=
    List.append_assoc ..
  have hudp : (ntoh16 (hton16 (UInt16.ofNat (udpHeaderSize + payload.length)))).toNat = udpHeaderSize + payload.length := by
    apply ntoh16_hton16_ofNat
    simp only [udpHeaderSize] at *
    omega
  have htotal : (ntoh16 iph.payloadLength).toNat = (udph.bytes ++ payload).length := by
    rw [List.length_append, UdpHeader.bytes_length]
    exact hudp
  rw [hpacket]
  refine ⟨?_, ⟨false, fun stray => ?_⟩, fun h => absurd h (by simp [BAddr.type])⟩
  · simp only [List.length_append, Ipv6Header.bytes_length, UdpHeader.bytes_length]
    omega
  · rw [List.append_assoc]
    have hsum : udpIp6ChecksumTest iph udph payload = true := beq_iff_eq.mpr rfl
    exact processDeviceUdpPacket_ipv6 hmode hip6 (by decide : ((6 : UInt8) <<< 4) >>> 4 = 6) rfl htotal hudp hsum hmtu
      stray

/-- **Every packet that is written for the device comes back from it as the same datagram**, also
with stray bytes behind it and with options in its IPv4 header. -/
theorem roundTrip {localAddr remoteAddr : BAddr} {data packet : List UInt8}
    (hudpMtu : cfg.udpMtu = deviceUdpMtu cfg.deviceMtu cfg.netifIp6addr)
    (h : udpSendPacketToDevice cfg localAddr remoteAddr data = .packet packet) :
    ComesBack cfg localAddr remoteAddr data packet := by
  rw [deviceUdpMtu_eq] at hudpMtu
  unfold udpSendPacketToDevice at h
  split at h
  · cases h
  · next hassert =>
    rw [not_or] at hassert
    split at h
    · next localIp localPort remoteIp remotePort =>
      split at h
      · cases h
      · next hlong =>
        rw [not_or] at hlong
        cases h
        simp only [ipv4HeaderSize, udpHeaderSize] at hlong
        exact comesBack_ipv4 hassert.1 localIp remoteIp localPort remotePort (by omega)
          (by simp only [ipv4HeaderSize, udpHeaderSize]; omega) (by simp only [ipv4HeaderSize, udpHeaderSize]; omega)
    · next localIp localPort remoteIp remotePort =>
      split at h
      · cases h
      · next hip6 =>
        split at h
        · cases h
        · next hlong =>
          rw [not_or] at hlong
          cases h
          simp only [ipv6HeaderSize, udpHeaderSize] at hlong
          exact comesBack_ipv6 hassert.1 (by simpa using hip6) localIp remoteIp localPort remotePort (by omega)
            (by simp only [udpHeaderSize]; omega) (by simp only [ipv6HeaderSize, udpHeaderSize]; omega)
    · cases h

/-- Options and a reply from a DNS server, over a device for 1500 bytes. -/
theorem roundTrip_reply :
    ∃ packet, udpSendPacketToDevice ⟨.socks, 1500, 1472, true, 1, false⟩ (.ipv4 7 99) (.ipv4 8 53) [1, 2, 3] =
        .packet packet ∧
      ComesBack ⟨.socks, 1500, 1472, true, 1, false⟩ (.ipv4 7 99) (.ipv4 8 53) [1, 2, 3] packet :=
  ⟨_, rfl, roundTrip rfl rfl⟩

end TwilightLine
