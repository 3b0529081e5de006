import TwilightLine.Tun2socks.DeviceRoundTrip

/-! What `process_device_udp_packet` reads, and what it takes for a datagram.

The functions with `At` follow the pointers and lengths of the source into the packet, and
fail where they would read a byte outside of it; they never do (`processDeviceUdpPacketAt_eq`).
The more-fragments flag and the fragment offset are in the IPv4 header, and nothing looks at
them: a fragment is submitted if it passes for a datagram (`submitsWhole_iff`). -/
namespace TwilightLine

/-! ### Reading the packet -/

/-- `len` bytes at a pointer into the packet. -/
def readPacket (packet : List UInt8) (data len : Nat) : Option (List UInt8) :=
  if data + len ≤ packet.length then some ((packet.drop data).take len) else none

/-- `ipv4_check`, with the pointer to the payload and its length. -/
def ipv4CheckAt (packet : List UInt8) (data dataLen : Nat) : Option (Option (Ipv4Header × Nat × Nat)) :=
  if dataLen < ipv4HeaderSize then some none
  else
    (readPacket packet data ipv4HeaderSize).bind fun bytes =>
      let header := Ipv4Header.read bytes
      if header.version ≠ 4 then some none
      else
        let headerLen := header.ihl.toNat * 4
        if headerLen < ipv4HeaderSize then some none
        else if headerLen > dataLen then some none
        else
          let totalLength := (ntoh16 header.totalLength).toNat
          if totalLength < headerLen then some none
          else if totalLength > dataLen then some none
          else
            (readPacket packet (data + ipv4HeaderSize) (headerLen - ipv4HeaderSize)).map fun extra =>
              if header.checksum ≠ ipv4Checksum {header with checksum := hton16 0} extra then none
              else some (header, data + headerLen, totalLength - headerLen)

/-- `ipv6_check`. -/
def ipv6CheckAt (packet : List UInt8) (data dataLen : Nat) : Option (Option (Ipv6Header × Nat × Nat)) :=
  if dataLen < ipv6HeaderSize then some none
  else
    (readPacket packet data ipv6HeaderSize).map fun bytes =>
      let header := Ipv6Header.read bytes
      if header.version4Tc4 >>> 4 ≠ 6 then none
      else
        let payloadLength := (ntoh16 header.payloadLength).toNat
        if payloadLength > dataLen - ipv6HeaderSize then none else some (header, data + ipv6HeaderSize, payloadLength)

/-- `udp_check`. -/
def udpCheckAt (packet : List UInt8) (data dataLen : Nat) : Option (Option (UdpHeader × Nat × Nat)) :=
  if dataLen < udpHeaderSize then some none
  else
    (readPacket packet data udpHeaderSize).map fun bytes =>
      let header := UdpHeader.read bytes
      let data := data + udpHeaderSize
      let dataLen := dataLen - udpHeaderSize
      let udpLength := (ntoh16 header.length).toNat
      if udpLength < udpHeaderSize then none
      else if udpLength > udpHeaderSize + dataLen then none
      else some (header, data, udpLength - udpHeaderSize)

/-- A header check and the UDP check behind it, with the UDP payload. -/
def checksAt {H : Type} (packet : List UInt8) (ip : Option (Option (H × Nat × Nat))) :
    Option (Option (H × UdpHeader × List UInt8)) :=
  ip.bind fun
    | none => some none
    | some (iph, data, dataLen) =>
      (udpCheckAt packet data dataLen).bind fun
        | none => some none
        | some (udph, data, dataLen) => (readPacket packet data dataLen).map fun payload => some (iph, udph, payload)

/-- The IPv4 branch, up to the checksum test, which reads the payload. -/
def parseDevice4At (packet : List UInt8) : Option (Option (Ipv4Header × UdpHeader × List UInt8)) :=
  if packet.length < ipv4HeaderSize then some none
  else
    (readPacket packet 9 1).bind fun protocol =>
      if protocol ≠ [17] then some none else checksAt packet (ipv4CheckAt packet 0 packet.length)

/-- The IPv6 branch. -/
def parseDevice6At (packet : List UInt8) : Option (Option (Ipv6Header × UdpHeader × List UInt8)) :=
  if packet.length < ipv6HeaderSize then some none
  else
    (readPacket packet 6 1).bind fun next =>
      if next ≠ [17] then some none else checksAt packet (ipv6CheckAt packet 0 packet.length)

/-- `ip_version`. -/
def ipVersionAt (packet : List UInt8) : Option UInt8 :=
  if packet.length > 0 then (readPacket packet 0 1).map fun first => first.getD 0 0 >>> (4 : UInt8) else some 0

/-- `process_device_udp_packet`: the datagram submitted, if any, where all that is read is in
the packet. -/
def processDeviceUdpPacketAt (cfg : DeviceConfig) (packet : List UInt8) : Option (Option DeviceDatagram) :=
  if cfg.udpMode = .none then some none
  else
    (ipVersionAt packet).bind fun ipVersion =>
      let datagram :=
        if ipVersion = 4 then
          (parseDevice4At packet).map fun parsed => parsed.bind fun (iph, udph, payload) =>
            if udpChecksumTest iph udph payload then
              some
                { localAddr := .ipv4 iph.sourceAddress udph.sourcePort
                  remoteAddr := .ipv4 iph.destinationAddress udph.destPort
                  isDns := cfg.transparentDns && (iph.destinationAddress == cfg.netifIpaddr) && (udph.destPort == hton16 53)
                  data := payload }
            else none
        else if ipVersion = 6 then
          if !cfg.netifIp6addr then some none
          else
            (parseDevice6At packet).map fun parsed => parsed.bind fun (iph, udph, payload) =>
              if udpIp6ChecksumTest iph udph payload then
                some
                  { localAddr := .ipv6 iph.sourceAddress udph.sourcePort
                    remoteAddr := .ipv6 iph.destinationAddress udph.destPort
                    isDns := false
                    data := payload }
              else none
        else some none
      datagram.map fun datagram => datagram.bind fun datagram =>
        if datagram.data.length > cfg.udpMtu then none else some datagram

/-! ### It is the packet that is read -/

/-- The pointer and the length give the payload. -/
def PointsTo {H : Type} (packet : List UInt8) : Option (H × Nat × Nat) → Option (H × List UInt8) → Prop
  | none, none => True
  | some (iph, data, dataLen), some (iph', payload) => iph = iph' ∧ readPacket packet data dataLen = some payload
  | _, _ => False

theorem readPacket_eq {packet : List UInt8} {data len : Nat} (h : data + len ≤ packet.length) :
    readPacket packet data len = some ((packet.drop data).take len) := if_pos h

theorem readPacket_length {packet bytes : List UInt8} {data len : Nat} (h : readPacket packet data len = some bytes) :
    data + len ≤ packet.length ∧ bytes.length = len := by
  obtain ⟨hin, h⟩ := Option.ite_none_right_eq_some.mp h
  cases h
  refine ⟨hin, ?_⟩
  rw [List.length_take, List.length_drop]
  omega

/-- A part of what is read is read at its place. -/
theorem readPacket_part {packet bytes : List UInt8} {data len n k : Nat} (h : readPacket packet data len = some bytes)
    (hn : n + k ≤ len) : readPacket packet (data + n) k = some ((bytes.drop n).take k) := by
  obtain ⟨hin, h⟩ := Option.ite_none_right_eq_some.mp h
  cases h
  rw [readPacket_eq (by omega), List.drop_take, List.take_take, List.drop_drop, Nat.min_eq_left (by omega)]

theorem read_take_ipv4 (data : List UInt8) : Ipv4Header.read (data.take ipv4HeaderSize) = Ipv4Header.read data := by
  have hget : ∀ i < 20, (data.take 20).getD i 0 = data.getD i 0 := by
    intro i hi
    rw [List.getD_eq_getElem?_getD, List.getElem?_take_of_lt hi, ← List.getD_eq_getElem?_getD]
  simp only [Ipv4Header.read, ipv4HeaderSize, hget, Nat.reduceLT]

theorem read_take_ipv6 (data : List UInt8) : Ipv6Header.read (data.take ipv6HeaderSize) = Ipv6Header.read data := by
  have hget : ∀ i < 40, (data.take 40).getD i 0 = data.getD i 0 := by
    intro i hi
    rw [List.getD_eq_getElem?_getD, List.getElem?_take_of_lt hi, ← List.getD_eq_getElem?_getD]
  have hin6 : ∀ offset ≤ 24, readIn6 (data.take 40) offset = readIn6 data offset := by
    intro offset hoffset
    apply Vector.ext
    intro i hi
    simp only [readIn6, Vector.getElem_ofFn]
    exact hget _ (by omega)
  simp only [Ipv6Header.read, ipv6HeaderSize, hget, hin6, Nat.reduceLT, Nat.reduceLeDiff]

theorem read_take_udp (data : List UInt8) : UdpHeader.read (data.take udpHeaderSize) = UdpHeader.read data := by
  have hget : ∀ i < 8, (data.take 8).getD i 0 = data.getD i 0 := by
    intro i hi
    rw [List.getD_eq_getElem?_getD, List.getElem?_take_of_lt hi, ← List.getD_eq_getElem?_getD]
  simp only [UdpHeader.read, udpHeaderSize, hget, Nat.reduceLT]

theorem ipv4CheckAt_eq (packet : List UInt8) :
    ∃ r, ipv4CheckAt packet 0 packet.length = some r ∧ PointsTo packet r (ipv4Check packet) := by
  unfold ipv4CheckAt ipv4Check
  split
  · exact ⟨none, rfl, trivial⟩
  · next hsize =>
    rw [readPacket_eq (by omega), Option.bind_some, List.drop_zero, read_take_ipv4]
    dsimp only
    split
    · exact ⟨none, rfl, trivial⟩
    · split
      · exact ⟨none, rfl, trivial⟩
      · split
        · exact ⟨none, rfl, trivial⟩
        · split
          · exact ⟨none, rfl, trivial⟩
          · split
            · exact ⟨none, rfl, trivial⟩
            · next hlow hhigh hshort hlong =>
              rw [readPacket_eq (by omega), Option.map_some, Nat.zero_add, Nat.zero_add]
              split
              · exact ⟨none, rfl, trivial⟩
              · exact ⟨_, rfl, rfl, readPacket_eq (by omega)⟩

theorem ipv6CheckAt_eq (packet : List UInt8) :
    ∃ r, ipv6CheckAt packet 0 packet.length = some r ∧ PointsTo packet r (ipv6Check packet) := by
  unfold ipv6CheckAt ipv6Check
  split
  · exact ⟨none, rfl, trivial⟩
  · next hsize =>
    rw [readPacket_eq (by omega), Option.map_some, List.drop_zero, read_take_ipv6]
    dsimp only
    split
    · exact ⟨none, rfl, trivial⟩
    · split
      · exact ⟨none, rfl, trivial⟩
      · exact ⟨_, rfl, rfl, by rw [Nat.zero_add]; exact readPacket_eq (by omega)⟩

theorem udpCheckAt_eq {packet body : List UInt8} {data dataLen : Nat} (h : readPacket packet data dataLen = some body) :
    ∃ r, udpCheckAt packet data dataLen = some r ∧ PointsTo packet r (udpCheck body) := by
  have hlen := (readPacket_length h).2
  unfold udpCheckAt udpCheck
  rw [hlen]
  split
  · exact ⟨none, rfl, trivial⟩
  · next hsize =>
    have hheader := readPacket_part (n := 0) (k := udpHeaderSize) h (by omega)
    rw [Nat.add_zero, List.drop_zero] at hheader
    rw [hheader, Option.map_some, read_take_udp]
    dsimp only
    rw [List.length_drop, hlen]
    split
    · exact ⟨none, rfl, trivial⟩
    · split
      · exact ⟨none, rfl, trivial⟩
      · exact ⟨_, rfl, rfl, readPacket_part h (by omega)⟩

theorem checksAt_eq {H : Type} {packet : List UInt8} {ip : Option (Option (H × Nat × Nat))} {check : Option (H × List UInt8)}
    (h : ∃ r, ip = some r ∧ PointsTo packet r check) :
    checksAt packet ip = some (do
      let (iph, data) ← check
      let (udph, data) ← udpCheck data
      return (iph, udph, data)) := by
  obtain ⟨r, rfl, hr⟩ := h
  match r, check, hr with
  | none, none, _ => rfl
  | some (iph, data, dataLen), some (_, body), ⟨rfl, hbody⟩ =>
    obtain ⟨r', hudp, hr'⟩ := udpCheckAt_eq hbody
    show (udpCheckAt packet data dataLen).bind _ = some ((udpCheck body).bind _)
    rw [hudp, Option.bind_some]
    generalize udpCheck body = parsed at hr'
    match r', parsed, hr' with
    | none, none, _ => rfl
    | some (udph, data, dataLen), some (_, payload), ⟨rfl, hpayload⟩ =>
      show (readPacket packet data dataLen).map _ = some (some (iph, udph, payload))
      rw [hpayload]
      rfl

theorem readByte_ne (packet : List UInt8) {i : Nat} (h : i < packet.length) (b : UInt8) :
    ∃ byte, readPacket packet i 1 = some byte ∧ (byte ≠ [b] ↔ packet.getD i 0 ≠ b) := by
  refine ⟨[packet[i]], ?_, ?_⟩
  · rw [readPacket_eq (by omega), List.drop_eq_getElem_cons h]
    rfl
  · rw [List.getD_eq_getElem?_getD, List.getElem?_eq_getElem h]
    simp

theorem parseDevice4At_eq (packet : List UInt8) : parseDevice4At packet = some (parseDevice4 packet) := by
  unfold parseDevice4At parseDevice4
  by_cases hsize : packet.length < ipv4HeaderSize
  · rw [if_pos hsize, if_pos (.inl hsize)]
  · obtain ⟨byte, hread, hbyte⟩ := readByte_ne packet (i := 9) (by unfold ipv4HeaderSize at hsize; omega) 17
    rw [if_neg hsize, hread, Option.bind_some]
    by_cases hprotocol : packet.getD 9 0 ≠ 17
    · rw [if_pos (hbyte.mpr hprotocol), if_pos (.inr hprotocol)]
    · rw [if_neg (mt hbyte.mp hprotocol), if_neg (not_or.mpr ⟨hsize, hprotocol⟩)]
      exact checksAt_eq (ipv4CheckAt_eq packet)

theorem parseDevice6At_eq (packet : List UInt8) : parseDevice6At packet = some (parseDevice6 packet) := by
  unfold parseDevice6At parseDevice6
  by_cases hsize : packet.length < ipv6HeaderSize
  · rw [if_pos hsize, if_pos (.inl hsize)]
  · obtain ⟨byte, hread, hbyte⟩ := readByte_ne packet (i := 6) (by unfold ipv6HeaderSize at hsize; omega) 17
    rw [if_neg hsize, hread, Option.bind_some]
    by_cases hnext : packet.getD 6 0 ≠ 17
    · rw [if_pos (hbyte.mpr hnext), if_pos (.inr hnext)]
    · rw [if_neg (mt hbyte.mp hnext), if_neg (not_or.mpr ⟨hsize, hnext⟩)]
      exact checksAt_eq (ipv6CheckAt_eq packet)

/-- **No byte outside the packet is read**, and what comes out is the parser's result. -/
theorem processDeviceUdpPacketAt_eq (cfg : DeviceConfig) (packet : List UInt8) :
    processDeviceUdpPacketAt cfg packet = some (processDeviceUdpPacket cfg packet) := by
  have hversion : ipVersionAt packet = some (ipVersion packet) := by
    cases packet <;> rfl
  unfold processDeviceUdpPacketAt processDeviceUdpPacket
  split
  · rfl
  · rw [hversion, Option.bind_some, parseDevice4At_eq, parseDevice6At_eq, parseDeviceUdp]
    split
    · rfl
    · split
      · split <;> rfl
      · rfl

/-! ### Whole datagrams -/

/-- The more-fragments flag. -/
def Ipv4Header.moreFragments (iph : Ipv4Header) : Bool := ntoh16 iph.flags3Fragmentoffset13 &&& 0x2000 ≠ 0

def Ipv4Header.fragmentOffset (iph : Ipv4Header) : UInt16 := ntoh16 iph.flags3Fragmentoffset13 &&& 0x1FFF

def Ipv4Header.Unfragmented (iph : Ipv4Header) : Prop := iph.moreFragments = false ∧ iph.fragmentOffset = 0

/-- The packet is an unfragmented IPv4 packet with one UDP datagram of this payload, and its lengths are
those of the bytes that are there. -/
structure WholeDatagram (packet payload : List UInt8) (iph : Ipv4Header) (udph : UdpHeader) (options udpStray ipStray : List UInt8) :
    Prop where
  bytes : packet = iph.bytes ++ (options ++ (udph.bytes ++ (payload ++ udpStray) ++ ipStray))
  ip : Ipv4Fields iph options (udph.bytes ++ (payload ++ udpStray))
  protocol : iph.protocol = 17
  udp : (ntoh16 udph.length).toNat = udpHeaderSize + payload.length
  unfragmented : iph.Unfragmented

/-- What is submitted of an IPv4 packet is the payload of a whole datagram, and nothing but the packet is read. -/
def SubmitsWhole (cfg : DeviceConfig) (packet : List UInt8) : Prop :=
  ∃ submitted, processDeviceUdpPacketAt cfg packet = some submitted ∧
    (ipVersion packet = 4 → ∀ datagram ∈ submitted,
      ∃ iph udph options udpStray ipStray, WholeDatagram packet datagram.data iph udph options udpStray ipStray)

/-- A packet that passes the checks is not a fragment. -/
def NoFragmentPasses (cfg : DeviceConfig) (packet : List UInt8) : Prop :=
  cfg.udpMode ≠ .none → ipVersion packet = 4 → ∀ iph udph payload, parseDevice4 packet = some (iph, udph, payload) →
    udpChecksumTest iph udph payload = true → payload.length ≤ cfg.udpMtu → iph.Unfragmented

theorem parseDevice4_eq_some {packet payload : List UInt8} {iph : Ipv4Header} {udph : UdpHeader}
    (h : parseDevice4 packet = some (iph, udph, payload)) :
    ∃ options udpStray ipStray, packet = iph.bytes ++ (options ++ (udph.bytes ++ (payload ++ udpStray) ++ ipStray)) ∧
      Ipv4Fields iph options (udph.bytes ++ (payload ++ udpStray)) ∧ iph.protocol = 17 ∧
      (ntoh16 udph.length).toNat = udpHeaderSize + payload.length := by
  unfold parseDevice4 at h
  obtain ⟨hudp, h⟩ := Option.ite_none_left_eq_some.mp h
  obtain ⟨⟨iph', body⟩, hip, h⟩ := Option.bind_eq_some_iff.mp h
  obtain ⟨⟨udph', payload'⟩, hcheck, h⟩ := Option.bind_eq_some_iff.mp h
  cases h
  obtain ⟨options, ipStray, hf, hpacket⟩ := ipv4Check_eq_some_iff.mp hip
  obtain ⟨hlen, udpStray, rfl⟩ := udpCheck_eq_some_iff.mp hcheck
  refine ⟨options, udpStray, ipStray, hpacket, hf, ?_, hlen⟩
  rw [not_or, not_not, hpacket] at hudp
  exact hudp.2

/-- **The payload of a whole datagram is what is submitted, exactly where no fragment passes the checks.** -/
theorem submitsWhole_iff (cfg : DeviceConfig) (packet : List UInt8) :
    SubmitsWhole cfg packet ↔ NoFragmentPasses cfg packet := by
  constructor
  · rintro ⟨submitted, hat, hwhole⟩ hmode hversion iph udph payload hparse hsum hmtu
    rw [processDeviceUdpPacketAt_eq, Option.some.injEq] at hat
    have hdatagram : ∃ datagram, submitted = some datagram := by
      refine ⟨datagram4 cfg iph udph payload, hat.symm.trans ?_⟩
      rw [processDeviceUdpPacket, if_neg hmode, parseDeviceUdp, if_pos hversion, hparse]
      show (if udpChecksumTest iph udph payload = true then _ else none).bind _ = _
      rw [if_pos hsum]
      exact if_neg (not_lt.mpr hmtu)
    obtain ⟨datagram, hdatagram⟩ := hdatagram
    obtain ⟨iph', udph', options', udpStray', ipStray', hw⟩ := hwhole hversion datagram hdatagram
    obtain ⟨options, udpStray, ipStray, hpacket, -, -, -⟩ := parseDevice4_eq_some hparse
    have hiph : iph = iph' := by
      have h := Ipv4Header.read_bytes iph (options ++ (udph.bytes ++ (payload ++ udpStray) ++ ipStray))
      rw [← hpacket, hw.bytes, Ipv4Header.read_bytes] at h
      exact h.symm
    rw [hiph]
    exact hw.unfragmented
  · intro hno
    refine ⟨_, processDeviceUdpPacketAt_eq cfg packet, fun hversion datagram hdatagram => ?_⟩
    unfold processDeviceUdpPacket at hdatagram
    obtain ⟨hmode, hdatagram⟩ := Option.ite_none_left_eq_some.mp hdatagram
    obtain ⟨datagram', hparse, hdatagram⟩ := Option.bind_eq_some_iff.mp hdatagram
    obtain ⟨hmtu, heq⟩ := Option.ite_none_left_eq_some.mp hdatagram
    cases heq
    rw [parseDeviceUdp, if_pos hversion] at hparse
    obtain ⟨⟨iph, udph, payload⟩, hheaders, htest⟩ := Option.bind_eq_some_iff.mp hparse
    obtain ⟨hsum, heq⟩ := Option.ite_none_right_eq_some.mp htest
    cases heq
    obtain ⟨options, udpStray, ipStray, hpacket, hf, hprotocol, hlen⟩ := parseDevice4_eq_some hheaders
    exact ⟨iph, udph, options, udpStray, ipStray, hpacket, hf, hprotocol, hlen,
      hno hmode hversion iph udph payload hheaders hsum (not_lt.mp hmtu)⟩

/-- The second fragment of a datagram, whose bytes pass for a datagram. -/
def fragmentIph : Ipv4Header :=
  let iph : Ipv4Header := ⟨0x45, 0, hton16 28, 0, hton16 0x2001, 64, 17, 0, 2, 1⟩
  {iph with checksum := ipv4Checksum iph []}

def fragmentUdph : UdpHeader :=
  let udph : UdpHeader := ⟨3, 4, hton16 8, 0⟩
  {udph with checksum := udpChecksum udph [] 2 1}

/-- A fragment is submitted as a datagram. -/
theorem fragment_submitted :
    ¬SubmitsWhole ⟨.socks, 1500, 1472, false, 9, false⟩ (fragmentIph.bytes ++ fragmentUdph.bytes) := by
  have hpacket : fragmentIph.bytes ++ fragmentUdph.bytes = fragmentIph.bytes ++ ([] ++ (fragmentUdph.bytes ++ [] ++ [])) := by
    simp
  have hf : Ipv4Fields fragmentIph [] (fragmentUdph.bytes ++ []) :=
    ⟨(by decide : ((0x45 : UInt8) &&& 0xF0) >>> 4 = 4), (by decide : ((0x45 : UInt8) &&& 0x0F).toNat * 4 = 20),
      (by decide : (ntoh16 (hton16 28)).toNat = 28), rfl⟩
  have hmode : (⟨.socks, 1500, 1472, false, 9, false⟩ : DeviceConfig).udpMode ≠ .none := by decide
  have hsubmit := processDeviceUdpPacket_ipv4 hmode hf rfl (by decide : (ntoh16 (hton16 8)).toNat = 8 + 0)
    (beq_iff_eq.mpr rfl) (by decide) []
  rintro ⟨submitted, hat, hwhole⟩
  rw [processDeviceUdpPacketAt_eq, hpacket, hsubmit, Option.some.injEq] at hat
  rw [hpacket] at hwhole
  obtain ⟨iph, udph, options, udpStray, ipStray, hw⟩ := hwhole ((version_eq fragmentIph).symm.trans hf.version) _ hat.symm
  have hread := Ipv4Header.read_bytes fragmentIph ([] ++ (fragmentUdph.bytes ++ [] ++ []))
  rw [hw.bytes, Ipv4Header.read_bytes] at hread
  have hflag : fragmentIph.moreFragments = true := (by decide : decide (ntoh16 (hton16 0x2001) &&& 0x2000 ≠ 0) = true)
  have hwholeFlag := hw.unfragmented.1
  rw [hread, hflag] at hwholeFlag
  cases hwholeFlag

end TwilightLine
