import TwilightLine.Misc.AddrBytes

/-! Packets between the client and the udpgw server, as `protocol/udpgw_proto.h` lays
them out: flags, the conid, the remote address and the datagram. Both directions use
the same format, and what is written is what is read back (`parseUdpgw_packet`). -/
namespace TwilightLine.UdpGw

def flagRebind : UInt8 := 2

def flagDns : UInt8 := 4

def flagIpv6 : UInt8 := 8

/-- The flag is set. -/
def HasFlag (flags flag : UInt8) : Prop := flags &&& flag ≠ 0

instance (flags flag : UInt8) : Decidable (HasFlag flags flag) := inferInstanceAs (Decidable (_ ≠ _))

theorem hasFlag_or (f g flag : UInt8) : HasFlag (f ||| g) flag ↔ HasFlag f flag ∨ HasFlag g flag := by
  have hdist : (f ||| g) &&& flag = (f &&& flag) ||| (g &&& flag) := by
    apply UInt8.eq_of_toBitVec_eq
    apply BitVec.eq_of_getLsbD_eq
    intro i hi
    simp [Bool.and_or_distrib_right]
  rw [HasFlag, hdist, ne_eq, UInt8.or_eq_zero_iff, not_and_or, HasFlag, HasFlag]

/-- `sizeof(struct udpgw_header)`. -/
def udpgwHeaderSize : Nat := 3

/-- `udpgw_compute_mtu`, where the sum is an `int`. -/
def udpgwComputeMtu (dgramMtu : Nat) : Nat := udpgwHeaderSize + (max addrIpv4Size addrIpv6Size + dgramMtu)

/-- The memory of `struct udpgw_header`. -/
def udpgwHeader (flags : UInt8) (conid : UInt16) : List UInt8 := flags :: le16 conid

/-- The packet that `connection_send` builds. -/
def udpgwPacket (flags : UInt8) (conid : UInt16) (remoteAddr : BAddr) (data : List UInt8) : List UInt8 :=
  udpgwHeader flags conid ++ remoteAddr.packed ++ data

/-- What a packet carries. -/
structure UdpgwPacket where
  conid : UInt16
  remoteAddr : BAddr
  data : List UInt8
  deriving DecidableEq, Repr

/-- The address behind the header. -/
def readUdpgwAddr (flags : UInt8) (data : List UInt8) : Option (BAddr × List UInt8) :=
  if HasFlag flags flagIpv6 then readAddrIpv6 data else readAddrIpv4 data

/-- The header and the address, as `recv_interface_handler_send` reads them. -/
def parseUdpgw (data : List UInt8) : Option UdpgwPacket :=
  if data.length < udpgwHeaderSize then none
  else
    let conid := readLe16 (data.getD 1 0) (data.getD 2 0)
    (readUdpgwAddr (data.getD 0 0) (data.drop udpgwHeaderSize)).map fun (remoteAddr, data) =>
      ⟨conid, remoteAddr, data⟩

theorem parseUdpgw_conid {data : List UInt8} {packet : UdpgwPacket} (h : parseUdpgw data = some packet) :
    packet.conid = readLe16 (data.getD 1 0) (data.getD 2 0) := by
  unfold parseUdpgw at h
  split at h
  · cases h
  · obtain ⟨⟨remoteAddr, rest⟩, -, rfl⟩ := Option.map_eq_some_iff.mp h
    rfl

theorem udpgwPacket_length_le (flags : UInt8) (conid : UInt16) (remoteAddr : BAddr) {data : List UInt8}
    {dgramMtu : Nat} (h : data.length ≤ dgramMtu) :
    (udpgwPacket flags conid remoteAddr data).length ≤ udpgwComputeMtu dgramMtu := by
  have := remoteAddr.packed_length_le
  simp only [udpgwPacket, udpgwHeader, udpgwComputeMtu, udpgwHeaderSize, addrIpv4Size, addrIpv6Size,
    List.length_append, List.length_cons, le16_length] at this ⊢
  omega

/-- **A packet whose IPv6 flag fits its address is read back as it was written.** -/
theorem parseUdpgw_packet {flags : UInt8} (conid : UInt16) {remoteAddr : BAddr} (data : List UInt8)
    (hip : remoteAddr.isIp) (hflag : HasFlag flags flagIpv6 ↔ remoteAddr.type = 2) :
    parseUdpgw (udpgwPacket flags conid remoteAddr data) = some ⟨conid, remoteAddr, data⟩ := by
  have hconid := readLe16_le16 conid
  have hlen : ¬(udpgwPacket flags conid remoteAddr data).length < udpgwHeaderSize := by
    simp [udpgwPacket, udpgwHeader, udpgwHeaderSize]
  have hdrop : (udpgwPacket flags conid remoteAddr data).drop udpgwHeaderSize = remoteAddr.packed ++ data := by
    simp [udpgwPacket, udpgwHeader, udpgwHeaderSize, le16]
  unfold parseUdpgw
  rw [if_neg hlen, hdrop]
  unfold readUdpgwAddr
  cases remoteAddr with
  | none => simp [BAddr.isIp, BAddr.type] at hip
  | ipv4 ip port =>
    have hf : ¬HasFlag flags flagIpv6 := by simp [hflag, BAddr.type]
    simp [udpgwPacket, udpgwHeader, le16, hf, readAddrIpv4_packed, hconid]
  | ipv6 ip port =>
    have hf : HasFlag flags flagIpv6 := by simp [hflag, BAddr.type]
    simp [udpgwPacket, udpgwHeader, le16, hf, readAddrIpv6_packed, hconid]

end TwilightLine.UdpGw
