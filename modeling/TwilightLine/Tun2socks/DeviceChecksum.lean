import TwilightLine.Tun2socks.Device

/-! UDP checksums between the device and RFC 768.

A packet whose sender filled in the standard checksum should pass the device's
test. `MeetsRfc768` collects what that takes of a checksum function at one
datagram, and `udpChecksum_meets_iff` says when the code does: on every datagram
but those whose words add to a multiple of 65535. There the standard sends all
ones, the code computes zero, and the packet is left to lwIP. -/
namespace TwilightLine

open OnesComplement

/-- What RFC 768 asks of a computed checksum `c` of a message, and of the test
`accepts` of a received checksum. -/
structure MeetsRfc768 (message : List UInt8) (c : UInt16) (accepts : UInt16 → Prop) : Prop where
  value : c = hton16 (UInt16.ofNat (rfc768 message))
  nonzero : c ≠ 0
  /-- A packet carrying the standard checksum is accepted. -/
  sender : accepts (hton16 (UInt16.ofNat (rfc768 message)))

/-- Every packet with this header, this payload and these addresses passes the
IPv4 checksum test when `c` is its checksum field. -/
def DeviceAccepts4 (header : UdpHeader) (payload : List UInt8) (sourceAddr destAddr : UInt32)
    (c : UInt16) : Prop :=
  ∀ (data : List UInt8) (iph : Ipv4Header), iph.sourceAddress = sourceAddr →
    iph.destinationAddress = destAddr → parseDevice4 data = some (iph, {header with checksum := c}, payload) →
    udpChecksumTest iph {header with checksum := c} payload = true

def DeviceAccepts6 (header : UdpHeader) (payload : List UInt8) (sourceAddr destAddr : Vector UInt8 16)
    (c : UInt16) : Prop :=
  ∀ (data : List UInt8) (iph : Ipv6Header), iph.sourceAddress = sourceAddr →
    iph.destinationAddress = destAddr → parseDevice6 data = some (iph, {header with checksum := c}, payload) →
    udpIp6ChecksumTest iph {header with checksum := c} payload = true

/-- The complement of the sum is the standard checksum, and not zero, exactly when
the words do not add to a multiple of 65535. -/
theorem complement_standard_iff (message : List UInt8) (hpos : (beWords message).sum ≠ 0) :
    (65535 - onesSum 65536 (beWords message) = rfc768 message ∧
        65535 - onesSum 65536 (beWords message) ≠ 0) ↔ ¬65535 ∣ (beWords message).sum := by
  have hsum := onesSum_eq_residue (b := 65536) (by norm_num) (beWords message) (beWords_lt message)
  have htop := residue_eq_top (b := 65536) (by norm_num) hpos
  have hlt := residue_lt (b := 65536) (by norm_num) (beWords message).sum
  simp only [rfc768, hsum]
  rw [← htop]
  constructor
  · rintro ⟨-, hne⟩ he
    omega
  · intro hne
    have hpos : ¬65535 - residue 65536 (beWords message).sum = 0 := by omega
    exact ⟨by rw [if_neg hpos], hpos⟩

theorem ofNat_inj16 {m n : Nat} (hm : m < 65536) (hn : n < 65536) (h : UInt16.ofNat m = UInt16.ofNat n) :
    m = n := by
  have := congrArg UInt16.toNat h
  rwa [UInt16.toNat_ofNat', UInt16.toNat_ofNat', Nat.mod_eq_of_lt hm, Nat.mod_eq_of_lt hn] at this

/-- A checksum function that returns the complement meets the standard exactly
there, if its own results pass the test. -/
theorem meets_iff (message : List UInt8) (hpos : (beWords message).sum ≠ 0) (c : UInt16)
    (hc : c = hton16 (UInt16.ofNat (65535 - onesSum 65536 (beWords message))))
    (accepts : UInt16 → Prop) (hself : accepts c) :
    MeetsRfc768 message c accepts ↔ ¬65535 ∣ (beWords message).sum := by
  have hrfc : rfc768 message < 65536 := by
    simp only [rfc768]
    split <;> omega
  rw [← complement_standard_iff message hpos]
  constructor
  · intro h
    have hvalue := hton16_inj (hc.symm.trans h.value)
    refine ⟨ofNat_inj16 (by omega) hrfc hvalue, fun hzero => h.nonzero ?_⟩
    rw [hc, hzero]
    rfl
  · rintro ⟨hvalue, hne⟩
    have hstandard : c = hton16 (UInt16.ofNat (rfc768 message)) := by rw [hc, hvalue]
    refine ⟨hstandard, fun hzero => hne ?_, hstandard ▸ hself⟩
    have h0 : hton16 (UInt16.ofNat (65535 - onesSum 65536 (beWords message))) = hton16 (UInt16.ofNat 0) :=
      hc.symm.trans hzero
    exact ofNat_inj16 (by omega) (by omega) (hton16_inj h0)

/-- The protocol number alone keeps a message from adding to zero. -/
theorem message4_pos (header : UdpHeader) (payload : List UInt8) (sourceAddr destAddr : UInt32) :
    (beWords (message4 header payload sourceAddr destAddr)).sum ≠ 0 := by
  rw [message4, pseudoHeader4, List.append_assoc, List.append_assoc, List.append_assoc,
    beWords_append _ _ (by simp), beWords_append [0, 17] _ rfl]
  simp [beWords]

theorem message6_pos (header : UdpHeader) (payload : List UInt8) (sourceAddr destAddr : Vector UInt8 16) :
    (beWords (message6 header payload sourceAddr destAddr)).sum ≠ 0 := by
  rw [message6, pseudoHeader6, List.append_assoc, List.append_assoc,
    beWords_append _ _ (by simp), beWords_append [0, 0, 0, 17] _ rfl]
  simp [beWords]

/-- **The code's UDP checksums meet RFC 768 on every datagram whose words do not
add to a multiple of 65535, and on no other**, over IPv4 and over IPv6. -/
theorem udpChecksum_meets_iff (header : UdpHeader) (payload : List UInt8) (hzero : header.checksum = 0)
    (hlen : payload.length ≤ 65527) :
    (∀ sourceAddr destAddr : UInt32,
      (MeetsRfc768 (message4 header payload sourceAddr destAddr)
          (udpChecksum header payload sourceAddr destAddr)
          (DeviceAccepts4 header payload sourceAddr destAddr) ↔
        ¬65535 ∣ (beWords (message4 header payload sourceAddr destAddr)).sum)) ∧
    (∀ sourceAddr destAddr : Vector UInt8 16,
      (MeetsRfc768 (message6 header payload sourceAddr destAddr)
          (udpIp6Checksum header payload sourceAddr destAddr)
          (DeviceAccepts6 header payload sourceAddr destAddr) ↔
        ¬65535 ∣ (beWords (message6 header payload sourceAddr destAddr)).sum)) := by
  have hheader : {header with checksum := 0} = header := by rw [← hzero]
  constructor
  · intro sourceAddr destAddr
    refine meets_iff _ (message4_pos _ _ _ _) _ (udpChecksum_eq _ _ _ _ hlen) _ ?_
    rintro data iph rfl rfl -
    simp [udpChecksumTest, hheader]
  · intro sourceAddr destAddr
    refine meets_iff _ (message6_pos _ _ _ _) _ (udpIp6Checksum_eq _ _ _ _ hlen) _ ?_
    rintro data iph rfl rfl -
    simp [udpIp6ChecksumTest, hheader]

/-- From 10.0.0.1:40000 to 8.8.8.8:53, ten bytes. -/
def zeroSumHeader : UdpHeader := ⟨0x409C, 0x3500, 0x0A00, 0⟩

/-- A two-byte payload with which the words add to 65534, not a multiple. -/
theorem udpChecksum_meets_at_sample :
    MeetsRfc768 (message4 zeroSumHeader [0x49, 0x53] 0x0100000A 0x08080808)
      (udpChecksum zeroSumHeader [0x49, 0x53] 0x0100000A 0x08080808)
      (DeviceAccepts4 zeroSumHeader [0x49, 0x53] 0x0100000A 0x08080808) :=
  ((udpChecksum_meets_iff _ _ rfl (by decide)).1 _ _).2 (by decide)

/-- One more, and they add to 65535: the standard checksum is all ones, the code
returns zero. -/
theorem udpChecksum_zero_sum :
    udpChecksum zeroSumHeader [0x49, 0x54] 0x0100000A 0x08080808 = 0 ∧
      rfc768 (message4 zeroSumHeader [0x49, 0x54] 0x0100000A 0x08080808) = 65535 ∧
      ¬MeetsRfc768 (message4 zeroSumHeader [0x49, 0x54] 0x0100000A 0x08080808)
        (udpChecksum zeroSumHeader [0x49, 0x54] 0x0100000A 0x08080808)
        (DeviceAccepts4 zeroSumHeader [0x49, 0x54] 0x0100000A 0x08080808) := by
  have hzero : udpChecksum zeroSumHeader [0x49, 0x54] 0x0100000A 0x08080808 = 0 := by
    rw [udpChecksum_eq _ _ _ _ (by decide)]
    decide
  exact ⟨hzero, by decide, fun h => h.nonzero hzero⟩

end TwilightLine
