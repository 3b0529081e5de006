import TwilightLine.Lib.OnesComplement
import TwilightLine.Misc.ByteOrder

/-! UDP headers and checksums, as `misc/udp_proto.h` computes them.

The fields of a header hold network byte order, as they do in memory, so a header
is read from a packet and summed without conversion. The checksum adds the
big-endian 16-bit words of a pseudo-header, the header and the payload in 32 bits,
an odd last byte being the high half of a last word, and folds the carries at the
end. -/
namespace TwilightLine

/-- `struct udp_header`. -/
structure UdpHeader where
  sourcePort : UInt16
  destPort : UInt16
  length : UInt16
  checksum : UInt16
  deriving DecidableEq, Repr

/-- The memory of a header. -/
def UdpHeader.bytes (h : UdpHeader) : List UInt8 :=
  le16 h.sourcePort ++ le16 h.destPort ++ le16 h.length ++ le16 h.checksum

/-- `sizeof(struct udp_header)`. -/
def udpHeaderSize : Nat := 8

@[simp] theorem UdpHeader.bytes_length (h : UdpHeader) : h.bytes.length = udpHeaderSize := rfl

def ipv4ProtocolUdp : UInt16 := 17

def ipv6NextUdp : UInt32 := 17

/-! ### The sum -/

/-- The loop of `udp_checksum_summer`: `t` grows by a word at a time. -/
def udpChecksumLoop (t : UInt32) : List UInt8 → UInt32
  | p₀ :: p₁ :: rest => udpChecksumLoop (t + (readBe16 p₀ p₁).toUInt32) rest
  | _ => t

/-- `udp_checksum_summer`; the source asserts an even length. -/
def udpChecksumSummer (data : List UInt8) : UInt32 := udpChecksumLoop 0 data

/-- The payload's share of the sum: an odd last byte is the high half of a word. -/
def udpChecksumPayload (t : UInt32) (payload : List UInt8) : UInt32 :=
  if payload.length % 2 = 0 then t + udpChecksumSummer payload
  else
    let t := t + udpChecksumSummer (payload.take (payload.length - 1))
    let x := hton16 ((payload.getD (payload.length - 1) 0).toUInt16 <<< 8)
    t + udpChecksumSummer (le16 x)

theorem carries_lt (t : UInt32) (h : ¬t >>> 16 = 0) : ((t &&& (0xFFFF : UInt32)) + (t >>> 16)).toNat < t.toNat := by
  have ht := t.toNat_lt
  have hdiv : (t >>> 16).toNat = t.toNat / 2 ^ 16 := by
    rw [UInt32.toNat_shiftRight, show UInt32.toNat 16 % 32 = 16 from rfl, Nat.shiftRight_eq_div_pow]
  have hmod : (t &&& (0xFFFF : UInt32)).toNat = t.toNat % 2 ^ 16 := by
    rw [UInt32.toNat_and, show UInt32.toNat 0xFFFF = 2 ^ 16 - 1 from rfl, Nat.and_two_pow_sub_one_eq_mod]
  have hne : (t >>> 16).toNat ≠ 0 := fun h0 => h (UInt32.toNat.inj h0)
  rw [hdiv] at hne
  rw [UInt32.toNat_add, hdiv, hmod, Nat.mod_eq_of_lt (by omega)]
  omega

/-- `while (t >> 16) t = (t & 0xFFFF) + (t >> 16)`. -/
def foldCarries (t : UInt32) : UInt32 :=
  if _h : t >>> 16 = 0 then t else foldCarries ((t &&& (0xFFFF : UInt32)) + (t >>> 16))
termination_by t.toNat
decreasing_by exact carries_lt t _h

/-- What both checksums do with the sum: fold, complement in 32 bits, replace
zero, convert. -/
def udpChecksumFinish (t : UInt32) : UInt16 :=
  let t := foldCarries t
  let t := ~~~t
  let t := if t = 0 then 0xFFFF else t
  hton16 t.toUInt16

/-- `udp_checksum`. The addresses are in network order. -/
def udpChecksum (header : UdpHeader) (payload : List UInt8) (sourceAddr destAddr : UInt32) : UInt16 :=
  let t := 0
  let t := t + udpChecksumSummer (le32 sourceAddr)
  let t := t + udpChecksumSummer (le32 destAddr)
  let t := t + udpChecksumSummer (le16 (hton16 ipv4ProtocolUdp))
  let t := t + udpChecksumSummer (le16 (hton16 (UInt16.ofNat (udpHeaderSize + payload.length))))
  let t := t + udpChecksumSummer header.bytes
  udpChecksumFinish (udpChecksumPayload t payload)

/-- `udp_ip6_checksum`. -/
def udpIp6Checksum (header : UdpHeader) (payload : List UInt8) (sourceAddr destAddr : Vector UInt8 16) :
    UInt16 :=
  let t := 0
  let t := t + udpChecksumSummer sourceAddr.toList
  let t := t + udpChecksumSummer destAddr.toList
  let t := t + udpChecksumSummer (le32 (hton32 (UInt32.ofNat (udpHeaderSize + payload.length))))
  let t := t + udpChecksumSummer (le32 (hton32 ipv6NextUdp))
  let t := t + udpChecksumSummer header.bytes
  udpChecksumFinish (udpChecksumPayload t payload)

/-! ### The header in a packet -/

/-- `memcpy` of the first bytes of `data` into a header. -/
def UdpHeader.read (data : List UInt8) : UdpHeader :=
  { sourcePort := readLe16 (data.getD 0 0) (data.getD 1 0)
    destPort := readLe16 (data.getD 2 0) (data.getD 3 0)
    length := readLe16 (data.getD 4 0) (data.getD 5 0)
    checksum := readLe16 (data.getD 6 0) (data.getD 7 0) }

/-- `udp_check`: the header and the payload it announces; what follows is ignored. -/
def udpCheck (data : List UInt8) : Option (UdpHeader × List UInt8) :=
  if data.length < udpHeaderSize then none
  else
    let header := UdpHeader.read data
    let data := data.drop udpHeaderSize
    let udpLength := (ntoh16 header.length).toNat
    if udpLength < udpHeaderSize then none
    else if udpLength > udpHeaderSize + data.length then none
    else some (header, data.take (udpLength - udpHeaderSize))

end TwilightLine
