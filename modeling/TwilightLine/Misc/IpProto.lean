import TwilightLine.Misc.UdpProto

/-! IPv4 and IPv6 headers, as `misc/ipv4_proto.h` and `misc/ipv6_proto.h` read them.

As for UDP, the fields of a header hold network byte order. A check takes the
bytes of a packet and returns its header and its payload, or nothing. -/
namespace TwilightLine

/-! ### IPv4 -/

/-- `struct ipv4_header`. -/
structure Ipv4Header where
  version4Ihl4 : UInt8
  ds : UInt8
  totalLength : UInt16
  identification : UInt16
  flags3Fragmentoffset13 : UInt16
  ttl : UInt8
  protocol : UInt8
  checksum : UInt16
  sourceAddress : UInt32
  destinationAddress : UInt32
  deriving DecidableEq, Repr

/-- `sizeof(struct ipv4_header)`. -/
def ipv4HeaderSize : Nat := 20

def Ipv4Header.bytes (h : Ipv4Header) : List UInt8 :=
  [h.version4Ihl4, h.ds] ++ le16 h.totalLength ++ le16 h.identification ++
    le16 h.flags3Fragmentoffset13 ++ [h.ttl, h.protocol] ++ le16 h.checksum ++
    le32 h.sourceAddress ++ le32 h.destinationAddress

/-- `memcpy` of the first bytes of `data` into a header. -/
def Ipv4Header.read (data : List UInt8) : Ipv4Header :=
  let b := fun i => data.getD i 0
  { version4Ihl4 := b 0
    ds := b 1
    totalLength := readLe16 (b 2) (b 3)
    identification := readLe16 (b 4) (b 5)
    flags3Fragmentoffset13 := readLe16 (b 6) (b 7)
    ttl := b 8
    protocol := b 9
    checksum := readLe16 (b 10) (b 11)
    sourceAddress := readLe32 (b 12) (b 13) (b 14) (b 15)
    destinationAddress := readLe32 (b 16) (b 17) (b 18) (b 19) }

/-- `IPV4_GET_VERSION`. -/
def Ipv4Header.version (h : Ipv4Header) : UInt8 := (h.version4Ihl4 &&& 0xF0) >>> 4

/-- `IPV4_GET_IHL`. -/
def Ipv4Header.ihl (h : Ipv4Header) : UInt8 := h.version4Ihl4 &&& 0x0F

/-- `ipv4_checksum` over a header and its options. -/
def ipv4Checksum (header : Ipv4Header) (extra : List UInt8) : UInt16 :=
  let t := udpChecksumLoop 0 header.bytes
  let t := udpChecksumLoop t extra
  hton16 (~~~(foldCarries t)).toUInt16

/-- `ipv4_check`. -/
def ipv4Check (data : List UInt8) : Option (Ipv4Header × List UInt8) :=
  if data.length < ipv4HeaderSize then none
  else
    let header := Ipv4Header.read data
    if header.version ≠ 4 then none
    else
      let headerLen := header.ihl.toNat * 4
      if headerLen < ipv4HeaderSize then none
      else if headerLen > data.length then none
      else
        let totalLength := (ntoh16 header.totalLength).toNat
        if totalLength < headerLen then none
        else if totalLength > data.length then none
        else
          let extra := (data.drop ipv4HeaderSize).take (headerLen - ipv4HeaderSize)
          if header.checksum ≠ ipv4Checksum {header with checksum := hton16 0} extra then none
          else some (header, (data.drop headerLen).take (totalLength - headerLen))

/-! ### IPv6 -/

/-- `struct ipv6_header`. -/
structure Ipv6Header where
  version4Tc4 : UInt8
  tc4Fl4 : UInt8
  fl : UInt16
  payloadLength : UInt16
  nextHeader : UInt8
  hopLimit : UInt8
  sourceAddress : Vector UInt8 16
  destinationAddress : Vector UInt8 16
  deriving DecidableEq, Repr

/-- `sizeof(struct ipv6_header)`. -/
def ipv6HeaderSize : Nat := 40

def Ipv6Header.bytes (h : Ipv6Header) : List UInt8 :=
  [h.version4Tc4, h.tc4Fl4] ++ le16 h.fl ++ le16 h.payloadLength ++ [h.nextHeader, h.hopLimit] ++
    h.sourceAddress.toList ++ h.destinationAddress.toList

/-- Sixteen bytes of memory at an offset. -/
def readIn6 (data : List UInt8) (offset : Nat) : Vector UInt8 16 :=
  Vector.ofFn fun i => data.getD (offset + i) 0

/-- `memcpy` of the first bytes of `data` into a header. -/
def Ipv6Header.read (data : List UInt8) : Ipv6Header :=
  let b := fun i => data.getD i 0
  { version4Tc4 := b 0
    tc4Fl4 := b 1
    fl := readLe16 (b 2) (b 3)
    payloadLength := readLe16 (b 4) (b 5)
    nextHeader := b 6
    hopLimit := b 7
    sourceAddress := readIn6 data 8
    destinationAddress := readIn6 data 24 }

/-- `ipv6_check`. -/
def ipv6Check (data : List UInt8) : Option (Ipv6Header × List UInt8) :=
  if data.length < ipv6HeaderSize then none
  else
    let header := Ipv6Header.read data
    if header.version4Tc4 >>> 4 ≠ 6 then none
    else
      let payloadLength := (ntoh16 header.payloadLength).toNat
      if payloadLength > data.length - ipv6HeaderSize then none
      else some (header, (data.drop ipv6HeaderSize).take payloadLength)

end TwilightLine
