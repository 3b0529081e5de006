import TwilightLine.Misc.IpProto
import TwilightLine.System.BAddr

/-! Addresses inside packets.

`struct udpgw_addr_ipv4` and `struct socks_addr_ipv4` are the same packed memory, an
address and a port in network byte order, and so are the IPv6 ones. The source copies
them whole between packet and `BAddr`. -/
namespace TwilightLine

/-- `sizeof(struct udpgw_addr_ipv4)`. -/
def addrIpv4Size : Nat := 6

/-- `sizeof(struct udpgw_addr_ipv6)`. -/
def addrIpv6Size : Nat := 18

/-- The packed address; an address of another type has none. -/
def BAddr.packed : BAddr → List UInt8
  | .none => []
  | .ipv4 ip port => le32 ip ++ le16 port
  | .ipv6 ip port => ip.toList ++ le16 port

/-- The IPv4 address at the start of the data, and what follows it. -/
def readAddrIpv4 (data : List UInt8) : Option (BAddr × List UInt8) :=
  if data.length < addrIpv4Size then none
  else
    let ip := readLe32 (data.getD 0 0) (data.getD 1 0) (data.getD 2 0) (data.getD 3 0)
    some (.ipv4 ip (readLe16 (data.getD 4 0) (data.getD 5 0)), data.drop addrIpv4Size)

/-- The IPv6 address at the start of the data, and what follows it. -/
def readAddrIpv6 (data : List UInt8) : Option (BAddr × List UInt8) :=
  if data.length < addrIpv6Size then none
  else some (.ipv6 (readIn6 data 0) (readLe16 (data.getD 16 0) (data.getD 17 0)), data.drop addrIpv6Size)

theorem BAddr.packed_length_le (a : BAddr) : a.packed.length ≤ addrIpv6Size := by
  cases a <;> simp [BAddr.packed, addrIpv6Size]

theorem readAddrIpv4_packed (ip : UInt32) (port : UInt16) (rest : List UInt8) :
    readAddrIpv4 ((BAddr.ipv4 ip port).packed ++ rest) = some (.ipv4 ip port, rest) := by
  have hip := readLe32_le32 ip
  have hport := readLe16_le16 port
  simp [readAddrIpv4, BAddr.packed, le32, le16, addrIpv4Size, hip, hport]

theorem readIn6_append (ip : Vector UInt8 16) (rest : List UInt8) : readIn6 (ip.toList ++ rest) 0 = ip := by
  apply Vector.ext
  intro i hi
  have hlen : i < ip.toList.length := by simpa using hi
  simp [readIn6, List.getD_eq_getElem?_getD, List.getElem?_append_left hlen, hi]

theorem readAddrIpv6_packed (ip : Vector UInt8 16) (port : UInt16) (rest : List UInt8) :
    readAddrIpv6 ((BAddr.ipv6 ip port).packed ++ rest) = some (.ipv6 ip port, rest) := by
  have hip := readIn6_append ip (le16 port ++ rest)
  have hport := readLe16_le16 port
  have hlen : ip.toList.length = 16 := by simp
  simp only [readAddrIpv6, BAddr.packed, List.append_assoc, hip]
  rw [if_neg (by simp [addrIpv6Size]; omega)]
  simp [addrIpv6Size, le16, List.getD_eq_getElem?_getD, List.getElem?_append_right, List.drop_append, hport]

/-- Any six bytes are an IPv4 address. -/
theorem readAddrIpv4_of_length {data : List UInt8} (h : data.length = addrIpv4Size) :
    ∃ ip port, readAddrIpv4 data = some (.ipv4 ip port, []) ∧ (BAddr.ipv4 ip port).packed = data := by
  obtain ⟨b₀, b₁, b₂, b₃, b₄, b₅, rfl⟩ : ∃ b₀ b₁ b₂ b₃ b₄ b₅, data = [b₀, b₁, b₂, b₃, b₄, b₅] := by
    match data, h with
    | [b₀, b₁, b₂, b₃, b₄, b₅], _ => exact ⟨b₀, b₁, b₂, b₃, b₄, b₅, rfl⟩
  refine ⟨readLe32 b₀ b₁ b₂ b₃, readLe16 b₄ b₅, rfl, ?_⟩
  rw [BAddr.packed, le32_readLe32, le16_readLe16]
  rfl

/-- Any 18 bytes are an IPv6 address. -/
theorem readAddrIpv6_of_length {data : List UInt8} (h : data.length = addrIpv6Size) :
    ∃ ip port, readAddrIpv6 data = some (.ipv6 ip port, []) ∧ (BAddr.ipv6 ip port).packed = data := by
  unfold addrIpv6Size at h
  obtain ⟨b₁₆, b₁₇, hdrop⟩ : ∃ b₁₆ b₁₇, data.drop 16 = [b₁₆, b₁₇] := by
    match hdata : data.drop 16, show (data.drop 16).length = 2 by rw [List.length_drop, h] with
    | [b₁₆, b₁₇], _ => exact ⟨b₁₆, b₁₇, rfl⟩
  have hport : le16 (readLe16 b₁₆ b₁₇) = data.drop 16 := by rw [le16_readLe16, hdrop]
  have hip : (data.take 16).length = 16 := by
    rw [List.length_take, h]
    rfl
  have hdata : data = (BAddr.ipv6 ⟨(data.take 16).toArray, hip⟩ (readLe16 b₁₆ b₁₇)).packed := by
    show data = data.take 16 ++ le16 (readLe16 b₁₆ b₁₇)
    rw [hport, List.take_append_drop]
  refine ⟨⟨(data.take 16).toArray, hip⟩, readLe16 b₁₆ b₁₇, ?_, hdata.symm⟩
  have hread := readAddrIpv6_packed ⟨(data.take 16).toArray, hip⟩ (readLe16 b₁₆ b₁₇) []
  rwa [List.append_nil, ← hdata] at hread

/-- What is read as an IPv4 address is one, with what follows it. -/
theorem readAddrIpv4_eq_some {data rest : List UInt8} {r : BAddr} (h : readAddrIpv4 data = some (r, rest)) :
    (∃ ip port, r = .ipv4 ip port) ∧ data = r.packed ++ rest := by
  obtain ⟨hlen, -⟩ := Option.ite_none_left_eq_some.mp h
  obtain ⟨ip, port, -, hpacked⟩ :=
    readAddrIpv4_of_length (List.length_take_of_le (not_lt.mp hlen) : (data.take addrIpv4Size).length = addrIpv4Size)
  have hdata : data = (BAddr.ipv4 ip port).packed ++ data.drop addrIpv4Size := by rw [hpacked, List.take_append_drop]
  have hread := readAddrIpv4_packed ip port (data.drop addrIpv4Size)
  rw [← hdata, h, Option.some.injEq, Prod.mk.injEq] at hread
  obtain ⟨rfl, rfl⟩ := hread
  exact ⟨⟨ip, port, rfl⟩, hdata⟩

theorem readAddrIpv6_eq_some {data rest : List UInt8} {r : BAddr} (h : readAddrIpv6 data = some (r, rest)) :
    (∃ ip port, r = .ipv6 ip port) ∧ data = r.packed ++ rest := by
  obtain ⟨hlen, -⟩ := Option.ite_none_left_eq_some.mp h
  obtain ⟨ip, port, -, hpacked⟩ :=
    readAddrIpv6_of_length (List.length_take_of_le (not_lt.mp hlen) : (data.take addrIpv6Size).length = addrIpv6Size)
  have hdata : data = (BAddr.ipv6 ip port).packed ++ data.drop addrIpv6Size := by rw [hpacked, List.take_append_drop]
  have hread := readAddrIpv6_packed ip port (data.drop addrIpv6Size)
  rw [← hdata, h, Option.some.injEq, Prod.mk.injEq] at hread
  obtain ⟨rfl, rfl⟩ := hread
  exact ⟨⟨ip, port, rfl⟩, hdata⟩

end TwilightLine
