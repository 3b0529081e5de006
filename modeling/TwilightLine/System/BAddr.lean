import TwilightLine.Misc.ByteOrder
import TwilightLine.Misc.Memcmp
import TwilightLine.Misc.PrintNumber

/-! Socket addresses, as `system/BAddr.h` has them.

Addresses and ports hold network byte order; as text, an address is a list of ASCII codes.
Packet sockets (`BADDR_TYPE_PACKET`) never reach the code modelled here. -/
namespace TwilightLine

/-- `BAddr`. -/
inductive BAddr where
  | none
  | ipv4 (ip : UInt32) (port : UInt16)
  | ipv6 (ip : Vector UInt8 16) (port : UInt16)
  deriving DecidableEq, Repr

namespace BAddr

/-- `addr->type`: `BADDR_TYPE_NONE`, `BADDR_TYPE_IPV4`, `BADDR_TYPE_IPV6`. -/
def type : BAddr → Nat
  | none => 0
  | ipv4 .. => 1
  | ipv6 .. => 2

/-- `BAddr_GetPort`; the source asserts an IP address. -/
def getPort : BAddr → UInt16
  | none => 0
  | ipv4 _ port => port
  | ipv6 _ port => port

/-- An IPv4 or an IPv6 address. -/
def isIp (a : BAddr) : Prop := a.type = 1 ∨ a.type = 2

instance (a : BAddr) : Decidable a.isIp := inferInstanceAs (Decidable (_ ∨ _))

end BAddr

/-- `BAddr_Print`: `BIPAddr_Print`, a colon and the port. -/
def bAddrPrint : BAddr → List UInt8
  | .none => [40, 110, 111, 110, 101, 41]
  | .ipv4 ip port =>
    printSeparated 46 ((le32 ip).map fun b => printNumber 10 b.toNat) ++ [58] ++ printNumber 10 (ntoh16 port).toNat
  | .ipv6 ip port =>
    printSeparated 58 ((List.range 8).map fun i =>
      printNumber 16 ((ip.toList.getD (2 * i) 0).toNat * 256 + (ip.toList.getD (2 * i + 1) 0).toNat)) ++
      [58] ++ printNumber 10 (ntoh16 port).toNat

example : bAddrPrint (.ipv4 16777343 20480) = [49, 50, 55, 46, 48, 46, 48, 46, 49, 58, 56, 48] := by decide +kernel

/-- `BAddr_CompareOrder`. -/
def bAddrCompareOrder (addr1 addr2 : BAddr) : Int :=
  let cmp := bCompare addr1.type addr2.type
  if cmp ≠ 0 then cmp
  else
    match addr1, addr2 with
    | .ipv4 ip1 port1, .ipv4 ip2 port2 =>
      let cmp := bCompare (ntoh32 ip1).toNat (ntoh32 ip2).toNat
      if cmp ≠ 0 then cmp else bCompare (ntoh16 port1).toNat (ntoh16 port2).toNat
    | .ipv6 ip1 port1, .ipv6 ip2 port2 =>
      let cmp := memcmp ip1.toList ip2.toList
      if cmp ≠ 0 then cmp else bCompare (ntoh16 port1).toNat (ntoh16 port2).toNat
    | _, _ => 0

theorem compare_then {c d : Int} : (if c ≠ 0 then c else d) = 0 ↔ c = 0 ∧ d = 0 := by
  by_cases hc : c = 0 <;> simp [hc]

theorem port_compare_eq_zero (p q : UInt16) : bCompare (ntoh16 p).toNat (ntoh16 q).toNat = 0 ↔ p = q := by
  rw [bCompare_eq_zero]
  exact ⟨fun h => hton16_inj (UInt16.toNat.inj h), fun h => by rw [h]⟩

theorem ip_compare_eq_zero (p q : UInt32) : bCompare (ntoh32 p).toNat (ntoh32 q).toNat = 0 ↔ p = q := by
  rw [bCompare_eq_zero]
  exact ⟨fun h => hton32_inj (UInt32.toNat.inj h), fun h => by rw [h]⟩

/-- The order takes two addresses for equal exactly when they are. -/
theorem bAddrCompareOrder_eq_zero (a b : BAddr) : bAddrCompareOrder a b = 0 ↔ a = b := by
  cases a <;> cases b
  case ipv4.ipv4 ip1 port1 ip2 port2 =>
    have h1 : bCompare 1 1 = 0 := rfl
    simp only [bAddrCompareOrder, BAddr.type, h1]
    rw [if_neg (by simp), compare_then, ip_compare_eq_zero, port_compare_eq_zero, BAddr.ipv4.injEq]
  case ipv6.ipv6 ip1 port1 ip2 port2 =>
    have hip := memcmp_eq_zero ip1.toList ip2.toList (by simp)
    have h2 : bCompare 2 2 = 0 := rfl
    simp only [bAddrCompareOrder, BAddr.type, h2]
    rw [if_neg (by simp), compare_then, hip, port_compare_eq_zero, BAddr.ipv6.injEq, Vector.toList_inj]
  all_goals simp [bAddrCompareOrder, bCompare, BAddr.type]

end TwilightLine
