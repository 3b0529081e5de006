import TwilightLine.System.BAddr

/-! The order of addresses.

`BAddr_CompareOrder` compares the types, then the addresses of that type, then the ports. With
something in the place of what the other types do not have, that is a comparison by four keys
(`bAddrCompareOrder_keys`), so that it is total. -/
namespace TwilightLine

/-- `BAddr_Compare`. -/
def bAddrCompare (m : Memcmp) (addr1 addr2 : BAddr) : Bool :=
  if addr1.type ≠ addr2.type then false
  else
    match addr1, addr2 with
    | .ipv4 ip1 port1, .ipv4 ip2 port2 => ip1 = ip2 && port1 = port2
    | .ipv6 ip1 port1, .ipv6 ip2 port2 => m.run ip1.toList ip2.toList = 0 && port1 = port2
    | _, _ => false

/-- `BAddr_CompareOrder`, with what `memcmp` returns. -/
def bAddrCompareOrderBy (m : Memcmp) (addr1 addr2 : BAddr) : Int :=
  let cmp := bCompare addr1.type addr2.type
  if cmp ≠ 0 then cmp
  else
    match addr1, addr2 with
    | .ipv4 ip1 port1, .ipv4 ip2 port2 =>
      let cmp := bCompare (ntoh32 ip1).toNat (ntoh32 ip2).toNat
      if cmp ≠ 0 then cmp else bCompare (ntoh16 port1).toNat (ntoh16 port2).toNat
    | .ipv6 ip1 port1, .ipv6 ip2 port2 =>
      let cmp := m.run ip1.toList ip2.toList
      if cmp ≠ 0 then bCompareInt cmp 0 else bCompare (ntoh16 port1).toNat (ntoh16 port2).toNat
    | _, _ => 0

/-- The sign is all that matters. -/
theorem bAddrCompareOrderBy_eq (m : Memcmp) : bAddrCompareOrderBy m = bAddrCompareOrder := by
  funext a b
  cases a <;> cases b <;> try rfl
  case ipv6.ipv6 ip1 port1 ip2 port2 =>
    have hlen : ip1.toList.length = ip2.toList.length := by simp
    unfold bAddrCompareOrderBy bAddrCompareOrder
    simp only [bCompareInt_zero, m.sign hlen, ne_eq, m.run_eq_zero hlen]

/-! ### Keys -/

/-- The IPv4 address in host order. -/
def BAddr.key4 : BAddr → Nat
  | .ipv4 ip _ => (ntoh32 ip).toNat
  | _ => 0

/-- The bytes of the IPv6 address. -/
def BAddr.key6 : BAddr → {l : List UInt8 // l.length = 16}
  | .ipv6 ip _ => ⟨ip.toList, ip.length_toList⟩
  | _ => ⟨List.replicate 16 0, rfl⟩

/-- The port in host order. -/
def BAddr.keyPort (a : BAddr) : Nat := (ntoh16 a.getPort).toNat

theorem bAddrCompareOrder_keys (a b : BAddr) : bAddrCompareOrder a b =
    if bCompare a.type b.type ≠ 0 then bCompare a.type b.type
    else if bCompare a.key4 b.key4 ≠ 0 then bCompare a.key4 b.key4
    else if memcmp a.key6.1 b.key6.1 ≠ 0 then memcmp a.key6.1 b.key6.1
    else bCompare a.keyPort b.keyPort := by
  cases a <;> cases b <;> rfl

theorem bAddrCompareOrder_total : TotalComparison bAddrCompareOrder := by
  have htotal := (bCompare_total.comap BAddr.type).andThen ((bCompare_total.comap BAddr.key4).andThen
    (((memcmp_total 16).comap BAddr.key6).andThen (bCompare_total.comap BAddr.keyPort)))
  have heq : bAddrCompareOrder = _ := funext fun a => funext fun b => bAddrCompareOrder_keys a b
  rw [heq]
  exact htotal

/-- On IP addresses, equality is what the order takes to be equal. -/
theorem bAddrCompare_iff {m : Memcmp} {a b : BAddr} (ha : a.isIp) : bAddrCompare m a b = true ↔ a = b := by
  cases a <;> cases b
  case ipv4.ipv4 ip1 port1 ip2 port2 =>
    simp [bAddrCompare, BAddr.type]
  case ipv6.ipv6 ip1 port1 ip2 port2 =>
    have hlen : ip1.toList.length = ip2.toList.length := by simp
    simp only [bAddrCompare, ne_eq, not_true_eq_false, if_false, m.run_eq_zero hlen, memcmp_eq_zero _ _ hlen, Vector.toList_inj,
      Bool.and_eq_true, decide_eq_true_eq, BAddr.ipv6.injEq, BAddr.type]
  case none.none => exact absurd ha (by decide)
  all_goals simp [bAddrCompare, BAddr.type]

end TwilightLine
