import TwilightLine.Structure.Avl

/-! `structure/BAVL.h`. -/
namespace TwilightLine

variable {P V : Type*} [DecidableEq P]

namespace BAVL

/-- `_BAVL_rotate`. -/
def rotate (m : TreeMemory P) (r : P) (dir : Bool) : Option (TreeMemory P) :=
  (m.link r (!dir)).map fun nr =>
    let m := m.setLink r (!dir) (m.link nr dir)
    let m := m.setParentOf (m.link r (!dir)) (some r)
    let m := m.setLink nr dir (some r)
    let m := m.setParent nr (m.parent r)
    let m := m.replaceChild (m.parent nr) r (some nr)
    m.setParent r (some nr)

/-- `_BAVL_replace_subtree`. -/
def replaceSubtree (m : TreeMemory P) (dest : P) (n : Option P) : TreeMemory P :=
  let m := m.replaceChild (m.parent dest) dest n
  m.setParentOf n (m.parent dest)

/-- `n1` is above `n2`. -/
def swapConnected (m : TreeMemory P) (n1 n2 : P) : TreeMemory P :=
  let side := decide (m.link n1 true = some n2)
  let c := m.link n1 (!side)
  let m := m.setLink n1 false (m.link n2 false)
  let m := m.setParentOf (m.link n1 false) (some n1)
  let m := m.setLink n1 true (m.link n2 true)
  let m := m.setParentOf (m.link n1 true) (some n1)
  let m := m.setParent n2 (m.parent n1)
  let m := m.replaceChild (m.parent n2) n1 (some n2)
  let m := m.setLink n2 side (some n1)
  let m := m.setParent n1 (some n2)
  let m := m.setLink n2 (!side) c
  m.setParentOf c (some n2)

/-- The nodes are not directly connected. -/
def swapApart (m : TreeMemory P) (n1 n2 : P) : TreeMemory P :=
  -- swap parents
  let temp := m.parent n1
  let m := m.setParent n1 (m.parent n2)
  let m := m.replaceChild (m.parent n1) n2 (some n1)
  let m := m.setParent n2 temp
  let m := m.replaceChild (m.parent n2) n1 (some n2)
  -- swap left children
  let temp := m.link n1 false
  let m := m.setLink n1 false (m.link n2 false)
  let m := m.setParentOf (m.link n1 false) (some n1)
  let m := m.setLink n2 false temp
  let m := m.setParentOf (m.link n2 false) (some n2)
  -- swap right children
  let temp := m.link n1 true
  let m := m.setLink n1 true (m.link n2 true)
  let m := m.setParentOf (m.link n1 true) (some n1)
  let m := m.setLink n2 true temp
  m.setParentOf (m.link n2 true) (some n2)

def swapBalances (m : TreeMemory P) (n1 n2 : P) : TreeMemory P :=
  let b := m.balance n1
  let m := m.setBalance n1 (m.balance n2)
  m.setBalance n2 b

/-- `_BAVL_swap_nodes`. -/
def swapNodes (m : TreeMemory P) (n1 n2 : P) : TreeMemory P :=
  if m.parent n2 = some n1 ∨ m.parent n1 = some n2 then
    if m.parent n1 = some n2 then swapBalances (swapConnected m n2 n1) n2 n1 else swapBalances (swapConnected m n1 n2) n1 n2
  else swapBalances (swapApart m n1 n2) n1 n2

def routines : AvlRoutines P where
  rotate m r dir _ := rotate m r dir
  swap m n1 n2 _ _ := some (swapNodes m n1 n2)
  replaceSubtree m dest n _ := some (replaceSubtree m dest n)

/-- `_BAVL_rebalance`. -/
def rebalance (fuel : Nat) (m : TreeMemory P) (node : P) (side : Bool) (deltac : Int) : Option (TreeMemory P) :=
  Avl.rebalance routines fuel m node side deltac

end BAVL

/-- A `BAVL`: its nodes, and the values at the offset from them. -/
structure BAVL (P V : Type*) where
  mem : TreeMemory P
  value : P → V

namespace BAVL

/-- `_BAVL_compare_values`, which asserts what the comparator returns. -/
def compareValues (comparator : V → V → Int) (v1 v2 : V) : Option Int :=
  let res := comparator v1 v2
  if res = -1 ∨ res = 0 ∨ res = 1 then some res else none

/-- `BAVL_Init`; what the other memory holds does not matter. -/
def init (mem : TreeMemory P) (value : P → V) : BAVL P V := ⟨mem.setRoot none, value⟩

/-- `BAVL_Insert`, with its result and `*ref`. -/
def insert (comparator : V → V → Int) (fuel : Nat) (o : BAVL P V) (node : P) : Option (BAVL P V × Bool × Option P) :=
  (Avl.insert routines fuel o.mem (fun c => compareValues comparator (o.value node) (o.value c)) node).map fun r =>
    ({o with mem := r.1}, r.2)

/-- `BAVL_Remove`. -/
def remove (fuel : Nat) (o : BAVL P V) (node : P) : Option (BAVL P V) :=
  (Avl.remove routines fuel o.mem node).map fun mem => {o with mem := mem}

/-- `BAVL_LookupExact`. -/
def lookupExact (comparator : V → V → Int) (fuel : Nat) (o : BAVL P V) (val : V) : Option (Option P) :=
  Avl.lookupExact o.mem (fun c => compareValues comparator val (o.value c)) fuel

end BAVL

end TwilightLine
