import TwilightLine.Structure.BAVL

/-! `structure/CAvl_impl.h`, for entries that are compared with each other only. -/
namespace TwilightLine

variable {P V : Type*} [DecidableEq P]

namespace CAvl

/-- `CAvl_check_parent`. -/
def checkParent (m : TreeMemory P) (p : Option P) (c : P) : Prop :=
  p = m.parent c ∧ ∀ q, p = some q → some c = m.link q false ∨ some c = m.link q true

instance (m : TreeMemory P) (p : Option P) (c : P) : Decidable (checkParent m p c) :=
  match p with
  | none => decidable_of_iff (none = m.parent c) ⟨fun h => ⟨h, nofun⟩, And.left⟩
  | some q => decidable_of_iff (some q = m.parent c ∧ (some c = m.link q false ∨ some c = m.link q true))
      ⟨fun h => ⟨h.1, fun _ heq => Option.some.inj heq ▸ h.2⟩, fun h => ⟨h.1, h.2 q rfl⟩⟩

/-- `CAvl_rotate`. -/
def rotate (m : TreeMemory P) (r : P) (dir : Bool) (rParent : Option P) : Option (TreeMemory P) :=
  if checkParent m rParent r then
    (m.link r (!dir)).map fun nr =>
      let m := m.setLink r (!dir) (m.link nr dir)
      let m := m.setParentOf (m.link r (!dir)) (some r)
      let m := m.setLink nr dir (some r)
      let m := m.setParent nr rParent
      let m := m.replaceChild rParent r (some nr)
      m.setParent r (some nr)
  else none

/-- `CAvl_replace_subtree_fix_assoc`. -/
def replaceSubtree (m : TreeMemory P) (dest : P) (n destParent : Option P) : Option (TreeMemory P) :=
  if checkParent m destParent dest then
    let m := m.replaceChild destParent dest n
    some (m.setParentOf n (m.parent dest))
  else none

/-- The nodes are directly connected. -/
def swapConnected (m : TreeMemory P) (node enode : P) (nodeParent : Option P) : TreeMemory P :=
  let side := decide (m.link node true = some enode)
  let c := m.link node (!side)
  let m := m.setLink node false (m.link enode false)
  let m := m.setParentOf (m.link node false) (some node)
  let m := m.setLink node true (m.link enode true)
  let m := m.setParentOf (m.link node true) (some node)
  let m := m.setParent enode (m.parent node)
  let m := m.replaceChild nodeParent node (some enode)
  let m := m.setLink enode side (some node)
  let m := m.setParent node (some enode)
  let m := m.setLink enode (!side) c
  m.setParentOf c (some enode)

/-- They are not. -/
def swapApart (m : TreeMemory P) (node enode : P) (nodeParent enodeParent : Option P) : TreeMemory P :=
  -- swap parents
  let temp := nodeParent
  let m := m.setParent node (m.parent enode)
  let m := m.replaceChild enodeParent enode (some node)
  let m := m.setParent enode temp
  let m := m.replaceChild temp node (some enode)
  -- swap left children
  let temp := m.link node false
  let m := m.setLink node false (m.link enode false)
  let m := m.setParentOf (m.link node false) (some node)
  let m := m.setLink enode false temp
  let m := m.setParentOf (m.link enode false) (some enode)
  -- swap right children
  let temp := m.link node true
  let m := m.setLink node true (m.link enode true)
  let m := m.setParentOf (m.link node true) (some node)
  let m := m.setLink enode true temp
  m.setParentOf (m.link enode true) (some enode)

/-- `CAvl_swap_for_remove`. -/
def swapForRemove (m : TreeMemory P) (node enode : P) (nodeParent enodeParent : Option P) : Option (TreeMemory P) :=
  if checkParent m nodeParent node ∧ checkParent m enodeParent enode then
    let m := if enodeParent = some node then swapConnected m node enode nodeParent
      else swapApart m node enode nodeParent enodeParent
    let b := m.balance node
    let m := m.setBalance node (m.balance enode)
    some (m.setBalance enode b)
  else none

def routines : AvlRoutines P := ⟨rotate, swapForRemove, replaceSubtree⟩

/-- `CAvl_rebalance`. -/
def rebalance (fuel : Nat) (m : TreeMemory P) (node : P) (side : Bool) (deltac : Int) : Option (TreeMemory P) :=
  Avl.rebalance routines fuel m node side deltac

end CAvl

/-- A `CAvl` and its entries, with what the comparison goes by. -/
structure CAvl (P V : Type*) where
  mem : TreeMemory P
  value : P → V

namespace CAvl

/-- `CAvl_compare_entries`, which asserts what the comparison returns. -/
def compareEntries (compare : V → V → Int) (o : CAvl P V) (node1 node2 : P) : Option Int :=
  let res := compare (o.value node1) (o.value node2)
  if res ≥ -1 ∧ res ≤ 1 then some res else none

/-- `CAvl_Init`; what the other memory holds does not matter. -/
def init (mem : TreeMemory P) (value : P → V) : CAvl P V := ⟨mem.setRoot none, value⟩

/-- `CAvl_Insert`, with its result and `*out_ref`. -/
def insert (compare : V → V → Int) (fuel : Nat) (o : CAvl P V) (node : P) : Option (CAvl P V × Bool × Option P) :=
  (Avl.insert routines fuel o.mem (o.compareEntries compare node) node).map fun r => ({o with mem := r.1}, r.2)

/-- `CAvl_Remove`. -/
def remove (fuel : Nat) (o : CAvl P V) (node : P) : Option (CAvl P V) :=
  if o.mem.root ≠ none then (Avl.remove routines fuel o.mem node).map fun mem => {o with mem := mem} else none

/-- `CAvl_GetFirst`. -/
def getFirst (fuel : Nat) (o : CAvl P V) : Option (Option P) := Avl.getFirst o.mem fuel

/-- `CAvl_GetNext`. -/
def getNext (fuel : Nat) (o : CAvl P V) (node : P) : Option (Option P) :=
  if o.mem.root ≠ none then Avl.getNext o.mem fuel node else none

end CAvl

end TwilightLine
