import TwilightLine.Lib.TreeMemory

/-! The algorithms of `structure/BAVL.h` and of `structure/CAvl_impl.h`.

The two are the same but for three routines that change links (`AvlRoutines`): those of `CAvl`
are given the parents, and `BAVL` reads them. A `CAvlRef` is the address of an entry here, or
nothing; counts and associative values are turned off where the trees are used. Loops and
recursions go on for so many steps at most; a function fails where that is not enough, and
where an assertion fails or a null pointer is dereferenced. -/
namespace TwilightLine

variable {P : Type*} [DecidableEq P]

structure AvlRoutines (P : Type*) where
  /-- `rotate`: `r` goes down to the side `dir`. -/
  rotate : TreeMemory P → (r : P) → (dir : Bool) → (rParent : Option P) → Option (TreeMemory P)
  /-- `swap_nodes`, `swap_for_remove`. -/
  swap : TreeMemory P → (node enode : P) → (nodeParent enodeParent : Option P) → Option (TreeMemory P)
  /-- `replace_subtree`. -/
  replaceSubtree : TreeMemory P → (dest : P) → (n destParent : Option P) → Option (TreeMemory P)

namespace Avl

/-- `CAvl_OPTNEG`. -/
def optneg (a : Int) (neg : Bool) : Int := if neg then -a else a

/-- The transformations of `rebalance`, with the node that is above then, and the change of its height. -/
def transform (R : AvlRoutines P) (m : TreeMemory P) (node : P) (delta : Int) : Option (TreeMemory P × P × Int) :=
  if m.balance node = 2 ∨ m.balance node = -2 then
    let bside := decide (m.balance node = 2)
    let bsidef : Int := if m.balance node = 2 then 1 else -1
    match m.link node bside with
    | none => none
    | some child =>
      if m.balance child * bsidef = 1 then
        (R.rotate m node (!bside) (m.parent node)).map fun m => ((m.setBalance node 0).setBalance child 0, child, delta - 1)
      else if m.balance child * bsidef = 0 then
        (R.rotate m node (!bside) (m.parent node)).map fun m =>
          ((m.setBalance node (1 * bsidef)).setBalance child (-1 * bsidef), child, delta)
      else if m.balance child * bsidef = -1 then
        match m.link child (!bside) with
        | none => none
        | some gchild =>
          (R.rotate m child bside (some node)).bind fun m =>
            (R.rotate m node (!bside) (m.parent node)).map fun m =>
              let m := m.setBalance node (-max 0 (m.balance gchild * bsidef) * bsidef)
              let m := m.setBalance child (max 0 (-m.balance gchild * bsidef) * bsidef)
              (m.setBalance gchild 0, gchild, delta - 1)
      else none
  else some (m, node, delta)

/-- `rebalance`: the subtree of `node` on the `side` changed its height by `deltac`. -/
def rebalance (R : AvlRoutines P) : Nat → TreeMemory P → (node : P) → (side : Bool) → (deltac : Int) → Option (TreeMemory P)
  | 0, _, _, _, _ => none
  | fuel + 1, m, node, side, deltac =>
    if -1 ≤ deltac ∧ deltac ≤ 1 ∧ -1 ≤ m.balance node ∧ m.balance node ≤ 1 then
      if deltac = 0 then some m
      else
        let delta := max deltac (optneg (m.balance node) side) - max 0 (optneg (m.balance node) side)
        if -1 ≤ delta ∧ delta ≤ 1 then
          (transform R (m.setBalance node (m.balance node - optneg deltac side)) node delta).bind fun (m, node, delta) =>
            if -1 ≤ delta ∧ delta ≤ 1 then
              match m.parent node with
              | none => some m
              | some parent => rebalance R fuel m parent (decide (m.link parent true = some node)) delta
            else none
        else none
    else none

/-- The node that a search ends at, and its side where it has no child, unless it is equal. -/
def search (m : TreeMemory P) (compare : P → Option Int) : Nat → P → Option (P × Option Bool)
  | 0, _ => none
  | fuel + 1, c =>
    (compare c).bind fun comp =>
      if comp = 0 then some (c, none)
      else
        let side := decide (comp = 1)
        match m.link c side with
        | none => some (c, some side)
        | some c => search m compare fuel c

/-- A node without children, and with the balance zero. -/
def newNode (m : TreeMemory P) (node : P) (parent : Option P) : TreeMemory P :=
  (((m.setParent node parent).setLink node false none).setLink node true none).setBalance node 0

/-- `Insert`, with its result and its reference. -/
def insert (R : AvlRoutines P) (fuel : Nat) (m : TreeMemory P) (compare : P → Option Int) (node : P) :
    Option (TreeMemory P × Bool × Option P) :=
  match m.root with
  | none => some (newNode (m.setRoot (some node)) node none, true, none)
  | some root =>
    (search m compare fuel root).bind fun
      | (c, none) => some (m, false, some c)
      | (c, some side) =>
        (rebalance R fuel (newNode (m.setLink c side (some node)) node (some c)) c side 1).map fun m => (m, true, some c)

/-- `subtree_max` and `subtree_min`. -/
def subtreeEnd (m : TreeMemory P) (side : Bool) : Nat → P → Option P
  | 0, _ => none
  | fuel + 1, n =>
    match m.link n side with
    | none => some n
    | some n => subtreeEnd m side fuel n

/-- `Remove`, after the swap. -/
def removeChildless (R : AvlRoutines P) (fuel : Nat) (m : TreeMemory P) (node : P) : Option (TreeMemory P) :=
  if m.link node false ≠ none ∧ m.link node true ≠ none then none
  else
    let child := if m.link node false ≠ none then m.link node false else m.link node true
    match m.parent node with
    | some parent =>
      let side := decide (m.link parent true = some node)
      (R.replaceSubtree m node child (some parent)).bind fun m => rebalance R fuel m parent side (-1)
    | none => R.replaceSubtree m node child none

/-- `Remove`. -/
def remove (R : AvlRoutines P) (fuel : Nat) (m : TreeMemory P) (node : P) : Option (TreeMemory P) :=
  match m.link node false, m.link node true with
  | some left, some _ =>
    ((subtreeEnd m true fuel left).bind fun max => R.swap m node max (m.parent node) (m.parent max)).bind fun m =>
      removeChildless R fuel m node
  | _, _ => removeChildless R fuel m node

/-- `LookupExact`. -/
def lookupExact (m : TreeMemory P) (compare : P → Option Int) (fuel : Nat) : Option (Option P) :=
  match m.root with
  | none => some none
  | some root =>
    (search m compare fuel root).map fun
      | (c, none) => some c
      | (_, some _) => none

/-- `GetFirst`. -/
def getFirst (m : TreeMemory P) (fuel : Nat) : Option (Option P) :=
  match m.root with
  | none => some none
  | some root => (subtreeEnd m false fuel root).map some

/-- The way up in `GetNext`. -/
def climb (m : TreeMemory P) : Nat → P → Option (Option P)
  | 0, _ => none
  | fuel + 1, node =>
    match m.parent node with
    | none => some none
    | some parent => if m.link parent true = some node then climb m fuel parent else some (some parent)

/-- `GetNext`. -/
def getNext (m : TreeMemory P) (fuel : Nat) (node : P) : Option (Option P) :=
  match m.link node true with
  | some n => (subtreeEnd m false fuel n).map some
  | none => climb m fuel node

end Avl

end TwilightLine
