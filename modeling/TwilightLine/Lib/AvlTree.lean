import Mathlib.Data.List.Nodup
import Mathlib.Data.List.Pairwise
import Mathlib.Order.Lattice
import Mathlib.Tactic.Linarith

/-! Binary trees, and the way from a subtree up to the root.

A node carries the balance that it claims; the tree is an AVL tree where that is the
difference of the heights (`Avl`). A tree with a subtree taken out is a list of frames, from
the hole up (`plug`), and is an AVL tree around a hole of a height (`AvlAround`). The
directions are `false`, the left, and `true`, so that both of a pair of mirrored cases are
one. -/
namespace TwilightLine

inductive AvlTree (P : Type*) where
  | nil
  | node (p : P) (balance : Int) (child : Bool → AvlTree P)

namespace AvlTree
variable {P : Type*}

/-- Two things, by their directions. -/
def pick {α : Type*} (side : Bool) (x y : α) : Bool → α := fun s => if s = side then x else y

section pick
variable {α : Type*} (side : Bool) (x y : α)

@[simp] theorem pick_same : pick side x y side = x := if_pos rfl

@[simp] theorem pick_not : pick side x y (!side) = y := if_neg (Bool.not_ne_self side)

theorem pick_eta (c : Bool → α) : pick side (c side) (c (!side)) = c := by
  funext s
  rcases Bool.eq_or_eq_not s side with rfl | rfl
  · exact pick_same ..
  · exact pick_not ..

theorem pick_swap : pick (!side) y x = pick side x y := by
  funext s
  cases s <;> cases side <;> rfl

/-- What holds in both directions. -/
theorem forall_pick {p : α → Prop} : (∀ s, p (pick side x y s)) ↔ p x ∧ p y := by
  constructor
  · intro h
    exact ⟨pick_same side x y ▸ h side, pick_not side x y ▸ h (!side)⟩
  · rintro ⟨hx, hy⟩ s
    unfold pick
    split
    · exact hx
    · exact hy

end pick

def root : AvlTree P → Option P
  | .nil => none
  | .node p _ _ => some p

/-- The nodes, from the left to the right. -/
def toList : AvlTree P → List P
  | .nil => []
  | .node p _ c => (c false).toList ++ p :: (c true).toList

def height : AvlTree P → Int
  | .nil => 0
  | .node _ _ c => max (c false).height (c true).height + 1

/-- The balances are the differences of the heights, and at most one. -/
def Avl : AvlTree P → Prop
  | .nil => True
  | .node _ b c => (∀ s, (c s).Avl) ∧ b = (c true).height - (c false).height ∧ -1 ≤ b ∧ b ≤ 1

/-- The same tree with other nodes. -/
def map {Q : Type*} (f : P → Q) : AvlTree P → AvlTree Q
  | .nil => .nil
  | .node p b c => .node (f p) b fun s => (c s).map f

variable {t : AvlTree P} {p q : P} {b : Int} {c : Bool → AvlTree P} {s : Bool}

theorem height_nonneg (t : AvlTree P) : 0 ≤ t.height := by
  induction t with
  | nil => exact le_refl 0
  | node p b c ih =>
    unfold height
    have := le_max_left (c false).height (c true).height
    have := ih false
    omega

theorem height_node (p : P) (b : Int) (c : Bool → AvlTree P) (side : Bool) :
    (node p b c).height = max (c side).height (c (!side)).height + 1 := by
  cases side
  · rfl
  · exact congrArg (· + 1) (max_comm ..)

theorem height_pick (p : P) (b : Int) (side : Bool) (x y : AvlTree P) :
    (node p b (pick side x y)).height = max x.height y.height + 1 := by
  rw [height_node p b _ side, pick_same, pick_not]

theorem height_pos_iff : 0 < t.height ↔ t.root ≠ none := by
  cases t with
  | nil => simp [height, root]
  | node p b c =>
    have := height_nonneg (c false)
    simp only [height, root]
    simp only [ne_eq, reduceCtorEq, not_false_eq_true, iff_true]
    omega

theorem root_eq_none (h : t.root = none) : t = .nil := by
  cases t with
  | nil => rfl
  | node => cases h

theorem root_eq_some (h : t.root = some p) : ∃ b c, t = .node p b c := by
  cases t with
  | nil => cases h
  | node q b c =>
    cases h
    exact ⟨b, c, rfl⟩

theorem mem_toList_node : q ∈ (node p b c).toList ↔ q = p ∨ ∃ s, q ∈ (c s).toList := by
  simp only [toList, List.mem_append, List.mem_cons, Bool.exists_bool]
  tauto

theorem mem_of_root (h : t.root = some p) : p ∈ t.toList := by
  obtain ⟨b, c, rfl⟩ := root_eq_some h
  exact mem_toList_node.mpr (.inl rfl)

theorem toList_map {Q : Type*} (f : P → Q) (t : AvlTree P) : (t.map f).toList = t.toList.map f := by
  induction t with
  | nil => rfl
  | node p b c ih => simp only [map, toList, ih, List.map_append, List.map_cons]

theorem root_map {Q : Type*} (f : P → Q) (t : AvlTree P) : (t.map f).root = t.root.map f := by
  cases t <;> rfl

theorem height_map {Q : Type*} (f : P → Q) (t : AvlTree P) : (t.map f).height = t.height := by
  induction t with
  | nil => rfl
  | node p b c ih => simp only [map, height, ih]

theorem avl_map {Q : Type*} (f : P → Q) (t : AvlTree P) : (t.map f).Avl ↔ t.Avl := by
  induction t with
  | nil => exact Iff.rfl
  | node p b c ih => simp only [map, Avl, ih, height_map]

/-- A rotation keeps the order of the nodes. -/
theorem toList_rotate {r nr : P} {b' : Int} {c' : Bool → AvlTree P} {dir : Bool} (hc : c (!dir) = .node nr b' c') :
    (node nr b' (pick dir (.node r b (pick dir (c dir) (c' dir))) (c' (!dir)))).toList = (node r b c).toList := by
  cases dir with
  | false =>
    rw [Bool.not_false] at hc
    simp [toList, pick, hc]
  | true =>
    rw [Bool.not_true] at hc
    simp [toList, pick, hc]

/-- The height is at most the number of nodes. -/
theorem height_le_length (t : AvlTree P) : t.height ≤ t.toList.length := by
  induction t with
  | nil => exact le_refl 0
  | node p b c ih =>
    have hleft := ih false
    have hright := ih true
    simp only [height, toList, List.length_append, List.length_cons]
    have := height_nonneg (c false)
    have := height_nonneg (c true)
    omega

/-! ### The way up -/

/-- A node on the way up: the subtree comes from its `side`. -/
structure Frame (P : Type*) where
  side : Bool
  p : P
  balance : Int
  sibling : AvlTree P

/-- The node with the subtree in its place. -/
def Frame.fill (f : Frame P) (t : AvlTree P) : AvlTree P := .node f.p f.balance (pick f.side t f.sibling)

/-- The whole tree. -/
def plug : List (Frame P) → AvlTree P → AvlTree P
  | [], t => t
  | f :: ctx, t => plug ctx (f.fill t)

/-- The parent of the subtree. -/
def parentOf : List (Frame P) → Option P
  | [] => none
  | f :: _ => some f.p

/-- The nodes to the left of the subtree. -/
def leftOf : List (Frame P) → List P
  | [] => []
  | f :: ctx => if f.side then leftOf ctx ++ f.sibling.toList ++ [f.p] else leftOf ctx

/-- The nodes to the right of it. -/
def rightOf : List (Frame P) → List P
  | [] => []
  | f :: ctx => if f.side then rightOf ctx else f.p :: f.sibling.toList ++ rightOf ctx

/-- The tree is an AVL tree but for the subtree, if that has such a height. -/
def AvlAround : Int → List (Frame P) → Prop
  | _, [] => True
  | h, f :: ctx => f.sibling.Avl ∧ f.balance = (if f.side then h - f.sibling.height else f.sibling.height - h) ∧
      -1 ≤ f.balance ∧ f.balance ≤ 1 ∧ AvlAround (max h f.sibling.height + 1) ctx

def Frame.map {Q : Type*} (g : P → Q) (f : Frame P) : Frame Q := ⟨f.side, g f.p, f.balance, f.sibling.map g⟩

variable {f : Frame P} {ctx : List (Frame P)}

theorem leftOf_cons : leftOf (f :: ctx) = if f.side then leftOf ctx ++ f.sibling.toList ++ [f.p] else leftOf ctx := rfl

theorem rightOf_cons : rightOf (f :: ctx) = if f.side then rightOf ctx else f.p :: f.sibling.toList ++ rightOf ctx := rfl

theorem mem_around {q : P} : q ∈ leftOf (f :: ctx) ++ rightOf (f :: ctx) ↔
    q = f.p ∨ q ∈ f.sibling.toList ∨ q ∈ leftOf ctx ++ rightOf ctx := by
  rw [leftOf_cons, rightOf_cons]
  cases f.side <;> simp only [List.mem_append, List.mem_cons, if_true, List.not_mem_nil, or_false, Bool.false_eq_true,
    if_false] <;> tauto

theorem parentOf_mem (h : parentOf ctx = some p) : p ∈ leftOf ctx ++ rightOf ctx := by
  cases ctx with
  | nil => cases h
  | cons f ctx =>
    cases h
    exact mem_around.mpr (.inl rfl)

theorem fill_toList (f : Frame P) (t : AvlTree P) (ctx : List (Frame P)) :
    leftOf ctx ++ (f.fill t).toList ++ rightOf ctx = leftOf (f :: ctx) ++ t.toList ++ rightOf (f :: ctx) := by
  obtain ⟨side, p, b, sibling⟩ := f
  cases side <;> simp [Frame.fill, leftOf, rightOf, toList, pick]

theorem plug_toList (ctx : List (Frame P)) (t : AvlTree P) : (plug ctx t).toList = leftOf ctx ++ t.toList ++ rightOf ctx := by
  induction ctx generalizing t with
  | nil => simp [plug, leftOf, rightOf]
  | cons f ctx ih => rw [plug, ih, fill_toList]

theorem plug_append (inner outer : List (Frame P)) (t : AvlTree P) : plug (inner ++ outer) t = plug outer (plug inner t) := by
  induction inner generalizing t with
  | nil => rfl
  | cons f inner ih => exact ih (f.fill t)

theorem leftOf_append (inner outer : List (Frame P)) : leftOf (inner ++ outer) = leftOf outer ++ leftOf inner := by
  induction inner with
  | nil => exact (List.append_nil _).symm
  | cons f inner ih =>
    rw [List.cons_append, leftOf_cons, leftOf_cons, ih]
    cases f.side <;> simp

theorem rightOf_append (inner outer : List (Frame P)) : rightOf (inner ++ outer) = rightOf inner ++ rightOf outer := by
  induction inner with
  | nil => rfl
  | cons f inner ih =>
    rw [List.cons_append, rightOf_cons, rightOf_cons, ih]
    cases f.side <;> simp

theorem mem_plug {q : P} : q ∈ (plug ctx t).toList ↔ q ∈ t.toList ∨ q ∈ leftOf ctx ++ rightOf ctx := by
  rw [plug_toList]
  simp only [List.mem_append]
  tauto

/-- The way up is no longer than there are nodes beside it. -/
theorem length_le_around (ctx : List (Frame P)) : ctx.length ≤ (leftOf ctx ++ rightOf ctx).length := by
  induction ctx with
  | nil => exact Nat.le_refl 0
  | cons f ctx ih =>
    rw [leftOf_cons, rightOf_cons]
    simp only [List.length_append, List.length_cons] at ih ⊢
    cases f.side <;> simp only [if_true, Bool.false_eq_true, if_false, List.length_append, List.length_cons, List.length_nil] <;>
      omega

theorem fill_height (f : Frame P) (t : AvlTree P) : (f.fill t).height = max t.height f.sibling.height + 1 := by
  exact height_pick ..

/-- A subtree of the right height makes the tree an AVL tree. -/
theorem AvlAround.plug (h : AvlAround t.height ctx) (ht : t.Avl) : (plug ctx t).Avl := by
  induction ctx generalizing t with
  | nil => exact ht
  | cons f ctx ih =>
    obtain ⟨hsibling, hbalance, hlow, hhigh, hctx⟩ := h
    refine ih (fill_height f t ▸ hctx) ⟨?_, ?_, hlow, hhigh⟩
    · exact (forall_pick ..).mpr ⟨ht, hsibling⟩
    · rw [hbalance]
      cases f.side <;> rfl

theorem avlAround_of_plug (h : (plug ctx t).Avl) : t.Avl ∧ AvlAround t.height ctx := by
  induction ctx generalizing t with
  | nil => exact ⟨h, trivial⟩
  | cons f ctx ih =>
    obtain ⟨⟨hchild, hbalance, hlow, hhigh⟩, hctx⟩ := ih h
    obtain ⟨ht, hsibling⟩ := (forall_pick ..).mp hchild
    refine ⟨ht, hsibling, ?_, hlow, hhigh, fill_height f t ▸ hctx⟩
    rw [hbalance]
    cases f.side <;> rfl

/-- Every node is at the end of a way up. -/
theorem exists_plug (h : p ∈ t.toList) : ∃ ctx b c, t = plug ctx (.node p b c) := by
  induction t with
  | nil => cases h
  | node q b c ih =>
    rcases mem_toList_node.mp h with rfl | ⟨s, hs⟩
    · exact ⟨[], b, c, rfl⟩
    · obtain ⟨ctx, b', c', heq⟩ := ih s hs
      refine ⟨ctx ++ [⟨s, q, b, c (!s)⟩], b', c', ?_⟩
      rw [plug_append, ← heq]
      show _ = Frame.fill ⟨s, q, b, c (!s)⟩ (c s)
      rw [Frame.fill, pick_eta]

theorem map_fill {Q : Type*} (g : P → Q) (f : Frame P) (t : AvlTree P) : (f.fill t).map g = (f.map g).fill (t.map g) := by
  show node _ _ _ = node _ _ _
  congr 1
  funext s
  exact apply_ite (AvlTree.map g) (s = f.side) t f.sibling

theorem map_plug {Q : Type*} (g : P → Q) (ctx : List (Frame P)) (t : AvlTree P) :
    (plug ctx t).map g = plug (ctx.map (Frame.map g)) (t.map g) := by
  induction ctx generalizing t with
  | nil => rfl
  | cons f ctx ih => rw [plug, ih, map_fill, List.map_cons, plug]

theorem leftOf_map {Q : Type*} (g : P → Q) (ctx : List (Frame P)) : leftOf (ctx.map (Frame.map g)) = (leftOf ctx).map g := by
  induction ctx with
  | nil => rfl
  | cons f ctx ih =>
    rw [List.map_cons, leftOf_cons, leftOf_cons, ih]
    cases hs : f.side <;> simp [Frame.map, hs, toList_map]

theorem rightOf_map {Q : Type*} (g : P → Q) (ctx : List (Frame P)) : rightOf (ctx.map (Frame.map g)) = (rightOf ctx).map g := by
  induction ctx with
  | nil => rfl
  | cons f ctx ih =>
    rw [List.map_cons, rightOf_cons, rightOf_cons, ih]
    cases hs : f.side <;> simp [Frame.map, hs, toList_map]

end AvlTree

end TwilightLine
