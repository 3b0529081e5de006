import TwilightLine.Lib.AvlTree
import Mathlib.Logic.Equiv.Basic

/-! Trees in memory, with links to the children and to the parents.

Nodes are known by their addresses. What the memory holds of a tree is said of a subtree and
of the way up from it (`Focus`), so that a change of a few links is a change of the subtree
(`Focus.congr`). A memory may also be seen with its addresses exchanged (`renamed`): then it
holds the tree with the nodes exchanged. -/
namespace TwilightLine

open AvlTree

structure TreeMemory (P : Type*) where
  root : Option P
  parent : P → Option P
  link : P → Bool → Option P
  balance : P → Int

namespace TreeMemory
variable {P : Type*}

/-! ### What the memory holds -/

/-- The memory holds the tree, as a subtree of the parent. -/
def Holds (m : TreeMemory P) : Option P → AvlTree P → Prop
  | _, .nil => True
  | par, .node p b c => m.parent p = par ∧ m.balance p = b ∧ ∀ s, m.link p s = (c s).root ∧ Holds m (some p) (c s)

/-- The memory holds the way up, with the node in the hole. -/
def HoldsAround (m : TreeMemory P) : Option P → List (Frame P) → Prop
  | hole, [] => m.root = hole
  | hole, f :: ctx => m.parent f.p = parentOf ctx ∧ m.balance f.p = f.balance ∧ m.link f.p f.side = hole ∧
      m.link f.p (!f.side) = f.sibling.root ∧ Holds m (some f.p) f.sibling ∧ HoldsAround m (some f.p) ctx

/-- The memory holds a tree of distinct nodes, of which this is a subtree and the way up from it. -/
structure Focus (m : TreeMemory P) (ctx : List (Frame P)) (t : AvlTree P) : Prop where
  holds : Holds m (parentOf ctx) t
  around : HoldsAround m t.root ctx
  nodup : (leftOf ctx ++ t.toList ++ rightOf ctx).Nodup

/-- The memory holds the tree. -/
abbrev Stores (m : TreeMemory P) (t : AvlTree P) : Prop := Focus m [] t

/-- Two memories have the same at a node. -/
def Same (m m' : TreeMemory P) (p : P) : Prop :=
  m'.parent p = m.parent p ∧ m'.link p = m.link p ∧ m'.balance p = m.balance p

variable {m m' : TreeMemory P} {p q x : P} {o v w par hole : Option P} {s s' : Bool} {b : Int}
  {t : AvlTree P} {ctx : List (Frame P)} {f : Frame P} {c : Bool → AvlTree P}

theorem Same.trans {m₁ m₂ : TreeMemory P} (h₁ : Same m m₁ q) (h₂ : Same m₁ m₂ q) : Same m m₂ q :=
  ⟨h₂.1.trans h₁.1, h₂.2.1.trans h₁.2.1, h₂.2.2.trans h₁.2.2⟩

theorem Holds.congr (h : Holds m par t) (hsame : ∀ p ∈ t.toList, Same m m' p) : Holds m' par t := by
  induction t generalizing par with
  | nil => trivial
  | node p b c ih =>
    obtain ⟨hparent, hbalance, hchild⟩ := h
    obtain ⟨hp, hl, hb⟩ := hsame p (mem_toList_node.mpr (.inl rfl))
    refine ⟨hp.trans hparent, hb.trans hbalance, fun s => ⟨?_, ?_⟩⟩
    · rw [hl]
      exact (hchild s).1
    · exact ih s (hchild s).2 fun q hq => hsame q (mem_toList_node.mpr (.inr ⟨s, hq⟩))

theorem HoldsAround.congr (h : HoldsAround m hole ctx) (hsame : ∀ p ∈ leftOf ctx ++ rightOf ctx, Same m m' p)
    (hroot : m'.root = m.root) : HoldsAround m' hole ctx := by
  induction ctx generalizing hole with
  | nil => exact hroot.trans h
  | cons f ctx ih =>
    obtain ⟨hparent, hbalance, hlink, hother, hsibling, hctx⟩ := h
    obtain ⟨hp, hl, hb⟩ := hsame f.p (mem_around.mpr (.inl rfl))
    rw [HoldsAround, hl]
    refine ⟨hp.trans hparent, hb.trans hbalance, hlink, hother, hsibling.congr fun q hq => ?_, ih hctx fun q hq => ?_⟩
    · exact hsame q (mem_around.mpr (.inr (.inl hq)))
    · exact hsame q (mem_around.mpr (.inr (.inr hq)))

/-- What is held of a node and its two children. -/
theorem holds_pick {x y : AvlTree P} : Holds m par (.node p b (pick s x y)) ↔ m.parent p = par ∧ m.balance p = b ∧
    (m.link p s = x.root ∧ Holds m (some p) x) ∧ m.link p (!s) = y.root ∧ Holds m (some p) y := by
  constructor
  · rintro ⟨hparent, hbalance, hchild⟩
    have hsame := hchild s
    have hother := hchild (!s)
    rw [pick_same] at hsame
    rw [pick_not] at hother
    exact ⟨hparent, hbalance, hsame, hother⟩
  · rintro ⟨hparent, hbalance, hsame, hother⟩
    refine ⟨hparent, hbalance, fun s' => ?_⟩
    rcases Bool.eq_or_eq_not s' s with rfl | rfl
    · rw [pick_same]
      exact hsame
    · rw [pick_not]
      exact hother

/-- The subtree and the frame above it are a subtree. -/
theorem focus_cons : Focus m (f :: ctx) t ↔ Focus m ctx (f.fill t) := by
  constructor
  · rintro ⟨ht, ⟨hparent, hbalance, hlink, hother, hsibling, hctx⟩, hnodup⟩
    rw [← fill_toList] at hnodup
    exact ⟨holds_pick.mpr ⟨hparent, hbalance, ⟨hlink, ht⟩, hother, hsibling⟩, hctx, hnodup⟩
  · rintro ⟨ht, hctx, hnodup⟩
    obtain ⟨hparent, hbalance, ⟨hlink, ht⟩, hother, hsibling⟩ := holds_pick.mp ht
    rw [fill_toList] at hnodup
    exact ⟨ht, ⟨hparent, hbalance, hlink, hother, hsibling, hctx⟩, hnodup⟩

/-- A subtree of a subtree. -/
theorem focus_append {inner : List (Frame P)} : Focus m (inner ++ ctx) t ↔ Focus m ctx (plug inner t) := by
  induction inner generalizing t with
  | nil => exact Iff.rfl
  | cons f inner ih => exact focus_cons.trans ih

theorem focus_iff_stores : Focus m ctx t ↔ Stores m (plug ctx t) := by
  have h : Focus m (ctx ++ []) t ↔ Focus m [] (plug ctx t) := focus_append
  rwa [List.append_nil] at h

/-- A child of the node in focus. -/
theorem focus_child (s : Bool) : Focus m ctx (.node p b c) ↔ Focus m (⟨s, p, b, c (!s)⟩ :: ctx) (c s) := by
  rw [focus_cons, Frame.fill, pick_eta]

/-- A child of its child. -/
theorem Focus.grandchild {nr : P} {b' : Int} {c' : Bool → AvlTree P} (h : Focus m ctx (.node p b c)) (hc : c s = .node nr b' c')
    (s' : Bool) : Focus m (⟨s', nr, b', c' (!s')⟩ :: ⟨s, p, b, c (!s)⟩ :: ctx) (c' s') := by
  have hchild := (focus_child s).mp h
  rw [hc] at hchild
  exact (focus_child s').mp hchild

theorem Focus.congr (h : Focus m ctx t) (ht : ∀ p ∈ t.toList, Same m m' p) (hctx : ∀ p ∈ leftOf ctx ++ rightOf ctx, Same m m' p)
    (hroot : m'.root = m.root) : Focus m' ctx t :=
  ⟨h.holds.congr ht, h.around.congr hctx hroot, h.nodup⟩

/-- The nodes on the way up are not those of the subtree. -/
theorem Focus.disjoint (h : Focus m ctx t) (hp : p ∈ t.toList) : p ∉ leftOf ctx ++ rightOf ctx := by
  intro hc
  have hnodup := h.nodup
  rw [List.append_assoc, List.nodup_append] at hnodup
  obtain ⟨-, hright, hleft⟩ := hnodup
  rw [List.nodup_append] at hright
  rcases List.mem_append.mp hc with hl | hr
  · exact hleft p hl p (List.mem_append_left _ hp) rfl
  · exact hright.2.2 p hp p hr rfl

/-- Nor are those of one child those of the other, or the node itself. -/
theorem Focus.node_disjoint (h : Focus m ctx (.node p b c)) :
    (∀ s, p ∉ (c s).toList) ∧ ∀ s q, q ∈ (c s).toList → q ∉ (c (!s)).toList := by
  have hchild (s : Bool) : ∀ q ∈ (c s).toList, q ≠ p ∧ q ∉ (c (!s)).toList := by
    intro q hq
    have hnot := ((focus_child s).mp h).disjoint hq
    rw [mem_around, not_or, not_or] at hnot
    exact ⟨hnot.1, hnot.2.1⟩
  exact ⟨fun s hs => (hchild s p hs).1 rfl, fun s q hq => (hchild s q hq).2⟩

/-! ### Links to the parents and to the children -/

/-- The links among the nodes are the inverse of the links to the parents. -/
structure Linked (m : TreeMemory P) (l : List P) : Prop where
  child : ∀ {p s q}, p ∈ l → m.link p s = some q → q ∈ l ∧ m.parent q = some p
  parent : ∀ {p q}, q ∈ l → m.parent q = some p → p ∈ l ∧ ∃ s, m.link p s = some q
  top : ∀ {q}, q ∈ l → (m.parent q = none ↔ m.root = some q)
  root : ∀ {q}, m.root = some q → q ∈ l
  sides : ∀ {p s q}, p ∈ l → m.link p s = some q → m.link p (!s) ≠ some q

/-- A node is in focus at some way up. -/
theorem Focus.at (h : Stores m t) (hp : p ∈ t.toList) : ∃ ctx b c, t = plug ctx (.node p b c) ∧ Focus m ctx (.node p b c) := by
  obtain ⟨ctx, b, c, rfl⟩ := exists_plug hp
  exact ⟨ctx, b, c, rfl, focus_iff_stores.mpr h⟩

theorem Focus.linked (h : Stores m t) : Linked m t.toList where
  child {p s q} hp hlink := by
    obtain ⟨ctx, b, c, rfl, hfocus⟩ := h.at hp
    obtain ⟨-, -, hchild⟩ := hfocus.holds
    obtain ⟨hroot, hholds⟩ := hchild s
    obtain ⟨b', c', hc⟩ := root_eq_some (hroot.symm.trans hlink)
    refine ⟨mem_plug.mpr (.inl (mem_toList_node.mpr (.inr ⟨s, mem_of_root (hroot.symm.trans hlink)⟩))), ?_⟩
    rw [hc] at hholds
    exact hholds.1
  parent {p q} hq hparent := by
    obtain ⟨ctx, b, c, rfl, hfocus⟩ := h.at hq
    have htop : parentOf ctx = some p := hfocus.holds.1.symm.trans hparent
    cases ctx with
    | nil => cases htop
    | cons f ctx =>
      cases htop
      exact ⟨mem_plug.mpr (.inr (mem_around.mpr (.inl rfl))), f.side, hfocus.around.2.2.1⟩
  top {q} hq := by
    obtain ⟨ctx, b, c, rfl, hfocus⟩ := h.at hq
    constructor
    · intro hnone
      have htop : parentOf ctx = none := hfocus.holds.1.symm.trans hnone
      cases ctx with
      | nil => exact hfocus.around
      | cons f ctx => cases htop
    · intro hroot
      obtain ⟨b', c', hnode⟩ := root_eq_some (h.around.symm.trans hroot)
      have hholds := h.holds
      rw [hnode] at hholds
      exact hholds.1
  root hroot := mem_of_root (h.around.symm.trans hroot)
  sides {p s q} hp hlink hother := by
    obtain ⟨ctx, b, c, rfl, hfocus⟩ := h.at hp
    obtain ⟨-, -, hchild⟩ := hfocus.holds
    have hmem := mem_of_root ((hchild s).1.symm.trans hlink)
    exact hfocus.node_disjoint.2 s q hmem (mem_of_root ((hchild (!s)).1.symm.trans hother))

/-- No node is above itself. -/
theorem Focus.parent_ne (h : Stores m t) (hp : p ∈ t.toList) : m.parent p ≠ some p := by
  intro heq
  obtain ⟨ctx, b, c, rfl, hfocus⟩ := h.at hp
  exact hfocus.disjoint (mem_toList_node.mpr (.inl rfl)) (parentOf_mem (hfocus.holds.1.symm.trans heq))

/-! ### Other addresses -/

/-- The memory where the nodes have other addresses. -/
def renamed (m : TreeMemory P) (σ : Equiv.Perm P) : TreeMemory P where
  root := m.root.map σ
  parent p := (m.parent (σ.symm p)).map σ
  link p s := (m.link (σ.symm p) s).map σ
  balance p := m.balance (σ.symm p)

theorem Holds.renamed (h : Holds m par t) (σ : Equiv.Perm P) : Holds (m.renamed σ) (par.map σ) (t.map σ) := by
  induction t generalizing par with
  | nil => trivial
  | node p b c ih =>
    obtain ⟨hparent, hbalance, hchild⟩ := h
    refine ⟨?_, ?_, fun s => ⟨?_, ih s (hchild s).2⟩⟩
    · show (m.parent (σ.symm (σ p))).map σ = par.map σ
      rw [Equiv.symm_apply_apply, hparent]
    · show m.balance (σ.symm (σ p)) = b
      rw [Equiv.symm_apply_apply, hbalance]
    · show (m.link (σ.symm (σ p)) s).map σ = ((c s).map σ).root
      rw [Equiv.symm_apply_apply, (hchild s).1, root_map]

/-- It holds the tree with these addresses. -/
theorem Focus.renamed (h : Stores m t) (σ : Equiv.Perm P) : Stores (m.renamed σ) (t.map σ) := by
  refine ⟨h.holds.renamed σ, ?_, ?_⟩
  · show m.root.map σ = (t.map σ).root
    rw [root_map, ← h.around]
  · have hnodup := h.nodup
    simp only [leftOf, rightOf, List.nil_append, List.append_nil] at hnodup ⊢
    rw [toList_map]
    exact hnodup.map σ.injective

/-! ### Changes -/

def setRoot (m : TreeMemory P) (v : Option P) : TreeMemory P := {m with root := v}

@[simp] theorem setRoot_parent : (m.setRoot v).parent = m.parent := rfl

@[simp] theorem setRoot_link : (m.setRoot v).link = m.link := rfl

@[simp] theorem setRoot_balance : (m.setRoot v).balance = m.balance := rfl

variable [DecidableEq P]

def setParent (m : TreeMemory P) (p : P) (v : Option P) : TreeMemory P := {m with parent := Function.update m.parent p v}

def setLink (m : TreeMemory P) (p : P) (s : Bool) (v : Option P) : TreeMemory P :=
  {m with link := Function.update m.link p (Function.update (m.link p) s v)}

def setBalance (m : TreeMemory P) (p : P) (b : Int) : TreeMemory P := {m with balance := Function.update m.balance p b}

/-- The parent of a node, if there is one, is set. -/
def setParentOf (m : TreeMemory P) (o v : Option P) : TreeMemory P :=
  match o with
  | none => m
  | some c => m.setParent c v

/-- The link to `x` in its parent, or the root, is set. -/
def replaceChild (m : TreeMemory P) (parent : Option P) (x : P) (v : Option P) : TreeMemory P :=
  match parent with
  | none => m.setRoot v
  | some p => m.setLink p (decide (m.link p true = some x)) v

section fields

@[simp] theorem setParent_root : (m.setParent p v).root = m.root := rfl

@[simp] theorem setParent_link : (m.setParent p v).link = m.link := rfl

@[simp] theorem setParent_balance : (m.setParent p v).balance = m.balance := rfl

theorem setParent_parent : (m.setParent p v).parent q = if q = p then v else m.parent q := Function.update_apply ..

@[simp] theorem setLink_root : (m.setLink p s v).root = m.root := rfl

@[simp] theorem setLink_parent : (m.setLink p s v).parent = m.parent := rfl

@[simp] theorem setLink_balance : (m.setLink p s v).balance = m.balance := rfl

theorem setLink_link : (m.setLink p s v).link q s' = if q = p ∧ s' = s then v else m.link q s' := by
  unfold setLink
  simp only [Function.update_apply]
  by_cases hq : q = p
  · rw [if_pos hq, Function.update_apply, hq]
    by_cases hs : s' = s
    · rw [if_pos hs, if_pos ⟨rfl, hs⟩]
    · rw [if_neg hs, if_neg (fun h => hs h.2)]
  · rw [if_neg hq, if_neg (fun h => hq h.1)]

@[simp] theorem setBalance_root : (m.setBalance p b).root = m.root := rfl

@[simp] theorem setBalance_parent : (m.setBalance p b).parent = m.parent := rfl

@[simp] theorem setBalance_link : (m.setBalance p b).link = m.link := rfl

theorem setBalance_balance : (m.setBalance p b).balance q = if q = p then b else m.balance q := Function.update_apply ..

@[simp] theorem setParentOf_root : (m.setParentOf o v).root = m.root := by cases o <;> rfl

@[simp] theorem setParentOf_link : (m.setParentOf o v).link = m.link := by cases o <;> rfl

@[simp] theorem setParentOf_balance : (m.setParentOf o v).balance = m.balance := by cases o <;> rfl

theorem setParentOf_parent : (m.setParentOf o v).parent q = if o = some q then v else m.parent q := by
  cases o with
  | none => rfl
  | some c =>
    rw [setParentOf, setParent_parent]
    by_cases hc : q = c
    · rw [if_pos hc, if_pos (congrArg some hc.symm)]
    · rw [if_neg hc, if_neg (fun h => hc (Option.some.inj h).symm)]

@[simp] theorem replaceChild_parent : (m.replaceChild par x v).parent = m.parent := by cases par <;> rfl

@[simp] theorem replaceChild_balance : (m.replaceChild par x v).balance = m.balance := by cases par <;> rfl

theorem replaceChild_root : (m.replaceChild par x v).root = if par = none then v else m.root := by cases par <;> rfl

theorem replaceChild_link : (m.replaceChild par x v).link q s =
    if par = some q ∧ s = decide (m.link q true = some x) then v else m.link q s := by
  cases par with
  | none => exact (if_neg fun h => absurd h.1 nofun).symm
  | some p =>
    rw [replaceChild, setLink_link]
    by_cases hq : q = p
    · subst hq
      simp only [true_and]
    · rw [if_neg (fun h => hq h.1), if_neg (fun h => hq (Option.some.inj h.1).symm)]

end fields

/-! Where there is no change. -/

section same

theorem same_setParent (h : q ≠ p) : Same m (m.setParent p v) q := ⟨setParent_parent.trans (if_neg h), rfl, rfl⟩

theorem same_setParentOf (h : o ≠ some q) : Same m (m.setParentOf o v) q :=
  ⟨setParentOf_parent.trans (if_neg h), congrFun setParentOf_link q, congrFun setParentOf_balance q⟩

theorem same_setLink (h : q ≠ p) : Same m (m.setLink p s v) q :=
  ⟨rfl, funext fun _ => setLink_link.trans (if_neg fun hc => h hc.1), rfl⟩

theorem same_replaceChild (h : par ≠ some q) : Same m (m.replaceChild par x v) q :=
  ⟨congrFun replaceChild_parent q, funext fun _ => replaceChild_link.trans (if_neg fun hc => h hc.1),
    congrFun replaceChild_balance q⟩

theorem same_setBalance (h : q ≠ p) : Same m (m.setBalance p b) q := ⟨rfl, rfl, setBalance_balance.trans (if_neg h)⟩

end same

/-- The subtree gets another parent. -/
theorem Holds.setParentOf (h : Holds m par t) (hnodup : t.toList.Nodup) : Holds (m.setParentOf t.root v) v t := by
  cases t with
  | nil => trivial
  | node p b c =>
    obtain ⟨-, hbalance, hchild⟩ := h
    refine ⟨?_, ?_, fun s => ⟨?_, ?_⟩⟩
    · rw [setParentOf_parent]
      exact if_pos rfl
    · rw [setParentOf_balance]
      exact hbalance
    · rw [setParentOf_link]
      exact (hchild s).1
    · refine (hchild s).2.congr fun q hq => ⟨?_, by rw [setParentOf_link], by rw [setParentOf_balance]⟩
      rw [setParentOf_parent]
      refine if_neg fun heq => ?_
      cases heq
      unfold toList at hnodup
      rw [List.nodup_append, List.nodup_cons] at hnodup
      obtain ⟨-, ⟨hright, -⟩, hleft⟩ := hnodup
      cases s with
      | false => exact hleft p hq p (List.mem_cons_self ..) rfl
      | true => exact hright hq

/-- The side of a child. -/
theorem side_eq {sibling : AvlTree P} (hlink : m.link p s = some x) (hother : m.link p (!s) = sibling.root)
    (hx : x ∉ sibling.toList) : decide (m.link p true = some x) = s := by
  cases s with
  | true => exact decide_eq_true hlink
  | false => exact decide_eq_false fun heq => hx (mem_of_root (hother.symm.trans heq))

theorem Focus.side (h : Focus m (f :: ctx) t) (hx : t.root = some x) : decide (m.link f.p true = some x) = f.side := by
  obtain ⟨-, -, hlink, hother, -⟩ := h.around
  refine side_eq (hlink.trans hx) hother fun hmem => ?_
  exact h.disjoint (mem_of_root hx) (mem_around.mpr (.inr (.inl hmem)))

/-- Another node comes into the hole. -/
theorem HoldsAround.setLink (h : HoldsAround m hole (f :: ctx)) (hnodup : (leftOf (f :: ctx) ++ rightOf (f :: ctx)).Nodup)
    (v : Option P) : HoldsAround (m.setLink f.p f.side v) v (f :: ctx) := by
  obtain ⟨hparent, hbalance, -, hother, hsibling, hctx⟩ := h
  have hdistinct : f.p ∉ f.sibling.toList ∧ f.p ∉ leftOf ctx ++ rightOf ctx := by
    rw [leftOf_cons, rightOf_cons] at hnodup
    cases hs : f.side <;> rw [hs] at hnodup <;> simp only [if_true, Bool.false_eq_true, if_false] at hnodup <;> grind
  refine ⟨hparent, hbalance, ?_, ?_, ?_, ?_⟩
  · rw [setLink_link]
    exact if_pos ⟨rfl, rfl⟩
  · rw [setLink_link, if_neg (fun hc => Bool.not_ne_self _ hc.2)]
    exact hother
  · exact hsibling.congr fun q hq => same_setLink fun heq => hdistinct.1 (heq ▸ hq)
  · exact hctx.congr (fun q hq => same_setLink fun heq => hdistinct.2 (heq ▸ hq)) rfl

theorem HoldsAround.replaceChild (h : HoldsAround m (some x) ctx) (hx : x ∉ leftOf ctx ++ rightOf ctx)
    (hnodup : (leftOf ctx ++ rightOf ctx).Nodup) : HoldsAround (m.replaceChild (parentOf ctx) x v) v ctx := by
  cases ctx with
  | nil => rfl
  | cons f ctx =>
    have ⟨_, _, hlink, hother, _, _⟩ := h
    have hside := side_eq hlink hother fun hmem => hx (mem_around.mpr (.inr (.inl hmem)))
    show HoldsAround (m.setLink f.p (decide (m.link f.p true = some x)) v) v (f :: ctx)
    rw [hside]
    exact h.setLink hnodup v

/-- The balance of the node in focus changes. -/
theorem Focus.setBalance (h : Focus m ctx (.node p b c)) (b' : Int) : Focus (m.setBalance p b') ctx (.node p b' c) := by
  have hsame : ∀ q, q ≠ p → Same m (m.setBalance p b') q := fun q hq => same_setBalance hq
  obtain ⟨hparent, -, hchild⟩ := h.holds
  refine ⟨⟨hparent, ?_, fun s => ⟨(hchild s).1, ?_⟩⟩, h.around.congr (fun q hq => hsame q ?_) rfl, h.nodup⟩
  · rw [setBalance_balance]
    exact if_pos rfl
  · exact (hchild s).2.congr fun q hq => hsame q fun heq => h.node_disjoint.1 s (heq ▸ hq)
  · rintro rfl
    exact h.disjoint (mem_toList_node.mpr (.inl rfl)) hq

end TreeMemory

end TwilightLine
