import TwilightLine.Structure.AvlLinks
import Mathlib.Tactic.Ring

/-! Rebalancing.

A subtree of an AVL tree changed its height by one. On the way up each node gets its balance
and, where the difference is two, is transformed (`transform_spec`); what comes out is an AVL
tree of the height that the rest expects but for the change that is passed on, and the order
of the nodes stays (`rebalance_spec`). -/
namespace TwilightLine.Avl

open AvlTree TreeMemory

variable {P : Type*} [DecidableEq P]

/-- The sign of a balance towards a side. -/
def sgn (side : Bool) : Int := if side then 1 else -1

theorem optneg_eq (a : Int) (side : Bool) : optneg a side = -sgn side * a := by
  cases side <;> simp [optneg, sgn]

theorem sgn_not (side : Bool) : sgn (!side) = -sgn side := by cases side <;> rfl

theorem mul_sgn_range {a : Int} (hlow : -1 ≤ a) (hhigh : a ≤ 1) (side : Bool) : -1 ≤ a * sgn side ∧ a * sgn side ≤ 1 := by
  cases side <;> simp only [sgn, if_true, Bool.false_eq_true, if_false] <;> omega

theorem sgn_mul_sgn (side : Bool) : sgn side * sgn side = 1 := by cases side <;> rfl

section trees
variable {p : P} {b : Int} {side : Bool} {x y : AvlTree P}

omit [DecidableEq P]

/-- An AVL tree, seen from a side. -/
theorem avl_node_iff : (AvlTree.node p b (pick side x y)).Avl ↔
    x.Avl ∧ y.Avl ∧ b = sgn side * (x.height - y.height) ∧ -1 ≤ b ∧ b ≤ 1 := by
  have hsides : b = (pick side x y true).height - (pick side x y false).height ↔ b = sgn side * (x.height - y.height) := by
    cases side
    · simp [pick, sgn]
    · simp [pick, sgn]
  rw [AvlTree.Avl, hsides, forall_pick, and_assoc]

theorem avl_node_side {c : Bool → AvlTree P} (h : (AvlTree.node p b c).Avl) (side : Bool) :
    (c side).Avl ∧ (c (!side)).Avl ∧ b * sgn side = (c side).height - (c (!side)).height ∧ -1 ≤ b ∧ b ≤ 1 := by
  rw [← pick_eta side c, avl_node_iff] at h
  obtain ⟨hx, hy, hb, hlow, hhigh⟩ := h
  refine ⟨hx, hy, ?_, hlow, hhigh⟩
  rw [hb, mul_right_comm, sgn_mul_sgn, one_mul]

/-- The order of the nodes after one rotation. -/
theorem toList_heavy {n child : P} {bH x y : Int} {cH : Bool → AvlTree P} {L : AvlTree P} :
    (AvlTree.node child y (pick (!side) (.node n x (pick (!side) L (cH (!side)))) (cH side))).toList =
      (AvlTree.node n b (pick side (.node child bH cH) L)).toList := by
  cases side <;> simp [toList, pick]

/-- The order of the nodes after two rotations. -/
theorem toList_heavy_inner {n child g : P} {bH bG x y z : Int} {cH cG : Bool → AvlTree P} {L : AvlTree P}
    (hcH : cH (!side) = .node g bG cG) :
    (AvlTree.node g z (pick (!side) (.node n x (pick (!side) L (cG (!side))))
      (.node child y (pick side (cH side) (cG side))))).toList =
      (AvlTree.node n b (pick side (.node child bH cH) L)).toList := by
  cases side with
  | false =>
    rw [Bool.not_false] at hcH
    simp [toList, pick, hcH]
  | true =>
    rw [Bool.not_true] at hcH
    simp [toList, pick, hcH]

section heavy
variable {n child : P} {bH : Int} {cH : Bool → AvlTree P} {L : AvlTree P}

/-- The heavy child leans to its own side: one rotation makes both balances zero. -/
theorem avl_outer (hL : L.Avl) (hH : (AvlTree.node child bH cH).Avl) (hheight : (AvlTree.node child bH cH).height = L.height + 2)
    (hbeta : bH * sgn side = 1) :
    (AvlTree.node child 0 (pick (!side) (.node n 0 (pick (!side) L (cH (!side)))) (cH side))).Avl ∧
      (AvlTree.node child 0 (pick (!side) (.node n 0 (pick (!side) L (cH (!side)))) (cH side))).height = L.height + 2 := by
  obtain ⟨hx, hy, hdiff, -⟩ := avl_node_side hH side
  have hmax := (height_node child bH cH side).symm.trans hheight
  have hinner : (AvlTree.node n 0 (pick (!side) L (cH (!side)))).height = L.height + 1 := by
    rw [height_pick]
    omega
  constructor
  · refine avl_node_iff.mpr ⟨avl_node_iff.mpr ⟨hL, hy, ?_, by decide, by decide⟩, hx, ?_, by decide, by decide⟩
    · rw [show L.height - (cH (!side)).height = 0 by omega, mul_zero]
    · rw [hinner, show L.height + 1 - (cH side).height = 0 by omega, mul_zero]
  · rw [height_pick, hinner]
    omega

/-- It leans to neither side: one rotation, and the height stays. -/
theorem avl_even (hL : L.Avl) (hH : (AvlTree.node child bH cH).Avl) (hheight : (AvlTree.node child bH cH).height = L.height + 2)
    (hbeta : bH * sgn side = 0) :
    (AvlTree.node child (-1 * sgn side) (pick (!side) (.node n (1 * sgn side) (pick (!side) L (cH (!side)))) (cH side))).Avl ∧
      (AvlTree.node child (-1 * sgn side) (pick (!side) (.node n (1 * sgn side) (pick (!side) L (cH (!side)))) (cH side))).height =
        L.height + 3 := by
  obtain ⟨hx, hy, hdiff, -⟩ := avl_node_side hH side
  have hmax := (height_node child bH cH side).symm.trans hheight
  have hinner : (AvlTree.node n (1 * sgn side) (pick (!side) L (cH (!side)))).height = L.height + 2 := by
    rw [height_pick]
    omega
  constructor
  · refine avl_node_iff.mpr ⟨avl_node_iff.mpr ⟨hL, hy, ?_, mul_sgn_range (by decide) (by decide) side⟩, hx, ?_,
      mul_sgn_range (by decide) (by decide) side⟩
    · rw [show L.height - (cH (!side)).height = -1 by omega, sgn_not]
      ring
    · rw [hinner, show L.height + 2 - (cH side).height = 1 by omega, sgn_not]
      ring
  · rw [height_pick, hinner]
    omega

/-- It leans to the other side, so its child there comes up. -/
theorem avl_inner {g : P} {bG : Int} {cG : Bool → AvlTree P} (hL : L.Avl) (hH : (AvlTree.node child bH cH).Avl)
    (hheight : (AvlTree.node child bH cH).height = L.height + 2) (hbeta : bH * sgn side = -1)
    (hcH : cH (!side) = .node g bG cG) :
    (AvlTree.node g 0 (pick (!side) (.node n (-max 0 (bG * sgn side) * sgn side) (pick (!side) L (cG (!side))))
        (.node child (max 0 (-bG * sgn side) * sgn side) (pick side (cH side) (cG side))))).Avl ∧
      (AvlTree.node g 0 (pick (!side) (.node n (-max 0 (bG * sgn side) * sgn side) (pick (!side) L (cG (!side))))
        (.node child (max 0 (-bG * sgn side) * sgn side) (pick side (cH side) (cG side))))).height = L.height + 2 := by
  obtain ⟨hx, hy, hdiff, -⟩ := avl_node_side hH side
  have hmax := (height_node child bH cH side).symm.trans hheight
  rw [hcH] at hy hdiff hmax
  obtain ⟨hx', hy', hgamma, hlow, hhigh⟩ := avl_node_side hy side
  have hrange := mul_sgn_range hlow hhigh side
  rw [height_node g bG cG side] at hdiff hmax
  have hnode : (AvlTree.node n (-max 0 (bG * sgn side) * sgn side) (pick (!side) L (cG (!side)))).height = L.height + 1 := by
    rw [height_pick]
    omega
  have hchild : (AvlTree.node child (max 0 (-bG * sgn side) * sgn side) (pick side (cH side) (cG side))).height =
      L.height + 1 := by
    rw [height_pick]
    omega
  constructor
  · refine avl_node_iff.mpr ⟨avl_node_iff.mpr ⟨hL, hy', ?_, mul_sgn_range (by omega) (by omega) side⟩,
      avl_node_iff.mpr ⟨hx, hx', ?_, mul_sgn_range (by rw [neg_mul]; omega) (by rw [neg_mul]; omega) side⟩, ?_, by decide,
      by decide⟩
    · rw [show L.height - (cG (!side)).height = max 0 (bG * sgn side) by omega, sgn_not]
      ring
    · rw [show (cH side).height - (cG side).height = max 0 (-bG * sgn side) by rw [neg_mul]; omega]
      ring
    · rw [hnode, hchild, sub_self, mul_zero]
  · rw [height_pick, hnode, hchild]
    omega

end heavy

end trees

variable {R : AvlRoutines P} {m m' : TreeMemory P} {ctx : List (Frame P)} {n : P} {b delta : Int} {side : Bool} {H L t : AvlTree P}

/-- The balance of a child changes. -/
theorem focus_setBalance_child {p q : P} {b' : Int} {c' : Bool → AvlTree P} {y : AvlTree P}
    (h : Focus m ctx (.node p b (pick side (.node q b' c') y))) (x : Int) :
    Focus (m.setBalance q x) ctx (.node p b (pick side (.node q x c') y)) := by
  have hchild : Focus m (⟨side, p, b, y⟩ :: ctx) (.node q b' c') := focus_cons.mpr h
  exact focus_cons.mp (hchild.setBalance x)

/-- What a transformation leaves: an AVL tree with the same nodes, of a height that changed as it says. -/
structure Transformed (ctx : List (Frame P)) (t : AvlTree P) (delta : Int) (r : TreeMemory P × P × Int) (t' : AvlTree P) : Prop where
  focus : Focus r.1 ctx t'
  root : t'.root = some r.2.1
  avl : t'.Avl
  height : t'.height - r.2.2 = t.height - delta
  range : delta - 1 ≤ r.2.2 ∧ r.2.2 ≤ delta
  toList : t'.toList = t.toList

/-- A rotation away from the side that is heavy. -/
theorem rotate_away (hR : R.Correct) {child : P} {bH : Int} {cH : Bool → AvlTree P}
    (h : Focus m ctx (.node n b (pick side (.node child bH cH) L))) :
    ∃ m', R.rotate m n (!side) (m.parent n) = some m' ∧
      Focus m' ctx (.node child bH (pick (!side) (.node n b (pick (!side) L (cH (!side)))) (cH side))) := by
  obtain ⟨m', hrotate, hfocus⟩ := hR.rotate h (show pick side (.node child bH cH) L (!(!side)) = .node child bH cH by
    rw [Bool.not_not, pick_same])
  rw [pick_not, Bool.not_not] at hfocus
  refine ⟨m', ?_, hfocus⟩
  rw [h.holds.1]
  exact hrotate

/-- The rotation of the child first. -/
theorem rotate_twice (hR : R.Correct) {child g : P} {bH bG : Int} {cH cG : Bool → AvlTree P}
    (h : Focus m ctx (.node n b (pick side (.node child bH cH) L))) (hcH : cH (!side) = .node g bG cG) :
    ∃ m₁ m₂, R.rotate m child side (some n) = some m₁ ∧ R.rotate m₁ n (!side) (m₁.parent n) = some m₂ ∧
      Focus m₂ ctx (.node g bG (pick (!side) (.node n b (pick (!side) L (cG (!side))))
        (.node child bH (pick side (cH side) (cG side))))) := by
  have hchild : Focus m (⟨side, n, b, L⟩ :: ctx) (.node child bH cH) := focus_cons.mpr h
  obtain ⟨m₁, hfirst, hfocus₁⟩ := hR.rotate hchild hcH
  obtain ⟨m₂, hsecond, hfocus₂⟩ := rotate_away hR (focus_cons.mp hfocus₁)
  rw [pick_same, pick_not] at hfocus₂
  exact ⟨m₁, m₂, hfirst, hsecond, hfocus₂⟩

theorem transform_heavy (hR : R.Correct) (h : Focus m ctx (.node n (2 * sgn side) (pick side H L))) (hH : H.Avl) (hL : L.Avl)
    (hheight : H.height = L.height + 2) (delta : Int) :
    ∃ r t', transform R m n delta = some r ∧ Transformed ctx (.node n (2 * sgn side) (pick side H L)) delta r t' := by
  have hb : m.balance n = 2 * sgn side := h.holds.2.1
  have htest : m.balance n = 2 ∨ m.balance n = -2 := by
    rw [hb]
    cases side
    · exact .inr rfl
    · exact .inl rfl
  have hbside : decide (m.balance n = 2) = side := by
    rw [hb]
    cases side <;> rfl
  have hbsidef : (if m.balance n = 2 then 1 else -1) = sgn side := by
    rw [hb]
    cases side <;> rfl
  have hnonneg := height_nonneg L
  cases H with
  | nil =>
    have hzero : (0 : Int) = L.height + 2 := hheight
    omega
  | node child bH cH =>
    obtain ⟨-, -, hholds⟩ := h.holds
    obtain ⟨hlink, hholds⟩ := hholds side
    rw [pick_same] at hlink hholds
    have hbalance : m.balance child = bH := hholds.2.1
    obtain ⟨-, -, hdiff, hlow, hhigh⟩ := avl_node_side hH side
    have hold : (AvlTree.node n (2 * sgn side) (pick side (.node child bH cH) L)).height = L.height + 3 := by
      rw [height_pick, hheight]
      omega
    unfold transform
    rw [if_pos htest]
    dsimp only
    rw [hbside, hbsidef, hlink]
    dsimp only [AvlTree.root]
    rw [hbalance]
    by_cases hone : bH * sgn side = 1
    · obtain ⟨m', hrotate, hfocus⟩ := rotate_away hR h
      obtain ⟨havl, hnew⟩ := avl_outer (n := n) hL hH hheight hone
      rw [if_pos hone, hrotate]
      refine ⟨_, _, rfl, (focus_setBalance_child hfocus 0).setBalance 0, rfl, havl, ?_, ⟨le_refl _, Int.sub_le_self _ (by decide)⟩,
        toList_heavy⟩
      rw [hold, hnew]
      dsimp only
      omega
    by_cases hzero : bH * sgn side = 0
    · obtain ⟨m', hrotate, hfocus⟩ := rotate_away hR h
      obtain ⟨havl, hnew⟩ := avl_even (n := n) hL hH hheight hzero
      rw [if_neg hone, if_pos hzero, hrotate]
      refine ⟨_, _, rfl, (focus_setBalance_child hfocus _).setBalance _, rfl, havl, ?_, ⟨Int.sub_le_self _ (by decide), le_refl _⟩,
        toList_heavy⟩
      rw [hold, hnew]
    have hminus : bH * sgn side = -1 := by
      have := mul_sgn_range hlow hhigh side
      omega
    cases hcH : cH (!side) with
    | nil =>
      rw [hcH] at hdiff
      have := height_nonneg (cH side)
      simp only [height] at hdiff
      omega
    | node g bG cG =>
      obtain ⟨m₁, m₂, hfirst, hsecond, hfocus⟩ := rotate_twice hR h hcH
      obtain ⟨havl, hnew⟩ := avl_inner (n := n) hL hH hheight hminus hcH
      have hlink' : m.link child (!side) = some g := by
        rw [(hholds.2.2 (!side)).1, hcH]
        rfl
      have hfocus₁ := focus_setBalance_child hfocus (-max 0 (bG * sgn side) * sgn side)
      rw [pick_swap] at hfocus₁
      have hfocus₂ := focus_setBalance_child hfocus₁ (max 0 (-bG * sgn side) * sgn side)
      rw [← pick_swap] at hfocus₂
      rw [if_neg hone, if_neg hzero, if_pos hminus, hlink']
      dsimp only
      rw [hfirst, Option.bind_some, hsecond, Option.map_some, hfocus.holds.2.1, hfocus₁.holds.2.1]
      refine ⟨_, _, rfl, hfocus₂.setBalance 0, rfl, havl, ?_, ⟨le_refl _, Int.sub_le_self _ (by decide)⟩, toList_heavy_inner hcH⟩
      rw [hold, hnew]
      dsimp only
      omega

theorem transform_spec (hR : R.Correct) {x y : AvlTree P} (h : Focus m ctx (.node n b (pick side x y))) (hx : x.Avl) (hy : y.Avl)
    (hb : b = sgn side * (x.height - y.height)) (hlow : -2 ≤ b) (hhigh : b ≤ 2) (delta : Int) :
    ∃ r t', transform R m n delta = some r ∧ Transformed ctx (.node n b (pick side x y)) delta r t' ∧
      (b ≠ 2 → b ≠ -2 → r.2.2 = delta) := by
  by_cases hheavy : x.height = y.height + 2
  · obtain rfl : b = 2 * sgn side := by rw [hb, hheavy]; ring
    obtain ⟨r, t', htransform, hr⟩ := transform_heavy hR h hx hy hheavy delta
    refine ⟨r, t', htransform, hr, fun h2 h2' => ?_⟩
    cases side
    · exact absurd rfl h2'
    · exact absurd rfl h2
  by_cases hlight : y.height = x.height + 2
  · obtain rfl : b = 2 * sgn (!side) := by rw [hb, hlight, sgn_not]; ring
    rw [← pick_swap] at h ⊢
    obtain ⟨r, t', htransform, hr⟩ := transform_heavy hR h hy hx hlight delta
    refine ⟨r, t', htransform, hr, fun h2 h2' => ?_⟩
    cases side
    · exact absurd rfl h2
    · exact absurd rfl h2'
  have hb' : b * sgn side = x.height - y.height := by
    rw [hb, mul_right_comm, sgn_mul_sgn, one_mul]
  have hsmall : b ≠ 2 ∧ b ≠ -2 := by
    cases side <;> simp only [sgn, if_true, Bool.false_eq_true, if_false] at hb' <;> omega
  refine ⟨(m, n, delta), _, ?_, ⟨h, rfl, ?_, rfl, ⟨?_, le_refl _⟩, rfl⟩, fun _ _ => rfl⟩
  · unfold transform
    rw [h.holds.2.1]
    exact if_neg fun hc => hc.elim hsmall.1 hsmall.2
  · exact avl_node_iff.mpr ⟨hx, hy, hb, by omega, by omega⟩
  · exact Int.sub_le_self _ (by decide)

/-- One node on the way up. -/
theorem rebalance_step (hR : R.Correct) {f : Frame P} {deltac : Int} (h : Focus m (f :: ctx) t) (ht : t.Avl)
    (haround : AvlAround (t.height - deltac) (f :: ctx)) (hlow : -1 ≤ deltac) (hhigh : deltac ≤ 1) (hzero : deltac ≠ 0) :
    ∃ (r : TreeMemory P × P × Int) (t' : AvlTree P), Focus r.1 ctx t' ∧ t'.root = some r.2.1 ∧ t'.Avl ∧ -1 ≤ r.2.2 ∧ r.2.2 ≤ 1 ∧ AvlAround (t'.height - r.2.2) ctx ∧
      t'.toList = (f.fill t).toList ∧ ∀ fuel, rebalance R (fuel + 1) m f.p f.side deltac =
        match r.1.parent r.2.1 with
        | none => some r.1
        | some parent => rebalance R fuel r.1 parent (decide (r.1.link parent true = some r.2.1)) r.2.2 := by
  obtain ⟨hsibling, hbalance, hblow, hbhigh, hctx⟩ := haround
  have hfocus : Focus m ctx (.node f.p f.balance (pick f.side t f.sibling)) := focus_cons.mp h
  have hopt : optneg f.balance f.side = f.sibling.height - (t.height - deltac) := by
    rw [hbalance]
    cases f.side <;> simp [optneg]
  have hdiff : -1 ≤ optneg f.balance f.side ∧ optneg f.balance f.side ≤ 1 := by
    unfold optneg
    split <;> omega
  let delta := max deltac (optneg f.balance f.side) - max 0 (optneg f.balance f.side)
  have hdelta : delta = max t.height f.sibling.height - max (t.height - deltac) f.sibling.height := by
    show max deltac (optneg f.balance f.side) - max 0 (optneg f.balance f.side) = _
    rw [hopt]
    omega
  -- the balance is the difference of the heights again
  have hnew : f.balance - optneg deltac f.side = sgn f.side * (t.height - f.sibling.height) := by
    rw [optneg_eq, hbalance]
    cases f.side <;> simp only [sgn, if_true, Bool.false_eq_true, if_false] <;> ring
  have hset := hfocus.setBalance (f.balance - optneg deltac f.side)
  have hsmall := mul_sgn_range hdiff.1 hdiff.2 f.side
  obtain ⟨r, t', htransform, hr, hsame⟩ := transform_spec hR hset ht hsibling hnew (by unfold optneg; split <;> omega)
    (by unfold optneg; split <;> omega) delta
  have hheight := hr.height
  rw [height_pick] at hheight
  have hrange : -1 ≤ r.2.2 ∧ r.2.2 ≤ 1 := by
    obtain ⟨hrlow, hrhigh⟩ := hr.range
    have habs : f.balance - optneg deltac f.side = t.height - f.sibling.height ∨
        f.balance - optneg deltac f.side = -(t.height - f.sibling.height) := by
      rw [hnew]
      cases f.side
      · exact .inr (neg_one_mul _)
      · exact .inl (one_mul _)
    -- where there is a transformation the height did not shrink before it
    by_cases htwo : f.balance - optneg deltac f.side = 2 ∨ f.balance - optneg deltac f.side = -2
    · omega
    · have := hsame (fun hc => htwo (.inl hc)) (fun hc => htwo (.inr hc))
      omega
  refine ⟨r, t', hr.focus, hr.root, hr.avl, hrange.1, hrange.2, ?_, hr.toList, fun fuel => ?_⟩
  · rw [show t'.height - r.2.2 = max (t.height - deltac) f.sibling.height + 1 by omega]
    exact hctx
  · rw [rebalance, hfocus.holds.2.1, if_pos ⟨hlow, hhigh, hblow, hbhigh⟩, if_neg hzero]
    dsimp only
    rw [if_pos (by omega), htransform, Option.bind_some]
    exact if_pos hrange

/-- Nothing is to be done where the height did not change. -/
theorem rebalance_zero {f : Frame P} (h : Focus m (f :: ctx) t) (ht : t.Avl) (haround : AvlAround t.height (f :: ctx))
    (fuel : Nat) : rebalance R (fuel + 1) m f.p f.side 0 = some m ∧ Stores m (plug (f :: ctx) t) ∧ (plug (f :: ctx) t).Avl := by
  have ⟨_, _, hlow, hhigh, _⟩ := haround
  refine ⟨?_, focus_iff_stores.mp h, AvlAround.plug haround ht⟩
  rw [rebalance, h.around.2.1, if_pos ⟨by decide, by decide, hlow, hhigh⟩]
  exact if_pos rfl

/-- **Rebalancing makes an AVL tree of the same nodes, in the same order.** -/
theorem rebalance_spec (hR : R.Correct) {fuel : Nat} {f : Frame P} {deltac : Int} (h : Focus m (f :: ctx) t) (ht : t.Avl)
    (haround : AvlAround (t.height - deltac) (f :: ctx)) (hlow : -1 ≤ deltac) (hhigh : deltac ≤ 1) (hfuel : ctx.length < fuel) :
    ∃ m' t', rebalance R fuel m f.p f.side deltac = some m' ∧ Stores m' t' ∧ t'.Avl ∧
      t'.toList = (plug (f :: ctx) t).toList := by
  induction fuel generalizing m ctx f t deltac with
  | zero => cases hfuel
  | succ fuel ih =>
    by_cases hzero : deltac = 0
    · subst hzero
      rw [sub_zero] at haround
      obtain ⟨hrun, hstores, havl⟩ := rebalance_zero h ht haround fuel
      exact ⟨m, _, hrun, hstores, havl, rfl⟩
    obtain ⟨r, t', hfocus, hroot, havl, hrlow, hrhigh, haround', hlist, hrun⟩ := rebalance_step hR h ht haround hlow hhigh hzero
    obtain ⟨b', c', rfl⟩ := root_eq_some hroot
    rw [hrun fuel, hfocus.holds.1]
    cases ctx with
    | nil => exact ⟨r.1, _, rfl, hfocus, havl, hlist⟩
    | cons g ctx =>
      dsimp only [parentOf]
      rw [hfocus.side hroot]
      obtain ⟨m', t', hrest, hstores, havl', hlist'⟩ := ih hfocus havl haround' hrlow hrhigh (Nat.lt_of_succ_lt_succ hfuel)
      refine ⟨m', t', hrest, hstores, havl', hlist'.trans ?_⟩
      rw [plug_toList, hlist, ← plug_toList]
      rfl

end TwilightLine.Avl
