import TwilightLine.Structure.AvlRebalance

/-! The operations on trees in memory.

A search goes by a comparison with each node (`Probe`): what is to the left of the node that it
ends at is smaller, and what is to the right is greater (`search_spec`). So a node is inserted
where it belongs (`insert_spec`), and the node that is removed leaves the others in their
order (`remove_spec`), which is the order that `GetFirst` and `GetNext` go through. -/
namespace TwilightLine.Avl

open AvlTree TreeMemory

variable {P : Type*}

/-- The comparisons with nodes in their order: those that it is greater than come first. -/
abbrev Probe (comp : P → Int) (l : List P) : Prop :=
  l.Pairwise fun a b => (comp a ≤ 0 → comp b < 0) ∧ (0 ≤ comp b → 0 < comp a)

/-- A search ended at the hole of the way up. -/
structure Missed (comp : P → Int) (ctx : List (Frame P)) : Prop where
  left : ∀ x ∈ leftOf ctx, 0 < comp x
  right : ∀ x ∈ rightOf ctx, comp x < 0

section searches
variable {m : TreeMemory P} {par : Option P} {ctx : List (Frame P)} {t : AvlTree P} {p : P} {b : Int} {c : Bool → AvlTree P}
  {comp : P → Int} {compare : P → Option Int} {fuel : Nat}

theorem height_child_lt (s : Bool) (hfuel : (AvlTree.node p b c).height ≤ (fuel + 1 : Nat)) : (c s).height ≤ fuel := by
  rw [height_node p b c s] at hfuel
  omega

/-- Every part of the nodes of a tree is compared in order. -/
theorem Probe.child (h : Probe comp (AvlTree.node p b c).toList) (s : Bool) : Probe comp (c s).toList := by
  cases s with
  | false => exact h.sublist (List.sublist_append_left ..)
  | true => exact (h.sublist (List.sublist_append_right ..)).sublist (List.sublist_cons_self ..)

/-- A search goes down to the side where an equal node would be. -/
theorem missed_frame (h : Probe comp (AvlTree.node p b c).toList) (hcomp : comp p = -1 ∨ comp p = 1) :
    Missed comp [⟨decide (comp p = 1), p, b, c (!decide (comp p = 1))⟩] := by
  obtain ⟨-, hright, hleft⟩ := List.pairwise_append.mp h
  obtain ⟨hright, -⟩ := List.pairwise_cons.mp hright
  rcases hcomp with hcomp | hcomp
  · refine ⟨?_, ?_⟩ <;> intro x hx <;> simp only [hcomp, leftOf, rightOf, Int.reduceNeg, Int.reduceEq, decide_false, Bool.not_false,
      Bool.false_eq_true, if_false, List.append_nil, List.not_mem_nil, List.mem_cons] at hx
    rcases hx with rfl | hx
    · omega
    · exact (hright x hx).1 (by omega)
  · refine ⟨?_, ?_⟩ <;> intro x hx <;> simp only [hcomp, leftOf, rightOf, decide_true, Bool.not_true, if_true, List.nil_append,
      List.not_mem_nil, List.mem_append, List.mem_singleton] at hx
    rcases hx with hx | rfl
    · exact (hleft x hx p (List.mem_cons_self ..)).2 (by omega)
    · omega

theorem Missed.append {inner outer : List (Frame P)} (hinner : Missed comp inner) (houter : Missed comp outer) :
    Missed comp (inner ++ outer) := by
  constructor
  · intro x hx
    rw [leftOf_append] at hx
    exact (List.mem_append.mp hx).elim (houter.left x) (hinner.left x)
  · intro x hx
    rw [rightOf_append] at hx
    exact (List.mem_append.mp hx).elim (hinner.right x) (houter.right x)

/-- **A search finds an equal node, or the place where it would be.** -/
theorem search_spec (h : Holds m par t) (hroot : t.root = some p) (hprobe : Probe comp t.toList)
    (hcompare : ∀ q ∈ t.toList, compare q = some (comp q) ∧ (comp q = -1 ∨ comp q = 0 ∨ comp q = 1)) (hfuel : t.height ≤ fuel) :
    (∃ q ∈ t.toList, comp q = 0 ∧ search m compare fuel p = some (q, none)) ∨
      ∃ f ctx, t = plug (f :: ctx) .nil ∧ Missed comp (f :: ctx) ∧ search m compare fuel p = some (f.p, some f.side) := by
  induction t generalizing fuel par p with
  | nil => cases hroot
  | node r b c ih =>
    obtain rfl : r = p := Option.some.inj hroot
    obtain ⟨fuel, rfl⟩ : ∃ k, fuel = k + 1 := by
      have := height_pos_iff.mpr (show (AvlTree.node r b c).root ≠ none from nofun)
      exact ⟨fuel - 1, by omega⟩
    obtain ⟨hcomp, hvalue⟩ := hcompare r (mem_toList_node.mpr (.inl rfl))
    rw [search, hcomp, Option.bind_some]
    by_cases hzero : comp r = 0
    · rw [if_pos hzero]
      exact .inl ⟨r, mem_toList_node.mpr (.inl rfl), hzero, rfl⟩
    · rw [if_neg hzero]
      dsimp only
      have hframe := missed_frame hprobe (by omega)
      generalize decide (comp r = 1) = side at hframe
      obtain ⟨hlink, hholds⟩ := h.2.2 side
      rw [hlink]
      cases hchild : (c side).root with
      | none =>
        refine .inr ⟨⟨side, r, b, c (!side)⟩, [], ?_, hframe, rfl⟩
        rw [plug, plug, Frame.fill, ← root_eq_none hchild, pick_eta]
      | some q =>
        have hsub : ∀ x ∈ (c side).toList, x ∈ (AvlTree.node r b c).toList := fun x hx => mem_toList_node.mpr (.inr ⟨side, hx⟩)
        rcases ih side hholds hchild (hprobe.child side) (fun x hx => hcompare x (hsub x hx)) (height_child_lt side hfuel) with
          ⟨x, hx, hequal, hsearch⟩ | ⟨f, ctx, heq, hmissed, hsearch⟩
        · exact .inl ⟨x, hsub x hx, hequal, hsearch⟩
        · refine .inr ⟨f, ctx ++ [⟨side, r, b, c (!side)⟩], ?_, ?_, hsearch⟩
          · rw [← List.cons_append, plug_append, ← heq, plug, plug, Frame.fill, pick_eta]
          · exact hmissed.append hframe

/-- The last node on one side. -/
theorem subtreeEnd_spec (h : Holds m par t) (hroot : t.root = some p) (side : Bool) (hfuel : t.height ≤ fuel) :
    ∃ q b' c' ctx, t = plug ctx (.node q b' c') ∧ c' side = .nil ∧ (if side then rightOf ctx else leftOf ctx) = [] ∧
      subtreeEnd m side fuel p = some q := by
  induction t generalizing fuel par p with
  | nil => cases hroot
  | node r b c ih =>
    obtain rfl : r = p := Option.some.inj hroot
    obtain ⟨fuel, rfl⟩ : ∃ k, fuel = k + 1 := by
      have := height_pos_iff.mpr (show (AvlTree.node r b c).root ≠ none from nofun)
      exact ⟨fuel - 1, by omega⟩
    obtain ⟨hlink, hholds⟩ := h.2.2 side
    rw [subtreeEnd, hlink]
    cases hchild : (c side).root with
    | none => exact ⟨r, b, c, [], rfl, root_eq_none hchild, by cases side <;> rfl, rfl⟩
    | some q =>
      obtain ⟨q', b', c', ctx, heq, hnil, hside, hrun⟩ := ih side hholds hchild (height_child_lt side hfuel)
      refine ⟨q', b', c', ctx ++ [⟨side, r, b, c (!side)⟩], ?_, hnil, ?_, hrun⟩
      · rw [plug_append, ← heq, plug, plug, Frame.fill, pick_eta]
      · rw [rightOf_append, leftOf_append]
        cases side <;> simpa [leftOf, rightOf] using hside

/-- **A lookup finds an equal node, if there is one.** -/
theorem lookupExact_spec (h : Stores m t) (hprobe : Probe comp t.toList)
    (hcompare : ∀ q ∈ t.toList, compare q = some (comp q) ∧ (comp q = -1 ∨ comp q = 0 ∨ comp q = 1))
    (hfuel : t.toList.length ≤ fuel) :
    (∃ q ∈ t.toList, comp q = 0 ∧ lookupExact m compare fuel = some (some q)) ∨
      (∀ q ∈ t.toList, comp q ≠ 0) ∧ lookupExact m compare fuel = some none := by
  unfold lookupExact
  cases hroot : m.root with
  | none =>
    obtain rfl := root_eq_none (h.around.symm.trans hroot)
    exact .inr ⟨nofun, rfl⟩
  | some root =>
    have hheight : t.height ≤ fuel := le_trans (height_le_length t) (by exact_mod_cast hfuel)
    dsimp only
    rcases search_spec h.holds (h.around.symm.trans hroot) hprobe hcompare hheight with
      ⟨q, hq, hequal, hsearch⟩ | ⟨f, ctx, rfl, hmissed, hsearch⟩
    · exact .inl ⟨q, hq, hequal, by rw [hsearch]; rfl⟩
    · refine .inr ⟨fun q hq => ?_, by rw [hsearch]; rfl⟩
      rw [plug_toList, toList, List.append_nil] at hq
      rcases List.mem_append.mp hq with hl | hr
      · have := hmissed.left q hl
        omega
      · have := hmissed.right q hr
        omega

/-! ### The first and the next node -/

/-- The node at the left end is the first one. -/
theorem subtreeEnd_first (h : Holds m par t) (hroot : t.root = some p) (hfuel : t.height ≤ fuel) :
    (subtreeEnd m false fuel p).map some = some t.toList.head? := by
  obtain ⟨q, b, c, ctx, rfl, hnil, hleft, hrun⟩ := subtreeEnd_spec h hroot false hfuel
  simp only [Bool.false_eq_true, if_false] at hleft
  rw [hrun, plug_toList, hleft, toList, hnil]
  rfl

/-- **`GetFirst` gives the first node.** -/
theorem getFirst_spec (h : Stores m t) (hfuel : t.toList.length ≤ fuel) : getFirst m fuel = some t.toList.head? := by
  have hheight : t.height ≤ fuel := le_trans (height_le_length t) (by exact_mod_cast hfuel)
  unfold getFirst
  cases hroot : m.root with
  | none =>
    obtain rfl := root_eq_none (h.around.symm.trans hroot)
    rfl
  | some root => exact subtreeEnd_first h.holds (h.around.symm.trans hroot) hheight

end searches

section operations
variable [DecidableEq P] {R : AvlRoutines P} {m : TreeMemory P} {ctx : List (Frame P)} {t : AvlTree P} {node p : P} {b : Int}
  {c : Bool → AvlTree P} {comp : P → Int} {compare : P → Option Int} {fuel : Nat} {f : Frame P}

/-! ### Insertion -/

theorem same_newNode {q : P} (hq : q ≠ node) (par : Option P) : Same m (newNode m node par) q :=
  (((same_setParent hq).trans (same_setLink hq)).trans (same_setLink hq)).trans (same_setBalance hq)

theorem holds_newNode (par : Option P) : Holds (newNode m node par) par (.node node 0 fun _ => .nil) := by
  refine ⟨setParent_parent.trans (if_pos rfl), setBalance_balance.trans (if_pos rfl), fun s => ⟨?_, trivial⟩⟩
  unfold newNode
  rw [setBalance_link, setLink_link, setLink_link]
  cases s
  · rw [if_neg nofun]
    exact if_pos ⟨rfl, rfl⟩
  · exact if_pos ⟨rfl, rfl⟩

/-- A node comes into a hole. -/
theorem focus_newNode (h : Focus m (f :: ctx) .nil) (hnode : node ∉ leftOf (f :: ctx) ++ rightOf (f :: ctx)) :
    Focus (newNode (m.setLink f.p f.side (some node)) node (some f.p)) (f :: ctx) (.node node 0 fun _ => .nil) := by
  have hnodup : (leftOf (f :: ctx) ++ rightOf (f :: ctx)).Nodup := by
    have := h.nodup
    rwa [toList, List.append_nil] at this
  refine ⟨holds_newNode _, ?_, ?_⟩
  · refine (h.around.setLink hnodup (some node)).congr (fun q hq => same_newNode ?_ _) rfl
    rintro rfl
    exact hnode hq
  · simp only [toList, List.nil_append, List.append_assoc, List.singleton_append]
    exact List.nodup_middle.mpr (List.nodup_cons.mpr ⟨hnode, hnodup⟩)

/-- **Insertion, unless there is an equal node.** -/
theorem insert_spec (hR : R.Correct) (h : Stores m t) (ht : t.Avl) (hprobe : Probe comp t.toList)
    (hcompare : ∀ q ∈ t.toList, compare q = some (comp q) ∧ (comp q = -1 ∨ comp q = 0 ∨ comp q = 1))
    (hnode : node ∈ t.toList → comp node = 0) (hfuel : t.toList.length ≤ fuel) :
    (∃ q ∈ t.toList, comp q = 0 ∧ insert R fuel m compare node = some (m, false, some q)) ∨
      ∃ m' t' left right ref, insert R fuel m compare node = some (m', true, ref) ∧ Stores m' t' ∧ t'.Avl ∧
        t.toList = left ++ right ∧ t'.toList = left ++ node :: right ∧ (∀ x ∈ left, 0 < comp x) ∧ ∀ x ∈ right, comp x < 0 := by
  unfold insert
  cases hroot : m.root with
  | none =>
    obtain rfl := root_eq_none (h.around.symm.trans hroot)
    refine .inr ⟨_, .node node 0 fun _ => .nil, [], [], none, rfl, ⟨holds_newNode none, rfl, ?_⟩, ?_, rfl, rfl, nofun, nofun⟩
    · simp [leftOf, rightOf, toList]
    · exact ⟨fun _ => trivial, by simp [height], by decide, by decide⟩
  | some root =>
    have hheight : t.height ≤ fuel := le_trans (height_le_length t) (by exact_mod_cast hfuel)
    dsimp only
    rcases search_spec h.holds (h.around.symm.trans hroot) hprobe hcompare hheight with
      ⟨q, hq, hequal, hsearch⟩ | ⟨f, ctx, rfl, hmissed, hsearch⟩
    · rw [hsearch]
      exact .inl ⟨q, hq, hequal, rfl⟩
    · have hlist : (plug (f :: ctx) .nil).toList = leftOf (f :: ctx) ++ rightOf (f :: ctx) := by
        rw [plug_toList, toList, List.append_nil]
      have hnew : node ∉ leftOf (f :: ctx) ++ rightOf (f :: ctx) := by
        intro hmem
        have hzero := hnode (hlist ▸ hmem)
        rcases List.mem_append.mp hmem with hl | hr
        · have := hmissed.left node hl
          omega
        · have := hmissed.right node hr
          omega
      have hfocus := focus_newNode (focus_iff_stores.mpr h) hnew
      have hlen : ctx.length < fuel := by
        have := length_le_around (f :: ctx)
        rw [hlist] at hfuel
        simp only [List.length_cons] at this
        omega
      have haround : AvlAround ((AvlTree.node node 0 fun _ => .nil).height - 1) (f :: ctx) := (avlAround_of_plug ht).2
      obtain ⟨m', t', hrun, hstores, havl, hlist'⟩ := rebalance_spec hR hfocus
        ⟨fun _ => trivial, by simp [height], by decide, by decide⟩ haround (by decide) (by decide) hlen
      rw [hsearch, Option.bind_some]
      dsimp only
      rw [hrun]
      refine .inr ⟨m', t', leftOf (f :: ctx), rightOf (f :: ctx), some f.p, rfl, hstores, havl, hlist, ?_, hmissed.left,
        hmissed.right⟩
      rw [hlist', plug_toList]
      simp only [toList, List.nil_append, List.append_assoc, List.singleton_append]

/-- Where there is an equal node nothing changes. -/
theorem insert_false {m' : TreeMemory P} {ref : Option P} (h : insert R fuel m compare node = some (m', false, ref)) : m' = m := by
  unfold insert at h
  cases hroot : m.root with
  | none =>
    rw [hroot] at h
    cases h
  | some root =>
    rw [hroot] at h
    obtain ⟨⟨q, side⟩, -, h⟩ := Option.bind_eq_some_iff.mp h
    cases side with
    | none =>
      cases h
      rfl
    | some side =>
      obtain ⟨_, -, h⟩ := Option.map_eq_some_iff.mp h
      cases h

/-! ### Removal -/

/-- A node with one child at most is replaced by it. -/
theorem removeChildless_spec (hR : R.Correct) {s : Bool} (h : Focus m ctx (.node p b c)) (ht : (plug ctx (.node p b c)).Avl)
    (hchild : c (!s) = .nil) (hfuel : ctx.length ≤ fuel) :
    ∃ m' t', removeChildless R fuel m p = some m' ∧ Stores m' t' ∧ t'.Avl ∧
      t'.toList = leftOf ctx ++ (c s).toList ++ rightOf ctx := by
  obtain ⟨hparent, -, hholds⟩ := h.holds
  have hlink : ∀ s, m.link p s = (c s).root := fun s => (hholds s).1
  have hnone : m.link p (!s) = none := by
    rw [hlink, hchild]
    rfl
  have hboth : ¬(m.link p false ≠ none ∧ m.link p true ≠ none) := by
    cases s
    · exact fun hc => hc.2 hnone
    · exact fun hc => hc.1 hnone
  have honly : (if m.link p false ≠ none then m.link p false else m.link p true) = (c s).root := by
    cases s with
    | false =>
      rw [← hlink false]
      split
      · rfl
      · next hleft => exact hnone.trans (not_not.mp hleft).symm
    | true =>
      rw [hlink, if_neg (not_not.mpr ((hlink false).symm.trans hnone)), hlink]
  obtain ⟨havl, haround⟩ := avlAround_of_plug ht
  have hheight : (AvlTree.node p b c).height = (c s).height - -1 := by
    have := height_nonneg (c s)
    rw [height_node p b c s, hchild, height]
    omega
  obtain ⟨m', hreplace, hfocus⟩ := hR.replaceSubtree h hchild
  unfold removeChildless
  rw [if_neg hboth, honly, hparent]
  cases ctx with
  | nil =>
    refine ⟨m', c s, hreplace, hfocus, havl.1 s, ?_⟩
    simp [leftOf, rightOf]
  | cons f ctx =>
    rw [hheight] at haround
    obtain ⟨m'', t', hrun, hstores, havl', hlist⟩ := rebalance_spec hR hfocus (havl.1 s) haround (by decide) (by decide) hfuel
    dsimp only [parentOf] at hreplace ⊢
    rw [hreplace, Option.bind_some, h.side rfl]
    exact ⟨m'', t', hrun, hstores, havl', hlist.trans (plug_toList ..)⟩

/-- The nodes are exchanged, and then one of them is left out. -/
theorem map_swap_middle {q : P} {l r : List P} (hnodup : (l ++ q :: p :: r).Nodup) :
    (l ++ p :: r).map (Equiv.swap p q) = l ++ q :: r := by
  have hnot : ∀ x ∈ l ++ r, Equiv.swap p q x = x := by
    intro x hx
    have hx' := List.nodup_middle.mp hnodup
    rw [List.nodup_cons] at hx'
    have hp := List.nodup_middle.mp hx'.2
    refine Equiv.swap_apply_of_ne_of_ne ?_ ?_
    · rintro rfl
      exact (List.nodup_cons.mp hp).1 hx
    · rintro rfl
      exact hx'.1 ((List.mem_append.mp hx).elim (List.mem_append_left _) fun hr => List.mem_append_right _ (List.mem_cons_of_mem _ hr))
  rw [List.map_append, List.map_cons, Equiv.swap_apply_left]
  congr 1
  · exact (List.map_congr_left fun x hx => hnot x (List.mem_append_left _ hx)).trans (List.map_id _)
  · exact congrArg _ ((List.map_congr_left fun x hx => hnot x (List.mem_append_right _ hx)).trans (List.map_id _))

/-- With two children, the node changes places with the largest one on its left, and is removed there. -/
theorem remove_between_spec (hR : R.Correct) (hfocus : Focus m ctx (.node p b c)) (ht : (plug ctx (.node p b c)).Avl)
    (hlist : (plug ctx (.node p b c)).toList = leftOf ctx ++ (c false).toList ++ p :: ((c true).toList ++ rightOf ctx))
    (hfuel : (plug ctx (.node p b c)).toList.length ≤ fuel) {left right : P} (hleft : (c false).root = some left)
    (hright : (c true).root = some right) :
    ∃ m' t' left right, remove R fuel m p = some m' ∧ Stores m' t' ∧ t'.Avl ∧
      (plug ctx (.node p b c)).toList = left ++ p :: right ∧ t'.toList = left ++ right := by
  have h := focus_iff_stores.mp hfocus
  have hp : p ∈ (plug ctx (.node p b c)).toList := hlist ▸ List.mem_append_right _ (List.mem_cons_self ..)
  have hheight : (c false).height ≤ fuel := by
    have := height_le_length (c false)
    rw [hlist] at hfuel
    simp only [List.length_append, List.length_cons] at hfuel
    omega
  obtain ⟨max, bm, cm, inner, heq, hnil, hinner, hend⟩ := subtreeEnd_spec (hfocus.holds.2.2 false).2 hleft true hheight
  simp only [if_true] at hinner
  have hmax : max ∈ (c false).toList := heq ▸ mem_plug.mpr (.inl (mem_toList_node.mpr (.inl rfl)))
  have hbelow : max ∈ (AvlTree.node p b c).toList := mem_toList_node.mpr (.inr ⟨false, hmax⟩)
  have hchild := (focus_child false).mp hfocus
  rw [heq, ← focus_append] at hchild
  -- the parent of the largest node is the node that is removed, or below it
  obtain ⟨q, hq, hqbelow⟩ : ∃ q, m.parent max = some q ∧ q ∈ (AvlTree.node p b c).toList := by
    rw [hchild.holds.1]
    cases inner with
    | nil => exact ⟨p, rfl, mem_toList_node.mpr (.inl rfl)⟩
    | cons f inner =>
      refine ⟨f.p, rfl, mem_toList_node.mpr (.inr ⟨false, ?_⟩)⟩
      rw [heq]
      exact mem_plug.mpr (.inr (mem_around.mpr (.inl rfl)))
  have hparents : m.parent p ≠ m.parent max := by
    rw [hq]
    exact fun hc => hfocus.disjoint hqbelow (parentOf_mem (hfocus.holds.1.symm.trans hc))
  have hnot : m.parent p ≠ some max := fun hc => hfocus.disjoint hbelow (parentOf_mem (hfocus.holds.1.symm.trans hc))
  have hne : p ≠ max := by
    rintro rfl
    exact hfocus.node_disjoint.1 false hmax
  obtain ⟨m₁, hswap, hstores⟩ := hR.swap h hp (mem_plug.mpr (.inl hbelow)) hne hparents hnot
  -- the tree where the largest node of the left subtree is in focus, and the same with the nodes exchanged
  let way := inner ++ ⟨false, p, b, c true⟩ :: ctx
  have htree : plug ctx (.node p b c) = plug way (.node max bm cm) := by
    have hfill : Frame.fill ⟨false, p, b, c true⟩ (c false) = AvlTree.node p b c := congrArg _ (pick_eta false c)
    rw [plug_append, ← heq, plug, hfill]
  have hwayLeft : leftOf way = leftOf ctx ++ leftOf inner := leftOf_append ..
  have hwayRight : rightOf way = p :: ((c true).toList ++ rightOf ctx) := by
    rw [rightOf_append, hinner]
    rfl
  have hcm : (cm true).toList = [] := by rw [hnil, toList]
  have hlist' : (plug way (.node max bm cm)).toList =
      leftOf ctx ++ leftOf inner ++ (cm false).toList ++ max :: p :: ((c true).toList ++ rightOf ctx) := by
    rw [plug_toList, toList, hcm, hwayLeft, hwayRight]
    simp only [List.append_assoc, List.cons_append, List.nil_append]
  have hnodup := hfocus.nodup
  rw [← plug_toList, htree, hlist'] at hnodup
  rw [htree] at hstores ht hfuel ⊢
  rw [map_plug, AvlTree.map, Equiv.swap_apply_right, ← focus_iff_stores] at hstores
  have ht' := (avl_map (Equiv.swap p max) _).mpr ht
  rw [map_plug, AvlTree.map, Equiv.swap_apply_right] at ht'
  have hway : (way.map (Frame.map (Equiv.swap p max))).length ≤ fuel := by
    have := length_le_around way
    rw [plug_toList] at hfuel
    simp only [List.length_append, List.length_map] at this hfuel ⊢
    omega
  have hnil' : (cm (!false)).map (Equiv.swap p max) = .nil := by
    rw [Bool.not_false, hnil]
    rfl
  obtain ⟨m', t', hrun, hstores', havl, hlist''⟩ := removeChildless_spec hR hstores ht' hnil' hway
  refine ⟨m', t', leftOf ctx ++ leftOf inner ++ (cm false).toList ++ [max], (c true).toList ++ rightOf ctx, ?_, hstores', havl, ?_, ?_⟩
  · rw [remove, (hfocus.holds.2.2 false).1, (hfocus.holds.2.2 true).1, hleft, hright]
    dsimp only
    rw [hend, Option.bind_some, hswap, Option.bind_some]
    exact hrun
  · rw [hlist', List.append_assoc _ [max]]
    rfl
  · rw [hlist'', leftOf_map, rightOf_map, toList_map, ← List.map_append, ← List.map_append, hwayLeft, hwayRight,
      map_swap_middle hnodup, List.append_assoc _ [max]]
    rfl

/-- **Removal of a node.** -/
theorem remove_spec (hR : R.Correct) (h : Stores m t) (ht : t.Avl) (hp : p ∈ t.toList) (hfuel : t.toList.length ≤ fuel) :
    ∃ m' t' left right, remove R fuel m p = some m' ∧ Stores m' t' ∧ t'.Avl ∧ t.toList = left ++ p :: right ∧
      t'.toList = left ++ right := by
  obtain ⟨ctx, b, c, rfl, hfocus⟩ := h.at hp
  have hlink : ∀ s, m.link p s = (c s).root := fun s => (hfocus.holds.2.2 s).1
  have hlist : (plug ctx (.node p b c)).toList = leftOf ctx ++ (c false).toList ++ p :: ((c true).toList ++ rightOf ctx) := by
    rw [plug_toList, toList]
    simp only [List.append_assoc, List.cons_append]
  have hlen : ctx.length ≤ fuel := by
    have := length_le_around ctx
    rw [hlist] at hfuel
    simp only [List.length_append, List.length_cons] at this hfuel
    omega
  -- one child at most
  have hchildless : ∀ s, c (!s) = .nil → remove R fuel m p = removeChildless R fuel m p →
      ∃ m' t' left right, remove R fuel m p = some m' ∧ Stores m' t' ∧ t'.Avl ∧
        (plug ctx (.node p b c)).toList = left ++ p :: right ∧ t'.toList = left ++ right := by
    intro s hs hremove
    obtain ⟨m', t', hrun, hstores, havl, hlist'⟩ := removeChildless_spec hR hfocus ht hs hlen
    refine ⟨m', t', _, _, hremove.trans hrun, hstores, havl, hlist, ?_⟩
    rw [hlist']
    cases s <;> simp only [Bool.not_false, Bool.not_true] at hs <;> simp [hs, toList]
  cases hleft : (c false).root with
  | none => exact hchildless true (root_eq_none hleft) (by rw [remove, hlink false, hleft])
  | some left =>
    cases hright : (c true).root with
    | none => exact hchildless false (root_eq_none hright) (by rw [remove, hlink false, hlink true, hleft, hright])
    | some right => exact remove_between_spec hR hfocus ht hlist hfuel hleft hright

/-! ### The next node -/

/-- The way up ends at the first node to the right. -/
theorem climb_spec (h : Focus m ctx t) (hroot : t.root = some p) (hfuel : ctx.length < fuel) :
    climb m fuel p = some (rightOf ctx).head? := by
  induction ctx generalizing t p fuel with
  | nil =>
    obtain ⟨b, c, rfl⟩ := root_eq_some hroot
    obtain ⟨fuel, rfl⟩ : ∃ k, fuel = k + 1 := Nat.exists_eq_add_one.mpr hfuel
    rw [climb, h.holds.1]
    rfl
  | cons f ctx ih =>
    obtain ⟨b, c, rfl⟩ := root_eq_some hroot
    obtain ⟨fuel, rfl⟩ : ∃ k, fuel = k + 1 := Nat.exists_eq_add_one.mpr (Nat.zero_lt_of_lt hfuel)
    have hside := h.side hroot
    rw [climb, h.holds.1, rightOf_cons]
    dsimp only [parentOf]
    cases hs : f.side with
    | false =>
      rw [hs] at hside
      rw [if_neg (of_decide_eq_false hside)]
      rfl
    | true =>
      rw [hs] at hside
      rw [if_pos (of_decide_eq_true hside)]
      exact ih (focus_cons.mp h) rfl (Nat.lt_of_succ_lt_succ hfuel)

/-- **`GetNext` gives the next node.** -/
theorem getNext_spec {left right : List P} (h : Stores m t) (hlist : t.toList = left ++ p :: right) (hfuel : t.toList.length ≤ fuel) :
    getNext m fuel p = some right.head? := by
  obtain ⟨ctx, b, c, rfl, hfocus⟩ := h.at (hlist ▸ List.mem_append_right _ (List.mem_cons_self ..))
  have hnodup := hfocus.nodup
  rw [plug_toList, toList] at hlist hfuel
  -- the node is at one place only
  obtain rfl : (c true).toList ++ rightOf ctx = right := by
    simp only [toList, List.append_assoc, List.cons_append] at hlist hnodup
    rw [← List.append_assoc] at hlist hnodup
    have hnot := (List.nodup_middle.mp (hlist ▸ hnodup))
    rw [List.nodup_cons, List.mem_append, not_or] at hnot
    exact ((List.append_cons_inj_of_notMem hnot.1.1 hnot.1.2).mp hlist.symm).2.2.symm
  obtain ⟨hlink, hholds⟩ := hfocus.holds.2.2 true
  simp only [List.length_append, List.length_cons] at hfuel
  unfold getNext
  rw [hlink]
  cases hroot : (c true).root with
  | none =>
    rw [root_eq_none hroot]
    have hlen := length_le_around ctx
    rw [List.length_append] at hlen
    exact climb_spec hfocus rfl (by omega)
  | some q =>
    have hheight : (c true).height ≤ fuel := le_trans (height_le_length _) (by exact_mod_cast (by omega))
    have hfirst := subtreeEnd_first hholds hroot hheight
    dsimp only
    rw [hfirst]
    obtain ⟨b', c', hc⟩ := root_eq_some hroot
    rw [hc, toList]
    cases (c' false).toList <;> rfl

end operations

end TwilightLine.Avl
