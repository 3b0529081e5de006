import TwilightLine.Structure.CAvl

/-! The changes of links.

Both versions of each routine change a tree in memory into the tree that they should
(`AvlRoutines.Correct`): `CAvl` with the parents that it is given, and `BAVL` with those that
it reads, which are the same. -/
namespace TwilightLine

open AvlTree TreeMemory

variable {P : Type*}

theorem checkParent_of_focus {m : TreeMemory P} {ctx : List (Frame P)} {r : P} {b : Int} {c : Bool → AvlTree P}
    (h : Focus m ctx (.node r b c)) : CAvl.checkParent m (parentOf ctx) r := by
  refine ⟨h.holds.1.symm, fun q hq => ?_⟩
  cases ctx with
  | nil => cases hq
  | cons f ctx =>
    cases hq
    obtain ⟨-, -, hlink, -⟩ := h.around
    cases hs : f.side with
    | false =>
      rw [hs] at hlink
      exact .inl hlink.symm
    | true =>
      rw [hs] at hlink
      exact .inr hlink.symm

variable {m m' : TreeMemory P} {l : List P} {p q r nr n1 n2 : P} {s s' : Bool}

theorem checkParent_of_stores {t : AvlTree P} (h : Stores m t) (hp : p ∈ t.toList) : CAvl.checkParent m (m.parent p) p := by
  obtain ⟨ctx, b, c, rfl, hfocus⟩ := h.at hp
  rw [hfocus.holds.1]
  exact checkParent_of_focus hfocus

/-- What is known of two nodes that are exchanged. -/
structure Exchangeable (m : TreeMemory P) (l : List P) (n1 n2 : P) : Prop where
  linked : Linked m l
  mem : n1 ∈ l ∧ n2 ∈ l
  ne : n1 ≠ n2
  /-- The nodes are not siblings, and none is above itself. -/
  parents : m.parent n1 ≠ m.parent n2
  not_below : m.parent n1 ≠ some n2
  irrefl : m.parent n1 ≠ some n1 ∧ m.parent n2 ≠ some n2

theorem Exchangeable.child (h : Exchangeable m l n1 n2) {p : P} (hp : p = n1 ∨ p = n2 ∨ p ∈ l) (hlink : m.link p s = some q) :
    q ∈ l ∧ m.parent q = some p := by
  rcases hp with rfl | rfl | hp
  · exact h.linked.child h.mem.1 hlink
  · exact h.linked.child h.mem.2 hlink
  · exact h.linked.child hp hlink

theorem Exchangeable.parent (h : Exchangeable m l n1 n2) {p : P} (hq : q = n1 ∨ q = n2 ∨ q ∈ l) (hparent : m.parent q = some p) :
    m.link p true = some q ∨ m.link p false = some q := by
  have hq : q ∈ l := by
    rcases hq with rfl | rfl | hq
    · exact h.mem.1
    · exact h.mem.2
    · exact hq
  obtain ⟨s, hs⟩ := (h.linked.parent hq hparent).2
  cases s with
  | false => exact .inr hs
  | true => exact .inl hs

variable [DecidableEq P]

/-- The routines do their changes. -/
structure AvlRoutines.Correct (R : AvlRoutines P) : Prop where
  rotate : ∀ {m : TreeMemory P} {ctx r b c dir nr b' c'}, Focus m ctx (.node r b c) → c (!dir) = .node nr b' c' →
    ∃ m', R.rotate m r dir (parentOf ctx) = some m' ∧
      Focus m' ctx (.node nr b' (pick dir (.node r b (pick dir (c dir) (c' dir))) (c' (!dir))))
  swap : ∀ {m : TreeMemory P} {t n1 n2}, Stores m t → n1 ∈ t.toList → n2 ∈ t.toList → n1 ≠ n2 →
    m.parent n1 ≠ m.parent n2 → m.parent n1 ≠ some n2 →
    ∃ m', R.swap m n1 n2 (m.parent n1) (m.parent n2) = some m' ∧ Stores m' (t.map (Equiv.swap n1 n2))
  replaceSubtree : ∀ {m : TreeMemory P} {ctx dest b c s}, Focus m ctx (.node dest b c) → c (!s) = .nil →
    ∃ m', R.replaceSubtree m dest (c s).root (parentOf ctx) = some m' ∧ Focus m' ctx (c s)

variable {ctx : List (Frame P)} {t : AvlTree P} {p1 p2 : Option P} {b b' : Int} {c c' : Bool → AvlTree P} {dir : Bool}

/-! ### Rotations -/

/-- The links after a rotation. -/
def rotated (m : TreeMemory P) (r nr : P) (dir : Bool) (moved parent : Option P) : TreeMemory P :=
  (((((m.setLink r (!dir) moved).setParentOf moved (some r)).setLink nr dir (some r)).setParent nr parent).replaceChild parent r
    (some nr)).setParent r (some nr)

section rotated
variable {moved parent : Option P}

theorem rotated_parent : (rotated m r nr dir moved parent).parent q =
    if q = r then some nr else if q = nr then parent else if moved = some q then some r else m.parent q := by
  unfold rotated
  simp only [setParent_parent, replaceChild_parent, setLink_parent, setParentOf_parent]

theorem rotated_balance : (rotated m r nr dir moved parent).balance = m.balance := by
  unfold rotated
  simp only [setParent_balance, replaceChild_balance, setLink_balance, setParentOf_balance]

theorem rotated_link (hq : parent ≠ some q) : (rotated m r nr dir moved parent).link q s =
    if q = nr ∧ s = dir then some r else if q = r ∧ s = !dir then moved else m.link q s := by
  unfold rotated
  rw [setParent_link, replaceChild_link, if_neg (fun hc => hq hc.1), setParent_link, setLink_link, setParentOf_link, setLink_link]

end rotated

theorem focus_rotated (h : Focus m ctx (.node r b c)) (hc : c (!dir) = .node nr b' c') :
    Focus (rotated m r nr dir (c' dir).root (parentOf ctx)) ctx
      (.node nr b' (pick dir (.node r b (pick dir (c dir) (c' dir))) (c' (!dir)))) := by
  obtain ⟨hparent, hbalance, hchild⟩ := h.holds
  obtain ⟨hlink, hholds⟩ := hchild (!dir)
  rw [hc] at hlink hholds
  obtain ⟨hparent', hbalance', hchild'⟩ := hholds
  -- the subtrees, the two nodes and the way up have no node in common
  have hbelow : ∀ s, ∀ q ∈ (c' s).toList, q ≠ nr ∧ q ≠ r ∧ q ∉ (c' (!s)).toList ∧ q ∉ leftOf ctx ++ rightOf ctx := by
    intro s q hq
    have hnot := (h.grandchild hc s).disjoint hq
    rw [mem_around, mem_around] at hnot
    tauto
  have hbeside : ∀ q ∈ (c dir).toList, q ≠ r ∧ q ≠ nr ∧ (∀ s, q ∉ (c' s).toList) ∧ q ∉ leftOf ctx ++ rightOf ctx := by
    intro q hq
    have hnot := ((focus_child dir).mp h).disjoint hq
    rw [mem_around, hc, mem_toList_node] at hnot
    refine ⟨fun heq => hnot (.inl heq), fun heq => hnot (.inr (.inl (.inl heq))), fun s hs => ?_, fun hs => hnot (.inr (.inr hs))⟩
    exact hnot (.inr (.inl (.inr ⟨s, hs⟩)))
  have hr : r ∉ leftOf ctx ++ rightOf ctx := h.disjoint (mem_toList_node.mpr (.inl rfl))
  have hnr : nr ≠ r ∧ nr ∉ leftOf ctx ++ rightOf ctx := by
    have hfocus := (focus_child (!dir)).mp h
    rw [hc] at hfocus
    have hnot := hfocus.disjoint (mem_toList_node.mpr (.inl rfl))
    rw [mem_around] at hnot
    tauto
  have hpar : ∀ {q}, q ∉ leftOf ctx ++ rightOf ctx → parentOf ctx ≠ some q := fun hq heq => hq (parentOf_mem heq)
  have hroot : ∀ {q}, q ∉ (c' dir).toList → (c' dir).root ≠ some q := fun hq heq => hq (mem_of_root heq)
  -- what is moved belongs to `r` after the first two steps
  have hmoved : Holds ((m.setLink r (!dir) (c' dir).root).setParentOf (c' dir).root (some r)) (some r) (c' dir) := by
    refine Holds.setParentOf ((hchild' dir).2.congr fun q hq => same_setLink (hbelow dir q hq).2.1) ?_
    have hnodup := (h.grandchild hc dir).nodup
    exact (hnodup.sublist (List.sublist_append_left _ _)).sublist (List.sublist_append_right _ _)
  have hlater : ∀ {m₂ : TreeMemory P} {q}, q ≠ r → q ≠ nr → q ∉ leftOf ctx ++ rightOf ctx →
      Same m₂ ((((m₂.setLink nr dir (some r)).setParent nr (parentOf ctx)).replaceChild (parentOf ctx) r (some nr)).setParent r
        (some nr)) q := fun hqr hqnr hctx =>
    (((same_setLink hqnr).trans (same_setParent hqnr)).trans (same_replaceChild (hpar hctx))).trans (same_setParent hqr)
  have hearlier : ∀ {q}, q ≠ r → q ∉ (c' dir).toList →
      Same m ((m.setLink r (!dir) (c' dir).root).setParentOf (c' dir).root (some r)) q := fun hqr hq =>
    (same_setLink hqr).trans (same_setParentOf (hroot hq))
  refine ⟨holds_pick.mpr ⟨?_, ?_, ⟨?_, holds_pick.mpr ⟨?_, ?_, ⟨?_, ?_⟩, ?_, ?_⟩⟩, ?_, ?_⟩, ?_, ?_⟩
  · rw [rotated_parent, if_neg hnr.1, if_pos rfl]
  · rw [rotated_balance]
    exact hbalance'
  · rw [rotated_link (hpar hnr.2)]
    exact if_pos ⟨rfl, rfl⟩
  · rw [rotated_parent]
    exact if_pos rfl
  · rw [rotated_balance]
    exact hbalance
  · rw [rotated_link (hpar hr), if_neg (fun hc => hnr.1 hc.1.symm), if_neg (fun hc => Bool.not_ne_self dir hc.2.symm)]
    exact (hchild dir).1
  · exact (hchild dir).2.congr fun q hq =>
      (hearlier (hbeside q hq).1 ((hbeside q hq).2.2.1 dir)).trans (hlater (hbeside q hq).1 (hbeside q hq).2.1 (hbeside q hq).2.2.2)
  · rw [rotated_link (hpar hr), if_neg (fun hc => hnr.1 hc.1.symm)]
    exact if_pos ⟨rfl, rfl⟩
  · exact hmoved.congr fun q hq => hlater (hbelow dir q hq).2.1 (hbelow dir q hq).1 (hbelow dir q hq).2.2.2
  · rw [rotated_link (hpar hnr.2), if_neg (fun hc => Bool.not_ne_self dir hc.2), if_neg (fun hc => hnr.1 hc.1)]
    exact (hchild' (!dir)).1
  · refine (hchild' (!dir)).2.congr fun q hq => ?_
    obtain ⟨hqnr, hqr, hother, hctx⟩ := hbelow (!dir) q hq
    rw [Bool.not_not] at hother
    exact (hearlier hqr hother).trans (hlater hqr hqnr hctx)
  · have hctx : ∀ q ∈ leftOf ctx ++ rightOf ctx, q ≠ r ∧ q ≠ nr ∧ q ∉ (c' dir).toList := fun q hq =>
      ⟨fun heq => hr (heq ▸ hq), fun heq => hnr.2 (heq ▸ hq), fun hmem => (hbelow dir q hmem).2.2.2 hq⟩
    have hnodup : (leftOf ctx ++ rightOf ctx).Nodup :=
      h.nodup.sublist ((List.sublist_append_left ..).append_right _)
    have hbefore : HoldsAround ((((m.setLink r (!dir) (c' dir).root).setParentOf (c' dir).root (some r)).setLink nr dir
        (some r)).setParent nr (parentOf ctx)) (some r) ctx :=
      h.around.congr (fun q hq => ((hearlier (hctx q hq).1 (hctx q hq).2.2).trans (same_setLink (hctx q hq).2.1)).trans
        (same_setParent (hctx q hq).2.1)) (by simp)
    exact (hbefore.replaceChild hr hnodup).congr (fun q hq => same_setParent (hctx q hq).1) rfl
  · rw [toList_rotate hc]
    exact h.nodup

theorem CAvl.rotate_focus (h : Focus m ctx (.node r b c)) (hc : c (!dir) = .node nr b' c') :
    ∃ m', CAvl.rotate m r dir (parentOf ctx) = some m' ∧
      Focus m' ctx (.node nr b' (pick dir (.node r b (pick dir (c dir) (c' dir))) (c' (!dir)))) := by
  obtain ⟨hlink, hholds⟩ := h.holds.2.2 (!dir)
  rw [hc] at hlink hholds
  have hmoved : m.link nr dir = (c' dir).root := (hholds.2.2 dir).1
  refine ⟨rotated m r nr dir (c' dir).root (parentOf ctx), ?_, focus_rotated h hc⟩
  unfold CAvl.rotate
  rw [if_pos (checkParent_of_focus h), hlink, AvlTree.root, Option.map_some, hmoved]
  dsimp only
  rw [setLink_link, if_pos ⟨rfl, rfl⟩]
  rfl

/-- The parent that is read is the one that is given. -/
theorem BAVL.rotate_focus (h : Focus m ctx (.node r b c)) (hc : c (!dir) = .node nr b' c') :
    ∃ m', BAVL.rotate m r dir = some m' ∧
      Focus m' ctx (.node nr b' (pick dir (.node r b (pick dir (c dir) (c' dir))) (c' (!dir)))) := by
  obtain ⟨hparent, -, hchild⟩ := h.holds
  obtain ⟨hlink, hholds⟩ := hchild (!dir)
  rw [hc] at hlink hholds
  have hmoved : m.link nr dir = (c' dir).root := (hholds.2.2 dir).1
  have hne : (c' dir).root ≠ some r := by
    intro heq
    have hnot := (h.grandchild hc dir).disjoint (mem_of_root heq)
    rw [mem_around, mem_around] at hnot
    tauto
  refine ⟨rotated m r nr dir (c' dir).root (parentOf ctx), ?_, focus_rotated h hc⟩
  unfold BAVL.rotate rotated
  rw [hlink, AvlTree.root, Option.map_some, hmoved]
  dsimp only
  rw [setLink_link, if_pos ⟨rfl, rfl⟩]
  simp only [setLink_parent, setParentOf_parent, if_neg hne, setParent_parent, if_true, hparent]

/-! ### Subtrees -/

theorem focus_replaced (h : Focus m ctx (.node r b c)) (hc : c (!s) = .nil) :
    Focus ((m.replaceChild (parentOf ctx) r (c s).root).setParentOf (c s).root (parentOf ctx)) ctx (c s) := by
  have hr : r ∉ leftOf ctx ++ rightOf ctx := h.disjoint (mem_toList_node.mpr (.inl rfl))
  have hbelow : ∀ q ∈ (c s).toList, q ∉ leftOf ctx ++ rightOf ctx := fun q hq =>
    h.disjoint (mem_toList_node.mpr (.inr ⟨s, hq⟩))
  have hsub : ((c s).toList).Sublist (AvlTree.node r b c).toList := by
    cases s with
    | false => exact List.sublist_append_left ..
    | true => exact (List.sublist_cons_self ..).trans (List.sublist_append_right ..)
  have hnodup : (leftOf ctx ++ (c s).toList ++ rightOf ctx).Nodup :=
    h.nodup.sublist ((hsub.append_left _).append_right _)
  refine ⟨?_, ?_, hnodup⟩
  · have hholds : Holds (m.replaceChild (parentOf ctx) r (c s).root) (some r) (c s) :=
      (h.holds.2.2 s).2.congr fun q hq => same_replaceChild fun heq => hbelow q hq (parentOf_mem heq)
    exact hholds.setParentOf ((hnodup.sublist (List.sublist_append_left ..)).sublist (List.sublist_append_right ..))
  · have haround := h.around.replaceChild (v := (c s).root) hr (h.nodup.sublist ((List.sublist_append_left ..).append_right _))
    exact haround.congr (fun q hq => same_setParentOf fun heq => hbelow q (mem_of_root heq) hq) (setParentOf_root ..)

/-! ### Swaps -/

/-- What an address is called when the nodes are exchanged. -/
def exchanged (n1 n2 : P) (o : Option P) : Option P :=
  if o = some n1 then some n2 else if o = some n2 then some n1 else o

theorem map_swap (n1 n2 : P) (o : Option P) : o.map (Equiv.swap n1 n2) = exchanged n1 n2 o := by
  cases o with
  | none => rfl
  | some q =>
    unfold exchanged
    rw [Option.map_some, Equiv.swap_apply_def]
    simp only [Option.some.injEq]
    split_ifs <;> rfl

/-- The links to the parents, and those of the parents, are exchanged. -/
def swapParents (m : TreeMemory P) (n1 n2 : P) (p1 p2 : Option P) : TreeMemory P :=
  (((m.setParent n1 (m.parent n2)).replaceChild p2 n2 (some n1)).setParent n2 p1).replaceChild p1 n1 (some n2)

/-- The links to the children on one side are exchanged. -/
def swapChildren (m : TreeMemory P) (n1 n2 : P) (s : Bool) : TreeMemory P :=
  let temp := m.link n1 s
  let m := m.setLink n1 s (m.link n2 s)
  let m := m.setParentOf (m.link n1 s) (some n1)
  let m := m.setLink n2 s temp
  m.setParentOf (m.link n2 s) (some n2)

theorem swapApart_eq : CAvl.swapApart m n1 n2 p1 p2 =
    swapChildren (swapChildren (swapParents m n1 n2 p1 p2) n1 n2 false) n1 n2 true := rfl

theorem swapParents_parent : (swapParents m n1 n2 p1 p2).parent q =
    if q = n2 then p1 else if q = n1 then m.parent n2 else m.parent q := by
  unfold swapParents
  simp only [replaceChild_parent, setParent_parent]

theorem swapParents_link (hp : p1 ≠ p2) : (swapParents m n1 n2 p1 p2).link q s =
    if p1 = some q ∧ s = decide (m.link q true = some n1) then some n2
    else if p2 = some q ∧ s = decide (m.link q true = some n2) then some n1 else m.link q s := by
  unfold swapParents
  simp only [replaceChild_link, setParent_link]
  by_cases hq : p1 = some q
  · have hq2 : p2 ≠ some q := fun h => hp (hq.trans h.symm)
    simp only [hq2, false_and, if_false]
  · simp only [hq, false_and, if_false]
    congr

theorem swapParents_root : (swapParents m n1 n2 p1 p2).root =
    if p1 = none then some n2 else if p2 = none then some n1 else m.root := by
  unfold swapParents
  simp only [replaceChild_root, setParent_root]

theorem swapChildren_parent (hne : n1 ≠ n2) : (swapChildren m n1 n2 s).parent q =
    if m.link n1 s = some q then some n2 else if m.link n2 s = some q then some n1 else m.parent q := by
  unfold swapChildren
  simp only [setParentOf_parent, setLink_parent, setLink_link, setParentOf_link, hne.symm, and_self, if_true, false_and,
    if_false]

theorem swapChildren_link : (swapChildren m n1 n2 s).link q s' =
    if q = n2 ∧ s' = s then m.link n1 s else if q = n1 ∧ s' = s then m.link n2 s else m.link q s' := by
  unfold swapChildren
  simp only [setParentOf_link, setLink_link]

theorem swapChildren_root : (swapChildren m n1 n2 s).root = m.root := by
  unfold swapChildren
  simp only [setParentOf_root, setLink_root]

theorem swapApart_parent (hne : n1 ≠ n2) (hp : p1 ≠ p2) (h1 : p1 ≠ some n1 ∧ p1 ≠ some n2) (h2 : p2 ≠ some n1 ∧ p2 ≠ some n2) :
    (CAvl.swapApart m n1 n2 p1 p2).parent q =
      if m.link n1 true = some q ∨ m.link n2 true ≠ some q ∧ m.link n1 false = some q then some n2
      else if m.link n2 true = some q ∨ m.link n2 false = some q then some n1
      else if q = n2 then p1 else if q = n1 then m.parent n2 else m.parent q := by
  rw [swapApart_eq, swapChildren_parent hne, swapChildren_parent hne]
  simp only [swapChildren_link, swapParents_link hp, swapParents_parent, h1, h2, false_and, if_false, Bool.true_eq_false, and_false]
  grind

theorem swapApart_link (hp : p1 ≠ p2) (h1 : p1 ≠ some n1 ∧ p1 ≠ some n2) (h2 : p2 ≠ some n1 ∧ p2 ≠ some n2) :
    (CAvl.swapApart m n1 n2 p1 p2).link q s =
      if q = n2 then m.link n1 s else if q = n1 then m.link n2 s
      else if p1 = some q ∧ s = decide (m.link q true = some n1) then some n2
      else if p2 = some q ∧ s = decide (m.link q true = some n2) then some n1 else m.link q s := by
  rw [swapApart_eq, swapChildren_link, swapChildren_link, swapChildren_link, swapChildren_link]
  simp only [swapParents_link hp, h1, h2, false_and, if_false, Bool.true_eq_false, and_false]
  cases s <;> grind

theorem swapConnected_parent (hne : n1 ≠ n2) (h21 : ∀ s, m.link n2 s ≠ some n1) : (CAvl.swapConnected m n1 n2 p1).parent q =
    if m.link n1 (!decide (m.link n1 true = some n2)) = some q then some n2
    else if q = n1 then some n2 else if q = n2 then m.parent n1
    else if m.link n2 true = some q ∨ m.link n2 false = some q then some n1 else m.parent q := by
  unfold CAvl.swapConnected
  simp only [setParent_parent, setParentOf_parent, setLink_parent, setLink_link, replaceChild_parent, setParentOf_link,
    hne.symm, if_false, true_and, and_false, Bool.true_eq_false]
  grind

theorem swapConnected_link (hne : n1 ≠ n2) (h11 : p1 ≠ some n1) : (CAvl.swapConnected m n1 n2 p1).link q s =
    if q = n2 then if s = decide (m.link n1 true = some n2) then some n1 else m.link n1 (!decide (m.link n1 true = some n2))
    else if q = n1 then m.link n2 s
    else if p1 = some q ∧ s = decide (m.link q true = some n1) then some n2 else m.link q s := by
  unfold CAvl.swapConnected
  simp only [setLink_link, setParentOf_link, replaceChild_link, setParent_link, hne.symm, if_false, and_false,
    Bool.true_eq_false]
  by_cases h2 : q = n2
  · subst h2
    by_cases hs : s = decide (m.link n1 true = some q)
    · simp [hs]
    · simp [Bool.eq_not.mpr hs]
  · by_cases h1 : q = n1
    · subst h1
      cases s <;> simp [h2, h11]
    · simp [h1, h2]

theorem renamed_swap_parent : (m.renamed (Equiv.swap n1 n2)).parent q =
    exchanged n1 n2 (m.parent (if q = n1 then n2 else if q = n2 then n1 else q)) := by
  rw [← map_swap, ← Equiv.swap_apply_def]
  rfl

theorem renamed_swap_link : (m.renamed (Equiv.swap n1 n2)).link q s =
    exchanged n1 n2 (m.link (if q = n1 then n2 else if q = n2 then n1 else q) s) := by
  rw [← map_swap, ← Equiv.swap_apply_def]
  rfl

theorem swapApart_same (h : Exchangeable m l n1 n2) (h21 : m.parent n2 ≠ some n1) (hq : q ∈ l) :
    (CAvl.swapApart m n1 n2 (m.parent n1) (m.parent n2)).parent q = (m.renamed (Equiv.swap n1 n2)).parent q ∧
      ∀ s, (CAvl.swapApart m n1 n2 (m.parent n1) (m.parent n2)).link q s = (m.renamed (Equiv.swap n1 n2)).link q s := by
  have hchild := @h.child
  have hparent := @h.parent
  have hsides := @h.linked.sides
  obtain ⟨hl, ⟨h1, h2⟩, hne, hp, h12, h11, h22⟩ := h
  constructor
  · rw [swapApart_parent hne hp ⟨h11, h12⟩ ⟨h21, h22⟩, renamed_swap_parent]
    unfold exchanged
    grind
  · intro s
    rw [swapApart_link hp ⟨h11, h12⟩ ⟨h21, h22⟩, renamed_swap_link]
    unfold exchanged
    cases s <;> grind

theorem swapConnected_same (h : Exchangeable m l n1 n2) (h21 : m.parent n2 = some n1) (hq : q ∈ l) :
    (CAvl.swapConnected m n1 n2 (m.parent n1)).parent q = (m.renamed (Equiv.swap n1 n2)).parent q ∧
      ∀ s, (CAvl.swapConnected m n1 n2 (m.parent n1)).link q s = (m.renamed (Equiv.swap n1 n2)).link q s := by
  have hchild := @h.child
  have hparent := @h.parent
  have hsides := @h.linked.sides
  obtain ⟨hl, ⟨h1, h2⟩, hne, hp, h12, h11, h22⟩ := h
  have hback : ∀ s, m.link n2 s ≠ some n1 := fun s hs => h12 (hl.child h2 hs).2
  constructor
  · rw [swapConnected_parent hne hback, renamed_swap_parent]
    unfold exchanged
    grind
  · intro s
    rw [swapConnected_link hne h11, renamed_swap_link]
    unfold exchanged
    cases s <;> grind

theorem swapApart_root : (CAvl.swapApart m n1 n2 p1 p2).root =
    if p1 = none then some n2 else if p2 = none then some n1 else m.root := by
  rw [swapApart_eq, swapChildren_root, swapChildren_root, swapParents_root]

theorem swapConnected_root : (CAvl.swapConnected m n1 n2 p1).root = if p1 = none then some n2 else m.root := by
  unfold CAvl.swapConnected
  simp only [setParentOf_root, setLink_root, setParent_root, replaceChild_root]

theorem swapApart_balance : (CAvl.swapApart m n1 n2 p1 p2).balance = m.balance := by
  unfold CAvl.swapApart
  simp only [setParentOf_balance, setLink_balance, setParent_balance, replaceChild_balance]

theorem swapConnected_balance : (CAvl.swapConnected m n1 n2 p1).balance = m.balance := by
  unfold CAvl.swapConnected
  simp only [setParentOf_balance, setLink_balance, setParent_balance, replaceChild_balance]

theorem Exchangeable.root (h : Exchangeable m l n1 n2) : (m.renamed (Equiv.swap n1 n2)).root =
    if m.parent n1 = none then some n2 else if m.parent n2 = none then some n1 else m.root := by
  have htop1 := h.linked.top h.mem.1
  have htop2 := h.linked.top h.mem.2
  show m.root.map _ = _
  rw [map_swap]
  unfold exchanged
  grind

/-- The memory with the two nodes exchanged holds the tree with them exchanged. -/
theorem stores_exchanged (h : Stores m t) (hn1 : n1 ∈ t.toList) (hn2 : n2 ∈ t.toList) {mSwap : TreeMemory P}
    (hsame : ∀ q ∈ t.toList, mSwap.parent q = (m.renamed (Equiv.swap n1 n2)).parent q ∧
      ∀ s, mSwap.link q s = (m.renamed (Equiv.swap n1 n2)).link q s)
    (hroot : mSwap.root = (m.renamed (Equiv.swap n1 n2)).root) (hbalance : mSwap.balance = m.balance) :
    Stores ((mSwap.setBalance n1 (mSwap.balance n2)).setBalance n2 (mSwap.balance n1)) (t.map (Equiv.swap n1 n2)) := by
  refine (h.renamed (Equiv.swap n1 n2)).congr (fun q hq => ?_) (fun q hq => ?_) hroot
  · have hmem : q ∈ t.toList := by
      rw [toList_map] at hq
      obtain ⟨p, hp, rfl⟩ := List.mem_map.mp hq
      rw [Equiv.swap_apply_def]
      split_ifs
      · exact hn2
      · exact hn1
      · exact hp
    refine ⟨(hsame q hmem).1, funext (hsame q hmem).2, ?_⟩
    show _ = m.balance ((Equiv.swap n1 n2).symm q)
    rw [setBalance_balance, setBalance_balance, hbalance, Equiv.symm_swap, Equiv.swap_apply_def]
    grind
  · cases hq

theorem CAvl.swap_stores (h : Stores m t) (hex : Exchangeable m t.toList n1 n2) :
    ∃ m', CAvl.swapForRemove m n1 n2 (m.parent n1) (m.parent n2) = some m' ∧ Stores m' (t.map (Equiv.swap n1 n2)) := by
  obtain ⟨hn1, hn2⟩ := hex.mem
  unfold CAvl.swapForRemove
  rw [if_pos ⟨checkParent_of_stores h hn1, checkParent_of_stores h hn2⟩]
  by_cases h21 : m.parent n2 = some n1
  · rw [if_pos h21]
    refine ⟨_, rfl, stores_exchanged h hn1 hn2 (fun q hq => swapConnected_same hex h21 hq) ?_ swapConnected_balance⟩
    rw [swapConnected_root, hex.root, h21]
    rfl
  · rw [if_neg h21]
    refine ⟨_, rfl, stores_exchanged h hn1 hn2 (fun q hq => swapApart_same hex h21 hq) ?_ swapApart_balance⟩
    rw [swapApart_root, hex.root]

theorem BAVL.swapApart_eq (m : TreeMemory P) (n1 n2 : P) :
    BAVL.swapApart m n1 n2 = CAvl.swapApart m n1 n2 (m.parent n1) (m.parent n2) := by
  unfold BAVL.swapApart CAvl.swapApart
  simp only [setParent_parent, if_true]

theorem BAVL.swapConnected_eq (hback : ∀ s, m.link n2 s ≠ some n1) (hne : n1 ≠ n2) :
    BAVL.swapConnected m n1 n2 = CAvl.swapConnected m n1 n2 (m.parent n1) := by
  unfold BAVL.swapConnected CAvl.swapConnected
  simp only [setParent_parent, setLink_parent, setParentOf_parent, setLink_link, setParentOf_link, hne.symm, hback, if_true, if_false,
    and_self, false_and]

theorem BAVL.swap_stores (h : Stores m t) (hex : Exchangeable m t.toList n1 n2) :
    Stores (BAVL.swapNodes m n1 n2) (t.map (Equiv.swap n1 n2)) := by
  obtain ⟨hn1, hn2⟩ := hex.mem
  unfold BAVL.swapNodes
  by_cases h21 : m.parent n2 = some n1
  · have hback : ∀ s, m.link n2 s ≠ some n1 := fun s hs => hex.not_below (hex.child (.inr (.inl rfl)) hs).2
    rw [if_pos (.inl h21), if_neg hex.not_below, BAVL.swapConnected_eq hback hex.ne]
    refine stores_exchanged h hn1 hn2 (fun q hq => swapConnected_same hex h21 hq) ?_ swapConnected_balance
    rw [swapConnected_root, hex.root, h21]
    rfl
  · rw [if_neg (fun hc => hc.elim h21 hex.not_below), BAVL.swapApart_eq]
    refine stores_exchanged h hn1 hn2 (fun q hq => swapApart_same hex h21 hq) ?_ swapApart_balance
    rw [swapApart_root, hex.root]

/-! ### The routines -/

theorem CAvl.routines_correct : (CAvl.routines : AvlRoutines P).Correct where
  rotate h hc := CAvl.rotate_focus h hc
  swap h hn1 hn2 hne hparents hbelow :=
    CAvl.swap_stores h ⟨h.linked, ⟨hn1, hn2⟩, hne, hparents, hbelow, h.parent_ne hn1, h.parent_ne hn2⟩
  replaceSubtree h hc := by
    refine ⟨_, if_pos (checkParent_of_focus h), ?_⟩
    rw [replaceChild_parent, h.holds.1]
    exact focus_replaced h hc

theorem BAVL.routines_correct : (BAVL.routines : AvlRoutines P).Correct where
  rotate h hc := BAVL.rotate_focus h hc
  swap h hn1 hn2 hne hparents hbelow :=
    ⟨_, rfl, BAVL.swap_stores h ⟨h.linked, ⟨hn1, hn2⟩, hne, hparents, hbelow, h.parent_ne hn1, h.parent_ne hn2⟩⟩
  replaceSubtree h hc := by
    refine ⟨_, rfl, ?_⟩
    dsimp only [BAVL.replaceSubtree]
    rw [replaceChild_parent, h.holds.1]
    exact focus_replaced h hc

end TwilightLine
