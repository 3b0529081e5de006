import TwilightLine.Flow.PacketPassFairQueueRuns
import TwilightLine.Structure.SearchTree
import TwilightLine.System.BReactorTimerRuns

/-! Runs of a `CAvl`.

As for a `BAVL`, but that the entries are gone through in their order instead of being looked
up. The queued flows and the running timers, which are lists elsewhere, are such trees: an
insertion into the tree is the insertion into the list (`insert_list`), and so on. -/
namespace TwilightLine.CAvl

open Reactor

variable {P V : Type*}

section entries
variable {compare : V → V → Int} {o : CAvl P V} {t : AvlTree P} {node : P}

theorem compareEntries_eq (h : TotalComparison compare) (node1 node2 : P) :
    o.compareEntries compare node1 node2 = some (compare (o.value node1) (o.value node2)) := by
  refine if_pos ?_
  rcases h.range (o.value node1) (o.value node2) with h | h | h <;> omega

theorem root_ne_none (h : SearchTree compare o.mem o.value t) (hnode : node ∈ t.toList) : o.mem.root ≠ none := by
  intro hroot
  rw [AvlTree.root_eq_none (h.stores.around.symm.trans hroot)] at hnode
  cases hnode

end entries

variable [DecidableEq P]

inductive Op (P V : Type*) where
  | insert (node : P)
  | remove (node : P)
  | getFirst
  | getNext (node : P)
  | assign (value : P → V)

inductive Result (P : Type*) where
  /-- `Insert` returns 1. -/
  | added
  /-- It returns 0, with the reference to an equal entry. -/
  | existing (c : Option P)
  | removed
  /-- What `GetFirst` and `GetNext` return. -/
  | ref (c : Option P)
  | assigned

/-! ### The tree -/

def step (compare : V → V → Int) (fuel : Nat) (o : CAvl P V) : Op P V → Option (CAvl P V × Result P)
  | .insert node => (insert compare fuel o node).map fun (o, added, ref) => (o, if added then .added else .existing ref)
  | .remove node => (remove fuel o node).map (·, .removed)
  | .getFirst => (getFirst fuel o).map fun c => (o, .ref c)
  | .getNext node => (getNext fuel o node).map fun c => (o, .ref c)
  | .assign value => some ({o with value := value}, .assigned)

def run (compare : V → V → Int) (fuel : Nat) (o : CAvl P V) : List (Op P V) → Option (CAvl P V × List (Result P))
  | [] => some (o, [])
  | op :: ops => (step compare fuel o op).bind fun (o, result) => (run compare fuel o ops).map fun r => (r.1, result :: r.2)

/-- `GetNext`, so often. -/
def walk (fuel : Nat) (o : CAvl P V) : Nat → Option P → Option (List P)
  | _, none => some []
  | 0, some _ => none
  | n + 1, some node => (getNext fuel o node).bind fun next => (walk fuel o n next).map (node :: ·)

/-- All entries, from `GetFirst` on. -/
def enumerate (fuel : Nat) (o : CAvl P V) : Option (List P) := (getFirst fuel o).bind (walk fuel o fuel)

/-! ### The set -/

variable (compare : V → V → Int)

/-- What the client may do. -/
def Permitted (S : KeyedSet P V) : Op P V → Prop
  | .remove node => node ∈ S.entries
  | .getNext node => node ∈ S.entries
  | .assign value => ∀ a ∈ S.entries, ∀ b ∈ S.entries, compare (value a) (value b) = compare (S.value a) (S.value b)
  | _ => True

/-- What an operation does with the set, and its result. -/
inductive SetStep (S : KeyedSet P V) : Op P V → Result P → KeyedSet P V → Prop
  | added {node} : (∀ c ∈ S.entries, compare (S.value node) (S.value c) ≠ 0) →
      SetStep S (.insert node) .added {S with entries := Insert.insert node S.entries}
  | existing {node c} : c ∈ S.entries → compare (S.value node) (S.value c) = 0 → SetStep S (.insert node) (.existing (some c)) S
  | removed {node} : node ∈ S.entries → SetStep S (.remove node) .removed {S with entries := S.entries.erase node}
  | first {c} : c ∈ S.entries → (∀ d ∈ S.entries, compare (S.value c) (S.value d) ≤ 0) → SetStep S .getFirst (.ref (some c)) S
  | empty : S.entries = ∅ → SetStep S .getFirst (.ref none) S
  | next {node c} : c ∈ S.entries → compare (S.value node) (S.value c) < 0 →
      (∀ d ∈ S.entries, compare (S.value node) (S.value d) < 0 → compare (S.value c) (S.value d) ≤ 0) →
      SetStep S (.getNext node) (.ref (some c)) S
  | last {node} : (∀ d ∈ S.entries, ¬compare (S.value node) (S.value d) < 0) → SetStep S (.getNext node) (.ref none) S
  | assigned {value} : SetStep S (.assign value) .assigned {S with value := value}

inductive SetRun : KeyedSet P V → List (Op P V) → List (Result P) → KeyedSet P V → Prop
  | nil {S} : SetRun S [] [] S
  | cons {S S' S'' op ops result results} : SetStep compare S op result S' → SetRun S' ops results S'' →
      SetRun S (op :: ops) (result :: results) S''

/-- The client does only what it may, whatever the results are. -/
def AllPermitted (S : KeyedSet P V) : List (Op P V) → Prop
  | [] => True
  | op :: ops => Permitted compare S op ∧ ∀ result S', SetStep compare S op result S' → AllPermitted S' ops

/-- The tree is a search tree of the set. -/
def Holds (o : CAvl P V) (S : KeyedSet P V) : Prop :=
  ∃ t, SearchTree compare o.mem o.value t ∧ t.toList.toFinset = S.entries ∧ o.value = S.value

variable {compare} {fuel : Nat} {o : CAvl P V} {S S' : KeyedSet P V} {op : Op P V} {ops : List (Op P V)} {t : AvlTree P}
  {node : P}

theorem holds_init (mem : TreeMemory P) (value : P → V) : Holds compare (init mem value) ⟨∅, value⟩ := by
  refine ⟨.nil, .of_list ⟨trivial, rfl, ?_⟩ trivial .nil, rfl, rfl⟩
  simp [AvlTree.leftOf, AvlTree.rightOf, AvlTree.toList]

/-- The set grows by one entry at most. -/
theorem card_step {result : Result P} (h : SetStep compare S op result S') : S'.entries.card ≤ S.entries.card + 1 := by
  cases h with
  | added => exact Finset.card_insert_le ..
  | removed => exact (Finset.card_erase_le).trans (Nat.le_succ _)
  | _ => exact Nat.le_succ _

theorem getNext_eq (h : SearchTree compare o.mem o.value t) (hnode : node ∈ t.toList) :
    o.getNext fuel node = Avl.getNext o.mem fuel node := if_pos (root_ne_none h hnode)

/-- **An operation of the tree is the operation of the set.** -/
theorem step_refines (hcompare : TotalComparison compare) (h : Holds compare o S) (hop : Permitted compare S op)
    (hfuel : S.entries.card ≤ fuel) :
    ∃ o' result S', step compare fuel o op = some (o', result) ∧ SetStep compare S op result S' ∧ Holds compare o' S' := by
  obtain ⟨t, htree, hentries, hvalue⟩ := h
  have hmem : ∀ {q}, q ∈ t.toList ↔ q ∈ S.entries := fun {q} => by rw [← hentries, List.mem_toFinset]
  rw [htree.card_eq hentries] at hfuel
  cases op with
  | insert node =>
    rcases htree.insert routines_correct hcompare (fun q => compareEntries_eq hcompare node q) hfuel with
      ⟨c, hc, hequal, hrun⟩ | ⟨hnone, mem', t', ref, hrun, htree', hentries', -⟩
    · refine ⟨o, .existing (some c), S, ?_, .existing (hmem.mp hc) (hvalue ▸ hequal), t, htree, hentries, hvalue⟩
      rw [step, insert, hrun]
      rfl
    · refine ⟨{o with mem := mem'}, .added, _, ?_, .added fun c hc => hvalue ▸ hnone c (hmem.mpr hc), t', htree', ?_, hvalue⟩
      · rw [step, insert, hrun]
        rfl
      · rw [hentries', hentries]
  | remove node =>
    obtain ⟨mem', t', hrun, htree', -, hentries'⟩ := htree.remove routines_correct (hmem.mpr hop) hfuel
    refine ⟨{o with mem := mem'}, .removed, _, ?_, .removed hop, t', htree', ?_, hvalue⟩
    · rw [step, remove, if_pos (root_ne_none htree (hmem.mpr hop)), hrun]
      rfl
    · rw [hentries', hentries]
  | getFirst =>
    obtain ⟨hrun, hleast⟩ := htree.getFirst hcompare hfuel
    refine ⟨o, .ref t.toList.head?, S, ?_, ?_, t, htree, hentries, hvalue⟩
    · rw [step, getFirst, hrun]
      rfl
    · cases hhead : t.toList.head? with
      | none =>
        refine .empty ?_
        rw [← hentries, List.head?_eq_none_iff.mp hhead]
        rfl
      | some c =>
        rw [hvalue] at hleast
        exact .first (hmem.mp (List.mem_of_head? hhead)) fun d hd => hleast c hhead d (hmem.mpr hd)
  | getNext node =>
    obtain ⟨left, right, hlist⟩ := List.append_of_mem (hmem.mpr hop)
    obtain ⟨hrun, hgreater, hright, hleast⟩ := htree.getNext hcompare hlist hfuel
    refine ⟨o, .ref right.head?, S, ?_, ?_, t, htree, hentries, hvalue⟩
    · rw [step, getNext_eq htree (hmem.mpr hop), hrun]
      rfl
    · rw [hvalue] at hgreater hright hleast
      cases hhead : right.head? with
      | none =>
        refine .last fun d hd hlt => ?_
        have hd' := hright d (hmem.mpr hd) hlt
        rw [List.head?_eq_none_iff.mp hhead] at hd'
        cases hd'
      | some c =>
        have hc := List.mem_of_head? hhead
        refine .next (hmem.mp ?_) (hgreater c hc) fun d hd hlt => hleast c hhead d (hright d (hmem.mpr hd) hlt)
        rw [hlist]
        exact List.mem_append_right _ (List.mem_cons_of_mem _ hc)
  | assign value =>
    refine ⟨_, _, _, rfl, .assigned, t, htree.rewrite fun a ha b hb => ?_, hentries, rfl⟩
    rw [hvalue]
    exact hop a (hmem.mp ha) b (hmem.mp hb)

theorem run_refines (hcompare : TotalComparison compare) (h : Holds compare o S) (hops : AllPermitted compare S ops)
    (hfuel : S.entries.card + ops.length ≤ fuel) :
    ∃ o' results S', run compare fuel o ops = some (o', results) ∧ SetRun compare S ops results S' ∧ Holds compare o' S' ∧
      S'.entries.card ≤ fuel := by
  induction ops generalizing o S with
  | nil => exact ⟨o, [], S, rfl, .nil, h, hfuel⟩
  | cons op ops ih =>
    rw [List.length_cons] at hfuel
    have hentries : S.entries.card ≤ fuel := by omega
    obtain ⟨o', result, S', hstep, hset, h'⟩ := step_refines hcompare h hops.1 hentries
    have hcard := card_step hset
    obtain ⟨o'', results, S'', hrun, hsets, h''⟩ := ih h' (hops.2 result S' hset) (by omega)
    refine ⟨o'', result :: results, S'', ?_, .cons hset hsets, h''⟩
    rw [run, hstep, Option.bind_some]
    dsimp only
    rw [hrun]
    rfl

/-- The walk from an entry on goes through the greater ones in their order. -/
theorem walk_eq (h : SearchTree compare o.mem o.value t) (hcompare : TotalComparison compare) (hfuel : t.toList.length ≤ fuel)
    {left right : List P} (hlist : t.toList = left ++ right) {n : Nat} (hn : right.length ≤ n) :
    walk fuel o n right.head? = some right := by
  induction right generalizing left n with
  | nil => cases n <;> rfl
  | cons node right ih =>
    obtain ⟨n, rfl⟩ : ∃ k, n = k + 1 := Nat.exists_eq_add_one.mpr (Nat.zero_lt_of_lt hn)
    have hnode : node ∈ t.toList := hlist ▸ List.mem_append_right _ (List.mem_cons_self ..)
    have hrest : t.toList = (left ++ [node]) ++ right := by rw [hlist, List.append_assoc, List.singleton_append]
    rw [List.head?_cons, walk, getNext_eq h hnode, (h.getNext hcompare hlist hfuel).1, Option.bind_some,
      ih hrest (Nat.le_of_succ_le_succ hn)]
    rfl

theorem enumerate_eq (h : SearchTree compare o.mem o.value t) (hcompare : TotalComparison compare) (hfuel : t.toList.length ≤ fuel) :
    enumerate fuel o = some t.toList := by
  rw [enumerate, getFirst, (h.getFirst hcompare hfuel).1, Option.bind_some]
  exact walk_eq h hcompare hfuel (List.nil_append _).symm hfuel

/-- Where there is an equal entry, `Insert` changes nothing. -/
theorem insert_unchanged {o' : CAvl P V} {c : Option P} (h : insert compare fuel o node = some (o', false, c)) : o' = o := by
  obtain ⟨⟨mem, added, ref⟩, hrun, heq⟩ := Option.map_eq_some_iff.mp h
  cases heq
  rw [Avl.insert_false hrun]

/-! ### The trees of the queued flows and of the running timers -/

/-- `compare_flows`, by the times and the addresses. -/
def flowOrder (f1 f2 : UInt64 × Nat) : Int :=
  let cmp := bCompare f1.1.toNat f2.1.toNat
  if cmp ≠ 0 then cmp else bCompare f1.2 f2.2

/-- `compare_timers`, by the times and the addresses. -/
def timerOrder (t1 t2 : Int × Nat) : Int :=
  let cmp := bCompareTime t1.1 t2.1
  if cmp ≠ 0 then cmp else bComparePtr t1.2 t2.2

theorem flowOrder_total : TotalComparison flowOrder :=
  .andThen (TotalComparison.ofLinearOrder.comap fun f : UInt64 × Nat => f.1.toNat) (TotalComparison.ofLinearOrder.comap Prod.snd)

theorem timerOrder_total : TotalComparison timerOrder :=
  .andThen (TotalComparison.ofLinearOrder.comap Prod.fst) (TotalComparison.ofLinearOrder.comap Prod.snd)

/-- An insertion into the tree is the insertion into the list of its nodes. -/
theorem insert_list (node : P) (h : SearchTree compare o.mem o.value t) (hcompare : TotalComparison compare)
    (hfuel : t.toList.length ≤ fuel) :
    match OrderedTree.insert (fun a b => compare (o.value a) (o.value b)) node t.toList with
    | some l => ∃ mem t' ref, insert compare fuel o node = some ({o with mem := mem}, true, ref) ∧
        SearchTree compare mem o.value t' ∧ t'.toList = l
    | none => ∃ c, insert compare fuel o node = some (o, false, some c) := by
  rcases h.insert routines_correct hcompare (fun q => compareEntries_eq hcompare node q) hfuel with
    ⟨c, hc, hequal, hrun⟩ | ⟨-, mem', t', ref, hrun, htree', -, hlist⟩
  · obtain ⟨left, right, hlist⟩ := List.append_of_mem hc
    have hsorted := h.sorted
    rw [hlist, List.pairwise_append] at hsorted
    have hleft : ∀ x ∈ left, 0 < compare (o.value node) (o.value x) := by
      intro x hx
      rw [hcompare.congr hequal, hcompare.antisymm]
      have := hsorted.2.2 x hx c (List.mem_cons_self ..)
      omega
    have hnone : OrderedTree.insert (fun a b => compare (o.value a) (o.value b)) node (left ++ c :: right) = none :=
      OrderedTree.insert_equal hleft hequal
    rw [hlist, hnone]
    exact ⟨c, by rw [insert, hrun]; rfl⟩
  · rw [hlist]
    exact ⟨mem', t', ref, by rw [insert, hrun]; rfl, htree', rfl⟩

/-- The list of the queued flows is that of a tree of them. -/
theorem queuedTree_insert {m : PacketPassFairQueue} {mem : TreeMemory Nat} {t : AvlTree Nat} {flow : Nat} {l : List Nat}
    (h : SearchTree flowOrder mem (fun f => ((m.flow f).time, f)) t) (ht : t.toList = m.queuedTree) (hfuel : t.toList.length ≤ fuel)
    (hinsert : OrderedTree.insert m.compareFlows flow m.queuedTree = some l) :
    ∃ mem' t' ref, insert flowOrder fuel ⟨mem, fun f => ((m.flow f).time, f)⟩ flow =
        some (⟨mem', fun f => ((m.flow f).time, f)⟩, true, ref) ∧
      SearchTree flowOrder mem' (fun f => ((m.flow f).time, f)) t' ∧ t'.toList = l := by
  have hlist := insert_list (o := ⟨mem, fun f => ((m.flow f).time, f)⟩) flow h flowOrder_total hfuel
  rw [ht] at hlist
  change OrderedTree.insert (fun a b => flowOrder ((m.flow a).time, a) ((m.flow b).time, b)) flow m.queuedTree = some l at hinsert
  rw [hinsert] at hlist
  exact hlist

/-- So is that of the running timers. -/
theorem timersTree_insert {s : BReactor} {mem : TreeMemory Nat} {t : AvlTree Nat} {timer : Nat} {l : List Nat}
    (h : SearchTree timerOrder mem (fun t => ((s.timers t).absTime, t)) t) (ht : t.toList = s.timersTree)
    (hfuel : t.toList.length ≤ fuel) (hinsert : s.treeInsert timer s.timersTree = some l) :
    ∃ mem' t' ref, insert timerOrder fuel ⟨mem, fun t => ((s.timers t).absTime, t)⟩ timer =
        some (⟨mem', fun t => ((s.timers t).absTime, t)⟩, true, ref) ∧
      SearchTree timerOrder mem' (fun t => ((s.timers t).absTime, t)) t' ∧ t'.toList = l := by
  have hlist := insert_list (o := ⟨mem, fun t => ((s.timers t).absTime, t)⟩) timer h timerOrder_total hfuel
  rw [treeInsert_eq] at hinsert
  rw [ht] at hlist
  change OrderedTree.insert (fun a b => timerOrder ((s.timers a).absTime, a) ((s.timers b).absTime, b)) timer s.timersTree = some l
    at hinsert
  rw [hinsert] at hlist
  exact hlist

/-! ### Implementation -/

/-- Whatever the client does, the tree is the ordered set of its entries, and a search tree that is balanced and linked. -/
def ImplementsOrderedSet (P : Type*) [DecidableEq P] (compare : V → V → Int) : Prop :=
  ∀ (mem : TreeMemory P) (value : P → V) (ops : List (Op P V)) (fuel : Nat), AllPermitted compare ⟨∅, value⟩ ops →
    ops.length ≤ fuel →
    ∃ o results S l, run compare fuel (init mem value) ops = some (o, results) ∧ SetRun compare ⟨∅, value⟩ ops results S ∧
      (∃ t, SearchTree compare o.mem o.value t ∧ t.toList.toFinset = S.entries ∧ o.value = S.value) ∧
      (∀ node o' c, insert compare fuel o node = some (o', false, c) → o' = o) ∧
      enumerate fuel o = some l ∧ l.Pairwise (fun a b => compare (S.value a) (S.value b) < 0) ∧ l.toFinset = S.entries

theorem implements_of_total (hcompare : TotalComparison compare) : ImplementsOrderedSet P compare := by
  intro mem value ops fuel hops hfuel
  obtain ⟨o, results, S, hrun, hset, hholds, hcard⟩ := run_refines hcompare (holds_init mem value) hops (by simpa using hfuel)
  have ⟨t, htree, hentries, hvalue⟩ := hholds
  refine ⟨o, results, S, t.toList, hrun, hset, hholds, fun _ _ _ => insert_unchanged, ?_, ?_, hentries⟩
  · exact enumerate_eq htree hcompare (htree.card_eq hentries ▸ hcard)
  · rw [← hvalue]
    exact htree.sorted

/-- **A tree implements the ordered set of its entries**, and so do those of the flows and of the timers. -/
theorem implements_ordered_set (hcompare : TotalComparison compare) :
    ImplementsOrderedSet P compare ∧ ImplementsOrderedSet Nat flowOrder ∧ ImplementsOrderedSet Nat timerOrder :=
  ⟨implements_of_total hcompare, implements_of_total flowOrder_total, implements_of_total timerOrder_total⟩

/-- For instance, numbers in their order, where the root is removed. -/
theorem implements_ordered_set_removed :
    ∃ o results S l, run bCompare 4 (init (⟨none, fun _ => none, fun _ _ => none, fun _ => 0⟩ : TreeMemory Nat) id)
        [.insert 5, .insert 3, .remove 5, .getFirst] = some (o, results) ∧
      SetRun bCompare ⟨∅, id⟩ [.insert 5, .insert 3, .remove 5, .getFirst] results S ∧
      (∃ t, SearchTree bCompare o.mem o.value t ∧ t.toList.toFinset = S.entries ∧ o.value = S.value) ∧
      (∀ node o' c, insert bCompare 4 o node = some (o', false, c) → o' = o) ∧
      enumerate 4 o = some l ∧ l.Pairwise (fun a b => bCompare (S.value a) (S.value b) < 0) ∧ l.toFinset = S.entries := by
  refine (implements_ordered_set TotalComparison.ofLinearOrder).1 _ id _ 4 ⟨trivial, fun _ _ h => ⟨trivial, fun _ _ h' => ⟨?_, ?_⟩⟩⟩
    (le_refl 4)
  · cases h with
    | existing hc => exact absurd hc (Finset.notMem_empty _)
    | added =>
      cases h' with
      | existing => exact Finset.mem_insert_self ..
      | added => exact Finset.mem_insert_of_mem (Finset.mem_insert_self ..)
  · exact fun _ _ _ => ⟨trivial, fun _ _ _ => trivial⟩

end TwilightLine.CAvl
