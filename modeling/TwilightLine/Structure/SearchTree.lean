import TwilightLine.Lib.TotalComparison
import TwilightLine.Structure.AvlOperations
import Mathlib.Data.Finset.Basic
import Mathlib.Data.Finset.Card

/-! Search trees in memory, and the sets that they hold.

The nodes of a `SearchTree` are in the order of their values. What an operation does with the
list of them is what it does with the set of them (`KeyedSet`), for any comparison that is
total. -/
namespace TwilightLine

open AvlTree TreeMemory

variable {P V : Type*}

/-- A finite set of entries, which are ordered by their values. -/
structure KeyedSet (P V : Type*) where
  entries : Finset P
  value : P → V

/-- The memory holds a search tree of the values, with the balances and the links of an AVL tree. -/
structure SearchTree (compare : V → V → Int) (m : TreeMemory P) (value : P → V) (t : AvlTree P) : Prop where
  stores : Stores m t
  avl : t.Avl
  linked : Linked m t.toList
  sorted : t.toList.Pairwise fun a b => compare (value a) (value b) < 0

namespace SearchTree
variable {compare : V → V → Int} {m : TreeMemory P} {value : P → V} {t : AvlTree P} {node p : P} {fuel : Nat} {v : V}
  {comp : P → Option Int}

theorem of_list (hstores : Stores m t) (havl : t.Avl) (hsorted : t.toList.Pairwise fun a b => compare (value a) (value b) < 0) :
    SearchTree compare m value t := ⟨hstores, havl, hstores.linked, hsorted⟩

theorem nodup (h : SearchTree compare m value t) : t.toList.Nodup := by
  have hnodup := h.stores.nodup
  rwa [leftOf, rightOf, List.nil_append, List.append_nil] at hnodup

theorem card_eq [DecidableEq P] (h : SearchTree compare m value t) {entries : Finset P} (hentries : t.toList.toFinset = entries) :
    entries.card = t.toList.length := by
  rw [← hentries, List.toFinset_card_of_nodup h.nodup]

/-- Other values that compare alike are as good. -/
theorem rewrite (h : SearchTree compare m value t) {value' : P → V}
    (hvalue : ∀ a ∈ t.toList, ∀ b ∈ t.toList, compare (value' a) (value' b) = compare (value a) (value b)) :
    SearchTree compare m value' t :=
  ⟨h.stores, h.avl, h.linked, h.sorted.imp_of_mem fun ha hb hab => (hvalue _ ha _ hb).trans_lt hab⟩

/-- Any value is a probe. -/
theorem probe (h : SearchTree compare m value t) (hcompare : TotalComparison compare) (v : V) :
    Avl.Probe (fun q => compare v (value q)) t.toList := by
  refine h.sorted.imp fun {a b} hab => ⟨fun hle => hcompare.lt_of_le_of_lt hle hab, fun hge => ?_⟩
  by_contra hnot
  exact absurd (hcompare.lt_of_le_of_lt (not_lt.mp hnot) hab) (not_lt.mpr hge)

/-- The comparisons with the nodes. -/
theorem compares (hcompare : TotalComparison compare) (hcomp : ∀ q, comp q = some (compare v (value q))) :
    ∀ q ∈ t.toList, comp q = some (compare v (value q)) ∧
      (compare v (value q) = -1 ∨ compare v (value q) = 0 ∨ compare v (value q) = 1) :=
  fun q _ => ⟨hcomp q, hcompare.range ..⟩

theorem lookupExact (h : SearchTree compare m value t) (hcompare : TotalComparison compare)
    (hcomp : ∀ q, comp q = some (compare v (value q))) (hfuel : t.toList.length ≤ fuel) :
    (∃ q ∈ t.toList, compare v (value q) = 0 ∧ Avl.lookupExact m comp fuel = some (some q)) ∨
      (∀ q ∈ t.toList, compare v (value q) ≠ 0) ∧ Avl.lookupExact m comp fuel = some none :=
  Avl.lookupExact_spec h.stores (h.probe hcompare v) (compares hcompare hcomp) hfuel

/-- `GetFirst` gives the least entry. -/
theorem getFirst (h : SearchTree compare m value t) (hcompare : TotalComparison compare) (hfuel : t.toList.length ≤ fuel) :
    Avl.getFirst m fuel = some t.toList.head? ∧
      ∀ c, t.toList.head? = some c → ∀ d ∈ t.toList, compare (value c) (value d) ≤ 0 := by
  refine ⟨Avl.getFirst_spec h.stores hfuel, fun c hc d hd => ?_⟩
  obtain ⟨rest, hrest⟩ := List.head?_eq_some_iff.mp hc
  have hsorted := h.sorted
  rw [hrest] at hsorted hd
  rcases List.mem_cons.mp hd with rfl | hd
  · exact Int.le_of_eq (hcompare.refl _)
  · exact ((List.pairwise_cons.mp hsorted).1 d hd).le

variable [DecidableEq P] {R : AvlRoutines P}

/-- `GetNext` gives the least of the greater entries. -/
theorem getNext (h : SearchTree compare m value t) (hcompare : TotalComparison compare) {left right : List P}
    (hlist : t.toList = left ++ p :: right) (hfuel : t.toList.length ≤ fuel) :
    Avl.getNext m fuel p = some right.head? ∧ (∀ c ∈ right, compare (value p) (value c) < 0) ∧
      (∀ d ∈ t.toList, compare (value p) (value d) < 0 → d ∈ right) ∧
      ∀ c, right.head? = some c → ∀ d ∈ right, compare (value c) (value d) ≤ 0 := by
  have hsorted := h.sorted
  rw [hlist, List.pairwise_append, List.pairwise_cons] at hsorted
  obtain ⟨-, ⟨hgreater, hright⟩, hless⟩ := hsorted
  refine ⟨Avl.getNext_spec h.stores hlist hfuel, hgreater, fun d hd hlt => ?_, fun c hc d hd => ?_⟩
  · rw [hlist] at hd
    rcases List.mem_append.mp hd with hd | hd
    · have := hless d hd p (List.mem_cons_self ..)
      rw [hcompare.antisymm] at this
      omega
    · rcases List.mem_cons.mp hd with rfl | hd
      · have := hcompare.refl (value d)
        omega
      · exact hd
  · obtain ⟨rest, rfl⟩ := List.head?_eq_some_iff.mp hc
    rcases List.mem_cons.mp hd with rfl | hd
    · exact Int.le_of_eq (hcompare.refl _)
    · exact ((List.pairwise_cons.mp hright).1 d hd).le

/-- **Insertion.** -/
theorem insert (h : SearchTree compare m value t) (hR : R.Correct) (hcompare : TotalComparison compare)
    (hcomp : ∀ q, comp q = some (compare (value node) (value q))) (hfuel : t.toList.length ≤ fuel) :
    (∃ q ∈ t.toList, compare (value node) (value q) = 0 ∧ Avl.insert R fuel m comp node = some (m, false, some q)) ∨
      (∀ q ∈ t.toList, compare (value node) (value q) ≠ 0) ∧ ∃ m' t' ref, Avl.insert R fuel m comp node = some (m', true, ref) ∧
        SearchTree compare m' value t' ∧ t'.toList.toFinset = Insert.insert node t.toList.toFinset ∧
        OrderedTree.insert (fun a b => compare (value a) (value b)) node t.toList = some t'.toList := by
  rcases Avl.insert_spec hR h.stores h.avl (h.probe hcompare (value node)) (compares hcompare hcomp)
    (fun _ => hcompare.refl _) hfuel with hfound | ⟨m', t', left, right, ref, hrun, hstores, havl, hold, hnew, hleft, hright⟩
  · exact .inl hfound
  · refine .inr ⟨fun q hq => ?_, m', t', ref, hrun, of_list hstores havl ?_, ?_, ?_⟩
    · rw [hold] at hq
      rcases List.mem_append.mp hq with hl | hr
      · have := hleft q hl
        omega
      · have := hright q hr
        omega
    · have hsorted := h.sorted
      rw [hold, List.pairwise_append] at hsorted
      obtain ⟨hl, hr, hlr⟩ := hsorted
      rw [hnew, List.pairwise_append, List.pairwise_cons]
      refine ⟨hl, ⟨hright, hr⟩, fun a ha b hb => ?_⟩
      rcases List.mem_cons.mp hb with rfl | hb
      · rw [hcompare.antisymm]
        have := hleft a ha
        omega
      · exact hlr a ha b hb
    · rw [hold, hnew]
      ext q
      simp only [List.toFinset_append, List.toFinset_cons, Finset.mem_union, Finset.mem_insert]
      tauto
    · rw [hold, hnew]
      exact OrderedTree.insert_between hleft hright

/-- **Removal.** -/
theorem remove (h : SearchTree compare m value t) (hR : R.Correct) (hp : p ∈ t.toList) (hfuel : t.toList.length ≤ fuel) :
    ∃ m' t', Avl.remove R fuel m p = some m' ∧ SearchTree compare m' value t' ∧ t'.toList = t.toList.erase p ∧
      t'.toList.toFinset = t.toList.toFinset.erase p := by
  obtain ⟨m', t', left, right, hrun, hstores, havl, hold, hnew⟩ := Avl.remove_spec hR h.stores h.avl hp hfuel
  have hnodup := h.nodup
  have hlist : t'.toList = t.toList.erase p := by
    rw [hold] at hnodup ⊢
    have hnot := (List.nodup_cons.mp (List.nodup_middle.mp hnodup)).1
    rw [hnew, List.erase_append_right _ fun hl => hnot (List.mem_append_left _ hl), List.erase_cons_head]
  refine ⟨m', t', hrun, of_list hstores havl ?_, hlist, ?_⟩
  · rw [hlist]
    exact h.sorted.sublist List.erase_sublist
  · rw [hlist]
    ext q
    rw [List.mem_toFinset, hnodup.mem_erase_iff, Finset.mem_erase, List.mem_toFinset]

end SearchTree

end TwilightLine
