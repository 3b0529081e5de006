import Mathlib.Data.List.Basic
import Mathlib.Order.Basic

/-! Search trees, as the lists of their elements.

A tree keeps its elements in the order of a comparison function, and its insertion fails
where an equal element is there already. When the comparison goes by a key first
(`Compares`), an element that is not in the tree is inserted, and the keys stay in
order (`insert_spec`), so that the first element has the least key. -/
namespace TwilightLine.OrderedTree

variable {α β : Type*}

/-- Insertion; it fails if an equal element is there. -/
def insert (cmp : α → α → Int) (a : α) : List α → Option (List α)
  | [] => some [a]
  | b :: rest =>
    if cmp a b < 0 then some (a :: b :: rest)
    else if cmp a b = 0 then none
    else (insert cmp a rest).map (b :: ·)

variable [Preorder β]

/-- The comparison goes by the key, and tells all elements apart. -/
structure Compares (cmp : α → α → Int) (key : α → β) : Prop where
  lt : ∀ {a b}, cmp a b < 0 → key a ≤ key b
  ge : ∀ {a b}, ¬cmp a b < 0 → key b ≤ key a
  eq : ∀ {a b}, cmp a b = 0 → a = b

/-- Keys are compared first, and elements with the same key in another way. -/
theorem Compares.byKey {c : β → β → Int} {d : α → α → Int} (hc : Compares c id) (hd : ∀ {a b}, d a b = 0 → a = b)
    (key : α → β) : Compares (fun a b => if c (key a) (key b) ≠ 0 then c (key a) (key b) else d a b) key where
  lt {a b} h := by
    split at h
    · exact hc.lt h
    · next heq => exact (hc.eq (not_not.mp heq)).le
  ge {a b} h := by
    split at h
    · exact hc.ge h
    · next heq => exact (hc.eq (not_not.mp heq)).ge
  eq {a b} h := by
    split at h
    · next hne => exact absurd h hne
    · exact hd h

/-- The keys of the elements are in order. -/
abbrev Ordered (key : α → β) (l : List α) : Prop := l.Pairwise fun a b => key a ≤ key b

variable {cmp : α → α → Int} {key : α → β} {a b : α} {l : List α}

/-- An element that is not in the tree is inserted at its place. -/
theorem insert_spec (hcmp : Compares cmp key) (ha : a ∉ l) (hl : Ordered key l) :
    ∃ l', insert cmp a l = some l' ∧ l'.Perm (a :: l) ∧ Ordered key l' := by
  induction l with
  | nil => exact ⟨[a], rfl, .refl _, List.pairwise_singleton ..⟩
  | cons b rest ih =>
    rw [List.mem_cons, not_or] at ha
    obtain ⟨hb, hrest⟩ := List.pairwise_cons.mp hl
    unfold insert
    by_cases hlt : cmp a b < 0
    · rw [if_pos hlt]
      refine ⟨_, rfl, .refl _, List.pairwise_cons.mpr ⟨?_, hl⟩⟩
      intro c hc
      rcases List.mem_cons.mp hc with rfl | hc
      · exact hcmp.lt hlt
      · exact (hcmp.lt hlt).trans (hb c hc)
    · obtain ⟨l', hl', hperm, hordered⟩ := ih ha.2 hrest
      rw [if_neg hlt, if_neg (fun h => ha.1 (hcmp.eq h)), hl']
      refine ⟨b :: l', rfl, (hperm.cons b).trans (.swap a b rest), List.pairwise_cons.mpr ⟨?_, hordered⟩⟩
      intro c hc
      rcases List.mem_cons.mp (hperm.mem_iff.mp hc) with rfl | hc
      · exact hcmp.ge hlt
      · exact hb c hc

/-- The first element has the least key. -/
theorem Ordered.first_le (h : Ordered key (a :: l)) (hb : b ∈ a :: l) : key a ≤ key b := by
  rcases List.mem_cons.mp hb with rfl | hb
  · exact le_refl _
  · exact List.rel_of_pairwise_cons h hb

/-- The order depends on the keys of the elements only. -/
theorem Ordered.congr {key' : α → β} (h : Ordered key l)
    (hkey : ∀ a ∈ l, ∀ b ∈ l, key a ≤ key b → key' a ≤ key' b) : Ordered key' l :=
  h.imp_of_mem fun ha hb hle => hkey _ ha _ hb hle

end TwilightLine.OrderedTree
