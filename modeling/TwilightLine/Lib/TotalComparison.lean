import TwilightLine.Lib.OrderedTree
import Mathlib.Order.Defs.LinearOrder
import Mathlib.Order.Basic
import Mathlib.Tactic.SplitIfs
import Mathlib.Tactic.Linarith

/-! Comparison functions, with the results `-1`, `0` and `1`.

A comparison is total where it orders all values up to those that it takes to be equal
(`TotalComparison`). So does what compares by a key (`comap`), or in another way where the first
finds no difference (`andThen`). -/
namespace TwilightLine

/-- The comparison is a total order. -/
structure TotalComparison {V : Type*} (compare : V → V → Int) : Prop where
  range : ∀ a b, compare a b = -1 ∨ compare a b = 0 ∨ compare a b = 1
  antisymm : ∀ a b, compare b a = -compare a b
  trans : ∀ {a b c}, compare a b ≤ 0 → compare b c ≤ 0 → compare a c ≤ 0

/-- The comparison of a linear order. -/
theorem TotalComparison.ofLinearOrder {V : Type*} [LinearOrder V] :
    TotalComparison fun a b : V => (if a > b then (1 : Int) else 0) - (if a < b then 1 else 0) where
  range a b := by
    rcases lt_trichotomy a b with h | rfl | h
    · exact .inl (by simp [h, h.not_gt])
    · exact .inr (.inl (by simp))
    · exact .inr (.inr (by simp [h, h.not_gt]))
  antisymm a b := by
    rcases lt_trichotomy a b with h | rfl | h
    · simp [h, h.not_gt]
    · simp
    · simp [h, h.not_gt]
  trans {a b c} hab hbc := by
    have hle : ∀ {x y : V}, (if x > y then (1 : Int) else 0) - (if x < y then 1 else 0) ≤ 0 ↔ x ≤ y := by
      intro x y
      rcases lt_trichotomy x y with h | rfl | h
      · simp [h, h.not_gt, h.le]
      · simp
      · simp [h, h.not_gt]
    exact hle.mpr ((hle.mp hab).trans (hle.mp hbc))

namespace TotalComparison
variable {V W : Type*} {compare c d : V → V → Int} {x y z : V}

theorem refl (h : TotalComparison compare) (x : V) : compare x x = 0 := by
  have := h.antisymm x x
  omega

theorem lt_of_le_of_lt (h : TotalComparison compare) (hxy : compare x y ≤ 0) (hyz : compare y z < 0) : compare x z < 0 := by
  by_contra hnot
  have hzx : compare z x ≤ 0 := by
    rw [h.antisymm]
    omega
  have hzy := h.trans hzx hxy
  rw [h.antisymm] at hzy
  omega

theorem lt_of_lt_of_le (h : TotalComparison compare) (hxy : compare x y < 0) (hyz : compare y z ≤ 0) : compare x z < 0 := by
  by_contra hnot
  have hzx : compare z x ≤ 0 := by
    rw [h.antisymm]
    omega
  have hyx := h.trans hyz hzx
  rw [h.antisymm] at hyx
  omega

/-- Equal values compare alike. -/
theorem congr (h : TotalComparison compare) (hxy : compare x y = 0) (z : V) : compare x z = compare y z := by
  have hyx : compare y x = 0 := by
    rw [h.antisymm, hxy]
    rfl
  rcases h.range x z with hxz | hxz | hxz
  · have := h.lt_of_le_of_lt (x := y) (Int.le_of_eq hyx) (show compare x z < 0 by omega)
    rcases h.range y z with h' | h' | h' <;> omega
  · have h1 := h.trans (Int.le_of_eq hyx) (show compare x z ≤ 0 by omega)
    have h2 : compare z y ≤ 0 := h.trans (by rw [h.antisymm]; omega) (Int.le_of_eq hxy)
    rw [h.antisymm] at h2
    omega
  · have h2 : compare z y < 0 := h.lt_of_lt_of_le (by rw [h.antisymm]; omega) (Int.le_of_eq hxy)
    rw [h.antisymm] at h2
    rcases h.range y z with h' | h' | h' <;> omega

/-- Comparison by a key. -/
theorem comap (h : TotalComparison compare) (key : W → V) : TotalComparison fun a b => compare (key a) (key b) where
  range _ _ := h.range ..
  antisymm _ _ := h.antisymm ..
  trans := h.trans

/-- A second comparison, where the first finds no difference. -/
theorem andThen (hc : TotalComparison c) (hd : TotalComparison d) :
    TotalComparison fun a b => if c a b ≠ 0 then c a b else d a b where
  range a b := by
    split
    · exact hc.range a b
    · exact hd.range a b
  antisymm a b := by
    have hc := hc.antisymm a b
    have hd := hd.antisymm a b
    split_ifs <;> omega
  trans {x y z} hxy hyz := by
    have hle : c x y ≤ 0 ∧ c y z ≤ 0 := by
      constructor
      · split at hxy <;> omega
      · split at hyz <;> omega
    have hxz := hc.trans hle.1 hle.2
    by_cases hzero : c x z = 0
    · have hxy0 : c x y = 0 := by
        by_contra hne
        have := hc.lt_of_lt_of_le (show c x y < 0 by omega) hle.2
        omega
      have hyz0 : c y z = 0 := by
        by_contra hne
        have := hc.lt_of_le_of_lt hle.1 (show c y z < 0 by omega)
        omega
      rw [if_neg (not_not.mpr hxy0)] at hxy
      rw [if_neg (not_not.mpr hyz0)] at hyz
      rw [if_neg (not_not.mpr hzero)]
      exact hd.trans hxy hyz
    · rw [if_pos hzero]
      exact hxz

end TotalComparison

namespace OrderedTree
variable {α : Type*} {cmp : α → α → Int} {a : α} {left right : List α}

/-- An element is inserted between the smaller and the greater ones. -/
theorem insert_between (hleft : ∀ x ∈ left, 0 < cmp a x) (hright : ∀ x ∈ right, cmp a x < 0) :
    insert cmp a (left ++ right) = some (left ++ a :: right) := by
  induction left with
  | nil =>
    cases right with
    | nil => rfl
    | cons b rest => exact if_pos (hright b (List.mem_cons_self ..))
  | cons b rest ih =>
    have hb := hleft b (List.mem_cons_self ..)
    rw [List.cons_append, insert, if_neg (by omega), if_neg (by omega), ih fun x hx => hleft x (List.mem_cons_of_mem _ hx)]
    rfl

/-- It is not where there is an equal one. -/
theorem insert_equal {b : α} (hleft : ∀ x ∈ left, 0 < cmp a x) (hb : cmp a b = 0) : insert cmp a (left ++ b :: right) = none := by
  induction left with
  | nil => exact (if_neg (by omega)).trans (if_pos hb)
  | cons c rest ih =>
    have hc := hleft c (List.mem_cons_self ..)
    rw [List.cons_append, insert, if_neg (by omega), if_neg (by omega), ih fun x hx => hleft x (List.mem_cons_of_mem _ hx)]
    rfl

end OrderedTree

end TwilightLine
