import Mathlib.Data.Nat.Basic
import Mathlib.Data.Int.Basic
import Mathlib.Tactic.Linarith

/-! `misc/bsize.h`: sizes that remember whether a computation overflowed.

`BSize.Is` says what a size stands for: the exact number, as long as it is a `size_t`. -/
namespace TwilightLine

/-- `SIZE_MAX`. -/
def sizeMax : Nat := 2 ^ 64 - 1

/-- `bsize_t`. -/
structure BSize where
  isOverflow : Bool
  value : Nat
  deriving DecidableEq, Repr

namespace BSize

/-- `bsize_fromsize`. -/
def ofSize (v : Nat) : BSize := ⟨false, v⟩

/-- `bsize_fromint`. -/
def ofInt (v : Int) : BSize := ⟨v < 0 ∨ v > sizeMax, (v % 2 ^ 64).toNat⟩

/-- `bsize_toint`, with `INT_MAX`. -/
def toInt (s : BSize) : Option Int := if s.isOverflow ∨ s.value > 2 ^ 31 - 1 then none else some s.value

/-- `bsize_add`. -/
def add (s1 s2 : BSize) : BSize :=
  ⟨s1.isOverflow || s2.isOverflow || s2.value > sizeMax - s1.value, (s1.value + s2.value) % 2 ^ 64⟩

/-- `bsize_max`. -/
def max (s1 s2 : BSize) : BSize :=
  ⟨s1.isOverflow || s2.isOverflow, if s1.value > s2.value then s1.value else s2.value⟩

/-- The size stands for a number: it overflowed exactly where that is no `size_t`. -/
structure Is (s : BSize) (n : Nat) : Prop where
  overflow : s.isOverflow = true ↔ sizeMax < n
  value : n ≤ sizeMax → s.value = n

variable {s1 s2 : BSize} {n1 n2 : Nat}

theorem is_ofSize (h : n1 ≤ sizeMax) : Is (ofSize n1) n1 := ⟨by simp [ofSize, h], fun _ => rfl⟩

theorem is_ofInt (n : Nat) : Is (ofInt n) n where
  overflow := by
    show decide ((n : Int) < 0 ∨ (n : Int) > sizeMax) = true ↔ sizeMax < n
    rw [decide_eq_true_eq]
    omega
  value := by
    intro hle
    unfold sizeMax at hle
    show ((n : Int) % 2 ^ 64).toNat = n
    omega

theorem Is.add (h1 : Is s1 n1) (h2 : Is s2 n2) : Is (s1.add s2) (n1 + n2) := by
  have hover : (s1.add s2).isOverflow = true ↔
      s1.isOverflow = true ∨ s2.isOverflow = true ∨ s2.value > sizeMax - s1.value := by
    simp [BSize.add, or_assoc]
  by_cases hs : n1 ≤ sizeMax ∧ n2 ≤ sizeMax
  · have hv1 := h1.value hs.1
    have hv2 := h2.value hs.2
    refine ⟨?_, fun hle => ?_⟩
    · rw [hover, h1.overflow, h2.overflow, hv1, hv2]
      omega
    · show (s1.value + s2.value) % 2 ^ 64 = n1 + n2
      unfold sizeMax at hle
      rw [hv1, hv2]
      omega
  · refine ⟨?_, fun hle => by omega⟩
    rw [hover, h1.overflow, h2.overflow]
    omega

theorem Is.max (h1 : Is s1 n1) (h2 : Is s2 n2) : Is (s1.max s2) (Max.max n1 n2) where
  overflow := by
    show (s1.isOverflow || s2.isOverflow) = true ↔ _
    rw [Bool.or_eq_true, h1.overflow, h2.overflow]
    omega
  value := by
    intro hle
    show (if s1.value > s2.value then s1.value else s2.value) = _
    rw [h1.value (by omega), h2.value (by omega)]
    split <;> omega

/-- The `int` is the number, where that is one. -/
theorem Is.toInt (h : Is s1 n1) : s1.toInt = if n1 ≤ 2 ^ 31 - 1 then some (n1 : Int) else none := by
  unfold BSize.toInt
  by_cases hle : n1 ≤ sizeMax
  · have hfits : ¬s1.isOverflow = true := by
      rw [h.overflow]
      omega
    rw [h.value hle]
    by_cases hint : n1 ≤ 2 ^ 31 - 1
    · rw [if_pos hint, if_neg]
      rintro (hover | hgt)
      · exact hfits hover
      · omega
    · rw [if_neg hint, if_pos]
      right
      omega
  · rw [if_pos (Or.inl (h.overflow.mpr (by omega))), if_neg]
    unfold sizeMax at hle
    omega

end BSize

end TwilightLine
