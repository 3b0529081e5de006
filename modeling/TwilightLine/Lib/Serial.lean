import Mathlib.Tactic.Linarith

/-! Serial numbers: positions in a stream of any length, counted modulo `2 ^ 32`.

`serial base n` is the number of position `n` when position 0 has the number `base`. Two
numbers are compared by the sign of their difference, as a signed word. The comparisons are
those of the positions as long as these are less than `2 ^ 31` apart. -/
namespace TwilightLine.Serial

/-- The number of position `n`. -/
def serial (base : UInt32) (n : Nat) : UInt32 := base + UInt32.ofNat n

variable {base : UInt32} {m n k : Nat}

/-- Less than half of the numbers lie between the positions. -/
def Near (m n : Nat) : Prop := m < n + 2 ^ 31 ∧ n < m + 2 ^ 31

theorem serial_zero : serial base 0 = base := UInt32.add_zero base

theorem serial_add : serial base (n + k) = serial base n + UInt32.ofNat k := by
  rw [serial, serial, UInt32.ofNat_add, UInt32.add_assoc]

theorem serial_sub (h : n ≤ m) : serial base m - serial base n = UInt32.ofNat (m - n) := by
  have hm : serial base m = UInt32.ofNat (m - n) + serial base n := by
    rw [UInt32.add_comm, ← serial_add, Nat.add_sub_cancel' h]
  rw [hm, UInt32.add_sub_cancel]

theorem toNat_serial_sub (h : n ≤ m) (hlt : m < n + 2 ^ 32) : (serial base m - serial base n).toNat = m - n := by
  rw [serial_sub h, UInt32.toNat_ofNat_of_lt' (by change m - n < 2 ^ 32; omega)]

/-- The difference of two numbers, read as a signed word. -/
theorem toInt_serial_sub (h : Near m n) : (serial base m - serial base n).toInt32.toInt = (m : Int) - n := by
  obtain ⟨hm, hn⟩ := h
  change (serial base m - serial base n).toBitVec.toInt = _
  rw [BitVec.toInt_eq_toNat_cond]
  change (if 2 * (serial base m - serial base n).toNat < 2 ^ 32 then ((serial base m - serial base n).toNat : Int)
    else ((serial base m - serial base n).toNat : Int) - (2 ^ 32 : Nat)) = _
  rcases Nat.lt_or_ge m n with hlt | hle
  · have hflip : serial base m - serial base n = -(serial base n - serial base m) := (UInt32.neg_sub ..).symm
    have hval : (serial base n - serial base m).toNat = n - m := toNat_serial_sub (Nat.le_of_lt hlt) (by omega)
    rw [hflip, UInt32.toNat_neg, hval, show UInt32.size = 2 ^ 32 from rfl]
    omega
  · rw [toNat_serial_sub hle (by omega)]
    omega

/-- The number before that of position `n`, which position 0 has too. -/
theorem toInt_serial_sub_pred (h : Near (m + 1) n) :
    (serial base m - (serial base n - 1)).toInt32.toInt = (m : Int) + 1 - n := by
  have hshift : serial base m - (serial base n - 1) = serial base (m + 1) - serial base n := by
    have hsucc : serial base (m + 1) = serial base m + 1 := serial_add
    rw [hsucc]
    grind
  rw [hshift, toInt_serial_sub h]
  omega

theorem serial_inj (h : Near m n) (heq : serial base m = serial base n) : m = n := by
  have hzero : (serial base m - serial base n).toInt32.toInt = (m : Int) - n := toInt_serial_sub h
  rw [heq, UInt32.sub_self] at hzero
  have : (0 : UInt32).toInt32.toInt = 0 := rfl
  omega

end TwilightLine.Serial
