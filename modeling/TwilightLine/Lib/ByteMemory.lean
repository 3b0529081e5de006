import Mathlib.Data.Int.Order.Basic
import Mathlib.Data.List.GetD

/-! Memory as bytes at offsets, with reads and writes of runs of bytes. -/
namespace TwilightLine.Lib

abbrev Memory := Int → UInt8

/-- The bytes from the offset on. -/
def readBytes (m : Memory) (a : Int) (n : Nat) : List UInt8 := (List.range n).map fun i : Nat => m (a + i)

/-- The bytes are written from the offset on. -/
def writeBytes (m : Memory) (a : Int) (data : List UInt8) : Memory := fun i =>
  if a ≤ i ∧ i < a + data.length then data.getD (i - a).toNat 0 else m i

variable {m m' : Memory} {a b : Int} {n k : Nat} {data : List UInt8}

@[simp] theorem readBytes_length (m : Memory) (a : Int) (n : Nat) : (readBytes m a n).length = n := by
  simp [readBytes]

theorem readBytes_congr (h : ∀ i, a ≤ i → i < a + n → m i = m' i) : readBytes m a n = readBytes m' a n := by
  apply List.map_congr_left
  intro i hi
  rw [List.mem_range] at hi
  exact h _ (by omega) (by omega)

theorem readBytes_add (m : Memory) (a : Int) (n k : Nat) :
    readBytes m a (n + k) = readBytes m a n ++ readBytes m (a + n) k := by
  rw [readBytes, List.range_add, List.map_append, List.map_map]
  congr 1
  apply List.map_congr_left
  intro i _
  show m (a + ((n + i : Nat) : Int)) = m (a + n + i)
  rw [Int.natCast_add, Int.add_assoc]

theorem readBytes_take (m : Memory) (a : Int) (h : k ≤ n) : (readBytes m a n).take k = readBytes m a k := by
  obtain ⟨j, rfl⟩ := Nat.exists_eq_add_of_le h
  rw [readBytes_add, List.take_append_of_le_length (by simp), List.take_of_length_le (by simp)]

theorem readBytes_drop (m : Memory) (a : Int) (h : k ≤ n) :
    (readBytes m a n).drop k = readBytes m (a + k) (n - k) := by
  obtain ⟨j, rfl⟩ := Nat.exists_eq_add_of_le h
  rw [readBytes_add, List.drop_append_of_le_length (by simp), List.drop_of_length_le (by simp)]
  simp

theorem writeBytes_of_lt {i : Int} (h : i < a) : writeBytes m a data i = m i := if_neg (by omega)

theorem writeBytes_of_ge {i : Int} (h : a + data.length ≤ i) : writeBytes m a data i = m i := if_neg (by omega)

/-- What was written is read back. -/
theorem readBytes_writeBytes (m : Memory) (a : Int) (data : List UInt8) :
    readBytes (writeBytes m a data) a data.length = data := by
  apply List.ext_getElem (by simp)
  intro i hi hi'
  simp only [readBytes, List.getElem_map, List.getElem_range]
  have hoff : (a + (i : Int) - a).toNat = i := by omega
  rw [writeBytes, if_pos ⟨by omega, by omega⟩, hoff, List.getD_eq_getElem _ _ hi']

theorem readBytes_writeBytes_take (m : Memory) (a : Int) (h : n ≤ data.length) :
    readBytes (writeBytes m a data) a n = data.take n := by
  rw [← readBytes_take _ _ h, readBytes_writeBytes]

/-- A write leaves alone what lies beside it. -/
theorem readBytes_writeBytes_disjoint (h : b + n ≤ a ∨ a + data.length ≤ b) :
    readBytes (writeBytes m a data) b n = readBytes m b n := by
  apply readBytes_congr
  intro i hi hi'
  rcases h with h | h
  · exact writeBytes_of_lt (by omega)
  · exact writeBytes_of_ge (by omega)

/-- Two writes, one after the other, are one. -/
theorem writeBytes_append (m : Memory) (a : Int) (xs ys : List UInt8) :
    writeBytes m a (xs ++ ys) = writeBytes (writeBytes m a xs) (a + xs.length) ys := by
  funext i
  unfold writeBytes
  rw [List.length_append]
  by_cases hys : a + xs.length ≤ i ∧ i < a + xs.length + ys.length
  · have hoff : (i - a).toNat = xs.length + (i - (a + xs.length)).toNat := by omega
    rw [if_pos hys, if_pos ⟨by omega, by omega⟩, hoff, List.getD_append_right _ _ _ _ (by omega), Nat.add_sub_cancel_left]
  · rw [if_neg hys]
    by_cases hxs : a ≤ i ∧ i < a + xs.length
    · rw [if_pos hxs, if_pos ⟨by omega, by omega⟩, List.getD_append _ _ _ _ (by omega)]
    · rw [if_neg hxs, if_neg (by omega)]

/-- What is written after some bytes is read with them. -/
theorem readBytes_writeBytes_append (m : Memory) (a : Int) (n : Nat) (data : List UInt8) :
    readBytes (writeBytes m (a + n) data) a (n + data.length) = readBytes m a n ++ data := by
  rw [readBytes_add, readBytes_writeBytes, readBytes_writeBytes_disjoint (.inl (le_refl _))]

end TwilightLine.Lib
