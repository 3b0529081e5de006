import Mathlib.Data.Nat.Digits.Lemmas

/-! Numerals: digits, the first one of which counts most.

Symbols of any kind are read with a base and a digit for each of them. A loop that multiplies
and adds computes `valueFrom`, which is `value` with what was read before in front. -/
namespace TwilightLine.Numeral

variable {α : Type*} (base : Nat) (digit : α → Nat)

/-- The number after the symbols, from what those before them denote. -/
def valueFrom (n : Nat) (s : List α) : Nat := s.foldl (fun n c => base * n + digit c) n

/-- What the symbols denote. -/
abbrev value (s : List α) : Nat := valueFrom base digit 0 s

variable {base digit} {n k : Nat} {c : α} {s t : List α}

theorem valueFrom_cons : valueFrom base digit n (c :: s) = valueFrom base digit (base * n + digit c) s := rfl

theorem valueFrom_append : valueFrom base digit n (s ++ t) = valueFrom base digit (valueFrom base digit n s) t :=
  List.foldl_append ..

/-- What is in front counts as many times as there are numerals after it. -/
theorem valueFrom_eq (n : Nat) (s : List α) : valueFrom base digit n s = n * base ^ s.length + value base digit s := by
  induction s generalizing n with
  | nil => simp [valueFrom]
  | cons c s ih =>
    rw [valueFrom_cons, value, valueFrom_cons, ih, ih (base * 0 + digit c), List.length_cons, pow_succ]
    ring

theorem value_cons : value base digit (c :: s) = digit c * base ^ s.length + value base digit s := by
  rw [value, valueFrom_cons, valueFrom_eq, Nat.mul_zero, Nat.zero_add]

theorem value_concat : value base digit (s ++ [c]) = base * value base digit s + digit c := valueFrom_append

/-- The number only grows. -/
theorem le_valueFrom (hbase : 0 < base) (n : Nat) (s : List α) : n ≤ valueFrom base digit n s := by
  rw [valueFrom_eq]
  exact (Nat.le_mul_of_pos_right n (Nat.pow_pos hbase)).trans (Nat.le_add_right ..)

/-- The digits from the last one on are those of `Nat.ofDigits`. -/
theorem value_eq_ofDigits (s : List α) : value base digit s = Nat.ofDigits base (s.map digit).reverse := by
  induction s using List.reverseRecOn with
  | nil => rfl
  | append_singleton s c ih =>
    rw [value_concat, ih, List.map_append, List.reverse_append, List.map_singleton, List.reverse_singleton,
      List.singleton_append, Nat.ofDigits_cons, Nat.add_comm]

/-- So much is denoted by so many digits. -/
theorem value_lt (hbase : 1 < base) (h : ∀ c ∈ s, digit c < base) : value base digit s < base ^ s.length := by
  have hlt : Nat.ofDigits base (s.map digit).reverse < base ^ (s.map digit).reverse.length := by
    refine Nat.ofDigits_lt_base_pow_length hbase fun d hd => ?_
    obtain ⟨c, hc, rfl⟩ := List.mem_map.mp (List.mem_reverse.mp hd)
    exact h c hc
  rwa [List.length_reverse, List.length_map, ← value_eq_ofDigits] at hlt

/-- The first digit that differs decides. -/
theorem value_lt_of_digit_lt {d : α} (hbase : 1 < base) (hlen : s.length = t.length) (hs : ∀ c ∈ s, digit c < base) (hcd : digit c < digit d) :
    value base digit (c :: s) < value base digit (d :: t) := by
  have hlt := value_lt hbase hs
  rw [value_cons, value_cons, ← hlen]
  calc digit c * base ^ s.length + value base digit s < (digit c + 1) * base ^ s.length := by
        rw [Nat.add_mul, Nat.one_mul]
        exact Nat.add_lt_add_left hlt _
    _ ≤ digit d * base ^ s.length := Nat.mul_le_mul_right _ hcd
    _ ≤ digit d * base ^ s.length + value base digit t := Nat.le_add_right ..

/-- Zeros in front do not count. -/
theorem value_dropWhile (p : α → Bool) (hp : ∀ c, p c = true → digit c = 0) :
    value base digit (s.dropWhile p) = value base digit s := by
  induction s with
  | nil => rfl
  | cons c s ih =>
    rw [List.dropWhile_cons]
    split
    · next hc => rw [ih, value_cons, hp c hc, Nat.zero_mul, Nat.zero_add]
    · rfl

/-- A numeral that does not begin with a zero is large. -/
theorem pow_le_value (hc : digit c ≠ 0) : base ^ s.length ≤ value base digit (c :: s) := by
  rw [value_cons]
  exact (Nat.le_mul_of_pos_left _ (Nat.pos_of_ne_zero hc)).trans (Nat.le_add_right ..)

end TwilightLine.Numeral
