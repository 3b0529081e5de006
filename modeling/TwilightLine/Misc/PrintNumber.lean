import TwilightLine.Lib.Numeral

/-! Numbers as text, the way `printf` has them. Text is a list of ASCII codes. -/
namespace TwilightLine

/-- `%u` of `printf`, and `%x` with the base 16. -/
def printNumber (base n : Nat) : List UInt8 := (Nat.toDigits base n).map fun c => UInt8.ofNat c.toNat

/-- The text of the parts with a character between each two. -/
def printSeparated (separator : UInt8) (parts : List (List UInt8)) : List UInt8 := [separator].intercalate parts

/-- A digit, as `%x` has it. -/
def digitCode (d : Nat) : UInt8 := UInt8.ofNat (Nat.digitChar d).toNat

variable {base n : Nat}

theorem printNumber_eq (hbase : 1 < base) (n : Nat) :
    printNumber base n = if n < base then [digitCode n] else printNumber base (n / base) ++ [digitCode (n % base)] := by
  unfold printNumber
  rw [Nat.toDigits_eq_if hbase]
  split
  · rfl
  · rw [List.map_append]
    rfl

theorem printNumber_ne_nil (base n : Nat) : printNumber base n ≠ [] := by
  unfold printNumber
  rw [ne_eq, List.map_eq_nil_iff]
  exact Nat.toDigits_ne_nil

theorem printNumber_length_le {k : Nat} (hbase : 1 < base) (hk : 0 < k) (hn : n < base ^ k) : (printNumber base n).length ≤ k := by
  rw [printNumber, List.length_map]
  exact (Nat.length_toDigits_le_iff hbase hk).mpr hn

/-- All that is printed are digits. -/
theorem mem_printNumber {c : UInt8} (hbase : 1 < base) (hc : c ∈ printNumber base n) : ∃ d < base, c = digitCode d := by
  induction n using Nat.strong_induction_on with
  | _ n ih =>
    rw [printNumber_eq hbase] at hc
    split at hc
    · next hlt => exact ⟨n, hlt, List.mem_singleton.mp hc⟩
    · next hge =>
      have hpos : 0 < n := Nat.lt_of_lt_of_le (Nat.zero_lt_of_lt hbase) (Nat.le_of_not_lt hge)
      rcases List.mem_append.mp hc with hc | hc
      · exact ih _ (Nat.div_lt_self hpos hbase) hc
      · exact ⟨n % base, Nat.mod_lt _ (Nat.zero_lt_of_lt hbase), List.mem_singleton.mp hc⟩

/-- **What is printed denotes the number.** -/
theorem value_printNumber {digit : UInt8 → Nat} (hbase : 1 < base) (hdigit : ∀ d < base, digit (digitCode d) = d) (n : Nat) :
    Numeral.value base digit (printNumber base n) = n := by
  induction n using Nat.strong_induction_on with
  | _ n ih =>
    rw [printNumber_eq hbase]
    split
    · next hlt => rw [Numeral.value_cons, List.length_nil, hdigit n hlt]; exact Nat.mul_one n
    · next hge =>
      have hpos : 0 < n := Nat.lt_of_lt_of_le (Nat.zero_lt_of_lt hbase) (Nat.le_of_not_lt hge)
      rw [Numeral.value_concat, ih _ (Nat.div_lt_self hpos hbase), hdigit _ (Nat.mod_lt _ (Nat.zero_lt_of_lt hbase))]
      exact Nat.div_add_mod ..

end TwilightLine
