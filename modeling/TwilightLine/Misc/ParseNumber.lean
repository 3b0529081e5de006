import Mathlib.Data.List.TakeWhile
import TwilightLine.Lib.ByteMemory
import TwilightLine.Misc.Memcmp
import TwilightLine.Misc.PrintNumber

/-! `misc/parse_number.h`.

A number that is too large is not noticed by the arithmetic. Without its leading zeros it is
compared with the largest one, as text, before anything is known about its characters
(`overflows_iff`). -/
namespace TwilightLine

open Lib

/-- `decode_decimal_digit`, where `none` is -1. -/
def decodeDecimalDigit (c : UInt8) : Option Nat := if 48 ≤ c ∧ c ≤ 57 then some (c.toNat - 48) else none

/-- `decode_hex_digit`. -/
def decodeHexDigit (c : UInt8) : Option Nat :=
  if 48 ≤ c ∧ c ≤ 57 then some (c.toNat - 48)
  else if 65 ≤ c ∧ c ≤ 70 then some (c.toNat - 55)
  else if 97 ≤ c ∧ c ≤ 102 then some (c.toNat - 87)
  else none

/-- `parse_number__uintmax_max_str`. -/
def uintmaxMaxStr : List UInt8 :=
  [49, 56, 52, 52, 54, 55, 52, 52, 48, 55, 51, 55, 48, 57, 53, 53, 49, 54, 49, 53]

/-- `parse__no_overflow`, from the loop on. -/
def parseNoOverflow (n : UInt64) : List UInt8 → Option UInt64
  | [] => some n
  | c :: rest => if c < 48 ∨ c > 57 then none else parseNoOverflow (10 * n + (c - 48).toUInt64) rest

/-- The check for an overflow. -/
def overflows (m : Memcmp) (str : List UInt8) : Prop :=
  str.length > uintmaxMaxStr.length ∨ str.length = uintmaxMaxStr.length ∧ m.run str uintmaxMaxStr > 0

instance (m : Memcmp) (str : List UInt8) : Decidable (overflows m str) := inferInstanceAs (Decidable (_ ∨ _))

/-- `parse_unsigned_integer`. -/
def parseUnsignedInteger (m : Memcmp) (str : List UInt8) : Option UInt64 :=
  -- we do not allow empty strings
  if str = [] then none
  else
    -- remove leading zeros
    let str := str.dropWhile (· == 48)
    if overflows m str then none else parseNoOverflow 0 str

/-- The loop of `compute_decimal_repr_size`. -/
def computeDecimalReprSizeFrom (size : Nat) (x : UInt64) : Nat :=
  if _h : x / 10 > 0 then computeDecimalReprSizeFrom (size + 1) (x / 10) else size + 1
termination_by x.toNat
decreasing_by
  rw [gt_iff_lt, UInt64.lt_iff_toNat_lt, UInt64.toNat_div] at _h
  rw [UInt64.toNat_div]
  exact Nat.div_lt_self (Nat.pos_of_ne_zero fun hx => by rw [hx] at _h; exact absurd _h (by decide)) (by decide)

/-- `compute_decimal_repr_size`. -/
def computeDecimalReprSize (x : UInt64) : Nat := computeDecimalReprSizeFrom 0 x

/-- The loop of `generate_decimal_repr`. -/
def generateDecimalReprTo (m : Memory) (out : Int) (x : UInt64) : Memory :=
  let m := writeBytes m (out - 1) [48 + (x % 10).toUInt8]
  if _h : x / 10 > 0 then generateDecimalReprTo m (out - 1) (x / 10) else m
termination_by x.toNat
decreasing_by
  rw [gt_iff_lt, UInt64.lt_iff_toNat_lt, UInt64.toNat_div] at _h
  rw [UInt64.toNat_div]
  exact Nat.div_lt_self (Nat.pos_of_ne_zero fun hx => by rw [hx] at _h; exact absurd _h (by decide)) (by decide)

/-- `generate_decimal_repr`, with the buffer from the offset on. -/
def generateDecimalRepr (m : Memory) (x : UInt64) (out : Int) (reprSize : Nat) : Option Memory :=
  if reprSize = computeDecimalReprSize x then some (generateDecimalReprTo m (out + reprSize) x) else none

/-! ### Parsing -/

def isDecimalDigit (c : UInt8) : Prop := 48 ≤ c ∧ c ≤ 57

instance (c : UInt8) : Decidable (isDecimalDigit c) := inferInstanceAs (Decidable (_ ∧ _))

def decimalDigit (c : UInt8) : Nat := c.toNat - 48

/-- The value of decimal digits. -/
abbrev decimalValue (str : List UInt8) : Nat := Numeral.value 10 decimalDigit str

variable {m : Memcmp} {c d : UInt8} {s t str : List UInt8} {n x v : UInt64}

theorem isDecimalDigit_iff : isDecimalDigit c ↔ 48 ≤ c.toNat ∧ c.toNat ≤ 57 := by
  rw [isDecimalDigit, UInt8.le_iff_toNat_le, UInt8.le_iff_toNat_le]
  rfl

theorem not_isDecimalDigit : c < 48 ∨ c > 57 ↔ ¬isDecimalDigit c := by
  rw [isDecimalDigit_iff, gt_iff_lt, UInt8.lt_iff_toNat_lt, UInt8.lt_iff_toNat_lt]
  show c.toNat < 48 ∨ 57 < c.toNat ↔ _
  omega

theorem decimalDigit_lt (h : ∀ c ∈ s, isDecimalDigit c) : ∀ c ∈ s, decimalDigit c < 10 := by
  intro c hc
  have := isDecimalDigit_iff.mp (h c hc)
  unfold decimalDigit
  omega

/-- Only digits pass. -/
theorem parseNoOverflow_digits (h : parseNoOverflow n s = some v) : ∀ c ∈ s, isDecimalDigit c := by
  induction s generalizing n with
  | nil => nofun
  | cons c s ih =>
    rw [parseNoOverflow] at h
    split at h
    · cases h
    · next hc => exact List.forall_mem_cons.mpr ⟨not_not.mp (fun h => hc (not_isDecimalDigit.mpr h)), ih h⟩

/-- Digits give their value, if that fits. -/
theorem parseNoOverflow_eq (hs : ∀ c ∈ s, isDecimalDigit c) (hfit : Numeral.valueFrom 10 decimalDigit n.toNat s < 2 ^ 64) :
    ∃ v, parseNoOverflow n s = some v ∧ v.toNat = Numeral.valueFrom 10 decimalDigit n.toNat s := by
  induction s generalizing n with
  | nil => exact ⟨n, rfl, rfl⟩
  | cons c s ih =>
    obtain ⟨hc, hs⟩ := List.forall_mem_cons.mp hs
    rw [Numeral.valueFrom_cons] at hfit ⊢
    -- nothing is lost on the way, as the number only grows
    have hnext : (10 * n + (c - 48).toUInt64).toNat = 10 * n.toNat + decimalDigit c := by
      have hle := Nat.lt_of_le_of_lt (Numeral.le_valueFrom (by decide) _ s) hfit
      have hdigit : (c - 48).toNat = decimalDigit c := UInt8.toNat_sub_of_le _ _ hc.1
      rw [UInt64.toNat_add, UInt64.toNat_mul, UInt8.toNat_toUInt64, hdigit]
      show (10 * n.toNat % 2 ^ 64 + decimalDigit c) % 2 ^ 64 = _
      omega
    rw [parseNoOverflow, if_neg (fun h => not_isDecimalDigit.mp h hc), ← hnext]
    rw [← hnext] at hfit
    exact ih hs hfit

/-- The first digit that differs decides. -/
theorem decimalValue_lt (hlen : s.length = t.length) (hs : ∀ c ∈ s, isDecimalDigit c) (hc : isDecimalDigit c)
    (hcd : c.toNat < d.toNat) : decimalValue (c :: s) < decimalValue (d :: t) := by
  refine Numeral.value_lt_of_digit_lt (by decide) hlen (decimalDigit_lt hs) ?_
  have := isDecimalDigit_iff.mp hc
  unfold decimalDigit
  omega

/-- Digits of one length are in the order of their values. -/
theorem memcmp_digits (hlen : s.length = t.length) (hs : ∀ c ∈ s, isDecimalDigit c) (ht : ∀ c ∈ t, isDecimalDigit c) :
    memcmp s t ≤ 0 ↔ decimalValue s ≤ decimalValue t := by
  induction s generalizing t with
  | nil =>
    cases t with
    | nil => exact ⟨fun _ => le_refl _, fun _ => le_refl _⟩
    | cons => cases hlen
  | cons c s ih =>
    cases t with
    | nil => cases hlen
    | cons d t =>
      obtain ⟨hc, hsrest⟩ := List.forall_mem_cons.mp hs
      obtain ⟨hd, htrest⟩ := List.forall_mem_cons.mp ht
      have hrest : s.length = t.length := Nat.succ.inj hlen
      rw [memcmp]
      by_cases hcd : c = d
      · subst hcd
        have hcons : ∀ l, decimalValue (c :: l) = decimalDigit c * 10 ^ l.length + decimalValue l := fun l => Numeral.value_cons
        rw [if_pos rfl, ih hrest hsrest htrest, hcons, hcons, hrest, Nat.add_le_add_iff_left]
      · rw [if_neg hcd, bCompare]
        rcases Nat.lt_or_gt_of_ne (fun h => hcd (UInt8.toNat_inj.mp h)) with hlt | hgt
        · rw [if_neg (Nat.not_lt_of_gt hlt), if_pos hlt]
          exact ⟨fun _ => (decimalValue_lt hrest hsrest hc hlt).le, fun _ => by decide⟩
        · rw [if_pos hgt, if_neg (Nat.not_lt_of_gt hgt)]
          exact ⟨fun h => absurd h (by decide), fun h => absurd (decimalValue_lt hrest.symm htrest hd hgt) (Nat.not_lt_of_le h)⟩

theorem decimalValue_uintmaxMaxStr : decimalValue uintmaxMaxStr = 2 ^ 64 - 1 := by decide

/-- Without leading zeros, what overflows is what is too large. -/
theorem overflows_iff (hs : ∀ c ∈ s, isDecimalDigit c) (hhead : s.head? ≠ some 48) :
    overflows m s ↔ 2 ^ 64 ≤ decimalValue s := by
  have hmax : ∀ c ∈ uintmaxMaxStr, isDecimalDigit c := by
    have hall : uintmaxMaxStr.all (fun c => decide (isDecimalDigit c)) = true := by decide
    exact fun c hc => of_decide_eq_true (List.all_eq_true.mp hall c hc)
  have hlength : uintmaxMaxStr.length = 20 := rfl
  unfold overflows
  rw [hlength]
  rcases Nat.lt_trichotomy s.length 20 with hlt | heq | hgt
  · have hvalue : decimalValue s < 10 ^ s.length := Numeral.value_lt (by decide) (decimalDigit_lt hs)
    have hpow : 10 ^ s.length ≤ 10 ^ 19 := Nat.pow_le_pow_right (by decide) (Nat.le_of_lt_succ hlt)
    constructor
    · rintro (h | h) <;> omega
    · intro h
      omega
  · have hsign : (m.run s uintmaxMaxStr).sign = memcmp s uintmaxMaxStr := m.sign (heq.trans hlength.symm)
    have horder := memcmp_digits (heq.trans hlength.symm) hs hmax
    rw [decimalValue_uintmaxMaxStr, ← hsign] at horder
    constructor
    · rintro (h | ⟨-, h⟩)
      · omega
      · rw [gt_iff_lt, ← Int.sign_pos_iff] at h
        by_contra hsmall
        have := horder.mpr (by omega)
        omega
    · intro h
      refine .inr ⟨heq, ?_⟩
      rw [gt_iff_lt, ← Int.sign_pos_iff]
      by_contra hnot
      have := horder.mp (by omega)
      omega
  · cases s with
    | nil => cases hgt
    | cons c s =>
      have hc := isDecimalDigit_iff.mp (hs c (List.mem_cons_self ..))
      have hzero : decimalDigit c ≠ 0 := by
        have hne : c.toNat ≠ 48 := fun h => hhead (congrArg some (UInt8.toNat_inj.mp h))
        unfold decimalDigit
        omega
      have hvalue : 10 ^ s.length ≤ decimalValue (c :: s) := Numeral.pow_le_value hzero
      have hpow : 10 ^ 20 ≤ 10 ^ s.length := Nat.pow_le_pow_right (by decide) (Nat.le_of_lt_succ hgt)
      exact ⟨fun _ => by omega, fun _ => .inl hgt⟩

/-- **What is parsed are the digits of a number that fits.** -/
theorem parseUnsignedInteger_iff :
    parseUnsignedInteger m str = some v ↔ str ≠ [] ∧ (∀ c ∈ str, isDecimalDigit c) ∧ decimalValue str = v.toNat := by
  have hvalue : decimalValue (str.dropWhile (· == 48)) = decimalValue str :=
    Numeral.value_dropWhile _ fun c hc => by rw [beq_iff_eq.mp hc]; rfl
  have hdigits : (∀ c ∈ str.dropWhile (· == 48), isDecimalDigit c) ↔ ∀ c ∈ str, isDecimalDigit c := by
    constructor
    · intro h c hc
      rw [← List.takeWhile_append_dropWhile (p := (· == 48)) (l := str), List.mem_append] at hc
      rcases hc with hc | hc
      · have hzero := List.mem_takeWhile_imp hc
        rw [beq_iff_eq.mp hzero]
        decide
      · exact h c hc
    · exact fun h c hc => h c ((List.dropWhile_suffix _).subset hc)
  have hhead : (str.dropWhile (· == 48)).head? ≠ some 48 := by
    intro h
    have := List.head?_dropWhile_not (· == 48) str
    rw [h] at this
    cases this
  unfold parseUnsignedInteger
  by_cases hempty : str = []
  · rw [if_pos hempty]
    exact ⟨nofun, fun h => absurd hempty h.1⟩
  rw [if_neg hempty]
  dsimp only
  constructor
  · intro h
    split at h
    · cases h
    · next hfits =>
      have hall := parseNoOverflow_digits h
      rw [overflows_iff hall hhead, not_le] at hfits
      obtain ⟨v', hparse, hv⟩ := parseNoOverflow_eq (n := 0) hall hfits
      rw [hparse] at h
      cases h
      exact ⟨hempty, hdigits.mp hall, hvalue.symm.trans hv.symm⟩
  · rintro ⟨-, hall, hv⟩
    have hall := hdigits.mpr hall
    have hlt : decimalValue (str.dropWhile (· == 48)) < 2 ^ 64 := by
      rw [hvalue, hv]
      exact v.toNat_lt
    obtain ⟨v', hparse, hv'⟩ := parseNoOverflow_eq (n := 0) hall hlt
    rw [if_neg (fun h => absurd ((overflows_iff hall hhead).mp h) (Nat.not_le_of_lt hlt)), hparse]
    exact congrArg some (UInt64.toNat_inj.mp (hv'.trans (hvalue.trans hv)))

/-! ### Printing -/

theorem digitCode_decimal : ∀ d < 10, (48 + UInt8.ofNat d = digitCode d) ∧ isDecimalDigit (digitCode d) ∧
    decimalDigit (digitCode d) = d := by decide

theorem div_pos_iff : x / 10 > 0 ↔ ¬x.toNat < 10 := by
  rw [gt_iff_lt, UInt64.lt_iff_toNat_lt, UInt64.toNat_div]
  show 0 < x.toNat / 10 ↔ _
  omega

theorem div_toNat : (x / 10).toNat = x.toNat / 10 := UInt64.toNat_div ..

/-- The size is that of the text. -/
theorem computeDecimalReprSizeFrom_eq (size : Nat) (x : UInt64) :
    computeDecimalReprSizeFrom size x = size + (printNumber 10 x.toNat).length := by
  induction size, x using computeDecimalReprSizeFrom.induct with
  | case1 size x hmore ih =>
    rw [computeDecimalReprSizeFrom, dif_pos hmore, ih, div_toNat, printNumber_eq (by decide) x.toNat, if_neg (div_pos_iff.mp hmore),
      List.length_append, List.length_singleton]
    omega
  | case2 size x hlast =>
    rw [computeDecimalReprSizeFrom, dif_neg hlast, printNumber_eq (by decide), if_pos (not_not.mp (fun h => hlast (div_pos_iff.mpr h)))]
    rfl

theorem computeDecimalReprSize_eq (x : UInt64) : computeDecimalReprSize x = (printNumber 10 x.toNat).length :=
  (computeDecimalReprSizeFrom_eq 0 x).trans (Nat.zero_add _)

variable {mem : Memory} {out : Int}

/-- The last digit is written first. -/
theorem digit_written (x : UInt64) : 48 + (x % 10).toUInt8 = digitCode (x.toNat % 10) := by
  rw [← (digitCode_decimal _ (Nat.mod_lt _ (by decide))).1]
  congr 1

/-- The text ends where the writing begins, and nothing else is written. -/
theorem generateDecimalReprTo_spec (mem : Memory) (out : Int) (x : UInt64) :
    readBytes (generateDecimalReprTo mem out x) (out - (printNumber 10 x.toNat).length) (printNumber 10 x.toNat).length =
        printNumber 10 x.toNat ∧
      ∀ i, i < out - (printNumber 10 x.toNat).length ∨ out ≤ i → generateDecimalReprTo mem out x i = mem i := by
  induction mem, out, x using generateDecimalReprTo.induct with
  | case1 mem out x m hmore ih =>
    obtain ⟨hread, hframe⟩ := ih
    have htext : printNumber 10 x.toNat = _ := printNumber_eq (by decide) x.toNat
    rw [if_neg (div_pos_iff.mp hmore)] at htext
    rw [generateDecimalReprTo, dif_pos hmore, htext, List.length_append, List.length_singleton]
    rw [div_toNat] at hread hframe
    have hstart : out - ((printNumber 10 (x.toNat / 10)).length + 1 : Nat) = out - 1 - (printNumber 10 (x.toNat / 10)).length := by
      omega
    rw [hstart]
    generalize hwritten : generateDecimalReprTo m (out - 1) (x / 10) = m' at hread hframe
    refine ⟨?_, fun i hi => ?_⟩
    · rw [readBytes_add, hread, Int.sub_add_cancel]
      congr 1
      have hlast : m' (out - 1) = m (out - 1) := hframe _ (.inr (le_refl _))
      have hdigit := readBytes_writeBytes mem (out - 1) [48 + (x % 10).toUInt8]
      rw [List.length_singleton, digit_written] at hdigit
      rw [← hdigit, readBytes_congr fun i hi hi' => ?_]
      have heq : i = out - 1 := by omega
      rw [heq, hlast, ← digit_written]
    · rw [hframe i (by omega)]
      exact if_neg (by rw [List.length_singleton]; omega)
  | case2 mem out x hlast =>
    have htext : printNumber 10 x.toNat = _ := printNumber_eq (by decide) x.toNat
    have hsmall := not_not.mp (fun h => hlast (div_pos_iff.mpr h))
    rw [if_pos hsmall] at htext
    have hdigit := digit_written x
    rw [Nat.mod_eq_of_lt hsmall] at hdigit
    rw [generateDecimalReprTo, dif_neg hlast, htext, List.length_singleton, hdigit]
    exact ⟨readBytes_writeBytes mem (out - 1) [digitCode x.toNat], fun i hi => if_neg (by rw [List.length_singleton]; omega)⟩

/-- **A number is parsed back**, and its text is all that is written. -/
theorem generateDecimalRepr_spec (m : Memcmp) (mem : Memory) (x : UInt64) (out : Int) :
    ∃ mem', generateDecimalRepr mem x out (computeDecimalReprSize x) = some mem' ∧
      parseUnsignedInteger m (readBytes mem' out (computeDecimalReprSize x)) = some x ∧
      ∀ i, i < out ∨ out + computeDecimalReprSize x ≤ i → mem' i = mem i := by
  obtain ⟨hread, hframe⟩ := generateDecimalReprTo_spec mem (out + computeDecimalReprSize x) x
  rw [← computeDecimalReprSize_eq, Int.add_sub_cancel] at hread hframe
  refine ⟨_, if_pos rfl, ?_, hframe⟩
  rw [hread, parseUnsignedInteger_iff]
  refine ⟨printNumber_ne_nil 10 x.toNat, fun c hc => ?_, ?_⟩
  · obtain ⟨d, hd, rfl⟩ := mem_printNumber (by decide) hc
    exact (digitCode_decimal d hd).2.1
  · exact value_printNumber (by decide) (fun d hd => (digitCode_decimal d hd).2.2) _

/-- **Exactly the non-empty digits of a number that fits are parsed, with their value, and a number that is printed is parsed
back.** -/
theorem parse_unsigned_integer (m : Memcmp) :
    (∀ str, (parseUnsignedInteger m str).isSome ↔
        str ≠ [] ∧ (∀ c ∈ str, isDecimalDigit c) ∧ decimalValue str ≤ 2 ^ 64 - 1) ∧
      (∀ str v, parseUnsignedInteger m str = some v → v.toNat = decimalValue str) ∧
      ∀ (mem : Memory) (x : UInt64) (out : Int), ∃ mem', generateDecimalRepr mem x out (computeDecimalReprSize x) = some mem' ∧
        parseUnsignedInteger m (readBytes mem' out (computeDecimalReprSize x)) = some x ∧
        ∀ i, i < out ∨ out + computeDecimalReprSize x ≤ i → mem' i = mem i := by
  refine ⟨fun str => ?_, fun str v h => (parseUnsignedInteger_iff.mp h).2.2.symm, generateDecimalRepr_spec m⟩
  rw [Option.isSome_iff_exists]
  constructor
  · rintro ⟨v, h⟩
    obtain ⟨hne, hdigits, hvalue⟩ := parseUnsignedInteger_iff.mp h
    exact ⟨hne, hdigits, hvalue ▸ Nat.le_sub_one_of_lt v.toNat_lt⟩
  · rintro ⟨hne, hdigits, hle⟩
    refine ⟨UInt64.ofNat (decimalValue str), parseUnsignedInteger_iff.mpr ⟨hne, hdigits, ?_⟩⟩
    rw [UInt64.toNat_ofNat']
    exact (Nat.mod_eq_of_lt (by omega)).symm

/-- The largest number with a zero in front is parsed, the next one is not. -/
theorem parse_unsigned_integer_largest :
    (parseUnsignedInteger .bySign (48 :: uintmaxMaxStr)).isSome = true ∧
      (parseUnsignedInteger .bySign (uintmaxMaxStr.dropLast ++ [54])).isSome = false := by
  obtain ⟨hiff, -⟩ := parse_unsigned_integer .bySign
  have hdigits : (48 :: uintmaxMaxStr).all (fun c => decide (isDecimalDigit c)) = true := by decide
  refine ⟨(hiff _).mpr ⟨nofun, fun c hc => of_decide_eq_true (List.all_eq_true.mp hdigits c hc), by decide⟩, ?_⟩
  exact Bool.eq_false_iff.mpr fun h => absurd ((hiff _).mp h).2.2 (by decide)

end TwilightLine
