import TwilightLine.Lib.OrderedTree
import TwilightLine.Lib.TotalComparison
import Mathlib.Data.Int.Order.Basic
import Mathlib.Data.Nat.Basic
import Mathlib.Tactic.SplitIfs

/-! Comparison of numbers, as `misc/compare.h` does it, and of bytes, by `memcmp`.

The first byte that differs decides. What the result is, apart from its sign, is left open
(`Memcmp`); the sign orders the strings of one length (`memcmp_total`). -/
namespace TwilightLine

/-- `B_COMPARE`. -/
def bCompare (a b : Nat) : Int := (if a > b then 1 else 0) - (if a < b then 1 else 0)

theorem bCompare_eq_zero (a b : Nat) : bCompare a b = 0 ↔ a = b := by
  unfold bCompare
  split_ifs <;> simp <;> omega

theorem bCompare_compares : OrderedTree.Compares bCompare id where
  lt {a b} h := by
    unfold bCompare at h
    split_ifs at h <;> simp only [id] <;> omega
  ge {a b} h := by
    unfold bCompare at h
    split_ifs at h <;> simp only [id] <;> omega
  eq {a b} := (bCompare_eq_zero a b).mp

/-- The sign of `memcmp`: the first byte that differs decides. -/
def memcmp : List UInt8 → List UInt8 → Int
  | a :: as, b :: bs => if a = b then memcmp as bs else bCompare a.toNat b.toNat
  | _, _ => 0

theorem memcmp_eq_zero (a b : List UInt8) (h : a.length = b.length) : memcmp a b = 0 ↔ a = b := by
  induction a generalizing b with
  | nil =>
    cases b with
    | nil => simp [memcmp]
    | cons => simp at h
  | cons x xs ih =>
    cases b with
    | nil => simp at h
    | cons y ys =>
      rw [memcmp]
      split
      · next hxy => rw [ih ys (by simpa using h), hxy]; simp
      · next hxy =>
        rw [bCompare_eq_zero]
        exact ⟨fun he => absurd (UInt8.toNat.inj he) hxy, fun he => absurd (List.cons.inj he).1 hxy⟩

/-- A `memcmp` as the standard has it: the sign is that of the first difference. -/
structure Memcmp where
  run : List UInt8 → List UInt8 → Int
  sign : ∀ {a b}, a.length = b.length → (run a b).sign = memcmp a b

theorem memcmp_sign (a b : List UInt8) : (memcmp a b).sign = memcmp a b := by
  induction a generalizing b with
  | nil => rfl
  | cons x xs ih =>
    cases b with
    | nil => rfl
    | cons y ys =>
      rw [memcmp, bCompare]
      split_ifs <;> first | rfl | exact ih ys

/-- The one that returns the sign alone. -/
def Memcmp.bySign : Memcmp := ⟨memcmp, fun {a b} _ => memcmp_sign a b⟩

/-- `B_COMPARE` of integers. -/
def bCompareInt (a b : Int) : Int := (if a > b then 1 else 0) - (if a < b then 1 else 0)

variable {m : Memcmp} {a b : List UInt8}

theorem bCompareInt_zero (x : Int) : bCompareInt x 0 = x.sign := by
  unfold bCompareInt
  rcases lt_trichotomy x 0 with h | rfl | h
  · rw [if_neg (by omega), if_pos h, Int.sign_eq_neg_one_of_neg h]
    rfl
  · rfl
  · rw [if_pos h, if_neg (by omega), Int.sign_eq_one_of_pos h]
    rfl

theorem Memcmp.run_eq_zero (h : a.length = b.length) : m.run a b = 0 ↔ memcmp a b = 0 := by
  rw [← m.sign h, Int.sign_eq_zero_iff_zero]

theorem bCompare_total : TotalComparison bCompare := .ofLinearOrder

/-- The first bytes are compared, and then the others. -/
theorem memcmp_cons (x y : UInt8) (a b : List UInt8) : memcmp (x :: a) (y :: b) =
    if bCompare x.toNat y.toNat ≠ 0 then bCompare x.toNat y.toNat else memcmp a b := by
  by_cases hxy : x = y
  · have hzero : bCompare x.toNat y.toNat = 0 := (bCompare_eq_zero ..).mpr (congrArg UInt8.toNat hxy)
    rw [memcmp, if_pos hxy, if_neg (not_not.mpr hzero)]
  · have hne : bCompare x.toNat y.toNat ≠ 0 := fun h => hxy (UInt8.toNat_inj.mp ((bCompare_eq_zero ..).mp h))
    rw [memcmp, if_neg hxy, if_pos hne]

/-- `memcmp` orders the strings of one length. -/
theorem memcmp_total (n : Nat) : TotalComparison fun a b : {l : List UInt8 // l.length = n} => memcmp a.1 b.1 := by
  induction n with
  | zero =>
    have hzero : ∀ a b : {l : List UInt8 // l.length = 0}, memcmp a.1 b.1 = 0 := fun a b => by
      rw [List.length_eq_zero_iff.mp a.2]
      rfl
    exact ⟨fun a b => .inr (.inl (hzero a b)), fun a b => by rw [hzero, hzero]; rfl, fun {a _ c} _ _ => (hzero a c).le⟩
  | succ n ih =>
    let rest (l : {l : List UInt8 // l.length = n + 1}) : {l : List UInt8 // l.length = n} :=
      ⟨l.1.tail, by rw [List.length_tail, l.2]; rfl⟩
    have htotal := (bCompare_total.comap fun l : {l : List UInt8 // l.length = n + 1} => (l.1.headD 0).toNat).andThen (ih.comap rest)
    have heq : (fun a b : {l : List UInt8 // l.length = n + 1} => memcmp a.1 b.1) = fun a b =>
        if bCompare (a.1.headD 0).toNat (b.1.headD 0).toNat ≠ 0 then bCompare (a.1.headD 0).toNat (b.1.headD 0).toNat
        else memcmp (rest a).1 (rest b).1 := by
      funext ⟨a, ha⟩ ⟨b, hb⟩
      obtain ⟨x, a, rfl⟩ := List.exists_cons_of_length_eq_add_one ha
      obtain ⟨y, b, rfl⟩ := List.exists_cons_of_length_eq_add_one hb
      exact memcmp_cons x y a b
    rw [heq]
    exact htotal

end TwilightLine
