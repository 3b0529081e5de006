import Mathlib.Data.Nat.ModEq
import Mathlib.Algebra.BigOperators.Group.List.Basic
import Mathlib.Tactic.Linarith

/-! One's complement arithmetic in an arbitrary base.

Internet checksums add the digits of a message with an end-around carry: what
runs over the top digit is added back at the bottom. `onesSum` is that sum as a
standard defines it, one addition at a time. Programs add everything in a wide
accumulator and fold the carries at the end (`carry`). Both give the `residue` of the
sum (`onesSum_eq_residue`, `residue_carry`): zero for a sum of zero, and otherwise the
residue modulo `b - 1` written with the digits `1 … b - 1`. -/
namespace TwilightLine.OnesComplement

/-- One round of the end-around carry in base `b`. -/
def carry (b t : Nat) : Nat := t % b + t / b

/-- Addition of two digits with end-around carry. -/
def onesAdd (b x y : Nat) : Nat := carry b (x + y)

/-- The one's complement sum of a list of digits. -/
def onesSum (b : Nat) (ws : List Nat) : Nat := ws.foldl (onesAdd b) 0

/-- Zero is zero; any other number is its residue modulo `b - 1`, with `b - 1`
standing for the residue zero. -/
def residue (b t : Nat) : Nat := if t = 0 then 0 else (t - 1) % (b - 1) + 1

variable {b : Nat}

theorem carry_of_lt {t : Nat} (ht : t < b) : carry b t = t := by
  simp [carry, Nat.mod_eq_of_lt ht, Nat.div_eq_of_lt ht]

/-- A round of the carry changes a number by a multiple of `b - 1`. -/
theorem carry_add (hb : 2 ≤ b) (t : Nat) : carry b t + (b - 1) * (t / b) = t := by
  have hsplit := Nat.mod_add_div t b
  obtain ⟨c, rfl⟩ : ∃ c, b = c + 1 := ⟨b - 1, by omega⟩
  simp only [carry, Nat.add_sub_cancel]
  rw [Nat.add_mul, Nat.one_mul] at hsplit
  omega

theorem carry_eq_zero (hb : 2 ≤ b) (t : Nat) : carry b t = 0 ↔ t = 0 := by
  constructor
  · intro h
    have hadd := carry_add hb t
    have hq : t / b = 0 := (Nat.add_eq_zero_iff.mp h).2
    rw [h, hq] at hadd
    simpa using hadd.symm
  · rintro rfl
    simp [carry]

/-- The residue only depends on the number modulo `b - 1`, zero apart. -/
theorem residue_add_mul {t : Nat} (ht : t ≠ 0) (k : Nat) :
    residue b (t + (b - 1) * k) = residue b t := by
  have hpos : t + (b - 1) * k ≠ 0 := by omega
  simp only [residue, ht, hpos, if_false]
  rw [show t + (b - 1) * k - 1 = t - 1 + (b - 1) * k by omega, Nat.add_mul_mod_self_left]

theorem residue_carry (hb : 2 ≤ b) (t : Nat) : residue b (carry b t) = residue b t := by
  by_cases ht : t = 0
  · subst ht
    simp [carry]
  · have hc : carry b t ≠ 0 := fun h => ht ((carry_eq_zero hb t).mp h)
    rw [← residue_add_mul hc (t / b), carry_add hb]

theorem residue_of_lt {t : Nat} (ht : t < b) : residue b t = t := by
  by_cases h0 : t = 0
  · simp [residue, h0]
  · simp only [residue, h0, if_false]
    rw [Nat.mod_eq_of_lt (by omega)]
    omega

theorem residue_lt (hb : 2 ≤ b) (t : Nat) : residue b t < b := by
  have hmod := Nat.mod_lt (t - 1) (show b - 1 > 0 by omega)
  unfold residue
  split <;> omega

/-- The residue is the largest digit exactly on the nonzero multiples of `b - 1`. -/
theorem residue_eq_top (hb : 2 ≤ b) {t : Nat} (ht : t ≠ 0) : residue b t = b - 1 ↔ (b - 1) ∣ t := by
  simp only [residue, ht, if_false]
  have hmod := Nat.mod_lt (t - 1) (show b - 1 > 0 by omega)
  have hsplit := Nat.mod_add_div (t - 1) (b - 1)
  constructor
  · intro h
    refine ⟨(t - 1) / (b - 1) + 1, ?_⟩
    rw [Nat.mul_add, Nat.mul_one]
    omega
  · rintro ⟨k, rfl⟩
    obtain ⟨j, rfl⟩ : ∃ j, k = j + 1 := ⟨k - 1, by
      have : k ≠ 0 := by
        rintro rfl
        exact ht (Nat.mul_zero _)
      omega⟩
    have hval : (b - 1) * (j + 1) - 1 = (b - 2) + (b - 1) * j := by
      rw [Nat.mul_add, Nat.mul_one]
      omega
    rw [hval, Nat.add_mul_mod_self_left, Nat.mod_eq_of_lt (by omega)]
    omega

theorem onesAdd_eq_residue (hb : 2 ≤ b) {x y : Nat} (hx : x < b) (hy : y < b) :
    onesAdd b x y = residue b (x + y) := by
  have hlt : carry b (x + y) < b := by
    by_cases h : x + y < b
    · rwa [carry_of_lt h]
    · have hq : (x + y) / b = 1 := Nat.div_eq_of_lt_le (by omega) (by omega)
      have hadd := carry_add hb (x + y)
      rw [hq] at hadd
      omega
  rw [onesAdd, ← residue_of_lt hlt, residue_carry hb]

/-- Adding before or after taking the residue is the same. -/
theorem residue_add (s w : Nat) : residue b (residue b s + w) = residue b (s + w) := by
  by_cases hs : s = 0
  · simp [residue, hs]
  · have hr : residue b s = (s - 1) % (b - 1) + 1 := by simp [residue, hs]
    have hsplit := Nat.mod_add_div (s - 1) (b - 1)
    rw [← residue_add_mul (t := residue b s + w) (by omega) ((s - 1) / (b - 1))]
    congr 1
    omega

theorem onesSum_from (hb : 2 ≤ b) (ws : List Nat) (hws : ∀ w ∈ ws, w < b) (s : Nat) :
    ws.foldl (onesAdd b) (residue b s) = residue b (s + ws.sum) := by
  induction ws generalizing s with
  | nil => simp
  | cons w rest ih =>
    have hw := hws w (List.mem_cons_self ..)
    rw [List.foldl_cons, onesAdd_eq_residue hb (residue_lt hb s) hw, residue_add,
      ih (fun v hv => hws v (List.mem_cons_of_mem w hv)), List.sum_cons, Nat.add_assoc]

/-- **Adding first and folding last is one's complement addition.** -/
theorem onesSum_eq_residue (hb : 2 ≤ b) (ws : List Nat) (hws : ∀ w ∈ ws, w < b) :
    onesSum b ws = residue b ws.sum := by
  have h := onesSum_from hb ws hws 0
  simpa [residue, onesSum] using h

/-! ### Swapping the halves of a digit

In base `d * d` a digit has two halves. Swapping them multiplies by `d` modulo
`d * d - 1`, and multiplying by `d` twice changes nothing there: this is why a sum may
be taken with its digits cut anywhere and be swapped back at the end. -/

/-- Two numbers with the same residue: congruent, and zero together. -/
def Like (b s t : Nat) : Prop := s ≡ t [MOD b - 1] ∧ (s = 0 ↔ t = 0)

theorem like_refl (s : Nat) : Like b s s := ⟨Nat.ModEq.refl s, Iff.rfl⟩

theorem Like.symm {s t : Nat} (h : Like b s t) : Like b t s := ⟨h.1.symm, h.2.symm⟩

theorem Like.trans {s t u : Nat} (h : Like b s t) (h' : Like b t u) : Like b s u :=
  ⟨h.1.trans h'.1, h.2.trans h'.2⟩

theorem Like.add {s t u v : Nat} (h : Like b s t) (h' : Like b u v) : Like b (s + u) (t + v) := by
  refine ⟨h.1.add h'.1, ?_⟩
  have h₁ := h.2
  have h₂ := h'.2
  omega

theorem Like.mul (d : Nat) {s t : Nat} (h : Like b s t) : Like b (d * s) (d * t) := by
  refine ⟨h.1.mul_left d, ?_⟩
  rw [Nat.mul_eq_zero, Nat.mul_eq_zero, h.2]

theorem Like.residue_eq {s t : Nat} (h : Like b s t) : residue b s = residue b t := by
  by_cases hs : s = 0
  · rw [hs, h.2.mp hs]
  · have ht : t ≠ 0 := fun ht => hs (h.2.mpr ht)
    have hpred : s - 1 ≡ t - 1 [MOD b - 1] := by
      apply Nat.ModEq.add_right_cancel' 1
      rw [Nat.sub_add_cancel (Nat.pos_of_ne_zero hs), Nat.sub_add_cancel (Nat.pos_of_ne_zero ht)]
      exact h.1
    simp only [residue, hs, ht, if_false]
    rw [hpred]

theorem like_residue (t : Nat) : Like b (residue b t) t := by
  by_cases ht : t = 0
  · simp only [residue, ht, if_true]
    exact like_refl 0
  · simp only [residue, ht, if_false]
    constructor
    · have hmod : (t - 1) % (b - 1) ≡ t - 1 [MOD b - 1] := Nat.mod_modEq ..
      have hadd := hmod.add_right 1
      rwa [Nat.sub_add_cancel (Nat.pos_of_ne_zero ht)] at hadd
    · omega

theorem carry_like (hb : 2 ≤ b) (t : Nat) : Like b (carry b t) t := by
  refine ⟨?_, carry_eq_zero hb t⟩
  have hadd := carry_add hb t
  nth_rewrite 2 [← hadd]
  exact (Nat.add_mul_mod_self_left ..).symm

/-- A digit of base `d * d` with its halves exchanged. -/
def swap (d x : Nat) : Nat := d * (x % d) + x / d

variable {d : Nat}

theorem swap_lt (hd : 2 ≤ d) {x : Nat} (hx : x < d * d) : swap d x < d * d := by
  have hlow := Nat.mod_lt x (show d > 0 by omega)
  have hhigh : x / d < d := Nat.div_lt_of_lt_mul hx
  have hmul : d * (x % d) + d ≤ d * d := by
    rw [← Nat.mul_succ]
    exact Nat.mul_le_mul_left d hlow
  rw [swap]
  omega

theorem swap_swap (hd : 2 ≤ d) {x : Nat} (hx : x < d * d) : swap d (swap d x) = x := by
  have hhigh : x / d < d := Nat.div_lt_of_lt_mul hx
  rw [swap, swap, Nat.mul_add_mod, Nat.mod_eq_of_lt hhigh, Nat.mul_add_div (by omega), Nat.div_eq_of_lt hhigh,
    Nat.add_zero, Nat.div_add_mod]

theorem mul_mul_like (hd : 2 ≤ d) (t : Nat) : Like (d * d) (d * (d * t)) t := by
  have hone : 4 ≤ d * d := Nat.mul_le_mul hd hd
  constructor
  · rw [← Nat.mul_assoc]
    have hsplit : d * d = (d * d - 1) + 1 := by omega
    have hmul : d * d * t = t + (d * d - 1) * t := by
      nth_rewrite 1 [hsplit]
      rw [Nat.add_mul, Nat.one_mul, Nat.add_comm]
    rw [hmul]
    exact Nat.add_mul_mod_self_left ..
  · simp only [Nat.mul_eq_zero]
    omega

theorem swap_like (hd : 2 ≤ d) (x : Nat) : Like (d * d) (swap d x) (d * x) := by
  have hsplit := Nat.div_add_mod x d
  have hmul : d * x = d * (d * (x / d)) + d * (x % d) := by
    nth_rewrite 1 [← hsplit]
    rw [Nat.mul_add]
  rw [hmul, swap, Nat.add_comm]
  exact (mul_mul_like hd (x / d)).symm.add (like_refl _)

/-- The complement of a digit, exchanged. -/
theorem swap_complement (hd : 2 ≤ d) {x : Nat} (hx : x < d * d) : swap d (d * d - 1 - x) = d * d - 1 - swap d x := by
  have hlow := Nat.mod_lt x (show d > 0 by omega)
  have hhigh : x / d < d := Nat.div_lt_of_lt_mul hx
  have hsplit := Nat.div_add_mod x d
  have hval : d * d - 1 - x = d * (d - 1 - x / d) + (d - 1 - x % d) := by
    rw [Nat.mul_sub, Nat.mul_sub, Nat.mul_one]
    have hmul : d * (x / d) + d ≤ d * d := by
      rw [← Nat.mul_succ]
      exact Nat.mul_le_mul_left d hhigh
    omega
  have hsmall : d - 1 - x % d < d := by omega
  rw [hval, swap, Nat.mul_add_mod, Nat.mod_eq_of_lt hsmall, Nat.mul_add_div (by omega),
    Nat.div_eq_of_lt hsmall, Nat.add_zero, swap]
  have hmul : d * (x % d) + d ≤ d * d := by
    rw [← Nat.mul_succ]
    exact Nat.mul_le_mul_left d hlow
  rw [Nat.mul_sub, Nat.mul_sub, Nat.mul_one]
  omega

/-- **Swapping a digit multiplies by `d`.** -/
theorem swap_residue (hd : 2 ≤ d) (t : Nat) : swap d (residue (d * d) t) = residue (d * d) (d * t) := by
  have hbase : 2 ≤ d * d := le_trans hd (Nat.le_mul_self d)
  have hlt := swap_lt hd (residue_lt hbase t)
  rw [← residue_of_lt hlt]
  exact ((swap_like hd _).trans ((like_residue t).mul d)).residue_eq

end TwilightLine.OnesComplement
