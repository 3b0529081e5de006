import Mathlib.Data.List.Basic
import Mathlib.Tactic.Linarith

/-! Properties of traces.

A trace lists what a system did, oldest first. Most of what one asks of it has
the form: whenever something happened, what had happened before was such and
such. `Always Q t` says that of every element of `t` and the elements before it,
and grows with the trace (`always_append`). -/
namespace TwilightLine.Trace

variable {α : Type*}

/-- Every element of the trace stands in the relation `Q` to what came before it. -/
def Always (Q : List α → α → Prop) (t : List α) : Prop :=
  ∀ pre a post, t = pre ++ a :: post → Q pre a

variable {Q R : List α → α → Prop} {t u : List α} {a : α}

@[simp]
theorem always_nil : Always Q [] := by
  intro pre a post h
  simp at h

theorem always_concat : Always Q (t ++ [a]) ↔ Always Q t ∧ Q t a := by
  constructor
  · intro h
    refine ⟨fun pre b post ht => h pre b (post ++ [a]) (by rw [ht]; simp), h t a [] rfl⟩
  · rintro ⟨ht, ha⟩ pre b post he
    rcases List.eq_nil_or_concat post with rfl | ⟨post', c, rfl⟩
    · obtain ⟨rfl, hb⟩ := List.append_inj' he rfl
      simp only [List.cons.injEq, and_true] at hb
      exact hb ▸ ha
    · rw [List.concat_eq_append, ← List.cons_append, ← List.append_assoc] at he
      obtain ⟨rfl, -⟩ := List.append_inj' he rfl
      exact ht pre b post' rfl

theorem Always.mono (h : Always Q t) (hQR : ∀ pre a, Q pre a → R pre a) : Always R t :=
  fun pre a post ht => hQR pre a (h pre a post ht)

/-- `Always`, computed along the trace: `pre` is what came before `t`. -/
@[simp]
def AlwaysFrom (Q : List α → α → Prop) (pre : List α) : List α → Prop
  | [] => True
  | a :: t => Q pre a ∧ AlwaysFrom Q (pre ++ [a]) t

@[simp]
theorem always_append {pre : List α} : Always Q (pre ++ t) ↔ Always Q pre ∧ AlwaysFrom Q pre t := by
  induction t generalizing pre with
  | nil => simp [AlwaysFrom]
  | cons a t ih => rw [AlwaysFrom, ← and_assoc, ← always_concat, ← ih, List.append_assoc, List.singleton_append]

theorem always_iff_from : Always Q t ↔ AlwaysFrom Q [] t := by
  have h := @always_append α Q t []
  simpa using h

instance decidableAlwaysFrom [∀ pre a, Decidable (Q pre a)] (pre t : List α) : Decidable (AlwaysFrom Q pre t) :=
  match t with
  | [] => inferInstanceAs (Decidable True)
  | a :: t =>
    have := decidableAlwaysFrom (pre ++ [a]) t
    inferInstanceAs (Decidable (Q pre a ∧ AlwaysFrom Q (pre ++ [a]) t))

instance [∀ pre a, Decidable (Q pre a)] : Decidable (Always Q t) := decidable_of_iff _ always_iff_from.symm

/-! ### Sums over a trace -/

/-- The bytes a trace mentions, in order, as read by `f`. -/
def gather {β : Type*} (f : α → List β) (t : List α) : List β := t.flatMap f

variable {β : Type*} (f : α → List β)

@[simp] theorem gather_nil : gather f [] = [] := rfl

@[simp] theorem gather_append : gather f (t ++ u) = gather f t ++ gather f u := List.flatMap_append

@[simp] theorem gather_cons : gather f (a :: t) = f a ++ gather f t := List.flatMap_cons

/-- The numbers a trace mentions, added up, as read by `f`. -/
def total (f : α → Nat) (t : List α) : Nat := (t.map f).sum

variable (g : α → Nat)

@[simp] theorem total_nil : total g [] = 0 := rfl

@[simp] theorem total_append : total g (t ++ u) = total g t + total g u := by simp [total]

@[simp] theorem total_cons : total g (a :: t) = g a + total g t := by simp [total]

end TwilightLine.Trace
