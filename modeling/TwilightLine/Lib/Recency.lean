import Mathlib.Logic.Function.Basic

/-! Lists in the order of use.

Every element carries the time of its last use. An element that is used moves to the
end of the list, and so the list stays in the order of use (`Recent.touch`): its head is
what was not used for the longest time (`Recent.head_le`). -/
namespace TwilightLine.Lib

variable {α : Type*}

/-- The list is in the order of use, and everything was used before now. -/
structure Recent (used : α → Nat) (now : Nat) (l : List α) : Prop where
  ordered : l.Pairwise fun a b => used a < used b
  before : ∀ a ∈ l, used a < now

variable {used : α → Nat} {now : Nat} {l : List α} {a b : α}

theorem recent_nil : Recent used now [] := ⟨.nil, nofun⟩

theorem Recent.later (h : Recent used now l) : Recent used (now + 1) l :=
  ⟨h.ordered, fun a ha => Nat.lt_succ_of_lt (h.before a ha)⟩

theorem Recent.nodup (h : Recent used now l) : l.Nodup := by
  apply h.ordered.imp
  intro a b hlt he
  rw [he] at hlt
  exact Nat.lt_irrefl _ hlt

/-- The head was not used for the longest time. -/
theorem Recent.head_le (h : Recent used now (a :: l)) (hb : b ∈ a :: l) : used a ≤ used b := by
  rcases List.mem_cons.mp hb with rfl | hb
  · exact Nat.le_refl _
  · exact Nat.le_of_lt ((List.pairwise_cons.mp h.ordered).1 b hb)

variable [DecidableEq α]

/-- An element that is used now comes last. -/
theorem Recent.append (h : Recent used now l) (ha : a ∉ l) :
    Recent (Function.update used a now) (now + 1) (l ++ [a]) := by
  have hold : ∀ b ∈ l, Function.update used a now b = used b := by
    intro b hb
    apply Function.update_of_ne
    intro he
    exact ha (he ▸ hb)
  constructor
  · refine List.pairwise_append.mpr ⟨?_, List.pairwise_singleton _ _, ?_⟩
    · apply h.ordered.imp_of_mem
      intro b c hb hc hlt
      rw [hold b hb, hold c hc]
      exact hlt
    · intro b hb c hc
      rw [List.mem_singleton.mp hc, hold b hb, Function.update_self]
      exact h.before b hb
  · intro b hb
    rcases List.mem_append.mp hb with hb | hb
    · rw [hold b hb]
      exact Nat.lt_succ_of_lt (h.before b hb)
    · rw [List.mem_singleton.mp hb, Function.update_self]
      exact Nat.lt_succ_self now

theorem Recent.erase (h : Recent used now l) (a : α) : Recent used now (l.erase a) :=
  ⟨h.ordered.sublist List.erase_sublist, fun b hb => h.before b (List.mem_of_mem_erase hb)⟩

/-- An element that is used moves to the end. -/
theorem Recent.touch (h : Recent used now l) (a : α) :
    Recent (Function.update used a now) (now + 1) (l.erase a ++ [a]) :=
  (h.erase a).append h.nodup.not_mem_erase

end TwilightLine.Lib
