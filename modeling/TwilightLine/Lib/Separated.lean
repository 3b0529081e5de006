import Mathlib.Data.List.Basic

/-! Texts of items with a separator between them.

An item is a text and what it denotes; the text of several items denotes what they do, one after
the other. What a parser has read of such a text, up to a separator, is `Terminated`. -/
namespace TwilightLine

variable {α β : Type*}

/-- Items, each with a separator after it. -/
inductive Terminated (item : List α → List β → Prop) (sep : α) : List α → List β → Prop where
  | nil : Terminated item sep [] []
  | cons {s xs t ys} : item s xs → Terminated item sep t ys → Terminated item sep (s ++ sep :: t) (xs ++ ys)

/-- Items with a separator between them, and what may be in the last place. -/
inductive Separated (item last : List α → List β → Prop) (sep : α) : List α → List β → Prop where
  | mk {t ys s xs} : Terminated item sep t ys → last s xs → Separated item last sep (t ++ s) (ys ++ xs)

variable {item last : List α → List β → Prop} {sep : α} {s t : List α} {xs ys : List β}

/-- What is before the first separator. -/
theorem before_sep_inj {a b x y : List α} (ha : sep ∉ a) (hb : sep ∉ b) (h : a ++ sep :: x = b ++ sep :: y) : a = b ∧ x = y := by
  induction a generalizing b with
  | nil =>
    cases b with
    | nil => exact ⟨rfl, (List.cons.inj h).2⟩
    | cons c b => exact absurd (List.mem_cons.mpr (.inl (List.cons.inj h).1)) hb
  | cons c a ih =>
    cases b with
    | nil => exact absurd (List.mem_cons.mpr (.inl (List.cons.inj h).1.symm)) ha
    | cons d b =>
      obtain ⟨rfl, htail⟩ := List.cons.inj h
      obtain ⟨rfl, rfl⟩ := ih (fun hmem => ha (List.mem_cons_of_mem _ hmem)) (fun hmem => hb (List.mem_cons_of_mem _ hmem)) htail
      exact ⟨rfl, rfl⟩

/-- Another item, and its separator. -/
theorem Terminated.concat (h : Terminated item sep t ys) (hs : item s xs) : Terminated item sep (t ++ s ++ [sep]) (ys ++ xs) := by
  induction h with
  | nil =>
    have hone : Terminated item sep (s ++ [sep]) (xs ++ []) := .cons hs .nil
    rwa [List.append_nil] at hone
  | cons hitem _ ih =>
    rw [List.append_assoc, List.append_assoc, List.append_assoc, List.cons_append, ← List.append_assoc _ s]
    exact .cons hitem ih

/-- Another item in front. -/
theorem Separated.cons (hs : item s xs) (h : Separated item last sep t ys) : Separated item last sep (s ++ sep :: t) (xs ++ ys) := by
  obtain ⟨hterm, hlast⟩ := h
  rw [← List.cons_append, ← List.append_assoc, ← List.append_assoc]
  exact .mk (.cons hs hterm) hlast

theorem Separated.single (h : last s xs) : Separated item last sep s xs := .mk .nil h

/-- After some items comes a separator. -/
theorem Terminated.nil_or_ends (h : Terminated item sep t ys) : t = [] ∧ ys = [] ∨ ∃ u, t = u ++ [sep] := by
  induction h with
  | nil => exact .inl ⟨rfl, rfl⟩
  | @cons s xs t ys _ _ ih =>
    rcases ih with ⟨rfl, -⟩ | ⟨u, rfl⟩
    · exact .inr ⟨s, rfl⟩
    · exact .inr ⟨s ++ sep :: u, by rw [List.append_assoc, List.cons_append]⟩

end TwilightLine
