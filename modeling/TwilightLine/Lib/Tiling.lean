import Mathlib.Data.List.Basic

/-! Pieces of a sequence, collected in any order.

A piece covers the positions from `first p` up to, not including, `last p`. A
collection keeps its pieces in order and apart (`Apart`), puts a new one in its
place (`place`) and refuses one that overlaps; the pieces make up the sequence once
each begins where the one before it ends (`Tiles`). Contents laid out like that stand
at their own positions in the concatenation (`Tiles.content_at`). -/
namespace TwilightLine.Tiling

variable {P : Type*} (first last : P → Nat)

/-- The pieces stand in order and do not overlap. -/
def Apart (pieces : List P) : Prop := pieces.Pairwise fun p q => first p < first q ∧ last p ≤ first q

/-- Every piece begins where the one before it ends, the first one at `n`. -/
def Tiles (n : Nat) : List P → Prop
  | [] => True
  | p :: rest => first p = n ∧ Tiles (last p) rest

instance decidableTiles (n : Nat) (pieces : List P) : Decidable (Tiles first last n pieces) :=
  match pieces with
  | [] => isTrue trivial
  | p :: rest =>
    have := decidableTiles (last p) rest
    inferInstanceAs (Decidable (first p = n ∧ Tiles first last (last p) rest))

/-- The new piece cannot be added: it overlaps a piece, or starts where one does. -/
def Overlaps (new : P) (pieces : List P) : Prop :=
  ∃ p ∈ pieces, first p = first new ∨ (first new < last p ∧ first p < last new)

instance (new : P) (pieces : List P) : Decidable (Overlaps first last new pieces) :=
  inferInstanceAs (Decidable (∃ p ∈ pieces, first p = first new ∨ (first new < last p ∧ first p < last new)))

/-- The new piece in its place. -/
def place (new : P) : List P → List P
  | [] => [new]
  | p :: rest => if first new < first p then new :: p :: rest else p :: place new rest

variable {first last} {new : P} {pieces : List P}

theorem place_perm : (place first new pieces).Perm (new :: pieces) := by
  induction pieces with
  | nil => exact .refl _
  | cons p rest ih =>
    rw [place]
    split
    · exact .refl _
    · exact (ih.cons p).trans (.swap new p rest)

theorem mem_place {p : P} : p ∈ place first new pieces ↔ p = new ∨ p ∈ pieces := by
  rw [place_perm.mem_iff, List.mem_cons]

theorem place_ne_nil : place first new pieces ≠ [] := by
  intro h
  have hmem : new ∈ place first new pieces := mem_place.mpr (.inl rfl)
  rw [h] at hmem
  exact List.not_mem_nil hmem

/-- A piece that starts no earlier than another and does not overlap it starts after it. -/
theorem after_of_not_overlaps (hapart : ¬ Overlaps first last new pieces) {p : P} (hp : p ∈ pieces)
    (hwide : ∀ q ∈ pieces, first q ≤ last q) (hnew : first new ≤ last new) (h : ¬ first new < first p) :
    first p < first new ∧ last p ≤ first new := by
  have hno : ¬ (first p = first new ∨ (first new < last p ∧ first p < last new)) := fun hor => hapart ⟨p, hp, hor⟩
  have := hwide p hp
  omega

/-- **Placing a piece that overlaps none keeps them apart.** -/
theorem Apart.place (h : Apart first last pieces) (hwide : ∀ p ∈ pieces, first p ≤ last p)
    (hnew : first new ≤ last new) (hapart : ¬ Overlaps first last new pieces) :
    Apart first last (place first new pieces) := by
  induction pieces with
  | nil => exact List.pairwise_singleton ..
  | cons p rest ih =>
    obtain ⟨hp, hrest⟩ := List.pairwise_cons.mp h
    rw [Tiling.place]
    split
    · rename_i hlt
      have hpart : ∀ q ∈ p :: rest, first new < first q → first new < first q ∧ last new ≤ first q := by
        intro q hq hq'
        have hno : ¬ (first q = first new ∨ (first new < last q ∧ first q < last new)) :=
          fun hor => hapart ⟨q, hq, hor⟩
        have := hwide q hq
        omega
      refine List.pairwise_cons.mpr ⟨fun q hq => hpart q hq ?_, h⟩
      rcases List.mem_cons.mp hq with rfl | hq
      · exact hlt
      · exact Nat.lt_trans hlt (hp q hq).1
    · rename_i hlt
      have hmem : p ∈ p :: rest := List.mem_cons_self ..
      refine List.pairwise_cons.mpr ⟨?_, ih hrest (fun q hq => hwide q (List.mem_cons_of_mem _ hq))
        (fun ⟨q, hq, hor⟩ => hapart ⟨q, List.mem_cons_of_mem _ hq, hor⟩)⟩
      intro q hq
      rcases mem_place.mp hq with rfl | hq
      · exact after_of_not_overlaps hapart hmem hwide hnew hlt
      · exact hp q hq

/-! ### Contents -/

variable {B : Type*} {content : P → List B}

/-- The pieces of a tiling start no earlier than the tiling does. -/
theorem Tiles.le_first (hlen : ∀ p ∈ pieces, (content p).length = last p - first p) (hwide : ∀ p ∈ pieces, first p ≤ last p)
    {n : Nat} (h : Tiles first last n pieces) {p : P} (hp : p ∈ pieces) : n ≤ first p := by
  induction pieces generalizing n with
  | nil => cases hp
  | cons q rest ih =>
    have hq := hwide q (List.mem_cons_self ..)
    have hn := h.1
    rcases List.mem_cons.mp hp with rfl | hp
    · omega
    · have := ih (fun p hp => hlen p (List.mem_cons_of_mem _ hp)) (fun p hp => hwide p (List.mem_cons_of_mem _ hp)) h.2 hp
      omega

/-- **The contents of a tiling stand at their own positions.** -/
theorem Tiles.content_at (hlen : ∀ p ∈ pieces, (content p).length = last p - first p)
    (hwide : ∀ p ∈ pieces, first p ≤ last p) {n : Nat} (h : Tiles first last n pieces) {p : P} (hp : p ∈ pieces) :
    ((pieces.flatMap content).drop (first p - n)).take (content p).length = content p := by
  induction pieces generalizing n with
  | nil => cases hp
  | cons q rest ih =>
    have hq := hwide q (List.mem_cons_self ..)
    have hqlen := hlen q (List.mem_cons_self ..)
    have hn := h.1
    have hlen' : ∀ p ∈ rest, (content p).length = last p - first p := fun p hp => hlen p (List.mem_cons_of_mem _ hp)
    have hwide' : ∀ p ∈ rest, first p ≤ last p := fun p hp => hwide p (List.mem_cons_of_mem _ hp)
    rw [List.flatMap_cons]
    rcases List.mem_cons.mp hp with rfl | hp
    · rw [hn, Nat.sub_self, List.drop_zero, List.take_left]
    · have hle := h.2.le_first hlen' hwide' hp
      rw [List.drop_append, List.drop_eq_nil_of_le (by omega), List.nil_append,
        show first p - n - (content q).length = first p - last q by omega]
      exact ih hlen' hwide' h.2 hp

end TwilightLine.Tiling
