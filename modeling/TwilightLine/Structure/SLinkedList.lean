import Mathlib.Data.List.Nodup
import Mathlib.Data.Option.Basic
import Mathlib.Logic.Function.Basic

/-! The linked list of `structure/SLinkedList_impl.h`, as it is used without `last`.

The list is the pointer to its first entry; `next` and `prev` are in the entries. An
entry whose `next` is the entry itself is marked as removed. The `prev` of the first
entry, and of every entry that is in no list, is whatever was last written there.

`Linked` says which entries a list has. Each operation changes them as the list that it
stands for (`Linked.prepend`, `Linked.remove`, `Linked.removeFirst`), and touches the
`next` of its own entries only. -/
namespace TwilightLine

/-- `SLinkedList`, and the nodes of the entries. -/
structure SLinkedList (J : Type*) where
  first : Option J
  next : J → Option J
  prev : J → Option J

namespace SLinkedList
variable {J : Type*} [DecidableEq J]

/-- `SLinkedListMarkRemoved`. -/
def markRemoved (l : SLinkedList J) (entry : J) : SLinkedList J :=
  {l with next := Function.update l.next entry (some entry)}

/-- `SLinkedListIsRemoved`. -/
def isRemoved (l : SLinkedList J) (entry : J) : Bool := some entry = l.next entry

/-- `SLinkedList_Init`. -/
def init (l : SLinkedList J) : SLinkedList J := {l with first := none}

/-- `SLinkedList_IsEmpty`. -/
def isEmpty (l : SLinkedList J) : Bool := l.first.isNone

/-- `SLinkedList_Prepend`. -/
def prepend (l : SLinkedList J) (entry : J) : SLinkedList J :=
  {l with
    next := Function.update l.next entry l.first
    prev := match l.first with
      | some first => Function.update l.prev first (some entry)
      | none => l.prev
    first := some entry}

/-- The nodes before and behind the entry are joined. -/
def unlink (l : SLinkedList J) (entry before : J) : SLinkedList J :=
  {l with
    next := Function.update l.next before (l.next entry)
    prev := match l.next entry with
      | some behind => Function.update l.prev behind (some before)
      | none => l.prev}

/-- `SLinkedList_Remove`; nothing where it would follow a null pointer. -/
def remove (l : SLinkedList J) (entry : J) : Option (SLinkedList J) :=
  if some entry ≠ l.first then (l.prev entry).map (l.unlink entry)
  else some {l with first := l.next entry}

/-- `SLinkedList_RemoveFirst`, where its assertion holds. -/
def removeFirst (l : SLinkedList J) : Option (SLinkedList J) :=
  l.first.map fun first => {l with first := l.next first}

/-! ### The entries of a list -/

/-- The nodes of the entries are joined in this order. -/
def Joined (l : SLinkedList J) : List J → Prop
  | [] => True
  | [a] => l.next a = none
  | a :: b :: rest => l.next a = some b ∧ l.prev b = some a ∧ Joined l (b :: rest)

/-- These are the entries of the list. -/
structure Linked (l : SLinkedList J) (entries : List J) : Prop where
  nodup : entries.Nodup
  first : l.first = entries.head?
  joined : Joined l entries

variable {l l' : SLinkedList J} {a j x : J} {entries rest : List J}

omit [DecidableEq J] in
/-- The `prev` of the first entry does not matter. -/
theorem Joined.congr (h : Joined l entries) (hnext : ∀ x ∈ entries, l'.next x = l.next x)
    (hprev : ∀ x ∈ entries.tail, l'.prev x = l.prev x) : Joined l' entries := by
  induction entries with
  | nil => trivial
  | cons a rest ih =>
    cases rest with
    | nil => exact (hnext a (List.mem_cons_self ..)).trans h
    | cons b rest =>
      obtain ⟨hab, hba, hrest⟩ := h
      refine ⟨(hnext a (List.mem_cons_self ..)).trans hab, (hprev b (List.mem_cons_self ..)).trans hba, ?_⟩
      apply ih hrest
      · exact fun x hx => hnext x (List.mem_cons_of_mem _ hx)
      · exact fun x hx => hprev x (List.mem_cons_of_mem _ hx)

omit [DecidableEq J] in
theorem Joined.tail (h : Joined l (a :: rest)) : Joined l rest := by
  cases rest with
  | nil => trivial
  | cons b rest => exact h.2.2

omit [DecidableEq J] in
theorem Joined.next_first (h : Joined l (a :: rest)) : l.next a = rest.head? := by
  cases rest with
  | nil => exact h
  | cons b rest => exact h.1

omit [DecidableEq J] in
/-- Behind an entry lies one of the entries after the first, or nothing. -/
theorem Joined.next_mem (h : Joined l (a :: rest)) {b c : J} (hb : b ∈ a :: rest) (hc : l.next b = some c) :
    c ∈ rest := by
  induction rest generalizing a with
  | nil =>
    rw [List.mem_singleton.mp hb, show l.next a = none from h] at hc
    cases hc
  | cons d rest ih =>
    rcases List.mem_cons.mp hb with rfl | hb
    · rw [h.1, Option.some.injEq] at hc
      exact hc ▸ List.mem_cons_self ..
    · exact List.mem_cons_of_mem _ (ih h.2.2 hb)

omit [DecidableEq J] in
/-- An entry is not marked as removed. -/
theorem Joined.next_ne (hnd : entries.Nodup) (h : Joined l entries) (hx : x ∈ entries) : l.next x ≠ some x := by
  induction entries with
  | nil => cases hx
  | cons a rest ih =>
    obtain ⟨ha, hrest⟩ := List.nodup_cons.mp hnd
    rcases List.mem_cons.mp hx with rfl | hx
    · exact fun hself => ha (h.next_mem (List.mem_cons_self ..) hself)
    · exact ih hrest h.tail hx

theorem Linked.prepend (h : Linked l entries) (hj : j ∉ entries) : Linked (l.prepend j) (j :: entries) := by
  refine ⟨List.nodup_cons.mpr ⟨hj, h.nodup⟩, rfl, ?_⟩
  have hfirst := h.first
  have hnext : ∀ x ∈ entries, (l.prepend j).next x = l.next x := by
    intro x hx
    exact Function.update_of_ne (ne_of_mem_of_not_mem hx hj) _ _
  have hown : (l.prepend j).next j = entries.head? := by
    rw [← hfirst]
    exact Function.update_self ..
  cases entries with
  | nil => exact hown
  | cons f rest =>
    have hf : f ∉ rest := (List.nodup_cons.mp h.nodup).1
    have hprev : (l.prepend j).prev = Function.update l.prev f (some j) := by
      unfold SLinkedList.prepend
      rw [hfirst]
      rfl
    refine ⟨hown, ?_, h.joined.congr hnext ?_⟩
    · rw [hprev]
      exact Function.update_self ..
    · intro x hx
      rw [hprev]
      exact Function.update_of_ne (ne_of_mem_of_not_mem hx hf) _ _

omit [DecidableEq J] in
theorem Linked.removeFirst (h : Linked l (a :: rest)) :
    ∃ l', l.removeFirst = some l' ∧ Linked l' rest ∧ l'.next = l.next := by
  refine ⟨{l with first := l.next a}, ?_, ⟨?_, h.joined.next_first, ?_⟩, rfl⟩
  · unfold SLinkedList.removeFirst
    rw [h.first]
    rfl
  · exact (List.nodup_cons.mp h.nodup).2
  · exact h.joined.tail.congr (fun _ _ => rfl) fun _ _ => rfl

/-- Behind the first entry, `prev` leads to the entry before, and to join its neighbours
takes the entry out. -/
theorem Joined.unlink (hnd : (a :: rest).Nodup) (h : Joined l (a :: rest)) (hj : j ∈ rest) :
    ∃ before ∈ a :: rest, l.prev j = some before ∧ Joined (l.unlink j before) (a :: rest.erase j) := by
  induction rest generalizing a with
  | nil => cases hj
  | cons c rest ih =>
    obtain ⟨hac, hca, hrest⟩ := h
    obtain ⟨ha, hnd'⟩ := List.nodup_cons.mp hnd
    by_cases hjc : j = c
    · subst hjc
      refine ⟨a, List.mem_cons_self .., hca, ?_⟩
      rw [List.erase_cons_head]
      have hown : (l.unlink j a).next a = rest.head? := by
        rw [← hrest.next_first]
        exact Function.update_self ..
      have hnext : ∀ x ∈ rest, (l.unlink j a).next x = l.next x := by
        intro x hx
        exact Function.update_of_ne (ne_of_mem_of_not_mem (List.mem_cons_of_mem _ hx) ha) _ _
      cases rest with
      | nil => exact hown
      | cons d rest =>
        have hd : d ∉ rest := (List.nodup_cons.mp (List.nodup_cons.mp hnd').2).1
        have hprev : (l.unlink j a).prev = Function.update l.prev d (some a) := by
          unfold SLinkedList.unlink
          rw [hrest.1]
        refine ⟨hown, ?_, hrest.2.2.congr hnext ?_⟩
        · rw [hprev]
          exact Function.update_self ..
        · intro x hx
          rw [hprev]
          exact Function.update_of_ne (ne_of_mem_of_not_mem hx hd) _ _
    · have hj : j ∈ rest := (List.mem_cons.mp hj).resolve_left hjc
      obtain ⟨before, hbefore, hprev, hjoined⟩ := ih hnd' hrest hj
      refine ⟨before, List.mem_cons_of_mem _ hbefore, hprev, ?_⟩
      rw [List.erase_cons_tail (by simpa using fun h => hjc h.symm)]
      refine ⟨?_, ?_, hjoined⟩
      · exact (Function.update_of_ne (ne_of_mem_of_not_mem hbefore ha).symm _ _).trans hac
      · -- The node whose `prev` changes lies behind `j`.
        rw [← hca]
        unfold SLinkedList.unlink
        cases hbehind : l.next j with
        | none => rfl
        | some behind =>
          have hmem := hrest.next_mem (List.mem_cons_of_mem _ hj) hbehind
          exact Function.update_of_ne (ne_of_mem_of_not_mem hmem (List.nodup_cons.mp hnd').1).symm _ _

/-- **A remove takes the entry out, wherever it is.** -/
theorem Linked.remove (h : Linked l entries) (hj : j ∈ entries) :
    ∃ l', l.remove j = some l' ∧ Linked l' (entries.erase j) ∧ ∀ x ∉ entries, l'.next x = l.next x := by
  have hfirst := h.first
  cases entries with
  | nil => cases hj
  | cons a rest =>
    unfold SLinkedList.remove
    by_cases hja : j = a
    · subst hja
      refine ⟨{l with first := l.next j}, ?_, ⟨?_, ?_, ?_⟩, fun _ _ => rfl⟩
      · rw [hfirst]
        exact if_neg (not_not.mpr rfl)
      · exact h.nodup.erase j
      · rw [List.erase_cons_head]
        exact h.joined.next_first
      · rw [List.erase_cons_head]
        exact h.joined.tail.congr (fun _ _ => rfl) fun _ _ => rfl
    · have hmem : j ∈ rest := (List.mem_cons.mp hj).resolve_left hja
      obtain ⟨before, hbefore, hprev, hjoined⟩ := Joined.unlink h.nodup h.joined hmem
      refine ⟨l.unlink j before, ?_, ⟨h.nodup.erase j, ?_, ?_⟩, ?_⟩
      · rw [if_pos (by simpa [hfirst] using hja), hprev]
        rfl
      · rw [List.erase_cons_tail (by simpa using fun h => hja h.symm)]
        exact hfirst
      · rw [List.erase_cons_tail (by simpa using fun h => hja h.symm)]
        exact hjoined
      · intro x hx
        exact Function.update_of_ne (ne_of_mem_of_not_mem hbefore hx).symm _ _

end SLinkedList

end TwilightLine
