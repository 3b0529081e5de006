import Mathlib.Data.List.Infix
import Mathlib.Data.List.Nodup
import Mathlib.Tactic.SplitIfs

/-! Pending jobs, as `base/BPending.c` orders them.

A group is a stack: the job set last runs first, and setting a job that is pending
already moves it to the top. Jobs are named by what they do; `J` is the type of the
names. -/
namespace TwilightLine.BPending

variable {J : Type*}

section Stack
variable [DecidableEq J]

/-- `BPending_Set`. -/
def set (j : J) (jobs : List J) : List J := j :: jobs.erase j

/-- `BPending_Unset`. -/
def unset (j : J) (jobs : List J) : List J := jobs.erase j

theorem mem_set {i j : J} {jobs : List J} (h : i ∈ set j jobs) : i = j ∨ i ∈ jobs := by
  rcases List.mem_cons.mp h with h | h
  · exact .inl h
  · exact .inr (List.mem_of_mem_erase h)

theorem mem_set_of_mem {i j : J} {jobs : List J} (h : i ∈ jobs) : i ∈ set j jobs := by
  by_cases hij : i = j
  · exact List.mem_cons.mpr (.inl hij)
  · exact List.mem_cons.mpr (.inr ((List.mem_erase_of_ne hij).mpr h))

theorem set_of_not_mem {j : J} {jobs : List J} (h : j ∉ jobs) : set j jobs = j :: jobs := by
  rw [set, List.erase_of_not_mem h]

theorem nodup_set {jobs : List J} (h : jobs.Nodup) (j : J) : (set j jobs).Nodup :=
  List.nodup_cons.mpr ⟨h.not_mem_erase, h.erase j⟩

/-- A selection of jobs that leaves out `j` does not notice `j`. -/
theorem filterMap_erase {K : Type*} {f : J → Option K} {j : J} (hj : f j = none) (jobs : List J) :
    (jobs.erase j).filterMap f = jobs.filterMap f := by
  induction jobs with
  | nil => rfl
  | cons i rest ih =>
    by_cases h : i = j
    · rw [h, List.erase_cons_head, List.filterMap_cons_none hj]
    · rw [List.erase_cons_tail (by simpa using h), List.filterMap_cons, List.filterMap_cons, ih]

theorem filterMap_set {K : Type*} {f : J → Option K} {j : J} (hj : f j = none) (jobs : List J) :
    (set j jobs).filterMap f = jobs.filterMap f := by
  rw [set, List.filterMap_cons_none hj, filterMap_erase hj]

/-! ### The jobs below another one -/

/-- The jobs below a job. -/
def below (r : J) : List J → List J
  | [] => []
  | j :: rest => if j = r then rest else below r rest

theorem below_sublist (r : J) (jobs : List J) : (below r jobs).Sublist jobs := by
  induction jobs with
  | nil => exact .refl _
  | cons j rest ih =>
    unfold below
    split_ifs
    · exact List.sublist_cons_self ..
    · exact ih.trans (List.sublist_cons_self ..)

theorem below_erase {r o : J} {jobs : List J} (hnd : jobs.Nodup) (ho : o ≠ r) :
    below r (jobs.erase o) = (below r jobs).erase o := by
  induction jobs with
  | nil => rfl
  | cons j rest ih =>
    obtain ⟨hj, hrest⟩ := List.nodup_cons.mp hnd
    by_cases hjo : j = o
    · -- a job that is above another one is not below it
      have hnot : o ∉ below r rest := fun hmem => hj (hjo ▸ (below_sublist r rest).subset hmem)
      rw [hjo, List.erase_cons_head, below, if_neg ho, List.erase_of_not_mem hnot]
    · rw [List.erase_cons_tail (by simpa using hjo), below, below, ih hrest]
      split_ifs <;> rfl

theorem below_set {r o : J} {jobs : List J} (hnd : jobs.Nodup) (ho : o ≠ r) :
    below r (set o jobs) = (below r jobs).erase o := by
  rw [set, below, if_neg ho, below_erase hnd ho]

/-- Below the top job are all others. -/
theorem mem_below_top {r p : J} {rest : List J} (hp : p ∈ r :: rest) (hne : p ≠ r) : p ∈ below r (r :: rest) := by
  rw [below, if_pos rfl]
  exact List.mem_of_ne_of_mem hne hp

/-! ### Two jobs, one right above the other -/

theorem infix_erase {a b j : J} {jobs : List J} (h : [a, b] <:+: jobs) (ha : a ≠ j) (hb : b ≠ j) :
    [a, b] <:+: jobs.erase j := by
  obtain ⟨above, below, rfl⟩ := h
  rw [List.append_assoc, List.erase_append]
  split
  · exact ⟨above.erase j, below, by simp⟩
  · refine ⟨above, below.erase j, ?_⟩
    simp [List.erase_cons_tail, ha, hb]

theorem infix_set {a b j : J} {jobs : List J} (h : [a, b] <:+: jobs) (ha : a ≠ j) (hb : b ≠ j) :
    [a, b] <:+: set j jobs :=
  (infix_erase h ha hb).trans (List.suffix_cons _ _).isInfix

end Stack

/-- Where the upper of the two is the top job, the lower one is next. -/
theorem infix_top {a b : J} {jobs : List J} (hnd : (a :: jobs).Nodup) (h : [a, b] <:+: a :: jobs) :
    ∃ below, jobs = b :: below := by
  obtain ⟨above, below, h⟩ := h
  cases above with
  | nil =>
    rw [List.nil_append, List.cons_append, List.cons.injEq] at h
    exact ⟨below, by simpa using h.2.symm⟩
  | cons x above =>
    rw [List.cons_append, List.cons_append, List.cons.injEq] at h
    have hmem : a ∈ jobs := by
      rw [← h.2]
      simp
    exact absurd hmem (List.nodup_cons.mp hnd).1

/-- The lower of the two is not the top job. -/
theorem infix_not_top {a b : J} {jobs : List J} (hnd : (b :: jobs).Nodup) (hab : a ≠ b)
    (h : [a, b] <:+: b :: jobs) : False := by
  obtain ⟨above, below, h⟩ := h
  cases above with
  | nil =>
    rw [List.nil_append, List.cons_append, List.cons.injEq] at h
    exact hab h.1
  | cons x above =>
    rw [List.cons_append, List.cons_append, List.cons.injEq] at h
    have hmem : b ∈ jobs := by
      rw [← h.2]
      simp
    exact absurd hmem (List.nodup_cons.mp hnd).1

/-- Below another top job the two stay together when it has run. -/
theorem infix_tail {a b i : J} {jobs : List J} (hi : a ≠ i) (h : [a, b] <:+: i :: jobs) :
    [a, b] <:+: jobs := by
  obtain ⟨above, below, h⟩ := h
  cases above with
  | nil =>
    rw [List.nil_append, List.cons_append, List.cons.injEq] at h
    exact absurd h.1 hi
  | cons x above =>
    rw [List.cons_append, List.cons_append, List.cons.injEq] at h
    exact ⟨above, below, h.2⟩

end TwilightLine.BPending
