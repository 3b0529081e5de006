import TwilightLine.Base.BPending
import TwilightLine.Structure.SLinkedList

/-! The pending group of `base/BPending.c`, over its linked list.

Calls come from anywhere, also from a handler that a call executes; a `Call` is such a
tree of calls. The group in memory does to every tree what a stack of jobs does
(`group_refines_stack`): it returns the same, runs the same handlers in the same order,
and none of its assertions fails. -/
namespace TwilightLine.BPending

variable {J H : Type*}

/-- What a call does before it may run a handler. -/
inductive Op (J H : Type*) where
  | init (o : J) (handler : H)
  | free (o : J)
  | setHandler (o : J) (handler : H)
  | set (o : J)
  | unset (o : J)
  | isSet (o : J)
  | hasJobs
  | peekJob
  /-- `BPendingGroup_ExecuteJob`, up to the call of the handler. -/
  | takeJob
  deriving DecidableEq, Repr

/-- A call with the calls that the handler makes. -/
inductive Call (J H : Type*) where
  | op (o : Op J H)
  | executeJob (handlerCalls : List (Call J H))

inductive Returned (J H : Type*) where
  | nothing
  | flag (b : Bool)
  | job (o : Option J)
  /-- The handler of the job is called. -/
  | runs (o : J) (handler : H)
  deriving DecidableEq, Repr

section Calls
variable {S T : Type*} (step : S → Op J H → Option (S × Returned J H))

mutual

def call (s : S) : Call J H → Option (S × List (Returned J H))
  | .op o => (step s o).map fun r => (r.1, [r.2])
  | .executeJob handlerCalls =>
    (step s .takeJob).bind fun r => (calls r.1 handlerCalls).map fun rest => (rest.1, r.2 :: rest.2)

/-- The calls one after the other, with all that they return. -/
def calls (s : S) : List (Call J H) → Option (S × List (Returned J H))
  | [] => some (s, [])
  | c :: rest => (call s c).bind fun r => (calls r.1 rest).map fun r' => (r'.1, r.2 ++ r'.2)

end

variable {step} {stepT : T → Op J H → Option (T × Returned J H)} {R : S → T → Prop}

mutual

theorem call_simulates
    (hstep : ∀ s t o t' r, R s t → stepT t o = some (t', r) → ∃ s', step s o = some (s', r) ∧ R s' t')
    {s : S} {t t' : T} {returned : List (Returned J H)} (hR : R s t) (c : Call J H)
    (h : call stepT t c = some (t', returned)) : ∃ s', call step s c = some (s', returned) ∧ R s' t' := by
  match c with
  | .op o =>
    rw [call] at h
    obtain ⟨⟨t₁, r⟩, ht, heq⟩ := Option.map_eq_some_iff.mp h
    cases heq
    obtain ⟨s', hs, hR'⟩ := hstep _ _ _ _ _ hR ht
    exact ⟨s', by rw [call, hs]; rfl, hR'⟩
  | .executeJob handlerCalls =>
    rw [call] at h
    obtain ⟨⟨t₁, r⟩, ht, h⟩ := Option.bind_eq_some_iff.mp h
    obtain ⟨⟨t₂, rs⟩, ht₂, heq⟩ := Option.map_eq_some_iff.mp h
    cases heq
    obtain ⟨s₁, hs, hR₁⟩ := hstep _ _ _ _ _ hR ht
    obtain ⟨s₂, hs₂, hR₂⟩ := calls_simulates hstep hR₁ handlerCalls ht₂
    exact ⟨s₂, by rw [call, hs, Option.bind_some, hs₂]; rfl, hR₂⟩

/-- Where every step of one machine is one of the other, so are all trees of calls. -/
theorem calls_simulates
    (hstep : ∀ s t o t' r, R s t → stepT t o = some (t', r) → ∃ s', step s o = some (s', r) ∧ R s' t')
    {s : S} {t t' : T} {returned : List (Returned J H)} (hR : R s t) (cs : List (Call J H))
    (h : calls stepT t cs = some (t', returned)) : ∃ s', calls step s cs = some (s', returned) ∧ R s' t' := by
  match cs with
  | [] =>
    rw [calls] at h
    cases h
    exact ⟨s, rfl, hR⟩
  | c :: rest =>
    rw [calls] at h
    obtain ⟨⟨t₁, r⟩, ht, h⟩ := Option.bind_eq_some_iff.mp h
    obtain ⟨⟨t₂, rs⟩, ht₂, heq⟩ := Option.map_eq_some_iff.mp h
    cases heq
    obtain ⟨s₁, hs, hR₁⟩ := call_simulates hstep hR c ht
    obtain ⟨s₂, hs₂, hR₂⟩ := calls_simulates hstep hR₁ rest ht₂
    exact ⟨s₂, by rw [calls, hs, Option.bind_some, hs₂]; rfl, hR₂⟩

end

end Calls

/-! ### The group in memory -/

/-- `BPendingGroup`, and the fields of the `BSmallPending` objects; a handler stands for
`handler` and `user`. -/
structure BPendingGroup (J H : Type*) where
  jobs : SLinkedList J
  pendingCtr : Nat
  handler : J → H
  pending : J → Bool
  /-- The object was initialised and not freed, as its `d_obj` has it. -/
  live : J → Bool

namespace BPendingGroup
variable [DecidableEq J]

/-- `BPendingGroup_Init`, before any object is initialised. -/
def init (nodes : SLinkedList J) (handler : J → H) (pending : J → Bool) : BPendingGroup J H where
  jobs := nodes.init
  pendingCtr := 0
  handler := handler
  pending := pending
  live := fun _ => false

/-- `BPendingGroup_ExecuteJob`, up to the call of the handler. -/
def takeJob (g : BPendingGroup J H) : Option (BPendingGroup J H × J) :=
  match g.jobs.first with
  | none => none
  | some p =>
    if ¬g.jobs.isRemoved p ∧ g.pending p then
      g.jobs.removeFirst.map fun jobs =>
        ({g with jobs := jobs.markRemoved p, pending := Function.update g.pending p false}, p)
    else none

/-- `BSmallPending_Init`. -/
def initJob (g : BPendingGroup J H) (o : J) (handler : H) : BPendingGroup J H where
  jobs := g.jobs.markRemoved o
  pendingCtr := g.pendingCtr + 1
  handler := Function.update g.handler o handler
  pending := Function.update g.pending o false
  live := Function.update g.live o true

/-- `ASSERT(o->pending == !BPending__ListIsRemoved(o))`. -/
def AssertPending (g : BPendingGroup J H) (o : J) : Prop := g.pending o = !g.jobs.isRemoved o

instance (g : BPendingGroup J H) (o : J) : Decidable (g.AssertPending o) := by
  unfold AssertPending
  infer_instance

/-- The jobs without the object, where it is among them. -/
def removeJob (g : BPendingGroup J H) (o : J) : Option (SLinkedList J) :=
  if ¬g.jobs.isRemoved o then g.jobs.remove o else some g.jobs

/-- `BSmallPending_Free`. -/
def freeJob (g : BPendingGroup J H) (o : J) : Option (BPendingGroup J H) :=
  if 0 < g.pendingCtr ∧ g.live o ∧ g.AssertPending o then
    (g.removeJob o).map fun jobs =>
      {g with jobs := jobs, pendingCtr := g.pendingCtr - 1, live := Function.update g.live o false}
  else none

/-- `BSmallPending_SetHandler`. -/
def setHandler (g : BPendingGroup J H) (o : J) (handler : H) : Option (BPendingGroup J H) :=
  if g.live o then some {g with handler := Function.update g.handler o handler} else none

/-- `BSmallPending_Set`. -/
def setJob (g : BPendingGroup J H) (o : J) : Option (BPendingGroup J H) :=
  if g.live o ∧ g.AssertPending o then
    (g.removeJob o).map fun jobs =>
      {g with jobs := jobs.prepend o, pending := Function.update g.pending o true}
  else none

/-- `BSmallPending_Unset`. -/
def unsetJob (g : BPendingGroup J H) (o : J) : Option (BPendingGroup J H) :=
  if g.live o ∧ g.AssertPending o then
    if ¬g.jobs.isRemoved o then
      (g.jobs.remove o).map fun jobs =>
        {g with jobs := jobs.markRemoved o, pending := Function.update g.pending o false}
    else some g
  else none

/-- `BSmallPending_IsSet`. -/
def isSet (g : BPendingGroup J H) (o : J) : Option Bool :=
  if g.live o ∧ g.AssertPending o then some (!g.jobs.isRemoved o) else none

/-- `BPendingGroup_HasJobs`. -/
def hasJobs (g : BPendingGroup J H) : Bool := !g.jobs.isEmpty

/-- `BPendingGroup_PeekJob`. -/
def peekJob (g : BPendingGroup J H) : Option J := g.jobs.first

def step (g : BPendingGroup J H) : Op J H → Option (BPendingGroup J H × Returned J H)
  | .init o handler => some (g.initJob o handler, .nothing)
  | .free o => (g.freeJob o).map fun g => (g, .nothing)
  | .setHandler o handler => (g.setHandler o handler).map fun g => (g, .nothing)
  | .set o => (g.setJob o).map fun g => (g, .nothing)
  | .unset o => (g.unsetJob o).map fun g => (g, .nothing)
  | .isSet o => (g.isSet o).map fun b => (g, .flag b)
  | .hasJobs => some (g, .flag g.hasJobs)
  | .peekJob => some (g, .job g.peekJob)
  | .takeJob => g.takeJob.map fun r => (r.1, .runs r.2 (g.handler r.2))

end BPendingGroup

/-! ### The stack -/

/-- The objects that were initialised and not freed, and the pending ones among them. -/
structure PendingStack (J H : Type*) where
  objects : List J
  handler : J → H
  jobs : List J

namespace PendingStack
variable [DecidableEq J]

/-- The calls on a stack, where their preconditions hold. -/
def step (s : PendingStack J H) : Op J H → Option (PendingStack J H × Returned J H)
  | .init o handler =>
    if o ∉ s.objects then
      some ({s with objects := o :: s.objects, handler := Function.update s.handler o handler}, .nothing)
    else none
  | .free o =>
    if o ∈ s.objects then some ({s with objects := s.objects.erase o, jobs := unset o s.jobs}, .nothing) else none
  | .setHandler o handler =>
    if o ∈ s.objects then some ({s with handler := Function.update s.handler o handler}, .nothing) else none
  | .set o => if o ∈ s.objects then some ({s with jobs := BPending.set o s.jobs}, .nothing) else none
  | .unset o => if o ∈ s.objects then some ({s with jobs := unset o s.jobs}, .nothing) else none
  | .isSet o => if o ∈ s.objects then some (s, .flag (o ∈ s.jobs)) else none
  | .hasJobs => some (s, .flag (s.jobs ≠ []))
  | .peekJob => some (s, .job s.jobs.head?)
  | .takeJob =>
    match s.jobs with
    | [] => none
    | top :: rest => some ({s with jobs := rest}, .runs top (s.handler top))

/-- The job that a call is about. -/
def subject (s : PendingStack J H) : Op J H → Option J
  | .free o | .set o | .unset o => some o
  | .takeJob => s.jobs.head?
  | _ => none

/-- **A call leaves all other jobs pending or not, and in their order.** -/
theorem step_others {s s' : PendingStack J H} {o : Op J H} {r : Returned J H} (h : s.step o = some (s', r)) :
    s'.jobs.filter (some · ≠ s.subject o) = s.jobs.filter (some · ≠ s.subject o) := by
  have herase : ∀ (j : J) (jobs : List J), (jobs.erase j).filter (some · ≠ some j) = jobs.filter (some · ≠ some j) := by
    intro j jobs
    induction jobs with
    | nil => rfl
    | cons i rest ih =>
      by_cases hij : i = j
      · rw [hij, List.erase_cons_head, List.filter_cons_of_neg (by simp)]
      · rw [List.erase_cons_tail (by simpa using hij), List.filter_cons, List.filter_cons, ih]
  cases o with
  | init o handler =>
    obtain ⟨-, h⟩ := Option.ite_none_right_eq_some.mp h
    cases h
    rfl
  | free o =>
    obtain ⟨-, h⟩ := Option.ite_none_right_eq_some.mp h
    cases h
    exact herase o s.jobs
  | setHandler o handler =>
    obtain ⟨-, h⟩ := Option.ite_none_right_eq_some.mp h
    cases h
    rfl
  | set o =>
    obtain ⟨-, h⟩ := Option.ite_none_right_eq_some.mp h
    cases h
    exact (List.filter_cons_of_neg (by simp [subject])).trans (herase o s.jobs)
  | unset o =>
    obtain ⟨-, h⟩ := Option.ite_none_right_eq_some.mp h
    cases h
    exact herase o s.jobs
  | isSet o =>
    obtain ⟨-, h⟩ := Option.ite_none_right_eq_some.mp h
    cases h
    rfl
  | hasJobs =>
    cases h
    rfl
  | peekJob =>
    cases h
    rfl
  | takeJob =>
    simp only [step] at h
    split at h
    · cases h
    · next top rest hjobs =>
      cases h
      rw [hjobs]
      exact (List.filter_cons_of_neg (by simp [subject, hjobs])).symm

end PendingStack

/-! ### The group is a stack -/

section Refines
variable [DecidableEq J] {g : BPendingGroup J H} {t t' : PendingStack J H} {o : J} {r : Returned J H}

/-- The memory of the group is that of the stack. An object is marked as removed exactly
when it is not pending. -/
structure Refines (g : BPendingGroup J H) (t : PendingStack J H) : Prop where
  linked : g.jobs.Linked t.jobs
  objects : t.objects.Nodup
  jobs_live : ∀ j ∈ t.jobs, j ∈ t.objects
  removed : ∀ j ∈ t.objects, g.jobs.isRemoved j = decide (j ∉ t.jobs)
  pending : ∀ j ∈ t.objects, g.pending j = decide (j ∈ t.jobs)
  handler : ∀ j ∈ t.objects, g.handler j = t.handler j
  live : ∀ j, g.live j = decide (j ∈ t.objects)
  pendingCtr : g.pendingCtr = t.objects.length

theorem isRemoved_iff {l : SLinkedList J} {j : J} : l.isRemoved j = true ↔ l.next j = some j := by
  unfold SLinkedList.isRemoved
  rw [decide_eq_true_iff, eq_comm]

theorem isRemoved_congr {l l' : SLinkedList J} {j : J} (h : l'.next j = l.next j) : l'.isRemoved j = l.isRemoved j := by
  unfold SLinkedList.isRemoved
  rw [h]

theorem isRemoved_markRemoved (l : SLinkedList J) (o j : J) :
    (l.markRemoved o).isRemoved j = if j = o then true else l.isRemoved j := by
  by_cases hjo : j = o
  · rw [if_pos hjo, isRemoved_iff, hjo]
    exact Function.update_self ..
  · rw [if_neg hjo]
    exact isRemoved_congr (Function.update_of_ne hjo _ _)

/-- Who is not an entry can be marked. -/
theorem linked_markRemoved {l : SLinkedList J} {jobs : List J} (h : l.Linked jobs) (ho : o ∉ jobs) :
    (l.markRemoved o).Linked jobs := by
  refine ⟨h.nodup, h.first, h.joined.congr (fun x hx => ?_) fun _ _ => rfl⟩
  exact Function.update_of_ne (ne_of_mem_of_not_mem hx ho) _ _

/-- An entry is not marked as removed. -/
theorem linked_isRemoved {l : SLinkedList J} {jobs : List J} (h : l.Linked jobs) (ho : o ∈ jobs) :
    l.isRemoved o = false := by
  rw [Bool.eq_false_iff, Ne, isRemoved_iff]
  exact SLinkedList.Joined.next_ne h.nodup h.joined ho

theorem Refines.assertPending (h : Refines g t) (ho : o ∈ t.objects) : g.AssertPending o := by
  unfold BPendingGroup.AssertPending
  rw [h.pending o ho, h.removed o ho]
  simp

theorem Refines.isLive (h : Refines g t) (ho : o ∈ t.objects) : g.live o = true := by
  rw [h.live]
  exact decide_eq_true ho

/-- The jobs without the object are linked, and no other mark changes. -/
theorem Refines.removeJob (h : Refines g t) (ho : o ∈ t.objects) :
    ∃ l, g.removeJob o = some l ∧ l.Linked (unset o t.jobs) ∧
      ∀ j ∈ t.objects, j ≠ o → l.isRemoved j = decide (j ∉ unset o t.jobs) := by
  unfold BPendingGroup.removeJob unset
  by_cases hjob : o ∈ t.jobs
  · obtain ⟨l, hl, hlinked, hsame⟩ := h.linked.remove hjob
    refine ⟨l, ?_, hlinked, fun j hj hjo => ?_⟩
    · rw [if_pos (by simp [linked_isRemoved h.linked hjob])]
      exact hl
    · simp only [List.mem_erase_of_ne hjo]
      by_cases hmem : j ∈ t.jobs
      · rw [linked_isRemoved hlinked ((List.mem_erase_of_ne hjo).mpr hmem)]
        simp [hmem]
      · rw [isRemoved_congr (hsame j hmem)]
        exact h.removed j hj
  · have hremoved : g.jobs.isRemoved o = true := by
      rw [h.removed o ho]
      exact decide_eq_true hjob
    rw [if_neg (by simp [hremoved]), List.erase_of_not_mem hjob]
    exact ⟨g.jobs, rfl, h.linked, fun j hj _ => h.removed j hj⟩

theorem refines_init (nodes : SLinkedList J) (handler : J → H) (pending : J → Bool) (handler' : J → H) :
    Refines (.init nodes handler pending) ⟨[], handler', []⟩ where
  linked := ⟨List.nodup_nil, rfl, trivial⟩
  objects := List.nodup_nil
  jobs_live := nofun
  removed := nofun
  pending := nofun
  handler := nofun
  live := fun _ => rfl
  pendingCtr := rfl

theorem Refines.initJob (h : Refines g t) (ho : o ∉ t.objects) (handler : H) : Refines (g.initJob o handler)
    {t with objects := o :: t.objects, handler := Function.update t.handler o handler} := by
  have hjob : o ∉ t.jobs := fun hmem => ho (h.jobs_live o hmem)
  have hother : ∀ j ∈ t.objects, j ≠ o := fun j hj => ne_of_mem_of_not_mem hj ho
  refine ⟨linked_markRemoved h.linked hjob, List.nodup_cons.mpr ⟨ho, h.objects⟩, ?_, ?_, ?_, ?_, ?_, ?_⟩
  · exact fun j hj => List.mem_cons_of_mem _ (h.jobs_live j hj)
  · intro j hj
    refine (isRemoved_markRemoved ..).trans ?_
    rcases List.mem_cons.mp hj with rfl | hj
    · rw [if_pos rfl]
      exact (decide_eq_true hjob).symm
    · rw [if_neg (hother j hj)]
      exact h.removed j hj
  · intro j hj
    rcases List.mem_cons.mp hj with rfl | hj
    · refine (Function.update_self ..).trans ?_
      exact (decide_eq_false hjob).symm
    · exact (Function.update_of_ne (hother j hj) _ _).trans (h.pending j hj)
  · intro j hj
    rcases List.mem_cons.mp hj with rfl | hj
    · refine (Function.update_self ..).trans ?_
      exact (Function.update_self j handler t.handler).symm
    · refine (Function.update_of_ne (hother j hj) _ _).trans ?_
      exact (h.handler j hj).trans (Function.update_of_ne (hother j hj) _ _).symm
  · intro j
    show Function.update g.live o true j = decide (j ∈ o :: t.objects)
    by_cases hj : j = o
    · rw [hj, Function.update_self]
      simp
    · rw [Function.update_of_ne hj, h.live]
      simp [hj]
  · show g.pendingCtr + 1 = t.objects.length + 1
    rw [h.pendingCtr]

theorem Refines.freeJob (h : Refines g t) (ho : o ∈ t.objects) : ∃ g', g.freeJob o = some g' ∧
    Refines g' {t with objects := t.objects.erase o, jobs := unset o t.jobs} := by
  obtain ⟨l, hl, hlinked, hremoved⟩ := h.removeJob ho
  have hctr : 0 < g.pendingCtr := by
    rw [h.pendingCtr]
    exact List.length_pos_of_mem ho
  have hmem : ∀ {j}, j ∈ t.objects.erase o → j ≠ o ∧ j ∈ t.objects := fun hj => h.objects.mem_erase_iff.mp hj
  refine ⟨{g with jobs := l, pendingCtr := g.pendingCtr - 1, live := Function.update g.live o false}, ?_, ?_⟩
  · unfold BPendingGroup.freeJob
    rw [if_pos ⟨hctr, h.isLive ho, h.assertPending ho⟩, hl]
    rfl
  · refine ⟨hlinked, h.objects.erase o, ?_, ?_, ?_, ?_, ?_, ?_⟩
    · intro j hj
      have hj : j ≠ o ∧ j ∈ t.jobs := h.linked.nodup.mem_erase_iff.mp hj
      exact h.objects.mem_erase_iff.mpr ⟨hj.1, h.jobs_live j hj.2⟩
    · exact fun j hj => hremoved j (hmem hj).2 (hmem hj).1
    · intro j hj
      refine (h.pending j (hmem hj).2).trans ?_
      show _ = decide (j ∈ t.jobs.erase o)
      simp [List.mem_erase_of_ne (hmem hj).1]
    · exact fun j hj => h.handler j (hmem hj).2
    · intro j
      show Function.update g.live o false j = decide (j ∈ t.objects.erase o)
      by_cases hj : j = o
      · rw [hj, Function.update_self]
        simp [h.objects.not_mem_erase]
      · rw [Function.update_of_ne hj, h.live]
        simp [List.mem_erase_of_ne hj]
    · show g.pendingCtr - 1 = (t.objects.erase o).length
      rw [h.pendingCtr, List.length_erase_of_mem ho]

theorem Refines.setJob (h : Refines g t) (ho : o ∈ t.objects) : ∃ g', g.setJob o = some g' ∧
    Refines g' {t with jobs := BPending.set o t.jobs} := by
  obtain ⟨l, hl, hlinked, hremoved⟩ := h.removeJob ho
  have hnew := hlinked.prepend (h.linked.nodup.not_mem_erase (a := o))
  refine ⟨{g with jobs := l.prepend o, pending := Function.update g.pending o true}, ?_, ?_⟩
  · unfold BPendingGroup.setJob
    rw [if_pos ⟨h.isLive ho, h.assertPending ho⟩, hl]
    rfl
  · refine ⟨hnew, h.objects, ?_, ?_, ?_, h.handler, h.live, h.pendingCtr⟩
    · intro j hj
      rcases mem_set hj with rfl | hj
      · exact ho
      · exact h.jobs_live j hj
    · intro j hj
      by_cases hjo : j = o
      · have hmem : j ∈ BPending.set o t.jobs := hjo ▸ List.mem_cons_self ..
        refine (linked_isRemoved hnew hmem).trans ?_
        exact (decide_eq_false (not_not.mpr hmem)).symm
      · have hsame : (l.prepend o).isRemoved j = l.isRemoved j := isRemoved_congr (Function.update_of_ne hjo _ _)
        refine (hsame.trans (hremoved j hj hjo)).trans ?_
        simp [BPending.set, unset, hjo]
    · intro j hj
      show Function.update g.pending o true j = decide (j ∈ o :: t.jobs.erase o)
      by_cases hjo : j = o
      · rw [hjo, Function.update_self]
        simp
      · rw [Function.update_of_ne hjo, h.pending j hj]
        simp [hjo, List.mem_erase_of_ne hjo]

theorem Refines.unsetJob (h : Refines g t) (ho : o ∈ t.objects) : ∃ g', g.unsetJob o = some g' ∧
    Refines g' {t with jobs := unset o t.jobs} := by
  have hassert : g.live o ∧ g.AssertPending o := ⟨h.isLive ho, h.assertPending ho⟩
  by_cases hjob : o ∈ t.jobs
  · obtain ⟨l, hl, hlinked, hremoved⟩ := h.removeJob ho
    have hmark : ¬g.jobs.isRemoved o = true := by simp [linked_isRemoved h.linked hjob]
    rw [BPendingGroup.removeJob, if_pos hmark] at hl
    have hgone : o ∉ unset o t.jobs := h.linked.nodup.not_mem_erase
    refine ⟨{g with jobs := l.markRemoved o, pending := Function.update g.pending o false}, ?_, ?_⟩
    · unfold BPendingGroup.unsetJob
      rw [if_pos hassert, if_pos hmark, hl]
      rfl
    · refine ⟨linked_markRemoved hlinked hgone, h.objects, ?_, ?_, ?_, h.handler, h.live, h.pendingCtr⟩
      · exact fun j hj => h.jobs_live j (List.mem_of_mem_erase hj)
      · intro j hj
        refine (isRemoved_markRemoved ..).trans ?_
        by_cases hjo : j = o
        · rw [if_pos hjo, hjo]
          exact (decide_eq_true hgone).symm
        · rw [if_neg hjo]
          exact hremoved j hj hjo
      · intro j hj
        show Function.update g.pending o false j = decide (j ∈ unset o t.jobs)
        by_cases hjo : j = o
        · rw [hjo, Function.update_self]
          exact (decide_eq_false hgone).symm
        · rw [Function.update_of_ne hjo, h.pending j hj]
          simp [unset, List.mem_erase_of_ne hjo]
  · have hmark : g.jobs.isRemoved o = true := by
      rw [h.removed o ho]
      exact decide_eq_true hjob
    refine ⟨g, ?_, ?_⟩
    · unfold BPendingGroup.unsetJob
      rw [if_pos hassert, if_neg (by simp [hmark])]
    · rw [unset, List.erase_of_not_mem hjob]
      exact h

theorem Refines.takeJob {rest : List J} (h : Refines g t) (hjobs : t.jobs = o :: rest) :
    ∃ g', g.takeJob = some (g', o) ∧ g'.handler = g.handler ∧ Refines g' {t with jobs := rest} := by
  have hlinked := h.linked
  rw [hjobs] at hlinked
  have hmem : o ∈ t.jobs := hjobs ▸ List.mem_cons_self ..
  have hgone : o ∉ rest := (List.nodup_cons.mp hlinked.nodup).1
  obtain ⟨l, hl, hrest, hnext⟩ := hlinked.removeFirst
  refine ⟨{g with jobs := l.markRemoved o, pending := Function.update g.pending o false}, ?_, rfl, ?_⟩
  · have hassert : ¬g.jobs.isRemoved o = true ∧ g.pending o = true := by
      rw [h.pending o (h.jobs_live o hmem), linked_isRemoved h.linked hmem]
      simp [hmem]
    unfold BPendingGroup.takeJob
    rw [show g.jobs.first = some o from hlinked.first]
    dsimp only
    rw [if_pos hassert, hl]
    rfl
  · refine ⟨linked_markRemoved hrest hgone, h.objects, ?_, ?_, ?_, h.handler, h.live, h.pendingCtr⟩
    · exact fun j hj => h.jobs_live j (hjobs ▸ List.mem_cons_of_mem _ hj)
    · intro j hj
      refine (isRemoved_markRemoved ..).trans ?_
      by_cases hjo : j = o
      · rw [if_pos hjo, hjo]
        exact (decide_eq_true hgone).symm
      · rw [if_neg hjo, isRemoved_congr (congrFun hnext j), h.removed j hj, hjobs]
        simp [hjo]
    · intro j hj
      show Function.update g.pending o false j = decide (j ∈ rest)
      by_cases hjo : j = o
      · rw [hjo, Function.update_self]
        exact (decide_eq_false hgone).symm
      · rw [Function.update_of_ne hjo, h.pending j hj, hjobs]
        simp [hjo]

/-- **Every call does to the memory what it does to the stack.** -/
theorem Refines.step {op : Op J H} (h : Refines g t) (ht : t.step op = some (t', r)) :
    ∃ g', g.step op = some (g', r) ∧ Refines g' t' := by
  cases op with
  | init o handler =>
    obtain ⟨ho, ht⟩ := Option.ite_none_right_eq_some.mp ht
    cases ht
    exact ⟨_, rfl, h.initJob ho handler⟩
  | free o =>
    obtain ⟨ho, ht⟩ := Option.ite_none_right_eq_some.mp ht
    cases ht
    obtain ⟨g', hg, hr⟩ := h.freeJob ho
    exact ⟨g', by rw [BPendingGroup.step, hg]; rfl, hr⟩
  | setHandler o handler =>
    obtain ⟨ho, ht⟩ := Option.ite_none_right_eq_some.mp ht
    cases ht
    refine ⟨{g with handler := Function.update g.handler o handler}, ?_, {h with handler := ?_}⟩
    · rw [BPendingGroup.step, BPendingGroup.setHandler, if_pos (h.isLive ho)]
      rfl
    · intro j hj
      show Function.update g.handler o handler j = Function.update t.handler o handler j
      by_cases hjo : j = o
      · rw [hjo, Function.update_self, Function.update_self]
      · rw [Function.update_of_ne hjo, Function.update_of_ne hjo, h.handler j hj]
  | set o =>
    obtain ⟨ho, ht⟩ := Option.ite_none_right_eq_some.mp ht
    cases ht
    obtain ⟨g', hg, hr⟩ := h.setJob ho
    exact ⟨g', by rw [BPendingGroup.step, hg]; rfl, hr⟩
  | unset o =>
    obtain ⟨ho, ht⟩ := Option.ite_none_right_eq_some.mp ht
    cases ht
    obtain ⟨g', hg, hr⟩ := h.unsetJob ho
    exact ⟨g', by rw [BPendingGroup.step, hg]; rfl, hr⟩
  | isSet o =>
    obtain ⟨ho, ht⟩ := Option.ite_none_right_eq_some.mp ht
    cases ht
    refine ⟨g, ?_, h⟩
    rw [BPendingGroup.step, BPendingGroup.isSet, if_pos ⟨h.isLive ho, h.assertPending ho⟩, h.removed o ho]
    simp
  | hasJobs =>
    cases ht
    refine ⟨g, ?_, h⟩
    rw [BPendingGroup.step, BPendingGroup.hasJobs, SLinkedList.isEmpty, h.linked.first]
    cases t.jobs <;> rfl
  | peekJob =>
    cases ht
    refine ⟨g, ?_, h⟩
    rw [BPendingGroup.step, BPendingGroup.peekJob, h.linked.first]
  | takeJob =>
    simp only [PendingStack.step] at ht
    split at ht
    · cases ht
    · next top rest hjobs =>
      cases ht
      obtain ⟨g', hg, -, hr⟩ := h.takeJob hjobs
      refine ⟨g', ?_, hr⟩
      rw [BPendingGroup.step, hg, Option.map_some, h.handler top (h.jobs_live top (hjobs ▸ List.mem_cons_self ..))]

/-- **The group is a stack of distinct jobs**, for every sequence of calls, also from
inside the handlers that calls execute, and whatever is in memory at the beginning. -/
theorem group_refines_stack (nodes : SLinkedList J) (handler handler' : J → H) (pending : J → Bool)
    (cs : List (Call J H)) (t : PendingStack J H) (returned : List (Returned J H))
    (h : calls PendingStack.step ⟨[], handler', []⟩ cs = some (t, returned)) :
    (∃ g, calls BPendingGroup.step (.init nodes handler pending) cs = some (g, returned) ∧ Refines g t) ∧
      t.jobs.Nodup ∧ ∀ op t' r, t.step op = some (t', r) →
        t'.jobs.filter (some · ≠ t.subject op) = t.jobs.filter (some · ≠ t.subject op) := by
  obtain ⟨g, hg, hr⟩ := calls_simulates (fun _ _ _ _ _ hR => hR.step) (refines_init nodes handler pending handler') cs h
  exact ⟨⟨g, hg, hr⟩, hr.linked.nodup, fun _ _ _ => PendingStack.step_others⟩

end Refines

/-- Three jobs, and the one in the middle is set again; its handler sets it once more and
takes the last one out. -/
def threeJobs : List (Call Nat String) :=
  [.op (.init 1 "a"), .op (.init 2 "b"), .op (.init 3 "c"), .op (.set 1), .op (.set 2), .op (.set 3), .op (.set 2),
    .executeJob [.op (.unset 1), .op (.set 2), .op (.isSet 1)], .op .peekJob, .op (.free 3)]

theorem group_refines_stack_threeJobs :
    ∃ t returned, calls PendingStack.step ⟨[], fun _ => "", []⟩ threeJobs = some (t, returned) ∧ t.jobs = [2] ∧
      ∃ g, calls BPendingGroup.step (.init ⟨some 5, fun _ => some 2, some⟩ (fun _ => "") fun _ => true) threeJobs =
        some (g, returned) := by
  have hstack : (calls PendingStack.step ⟨[], fun _ => "", []⟩ threeJobs).any (fun r => r.1.jobs = [2]) = true := by
    decide +kernel
  obtain ⟨⟨t, returned⟩, h, hjobs⟩ := (Option.any_eq_true _ _).mp hstack
  obtain ⟨⟨g, hg, -⟩, -⟩ := group_refines_stack ⟨some 5, fun _ => some 2, some⟩ (fun _ => "") (fun _ => "")
    (fun _ => true) threeJobs t returned h
  exact ⟨t, returned, h, by simpa using hjobs, g, hg⟩

end TwilightLine.BPending
