import TwilightLine.Base.BPending
import TwilightLine.Lib.Trace

/-! `BReactor_Synchronize` of `system/BReactor_badvpn.c`.

It executes pending jobs until a given one is on top. The handlers of these jobs set and
remove jobs, request the exit of the reactor, and synchronize on marks of their own. What a
handler does is given as a tree, for each job that is executed. -/
namespace TwilightLine.BReactor

open BPending

variable {J : Type*}

/-- The fields of `BReactor` that the jobs are about. -/
structure Jobs (J : Type*) where
  exiting : Bool
  pendingJobs : List J
  deriving DecidableEq, Repr

/-- What the handler of a job does. -/
inductive Action (J : Type*) where
  | set (o : J)
  | unset (o : J)
  | free (o : J)
  /-- `BReactor_Quit`. -/
  | quit
  /-- `BReactor_Synchronize`, with what the handlers of the jobs do that it executes. -/
  | synchronize (ref : J) (handlers : List (List (Action J)))

/-- What happens to the jobs. -/
inductive Logged (J : Type*) where
  /-- A job is set, unset or freed. -/
  | touched (o : J)
  | quit
  /-- The top job of this stack is executed. -/
  | executed (jobs : List J)
  deriving DecidableEq, Repr

/-- How far a call came. -/
inductive Status where
  | returned (value : Bool)
  /-- It goes on, but the handlers are not known. -/
  | running
  /-- A handler synchronizes on a job that it did not set, or that is not pending. -/
  | misused
  /-- There is no job to execute. -/
  | failed
  deriving DecidableEq, Repr

structure Ran (J : Type*) where
  state : Jobs J
  log : List (Logged J)
  status : Status
  deriving DecidableEq, Repr

/-- One call after the other. -/
def Ran.andThen (r : Ran J) (next : Jobs J → Ran J) : Ran J :=
  match r.status with
  | .returned _ => ⟨(next r.state).state, r.log ++ (next r.state).log, (next r.state).status⟩
  | _ => r

/-- The job that an action sets. -/
def Action.pushes : Action J → List J
  | .set o => [o]
  | _ => []

variable [DecidableEq J]

/-- How `BReactor_Synchronize` ends at the top of its loop, or nothing where it executes a job. -/
def stops (s : Jobs J) (ref : J) : Option Status :=
  if s.exiting then some (.returned false)
  else
    match s.pendingJobs with
    | [] => some .failed
    | top :: _ => if top = ref then some (.returned true) else none

/-- `BPendingGroup_ExecuteJob`, up to the call of the handler. -/
def executeJob (s : Jobs J) : Ran J :=
  ⟨{s with pendingJobs := s.pendingJobs.tail}, [.executed s.pendingJobs], .returned true⟩

mutual

/-- An action of a handler that has set some jobs. -/
def perform (s : Jobs J) (pushed : List J) : Action J → Ran J
  | .set o => ⟨{s with pendingJobs := BPending.set o s.pendingJobs}, [.touched o], .returned true⟩
  | .unset o => ⟨{s with pendingJobs := BPending.unset o s.pendingJobs}, [.touched o], .returned true⟩
  | .free o => ⟨{s with pendingJobs := BPending.unset o s.pendingJobs}, [.touched o], .returned true⟩
  | .quit => ⟨{s with exiting := true}, [.quit], .returned true⟩
  | .synchronize ref handlers =>
    if ref ∈ pushed ∧ ref ∈ s.pendingJobs then synchronize s ref handlers else ⟨s, [], .misused⟩

/-- What a handler does. -/
def performAll (s : Jobs J) (pushed : List J) : List (Action J) → Ran J
  | [] => ⟨s, [], .returned true⟩
  | a :: rest => (perform s pushed a).andThen fun s => performAll s (a.pushes ++ pushed) rest

/-- `BReactor_Synchronize`. -/
def synchronize (s : Jobs J) (ref : J) : List (List (Action J)) → Ran J
  | [] =>
    match stops s ref with
    | some status => ⟨s, [], status⟩
    | none => ⟨s, [], .running⟩
  | handler :: handlers =>
    match stops s ref with
    | some status => ⟨s, [], status⟩
    | none =>
      (executeJob s).andThen fun s => (performAll s [] handler).andThen fun s => synchronize s ref handlers

end

/-- What `SYNC_FROMHERE` and `SYNC_COMMIT` do around other calls. -/
def sync (mark : J) (calls : List (Action J)) (handlers : List (List (Action J))) : List (Action J) :=
  .set mark :: calls ++ [.synchronize mark handlers, .free mark]

mutual

/-- Neither these jobs are set, unset or freed, nor a mark while it is synchronized on. -/
def Leaves (refs : List J) : Action J → Prop
  | .set o | .unset o | .free o => o ∉ refs
  | .quit => True
  | .synchronize ref handlers => LeavesHandlers (ref :: refs) handlers

def LeavesAll (refs : List J) : List (Action J) → Prop
  | [] => True
  | a :: rest => Leaves refs a ∧ LeavesAll refs rest

def LeavesHandlers (refs : List J) : List (List (Action J)) → Prop
  | [] => True
  | handler :: handlers => LeavesAll refs handler ∧ LeavesHandlers refs handlers

end

/-- A job keeps its place: it stays pending, below it are the same jobs but those that were touched, and only jobs
above it are executed. -/
structure Kept (r : J) (s : Jobs J) (ran : Ran J) : Prop where
  pending : r ∈ ran.state.pendingJobs
  below : BPending.below r ran.state.pendingJobs =
    (BPending.below r s.pendingJobs).filter fun j => .touched j ∉ ran.log
  executed : ∀ jobs, .executed jobs ∈ ran.log → ∃ top rest, jobs = top :: rest ∧ top ≠ r ∧ r ∈ rest

/-- No job is missing, and all these jobs keep their places. -/
structure Good (refs : List J) (s : Jobs J) (ran : Ran J) : Prop where
  nodup : ran.state.pendingJobs.Nodup
  status : ran.status ≠ .failed
  kept : ∀ r ∈ refs, Kept r s ran

variable {s : Jobs J} {refs pushed : List J} {r ref o : J} {ran : Ran J}

theorem Kept.below_subset (h : Kept r s ran) {j : J} (hj : j ∈ BPending.below r ran.state.pendingJobs) :
    j ∈ BPending.below r s.pendingJobs := by
  rw [h.below] at hj
  exact List.mem_of_mem_filter hj

theorem Kept.trans {ran' : Ran J} (h : Kept r s ran) (h' : Kept r ran.state ran') (status : Status) :
    Kept r s ⟨ran'.state, ran.log ++ ran'.log, status⟩ := by
  refine ⟨h'.pending, ?_, ?_⟩
  · rw [h'.below, h.below, List.filter_filter]
    apply List.filter_congr
    intro j _
    simp [Bool.and_comm]
  · intro jobs hjobs
    rcases List.mem_append.mp hjobs with hjobs | hjobs
    · exact h.executed jobs hjobs
    · exact h'.executed jobs hjobs

/-- The rule for one call after the other. -/
theorem Good.andThen {next : Jobs J → Ran J} (h : Good refs s ran)
    (hnext : ∀ value, ran.status = .returned value → Good refs ran.state (next ran.state)) :
    Good refs s (ran.andThen next) := by
  unfold Ran.andThen
  split
  · next value hvalue =>
    have h' := hnext value hvalue
    exact ⟨h'.nodup, h'.status, fun r hr => (h.kept r hr).trans (h'.kept r hr) _⟩
  · exact h

theorem Good.mono {refs' : List J} (h : Good refs s ran) (hsub : ∀ r ∈ refs', r ∈ refs) : Good refs' s ran :=
  ⟨h.nodup, h.status, fun r hr => h.kept r (hsub r hr)⟩

/-- Nothing is done. -/
theorem good_stop (hnd : s.pendingJobs.Nodup) (hrefs : ∀ r ∈ refs, r ∈ s.pendingJobs) {status : Status}
    (hstatus : status ≠ .failed) : Good refs s ⟨s, [], status⟩ :=
  ⟨hnd, hstatus, fun r hr => ⟨hrefs r hr, by simp, nofun⟩⟩

/-- A job is taken from its place. -/
theorem good_touch {jobs : List J} {value : Bool} (hnd : s.pendingJobs.Nodup) (hrefs : ∀ r ∈ refs, r ∈ s.pendingJobs)
    (hnd' : jobs.Nodup) (hmem : ∀ r ∈ s.pendingJobs, r ≠ o → r ∈ jobs)
    (hbelow : ∀ r, o ≠ r → below r jobs = (below r s.pendingJobs).erase o) (ho : o ∉ refs) :
    Good refs s ⟨{s with pendingJobs := jobs}, [.touched o], .returned value⟩ := by
  refine ⟨hnd', nofun, fun r hr => ?_⟩
  have hne : r ≠ o := ne_of_mem_of_not_mem hr ho
  refine ⟨hmem r (hrefs r hr) hne, ?_, ?_⟩
  · have hbnd : (below r s.pendingJobs).Nodup := (below_sublist r _).nodup hnd
    dsimp only
    rw [hbelow r hne.symm, hbnd.erase_eq_filter]
    apply List.filter_congr
    intro j _
    simp [bne, beq_eq_decide]
  · intro jobs hjobs
    simp at hjobs

/-- What a handler may rely on: what it set is above the jobs that keep their places. -/
structure Ready (refs pushed : List J) (s : Jobs J) : Prop where
  nodup : s.pendingJobs.Nodup
  pending : ∀ r ∈ refs, r ∈ s.pendingJobs
  pushed : ∀ r ∈ refs, ∀ p ∈ pushed, p ≠ r ∧ p ∉ below r s.pendingJobs

theorem Ready.next {a : Action J} (h : Ready refs pushed s) (hleaves : Leaves refs a)
    (hgood : Good refs s (perform s pushed a)) : Ready refs (a.pushes ++ pushed) (perform s pushed a).state := by
  refine ⟨hgood.nodup, fun r hr => (hgood.kept r hr).pending, ?_⟩
  intro r hr p hp
  rcases List.mem_append.mp hp with hp | hp
  · cases a with
    | set o =>
      obtain rfl := List.mem_singleton.mp hp
      refine ⟨fun hpr => hleaves (hpr ▸ hr), fun hmem => ?_⟩
      rw [(hgood.kept r hr).below] at hmem
      simp [perform] at hmem
    | _ => cases hp
  · obtain ⟨hne, hnot⟩ := h.pushed r hr p hp
    exact ⟨hne, fun hmem => hnot ((hgood.kept r hr).below_subset hmem)⟩

/-- The top job is executed, unless `BReactor_Synchronize` stops. -/
theorem good_executeJob (hnd : s.pendingJobs.Nodup) (hpending : ∀ r ∈ refs, r ∈ s.pendingJobs) (href : ref ∈ refs)
    (habove : ∀ r ∈ refs, ref = r ∨ ref ∉ below r s.pendingJobs) (hstops : stops s ref = none) :
    Good refs s (executeJob s) := by
  unfold stops at hstops
  split_ifs at hstops
  split at hstops
  · cases hstops
  · next top rest hjobs =>
    split_ifs at hstops with htop
    rw [hjobs] at hnd hpending habove
    -- the top job is not one that keeps its place: the job that is waited for is not below it
    have hne : ∀ r ∈ refs, top ≠ r := by
      rintro r hr rfl
      rcases habove top hr with heq | hnot
      · exact htop heq.symm
      · exact hnot (mem_below_top (hpending ref href) (Ne.symm htop))
    obtain ⟨-, hrest⟩ := List.nodup_cons.mp hnd
    unfold executeJob
    rw [hjobs]
    refine ⟨hrest, by rintro ⟨⟩, fun r hr => ?_⟩
    have hmem : r ∈ rest := List.mem_of_ne_of_mem (hne r hr).symm (hpending r hr)
    refine ⟨hmem, ?_, ?_⟩
    · dsimp only [List.tail_cons]
      rw [hjobs, below, if_neg (hne r hr)]
      simp
    · intro jobs hmem'
      simp only [List.mem_singleton, Logged.executed.injEq] at hmem'
      exact ⟨top, rest, hmem', hne r hr, hmem⟩

theorem stops_ne_failed {status : Status} (hpending : ref ∈ s.pendingJobs) (h : stops s ref = some status) :
    status ≠ .failed := by
  unfold stops at h
  split_ifs at h
  · cases h
    rintro ⟨⟩
  · split at h
    · next hjobs => simp [hjobs] at hpending
    · split_ifs at h
      cases h
      rintro ⟨⟩

mutual

theorem perform_good {s : Jobs J} {refs pushed : List J} {a : Action J} (h : Ready refs pushed s) (hleaves : Leaves refs a) :
    Good refs s (perform s pushed a) := by
  match a with
  | .set o =>
    exact good_touch h.nodup h.pending (nodup_set h.nodup o) (fun r hr _ => mem_set_of_mem hr)
      (fun r hr => below_set h.nodup hr) hleaves
  | .unset o =>
    exact good_touch h.nodup h.pending (h.nodup.erase o) (fun r hr hne => (List.mem_erase_of_ne hne).mpr hr)
      (fun r hr => below_erase h.nodup hr) hleaves
  | .free o =>
    exact good_touch h.nodup h.pending (h.nodup.erase o) (fun r hr hne => (List.mem_erase_of_ne hne).mpr hr)
      (fun r hr => below_erase h.nodup hr) hleaves
  | .quit => exact ⟨h.nodup, nofun, fun r hr => ⟨h.pending r hr, by simp [perform], fun jobs hjobs => by simp [perform] at hjobs⟩⟩
  | .synchronize ref handlers =>
    rw [perform]
    split_ifs with hmark
    · have hgood : Good (ref :: refs) s (synchronize s ref handlers) := synchronize_good h.nodup
        (List.forall_mem_cons.mpr ⟨hmark.2, h.pending⟩) (List.mem_cons_self ..)
        (List.forall_mem_cons.mpr ⟨.inl rfl, fun r hr => .inr (h.pushed r hr ref hmark.1).2⟩) hleaves
      exact hgood.mono fun r hr => List.mem_cons_of_mem _ hr
    · exact good_stop h.nodup h.pending nofun

theorem performAll_good {s : Jobs J} {refs pushed : List J} {as : List (Action J)} (h : Ready refs pushed s)
    (hleaves : LeavesAll refs as) :
    Good refs s (performAll s pushed as) := by
  match as with
  | [] => exact good_stop h.nodup h.pending nofun
  | a :: rest =>
    have hgood := perform_good h hleaves.1
    exact hgood.andThen fun _ _ => performAll_good (h.next hleaves.1 hgood) hleaves.2

/-- **`BReactor_Synchronize` finds a job to execute, and executes only what is above all these jobs.** -/
theorem synchronize_good {s : Jobs J} {refs : List J} {ref : J} {handlers : List (List (Action J))}
    (hnd : s.pendingJobs.Nodup) (hpending : ∀ r ∈ refs, r ∈ s.pendingJobs) (href : ref ∈ refs)
    (habove : ∀ r ∈ refs, ref = r ∨ ref ∉ below r s.pendingJobs) (hleaves : LeavesHandlers refs handlers) :
    Good refs s (synchronize s ref handlers) := by
  match handlers with
  | [] =>
    rw [synchronize]
    split
    · next status hstops => exact good_stop hnd hpending (stops_ne_failed (hpending ref href) hstops)
    · exact good_stop hnd hpending nofun
  | handler :: handlers =>
    rw [synchronize]
    split
    · next status hstops => exact good_stop hnd hpending (stops_ne_failed (hpending ref href) hstops)
    · next hstops =>
      have hexecute := good_executeJob hnd hpending href habove hstops
      refine hexecute.andThen fun _ _ => ?_
      have hready : Ready refs [] (executeJob s).state :=
        ⟨hexecute.nodup, fun r hr => (hexecute.kept r hr).pending, nofun⟩
      have hhandler := performAll_good hready hleaves.1
      refine hhandler.andThen fun _ _ => ?_
      refine synchronize_good hhandler.nodup (fun r hr => (hhandler.kept r hr).pending) href (fun r hr => ?_) hleaves.2
      refine (habove r hr).imp_right fun hnot hmem => hnot ?_
      exact (hexecute.kept r hr).below_subset ((hhandler.kept r hr).below_subset hmem)

end

/-- No job is executed once the exit is requested. -/
structure Exits (s : Jobs J) (ran : Ran J) : Prop where
  exiting : ran.state.exiting = true ↔ s.exiting = true ∨ .quit ∈ ran.log
  still : s.exiting = true → ∀ jobs, .executed jobs ∉ ran.log
  order : ran.log.Pairwise fun a b => a = .quit → ∀ jobs, b ≠ .executed jobs
  running : ran.status = .running → ran.state.exiting = false

omit [DecidableEq J] in
theorem Exits.andThen {next : Jobs J → Ran J} (h : Exits s ran) (hnext : Exits ran.state (next ran.state)) :
    Exits s (ran.andThen next) := by
  unfold Ran.andThen
  split
  · refine ⟨?_, ?_, List.pairwise_append.mpr ⟨h.order, hnext.order, ?_⟩, hnext.running⟩
    · rw [hnext.exiting, h.exiting, List.mem_append, or_assoc]
    · intro hs jobs hmem
      rcases List.mem_append.mp hmem with hmem | hmem
      · exact h.still hs jobs hmem
      · exact hnext.still (h.exiting.mpr (.inl hs)) jobs hmem
    · rintro a ha b hb rfl jobs rfl
      exact hnext.still (h.exiting.mpr (.inr ha)) jobs hb
  · exact h

omit [DecidableEq J] in
theorem exits_stop {status : Status} (hstatus : status = .running → s.exiting = false) : Exits s ⟨s, [], status⟩ :=
  ⟨by simp, fun _ _ => nofun, List.Pairwise.nil, hstatus⟩

theorem not_exiting (hstops : stops s ref = none) : s.exiting = false := by
  unfold stops at hstops
  split_ifs at hstops with hexiting
  exact Bool.eq_false_iff.mpr hexiting

theorem stops_ne_running {status : Status} (h : stops s ref = some status) : status ≠ .running := by
  unfold stops at h
  split_ifs at h
  · cases h
    rintro ⟨⟩
  · split at h
    · cases h
      rintro ⟨⟩
    · split_ifs at h
      cases h
      rintro ⟨⟩

omit [DecidableEq J] in
theorem exits_executeJob (hexiting : s.exiting = false) : Exits s (executeJob s) :=
  ⟨by simp [executeJob], fun h => by simp [hexiting] at h, List.pairwise_singleton .., nofun⟩

mutual

theorem perform_exits (s : Jobs J) (pushed : List J) (a : Action J) : Exits s (perform s pushed a) := by
  match a with
  | .set o => exact ⟨by simp [perform], fun _ _ => by simp [perform], List.pairwise_singleton .., nofun⟩
  | .unset o => exact ⟨by simp [perform], fun _ _ => by simp [perform], List.pairwise_singleton .., nofun⟩
  | .free o => exact ⟨by simp [perform], fun _ _ => by simp [perform], List.pairwise_singleton .., nofun⟩
  | .quit => exact ⟨by simp [perform], fun _ _ => by simp [perform], List.pairwise_singleton .., nofun⟩
  | .synchronize ref handlers =>
    rw [perform]
    split_ifs
    · exact synchronize_exits s ref handlers
    · exact exits_stop nofun

theorem performAll_exits (s : Jobs J) (pushed : List J) (as : List (Action J)) : Exits s (performAll s pushed as) := by
  match as with
  | [] => exact exits_stop nofun
  | a :: rest => exact (perform_exits s pushed a).andThen (performAll_exits _ _ rest)

theorem synchronize_exits (s : Jobs J) (ref : J) (handlers : List (List (Action J))) :
    Exits s (synchronize s ref handlers) := by
  match handlers with
  | [] =>
    rw [synchronize]
    split
    · next status hstops => exact exits_stop fun h => absurd h (stops_ne_running hstops)
    · next hstops => exact exits_stop fun _ => not_exiting hstops
  | handler :: handlers =>
    rw [synchronize]
    split
    · next status hstops => exact exits_stop fun h => absurd h (stops_ne_running hstops)
    · next hstops =>
      exact (exits_executeJob (not_exiting hstops)).andThen
        ((performAll_exits _ _ handler).andThen (synchronize_exits _ ref handlers))

end

omit [DecidableEq J] in
/-- What comes last returns the value. -/
theorem Ran.andThen_returned {next : Jobs J → Ran J} {value : Bool} (h : (ran.andThen next).status = .returned value) :
    (next ran.state).status = .returned value ∧ (ran.andThen next).state = (next ran.state).state := by
  unfold Ran.andThen at h ⊢
  cases hstatus : ran.status with
  | returned v =>
    rw [hstatus] at h
    exact ⟨h, rfl⟩
  | _ =>
    rw [hstatus] at h
    dsimp only at h
    rw [hstatus] at h
    cases h

/-- It returns at the top of its loop. -/
theorem synchronize_returned {handlers : List (List (Action J))} {value : Bool}
    (h : (synchronize s ref handlers).status = .returned value) :
    stops (synchronize s ref handlers).state ref = some (.returned value) := by
  induction handlers generalizing s with
  | nil =>
    rw [synchronize] at h ⊢
    split at h
    · next status hstops =>
      cases h
      exact hstops
    · cases h
  | cons handler handlers ih =>
    rw [synchronize] at h ⊢
    split at h
    · next status hstops =>
      cases h
      exact hstops
    · obtain ⟨hhandler, hstate⟩ := Ran.andThen_returned h
      obtain ⟨hrest, hstate'⟩ := Ran.andThen_returned hhandler
      rw [hstate, hstate']
      exact ih hrest

theorem stops_true (h : stops s ref = some (.returned true)) : s.exiting = false ∧ ∃ rest, s.pendingJobs = ref :: rest := by
  unfold stops at h
  split_ifs at h with hexiting
  · cases h
  · refine ⟨Bool.eq_false_iff.mpr hexiting, ?_⟩
    split at h
    · cases h
    · next top rest hjobs =>
      split_ifs at h with htop
      exact ⟨rest, htop ▸ hjobs⟩

/-- **`BReactor_Synchronize` waits for a job.** The job is pending at the call, and the handlers leave it and the
marks that are synchronized on. Then there always is a job to execute, and only jobs above the one that is waited for
are executed. If it returns 1, this job is on top, what was above it or was set is not pending, and what was below it
is there as before, but for what the handlers took away. Once a handler requests the exit, no job is executed, and it
returns 0. -/
theorem synchronize_waits {handlers : List (List (Action J))} (hnd : s.pendingJobs.Nodup) (hpending : ref ∈ s.pendingJobs)
    (hleaves : LeavesHandlers [ref] handlers) :
    let ran := synchronize s ref handlers
    ran.status ≠ .failed ∧
    (∀ jobs, .executed jobs ∈ ran.log → ∃ top rest, jobs = top :: rest ∧ top ≠ ref ∧ ref ∈ rest) ∧
    (ran.status = .returned true →
      ran.state.pendingJobs = ref :: (below ref s.pendingJobs).filter (fun j => .touched j ∉ ran.log) ∧
      ∀ j, j ≠ ref → j ∉ below ref s.pendingJobs ∨ .touched j ∈ ran.log → j ∉ ran.state.pendingJobs) ∧
    (s.exiting = true ∨ .quit ∈ ran.log → ran.status = .returned false ∨ ran.status = .misused) ∧
    (s.exiting = true → ∀ jobs, .executed jobs ∉ ran.log) ∧
    ran.log.Pairwise fun a b => a = .quit → ∀ jobs, b ≠ .executed jobs := by
  have hgood : Good [ref] s (synchronize s ref handlers) := by
    refine synchronize_good hnd ?_ (List.mem_singleton_self _) ?_ hleaves
    · exact fun r hr => List.mem_singleton.mp hr ▸ hpending
    · exact fun r hr => .inl (List.mem_singleton.mp hr).symm
  have hexits := synchronize_exits s ref handlers
  have hkept := hgood.kept ref (List.mem_singleton_self _)
  have hjobs : (synchronize s ref handlers).status = .returned true → (synchronize s ref handlers).state.pendingJobs =
      ref :: (below ref s.pendingJobs).filter fun j => .touched j ∉ (synchronize s ref handlers).log := by
    intro hreturned
    obtain ⟨-, rest, hrest⟩ := stops_true (synchronize_returned hreturned)
    rw [← hkept.below, hrest, below, if_pos rfl]
  refine ⟨hgood.status, hkept.executed, fun hreturned => ⟨hjobs hreturned, ?_⟩, ?_, hexits.still, hexits.order⟩
  · intro j hj hgone
    rw [hjobs hreturned, List.mem_cons, not_or]
    refine ⟨hj, fun hmem => ?_⟩
    obtain ⟨hbelow, hnot⟩ := List.mem_filter.mp hmem
    rcases hgone with hgone | hgone
    · exact hgone hbelow
    · simp [hgone] at hnot
  · intro hexit
    have hexiting := hexits.exiting.mpr hexit
    cases hstatus : (synchronize s ref handlers).status with
    | returned value =>
      cases value with
      | false => exact .inl rfl
      | true => simp [(stops_true (synchronize_returned hstatus)).1] at hexiting
    | running => simp [hexits.running hstatus] at hexiting
    | misused => exact .inr rfl
    | failed => exact absurd hstatus hgood.status

/-- A handler synchronizes on its mark while another one pulls up a job from below. -/
def pullsUp : List (List (Action Nat)) := [sync 2 [.set 3] [[.set 7], []]]

theorem synchronize_waits_pullsUp :
    let ran := synchronize ⟨false, [1, 0, 7, 8]⟩ 0 pullsUp
    ran.status ≠ .failed ∧
    (∀ jobs, .executed jobs ∈ ran.log → ∃ top rest, jobs = top :: rest ∧ top ≠ 0 ∧ 0 ∈ rest) ∧
    (ran.status = .returned true →
      ran.state.pendingJobs = 0 :: (below 0 [1, 0, 7, 8]).filter (fun j => .touched j ∉ ran.log) ∧
      ∀ j, j ≠ 0 → j ∉ below 0 [1, 0, 7, 8] ∨ .touched j ∈ ran.log → j ∉ ran.state.pendingJobs) ∧
    (false = true ∨ .quit ∈ ran.log → ran.status = .returned false ∨ ran.status = .misused) ∧
    (false = true → ∀ jobs, .executed jobs ∉ ran.log) ∧
    ran.log.Pairwise fun a b => a = .quit → ∀ jobs, b ≠ .executed jobs :=
  synchronize_waits (s := ⟨false, [1, 0, 7, 8]⟩) (by decide) (by decide)
    (by simp [pullsUp, sync, LeavesHandlers, LeavesAll, Leaves])

/-- A handler synchronizes on a mark, and the handler of another job removes this mark: then the job that is waited
for is executed, and none is left. -/
theorem mark_removed :
    let ran := synchronize ⟨false, [1, 0]⟩ 0 [sync 2 [.set 3] [[.unset 2], []]]
    .touched 0 ∉ ran.log ∧ .executed [0] ∈ ran.log ∧ ran.status = .failed := by
  decide

end TwilightLine.BReactor
