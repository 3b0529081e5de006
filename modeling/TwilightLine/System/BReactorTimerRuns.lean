import TwilightLine.System.BReactorTimers
import TwilightLine.Lib.OrderedTree
import Mathlib.Data.Int.ConditionallyCompleteOrder
import Mathlib.Data.List.Nodup
import Mathlib.Data.List.TakeWhile

/-! Runs of the reactor's timers.

What users see of the timers is what `TimerSpec` allows: there a timer is armed for a time
or it is not, and a handler runs only at or after that time and disarms the timer. The
reactor keeps the armed timers in the tree and in the expired list, both in the order of
time. -/
namespace TwilightLine.Reactor

/-! ### What timers are for -/

/-- The times for which the timers are armed. -/
abbrev TimerSpec := Nat → Option Int

namespace TimerSpec

def step (armed : TimerSpec) : TimerEvent → Option TimerSpec
  | .set t absTime => some (Function.update armed t (some absTime))
  | .removed t => some (Function.update armed t none)
  | .handler t clock => if (armed t).any (· ≤ clock) then some (Function.update armed t none) else none

end TimerSpec

/-- The timers that the reactor has armed. -/
def BReactor.armed (s : BReactor) : TimerSpec := fun t =>
  if (s.timers t).state = .inactive then none else some (s.timers t).absTime

/-! ### Where the timers are -/

/-- Each timer is where its state says, and the tree is in order. -/
structure Placed (s : BReactor) : Prop where
  running : ∀ t, (s.timers t).state = .running ↔ t ∈ s.timersTree
  expired : ∀ t, (s.timers t).state = .expired ↔ t ∈ s.timersExpiredList
  treeNodup : s.timersTree.Nodup
  listNodup : s.timersExpiredList.Nodup
  sorted : s.timersTree.Pairwise fun t u => (s.timers t).absTime ≤ (s.timers u).absTime

variable {s s' : BReactor} {t u : Nat}

theorem bCompareTime_compares : OrderedTree.Compares bCompareTime id where
  lt {a b} h := by
    unfold bCompareTime at h
    split at h <;> split at h <;> simp only [id] <;> omega
  ge {a b} h := by
    unfold bCompareTime at h
    split at h <;> split at h <;> simp only [id] <;> omega
  eq {a b} h := by
    unfold bCompareTime at h
    split at h <;> split at h <;> omega

theorem bComparePtr_eq {a b : Nat} (h : bComparePtr a b = 0) : a = b := by
  unfold bComparePtr at h
  split at h <;> split at h <;> omega

theorem compareTimers_compares (s : BReactor) :
    OrderedTree.Compares s.compareTimers fun t => (s.timers t).absTime :=
  .byKey bCompareTime_compares bComparePtr_eq _

theorem treeInsert_eq (s : BReactor) (t : Nat) (l : List Nat) :
    s.treeInsert t l = OrderedTree.insert s.compareTimers t l := by
  induction l with
  | nil => rfl
  | cons u rest ih => rw [BReactor.treeInsert, OrderedTree.insert, ih]

/-- Wherever the timer is, it is taken out. -/
theorem Placed.removeSmallTimer_eq (hp : Placed s) (t : Nat) :
    s.removeSmallTimer t = {s with
      timers := Function.update s.timers t {s.timers t with state := .inactive}
      timersTree := s.timersTree.erase t
      timersExpiredList := s.timersExpiredList.erase t} := by
  have htree : (s.timers t).state ≠ .running → s.timersTree.erase t = s.timersTree :=
    fun h => List.erase_of_not_mem (fun hmem => h ((hp.running t).mpr hmem))
  have hlist : (s.timers t).state ≠ .expired → s.timersExpiredList.erase t = s.timersExpiredList :=
    fun h => List.erase_of_not_mem (fun hmem => h ((hp.expired t).mpr hmem))
  unfold BReactor.removeSmallTimer BReactor.setTimerState
  cases hstate : (s.timers t).state with
  | inactive =>
    have hsame : Function.update s.timers t {s.timers t with state := .inactive} = s.timers := by
      rw [← hstate]
      exact Function.update_eq_self ..
    rw [htree (by simp [hstate]), hlist (by simp [hstate]), hsame]
  | running =>
    rw [hlist (by simp [hstate])]
  | expired =>
    rw [htree (by simp [hstate])]

theorem Placed.removeSmallTimer (hp : Placed s) (t : Nat) : Placed (s.removeSmallTimer t) := by
  rw [hp.removeSmallTimer_eq]
  refine ⟨fun u => ?_, fun u => ?_, hp.treeNodup.erase t, hp.listNodup.erase t, ?_⟩
  · by_cases hu : u = t
    · subst hu
      simp [hp.treeNodup.mem_erase_iff]
    · simp [hu, hp.treeNodup.mem_erase_iff, hp.running u]
  · by_cases hu : u = t
    · subst hu
      simp [hp.listNodup.mem_erase_iff]
    · simp [hu, hp.listNodup.mem_erase_iff, hp.expired u]
  · refine (hp.sorted.sublist List.erase_sublist).imp_of_mem ?_
    intro u v hu hv hle
    rw [hp.treeNodup.mem_erase_iff] at hu hv
    simpa [hu.1, hv.1] using hle

/-- A timer is set: the others stay as they are. -/
theorem Placed.setSmallTimer (hp : Placed s) (t : Nat) (mode : TimerMode) (time now : Int) :
    ∃ s', s.setSmallTimer t mode time now = some s' ∧ Placed s' ∧
      s'.timers = Function.update s.timers t ⟨if mode = .relative then btimeAdd now time else time, .running⟩ ∧
      s'.timersExpiredList = s.timersExpiredList.erase t ∧ s'.timersTree.Perm (t :: s.timersTree.erase t) ∧
      s'.wait = s.wait ∧ s'.exiting = s.exiting := by
  have hr := hp.removeSmallTimer t
  rw [hp.removeSmallTimer_eq] at hr
  unfold BReactor.setSmallTimer
  rw [hp.removeSmallTimer_eq]
  dsimp only
  generalize (if mode = .relative then btimeAdd now time else time) = absTime
  rw [Function.update_idem]
  have hnot : t ∉ s.timersTree.erase t := hp.treeNodup.not_mem_erase
  have hnotList : t ∉ s.timersExpiredList.erase t := hp.listNodup.not_mem_erase
  obtain ⟨tree, htree, hperm, hsorted⟩ := OrderedTree.insert_spec (compareTimers_compares
    {s with
      timers := Function.update s.timers t ⟨absTime, .running⟩
      timersTree := s.timersTree.erase t
      timersExpiredList := s.timersExpiredList.erase t}) hnot (by
    refine hr.sorted.imp_of_mem ?_
    intro u v hu hv hle
    have hut : u ≠ t := ne_of_mem_of_not_mem hu hnot
    have hvt : v ≠ t := ne_of_mem_of_not_mem hv hnot
    simpa [hut, hvt] using hle)
  rw [treeInsert_eq, htree]
  refine ⟨_, rfl, ⟨fun u => ?_, fun u => ?_, ?_, hr.listNodup, hsorted⟩, rfl, rfl, hperm, rfl, rfl⟩
  · dsimp only
    rw [hperm.mem_iff, List.mem_cons]
    by_cases hu : u = t
    · simp [hu]
    · have := hr.running u
      simp only [Function.update_of_ne hu] at this ⊢
      simp [this, hu]
  · dsimp only
    by_cases hu : u = t
    · subst hu
      simp [hnotList]
    · have := hr.expired u
      simp only [Function.update_of_ne hu] at this ⊢
      exact this
  · exact hperm.nodup_iff.mpr (List.nodup_cons.mpr ⟨hnot, hr.treeNodup⟩)

/-! ### Timers that time out -/

theorem expire_absTime (s : BReactor) (t u : Nat) : ((s.expire t).timers u).absTime = (s.timers u).absTime := by
  by_cases hu : u = t
  · subst hu
    simp [BReactor.expire, BReactor.setTimerState]
  · simp [BReactor.expire, BReactor.setTimerState, hu]

/-- The loop moves the first timers of the tree, up to the limit. -/
theorem moveTimers_eq (s : BReactor) (limit : Int) (l : List Nat) :
    s.moveTimers limit l = {s with
      timers := fun t =>
        if t ∈ l.takeWhile (fun t => (s.timers t).absTime ≤ limit) then {s.timers t with state := .expired}
        else s.timers t
      timersTree := l.dropWhile fun t => (s.timers t).absTime ≤ limit
      timersExpiredList := s.timersExpiredList ++ l.takeWhile fun t => (s.timers t).absTime ≤ limit} := by
  induction l generalizing s with
  | nil => simp [BReactor.moveTimers]
  | cons t rest ih =>
    unfold BReactor.moveTimers
    by_cases hlate : (s.timers t).absTime > limit
    · rw [if_pos hlate]
      have hnot : ¬(s.timers t).absTime ≤ limit := by omega
      simp [hnot]
    · have hle : (s.timers t).absTime ≤ limit := by omega
      rw [if_neg hlate, ih]
      simp only [expire_absTime, List.takeWhile_cons, List.dropWhile_cons, hle, decide_true, if_true]
      have htimers : (fun u =>
          if u ∈ rest.takeWhile (fun t => (s.timers t).absTime ≤ limit) then ⟨(s.timers u).absTime, .expired⟩
          else (s.expire t).timers u) = fun u =>
          if u ∈ t :: rest.takeWhile (fun t => (s.timers t).absTime ≤ limit) then ⟨(s.timers u).absTime, .expired⟩
          else s.timers u := by
        funext u
        by_cases hu : u = t
        · subst hu
          simp [BReactor.expire, BReactor.setTimerState]
        · simp [BReactor.expire, BReactor.setTimerState, hu]
      rw [htimers]
      simp [BReactor.expire, BReactor.setTimerState]

/-- What happens when the expired list is empty and timers up to a limit are moved to it. -/
structure Moves (s s' : BReactor) (limit : Int) : Prop where
  placed : Placed s'
  absTime : ∀ t, (s'.timers t).absTime = (s.timers t).absTime
  armed : s'.armed = s.armed
  due : ∀ t ∈ s'.timersExpiredList, (s'.timers t).absTime ≤ limit
  order : (s'.timersExpiredList.map fun t => (s'.timers t).absTime).Pairwise (· ≤ ·)
  tree : ∀ t ∈ s'.timersTree, t ∈ s.timersTree
  /-- Only timers above the limit stay. -/
  late : ∀ t ∈ s'.timersTree, limit < (s'.timers t).absTime

theorem Moves.setWait {limit : Int} (h : Moves s s' limit) (wait : WaitState) : Moves s {s' with wait := wait} limit :=
  ⟨⟨h.placed.running, h.placed.expired, h.placed.treeNodup, h.placed.listNodup, h.placed.sorted⟩, h.absTime, h.armed,
    h.due, h.order, h.tree, h.late⟩

theorem moveTimers_moves (hp : Placed s) (hnil : s.timersExpiredList = []) (limit : Int) :
    Moves s (s.moveTimers limit s.timersTree) limit := by
  rw [moveTimers_eq]
  set p : Nat → Bool := fun t => (s.timers t).absTime ≤ limit with hpdef
  have hsplit : s.timersTree.takeWhile p ++ s.timersTree.dropWhile p = s.timersTree := List.takeWhile_append_dropWhile
  have hnodup := hp.treeNodup
  have hsorted := hp.sorted
  rw [← hsplit] at hnodup hsorted
  rw [List.nodup_append] at hnodup
  rw [List.pairwise_append] at hsorted
  obtain ⟨htake, hdrop, hdisjoint⟩ := hnodup
  have hmem : ∀ t, t ∈ s.timersTree ↔ t ∈ s.timersTree.takeWhile p ∨ t ∈ s.timersTree.dropWhile p := by
    intro t
    rw [← List.mem_append, hsplit]
  have hnotDrop : ∀ {t}, t ∈ s.timersTree.takeWhile p → t ∉ s.timersTree.dropWhile p :=
    fun h₁ h₂ => hdisjoint _ h₁ _ h₂ rfl
  have habs : ∀ t, (if t ∈ s.timersTree.takeWhile p then {s.timers t with state := .expired} else s.timers t).absTime =
      (s.timers t).absTime := by
    intro t
    split <;> rfl
  have hnone : ∀ t, (s.timers t).state ≠ .expired := by
    intro t h
    have := (hp.expired t).mp h
    rw [hnil] at this
    cases this
  refine ⟨⟨fun t => ?_, fun t => ?_, hdrop, ?_, ?_⟩, habs, ?_, ?_, ?_, ?_, ?_⟩
  · dsimp only
    by_cases ht : t ∈ s.timersTree.takeWhile p
    · simp [ht, hnotDrop ht]
    · rw [if_neg ht, hp.running t, hmem t]
      simp [ht]
  · dsimp only
    rw [hnil, List.nil_append]
    by_cases ht : t ∈ s.timersTree.takeWhile p
    · simp [ht]
    · simp [ht, hnone t]
  · rw [hnil]
    exact htake
  · simp only [habs]
    exact hsorted.2.1
  · funext t
    by_cases ht : t ∈ s.timersTree.takeWhile p
    · have hrunning := (hp.running t).mpr ((hmem t).mpr (.inl ht))
      simp [BReactor.armed, ht, hrunning]
    · simp [BReactor.armed, ht]
  · intro t ht
    dsimp only at ht ⊢
    rw [hnil, List.nil_append] at ht
    rw [habs]
    have hle := List.mem_takeWhile_imp ht
    simpa [hpdef] using hle
  · simp only [habs]
    rw [hnil, List.nil_append, List.pairwise_map]
    exact hsorted.1
  · exact fun t ht => (hmem t).mpr (.inr ht)
  · intro t ht
    dsimp only at ht ⊢
    rw [habs]
    -- The first timer that stays is above the limit, and the others are not before it.
    cases hrest : s.timersTree.dropWhile p with
    | nil =>
      rw [hrest] at ht
      cases ht
    | cons u rest =>
      have hu : ¬p u = true := by
        have := List.head_dropWhile_not p (l := s.timersTree) (by rw [hrest]; simp)
        simpa [hrest] using this
      have hfirst : limit < (s.timers u).absTime := by
        simpa [hpdef] using hu
      rw [hrest] at ht
      have horder := hsorted.2.1
      rw [hrest] at horder
      rcases List.mem_cons.mp ht with rfl | ht
      · exact hfirst
      · exact hfirst.trans_le ((List.pairwise_cons.mp horder).1 t ht)

/-- The first timers are those up to the time of the first. -/
theorem moveFirstTimers_eq {rest : List Nat} (h : s.timersTree = t :: rest) :
    s.moveFirstTimers = some (s.moveTimers (s.timers t).absTime s.timersTree) := by
  unfold BReactor.moveFirstTimers
  rw [h]
  dsimp only
  rw [BReactor.moveTimers, if_neg (lt_irrefl _)]

/-! ### The event loop -/

/-- The time that `wait_for_events` waits for is that of the first timer. -/
def FirstTime (s : BReactor) (timeoutAbs : Option Int) : Prop :=
  timeoutAbs = s.timersTree.head?.map fun t => (s.timers t).absTime

/-- What holds where the event loop is. -/
def WaitOk (r : ReactorRun) : Prop :=
  match r.s.wait with
  | .none => True
  | .compute timeoutAbs now => r.s.timersExpiredList = [] ∧ FirstTime r.s timeoutAbs ∧
      ∀ a, timeoutAbs = some a → 0 ≤ now ∧ now < a ∧ now ≤ r.clock
  | .epoll timeoutAbs rel trunc => r.s.timersExpiredList = [] ∧ FirstTime r.s timeoutAbs ∧
      ∀ a, timeoutAbs = some a → trunc = rel → a ≤ r.epollEnd
  | .tryAgain timeoutAbs => r.s.timersExpiredList = [] ∧ FirstTime r.s timeoutAbs

/-- What holds in every run. -/
structure Inv (r : ReactorRun) : Prop where
  placed : Placed r.s
  due : ∀ t ∈ r.s.timersExpiredList, (r.s.timers t).absTime ≤ r.clock
  batch : (r.batch ++ r.s.timersExpiredList.map fun t => (r.s.timers t).absTime).Pairwise (· ≤ ·)
  events : Run.run TimerSpec.step (fun _ => none) r.events = some r.s.armed
  range : ∀ t ∈ r.s.timersTree, (r.s.timers t).absTime ≤ btimeMax
  clock : 0 ≤ r.clock
  wait : WaitOk r

variable {r r' : ReactorRun}

theorem waitOk_none (h : r.s.wait = .none) : WaitOk r := by
  unfold WaitOk
  rw [h]
  trivial

theorem inv_init (absTime : Nat → Int) : Inv (.init absTime) where
  placed := ⟨by simp [ReactorRun.init], by simp [ReactorRun.init], .nil, .nil, .nil⟩
  due := nofun
  batch := .nil
  events := rfl
  range := nofun
  clock := Int.le_refl 0
  wait := trivial

theorem btimeAdd_le (t1 t2 : Int) : btimeAdd t1 t2 ≤ btimeMax := by
  unfold btimeAdd
  split
  · exact Int.le_refl _
  · split
    · decide
    · omega

/-- The expired list was filled. -/
theorem Inv.moved (hinv : Inv r) {limit : Int} (hnil : r.s.timersExpiredList = []) (hm : Moves r.s s' limit)
    (hlimit : limit ≤ r.clock) (hwait : s'.wait = .none) : Inv (r.moved s') where
  placed := hm.placed
  due t ht := (hm.due t ht).trans hlimit
  batch := by
    show ((if _ then [] else r.batch) ++ s'.timersExpiredList.map fun t => (s'.timers t).absTime).Pairwise _
    by_cases hempty : s'.timersExpiredList = []
    · rw [if_neg (fun h => h.2 hempty)]
      have hbatch := hinv.batch
      rw [hnil] at hbatch
      rw [hempty]
      exact hbatch
    · rw [if_pos ⟨hnil, hempty⟩, List.nil_append]
      exact hm.order
  events := hinv.events.trans (congrArg some hm.armed.symm)
  range t ht := by
    show (s'.timers t).absTime ≤ _
    rw [hm.absTime]
    exact hinv.range t (hm.tree t ht)
  clock := hinv.clock
  wait := waitOk_none hwait

/-- The timers are left alone. -/
theorem Inv.same (hinv : Inv r) (htimers : s'.timers = r.s.timers) (htree : s'.timersTree = r.s.timersTree)
    (hlist : s'.timersExpiredList = r.s.timersExpiredList) {epollEnd : Int}
    (hwait : WaitOk {r with s := s', epollEnd := epollEnd}) : Inv {r with s := s', epollEnd := epollEnd} where
  placed := by
    refine ⟨?_, ?_, ?_, ?_, ?_⟩ <;> dsimp only <;> simp only [htimers, htree, hlist]
    · exact hinv.placed.running
    · exact hinv.placed.expired
    · exact hinv.placed.treeNodup
    · exact hinv.placed.listNodup
    · exact hinv.placed.sorted
  due := by
    dsimp only
    rw [htimers, hlist]
    exact hinv.due
  batch := by
    dsimp only
    rw [htimers, hlist]
    exact hinv.batch
  events := by
    have harmed : s'.armed = r.s.armed := by
      funext t
      rw [BReactor.armed, BReactor.armed, htimers]
    exact hinv.events.trans (congrArg some harmed.symm)
  range := by
    dsimp only
    rw [htimers, htree]
    exact hinv.range
  clock := hinv.clock
  wait := hwait

theorem Inv.movedSame (hinv : Inv r) (htimers : s'.timers = r.s.timers) (htree : s'.timersTree = r.s.timersTree)
    (hlist : s'.timersExpiredList = r.s.timersExpiredList) (hwait : WaitOk {r with s := s'}) : Inv (r.moved s') := by
  have hmoved : r.moved s' = {r with s := s'} := by
    rw [ReactorRun.moved, if_neg]
    rintro ⟨hnil, hne⟩
    exact hne (hlist.trans hnil)
  rw [hmoved]
  exact hinv.same htimers htree hlist hwait

theorem moveTimers_wait (s : BReactor) (limit : Int) (l : List Nat) : (s.moveTimers limit l).wait = s.wait := by
  rw [moveTimers_eq]

theorem FirstTime.some (hf : FirstTime s (some a)) : ∃ t rest, s.timersTree = t :: rest ∧ (s.timers t).absTime = a := by
  obtain ⟨t, ht, ha⟩ := Option.map_eq_some_iff.mp hf.symm
  exact ⟨t, _, (List.cons_head?_tail (Option.mem_def.mpr ht)).symm, ha⟩

/-- `move_first_timers` when the time has come. -/
theorem Inv.moveFirst (hinv : Inv r) (hnil : r.s.timersExpiredList = []) {a : Int} (hf : FirstTime r.s (some a))
    (ha : a ≤ r.clock) : ∃ s', (r.s.moveFirstTimers.map fun s => {s with wait := WaitState.none}) = some s' ∧ Inv (r.moved s') := by
  obtain ⟨t, rest, htree, htime⟩ := hf.some
  rw [moveFirstTimers_eq htree]
  refine ⟨_, rfl, hinv.moved hnil ((moveTimers_moves hinv.placed hnil _).setWait .none) ?_ rfl⟩
  rw [htime]
  exact ha

theorem Inv.tick (hinv : Inv r) (d : Nat) : Inv {r with clock := r.clock + d} where
  placed := hinv.placed
  due t ht := (hinv.due t ht).trans (by dsimp only; omega)
  batch := hinv.batch
  events := hinv.events
  range := hinv.range
  clock := by
    have := hinv.clock
    dsimp only
    omega
  wait := by
    have hwait := hinv.wait
    unfold WaitOk at hwait ⊢
    dsimp only
    split at hwait
    · trivial
    · refine ⟨hwait.1, hwait.2.1, fun a ha => ?_⟩
      have := hwait.2.2 a ha
      omega
    · exact hwait
    · exact hwait

/-- A timer is armed anew, and leaves the expired list. -/
theorem Inv.setSmallTimer (hinv : Inv r) (t : Nat) (mode : TimerMode) (hwait : r.s.wait = .none) {time : Int}
    (htime : time ≤ btimeMax) : ∃ s', r.s.setSmallTimer t mode time r.clock = some s' ∧
      Inv {r with s := s', events := r.events ++ [.set t (s'.timers t).absTime]} := by
  obtain ⟨s', hs', hplaced, htimers, hlist, htree, hw, -⟩ := hinv.placed.setSmallTimer t mode time r.clock
  have hother : ∀ u, u ≠ t → s'.timers u = r.s.timers u := by
    intro u hu
    rw [htimers, Function.update_of_ne hu]
  have hmem : ∀ u ∈ s'.timersExpiredList, u ∈ r.s.timersExpiredList ∧ u ≠ t := by
    intro u hu
    rw [hlist, hinv.placed.listNodup.mem_erase_iff] at hu
    exact ⟨hu.2, hu.1⟩
  refine ⟨s', hs', hplaced, ?_, ?_, ?_, ?_, hinv.clock, waitOk_none (hw.trans hwait)⟩
  · intro u hu
    dsimp only
    rw [hother u (hmem u hu).2]
    exact hinv.due u (hmem u hu).1
  · have hmap : (s'.timersExpiredList.map fun u => (s'.timers u).absTime) =
        s'.timersExpiredList.map fun u => (r.s.timers u).absTime :=
      List.map_congr_left fun u hu => congrArg BSmallTimer.absTime (hother u (hmem u hu).2)
    dsimp only
    rw [hmap, hlist]
    exact hinv.batch.sublist (List.Sublist.append_left (List.erase_sublist.map _) _)
  · refine Run.run_concat hinv.events (congrArg some ?_)
    funext u
    by_cases hu : u = t
    · subst hu
      simp [BReactor.armed, htimers]
    · simp [BReactor.armed, hother u hu, hu]
  · intro u hu
    dsimp only at hu ⊢
    by_cases hut : u = t
    · rw [hut, htimers, Function.update_self]
      dsimp only
      split
      · exact btimeAdd_le ..
      · exact htime
    · rw [hother u hut]
      have hu := (List.mem_cons.mp (htree.mem_iff.mp hu)).resolve_left hut
      exact hinv.range u (List.mem_of_mem_erase hu)

theorem Inv.removeSmallTimer (hinv : Inv r) (hwait : r.s.wait = .none) (t : Nat) :
    Inv {r with s := r.s.removeSmallTimer t, events := r.events ++ [.removed t]} := by
  have heq := hinv.placed.removeSmallTimer_eq t
  have habs : ∀ u, ((r.s.removeSmallTimer t).timers u).absTime = (r.s.timers u).absTime := by
    intro u
    rw [heq]
    by_cases hu : u = t
    · subst hu
      simp
    · simp [hu]
  have hlist : (r.s.removeSmallTimer t).timersExpiredList = r.s.timersExpiredList.erase t := by rw [heq]
  have htree : (r.s.removeSmallTimer t).timersTree = r.s.timersTree.erase t := by rw [heq]
  refine ⟨hinv.placed.removeSmallTimer t, ?_, ?_, ?_, ?_, hinv.clock, waitOk_none ?_⟩
  · intro u hu
    dsimp only at hu ⊢
    rw [habs]
    rw [hlist] at hu
    exact hinv.due u (List.mem_of_mem_erase hu)
  · dsimp only
    simp only [habs]
    rw [hlist]
    exact hinv.batch.sublist (List.Sublist.append_left (List.erase_sublist.map _) _)
  · refine Run.run_concat hinv.events (congrArg some ?_)
    funext u
    rw [heq]
    by_cases hu : u = t
    · subst hu
      simp [BReactor.armed]
    · simp [BReactor.armed, hu]
  · intro u hu
    dsimp only at hu ⊢
    rw [habs]
    rw [htree] at hu
    exact hinv.range u (List.mem_of_mem_erase hu)
  · rw [heq]
    exact hwait

/-- The first expired timer is dispatched. -/
theorem Inv.dispatch (hinv : Inv r) (hwait : r.s.wait = .none) {t : Nat} {rest : List Nat}
    (hlist : r.s.timersExpiredList = t :: rest) : Inv {r with
      s := {r.s with timersExpiredList := rest}.setTimerState t .inactive
      events := r.events ++ [.handler t r.clock]
      batch := r.batch ++ [(r.s.timers t).absTime]} := by
  have hplaced := hinv.placed
  have hexpired : (r.s.timers t).state = .expired := (hplaced.expired t).mpr (hlist ▸ List.mem_cons_self)
  have hnodup := hplaced.listNodup
  rw [hlist, List.nodup_cons] at hnodup
  have habs : ∀ u, (({r.s with timersExpiredList := rest}.setTimerState t .inactive).timers u).absTime =
      (r.s.timers u).absTime := by
    intro u
    by_cases hu : u = t
    · subst hu
      simp [BReactor.setTimerState]
    · simp [BReactor.setTimerState, hu]
  have htree : t ∉ r.s.timersTree := by
    intro hmem
    have := (hplaced.running t).mpr hmem
    simp [hexpired] at this
  refine ⟨⟨fun u => ?_, fun u => ?_, hplaced.treeNodup, hnodup.2, ?_⟩, ?_, ?_, ?_, ?_, hinv.clock, waitOk_none hwait⟩
  · by_cases hu : u = t
    · subst hu
      simp [BReactor.setTimerState, htree]
    · simpa [BReactor.setTimerState, hu] using hplaced.running u
  · by_cases hu : u = t
    · subst hu
      simp [BReactor.setTimerState, hnodup.1]
    · have := hplaced.expired u
      rw [hlist, List.mem_cons] at this
      simpa [BReactor.setTimerState, hu] using this
  · simp only [habs]
    exact hplaced.sorted
  · intro u hu
    rw [habs]
    exact hinv.due u (hlist ▸ List.mem_cons_of_mem t hu)
  · simp only [habs]
    have hbatch := hinv.batch
    rw [hlist, List.map_cons, List.append_cons] at hbatch
    exact hbatch
  · have hdue := hinv.due t (hlist ▸ List.mem_cons_self)
    have harmed : r.s.armed t = some (r.s.timers t).absTime := by simp [BReactor.armed, hexpired]
    refine Run.run_concat hinv.events ?_
    rw [TimerSpec.step, harmed, Option.any_some, if_pos (by simpa using hdue)]
    congr 1
    funext u
    by_cases hu : u = t
    · subst hu
      simp [BReactor.armed, BReactor.setTimerState]
    · simp [BReactor.armed, BReactor.setTimerState, hu]
  · intro u hu
    rw [habs]
    exact hinv.range u hu

theorem exec_inv (hinv : Inv r) (hwait : r.s.wait = .none) (hlive : r.s.exiting = false) :
    ∃ r', r.step .exec = some r' ∧ Inv r' := by
  unfold ReactorRun.step
  dsimp only
  rw [if_pos hwait, BReactor.exec, if_neg (by simp [hlive])]
  by_cases hjobs : 0 < r.s.jobs
  · rw [if_pos hjobs]
    refine ⟨_, rfl, ?_⟩
    exact hinv.movedSame rfl rfl rfl (waitOk_none hwait)
  · rw [if_neg hjobs]
    cases hlist : r.s.timersExpiredList with
    | cons t rest =>
      have hexpired : (r.s.timers t).state = .expired := (hinv.placed.expired t).mpr (hlist ▸ List.mem_cons_self)
      dsimp only
      rw [if_pos hexpired]
      exact ⟨_, rfl, hinv.dispatch hwait hlist⟩
    | nil =>
      dsimp only
      by_cases hresults : 0 < r.s.epollResults
      · rw [if_pos hresults]
        refine ⟨_, rfl, ?_⟩
        exact hinv.movedSame rfl rfl hlist.symm (waitOk_none hwait)
      · rw [if_neg hresults]
        refine ⟨_, rfl, ?_⟩
        dsimp only
        unfold BReactor.waitForEvents
        cases htree : r.s.timersTree with
        | nil =>
          exact hinv.movedSame rfl htree.symm rfl ⟨hlist, rfl, nofun⟩
        | cons t rest =>
          by_cases hdue : (r.s.timers t).absTime ≤ r.clock
          · simp only [BReactor.moveExpiredTimers, htree, hdue, decide_true, if_true]
            have hmoves := moveTimers_moves hinv.placed hlist r.clock
            rw [htree] at hmoves
            exact hinv.moved hlist hmoves (Int.le_refl _) ((moveTimers_wait ..).trans hwait)
          · have hnone : r.s.moveTimers r.clock (t :: rest) = r.s := by
              rw [BReactor.moveTimers, if_pos (by omega), ← htree]
            simp only [BReactor.moveExpiredTimers, htree, hdue, decide_false, Bool.false_eq_true, if_false, hnone]
            refine hinv.movedSame rfl htree.symm rfl ⟨hlist, rfl, fun a ha => ?_⟩
            cases ha
            exact ⟨hinv.clock, by omega, Int.le_refl _⟩

theorem epollWait_inv (hinv : Inv r) (he : r.step .epollWait = some r') : Inv r' := by
  obtain ⟨⟨s', timeout⟩, hs', rfl⟩ := Option.map_eq_some_iff.mp he
  have hwait := hinv.wait
  unfold WaitOk at hwait
  unfold BReactor.epollWait at hs'
  split at hs'
  · next a now hw =>
    cases hs'
    rw [hw] at hwait
    obtain ⟨hnil, hf, hnow⟩ := hwait
    obtain ⟨-, hlt, hle⟩ := hnow a rfl
    refine hinv.same (by rfl) (by rfl) (by rfl) ⟨hnil, hf, fun a' ha' htrunc => ?_⟩
    cases ha'
    dsimp only at htrunc ⊢
    omega
  · next now hw =>
    cases hs'
    rw [hw] at hwait
    exact hinv.same (by rfl) (by rfl) (by rfl) ⟨hwait.1, hwait.2.1, nofun⟩
  · cases hs'

theorem epollReturned_inv (hinv : Inv r) {waitres : Option Nat} (he : r.step (.epollReturned waitres) = some r') :
    Inv r' := by
  unfold ReactorRun.step at he
  dsimp only at he
  split at he
  · cases he
  · next hearly =>
    obtain ⟨s', hs', rfl⟩ := Option.map_eq_some_iff.mp he
    have hwait := hinv.wait
    unfold WaitOk at hwait
    unfold BReactor.epollReturned at hs'
    split at hs'
    · next timeoutAbs rel trunc hw =>
      rw [hw] at hwait
      obtain ⟨hnil, hf, hend⟩ := hwait
      split at hs'
      · cases hs'
        exact hinv.movedSame rfl rfl rfl ⟨hnil, hf⟩
      · next n =>
        split at hs'
        · cases hs'
        · next htimeout =>
          split at hs'
          · next hdone =>
            split at hs'
            · cases hs'
              exact hinv.movedSame rfl rfl rfl (waitOk_none rfl)
            · next hzero =>
              rw [not_not] at hzero
              subst hzero
              cases timeoutAbs with
              | none => exact absurd ⟨rfl, rfl⟩ htimeout
              | some a =>
                have htrunc := hdone.resolve_left (fun h => h rfl)
                have hclock : r.epollEnd ≤ r.clock := by
                  by_contra hlt
                  exact hearly ⟨rfl, by omega⟩
                obtain ⟨s₁, hs₁, hinv₁⟩ := hinv.moveFirst hnil hf ((hend a rfl htrunc).trans hclock)
                cases hs₁.symm.trans hs'
                exact hinv₁
          · cases hs'
            exact hinv.movedSame rfl rfl rfl ⟨hnil, hf⟩
    · cases hs'

theorem tryAgain_inv (hinv : Inv r) {timeoutAbs : Option Int} (hw : r.s.wait = .tryAgain timeoutAbs) :
    ∃ r', r.step .tryAgain = some r' ∧ Inv r' := by
  have hwait := hinv.wait
  unfold WaitOk at hwait
  rw [hw] at hwait
  obtain ⟨hnil, hf⟩ := hwait
  unfold ReactorRun.step
  dsimp only
  rw [BReactor.tryAgain, hw]
  cases timeoutAbs with
  | none =>
    refine ⟨_, rfl, ?_⟩
    exact hinv.movedSame rfl rfl rfl ⟨hnil, hf, nofun⟩
  | some a =>
    dsimp only
    by_cases hcome : r.clock ≥ a
    · rw [if_pos hcome]
      obtain ⟨s', hs', hinv'⟩ := hinv.moveFirst hnil hf hcome
      rw [hs']
      exact ⟨_, rfl, hinv'⟩
    · rw [if_neg hcome]
      refine ⟨_, rfl, ?_⟩
      refine hinv.movedSame rfl rfl rfl ⟨hnil, hf, fun a' ha' => ?_⟩
      cases ha'
      exact ⟨hinv.clock, by omega, Int.le_refl _⟩

/-- **Each step keeps the invariant.** -/
theorem step_inv (hinv : Inv r) {e : ReactorInput} (he : r.step e = some r') : Inv r' := by
  cases e with
  | tick d =>
    cases he
    exact hinv.tick d
  | setSmallTimer t mode time =>
    obtain ⟨⟨hwait, -, htime⟩, he⟩ := Option.ite_none_right_eq_some.mp he
    obtain ⟨s', hs', rfl⟩ := Option.map_eq_some_iff.mp he
    obtain ⟨s₁, hs₁, hinv₁⟩ := hinv.setSmallTimer t mode hwait htime
    cases hs₁.symm.trans hs'
    exact hinv₁
  | removeSmallTimer t =>
    obtain ⟨hwait, heq⟩ := Option.ite_none_right_eq_some.mp he
    cases heq
    exact hinv.removeSmallTimer hwait t
  | pushJob | quit =>
    obtain ⟨hwait, heq⟩ := Option.ite_none_right_eq_some.mp he
    cases heq
    exact hinv.same (by rfl) (by rfl) (by rfl) (waitOk_none hwait)
  | exec =>
    obtain ⟨hwait, hexec⟩ := Option.ite_none_right_eq_some.mp he
    have hlive : r.s.exiting = false := by
      cases hexiting : r.s.exiting with
      | false => rfl
      | true =>
        rw [BReactor.exec, if_pos hexiting] at hexec
        cases hexec
    obtain ⟨r₁, hr₁, hinv₁⟩ := exec_inv hinv hwait hlive
    cases hr₁.symm.trans he
    exact hinv₁
  | epollWait => exact epollWait_inv hinv he
  | epollReturned waitres => exact epollReturned_inv hinv he
  | tryAgain =>
    have hw : ∃ timeoutAbs, r.s.wait = .tryAgain timeoutAbs := by
      obtain ⟨s', hs', -⟩ := Option.map_eq_some_iff.mp he
      unfold BReactor.tryAgain at hs'
      split at hs'
      · next hw => exact ⟨_, hw⟩
      · next hw => exact ⟨_, hw⟩
      · cases hs'
    obtain ⟨timeoutAbs, hw⟩ := hw
    obtain ⟨r₁, hr₁, hinv₁⟩ := tryAgain_inv hinv hw
    cases hr₁.symm.trans he
    exact hinv₁

/-! ### What a run shows -/

/-- The time that an event arms its timer for. -/
def TimerEvent.arms : TimerEvent → Option Int
  | .set _ absTime => some absTime
  | _ => none

theorem TimerSpec.step_eq {armed armed' : TimerSpec} {e : TimerEvent} (h : TimerSpec.step armed e = some armed') :
    armed' = Function.update armed e.timer e.arms := by
  cases e with
  | set | removed =>
    cases h
    rfl
  | handler =>
    obtain ⟨-, heq⟩ := Option.ite_none_right_eq_some.mp h
    cases heq
    rfl

/-- A timer that is armed was set for its time, and nothing has happened to it since. -/
theorem TimerSpec.run_armed {armed armed' : TimerSpec} {events : List TimerEvent}
    (h : Run.run TimerSpec.step armed events = some armed') {a : Int} (ha : armed' t = some a) :
    (∃ before after, events = before ++ .set t a :: after ∧ ∀ e ∈ after, e.timer ≠ t) ∨
      armed t = some a ∧ ∀ e ∈ events, e.timer ≠ t := by
  induction events generalizing armed with
  | nil =>
    cases h
    exact .inr ⟨ha, nofun⟩
  | cons e rest ih =>
    obtain ⟨armed₁, hstep, hrest⟩ := Run.run_cons h
    rcases ih hrest with ⟨before, after, rfl, hafter⟩ | ⟨harmed, hnone⟩
    · exact .inl ⟨e :: before, after, rfl, hafter⟩
    · rw [TimerSpec.step_eq hstep] at harmed
      by_cases he : e.timer = t
      · subst he
        rw [Function.update_self] at harmed
        cases e with
        | set u b =>
          cases harmed
          exact .inl ⟨[], rest, rfl, hnone⟩
        | removed | handler => cases harmed
      · rw [Function.update_of_ne (Ne.symm he)] at harmed
        exact .inr ⟨harmed, List.forall_mem_cons.mpr ⟨he, hnone⟩⟩

/-- **A handler runs for the last time that its timer was set**, not earlier than that, and nothing
has happened to the timer since. -/
theorem TimerSpec.handler_set {armed : TimerSpec} {before after : List TimerEvent} {clock : Int}
    (h : Run.run TimerSpec.step (fun _ => none) (before ++ .handler t clock :: after) = some armed) :
    ∃ earlier a since, before = earlier ++ .set t a :: since ∧ a ≤ clock ∧ ∀ e ∈ since, e.timer ≠ t := by
  obtain ⟨armed₁, hbefore, hrest⟩ := Run.run_append h
  obtain ⟨armed₂, hstep, -⟩ := Run.run_cons hrest
  obtain ⟨hdue, -⟩ := Option.ite_none_right_eq_some.mp hstep
  obtain ⟨a, ha, hle⟩ := (Option.any_eq_true _ _).mp hdue
  rcases TimerSpec.run_armed hbefore ha with ⟨earlier, since, heq, hsince⟩ | ⟨h, -⟩
  · exact ⟨earlier, a, since, heq, of_decide_eq_true hle, hsince⟩
  · cases h

/-- The reactor goes on: no assertion fails, and `timeout_rel` is a time. -/
structure GoesOn (r : ReactorRun) : Prop where
  exec : r.s.wait = .none → r.s.exiting = false → ∃ r', r.step .exec = some r'
  set : r.s.wait = .none → ∀ t mode time, btimeMin ≤ time → time ≤ btimeMax →
    ∃ r', r.step (.setSmallTimer t mode time) = some r'
  rel : ∀ a now, r.s.wait = .compute (some a) now → 0 < a - now ∧ a - now ≤ btimeMax
  timedOut : ∀ a rel trunc, r.s.wait = .epoll (some a) rel trunc → r.epollEnd ≤ r.clock →
    ∃ r', r.step (.epollReturned (some 0)) = some r'
  tryAgain : ∀ timeoutAbs, r.s.wait = .tryAgain timeoutAbs → ∃ r', r.step .tryAgain = some r'

theorem Inv.goesOn (hinv : Inv r) : GoesOn r where
  exec hwait hlive := by
    obtain ⟨r', hr', -⟩ := exec_inv hinv hwait hlive
    exact ⟨r', hr'⟩
  set hwait t mode time hmin hmax := by
    obtain ⟨s', hs', -⟩ := hinv.setSmallTimer t mode hwait hmax
    unfold ReactorRun.step
    dsimp only
    rw [if_pos ⟨hwait, hmin, hmax⟩, hs']
    exact ⟨_, rfl⟩
  rel a now hw := by
    have hwait := hinv.wait
    unfold WaitOk at hwait
    rw [hw] at hwait
    obtain ⟨-, hf, hnow⟩ := hwait
    obtain ⟨hpos, hlt, -⟩ := hnow a rfl
    obtain ⟨t, rest, htree, htime⟩ := hf.some
    have hmax := hinv.range t (htree ▸ List.mem_cons_self)
    omega
  timedOut a rel trunc hw hend := by
    have hwait := hinv.wait
    unfold WaitOk at hwait
    rw [hw] at hwait
    obtain ⟨hnil, hf, htrunc⟩ := hwait
    unfold ReactorRun.step
    dsimp only
    rw [if_neg (by simpa using hend), BReactor.epollReturned, hw]
    dsimp only
    rw [if_neg (by simp)]
    by_cases hrel : trunc = rel
    · obtain ⟨s', hs', -⟩ := hinv.moveFirst hnil hf ((htrunc a rfl hrel).trans hend)
      rw [if_pos (.inr hrel), if_neg (by simp), hs']
      exact ⟨_, rfl⟩
    · rw [if_neg (by simpa using hrel)]
      exact ⟨_, rfl⟩
  tryAgain timeoutAbs hw := by
    obtain ⟨r', hr', -⟩ := tryAgain_inv hinv hw
    exact ⟨r', hr'⟩

/-- **The timers of a reactor.** In every run a timer is where its state says. A handler runs for the
last time that its timer was set, once, and not early. The timers of a batch are dispatched in
the order of their times. -/
theorem timers_correct (absTime : Nat → Int) {es : List ReactorInput}
    (h : Run.run ReactorRun.step (.init absTime) es = some r) :
    Placed r.s ∧
      Run.run TimerSpec.step (fun _ => none) r.events = some r.s.armed ∧
      (∀ before t clock after, r.events = before ++ .handler t clock :: after →
        ∃ earlier a since, before = earlier ++ .set t a :: since ∧ a ≤ clock ∧ ∀ e ∈ since, e.timer ≠ t) ∧
      (r.batch ++ r.s.timersExpiredList.map fun t => (r.s.timers t).absTime).Pairwise (· ≤ ·) ∧ GoesOn r := by
  have hinv := Run.run_invariant Inv (fun _ _ _ hinv he => step_inv hinv he) h (inv_init absTime)
  refine ⟨hinv.placed, hinv.events, fun before t clock after heq => ?_, hinv.batch, hinv.goesOn⟩
  have hevents := hinv.events
  rw [heq] at hevents
  exact TimerSpec.handler_set hevents

/-- A timer is set beyond the largest timeout, and the wait is interrupted. -/
theorem timers_correct_truncated :
    ∃ r, Run.run ReactorRun.step (.init fun _ => 0)
        [.setSmallTimer 1 .absolute 3000000000, .exec, .epollWait, .tick 2147483647, .epollReturned (some 0), .tryAgain,
          .epollWait, .epollReturned none, .tryAgain, .epollWait, .tick 852516353, .epollReturned (some 0), .exec] = some r ∧
      Placed r.s ∧ r.events = [.set 1 3000000000, .handler 1 3000000000] := by
  obtain ⟨r, hrun, h⟩ := (Option.any_eq_true _ _).mp (by decide +kernel : (Run.run ReactorRun.step (.init fun _ => 0)
        [.setSmallTimer 1 .absolute 3000000000, .exec, .epollWait, .tick 2147483647, .epollReturned (some 0), .tryAgain,
          .epollWait, .epollReturned none, .tryAgain, .epollWait, .tick 852516353, .epollReturned (some 0), .exec]).any
      (fun r => r.events = [.set 1 3000000000, .handler 1 3000000000]) = true)
  exact ⟨r, hrun, (timers_correct _ hrun).1, of_decide_eq_true h⟩

end TwilightLine.Reactor
