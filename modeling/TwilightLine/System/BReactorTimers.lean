import TwilightLine.Lib.Run
import Mathlib.Logic.Function.Basic
import Mathlib.Tactic.Linarith

/-! The timers and the event loop of `system/BReactor_badvpn.c`, where it uses epoll.

The running timers are in a tree that is ordered by time; it is the list of its elements
here. Those that have timed out are in the expired list until the loop dispatches them. The
clock goes on between any two steps, also inside `wait_for_events`, which is split where it
reads the clock or calls `epoll_wait`. Jobs and file descriptors are only counted. -/
namespace TwilightLine.Reactor

/-- `BTIME_MIN` and the largest `btime_t`. -/
def btimeMin : Int := -2 ^ 63

def btimeMax : Int := 2 ^ 63 - 1

/-- `btime_add`. -/
def btimeAdd (t1 t2 : Int) : Int :=
  if t1 + t2 > btimeMax then btimeMax
  else if t1 + t2 < btimeMin then btimeMin
  else t1 + t2

inductive TimerState where
  | inactive
  | running
  | expired
  deriving DecidableEq, Repr

/-- `BSmallTimer`. -/
structure BSmallTimer where
  absTime : Int
  state : TimerState
  deriving DecidableEq, Repr

inductive TimerMode where
  | absolute
  | relative
  deriving DecidableEq, Repr

/-- Where the event loop is. -/
inductive WaitState where
  /-- Not in `wait_for_events`. -/
  | none
  /-- At the top of its loop, with `timeout_abs`, if there is one, and `now`. -/
  | compute (timeoutAbs : Option Int) (now : Int)
  /-- In `epoll_wait`, with `timeout_rel` and `timeout_rel_trunc`. -/
  | epoll (timeoutAbs : Option Int) (rel trunc : Int)
  | tryAgain (timeoutAbs : Option Int)
  deriving DecidableEq, Repr

/-- `BReactor`. A timer is known by its address. -/
structure BReactor where
  exiting : Bool
  jobs : Nat
  timers : Nat → BSmallTimer
  timersTree : List Nat
  timersExpiredList : List Nat
  /-- The results of `epoll_wait` that are not dispatched yet. -/
  epollResults : Nat
  wait : WaitState

/-- `INT_MAX`. -/
def intMax : Int := 2 ^ 31 - 1

/-- `B_COMPARE` of times. -/
def bCompareTime (a b : Int) : Int := (if a > b then 1 else 0) - (if a < b then 1 else 0)

/-- `B_COMPARE` of addresses. -/
def bComparePtr (a b : Nat) : Int := (if a > b then 1 else 0) - (if a < b then 1 else 0)

namespace BReactor

def setTimerState (s : BReactor) (t : Nat) (state : TimerState) : BReactor :=
  {s with timers := Function.update s.timers t {s.timers t with state := state}}

/-- `compare_timers`. -/
def compareTimers (s : BReactor) (t1 t2 : Nat) : Int :=
  let cmp := bCompareTime (s.timers t1).absTime (s.timers t2).absTime
  if cmp ≠ 0 then cmp else bComparePtr t1 t2

/-- `BReactor__TimersTree_Insert`; it fails if an equal element is there. -/
def treeInsert (s : BReactor) (t : Nat) : List Nat → Option (List Nat)
  | [] => some [t]
  | u :: rest =>
    if s.compareTimers t u < 0 then some (t :: u :: rest)
    else if s.compareTimers t u = 0 then none
    else (s.treeInsert t rest).map (u :: ·)

/-- `BReactor_RemoveSmallTimer`. -/
def removeSmallTimer (s : BReactor) (t : Nat) : BReactor :=
  match (s.timers t).state with
  | .inactive => s
  | .expired => {s with timersExpiredList := s.timersExpiredList.erase t}.setTimerState t .inactive
  | .running => {s with timersTree := s.timersTree.erase t}.setTimerState t .inactive

/-- `BReactor_SetSmallTimer`, with the time that it is. -/
def setSmallTimer (s : BReactor) (t : Nat) (mode : TimerMode) (time now : Int) : Option BReactor :=
  let s := s.removeSmallTimer t
  let time := if mode = .relative then btimeAdd now time else time
  let s := {s with timers := Function.update s.timers t ⟨time, .running⟩}
  (s.treeInsert t s.timersTree).map fun tree => {s with timersTree := tree}

/-- The timer that was removed from the tree goes to the expired list. -/
def expire (s : BReactor) (t : Nat) : BReactor :=
  {s with timersExpiredList := s.timersExpiredList ++ [t]}.setTimerState t .expired

/-- The loop of `move_expired_timers` and of `move_first_timers`, on the timers of the tree. -/
def moveTimers (s : BReactor) (limit : Int) : List Nat → BReactor
  | [] => {s with timersTree := []}
  | t :: rest =>
    if (s.timers t).absTime > limit then {s with timersTree := t :: rest} else (s.expire t).moveTimers limit rest

/-- `move_expired_timers`, and whether it has moved some. -/
def moveExpiredTimers (s : BReactor) (now : Int) : BReactor × Bool :=
  (s.moveTimers now s.timersTree,
    match s.timersTree with
    | [] => false
    | t :: _ => (s.timers t).absTime ≤ now)

/-- `move_first_timers`. -/
def moveFirstTimers (s : BReactor) : Option BReactor :=
  match s.timersTree with
  | [] => none
  | t :: rest => some ((s.expire t).moveTimers (s.timers t).absTime rest)

/-- `wait_for_events`, up to its loop. -/
def waitForEvents (s : BReactor) (clock : Int) : BReactor :=
  match s.timersTree with
  | [] => {s with wait := .compute none 0}
  | t :: _ =>
    let r := s.moveExpiredTimers clock
    if r.2 then r.1 else {r.1 with wait := .compute (some (s.timers t).absTime) clock}

/-- One iteration of the loop of `BReactor_Exec`, and the timer whose handler it calls. -/
def exec (s : BReactor) (clock : Int) : Option (BReactor × Option Nat) :=
  if s.exiting then none
  else if 0 < s.jobs then some ({s with jobs := s.jobs - 1}, none)
  else
    match s.timersExpiredList with
    | t :: rest =>
      if (s.timers t).state = .expired then
        some ({s with timersExpiredList := rest}.setTimerState t .inactive, some t)
      else none
    | [] =>
      if 0 < s.epollResults then some ({s with epollResults := s.epollResults - 1}, none)
      else some (s.waitForEvents clock, none)

/-- `epoll_wait` is called, with this timeout. -/
def epollWait (s : BReactor) : Option (BReactor × Option Int) :=
  match s.wait with
  | .compute (some timeoutAbs) now =>
    let rel := timeoutAbs - now
    let trunc := if rel > intMax then intMax else rel
    some ({s with wait := .epoll (some timeoutAbs) rel trunc}, some trunc)
  | .compute none _ => some ({s with wait := .epoll none 0 0}, none)
  | _ => none

/-- `epoll_wait` returns: a number of results, or it was interrupted. -/
def epollReturned (s : BReactor) (waitres : Option Nat) : Option BReactor :=
  match s.wait with
  | .epoll timeoutAbs rel trunc =>
    match waitres with
    | none => some {s with wait := .tryAgain timeoutAbs}
    | some waitres =>
      if waitres = 0 ∧ timeoutAbs = none then none
      else if waitres ≠ 0 ∨ trunc = rel then
        if waitres ≠ 0 then some {s with epollResults := waitres, wait := .none}
        else s.moveFirstTimers.map fun s => {s with wait := .none}
      else some {s with wait := .tryAgain timeoutAbs}
  | _ => none

/-- From `try_again` to the top of the loop, or out of it. -/
def tryAgain (s : BReactor) (clock : Int) : Option BReactor :=
  match s.wait with
  | .tryAgain none => some {s with wait := .compute none 0}
  | .tryAgain (some timeoutAbs) =>
    if clock ≥ timeoutAbs then s.moveFirstTimers.map fun s => {s with wait := .none}
    else some {s with wait := .compute (some timeoutAbs) clock}
  | _ => none

end BReactor

/-! ### Runs -/

/-- What users of timers see: a timer is set for a time, it is removed, or its handler runs. -/
inductive TimerEvent where
  | set (t : Nat) (absTime : Int)
  | removed (t : Nat)
  | handler (t : Nat) (clock : Int)
  deriving DecidableEq, Repr

def TimerEvent.timer : TimerEvent → Nat
  | .set t _ => t
  | .removed t => t
  | .handler t _ => t

/-- The reactor with the clock. -/
structure ReactorRun where
  s : BReactor
  /-- What `btime_gettime` returns. -/
  clock : Int
  /-- `epoll_wait` does not time out before. -/
  epollEnd : Int
  events : List TimerEvent
  /-- The times of the timers that were dispatched since the last batch expired. -/
  batch : List Int

inductive ReactorInput where
  | tick (d : Nat)
  /-- Handlers set and remove timers, push jobs, and quit. -/
  | setSmallTimer (t : Nat) (mode : TimerMode) (time : Int)
  | removeSmallTimer (t : Nat)
  | pushJob
  | quit
  /-- The event loop. -/
  | exec
  | epollWait
  | epollReturned (waitres : Option Nat)
  | tryAgain
  deriving DecidableEq, Repr

namespace ReactorRun

/-- `BReactor_Init`, when the clock starts; the timers are initialised. -/
def init (absTime : Nat → Int) : ReactorRun where
  s := {
    exiting := false
    jobs := 0
    timers := fun t => ⟨absTime t, .inactive⟩
    timersTree := []
    timersExpiredList := []
    epollResults := 0
    wait := .none}
  clock := 0
  epollEnd := 0
  events := []
  batch := []

/-- After a step that may have filled the expired list. -/
def moved (r : ReactorRun) (s : BReactor) : ReactorRun :=
  {r with s := s, batch := if r.s.timersExpiredList = [] ∧ s.timersExpiredList ≠ [] then [] else r.batch}

def step (r : ReactorRun) : ReactorInput → Option ReactorRun
  | .tick d => some {r with clock := r.clock + d}
  | .setSmallTimer t mode time =>
    if r.s.wait = .none ∧ btimeMin ≤ time ∧ time ≤ btimeMax then
      (r.s.setSmallTimer t mode time r.clock).map fun s =>
        {r with s := s, events := r.events ++ [.set t (s.timers t).absTime]}
    else none
  | .removeSmallTimer t =>
    if r.s.wait = .none then some {r with s := r.s.removeSmallTimer t, events := r.events ++ [.removed t]} else none
  | .pushJob => if r.s.wait = .none then some {r with s := {r.s with jobs := r.s.jobs + 1}} else none
  | .quit => if r.s.wait = .none then some {r with s := {r.s with exiting := true}} else none
  | .exec =>
    if r.s.wait = .none then
      (r.s.exec r.clock).map fun (s, dispatched) =>
        match dispatched with
        | none => r.moved s
        | some t =>
          {r with
            s := s
            events := r.events ++ [.handler t r.clock]
            batch := r.batch ++ [(r.s.timers t).absTime]}
    else none
  | .epollWait =>
    r.s.epollWait.map fun (s, timeout) =>
      {r with
        s := s
        epollEnd := match timeout with
          | none => r.epollEnd
          | some timeout => r.clock + timeout}
  | .epollReturned waitres =>
    -- It does not time out early.
    if waitres = some 0 ∧ r.clock < r.epollEnd then none else (r.s.epollReturned waitres).map r.moved
  | .tryAgain => (r.s.tryAgain r.clock).map r.moved

end ReactorRun

end TwilightLine.Reactor
