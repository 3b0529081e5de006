import TwilightLine.Flow.Interface
import TwilightLine.Lib.Run
import TwilightLine.System.BReactorFds

/-! One direction of a connection or a datagram socket.

`BConnection` and `BDatagram` send and receive alike. An operation comes in through an
interface; a system call moves bytes for it, at once or when the reactor says that it can;
and the interface tells its user. A limit keeps one direction from making too many system
calls before the reactor waits again. What happened to the operations is logged here, and
the log of a direction is that of operations that are carried out one after the other
(`Books`). -/
namespace TwilightLine

/-- `BReactorLimit`. -/
structure BReactorLimit where
  limit : Nat
  count : Nat
  deriving DecidableEq, Repr

namespace BReactorLimit

/-- `BReactorLimit_Init`. -/
def init (limit : Nat) : BReactorLimit := ⟨limit, 0⟩

/-- `BReactorLimit_Increment`, which may not be possible. -/
def increment (o : BReactorLimit) : Option BReactorLimit :=
  if o.count ≥ o.limit then none else some {o with count := o.count + 1}

/-- The reactor waits. -/
def reset (o : BReactorLimit) : BReactorLimit := {o with count := 0}

theorem increment_some {limit limit' : BReactorLimit} (h : limit.increment = some limit') : limit.count < limit.limit := by
  unfold increment at h
  split at h
  · cases h
  · next hless => exact Nat.lt_of_not_ge hless

end BReactorLimit

/-- The result of a system call on a file descriptor that does not block. -/
inductive IoResult where
  | bytes (n : Nat)
  | wouldBlock
  | failed
  deriving DecidableEq, Repr

/-- A system call moves at most the bytes that it was asked for. -/
def IoResult.Fits (r : IoResult) (len : Nat) : Prop := ∀ n, r = .bytes n → n ≤ len

/-- What happens to the operations of a direction. -/
inductive Operation where
  | started (len : Nat)
  /-- A system call moved bytes. -/
  | moved (n : Nat)
  | completed (n : Nat)
  /-- The interface is freed. -/
  | dropped
  deriving DecidableEq, Repr

/-- How far an operation is. -/
inductive Progress where
  | none
  | started (len : Nat)
  | moved (n : Nat)
  deriving DecidableEq, Repr

/-- One operation after the other: a system call moves at least so many bytes and at most
those asked for, and completes the operation with their number. -/
def Progress.next (least : Nat) : Progress → Operation → Option Progress
  | .none, .started len => some (.started len)
  | .started len, .moved n => if least ≤ n ∧ n ≤ len then some (.moved n) else Option.none
  | .moved n, .completed m => if m = n then some .none else Option.none
  | _, .dropped => some .none
  | _, _ => Option.none

/-- A direction, without the state that is its owner's. -/
structure IoHalf where
  limit : BReactorLimit
  /-- With the lengths of its operations and results. -/
  iface : Transfer Nat Nat
  job : Bool
  busyLen : Nat
  log : List Operation
  deriving DecidableEq, Repr

namespace IoHalf

/-- The user starts an operation. -/
def start (h : IoHalf) (len : Nat) : Option IoHalf :=
  (h.iface.send len).map fun iface => {h with iface := iface, log := h.log ++ [.started len]}

/-- The interface hands it over. -/
def operation (h : IoHalf) : Option IoHalf :=
  h.iface.jobOperation.map fun r => {h with iface := r.2, busyLen := r.1}

/-- A system call moved bytes, and the interface is done. -/
def complete (h : IoHalf) (n : Nat) : Option IoHalf :=
  if n ≤ h.busyLen then (h.iface.done n).map fun iface => {h with iface := iface, log := h.log ++ [.moved n]} else none

/-- The interface tells its user. -/
def tell (h : IoHalf) : Option IoHalf :=
  h.iface.jobDone.map fun r => {h with iface := r.2, log := h.log ++ [.completed r.1]}

/-- The interface and the job are freed. -/
def drop (h : IoHalf) : IoHalf := {h with iface := .idle, job := false, log := h.log ++ [.dropped]}

/-- A new interface and a new job. -/
def create (h : IoHalf) : IoHalf := {h with iface := .idle, job := false}

/-- No job of the interface is pending, nor that of the direction. -/
def Quiet (h : IoHalf) : Prop := h.job = false ∧ (∀ len, h.iface ≠ .operationPending len) ∧ ∀ n, h.iface ≠ .donePending n

/-- The operation that the interface carries out. -/
def progress (h : IoHalf) : Progress :=
  match h.iface with
  | .idle => .none
  | .operationPending len => .started len
  | .busy len => .started len
  | .donePending n => .moved n

/-- The log is that of operations one after the other, up to that of the interface. -/
def Books (least : Nat) (h : IoHalf) : Prop := Run.run (Progress.next least) .none h.log = some h.progress

variable {h h' : IoHalf} {least len n : Nat}

theorem Books.concat (hb : Books least h) {e : Operation} {log : List Operation} (hlog : log = h.log ++ [e])
    {p : Progress} (he : h.progress.next least e = some p) : Run.run (Progress.next least) .none log = some p := by
  rw [hlog]
  exact Run.run_concat hb he

theorem Books.start (hb : Books least h) (hidle : h.iface = .idle) (len : Nat) :
    h.start len = some {h with iface := .operationPending len, log := h.log ++ [.started len]} ∧
      Books least {h with iface := .operationPending len, log := h.log ++ [.started len]} := by
  constructor
  · unfold IoHalf.start
    rw [hidle]
    rfl
  · refine hb.concat rfl ?_
    unfold IoHalf.progress
    rw [hidle]
    rfl

theorem Books.operation (hb : Books least h) (hpending : h.iface = .operationPending len) :
    h.operation = some {h with iface := .busy len, busyLen := len} ∧ Books least {h with iface := .busy len, busyLen := len} := by
  constructor
  · unfold IoHalf.operation
    rw [hpending]
    rfl
  · unfold Books IoHalf.progress at hb ⊢
    rw [hpending] at hb
    exact hb

theorem Books.complete (hb : Books least h) (hbusy : h.iface = .busy h.busyLen) (hleast : least ≤ n) (hn : n ≤ h.busyLen) :
    h.complete n = some {h with iface := .donePending n, log := h.log ++ [.moved n]} ∧
      Books least {h with iface := .donePending n, log := h.log ++ [.moved n]} := by
  constructor
  · unfold IoHalf.complete
    rw [if_pos hn, hbusy]
    rfl
  · refine hb.concat rfl ?_
    unfold IoHalf.progress
    rw [hbusy]
    exact if_pos ⟨hleast, hn⟩

theorem Books.tell (hb : Books least h) (hdone : h.iface = .donePending n) :
    h.tell = some {h with iface := .idle, log := h.log ++ [.completed n]} ∧
      Books least {h with iface := .idle, log := h.log ++ [.completed n]} := by
  constructor
  · unfold IoHalf.tell
    rw [hdone]
    rfl
  · refine hb.concat rfl ?_
    unfold IoHalf.progress
    rw [hdone]
    exact if_pos rfl

theorem Books.drop (hb : Books least h) : Books least h.drop := by
  refine hb.concat rfl ?_
  unfold Progress.next
  cases h.progress <;> rfl

end IoHalf

end TwilightLine
