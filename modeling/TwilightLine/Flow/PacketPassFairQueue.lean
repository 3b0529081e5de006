import TwilightLine.Flow.Interface
import TwilightLine.Misc.Memcmp
import TwilightLine.Lib.Run
import Mathlib.Logic.Function.Basic

/-! `flow/PacketPassFairQueue.c`, while the queue is not being freed.

A flow is known by its address. The functions fail where their assertions do. The jobs of
the queue and of its interfaces run in any order, and users and the output act at any time. -/
namespace TwilightLine

/-- `FAIRQUEUE_MAX_TIME`. -/
def fairqueueMaxTime : UInt64 := 0xffffffffffffffff

/-- `PacketPassFairQueueFlow`. -/
structure PacketPassFairQueueFlow where
  /-- Whether `handler_busy` is set. -/
  handlerBusy : Bool
  input : PacketPassInterface
  time : UInt64
  /-- The data and its length, if the flow `is_queued`. -/
  queued : Option (List UInt8)
  deriving DecidableEq, Repr

/-- `PacketPassFairQueue`, with the memory of its flows. -/
structure PacketPassFairQueue where
  output : PacketPassInterface
  packetWeight : Nat
  sendingFlow : Option Nat
  sendingLen : Nat
  previousFlow : Option Nat
  queuedTree : List Nat
  flowsList : List Nat
  flow : Nat → PacketPassFairQueueFlow
  /-- Whether `schedule_job` is set. -/
  scheduleJob : Bool

/-- `PacketPassFairQueueFlow_Init`, up to where the flow is added to the list of flows. -/
def PacketPassFairQueueFlow.init (mtu : Nat) : PacketPassFairQueueFlow := ⟨false, .init mtu, 0, none⟩

namespace PacketPassFairQueue

/-- `PacketPassFairQueue_Init`. -/
def init (output : PacketPassInterface) (packetWeight : Nat) : Option PacketPassFairQueue :=
  if 0 < packetWeight ∧ output.mtu ≤ fairqueueMaxTime.toNat ∧ packetWeight ≤ fairqueueMaxTime.toNat - output.mtu then
    some {
      output := output
      packetWeight := packetWeight
      sendingFlow := none
      sendingLen := 0
      previousFlow := none
      queuedTree := []
      flowsList := []
      flow := fun _ => .init 0
      scheduleJob := false }
  else none

/-- A field of a flow is set. -/
def update (m : PacketPassFairQueue) (flow : Nat) (f : PacketPassFairQueueFlow → PacketPassFairQueueFlow) :
    PacketPassFairQueue :=
  {m with flow := Function.update m.flow flow (f (m.flow flow))}

def setTime (m : PacketPassFairQueue) (flow : Nat) (time : UInt64) : PacketPassFairQueue :=
  m.update flow fun f => {f with time := time}

def setQueued (m : PacketPassFairQueue) (flow : Nat) (queued : Option (List UInt8)) : PacketPassFairQueue :=
  m.update flow fun f => {f with queued := queued}

def setInput (m : PacketPassFairQueue) (flow : Nat) (input : PacketPassInterface) : PacketPassFairQueue :=
  m.update flow fun f => {f with input := input}

def setHandlerBusy (m : PacketPassFairQueue) (flow : Nat) (handlerBusy : Bool) : PacketPassFairQueue :=
  m.update flow fun f => {f with handlerBusy := handlerBusy}

/-- `compare_flows`. -/
def compareFlows (m : PacketPassFairQueue) (f1 f2 : Nat) : Int :=
  let cmp := bCompare (m.flow f1).time.toNat (m.flow f2).time.toNat
  if cmp ≠ 0 then cmp else bCompare f1 f2

/-- `get_current_time`. -/
def getCurrentTime (m : PacketPassFairQueue) : UInt64 :=
  match m.sendingFlow with
  | some flow => (m.flow flow).time
  | none =>
    match m.queuedTree.head?, m.previousFlow with
    | none, none => 0
    | none, some previous => (m.flow previous).time
    | some first, none => (m.flow first).time
    | some first, some previous =>
      if (m.flow previous).time < (m.flow first).time then (m.flow previous).time else (m.flow first).time

/-- The loop of `increment_sent_flow`, on the rest of the list of flows. -/
def subtractTime (m : PacketPassFairQueue) (flow : Nat) (subtract : UInt64) : List Nat → Option PacketPassFairQueue
  | [] => some m
  | someflow :: rest =>
    if subtract > (m.flow someflow).time ∧ someflow ≠ flow then
      if (m.flow someflow).queued.isSome then none else (m.setTime someflow 0).subtractTime flow subtract rest
    else (m.setTime someflow ((m.flow someflow).time - subtract)).subtractTime flow subtract rest

/-- The time that `increment_sent_flow` subtracts when a time overflows. -/
def timeToSubtract (m : PacketPassFairQueue) (flow : Nat) : UInt64 :=
  match m.queuedTree.head? with
  | none => (m.flow flow).time
  | some first => (m.flow first).time

/-- `increment_sent_flow`. -/
def incrementSentFlow (m : PacketPassFairQueue) (flow : Nat) (amount : UInt64) : Option PacketPassFairQueue :=
  if amount ≤ fairqueueMaxTime ∧ (m.flow flow).queued = none ∧ m.sendingFlow = none then
    let m' :=
      if amount > fairqueueMaxTime - (m.flow flow).time then
        m.subtractTime flow (m.timeToSubtract flow) m.flowsList
      else some m
    m'.map fun m => m.setTime flow ((m.flow flow).time + amount)
  else none

/-- `schedule`. -/
def schedule (m : PacketPassFairQueue) : Option PacketPassFairQueue :=
  if m.sendingFlow = none ∧ m.previousFlow = none then
    match m.queuedTree with
    | [] => none
    | qflow :: rest =>
      (m.flow qflow).queued.bind fun data =>
        let m := {m with queuedTree := rest}.setQueued qflow none
        (m.output.send data).map fun output =>
          {m with output := output, sendingFlow := some qflow, sendingLen := data.length}
  else none

/-- `schedule_job_handler`. -/
def scheduleJobHandler (m : PacketPassFairQueue) : Option PacketPassFairQueue :=
  if m.sendingFlow = none then
    let m := {m with previousFlow := none}
    if m.queuedTree ≠ [] then m.schedule else some m
  else none

/-- `input_handler_send`. -/
def inputHandlerSend (m : PacketPassFairQueue) (flow : Nat) (data : List UInt8) : Option PacketPassFairQueue :=
  if m.sendingFlow ≠ some flow ∧ (m.flow flow).queued = none then
    let m :=
      if m.previousFlow = some flow then {m with previousFlow := none}
      else m.setTime flow (max (m.flow flow).time m.getCurrentTime)
    (OrderedTree.insert m.compareFlows flow m.queuedTree).bind fun tree =>
      let m := {m with queuedTree := tree}.setQueued flow (some data)
      if m.sendingFlow = none ∧ m.scheduleJob = false then m.schedule else some m
  else none

/-- `output_handler_done`; the busy handler is called last, and what it does comes after. -/
def outputHandlerDone (m : PacketPassFairQueue) : Option PacketPassFairQueue :=
  m.sendingFlow.bind fun flow =>
    if m.previousFlow = none ∧ m.scheduleJob = false ∧ (m.flow flow).queued = none then
      let m := {m with sendingFlow := none, previousFlow := some flow}
      (m.incrementSentFlow flow (UInt64.ofNat m.packetWeight + UInt64.ofNat m.sendingLen)).bind fun m =>
        let m := {m with scheduleJob := true}
        (m.flow flow).input.done.map fun input => (m.setInput flow input).setHandlerBusy flow false
    else none

/-- `PacketPassFairQueueFlow_Init`. -/
def flowInit (m : PacketPassFairQueue) (flow : Nat) : PacketPassFairQueue :=
  {m.update flow fun _ => .init m.output.mtu with flowsList := m.flowsList ++ [flow]}

/-- `PacketPassFairQueueFlow_Free`. -/
def flowFree (m : PacketPassFairQueue) (flow : Nat) : Option PacketPassFairQueue :=
  if m.sendingFlow ≠ some flow then
    some {
      m with
      previousFlow := if m.previousFlow = some flow then none else m.previousFlow
      queuedTree := if (m.flow flow).queued.isSome then m.queuedTree.erase flow else m.queuedTree
      flowsList := m.flowsList.erase flow }
  else none

/-- What can happen to the queue. -/
inductive Event where
  /-- `PacketPassFairQueueFlow_Init`. -/
  | flowInit (flow : Nat)
  /-- `PacketPassFairQueueFlow_Free`. -/
  | flowFree (flow : Nat)
  /-- `PacketPassFairQueueFlow_SetBusyHandler`, with a handler or with none. -/
  | setBusyHandler (flow : Nat) (handlerBusy : Bool)
  /-- The user of a flow sends a packet. -/
  | send (flow : Nat) (data : List UInt8)
  /-- The operation job of a flow's input. -/
  | inputOperation (flow : Nat)
  /-- The done job of a flow's input, which tells the user. -/
  | inputJobDone (flow : Nat)
  /-- The operation job of the output. -/
  | outputOperation
  /-- The output is done with a packet. -/
  | outputDone
  /-- The done job of the output. -/
  | outputJobDone
  /-- `schedule_job`. -/
  | scheduleJob
  deriving DecidableEq, Repr

def step (m : PacketPassFairQueue) : Event → Option PacketPassFairQueue
  | .flowInit flow => if flow ∈ m.flowsList then none else some (m.flowInit flow)
  | .flowFree flow => if flow ∈ m.flowsList then m.flowFree flow else none
  | .setBusyHandler flow handlerBusy =>
    if m.sendingFlow = some flow then some (m.setHandlerBusy flow handlerBusy) else none
  | .send flow data =>
    if flow ∈ m.flowsList then ((m.flow flow).input.send data).map (m.setInput flow) else none
  | .inputOperation flow =>
    if flow ∈ m.flowsList then
      (m.flow flow).input.jobOperation.bind fun r => (m.setInput flow r.2).inputHandlerSend flow r.1
    else none
  | .inputJobDone flow => if flow ∈ m.flowsList then (m.flow flow).input.jobDone.map (m.setInput flow) else none
  | .outputOperation => m.output.jobOperation.map fun r => {m with output := r.2}
  | .outputDone => m.output.done.map fun output => {m with output := output}
  | .outputJobDone => m.output.jobDone.bind fun output => {m with output := output}.outputHandlerDone
  | .scheduleJob => if m.scheduleJob then {m with scheduleJob := false}.scheduleJobHandler else none

/-- What the flows and the output see of the queue. -/
inductive Act where
  /-- The user of a flow sends a packet. -/
  | submitted (flow : Nat) (data : List UInt8)
  /-- The queue sends a packet of a flow to the output. -/
  | passed (flow : Nat) (data : List UInt8)
  /-- The output completes the packet that was sent, of this flow and with this weight. -/
  | completed (flow weight : Nat)
  /-- `PacketPassInterface_Done` is called for the input of a flow. -/
  | done (flow : Nat)
  deriving DecidableEq, Repr

/-- Whether `PacketPassInterface_Done` was called in between. -/
def doneCalled (m m' : PacketPassFairQueue) (flow : Nat) : Bool :=
  match (m.flow flow).input.state, (m'.flow flow).input.state with
  | .busy _, .donePending _ => true
  | _, _ => false

/-- The packet that was sent to the output in between. -/
def sent (m m' : PacketPassFairQueue) : List Act :=
  match m.output.state, m'.output.state, m'.sendingFlow with
  | .idle, .operationPending data, some flow => [.passed flow data]
  | _, _, _ => []

/-- What a step begins with: a user sends, or the output completes. -/
def begins (m : PacketPassFairQueue) : Event → List Act
  | .send flow data => [.submitted flow data]
  | .outputJobDone => m.sendingFlow.toList.map (.completed · (m.packetWeight + m.sendingLen))
  | _ => []

/-- The acts of a step. -/
def acts (m : PacketPassFairQueue) (e : Event) (m' : PacketPassFairQueue) : List Act :=
  m.begins e ++ (m.flowsList.filter (m.doneCalled m')).map .done ++ m.sent m'

/-- The packet that is submitted, if it is one of this flow. -/
def Act.submittedBy (flow : Nat) : Act → List (List UInt8)
  | .submitted f data => if f = flow then [data] else []
  | _ => []

/-- The packet that is passed to the output, if it is one of this flow. -/
def Act.passedOf (flow : Nat) : Act → List (List UInt8)
  | .passed f data => if f = flow then [data] else []
  | _ => []

def Act.passedFlow : Act → List Nat
  | .passed flow _ => [flow]
  | _ => []

def Act.completedFlow : Act → List Nat
  | .completed flow _ => [flow]
  | _ => []

def Act.doneFlow : Act → List Nat
  | .done flow => [flow]
  | _ => []

/-- The weight of the packet that completes, if it is one of this flow. -/
def Act.weightOf (flow : Nat) : Act → Nat
  | .completed f weight => if f = flow then weight else 0
  | _ => 0

/-- The packets of a flow that the queue has, and did not pass to the output yet. -/
def waiting (m : PacketPassFairQueue) (flow : Nat) : List (List UInt8) :=
  (match (m.flow flow).input.state with
    | .operationPending data => [data]
    | _ => []) ++ (m.flow flow).queued.toList

/-- The flow has a packet queued or being sent, or its packet completed and the schedule job did not run since. -/
def Backlogged (m : PacketPassFairQueue) (flow : Nat) : Prop :=
  flow ∈ m.queuedTree ∨ m.sendingFlow = some flow ∨ m.previousFlow = some flow

instance (m : PacketPassFairQueue) (flow : Nat) : Decidable (m.Backlogged flow) :=
  inferInstanceAs (Decidable (_ ∨ _ ∨ _))

end PacketPassFairQueue

end TwilightLine
