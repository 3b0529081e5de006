import TwilightLine.Flow.PacketPassFairQueue
import TwilightLine.Lib.Trace
import Mathlib.Data.List.Nodup
import Mathlib.Tactic.Linarith

/-! Runs of a fair queue.

The queue is consistent (`Ok`) after every step, and no packet that is queued waits for
nothing (`Live`). What a step can do is said once (`Steps`). From it follow that the output
has at most one packet, and gets each packet of a flow once and in order unless the flow is
freed (`delivers`). -/
namespace TwilightLine.PacketPassFairQueue

variable {m m' : PacketPassFairQueue} {e : Event} {x q : Nat} {data : List UInt8} {tree rest : List Nat}

def timeOf (m : PacketPassFairQueue) (x : Nat) : Nat := (m.flow x).time.toNat

@[simp]
theorem flow_update (m : PacketPassFairQueue) (x y : Nat) (f : PacketPassFairQueueFlow → PacketPassFairQueueFlow) :
    (m.update x f).flow y = if y = x then f (m.flow x) else m.flow y := Function.update_apply ..

theorem compareFlows_compares (m : PacketPassFairQueue) : OrderedTree.Compares m.compareFlows m.timeOf :=
  .byKey bCompare_compares (fun {_ _} h => (bCompare_eq_zero _ _).mp h) _

/-- The input of a flow, by whether its packet is at the output. -/
def InputOk (mtu : Nat) (sending : Prop) (f : PacketPassFairQueueFlow) : Prop :=
  f.input.mtu = mtu ∧
    match f.input.state with
    | .operationPending data => data.length ≤ mtu ∧ ¬sending ∧ f.queued = none
    | .busy data => data.length ≤ mtu ∧ (f.queued = some data ∧ ¬sending ∨ f.queued = none ∧ sending)
    | _ => ¬sending ∧ f.queued = none

/-- The state of the queue is consistent. -/
structure Ok (m : PacketPassFairQueue) : Prop where
  fits : m.output.mtu + m.packetWeight ≤ fairqueueMaxTime.toNat
  listed : m.flowsList.Nodup
  tree : m.queuedTree.Nodup
  ordered : OrderedTree.Ordered m.timeOf m.queuedTree
  mem : ∀ x, x ∈ m.queuedTree ↔ x ∈ m.flowsList ∧ (m.flow x).queued.isSome
  inputs : ∀ x ∈ m.flowsList, InputOk m.output.mtu (m.sendingFlow = some x) (m.flow x)
  sending : ∀ x, m.sendingFlow = some x → x ∈ m.flowsList ∧ m.previousFlow = none ∧ m.scheduleJob = false ∧
    m.sendingLen ≤ m.output.mtu ∧ ∀ q ∈ m.queuedTree, m.timeOf x ≤ m.timeOf q
  idle : m.output.state = .idle ↔ m.sendingFlow = none
  previous : ∀ x, m.previousFlow = some x → x ∈ m.flowsList ∧ m.scheduleJob = true

/-- A queued packet is not forgotten: another packet is at the output, or the schedule job is set. -/
def Live (m : PacketPassFairQueue) : Prop := m.queuedTree ≠ [] → m.sendingFlow.isSome ∨ m.scheduleJob = true

theorem Ok.notQueued (h : m.Ok) (hx : (m.flow x).queued = none) : x ∉ m.queuedTree := by
  intro hmem
  have := ((h.mem x).mp hmem).2
  rw [hx] at this
  cases this

theorem Ok.pending (h : m.Ok) (hx : x ∈ m.flowsList) (hd : (m.flow x).input.state = .operationPending data) :
    data.length ≤ m.output.mtu ∧ m.sendingFlow ≠ some x ∧ (m.flow x).queued = none := by
  have hin := (h.inputs x hx).2
  rwa [hd] at hin

/-- A queued packet is the one that the input waits for. -/
theorem Ok.queued (h : m.Ok) (hx : x ∈ m.queuedTree) : ∃ data, (m.flow x).queued = some data ∧
    (m.flow x).input.state = .busy data ∧ data.length ≤ m.output.mtu ∧ x ∈ m.flowsList ∧ m.sendingFlow ≠ some x := by
  obtain ⟨hlist, hsome⟩ := (h.mem x).mp hx
  obtain ⟨data, hdata⟩ := Option.isSome_iff_exists.mp hsome
  have hin := (h.inputs x hlist).2
  rw [hdata] at hin
  cases hstate : (m.flow x).input.state with
  | busy d =>
    rw [hstate] at hin
    obtain ⟨hlen, ⟨hd, hnot⟩ | ⟨hd, -⟩⟩ := hin
    · cases hd
      exact ⟨data, hdata, rfl, hlen, hlist, hnot⟩
    · cases hd
  | _ =>
    rw [hstate] at hin
    simp at hin

/-- The flow whose packet is at the output waits for it. -/
theorem Ok.busy (h : m.Ok) (hx : m.sendingFlow = some x) :
    (m.flow x).queued = none ∧ ∃ data, (m.flow x).input.state = .busy data := by
  have hin := (h.inputs x (h.sending x hx).1).2
  cases hstate : (m.flow x).input.state with
  | busy d =>
    rw [hstate] at hin
    obtain ⟨-, ⟨-, hnot⟩ | ⟨hq, -⟩⟩ := hin
    · exact absurd hx hnot
    · exact ⟨hq, d, rfl⟩
  | operationPending =>
    rw [hstate] at hin
    exact absurd hx hin.2.1
  | _ =>
    rw [hstate] at hin
    exact absurd hx hin.1

/-! ### The states after a step -/

/-- The first flow of the queue is taken out, and its packet is sent to the output. -/
def sendFirst (m : PacketPassFairQueue) (q : Nat) (rest : List Nat) (data : List UInt8) : PacketPassFairQueue :=
  {m.setQueued q none with
    queuedTree := rest
    output := ⟨m.output.mtu, .operationPending data⟩
    sendingFlow := some q
    sendingLen := data.length}

/-- The time that a flow gets when it is queued. -/
def enqueueTime (m : PacketPassFairQueue) (x : Nat) : UInt64 :=
  if m.previousFlow = some x then (m.flow x).time else max (m.flow x).time m.getCurrentTime

theorem flow_sendFirst (m : PacketPassFairQueue) (q : Nat) (rest : List Nat) (data : List UInt8) (y : Nat) :
    (m.sendFirst q rest data).flow y = if y = q then {m.flow q with queued := none} else m.flow y :=
  Function.update_apply ..

/-- A flow is put into the queue with its packet. -/
def enqueue (m : PacketPassFairQueue) (x : Nat) (data : List UInt8) (tree : List Nat) : PacketPassFairQueue :=
  {m.update x fun f => ⟨f.handlerBusy, ⟨m.output.mtu, .busy data⟩, m.enqueueTime x, some data⟩ with
    previousFlow := if m.previousFlow = some x then none else m.previousFlow
    queuedTree := tree}

theorem flow_enqueue (m : PacketPassFairQueue) (x : Nat) (data : List UInt8) (tree : List Nat) (y : Nat) :
    (m.enqueue x data tree).flow y =
      if y = x then ⟨(m.flow x).handlerBusy, ⟨m.output.mtu, .busy data⟩, m.enqueueTime x, some data⟩ else m.flow y :=
  Function.update_apply ..

theorem flow_flowInit (m : PacketPassFairQueue) (x y : Nat) :
    (m.flowInit x).flow y = if y = x then .init m.output.mtu else m.flow y := Function.update_apply ..

/-- The packet of a flow is completed, and all times are set. -/
def complete (m : PacketPassFairQueue) (x : Nat) (time : Nat → UInt64) : PacketPassFairQueue :=
  {m with
    output := ⟨m.output.mtu, .idle⟩
    sendingFlow := none
    previousFlow := some x
    scheduleJob := true
    flow := fun y =>
      if y = x then ⟨false, ⟨m.output.mtu, .donePending ()⟩, time y, none⟩ else {m.flow y with time := time y}}

/-- The time that a completed packet costs is added to its flow; where the times would get too large, all are
moved back by the least time that is queued. -/
def Retimes (m : PacketPassFairQueue) (x amount : Nat) (time : Nat → UInt64) : Prop :=
  ∃ back, (∀ q ∈ m.queuedTree, back ≤ m.timeOf q) ∧ (time x).toNat + back = m.timeOf x + amount ∧
    ∀ y ∈ m.flowsList, y ≠ x → (time y).toNat = m.timeOf y - back

/-! ### What the functions do -/

theorem schedule_eq (hs : m.sendingFlow = none) (hp : m.previousFlow = none) (ht : m.queuedTree = q :: rest)
    (hd : (m.flow q).queued = some data) (hidle : m.output.state = .idle) (hlen : data.length ≤ m.output.mtu) :
    m.schedule = some (m.sendFirst q rest data) := by
  rw [schedule, if_pos ⟨hs, hp⟩, ht]
  simp only [hd, Option.bind_some]
  exact congrArg (Option.map _) (PacketPassInterface.send_of_idle hidle hlen)

/-- While something is sent, queued or just completed, the current time is not later than its time. -/
theorem Ok.currentTime_le (h : m.Ok) (hx : m.Backlogged x) : m.getCurrentTime.toNat ≤ m.timeOf x := by
  unfold getCurrentTime
  cases hs : m.sendingFlow with
  | some s =>
    obtain ⟨-, hp, -, -, hle⟩ := h.sending s hs
    rcases hx with hx | hx | hx
    · exact hle x hx
    · rw [hs] at hx
      cases hx
      exact le_refl _
    · rw [hp] at hx
      cases hx
  | none =>
    have hfirst : x ∈ m.queuedTree → ∃ first, m.queuedTree.head? = some first ∧ m.timeOf first ≤ m.timeOf x := by
      intro hx
      have hordered := h.ordered
      cases ht : m.queuedTree with
      | nil => simp [ht] at hx
      | cons first rest =>
        rw [ht] at hx hordered
        exact ⟨first, rfl, hordered.first_le hx⟩
    have hmin : ∀ first previous, (if (m.flow previous).time < (m.flow first).time then (m.flow previous).time
        else (m.flow first).time).toNat = min (m.timeOf previous) (m.timeOf first) := by
      intro first previous
      rw [timeOf, timeOf]
      split_ifs with hlt <;> rw [UInt64.lt_iff_toNat_lt] at hlt <;> omega
    rcases hx with hx | hx | hx
    · obtain ⟨first, hhead, hle⟩ := hfirst hx
      rw [hhead]
      cases hp : m.previousFlow with
      | none => exact hle
      | some previous => exact (hmin first previous).le.trans ((min_le_right _ _).trans hle)
    · rw [hs] at hx
      cases hx
    · rw [hx]
      cases m.queuedTree.head? with
      | none => exact le_refl _
      | some first => exact (hmin first x).le.trans (min_le_left _ _)

/-- A time after it is moved back: it stops at 0, but for the flow that just sent. -/
def movedBack (sent : Nat) (subtract : UInt64) (y : Nat) (time : UInt64) : UInt64 :=
  if subtract > time ∧ y ≠ sent then 0 else time - subtract

/-- The loop moves the times of the flows back. -/
theorem subtractTime_eq {subtract : UInt64} {l : List Nat} (hl : l.Nodup)
    (hq : ∀ y ∈ l, (m.flow y).queued.isSome → subtract ≤ (m.flow y).time) :
    m.subtractTime x subtract l = some {m with
      flow := fun y =>
        if y ∈ l then {m.flow y with time := movedBack x subtract y (m.flow y).time} else m.flow y} := by
  induction l generalizing m with
  | nil => simp [subtractTime]
  | cons z rest ih =>
    obtain ⟨hz, hrest⟩ := List.nodup_cons.mp hl
    have hstep : m.subtractTime x subtract (z :: rest) =
        (m.setTime z (movedBack x subtract z (m.flow z).time)).subtractTime x subtract rest := by
      unfold movedBack
      rw [subtractTime]
      split_ifs with hlt hsome
      · exact absurd (hq z (List.mem_cons_self ..) hsome) (UInt64.not_le.mpr hlt.1)
      · rfl
      · rfl
    rw [hstep, ih hrest]
    · simp only [setTime, update, Option.some.injEq, mk.injEq, true_and, and_true]
      funext y
      by_cases hy : y = z
      · subst hy
        simp [hz]
      · simp [hy]
    · intro y hy
      rw [setTime, flow_update, if_neg (ne_of_mem_of_not_mem hy hz)]
      exact hq y (List.mem_cons_of_mem _ hy)

theorem movedBack_of_ne {subtract time : UInt64} {y : Nat} (hy : y ≠ x) :
    (movedBack x subtract y time).toNat = time.toNat - subtract.toNat := by
  unfold movedBack
  split_ifs with hlt
  · have := UInt64.lt_iff_toNat_lt.mp hlt.1
    rw [UInt64.toNat_zero]
    omega
  · have hle : subtract ≤ time := UInt64.not_lt.mp fun hlt' => hlt ⟨hlt', hy⟩
    rw [UInt64.toNat_sub_of_le _ _ hle]

/-- The just finished flow's time may underflow, and overflows to the correct value after adding to it. -/
theorem movedBack_add {subtract time amount : UInt64} (hle : subtract.toNat ≤ time.toNat + amount.toNat)
    (hlt : time.toNat + amount.toNat - subtract.toNat < 2 ^ 64) :
    (movedBack x subtract x time + amount).toNat + subtract.toNat = time.toNat + amount.toNat := by
  have hs := subtract.toNat_lt
  have ht := time.toNat_lt
  rw [movedBack, if_neg fun h => h.2 rfl, UInt64.toNat_add, UInt64.toNat_sub]
  omega

/-- What is subtracted where the times would get too large. -/
theorem timeToSubtract_spec (hordered : OrderedTree.Ordered m.timeOf m.queuedTree)
    (hle : ∀ q ∈ m.queuedTree, m.timeOf x ≤ m.timeOf q) :
    m.timeOf x ≤ (m.timeToSubtract x).toNat ∧ ∀ q ∈ m.queuedTree, (m.timeToSubtract x).toNat ≤ m.timeOf q := by
  unfold timeToSubtract
  cases ht : m.queuedTree with
  | nil => exact ⟨le_refl _, nofun⟩
  | cons first rest =>
    rw [ht] at hordered hle
    exact ⟨hle first (List.mem_cons_self ..), fun q hq => hordered.first_le hq⟩

/-- What `increment_sent_flow` makes of the times. -/
theorem incrementSentFlow_eq {amount : UInt64} (hlisted : m.flowsList.Nodup) (hx : x ∈ m.flowsList)
    (hs : m.sendingFlow = none) (hq : (m.flow x).queued = none) (hordered : OrderedTree.Ordered m.timeOf m.queuedTree)
    (hmem : ∀ y, y ∈ m.queuedTree ↔ y ∈ m.flowsList ∧ (m.flow y).queued.isSome)
    (hle : ∀ q ∈ m.queuedTree, m.timeOf x ≤ m.timeOf q) :
    ∃ time, m.Retimes x amount.toNat time ∧
      m.incrementSentFlow x amount = some {m with flow := fun y => {m.flow y with time := time y}} := by
  have hmax : fairqueueMaxTime.toNat = 2 ^ 64 - 1 := rfl
  have hamount := amount.toNat_lt
  have htime := (m.flow x).time.toNat_lt
  have hroom := UInt64.toNat_sub_of_le fairqueueMaxTime (m.flow x).time (UInt64.le_iff_toNat_le.mpr (by omega))
  rw [incrementSentFlow, if_pos ⟨UInt64.le_iff_toNat_le.mpr (by omega), hq, hs⟩]
  obtain ⟨hge, hback⟩ := timeToSubtract_spec hordered hle
  generalize m.timeToSubtract x = subtract at *
  dsimp only
  split_ifs with hover
  · rw [gt_iff_lt, UInt64.lt_iff_toNat_lt, hroom] at hover
    have hlt := subtract.toNat_lt
    unfold timeOf at hge
    rw [subtractTime_eq hlisted fun y hy hsome => UInt64.le_iff_toNat_le.mpr (hback y ((hmem y).mpr ⟨hy, hsome⟩))]
    refine ⟨fun y =>
      if y = x then movedBack x subtract x (m.flow x).time + amount
      else if y ∈ m.flowsList then movedBack x subtract y (m.flow y).time
      else (m.flow y).time, ⟨subtract.toNat, hback, ?_, ?_⟩, ?_⟩
    · dsimp only
      rw [if_pos rfl]
      exact movedBack_add (by omega) (by omega)
    · intro y hy hne
      dsimp only
      rw [if_neg hne, if_pos hy]
      exact movedBack_of_ne hne
    · simp only [Option.map_some, setTime, update, Option.some.injEq, mk.injEq, true_and, and_true]
      funext y
      by_cases hy : y = x
      · subst hy
        simp [hx]
      · simp only [Function.update_of_ne hy, if_neg hy]
        split_ifs <;> rfl
  · rw [gt_iff_lt, UInt64.lt_iff_toNat_lt, hroom] at hover
    refine ⟨fun y => if y = x then (m.flow x).time + amount else (m.flow y).time,
      ⟨0, fun _ _ => Nat.zero_le _, ?_, ?_⟩, ?_⟩
    · dsimp only
      rw [if_pos rfl, UInt64.toNat_add, timeOf]
      omega
    · intro y _ hne
      dsimp only
      rw [if_neg hne, timeOf, Nat.sub_zero]
    · simp only [Option.map_some, setTime, update, Option.some.injEq, mk.injEq, true_and, and_true]
      funext y
      by_cases hy : y = x
      · subst hy
        simp
      · simp [hy]

/-- The output is done with its packet. -/
theorem Ok.outputHandlerDone_eq (h : m.Ok) (hx : m.sendingFlow = some x) :
    ∃ time, m.Retimes x (m.packetWeight + m.sendingLen) time ∧
      {m with output := ⟨m.output.mtu, .idle⟩}.outputHandlerDone = some (m.complete x time) := by
  obtain ⟨hlist, hp, hj, hlen, hle⟩ := h.sending x hx
  obtain ⟨hq, data, hbusy⟩ := h.busy hx
  have hfits := h.fits
  have hmax : fairqueueMaxTime.toNat = 2 ^ 64 - 1 := rfl
  have hamount : (UInt64.ofNat m.packetWeight + UInt64.ofNat m.sendingLen).toNat = m.packetWeight + m.sendingLen := by
    rw [UInt64.toNat_add, UInt64.toNat_ofNat', UInt64.toNat_ofNat']
    omega
  let m₁ : PacketPassFairQueue :=
    {m with output := ⟨m.output.mtu, .idle⟩, sendingFlow := none, previousFlow := some x}
  obtain ⟨time, hretimes, heq⟩ : ∃ time, m₁.Retimes x (UInt64.ofNat m.packetWeight + UInt64.ofNat m.sendingLen).toNat time ∧
      m₁.incrementSentFlow x _ = some {m₁ with flow := fun y => {m₁.flow y with time := time y}} :=
    incrementSentFlow_eq h.listed hlist rfl hq h.ordered h.mem hle
  rw [hamount] at hretimes
  refine ⟨time, hretimes, ?_⟩
  have hdone : (m.flow x).input.done = some ⟨(m.flow x).input.mtu, .donePending ()⟩ := by
    rw [PacketPassInterface.done, hbusy]
    rfl
  rw [outputHandlerDone]
  simp only [hx, Option.bind_some]
  rw [if_pos ⟨hp, hj, hq⟩, show incrementSentFlow _ _ _ = _ from heq]
  simp only [Option.bind_some, m₁, hdone, Option.map_some]
  simp only [complete, setInput, setHandlerBusy, update, Option.some.injEq, mk.injEq, true_and, and_true]
  funext y
  by_cases hy : y = x
  · subst hy
    simp [hq, (h.inputs y hlist).1]
  · simp [hy]

@[simp]
theorem getCurrentTime_setInput (m : PacketPassFairQueue) (x : Nat) (input : PacketPassInterface) :
    (m.setInput x input).getCurrentTime = m.getCurrentTime := by
  have htime : ∀ y, ((m.setInput x input).flow y).time = (m.flow y).time := by
    intro y
    rw [setInput, flow_update]
    split_ifs with hy
    · rw [hy]
    · rfl
  unfold getCurrentTime
  simp only [htime]
  rfl

theorem timeOf_enqueue (m : PacketPassFairQueue) (x : Nat) (data : List UInt8) (tree : List Nat) (y : Nat) :
    (m.enqueue x data tree).timeOf y = if y = x then (m.enqueueTime x).toNat else m.timeOf y := by
  unfold timeOf
  rw [flow_enqueue]
  split_ifs <;> rfl

theorem compareFlows_congr (h : ∀ y, (m.flow y).time = (m'.flow y).time) : m.compareFlows = m'.compareFlows := by
  funext a b
  simp only [compareFlows, h]

/-- A submitted packet comes to the queue. -/
theorem Ok.inputOperation_eq (h : m.Ok) (hx : x ∈ m.flowsList)
    (hd : (m.flow x).input.state = .operationPending data) :
    ∃ tree, tree.Perm (x :: m.queuedTree) ∧ OrderedTree.Ordered (m.enqueue x data tree).timeOf tree ∧
      m.step (.inputOperation x) =
        if m.sendingFlow = none ∧ m.scheduleJob = false then (m.enqueue x data tree).schedule
        else some (m.enqueue x data tree) := by
  obtain ⟨-, hsending, hqueued⟩ := h.pending hx hd
  have hnot := h.notQueued hqueued
  have hjob : (m.flow x).input.jobOperation = some (data, ⟨m.output.mtu, .busy data⟩) := by
    rw [PacketPassInterface.jobOperation, hd, (h.inputs x hx).1]
    rfl
  have htime : ∀ y, y ≠ x → (m.enqueue x data []).timeOf y = m.timeOf y := by
    intro y hy
    rw [timeOf_enqueue, if_neg hy]
  have hordered : OrderedTree.Ordered (m.enqueue x data []).timeOf m.queuedTree := by
    refine h.ordered.congr fun a ha b hb hle => ?_
    rwa [htime a (ne_of_mem_of_not_mem ha hnot), htime b (ne_of_mem_of_not_mem hb hnot)]
  obtain ⟨tree, hinsert, hperm, hsorted⟩ := OrderedTree.insert_spec (m.enqueue x data []).compareFlows_compares hnot hordered
  refine ⟨tree, hperm, hsorted, ?_⟩
  -- whichever way the time is set, the flow is inserted by it
  have hfinish : ∀ m₁ : PacketPassFairQueue, m₁.queuedTree = m.queuedTree →
      (∀ tree, {m₁ with queuedTree := tree}.setQueued x (some data) = m.enqueue x data tree) →
      ((OrderedTree.insert m₁.compareFlows x m₁.queuedTree).bind fun tree =>
        let m := {m₁ with queuedTree := tree}.setQueued x (some data)
        if m.sendingFlow = none ∧ m.scheduleJob = false then m.schedule else some m) =
      if m.sendingFlow = none ∧ m.scheduleJob = false then (m.enqueue x data tree).schedule
      else some (m.enqueue x data tree) := by
    intro m₁ htree hset
    have hsame : ∀ y, (m₁.flow y).time = ((m.enqueue x data []).flow y).time := by
      intro y
      rw [← hset []]
      simp only [setQueued, flow_update]
      split_ifs with hy
      · rw [hy]
      · rfl
    rw [compareFlows_congr hsame, htree, hinsert, Option.bind_some]
    dsimp only
    rw [hset tree]
    rfl
  rw [step, if_pos hx, hjob, Option.bind_some, inputHandlerSend,
    if_pos (by simpa [setInput] using ⟨hsending, hqueued⟩), getCurrentTime_setInput]
  refine hfinish _ ?_ ?_
  · split_ifs <;> rfl
  · intro tree
    split_ifs with hp
    · have hp : m.previousFlow = some x := hp
      simp [hp, setInput, setQueued, update, enqueue, enqueueTime]
    · have hp : m.previousFlow ≠ some x := hp
      simp [hp, setInput, setTime, setQueued, update, enqueue, enqueueTime]

/-! ### What a step can do -/

/-- The queue without a flow. -/
def freed (m : PacketPassFairQueue) (x : Nat) : PacketPassFairQueue :=
  {m with
    previousFlow := if m.previousFlow = some x then none else m.previousFlow
    queuedTree := if (m.flow x).queued.isSome then m.queuedTree.erase x else m.queuedTree
    flowsList := m.flowsList.erase x}

/-- The schedule job, before it schedules. -/
def forget (m : PacketPassFairQueue) : PacketPassFairQueue := {m with scheduleJob := false, previousFlow := none}

/-- The steps, with the state after them and what the flows and the output see. -/
inductive Steps (m : PacketPassFairQueue) : Event → PacketPassFairQueue → List Act → Prop where
  | flowInit {x : Nat} (hx : x ∉ m.flowsList) : Steps m (.flowInit x) (m.flowInit x) []
  | flowFree {x : Nat} (hx : x ∈ m.flowsList) (hs : m.sendingFlow ≠ some x) : Steps m (.flowFree x) (m.freed x) []
  | setBusyHandler {x : Nat} (b : Bool) (hs : m.sendingFlow = some x) : Steps m (.setBusyHandler x b) (m.setHandlerBusy x b) []
  | send {x : Nat} {data : List UInt8} (hx : x ∈ m.flowsList) (hidle : (m.flow x).input.state = .idle) (hlen : data.length ≤ m.output.mtu) :
    Steps m (.send x data) (m.setInput x ⟨m.output.mtu, .operationPending data⟩) [.submitted x data]
  | inputJobDone {x : Nat} (hx : x ∈ m.flowsList) (hdone : (m.flow x).input.state = .donePending ()) :
    Steps m (.inputJobDone x) (m.setInput x ⟨m.output.mtu, .idle⟩) []
  | outputOperation {data : List UInt8} (hpending : m.output.state = .operationPending data) :
    Steps m .outputOperation {m with output := ⟨m.output.mtu, .busy data⟩} []
  | outputDone {data : List UInt8} (hbusy : m.output.state = .busy data) :
    Steps m .outputDone {m with output := ⟨m.output.mtu, .donePending ()⟩} []
  /-- A submitted packet is queued. -/
  | queue {x : Nat} {data : List UInt8} {tree : List Nat} (hx : x ∈ m.flowsList) (hpending : (m.flow x).input.state = .operationPending data)
    (hperm : tree.Perm (x :: m.queuedTree)) (hordered : OrderedTree.Ordered (m.enqueue x data tree).timeOf tree)
    (hbusy : ¬(m.sendingFlow = none ∧ m.scheduleJob = false)) :
    Steps m (.inputOperation x) (m.enqueue x data tree) []
  /-- A submitted packet is sent at once. -/
  | pass {x : Nat} {data : List UInt8} (hx : x ∈ m.flowsList) (hpending : (m.flow x).input.state = .operationPending data)
    (hs : m.sendingFlow = none) (hj : m.scheduleJob = false) (ht : m.queuedTree = []) :
    Steps m (.inputOperation x) ((m.enqueue x data [x]).sendFirst x [] data) [.passed x data]
  | schedule {q : Nat} {rest : List Nat} {data : List UInt8} (hj : m.scheduleJob = true) (hs : m.sendingFlow = none) (ht : m.queuedTree = q :: rest)
    (hd : (m.flow q).queued = some data) : Steps m .scheduleJob (m.forget.sendFirst q rest data) [.passed q data]
  | scheduleNone (hj : m.scheduleJob = true) (hs : m.sendingFlow = none) (ht : m.queuedTree = []) :
    Steps m .scheduleJob m.forget []
  | complete {x : Nat} {time : Nat → UInt64} (hs : m.sendingFlow = some x) (hdone : m.output.state = .donePending ())
    (hretimes : m.Retimes x (m.packetWeight + m.sendingLen) time) :
    Steps m .outputJobDone (m.complete x time) [.completed x (m.packetWeight + m.sendingLen), .done x]

/-- The flow at the output, if it is not idle. -/
theorem Ok.sendingSome (h : m.Ok) (hne : m.output.state ≠ .idle) : ∃ x, m.sendingFlow = some x := by
  cases hs : m.sendingFlow with
  | none => exact absurd (h.idle.mpr hs) hne
  | some x => exact ⟨x, rfl⟩

/-- The queue is empty where neither a packet is at the output nor the schedule job is set. -/
theorem Live.nil (h : m.Live) (hs : m.sendingFlow = none) (hj : m.scheduleJob = false) : m.queuedTree = [] := by
  by_contra hne
  have := h hne
  simp [hs, hj] at this

/-- The jobs do not fail: a submitted packet comes to the queue. -/
theorem Ok.inputOperation (h : m.Ok) (hlive : m.Live) (hx : x ∈ m.flowsList)
    (hd : (m.flow x).input.state = .operationPending data) :
    ∃ m' as, m.step (.inputOperation x) = some m' ∧ Steps m (.inputOperation x) m' as := by
  obtain ⟨tree, hperm, hordered, heq⟩ := h.inputOperation_eq hx hd
  obtain ⟨hlen, hsending, -⟩ := h.pending hx hd
  by_cases hbusy : m.sendingFlow = none ∧ m.scheduleJob = false
  · have ht := hlive.nil hbusy.1 hbusy.2
    rw [ht, List.perm_singleton] at hperm
    subst hperm
    have hprevious : (m.enqueue x data [x]).previousFlow = none := by
      cases hp : m.previousFlow with
      | none => simp [enqueue, hp]
      | some y => exact absurd (h.previous y hp).2 (by simp [hbusy.2])
    have hfirst : ((m.enqueue x data [x]).flow x).queued = some data := by simp [enqueue]
    have hsend := schedule_eq (m := m.enqueue x data [x]) hbusy.1 hprevious rfl hfirst (h.idle.mpr hbusy.1) hlen
    rw [if_pos hbusy, hsend] at heq
    exact ⟨_, _, heq, .pass hx hd hbusy.1 hbusy.2 ht⟩
  · rw [if_neg hbusy] at heq
    exact ⟨_, _, heq, .queue hx hd hperm hordered hbusy⟩

/-- The schedule job does not fail. -/
theorem Ok.scheduleJobRuns (h : m.Ok) (hj : m.scheduleJob = true) :
    ∃ m' as, m.step .scheduleJob = some m' ∧ Steps m .scheduleJob m' as := by
  have hs : m.sendingFlow = none := by
    cases hs : m.sendingFlow with
    | none => rfl
    | some x => simp [(h.sending x hs).2.2.1] at hj
  have heq : m.step .scheduleJob = if m.queuedTree ≠ [] then m.forget.schedule else some m.forget := by
    rw [step, if_pos hj, scheduleJobHandler, if_pos (by exact hs)]
    rfl
  rw [heq]
  cases ht : m.queuedTree with
  | nil => exact ⟨_, _, rfl, .scheduleNone hj hs ht⟩
  | cons q rest =>
    obtain ⟨data, hd, -, hlen, -⟩ := h.queued (ht ▸ List.mem_cons_self ..)
    refine ⟨_, _, ?_, .schedule hj hs ht hd⟩
    exact schedule_eq (m := m.forget) hs rfl ht hd (h.idle.mpr hs) hlen

/-- The done job of the output does not fail. -/
theorem Ok.outputJobDone (h : m.Ok) (hd : m.output.state = .donePending ()) :
    ∃ m' as, m.step .outputJobDone = some m' ∧ Steps m .outputJobDone m' as := by
  obtain ⟨x, hs⟩ := h.sendingSome (by simp [hd])
  obtain ⟨time, hretimes, heq⟩ := h.outputHandlerDone_eq hs
  refine ⟨_, _, ?_, .complete hs hd hretimes⟩
  rw [step, PacketPassInterface.jobDone, hd]
  exact heq

/-- **What a step can do.** -/
theorem Ok.steps (h : m.Ok) (hlive : m.Live) (he : m.step e = some m') : ∃ as, Steps m e m' as := by
  -- a job that does not fail does what was said of it
  have hjob : (∃ m'' as, m.step e = some m'' ∧ Steps m e m'' as) → ∃ as, Steps m e m' as := by
    rintro ⟨m'', as, hm'', hsteps⟩
    rw [he, Option.some.injEq] at hm''
    exact ⟨as, hm'' ▸ hsteps⟩
  cases e with
  | flowInit x =>
    obtain ⟨hx, rfl⟩ := Option.ite_none_left_eq_some.mp he |>.imp_right Option.some.inj
    exact ⟨_, .flowInit hx⟩
  | flowFree x =>
    obtain ⟨hx, he⟩ := Option.ite_none_right_eq_some.mp he
    obtain ⟨hs, rfl⟩ := Option.ite_none_right_eq_some.mp he |>.imp_right Option.some.inj
    exact ⟨_, .flowFree hx hs⟩
  | setBusyHandler x b =>
    obtain ⟨hs, rfl⟩ := Option.ite_none_right_eq_some.mp he |>.imp_right Option.some.inj
    exact ⟨_, .setBusyHandler b hs⟩
  | send x data =>
    obtain ⟨hx, he⟩ := Option.ite_none_right_eq_some.mp he
    obtain ⟨input, hsend, rfl⟩ := Option.map_eq_some_iff.mp he
    obtain ⟨hidle, hlen, rfl⟩ := PacketPassInterface.send_eq hsend
    rw [(h.inputs x hx).1] at hlen ⊢
    exact ⟨_, .send hx hidle hlen⟩
  | inputOperation x =>
    obtain ⟨hx, he'⟩ := Option.ite_none_right_eq_some.mp he
    obtain ⟨⟨data, input⟩, hop, -⟩ := Option.bind_eq_some_iff.mp he'
    exact hjob (h.inputOperation hlive hx (PacketPassInterface.jobOperation_eq hop).1)
  | inputJobDone x =>
    obtain ⟨hx, he⟩ := Option.ite_none_right_eq_some.mp he
    obtain ⟨input, hjobDone, rfl⟩ := Option.map_eq_some_iff.mp he
    obtain ⟨hdone, rfl⟩ := PacketPassInterface.jobDone_eq hjobDone
    rw [(h.inputs x hx).1]
    exact ⟨_, .inputJobDone hx hdone⟩
  | outputOperation =>
    obtain ⟨⟨data, output⟩, hop, rfl⟩ := Option.map_eq_some_iff.mp he
    obtain ⟨hpending, rfl⟩ := PacketPassInterface.jobOperation_eq hop
    exact ⟨_, .outputOperation hpending⟩
  | outputDone =>
    obtain ⟨output, hdone, rfl⟩ := Option.map_eq_some_iff.mp he
    obtain ⟨⟨data, hbusy⟩, rfl⟩ := PacketPassInterface.done_eq hdone
    exact ⟨_, .outputDone hbusy⟩
  | outputJobDone =>
    obtain ⟨output, hdone, -⟩ := Option.bind_eq_some_iff.mp he
    exact hjob (h.outputJobDone (PacketPassInterface.jobDone_eq hdone).1)
  | scheduleJob =>
    obtain ⟨hj, -⟩ := Option.ite_none_right_eq_some.mp he
    exact hjob (h.scheduleJobRuns hj)

/-! ### The queue stays consistent -/

/-- A change of a flow that leaves its time and what is queued. -/
theorem Ok.update_flow (h : m.Ok) {f : PacketPassFairQueueFlow → PacketPassFairQueueFlow}
    (htime : (f (m.flow x)).time = (m.flow x).time) (hq : (f (m.flow x)).queued = (m.flow x).queued)
    (hin : x ∈ m.flowsList → InputOk m.output.mtu (m.sendingFlow = some x) (f (m.flow x))) : (m.update x f).Ok := by
  have htimes : (m.update x f).timeOf = m.timeOf := by
    funext y
    unfold timeOf
    rw [flow_update]
    split_ifs with hy
    · rw [htime, hy]
    · rfl
  refine ⟨h.fits, h.listed, h.tree, ?_, ?_, ?_, ?_, h.idle, h.previous⟩
  · rw [htimes]
    exact h.ordered
  · intro y
    rw [flow_update]
    by_cases hy : y = x
    · rw [if_pos hy, hq, ← hy]
      exact h.mem y
    · rw [if_neg hy]
      exact h.mem y
  · intro y hlist
    rw [flow_update]
    by_cases hy : y = x
    · rw [if_pos hy]
      subst hy
      exact hin hlist
    · rw [if_neg hy]
      exact h.inputs y hlist
  · rw [htimes]
    exact h.sending

theorem InputOk.congr {mtu : Nat} {p q : Prop} {f : PacketPassFairQueueFlow} (h : InputOk mtu p f) (hpq : p ↔ q) :
    InputOk mtu q f := by
  rwa [InputOk, ← hpq]

/-- A packet is sent to the output. -/
theorem Ok.sendFirst (h : m.Ok) (hs : m.sendingFlow = none) (hp : m.previousFlow = none) (hj : m.scheduleJob = false)
    (ht : m.queuedTree = q :: rest) (hd : (m.flow q).queued = some data) : (m.sendFirst q rest data).Ok := by
  obtain ⟨d, hd', hbusy, hlen, hlist, -⟩ := h.queued (x := q) (ht ▸ List.mem_cons_self ..)
  rw [hd] at hd'
  cases hd'
  have htree := h.tree
  have hordered := h.ordered
  rw [ht] at htree hordered
  obtain ⟨hq, hrest⟩ := List.nodup_cons.mp htree
  have htimes : (m.sendFirst q rest data).timeOf = m.timeOf := by
    funext y
    unfold timeOf
    rw [flow_sendFirst]
    split_ifs with hy
    · rw [hy]
    · rfl
  refine ⟨h.fits, h.listed, hrest, ?_, ?_, ?_, ?_, by simp [PacketPassFairQueue.sendFirst], ?_⟩
  · rw [htimes]
    exact hordered.of_cons
  · intro y
    rw [flow_sendFirst]
    have hmem := h.mem y
    rw [ht, List.mem_cons] at hmem
    by_cases hy : y = q
    · subst hy
      simp [PacketPassFairQueue.sendFirst, hq]
    · rw [if_neg hy]
      simpa [PacketPassFairQueue.sendFirst, setQueued, update, hy] using hmem
  · intro y hy
    rw [flow_sendFirst]
    have hin := h.inputs y hy
    rw [hs] at hin
    by_cases hyq : y = q
    · subst hyq
      rw [if_pos rfl]
      refine ⟨hin.1, ?_⟩
      dsimp only
      rw [hbusy]
      exact ⟨hlen, .inr ⟨rfl, rfl⟩⟩
    · rw [if_neg hyq]
      exact hin.congr (by simp [PacketPassFairQueue.sendFirst, Ne.symm hyq])
  · intro y hy
    cases hy
    refine ⟨hlist, hp, hj, hlen, ?_⟩
    rw [htimes]
    exact fun y hy => List.rel_of_pairwise_cons hordered hy
  · intro y hy
    have : m.previousFlow = some y := hy
    rw [hp] at this
    cases this

/-- A packet is queued. -/
theorem Ok.enqueue (h : m.Ok) (hx : x ∈ m.flowsList) (hd : (m.flow x).input.state = .operationPending data)
    (hperm : tree.Perm (x :: m.queuedTree)) (hordered : OrderedTree.Ordered (m.enqueue x data tree).timeOf tree) :
    (m.enqueue x data tree).Ok := by
  obtain ⟨hlen, hsending, hqueued⟩ := h.pending hx hd
  have hnot := h.notQueued hqueued
  refine ⟨h.fits, h.listed, hperm.nodup_iff.mpr (List.nodup_cons.mpr ⟨hnot, h.tree⟩), hordered, ?_, ?_, ?_, h.idle, ?_⟩
  · intro y
    rw [flow_enqueue]
    have hmem : y ∈ tree ↔ y = x ∨ y ∈ m.queuedTree := hperm.mem_iff.trans List.mem_cons
    by_cases hy : y = x
    · subst hy
      simpa [PacketPassFairQueue.enqueue, update, hmem] using hx
    · rw [if_neg hy]
      simpa [PacketPassFairQueue.enqueue, update, hmem, hy] using h.mem y
  · intro y hy
    rw [flow_enqueue]
    by_cases hyx : y = x
    · rw [if_pos hyx]
      refine ⟨rfl, hlen, .inl ⟨rfl, ?_⟩⟩
      rw [hyx]
      exact hsending
    · rw [if_neg hyx]
      exact h.inputs y hy
  · intro s hs
    obtain ⟨hlist, hp, hj, hle, hmin⟩ := h.sending s hs
    have hsx : s ≠ x := fun heq => hsending (heq ▸ hs)
    refine ⟨hlist, by simp [PacketPassFairQueue.enqueue, hp], hj, hle, ?_⟩
    intro y hy
    rw [timeOf_enqueue, if_neg hsx, timeOf_enqueue]
    rcases List.mem_cons.mp (hperm.mem_iff.mp hy) with rfl | hy
    · -- the time of the flow is raised to the time of the one that is sending
      have hcurrent : m.getCurrentTime = (m.flow s).time := by
        unfold getCurrentTime
        rw [show m.sendingFlow = some s from hs]
      rw [if_pos rfl, enqueueTime, if_neg (by simp [hp]), UInt64.toNat_max, hcurrent]
      exact Nat.le_max_right ..
    · rw [if_neg (ne_of_mem_of_not_mem hy hnot)]
      exact hmin y hy
  · intro y hy
    have hy : (if m.previousFlow = some x then none else m.previousFlow) = some y := hy
    split_ifs at hy
    exact h.previous y hy

/-- The times of the queued flows keep their order. -/
theorem Ok.retimed (h : m.Ok) {amount : Nat} {time : Nat → UInt64} (hx : x ∉ m.queuedTree)
    (hretimes : m.Retimes x amount time) : OrderedTree.Ordered (fun y => (time y).toNat) m.queuedTree := by
  obtain ⟨back, hback, -, hothers⟩ := hretimes
  refine h.ordered.congr fun a ha b hb hle => ?_
  rw [hothers a ((h.mem a).mp ha).1 (ne_of_mem_of_not_mem ha hx), hothers b ((h.mem b).mp hb).1 (ne_of_mem_of_not_mem hb hx)]
  omega

/-- The packet at the output is completed. -/
theorem Ok.complete (h : m.Ok) {amount : Nat} {time : Nat → UInt64} (hs : m.sendingFlow = some x)
    (hretimes : m.Retimes x amount time) : (m.complete x time).Ok := by
  obtain ⟨hlist, -⟩ := h.sending x hs
  obtain ⟨hq, -⟩ := h.busy hs
  have hnot := h.notQueued hq
  have htimes : (m.complete x time).timeOf = fun y => (time y).toNat := by
    funext y
    unfold timeOf PacketPassFairQueue.complete
    dsimp only
    split_ifs <;> rfl
  refine ⟨h.fits, h.listed, h.tree, ?_, ?_, ?_, nofun, by simp [PacketPassFairQueue.complete], ?_⟩
  · rw [htimes]
    exact h.retimed hnot hretimes
  · intro y
    have hmem := h.mem y
    by_cases hy : y = x
    · subst hy
      simpa [PacketPassFairQueue.complete] using hnot
    · simpa [PacketPassFairQueue.complete, hy] using hmem
  · intro y hy
    have hin := h.inputs y hy
    rw [hs] at hin
    by_cases hyx : y = x
    · subst hyx
      simp [PacketPassFairQueue.complete, InputOk]
    · have hne : ¬(some x = some y) := by simpa using Ne.symm hyx
      have hin := hin.congr (q := (none : Option Nat) = some y) (by simp [hne])
      simpa [PacketPassFairQueue.complete, hyx, InputOk] using hin
  · intro y hy
    cases hy
    exact ⟨hlist, rfl⟩

/-- A flow is freed whose packet is not at the output. -/
theorem Ok.freed (h : m.Ok) (hs : m.sendingFlow ≠ some x) : (m.freed x).Ok := by
  have hsub : (m.freed x).queuedTree.Sublist m.queuedTree := by
    unfold PacketPassFairQueue.freed
    dsimp only
    split_ifs
    · exact List.erase_sublist ..
    · exact List.Sublist.refl _
  have hlist : ∀ y, y ∈ (m.freed x).flowsList ↔ y ≠ x ∧ y ∈ m.flowsList := fun y => h.listed.mem_erase_iff
  refine ⟨h.fits, h.listed.erase x, hsub.nodup h.tree, h.ordered.sublist hsub, ?_, ?_, ?_, h.idle, ?_⟩
  · intro y
    rw [hlist]
    have hmem := h.mem y
    unfold PacketPassFairQueue.freed
    dsimp only
    split_ifs with hq
    · rw [h.tree.mem_erase_iff, hmem, and_assoc]
    · rw [hmem]
      refine ⟨fun hy => ⟨⟨?_, hy.1⟩, hy.2⟩, fun hy => ⟨hy.1.2, hy.2⟩⟩
      rintro rfl
      exact hq hy.2
  · exact fun y hy => h.inputs y ((hlist y).mp hy).2
  · intro s hs'
    obtain ⟨hmem, hp, hj, hle, hmin⟩ := h.sending s hs'
    refine ⟨(hlist s).mpr ⟨fun heq => hs (heq ▸ hs'), hmem⟩, ?_, hj, hle, fun y hy => hmin y (hsub.subset hy)⟩
    simp [PacketPassFairQueue.freed, hp]
  · intro y hy
    have hy : (if m.previousFlow = some x then none else m.previousFlow) = some y := hy
    split_ifs at hy with hp
    obtain ⟨hmem, hj⟩ := h.previous y hy
    exact ⟨(hlist y).mpr ⟨fun heq => hp (heq ▸ hy), hmem⟩, hj⟩

theorem Ok.flowInit (h : m.Ok) (hx : x ∉ m.flowsList) : (m.flowInit x).Ok := by
  have hnot : x ∉ m.queuedTree := fun hmem => hx ((h.mem x).mp hmem).1
  have hlist : ∀ y, y ∈ (m.flowInit x).flowsList ↔ y ∈ m.flowsList ∨ y = x := by
    intro y
    simp [PacketPassFairQueue.flowInit]
  have htimes : ∀ y, y ≠ x → (m.flowInit x).timeOf y = m.timeOf y := by
    intro y hy
    unfold timeOf
    rw [flow_flowInit, if_neg hy]
  have hne : ∀ y ∈ m.flowsList, y ≠ x := fun y hy => ne_of_mem_of_not_mem hy hx
  have hneq : ∀ y ∈ m.queuedTree, y ≠ x := fun y hy => ne_of_mem_of_not_mem hy hnot
  refine ⟨h.fits, ?_, h.tree, ?_, ?_, ?_, ?_, h.idle, ?_⟩
  · simpa [PacketPassFairQueue.flowInit, List.concat_eq_append] using h.listed.concat hx
  · refine h.ordered.congr fun a ha b hb hle => ?_
    rwa [htimes a (hneq a ha), htimes b (hneq b hb)]
  · intro y
    rw [hlist, flow_flowInit]
    by_cases hy : y = x
    · subst hy
      simpa [PacketPassFairQueue.flowInit, update, PacketPassFairQueueFlow.init] using hnot
    · simpa [PacketPassFairQueue.flowInit, update, hy] using h.mem y
  · intro y hy
    rw [flow_flowInit]
    rcases (hlist y).mp hy with hy | rfl
    · rw [if_neg (hne y hy)]
      exact h.inputs y hy
    · rw [if_pos rfl]
      exact ⟨rfl, fun hs => hx (h.sending y hs).1, rfl⟩
  · intro s hs
    obtain ⟨hmem, hp, hj, hle, hmin⟩ := h.sending s hs
    refine ⟨(hlist s).mpr (.inl hmem), hp, hj, hle, fun y hy => ?_⟩
    rw [htimes s (hne s hmem), htimes y (hneq y hy)]
    exact hmin y hy
  · intro y hy
    obtain ⟨hmem, hj⟩ := h.previous y hy
    exact ⟨(hlist y).mpr (.inl hmem), hj⟩

theorem Ok.forget (h : m.Ok) (hs : m.sendingFlow = none) : m.forget.Ok :=
  ⟨h.fits, h.listed, h.tree, h.ordered, h.mem, h.inputs,
    fun x hx => absurd (show m.sendingFlow = some x from hx) (by simp [hs]), h.idle, nofun⟩

/-- A step keeps the queue consistent. -/
theorem Steps.ok {as : List Act} (hsteps : Steps m e m' as) (h : m.Ok) : m'.Ok := by
  cases hsteps with
  | flowInit hx => exact h.flowInit hx
  | flowFree hx hs => exact h.freed hs
  | setBusyHandler b hs => exact h.update_flow rfl rfl fun hx => h.inputs _ hx
  | @send x data hx hidle hlen =>
    refine h.update_flow rfl rfl fun hx => ?_
    have hin := (h.inputs x hx).2
    rw [hidle] at hin
    exact ⟨rfl, hlen, hin⟩
  | @inputJobDone x hx hdone =>
    refine h.update_flow rfl rfl fun hx => ?_
    have hin := (h.inputs x hx).2
    rw [hdone] at hin
    exact ⟨rfl, hin⟩
  | outputOperation hpending =>
    refine ⟨h.fits, h.listed, h.tree, h.ordered, h.mem, h.inputs, h.sending, ?_, h.previous⟩
    rw [← h.idle, hpending]
    simp
  | outputDone hbusy =>
    refine ⟨h.fits, h.listed, h.tree, h.ordered, h.mem, h.inputs, h.sending, ?_, h.previous⟩
    rw [← h.idle, hbusy]
    simp
  | queue hx hpending hperm hordered hbusy => exact h.enqueue hx hpending hperm hordered
  | @pass x data hx hpending hs hj ht =>
    have hperm : [x].Perm (x :: m.queuedTree) := by rw [ht]
    have hp : m.previousFlow = none := by
      cases hp : m.previousFlow with
      | none => rfl
      | some y => exact absurd (h.previous y hp).2 (by simp [hj])
    refine (h.enqueue hx hpending hperm (List.pairwise_singleton ..)).sendFirst hs ?_ hj rfl ?_
    · simp [PacketPassFairQueue.enqueue, hp]
    · simp [flow_enqueue]
  | schedule hj hs ht hd => exact (h.forget hs).sendFirst hs rfl rfl ht hd
  | scheduleNone hj hs ht => exact h.forget hs
  | complete hs hdone hretimes => exact h.complete hs hretimes

/-- A step leaves no queued packet waiting for nothing. -/
theorem Steps.live {as : List Act} (hsteps : Steps m e m' as) (h : m.Live) : m'.Live := by
  cases hsteps with
  | @flowFree x hx hs =>
    intro hne
    refine h fun ht => hne ?_
    simp [freed, ht]
  | @queue x _ _ hx hpending hperm hordered hbusy =>
    intro _
    cases hs : m.sendingFlow with
    | none => exact .inr (by simpa [hs, enqueue, update] using hbusy)
    | some y => exact .inl (by simp [enqueue, update, hs])
  | pass => exact fun _ => .inl rfl
  | schedule => exact fun _ => .inl rfl
  | scheduleNone hj hs ht => exact fun hne => absurd ht hne
  | complete => exact fun _ => .inr rfl
  | _ => exact h

/-! ### What the flows and the output see -/

theorem sent_eq_nil (h : m.output.state ≠ .idle ∨ ∀ data, m'.output.state ≠ .operationPending data) : m.sent m' = [] := by
  unfold sent
  split
  · next hidle hpending _ =>
    rcases h with h | h
    · exact absurd hidle h
    · exact absurd hpending (h _)
  · rfl

theorem sent_of_eq (h : m'.output = m.output) : m.sent m' = [] := by
  apply sent_eq_nil
  rw [h]
  by_cases hidle : m.output.state = .idle
  · right
    simp [hidle]
  · exact .inl hidle

/-- The input of a flow is not told that its packet is done. -/
def Untold (m m' : PacketPassFairQueue) (x : Nat) : Prop :=
  (m'.flow x).input = (m.flow x).input ∨ ∀ r, (m'.flow x).input.state ≠ .donePending r

theorem Untold.doneCalled (h : m.Untold m' x) : m.doneCalled m' x = false := by
  unfold PacketPassFairQueue.doneCalled
  split
  · next hbusy hdone =>
    rcases h with h | h
    · rw [h, hbusy] at hdone
      cases hdone
    · exact absurd hdone (h _)
  · rfl

theorem untold_update {f : PacketPassFairQueueFlow → PacketPassFairQueueFlow} (hflow : m'.flow = (m.update x f).flow)
    (h : (f (m.flow x)).input = (m.flow x).input ∨ ∀ r, (f (m.flow x)).input.state ≠ .donePending r) (y : Nat) :
    m.Untold m' y := by
  rw [Untold, hflow, flow_update]
  split_ifs with hy
  · rw [hy]
    exact h
  · exact .inl rfl

theorem untold_enqueue (m : PacketPassFairQueue) (x : Nat) (data : List UInt8) (tree : List Nat) (y : Nat) :
    m.Untold (m.enqueue x data tree) y := by
  rw [Untold, flow_enqueue]
  split_ifs
  · exact .inr nofun
  · exact .inl rfl

theorem acts_of_untold (h : ∀ y ∈ m.flowsList, m.Untold m' y) : m.acts e m' = m.begins e ++ m.sent m' := by
  have hdone : m.flowsList.filter (m.doneCalled m') = [] := by
    rw [List.filter_eq_nil_iff]
    intro y hy
    simp [(h y hy).doneCalled]
  rw [acts, hdone, List.map_nil, List.append_nil]

theorem acts_of_update {f : PacketPassFairQueueFlow → PacketPassFairQueueFlow} (houtput : m'.output = m.output)
    (hflow : m'.flow = (m.update x f).flow)
    (h : (f (m.flow x)).input = (m.flow x).input ∨ ∀ r, (f (m.flow x)).input.state ≠ .donePending r) :
    m.acts e m' = m.begins e := by
  rw [acts_of_untold fun y _ => untold_update hflow h y, sent_of_eq houtput, List.append_nil]

theorem acts_of_output (hflow : m'.flow = m.flow) (h : m.sent m' = []) : m.acts e m' = m.begins e := by
  rw [acts_of_untold fun y _ => .inl (by rw [hflow]), h, List.append_nil]

/-- A packet that is sent is seen by the output. -/
theorem acts_sendFirst {m₁ : PacketPassFairQueue} (hidle : m.output.state = .idle) (h : ∀ y ∈ m.flowsList, m.Untold m₁ y)
    (hbegins : m.begins e = []) : m.acts e (m₁.sendFirst q rest data) = [.passed q data] := by
  rw [acts_of_untold, hbegins]
  · simp [sent, hidle, sendFirst]
  · intro y hy
    rw [Untold, flow_sendFirst]
    split_ifs with hyq
    · rw [← hyq]
      exact h y hy
    · exact h y hy

/-- Of all flows, only the one whose packet is completed is told. -/
theorem Ok.filter_complete (h : m.Ok) (hs : m.sendingFlow = some x) (time : Nat → UInt64) :
    m.flowsList.filter (m.doneCalled (m.complete x time)) = [x] := by
  obtain ⟨hlist, -⟩ := h.sending x hs
  obtain ⟨-, data, hbusy⟩ := h.busy hs
  have heq : ∀ y ∈ m.flowsList, m.doneCalled (m.complete x time) y = decide (x = y) := by
    intro y _
    by_cases hyx : x = y
    · subst hyx
      simp [doneCalled, hbusy, PacketPassFairQueue.complete]
    · rw [decide_eq_false hyx]
      apply Untold.doneCalled
      simp [Untold, PacketPassFairQueue.complete, Ne.symm hyx]
  rw [List.filter_congr heq]
  simp only [eq_comm (a := x)]
  rw [List.filter_eq, List.count_eq_one_of_mem h.listed hlist]
  rfl

theorem Steps.acts_eq {as : List Act} (hsteps : Steps m e m' as) (h : m.Ok) : m.acts e m' = as := by
  cases hsteps with
  | @flowInit x hx => exact acts_of_update (x := x) (f := fun _ => .init m.output.mtu) rfl rfl (.inr nofun)
  | flowFree hx hs => exact acts_of_output rfl (sent_of_eq rfl)
  | @setBusyHandler x b hs => exact acts_of_update (x := x) rfl rfl (.inl rfl)
  | @send x data hx hidle hlen => exact acts_of_update (x := x) rfl rfl (.inr nofun)
  | @inputJobDone x hx hdone => exact acts_of_update (x := x) rfl rfl (.inr nofun)
  | outputOperation hpending => exact acts_of_output rfl (sent_eq_nil (.inl (by simp [hpending])))
  | outputDone hbusy => exact acts_of_output rfl (sent_eq_nil (.inl (by simp [hbusy])))
  | queue hx hpending hperm hordered hbusy =>
    rw [acts_of_untold fun y _ => untold_enqueue m _ _ _ y]
    exact sent_of_eq rfl
  | pass hx hpending hs hj ht => exact acts_sendFirst (h.idle.mpr hs) (fun y _ => untold_enqueue m _ _ _ y) rfl
  | schedule hj hs ht hd => exact acts_sendFirst (h.idle.mpr hs) (fun _ _ => .inl rfl) rfl
  | scheduleNone hj hs ht => exact acts_of_output rfl (sent_of_eq rfl)
  | @complete x time hs hdone hretimes =>
    rw [acts, h.filter_complete hs, sent_eq_nil (.inl (by simp [hdone])), begins, hs]
    rfl

/-! ### Runs -/

def Inv (m : PacketPassFairQueue) : Prop := m.Ok ∧ m.Live

theorem inv_init {mtu packetWeight : Nat} (h : init (.init mtu) packetWeight = some m) : m.Inv := by
  obtain ⟨⟨-, hmtu, hweight⟩, rfl⟩ := Option.ite_none_right_eq_some.mp h |>.imp_right Option.some.inj
  have hfits : mtu + packetWeight ≤ fairqueueMaxTime.toNat := by
    have : mtu ≤ fairqueueMaxTime.toNat := hmtu
    have : packetWeight ≤ fairqueueMaxTime.toNat - mtu := hweight
    omega
  refine ⟨⟨hfits, List.nodup_nil, List.nodup_nil, List.Pairwise.nil, ?_, nofun, nofun, ?_, nofun⟩, fun hne => absurd rfl hne⟩
  · simp
  · simp [PacketPassInterface.init]

theorem Inv.step (h : m.Inv) (he : m.step e = some m') : m'.Inv := by
  obtain ⟨as, hsteps⟩ := h.1.steps h.2 he
  exact ⟨hsteps.ok h.1, hsteps.live h.2⟩

theorem Inv.run {es : List Event} (h : m.Inv) (hrun : Run.run PacketPassFairQueue.step m es = some m') : m'.Inv :=
  Run.run_invariant Inv (fun _ _ _ hs he => hs.step he) hrun h

/-- What a step passes to the output, and what it completes. -/
theorem Steps.told {as : List Act} (hsteps : Steps m e m' as) :
    m.sendingFlow.toList ++ Trace.gather Act.passedFlow as =
      Trace.gather Act.completedFlow as ++ m'.sendingFlow.toList ∧
    Trace.gather Act.doneFlow as = Trace.gather Act.completedFlow as := by
  cases hsteps with
  | pass hx hpending hs hj ht => simp [hs, sendFirst, Act.passedFlow, Act.completedFlow, Act.doneFlow]
  | schedule hj hs ht hd => simp [hs, sendFirst, Act.passedFlow, Act.completedFlow, Act.doneFlow]
  | complete hs hdone hretimes => simp [hs, PacketPassFairQueue.complete, Act.passedFlow, Act.completedFlow, Act.doneFlow]
  | _ => exact ⟨List.append_nil _, rfl⟩

theorem waiting_congr (h : m'.flow x = m.flow x) : m'.waiting x = m.waiting x := by rw [waiting, waiting, h]

/-- The packets of a flow that a step passes on are the oldest ones that wait, and those that users submit are
the newest. -/
theorem Steps.waiting {as : List Act} {flow : Nat} (hsteps : Steps m e m' as) (h : m.Ok) (hlist : flow ∈ m.flowsList)
    (hfree : e ≠ .flowFree flow) : flow ∈ m'.flowsList ∧
    m.waiting flow ++ Trace.gather (Act.submittedBy flow) as =
      Trace.gather (Act.passedOf flow) as ++ m'.waiting flow := by
  cases hsteps with
  | @flowInit x hx =>
    have hne : flow ≠ x := ne_of_mem_of_not_mem hlist hx
    refine ⟨List.mem_append_left _ hlist, ?_⟩
    have hsame : (m.flowInit x).waiting flow = m.waiting flow := waiting_congr (by rw [flow_flowInit, if_neg hne])
    rw [hsame]
    exact List.append_nil _
  | @flowFree x hx hs =>
    have hne : flow ≠ x := fun heq => hfree (heq ▸ rfl)
    exact ⟨(List.mem_erase_of_ne hne).mpr hlist, List.append_nil _⟩
  | @setBusyHandler x b hs =>
    refine ⟨hlist, ?_⟩
    by_cases hx : flow = x <;> simp [PacketPassFairQueue.waiting, setHandlerBusy, hx]
  | @send x data hx hidle hlen =>
    refine ⟨hlist, ?_⟩
    by_cases hfx : flow = x
    · subst hfx
      have hin := (h.inputs flow hx).2
      rw [hidle] at hin
      simp [PacketPassFairQueue.waiting, setInput, hidle, hin.2, Act.submittedBy, Act.passedOf]
    · simp [PacketPassFairQueue.waiting, setInput, hfx, Ne.symm hfx, Act.submittedBy, Act.passedOf]
  | @inputJobDone x hx hdone =>
    refine ⟨hlist, ?_⟩
    by_cases hfx : flow = x
    · subst hfx
      simp [PacketPassFairQueue.waiting, setInput, hdone]
    · simp [PacketPassFairQueue.waiting, setInput, hfx]
  | @queue x data tree hx hpending hperm hordered hbusy =>
    refine ⟨hlist, ?_⟩
    by_cases hfx : flow = x
    · subst hfx
      simp [PacketPassFairQueue.waiting, flow_enqueue, hpending, (h.pending hx hpending).2.2]
    · simp [PacketPassFairQueue.waiting, flow_enqueue, hfx]
  | @pass x data hx hpending hs hj ht =>
    refine ⟨hlist, ?_⟩
    by_cases hfx : flow = x
    · subst hfx
      simp [PacketPassFairQueue.waiting, flow_sendFirst, flow_enqueue, hpending, (h.pending hx hpending).2.2,
        Act.submittedBy, Act.passedOf]
    · simp [PacketPassFairQueue.waiting, flow_sendFirst, flow_enqueue, hfx, Ne.symm hfx, Act.submittedBy, Act.passedOf]
  | @schedule q rest data hj hs ht hd =>
    refine ⟨hlist, ?_⟩
    obtain ⟨_, -, hbusy, -⟩ := h.queued (x := q) (ht ▸ List.mem_cons_self ..)
    by_cases hfq : flow = q
    · subst hfq
      simp [PacketPassFairQueue.waiting, flow_sendFirst, PacketPassFairQueue.forget, hbusy, hd, Act.submittedBy, Act.passedOf]
    · simp [PacketPassFairQueue.waiting, flow_sendFirst, PacketPassFairQueue.forget, hfq, Ne.symm hfq, Act.submittedBy,
        Act.passedOf]
  | @complete x time hs hdone hretimes =>
    refine ⟨hlist, ?_⟩
    obtain ⟨hq, data, hbusy⟩ := h.busy hs
    by_cases hfx : flow = x
    · subst hfx
      simp [PacketPassFairQueue.waiting, PacketPassFairQueue.complete, hq, hbusy, Act.submittedBy, Act.passedOf]
    · simp [PacketPassFairQueue.waiting, PacketPassFairQueue.complete, hfx, Act.submittedBy, Act.passedOf]
  | _ => exact ⟨hlist, List.append_nil _⟩

/-- No packet is at the output, and neither a submitted packet nor the schedule job is pending. -/
def AtRest (m : PacketPassFairQueue) : Prop :=
  m.output.state = .idle ∧ m.scheduleJob = false ∧
    ∀ x ∈ m.flowsList, ∀ data, (m.flow x).input.state ≠ .operationPending data

/-- What holds of the queue in every state. -/
structure Sound (m : PacketPassFairQueue) : Prop where
  outstanding : m.output.state = .idle ↔ m.sendingFlow = none
  live : m.queuedTree ≠ [] → m.sendingFlow.isSome ∨ m.scheduleJob = true
  notFreed : ∀ x, m.sendingFlow = some x ∨ m.previousFlow = some x → x ∈ m.flowsList
  /-- The handlers of the jobs do not fail. -/
  inputOperation : ∀ x ∈ m.flowsList, ∀ data, (m.flow x).input.state = .operationPending data →
    (m.step (.inputOperation x)).isSome
  scheduleJobRuns : m.scheduleJob = true → (m.step .scheduleJob).isSome
  outputJobDone : m.output.state = .donePending () → (m.step .outputJobDone).isSome
  /-- No packet is left behind. -/
  rest : m.AtRest → ∀ x ∈ m.flowsList, m.waiting x = []

theorem Inv.sound (h : m.Inv) : m.Sound where
  outstanding := h.1.idle
  live := h.2
  notFreed x hx := by
    rcases hx with hx | hx
    · exact (h.1.sending x hx).1
    · exact (h.1.previous x hx).1
  inputOperation x hx data hd := by
    obtain ⟨m', as, he, -⟩ := h.1.inputOperation h.2 hx hd
    rw [he]
    rfl
  scheduleJobRuns hj := by
    obtain ⟨m', as, he, -⟩ := h.1.scheduleJobRuns hj
    rw [he]
    rfl
  outputJobDone hd := by
    obtain ⟨m', as, he, -⟩ := h.1.outputJobDone hd
    rw [he]
    rfl
  rest hrest x hx := by
    obtain ⟨hidle, hj, hpending⟩ := hrest
    have ht := h.2.nil (h.1.idle.mp hidle) hj
    have hq : (m.flow x).queued = none := by
      have hmem := (h.1.mem x).not
      rw [ht] at hmem
      simpa [hx] using hmem
    unfold waiting
    rw [hq]
    split
    · next hd => exact absurd hd (hpending x hx _)
    · rfl

/-- The output gets one packet at a time, and each that it completes is told to its flow. -/
def Told (m : PacketPassFairQueue) (acts : List Act) : Prop :=
  Trace.gather Act.passedFlow acts = Trace.gather Act.completedFlow acts ++ m.sendingFlow.toList ∧
  Trace.gather Act.doneFlow acts = Trace.gather Act.completedFlow acts

/-- The output gets the packets of a flow once and in order. -/
def InOrder (m : PacketPassFairQueue) (flow : Nat) (acts : List Act) : Prop :=
  Trace.gather (Act.submittedBy flow) acts = Trace.gather (Act.passedOf flow) acts ++ m.waiting flow

theorem Inv.told {es : List Event} (h : m.Inv) (hs : m.sendingFlow = none)
    (hrun : Run.run PacketPassFairQueue.step m es = some m') : m'.Told (Run.trace PacketPassFairQueue.step acts m es) := by
  suffices hrule : m'.Inv ∧ m'.Told ([] ++ Run.trace PacketPassFairQueue.step acts m es) from hrule.2
  have hbegin : m.Told [] := by simp [Told, hs]
  refine Run.run_trace (C := fun _ _ => True) (fun m as => m.Inv ∧ m.Told as) ?_ hrun
    (Run.allSteps_of_mem fun _ _ => trivial) ⟨h, hbegin⟩
  · rintro s e s' seen ⟨hs, hpassed, hdone⟩ - he
    obtain ⟨as, hsteps⟩ := hs.1.steps hs.2 he
    obtain ⟨hpassed', hdone'⟩ := hsteps.told
    refine ⟨hs.step he, ?_, ?_⟩
    · rw [hsteps.acts_eq hs.1, Trace.gather_append, Trace.gather_append, hpassed, List.append_assoc, hpassed',
        List.append_assoc]
    · rw [hsteps.acts_eq hs.1, Trace.gather_append, Trace.gather_append, hdone, hdone']

theorem Inv.inOrder {es : List Event} {flow : Nat} (h : m.Inv) (hlist : flow ∈ m.flowsList) (hw : m.waiting flow = [])
    (hfree : .flowFree flow ∉ es) (hrun : Run.run PacketPassFairQueue.step m es = some m') :
    m'.InOrder flow (Run.trace PacketPassFairQueue.step acts m es) := by
  suffices hrule : m'.Inv ∧ flow ∈ m'.flowsList ∧ m'.InOrder flow ([] ++ Run.trace PacketPassFairQueue.step acts m es) from
    hrule.2.2
  have hbegin : m.InOrder flow [] := by simp [InOrder, hw]
  refine Run.run_trace (C := fun _ e => e ≠ .flowFree flow) (fun m as => m.Inv ∧ flow ∈ m.flowsList ∧ m.InOrder flow as)
    ?_ hrun (Run.allSteps_of_mem fun _ he => ne_of_mem_of_not_mem he hfree) ⟨h, hlist, hbegin⟩
  · rintro s e s' seen ⟨hs, hlist, horder⟩ hne he
    obtain ⟨as, hsteps⟩ := hs.1.steps hs.2 he
    obtain ⟨hlist', hwaiting⟩ := hsteps.waiting hs.1 hlist hne
    refine ⟨hs.step he, hlist', ?_⟩
    rw [InOrder, hsteps.acts_eq hs.1, Trace.gather_append, Trace.gather_append, horder, List.append_assoc, hwaiting,
      List.append_assoc]

/-- **The queue delivers.** In a run from the beginning, the output has at most one packet, every packet that it
completes is told to its flow once, and from when a flow is made until it is freed, its packets are passed to the
output once and in order; those that were not passed on yet are waiting, and do not wait for nothing. -/
theorem delivers {mtu packetWeight : Nat} {m₀ : PacketPassFairQueue} {es : List Event}
    (hinit : init (.init mtu) packetWeight = some m₀) (hrun : Run.run step m₀ es = some m) :
    m.Told (Run.trace step acts m₀ es) ∧ m.Sound ∧
      ∀ before flow after m₁, es = before ++ .flowInit flow :: after → .flowFree flow ∉ after →
        Run.run step m₀ (before ++ [.flowInit flow]) = some m₁ → m.InOrder flow (Run.trace step acts m₁ after) := by
  have h₀ := inv_init hinit
  have hs : m₀.sendingFlow = none := by
    obtain ⟨-, rfl⟩ := Option.ite_none_right_eq_some.mp hinit |>.imp_right Option.some.inj
    rfl
  refine ⟨h₀.told hs hrun, (h₀.run hrun).sound, ?_⟩
  rintro before flow after m₁ rfl hfree hrun₁
  obtain ⟨m₂, hbefore, hinit₁⟩ := Run.run_append hrun₁
  obtain ⟨m₃, hstep, hnil⟩ := Run.run_cons hinit₁
  cases hnil
  obtain ⟨hx, rfl⟩ := Option.ite_none_left_eq_some.mp hstep |>.imp_right Option.some.inj
  rw [← List.singleton_append, ← List.append_assoc] at hrun
  obtain ⟨m₄, hrun₁', hafter⟩ := Run.run_append hrun
  rw [hrun₁, Option.some.injEq] at hrun₁'
  subst hrun₁'
  refine (h₀.run hrun₁).inOrder ?_ ?_ hfree hafter
  · exact List.mem_append_right _ (List.mem_singleton_self _)
  · simp [waiting, flow_flowInit, PacketPassFairQueueFlow.init, PacketPassInterface.init]

/-- Two flows send, and the first is freed when its packet is completed. -/
def freedRun : List Event :=
  [.flowInit 0, .flowInit 1, .send 0 [1], .inputOperation 0, .send 1 [2], .inputOperation 1, .outputOperation, .outputDone,
    .outputJobDone, .flowFree 0, .scheduleJob]

theorem delivers_freed : ∃ m₀ m, init (.init 2) 1 = some m₀ ∧ Run.run step m₀ freedRun = some m ∧
    m.Told (Run.trace step acts m₀ freedRun) ∧ m.Sound ∧
      ∀ before flow after m₁, freedRun = before ++ .flowInit flow :: after → .flowFree flow ∉ after →
        Run.run step m₀ (before ++ [.flowInit flow]) = some m₁ → m.InOrder flow (Run.trace step acts m₁ after) :=
  ⟨_, _, rfl, rfl, @delivers _ 2 1 _ _ rfl rfl⟩

end TwilightLine.PacketPassFairQueue
