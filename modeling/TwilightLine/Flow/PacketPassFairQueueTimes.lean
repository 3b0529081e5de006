import TwilightLine.Flow.PacketPassFairQueueRuns

/-! The times of the flows when a packet is finished.

Where the time of the finished flow would overflow, all times are moved back while their
flows stay linked in the tree. `Incremented` is what comes of that: the exact time, less a
common amount, and the queued flows compare as they did before. -/
namespace TwilightLine.PacketPassFairQueue

variable {m m' : PacketPassFairQueue} {x y : Nat}

/-- The queue when its output is done with the packet of a flow, as `output_handler_done`
leaves it to `increment_sent_flow`. -/
def finished (m : PacketPassFairQueue) (x : Nat) : PacketPassFairQueue :=
  {m with sendingFlow := none, previousFlow := some x}

/-- The flow got this amount of time, and all times were moved back by as much. -/
structure Incremented (m m' : PacketPassFairQueue) (x amount back : Nat) : Prop where
  /-- The exact time and the amount, less what is moved back. -/
  finished : (m'.timeOf x : Int) = m.timeOf x + amount - back
  /-- A time does not go below 0. -/
  others : ∀ y ∈ m.flowsList, y ≠ x → m'.timeOf y = m.timeOf y - back
  /-- That of a queued flow need not be kept from it. -/
  queued : ∀ q ∈ m.queuedTree, back ≤ m.timeOf q
  bounded : ∀ y ∈ m.flowsList, m'.timeOf y ≤ fairqueueMaxTime.toNat
  tree : m'.queuedTree = m.queuedTree
  order : ∀ q ∈ m.queuedTree, ∀ r ∈ m.queuedTree, m'.compareFlows q r = m.compareFlows q r
  differences : ∀ q ∈ m.queuedTree, ∀ r ∈ m.queuedTree,
    (m'.timeOf q : Int) - m'.timeOf r = (m.timeOf q : Int) - m.timeOf r
  sorted : OrderedTree.Ordered m'.timeOf m'.queuedTree

theorem bCompare_sub {a b c : Nat} (ha : c ≤ a) (hb : c ≤ b) : bCompare (a - c) (b - c) = bCompare a b := by
  unfold bCompare
  split_ifs <;> omega

theorem timeOf_le (m : PacketPassFairQueue) (y : Nat) : m.timeOf y ≤ fairqueueMaxTime.toNat := by
  have hmax : fairqueueMaxTime.toNat = 2 ^ 64 - 1 := rfl
  have htime := (m.flow y).time.toNat_lt
  unfold timeOf
  omega

/-- **A finished packet is added to the time of its flow exactly, in every state that the
queue can be in.** -/
theorem increment_exact {mtu packetWeight : Nat} {m₀ : PacketPassFairQueue} {es : List Event}
    (hinit : init (.init mtu) packetWeight = some m₀) (hrun : Run.run step m₀ es = some m) (hx : m.sendingFlow = some x)
    (amount : UInt64) :
    ∃ back m', (m.finished x).incrementSentFlow x amount = some m' ∧
      Incremented (m.finished x) m' x amount.toNat back := by
  have h := ((inv_init hinit).run hrun).1
  obtain ⟨hlist, hp, hj, hlen, hle⟩ := h.sending x hx
  have hnot : x ∉ m.queuedTree := h.notQueued (h.busy hx).1
  obtain ⟨time, ⟨back, hback, hself, hothers⟩, heq⟩ : ∃ time, (m.finished x).Retimes x amount.toNat time ∧
      (m.finished x).incrementSentFlow x amount =
        some {m.finished x with flow := fun y => {(m.finished x).flow y with time := time y}} :=
    incrementSentFlow_eq h.listed hlist rfl (h.busy hx).1 h.ordered h.mem hle
  have hqueued : ∀ q ∈ m.queuedTree, (time q).toNat = m.timeOf q - back := by
    intro q hq
    exact hothers q ((h.mem q).mp hq).1 (ne_of_mem_of_not_mem hq hnot)
  refine ⟨back, _, heq, ?_, hothers, hback, fun y _ => timeOf_le _ y, rfl, ?_, ?_, ?_⟩
  · show ((time x).toNat : Int) = m.timeOf x + amount.toNat - back
    have hself : (time x).toNat + back = m.timeOf x + amount.toNat := hself
    omega
  · intro q hq r hr
    have htimes : bCompare (time q).toNat (time r).toNat = bCompare (m.timeOf q) (m.timeOf r) := by
      rw [hqueued q hq, hqueued r hr]
      exact bCompare_sub (hback q hq) (hback r hr)
    unfold compareFlows
    dsimp only
    rw [htimes]
    rfl
  · intro q hq r hr
    show ((time q).toNat : Int) - (time r).toNat = (m.timeOf q : Int) - m.timeOf r
    have hbackq : back ≤ m.timeOf q := hback q hq
    have hbackr : back ≤ m.timeOf r := hback r hr
    rw [hqueued q hq, hqueued r hr]
    omega
  · refine h.ordered.congr fun q hq r hr hqr => ?_
    show (time q).toNat ≤ (time r).toNat
    rw [hqueued q hq, hqueued r hr]
    exact Nat.sub_le_sub_right hqr back

/-- A flow sends its second packet while one of another flow is queued. -/
def secondPacket : List Event :=
  [.flowInit 0, .send 0 [1], .inputOperation 0, .outputOperation, .outputDone, .outputJobDone, .inputJobDone 0,
    .send 0 [1], .inputOperation 0, .scheduleJob, .flowInit 1, .send 1 [2], .inputOperation 1]

/-- The largest amount, which overflows. -/
theorem increment_exact_secondPacket : ∃ m₀ m, init (.init 2) 1 = some m₀ ∧ Run.run step m₀ secondPacket = some m ∧
    m.queuedTree = [1] ∧ 0 < m.timeOf 0 ∧
    ∃ back m', (m.finished 0).incrementSentFlow 0 fairqueueMaxTime = some m' ∧
      Incremented (m.finished 0) m' 0 fairqueueMaxTime.toNat back := by
  have hrun : ((init (.init 2) 1).bind (Run.run step · secondPacket)).any (fun m =>
      decide (m.sendingFlow = some 0 ∧ m.queuedTree = [1] ∧ 0 < m.timeOf 0)) = true := by decide +kernel
  obtain ⟨m, hm, hends⟩ := (Option.any_eq_true _ _).mp hrun
  obtain ⟨m₀, hinit, hrun⟩ := Option.bind_eq_some_iff.mp hm
  obtain ⟨hsending, htree, htime⟩ := of_decide_eq_true hends
  exact ⟨m₀, m, hinit, hrun, htree, htime, increment_exact hinit hrun hsending fairqueueMaxTime⟩

end TwilightLine.PacketPassFairQueue
