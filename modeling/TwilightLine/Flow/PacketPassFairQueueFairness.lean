import TwilightLine.Flow.PacketPassFairQueueRuns

/-! The fairness of a fair queue.

The time of a flow is the weight it sent. The times of two flows that always have a packet
are near the current time, so that over any interval they send nearly the same (`fair`).
Where the schedule job finds nothing queued, the current time falls back to 0, and a flow
that sent much before waits until another one has caught up with it
(`flow_starves`). -/
namespace TwilightLine.PacketPassFairQueue

variable {m m' : PacketPassFairQueue} {e : Event} {as : List Act} {x f g : Nat}

/-- The most that a packet weighs. -/
def maxWeight (m : PacketPassFairQueue) : Nat := m.output.mtu + m.packetWeight

/-- The time of the flow is not much later than the current time. -/
def Near (m : PacketPassFairQueue) (x : Nat) : Prop :=
  x ∈ m.flowsList → m.timeOf x ≤ m.getCurrentTime.toNat + m.maxWeight

/-- When the schedule job finds nothing queued, the times of both flows are no more than one packet. -/
def ClockKept (f g : Nat) (m : PacketPassFairQueue) (e : Event) : Prop :=
  e = .scheduleJob → m.queuedTree = [] → ∀ x ∈ [f, g], x ∈ m.flowsList → m.timeOf x ≤ m.output.mtu + m.packetWeight

instance (f g : Nat) (m : PacketPassFairQueue) (e : Event) : Decidable (ClockKept f g m e) :=
  inferInstanceAs (Decidable (_ → _ → ∀ x ∈ [f, g], _))

theorem Ok.listed_of_backlogged (h : m.Ok) (hx : m.Backlogged x) : x ∈ m.flowsList := by
  rcases hx with hx | hx | hx
  · exact ((h.mem x).mp hx).1
  · exact (h.sending x hx).1
  · exact (h.previous x hx).1

/-- The current time is a time of a flow that is sending, queued or just completed. -/
theorem le_currentTime {b : Nat} (hx : m.Backlogged x) (hb : ∀ y, m.Backlogged y → b ≤ m.timeOf y) :
    b ≤ m.getCurrentTime.toNat := by
  have hhead : ∀ y, m.queuedTree.head? = some y → m.Backlogged y := fun y hy => .inl (List.mem_of_mem_head? hy)
  unfold getCurrentTime
  split
  · next s hs => exact hb s (.inr (.inl hs))
  · next hs =>
    split
    · next hnil hprevious =>
      rcases hx with hx | hx | hx
      · rw [List.head?_eq_none_iff.mp hnil] at hx
        cases hx
      · simp [hs] at hx
      · simp [hprevious] at hx
    · next previous _ hprevious => exact hb previous (.inr (.inr hprevious))
    · next first hfirst _ => exact hb first (hhead first hfirst)
    · next first previous hfirst hprevious =>
      split_ifs
      · exact hb previous (.inr (.inr hprevious))
      · exact hb first (hhead first hfirst)

/-- What changes no time, and not who is sending, queued or just completed, leaves the current time. -/
theorem Ok.near_of_times (h : m.Ok) (hnear : m.Near x) (hx : x ∈ m.flowsList) (hsending : m'.sendingFlow = m.sendingFlow)
    (htree : m'.queuedTree = m.queuedTree) (hprevious : m'.previousFlow = m.previousFlow)
    (hmax : m'.maxWeight = m.maxWeight) (htime : ∀ y ∈ m.flowsList, m'.timeOf y = m.timeOf y) :
    m'.timeOf x ≤ m'.getCurrentTime.toNat + m'.maxWeight := by
  rw [htime x hx, hmax]
  refine (hnear hx).trans (Nat.add_le_add_right ?_ _)
  have hactive : ∀ y, m'.Backlogged y ↔ m.Backlogged y := by
    intro y
    rw [Backlogged, Backlogged, hsending, htree, hprevious]
  by_cases hsome : ∃ y, m.Backlogged y
  · obtain ⟨y, hy⟩ := hsome
    refine le_currentTime ((hactive y).mpr hy) fun z hz => ?_
    have hz := (hactive z).mp hz
    rw [htime z (h.listed_of_backlogged hz)]
    exact h.currentTime_le hz
  · have hs : m.sendingFlow = none := by
      by_contra hne
      obtain ⟨s, hs⟩ := Option.ne_none_iff_exists'.mp hne
      exact hsome ⟨s, .inr (.inl hs)⟩
    have hp : m.previousFlow = none := by
      by_contra hne
      obtain ⟨s, hs⟩ := Option.ne_none_iff_exists'.mp hne
      exact hsome ⟨s, .inr (.inr hs)⟩
    have ht : m.queuedTree = [] := by
      rw [List.eq_nil_iff_forall_not_mem]
      exact fun y hy => hsome ⟨y, .inl hy⟩
    simp [getCurrentTime, hs, hp, ht]

/-- The time of a flow when it is queued is not before the current time, and near it if it was. -/
theorem Ok.enqueueTime_spec (h : m.Ok) (x : Nat) : m.getCurrentTime.toNat ≤ (m.enqueueTime x).toNat ∧
    ∀ b, m.timeOf x ≤ m.getCurrentTime.toNat + b → (m.enqueueTime x).toNat ≤ m.getCurrentTime.toNat + b := by
  unfold enqueueTime
  split_ifs with hp
  · exact ⟨h.currentTime_le (.inr (.inr hp)), fun _ => id⟩
  · rw [UInt64.toNat_max]
    refine ⟨Nat.le_max_right .., fun b hb => ?_⟩
    exact Nat.max_le.mpr ⟨hb, Nat.le_add_right ..⟩

theorem timeOf_sendFirst (m : PacketPassFairQueue) (q : Nat) (rest : List Nat) (data : List UInt8) (y : Nat) :
    (m.sendFirst q rest data).timeOf y = m.timeOf y := by
  rw [timeOf, flow_sendFirst, timeOf]
  split_ifs with hy
  · rw [hy]
  · rfl

theorem timeOf_complete (m : PacketPassFairQueue) (x : Nat) (time : Nat → UInt64) (y : Nat) :
    (m.complete x time).timeOf y = (time y).toNat := by
  unfold timeOf complete
  dsimp only
  split_ifs <;> rfl

theorem timeOf_update {f : PacketPassFairQueueFlow → PacketPassFairQueueFlow} (hf : (f (m.flow x)).time = (m.flow x).time)
    (y : Nat) : (m.update x f).timeOf y = m.timeOf y := by
  rw [timeOf, flow_update, timeOf]
  split_ifs with hy
  · rw [hf, hy]
  · rfl

theorem backlogged_of_enqueue {y : Nat} {data : List UInt8} {tree : List Nat} (hperm : tree.Perm (y :: m.queuedTree))
    (hxy : x ≠ y) (h : (m.enqueue y data tree).Backlogged x) : m.Backlogged x := by
  rcases h with hx | hx | hx
  · exact .inl (List.mem_of_ne_of_mem hxy (hperm.mem_iff.mp hx))
  · exact .inr (.inl hx)
  · have hx : (if m.previousFlow = some y then none else m.previousFlow) = some x := hx
    split_ifs at hx
    exact .inr (.inr hx)

/-- **A step keeps a flow near the current time**, but for a schedule job that finds nothing queued. -/
theorem Steps.near (hsteps : Steps m e m' as) (h : m.Ok) (hnear : m.Near x) (hfree : ∀ y, e ≠ .flowFree y)
    (hclock : e = .scheduleJob → m.queuedTree = [] → x ∈ m.flowsList → m.timeOf x ≤ m.maxWeight) : m'.Near x := by
  unfold Near
  intro hx
  cases hsteps with
  | @flowInit y hy =>
    rcases List.mem_append.mp hx with hx | hx
    · refine h.near_of_times hnear hx rfl rfl rfl rfl fun z hz => ?_
      rw [timeOf, flow_flowInit, if_neg (ne_of_mem_of_not_mem hz hy), timeOf]
    · rw [timeOf, flow_flowInit, if_pos (List.mem_singleton.mp hx)]
      exact Nat.zero_le _
  | @flowFree y hx hs => exact absurd rfl (hfree y)
  | @queue y data tree hy hpending hperm hordered hbusy =>
    obtain ⟨hge, hle⟩ := h.enqueueTime_spec y
    -- the current time does not go back
    have hcurrent : m.getCurrentTime.toNat ≤ (m.enqueue y data tree).getCurrentTime.toNat := by
      refine le_currentTime (x := y) (.inl (hperm.mem_iff.mpr (List.mem_cons_self ..))) fun z hz => ?_
      rw [timeOf_enqueue]
      split_ifs with hzy
      · exact hge
      · exact h.currentTime_le (backlogged_of_enqueue hperm hzy hz)
    refine le_trans ?_ (Nat.add_le_add_right hcurrent _)
    rw [timeOf_enqueue]
    split_ifs with hxy
    · exact hle _ (hxy ▸ hnear hx)
    · exact hnear hx
  | @pass y data hy hpending hs hj ht =>
    have hcurrent : ((m.enqueue y data [y]).sendFirst y [] data).getCurrentTime.toNat = (m.enqueueTime y).toNat := by
      refine (timeOf_sendFirst ..).trans ?_
      rw [timeOf_enqueue, if_pos rfl]
    rw [timeOf_sendFirst, hcurrent, timeOf_enqueue]
    split_ifs with hxy
    · exact Nat.le_add_right ..
    · exact (hnear hx).trans (Nat.add_le_add_right (h.enqueueTime_spec y).1 _)
  | @schedule q rest data hj hs ht hd =>
    have hcurrent : (m.forget.sendFirst q rest data).getCurrentTime.toNat = m.timeOf q := timeOf_sendFirst ..
    rw [timeOf_sendFirst, hcurrent]
    exact (hnear hx).trans (Nat.add_le_add_right (h.currentTime_le (.inl (ht ▸ List.mem_cons_self ..))) _)
  | scheduleNone hj hs ht => exact (hclock rfl ht hx).trans (Nat.le_add_left ..)
  | @complete y time hs hdone hretimes =>
    obtain ⟨back, hback, hy, hothers⟩ := hretimes
    obtain ⟨hlist, hp, -, hlen, hmin⟩ := h.sending y hs
    have hnot := h.notQueued (h.busy hs).1
    have hcurrent : m.timeOf y - back ≤ (m.complete y time).getCurrentTime.toNat := by
      refine le_currentTime (x := y) (.inr (.inr rfl)) fun z hz => ?_
      rw [timeOf_complete]
      rcases hz with hz | hz | hz
      · have hz : z ∈ m.queuedTree := hz
        rw [hothers z ((h.mem z).mp hz).1 (ne_of_mem_of_not_mem hz hnot)]
        exact Nat.sub_le_sub_right (hmin z hz) _
      · cases hz
      · cases hz
        omega
    have hweight : (m.complete y time).maxWeight = m.output.mtu + m.packetWeight := rfl
    rw [timeOf_complete]
    by_cases hxy : x = y
    · subst hxy
      omega
    · have hnear : m.timeOf x ≤ m.timeOf y + (m.output.mtu + m.packetWeight) := by
        have hnow : m.getCurrentTime = (m.flow y).time := by rw [getCurrentTime, hs]
        have hle := hnear hx
        rwa [hnow] at hle
      rw [hothers x hx hxy]
      omega
  | outputOperation hpending => exact h.near_of_times hnear hx rfl rfl rfl rfl fun _ _ => rfl
  | outputDone hbusy => exact h.near_of_times hnear hx rfl rfl rfl rfl fun _ _ => rfl
  | _ => exact h.near_of_times hnear hx rfl rfl rfl rfl fun y _ => timeOf_update rfl y

/-- A flow that just completed keeps its time when it is queued again. -/
theorem Ok.timeOf_enqueue_backlogged {y : Nat} {data : List UInt8} {tree : List Nat} (h : m.Ok) (hy : y ∈ m.flowsList)
    (hpending : (m.flow y).input.state = .operationPending data) (hx : m.Backlogged x) :
    (m.enqueue y data tree).timeOf x = m.timeOf x := by
  rw [timeOf_enqueue]
  split_ifs with hxy
  · subst hxy
    obtain ⟨-, hsending, hqueued⟩ := h.pending hy hpending
    rcases hx with hx | hx | hx
    · exact absurd hx (h.notQueued hqueued)
    · exact absurd hx hsending
    · rw [enqueueTime, if_pos hx]
      rfl
  · rfl

/-- **The times of all flows that have a packet move by what they sent**, less the same for all. -/
theorem Steps.times (hsteps : Steps m e m' as) (h : m.Ok) (hfree : ∀ y, e ≠ .flowFree y) :
    ∃ back, ∀ x, m.Backlogged x → m'.timeOf x + back = m.timeOf x + Trace.total (Act.weightOf x) as := by
  cases hsteps with
  | @flowInit y hy =>
    refine ⟨0, fun x hx => ?_⟩
    rw [timeOf, flow_flowInit, if_neg (ne_of_mem_of_not_mem (h.listed_of_backlogged hx) hy)]
    rfl
  | @flowFree y hx hs => exact absurd rfl (hfree y)
  | @queue y data tree hy hpending hperm hordered hbusy =>
    refine ⟨0, fun x hx => ?_⟩
    rw [h.timeOf_enqueue_backlogged hy hpending hx]
    rfl
  | @pass y data hy hpending hs hj ht =>
    refine ⟨0, fun x hx => ?_⟩
    rw [timeOf_sendFirst, h.timeOf_enqueue_backlogged hy hpending hx]
    rfl
  | @schedule q rest data hj hs ht hd =>
    refine ⟨0, fun x _ => ?_⟩
    rw [timeOf_sendFirst]
    rfl
  | @complete y time hs hdone hretimes =>
    obtain ⟨back, hback, hy, hothers⟩ := hretimes
    have hp := (h.sending y hs).2.1
    refine ⟨back, fun x hx => ?_⟩
    rw [timeOf_complete]
    by_cases hxy : x = y
    · subst hxy
      simpa [Act.weightOf] using hy
    · have hx : x ∈ m.queuedTree := by
        rcases hx with hx | hx | hx
        · exact hx
        · rw [hs, Option.some.injEq] at hx
          exact absurd hx.symm hxy
        · simp [hp] at hx
      have hle := hback x hx
      rw [hothers x ((h.mem x).mp hx).1 hxy]
      simp only [Trace.total_cons, Trace.total_nil, Act.weightOf, if_neg (Ne.symm hxy)]
      omega
  | scheduleNone => exact ⟨0, fun _ _ => rfl⟩
  | outputOperation => exact ⟨0, fun _ _ => rfl⟩
  | outputDone => exact ⟨0, fun _ _ => rfl⟩
  | send hx hidle hlen => exact ⟨0, fun x _ => congrArg (· + _) (timeOf_update rfl x)⟩
  | _ => exact ⟨0, fun x _ => congrArg (· + _) (timeOf_update rfl x)⟩

/-- A schedule job that finds nothing queued leaves no flow with a packet. -/
theorem Steps.idle (hsteps : Steps m .scheduleJob m' as) (ht : m.queuedTree = []) : ¬m'.Backlogged x := by
  cases hsteps with
  | schedule hj hs ht' hd => simp [ht] at ht'
  | scheduleNone hj hs ht =>
    rintro (hx | hx | hx)
    · rw [show m.forget.queuedTree = m.queuedTree from rfl, ht] at hx
      cases hx
    · rw [show m.forget.sendingFlow = m.sendingFlow from rfl, hs] at hx
      cases hx
    · cases hx

/-- The most that a packet weighs does not change. -/
theorem Steps.maxWeight (hsteps : Steps m e m' as) : m'.maxWeight = m.maxWeight := by
  cases hsteps <;> rfl

theorem Near.le (hf : m.Near f) (h : m.Ok) (hbf : m.Backlogged f) (hbg : m.Backlogged g) :
    m.timeOf f ≤ m.timeOf g + m.maxWeight :=
  (hf (h.listed_of_backlogged hbf)).trans (Nat.add_le_add_right (h.currentTime_le hbg) _)

/-- Two flows are near the current time, in a queue whose packets weigh at most `K`. -/
def BothNear (K f g : Nat) (m : PacketPassFairQueue) : Prop :=
  m.Inv ∧ m.Near f ∧ m.Near g ∧ m.maxWeight = K

theorem BothNear.step {K : Nat} (h : m.BothNear K f g) (hfree : ∀ y, e ≠ .flowFree y) (hclock : ClockKept f g m e)
    (he : m.step e = some m') : m'.BothNear K f g := by
  obtain ⟨hinv, hf, hg, hmax⟩ := h
  obtain ⟨as, hsteps⟩ := hinv.1.steps hinv.2 he
  refine ⟨hinv.step he, hsteps.near hinv.1 hf hfree ?_, hsteps.near hinv.1 hg hfree ?_, hsteps.maxWeight.trans hmax⟩
  · exact fun hjob ht => hclock hjob ht f (by simp)
  · exact fun hjob ht => hclock hjob ht g (by simp)

/-- Any two flows are near in a queue that was just made. -/
theorem bothNear_init {mtu packetWeight : Nat} (h : init (.init mtu) packetWeight = some m) (f g : Nat) :
    m.BothNear (mtu + packetWeight) f g := by
  have hinv := inv_init h
  obtain ⟨-, rfl⟩ := Option.ite_none_right_eq_some.mp h |>.imp_right Option.some.inj
  exact ⟨hinv, nofun, nofun, rfl⟩

/-- While two flows have a packet, their times move by what they sent, less the same for both. -/
theorem BothNear.interval {K : Nat} {es : List Event} (h : m.BothNear K f g) (hfree : ∀ y, .flowFree y ∉ es)
    (hrun : Run.run PacketPassFairQueue.step m es = some m')
    (hboth : Run.AllStates PacketPassFairQueue.step (fun m => m.Backlogged f ∧ m.Backlogged g) m es) :
    m'.BothNear K f g ∧ ∃ back, ∀ x ∈ [f, g],
      m'.timeOf x + back = m.timeOf x + Trace.total (Act.weightOf x) (Run.trace PacketPassFairQueue.step acts m es) := by
  have hfree : Run.AllSteps PacketPassFairQueue.step (fun _ e => ∀ y, e ≠ .flowFree y) m es :=
    Run.allSteps_of_mem fun e he y hy => hfree y (hy ▸ he)
  have hbegin : ∃ back, ∀ x ∈ [f, g], m.timeOf x + back = m.timeOf x + Trace.total (Act.weightOf x) [] :=
    ⟨0, fun _ _ => rfl⟩
  suffices hrule : m'.BothNear K f g ∧ ∃ back, ∀ x ∈ [f, g], m'.timeOf x + back =
      m.timeOf x + Trace.total (Act.weightOf x) ([] ++ Run.trace PacketPassFairQueue.step acts m es) from hrule
  refine Run.run_trace (fun m' as => m'.BothNear K f g ∧ ∃ back, ∀ x ∈ [f, g], m'.timeOf x + back =
    m.timeOf x + Trace.total (Act.weightOf x) as) ?_ hrun (hboth.allSteps.and hfree) ⟨h, hbegin⟩
  rintro s e s' seen ⟨hs, back, hback⟩ ⟨⟨hboth, hboth'⟩, hfree⟩ he
  obtain ⟨as, hsteps⟩ := hs.1.1.steps hs.1.2 he
  refine ⟨hs.step hfree ?_ he, ?_⟩
  · rintro rfl ht
    exact absurd (hboth' s' he).1 (hsteps.idle ht)
  · obtain ⟨back', hback'⟩ := hsteps.times hs.1.1 hfree
    refine ⟨back + back', fun x hx => ?_⟩
    have hlog : s.Backlogged x := by
      simp only [List.mem_cons, List.not_mem_nil, or_false] at hx
      rcases hx with rfl | rfl
      · exact hboth.1
      · exact hboth.2
    have := hback x hx
    have := hback' x hlog
    rw [hsteps.acts_eq hs.1.1, Trace.total_append]
    omega

/-- **The queue is fair.** In a run in which no flow is freed, two flows that always have a packet during an interval
complete the same weight in it, up to two packets, if before the times of these flows were kept near whenever the
schedule job found nothing queued. -/
theorem fair {mtu packetWeight : Nat} {m₀ : PacketPassFairQueue} {history interval : List Event}
    (hinit : init (.init mtu) packetWeight = some m₀) (hfree : ∀ flow, .flowFree flow ∉ history ++ interval)
    (hhistory : Run.run step m₀ history = some m) (hclock : Run.AllSteps step (ClockKept f g) m₀ history)
    (hinterval : Run.run step m interval = some m')
    (hboth : Run.AllStates step (fun m => m.Backlogged f ∧ m.Backlogged g) m interval) :
    let weight flow := Trace.total (Act.weightOf flow) (Run.trace step acts m interval)
    weight f ≤ weight g + 2 * (mtu + packetWeight) ∧ weight g ≤ weight f + 2 * (mtu + packetWeight) := by
  have hnear : m.BothNear (mtu + packetWeight) f g := by
    have hsteps : Run.AllSteps step (fun m e => ClockKept f g m e ∧ ∀ y, e ≠ .flowFree y) m₀ history :=
      hclock.and (Run.allSteps_of_mem fun e he y hy => hfree y (hy ▸ List.mem_append_left _ he))
    refine Run.run_invariant_of (BothNear (mtu + packetWeight) f g) ?_ hhistory hsteps (bothNear_init hinit f g)
    exact fun s e s' hs hC he => hs.step hC.2 hC.1 he
  obtain ⟨hnear', back, hback⟩ := hnear.interval (fun y hy => hfree y (List.mem_append_right _ hy)) hinterval hboth
  obtain ⟨hinv, hf, hg, hmax⟩ := hnear
  obtain ⟨hinv', hf', hg', hmax'⟩ := hnear'
  obtain ⟨hbf, hbg⟩ := hboth.head
  obtain ⟨hbf', hbg'⟩ := hboth.last hinterval
  have h₁ := hf.le hinv.1 hbf hbg
  have h₂ := hg.le hinv.1 hbg hbf
  have h₃ := hf'.le hinv'.1 hbf' hbg'
  have h₄ := hg'.le hinv'.1 hbg' hbf'
  have h₅ := hback f (by simp)
  have h₆ := hback g (by simp)
  dsimp only
  omega

/-- A flow sends a packet, while the packet before it is completed. -/
def sendsAgain (flow : Nat) (data : List UInt8) : List Event :=
  [.outputDone, .outputJobDone, .inputJobDone flow, .send flow data, .inputOperation flow, .scheduleJob, .outputOperation]

/-- Both flows are made, and the first one's packet is at the output while the other one's is queued. -/
def bothSend : List Event :=
  [.flowInit 0, .flowInit 1, .send 0 [1], .inputOperation 0, .outputOperation, .send 1 [2], .inputOperation 1]

theorem fair_bothSend : ∃ m₀ m m', init (.init 1) 1 = some m₀ ∧ (∀ flow, .flowFree flow ∉ bothSend ++ sendsAgain 0 [3]) ∧
    Run.run step m₀ bothSend = some m ∧ Run.AllSteps step (ClockKept 0 1) m₀ bothSend ∧
    Run.run step m (sendsAgain 0 [3]) = some m' ∧
    Run.AllStates step (fun m => m.Backlogged 0 ∧ m.Backlogged 1) m (sendsAgain 0 [3]) ∧
    let weight flow := Trace.total (Act.weightOf flow) (Run.trace step acts m (sendsAgain 0 [3]))
    weight 0 ≤ weight 1 + 2 * (1 + 1) ∧ weight 1 ≤ weight 0 + 2 * (1 + 1) := by
  have hfree : ∀ flow, .flowFree flow ∉ bothSend ++ sendsAgain 0 [3] := by simp [bothSend, sendsAgain]
  refine ⟨_, _, _, rfl, hfree, rfl, ?_, rfl, ?_, ?_⟩
  · decide +kernel
  · decide +kernel
  · exact @fair _ _ 0 1 1 1 _ _ _ rfl hfree rfl (by decide +kernel) rfl (by decide +kernel)

/-- One flow sends three packets and stops; then both flows send, and the other one is first. -/
def sendsBefore : List Event :=
  [.flowInit 0, .send 0 [1], .inputOperation 0, .outputOperation] ++ sendsAgain 0 [1] ++ sendsAgain 0 [1] ++
  [.outputDone, .outputJobDone, .inputJobDone 0, .scheduleJob, .flowInit 1, .send 1 [2], .inputOperation 1,
    .outputOperation, .send 0 [1], .inputOperation 0]

/-- The flow that sent before the queue was idle completes nothing, while the other one completes three packets. -/
theorem flow_starves : ∃ m₀ m m', init (.init 1) 1 = some m₀ ∧
    (∀ flow, .flowFree flow ∉ sendsBefore ++ (sendsAgain 1 [2] ++ sendsAgain 1 [2] ++ sendsAgain 1 [2])) ∧
    Run.run step m₀ sendsBefore = some m ∧
    Run.run step m (sendsAgain 1 [2] ++ sendsAgain 1 [2] ++ sendsAgain 1 [2]) = some m' ∧
    Run.AllStates step (fun m => m.Backlogged 0 ∧ m.Backlogged 1) m
      (sendsAgain 1 [2] ++ sendsAgain 1 [2] ++ sendsAgain 1 [2]) ∧
    let weight flow :=
      Trace.total (Act.weightOf flow) (Run.trace step acts m (sendsAgain 1 [2] ++ sendsAgain 1 [2] ++ sendsAgain 1 [2]))
    ¬weight 1 ≤ weight 0 + 2 * (1 + 1) := by
  refine ⟨_, _, _, rfl, ?_, rfl, rfl, ?_, ?_⟩
  · simp [sendsBefore, sendsAgain]
  · decide +kernel
  · decide +kernel

end TwilightLine.PacketPassFairQueue
