import TwilightLine.UdpgwClient.UdpGwClientRuns

/-! What an event changes.

Most events leave alone what the log is about: which conid stands for which
addresses, which first jobs are pending and which frames are still to be sent
(`Quiet`). `Change` lists the others; `change_of_step` is the inversion lemma of
`step` that the properties of runs are derived from. -/
namespace TwilightLine.UdpGw

variable {o o' : Client} {p q : Ptr}

/-- The frames of a connection that were accepted and are not done. -/
def Client.toSend (o : Client) (p : Ptr) : List (Packet Note) := (o.con p).flow.toSend (flowJobs p o.jobs)

/-- The connections stand for what they stood for, and the same first jobs are pending. -/
structure Same (o o' : Client) : Prop where
  cfg : o'.cfg = o.cfg
  list : ∀ p, p ∈ o'.connectionsList ↔ p ∈ o.connectionsList
  conid : ∀ p, (o'.con p).conid = (o.con p).conid
  conaddr : ∀ p, (o'.con p).conaddr = (o.con p).conaddr
  firstOrigin : ∀ p, (o'.con p).firstOrigin = (o.con p).firstOrigin
  firstFlags : ∀ p, (o'.con p).firstFlags = (o.con p).firstFlags
  first : ∀ p, .first p ∈ o'.jobs ↔ .first p ∈ o.jobs

structure Quiet (o o' : Client) : Prop extends Same o o' where
  log : o'.log = o.log
  toSend : ∀ p ∈ o.connectionsList, o'.toSend p = o.toSend p
  output : ∀ p ∈ o.connectionsList, (o'.con p).flow.output = .passed →
    (o.con p).flow.output = .passed ∧ (o'.con p).flow.buf.packets.head? = (o.con p).flow.buf.packets.head?

/-- The connections are as they were. -/
theorem Quiet.of_con (hcfg : o'.cfg = o.cfg) (hlog : o'.log = o.log)
    (hlist : ∀ p, p ∈ o'.connectionsList ↔ p ∈ o.connectionsList) (hcon : o'.con = o.con)
    (hfirst : ∀ p, .first p ∈ o'.jobs ↔ .first p ∈ o.jobs)
    (hflow : ∀ p, flowJobs p o'.jobs = flowJobs p o.jobs) : Quiet o o' where
  cfg := hcfg
  log := hlog
  list := hlist
  conid := fun p => by rw [hcon]
  conaddr := fun p => by rw [hcon]
  firstOrigin := fun p => by rw [hcon]
  firstFlags := fun p => by rw [hcon]
  first := hfirst
  toSend := fun p _ => by rw [Client.toSend, Client.toSend, hcon, hflow]
  output := fun p _ hpassed => by
    rw [hcon] at hpassed ⊢
    exact ⟨hpassed, rfl⟩

theorem Quiet.refl (o : Client) : Quiet o o :=
  .of_con rfl rfl (fun _ => Iff.rfl) rfl (fun _ => Iff.rfl) fun _ => rfl

theorem Quiet.touch (hp : p ∈ o.connectionsList) : Quiet o (o.touch p) :=
  .of_con rfl rfl (fun _ => mem_touch hp) rfl (fun _ => Iff.rfl) fun _ => rfl

theorem Quiet.foreign {jobs : List Job} (hfirst : ∀ p, .first p ∈ jobs ↔ .first p ∈ o.jobs)
    (hflow : ∀ p, flowJobs p jobs = flowJobs p o.jobs) : Quiet o {o with jobs := jobs} :=
  .of_con rfl rfl (fun _ => Iff.rfl) rfl hfirst hflow

/-- The head of the ring does not move while it is with the receiver. -/
theorem runJob_head {flow : PacketProtoFlow Note} {j : FlowJob} (hw : flow.Wired [j])
    (hpassed : (flow.runJob j).1.output = .passed) :
    flow.output = .passed ∧ (flow.runJob j).1.buf.packets.head? = flow.buf.packets.head? := by
  cases j with
  | encoderOperation => exact ⟨hpassed, rfl⟩
  | writerOperation => exact ⟨hpassed, rfl⟩
  | writerDone => exact ⟨hpassed, rfl⟩
  | encoderDone =>
    obtain ⟨packet, hin, -⟩ := hw.position
    unfold PacketProtoFlow.runJob PacketProtoFlow.inputHandlerDone at hpassed ⊢
    simp only [hin, PacketProtoFlow.store] at hpassed ⊢
    split at hpassed
    · cases hpassed
    · have hne := hw.output.mp (by simp [hpassed])
      obtain ⟨frame, frames, hframes⟩ := List.exists_cons_of_ne_nil hne
      exact ⟨hpassed, by simp [hframes]⟩

/-- A change of one connection's flow and of the jobs of flows. -/
theorem Same.flow {flow : PacketProtoFlow Note} {j : Option FlowJob} {rest : List Job}
    (hfirst : ∀ q, .first q ∈ rest ↔ .first q ∈ o.jobs) :
    Same o (({o with jobs := rest}.setFlow p flow).setJob p j) := by
  refine ⟨rfl, fun _ => Iff.rfl, ?_, ?_, ?_, ?_, fun q => mem_setFlowJob_first.trans (hfirst q)⟩
  · intro q
    by_cases hq : q = p <;> simp [Client.setFlow, Client.setJob, hq]
  · intro q
    by_cases hq : q = p <;> simp [Client.setFlow, Client.setJob, hq]
  · intro q
    by_cases hq : q = p <;> simp [Client.setFlow, Client.setJob, hq]
  · intro q
    by_cases hq : q = p <;> simp [Client.setFlow, Client.setJob, hq]

theorem Quiet.flowJob (h : Inv o) {j : FlowJob} {rest : List Job} (hjobs : o.jobs = .flow p j :: rest) :
    Quiet o (({o with jobs := rest}.setFlow p ((o.con p).flow.runJob j).1).setJob p
      ((o.con p).flow.runJob j).2) := by
  have hp : p ∈ o.connectionsList := h.jobs_live (.flow p j) (by simp [hjobs]) p rfl
  have hw := h.wired p hp
  rw [hjobs, flowJobs_cons_self] at hw
  have hrest := hw.jobs_single
  rw [hrest] at hw
  have hself : flowJobs p (setFlowJob p ((o.con p).flow.runJob j).2 rest) =
      ((o.con p).flow.runJob j).2.toList := by
    rw [flowJobs_setFlowJob (by simp [hrest]), hrest, List.append_nil]
  refine ⟨.flow fun q => by simp [hjobs], rfl, ?_, ?_⟩
  · intro q _
    by_cases hqp : q = p
    · subst hqp
      have hjobs' : flowJobs q o.jobs = [j] := by rw [hjobs, flowJobs_cons_self, hrest]
      simpa [Client.toSend, Client.setFlow, Client.setJob, hself, hjobs'] using hw.toSend_runJob
    · have hjobs' : flowJobs q o.jobs = flowJobs q rest := by
        rw [hjobs, flowJobs_cons_other _ (flowJob?_of_ne (Ne.symm hqp) j)]
      simp [Client.toSend, Client.setFlow, Client.setJob, hqp, hjobs', flowJobs_setFlowJob_ne (Ne.symm hqp)]
  · intro q _ hpassed
    by_cases hqp : q = p
    · subst hqp
      simp only [Client.setFlow, Client.setJob, Function.update_self] at hpassed ⊢
      exact runJob_head hw hpassed
    · simp only [Client.setFlow, Client.setJob, Function.update_of_ne hqp] at hpassed ⊢
      exact ⟨hpassed, trivial⟩

theorem Quiet.disconnectServer (o : Client) : Quiet o o.disconnectServer := by
  refine ⟨⟨rfl, fun _ => Iff.rfl, ?_, ?_, ?_, ?_, fun _ => Iff.rfl⟩, rfl, ?_, ?_⟩
  · intro q
    simp only [Client.disconnectServer]
    split <;> rfl
  · intro q
    simp only [Client.disconnectServer]
    split <;> rfl
  · intro q
    simp only [Client.disconnectServer]
    split <;> rfl
  · intro q
    simp only [Client.disconnectServer]
    split <;> rfl
  · intro q _
    simp only [Client.toSend, Client.disconnectServer]
    split <;> rfl
  · intro q _ hpassed
    simp only [Client.disconnectServer] at hpassed ⊢
    split at hpassed
    · cases hpassed
    · next hnot => exact absurd hpassed hnot

/-- A packet was accepted into the send buffer of a connection. -/
structure Accepted (o o' : Client) (p : Ptr) (flags : UInt8) (packet : Packet Note) : Prop
    extends Same o o' where
  log : o'.log = o.log ++ [.accepted (o.con p).conid flags packet]
  toSend_self : o'.toSend p = o.toSend p ++ [packetprotoFrame packet]
  toSend : ∀ q ∈ o.connectionsList, q ≠ p → o'.toSend q = o.toSend q
  output : ∀ q, (o'.con q).flow.output = (o.con q).flow.output ∧
    (o'.con q).flow.buf.packets = (o.con q).flow.buf.packets

/-- `connection_send` drops the packet or it accepts it. -/
theorem connectionSend_cases (h : Inv o) (hp : p ∈ o.connectionsList) (flags : UInt8) (data : List UInt8)
    (origin : Origin) :
    ((o.con p).flow.outHave = false ∧ o.connectionSend p flags data origin = o) ∨
      ((o.con p).flow.outHave = true ∧
        Accepted o (o.connectionSend p flags data origin) p (o.sendFlags p flags)
          (o.sendPacket p flags data origin)) := by
  unfold Client.connectionSend
  cases hout : (o.con p).flow.outHave with
  | false => exact .inl ⟨rfl, rfl⟩
  | true =>
    refine .inr ⟨rfl, ?_⟩
    have hnil := (h.wired p hp).jobs_nil hout
    have hself : flowJobs p (setFlowJob p (some .writerDone) o.jobs) = [.writerDone] := by
      rw [flowJobs_setFlowJob (by simp [hnil]), hnil]
      rfl
    have hsame : Same o ((o.setFlow p ((o.con p).flow.endPacket (o.sendPacket p flags data origin)).1).setJob p
        (some .writerDone)) := Same.flow fun _ => Iff.rfl
    refine ⟨{hsame with}, rfl, ?_, ?_, ?_⟩
    · have hsend := PacketProtoFlow.toSend_endPacket (o.con p).flow (o.sendPacket p flags data origin)
      rw [Client.toSend, Client.toSend, hnil]
      show PacketProtoFlow.toSend _ (flowJobs p (setFlowJob p (some .writerDone) o.jobs)) = _
      rw [hself]
      simp only [Bool.not_true, Bool.false_eq_true, if_false, Client.setJob, Client.setFlow, Function.update_self]
      exact hsend
    · intro q _ hqp
      have hjobs : flowJobs q (setFlowJob p (some .writerDone) o.jobs) = flowJobs q o.jobs :=
        flowJobs_setFlowJob_ne (Ne.symm hqp) _ _
      simp [Client.toSend, Client.setFlow, Client.setJob, hqp, PacketProtoFlow.endPacket, hjobs]
    · intro q
      by_cases hq : q = p <;> simp [Client.setFlow, Client.setJob, PacketProtoFlow.endPacket, hq]

/-- The changes that the log is about. -/
inductive Change (o : Client) : Event → Client → Prop
  | quiet {e : Event} {o' : Client} (h : Quiet o o') : Change o e o'
  | receive {data : List UInt8} {packet : UdpgwPacket} {p : Ptr} (hparse : parseUdpgw data = some packet)
      (hfind : o.findConnectionByConid packet.conid = some p)
      (haddr : (o.con p).conaddr.remoteAddr = packet.remoteAddr) :
      Change o (.receive data)
        {o.touch p with
          log := o.log ++
            [.received (o.con p).conaddr.localAddr (o.con p).conaddr.remoteAddr packet.data]}
  | first {p : Ptr} {rest : List Job} (hjobs : o.jobs = .first p :: rest) :
      Change o .job ({o with jobs := rest}.connectionFirstJobHandler p)
  | submit {localAddr remoteAddr : BAddr} {isDns : Bool} {data : List UInt8} {alloc : Alloc} {p : Ptr}
      (hrun : o.running = true) (hfind : o.findConnectionByConaddr ⟨localAddr, remoteAddr⟩ = some p) :
      Change o (.submit localAddr remoteAddr isDns data alloc)
        ((o.touch p).connectionSend p (submitFlags isDns) data ⟨localAddr, o.log.length⟩)
  | reuse {localAddr remoteAddr : BAddr} {isDns : Bool} {data : List UInt8} {alloc : Alloc} {p : Ptr}
      {rest : List Ptr} (hrun : o.running = true)
      (hfind : o.findConnectionByConaddr ⟨localAddr, remoteAddr⟩ = none)
      (hfull : o.numConnections = o.maxConnections) (hlist : o.connectionsList = p :: rest) :
      Change o (.submit localAddr remoteAddr isDns data alloc)
        (((o.rebind p ⟨localAddr, remoteAddr⟩).touch p).connectionSend p (submitFlags isDns ||| flagRebind)
          data ⟨localAddr, o.log.length + 1⟩)
  | insert {localAddr remoteAddr : BAddr} {isDns : Bool} {data : List UInt8} {alloc : Alloc} {next : Nat}
      {flow : PacketProtoFlow Note} (hconid : o.findConnectionByConid (UInt16.ofNat next) = none)
      (hflow : PacketProtoFlow.init o.udpgwMtu o.cfg.sendBufferSize = some (flow, .encoderOperation)) :
      Change o (.submit localAddr remoteAddr isDns data alloc)
        ({o with nextConid := next}.connectionInsert ⟨localAddr, remoteAddr⟩ (submitFlags isDns) data
          (UInt16.ofNat next) flow .encoderOperation)
  | transmit {p : Ptr} {frame : Packet Note} {frames : List (Packet Note)} (hp : p ∈ o.connectionsList)
      (hframes : (o.con p).flow.buf.packets = frame :: frames) :
      Change o (.transmit p)
        {o.setFlow p {(o.con p).flow with output := .passed} with
          log := o.log ++ [.sent (o.con p).conid frame]}
  | drain {p : Ptr} {frame : Packet Note} {frames : List (Packet Note)} (hp : p ∈ o.connectionsList)
      (hpassed : (o.con p).flow.output = .passed)
      (hframes : (o.con p).flow.buf.packets = frame :: frames) :
      Change o (.drain p)
        {(o.setFlow p (o.con p).flow.outputHandlerDone.1).setJob p (o.con p).flow.outputHandlerDone.2 with
          log := o.log ++ [.completed (o.con p).conid frame]}

theorem change_of_receive (o : Client) (data : List UInt8) :
    Change o (.receive data) (o.recvInterfaceHandlerSend data) := by
  unfold Client.recvInterfaceHandlerSend
  split
  · exact .quiet (.refl o)
  · next packet hparse =>
    split
    · exact .quiet (.refl o)
    · split
      · exact .quiet (.refl o)
      · next p hfind =>
        dsimp only
        split
        · exact .quiet (.refl o)
        · next haddr =>
          rw [not_not, bAddrCompareOrder_eq_zero] at haddr
          exact .receive hparse hfind haddr

theorem change_of_job (h : Inv o) (he : o.executeJob = some o') : Change o .job o' := by
  unfold Client.executeJob at he
  split at he
  · cases he
  · next n rest hjobs =>
    cases he
    refine .quiet (.of_con rfl rfl (fun _ => Iff.rfl) rfl (fun p => ?_) fun p => ?_)
    · rw [hjobs]
      simp
    · rw [hjobs]
      exact (flowJobs_cons_other _ rfl).symm
  · next p rest hjobs =>
    cases he
    exact .first hjobs
  · next p j rest hjobs =>
    cases he
    exact .quiet (.flowJob h hjobs)

/-- **Every event makes one of the changes.** -/
theorem change_of_step (h : Inv o) {e : Event} (hs : step o e = some o') : Change o e o' := by
  unfold UdpGw.step at hs
  cases e with
  | handler | finish | connect | monitor | keepaliveDone =>
    dsimp only at hs
    split at hs
    all_goals cases hs
    all_goals exact .quiet (.of_con rfl rfl (fun _ => Iff.rfl) rfl (fun _ => Iff.rfl) fun _ => rfl)
  | job =>
    dsimp only at hs
    split at hs
    · cases hs
    · exact change_of_job h hs
  | set n =>
    dsimp only at hs
    split at hs
    · cases hs
      refine .quiet (.foreign (fun p => ⟨fun hmem => ?_, BPending.mem_set_of_mem⟩) fun p => flowJobs_set _ rfl)
      rcases BPending.mem_set hmem with hmem | hmem
      · cases hmem
      · exact hmem
    · cases hs
  | unset n =>
    dsimp only at hs
    split at hs
    · cases hs
      exact .quiet (.foreign (fun p => List.mem_erase_of_ne nofun) fun p => BPending.filterMap_erase rfl _)
    · cases hs
  | submit localAddr remoteAddr isDns data alloc =>
    dsimp only at hs
    split at hs
    · next hguard =>
      rcases submitPacket_cases hs with ⟨p, hfind, rfl⟩ | ⟨hfind, hfull, p, rest, hlist, rfl⟩ | ⟨-, -, hi⟩
      · exact .submit hguard.1 hfind
      · exact .reuse hguard.1 hfind hfull hlist
      · obtain ⟨next, -, rfl | ⟨flow, hconid, hflow, rfl⟩⟩ := connectionInit_cases hi
        · exact .quiet (.of_con rfl rfl (fun _ => Iff.rfl) rfl (fun _ => Iff.rfl) fun _ => rfl)
        · exact .insert hconid hflow
    · cases hs
  | receive data =>
    dsimp only at hs
    split at hs
    · cases hs
      exact change_of_receive o data
    · cases hs
  | disconnect =>
    dsimp only at hs
    split at hs
    · cases hs
      exact .quiet (.disconnectServer o)
    · cases hs
  | transmit p =>
    obtain ⟨-, hp, -, frame, frames, hframes, rfl⟩ := transmit_cases hs
    exact .transmit hp hframes
  | drain p =>
    dsimp only at hs
    split at hs
    · obtain ⟨hp, hpassed, frame, frames, hframes, rfl⟩ := drain_cases hs
      exact .drain hp hpassed hframes
    · cases hs

/-! ### What events keep -/

theorem connectionSend_grows (o : Client) (p : Ptr) (flags : UInt8) (data : List UInt8) (origin : Origin) :
    (o.connectionSend p flags data origin).cfg = o.cfg ∧
      o.log <+: (o.connectionSend p flags data origin).log := by
  unfold Client.connectionSend
  split
  · exact ⟨rfl, List.prefix_rfl⟩
  · exact ⟨rfl, List.prefix_append ..⟩

/-- The log only grows. -/
theorem grows_of_step (h : Inv o) {e : Event} (hs : step o e = some o') : o'.cfg = o.cfg ∧ o.log <+: o'.log := by
  cases change_of_step h hs with
  | quiet hq => exact ⟨hq.cfg, hq.log ▸ List.prefix_rfl⟩
  | receive => exact ⟨rfl, List.prefix_append ..⟩
  | first => exact connectionSend_grows ..
  | submit => exact connectionSend_grows ..
  | @reuse l r _ _ _ p =>
    obtain ⟨hcfg, hlog⟩ := connectionSend_grows ((o.rebind p ⟨l, r⟩).touch p) p _ _ _
    exact ⟨hcfg, ((rebind_log o p ⟨l, r⟩).symm ▸ List.prefix_append _ _ : o.log <+: (o.rebind p ⟨l, r⟩).log).trans hlog⟩
  | insert => exact ⟨rfl, List.prefix_append ..⟩
  | transmit => exact ⟨rfl, List.prefix_append ..⟩
  | drain => exact ⟨rfl, List.prefix_append ..⟩

theorem connectionSend_running (o : Client) (p : Ptr) (flags : UInt8) (data : List UInt8) (origin : Origin) :
    (o.connectionSend p flags data origin).running = o.running := by
  unfold Client.connectionSend
  split <;> rfl

/-- Submitting does not end the handler. -/
theorem submitPacket_running {localAddr remoteAddr : BAddr} {isDns : Bool} {data : List UInt8} {alloc : Alloc}
    (h : o.submitPacket localAddr remoteAddr isDns data alloc = some o') : o'.running = o.running := by
  rcases submitPacket_cases h with ⟨p, -, rfl⟩ | ⟨-, -, p, rest, -, rfl⟩ | ⟨-, -, hi⟩
  · exact connectionSend_running ..
  · exact connectionSend_running ..
  · obtain ⟨next, -, rfl | ⟨flow, -, -, rfl⟩⟩ := connectionInit_cases hi <;> rfl

theorem mem_connectionSend (flags : UInt8) (data : List UInt8) (origin : Origin) :
    (o.connectionSend p flags data origin).connectionsList = o.connectionsList ∧
      ∀ q, .first q ∈ (o.connectionSend p flags data origin).jobs → .first q ∈ o.jobs := by
  unfold Client.connectionSend
  split
  · exact ⟨rfl, fun _ h => h⟩
  · exact ⟨rfl, fun _ h => (mem_setFlowJob_first (p := p) (j := some .writerDone)).mp h⟩

/-- Only a datagram that is submitted makes a first job. -/
theorem first_of_step (h : Inv o) {e : Event} (hs : step o e = some o')
    (he : ∀ l r isDns data alloc, e ≠ .submit l r isDns data alloc) {q : Ptr} (hq : .first q ∈ o'.jobs) :
    .first q ∈ o.jobs := by
  cases change_of_step h hs with
  | quiet hquiet => exact (hquiet.first q).mp hq
  | receive => exact hq
  | first hjobs =>
    rw [hjobs]
    exact List.mem_cons_of_mem _ ((mem_connectionSend _ _ _).2 q hq)
  | submit => exact (he _ _ _ _ _ rfl).elim
  | reuse => exact (he _ _ _ _ _ rfl).elim
  | insert => exact (he _ _ _ _ _ rfl).elim
  | transmit => exact hq
  | drain => exact mem_setFlowJob_first.mp hq

/-- A datagram that is submitted makes no first job, or it makes a connection. -/
theorem submitPacket_first (h : Inv o) {l r : BAddr} {isDns : Bool} {data : List UInt8} {alloc : Alloc}
    (hs : o.submitPacket l r isDns data alloc = some o') :
    (o.fresh ∉ o'.connectionsList ∧ ∀ q, .first q ∈ o'.jobs → .first q ∈ o.jobs) ∨
      ∃ next flow, PacketProtoFlow.init o.udpgwMtu o.cfg.sendBufferSize = some (flow, .encoderOperation) ∧
        o' = {o with nextConid := next}.connectionInsert ⟨l, r⟩ (submitFlags isDns) data (UInt16.ofNat next) flow
          .encoderOperation := by
  have hfresh : o.fresh ∉ o.connectionsList := fun hmem => h.ne_fresh hmem rfl
  rcases submitPacket_cases hs with ⟨p, hfind, rfl⟩ | ⟨-, -, p, rest, hlist, rfl⟩ | ⟨-, -, hi⟩
  · obtain ⟨hlist, hfirst⟩ := mem_connectionSend (o := o.touch p) (p := p) (submitFlags isDns) data ⟨l, o.log.length⟩
    have hp := (h.findConnectionByConaddr hfind).1
    refine .inl ⟨fun hmem => ?_, hfirst⟩
    rw [hlist, mem_touch hp] at hmem
    exact hfresh hmem
  · obtain ⟨hsame, hfirst⟩ := mem_connectionSend (o := (o.rebind p ⟨l, r⟩).touch p) (p := p)
      (submitFlags isDns ||| flagRebind) data ⟨l, o.log.length + 1⟩
    have hp : p ∈ (o.rebind p ⟨l, r⟩).connectionsList := hlist ▸ List.mem_cons_self ..
    refine .inl ⟨fun hmem => ?_, hfirst⟩
    rw [hsame, mem_touch hp] at hmem
    exact hfresh hmem
  · obtain ⟨next, -, rfl | ⟨flow, -, hflow, rfl⟩⟩ := connectionInit_cases hi
    · exact .inl ⟨hfresh, fun _ hq => hq⟩
    · exact .inr ⟨next, flow, hflow, rfl⟩

end TwilightLine.UdpGw
