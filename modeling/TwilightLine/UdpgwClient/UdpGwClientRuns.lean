import TwilightLine.UdpgwClient.UdpGwClient

/-! What holds in every state of a udpgw client.

`Inv` ties the trees, the list and the job stack to the connections: every connection
is found by its conid and no two share one, the wiring of its flow is in the position
that its pending jobs tell (`PacketProtoFlow.Wired`), and while its first job is
pending the jobs that make its writer ready run right before it (`FirstWaits`). Each
event keeps it (`Inv.step`). -/
namespace TwilightLine.UdpGw

/-! ### Jobs of a connection -/

def flowJob? (p : Ptr) : Job → Option FlowJob
  | .flow q j => if q = p then some j else none
  | _ => none

/-- The pending jobs of a connection's flow. -/
def flowJobs (p : Ptr) (jobs : List Job) : List FlowJob := jobs.filterMap (flowJob? p)

/-- The connection that a job belongs to. -/
def Job.con? : Job → Option Ptr
  | .first p => some p
  | .flow p _ => some p
  | .foreign _ => none

theorem mem_flowJobs {p : Ptr} {j : FlowJob} {jobs : List Job} :
    j ∈ flowJobs p jobs ↔ .flow p j ∈ jobs := by
  rw [flowJobs, List.mem_filterMap]
  constructor
  · rintro ⟨i, hi, h⟩
    cases i with
    | first q => cases h
    | foreign n => cases h
    | flow q k =>
      simp only [flowJob?, Option.ite_none_right_eq_some, Option.some.injEq] at h
      rw [← h.1, ← h.2]
      exact hi
  · exact fun h => ⟨_, h, if_pos rfl⟩

@[simp] theorem flowJobs_nil (p : Ptr) : flowJobs p [] = [] := rfl

@[simp] theorem flowJobs_cons_self (p : Ptr) (j : FlowJob) (jobs : List Job) :
    flowJobs p (.flow p j :: jobs) = j :: flowJobs p jobs :=
  List.filterMap_cons_some (if_pos rfl)

theorem flowJobs_cons_other {p : Ptr} {i : Job} (jobs : List Job) (h : flowJob? p i = none) :
    flowJobs p (i :: jobs) = flowJobs p jobs := List.filterMap_cons_none h

theorem flowJob?_of_ne {p q : Ptr} (h : q ≠ p) (j : FlowJob) : flowJob? p (.flow q j) = none := if_neg h

/-- Setting a job that is not the flow's leaves the flow's jobs alone. -/
theorem flowJobs_set {p : Ptr} {i : Job} (jobs : List Job) (h : flowJob? p i = none) :
    flowJobs p (BPending.set i jobs) = flowJobs p jobs := BPending.filterMap_set h jobs

theorem flowJobs_setFlowJob_ne {p q : Ptr} (h : q ≠ p) (j : Option FlowJob) (jobs : List Job) :
    flowJobs p (setFlowJob q j jobs) = flowJobs p jobs := by
  cases j with
  | none => rfl
  | some j => exact flowJobs_set jobs (flowJob?_of_ne h j)

/-- A flow whose job is not pending yet sets it on top of the others. -/
theorem flowJobs_setFlowJob {p : Ptr} {j : Option FlowJob} {jobs : List Job}
    (h : ∀ i, j = some i → i ∉ flowJobs p jobs) :
    flowJobs p (setFlowJob p j jobs) = j.toList ++ flowJobs p jobs := by
  cases j with
  | none => rfl
  | some j =>
    have hnot : Job.flow p j ∉ jobs := fun hmem => h j rfl (mem_flowJobs.mpr hmem)
    rw [setFlowJob, BPending.set_of_not_mem hnot, flowJobs_cons_self]
    rfl

theorem mem_setFlowJob {p : Ptr} {j : Option FlowJob} {jobs : List Job} {i : Job}
    (h : i ∈ setFlowJob p j jobs) : i.con? = some p ∨ i ∈ jobs := by
  cases j with
  | none => exact .inr h
  | some j =>
    rcases BPending.mem_set h with rfl | h
    · exact .inl rfl
    · exact .inr h

theorem mem_setFlowJob_first {p q : Ptr} {j : Option FlowJob} {jobs : List Job} :
    .first q ∈ setFlowJob p j jobs ↔ .first q ∈ jobs := by
  cases j with
  | none => exact Iff.rfl
  | some j =>
    constructor
    · intro h
      rcases BPending.mem_set h with h | h
      · cases h
      · exact h
    · exact BPending.mem_set_of_mem

theorem nodup_setFlowJob {p : Ptr} {j : Option FlowJob} {jobs : List Job} (h : jobs.Nodup) :
    (setFlowJob p j jobs).Nodup := by
  cases j with
  | none => exact h
  | some j => exact BPending.nodup_set h _

/-! ### The invariant -/

/-- The first job of a connection comes right after the jobs that make the writer ready:
above it is the first job of the flow, or, with no handler running, the second one, or
the writer is ready. -/
def FirstWaits (o : Client) (p : Ptr) : Prop :=
  [.flow p .encoderOperation, .first p] <:+: o.jobs ∨
    o.running = false ∧
      ((∃ below, o.jobs = .flow p .writerOperation :: .first p :: below) ∨
        (o.con p).flow.outHave = true ∧ ∃ below, o.jobs = .first p :: below)

structure Inv (o : Client) : Prop where
  nodup : o.jobs.Nodup
  mem_conid : ∀ p, p ∈ o.connectionsTreeByConid ↔ p ∈ o.connectionsList
  mem_conaddr : ∀ p ∈ o.connectionsTreeByConaddr, p ∈ o.connectionsList
  fresh : ∀ p ∈ o.connectionsList, p < o.fresh
  jobs_live : ∀ j ∈ o.jobs, ∀ p, j.con? = some p → p ∈ o.connectionsList
  conid_inj : ∀ p ∈ o.connectionsList, ∀ q ∈ o.connectionsList, (o.con p).conid = (o.con q).conid → p = q
  wired : ∀ p ∈ o.connectionsList, (o.con p).flow.Wired (flowJobs p o.jobs)
  mtu : ∀ p ∈ o.connectionsList, (o.con p).flow.inputMtu = packetprotoHeaderSize + o.udpgwMtu
  firstData : ∀ p ∈ o.connectionsList, (o.con p).firstData.length ≤ o.cfg.udpMtu
  first : ∀ p, .first p ∈ o.jobs → FirstWaits o p

theorem inv_init (cfg : Config) : Inv (init cfg) where
  nodup := List.nodup_nil
  mem_conid := fun _ => Iff.rfl
  mem_conaddr := nofun
  fresh := nofun
  jobs_live := nofun
  conid_inj := nofun
  wired := nofun
  mtu := nofun
  firstData := nofun
  first := nofun

variable {o : Client} {p q : Ptr}

theorem uint16Comparator_eq_zero {c d : UInt16} : uint16Comparator c d = 0 ↔ c = d := by
  rw [uint16Comparator, bCompare_eq_zero]
  exact ⟨fun h => UInt16.toNat.inj h, fun h => congrArg _ h⟩

theorem conaddrComparator_eq_zero (a b : Conaddr) : conaddrComparator a b = 0 ↔ a = b := by
  unfold conaddrComparator
  dsimp only
  rw [compare_then, bAddrCompareOrder_eq_zero, bAddrCompareOrder_eq_zero]
  constructor
  · rintro ⟨hr, hl⟩
    cases a
    cases b
    exact congr (congrArg Conaddr.mk hl) hr
  · rintro rfl
    exact ⟨rfl, rfl⟩

/-- A lookup by address finds a connection of that pair. -/
theorem Inv.findConnectionByConaddr (h : Inv o) {a : Conaddr} (hf : o.findConnectionByConaddr a = some p) :
    p ∈ o.connectionsList ∧ (o.con p).conaddr = a := by
  have hmem := List.mem_of_find?_eq_some hf
  have heq := List.find?_some hf
  rw [decide_eq_true_eq, conaddrComparator_eq_zero] at heq
  exact ⟨h.mem_conaddr p hmem, heq.symm⟩

/-- A lookup by conid finds the connection of that conid. -/
theorem Inv.findConnectionByConid (h : Inv o) {c : UInt16} (hf : o.findConnectionByConid c = some p) :
    p ∈ o.connectionsList ∧ (o.con p).conid = c := by
  have hmem := List.mem_of_find?_eq_some hf
  have heq := List.find?_some hf
  rw [decide_eq_true_eq, uint16Comparator_eq_zero] at heq
  exact ⟨(h.mem_conid p).mp hmem, heq.symm⟩

/-- A conid that a lookup does not find is no connection's. -/
theorem Inv.conid_unused (h : Inv o) {c : UInt16} (hf : o.findConnectionByConid c = none) :
    ∀ p ∈ o.connectionsList, (o.con p).conid ≠ c := by
  intro p hp hc
  have hnone := List.find?_eq_none.mp hf p ((h.mem_conid p).mpr hp)
  rw [decide_eq_true_eq, uint16Comparator_eq_zero] at hnone
  exact hnone hc.symm

theorem findUnusedConid_unused {fuel n next : Nat} (h : o.findUnusedConid fuel n = some next) :
    o.findConnectionByConid (UInt16.ofNat next) = none := by
  induction fuel generalizing n with
  | zero => cases h
  | succ fuel ih =>
    rw [Client.findUnusedConid] at h
    split at h
    · next hnone =>
      cases h
      exact hnone
    · exact ih h

/-! ### The first job -/

/-- While a handler runs, the wiring of a connection whose first job is pending has not
begun. -/
theorem FirstWaits.of_running (h : FirstWaits o p) (hrun : o.running = true) :
    [.flow p .encoderOperation, .first p] <:+: o.jobs := by
  rcases h with h | ⟨hrest, -⟩
  · exact h
  · exact absurd (hrun.symm.trans hrest) nofun

/-- A writer that is ready while a handler runs has seen the first job run. -/
theorem Inv.first_done (h : Inv o) (hp : p ∈ o.connectionsList) (hrun : o.running = true)
    (hout : (o.con p).flow.outHave = true) : .first p ∉ o.jobs := by
  intro hmem
  have hpair := (h.first p hmem).of_running hrun
  have hjobs := (h.wired p hp).jobs_nil hout
  have henc : FlowJob.encoderOperation ∈ flowJobs p o.jobs :=
    mem_flowJobs.mpr (hpair.subset (List.mem_cons_self ..))
  rw [hjobs] at henc
  cases henc

theorem infix_setFlowJob {j : Option FlowJob} {jobs : List Job}
    (h : [.flow q .encoderOperation, .first q] <:+: jobs) (hne : q = p → j ≠ some .encoderOperation) :
    [.flow q .encoderOperation, .first q] <:+: setFlowJob p j jobs := by
  cases j with
  | none => exact h
  | some j =>
    refine BPending.infix_set h ?_ nofun
    intro he
    injection he with hq hj
    exact hne hq (congrArg _ hj.symm)

/-- Below another top job a first job waits for its flow. -/
theorem FirstWaits.below {i : Job} {rest : List Job} (h : FirstWaits o q) (hjobs : o.jobs = i :: rest)
    (hi : i.con? ≠ some q) : [.flow q .encoderOperation, .first q] <:+: rest := by
  rcases h with h | ⟨-, ⟨below, h⟩ | ⟨-, below, h⟩⟩
  · rw [hjobs] at h
    refine BPending.infix_tail ?_ h
    rintro rfl
    exact hi rfl
  · rw [hjobs] at h
    injection h with h _
    exact absurd (congrArg Job.con? h) hi
  · rw [hjobs] at h
    injection h with h _
    exact absurd (congrArg Job.con? h) hi

/-! ### The flow of a connection -/

/-- A handler of one connection's flow runs and sets a job on top of those left. -/
theorem Inv.flow (h : Inv o) (hp : p ∈ o.connectionsList) {flow : PacketProtoFlow Note}
    {j : Option FlowJob} {rest : List Job} (hnd : rest.Nodup) (hsub : ∀ i ∈ rest, i ∈ o.jobs)
    (hother : ∀ q, q ≠ p → flowJobs q rest = flowJobs q o.jobs)
    (hw : flow.Wired (flowJobs p (setFlowJob p j rest)))
    (hm : flow.inputMtu = (o.con p).flow.inputMtu)
    (hfirst : ∀ q, .first q ∈ rest → FirstWaits (({o with jobs := rest}.setFlow p flow).setJob p j) q) :
    Inv (({o with jobs := rest}.setFlow p flow).setJob p j) := by
  have hcon : ∀ q, ((o.setFlow p flow).con q).conid = (o.con q).conid ∧
      ((o.setFlow p flow).con q).firstData = (o.con q).firstData := by
    intro q
    by_cases hq : q = p
    · subst hq
      simp [Client.setFlow]
    · simp [Client.setFlow, hq]
  refine ⟨nodup_setFlowJob hnd, h.mem_conid, h.mem_conaddr, h.fresh, ?_, ?_, ?_, ?_, ?_, ?_⟩
  · intro i hi q hq
    rcases mem_setFlowJob hi with hi | hi
    · rw [hi, Option.some.injEq] at hq
      exact hq ▸ hp
    · exact h.jobs_live i (hsub i hi) q hq
  · intro q hq r hr heq
    exact h.conid_inj q hq r hr ((hcon q).1.symm.trans (heq.trans (hcon r).1))
  · intro q hq
    by_cases hqp : q = p
    · subst hqp
      simpa [Client.setFlow, Client.setJob] using hw
    · have hjobs : flowJobs q (setFlowJob p j rest) = flowJobs q o.jobs := by
        rw [flowJobs_setFlowJob_ne (Ne.symm hqp), hother q hqp]
      simpa [Client.setFlow, Client.setJob, hqp, hjobs] using h.wired q hq
  · intro q hq
    by_cases hqp : q = p
    · subst hqp
      simpa [Client.setFlow, Client.setJob, Client.udpgwMtu] using hm.trans (h.mtu q hq)
    · simpa [Client.setFlow, Client.setJob, Client.udpgwMtu, hqp] using h.mtu q hq
  · intro q hq
    exact (congrArg List.length (hcon q).2).trans_le (h.firstData q hq)
  · intro q hq
    exact hfirst q (mem_setFlowJob_first.mp hq)

/-- The frame of the log: no part of the invariant reads it. -/
theorem Inv.log (h : Inv o) (log : List Entry) : Inv {o with log := log} := {h with}

/-- **`connection_send` keeps the invariant**, called by a handler or by a first job. -/
theorem Inv.connectionSend (h : Inv o) (hp : p ∈ o.connectionsList)
    (hpend : ∀ q, .first q ∈ o.jobs → [.flow q .encoderOperation, .first q] <:+: o.jobs)
    {flags : UInt8} {data : List UInt8} {origin : Origin} (hlen : data.length ≤ o.cfg.udpMtu) :
    Inv (o.connectionSend p flags data origin) := by
  unfold Client.connectionSend
  dsimp only
  split
  · exact h
  · next hout =>
    have hhave : (o.con p).flow.outHave = true := by simpa using hout
    have hnil := (h.wired p hp).jobs_nil hhave
    have hwired : (o.con p).flow.Wired [] := hnil ▸ h.wired p hp
    refine Inv.log (h.flow (j := some .writerDone) hp h.nodup (fun _ hi => hi) (fun _ _ => rfl) ?_ ?_ ?_) _
    · rw [flowJobs_setFlowJob (by simp [hnil]), hnil]
      refine hwired.endPacket hhave ?_
      rw [h.mtu p hp]
      exact Nat.add_le_add_left (udpgwPacket_length_le _ _ _ hlen) _
    · rfl
    · intro q hq
      exact .inl (infix_setFlowJob (j := some .writerDone) (hpend q hq) (fun _ => nofun))

/-- **A job of a flow keeps the invariant.** -/
theorem Inv.flowJob (h : Inv o) {j : FlowJob} {rest : List Job} (hjobs : o.jobs = .flow p j :: rest)
    (hrun : o.running = false) :
    Inv (({o with jobs := rest}.setFlow p ((o.con p).flow.runJob j).1).setJob p
      ((o.con p).flow.runJob j).2) := by
  have hp : p ∈ o.connectionsList := by
    apply h.jobs_live (.flow p j)
    · simp [hjobs]
    · rfl
  have hnd := h.nodup
  rw [hjobs] at hnd
  have hw := h.wired p hp
  rw [hjobs, flowJobs_cons_self] at hw
  have hrest := hw.jobs_single
  rw [hrest] at hw
  have hset : flowJobs p (setFlowJob p ((o.con p).flow.runJob j).2 rest) =
      ((o.con p).flow.runJob j).2.toList := by
    rw [flowJobs_setFlowJob (by simp [hrest]), hrest, List.append_nil]
  refine h.flow hp (List.nodup_cons.mp hnd).2 ?_ ?_ ?_ (PacketProtoFlow.runJob_inputMtu _ _) ?_
  · intro i hi
    rw [hjobs]
    exact List.mem_cons_of_mem _ hi
  · intro q hq
    rw [hjobs, flowJobs_cons_other _ (flowJob?_of_ne hq.symm j)]
  · rw [hset]
    exact hw.runJob
  · intro q hq
    have hwait := h.first q (by rw [hjobs]; exact List.mem_cons_of_mem _ hq)
    by_cases hqp : q = p
    · -- The job that ran is the one right above the first job.
      subst hqp
      have hfresh : ∀ i, Job.flow q i ∉ rest := by
        intro i hi
        have := mem_flowJobs.mpr hi
        rw [hrest] at this
        cases this
      rcases hwait with hpair | ⟨-, ⟨below, hb⟩ | ⟨-, below, hb⟩⟩
      · have hj : j = .encoderOperation := by
          have := mem_flowJobs.mpr (hpair.subset (List.mem_cons_self ..))
          rw [hjobs, flowJobs_cons_self, hrest, List.mem_singleton] at this
          exact this.symm
        subst hj
        rw [hjobs] at hpair
        obtain ⟨below, hb⟩ := BPending.infix_top hnd hpair
        refine .inr ⟨hrun, .inl ⟨below, ?_⟩⟩
        show BPending.set _ rest = _
        rw [BPending.set_of_not_mem (hfresh _), hb]
      · rw [hjobs] at hb
        injection hb with hj hb
        injection hj with _ hj
        subst hj
        refine .inr ⟨hrun, .inr ⟨?_, below, hb⟩⟩
        simp [Client.setFlow, Client.setJob, PacketProtoFlow.runJob]
      · rw [hjobs] at hb
        injection hb with hj _
        cases hj
    · refine .inl (infix_setFlowJob (hwait.below hjobs ?_) (fun he => absurd he hqp))
      intro hc
      exact hqp (Option.some.inj hc).symm

/-- With the first job on top, the writer of its connection is ready. -/
theorem Inv.first_top (h : Inv o) {rest : List Job} (hjobs : o.jobs = .first p :: rest) :
    (o.con p).flow.outHave = true := by
  have hnd := h.nodup
  rw [hjobs] at hnd
  rcases h.first p (by simp [hjobs]) with hpair | ⟨-, ⟨below, hb⟩ | ⟨hout, -⟩⟩
  · rw [hjobs] at hpair
    exact (BPending.infix_not_top (a := .flow p .encoderOperation) hnd nofun hpair).elim
  · rw [hjobs] at hb
    injection hb with hb _
    cases hb
  · exact hout

theorem Inv.popFirst (h : Inv o) {rest : List Job} (hjobs : o.jobs = .first p :: rest) :
    p ∈ o.connectionsList ∧ .first p ∉ rest ∧ Inv {o with jobs := rest} ∧
      ∀ q, .first q ∈ rest → [.flow q .encoderOperation, .first q] <:+: rest := by
  have hnd := h.nodup
  rw [hjobs] at hnd
  obtain ⟨hnot, hnd⟩ := List.nodup_cons.mp hnd
  have hbelow : ∀ q, .first q ∈ rest → [.flow q .encoderOperation, .first q] <:+: rest := by
    intro q hq
    refine (h.first q (by rw [hjobs]; exact List.mem_cons_of_mem _ hq)).below hjobs ?_
    intro hc
    rw [← Option.some.inj hc] at hq
    exact hnot hq
  refine ⟨h.jobs_live (.first p) (by simp [hjobs]) p rfl, hnot, ?_, hbelow⟩
  refine ⟨hnd, h.mem_conid, h.mem_conaddr, h.fresh, ?_, h.conid_inj, ?_, h.mtu, h.firstData, ?_⟩
  · intro i hi
    exact h.jobs_live i (by rw [hjobs]; exact List.mem_cons_of_mem _ hi)
  · intro q hq
    have hw := h.wired q hq
    rw [hjobs, flowJobs_cons_other _ rfl] at hw
    exact hw
  · exact fun q hq => .inl (hbelow q hq)

/-- **The first job keeps the invariant.** -/
theorem Inv.firstJob (h : Inv o) {rest : List Job} (hjobs : o.jobs = .first p :: rest) :
    Inv ({o with jobs := rest}.connectionFirstJobHandler p) := by
  obtain ⟨hp, -, hpop, hbelow⟩ := h.popFirst hjobs
  exact hpop.connectionSend hp hbelow (h.firstData p hp)

/-- A completion sets a job only where none of the flow's is pending. -/
theorem Inv.flowJobs_done (h : Inv o) (hp : p ∈ o.connectionsList) :
    (∀ i, (o.con p).flow.outputHandlerDone.2 = some i → flowJobs p o.jobs = []) ∧
      flowJobs p (setFlowJob p (o.con p).flow.outputHandlerDone.2 o.jobs) =
        (o.con p).flow.outputHandlerDone.2.toList ++ flowJobs p o.jobs := by
  have hw := h.wired p hp
  have hnone : ∀ i, (o.con p).flow.outputHandlerDone.2 = some i → flowJobs p o.jobs = [] := by
    intro i hi
    cases hjobs : flowJobs p o.jobs with
    | nil => rfl
    | cons j rest =>
      rw [hjobs] at hw
      rw [hw.outputHandlerDone_none] at hi
      cases hi
  exact ⟨hnone, flowJobs_setFlowJob fun i hi => by simp [hnone i hi]⟩

/-- **A completion of the send queue keeps the invariant.** -/
theorem Inv.flowDone (h : Inv o) (hp : p ∈ o.connectionsList) (hrun : o.running = true)
    (hsend : (o.con p).flow.output ≠ .idle) :
    Inv ((o.setFlow p (o.con p).flow.outputHandlerDone.1).setJob p (o.con p).flow.outputHandlerDone.2) := by
  obtain ⟨hnone, hjobs⟩ := h.flowJobs_done hp
  refine h.flow hp h.nodup (fun _ hi => hi) (fun _ _ => rfl) ?_ ?_ ?_
  · rw [hjobs]
    exact (h.wired p hp).outputHandlerDone hsend
  · rfl
  · intro q hq
    have hpair := (h.first q hq).of_running hrun
    refine .inl (infix_setFlowJob hpair ?_)
    rintro rfl hj
    have henc := mem_flowJobs.mpr (hpair.subset (List.mem_cons_self ..))
    rw [hnone _ hj] at henc
    cases henc

/-! ### The trees and the list -/

/-- Connections may change in what neither the lookups by conid nor the wiring read. -/
theorem Inv.con (h : Inv o) (con : Ptr → Connection) (hconid : ∀ q, (con q).conid = (o.con q).conid)
    (hdata : ∀ q, (con q).firstData = (o.con q).firstData)
    (hw : ∀ q ∈ o.connectionsList, (con q).flow.Wired (flowJobs q o.jobs))
    (hm : ∀ q, (con q).flow.inputMtu = (o.con q).flow.inputMtu)
    (hout : ∀ q, (con q).flow.outHave = (o.con q).flow.outHave) : Inv {o with con := con} where
  nodup := h.nodup
  mem_conid := h.mem_conid
  mem_conaddr := h.mem_conaddr
  fresh := h.fresh
  jobs_live := h.jobs_live
  conid_inj := by
    intro q hq r hr he
    exact h.conid_inj q hq r hr ((hconid q).symm.trans (he.trans (hconid r)))
  wired := hw
  mtu := fun q hq => (hm q).trans (h.mtu q hq)
  firstData := fun q hq => (congrArg List.length (hdata q)).trans_le (h.firstData q hq)
  first := by
    intro q hq
    rcases h.first q hq with hpair | ⟨hrun, hnext | ⟨hready, hnext⟩⟩
    · exact .inl hpair
    · exact .inr ⟨hrun, .inl hnext⟩
    · exact .inr ⟨hrun, .inr ⟨(hout q).trans hready, hnext⟩⟩

theorem Inv.tree (h : Inv o) {tree : List Ptr} (ht : ∀ p ∈ tree, p ∈ o.connectionsList) :
    Inv {o with connectionsTreeByConaddr := tree} :=
  {h with mem_conaddr := ht}

theorem mem_touch (hp : p ∈ o.connectionsList) :
    q ∈ (o.touch p).connectionsList ↔ q ∈ o.connectionsList := by
  show q ∈ o.connectionsList.erase p ++ [p] ↔ q ∈ o.connectionsList
  rw [List.mem_append, List.mem_singleton]
  constructor
  · rintro (hq | rfl)
    · exact List.mem_of_mem_erase hq
    · exact hp
  · intro hq
    by_cases hqp : q = p
    · exact .inr hqp
    · exact .inl ((List.mem_erase_of_ne hqp).mpr hq)

theorem Inv.touch (h : Inv o) (hp : p ∈ o.connectionsList) : Inv (o.touch p) where
  nodup := h.nodup
  mem_conid := fun q => (h.mem_conid q).trans (mem_touch hp).symm
  mem_conaddr := fun q hq => (mem_touch hp).mpr (h.mem_conaddr q hq)
  fresh := fun q hq => h.fresh q ((mem_touch hp).mp hq)
  jobs_live := fun j hj q hq => (mem_touch hp).mpr (h.jobs_live j hj q hq)
  conid_inj := fun q hq r hr => h.conid_inj q ((mem_touch hp).mp hq) r ((mem_touch hp).mp hr)
  wired := fun q hq => h.wired q ((mem_touch hp).mp hq)
  mtu := fun q hq => h.mtu q ((mem_touch hp).mp hq)
  firstData := fun q hq => h.firstData q ((mem_touch hp).mp hq)
  first := h.first

theorem mem_treeInsert {equal : Option Ptr} {tree : List Ptr} (h : q ∈ Client.treeInsert equal p tree) :
    q = p ∨ q ∈ tree := by
  cases equal with
  | none =>
    rcases List.mem_append.mp h with h | h
    · exact .inr h
    · exact .inl (List.mem_singleton.mp h)
  | some _ => exact .inr h

theorem rebind_con (o : Client) (p : Ptr) (a : Conaddr) :
    (o.rebind p a).con = Function.update o.con p {o.con p with conaddr := a} := rfl

/-- The log after a connection was bound to another pair. -/
theorem rebind_log (o : Client) (p : Ptr) (a : Conaddr) :
    (o.rebind p a).log = o.log ++ [.bound (o.con p).conid a] := by
  simp [Client.rebind]

theorem rebind_conid (o : Client) (p q : Ptr) (a : Conaddr) :
    ((o.rebind p a).con q).conid = (o.con q).conid := by
  rw [rebind_con]
  by_cases hq : q = p <;> simp [hq]

/-- **A connection that is bound to another pair keeps the invariant.** -/
theorem Inv.rebind (h : Inv o) (hp : p ∈ o.connectionsList) (a : Conaddr) : Inv (o.rebind p a) := by
  have hcon : Inv {o with con := Function.update o.con p {o.con p with conaddr := a}} := by
    refine h.con _ ?_ ?_ ?_ ?_ ?_
    · intro q
      by_cases hq : q = p <;> simp [hq]
    · intro q
      by_cases hq : q = p <;> simp [hq]
    · intro q hq
      have hw := h.wired q hq
      by_cases hqp : q = p
      · subst hqp
        simpa using hw
      · simpa [hqp] using hw
    · intro q
      by_cases hq : q = p <;> simp [hq]
    · intro q
      by_cases hq : q = p <;> simp [hq]
  refine {hcon with mem_conaddr := ?_}
  intro q hq
  rcases mem_treeInsert hq with rfl | hq
  · exact hp
  · exact h.mem_conaddr q (List.mem_of_mem_erase hq)

section Insert
variable (a : Conaddr) (flags : UInt8) (data : List UInt8) (conid : UInt16) (flow : PacketProtoFlow Note)
  (j : FlowJob)

theorem mem_connectionInsert : q ∈ (o.connectionInsert a flags data conid flow j).connectionsList ↔
    q = o.fresh ∨ q ∈ o.connectionsList := by
  show q ∈ o.connectionsList ++ [o.fresh] ↔ _
  rw [List.mem_append, List.mem_singleton, or_comm]

theorem connectionInsert_new : (o.connectionInsert a flags data conid flow j).con o.fresh =
    ⟨a, flags, data, ⟨a.localAddr, o.log.length + 1⟩, conid, flow⟩ :=
  Function.update_self ..

theorem connectionInsert_old (hq : q ≠ o.fresh) :
    (o.connectionInsert a flags data conid flow j).con q = o.con q :=
  Function.update_of_ne hq ..

theorem Inv.ne_fresh (h : Inv o) (hq : q ∈ o.connectionsList) : q ≠ o.fresh := (h.fresh q hq).ne

/-- The jobs of a new connection's flow come right above its first job. -/
theorem Inv.connectionInsert_jobs (h : Inv o) : (o.connectionInsert a flags data conid flow j).jobs =
    .flow o.fresh j :: .first o.fresh :: o.jobs := by
  have hnojob : ∀ i ∈ o.jobs, i.con? ≠ some o.fresh :=
    fun i hi hc => h.ne_fresh (h.jobs_live i hi _ hc) rfl
  have hfirst : Job.first o.fresh ∉ o.jobs := fun hmem => hnojob _ hmem rfl
  have hflow : Job.flow o.fresh j ∉ .first o.fresh :: o.jobs := by
    intro hmem
    rcases List.mem_cons.mp hmem with hmem | hmem
    · cases hmem
    · exact hnojob _ hmem rfl
  show BPending.set _ (BPending.set _ _) = _
  rw [BPending.set_of_not_mem hfirst, BPending.set_of_not_mem hflow]

end Insert

/-- **A new connection keeps the invariant.** -/
theorem Inv.connectionInsert (h : Inv o) (hrun : o.running = true) {a : Conaddr} {flags : UInt8}
    {data : List UInt8} {conid : UInt16} {flow : PacketProtoFlow Note}
    (hconid : o.findConnectionByConid conid = none) (hlen : data.length ≤ o.cfg.udpMtu)
    (hflow : PacketProtoFlow.init o.udpgwMtu o.cfg.sendBufferSize = some (flow, .encoderOperation)) :
    Inv (o.connectionInsert a flags data conid flow .encoderOperation) := by
  have hjobs := h.connectionInsert_jobs a flags data conid flow .encoderOperation
  have hlist : ∀ q, q ∈ (o.connectionInsert a flags data conid flow .encoderOperation).connectionsList ↔
      q = o.fresh ∨ q ∈ o.connectionsList := fun q => mem_connectionInsert ..
  have hold : ∀ q ∈ o.connectionsList,
      (o.connectionInsert a flags data conid flow .encoderOperation).con q = o.con q :=
    fun q hq => connectionInsert_old _ _ _ _ _ _ (h.ne_fresh hq)
  have hself := connectionInsert_new (o := o) a flags data conid flow .encoderOperation
  have hnojob : ∀ i ∈ o.jobs, i.con? ≠ some o.fresh :=
    fun i hi hc => h.ne_fresh (h.jobs_live i hi _ hc) rfl
  have hnone : flowJobs o.fresh o.jobs = [] := by
    apply List.eq_nil_iff_forall_not_mem.mpr
    intro j hj
    exact hnojob _ (mem_flowJobs.mp hj) rfl
  refine ⟨?_, ?_, ?_, ?_, ?_, ?_, ?_, ?_, ?_, ?_⟩
  · exact BPending.nodup_set (BPending.nodup_set h.nodup _) _
  · intro q
    rw [hlist]
    show q ∈ Client.treeInsert _ o.fresh o.connectionsTreeByConid ↔ _
    rw [hconid, Client.treeInsert, List.mem_append, List.mem_singleton, h.mem_conid, or_comm]
  · intro q hq
    rw [hlist]
    exact (mem_treeInsert hq).imp_right (h.mem_conaddr q)
  · intro q hq
    rcases (hlist q).mp hq with rfl | hq
    · exact Nat.lt_succ_self _
    · exact Nat.lt_succ_of_lt (h.fresh q hq)
  · intro j hj q hq
    rw [hjobs] at hj
    rw [hlist]
    rcases List.mem_cons.mp hj with rfl | hj
    · exact .inl (Option.some.inj hq).symm
    · rcases List.mem_cons.mp hj with rfl | hj
      · exact .inl (Option.some.inj hq).symm
      · exact .inr (h.jobs_live j hj q hq)
  · intro q hq r hr he
    rcases (hlist q).mp hq with rfl | hq
    · rcases (hlist r).mp hr with rfl | hr
      · rfl
      · rw [hself, hold r hr] at he
        exact absurd he.symm (h.conid_unused hconid r hr)
    · rcases (hlist r).mp hr with rfl | hr
      · rw [hself, hold q hq] at he
        exact absurd he (h.conid_unused hconid q hq)
      · rw [hold q hq, hold r hr] at he
        exact h.conid_inj q hq r hr he
  · intro q hq
    rw [hjobs]
    rcases (hlist q).mp hq with rfl | hq
    · rw [hself, flowJobs_cons_self, flowJobs_cons_other _ rfl, hnone]
      exact PacketProtoFlow.wired_init o.cfg.sendBufferSize_pos hflow
    · rw [hold q hq, flowJobs_cons_other _ (flowJob?_of_ne (h.ne_fresh hq).symm _), flowJobs_cons_other _ rfl]
      exact h.wired q hq
  · intro q hq
    rcases (hlist q).mp hq with rfl | hq
    · rw [hself]
      exact PacketProtoFlow.init_inputMtu hflow
    · rw [hold q hq]
      exact h.mtu q hq
  · intro q hq
    rcases (hlist q).mp hq with rfl | hq
    · rw [hself]
      exact hlen
    · rw [hold q hq]
      exact h.firstData q hq
  · intro q hq
    left
    rw [hjobs] at hq ⊢
    rcases List.mem_cons.mp hq with hq | hq
    · cases hq
    · rcases List.mem_cons.mp hq with hq | hq
      · injection hq with hq
        exact ⟨[], o.jobs, by rw [hq]; rfl⟩
      · have hpair := (h.first q hq).of_running hrun
        exact hpair.trans (List.suffix_append [_, _] o.jobs).isInfix

/-! ### Events -/

theorem Inv.recvInterfaceHandlerSend (h : Inv o) (data : List UInt8) :
    Inv (o.recvInterfaceHandlerSend data) := by
  unfold Client.recvInterfaceHandlerSend
  split
  · exact h
  · split
    · exact h
    · split
      · exact h
      · next q hfind =>
        dsimp only
        split
        · exact h
        · exact (h.touch (h.findConnectionByConid hfind).1).log _

/-- What `connection_init` does: it fails, perhaps after the search for a conid, or it
inserts a connection whose conid no lookup finds. -/
theorem connectionInit_cases {a : Conaddr} {flags : UInt8} {data : List UInt8} {alloc : Alloc} {o' : Client}
    (h : o.connectionInit a flags data alloc = some o') :
    ∃ next, (next = o.nextConid ∨ o.findUnusedConid o.maxConnections o.nextConid = some next) ∧
      (o' = {o with nextConid := next} ∨
      ∃ flow, o.findConnectionByConid (UInt16.ofNat next) = none ∧
        PacketProtoFlow.init o.udpgwMtu o.cfg.sendBufferSize = some (flow, .encoderOperation) ∧
        o' = {o with nextConid := next}.connectionInsert a flags data (UInt16.ofNat next) flow
          .encoderOperation) := by
  unfold Client.connectionInit at h
  split at h
  · cases h
    exact ⟨o.nextConid, .inl rfl, .inl rfl⟩
  · split at h
    · cases h
    · next next hnext =>
      dsimp only at h
      split at h
      · cases h
        exact ⟨next, .inr hnext, .inl rfl⟩
      · next flow j hflow =>
        split at h
        · cases h
          exact ⟨next, .inr hnext, .inl rfl⟩
        · cases h
          obtain rfl := PacketProtoFlow.init_job hflow
          exact ⟨next, .inr hnext, .inr ⟨flow, findUnusedConid_unused hnext, hflow, rfl⟩⟩

/-- The flags of a submitted packet. -/
def submitFlags (isDns : Bool) : UInt8 := if isDns then flagDns else 0

/-- What `UdpGwClient_SubmitPacket` does: it sends on the connection of the pair, on the
least recently used one after binding it to the pair, or makes a connection. -/
theorem submitPacket_cases {localAddr remoteAddr : BAddr} {isDns : Bool} {data : List UInt8} {alloc : Alloc}
    {o' : Client} (h : o.submitPacket localAddr remoteAddr isDns data alloc = some o') :
    (∃ p, o.findConnectionByConaddr ⟨localAddr, remoteAddr⟩ = some p ∧
      o' = (o.touch p).connectionSend p (submitFlags isDns) data ⟨localAddr, o.log.length⟩) ∨
    (o.findConnectionByConaddr ⟨localAddr, remoteAddr⟩ = none ∧ o.numConnections = o.maxConnections ∧
      ∃ p rest, o.connectionsList = p :: rest ∧
        o' = ((o.rebind p ⟨localAddr, remoteAddr⟩).touch p).connectionSend p
          (submitFlags isDns ||| flagRebind) data ⟨localAddr, o.log.length + 1⟩) ∨
    (o.findConnectionByConaddr ⟨localAddr, remoteAddr⟩ = none ∧ o.numConnections ≠ o.maxConnections ∧
      o.connectionInit ⟨localAddr, remoteAddr⟩ (submitFlags isDns) data alloc = some o') := by
  unfold Client.submitPacket at h
  dsimp only at h
  split at h
  · next p hfind =>
    cases h
    exact .inl ⟨p, hfind, rfl⟩
  · next hfind =>
    split at h
    · next hfull =>
      cases hlist : o.connectionsList with
      | nil =>
        simp only [Client.reuseConnection, hlist] at h
        cases h
      | cons p rest =>
        simp only [Client.reuseConnection, hlist] at h
        cases h
        refine .inr (.inl ⟨hfind, hfull, p, rest, rfl, ?_⟩)
        have hlen : (o.rebind p ⟨localAddr, remoteAddr⟩).log.length = o.log.length + 1 := by
          simp [Client.rebind]
        rw [hlen]
        rfl
    · next hroom => exact .inr (.inr ⟨hfind, hroom, h⟩)

theorem Inv.connectionInit (h : Inv o) (hrun : o.running = true) {a : Conaddr} {flags : UInt8}
    {data : List UInt8} {alloc : Alloc} {o' : Client} (hlen : data.length ≤ o.cfg.udpMtu)
    (hi : o.connectionInit a flags data alloc = some o') : Inv o' := by
  obtain ⟨next, -, rfl | ⟨flow, hconid, hflow, rfl⟩⟩ := connectionInit_cases hi
  · exact {h with}
  · exact Inv.connectionInsert (o := {o with nextConid := next}) {h with} hrun hconid hlen hflow

theorem Inv.submitPacket (h : Inv o) (hrun : o.running = true) {localAddr remoteAddr : BAddr} {isDns : Bool}
    {data : List UInt8} {alloc : Alloc} {o' : Client} (hlen : data.length ≤ o.cfg.udpMtu)
    (hs : o.submitPacket localAddr remoteAddr isDns data alloc = some o') : Inv o' := by
  have hpend : ∀ q, .first q ∈ o.jobs → [.flow q .encoderOperation, .first q] <:+: o.jobs :=
    fun q hq => (h.first q hq).of_running hrun
  rcases submitPacket_cases hs with ⟨p, hfind, rfl⟩ | ⟨-, -, p, rest, hlist, rfl⟩ | ⟨-, -, hi⟩
  · have hp := (h.findConnectionByConaddr hfind).1
    exact (h.touch hp).connectionSend ((mem_touch hp).mpr hp) hpend hlen
  · have hp : p ∈ o.connectionsList := by simp [hlist]
    exact ((h.rebind hp _).touch hp).connectionSend ((mem_touch hp).mpr hp) hpend hlen
  · exact h.connectionInit hrun hlen hi

/-- What happens when the server gets a packet. -/
theorem transmit_cases {o' : Client} (h : o.transmit p = some o') :
    o.haveServer = true ∧ p ∈ o.connectionsList ∧ (o.con p).flow.output ≠ .idle ∧
      ∃ frame frames, (o.con p).flow.buf.packets = frame :: frames ∧
        o' = {o.setFlow p {(o.con p).flow with output := .passed} with
          log := o.log ++ [.sent (o.con p).conid frame]} := by
  unfold Client.transmit at h
  dsimp only at h
  split at h
  · cases h
  · next hguard =>
    split at h
    · cases h
    · next frame frames hframes =>
      cases h
      simp only [Bool.not_eq_eq_eq_not, Bool.not_true, not_or, Bool.not_eq_false, not_not] at hguard
      exact ⟨hguard.1, hguard.2.1, hguard.2.2, frame, frames, hframes, rfl⟩

/-- What happens when the send queue is done with a packet. -/
theorem drain_cases {o' : Client} (h : o.drain p = some o') :
    p ∈ o.connectionsList ∧ (o.con p).flow.output = .passed ∧
      ∃ frame frames, (o.con p).flow.buf.packets = frame :: frames ∧
        o' = {(o.setFlow p (o.con p).flow.outputHandlerDone.1).setJob p (o.con p).flow.outputHandlerDone.2
          with log := o.log ++ [.completed (o.con p).conid frame]} := by
  unfold Client.drain at h
  dsimp only at h
  split at h
  · cases h
  · next hguard =>
    split at h
    · cases h
    · next frame frames hframes =>
      cases h
      simp only [Bool.not_eq_eq_eq_not, Bool.not_true, not_or, Bool.not_eq_false, not_not] at hguard
      exact ⟨hguard.2.1, hguard.2.2, frame, frames, hframes, rfl⟩

theorem Inv.setPassed (h : Inv o) (hsend : (o.con p).flow.output ≠ .idle) :
    Inv (o.setFlow p {(o.con p).flow with output := .passed}) := by
  refine h.con _ ?_ ?_ ?_ ?_ ?_
  · intro q
    by_cases hq : q = p <;> simp [hq]
  · intro q
    by_cases hq : q = p <;> simp [hq]
  · intro q hq
    have hw := h.wired q hq
    by_cases hqp : q = p
    · subst hqp
      rw [Function.update_self]
      exact ⟨hw.buf, hw.position, fun _ => hw.output.mp hsend, fun _ => nofun⟩
    · simpa [hqp] using hw
  · intro q
    by_cases hq : q = p <;> simp [hq]
  · intro q
    by_cases hq : q = p <;> simp [hq]

theorem Inv.disconnectServer (h : Inv o) : Inv o.disconnectServer := by
  have hcon := h.con o.disconnectServer.con ?_ ?_ ?_ ?_ ?_
  · exact {hcon with}
  · intro q
    simp only [Client.disconnectServer]
    split <;> rfl
  · intro q
    simp only [Client.disconnectServer]
    split <;> rfl
  · intro q hq
    have hw := h.wired q hq
    simp only [Client.disconnectServer]
    split
    · next hpassed => exact ⟨hw.buf, hw.position, fun _ => hw.output.mp (by simp [hpassed]), fun _ => nofun⟩
    · exact hw
  · intro q
    simp only [Client.disconnectServer]
    split <;> rfl
  · intro q
    simp only [Client.disconnectServer]
    split <;> rfl

/-- Jobs of other modules, set or unset by a running handler. -/
theorem Inv.foreign (h : Inv o) (hrun : o.running = true) {jobs : List Job} (hnd : jobs.Nodup)
    (hmem : ∀ j ∈ jobs, j.con? = none ∨ j ∈ o.jobs) (hflow : ∀ q, flowJobs q jobs = flowJobs q o.jobs)
    (hpair : ∀ q, [.flow q .encoderOperation, .first q] <:+: o.jobs →
      [.flow q .encoderOperation, .first q] <:+: jobs) : Inv {o with jobs := jobs} where
  nodup := hnd
  mem_conid := h.mem_conid
  mem_conaddr := h.mem_conaddr
  fresh := h.fresh
  jobs_live := by
    intro j hj q hq
    rcases hmem j hj with hnone | hj
    · rw [hnone] at hq
      cases hq
    · exact h.jobs_live j hj q hq
  conid_inj := h.conid_inj
  wired := fun q hq => (hflow q).symm ▸ h.wired q hq
  mtu := h.mtu
  firstData := h.firstData
  first := by
    intro q hq
    rcases hmem _ hq with hnone | hq
    · cases hnone
    · exact .inl (hpair q ((h.first q hq).of_running hrun))

theorem Inv.executeJob (h : Inv o) (hrun : o.running = false) {o' : Client} (he : o.executeJob = some o') :
    Inv o' := by
  unfold Client.executeJob at he
  split at he
  · cases he
  · next n rest hjobs =>
    cases he
    have hnd := h.nodup
    rw [hjobs] at hnd
    have hsub : ∀ j ∈ rest, j ∈ o.jobs := fun j hj => by rw [hjobs]; exact List.mem_cons_of_mem _ hj
    refine ⟨(List.nodup_cons.mp hnd).2, h.mem_conid, h.mem_conaddr, h.fresh, ?_, h.conid_inj, ?_, h.mtu,
      h.firstData, ?_⟩
    · exact fun j hj => h.jobs_live j (hsub j hj)
    · intro q hq
      have hw := h.wired q hq
      rw [hjobs, flowJobs_cons_other _ rfl] at hw
      exact hw
    · intro q hq
      exact .inl ((h.first q (hsub _ hq)).below hjobs nofun)
  · next p rest hjobs =>
    cases he
    exact h.firstJob hjobs
  · next p j rest hjobs =>
    cases he
    exact h.flowJob hjobs hrun

/-- **Every event keeps the invariant.** -/
theorem Inv.step (h : Inv o) {e : Event} {o' : Client} (hs : step o e = some o') : Inv o' := by
  unfold UdpGw.step at hs
  cases e with
  | handler =>
    dsimp only at hs
    split at hs
    · cases hs
    · next hguard =>
      cases hs
      have hjobs : o.jobs = [] := by
        by_contra hne
        exact hguard (.inr hne)
      refine {h with first := ?_}
      intro q hq
      rw [hjobs] at hq
      cases hq
  | finish =>
    dsimp only at hs
    split at hs
    · next hrun =>
      cases hs
      exact {h with first := fun q hq => .inl ((h.first q hq).of_running hrun)}
    · cases hs
  | job =>
    dsimp only at hs
    split at hs
    · cases hs
    · next hrun => exact h.executeJob (by simpa using hrun) hs
  | set n =>
    dsimp only at hs
    split at hs
    · next hrun =>
      cases hs
      refine h.foreign hrun (BPending.nodup_set h.nodup _) ?_ (fun q => flowJobs_set _ rfl) ?_
      · intro j hj
        rcases BPending.mem_set hj with rfl | hj
        · exact .inl rfl
        · exact .inr hj
      · exact fun q hq => BPending.infix_set hq nofun nofun
    · cases hs
  | unset n =>
    dsimp only at hs
    split at hs
    · next hrun =>
      cases hs
      refine h.foreign hrun (h.nodup.erase _) ?_ (fun q => BPending.filterMap_erase rfl _) ?_
      · exact fun j hj => .inr (List.mem_of_mem_erase hj)
      · exact fun q hq => BPending.infix_erase hq nofun nofun
    · cases hs
  | submit localAddr remoteAddr isDns data alloc =>
    dsimp only at hs
    split at hs
    · next hguard => exact h.submitPacket hguard.1 hguard.2.2.2 hs
    · cases hs
  | receive data =>
    dsimp only at hs
    split at hs
    · cases hs
      exact h.recvInterfaceHandlerSend data
    · cases hs
  | connect =>
    dsimp only at hs
    split at hs
    · cases hs
      exact {h with}
    · cases hs
  | disconnect =>
    dsimp only at hs
    split at hs
    · cases hs
      exact h.disconnectServer
    · cases hs
  | monitor =>
    dsimp only at hs
    split at hs
    · cases hs
      exact {h with}
    · cases hs
  | keepaliveDone =>
    dsimp only at hs
    split at hs
    · cases hs
      exact {h with}
    · cases hs
  | transmit p =>
    obtain ⟨-, -, hsend, frame, frames, -, rfl⟩ := transmit_cases hs
    exact (h.setPassed hsend).log _
  | drain p =>
    dsimp only at hs
    split at hs
    · next hrun =>
      obtain ⟨hp, hpassed, frame, frames, -, rfl⟩ := drain_cases hs
      exact (h.flowDone hp hrun (by simp [hpassed])).log _
    · cases hs

theorem inv_run {cfg : Config} {es : List Event} (h : Run.run step (init cfg) es = some o) : Inv o :=
  Run.run_invariant Inv (fun _ _ _ hinv hs => Inv.step hinv hs) h (inv_init cfg)

end TwilightLine.UdpGw
