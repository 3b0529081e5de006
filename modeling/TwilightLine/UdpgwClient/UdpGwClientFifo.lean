import TwilightLine.UdpgwClient.UdpGwClientChanges

/-! Send buffers are queues.

The frames accepted for a conid are those that left the send buffer of its connection
followed by those that are still in it, in order, and the server got every frame that
left (`Fifo`). -/
namespace TwilightLine.UdpGw

/-- The frames of the packets accepted for a conid. -/
def acceptedFrames (c : UInt16) (log : List Entry) : List (Packet Note) :=
  log.filterMap fun
    | .accepted d _ packet => if d = c then some (packetprotoFrame packet) else none
    | _ => none

/-- The frames that left the send buffer. -/
def completedFrames (c : UInt16) (log : List Entry) : List (Packet Note) :=
  log.filterMap fun
    | .completed d frame => if d = c then some frame else none
    | _ => none

/-- The conid of an entry of a connection. -/
def Entry.conid? : Entry → Option UInt16
  | .bound c _ => some c
  | .accepted c _ _ => some c
  | .sent c _ => some c
  | .completed c _ => some c
  | .received .. => none

structure Fifo (o : Client) : Prop where
  order : ∀ p ∈ o.connectionsList,
    acceptedFrames (o.con p).conid o.log = completedFrames (o.con p).conid o.log ++ o.toSend p
  /-- The server got what left a send buffer. -/
  done : ∀ c, ∀ frame ∈ completedFrames c o.log, .sent c frame ∈ o.log
  /-- It has got the oldest frame of a connection that waits for the completion. -/
  passed : ∀ p ∈ o.connectionsList, (o.con p).flow.output = .passed →
    ∃ frame, (o.con p).flow.buf.packets.head? = some frame ∧ .sent (o.con p).conid frame ∈ o.log
  /-- Nothing is logged for a conid that no connection has. -/
  known : ∀ e ∈ o.log, ∀ c, e.conid? = some c → ∃ p ∈ o.connectionsList, (o.con p).conid = c

theorem fifo_init (cfg : Config) : Fifo (init cfg) where
  order := nofun
  done := nofun
  passed := nofun
  known := nofun

section Log
variable {c d : UInt16} {log : List Entry} {e : Entry}

theorem acceptedFrames_concat (c : UInt16) (log : List Entry) (e : Entry) :
    acceptedFrames c (log ++ [e]) = acceptedFrames c log ++ acceptedFrames c [e] := List.filterMap_append

theorem completedFrames_concat (c : UInt16) (log : List Entry) (e : Entry) :
    completedFrames c (log ++ [e]) = completedFrames c log ++ completedFrames c [e] := List.filterMap_append

@[simp] theorem acceptedFrames_self (c : UInt16) (flags : UInt8) (packet : Packet Note) :
    acceptedFrames c [.accepted c flags packet] = [packetprotoFrame packet] := by simp [acceptedFrames]

@[simp] theorem completedFrames_self (c : UInt16) (frame : Packet Note) :
    completedFrames c [.completed c frame] = [frame] := by simp [completedFrames]

theorem acceptedFrames_other (h : e.conid? ≠ some c) : acceptedFrames c [e] = [] := by
  cases e <;> simp_all [acceptedFrames, Entry.conid?]

theorem completedFrames_other (h : e.conid? ≠ some c) : completedFrames c [e] = [] := by
  cases e <;> simp_all [completedFrames, Entry.conid?]

/-- A conid that is not in the log has no frames. -/
theorem frames_of_unknown (h : ∀ e ∈ log, e.conid? ≠ some c) :
    acceptedFrames c log = [] ∧ completedFrames c log = [] := by
  induction log with
  | nil => exact ⟨rfl, rfl⟩
  | cons e log ih =>
    obtain ⟨ha, hc⟩ := ih fun e' he' => h e' (List.mem_cons_of_mem _ he')
    have he := h e (List.mem_cons_self ..)
    rw [← List.singleton_append]
    constructor
    · rw [acceptedFrames, List.filterMap_append]
      exact (congrArg₂ _ (acceptedFrames_other he) ha).trans rfl
    · rw [completedFrames, List.filterMap_append]
      exact (congrArg₂ _ (completedFrames_other he) hc).trans rfl

end Log

variable {o o' : Client} {p q : Ptr}

theorem Fifo.quiet (h : Fifo o) (hs : Quiet o o') : Fifo o' where
  order := by
    intro p hp
    have hp' := (hs.list p).mp hp
    rw [hs.conid, hs.log, hs.toSend p hp']
    exact h.order p hp'
  done := hs.log ▸ h.done
  passed := by
    intro p hp hpassed
    have hp' := (hs.list p).mp hp
    obtain ⟨hbefore, hhead⟩ := hs.output p hp' hpassed
    rw [hhead, hs.conid, hs.log]
    exact h.passed p hp' hbefore
  known := by
    intro e he c hc
    rw [hs.log] at he
    obtain ⟨p, hp, hpc⟩ := h.known e he c hc
    exact ⟨p, (hs.list p).mpr hp, (hs.conid p).trans hpc⟩

/-- An entry is added that is neither of an accepted nor of a completed frame. -/
theorem Fifo.note (h : Fifo o) (hs : o'.connectionsList = o.connectionsList)
    (hconid : ∀ p, (o'.con p).conid = (o.con p).conid) (htoSend : ∀ p, o'.toSend p = o.toSend p)
    (hpassed : ∀ p ∈ o.connectionsList, (o'.con p).flow.output = .passed →
      ∃ frame, (o'.con p).flow.buf.packets.head? = some frame ∧ .sent (o.con p).conid frame ∈ o'.log)
    {e : Entry} (hlog : o'.log = o.log ++ [e]) (ha : ∀ c, acceptedFrames c [e] = [])
    (hd : ∀ c, completedFrames c [e] = [])
    (hk : ∀ c, e.conid? = some c → ∃ p ∈ o.connectionsList, (o.con p).conid = c) : Fifo o' where
  order := by
    intro p hp
    rw [hs] at hp
    rw [hconid, hlog, acceptedFrames_concat, completedFrames_concat, ha, hd, List.append_nil, List.append_nil,
      htoSend]
    exact h.order p hp
  done := by
    intro c frame hf
    rw [hlog, completedFrames_concat, hd, List.append_nil] at hf
    rw [hlog]
    exact List.mem_append_left _ (h.done c frame hf)
  passed := by
    intro p hp hp'
    rw [hs] at hp
    rw [hconid]
    exact hpassed p hp hp'
  known := by
    intro e' he c hc
    rw [hlog] at he
    have hex : ∃ p ∈ o.connectionsList, (o.con p).conid = c := by
      rcases List.mem_append.mp he with he | he
      · exact h.known e' he c hc
      · rw [List.mem_singleton.mp he] at hc
        exact hk c hc
    obtain ⟨p, hp, hpc⟩ := hex
    exact ⟨p, hs ▸ hp, (hconid p).trans hpc⟩

theorem Fifo.accepted (h : Fifo o) (hinv : Inv o) (hp : p ∈ o.connectionsList) {flags : UInt8}
    {packet : Packet Note} (ha : Accepted o o' p flags packet) : Fifo o' where
  order := by
    intro q hq
    have hq' := (ha.list q).mp hq
    rw [ha.conid, ha.log, acceptedFrames_concat, completedFrames_concat]
    have hnone : completedFrames (o.con q).conid [.accepted (o.con p).conid flags packet] = [] := rfl
    rw [hnone, List.append_nil, h.order q hq']
    by_cases hqp : q = p
    · subst hqp
      rw [ha.toSend_self, acceptedFrames_self, List.append_assoc]
    · have hother : (Entry.accepted (o.con p).conid flags packet).conid? ≠ some (o.con q).conid :=
        fun he => hqp (hinv.conid_inj q hq' p hp (Option.some.inj he).symm)
      rw [acceptedFrames_other hother, ha.toSend q hq' hqp, List.append_nil]
  done := by
    intro c frame hf
    rw [ha.log, completedFrames_concat] at hf
    have hnone : completedFrames c [.accepted (o.con p).conid flags packet] = [] := rfl
    rw [hnone, List.append_nil] at hf
    rw [ha.log]
    exact List.mem_append_left _ (h.done c frame hf)
  passed := by
    intro q hq hpassed
    obtain ⟨hout, hbuf⟩ := ha.output q
    rw [hout] at hpassed
    obtain ⟨frame, hhead, hsent⟩ := h.passed q ((ha.list q).mp hq) hpassed
    rw [hbuf, ha.conid, ha.log]
    exact ⟨frame, hhead, List.mem_append_left _ hsent⟩
  known := by
    intro e he c hc
    rw [ha.log] at he
    rcases List.mem_append.mp he with he | he
    · obtain ⟨q, hq, hqc⟩ := h.known e he c hc
      exact ⟨q, (ha.list q).mpr hq, (ha.conid q).trans hqc⟩
    · rw [List.mem_singleton.mp he] at hc
      exact ⟨p, (ha.list p).mpr hp, (ha.conid p).trans (Option.some.inj hc)⟩

theorem Fifo.send (h : Fifo o) (hinv : Inv o) (hp : p ∈ o.connectionsList) (flags : UInt8) (data : List UInt8)
    (origin : Origin) : Fifo (o.connectionSend p flags data origin) := by
  rcases connectionSend_cases hinv hp flags data origin with ⟨-, hdrop⟩ | ⟨-, ha⟩
  · rw [hdrop]
    exact h
  · exact h.accepted hinv hp ha

theorem Fifo.popFirst (h : Fifo o) {rest : List Job} (hjobs : o.jobs = .first p :: rest) :
    Fifo {o with jobs := rest} := by
  refine {h with order := ?_}
  intro q hq
  have hflow : flowJobs q o.jobs = flowJobs q rest := by rw [hjobs, flowJobs_cons_other _ rfl]
  have horder := h.order q hq
  rw [Client.toSend, hflow] at horder
  exact horder

theorem Fifo.rebind (h : Fifo o) (hp : p ∈ o.connectionsList) (a : Conaddr) : Fifo (o.rebind p a) := by
  have hflow : ∀ q, ((o.rebind p a).con q).flow = (o.con q).flow := by
    intro q
    rw [rebind_con]
    by_cases hq : q = p <;> simp [hq]
  refine h.note rfl (rebind_conid o p · a) ?_ ?_ (rebind_log o p a) (fun _ => rfl) (fun _ => rfl) ?_
  · intro q
    rw [Client.toSend, Client.toSend, hflow]
    rfl
  · intro q hq hpassed
    rw [hflow] at hpassed ⊢
    obtain ⟨frame, hhead, hsent⟩ := h.passed q hq hpassed
    rw [rebind_log]
    exact ⟨frame, hhead, List.mem_append_left _ hsent⟩
  · exact fun c hc => ⟨p, hp, Option.some.inj hc⟩

theorem Fifo.insert (h : Fifo o) (hinv : Inv o) {conid : UInt16}
    (hconid : o.findConnectionByConid conid = none) (a : Conaddr) (flags : UInt8) (data : List UInt8)
    {flow : PacketProtoFlow Note} {inputMtu numPackets : Nat}
    (hflow : PacketProtoFlow.init inputMtu numPackets = some (flow, .encoderOperation)) :
    Fifo (o.connectionInsert a flags data conid flow .encoderOperation) := by
  have hjobs := hinv.connectionInsert_jobs a flags data conid flow .encoderOperation
  have hself := connectionInsert_new (o := o) a flags data conid flow .encoderOperation
  have hold : ∀ q ∈ o.connectionsList,
      (o.connectionInsert a flags data conid flow .encoderOperation).con q = o.con q :=
    fun q hq => connectionInsert_old _ _ _ _ _ _ (hinv.ne_fresh hq)
  have hlog : (o.connectionInsert a flags data conid flow .encoderOperation).log =
      o.log ++ [.bound conid a] := rfl
  have hunknown : ∀ e ∈ o.log, e.conid? ≠ some conid := by
    intro e he hc
    obtain ⟨q, hq, hqc⟩ := h.known e he conid hc
    exact hinv.conid_unused hconid q hq hqc
  refine ⟨?_, ?_, ?_, ?_⟩
  · intro q hq
    have hnone : acceptedFrames ((o.connectionInsert a flags data conid flow .encoderOperation).con q).conid
        [.bound conid a] = [] ∧ completedFrames
          ((o.connectionInsert a flags data conid flow .encoderOperation).con q).conid [.bound conid a] = [] :=
      ⟨rfl, rfl⟩
    rw [hlog, acceptedFrames_concat, completedFrames_concat, hnone.1, hnone.2, List.append_nil, List.append_nil,
      Client.toSend, hjobs]
    rcases (mem_connectionInsert ..).mp hq with rfl | hq
    · -- The buffer of the new connection is empty.
      have hnojob : flowJobs o.fresh o.jobs = [] := by
        apply List.eq_nil_iff_forall_not_mem.mpr
        intro j hj
        exact hinv.ne_fresh (hinv.jobs_live _ (mem_flowJobs.mp hj) _ rfl) rfl
      obtain ⟨haccepted, hcompleted⟩ := frames_of_unknown hunknown
      rw [hself, flowJobs_cons_self, flowJobs_cons_other _ rfl, hnojob, haccepted, hcompleted,
        PacketProtoFlow.init_toSend hflow]
      rfl
    · rw [hold q hq, flowJobs_cons_other _ (flowJob?_of_ne (hinv.ne_fresh hq).symm _),
        flowJobs_cons_other _ rfl]
      exact h.order q hq
  · intro c frame hf
    rw [hlog, completedFrames_concat] at hf
    have hnone : completedFrames c [.bound conid a] = [] := rfl
    rw [hnone, List.append_nil] at hf
    exact List.mem_append_left _ (h.done c frame hf)
  · intro q hq hpassed
    rcases (mem_connectionInsert ..).mp hq with rfl | hq
    · rw [hself] at hpassed
      rw [PacketProtoFlow.init_output hflow] at hpassed
      cases hpassed
    · rw [hold q hq] at hpassed ⊢
      obtain ⟨frame, hhead, hsent⟩ := h.passed q hq hpassed
      exact ⟨frame, hhead, List.mem_append_left _ hsent⟩
  · intro e he c hc
    rw [hlog] at he
    rcases List.mem_append.mp he with he | he
    · obtain ⟨q, hq, hqc⟩ := h.known e he c hc
      refine ⟨q, (mem_connectionInsert ..).mpr (.inr hq), ?_⟩
      rw [hold q hq]
      exact hqc
    · rw [List.mem_singleton.mp he] at hc
      refine ⟨o.fresh, (mem_connectionInsert ..).mpr (.inl rfl), ?_⟩
      rw [hself]
      exact Option.some.inj hc

theorem Fifo.transmit (h : Fifo o) (hp : p ∈ o.connectionsList) {frame : Packet Note}
    {frames : List (Packet Note)} (hframes : (o.con p).flow.buf.packets = frame :: frames) :
    Fifo {o.setFlow p {(o.con p).flow with output := .passed} with
      log := o.log ++ [.sent (o.con p).conid frame]} := by
  refine h.note rfl ?_ ?_ ?_ rfl (fun _ => rfl) (fun _ => rfl) (fun c hc => ⟨p, hp, Option.some.inj hc⟩)
  · intro q
    by_cases hq : q = p <;> simp [Client.setFlow, hq]
  · intro q
    by_cases hq : q = p <;> simp [Client.setFlow, Client.toSend, PacketProtoFlow.toSend, hq]
  · intro q hq hpassed
    by_cases hqp : q = p
    · subst hqp
      refine ⟨frame, ?_, List.mem_append_right _ (List.mem_singleton.mpr rfl)⟩
      simp [Client.setFlow, hframes]
    · simp only [Client.setFlow, Function.update_of_ne hqp] at hpassed ⊢
      obtain ⟨f, hhead, hsent⟩ := h.passed q hq hpassed
      exact ⟨f, hhead, List.mem_append_left _ hsent⟩

theorem Fifo.drain (h : Fifo o) (hinv : Inv o) (hp : p ∈ o.connectionsList)
    (hpassed : (o.con p).flow.output = .passed) {frame : Packet Note} {frames : List (Packet Note)}
    (hframes : (o.con p).flow.buf.packets = frame :: frames) :
    Fifo {(o.setFlow p (o.con p).flow.outputHandlerDone.1).setJob p (o.con p).flow.outputHandlerDone.2 with
      log := o.log ++ [.completed (o.con p).conid frame]} := by
  have hidle : (o.con p).flow.output ≠ .idle := by simp [hpassed]
  have hsame : Same o ((o.setFlow p (o.con p).flow.outputHandlerDone.1).setJob p
      (o.con p).flow.outputHandlerDone.2) := Same.flow fun _ => Iff.rfl
  obtain ⟨f, hhead, hsend⟩ := (hinv.wired p hp).toSend_outputHandlerDone hidle
  obtain rfl : frame = f := by
    rw [hframes] at hhead
    exact Option.some.inj hhead
  refine ⟨?_, ?_, ?_, ?_⟩
  · intro q hq
    show acceptedFrames _ (o.log ++ _) = completedFrames _ (o.log ++ _) ++ _
    rw [hsame.conid q, acceptedFrames_concat, completedFrames_concat]
    have hnone : acceptedFrames (o.con q).conid [.completed (o.con p).conid frame] = [] := rfl
    rw [hnone, List.append_nil, h.order q hq]
    by_cases hqp : q = p
    · subst hqp
      rw [completedFrames_self, List.append_assoc, Client.toSend, hsend]
      simp [Client.toSend, Client.setFlow, Client.setJob, (hinv.flowJobs_done hp).2]
    · have hother : (Entry.completed (o.con p).conid frame).conid? ≠ some (o.con q).conid :=
        fun he => hqp (hinv.conid_inj q hq p hp (Option.some.inj he).symm)
      rw [completedFrames_other hother, List.append_nil]
      simp [Client.toSend, Client.setFlow, Client.setJob, hqp, flowJobs_setFlowJob_ne (Ne.symm hqp)]
  · intro c g hg
    have hg' : g ∈ completedFrames c (o.log ++ [.completed (o.con p).conid frame]) := hg
    rw [completedFrames_concat, List.mem_append] at hg'
    rcases hg' with hg' | hg'
    · exact List.mem_append_left _ (h.done c g hg')
    · -- The frame that leaves is the one that the server has got.
      by_cases hc : (o.con p).conid = c
      · subst hc
        rw [completedFrames_self, List.mem_singleton] at hg'
        subst hg'
        obtain ⟨g', hhead', hsent⟩ := h.passed p hp hpassed
        rw [hhead] at hhead'
        rw [Option.some.inj hhead']
        exact List.mem_append_left _ hsent
      · have hother : (Entry.completed (o.con p).conid frame).conid? ≠ some c :=
          fun he => hc (Option.some.inj he)
        rw [completedFrames_other hother] at hg'
        cases hg'
  · intro q hq hpassed'
    rw [show ((_ : Client).con q).conid = (o.con q).conid from hsame.conid q]
    by_cases hqp : q = p
    · subst hqp
      simp only [Client.setFlow, Client.setJob, Function.update_self] at hpassed'
      exact absurd hpassed' (PacketProtoFlow.outputHandlerDone_output _)
    · simp only [Client.setFlow, Client.setJob, Function.update_of_ne hqp] at hpassed' ⊢
      obtain ⟨f, hhead', hsent⟩ := h.passed q hq hpassed'
      exact ⟨f, hhead', List.mem_append_left _ hsent⟩
  · intro e he c hc
    have he' : e ∈ o.log ++ [.completed (o.con p).conid frame] := he
    rcases List.mem_append.mp he' with he' | he'
    · obtain ⟨q, hq, hqc⟩ := h.known e he' c hc
      exact ⟨q, hq, (hsame.conid q).trans hqc⟩
    · rw [List.mem_singleton.mp he'] at hc
      exact ⟨p, hp, (hsame.conid p).trans (Option.some.inj hc)⟩

/-- **Every event keeps the send buffers queues.** -/
theorem Fifo.step (h : Fifo o) (hinv : Inv o) {e : Event} (hs : step o e = some o') : Fifo o' := by
  cases change_of_step hinv hs with
  | quiet hq => exact h.quiet hq
  | receive hparse hfind haddr =>
    have hquiet := h.quiet (Quiet.touch (hinv.findConnectionByConid hfind).1)
    exact hquiet.note rfl (fun _ => rfl) (fun _ => rfl)
      (fun p hp hpassed => (hquiet.passed p hp hpassed).imp fun _ hf =>
        ⟨hf.1, List.mem_append_left _ hf.2⟩) rfl (fun _ => rfl) (fun _ => rfl) nofun
  | first hjobs =>
    obtain ⟨hp, -, hpop, -⟩ := hinv.popFirst hjobs
    exact (h.popFirst hjobs).send hpop hp _ _ _
  | submit hrun hfind =>
    have hp := (hinv.findConnectionByConaddr hfind).1
    exact (h.quiet (.touch hp)).send (hinv.touch hp) ((mem_touch hp).mpr hp) _ _ _
  | @reuse _ _ _ _ _ p _ hrun hfind hfull hlist =>
    have hp : p ∈ o.connectionsList := by simp [hlist]
    exact ((h.rebind hp _).quiet (.touch hp)).send ((hinv.rebind hp _).touch hp) ((mem_touch hp).mpr hp) _ _ _
  | @insert _ _ _ _ _ next _ hconid hflow =>
    exact Fifo.insert (o := {o with nextConid := next}) {h with} {hinv with} hconid _ _ _ hflow
  | transmit hp hframes => exact h.transmit hp hframes
  | drain hp hpassed hframes => exact h.drain hinv hp hpassed hframes

theorem fifo_run {cfg : Config} {es : List Event} (h : Run.run step (init cfg) es = some o) : Fifo o := by
  have hboth := Run.run_invariant (fun o => Inv o ∧ Fifo o)
    (fun _ _ _ hi hs => ⟨hi.1.step hs, hi.2.step hi.1 hs⟩) h ⟨inv_init cfg, fifo_init cfg⟩
  exact hboth.2

end TwilightLine.UdpGw
