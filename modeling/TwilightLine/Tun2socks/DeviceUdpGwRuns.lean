import TwilightLine.Tun2socks.DeviceUdpGw
import TwilightLine.Tun2socks.UdpDelivery
import TwilightLine.UdpgwClient.UdpGwClientRebind

/-! The first packet of a connection that a packet from the device makes.

Its first job lies below the job that wires the flow and above the completion of the
device read (`Waiting`). No handler comes in between: each turn of the job group runs a job
of the wiring, which pushes the next one, and then the first job. So the pointer into the
buffer is followed while the device may not write there, and the writer is ready
(`first_packet`). -/
namespace TwilightLine.DeviceUdpGw

open UdpGw (Ptr Client Job Alloc Config Inv Entry flagRebind flagIpv6 submitFlags udpgwPacket HasFlag)

/-! ### While a first job is pending -/

/-- The jobs above the first job of a connection, that many turns before it. -/
def wiring (p : Ptr) : Nat → List Job
  | 0 => []
  | 1 => [.flow p .writerOperation]
  | _ => [.flow p .encoderOperation]

/-- The connection was made for the datagram, and its first job runs after so many turns of
the job group: below the wiring of its flow and above the completion of the device read. -/
structure Waiting (t : Tun) (d : DeviceDatagram) (p : Ptr) (turns : Nat) : Prop where
  turns_le : turns ≤ 2
  running : t.client.running = false
  read : t.read = .accepted
  jobs : ∃ below, t.client.jobs = wiring p turns ++ .first p :: below ∧ readDone ∈ below ∧ ∀ q, .first q ∉ below
  ready : turns = 0 → (t.client.con p).flow.outHave = true
  pointed : t.pointed p = d.data
  conaddr : (t.client.con p).conaddr = ⟨d.localAddr, d.remoteAddr⟩
  firstFlags : (t.client.con p).firstFlags = submitFlags d.isDns
  firstData : (t.client.con p).firstData = d.data

/-- The flags of the first packet of a connection. -/
def firstPacketFlags (d : DeviceDatagram) : UInt8 :=
  let flags := flagRebind ||| submitFlags d.isDns
  if d.remoteAddr.type = 2 then flags ||| flagIpv6 else flags

/-- The first packet accepted for the conid has the rebind flag and carries the datagram. -/
def FirstAccepted (conid : UInt16) (d : DeviceDatagram) (entries : List Entry) : Prop :=
  ∃ before packet after, entries = before ++ .accepted conid (firstPacketFlags d) packet :: after ∧
    (∀ flags q, .accepted conid flags q ∉ before) ∧
      packet.bytes = udpgwPacket (firstPacketFlags d) conid d.remoteAddr d.data

theorem firstPacketFlags_rebind (d : DeviceDatagram) : HasFlag (firstPacketFlags d) flagRebind := by
  have hrebind : HasFlag flagRebind flagRebind := by decide
  have hflags := (UdpGw.hasFlag_or flagRebind (submitFlags d.isDns) flagRebind).mpr (.inl hrebind)
  unfold firstPacketFlags
  split
  · exact (UdpGw.hasFlag_or _ flagIpv6 _).mpr (.inl hflags)
  · exact hflags

variable {t t' : Tun} {d : DeviceDatagram} {p q : Ptr} {turns : Nat}

theorem Waiting.first (h : Waiting t d p turns) (hq : .first q ∈ t.client.jobs) : q = p := by
  obtain ⟨below, hjobs, -, hnone⟩ := h.jobs
  have hwiring : ∀ n, Job.first q ∉ wiring p n
    | 0 => List.not_mem_nil
    | 1 => by simp [wiring]
    | _ + 2 => by simp [wiring]
  rw [hjobs, List.mem_append, List.mem_cons] at hq
  rcases hq with hq | hq | hq
  · exact absurd hq (hwiring turns)
  · exact Job.first.inj hq
  · exact absurd hq (hnone q)

theorem Waiting.deref (h : Waiting t d p turns) : t.deref p = t.client := by
  have hsame : ({t.client.con p with firstData := t.pointed p} : UdpGw.Connection) = t.client.con p := by
    rw [h.pointed, ← h.firstData]
  rw [Tun.deref, hsame, Function.update_eq_self]

/-- What is sent to the server meanwhile. -/
def SentOnly (entries : List Entry) : Prop := ∀ e ∈ entries, ∃ c frame, e = .sent c frame

/-- While a first job is pending, the server may get packets that were accepted before, and
nothing else but the job group goes on. -/
theorem Waiting.client (h : Waiting t d p turns) {e : UdpGw.Event} (he : elsewhere e = true) {client : Client}
    (hs : UdpGw.step t.client e = some client) :
    Waiting {t with client := client} d p turns ∧ (client.con p).conid = (t.client.con p).conid ∧
      ∃ entries, SentOnly entries ∧ client.log = t.client.log ++ entries := by
  have hrun := h.running
  obtain ⟨below, hjobs, -⟩ := h.jobs
  unfold UdpGw.step at hs
  cases e with
  | handler =>
    dsimp only at hs
    rw [if_pos (.inr (by simp [hjobs]))] at hs
    cases hs
  | job => cases he
  | submit => cases he
  | finish => simp [hrun] at hs
  | set n => simp [hrun] at hs
  | unset n => simp [hrun] at hs
  | receive data => simp [hrun] at hs
  | connect => simp [hrun] at hs
  | disconnect => simp [hrun] at hs
  | monitor => simp [hrun] at hs
  | keepaliveDone => simp [hrun] at hs
  | drain q => simp [hrun] at hs
  | transmit q =>
    obtain ⟨-, -, -, frame, frames, -, rfl⟩ := UdpGw.transmit_cases hs
    refine ⟨?_, ?_, [.sent (t.client.con q).conid frame], ?_, rfl⟩
    · by_cases hqp : q = p
      · subst hqp
        refine ⟨h.turns_le, hrun, h.read, h.jobs, ?_, h.pointed, ?_, ?_, ?_⟩ <;>
          simp only [Client.setFlow, Function.update_self]
        exacts [h.ready, h.conaddr, h.firstFlags, h.firstData]
      · refine ⟨h.turns_le, hrun, h.read, h.jobs, ?_, h.pointed, ?_, ?_, ?_⟩ <;>
          simp only [Client.setFlow, Function.update_of_ne (Ne.symm hqp)]
        exacts [h.ready, h.conaddr, h.firstFlags, h.firstData]
    · by_cases hqp : p = q <;> simp [Client.setFlow, hqp]
    · intro e he
      exact ⟨_, _, List.mem_singleton.mp he⟩

theorem step_flow {j : FlowJob} {rest : List Job} (hrun : t.client.running = false)
    (hjobs : t.client.jobs = .flow p j :: rest) (alloc : Alloc) : step t (.job alloc) =
      some {t with
        client := ({t.client with jobs := rest}.setFlow p ((t.client.con p).flow.runJob j).1).setJob p
          ((t.client.con p).flow.runJob j).2} := by
  simp [step, Tun.executeJob, Client.executeJob, hrun, hjobs]

/-- A job of the wiring brings the first job one turn nearer. -/
theorem Waiting.wire (h : Waiting t d p (turns + 1)) (hinv : Inv t.client) {alloc : Alloc}
    (hs : step t (.job alloc) = some t') :
    Waiting t' d p turns ∧ (t'.client.con p).conid = (t.client.con p).conid ∧ t'.client.log = t.client.log := by
  have hle := h.turns_le
  obtain ⟨below, hjobs, hdone, hnone⟩ := h.jobs
  obtain rfl | rfl : turns = 0 ∨ turns = 1 := by omega
  · rw [step_flow h.running hjobs] at hs
    cases hs
    refine ⟨⟨by omega, h.running, h.read, ⟨below, rfl, hdone, hnone⟩, ?_, h.pointed, ?_, ?_, ?_⟩, ?_, rfl⟩ <;>
      simp only [Client.setFlow, Client.setJob, Function.update_self]
    exacts [fun _ => rfl, h.conaddr, h.firstFlags, h.firstData]
  · have hjobs : t.client.jobs = .flow p .encoderOperation :: .first p :: below := hjobs
    rw [step_flow h.running hjobs] at hs
    cases hs
    have hp : p ∈ t.client.connectionsList := hinv.jobs_live (.first p) (by simp [hjobs]) p rfl
    have hw := hinv.wired p hp
    rw [hjobs, UdpGw.flowJobs_cons_self] at hw
    have hrest := hw.jobs_single
    -- no other job of the flow is pending
    have hnew : Job.flow p .writerOperation ∉ .first p :: below := by
      intro hmem
      have := UdpGw.mem_flowJobs.mpr hmem
      rw [hrest] at this
      cases this
    refine ⟨⟨by omega, h.running, h.read, ⟨below, ?_, hdone, hnone⟩, ?_, h.pointed, ?_, ?_, ?_⟩, ?_, rfl⟩
    · exact BPending.set_of_not_mem hnew
    all_goals simp only [Client.setFlow, Client.setJob, Function.update_self]
    exacts [by rintro ⟨⟩, h.conaddr, h.firstFlags, h.firstData]

/-- **The first job accepts the packet.** -/
theorem Waiting.accept (h : Waiting t d p 0) (hinv : Inv t.client) {alloc : Alloc} (hs : step t (.job alloc) = some t') :
    (∀ q, .first q ∉ t'.client.jobs) ∧
      ∃ packet, t'.client.log = t.client.log ++ [.accepted (t.client.con p).conid (firstPacketFlags d) packet] ∧
        packet.bytes = udpgwPacket (firstPacketFlags d) (t.client.con p).conid d.remoteAddr d.data := by
  obtain ⟨below, hjobs, -, hnone⟩ := h.jobs
  have hjobs : t.client.jobs = .first p :: below := hjobs
  have hstep : step t (.job alloc) =
      some {t with client := {t.client with jobs := below}.connectionFirstJobHandler p} := by
    simp [step, Tun.executeJob, h.running, hjobs, h.deref, Client.executeJob]
  rw [hstep] at hs
  cases hs
  have hflags : Client.sendFlags {t.client with jobs := below} p (flagRebind ||| (t.client.con p).firstFlags) =
      firstPacketFlags d := by
    rw [Client.sendFlags, h.conaddr, h.firstFlags]
    rfl
  obtain ⟨hp, -, hpop, -⟩ := hinv.popFirst hjobs
  rcases UdpGw.connectionSend_cases hpop hp (flagRebind ||| (t.client.con p).firstFlags) (t.client.con p).firstData
      (t.client.con p).firstOrigin with ⟨hout, -⟩ | ⟨-, hsent⟩
  · exact absurd (hout.symm.trans (h.ready rfl)) nofun
  · refine ⟨fun q hq => hnone q ((hsent.first q).mp hq), _, hflags ▸ hsent.log, ?_⟩
    rw [Client.sendPacket, hflags, h.conaddr, h.firstData]

/-! ### Every event -/

/-- What holds in every state: a first job is pending only while the buffer is kept for it. -/
structure Borrowed (t : Tun) : Prop where
  inv : Inv t.client
  mtu : t.device.udpMtu = t.client.cfg.udpMtu
  waiting : ∀ p, .first p ∈ t.client.jobs → ∃ d turns, Waiting t d p turns

theorem borrowed_init (device : DeviceConfig) (cfg : Config) : Borrowed (init device cfg) where
  inv := UdpGw.inv_init cfg
  mtu := rfl
  waiting := nofun

/-- The job that runs is the device read, or the client's or another module's. -/
theorem executeJob_cases (h : Borrowed t) {alloc : Alloc} (hs : t.executeJob alloc = some t') :
    ∃ client, t.client.executeJob = some client ∧
      ((t.client.jobs.head? = some readOperation ∧
          {t with client := client}.deviceReadHandlerSend alloc = some t') ∨
        (t.client.jobs.head? ≠ some readOperation ∧ ∃ read, t' = {t with client := client, read := read})) := by
  unfold Tun.executeJob at hs
  split at hs
  · cases hs
  · next jobs hjobs =>
    refine ⟨_, by rw [Client.executeJob, hjobs], .inl ⟨by rw [hjobs]; rfl, hs⟩⟩
  · next jobs hjobs =>
    cases hs
    exact ⟨_, by rw [Client.executeJob, hjobs], .inr ⟨by rw [hjobs]; nofun, _, rfl⟩⟩
  · next p jobs hjobs =>
    obtain ⟨d, turns, hwait⟩ := h.waiting p (by simp [hjobs])
    rw [hwait.deref] at hs
    obtain ⟨client, hclient, rfl⟩ := Option.map_eq_some_iff.mp hs
    exact ⟨client, hclient, .inr ⟨by rw [hjobs]; nofun, _, rfl⟩⟩
  · next j jobs hread hdone hfirst hjobs =>
    obtain ⟨client, hclient, rfl⟩ := Option.map_eq_some_iff.mp hs
    refine ⟨client, hclient, .inr ⟨?_, _, rfl⟩⟩
    rw [hjobs]
    intro hj
    exact hread (Option.some.inj hj)

/-- What the device read does: it submits a datagram, or leaves the handler running. -/
theorem deviceReadHandlerSend_cases {alloc : Alloc} (hs : t.deviceReadHandlerSend alloc = some t') :
    t' = {t with client := {t.client with jobs := BPending.set readDone t.client.jobs}, read := .accepted} ∨
      ∃ d client, processDeviceUdpPacket t.device t.data = some d ∧
        Client.submitPacket {t.client with jobs := BPending.set readDone t.client.jobs} d.localAddr d.remoteAddr
          d.isDns d.data alloc = some client ∧
        t' = {t with
          client := {client with running := false}
          read := .accepted
          firstData := Function.update t.firstData t.client.fresh (payloadOffset t.data, d.data.length)} := by
  unfold Tun.deviceReadHandlerSend at hs
  dsimp only at hs
  split at hs
  · cases hs
    exact .inl rfl
  · next d hd =>
    split at hs
    · obtain ⟨client, hclient, rfl⟩ := Option.map_eq_some_iff.mp hs
      exact .inr ⟨d, client, hd, hclient, rfl⟩
    · cases hs
      exact .inl rfl

/-- What is submitted may be submitted. -/
theorem datagram_submits {cfg : DeviceConfig} {data : List UInt8} (h : processDeviceUdpPacket cfg data = some d) :
    d.localAddr.isIp ∧ d.remoteAddr.isIp ∧ d.data.length ≤ cfg.udpMtu := by
  have htypes : d.localAddr.isIp ∧ d.localAddr.type = d.remoteAddr.type :=
    of_decide_eq_true (processDeviceUdpPacket_types h)
  have hremote : d.remoteAddr.isIp := by
    have hip := htypes.1
    unfold BAddr.isIp at hip ⊢
    rwa [htypes.2] at hip
  obtain ⟨-, h⟩ := Option.ite_none_left_eq_some.mp h
  obtain ⟨d', -, h⟩ := Option.bind_eq_some_iff.mp h
  obtain ⟨hmtu, h⟩ := Option.ite_none_left_eq_some.mp h
  cases h
  exact ⟨htypes.1, hremote, not_lt.mp hmtu⟩

/-- The job of a handler starts it. -/
theorem executeJob_readOperation {o o' : Client} (hop : o.jobs.head? = some readOperation)
    (hs : o.executeJob = some o') :
    ∃ rest, o.jobs = readOperation :: rest ∧ o' = {o with jobs := rest, running := true} := by
  unfold Client.executeJob at hs
  split at hs
  · cases hs
  · next n rest hjobs =>
    cases hs
    rw [hjobs, List.head?_cons] at hop
    exact ⟨rest, by rw [hjobs, Option.some.inj hop], rfl⟩
  · next p rest hjobs =>
    rw [hjobs, List.head?_cons] at hop
    cases hop
  · next p j rest hjobs =>
    rw [hjobs, List.head?_cons] at hop
    cases hop

/-- The device read starts with two events of the client. -/
theorem run_accept {o : Client} {rest : List Job} (hrun : ¬o.running = true) (hjobs : o.jobs = readOperation :: rest) :
    Run.run UdpGw.step o [.job, .set 1] = some {o with jobs := BPending.set readDone rest, running := true} := by
  have hjob : UdpGw.step o .job = some {o with jobs := rest, running := true} := by
    rw [UdpGw.step, if_neg hrun, Client.executeJob, hjobs]
    rfl
  rw [Run.run, hjob]
  rfl

/-- **What the buffer of the device and the client do together is a run of the client.** -/
theorem client_run (h : Borrowed t) {e : Event} (hs : step t e = some t') :
    t'.device = t.device ∧ ∃ es, Run.run UdpGw.step t.client es = some t'.client := by
  unfold step at hs
  cases e with
  | client e =>
    obtain ⟨-, hs⟩ := Option.ite_none_right_eq_some.mp hs
    obtain ⟨client, hclient, rfl⟩ := Option.map_eq_some_iff.mp hs
    exact ⟨rfl, [e], by rw [Run.run, hclient]; rfl⟩
  | received dataLen =>
    obtain ⟨⟨hrun, -⟩, hs⟩ := Option.ite_none_right_eq_some.mp hs
    cases hs
    exact ⟨rfl, [.set 0], by rw [Run.run, UdpGw.step, if_pos hrun]; rfl⟩
  | write offset bytes =>
    obtain ⟨-, hs⟩ := Option.ite_none_right_eq_some.mp hs
    cases hs
    exact ⟨rfl, [], rfl⟩
  | job alloc =>
    obtain ⟨hrun, hs⟩ := Option.ite_none_left_eq_some.mp hs
    obtain ⟨client, hclient, ⟨hop, hread⟩ | ⟨-, read, rfl⟩⟩ := executeJob_cases h hs
    · obtain ⟨rest, hjobs, rfl⟩ := executeJob_readOperation hop hclient
      have haccept := run_accept hrun hjobs
      rcases deviceReadHandlerSend_cases hread with rfl | ⟨d, client, hd, hsubmit, rfl⟩
      · exact ⟨rfl, _, haccept⟩
      · obtain ⟨hlocal, hremote, hlen⟩ := datagram_submits hd
        have hguard : UdpGw.step {t.client with jobs := BPending.set readDone rest, running := true}
            (.submit d.localAddr d.remoteAddr d.isDns d.data alloc) = some client :=
          (if_pos ⟨rfl, hlocal, hremote, hlen.trans_eq h.mtu⟩).trans hsubmit
        have hfinish : UdpGw.step client .finish = some {client with running := false} :=
          if_pos (UdpGw.submitPacket_running hsubmit)
        exact ⟨rfl, _, Run.run_concat (Run.run_concat haccept hguard) hfinish⟩
    · exact ⟨rfl, [.job], by rw [Run.run, UdpGw.step, if_neg hrun, hclient]; rfl⟩

/-- What follows for the client. -/
theorem Borrowed.grows (h : Borrowed t) {e : Event} (hs : step t e = some t') :
    Inv t'.client ∧ t'.device.udpMtu = t'.client.cfg.udpMtu ∧ t.client.log <+: t'.client.log := by
  obtain ⟨hdevice, es, hrun⟩ := client_run h hs
  rw [hdevice]
  refine Run.run_invariant (fun o => Inv o ∧ t.device.udpMtu = o.cfg.udpMtu ∧ t.client.log <+: o.log) ?_ hrun
    ⟨h.inv, h.mtu, List.prefix_rfl⟩
  rintro o e o' ⟨hinv, hmtu, hlog⟩ hs
  obtain ⟨hcfg, hgrows⟩ := UdpGw.grows_of_step hinv hs
  exact ⟨hinv.step hs, hcfg ▸ hmtu, hlog.trans hgrows⟩

/-! ### The device read -/

theorem readBytes_of_readPacket {m : Lib.Memory} {n offset len : Nat} {bytes : List UInt8}
    (h : readPacket (Lib.readBytes m 0 n) offset len = some bytes) : Lib.readBytes m offset len = bytes := by
  obtain ⟨hin, h⟩ := Option.ite_none_right_eq_some.mp h
  rw [Lib.readBytes_length] at hin
  rw [Option.some.injEq, Lib.readBytes_drop _ _ (by omega), Lib.readBytes_take _ _ (by omega), Int.zero_add] at h
  exact h

theorem Waiting.not_read (h : Waiting t d p turns) : t.client.jobs.head? ≠ some readOperation := by
  obtain ⟨below, hjobs, -⟩ := h.jobs
  have hle := h.turns_le
  rw [hjobs]
  match turns with
  | 0 => nofun
  | 1 => nofun
  | 2 => nofun

/-- **A connection that the device read makes waits for its first job**: with the wiring of
its flow above, and the completion of the device read below. -/
theorem Borrowed.readJob (h : Borrowed t) (hop : t.client.jobs.head? = some readOperation) {alloc : Alloc}
    (hs : step t (.job alloc) = some t') :
    (t.client.fresh ∉ t'.client.connectionsList ∧ ∀ q, .first q ∉ t'.client.jobs) ∨
      ∃ d, processDeviceUdpPacket t.device t.data = some d ∧ Waiting t' d t.client.fresh 2 := by
  obtain ⟨hrun, hs⟩ := Option.ite_none_left_eq_some.mp hs
  obtain ⟨client, hclient, ⟨-, hread⟩ | ⟨hne, -⟩⟩ := executeJob_cases h hs
  · obtain ⟨rest, hjobs, rfl⟩ := executeJob_readOperation hop hclient
    have hinv : Inv {t.client with jobs := BPending.set readDone rest, running := true} :=
      Run.run_invariant Inv (fun _ _ _ hinv => hinv.step) (run_accept hrun hjobs) h.inv
    have hnone : ∀ q, .first q ∉ BPending.set readDone rest := by
      intro q hq
      rcases BPending.mem_set hq with hq | hq
      · cases hq
      · obtain ⟨d, turns, hwait⟩ := h.waiting q (hjobs ▸ List.mem_cons_of_mem _ hq)
        exact hwait.not_read hop
    rcases deviceReadHandlerSend_cases hread with rfl | ⟨d, client, hd, hsubmit, rfl⟩
    · exact .inl ⟨fun hmem => hinv.ne_fresh hmem rfl, hnone⟩
    · rcases UdpGw.submitPacket_first hinv hsubmit with ⟨hfresh, hfirst⟩ | ⟨next, flow, -, rfl⟩
      · exact .inl ⟨hfresh, fun q hq => hnone q (hfirst q hq)⟩
      · have hinv : Inv {t.client with jobs := BPending.set readDone rest, running := true, nextConid := next} :=
          {hinv with}
        have hstack := hinv.connectionInsert_jobs ⟨d.localAddr, d.remoteAddr⟩ (submitFlags d.isDns) d.data
          (UInt16.ofNat next) flow .encoderOperation
        have hcon := UdpGw.connectionInsert_new
          (o := {t.client with jobs := BPending.set readDone rest, running := true, nextConid := next})
          ⟨d.localAddr, d.remoteAddr⟩ (submitFlags d.isDns) d.data (UInt16.ofNat next) flow .encoderOperation
        refine .inr ⟨d, hd, le_rfl, rfl, rfl, ⟨_, hstack, List.mem_cons_self .., hnone⟩, nofun, ?_, ?_, ?_, ?_⟩
        · show Lib.readBytes t.buf (Function.update t.firstData t.client.fresh _ t.client.fresh).1
            (Function.update t.firstData t.client.fresh _ t.client.fresh).2 = d.data
          rw [Function.update_self]
          exact readBytes_of_readPacket (payload_at hd)
        · exact congrArg UdpGw.Connection.conaddr hcon
        · exact congrArg UdpGw.Connection.firstFlags hcon
        · exact congrArg UdpGw.Connection.firstData hcon
  · exact absurd hop hne

/-! ### Runs -/

/-- **Every event keeps the buffer for the first jobs that are pending.** -/
theorem Borrowed.step (h : Borrowed t) {e : Event} (hs : DeviceUdpGw.step t e = some t') : Borrowed t' := by
  obtain ⟨hinv, hmtu, -⟩ := h.grows hs
  refine ⟨hinv, hmtu, fun p hp => ?_⟩
  cases e with
  | client e =>
    obtain ⟨he, hs⟩ := Option.ite_none_right_eq_some.mp hs
    obtain ⟨client, hclient, rfl⟩ := Option.map_eq_some_iff.mp hs
    have hp := UdpGw.first_of_step h.inv hclient (by rintro l r isDns data alloc rfl; cases he) hp
    obtain ⟨d, turns, hwait⟩ := h.waiting p hp
    exact ⟨d, turns, (hwait.client he hclient).1⟩
  | received dataLen =>
    obtain ⟨⟨hrun, -⟩, hs⟩ := Option.ite_none_right_eq_some.mp hs
    cases hs
    rcases BPending.mem_set hp with hp | hp
    · cases hp
    · obtain ⟨d, turns, hwait⟩ := h.waiting p hp
      exact absurd (hrun.symm.trans hwait.running) nofun
  | write offset bytes =>
    obtain ⟨hread, hs⟩ := Option.ite_none_right_eq_some.mp hs
    cases hs
    obtain ⟨d, turns, hwait⟩ := h.waiting p hp
    exact absurd (hread.symm.trans hwait.read) nofun
  | job alloc =>
    by_cases hop : t.client.jobs.head? = some readOperation
    · rcases h.readJob hop hs with ⟨-, hnone⟩ | ⟨d, -, hwait⟩
      · exact absurd hp (hnone p)
      · exact ⟨d, 2, (hwait.first hp).symm ▸ hwait⟩
    · have hjob := hs
      obtain ⟨hrun, hs⟩ := Option.ite_none_left_eq_some.mp hs
      obtain ⟨client, hclient, ⟨hop', -⟩ | ⟨-, read, rfl⟩⟩ := executeJob_cases h hs
      · exact absurd hop' hop
      · have hstep : UdpGw.step t.client .job = some client := (if_neg hrun).trans hclient
        obtain ⟨d, turns, hwait⟩ := h.waiting p (UdpGw.first_of_step h.inv hstep nofun hp)
        cases turns with
        | zero => exact absurd hp ((hwait.accept h.inv hjob).1 p)
        | succ turns => exact ⟨d, turns, (hwait.wire h.inv hjob).1⟩

theorem borrowed_run {device : DeviceConfig} {cfg : Config} {es : List Event}
    (h : Run.run step (init device cfg) es = some t) : Borrowed t :=
  Run.run_invariant Borrowed (fun _ _ _ hb hs => hb.step hs) h (borrowed_init device cfg)

theorem jobsRun_job (alloc : Alloc) (es : List Event) : jobsRun (.job alloc :: es) = jobsRun es + 1 :=
  List.countP_cons_of_pos rfl

theorem jobsRun_client (e : UdpGw.Event) (es : List Event) : jobsRun (.client e :: es) = jobsRun es :=
  List.countP_cons_of_neg nofun

theorem FirstAccepted.sent {conid : UInt16} {entries sent : List Entry} (h : FirstAccepted conid d entries)
    (hsent : SentOnly sent) : FirstAccepted conid d (sent ++ entries) := by
  obtain ⟨before, packet, after, rfl, hno, hbytes⟩ := h
  refine ⟨sent ++ before, packet, after, by rw [List.append_assoc], ?_, hbytes⟩
  intro flags q hq
  rcases List.mem_append.mp hq with hq | hq
  · obtain ⟨c, frame, he⟩ := hsent _ hq
    cases he
  · exact hno flags q hq

/-- A job can run while a first job is pending. -/
theorem Waiting.next (h : Waiting t d p turns) (alloc : Alloc) : (step t (.job alloc)).isSome := by
  obtain ⟨below, hjobs, -⟩ := h.jobs
  have hle := h.turns_le
  match turns with
  | 0 =>
    have hjobs : t.client.jobs = .first p :: below := hjobs
    simp [step, Tun.executeJob, Client.executeJob, h.running, hjobs, h.deref]
  | 1 => rw [step_flow h.running hjobs]; rfl
  | 2 => rw [step_flow h.running hjobs]; rfl

/-- What becomes of a first packet, counted in turns of the job group. -/
theorem Waiting.run (h : Waiting t d p turns) (hb : Borrowed t) {es : List Event} {u : Tun}
    (hrun : Run.run DeviceUdpGw.step t es = some u) :
    (jobsRun es ≤ turns → Waiting u d p (turns - jobsRun es)) ∧
      (turns < jobsRun es → ∃ entries, u.client.log = t.client.log ++ entries ∧
        FirstAccepted (t.client.con p).conid d entries) := by
  induction es generalizing t turns with
  | nil =>
    cases hrun
    exact ⟨fun _ => h, fun hlt => absurd hlt (Nat.not_lt_zero _)⟩
  | cons e rest ih =>
    obtain ⟨t', hs, hrest⟩ := Run.run_cons hrun
    have hb' := hb.step hs
    cases e with
    | client e =>
      obtain ⟨he, hs⟩ := Option.ite_none_right_eq_some.mp hs
      obtain ⟨client, hclient, rfl⟩ := Option.map_eq_some_iff.mp hs
      obtain ⟨hwait, hconid, sent, hsent, hlog⟩ := h.client he hclient
      obtain ⟨hwaits, haccepts⟩ := ih hwait hb' hrest
      rw [jobsRun_client]
      refine ⟨hwaits, fun hlt => ?_⟩
      obtain ⟨entries, hu, hfirst⟩ := haccepts hlt
      refine ⟨sent ++ entries, ?_, hconid ▸ hfirst.sent hsent⟩
      rw [hu, ← List.append_assoc, ← hlog]
    | received dataLen =>
      obtain ⟨⟨hrunning, -⟩, -⟩ := Option.ite_none_right_eq_some.mp hs
      exact absurd (hrunning.symm.trans h.running) nofun
    | write offset bytes =>
      obtain ⟨hread, -⟩ := Option.ite_none_right_eq_some.mp hs
      exact absurd (hread.symm.trans h.read) nofun
    | job alloc =>
      rw [jobsRun_job]
      cases turns with
      | zero =>
        obtain ⟨-, packet, hlog, hbytes⟩ := h.accept hb.inv hs
        refine ⟨fun hle => absurd hle (Nat.not_succ_le_zero _), fun _ => ?_⟩
        obtain ⟨after, hafter⟩ := Run.run_invariant (fun v => Borrowed v ∧ t'.client.log <+: v.client.log)
          (fun _ _ _ hv hs => ⟨hv.1.step hs, hv.2.trans (hv.1.grows hs).2.2⟩) hrest ⟨hb', List.prefix_rfl⟩ |>.2
        refine ⟨.accepted (t.client.con p).conid (firstPacketFlags d) packet :: after, ?_, [], packet, after, rfl, nofun,
          hbytes⟩
        rw [← hafter, hlog, List.append_assoc]
        rfl
      | succ turns =>
        obtain ⟨hwait, hconid, hlog⟩ := h.wire hb.inv hs
        obtain ⟨hwaits, haccepts⟩ := ih hwait hb' hrest
        rw [Nat.add_sub_add_right, Nat.add_le_add_iff_right, Nat.add_lt_add_iff_right, ← hlog, ← hconid]
        exact ⟨hwaits, haccepts⟩

/-- What a connection made for the datagram can rely on: its first job runs in the third turn
of the job group. Two turns wire the flow, and until then the completion of the device read
is pending below and the pointer gives the bytes that were submitted. The job accepts them. -/
def FirstPacketKept (t : Tun) (d : DeviceDatagram) (p : Ptr) : Prop :=
  ∀ es u, Run.run step t es = some u →
    (jobsRun es ≤ 2 → Waiting u d p (2 - jobsRun es) ∧ ∀ alloc, (step u (.job alloc)).isSome) ∧
      (2 < jobsRun es → ∃ entries, u.client.log = t.client.log ++ entries ∧
        FirstAccepted (t.client.con p).conid d entries)

/-- **The first packet of every fresh connection is accepted with the rebind flag**, and with
the bytes that were submitted. -/
theorem first_packet {device : DeviceConfig} {cfg : Config} {es : List Event} {alloc : Alloc}
    (h : Run.run step (init device cfg) es = some t) (hop : t.client.jobs.head? = some readOperation)
    (hs : step t (.job alloc) = some t') (hnew : t.client.fresh ∈ t'.client.connectionsList) :
    ∃ d, processDeviceUdpPacket t.device t.data = some d ∧ HasFlag (firstPacketFlags d) flagRebind ∧
      FirstPacketKept t' d t.client.fresh := by
  have hb := borrowed_run h
  rcases hb.readJob hop hs with ⟨hno, -⟩ | ⟨d, hd, hwait⟩
  · exact absurd hnew hno
  · refine ⟨d, hd, firstPacketFlags_rebind d, fun es u hrun => ?_⟩
    obtain ⟨hwaits, haccepts⟩ := hwait.run (hb.step hs) hrun
    exact ⟨fun hle => ⟨hwaits hle, (hwaits hle).next⟩, haccepts⟩

/-- A client for datagrams of a byte. -/
def oneByte : Config := {UdpGw.oneConnection with udpMtu := 1, mtu_le := by decide}

/-- The device writes a packet with a datagram of one byte, and the buffer sends it. -/
def readRun : List Event :=
  [.write 0 (deviceUdpPacket4 9 1 1 1 [7]), .client .handler, .received 29, .client .finish]

theorem first_packet_readRun : ∃ t t' d, Run.run step (init ⟨.udpgw, 1500, 0, false, 1, false⟩ oneByte) readRun = some t ∧
    step t (.job ⟨true, true⟩) = some t' ∧ processDeviceUdpPacket t.device t.data = some d ∧
      HasFlag (firstPacketFlags d) flagRebind ∧ FirstPacketKept t' d t.client.fresh := by
  have hreads : ((Run.run step (init ⟨.udpgw, 1500, 0, false, 1, false⟩ oneByte) readRun).bind fun t =>
      (step t (.job ⟨true, true⟩)).map fun t' => decide (t.client.jobs.head? = some readOperation ∧
        t.client.fresh ∈ t'.client.connectionsList)) = some true := by decide +kernel
  obtain ⟨t, ht, hreads⟩ := Option.bind_eq_some_iff.mp hreads
  obtain ⟨t', ht', hreads⟩ := Option.map_eq_some_iff.mp hreads
  obtain ⟨hop, hnew⟩ := of_decide_eq_true hreads
  obtain ⟨d, hd⟩ := first_packet ht hop ht' hnew
  exact ⟨t, t', d, ht, ht', hd⟩

end TwilightLine.DeviceUdpGw
