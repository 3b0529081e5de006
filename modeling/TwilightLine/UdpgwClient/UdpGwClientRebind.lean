import TwilightLine.Lib.Trace
import TwilightLine.UdpgwClient.UdpGwClientFifo

/-! The first packet of a binding.

A server that gets a packet with the rebind flag forgets what the conid stood for. The
client sends the flag with the first packet of a new connection, from its first job,
and with the packet that reuses a connection. That packet is dropped, flag and all,
where the connection's send buffer is full: the next packet of the binding goes out
without the flag (`reuse_forgets_rebind`). -/
namespace TwilightLine.UdpGw
open Trace

/-- What an entry says about a binding and what was accepted for it. -/
def Entry.concerns (c : UInt16) : Entry → Bool
  | .bound d _ => d == c
  | .accepted d _ _ => d == c
  | _ => false

def Entry.isBound : Entry → Bool
  | .bound .. => true
  | _ => false

/-- Nothing was accepted for the conid since it was bound last. -/
def Awaiting (c : UInt16) (log : List Entry) : Prop :=
  (log.filter (Entry.concerns c)).getLast?.any Entry.isBound = true

instance (c : UInt16) (log : List Entry) : Decidable (Awaiting c log) := inferInstanceAs (Decidable (_ = _))

/-- The first packet accepted for a binding carries the rebind flag. -/
def RebindFirst (log : List Entry) : Entry → Prop
  | .accepted c flags _ => Awaiting c log → HasFlag flags flagRebind
  | _ => True

instance (log : List Entry) (e : Entry) : Decidable (RebindFirst log e) :=
  match e with
  | .accepted c flags _ => inferInstanceAs (Decidable (Awaiting c log → HasFlag flags flagRebind))
  | .bound .. | .sent .. | .completed .. | .received .. => isTrue trivial

/-- The flags of a frame: they come right behind the PacketProto header. -/
def frameFlags (frame : Packet Note) : UInt8 := frame.bytes.getD packetprotoHeaderSize 0

/-- The server gets no packet of a binding without having got, or getting with it, one of
that binding with the rebind flag. -/
def RebindSeen (log : List Entry) : Entry → Prop
  | .sent c frame => HasFlag (frameFlags frame) flagRebind ∨
      ∃ r, .sent c r ∈ log ∧ r.note.binding = frame.note.binding ∧ HasFlag (frameFlags r) flagRebind
  | _ => True

/-- A datagram that takes over a connection finds its send buffer ready, or its first job
still to come. -/
def ReuseReady (o : Client) : Event → Prop
  | .submit localAddr remoteAddr _ _ _ =>
    o.findConnectionByConaddr ⟨localAddr, remoteAddr⟩ = none → o.numConnections = o.maxConnections →
      ∀ p ∈ o.connectionsList.head?, (o.con p).flow.outHave = true ∨ .first p ∈ o.jobs
  | _ => True

instance (o : Client) (e : Event) : Decidable (ReuseReady o e) :=
  match e with
  | .submit localAddr remoteAddr _ _ _ =>
    inferInstanceAs (Decidable
      (o.findConnectionByConaddr ⟨localAddr, remoteAddr⟩ = none → o.numConnections = o.maxConnections →
        ∀ p ∈ o.connectionsList.head?, (o.con p).flow.outHave = true ∨ .first p ∈ o.jobs))
  | .handler | .finish | .job | .set _ | .unset _ | .receive _ | .connect | .disconnect | .monitor
  | .keepaliveDone | .transmit _ | .drain _ => isTrue trivial

/-! ### Bindings in the log -/

section Log
variable {c d : UInt16} {log : List Entry} {e : Entry}

theorem awaiting_bound (a : Conaddr) : Awaiting c (log ++ [.bound c a]) := by
  simp [Awaiting, Entry.concerns, Entry.isBound]

theorem not_awaiting_accepted (flags : UInt8) (packet : Packet Note) :
    ¬Awaiting c (log ++ [.accepted c flags packet]) := by
  simp [Awaiting, Entry.concerns, Entry.isBound]

theorem awaiting_other (h : e.concerns c = false) : Awaiting c (log ++ [e]) ↔ Awaiting c log := by
  simp [Awaiting, h]

end Log

/-! ### The binding invariant -/

structure Rebound (o : Client) : Prop where
  log : Always RebindFirst o.log
  /-- Only connections whose first job is pending still owe the packet. -/
  awaiting : ∀ p ∈ o.connectionsList, Awaiting (o.con p).conid o.log → .first p ∈ o.jobs

theorem rebound_init (cfg : Config) : Rebound (init cfg) where
  log := always_nil
  awaiting := nofun

variable {o o' : Client} {p q : Ptr}

/-- An entry that says nothing about bindings. -/
theorem Rebound.same (h : Rebound o) (hs : Same o o') {e : Entry} (hlog : o'.log = o.log ++ [e])
    (hkeep : ∀ c, e.concerns c = false) (hq : ∀ log, RebindFirst log e) : Rebound o' where
  log := by
    rw [hlog]
    exact always_concat.mpr ⟨h.log, hq _⟩
  awaiting := by
    intro p hp haw
    rw [hlog, awaiting_other (hkeep _), hs.conid] at haw
    exact (hs.first p).mpr (h.awaiting p ((hs.list p).mp hp) haw)

theorem Rebound.quiet (h : Rebound o) (hs : Quiet o o') : Rebound o' where
  log := hs.log ▸ h.log
  awaiting := by
    intro p hp haw
    rw [hs.log, hs.conid] at haw
    exact (hs.first p).mpr (h.awaiting p ((hs.list p).mp hp) haw)

/-- A packet is accepted: with the flag, or for a binding that does not wait for it. Only
the connection itself may have owed the packet without a first job. -/
theorem Rebound.accepted (hinv : Inv o) (hp : p ∈ o.connectionsList) {flags : UInt8} {packet : Packet Note}
    (ha : Accepted o o' p flags packet) (hlog : Always RebindFirst o.log)
    (haw : ∀ q ∈ o.connectionsList, q ≠ p → Awaiting (o.con q).conid o.log → .first q ∈ o.jobs)
    (hflag : Awaiting (o.con p).conid o.log → HasFlag flags flagRebind) : Rebound o' where
  log := by
    rw [ha.log]
    exact always_concat.mpr ⟨hlog, hflag⟩
  awaiting := by
    intro q hq hwait
    have hq' := (ha.list q).mp hq
    rw [ha.log, ha.conid] at hwait
    by_cases hqp : q = p
    · subst hqp
      exact absurd hwait (not_awaiting_accepted _ _)
    · have hother : (Entry.accepted (o.con p).conid flags packet).concerns (o.con q).conid = false := by
        rw [Entry.concerns, beq_eq_false_iff_ne]
        exact fun he => hqp (hinv.conid_inj q hq' p hp he.symm)
      rw [awaiting_other hother] at hwait
      exact (ha.first q).mpr (haw q hq' hqp hwait)

/-- `connection_send` drops the packet, or accepts it with the flags it was given. -/
theorem hasFlag_sendFlags (o : Client) (p : Ptr) {flags : UInt8} (h : HasFlag flags flagRebind) :
    HasFlag (o.sendFlags p flags) flagRebind := by
  unfold Client.sendFlags
  split
  · exact (hasFlag_or _ _ _).mpr (.inl h)
  · exact h

/-- The first job sends the packet that is owed. -/
theorem Rebound.first (h : Rebound o) (hinv : Inv o) {rest : List Job} (hjobs : o.jobs = .first p :: rest) :
    Rebound ({o with jobs := rest}.connectionFirstJobHandler p) := by
  obtain ⟨hp, hnot, hpop, -⟩ := hinv.popFirst hjobs
  have hout := hinv.first_top hjobs
  rcases connectionSend_cases (o := {o with jobs := rest}) hpop hp (flagRebind ||| (o.con p).firstFlags)
      (o.con p).firstData (o.con p).firstOrigin with ⟨hf, -⟩ | ⟨-, ha⟩
  · exact absurd (hout.symm.trans hf) nofun
  · refine Rebound.accepted hpop hp ha h.log ?_ fun _ => ?_
    · intro q hq hqp hwait
      have hmem := h.awaiting q hq hwait
      rw [hjobs] at hmem
      rcases List.mem_cons.mp hmem with he | hmem
      · injection he with he
        exact absurd he hqp
      · exact hmem
    · exact hasFlag_sendFlags _ _ ((hasFlag_or _ _ _).mpr (.inl (by decide)))

/-- A packet on a connection of the pair: what is accepted is owed nothing. -/
theorem Rebound.submit (h : Rebound o) (hinv : Inv o) (hrun : o.running = true) (hp : p ∈ o.connectionsList)
    (flags : UInt8) (data : List UInt8) (origin : Origin) :
    Rebound ((o.touch p).connectionSend p flags data origin) := by
  have hquiet := Quiet.touch hp
  have hinv' := hinv.touch hp
  have h' := h.quiet hquiet
  have hp' := (mem_touch hp).mpr hp
  rcases connectionSend_cases hinv' hp' flags data origin with ⟨-, hdrop⟩ | ⟨hout, ha⟩
  · rw [hdrop]
    exact h'
  · refine Rebound.accepted hinv' hp' ha h'.log (fun q hq _ => h'.awaiting q hq) fun hwait => ?_
    exact absurd (h'.awaiting p hp' hwait) (hinv'.first_done hp' hrun hout)

/-- A connection is reused: the packet is accepted with the flag, or the first job is
still to send it. -/
theorem Rebound.reuse (h : Rebound o) (hinv : Inv o) (hp : p ∈ o.connectionsList) (a : Conaddr)
    (hready : (o.con p).flow.outHave = true ∨ .first p ∈ o.jobs) (flags : UInt8) (data : List UInt8)
    (origin : Origin) :
    Rebound (((o.rebind p a).touch p).connectionSend p (flags ||| flagRebind) data origin) := by
  have hinv' := (hinv.rebind hp a).touch hp
  have hp' : p ∈ ((o.rebind p a).touch p).connectionsList := (mem_touch hp).mpr hp
  have hlist : ∀ q, q ∈ ((o.rebind p a).touch p).connectionsList ↔ q ∈ o.connectionsList :=
    fun q => mem_touch (o := o.rebind p a) hp
  have hlog : ((o.rebind p a).touch p).log = o.log ++ [.bound (o.con p).conid a] := rebind_log o p a
  have hconid : ∀ q, (((o.rebind p a).touch p).con q).conid = (o.con q).conid := fun q => rebind_conid o p q a
  have hfirst : Always RebindFirst ((o.rebind p a).touch p).log := by
    rw [hlog]
    exact always_concat.mpr ⟨h.log, trivial⟩
  have hothers : ∀ q ∈ ((o.rebind p a).touch p).connectionsList, q ≠ p →
      Awaiting (((o.rebind p a).touch p).con q).conid ((o.rebind p a).touch p).log →
        .first q ∈ ((o.rebind p a).touch p).jobs := by
    intro q hq hqp hwait
    rw [hlog, hconid, awaiting_other] at hwait
    · exact h.awaiting q ((hlist q).mp hq) hwait
    · rw [Entry.concerns, beq_eq_false_iff_ne]
      exact fun he => hqp (hinv.conid_inj q ((hlist q).mp hq) p hp he.symm)
  rcases connectionSend_cases hinv' hp' (flags ||| flagRebind) data origin with ⟨hout, hdrop⟩ | ⟨-, ha⟩
  · rw [hdrop]
    refine ⟨hfirst, fun q hq hwait => ?_⟩
    by_cases hqp : q = p
    · subst hqp
      rcases hready with hready | hpending
      · have hsame : (((o.rebind q a).touch q).con q).flow.outHave = (o.con q).flow.outHave := by
          show ((o.rebind q a).con q).flow.outHave = _
          rw [rebind_con, Function.update_self]
        rw [hsame] at hout
        exact absurd (hready.symm.trans hout) nofun
      · exact hpending
    · exact hothers q hq hqp hwait
  · refine Rebound.accepted hinv' hp' ha hfirst hothers fun _ => ?_
    exact hasFlag_sendFlags _ _ ((hasFlag_or _ _ _).mpr (.inr (by decide)))

/-- A new connection owes the packet and has its first job pending. -/
theorem Rebound.insert (h : Rebound o) (hinv : Inv o) {conid : UInt16}
    (hconid : o.findConnectionByConid conid = none) (a : Conaddr) (flags : UInt8) (data : List UInt8)
    (flow : PacketProtoFlow Note) (j : FlowJob) : Rebound (o.connectionInsert a flags data conid flow j) where
  log := always_concat.mpr ⟨h.log, trivial⟩
  awaiting := by
    intro q hq hwait
    rw [hinv.connectionInsert_jobs]
    rcases (mem_connectionInsert ..).mp hq with rfl | hq
    · simp
    · rw [connectionInsert_old _ _ _ _ _ _ (hinv.ne_fresh hq)] at hwait
      have hother : (Entry.bound conid a).concerns (o.con q).conid = false := by
        rw [Entry.concerns, beq_eq_false_iff_ne]
        exact (hinv.conid_unused hconid q hq).symm
      have hmem := h.awaiting q hq ((awaiting_other hother).mp hwait)
      simp [hmem]

/-- **Every event that meets the condition keeps the binding invariant.** -/
theorem Rebound.step (h : Rebound o) (hinv : Inv o) {e : Event} (hc : ReuseReady o e)
    (hs : step o e = some o') : Rebound o' := by
  cases change_of_step hinv hs with
  | quiet hq => exact h.quiet hq
  | receive hparse hfind haddr =>
    have hp := (hinv.findConnectionByConid hfind).1
    exact h.same {(Quiet.touch hp).toSame with} rfl (fun _ => rfl) fun _ => trivial
  | first hjobs => exact h.first hinv hjobs
  | submit hrun hfind => exact h.submit hinv hrun (hinv.findConnectionByConaddr hfind).1 _ _ _
  | reuse hrun hfind hfull hlist =>
    exact h.reuse hinv (by simp [hlist]) _ (hc hfind hfull _ (by simp [hlist])) _ _ _
  | @insert _ _ _ _ _ next _ hconid hflow =>
    exact Rebound.insert (o := {o with nextConid := next}) {h with} {hinv with} hconid _ _ _ _ _
  | transmit hp hframes =>
    exact h.same {Same.flow (j := none) fun _ => Iff.rfl with} rfl (fun _ => rfl)
      fun _ => trivial
  | drain hp hpassed hframes =>
    exact h.same {Same.flow fun _ => Iff.rfl with} rfl (fun _ => rfl)
      fun _ => trivial

/-! ### What the server gets -/

/-- A frame has the rebind flag or comes behind one of its binding that has it. -/
def RebindBefore (frames : List (Packet Note)) (frame : Packet Note) : Prop :=
  HasFlag (frameFlags frame) flagRebind ∨
    ∃ r ∈ frames, r.note.binding = frame.note.binding ∧ HasFlag (frameFlags r) flagRebind

structure Announced (o : Client) : Prop where
  frames : ∀ c, Always RebindBefore (acceptedFrames c o.log)
  /-- The binding of a connection waits for its first packet or has the flag accepted. -/
  bound : ∀ p ∈ o.connectionsList, Awaiting (o.con p).conid o.log ∨
    ∃ r ∈ acceptedFrames (o.con p).conid o.log,
      r.note.binding = bindings (o.con p).conid o.log ∧ HasFlag (frameFlags r) flagRebind
  seen : Always RebindSeen o.log

theorem announced_init (cfg : Config) : Announced (init cfg) where
  frames := fun _ => always_nil
  bound := nofun
  seen := always_nil

theorem bindings_concat (c : UInt16) (log : List Entry) (e : Entry) :
    bindings c (log ++ [e]) = bindings c log + bindings c [e] := List.countP_append

theorem bindings_other {c : UInt16} {e : Entry} (h : e.conid? ≠ some c) : bindings c [e] = 0 := by
  cases e <;> simp_all [bindings, Entry.conid?]

/-- The flags of an accepted frame are those of its packet. -/
theorem frameFlags_sendPacket (o : Client) (p : Ptr) (flags : UInt8) (data : List UInt8) (origin : Origin) :
    frameFlags (packetprotoFrame (o.sendPacket p flags data origin)) = o.sendFlags p flags := by
  simp [frameFlags, packetprotoFrame, Client.sendPacket, udpgwPacket, udpgwHeader, packetprotoHeaderSize, le16]

theorem Announced.quiet (h : Announced o) (hs : Quiet o o') : Announced o' where
  frames := hs.log ▸ h.frames
  bound := by
    intro p hp
    rw [hs.conid, hs.log]
    exact h.bound p ((hs.list p).mp hp)
  seen := hs.log ▸ h.seen

/-- An entry that is about no binding. -/
theorem Announced.same (h : Announced o) (hs : Same o o') {e : Entry} (hlog : o'.log = o.log ++ [e])
    (hkeep : ∀ c, e.concerns c = false) (ha : ∀ c, acceptedFrames c [e] = []) (hb : ∀ c, bindings c [e] = 0)
    (hseen : RebindSeen o.log e) : Announced o' where
  frames := by
    intro c
    rw [hlog, acceptedFrames_concat, ha, List.append_nil]
    exact h.frames c
  bound := by
    intro p hp
    rw [hs.conid, hlog, awaiting_other (hkeep _), acceptedFrames_concat, ha, List.append_nil, bindings_concat, hb,
      Nat.add_zero]
    exact h.bound p ((hs.list p).mp hp)
  seen := by
    rw [hlog]
    exact always_concat.mpr ⟨h.seen, hseen⟩

theorem Announced.send (h : Announced o) (hinv : Inv o) (hp : p ∈ o.connectionsList) {flags : UInt8}
    {data : List UInt8} {origin : Origin}
    (hlog : Always RebindFirst (o.connectionSend p flags data origin).log) :
    Announced (o.connectionSend p flags data origin) := by
  rcases connectionSend_cases hinv hp flags data origin with ⟨-, hdrop⟩ | ⟨-, ha⟩
  · rw [hdrop]
    exact h
  · have hflags := frameFlags_sendPacket o p flags data origin
    rw [ha.log] at hlog
    have howed : Awaiting (o.con p).conid o.log → HasFlag (o.sendFlags p flags) flagRebind :=
      (always_concat.mp hlog).2
    -- The frame has the flag, or one of its binding that has it was accepted before.
    have hbefore : RebindBefore (acceptedFrames (o.con p).conid o.log)
        (packetprotoFrame (o.sendPacket p flags data origin)) := by
      rcases h.bound p hp with hwait | hdone
      · exact .inl (hflags.symm ▸ howed hwait)
      · exact .inr hdone
    have hcount : ∀ c, bindings c (o.log ++ [.accepted (o.con p).conid (o.sendFlags p flags)
        (o.sendPacket p flags data origin)]) = bindings c o.log := fun c => bindings_concat ..
    refine ⟨?_, ?_, ?_⟩
    · intro c
      rw [ha.log, acceptedFrames_concat]
      by_cases hc : (o.con p).conid = c
      · subst hc
        rw [acceptedFrames_self]
        exact always_concat.mpr ⟨h.frames _, hbefore⟩
      · have hother : (Entry.accepted (o.con p).conid (o.sendFlags p flags)
            (o.sendPacket p flags data origin)).conid? ≠ some c := fun he => hc (Option.some.inj he)
        rw [acceptedFrames_other hother, List.append_nil]
        exact h.frames c
    · intro q hq
      rw [ha.log, ha.conid, hcount, acceptedFrames_concat]
      by_cases hqp : q = p
      · subst hqp
        right
        rw [acceptedFrames_self]
        rcases hbefore with hflag | ⟨r, hr, hbinding, hflag⟩
        · exact ⟨_, List.mem_append_right _ (List.mem_singleton.mpr rfl), rfl, hflag⟩
        · exact ⟨r, List.mem_append_left _ hr, hbinding, hflag⟩
      · have hq' := (ha.list q).mp hq
        have hne : (o.con p).conid ≠ (o.con q).conid := fun he => hqp (hinv.conid_inj q hq' p hp he.symm)
        have hother : (Entry.accepted (o.con p).conid (o.sendFlags p flags)
            (o.sendPacket p flags data origin)).concerns (o.con q).conid = false :=
          beq_eq_false_iff_ne.mpr hne
        have hother' : (Entry.accepted (o.con p).conid (o.sendFlags p flags)
            (o.sendPacket p flags data origin)).conid? ≠ some (o.con q).conid := fun he => hne (Option.some.inj he)
        rw [awaiting_other hother, acceptedFrames_other hother', List.append_nil]
        exact h.bound q hq'
    · rw [ha.log]
      exact always_concat.mpr ⟨h.seen, trivial⟩

/-- A conid is bound: its binding waits for the first packet. -/
theorem Announced.entry_bound {log : List Entry} (hframes : ∀ c, Always RebindBefore (acceptedFrames c log))
    (hseen : Always RebindSeen log) (conid : UInt16) (a : Conaddr) :
    (∀ c, Always RebindBefore (acceptedFrames c (log ++ [.bound conid a]))) ∧
      Always RebindSeen (log ++ [.bound conid a]) := by
  refine ⟨fun c => ?_, always_concat.mpr ⟨hseen, trivial⟩⟩
  have hnone : acceptedFrames c [.bound conid a] = [] := rfl
  rw [acceptedFrames_concat, hnone, List.append_nil]
  exact hframes c

/-- The binding of another connection is not touched. -/
theorem Announced.bound_other (h : Announced o) (hq : q ∈ o.connectionsList) {conid : UInt16}
    (hne : conid ≠ (o.con q).conid) (a : Conaddr) :
    Awaiting (o.con q).conid (o.log ++ [.bound conid a]) ∨
      ∃ r ∈ acceptedFrames (o.con q).conid (o.log ++ [.bound conid a]),
        r.note.binding = bindings (o.con q).conid (o.log ++ [.bound conid a]) ∧
          HasFlag (frameFlags r) flagRebind := by
  have hnone : acceptedFrames (o.con q).conid [.bound conid a] = [] := rfl
  have hother : (Entry.bound conid a).concerns (o.con q).conid = false := beq_eq_false_iff_ne.mpr hne
  have hother' : (Entry.bound conid a).conid? ≠ some (o.con q).conid := fun he => hne (Option.some.inj he)
  rw [awaiting_other hother, acceptedFrames_concat, hnone, List.append_nil, bindings_concat,
    bindings_other hother']
  exact h.bound q hq

theorem Announced.rebind (h : Announced o) (hinv : Inv o) (hp : p ∈ o.connectionsList) (a : Conaddr) :
    Announced (o.rebind p a) := by
  obtain ⟨hframes, hseen⟩ := Announced.entry_bound h.frames h.seen (o.con p).conid a
  refine ⟨by rw [rebind_log]; exact hframes, ?_, by rw [rebind_log]; exact hseen⟩
  intro q hq
  rw [rebind_conid, rebind_log]
  by_cases hqp : q = p
  · subst hqp
    exact .inl (awaiting_bound a)
  · exact h.bound_other hq (fun he => hqp (hinv.conid_inj q hq p hp he.symm)) a

theorem Announced.insert (h : Announced o) (hinv : Inv o) {conid : UInt16}
    (hconid : o.findConnectionByConid conid = none) (a : Conaddr) (flags : UInt8) (data : List UInt8)
    (flow : PacketProtoFlow Note) (j : FlowJob) : Announced (o.connectionInsert a flags data conid flow j) := by
  obtain ⟨hframes, hseen⟩ := Announced.entry_bound h.frames h.seen conid a
  refine ⟨hframes, ?_, hseen⟩
  intro q hq
  show Awaiting _ (o.log ++ [.bound conid a]) ∨ _
  rcases (mem_connectionInsert ..).mp hq with rfl | hq
  · rw [connectionInsert_new]
    exact .inl (awaiting_bound a)
  · rw [connectionInsert_old _ _ _ _ _ _ (hinv.ne_fresh hq)]
    exact h.bound_other hq (hinv.conid_unused hconid q hq).symm a

/-- The server gets a frame that is announced: those accepted before it have left. -/
theorem Announced.sent (h : Announced o) (hfifo : Fifo o) (hp : p ∈ o.connectionsList) {frame : Packet Note}
    {frames : List (Packet Note)} (hframes : (o.con p).flow.buf.packets = frame :: frames) :
    RebindSeen o.log (.sent (o.con p).conid frame) := by
  have horder := hfifo.order p hp
  obtain ⟨rest, hrest⟩ := PacketProtoFlow.toSend_cons (flowJobs p o.jobs) hframes
  rw [Client.toSend, hrest] at horder
  rcases h.frames _ _ _ _ horder with hflag | ⟨r, hr, hbinding, hflag⟩
  · exact .inl hflag
  · exact .inr ⟨r, hfifo.done _ r hr, hbinding, hflag⟩

theorem Announced.step (h : Announced o) (hinv : Inv o) (hfifo : Fifo o) {e : Event} (hs : step o e = some o')
    (hafter : Rebound o') : Announced o' := by
  cases change_of_step hinv hs with
  | quiet hq => exact h.quiet hq
  | receive hparse hfind haddr =>
    have hsame := (Quiet.touch (hinv.findConnectionByConid hfind).1).toSame
    exact h.same {hsame with} rfl (fun _ => rfl) (fun _ => rfl) (fun _ => rfl) trivial
  | @first _ rest hjobs =>
    obtain ⟨hp, -, hpop, -⟩ := hinv.popFirst hjobs
    exact Announced.send (o := {o with jobs := rest}) {h with} hpop hp hafter.log
  | submit hrun hfind =>
    have hp := (hinv.findConnectionByConaddr hfind).1
    exact (h.quiet (.touch hp)).send (hinv.touch hp) ((mem_touch hp).mpr hp) hafter.log
  | @reuse _ _ _ _ _ p _ hrun hfind hfull hlist =>
    have hp : p ∈ o.connectionsList := by simp [hlist]
    exact ((h.rebind hinv hp _).quiet (.touch hp)).send ((hinv.rebind hp _).touch hp) ((mem_touch hp).mpr hp)
      hafter.log
  | @insert _ _ _ _ _ next _ hconid hflow =>
    exact Announced.insert (o := {o with nextConid := next}) {h with} {hinv with} hconid _ _ _ _ _
  | transmit hp hframes =>
    exact h.same {Same.flow (j := none) fun _ => Iff.rfl with} rfl (fun _ => rfl)
      (fun _ => rfl) (fun _ => rfl) (h.sent hfifo hp hframes)
  | drain hp hpassed hframes =>
    exact h.same {Same.flow fun _ => Iff.rfl with} rfl (fun _ => rfl) (fun _ => rfl)
      (fun _ => rfl) trivial

/-- **Where every datagram that takes over a connection finds its send buffer ready, the
first packet accepted for a binding carries the rebind flag, and the server gets no
packet of a binding before one with the flag.** -/
theorem rebind_first {cfg : Config} {es : List Event} (h : Run.run step (init cfg) es = some o)
    (hready : Run.AllSteps step ReuseReady (init cfg) es) :
    Always RebindFirst o.log ∧ Always RebindSeen o.log := by
  have hall : (Inv o ∧ Fifo o) ∧ Rebound o ∧ Announced o := by
    refine Run.run_invariant_of (fun o => (Inv o ∧ Fifo o) ∧ Rebound o ∧ Announced o) ?_ h hready
      ⟨⟨inv_init cfg, fifo_init cfg⟩, rebound_init cfg, announced_init cfg⟩
    intro s e s' hi hc hs
    obtain ⟨⟨hinv, hfifo⟩, hrebound, hannounced⟩ := hi
    have hafter := hrebound.step hinv hc hs
    exact ⟨⟨hinv.step hs, hfifo.step hinv hs⟩, hafter, hannounced.step hinv hfifo hs hafter⟩
  exact ⟨hall.2.1.log, hall.2.2.seen⟩

/-- Two datagrams fill the send buffer. The datagram of another local address takes the
connection over and is dropped, and so is its flag. -/
def droppedReuse : List Event :=
  submitRun (.ipv4 1 1) (.ipv4 9 1) 7 ++ submitRun (.ipv4 1 1) (.ipv4 9 1) 2 ++
    submitRun (.ipv4 2 1) (.ipv4 9 1) 0 ++
    [.handler, .connect, .transmit 0, .drain 0, .transmit 0, .drain 0, .finish, .job, .job] ++
    submitRun (.ipv4 2 1) (.ipv4 9 1) 0

theorem reuse_forgets_rebind : ¬∀ (cfg : Config) (es : List Event) (o : Client),
    Run.run step (init cfg) es = some o → Always RebindFirst o.log ∧ Always RebindSeen o.log := by
  intro hall
  have hrun : (Run.run step (init oneConnection) droppedReuse).any
      (fun o => decide (¬Always RebindFirst o.log)) = true := by decide +kernel
  obtain ⟨o, ho, hlog⟩ := (Option.any_eq_true _ _).mp hrun
  exact of_decide_eq_true hlog (hall _ _ o ho).1

/-- A connection is reused while its send buffer has room. -/
def readyReuse : List Event :=
  submitRun (.ipv4 1 1) (.ipv4 9 1) 7 ++ submitRun (.ipv4 2 1) (.ipv4 9 1) 2

theorem rebind_first_readyReuse : ∃ o, Run.run step (init oneConnection) readyReuse = some o ∧
    o.log.length = 4 ∧ Always RebindFirst o.log ∧ Always RebindSeen o.log := by
  have hrun : (Run.run step (init oneConnection) readyReuse).any (fun o => o.log.length = 4) = true := by
    decide +kernel
  have hready : Run.AllSteps step ReuseReady (init oneConnection) readyReuse := by decide +kernel
  obtain ⟨o, ho, hlen⟩ := (Option.any_eq_true _ _).mp hrun
  exact ⟨o, ho, of_decide_eq_true hlen, rebind_first ho hready⟩

end TwilightLine.UdpGw
