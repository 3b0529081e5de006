import TwilightLine.UdpgwClient.UdpGwClientFifo

/-! The client and a udpgw server.

The server answers a packet that it got with packets that carry the same conid and the
same remote address, and the stream keeps their order. A reply carries no local
address: the client hands it to the local address that the conid stands for when the
reply arrives. A conid that was bound to another local address and the same remote one
while the reply was on its way sends it there (`reply_crosses_rebind`); nothing else
does (`handed_local`). -/
namespace TwilightLine.UdpGw

/-- The conid and the remote address of a packet. -/
def carries (bytes : List UInt8) : Option (UInt16 × BAddr) :=
  (parseUdpgw bytes).map fun packet => (packet.conid, packet.remoteAddr)

/-- A packet of the server, and the origin of the datagram that it answers. -/
structure Reply where
  bytes : List UInt8
  cause : Origin
  deriving DecidableEq, Repr

/-- A call of `handler_received` for a reply, with what the client had logged since the
datagram was submitted. -/
structure Handover where
  reply : Reply
  localAddr : BAddr
  remoteAddr : BAddr
  data : List UInt8
  since : List Entry
  deriving DecidableEq, Repr

structure System where
  client : Client
  /-- The frames that the server has got. -/
  got : List (Packet Note)
  /-- The replies on their way, oldest first. -/
  stream : List Reply
  handed : List Handover

def systemInit (cfg : Config) : System := ⟨init cfg, [], [], []⟩

inductive SystemEvent where
  | client (e : Event)
  /-- The server answers a packet that it has got. -/
  | serve (i : Nat) (reply : List UInt8)
  /-- The oldest reply arrives. -/
  | deliver

def Event.isReceive : Event → Bool
  | .receive _ => true
  | _ => false

/-- What an event of the client does to the server and the stream. A server that is
disconnected is gone with what was on its way. -/
def System.connection (s : System) (client : Client) : Event → System
  | .transmit p => {s with
      client := client
      got := s.got ++ (s.client.con p).flow.buf.packets.head?.toList}
  | .disconnect => {s with client := client, got := [], stream := []}
  | _ => {s with client := client}

/-- The handover that the client logged, if it did. -/
def handover (o : Client) (reply : Reply) : Entry → Option Handover
  | .received localAddr remoteAddr data =>
    some ⟨reply, localAddr, remoteAddr, data, o.log.drop reply.cause.submitted⟩
  | _ => none

def systemStep (s : System) : SystemEvent → Option System
  | .client e => if e.isReceive then none else (step s.client e).map (s.connection · e)
  | .serve i reply =>
    match s.got[i]? with
    | none => none
    | some frame =>
      let request := carries (frame.bytes.drop packetprotoHeaderSize)
      if request.isSome ∧ carries reply = request then
        some {s with stream := s.stream ++ [⟨reply, frame.note.toOrigin⟩]}
      else none
  | .deliver =>
    match s.stream with
    | [] => none
    | reply :: rest =>
      (step s.client (.receive reply.bytes)).map fun client =>
        {s with
          client := client
          stream := rest
          handed := s.handed ++
            (client.log.drop s.client.log.length).filterMap (handover s.client reply)}

/-! ### Origins -/

/-- A datagram from `origin` under this conid: the connection of the conid stands for its
local address, or was bound to what it stands for since. -/
structure Known (o : Client) (c : UInt16) (origin : Origin) : Prop where
  submitted : origin.submitted ≤ o.log.length
  local_or_bound : ∀ p ∈ o.connectionsList, (o.con p).conid = c →
    (o.con p).conaddr.localAddr = origin.localAddr ∨
      .bound c (o.con p).conaddr ∈ o.log.drop origin.submitted

variable {o o' : Client} {p : Ptr} {c : UInt16} {origin : Origin}

theorem drop_concat_mem {log : List Entry} {n : Nat} {e e' : Entry} (hn : n ≤ log.length)
    (h : e ∈ log.drop n) : e ∈ (log ++ [e']).drop n := by
  rw [List.drop_append_of_le_length hn]
  exact List.mem_append_left _ h

theorem drop_concat_self {log : List Entry} {n : Nat} {e : Entry} (hn : n ≤ log.length) :
    e ∈ (log ++ [e]).drop n := by
  rw [List.drop_append_of_le_length hn]
  exact List.mem_append_right _ (List.mem_singleton.mpr rfl)

/-- While a connection stands for the datagram's local address, the datagram is known. -/
theorem known_of_local (hinv : Inv o) (hp : p ∈ o.connectionsList)
    (hlocal : (o.con p).conaddr.localAddr = origin.localAddr) (hn : origin.submitted ≤ o.log.length) :
    Known o (o.con p).conid origin := by
  refine ⟨hn, fun q hq hc => .inl ?_⟩
  rw [hinv.conid_inj q hq p hp hc]
  exact hlocal

theorem Known.same (h : Known o c origin) (hs : Same o o') (hlog : o'.log = o.log) : Known o' c origin := by
  refine ⟨hlog ▸ h.submitted, fun p hp hc => ?_⟩
  rw [hs.conaddr, hlog]
  exact h.local_or_bound p ((hs.list p).mp hp) ((hs.conid p).symm.trans hc)

theorem Known.same_concat (h : Known o c origin) (hs : Same o o') {e : Entry} (hlog : o'.log = o.log ++ [e]) :
    Known o' c origin := by
  refine ⟨?_, fun p hp hc => ?_⟩
  · rw [hlog, List.length_append]
    exact Nat.le_add_right_of_le h.submitted
  · rw [hs.conaddr, hlog]
    exact (h.local_or_bound p ((hs.list p).mp hp) ((hs.conid p).symm.trans hc)).imp_right
      (drop_concat_mem h.submitted)

theorem Known.send (h : Known o c origin) (hinv : Inv o) (hp : p ∈ o.connectionsList) (flags : UInt8)
    (data : List UInt8) (source : Origin) : Known (o.connectionSend p flags data source) c origin := by
  rcases connectionSend_cases hinv hp flags data source with ⟨-, hdrop⟩ | ⟨-, ha⟩
  · rw [hdrop]
    exact h
  · exact h.same_concat ha.toSame ha.log

/-- A binding of the conid is logged with what the connection stands for from then on. -/
theorem Known.rebind (h : Known o c origin) (a : Conaddr) : Known (o.rebind p a) c origin := by
  refine ⟨?_, fun q hq hc => ?_⟩
  · rw [rebind_log, List.length_append]
    exact Nat.le_add_right_of_le h.submitted
  · rw [rebind_conid] at hc
    rw [rebind_log, rebind_con]
    by_cases hqp : q = p
    · subst hqp
      rw [Function.update_self, ← hc]
      exact .inr (drop_concat_self h.submitted)
    · rw [Function.update_of_ne hqp]
      exact (h.local_or_bound q hq hc).imp_right (drop_concat_mem h.submitted)

theorem Known.insert (h : Known o c origin) (hinv : Inv o) (a : Conaddr) (flags : UInt8) (data : List UInt8)
    (conid : UInt16) (flow : PacketProtoFlow Note) (j : FlowJob) :
    Known (o.connectionInsert a flags data conid flow j) c origin := by
  refine ⟨?_, fun q hq hc => ?_⟩
  · show _ ≤ (o.log ++ [Entry.bound conid a]).length
    rw [List.length_append]
    exact Nat.le_add_right_of_le h.submitted
  · show _ ∨ _ ∈ (o.log ++ [Entry.bound conid a]).drop _
    rcases (mem_connectionInsert ..).mp hq with rfl | hq
    · rw [connectionInsert_new] at hc ⊢
      rw [← hc]
      exact .inr (drop_concat_self h.submitted)
    · rw [connectionInsert_old _ _ _ _ _ _ (hinv.ne_fresh hq)] at hc ⊢
      exact (h.local_or_bound q hq hc).imp_right (drop_concat_mem h.submitted)

/-- **Every event keeps what is known about a datagram.** -/
theorem Known.step (h : Known o c origin) (hinv : Inv o) {e : Event} (hs : step o e = some o') :
    Known o' c origin := by
  cases change_of_step hinv hs with
  | quiet hq => exact h.same hq.toSame hq.log
  | receive hparse hfind haddr =>
    have hsame := (Quiet.touch (hinv.findConnectionByConid hfind).1).toSame
    exact h.same_concat {hsame with} rfl
  | @first _ rest hjobs =>
    obtain ⟨hp, -, hpop, -⟩ := hinv.popFirst hjobs
    exact Known.send (o := {o with jobs := rest}) {h with} hpop hp _ _ _
  | submit hrun hfind =>
    have hp := (hinv.findConnectionByConaddr hfind).1
    exact (h.same (Quiet.touch hp).toSame rfl).send (hinv.touch hp) ((mem_touch hp).mpr hp) _ _ _
  | @reuse _ _ _ _ _ p _ hrun hfind hfull hlist =>
    have hp : p ∈ o.connectionsList := by simp [hlist]
    exact ((h.rebind _).same (Quiet.touch (o := o.rebind p _) hp).toSame rfl).send ((hinv.rebind hp _).touch hp)
      ((mem_touch hp).mpr hp) _ _ _
  | @insert _ _ _ _ _ next _ hconid hflow =>
    exact Known.insert (o := {o with nextConid := next}) {h with} {hinv with} _ _ _ _ _ _
  | transmit hp hframes =>
    exact h.same_concat {Same.flow (j := none) fun _ => Iff.rfl with} rfl
  | drain hp hpassed hframes =>
    exact h.same_concat {Same.flow fun _ => Iff.rfl with} rfl

/-! ### Packets of the client -/

theorem carries_conid {flags : UInt8} {conid : UInt16} {remoteAddr : BAddr} {data : List UInt8}
    {x : UInt16 × BAddr} (h : carries (udpgwPacket flags conid remoteAddr data) = some x) : x.1 = conid := by
  obtain ⟨packet, hparse, rfl⟩ := Option.map_eq_some_iff.mp h
  have hconid := readLe16_le16 conid
  rw [parseUdpgw_conid hparse]
  simpa [udpgwPacket, udpgwHeader, le16] using hconid

structure Tagged (o : Client) : Prop where
  accepted : ∀ c flags packet, .accepted c flags packet ∈ o.log →
    ∀ x, carries packet.bytes = some x → Known o x.1 packet.note.toOrigin
  first : ∀ p ∈ o.connectionsList, Known o (o.con p).conid (o.con p).firstOrigin

/-- Nothing was accepted and no connection is new. -/
theorem Tagged.of_known (h : Tagged o) (hknown : ∀ c origin, Known o c origin → Known o' c origin)
    (hlog : ∀ c flags packet, .accepted c flags packet ∈ o'.log → .accepted c flags packet ∈ o.log)
    (hlist : ∀ p ∈ o'.connectionsList, p ∈ o.connectionsList)
    (hcon : ∀ p, (o'.con p).conid = (o.con p).conid ∧ (o'.con p).firstOrigin = (o.con p).firstOrigin) :
    Tagged o' where
  accepted := fun c flags packet hmem x hx => hknown _ _ (h.accepted c flags packet (hlog _ _ _ hmem) x hx)
  first := by
    intro p hp
    rw [(hcon p).1, (hcon p).2]
    exact hknown _ _ (h.first p (hlist p hp))

theorem Tagged.same (h : Tagged o) (hs : Same o o') (hlog : o'.log = o.log) : Tagged o' := by
  refine h.of_known (fun c origin hk => hk.same hs hlog) ?_ (fun p => (hs.list p).mp)
    fun p => ⟨hs.conid p, hs.firstOrigin p⟩
  rw [hlog]
  exact fun _ _ _ hmem => hmem

theorem Tagged.same_concat (h : Tagged o) (hs : Same o o') {e : Entry} (hlog : o'.log = o.log ++ [e])
    (he : ∀ c flags packet, e ≠ .accepted c flags packet) : Tagged o' := by
  refine h.of_known (fun c origin hk => hk.same_concat hs hlog) ?_ (fun p => (hs.list p).mp)
    fun p => ⟨hs.conid p, hs.firstOrigin p⟩
  intro c flags packet hmem
  rw [hlog] at hmem
  rcases List.mem_append.mp hmem with hmem | hmem
  · exact hmem
  · exact absurd (List.mem_singleton.mp hmem).symm (he c flags packet)

theorem Tagged.send (h : Tagged o) (hinv : Inv o) (hp : p ∈ o.connectionsList)
    (hk : Known o (o.con p).conid origin) (flags : UInt8) (data : List UInt8) :
    Tagged (o.connectionSend p flags data origin) := by
  rcases connectionSend_cases hinv hp flags data origin with ⟨-, hdrop⟩ | ⟨-, ha⟩
  · rw [hdrop]
    exact h
  · refine ⟨?_, ?_⟩
    · intro c flags' packet hmem x hx
      rw [ha.log] at hmem
      rcases List.mem_append.mp hmem with hmem | hmem
      · exact (h.accepted c flags' packet hmem x hx).same_concat ha.toSame ha.log
      · have he := List.mem_singleton.mp hmem
        injection he with _ _ he
        subst he
        rw [carries_conid hx]
        exact hk.same_concat ha.toSame ha.log
    · intro q hq
      rw [ha.conid, ha.firstOrigin]
      exact (h.first q ((ha.list q).mp hq)).same_concat ha.toSame ha.log

theorem Tagged.rebind (h : Tagged o) (a : Conaddr) : Tagged (o.rebind p a) := by
  refine h.of_known (fun c origin hk => hk.rebind a) ?_ (fun _ hq => hq) fun q => ⟨rebind_conid o p q a, ?_⟩
  · intro c flags packet hmem
    rw [rebind_log] at hmem
    rcases List.mem_append.mp hmem with hmem | hmem
    · exact hmem
    · cases List.mem_singleton.mp hmem
  · rw [rebind_con]
    by_cases hq : q = p <;> simp [hq]

theorem Tagged.insert (h : Tagged o) (hinv : Inv o) {conid : UInt16}
    (hconid : o.findConnectionByConid conid = none) (a : Conaddr) (flags : UInt8) (data : List UInt8)
    (flow : PacketProtoFlow Note) (j : FlowJob) : Tagged (o.connectionInsert a flags data conid flow j) where
  accepted := by
    intro c flags' packet hmem x hx
    rcases List.mem_append.mp hmem with hmem | hmem
    · exact (h.accepted c flags' packet hmem x hx).insert hinv _ _ _ _ _ _
    · cases List.mem_singleton.mp hmem
  first := by
    intro q hq
    rcases (mem_connectionInsert ..).mp hq with rfl | hq
    · rw [connectionInsert_new]
      refine ⟨?_, fun r hr hc => ?_⟩
      · show _ ≤ (o.log ++ [Entry.bound conid a]).length
        simp
      · rcases (mem_connectionInsert ..).mp hr with rfl | hr
        · rw [connectionInsert_new]
          exact .inl rfl
        · rw [connectionInsert_old _ _ _ _ _ _ (hinv.ne_fresh hr)] at hc
          exact absurd hc (hinv.conid_unused hconid r hr)
    · rw [connectionInsert_old _ _ _ _ _ _ (hinv.ne_fresh hq)]
      exact (h.first q hq).insert hinv _ _ _ _ _ _

theorem tagged_init (cfg : Config) : Tagged (init cfg) := ⟨nofun, nofun⟩

/-- **Every event keeps the datagrams behind packets and first jobs known.** -/
theorem Tagged.step (h : Tagged o) (hinv : Inv o) {e : Event} (hs : step o e = some o') : Tagged o' := by
  cases change_of_step hinv hs with
  | quiet hq => exact h.same hq.toSame hq.log
  | receive hparse hfind haddr =>
    have hsame := (Quiet.touch (hinv.findConnectionByConid hfind).1).toSame
    exact h.same_concat {hsame with} rfl nofun
  | @first p rest hjobs =>
    obtain ⟨hp, -, hpop, -⟩ := hinv.popFirst hjobs
    have hknown := h.first p hp
    exact Tagged.send (o := {o with jobs := rest}) ⟨fun c flags packet hmem x hx =>
      {h.accepted c flags packet hmem x hx with}, fun q hq => {h.first q hq with}⟩ hpop hp {hknown with} _ _
  | @submit localAddr remoteAddr _ _ _ p hrun hfind =>
    obtain ⟨hp, haddr⟩ := hinv.findConnectionByConaddr hfind
    have hknown : Known o (o.con p).conid ⟨localAddr, o.log.length⟩ :=
      known_of_local hinv hp (by rw [haddr]) (le_refl _)
    exact (h.same (Quiet.touch hp).toSame rfl).send (hinv.touch hp) ((mem_touch hp).mpr hp)
      (hknown.same (Quiet.touch hp).toSame rfl) _ _
  | @reuse localAddr remoteAddr _ _ _ p _ hrun hfind hfull hlist =>
    have hp : p ∈ o.connectionsList := by simp [hlist]
    have hknown : Known (o.rebind p ⟨localAddr, remoteAddr⟩) (o.con p).conid ⟨localAddr, o.log.length + 1⟩ := by
      have hlocal : ((o.rebind p ⟨localAddr, remoteAddr⟩).con p).conaddr.localAddr =
          (⟨localAddr, o.log.length + 1⟩ : Origin).localAddr := by
        rw [rebind_con, Function.update_self]
      have hk := known_of_local (hinv.rebind hp ⟨localAddr, remoteAddr⟩) hp hlocal (by rw [rebind_log]; simp)
      rw [rebind_conid] at hk
      exact hk
    have hquiet := (Quiet.touch (o := o.rebind p ⟨localAddr, remoteAddr⟩) hp).toSame
    refine ((h.rebind _).same hquiet rfl).send ((hinv.rebind hp _).touch hp) ((mem_touch hp).mpr hp) ?_ _ _
    rw [hquiet.conid, rebind_conid]
    exact hknown.same hquiet rfl
  | @insert _ _ _ _ _ next _ hconid hflow =>
    exact Tagged.insert (o := {o with nextConid := next}) ⟨fun c flags packet hmem x hx =>
      {h.accepted c flags packet hmem x hx with}, fun q hq => {h.first q hq with}⟩ {hinv with} hconid _ _ _ _ _
  | transmit hp hframes =>
    exact h.same_concat {Same.flow (j := none) fun _ => Iff.rfl with} rfl nofun
  | drain hp hpassed hframes =>
    exact h.same_concat {Same.flow fun _ => Iff.rfl with} rfl nofun

/-! ### The system -/

/-- A handover to the local address of the datagram, or to one that the conid was bound to
since the datagram was submitted, with the remote address that the reply carries. -/
def Handover.Sound (d : Handover) : Prop :=
  ∃ conid, parseUdpgw d.reply.bytes = some ⟨conid, d.remoteAddr, d.data⟩ ∧
    (d.localAddr = d.reply.cause.localAddr ∨ .bound conid ⟨d.localAddr, d.remoteAddr⟩ ∈ d.since)

structure Caused (s : System) : Prop where
  inv : Inv s.client
  fifo : Fifo s.client
  tagged : Tagged s.client
  got : ∀ frame ∈ s.got, ∀ x, carries (frame.bytes.drop packetprotoHeaderSize) = some x →
    Known s.client x.1 frame.note.toOrigin
  stream : ∀ reply ∈ s.stream, ∀ x, carries reply.bytes = some x → Known s.client x.1 reply.cause
  handed : ∀ d ∈ s.handed, d.Sound

theorem caused_init (cfg : Config) : Caused (systemInit cfg) where
  inv := inv_init cfg
  fifo := fifo_init cfg
  tagged := tagged_init cfg
  got := nofun
  stream := nofun
  handed := nofun

/-- The oldest frame of a connection answers for its datagram. -/
theorem known_head (hfifo : Fifo o) (htagged : Tagged o) (hp : p ∈ o.connectionsList) {frame : Packet Note}
    (hhead : (o.con p).flow.buf.packets.head? = some frame) {x : UInt16 × BAddr}
    (hx : carries (frame.bytes.drop packetprotoHeaderSize) = some x) : Known o x.1 frame.note.toOrigin := by
  obtain ⟨frames, hframes⟩ : ∃ frames, (o.con p).flow.buf.packets = frame :: frames := by
    cases hbuf : (o.con p).flow.buf.packets with
    | nil =>
      rw [hbuf] at hhead
      cases hhead
    | cons f frames =>
      rw [hbuf] at hhead
      exact ⟨frames, by rw [Option.some.inj hhead]⟩
  obtain ⟨rest, hrest⟩ := PacketProtoFlow.toSend_cons (flowJobs p o.jobs) hframes
  have hmem : frame ∈ acceptedFrames (o.con p).conid o.log := by
    rw [hfifo.order p hp, Client.toSend, hrest]
    simp
  obtain ⟨e, he, hframe⟩ := List.mem_filterMap.mp hmem
  cases e with
  | accepted c flags packet =>
    simp only [Option.ite_none_right_eq_some, Option.some.injEq] at hframe
    obtain ⟨-, rfl⟩ := hframe
    exact htagged.accepted c flags packet he x (by simpa [packetprotoFrame, packetprotoHeaderSize, le16] using hx)
  | bound | sent | completed | received => cases hframe

theorem Caused.client {s : System} (h : Caused s) {e : Event} {client : Client} (hs : step s.client e = some client) :
    Caused (s.connection client e) := by
  have hkeep : Caused {s with client := client} :=
    { inv := h.inv.step hs
      fifo := h.fifo.step h.inv hs
      tagged := h.tagged.step h.inv hs
      got := fun frame hf x hx => (h.got frame hf x hx).step h.inv hs
      stream := fun reply hr x hx => (h.stream reply hr x hx).step h.inv hs
      handed := h.handed }
  cases e with
  | transmit p =>
    refine {hkeep with got := ?_}
    intro frame hf x hx
    rcases List.mem_append.mp hf with hf | hf
    · exact hkeep.got frame hf x hx
    · obtain ⟨-, hp, -⟩ := transmit_cases hs
      exact (known_head h.fifo h.tagged hp (Option.mem_toList.mp hf) hx).step h.inv hs
  | disconnect => exact {hkeep with got := nofun, stream := nofun}
  | handler | finish | job | set | unset | submit | receive | connect | monitor | keepaliveDone | drain =>
    exact hkeep

/-- A reply arrives: what the client hands over, it hands to a local address that its
cause accounts for. -/
theorem Caused.deliver {s : System} (h : Caused s) {reply : Reply} {rest : List Reply}
    (hstream : s.stream = reply :: rest) {client : Client}
    (hs : step s.client (.receive reply.bytes) = some client) :
    Caused {s with
      client := client
      stream := rest
      handed := s.handed ++ (client.log.drop s.client.log.length).filterMap (handover s.client reply)} := by
  have hkeep := h.client hs
  have hmem : ∀ r ∈ rest, r ∈ s.stream := fun r hr => by rw [hstream]; exact List.mem_cons_of_mem _ hr
  refine {hkeep with stream := fun r hr => hkeep.stream r (hmem r hr), handed := ?_}
  intro d hd
  rcases List.mem_append.mp hd with hd | hd
  · exact h.handed d hd
  · cases change_of_step h.inv hs with
    | quiet hq =>
      rw [hq.log, List.drop_length] at hd
      cases hd
    | @receive _ packet p hparse hfind haddr =>
      obtain ⟨hp, hconid⟩ := h.inv.findConnectionByConid hfind
      rw [show ({s.client.touch p with log := _} : Client).log = _ from rfl, List.drop_left] at hd
      simp only [handover, List.filterMap_cons, List.filterMap_nil, List.mem_singleton] at hd
      subst hd
      have hcarries : carries reply.bytes = some (packet.conid, packet.remoteAddr) := by simp [carries, hparse]
      have hknown := h.stream reply (by simp [hstream]) _ hcarries
      refine ⟨packet.conid, by rw [hparse, haddr], ?_⟩
      exact hknown.local_or_bound p hp hconid

theorem Caused.step {s s' : System} (h : Caused s) {e : SystemEvent} (hs : systemStep s e = some s') :
    Caused s' := by
  cases e with
  | client e =>
    simp only [systemStep] at hs
    split at hs
    · cases hs
    · obtain ⟨client, hc, rfl⟩ := Option.map_eq_some_iff.mp hs
      exact h.client hc
  | serve i reply =>
    simp only [systemStep] at hs
    split at hs
    · cases hs
    · next frame hframe =>
      split at hs
      · next hanswer =>
        cases hs
        refine {h with stream := ?_}
        intro r hr x hx
        rcases List.mem_append.mp hr with hr | hr
        · exact h.stream r hr x hx
        · rw [List.mem_singleton.mp hr] at hx ⊢
          exact h.got frame (List.mem_of_getElem? hframe) x (hanswer.2 ▸ hx)
      · cases hs
  | deliver =>
    simp only [systemStep] at hs
    split at hs
    · cases hs
    · next reply rest hstream =>
      obtain ⟨client, hc, rfl⟩ := Option.map_eq_some_iff.mp hs
      exact h.deliver hstream hc

/-- **A reply is handed to the local address that its datagram came from, or to one that
the conid was bound to after the datagram was submitted, with the same remote address.** -/
theorem handed_local {cfg : Config} {es : List SystemEvent} {s : System}
    (h : Run.run systemStep (systemInit cfg) es = some s) : ∀ d ∈ s.handed, d.Sound :=
  (Run.run_invariant Caused (fun _ _ _ hc hs => Caused.step hc hs) h (caused_init cfg)).handed

/-- A datagram from one local address is answered, and another local address takes the
connection over before the answer arrives. -/
def crossedReply : List SystemEvent :=
  let before : List Event := submitRun (.ipv4 1 1) (.ipv4 9 1) 7 ++ [.handler, .connect, .transmit 0, .finish]
  let after : List Event := submitRun (.ipv4 2 1) (.ipv4 9 1) 2 ++ [.handler]
  before.map .client ++ [.serve 0 (udpgwPacket 0 0 (.ipv4 9 1) [])] ++ after.map .client ++ [.deliver]

theorem reply_crosses_rebind : ¬∀ (cfg : Config) (es : List SystemEvent) (s : System),
    Run.run systemStep (systemInit cfg) es = some s →
      ∀ d ∈ s.handed, d.localAddr = d.reply.cause.localAddr := by
  intro hall
  have hrun : (Run.run systemStep (systemInit oneConnection) crossedReply).any
      (fun s => decide (¬∀ d ∈ s.handed, d.localAddr = d.reply.cause.localAddr)) = true := by decide +kernel
  obtain ⟨s, hs, hcrossed⟩ := (Option.any_eq_true _ _).mp hrun
  exact of_decide_eq_true hcrossed (hall _ _ s hs)

theorem handed_local_crossedReply : ∃ s, Run.run systemStep (systemInit oneConnection) crossedReply = some s ∧
    s.handed.length = 1 ∧ ∀ d ∈ s.handed, d.Sound := by
  have hrun : (Run.run systemStep (systemInit oneConnection) crossedReply).any
      (fun s => s.handed.length = 1) = true := by decide +kernel
  obtain ⟨s, hs, hlen⟩ := (Option.any_eq_true _ _).mp hrun
  exact ⟨s, hs, of_decide_eq_true hlen, handed_local hs⟩

end TwilightLine.UdpGw
