import TwilightLine.Flow.PacketPassConnector
import TwilightLine.Flow.PacketProto
import TwilightLine.Lib.Run

/-! How the udpgw client sends to its server.

The send queue passes framed packets to the connector; while there is a server, a sender
writes them to its stream. The server comes and goes at any moment, the stream takes as
many bytes of a write as it likes, and the jobs of the interfaces run in any order.

A stream gets whole packets in the order of the queue and at the end a part of one more
(`Carries`). The next stream goes on with the first packet that was not reported done to
the queue (`Tiles`). -/
namespace TwilightLine.UdpGw

/-- What happened on a connection to the server. -/
structure ServerStream where
  /-- The bytes that were sent on the stream. -/
  bytes : List UInt8
  /-- How many packets were meanwhile reported done to the queue. -/
  reported : Nat
  deriving DecidableEq, Repr

/-- The part of `UdpGwClient` that sends to the server. -/
structure UdpGwSend where
  sendConnector : PacketPassConnector
  /-- `pp_mtu`. -/
  ppMtu : Nat
  /-- The packets that the queue sent, oldest first. -/
  queued : List (List UInt8)
  /-- How often `handler_done` of the queue was called. -/
  returned : Nat
  /-- The streams, newest first. -/
  streams : List ServerStream
  deriving DecidableEq, Repr

inductive SendEvent where
  /-- The queue sends a packet. -/
  | queueSend (payload : List UInt8)
  /-- The jobs of the interfaces. -/
  | connectorOperation
  | connectorDone
  | senderOperation
  | senderDone
  | streamOperation
  | streamDone
  /-- The stream has sent some bytes. -/
  | sent (n : Nat)
  /-- `UdpGwClient_ConnectServer`, with a decoder or without. -/
  | connect (decoder : Bool)
  | disconnect
  deriving DecidableEq, Repr

namespace UdpGwSend

/-- `UdpGwClient_Init`. -/
def init (ppMtu : Nat) : UdpGwSend := ⟨.init ppMtu, ppMtu, [], 0, []⟩

/-- The sender does something. -/
def onSender (o : UdpGwSend) (f : PacketStreamSender → Option PacketStreamSender) : Option UdpGwSend :=
  o.sendConnector.output.bind fun s =>
    (f s).map fun s => {o with sendConnector := {o.sendConnector with output := some s}}

/-- The newest stream has sent some bytes. -/
def logSent (bytes : List UInt8) : List ServerStream → List ServerStream
  | [] => []
  | st :: older => {st with bytes := st.bytes ++ bytes} :: older

def logReported : List ServerStream → List ServerStream
  | [] => []
  | st :: older => {st with reported := st.reported + 1} :: older

/-- `UdpGwClient_ConnectServer`. -/
def connectServer (o : UdpGwSend) (decoder : Bool) : Option UdpGwSend :=
  if o.sendConnector.output.isSome then none
  else if !decoder then some o
  else
    (o.sendConnector.connectOutput (.init o.ppMtu)).map fun con =>
      {o with sendConnector := con, streams := ⟨[], 0⟩ :: o.streams}

/-- `free_server`: the sender goes with its interface and the jobs of that. -/
def freeServer (o : UdpGwSend) : Option UdpGwSend :=
  o.sendConnector.disconnectOutput.map fun con => {o with sendConnector := con}

def step (o : UdpGwSend) : SendEvent → Option UdpGwSend
  | .queueSend payload =>
    (o.sendConnector.input.send (ppFrame payload)).map fun input =>
      {o with sendConnector := {o.sendConnector with input := input}, queued := o.queued ++ [payload]}
  | .connectorOperation => o.sendConnector.inputOperation.map fun con => {o with sendConnector := con}
  | .connectorDone =>
    o.sendConnector.inputJobDone.map fun con => {o with sendConnector := con, returned := o.returned + 1}
  | .senderOperation => o.onSender PacketStreamSender.inputOperation
  | .senderDone =>
    o.sendConnector.outputJobDone.map fun con => {o with sendConnector := con, streams := logReported o.streams}
  | .streamOperation => o.onSender PacketStreamSender.outputOperation
  | .streamDone => o.onSender PacketStreamSender.outputJobDone
  | .sent n =>
    o.sendConnector.output.bind fun s =>
      (s.outputDone n).map fun r =>
        {o with sendConnector := {o.sendConnector with output := some r.2}, streams := logSent r.1 o.streams}
  | .connect decoder => o.connectServer decoder
  | .disconnect => o.freeServer

end UdpGwSend

/-! ### What the streams get -/

/-- How many packets were reported done to the queue. -/
def reported : List ServerStream → Nat
  | [] => 0
  | st :: older => reported older + st.reported

/-- The stream got the packets that were reported done, and then this. -/
structure ServerStream.Sent (st : ServerStream) (packets : List (List UInt8)) (got : List UInt8) : Prop where
  reported : st.reported ≤ packets.length
  bytes : st.bytes = (packets.take st.reported).flatten ++ got

/-- What is sent behind the packets that were reported done belongs to the next packet. -/
def Begins (packets : List (List UInt8)) (got : List UInt8) : Prop :=
  got = [] ∨ ∃ p, packets.head? = some p ∧ got <+: p

/-- Every stream goes on where the one before stopped. -/
def Continues (packets : List (List UInt8)) : List ServerStream → Prop
  | [] => True
  | st :: older =>
    (∃ got, st.Sent (packets.drop (reported older)) got ∧ Begins (packets.drop (reported (st :: older))) got) ∧
      Continues packets older

section Streams
variable {packets more : List (List UInt8)} {got data : List UInt8} {st : ServerStream} {streams older : List ServerStream}

theorem ServerStream.Sent.append (h : st.Sent packets got) : st.Sent (packets ++ more) got where
  reported := h.reported.trans (by simp)
  bytes := by rw [List.take_append_of_le_length h.reported, h.bytes]

theorem Begins.append (h : Begins packets got) : Begins (packets ++ more) got := by
  rcases h with h | ⟨p, hp, hgot⟩
  · exact .inl h
  · refine .inr ⟨p, ?_, hgot⟩
    rw [List.head?_append, hp]
    rfl

theorem Continues.append (h : Continues packets streams) (hlen : reported streams ≤ packets.length) :
    Continues (packets ++ more) streams := by
  induction streams with
  | nil => trivial
  | cons st older ih =>
    obtain ⟨⟨got, hsent, hbegins⟩, holder⟩ := h
    have hle : reported older ≤ packets.length := by
      rw [reported] at hlen
      omega
    refine ⟨⟨got, ?_, ?_⟩, ih holder hle⟩
    · rw [List.drop_append_of_le_length hle]
      exact hsent.append
    · rw [List.drop_append_of_le_length hlen]
      exact hbegins.append

/-- The stream sends some bytes more. -/
theorem ServerStream.Sent.log (h : st.Sent packets got) (bytes : List UInt8) :
    ServerStream.Sent {st with bytes := st.bytes ++ bytes} packets (got ++ bytes) where
  reported := h.reported
  bytes := by
    show st.bytes ++ bytes = _
    rw [h.bytes, List.append_assoc]

/-- The packet that the stream got last is reported done. -/
theorem ServerStream.Sent.report (h : st.Sent packets data) (hnext : packets[st.reported]? = some data) :
    ServerStream.Sent {st with reported := st.reported + 1} packets [] where
  reported := (List.getElem?_eq_some_iff.mp hnext).1
  bytes := by
    obtain ⟨hlt, hget⟩ := List.getElem?_eq_some_iff.mp hnext
    show st.bytes = _
    rw [h.bytes, List.take_succ_eq_append_getElem hlt, hget]
    simp

end Streams

namespace UdpGwSend
variable {o o' : UdpGwSend}

/-- The packets of the queue, as they are passed on. -/
def frames (o : UdpGwSend) : List (List UInt8) := o.queued.map ppFrame

/-- With a server, the newest stream got what its sender says. -/
def Streams (o : UdpGwSend) : Prop :=
  match o.sendConnector.output with
  | none => Continues o.frames o.streams
  | some _ =>
    ∃ st older got, o.streams = st :: older ∧ o.sendConnector.Sends got ∧
      st.Sent (o.frames.drop (reported older)) got ∧ Continues o.frames older

/-- The invariant: all packets but the one that the connector waits for were reported done. -/
structure Inv (o : UdpGwSend) : Prop where
  con : o.sendConnector.Ok
  mtu : o.sendConnector.input.mtu = o.ppMtu
  queue : ∃ front, o.frames = front ++ o.sendConnector.waiting.toList ∧ front.length = reported o.streams
  returned : reported o.streams = o.returned + if o.sendConnector.input.state = .donePending () then 1 else 0
  streams : o.Streams

theorem inv_init (ppMtu : Nat) : (init ppMtu).Inv where
  con := PacketPassConnector.ok_init ppMtu
  mtu := rfl
  queue := ⟨[], rfl, rfl⟩
  returned := rfl
  streams := trivial

theorem Inv.reported_le (h : o.Inv) : reported o.streams ≤ o.frames.length := by
  obtain ⟨front, hframes, hlen⟩ := h.queue
  rw [hframes, List.length_append]
  omega

/-- The connection that is over, or not, among all that were. -/
theorem Inv.continues (h : o.Inv) : Continues o.frames o.streams := by
  have hstreams := h.streams
  unfold Streams at hstreams
  cases hout : o.sendConnector.output with
  | none =>
    rw [hout] at hstreams
    exact hstreams
  | some s =>
    rw [hout] at hstreams
    obtain ⟨st, older, got, hst, hsends, hsent, holder⟩ := hstreams
    rw [hst]
    refine ⟨⟨got, hsent, ?_⟩, holder⟩
    -- What the sender has begun is the packet that the connector waits for.
    rw [PacketPassConnector.Sends, hout] at hsends
    cases hp : o.sendConnector.packet with
    | none =>
      rw [hp] at hsends
      exact .inl hsends.2
    | some data =>
      rw [hp] at hsends
      obtain ⟨front, hframes, hlen⟩ := h.queue
      rw [h.con.waiting_of_packet hp] at hframes
      refine .inr ⟨data, ?_, hsends.isPrefix_packet⟩
      rw [← hst, ← hlen, hframes, List.drop_left]
      rfl

/-- A sender that keeps to its packet keeps the invariant. -/
theorem Inv.onSender (h : o.Inv) {f : PacketStreamSender → Option PacketStreamSender}
    (hrest : ∀ s, s.Rest → f s = none) (hat : ∀ s s' data got, s.At data got → f s = some s' → s'.At data got)
    (hmtu : ∀ s s', f s = some s' → s'.input.mtu = s.input.mtu) (he : o.onSender f = some o') : o'.Inv := by
  obtain ⟨s, hout, he⟩ := Option.bind_eq_some_iff.mp he
  obtain ⟨s', hs, rfl⟩ := Option.map_eq_some_iff.mp he
  refine ⟨⟨h.con.packet, h.con.fits, ?_⟩, h.mtu, h.queue, h.returned, ?_⟩
  · intro t ht
    cases ht
    rw [hmtu s s' hs]
    exact h.con.mtu s hout
  · have hstreams := h.streams
    rw [Streams, hout] at hstreams
    obtain ⟨st, older, got, hst, hsends, hsent, holder⟩ := hstreams
    refine ⟨st, older, got, hst, hsends.output hout (fun hr => ?_) fun data ha => hat s s' data got ha hs, hsent, holder⟩
    rw [hrest s hr] at hs
    cases hs

theorem Inv.queueSend (h : o.Inv) {payload : List UInt8} (he : o.step (.queueSend payload) = some o') : o'.Inv := by
  obtain ⟨input, hinput, rfl⟩ := Option.map_eq_some_iff.mp he
  obtain ⟨hcon, hwait, hwait', hmtu, hstate, hstate'⟩ := h.con.send hinput
  have hframes : List.map ppFrame (o.queued ++ [payload]) = o.frames ++ [ppFrame payload] := List.map_append
  refine ⟨hcon, hmtu.trans h.mtu, ?_, ?_, ?_⟩
  · obtain ⟨front, hfront, hlen⟩ := h.queue
    rw [hwait] at hfront
    refine ⟨o.frames, ?_, ?_⟩
    · rw [hwait']
      exact hframes
    · rw [hfront]
      simpa using hlen
  · rw [if_neg hstate]
    have hreturned := h.returned
    rwa [if_neg hstate'] at hreturned
  · have hstreams := h.streams
    have hle := h.reported_le
    unfold Streams at hstreams ⊢
    unfold frames
    rw [hframes]
    dsimp only
    cases hout : o.sendConnector.output with
    | none =>
      rw [hout] at hstreams
      exact hstreams.append hle
    | some s =>
      rw [hout] at hstreams
      obtain ⟨st, older, got, hst, hsends, hsent, holder⟩ := hstreams
      have hsends : PacketPassConnector.Sends {o.sendConnector with input := input, output := some s} got := by
        rw [PacketPassConnector.Sends, hout] at hsends
        exact hsends
      rw [hst, reported] at hle
      refine ⟨st, older, got, hst, hsends, ?_, holder.append (by omega)⟩
      rw [List.drop_append_of_le_length (by omega)]
      exact hsent.append

theorem Inv.connectorOperation (h : o.Inv) (he : o.step .connectorOperation = some o') : o'.Inv := by
  obtain ⟨con, hcon, rfl⟩ := Option.map_eq_some_iff.mp he
  have hreturned := h.returned
  have hstreams := h.streams
  unfold Streams at hstreams
  cases hout : o.sendConnector.output with
  | none =>
    rw [hout] at hstreams
    have hsends : PacketPassConnector.Sends o.sendConnector [] := by
      rw [PacketPassConnector.Sends, hout]
      trivial
    obtain ⟨hok, hwait, -, houtput, hmtu, hstate, hstate'⟩ := h.con.inputOperation hsends hcon
    rw [hout] at houtput
    refine ⟨hok, hmtu.trans h.mtu, by rw [hwait]; exact h.queue, ?_, ?_⟩
    · rw [if_neg hstate]
      rwa [if_neg hstate'] at hreturned
    · unfold Streams
      rw [show con.output = none by simpa using houtput]
      exact hstreams
  | some s =>
    rw [hout] at hstreams
    obtain ⟨st, older, got, hst, hsends, hsent, holder⟩ := hstreams
    obtain ⟨hok, hwait, hsends', houtput, hmtu, hstate, hstate'⟩ := h.con.inputOperation hsends hcon
    rw [hout] at houtput
    obtain ⟨s', hs'⟩ := Option.isSome_iff_exists.mp houtput
    refine ⟨hok, hmtu.trans h.mtu, by rw [hwait]; exact h.queue, ?_, ?_⟩
    · rw [if_neg hstate]
      rwa [if_neg hstate'] at hreturned
    · unfold Streams
      rw [show con.output = some s' from hs']
      exact ⟨st, older, got, hst, hsends', hsent, holder⟩

theorem Inv.connectorDone (h : o.Inv) (he : o.step .connectorDone = some o') : o'.Inv := by
  obtain ⟨con, hcon, rfl⟩ := Option.map_eq_some_iff.mp he
  obtain ⟨hok, hwait, hwait', hout, hpacket, hmtu, hstate, hstate'⟩ := h.con.inputJobDone hcon
  have hreturned := h.returned
  rw [if_pos hstate'] at hreturned
  refine ⟨hok, hmtu.trans h.mtu, ?_, ?_, ?_⟩
  · rw [hwait', ← hwait]
    exact h.queue
  · rw [if_neg hstate]
    exact hreturned
  · have hstreams := h.streams
    unfold Streams PacketPassConnector.Sends at *
    dsimp only
    rw [hout, hpacket]
    exact hstreams

theorem Inv.senderDone (h : o.Inv) (he : o.step .senderDone = some o') : o'.Inv := by
  obtain ⟨con, hcon, rfl⟩ := Option.map_eq_some_iff.mp he
  have hreturned := h.returned
  have hstreams := h.streams
  obtain ⟨s, hs, -⟩ := Option.bind_eq_some_iff.mp hcon
  rw [Streams, hs] at hstreams
  obtain ⟨st, older, got, hst, hsends, hsent, holder⟩ := hstreams
  obtain ⟨hok, hwait, hwait', hsends', hout', -, hmtu, hstate, hstate'⟩ := h.con.outputJobDone hsends hcon
  obtain ⟨s', hs'⟩ := Option.isSome_iff_exists.mp hout'
  obtain ⟨front, hframes, hlen⟩ := h.queue
  rw [hst, reported] at hlen hreturned
  rw [if_neg hstate'] at hreturned
  rw [hwait] at hframes
  refine ⟨hok, hmtu.trans h.mtu, ⟨o.frames, ?_, ?_⟩, ?_, ?_⟩
  · rw [hwait']
    exact (List.append_nil _).symm
  · show o.frames.length = reported (logReported o.streams)
    rw [hst, hframes, List.length_append, hlen]
    rfl
  · show reported (logReported o.streams) = _
    rw [if_pos hstate, hst]
    show reported older + (st.reported + 1) = o.returned + 1
    omega
  · unfold Streams
    rw [show con.output = some s' from hs']
    refine ⟨{st with reported := st.reported + 1}, older, [], ?_, hsends', hsent.report ?_, holder⟩
    · rw [hst]
      rfl
    · show (o.frames.drop (reported older))[st.reported]? = some got
      rw [List.getElem?_drop, ← hlen, hframes]
      exact List.getElem?_concat_length

theorem Inv.sent (h : o.Inv) {n : Nat} (he : o.step (.sent n) = some o') : o'.Inv := by
  obtain ⟨s, hs, he⟩ := Option.bind_eq_some_iff.mp he
  obtain ⟨⟨bytes, s'⟩, hsent', rfl⟩ := Option.map_eq_some_iff.mp he
  have hstreams := h.streams
  rw [Streams, hs] at hstreams
  obtain ⟨st, older, got, hst, hsends, hsent, holder⟩ := hstreams
  have hcount : reported (logSent bytes o.streams) = reported o.streams := by
    rw [hst]
    rfl
  refine ⟨⟨h.con.packet, h.con.fits, ?_⟩, h.mtu, ?_, ?_, ?_⟩
  · intro t ht
    cases ht
    rw [PacketStreamSender.outputDone_mtu hsent']
    exact h.con.mtu s hs
  · dsimp only
    rw [hcount]
    exact h.queue
  · dsimp only
    rw [hcount]
    exact h.returned
  · refine ⟨{st with bytes := st.bytes ++ bytes}, older, got ++ bytes, ?_, ?_, hsent.log bytes, holder⟩
    · show logSent bytes o.streams = _
      rw [hst]
      rfl
    · refine hsends.output hs (fun hr => ?_) fun data ha => ha.outputDone hsent'
      rw [PacketStreamSender.outputDone, hr.output] at hsent'
      cases hsent'

theorem Inv.connect (h : o.Inv) {decoder : Bool} (he : o.step (.connect decoder) = some o') : o'.Inv := by
  unfold step connectServer at he
  dsimp only at he
  split at he
  · cases he
  · next hnone =>
    have hnone : o.sendConnector.output = none := by simpa using hnone
    split at he
    · cases he
      exact h
    · obtain ⟨con, hcon, rfl⟩ := Option.map_eq_some_iff.mp he
      obtain ⟨hok, hwait, hsends, hout, hinput⟩ := h.con.connectOutput (PacketStreamSender.rest_init _) hcon
      obtain ⟨s, hs⟩ := Option.isSome_iff_exists.mp hout
      refine ⟨hok, (congrArg _ hinput).trans h.mtu, ?_, ?_, ?_⟩
      · rw [hwait]
        exact h.queue
      · show reported o.streams + 0 = _
        rw [hinput]
        exact h.returned
      · have hstreams := h.streams
        rw [Streams, hnone] at hstreams
        unfold Streams
        rw [show con.output = some s from hs]
        exact ⟨⟨[], 0⟩, o.streams, [], rfl, hsends, ⟨Nat.zero_le _, rfl⟩, hstreams⟩

theorem Inv.disconnect (h : o.Inv) (he : o.step .disconnect = some o') : o'.Inv := by
  have hcontinues := h.continues
  obtain ⟨con, hcon, rfl⟩ := Option.map_eq_some_iff.mp he
  obtain ⟨-, hcon⟩ := Option.ite_none_right_eq_some.mp hcon
  cases hcon
  exact ⟨⟨h.con.packet, h.con.fits, nofun⟩, h.mtu, h.queue, h.returned, hcontinues⟩

/-- **Every event keeps the invariant.** -/
theorem Inv.step {e : SendEvent} (h : o.Inv) (he : o.step e = some o') : o'.Inv := by
  cases e with
  | queueSend payload => exact h.queueSend he
  | connectorOperation => exact h.connectorOperation he
  | connectorDone => exact h.connectorDone he
  | senderOperation =>
    refine h.onSender (fun s hs => ?_) (fun _ _ _ _ hat => hat.inputOperation)
      (fun _ _ => PacketStreamSender.inputOperation_mtu) he
    rw [PacketStreamSender.inputOperation, PacketPassInterface.jobOperation, hs.input]
    rfl
  | senderDone => exact h.senderDone he
  | streamOperation =>
    refine h.onSender (fun s hs => ?_) (fun _ _ _ _ hat => hat.outputOperation)
      (fun _ _ => PacketStreamSender.outputOperation_mtu) he
    rw [PacketStreamSender.outputOperation, hs.output]
    rfl
  | streamDone =>
    refine h.onSender (fun s hs => ?_) (fun _ _ _ _ hat => hat.outputJobDone)
      (fun _ _ => PacketStreamSender.outputJobDone_mtu) he
    rw [PacketStreamSender.outputJobDone, hs.output]
    rfl
  | sent n => exact h.sent he
  | connect decoder => exact h.connect he
  | disconnect => exact h.disconnect he

/-! ### The packet that is sent again -/

/-- An event of the stream or of a job. -/
def Serves : SendEvent → Prop
  | .queueSend _ | .connect _ | .disconnect => False
  | _ => True

/-- How far the packet that the connector waits for is from being done. -/
def todo (o : UdpGwSend) : Nat :=
  match o.sendConnector.input.state with
  | .operationPending data => 3 * data.length + 7
  | .busy data =>
    match o.sendConnector.output with
    | none => 0
    | some s => s.todo data + 1
  | _ => 0

/-- The same packets and streams, and the server is still there. -/
structure Stays (o o' : UdpGwSend) : Prop where
  queued : o'.queued = o.queued
  streams : o'.streams.length = o.streams.length
  output : o'.sendConnector.output.isSome

theorem Stays.trans {o₁ o₂ o₃ : UdpGwSend} (h : Stays o₁ o₂) (h' : Stays o₂ o₃) : Stays o₁ o₃ :=
  ⟨h'.queued.trans h.queued, h'.streams.trans h.streams, h'.output⟩

theorem todo_busy {s : PacketStreamSender} {data : List UInt8} (hbusy : o.sendConnector.input.state = .busy data)
    (hout : o.sendConnector.output = some s) : o.todo = s.todo data + 1 := by
  rw [todo, hbusy]
  dsimp only
  rw [hout]

/-- **With a server, a packet gets on.** -/
theorem Inv.progress (h : o.Inv) (hserver : o.sendConnector.output.isSome) {data : List UInt8}
    (hwait : o.sendConnector.waiting = some data) :
    ∃ e o', Serves e ∧ UdpGwSend.step o e = some o' ∧ Stays o o' ∧ o'.todo < o.todo := by
  obtain ⟨s, hout⟩ := Option.isSome_iff_exists.mp hserver
  have hstreams := h.streams
  rw [Streams, hout] at hstreams
  obtain ⟨st, older, got, hst, hsends, -, -⟩ := hstreams
  rw [PacketPassConnector.Sends, hout] at hsends
  unfold PacketPassConnector.waiting at hwait
  split at hwait
  · next hpending =>
    cases hwait
    -- The packet goes to the connector and on to the sender.
    have hnone : o.sendConnector.packet = none := h.con.packet_none fun _ hb => by simp [hpending] at hb
    rw [hnone] at hsends
    have hlen : data.length ≤ o.sendConnector.input.mtu := h.con.fits data (by rw [PacketPassConnector.waiting, hpending])
    have hsend := PacketPassInterface.send_of_idle hsends.1.input (hlen.trans (h.con.mtu s hout))
    refine ⟨.connectorOperation, {o with sendConnector := ⟨⟨o.sendConnector.input.mtu, .busy data⟩, some data,
      some {s with input := ⟨s.input.mtu, .operationPending data⟩}⟩}, trivial, ?_, ⟨rfl, rfl, rfl⟩, ?_⟩
    · rw [UdpGwSend.step, PacketPassConnector.inputOperation, PacketPassInterface.jobOperation, hpending]
      show (PacketPassConnector.inputHandlerSend ⟨⟨o.sendConnector.input.mtu, .busy data⟩, o.sendConnector.packet,
        o.sendConnector.output⟩ data).map _ = _
      rw [PacketPassConnector.inputHandlerSend, if_pos ⟨hlen, hnone⟩, hout]
      dsimp only
      rw [hsend]
      rfl
    · rw [show o.todo = 3 * data.length + 7 by rw [todo, hpending]]
      show 3 * data.length + 5 + 1 < _
      omega
  · next hbusy =>
    cases hwait
    have hp : o.sendConnector.packet = some data := (h.con.packet data).mpr hbusy
    rw [hp] at hsends
    have hafter : ∀ s' streams, todo {o with
        sendConnector := {o.sendConnector with output := some s'}, streams := streams} = s'.todo data + 1 :=
      fun s' streams => todo_busy hbusy rfl
    have hon : ∀ (f : PacketStreamSender → Option PacketStreamSender) s', f s = some s' → o.onSender f =
        some {o with sendConnector := {o.sendConnector with output := some s'}} := by
      intro f s' hs
      rw [UdpGwSend.onSender, hout, Option.bind_some, hs]
      rfl
    rw [todo_busy hbusy hout]
    rcases hsends.progress with ⟨s', hs, htodo⟩ | ⟨s', hs, htodo⟩ | ⟨n, bytes, s', hs, htodo⟩ | ⟨s', hs, htodo⟩ |
      ⟨input, hinput⟩
    · refine ⟨.senderOperation, _, trivial, hon _ s' hs, ⟨rfl, rfl, rfl⟩, ?_⟩
      rw [hafter s' o.streams]
      omega
    · refine ⟨.streamOperation, _, trivial, hon _ s' hs, ⟨rfl, rfl, rfl⟩, ?_⟩
      rw [hafter s' o.streams]
      omega
    · refine ⟨.sent n, {o with
        sendConnector := {o.sendConnector with output := some s'}
        streams := logSent bytes o.streams}, trivial, ?_, ⟨rfl, ?_, rfl⟩, ?_⟩
      · rw [UdpGwSend.step, hout, Option.bind_some, hs]
        rfl
      · show (logSent bytes o.streams).length = _
        rw [hst]
        rfl
      · rw [hafter s' _]
        omega
    · refine ⟨.streamDone, _, trivial, hon _ s' hs, ⟨rfl, rfl, rfl⟩, ?_⟩
      rw [hafter s' o.streams]
      omega
    · refine ⟨.senderDone, {o with
        sendConnector := ⟨⟨o.sendConnector.input.mtu, .donePending ()⟩, none, some {s with input := input}⟩
        streams := logReported o.streams}, trivial, ?_, ⟨rfl, ?_, rfl⟩, ?_⟩
      · rw [UdpGwSend.step, PacketPassConnector.outputJobDone, hout, Option.bind_some, hinput, Option.bind_some]
        rw [PacketPassConnector.outputHandlerDone, if_pos ⟨by rw [hp]; rfl, rfl⟩]
        rw [PacketPassInterface.done, hbusy]
        rfl
      · show (logReported o.streams).length = _
        rw [hst]
        rfl
      · exact Nat.succ_pos _
  · cases hwait

/-- With a server, the packet that the connector waits for can be done. -/
theorem Inv.finishes (h : o.Inv) (hserver : o.sendConnector.output.isSome) :
    ∃ es o', (∀ e ∈ es, Serves e) ∧ Run.run UdpGwSend.step o es = some o' ∧ Stays o o' ∧
      reported o'.streams = o.queued.length := by
  induction hn : o.todo using Nat.strong_induction_on generalizing o with
  | _ n ih =>
    subst hn
    cases hwait : o.sendConnector.waiting with
    | none =>
      obtain ⟨front, hframes, hlen⟩ := h.queue
      rw [hwait] at hframes
      have hlength := congrArg List.length hframes
      simp only [frames, List.length_map, Option.toList_none, List.append_nil] at hlength
      exact ⟨[], o, nofun, rfl, ⟨rfl, rfl, hserver⟩, by omega⟩
    | some data =>
      obtain ⟨e, o₁, hserves, hstep, hstays, htodo⟩ := h.progress hserver hwait
      obtain ⟨es, o', hes, hrun, hstays', hreported⟩ := ih o₁.todo htodo (h.step hstep) hstays.output rfl
      refine ⟨e :: es, o', ?_, ?_, hstays.trans hstays', hreported.trans (by rw [hstays.queued])⟩
      · intro e' he'
        rcases List.mem_cons.mp he' with rfl | he'
        · exact hserves
        · exact hes e' he'
      · rw [Run.run, hstep]
        exact hrun

end UdpGwSend

/-! ### The law -/

/-- The stream got whole packets in their order, and at the end perhaps the beginning of
one more. At most the last of the whole ones was not reported done. -/
def ServerStream.Carries (st : ServerStream) (packets : List (List UInt8)) : Prop :=
  ∃ whole rest, st.bytes = whole.flatten ++ rest ∧ whole <+: packets ∧
    (rest = [] ∨ ∃ p, packets[whole.length]? = some p ∧ rest <+: p ∧ rest.length < p.length) ∧
    (whole.length = st.reported ∨ whole.length = st.reported + 1 ∧ rest = [])

/-- Each stream carries the packets from the first one on that was not reported done when
it was connected. -/
def Tiles (packets : List (List UInt8)) : List ServerStream → Prop
  | [] => True
  | st :: older => st.Carries (packets.drop (reported older)) ∧ Tiles packets older

theorem ServerStream.Sent.carries {st : ServerStream} {packets : List (List UInt8)} {got : List UInt8}
    (h : st.Sent packets got) (hbegins : Begins (packets.drop st.reported) got) : st.Carries packets := by
  have hlength : (packets.take st.reported).length = st.reported := List.length_take_of_le h.reported
  rcases hbegins with rfl | ⟨p, hp, hgot⟩
  · exact ⟨packets.take st.reported, [], h.bytes, List.take_prefix .., .inl rfl, .inl hlength⟩
  · have hnext : packets[st.reported]? = some p := by
      rw [← hp, List.head?_drop]
    by_cases hall : got.length < p.length
    · refine ⟨packets.take st.reported, got, h.bytes, List.take_prefix .., .inr ⟨p, ?_, hgot, hall⟩, .inl hlength⟩
      rw [hlength]
      exact hnext
    · obtain ⟨hlt, hget⟩ := List.getElem?_eq_some_iff.mp hnext
      have hwhole : got = p := hgot.eq_of_length_le (not_lt.mp hall)
      refine ⟨packets.take (st.reported + 1), [], ?_, List.take_prefix .., .inl rfl, .inr ⟨?_, rfl⟩⟩
      · rw [h.bytes, List.take_succ_eq_append_getElem hlt, hget, hwhole]
        simp
      · exact List.length_take_of_le hlt

theorem Continues.tiles {packets : List (List UInt8)} {streams : List ServerStream} (h : Continues packets streams) :
    Tiles packets streams := by
  induction streams with
  | nil => trivial
  | cons st older ih =>
    obtain ⟨⟨got, hsent, hbegins⟩, holder⟩ := h
    refine ⟨hsent.carries ?_, ih holder⟩
    rw [List.drop_drop]
    exact hbegins

/-- **Whatever the server does, its streams carry the packets of the queue in order**: each
stream goes on with the packet that the one before did not get reported done, all packets
but the last one that the queue sent were reported done, and while there is a server that
one can be, too. -/
theorem udpgwSend_streams (ppMtu : Nat) (es : List SendEvent) (o : UdpGwSend)
    (hrun : Run.run UdpGwSend.step (.init ppMtu) es = some o) :
    Tiles (o.queued.map ppFrame) o.streams ∧
      reported o.streams ≤ o.queued.length ∧ o.queued.length ≤ reported o.streams + 1 ∧
      o.returned ≤ reported o.streams ∧ reported o.streams ≤ o.returned + 1 ∧
      (o.sendConnector.output.isSome → ∃ es' o', (∀ e ∈ es', UdpGwSend.Serves e) ∧
        Run.run UdpGwSend.step o es' = some o' ∧ o'.queued = o.queued ∧ o'.streams.length = o.streams.length ∧
        reported o'.streams = o.queued.length) := by
  have hinv : o.Inv := Run.run_invariant UdpGwSend.Inv (fun _ _ _ hi hs => hi.step hs) hrun (UdpGwSend.inv_init ppMtu)
  obtain ⟨front, hframes, hlen⟩ := hinv.queue
  have hlength := congrArg List.length hframes
  have hwait : o.sendConnector.waiting.toList.length ≤ 1 := by
    cases o.sendConnector.waiting <;> simp
  have hreturned := hinv.returned
  simp only [UdpGwSend.frames, List.length_map, List.length_append] at hlength
  refine ⟨hinv.continues.tiles, by omega, by omega, by omega, ?_, ?_⟩
  · split at hreturned <;> omega
  · intro hserver
    obtain ⟨es', o', hes, hrun', hstays, hreported⟩ := hinv.finishes hserver
    exact ⟨es', o', hes, hrun', hstays.queued, hstays.streams, hreported⟩

/-- The server goes away in the middle of the packet, and another one gets it. -/
def reconnect : List SendEvent :=
  [.connect true, .queueSend [7], .connectorOperation, .senderOperation, .streamOperation, .sent 2, .disconnect,
    .connect false, .connect true, .senderOperation, .streamOperation, .sent 1, .streamDone, .streamOperation, .sent 2]

theorem udpgwSend_streams_reconnect :
    ∃ o, Run.run UdpGwSend.step (.init 3) reconnect = some o ∧ o.streams = [⟨[1, 0, 7], 0⟩, ⟨[1, 0], 0⟩] ∧
      Tiles [[1, 0, 7]] o.streams := by
  have hrun : (Run.run UdpGwSend.step (.init 3) reconnect).any (fun o => o.queued = [[7]] ∧
      o.streams = [⟨[1, 0, 7], 0⟩, ⟨[1, 0], 0⟩]) = true := by
    decide +kernel
  obtain ⟨o, ho, hstreams⟩ := (Option.any_eq_true _ _).mp hrun
  obtain ⟨hqueued, hstreams⟩ := of_decide_eq_true hstreams
  have hlaw := (udpgwSend_streams 3 reconnect o ho).1
  rw [hqueued] at hlaw
  exact ⟨o, ho, hstreams, hlaw⟩

end TwilightLine.UdpGw
