import TwilightLine.Flow.PacketStreamSender

/-! `flow/PacketPassConnector.c`, in front of a sender that comes and goes.

The connector remembers its packet until an output is done with it; an output that is
connected meanwhile gets the packet from its beginning. The functions fail where their
assertions do. -/
namespace TwilightLine

/-- `PacketPassConnector`. -/
structure PacketPassConnector where
  input : PacketPassInterface
  /-- `in` and `in_len`; nothing where `in_len` is -1. -/
  packet : Option (List UInt8)
  /-- The sender whose input is `output`. -/
  output : Option PacketStreamSender
  deriving DecidableEq, Repr

namespace PacketPassConnector

/-- `PacketPassConnector_Init`. -/
def init (mtu : Nat) : PacketPassConnector := ⟨.init mtu, none, none⟩

/-- `input_handler_send`. -/
def inputHandlerSend (o : PacketPassConnector) (data : List UInt8) : Option PacketPassConnector :=
  if data.length ≤ o.input.mtu ∧ o.packet = none then
    match o.output with
    | none => some {o with packet := some data}
    | some s =>
      (s.input.send data).map fun input => {o with packet := some data, output := some {s with input := input}}
  else none

/-- `output_handler_done`. -/
def outputHandlerDone (o : PacketPassConnector) : Option PacketPassConnector :=
  if o.packet.isSome ∧ o.output.isSome then o.input.done.map fun input => {o with packet := none, input := input}
  else none

/-- `PacketPassConnector_ConnectOutput`. -/
def connectOutput (o : PacketPassConnector) (s : PacketStreamSender) : Option PacketPassConnector :=
  if o.output = none ∧ o.input.mtu ≤ s.input.mtu then
    match o.packet with
    | none => some {o with output := some s}
    | some data => (s.input.send data).map fun input => {o with output := some {s with input := input}}
  else none

/-- `PacketPassConnector_DisconnectOutput`. -/
def disconnectOutput (o : PacketPassConnector) : Option PacketPassConnector :=
  if o.output.isSome then some {o with output := none} else none

/-- The operation job of the input. -/
def inputOperation (o : PacketPassConnector) : Option PacketPassConnector :=
  o.input.jobOperation.bind fun r => {o with input := r.2}.inputHandlerSend r.1

/-- The done job of the input. -/
def inputJobDone (o : PacketPassConnector) : Option PacketPassConnector :=
  o.input.jobDone.map fun input => {o with input := input}

/-- The done job of the output. -/
def outputJobDone (o : PacketPassConnector) : Option PacketPassConnector :=
  o.output.bind fun s =>
    s.input.jobDone.bind fun input => {o with output := some {s with input := input}}.outputHandlerDone

/-! ### The packet of the connector -/

/-- The packet that the user of the input waits for. -/
def waiting (o : PacketPassConnector) : Option (List UInt8) :=
  match o.input.state with
  | .operationPending data | .busy data => some data
  | _ => none

/-- What the output got of the packet that it has, if it is connected. -/
def Sends (o : PacketPassConnector) (got : List UInt8) : Prop :=
  match o.output, o.packet with
  | none, _ => True
  | some s, none => s.Rest ∧ got = []
  | some s, some data => s.At data got

/-- The connector has the packet while its input is busy, and a packet fits the output. -/
structure Ok (o : PacketPassConnector) : Prop where
  packet : ∀ data, o.packet = some data ↔ o.input.state = .busy data
  fits : ∀ data, o.waiting = some data → data.length ≤ o.input.mtu
  mtu : ∀ s, o.output = some s → o.input.mtu ≤ s.input.mtu

variable {o o' : PacketPassConnector} {data got : List UInt8}

theorem ok_init (mtu : Nat) : Ok (init mtu) where
  packet := by simp [init, PacketPassInterface.init]
  fits := nofun
  mtu := nofun

theorem Ok.packet_none (h : Ok o) (hs : ∀ data, o.input.state ≠ .busy data) : o.packet = none := by
  cases hp : o.packet with
  | none => rfl
  | some data => exact absurd ((h.packet data).mp hp) (hs data)

theorem Ok.waiting_of_packet (h : Ok o) (hp : o.packet = some data) : o.waiting = some data := by
  rw [waiting, (h.packet data).mp hp]

/-- The sender goes on. -/
theorem Sends.output {got' : List UInt8} {s s' : PacketStreamSender} (hout : o.output = some s) (h : o.Sends got)
    (hrest : s.Rest → s'.Rest ∧ got' = []) (hat : ∀ data, s.At data got → s'.At data got') :
    Sends {o with output := some s'} got' := by
  obtain ⟨input, packet, output⟩ := o
  cases hout
  cases packet with
  | none => exact hrest h.1
  | some data => exact hat data h

/-- The user of the input sends a packet. -/
theorem Ok.send (h : Ok o) {input : PacketPassInterface} (he : o.input.send data = some input) :
    Ok {o with input := input} ∧ o.waiting = none ∧ waiting {o with input := input} = some data ∧
      input.mtu = o.input.mtu ∧ input.state ≠ .donePending () ∧ o.input.state ≠ .donePending () := by
  obtain ⟨hidle, hlen, rfl⟩ := PacketPassInterface.send_eq he
  have hnone : o.packet = none := h.packet_none fun _ hb => by simp [hidle] at hb
  refine ⟨⟨?_, ?_, h.mtu⟩, by rw [waiting, hidle], rfl, rfl, nofun, by rw [hidle]; nofun⟩
  · intro d
    rw [show ({o with input := ⟨o.input.mtu, .operationPending data⟩} : PacketPassConnector).packet = none from hnone]
    simp
  · intro d hd
    cases hd
    exact hlen

/-- The packet comes to the connector, and goes on to the output. -/
theorem Ok.inputOperation (h : Ok o) (hsends : o.Sends got) (he : o.inputOperation = some o') :
    Ok o' ∧ o'.waiting = o.waiting ∧ o'.Sends got ∧ o'.output.isSome = o.output.isSome ∧
      o'.input.mtu = o.input.mtu ∧ o'.input.state ≠ .donePending () ∧ o.input.state ≠ .donePending () := by
  obtain ⟨⟨data, input⟩, hinput, he⟩ := Option.bind_eq_some_iff.mp he
  obtain ⟨hpending, rfl⟩ := PacketPassInterface.jobOperation_eq hinput
  obtain ⟨⟨hlen, hnone⟩, he⟩ := Option.ite_none_right_eq_some.mp he
  have hnone : o.packet = none := hnone
  have hwait : o.waiting = some data := by rw [waiting, hpending]
  have hsource : o.input.state ≠ .donePending () := by
    rw [hpending]
    nofun
  have hpacket : ∀ d, some data = some d ↔ (Transfer.busy data : Transfer (List UInt8) Unit) = .busy d := by simp
  cases hout : o.output with
  | none =>
    rw [show ({o with input := ⟨o.input.mtu, .busy data⟩} : PacketPassConnector).output = none from hout] at he
    cases he
    refine ⟨⟨hpacket, ?_, nofun⟩, hwait.symm, trivial, rfl, rfl, nofun, hsource⟩
    intro d hd
    cases hd
    exact hlen
  | some s =>
    rw [show ({o with input := ⟨o.input.mtu, .busy data⟩} : PacketPassConnector).output = some s from hout] at he
    obtain ⟨i, hi, rfl⟩ := Option.map_eq_some_iff.mp he
    have hrest : s.Rest ∧ got = [] := by
      rw [Sends, hout, hnone] at hsends
      exact hsends
    obtain ⟨-, -, rfl⟩ := PacketPassInterface.send_eq hi
    refine ⟨⟨hpacket, ?_, ?_⟩, hwait.symm, ?_, rfl, rfl, nofun, hsource⟩
    · intro d hd
      cases hd
      exact hlen
    · intro s' hs'
      cases hs'
      exact h.mtu s hout
    · obtain ⟨hrest, rfl⟩ := hrest
      exact .requested rfl hrest.packet hrest.output

/-- The user of the input hears that the packet is done. -/
theorem Ok.inputJobDone (h : Ok o) (he : o.inputJobDone = some o') :
    Ok o' ∧ o.waiting = none ∧ o'.waiting = none ∧ o'.output = o.output ∧ o'.packet = o.packet ∧
      o'.input.mtu = o.input.mtu ∧ o'.input.state ≠ .donePending () ∧ o.input.state = .donePending () := by
  obtain ⟨input, hinput, rfl⟩ := Option.map_eq_some_iff.mp he
  obtain ⟨hdone, rfl⟩ := PacketPassInterface.jobDone_eq hinput
  have hnone : o.packet = none := h.packet_none fun _ hb => by simp [hdone] at hb
  refine ⟨⟨?_, nofun, h.mtu⟩, by rw [waiting, hdone], rfl, rfl, rfl, rfl, nofun, hdone⟩
  intro d
  rw [show ({o with input := ⟨o.input.mtu, .idle⟩} : PacketPassConnector).packet = none from hnone]
  simp

/-- The output is done with the packet, all of which was sent. -/
theorem Ok.outputJobDone (h : Ok o) (hsends : o.Sends got) (he : o.outputJobDone = some o') :
    Ok o' ∧ o.waiting = some got ∧ o'.waiting = none ∧ o'.Sends [] ∧ o'.output.isSome ∧ o.output.isSome ∧
      o'.input.mtu = o.input.mtu ∧ o'.input.state = .donePending () ∧ o.input.state ≠ .donePending () := by
  obtain ⟨s, hout, he⟩ := Option.bind_eq_some_iff.mp he
  obtain ⟨input, hinput, he⟩ := Option.bind_eq_some_iff.mp he
  obtain ⟨⟨hpacket, -⟩, he⟩ := Option.ite_none_right_eq_some.mp he
  obtain ⟨i, hi, rfl⟩ := Option.map_eq_some_iff.mp he
  obtain ⟨⟨data, hbusy⟩, rfl⟩ := PacketPassInterface.done_eq hi
  have hbusy : o.input.state = .busy data := hbusy
  have hp : o.packet = some data := (h.packet data).mpr hbusy
  rw [Sends, hout, hp] at hsends
  obtain ⟨rfl, hrest⟩ := hsends.jobDone hinput
  refine ⟨⟨?_, nofun, ?_⟩, h.waiting_of_packet hp, rfl, ⟨hrest, rfl⟩, rfl, by rw [hout]; rfl, rfl, rfl,
    by rw [hbusy]; nofun⟩
  · intro d
    simp
  · intro s' hs'
    cases hs'
    obtain ⟨-, rfl⟩ := PacketPassInterface.jobDone_eq hinput
    exact h.mtu s hout

/-- The packet that the connector remembers is sent to the new output from its beginning. -/
theorem Ok.connectOutput (h : Ok o) {s : PacketStreamSender} (hs : s.Rest) (he : o.connectOutput s = some o') :
    Ok o' ∧ o'.waiting = o.waiting ∧ o'.Sends [] ∧ o'.output.isSome ∧ o'.input = o.input := by
  obtain ⟨⟨-, hmtu⟩, he⟩ := Option.ite_none_right_eq_some.mp he
  have hpacket := h.packet
  cases hp : o.packet with
  | none =>
    rw [hp] at he hpacket
    cases he
    refine ⟨⟨hpacket, h.fits, ?_⟩, rfl, ⟨hs, rfl⟩, rfl, rfl⟩
    intro s' hs'
    cases hs'
    exact hmtu
  | some data =>
    rw [hp] at he hpacket
    obtain ⟨input, hinput, rfl⟩ := Option.map_eq_some_iff.mp he
    obtain ⟨-, -, rfl⟩ := PacketPassInterface.send_eq hinput
    refine ⟨⟨hpacket, h.fits, ?_⟩, rfl, .requested rfl hs.packet hs.output, rfl, rfl⟩
    intro s' hs'
    cases hs'
    exact hmtu

end PacketPassConnector

end TwilightLine
