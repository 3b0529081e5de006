import TwilightLine.Misc.ByteOrder
import TwilightLine.Structure.ChunkBuffer2

/-! A packet flow: `flow/BufferWriter.c`, `flow/PacketProtoEncoder.c` and
`flow/PacketBuffer.c`, wired as `flow/PacketProtoFlow.c` wires them.

A packet is written where the ring offers room, the encoder puts the header in front
of it, and the buffer stores it for the output. Each hand-over is a job: the handlers
return the job that they set, if any. A `PacketRecvInterface` has one job for a
receive (`…Operation`) and one for its completion (`…Done`).

`Wired` says in which of the five positions the wiring is, given the pending jobs of
the flow. Every handler moves it from one to the next, so a packet is stored once and
in the order in which it was written (`toSend`). -/
namespace TwilightLine

/-- `sizeof(struct packetproto_header)`. -/
def packetprotoHeaderSize : Nat := 2

/-- A packet with its PacketProto header. -/
def packetprotoFrame {ν : Type*} (p : Packet ν) : Packet ν :=
  {p with bytes := le16 (UInt16.ofNat p.bytes.length) ++ p.bytes}

/-- What the output of the flow does with the oldest packet. -/
inductive FlowOutput where
  /-- No packet was sent to it. -/
  | idle
  /-- The packet was sent to it. -/
  | sending
  /-- The receiver has got the packet; the completion is still to come. -/
  | passed
  deriving DecidableEq, Repr

/-- The jobs of the two interfaces inside the flow. -/
inductive FlowJob where
  /-- `output_handler_recv` of the encoder. -/
  | encoderOperation
  /-- `output_handler_recv` of the writer. -/
  | writerOperation
  /-- `input_handler_done` of the encoder. -/
  | writerDone
  /-- `input_handler_done` of the buffer. -/
  | encoderDone
  deriving DecidableEq, Repr

structure PacketProtoFlow (ν : Type*) where
  /-- `ainput.out_have`. -/
  outHave : Bool
  /-- The packet written at `buf.input_dest` that is not submitted to the ring yet. -/
  input : Option (Packet ν)
  /-- `buffer.input_mtu`. -/
  inputMtu : Nat
  buf : ChunkBuffer2 ν
  output : FlowOutput

namespace PacketProtoFlow
variable {ν : Type*}

/-- `PacketProtoFlow_Init`, up to the allocation of the ring. -/
def init (inputMtu numPackets : Nat) : Option (PacketProtoFlow ν × FlowJob) :=
  let mtu := packetprotoHeaderSize + inputMtu
  let numBlocks := ChunkBuffer2.calcBlocks mtu numPackets
  if numBlocks < 0 then none
  else
    some
      ({ outHave := false, input := none, inputMtu := mtu, buf := .init numBlocks mtu, output := .idle },
        .encoderOperation)

/-- `BufferWriter_EndPacket` of a packet written after `BufferWriter_StartPacket`. -/
def endPacket (o : PacketProtoFlow ν) (p : Packet ν) : PacketProtoFlow ν × FlowJob :=
  ({o with outHave := false, input := some p}, .writerDone)

/-- `PacketRecvInterface_Receiver_Recv`, where the ring has room for a packet of any size. -/
def recv (o : PacketProtoFlow ν) : Option FlowJob :=
  if o.buf.inputAvail ≥ o.inputMtu then some .encoderOperation else none

/-- A packet joins the ring, and is sent where the ring was empty. -/
def store (o : PacketProtoFlow ν) (p : Packet ν) : PacketProtoFlow ν :=
  {o with
    buf := o.buf.submitPacket p
    input := none
    output := if o.buf.outputAvail < 0 then .sending else o.output}

/-- `input_handler_done` of `PacketBuffer.c`. -/
def inputHandlerDone (o : PacketProtoFlow ν) : PacketProtoFlow ν × Option FlowJob :=
  match o.input with
  | none => (o, none)
  | some p => (o.store p, (o.store p).recv)

/-- The oldest packet leaves the ring, and the next one is sent. -/
def consume (o : PacketProtoFlow ν) : PacketProtoFlow ν :=
  {o with
    buf := o.buf.consumePacket
    output := if o.buf.consumePacket.outputAvail ≥ 0 then .sending else .idle}

/-- `output_handler_done` of `PacketBuffer.c`. -/
def outputHandlerDone (o : PacketProtoFlow ν) : PacketProtoFlow ν × Option FlowJob :=
  (o.consume, if o.buf.inputAvail < o.inputMtu then o.consume.recv else none)

/-- A job of the flow. -/
def runJob (o : PacketProtoFlow ν) : FlowJob → PacketProtoFlow ν × Option FlowJob
  | .encoderOperation => (o, some .writerOperation)
  | .writerOperation => ({o with outHave := true}, none)
  | .writerDone => ({o with input := o.input.map packetprotoFrame}, some .encoderDone)
  | .encoderDone => o.inputHandlerDone

/-! ### The positions of the wiring -/

/-- The ring has room for a packet of any size. -/
def Room (o : PacketProtoFlow ν) : Prop := (o.inputMtu : Int) ≤ o.buf.inputAvail

/-- What the wiring looks like while the given jobs of the flow are pending. -/
def Position (o : PacketProtoFlow ν) : List FlowJob → Prop
  | [] => o.input = none ∧ (o.outHave = true ↔ o.Room)
  | [.encoderOperation] => o.input = none ∧ o.outHave = false ∧ o.Room
  | [.writerOperation] => o.input = none ∧ o.outHave = false ∧ o.Room
  | [.writerDone] => ∃ p, o.input = some p ∧ packetprotoHeaderSize + p.bytes.length ≤ o.inputMtu ∧
      o.outHave = false ∧ o.Room
  | [.encoderDone] => ∃ p, o.input = some p ∧ p.bytes.length ≤ o.inputMtu ∧ o.outHave = false ∧ o.Room
  | _ => False

/-- The invariant of a flow and its pending jobs. -/
structure Wired (o : PacketProtoFlow ν) (jobs : List FlowJob) : Prop where
  buf : o.buf.Ok
  position : o.Position jobs
  output : o.output ≠ .idle ↔ o.buf.packets ≠ []

/-- The frames accepted and not sent yet, oldest first. -/
def toSend (o : PacketProtoFlow ν) (jobs : List FlowJob) : List (Packet ν) :=
  o.buf.packets ++
    match jobs with
    | [.writerDone] => (o.input.map packetprotoFrame).toList
    | [.encoderDone] => o.input.toList
    | _ => []

theorem wired_init {inputMtu numPackets : Nat} {o : PacketProtoFlow ν} {j : FlowJob} (hn : 0 < numPackets)
    (h : init inputMtu numPackets = some (o, j)) : o.Wired [j] := by
  unfold init at h
  dsimp only at h
  split at h
  · cases h
  · next hblocks =>
    cases h
    obtain ⟨hpos, hroom⟩ := ChunkBuffer2.calcBlocks_room hn (not_lt.mp hblocks)
    exact ⟨ChunkBuffer2.ok_init hpos _, ⟨rfl, rfl, hroom⟩, by simp⟩

theorem init_job {inputMtu numPackets : Nat} {o : PacketProtoFlow ν} {j : FlowJob}
    (h : init inputMtu numPackets = some (o, j)) : j = .encoderOperation := by
  unfold init at h
  dsimp only at h
  split at h
  · cases h
  · cases h
    rfl

theorem init_output {inputMtu numPackets : Nat} {o : PacketProtoFlow ν} {j : FlowJob}
    (h : init inputMtu numPackets = some (o, j)) : o.output = .idle := by
  unfold init at h
  dsimp only at h
  split at h
  · cases h
  · cases h
    rfl

theorem init_inputMtu {inputMtu numPackets : Nat} {o : PacketProtoFlow ν} {j : FlowJob}
    (h : init inputMtu numPackets = some (o, j)) : o.inputMtu = packetprotoHeaderSize + inputMtu := by
  unfold init at h
  dsimp only at h
  split at h
  · cases h
  · cases h
    rfl

/-- While the writer may start a packet, no job of the flow is pending. -/
theorem Wired.jobs_nil {o : PacketProtoFlow ν} {jobs : List FlowJob} (h : o.Wired jobs)
    (hout : o.outHave = true) : jobs = [] := by
  have hpos := h.position
  match jobs, hpos with
  | [], _ => rfl
  | [.encoderOperation], ⟨_, hf, _⟩ => rw [hout] at hf; cases hf
  | [.writerOperation], ⟨_, hf, _⟩ => rw [hout] at hf; cases hf
  | [.writerDone], ⟨_, _, _, hf, _⟩ => rw [hout] at hf; cases hf
  | [.encoderDone], ⟨_, _, _, hf, _⟩ => rw [hout] at hf; cases hf

/-- At most one job of a flow is pending. -/
theorem Wired.jobs_single {o : PacketProtoFlow ν} {j : FlowJob} {jobs : List FlowJob}
    (h : o.Wired (j :: jobs)) : jobs = [] := by
  have hpos := h.position
  cases jobs with
  | nil => rfl
  | cons i rest =>
    cases j <;> exact hpos.elim

/-- **A packet is accepted.** -/
theorem Wired.endPacket {o : PacketProtoFlow ν} (h : o.Wired []) (hout : o.outHave = true) {p : Packet ν}
    (hlen : packetprotoHeaderSize + p.bytes.length ≤ o.inputMtu) :
    (o.endPacket p).1.Wired [(o.endPacket p).2] :=
  ⟨h.buf, ⟨p, rfl, hlen, rfl, h.position.2.mp hout⟩, h.output⟩

theorem frame_length {p : Packet ν} :
    (packetprotoFrame p).bytes.length = packetprotoHeaderSize + p.bytes.length := by
  rw [packetprotoFrame, List.length_append, le16_length, packetprotoHeaderSize]

/-- The next receive starts where the ring has room left. -/
theorem position_recv {o : PacketProtoFlow ν} (hin : o.input = none) (hout : o.outHave = false) :
    o.Position o.recv.toList := by
  unfold recv
  split
  · next hroom => exact ⟨hin, hout, hroom⟩
  · next hfull =>
    refine ⟨hin, fun ht => ?_, fun hroom => absurd hroom hfull⟩
    rw [hout] at ht
    cases ht

theorem recv_eq (o : PacketProtoFlow ν) : o.recv = none ∨ o.recv = some .encoderOperation := by
  unfold recv
  split
  · exact .inr rfl
  · exact .inl rfl

theorem Wired.inputHandlerDone {o : PacketProtoFlow ν} (h : o.Wired [.encoderDone]) :
    o.inputHandlerDone.1.Wired o.inputHandlerDone.2.toList := by
  obtain ⟨p, hin, hlen, hout, hroom⟩ := h.position
  unfold Room at hroom
  have hok := h.buf.submit (h.buf.inputDest_isSome (by omega)) (p := p) (by omega)
  have hnonempty := h.buf.outputAvail_nonneg
  unfold PacketProtoFlow.inputHandlerDone
  rw [hin]
  refine ⟨hok, position_recv rfl hout, ?_⟩
  show (if o.buf.outputAvail < 0 then .sending else o.output) ≠ FlowOutput.idle ↔
    (o.buf.submitPacket p).packets ≠ []
  rw [ChunkBuffer2.submitPacket_packets]
  split
  · simp
  · next hmore => simpa using h.output.mpr (hnonempty.mp (not_lt.mp hmore))

/-- **A job moves the wiring on.** -/
theorem Wired.runJob {o : PacketProtoFlow ν} {j : FlowJob} (h : o.Wired [j]) :
    (o.runJob j).1.Wired (o.runJob j).2.toList := by
  cases j with
  | encoderOperation => exact ⟨h.buf, h.position, h.output⟩
  | writerOperation =>
    obtain ⟨hin, -, hroom⟩ := h.position
    exact ⟨h.buf, ⟨hin, fun _ => hroom, fun _ => rfl⟩, h.output⟩
  | writerDone =>
    obtain ⟨p, hin, hlen, hout, hroom⟩ := h.position
    refine ⟨h.buf, ⟨packetprotoFrame p, ?_, ?_, hout, hroom⟩, h.output⟩
    · simp [PacketProtoFlow.runJob, hin]
    · rw [frame_length]
      exact hlen
  | encoderDone => exact h.inputHandlerDone

/-- In a position with room a consume changes nothing for the writer. -/
theorem Position.consume {o : PacketProtoFlow ν} {jobs : List FlowJob} (h : o.Position jobs)
    (hroom : o.Room) (hroom' : o.consume.Room) : o.consume.Position jobs := by
  match jobs, h with
  | [], ⟨hin, hout⟩ => exact ⟨hin, fun _ => hroom', fun _ => hout.mpr hroom⟩
  | [.encoderOperation], ⟨hin, hout, _⟩ => exact ⟨hin, hout, hroom'⟩
  | [.writerOperation], ⟨hin, hout, _⟩ => exact ⟨hin, hout, hroom'⟩
  | [.writerDone], ⟨p, hin, hlen, hout, _⟩ => exact ⟨p, hin, hlen, hout, hroom'⟩
  | [.encoderDone], ⟨p, hin, hlen, hout, _⟩ => exact ⟨p, hin, hlen, hout, hroom'⟩

/-- Without room the writer waits for a completion of the output. -/
theorem Position.full {o : PacketProtoFlow ν} {jobs : List FlowJob} (h : o.Position jobs)
    (hfull : ¬o.Room) : jobs = [] ∧ o.input = none ∧ o.outHave = false := by
  match jobs, h with
  | [], ⟨hin, hout⟩ => exact ⟨rfl, hin, by simpa using fun ht => hfull (hout.mp ht)⟩
  | [.encoderOperation], ⟨_, _, hroom⟩ => exact absurd hroom hfull
  | [.writerOperation], ⟨_, _, hroom⟩ => exact absurd hroom hfull
  | [.writerDone], ⟨_, _, _, _, hroom⟩ => exact absurd hroom hfull
  | [.encoderDone], ⟨_, _, _, _, hroom⟩ => exact absurd hroom hfull

/-- **A completion of the output moves the wiring on where the ring was full.** -/
theorem Wired.outputHandlerDone {o : PacketProtoFlow ν} {jobs : List FlowJob} (h : o.Wired jobs)
    (hsend : o.output ≠ .idle) :
    o.outputHandlerDone.1.Wired (o.outputHandlerDone.2.toList ++ jobs) := by
  have hne := h.output.mp hsend
  have hok := h.buf.consume hne
  have hnonempty := hok.outputAvail_nonneg
  unfold PacketProtoFlow.outputHandlerDone
  refine ⟨hok, ?_, ?_⟩
  · by_cases hroom : o.Room
    · have hroom' : o.consume.Room := le_trans hroom (h.buf.consume_inputAvail hne)
      rw [if_neg (not_lt.mpr hroom)]
      exact h.position.consume hroom hroom'
    · obtain ⟨rfl, hin, hout⟩ := h.position.full hroom
      rw [if_pos (not_le.mp hroom), List.append_nil]
      exact position_recv hin hout
  · show (if o.buf.consumePacket.outputAvail ≥ 0 then FlowOutput.sending else .idle) ≠ .idle ↔
      o.buf.consumePacket.packets ≠ []
    rw [← hnonempty]
    split
    · next hmore => exact ⟨fun _ => hmore, fun _ => nofun⟩
    · next hnone => exact ⟨fun hc => absurd rfl hc, fun hmore => absurd hmore hnone⟩

/-- A completion sets a job only while the writer waits for room. -/
theorem Wired.outputHandlerDone_none {o : PacketProtoFlow ν} {j : FlowJob} {jobs : List FlowJob}
    (h : o.Wired (j :: jobs)) : o.outputHandlerDone.2 = none := by
  by_cases hroom : o.Room
  · exact if_neg (not_lt.mpr hroom)
  · exact nomatch (h.position.full hroom).1

theorem outputHandlerDone_output (o : PacketProtoFlow ν) : o.outputHandlerDone.1.output ≠ .passed := by
  show (if o.buf.consumePacket.outputAvail ≥ 0 then FlowOutput.sending else .idle) ≠ .passed
  split <;> nofun

theorem runJob_inputMtu (o : PacketProtoFlow ν) (j : FlowJob) : (o.runJob j).1.inputMtu = o.inputMtu := by
  cases j with
  | encoderOperation => rfl
  | writerOperation => rfl
  | writerDone => rfl
  | encoderDone =>
    unfold PacketProtoFlow.runJob PacketProtoFlow.inputHandlerDone
    dsimp only
    split <;> rfl

/-! ### What is sent -/

theorem init_toSend {inputMtu numPackets : Nat} {o : PacketProtoFlow ν} {j : FlowJob}
    (h : init inputMtu numPackets = some (o, j)) : o.toSend [j] = [] := by
  unfold init at h
  dsimp only at h
  split at h
  · cases h
  · cases h
    rfl

theorem toSend_cons {o : PacketProtoFlow ν} {p : Packet ν} {ps : List (Packet ν)} (jobs : List FlowJob)
    (h : o.buf.packets = p :: ps) : ∃ rest, o.toSend jobs = p :: rest := by
  unfold toSend
  rw [h]
  exact ⟨_, rfl⟩

theorem toSend_endPacket (o : PacketProtoFlow ν) (p : Packet ν) :
    (o.endPacket p).1.toSend [(o.endPacket p).2] = o.toSend [] ++ [packetprotoFrame p] := by
  simp [toSend, PacketProtoFlow.endPacket]

/-- **No job loses, adds or reorders a packet.** -/
theorem Wired.toSend_runJob {o : PacketProtoFlow ν} {j : FlowJob} (h : o.Wired [j]) :
    (o.runJob j).1.toSend (o.runJob j).2.toList = o.toSend [j] := by
  cases j with
  | encoderOperation => rfl
  | writerOperation => rfl
  | writerDone => rfl
  | encoderDone =>
    obtain ⟨p, hin, -⟩ := h.position
    unfold PacketProtoFlow.runJob PacketProtoFlow.inputHandlerDone recv toSend
    rw [hin]
    dsimp only
    split <;> simp [store]

/-- **A completion takes the oldest packet off.** -/
theorem Wired.toSend_outputHandlerDone {o : PacketProtoFlow ν} {jobs : List FlowJob} (h : o.Wired jobs)
    (hsend : o.output ≠ .idle) : ∃ p, o.buf.packets.head? = some p ∧
      o.toSend jobs = p :: o.outputHandlerDone.1.toSend (o.outputHandlerDone.2.toList ++ jobs) := by
  obtain ⟨p, ps, hps⟩ := List.exists_cons_of_ne_nil (h.output.mp hsend)
  refine ⟨p, by rw [hps]; rfl, ?_⟩
  unfold PacketProtoFlow.outputHandlerDone
  by_cases hroom : o.Room
  · rw [if_neg (not_lt.mpr hroom)]
    simp [toSend, PacketProtoFlow.consume, hps]
  · obtain ⟨rfl, -, -⟩ := h.position.full hroom
    rw [if_pos (not_le.mp hroom), List.append_nil]
    unfold recv
    split <;> simp [toSend, PacketProtoFlow.consume, hps]

end PacketProtoFlow

end TwilightLine
