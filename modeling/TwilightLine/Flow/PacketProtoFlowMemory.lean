import TwilightLine.Base.BPending
import TwilightLine.Flow.PacketProto
import TwilightLine.Structure.ChunkBuffer2Capacity

/-! A packet flow in memory.

`PacketProtoFlow` with the pointers that its parts hand on. The buffer offers the place
of the next packet in its ring to the encoder, the encoder the place behind a header to
the writer, and the caller writes the packet there. So a packet is never copied: it is
stored when the header and the length of its block are written. Pointers are offsets in
the array of the ring, `none` where they are `NULL`. -/
namespace TwilightLine

open Lib
open ChunkBuffer2 (ChunkMemory blockAddr)

/-- What an `int` is after it was set to a `size_t`. -/
def toInt (n : Int) : Int := (BitVec.ofInt 32 n).toInt

theorem toInt_of_lt {n : Int} (hn : -1 ≤ n) (h : n < 2 ^ 31) : toInt n = n := by
  unfold toInt
  rw [BitVec.toInt_ofInt, Int.bmod_eq_of_le] <;> omega

/-- `PacketRecvInterface`: what its two jobs hand over. -/
structure PacketRecvInterface where
  jobOperationData : Option Int
  jobDoneLen : Nat

structure FlowMemory where
  /-- `ainput.out_have`. -/
  outHave : Bool
  /-- `ainput.out`. -/
  out : Option Int
  /-- `ainput.d_writing`. -/
  writing : Bool
  /-- `ainput.recv_interface`. -/
  ainput : PacketRecvInterface
  /-- `encoder.output_packet`. -/
  outputPacket : Option Int
  /-- `encoder.output`. -/
  encoder : PacketRecvInterface
  /-- `buffer.input_mtu`. -/
  inputMtu : Nat
  /-- `buffer.buf`. -/
  buf : ChunkMemory
  /-- `buffer.output`, with the packet that was sent to it last. -/
  output : FlowOutput
  outputData : Option Int
  outputLen : Int
  /-- The jobs of the flow that are pending, the one to run next first. -/
  jobs : List FlowJob

inductive FlowEvent where
  | startPacket
  /-- The caller writes bytes where it was told to write the packet. -/
  | write (off : Nat) (data : List UInt8)
  | endPacket (len : Nat)
  /-- The next job of the flow runs. -/
  | job
  /-- The receiver behind the flow is done with the packet that it was sent. -/
  | pass
  /-- The job for this runs. -/
  | outputDone
  deriving DecidableEq, Repr

namespace FlowMemory

/-! ### `PacketBuffer` -/

/-- `buf.input_avail`, where the number of bytes was set to an `int`. -/
def inputAvail (o : FlowMemory) : Int := toInt o.buf.inputAvail

/-- `PacketRecvInterface_Receiver_Recv` of the buffer. -/
def recv (o : FlowMemory) : FlowMemory :=
  {o with
    encoder := {o.encoder with jobOperationData := o.buf.inputDest.map blockAddr}
    jobs := BPending.set .encoderOperation o.jobs}

/-- `PacketPassInterface_Sender_Send` of the buffer. -/
def send (o : FlowMemory) : FlowMemory :=
  {o with
    output := .sending
    outputData := o.buf.outputDest.map blockAddr
    outputLen := o.buf.outputAvail}

/-- `input_handler_done` of the buffer. -/
def storeDone (o : FlowMemory) (inLen : Nat) : FlowMemory :=
  let wasEmpty := o.buf.outputAvail < 0
  let o := {o with buf := o.buf.submitPacket inLen}
  let o := if o.inputAvail ≥ o.inputMtu then o.recv else o
  if wasEmpty then o.send else o

/-- `output_handler_done`. -/
def outputHandlerDone (o : FlowMemory) : FlowMemory :=
  let wasFull := o.inputAvail < o.inputMtu
  let o := {o with output := .idle, buf := o.buf.consumePacket}
  let o := if wasFull ∧ o.inputAvail ≥ o.inputMtu then o.recv else o
  if o.buf.outputAvail ≥ 0 then o.send else o

/-! ### `PacketProtoEncoder` and `BufferWriter` -/

/-- Bytes are written into the array of the ring. -/
def put (o : FlowMemory) (a : Int) (data : List UInt8) : FlowMemory :=
  {o with buf := {o.buf with buffer := writeBytes o.buf.buffer a data}}

/-- `output_handler_recv` of the encoder. -/
def encoderRecv (o : FlowMemory) (data : Option Int) : FlowMemory :=
  {o with
    outputPacket := data
    ainput := {o.ainput with jobOperationData := data.map (· + packetprotoHeaderSize)}
    jobs := BPending.set .writerOperation o.jobs}

/-- `input_handler_done` of the encoder. -/
def encoderDone (o : FlowMemory) (inLen : Nat) : Option FlowMemory :=
  o.outputPacket.map fun packet =>
    {o.put packet (le16 (UInt16.ofNat inLen)) with
      outputPacket := none
      encoder := {o.encoder with jobDoneLen := packetprotoHeaderSize + inLen}
      jobs := BPending.set .encoderDone o.jobs}

/-- `output_handler_recv` of the writer. -/
def writerRecv (o : FlowMemory) (data : Option Int) : FlowMemory := {o with outHave := true, out := data}

/-- A job of the flow. -/
def runJob (o : FlowMemory) : FlowJob → Option FlowMemory
  | .encoderOperation => some (o.encoderRecv o.encoder.jobOperationData)
  | .writerOperation => some (o.writerRecv o.ainput.jobOperationData)
  | .writerDone => o.encoderDone o.ainput.jobDoneLen
  | .encoderDone => some (o.storeDone o.encoder.jobDoneLen)

/-- `BufferWriter_StartPacket`: whether it succeeds, and the writer after it. -/
def startPacket (o : FlowMemory) : Bool × FlowMemory :=
  if o.outHave then (true, {o with writing := true}) else (false, o)

/-- `BufferWriter_EndPacket`. -/
def endPacket (o : FlowMemory) (len : Nat) : FlowMemory :=
  {o with
    outHave := false
    ainput := {o.ainput with jobDoneLen := len}
    jobs := BPending.set .writerDone o.jobs
    writing := false}

/-- `PacketProtoFlow_Init`, up to the allocation of the ring in memory with any content. -/
def init (memory : Memory) (inputMtu numPackets : Nat) : Option FlowMemory :=
  let mtu := packetprotoHeaderSize + inputMtu
  let numBlocks := ChunkBuffer2.calcBlocks mtu numPackets
  if numBlocks < 0 then none
  else
    some
      (recv
        { outHave := false, out := none, writing := false, ainput := ⟨none, 0⟩, outputPacket := none,
          encoder := ⟨none, 0⟩, inputMtu := mtu, buf := .init memory numBlocks.toNat mtu, output := .idle,
          outputData := none, outputLen := 0, jobs := [] })

/-! ### Runs -/

/-- What the callers may do, and when. -/
def Allowed (o : FlowMemory) : FlowEvent → Prop
  | .startPacket => o.writing = false
  | .write off data => o.writing = true ∧ packetprotoHeaderSize + off + data.length ≤ o.inputMtu
  | .endPacket len => o.writing = true ∧ packetprotoHeaderSize + len ≤ o.inputMtu
  | .job => o.jobs ≠ []
  | .pass => o.output = .sending
  | .outputDone => o.output = .passed

instance (o : FlowMemory) : (e : FlowEvent) → Decidable (o.Allowed e)
  | .startPacket => inferInstanceAs (Decidable (_ = false))
  | .write .. => inferInstanceAs (Decidable (_ ∧ _))
  | .endPacket _ => inferInstanceAs (Decidable (_ ∧ _))
  | .job => inferInstanceAs (Decidable (_ ≠ []))
  | .pass => inferInstanceAs (Decidable (_ = FlowOutput.sending))
  | .outputDone => inferInstanceAs (Decidable (_ = FlowOutput.passed))

/-- The flow after an event. -/
def handle (o : FlowMemory) : FlowEvent → Option FlowMemory
  | .startPacket => some o.startPacket.2
  | .write off data => o.out.map fun out => o.put (out + off) data
  | .endPacket len => some (o.endPacket len)
  | .job =>
    match o.jobs with
    | [] => none
    | j :: rest => {o with jobs := rest}.runJob j
  | .pass => some {o with output := .passed}
  | .outputDone => some o.outputHandlerDone

def step (o : FlowMemory) (e : FlowEvent) : Option FlowMemory := if o.Allowed e then o.handle e else none

/-- The bytes at the place where the packet is written. -/
def written (o : FlowMemory) (len : Nat) : Option (List UInt8) := o.out.map (readBytes o.buf.buffer · len)

/-- The bytes that the output was sent. -/
def given (o : FlowMemory) : Option (List UInt8) :=
  o.outputData.map (readBytes o.buf.buffer · o.outputLen.toNat)

/-- The packet that an event ends. -/
def packetOf (o : FlowMemory) : FlowEvent → List (List UInt8)
  | .endPacket len => (o.written len).toList
  | _ => []

/-- What the receiver got, at the event that it is done. -/
def receivedOf (o : FlowMemory) : FlowEvent → List (List UInt8)
  | .pass => o.given.toList
  | _ => []

/-- The packets that were written. -/
def packets : FlowMemory → List FlowEvent → List (List UInt8) := Run.trace step fun o e _ => o.packetOf e

/-- The packets at the output, when the receiver is done with them. -/
def received : FlowMemory → List FlowEvent → List (List UInt8) := Run.trace step fun o e _ => o.receivedOf e

/-- The number of packets that left the buffer. -/
def left (es : List FlowEvent) : Nat := es.count .outputDone

/-- The jobs of the flow, and what its output does. -/
def Internal (e : FlowEvent) : Prop := e = .job ∨ e = .pass ∨ e = .outputDone

/-- What a flow for this number of packets owes after a run: the packets that were written
so far, the frames that the receiver got and the number of packets that left the buffer. -/
structure Delivers (numPackets : Nat) (o : FlowMemory) (packets received : List (List UInt8)) (left : Nat) : Prop where
  /-- The frames of the packets arrive in order and once. -/
  inOrder : received <+: packets.map ppFrame
  /-- What the receiver is sent is the next frame, until it is done with it. -/
  given : o.output = .sending → ∃ frame, o.given = some frame ∧ (packets.map ppFrame)[received.length]? = some frame
  /-- A frame that did not arrive is on its way. -/
  all : o.jobs = [] → o.output = .idle → received = packets.map ppFrame
  /-- It is on its way for so many steps of the flow and its output. -/
  ends : ∀ es o', (∀ e ∈ es, Internal e) → Run.run step o es = some o' → es.length ≤ 4 * (packets.length - left) + 5
  /-- No handler and no write meets a `NULL` pointer. -/
  can : ∀ e, o.Allowed e → (step o e).isSome
  /-- Only the caller writes where it was told to write the packet. -/
  own : o.writing = true → ∀ e o', step o e = some o' → o'.writing = true → (∀ off data, e ≠ .write off data) →
    ∀ len, o'.written len = o.written len
  /-- With no job of the flow pending, only a full buffer refuses a packet. -/
  full : o.jobs = [] → o.startPacket.1 = false → numPackets ≤ packets.length - left

end FlowMemory

end TwilightLine
