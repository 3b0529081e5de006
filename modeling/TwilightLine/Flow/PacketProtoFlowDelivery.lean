import TwilightLine.Flow.PacketProtoFlowMemory

/-! What a packet flow delivers.

In memory the flow does what the flow of packets does (`Embeds`): the pointers that its
parts hold are the place that the ring offers, and what is stored in the ring or written
at that place are the packets on their way. Every event keeps this (`Embeds.advance`), so
the packets arrive as frames, in order and once, and none is refused while the buffer has
room, as long as the bytes of the ring can be counted (`delivers_of_small`). -/
namespace TwilightLine.FlowMemory

open Lib
open ChunkBuffer2 (ChunkMemory blockAddr blockSize)
open ChunkBuffer2.ChunkMemory (Stored Ample)

/-- The place where the ring takes the next packet. -/
def place (o : FlowMemory) : Option Int := o.buf.inputDest.map blockAddr

/-- The packet at this place that is not submitted to the ring yet. -/
def input (o : FlowMemory) : Option (Packet Unit) :=
  match o.jobs with
  | [.writerDone] => o.place.map fun a => ⟨readBytes o.buf.buffer (a + packetprotoHeaderSize) o.ainput.jobDoneLen, ()⟩
  | [.encoderDone] => o.place.map fun a => ⟨readBytes o.buf.buffer a o.encoder.jobDoneLen, ()⟩
  | _ => none

/-- The flow of packets, for the packets that the ring holds. -/
def flow (o : FlowMemory) (queue : List (List UInt8)) : PacketProtoFlow Unit where
  outHave := o.outHave
  input := o.input
  inputMtu := o.inputMtu
  buf := o.buf.view queue
  output := o.output

/-- The pointers that will be used are those of the place. -/
def Pointers (o : FlowMemory) : Prop :=
  match o.jobs with
  | [] => o.outHave = true → o.outputPacket = o.place ∧ o.out = o.place.map (· + (packetprotoHeaderSize : Int))
  | [.encoderOperation] => o.encoder.jobOperationData = o.place
  | [.writerOperation] => o.outputPacket = o.place ∧
      o.ainput.jobOperationData = o.place.map (· + (packetprotoHeaderSize : Int))
  | [.writerDone] => o.outputPacket = o.place
  | [.encoderDone] => packetprotoHeaderSize ≤ o.encoder.jobDoneLen
  | _ => True

/-- The ring was made for this number of packets, and is not too large. -/
structure Sized (numPackets : Nat) (o : FlowMemory) : Prop where
  mtu : o.buf.mtu = bdivideUp o.inputMtu blockSize
  size : o.buf.size = (1 + (bdivideUp o.inputMtu blockSize : Int)) * (numPackets + 1)
  header_le : packetprotoHeaderSize ≤ o.inputMtu
  inputMtu_le : o.inputMtu ≤ packetprotoHeaderSize + packetprotoMaxpayload
  small : o.buf.size ≤ 2 ^ 29 + 2

/-- The flow in memory is the flow of packets. -/
structure Embeds (numPackets : Nat) (o : FlowMemory) (queue : List (List UInt8)) : Prop where
  sized : Sized numPackets o
  stored : Stored o.buf queue
  ample : Ample o.buf queue
  frames : ∀ p ∈ queue, packetprotoHeaderSize ≤ p.length ∧ p.length ≤ o.inputMtu
  wired : (o.flow queue).Wired o.jobs
  pointers : o.Pointers
  writing : o.writing = true → o.outHave = true
  sent : ∀ p rest, queue = p :: rest →
    o.outputData = some (blockAddr (o.buf.start + 1)) ∧ o.outputLen = p.length

variable {numPackets : Nat} {o o' : FlowMemory} {queue : List (List UInt8)}

theorem total_ge {p : List UInt8} (hp : packetprotoHeaderSize ≤ p.length) (hmem : p ∈ queue) :
    2 ≤ ChunkBuffer2.total queue := by
  obtain ⟨front, back, rfl⟩ := List.append_of_mem hmem
  have hfront := ChunkBuffer2.total_nonneg front
  have hback := ChunkBuffer2.total_nonneg back
  have hblock := ChunkBuffer2.le_bdivideUp p.length
  unfold packetprotoHeaderSize at hp
  rw [ChunkBuffer2.total_append, ChunkBuffer2.total_cons, ChunkBuffer2.cells]
  have hpos : 1 ≤ bdivideUp p.length blockSize := by
    by_contra hzero
    rw [Nat.lt_one_iff.mp (not_le.mp hzero)] at hblock
    omega
  omega

/-- While a frame is stored, the number of free bytes fits an `int`. -/
theorem inputAvail_of_stored (hok : (o.buf.view queue).Ok) (hsmall : o.buf.size ≤ 2 ^ 29 + 2)
    (hused : 2 ≤ ChunkBuffer2.total queue) : o.inputAvail = o.buf.inputAvail := by
  obtain ⟨hlow, hhigh⟩ := ChunkBuffer2.ChunkMemory.inputAvail_le hok
  have husedEq := ChunkBuffer2.ChunkMemory.used_eq hok.toShape
  exact toInt_of_lt hlow (by omega)

theorem input_of_nil (h : o.jobs = []) : o.input = none := by
  unfold input
  rw [h]

/-- What the output was sent is the oldest frame. -/
theorem Embeds.given {p : List UInt8} {rest : List (List UInt8)} (h : Embeds numPackets o (p :: rest)) :
    o.given = some p := by
  obtain ⟨hdata, hlen⟩ := h.sent p rest rfl
  have hholds := h.stored.holds (o.buf.start, p) (List.mem_cons_self ..)
  rw [FlowMemory.given, hdata, hlen]
  exact congrArg some hholds.bytes

/-- Where the ring has room, it offers a place. -/
theorem Embeds.place (h : Embeds numPackets o queue) (hroom : (o.flow queue).Room) :
    ∃ dest, o.buf.inputDest = some dest ∧ o.place = some (blockAddr dest) := by
  unfold PacketProtoFlow.Room at hroom
  obtain ⟨dest, hdest⟩ := Option.isSome_iff_exists.mp (h.wired.buf.inputDest_isSome (by omega))
  have hdest : o.buf.inputDest = some dest := hdest
  exact ⟨dest, hdest, by rw [FlowMemory.place, hdest]; rfl⟩

/-- A writer that has a place has the one that the ring offers. -/
theorem Embeds.ready (h : Embeds numPackets o queue) (hout : o.outHave = true) :
    o.jobs = [] ∧ (o.flow queue).Room ∧ ∃ dest, o.buf.inputDest = some dest ∧ o.place = some (blockAddr dest) ∧
      o.outputPacket = some (blockAddr dest) ∧ o.out = some (blockAddr dest + packetprotoHeaderSize) := by
  have hjobs : o.jobs = [] := h.wired.jobs_nil hout
  have hpos := h.wired.position
  have hpointers := h.pointers
  unfold Pointers at hpointers
  rw [hjobs] at hpos hpointers
  have hroom : (o.flow queue).Room := hpos.2.mp hout
  obtain ⟨dest, hdest, hplace⟩ := h.place hroom
  obtain ⟨hpacket, hout⟩ := hpointers hout
  rw [hplace] at hpacket hout
  exact ⟨hjobs, hroom, dest, hdest, hplace, hpacket, hout⟩

/-! ### The caller -/

theorem Embeds.startPacket (h : Embeds numPackets o queue) : Embeds numPackets o.startPacket.2 queue := by
  unfold FlowMemory.startPacket
  split
  · next hout => exact ⟨{h.sized with}, h.stored, h.ample, h.frames, h.wired, h.pointers, fun _ => hout, h.sent⟩
  · exact h

/-- The caller writes in the place that the ring offers. -/
theorem Embeds.write (h : Embeds numPackets o queue) (hout : o.outHave = true) {off : Nat} {data : List UInt8}
    (hlen : packetprotoHeaderSize + off + data.length ≤ o.inputMtu) :
    ∃ out, o.out = some out ∧ Embeds numPackets (o.put (out + off) data) queue ∧
      (o.put (out + off) data).flow queue = o.flow queue := by
  obtain ⟨hjobs, hroom, dest, hdest, hplace, hpacket, hptr⟩ := h.ready hout
  refine ⟨_, hptr, ?_⟩
  have hroom : (o.inputMtu : Int) ≤ o.buf.inputAvail := hroom
  have hstored := h.stored.write (packetprotoHeaderSize + off) data hdest (by omega) (by omega)
  rw [← Int.add_assoc] at hstored
  let written := o.put (blockAddr dest + packetprotoHeaderSize + off) data
  have hflow : written.flow queue = o.flow queue := by
    have hwritten : written.input = none := input_of_nil hjobs
    unfold flow
    rw [hwritten, input_of_nil hjobs]
    rfl
  refine ⟨⟨{h.sized with}, hstored, ⟨h.ample.wrap, h.ample.positions, h.ample.straight⟩, h.frames, ?_, h.pointers,
    h.writing, h.sent⟩, hflow⟩
  rw [hflow]
  exact h.wired

theorem flow_endPacket (hjobs : o.jobs = []) {a : Int} (hplace : o.place = some a) (len : Nat) :
    (o.endPacket len).flow queue =
        ((o.flow queue).endPacket ⟨readBytes o.buf.buffer (a + packetprotoHeaderSize) len, ()⟩).1 ∧
      (o.endPacket len).jobs = [.writerDone] := by
  have hset : (o.endPacket len).jobs = [.writerDone] := by
    show BPending.set _ o.jobs = _
    rw [hjobs]
    rfl
  refine ⟨?_, hset⟩
  unfold flow input
  rw [hset]
  show (⟨false, o.place.map _, _, _, _⟩ : PacketProtoFlow Unit) = _
  rw [hplace]
  rfl

theorem Embeds.endPacket (h : Embeds numPackets o queue) (hout : o.outHave = true) {len : Nat}
    (hlen : packetprotoHeaderSize + len ≤ o.inputMtu) :
    ∃ p, o.written len = some p ∧ Embeds numPackets (o.endPacket len) queue ∧
      ((o.endPacket len).flow queue).toSend (o.endPacket len).jobs =
        (o.flow queue).toSend o.jobs ++ [packetprotoFrame ⟨p, ()⟩] := by
  obtain ⟨hjobs, hroom, dest, hdest, hplace, hpacket, hptr⟩ := h.ready hout
  have hended : (o.endPacket len).flow queue =
        ((o.flow queue).endPacket ⟨readBytes o.buf.buffer (_ + packetprotoHeaderSize) len, ()⟩).1 ∧ _ :=
    flow_endPacket hjobs hplace len
  obtain ⟨hflow, hjobs'⟩ := hended
  have hwired := h.wired
  rw [hjobs] at hwired
  refine ⟨_, by rw [written, hptr]; rfl, ?_, ?_⟩
  · refine ⟨{h.sized with}, h.stored, h.ample,
      h.frames, ?_, ?_, nofun, h.sent⟩
    · rw [hflow, hjobs']
      exact hwired.endPacket hout (by rw [readBytes_length]; exact hlen)
    · unfold Pointers
      rw [hjobs']
      exact hpacket.trans hplace.symm
  · rw [hflow, hjobs', hjobs]
    exact PacketProtoFlow.toSend_endPacket _ _

/-! ### The jobs -/

theorem Embeds.encoderRecv (h : Embeds numPackets o queue) (hjobs : o.jobs = [.encoderOperation]) :
    Embeds numPackets ({o with jobs := []}.encoderRecv o.encoder.jobOperationData) queue ∧
      ({o with jobs := []}.encoderRecv o.encoder.jobOperationData).flow queue = o.flow queue := by
  have hwired := h.wired
  have hpointers := h.pointers
  unfold Pointers at hpointers
  rw [hjobs] at hwired hpointers
  have hflow : ({o with jobs := []}.encoderRecv o.encoder.jobOperationData).flow queue = o.flow queue := by
    unfold flow input
    rw [hjobs]
    rfl
  refine ⟨⟨{h.sized with}, h.stored, h.ample, h.frames, ?_, ⟨hpointers, ?_⟩, h.writing, h.sent⟩, hflow⟩
  · rw [hflow]
    exact hwired.runJob
  · show o.encoder.jobOperationData.map _ = _
    rw [hpointers]
    rfl

theorem Embeds.writerRecv (h : Embeds numPackets o queue) (hjobs : o.jobs = [.writerOperation]) :
    Embeds numPackets ({o with jobs := []}.writerRecv o.ainput.jobOperationData) queue ∧
      ({o with jobs := []}.writerRecv o.ainput.jobOperationData).flow queue =
        ((o.flow queue).runJob .writerOperation).1 := by
  have hwired := h.wired
  have hpointers := h.pointers
  unfold Pointers at hpointers
  rw [hjobs] at hwired hpointers
  have hflow : ({o with jobs := []}.writerRecv o.ainput.jobOperationData).flow queue =
      ((o.flow queue).runJob .writerOperation).1 := by
    unfold flow input
    rw [hjobs]
    rfl
  refine ⟨⟨{h.sized with}, h.stored, h.ample, h.frames, ?_, fun _ => hpointers, fun _ => rfl, h.sent⟩, hflow⟩
  rw [hflow]
  exact hwired.runJob

/-- The header goes before the packet. -/
theorem Embeds.encoderDone (h : Embeds numPackets o queue) (hjobs : o.jobs = [.writerDone]) :
    ∃ o', {o with jobs := []}.encoderDone o.ainput.jobDoneLen = some o' ∧ Embeds numPackets o' queue ∧
      o'.flow queue = ((o.flow queue).runJob .writerDone).1 ∧ o'.jobs = [.encoderDone] ∧ o'.output = o.output := by
  have hwired := h.wired
  have hpointers := h.pointers
  unfold Pointers at hpointers
  rw [hjobs] at hwired hpointers
  obtain ⟨p, hin, hlen, hout, hroom⟩ := hwired.position
  obtain ⟨dest, hdest, hplace⟩ := h.place hroom
  have hin : o.input = some p := hin
  have hinput : o.input = some ⟨readBytes o.buf.buffer (blockAddr dest + packetprotoHeaderSize) o.ainput.jobDoneLen, ()⟩ := by
    unfold input
    rw [hjobs, hplace]
    rfl
  rw [hplace] at hpointers
  let len := o.ainput.jobDoneLen
  let header := le16 (UInt16.ofNat len)
  have hroom : (o.inputMtu : Int) ≤ o.buf.inputAvail := hroom
  have hheader : header.length = packetprotoHeaderSize := le16_length _
  have hle := h.sized.header_le
  have hstored := h.stored.write 0 header hdest le_rfl (by omega)
  rw [Int.add_zero] at hstored
  let o' : FlowMemory :=
    {{o with jobs := []}.put (blockAddr dest) header with
      outputPacket := none
      encoder := {o.encoder with jobDoneLen := packetprotoHeaderSize + len}
      jobs := [.encoderDone]}
  have hflow : o'.flow queue = ((o.flow queue).runJob .writerDone).1 := by
    have hframe : o'.input = o.input.map packetprotoFrame := by
      have hread : readBytes (writeBytes o.buf.buffer (blockAddr dest) header) (blockAddr dest) (packetprotoHeaderSize + len) =
          header ++ readBytes o.buf.buffer (blockAddr dest + packetprotoHeaderSize) len := by
        rw [readBytes_add, ← hheader, readBytes_writeBytes, readBytes_writeBytes_disjoint (.inr le_rfl)]
      rw [hinput]
      show o.place.map _ = _
      rw [hplace, Option.map_some, Option.map_some, packetprotoFrame, readBytes_length]
      exact congrArg (fun bytes => some (⟨bytes, ()⟩ : Packet Unit)) hread
    unfold flow
    rw [hframe]
    rfl
  refine ⟨o', ?_, ⟨{h.sized with}, hstored, ⟨h.ample.wrap, h.ample.positions, h.ample.straight⟩, h.frames, ?_, ?_,
    h.writing, h.sent⟩, hflow, rfl, rfl⟩
  · unfold FlowMemory.encoderDone
    rw [show ({o with jobs := []} : FlowMemory).outputPacket = _ from hpointers]
    rfl
  · rw [hflow]
    exact hwired.runJob
  · exact Nat.le_add_right ..

/-! ### The buffer -/

/-- The fields that a receive and a send of the buffer do not touch. -/
theorem storeDone_eq (o : FlowMemory) (n : Nat) :
    (o.storeDone n).outHave = o.outHave ∧ (o.storeDone n).writing = o.writing ∧
      (o.storeDone n).inputMtu = o.inputMtu ∧ (o.storeDone n).buf = o.buf.submitPacket n := by
  unfold storeDone
  dsimp only
  split <;> split <;> exact ⟨rfl, rfl, rfl, rfl⟩

theorem storeDone_recv (o : FlowMemory) (n : Nat) :
    if ({o with buf := o.buf.submitPacket n} : FlowMemory).inputAvail ≥ o.inputMtu then
      (o.storeDone n).jobs = BPending.set .encoderOperation o.jobs ∧
        (o.storeDone n).encoder.jobOperationData = (o.storeDone n).place
    else (o.storeDone n).jobs = o.jobs := by
  unfold storeDone
  dsimp only
  split
  · split <;> exact ⟨rfl, rfl⟩
  · split <;> rfl

theorem storeDone_send (o : FlowMemory) (n : Nat) :
    if o.buf.outputAvail < 0 then
      (o.storeDone n).output = .sending ∧
        (o.storeDone n).outputData = (o.buf.submitPacket n).outputDest.map blockAddr ∧
        (o.storeDone n).outputLen = (o.buf.submitPacket n).outputAvail
    else
      (o.storeDone n).output = o.output ∧ (o.storeDone n).outputData = o.outputData ∧
        (o.storeDone n).outputLen = o.outputLen := by
  unfold storeDone
  dsimp only
  split <;> split <;> exact ⟨rfl, rfl, rfl⟩

/-- What the output was sent, where it was the oldest packet. -/
theorem sent_head {buf : ChunkMemory} {p : List UInt8} {rest : List (List UInt8)} (h : Stored buf (p :: rest)) :
    buf.outputDest.map blockAddr = some (blockAddr (buf.start + 1)) ∧ buf.outputAvail = p.length := by
  obtain ⟨-, -, hdest, havail⟩ := h.head
  rw [hdest]
  exact ⟨rfl, havail⟩

theorem Sized.buf (h : Sized numPackets o) {buf : ChunkMemory} (hsize : buf.size = o.buf.size)
    (hmtu : buf.mtu = o.buf.mtu) {o' : FlowMemory} (hbuf : o'.buf = buf) (hinput : o'.inputMtu = o.inputMtu) :
    Sized numPackets o' := by
  subst hbuf
  exact ⟨by rw [hmtu, hinput]; exact h.mtu, by rw [hsize, hinput]; exact h.size, by rw [hinput]; exact h.header_le,
    by rw [hinput]; exact h.inputMtu_le, by rw [hsize]; exact h.small⟩

/-- **The packet is stored.** -/
theorem Embeds.storeDone (h : Embeds numPackets o queue) (hjobs : o.jobs = [.encoderDone]) :
    ∃ p, Embeds numPackets ({o with jobs := []}.storeDone o.encoder.jobDoneLen) (queue ++ [p]) ∧
      ({o with jobs := []}.storeDone o.encoder.jobDoneLen).flow (queue ++ [p]) =
        ((o.flow queue).runJob .encoderDone).1 ∧
      ({o with jobs := []}.storeDone o.encoder.jobDoneLen).jobs = ((o.flow queue).runJob .encoderDone).2.toList := by
  have hwired := h.wired
  have hlow := h.pointers
  unfold Pointers at hlow
  rw [hjobs] at hwired hlow
  obtain ⟨packet, hin, hlen, hout, hroom⟩ := hwired.position
  obtain ⟨dest, hdest, hplace⟩ := h.place hroom
  have hin : o.input = some packet := hin
  let len := o.encoder.jobDoneLen
  let p := readBytes o.buf.buffer (blockAddr dest) len
  have hinput : o.input = some ⟨p, ()⟩ := by
    unfold input
    rw [hjobs, hplace]
    rfl
  have hlength : p.length = len := readBytes_length ..
  rw [hinput, Option.some.injEq] at hin
  rw [← hin] at hlen
  have hlen : len ≤ o.inputMtu := hlength ▸ hlen
  have hroom : (o.inputMtu : Int) ≤ o.buf.inputAvail := hroom
  have hmax := h.sized.inputMtu_le
  unfold packetprotoHeaderSize packetprotoMaxpayload at hmax
  have hstored : Stored (o.buf.submitPacket len) (queue ++ [p]) := h.stored.submit len hdest (by omega) (by omega)
  have hview : (o.buf.submitPacket len).view (queue ++ [p]) = (o.buf.view queue).submitPacket ⟨p, ()⟩ :=
    (ChunkBuffer2.ChunkMemory.submitPacket_view h.stored hdest (by omega) (by omega)).1
  have hindices := (ChunkBuffer2.ChunkMemory.submitPacket_indices o.buf len).2
  obtain ⟨-, -, hstart, hsize⟩ := ChunkBuffer2.ChunkMemory.submitPacket_memory o.buf len
  have havail : ({o with jobs := [], buf := o.buf.submitPacket len} : FlowMemory).inputAvail =
      (o.buf.submitPacket len).inputAvail := by
    refine inputAvail_of_stored hstored.ok ?_ (total_ge (p := p) (hlength ▸ hlow) (by simp))
    show (o.buf.submitPacket len).size ≤ _
    rw [hsize]
    exact h.sized.small
  generalize ho' : ({o with jobs := []} : FlowMemory).storeDone len = o'
  obtain ⟨houtHave, hwriting, hinputMtu, hbuf⟩ := storeDone_eq {o with jobs := []} len
  have hrecv := storeDone_recv {o with jobs := []} len
  have hsend := storeDone_send {o with jobs := []} len
  rw [ho'] at houtHave hwriting hinputMtu hbuf hrecv hsend
  dsimp only at hrecv hsend
  rw [havail] at hrecv
  have hrun : (o.flow queue).runJob .encoderDone =
      ((o.flow queue).store ⟨p, ()⟩, ((o.flow queue).store ⟨p, ()⟩).recv) := by
    show (o.flow queue).inputHandlerDone = _
    unfold PacketProtoFlow.inputHandlerDone
    rw [show (o.flow queue).input = _ from hinput]
  have hstoredBuf : ((o.flow queue).store ⟨p, ()⟩).buf = (o.buf.submitPacket len).view (queue ++ [p]) := hview.symm
  -- the jobs and what they use
  have hafter : o'.jobs = ((o.flow queue).runJob .encoderDone).2.toList ∧ o'.input = none ∧ o'.Pointers := by
    have hresult : ((o.flow queue).runJob .encoderDone).2 =
        if (o.buf.submitPacket len).inputAvail ≥ o.inputMtu then some .encoderOperation else none := by
      rw [hrun, PacketProtoFlow.recv, hstoredBuf]
      rfl
    rw [hresult]
    split at hrecv
    · next hroom' =>
      have hj : o'.jobs = [.encoderOperation] := hrecv.1
      refine ⟨by rw [hj, if_pos hroom']; rfl, ?_, ?_⟩
      · unfold input
        rw [hj]
      · unfold Pointers
        rw [hj]
        exact hrecv.2
    · next hfull =>
      have hj : o'.jobs = [] := hrecv
      refine ⟨by rw [hj, if_neg hfull]; rfl, input_of_nil hj, ?_⟩
      unfold Pointers
      rw [hj, houtHave]
      intro htrue
      rw [show o.outHave = false from hout] at htrue
      cases htrue
  have hflow : o'.flow (queue ++ [p]) = ((o.flow queue).runJob .encoderDone).1 := by
    have houtput : o'.output = if o.buf.outputAvail < 0 then .sending else o.output := by
      split at hsend
      · next hempty => rw [hsend.1, if_pos hempty]
      · next hmore => rw [hsend.1, if_neg hmore]
    rw [hrun]
    unfold flow
    rw [hafter.2.1, houtHave, hinputMtu, houtput, hbuf, hview]
    rfl
  refine ⟨p, ⟨h.sized.buf hsize hindices hbuf hinputMtu, by rw [hbuf]; exact hstored, ?_, ?_, ?_, hafter.2.2, ?_, ?_⟩,
    hflow, hafter.1⟩
  · rw [hbuf]
    exact h.ample.submit h.stored.ok hdest hlength
  · intro q hq
    rw [hinputMtu]
    rcases List.mem_append.mp hq with hq | hq
    · exact h.frames q hq
    · rw [List.mem_singleton.mp hq, hlength]
      exact ⟨hlow, hlen⟩
  · rw [hflow, hafter.1]
    exact hwired.runJob
  · rw [hwriting, houtHave]
    exact h.writing
  · intro q rest hq
    rw [hbuf]
    split at hsend
    · rw [hsend.2.1, hsend.2.2]
      exact sent_head (hq ▸ hstored)
    · next hmore =>
      obtain ⟨b, qs, rfl⟩ := List.exists_cons_of_ne_nil (l := queue) fun hnil => by
        have hnone := h.wired.buf.outputAvail_nonneg.mp (not_lt.mp hmore)
        rw [hnil] at hnone
        exact hnone rfl
      rw [List.cons_append, List.cons.injEq] at hq
      rw [hsend.2.1, hsend.2.2, ← hq.1, hstart]
      exact h.sent b qs rfl

theorem outputHandlerDone_eq (o : FlowMemory) :
    o.outputHandlerDone.outHave = o.outHave ∧ o.outputHandlerDone.writing = o.writing ∧
      o.outputHandlerDone.inputMtu = o.inputMtu ∧ o.outputHandlerDone.buf = o.buf.consumePacket ∧
      o.outputHandlerDone.outputPacket = o.outputPacket ∧ o.outputHandlerDone.out = o.out ∧
      o.outputHandlerDone.ainput = o.ainput ∧ o.outputHandlerDone.encoder.jobDoneLen = o.encoder.jobDoneLen := by
  unfold outputHandlerDone
  dsimp only
  split <;> split <;> exact ⟨rfl, rfl, rfl, rfl, rfl, rfl, rfl, rfl⟩

theorem outputHandlerDone_recv (o : FlowMemory) :
    if o.inputAvail < o.inputMtu ∧ toInt o.buf.consumePacket.inputAvail ≥ o.inputMtu then
      o.outputHandlerDone.jobs = BPending.set .encoderOperation o.jobs ∧
        o.outputHandlerDone.encoder.jobOperationData = o.outputHandlerDone.place
    else o.outputHandlerDone.jobs = o.jobs ∧ o.outputHandlerDone.encoder = o.encoder := by
  unfold outputHandlerDone inputAvail
  dsimp only
  by_cases hc : toInt o.buf.inputAvail < o.inputMtu ∧ toInt o.buf.consumePacket.inputAvail ≥ o.inputMtu
  · rw [if_pos hc, if_pos hc]
    split <;> exact ⟨rfl, rfl⟩
  · rw [if_neg hc, if_neg hc]
    split <;> exact ⟨rfl, rfl⟩

theorem outputHandlerDone_send (o : FlowMemory) :
    if o.buf.consumePacket.outputAvail ≥ 0 then
      o.outputHandlerDone.output = .sending ∧
        o.outputHandlerDone.outputData = o.buf.consumePacket.outputDest.map blockAddr ∧
        o.outputHandlerDone.outputLen = o.buf.consumePacket.outputAvail
    else o.outputHandlerDone.output = .idle := by
  unfold outputHandlerDone inputAvail
  dsimp only
  by_cases hc : toInt o.buf.inputAvail < o.inputMtu ∧ toInt o.buf.consumePacket.inputAvail ≥ o.inputMtu
  · rw [if_pos hc]
    by_cases hmore : o.buf.consumePacket.outputAvail ≥ 0
    · have hsent : ({o with output := .idle, buf := o.buf.consumePacket} : FlowMemory).recv.buf.outputAvail ≥ 0 := hmore
      rw [if_pos hmore, if_pos hsent]
      exact ⟨rfl, rfl, rfl⟩
    · have hidle : ¬({o with output := .idle, buf := o.buf.consumePacket} : FlowMemory).recv.buf.outputAvail ≥ 0 := hmore
      rw [if_neg hmore, if_neg hidle]
      rfl
  · rw [if_neg hc]
    by_cases hmore : o.buf.consumePacket.outputAvail ≥ 0
    · rw [if_pos hmore, if_pos hmore]
      exact ⟨rfl, rfl, rfl⟩
    · rw [if_neg hmore, if_neg hmore]

/-- The sizes that may be read as something else are not reached: where a single frame fills
the ring, it is small. -/
theorem Embeds.full_decision {p : List UInt8} {rest : List (List UInt8)} (h : Embeds numPackets o (p :: rest))
    (hfull : o.buf.inputAvail < o.inputMtu) : toInt o.buf.consumePacket.inputAvail = o.buf.consumePacket.inputAvail := by
  have hok := h.stored.consume.ok
  have hsize : o.buf.consumePacket.size = o.buf.size := by
    rw [(ChunkBuffer2.ChunkMemory.consumePacket_memory o.buf).2.2.2,
      (ChunkBuffer2.ChunkMemory.dropFirst_memory o.buf).2]
  cases rest with
  | cons q rest =>
    refine inputAvail_of_stored (o := {o with buf := o.buf.consumePacket}) hok ?_
      (total_ge (h.frames q (by simp)).1 (List.mem_cons_self ..))
    show o.buf.consumePacket.size ≤ _
    rw [hsize]
    exact h.sized.small
  | nil =>
    have hcount : numPackets ≤ 1 := h.ample.full h.stored.ok h.sized.mtu h.sized.size (fun q hq => (h.frames q hq).2) hfull
    obtain ⟨hlow, hhigh⟩ := ChunkBuffer2.ChunkMemory.inputAvail_le hok
    have hused := ChunkBuffer2.ChunkMemory.used_eq hok.toShape
    rw [ChunkBuffer2.total_nil] at hused
    have hmtu := h.sized.inputMtu_le
    unfold packetprotoHeaderSize packetprotoMaxpayload at hmtu
    have hblocks : bdivideUp o.inputMtu blockSize ≤ 16385 := by
      unfold bdivideUp blockSize
      dsimp only
      split <;> omega
    have hsmall : o.buf.size ≤ 16386 * 2 := by
      rw [h.sized.size]
      exact Int.mul_le_mul (by omega) (by omega) (by omega) (by omega)
    exact toInt_of_lt hlow (by omega)

/-- **The oldest frame leaves.** -/
theorem Embeds.outputHandlerDone {p : List UInt8} {rest : List (List UInt8)} (h : Embeds numPackets o (p :: rest))
    (hsend : o.output ≠ .idle) :
    Embeds numPackets o.outputHandlerDone rest ∧
      o.outputHandlerDone.flow rest = (o.flow (p :: rest)).outputHandlerDone.1 ∧
      o.outputHandlerDone.jobs = (o.flow (p :: rest)).outputHandlerDone.2.toList ++ o.jobs := by
  have hstored := h.stored.consume
  have hview := (ChunkBuffer2.ChunkMemory.consumePacket_view h.stored).1
  obtain ⟨hbuffer, -, -, hsize⟩ := ChunkBuffer2.ChunkMemory.consumePacket_memory o.buf
  rw [(ChunkBuffer2.ChunkMemory.dropFirst_memory o.buf).1] at hbuffer
  rw [(ChunkBuffer2.ChunkMemory.dropFirst_memory o.buf).2] at hsize
  have hmtu : o.buf.consumePacket.mtu = o.buf.mtu :=
    (ChunkBuffer2.ChunkMemory.consumePacket_indices o.buf).2.trans (ChunkBuffer2.ChunkMemory.dropFirst_indices o.buf).2
  have havail : o.inputAvail = o.buf.inputAvail :=
    inputAvail_of_stored h.stored.ok h.sized.small (total_ge (h.frames p (by simp)).1 (List.mem_cons_self ..))
  obtain ⟨houtHave, hwriting, hinputMtu, hbuf, hpacket, hout, hainput, hlen⟩ := outputHandlerDone_eq o
  have hrecv := outputHandlerDone_recv o
  have hsent := outputHandlerDone_send o
  rw [havail] at hrecv
  generalize o.outputHandlerDone = o' at *
  have hconsumed : (o.flow (p :: rest)).consume.buf = o.buf.consumePacket.view rest := hview.symm
  -- the jobs and what they use
  have hafter : o'.jobs = (o.flow (p :: rest)).outputHandlerDone.2.toList ++ o.jobs ∧ o'.input = o.input ∧ o'.Pointers := by
    by_cases hroom : (o.flow (p :: rest)).Room
    · have hnot : ¬o.buf.inputAvail < o.inputMtu := not_lt.mpr hroom
      rw [if_neg fun hc => hnot hc.1] at hrecv
      obtain ⟨hjobs, hencoder⟩ := hrecv
      obtain ⟨dest, hdest, hplace⟩ := h.place hroom
      have hplace' : o'.place = o.place := by
        rw [hplace, FlowMemory.place, hbuf, ChunkBuffer2.ChunkMemory.consumePacket_inputDest h.stored hdest]
        rfl
      have hnone : (o.flow (p :: rest)).outputHandlerDone.2 = none := if_neg hnot
      have hpointers := h.pointers
      refine ⟨by rw [hjobs, hnone]; rfl, ?_, ?_⟩
      · unfold input
        rw [hjobs, hplace', hbuf, hbuffer, hainput, hencoder]
      · unfold Pointers at hpointers ⊢
        rw [hjobs, hplace', houtHave, hpacket, hout, hainput, hencoder]
        exact hpointers
    · have hfull : o.buf.inputAvail < o.inputMtu := not_le.mp hroom
      obtain ⟨hjobs, hinput, hclosed⟩ := h.wired.position.full hroom
      have hresult : (o.flow (p :: rest)).outputHandlerDone.2 =
          if o.buf.consumePacket.inputAvail ≥ o.inputMtu then some .encoderOperation else none := by
        refine (if_pos hfull).trans ?_
        rw [PacketProtoFlow.recv, hconsumed]
        rfl
      rw [h.full_decision hfull] at hrecv
      rw [hresult, show o.input = none from hinput]
      by_cases hroom' : o.buf.consumePacket.inputAvail ≥ o.inputMtu
      · rw [if_pos ⟨hfull, hroom'⟩] at hrecv
        have hj : o'.jobs = [.encoderOperation] := by
          rw [hrecv.1, hjobs]
          rfl
        refine ⟨by rw [hj, if_pos hroom', hjobs]; rfl, ?_, ?_⟩
        · unfold input
          rw [hj]
        · unfold Pointers
          rw [hj]
          exact hrecv.2
      · rw [if_neg fun hc => hroom' hc.2] at hrecv
        have hj : o'.jobs = [] := hrecv.1.trans hjobs
        refine ⟨by rw [hj, if_neg hroom', hjobs]; rfl, input_of_nil hj, ?_⟩
        unfold Pointers
        rw [hj, houtHave]
        intro htrue
        rw [show o.outHave = false from hclosed] at htrue
        cases htrue
  have hflow : o'.flow rest = (o.flow (p :: rest)).outputHandlerDone.1 := by
    have houtput : o'.output = if o.buf.consumePacket.outputAvail ≥ 0 then .sending else .idle := by
      split at hsent
      · next hmore => rw [hsent.1, if_pos hmore]
      · next hnone => rw [hsent, if_neg hnone]
    show _ = (o.flow (p :: rest)).consume
    unfold flow
    rw [hafter.2.1, houtHave, hinputMtu, houtput, hbuf, hview]
    unfold PacketProtoFlow.consume
    dsimp only
    rw [← hview]
    rfl
  refine ⟨⟨h.sized.buf hsize hmtu hbuf hinputMtu, by rw [hbuf]; exact hstored, ?_, ?_, ?_, hafter.2.2, ?_, ?_⟩, hflow,
    hafter.1⟩
  · rw [hbuf]
    exact h.ample.consume h.stored
  · intro q hq
    rw [hinputMtu]
    exact h.frames q (List.mem_cons_of_mem _ hq)
  · rw [hflow, hafter.1]
    exact h.wired.outputHandlerDone hsend
  · rw [hwriting, houtHave]
    exact h.writing
  · intro q more hq
    have hnext : Stored o.buf.consumePacket (q :: more) := hq ▸ hstored
    have hmore : o.buf.consumePacket.outputAvail ≥ 0 := by
      rw [(sent_head hnext).2]
      exact Int.natCast_nonneg _
    rw [if_pos hmore] at hsent
    rw [hsent.2.1, hsent.2.2, hbuf]
    exact sent_head hnext

/-! ### Steps -/

/-- The frames that are not at the output yet, oldest first. -/
def onWay (o : FlowMemory) (queue : List (List UInt8)) : List (List UInt8) :=
  ((o.flow queue).toSend o.jobs).map Packet.bytes

/-- The frames that the receiver is not done with. -/
def remaining (o : FlowMemory) (queue : List (List UInt8)) : List (List UInt8) :=
  if o.output = .passed then (o.onWay queue).tail else o.onWay queue

/-- The steps that the pending jobs of the flow are away from the writer. -/
def rank : List FlowJob → Nat
  | [.writerDone] => 4
  | [.encoderDone] => 3
  | [.encoderOperation] => 2
  | [.writerOperation] => 1
  | _ => 0

/-- No more jobs and completions than this can come without a new packet. -/
def work (o : FlowMemory) (queue : List (List UInt8)) : Nat :=
  4 * (o.onWay queue).length + rank o.jobs + if o.output = .passed then 0 else 1

theorem onWay_cons (o : FlowMemory) (p : List UInt8) (rest : List (List UInt8)) :
    ∃ more, o.onWay (p :: rest) = p :: more := ⟨_, rfl⟩

theorem Embeds.queue_ne (h : Embeds numPackets o queue) (hsend : o.output ≠ .idle) :
    ∃ p rest, queue = p :: rest := by
  refine List.exists_cons_of_ne_nil fun hnil => h.wired.output.mp hsend ?_
  rw [hnil]
  rfl

theorem inputHandlerDone_job (f : PacketProtoFlow Unit) :
    f.inputHandlerDone.2 = none ∨ f.inputHandlerDone.2 = some .encoderOperation := by
  unfold PacketProtoFlow.inputHandlerDone
  split
  · exact .inl rfl
  · exact PacketProtoFlow.recv_eq _

theorem outputHandlerDone_job (f : PacketProtoFlow Unit) :
    f.outputHandlerDone.2 = none ∨ f.outputHandlerDone.2 = some .encoderOperation := by
  unfold PacketProtoFlow.outputHandlerDone
  dsimp only
  split
  · exact PacketProtoFlow.recv_eq _
  · exact .inl rfl

/-- A job of the flow brings the packets on their way forward. -/
theorem Embeds.runJob (h : Embeds numPackets o queue) {j : FlowJob} {rest : List FlowJob} (hjobs : o.jobs = j :: rest) :
    ∃ o' queue', {o with jobs := rest}.runJob j = some o' ∧ Embeds numPackets o' queue' ∧
      o'.onWay queue' = o.onWay queue ∧ (o'.output = .passed ↔ o.output = .passed) ∧
      rank o'.jobs < rank o.jobs := by
  have hwired := h.wired
  rw [hjobs] at hwired
  obtain rfl := hwired.jobs_single
  have hsame := hwired.toSend_runJob
  unfold onWay
  rw [hjobs]
  cases j with
  | encoderOperation =>
    obtain ⟨hnext, hflow⟩ := h.encoderRecv hjobs
    refine ⟨_, queue, rfl, hnext, ?_, Iff.rfl, Nat.lt_succ_self 1⟩
    rw [hflow]
    exact congrArg _ hsame
  | writerOperation =>
    obtain ⟨hnext, hflow⟩ := h.writerRecv hjobs
    refine ⟨_, queue, rfl, hnext, ?_, Iff.rfl, Nat.lt_succ_self 0⟩
    rw [hflow]
    exact congrArg _ hsame
  | writerDone =>
    obtain ⟨o', hrun, hnext, hflow, hjobs', houtput⟩ := h.encoderDone hjobs
    refine ⟨o', queue, hrun, hnext, ?_, by rw [houtput], by rw [hjobs']; decide⟩
    rw [hflow, hjobs']
    exact congrArg _ hsame
  | encoderDone =>
    obtain ⟨p, hnext, hflow, hjobs'⟩ := h.storeDone hjobs
    refine ⟨_, queue ++ [p], rfl, hnext, ?_, ?_, ?_⟩
    · rw [hflow, hjobs']
      exact congrArg _ hsame
    · have hsent := storeDone_send {o with jobs := []} o.encoder.jobDoneLen
      split at hsent
      · next hempty =>
        -- an empty ring has sent nothing
        have hidle : ¬o.output ≠ .idle := fun hne =>
          not_lt.mpr (h.wired.buf.outputAvail_nonneg.mpr (h.wired.output.mp hne)) hempty
        show ({o with jobs := []}.storeDone o.encoder.jobDoneLen).output = _ ↔ _
        rw [hsent.1, not_not.mp hidle]
        exact ⟨nofun, nofun⟩
      · show ({o with jobs := []}.storeDone o.encoder.jobDoneLen).output = _ ↔ _
        rw [hsent.1]
    · rw [hjobs']
      rcases inputHandlerDone_job (o.flow queue) with hnone | hsome
      · rw [show ((o.flow queue).runJob .encoderDone).2 = none from hnone]
        decide
      · rw [show ((o.flow queue).runJob .encoderDone).2 = some .encoderOperation from hsome]
        decide

theorem Embeds.onWay_length (h : Embeds numPackets o queue) (hsend : o.output ≠ .idle) : 0 < (o.onWay queue).length := by
  obtain ⟨p, rest, rfl⟩ := h.queue_ne hsend
  obtain ⟨more, hmore⟩ := onWay_cons o p rest
  rw [hmore]
  exact Nat.succ_pos _

/-- The job that runs is the first. -/
theorem handle_job {j : FlowJob} {rest : List FlowJob} (hjobs : o.jobs = j :: rest) :
    o.handle .job = {o with jobs := rest}.runJob j := by
  unfold handle
  rw [hjobs]

/-- The frames of the packets written join the remaining ones at the end, and what the receiver got leaves them at the front. -/
def Advances (numPackets : Nat) (o : FlowMemory) (queue : List (List UInt8)) (e : FlowEvent) (o' : FlowMemory) : Prop :=
  ∃ queue', Embeds numPackets o' queue' ∧
    o.remaining queue ++ (o.packetOf e).map ppFrame = o.receivedOf e ++ o'.remaining queue' ∧
    (o.onWay queue).length + (o.packetOf e).length = (o'.onWay queue').length + left [e] ∧
    (Internal e → o'.work queue' < o.work queue)

theorem Embeds.advance_job (h : Embeds numPackets o queue) (hallowed : o.Allowed .job) (he : o.handle .job = some o') :
    Advances numPackets o queue .job o' := by
  cases hjobs : o.jobs with
  | nil => exact absurd hjobs hallowed
  | cons j rest =>
    rw [handle_job hjobs] at he
    obtain ⟨o'', queue', hrun, hnext, hsame, hpassed, hrank⟩ := h.runJob hjobs
    rw [he] at hrun
    cases hrun
    have hremaining : o'.remaining queue' = o.remaining queue := by
      unfold remaining
      rw [hsame]
      by_cases hp : o.output = .passed
      · rw [if_pos hp, if_pos (hpassed.mpr hp)]
      · rw [if_neg hp, if_neg (mt hpassed.mp hp)]
    refine ⟨queue', hnext, ?_, ?_, fun _ => ?_⟩
    · rw [hremaining]
      exact List.append_nil _
    · rw [hsame]
      rfl
    · unfold work
      rw [hsame]
      by_cases hp : o.output = .passed
      · rw [if_pos hp, if_pos (hpassed.mpr hp)]
        omega
      · rw [if_neg hp, if_neg (mt hpassed.mp hp)]
        omega

theorem Embeds.advance_pass (h : Embeds numPackets o queue) (hallowed : o.Allowed .pass) (he : o.handle .pass = some o') :
    Advances numPackets o queue .pass o' := by
  cases he
  have hsend : o.output = .sending := hallowed
  obtain ⟨p, rest, rfl⟩ := h.queue_ne (by rw [hsend]; rintro ⟨⟩)
  obtain ⟨more, hmore⟩ := onWay_cons o p rest
  have hwired := h.wired
  refine ⟨p :: rest, ⟨{h.sized with}, h.stored, h.ample, h.frames, ?_, h.pointers, h.writing, h.sent⟩, ?_, ?_,
    fun _ => ?_⟩
  · exact ⟨hwired.buf, hwired.position, ⟨fun _ => hwired.output.mp (by rw [show (o.flow _).output = _ from hsend]; rintro ⟨⟩),
      fun _ => by rintro ⟨⟩⟩⟩
  · rw [receivedOf, h.given]
    show (if o.output = .passed then _ else _) ++ [] = [p] ++ (o.onWay (p :: rest)).tail
    rw [if_neg (by rw [hsend]; rintro ⟨⟩), hmore]
    exact List.append_nil _
  · rfl
  · show 4 * (o.onWay (p :: rest)).length + rank o.jobs + 0 < 4 * (o.onWay (p :: rest)).length + rank o.jobs + ite _ _ _
    rw [if_neg (by rw [hsend]; rintro ⟨⟩)]
    omega

theorem Embeds.advance_outputDone (h : Embeds numPackets o queue) (hallowed : o.Allowed .outputDone)
    (he : o.handle .outputDone = some o') : Advances numPackets o queue .outputDone o' := by
  cases he
  have hpassed : o.output = .passed := hallowed
  have hsend : o.output ≠ .idle := by rw [hpassed]; rintro ⟨⟩
  obtain ⟨p, rest, rfl⟩ := h.queue_ne hsend
  obtain ⟨hnext, hflow, hjobs⟩ := h.outputHandlerDone hsend
  obtain ⟨q, hq, hsplit⟩ := h.wired.toSend_outputHandlerDone hsend
  have hq : some (⟨p, ()⟩ : Packet Unit) = some q := hq
  cases hq
  have hway : o.onWay (p :: rest) = p :: o.outputHandlerDone.onWay rest := by
    unfold onWay
    rw [hflow, hjobs, hsplit]
    rfl
  have hnot : o.outputHandlerDone.output ≠ .passed := by
    have hout := PacketProtoFlow.outputHandlerDone_output (o.flow (p :: rest))
    rw [← hflow] at hout
    exact hout
  refine ⟨rest, hnext, ?_, ?_, fun _ => ?_⟩
  · unfold remaining
    rw [if_pos hpassed, if_neg hnot, hway]
    exact List.append_nil _
  · rw [hway]
    rfl
  · have hrank : rank o.outputHandlerDone.jobs ≤ rank o.jobs + 2 := by
      rw [hjobs]
      cases hpending : o.jobs with
      | nil =>
        rcases outputHandlerDone_job (o.flow (p :: rest)) with hnone | hsome
        · rw [hnone]
          decide
        · rw [hsome]
          decide
      | cons j more =>
        have hwired := h.wired
        rw [hpending] at hwired
        rw [hwired.outputHandlerDone_none]
        exact Nat.le_add_right ..
    unfold work
    rw [if_pos hpassed, if_neg hnot, hway, List.length_cons]
    omega

/-- **What a step does.** -/
theorem Embeds.advance (h : Embeds numPackets o queue) {e : FlowEvent} (he : step o e = some o') :
    Advances numPackets o queue e o' := by
  obtain ⟨hallowed, he⟩ := Option.ite_none_right_eq_some.mp he
  cases e with
  | startPacket =>
    cases he
    have hsame : o.startPacket.2.onWay queue = o.onWay queue ∧ o.startPacket.2.output = o.output := by
      unfold FlowMemory.startPacket
      split <;> exact ⟨rfl, rfl⟩
    refine ⟨queue, h.startPacket, ?_, ?_, by rintro (h | h | h) <;> cases h⟩
    · unfold remaining
      rw [hsame.1, hsame.2]
      exact List.append_nil _
    · rw [hsame.1]
      rfl
  | write off data =>
    obtain ⟨hw, hlen⟩ := hallowed
    obtain ⟨out, hout, hnext, hflow⟩ := h.write (h.writing hw) hlen
    have he : o.out.map (fun out => o.put (out + off) data) = some o' := he
    rw [hout] at he
    cases he
    have hsame : (o.put (out + off) data).onWay queue = o.onWay queue := by
      unfold onWay
      rw [hflow]
      rfl
    refine ⟨queue, hnext, ?_, ?_, by rintro (h | h | h) <;> cases h⟩
    · unfold remaining
      rw [hsame]
      exact List.append_nil _
    · rw [hsame]
      rfl
  | endPacket len =>
    cases he
    obtain ⟨hw, hlen⟩ := hallowed
    obtain ⟨p, hwritten, hnext, hsend⟩ := h.endPacket (h.writing hw) hlen
    have hmore : (o.endPacket len).onWay queue = o.onWay queue ++ [ppFrame p] := by
      unfold onWay
      rw [hsend, List.map_append]
      rfl
    have hpacket : o.packetOf (.endPacket len) = [p] := by
      rw [packetOf, hwritten]
      rfl
    refine ⟨queue, hnext, ?_, ?_, by rintro (h | h | h) <;> cases h⟩
    · unfold remaining
      rw [hmore, hpacket]
      show (if o.output = .passed then _ else _) ++ _ = [] ++ (if o.output = .passed then _ else _)
      split
      · next hpassed =>
        have hpos := h.onWay_length (by rw [hpassed]; rintro ⟨⟩)
        rw [List.tail_append_of_ne_nil (List.ne_nil_of_length_pos hpos)]
        rfl
      · rfl
    · rw [hmore, hpacket, List.length_append]
      rfl
  | job => exact h.advance_job hallowed he
  | pass => exact h.advance_pass hallowed he
  | outputDone => exact h.advance_outputDone hallowed he

/-! ### Runs -/

theorem Embeds.advance_run {es : List FlowEvent} (h : Embeds numPackets o queue) (hrun : Run.run step o es = some o') :
    ∃ queue', Embeds numPackets o' queue' ∧
      o.remaining queue ++ (packets o es).map ppFrame = received o es ++ o'.remaining queue' ∧
      (o.onWay queue).length + (packets o es).length = (o'.onWay queue').length + left es ∧
      ((∀ e ∈ es, Internal e) → o'.work queue' + es.length ≤ o.work queue) := by
  induction es generalizing o queue with
  | nil =>
    cases hrun
    exact ⟨queue, h, List.append_nil _, rfl, fun _ => le_rfl⟩
  | cons e rest ih =>
    obtain ⟨o₁, he, hrest⟩ := Run.run_cons hrun
    obtain ⟨queue₁, h₁, hframes, hcount, hwork⟩ := h.advance he
    obtain ⟨queue', h', hframes', hcount', hwork'⟩ := ih h₁ hrest
    have hpackets : packets o (e :: rest) = o.packetOf e ++ packets o₁ rest := by
      unfold packets
      rw [Run.trace, he]
    have hreceived : received o (e :: rest) = o.receivedOf e ++ received o₁ rest := by
      unfold received
      rw [Run.trace, he]
    refine ⟨queue', h', ?_, ?_, fun hall => ?_⟩
    · rw [hpackets, hreceived, List.map_append, ← List.append_assoc, hframes, List.append_assoc, hframes',
        List.append_assoc]
    · have hleft : left (e :: rest) = left [e] + left rest := by
        unfold left
        rw [← List.count_append]
        rfl
      rw [hpackets, List.length_append, hleft]
      omega
    · have hfirst := hwork (hall e (List.mem_cons_self ..))
      have hothers := hwork' fun e he => hall e (List.mem_cons_of_mem _ he)
      rw [List.length_cons]
      omega

variable {memory : Memory} {inputMtu : Nat}

/-- A flow starts with an offer to the encoder. -/
theorem init_eq (h : init memory inputMtu numPackets = some o) :
    0 ≤ ChunkBuffer2.calcBlocks (packetprotoHeaderSize + inputMtu) numPackets ∧
      o.buf = .init memory (ChunkBuffer2.calcBlocks (packetprotoHeaderSize + inputMtu) numPackets).toNat
        (packetprotoHeaderSize + inputMtu) ∧
      o.inputMtu = packetprotoHeaderSize + inputMtu ∧ o.jobs = [.encoderOperation] ∧
      o.encoder.jobOperationData = o.place ∧ o.outHave = false ∧ o.writing = false ∧ o.output = .idle := by
  unfold init at h
  dsimp only at h
  split at h
  · cases h
  · next hblocks =>
    cases h
    exact ⟨not_lt.mp hblocks, rfl, rfl, rfl, rfl, rfl, rfl, rfl⟩

/-- The ring of a new flow. -/
theorem init_stored (hnum : 0 < numPackets) (h : init memory inputMtu numPackets = some o) :
    Stored o.buf [] ∧ Ample o.buf [] ∧ o.buf.mtu = bdivideUp o.inputMtu blockSize ∧
      o.buf.size = (1 + (bdivideUp o.inputMtu blockSize : Int)) * (numPackets + 1) := by
  obtain ⟨hblocks, hbuf, hinput, -⟩ := init_eq h
  rw [← hinput] at hblocks hbuf
  have hring := ChunkBuffer2.ChunkMemory.madeFor_init memory hnum hblocks
  rw [← hbuf] at hring
  exact ⟨hring.stored, hring.ample, hring.mtuBlocks, hring.size⟩

theorem embeds_init (hnum : 0 < numPackets) (hmtu : inputMtu ≤ packetprotoMaxpayload)
    (hsmall : ChunkBuffer2.calcBlocks (packetprotoHeaderSize + inputMtu) numPackets ≤ 2 ^ 29 + 2)
    (h : init memory inputMtu numPackets = some o) : Embeds numPackets o [] := by
  obtain ⟨hblocks, hbuf, hinput, hjobs, hdata, hout, hwriting, houtput⟩ := init_eq h
  obtain ⟨hstored, hample, hringMtu, hsize⟩ := init_stored hnum h
  have hroom : ((packetprotoHeaderSize + inputMtu : Nat) : Int) ≤ (ChunkBuffer2.init _ _ : ChunkBuffer2 Unit).inputAvail :=
    (ChunkBuffer2.calcBlocks_room hnum hblocks).2
  have hblocksEq := ChunkBuffer2.calcBlocks_eq hblocks
  rw [← hinput] at hsmall hblocksEq hblocks hroom hbuf
  refine ⟨⟨hringMtu, hsize, ?_, ?_, ?_⟩, hstored, hample, nofun, ?_, ?_, ?_, nofun⟩
  · rw [hinput]
    exact Nat.le_add_right ..
  · rw [hinput]
    omega
  · rw [hsize, ← hblocksEq]
    exact hsmall
  · refine ⟨hstored.ok, ?_, ?_⟩
    · rw [hjobs]
      refine ⟨?_, hout, ?_⟩
      · show o.input = none
        unfold input
        rw [hjobs]
      · show (o.inputMtu : Int) ≤ o.buf.inputAvail
        rw [hbuf]
        rw [← Int.toNat_of_nonneg hblocks] at hroom
        exact hroom
    · show o.output ≠ .idle ↔ _
      rw [houtput]
      exact ⟨fun hne => absurd rfl hne, fun hne => absurd rfl hne⟩
  · unfold Pointers
    rw [hjobs]
    exact hdata
  · rw [hwriting]
    nofun

/-! ### What the flow owes -/

theorem onWay_of_nil (hjobs : o.jobs = []) (queue : List (List UInt8)) : o.onWay queue = queue := by
  unfold onWay PacketProtoFlow.toSend
  rw [hjobs]
  dsimp only
  rw [List.append_nil]
  show (ChunkBuffer2.asPackets queue).map Packet.bytes = queue
  rw [ChunkBuffer2.asPackets, List.map_map]
  exact List.map_id _

theorem rank_le (jobs : List FlowJob) : rank jobs ≤ 4 := by
  unfold rank
  split <;> decide

/-- Without an `outHave` no packet starts. -/
theorem startPacket_eq (o : FlowMemory) : o.startPacket.1 = o.outHave := by
  unfold FlowMemory.startPacket
  cases o.outHave <;> rfl

theorem step_of_allowed {e : FlowEvent} (h : o.Allowed e) : step o e = o.handle e := if_pos h

theorem Embeds.can (h : Embeds numPackets o queue) (e : FlowEvent) (hallowed : o.Allowed e) : (FlowMemory.step o e).isSome := by
  rw [step_of_allowed hallowed]
  cases e with
  | startPacket => rfl
  | write off data =>
    obtain ⟨hw, hlen⟩ := hallowed
    obtain ⟨out, hout, -⟩ := h.write (h.writing hw) hlen
    show (o.out.map _).isSome
    rw [hout]
    rfl
  | endPacket len => rfl
  | job =>
    cases hjobs : o.jobs with
    | nil => exact absurd hjobs hallowed
    | cons j rest =>
      obtain ⟨o', queue', hrun, -⟩ := h.runJob hjobs
      rw [handle_job hjobs]
      exact Option.isSome_iff_exists.mpr ⟨o', hrun⟩
  | pass => rfl
  | outputDone => rfl

/-- Nothing but a write reaches the packet that the caller is writing. -/
theorem Embeds.own (h : Embeds numPackets o queue) (hw : o.writing = true) {e : FlowEvent}
    (he : FlowMemory.step o e = some o') (hw' : o'.writing = true) (hnot : ∀ off data, e ≠ .write off data) (len : Nat) :
    o'.written len = o.written len := by
  obtain ⟨hallowed, he⟩ := Option.ite_none_right_eq_some.mp he
  cases e with
  | startPacket =>
    rw [show o.writing = false from hallowed] at hw
    cases hw
  | write off data => exact absurd rfl (hnot off data)
  | endPacket n =>
    cases he
    cases hw'
  | job => exact absurd (h.ready (h.writing hw)).1 hallowed
  | pass =>
    cases he
    rfl
  | outputDone =>
    cases he
    obtain ⟨-, -, -, hbuf, -, hout, -⟩ := outputHandlerDone_eq o
    have hbuffer : o.buf.consumePacket.buffer = o.buf.buffer :=
      (ChunkBuffer2.ChunkMemory.consumePacket_memory o.buf).1.trans (ChunkBuffer2.ChunkMemory.dropFirst_memory o.buf).1
    rw [written, written, hout, hbuf, hbuffer]

/-- A flow that embeds the flow of packets owes nothing. -/
theorem Embeds.accounted (h : Embeds numPackets o queue) {packets received : List (List UInt8)} {left : Nat}
    (hframes : packets.map ppFrame = received ++ o.remaining queue)
    (hcount : packets.length = (o.onWay queue).length + left) : Delivers numPackets o packets received left where
  inOrder := by
    rw [hframes]
    exact List.prefix_append ..
  given := by
    intro hsend
    obtain ⟨p, rest, rfl⟩ := h.queue_ne (by rw [hsend]; nofun)
    refine ⟨p, h.given, ?_⟩
    obtain ⟨more, hmore⟩ := onWay_cons o p rest
    rw [hframes, remaining, if_neg (by rw [hsend]; nofun), hmore, List.getElem?_append_right le_rfl, Nat.sub_self]
    rfl
  all := by
    intro hjobs hidle
    have hqueue : queue = [] := by
      by_contra hne
      obtain ⟨p, rest, rfl⟩ := List.exists_cons_of_ne_nil hne
      exact absurd hidle (h.wired.output.mpr (List.cons_ne_nil _ _))
    rw [hframes, remaining, if_neg (by rw [hidle]; nofun), onWay_of_nil hjobs, hqueue, List.append_nil]
  ends := by
    intro es o' hinternal hrun
    obtain ⟨queue', -, -, -, hwork⟩ := h.advance_run hrun
    have hbound := hwork hinternal
    have hrank := rank_le o.jobs
    have hstart : o.work queue ≤ 4 * (o.onWay queue).length + 5 := by
      unfold work
      split <;> omega
    omega
  can := h.can
  own := fun hw _ _ he hw' hnot len => h.own hw he hw' hnot len
  full := by
    intro hjobs hrefused
    rw [startPacket_eq] at hrefused
    have hpos := h.wired.position
    rw [hjobs] at hpos
    have hfull : ¬(o.flow queue).Room := fun hroom => by
      have hopen : o.outHave = true := hpos.2.mpr hroom
      rw [hrefused] at hopen
      cases hopen
    have hstored := h.ample.full h.stored.ok h.sized.mtu h.sized.size (fun p hp => (h.frames p hp).2) (not_le.mp hfull)
    rw [onWay_of_nil hjobs] at hcount
    omega

/-- **A flow whose ring is not too large delivers in every run.** -/
theorem delivers_of_small (hnum : 0 < numPackets) (hmtu : inputMtu ≤ packetprotoMaxpayload)
    (hsmall : ChunkBuffer2.calcBlocks (packetprotoHeaderSize + inputMtu) numPackets ≤ 2 ^ 29 + 2)
    (h : init memory inputMtu numPackets = some o) {es : List FlowEvent} (hrun : Run.run step o es = some o') :
    Delivers numPackets o' (packets o es) (received o es) (left es) := by
  obtain ⟨queue', h', hframes, hcount, -⟩ := (embeds_init hnum hmtu hsmall h).advance_run hrun
  obtain ⟨-, -, -, hjobs, -, -, -, houtput⟩ := init_eq h
  have hnone : o.onWay [] = [] := by
    unfold onWay PacketProtoFlow.toSend
    rw [hjobs]
    rfl
  refine h'.accounted ?_ ?_
  · rw [remaining, if_neg (by rw [houtput]; nofun), hnone] at hframes
    exact hframes
  · rw [hnone] at hcount
    exact (Nat.zero_add _).symm.trans hcount

end TwilightLine.FlowMemory
