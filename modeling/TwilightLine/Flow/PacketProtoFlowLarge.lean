import TwilightLine.Flow.PacketProtoFlowDelivery

/-! Packet flows with a large ring.

The offer of the ring is a number of bytes in an `int`. A ring of more than `2 ^ 29 + 2`
blocks has 2 GiB or more behind its first packet, and there are packets after which the
number is read as a negative one (`Filling.cycle`). The buffer takes the ring for full
then, and asks for no packet again, while it holds fewer than it was made for. So a flow
delivers exactly where its ring is not larger (`delivers_iff`). -/
namespace TwilightLine.FlowMemory

open Lib
open ChunkBuffer2 (ChunkMemory blockAddr blockSize)
open ChunkBuffer2.ChunkMemory (Stored Ample)

variable {numPackets : Nat} {o o' : FlowMemory} {queue : List (List UInt8)}

/-- The ring holds packets from its first block on, and has room behind them. -/
structure Filling (o : FlowMemory) (queue : List (List UInt8)) : Prop where
  stored : Stored o.buf queue
  ample : Ample o.buf queue
  start : o.buf.start = 0
  wrap : o.buf.wrap = o.buf.size
  used : o.buf.used < o.buf.size
  mtu : o.buf.mtu = bdivideUp o.inputMtu blockSize
  inputMtu_le : o.inputMtu ≤ packetprotoHeaderSize + packetprotoMaxpayload
  writing : o.writing = false

/-- A packet is written and stored. -/
def cycle (len : Nat) : List FlowEvent := [.job, .job, .startPacket, .endPacket len, .job, .job]

theorem Filling.offer (h : Filling o queue) :
    ∃ dest, o.buf.inputDest = some dest ∧ o.buf.inputAvail = (o.buf.size - o.buf.used - 1) * 4 ∧
      (o.inputMtu : Int) ≤ o.buf.inputAvail := by
  have hstart := h.start
  have hwrap := h.wrap
  have hused := h.used
  have hmtu := h.mtu
  have hblocks : o.inputMtu ≤ bdivideUp o.inputMtu blockSize * 4 := ChunkBuffer2.le_bdivideUp o.inputMtu
  have hend : o.buf.chunkEnd = o.buf.start + o.buf.used := if_neg (not_le.mpr (by
    show o.buf.used < o.buf.wrap - o.buf.start
    omega))
  have hfree : o.buf.free = o.buf.size - o.buf.chunkEnd := if_neg (by omega)
  have hroom := h.ample.straight (by omega)
  have havail := ChunkBuffer2.ChunkMemory.inputAvail_eq h.stored.ok hroom (by omega)
  obtain ⟨dest, hdest⟩ := Option.isSome_iff_exists.mp (h.stored.ok.inputDest_isSome (by
    show 0 ≤ o.buf.inputAvail
    omega))
  exact ⟨dest, hdest, by rw [havail, hfree, hend, hstart, Int.zero_add], by omega⟩

theorem step_job {j : FlowJob} {rest : List FlowJob} (hjobs : o.jobs = j :: rest) :
    step o .job = {o with jobs := rest}.runJob j := by
  have hallowed : o.Allowed .job := by
    show o.jobs ≠ []
    rw [hjobs]
    exact List.cons_ne_nil j rest
  rw [step_of_allowed hallowed, handle_job hjobs]

/-- The flow before the packet joins the ring. -/
theorem cycle_written (hjobs : o.jobs = [.encoderOperation]) (hwriting : o.writing = false) {a : Int}
    (hdata : o.encoder.jobOperationData = some a) {len : Nat} (hlen : packetprotoHeaderSize + len ≤ o.inputMtu) :
    ∃ o₅ p, Run.run step o (cycle len) = step o₅ .job ∧ packets o (cycle len) = [p] ∧
      o₅.buf = {o.buf with buffer := writeBytes o.buf.buffer a (le16 (UInt16.ofNat len))} ∧
      o₅.jobs = [.encoderDone] ∧ o₅.encoder.jobDoneLen = packetprotoHeaderSize + len ∧
      o₅.inputMtu = o.inputMtu ∧ o₅.outHave = false ∧ o₅.writing = false := by
  let o₁ := {o with jobs := []}.encoderRecv (some a)
  let o₂ := {o₁ with jobs := []}.writerRecv o₁.ainput.jobOperationData
  let o₃ := {o₂ with writing := true}
  let o₄ := o₃.endPacket len
  have h₁ : step o .job = some o₁ := by
    rw [step_job hjobs]
    show some ({o with jobs := []}.encoderRecv o.encoder.jobOperationData) = _
    rw [hdata]
  have hjobs₁ : o₁.jobs = [.writerOperation] := rfl
  have h₂ : step o₁ .job = some o₂ := step_job hjobs₁
  have h₃ : step o₂ .startPacket = some o₃ := step_of_allowed (by exact hwriting)
  have h₄ : step o₃ (.endPacket len) = some o₄ := step_of_allowed (by exact ⟨rfl, hlen⟩)
  have hjobs₄ : o₄.jobs = [.writerDone] := rfl
  obtain ⟨o₅, h₅, hbuf, hjobs₅, hlen₅, hmtu, hout, hw⟩ : ∃ o₅, step o₄ .job = some o₅ ∧
      o₅.buf = {o.buf with buffer := writeBytes o.buf.buffer a (le16 (UInt16.ofNat len))} ∧
      o₅.jobs = [.encoderDone] ∧ o₅.encoder.jobDoneLen = packetprotoHeaderSize + len ∧
      o₅.inputMtu = o.inputMtu ∧ o₅.outHave = false ∧ o₅.writing = false :=
    ⟨_, step_job hjobs₄, rfl, rfl, rfl, rfl, rfl, rfl⟩
  refine ⟨o₅, readBytes o.buf.buffer (a + packetprotoHeaderSize) len, ?_, ?_, hbuf, hjobs₅, hlen₅, hmtu, hout, hw⟩
  · unfold cycle
    simp only [Run.run, h₁, h₂, h₃, h₄, h₅, Option.bind_some, Option.bind_fun_some]
  · unfold packets cycle
    simp only [Run.trace, h₁, h₂, h₃, h₄, h₅]
    cases step o₅ .job <;> rfl

/-- **A packet is stored behind the others, and the buffer decides on a number that may not
be the number of free bytes.** -/
theorem Filling.fill (h : Filling o queue) (hjobs : o.jobs = [.encoderOperation])
    (hdata : o.encoder.jobOperationData = o.place) (len : Nat) (hlen : packetprotoHeaderSize + len ≤ o.inputMtu)
    {used : Int} (hused : used = o.buf.used + (1 + (bdivideUp (packetprotoHeaderSize + len) blockSize : Int)))
    (hnext : used + o.buf.mtu < o.buf.size) :
    ∃ o' p q, Run.run step o (cycle len) = some o' ∧ packets o (cycle len) = [p] ∧ Filling o' (queue ++ [q]) ∧
      o'.buf.used = used ∧ o'.buf.size = o.buf.size ∧ o'.inputMtu = o.inputMtu ∧
      if toInt ((o.buf.size - used - 1) * 4) ≥ o.inputMtu then
        o'.jobs = [.encoderOperation] ∧ o'.encoder.jobOperationData = o'.place
      else o'.jobs = [] ∧ o'.outHave = false := by
  obtain ⟨dest, hdest, havail, hroom⟩ := h.offer
  have hplace : o.place = some (blockAddr dest) := by
    rw [place, hdest]
    rfl
  have hmax := h.inputMtu_le
  have hstart := h.start
  have hwrap := h.wrap
  have hmtu0 : 0 ≤ o.buf.mtu := h.stored.ok.mtu
  unfold packetprotoHeaderSize packetprotoMaxpayload at hmax
  unfold packetprotoHeaderSize at hlen
  obtain ⟨o₅, p, hrun, hpackets, hbuf₅, hjobs₅, hlen₅, hmtu₅, hout₅, hw₅⟩ :=
    cycle_written hjobs h.writing (hdata.trans hplace) hlen
  -- the header and the packet are written in the free blocks
  have hfilled : Stored o₅.buf queue := by
    have hwrite := h.stored.write 0 (le16 (UInt16.ofNat len)) hdest le_rfl (by rw [le16_length]; omega)
    rw [Int.add_zero] at hwrite
    rw [hbuf₅]
    exact hwrite
  have hdest₅ : o₅.buf.inputDest = some dest := by
    rw [hbuf₅]
    exact hdest
  have hfields : o₅.buf.used = o.buf.used ∧ o₅.buf.wrap = o.buf.wrap ∧ o₅.buf.start = o.buf.start ∧
      o₅.buf.size = o.buf.size ∧ o₅.buf.mtu = o.buf.mtu ∧ o₅.buf.inputAvail = o.buf.inputAvail := by
    rw [hbuf₅]
    exact ⟨rfl, rfl, rfl, rfl, rfl, rfl⟩
  obtain ⟨hused₅, hwrap₅, hstart₅, hsize₅, hringMtu₅, havail₅⟩ := hfields
  let frameLen := packetprotoHeaderSize + len
  have hframe : frameLen = 2 + len := rfl
  have hused : used = o.buf.used + (1 + (bdivideUp frameLen blockSize : Int)) := hused
  have hsubmit := hfilled.submit frameLen hdest₅ (by omega) (by omega)
  have hample : Ample o₅.buf queue := by
    rw [hbuf₅]
    exact ⟨h.ample.wrap, h.ample.positions, h.ample.straight⟩
  have hample' := hample.submit hfilled.ok hdest₅ (readBytes_length o₅.buf.buffer (blockAddr dest) frameLen)
  generalize readBytes o₅.buf.buffer (blockAddr dest) frameLen = q at hsubmit hample'
  obtain ⟨-, hwrap', hstart', hsize'⟩ := ChunkBuffer2.ChunkMemory.submitPacket_memory o₅.buf frameLen
  obtain ⟨hused', hringMtu'⟩ := ChunkBuffer2.ChunkMemory.submitPacket_indices o₅.buf frameLen
  have hblocks : ChunkBuffer2.ChunkMemory.blocklen frameLen = bdivideUp frameLen blockSize := rfl
  have hplaced : (o₅.buf.place frameLen).used = used := by
    show o₅.buf.used + (1 + ChunkBuffer2.ChunkMemory.blocklen frameLen) = used
    rw [hblocks, hused₅, hused]
  have hstraight : o₅.buf.chunkEnd = o₅.buf.start + o₅.buf.used := if_neg (not_le.mpr (by
    show o₅.buf.used < o₅.buf.wrap - o₅.buf.start
    have := h.used
    omega))
  have hkept : (o₅.buf.place frameLen).wrap = o₅.buf.wrap := by
    refine if_neg fun hc => ?_
    have hgt := hc.2
    rw [hblocks] at hgt
    omega
  obtain ⟨houtHave, hwriting, hinputMtu, hbuf⟩ := storeDone_eq {o₅ with jobs := []} frameLen
  have hrecv := storeDone_recv {o₅ with jobs := []} frameLen
  have hlast : step o₅ .job = some ({o₅ with jobs := []}.storeDone frameLen) := by
    rw [step_job hjobs₅]
    show some ({o₅ with jobs := []}.storeDone o₅.encoder.jobDoneLen) = _
    rw [hlen₅]
  rw [hlast] at hrun
  generalize ({o₅ with jobs := []} : FlowMemory).storeDone frameLen = o' at houtHave hwriting hinputMtu hbuf hrecv hrun
  dsimp only at houtHave hwriting hinputMtu hbuf
  have hfilling : Filling o' (queue ++ [q]) := by
    refine ⟨by rw [hbuf]; exact hsubmit, by rw [hbuf]; exact hample', ?_, ?_, ?_, ?_, ?_, hwriting.trans hw₅⟩
    · rw [hbuf, hstart', hstart₅, hstart]
    · rw [hbuf, hwrap', hkept, hwrap₅, hsize', hsize₅, hwrap]
    · rw [hbuf, hused', hplaced, hsize', hsize₅]
      omega
    · rw [hbuf, hringMtu', hringMtu₅, hinputMtu, hmtu₅, h.mtu]
    · rw [hinputMtu, hmtu₅]
      exact h.inputMtu_le
  have hnow : o'.buf.used = used ∧ o'.buf.size = o.buf.size ∧ o'.inputMtu = o.inputMtu :=
    ⟨by rw [hbuf, hused', hplaced], by rw [hbuf, hsize', hsize₅], hinputMtu.trans hmtu₅⟩
  refine ⟨o', p, q, hrun, hpackets, hfilling, hnow.1, hnow.2.1, hnow.2.2, ?_⟩
  obtain ⟨-, -, havail', -⟩ := hfilling.offer
  have hdecides : ({o₅ with jobs := [], buf := o₅.buf.submitPacket frameLen} : FlowMemory).inputAvail =
      toInt ((o.buf.size - used - 1) * 4) := by
    show toInt (o₅.buf.submitPacket frameLen).inputAvail = _
    rw [← hbuf, havail', hnow.1, hnow.2.1]
  dsimp only at hrecv
  rw [hdecides, hmtu₅] at hrecv
  split at hrecv
  · next hc =>
    rw [if_pos hc]
    exact hrecv
  · next hc =>
    rw [if_neg hc]
    exact ⟨hrecv, houtHave.trans hout₅⟩

/-- A number of bytes from 2 GiB to 4 GiB is read as a negative one. -/
theorem toInt_neg {n : Int} (hlow : 2 ^ 31 ≤ n) (hhigh : n < 2 ^ 32) : toInt n < 0 := by
  unfold toInt
  rw [BitVec.toInt_ofInt, ← Int.sub_bmod_right, Int.bmod_eq_of_le] <;> omega

variable {memory : Memory} {inputMtu : Nat}

theorem filling_init (hnum : 0 < numPackets) (hmtu : inputMtu ≤ packetprotoMaxpayload)
    (h : init memory inputMtu numPackets = some o) : Filling o [] ∧ o.buf.used = 0 := by
  obtain ⟨hblocks, hbuf, hinput, -, -, -, hwriting, -⟩ := init_eq h
  obtain ⟨hstored, hample, hringMtu, hsize⟩ := init_stored hnum h
  have hpos : 0 < o.buf.size := by
    rw [hsize]
    exact Int.mul_pos (by omega) (by omega)
  refine ⟨⟨hstored, hample, by rw [hbuf]; rfl, by rw [hbuf]; rfl, ?_, hringMtu, by rw [hinput]; omega, hwriting⟩,
    by rw [hbuf]; rfl⟩
  rw [show o.buf.used = 0 by rw [hbuf]; rfl]
  exact hpos

/-- The number of free bytes behind an empty packet and so many of the largest. -/
def freeBytes (o : FlowMemory) (i : Nat) : Int := (o.buf.size - (2 + (1 + o.buf.mtu) * i) - 1) * 4

/-- While the number of free bytes is read as enough, the writer fills the ring. -/
theorem Filling.fills (h : Filling o []) (hused : o.buf.used = 0) (hjobs : o.jobs = [.encoderOperation])
    (hdata : o.encoder.jobOperationData = o.place) (hheader : packetprotoHeaderSize ≤ o.inputMtu) {i : Nat}
    (hroom : ∀ k < i, toInt (o.freeBytes k) ≥ o.inputMtu) (hnext : 2 + (1 + o.buf.mtu) * i + o.buf.mtu < o.buf.size) :
    ∃ es o' queue, Run.run step o es = some o' ∧ (packets o es).length = i + 1 ∧ left es = 0 ∧ Filling o' queue ∧
      o'.buf.used = 2 + (1 + o.buf.mtu) * i ∧ o'.buf.size = o.buf.size ∧ o'.inputMtu = o.inputMtu ∧
      if toInt (o.freeBytes i) ≥ o.inputMtu then
        o'.jobs = [.encoderOperation] ∧ o'.encoder.jobOperationData = o'.place
      else o'.jobs = [] ∧ o'.outHave = false := by
  induction i with
  | zero =>
    have hfirst : (2 : Int) = o.buf.used + (1 + (bdivideUp (packetprotoHeaderSize + 0) blockSize : Int)) := by
      rw [hused]
      rfl
    have hlast : (2 : Int) + o.buf.mtu < o.buf.size := by simpa using hnext
    obtain ⟨o', p, q, hrun, hpackets, hfilling, hused', hsize', hmtu', hdecides⟩ :=
      h.fill hjobs hdata 0 hheader hfirst hlast
    refine ⟨cycle 0, o', _, hrun, by rw [hpackets]; rfl, rfl, hfilling, by simpa using hused', hsize', hmtu', ?_⟩
    have hbytes : o.freeBytes 0 = (o.buf.size - 2 - 1) * 4 := by
      unfold freeBytes
      simp
    rw [hbytes]
    exact hdecides
  | succ i ih =>
    have hmtu0 : 0 ≤ o.buf.mtu := h.stored.ok.mtu
    have hstep : (1 + o.buf.mtu) * ((i + 1 : Nat) : Int) = (1 + o.buf.mtu) * i + (1 + o.buf.mtu) := by
      rw [Int.natCast_add, Int.mul_add]
      simp
    obtain ⟨es, o₁, queue, hrun, hpackets, hleft, hfilling, hused₁, hsize₁, hmtu₁, hdecides⟩ :=
      ih (fun k hk => hroom k (by omega)) (by omega)
    rw [if_pos (hroom i (by omega))] at hdecides
    have hringMtu : o₁.buf.mtu = o.buf.mtu := by rw [hfilling.mtu, hmtu₁, h.mtu]
    have hlen : packetprotoHeaderSize + (o.inputMtu - packetprotoHeaderSize) = o.inputMtu := by omega
    have hmore : 2 + (1 + o.buf.mtu) * ((i + 1 : Nat) : Int) = o₁.buf.used +
        (1 + (bdivideUp (packetprotoHeaderSize + (o.inputMtu - packetprotoHeaderSize)) blockSize : Int)) := by
      rw [hlen, ← h.mtu, hused₁, hstep]
      omega
    obtain ⟨o', p, q, hrun', hpackets', hfilling', hused', hsize', hmtu', hdecides'⟩ :=
      hfilling.fill hdecides.1 hdecides.2 (o.inputMtu - packetprotoHeaderSize) (by omega) hmore
        (by rw [hringMtu, hsize₁]; exact hnext)
    refine ⟨es ++ cycle _, o', _, Run.run_join hrun hrun', ?_, ?_, hfilling', hused', hsize'.trans hsize₁,
      hmtu'.trans hmtu₁, ?_⟩
    · have hall : packets o (es ++ cycle (o.inputMtu - packetprotoHeaderSize)) = packets o es ++ [p] := by
        rw [← hpackets']
        exact Run.trace_append hrun
      rw [hall, List.length_append, hpackets]
      rfl
    · show List.count _ (es ++ _) = 0
      rw [List.count_append, show List.count _ es = 0 from hleft]
      rfl
    · rw [hsize₁, hmtu₁] at hdecides'
      exact hdecides'

/-- **A large ring is taken for full long before it is.** -/
theorem not_delivers_of_large (hnum : 0 < numPackets) (hmtu : inputMtu ≤ packetprotoMaxpayload)
    (hlarge : 2 ^ 29 + 2 < ChunkBuffer2.calcBlocks (packetprotoHeaderSize + inputMtu) numPackets)
    (h : init memory inputMtu numPackets = some o) :
    ∃ es o', Run.run step o es = some o' ∧ ¬Delivers numPackets o' (packets o es) (received o es) (left es) := by
  obtain ⟨hfilling, hused⟩ := filling_init hnum hmtu h
  obtain ⟨hblocks, -, hinput, hjobs, hdata, -⟩ := init_eq h
  obtain ⟨-, -, hringMtu, hsize⟩ := init_stored hnum h
  rw [ChunkBuffer2.calcBlocks_eq hblocks, ← hinput, ← hsize] at hlarge
  rw [← hringMtu] at hsize
  have hmtu0 : 0 ≤ o.buf.mtu := hfilling.stored.ok.mtu
  have hmtuMax : o.buf.mtu ≤ 16385 := by
    have hmax := hfilling.inputMtu_le
    unfold packetprotoHeaderSize packetprotoMaxpayload at hmax
    rw [hringMtu]
    unfold bdivideUp blockSize
    dsimp only
    split <;> omega
  have hchunk : ∀ i : Nat, (1 + o.buf.mtu) * ((i + 1 : Nat) : Int) = (1 + o.buf.mtu) * i + (1 + o.buf.mtu) := by
    intro i
    rw [Int.natCast_add, Int.mul_add]
    simp
  -- after so many packets the free bytes are from 2 GiB to 4 GiB
  obtain ⟨j, hj, hjlow⟩ : ∃ j, o.freeBytes j < 2 ^ 32 ∧ 2 ^ 31 ≤ o.freeBytes j := by
    have hexists : ∃ j, o.freeBytes j < 2 ^ 32 := by
      refine ⟨o.buf.size.toNat, ?_⟩
      have hmul : o.buf.size ≤ (1 + o.buf.mtu) * (o.buf.size.toNat : Int) := by
        rw [Int.toNat_of_nonneg (by omega), Int.add_mul, Int.one_mul]
        have := Int.mul_nonneg hmtu0 (show 0 ≤ o.buf.size by omega)
        omega
      unfold freeBytes
      omega
    refine ⟨Nat.find hexists, Nat.find_spec hexists, ?_⟩
    cases hfirst : Nat.find hexists with
    | zero =>
      unfold freeBytes
      rw [Int.natCast_zero, Int.mul_zero]
      omega
    | succ i =>
      have hbefore : ¬o.freeBytes i < 2 ^ 32 := Nat.find_min hexists (by omega)
      unfold freeBytes at hbefore ⊢
      rw [hchunk i]
      omega
  have hexists : ∃ i, ¬toInt (o.freeBytes i) ≥ o.inputMtu := ⟨j, by
    have := toInt_neg hjlow hj
    omega⟩
  let i := Nat.find hexists
  have hle : i ≤ j := Nat.find_min' hexists (by
    have := toInt_neg hjlow hj
    omega)
  have hmul : (1 + o.buf.mtu) * (i : Int) ≤ (1 + o.buf.mtu) * (j : Int) :=
    Int.mul_le_mul_of_nonneg_left (by omega) (by omega)
  unfold freeBytes at hjlow
  obtain ⟨es, o', queue, hrun, hpackets, hleft, -, -, -, -, hdecides⟩ :=
    hfilling.fills hused hjobs hdata (by rw [hinput]; exact Nat.le_add_right ..) (i := i)
      (fun k hk => not_not.mp (Nat.find_min hexists hk)) (by omega)
  rw [if_neg (Nat.find_spec hexists)] at hdecides
  refine ⟨es, o', hrun, fun hdelivers => ?_⟩
  have hfull := hdelivers.full hdecides.1 (by rw [startPacket_eq]; exact hdecides.2)
  rw [hpackets, hleft] at hfull
  have hnear : (1 + o.buf.mtu) * ((numPackets : Int) + 1) ≤ (1 + o.buf.mtu) * ((i : Int) + 2) :=
    Int.mul_le_mul_of_nonneg_left (by omega) (by omega)
  rw [Int.mul_add _ (i : Int) 2] at hnear
  omega

/-- **A flow delivers in all runs exactly where its ring is not larger than this.** -/
theorem delivers_iff (memory : Memory) (inputMtu numPackets : Nat) (hnum : 0 < numPackets)
    (hmtu : inputMtu ≤ packetprotoMaxpayload) (o : FlowMemory) (h : init memory inputMtu numPackets = some o) :
    (∀ es o', Run.run step o es = some o' → Delivers numPackets o' (packets o es) (received o es) (left es)) ↔
      ChunkBuffer2.calcBlocks (packetprotoHeaderSize + inputMtu) numPackets ≤ 2 ^ 29 + 2 := by
  constructor
  · intro hall
    by_contra hlarge
    obtain ⟨es, o', hrun, hnot⟩ := not_delivers_of_large hnum hmtu (not_le.mp hlarge) h
    exact hnot (hall es o' hrun)
  · intro hsmall es o' hrun
    exact delivers_of_small hnum hmtu hsmall h hrun

theorem delivers_iff_small : ∃ o, init (fun _ => 0) 4 1 = some o ∧
    ((∀ es o', Run.run step o es = some o' → Delivers 1 o' (packets o es) (received o es) (left es)) ↔
      ChunkBuffer2.calcBlocks (packetprotoHeaderSize + 4) 1 ≤ 2 ^ 29 + 2) :=
  ⟨_, rfl, delivers_iff (fun _ => 0) 4 1 (by decide) (by decide) _ rfl⟩

/-- With a ring of 536871000 blocks the second packet is refused. -/
theorem second_packet_refused : ∃ o o', init (fun _ => 0) 1493 1431655 = some o ∧
    Run.run step o (cycle 0) = some o' ∧ o'.jobs = [] ∧ o'.startPacket.1 = false ∧
    ¬Delivers 1431655 o' (packets o (cycle 0)) (received o (cycle 0)) (left (cycle 0)) := by
  obtain ⟨o, hinit, hrefused⟩ : ∃ o, init (fun _ => 0) 1493 1431655 = some o ∧
      ∃ o', Run.run step o (cycle 0) = some o' ∧ o'.jobs = [] ∧ o'.startPacket.1 = false ∧
        (packets o (cycle 0)).length = 1 :=
    ⟨_, rfl, _, rfl, by decide +kernel, by decide +kernel, by decide +kernel⟩
  obtain ⟨o', hrun, hjobs, hrefused, hpackets⟩ := hrefused
  refine ⟨o, o', hinit, hrun, hjobs, hrefused, fun hdelivers => ?_⟩
  have hfull := hdelivers.full hjobs hrefused
  rw [hpackets] at hfull
  exact absurd hfull (by decide)

end TwilightLine.FlowMemory
