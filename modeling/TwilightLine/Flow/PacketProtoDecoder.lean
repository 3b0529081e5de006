import TwilightLine.Flow.Interface
import TwilightLine.Flow.PacketProto
import TwilightLine.Lib.ByteMemory
import TwilightLine.Lib.Run

/-! `flow/PacketProtoDecoder.c`: packets from a stream.

The decoder receives into the free end of its buffer, passes the packets that it finds
there to its output one by one, straight out of the buffer, and moves what is left to the
beginning when it has reached the end. `Phase` says which of its two interfaces is at
work, and how the stream lies in the packets that were passed and in the buffer. -/
namespace TwilightLine

open Lib

/-- `PacketProtoDecoder`, with the interfaces that it uses. An operation is a place in
`buf` and a length. -/
structure PacketProtoDecoder where
  outputMtu : Nat
  bufSize : Nat
  bufStart : Nat
  bufUsed : Nat
  buf : Memory
  /-- The `StreamRecvInterface` of the input. -/
  input : Transfer (Nat × Nat) Nat
  /-- The `PacketPassInterface` of the output. -/
  output : Transfer (Nat × Nat) Unit

namespace PacketProtoDecoder

/-- `StreamRecvInterface_Receiver_Recv` of the free end of the buffer. -/
def recv (enc : PacketProtoDecoder) : Option PacketProtoDecoder :=
  let place := enc.bufStart + enc.bufUsed
  if 0 < enc.bufSize - place then
    (enc.input.send (place, enc.bufSize - place)).map fun input => {enc with input := input}
  else none

/-- `PacketPassInterface_Sender_Send` of bytes in the buffer. -/
def send (enc : PacketProtoDecoder) (data dataLen : Nat) : Option PacketProtoDecoder :=
  if dataLen ≤ enc.outputMtu then
    (enc.output.send (data, dataLen)).map fun output => {enc with output := output}
  else none

/-- `PacketProtoDecoder_Init`, up to the allocation of the buffer, for an output of the MTU. -/
def init (buf : Memory) (mtu : Nat) : Option PacketProtoDecoder :=
  let outputMtu := min mtu packetprotoMaxpayload
  recv
    { outputMtu := outputMtu, bufSize := packetprotoHeaderSize + outputMtu, bufStart := 0, bufUsed := 0, buf := buf,
      input := .idle, output := .idle }

/-- If the end of the buffer was reached, what is left goes to its beginning. -/
def wrap (enc : PacketProtoDecoder) : PacketProtoDecoder :=
  if enc.bufStart + enc.bufUsed = enc.bufSize then
    {enc with buf := writeBytes enc.buf 0 (readBytes enc.buf enc.bufStart enc.bufUsed), bufStart := 0}
  else enc

/-- `process_data`; the result says whether `handler_error` is called. -/
def processData (enc : PacketProtoDecoder) : Option (PacketProtoDecoder × Bool) :=
  let data := enc.bufStart
  let left := enc.bufUsed
  -- check if header was received
  if left < packetprotoHeaderSize then enc.wrap.recv.map (·, false)
  else
    let dataLen := (readLe16 (enc.buf data) (enc.buf (data + 1))).toNat
    let data := data + packetprotoHeaderSize
    let left := left - packetprotoHeaderSize
    -- check data length
    if dataLen > enc.outputMtu then
      (recv {enc with bufStart := 0, bufUsed := 0}).map (·, true)
    -- check if whole packet was received
    else if left < dataLen then enc.wrap.recv.map (·, false)
    else
      (send
        {enc with
          bufStart := enc.bufStart + (packetprotoHeaderSize + dataLen)
          bufUsed := enc.bufUsed - (packetprotoHeaderSize + dataLen)}
        data dataLen).map (·, false)

/-- `input_handler_done`. -/
def inputHandlerDone (enc : PacketProtoDecoder) (dataLen : Nat) : Option (PacketProtoDecoder × Bool) :=
  if 0 < dataLen ∧ dataLen ≤ enc.bufSize - (enc.bufStart + enc.bufUsed) then
    processData {enc with bufUsed := enc.bufUsed + dataLen}
  else none

end PacketProtoDecoder

/-- A decoder, with what it received and passed on since its last error. -/
structure DecoderRun where
  dec : PacketProtoDecoder
  stream : List UInt8
  passed : List (List UInt8)
  /-- What was received and passed on up to each call of `handler_error`, newest first. -/
  errors : List (List UInt8 × List (List UInt8))

inductive DecoderEvent where
  | inputOperation
  /-- The input has received some bytes. -/
  | received (data : List UInt8)
  | inputDone
  | outputOperation
  /-- The output is done with the packet. -/
  | completed
  | outputDone
  deriving DecidableEq, Repr

namespace DecoderRun

/-- After a handler of the decoder. -/
def handled (s : DecoderRun) (r : PacketProtoDecoder × Bool) : DecoderRun :=
  if r.2 then ⟨r.1, [], [], (s.stream, s.passed) :: s.errors⟩ else {s with dec := r.1}

def step (s : DecoderRun) : DecoderEvent → Option DecoderRun
  | .inputOperation => s.dec.input.jobOperation.map fun r => {s with dec := {s.dec with input := r.2}}
  | .received data =>
    match s.dec.input with
    | .busy (place, n) =>
      if 0 < data.length ∧ data.length ≤ n then
        some {s with
          dec := {s.dec with buf := writeBytes s.dec.buf place data, input := .donePending data.length}
          stream := s.stream ++ data}
      else none
    | _ => none
  | .inputDone =>
    s.dec.input.jobDone.bind fun r => ({s.dec with input := r.2}.inputHandlerDone r.1).map s.handled
  | .outputOperation =>
    s.dec.output.jobOperation.map fun r =>
      {s with dec := {s.dec with output := r.2}, passed := s.passed ++ [readBytes s.dec.buf r.1.1 r.1.2]}
  | .completed => (s.dec.output.done ()).map fun output => {s with dec := {s.dec with output := output}}
  | .outputDone => s.dec.output.jobDone.bind fun r => {s.dec with output := r.2}.processData.map s.handled

/-- All that was received. -/
def received (s : DecoderRun) : List UInt8 := (s.errors.reverse.map Prod.fst).flatten ++ s.stream

end DecoderRun

/-! ### How the stream lies in the buffer -/

namespace PacketProtoDecoder

/-- What the buffer holds. -/
def held (enc : PacketProtoDecoder) : List UInt8 := readBytes enc.buf enc.bufStart enc.bufUsed

/-- Where the decoder is: what was received since the last error is the frames of the
packets, and then what the buffer holds. -/
inductive Phase (enc : PacketProtoDecoder) (stream : List UInt8) (passed : List (List UInt8)) : Prop
  /-- There is room, and nothing in the buffer to pass on. -/
  | receiving (hin : ∃ n, enc.bufSize = enc.bufStart + enc.bufUsed + n ∧ 0 < n ∧
      (enc.input = .operationPending (enc.bufStart + enc.bufUsed, n) ∨
        enc.input = .busy (enc.bufStart + enc.bufUsed, n)))
    (hout : enc.output = .idle) (hstream : stream = frames passed ++ enc.held)
    (hheld : Incomplete enc.outputMtu enc.held)
  /-- Bytes arrived, and the job is pending. -/
  | arrived (n : Nat) (hin : enc.input = .donePending n) (hn : 0 < n)
    (hle : enc.bufStart + enc.bufUsed + n ≤ enc.bufSize) (hout : enc.output = .idle)
    (hstream : stream = frames passed ++ readBytes enc.buf enc.bufStart (enc.bufUsed + n))
  /-- The packet right before the held bytes goes to the output. -/
  | submitted (data n : Nat) (hin : enc.input = .idle) (hout : enc.output = .operationPending (data, n))
    (hn : n ≤ enc.outputMtu) (hstream : stream = frames (passed ++ [readBytes enc.buf data n]) ++ enc.held)
  /-- The output has the packet. -/
  | passing (data n : Nat) (before : List (List UInt8)) (hin : enc.input = .idle) (hout : enc.output = .busy (data, n))
    (hpassed : passed = before ++ [readBytes enc.buf data n]) (hstream : stream = frames passed ++ enc.held)
  /-- The output is done with it, and the job is pending. -/
  | done (hin : enc.input = .idle) (hout : enc.output = .donePending ()) (hstream : stream = frames passed ++ enc.held)

/-- How far the decoder is from asking for more. -/
def todo (enc : PacketProtoDecoder) : Nat :=
  match enc.input, enc.output with
  | .donePending n, _ => 4 * (enc.bufUsed + n) + 1
  | _, .operationPending _ => 4 * enc.bufUsed + 3
  | _, .busy _ => 4 * enc.bufUsed + 2
  | _, .donePending _ => 4 * enc.bufUsed + 1
  | _, .idle => 0

/-- The numbers of the decoder. -/
structure Sized (enc : PacketProtoDecoder) : Prop where
  mtu : enc.outputMtu ≤ packetprotoMaxpayload
  size : enc.bufSize = packetprotoHeaderSize + enc.outputMtu
  room : enc.bufStart + enc.bufUsed ≤ enc.bufSize

variable {enc enc' : PacketProtoDecoder} {stream : List UInt8} {passed : List (List UInt8)}

theorem announced_readBytes (m : Memory) (a : Int) (n : Nat) : announced (readBytes m a n) =
    if n < packetprotoHeaderSize then none else some (readLe16 (m a) (m (a + 1))).toNat := by
  unfold packetprotoHeaderSize
  match n with
  | 0 => rfl
  | 1 => rfl
  | n + 2 =>
    have htwo : readBytes m a 2 = [m a, m (a + 1)] := by simp [readBytes, List.range_succ]
    rw [Nat.add_comm, readBytes_add, htwo, if_neg (by omega)]
    rfl

/-- A whole frame in memory. -/
theorem readBytes_frame {m : Memory} {a : Int} {n : Nat} (h : (readLe16 (m a) (m (a + 1))).toNat = n) :
    readBytes m a (packetprotoHeaderSize + n) = ppFrame (readBytes m (a + packetprotoHeaderSize) n) := by
  have hlen : UInt16.ofNat n = readLe16 (m a) (m (a + 1)) := by
    rw [← h]
    exact UInt16.ofNat_toNat
  have htwo : readBytes m a 2 = [m a, m (a + 1)] := by simp [readBytes, List.range_succ]
  rw [ppFrame_eq, readBytes_length, hlen, le16_readLe16, readBytes_add, ← htwo]
  rfl

/-- What is held moves with the wrap. -/
theorem held_wrap (enc : PacketProtoDecoder) : enc.wrap.held = enc.held := by
  unfold wrap
  split
  · have hmove := readBytes_writeBytes enc.buf 0 (readBytes enc.buf enc.bufStart enc.bufUsed)
    rw [readBytes_length] at hmove
    exact hmove
  · rfl

/-- The decoder asks for more, at least for one byte. -/
theorem Sized.more (h : Sized enc) (hin : enc.input = .idle) (hout : enc.output = .idle)
    (hheld : Incomplete enc.outputMtu enc.held) (hstream : stream = frames passed ++ enc.held) :
    ∃ enc', enc.wrap.recv = some enc' ∧ enc'.Sized ∧ enc'.outputMtu = enc.outputMtu ∧ enc'.Phase stream passed ∧
      enc'.todo = 0 := by
  have hused : enc.bufUsed < enc.bufSize := by
    have hsize := h.size
    by_cases htwo : enc.bufUsed < packetprotoHeaderSize
    · omega
    · have hlen := hheld _ ((announced_readBytes ..).trans (if_neg htwo))
      rw [held, readBytes_length] at hlen
      omega
  have hwrap : ∃ start, enc.wrap.bufStart = start ∧ start + enc.bufUsed < enc.bufSize := by
    refine ⟨_, rfl, ?_⟩
    have hroom := h.room
    unfold wrap
    split
    · dsimp only
      omega
    · omega
  obtain ⟨start, hstart, hlt⟩ := hwrap
  have hsame : enc.wrap.bufUsed = enc.bufUsed ∧ enc.wrap.bufSize = enc.bufSize ∧ enc.wrap.outputMtu = enc.outputMtu ∧
      enc.wrap.input = .idle ∧ enc.wrap.output = .idle := by
    unfold wrap
    split <;> exact ⟨rfl, rfl, rfl, hin, hout⟩
  obtain ⟨hbufUsed, hbufSize, hmtu, hin', hout'⟩ := hsame
  refine ⟨{enc.wrap with input := .operationPending (enc.wrap.bufStart + enc.wrap.bufUsed,
    enc.wrap.bufSize - (enc.wrap.bufStart + enc.wrap.bufUsed))}, ?_, ⟨?_, ?_, ?_⟩, hmtu, ?_, by rw [todo, hout']⟩
  · unfold recv
    dsimp only
    rw [if_pos (by omega), hin']
    rfl
  · exact hmtu.le.trans h.mtu
  · show enc.wrap.bufSize = packetprotoHeaderSize + enc.wrap.outputMtu
    rw [hbufSize, hmtu, h.size]
  · show enc.wrap.bufStart + enc.wrap.bufUsed ≤ enc.wrap.bufSize
    omega
  · refine .receiving ⟨enc.wrap.bufSize - (enc.wrap.bufStart + enc.wrap.bufUsed), ?_, ?_, .inl rfl⟩ hout' ?_ ?_
    · dsimp only
      omega
    · omega
    · exact hstream.trans (congrArg _ (held_wrap enc).symm)
    · show Incomplete enc.wrap.outputMtu enc.wrap.held
      rw [hmtu, held_wrap]
      exact hheld

/-- With an empty buffer the decoder asks for as much as it holds. -/
theorem recv_empty (enc : PacketProtoDecoder) (hmtu : enc.outputMtu ≤ packetprotoMaxpayload)
    (hsize : enc.bufSize = packetprotoHeaderSize + enc.outputMtu) (hin : enc.input = .idle) (hout : enc.output = .idle) :
    ∃ enc', recv {enc with bufStart := 0, bufUsed := 0} = some enc' ∧ enc'.Sized ∧
      enc'.outputMtu = enc.outputMtu ∧ enc'.Phase [] [] ∧ enc'.todo = 0 := by
  have hpos : 0 < enc.bufSize := by
    unfold packetprotoHeaderSize at hsize
    omega
  refine ⟨{enc with bufStart := 0, bufUsed := 0, input := .operationPending (0, enc.bufSize)}, ?_,
    ⟨hmtu, hsize, Nat.zero_le _⟩, rfl, .receiving ⟨enc.bufSize, ?_, hpos, .inl rfl⟩ hout rfl nofun, by rw [todo, hout]⟩
  · unfold recv
    dsimp only
    rw [if_pos (by omega), hin]
    rfl
  · dsimp only
    omega

theorem init_phase (buf : Memory) (mtu : Nat) : ∃ enc, init buf mtu = some enc ∧ enc.Sized ∧
    enc.outputMtu = min mtu packetprotoMaxpayload ∧ enc.Phase [] [] ∧ enc.todo = 0 :=
  recv_empty ⟨_, _, 0, 0, buf, .idle, .idle⟩ (Nat.min_le_right ..) rfl rfl rfl

/-- **What `process_data` does with the buffer**: it passes on the first packet, or asks for
more, or calls the error handler at a header that announces too much. -/
theorem Sized.process (h : Sized enc) (hin : enc.input = .idle) (hout : enc.output = .idle)
    (hstream : stream = frames passed ++ enc.held) :
    (∃ enc', enc.processData = some (enc', false) ∧ enc'.Sized ∧ enc'.outputMtu = enc.outputMtu ∧
      enc'.Phase stream passed ∧ enc'.todo < 4 * enc.bufUsed + 1) ∨
    (∃ enc', enc.processData = some (enc', true) ∧ enc'.Sized ∧ enc'.outputMtu = enc.outputMtu ∧
      enc'.Phase [] [] ∧ enc'.todo = 0 ∧ TooLarge enc.outputMtu enc.held) := by
  have hann : announced enc.held = if enc.bufUsed < packetprotoHeaderSize then none
      else some (readLe16 (enc.buf enc.bufStart) (enc.buf (enc.bufStart + 1))).toNat := announced_readBytes ..
  unfold processData
  dsimp only
  by_cases htwo : enc.bufUsed < packetprotoHeaderSize
  · rw [if_pos htwo] at hann ⊢
    obtain ⟨enc', hrecv, hsized, hmtu, hphase, htodo⟩ :=
      h.more hin hout (fun n hn => by rw [hann] at hn; cases hn) hstream
    exact .inl ⟨enc', by rw [hrecv]; rfl, hsized, hmtu, hphase, by omega⟩
  · rw [if_neg htwo] at hann ⊢
    generalize hlen : (readLe16 (enc.buf enc.bufStart) (enc.buf (enc.bufStart + 1))).toNat = n at hann ⊢
    by_cases hlarge : n > enc.outputMtu
    · rw [if_pos hlarge]
      obtain ⟨enc', hrecv, hsized, hmtu, hphase, htodo⟩ := recv_empty enc h.mtu h.size hin hout
      exact .inr ⟨enc', by rw [hrecv]; rfl, hsized, hmtu, hphase, htodo, n, hann, hlarge⟩
    · rw [if_neg hlarge]
      by_cases hshort : enc.bufUsed - packetprotoHeaderSize < n
      · rw [if_pos hshort]
        have hincomplete : Incomplete enc.outputMtu enc.held := by
          intro n' hn'
          rw [hann, Option.some.injEq] at hn'
          rw [held, readBytes_length]
          omega
        obtain ⟨enc', hrecv, hsized, hmtu, hphase, htodo⟩ := h.more hin hout hincomplete hstream
        exact .inl ⟨enc', by rw [hrecv]; rfl, hsized, hmtu, hphase, by omega⟩
      · rw [if_neg hshort]
        obtain ⟨k, hk⟩ : ∃ k, enc.bufUsed = packetprotoHeaderSize + n + k :=
          ⟨enc.bufUsed - (packetprotoHeaderSize + n), by omega⟩
        have hroom := h.room
        refine .inl ⟨{enc with
          bufStart := enc.bufStart + (packetprotoHeaderSize + n)
          bufUsed := enc.bufUsed - (packetprotoHeaderSize + n)
          output := .operationPending (enc.bufStart + packetprotoHeaderSize, n)}, ?_, ⟨h.mtu, h.size, ?_⟩, rfl, ?_, ?_⟩
        · unfold send
          dsimp only
          rw [if_pos (not_lt.mp hlarge), hout]
          rfl
        · dsimp only
          omega
        · refine .submitted (enc.bufStart + packetprotoHeaderSize) n hin rfl (not_lt.mp hlarge) ?_
          have hfirst := readBytes_frame hlen
          have hheld : enc.held = ppFrame (readBytes enc.buf (enc.bufStart + packetprotoHeaderSize : Nat) n) ++
              readBytes enc.buf (enc.bufStart + (packetprotoHeaderSize + n) : Nat)
                (enc.bufUsed - (packetprotoHeaderSize + n)) := by
            rw [held, hk, readBytes_add, hfirst, Nat.add_sub_cancel_left]
            push_cast
            rfl
          rw [hstream, hheld, frames_append, frames_cons, frames_nil, List.append_nil, List.append_assoc]
          rfl
        · rw [todo, hin]
          show 4 * (enc.bufUsed - (packetprotoHeaderSize + n)) + 3 < _
          unfold packetprotoHeaderSize at hk ⊢
          omega

end PacketProtoDecoder

/-! ### Runs -/

namespace DecoderRun
variable {s s' : DecoderRun} {mtu : Nat}

/-- The invariant. At every error, a header behind the packets announced too much. -/
structure Inv (mtu : Nat) (s : DecoderRun) : Prop where
  sized : s.dec.Sized
  outputMtu : s.dec.outputMtu = min mtu packetprotoMaxpayload
  phase : s.dec.Phase s.stream s.passed
  fit : Fit mtu s.passed
  errors : ∀ e ∈ s.errors, ∃ rest, e.1 = frames e.2 ++ rest ∧ TooLarge mtu rest ∧ Fit mtu e.2

/-- `process_data` runs to its end, and the invariant holds again. -/
theorem Inv.process (h : s.Inv mtu) (enc : PacketProtoDecoder) (hsized : enc.Sized) (hmtu : enc.outputMtu = s.dec.outputMtu)
    (hin : enc.input = .idle) (hout : enc.output = .idle) (hstream : s.stream = frames s.passed ++ enc.held) :
    ∃ s', enc.processData.map s.handled = some s' ∧ s'.Inv mtu ∧ s'.received = s.received ∧
      s'.dec.todo < 4 * enc.bufUsed + 1 := by
  rcases hsized.process hin hout hstream with ⟨enc', hprocess, hsized', hmtu', hphase, htodo⟩ |
    ⟨enc', hprocess, hsized', hmtu', hphase, htodo, hlarge⟩
  · refine ⟨{s with dec := enc'}, by rw [hprocess]; rfl, ⟨hsized', ?_, hphase, h.fit, h.errors⟩, rfl, htodo⟩
    exact (hmtu'.trans hmtu).trans h.outputMtu
  · refine ⟨⟨enc', [], [], (s.stream, s.passed) :: s.errors⟩, by rw [hprocess]; rfl,
      ⟨hsized', (hmtu'.trans hmtu).trans h.outputMtu, hphase, nofun, ?_⟩, ?_, by dsimp only; omega⟩
    · intro e he
      rcases List.mem_cons.mp he with rfl | he
      · rw [hmtu, h.outputMtu, tooLarge_min] at hlarge
        exact ⟨enc.held, hstream, hlarge, h.fit⟩
      · exact h.errors e he
    · simp [received]

theorem Inv.inputDone (h : s.Inv mtu) {n : Nat} (hin : s.dec.input = .donePending n) :
    ∃ s', s.step .inputDone = some s' ∧ s'.Inv mtu ∧ s'.received = s.received ∧ s'.dec.todo < s.dec.todo := by
  obtain ⟨hn, hle, hout, hstream⟩ : 0 < n ∧ s.dec.bufStart + s.dec.bufUsed + n ≤ s.dec.bufSize ∧ s.dec.output = .idle ∧
      s.stream = frames s.passed ++ readBytes s.dec.buf s.dec.bufStart (s.dec.bufUsed + n) := by
    cases h.phase with
    | arrived n' hin' hn hle hout hstream =>
      cases hin.symm.trans hin'
      exact ⟨hn, hle, hout, hstream⟩
    | receiving hin' =>
      obtain ⟨_, _, _, hin' | hin'⟩ := hin' <;> cases hin.symm.trans hin'
    | submitted _ _ hin' | passing _ _ _ hin' | done hin' => cases hin.symm.trans hin'
  obtain ⟨s', hs, hinv, hreceived, htodo⟩ := h.process {s.dec with input := .idle, bufUsed := s.dec.bufUsed + n}
    ⟨h.sized.mtu, h.sized.size, by dsimp only; omega⟩ rfl rfl hout hstream
  refine ⟨s', ?_, hinv, hreceived, htodo.trans_eq ?_⟩
  · rw [step, hin]
    show (PacketProtoDecoder.inputHandlerDone {s.dec with input := .idle} n).map s.handled = _
    unfold PacketProtoDecoder.inputHandlerDone
    rw [if_pos ⟨hn, by dsimp only; omega⟩]
    exact hs
  · rw [PacketProtoDecoder.todo, hin]

theorem Inv.outputDone (h : s.Inv mtu) (hout : s.dec.output = .donePending ()) :
    ∃ s', s.step .outputDone = some s' ∧ s'.Inv mtu ∧ s'.received = s.received ∧ s'.dec.todo < s.dec.todo := by
  obtain ⟨hin, hstream⟩ : s.dec.input = .idle ∧ s.stream = frames s.passed ++ s.dec.held := by
    cases h.phase with
    | done hin _ hstream => exact ⟨hin, hstream⟩
    | receiving _ hout' | arrived _ _ _ _ hout' | submitted _ _ _ hout' | passing _ _ _ _ hout' =>
      cases hout.symm.trans hout'
  obtain ⟨s', hs, hinv, hreceived, htodo⟩ := h.process {s.dec with output := .idle}
    ⟨h.sized.mtu, h.sized.size, h.sized.room⟩ rfl hin rfl hstream
  refine ⟨s', ?_, hinv, hreceived, htodo.trans_eq ?_⟩
  · rw [step, hout]
    exact hs
  · rw [PacketProtoDecoder.todo, hin, hout]

/-- The output gets the packet as it lies in the buffer. -/
theorem Inv.outputOperation (h : s.Inv mtu) {data n : Nat} (hout : s.dec.output = .operationPending (data, n)) :
    ∃ s', s.step .outputOperation = some s' ∧ s'.Inv mtu ∧ s'.received = s.received ∧ s'.dec.todo < s.dec.todo := by
  cases h.phase with
  | submitted data' n' hin hout' hn hstream =>
    cases hout.symm.trans hout'
    refine ⟨{s with
      dec := {s.dec with output := .busy (data, n)}
      passed := s.passed ++ [readBytes s.dec.buf data n]}, ?_, ⟨⟨h.sized.mtu, h.sized.size, h.sized.room⟩, h.outputMtu,
      .passing data n s.passed hin rfl rfl hstream, ?_, h.errors⟩, rfl, ?_⟩
    · rw [step, hout]
      rfl
    · have hmtu := h.outputMtu
      apply h.fit.concat <;> rw [readBytes_length] <;> omega
    · simp only [PacketProtoDecoder.todo, hin, hout]
      omega
  | receiving _ hout' | arrived _ _ _ _ hout' | done _ hout' | passing _ _ _ _ hout' => cases hout.symm.trans hout'

theorem Inv.completed (h : s.Inv mtu) {data n : Nat} (hout : s.dec.output = .busy (data, n)) :
    ∃ s', s.step .completed = some s' ∧ s'.Inv mtu ∧ s'.received = s.received ∧ s'.dec.todo < s.dec.todo := by
  cases h.phase with
  | passing data' n' before hin hout' hpassed hstream =>
    refine ⟨{s with dec := {s.dec with output := .donePending ()}}, ?_,
      ⟨⟨h.sized.mtu, h.sized.size, h.sized.room⟩, h.outputMtu, .done hin rfl hstream, h.fit, h.errors⟩, rfl, ?_⟩
    · rw [step, hout]
      rfl
    · simp only [PacketProtoDecoder.todo, hin, hout]
      omega
  | receiving _ hout' | arrived _ _ _ _ hout' | done _ hout' | submitted _ _ _ hout' => cases hout.symm.trans hout'

theorem Inv.inputOperation (h : s.Inv mtu) (he : s.step .inputOperation = some s') : s'.Inv mtu := by
  obtain ⟨⟨op, input⟩, hop, rfl⟩ := Option.map_eq_some_iff.mp he
  cases h.phase with
  | receiving hin hout hstream hheld =>
    obtain ⟨n, hsize, hn, hin | hin⟩ := hin
    · rw [hin] at hop
      cases hop
      exact ⟨⟨h.sized.mtu, h.sized.size, h.sized.room⟩, h.outputMtu, .receiving ⟨n, hsize, hn, .inr rfl⟩ hout hstream hheld,
        h.fit, h.errors⟩
    · rw [hin] at hop
      cases hop
  | arrived _ hin | submitted _ _ hin | passing _ _ _ hin | done hin =>
    rw [hin] at hop
    cases hop

/-- What is received goes behind what the buffer holds. -/
theorem Inv.receive (h : s.Inv mtu) {data : List UInt8} (he : s.step (.received data) = some s') : s'.Inv mtu := by
  simp only [step] at he
  split at he
  · next place n hbusy =>
    obtain ⟨⟨hpos, hle⟩, he⟩ := Option.ite_none_right_eq_some.mp he
    cases he
    cases h.phase with
    | receiving hin hout hstream hheld =>
      obtain ⟨n', hsize, hn, hin | hin⟩ := hin
      · cases hbusy.symm.trans hin
      · cases hbusy.symm.trans hin
        refine ⟨⟨h.sized.mtu, h.sized.size, h.sized.room⟩, h.outputMtu, .arrived data.length rfl hpos ?_ hout ?_, h.fit,
          h.errors⟩
        · dsimp only
          omega
        · dsimp only
          have hplace : ((s.dec.bufStart + s.dec.bufUsed : Nat) : Int) = (s.dec.bufStart : Int) + s.dec.bufUsed := by
            push_cast
            rfl
          rw [readBytes_add, readBytes_writeBytes_disjoint (by omega), hplace, readBytes_writeBytes, hstream,
            List.append_assoc]
          rfl
    | arrived _ hin | submitted _ _ hin | passing _ _ _ hin | done hin => cases hbusy.symm.trans hin
  · cases he

/-- **Every event keeps the invariant.** -/
theorem Inv.step {e : DecoderEvent} (h : s.Inv mtu) (he : s.step e = some s') : s'.Inv mtu := by
  cases e with
  | inputOperation => exact h.inputOperation he
  | received data => exact h.receive he
  | inputDone =>
    obtain ⟨⟨n, input⟩, hjob, -⟩ := Option.bind_eq_some_iff.mp he
    obtain ⟨s₁, hs, hinv, -⟩ := h.inputDone (Transfer.jobDone_eq hjob)
    cases hs.symm.trans he
    exact hinv
  | outputOperation =>
    obtain ⟨⟨⟨data, n⟩, output⟩, hjob, -⟩ := Option.map_eq_some_iff.mp he
    obtain ⟨s₁, hs, hinv, -⟩ := h.outputOperation (Transfer.jobOperation_eq hjob)
    cases hs.symm.trans he
    exact hinv
  | completed =>
    obtain ⟨output, hdone, -⟩ := Option.map_eq_some_iff.mp he
    obtain ⟨⟨data, n⟩, hbusy⟩ := Transfer.done_busy hdone
    obtain ⟨s₁, hs, hinv, -⟩ := h.completed hbusy
    cases hs.symm.trans he
    exact hinv
  | outputDone =>
    obtain ⟨⟨⟨⟩, output⟩, hjob, -⟩ := Option.bind_eq_some_iff.mp he
    obtain ⟨s₁, hs, hinv, -⟩ := h.outputDone (Transfer.jobDone_eq hjob)
    cases hs.symm.trans he
    exact hinv

/-! ### The law -/

/-- The decoder waits for more. -/
def Waiting (s : DecoderRun) : Prop :=
  s.dec.output = .idle ∧ ∃ op, s.dec.input = .operationPending op ∨ s.dec.input = .busy op

/-- A job, or the completion of a packet by the output. -/
def Settles : DecoderEvent → Prop
  | .received _ => False
  | _ => True

theorem Inv.waiting (h : s.Inv mtu) (hwait : s.Waiting) :
    s.stream = frames s.passed ++ s.dec.held ∧ Incomplete s.dec.outputMtu s.dec.held := by
  obtain ⟨hidle, op, hop⟩ := hwait
  cases h.phase with
  | receiving _ _ hstream hheld => exact ⟨hstream, hheld⟩
  | arrived _ hin => rcases hop with hop | hop <;> cases hop.symm.trans hin
  | submitted _ _ _ hout | passing _ _ _ _ hout | done _ hout => cases hidle.symm.trans hout

/-- Without more bytes the decoder comes to wait for some. -/
theorem Inv.settles (h : s.Inv mtu) : ∃ es s', (∀ e ∈ es, Settles e) ∧ Run.run DecoderRun.step s es = some s' ∧
    s'.Waiting ∧ s'.received = s.received := by
  induction hn : s.dec.todo using Nat.strong_induction_on generalizing s with
  | _ n ih =>
    subst hn
    have hnext : ∀ {e : DecoderEvent} {s₁ : DecoderRun}, s.step e = some s₁ → Settles e → s₁.Inv mtu →
        s₁.received = s.received → s₁.dec.todo < s.dec.todo → ∃ es s', (∀ e ∈ es, Settles e) ∧
          Run.run DecoderRun.step s es = some s' ∧ s'.Waiting ∧ s'.received = s.received := by
      intro e s₁ hs he hinv hreceived htodo
      obtain ⟨es, s', hes, hrun, hwait, hsame⟩ := ih _ htodo hinv rfl
      refine ⟨e :: es, s', ?_, ?_, hwait, hsame.trans hreceived⟩
      · intro e' he'
        rcases List.mem_cons.mp he' with rfl | he'
        · exact he
        · exact hes e' he'
      · rw [Run.run, hs]
        exact hrun
    cases h.phase with
    | receiving hin hout =>
      obtain ⟨n, -, -, hin⟩ := hin
      exact ⟨[], s, List.forall_mem_nil _, rfl, ⟨hout, _, hin⟩, rfl⟩
    | arrived n hin =>
      obtain ⟨s₁, hs, hinv, hreceived, htodo⟩ := h.inputDone hin
      exact hnext hs trivial hinv hreceived htodo
    | submitted data n _ hout =>
      obtain ⟨s₁, hs, hinv, hreceived, htodo⟩ := h.outputOperation hout
      exact hnext hs trivial hinv hreceived htodo
    | passing data n _ _ hout =>
      obtain ⟨s₁, hs, hinv, hreceived, htodo⟩ := h.completed hout
      exact hnext hs trivial hinv hreceived htodo
    | done _ hout =>
      obtain ⟨s₁, hs, hinv, hreceived, htodo⟩ := h.outputDone hout
      exact hnext hs trivial hinv hreceived htodo

/-- What holds of a decoder whose output takes packets of the MTU. -/
structure Decodes (mtu : Nat) (s : DecoderRun) : Prop where
  room : s.dec.bufStart + s.dec.bufUsed ≤ s.dec.bufSize
  /-- It asks for at least one byte, behind what the buffer holds and not beyond its end. -/
  asks : ∀ place n, s.dec.input = .operationPending (place, n) ∨ s.dec.input = .busy (place, n) →
    0 < n ∧ place = s.dec.bufStart + s.dec.bufUsed ∧ place + n ≤ s.dec.bufSize
  /-- The assertions in its handlers hold. -/
  handlers : (∀ n, s.dec.input = .donePending n → (s.step .inputDone).isSome) ∧
    (s.dec.output = .donePending () → (s.step .outputDone).isSome)
  /-- The output has the last packet as it was passed, until it is done with it. -/
  unmodified : ∀ data n, s.dec.output = .busy (data, n) → s.passed.getLast? = some (readBytes s.dec.buf data n)
  /-- From the frames of some packets, these packets are passed in order, and no error is called. -/
  packets : ∀ ps, Fit mtu ps → s.received <+: frames ps → s.errors = [] ∧ s.passed <+: ps ∧
    (∀ data n, s.dec.output = .operationPending (data, n) →
      ps[s.passed.length]? = some (readBytes s.dec.buf data n)) ∧
    (s.Waiting → s.received = frames ps → s.passed = ps)
  /-- At an error, the packets before a header that announces too much were passed. -/
  errors : ∀ e ∈ s.errors, ∃ rest, e.1 = frames e.2 ++ rest ∧ TooLarge mtu rest ∧ Fit mtu e.2
  /-- No such header is behind a decoder that waits, and all packets are passed. -/
  boundaries : s.Waiting → ∀ qs rest, Fit mtu qs → s.stream = frames qs ++ rest → qs <+: s.passed ∧ ¬TooLarge mtu rest
  /-- What has arrived is dealt with, as soon as the output takes the packets. -/
  settles : ∃ es s', (∀ e ∈ es, Settles e) ∧ Run.run DecoderRun.step s es = some s' ∧ s'.Waiting ∧
    s'.received = s.received

theorem Inv.packets (h : s.Inv mtu) {ps : List (List UInt8)} (hps : Fit mtu ps) (hstream : s.received <+: frames ps) :
    s.errors = [] ∧ s.passed <+: ps ∧ (∀ data n, s.dec.output = .operationPending (data, n) →
      ps[s.passed.length]? = some (readBytes s.dec.buf data n)) ∧ (s.Waiting → s.received = frames ps → s.passed = ps) := by
  have hnone : s.errors = [] := by
    by_contra hne
    obtain ⟨later, e, hlast⟩ := List.eq_nil_or_concat s.errors |>.resolve_left hne
    obtain ⟨rest, hfirst, hlarge, hfit⟩ := h.errors e (by rw [hlast]; simp)
    have hbefore : e.1 <+: s.received := by
      rw [received, hlast]
      simp [List.append_assoc]
    rw [hfirst] at hbefore
    obtain ⟨-, hrest⟩ := frames_cancel hfit hps (hbefore.trans hstream)
    exact not_tooLarge (fun p hp => hps p (List.mem_of_mem_drop hp)) hrest hlarge
  have hreceived : s.received = s.stream := by simp [received, hnone]
  rw [hreceived] at hstream
  have hpassed : ∃ rest, s.stream = frames s.passed ++ rest := by
    cases h.phase with
    | receiving _ _ hstream | arrived _ _ _ _ _ hstream | passing _ _ _ _ _ _ hstream | done _ _ hstream =>
      exact ⟨_, hstream⟩
    | submitted _ _ _ _ _ hstream => exact ⟨_, hstream.trans (by rw [frames_append, List.append_assoc])⟩
  obtain ⟨rest, hrest⟩ := hpassed
  refine ⟨hnone, (frames_cancel h.fit hps (hrest ▸ hstream)).1, ?_, ?_⟩
  · intro data n hout
    cases h.phase with
    | submitted data' n' _ hout' hn hsubmitted =>
      cases hout.symm.trans hout'
      have hmtu := h.outputMtu
      have hfit : Fit mtu (s.passed ++ [readBytes s.dec.buf data n]) := by
        apply h.fit.concat <;> rw [readBytes_length] <;> omega
      obtain ⟨⟨more, hmore⟩, -⟩ := frames_cancel hfit hps (hsubmitted ▸ hstream)
      rw [← hmore, List.append_assoc, List.getElem?_append_right (Nat.le_refl _), Nat.sub_self]
      rfl
    | receiving _ hout' | arrived _ _ _ _ hout' | done _ hout' | passing _ _ _ _ hout' => cases hout.symm.trans hout'
  · intro hwait hall
    obtain ⟨hheld, hincomplete⟩ := h.waiting hwait
    obtain ⟨⟨more, rfl⟩, -⟩ := frames_cancel h.fit hps (hrest ▸ hstream)
    rw [hreceived, hheld, frames_append, List.append_cancel_left_eq] at hall
    rw [hall, h.outputMtu] at hincomplete
    rw [hincomplete.eq_nil (fit_min.mpr fun p hp => hps p (List.mem_append_right _ hp)), List.append_nil]

theorem Inv.decodes (h : s.Inv mtu) : s.Decodes mtu where
  room := h.sized.room
  asks := by
    intro place n hin
    cases h.phase with
    | receiving hin' =>
      obtain ⟨n', hsize, hn, hin'⟩ := hin'
      rcases hin with hin | hin <;> rcases hin' with hin' | hin' <;> cases hin.symm.trans hin' <;>
        exact ⟨hn, rfl, hsize.ge⟩
    | arrived _ hin' | submitted _ _ hin' | passing _ _ _ hin' | done hin' =>
      rcases hin with hin | hin <;> cases hin.symm.trans hin'
  handlers := by
    constructor
    · intro n hin
      obtain ⟨s', hs, -⟩ := h.inputDone hin
      rw [hs]
      rfl
    · intro hout
      obtain ⟨s', hs, -⟩ := h.outputDone hout
      rw [hs]
      rfl
  unmodified := by
    intro data n hout
    cases h.phase with
    | passing data' n' before _ hout' hpassed =>
      cases hout.symm.trans hout'
      rw [hpassed, List.getLast?_concat]
    | receiving _ hout' | arrived _ _ _ _ hout' | submitted _ _ _ hout' | done _ hout' => cases hout.symm.trans hout'
  packets := fun _ => h.packets
  errors := h.errors
  boundaries := by
    intro hwait qs rest hqs hstream
    obtain ⟨hheld, hincomplete⟩ := h.waiting hwait
    rw [h.outputMtu] at hincomplete
    obtain ⟨hbefore, hnot⟩ := frames_boundary (fit_min.mpr h.fit) (fit_min.mpr hqs) hincomplete (hheld.symm.trans hstream)
    exact ⟨hbefore, fun hlarge => hnot (tooLarge_min.mpr hlarge)⟩
  settles := h.settles

end DecoderRun

/-- **A decoder passes on the packets of its stream**, however the stream is cut and whenever
the output completes them, and calls its error handler at the headers that announce too
much, and only there. -/
theorem packetProtoDecoder_decodes (buf : Memory) (mtu : Nat) (es : List DecoderEvent) (s : DecoderRun)
    (hrun : (PacketProtoDecoder.init buf mtu).bind (fun enc => Run.run DecoderRun.step ⟨enc, [], [], []⟩ es) = some s) :
    s.Decodes mtu := by
  obtain ⟨enc, hinit, hsized, hmtu, hphase, -⟩ := PacketProtoDecoder.init_phase buf mtu
  rw [hinit] at hrun
  have hstart : DecoderRun.Inv mtu ⟨enc, [], [], []⟩ := ⟨hsized, hmtu, hphase, nofun, nofun⟩
  exact (Run.run_invariant (DecoderRun.Inv mtu) (fun _ _ _ hi hs => hi.step hs) hrun hstart).decodes

/-- Two packets in two pieces, and a header that announces too much. -/
def threeFrames : List DecoderEvent :=
  [.inputOperation, .received [2, 0, 1], .inputDone, .inputOperation, .received [2, 1], .inputDone, .outputOperation,
    .completed, .outputDone, .inputOperation, .received [0, 3, 4, 0], .inputDone, .outputOperation, .completed,
    .outputDone]

theorem packetProtoDecoder_decodes_threeFrames :
    ∃ s, (PacketProtoDecoder.init (fun _ => 0) 3).bind
        (fun enc => Run.run DecoderRun.step ⟨enc, [], [], []⟩ threeFrames) = some s ∧
      s.errors = [([2, 0, 1, 2, 1, 0, 3, 4, 0], [[1, 2], [3]])] ∧ s.Decodes 3 := by
  have hrun : ((PacketProtoDecoder.init (fun _ => 0) 3).bind
      (fun enc => Run.run DecoderRun.step ⟨enc, [], [], []⟩ threeFrames)).any
        (fun s => s.errors = [([2, 0, 1, 2, 1, 0, 3, 4, 0], [[1, 2], [3]])]) = true := by
    decide +kernel
  obtain ⟨s, hs, herrors⟩ := (Option.any_eq_true _ _).mp hrun
  exact ⟨s, hs, of_decide_eq_true herrors, packetProtoDecoder_decodes (fun _ => 0) 3 threeFrames s hs⟩

end TwilightLine
