import TwilightLine.Flow.Interface

/-! `flow/PacketStreamSender.c`: packets are sent to a stream, each in as many writes as
the stream needs. The functions fail where their assertions do. -/
namespace TwilightLine

/-- `PacketStreamSender`, with the interface of the stream that it sends to. -/
structure PacketStreamSender where
  input : PacketPassInterface
  output : StreamPassInterface
  /-- `in` and `in_len`; nothing where `in_len` is -1. -/
  packet : Option (List UInt8)
  inUsed : Nat
  deriving DecidableEq, Repr

namespace PacketStreamSender

/-- `PacketStreamSender_Init`, on a stream that nothing was sent to. -/
def init (mtu : Nat) : PacketStreamSender where
  input := .init mtu
  output := .idle
  packet := none
  inUsed := 0

/-- `send_data`. -/
def sendData (s : PacketStreamSender) : Option PacketStreamSender :=
  match s.packet with
  | none => none
  | some data =>
    if s.inUsed < data.length then
      (StreamPassInterface.send s.output (data.drop s.inUsed)).map fun output => {s with output := output}
    else s.input.done.map fun input => {s with packet := none, input := input}

/-- `input_handler_send`. -/
def inputHandlerSend (s : PacketStreamSender) (data : List UInt8) : Option PacketStreamSender :=
  if s.packet = none then sendData {s with packet := some data, inUsed := 0} else none

/-- `output_handler_done`. -/
def outputHandlerDone (s : PacketStreamSender) (dataLen : Nat) : Option PacketStreamSender :=
  match s.packet with
  | none => none
  | some data =>
    if 0 < dataLen ∧ dataLen ≤ data.length - s.inUsed then sendData {s with inUsed := s.inUsed + dataLen} else none

/-- The operation job of the input. -/
def inputOperation (s : PacketStreamSender) : Option PacketStreamSender :=
  s.input.jobOperation.bind fun r => {s with input := r.2}.inputHandlerSend r.1

/-- The operation job of the stream. -/
def outputOperation (s : PacketStreamSender) : Option PacketStreamSender :=
  (Transfer.jobOperation s.output).map fun r => {s with output := r.2}

/-- The stream has sent some bytes. -/
def outputDone (s : PacketStreamSender) (dataLen : Nat) : Option (List UInt8 × PacketStreamSender) :=
  (StreamPassInterface.done s.output dataLen).map fun r => (r.1, {s with output := r.2})

/-- The done job of the stream. -/
def outputJobDone (s : PacketStreamSender) : Option PacketStreamSender :=
  (Transfer.jobDone s.output).bind fun r => {s with output := r.2}.outputHandlerDone r.1

/-! ### Where the sender is in a packet -/

/-- What the stream got of the packet that the user of the input waits for, and the state
that goes with it. -/
inductive At (s : PacketStreamSender) (data : List UInt8) : List UInt8 → Prop
  /-- The packet comes with the operation job of the input. -/
  | requested (hin : s.input.state = .operationPending data) (hp : s.packet = none) (hout : s.output = .idle) :
    At s data []
  /-- The rest of the packet comes with the operation job of the stream. -/
  | sending (hin : s.input.state = .busy data) (hp : s.packet = some data) (hused : s.inUsed < data.length)
    (hout : s.output = .operationPending (data.drop s.inUsed)) : At s data (data.take s.inUsed)
  /-- The stream has the rest of the packet. -/
  | busy (hin : s.input.state = .busy data) (hp : s.packet = some data) (hused : s.inUsed < data.length)
    (hout : s.output = .busy (data.drop s.inUsed)) : At s data (data.take s.inUsed)
  /-- The stream sent some of it. -/
  | sent (n : Nat) (hin : s.input.state = .busy data) (hp : s.packet = some data) (hn : 0 < n)
    (hle : n ≤ data.length - s.inUsed) (hout : s.output = .donePending n) : At s data (data.take (s.inUsed + n))
  /-- All of the packet was sent. -/
  | finished (hin : s.input.state = .donePending ()) (hp : s.packet = none) (hout : s.output = .idle) :
    At s data data

/-- No packet was requested. -/
structure Rest (s : PacketStreamSender) : Prop where
  input : s.input.state = .idle
  packet : s.packet = none
  output : s.output = .idle

/-- How far the sender is from the end of the packet. -/
def todo (s : PacketStreamSender) (data : List UInt8) : Nat :=
  match s.input.state with
  | .operationPending _ => 3 * data.length + 5
  | .busy _ =>
    match s.output with
    | .operationPending _ => 3 * (data.length - s.inUsed) + 3
    | .busy _ => 3 * (data.length - s.inUsed) + 2
    | .donePending n => 3 * (data.length - s.inUsed - n) + 4
    | .idle => 0
  | _ => 1

theorem rest_init (mtu : Nat) : Rest (init mtu) := ⟨rfl, rfl, rfl⟩

variable {s s' : PacketStreamSender} {data got : List UInt8}

theorem At.isPrefix_packet (h : At s data got) : got <+: data := by
  cases h with
  | requested => exact List.nil_prefix
  | sending => exact List.take_prefix ..
  | busy => exact List.take_prefix ..
  | sent => exact List.take_prefix ..
  | finished => exact List.prefix_rfl

theorem Rest.send (h : Rest s) (hlen : data.length ≤ s.input.mtu) :
    ∃ input, s.input.send data = some input ∧ At {s with input := input} data [] := by
  exact ⟨_, PacketPassInterface.send_of_idle h.input hlen, .requested rfl h.packet h.output⟩

theorem Rest.inputOperation (h : Rest s) : s.inputOperation = none := by
  rw [PacketStreamSender.inputOperation, PacketPassInterface.jobOperation, h.input]
  rfl

theorem Rest.outputOperation (h : Rest s) : s.outputOperation = none := by
  rw [PacketStreamSender.outputOperation, h.output]
  rfl

theorem Rest.outputDone (h : Rest s) (n : Nat) : s.outputDone n = none := by
  rw [PacketStreamSender.outputDone, h.output]
  rfl

theorem Rest.outputJobDone (h : Rest s) : s.outputJobDone = none := by
  rw [PacketStreamSender.outputJobDone, h.output]
  rfl

theorem Rest.jobDone (h : Rest s) : s.input.jobDone = none := by
  rw [PacketPassInterface.jobDone, h.input]
  rfl

/-- After a handler of the sender, the rest of the packet is on its way, or the packet is
finished. -/
theorem sendData_at (hin : s.input.state = .busy data) (hp : s.packet = some data) (hout : s.output = .idle)
    (hused : s.inUsed ≤ data.length) : ∃ s', s.sendData = some s' ∧ At s' data (data.take s.inUsed) ∧
      s'.todo data ≤ 3 * (data.length - s.inUsed) + 3 := by
  unfold sendData
  rw [hp]
  dsimp only
  by_cases hlt : s.inUsed < data.length
  · refine ⟨{s with output := .operationPending (data.drop s.inUsed), packet := some data}, ?_, .sending hin rfl hlt rfl, ?_⟩
    · have hpos : 0 < (data.drop s.inUsed).length := by
        rw [List.length_drop]
        omega
      rw [if_pos hlt, StreamPassInterface.send, if_pos hpos, hout]
      rfl
    · simp [todo, hin]
  · refine ⟨{s with packet := none, input := {s.input with state := .donePending ()}}, ?_, ?_, ?_⟩
    · rw [if_neg hlt, PacketPassInterface.done, hin]
      rfl
    · rw [List.take_of_length_le (by omega)]
      exact .finished rfl rfl hout
    · show 1 ≤ _
      omega

theorem inputOperation_eq (hin : s.input.state = .operationPending data) (hp : s.packet = none) :
    s.inputOperation = {s with input := ⟨s.input.mtu, .busy data⟩, packet := some data, inUsed := 0}.sendData := by
  rw [PacketStreamSender.inputOperation, PacketPassInterface.jobOperation, hin]
  exact if_pos hp

theorem outputJobDone_eq {n : Nat} (hp : s.packet = some data) (hn : 0 < n) (hle : n ≤ data.length - s.inUsed)
    (hout : s.output = .donePending n) :
    s.outputJobDone = {s with output := .idle, inUsed := s.inUsed + n}.sendData := by
  rw [PacketStreamSender.outputJobDone, hout]
  show outputHandlerDone {s with output := .idle} n = _
  rw [outputHandlerDone, hp]
  exact if_pos ⟨hn, hle⟩

theorem At.inputOperation (h : At s data got) (he : s.inputOperation = some s') : At s' data got := by
  cases h with
  | requested hin hp hout =>
    rw [inputOperation_eq hin hp] at he
    obtain ⟨s₁, hs, hat, -⟩ := sendData_at (s := {s with
      input := ⟨s.input.mtu, .busy data⟩, packet := some data, inUsed := 0}) rfl rfl hout (Nat.zero_le _)
    cases hs.symm.trans he
    exact hat
  | sending hin | busy hin | sent n hin | finished hin =>
    simp [PacketStreamSender.inputOperation, PacketPassInterface.jobOperation, hin, Transfer.jobOperation] at he

theorem At.outputOperation (h : At s data got) (he : s.outputOperation = some s') : At s' data got := by
  cases h with
  | sending hin hp hused hout =>
    rw [PacketStreamSender.outputOperation, hout] at he
    cases he
    exact .busy hin hp hused rfl
  | requested _ _ hout | busy _ _ _ hout | sent n _ _ _ _ hout | finished _ _ hout =>
    simp [PacketStreamSender.outputOperation, hout, Transfer.jobOperation] at he

/-- What the stream sends are the next bytes of the packet. -/
theorem At.outputDone (h : At s data got) {n : Nat} {bytes : List UInt8} (he : s.outputDone n = some (bytes, s')) :
    At s' data (got ++ bytes) := by
  cases h with
  | busy hin hp hused hout =>
    unfold PacketStreamSender.outputDone StreamPassInterface.done at he
    rw [hout] at he
    dsimp only at he
    split at he
    · next hn =>
      cases he
      rw [List.length_drop] at hn
      rw [← List.take_add]
      exact .sent n hin hp hn.1 hn.2 rfl
    · cases he
  | requested _ _ hout | sending _ _ _ hout | sent n _ _ _ _ hout | finished _ _ hout =>
    simp [PacketStreamSender.outputDone, hout, StreamPassInterface.done] at he

theorem At.outputJobDone (h : At s data got) (he : s.outputJobDone = some s') : At s' data got := by
  cases h with
  | sent n hin hp hn hle hout =>
    rw [outputJobDone_eq hp hn hle hout] at he
    obtain ⟨s₁, hs, hat, -⟩ := sendData_at (s := {s with output := .idle, inUsed := s.inUsed + n}) hin hp rfl
      (by dsimp only; omega)
    cases hs.symm.trans he
    exact hat
  | requested _ _ hout | sending _ _ _ hout | busy _ _ _ hout | finished _ _ hout =>
    simp [PacketStreamSender.outputJobDone, hout, Transfer.jobDone] at he

/-- Only a packet that was sent whole is done. -/
theorem At.jobDone (h : At s data got) {input : PacketPassInterface} (he : s.input.jobDone = some input) :
    got = data ∧ Rest {s with input := input} := by
  cases h with
  | finished hin hp hout =>
    rw [PacketPassInterface.jobDone, hin] at he
    cases he
    exact ⟨rfl, rfl, hp, hout⟩
  | requested hin | sending hin | busy hin | sent n hin =>
    simp [PacketPassInterface.jobDone, hin, Transfer.jobDone] at he

/-- **Nothing but the stream holds up a packet.** -/
theorem At.progress (h : At s data got) :
    (∃ s', s.inputOperation = some s' ∧ s'.todo data < s.todo data) ∨
      (∃ s', s.outputOperation = some s' ∧ s'.todo data < s.todo data) ∨
      (∃ n bytes s', s.outputDone n = some (bytes, s') ∧ s'.todo data < s.todo data) ∨
      (∃ s', s.outputJobDone = some s' ∧ s'.todo data < s.todo data) ∨
      ∃ input, s.input.jobDone = some input := by
  cases h with
  | requested hin hp hout =>
    obtain ⟨s', hs, -, htodo⟩ := sendData_at (s := {s with
      input := ⟨s.input.mtu, .busy data⟩, packet := some data, inUsed := 0}) rfl rfl hout (Nat.zero_le _)
    refine .inl ⟨s', (inputOperation_eq hin hp).trans hs, ?_⟩
    rw [show s.todo data = 3 * data.length + 5 by rw [todo, hin]]
    dsimp only at htodo
    omega
  | sending hin hp hused hout =>
    refine .inr (.inl ⟨{s with output := .busy (data.drop s.inUsed)}, ?_, ?_⟩)
    · rw [PacketStreamSender.outputOperation, hout]
      rfl
    · simp [todo, hin, hout]
  | busy hin hp hused hout =>
    refine .inr (.inr (.inl ⟨data.length - s.inUsed, data.drop s.inUsed,
      {s with output := .donePending (data.length - s.inUsed)}, ?_, ?_⟩))
    · unfold PacketStreamSender.outputDone StreamPassInterface.done
      rw [hout]
      dsimp only
      rw [if_pos ⟨by omega, Nat.le_of_eq List.length_drop.symm⟩, ← List.length_drop, List.take_length]
      rfl
    · simp only [todo, hin, hout]
      omega
  | sent n hin hp hn hle hout =>
    obtain ⟨s', hs, -, htodo⟩ := sendData_at (s := {s with output := .idle, inUsed := s.inUsed + n}) hin hp rfl
      (by dsimp only; omega)
    refine .inr (.inr (.inr (.inl ⟨s', (outputJobDone_eq hp hn hle hout).trans hs, ?_⟩)))
    simp only [todo, hin, hout] at htodo ⊢
    omega
  | finished hin hp hout =>
    refine .inr (.inr (.inr (.inr ⟨⟨s.input.mtu, .idle⟩, ?_⟩)))
    rw [PacketPassInterface.jobDone, hin]
    rfl

/-! ### The largest packet -/

theorem sendData_mtu (h : s.sendData = some s') : s'.input.mtu = s.input.mtu := by
  unfold sendData at h
  split at h
  · cases h
  · split at h
    · obtain ⟨output, -, rfl⟩ := Option.map_eq_some_iff.mp h
      rfl
    · obtain ⟨input, hinput, rfl⟩ := Option.map_eq_some_iff.mp h
      rw [(PacketPassInterface.done_eq hinput).2]

theorem inputOperation_mtu (h : s.inputOperation = some s') : s'.input.mtu = s.input.mtu := by
  obtain ⟨⟨data, input⟩, hinput, h⟩ := Option.bind_eq_some_iff.mp h
  obtain ⟨-, h⟩ := Option.ite_none_right_eq_some.mp h
  refine (sendData_mtu h).trans ?_
  rw [(PacketPassInterface.jobOperation_eq hinput).2]

theorem outputOperation_mtu (h : s.outputOperation = some s') : s'.input.mtu = s.input.mtu := by
  obtain ⟨r, -, rfl⟩ := Option.map_eq_some_iff.mp h
  rfl

theorem outputDone_mtu {n : Nat} {bytes : List UInt8} (h : s.outputDone n = some (bytes, s')) :
    s'.input.mtu = s.input.mtu := by
  obtain ⟨r, -, heq⟩ := Option.map_eq_some_iff.mp h
  cases heq
  rfl

theorem outputJobDone_mtu (h : s.outputJobDone = some s') : s'.input.mtu = s.input.mtu := by
  obtain ⟨r, -, h⟩ := Option.bind_eq_some_iff.mp h
  unfold outputHandlerDone at h
  split at h
  · cases h
  · obtain ⟨-, h⟩ := Option.ite_none_right_eq_some.mp h
    exact (sendData_mtu h).trans rfl

end PacketStreamSender

end TwilightLine
