import TwilightLine.Flow.PacketProtoFlowMemory

/-! `flow/PacketBuffer.c`.

The buffer receives packets from its input into its ring and sends them to its output. A
receive is scheduled from two handlers: the one for a received packet where the ring still
has room for one more, the one for a sent packet where it did not have it before and has it
now. So a receive is on its way exactly while the ring has room for a packet
(`Keeps.receiving`), which it has while it holds fewer packets than it was made for
(`ready_of_fewer`). Each function here fails where an assertion does. -/
namespace TwilightLine

open Lib
open ChunkBuffer2 (ChunkMemory ChunkEvent blockAddr blockSize intMax calcBlocks chunkStep fifoStep)
open ChunkBuffer2.ChunkMemory (MadeFor Within)

structure PacketBuffer where
  /-- `input_mtu`. -/
  inputMtu : Nat
  /-- The MTU of `output`. -/
  outputMtu : Nat
  /-- A receive from `input` is not done, and where its packet goes. -/
  receiving : Bool
  recvData : Option Int
  /-- A send to `output` is not done, and its packet. -/
  sending : Bool
  sendData : Option Int
  sendLen : Int
  buf : ChunkMemory

inductive PacketBufferEvent where
  /-- The input writes bytes where it was told to; the first of them are a packet. -/
  | inputDone (written : List UInt8) (inLen : Nat)
  | outputDone
  deriving DecidableEq, Repr

namespace PacketBuffer

/-- `buf.input_avail`, where the number of bytes was set to an `int`. -/
def inputAvail (o : PacketBuffer) : Int := toInt o.buf.inputAvail

/-- `PacketRecvInterface_Receiver_Recv`. -/
def recv (o : PacketBuffer) : Option PacketBuffer :=
  if (0 < o.inputMtu → o.buf.inputDest.isSome) ∧ o.receiving = false then
    some {o with receiving := true, recvData := o.buf.inputDest.map blockAddr}
  else none

/-- `PacketPassInterface_Sender_Send`. -/
def send (o : PacketBuffer) : Option PacketBuffer :=
  if 0 ≤ o.buf.outputAvail ∧ o.buf.outputAvail ≤ o.outputMtu ∧ (0 < o.buf.outputAvail → o.buf.outputDest.isSome) ∧
      o.sending = false then
    some {o with sending := true, sendData := o.buf.outputDest.map blockAddr, sendLen := o.buf.outputAvail}
  else none

/-- `ChunkBuffer2_SubmitPacket`. -/
def submitPacket (o : PacketBuffer) (len : Nat) : Option PacketBuffer :=
  if o.buf.inputDest.isSome ∧ len ≤ o.inputAvail then some {o with buf := o.buf.submitPacket len} else none

/-- `ChunkBuffer2_ConsumePacket`. -/
def consumePacket (o : PacketBuffer) : Option PacketBuffer :=
  if o.buf.outputDest.isSome then some {o with buf := o.buf.consumePacket} else none

/-- `input_handler_done`. -/
def inputHandlerDone (o : PacketBuffer) (inLen : Nat) : Option PacketBuffer :=
  if inLen ≤ o.inputMtu then
    -- whether the buffer was empty is seen before the submit
    (o.submitPacket inLen).bind fun o₁ =>
      (if o₁.inputAvail ≥ o₁.inputMtu then o₁.recv else some o₁).bind fun o₂ =>
        if o.buf.outputAvail < 0 then o₂.send else some o₂
  else none

/-- `output_handler_done`. -/
def outputHandlerDone (o : PacketBuffer) : Option PacketBuffer :=
  -- and whether it was full before the consume
  o.consumePacket.bind fun o₁ =>
    (if o.inputAvail < o.inputMtu ∧ o₁.inputAvail ≥ o₁.inputMtu then o₁.recv else some o₁).bind fun o₂ =>
      if o₂.buf.outputAvail ≥ 0 then o₂.send else some o₂

/-- `PacketBuffer_Init`, where the allocation gives memory with any content. -/
def init (memory : Memory) (inputMtu outputMtu numPackets : Nat) : Option PacketBuffer :=
  if outputMtu ≥ inputMtu ∧ numPackets > 0 ∧ ¬calcBlocks inputMtu numPackets < 0 then
    recv
      { inputMtu := inputMtu, outputMtu := outputMtu, receiving := false, recvData := none, sending := false,
        sendData := none, sendLen := 0, buf := .init memory (calcBlocks inputMtu numPackets).toNat inputMtu }
  else none

/-- What the input and the output may do, and when. -/
def Allowed (o : PacketBuffer) : PacketBufferEvent → Prop
  | .inputDone written inLen => o.receiving = true ∧ written.length ≤ o.inputMtu ∧ inLen ≤ written.length
  | .outputDone => o.sending = true

instance (o : PacketBuffer) : (e : PacketBufferEvent) → Decidable (o.Allowed e)
  | .inputDone .. => inferInstanceAs (Decidable (_ ∧ _))
  | .outputDone => inferInstanceAs (Decidable (_ = true))

/-- The bytes that were written where the input was told to. -/
def put (o : PacketBuffer) (written : List UInt8) : PacketBuffer :=
  match o.recvData with
  | none => o
  | some a => {o with buf := {o.buf with buffer := writeBytes o.buf.buffer a written}}

def handle (o : PacketBuffer) : PacketBufferEvent → Option PacketBuffer
  | .inputDone written inLen => {o.put written with receiving := false}.inputHandlerDone inLen
  | .outputDone => {o with sending := false}.outputHandlerDone

def step (o : PacketBuffer) (e : PacketBufferEvent) : Option PacketBuffer := if o.Allowed e then o.handle e else none

/-- The call of the ring that an event leads to. -/
def call : PacketBufferEvent → ChunkEvent
  | .inputDone written inLen => .submit written inLen
  | .outputDone => .consume

/-- The packets in the buffer. -/
def held (es : List PacketBufferEvent) : List (List UInt8) := (es.map call).foldl fifoStep []

/-! ### The invariant -/

/-- The ring holds the packets; a receive is on its way while there is room for its packet,
a send while there is a packet. -/
structure Keeps (numPackets : Nat) (o : PacketBuffer) (queue : List (List UInt8)) : Prop where
  ring : MadeFor o.inputMtu numPackets o.buf queue
  small : (o.buf.size - 1) * blockSize ≤ intMax
  outputMtu : o.inputMtu ≤ o.outputMtu
  receiving : o.receiving = true ↔ (o.inputMtu : Int) ≤ o.buf.inputAvail
  recvData : o.receiving = true → o.recvData = o.buf.inputDest.map blockAddr
  sending : o.sending = true ↔ queue ≠ []

variable {numPackets : Nat} {o o' : PacketBuffer} {queue : List (List UInt8)}

section Ring
variable {mtu : Nat} {buf : ChunkMemory}

/-- No offer of the ring is too large for an `int`. -/
theorem avail_exact (h : MadeFor mtu numPackets buf queue) (hsmall : (buf.size - 1) * blockSize ≤ intMax) :
    toInt buf.inputAvail = buf.inputAvail := by
  obtain ⟨hlow, hhigh⟩ := ChunkBuffer2.ChunkMemory.inputAvail_le h.stored.ok
  have hused := ChunkBuffer2.ChunkMemory.used_eq h.stored.ok.toShape
  have htotal := ChunkBuffer2.total_nonneg queue
  unfold blockSize intMax at hsmall
  exact toInt_of_lt hlow (by omega)

theorem dest_of_room (h : MadeFor mtu numPackets buf queue) (hroom : (mtu : Int) ≤ buf.inputAvail) :
    ∃ dest, buf.inputDest = some dest :=
  Option.isSome_iff_exists.mp (h.stored.ok.inputDest_isSome (by
    show 0 ≤ buf.inputAvail
    omega))

/-- What the output is sent is the oldest packet. -/
theorem outputAvail_of_cons {p : List UInt8} {rest : List (List UInt8)} (h : MadeFor mtu numPackets buf (p :: rest)) :
    0 ≤ buf.outputAvail ∧ buf.outputAvail ≤ mtu ∧ buf.outputDest.isSome := by
  obtain ⟨-, -, hdest, havail⟩ := h.stored.head
  have hp := h.packets p (List.mem_cons_self ..)
  rw [havail, hdest]
  exact ⟨Int.natCast_nonneg _, by omega, rfl⟩

theorem outputAvail_neg_iff (h : MadeFor mtu numPackets buf queue) : buf.outputAvail < 0 ↔ queue = [] := by
  cases queue with
  | nil =>
    rw [h.stored.no_output.2.2]
    decide
  | cons p rest =>
    have hnonneg := (outputAvail_of_cons h).1
    exact ⟨fun hneg => absurd hneg (not_lt.mpr hnonneg), nofun⟩

end Ring

/-- The receive that a handler schedules where there is room. -/
theorem recv_of_room (ring : MadeFor o.inputMtu numPackets o.buf queue) (hidle : o.receiving = false)
    (hroom : (o.inputMtu : Int) ≤ o.buf.inputAvail) :
    o.recv = some {o with receiving := true, recvData := o.buf.inputDest.map blockAddr} := by
  obtain ⟨dest, hdest⟩ := dest_of_room ring hroom
  exact if_pos ⟨fun _ => by rw [hdest]; rfl, hidle⟩

/-- The send that a handler schedules where there is a packet. -/
theorem send_of_packet {p : List UInt8} {rest : List (List UInt8)}
    (ring : MadeFor o.inputMtu numPackets o.buf (p :: rest)) (hmtu : o.inputMtu ≤ o.outputMtu) (hidle : o.sending = false) :
    o.send = some {o with sending := true, sendData := o.buf.outputDest.map blockAddr, sendLen := o.buf.outputAvail} := by
  obtain ⟨hnonneg, hle, hdest⟩ := outputAvail_of_cons ring
  exact if_pos ⟨hnonneg, by omega, fun _ => hdest, hidle⟩

/-- Handlers schedule a receive where they have to, -/
theorem schedule_recv (due : Prop) [Decidable due] (ring : MadeFor o.inputMtu numPackets o.buf queue)
    (hdue : due → o.receiving = false ∧ (o.inputMtu : Int) ≤ o.buf.inputAvail)
    (hkept : ¬due → (o.receiving = true ↔ (o.inputMtu : Int) ≤ o.buf.inputAvail) ∧
      (o.receiving = true → o.recvData = o.buf.inputDest.map blockAddr)) :
    ∃ o', (if due then o.recv else some o) = some o' ∧ o'.buf = o.buf ∧ o'.inputMtu = o.inputMtu ∧
      o'.outputMtu = o.outputMtu ∧ o'.sending = o.sending ∧
      (o'.receiving = true ↔ (o.inputMtu : Int) ≤ o.buf.inputAvail) ∧
      (o'.receiving = true → o'.recvData = o.buf.inputDest.map blockAddr) := by
  by_cases hneed : due
  · obtain ⟨hidle, hroom⟩ := hdue hneed
    rw [if_pos hneed]
    exact ⟨_, recv_of_room ring hidle hroom, rfl, rfl, rfl, rfl, ⟨fun _ => hroom, fun _ => rfl⟩, fun _ => rfl⟩
  · rw [if_neg hneed]
    exact ⟨o, rfl, rfl, rfl, rfl, rfl, hkept hneed⟩

/-- and then a send. -/
theorem schedule_send (due : Prop) [Decidable due] (ring : MadeFor o.inputMtu numPackets o.buf queue)
    (hsmall : (o.buf.size - 1) * blockSize ≤ intMax) (hmtu : o.inputMtu ≤ o.outputMtu) (hreceiving : o.receiving = true ↔ (o.inputMtu : Int) ≤ o.buf.inputAvail)
    (hdata : o.receiving = true → o.recvData = o.buf.inputDest.map blockAddr)
    (hdue : due → o.sending = false ∧ queue ≠ []) (hkept : ¬due → (o.sending = true ↔ queue ≠ [])) :
    ∃ o', (if due then o.send else some o) = some o' ∧ Keeps numPackets o' queue ∧ o'.buf = o.buf := by
  by_cases hneed : due
  · obtain ⟨hidle, hne⟩ := hdue hneed
    obtain ⟨p, rest, rfl⟩ := List.exists_cons_of_ne_nil hne
    rw [if_pos hneed, send_of_packet ring hmtu hidle]
    exact ⟨_, rfl, ⟨ring, hsmall, hmtu, hreceiving, hdata, ⟨fun _ => hne, fun _ => rfl⟩⟩, rfl⟩
  · rw [if_neg hneed]
    exact ⟨o, rfl, ⟨ring, hsmall, hmtu, hreceiving, hdata, hkept hneed⟩, rfl⟩

theorem put_eq {written : List UInt8} {a : Int} (h : o.recvData = some a) :
    o.put written = {o with buf := {o.buf with buffer := writeBytes o.buf.buffer a written}} := by
  unfold put
  split
  · next hnone => exact absurd (hnone.symm.trans h) nofun
  · next b hb =>
    obtain rfl := Option.some.inj (hb.symm.trans h)
    rfl

/-- A packet was received. -/
theorem Keeps.inputDone (h : Keeps numPackets o queue) {written : List UInt8} {inLen : Nat}
    (hallowed : o.Allowed (.inputDone written inLen)) :
    ∃ o', o.handle (.inputDone written inLen) = some o' ∧ Keeps numPackets o' (queue ++ [written.take inLen]) ∧
      chunkStep o.buf (.submit written inLen) = some o'.buf := by
  obtain ⟨hreceiving, hwritten, hlen⟩ := hallowed
  have hroom := h.receiving.mp hreceiving
  obtain ⟨dest, hdest⟩ := dest_of_room h.ring hroom
  let filled := {o.buf with buffer := writeBytes o.buf.buffer (blockAddr dest) written}
  let o₀ := {o with receiving := false, buf := filled}
  let o₁ := {o₀ with buf := filled.submitPacket inLen}
  have hput : {o.put written with receiving := false} = o₀ := by
    have hdata := h.recvData hreceiving
    rw [hdest] at hdata
    rw [put_eq hdata]
  have hsubmit : o₀.submitPacket inLen = some o₁ := by
    refine if_pos ⟨?_, ?_⟩
    · show o.buf.inputDest.isSome = true
      rw [hdest]
      rfl
    · show (inLen : Int) ≤ toInt o.buf.inputAvail
      rw [avail_exact h.ring h.small]
      omega
  have hstep : chunkStep o.buf (.submit written inLen) = some o₁.buf := by
    simp only [chunkStep, hdest]
    exact if_pos ⟨by omega, hlen⟩
  have hring : MadeFor o₁.inputMtu numPackets o₁.buf (queue ++ [written.take inLen]) :=
    h.ring.step h.small (e := .submit written inLen) (le_trans hlen hwritten) hstep
  have hsmall : (o₁.buf.size - 1) * blockSize ≤ intMax := by
    rw [ChunkBuffer2.ChunkMemory.chunkStep_size hstep]
    exact h.small
  have hexact : o₁.inputAvail = o₁.buf.inputAvail := avail_exact hring hsmall
  -- the receive that was done left no other
  obtain ⟨o₂, hrecv, hbuf, hin, hout, hsending, hiff, hdata⟩ :=
    schedule_recv (o₁.inputAvail ≥ o₁.inputMtu) hring (fun hdue => ⟨rfl, hexact ▸ hdue⟩)
      (fun hdue => ⟨⟨by rintro ⟨⟩, fun hc => absurd (hexact.symm ▸ hc) hdue⟩, by rintro ⟨⟩⟩)
  rw [← hbuf, ← hin] at hring hiff
  rw [← hbuf] at hsmall hdata
  obtain ⟨o', hsend, hkeeps, hbuf'⟩ := schedule_send (o.buf.outputAvail < 0) hring hsmall
    (by rw [hin, hout]; exact h.outputMtu) hiff hdata
    (by
      intro hdue
      have hempty := (outputAvail_neg_iff h.ring).mp hdue
      refine ⟨hsending.trans ?_, by simp⟩
      exact Bool.eq_false_iff.mpr fun hs => h.sending.mp hs hempty)
    (by
      intro hdue
      have hne : queue ≠ [] := fun hempty => hdue ((outputAvail_neg_iff h.ring).mpr hempty)
      exact ⟨fun _ => by simp, fun _ => hsending.trans (h.sending.mpr hne)⟩)
  refine ⟨o', ?_, hkeeps, by rw [hbuf', hbuf]; exact hstep⟩
  show PacketBuffer.inputHandlerDone _ inLen = some o'
  rw [hput, inputHandlerDone, if_pos (show inLen ≤ o₀.inputMtu from le_trans hlen hwritten), hsubmit, Option.bind_some,
    hrecv, Option.bind_some]
  exact hsend

/-- A packet was sent. -/
theorem Keeps.outputDone (h : Keeps numPackets o queue) (hallowed : o.Allowed .outputDone) :
    ∃ o', o.handle .outputDone = some o' ∧ Keeps numPackets o' queue.tail ∧ chunkStep o.buf .consume = some o'.buf := by
  obtain ⟨p, rest, rfl⟩ := List.exists_cons_of_ne_nil (h.sending.mp hallowed)
  let o₀ := {o with sending := false}
  let o₁ := {o₀ with buf := o.buf.consumePacket}
  have hdest : o.buf.outputDest.isSome := (outputAvail_of_cons h.ring).2.2
  have hstep : chunkStep o.buf .consume = some o₁.buf := if_pos hdest
  have hring : MadeFor o₁.inputMtu numPackets o₁.buf rest := h.ring.consume
  have hsmall : (o₁.buf.size - 1) * blockSize ≤ intMax := by
    rw [ChunkBuffer2.ChunkMemory.chunkStep_size hstep]
    exact h.small
  have hexact : o₁.inputAvail = o₁.buf.inputAvail := avail_exact hring hsmall
  have hexact₀ : o₀.inputAvail = o.buf.inputAvail := avail_exact h.ring h.small
  have hmore : o.buf.inputAvail ≤ o₁.buf.inputAvail := by
    have hview := h.ring.stored.ok.consume_inputAvail (List.cons_ne_nil _ _)
    rwa [← (ChunkBuffer2.ChunkMemory.consumePacket_view h.ring.stored).1] at hview
  obtain ⟨o₂, hrecv, hbuf, hin, hout, hsending, hiff, hdata⟩ :=
    schedule_recv (o₀.inputAvail < o₀.inputMtu ∧ o₁.inputAvail ≥ o₁.inputMtu) hring
      (by
        intro hdue
        refine ⟨?_, hexact ▸ hdue.2⟩
        have hfull : ¬(o.inputMtu : Int) ≤ o.buf.inputAvail := not_le.mpr (hexact₀ ▸ hdue.1)
        exact Bool.eq_false_iff.mpr fun hr => hfull (h.receiving.mp hr))
      (by
        -- with no receive to schedule, there is one on its way or still no room
        intro hdue
        rw [hexact₀, hexact] at hdue
        refine ⟨⟨fun hr => le_trans (h.receiving.mp hr) hmore, fun hroom => ?_⟩, fun hr => ?_⟩
        · exact h.receiving.mpr (not_lt.mp fun hfull => hdue ⟨hfull, hroom⟩)
        · obtain ⟨dest, hdest⟩ := dest_of_room h.ring (h.receiving.mp hr)
          have hsame : o.buf.consumePacket.inputDest = some dest :=
            ChunkBuffer2.ChunkMemory.consumePacket_inputDest h.ring.stored hdest
          exact (h.recvData hr).trans (by rw [hdest, hsame]))
  rw [← hbuf, ← hin] at hring hiff
  rw [← hbuf] at hsmall hdata
  obtain ⟨o', hsend, hkeeps, hbuf'⟩ := schedule_send (o₂.buf.outputAvail ≥ 0) hring hsmall
    (by rw [hin, hout]; exact h.outputMtu) hiff hdata
    (fun hdue => ⟨hsending, fun hempty => absurd ((outputAvail_neg_iff hring).mpr hempty) (not_lt.mpr hdue)⟩)
    (by
      intro hdue
      have hempty := (outputAvail_neg_iff hring).mp (not_le.mp hdue)
      exact ⟨fun hs => absurd (hsending.symm.trans hs) nofun, fun hne => absurd hempty hne⟩)
  refine ⟨o', ?_, hkeeps, by rw [hbuf', hbuf]; exact hstep⟩
  show o₀.outputHandlerDone = some o'
  rw [outputHandlerDone, show o₀.consumePacket = some o₁ from if_pos hdest, Option.bind_some, hrecv, Option.bind_some]
  exact hsend

/-! ### Runs -/

theorem Keeps.handle (h : Keeps numPackets o queue) {e : PacketBufferEvent} (hallowed : o.Allowed e) :
    ∃ o', o.handle e = some o' ∧ Keeps numPackets o' (fifoStep queue (call e)) ∧
      chunkStep o.buf (call e) = some o'.buf := by
  cases e with
  | inputDone written inLen => exact h.inputDone hallowed
  | outputDone => exact h.outputDone hallowed

/-- No assertion of a handler fails. -/
theorem Keeps.step_isSome (h : Keeps numPackets o queue) {e : PacketBufferEvent} (hallowed : o.Allowed e) :
    (o.step e).isSome := by
  obtain ⟨o', ho', -⟩ := h.handle hallowed
  rw [step, if_pos hallowed, ho']
  rfl

theorem Keeps.step (h : Keeps numPackets o queue) {e : PacketBufferEvent} (he : o.step e = some o') :
    Keeps numPackets o' (fifoStep queue (call e)) ∧ chunkStep o.buf (call e) = some o'.buf := by
  obtain ⟨hallowed, he⟩ := Option.ite_none_right_eq_some.mp he
  obtain ⟨o₁, ho₁, hkeeps, hcall⟩ := h.handle hallowed
  obtain rfl := Option.some.inj (ho₁.symm.trans he)
  exact ⟨hkeeps, hcall⟩

/-- **A run of the buffer is a run of its ring.** -/
theorem Keeps.run {es : List PacketBufferEvent} (h : Keeps numPackets o queue)
    (hrun : Run.run PacketBuffer.step o es = some o') :
    Keeps numPackets o' ((es.map call).foldl fifoStep queue) ∧
      Run.run chunkStep o.buf (es.map call) = some o'.buf := by
  induction es generalizing o queue with
  | nil =>
    cases hrun
    exact ⟨h, rfl⟩
  | cons e rest ih =>
    obtain ⟨o₁, he, hrest⟩ := Run.run_cons hrun
    obtain ⟨hkeeps, hcall⟩ := h.step he
    obtain ⟨hlast, hcalls⟩ := ih hkeeps hrest
    exact ⟨hlast, by rw [List.map_cons, Run.run, hcall, Option.bind_some, hcalls]⟩

/-- A new buffer has scheduled a receive. -/
theorem keeps_init (memory : Memory) {mtu outputMtu : Nat} (hnum : 0 < numPackets) (hcalc : 0 ≤ calcBlocks mtu numPackets)
    (hsmall : (calcBlocks mtu numPackets - 1) * blockSize ≤ intMax) (houtput : mtu ≤ outputMtu) :
    ∃ o, init memory mtu outputMtu numPackets = some o ∧ Keeps numPackets o [] ∧
      o.buf = .init memory (calcBlocks mtu numPackets).toNat mtu ∧ o.inputMtu = mtu := by
  let buf := ChunkMemory.init memory (calcBlocks mtu numPackets).toNat mtu
  let o₀ : PacketBuffer :=
    { inputMtu := mtu, outputMtu := outputMtu, receiving := false, recvData := none, sending := false, sendData := none,
      sendLen := 0, buf := buf }
  have hring : MadeFor o₀.inputMtu numPackets o₀.buf [] := ChunkBuffer2.ChunkMemory.madeFor_init memory hnum hcalc
  have hroom : (o₀.inputMtu : Int) ≤ o₀.buf.inputAvail := hring.room hnum
  have hsize : ((calcBlocks mtu numPackets).toNat : Int) = calcBlocks mtu numPackets := Int.toNat_of_nonneg hcalc
  refine ⟨_, (if_pos ⟨houtput, hnum, not_lt.mpr hcalc⟩).trans (recv_of_room hring rfl hroom), ?_, rfl, rfl⟩
  refine ⟨hring, ?_, houtput, ⟨fun _ => hroom, fun _ => rfl⟩, fun _ => rfl, ⟨nofun, fun hne => absurd rfl hne⟩⟩
  show (((calcBlocks mtu numPackets).toNat : Int) - 1) * blockSize ≤ intMax
  rw [hsize]
  exact hsmall

/-- A receive is on its way, to where the ring offers the space of a packet. -/
structure Ready (o : PacketBuffer) : Prop where
  receiving : o.receiving = true
  recvData : ∃ dest, o.buf.inputDest = some dest ∧ o.recvData = some (blockAddr dest)
  room : (o.inputMtu : Int) ≤ o.inputAvail

theorem Keeps.ready (h : Keeps numPackets o queue) (hfew : queue.length < numPackets) : Ready o := by
  have hroom := h.ring.room hfew
  have hreceiving := h.receiving.mpr hroom
  obtain ⟨dest, hdest⟩ := dest_of_room h.ring hroom
  refine ⟨hreceiving, ⟨dest, hdest, ?_⟩, ?_⟩
  · rw [h.recvData hreceiving, hdest]
    rfl
  · rw [inputAvail, avail_exact h.ring h.small]
    exact hroom

/-- **A ring offers the space of a packet, and a buffer waits for one, in every run while it
holds fewer packets than it was made for.** -/
theorem ready_of_fewer (memory : Memory) (mtu numPackets : Nat) (hnum : 0 < numPackets)
    (hcalc : 0 ≤ calcBlocks mtu numPackets) (hsmall : (calcBlocks mtu numPackets - 1) * blockSize ≤ intMax) :
    (∀ es buf, (∀ e ∈ es, Within mtu e) →
      Run.run chunkStep (ChunkMemory.init memory (calcBlocks mtu numPackets).toNat mtu) es = some buf →
      (es.foldl fifoStep []).length < numPackets → (mtu : Int) ≤ toInt buf.inputAvail) ∧
    ∀ outputMtu ≥ mtu, ∃ o, init memory mtu outputMtu numPackets = some o ∧
      ∀ es o', Run.run step o es = some o' →
        (∀ e, o'.Allowed e → (step o' e).isSome) ∧ Run.run chunkStep o.buf (es.map call) = some o'.buf ∧
          ((held es).length < numPackets → Ready o') := by
  constructor
  · intro es buf hwithin hrun hfew
    have hsize : ((calcBlocks mtu numPackets).toNat : Int) = calcBlocks mtu numPackets := Int.toNat_of_nonneg hcalc
    have hring := (ChunkBuffer2.ChunkMemory.madeFor_init memory hnum hcalc).run (by
      show (((calcBlocks mtu numPackets).toNat : Int) - 1) * blockSize ≤ intMax
      rw [hsize]
      exact hsmall) hwithin hrun
    have hlast : (buf.size - 1) * blockSize ≤ intMax := by
      rw [hring.size, ← ChunkBuffer2.calcBlocks_eq hcalc]
      exact hsmall
    rw [avail_exact hring hlast]
    exact hring.room hfew
  · intro outputMtu houtput
    obtain ⟨o, hinit, hkeeps, -⟩ := keeps_init memory hnum hcalc hsmall houtput
    refine ⟨o, hinit, fun es o' hrun => ?_⟩
    obtain ⟨hlast, hcalls⟩ := hkeeps.run hrun
    exact ⟨fun e hallowed => hlast.step_isSome hallowed, hcalls, hlast.ready⟩

theorem ready_of_fewer_two :
    (∀ es buf, (∀ e ∈ es, Within 5 e) →
      Run.run chunkStep (ChunkMemory.init (fun _ => 0) (calcBlocks 5 2).toNat 5) es = some buf →
      (es.foldl fifoStep []).length < 2 → ((5 : Nat) : Int) ≤ toInt buf.inputAvail) ∧
    ∀ outputMtu ≥ 5, ∃ o, init (fun _ => 0) 5 outputMtu 2 = some o ∧
      ∀ es o', Run.run step o es = some o' →
        (∀ e, o'.Allowed e → (step o' e).isSome) ∧ Run.run chunkStep o.buf (es.map call) = some o'.buf ∧
          ((held es).length < 2 → Ready o') :=
  ready_of_fewer (fun _ => 0) 5 2 (by decide) (by decide) (by decide)

end PacketBuffer

end TwilightLine
