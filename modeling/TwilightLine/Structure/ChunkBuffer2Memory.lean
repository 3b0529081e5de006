import TwilightLine.Lib.ByteMemory
import TwilightLine.Lib.Run
import TwilightLine.Misc.ByteOrder
import TwilightLine.Structure.ChunkBuffer2

/-! The packet ring with the bytes of its blocks.

`ChunkMemory` is `ChunkBuffer2` with the memory of the array. A packet's length lies in
the block at its position and its bytes in the blocks behind. The operations read and
write this memory; what they compute is what the ring of packets computes (`Sim`), so
the ring in memory is a queue of packets (`chunkBuffer2_fifo`). -/
namespace TwilightLine.ChunkBuffer2

open Lib

/-- `ChunkBuffer2` with the bytes of `buffer`. A destination is the index of a block. -/
structure ChunkMemory where
  buffer : Memory
  size : Int
  wrap : Int
  start : Int
  used : Int
  mtu : Int
  inputDest : Option Int
  inputAvail : Int
  outputDest : Option Int
  outputAvail : Int

/-- The address of a block. -/
def blockAddr (i : Int) : Int := i * blockSize

/-- An `int` of the memory. -/
def readInt (m : Memory) (a : Int) : Int :=
  (readLe32 (m a) (m (a + 1)) (m (a + 2)) (m (a + 3))).toBitVec.toInt

/-- The memory after an `int` was written. -/
def writeInt (m : Memory) (a : Int) (n : Int) : Memory := writeBytes m a (le32 ⟨BitVec.ofInt 32 n⟩)

namespace ChunkMemory

/-- The ring without the memory, for the packets it is taken to hold. -/
def ring (buf : ChunkMemory) (packets : List (Packet Unit)) : ChunkBuffer2 Unit where
  size := buf.size
  wrap := buf.wrap
  start := buf.start
  used := buf.used
  mtu := buf.mtu
  inputDest := buf.inputDest
  inputAvail := buf.inputAvail
  outputDest := buf.outputDest
  outputAvail := buf.outputAvail
  packets := packets

/-- `_ChunkBuffer2_end`. -/
def chunkEnd (buf : ChunkMemory) : Int := (buf.ring []).chunkEnd

/-- `_ChunkBuffer2_update_input`. -/
def updateInput (buf : ChunkMemory) : ChunkMemory :=
  {buf with inputDest := (buf.ring []).inputOffer.1, inputAvail := (buf.ring []).inputOffer.2}

/-- `buf->buffer[i].len`. -/
def len (buf : ChunkMemory) (i : Int) : Int := readInt buf.buffer (blockAddr i)

/-- `_ChunkBuffer2_update_output`. -/
def updateOutput (buf : ChunkMemory) : ChunkMemory :=
  if buf.used > 0 then {buf with outputDest := some (buf.start + 1), outputAvail := buf.len buf.start}
  else {buf with outputDest := none, outputAvail := -1}

/-- `bdivide_up` of a length and the size of a block. -/
def blocklen (len : Int) : Int := bdivideUp len.toNat blockSize

/-- The length of the packet written at `input_dest` goes into the block before it; the
packets may turn back behind it. -/
def place (buf : ChunkMemory) (len : Int) : ChunkMemory :=
  let next := buf.chunkEnd + 1 + blocklen len
  let used := buf.used + (1 + blocklen len)
  {buf with
    buffer := writeInt buf.buffer (blockAddr buf.chunkEnd) len
    used := used
    wrap := if used ≤ buf.wrap - buf.start ∧ buf.mtu > buf.size - next - 1 then next else buf.wrap}

/-- `ChunkBuffer2_SubmitPacket`. -/
def submitPacket (buf : ChunkMemory) (len : Int) : ChunkMemory :=
  let buf := (buf.place len).updateInput
  if buf.used = 1 + blocklen len then buf.updateOutput else buf

/-- The first packet leaves. -/
def dropFirst (buf : ChunkMemory) : ChunkMemory :=
  let n := blocklen (buf.len buf.start)
  let start := buf.start + (1 + n)
  let buf := {buf with used := buf.used - (1 + n)}
  if start = buf.wrap then {buf with start := 0, wrap := buf.size} else {buf with start := start}

/-- `ChunkBuffer2_ConsumePacket`. -/
def consumePacket (buf : ChunkMemory) : ChunkMemory :=
  (if buf.used ≥ buf.wrap - buf.start then buf.dropFirst.updateInput else buf.dropFirst).updateOutput

/-- `ChunkBuffer2_Init`, on memory with any content. -/
def init (buffer : Memory) (blocks mtu : Nat) : ChunkMemory :=
  updateOutput (updateInput
    { buffer := buffer, size := blocks, wrap := blocks, start := 0, used := 0, mtu := bdivideUp mtu blockSize,
      inputDest := none, inputAvail := -1, outputDest := none, outputAvail := -1 })

/-- The conditions of `_ChunkBuffer2_assert_buffer`. -/
structure AssertBuffer (buf : ChunkMemory) : Prop where
  size : buf.size > 0
  wrap : buf.wrap > 0
  wrap_le : buf.wrap ≤ buf.size
  start : buf.start ≥ 0
  start_lt : buf.start < buf.wrap
  used : buf.used ≥ 0
  used_le : buf.used ≤ buf.wrap
  turned : buf.wrap = buf.size ∨ buf.used ≥ buf.wrap - buf.start
  mtu : buf.mtu ≥ 0

/-- `free`, in `_ChunkBuffer2_assert_io`. -/
def free (buf : ChunkMemory) : Int :=
  if buf.used ≥ buf.wrap - buf.start then buf.start - buf.chunkEnd else buf.size - buf.chunkEnd

/-- The conditions of `_ChunkBuffer2_assert_io`. -/
structure AssertIo (buf : ChunkMemory) : Prop where
  noInput : buf.size - buf.chunkEnd - 1 < buf.mtu → buf.inputDest = none ∧ buf.inputAvail = -1
  input : ¬buf.size - buf.chunkEnd - 1 < buf.mtu → buf.free > 0 →
    buf.inputDest = some (buf.chunkEnd + 1) ∧ buf.inputAvail = (buf.free - 1) * blockSize
  full : ¬buf.size - buf.chunkEnd - 1 < buf.mtu → ¬buf.free > 0 → buf.inputDest = none ∧ buf.inputAvail = -1
  output : buf.used > 0 → buf.len buf.start ≥ 0 ∧ blocklen (buf.len buf.start) ≤ buf.used - 1 ∧
    blocklen (buf.len buf.start) ≤ buf.wrap - buf.start - 1 ∧ buf.outputDest = some (buf.start + 1) ∧
    buf.outputAvail = buf.len buf.start
  noOutput : ¬buf.used > 0 → buf.outputDest = none ∧ buf.outputAvail = -1

end ChunkMemory

inductive ChunkEvent where
  /-- Bytes are written at `input_dest`, and the first of them submitted as a packet. -/
  | submit (written : List UInt8) (len : Nat)
  | consume
  deriving DecidableEq, Repr

/-- The calls, where their assertions hold. -/
def chunkStep (buf : ChunkMemory) : ChunkEvent → Option ChunkMemory
  | .submit written len =>
    match buf.inputDest with
    | none => none
    | some dest =>
      if (written.length : Int) ≤ buf.inputAvail ∧ len ≤ written.length then
        some ({buf with buffer := writeBytes buf.buffer (blockAddr dest) written}.submitPacket len)
      else none
  | .consume => if buf.outputDest.isSome then some buf.consumePacket else none

/-- The queue of packets that the ring stands for. -/
def fifoStep (queue : List (List UInt8)) : ChunkEvent → List (List UInt8)
  | .submit written len => queue ++ [written.take len]
  | .consume => queue.tail

/-! ### Where the packets lie -/

/-- The blocks of a packet. -/
def cells (b : List UInt8) : Int := 1 + bdivideUp b.length blockSize

def total (queue : List (List UInt8)) : Int := (queue.map cells).sum

/-- The position behind a packet, at the first block where it is `wrap`. -/
def turn (wrap pos : Int) : Int := if pos = wrap then 0 else pos

/-- The packets of the queue with their positions. -/
def locate (wrap pos : Int) : List (List UInt8) → List (Int × List UInt8)
  | [] => []
  | b :: rest => (pos, b) :: locate wrap (turn wrap (pos + cells b)) rest

/-- The position behind the queue. -/
def walk (wrap pos : Int) : List (List UInt8) → Int
  | [] => pos
  | b :: rest => walk wrap (turn wrap (pos + cells b)) rest

/-- The blocks at the position hold the packet. -/
structure Holds (m : Memory) (pos : Int) (b : List UInt8) : Prop where
  len : readInt m (blockAddr pos) = b.length
  bytes : readBytes m (blockAddr (pos + 1)) b.length = b

def asPackets (queue : List (List UInt8)) : List (Packet Unit) := queue.map fun b => ⟨b, ()⟩

section Locate
variable {wrap pos : Int} {b : List UInt8} {queue front back : List (List UInt8)}

theorem cells_pos (b : List UInt8) : 0 < cells b := by
  unfold cells
  omega

@[simp] theorem total_nil : total [] = 0 := rfl

@[simp] theorem total_cons (b : List UInt8) (queue : List (List UInt8)) : total (b :: queue) = cells b + total queue := by
  simp [total]

@[simp] theorem total_append (front back : List (List UInt8)) : total (front ++ back) = total front + total back := by
  simp [total]

theorem total_nonneg (queue : List (List UInt8)) : 0 ≤ total queue := by
  induction queue with
  | nil => exact le_rfl
  | cons b queue ih =>
    have := cells_pos b
    rw [total_cons]
    omega

theorem blocks_asPackets (queue : List (List UInt8)) : blocks (asPackets queue) = total queue := by
  rw [blocks, asPackets, List.map_map]
  rfl

theorem turn_of_ne (h : pos ≠ wrap) : turn wrap pos = pos := if_neg h

theorem locate_append (wrap pos : Int) (front back : List (List UInt8)) :
    locate wrap pos (front ++ back) = locate wrap pos front ++ locate wrap (walk wrap pos front) back := by
  induction front generalizing pos with
  | nil => rfl
  | cons b front ih =>
    rw [List.cons_append, locate, locate, walk, ih]
    rfl

/-- Packets that end before `wrap` lie one behind the other. -/
theorem walk_straight (h : pos + total queue < wrap) : walk wrap pos queue = pos + total queue := by
  induction queue generalizing pos with
  | nil => simp [walk]
  | cons b queue ih =>
    have hrest := total_nonneg queue
    rw [total_cons] at h
    rw [walk, turn_of_ne (by omega), ih (by omega), total_cons]
    omega

theorem mem_locate_straight (h : pos + total queue < wrap) :
    ∀ x ∈ locate wrap pos queue, pos ≤ x.1 ∧ x.1 + cells x.2 ≤ pos + total queue := by
  induction queue generalizing pos with
  | nil => exact nofun
  | cons b queue ih =>
    have hrest := total_nonneg queue
    have hb := cells_pos b
    rw [total_cons] at h ⊢
    intro x hx
    rw [locate, turn_of_ne (by omega)] at hx
    rcases List.mem_cons.mp hx with rfl | hx
    · exact ⟨le_rfl, by dsimp only; omega⟩
    · have := ih (by omega) x hx
      omega

/-- Where `wrap` lies does not matter to packets that end before it. -/
theorem locate_congr {wrap' : Int} (h : pos + total queue < wrap) (h' : pos + total queue < wrap') :
    locate wrap pos queue = locate wrap' pos queue := by
  induction queue generalizing pos with
  | nil => rfl
  | cons b queue ih =>
    have hrest := total_nonneg queue
    rw [total_cons] at h h'
    rw [locate, locate, turn_of_ne (by omega), turn_of_ne (by omega), ih (by omega) (by omega)]

/-- Where the first packets fill the blocks up to `wrap`, the others begin at the first
block. -/
theorem walk_turned (hpos : pos < wrap) (hfront : pos + total front = wrap) (hback : total back < wrap) :
    walk wrap pos (front ++ back) = total back := by
  induction front generalizing pos with
  | nil =>
    rw [total_nil] at hfront
    omega
  | cons b front ih =>
    have hrest := total_nonneg front
    rw [total_cons] at hfront
    rw [List.cons_append, walk]
    by_cases hturn : pos + cells b = wrap
    · have hnil : front = [] := by
        cases front with
        | nil => rfl
        | cons c front =>
          have := cells_pos c
          have := total_nonneg front
          rw [total_cons] at hfront
          omega
      rw [hnil, List.nil_append, turn, if_pos hturn, walk_straight (by omega), Int.zero_add]
    · rw [turn_of_ne hturn, ih (by omega) (by omega)]

theorem mem_locate_turned (hpos : pos < wrap) (hfront : pos + total front = wrap) (hback : total back < wrap) :
    ∀ x ∈ locate wrap pos (front ++ back),
      pos ≤ x.1 ∧ x.1 + cells x.2 ≤ wrap ∨ 0 ≤ x.1 ∧ x.1 + cells x.2 ≤ total back := by
  induction front generalizing pos with
  | nil =>
    rw [total_nil] at hfront
    omega
  | cons b front ih =>
    have hrest := total_nonneg front
    have hb := cells_pos b
    rw [total_cons] at hfront
    intro x hx
    rw [List.cons_append, locate] at hx
    rcases List.mem_cons.mp hx with rfl | hx
    · exact .inl ⟨le_rfl, by dsimp only; omega⟩
    · by_cases hturn : pos + cells b = wrap
      · have hnil : front = [] := by
          cases front with
          | nil => rfl
          | cons c front =>
            have := cells_pos c
            have := total_nonneg front
            rw [total_cons] at hfront
            omega
        rw [hnil, List.nil_append, turn, if_pos hturn] at hx
        have := mem_locate_straight (by omega) x hx
        omega
      · rw [turn_of_ne hturn] at hx
        have := ih (by omega) (by omega) x hx
        omega

end Locate

/-! ### The ring in memory and the ring of packets -/

namespace ChunkMemory
variable {buf : ChunkMemory} {queue : List (List UInt8)} {b : List UInt8}

/-- The ring of packets that the memory holds. -/
def view (buf : ChunkMemory) (queue : List (List UInt8)) : ChunkBuffer2 Unit := buf.ring (asPackets queue)

/-- The indices are those of the ring of packets, and each of them is where it lies. -/
structure Stored (buf : ChunkMemory) (queue : List (List UInt8)) : Prop where
  ok : Ok (buf.view queue)
  holds : ∀ x ∈ locate buf.wrap buf.start queue, Holds buf.buffer x.1 x.2

/-- Also, no `int` overflows. -/
structure Sim (buf : ChunkMemory) (queue : List (List UInt8)) : Prop where
  ok : Ok (buf.view queue)
  holds : ∀ x ∈ locate buf.wrap buf.start queue, Holds buf.buffer x.1 x.2
  small : buf.size * blockSize < 2 ^ 31

theorem Sim.stored (h : Sim buf queue) : Stored buf queue := ⟨h.ok, h.holds⟩

/-- The queue behind the start: before `wrap`, or turned back from it. -/
theorem layout (h : Shape (buf.view queue)) :
    (buf.used < buf.wrap - buf.start ∧ buf.wrap = buf.size ∧ buf.start + total queue < buf.wrap) ∨
      buf.used ≥ buf.wrap - buf.start ∧ ∃ front back, queue = front ++ back ∧
        buf.start + total front = buf.wrap ∧ total back < buf.wrap := by
  have hused : buf.used = total queue := h.used.trans (blocks_asPackets queue)
  have hlt : buf.start < buf.wrap := h.start_lt
  have hle : buf.used ≤ buf.wrap := h.used_le
  have hstart : 0 ≤ buf.start := h.start
  rcases h.layout with ⟨hin, hws⟩ | ⟨front, back, hq, hw⟩
  · have hin : buf.used < buf.wrap - buf.start := hin
    exact .inl ⟨hin, hws, by omega⟩
  · have hge : buf.used ≥ buf.wrap - buf.start := h.wrapped hq hw
    obtain ⟨front, back, rfl, rfl, rfl⟩ := List.map_eq_append_iff.mp hq
    have hw : buf.start + blocks (asPackets front) = buf.wrap := hw
    rw [blocks_asPackets] at hw
    rw [total_append] at hused
    exact .inr ⟨hge, front, back, rfl, hw, by omega⟩

/-- The end of the blocks in use is where the walk along the queue ends. -/
theorem walk_eq (h : Shape (buf.view queue)) : walk buf.wrap buf.start queue = buf.chunkEnd := by
  have hused : buf.used = total queue := h.used.trans (blocks_asPackets queue)
  have hlt : buf.start < buf.wrap := h.start_lt
  rcases layout h with ⟨hin, -, hstraight⟩ | ⟨hge, front, back, rfl, hfront, hback⟩
  · have hend : buf.chunkEnd = buf.start + buf.used := if_neg (not_le.mpr hin)
    rw [walk_straight hstraight, hend, hused]
  · have hend : buf.chunkEnd = buf.used - (buf.wrap - buf.start) := if_pos hge
    rw [total_append] at hused
    rw [walk_turned hlt hfront hback, hend]
    omega

/-- A stored packet lies in the array, and not in the free blocks behind the end. -/
theorem located (h : Shape (buf.view queue)) {x : Int × List UInt8} (hx : x ∈ locate buf.wrap buf.start queue) :
    0 ≤ x.1 ∧ x.1 + cells x.2 ≤ buf.size ∧
      (x.1 + cells x.2 ≤ buf.chunkEnd ∨ buf.chunkEnd + buf.free ≤ x.1) := by
  have hused : buf.used = total queue := h.used.trans (blocks_asPackets queue)
  have hlt : buf.start < buf.wrap := h.start_lt
  have hwrap : buf.wrap ≤ buf.size := h.wrap
  have hstart : 0 ≤ buf.start := h.start
  rcases layout h with ⟨hin, -, hstraight⟩ | ⟨hge, front, back, rfl, hfront, hback⟩
  · have hend : buf.chunkEnd = buf.start + buf.used := if_neg (not_le.mpr hin)
    have := mem_locate_straight hstraight x hx
    omega
  · have hend : buf.chunkEnd = buf.used - (buf.wrap - buf.start) := if_pos hge
    have hfree : buf.free = buf.start - buf.chunkEnd := if_pos hge
    rw [total_append] at hused
    have := mem_locate_turned hlt hfront hback x hx
    omega

/-- What is offered is the free blocks but the first. -/
theorem offered (h : Ok (buf.view queue)) {dest : Int} (hdest : buf.inputDest = some dest) :
    dest = buf.chunkEnd + 1 ∧ buf.inputAvail = (buf.free - 1) * blockSize ∧ 0 < buf.free ∧
      ¬buf.size - buf.chunkEnd - 1 < buf.mtu := by
  have hin : (buf.inputDest, buf.inputAvail) = (buf.view queue).inputOffer := h.input
  unfold inputOffer at hin
  split_ifs at hin with hmtu hfree
  · rw [(Prod.mk.inj hin).1] at hdest
    cases hdest
  · obtain ⟨hd, ha⟩ := Prod.mk.inj hin
    exact ⟨Option.some.inj (hdest.symm.trans hd), ha, hfree, hmtu⟩
  · rw [(Prod.mk.inj hin).1] at hdest
    cases hdest

theorem chunkEnd_nonneg (h : Shape (buf.view queue)) : 0 ≤ buf.chunkEnd := by
  rw [← walk_eq h]
  have hlt : buf.start < buf.wrap := h.start_lt
  have hstart : 0 ≤ buf.start := h.start
  rcases layout h with ⟨-, -, hstraight⟩ | ⟨-, front, back, rfl, hfront, hback⟩
  · have := total_nonneg queue
    rw [walk_straight hstraight]
    omega
  · rw [walk_turned hlt hfront hback]
    exact total_nonneg back

theorem free_le (h : Shape (buf.view queue)) : buf.chunkEnd + buf.free ≤ buf.size := by
  have hlt : buf.start < buf.wrap := h.start_lt
  have hwrap : buf.wrap ≤ buf.size := h.wrap
  unfold free
  split <;> omega

/-! ### Memory -/

theorem readInt_writeInt {m : Memory} {a : Int} {n : Nat} (h : (n : Int) < 2 ^ 31) :
    readInt (writeInt m a n) a = n := by
  have hbyte : ∀ k < 4, writeInt m a n (a + (k : Nat)) = (le32 ⟨BitVec.ofInt 32 n⟩).getD k 0 := by
    intro k hk
    have hoff : (a + (k : Int) - a).toNat = k := by omega
    rw [writeInt, writeBytes, if_pos ⟨by omega, by rw [le32_length]; omega⟩, hoff]
  have h0 := hbyte 0 (by decide)
  have h1 := hbyte 1 (by decide)
  have h2 := hbyte 2 (by decide)
  have h3 := hbyte 3 (by decide)
  rw [Int.natCast_zero, Int.add_zero] at h0
  have hread : readLe32 (writeInt m a n a) (writeInt m a n (a + 1)) (writeInt m a n (a + 2))
      (writeInt m a n (a + 3)) = ⟨BitVec.ofInt 32 n⟩ := by
    rw [h0]
    exact (congr (congr (congrArg _ h1) h2) h3).trans (readLe32_le32 _)
  rw [readInt, hread]
  show (BitVec.ofInt 32 n).toInt = n
  rw [BitVec.toInt_ofInt, Int.bmod_eq_of_le] <;> omega

/-- A packet stays where memory is the same at its blocks. -/
theorem holds_frame {m m' : Memory} {pos : Int} (h : Holds m pos b)
    (hsame : ∀ i, blockAddr pos ≤ i → i < blockAddr (pos + cells b) → m i = m' i) : Holds m' pos b := by
  have hcells : (b.length : Int) ≤ (cells b - 1) * 4 := by
    have := le_bdivideUp b.length
    unfold cells
    unfold blockSize at this ⊢
    omega
  have haddr : blockAddr (pos + cells b) = blockAddr pos + 4 + (cells b - 1) * 4 := by
    unfold blockAddr blockSize
    omega
  have hnext : blockAddr (pos + 1) = blockAddr pos + 4 := by
    unfold blockAddr blockSize
    omega
  constructor
  · rw [← h.len]
    unfold readInt
    rw [hsame _ (by omega) (by omega), hsame (blockAddr pos + 1) (by omega) (by omega),
      hsame (blockAddr pos + 2) (by omega) (by omega), hsame (blockAddr pos + 3) (by omega) (by omega)]
  · rw [← readBytes_congr (m := m)]
    · exact h.bytes
    · intro i hi hi'
      exact hsame i (by omega) (by omega)

/-- What is written into the free blocks leaves the others alone. -/
theorem writes_outside {m : Memory} {e n a i : Int} {data : List UInt8} (ha : blockAddr e ≤ a)
    (hdata : a + data.length ≤ blockAddr (e + n)) (hi : i < blockAddr e ∨ blockAddr (e + n) ≤ i) :
    writeBytes m a data i = m i := by
  rcases hi with hi | hi
  · exact writeBytes_of_lt (by omega)
  · exact writeBytes_of_ge (by omega)

/-- The packet behind the length is stored. -/
theorem holds_submitted {m : Memory} {e : Int} {len : Nat} (hsmall : (len : Int) < 2 ^ 31) :
    Holds (writeInt m (blockAddr e) len) e (readBytes m (blockAddr (e + 1)) len) := by
  have hnext : blockAddr (e + 1) = blockAddr e + 4 := by
    unfold blockAddr blockSize
    omega
  constructor
  · rw [readBytes_length]
    exact readInt_writeInt hsmall
  · rw [readBytes_length, writeInt, readBytes_writeBytes_disjoint (by rw [le32_length]; omega)]

/-! ### A submit -/

theorem place_view (len : Nat) (hb : b.length = len) :
    (buf.place len).view (queue ++ [b]) = (buf.view queue).place ⟨b, ()⟩ := by
  subst hb
  simp only [view, ring, place, ChunkBuffer2.place, asPackets, List.map_append]
  rfl

/-- Where the first packet is stored, the offer to the reader is read from memory. -/
theorem updateOutput_view (buf : ChunkMemory) (h : Shape (buf.view queue)) (hholds : ∀ x ∈ locate buf.wrap buf.start queue,
    Holds buf.buffer x.1 x.2) : buf.updateOutput.view queue = (buf.view queue).updateOutput := by
  have hpos : 0 < buf.used ↔ queue ≠ [] := by
    have := h.used_pos
    rwa [show (buf.view queue).packets ≠ [] ↔ queue ≠ [] by simp [view, ring, asPackets]] at this
  unfold ChunkMemory.updateOutput
  split
  · next hused =>
    obtain ⟨b, rest, rfl⟩ := List.exists_cons_of_ne_nil (hpos.mp hused)
    have hlen : buf.len buf.start = b.length := (hholds (buf.start, b) (List.mem_cons_self ..)).len
    have hoffer : (buf.view (b :: rest)).outputOffer = (some (buf.start + 1), (b.length : Int)) := if_pos hused
    rw [ChunkBuffer2.updateOutput, hoffer, hlen]
    rfl
  · next hused =>
    have hoffer : (buf.view queue).outputOffer = (none, -1) := if_neg hused
    rw [ChunkBuffer2.updateOutput, hoffer]
    rfl

/-- A submitted packet lies at the end of the blocks in use, and the others stay. -/
theorem locate_place (buf : ChunkMemory) (h : Shape (buf.view queue)) {len : Nat} (hb : b.length = len) :
    locate (buf.place len).wrap buf.start (queue ++ [b]) =
      locate buf.wrap buf.start queue ++ [(buf.chunkEnd, b)] := by
  have hnext : blocklen len = cells b - 1 := by
    rw [← hb]
    show ((bdivideUp b.length blockSize : Nat) : Int) = 1 + (bdivideUp b.length blockSize : Nat) - 1
    omega
  have hcells := cells_pos b
  rcases layout h with ⟨hin, -, hstraight⟩ | ⟨hge, front, back, hq, hfront, hback⟩
  · have hend : buf.chunkEnd = buf.start + total queue := by rw [← walk_eq h, walk_straight hstraight]
    have hwrap : buf.start + total queue < (buf.place len).wrap := by
      unfold place
      dsimp only
      split <;> omega
    rw [locate_append, walk_straight hwrap, locate_congr hwrap hstraight, hend]
    rfl
  · have hwrap : (buf.place len).wrap = buf.wrap := by
      unfold place
      dsimp only
      rw [if_neg fun hc => by omega]
    rw [hwrap, locate_append, walk_eq h]
    rfl

theorem submitPacket_memory (buf : ChunkMemory) (len : Int) :
    (buf.submitPacket len).buffer = (buf.place len).buffer ∧ (buf.submitPacket len).wrap = (buf.place len).wrap ∧
      (buf.submitPacket len).start = buf.start ∧ (buf.submitPacket len).size = buf.size := by
  unfold submitPacket updateOutput
  dsimp only
  split
  · split <;> exact ⟨rfl, rfl, rfl, rfl⟩
  · exact ⟨rfl, rfl, rfl, rfl⟩

/-- A stored packet stays when bytes are written into the free blocks. -/
theorem Stored.outside (h : Stored buf queue) {a : Int} {data : List UInt8} (ha : blockAddr buf.chunkEnd ≤ a)
    (hdata : a + data.length ≤ blockAddr (buf.chunkEnd + buf.free)) {x : Int × List UInt8}
    (hx : x ∈ locate buf.wrap buf.start queue) : Holds (writeBytes buf.buffer a data) x.1 x.2 := by
  obtain ⟨-, -, haside⟩ := located h.ok.toShape hx
  refine holds_frame (h.holds x hx) fun i hi hi' => (writes_outside ha hdata ?_).symm
  unfold blockAddr at *
  unfold blockSize at *
  omega

/-- Bytes may be written where the ring offers room. -/
theorem Stored.write (h : Stored buf queue) {dest : Int} (off : Int) (data : List UInt8)
    (hdest : buf.inputDest = some dest) (hoff : 0 ≤ off) (hdata : off + data.length ≤ buf.inputAvail) :
    Stored {buf with buffer := writeBytes buf.buffer (blockAddr dest + off) data} queue := by
  obtain ⟨rfl, havail, hfree, -⟩ := offered h.ok hdest
  rw [havail] at hdata
  refine ⟨h.ok, fun x hx => h.outside ?_ ?_ hx⟩ <;> unfold blockAddr blockSize at * <;> omega

/-- The ring in memory does what the ring of packets does. -/
theorem submitPacket_view (h : Stored buf queue) {dest : Int} (hdest : buf.inputDest = some dest) {len : Nat}
    (hlen : (len : Int) ≤ buf.inputAvail) (hsmall : (len : Int) < 2 ^ 31) :
    (buf.submitPacket len).view (queue ++ [readBytes buf.buffer (blockAddr dest) len]) =
        (buf.view queue).submitPacket ⟨readBytes buf.buffer (blockAddr dest) len, ()⟩ ∧
      ∀ x ∈ locate (buf.place len).wrap (buf.place len).start (queue ++ [readBytes buf.buffer (blockAddr dest) len]),
        Holds (buf.place len).buffer x.1 x.2 := by
  obtain ⟨rfl, havail, hfree, -⟩ := offered h.ok hdest
  have hshape := h.ok.toShape
  have hlength : (readBytes buf.buffer (blockAddr (buf.chunkEnd + 1)) len).length = len := readBytes_length ..
  generalize hp : readBytes buf.buffer (blockAddr (buf.chunkEnd + 1)) len = p at hlength ⊢
  have hdest' : (buf.view queue).inputDest.isSome := by
    rw [show (buf.view queue).inputDest = _ from hdest]
    rfl
  have hfits : (p.length : Int) ≤ (buf.view queue).inputAvail := by
    rw [hlength]
    exact hlen
  have hplace : Shape ((buf.place len).view (queue ++ [p])) := by
    rw [place_view len hlength]
    exact hshape.place (h.ok.room (p := ⟨p, ()⟩) hdest' hfits)
  have hstored : ∀ x ∈ locate (buf.place len).wrap (buf.place len).start (queue ++ [p]),
      Holds (buf.place len).buffer x.1 x.2 := by
    intro x hx
    rw [show (buf.place len).start = buf.start from rfl, locate_place buf hshape hlength] at hx
    rcases List.mem_append.mp hx with hx | hx
    · refine h.outside le_rfl ?_ hx
      rw [le32_length]
      unfold blockAddr blockSize
      omega
    · rw [List.mem_singleton.mp hx, ← hp]
      exact holds_submitted hsmall
  refine ⟨?_, hstored⟩
  have hblock : blockLen (⟨p, ()⟩ : Packet Unit) = blocklen len := by
    unfold blockLen
    dsimp only
    rw [hlength]
    rfl
  unfold submitPacket ChunkBuffer2.submitPacket
  rw [← place_view len hlength, hblock]
  dsimp only
  by_cases hfirst : buf.used + (1 + blocklen len) = 1 + blocklen len
  · have hleft : (buf.place len).updateInput.used = 1 + blocklen len := hfirst
    have hright : ((buf.place len).view (queue ++ [p])).updateInput.used = 1 + blocklen len := hfirst
    rw [if_pos hleft, if_pos hright]
    exact updateOutput_view (buf.place len).updateInput {hplace with} hstored
  · have hleft : ¬(buf.place len).updateInput.used = 1 + blocklen len := hfirst
    have hright : ¬((buf.place len).view (queue ++ [p])).updateInput.used = 1 + blocklen len := hfirst
    rw [if_neg hleft, if_neg hright]
    rfl

/-- **A submit adds the packet at `input_dest` to the queue.** -/
theorem Stored.submit (h : Stored buf queue) {dest : Int} (len : Nat) (hdest : buf.inputDest = some dest)
    (hlen : (len : Int) ≤ buf.inputAvail) (hsmall : (len : Int) < 2 ^ 31) :
    Stored (buf.submitPacket len) (queue ++ [readBytes buf.buffer (blockAddr dest) len]) := by
  obtain ⟨hview, hstored⟩ := submitPacket_view h hdest hlen hsmall
  obtain ⟨hbuffer, hwrap, hstart, -⟩ := submitPacket_memory buf len
  constructor
  · rw [hview]
    refine h.ok.submit ?_ ?_
    · rw [show (buf.view queue).inputDest = _ from hdest]
      rfl
    · rw [readBytes_length]
      exact hlen
  · rw [hbuffer, hwrap, hstart]
    exact hstored

/-- **A submit adds the packet to the queue.** -/
theorem Stored.submitWritten (h : Stored buf queue) (hsmall : (buf.size - 1) * blockSize < 2 ^ 31) {dest : Int}
    (hdest : buf.inputDest = some dest) {written : List UInt8} (hwritten : (written.length : Int) ≤ buf.inputAvail)
    {len : Nat} (hlen : len ≤ written.length) :
    Stored ({buf with buffer := writeBytes buf.buffer (blockAddr dest) written}.submitPacket len)
      (queue ++ [written.take len]) := by
  have hint : (len : Int) < 2 ^ 31 := by
    obtain ⟨-, havail, -⟩ := offered h.ok hdest
    have := free_le h.ok.toShape
    have := chunkEnd_nonneg h.ok.toShape
    unfold blockSize at *
    omega
  have hfilled := h.write 0 written hdest le_rfl (by omega)
  rw [Int.add_zero] at hfilled
  have hstored := hfilled.submit len hdest (by dsimp only; omega) hint
  rw [readBytes_writeBytes_take _ _ hlen] at hstored
  exact hstored

/-! ### A consume -/

theorem dropFirst_view (h : Holds buf.buffer buf.start b) :
    buf.dropFirst.view queue = (buf.view (b :: queue)).dropFirst := by
  have hlen : blocklen (buf.len buf.start) = (bdivideUp (buf.view (b :: queue)).firstLen blockSize : Nat) := by
    rw [show buf.len buf.start = b.length from h.len]
    rfl
  unfold dropFirst ChunkBuffer2.dropFirst
  rw [hlen]
  dsimp only
  by_cases hturn : buf.start + (1 + (bdivideUp (buf.view (b :: queue)).firstLen blockSize : Int)) = buf.wrap
  · have hright : (buf.view (b :: queue)).start + (1 + (bdivideUp (buf.view (b :: queue)).firstLen blockSize : Int)) =
        (buf.view (b :: queue)).wrap := hturn
    rw [if_pos hturn, if_pos hright]
    rfl
  · have hright : ¬(buf.view (b :: queue)).start + (1 + (bdivideUp (buf.view (b :: queue)).firstLen blockSize : Int)) =
        (buf.view (b :: queue)).wrap := hturn
    rw [if_neg hturn, if_neg hright]
    rfl

/-- The other packets stay where they are. -/
theorem locate_dropFirst (h : Shape (buf.view (b :: queue))) (hholds : Holds buf.buffer buf.start b) :
    locate buf.dropFirst.wrap buf.dropFirst.start queue =
      locate buf.wrap (turn buf.wrap (buf.start + cells b)) queue := by
  have hlen : 1 + blocklen (buf.len buf.start) = cells b := by
    rw [show buf.len buf.start = b.length from hholds.len]
    rfl
  have hcells := cells_pos b
  have hused : buf.used = total (b :: queue) := h.used.trans (blocks_asPackets _)
  have hle : buf.used ≤ buf.wrap := h.used_le
  have hwrap : buf.wrap ≤ buf.size := h.wrap
  rw [total_cons] at hused
  unfold dropFirst
  dsimp only
  rw [hlen]
  by_cases hturn : buf.start + cells b = buf.wrap
  · rw [if_pos hturn, turn, if_pos hturn]
    have hmoved : locate buf.size 0 queue = locate buf.wrap 0 queue := locate_congr (by omega) (by omega)
    exact hmoved
  · rw [if_neg hturn, turn_of_ne hturn]

theorem dropFirst_memory (buf : ChunkMemory) : buf.dropFirst.buffer = buf.buffer ∧ buf.dropFirst.size = buf.size := by
  unfold dropFirst
  dsimp only
  split <;> exact ⟨rfl, rfl⟩

theorem updateOutput_memory (buf : ChunkMemory) : buf.updateOutput.buffer = buf.buffer ∧
    buf.updateOutput.wrap = buf.wrap ∧ buf.updateOutput.start = buf.start ∧ buf.updateOutput.size = buf.size := by
  unfold updateOutput
  split <;> exact ⟨rfl, rfl, rfl, rfl⟩

theorem consumePacket_memory (buf : ChunkMemory) : buf.consumePacket.buffer = buf.dropFirst.buffer ∧
    buf.consumePacket.wrap = buf.dropFirst.wrap ∧ buf.consumePacket.start = buf.dropFirst.start ∧
    buf.consumePacket.size = buf.dropFirst.size := by
  unfold consumePacket
  split
  · exact updateOutput_memory buf.dropFirst.updateInput
  · exact updateOutput_memory buf.dropFirst

/-- The ring in memory does what the ring of packets does. -/
theorem consumePacket_view (h : Stored buf (b :: queue)) :
    buf.consumePacket.view queue = (buf.view (b :: queue)).consumePacket ∧
      ∀ x ∈ locate buf.dropFirst.wrap buf.dropFirst.start queue, Holds buf.dropFirst.buffer x.1 x.2 := by
  have hfirst : Holds buf.buffer buf.start b := h.holds (buf.start, b) (List.mem_cons_self ..)
  have hshape : Shape (buf.dropFirst.view queue) := by
    rw [dropFirst_view hfirst]
    exact h.ok.toShape.dropFirst (List.cons_ne_nil _ _)
  have hstored : ∀ x ∈ locate buf.dropFirst.wrap buf.dropFirst.start queue, Holds buf.dropFirst.buffer x.1 x.2 := by
    intro x hx
    rw [locate_dropFirst h.ok.toShape hfirst] at hx
    rw [(dropFirst_memory buf).1]
    exact h.holds x (List.mem_cons_of_mem _ hx)
  refine ⟨?_, hstored⟩
  unfold consumePacket ChunkBuffer2.consumePacket
  rw [← dropFirst_view hfirst]
  by_cases hturned : buf.used ≥ buf.wrap - buf.start
  · have hright : (buf.view (b :: queue)).used ≥ (buf.view (b :: queue)).wrap - (buf.view (b :: queue)).start := hturned
    rw [if_pos hturned, if_pos hright]
    exact updateOutput_view buf.dropFirst.updateInput {hshape with} hstored
  · have hright : ¬(buf.view (b :: queue)).used ≥ (buf.view (b :: queue)).wrap - (buf.view (b :: queue)).start := hturned
    rw [if_neg hturned, if_neg hright]
    exact updateOutput_view buf.dropFirst hshape hstored

/-- **A consume takes the oldest packet off the queue.** -/
theorem Stored.consume (h : Stored buf (b :: queue)) : Stored buf.consumePacket queue := by
  obtain ⟨hview, hstored⟩ := consumePacket_view h
  obtain ⟨hbuffer, hwrap, hstart, -⟩ := consumePacket_memory buf
  constructor
  · rw [hview]
    exact h.ok.consume (List.cons_ne_nil _ _)
  · rw [hbuffer, hwrap, hstart]
    exact hstored

/-! ### Runs -/

theorem sim_init (buffer : Memory) {blocks : Nat} (hblocks : 0 < blocks) (hsmall : (blocks : Int) * blockSize < 2 ^ 31)
    (mtu : Nat) : Sim (init buffer blocks mtu) [] where
  ok := ok_init (n := blocks) (by omega) mtu
  holds := nofun
  small := hsmall

/-- There is an offer to the reader while a packet is stored. -/
theorem Stored.outputDest_isSome (h : Stored buf queue) : buf.outputDest.isSome ↔ queue ≠ [] := by
  have hpos := h.ok.used_pos
  rw [show (buf.view queue).packets ≠ [] ↔ queue ≠ [] by simp [view, ring, asPackets]] at hpos
  have hout : (buf.outputDest, buf.outputAvail) = (buf.view queue).outputOffer := h.ok.output
  rw [outputOffer] at hout
  split_ifs at hout with hused
  · rw [(Prod.mk.inj hout).1]
    exact ⟨fun _ => hpos.mp hused, fun _ => rfl⟩
  · rw [(Prod.mk.inj hout).1]
    exact ⟨by rintro ⟨⟩, fun hne => absurd (hpos.mpr hne) hused⟩

theorem chunkStep_size {e : ChunkEvent} {buf' : ChunkMemory} (he : chunkStep buf e = some buf') :
    buf'.size = buf.size := by
  cases e with
  | submit written len =>
    simp only [chunkStep] at he
    split at he
    · cases he
    · obtain ⟨-, he⟩ := Option.ite_none_right_eq_some.mp he
      cases he
      exact (submitPacket_memory _ len).2.2.2
  | consume =>
    obtain ⟨-, he⟩ := Option.ite_none_right_eq_some.mp he
    cases he
    rw [(consumePacket_memory buf).2.2.2, (dropFirst_memory buf).2]

/-- **Every call refines its step on the queue.** -/
theorem Stored.step (h : Stored buf queue) (hsmall : (buf.size - 1) * blockSize < 2 ^ 31) {e : ChunkEvent}
    {buf' : ChunkMemory} (he : chunkStep buf e = some buf') : Stored buf' (fifoStep queue e) := by
  cases e with
  | submit written len =>
    simp only [chunkStep] at he
    split at he
    · cases he
    · next dest hdest =>
      obtain ⟨⟨hwritten, hlen⟩, he⟩ := Option.ite_none_right_eq_some.mp he
      cases he
      exact h.submitWritten hsmall hdest hwritten hlen
  | consume =>
    obtain ⟨hdest, he⟩ := Option.ite_none_right_eq_some.mp he
    cases he
    obtain ⟨b, rest, rfl⟩ := List.exists_cons_of_ne_nil (h.outputDest_isSome.mp hdest)
    exact h.consume

theorem Sim.step (h : Sim buf queue) {e : ChunkEvent} {buf' : ChunkMemory} (he : chunkStep buf e = some buf') :
    Sim buf' (fifoStep queue e) := by
  have hsmall := h.small
  have hstored := h.stored.step (by unfold blockSize at *; omega) he
  refine ⟨hstored.ok, hstored.holds, ?_⟩
  rw [chunkStep_size he]
  exact hsmall

theorem Sim.run {es : List ChunkEvent} {buf' : ChunkMemory} (h : Sim buf queue)
    (hrun : Run.run chunkStep buf es = some buf') : Sim buf' (es.foldl fifoStep queue) := by
  induction es generalizing buf queue with
  | nil =>
    cases hrun
    exact h
  | cons e rest ih =>
    obtain ⟨buf₁, he, hrest⟩ := Run.run_cons hrun
    exact ih (h.step he) hrest

theorem Stored.assertBuffer (h : Stored buf queue) : AssertBuffer buf := by
  have hshape := h.ok.toShape
  have hused : buf.used = total queue := hshape.used.trans (blocks_asPackets queue)
  have hnonneg := total_nonneg queue
  have hstart : 0 ≤ buf.start := hshape.start
  have hlt : buf.start < buf.wrap := hshape.start_lt
  have hwrap : buf.wrap ≤ buf.size := hshape.wrap
  refine ⟨by omega, by omega, hwrap, hstart, hlt, by omega, hshape.used_le, ?_, hshape.mtu⟩
  rcases layout hshape with ⟨-, hsize, -⟩ | ⟨hge, -⟩
  · exact .inl hsize
  · exact .inr hge

/-- What the reader is offered is the oldest packet. -/
theorem Stored.head (h : Stored buf (b :: queue)) : buf.used > 0 ∧ buf.len buf.start = b.length ∧
    buf.outputDest = some (buf.start + 1) ∧ buf.outputAvail = b.length := by
  have hlen : buf.len buf.start = b.length := (h.holds (buf.start, b) (List.mem_cons_self ..)).len
  have hused : (buf.view (b :: queue)).used > 0 := h.ok.used_pos.mpr (List.cons_ne_nil _ _)
  have hout : (buf.outputDest, buf.outputAvail) = (buf.view (b :: queue)).outputOffer := h.ok.output
  rw [outputOffer, if_pos hused] at hout
  obtain ⟨hdest, havail⟩ := Prod.mk.inj hout
  exact ⟨hused, hlen, hdest, havail⟩

/-- The first packet ends before `wrap`. -/
theorem Stored.head_cells (h : Stored buf (b :: queue)) : cells b ≤ buf.used ∧ cells b ≤ buf.wrap - buf.start := by
  have hshape := h.ok.toShape
  have hused : buf.used = total (b :: queue) := hshape.used.trans (blocks_asPackets _)
  have hlt : buf.start < buf.wrap := hshape.start_lt
  have hrest := total_nonneg queue
  rw [total_cons] at hused
  refine ⟨by omega, ?_⟩
  rcases layout hshape with ⟨hin, -⟩ | ⟨-, front, back, hq, hfront, -⟩
  · omega
  · cases front with
    | nil =>
      rw [total_nil] at hfront
      omega
    | cons c front =>
      obtain ⟨rfl, -⟩ := List.cons.inj hq
      have := total_nonneg front
      rw [total_cons] at hfront
      omega

theorem Stored.no_output (h : Stored buf []) : ¬buf.used > 0 ∧ buf.outputDest = none ∧ buf.outputAvail = -1 := by
  have hused : ¬(buf.view []).used > 0 := fun hpos => h.ok.used_pos.mp hpos rfl
  have hout : (buf.outputDest, buf.outputAvail) = (buf.view []).outputOffer := h.ok.output
  rw [outputOffer, if_neg hused] at hout
  exact ⟨hused, Prod.mk.inj hout⟩

theorem Stored.assertIo (h : Stored buf queue) : AssertIo buf := by
  have hin : (buf.inputDest, buf.inputAvail) = (buf.view queue).inputOffer := h.ok.input
  unfold inputOffer at hin
  have houtput : buf.used > 0 → buf.len buf.start ≥ 0 ∧ blocklen (buf.len buf.start) ≤ buf.used - 1 ∧
      blocklen (buf.len buf.start) ≤ buf.wrap - buf.start - 1 ∧ buf.outputDest = some (buf.start + 1) ∧
      buf.outputAvail = buf.len buf.start := by
    intro hused
    cases queue with
    | nil => exact absurd hused h.no_output.1
    | cons b queue =>
      obtain ⟨-, hlen, hdest, havail⟩ := h.head
      obtain ⟨hcells, hwrap⟩ := h.head_cells
      have hblocks : 1 + blocklen (b.length : Int) = cells b := rfl
      rw [hlen]
      exact ⟨by omega, by omega, by omega, hdest, havail⟩
  have hnoOutput : ¬buf.used > 0 → buf.outputDest = none ∧ buf.outputAvail = -1 := by
    intro hused
    cases queue with
    | nil => exact h.no_output.2
    | cons b queue => exact absurd h.head.1 hused
  refine ⟨fun hmtu => ?_, fun hmtu hfree => ?_, fun hmtu hfree => ?_, houtput, hnoOutput⟩
  · rw [if_pos (show (buf.view queue).size - (buf.view queue).chunkEnd - 1 < (buf.view queue).mtu from hmtu)] at hin
    exact Prod.mk.inj hin
  · rw [if_neg (show ¬(buf.view queue).size - (buf.view queue).chunkEnd - 1 < (buf.view queue).mtu from hmtu),
      if_pos (show (buf.view queue).freeBlocks > 0 from hfree)] at hin
    exact Prod.mk.inj hin
  · rw [if_neg (show ¬(buf.view queue).size - (buf.view queue).chunkEnd - 1 < (buf.view queue).mtu from hmtu),
      if_neg (show ¬(buf.view queue).freeBlocks > 0 from hfree)] at hin
    exact Prod.mk.inj hin

end ChunkMemory

/-- What the ring shows to its user, for the queue it stands for. -/
structure Shows (buf : ChunkMemory) (queue : List (List UInt8)) : Prop where
  /-- The reader is offered the bytes of the oldest packet, or nothing. -/
  output : match queue with
    | [] => buf.outputDest = none ∧ buf.outputAvail = -1
    | b :: _ => ∃ dest, buf.outputDest = some dest ∧ buf.outputAvail = b.length ∧
      readBytes buf.buffer (blockAddr dest) b.length = b
  /-- The offer to the writer, with the block for the length before it, lies in the buffer
  and apart from every stored packet. -/
  input : ∀ dest, buf.inputDest = some dest → 0 ≤ blockAddr (dest - 1) ∧ 0 ≤ buf.inputAvail ∧
    blockAddr dest + buf.inputAvail ≤ blockAddr buf.size ∧
    ∀ x ∈ locate buf.wrap buf.start queue,
      blockAddr (x.1 + cells x.2) ≤ blockAddr (dest - 1) ∨ blockAddr dest + buf.inputAvail ≤ blockAddr x.1
  /-- Every stored packet is where it lies. -/
  stored : ∀ x ∈ locate buf.wrap buf.start queue, Holds buf.buffer x.1 x.2
  assertBuffer : buf.AssertBuffer
  assertIo : buf.AssertIo

theorem ChunkMemory.Sim.shows {buf : ChunkMemory} {queue : List (List UInt8)} (h : Sim buf queue) : Shows buf queue where
  output := by
    cases queue with
    | nil => exact h.stored.no_output.2
    | cons b queue =>
      obtain ⟨-, -, hdest, havail⟩ := h.stored.head
      exact ⟨buf.start + 1, hdest, havail, (h.holds (buf.start, b) (List.mem_cons_self ..)).bytes⟩
  input := by
    intro dest hdest
    obtain ⟨rfl, havail, hfree, -⟩ := offered h.ok hdest
    have hshape := h.ok.toShape
    have hend := chunkEnd_nonneg hshape
    have hsize := free_le hshape
    rw [havail]
    refine ⟨?_, ?_, ?_, fun x hx => ?_⟩
    · unfold blockAddr blockSize
      omega
    · unfold blockSize
      omega
    · unfold blockAddr blockSize
      omega
    · have := (located hshape hx).2.2
      unfold blockAddr blockSize
      omega
  stored := h.holds
  assertBuffer := h.stored.assertBuffer
  assertIo := h.stored.assertIo

/-- **After every sequence of calls the ring shows the queue of the packets that were
submitted and not yet consumed, and the assertions hold.** -/
theorem chunkBuffer2_fifo (buffer : Memory) (blocks mtu : Nat) (hblocks : 0 < blocks)
    (hsmall : (blocks : Int) * blockSize < 2 ^ 31) (es : List ChunkEvent) (buf : ChunkMemory)
    (hrun : Run.run chunkStep (ChunkMemory.init buffer blocks mtu) es = some buf) :
    Shows buf (es.foldl fifoStep []) :=
  ((ChunkMemory.sim_init buffer hblocks hsmall mtu).run hrun).shows

def turningCalls : List ChunkEvent :=
  [.submit [1, 2, 3] 3, .submit [4, 5, 6, 7] 4, .consume, .submit [8, 9] 1]

theorem chunkBuffer2_fifo_turning :
    ∃ buf, Run.run chunkStep (ChunkMemory.init (fun _ => 0) 4 4) turningCalls = some buf ∧
      Shows buf [[4, 5, 6, 7], [8]] := by
  obtain ⟨buf, hrun⟩ : ∃ buf, Run.run chunkStep (ChunkMemory.init (fun _ => 0) 4 4) turningCalls = some buf :=
    Option.isSome_iff_exists.mp (by decide +kernel)
  exact ⟨buf, hrun, chunkBuffer2_fifo (fun _ => 0) 4 4 (by decide) (by decide) turningCalls buf hrun⟩

end TwilightLine.ChunkBuffer2
