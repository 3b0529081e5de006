import Mathlib.Algebra.BigOperators.Group.List.Basic
import Mathlib.Data.Int.Order.Basic
import Mathlib.Tactic.Linarith

/-! The packet ring of `structure/ChunkBuffer2.h`.

The ring is an array of blocks. A packet takes one block for its length and as many
as its bytes need, and never straddles the end of the array: `wrap` is where the
blocks in use turn back to the first one. The indices are computed as the source
computes them; what the blocks hold is kept as the list of stored packets, oldest
first, so that the `len` of the block at `start` is the length of the first packet.

`Ok` says how indices and packets agree. A submit or a consume keeps it, and what the
ring offers to a writer never shrinks by a consume (`consumePacket_inputAvail`). -/
namespace TwilightLine

/-- `bdivide_up`. -/
def bdivideUp (a b : Nat) : Nat :=
  let r := a % b
  if r > 0 then a / b + 1 else a / b

/-- The bytes of a packet, and what the model remembers about where they come from. -/
structure Packet (ν : Type*) where
  bytes : List UInt8
  note : ν
  deriving DecidableEq, Repr

/-- `ChunkBuffer2`. A destination is the index of a block. -/
structure ChunkBuffer2 (ν : Type*) where
  size : Int
  wrap : Int
  start : Int
  used : Int
  mtu : Int
  inputDest : Option Int
  inputAvail : Int
  outputDest : Option Int
  outputAvail : Int
  packets : List (Packet ν)

namespace ChunkBuffer2
variable {ν : Type*}

/-- `sizeof(struct ChunkBuffer2_block)`. -/
def blockSize : Nat := 4

def intMax : Int := 2 ^ 31 - 1

/-- `ChunkBuffer2_calc_blocks`. -/
def calcBlocks (chunkLen num : Nat) : Int :=
  let chunkDataBlocks := bdivideUp chunkLen blockSize
  if (chunkDataBlocks : Int) > intMax - 1 then -1
  else
    let chunkBlocks : Int := 1 + chunkDataBlocks
    if (num : Int) > intMax - 1 then -1
    else
      let numChunks : Int := num + 1
      if chunkBlocks > intMax / numChunks then -1 else chunkBlocks * numChunks

/-- `_ChunkBuffer2_end`. -/
def chunkEnd (buf : ChunkBuffer2 ν) : Int :=
  if buf.used ≥ buf.wrap - buf.start then buf.used - (buf.wrap - buf.start) else buf.start + buf.used

/-- `free`, in the update of the input. -/
def freeBlocks (buf : ChunkBuffer2 ν) : Int :=
  if buf.used ≥ buf.wrap - buf.start then buf.start - buf.chunkEnd else buf.size - buf.chunkEnd

/-- `input_dest` and `input_avail` as `_ChunkBuffer2_update_input` sets them. -/
def inputOffer (buf : ChunkBuffer2 ν) : Option Int × Int :=
  if buf.size - buf.chunkEnd - 1 < buf.mtu then (none, -1)
  else if buf.freeBlocks > 0 then (some (buf.chunkEnd + 1), (buf.freeBlocks - 1) * blockSize)
  else (none, -1)

/-- `_ChunkBuffer2_update_input`. -/
def updateInput (buf : ChunkBuffer2 ν) : ChunkBuffer2 ν :=
  {buf with inputDest := buf.inputOffer.1, inputAvail := buf.inputOffer.2}

/-- The `len` of the block at `start`. -/
def firstLen (buf : ChunkBuffer2 ν) : Nat :=
  match buf.packets with
  | [] => 0
  | p :: _ => p.bytes.length

/-- `output_dest` and `output_avail` as `_ChunkBuffer2_update_output` sets them. -/
def outputOffer (buf : ChunkBuffer2 ν) : Option Int × Int :=
  if buf.used > 0 then (some (buf.start + 1), buf.firstLen) else (none, -1)

/-- `_ChunkBuffer2_update_output`. -/
def updateOutput (buf : ChunkBuffer2 ν) : ChunkBuffer2 ν :=
  {buf with outputDest := buf.outputOffer.1, outputAvail := buf.outputOffer.2}

/-- `ChunkBuffer2_Init`. -/
def init (blocks : Int) (mtu : Nat) : ChunkBuffer2 ν :=
  updateOutput (updateInput
    { size := blocks, wrap := blocks, start := 0, used := 0, mtu := bdivideUp mtu blockSize,
      inputDest := none, inputAvail := -1, outputDest := none, outputAvail := -1, packets := [] })

/-- `blocklen` of a packet. -/
def blockLen (p : Packet ν) : Int := bdivideUp p.bytes.length blockSize

/-- The packet written at `input_dest` joins the stored ones. Where no packet of the
largest size would fit behind it, the next one goes to the start of the array. -/
def place (buf : ChunkBuffer2 ν) (p : Packet ν) : ChunkBuffer2 ν :=
  let used := buf.used + (1 + blockLen p)
  let next := buf.chunkEnd + 1 + blockLen p
  {buf with
    used := used
    wrap := if used ≤ buf.wrap - buf.start ∧ buf.mtu > buf.size - next - 1 then next else buf.wrap
    packets := buf.packets ++ [p]}

/-- `ChunkBuffer2_SubmitPacket`. -/
def submitPacket (buf : ChunkBuffer2 ν) (p : Packet ν) : ChunkBuffer2 ν :=
  let buf := (buf.place p).updateInput
  if buf.used = 1 + blockLen p then buf.updateOutput else buf

/-- The first packet leaves; after the last packet before `wrap` the array is free to
its end again. -/
def dropFirst (buf : ChunkBuffer2 ν) : ChunkBuffer2 ν :=
  let blocklen : Int := bdivideUp buf.firstLen blockSize
  let start := buf.start + (1 + blocklen)
  let buf := {buf with used := buf.used - (1 + blocklen), packets := buf.packets.tail}
  if start = buf.wrap then {buf with start := 0, wrap := buf.size} else {buf with start := start}

/-- `ChunkBuffer2_ConsumePacket`. -/
def consumePacket (buf : ChunkBuffer2 ν) : ChunkBuffer2 ν :=
  (if buf.used ≥ buf.wrap - buf.start then buf.dropFirst.updateInput else buf.dropFirst).updateOutput

@[simp] theorem init_packets (blocks : Int) (mtu : Nat) : (init blocks mtu : ChunkBuffer2 ν).packets = [] := rfl

@[simp] theorem submitPacket_packets (buf : ChunkBuffer2 ν) (p : Packet ν) :
    (buf.submitPacket p).packets = buf.packets ++ [p] := by
  unfold submitPacket
  dsimp only
  split <;> rfl

@[simp] theorem dropFirst_packets (buf : ChunkBuffer2 ν) : buf.dropFirst.packets = buf.packets.tail := by
  unfold dropFirst
  dsimp only
  split <;> rfl

@[simp] theorem consumePacket_packets (buf : ChunkBuffer2 ν) :
    buf.consumePacket.packets = buf.packets.tail := by
  rw [← dropFirst_packets]
  unfold consumePacket
  split <;> rfl

/-! ### The invariant -/

/-- The blocks that packets take. -/
def blocks (ps : List (Packet ν)) : Int := (ps.map fun p => 1 + blockLen p).sum

@[simp] theorem blocks_nil : blocks ([] : List (Packet ν)) = 0 := rfl

@[simp] theorem blocks_cons (p : Packet ν) (ps : List (Packet ν)) :
    blocks (p :: ps) = (1 + blockLen p) + blocks ps := by simp [blocks]

@[simp] theorem blocks_append (ps qs : List (Packet ν)) : blocks (ps ++ qs) = blocks ps + blocks qs := by
  simp [blocks]

theorem blockLen_nonneg (p : Packet ν) : 0 ≤ blockLen p := Int.natCast_nonneg _

theorem blocks_nonneg (ps : List (Packet ν)) : 0 ≤ blocks ps := by
  induction ps with
  | nil => simp
  | cons p ps ih =>
    rw [blocks_cons]
    have := blockLen_nonneg p
    omega

/-- The indices and the packets agree. Either the blocks in use end before the end of
the array, or the first packets fill them up to `wrap` exactly. -/
structure Shape (buf : ChunkBuffer2 ν) : Prop where
  mtu : 0 ≤ buf.mtu
  wrap : buf.wrap ≤ buf.size
  start : 0 ≤ buf.start
  start_lt : buf.start < buf.wrap
  used : buf.used = blocks buf.packets
  used_le : buf.used ≤ buf.wrap
  layout : (buf.used < buf.wrap - buf.start ∧ buf.wrap = buf.size) ∨
    ∃ front back, buf.packets = front ++ back ∧ buf.start + blocks front = buf.wrap

/-- What is offered to the writer and to the reader is up to date as well. -/
structure Ok (buf : ChunkBuffer2 ν) : Prop extends Shape buf where
  input : (buf.inputDest, buf.inputAvail) = buf.inputOffer
  output : (buf.outputDest, buf.outputAvail) = buf.outputOffer

theorem ok_init {n : Int} (hn : 0 < n) (mtu : Nat) : Ok (init n mtu : ChunkBuffer2 ν) where
  mtu := Int.natCast_nonneg _
  wrap := le_refl n
  start := le_refl 0
  start_lt := hn
  used := rfl
  used_le := hn.le
  layout := .inl ⟨by simpa [init, updateInput, updateOutput] using hn, rfl⟩
  input := rfl
  output := rfl

/-- In the second case of the layout the blocks in use reach `wrap`. -/
theorem Shape.wrapped {buf : ChunkBuffer2 ν} (h : Shape buf) {front back : List (Packet ν)}
    (hp : buf.packets = front ++ back) (hw : buf.start + blocks front = buf.wrap) :
    buf.used ≥ buf.wrap - buf.start := by
  have hu := h.used
  rw [hp, blocks_append] at hu
  have := blocks_nonneg back
  omega

/-- What is offered to a writer lies in one piece behind the blocks in use. -/
theorem Ok.room {buf : ChunkBuffer2 ν} (h : Ok buf) {p : Packet ν} (hdest : buf.inputDest.isSome)
    (hlen : (p.bytes.length : Int) ≤ buf.inputAvail) : 1 + blockLen p ≤ buf.freeBlocks := by
  have hin := h.input
  unfold inputOffer at hin
  split_ifs at hin
  · rw [(Prod.mk.inj hin).1] at hdest
    cases hdest
  · rw [(Prod.mk.inj hin).2] at hlen
    unfold blockLen bdivideUp blockSize
    unfold blockSize at hlen
    dsimp only
    split <;> omega
  · rw [(Prod.mk.inj hin).1] at hdest
    cases hdest

theorem Shape.place {buf : ChunkBuffer2 ν} (h : Shape buf) {p : Packet ν}
    (hroom : 1 + blockLen p ≤ buf.freeBlocks) : Shape (buf.place p) := by
  obtain ⟨hmtu, hwrap, hstart, hlt, hused, hle, hlay⟩ := h
  have hlen := blockLen_nonneg p
  have hsum := blocks_nonneg buf.packets
  have hblocks : buf.used + (1 + blockLen p) = blocks (buf.packets ++ [p]) := by simp [hused]
  rcases hlay with ⟨hin, hws⟩ | ⟨front, back, hp, hw⟩
  · -- The packet goes behind the others; the next one may have to go to the start.
    have hend : buf.chunkEnd = buf.start + buf.used := if_neg (by omega)
    have hfree : buf.freeBlocks = buf.size - buf.chunkEnd := if_neg (by omega)
    rw [hfree] at hroom
    unfold ChunkBuffer2.place
    dsimp only
    by_cases hlast : buf.mtu > buf.size - (buf.chunkEnd + 1 + blockLen p) - 1
    · rw [if_pos ⟨by omega, hlast⟩]
      refine ⟨hmtu, ?_, hstart, ?_, hblocks, ?_, .inr ⟨_, [], (List.append_nil _).symm, ?_⟩⟩
      · show buf.chunkEnd + 1 + blockLen p ≤ buf.size
        omega
      · show buf.start < buf.chunkEnd + 1 + blockLen p
        omega
      · show buf.used + (1 + blockLen p) ≤ buf.chunkEnd + 1 + blockLen p
        omega
      · show buf.start + blocks (buf.packets ++ [p]) = buf.chunkEnd + 1 + blockLen p
        omega
    · rw [if_neg fun hc => hlast hc.2]
      refine ⟨hmtu, hwrap, hstart, hlt, hblocks, ?_, .inl ⟨?_, hws⟩⟩
      · show buf.used + (1 + blockLen p) ≤ buf.wrap
        omega
      · show buf.used + (1 + blockLen p) < buf.wrap - buf.start
        omega
  · -- The packets already turned back: this one goes below `start`.
    have hge := Shape.wrapped ⟨hmtu, hwrap, hstart, hlt, hused, hle, .inr ⟨front, back, hp, hw⟩⟩ hp hw
    have hend : buf.chunkEnd = buf.used - (buf.wrap - buf.start) := if_pos hge
    have hfree : buf.freeBlocks = buf.start - buf.chunkEnd := if_pos hge
    rw [hfree] at hroom
    unfold ChunkBuffer2.place
    dsimp only
    rw [if_neg fun hc => by omega]
    refine ⟨hmtu, hwrap, hstart, hlt, hblocks, ?_, .inr ⟨front, back ++ [p], ?_, hw⟩⟩
    · show buf.used + (1 + blockLen p) ≤ buf.wrap
      omega
    · show buf.packets ++ [p] = front ++ (back ++ [p])
      rw [hp, List.append_assoc]

theorem Shape.used_pos {buf : ChunkBuffer2 ν} (h : Shape buf) : 0 < buf.used ↔ buf.packets ≠ [] := by
  rw [h.used]
  cases buf.packets with
  | nil => simp
  | cons p ps =>
    have := blockLen_nonneg p
    have := blocks_nonneg ps
    simp only [blocks_cons, ne_eq, reduceCtorEq, not_false_eq_true, iff_true]
    omega

theorem place_firstLen {buf : ChunkBuffer2 ν} (p : Packet ν) (h : buf.packets ≠ []) :
    (buf.place p).firstLen = buf.firstLen := by
  simp only [firstLen, place]
  cases hp : buf.packets with
  | nil => exact absurd hp h
  | cons q qs => rfl

/-- **A submit of a packet that fits what is offered keeps the invariant.** -/
theorem Ok.submit {buf : ChunkBuffer2 ν} (h : Ok buf) {p : Packet ν} (hdest : buf.inputDest.isSome)
    (hlen : (p.bytes.length : Int) ≤ buf.inputAvail) : Ok (buf.submitPacket p) := by
  have hshape := h.toShape.place (h.room hdest hlen)
  unfold submitPacket
  dsimp only
  split
  · exact ⟨{hshape with}, rfl, rfl⟩
  · next hmore =>
    refine ⟨{hshape with}, rfl, ?_⟩
    -- Behind an older packet, what the reader is offered stays.
    have hne : buf.packets ≠ [] := by
      intro hnil
      apply hmore
      show buf.used + (1 + blockLen p) = 1 + blockLen p
      rw [h.used, hnil, blocks_nil, Int.zero_add]
    have hpos : 0 < (buf.place p).used := hshape.used_pos.mpr (by simp [ChunkBuffer2.place])
    have hout := h.output
    rw [outputOffer, if_pos (h.used_pos.mpr hne), ← place_firstLen p hne] at hout
    exact hout.trans (if_pos hpos).symm

theorem Shape.dropFirst {buf : ChunkBuffer2 ν} (h : Shape buf) (hne : buf.packets ≠ []) :
    Shape buf.dropFirst := by
  obtain ⟨hmtu, hwrap, hstart, hlt, hused, hle, hlay⟩ := h
  obtain ⟨p, ps, hp⟩ := List.exists_cons_of_ne_nil hne
  have hfirst : (bdivideUp buf.firstLen blockSize : Int) = blockLen p := by simp [firstLen, hp, blockLen]
  have hlen := blockLen_nonneg p
  have hrest := blocks_nonneg ps
  have hblocks : buf.used = (1 + blockLen p) + blocks ps := by rw [hused, hp, blocks_cons]
  unfold ChunkBuffer2.dropFirst
  dsimp only
  rw [hfirst, hp, List.tail_cons]
  rcases hlay with ⟨hin, hws⟩ | ⟨front, back, hfb, hw⟩
  · rw [if_neg (by omega)]
    refine ⟨hmtu, hwrap, ?_, ?_, ?_, ?_, .inl ⟨?_, hws⟩⟩ <;> dsimp only <;> omega
  · cases front with
    | nil =>
      rw [blocks_nil] at hw
      omega
    | cons q front =>
      obtain ⟨rfl, rfl⟩ : p = q ∧ ps = front ++ back := by
        have := hp.symm.trans hfb
        simpa using this
      have hfront := blocks_nonneg front
      rw [blocks_cons] at hw
      rw [blocks_append] at hblocks
      by_cases hturn : buf.start + (1 + blockLen p) = buf.wrap
      · -- The last packet before `wrap`: what is left lies at the start of the array.
        rw [if_pos hturn]
        have hnil : blocks front = 0 := by omega
        refine ⟨hmtu, le_refl _, le_refl _, ?_, ?_, ?_, .inl ⟨?_, rfl⟩⟩ <;>
          dsimp only <;> (try rw [blocks_append]) <;> omega
      · rw [if_neg hturn]
        refine ⟨hmtu, hwrap, ?_, ?_, ?_, ?_, .inr ⟨front, back, rfl, ?_⟩⟩ <;>
          dsimp only <;> (try rw [blocks_append]) <;> omega

/-- A consume moves neither the end of the blocks in use nor, unless they turned
back, their distance from the end of the array; it never adds to the blocks in use. -/
theorem Shape.dropFirst_free {buf : ChunkBuffer2 ν} (h : Shape buf) (hne : buf.packets ≠ []) :
    buf.dropFirst.chunkEnd = buf.chunkEnd ∧ buf.freeBlocks ≤ buf.dropFirst.freeBlocks ∧
      (buf.used < buf.wrap - buf.start → buf.dropFirst.freeBlocks = buf.freeBlocks) := by
  obtain ⟨p, ps, hp⟩ := List.exists_cons_of_ne_nil hne
  have hfirst : (bdivideUp buf.firstLen blockSize : Int) = blockLen p := by simp [firstLen, hp, blockLen]
  have hlen := blockLen_nonneg p
  have hshape := h.dropFirst hne
  obtain ⟨-, hwrap, hstart, hlt, hused, hle, hlay⟩ := h
  have hblocks : buf.used = (1 + blockLen p) + blocks ps := by rw [hused, hp, blocks_cons]
  have hrest := blocks_nonneg ps
  have hreach : buf.used < buf.wrap - buf.start ∨ buf.start + (1 + blockLen p) ≤ buf.wrap := by
    have hlt' := hshape.start_lt
    unfold ChunkBuffer2.dropFirst at hlt'
    dsimp only at hlt'
    rw [hfirst] at hlt'
    split at hlt'
    · next hturn => exact .inr hturn.le
    · exact .inr hlt'.le
  unfold ChunkBuffer2.dropFirst freeBlocks chunkEnd
  dsimp only
  rw [hfirst]
  by_cases hturn : buf.start + (1 + blockLen p) = buf.wrap
  · rw [if_pos hturn]
    dsimp only
    refine ⟨?_, ?_, fun hin => ?_⟩ <;> split_ifs <;> omega
  · rw [if_neg hturn]
    dsimp only
    refine ⟨?_, ?_, fun hin => ?_⟩ <;> split_ifs <;> omega

@[simp] theorem dropFirst_size (buf : ChunkBuffer2 ν) : buf.dropFirst.size = buf.size := by
  unfold dropFirst
  dsimp only
  split <;> rfl

@[simp] theorem dropFirst_mtu (buf : ChunkBuffer2 ν) : buf.dropFirst.mtu = buf.mtu := by
  unfold dropFirst
  dsimp only
  split <;> rfl

@[simp] theorem dropFirst_input (buf : ChunkBuffer2 ν) :
    (buf.dropFirst.inputDest, buf.dropFirst.inputAvail) = (buf.inputDest, buf.inputAvail) := by
  unfold dropFirst
  dsimp only
  split <;> rfl

/-- **A consume keeps the invariant.** -/
theorem Ok.consume {buf : ChunkBuffer2 ν} (h : Ok buf) (hne : buf.packets ≠ []) : Ok buf.consumePacket := by
  have hshape := h.toShape.dropFirst hne
  obtain ⟨hend, -, hfree⟩ := h.toShape.dropFirst_free hne
  unfold consumePacket
  split
  · exact ⟨{hshape with}, rfl, rfl⟩
  · refine ⟨{hshape with}, ?_, rfl⟩
    show (buf.dropFirst.inputDest, buf.dropFirst.inputAvail) = buf.dropFirst.inputOffer
    rw [dropFirst_input, h.input, inputOffer, inputOffer, hend, hfree (by omega), dropFirst_size,
      dropFirst_mtu]

/-- **A consume takes nothing away from what a writer is offered.** -/
theorem Ok.consume_inputAvail {buf : ChunkBuffer2 ν} (h : Ok buf) (hne : buf.packets ≠ []) :
    buf.inputAvail ≤ buf.consumePacket.inputAvail := by
  obtain ⟨hend, hfree, -⟩ := h.toShape.dropFirst_free hne
  have hafter : buf.consumePacket.inputAvail = buf.dropFirst.inputOffer.2 := by
    rw [show buf.dropFirst.inputOffer = buf.consumePacket.inputOffer by unfold consumePacket; split <;> rfl,
      ← (h.consume hne).input]
  have hbefore : buf.inputAvail = buf.inputOffer.2 := by rw [← h.input]
  rw [hafter, hbefore, inputOffer, inputOffer, hend, dropFirst_size, dropFirst_mtu]
  unfold blockSize
  split_ifs <;> dsimp only <;> omega

/-- There is a destination where something is offered. -/
theorem Ok.inputDest_isSome {buf : ChunkBuffer2 ν} (h : Ok buf) (havail : 0 ≤ buf.inputAvail) :
    buf.inputDest.isSome := by
  have hin := h.input
  unfold inputOffer at hin
  split_ifs at hin
  · rw [(Prod.mk.inj hin).2] at havail
    exact absurd havail (by decide)
  · rw [(Prod.mk.inj hin).1]
    rfl
  · rw [(Prod.mk.inj hin).2] at havail
    exact absurd havail (by decide)

theorem le_bdivideUp (a : Nat) : a ≤ bdivideUp a blockSize * blockSize := by
  unfold bdivideUp blockSize
  dsimp only
  split <;> omega

/-- A ring of the calculated size starts with room for a packet of the size it was
calculated for. -/
theorem calcBlocks_room {mtu n : Nat} (hn : 0 < n) (h : 0 ≤ calcBlocks mtu n) :
    0 < calcBlocks mtu n ∧ (mtu : Int) ≤ (init (calcBlocks mtu n) mtu : ChunkBuffer2 ν).inputAvail := by
  have hblocks := le_bdivideUp mtu
  have hsize : 2 * (1 + (bdivideUp mtu blockSize : Int)) ≤ calcBlocks mtu n := by
    unfold calcBlocks at h ⊢
    dsimp only at h ⊢
    split_ifs at h ⊢
    · omega
    · omega
    · omega
    · rw [Int.mul_comm]
      exact Int.mul_le_mul_of_nonneg_left (by omega) (by omega)
  have hpos : 0 < calcBlocks mtu n := by omega
  refine ⟨hpos, ?_⟩
  have hend : ¬(0 ≥ calcBlocks mtu n - 0) := by omega
  simp only [init, updateInput, updateOutput, inputOffer, freeBlocks, chunkEnd, if_neg hend]
  rw [if_neg (by omega), if_pos (by omega)]
  unfold blockSize at hblocks ⊢
  dsimp only
  unfold blockSize at hsize
  omega

/-- The reader is offered something exactly when a packet is stored. -/
theorem Ok.outputAvail_nonneg {buf : ChunkBuffer2 ν} (h : Ok buf) :
    0 ≤ buf.outputAvail ↔ buf.packets ≠ [] := by
  have hout := h.output
  rw [← h.used_pos]
  unfold outputOffer at hout
  split at hout
  · next hpos =>
    rw [(Prod.mk.inj hout).2]
    exact ⟨fun _ => hpos, fun _ => Int.natCast_nonneg _⟩
  · next hpos =>
    rw [(Prod.mk.inj hout).2]
    exact ⟨fun hneg => absurd hneg (by decide), fun h0 => absurd h0 hpos⟩

end ChunkBuffer2

end TwilightLine
