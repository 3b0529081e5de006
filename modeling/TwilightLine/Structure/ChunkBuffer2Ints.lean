import TwilightLine.Structure.ChunkBuffer2Capacity

/-! The `int`s of the packet ring.

The ring is computed here once more with every sum, difference and product of `int`s and
every number that is stored in an `int`, those of the assertions included: a computation
fails where its result is not an `int`. The indices of a ring are at most its number of
blocks, but what it offers is a number of bytes. So nothing is lost in any run exactly where
the bytes of all blocks but the first can be counted (`exact_iff`). -/
namespace TwilightLine.ChunkBuffer2

open Lib

/-- The result of a computation, where it is an `int`. -/
def checked (n : Int) : Option Int := if -intMax - 1 ≤ n ∧ n ≤ intMax then some n else none

namespace Checked
open ChunkMemory (AssertBuffer AssertIo Stored MadeFor)

/-- `bdivide_up` of an `int` and the size of a block, as an `int`. -/
def blocklen (len : Int) : Option Int := checked (ChunkMemory.blocklen len)

/-- `ChunkBuffer2_calc_blocks`. -/
def calcBlocks (chunkLen num : Nat) : Option Int := do
  let chunkDataBlocks ← blocklen chunkLen
  let last ← checked (intMax - 1)
  if chunkDataBlocks > last then some (-1)
  else do
    let chunkBlocks ← checked (1 + chunkDataBlocks)
    if num > last then some (-1)
    else do
      let numChunks ← checked (num + 1)
      let most ← checked (intMax / numChunks)
      if chunkBlocks > most then some (-1) else checked (chunkBlocks * numChunks)

/-- `_ChunkBuffer2_end`. -/
def chunkEnd (buf : ChunkMemory) : Option Int := do
  let before ← checked (buf.wrap - buf.start)
  if buf.used ≥ before then checked (buf.used - before) else checked (buf.start + buf.used)

/-- `end`, and `free` where a packet of the largest size may be written. -/
def space (buf : ChunkMemory) : Option (Int × Option Int) := do
  let e ← chunkEnd buf
  let behind ← checked (buf.size - e)
  let room ← checked (behind - 1)
  if room < buf.mtu then some (e, none)
  else do
    let before ← checked (buf.wrap - buf.start)
    let free ← checked (if buf.used ≥ before then buf.start - e else buf.size - e)
    some (e, some free)

/-- `_ChunkBuffer2_update_input`. The product is one of `size_t`, where it fits. -/
def updateInput (buf : ChunkMemory) : Option ChunkMemory := do
  let r ← space buf
  match r with
  | (_, none) => some {buf with inputDest := none, inputAvail := -1}
  | (e, some free) =>
    if free > 0 then do
      let dest ← checked (e + 1)
      let rest ← checked (free - 1)
      let avail ← checked (rest * blockSize)
      some {buf with inputDest := some dest, inputAvail := avail}
    else some {buf with inputDest := none, inputAvail := -1}

/-- `datalen` and the assertions on it, in `_ChunkBuffer2_update_output`. -/
def datalen (buf : ChunkMemory) : Option Int := do
  let _ ← blocklen (buf.len buf.start)
  let _ ← checked (buf.used - 1)
  let before ← checked (buf.wrap - buf.start)
  let _ ← checked (before - 1)
  some (buf.len buf.start)

/-- `_ChunkBuffer2_update_output`. -/
def updateOutput (buf : ChunkMemory) : Option ChunkMemory :=
  if buf.used > 0 then do
    let n ← datalen buf
    let dest ← checked (buf.start + 1)
    some {buf with outputDest := some dest, outputAvail := n}
  else some {buf with outputDest := none, outputAvail := -1}

/-- What `_ChunkBuffer2_assert_buffer` and `_ChunkBuffer2_assert_io` compute. -/
def assertions (buf : ChunkMemory) : Option Unit := do
  let _ ← checked (buf.wrap - buf.start)
  let r ← space buf
  let _ ← (match r with
    | (_, none) => some 0
    | (e, some free) => if free > 0 then (checked (e + 1)).bind fun _ => checked (free - 1) else some 0)
  let _ ← (if buf.used > 0 then (datalen buf).bind fun _ => checked (buf.start + 1) else some 0)
  some ()

/-- `ChunkBuffer2_Init`. -/
def init (buffer : Memory) (blocks mtu : Nat) : Option ChunkMemory := do
  let blocks ← checked blocks
  let mtu ← blocklen mtu
  let buf ← updateInput
    { buffer := buffer, size := blocks, wrap := blocks, start := 0, used := 0, mtu := mtu,
      inputDest := none, inputAvail := -1, outputDest := none, outputAvail := -1 }
  let buf ← updateOutput buf
  assertions buf
  some buf

/-- `wrap` behind a packet of `n` blocks at `e`. -/
def turn (buf : ChunkMemory) (e n used : Int) : Option Int := do
  let before ← checked (buf.wrap - buf.start)
  if used ≤ before then do
    let first ← checked (e + 1)
    let next ← checked (first + n)
    let behind ← checked (buf.size - next)
    let room ← checked (behind - 1)
    if buf.mtu > room then some next else some buf.wrap
  else some buf.wrap

/-- The packet at `input_dest` joins the others. -/
def place (buf : ChunkMemory) (len : Int) : Option ChunkMemory := do
  let e ← chunkEnd buf
  let n ← blocklen len
  let behind ← checked (buf.size - e)
  let _ ← checked (behind - 1)
  let before ← checked (buf.wrap - buf.start)
  let _ ← (if buf.used < before then some 0 else (checked (buf.start - e)).bind fun free => checked (free - 1))
  let cells ← checked (1 + n)
  let used ← checked (buf.used + cells)
  let wrap ← turn buf e n used
  some {buf with buffer := writeInt buf.buffer (blockAddr e) len, used := used, wrap := wrap}

/-- `ChunkBuffer2_SubmitPacket`. -/
def submitPacket (buf : ChunkMemory) (len : Int) : Option ChunkMemory := do
  assertions buf
  let buf ← place buf len
  let buf ← updateInput buf
  let n ← blocklen len
  let cells ← checked (1 + n)
  let buf ← (if buf.used = cells then updateOutput buf else some buf)
  assertions buf
  some buf

/-- The first packet leaves. -/
def dropFirst (buf : ChunkMemory) : Option ChunkMemory := do
  let n ← blocklen (buf.len buf.start)
  let before ← checked (buf.wrap - buf.start)
  let _ ← checked (before - 1)
  let _ ← checked (buf.used - 1)
  let cells ← checked (1 + n)
  let start ← checked (buf.start + cells)
  let used ← checked (buf.used - cells)
  if start = buf.wrap then some {buf with used := used, start := 0, wrap := buf.size}
  else some {buf with used := used, start := start}

/-- `ChunkBuffer2_ConsumePacket`. -/
def consumePacket (buf : ChunkMemory) : Option ChunkMemory := do
  assertions buf
  let before ← checked (buf.wrap - buf.start)
  let wrapped := buf.used ≥ before
  let buf ← dropFirst buf
  let buf ← (if wrapped then updateInput buf else some buf)
  let buf ← updateOutput buf
  assertions buf
  some buf

/-- The calls, where their assertions hold. -/
def step (buf : ChunkMemory) : ChunkEvent → Option ChunkMemory
  | .submit written len =>
    match buf.inputDest with
    | none => none
    | some dest =>
      if (written.length : Int) ≤ buf.inputAvail ∧ len ≤ written.length then
        submitPacket {buf with buffer := writeBytes buf.buffer (blockAddr dest) written} len
      else none
  | .consume => if buf.outputDest.isSome then consumePacket buf else none

/-! ### In a small ring -/

variable {buf : ChunkMemory} {queue : List (List UInt8)} {b : List UInt8}

theorem checked_eq {n : Int} (hlow : -intMax - 1 ≤ n) (hhigh : n ≤ intMax) : checked n = some n := if_pos ⟨hlow, hhigh⟩

/-- The bytes of all blocks but the first can be counted, and the indices lie in the ring. -/
structure Small (buf : ChunkMemory) : Prop where
  size : buf.size ≤ 2 ^ 29
  wrap : buf.wrap ≤ buf.size
  start : 0 ≤ buf.start
  start_lt : buf.start < buf.wrap
  used : 0 ≤ buf.used
  used_le : buf.used ≤ buf.wrap
  first : 0 < buf.used → ChunkMemory.blocklen (buf.len buf.start) < buf.used

theorem intMax_eq : intMax = 2147483647 := rfl

theorem Small.chunkEnd (h : Small buf) : Checked.chunkEnd buf = some buf.chunkEnd ∧ 0 ≤ buf.chunkEnd ∧
    buf.chunkEnd ≤ buf.size := by
  obtain ⟨hsize, hwrap, hstart, hlt, hused, hle, -⟩ := h
  have hmax := intMax_eq
  unfold Checked.chunkEnd
  rw [checked_eq (by omega) (by omega)]
  show (if buf.used ≥ buf.wrap - buf.start then _ else _) = _ ∧ _
  by_cases hge : buf.used ≥ buf.wrap - buf.start
  · have hend : buf.chunkEnd = buf.used - (buf.wrap - buf.start) := if_pos hge
    rw [if_pos hge, hend, checked_eq (by omega) (by omega)]
    exact ⟨rfl, by omega, by omega⟩
  · have hend : buf.chunkEnd = buf.start + buf.used := if_neg hge
    rw [if_neg hge, hend, checked_eq (by omega) (by omega)]
    exact ⟨rfl, by omega, by omega⟩

/-- `free`, where a packet of the largest size may be written. -/
def freeOf (buf : ChunkMemory) : Option Int :=
  if buf.size - buf.chunkEnd - 1 < buf.mtu then none else some buf.free

theorem Small.space (h : Small buf) : Checked.space buf = some (buf.chunkEnd, freeOf buf) ∧ buf.free ≤ buf.size := by
  obtain ⟨hchunkEnd, hlow, hhigh⟩ := h.chunkEnd
  obtain ⟨hsize, hwrap, hstart, hlt, hused, hle, -⟩ := h
  have hmax := intMax_eq
  have hfree : -intMax - 1 ≤ buf.free ∧ buf.free ≤ buf.size := by
    unfold ChunkMemory.free
    split <;> omega
  refine ⟨?_, hfree.2⟩
  unfold Checked.space freeOf
  simp (disch := omega) only [hchunkEnd, checked_eq, Option.bind_eq_bind, Option.bind_some]
  split
  · rfl
  · rfl

theorem Small.updateInput (h : Small buf) : Checked.updateInput buf = some buf.updateInput := by
  obtain ⟨hspace, hfreeLe⟩ := h.space
  obtain ⟨-, hlow, hhigh⟩ := h.chunkEnd
  have hsize := h.size
  have hmax := intMax_eq
  unfold Checked.updateInput
  rw [hspace, Option.bind_eq_bind, Option.bind_some]
  have hoffer : (buf.ring []).inputOffer = if buf.size - buf.chunkEnd - 1 < buf.mtu then (none, -1)
      else if buf.free > 0 then (some (buf.chunkEnd + 1), (buf.free - 1) * blockSize) else (none, -1) := rfl
  unfold ChunkMemory.updateInput freeOf
  rw [hoffer]
  unfold blockSize
  by_cases hroom : buf.size - buf.chunkEnd - 1 < buf.mtu
  · simp only [if_pos hroom]
  · by_cases hfree : buf.free > 0
    · simp (disch := omega) only [if_neg hroom, if_pos hfree, checked_eq, Option.bind_eq_bind, Option.bind_some]
    · simp only [if_neg hroom, if_neg hfree]

theorem Small.datalen (h : Small buf) (hpos : 0 < buf.used) : Checked.datalen buf = some (buf.len buf.start) := by
  have hfirst := h.first hpos
  have hnonneg : 0 ≤ ChunkMemory.blocklen (buf.len buf.start) := Int.natCast_nonneg _
  obtain ⟨hsize, hwrap, hstart, hlt, hused, hle, -⟩ := h
  have hmax := intMax_eq
  unfold Checked.datalen Checked.blocklen
  simp (disch := omega) only [checked_eq, Option.bind_eq_bind, Option.bind_some]

theorem Small.updateOutput (h : Small buf) : Checked.updateOutput buf = some buf.updateOutput := by
  have hmax := intMax_eq
  have hsize := h.size
  have hwrap := h.wrap
  have hstart := h.start
  have hlt := h.start_lt
  unfold Checked.updateOutput ChunkMemory.updateOutput
  by_cases hpos : buf.used > 0
  · simp (disch := omega) only [if_pos hpos, h.datalen hpos, checked_eq, Option.bind_eq_bind, Option.bind_some]
  · simp only [if_neg hpos]

theorem Small.assertions (h : Small buf) : Checked.assertions buf = some () := by
  obtain ⟨hspace, hfreeLe⟩ := h.space
  obtain ⟨-, hlow, hhigh⟩ := h.chunkEnd
  have hmax := intMax_eq
  have hsize := h.size
  have hwrap := h.wrap
  have hstart := h.start
  have hlt := h.start_lt
  have houtput : ∃ n, (if buf.used > 0 then (Checked.datalen buf).bind fun _ => checked (buf.start + 1) else some 0) = some n := by
    by_cases hpos : buf.used > 0
    · rw [if_pos hpos, h.datalen hpos, Option.bind_some, checked_eq (by omega) (by omega)]
      exact ⟨_, rfl⟩
    · rw [if_neg hpos]
      exact ⟨_, rfl⟩
  obtain ⟨n, houtput⟩ := houtput
  unfold Checked.assertions
  rw [houtput, hspace]
  unfold freeOf
  by_cases hroom : buf.size - buf.chunkEnd - 1 < buf.mtu
  · simp (disch := omega) only [if_pos hroom, checked_eq, Option.bind_eq_bind, Option.bind_some]
  · by_cases hfree : buf.free > 0
    · simp (disch := omega) only [if_neg hroom, if_pos hfree, checked_eq, Option.bind_eq_bind, Option.bind_some]
    · simp (disch := omega) only [if_neg hroom, if_neg hfree, checked_eq, Option.bind_eq_bind, Option.bind_some]

/-- A ring that holds packets is small where it has few blocks. -/
theorem small_of (hshape : Shape (buf.view queue)) (hholds : ∀ x ∈ locate buf.wrap buf.start queue, Holds buf.buffer x.1 x.2)
    (hsize : buf.size ≤ 2 ^ 29) : Small buf := by
  have hused : buf.used = total queue := ChunkMemory.used_eq hshape
  refine ⟨hsize, hshape.wrap, hshape.start, hshape.start_lt, ?_, hshape.used_le, fun hpos => ?_⟩
  · rw [hused]
    exact total_nonneg queue
  · cases queue with
    | nil =>
      rw [hused] at hpos
      exact absurd hpos (lt_irrefl _)
    | cons b queue =>
      have hlen : buf.len buf.start = b.length := (hholds (buf.start, b) (List.mem_cons_self ..)).len
      have hcells : 1 + ChunkMemory.blocklen (buf.len buf.start) = cells b := by
        rw [hlen]
        rfl
      have hrest := total_nonneg queue
      rw [total_cons] at hused
      omega

/-! ### Calls -/

theorem Small.place (h : Small buf) {len : Int} (hroom : 1 + ChunkMemory.blocklen len ≤ buf.free) :
    Checked.place buf len = some (buf.place len) := by
  obtain ⟨hend, hlow, hhigh⟩ := h.chunkEnd
  have hnonneg : 0 ≤ ChunkMemory.blocklen len := Int.natCast_nonneg _
  obtain ⟨hsize, hwrap, hstart, hlt, hused, hle, -⟩ := h
  have hmax := intMax_eq
  -- the packet ends in the ring, before the others where they turned back
  have hfit : buf.used + (1 + ChunkMemory.blocklen len) ≤ buf.size ∧ buf.chunkEnd + 1 + ChunkMemory.blocklen len ≤ buf.size := by
    unfold ChunkMemory.free at hroom
    by_cases hge : buf.used ≥ buf.wrap - buf.start
    · have hendEq : buf.chunkEnd = buf.used - (buf.wrap - buf.start) := if_pos hge
      rw [if_pos hge] at hroom
      omega
    · have hendEq : buf.chunkEnd = buf.start + buf.used := if_neg hge
      rw [if_neg hge] at hroom
      omega
  have hturn : Checked.turn buf buf.chunkEnd (ChunkMemory.blocklen len) (buf.used + (1 + ChunkMemory.blocklen len)) =
      some (buf.place len).wrap := by
    unfold Checked.turn ChunkMemory.place
    rw [checked_eq (by omega) (by omega), Option.bind_eq_bind, Option.bind_some]
    by_cases hbefore : buf.used + (1 + ChunkMemory.blocklen len) ≤ buf.wrap - buf.start
    · simp (disch := omega) only [if_pos hbefore, checked_eq, Option.bind_some]
      by_cases hlast : buf.mtu > buf.size - (buf.chunkEnd + 1 + ChunkMemory.blocklen len) - 1
      · rw [if_pos hlast, if_pos ⟨hbefore, hlast⟩]
      · rw [if_neg hlast, if_neg fun hc => hlast hc.2]
    · rw [if_neg hbefore]
      dsimp only
      rw [if_neg fun hc => hbefore hc.1]
  unfold Checked.place Checked.blocklen
  simp (disch := omega) only [hend, hturn, checked_eq, Option.bind_eq_bind, Option.bind_some]
  split <;> rfl

theorem Small.updated (h : Small buf) : Small buf.updateInput :=
  ⟨h.size, h.wrap, h.start, h.start_lt, h.used, h.used_le, h.first⟩

theorem Small.output (h : Small buf) : Small buf.updateOutput := by
  unfold ChunkMemory.updateOutput
  split <;> exact ⟨h.size, h.wrap, h.start, h.start_lt, h.used, h.used_le, h.first⟩

/-- **A submit loses nothing.** -/
theorem submitPacket_eq (h : Stored buf queue) (hsize : buf.size ≤ 2 ^ 29) {dest : Int} (hdest : buf.inputDest = some dest)
    {len : Nat} (hlen : (len : Int) ≤ buf.inputAvail) : Checked.submitPacket buf len = some (buf.submitPacket len) := by
  have hsmall := small_of h.ok.toShape h.holds hsize
  obtain ⟨-, havail, hfree, -⟩ := ChunkMemory.offered h.ok hdest
  obtain ⟨-, hfreeLe⟩ := hsmall.space
  have hmax := intMax_eq
  have hint : (len : Int) < 2 ^ 31 := by
    unfold blockSize at havail
    omega
  have hnonneg : 0 ≤ ChunkMemory.blocklen len := Int.natCast_nonneg _
  obtain ⟨-, hholds⟩ := ChunkMemory.submitPacket_view h hdest hlen hint
  have hlength : (readBytes buf.buffer (blockAddr dest) len).length = len := readBytes_length ..
  generalize readBytes buf.buffer (blockAddr dest) len = p at hholds hlength
  have hblock : blockLen (⟨p, ()⟩ : Packet Unit) = ChunkMemory.blocklen len := by
    unfold blockLen
    dsimp only
    rw [hlength]
    rfl
  have hroom : 1 + blockLen (⟨p, ()⟩ : Packet Unit) ≤ (buf.view queue).freeBlocks := by
    refine h.ok.room ?_ ?_
    · rw [show (buf.view queue).inputDest = _ from hdest]
      rfl
    · rw [hlength]
      exact hlen
  have hplace : Small (buf.place len) := by
    refine small_of ?_ hholds hsize
    rw [ChunkMemory.place_view len hlength]
    exact h.ok.toShape.place hroom
  rw [hblock] at hroom
  have hcells : 1 + ChunkMemory.blocklen len ≤ buf.size := le_trans hroom hfreeLe
  have hlast : Small (buf.submitPacket len) := by
    unfold ChunkMemory.submitPacket
    dsimp only
    split
    · exact hplace.updated.output
    · exact hplace.updated
  have hchosen : (if (buf.place len).updateInput.used = 1 + ChunkMemory.blocklen len
      then Checked.updateOutput (buf.place len).updateInput else some (buf.place len).updateInput) =
      some (buf.submitPacket len) := by
    unfold ChunkMemory.submitPacket
    dsimp only
    split
    · exact hplace.updated.updateOutput
    · rfl
  unfold Checked.submitPacket Checked.blocklen
  simp (disch := omega) only [hsmall.assertions, hsmall.place hroom, hplace.updateInput, checked_eq, Option.bind_eq_bind,
    Option.bind_some, hchosen, hlast.assertions]

/-- **A consume loses nothing.** -/
theorem consumePacket_eq (h : Stored buf (b :: queue)) (hsize : buf.size ≤ 2 ^ 29) :
    Checked.consumePacket buf = some buf.consumePacket := by
  have hsmall := small_of h.ok.toShape h.holds hsize
  have hmax := intMax_eq
  have hnonneg : 0 ≤ ChunkMemory.blocklen (buf.len buf.start) := Int.natCast_nonneg _
  obtain ⟨hpos, hlen, -⟩ := h.head
  obtain ⟨hused, hwrap⟩ := h.head_cells
  have hcells : 1 + ChunkMemory.blocklen (buf.len buf.start) = cells b := by
    rw [hlen]
    rfl
  have hdrop : Small buf.dropFirst := by
    have hfirst : Holds buf.buffer buf.start b := h.holds (buf.start, b) (List.mem_cons_self ..)
    refine small_of ?_ (ChunkMemory.consumePacket_view h).2 ?_
    · rw [ChunkMemory.dropFirst_view hfirst]
      exact h.ok.toShape.dropFirst (List.cons_ne_nil _ _)
    · rw [(ChunkMemory.dropFirst_memory buf).2]
      exact hsize
  have hdropped : Checked.dropFirst buf = some buf.dropFirst := by
    have hsize := hsmall.size
    have hwrapLe := hsmall.wrap
    have hstart := hsmall.start
    have husedLe := hsmall.used_le
    unfold Checked.dropFirst Checked.blocklen ChunkMemory.dropFirst
    simp (disch := omega) only [checked_eq, Option.bind_eq_bind, Option.bind_some]
    split <;> rfl
  have hbefore : checked (buf.wrap - buf.start) = some (buf.wrap - buf.start) := by
    have hsize := hsmall.size
    have hwrapLe := hsmall.wrap
    have hstart := hsmall.start
    exact checked_eq (by omega) (by omega)
  have hinput : (if buf.used ≥ buf.wrap - buf.start then Checked.updateInput buf.dropFirst else some buf.dropFirst) =
      some (if buf.used ≥ buf.wrap - buf.start then buf.dropFirst.updateInput else buf.dropFirst) := by
    split
    · exact hdrop.updateInput
    · rfl
  have hupdated : Small (if buf.used ≥ buf.wrap - buf.start then buf.dropFirst.updateInput else buf.dropFirst) := by
    split
    · exact hdrop.updated
    · exact hdrop
  unfold Checked.consumePacket
  simp only [hsmall.assertions, hbefore, hdropped, hinput, hupdated.updateOutput, hupdated.output.assertions,
    Option.bind_eq_bind, Option.bind_some]
  rfl

/-! ### Runs -/

theorem step_eq (h : Stored buf queue) (hsize : buf.size ≤ 2 ^ 29) {e : ChunkEvent} {buf' : ChunkMemory}
    (he : chunkStep buf e = some buf') : Checked.step buf e = some buf' := by
  cases e with
  | submit written len =>
    simp only [chunkStep] at he
    split at he
    · cases he
    · next dest hdest =>
      obtain ⟨⟨hwritten, hlen⟩, he⟩ := Option.ite_none_right_eq_some.mp he
      have hfilled := h.write 0 written hdest le_rfl (by omega)
      rw [Int.add_zero] at hfilled
      have hfits : (len : Int) ≤ buf.inputAvail := by omega
      have hsubmit := submitPacket_eq hfilled hsize hdest hfits
      simp only [hdest] at hsubmit
      simp only [← he, Checked.step, hdest]
      exact (if_pos ⟨hwritten, hlen⟩).trans hsubmit
  | consume =>
    obtain ⟨hdest, he⟩ := Option.ite_none_right_eq_some.mp he
    cases he
    obtain ⟨b, rest, rfl⟩ := List.exists_cons_of_ne_nil (h.outputDest_isSome.mp hdest)
    exact (if_pos hdest).trans (consumePacket_eq h hsize)

theorem run_eq {es : List ChunkEvent} {buf' : ChunkMemory} (h : Stored buf queue) (hsize : buf.size ≤ 2 ^ 29)
    (hrun : Run.run chunkStep buf es = some buf') :
    Run.run Checked.step buf es = some buf' ∧ Stored buf' (es.foldl fifoStep queue) := by
  induction es generalizing buf queue with
  | nil =>
    cases hrun
    exact ⟨rfl, h⟩
  | cons e rest ih =>
    obtain ⟨buf₁, he, hrest⟩ := Run.run_cons hrun
    have hstored := h.step (by unfold blockSize; omega) he
    obtain ⟨hlast, hstored'⟩ := ih hstored (by rw [ChunkMemory.chunkStep_size he]; exact hsize) hrest
    exact ⟨by rw [Run.run, step_eq h hsize he, Option.bind_some, hlast], hstored'⟩

theorem run_size {es : List ChunkEvent} {buf' : ChunkMemory} (hrun : Run.run chunkStep buf es = some buf') :
    buf'.size = buf.size :=
  Run.run_invariant (fun s => s.size = buf.size) (fun _ _ _ hs he => (ChunkMemory.chunkStep_size he).trans hs) hrun rfl

variable {mtu num : Nat}

theorem blocklen_le (hmtu : (mtu : Int) ≤ intMax) : ChunkMemory.blocklen mtu ≤ 2 ^ 29 := by
  have hmax := intMax_eq
  unfold ChunkMemory.blocklen bdivideUp blockSize
  dsimp only
  split <;> omega

/-- The number of blocks is computed without a loss. -/
theorem calcBlocks_exact (hmtu : (mtu : Int) ≤ intMax) (hnum : (num : Int) ≤ intMax) :
    Checked.calcBlocks mtu num = some (ChunkBuffer2.calcBlocks mtu num) := by
  have hmax := intMax_eq
  have hblocks : (bdivideUp mtu blockSize : Int) ≤ 2 ^ 29 := blocklen_le hmtu
  have hlen : ChunkMemory.blocklen mtu = bdivideUp mtu blockSize := rfl
  unfold Checked.calcBlocks Checked.blocklen ChunkBuffer2.calcBlocks
  rw [hlen]
  simp (disch := omega) only [checked_eq, Option.bind_eq_bind, Option.bind_some]
  split
  · rfl
  · split
    · rfl
    · next hless =>
      have hmost : 0 ≤ intMax / ((num : Int) + 1) ∧ intMax / ((num : Int) + 1) ≤ intMax :=
        ⟨Int.ediv_nonneg (by omega) (by omega), Int.ediv_le_self _ (by omega)⟩
      simp (disch := omega) only [checked_eq, Option.bind_some]
      split
      · rfl
      · next hfits =>
        have hmul := Int.mul_le_of_le_ediv (show 0 < (num : Int) + 1 by omega) (not_lt.mp hfits)
        have hnonneg := Int.mul_nonneg (show 0 ≤ 1 + (bdivideUp mtu blockSize : Int) by omega)
          (show 0 ≤ (num : Int) + 1 by omega)
        exact checked_eq (by omega) hmul

/-- No `int` of a ring that was made for so many packets overflows or loses what it is set
to: what is computed is what the ring is in all runs, and the number of free bytes is exact. -/
structure Exact (memory : Memory) (mtu num : Nat) : Prop where
  calcBlocks : Checked.calcBlocks mtu num = some (ChunkBuffer2.calcBlocks mtu num)
  init : Checked.init memory (ChunkBuffer2.calcBlocks mtu num).toNat mtu =
    some (.init memory (ChunkBuffer2.calcBlocks mtu num).toNat mtu)
  run : ∀ es buf, Run.run chunkStep (.init memory (ChunkBuffer2.calcBlocks mtu num).toNat mtu) es = some buf →
    Run.run Checked.step (.init memory (ChunkBuffer2.calcBlocks mtu num).toNat mtu) es = some buf ∧
      AssertBuffer buf ∧ AssertIo buf
  inputAvail : ∀ es buf, Run.run chunkStep (.init memory (ChunkBuffer2.calcBlocks mtu num).toNat mtu) es = some buf →
    checked buf.inputAvail = some buf.inputAvail ∧
      ∀ dest, buf.inputDest = some dest → buf.inputAvail = (buf.free - 1) * blockSize

/-- The ring before the first offer. -/
theorem blocks_room (h : 0 ≤ ChunkBuffer2.calcBlocks mtu num) :
    ChunkMemory.blocklen mtu < (ChunkBuffer2.calcBlocks mtu num).toNat := by
  have hsize := calcBlocks_eq h
  have hlen : ChunkMemory.blocklen mtu = bdivideUp mtu blockSize := rfl
  have hmul : (1 + (bdivideUp mtu blockSize : Int)) * 1 ≤ ChunkBuffer2.calcBlocks mtu num := by
    rw [hsize]
    exact Int.mul_le_mul_of_nonneg_left (by omega) (by omega)
  rw [hlen, Int.toNat_of_nonneg h]
  omega

theorem init_eq (memory : Memory) {blocks : Nat} (hroom : ChunkMemory.blocklen mtu < blocks) (hmtu : (mtu : Int) ≤ intMax)
    (hsmall : blocks ≤ 2 ^ 29) : Checked.init memory blocks mtu = some (.init memory blocks mtu) := by
  have hmax := intMax_eq
  have hlen := blocklen_le hmtu
  have hnonneg : 0 ≤ ChunkMemory.blocklen mtu := Int.natCast_nonneg _
  let start : ChunkMemory :=
    { buffer := memory, size := blocks, wrap := blocks, start := 0, used := 0, mtu := ChunkMemory.blocklen mtu,
      inputDest := none, inputAvail := -1, outputDest := none, outputAvail := -1 }
  have hstart : Small start := by
    refine ⟨?_, le_rfl, le_rfl, ?_, le_rfl, ?_, fun hpos => absurd hpos (lt_irrefl _)⟩ <;> dsimp only [start] <;> omega
  unfold Checked.init Checked.blocklen
  simp (disch := omega) only [checked_eq, Option.bind_eq_bind, Option.bind_some]
  rw [show Checked.updateInput _ = some start.updateInput from hstart.updateInput, Option.bind_some,
    hstart.updated.updateOutput, Option.bind_some, hstart.updated.output.assertions]
  rfl

theorem checked_none {n : Int} (h : intMax < n) : checked n = none := if_neg fun hc => absurd hc.2 (not_le.mpr h)

/-- The first offer counts the bytes of all blocks but the first. -/
theorem init_large (memory : Memory) {blocks : Nat} (hroom : ChunkMemory.blocklen mtu < blocks)
    (hlarge : 2 ^ 29 < blocks) : Checked.init memory blocks mtu = none := by
  have hmax := intMax_eq
  have hnonneg : 0 ≤ ChunkMemory.blocklen mtu := Int.natCast_nonneg _
  unfold Checked.init Checked.blocklen
  by_cases hcount : (blocks : Int) ≤ intMax
  · rw [checked_eq (by omega) hcount, Option.bind_eq_bind, Option.bind_some, checked_eq (by omega) (by omega),
      Option.bind_eq_bind, Option.bind_some]
    have hspace : ∀ start : ChunkMemory, start.size = blocks → start.wrap = blocks → start.start = 0 → start.used = 0 →
        start.mtu = ChunkMemory.blocklen mtu → Checked.space start = some (0, some (blocks : Int)) := by
      intro start hsize hwrap hstart hused hmtu
      unfold Checked.space Checked.chunkEnd
      rw [hsize, hwrap, hstart, hused, hmtu]
      have hfirst : ¬(0 : Int) ≥ blocks - 0 := by omega
      have hfits : ¬((blocks : Int) - 0 - 1 < ChunkMemory.blocklen mtu) := by omega
      simp (disch := omega) only [checked_eq, Option.bind_eq_bind, Option.bind_some, if_neg hfirst, Int.add_zero]
      rw [if_neg hfits, Int.sub_zero]
    have hinput : ∀ start : ChunkMemory, Checked.space start = some (0, some (blocks : Int)) →
        Checked.updateInput start = none := by
      intro start hspace
      unfold Checked.updateInput
      rw [hspace, Option.bind_eq_bind, Option.bind_some]
      dsimp only
      have hmuch : intMax < ((blocks : Int) - 1) * blockSize := by
        unfold blockSize
        omega
      simp (disch := omega) only [gt_iff_lt, if_pos (show (0 : Int) < blocks by omega), checked_eq, checked_none hmuch,
        Option.bind_eq_bind, Option.bind_some, Option.bind_none]
    rw [hinput _ (hspace _ rfl rfl rfl rfl rfl)]
    rfl
  · rw [checked_none (not_le.mp hcount)]
    rfl

/-- **Nothing is lost in any run exactly where the ring has no more blocks than this.** -/
theorem exact_iff (memory : Memory) (mtu num : Nat) (hmtu : (mtu : Int) ≤ intMax) (hnum : (num : Int) ≤ intMax)
    (hcalc : 0 ≤ ChunkBuffer2.calcBlocks mtu num) :
    Exact memory mtu num ↔ ChunkBuffer2.calcBlocks mtu num ≤ 2 ^ 29 := by
  have hroom := blocks_room hcalc
  have hsize : ((ChunkBuffer2.calcBlocks mtu num).toNat : Int) = ChunkBuffer2.calcBlocks mtu num :=
    Int.toNat_of_nonneg hcalc
  constructor
  · intro hexact
    by_contra hlarge
    have hnone := init_large memory hroom (by omega)
    rw [hexact.init] at hnone
    cases hnone
  · intro hsmall
    have hnonneg : 0 ≤ ChunkMemory.blocklen mtu := Int.natCast_nonneg _
    have hsome : (0 : Int) < (ChunkBuffer2.calcBlocks mtu num).toNat := by omega
    have hstored : Stored (.init memory (ChunkBuffer2.calcBlocks mtu num).toNat mtu) [] :=
      ⟨ok_init hsome mtu, nofun⟩
    have hblocks : (ChunkMemory.init memory (ChunkBuffer2.calcBlocks mtu num).toNat mtu).size ≤ 2 ^ 29 := by
      show ((ChunkBuffer2.calcBlocks mtu num).toNat : Int) ≤ 2 ^ 29
      omega
    refine ⟨calcBlocks_exact hmtu hnum, init_eq memory hroom hmtu (by omega), fun es buf hrun => ?_, fun es buf hrun => ?_⟩
    · obtain ⟨hchecked, hlast⟩ := run_eq hstored hblocks hrun
      exact ⟨hchecked, hlast.assertBuffer, hlast.assertIo⟩
    · obtain ⟨-, hlast⟩ := run_eq hstored hblocks hrun
      have hused := ChunkMemory.used_eq hlast.ok.toShape
      have htotal := total_nonneg (es.foldl fifoStep [])
      obtain ⟨hlow, hhigh⟩ := ChunkMemory.inputAvail_le hlast.ok
      have hmax := intMax_eq
      have hkept : buf.size ≤ 2 ^ 29 := run_size hrun ▸ hblocks
      exact ⟨checked_eq (by omega) (by omega), fun dest hdest => (ChunkMemory.offered hlast.ok hdest).2.1⟩

theorem exact_iff_small : Exact (fun _ => 0) 5 2 ↔ ChunkBuffer2.calcBlocks 5 2 ≤ 2 ^ 29 :=
  exact_iff (fun _ => 0) 5 2 (by decide) (by decide) (by decide)

/-- With 1495 bytes and 1431655 packets the number of blocks is accepted, and the first
offer of the ring is 2147483996 bytes. -/
theorem not_exact_large : 0 ≤ ChunkBuffer2.calcBlocks 1495 1431655 ∧ ¬Exact (fun _ => 0) 1495 1431655 := by
  refine ⟨by decide +kernel, fun hexact => ?_⟩
  have hinit := hexact.init
  rw [show Checked.init (fun _ => 0) (ChunkBuffer2.calcBlocks 1495 1431655).toNat 1495 = none by
    exact Option.isNone_iff_eq_none.mp (by decide +kernel)] at hinit
  cases hinit

end Checked

end TwilightLine.ChunkBuffer2
