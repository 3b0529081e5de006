import TwilightLine.Structure.ChunkBuffer2Memory

/-! How many packets the ring holds.

A packet is written only where one of the largest size would fit before the end of the
array, and the packets turn back only where none would (`Ample`). So the blocks that are
neither in use nor offered are fewer than two packets take, and a ring that offers less
than a packet of the largest size holds the number that it was calculated for
(`Ample.full`). -/
namespace TwilightLine.ChunkBuffer2

open Lib

namespace ChunkMemory

variable {buf : ChunkMemory} {queue : List (List UInt8)} {b : List UInt8}

/-- No place for a packet of the largest size is given away. -/
structure Ample (buf : ChunkMemory) (queue : List (List UInt8)) : Prop where
  wrap : buf.wrap = buf.size ∨ buf.size - buf.wrap ≤ buf.mtu
  positions : ∀ x ∈ locate buf.wrap buf.start queue, buf.mtu ≤ buf.size - x.1 - 1
  straight : buf.used < buf.wrap - buf.start → buf.mtu ≤ buf.size - buf.chunkEnd - 1

theorem used_eq (h : Shape (buf.view queue)) : buf.used = total queue := h.used.trans (blocks_asPackets queue)

theorem ample_init (buffer : Memory) {blocks mtu : Nat} (h : bdivideUp mtu blockSize < blocks) :
    Ample (init buffer blocks mtu) [] where
  wrap := .inl rfl
  positions := nofun
  straight := by
    intro _
    have hend : (init buffer blocks mtu).chunkEnd = 0 := if_neg (by
      show ¬(0 : Int) ≥ (blocks : Int) - 0
      omega)
    rw [hend]
    show (bdivideUp mtu blockSize : Int) ≤ blocks - 0 - 1
    omega

/-! ### Submits and consumes -/

theorem submitPacket_indices (buf : ChunkMemory) (len : Int) :
    (buf.submitPacket len).used = (buf.place len).used ∧ (buf.submitPacket len).mtu = buf.mtu := by
  unfold submitPacket updateOutput
  dsimp only
  split
  · split <;> exact ⟨rfl, rfl⟩
  · exact ⟨rfl, rfl⟩

theorem submitPacket_chunkEnd (buf : ChunkMemory) (len : Int) :
    (buf.submitPacket len).chunkEnd = (buf.place len).chunkEnd := by
  obtain ⟨-, hwrap, hstart, -⟩ := submitPacket_memory buf len
  unfold chunkEnd ring ChunkBuffer2.chunkEnd
  dsimp only
  rw [(submitPacket_indices buf len).1, hwrap, hstart]
  rfl

theorem Ample.submit (ha : Ample buf queue) (h : Ok (buf.view queue)) {dest : Int} (hdest : buf.inputDest = some dest)
    {len : Nat} (hb : b.length = len) : Ample (buf.submitPacket len) (queue ++ [b]) := by
  obtain ⟨-, -, -, hmtu⟩ := offered h hdest
  obtain ⟨-, hwrap, hstart, hsize⟩ := submitPacket_memory buf len
  obtain ⟨hused, hmtu'⟩ := submitPacket_indices buf len
  have hend' := submitPacket_chunkEnd buf len
  have hnonneg : 0 ≤ blocklen len := Int.natCast_nonneg _
  refine ⟨?_, ?_, ?_⟩
  · rw [hwrap, hsize, hmtu']
    unfold place
    dsimp only
    split
    · exact .inr (by omega)
    · exact ha.wrap
  · intro x hx
    rw [hwrap, hstart, locate_place buf h.toShape hb] at hx
    rw [hsize, hmtu']
    rcases List.mem_append.mp hx with hx | hx
    · exact ha.positions x hx
    · rw [List.mem_singleton.mp hx]
      omega
  · rw [hused, hwrap, hstart, hsize, hmtu', hend']
    intro hin
    rcases layout h.toShape with ⟨hbefore, hws, -⟩ | ⟨hge, -⟩
    · have hend : buf.chunkEnd = buf.start + buf.used := if_neg (not_le.mpr hbefore)
      -- the packets still end before the end of the array
      have hkept : ¬(buf.used + (1 + blocklen len) ≤ buf.wrap - buf.start ∧
          buf.mtu > buf.size - (buf.chunkEnd + 1 + blocklen len) - 1) := by
        intro hc
        unfold place at hin
        dsimp only at hin
        rw [if_pos hc] at hin
        omega
      have hplaced : (buf.place len).wrap = buf.wrap := if_neg hkept
      rw [hplaced] at hin
      have hin : buf.used + (1 + blocklen len) < buf.wrap - buf.start := hin
      have hplacedEnd : (buf.place len).chunkEnd = buf.start + (buf.used + (1 + blocklen len)) := by
        refine if_neg (not_le.mpr ?_)
        show buf.used + (1 + blocklen len) < (buf.place len).wrap - buf.start
        rw [hplaced]
        exact hin
      rw [hplacedEnd]
      omega
    · have hplaced : (buf.place len).wrap = buf.wrap := by
        unfold place
        dsimp only
        rw [if_neg fun hc => by omega]
      rw [hplaced] at hin
      have hin : buf.used + (1 + blocklen len) < buf.wrap - buf.start := hin
      omega

theorem dropFirst_indices (buf : ChunkMemory) :
    (buf.dropFirst.wrap = buf.size ∨ buf.dropFirst.wrap = buf.wrap) ∧ buf.dropFirst.mtu = buf.mtu := by
  unfold dropFirst
  dsimp only
  split
  · exact ⟨.inl rfl, rfl⟩
  · exact ⟨.inr rfl, rfl⟩

theorem updateOutput_indices (buf : ChunkMemory) :
    buf.updateOutput.used = buf.used ∧ buf.updateOutput.mtu = buf.mtu := by
  unfold updateOutput
  split <;> exact ⟨rfl, rfl⟩

theorem consumePacket_indices (buf : ChunkMemory) :
    buf.consumePacket.used = buf.dropFirst.used ∧ buf.consumePacket.mtu = buf.dropFirst.mtu := by
  unfold consumePacket
  split
  · exact updateOutput_indices buf.dropFirst.updateInput
  · exact updateOutput_indices buf.dropFirst

/-- A consume does not move the end of the blocks in use. -/
theorem consumePacket_chunkEnd (h : Stored buf (b :: queue)) : buf.consumePacket.chunkEnd = buf.chunkEnd := by
  obtain ⟨-, hwrap, hstart, -⟩ := consumePacket_memory buf
  have hfirst : Holds buf.buffer buf.start b := h.holds (buf.start, b) (List.mem_cons_self ..)
  have hdrop : (buf.dropFirst.view queue).chunkEnd = (buf.view (b :: queue)).chunkEnd := by
    rw [dropFirst_view hfirst]
    exact (h.ok.toShape.dropFirst_free (List.cons_ne_nil _ _)).1
  refine Eq.trans ?_ hdrop
  unfold chunkEnd ring view ring ChunkBuffer2.chunkEnd
  dsimp only
  rw [(consumePacket_indices buf).1, hwrap, hstart]

theorem Ample.consume (ha : Ample buf (b :: queue)) (h : Stored buf (b :: queue)) : Ample buf.consumePacket queue := by
  obtain ⟨-, hwrap, hstart, hsize⟩ := consumePacket_memory buf
  obtain ⟨hused, hmtu⟩ := consumePacket_indices buf
  rw [(dropFirst_memory buf).2] at hsize
  rw [(dropFirst_indices buf).2] at hmtu
  have hfirst : Holds buf.buffer buf.start b := h.holds (buf.start, b) (List.mem_cons_self ..)
  refine ⟨?_, ?_, ?_⟩
  · rw [hwrap, hsize, hmtu]
    rcases (dropFirst_indices buf).1 with hturned | hkept
    · exact .inl hturned
    · rw [hkept]
      exact ha.wrap
  · intro x hx
    rw [hwrap, hstart, locate_dropFirst h.ok.toShape hfirst] at hx
    rw [hsize, hmtu]
    exact ha.positions x (List.mem_cons_of_mem _ hx)
  · rw [hsize, hmtu, consumePacket_chunkEnd h]
    intro _
    rcases layout h.ok.toShape with ⟨hin, -⟩ | ⟨hge, -⟩
    · exact ha.straight hin
    · -- behind the start the packets that turned back end
      have hhead : buf.mtu ≤ buf.size - buf.start - 1 := ha.positions (buf.start, b) (List.mem_cons_self ..)
      have hend : buf.chunkEnd = buf.used - (buf.wrap - buf.start) := if_pos hge
      have hle : buf.used ≤ buf.wrap := h.ok.used_le
      omega

/-- A consume leaves the offer to a writer where it is. -/
theorem consumePacket_inputDest (h : Stored buf (b :: queue)) {dest : Int} (hdest : buf.inputDest = some dest) :
    buf.consumePacket.inputDest = some dest := by
  obtain ⟨rfl, havail, hfree, -⟩ := offered h.ok hdest
  have hmore : buf.inputAvail ≤ buf.consumePacket.inputAvail := by
    have hview := h.ok.consume_inputAvail (List.cons_ne_nil _ _)
    rwa [← (consumePacket_view h).1] at hview
  obtain ⟨dest', hdest'⟩ := Option.isSome_iff_exists.mp (h.consume.ok.inputDest_isSome (by
    show 0 ≤ buf.consumePacket.inputAvail
    unfold blockSize at havail
    omega))
  have hdest' : buf.consumePacket.inputDest = some dest' := hdest'
  rw [hdest', (offered h.consume.ok hdest').1, consumePacket_chunkEnd h]

/-! ### A full ring -/

theorem total_le {n : Nat} (h : ∀ p ∈ queue, p.length ≤ n) :
    total queue ≤ (1 + (bdivideUp n blockSize : Int)) * queue.length := by
  induction queue with
  | nil => simp
  | cons b queue ih =>
    have hb : bdivideUp b.length blockSize ≤ bdivideUp n blockSize := by
      have := h b (List.mem_cons_self ..)
      unfold bdivideUp blockSize
      dsimp only
      split <;> split <;> omega
    have hrest := ih fun p hp => h p (List.mem_cons_of_mem _ hp)
    rw [total_cons, List.length_cons, Int.natCast_add, Int.mul_add]
    unfold cells
    omega

/-- Where a packet of the largest size fits before the end of the array, all free blocks but
the first are offered. -/
theorem inputAvail_eq (h : Ok (buf.view queue)) (hmtu : buf.mtu ≤ buf.size - buf.chunkEnd - 1) (hfree : 0 < buf.free) :
    buf.inputAvail = (buf.free - 1) * 4 := by
  have hin : (buf.inputDest, buf.inputAvail) = (buf.view queue).inputOffer := h.input
  have hbefore : ¬(buf.view queue).size - (buf.view queue).chunkEnd - 1 < (buf.view queue).mtu := not_lt.mpr hmtu
  have hpos : (buf.view queue).freeBlocks > 0 := hfree
  rw [inputOffer, if_neg hbefore, if_pos hpos] at hin
  exact (Prod.mk.inj hin).2

/-- The blocks in use are not offered. -/
theorem inputAvail_le (h : Ok (buf.view queue)) :
    -1 ≤ buf.inputAvail ∧ (buf.inputAvail = -1 ∨ buf.inputAvail ≤ (buf.size - buf.used - 1) * 4) := by
  have hin : (buf.inputDest, buf.inputAvail) = (buf.view queue).inputOffer := h.input
  have hwrap : buf.wrap ≤ buf.size := h.wrap
  have hstart : 0 ≤ buf.start := h.start
  by_cases hdest : buf.inputDest.isSome
  · obtain ⟨dest, hdest⟩ := Option.isSome_iff_exists.mp hdest
    obtain ⟨-, havail, hfree, -⟩ := offered h hdest
    have hunused : buf.free ≤ buf.size - buf.used := by
      unfold free chunkEnd ChunkBuffer2.chunkEnd ring
      dsimp only
      split <;> omega
    unfold blockSize at havail
    omega
  · unfold inputOffer at hin
    split_ifs at hin
    · rw [(Prod.mk.inj hin).2]
      omega
    · rw [(Prod.mk.inj hin).1] at hdest
      exact absurd rfl hdest
    · rw [(Prod.mk.inj hin).2]
      omega

/-- **A ring that offers less than a packet of the largest size holds as many packets as it
was made for.** -/
theorem Ample.full (ha : Ample buf queue) (h : Ok (buf.view queue)) {mtu n : Nat}
    (hmtu : buf.mtu = bdivideUp mtu blockSize) (hsize : buf.size = (1 + (bdivideUp mtu blockSize : Int)) * (n + 1))
    (hpackets : ∀ p ∈ queue, p.length ≤ mtu) (hfull : buf.inputAvail < mtu) : n ≤ queue.length := by
  have hshape := h.toShape
  have hused := used_eq hshape
  have hmtu0 : 0 ≤ buf.mtu := hshape.mtu
  have hblocks : mtu ≤ bdivideUp mtu blockSize * 4 := le_bdivideUp mtu
  have htotal := total_le hpackets
  rcases layout hshape with ⟨hbefore, hws, -⟩ | ⟨hge, front, back, rfl, hfront, -⟩
  · -- behind packets that did not turn back there is room
    have hroom := ha.straight hbefore
    have hfree : buf.free = buf.size - buf.chunkEnd := if_neg (not_le.mpr hbefore)
    rw [inputAvail_eq h hroom (by omega)] at hfull
    omega
  · have hlt : buf.start < buf.wrap := hshape.start_lt
    have hle : buf.used ≤ buf.wrap := hshape.used_le
    have hend : buf.chunkEnd = buf.used - (buf.wrap - buf.start) := if_pos hge
    have hfree : buf.free = buf.start - buf.chunkEnd := if_pos hge
    have hhead : buf.mtu ≤ buf.size - buf.start - 1 := by
      cases front with
      | nil =>
        rw [total_nil] at hfront
        omega
      | cons b front => exact ha.positions (buf.start, b) (List.mem_cons_self ..)
    have hused' : buf.wrap - buf.mtu ≤ buf.used := by
      by_cases hpos : 0 < buf.free
      · rw [inputAvail_eq h (by omega) hpos] at hfull
        omega
      · omega
    have hblocks' : (1 + (bdivideUp mtu blockSize : Int)) * n + 1 - bdivideUp mtu blockSize ≤
        (1 + (bdivideUp mtu blockSize : Int)) * (front ++ back).length := by
      rw [Int.mul_add, Int.mul_one] at hsize
      rcases ha.wrap with hwrap | hwrap <;> omega
    by_contra hless
    have hlen : ((front ++ back).length : Int) ≤ n - 1 := by omega
    have hmul := Int.mul_le_mul_of_nonneg_left hlen (show 0 ≤ 1 + (bdivideUp mtu blockSize : Int) by omega)
    rw [Int.mul_sub, Int.mul_one] at hmul
    omega

/-! ### Runs -/

/-- A ring for `n` packets of at most `mtu` bytes, and the packets that it holds. -/
structure MadeFor (mtu n : Nat) (buf : ChunkMemory) (queue : List (List UInt8)) : Prop where
  stored : Stored buf queue
  ample : Ample buf queue
  mtuBlocks : buf.mtu = bdivideUp mtu blockSize
  size : buf.size = (1 + (bdivideUp mtu blockSize : Int)) * (n + 1)
  packets : ∀ p ∈ queue, p.length ≤ mtu

variable {mtu n : Nat}

theorem MadeFor.room (h : MadeFor mtu n buf queue) (hfew : queue.length < n) : (mtu : Int) ≤ buf.inputAvail := by
  by_contra hfull
  have hmany := h.ample.full h.stored.ok h.mtuBlocks h.size h.packets (not_le.mp hfull)
  exact absurd hfew (not_lt.mpr hmany)

/-- The bytes at `input_dest` are written, and the first of them submitted. -/
theorem MadeFor.submit (h : MadeFor mtu n buf queue) (hsmall : (buf.size - 1) * blockSize ≤ intMax) {dest : Int}
    (hdest : buf.inputDest = some dest) {written : List UInt8} (hwritten : (written.length : Int) ≤ buf.inputAvail)
    {len : Nat} (hlen : len ≤ written.length) (hmtu : len ≤ mtu) :
    MadeFor mtu n ({buf with buffer := writeBytes buf.buffer (blockAddr dest) written}.submitPacket len)
      (queue ++ [written.take len]) := by
  let filled := {buf with buffer := writeBytes buf.buffer (blockAddr dest) written}
  have hample : Ample filled queue := ⟨h.ample.wrap, h.ample.positions, h.ample.straight⟩
  have htaken : (written.take len).length = len := List.length_take_of_le hlen
  refine ⟨h.stored.submitWritten (Int.lt_of_le_sub_one hsmall) hdest hwritten hlen, hample.submit h.stored.ok hdest htaken,
    ?_, ?_, ?_⟩
  · rw [(submitPacket_indices filled len).2]
    exact h.mtuBlocks
  · rw [(submitPacket_memory filled len).2.2.2]
    exact h.size
  · intro p hp
    rcases List.mem_append.mp hp with hp | hp
    · exact h.packets p hp
    · rw [List.mem_singleton.mp hp, htaken]
      exact hmtu

theorem MadeFor.consume (h : MadeFor mtu n buf (b :: queue)) : MadeFor mtu n buf.consumePacket queue := by
  refine ⟨h.stored.consume, h.ample.consume h.stored, ?_, ?_, fun p hp => h.packets p (List.mem_cons_of_mem _ hp)⟩
  · rw [(consumePacket_indices buf).2, (dropFirst_indices buf).2]
    exact h.mtuBlocks
  · rw [(consumePacket_memory buf).2.2.2, (dropFirst_memory buf).2]
    exact h.size

end ChunkMemory

/-- The ring of the calculated size. -/
theorem calcBlocks_eq {mtu n : Nat} (h : 0 ≤ calcBlocks mtu n) :
    calcBlocks mtu n = (1 + (bdivideUp mtu blockSize : Int)) * (n + 1) := by
  unfold calcBlocks at h ⊢
  dsimp only at h ⊢
  split_ifs at h ⊢
  · omega
  · omega
  · omega
  · rfl

namespace ChunkMemory
variable {mtu n : Nat} {buf : ChunkMemory} {queue : List (List UInt8)}

theorem madeFor_init (buffer : Memory) (hn : 0 < n) (h : 0 ≤ calcBlocks mtu n) :
    MadeFor mtu n (init buffer (calcBlocks mtu n).toNat mtu) [] := by
  have hsize := calcBlocks_eq h
  have hpos : (1 + (bdivideUp mtu blockSize : Int)) * 2 ≤ calcBlocks mtu n := by
    rw [hsize]
    exact Int.mul_le_mul_of_nonneg_left (by omega) (by omega)
  have hblocks : ((calcBlocks mtu n).toNat : Int) = calcBlocks mtu n := Int.toNat_of_nonneg h
  have hsome : (0 : Int) < (calcBlocks mtu n).toNat := by omega
  exact ⟨⟨ok_init hsome mtu, nofun⟩, ample_init buffer (by omega), rfl, hblocks.trans hsize, nofun⟩

/-- The packets of a call are not larger than what the ring was made for. -/
def Within (mtu : Nat) : ChunkEvent → Prop
  | .submit _ len => len ≤ mtu
  | .consume => True

theorem MadeFor.step (h : MadeFor mtu n buf queue) (hsmall : (buf.size - 1) * blockSize ≤ intMax) {e : ChunkEvent}
    (hwithin : Within mtu e) {buf' : ChunkMemory} (he : chunkStep buf e = some buf') :
    MadeFor mtu n buf' (fifoStep queue e) := by
  cases e with
  | submit written len =>
    simp only [chunkStep] at he
    split at he
    · cases he
    · next dest hdest =>
      obtain ⟨⟨hwritten, hlen⟩, he⟩ := Option.ite_none_right_eq_some.mp he
      cases he
      exact h.submit hsmall hdest hwritten hlen hwithin
  | consume =>
    obtain ⟨hdest, he⟩ := Option.ite_none_right_eq_some.mp he
    cases he
    obtain ⟨b, rest, rfl⟩ := List.exists_cons_of_ne_nil (h.stored.outputDest_isSome.mp hdest)
    exact h.consume

theorem MadeFor.run {es : List ChunkEvent} {buf' : ChunkMemory} (h : MadeFor mtu n buf queue)
    (hsmall : (buf.size - 1) * blockSize ≤ intMax) (hwithin : ∀ e ∈ es, Within mtu e)
    (hrun : Run.run chunkStep buf es = some buf') : MadeFor mtu n buf' (es.foldl fifoStep queue) := by
  induction es generalizing buf queue with
  | nil =>
    cases hrun
    exact h
  | cons e rest ih =>
    obtain ⟨buf₁, he, hrest⟩ := Run.run_cons hrun
    have hstep := h.step hsmall (hwithin e (List.mem_cons_self ..)) he
    exact ih hstep (by rw [chunkStep_size he]; exact hsmall) (fun e' he' => hwithin e' (List.mem_cons_of_mem _ he')) hrest

end ChunkMemory

end TwilightLine.ChunkBuffer2
