import TwilightLine.Misc.Ipaddr6Forms

/-! What the steps of the parser of IPv6 addresses do.

`Reached` says what the variables mean: the bytes before a `::`, if there was one, those after
it, and the digits of the block that is not written yet. There is one lemma for each step, and one for
the end, where the blocks are moved apart. -/
namespace TwilightLine.Ipaddr6

open Lib

/-! ### The variables -/

/-- The bytes `front` are before a `::`, or there was none, and after it the bytes `rear` and the digits `g`. -/
structure Reached (m₀ : Memory) (s : Parse) (front : Option (List UInt8)) (rear g : List UInt8) : Prop where
  bytes : readBytes s.m 0 (front.getD [] ++ rear).length = front.getD [] ++ rear
  frame : ∀ i, i < 0 ∨ 16 ≤ i → s.m i = m₀ i
  numBlocks : 2 * s.numBlocks = (front.getD [] ++ rear).length
  compressPos : 2 * s.compressPos = front.elim (-2) fun f => (f.length : Int)
  block : HexDigits g s.block
  empty : s.empty = g.isEmpty

/-- The parser ends and writes only the address, of which the result holds. -/
def Ends (m₀ : Memory) (r : Option (Memory × Bool)) (holds : Bool → List UInt8 → Prop) : Prop :=
  ∃ m ok, r = some (m, ok) ∧ (∀ i, i < 0 ∨ 16 ≤ i → m i = m₀ i) ∧ holds ok (readBytes m 0 16)

variable {m₀ : Memory} {s : Parse} {front : Option (List UInt8)} {rear g : List UInt8} {v : UInt16} {c : UInt8}

theorem reached_start (m₀ : Memory) : Reached m₀ ⟨m₀, 0, -1, 0, true⟩ none [] [] :=
  ⟨rfl, fun _ _ => rfl, rfl, rfl, .nil, rfl⟩

/-- There was a `::` if its position is known. -/
theorem Reached.compressPos_eq (h : Reached m₀ s front rear g) : s.compressPos = -1 ↔ front = none := by
  have := h.compressPos
  cases front with
  | none =>
    rw [Option.elim_none] at this
    exact ⟨fun _ => rfl, fun _ => by omega⟩
  | some f =>
    rw [Option.elim_some] at this
    exact ⟨fun _ => by omega, nofun⟩

/-- The bytes of a block are written together. -/
theorem storeBlock_eq (s : Parse) :
    storeBlock s = {s with m := writeBytes s.m (2 * s.numBlocks) (blockBytes s.block), numBlocks := s.numBlocks + 1} := by
  have hbytes : blockBytes s.block = [(s.block >>> 8).toUInt8] ++ [(s.block &&& 0xFF).toUInt8] := rfl
  rw [hbytes, writeBytes_append, storeBlock, Int.add_zero]
  rfl

/-- Bytes that are written after the others. -/
theorem Reached.write {data : List UInt8} {k : Int} (h : Reached m₀ s front rear g) (hk : 2 * k = data.length)
    (hlen : (front.getD [] ++ rear).length + data.length ≤ 16) :
    Reached m₀ {s with m := writeBytes s.m (2 * s.numBlocks) data, numBlocks := s.numBlocks + k} front (rear ++ data) g := by
  have hnum := h.numBlocks
  refine ⟨?_, fun i hi => ?_, ?_, h.compressPos, h.block, h.empty⟩
  · have hread := readBytes_writeBytes_append s.m 0 (front.getD [] ++ rear).length data
    rw [h.bytes, Int.zero_add, ← hnum, ← List.length_append, List.append_assoc] at hread
    exact hread
  · rw [← h.frame i hi]
    rcases hi with hi | hi
    · exact writeBytes_of_lt (by omega)
    · exact writeBytes_of_ge (by omega)
  · rw [← List.append_assoc, List.length_append]
    push_cast
    show 2 * (s.numBlocks + k) = _
    omega

/-- The block is written, and the next one is begun. -/
theorem Reached.store (h : Reached m₀ s front rear g) (hlen : (front.getD [] ++ rear).length ≤ 14) :
    Reached m₀ (storeBlock s) front (rear ++ blockBytes s.block) g := by
  rw [storeBlock_eq]
  exact h.write rfl (by rw [blockBytes_length]; omega)

theorem Reached.clear (h : Reached m₀ s front rear g) : Reached m₀ {s with block := 0, empty := true} front rear [] :=
  ⟨h.bytes, h.frame, h.numBlocks, h.compressPos, .nil, rfl⟩

/-! ### The end -/

theorem memmove_eq {m : Memory} {dest src size : Int} (h : 0 ≤ size) :
    memmove m dest src size = some (writeBytes m dest (readBytes m src size.toNat)) := if_pos h

theorem memset_eq {m : Memory} {dest size : Int} (h : 0 ≤ size) :
    memset m dest c size = some (writeBytes m dest (List.replicate size.toNat c)) := if_pos h

/-- The blocks after the `::` are moved to the end, and those between are cleared. -/
theorem moveApart {m : Memory} {f r : List UInt8} (hbytes : readBytes m 0 (f ++ r).length = f ++ r)
    (hlen : f.length + r.length ≤ 16) :
    let m := writeBytes m (16 - r.length) (readBytes m f.length r.length)
    let m := writeBytes m f.length (List.replicate (16 - f.length - r.length) 0)
    readBytes m 0 16 = f ++ List.replicate (16 - f.length - r.length) 0 ++ r := by
  have hf : readBytes m 0 f.length = f := by
    rw [← readBytes_take m 0 (n := (f ++ r).length) (by rw [List.length_append]; omega), hbytes, List.take_left]
  have hr : readBytes m f.length r.length = r := by
    have hdrop := readBytes_drop m 0 (n := (f ++ r).length) (k := f.length) (by rw [List.length_append]; omega)
    rw [hbytes, List.drop_left, List.length_append, Nat.add_sub_cancel_left, Int.zero_add] at hdrop
    exact hdrop.symm
  dsimp only
  generalize hz : List.replicate (16 - f.length - r.length) (0 : UInt8) = z
  have hzlen : z.length = 16 - f.length - r.length := by rw [← hz, List.length_replicate]
  have hsum : 16 = f.length + z.length + r.length := by omega
  rw [hr]
  have hlow : readBytes (writeBytes (writeBytes m (16 - r.length) r) f.length z) 0 (f.length + z.length) = f ++ z := by
    have := readBytes_writeBytes_append (writeBytes m (16 - r.length) r) 0 f.length z
    rw [Int.zero_add] at this
    rw [this, readBytes_writeBytes_disjoint (.inl (by omega)), hf]
  have hhigh : readBytes (writeBytes (writeBytes m (16 - r.length) r) f.length z) (16 - r.length) r.length = r := by
    rw [readBytes_writeBytes_disjoint (.inr (by omega)), readBytes_writeBytes]
  have hpos : (0 : Int) + (f.length + z.length : Nat) = 16 - r.length := by omega
  rw [hsum, readBytes_add, hlow, hpos, hhigh]

theorem Reached.done_none (h : Reached m₀ s none rear g) (hlen : rear.length ≠ 16) : ipv4Done s = some (s.m, false) := by
  have hnum := h.numBlocks
  rw [Option.getD_none, List.nil_append] at hnum
  exact if_pos ⟨h.compressPos_eq.mpr rfl, by omega⟩

/-- The address is complete: there are zeros for the `::`. -/
theorem Reached.done (h : Reached m₀ s front rear g) (hlen : (front.getD [] ++ rear).length ≤ 16)
    (hfull : front = none → rear.length = 16) :
    ∃ m, ipv4Done s = some (m, true) ∧ (∀ i, i < 0 ∨ 16 ≤ i → m i = m₀ i) ∧
      readBytes m 0 16 = front.getD [] ++ List.replicate (16 - (front.getD []).length - rear.length) 0 ++ rear := by
  have hnum := h.numBlocks
  rw [List.length_append] at hnum hlen
  have hpos : ∀ pos, pos = (if s.compressPos = -1 then 0 else s.compressPos) → 2 * pos = ((front.getD []).length : Int) := by
    rintro _ rfl
    cases front with
    | none => rw [if_pos (h.compressPos_eq.mpr rfl)]; rfl
    | some f =>
      rw [if_neg (fun hnone => nomatch h.compressPos_eq.mp hnone)]
      exact h.compressPos
  have hall : ¬(s.compressPos = -1 ∧ s.numBlocks ≠ 8) := by
    rintro ⟨hnone, hne⟩
    obtain rfl := h.compressPos_eq.mp hnone
    have := hfull rfl
    rw [Option.getD_none, List.length_nil] at hnum
    omega
  rw [ipv4Done, if_neg hall]
  dsimp only
  generalize hcompress : (if s.compressPos = -1 then 0 else s.compressPos) = pos
  have hpos := hpos pos hcompress.symm
  have hrear : 2 * (s.numBlocks - pos) = (rear.length : Int) := by omega
  have hmoved : 2 * (8 - (s.numBlocks - pos)) = 16 - (rear.length : Int) := by omega
  have hzeros : 2 * (8 - (s.numBlocks - pos) - pos) = ((16 - (front.getD []).length - rear.length : Nat) : Int) := by omega
  rw [memmove_eq (by omega), Option.bind_some, memset_eq (by omega), hpos, hrear, hmoved, hzeros]
  refine ⟨_, rfl, fun i hi => ?_, moveApart h.bytes hlen⟩
  rw [Int.toNat_natCast, Int.toNat_natCast, ← h.frame i hi]
  rcases hi with hi | hi
  · rw [writeBytes_of_lt (by omega), writeBytes_of_lt (by omega)]
  · rw [writeBytes_of_ge (by rw [List.length_replicate]; omega), writeBytes_of_ge (by rw [readBytes_length]; omega)]

/-! ### One character -/

theorem HexDigits.concat {d : Nat} (h : HexDigits g s.block) (hc : decodeHexDigit c = some d)
    (hv : v.toNat = 16 * s.block.toNat + d) : HexDigits (g ++ [c]) v := by
  refine ⟨fun x hx => ?_, ?_⟩
  · rcases List.mem_append.mp hx with hx | hx
    · exact h.digits x hx
    · rw [List.mem_singleton.mp hx, hc]
      rfl
  · rw [hexValue, Numeral.value_concat, hv, hc, Option.getD_some]
    exact congrArg (16 * · + d) h.value

theorem Reached.digit {d : Nat} (h : Reached m₀ s front rear g) (hc : decodeHexDigit c = some d)
    (hv : v.toNat = 16 * s.block.toNat + d) : Reached m₀ {s with block := v, empty := false} front rear (g ++ [c]) :=
  ⟨h.bytes, h.frame, h.numBlocks, h.compressPos, h.block.concat hc hv, by simp⟩

/-- A digit is taken if the block does not become too large. -/
theorem hexDigit_ok {d : Nat} (hc : decodeHexDigit c = some d) (hfit : 16 * s.block.toNat + d = v.toNat) :
    hexDigit s c = .ok {s with block := v, empty := false} := by
  have hv := v.toNat_lt
  have hd := decodeHexDigit_lt hc
  have hmul : (s.block * 16).toNat = 16 * s.block.toNat := by
    rw [UInt16.toNat_mul]
    show s.block.toNat * 16 % 65536 = _
    omega
  have hadd : s.block * 16 + UInt16.ofNat d = v := by
    rw [← UInt16.toNat_inj, UInt16.toNat_add, UInt16.toNat_ofNat', hmul, ← hfit]
    omega
  rw [hexDigit, hc]
  dsimp only
  rw [if_neg (by omega), if_neg (by omega), hadd]

theorem hexDigit_cases (s : Parse) (c : UInt8) :
    hexDigit s c = .error s.m ∨
      ∃ d v, decodeHexDigit c = some d ∧ v.toNat = 16 * s.block.toNat + d ∧ hexDigit s c = .ok {s with block := v, empty := false} := by
  cases hc : decodeHexDigit c with
  | none => exact .inl (by rw [hexDigit, hc])
  | some d =>
    have hd := decodeHexDigit_lt hc
    by_cases hlarge : s.block.toNat > 65535 / 16
    · exact .inl (by rw [hexDigit, hc]; exact if_pos hlarge)
    · have hv : (UInt16.ofNat (16 * s.block.toNat + d)).toNat = 16 * s.block.toNat + d := by
        rw [UInt16.toNat_ofNat']
        omega
      exact .inr ⟨d, _, rfl, hv, hexDigit_ok hc hv.symm⟩

theorem Reached.group (h : Reached m₀ s front rear g) (hg : s.empty = false) : HexGroup g s.block := by
  refine ⟨h.block, ?_⟩
  rintro rfl
  rw [h.empty] at hg
  cases hg

/-- The digits up to a colon are a block, which is written. -/
theorem colon_ok {i : Nat} (hi : 0 < i) (hg : s.empty = false) (hnum : s.numBlocks ≠ 7) :
    colon s i false = .ok {storeBlock s with block := 0, empty := true} := by
  rw [colon, if_pos hi, if_neg (by simp [hg, hnum])]
  rfl

/-- At two colons the position is kept. -/
theorem colon_double_ok {i : Nat} (hi : 0 < i) (hg : s.empty = false) (hnum : s.numBlocks ≠ 7) (hnone : s.compressPos = -1) :
    colon s i true = .ok {storeBlock s with block := 0, empty := true, compressPos := s.numBlocks + 1} := by
  rw [colon, if_pos hi, if_neg (by simp [hg, hnum])]
  exact if_neg (not_not.mpr hnone)

theorem colon_double_start (h : s.compressPos = -1) : colon s 0 true = .ok {s with compressPos := s.numBlocks} := by
  exact if_neg (not_not.mpr h)

/-- There is no `::` yet, and now one follows the blocks. -/
theorem Reached.mark (h : Reached m₀ s none rear g) {pos : Int} (hpos : pos = s.numBlocks) :
    Reached m₀ {s with compressPos := pos} (some rear) [] g := by
  subst hpos
  have hnil : (some rear).getD [] ++ [] = none.getD [] ++ rear := List.append_nil _
  refine ⟨?_, h.frame, ?_, h.numBlocks, h.block, h.empty⟩
  · rw [hnil]
    exact h.bytes
  · rw [hnil]
    exact h.numBlocks

theorem Reached.length_le_of_ne (h : Reached m₀ s front rear g) (hlen : (front.getD [] ++ rear).length ≤ 14) (hnum : s.numBlocks ≠ 7) :
    (front.getD [] ++ rear ++ blockBytes s.block).length ≤ 14 := by
  have := h.numBlocks
  rw [List.length_append, blockBytes_length]
  omega

/-- A colon is an error, or there was a block before it. -/
theorem colon_cases (h : Reached m₀ s front rear g) (hlen : (front.getD [] ++ rear).length ≤ 14) (i : Nat) :
    colon s i false = .error s.m ∨
      0 < i ∧ HexGroup g s.block ∧ (front.getD [] ++ (rear ++ blockBytes s.block)).length ≤ 14 ∧
        ∃ s', colon s i false = .ok s' ∧ Reached m₀ s' front (rear ++ blockBytes s.block) [] := by
  rcases Nat.eq_zero_or_pos i with rfl | hi
  · exact .inl rfl
  by_cases hbad : s.empty ∨ s.numBlocks = 7
  · exact .inl (by rw [colon, if_pos hi, if_pos hbad]; rfl)
  obtain ⟨hg, hnum⟩ := not_or.mp hbad
  rw [Bool.not_eq_true] at hg
  refine .inr ⟨hi, h.group hg, ?_, _, colon_ok hi hg hnum, (h.store hlen).clear⟩
  rw [← List.append_assoc]
  exact h.length_le_of_ne hlen hnum

/-- Two colons are an error, or the first ones, and there was a block before them or nothing. -/
theorem colon_double_cases (h : Reached m₀ s front rear g) (hlen : (front.getD [] ++ rear).length ≤ 14) (i : Nat) :
    (∃ m, colon s i true = .error m ∧ ∀ i, i < 0 ∨ 16 ≤ i → m i = m₀ i) ∨
      front = none ∧
        (i = 0 ∧ (∃ s', colon s i true = .ok s' ∧ Reached m₀ s' (some rear) [] g) ∨
          0 < i ∧ HexGroup g s.block ∧ (rear ++ blockBytes s.block).length ≤ 14 ∧
            ∃ s', colon s i true = .ok s' ∧ Reached m₀ s' (some (rear ++ blockBytes s.block)) [] []) := by
  rcases Nat.eq_zero_or_pos i with rfl | hi
  · by_cases hnone : s.compressPos = -1
    · obtain rfl := h.compressPos_eq.mp hnone
      exact .inr ⟨rfl, .inl ⟨rfl, _, colon_double_start hnone, h.mark rfl⟩⟩
    · exact .inl ⟨s.m, if_pos hnone, h.frame⟩
  by_cases hbad : s.empty ∨ s.numBlocks = 7
  · exact .inl ⟨s.m, by rw [colon, if_pos hi, if_pos hbad]; rfl, h.frame⟩
  obtain ⟨hg, hnum⟩ := not_or.mp hbad
  rw [Bool.not_eq_true] at hg
  by_cases hnone : s.compressPos = -1
  · obtain rfl := h.compressPos_eq.mp hnone
    refine .inr ⟨rfl, .inr ⟨hi, h.group hg, h.length_le_of_ne hlen hnum, _, colon_double_ok hi hg hnum hnone, ?_⟩⟩
    exact (h.store hlen).clear.mark rfl
  · refine .inl ⟨_, ?_, (h.store hlen).frame⟩
    rw [colon, if_pos hi, if_neg hbad]
    exact if_pos hnone

end TwilightLine.Ipaddr6
