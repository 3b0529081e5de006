import TwilightLine.Misc.ByteOrder
import TwilightLine.Misc.Ipaddr6Parse

/-! A printed IPv6 address is parsed back.

The search for the longest run of zeros only matters for its length and its place: the blocks
that it finds are zeros (`Run`), which is what the `::` says. What is printed then is a text form
of the address, and fits the buffer with its terminator. -/
namespace TwilightLine.Ipaddr6

open Lib

variable {m₀ : Memory} {o : Memory × Int} {text part : List UInt8} {addr : Vector UInt8 16} {z : Zeros} {v : UInt16} {n : Nat}

/-! ### The blocks -/

/-- The bytes of a block are those of the address. -/
theorem blockBytes_blockOf (addr : Vector UInt8 16) (i : Nat) :
    blockBytes (blockOf addr i) = [addr.toList.getD (2 * i) 0, addr.toList.getD (2 * i + 1) 0] := by
  have hbytes := le16_readLe16 (addr.toList.getD (2 * i + 1) 0) (addr.toList.getD (2 * i) 0)
  obtain ⟨hlow, hhigh⟩ := List.cons_eq_cons.mp hbytes
  have hmask : (blockOf addr i &&& 0xFF).toUInt8 = (blockOf addr i).toUInt8 := by
    rw [← UInt8.toNat_inj, UInt16.toNat_toUInt8, UInt16.toNat_toUInt8, UInt16.toNat_and]
    exact congrArg (· % 2 ^ 8) (Nat.and_two_pow_sub_one_eq_mod _ 8) |>.trans (Nat.mod_mod ..)
  rw [blockBytes, hmask, show (blockOf addr i).toUInt8 = _ from hlow]
  exact congrArg (· :: _) (List.cons_eq_cons.mp hhigh).1

/-- The bytes of blocks. -/
def blocksBytes (addr : Vector UInt8 16) (l : List Nat) : List UInt8 := l.flatMap fun i => blockBytes (blockOf addr i)

/-- Bytes, two by two. -/
theorem flatMap_pairs {l : List UInt8} (h : l.length = 2 * n) :
    (List.range n).flatMap (fun i => [l.getD (2 * i) 0, l.getD (2 * i + 1) 0]) = l := by
  induction n generalizing l with
  | zero => exact (List.length_eq_zero_iff.mp h).symm
  | succ n ih =>
    cases l with
    | nil => cases h
    | cons a l =>
      cases l with
      | nil => exact absurd h (by rw [List.length_singleton]; omega)
      | cons b l =>
        have hlen : l.length = 2 * n := by
          rw [List.length_cons, List.length_cons] at h
          omega
        rw [List.range_succ_eq_map, List.flatMap_cons, List.flatMap_map]
        exact congrArg (a :: b :: ·) (ih hlen)

theorem blocksBytes_range (addr : Vector UInt8 16) : blocksBytes addr (List.range 8) = addr.toList := by
  have hblocks : (fun i => blockBytes (blockOf addr i)) = fun i => [addr.toList.getD (2 * i) 0, addr.toList.getD (2 * i + 1) 0] := by
    funext i
    exact blockBytes_blockOf addr i
  rw [blocksBytes, hblocks]
  exact flatMap_pairs addr.length_toList

theorem blocksBytes_append (addr : Vector UInt8 16) (l l' : List Nat) :
    blocksBytes addr (l ++ l') = blocksBytes addr l ++ blocksBytes addr l' := List.flatMap_append

theorem blocksBytes_length (addr : Vector UInt8 16) (l : List Nat) : (blocksBytes addr l).length = 2 * l.length := by
  induction l with
  | nil => rfl
  | cons i l ih =>
    rw [blocksBytes, List.flatMap_cons, List.length_append, blockBytes_length, List.length_cons]
    exact (congrArg (2 + ·) ih).trans (by omega)

/-! ### The run of zeros -/

/-- The blocks from one on, so many of them, are zeros. -/
def Run (addr : Vector UInt8 16) (start len : Nat) : Prop := ∀ i, start ≤ i → i < start + len → blockBytes (blockOf addr i) = [0, 0]

/-- What the search has found among the first blocks. -/
structure Searched (addr : Vector UInt8 16) (n : Nat) (z : Zeros) : Prop where
  largest : Run addr z.largestStart z.largestLen
  inside : z.largestStart + z.largestLen ≤ n
  current : Run addr z.currentStart z.currentLen
  ends : z.currentStart + z.currentLen = n

theorem Searched.next (h : Searched addr n z) : Searched addr (n + 1) (findZeros addr z n) := by
  obtain ⟨hlargest, hinside, hcurrent, hends⟩ := h
  rw [findZeros]
  split
  · next hzero =>
    have hrun : Run addr z.currentStart (z.currentLen + 1) := by
      intro i hi hi'
      rcases Nat.lt_or_ge i n with hlt | hge
      · exact hcurrent i hi (by omega)
      · obtain rfl : i = n := by omega
        rw [blockBytes_blockOf, hzero.1, hzero.2]
    have hcount : z.currentStart + (z.currentLen + 1) = n + 1 := by omega
    dsimp only
    split
    · exact ⟨hrun, hcount.le, hrun, hcount⟩
    · exact ⟨hlargest, Nat.le_succ_of_le hinside, hrun, hcount⟩
  · exact ⟨hlargest, Nat.le_succ_of_le hinside, fun i hi hi' => absurd hi' (Nat.not_lt_of_le hi), rfl⟩

/-- **What the search finds are zeros.** -/
theorem searched (addr : Vector UInt8 16) (n : Nat) : Searched addr n ((List.range n).foldl (findZeros addr) ⟨0, 0, 0, 0⟩) := by
  induction n with
  | zero => exact ⟨nofun, Nat.le_refl 0, nofun, rfl⟩
  | succ n ih =>
    rw [List.range_succ, List.foldl_append]
    exact ih.next

/-- The blocks of a run, as bytes. -/
theorem Run.bytes {start len : Nat} (h : Run addr start len) :
    blocksBytes addr ((List.range len).map (start + ·)) = List.replicate (2 * len) 0 := by
  induction len with
  | zero => rfl
  | succ len ih =>
    have hlast : blockBytes (blockOf addr (start + len)) = [0, 0] := h _ (Nat.le_add_right ..) (by omega)
    have hfirst : Run addr start len := fun i hi hi' => h i hi (by omega)
    rw [List.range_succ, List.map_append, blocksBytes_append, ih hfirst, List.map_singleton, blocksBytes, List.flatMap_singleton, hlast,
      Nat.mul_succ, List.replicate_add]
    rfl

/-- The blocks are those before the run, the run and those after it. -/
theorem range_split {start len : Nat} (h : start + len ≤ 8) :
    List.range 8 = List.range start ++ (List.range len).map (start + ·) ++ (List.range 8).drop (start + len) := by
  rw [← List.range_add]
  have htake := List.take_append_drop (start + len) (List.range 8)
  rw [List.take_range, Nat.min_eq_left h] at htake
  exact htake.symm

/-! ### The text -/

def blockText (addr : Vector UInt8 16) (i : Nat) : List UInt8 := printNumber 16 (blockOf addr i).toNat

theorem hexDigit_digitCode : ∀ d < 16, decodeHexDigit (digitCode d) = some d ∧ digitCode d ≠ 0 := by decide

/-- A block is printed as a group. -/
theorem blockText_group (addr : Vector UInt8 16) (i : Nat) : HexGroup (blockText addr i) (blockOf addr i) := by
  refine ⟨⟨fun c hc => ?_, ?_⟩, printNumber_ne_nil 16 _⟩
  · obtain ⟨d, hd, rfl⟩ := mem_printNumber (by decide) hc
    rw [(hexDigit_digitCode d hd).1]
    rfl
  · refine value_printNumber (by decide) (fun d hd => ?_) _
    rw [(hexDigit_digitCode d hd).1]
    rfl

theorem blockText_length (addr : Vector UInt8 16) (i : Nat) : (blockText addr i).length ≤ 4 :=
  printNumber_length_le (by decide) (by decide) (blockOf addr i).toNat_lt

theorem blockText_ne_zero (addr : Vector UInt8 16) (i : Nat) : 0 ∉ blockText addr i := by
  intro hmem
  obtain ⟨d, hd, hzero⟩ := mem_printNumber (by decide) hmem
  exact (hexDigit_digitCode d hd).2 hzero.symm

/-- Blocks, with a colon in front of each. -/
def rearText (addr : Vector UInt8 16) (l : List Nat) : List UInt8 := l.flatMap fun i => 58 :: blockText addr i

/-- Blocks, with a colon after each. -/
def frontText (addr : Vector UInt8 16) (l : List Nat) : List UInt8 := l.flatMap fun i => blockText addr i ++ [58]

theorem groups_rearText (quad : Bool) (i : Nat) (l : List Nat) :
    Groups HexGroup quad (blockText addr i ++ rearText addr l) (blocksBytes addr (i :: l)) := by
  induction l generalizing i with
  | nil =>
    rw [rearText, List.flatMap_nil, List.append_nil, blocksBytes, List.flatMap_singleton]
    exact .single (.inl ⟨_, blockText_group addr i, rfl⟩)
  | cons j l ih =>
    rw [rearText, List.flatMap_cons, List.cons_append, blocksBytes, List.flatMap_cons]
    exact .cons ⟨_, blockText_group addr i, rfl⟩ (ih j)

theorem frontText_cons (i : Nat) (l : List Nat) : frontText addr (i :: l) = blockText addr i ++ rearText addr l ++ [58] := by
  induction l generalizing i with
  | nil =>
    rw [frontText, List.flatMap_singleton, rearText, List.flatMap_nil, List.append_nil]
  | cons j l ih =>
    have hrear : rearText addr (j :: l) = 58 :: (blockText addr j ++ rearText addr l) := List.cons_append ..
    rw [frontText, List.flatMap_cons, ← frontText, ih, hrear]
    simp

/-- The blocks before a `::`, with its first colon. -/
theorem frontText_form (addr : Vector UInt8 16) (l : List Nat) (p : Prop) [Decidable p] (hp : p ↔ l = []) :
    ∃ u, frontText addr l ++ (if p then [58] else []) = u ++ [58] ∧ MaybeGroups HexGroup false u (blocksBytes addr l) := by
  cases l with
  | nil => exact ⟨[], by rw [if_pos (hp.mpr rfl)]; rfl, .inl ⟨rfl, rfl⟩⟩
  | cons i l =>
    refine ⟨_, ?_, .inr (groups_rearText false i l)⟩
    rw [if_neg (fun h => nomatch hp.mp h), List.append_nil, frontText_cons]

/-- The blocks after it, with the second one. -/
theorem rearText_form (addr : Vector UInt8 16) (l : List Nat) (p : Prop) [Decidable p] (hp : p ↔ l = []) :
    ∃ t, rearText addr l ++ (if p then [58] else []) = 58 :: t ∧ MaybeGroups HexGroup true t (blocksBytes addr l) := by
  cases l with
  | nil => exact ⟨[], by rw [if_pos (hp.mpr rfl)]; rfl, .inl ⟨rfl, rfl⟩⟩
  | cons i l =>
    refine ⟨_, ?_, .inr (groups_rearText true i l)⟩
    rw [if_neg (fun h => nomatch hp.mp h), List.append_nil]
    rfl

theorem rearText_length (addr : Vector UInt8 16) (l : List Nat) : (rearText addr l).length ≤ 5 * l.length := by
  induction l with
  | nil => exact Nat.le_refl 0
  | cons i l ih =>
    have hblock := blockText_length addr i
    rw [rearText, List.flatMap_cons, ← rearText, List.length_append, List.length_cons, List.length_cons]
    omega

theorem frontText_length (addr : Vector UInt8 16) (l : List Nat) : (frontText addr l).length ≤ 5 * l.length := by
  cases l with
  | nil => exact Nat.le_refl 0
  | cons i l =>
    have hblock := blockText_length addr i
    have hrear := rearText_length addr l
    rw [frontText_cons, List.length_append, List.length_append, List.length_singleton, List.length_cons]
    omega

theorem rearText_ne_zero (addr : Vector UInt8 16) (l : List Nat) : 0 ∉ rearText addr l := by
  intro hmem
  obtain ⟨i, -, hi⟩ := List.mem_flatMap.mp hmem
  rcases List.mem_cons.mp hi with h | h
  · cases h
  · exact blockText_ne_zero addr i h

theorem frontText_ne_zero (addr : Vector UInt8 16) (l : List Nat) : 0 ∉ frontText addr l := by
  cases l with
  | nil => exact List.not_mem_nil
  | cons i l =>
    rw [frontText_cons, List.mem_append, List.mem_append, not_or, not_or]
    exact ⟨⟨blockText_ne_zero addr i, rearText_ne_zero addr l⟩, by decide⟩

/-! ### The buffer -/

/-- The text is in the buffer, with the terminator, and the position is after it. -/
structure Printed (m₀ : Memory) (o : Memory × Int) (text : List UInt8) : Prop where
  position : o.2 = text.length
  bytes : text = [] ∨ readBytes o.1 0 (text.length + 1) = text ++ [0]
  frame : ∀ i, i < 0 ∨ text.length < i → o.1 i = m₀ i

theorem Printed.read (h : Printed m₀ o text) : readBytes o.1 0 text.length = text := by
  rcases h.bytes with rfl | hbytes
  · rfl
  · rw [← readBytes_take o.1 0 (Nat.le_succ _), hbytes, List.take_left]

theorem Printed.sprintf (h : Printed m₀ o text) (part : List UInt8) : Printed m₀ (sprintf o part) (text ++ part) := by
  have hposition := h.position
  refine ⟨?_, .inr ?_, fun i hi => ?_⟩
  · rw [Ipaddr6.sprintf, hposition, List.length_append, Int.natCast_add]
  · have hread := readBytes_writeBytes_append o.1 0 text.length (part ++ [0])
    rw [h.read, Int.zero_add, ← hposition, List.length_append, List.length_singleton, ← Nat.add_assoc, ← List.append_assoc,
      ← List.length_append] at hread
    exact hread
  · rw [List.length_append] at hi
    rw [← h.frame i (by omega)]
    rcases hi with hi | hi
    · exact writeBytes_of_lt (by omega)
    · exact writeBytes_of_ge (by rw [List.length_append, List.length_singleton]; omega)

theorem Printed.foldl (h : Printed m₀ o text) (f : Nat → List UInt8) (l : List Nat) :
    Printed m₀ (l.foldl (fun o i => Ipaddr6.sprintf o (f i)) o) (text ++ l.flatMap f) := by
  induction l generalizing o text with
  | nil => rwa [List.flatMap_nil, List.append_nil]
  | cons i l ih =>
    rw [List.flatMap_cons, ← List.append_assoc]
    exact ih (h.sprintf (f i))

theorem Printed.ite (h : Printed m₀ o text) (p : Prop) [Decidable p] (part : List UInt8) :
    Printed m₀ (if p then Ipaddr6.sprintf o part else o) (text ++ if p then part else []) := by
  split
  · exact h.sprintf part
  · rwa [List.append_nil]

/-- The prefix is a colon from the second block on. -/
theorem foldl_colons (addr : Vector UInt8 16) (o : Memory × Int) (l : List Nat) :
    (l.foldl (fun (o : (Memory × Int) × List UInt8) i =>
      (sprintf o.1 (o.2 ++ printNumber 16 (blockOf addr i).toNat), [58])) (o, [58])).1 =
      l.foldl (fun o i => sprintf o (58 :: printNumber 16 (blockOf addr i).toNat)) o := by
  induction l generalizing o with
  | nil => rfl
  | cons i l ih => exact ih _

theorem printed_start (m : Memory) : Printed m (m, 0) [] := ⟨rfl, .inl rfl, fun _ _ => rfl⟩

/-- What is printed is a text form of the address, and so long. -/
structure Prints (addr : Vector UInt8 16) (text : List UInt8) : Prop where
  form : TextForm HexGroup text addr.toList
  length_le : text.length ≤ 39
  not_ended : 0 ∉ text

theorem colon_length (p : Prop) [Decidable p] : (if p then [58] else [] : List UInt8).length ≤ 1 := by
  split <;> decide

theorem colon_ne_zero (p : Prop) [Decidable p] : 0 ∉ (if p then [58] else [] : List UInt8) := by
  split <;> decide

/-- A run of zeros becomes a `::`. -/
theorem prints_compressed {start len : Nat} (hrun : Run addr start len) (hlen : 1 < len) (hinside : start + len ≤ 8) :
    Prints addr (frontText addr (List.range start) ++ (if start = 0 then [58] else []) ++
      rearText addr ((List.range 8).drop (start + len)) ++ if start + len = 8 then [58] else []) := by
  have hfront : start = 0 ↔ List.range start = [] := List.range_eq_nil.symm
  have hrear : start + len = 8 ↔ (List.range 8).drop (start + len) = [] := by
    rw [List.drop_eq_nil_iff, List.length_range]
    omega
  obtain ⟨u, hu, hu'⟩ := frontText_form addr _ (start = 0) hfront
  obtain ⟨t, ht, ht'⟩ := rearText_form addr _ (start + len = 8) hrear
  have hfrontlen := frontText_length addr (List.range start)
  have hrearlen := rearText_length addr ((List.range 8).drop (start + len))
  rw [List.length_range] at hfrontlen
  rw [List.length_drop, List.length_range] at hrearlen
  refine ⟨?_, ?_, ?_⟩
  · have hbytes : addr.toList = blocksBytes addr (List.range start) ++ List.replicate (2 * len) 0 ++
        blocksBytes addr ((List.range 8).drop (start + len)) :=
      calc addr.toList = blocksBytes addr (List.range 8) := (blocksBytes_range addr).symm
        _ = blocksBytes addr (List.range start ++ (List.range len).map (start + ·) ++ (List.range 8).drop (start + len)) :=
          congrArg _ (range_split hinside)
        _ = _ := by rw [blocksBytes_append, blocksBytes_append, hrun.bytes]
    have hzeros : 2 * len = 16 - (blocksBytes addr (List.range start)).length -
        (blocksBytes addr ((List.range 8).drop (start + len))).length := by
      rw [blocksBytes_length, blocksBytes_length, List.length_range, List.length_drop, List.length_range]
      omega
    rw [List.append_assoc _ (rearText _ _), hu, ht, List.append_assoc, List.singleton_append, hbytes, hzeros]
    exact .compressed hu' ht' (by omega)
  · have hcolon₁ := colon_length (start = 0)
    have hcolon₂ := colon_length (start + len = 8)
    rw [List.length_append, List.length_append, List.length_append]
    omega
  · rw [List.mem_append, List.mem_append, List.mem_append, not_or, not_or, not_or]
    exact ⟨⟨⟨frontText_ne_zero addr _, colon_ne_zero _⟩, rearText_ne_zero addr _⟩, colon_ne_zero _⟩

/-- Without one each block is printed. -/
theorem prints_full (addr : Vector UInt8 16) :
    Prints addr (blockText addr 0 ++ rearText addr ((List.range 7).map Nat.succ)) := by
  have hblock := blockText_length addr 0
  have hrear := rearText_length addr ((List.range 7).map Nat.succ)
  rw [List.length_map, List.length_range] at hrear
  refine ⟨.full ?_ addr.length_toList, ?_, ?_⟩
  · rw [← blocksBytes_range, List.range_succ_eq_map]
    exact groups_rearText true 0 _
  · rw [List.length_append]
    omega
  · rw [List.mem_append, not_or]
    exact ⟨blockText_ne_zero addr 0, rearText_ne_zero addr _⟩

/-- The buffer holds such a text. -/
theorem printAddr_printed (addr : Vector UInt8 16) (m : Memory) :
    ∃ o text, printAddr addr m = o.1 ∧ Printed m o text ∧ Prints addr text := by
  have hstart := printed_start m
  have hsearch := searched addr 8
  rw [printAddr]
  generalize (List.range 8).foldl (findZeros addr) ⟨0, 0, 0, 0⟩ = z at hsearch
  dsimp only
  split
  · next hlen =>
    have hfront := (hstart.foldl (fun i => blockText addr i ++ [58]) (List.range z.largestStart)).ite (z.largestStart = 0) [58]
    have hrear := (hfront.foldl (fun i => 58 :: blockText addr i) ((List.range 8).drop (z.largestStart + z.largestLen))).ite
      (z.largestStart + z.largestLen = 8) [58]
    exact ⟨_, _, rfl, hrear, prints_compressed hsearch.largest hlen hsearch.inside⟩
  · have hrest := (hstart.sprintf (blockText addr 0)).foldl (fun i => 58 :: blockText addr i) ((List.range 7).map Nat.succ)
    refine ⟨_, _, ?_, hrest, prints_full addr⟩
    rw [List.range_succ_eq_map, List.foldl_cons]
    exact congrArg Prod.fst (foldl_colons addr _ _)

/-- **A printed address fits the buffer, with its terminator, and is parsed back.** -/
theorem print_addr_parsed (addr : Vector UInt8 16) (m : Memory) :
    ∃ text, text.length + 1 ≤ ipaddr6PrintMax ∧ 0 ∉ text ∧ readBytes (printAddr addr m) 0 (text.length + 1) = text ++ [0] ∧
      (∀ i, i < 0 ∨ ipaddr6PrintMax ≤ i → printAddr addr m i = m i) ∧
      ∀ mem, ∃ mem', parseIpv6Addr text mem = some (mem', true) ∧ readBytes mem' 0 16 = addr.toList := by
  obtain ⟨o, text, ho, hprinted, hprints⟩ := printAddr_printed addr m
  have hlen := hprints.length_le
  have hmax : ipaddr6PrintMax = 44 := rfl
  rw [ho, hmax]
  refine ⟨text, by omega, hprints.not_ended, ?_, fun i hi => hprinted.frame i (by omega), fun mem => parse_complete hprints.form mem⟩
  rcases hprinted.bytes with rfl | hbytes
  · -- nothing is no text form
    obtain ⟨m', hparse, -⟩ := parse_complete hprints.form m
    rw [show parseIpv6Addr [] m = some (m, false) from rfl] at hparse
    cases hparse
  · exact hbytes

end TwilightLine.Ipaddr6
