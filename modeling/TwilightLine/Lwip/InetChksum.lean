import TwilightLine.Misc.UdpChecksum

/-! The Internet checksum of lwIP, `core/inet_chksum.c`.

A packet is a chain of buffers, cut anywhere and each at an even or an odd address.
The code adds 16-bit words as the little-endian machine reads them, aligned to the
address, and exchanges the two bytes of the running sum where a buffer starts at an
odd position of the packet or an odd address. `inetChksumPseudo_eq` and
`ip6ChksumPseudo_eq` say that none of this can be seen from outside: the checksum is
the one of the concatenated bytes, taken a big-endian word at a time. -/
namespace TwilightLine.InetChksum

open OnesComplement

/-! ### The code -/

/-- `FOLD_U32T`. -/
def foldU32T (u : UInt32) : UInt32 := (u >>> 16) + (u &&& 0x0000ffff)

/-- `SWAP_BYTES_IN_WORD`. -/
def swapBytesInWord (w : UInt32) : UInt32 := ((w &&& 0xff) <<< 8) ||| ((w &&& 0xff00) >>> 8)

/-- The loop on `ps`: the sum of the words, and the byte left over. -/
def sumWords (sum : UInt32) : List UInt8 → UInt32 × Option UInt8
  | p₀ :: p₁ :: rest => sumWords (sum + (readLe16 p₀ p₁).toUInt32) rest
  | [p] => (sum, some p)
  | [] => (sum, none)

/-- `lwip_standard_chksum` (version 2); `odd` is the low bit of the address of the data. -/
def lwipStandardChksum (odd : Bool) (data : List UInt8) : UInt16 :=
  -- `t` holds the byte before the first aligned word and the one after the last.
  let t₁ := if odd then data.headD 0 else 0
  let (sum, left) := sumWords 0 (if odd then data.tail else data)
  let t := readLe16 (left.getD 0) t₁
  let sum := sum + t.toUInt32
  let sum := foldU32T sum
  let sum := foldU32T sum
  let sum := if odd then swapBytesInWord sum else sum
  sum.toUInt16

/-- `inet_chksum`. -/
def inetChksum (odd : Bool) (data : List UInt8) : UInt16 := ~~~(lwipStandardChksum odd data)

/-- A buffer of a chain: its data, and the low bit of the address of the data. -/
structure Pbuf where
  odd : Bool
  payload : List UInt8
  deriving DecidableEq, Repr

/-- The loop over a chain, as `inet_chksum_pbuf` and `inet_cksum_pseudo_base` have it. -/
def sumChain (acc : UInt32) (swapped : Bool) : List Pbuf → UInt32 × Bool
  | [] => (acc, swapped)
  | q :: rest =>
    let acc := acc + (lwipStandardChksum q.odd q.payload).toUInt32
    let acc := foldU32T acc
    if q.payload.length % 2 ≠ 0 then sumChain (swapBytesInWord acc) (!swapped) rest
    else sumChain acc swapped rest

/-- `inet_chksum_pbuf`. -/
def inetChksumPbuf (p : List Pbuf) : UInt16 :=
  let (acc, swapped) := sumChain 0 false p
  let acc := if swapped then swapBytesInWord acc else acc
  ~~~(acc &&& 0xffff).toUInt16

/-- `inet_cksum_pseudo_base`. -/
def inetCksumPseudoBase (p : List Pbuf) (proto : UInt8) (protoLen : UInt16) (acc : UInt32) : UInt16 :=
  let (acc, swapped) := sumChain acc false p
  let acc := if swapped then swapBytesInWord acc else acc
  let acc := acc + (hton16 proto.toUInt16).toUInt32
  let acc := acc + (hton16 protoLen).toUInt32
  let acc := foldU32T acc
  let acc := foldU32T acc
  ~~~(acc &&& 0xffff).toUInt16

/-- The two halves of each word of an address, added up. -/
def sumAddr (acc addr : UInt32) : UInt32 :=
  let acc := acc + (addr &&& (0xffff : UInt32))
  acc + ((addr >>> 16) &&& (0xffff : UInt32))

/-- `inet_chksum_pseudo`. The addresses are in network order. -/
def inetChksumPseudo (p : List Pbuf) (proto : UInt8) (protoLen : UInt16) (src dest : UInt32) : UInt16 :=
  let acc := sumAddr (sumAddr 0 src) dest
  let acc := foldU32T acc
  let acc := foldU32T acc
  inetCksumPseudoBase p proto protoLen acc

/-- `ip6_chksum_pseudo`: an address is four words in network order. -/
def ip6ChksumPseudo (p : List Pbuf) (proto : UInt8) (protoLen : UInt16) (src dest : Vector UInt32 4) : UInt16 :=
  let acc := (src.zip dest).toList.foldl (fun acc addr => sumAddr (sumAddr acc addr.1) addr.2) 0
  let acc := foldU32T acc
  let acc := foldU32T acc
  inetCksumPseudoBase p proto protoLen acc

/-! ### The weight of a message

Up to multiples of 65535 a sum of 16-bit words is the number whose base-256 digits
are the bytes, lowest first. -/

/-- The number with the given bytes, lowest first. -/
def weight : List UInt8 → Nat
  | [] => 0
  | p :: rest => p.toNat + 256 * weight rest

theorem twice_like (t : Nat) : Like 65536 (256 * (256 * t)) t := mul_mul_like (d := 256) (by decide) t

theorem weight_append (a b : List UInt8) :
    Like 65536 (weight (a ++ b)) (weight a + if a.length % 2 = 0 then weight b else 256 * weight b) := by
  induction a with
  | nil => simpa [weight] using like_refl (b := 65536) (weight b)
  | cons p rest ih =>
    have hmul := ih.mul 256
    rw [Nat.mul_add] at hmul
    simp only [List.cons_append, weight, List.length_cons, Nat.add_assoc]
    refine (like_refl _).add (hmul.trans ((like_refl _).add ?_))
    by_cases heven : rest.length % 2 = 0
    · rw [if_pos heven, if_neg (by omega)]
      exact like_refl _
    · rw [if_neg heven, if_pos (by omega)]
      exact twice_like (weight b)

/-- The words of a message in network order weigh 256 times as much. -/
theorem beWords_weight (data : List UInt8) : Like 65536 (beWords data).sum (256 * weight data) := by
  induction data using beWords.induct with
  | case1 p₀ p₁ rest ih =>
    have htwice := (twice_like (p₁.toNat)).symm
    have hrest := (twice_like (256 * weight rest)).symm
    simp only [beWords, List.sum_cons, weight]
    have hsplit : 256 * (p₀.toNat + 256 * (p₁.toNat + 256 * weight rest)) =
        p₀.toNat * 256 + 256 * (256 * p₁.toNat) + 256 * (256 * (256 * weight rest)) := by omega
    rw [hsplit]
    exact ((like_refl _).add htwice).add (ih.trans hrest)
  | case2 p =>
    simp only [beWords, List.sum_cons, List.sum_nil, weight, Nat.add_zero, Nat.mul_zero]
    rw [Nat.mul_comm]
    exact like_refl _
  | case3 => exact like_refl _

/-! ### The sum of one buffer -/

theorem foldU32T_toNat (u : UInt32) : (foldU32T u).toNat = carry 65536 u.toNat := by
  have hu := u.toNat_lt
  rw [foldU32T, UInt32.toNat_add, UInt32.toNat_shiftRight, UInt32.toNat_and,
    show UInt32.toNat 16 % 32 = 16 from rfl, Nat.shiftRight_eq_div_pow,
    show UInt32.toNat 0x0000ffff = 2 ^ 16 - 1 from rfl, Nat.and_two_pow_sub_one_eq_mod]
  simp only [carry]
  omega

/-- Below two digits' worth one round of the carry is the residue. -/
theorem foldU32T_eq_residue {u : UInt32} (hu : u.toNat ≤ 131070) : (foldU32T u).toNat = residue 65536 u.toNat := by
  have hlt : carry 65536 u.toNat < 65536 := by
    simp only [carry]
    omega
  rw [foldU32T_toNat, ← residue_of_lt hlt, residue_carry (by decide)]

/-- Two rounds always are. -/
theorem foldU32T_twice (u : UInt32) : (foldU32T (foldU32T u)).toNat = residue 65536 u.toNat := by
  have hu := u.toNat_lt
  have hle : (foldU32T u).toNat ≤ 131070 := by
    rw [foldU32T_toNat]
    simp only [carry]
    omega
  rw [foldU32T_eq_residue hle, foldU32T_toNat, residue_carry (by decide)]

theorem swapBytesInWord_toNat {w : UInt32} (hw : w.toNat < 65536) : (swapBytesInWord w).toNat = swap 256 w.toNat := by
  have hlow : ((w &&& (0xff : UInt32)) <<< 8).toNat = (w.toNat % 256) <<< 8 := by
    rw [UInt32.toNat_shiftLeft, UInt32.toNat_and, show UInt32.toNat 0xff = 2 ^ 8 - 1 from rfl,
      Nat.and_two_pow_sub_one_eq_mod, show UInt32.toNat 8 % 32 = 8 from rfl, Nat.shiftLeft_eq]
    omega
  have hhigh : ((w &&& (0xff00 : UInt32)) >>> 8).toNat = w.toNat / 256 := by
    rw [UInt32.toNat_shiftRight, UInt32.toNat_and, show UInt32.toNat 8 % 32 = 8 from rfl,
      Nat.shiftRight_and_distrib, Nat.shiftRight_eq_div_pow, show UInt32.toNat 0xff00 >>> 8 = 2 ^ 8 - 1 from rfl,
      Nat.and_two_pow_sub_one_eq_mod]
    omega
  rw [swapBytesInWord, UInt32.toNat_or, hlow, hhigh, ← Nat.shiftLeft_add_eq_or_of_lt (by omega), Nat.shiftLeft_eq,
    swap]
  omega

/-- Every word added so far and the byte left over, by weight. -/
theorem sumWords_spec (data : List UInt8) (sum : UInt32) (hfit : sum.toNat + 65535 * (data.length / 2) < 2 ^ 32) :
    (sumWords sum data).1.toNat ≤ sum.toNat + 65535 * (data.length / 2) ∧
      Like 65536 ((sumWords sum data).1.toNat + ((sumWords sum data).2.getD 0).toNat) (sum.toNat + weight data) := by
  induction data using beWords.induct generalizing sum with
  | case1 p₀ p₁ rest ih =>
    have h₀ := p₀.toNat_lt
    have h₁ := p₁.toNat_lt
    have hhalf : (p₀ :: p₁ :: rest).length / 2 = rest.length / 2 + 1 := by
      simp only [List.length_cons]
      omega
    rw [hhalf] at hfit ⊢
    have hword : (sum + (readLe16 p₀ p₁).toUInt32).toNat = sum.toNat + (p₁.toNat * 256 + p₀.toNat) := by
      rw [UInt32.toNat_add, UInt16.toNat_toUInt32, readLe16_toNat, Nat.mod_eq_of_lt (by omega)]
    obtain ⟨hle, hlike⟩ := ih (sum + (readLe16 p₀ p₁).toUInt32) (by omega)
    rw [hword] at hle hlike
    rw [sumWords]
    refine ⟨by omega, hlike.trans ?_⟩
    have htwice := (like_refl (b := 65536) (sum.toNat + p₀.toNat + 256 * p₁.toNat)).add (twice_like (weight rest)).symm
    have hweight : sum.toNat + weight (p₀ :: p₁ :: rest) =
        sum.toNat + p₀.toNat + 256 * p₁.toNat + 256 * (256 * weight rest) := by
      simp only [weight]
      omega
    rw [hweight]
    refine Like.trans ?_ htwice
    rw [show sum.toNat + (p₁.toNat * 256 + p₀.toNat) + weight rest =
      sum.toNat + p₀.toNat + 256 * p₁.toNat + weight rest by omega]
    exact like_refl _
  | case2 p =>
    simp only [sumWords, weight, Option.getD_some, List.length_singleton]
    exact ⟨by omega, like_refl _⟩
  | case3 =>
    simp only [sumWords, weight, Option.getD_none, List.length_nil]
    exact ⟨by omega, like_refl _⟩

/-- The words of a buffer and its end bytes, folded. -/
theorem folded_toNat (first : UInt8) (data : List UInt8) (hlen : data.length ≤ 0x20000) :
    (foldU32T (foldU32T ((sumWords 0 data).1 +
      (readLe16 ((sumWords 0 data).2.getD 0) first).toUInt32))).toNat = residue 65536 (256 * first.toNat + weight data) := by
  have hfirst := first.toNat_lt
  have hleft := ((sumWords 0 data).2.getD 0).toNat_lt
  obtain ⟨hle, hlike⟩ := sumWords_spec data 0 (by rw [UInt32.toNat_zero]; omega)
  rw [UInt32.toNat_zero, Nat.zero_add] at hle hlike
  rw [foldU32T_twice, UInt32.toNat_add, UInt16.toNat_toUInt32, readLe16_toNat, Nat.mod_eq_of_lt (by omega)]
  apply Like.residue_eq
  have hsum := (like_refl (256 * first.toNat)).add hlike
  rwa [show (sumWords 0 data).1.toNat + (first.toNat * 256 + ((sumWords 0 data).2.getD 0).toNat) =
    256 * first.toNat + ((sumWords 0 data).1.toNat + ((sumWords 0 data).2.getD 0).toNat) by omega]

theorem toUInt16_of_residue {u : UInt32} {t : Nat} (h : u.toNat = residue 65536 t) :
    u.toUInt16.toNat = residue 65536 t := by
  rw [UInt32.toNat_toUInt16, h]
  exact Nat.mod_eq_of_lt (residue_lt (by decide) t)

theorem swapBytesInWord_residue {u : UInt32} {t : Nat} (h : u.toNat = residue 65536 t) :
    (swapBytesInWord u).toNat = residue 65536 (256 * t) := by
  rw [swapBytesInWord_toNat (by rw [h]; exact residue_lt (by decide) t), h]
  exact swap_residue (d := 256) (by decide) t

/-- **A buffer's sum, at whatever address it lies.** -/
theorem lwipStandardChksum_toNat (odd : Bool) (data : List UInt8) (hlen : data.length ≤ 0x20000) :
    (lwipStandardChksum odd data).toNat = residue 65536 (weight data) := by
  cases odd with
  | false =>
    apply toUInt16_of_residue
    have hfold := folded_toNat 0 data hlen
    rwa [show 256 * UInt8.toNat 0 + weight data = weight data by simp] at hfold
  | true =>
    cases data with
    | nil => decide
    | cons first rest =>
      rw [List.length_cons] at hlen
      apply toUInt16_of_residue
      refine (swapBytesInWord_residue (folded_toNat first rest (by omega))).trans (Like.residue_eq ?_)
      rw [Nat.mul_add, weight]
      exact (twice_like _).add (like_refl _)

/-! ### A chain of buffers -/

/-- The bytes of a chain. -/
def bytes (p : List Pbuf) : List UInt8 := p.flatMap Pbuf.payload

/-- What a message weighs that starts at an even or, `swapped`, at an odd position. -/
def weightAt (swapped : Bool) (t : Nat) : Nat := if swapped then 256 * t else t

theorem weightAt_like (swapped : Bool) {s t : Nat} (h : Like 65536 s t) :
    Like 65536 (weightAt swapped s) (weightAt swapped t) := by
  cases swapped with
  | false => exact h
  | true => exact h.mul 256

theorem weightAt_add (swapped : Bool) (s t : Nat) : weightAt swapped (s + t) = weightAt swapped s + weightAt swapped t := by
  cases swapped with
  | false => rfl
  | true => exact Nat.mul_add ..

/-- Moving twice by an odd distance is moving by an even one. -/
theorem weightAt_weightAt (swapped swapped' : Bool) (t : Nat) :
    Like 65536 (weightAt swapped (weightAt swapped' t)) (weightAt (swapped ^^ swapped') t) := by
  cases swapped with
  | false => cases swapped' <;> exact like_refl _
  | true =>
    cases swapped' with
    | false => exact like_refl _
    | true => exact twice_like t

theorem weight_append_at (a b : List UInt8) :
    Like 65536 (weight (a ++ b)) (weight a + weightAt (a.length % 2 ≠ 0) (weight b)) := by
  have h := weight_append a b
  simp only [weightAt, decide_not, Bool.not_eq_true', decide_eq_false_iff_not, ite_not]
  exact h

theorem exchanged_toNat {acc : UInt32} {t : Nat} (swapped : Bool) (h : acc.toNat = residue 65536 t) :
    (if swapped then swapBytesInWord acc else acc).toNat = residue 65536 (weightAt swapped t) := by
  cases swapped with
  | false => exact h
  | true => exact swapBytesInWord_residue h

/-- One buffer of the chain. -/
theorem sumBuffer_toNat (q : Pbuf) (hlen : q.payload.length < 65536) {acc : UInt32} {t : Nat}
    (hacc : acc.toNat = residue 65536 t) :
    (foldU32T (acc + (lwipStandardChksum q.odd q.payload).toUInt32)).toNat = residue 65536 (t + weight q.payload) := by
  have hchk := lwipStandardChksum_toNat q.odd q.payload (by omega)
  have hlt := residue_lt (b := 65536) (by decide) t
  have hlt' := residue_lt (b := 65536) (by decide) (weight q.payload)
  have hadd : (acc + (lwipStandardChksum q.odd q.payload).toUInt32).toNat =
      residue 65536 t + residue 65536 (weight q.payload) := by
    rw [UInt32.toNat_add, UInt16.toNat_toUInt32, hchk, hacc, Nat.mod_eq_of_lt (by omega)]
  rw [foldU32T_eq_residue (by omega), hadd]
  exact ((like_residue t).add (like_residue _)).residue_eq

/-- **The running sum after a chain, exchanged back where needed.** -/
theorem sumChain_toNat (p : List Pbuf) (hlen : ∀ q ∈ p, q.payload.length < 65536) {acc : UInt32} {swapped : Bool}
    {t : Nat} (hacc : acc.toNat = residue 65536 (weightAt swapped t)) :
    (if (sumChain acc swapped p).2 then swapBytesInWord (sumChain acc swapped p).1
      else (sumChain acc swapped p).1).toNat = residue 65536 (t + weightAt swapped (weight (bytes p))) := by
  induction p generalizing acc swapped t with
  | nil =>
    rw [sumChain, exchanged_toNat swapped hacc]
    have hself := weightAt_weightAt swapped swapped t
    rw [Bool.xor_self] at hself
    rw [show weight (bytes []) = 0 from rfl, show weightAt swapped 0 = 0 by cases swapped <;> rfl]
    exact hself.residue_eq
  | cons q rest ih =>
    have hq := sumBuffer_toNat q (hlen q (List.mem_cons_self ..)) hacc
    have hrest : ∀ q' ∈ rest, q'.payload.length < 65536 := fun q' hq' => hlen q' (List.mem_cons_of_mem _ hq')
    -- What was summed, counted from the start of the packet.
    have hself := weightAt_weightAt swapped swapped (weight q.payload)
    rw [Bool.xor_self] at hself
    have hsum : Like 65536 (weightAt swapped t + weight q.payload)
        (weightAt swapped (t + weightAt swapped (weight q.payload))) := by
      rw [weightAt_add]
      exact (like_refl _).add hself.symm
    have hbytes := weightAt_like swapped (weight_append_at q.payload (bytes rest))
    rw [weightAt_add] at hbytes
    have htotal := ((like_refl t).add (hbytes.trans ((like_refl _).add
      (weightAt_weightAt swapped (decide (q.payload.length % 2 ≠ 0)) (weight (bytes rest)))))).symm
    rw [← Nat.add_assoc] at htotal
    rw [show bytes (q :: rest) = q.payload ++ bytes rest from rfl, ← htotal.residue_eq]
    by_cases hodd : q.payload.length % 2 ≠ 0
    · rw [sumChain, if_pos hodd, decide_eq_true hodd, Bool.xor_true]
      refine ih hrest ((swapBytesInWord_residue hq).trans (Like.residue_eq ?_))
      exact (weightAt_like true hsum).trans (by simpa using weightAt_weightAt true swapped _)
    · rw [sumChain, if_neg hodd, decide_eq_false hodd, Bool.xor_false]
      exact ih hrest (hq.trans hsum.residue_eq)

/-! ### The checksum and the standard -/

/-- The complement of the one's complement sum of a message, in network order. -/
def checksumOf (message : List UInt8) : UInt16 := hton16 (UInt16.ofNat (65535 - onesSum 65536 (beWords message)))

theorem hton16_toNat (x : UInt16) : (hton16 x).toNat = swap 256 x.toNat := by
  have hx := x.toNat_lt
  have hhigh := byte16_toNat x 8 (by decide)
  rw [show UInt16.toNat 8 = 8 from rfl] at hhigh
  rw [hton16, badvpnReverse16, readLe16_toNat, UInt16.toNat_toUInt8, hhigh, swap]
  omega

/-- **The standard's checksum, by weight.** -/
theorem checksumOf_toNat (message : List UInt8) :
    (checksumOf message).toNat = 65535 - residue 65536 (weight message) := by
  have hlt := residue_lt (b := 65536) (by decide) (weight message)
  have hsum : onesSum 65536 (beWords message) = swap 256 (residue 65536 (weight message)) := by
    rw [onesSum_eq_residue (by decide) _ (beWords_lt message), (beWords_weight message).residue_eq]
    exact (swap_residue (d := 256) (by decide) _).symm
  have hswap := swap_lt (d := 256) (by decide) hlt
  rw [checksumOf, hton16_toNat, UInt16.toNat_ofNat', hsum, Nat.mod_eq_of_lt (by omega)]
  rw [swap_complement (d := 256) (by decide) hswap, swap_swap (by decide) hlt]

theorem complement_toNat {acc : UInt32} {t : Nat} (h : acc.toNat = residue 65536 t) :
    (~~~(acc &&& 0xffff).toUInt16).toNat = 65535 - residue 65536 t := by
  have hlt := residue_lt (b := 65536) (by decide) t
  rw [UInt16.toNat_not, UInt32.toNat_toUInt16, UInt32.toNat_and, show UInt32.toNat 0xffff = 2 ^ 16 - 1 from rfl,
    Nat.and_two_pow_sub_one_eq_mod, h, show UInt16.size = 65536 from rfl]
  omega

theorem weight_le16 (x : UInt16) : weight (le16 x) = x.toNat := by
  have hx := x.toNat_lt
  have hhigh := byte16_toNat x 8 (by decide)
  rw [show UInt16.toNat 8 = 8 from rfl] at hhigh
  simp only [le16, weight, UInt16.toNat_toUInt8, hhigh]
  omega

theorem weight_le32 (x : UInt32) : weight (le32 x) = x.toNat := by
  have hx := x.toNat_lt
  have h₁ := byte32_toNat x 8 (by decide)
  have h₂ := byte32_toNat x 16 (by decide)
  have h₃ := byte32_toNat x 24 (by decide)
  rw [show UInt32.toNat 8 = 8 from rfl] at h₁
  rw [show UInt32.toNat 16 = 16 from rfl] at h₂
  rw [show UInt32.toNat 24 = 24 from rfl] at h₃
  simp only [le32, weight, UInt32.toNat_toUInt8, h₁, h₂, h₃]
  omega

/-- `inet_chksum` is the standard's checksum. -/
theorem inetChksum_eq (odd : Bool) (data : List UInt8) (hlen : data.length ≤ 0x20000) :
    inetChksum odd data = checksumOf data := by
  apply UInt16.toNat.inj
  rw [checksumOf_toNat, inetChksum, UInt16.toNat_not, lwipStandardChksum_toNat odd data hlen]
  rfl

theorem inetChksumPbuf_eq (p : List Pbuf) (hlen : ∀ q ∈ p, q.payload.length < 65536) :
    inetChksumPbuf p = checksumOf (bytes p) := by
  have hsum := sumChain_toNat p hlen (show (0 : UInt32).toNat = residue 65536 (weightAt false 0) from rfl)
  rw [Nat.zero_add] at hsum
  apply UInt16.toNat.inj
  rw [checksumOf_toNat]
  exact complement_toNat hsum

/-! ### Pseudo-headers -/

/-- The addresses of a segment, in network order; `ip_addr_t` with its type. -/
inductive IpAddrs
  | v4 (src dest : UInt32)
  | v6 (src dest : Vector UInt32 4)
  deriving DecidableEq, Repr

/-- `ip_chksum_pseudo`. -/
def ipChksumPseudo (p : List Pbuf) (proto : UInt8) (protoLen : UInt16) : IpAddrs → UInt16
  | .v6 src dest => ip6ChksumPseudo p proto protoLen src dest
  | .v4 src dest => inetChksumPseudo p proto protoLen src dest

/-- What the standards put before a segment: the addresses, the protocol and the length. -/
def pseudoHeader (proto : UInt8) (protoLen : UInt16) : IpAddrs → List UInt8
  | .v4 src dest => le32 src ++ le32 dest ++ [0, proto] ++ le16 (hton16 protoLen)
  | .v6 src dest =>
    src.toList.flatMap le32 ++ dest.toList.flatMap le32 ++ ([0, 0] ++ le16 (hton16 protoLen)) ++ [0, 0, 0, proto]

theorem weight_append_even (a b : List UInt8) (heven : a.length % 2 = 0) :
    Like 65536 (weight (a ++ b)) (weight a + weight b) := by
  have h := weight_append a b
  rwa [if_pos heven] at h

theorem sumAddr_toNat {acc addr : UInt32} (hfit : acc.toNat + 131070 < 2 ^ 32) :
    (sumAddr acc addr).toNat ≤ acc.toNat + 131070 ∧ Like 65536 (sumAddr acc addr).toNat (acc.toNat + weight (le32 addr)) := by
  have haddr := addr.toNat_lt
  have hval : (sumAddr acc addr).toNat = acc.toNat + (addr.toNat % 65536 + addr.toNat / 65536) := by
    rw [sumAddr, UInt32.toNat_add, UInt32.toNat_add, UInt32.toNat_and, UInt32.toNat_and, UInt32.toNat_shiftRight,
      show UInt32.toNat 16 % 32 = 16 from rfl, Nat.shiftRight_eq_div_pow,
      show UInt32.toNat 0xffff = 2 ^ 16 - 1 from rfl, Nat.and_two_pow_sub_one_eq_mod, Nat.and_two_pow_sub_one_eq_mod,
      Nat.mod_eq_of_lt (a := addr.toNat / 2 ^ 16) (by omega), Nat.mod_eq_of_lt (a := acc.toNat + _) (by omega),
      Nat.mod_eq_of_lt (by omega), Nat.add_assoc]
  constructor
  · omega
  · rw [hval, weight_le32]
    exact (like_refl _).add (carry_like (by decide) addr.toNat)

/-- The protocol and the length, added in network order after the chain. -/
theorem inetCksumPseudoBase_toNat (p : List Pbuf) (hlen : ∀ q ∈ p, q.payload.length < 65536) (proto : UInt8)
    (protoLen : UInt16) {acc : UInt32} {t : Nat} (hacc : acc.toNat = residue 65536 t) :
    (inetCksumPseudoBase p proto protoLen acc).toNat =
      65535 - residue 65536 (t + (256 * proto.toNat + (hton16 protoLen).toNat) + weight (bytes p)) := by
  have hproto := proto.toNat_lt
  have hprotoLen := (hton16 protoLen).toNat_lt
  have hsum := sumChain_toNat p hlen (show acc.toNat = residue 65536 (weightAt false t) from hacc)
  have hlt := residue_lt (b := 65536) (by decide) (t + weight (bytes p))
  have hprotoNat : (hton16 proto.toUInt16).toNat = 256 * proto.toNat := by
    rw [hton16_toNat, UInt8.toNat_toUInt16, swap]
    omega
  refine complement_toNat ((foldU32T_twice _).trans ?_)
  rw [UInt32.toNat_add, UInt32.toNat_add, UInt16.toNat_toUInt32, UInt16.toNat_toUInt32, hprotoNat, hsum]
  simp only [weightAt, Bool.false_eq_true, if_false]
  rw [Nat.mod_eq_of_lt (a := residue 65536 _ + _) (by omega), Nat.mod_eq_of_lt (by omega)]
  apply Like.residue_eq
  have hadd := ((like_residue (b := 65536) (t + weight (bytes p))).add (like_refl (256 * proto.toNat))).add
    (like_refl (hton16 protoLen).toNat)
  rwa [show t + (256 * proto.toNat + (hton16 protoLen).toNat) + weight (bytes p) =
    t + weight (bytes p) + 256 * proto.toNat + (hton16 protoLen).toNat by omega]

/-- The address words, added up from both ends at once. -/
theorem sumAddrs_toNat (addrs : List (UInt32 × UInt32)) (acc : UInt32)
    (hfit : acc.toNat + 262140 * addrs.length < 2 ^ 32) :
    Like 65536 (addrs.foldl (fun acc addr => sumAddr (sumAddr acc addr.1) addr.2) acc).toNat
      (acc.toNat + weight ((addrs.map Prod.fst).flatMap le32) + weight ((addrs.map Prod.snd).flatMap le32)) := by
  induction addrs generalizing acc with
  | nil => exact like_refl _
  | cons addr rest ih =>
    rw [List.length_cons, Nat.mul_succ, ← Nat.add_assoc] at hfit
    have hfirst : acc.toNat + 131070 < 2 ^ 32 := by omega
    obtain ⟨hle, hlike⟩ := @sumAddr_toNat acc addr.1 hfirst
    obtain ⟨hle', hlike'⟩ := @sumAddr_toNat (sumAddr acc addr.1) addr.2 (by omega)
    have hfst := weight_append_even (le32 addr.1) ((rest.map Prod.fst).flatMap le32) (by simp)
    have hsnd := weight_append_even (le32 addr.2) ((rest.map Prod.snd).flatMap le32) (by simp)
    have hrest := ih (sumAddr (sumAddr acc addr.1) addr.2) (by omega)
    have hacc := hlike'.trans (hlike.add (like_refl (weight (le32 addr.2))))
    have htotal := (((like_refl (b := 65536) acc.toNat).add hfst).add hsnd).symm
    rw [List.foldl_cons, List.map_cons, List.map_cons, List.flatMap_cons, List.flatMap_cons]
    refine hrest.trans (Like.trans ?_ htotal)
    have hsum := (hacc.add (like_refl (weight ((rest.map Prod.fst).flatMap le32)))).add
      (like_refl (weight ((rest.map Prod.snd).flatMap le32)))
    rwa [show acc.toNat + (weight (le32 addr.1) + weight ((rest.map Prod.fst).flatMap le32)) +
        (weight (le32 addr.2) + weight ((rest.map Prod.snd).flatMap le32)) =
      acc.toNat + weight (le32 addr.1) + weight (le32 addr.2) + weight ((rest.map Prod.fst).flatMap le32) +
        weight ((rest.map Prod.snd).flatMap le32) by omega]

theorem flatMap_le32_length (addr : List UInt32) : (addr.flatMap le32).length = 4 * addr.length := by
  induction addr with
  | nil => rfl
  | cons x rest ih =>
    rw [List.flatMap_cons, List.length_append, ih, le32_length, List.length_cons]
    omega

/-- A checksum that code and standard compute over messages of like weight is the same. -/
theorem eq_checksumOf {c : UInt16} {t : Nat} {message : List UInt8} (hc : c.toNat = 65535 - residue 65536 t)
    (hlike : Like 65536 (weight message) t) : c = checksumOf message := by
  apply UInt16.toNat.inj
  rw [hc, checksumOf_toNat, hlike.residue_eq]

theorem weight_protocol (proto : UInt8) (protoLen : UInt16) (data : List UInt8) :
    Like 65536 (weight (([0, proto] ++ le16 (hton16 protoLen)) ++ data))
      (256 * proto.toNat + (hton16 protoLen).toNat + weight data) := by
  refine (weight_append_even _ data (by simp)).trans (Like.add ?_ (like_refl _))
  have h := weight_append_even [0, proto] (le16 (hton16 protoLen)) (by simp)
  rw [weight_le16] at h
  simpa [weight] using h

/-- The addresses come first in the message and in the sum. -/
theorem weight_addressed {addrs data : List UInt8} {t u : Nat} (heven : addrs.length % 2 = 0)
    (haddrs : Like 65536 t (weight addrs)) (hdata : Like 65536 (weight data) u) :
    Like 65536 (weight (addrs ++ data)) (t + u) :=
  (weight_append_even addrs data heven).trans (haddrs.symm.add hdata)

/-- IPv4: the checksum of a segment, however its bytes are spread over buffers. -/
theorem inetChksumPseudo_eq (p : List Pbuf) (hlen : ∀ q ∈ p, q.payload.length < 65536) (proto : UInt8)
    (protoLen : UInt16) (src dest : UInt32) :
    inetChksumPseudo p proto protoLen src dest = checksumOf (pseudoHeader proto protoLen (.v4 src dest) ++ bytes p) := by
  have haddrs := sumAddrs_toNat [(src, dest)] 0 (by simp)
  have happend := weight_append_even (le32 src) (le32 dest) (by simp)
  simp only [List.foldl_cons, List.foldl_nil, List.map_cons, List.map_nil, List.flatMap_cons, List.flatMap_nil,
    List.append_nil, UInt32.toNat_zero, Nat.zero_add] at haddrs
  refine eq_checksumOf (inetCksumPseudoBase_toNat p hlen proto protoLen (foldU32T_twice _)) ?_
  rw [pseudoHeader, List.append_assoc (le32 src ++ le32 dest), List.append_assoc (le32 src ++ le32 dest), Nat.add_assoc]
  exact weight_addressed (by simp) (haddrs.trans happend.symm) (weight_protocol proto protoLen (bytes p))

/-- IPv6: the length and the next header lie the other way round, in words of their own. -/
theorem ip6ChksumPseudo_eq (p : List Pbuf) (hlen : ∀ q ∈ p, q.payload.length < 65536) (proto : UInt8)
    (protoLen : UInt16) (src dest : Vector UInt32 4) :
    ip6ChksumPseudo p proto protoLen src dest = checksumOf (pseudoHeader proto protoLen (.v6 src dest) ++ bytes p) := by
  have haddrs := sumAddrs_toNat (src.zip dest).toList 0 (by simp)
  have hfst : (src.zip dest).toList.map Prod.fst = src.toList := by
    rw [Vector.toList_zip, List.map_fst_zip (by simp)]
  have hsnd : (src.zip dest).toList.map Prod.snd = dest.toList := by
    rw [Vector.toList_zip, List.map_snd_zip (by simp)]
  have happend := weight_append_even (src.toList.flatMap le32) (dest.toList.flatMap le32)
    (by rw [flatMap_le32_length]; omega)
  rw [hfst, hsnd, UInt32.toNat_zero, Nat.zero_add] at haddrs
  have htail : Like 65536 (weight (([0, 0] ++ le16 (hton16 protoLen) ++ [0, 0, 0, proto]) ++ bytes p))
      (256 * proto.toNat + (hton16 protoLen).toNat + weight (bytes p)) := by
    refine (weight_append_even _ _ (by simp)).trans (Like.add ?_ (like_refl _))
    have h := weight_append_even ([0, 0] ++ le16 (hton16 protoLen)) [0, 0, 0, proto] (by simp)
    have hlen := weight_append_even [0, 0] (le16 (hton16 protoLen)) (by simp)
    have hproto := twice_like (256 * proto.toNat)
    rw [weight_le16] at hlen
    rw [Nat.add_comm (256 * proto.toNat)]
    exact h.trans ((by simpa [weight] using hlen : Like 65536 _ (hton16 protoLen).toNat).add
      (by simpa [weight] using hproto))
  refine eq_checksumOf (inetCksumPseudoBase_toNat p hlen proto protoLen (foldU32T_twice _)) ?_
  rw [pseudoHeader, List.append_assoc (src.toList.flatMap le32 ++ dest.toList.flatMap le32),
    List.append_assoc (src.toList.flatMap le32 ++ dest.toList.flatMap le32), Nat.add_assoc]
  refine weight_addressed ?_ (haddrs.trans happend.symm) ?_
  · rw [List.length_append, flatMap_le32_length, flatMap_le32_length]
    omega
  · simpa only [List.append_assoc] using htail

/-- **The checksum of a segment is the standard's**, however its bytes are spread over
buffers and wherever these lie. -/
theorem pseudo_checksum_standard (p : List Pbuf) (hlen : ∀ q ∈ p, q.payload.length < 65536) (proto : UInt8)
    (protoLen : UInt16) (addrs : IpAddrs) :
    ipChksumPseudo p proto protoLen addrs = checksumOf (pseudoHeader proto protoLen addrs ++ bytes p) := by
  cases addrs with
  | v4 src dest => exact inetChksumPseudo_eq p hlen proto protoLen src dest
  | v6 src dest => exact ip6ChksumPseudo_eq p hlen proto protoLen src dest

theorem pseudo_checksum_standard_odd :
    (∀ q ∈ [Pbuf.mk true [0x45, 0x00, 0x12], Pbuf.mk false [0xff]], q.payload.length < 65536) ∧
      ipChksumPseudo [⟨true, [0x45, 0x00, 0x12]⟩, ⟨false, [0xff]⟩] 6 4 (.v4 0x0100007f 0x0200007f) =
        checksumOf (pseudoHeader 6 4 (.v4 0x0100007f 0x0200007f) ++ [0x45, 0x00, 0x12, 0xff]) := by
  have hlen : ∀ q ∈ [Pbuf.mk true [0x45, 0x00, 0x12], Pbuf.mk false [0xff]], q.payload.length < 65536 := by simp
  exact ⟨hlen, pseudo_checksum_standard _ hlen 6 4 (.v4 0x0100007f 0x0200007f)⟩

/-! ### Checking a checksum -/

/-- A number and a digit fill all ones exactly where the digit is the complement of the
number's residue; where that complement is zero, all ones do as well. -/
theorem residue_add_eq_top {t : Nat} {v : Nat} (hv : v < 65536) :
    residue 65536 (t + v) = 65535 ↔ v = 65535 - residue 65536 t ∨ (residue 65536 t = 65535 ∧ v = 65535) := by
  have hlt := residue_lt (b := 65536) (by decide) t
  rw [((like_residue (b := 65536) t).add (like_refl v)).residue_eq.symm]
  by_cases hzero : residue 65536 t + v = 0
  · rw [hzero, show residue 65536 0 = 0 from rfl]
    omega
  · rw [show (65535 : Nat) = 65536 - 1 from rfl, residue_eq_top (by decide) hzero]
    omega

/-- **A segment is accepted exactly with the checksum that its sender computed**: over
any other cut of the same bytes into buffers, and with all ones standing for zero. -/
theorem checksum_accepted_iff (p p' : List Pbuf) (hlen : ∀ q ∈ p, q.payload.length < 65536)
    (hlen' : ∀ q ∈ p', q.payload.length < 65536) (proto : UInt8) (protoLen : UInt16) (addrs : IpAddrs)
    (before after : List UInt8) (field : UInt16) (heven : before.length % 2 = 0)
    (hp : bytes p = before ++ [0, 0] ++ after) (hp' : bytes p' = before ++ le16 field ++ after) :
    ipChksumPseudo p' proto protoLen addrs = 0 ↔
      field = ipChksumPseudo p proto protoLen addrs ∨ (ipChksumPseudo p proto protoLen addrs = 0 ∧ field = 0xffff) := by
  have hfield := field.toNat_lt
  have hpseudo : (pseudoHeader proto protoLen addrs).length % 2 = 0 := by
    cases addrs with
    | v4 src dest => simp [pseudoHeader]
    | v6 src dest =>
      simp only [pseudoHeader, List.length_append, flatMap_le32_length, Vector.length_toList, le16_length]
      simp
  have hfront : (pseudoHeader proto protoLen addrs ++ before).length % 2 = 0 := by
    rw [List.length_append]
    omega
  -- The field lies at an even position, so it adds to the message's weight what it holds.
  have hweight : ∀ v : UInt16, Like 65536 (weight (pseudoHeader proto protoLen addrs ++ (before ++ le16 v ++ after)))
      (weight (pseudoHeader proto protoLen addrs ++ before) + weight after + v.toNat) := by
    intro v
    have htail := weight_append_even (le16 v) after (by simp)
    rw [weight_le16] at htail
    rw [List.append_assoc before, ← List.append_assoc _ before, Nat.add_assoc, Nat.add_comm (weight after)]
    exact (weight_append_even _ _ hfront).trans ((like_refl _).add htail)
  have hsent := hweight 0
  have hgot := hweight field
  rw [show le16 0 = [0, 0] from rfl, UInt16.toNat_zero, Nat.add_zero] at hsent
  have hc := checksumOf_toNat (pseudoHeader proto protoLen addrs ++ bytes p)
  have hc' := checksumOf_toNat (pseudoHeader proto protoLen addrs ++ bytes p')
  rw [hp, hsent.residue_eq] at hc
  rw [hp', hgot.residue_eq] at hc'
  rw [pseudo_checksum_standard p hlen, pseudo_checksum_standard p' hlen', hp, hp', ← UInt16.toNat_inj, ← UInt16.toNat_inj,
    ← UInt16.toNat_inj, ← UInt16.toNat_inj, hc, hc', UInt16.toNat_zero, show UInt16.toNat 0xffff = 65535 from rfl]
  have htop := residue_add_eq_top (t := weight (pseudoHeader proto protoLen addrs ++ before) + weight after) hfield
  have hlt := residue_lt (b := 65536) (by decide) (weight (pseudoHeader proto protoLen addrs ++ before) + weight after)
  have hlt' := residue_lt (b := 65536) (by decide)
    (weight (pseudoHeader proto protoLen addrs ++ before) + weight after + field.toNat)
  omega

/-- A segment cut in the middle of its checksum. -/
theorem checksum_accepted_iff_cut :
    ipChksumPseudo
      [⟨true, [0x45, 0x01, (ipChksumPseudo [⟨false, [0x45, 0x01, 0, 0, 0x07]⟩] 6 5 (.v4 1 2)).toUInt8]⟩,
        ⟨false, [(ipChksumPseudo [⟨false, [0x45, 0x01, 0, 0, 0x07]⟩] 6 5 (.v4 1 2) >>> 8).toUInt8, 0x07]⟩]
      6 5 (.v4 1 2) = 0 :=
  (checksum_accepted_iff [⟨false, [0x45, 0x01, 0, 0, 0x07]⟩] _ (by simp) (by simp) 6 5 (.v4 1 2) [0x45, 0x01] [0x07] _
    rfl rfl rfl).mpr (.inl rfl)

end TwilightLine.InetChksum
