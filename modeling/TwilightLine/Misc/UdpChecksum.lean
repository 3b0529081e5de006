import TwilightLine.Misc.UdpProto

/-! The UDP checksum against RFC 768.

`rfc768` states the standard: the one's complement of the one's complement sum of
the pseudo-header, the header and the payload padded to a whole number of words,
with a computed zero sent as all ones. `udpChecksum_eq` and `udpIp6Checksum_eq`
say what the code returns instead: the complement, whatever it is. The
complement is taken in 32 bits, where it is never zero, so a computed zero stays
zero, and code and standard part exactly on the messages whose words add to a
multiple of 65535. -/
namespace TwilightLine

open OnesComplement

/-! ### The standard -/

/-- The big-endian 16-bit words of a message, padded with a zero byte. -/
def beWords : List UInt8 → List Nat
  | p₀ :: p₁ :: rest => (p₀.toNat * 256 + p₁.toNat) :: beWords rest
  | [p] => [p.toNat * 256]
  | [] => []

/-- The checksum of a message: never zero. -/
def rfc768 (message : List UInt8) : Nat :=
  let sum := onesSum 65536 (beWords message)
  if 65535 - sum = 0 then 65535 else 65535 - sum

/-- Addresses, zero, protocol and UDP length. -/
def pseudoHeader4 (sourceAddr destAddr : UInt32) (udpLength : Nat) : List UInt8 :=
  le32 sourceAddr ++ le32 destAddr ++ [0, 17] ++ [UInt8.ofNat (udpLength / 256), UInt8.ofNat udpLength]

/-- Addresses, 32-bit UDP length, zeros and next header. -/
def pseudoHeader6 (sourceAddr destAddr : Vector UInt8 16) (udpLength : Nat) : List UInt8 :=
  sourceAddr.toList ++ destAddr.toList ++
    [UInt8.ofNat (udpLength / 2 ^ 24), UInt8.ofNat (udpLength / 2 ^ 16), UInt8.ofNat (udpLength / 256),
      UInt8.ofNat udpLength] ++ [0, 0, 0, 17]

/-- What RFC 768 sums for a datagram over IPv4. -/
def message4 (header : UdpHeader) (payload : List UInt8) (sourceAddr destAddr : UInt32) : List UInt8 :=
  pseudoHeader4 sourceAddr destAddr (udpHeaderSize + payload.length) ++ header.bytes ++ payload

/-- What is summed for a datagram over IPv6. -/
def message6 (header : UdpHeader) (payload : List UInt8) (sourceAddr destAddr : Vector UInt8 16) :
    List UInt8 :=
  pseudoHeader6 sourceAddr destAddr (udpHeaderSize + payload.length) ++ header.bytes ++ payload

/-! ### Words -/

theorem beWords_append (a b : List UInt8) (ha : a.length % 2 = 0) :
    beWords (a ++ b) = beWords a ++ beWords b := by
  induction a using beWords.induct with
  | case1 p₀ p₁ rest ih =>
    simp only [List.length_cons] at ha
    simp only [List.cons_append, beWords, ih (by omega)]
  | case2 p => simp at ha
  | case3 => rfl

theorem beWords_lt (data : List UInt8) : ∀ w ∈ beWords data, w < 65536 := by
  induction data using beWords.induct with
  | case1 p₀ p₁ rest ih =>
    have h₀ := p₀.toNat_lt
    have h₁ := p₁.toNat_lt
    intro w hw
    rcases List.mem_cons.mp hw with rfl | hw
    · omega
    · exact ih w hw
  | case2 p =>
    have hp := p.toNat_lt
    intro w hw
    rw [beWords, List.mem_singleton] at hw
    omega
  | case3 => intro w hw; cases hw

/-- A message of `n` bytes has at most `(n + 1) / 2` words of at most 65535. -/
theorem beWords_sum_le (data : List UInt8) : (beWords data).sum ≤ 65535 * ((data.length + 1) / 2) := by
  induction data using beWords.induct with
  | case1 p₀ p₁ rest ih =>
    have h₀ := p₀.toNat_lt
    have h₁ := p₁.toNat_lt
    simp only [beWords, List.sum_cons, List.length_cons]
    omega
  | case2 p =>
    have hp := p.toNat_lt
    simp only [beWords, List.sum_cons, List.sum_nil, List.length_cons, List.length_nil]
    omega
  | case3 => simp [beWords]

/-! ### The 32-bit sum -/

/-- The loop adds the words of an even number of bytes, as long as 32 bits hold them. -/
theorem udpChecksumLoop_toNat (data : List UInt8) (t : UInt32) (heven : data.length % 2 = 0)
    (hfit : t.toNat + (beWords data).sum < 2 ^ 32) :
    (udpChecksumLoop t data).toNat = t.toNat + (beWords data).sum := by
  induction data using beWords.induct generalizing t with
  | case1 p₀ p₁ rest ih =>
    simp only [List.length_cons] at heven
    simp only [beWords, List.sum_cons] at hfit ⊢
    have hword : (t + (readBe16 p₀ p₁).toUInt32).toNat = t.toNat + (p₀.toNat * 256 + p₁.toNat) := by
      have hlt : t.toNat + (p₀.toNat * 256 + p₁.toNat) < 2 ^ 32 := lt_of_le_of_lt (by omega) hfit
      rw [UInt32.toNat_add, UInt16.toNat_toUInt32, readBe16_toNat, Nat.mod_eq_of_lt hlt]
    rw [udpChecksumLoop, ih _ (by omega) (by rwa [hword, Nat.add_assoc]), hword]
    omega
  | case2 p => simp at heven
  | case3 => simp [udpChecksumLoop, beWords]

theorem add_summer_toNat (data : List UInt8) (t : UInt32) (heven : data.length % 2 = 0)
    (hfit : t.toNat + (beWords data).sum < 2 ^ 32) :
    (t + udpChecksumSummer data).toNat = t.toNat + (beWords data).sum := by
  have hsum : (udpChecksumSummer data).toNat = (beWords data).sum := by
    have hzero : (0 : UInt32).toNat + (beWords data).sum < 2 ^ 32 := by
      rw [UInt32.toNat_zero]
      omega
    simpa [udpChecksumSummer] using udpChecksumLoop_toNat data 0 heven hzero
  rw [UInt32.toNat_add, hsum]
  exact Nat.mod_eq_of_lt hfit

/-- The odd last byte as the code adds it: the high half of a word. -/
theorem beWords_high (p : UInt8) : beWords (le16 (hton16 (p.toUInt16 <<< 8))) = [p.toNat * 256] := by
  have hp := p.toNat_lt
  have hval : (p.toUInt16 <<< 8).toNat = p.toNat * 256 := by
    rw [UInt16.toNat_shiftLeft, UInt8.toNat_toUInt16, show UInt16.toNat 8 % 16 = 8 from rfl, Nat.shiftLeft_eq]
    exact Nat.mod_eq_of_lt (by omega)
  have hhigh := byte16_toNat (p.toUInt16 <<< 8) 8 (by decide)
  rw [le16_hton16]
  simp only [beWords, hhigh, UInt16.toNat_toUInt8, hval, show UInt16.toNat 8 = 8 from rfl,
    List.cons.injEq, and_true]
  omega

theorem beWords_odd (data : List UInt8) (hodd : data.length % 2 = 1) :
    (beWords data).sum = (beWords (data.take (data.length - 1))).sum +
      (data.getD (data.length - 1) 0).toNat * 256 := by
  induction data using beWords.induct with
  | case1 p₀ p₁ rest ih =>
    simp only [List.length_cons] at hodd
    obtain ⟨n, hn⟩ : ∃ n, rest.length = n + 1 := ⟨rest.length - 1, by omega⟩
    have ih := ih (by omega)
    simp only [hn, Nat.add_sub_cancel] at ih
    simp only [List.length_cons, hn, Nat.add_sub_cancel, List.take_succ_cons, beWords, List.sum_cons, ih,
      List.getD_cons_succ]
    omega
  | case2 p => simp [beWords]
  | case3 => simp at hodd

theorem udpChecksumPayload_toNat (t : UInt32) (payload : List UInt8)
    (hfit : t.toNat + (beWords payload).sum < 2 ^ 32) :
    (udpChecksumPayload t payload).toNat = t.toNat + (beWords payload).sum := by
  unfold udpChecksumPayload
  split
  · next heven => exact add_summer_toNat payload t heven hfit
  · next hodd =>
    have hodd : payload.length % 2 = 1 := by omega
    have hsum := beWords_odd payload hodd
    have hlen : (payload.take (payload.length - 1)).length % 2 = 0 := by
      rw [List.length_take]
      omega
    have hhigh := beWords_high (payload.getD (payload.length - 1) 0)
    have hfirst := add_summer_toNat _ t hlen (by omega)
    rw [add_summer_toNat _ _ (by simp)
      (by rw [hfirst, hhigh, List.sum_singleton]; omega), hfirst, hhigh, List.sum_singleton]
    omega

/-! ### Folding and complementing -/

/-- The loop on carries computes the one's complement residue. -/
theorem foldCarries_toNat (t : UInt32) : (foldCarries t).toNat = residue 65536 t.toNat := by
  induction t using foldCarries.induct with
  | case1 t h =>
    have hdiv : t.toNat / 2 ^ 16 = 0 := by
      have := congrArg UInt32.toNat h
      rwa [UInt32.toNat_shiftRight, show UInt32.toNat 16 % 32 = 16 from rfl, Nat.shiftRight_eq_div_pow] at this
    rw [foldCarries, dif_pos h, residue_of_lt (by omega)]
  | case2 t h ih =>
    have ht := t.toNat_lt
    have hcarry : ((t &&& (0xFFFF : UInt32)) + (t >>> 16)).toNat = carry 65536 t.toNat := by
      rw [UInt32.toNat_add, UInt32.toNat_shiftRight, UInt32.toNat_and,
        show UInt32.toNat 16 % 32 = 16 from rfl, Nat.shiftRight_eq_div_pow,
        show UInt32.toNat 0xFFFF = 2 ^ 16 - 1 from rfl, Nat.and_two_pow_sub_one_eq_mod]
      simp only [carry]
      omega
    rw [foldCarries, dif_neg h, ih, hcarry, residue_carry (by norm_num)]

/-- The complement of a folded sum is taken in 32 bits and is never zero there:
the test that should send a zero as all ones never succeeds. -/
theorem complement_ne_zero (t : UInt32) : ~~~(foldCarries t) ≠ 0 := by
  intro h
  have hlt : (foldCarries t).toNat < 65536 := by
    rw [foldCarries_toNat]
    exact residue_lt (by norm_num) _
  have hval := congrArg UInt32.toNat h
  rw [UInt32.toNat_not] at hval
  simp only [UInt32.size, UInt32.toNat_zero] at hval
  omega

/-- What the code returns for a sum: the 16-bit complement of its residue. -/
theorem udpChecksumFinish_eq (t : UInt32) :
    udpChecksumFinish t = hton16 (UInt16.ofNat (65535 - residue 65536 t.toNat)) := by
  have hlt := residue_lt (b := 65536) (by norm_num) t.toNat
  have hval : (~~~(foldCarries t)).toUInt16 = UInt16.ofNat (65535 - residue 65536 t.toNat) := by
    apply UInt16.toNat.inj
    rw [UInt32.toNat_toUInt16, UInt32.toNat_not, foldCarries_toNat, UInt16.toNat_ofNat']
    simp only [UInt32.size]
    omega
  simp only [udpChecksumFinish, complement_ne_zero, if_false, hval]

/-! ### The words the code sums are the standard's -/

/-- The pieces a checksum adds before the payload, one summer call each. -/
theorem summers_toNat (pieces : List (List UInt8)) (t : UInt32)
    (heven : ∀ p ∈ pieces, p.length % 2 = 0) (hfit : t.toNat + (beWords pieces.flatten).sum < 2 ^ 32) :
    (pieces.foldl (fun t p => t + udpChecksumSummer p) t).toNat =
      t.toNat + (beWords pieces.flatten).sum := by
  induction pieces generalizing t with
  | nil => simp [beWords]
  | cons p rest ih =>
    have hp := heven p (List.mem_cons_self ..)
    rw [List.flatten_cons, beWords_append _ _ hp, List.sum_append] at hfit ⊢
    have hadd := add_summer_toNat p t hp (lt_of_le_of_lt (by omega) hfit)
    rw [List.foldl_cons, ih _ (fun q hq => heven q (List.mem_cons_of_mem p hq))
      (by rwa [hadd, Nat.add_assoc]), hadd, Nat.add_assoc]

/-- **What the code computes**: over pieces of a few even lengths and a payload,
the complement of the one's complement sum of all of them. -/
theorem finish_eq (pieces : List (List UInt8)) (payload : List UInt8)
    (heven : ∀ p ∈ pieces, p.length % 2 = 0) (hpieces : pieces.flatten.length ≤ 64)
    (hparity : pieces.flatten.length % 2 = 0) (hlen : payload.length ≤ 65527) :
    udpChecksumFinish (udpChecksumPayload (pieces.foldl (fun t p => t + udpChecksumSummer p) 0) payload) =
      hton16 (UInt16.ofNat (65535 - onesSum 65536 (beWords (pieces.flatten ++ payload)))) := by
  have hle := beWords_sum_le pieces.flatten
  have hpayload := beWords_sum_le payload
  have hsum := summers_toNat pieces 0 heven (by rw [UInt32.toNat_zero]; omega)
  rw [UInt32.toNat_zero, Nat.zero_add] at hsum
  have htotal := udpChecksumPayload_toNat (pieces.foldl (fun t p => t + udpChecksumSummer p) 0) payload
    (by rw [hsum]; omega)
  rw [hsum, ← List.sum_append, ← beWords_append _ _ hparity] at htotal
  rw [udpChecksumFinish_eq, htotal, onesSum_eq_residue (by norm_num) _ (beWords_lt _)]

/-- A 16-bit length in network order. -/
theorem le16_hton16_ofNat {n : Nat} (hn : n < 65536) :
    le16 (hton16 (UInt16.ofNat n)) = [UInt8.ofNat (n / 256), UInt8.ofNat n] := by
  have hval : (UInt16.ofNat n).toNat = n := by
    rw [UInt16.toNat_ofNat']
    omega
  have hhigh := byte16_toNat (UInt16.ofNat n) 8 (by decide)
  rw [hval, show UInt16.toNat 8 = 8 from rfl] at hhigh
  rw [le16_hton16]
  simp only [List.cons.injEq, and_true]
  constructor <;> apply UInt8.toNat.inj
  · rw [hhigh, UInt8.toNat_ofNat', show 2 ^ 8 = 256 from rfl]
  · rw [UInt16.toNat_toUInt8, hval, UInt8.toNat_ofNat']

/-- A 32-bit length in network order. -/
theorem le32_hton32_ofNat {n : Nat} (hn : n < 2 ^ 32) :
    le32 (hton32 (UInt32.ofNat n)) =
      [UInt8.ofNat (n / 2 ^ 24), UInt8.ofNat (n / 2 ^ 16), UInt8.ofNat (n / 256), UInt8.ofNat n] := by
  have hval : (UInt32.ofNat n).toNat = n := by
    rw [UInt32.toNat_ofNat']
    exact Nat.mod_eq_of_lt hn
  have h₁ := byte32_toNat (UInt32.ofNat n) 8 (by decide)
  have h₂ := byte32_toNat (UInt32.ofNat n) 16 (by decide)
  have h₃ := byte32_toNat (UInt32.ofNat n) 24 (by decide)
  rw [hval] at h₁ h₂ h₃
  rw [le32_hton32]
  simp only [List.cons.injEq, and_true]
  refine ⟨?_, ?_, ?_, ?_⟩ <;> apply UInt8.toNat.inj
  · rw [h₃, UInt8.toNat_ofNat', show UInt32.toNat 24 = 24 from rfl]
  · rw [h₂, UInt8.toNat_ofNat', show UInt32.toNat 16 = 16 from rfl]
  · rw [h₁, UInt8.toNat_ofNat', show UInt32.toNat 8 = 8 from rfl, show 2 ^ 8 = 256 from rfl]
  · rw [UInt32.toNat_toUInt8, hval, UInt8.toNat_ofNat']

theorem udpChecksum_eq (header : UdpHeader) (payload : List UInt8) (sourceAddr destAddr : UInt32)
    (hlen : payload.length ≤ 65527) :
    udpChecksum header payload sourceAddr destAddr =
      hton16 (UInt16.ofNat
        (65535 - onesSum 65536 (beWords (message4 header payload sourceAddr destAddr)))) := by
  have hlength := le16_hton16_ofNat (n := udpHeaderSize + payload.length) (by rw [udpHeaderSize]; omega)
  have hproto : le16 (hton16 ipv4ProtocolUdp) = [0, 17] := by decide
  have h := finish_eq [le32 sourceAddr, le32 destAddr, le16 (hton16 ipv4ProtocolUdp),
    le16 (hton16 (UInt16.ofNat (udpHeaderSize + payload.length))), header.bytes] payload
    (by simp [udpHeaderSize]) (by simp [udpHeaderSize]) (by simp [udpHeaderSize]) hlen
  have hmessage : [le32 sourceAddr, le32 destAddr, le16 (hton16 ipv4ProtocolUdp),
      le16 (hton16 (UInt16.ofNat (udpHeaderSize + payload.length))), header.bytes].flatten ++ payload =
        message4 header payload sourceAddr destAddr := by
    rw [hlength, hproto, message4, pseudoHeader4]
    simp only [List.flatten_cons, List.flatten_nil, List.append_nil, List.append_assoc]
  rw [hmessage] at h
  exact h

theorem udpIp6Checksum_eq (header : UdpHeader) (payload : List UInt8)
    (sourceAddr destAddr : Vector UInt8 16) (hlen : payload.length ≤ 65527) :
    udpIp6Checksum header payload sourceAddr destAddr =
      hton16 (UInt16.ofNat
        (65535 - onesSum 65536 (beWords (message6 header payload sourceAddr destAddr)))) := by
  have hlength := le32_hton32_ofNat (n := udpHeaderSize + payload.length) (by rw [udpHeaderSize]; omega)
  have hproto : le32 (hton32 ipv6NextUdp) = [0, 0, 0, 17] := by decide
  have h := finish_eq [sourceAddr.toList, destAddr.toList,
    le32 (hton32 (UInt32.ofNat (udpHeaderSize + payload.length))), le32 (hton32 ipv6NextUdp), header.bytes]
    payload (by simp [udpHeaderSize]) (by simp [udpHeaderSize]) (by simp [udpHeaderSize]) hlen
  have hmessage : [sourceAddr.toList, destAddr.toList,
      le32 (hton32 (UInt32.ofNat (udpHeaderSize + payload.length))), le32 (hton32 ipv6NextUdp),
      header.bytes].flatten ++ payload = message6 header payload sourceAddr destAddr := by
    rw [hlength, hproto, message6, pseudoHeader6]
    simp only [List.flatten_cons, List.flatten_nil, List.append_nil, List.append_assoc]
  rw [hmessage] at h
  exact h

end TwilightLine
