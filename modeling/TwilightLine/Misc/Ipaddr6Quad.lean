import TwilightLine.Misc.Ipaddr6Forms

/-! The IPv4 address at the end of an IPv6 address.

What the loop has read are octets with dots after them, and digits of another one. It comes to
an end exactly at a dotted quad, which is written if there is room for it. -/
namespace TwilightLine.Ipaddr6

open Lib

variable {s : Parse} {bytes bs q d e g b rest : List UInt8} {byte v c : UInt8} {empty : Bool}

theorem decodeDecimalDigit_eq (h : isDecimalDigit c) : decodeDecimalDigit c = some (decimalDigit c) := if_pos h

theorem decodeDecimalDigit_none (h : ¬isDecimalDigit c) : decodeDecimalDigit c = none := if_neg h

/-- The text from the last colon on. -/
theorem backUp_eq (hg : 58 ∉ g) (b rest : List UInt8) : backUp (g.reverse ++ 58 :: b) rest = some (g ++ rest) := by
  induction g using List.reverseRecOn generalizing rest with
  | nil => rfl
  | append_singleton g c ih =>
    rw [List.mem_append, List.mem_singleton, not_or] at hg
    rw [List.reverse_append, List.reverse_singleton, List.singleton_append, List.cons_append, backUp, if_pos (Ne.symm hg.2), ih hg.1,
      List.append_assoc, List.singleton_append]

/-! ### Octets -/

theorem OctetDigits.concat (h : OctetDigits d byte) (hc : isDecimalDigit c) (hzero : d ≠ [] → byte ≠ 0)
    (hv : v.toNat = 10 * byte.toNat + decimalDigit c) : OctetDigits (d ++ [c]) v := by
  refine ⟨fun x hx => ?_, fun hhead => ?_, ?_⟩
  · rcases List.mem_append.mp hx with hx | hx
    · exact h.digits x hx
    · exact List.mem_singleton.mp hx ▸ hc
  · cases d with
    | nil => rfl
    | cons x d =>
      -- the first digit would be all that there is
      have hlen := h.no_leading_zero hhead
      rw [List.length_cons, Nat.add_eq_right, List.length_eq_zero_iff] at hlen
      subst hlen
      obtain rfl : x = 48 := Option.some.inj hhead
      exact absurd (UInt8.toNat_inj.mp h.value.symm) (hzero nofun)
  · rw [decimalValue, Numeral.value_concat, hv]
    exact congrArg (10 * · + decimalDigit c) h.value

/-- What is before a digit of an octet is smaller, and not a zero. -/
theorem OctetDigits.before (h : OctetDigits (d ++ c :: e) v) (hd : OctetDigits d byte) :
    isDecimalDigit c ∧ (d ≠ [] → byte ≠ 0) ∧ 10 * byte.toNat + decimalDigit c < 256 := by
  refine ⟨h.digits c (List.mem_append_right _ (List.mem_cons_self ..)), ?_, ?_⟩
  · rintro hne rfl
    obtain rfl := hd.eq_zero hne
    have hlen := h.no_leading_zero rfl
    rw [List.length_append, List.length_singleton, List.length_cons] at hlen
    omega
  · have hvalue := h.value
    rw [decimalValue, Numeral.value, Numeral.valueFrom_append, Numeral.valueFrom_cons] at hvalue
    rw [← hd.value]
    exact Nat.lt_of_le_of_lt (Numeral.le_valueFrom (by decide) _ e) (hvalue ▸ v.toNat_lt)

/-! ### The loop -/

theorem mul_ten_toNat (h : byte.toNat ≤ 25) : (byte * 10).toNat = 10 * byte.toNat := by
  rw [UInt8.toNat_mul]
  show byte.toNat * 10 % 256 = _
  omega

/-- A digit is taken unless there is a leading zero or the byte becomes too large. -/
theorem ipv4Loop_digit (hc : isDecimalDigit c) (hzero : empty = false → byte ≠ 0)
    (hv : v.toNat = 10 * byte.toNat + decimalDigit c) :
    ipv4Loop s bytes byte empty (c :: rest) = ipv4Loop s bytes v false rest := by
  have hlt := v.toNat_lt
  have hdot : c ≠ 46 := by
    rintro rfl
    exact absurd hc (by decide)
  have hnot : ¬(!empty ∧ byte = 0) := fun h => hzero ((Bool.not_eq_true' _).mp h.1) h.2
  have hmul : (byte * 10).toNat = 10 * byte.toNat := mul_ten_toNat (by omega)
  have hadd : byte * 10 + UInt8.ofNat (decimalDigit c) = v := by
    rw [← UInt8.toNat_inj, UInt8.toNat_add, UInt8.toNat_ofNat', hmul, hv]
    omega
  rw [ipv4Loop, if_neg hdot, if_neg hnot, decodeDecimalDigit_eq hc]
  dsimp only
  rw [if_neg (by omega), if_neg (by omega), hadd]

/-- The loop fails, or it has come to a dotted quad and there is room for it. -/
theorem ipv4Loop_cases (hq : Terminated OctetBytes 46 q bytes) (hd : OctetDigits d byte) (hempty : empty = d.isEmpty)
    (hlen : bytes.length ≤ 3) :
    ipv4Loop s bytes byte empty rest = some (s.m, false) ∨
      ∃ bs, Quad (q ++ d ++ rest) bs ∧ s.numBlocks ≤ 6 ∧ ipv4Loop s bytes byte empty rest =
        ipv4Done {s with m := writeBytes s.m (2 * s.numBlocks) bs, numBlocks := s.numBlocks + 2} := by
  induction rest generalizing q bytes d byte empty with
  | nil =>
    rw [ipv4Loop]
    by_cases hbad : bytes.length ≠ 3 ∨ empty
    · exact .inl (if_pos hbad)
    by_cases hroom : 8 - s.numBlocks < 2
    · exact .inl (by rw [if_neg hbad, if_pos hroom])
    obtain ⟨hthree, hmore⟩ := not_or.mp hbad
    refine .inr ⟨bytes ++ [byte], ⟨?_, ?_⟩, by omega, by rw [if_neg hbad, if_neg hroom]⟩
    · rw [List.append_nil]
      refine .mk hq ⟨byte, ⟨hd, ?_⟩, rfl⟩
      rintro rfl
      exact hmore hempty
    · rw [List.length_append, not_not.mp hthree]
      rfl
  | cons c rest ih =>
    by_cases hdot : c = 46
    · subst hdot
      by_cases hbad : empty ∨ bytes.length = 3
      · exact .inl (by rw [ipv4Loop, if_pos rfl, if_pos hbad])
      obtain ⟨hmore, hthree⟩ := not_or.mp hbad
      have hoctet : Octet d byte := ⟨hd, by rintro rfl; exact hmore hempty⟩
      rw [ipv4Loop, if_pos rfl, if_neg hbad]
      have hnone : true = ([] : List UInt8).isEmpty := rfl
      have hnext := ih (hq.concat ⟨byte, hoctet, rfl⟩) .nil hnone (by rw [List.length_append, List.length_singleton]; omega)
      rwa [List.append_nil, List.append_assoc _ [46], List.singleton_append] at hnext
    · by_cases hzero : !empty ∧ byte = 0
      · exact .inl (by rw [ipv4Loop, if_neg hdot, if_pos hzero])
      by_cases hc : isDecimalDigit c
      · by_cases hfit : 10 * byte.toNat + decimalDigit c < 256
        · have hv : (UInt8.ofNat (10 * byte.toNat + decimalDigit c)).toNat = 10 * byte.toNat + decimalDigit c :=
            UInt8.toNat_ofNat_of_lt' hfit
          have hne : empty = false → byte ≠ 0 := fun hmore h => hzero ⟨by rw [hmore]; rfl, h⟩
          have hdigits := hd.concat hc (fun h => hne (by rw [hempty]; exact List.isEmpty_eq_false_iff.mpr h)) hv
          rw [ipv4Loop_digit hc hne hv]
          have hsome : false = (d ++ [c]).isEmpty := by simp
          have hnext := ih hq hdigits hsome hlen
          rwa [← List.append_assoc, List.append_assoc _ [c], List.singleton_append] at hnext
        · left
          rw [ipv4Loop, if_neg hdot, if_neg hzero, decodeDecimalDigit_eq hc]
          dsimp only
          split
          · rfl
          · next hsmall =>
            have hmul : (byte * 10).toNat = 10 * byte.toNat := mul_ten_toNat (Nat.le_of_not_gt hsmall)
            exact if_pos (by omega)
      · exact .inl (by rw [ipv4Loop, if_neg hdot, if_neg hzero, decodeDecimalDigit_none hc])

theorem ipv4Loop_start_cases (s : Parse) (q : List UInt8) :
    ipv4Loop s [] 0 true q = some (s.m, false) ∨
      ∃ bs, Quad q bs ∧ s.numBlocks ≤ 6 ∧ ipv4Loop s [] 0 true q =
        ipv4Done {s with m := writeBytes s.m (2 * s.numBlocks) bs, numBlocks := s.numBlocks + 2} :=
  ipv4Loop_cases .nil .nil rfl (Nat.zero_le 3)

/-- The digits of an octet, from some of them on. -/
theorem ipv4Loop_digits (h : OctetDigits (d ++ e) v) (hd : OctetDigits d byte) :
    ipv4Loop s bytes byte d.isEmpty (e ++ rest) = ipv4Loop s bytes v (d ++ e).isEmpty rest := by
  induction e generalizing d byte with
  | nil =>
    rw [List.append_nil] at h ⊢
    have heq : byte = v := UInt8.toNat_inj.mp (hd.value.symm.trans h.value)
    rw [heq, List.nil_append]
  | cons c e ih =>
    obtain ⟨hc, hzero, hfit⟩ := h.before hd
    have hv : (UInt8.ofNat (10 * byte.toNat + decimalDigit c)).toNat = 10 * byte.toNat + decimalDigit c :=
      UInt8.toNat_ofNat_of_lt' hfit
    have hsplit : d ++ c :: e = (d ++ [c]) ++ e := by rw [List.append_assoc, List.singleton_append]
    have hsome : (d ++ [c]).isEmpty = false := by simp
    rw [List.cons_append, ipv4Loop_digit hc (fun h => hzero (List.isEmpty_eq_false_iff.mp h)) hv, ← hsome, hsplit]
    exact ih (hsplit ▸ h) (hd.concat hc hzero hv)

theorem ipv4Loop_octet (h : Octet d v) : ipv4Loop s bytes 0 true (d ++ rest) = ipv4Loop s bytes v false rest := by
  have hrun : ipv4Loop s bytes 0 ([] : List UInt8).isEmpty (d ++ rest) = ipv4Loop s bytes v ([] ++ d).isEmpty rest :=
    ipv4Loop_digits h.toOctetDigits .nil
  rwa [List.nil_append, List.isEmpty_eq_false_iff.mpr h.ne_nil] at hrun

theorem ipv4Loop_terminated {ys : List UInt8} (h : Terminated OctetBytes 46 q ys) (hlen : bytes.length + ys.length ≤ 3) :
    ipv4Loop s bytes 0 true (q ++ rest) = ipv4Loop s (bytes ++ ys) 0 true rest := by
  induction h generalizing bytes with
  | nil => rw [List.append_nil, List.nil_append]
  | cons hitem _ ih =>
    obtain ⟨b, hoctet, rfl⟩ := hitem
    rw [List.length_append, List.length_singleton] at hlen
    have hroom : ¬((false : Bool) ∨ bytes.length = 3) := by
      rintro (h | h)
      · cases h
      · omega
    rw [List.append_assoc, List.cons_append, ipv4Loop_octet hoctet, ipv4Loop, if_pos rfl, if_neg hroom, ih, List.append_assoc]
    rw [List.length_append, List.length_singleton]
    omega

/-- **A dotted quad is read and written.** -/
theorem ipv4Loop_quad (h : Quad q bs) (hroom : s.numBlocks ≤ 6) :
    ipv4Loop s [] 0 true q = ipv4Done {s with m := writeBytes s.m (2 * s.numBlocks) bs, numBlocks := s.numBlocks + 2} := by
  obtain ⟨@⟨t, ys, d, _, hterm, b, hoctet, rfl⟩, hlen⟩ := h
  rw [List.length_append, List.length_singleton] at hlen
  have hlast : ipv4Loop s ys 0 true (d ++ []) = ipv4Loop s ys b false [] := ipv4Loop_octet hoctet
  rw [List.append_nil] at hlast
  rw [ipv4Loop_terminated hterm (by rw [List.length_nil]; omega), List.nil_append, hlast, ipv4Loop, if_neg, if_neg (by omega)]
  rintro (h | h)
  · omega
  · cases h

end TwilightLine.Ipaddr6
