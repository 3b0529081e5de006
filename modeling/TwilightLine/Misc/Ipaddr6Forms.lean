import TwilightLine.Misc.Ipaddr6

/-! The text forms of IPv6 addresses.

No group has a colon in it, so that a text falls into its groups in one way, and there are at
least as many bytes as the colons call for. -/
namespace TwilightLine.Ipaddr6

variable {s t u d g p f rest bs ys : List UInt8} {v : UInt16} {b c : UInt8}

/-! ### Groups -/

theorem decodeHexDigit_lt {d : Nat} (h : decodeHexDigit c = some d) : d < 16 := by
  rw [decodeHexDigit] at h
  repeat' split at h
  · next hc =>
    have := UInt8.le_iff_toNat_le.mp hc.2
    cases h
    exact Nat.lt_of_le_of_lt (Nat.sub_le_sub_right this 48) (by decide)
  · next hc =>
    have := UInt8.le_iff_toNat_le.mp hc.2
    cases h
    exact Nat.lt_of_le_of_lt (Nat.sub_le_sub_right this 55) (by decide)
  · next hc =>
    have := UInt8.le_iff_toNat_le.mp hc.2
    cases h
    exact Nat.lt_of_le_of_lt (Nat.sub_le_sub_right this 87) (by decide)
  · cases h

/-- A digit is neither a dot nor a colon. -/
theorem ne_of_hexDigit (h : (decodeHexDigit c).isSome) : c ≠ 46 ∧ c ≠ 58 := by
  constructor <;> rintro rfl <;> cases h

theorem HexDigits.no_colon (h : HexDigits g v) : 58 ∉ g := fun hmem => (ne_of_hexDigit (h.digits 58 hmem)).2 rfl

theorem HexDigits.nil : HexDigits [] 0 := ⟨nofun, rfl⟩

theorem blockBytes_length (v : UInt16) : (blockBytes v).length = 2 := rfl

theorem HexGroup.head?_ne (h : HexGroup g v) (rest : List UInt8) : (g ++ rest).head? ≠ some 58 := by
  cases g with
  | nil => exact absurd rfl h.ne_nil
  | cons c g =>
    intro hhead
    exact (ne_of_hexDigit (h.digits c (List.mem_cons_self ..))).2 (Option.some.inj hhead)

theorem head?_terminated (ht : Terminated (GroupBytes HexGroup) 58 t ys) (hrest : rest.head? ≠ some 58) :
    (t ++ rest).head? ≠ some 58 := by
  cases ht with
  | nil => exact hrest
  | cons hitem _ =>
    obtain ⟨v, hg, -⟩ := hitem
    rw [List.append_assoc]
    exact hg.head?_ne _

theorem terminated_nil (h : Terminated (GroupBytes HexGroup) 58 t []) : t = [] := by
  generalize hys : ([] : List UInt8) = ys at h
  cases h with
  | nil => rfl
  | cons hitem _ =>
    obtain ⟨v, -, rfl⟩ := hitem
    cases hys

theorem terminated_length (h : Terminated (GroupBytes HexGroup) 58 t bs) : 2 ∣ bs.length := by
  induction h with
  | nil => exact Nat.dvd_zero 2
  | cons hitem _ ih =>
    obtain ⟨v, -, rfl⟩ := hitem
    rw [List.length_append, blockBytes_length]
    omega

theorem maybeGroups_length (h : MaybeGroups HexGroup false u f) : 2 ∣ f.length := by
  rcases h with ⟨-, rfl⟩ | @⟨_, _, _, _, ht, ⟨v, -, rfl⟩ | ⟨hquad, -⟩⟩
  · exact Nat.dvd_zero 2
  · have := terminated_length ht
    rw [List.length_append, blockBytes_length]
    omega
  · cases hquad

/-! ### Octets -/

theorem OctetDigits.nil : OctetDigits [] 0 := ⟨nofun, nofun, rfl⟩

theorem decimalDigit_eq_zero (hc : isDecimalDigit c) (h : decimalDigit c = 0) : c = 48 := by
  have := isDecimalDigit_iff.mp hc
  rw [decimalDigit] at h
  rw [← UInt8.toNat_inj]
  show c.toNat = 48
  omega

/-- Without a leading zero, digits are zero only if there is just that one. -/
theorem OctetDigits.eq_zero (h : OctetDigits d 0) (hne : d ≠ []) : d = [48] := by
  cases d with
  | nil => exact absurd rfl hne
  | cons c d =>
    have hc : c = 48 := by
      refine decimalDigit_eq_zero (h.digits c (List.mem_cons_self ..)) ?_
      by_contra hdigit
      have hle : 10 ^ d.length ≤ decimalValue (c :: d) := Numeral.pow_le_value hdigit
      rw [h.value] at hle
      exact absurd (Nat.pow_pos (by decide)) (Nat.not_lt_of_le hle)
    subst hc
    have hlen := h.no_leading_zero rfl
    rw [List.length_cons, Nat.add_eq_right, List.length_eq_zero_iff] at hlen
    rw [hlen]

/-- An octet could be a group, too. -/
theorem Octet.hexGroup (h : Octet d b) : ∃ v, HexGroup d v := by
  have hdigits : ∀ c ∈ d, (decodeHexDigit c).isSome := fun c hc => by
    have hc : 48 ≤ c ∧ c ≤ 57 := h.digits c hc
    rw [decodeHexDigit, if_pos hc]
    rfl
  have hlen : d.length ≤ 3 := by
    cases d with
    | nil => exact Nat.zero_le 3
    | cons c d =>
      by_cases hzero : decimalDigit c = 0
      · obtain rfl := decimalDigit_eq_zero (h.digits c (List.mem_cons_self ..)) hzero
        exact (h.no_leading_zero rfl).le.trans (by decide)
      · have hle : 10 ^ d.length ≤ decimalValue (c :: d) := Numeral.pow_le_value hzero
        rw [h.value] at hle
        by_contra hlong
        have hpow : 10 ^ 3 ≤ 10 ^ d.length := Nat.pow_le_pow_right (by decide) (by rw [List.length_cons] at hlong; omega)
        have := b.toNat_lt
        omega
  have hvalue : hexValue d < 65536 := by
    refine (Numeral.value_lt (by decide) fun c hc => ?_).trans_le (Nat.pow_le_pow_right (by decide) (hlen.trans (by decide : 3 ≤ 4)))
    obtain ⟨x, hx⟩ := Option.isSome_iff_exists.mp (hdigits c hc)
    rw [hx]
    exact decodeHexDigit_lt hx
  refine ⟨UInt16.ofNat (hexValue d), ⟨hdigits, ?_⟩, h.ne_nil⟩
  rw [UInt16.toNat_ofNat']
  exact (Nat.mod_eq_of_lt hvalue).symm

theorem Quad.head?_ne (h : Quad p bs) : p.head? ≠ some 58 := by
  obtain ⟨⟨hterm, last, -, rfl⟩, hfour⟩ := h
  cases hterm with
  | nil => cases hfour
  | cons hitem _ =>
    obtain ⟨byte, hoctet, rfl⟩ := hitem
    obtain ⟨v, hg⟩ := hoctet.hexGroup
    rw [List.append_assoc]
    exact hg.head?_ne _

/-! ### Where the colons are -/

theorem terminated_no_colon (h : Terminated OctetBytes 46 t ys) : 58 ∉ t := by
  induction h with
  | nil => exact List.not_mem_nil
  | cons hitem _ ih =>
    obtain ⟨b, hoctet, -⟩ := hitem
    obtain ⟨v, hg⟩ := hoctet.hexGroup
    rw [List.mem_append, List.mem_cons, not_or, not_or]
    exact ⟨hg.no_colon, by decide, ih⟩

theorem Quad.no_colon (h : Quad p bs) : 58 ∉ p := by
  obtain ⟨⟨hterm, b, hoctet, -⟩, -⟩ := h
  obtain ⟨v, hg⟩ := hoctet.hexGroup
  rw [List.mem_append, not_or]
  exact ⟨terminated_no_colon hterm, hg.no_colon⟩

section
variable {group : List UInt8 → UInt16 → Prop} {quad : Bool} (hgroup : ∀ {s v}, group s v → HexGroup s v)
include hgroup

theorem last_no_colon (h : GroupBytes group s bs ∨ quad = true ∧ Quad s bs) : 58 ∉ s := by
  rcases h with ⟨v, hg, -⟩ | ⟨-, hquad⟩
  · exact (hgroup hg).no_colon
  · exact hquad.no_colon

/-- What is before the first colon is a group, with nothing or a `::` after the groups. -/
theorem groups_first {w : List UInt8} (h : Groups group quad t bs) (hw : w = [] ∨ quad = false ∧ ∃ x, w = 58 :: x)
    (heq : t ++ w = g ++ 58 :: rest) (hg : 58 ∉ g) : ∃ v, group g v := by
  obtain ⟨hterm, hlast⟩ := h
  cases hterm with
  | nil =>
    rw [List.nil_append] at heq
    rcases hw with rfl | ⟨rfl, x, rfl⟩
    · rw [List.append_nil] at heq
      exact absurd (heq ▸ List.mem_append_right _ (List.mem_cons_self ..)) (last_no_colon hgroup hlast)
    · obtain ⟨v, hv, -⟩ := hlast.resolve_right (fun h => nomatch h.1)
      obtain ⟨rfl, -⟩ := before_sep_inj (hgroup hv).no_colon hg heq
      exact ⟨v, hv⟩
  | cons hitem _ =>
    obtain ⟨v, hv, rfl⟩ := hitem
    rw [List.append_assoc, List.append_assoc, List.cons_append] at heq
    obtain ⟨rfl, -⟩ := before_sep_inj (hgroup hv).no_colon hg heq
    exact ⟨v, hv⟩

theorem maybeGroups_first (h : MaybeGroups group false t bs) {x : List UInt8} (heq : t ++ 58 :: x = g ++ 58 :: rest) (hg : 58 ∉ g) :
    g = [] ∧ t = [] ∨ ∃ v, group g v := by
  rcases h with ⟨rfl, -⟩ | hgroups
  · cases g with
    | nil => exact .inl ⟨rfl, rfl⟩
    | cons c g =>
      obtain ⟨rfl, -⟩ := List.cons_eq_cons.mp heq
      exact absurd (List.mem_cons_self ..) hg
  · exact .inr (groups_first hgroup hgroups (.inr ⟨rfl, x, rfl⟩) heq hg)

/-- There are two bytes for each group, of which there is one more than colons. -/
theorem groups_count (h : Groups group quad t bs) : 2 * (t.count 58 + 1) ≤ bs.length := by
  obtain @⟨t, ys, s, xs, hterm, hlast⟩ := h
  have hnone : s.count 58 = 0 := List.count_eq_zero.mpr (last_no_colon hgroup hlast)
  have htwo : 2 ≤ xs.length := by
    rcases hlast with ⟨v, -, rfl⟩ | ⟨-, hquad⟩
    · exact le_refl 2
    · rw [hquad.length]
      decide
  have hcount : 2 * t.count 58 = ys.length := by
    clear hlast htwo
    induction hterm with
    | nil => rfl
    | cons hitem _ ih =>
      obtain ⟨v, hv, rfl⟩ := hitem
      rw [List.count_append, List.count_eq_zero.mpr (hgroup hv).no_colon, List.count_cons_self, List.length_append, blockBytes_length]
      omega
  rw [List.count_append, List.length_append, hnone]
  omega

end

end TwilightLine.Ipaddr6
