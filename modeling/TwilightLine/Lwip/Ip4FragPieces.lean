import TwilightLine.Lwip.Ip4Frag

/-! The fragments of one datagram.

The search for the place of a new fragment refuses it exactly when it overlaps a kept
one (`insertFrag_eq`), and the walks before and after that place find the datagram
finished exactly when the fragments tile it from its start (`chainFrag_eq`). -/
namespace TwilightLine.Ip4Frag

open Tiling

/-! ### Headers -/

theorem ntoh16_toNat (x : UInt16) : (ntoh16 x).toNat = 256 * (x.toNat % 256) + x.toNat / 256 :=
  InetChksum.hton16_toNat x

theorem iphOffsetBytes_eq (h : Ipv4Header) :
    iphOffsetBytes h = 8 * ((ntoh16 h.flags3Fragmentoffset13).toNat % 8192) := by
  rw [iphOffsetBytes, UInt16.toNat_mul, UInt16.toNat_and, show UInt16.toNat 0x1fff = 2 ^ 13 - 1 from rfl,
    Nat.and_two_pow_sub_one_eq_mod, show UInt16.toNat 8 = 8 from rfl]
  omega

/-- A fragment is the first or has others before it; the last one has others before it. -/
theorem offset_of_last {h : Ipv4Header} (hfrag : h.flags3Fragmentoffset13 &&& hton16 0x3fff ≠ 0)
    (hlast : isLast h) : iphOffsetBytes h ≠ 0 := by
  intro hzero
  have hx := h.flags3Fragmentoffset13.toNat_lt
  rw [iphOffsetBytes_eq, ntoh16_toNat] at hzero
  have hbit : h.flags3Fragmentoffset13.toNat / 32 % 2 = 0 := by
    have hand := congrArg UInt16.toNat (eq_of_beq hlast)
    rw [UInt16.toNat_and, show (hton16 0x2000).toNat = 2 ^ 5 from by decide, UInt16.toNat_zero] at hand
    have htest : (h.flags3Fragmentoffset13.toNat &&& 2 ^ 5).testBit 5 = false := by rw [hand, Nat.zero_testBit]
    rw [Nat.testBit_and, Nat.testBit_two_pow_self, Bool.and_true, Nat.testBit_eq_decide_div_mod_eq] at htest
    simpa using htest
  have hhigh : h.flags3Fragmentoffset13.toNat / 256 = 0 := by omega
  rw [hhigh] at hzero
  have hval : h.flags3Fragmentoffset13.toNat = 0 ∨ h.flags3Fragmentoffset13.toNat = 64 ∨
      h.flags3Fragmentoffset13.toNat = 128 ∨ h.flags3Fragmentoffset13.toNat = 192 := by omega
  apply hfrag
  rcases hval with hval | hval | hval | hval <;>
    · rw [← UInt16.ofNat_toNat (x := h.flags3Fragmentoffset13), hval]
      decide

theorem matches_iff {a b : Ipv4Header} : ipAddressesAndIdMatch a b ↔ a.sourceAddress = b.sourceAddress ∧
    a.destinationAddress = b.destinationAddress ∧ a.identification = b.identification := by
  simp [ipAddressesAndIdMatch, and_assoc]

theorem matches_trans {a b c : Ipv4Header} (h : ipAddressesAndIdMatch a b) (h' : ipAddressesAndIdMatch b c) :
    ipAddressesAndIdMatch a c := by
  rw [matches_iff] at h h' ⊢
  exact ⟨h.1.trans h'.1, h.2.1.trans h'.2.1, h.2.2.trans h'.2.2⟩

/-- Where a fragment ends. -/
def Pbuf.last (p : Pbuf) : Nat := iphOffsetBytes p.hdr + p.payload.length

/-- Where a fragment starts. -/
def Pbuf.first (p : Pbuf) : Nat := iphOffsetBytes p.hdr

/-! ### The walk through the list -/

/-- No hole between neighbours, the fragment before the list included. -/
def linked : Option IpReassHelper → List IpReassHelper → Bool
  | none, [] => true
  | none, iprh :: q => noHoles iprh q
  | some iprhPrev, q => noHoles iprhPrev q

theorem noHoles_iff {iprh : IpReassHelper} {q : List IpReassHelper} :
    noHoles iprh q ↔ Tiles IpReassHelper.start IpReassHelper.end_ iprh.end_ q := by
  induction q generalizing iprh with
  | nil => simp [noHoles, Tiles]
  | cons next q ih =>
    rw [noHoles, Tiles, Bool.and_eq_true, ih, beq_iff_eq, eq_comm]

/-- The fragments pass for one datagram when they tile it. -/
theorem linked_none_iff {q : List IpReassHelper} :
    ((q.head?.any fun head => head.start == 0) && linked none q) = true ↔
      q ≠ [] ∧ Tiles IpReassHelper.start IpReassHelper.end_ 0 q := by
  cases q with
  | nil => simp
  | cons head q => simp [linked, noHoles_iff, Tiles]

/-- Every kept fragment has its end after its start. -/
def Wide (q : List IpReassHelper) : Prop := ∀ h ∈ q, h.start ≤ h.end_

theorem Wide.tail {h : IpReassHelper} {q : List IpReassHelper} (hw : Wide (h :: q)) : Wide q :=
  fun h' hh' => hw h' (List.mem_cons_of_mem _ hh')

/-- The fragment before the rest of the list: all of the list comes after it, and so does
the new fragment. -/
def Behind (iprh : IpReassHelper) (iprhPrev : Option IpReassHelper) (q : List IpReassHelper) : Prop :=
  ∀ h, iprhPrev = some h → h.end_ ≤ iprh.start ∧ ∀ h' ∈ q, h.end_ ≤ h'.start

theorem not_overlaps_of_after {iprh head : IpReassHelper} {q : List IpReassHelper}
    (hwide : Wide (head :: q)) (hapart : Apart IpReassHelper.start IpReassHelper.end_ (head :: q))
    (hlt : iprh.start < head.start) (hend : iprh.end_ ≤ head.start) :
    ¬ Overlaps IpReassHelper.start IpReassHelper.end_ iprh (head :: q) := by
  rintro ⟨h, hh, hor⟩
  have hafter : head.start ≤ h.start := by
    rcases List.mem_cons.mp hh with rfl | hh
    · exact Nat.le_refl _
    · exact Nat.le_of_lt ((List.pairwise_cons.mp hapart).1 h hh).1
  have hw := hwide h hh
  omega

theorem overlaps_cons {iprh head : IpReassHelper} {q : List IpReassHelper} :
    Overlaps IpReassHelper.start IpReassHelper.end_ iprh (head :: q) ↔
      (head.start = iprh.start ∨ (iprh.start < head.end_ ∧ head.start < iprh.end_)) ∨
        Overlaps IpReassHelper.start IpReassHelper.end_ iprh q := by
  simp only [Overlaps, List.exists_mem_cons_iff]

/-- **The search for a place**: a fragment is refused exactly when it overlaps one, and
otherwise put in its place. Together with the walk after it the search has looked for
holes between all neighbours. -/
theorem insertFrag_eq {iprh : IpReassHelper} (hnew : iprh.start ≤ iprh.end_) {q : List IpReassHelper}
    (hwide : Wide q) (hapart : Apart IpReassHelper.start IpReassHelper.end_ q) {iprhPrev : Option IpReassHelper}
    (hprev : Behind iprh iprhPrev q) (valid : Bool) :
    (Overlaps IpReassHelper.start IpReassHelper.end_ iprh q ∧ insertFrag iprh iprhPrev valid q = .dropped) ∨
      (¬ Overlaps IpReassHelper.start IpReassHelper.end_ iprh q ∧ ∃ after valid',
        insertFrag iprh iprhPrev valid q = .queued (place IpReassHelper.start iprh q) after valid' ∧
          (valid' && noHoles iprh after) = (valid && linked iprhPrev (place IpReassHelper.start iprh q))) := by
  induction q generalizing iprhPrev valid with
  | nil =>
    refine .inr ⟨fun ⟨_, hmem, _⟩ => List.not_mem_nil hmem, ?_⟩
    cases iprhPrev with
    | none => exact ⟨[], valid, rfl, by simp [noHoles, linked, place]⟩
    | some prev =>
      have hle := (hprev prev rfl).1
      exact ⟨[], stillValid (some prev) valid iprh, by simp only [insertFrag, hle, not_true_eq_false, if_false, place],
        by simp [stillValid, noHoles, linked, place]⟩
  | cons iprhTmp q ih =>
    have htmp := hwide iprhTmp (List.mem_cons_self ..)
    by_cases hlt : iprh.start < iprhTmp.start
    · by_cases hend : iprh.end_ > iprhTmp.start
      · refine .inl ⟨overlaps_cons.mpr (.inl (.inr ⟨by omega, hend⟩)), ?_⟩
        cases iprhPrev with
        | none => simp only [insertFrag, hlt, if_true, hend]
        | some prev => simp only [insertFrag, hlt, if_true, hend, or_true]
      · refine .inr ⟨not_overlaps_of_after hwide hapart hlt (by omega), iprhTmp :: q, ?_⟩
        cases iprhPrev with
        | none =>
          exact ⟨valid, by simp only [insertFrag, hlt, if_true, hend, if_false, place],
            by simp only [linked, place, hlt, if_true]⟩
        | some prev =>
          have hle : ¬ iprh.start < prev.end_ := by
            have := (hprev prev rfl).1
            omega
          exact ⟨stillValid (some prev) valid iprh,
            by simp only [insertFrag, hlt, if_true, hend, hle, or_self, if_false, place],
            by simp only [stillValid, linked, place, hlt, if_true, noHoles, Bool.and_assoc]⟩
    · by_cases heq : iprh.start = iprhTmp.start
      · refine .inl ⟨overlaps_cons.mpr (.inl (.inl heq.symm)), ?_⟩
        simp only [insertFrag, heq, Nat.lt_irrefl, if_false, if_true]
      · by_cases hin : iprh.start < iprhTmp.end_
        · refine .inl ⟨overlaps_cons.mpr (.inl (.inr ⟨hin, by omega⟩)), ?_⟩
          simp only [insertFrag, hlt, heq, hin, if_false, if_true]
        · -- The fragment comes after this one: the search goes on in the rest of the list.
          have hrest := List.pairwise_cons.mp hapart
          have hbehind : Behind iprh (some iprhTmp) q := by
            rintro h ⟨⟩
            exact ⟨by omega, fun h' hh' => (hrest.1 h' hh').2⟩
          have hout : ¬ (iprhTmp.start = iprh.start ∨ (iprh.start < iprhTmp.end_ ∧ iprhTmp.start < iprh.end_)) := by omega
          have hplace : place IpReassHelper.start iprh (iprhTmp :: q) = iprhTmp :: place IpReassHelper.start iprh q := by
            rw [place, if_neg hlt]
          rw [overlaps_cons, or_iff_right hout, hplace]
          rcases ih hwide.tail hrest.2 hbehind (stillValid iprhPrev valid iprhTmp) with
            ⟨hover, hdrop⟩ | ⟨hover, after, valid', hqueued, hvalid⟩
          · refine .inl ⟨hover, ?_⟩
            simp only [insertFrag, hlt, heq, hin, if_false, hdrop]
          · refine .inr ⟨hover, after, valid', ?_, ?_⟩
            · simp only [insertFrag, hlt, heq, hin, if_false, hqueued]
            · rw [hvalid]
              cases iprhPrev with
              | none => rfl
              | some prev => simp only [stillValid, linked, noHoles, Bool.and_assoc]

/-- A fragment as it is kept. -/
def Pbuf.helper (p : Pbuf) : IpReassHelper := ⟨p.first, p.last, p⟩

/-- The fragment overlaps one that is kept. -/
abbrev Pbuf.Overlaps (p : Pbuf) (q : List IpReassHelper) : Prop :=
  Tiling.Overlaps IpReassHelper.start IpReassHelper.end_ p.helper q

/-- The fragments with a new one among them. -/
abbrev Pbuf.place (p : Pbuf) (q : List IpReassHelper) : List IpReassHelper :=
  Tiling.place IpReassHelper.start p.helper q

/-- The fragments make up a datagram. -/
abbrev Complete (q : List IpReassHelper) : Prop := Tiles IpReassHelper.start IpReassHelper.end_ 0 q

theorem helper_wide (p : Pbuf) : p.helper.start ≤ p.helper.end_ := Nat.le_add_right ..

/-- A length of the header that counts the header and the payload. -/
def Pbuf.Sized (p : Pbuf) : Prop :=
  iphHlBytes p.hdr ≤ iphLen p.hdr ∧ p.payload.length = iphLen p.hdr - iphHlBytes p.hdr

theorem Pbuf.Sized.wraps {p : Pbuf} (h : p.Sized) : (p.first + p.payload.length) % 2 ^ 16 < p.first ↔ 2 ^ 16 ≤ p.last := by
  have hlen := (ntoh16 p.hdr.totalLength).toNat_lt
  have hfirst : p.first ≤ 65528 := by
    rw [Pbuf.first, iphOffsetBytes_eq]
    omega
  have hpayload := h.2
  rw [iphLen] at hpayload
  clear h
  rw [Pbuf.last, ← Pbuf.first]
  omega

/-- **A fragment among the others of its datagram**: dropped if it ends too high or overlaps
one; otherwise kept, and the datagram is finished exactly when the last fragment is known
and the fragments tile it. -/
theorem chainFrag_eq {ipr : IpReassdata} {p : Pbuf} {last : Bool} (hsized : p.Sized) (hwide : Wide ipr.p)
    (hapart : Apart IpReassHelper.start IpReassHelper.end_ ipr.p)
    (hlast : (last || ipr.lastfrag) = true → ∃ h ∈ p.place ipr.p, h.start ≠ 0) :
    chainFrag ipr p last =
      if 2 ^ 16 ≤ p.last ∨ p.Overlaps ipr.p then some none
      else some (some (p.place ipr.p, (last || ipr.lastfrag) && decide (Complete (p.place ipr.p)))) := by
  have hwraps := hsized.wraps
  rw [hsized.2, Pbuf.first] at hwraps
  simp only [chainFrag]
  rw [if_neg (by have := hsized.1; omega)]
  by_cases hhigh : 2 ^ 16 ≤ p.last
  · rw [if_pos (hwraps.mpr hhigh), if_pos (.inl hhigh)]
  · rw [if_neg (fun h => hhigh (hwraps.mp h))]
    have hend : (iphOffsetBytes p.hdr + (iphLen p.hdr - iphHlBytes p.hdr)) % 2 ^ 16 = p.last := by
      rw [← hsized.2]
      exact Nat.mod_eq_of_lt (by rw [Pbuf.last] at hhigh; omega)
    rw [hend, show (⟨iphOffsetBytes p.hdr, p.last, p⟩ : IpReassHelper) = p.helper from rfl]
    have hprev : Behind p.helper none ipr.p := fun _ h => by cases h
    rcases insertFrag_eq (helper_wide p) hwide hapart hprev true with
      ⟨hover, hdrop⟩ | ⟨hover, after, valid, hqueued, hvalid⟩
    · rw [hdrop, if_pos (.inr hover)]
    · rw [hqueued, if_neg (by rintro (h | h); exacts [hhigh h, hover h])]
      -- Both walks and the look at the head of the list together.
      have hcomplete : (valid && ((p.place ipr.p).head?.any fun head => head.start == 0) && noHoles p.helper after) =
          decide (Complete (p.place ipr.p)) := by
        rw [Bool.and_right_comm, hvalid, Bool.true_and, Bool.and_comm, Bool.eq_iff_iff, linked_none_iff,
          decide_eq_true_iff, and_iff_right place_ne_nil]
      by_cases hknown : (last || ipr.lastfrag) = true
      · simp only [hknown, if_true, hcomplete, Bool.true_and]
        rw [if_neg]
        rintro ⟨htiles, hone⟩
        obtain ⟨h, hmem, hstart⟩ := hlast hknown
        obtain ⟨head, hhead⟩ := List.length_eq_one_iff.mp hone
        have htiles := of_decide_eq_true htiles
        rw [Complete, Pbuf.place, hhead] at htiles
        rw [Pbuf.place, hhead, List.mem_singleton] at hmem
        exact hstart (hmem ▸ htiles.1)
      · rw [Bool.not_eq_true] at hknown
        simp only [hknown, Bool.false_eq_true, if_false, Bool.false_and]

end TwilightLine.Ip4Frag
