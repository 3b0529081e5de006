import Mathlib.Data.List.Nodup
import Mathlib.Data.List.Perm.Basic
import TwilightLine.Lwip.Ip4FragPieces

/-! Runs of IPv4 reassembly.

`Inv` says what holds between calls: the fragments kept for a datagram are its own, in
order and apart, the buffers owned are exactly the ones of the kept fragments, and
`ip_reass_pbufcount` counts them. While a fragment is being placed it is owned but not yet
kept (`pending`). -/
namespace TwilightLine.Ip4Frag

open Tiling Run

/-! ### What is kept and what is gone -/

def ids (pbufs : List Pbuf) : List Nat := pbufs.map Pbuf.id

/-- `pbuf_clen` of several fragments together. -/
def clens (pbufs : List Pbuf) : Nat := (pbufs.map Pbuf.clen).sum

def IpReassdata.pbufs (ipr : IpReassdata) : List Pbuf := ipr.p.map IpReassHelper.pbuf

/-- The fragments kept for some datagrams. -/
def heldBy (datagrams : List IpReassdata) : List Pbuf := datagrams.flatMap IpReassdata.pbufs

def Reass.held (s : Reass) : List Pbuf := heldBy s.reassdatagrams

/-- The fragments that were freed or handed on. -/
def departures (log : List Action) : List Pbuf :=
  log.flatMap fun a => match a with
    | .freed p => [p]
    | .datagram pbufs _ _ => pbufs
    | _ => []

/-- What tells datagrams apart. -/
def key (h : Ipv4Header) : UInt32 × UInt32 × UInt16 := (h.sourceAddress, h.destinationAddress, h.identification)

theorem matches_iff_key {a b : Ipv4Header} : ipAddressesAndIdMatch a b ↔ key a = key b := by
  simp only [matches_iff, key, Prod.mk.injEq]

/-! ### The invariant -/

/-- A fragment kept for the datagram with the given header. -/
structure Piece (iphdr : Ipv4Header) (h : IpReassHelper) : Prop where
  kept : h = h.pbuf.helper
  same : ipAddressesAndIdMatch h.pbuf.hdr iphdr
  nonempty : 0 < h.pbuf.clen

/-- The fragments of one datagram. `news` are headers of fragments about to be kept. -/
structure Wf (news : List Ipv4Header) (ipr : IpReassdata) : Prop where
  apart : Apart IpReassHelper.start IpReassHelper.end_ ipr.p
  piece : ∀ h ∈ ipr.p, Piece ipr.iphdr h
  last : ipr.lastfrag → ∃ h ∈ ipr.p, isLast h.pbuf.hdr ∧ h.start ≠ 0 ∧ h.end_ = ipr.datagramLen ∧
    h.end_ ≤ 0xffff - ipHlen
  header : ∀ h ∈ ipr.p, h.start = 0 → h.pbuf.hdr = ipr.iphdr
  first : iphOffsetBytes ipr.iphdr = 0 → (∃ h ∈ ipr.p, h.start = 0) ∨ ipr.iphdr ∈ news

theorem Wf.wide {news : List Ipv4Header} {ipr : IpReassdata} (h : Wf news ipr) : Wide ipr.p := by
  intro f hf
  rw [(h.piece f hf).kept]
  exact helper_wide _

/-- A datagram handed on: the fragments are one datagram's, they tile it from its start,
the payloads stand behind each other, and the header is the one of the first fragment. The
length in it is where a fragment without `IP_MF` ends; when several such fragments came,
that one need not be the end of the tiling. -/
structure Datagram (pbufs : List Pbuf) (hdr : Ipv4Header) (payload : List UInt8) : Prop where
  same : ∀ p ∈ pbufs, ipAddressesAndIdMatch p.hdr hdr
  tiles : Tiles Pbuf.first Pbuf.last 0 pbufs
  payload_eq : payload = pbufs.flatMap Pbuf.payload
  header : ∃ first ∈ pbufs, ∃ last ∈ pbufs, first.first = 0 ∧ isLast last.hdr ∧
    hdr = datagramHeader first.hdr last.last

/-- `came` are the fragments that came in so far. -/
structure Inv (came pending : List Pbuf) (news : List Ipv4Header) (s : Reass) : Prop where
  wf : ∀ ipr ∈ s.reassdatagrams, Wf news ipr
  keys : (s.reassdatagrams.map fun ipr => key ipr.iphdr).Nodup
  count : s.ipReassPbufcount = clens s.held
  max : s.ipReassPbufcount ≤ ipReassMaxPbufs
  live : s.live.Perm (ids (s.held ++ pending))
  nodup : s.live.Nodup
  settled : came.Perm (s.held ++ pending ++ departures s.log)
  sound : ∀ pbufs hdr payload, .datagram pbufs hdr payload ∈ s.log → Datagram pbufs hdr payload

/-- Every datagram has a fragment. -/
def Full (s : Reass) : Prop := ∀ ipr ∈ s.reassdatagrams, ipr.p ≠ []

theorem inv_init : Inv [] [] [] init where
  wf := List.forall_mem_nil _
  keys := List.nodup_nil
  count := rfl
  max := Nat.zero_le _
  live := .refl _
  nodup := List.nodup_nil
  settled := .refl _
  sound := fun _ _ _ h => (List.not_mem_nil h).elim

/-! ### Freeing -/

theorem clens_append (a b : List Pbuf) : clens (a ++ b) = clens a + clens b := by
  rw [clens, List.map_append, List.sum_append, ← clens, ← clens]

theorem clens_perm {a b : List Pbuf} (h : a.Perm b) : clens a = clens b := (h.map Pbuf.clen).sum_eq

theorem held_perm {a b : List IpReassdata} (h : a.Perm b) : (heldBy a).Perm (heldBy b) := h.flatMap_right _

theorem heldBy_append (a b : List IpReassdata) : heldBy (a ++ b) = heldBy a ++ heldBy b := List.flatMap_append ..

theorem heldBy_cons (ipr : IpReassdata) (l : List IpReassdata) : heldBy (ipr :: l) = ipr.pbufs ++ heldBy l := rfl

theorem split_at {l : List IpReassdata} {i : Nat} {ipr : IpReassdata} (h : l[i]? = some ipr) :
    l.Perm (ipr :: l.eraseIdx i) := by
  obtain ⟨hi, rfl⟩ := List.getElem?_eq_some_iff.mp h
  exact (List.getElem_cons_eraseIdx_perm hi).symm

theorem set_at {l : List IpReassdata} {i : Nat} {ipr : IpReassdata} (h : l[i]? = some ipr) (ipr' : IpReassdata) :
    (l.set i ipr').Perm (ipr' :: l.eraseIdx i) :=
  List.set_perm_cons_eraseIdx (List.getElem?_eq_some_iff.mp h).1 ipr'

/-- The buffers owned once some are freed or handed on. -/
def release (live : List Nat) (pbufs : List Pbuf) : List Nat := pbufs.foldl (fun live p => live.erase p.id) live

theorem release_perm {live rest : List Nat} {pbufs : List Pbuf} (h : live.Perm (ids pbufs ++ rest)) :
    (release live pbufs).Perm rest := by
  induction pbufs generalizing live with
  | nil => exact h
  | cons p pbufs ih =>
    apply ih
    have herase := h.erase p.id
    rwa [ids, List.map_cons, List.cons_append, List.erase_cons_head] at herase

theorem release_nodup {live : List Nat} (pbufs : List Pbuf) (h : live.Nodup) : (release live pbufs).Nodup := by
  induction pbufs generalizing live with
  | nil => exact h
  | cons p pbufs ih => exact ih (h.erase p.id)

theorem departures_append (a b : List Action) : departures (a ++ b) = departures a ++ departures b :=
  List.flatMap_append ..

theorem departures_freed (pbufs : List Pbuf) : departures (pbufs.map .freed) = pbufs := by
  induction pbufs with
  | nil => rfl
  | cons p pbufs ih => exact congrArg (p :: ·) ih

theorem ids_append (a b : List Pbuf) : ids (a ++ b) = ids a ++ ids b := List.map_append ..

/-- An ICMP message moves no fragment. -/
theorem departures_timeExceeded (s : Reass) (hdr : Ipv4Header) :
    departures (s.emit (.timeExceeded hdr)).log = departures s.log := by
  rw [Reass.emit, departures_append]
  exact List.append_nil _

/-- All the fragments of a datagram are freed, whatever else is owned. -/
theorem freeFragments_eq {s : Reass} {rest : List Nat} {n : Nat} {q : List IpReassHelper}
    (hlive : s.live.Perm (ids (q.map IpReassHelper.pbuf) ++ rest)) (hn : n + clens (q.map IpReassHelper.pbuf) ≤ 0xffff) :
    s.freeFragments n q = some
      ({s with
          live := release s.live (q.map IpReassHelper.pbuf)
          log := s.log ++ (q.map IpReassHelper.pbuf).map .freed},
        n + clens (q.map IpReassHelper.pbuf)) := by
  induction q generalizing s n with
  | nil => simp [Reass.freeFragments, release, clens]
  | cons iprh q ih =>
    have hmem : iprh.pbuf.id ∈ s.live := hlive.mem_iff.mpr (by simp [ids])
    have herase := hlive.erase iprh.pbuf.id
    rw [List.map_cons, ids, List.map_cons, List.cons_append, List.erase_cons_head] at herase
    rw [List.map_cons, clens, List.map_cons, List.sum_cons, ← clens] at hn
    have hguard : n + iprh.pbuf.clen ≤ 0xffff := by omega
    rw [Reass.freeFragments, guard, if_pos hguard, Reass.pbufFree, if_pos hmem]
    simp only [Option.pure_def, Option.bind_eq_bind, Option.bind_some]
    rw [ih herase (by omega)]
    simp only [List.map_cons, release, List.foldl_cons, clens, List.sum_cons, List.append_assoc, List.singleton_append,
      Nat.add_assoc]

variable {came pending : List Pbuf} {news : List Ipv4Header} {s : Reass} {i : Nat} {ipr : IpReassdata}

/-- The state after a datagram was given up. -/
def Reass.dropped (s : Reass) (i : Nat) (ipr : IpReassdata) : Reass :=
  { reassdatagrams := s.reassdatagrams.eraseIdx i
    ipReassPbufcount := s.ipReassPbufcount - clens ipr.pbufs
    live := release s.live ipr.pbufs
    log := (if ipr.p.head?.any (fun h => h.start = 0) then s.emit (.timeExceeded ipr.iphdr) else s).log ++
      ipr.pbufs.map .freed }

theorem Inv.clens_le (h : Inv came pending news s) (hi : s.reassdatagrams[i]? = some ipr) :
    clens ipr.pbufs ≤ s.ipReassPbufcount := by
  rw [h.count, Reass.held, clens_perm (held_perm (split_at hi)), heldBy_cons, clens_append]
  exact Nat.le_add_right ..

/-- The buffers owned, with those of one datagram first. -/
theorem Inv.live_split (h : Inv came pending news s) (hi : s.reassdatagrams[i]? = some ipr) :
    s.live.Perm (ids ipr.pbufs ++ ids (heldBy (s.reassdatagrams.eraseIdx i) ++ pending)) := by
  have hheld := ((held_perm (split_at hi)).append_right pending).map Pbuf.id
  rw [heldBy_cons, List.append_assoc] at hheld
  rw [← ids_append]
  exact h.live.trans hheld

/-- **Giving up on a datagram** works exactly if it has a fragment. -/
theorem Inv.freeComplete_eq (h : Inv came pending news s) (hi : s.reassdatagrams[i]? = some ipr) :
    s.ipReassFreeCompleteDatagram i = if ipr.p = [] then none else some (s.dropped i ipr, clens ipr.pbufs) := by
  rw [Reass.ipReassFreeCompleteDatagram, hi]
  simp only [Option.bind_eq_bind, Option.bind_some]
  cases hp : ipr.p with
  | nil => rw [if_pos rfl, List.head?_nil, Option.bind_none]
  | cons head q =>
    have hle := h.clens_le hi
    have hmax := h.max
    rw [ipReassMaxPbufs] at hmax
    rw [if_neg (List.cons_ne_nil _ _), List.head?_cons, Option.bind_some, ← hp]
    have hlive := h.live_split hi
    have hfree : ∀ t : Reass, t.live = s.live → t.freeFragments 0 ipr.p = some
        ({t with live := release t.live ipr.pbufs, log := t.log ++ ipr.pbufs.map .freed}, 0 + clens ipr.pbufs) := by
      intro t ht
      exact freeFragments_eq (ht ▸ hlive) (by rw [← IpReassdata.pbufs]; omega)
    by_cases hstart : head.start = 0
    · rw [if_pos hstart, hfree (s.emit _) rfl]
      simp only [Option.bind_some, guard, Reass.emit, Nat.zero_add, ge_iff_le, if_pos hle, Option.pure_def, Reass.dropped,
        hp, List.head?_cons, Option.any_some, hstart, decide_true, if_true]
    · rw [if_neg hstart, hfree _ rfl]
      simp only [Option.bind_some, guard, Nat.zero_add, ge_iff_le, if_pos hle, Option.pure_def, Reass.dropped,
        hp, List.head?_cons, Option.any_some, hstart, decide_false, Bool.false_eq_true, if_false]

theorem Inv.dropped (h : Inv came pending news s) (hi : s.reassdatagrams[i]? = some ipr) :
    Inv came pending news (s.dropped i ipr) where
  wf := fun ipr' hmem => h.wf ipr' (List.mem_of_mem_eraseIdx hmem)
  keys := h.keys.sublist ((List.eraseIdx_sublist ..).map _)
  count := by
    have hcount := h.count
    rw [Reass.held, clens_perm (held_perm (split_at hi)), heldBy_cons, clens_append] at hcount
    simp only [Reass.dropped, Reass.held]
    omega
  max := (Nat.sub_le ..).trans h.max
  live := release_perm (h.live_split hi)
  nodup := release_nodup _ h.nodup
  settled := by
    have hdepartures : departures (s.dropped i ipr).log = departures s.log ++ ipr.pbufs := by
      simp only [Reass.dropped, departures_append, departures_freed]
      split
      · rw [departures_timeExceeded]
      · rfl
    rw [hdepartures]
    have hheld := held_perm (split_at hi)
    rw [heldBy_cons] at hheld
    have hsplit := (hheld.append_right pending).append_right (departures s.log)
    refine (h.settled.trans hsplit).trans ?_
    simp only [List.append_assoc]
    refine List.Perm.trans (List.perm_append_comm : (ipr.pbufs ++ _).Perm (_ ++ ipr.pbufs)) ?_
    simp only [List.append_assoc]
    exact .refl _
  sound := by
    intro pbufs hdr payload hmem
    apply h.sound pbufs hdr payload
    simp only [Reass.dropped] at hmem
    split at hmem <;> simpa [Reass.emit] using hmem

/-! ### Time -/

/-- A datagram changed in nothing that is kept. -/
theorem Inv.set (h : Inv came pending news s) (hi : s.reassdatagrams[i]? = some ipr) {ipr' : IpReassdata} {news' : List Ipv4Header}
    (hnews : ∀ hdr ∈ news, hdr ∈ news') (hwf : Wf news' ipr') (hpbufs : ipr'.pbufs = ipr.pbufs)
    (hkey : key ipr'.iphdr = key ipr.iphdr) :
    Inv came pending news' {s with reassdatagrams := s.reassdatagrams.set i ipr'} := by
  have hperm := set_at hi ipr'
  have hheld : (heldBy (s.reassdatagrams.set i ipr')).Perm s.held := by
    refine (held_perm hperm).trans ?_
    rw [heldBy_cons, hpbufs, ← heldBy_cons]
    exact (held_perm (split_at hi)).symm
  exact
    { wf := by
        intro ipr'' hmem
        rcases List.mem_cons.mp (hperm.mem_iff.mp hmem) with rfl | hmem
        · exact hwf
        · have hw := h.wf ipr'' (List.mem_of_mem_eraseIdx hmem)
          exact ⟨hw.apart, hw.piece, hw.last, hw.header, fun h0 => (hw.first h0).imp_right (hnews _)⟩
      keys := by
        have hkeys := h.keys
        rw [((split_at hi).map fun ipr => key ipr.iphdr).nodup_iff, List.map_cons] at hkeys
        rw [(hperm.map fun ipr => key ipr.iphdr).nodup_iff, List.map_cons, hkey]
        exact hkeys
      count := by rw [Reass.held, clens_perm hheld, ← h.count]
      max := h.max
      live := h.live.trans ((hheld.symm.append_right pending).map Pbuf.id)
      nodup := h.nodup
      settled := h.settled.trans ((hheld.symm.append_right pending).append_right _)
      sound := h.sound }

/-- One tick less for a datagram. -/
theorem Inv.aged (h : Inv came pending news s) (hi : s.reassdatagrams[i]? = some ipr) :
    Inv came pending news {s with reassdatagrams := s.reassdatagrams.set i {ipr with timer := ipr.timer - 1}} :=
  have hw := h.wf ipr (List.mem_of_getElem? hi)
  h.set hi (fun _ => id) ⟨hw.apart, hw.piece, hw.last, hw.header, hw.first⟩ rfl rfl

theorem Full.set {s : Reass} (h : Full s) {i : Nat} {ipr' : IpReassdata} (hp : ipr'.p ≠ []) :
    Full {s with reassdatagrams := s.reassdatagrams.set i ipr'} := by
  intro ipr hmem
  rcases List.mem_or_eq_of_mem_set hmem with hmem | rfl
  · exact h ipr hmem
  · exact hp

theorem Full.dropped (h : Full s) : Full (s.dropped i ipr) :=
  fun ipr' hmem => h ipr' (List.mem_of_mem_eraseIdx hmem)

/-- **A tick of the timer** fails only on a datagram without a fragment. -/
theorem Inv.tmrLoop (h : Inv came pending news s) (i n : Nat) :
    (∃ s', s.tmrLoop i n = some s' ∧ Inv came pending news s' ∧ (Full s → Full s')) ∨
      (s.tmrLoop i n = none ∧ ¬ Full s) := by
  induction n generalizing s i with
  | zero => exact .inl ⟨s, rfl, h, id⟩
  | succ n ih =>
    rw [Reass.tmrLoop]
    cases hi : s.reassdatagrams[i]? with
    | none => exact .inl ⟨s, rfl, h, id⟩
    | some r =>
      have hmem := List.mem_of_getElem? hi
      have hw := h.wf r hmem
      simp only
      by_cases htimer : r.timer > 0
      · rw [if_pos htimer]
        have hset := h.aged hi
        have hfull : Full s → Full {s with reassdatagrams := s.reassdatagrams.set i {r with timer := r.timer - 1}} :=
          fun hf => hf.set (hf r hmem)
        rcases ih hset (i + 1) with ⟨s', heq, hinv, hf⟩ | ⟨heq, hf⟩
        · exact .inl ⟨s', heq, hinv, fun hs => hf (hfull hs)⟩
        · exact .inr ⟨heq, fun hs => hf (hfull hs)⟩
      · rw [if_neg htimer, h.freeComplete_eq hi]
        by_cases hp : r.p = []
        · rw [if_pos hp]
          exact .inr ⟨rfl, fun hs => hs r hmem hp⟩
        · rw [if_neg hp]
          rcases ih (h.dropped hi) i with ⟨s', heq, hinv, hf⟩ | ⟨heq, hf⟩
          · exact .inl ⟨s', heq, hinv, fun hs => hf hs.dropped⟩
          · exact .inr ⟨heq, fun hs => hf hs.dropped⟩

/-! ### Making room -/

/-- The datagrams that a fragment does not belong to. -/
def others (fraghdr : Ipv4Header) (s : Reass) : List IpReassdata :=
  s.reassdatagrams.filter fun r => !ipAddressesAndIdMatch r.iphdr fraghdr

/-- The datagram that a fragment belongs to, if there is one. -/
def own (fraghdr : Ipv4Header) (s : Reass) : List IpReassdata :=
  s.reassdatagrams.filter fun r => ipAddressesAndIdMatch r.iphdr fraghdr

theorem findOldest_snd (fraghdr : Ipv4Header) (l : List IpReassdata) (i : Nat) (oldest : Option (Nat × Nat)) (n : Nat) :
    (findOldest fraghdr i oldest n l).2 = n + (l.filter fun r => !ipAddressesAndIdMatch r.iphdr fraghdr).length := by
  induction l generalizing i oldest n with
  | nil => rfl
  | cons r rest ih =>
    cases hr : ipAddressesAndIdMatch r.iphdr fraghdr with
    | true => simp [findOldest, hr, ih]
    | false =>
      simp [findOldest, hr, ih]
      omega

/-- What is found is some other datagram. -/
theorem findOldest_fst {fraghdr : Ipv4Header} {l : List IpReassdata} {i : Nat} {oldest : Option (Nat × Nat)} {n : Nat}
    {found : Nat × Nat} (h : (findOldest fraghdr i oldest n l).1 = some found) :
    (∃ timer, oldest = some (found.1, timer)) ∨
      ∃ k r, found.1 = i + k ∧ l[k]? = some r ∧ ipAddressesAndIdMatch r.iphdr fraghdr = false := by
  induction l generalizing i oldest n with
  | nil => exact .inl ⟨found.2, h⟩
  | cons r rest ih =>
    cases hr : ipAddressesAndIdMatch r.iphdr fraghdr with
    | true =>
      simp only [findOldest, hr, if_true] at h
      rcases ih h with hold | ⟨k, r', hk, hget, hr'⟩
      · exact .inl hold
      · exact .inr ⟨k + 1, r', by omega, hget, hr'⟩
    | false =>
      simp only [findOldest, hr, Bool.false_eq_true, if_false] at h
      rcases ih h with ⟨timer, hold⟩ | ⟨k, r', hk, hget, hr'⟩
      · -- Either this datagram is the oldest so far, or an earlier one still is.
        have hhere : ∃ k r', i = i + k ∧ (r :: rest)[k]? = some r' ∧ ipAddressesAndIdMatch r'.iphdr fraghdr = false :=
          ⟨0, r, rfl, rfl, hr⟩
        cases oldest with
        | none =>
          injection hold with hold
          rw [← congrArg Prod.fst hold]
          exact .inr hhere
        | some o =>
          simp only at hold
          split at hold
          · injection hold with hold
            rw [← congrArg Prod.fst hold]
            exact .inr hhere
          · injection hold with hold
            exact .inl ⟨o.2, by rw [← congrArg Prod.fst hold]⟩
      · exact .inr ⟨k + 1, r', by omega, hget, hr'⟩

theorem findOldest_none {fraghdr : Ipv4Header} {l : List IpReassdata} {i : Nat} {oldest : Option (Nat × Nat)} {n : Nat}
    (h : (findOldest fraghdr i oldest n l).1 = none) :
    oldest = none ∧ (l.filter fun r => !ipAddressesAndIdMatch r.iphdr fraghdr) = [] := by
  induction l generalizing i oldest n with
  | nil => exact ⟨h, rfl⟩
  | cons r rest ih =>
    cases hr : ipAddressesAndIdMatch r.iphdr fraghdr with
    | true =>
      simp only [findOldest, hr, if_true] at h
      simpa [hr] using ih h
    | false =>
      simp only [findOldest, hr, Bool.false_eq_true, if_false] at h
      exact (Option.some_ne_none _ (ih h).1).elim

theorem filter_eraseIdx {l : List IpReassdata} {i : Nat} {r : IpReassdata} {f : IpReassdata → Bool}
    (hi : l[i]? = some r) (hr : f r = false) : (l.eraseIdx i).filter f = l.filter f := by
  induction l generalizing i with
  | nil => rfl
  | cons x l ih =>
    cases i with
    | zero =>
      cases hi
      rw [List.eraseIdx_cons_zero, List.filter_cons_of_neg (by simp [hr])]
    | succ i =>
      rw [List.eraseIdx_cons_succ, List.filter_cons, List.filter_cons, ih hi]

theorem Inv.clens_pos (h : Inv came pending news s) (hi : s.reassdatagrams[i]? = some ipr) (hp : ipr.p ≠ []) :
    0 < clens ipr.pbufs := by
  obtain ⟨head, q, hq⟩ := List.exists_cons_of_ne_nil hp
  have hpiece := (h.wf ipr (List.mem_of_getElem? hi)).piece head (by rw [hq]; exact List.mem_cons_self ..)
  have hpos := hpiece.nonempty
  rw [IpReassdata.pbufs, hq, clens, List.map_cons, List.map_cons, List.sum_cons]
  omega

/-- The state after other datagrams were given up to make room for a fragment. -/
structure MadeRoom (fraghdr : Ipv4Header) (came pending : List Pbuf) (news : List Ipv4Header) (s s' : Reass) : Prop where
  inv : Inv came pending news s'
  own : own fraghdr s' = own fraghdr s
  full : Full s → Full s'

/-- **Giving up on the oldest datagrams** until enough buffers are free or only the
fragment's own datagram is left. -/
theorem Inv.removeOldestLoop (h : Inv came pending news s) (fraghdr : Ipv4Header) (needed : Nat) {rounds : Nat} (n : Nat)
    (hrounds : (others fraghdr s).length < rounds) :
    (∃ s' m, Reass.removeOldestLoop fraghdr needed rounds s n = some (s', m) ∧ MadeRoom fraghdr came pending news s s' ∧
        m + s'.ipReassPbufcount = n + s.ipReassPbufcount ∧ (needed ≤ m ∨ others fraghdr s' = []) ∧
        (others fraghdr s ≠ [] → n < m) ∧ (others fraghdr s = [] → m = n)) ∨
      (Reass.removeOldestLoop fraghdr needed rounds s n = none ∧ ¬ Full s) := by
  induction rounds generalizing s n with
  | zero => omega
  | succ rounds ih =>
    rw [Reass.removeOldestLoop]
    have hcount := findOldest_snd fraghdr s.reassdatagrams 0 none 0
    cases hfound : findOldest fraghdr 0 none 0 s.reassdatagrams with
    | mk oldest otherDatagrams =>
      rw [hfound, Nat.zero_add] at hcount
      simp only [Option.bind_eq_bind]
      cases oldest with
      | none =>
        have hnone : others fraghdr s = [] := (findOldest_none (by rw [hfound])).2
        have hzero : otherDatagrams = 0 := hcount.trans (congrArg List.length hnone)
        rw [Option.bind_some, if_neg (by omega)]
        exact .inl ⟨s, n, rfl, ⟨h, rfl, id⟩, rfl, .inr hnone, fun hne => (hne hnone).elim, fun _ => rfl⟩
      | some found =>
        have hsome : (findOldest fraghdr 0 none 0 s.reassdatagrams).1 = some found := by rw [hfound]
        rcases findOldest_fst hsome with ⟨_, hold⟩ | ⟨k, r, hk, hi, hr⟩
        · cases hold
        · rw [Nat.zero_add] at hk
          subst hk
          simp only [h.freeComplete_eq hi]
          by_cases hp : r.p = []
          · rw [if_pos hp]
            exact .inr ⟨rfl, fun hs => hs r (List.mem_of_getElem? hi) hp⟩
          · rw [if_neg hp]
            simp only [Option.bind_some]
            have hinv := h.dropped hi
            have hpos := h.clens_pos hi hp
            have hle := h.clens_le hi
            have hown : own fraghdr (s.dropped found.1 r) = own fraghdr s := filter_eraseIdx hi hr
            have hothers : (others fraghdr s).length = (others fraghdr (s.dropped found.1 r)).length + 1 := by
              have hperm := (split_at hi).filter fun r => !ipAddressesAndIdMatch r.iphdr fraghdr
              rw [List.filter_cons_of_pos (by simp [hr])] at hperm
              exact hperm.length_eq
            have hne : others fraghdr s ≠ [] := by
              intro hnil
              rw [hnil] at hothers
              exact absurd hothers.symm (Nat.succ_ne_zero _)
            have hdropcount : (s.dropped found.1 r).ipReassPbufcount = s.ipReassPbufcount - clens r.pbufs := rfl
            by_cases hagain : n + clens r.pbufs < needed ∧ otherDatagrams > 1
            · rw [if_pos hagain]
              rcases ih hinv (n + clens r.pbufs) (by omega) with
                ⟨s', m, heq, hmade, hsum, hexit, hgrows, hsame⟩ | ⟨heq, hfull⟩
              · refine .inl ⟨s', m, heq, ⟨hmade.inv, hmade.own.trans hown, fun hs => hmade.full hs.dropped⟩, by omega, hexit,
                  fun _ => ?_, fun hnil => (hne hnil).elim⟩
                by_cases hleft : others fraghdr (s.dropped found.1 r) = []
                · have := hsame hleft
                  omega
                · have := hgrows hleft
                  omega
              · exact .inr ⟨heq, fun hs => hfull hs.dropped⟩
            · rw [if_neg hagain]
              refine .inl ⟨_, _, rfl, ⟨hinv, hown, fun hs => hs.dropped⟩, by omega, ?_, fun _ => by omega,
                fun hnil => (hne hnil).elim⟩
              rw [not_and_or] at hagain
              rcases hagain with hdone | hlast
              · exact .inl (by omega)
              · refine .inr (List.eq_nil_of_length_eq_zero ?_)
                have : otherDatagrams = (others fraghdr s).length := hcount
                omega

theorem Inv.count_split (h : Inv came pending news s) (fraghdr : Ipv4Header) :
    s.ipReassPbufcount = clens (heldBy (own fraghdr s)) + clens (heldBy (others fraghdr s)) := by
  rw [h.count, Reass.held, ← clens_append, ← heldBy_append]
  exact clens_perm (held_perm (List.filter_append_perm ..).symm)

/-- **Room for a fragment** is there, or is made, exactly when the fragment's own datagram
leaves it. -/
theorem Inv.makeRoom (h : Inv came pending news s) (p : Pbuf) :
    (∃ s' room, s.makeRoom p = some (s', room) ∧ MadeRoom p.hdr came pending news s s' ∧
        (room = true ↔ clens (heldBy (own p.hdr s)) + p.clen ≤ ipReassMaxPbufs) ∧
        (room = true → s'.ipReassPbufcount + p.clen ≤ ipReassMaxPbufs)) ∨
      (s.makeRoom p = none ∧ ¬ Full s) := by
  have hsplit := h.count_split p.hdr
  have hmax := h.max
  rw [Reass.makeRoom]
  by_cases hfull : s.ipReassPbufcount + p.clen > ipReassMaxPbufs
  · rw [if_pos hfull]
    have hrounds : (others p.hdr s).length < s.reassdatagrams.length + 1 :=
      Nat.lt_succ_of_le (List.length_filter_le ..)
    rcases h.removeOldestLoop p.hdr p.clen 0 hrounds with ⟨s', m, heq, hmade, hsum, hexit, hgrows, hsame⟩ | ⟨heq, hnot⟩
    · refine .inl ⟨s', decide (m ≠ 0 ∧ s'.ipReassPbufcount + p.clen ≤ ipReassMaxPbufs), ?_, hmade, ?_, fun hroom => ?_⟩
      · rw [Reass.ipReassRemoveOldestDatagram, heq]
        rfl
      · have hsplit' := hmade.inv.count_split p.hdr
        rw [hmade.own] at hsplit'
        rw [decide_eq_true_iff]
        by_cases hnone : others p.hdr s = []
        · have := hsame hnone
          rw [hnone, show clens (heldBy []) = 0 from rfl] at hsplit
          omega
        · have := hgrows hnone
          rcases hexit with hdone | hleft
          · omega
          · rw [hleft, show clens (heldBy []) = 0 from rfl] at hsplit'
            omega
      · exact (of_decide_eq_true hroom).2
    · refine .inr ⟨?_, hnot⟩
      rw [Reass.ipReassRemoveOldestDatagram, heq]
      rfl
  · rw [if_neg hfull]
    refine .inl ⟨s, true, rfl, ⟨h, rfl, id⟩, ?_, fun _ => by omega⟩
    rw [eq_self, true_iff]
    omega

/-! ### A fragment on its way -/

/-- The fragment comes in. -/
def Reass.received (s : Reass) (p : Pbuf) : Reass := {s with live := p.id :: s.live}

variable {p : Pbuf}

theorem Inv.received (h : Inv came [] [] s) (hnew : p.id ∉ s.live) : Inv (came ++ [p]) [p] [] (s.received p) where
  wf := h.wf
  keys := h.keys
  count := h.count
  max := h.max
  live := by
    have hlive := h.live.cons p.id
    rw [List.append_nil] at hlive
    rw [ids_append]
    exact hlive.trans (List.perm_append_singleton ..).symm
  nodup := List.nodup_cons.mpr ⟨hnew, h.nodup⟩
  settled := by
    have hsettled := h.settled
    rw [List.append_nil] at hsettled
    rw [List.append_assoc]
    have hadd := hsettled.append_right [p]
    rw [List.append_assoc] at hadd
    exact hadd.trans (List.perm_append_comm.append_left _)
  sound := h.sound

/-- The fragment is freed instead of kept. -/
def Reass.refused (s : Reass) (p : Pbuf) : Reass := {s with live := s.live.erase p.id, log := s.log ++ [.freed p]}

theorem Inv.mem_live (h : Inv came [p] news s) : p.id ∈ s.live :=
  h.live.mem_iff.mpr (by simp [ids])

theorem Inv.pbufFree_eq (h : Inv came [p] news s) : s.pbufFree p = some (s.refused p) := by
  rw [Reass.pbufFree, if_pos h.mem_live, Reass.refused]

/-- Freed once more. -/
theorem Inv.pbufFree_twice (h : Inv came [p] news s) : (s.refused p).pbufFree p = none := by
  rw [Reass.pbufFree, if_neg]
  exact h.nodup.not_mem_erase

theorem Inv.refused (h : Inv came [p] news s) (hwf : ∀ ipr ∈ s.reassdatagrams, Wf [] ipr) : Inv came [] [] (s.refused p) where
  wf := hwf
  keys := h.keys
  count := h.count
  max := h.max
  live := by
    have hlive := (h.live.trans (List.perm_append_comm.map Pbuf.id)).erase p.id
    rw [List.singleton_append, List.map_cons, List.erase_cons_head] at hlive
    rw [List.append_nil]
    exact hlive
  nodup := h.nodup.erase _
  settled := by
    have hsettled := h.settled
    rw [Reass.refused, departures_append, List.append_nil, show departures [Action.freed p] = [p] from rfl]
    rw [List.append_assoc] at hsettled
    exact hsettled.trans (List.perm_append_comm.append_left _)
  sound := by
    intro pbufs hdr payload hmem
    apply h.sound pbufs hdr payload
    simpa [Reass.refused] using hmem

/-! ### A fragment in its place -/

/-- What is asked of a fragment that reaches its datagram. -/
structure Fits (ipr : IpReassdata) (p : Pbuf) : Prop where
  sized : p.Sized
  same : ipAddressesAndIdMatch p.hdr ipr.iphdr
  frag : p.hdr.flags3Fragmentoffset13 &&& hton16 0x3fff ≠ 0
  nonempty : 0 < p.clen
  first : p.first = 0 → ipr.iphdr = p.hdr ∨ ∃ h ∈ ipr.p, h.start = 0

/-- The last fragment ends beyond what an IPv4 packet can hold. -/
def Pbuf.Oversized (p : Pbuf) : Prop := isLast p.hdr ∧ 0xffff - ipHlen < p.last

instance (p : Pbuf) : Decidable p.Oversized := inferInstanceAs (Decidable (_ ∧ _))

/-- The datagram with a fragment more. -/
def IpReassdata.keep (ipr : IpReassdata) (p : Pbuf) : IpReassdata :=
  let ipr := {ipr with p := p.place ipr.p}
  if isLast p.hdr then {ipr with datagramLen := p.last, lastfrag := true} else ipr

@[simp] theorem keep_p : (ipr.keep p).p = p.place ipr.p := by
  unfold IpReassdata.keep
  split <;> rfl

@[simp] theorem keep_iphdr : (ipr.keep p).iphdr = ipr.iphdr := by
  unfold IpReassdata.keep
  split <;> rfl

theorem keep_pbufs : (ipr.keep p).pbufs.Perm (p :: ipr.pbufs) := by
  rw [IpReassdata.pbufs, keep_p]
  exact place_perm.map IpReassHelper.pbuf

theorem keep_lastfrag : (ipr.keep p).lastfrag = (isLast p.hdr || ipr.lastfrag) := by
  cases hlast : isLast p.hdr <;> simp [IpReassdata.keep, hlast]

/-- **A fragment that overlaps none is one more fragment of its datagram.** -/
theorem Wf.keep (h : Wf news ipr) (hfits : Fits ipr p) (hsize : ¬ p.Oversized) (hapart : ¬ p.Overlaps ipr.p)
    (hnews : ∀ hdr ∈ news, hdr = p.hdr) : Wf [] (ipr.keep p) where
  apart := by
    rw [keep_p]
    exact h.apart.place h.wide (helper_wide p) hapart
  piece := by
    rw [keep_p, keep_iphdr]
    intro f hf
    rcases mem_place.mp hf with rfl | hf
    · exact ⟨rfl, hfits.same, hfits.nonempty⟩
    · exact h.piece f hf
  last := by
    intro hknown
    rw [keep_p]
    by_cases hlast : isLast p.hdr = true
    · refine ⟨p.helper, mem_place.mpr (.inl rfl), hlast, offset_of_last hfits.frag hlast, ?_, ?_⟩
      · simp [IpReassdata.keep, hlast, Pbuf.helper]
      · exact Nat.le_of_not_lt fun hlt => hsize ⟨hlast, hlt⟩
    · have hkeep : ipr.keep p = {ipr with p := p.place ipr.p} := by simp [IpReassdata.keep, hlast]
      rw [hkeep] at hknown ⊢
      obtain ⟨f, hf, hrest⟩ := h.last hknown
      exact ⟨f, mem_place.mpr (.inr hf), hrest⟩
  header := by
    rw [keep_p, keep_iphdr]
    intro f hf hstart
    rcases mem_place.mp hf with rfl | hf
    · rcases hfits.first hstart with heq | ⟨g, hg, hzero⟩
      · exact heq.symm
      · exact (hapart ⟨g, hg, .inl (hzero.trans hstart.symm)⟩).elim
    · exact h.header f hf hstart
  first := by
    rw [keep_p, keep_iphdr]
    intro hzero
    rcases h.first hzero with ⟨f, hf, hstart⟩ | hmem
    · exact .inl ⟨f, mem_place.mpr (.inr hf), hstart⟩
    · refine .inl ⟨p.helper, mem_place.mpr (.inl rfl), ?_⟩
      rwa [hnews _ hmem] at hzero

/-- Only the fragment's own datagram can have its header from the fragment. -/
theorem Inv.wf_others (h : Inv came pending news s) (hi : s.reassdatagrams[i]? = some ipr)
    (hnews : ∀ hdr ∈ news, key hdr = key ipr.iphdr) :
    ∀ ipr' ∈ s.reassdatagrams.eraseIdx i, Wf [] ipr' := by
  intro ipr' hmem
  have hkeys := h.keys
  rw [((split_at hi).map fun ipr => key ipr.iphdr).nodup_iff, List.map_cons, List.nodup_cons] at hkeys
  have hw := h.wf ipr' (List.mem_of_mem_eraseIdx hmem)
  refine ⟨hw.apart, hw.piece, hw.last, hw.header, fun hzero => (hw.first hzero).imp_right fun hin => ?_⟩
  exact (hkeys.1 (hnews _ hin ▸ List.mem_map_of_mem hmem)).elim

/-- The state with the fragment kept. -/
def Reass.kept (s : Reass) (i : Nat) (ipr : IpReassdata) (p : Pbuf) : Reass :=
  {s with
    reassdatagrams := s.reassdatagrams.set i (ipr.keep p)
    ipReassPbufcount := (s.ipReassPbufcount + p.clen) % 2 ^ 16}

theorem Inv.kept (h : Inv came [p] news s) (hi : s.reassdatagrams[i]? = some ipr) (hfits : Fits ipr p) (hsize : ¬ p.Oversized)
    (hapart : ¬ p.Overlaps ipr.p) (hroom : s.ipReassPbufcount + p.clen ≤ ipReassMaxPbufs)
    (hnews : ∀ hdr ∈ news, hdr = p.hdr) : Inv came [] [] (s.kept i ipr p) := by
  have hperm := set_at hi (ipr.keep p)
  have hheld : (s.kept i ipr p).held.Perm (s.held ++ [p]) := by
    have hbefore := held_perm (split_at hi)
    have hafter := held_perm hperm
    rw [heldBy_cons] at hbefore hafter
    have hpbufs := (keep_pbufs : (ipr.keep p).pbufs.Perm (p :: ipr.pbufs)).append_right (heldBy (s.reassdatagrams.eraseIdx i))
    exact (hafter.trans (hpbufs.trans (hbefore.symm.cons p))).trans (List.perm_append_singleton ..).symm
  have hcount : (s.ipReassPbufcount + p.clen) % 2 ^ 16 = s.ipReassPbufcount + p.clen := by
    rw [ipReassMaxPbufs] at hroom
    omega
  exact
    { wf := by
        intro ipr' hmem
        rcases List.mem_cons.mp (hperm.mem_iff.mp hmem) with rfl | hmem
        · exact (h.wf ipr (List.mem_of_getElem? hi)).keep hfits hsize hapart hnews
        · refine h.wf_others hi (fun hdr hin => ?_) ipr' hmem
          rw [hnews hdr hin]
          exact matches_iff_key.mp hfits.same
      keys := by
        have hkeys := h.keys
        rw [((split_at hi).map fun ipr => key ipr.iphdr).nodup_iff, List.map_cons] at hkeys
        rw [Reass.kept, (hperm.map fun ipr => key ipr.iphdr).nodup_iff, List.map_cons, keep_iphdr]
        exact hkeys
      count := by
        rw [clens_perm hheld, clens_append, ← h.count]
        exact hcount
      max := by
        rw [Reass.kept, hcount]
        exact hroom
      live := by
        rw [List.append_nil]
        exact h.live.trans (hheld.symm.map Pbuf.id)
      nodup := h.nodup
      settled := by
        rw [List.append_nil]
        exact h.settled.trans (hheld.symm.append_right _)
      sound := h.sound }

/-! ### A datagram handed on -/

theorem tiles_pbufs {n : Nat} {q : List IpReassHelper} (hkept : ∀ h ∈ q, h = h.pbuf.helper)
    (h : Tiles IpReassHelper.start IpReassHelper.end_ n q) : Tiles Pbuf.first Pbuf.last n (q.map IpReassHelper.pbuf) := by
  induction q generalizing n with
  | nil => trivial
  | cons f q ih =>
    have hf := hkept f (List.mem_cons_self ..)
    refine ⟨(congrArg IpReassHelper.start hf).symm.trans h.1, ?_⟩
    have hrest := ih (fun g hg => hkept g (List.mem_cons_of_mem _ hg)) h.2
    rwa [congrArg IpReassHelper.end_ hf] at hrest

/-- The fragments of a finished datagram make a datagram. -/
theorem Wf.datagram (h : Wf news ipr) (hcomplete : Complete ipr.p) (hlast : ipr.lastfrag = true) :
    Datagram ipr.pbufs (datagramHeader ipr.iphdr ipr.datagramLen) (ipr.pbufs.flatMap Pbuf.payload) where
  same := by
    intro p hp
    obtain ⟨f, hf, rfl⟩ := List.mem_map.mp hp
    have hsame := (h.piece f hf).same
    rw [matches_iff] at hsame ⊢
    exact hsame
  tiles := tiles_pbufs (fun f hf => (h.piece f hf).kept) hcomplete
  payload_eq := rfl
  header := by
    obtain ⟨l, hl, hislast, -, hend, -⟩ := h.last hlast
    obtain ⟨head, q, hq⟩ := List.exists_cons_of_ne_nil (List.ne_nil_of_mem hl)
    have hhead : head ∈ ipr.p := by rw [hq]; exact List.mem_cons_self ..
    have hstart : head.start = 0 := by
      rw [Complete, hq] at hcomplete
      exact hcomplete.1
    refine ⟨head.pbuf, List.mem_map_of_mem hhead, l.pbuf, List.mem_map_of_mem hl, ?_, hislast, ?_⟩
    · rw [(h.piece head hhead).kept] at hstart
      exact hstart
    · have hlen : l.pbuf.last = ipr.datagramLen := (congrArg IpReassHelper.end_ (h.piece l hl).kept).symm.trans hend
      rw [h.header head hhead hstart, hlen]

theorem departures_datagram (log : List Action) (pbufs : List Pbuf) (hdr : Ipv4Header) (payload : List UInt8) :
    departures (log ++ [.datagram pbufs hdr payload]) = departures log ++ pbufs := by
  rw [departures_append]
  exact congrArg (departures log ++ ·) (List.append_nil pbufs)

/-- The state after a datagram was handed on. -/
def Reass.handedOn (s : Reass) (i : Nat) (ipr : IpReassdata) : Reass :=
  { reassdatagrams := s.reassdatagrams.eraseIdx i
    ipReassPbufcount := s.ipReassPbufcount - clens ipr.pbufs
    live := release s.live ipr.pbufs
    log := s.log ++ [.datagram ipr.pbufs (datagramHeader ipr.iphdr ipr.datagramLen) (ipr.pbufs.flatMap Pbuf.payload)] }

theorem Inv.finish_eq (h : Inv came pending news s) (hi : s.reassdatagrams[i]? = some ipr) :
    s.finish i ipr = some (s.handedOn i ipr) := by
  have hclens : (ipr.p.map fun iprh => iprh.pbuf.clen).sum = clens ipr.pbufs := by
    rw [clens, IpReassdata.pbufs, List.map_map]
    rfl
  have hle := h.clens_le hi
  rw [Reass.finish, hclens, if_neg (by omega)]
  rfl

/-- **A finished datagram is handed on.** -/
theorem Inv.handedOn (h : Inv came [] [] s) (hi : s.reassdatagrams[i]? = some ipr) (hcomplete : Complete ipr.p)
    (hlast : ipr.lastfrag = true) : Inv came [] [] (s.handedOn i ipr) where
  wf := fun ipr' hmem => h.wf ipr' (List.mem_of_mem_eraseIdx hmem)
  keys := h.keys.sublist ((List.eraseIdx_sublist ..).map _)
  count := (h.dropped hi).count
  max := (h.dropped hi).max
  live := (h.dropped hi).live
  nodup := (h.dropped hi).nodup
  settled := by
    have hsettled := h.settled
    have hheld := held_perm (split_at hi)
    rw [heldBy_cons] at hheld
    rw [List.append_nil] at hsettled ⊢
    rw [Reass.handedOn, departures_datagram, ← List.append_assoc]
    refine (hsettled.trans (hheld.append_right _)).trans ?_
    rw [List.append_assoc]
    exact List.perm_append_comm
  sound := by
    intro pbufs hdr payload hmem
    rcases List.mem_append.mp hmem with hmem | hmem
    · exact h.sound pbufs hdr payload hmem
    · rw [List.mem_singleton] at hmem
      injection hmem with h₁ h₂ h₃
      subst h₁ h₂ h₃
      exact (h.wf ipr (List.mem_of_getElem? hi)).datagram hcomplete hlast

/-! ### Where a fragment's way ends -/

theorem Pbuf.Sized.oversized (h : p.Sized) :
    (isLast p.hdr ∧ ((p.first + p.payload.length) % 2 ^ 16 < p.first ∨
      (p.first + p.payload.length) % 2 ^ 16 > 0xffff - ipHlen)) ↔ p.Oversized := by
  have hwraps := h.wraps
  have hlast : p.last = p.first + p.payload.length := rfl
  rw [Pbuf.Oversized, ipHlen]
  refine and_congr_right fun _ => ?_
  omega

/-- The state after the fragment was kept, with its datagram handed on if that finished it. -/
def Reass.placed (s : Reass) (i : Nat) (ipr : IpReassdata) (p : Pbuf) : Reass :=
  if (isLast p.hdr || ipr.lastfrag) ∧ Complete (p.place ipr.p) then (s.kept i ipr p).handedOn i (ipr.keep p)
  else s.kept i ipr p

theorem kept_get (hi : s.reassdatagrams[i]? = some ipr) :
    (s.kept i ipr p).reassdatagrams[i]? = some (ipr.keep p) := by
  obtain ⟨hlt, -⟩ := List.getElem?_eq_some_iff.mp hi
  rw [Reass.kept, List.getElem?_set_self hlt]

/-- **A fragment that has found its datagram**: an oversized last one is freed, one that
overlaps is freed twice, any other is kept. -/
theorem Inv.chainInto_eq (h : Inv came [p] news s) (hi : s.reassdatagrams[i]? = some ipr) (hfits : Fits ipr p)
    (hroom : s.ipReassPbufcount + p.clen ≤ ipReassMaxPbufs) (hnews : ∀ hdr ∈ news, hdr = p.hdr) :
    s.chainInto i ipr p =
      if p.Oversized then some (s.refused p)
      else if 2 ^ 16 ≤ p.last ∨ p.Overlaps ipr.p then none
      else some (s.placed i ipr p) := by
  have hw := h.wf ipr (List.mem_of_getElem? hi)
  have hover := hfits.sized.oversized
  rw [hfits.sized.2, Pbuf.first] at hover
  rw [Reass.chainInto]
  by_cases hsize : p.Oversized
  · simp only [if_pos (hover.mpr hsize), if_pos hsize]
    exact h.pbufFree_eq
  · simp only [if_neg (fun hor => hsize (hover.mp hor)), if_neg hsize]
    have hlast : (isLast p.hdr || ipr.lastfrag) = true → ∃ f ∈ p.place ipr.p, f.start ≠ 0 := by
      intro hknown
      rcases Bool.or_eq_true_iff.mp hknown with hl | hl
      · exact ⟨p.helper, mem_place.mpr (.inl rfl), offset_of_last hfits.frag hl⟩
      · obtain ⟨f, hf, -, hstart, -⟩ := hw.last hl
        exact ⟨f, mem_place.mpr (.inr hf), hstart⟩
    rw [chainFrag_eq hfits.sized hw.wide hw.apart hlast]
    by_cases hdrop : 2 ^ 16 ≤ p.last ∨ p.Overlaps ipr.p
    · simp only [if_pos hdrop]
      -- Freed by the callee already, the fragment is freed again.
      by_cases hcount : s.ipReassPbufcount ≥ p.clen
      · have hfree := h.pbufFree_eq
        have htwice := h.pbufFree_twice
        rw [Reass.pbufFree, if_pos h.mem_live] at hfree
        simp only [guard, if_pos hcount, Option.pure_def, Option.bind_eq_bind, Option.bind_some, Reass.pbufFree,
          if_pos h.mem_live]
        rw [if_neg h.nodup.not_mem_erase]
      · simp only [guard, if_neg hcount, Option.bind_eq_bind]
        rfl
    · simp only [if_neg hdrop]
      have hlow : ¬ 2 ^ 16 ≤ p.last := fun hhigh => hdrop (.inl hhigh)
      have hval : (iphOffsetBytes p.hdr + (iphLen p.hdr - iphHlBytes p.hdr)) % 2 ^ 16 = p.last := by
        rw [← hfits.sized.2]
        exact Nat.mod_eq_of_lt (by rw [Pbuf.last] at hlow; omega)
      have hkeep : (if isLast p.hdr then
          {ipr with p := p.place ipr.p, datagramLen := p.last, lastfrag := true}
          else {ipr with p := p.place ipr.p} : IpReassdata) = ipr.keep p := rfl
      rw [hval, hkeep, Reass.placed]
      have hkept := h.kept hi hfits hsize (fun ho => hdrop (.inr ho)) hroom hnews
      by_cases hdone : (isLast p.hdr || ipr.lastfrag) ∧ Complete (p.place ipr.p)
      · rw [if_pos hdone, if_pos (by rw [hdone.1, Bool.true_and, decide_eq_true_iff]; exact hdone.2)]
        exact hkept.finish_eq (kept_get hi)
      · rw [if_neg hdone, if_neg (by rw [Bool.and_eq_true, decide_eq_true_iff]; exact hdone)]
        rfl

theorem Inv.placed (h : Inv came [p] news s) (hi : s.reassdatagrams[i]? = some ipr) (hfits : Fits ipr p) (hsize : ¬ p.Oversized)
    (hapart : ¬ p.Overlaps ipr.p) (hroom : s.ipReassPbufcount + p.clen ≤ ipReassMaxPbufs)
    (hnews : ∀ hdr ∈ news, hdr = p.hdr) : Inv came [] [] (s.placed i ipr p) := by
  have hkept := h.kept hi hfits hsize hapart hroom hnews
  rw [Reass.placed]
  split
  · rename_i hdone
    refine hkept.handedOn (kept_get hi) ?_ ?_
    · rw [keep_p]
      exact hdone.2
    · rw [keep_lastfrag]
      exact hdone.1
  · exact hkept

/-- After a fragment was placed every datagram has a fragment that had one before, and so
has the fragment's. -/
theorem full_placed (hfull : ∀ ipr' ∈ s.reassdatagrams.eraseIdx i, ipr'.p ≠ []) (hi : s.reassdatagrams[i]? = some ipr) :
    Full (s.placed i ipr p) := by
  have hkept : Full (s.kept i ipr p) := by
    intro ipr' hmem
    rcases List.mem_cons.mp ((set_at hi (ipr.keep p)).mem_iff.mp hmem) with rfl | hmem
    · rw [keep_p]
      exact place_ne_nil
    · exact hfull ipr' hmem
  rw [Reass.placed]
  split
  · exact fun ipr' hmem => hkept ipr' (List.mem_of_mem_eraseIdx hmem)
  · exact hkept

theorem Inv.chained (h : Inv came [p] [p.hdr] s) (hi : s.reassdatagrams[i]? = some ipr) (hfits : Fits ipr p)
    (hroom : s.ipReassPbufcount + p.clen ≤ ipReassMaxPbufs) :
    (s.chainInto i ipr p = none ∧ (2 ^ 16 ≤ p.last ∨ p.Overlaps ipr.p)) ∨
      ∃ s', s.chainInto i ipr p = some s' ∧ Inv came [] [] s' ∧ (¬ p.Oversized → ¬ p.Overlaps ipr.p ∧
        ((∀ ipr' ∈ s.reassdatagrams.eraseIdx i, ipr'.p ≠ []) → Full s')) := by
  have hnews : ∀ hdr ∈ [p.hdr], hdr = p.hdr := fun hdr hmem => List.mem_singleton.mp hmem
  rw [h.chainInto_eq hi hfits hroom hnews]
  by_cases hsize : p.Oversized
  · rw [if_pos hsize]
    refine .inr ⟨_, rfl, h.refused ?_, fun hno => (hno hsize).elim⟩
    intro ipr' hmem
    -- An oversized fragment is not the first of its datagram: no header was taken from it.
    have hw := h.wf ipr' hmem
    refine ⟨hw.apart, hw.piece, hw.last, hw.header, fun hzero => (hw.first hzero).imp_right fun hin => ?_⟩
    rw [List.mem_singleton.mp hin] at hzero
    exact (offset_of_last hfits.frag hsize.1 hzero).elim
  · rw [if_neg hsize]
    by_cases hdrop : 2 ^ 16 ≤ p.last ∨ p.Overlaps ipr.p
    · rw [if_pos hdrop]
      exact .inl ⟨rfl, hdrop⟩
    · rw [if_neg hdrop]
      have hapart : ¬ p.Overlaps ipr.p := fun ho => hdrop (.inr ho)
      exact .inr ⟨_, rfl, h.placed hi hfits hsize hapart hroom hnews, fun _ => ⟨hapart, fun hfull => full_placed hfull hi⟩⟩

end TwilightLine.Ip4Frag
