import TwilightLine.Lwip.Ip4FragRuns

/-! What IPv4 reassembly hands on, what it keeps and where it fails.

Every datagram handed on is made of fragments of that datagram which tile it
(`reassembled`), and every fragment that came in is kept, freed or handed on, once
(`fragments_accounted`). A call fails on a fragment that overlaps a kept one and on nothing
else (`reass_crashes_iff`): its buffers are taken off `ip_reass_pbufcount` though they were
never added, which an assertion may stop, and otherwise it is freed twice. A last fragment
that is too long to be kept leaves a datagram without fragments behind, on which a later
tick of the timer fails (`oversized_crashes_later`). -/
namespace TwilightLine.Ip4Frag

open Tiling Run

variable {came pending : List Pbuf} {news : List Ipv4Header} {s : Reass} {i : Nat} {ipr : IpReassdata} {p : Pbuf}

/-! ### A call -/

/-- A header without options that counts itself: any other fragment is dropped at once. -/
def Pbuf.Valid (p : Pbuf) : Prop := iphHlBytes p.hdr = ipHlen ∧ iphHlBytes p.hdr ≤ iphLen p.hdr

/-- A fragment that there is room for overlaps one that is kept for its datagram. -/
def Collides (s : Reass) (p : Pbuf) : Prop :=
  p.Valid ∧ clens (heldBy (own p.hdr s)) + p.clen ≤ ipReassMaxPbufs ∧
    ∃ ipr ∈ s.reassdatagrams, ipAddressesAndIdMatch ipr.iphdr p.hdr ∧ p.Overlaps ipr.p

instance (p : Pbuf) : Decidable p.Valid := inferInstanceAs (Decidable (_ ∧ _))

instance (s : Reass) (p : Pbuf) : Decidable (Collides s p) := inferInstanceAs (Decidable (_ ∧ _ ∧ _))

/-- How a call may end: in a crash, which takes an empty datagram, a fragment that ends too
high or one that collides; or well. -/
def Ends (came : List Pbuf) (s : Reass) (p : Pbuf) (result : Option Reass) : Prop :=
  (result = none ∧ (¬ Full s ∨ 2 ^ 16 ≤ p.last ∨ Collides s p)) ∨
    ∃ s', result = some s' ∧ Inv came [] [] s' ∧ (¬ p.Oversized → ¬ Collides s p ∧ (Full s → Full s'))

theorem mem_own {fraghdr : Ipv4Header} {ipr : IpReassdata} :
    ipr ∈ own fraghdr s ↔ ipr ∈ s.reassdatagrams ∧ ipAddressesAndIdMatch ipr.iphdr fraghdr = true := List.mem_filter

/-- A fragment belongs to one datagram at most. -/
theorem Inv.own_unique (h : Inv came pending news s) {a b : IpReassdata} (ha : a ∈ s.reassdatagrams) (hb : b ∈ s.reassdatagrams)
    (hab : key a.iphdr = key b.iphdr) : a = b := List.inj_on_of_nodup_map h.keys ha hb hab

theorem not_collides_of_own (h : own p.hdr s = []) : ¬ Collides s p := by
  rintro ⟨-, -, ipr, hmem, hmatch, -⟩
  have : ipr ∈ own p.hdr s := mem_own.mpr ⟨hmem, hmatch⟩
  rw [h] at this
  exact List.not_mem_nil this

/-- A new datagram for the fragment. -/
def Reass.opened (s : Reass) (fraghdr : Ipv4Header) : Reass :=
  {s with reassdatagrams := ⟨[], fraghdr, 0, false, ipReassMaxage⟩ :: s.reassdatagrams}

theorem Inv.opened (h : Inv came [p] [] s) (hnone : own p.hdr s = []) : Inv came [p] [p.hdr] (s.opened p.hdr) where
  wf := by
    intro ipr hmem
    rcases List.mem_cons.mp hmem with rfl | hmem
    · exact
        { apart := List.Pairwise.nil
          piece := fun _ hf => (List.not_mem_nil hf).elim
          last := fun hl => (Bool.false_ne_true hl).elim
          header := fun _ hf => (List.not_mem_nil hf).elim
          first := fun _ => .inr (List.mem_singleton.mpr rfl) }
    · have hw := h.wf ipr hmem
      exact ⟨hw.apart, hw.piece, hw.last, hw.header, fun hzero => .inl ((hw.first hzero).resolve_right List.not_mem_nil)⟩
  keys := by
    refine List.nodup_cons.mpr ⟨fun hmem => ?_, h.keys⟩
    obtain ⟨ipr, hipr, hkey⟩ := List.mem_map.mp hmem
    have : ipr ∈ own p.hdr s := mem_own.mpr ⟨hipr, matches_iff_key.mpr hkey⟩
    rw [hnone] at this
    exact List.not_mem_nil this
  count := h.count
  max := h.max
  live := h.live
  nodup := h.nodup
  settled := h.settled
  sound := h.sound

/-- A fragment of a datagram that is not known yet. -/
theorem Inv.openedChained (h : Inv came [p] [] s) (hnone : own p.hdr s = []) (hvalid : p.Sized)
    (hfrag : p.hdr.flags3Fragmentoffset13 &&& hton16 0x3fff ≠ 0) (hpos : 0 < p.clen)
    (hroom : s.ipReassPbufcount + p.clen ≤ ipReassMaxPbufs) :
    Ends came s p ((s.opened p.hdr).chainInto 0 ⟨[], p.hdr, 0, false, ipReassMaxage⟩ p) := by
  have hno : ¬ p.Overlaps [] := fun ⟨_, hmem, _⟩ => List.not_mem_nil hmem
  have hfits : Fits ⟨[], p.hdr, 0, false, ipReassMaxage⟩ p :=
    ⟨hvalid, matches_iff_key.mpr rfl, hfrag, hpos, fun _ => .inl rfl⟩
  rcases (h.opened hnone).chained (i := 0) rfl hfits hroom with ⟨heq, hdrop⟩ | ⟨s', heq, hinv, hrest⟩
  · exact .inl ⟨heq, .inr (.inl (hdrop.resolve_right hno))⟩
  · exact .inr ⟨s', heq, hinv, fun hsize => ⟨not_collides_of_own hnone, fun hfull => (hrest hsize).2 hfull⟩⟩

/-- The header kept for a datagram, with a fragment of it in hand. -/
theorem Wf.keepFirstHeader (h : Wf [] ipr) (hmatch : ipAddressesAndIdMatch ipr.iphdr p.hdr) :
    Wf [p.hdr] (keepFirstHeader ipr p.hdr) := by
  rw [Ip4Frag.keepFirstHeader]
  split
  · rename_i hnew
    refine ⟨h.apart, fun f hf => ?_, h.last, fun f hf hstart => ?_, fun _ => .inr (List.mem_singleton.mpr rfl)⟩
    · have hpiece := h.piece f hf
      exact ⟨hpiece.kept, matches_trans hpiece.same hmatch, hpiece.nonempty⟩
    · -- A first fragment would have left its header already.
      have hhdr := h.header f hf hstart
      rw [(h.piece f hf).kept] at hstart
      exact (hnew.2 (hhdr ▸ hstart)).elim
  · exact ⟨h.apart, h.piece, h.last, h.header, fun hzero => .inl ((h.first hzero).resolve_right List.not_mem_nil)⟩

@[simp] theorem keepFirstHeader_p (fraghdr : Ipv4Header) : (keepFirstHeader ipr fraghdr).p = ipr.p := by
  unfold keepFirstHeader
  split <;> rfl

theorem key_keepFirstHeader (hmatch : ipAddressesAndIdMatch ipr.iphdr p.hdr) :
    key (keepFirstHeader ipr p.hdr).iphdr = key ipr.iphdr := by
  unfold keepFirstHeader
  split
  · exact (matches_iff_key.mp hmatch).symm
  · rfl

theorem Wf.fits (h : Wf [] ipr) (hmatch : ipAddressesAndIdMatch ipr.iphdr p.hdr) (hsized : p.Sized)
    (hfrag : p.hdr.flags3Fragmentoffset13 &&& hton16 0x3fff ≠ 0) (hpos : 0 < p.clen) :
    Fits (Ip4Frag.keepFirstHeader ipr p.hdr) p where
  sized := hsized
  same := by
    rw [matches_iff_key, key_keepFirstHeader hmatch]
    exact (matches_iff_key.mp hmatch).symm
  frag := hfrag
  nonempty := hpos
  first := by
    intro hzero
    rw [keepFirstHeader_p]
    by_cases hold : iphOffsetBytes ipr.iphdr = 0
    · exact .inr ((h.first hold).resolve_right List.not_mem_nil)
    · exact .inl (by rw [Ip4Frag.keepFirstHeader, if_pos ⟨hzero, hold⟩])

/-- A fragment of a datagram that is kept. -/
theorem Inv.foundChained (h : Inv came [p] [] s) (hi : s.reassdatagrams[i]? = some ipr)
    (hmatch : ipAddressesAndIdMatch ipr.iphdr p.hdr) (hvalid : p.Valid) (hsized : p.Sized)
    (hfrag : p.hdr.flags3Fragmentoffset13 &&& hton16 0x3fff ≠ 0) (hpos : 0 < p.clen)
    (hown : clens (heldBy (own p.hdr s)) + p.clen ≤ ipReassMaxPbufs)
    (hroom : s.ipReassPbufcount + p.clen ≤ ipReassMaxPbufs) :
    Ends came s p ({s with reassdatagrams := s.reassdatagrams.set i (keepFirstHeader ipr p.hdr)}.chainInto i
      (keepFirstHeader ipr p.hdr) p) := by
  have hmem := List.mem_of_getElem? hi
  have hw := h.wf ipr hmem
  have hset := h.set hi (fun _ hin => (List.not_mem_nil hin).elim) (hw.keepFirstHeader hmatch)
    (by rw [IpReassdata.pbufs, keepFirstHeader_p, IpReassdata.pbufs]) (key_keepFirstHeader hmatch)
  have hget : (s.reassdatagrams.set i (keepFirstHeader ipr p.hdr))[i]? = some (keepFirstHeader ipr p.hdr) :=
    List.getElem?_set_self (List.getElem?_eq_some_iff.mp hi).1
  rcases hset.chained hget (hw.fits hmatch hsized hfrag hpos) hroom with ⟨heq, hdrop⟩ | ⟨s', heq, hinv, hrest⟩
  · rw [keepFirstHeader_p] at hdrop
    exact .inl ⟨heq, .inr (hdrop.imp_right fun hover => ⟨hvalid, hown, ipr, hmem, hmatch, hover⟩)⟩
  · refine .inr ⟨s', heq, hinv, fun hsize => ?_⟩
    obtain ⟨hapart, hfull⟩ := hrest hsize
    rw [keepFirstHeader_p] at hapart
    refine ⟨?_, fun hs => hfull fun ipr' hmem' => ?_⟩
    · rintro ⟨-, -, other, hother, hmatch', hover⟩
      have hsame := h.own_unique hother hmem
        ((matches_iff_key.mp hmatch').trans (matches_iff_key.mp hmatch).symm)
      exact hapart (hsame ▸ hover)
    · rw [List.eraseIdx_set_eq] at hmem'
      exact hs ipr' (List.mem_of_mem_eraseIdx hmem')

/-- Where a call ends after room was made, it ends before. -/
theorem Ends.before {s' : Reass} {result : Option Reass} (hmade : MadeRoom p.hdr came [p] [] s s') (h : Ends came s' p result)
    (hcollides : Collides s' p ↔ Collides s p) : Ends came s p result := by
  rcases h with ⟨heq, hwhy⟩ | ⟨s'', heq, hinv, hrest⟩
  · exact .inl ⟨heq, hwhy.imp (fun hno hs => hno (hmade.full hs)) (Or.imp_right hcollides.mp)⟩
  · exact .inr ⟨s'', heq, hinv, fun hsize => ⟨fun hc => (hrest hsize).1 (hcollides.mpr hc),
      fun hs => (hrest hsize).2 (hmade.full hs)⟩⟩

theorem MadeRoom.collides {s' : Reass} (h : MadeRoom p.hdr came pending news s s') : Collides s' p ↔ Collides s p := by
  have hmem : ∀ ipr, (ipr ∈ s'.reassdatagrams ∧ ipAddressesAndIdMatch ipr.iphdr p.hdr = true) ↔
      (ipr ∈ s.reassdatagrams ∧ ipAddressesAndIdMatch ipr.iphdr p.hdr = true) := by
    intro ipr
    rw [← mem_own, ← mem_own, h.own]
  have hexists : (∃ ipr ∈ s'.reassdatagrams, ipAddressesAndIdMatch ipr.iphdr p.hdr ∧ p.Overlaps ipr.p) ↔
      ∃ ipr ∈ s.reassdatagrams, ipAddressesAndIdMatch ipr.iphdr p.hdr ∧ p.Overlaps ipr.p := by
    constructor
    · rintro ⟨ipr, hin, hmatch, hover⟩
      exact ⟨ipr, ((hmem ipr).mp ⟨hin, hmatch⟩).1, hmatch, hover⟩
    · rintro ⟨ipr, hin, hmatch, hover⟩
      exact ⟨ipr, ((hmem ipr).mpr ⟨hin, hmatch⟩).1, hmatch, hover⟩
  rw [Collides, Collides, h.own, hexists]

/-- A fragment that is freed and not kept. -/
theorem Inv.ends_refused (h : Inv came [p] [] s) (hno : ¬ Collides s p) : Ends came s p (s.pbufFree p) :=
  .inr ⟨s.refused p, h.pbufFree_eq, h.refused h.wf, fun _ => ⟨hno, id⟩⟩

/-- A fragment whose datagram is not known. -/
theorem Inv.ends_opened (h : Inv came [p] [] s) (hnone : own p.hdr s = []) (hsized : p.Sized)
    (hfrag : p.hdr.flags3Fragmentoffset13 &&& hton16 0x3fff ≠ 0) (hpos : 0 < p.clen)
    (hroom : s.ipReassPbufcount + p.clen ≤ ipReassMaxPbufs) (mem mem' : Bool) :
    Ends came s p (do
      let (s, ok) ← s.ipReassEnqueueNewDatagram p.hdr p.clen mem mem'
      if ok then do
        let ipr ← s.reassdatagrams[0]?
        s.chainInto 0 ipr p
      else s.pbufFree p) := by
  cases mem with
  | true => exact h.openedChained hnone hsized hfrag hpos hroom
  | false =>
    simp only [Reass.ipReassEnqueueNewDatagram, Reass.ipReassRemoveOldestDatagram, Bool.false_eq_true, if_false]
    have hrounds : (others p.hdr s).length < s.reassdatagrams.length + 1 :=
      Nat.lt_succ_of_le (List.length_filter_le ..)
    rcases h.removeOldestLoop p.hdr p.clen 0 hrounds with ⟨s', m, heq, hmade, hsum, -, -, -⟩ | ⟨heq, hnot⟩
    · rw [heq]
      simp only [Option.bind_eq_bind, Option.bind_some]
      have hnone' : own p.hdr s' = [] := hmade.own.trans hnone
      refine Ends.before hmade ?_ hmade.collides
      cases hok : (decide (m ≥ p.clen) && mem') with
      | true => exact hmade.inv.openedChained hnone' hsized hfrag hpos (by omega)
      | false => exact hmade.inv.ends_refused (not_collides_of_own hnone')
    · rw [heq]
      exact .inl ⟨rfl, .inl hnot⟩

/-- **A call of `ip4_reass`.** -/
theorem Inv.ip4Reass (h : Inv came [p] [] s) (hlen : p.payload.length = iphLen p.hdr - iphHlBytes p.hdr)
    (hfrag : p.hdr.flags3Fragmentoffset13 &&& hton16 0x3fff ≠ 0) (hpos : 0 < p.clen) (mem mem' : Bool) :
    Ends came s p (s.ip4Reass p mem mem') := by
  rw [Reass.ip4Reass]
  by_cases hhl : iphHlBytes p.hdr ≠ ipHlen
  · rw [if_pos hhl]
    exact h.ends_refused fun hc => hhl hc.1.1
  · rw [if_neg hhl]
    by_cases hshort : iphHlBytes p.hdr > iphLen p.hdr
    · rw [if_pos hshort]
      exact h.ends_refused fun hc => Nat.not_lt_of_le hc.1.2 hshort
    · rw [if_neg hshort]
      have hvalid : p.Valid := ⟨not_not.mp hhl, Nat.le_of_not_lt hshort⟩
      have hsized : p.Sized := ⟨hvalid.2, hlen⟩
      rcases h.makeRoom p with ⟨s', room, heq, hmade, hiff, hroom⟩ | ⟨heq, hnot⟩
      · rw [heq]
        simp only [Option.bind_eq_bind, Option.bind_some]
        refine Ends.before hmade ?_ hmade.collides
        cases room with
        | false => exact hmade.inv.ends_refused fun hc => Bool.false_ne_true (hiff.mpr (hmade.collides.mp hc).2.1)
        | true =>
          simp only [not_true_eq_false, if_false]
          have hroom := hroom rfl
          cases hfind : s'.reassdatagrams.findIdx? fun ipr => ipAddressesAndIdMatch ipr.iphdr p.hdr with
          | none =>
            have hnone : own p.hdr s' = [] := by
              rw [List.findIdx?_eq_none_iff] at hfind
              exact List.filter_eq_nil_iff.mpr fun ipr hmem => by simp [hfind ipr hmem]
            exact hmade.inv.ends_opened hnone hsized hfrag hpos hroom mem mem'
          | some i =>
            obtain ⟨hi, hmatch, -⟩ := List.findIdx?_eq_some_iff_getElem.mp hfind
            have hget := List.getElem?_eq_getElem hi
            simp only [hget, Option.bind_some]
            exact hmade.inv.foundChained hget hmatch hvalid hsized hfrag hpos (by rw [hmade.own]; exact hiff.mp rfl) hroom
      · rw [heq]
        exact .inl ⟨rfl, .inl hnot⟩

/-! ### Runs -/

/-- The fragments of a run. -/
def fragments (es : List Event) : List Pbuf :=
  es.flatMap fun e => match e with
    | .fragment p _ _ => [p]
    | .tmr => []

/-- The fragment ends where fragments of a whole datagram can end. -/
def InRange : Event → Prop
  | .fragment p _ _ => p.last < 2 ^ 16 ∧ ¬ p.Oversized
  | .tmr => True

instance : (e : Event) → Decidable (InRange e)
  | .fragment p _ _ => inferInstanceAs (Decidable (p.last < 2 ^ 16 ∧ ¬ p.Oversized))
  | .tmr => inferInstanceAs (Decidable True)

/-- The fragment of the event collides with a kept one. -/
def Collision (s : Reass) : Event → Prop
  | .fragment p _ _ => Collides s p
  | .tmr => False

instance (s : Reass) : (e : Event) → Decidable (Collision s e)
  | .fragment p _ _ => inferInstanceAs (Decidable (Collides s p))
  | .tmr => inferInstanceAs (Decidable False)

theorem Inv.step {e : Event} {s' : Reass} (h : Inv came [] [] s) (hadm : Admissible s e) (hs : step s e = some s') :
    Inv (came ++ fragments [e]) [] [] s' := by
  cases e with
  | fragment p mem mem' =>
    obtain ⟨hnew, hpos, hlen, hfrag⟩ := hadm
    rcases (h.received hnew).ip4Reass hlen hfrag hpos mem mem' with ⟨heq, -⟩ | ⟨s'', heq, hinv, -⟩
    · exact (Option.some_ne_none _ (hs.symm.trans heq)).elim
    · rw [Option.some.inj (hs.symm.trans heq)]
      exact hinv
  | tmr =>
    rw [show fragments [Event.tmr] = [] from rfl, List.append_nil]
    rcases h.tmrLoop 0 s.reassdatagrams.length with ⟨s'', heq, hinv, -⟩ | ⟨heq, -⟩
    · rw [Option.some.inj (hs.symm.trans heq)]
      exact hinv
    · exact (Option.some_ne_none _ (hs.symm.trans heq)).elim

/-- **A call in a state without empty datagrams** fails exactly on a collision, and leaves
none. -/
theorem Inv.step_full {e : Event} (h : Inv came [] [] s) (hfull : Full s) (hadm : Admissible s e) (hrange : InRange e) :
    (Ip4Frag.step s e = none ↔ Collision s e) ∧ ∀ s', Ip4Frag.step s e = some s' → Full s' := by
  cases e with
  | fragment p mem mem' =>
    obtain ⟨hnew, hpos, hlen, hfrag⟩ := hadm
    have hnot : ¬ 2 ^ 16 ≤ p.last := Nat.not_le_of_lt hrange.1
    rcases (h.received hnew).ip4Reass hlen hfrag hpos mem mem' with ⟨heq, hwhy⟩ | ⟨s'', heq, -, hrest⟩
    · have hcollides : Collides s p := (hwhy.resolve_left fun hno => hno hfull).resolve_left hnot
      exact ⟨⟨fun _ => hcollides, fun _ => heq⟩, fun s' hs' => (Option.some_ne_none _ (hs'.symm.trans heq)).elim⟩
    · obtain ⟨hno, hfull'⟩ := hrest hrange.2
      refine ⟨⟨fun hnone => (Option.some_ne_none _ (heq.symm.trans hnone)).elim, fun hc => (hno hc).elim⟩, fun s' hs' => ?_⟩
      rw [Option.some.inj (hs'.symm.trans heq)]
      exact hfull' hfull
  | tmr =>
    rcases h.tmrLoop 0 s.reassdatagrams.length with ⟨s'', heq, -, hfull'⟩ | ⟨-, hno⟩
    · refine ⟨⟨fun hnone => (Option.some_ne_none _ (heq.symm.trans hnone)).elim, False.elim⟩, fun s' hs' => ?_⟩
      rw [Option.some.inj (hs'.symm.trans heq)]
      exact hfull' hfull
    · exact (hno hfull).elim

theorem inv_run {es : List Event} {t : Reass} (hrun : run step s es = some t) (hadm : AllSteps step Admissible s es)
    (h : Inv came [] [] s) : Inv (came ++ fragments es) [] [] t := by
  induction es generalizing s came with
  | nil =>
    cases hrun
    rw [show fragments [] = [] from rfl, List.append_nil]
    exact h
  | cons e rest ih =>
    obtain ⟨s', hs, hrest⟩ := run_cons hrun
    have hinv := ih hrest (hadm.2 s' hs) (h.step hadm.1 hs)
    have hsplit : fragments ([e] ++ rest) = fragments [e] ++ fragments rest := List.flatMap_append
    rw [List.append_assoc, ← hsplit] at hinv
    exact hinv

theorem full_run {es : List Event} {t : Reass} (hrun : run step s es = some t) (hadm : AllSteps step Admissible s es)
    (hrange : ∀ e ∈ es, InRange e) (h : Inv came [] [] s) (hfull : Full s) : Full t := by
  induction es generalizing s came with
  | nil =>
    cases hrun
    exact hfull
  | cons e rest ih =>
    obtain ⟨s', hs, hrest⟩ := run_cons hrun
    refine ih hrest (hadm.2 s' hs) (fun e' he' => hrange e' (List.mem_cons_of_mem _ he')) (h.step hadm.1 hs) ?_
    exact (h.step_full hfull hadm.1 (hrange e (List.mem_cons_self ..))).2 s' hs

/-! ### Datagrams left empty -/

/-- There is a datagram without fragments that has at most `t` ticks left. -/
def Stale (t : Nat) (s : Reass) : Prop := ∃ ipr ∈ s.reassdatagrams, ipr.p = [] ∧ ipr.timer ≤ t

/-- A datagram the timer has passed is not touched again. -/
theorem Inv.tmrLoop_keeps (h : Inv came pending news s) {j t : Nat} {i n : Nat} {s' : Reass} (hj : j < i)
    (hget : s.reassdatagrams[j]? = some ipr) (hempty : ipr.p = []) (htimer : ipr.timer ≤ t)
    (heq : s.tmrLoop i n = some s') : Stale t s' := by
  induction n generalizing s i with
  | zero =>
    cases heq
    exact ⟨ipr, List.mem_of_getElem? hget, hempty, htimer⟩
  | succ n ih =>
    rw [Reass.tmrLoop] at heq
    cases hi : s.reassdatagrams[i]? with
    | none =>
      simp only [hi] at heq
      cases heq
      exact ⟨ipr, List.mem_of_getElem? hget, hempty, htimer⟩
    | some r =>
      simp only [hi] at heq
      by_cases hpos : r.timer > 0
      · rw [if_pos hpos] at heq
        have hw := h.wf r (List.mem_of_getElem? hi)
        have hset := h.aged hi
        refine ih hset (by omega) ?_ heq
        rw [List.getElem?_set_ne (by omega)]
        exact hget
      · rw [if_neg hpos, h.freeComplete_eq hi] at heq
        by_cases hp : r.p = []
        · rw [if_pos hp] at heq
          exact (Option.some_ne_none _ heq.symm).elim
        · rw [if_neg hp] at heq
          refine ih (h.dropped hi) hj ?_ heq
          rw [Reass.dropped, List.getElem?_eraseIdx_of_lt hj]
          exact hget

/-- **An empty datagram ages**, and the timer fails on it when its time is over. -/
theorem Inv.tmrLoop_ages (h : Inv came pending news s) {j t : Nat} {i n : Nat} (hj : i ≤ j) (hjn : j < i + n)
    (hget : s.reassdatagrams[j]? = some ipr) (hempty : ipr.p = []) (htimer : ipr.timer ≤ t) :
    s.tmrLoop i n = none ∨ (0 < t ∧ ∃ s', s.tmrLoop i n = some s' ∧ Stale (t - 1) s') := by
  induction n generalizing s i j with
  | zero => omega
  | succ n ih =>
    rw [Reass.tmrLoop]
    cases hi : s.reassdatagrams[i]? with
    | none =>
      have hlen := List.getElem?_eq_none_iff.mp hi
      have hlt := (List.getElem?_eq_some_iff.mp hget).1
      omega
    | some r =>
      simp only
      have hw := h.wf r (List.mem_of_getElem? hi)
      have hset := h.aged hi
      by_cases hpos : r.timer > 0
      · rw [if_pos hpos]
        by_cases hsame : j = i
        · subst hsame
          rw [hget, Option.some.injEq] at hi
          subst hi
          cases heq : Reass.tmrLoop {s with reassdatagrams := s.reassdatagrams.set j {ipr with timer := ipr.timer - 1}}
            (j + 1) n with
          | none => exact .inl rfl
          | some s' =>
            refine .inr ⟨by omega, s', rfl, ?_⟩
            exact hset.tmrLoop_keeps (Nat.lt_succ_self j)
              (List.getElem?_set_self (List.getElem?_eq_some_iff.mp hget).1) hempty (Nat.sub_le_sub_right htimer 1) heq
        · refine ih hset (j := j) (by omega) (by omega) ?_
          rw [List.getElem?_set_ne (by omega)]
          exact hget
      · rw [if_neg hpos, h.freeComplete_eq hi]
        by_cases hp : r.p = []
        · rw [if_pos hp]
          exact .inl rfl
        · rw [if_neg hp]
          have hne : j ≠ i := by
            rintro rfl
            rw [hget, Option.some.injEq] at hi
            exact hp (hi ▸ hempty)
          obtain ⟨k, rfl⟩ : ∃ k, j = k + 1 := ⟨j - 1, by omega⟩
          refine ih (h.dropped hi) (j := k) (by omega) (by omega) ?_
          rw [Reass.dropped, List.getElem?_eraseIdx_of_ge (by omega)]
          exact hget

theorem Stale.ticks {t : Nat} (h : Inv came [] [] s) (hstale : Stale t s) :
    run step s (List.replicate (t + 1) .tmr) = none := by
  induction t generalizing s came with
  | zero =>
    obtain ⟨ipr, hmem, hempty, htimer⟩ := hstale
    obtain ⟨j, hj, hget⟩ := List.mem_iff_getElem.mp hmem
    rcases h.tmrLoop_ages (i := 0) (n := s.reassdatagrams.length) (Nat.zero_le j) (by omega)
      (List.getElem?_eq_some_iff.mpr ⟨hj, hget⟩) hempty htimer with heq | ⟨hpos, -⟩
    · rw [List.replicate_succ, run, show step s .tmr = none from heq, Option.bind_none]
    · omega
  | succ t ih =>
    obtain ⟨ipr, hmem, hempty, htimer⟩ := hstale
    obtain ⟨j, hj, hget⟩ := List.mem_iff_getElem.mp hmem
    rw [List.replicate_succ, run]
    rcases h.tmrLoop_ages (i := 0) (n := s.reassdatagrams.length) (Nat.zero_le j) (by omega)
      (List.getElem?_eq_some_iff.mpr ⟨hj, hget⟩) hempty htimer with heq | ⟨-, s', heq, hstale'⟩
    · rw [show step s .tmr = none from heq, Option.bind_none]
    · have hs : step s .tmr = some s' := heq
      rw [hs, Option.bind_some]
      exact ih (h.step (e := .tmr) trivial hs) hstale'

/-! ### Results -/

/-- A header of the datagram 7 from host 1 to host 2. -/
def sampleHdr (totalLength flagsOffset : UInt16) : Ipv4Header :=
  { version4Ihl4 := 0x45, ds := 0, totalLength := hton16 totalLength, identification := 7
    flags3Fragmentoffset13 := hton16 flagsOffset, ttl := 64, protocol := 6, checksum := 0, sourceAddress := 1
    destinationAddress := 2 }

/-- The first eight bytes. -/
def sampleFirst : Pbuf := ⟨0, 1, sampleHdr 28 0x2000, [0, 1, 2, 3, 4, 5, 6, 7]⟩

/-- What follows them. -/
def sampleLast : Pbuf := ⟨1, 1, sampleHdr 22 0x0001, [8, 9]⟩

/-- **What is handed on**: in every run, a datagram is made of fragments that came in, all
of that datagram; each stands at its own offset, there is no hole and no overlap, and the
header is the first fragment's, with the end of a fragment without `IP_MF` for its length. -/
theorem reassembled {es : List Event} {t : Reass} (hrun : run step init es = some t)
    (hadm : AllSteps step Admissible init es) {pbufs : List Pbuf} {hdr : Ipv4Header} {payload : List UInt8}
    (hmem : .datagram pbufs hdr payload ∈ t.log) :
    Datagram pbufs hdr payload ∧ (∀ p ∈ pbufs, p ∈ fragments es) ∧
      ∀ p ∈ pbufs, (payload.drop p.first).take p.payload.length = p.payload := by
  have hinv := inv_run hrun hadm inv_init
  rw [List.nil_append] at hinv
  have hdatagram := hinv.sound pbufs hdr payload hmem
  refine ⟨hdatagram, fun p hp => ?_, fun p hp => ?_⟩
  · rw [hinv.settled.mem_iff]
    exact List.mem_append_right _ (List.mem_flatMap.mpr ⟨_, hmem, hp⟩)
  · have hlen : ∀ q ∈ pbufs, (Pbuf.payload q).length = q.last - q.first :=
      fun _ _ => (Nat.add_sub_cancel_left ..).symm
    have hat := hdatagram.tiles.content_at hlen (fun q _ => Nat.le_add_right ..) hp
    rwa [← hdatagram.payload_eq] at hat

theorem reassembled_swapped :
    ∃ t hdr, run step init [.fragment sampleLast true true, .fragment sampleFirst true true] = some t ∧
      AllSteps step Admissible init [.fragment sampleLast true true, .fragment sampleFirst true true] ∧
      .datagram [sampleFirst, sampleLast] hdr [0, 1, 2, 3, 4, 5, 6, 7, 8, 9] ∈ t.log ∧
      Datagram [sampleFirst, sampleLast] hdr [0, 1, 2, 3, 4, 5, 6, 7, 8, 9] := by
  have hadm : AllSteps step Admissible init [.fragment sampleLast true true, .fragment sampleFirst true true] := by
    decide
  have hmem : Action.datagram [sampleFirst, sampleLast] (datagramHeader (sampleHdr 28 0x2000) 10)
      [0, 1, 2, 3, 4, 5, 6, 7, 8, 9] ∈ (Reass.mk [] 0 [] [.datagram [sampleFirst, sampleLast]
        (datagramHeader (sampleHdr 28 0x2000) 10) [0, 1, 2, 3, 4, 5, 6, 7, 8, 9]]).log := List.mem_cons_self ..
  have hrun : run step init [.fragment sampleLast true true, .fragment sampleFirst true true] =
      some (Reass.mk [] 0 [] [.datagram [sampleFirst, sampleLast]
        (datagramHeader (sampleHdr 28 0x2000) 10) [0, 1, 2, 3, 4, 5, 6, 7, 8, 9]]) := by decide
  exact ⟨_, _, hrun, hadm, hmem, (reassembled hrun hadm hmem).1⟩

/-- **No fragment is lost or used twice**: in every run, each fragment that came in is
kept, was freed or was handed on, and the buffers owned are those of the kept fragments,
counted by `ip_reass_pbufcount` and within its bound. -/
theorem fragments_accounted {es : List Event} {t : Reass} (hrun : run step init es = some t)
    (hadm : AllSteps step Admissible init es) :
    (fragments es).Perm (t.held ++ departures t.log) ∧ t.live.Perm (ids t.held) ∧
      t.ipReassPbufcount = clens t.held ∧ t.ipReassPbufcount ≤ ipReassMaxPbufs := by
  have hinv := inv_run hrun hadm inv_init
  rw [List.nil_append] at hinv
  have hsettled := hinv.settled
  have hlive := hinv.live
  rw [List.append_nil] at hsettled hlive
  exact ⟨hsettled, hlive, hinv.count, hinv.max⟩

/-- A datagram handed on, a fragment with options that is dropped, a first fragment whose
datagram times out, and one that is kept. -/
def sampleLives : List Event :=
  [.fragment sampleLast true true, .fragment sampleFirst true true,
    .fragment ⟨2, 1, {sampleHdr 32 0x2000 with version4Ihl4 := 0x46}, [0, 0, 0, 0, 0, 0, 0, 0]⟩ true true,
    .fragment {sampleFirst with id := 3} true true] ++ List.replicate 16 .tmr ++
    [.fragment {sampleLast with id := 4} true true]

theorem fragments_accounted_lives :
    ∃ t, run step init sampleLives = some t ∧ ids t.held = [4] ∧ ids (departures t.log) = [0, 1, 2, 3] ∧
      (fragments sampleLives).Perm (t.held ++ departures t.log) ∧ t.live.Perm (ids t.held) ∧
      t.ipReassPbufcount = clens t.held ∧ t.ipReassPbufcount ≤ ipReassMaxPbufs := by
  have hadm : AllSteps step Admissible init sampleLives := by decide
  have hsome : (run step init sampleLives).isSome := by decide
  obtain ⟨t, hrun⟩ := Option.isSome_iff_exists.mp hsome
  have hends : (run step init sampleLives).map (fun t => (ids t.held, ids (departures t.log))) =
      some ([4], [0, 1, 2, 3]) := by decide
  rw [hrun, Option.map_some, Option.some.injEq, Prod.mk.injEq] at hends
  exact ⟨t, hrun, hends.1, hends.2, fragments_accounted hrun hadm⟩

/-- **Where reassembly fails**: after any run of fragments that end in range, the next call
fails exactly if its fragment has room in its datagram and overlaps what is kept there. The
failure is one of two: the assertion on `ip_reass_pbufcount`, or the fragment freed twice. -/
theorem reass_crashes_iff {es : List Event} {t : Reass} (hrun : run step init es = some t)
    (hadm : AllSteps step Admissible init es) (hrange : ∀ e ∈ es, InRange e) {e : Event} (hadm' : Admissible t e)
    (hrange' : InRange e) : step t e = none ↔ Collision t e := by
  have hfull := full_run hrun hadm hrange inv_init (fun ipr hmem => (List.not_mem_nil hmem).elim)
  exact ((inv_run hrun hadm inv_init).step_full hfull hadm' hrange').1

/-- The same fragment twice. -/
theorem reass_crashes_iff_twice :
    ∃ t, run step init [.fragment sampleLast true true] = some t ∧
      step t (.fragment {sampleLast with id := 2} true true) = none := by
  have hadm : AllSteps step Admissible init [.fragment sampleLast true true] := by decide
  have hrun : run step init [.fragment sampleLast true true] =
      some ⟨[⟨[sampleLast.helper], sampleHdr 22 0x0001, 10, true, 15⟩], 1, [1], []⟩ := by decide
  refine ⟨_, hrun, (reass_crashes_iff hrun hadm ?_ ?_ ?_).mpr ?_⟩
  · intro e he
    rw [List.mem_singleton.mp he]
    decide
  · decide
  · decide
  · decide

/-- **One fragment is enough**: after any run, a last fragment that is too long and starts a
datagram is freed if there was room for it, but its datagram stays, and the timer fails on it
within sixteen ticks. -/
theorem oversized_crashes_later {es : List Event} {t : Reass} (hrun : run step init es = some t)
    (hadm : AllSteps step Admissible init es) {p : Pbuf} {mem' : Bool} (hadm' : Admissible t (.fragment p true mem'))
    (hvalid : p.Valid) (hsize : p.Oversized) (hnew : own p.hdr t = [])
    (hroom : t.ipReassPbufcount + p.clen ≤ ipReassMaxPbufs) :
    ∃ t', step t (.fragment p true mem') = some t' ∧ t'.log = t.log ++ [.freed p] ∧
      (∃ ipr ∈ t'.reassdatagrams, ipr.iphdr = p.hdr ∧ ipr.p = []) ∧
      run step t' (List.replicate 16 .tmr) = none := by
  have hinv := inv_run hrun hadm inv_init
  obtain ⟨hfresh, hpos, hlen, hfrag⟩ := hadm'
  have hrec := hinv.received hfresh
  have hsized : p.Sized := ⟨hvalid.2, hlen⟩
  have hfits : Fits ⟨[], p.hdr, 0, false, ipReassMaxage⟩ p :=
    ⟨hsized, matches_iff_key.mpr rfl, hfrag, hpos, fun _ => .inl rfl⟩
  have hopened : Inv _ [p] [p.hdr] ((t.received p).opened p.hdr) := hrec.opened hnew
  have hchain := hopened.chainInto_eq (i := 0) rfl hfits hroom (fun hdr hmem => List.mem_singleton.mp hmem)
  rw [if_pos hsize] at hchain
  have hnone : (t.received p).reassdatagrams.findIdx? (fun ipr => ipAddressesAndIdMatch ipr.iphdr p.hdr) = none := by
    refine List.findIdx?_eq_none_iff.mpr fun ipr hmem => ?_
    by_contra hmatch
    have hin : ipr ∈ own p.hdr t := mem_own.mpr ⟨hmem, by simpa using hmatch⟩
    rw [hnew] at hin
    exact List.not_mem_nil hin
  have hstep : step t (.fragment p true mem') = some (((t.received p).opened p.hdr).refused p) := by
    have hmade : (t.received p).makeRoom p = some (t.received p, true) := by
      exact if_neg (Nat.not_lt_of_le hroom)
    show (t.received p).ip4Reass p true mem' = _
    rw [Reass.ip4Reass, if_neg (not_not.mpr hvalid.1), if_neg (Nat.not_lt_of_le hvalid.2), hmade]
    simp only [Option.bind_eq_bind, Option.bind_some, not_true_eq_false, if_false, hnone]
    exact hchain
  refine ⟨_, hstep, rfl, ⟨_, List.mem_cons_self .., rfl, rfl⟩, ?_⟩
  have hstale : Stale 15 (((t.received p).opened p.hdr).refused p) :=
    ⟨⟨[], p.hdr, 0, false, ipReassMaxage⟩, List.mem_cons_self .., rfl, Nat.le_refl 15⟩
  exact hstale.ticks (hinv.step (e := .fragment p true mem') ⟨hfresh, hpos, hlen, hfrag⟩ hstep)

theorem oversized_crashes_later_sample :
    ∃ t', step init (.fragment ⟨0, 1, sampleHdr 28 0x1fff, [0, 1, 2, 3, 4, 5, 6, 7]⟩ true true) = some t' ∧
      t'.log = [.freed ⟨0, 1, sampleHdr 28 0x1fff, [0, 1, 2, 3, 4, 5, 6, 7]⟩] ∧
      (∃ ipr ∈ t'.reassdatagrams, ipr.iphdr = sampleHdr 28 0x1fff ∧ ipr.p = []) ∧
      run step t' (List.replicate 16 .tmr) = none :=
  oversized_crashes_later (show run step init [] = some init from rfl) trivial (by decide) (by decide) (by decide) (by decide) (by decide)

end TwilightLine.Ip4Frag
