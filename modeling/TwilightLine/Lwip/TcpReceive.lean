import TwilightLine.Lwip.TcpPieces

/-! One segment of an honest peer.

The window is what is left of `TCP_WND` (`Window`); its announced right edge, `told`, lies
within. A piece that ends by the announced edge never trips an assertion: what is in
sequence goes up as the stream has it (`Taken`), with all that it connects to (`reach`),
and what is further on is queued. -/
namespace TwilightLine.TcpIn
open Serial

variable {stream data : List UInt8} {base : UInt32} {start nxt told out : Nat} {fin : Bool} {pcb : TcpPcb}
  {c x : Piece} {pieces : List Piece}

/-! ### The window -/

/-- The next octet has position `nxt`, `out` numbers are taken off the window, and the peer
was told that it may send up to `told`. -/
structure Window (base : UInt32) (nxt told out : Nat) (pcb : TcpPcb) : Prop where
  rcvNxt : pcb.rcvNxt = serial base nxt
  rcvWnd : pcb.rcvWnd.toNat + out = 5840
  edge : pcb.rcvAnnRightEdge = serial base told
  nxt_le : nxt ≤ told
  told_le : told ≤ nxt + pcb.rcvAnnWnd.toNat
  ann_le : pcb.rcvAnnWnd.toNat ≤ pcb.rcvWnd.toNat

theorem Window.lt (h : Window base nxt told out pcb) : told < nxt + 2 ^ 16 := by
  have := h.rcvWnd
  have := h.told_le
  have := h.ann_le
  omega

theorem toUInt32_eq_ofNat (n : UInt16) : n.toUInt32 = UInt32.ofNat n.toNat := by
  apply UInt32.toNat.inj
  rw [UInt16.toNat_toUInt32, UInt32.toNat_ofNat_of_lt' (Nat.lt_trans n.toNat_lt (by decide))]

/-- The window to announce lies between what the peer was told and what is left. -/
theorem tcpUpdateRcvAnnWnd_eq (hnxt : pcb.rcvNxt = serial base nxt) (hedge : pcb.rcvAnnRightEdge = serial base told)
    (hle : nxt ≤ told) (htold : told ≤ nxt + pcb.rcvWnd.toNat) (hwnd : pcb.rcvWnd.toNat ≤ 5840) :
    ∃ w more, pcb.tcpUpdateRcvAnnWnd = some ({pcb with rcvAnnWnd := w}, more) ∧ told ≤ nxt + w.toNat ∧
      w.toNat ≤ pcb.rcvWnd.toNat := by
  have hright : pcb.rcvNxt + pcb.rcvWnd.toUInt32 = serial base (nxt + pcb.rcvWnd.toNat) := by
    rw [hnxt, toUInt32_eq_ofNat, serial_add]
  have hgt : ¬ tcpSeqGt pcb.rcvNxt pcb.rcvAnnRightEdge := by
    rw [hnxt, hedge, tcpSeqGt_serial (by rw [Near]; omega)]
    omega
  rw [TcpPcb.tcpUpdateRcvAnnWnd]
  simp only [hgt, if_false]
  split
  · exact ⟨_, _, rfl, htold, Nat.le_refl _⟩
  · have hkeep : (pcb.rcvAnnRightEdge - pcb.rcvNxt).toNat = told - nxt := by
      rw [hnxt, hedge, toNat_serial_sub hle (by omega)]
    have hfits : pcb.rcvAnnRightEdge - pcb.rcvNxt ≤ 0xffff := by
      rw [UInt32.le_iff_toNat_le, hkeep]
      change told - nxt ≤ 65535
      omega
    have hw : (pcb.rcvAnnRightEdge - pcb.rcvNxt).toUInt16.toNat = told - nxt := by
      rw [UInt32.toNat_toUInt16, hkeep]
      omega
    rw [if_pos hfits]
    exact ⟨_, _, rfl, by rw [hw]; omega, by rw [hw]; omega⟩

/-- Numbers up to the announced edge fit in the window. -/
theorem Window.advance (h : Window base nxt told out pcb) {n : Nat} {tcplen : UInt32} (hn : nxt + n ≤ told)
    (hlen : tcplen = UInt32.ofNat n) :
    ∃ pcb', pcb.advance (serial base (nxt + n)) tcplen = some pcb' ∧ Window base (nxt + n) told (out + n) pcb' ∧
      pcb'.state = pcb.state := by
  have hlt := h.lt
  have hwnd := h.rcvWnd
  have hann := h.ann_le
  have htold := h.told_le
  have hlenNat : tcplen.toNat = n := by
    rw [hlen, UInt32.toNat_ofNat_of_lt' (by change n < 2 ^ 32; omega)]
  have hfits : tcplen ≤ pcb.rcvWnd.toUInt32 := by
    rw [UInt32.le_iff_toNat_le, hlenNat, UInt16.toNat_toUInt32]
    omega
  have hleft : (pcb.rcvWnd - tcplen.toUInt16).toNat = pcb.rcvWnd.toNat - n := by
    have h16 : tcplen.toUInt16.toNat = n := by
      rw [UInt32.toNat_toUInt16, hlenNat]
      omega
    rw [UInt16.toNat_sub_of_le _ _ (by rw [UInt16.le_iff_toNat_le, h16]; omega), h16]
  rw [TcpPcb.advance, if_pos hfits]
  have hnxt : {pcb with rcvNxt := serial base (nxt + n), rcvWnd := pcb.rcvWnd - tcplen.toUInt16}.rcvNxt =
      serial base (nxt + n) := rfl
  obtain ⟨w, more, heq, hlow, hhigh⟩ := tcpUpdateRcvAnnWnd_eq hnxt h.edge hn (by simp only [hleft]; omega)
    (by simp only [hleft]; omega)
  rw [heq]
  simp only [hleft] at hhigh
  refine ⟨_, rfl, ⟨rfl, ?_, h.edge, hn, hlow, ?_⟩, rfl⟩
  · simp only [hleft]
    omega
  · simp only [hleft]
    exact hhigh

/-- What was taken off the window is given back. -/
theorem Window.recved (h : Window base nxt told out pcb) {len : UInt16} (hpos : 0 < len.toNat) (hlen : len.toNat ≤ out) :
    ∃ pcb', pcb.tcpRecved len = some pcb' ∧ Window base nxt told (out - len.toNat) pcb' ∧ pcb'.state = pcb.state ∧
      pcb'.ooseq = pcb.ooseq := by
  have hwnd := h.rcvWnd
  have htold := h.told_le
  have hann := h.ann_le
  have hsum : (pcb.rcvWnd + len).toNat = pcb.rcvWnd.toNat + len.toNat := by
    rw [UInt16.toNat_add]
    omega
  have hmax : ¬ tcpWnd < pcb.rcvWnd + len := by
    rw [UInt16.lt_iff_toNat_lt, hsum]
    change ¬ 5840 < _
    omega
  have hzero : ¬ pcb.rcvWnd + len = 0 := by
    intro hz
    rw [hz, show (0 : UInt16).toNat = 0 from rfl] at hsum
    omega
  have hnxt : {pcb with rcvWnd := pcb.rcvWnd + len}.rcvNxt = serial base nxt := h.rcvNxt
  obtain ⟨w, more, heq, hlow, hhigh⟩ := tcpUpdateRcvAnnWnd_eq hnxt h.edge h.nxt_le (by simp only [hsum]; omega)
    (by simp only [hsum]; omega)
  rw [TcpPcb.tcpRecved]
  simp only [hmax, hzero, if_false, Option.bind_eq_bind, Option.bind_some, heq]
  simp only [hsum] at hhigh
  refine ⟨_, rfl, ⟨h.rcvNxt, ?_, h.edge, h.nxt_le, hlow, ?_⟩, rfl, rfl⟩
  · simp only [hsum]
    omega
  · simp only [hsum]
    exact hhigh

/-! ### What goes up -/

/-- The octets from `start` up to `nxt`, and whether that was all. -/
structure Taken (stream : List UInt8) (start nxt : Nat) (data : List UInt8) (fin : Bool) : Prop where
  le : start ≤ nxt
  data : data = (stream.drop start).take (nxt - start)
  fin : fin = true ↔ nxt = stream.length + 1
  end_le : nxt ≤ stream.length + 1

theorem taken_nil (h : start ≤ stream.length) : Taken stream start start [] false :=
  ⟨Nat.le_refl _, by simp, by simp; omega, by omega⟩

theorem Taken.piece (h : Taken stream start nxt data fin) (hx : x.Of stream told) (hpos : x.pos = nxt) :
    Taken stream start x.stop (data ++ (stream.drop x.pos).take x.len) (fin || x.fin) := by
  have hlast := hx.inside
  have hmid : x.pos ≤ x.last := Piece.pos_le_last
  have hbefore : fin = false := Bool.eq_false_iff.mpr fun hf => by
    have := h.fin.mp hf
    omega
  have hstart := h.le
  have hnonempty := hx.nonempty
  have hlen : x.len = x.last - x.pos := by rw [Piece.last]; omega
  refine ⟨by omega, ?_, ?_, ?_⟩
  · have hdata : data ++ (stream.drop x.pos).take x.len = (stream.drop start).take (x.last - start) := by
      rw [h.data, show x.last - start = (nxt - start) + (x.last - nxt) by omega, List.take_add, List.drop_drop,
        show start + (nxt - start) = x.pos by omega, hlen, hpos]
    rw [hdata]
    cases hfin : x.fin with
    | false => rw [Piece.stop_of_not_fin hfin]
    | true =>
      -- behind the last octet there is none
      have hend := hx.fin hfin
      rw [List.take_of_length_le (by rw [List.length_drop]; omega),
        List.take_of_length_le (by rw [List.length_drop, Piece.stop_of_fin hfin]; omega)]
  · rw [hbefore, Bool.false_or]
    cases hfin : x.fin with
    | false =>
      rw [Piece.stop_of_not_fin hfin]
      simp
      omega
    | true => simp [Piece.stop_of_fin hfin, hx.fin hfin]
  · exact Nat.le_trans Piece.stop_le (Nat.succ_le_succ hlast)

/-- Where the pieces connected to `nxt` end. -/
def reach (nxt : Nat) : List Piece → Nat
  | [] => nxt
  | x :: rest => if x.pos = nxt then reach x.stop rest else nxt

theorem Queue.after (h : Queue stream told nxt (x :: pieces)) : Queue stream told x.stop pieces := by
  obtain ⟨-, -, hfin, hrest⟩ := h
  cases hx : x.fin with
  | false => exact Piece.stop_of_not_fin hx ▸ hrest
  | true =>
    rw [hfin hx]
    trivial

theorem le_reach (h : Queue stream told nxt pieces) : nxt ≤ reach nxt pieces := by
  induction pieces generalizing nxt with
  | nil => exact Nat.le_refl _
  | cons x rest ih =>
    rw [reach]
    split
    · rename_i heq
      have := h.2.1.nonempty
      exact Nat.le_trans (by omega) (ih h.after)
    · exact Nat.le_refl _

theorem cover_next {rest : List Piece} (h : (cover c pieces).2 = x :: rest) : c.last < x.last := by
  induction pieces generalizing c with
  | nil => cases h
  | cons y ys ih =>
    rw [cover] at h
    split at h
    · have hlast := ih h
      exact hlast
    · rename_i hnot
      cases h
      omega

/-- A piece in front of the queue is reached in full. -/
theorem stop_le_reach_insert (h : Queue stream told (c.pos + 1) pieces) (hc : c.Of stream told) :
    c.stop ≤ reach c.pos (insert c pieces) := by
  rw [insert]
  split
  · simp [reach]
  · rename_i hnot
    have hcfin : c.fin = false := by simpa using hnot
    have hcov := cover_covered h hc (fun htrue => absurd htrue hnot)
    have hnext := fun x rest => @cover_next c x pieces rest
    have hfst : (cover c pieces).1.pos = c.pos ∧ (cover c pieces).1.last = c.last := cover_fst
    rw [Piece.stop_of_not_fin hcfin]
    generalize cover c pieces = cov at hcov hnext hfst
    obtain ⟨c', after⟩ := cov
    obtain ⟨hpos, hlast⟩ := hfst
    cases after with
    | nil =>
      rw [joined, reach, if_pos hpos, reach, ← hlast]
      exact Piece.last_le_stop
    | cons x rest =>
      have hbeyond := hnext x rest rfl
      have hq : Queue stream told (c.pos + 1) (x :: rest) := hcov.queue
      have hfin' : (c'.cut x.pos).fin = false := by
        cases hf : c'.fin with
        | false => exact hf
        | true => cases hcov.fin hf
      have hxpos := hq.1
      have hcut : (c'.cut x.pos).last = min c.last x.pos := by
        rw [Piece.last_cut (by rw [hpos]; omega), hlast]
      have hcutpos : (c'.cut x.pos).pos = c.pos := hpos
      rw [joined, reach, if_pos hcutpos, Piece.stop_of_not_fin hfin', hcut]
      by_cases hle : c.last ≤ x.pos
      · rw [Nat.min_eq_left hle]
        exact le_reach ⟨hle, hq.2⟩
      · rw [Nat.min_eq_right (by omega), reach, if_pos rfl]
        have hrest : Queue stream told x.stop rest := hq.after
        have hle' : x.last ≤ x.stop := Piece.last_le_stop
        exact Nat.le_trans (by omega) (le_reach hrest)

/-! ### In sequence -/

/-- What taking pieces in sequence leaves: the connection, what went up and whether that was
all, and what still waits. -/
structure Received (stream : List UInt8) (base : UInt32) (start nxt told out : Nat) (result : TcpPcb × List UInt8 × Bool)
    (queue : List Piece) : Prop where
  window : Window base nxt told out result.1
  taken : Taken stream start nxt result.2.1 result.2.2
  ooseq : result.1.ooseq = queue.map (Piece.toSeg stream base)
  queue : Queue stream told (nxt + 1) queue
  state : result.2.2 = false → result.1.state = .established

theorem dequeue_toSeg (hw : Window base nxt told out pcb) (hq : Queue stream told nxt pieces)
    (ht : Taken stream start nxt data fin) (hstate : fin = false → pcb.state = .established) :
    ∃ result queue, pcb.dequeue data fin (pieces.map (Piece.toSeg stream base)) = some result ∧
      Received stream base start (reach nxt pieces) told (out + (reach nxt pieces - nxt)) result queue := by
  induction pieces generalizing nxt out pcb data fin with
  | nil =>
    refine ⟨_, [], rfl, ⟨hw.rcvNxt, ?_, hw.edge, hw.nxt_le, hw.told_le, hw.ann_le⟩, ht, rfl, trivial, hstate⟩
    rw [reach, Nat.sub_self]
    exact hw.rcvWnd
  | cons x rest ih =>
    have hlt := hw.lt
    obtain ⟨hpos, hof, hfin, hrest⟩ := hq
    have hstop := hof.stop
    have hmid : x.pos ≤ x.last := Piece.pos_le_last
    have hend : x.last ≤ x.stop := Piece.last_le_stop
    have hnear : Near x.pos nxt := by
      rw [Near]
      omega
    rw [List.map_cons, TcpPcb.dequeue, reach]
    by_cases heq : x.pos = nxt
    · have hseq : (x.toSeg stream base).seqno = pcb.rcvNxt := by rw [hw.rcvNxt, ← heq]; rfl
      have hsize : x.stop = nxt + (x.len + x.fin.toNat) := by rw [Piece.stop, Piece.last, heq]; omega
      have hlen : x.len < 2 ^ 16 := by
        rw [Piece.last] at hend
        omega
      have hstopSerial : pcb.rcvNxt + (x.toSeg stream base).tcpTcplen = serial base (nxt + (x.len + x.fin.toNat)) := by
        rw [hw.rcvNxt, Piece.tcpTcplen_toSeg hlen, serial_add]
      have htcplen : (x.toSeg stream base).tcpTcplen = UInt32.ofNat (x.len + x.fin.toNat) := Piece.tcpTcplen_toSeg hlen
      obtain ⟨pcb', hadvance, hw', hstate'⟩ := hw.advance (hsize ▸ hstop) htcplen
      rw [if_pos hseq, if_pos heq, hstopSerial, hadvance]
      have hafter : Queue stream told x.stop rest := Queue.after ⟨hpos, hof, hfin, hrest⟩
      have ht' := ht.piece hof heq
      have hgrow := le_reach hafter
      rw [← hsize] at hw'
      have hout : out + (x.len + x.fin.toNat) + (reach x.stop rest - x.stop) = out + (reach x.stop rest - nxt) := by
        omega
      simp only [Option.bind_eq_bind, Option.bind_some]
      have hw'' : Window base x.stop told (out + (x.len + x.fin.toNat))
          (if (x.toSeg stream base).fin = true then {pcb' with state := .closeWait} else pcb') := by
        split
        · exact ⟨hw'.rcvNxt, hw'.rcvWnd, hw'.edge, hw'.nxt_le, hw'.told_le, hw'.ann_le⟩
        · exact hw'
      obtain ⟨result, queue, hdequeue, hreceived⟩ := ih hw'' hafter ht' (fun hnone => by
        obtain ⟨hfin', hxfin⟩ := Bool.or_eq_false_iff.mp hnone
        rw [if_neg (by rw [show (x.toSeg stream base).fin = x.fin from rfl, hxfin]; exact Bool.false_ne_true), hstate']
        exact hstate hfin')
      rw [hout] at hreceived
      exact ⟨result, queue, hdequeue, hreceived⟩
    · have hseq : ¬ (x.toSeg stream base).seqno = pcb.rcvNxt := by
        rw [hw.rcvNxt]
        exact fun h => heq (serial_inj hnear h)
      rw [if_neg hseq, if_neg heq, Nat.sub_self]
      refine ⟨_, x :: rest, rfl, ⟨hw.rcvNxt, hw.rcvWnd, hw.edge, hw.nxt_le, hw.told_le, hw.ann_le⟩, ht, rfl, ?_, hstate⟩
      exact ⟨by omega, hof, hfin, hrest⟩

theorem tcplen_toNat (h : c.len + c.fin.toNat < 2 ^ 16) : (c.toSeg stream base).tcplen.toNat = c.len + c.fin.toNat := by
  rw [← UInt16.toNat_toUInt32, Piece.tcplen_toSeg h, UInt32.toNat_ofNat_of_lt' (Nat.lt_trans h (by decide))]

/-- A piece that is next goes up with all that it connects to. -/
theorem inSequence_toSeg (hw : Window base nxt told out pcb) (hooseq : pcb.ooseq = pieces.map (Piece.toSeg stream base))
    (hq : Queue stream told (nxt + 1) pieces) (hc : c.Of stream told) (hpos : c.pos = nxt)
    (hstate : pcb.state = .established) :
    ∃ nxt' result queue, pcb.inSequence (c.toSeg stream base) = some result ∧ c.stop ≤ nxt' ∧
      Received stream base nxt nxt' told (out + (nxt' - nxt)) result queue := by
  have hlt := hw.lt
  have hstop := hc.stop
  have hsize : c.stop = nxt + (c.len + c.fin.toNat) := by rw [Piece.stop, Piece.last, hpos]; omega
  have htold := hw.told_le
  have hann := hw.ann_le
  have hinside := hc.inside
  have hmid : c.pos ≤ c.last := Piece.pos_le_last
  have hfits : ¬ pcb.rcvWnd < (c.toSeg stream base).tcplen := by
    rw [UInt16.lt_iff_toNat_lt, tcplen_toNat (by omega)]
    omega
  rw [← hpos] at hq
  have hwin : told < c.pos + 2 ^ 16 := hpos ▸ hlt
  obtain ⟨c', rest, hinsert, htrim⟩ := @trimToOoseq_toSeg stream base _ _ _ _ hwin (Nat.le_refl _) hc hq
  have hreached := stop_le_reach_insert hq hc
  have hqueue := insert_queue hq hc
  rw [hinsert] at hreached hqueue
  have hpos' : c'.pos = nxt := by
    rw [reach] at hreached
    by_cases heq : c'.pos = c.pos
    · rw [heq, hpos]
    · rw [if_neg heq] at hreached
      have := hc.nonempty
      omega
  have hof' := hqueue.2.1
  have hstop' := hof'.stop
  have hsize' : c'.stop = nxt + (c'.len + c'.fin.toNat) := by rw [Piece.stop, Piece.last, hpos']; omega
  have hend : c'.last ≤ c'.stop := Piece.last_le_stop
  obtain ⟨pcb', hadvance, hw', hstate'⟩ := hw.advance (hsize' ▸ hstop')
    (@Piece.tcplen_toSeg stream base c' (by omega))
  have hgoes : (c'.toSeg stream base).seqno + (c'.toSeg stream base).tcplen.toUInt32 =
      serial base (nxt + (c'.len + c'.fin.toNat)) := by
    rw [Piece.seqno_toSeg, hpos', Piece.tcplen_toSeg (by omega), serial_add]
  rw [reach, if_pos (hpos'.trans hpos.symm)] at hreached
  rw [← hsize'] at hw'
  have hafter := hqueue.after
  have htaken := (taken_nil (by omega : nxt ≤ stream.length)).piece hof' hpos'
  rw [List.nil_append, Bool.false_or] at htaken
  obtain ⟨result, queue, hdequeue, hreceived⟩ := dequeue_toSeg hw' hafter htaken (fun _ => hstate'.trans hstate)
  have hgrow := le_reach hafter
  have hout : out + (c'.len + c'.fin.toNat) + (reach c'.stop rest - c'.stop) = out + (reach c'.stop rest - nxt) := by
    omega
  rw [hout] at hreceived
  refine ⟨reach c'.stop rest, result, queue, ?_, hreached, hreceived⟩
  rw [TcpPcb.inSequence, TcpPcb.trimToWindow, if_neg hfits]
  simp only [Option.bind_eq_bind, Option.bind_some, hooseq, htrim, hgoes, hadvance]
  exact hdequeue

/-- A piece further on is queued. -/
theorem outOfSequence_toSeg {tcplen : UInt16} (mem : Bool) (hw : Window base nxt told out pcb)
    (hooseq : pcb.ooseq = pieces.map (Piece.toSeg stream base)) (hq : Queue stream told (nxt + 1) pieces)
    (hc : c.Of stream told) (hpos : nxt < c.pos) (hlen : tcplen.toUInt32 = UInt32.ofNat (c.len + c.fin.toNat)) :
    ∃ queue, pcb.outOfSequence (c.toSeg stream base) tcplen mem =
        some {pcb with ooseq := queue.map (Piece.toSeg stream base)} ∧ Queue stream told (nxt + 1) queue := by
  have hlt := hw.lt
  have hwnd := hw.rcvWnd
  have htold := hw.told_le
  have hann := hw.ann_le
  have hstop := hc.stop
  have hmid : c.pos ≤ c.last := Piece.pos_le_last
  have hend : c.last ≤ c.stop := Piece.last_le_stop
  rw [TcpPcb.outOfSequence, hooseq]
  cases pieces with
  | nil =>
    cases mem with
    | true => exact ⟨[c], rfl, hpos, hc, fun _ => rfl, trivial⟩
    | false => exact ⟨[], rfl, trivial⟩
  | cons x rest =>
    have hfit : ¬ tcpSeqGt (tcplen.toUInt32 + (c.toSeg stream base).seqno) (pcb.rcvNxt + pcb.rcvWnd.toUInt32) := by
      rw [hlen, Piece.seqno_toSeg, UInt32.add_comm, Piece.serial_stop, hw.rcvNxt, toUInt32_eq_ofNat, ← serial_add,
        tcpSeqGt_serial (by rw [Near]; omega)]
      omega
    have hprev : ∀ p ∈ (none : Option Piece), p.pos < c.pos := fun p hp => by cases hp
    obtain ⟨queue, hloop, hqueue⟩ := queueLoop_toSeg mem (by omega : told < nxt + 1 + 2 ^ 16) hc hfit (Nat.le_refl _)
      hpos hprev hq
    simp only [List.map_cons, Option.map_none] at hloop
    simp only [List.map_cons, hloop, Option.bind_eq_bind, Option.bind_some]
    exact ⟨queue, rfl, hqueue⟩

/-! ### A segment -/

/-- A segment of the peer's stream that ends where the peer may send, and not so old that its
numbers have come round. -/
structure Sent (stream : List UInt8) (nxt told : Nat) (x : Piece) : Prop where
  inside : x.last ≤ stream.length
  fin : x.fin = true → x.last = stream.length
  stop : x.stop ≤ told
  recent : nxt < x.pos + 2 ^ 31
  len : x.len ≤ 65515

/-- What is left of a piece from `nxt` on. -/
def Piece.rest (x : Piece) (nxt : Nat) : Piece := ⟨nxt, x.last - nxt, x.fin⟩

theorem Sent.rest (h : Sent stream nxt told x) (hstop : nxt < x.stop) :
    (x.rest nxt).Of stream told ∧ (x.rest nxt).stop = x.stop := by
  have hle : x.stop ≤ x.last + 1 := Piece.stop_le
  have hlast : (x.rest nxt).last = x.last := by
    change nxt + (x.last - nxt) = x.last
    omega
  have hstop' : (x.rest nxt).stop = x.stop := by
    change (x.rest nxt).last + x.fin.toNat = x.stop
    rw [hlast]
    rfl
  refine ⟨⟨?_, ?_, ?_, ?_⟩, hstop'⟩
  · rw [hstop']
    exact hstop
  · rw [hlast]
    exact h.inside
  · rw [hlast]
    exact h.fin
  · rw [hstop']
    exact h.stop

theorem trimFront_toSeg {tcplen : UInt16} (hw : Window base nxt told out pcb) (hx : Sent stream nxt told x)
    (hlen : tcplen.toUInt32 = UInt32.ofNat (x.len + x.fin.toNat)) (hsome : x.pos < x.stop) :
    pcb.trimFront (x.toSeg stream base) tcplen =
      some ((if x.pos < nxt ∧ nxt < x.stop then x.rest nxt else x).toSeg stream base) := by
  have hlt := hw.lt
  have hrecent := hx.recent
  have hstop := hx.stop
  have hxlen := hx.len
  have hbetween : tcpSeqBetween pcb.rcvNxt ((x.toSeg stream base).seqno + 1)
      ((x.toSeg stream base).seqno + tcplen.toUInt32 - 1) ↔ x.pos + 1 ≤ nxt ∧ nxt < x.stop := by
    have hsucc : serial base x.pos + 1 = serial base (x.pos + 1) := serial_add.symm
    rw [hw.rcvNxt, hlen, Piece.seqno_toSeg, Piece.serial_stop, hsucc]
    exact tcpSeqBetween_serial (by rw [Near]; omega) (by rw [Near]; omega)
  rw [TcpPcb.trimFront]
  by_cases hin : x.pos < nxt ∧ nxt < x.stop
  · have hle : x.stop ≤ x.last + 1 := Piece.stop_le
    have hlast : x.last = x.pos + x.len := rfl
    have hinside := hx.inside
    have hoff : (pcb.rcvNxt - (x.toSeg stream base).seqno).toNat = nxt - x.pos := by
      rw [hw.rcvNxt]
      exact toNat_serial_sub (Nat.le_of_lt hin.1) (by omega)
    have hp : (x.toSeg stream base).p.length = x.len := by
      change ((stream.drop x.pos).take x.len).length = x.len
      rw [List.length_take, List.length_drop]
      omega
    have hsane : pcb.rcvNxt - (x.toSeg stream base).seqno < 0xffff ∧
        (pcb.rcvNxt - (x.toSeg stream base).seqno).toNat ≤ (x.toSeg stream base).p.length := by
      rw [UInt32.lt_iff_toNat_lt, hoff, hp]
      change nxt - x.pos < 65535 ∧ _
      omega
    have hcut : (x.toSeg stream base).len - (pcb.rcvNxt - (x.toSeg stream base).seqno).toUInt16 =
        UInt16.ofNat (x.last - nxt) := by
      have h16 : (pcb.rcvNxt - (x.toSeg stream base).seqno).toUInt16.toNat = nxt - x.pos := by
        rw [UInt32.toNat_toUInt16, hoff]
        omega
      have hlen16 : (x.toSeg stream base).len.toNat = x.len := UInt16.toNat_ofNat_of_lt' (by change x.len < 2 ^ 16; omega)
      apply UInt16.toNat.inj
      rw [UInt16.toNat_sub_of_le _ _ (by rw [UInt16.le_iff_toNat_le, h16, hlen16]; omega), h16, hlen16,
        UInt16.toNat_ofNat_of_lt' (by change x.last - nxt < 2 ^ 16; omega)]
      omega
    have hdrop : (x.toSeg stream base).p.drop (nxt - x.pos) = (stream.drop nxt).take (x.last - nxt) := by
      change ((stream.drop x.pos).take x.len).drop (nxt - x.pos) = _
      rw [List.drop_take, List.drop_drop, show x.pos + (nxt - x.pos) = nxt by omega,
        show x.len - (nxt - x.pos) = x.last - nxt by omega]
    rw [if_pos (hbetween.mpr hin), if_pos hin, if_pos hsane, hcut, hoff, hdrop, hw.rcvNxt]
    rfl
  · rw [if_neg (fun h => hin (hbetween.mp h)), if_neg hin]

/-- **A segment of the stream** never fails. What was next is taken with all that it connects
to; what is further on waits; the rest changes nothing. -/
theorem tcpReceive_toSeg {tcplen : UInt16} (mem : Bool) (hw : Window base nxt told out pcb)
    (hooseq : pcb.ooseq = pieces.map (Piece.toSeg stream base)) (hq : Queue stream told (nxt + 1) pieces)
    (hstate : pcb.state = .established) (hnxt : nxt ≤ stream.length) (hx : Sent stream nxt told x)
    (hlen : tcplen.toNat = x.len + x.fin.toNat) :
    ∃ nxt' result queue, pcb.tcpReceive (x.toSeg stream base) tcplen mem = some result ∧
      Received stream base nxt nxt' told (out + (nxt' - nxt)) result queue ∧ (x.pos ≤ nxt → x.stop ≤ nxt') := by
  have hlen32 : tcplen.toUInt32 = UInt32.ofNat (x.len + x.fin.toNat) := by rw [toUInt32_eq_ofNat, hlen]
  have hstopsize : x.stop = x.pos + (x.len + x.fin.toNat) := by rw [Piece.stop, Piece.last]; omega
  have hsame : Received stream base nxt nxt told (out + (nxt - nxt)) (pcb, [], false) pieces := by
    rw [Nat.sub_self]
    exact ⟨hw, taken_nil hnxt, hooseq, hq, fun _ => hstate⟩
  rw [TcpPcb.tcpReceive]
  by_cases hzero : x.len + x.fin.toNat = 0
  · have hempty : ¬ 0 < tcplen := by
      rw [UInt16.lt_iff_toNat_lt, hlen, hzero]
      exact Nat.lt_irrefl 0
    rw [if_neg (fun h => hempty h.1)]
    exact ⟨nxt, _, pieces, rfl, hsame, fun h => by omega⟩
  have hsome : 0 < tcplen := by
    rw [UInt16.lt_iff_toNat_lt, hlen]
    exact Nat.pos_of_ne_zero hzero
  have hlt := hw.lt
  have htold := hw.told_le
  have hann := hw.ann_le
  have hwnd := hw.rcvWnd
  have hstop := hx.stop
  have hrecent := hx.recent
  rw [if_pos ⟨hsome, hstate⟩, trimFront_toSeg hw hx hlen32 (by omega)]
  simp only [Option.bind_eq_bind, Option.bind_some]
  have hright : pcb.rcvNxt + pcb.rcvWnd.toUInt32 - 1 = serial base (nxt + pcb.rcvWnd.toNat) - 1 := by
    rw [hw.rcvNxt, toUInt32_eq_ofNat, ← serial_add]
  by_cases hin : x.pos < nxt ∧ nxt < x.stop
  · -- its first octets are known
    obtain ⟨hof, hstop'⟩ := hx.rest hin.2
    have hbetween : tcpSeqBetween (serial base nxt) (serial base nxt) (serial base (nxt + pcb.rcvWnd.toNat) - 1) :=
      (tcpSeqBetween_serial (by rw [Near]; omega) (by rw [Near]; omega)).mpr (by omega)
    obtain ⟨nxt', result, queue, hresult, hreach, hreceived⟩ := inSequence_toSeg hw hooseq hq hof rfl hstate
    rw [if_pos hin, hright, hw.rcvNxt, show ((x.rest nxt).toSeg stream base).seqno = serial base nxt from rfl,
      if_pos hbetween, if_pos rfl, hresult]
    exact ⟨nxt', result, queue, rfl, hreceived, fun _ => hstop' ▸ hreach⟩
  rw [if_neg hin, hright, hw.rcvNxt, Piece.seqno_toSeg]
  by_cases hold : x.pos < nxt
  · have hbetween : ¬ tcpSeqBetween (serial base x.pos) (serial base nxt) (serial base (nxt + pcb.rcvWnd.toNat) - 1) :=
      fun h => absurd ((tcpSeqGeq_serial (by rw [Near]; omega)).mp h.1) (by omega)
    rw [if_neg hbetween]
    exact ⟨nxt, _, pieces, rfl, hsame, fun _ => by omega⟩
  · have hbetween : tcpSeqBetween (serial base x.pos) (serial base nxt) (serial base (nxt + pcb.rcvWnd.toNat) - 1) :=
      (tcpSeqBetween_serial (by rw [Near]; omega) (by rw [Near]; omega)).mpr (by omega)
    have hof : x.Of stream told := ⟨by omega, hx.inside, hx.fin, hstop⟩
    rw [if_pos hbetween]
    by_cases hnext : nxt = x.pos
    · obtain ⟨nxt', result, queue, hresult, hreach, hreceived⟩ := inSequence_toSeg hw hooseq hq hof hnext.symm hstate
      rw [if_pos (congrArg _ hnext), hresult]
      exact ⟨nxt', result, queue, rfl, hreceived, fun _ => hreach⟩
    · have hfurther : ¬ serial base nxt = serial base x.pos :=
        fun h => hnext (serial_inj (by rw [Near]; omega) h)
      obtain ⟨queue, hresult, hqueue⟩ := outOfSequence_toSeg mem hw hooseq hq hof (by omega) hlen32
      rw [if_neg hfurther, hresult]
      refine ⟨nxt, _, queue, rfl, ⟨?_, taken_nil hnxt, rfl, hqueue, fun _ => hstate⟩, fun _ => by omega⟩
      rw [Nat.sub_self]
      exact ⟨hw.rcvNxt, hw.rcvWnd, hw.edge, hw.nxt_le, hw.told_le, hw.ann_le⟩

end TwilightLine.TcpIn
