import TwilightLine.Lwip.TcpStream

/-! What a run of a connection delivers.

While the peer keeps to the window, no assertion fails and the application gets the stream
from its beginning, once, in whatever order and overlaps its pieces come
(`stream_delivered`). What it has not read is what is off the window, and an edge once
announced stays in it (`window_accounted`). The connection is never behind one that does
without a queue, so that a peer that sends again what was not taken gets everything across
(`resent_delivers_all`). A peer that does not keep to the window ends the program
(`overrun_fails`). -/
namespace TwilightLine.TcpIn
open Run Serial

variable {stream : List UInt8} {base : UInt32} {c c' : Conn} {x : Piece} {mem : Bool} {reads : List UInt16}

/-! ### Runs -/

theorem inv_step {e : Event} (h : Inv stream base c) (hadm : Admissible stream base c e) :
    ∃ c', step stream base c e = some c' ∧ Inv stream base c' ∧ c.told ≤ c'.told := by
  cases e with
  | segment x mem reads =>
    obtain ⟨c', heq, hinv, htold, -⟩ := h.segment hadm
    exact ⟨c', heq, hinv, htold⟩
  | recved len => exact h.recved hadm.1 hadm.2
  | output => exact h.output
  | freeOoseq => exact h.freeOoseq

theorem inv_run {es : List Event} (hadm : AllSteps (step stream base) (Admissible stream base) c es)
    (h : Inv stream base c) : ∃ c', run (step stream base) c es = some c' ∧ Inv stream base c' ∧ c.told ≤ c'.told :=
  run_progress (fun c' => Inv stream base c' ∧ c.told ≤ c'.told)
    (fun _ _ hs hadm =>
      let ⟨c', heq, hinv, htold⟩ := inv_step hs.1 hadm
      ⟨c', heq, hinv, Nat.le_trans hs.2 htold⟩)
    hadm ⟨h, Nat.le_refl _⟩

/-- **The stream is delivered** from its beginning, in order and once, and no assertion
fails, in whatever pieces and order its segments come. -/
theorem stream_delivered (stream : List UInt8) (base : UInt32) (mss : UInt16) {es : List Event}
    (hadm : AllSteps (step stream base) (Admissible stream base) (init base mss) es) :
    ∃ c, run (step stream base) (init base mss) es = some c ∧ c.delivered <+: stream ∧
      (c.closed = true → c.delivered = stream) := by
  obtain ⟨c, hrun, hinv, -⟩ := inv_run hadm (inv_init mss)
  have hprefix : c.delivered <+: stream := hinv.delivered ▸ List.take_prefix ..
  exact ⟨c, hrun, hprefix, fun hclosed => hprefix.eq_of_length (hinv.closed hclosed)⟩

/-- The segments come the wrong way round, past the end of the sequence numbers. -/
theorem stream_delivered_swapped :
    ∃ c, run (step [1, 2, 3] 0xffffffff) (init 0xffffffff 1460)
        [.output, .segment ⟨1, 2, true⟩ true [], .segment ⟨0, 1, false⟩ true [3]] = some c ∧
      c.delivered <+: [1, 2, 3] ∧ (c.closed = true → c.delivered = [1, 2, 3]) :=
  stream_delivered [1, 2, 3] 0xffffffff 1460 (by decide +kernel)

theorem Inv.accounted (h : Inv stream base c) :
    c.delivered.length + c.pcb.rcvWnd.toNat = c.recved + tcpWnd.toNat ∧ c.told ≤ c.nxt + c.pcb.rcvWnd.toNat := by
  have hwnd := h.window.rcvWnd
  have htold := h.window.told_le
  have hann := h.window.ann_le
  have hrecved := h.recved_le
  have hmax : tcpWnd.toNat = 5840 := rfl
  omega

/-- **The window is accounted for**: what the application has not read is off the window, the
rest is left. An edge once announced is within the window in every state that follows. -/
theorem window_accounted (stream : List UInt8) (base : UInt32) (mss : UInt16) {es fs : List Event} {c : Conn}
    (hadm : AllSteps (step stream base) (Admissible stream base) (init base mss) es)
    (hrun : run (step stream base) (init base mss) es = some c)
    (hadm' : AllSteps (step stream base) (Admissible stream base) c fs) :
    ∃ c', run (step stream base) c fs = some c' ∧
      c'.delivered.length + c'.pcb.rcvWnd.toNat = c'.recved + tcpWnd.toNat ∧
      c.told ≤ c'.told ∧ c'.told ≤ c'.nxt + c'.pcb.rcvWnd.toNat := by
  obtain ⟨d, hrun', hinv, -⟩ := inv_run hadm (inv_init mss)
  obtain rfl : c = d := Option.some.inj (hrun.symm.trans hrun')
  obtain ⟨c', hrest, hinv', htold⟩ := inv_run hadm' hinv
  exact ⟨c', hrest, hinv'.accounted.1, htold, hinv'.accounted.2⟩

/-- Two octets came and one was read; the rest comes, and another is read. -/
theorem window_accounted_partly :
    ∃ c', run (step [1, 2, 3] 0xffffffff) ⟨⟨.established, 1, 5839, 5838, 5839, 1460, []⟩, [1, 2], false, 1, 5840⟩
        [.segment ⟨2, 1, true⟩ true [], .recved 1] = some c' ∧
      c'.delivered.length + c'.pcb.rcvWnd.toNat = c'.recved + tcpWnd.toNat ∧
      5840 ≤ c'.told ∧ c'.told ≤ c'.nxt + c'.pcb.rcvWnd.toNat :=
  @window_accounted [1, 2, 3] 0xffffffff 1460 [.output, .segment ⟨0, 2, false⟩ true [1]] _ _ (by decide +kernel)
    (by decide +kernel) (by decide +kernel)

/-! ### A receiver that keeps nothing back -/

/-- Where a receiver without a queue stands after the events, one that takes a piece only
when the piece is next. -/
def inTurn (nxt : Nat) : List Event → Nat
  | [] => nxt
  | .segment x _ _ :: rest => inTurn (if x.pos ≤ nxt then max nxt x.stop else nxt) rest
  | .recved _ :: rest => inTurn nxt rest
  | .output :: rest | .freeOoseq :: rest => inTurn nxt rest

theorem step_nxt_le {e : Event} (h : step stream base c e = some c') : c.nxt ≤ c'.nxt := by
  cases e with
  | segment x mem reads =>
    rw [step, Option.bind_eq_bind, Option.bind_eq_some_iff] at h
    obtain ⟨⟨pcb, data, fin⟩, -, heq⟩ := h
    cases heq
    have hclosed : c.closed.toNat ≤ (c.closed || fin).toNat := by
      cases c.closed <;> cases fin <;> decide
    simp only [Conn.nxt, List.length_append]
    omega
  | recved len =>
    rw [step, Option.bind_eq_bind, Option.bind_eq_some_iff] at h
    obtain ⟨pcb, -, heq⟩ := h
    cases heq
    exact Nat.le_refl _
  | output =>
    cases h
    exact Nat.le_refl _
  | freeOoseq =>
    cases h
    exact Nat.le_refl _

theorem Inv.nxt_of_closed (h : Inv stream base c) (hclosed : c.closed = true) : c.nxt = stream.length + 1 := by
  rw [Conn.nxt, h.closed hclosed, hclosed]
  rfl

/-- A piece that is next is taken to its end, and was if the stream has ended. -/
theorem Inv.taken (h : Inv stream base c)
    (hadm : Admissible stream base c (.segment x mem reads)) (hstep : step stream base c (.segment x mem reads) = some c')
    (hpos : x.pos ≤ c.nxt) : x.stop ≤ c'.nxt := by
  obtain ⟨c₁, heq, -, -, htaken⟩ := h.segment hadm
  obtain rfl : c' = c₁ := Option.some.inj (hstep.symm.trans heq)
  cases hclosed : c.closed with
  | false => exact htaken hclosed hpos
  | true =>
    have hend : x.stop ≤ x.last + 1 := Piece.stop_le
    have hinside := hadm.1.inside
    have hgrow := step_nxt_le hstep
    rw [h.nxt_of_closed hclosed] at hgrow
    omega

theorem inTurn_le {es : List Event} {nxt : Nat} (h : Inv stream base c)
    (hadm : AllSteps (step stream base) (Admissible stream base) c es) (hrun : run (step stream base) c es = some c')
    (hnxt : nxt ≤ c.nxt) : inTurn nxt es ≤ c'.nxt := by
  induction es generalizing c nxt with
  | nil =>
    cases hrun
    exact hnxt
  | cons e rest ih =>
    obtain ⟨c₁, hstep, hrest⟩ := run_cons hrun
    obtain ⟨c₂, heq, hinv, -⟩ := inv_step h hadm.1
    obtain rfl : c₁ = c₂ := Option.some.inj (hstep.symm.trans heq)
    have hgrow := step_nxt_le hstep
    cases e with
    | segment x mem reads =>
      refine ih hinv (hadm.2 c₁ hstep) hrest ?_
      split
      · rename_i hpos
        exact Nat.max_le.mpr ⟨by omega, h.taken hadm.1 hstep (by omega)⟩
      · omega
    | recved len => exact ih hinv (hadm.2 c₁ hstep) hrest (by omega)
    | output => exact ih hinv (hadm.2 c₁ hstep) hrest (by omega)
    | freeOoseq => exact ih hinv (hadm.2 c₁ hstep) hrest (by omega)

/-- **The connection is never behind a receiver without a queue**, so that the stream is
delivered whole once its pieces have come in turn, each as often as it may have been lost or
come too early. The queue, and memory for it, are never needed. -/
theorem resent_delivers_all (stream : List UInt8) (base : UInt32) (mss : UInt16) {es : List Event}
    (hadm : AllSteps (step stream base) (Admissible stream base) (init base mss) es) :
    ∃ c, run (step stream base) (init base mss) es = some c ∧ inTurn 0 es ≤ c.nxt ∧
      (inTurn 0 es = stream.length + 1 → c.closed = true ∧ c.delivered = stream) := by
  obtain ⟨c, hrun, hinv, -⟩ := inv_run hadm (inv_init mss)
  have hnxt := inTurn_le (inv_init mss) hadm hrun (Nat.zero_le _)
  refine ⟨c, hrun, hnxt, fun hall => ?_⟩
  have hle := hinv.delivered_le
  rw [hall, Conn.nxt] at hnxt
  cases hclosed : c.closed with
  | false =>
    rw [hclosed, Bool.toNat_false] at hnxt
    omega
  | true =>
    refine ⟨rfl, ?_⟩
    rw [hinv.delivered, hinv.closed hclosed, List.take_length]

/-- The second piece comes too early, is queued and lost, and comes again. -/
theorem resent_delivers_all_early :
    ∃ c, run (step [1, 2, 3] 0xffffffff) (init 0xffffffff 1460)
        [.output, .segment ⟨1, 2, true⟩ true [], .freeOoseq, .segment ⟨0, 1, false⟩ true [],
          .segment ⟨1, 2, true⟩ false [3]] = some c ∧
      c.closed = true ∧ c.delivered = [1, 2, 3] := by
  obtain ⟨c, hrun, -, hall⟩ := @resent_delivers_all [1, 2, 3] 0xffffffff 1460
    [.output, .segment ⟨1, 2, true⟩ true [], .freeOoseq, .segment ⟨0, 1, false⟩ true [], .segment ⟨1, 2, true⟩ false [3]]
    (by decide +kernel)
  exact ⟨c, hrun, hall (by decide)⟩

/-! ### A peer that sends past the window -/

section Overrun
variable {pcb pcb' : TcpPcb} {seg : TcpSeg} {y : Piece}

theorem trimFront_of_not_geq {tcplen : UInt16} (h : ¬ tcpSeqGeq pcb.rcvNxt (seg.seqno + 1)) :
    pcb.trimFront seg tcplen = some seg := if_neg fun hbetween => h hbetween.1

theorem tcpUpdateRcvAnnWnd_rcv {more : UInt32} (h : pcb.tcpUpdateRcvAnnWnd = some (pcb', more)) :
    pcb'.rcvNxt = pcb.rcvNxt ∧ pcb'.rcvWnd = pcb.rcvWnd := by
  rw [TcpPcb.tcpUpdateRcvAnnWnd] at h
  simp only at h
  split at h
  · cases h
    exact ⟨rfl, rfl⟩
  · split at h
    · cases h
      exact ⟨rfl, rfl⟩
    · split at h <;> cases h
      exact ⟨rfl, rfl⟩

theorem advance_some {rcvNxt tcplen : UInt32} (h : pcb.advance rcvNxt tcplen = some pcb') :
    pcb'.rcvNxt = rcvNxt ∧ pcb'.rcvWnd = pcb.rcvWnd - tcplen.toUInt16 := by
  rw [TcpPcb.advance] at h
  split at h
  · rw [Option.bind_eq_bind, Option.bind_eq_some_iff] at h
    obtain ⟨⟨pcb₁, more⟩, hupdate, heq⟩ := h
    cases heq
    exact tcpUpdateRcvAnnWnd_rcv hupdate
  · cases h

/-- A segment that starts in the window, at its beginning or further on. -/
theorem tcpReceive_inWindow {nxt : Nat} {tcplen : UInt16} (hnxt : pcb.rcvNxt = serial base nxt)
    (hstate : pcb.state = .established) (hmax : pcb.rcvWnd.toNat ≤ 5840) (hsome : 0 < tcplen) (hpos : nxt ≤ x.pos)
    (hwnd : x.pos < nxt + pcb.rcvWnd.toNat) :
    pcb.tcpReceive (x.toSeg stream base) tcplen mem =
      if nxt = x.pos then pcb.inSequence (x.toSeg stream base)
      else (pcb.outOfSequence (x.toSeg stream base) tcplen mem).map fun pcb => (pcb, [], false) := by
  have hfront : ¬ tcpSeqGeq pcb.rcvNxt ((x.toSeg stream base).seqno + 1) := by
    rw [hnxt, Piece.seqno_toSeg, show serial base x.pos + 1 = serial base (x.pos + 1) from serial_add.symm,
      tcpSeqGeq_serial (by rw [Near]; omega)]
    omega
  have hbetween : tcpSeqBetween (x.toSeg stream base).seqno pcb.rcvNxt (pcb.rcvNxt + pcb.rcvWnd.toUInt32 - 1) := by
    rw [hnxt, toUInt32_eq_ofNat, ← serial_add, Piece.seqno_toSeg]
    exact (tcpSeqBetween_serial (by rw [Near]; omega) (by rw [Near]; omega)).mpr ⟨hpos, hwnd⟩
  have hnext : pcb.rcvNxt = (x.toSeg stream base).seqno ↔ nxt = x.pos := by
    rw [hnxt, Piece.seqno_toSeg]
    exact ⟨serial_inj (by rw [Near]; omega), congrArg _⟩
  rw [TcpPcb.tcpReceive, if_pos ⟨hsome, hstate⟩, trimFront_of_not_geq hfront]
  simp only [Option.bind_eq_bind, Option.bind_some, hbetween, if_true, hnext]
  split
  · rfl
  · exact (Option.map_eq_bind ..).symm

theorem tcplen_pos (hsome : 0 < x.len) (hlen : x.len ≤ 65515) :
    0 < if (x.toSeg stream base).fin = true then (x.toSeg stream base).len + 1 else (x.toSeg stream base).len := by
  rw [UInt16.lt_iff_toNat_lt, (tcplen_segment hlen).1]
  exact Nat.add_pos_left hsome _

/-- What starts further on in the window is queued whole if nothing else waits. -/
theorem Inv.queued (h : Inv stream base c) (hopen : c.closed = false) (hempty : c.pcb.ooseq = [])
    (hsome : 0 < x.len) (hlen : x.len ≤ 65515) (hpos : c.nxt < x.pos) (hwnd : x.pos < c.nxt + c.pcb.rcvWnd.toNat) :
    step stream base c (.segment x true []) = some {c with pcb := {c.pcb with ooseq := [x.toSeg stream base]}} := by
  have hmax := h.window.rcvWnd
  have hreceive := @tcpReceive_inWindow stream base x true _ _ _ h.window.rcvNxt (h.state.mpr hopen) (by omega)
    (@tcplen_pos stream base x hsome hlen) (Nat.le_of_lt hpos) hwnd
  rw [if_neg (Nat.ne_of_lt hpos), TcpPcb.outOfSequence, hempty] at hreceive
  rw [step, TcpPcb.tcpInput]
  simp only [(tcplen_segment hlen).2, if_false]
  rw [TcpPcb.tcpProcess, hreceive]
  simp [TcpPcb.tcpEventRecv, readOf]

/-- What fills the gap takes the waiting segment with it, which the window no longer holds. -/
theorem dequeue_overrun (hnxt : pcb.rcvNxt = serial base x.pos) (hlen : x.len ≤ 65515)
    (hover : pcb.rcvWnd.toNat < x.len) (data : List UInt8) (fin : Bool) :
    pcb.dequeue data fin [x.toSeg stream base] = none := by
  have hbig : ¬ (x.toSeg stream base).tcpTcplen ≤ pcb.rcvWnd.toUInt32 := by
    rw [Piece.tcpTcplen_toSeg (by omega), UInt32.le_iff_toNat_le, UInt16.toNat_toUInt32,
      UInt32.toNat_ofNat_of_lt' (by have := Bool.toNat_le x.fin; change x.len + x.fin.toNat < 2 ^ 32; omega)]
    omega
  have hseq : (x.toSeg stream base).seqno = pcb.rcvNxt := hnxt.symm
  rw [TcpPcb.dequeue, if_pos hseq, TcpPcb.advance, if_neg hbig]
  rfl

/-- A piece that is next fills the gap, and the window does not hold what waits behind it. -/
theorem inSequence_overrun (hooseq : pcb.ooseq = [x.toSeg stream base]) (hfin : y.fin = false) (hmeet : y.last = x.pos)
    (hmax : pcb.rcvWnd.toNat ≤ 5840) (hwnd : y.len < pcb.rcvWnd.toNat) (hover : pcb.rcvWnd.toNat < y.len + x.len)
    (hlen : x.len ≤ 65515) : pcb.inSequence (y.toSeg stream base) = none := by
  have hsize : y.len + y.fin.toNat < 2 ^ 16 := by
    rw [hfin, Bool.toNat_false]
    omega
  have hyEnd : (y.toSeg stream base).seqno + (y.toSeg stream base).tcplen.toUInt32 = serial base x.pos := by
    rw [Piece.tcplen_toSeg hsize, Piece.seqno_toSeg, ← serial_add, hfin, Bool.toNat_false, Nat.add_zero, ← hmeet]
    rfl
  have hxEnd : (x.toSeg stream base).seqno + (x.toSeg stream base).len.toUInt32 = serial base (x.pos + x.len) := by
    rw [Piece.seqno_toSeg, toUInt32_eq_ofNat, serial_add]
    congr 2
    exact UInt16.toNat_ofNat_of_lt' (by change x.len < 2 ^ 16; omega)
  have hfits : ¬ pcb.rcvWnd < (y.toSeg stream base).tcplen := by
    rw [UInt16.lt_iff_toNat_lt, tcplen_toNat hsize, hfin, Bool.toNat_false]
    omega
  have hcover : ¬ tcpSeqGeq (serial base x.pos) (serial base (x.pos + x.len)) := by
    rw [tcpSeqGeq_serial (by rw [Near]; omega)]
    omega
  have hbefore : ¬ tcpSeqGt ((y.toSeg stream base).seqno + (y.toSeg stream base).tcplen.toUInt32)
      (x.toSeg stream base).seqno := by
    rw [hyEnd, Piece.seqno_toSeg, tcpSeqGt_serial (by rw [Near]; omega)]
    exact Nat.lt_irrefl _
  have htrim : trimToOoseq (y.toSeg stream base) pcb.ooseq = some (y.toSeg stream base, [x.toSeg stream base]) := by
    rw [hooseq, trimToOoseq, if_neg (by rw [show (y.toSeg stream base).fin = y.fin from rfl, hfin]; exact Bool.false_ne_true),
      dropCovered, hyEnd, hxEnd, if_neg hcover]
    simp only [hbefore, if_false]
  rw [TcpPcb.inSequence, TcpPcb.trimToWindow, if_neg hfits]
  simp only [Option.bind_eq_bind, Option.bind_some, htrim, hyEnd]
  cases hadvance : pcb.advance (serial base x.pos) (y.toSeg stream base).tcplen.toUInt32 with
  | none => rfl
  | some pcb' =>
    obtain ⟨hnxt', hwnd'⟩ := advance_some hadvance
    have hleft : pcb'.rcvWnd.toNat = pcb.rcvWnd.toNat - y.len := by
      have hy16 : (y.toSeg stream base).tcplen.toUInt32.toUInt16.toNat = y.len := by
        rw [UInt32.toNat_toUInt16, UInt16.toNat_toUInt32, tcplen_toNat hsize, hfin, Bool.toNat_false]
        omega
      rw [hwnd', UInt16.toNat_sub_of_le _ _ (by rw [UInt16.le_iff_toNat_le, hy16]; omega), hy16]
    exact dequeue_overrun hnxt' hlen (by omega) _ _

/-- **A peer that sends past the window ends the program**: a segment that starts further on in
the window and ends behind it is queued whole if nothing else waits, and the segment that
fills the gap before it fails, as the window does not hold what waits. -/
theorem overrun_fails (stream : List UInt8) (base : UInt32) (mss : UInt16) {es : List Event} {c : Conn} {x y : Piece}
    (mem : Bool) (reads : List UInt16) (hadm : AllSteps (step stream base) (Admissible stream base) (init base mss) es)
    (hrun : run (step stream base) (init base mss) es = some c) (hopen : c.closed = false) (hempty : c.pcb.ooseq = [])
    (hlen : x.len ≤ 65515) (hwnd : x.pos < c.nxt + c.pcb.rcvWnd.toNat)
    (hover : c.nxt + c.pcb.rcvWnd.toNat < x.last) (hfin : y.fin = false) (hsome : 0 < y.len) (hnext : y.pos = c.nxt)
    (hmeet : y.last = x.pos) :
    ∃ c', step stream base c (.segment x true []) = some c' ∧ c'.pcb.ooseq = [x.toSeg stream base] ∧
      step stream base c' (.segment y mem reads) = none := by
  obtain ⟨d, hrun', h, -⟩ := inv_run hadm (inv_init mss)
  obtain rfl : c = d := Option.some.inj (hrun.symm.trans hrun')
  have hmax := h.window.rcvWnd
  have hstart : x.pos = c.nxt + y.len := by rw [← hmeet, ← hnext]; rfl
  have hend : x.last = x.pos + x.len := rfl
  have hylen : y.len ≤ 65515 := by omega
  have hfill := @inSequence_overrun stream base x {c.pcb with ooseq := [x.toSeg stream base]} y rfl hfin hmeet
    (by change c.pcb.rcvWnd.toNat ≤ 5840; omega)
    (by change y.len < c.pcb.rcvWnd.toNat; omega) (by change c.pcb.rcvWnd.toNat < y.len + x.len; omega) hlen
  have hreceive := @tcpReceive_inWindow stream base y mem {c.pcb with ooseq := [x.toSeg stream base]} _ _
    h.window.rcvNxt (h.state.mpr hopen) (by change c.pcb.rcvWnd.toNat ≤ 5840; omega)
    (@tcplen_pos stream base y hsome hylen) (Nat.le_of_eq hnext.symm)
    (by change y.pos < c.nxt + c.pcb.rcvWnd.toNat; omega)
  rw [if_pos hnext.symm, hfill] at hreceive
  refine ⟨_, h.queued hopen hempty (by omega) hlen (by omega) hwnd, rfl, ?_⟩
  rw [step, TcpPcb.tcpInput]
  simp only [(tcplen_segment hylen).2, if_false]
  rw [TcpPcb.tcpProcess, hreceive]
  rfl

/-- One octet more than the window, the first of them last. -/
theorem overrun_fails_byOne :
    ∃ c', step (List.replicate 5841 0) 0xffffffff {init 0xffffffff 1460 with
        pcb := (init 0xffffffff 1460).pcb.output, told := 5840} (.segment ⟨1, 5840, false⟩ true []) = some c' ∧
      c'.pcb.ooseq = [Piece.toSeg (List.replicate 5841 0) 0xffffffff ⟨1, 5840, false⟩] ∧
      step (List.replicate 5841 0) 0xffffffff c' (.segment ⟨0, 1, false⟩ true []) = none :=
  @overrun_fails (List.replicate 5841 0) 0xffffffff 1460 [.output] _ ⟨1, 5840, false⟩ ⟨0, 1, false⟩ true []
    ⟨trivial, fun _ _ => trivial⟩ rfl rfl rfl (by decide) (by decide) (by decide)
    rfl (by decide) rfl rfl

end Overrun

end TwilightLine.TcpIn
