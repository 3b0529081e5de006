import TwilightLine.Lwip.TcpIn

/-! The queue of a connection whose peer sends one stream.

Such a peer's segments are pieces of a list of octets, with a FIN behind its end. The queue
holds pieces in order, apart, the FIN last (`Queue`), and inserting keeps it so: a new
piece takes the place of those it covers (`cover`) and is cut where the next one begins
(`joined`). On pieces that fit in a window the comparisons of sequence numbers are those of
positions, and the code does what is done here. -/
namespace TwilightLine.TcpIn
open Serial

structure Piece where
  pos : Nat
  len : Nat
  fin : Bool
  deriving DecidableEq, Repr

namespace Piece

/-- Where the octets end. -/
def last (x : Piece) : Nat := x.pos + x.len

/-- Where the piece ends in the sequence space, in which a FIN counts. -/
def stop (x : Piece) : Nat := x.last + x.fin.toNat

/-- The piece without what is at `k` or later. -/
def cut (x : Piece) (k : Nat) : Piece := {x with len := min x.len (k - x.pos)}

/-- The segment with that piece of the stream. -/
def toSeg (stream : List UInt8) (base : UInt32) (x : Piece) : TcpSeg :=
  { seqno := serial base x.pos
    len := UInt16.ofNat x.len
    fin := x.fin
    p := (stream.drop x.pos).take x.len }

/-- A piece of the stream that is not empty and ends by `hi`. -/
structure Of (stream : List UInt8) (hi : Nat) (x : Piece) : Prop where
  nonempty : x.pos < x.stop
  inside : x.last ≤ stream.length
  fin : x.fin = true → x.last = stream.length
  stop : x.stop ≤ hi

variable {stream : List UInt8} {base : UInt32} {lo hi k : Nat} {x y : Piece}

theorem last_le_stop : x.last ≤ x.stop := Nat.le_add_right ..
theorem stop_le : x.stop ≤ x.last + 1 := Nat.add_le_add_left (Bool.toNat_le _) _
theorem pos_le_last : x.pos ≤ x.last := Nat.le_add_right ..

theorem stop_of_not_fin (h : x.fin = false) : x.stop = x.last := by rw [Piece.stop, h]; rfl
theorem stop_of_fin (h : x.fin = true) : x.stop = x.last + 1 := by rw [Piece.stop, h]; rfl

theorem Of.pos_lt_last (h : x.Of stream hi) (hfin : x.fin = false) : x.pos < x.last := by
  rw [← stop_of_not_fin hfin]
  exact h.nonempty

theorem Of.mono (h : x.Of stream lo) (hle : lo ≤ hi) : x.Of stream hi :=
  ⟨h.nonempty, h.inside, h.fin, Nat.le_trans h.stop hle⟩

/-- A piece that covers one with FIN has the FIN. -/
theorem Of.absorb (h : x.Of stream hi) (hy : y.Of stream hi) (hcover : y.last ≤ x.last) :
    Of stream hi {x with fin := x.fin || y.fin} := by
  cases hfin : y.fin with
  | false =>
    rw [Bool.or_false]
    exact h
  | true =>
    rw [Bool.or_true]
    have hend : x.last = stream.length := Nat.le_antisymm h.inside (hy.fin hfin ▸ hcover)
    have hstop := hy.stop
    rw [stop_of_fin hfin, hy.fin hfin, ← hend] at hstop
    exact ⟨Nat.lt_succ_of_le pos_le_last, h.inside, fun _ => hend, hstop⟩

theorem cut_eq_self (h : x.last ≤ k) : x.cut k = x := by
  rw [last] at h
  rw [cut, Nat.min_eq_left (by omega)]

theorem last_cut (h : x.pos ≤ k) : (x.cut k).last = min x.last k := by
  simp only [cut, last]
  omega

theorem Of.cut (h : x.Of stream hi) (hfin : x.fin = false) (hk : x.pos < k) : (x.cut k).Of stream hi := by
  have hlast := last_cut (Nat.le_of_lt hk)
  have hpos := h.pos_lt_last hfin
  have hstop := h.stop
  rw [stop_of_not_fin hfin] at hstop
  have hcut : (x.cut k).fin = false := hfin
  refine ⟨?_, ?_, fun htrue => ?_, ?_⟩
  · rw [stop_of_not_fin hcut, hlast]
    exact Nat.lt_min.mpr ⟨hpos, hk⟩
  · exact hlast ▸ Nat.le_trans (Nat.min_le_left ..) h.inside
  · rw [hcut] at htrue
    cases htrue
  · rw [stop_of_not_fin hcut, hlast]
    exact Nat.le_trans (Nat.min_le_left ..) hstop

end Piece

/-! ### The queue -/

/-- The pieces begin at `lo` or later, stand in order and apart, and a FIN is the last. -/
def Queue (stream : List UInt8) (hi : Nat) (lo : Nat) : List Piece → Prop
  | [] => True
  | x :: rest => lo ≤ x.pos ∧ x.Of stream hi ∧ (x.fin = true → rest = []) ∧ Queue stream hi x.last rest

/-- The pieces that `c` covers are taken off, a FIN among them kept. -/
def cover (c : Piece) : List Piece → Piece × List Piece
  | [] => (c, [])
  | x :: rest => if x.last ≤ c.last then cover {c with fin := c.fin || x.fin} rest else (c, x :: rest)

/-- `c` in front, up to the next piece. -/
def joined (c : Piece) : List Piece → List Piece
  | [] => [c]
  | x :: rest => c.cut x.pos :: x :: rest

/-- `c` in front of pieces that start later, or the same. -/
def insert (c : Piece) (pieces : List Piece) : List Piece :=
  if c.fin then [c] else joined (cover c pieces).1 (cover c pieces).2

variable {stream : List UInt8} {base : UInt32} {lo lo' hi hi' k : Nat} {c x : Piece} {pieces : List Piece}

/-- What has others behind it has no FIN. -/
theorem not_fin (h : c.fin = true → x :: pieces = []) : c.fin = false := Bool.eq_false_iff.mpr fun hf => by cases h hf

theorem Queue.mono (h : Queue stream hi lo pieces) (hlo : lo' ≤ lo) : Queue stream hi lo' pieces := by
  cases pieces with
  | nil => trivial
  | cons x rest => exact ⟨Nat.le_trans hlo h.1, h.2⟩

theorem Queue.widen (h : Queue stream hi lo pieces) (hhi : hi ≤ hi') : Queue stream hi' lo pieces := by
  induction pieces generalizing lo with
  | nil => trivial
  | cons x rest ih =>
    obtain ⟨hpos, hof, hfin, hrest⟩ := h
    exact ⟨hpos, hof.mono hhi, hfin, ih hrest⟩

/-- The pieces after one start after it. -/
theorem Queue.tail (h : Queue stream hi lo (x :: pieces)) : Queue stream hi (x.pos + 1) pieces := by
  obtain ⟨-, hof, hfin, hrest⟩ := h
  cases hx : x.fin with
  | false => exact hrest.mono (hof.pos_lt_last hx)
  | true =>
    rw [hfin hx]
    trivial

theorem Queue.mem (h : Queue stream hi lo pieces) (hx : x ∈ pieces) : lo ≤ x.pos ∧ x.Of stream hi := by
  induction pieces generalizing lo with
  | nil => cases hx
  | cons y rest ih =>
    obtain ⟨hpos, hof, -, hrest⟩ := h
    rcases List.mem_cons.mp hx with rfl | hx
    · exact ⟨hpos, hof⟩
    · obtain ⟨hlast, hof'⟩ := ih hrest hx
      exact ⟨Nat.le_trans hpos (Nat.le_trans Piece.pos_le_last hlast), hof'⟩

/-- What is left when the covered pieces are gone. -/
structure Covered (stream : List UInt8) (hi lo : Nat) (c : Piece) (out : Piece × List Piece) : Prop where
  pos : out.1.pos = c.pos
  len : out.1.len = c.len
  of : out.1.Of stream hi
  queue : Queue stream hi lo out.2
  fin : out.1.fin = true → out.2 = []

theorem cover_covered (h : Queue stream hi lo pieces) (hc : c.Of stream hi) (hfin : c.fin = true → pieces = []) :
    Covered stream hi lo c (cover c pieces) := by
  induction pieces generalizing c with
  | nil => exact ⟨rfl, rfl, hc, h, hfin⟩
  | cons x rest ih =>
    rw [cover]
    split
    · rename_i hle
      obtain ⟨hpos, hof, hxfin, hrest⟩ := h
      have hnot : c.fin = false := not_fin hfin
      have hlo := hrest.mono (Nat.le_trans hpos Piece.pos_le_last)
      have hcov := ih hlo (hc.absorb hof hle) (fun hor => hxfin (by simpa [hnot] using hor))
      exact ⟨hcov.pos, hcov.len, hcov.of, hcov.queue, hcov.fin⟩
    · exact ⟨rfl, rfl, hc, h, hfin⟩

theorem joined_queue (h : Queue stream hi (c.pos + 1) pieces) (hc : c.Of stream hi) (hfin : c.fin = true → pieces = []) :
    Queue stream hi c.pos (joined c pieces) := by
  cases pieces with
  | nil => exact ⟨Nat.le_refl _, hc, fun _ => rfl, trivial⟩
  | cons x rest =>
    have hnot : c.fin = false := not_fin hfin
    obtain ⟨hpos, hof, hxfin, hrest⟩ := h
    have hlast : (c.cut x.pos).last ≤ x.pos := by
      rw [Piece.last_cut (by omega)]
      exact Nat.min_le_right ..
    refine ⟨Nat.le_refl _, hc.cut hnot hpos, fun htrue => ?_, hlast, hof, hxfin, hrest⟩
    have : c.fin = true := htrue
    rw [hnot] at this
    cases this

theorem Covered.joined {out : Piece × List Piece} (h : Covered stream hi (c.pos + 1) c out) :
    Queue stream hi c.pos (joined out.1 out.2) := by
  have hqueue := h.queue
  rw [← h.pos] at hqueue ⊢
  exact joined_queue hqueue h.of h.fin

theorem insert_queue (h : Queue stream hi (c.pos + 1) pieces) (hc : c.Of stream hi) :
    Queue stream hi c.pos (insert c pieces) := by
  rw [insert]
  split
  · exact ⟨Nat.le_refl _, hc, fun _ => rfl, trivial⟩
  · rename_i hnot
    exact (cover_covered h hc (fun htrue => absurd htrue hnot)).joined

/-- A longer piece takes the place of the first one. -/
theorem insert_same_queue (h : Queue stream hi lo (x :: pieces)) (hc : c.Of stream hi) (hpos : c.pos = x.pos)
    (hlen : x.len ≤ c.len) : Queue stream hi c.pos (insert c (x :: pieces)) := by
  rw [insert]
  split
  · exact ⟨Nat.le_refl _, hc, fun _ => rfl, trivial⟩
  · rename_i hnot
    have hle : x.last ≤ c.last := by
      rw [Piece.last, Piece.last]
      omega
    have htail : Queue stream hi (c.pos + 1) pieces := hpos ▸ h.tail
    have hcfin : c.fin = false := Bool.not_eq_true _ ▸ hnot
    rw [cover, if_pos hle]
    have hcov := cover_covered htail (hc.absorb h.2.1 hle) fun hor => h.2.2.1 (by simpa [hcfin] using hor)
    exact Covered.joined ⟨hcov.pos, hcov.len, hcov.of, hcov.queue, hcov.fin⟩

/-! ### The code on pieces -/

section Comparisons
variable {m n b : Nat}

theorem tcpSeqLt_serial (h : Near m n) : tcpSeqLt (serial base m) (serial base n) ↔ m < n := by
  rw [tcpSeqLt, toInt_serial_sub h]
  omega

theorem tcpSeqGt_serial (h : Near m n) : tcpSeqGt (serial base m) (serial base n) ↔ n < m := by
  rw [tcpSeqGt, toInt_serial_sub h]
  omega

theorem tcpSeqGeq_serial (h : Near m n) : tcpSeqGeq (serial base m) (serial base n) ↔ n ≤ m := by
  rw [tcpSeqGeq, toInt_serial_sub h]
  omega

theorem tcpSeqBetween_serial (h : Near m n) (h' : Near (m + 1) b) :
    tcpSeqBetween (serial base m) (serial base n) (serial base b - 1) ↔ n ≤ m ∧ m < b := by
  rw [tcpSeqBetween, tcpSeqGeq_serial h, tcpSeqLeq, toInt_serial_sub_pred h']
  omega

/-- Positions in one window are near. -/
theorem near_of_window (hwin : hi < lo + 2 ^ 16) (hm : lo ≤ m ∧ m ≤ hi + 1) (hn : lo ≤ n ∧ n ≤ hi + 1) : Near m n := by
  rw [Near]
  omega

end Comparisons

theorem toUInt32_ofNat {n : Nat} (h : n < 2 ^ 16) : (UInt16.ofNat n).toUInt32 = UInt32.ofNat n := by
  apply UInt32.toNat.inj
  rw [UInt16.toNat_toUInt32, UInt16.toNat_ofNat_of_lt' h, UInt32.toNat_ofNat_of_lt' (Nat.lt_trans h (by decide))]

namespace Piece

theorem serial_last (h : x.len < 2 ^ 16) :
    (x.toSeg stream base).seqno + (x.toSeg stream base).len.toUInt32 = serial base x.last := by
  rw [last, serial_add, ← toUInt32_ofNat h]
  rfl

theorem seqno_toSeg : (x.toSeg stream base).seqno = serial base x.pos := rfl

theorem tcpTcplen_toSeg (h : x.len < 2 ^ 16) :
    (x.toSeg stream base).tcpTcplen = UInt32.ofNat (x.len + x.fin.toNat) := by
  rw [UInt32.ofNat_add, ← toUInt32_ofNat h, TcpSeg.tcpTcplen]
  cases hfin : x.fin <;> simp [toSeg, hfin]

theorem tcplen_toSeg (h : x.len + x.fin.toNat < 2 ^ 16) :
    (x.toSeg stream base).tcplen.toUInt32 = UInt32.ofNat (x.len + x.fin.toNat) := by
  rw [TcpSeg.tcplen, tcpTcplen_toSeg (by omega)]
  apply UInt32.toNat.inj
  rw [UInt16.toNat_toUInt32, UInt32.toNat_toUInt16, UInt32.toNat_ofNat_of_lt' (Nat.lt_trans h (by decide)),
    Nat.mod_eq_of_lt h]

theorem serial_stop : serial base x.pos + UInt32.ofNat (x.len + x.fin.toNat) = serial base x.stop := by
  rw [stop, last, Nat.add_assoc, serial_add]

theorem serial_tcplen (h : x.len < 2 ^ 16) (hfin : x.fin = false) :
    serial base x.pos + (x.toSeg stream base).tcplen.toUInt32 = serial base x.last := by
  rw [tcplen_toSeg (by rw [hfin]; exact h), serial_stop, stop_of_not_fin hfin]

/-- A piece that is cut ends there. -/
theorem serial_tcplen_cut (h : x.len < 2 ^ 16) (hfin : x.fin = false) (hpos : x.pos ≤ k) (hk : k ≤ x.last) :
    serial base x.pos + ((x.cut k).toSeg stream base).tcplen.toUInt32 = serial base k := by
  have hlen : (x.cut k).len < 2 ^ 16 := Nat.lt_of_le_of_lt (Nat.min_le_left ..) h
  have hcut : (x.cut k).fin = false := hfin
  have hstop : serial base (x.cut k).pos + ((x.cut k).toSeg stream base).tcplen.toUInt32 = serial base (x.cut k).last :=
    serial_tcplen hlen hcut
  rw [last_cut hpos, Nat.min_eq_right hk] at hstop
  exact hstop

/-- The segment's length is lowered to what is before `k`. -/
theorem realloc_toSeg (h : x.len < 2 ^ 16) (hpos : x.pos ≤ k) (hk : k ≤ x.last) :
    (x.toSeg stream base).realloc (serial base k - serial base x.pos).toUInt16 = (x.cut k).toSeg stream base := by
  rw [last] at hk
  have hlen : (serial base k - serial base x.pos).toUInt16 = UInt16.ofNat (k - x.pos) := by
    apply UInt16.toNat.inj
    rw [UInt32.toNat_toUInt16, toNat_serial_sub hpos (by omega)]
    rfl
  have hmin : min x.len (k - x.pos) = k - x.pos := by omega
  have htoNat : (UInt16.ofNat (k - x.pos)).toNat = k - x.pos := UInt16.toNat_ofNat_of_lt' (by
    change k - x.pos < 2 ^ 16
    omega)
  rw [TcpSeg.realloc, hlen, htoNat]
  simp only [toSeg, cut, hmin, List.take_take, Nat.min_comm]

end Piece

/-- The pieces are in one window. -/
def Inside (lo hi : Nat) (x : Piece) : Prop := lo ≤ x.pos ∧ x.last ≤ hi

theorem Queue.inside (h : Queue stream hi lo pieces) : ∀ x ∈ pieces, Inside lo hi x :=
  fun _ hx => ⟨(h.mem hx).1, Nat.le_trans Piece.last_le_stop (h.mem hx).2.stop⟩

theorem Inside.len_lt (h : Inside lo hi x) (hwin : hi < lo + 2 ^ 16) : x.len < 2 ^ 16 := by
  have := h.2
  rw [Piece.last] at this
  have := h.1
  omega

theorem Inside.near_last (h : Inside lo hi x) (hc : Inside lo hi c) (hwin : hi < lo + 2 ^ 16) : Near c.last x.last := by
  have hx := h.1
  have hx' : x.pos ≤ x.last := Piece.pos_le_last
  have hc' : c.pos ≤ c.last := Piece.pos_le_last
  have hl := h.2
  have hl' := hc.2
  have hcl := hc.1
  exact near_of_window hwin (by omega) (by omega)

theorem freeCovered_toSeg (hwin : hi < lo + 2 ^ 16) (hc : Inside lo hi c) (hin : ∀ x ∈ pieces, Inside lo hi x) :
    freeCovered (c.toSeg stream base) (pieces.map (Piece.toSeg stream base)) =
      ((cover c pieces).1.toSeg stream base, (cover c pieces).2.map (Piece.toSeg stream base)) := by
  induction pieces generalizing c with
  | nil => rfl
  | cons x rest ih =>
    have hx := hin x (List.mem_cons_self ..)
    rw [List.map_cons, freeCovered, cover, Piece.serial_last (hc.len_lt hwin), Piece.serial_last (hx.len_lt hwin)]
    have hgeq : tcpSeqGeq (serial base c.last) (serial base x.last) ↔ x.last ≤ c.last :=
      tcpSeqGeq_serial (hx.near_last hc hwin)
    by_cases hle : x.last ≤ c.last
    · rw [if_pos (hgeq.mpr hle), if_pos hle]
      have hc' : Inside lo hi {c with fin := c.fin || x.fin} := hc
      exact ih hc' (fun y hy => hin y (List.mem_cons_of_mem _ hy))
    · rw [if_neg (fun h => hle (hgeq.mp h)), if_neg hle]
      rfl

/-- A piece that the next one may cut. -/
theorem realloc_before (hwin : hi < lo + 2 ^ 16) (hc : Inside lo hi c) (hpos : c.pos ≤ k) (hk : k ≤ hi) :
    (if tcpSeqGt ((c.toSeg stream base).seqno + (c.toSeg stream base).len.toUInt32) (serial base k) then
      (c.toSeg stream base).realloc (serial base k - (c.toSeg stream base).seqno).toUInt16
    else c.toSeg stream base) = (c.cut k).toSeg stream base := by
  have hlow := hc.1
  have hhigh := hc.2
  have hmid : c.pos ≤ c.last := Piece.pos_le_last
  have hgt : tcpSeqGt (serial base c.last) (serial base k) ↔ k < c.last :=
    tcpSeqGt_serial (near_of_window hwin (by omega) (by omega))
  rw [Piece.serial_last (hc.len_lt hwin)]
  by_cases hlt : k < c.last
  · rw [if_pos (hgt.mpr hlt)]
    exact Piece.realloc_toSeg (hc.len_lt hwin) hpos (Nat.le_of_lt hlt)
  · rw [if_neg (fun h => hlt (hgt.mp h)), Piece.cut_eq_self (by omega)]

theorem trimBefore_toSeg (hwin : hi < lo + 2 ^ 16) (hc : Inside lo hi c) (hpos : c.pos ≤ k) (hk : k ≤ hi) :
    trimBefore (c.toSeg stream base) (serial base k) = (c.cut k).toSeg stream base :=
  realloc_before hwin hc hpos hk

theorem cover_snd_sublist : (cover c pieces).2.Sublist pieces := by
  induction pieces generalizing c with
  | nil => exact .slnil
  | cons x rest ih =>
    rw [cover]
    split
    · exact ih.cons x
    · exact .refl _

theorem cover_fst : (cover c pieces).1.pos = c.pos ∧ (cover c pieces).1.last = c.last := by
  induction pieces generalizing c with
  | nil => exact ⟨rfl, rfl⟩
  | cons x rest ih =>
    rw [cover]
    split
    · exact ih
    · exact ⟨rfl, rfl⟩

theorem tcpOosInsertSegment_toSeg (hwin : hi < lo + 2 ^ 16) (hc : Inside lo hi c) (hin : ∀ x ∈ pieces, Inside lo hi x)
    (hafter : ∀ x ∈ pieces, c.pos ≤ x.pos) :
    tcpOosInsertSegment (c.toSeg stream base) (pieces.map (Piece.toSeg stream base)) =
      (insert c pieces).map (Piece.toSeg stream base) := by
  rw [tcpOosInsertSegment, insert, show (c.toSeg stream base).fin = c.fin from rfl, freeCovered_toSeg hwin hc hin]
  by_cases hfin : c.fin = true
  · rw [if_pos hfin, if_pos hfin]
    rfl
  · rw [if_neg hfin, if_neg hfin]
    obtain ⟨hpos, hlast⟩ : (cover c pieces).1.pos = c.pos ∧ (cover c pieces).1.last = c.last := cover_fst
    have hc' : Inside lo hi (cover c pieces).1 := ⟨hpos ▸ hc.1, hlast ▸ hc.2⟩
    cases hrest : (cover c pieces).2 with
    | nil => rfl
    | cons x rest =>
      have hx : x ∈ pieces := cover_snd_sublist.subset (hrest ▸ List.mem_cons_self ..)
      have hxin := hin x hx
      have hxpos : x.pos ≤ hi := Nat.le_trans Piece.pos_le_last hxin.2
      have hcut := @realloc_before stream base lo hi x.pos _ hwin hc' (hpos ▸ hafter x hx) hxpos
      simp only [List.map_cons, joined, ← hcut, Piece.seqno_toSeg]
      exact (apply_ite (· :: x.toSeg stream base :: rest.map (Piece.toSeg stream base)) _ _ _).symm

theorem dropCovered_toSeg (hwin : hi < lo + 2 ^ 16) (hc : Inside lo hi c) (hq : Queue stream hi lo pieces)
    (hfin : c.fin = true → pieces = []) :
    dropCovered (c.toSeg stream base) (pieces.map (Piece.toSeg stream base)) =
      ((cover c pieces).1.toSeg stream base, (cover c pieces).2.map (Piece.toSeg stream base)) := by
  induction pieces generalizing c with
  | nil => rfl
  | cons x rest ih =>
    have hx := hq.inside x (List.mem_cons_self ..)
    have hnot : c.fin = false := not_fin hfin
    rw [List.map_cons, dropCovered, cover, Piece.seqno_toSeg, Piece.serial_tcplen (hc.len_lt hwin) hnot,
      Piece.serial_last (hx.len_lt hwin)]
    have hgeq : tcpSeqGeq (serial base c.last) (serial base x.last) ↔ x.last ≤ c.last :=
      tcpSeqGeq_serial (hx.near_last hc hwin)
    by_cases hle : x.last ≤ c.last
    · rw [if_pos (hgeq.mpr hle), if_pos hle]
      have hc' : Inside lo hi {c with fin := c.fin || x.fin} := hc
      have hrest := hq.2.2.2.mono (Nat.le_trans hq.1 Piece.pos_le_last)
      exact ih hc' hrest (fun hor => hq.2.2.1 (by simpa [hnot] using hor))
    · rw [if_neg (fun h => hle (hgeq.mp h)), if_neg hle]
      rfl

/-- The assertion on the cut holds. -/
theorem trimNext_toSeg (hwin : hi < lo + 2 ^ 16) (hc : Inside lo hi c) (hnot : c.fin = false) (hpos : c.pos ≤ k)
    (hk : k ≤ hi) (rest : List TcpSeg) :
    (if tcpSeqGt (serial base c.pos + (c.toSeg stream base).tcplen.toUInt32) (serial base k) then
      let inseg := (c.toSeg stream base).realloc (serial base k - serial base c.pos).toUInt16
      if inseg.seqno + inseg.tcplen.toUInt32 = serial base k then some (inseg, rest) else none
    else some (c.toSeg stream base, rest)) = some ((c.cut k).toSeg stream base, rest) := by
  have hlow := hc.1
  have hhigh := hc.2
  have hmid : c.pos ≤ c.last := Piece.pos_le_last
  have hlen := hc.len_lt hwin
  have hgt : tcpSeqGt (serial base c.last) (serial base k) ↔ k < c.last :=
    tcpSeqGt_serial (near_of_window hwin (by omega) (by omega))
  rw [Piece.serial_tcplen hlen hnot]
  by_cases hlt : k < c.last
  · rw [if_pos (hgt.mpr hlt), Piece.realloc_toSeg hlen hpos (Nat.le_of_lt hlt)]
    have hassert : serial base c.pos + ((c.cut k).toSeg stream base).tcplen.toUInt32 = serial base k :=
      Piece.serial_tcplen_cut hlen hnot hpos (Nat.le_of_lt hlt)
    exact if_pos hassert
  · rw [if_neg (fun h => hlt (hgt.mp h)), Piece.cut_eq_self (by omega)]

/-- What is in sequence goes in front of what waits, and does not fail. -/
theorem trimToOoseq_toSeg (hwin : hi < lo + 2 ^ 16) (hlo : lo ≤ c.pos) (hc : c.Of stream hi)
    (hq : Queue stream hi (c.pos + 1) pieces) :
    ∃ c' rest, insert c pieces = c' :: rest ∧
      trimToOoseq (c.toSeg stream base) (pieces.map (Piece.toSeg stream base)) =
        some (c'.toSeg stream base, rest.map (Piece.toSeg stream base)) := by
  have hin : Inside lo hi c := ⟨hlo, Nat.le_trans Piece.last_le_stop hc.stop⟩
  rw [insert, trimToOoseq, show (c.toSeg stream base).fin = c.fin from rfl]
  by_cases hfin : c.fin = true
  · rw [if_pos hfin, if_pos hfin]
    exact ⟨c, [], rfl, rfl⟩
  · rw [if_neg hfin, if_neg hfin, dropCovered_toSeg hwin hin (hq.mono (by omega)) (fun h => absurd h hfin)]
    have hcov := cover_covered hq hc (fun h => absurd h hfin)
    have hsub : ∀ x ∈ (cover c pieces).2, x ∈ pieces := fun x hx => cover_snd_sublist.subset hx
    have hfst : (cover c pieces).1.pos = c.pos ∧ (cover c pieces).1.last = c.last := cover_fst
    generalize cover c pieces = out at hcov hsub hfst
    obtain ⟨c', after⟩ := out
    cases after with
    | nil => exact ⟨_, _, rfl, rfl⟩
    | cons x rest =>
      have hnot : c'.fin = false := not_fin hcov.fin
      obtain ⟨hxpos, hxof⟩ := hq.mem (hsub x (List.mem_cons_self ..))
      have hxlast : x.pos ≤ hi := Nat.le_trans Piece.pos_le_last (Nat.le_trans Piece.last_le_stop hxof.stop)
      have hin' : Inside lo hi c' := ⟨hfst.1 ▸ hin.1, hfst.2 ▸ hin.2⟩
      refine ⟨c'.cut x.pos, x :: rest, rfl, ?_⟩
      exact trimNext_toSeg hwin hin' hnot (by rw [hfst.1]; omega) hxlast _

/-! ### A segment further on -/

/-- What stands behind `prev` may be exchanged. -/
theorem Queue.behind {prev : Option Piece} (h : Queue stream hi lo (prev.toList ++ x :: pieces)) :
    ∃ k, lo ≤ k ∧ k ≤ x.pos ∧ Queue stream hi k (x :: pieces) ∧
      ∀ news, Queue stream hi k news → Queue stream hi lo (prev.toList ++ news) := by
  cases prev with
  | none => exact ⟨lo, Nat.le_refl _, h.1, h, fun _ hnews => hnews⟩
  | some p =>
    obtain ⟨hpos, hof, hfin, hrest⟩ := h
    have hnot : p.fin = false := not_fin hfin
    refine ⟨p.last, Nat.le_trans hpos Piece.pos_le_last, hrest.1, hrest, fun news hnews => ⟨hpos, hof, fun hf => ?_, hnews⟩⟩
    rw [hnot] at hf
    cases hf

/-- A piece between `prev` and those behind it. -/
theorem Queue.between {p : Piece} (h : Queue stream hi lo (p :: x :: pieces)) (hc : c.Of stream hi)
    (hp : p.pos < c.pos) (hx : c.pos < x.pos) : Queue stream hi lo (p.cut c.pos :: insert c (x :: pieces)) := by
  obtain ⟨hpos, hof, hfin, hrest⟩ := h
  have hnot : p.fin = false := not_fin hfin
  have hlast : (p.cut c.pos).last ≤ c.pos := by
    rw [Piece.last_cut (Nat.le_of_lt hp)]
    exact Nat.min_le_right ..
  have hbehind : Queue stream hi (c.pos + 1) (x :: pieces) := ⟨hx, hrest.2⟩
  refine ⟨hpos, hof.cut hnot hp, fun hf => ?_, (insert_queue hbehind hc).mono hlast⟩
  have : p.fin = true := hf
  rw [hnot] at this
  cases this

/-- A piece after the last one. -/
theorem Queue.append (h : Queue stream hi lo [x]) (hc : c.Of stream hi) (hfin : x.fin = false) (hx : x.pos < c.pos) :
    Queue stream hi lo [x.cut c.pos, c] := by
  obtain ⟨hpos, hof, -, -⟩ := h
  have hlast : (x.cut c.pos).last ≤ c.pos := by
    rw [Piece.last_cut (Nat.le_of_lt hx)]
    exact Nat.min_le_right ..
  refine ⟨hpos, hof.cut hfin hx, fun hf => ?_, hlast, hc, fun _ => rfl, trivial⟩
  have : x.fin = true := hf
  rw [hfin] at this
  cases this

theorem len_lt_toSeg (hx : x.len < 2 ^ 16) (hc : c.len < 2 ^ 16) :
    (x.toSeg stream base).len < (c.toSeg stream base).len ↔ x.len < c.len := by
  rw [UInt16.lt_iff_toNat_lt]
  change (UInt16.ofNat x.len).toNat < (UInt16.ofNat c.len).toNat ↔ _
  rw [UInt16.toNat_ofNat_of_lt' hx, UInt16.toNat_ofNat_of_lt' hc]

theorem seqno_eq_toSeg (h : Near c.pos x.pos) : (c.toSeg stream base).seqno = (x.toSeg stream base).seqno ↔ c.pos = x.pos :=
  ⟨serial_inj h, fun heq => by rw [Piece.seqno_toSeg, Piece.seqno_toSeg, heq]⟩

theorem any_between {prev : Option Piece} (hp : ∀ p ∈ prev, Near c.pos (p.pos + 1)) (hx : Near (c.pos + 1) x.pos) :
    ((prev.map (Piece.toSeg stream base)).any fun q =>
      decide (tcpSeqBetween (c.toSeg stream base).seqno (q.seqno + 1) ((x.toSeg stream base).seqno - 1))) = true ↔
      ∃ p ∈ prev, p.pos < c.pos ∧ c.pos < x.pos := by
  cases prev with
  | none => simp
  | some p =>
    have hsucc : serial base p.pos + 1 = serial base (p.pos + 1) := serial_add.symm
    have hbetween : tcpSeqBetween (serial base c.pos) (serial base (p.pos + 1)) (serial base x.pos - 1) ↔
        p.pos + 1 ≤ c.pos ∧ c.pos < x.pos := tcpSeqBetween_serial (hp p rfl) hx
    simp only [Option.map_some, Option.any_some, decide_eq_true_eq, Piece.seqno_toSeg, hsucc, hbetween,
      Option.mem_some_iff, exists_eq_left', Nat.succ_le_iff]

section Walk
variable {pcb : TcpPcb} {tcplen : UInt16} {prev : Option Piece} {rest : List Piece}

theorem toList_map_toSeg : (prev.map (Piece.toSeg stream base)).toList = prev.toList.map (Piece.toSeg stream base) := by
  cases prev <;> rfl

theorem Queue.from_head (h : Queue stream hi lo (x :: rest)) : ∀ y ∈ x :: rest, x.pos ≤ y.pos := fun _ hy =>
  (Queue.mem (show Queue stream hi x.pos (x :: rest) from ⟨Nat.le_refl _, h.2⟩) hy).1

theorem Inside.near_start (h : Inside lo hi x) (hc : Inside lo hi c) (hwin : hi < lo + 2 ^ 16) : Near c.pos x.pos := by
  have hx : x.pos ≤ x.last := Piece.pos_le_last
  have hc' : c.pos ≤ c.last := Piece.pos_le_last
  have hl := h.2
  have hcl := hc.2
  exact near_of_window hwin ⟨hc.1, by omega⟩ ⟨h.1, by omega⟩

/-- A piece that starts where one in the queue does: the longer of them stays. -/
theorem queueLoop_same (mem : Bool) (hwin : hi < lo + 2 ^ 16) (hc : c.Of stream hi) (hcin : Inside lo hi c) (hlo' : lo ≤ lo')
    (hq : Queue stream hi lo' (prev.toList ++ x :: rest)) (hsame : c.pos = x.pos) :
    ∃ queue, pcb.queueLoop (c.toSeg stream base) tcplen mem (prev.map (Piece.toSeg stream base))
        ((x :: rest).map (Piece.toSeg stream base)) = some (queue.map (Piece.toSeg stream base)) ∧
      Queue stream hi lo' queue := by
  obtain ⟨k, hlok, hkx, hbehind, hexchange⟩ := hq.behind
  have hin : ∀ y ∈ x :: rest, Inside lo hi y := (hbehind.mono (Nat.le_trans hlo' hlok)).inside
  have hxin := hin x (List.mem_cons_self ..)
  have hlonger : (x.toSeg stream base).len < (c.toSeg stream base).len ↔ x.len < c.len :=
    len_lt_toSeg (hxin.len_lt hwin) (hcin.len_lt hwin)
  rw [List.map_cons, TcpPcb.queueLoop, if_pos ((seqno_eq_toSeg (hxin.near_start hcin hwin)).mpr hsame)]
  by_cases hreplace : x.len < c.len ∧ mem = true
  · rw [if_pos ⟨hlonger.mpr hreplace.1, hreplace.2⟩, ← List.map_cons,
      tcpOosInsertSegment_toSeg hwin hcin hin (fun y hy => hsame ▸ hbehind.from_head y hy), toList_map_toSeg, ← List.map_append]
    refine ⟨_, rfl, hexchange _ ?_⟩
    exact (insert_same_queue hbehind hc hsame (Nat.le_of_lt hreplace.1)).mono (hsame ▸ hkx)
  · rw [if_neg (fun h => hreplace ⟨hlonger.mp h.1, h.2⟩), ← List.map_cons, toList_map_toSeg, ← List.map_append]
    exact ⟨_, rfl, hq⟩

/-- Where the walk compares with the segment before and the one behind. -/
theorem between_toSeg (hwin : hi < lo + 2 ^ 16) (hcin : Inside lo hi c) (hlo' : lo ≤ lo') (hprev : ∀ p ∈ prev, p.pos < c.pos)
    (hq : Queue stream hi lo' (prev.toList ++ x :: rest)) :
    ((prev.map (Piece.toSeg stream base)).any fun q =>
      decide (tcpSeqBetween (c.toSeg stream base).seqno (q.seqno + 1) ((x.toSeg stream base).seqno - 1))) = true ↔
      ∃ p ∈ prev, p.pos < c.pos ∧ c.pos < x.pos := by
  have hclast : c.pos ≤ c.last := Piece.pos_le_last
  have hxlast : x.pos ≤ x.last := Piece.pos_le_last
  obtain ⟨k, hlok, -, hbehind, -⟩ := hq.behind
  have hxin := (hbehind.mono (Nat.le_trans hlo' hlok)).inside x (List.mem_cons_self ..)
  have hchi := hcin.2
  have hxhi := hxin.2
  refine any_between (fun p hp => ?_) (near_of_window hwin ⟨by have := hcin.1; omega, by omega⟩ ⟨hxin.1, by omega⟩)
  have hpc := hprev p hp
  have hpin := hq.mem (List.mem_append_left _ (Option.mem_toList.mpr hp))
  exact near_of_window hwin ⟨hcin.1, by omega⟩ ⟨by omega, by omega⟩

/-- A piece that starts before one in the queue, and after all before that. -/
theorem queueLoop_before (mem : Bool) (hwin : hi < lo + 2 ^ 16) (hc : c.Of stream hi) (hcin : Inside lo hi c) (hlo' : lo ≤ lo')
    (hlo : lo' ≤ c.pos) (hprev : ∀ p ∈ prev, p.pos < c.pos) (hq : Queue stream hi lo' (prev.toList ++ x :: rest))
    (hfront : c.pos < x.pos) :
    ∃ queue, pcb.queueLoop (c.toSeg stream base) tcplen mem (prev.map (Piece.toSeg stream base))
        ((x :: rest).map (Piece.toSeg stream base)) = some (queue.map (Piece.toSeg stream base)) ∧
      Queue stream hi lo' queue := by
  obtain ⟨k, hlok, hkx, hbehind, hexchange⟩ := hq.behind
  have hin : ∀ y ∈ x :: rest, Inside lo hi y := (hbehind.mono (Nat.le_trans hlo' hlok)).inside
  have hnear := (hin x (List.mem_cons_self ..)).near_start hcin hwin
  have hlt : tcpSeqLt (serial base c.pos) (serial base x.pos) ↔ c.pos < x.pos := tcpSeqLt_serial hnear
  have hbetween := @between_toSeg stream base _ _ _ _ _ _ _ hwin hcin hlo' hprev hq
  have hins : tcpOosInsertSegment (c.toSeg stream base) ((x :: rest).map (Piece.toSeg stream base)) =
      (insert c (x :: rest)).map (Piece.toSeg stream base) := tcpOosInsertSegment_toSeg hwin hcin hin
    (fun y hy => Nat.le_trans (Nat.le_of_lt hfront) (hbehind.from_head y hy))
  rw [List.map_cons, TcpPcb.queueLoop, if_neg (fun h => absurd ((seqno_eq_toSeg hnear).mp h) (Nat.ne_of_lt hfront))]
  cases prev with
  | none =>
    rw [if_pos ⟨rfl, hlt.mpr hfront⟩, ← List.map_cons, hins]
    cases mem with
    | true =>
      have hbehind' : Queue stream hi (c.pos + 1) (x :: rest) := ⟨hfront, hbehind.2⟩
      exact ⟨_, rfl, (insert_queue hbehind' hc).mono hlo⟩
    | false => exact ⟨_, rfl, hq⟩
  | some p =>
    have hp := hprev p rfl
    have hpin := hq.mem (List.mem_cons_self ..)
    rw [if_neg (fun h => by cases h.1), if_pos (hbetween.mpr ⟨p, rfl, hp, hfront⟩)]
    cases mem with
    | true =>
      have hclast : c.pos ≤ c.last := Piece.pos_le_last
      have htrim : trimBefore (p.toSeg stream base) (serial base c.pos) = (p.cut c.pos).toSeg stream base :=
        trimBefore_toSeg hwin ⟨Nat.le_trans hlo' hpin.1, Nat.le_trans Piece.last_le_stop hpin.2.stop⟩ (Nat.le_of_lt hp)
          (Nat.le_trans hclast hcin.2)
      refine ⟨p.cut c.pos :: insert c (x :: rest), ?_, hq.between hc hp hfront⟩
      rw [if_pos rfl, ← List.map_cons, hins, List.map_cons, ← htrim]
      rfl
    | false => exact ⟨_, rfl, hq⟩

/-- A piece that starts after the last one, within the window. -/
theorem queueLoop_last (mem : Bool) (hwin : hi < lo + 2 ^ 16) (hc : c.Of stream hi) (hcin : Inside lo hi c) (hlo' : lo ≤ lo')
    (hfit : ¬ tcpSeqGt (tcplen.toUInt32 + (c.toSeg stream base).seqno) (pcb.rcvNxt + pcb.rcvWnd.toUInt32))
    (hprev : ∀ p ∈ prev, p.pos < c.pos) (hq : Queue stream hi lo' (prev.toList ++ [x])) (hafter : x.pos < c.pos) :
    ∃ queue, pcb.queueLoop (c.toSeg stream base) tcplen mem (prev.map (Piece.toSeg stream base))
        [x.toSeg stream base] = some (queue.map (Piece.toSeg stream base)) ∧ Queue stream hi lo' queue := by
  obtain ⟨k, hlok, hkx, hbehind, hexchange⟩ := hq.behind
  have hxin := (hbehind.mono (Nat.le_trans hlo' hlok)).inside x (List.mem_cons_self ..)
  have hnear := hxin.near_start hcin hwin
  have hlt : tcpSeqLt (serial base c.pos) (serial base x.pos) ↔ c.pos < x.pos := tcpSeqLt_serial hnear
  have hgt : tcpSeqGt (serial base c.pos) (serial base x.pos) ↔ x.pos < c.pos := tcpSeqGt_serial hnear
  have hbetween := @between_toSeg stream base _ _ _ _ _ _ _ hwin hcin hlo' hprev hq
  rw [TcpPcb.queueLoop, if_neg (fun h => absurd ((seqno_eq_toSeg hnear).mp h) (Nat.ne_of_gt hafter)),
    if_neg (fun h => absurd (hlt.mp h.2) (by omega)), if_neg (fun h => by obtain ⟨_, _, _, h⟩ := hbetween.mp h; omega),
    if_pos ⟨rfl, hgt.mpr hafter⟩]
  by_cases hstop : (x.toSeg stream base).fin = true ∨ ¬ mem = true
  · rw [if_pos hstop]
    refine ⟨prev.toList ++ [x], ?_, hq⟩
    rw [toList_map_toSeg, List.map_append]
    rfl
  · obtain ⟨hfin, -⟩ := not_or.mp hstop
    have hclast : c.pos ≤ c.last := Piece.pos_le_last
    have happend := hbehind.append hc (Bool.eq_false_iff.mpr hfin) hafter
    have htrim : trimBefore (x.toSeg stream base) (serial base c.pos) = (x.cut c.pos).toSeg stream base :=
      trimBefore_toSeg hwin hxin (Nat.le_of_lt hafter) (Nat.le_trans hclast hcin.2)
    rw [if_neg hstop, TcpPcb.appendSegment, if_neg hfit]
    refine ⟨prev.toList ++ [x.cut c.pos, c], ?_, hexchange _ happend⟩
    rw [toList_map_toSeg, List.map_append, List.map_cons, ← htrim]
    rfl

/-- **Queueing keeps the order**: the walk ends, with the pieces apart again. -/
theorem queueLoop_toSeg (mem : Bool) (hwin : hi < lo + 2 ^ 16) (hc : c.Of stream hi)
    (hfit : ¬ tcpSeqGt (tcplen.toUInt32 + (c.toSeg stream base).seqno) (pcb.rcvNxt + pcb.rcvWnd.toUInt32))
    (hlo' : lo ≤ lo') (hlo : lo' ≤ c.pos) (hprev : ∀ p ∈ prev, p.pos < c.pos)
    (hq : Queue stream hi lo' (prev.toList ++ pieces)) :
    ∃ queue, pcb.queueLoop (c.toSeg stream base) tcplen mem (prev.map (Piece.toSeg stream base))
        (pieces.map (Piece.toSeg stream base)) = some (queue.map (Piece.toSeg stream base)) ∧
      Queue stream hi lo' queue := by
  have hcin : Inside lo hi c := ⟨Nat.le_trans hlo' hlo, Nat.le_trans Piece.last_le_stop hc.stop⟩
  induction pieces generalizing prev lo' with
  | nil =>
    rw [List.append_nil] at hq
    refine ⟨prev.toList, ?_, hq⟩
    cases prev <;> rfl
  | cons x rest ih =>
    rcases Nat.lt_trichotomy c.pos x.pos with hfront | hsame | hafter
    · exact queueLoop_before mem hwin hc hcin hlo' hlo hprev hq hfront
    · exact queueLoop_same mem hwin hc hcin hlo' hq hsame
    · cases rest with
      | nil => exact queueLoop_last mem hwin hc hcin hlo' hfit hprev hq hafter
      | cons y ys =>
        -- the walk goes on behind `x`
        obtain ⟨k, hlok, hkx, hbehind, hexchange⟩ := hq.behind
        have hxin := (hbehind.mono (Nat.le_trans hlo' hlok)).inside x (List.mem_cons_self ..)
        have hnear := hxin.near_start hcin hwin
        have hlt : tcpSeqLt (serial base c.pos) (serial base x.pos) ↔ c.pos < x.pos := tcpSeqLt_serial hnear
        have hbetween := @between_toSeg stream base _ _ _ _ _ _ _ hwin hcin hlo' hprev hq
        have hprev' : ∀ p ∈ some x, p.pos < c.pos := fun p hp => Option.some.inj hp ▸ hafter
        obtain ⟨queue, heq, hqueue⟩ := ih (Nat.le_trans hlo' hlok) (Nat.le_trans hkx (Nat.le_of_lt hafter)) hprev' hbehind
        rw [List.map_cons, TcpPcb.queueLoop, if_neg (fun h => absurd ((seqno_eq_toSeg hnear).mp h) (Nat.ne_of_gt hafter)),
          if_neg (fun h => absurd (hlt.mp h.2) (by omega)), if_neg (fun h => by obtain ⟨_, _, _, h⟩ := hbetween.mp h; omega),
          List.map_cons, if_neg (fun h => by cases h.1), ← List.map_cons,
          show some (x.toSeg stream base) = (some x).map (Piece.toSeg stream base) from rfl, heq]
        refine ⟨prev.toList ++ queue, ?_, hexchange _ hqueue⟩
        rw [toList_map_toSeg, List.map_append]
        rfl

end Walk

end TwilightLine.TcpIn
