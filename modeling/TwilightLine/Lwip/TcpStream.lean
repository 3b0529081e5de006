import TwilightLine.Lwip.TcpReceive

/-! A connection and the stream of its peer.

The peer sends pieces of one stream, over and over and in any order, within the window it
was told; the network may lose them, and so may the queue. The application reads what it is
given, at any moments. Each event keeps the invariant `Inv`: what was delivered is the beginning of the
stream, the queue holds pieces of the rest, and what is off the window is not yet read. -/
namespace TwilightLine.TcpIn
open Run Serial

/-! ### The machine -/

/-- A connection with what the application was given and has read. `told` is how far the
peer was told that it may send. -/
structure Conn where
  pcb : TcpPcb
  delivered : List UInt8
  closed : Bool
  recved : Nat
  told : Nat
  deriving DecidableEq, Repr

/-- As `tcp_listen_input` sets it up, after a SYN whose next number is `base`. -/
def init (base : UInt32) (mss : UInt16) : Conn :=
  { pcb := ⟨.established, base, tcpWnd, tcpWnd, base, mss, []⟩
    delivered := []
    closed := false
    recved := 0
    told := 0 }

/-- The position that is expected next. -/
def Conn.nxt (c : Conn) : Nat := c.delivered.length + c.closed.toNat

inductive Event
  /-- A segment with the piece arrives; the application reads `reads` in its callback. -/
  | segment (x : Piece) (mem : Bool) (reads : List UInt16)
  | recved (len : UInt16)
  | output
  /-- What waits is given up, by the timer or for want of memory. -/
  | freeOoseq
  deriving DecidableEq, Repr

/-- What the application reads of `data` while it is given it. -/
def readOf (data : List UInt8) (reads : List UInt16) : Nat := if data = [] then 0 else (reads.map UInt16.toNat).sum

section Machine
variable (stream : List UInt8) (base : UInt32)

def step (c : Conn) : Event → Option Conn
  | .segment x mem reads => do
    let (pcb, data, fin) ← c.pcb.tcpInput (x.toSeg stream base) mem reads
    some {c with
      pcb := pcb
      delivered := c.delivered ++ data
      closed := c.closed || fin
      recved := c.recved + readOf data reads}
  | .recved len => do
    let pcb ← c.pcb.tcpRecved len
    some {c with pcb := pcb, recved := c.recved + len.toNat}
  | .output => some {c with pcb := c.pcb.output, told := c.nxt + c.pcb.rcvAnnWnd.toNat}
  | .freeOoseq => some {c with pcb := c.pcb.tcpFreeOoseq}

/-- What a segment would deliver. -/
def Conn.gain (c : Conn) (x : Piece) (mem : Bool) : List UInt8 :=
  ((c.pcb.tcpInput (x.toSeg stream base) mem []).map fun result => result.2.1).getD []

/-- The peer keeps to the stream and to the window, and no segment is so old that its numbers
have come round; the application reads what it has, and never nothing. -/
def Admissible (c : Conn) : Event → Prop
  | .segment x mem reads =>
    Sent stream c.nxt c.told x ∧ (∀ len ∈ reads, 0 < len.toNat) ∧
      c.recved + readOf (c.gain stream base x mem) reads ≤ c.delivered.length + (c.gain stream base x mem).length
  | .recved len => 0 < len.toNat ∧ c.recved + len.toNat ≤ c.delivered.length
  | .output | .freeOoseq => True

end Machine

instance (stream : List UInt8) (nxt told : Nat) (x : Piece) : Decidable (Sent stream nxt told x) :=
  decidable_of_iff (x.last ≤ stream.length ∧ (x.fin = true → x.last = stream.length) ∧ x.stop ≤ told ∧
    nxt < x.pos + 2 ^ 31 ∧ x.len ≤ 65515)
    ⟨fun ⟨h₁, h₂, h₃, h₄, h₅⟩ => ⟨h₁, h₂, h₃, h₄, h₅⟩, fun ⟨h₁, h₂, h₃, h₄, h₅⟩ => ⟨h₁, h₂, h₃, h₄, h₅⟩⟩

instance (stream : List UInt8) (base : UInt32) (c : Conn) : (e : Event) → Decidable (Admissible stream base c e)
  | .segment x mem reads =>
    have : Decidable (∀ len ∈ reads, 0 < len.toNat) := List.decidableBAll _ reads
    inferInstanceAs (Decidable (Sent stream c.nxt c.told x ∧ (∀ len ∈ reads, 0 < len.toNat) ∧
      c.recved + readOf (c.gain stream base x mem) reads ≤ c.delivered.length + (c.gain stream base x mem).length))
  | .recved len => inferInstanceAs (Decidable (0 < len.toNat ∧ c.recved + len.toNat ≤ c.delivered.length))
  | .output | .freeOoseq => inferInstanceAs (Decidable True)

/-! ### The invariant -/

variable {stream : List UInt8} {base : UInt32} {c c' : Conn}

structure Inv (stream : List UInt8) (base : UInt32) (c : Conn) : Prop where
  window : Window base c.nxt c.told (c.delivered.length - c.recved) c.pcb
  recved_le : c.recved ≤ c.delivered.length
  delivered : c.delivered = stream.take c.delivered.length
  closed : c.closed = true → c.delivered.length = stream.length
  queue : ∃ queue, c.pcb.ooseq = queue.map (Piece.toSeg stream base) ∧ Queue stream c.told (c.nxt + 1) queue
  state : c.pcb.state = .established ↔ c.closed = false

theorem inv_init (mss : UInt16) : Inv stream base (init base mss) where
  window := ⟨(serial_zero).symm, rfl, (serial_zero).symm, Nat.le_refl _, Nat.zero_le _, Nat.le_refl _⟩
  recved_le := Nat.le_refl _
  delivered := rfl
  closed := fun h => by cases h
  queue := ⟨[], rfl, trivial⟩
  state := ⟨fun _ => rfl, fun _ => rfl⟩

theorem Inv.delivered_le (h : Inv stream base c) : c.delivered.length ≤ stream.length := by
  rw [h.delivered, List.length_take]
  exact Nat.min_le_right ..

theorem Inv.output (h : Inv stream base c) :
    ∃ c', step stream base c .output = some c' ∧ Inv stream base c' ∧ c.told ≤ c'.told := by
  have hw := h.window
  obtain ⟨queue, hooseq, hqueue⟩ := h.queue
  have hedge : c.pcb.output.rcvAnnRightEdge = serial base (c.nxt + c.pcb.rcvAnnWnd.toNat) := by
    change c.pcb.rcvNxt + c.pcb.rcvAnnWnd.toUInt32 = _
    rw [hw.rcvNxt, toUInt32_eq_ofNat, serial_add]
  refine ⟨_, rfl, ⟨?_, h.recved_le, h.delivered, h.closed, ⟨queue, hooseq, hqueue.widen hw.told_le⟩, h.state⟩, hw.told_le⟩
  exact ⟨hw.rcvNxt, hw.rcvWnd, hedge, Nat.le_add_right .., Nat.le_refl _, hw.ann_le⟩

theorem Inv.freeOoseq (h : Inv stream base c) :
    ∃ c', step stream base c .freeOoseq = some c' ∧ Inv stream base c' ∧ c.told ≤ c'.told := by
  have hw := h.window
  refine ⟨_, rfl, ⟨?_, h.recved_le, h.delivered, h.closed, ⟨[], rfl, trivial⟩, h.state⟩, Nat.le_refl _⟩
  exact ⟨hw.rcvNxt, hw.rcvWnd, hw.edge, hw.nxt_le, hw.told_le, hw.ann_le⟩

theorem Inv.recved (h : Inv stream base c) {len : UInt16} (hpos : 0 < len.toNat)
    (hle : c.recved + len.toNat ≤ c.delivered.length) :
    ∃ c', step stream base c (.recved len) = some c' ∧ Inv stream base c' ∧ c.told ≤ c'.told := by
  obtain ⟨queue, hooseq, hqueue⟩ := h.queue
  obtain ⟨pcb', heq, hw', hstate', hooseq'⟩ := h.window.recved hpos (by omega)
  refine ⟨{c with pcb := pcb', recved := c.recved + len.toNat}, ?_, ⟨?_, hle, h.delivered, h.closed, ?_, ?_⟩, Nat.le_refl _⟩
  · rw [step, heq]
    rfl
  · rw [Nat.sub_sub] at hw'
    exact hw'
  · exact ⟨queue, hooseq'.trans hooseq, hqueue⟩
  · rw [hstate']
    exact h.state

/-! ### A segment in the machine -/

theorem Window.of_state {nxt told out : Nat} {pcb : TcpPcb} (h : Window base nxt told out pcb) (state : TcpState) :
    Window base nxt told out {pcb with state := state} :=
  ⟨h.rcvNxt, h.rcvWnd, h.edge, h.nxt_le, h.told_le, h.ann_le⟩

/-- The reads of one callback. -/
theorem Window.reads {nxt told out : Nat} {pcb : TcpPcb} (h : Window base nxt told out pcb) {reads : List UInt16}
    (hpos : ∀ len ∈ reads, 0 < len.toNat) (hsum : (reads.map UInt16.toNat).sum ≤ out) :
    ∃ pcb', reads.foldlM TcpPcb.tcpRecved pcb = some pcb' ∧
      Window base nxt told (out - (reads.map UInt16.toNat).sum) pcb' ∧ pcb'.state = pcb.state ∧ pcb'.ooseq = pcb.ooseq := by
  induction reads generalizing pcb out with
  | nil => exact ⟨pcb, rfl, h, rfl, rfl⟩
  | cons len rest ih =>
    rw [List.map_cons, List.sum_cons] at hsum
    obtain ⟨pcb₁, heq₁, hw₁, hstate₁, hooseq₁⟩ := h.recved (hpos len (List.mem_cons_self ..)) (by omega)
    obtain ⟨pcb', heq, hw', hstate, hooseq⟩ := ih hw₁ (fun l hl => hpos l (List.mem_cons_of_mem _ hl)) (by omega)
    refine ⟨pcb', ?_, ?_, hstate.trans hstate₁, hooseq.trans hooseq₁⟩
    · rw [List.foldlM_cons, heq₁]
      exact heq
    · rw [List.map_cons, List.sum_cons, ← Nat.sub_sub]
      exact hw'

/-- The FIN's number is given back. -/
theorem Window.fin {nxt told out : Nat} {pcb : TcpPcb} (h : Window base nxt told (out + 1) pcb) :
    Window base nxt told out pcb.tcpEventClosed := by
  have hwnd := h.rcvWnd
  have hann := h.ann_le
  have hsucc : (pcb.rcvWnd + 1).toNat = pcb.rcvWnd.toNat + 1 := by
    rw [UInt16.toNat_add]
    change (pcb.rcvWnd.toNat + 1) % 65536 = _
    omega
  have hless : pcb.rcvWnd ≠ tcpWnd := fun heq => by
    rw [heq] at hwnd
    change 5840 + (out + 1) = 5840 at hwnd
    omega
  rw [TcpPcb.tcpEventClosed, if_pos hless]
  refine ⟨h.rcvNxt, ?_, h.edge, h.nxt_le, h.told_le, ?_⟩
  · simp only [hsucc]
    omega
  · simp only [hsucc]
    omega

theorem tcpEventClosed_ooseq (pcb : TcpPcb) : pcb.tcpEventClosed.ooseq = pcb.ooseq ∧ pcb.tcpEventClosed.state = pcb.state := by
  rw [TcpPcb.tcpEventClosed]
  split <;> exact ⟨rfl, rfl⟩

variable {x : Piece} {mem : Bool} {reads : List UInt16}

theorem tcplen_segment (hlen : x.len ≤ 65515) :
    (if (x.toSeg stream base).fin = true then (x.toSeg stream base).len + 1 else (x.toSeg stream base).len).toNat =
      x.len + x.fin.toNat ∧
    ¬ (if (x.toSeg stream base).fin = true then (x.toSeg stream base).len + 1 else (x.toSeg stream base).len) <
      (x.toSeg stream base).len := by
  have h16 : (x.toSeg stream base).len.toNat = x.len := UInt16.toNat_ofNat_of_lt' (by change x.len < 2 ^ 16; omega)
  rw [UInt16.lt_iff_toNat_lt, h16, show (x.toSeg stream base).fin = x.fin from rfl]
  cases x.fin with
  | false =>
    simp only [Bool.false_eq_true, if_false, h16, Bool.toNat_false]
    omega
  | true =>
    have hsucc : ((x.toSeg stream base).len + 1).toNat = x.len + 1 := by
      rw [UInt16.toNat_add, h16]
      change (x.len + 1) % 65536 = _
      omega
    rw [if_pos rfl, hsucc]
    exact ⟨rfl, by omega⟩

/-- After the FIN a segment changes nothing. -/
theorem tcpInput_closeWait {pcb : TcpPcb} (hstate : pcb.state = .closeWait) (hlen : x.len ≤ 65515) :
    pcb.tcpInput (x.toSeg stream base) mem reads = some (pcb, [], false) := by
  rw [TcpPcb.tcpInput]
  simp only [(tcplen_segment hlen).2, if_false]
  rw [TcpPcb.tcpProcess, TcpPcb.tcpReceive, if_neg (by rw [hstate]; exact fun h => by cases h.2)]
  rfl

/-- Octets taken behind those delivered. -/
theorem Taken.delivered {nxt nxt' : Nat} {delivered data : List UInt8} {fin : Bool} (h : Taken stream nxt nxt' data fin)
    (hlen : delivered.length = nxt) (hbefore : delivered = stream.take delivered.length) :
    delivered ++ data = stream.take (delivered ++ data).length ∧ (delivered ++ data).length + fin.toNat = nxt' ∧
      (fin = true → (delivered ++ data).length = stream.length) := by
  have hstart := h.le
  have hend := h.end_le
  have hdata : data.length = min (nxt' - nxt) (stream.length - nxt) := by
    rw [h.data, List.length_take, List.length_drop]
  have hjoin : delivered ++ data = stream.take nxt' := by
    rw [hbefore, hlen, h.data, ← List.take_add, Nat.add_sub_cancel' hstart]
  have htotal : (delivered ++ data).length = min nxt' stream.length := by rw [hjoin, List.length_take]
  refine ⟨?_, ?_, fun hfin => ?_⟩
  · rw [htotal, hjoin]
    cases Nat.le_total nxt' stream.length with
    | inl hle' => rw [Nat.min_eq_left hle']
    | inr hge => rw [Nat.min_eq_right hge, List.take_of_length_le hge, List.take_length]
  · rw [htotal]
    cases hfin : fin with
    | false =>
      have hnot : nxt' ≠ stream.length + 1 := fun heq => by
        have := h.fin.mpr heq
        rw [hfin] at this
        cases this
      simp only [Bool.toNat_false]
      omega
    | true =>
      have heq := h.fin.mp hfin
      simp only [Bool.toNat_true]
      omega
  · have heq := h.fin.mp hfin
    omega

/-- The connection after the segment and the application's reads. -/
theorem tcpInput_of_process {pcb pcb₁ pcb' : TcpPcb} {data : List UInt8} {fin : Bool} (hlen : x.len ≤ 65515)
    (hprocess : pcb.tcpProcess (x.toSeg stream base)
      (if (x.toSeg stream base).fin = true then (x.toSeg stream base).len + 1 else (x.toSeg stream base).len) mem =
        some (pcb₁, data, fin)) (hreads : pcb₁.tcpEventRecv data reads = some pcb') :
    pcb.tcpInput (x.toSeg stream base) mem reads = some (if fin = true then pcb'.tcpEventClosed else pcb', data, fin) := by
  rw [TcpPcb.tcpInput]
  simp only [(tcplen_segment hlen).2, if_false, hprocess, Option.bind_eq_bind, Option.bind_some, hreads]

theorem Window.eventRecv {nxt told out : Nat} {pcb : TcpPcb} {data : List UInt8} (h : Window base nxt told out pcb)
    (hpos : ∀ len ∈ reads, 0 < len.toNat) (hsum : readOf data reads ≤ out) :
    ∃ pcb', pcb.tcpEventRecv data reads = some pcb' ∧ Window base nxt told (out - readOf data reads) pcb' ∧
      pcb'.state = pcb.state ∧ pcb'.ooseq = pcb.ooseq := by
  rw [TcpPcb.tcpEventRecv, readOf] at *
  split
  · exact ⟨pcb, rfl, h, rfl, rfl⟩
  · rename_i hdata
    rw [if_neg hdata] at hsum
    exact h.reads hpos hsum

theorem Inv.nxt_of_open (h : Inv stream base c) (hopen : c.closed = false) :
    c.nxt = c.delivered.length ∧ c.nxt ≤ stream.length := by
  have hnxt : c.nxt = c.delivered.length := by rw [Conn.nxt, hopen]; rfl
  exact ⟨hnxt, hnxt ▸ h.delivered_le⟩

/-- An open connection before the application is called. -/
theorem Inv.process (h : Inv stream base c) (hopen : c.closed = false) (hsent : Sent stream c.nxt c.told x) (mem : Bool) :
    ∃ nxt' pcb' data fin queue, c.pcb.tcpProcess (x.toSeg stream base)
        (if (x.toSeg stream base).fin = true then (x.toSeg stream base).len + 1 else (x.toSeg stream base).len) mem =
          some (pcb', data, fin) ∧
      Window base nxt' c.told (c.delivered.length - c.recved + (nxt' - c.nxt)) pcb' ∧
      (pcb'.state = .established ↔ fin = false) ∧ pcb'.ooseq = queue.map (Piece.toSeg stream base) ∧
      Queue stream c.told (nxt' + 1) queue ∧ Taken stream c.nxt nxt' data fin ∧ (x.pos ≤ c.nxt → x.stop ≤ nxt') := by
  obtain ⟨waiting, hooseq, hwaiting⟩ := h.queue
  obtain ⟨htcplen, -⟩ := @tcplen_segment stream base x hsent.len
  obtain ⟨nxt', ⟨pcb', data, fin⟩, queue, hreceive, hreceived, hprogress⟩ :=
    tcpReceive_toSeg mem h.window hooseq hwaiting (h.state.mpr hopen) (h.nxt_of_open hopen).2 hsent htcplen
  refine ⟨nxt', if fin = true then {pcb' with state := .closeWait} else pcb', data, fin, queue, ?_, ?_, ?_, ?_,
    hreceived.queue, hreceived.taken, hprogress⟩
  · rw [TcpPcb.tcpProcess, hreceive]
    rfl
  · split
    · exact hreceived.window.of_state _
    · exact hreceived.window
  · cases hfin : fin with
    | false => exact ⟨fun _ => rfl, fun _ => hreceived.state hfin⟩
    | true => simp
  · split
    · exact hreceived.ooseq
    · exact hreceived.ooseq

theorem tcpEventClosed_if {pcb : TcpPcb} {fin : Bool} :
    (if fin = true then pcb.tcpEventClosed else pcb).ooseq = pcb.ooseq ∧
      (if fin = true then pcb.tcpEventClosed else pcb).state = pcb.state := by
  split
  · exact tcpEventClosed_ooseq pcb
  · exact ⟨rfl, rfl⟩

/-- The invariant after the application was given `data` and the FIN, and has read. -/
theorem Inv.given {nxt' : Nat} {pcb' : TcpPcb} {data : List UInt8} {fin : Bool} {queue : List Piece}
    (h : Inv stream base c) (hopen : c.closed = false)
    (hw : Window base nxt' c.told (c.delivered.length - c.recved + (nxt' - c.nxt) - readOf data reads) pcb')
    (hstate : pcb'.state = .established ↔ fin = false) (hooseq : pcb'.ooseq = queue.map (Piece.toSeg stream base))
    (hqueue : Queue stream c.told (nxt' + 1) queue) (htaken : Taken stream c.nxt nxt' data fin)
    (hread : c.recved + readOf data reads ≤ (c.delivered ++ data).length) :
    Inv stream base {c with
      pcb := if fin = true then pcb'.tcpEventClosed else pcb'
      delivered := c.delivered ++ data
      closed := c.closed || fin
      recved := c.recved + readOf data reads} ∧ (c.delivered ++ data).length + (c.closed || fin).toNat = nxt' := by
  obtain ⟨hnxt, -⟩ := h.nxt_of_open hopen
  obtain ⟨hdelivered, hlength, hend⟩ := htaken.delivered hnxt.symm h.delivered
  have hstart := htaken.le
  have hrecved := h.recved_le
  rw [hopen, Bool.false_or]
  refine ⟨⟨?_, hread, hdelivered, hend, ⟨queue, tcpEventClosed_if.1.trans hooseq, ?_⟩, ?_⟩, hlength⟩
  · change Window base ((c.delivered ++ data).length + fin.toNat) c.told
      ((c.delivered ++ data).length - (c.recved + readOf data reads)) (if fin = true then pcb'.tcpEventClosed else pcb')
    rw [hlength]
    cases hfin : fin with
    | false =>
      rw [hfin, Bool.toNat_false] at hlength
      rw [if_neg Bool.false_ne_true]
      have hout : (c.delivered ++ data).length - (c.recved + readOf data reads) =
          c.delivered.length - c.recved + (nxt' - c.nxt) - readOf data reads := by omega
      rw [hout]
      exact hw
    | true =>
      -- the number of the FIN is not off the window for long
      rw [hfin, Bool.toNat_true] at hlength
      rw [if_pos rfl]
      have hout : c.delivered.length - c.recved + (nxt' - c.nxt) - readOf data reads =
          (c.delivered ++ data).length - (c.recved + readOf data reads) + 1 := by omega
      rw [hout] at hw
      exact hw.fin
  · change Queue stream c.told ((c.delivered ++ data).length + fin.toNat + 1) queue
    rw [hlength]
    exact hqueue
  · change (if fin = true then pcb'.tcpEventClosed else pcb').state = .established ↔ fin = false
    rw [tcpEventClosed_if.2]
    exact hstate

/-- A segment after the FIN. -/
theorem Inv.segment_closed (h : Inv stream base c) (hclosed : c.closed = true) (hlen : x.len ≤ 65515) :
    ∃ c', step stream base c (.segment x mem reads) = some c' ∧ Inv stream base c' ∧ c.told ≤ c'.told := by
  have hstate : c.pcb.state = .closeWait := by
    cases hs : c.pcb.state with
    | established => rw [h.state.mp hs] at hclosed; cases hclosed
    | closeWait => rfl
  rw [step, tcpInput_closeWait hstate hlen]
  refine ⟨_, rfl, ?_, Nat.le_refl _⟩
  simp only [List.append_nil, Bool.or_false, readOf, if_true, Nat.add_zero]
  exact h

/-- **A piece that arrives** keeps the invariant; one that is next is taken to its end. -/
theorem Inv.segment (h : Inv stream base c) (hadm : Admissible stream base c (.segment x mem reads)) :
    ∃ c', step stream base c (.segment x mem reads) = some c' ∧ Inv stream base c' ∧ c.told ≤ c'.told ∧
      (c.closed = false → x.pos ≤ c.nxt → x.stop ≤ c'.nxt) := by
  obtain ⟨hsent, hpos, hsum⟩ := hadm
  cases hclosed : c.closed with
  | true =>
    obtain ⟨c', heq, hinv, htold⟩ := h.segment_closed hclosed hsent.len
    exact ⟨c', heq, hinv, htold, fun hf => by cases hf⟩
  | false =>
    obtain ⟨nxt', pcb₁, data, fin, queue, hprocess, hw, hstate, hooseq, hqueue, htaken, hprogress⟩ :=
      h.process hclosed hsent mem
    have hgain : c.gain stream base x mem = data := by
      have hnone : pcb₁.tcpEventRecv data [] = some pcb₁ := by
        rw [TcpPcb.tcpEventRecv]
        split <;> rfl
      rw [Conn.gain, tcpInput_of_process hsent.len hprocess hnone]
      rfl
    rw [hgain, ← List.length_append] at hsum
    obtain ⟨hnxt, -⟩ := h.nxt_of_open hclosed
    obtain ⟨-, hlength, -⟩ := htaken.delivered hnxt.symm h.delivered
    have hrecved := h.recved_le
    have hread : readOf data reads ≤ c.delivered.length - c.recved + (nxt' - c.nxt) := by omega
    obtain ⟨pcb₂, hreads, hw₂, hstate₂, hooseq₂⟩ := hw.eventRecv hpos hread
    obtain ⟨hinv, hnxt'⟩ := h.given hclosed hw₂ (hstate₂ ▸ hstate) (hooseq₂.trans hooseq) hqueue htaken hsum
    rw [step, tcpInput_of_process hsent.len hprocess hreads]
    refine ⟨_, rfl, hinv, Nat.le_refl _, fun _ hbefore => ?_⟩
    exact Nat.le_trans (hprogress hbefore) (Nat.le_of_eq hnxt'.symm)

end TwilightLine.TcpIn
