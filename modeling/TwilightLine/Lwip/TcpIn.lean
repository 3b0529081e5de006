import TwilightLine.Lib.Run
import TwilightLine.Lib.Serial

/-! The receiving half of a TCP connection (`tcp_receive`, `tcp_recved`).

A connection that the application has not closed takes segments with data or FIN, in any
order. What is next in sequence goes up, and the application does not refuse it; what is
further on waits on `ooseq`, ordered by sequence number. A segment is its sequence number,
its length field, its FIN flag and the octets of its pbuf chain. A failed `LWIP_ASSERT` ends
the program: no result. -/
namespace TwilightLine.TcpIn
open Run Serial

/-! ### Sequence numbers -/

def tcpSeqLt (a b : UInt32) : Prop := (a - b).toInt32.toInt < 0
def tcpSeqLeq (a b : UInt32) : Prop := (a - b).toInt32.toInt ≤ 0
def tcpSeqGt (a b : UInt32) : Prop := 0 < (a - b).toInt32.toInt
def tcpSeqGeq (a b : UInt32) : Prop := 0 ≤ (a - b).toInt32.toInt
/-- `b <= a <= c` -/
def tcpSeqBetween (a b c : UInt32) : Prop := tcpSeqGeq a b ∧ tcpSeqLeq a c

instance (a b : UInt32) : Decidable (tcpSeqLt a b) := Int.decLt ..
instance (a b : UInt32) : Decidable (tcpSeqLeq a b) := Int.decLe ..
instance (a b : UInt32) : Decidable (tcpSeqGt a b) := Int.decLt ..
instance (a b : UInt32) : Decidable (tcpSeqGeq a b) := Int.decLe ..
instance (a b c : UInt32) : Decidable (tcpSeqBetween a b c) := inferInstanceAs (Decidable (_ ∧ _))

/-! ### Segments -/

structure TcpSeg where
  seqno : UInt32
  len : UInt16
  fin : Bool
  p : List UInt8
  deriving DecidableEq, Repr

namespace TcpSeg

/-- `TCP_TCPLEN`: what the segment takes of the sequence space. -/
def tcpTcplen (seg : TcpSeg) : UInt32 := seg.len.toUInt32 + if seg.fin then 1 else 0

/-- The variable `tcplen` has 16 bits. -/
def tcplen (seg : TcpSeg) : UInt16 := seg.tcpTcplen.toUInt16

/-- The segment's length is lowered and its pbuf chain is cut (`pbuf_realloc`). -/
def realloc (seg : TcpSeg) (len : UInt16) : TcpSeg := {seg with len := len, p := seg.p.take len.toNat}

end TcpSeg

/-! ### Segments that overlap -/

/-- The segments of `ooseq` that `inseg` covers are dropped, a FIN among them kept. -/
def dropCovered (inseg : TcpSeg) : List TcpSeg → TcpSeg × List TcpSeg
  | [] => (inseg, [])
  | next :: rest =>
    if tcpSeqGeq (inseg.seqno + inseg.tcplen.toUInt32) (next.seqno + next.len.toUInt32) then
      dropCovered {inseg with fin := inseg.fin || next.fin} rest
    else (inseg, next :: rest)

/-- `ooseq` and `inseg` no longer overlap. -/
def trimToOoseq (inseg : TcpSeg) (ooseq : List TcpSeg) : Option (TcpSeg × List TcpSeg) :=
  -- what came out of order is before the FIN
  if inseg.fin then some (inseg, [])
  else
    match dropCovered inseg ooseq with
    | (inseg, []) => some (inseg, [])
    | (inseg, next :: rest) =>
      if tcpSeqGt (inseg.seqno + inseg.tcplen.toUInt32) next.seqno then
        let inseg := inseg.realloc (next.seqno - inseg.seqno).toUInt16
        if inseg.seqno + inseg.tcplen.toUInt32 = next.seqno then some (inseg, next :: rest) else none
      else some (inseg, next :: rest)

/-- The loop of `tcp_oos_insert_segment`: the segments that `cseg` covers are freed. -/
def freeCovered (cseg : TcpSeg) : List TcpSeg → TcpSeg × List TcpSeg
  | [] => (cseg, [])
  | next :: rest =>
    if tcpSeqGeq (cseg.seqno + cseg.len.toUInt32) (next.seqno + next.len.toUInt32) then
      freeCovered {cseg with fin := cseg.fin || next.fin} rest
    else (cseg, next :: rest)

/-- `cseg` is put in front of `next`. -/
def tcpOosInsertSegment (cseg : TcpSeg) (next : List TcpSeg) : List TcpSeg :=
  if cseg.fin then [cseg]
  else
    match freeCovered cseg next with
    | (cseg, []) => [cseg]
    | (cseg, next :: rest) =>
      if tcpSeqGt (cseg.seqno + cseg.len.toUInt32) next.seqno then
        cseg.realloc (next.seqno - cseg.seqno).toUInt16 :: next :: rest
      else cseg :: next :: rest

/-- A segment loses what `seqno` and the octets after it cover. -/
def trimBefore (prev : TcpSeg) (seqno : UInt32) : TcpSeg :=
  if tcpSeqGt (prev.seqno + prev.len.toUInt32) seqno then prev.realloc (seqno - prev.seqno).toUInt16 else prev

/-! ### The connection -/

/-- The states of a connection that the application has not closed. -/
inductive TcpState
  | established
  | closeWait
  deriving DecidableEq, Repr

structure TcpPcb where
  state : TcpState
  rcvNxt : UInt32
  rcvWnd : UInt16
  rcvAnnWnd : UInt16
  rcvAnnRightEdge : UInt32
  mss : UInt16
  ooseq : List TcpSeg
  deriving DecidableEq, Repr

/-- `TCP_WND`: four segments of `TCP_MSS` octets. -/
def tcpWnd : UInt16 := 4 * 1460

namespace TcpPcb

/-! ### The window -/

/-- `tcp_update_rcv_ann_wnd`, with how much window an update would add. -/
def tcpUpdateRcvAnnWnd (pcb : TcpPcb) : Option (TcpPcb × UInt32) :=
  let newRightEdge := pcb.rcvNxt + pcb.rcvWnd.toUInt32
  if tcpSeqGeq newRightEdge (pcb.rcvAnnRightEdge + min (tcpWnd.toUInt32 / 2) pcb.mss.toUInt32) then
    some ({pcb with rcvAnnWnd := pcb.rcvWnd}, newRightEdge - pcb.rcvAnnRightEdge)
  else if tcpSeqGt pcb.rcvNxt pcb.rcvAnnRightEdge then some ({pcb with rcvAnnWnd := 0}, 0)
  else
    -- the right edge of the window is kept
    let newRcvAnnWnd := pcb.rcvAnnRightEdge - pcb.rcvNxt
    if newRcvAnnWnd ≤ 0xffff then some ({pcb with rcvAnnWnd := newRcvAnnWnd.toUInt16}, 0) else none

/-- `tcp_recved`: the application has read `len` octets. What it sends at once, a window
update, is an event of its own. -/
def tcpRecved (pcb : TcpPcb) (len : UInt16) : Option TcpPcb := do
  let rcvWnd := pcb.rcvWnd + len
  let rcvWnd ←
    if tcpWnd < rcvWnd then some tcpWnd
    else if rcvWnd = 0 then if pcb.state = .closeWait then some tcpWnd else none
    else some rcvWnd
  let (pcb, _) ← {pcb with rcvWnd := rcvWnd}.tcpUpdateRcvAnnWnd
  some pcb

/-- `rcv_nxt` moves on by `tcplen`, which the window must hold. -/
def advance (pcb : TcpPcb) (rcvNxt tcplen : UInt32) : Option TcpPcb := do
  if tcplen ≤ pcb.rcvWnd.toUInt32 then
    let (pcb, _) ← {pcb with rcvNxt := rcvNxt, rcvWnd := pcb.rcvWnd - tcplen.toUInt16}.tcpUpdateRcvAnnWnd
    some pcb
  else none

/-! ### What is next in sequence -/

/-- The octets before `rcv_nxt` are taken off the segment. -/
def trimFront (pcb : TcpPcb) (inseg : TcpSeg) (tcplen : UInt16) : Option TcpSeg :=
  if tcpSeqBetween pcb.rcvNxt (inseg.seqno + 1) (inseg.seqno + tcplen.toUInt32 - 1) then
    let off := pcb.rcvNxt - inseg.seqno
    if off < 0xffff ∧ off.toNat ≤ inseg.p.length then
      some {inseg with seqno := pcb.rcvNxt, len := inseg.len - off.toUInt16, p := inseg.p.drop off.toNat}
    else none
  else some inseg

/-- What does not fit in the window is taken off the segment, its FIN first. -/
def trimToWindow (pcb : TcpPcb) (inseg : TcpSeg) : Option TcpSeg :=
  if pcb.rcvWnd < inseg.tcplen then
    let inseg := {inseg with fin := false}.realloc pcb.rcvWnd
    if inseg.seqno + inseg.tcplen.toUInt32 = pcb.rcvNxt + pcb.rcvWnd.toUInt32 then some inseg else none
  else some inseg

/-- The segments of `ooseq` that are now in sequence are taken, with their octets behind
`recvData`. -/
def dequeue (pcb : TcpPcb) (recvData : List UInt8) (gotFin : Bool) : List TcpSeg → Option (TcpPcb × List UInt8 × Bool)
  | [] => some ({pcb with ooseq := []}, recvData, gotFin)
  | cseg :: rest =>
    if cseg.seqno = pcb.rcvNxt then do
      let pcb ← pcb.advance (pcb.rcvNxt + cseg.tcpTcplen) cseg.tcpTcplen
      let pcb := if cseg.fin then {pcb with state := .closeWait} else pcb
      pcb.dequeue (recvData ++ cseg.p) (gotFin || cseg.fin) rest
    else some ({pcb with ooseq := cseg :: rest}, recvData, gotFin)

/-- The segment is the next in sequence: what goes up, and whether that was all. -/
def inSequence (pcb : TcpPcb) (inseg : TcpSeg) : Option (TcpPcb × List UInt8 × Bool) := do
  let inseg ← pcb.trimToWindow inseg
  let (inseg, ooseq) ← trimToOoseq inseg pcb.ooseq
  let pcb ← pcb.advance (inseg.seqno + inseg.tcplen.toUInt32) inseg.tcplen.toUInt32
  pcb.dequeue inseg.p inseg.fin ooseq

/-! ### What is further on -/

/-- The segment is put at the end, cut to the window. -/
def appendSegment (pcb : TcpPcb) (inseg : TcpSeg) (tcplen : UInt16) : Option TcpSeg :=
  if tcpSeqGt (tcplen.toUInt32 + inseg.seqno) (pcb.rcvNxt + pcb.rcvWnd.toUInt32) then
    let cseg := {inseg with fin := false}.realloc (pcb.rcvNxt + pcb.rcvWnd.toUInt32 - inseg.seqno).toUInt16
    if cseg.seqno + cseg.tcplen.toUInt32 = pcb.rcvNxt + pcb.rcvWnd.toUInt32 then some cseg else none
  else some inseg

/-- The walk along `ooseq` to the place of `inseg`: the queue from `prev` on. Whether the
segment can be copied is `mem`. -/
def queueLoop (pcb : TcpPcb) (inseg : TcpSeg) (tcplen : UInt16) (mem : Bool) (prev : Option TcpSeg) :
    List TcpSeg → Option (List TcpSeg)
  | [] => some prev.toList
  | next :: rest =>
    if inseg.seqno = next.seqno then
      if next.len < inseg.len ∧ mem then some (prev.toList ++ tcpOosInsertSegment inseg (next :: rest))
      else some (prev.toList ++ next :: rest)
    else if prev = none ∧ tcpSeqLt inseg.seqno next.seqno then
      some (if mem then tcpOosInsertSegment inseg (next :: rest) else next :: rest)
    else if prev.any fun prev => tcpSeqBetween inseg.seqno (prev.seqno + 1) (next.seqno - 1) then
      some (if mem then (prev.map (trimBefore · inseg.seqno)).toList ++ tcpOosInsertSegment inseg (next :: rest)
        else prev.toList ++ next :: rest)
    else if rest = [] ∧ tcpSeqGt inseg.seqno next.seqno then
      -- a last segment with FIN already has all the data
      if next.fin ∨ ¬ mem then some (prev.toList ++ [next])
      else do
        let cseg ← pcb.appendSegment inseg tcplen
        some (prev.toList ++ [trimBefore next inseg.seqno, cseg])
    else do
      let queue ← pcb.queueLoop inseg tcplen mem (some next) rest
      some (prev.toList ++ queue)

/-- The segment is queued on `ooseq`. -/
def outOfSequence (pcb : TcpPcb) (inseg : TcpSeg) (tcplen : UInt16) (mem : Bool) : Option TcpPcb :=
  match pcb.ooseq with
  | [] => some {pcb with ooseq := if mem then [inseg] else []}
  | ooseq => do
    let queue ← pcb.queueLoop inseg tcplen mem none ooseq
    some {pcb with ooseq := queue}

/-! ### A segment -/

/-- `tcp_receive`, less what it does with the acknowledgement: the connection, what goes up,
and whether the FIN was taken. -/
def tcpReceive (pcb : TcpPcb) (inseg : TcpSeg) (tcplen : UInt16) (mem : Bool) : Option (TcpPcb × List UInt8 × Bool) :=
  if 0 < tcplen ∧ pcb.state = .established then do
    let inseg ← pcb.trimFront inseg tcplen
    if tcpSeqBetween inseg.seqno pcb.rcvNxt (pcb.rcvNxt + pcb.rcvWnd.toUInt32 - 1) then
      if pcb.rcvNxt = inseg.seqno then pcb.inSequence inseg
      else do
        let pcb ← pcb.outOfSequence inseg tcplen mem
        some (pcb, [], false)
    else some (pcb, [], false)
  else some (pcb, [], false)

/-- `tcp_process` with an open connection: a FIN closes the peer's side. -/
def tcpProcess (pcb : TcpPcb) (inseg : TcpSeg) (tcplen : UInt16) (mem : Bool) : Option (TcpPcb × List UInt8 × Bool) := do
  let (pcb, recvData, gotFin) ← pcb.tcpReceive inseg tcplen mem
  some (if gotFin then {pcb with state := .closeWait} else pcb, recvData, gotFin)

/-- `TCP_EVENT_RECV`: the application is given `recvData`, and reads `reads` while it is called. -/
def tcpEventRecv (pcb : TcpPcb) (recvData : List UInt8) (reads : List UInt16) : Option TcpPcb :=
  if recvData = [] then some pcb else reads.foldlM tcpRecved pcb

/-- `TCP_EVENT_CLOSED`: the application does not read the FIN, so its number is given back. -/
def tcpEventClosed (pcb : TcpPcb) : TcpPcb :=
  if pcb.rcvWnd ≠ tcpWnd then {pcb with rcvWnd := pcb.rcvWnd + 1} else pcb

/-- `tcp_input` from where the connection is found. -/
def tcpInput (pcb : TcpPcb) (inseg : TcpSeg) (mem : Bool) (reads : List UInt16) : Option (TcpPcb × List UInt8 × Bool) :=
  let tcplen := if inseg.fin then inseg.len + 1 else inseg.len
  -- a length that overflows is dropped
  if tcplen < inseg.len then some (pcb, [], false)
  else do
    let (pcb, recvData, gotFin) ← pcb.tcpProcess inseg tcplen mem
    let pcb ← pcb.tcpEventRecv recvData reads
    some (if gotFin then pcb.tcpEventClosed else pcb, recvData, gotFin)

/-- `tcp_free_ooseq`, which the timer calls when segments have waited for too long. -/
def tcpFreeOoseq (pcb : TcpPcb) : TcpPcb := {pcb with ooseq := []}

/-- Any segment that goes out announces the window. -/
def output (pcb : TcpPcb) : TcpPcb := {pcb with rcvAnnRightEdge := pcb.rcvNxt + pcb.rcvAnnWnd.toUInt32}

end TcpPcb

end TwilightLine.TcpIn
