import TwilightLine.Tun2socks.TcpClientHandlers

/-! The actions of a TCP client, entry by entry of the trace.

`Entry` is the finest view of a client: one entry of the trace, or the two of a
completed send, with the change of the fields that goes with it. The markers of
callbacks in progress are blurred in it. Every action is a sequence of entries
(`Act.entries`), so that a property of traces that has nothing to do with callbacks
need only be looked at entry by entry. -/
namespace TwilightLine.Tcp

open Trace

/-- The entries about callbacks and their markers. -/
def Ev.isMark : Ev → Bool
  | .enter _ | .ret .. | .deadWrite .. => true
  | _ => false

/-- One entry of the trace, with what is known when it is made. -/
inductive Entry : Conn → Conn → Prop where
  | fields {c : Conn} {cl : TcpClient} {pcb : Pcb} {socks : Socks} (h : SameData c.cl cl) :
    Entry c {c with cl, pcb, socks}
  | mark {c : Conn} {e : Ev} {deadAborted : Option FrameId} {frames : List Frame} {nextFrame : FrameId}
      (he : e.isMark) :
    Entry c {c with cl := {c.cl with deadAborted}, frames, nextFrame, trace := c.trace ++ [e]}
  | lwip {c : Conn} {call : LwipCall} {pcb : Pcb} (hopen : c.cl.clientClosed = false) (hc : call.quiet) :
    Entry c {c with pcb, trace := c.trace ++ [.lwip call]}
  | close {c : Conn} {pcb : Pcb} (hopen : c.cl.clientClosed = false)
      (hdone : c.cl.socksClosed = true → unwritten c.cl = [] ∧ c.cl.socksRecvTcpPending = 0) :
    Entry c {c with pcb, trace := c.trace ++ [.lwip .close]}
  | abort {c : Conn} (hopen : c.cl.clientClosed = false) :
    Entry c {c with
      cl := {c.cl with aborted := true}
      pcb := {c.pcb with alive := false}
      trace := c.trace ++ [.lwip .abort]}
  | closeClient {c : Conn} (hopen : c.cl.clientClosed = false) (hal : c.allocated) :
    Entry c {c with cl := {c.cl with clientClosed := true}, trace := c.trace ++ [.clientClosed]}
  | closeSocks {c : Conn} {socks : Socks} (hopen : c.cl.socksClosed = false) (hal : c.allocated)
      (hmay : c.cl.buf = [] ∨ .socksFailed ∈ c.trace ∨ .murdered ∈ c.trace) :
    Entry c {c with cl := {c.cl with socksClosed := true}, socks, trace := c.trace ++ [.socksFree]}
  | socksFailed {c : Conn} : Entry c {c with trace := c.trace ++ [.socksFailed]}
  | murdered {c : Conn} : Entry c {c with trace := c.trace ++ [.murdered]}
  | dealloc {c : Conn} (hc : c.cl.clientClosed) (hs : c.cl.socksClosed) (hal : c.allocated) :
    Entry c {c with allocated := false, trace := c.trace ++ [.dealloc]}
  | accept {c : Conn} {data : List UInt8} (hopen : c.cl.clientClosed = false)
      (hfit : c.cl.buf.length + data.length ≤ tcpWnd) :
    Entry c {c with cl := {c.cl with buf := c.cl.buf ++ data}, trace := c.trace ++ [.accepted data]}
  | refuse {c : Conn} {n : Nat} (hopen : c.cl.clientClosed = false) (hfit : tcpWnd < c.cl.buf.length + n) :
    Entry c {c with trace := c.trace ++ [.noBuffer n]}
  | sentOpen {c : Conn} {n : Nat} (hopen : c.cl.clientClosed = false) (hle : n ≤ c.cl.buf.length) :
    Entry c {c with
      cl := {c.cl with buf := c.cl.buf.drop n}
      trace := c.trace ++ [.sent (c.cl.buf.take n)] ++ [.lwip (.recved n)]}
  | sentClosed {c : Conn} {n : Nat} (hclosed : c.cl.clientClosed) (hle : n ≤ c.cl.buf.length) :
    Entry c {c with cl := {c.cl with buf := c.cl.buf.drop n}, trace := c.trace ++ [.sent (c.cl.buf.take n)]}
  | socks {c : Conn} {call : SocksCall} {socks : Socks} (hopen : c.cl.socksClosed = false)
      (hrecv : call = .recv → c.cl.clientClosed = false ∧ unwritten c.cl = []) :
    Entry c {c with socks, trace := c.trace ++ [.socks call]}
  | load {c : Conn} {data : List UInt8} (hopen : c.cl.clientClosed = false) (hempty : unwritten c.cl = [])
      (hdata : data ≠ []) :
    Entry c {c with
      cl := {c.cl with
        socksRecvBuf := data, socksRecvBufUsed := data.length, socksRecvBufSent := 0, socksRecvWaiting := false}
      trace := c.trace ++ [.received data]}
  | drop {c : Conn} {data : List UInt8} (hclosed : c.cl.clientClosed) :
    Entry c {c with trace := c.trace ++ [.received data]}
  | write {c : Conn} {n : Nat} (hopen : c.cl.clientClosed = false) (hused : c.cl.socksRecvBufUsed > 0)
      (hle : c.cl.socksRecvBufSent + n ≤ c.cl.socksRecvBuf.length) :
    Entry c {c with
      cl := {c.cl with
        socksRecvBufSent := c.cl.socksRecvBufSent + n
        socksRecvTcpPending := c.cl.socksRecvTcpPending + n}
      trace := c.trace ++ [.lwip (.write ((c.cl.socksRecvBuf.drop c.cl.socksRecvBufSent).take n) .ok)]}
  | acked {c : Conn} {n : Nat} (hle : n ≤ c.cl.socksRecvTcpPending) :
    Entry c {c with
      cl := {c.cl with socksRecvTcpPending := c.cl.socksRecvTcpPending - n}, trace := c.trace ++ [.acked n]}

abbrev Entries : Conn → Conn → Prop := Relation.ReflTransGen Entry

theorem writeDead_entries (w : World) (ptr : Option FrameId) (v : Int) :
    Entries w.toConn (writeDead w ptr v).toConn := by
  cases ptr with
  | none => exact .refl
  | some f => exact .single (.mark rfl)

/-- Leaving a callback, with the entry for its return. -/
theorem deadLeave_entries (w : World) (fr : Frame) (rest : List Frame) (err : Err) :
    Entries w.toConn ((deadLeave w fr rest).log (.ret fr.id err)).toConn := by
  unfold deadLeave
  cases fr.prev with
  | none =>
    split
    · exact .single (.mark rfl)
    · exact .single (.mark rfl)
  | some f =>
    have hwrite : Entry w.toConn _ := @Entry.mark _ (.deadWrite f fr.dead) w.cl.deadAborted w.frames w.nextFrame rfl
    split
    · exact .tail (.single hwrite) (.mark rfl)
    · exact .tail (.single hwrite) (.mark rfl)

/-- **Every action is a sequence of entries.** -/
theorem Act.entries {w w' : World} (h : Act w w') : Entries w.toConn w'.toConn := by
  cases h with
  | fields h => exact .single (.fields h)
  | lwip hopen hc => exact .single (.lwip hopen hc)
  | close hopen hdone => exact .single (.close hopen hdone)
  | abort hopen hnot hal =>
    simp only [clientAbortPcb, assert_not hnot]
    exact .head (.abort hopen)
      (writeDead_entries {tcpAbort w with cl := {w.cl with aborted := true}} w.cl.deadAborted 1)
  | closeClient hopen hal => exact .single (.closeClient hopen hal)
  | closeSocks hopen hal hmay => exact .single (.closeSocks hopen hal hmay)
  | socksFailed => exact .single .socksFailed
  | murdered => exact .single .murdered
  | dealloc hc hs hal hnum =>
    simp only [clientDealloc, assert_of hc, assert_of hs, assert_decide hnum]
    split
    · exact .single (.dealloc hc hs hal)
    · have hmark := writeDead_entries
        {w with numClients := w.numClients - 1, tcpClients := w.tcpClients.erase w.self} w.cl.deadAborted (-1)
      refine hmark.tail (.dealloc ?_ ?_ ?_)
      · rwa [writeDead_cl]
      · rwa [writeDead_cl]
      · rwa [writeDead_allocated]
  | enter hopen hnot hal => exact .single (.mark rfl)
  | ret =>
    unfold callbackReturn
    split
    · exact .refl
    · exact deadLeave_entries ..
  | accept hopen hfit => exact .single (.accept hopen hfit)
  | refuse hopen hnot hal hfit hfr =>
    exact .head (.refuse hopen hfit) (deadLeave_entries (w.log (.noBuffer _)) _ _ .mem)
  | sent hle hw' =>
    subst hw'
    split
    · next hc => exact .single (.sentClosed hc hle)
    · next hc => exact .single (.sentOpen (Bool.eq_false_iff.2 hc) hle)
  | socks hopen hrecv => exact .single (.socks hopen hrecv)
  | load hopen hempty hdata => exact .single (.load hopen hempty hdata)
  | drop hclosed => exact .single (.drop hclosed)
  | write hopen hused hle => exact .single (.write hopen hused hle)
  | acked hle => exact .single (.acked hle)

theorem Acts.entries {w w' : World} (h : Acts w w') : Entries w.toConn w'.toConn := by
  induction h with
  | refl => exact .refl
  | tail _ hact ih => exact ih.trans hact.entries

/-- What every entry preserves, actions preserve. -/
theorem Acts.preserve {I : Conn → Prop} (hI : ∀ c c', Entry c c' → I c → I c') {w w' : World} (h : Acts w w')
    (hw : I w.toConn) : I w'.toConn := by
  have hentries := h.entries
  generalize w.toConn = c at hentries hw
  generalize w'.toConn = c' at hentries
  induction hentries with
  | refl => exact hw
  | tail _ hentry ih => exact hI _ _ hentry ih

end TwilightLine.Tcp
