import TwilightLine.Tun2socks.TcpClients
import Mathlib.Logic.Relation

/-! What a TCP client does, action by action.

Every handler of a client is a sequence of a few elementary actions: a call into
lwIP, a use of the SOCKS client, the change of a flag, the arrival of data. `Act`
lists them, each with what is always known when the code gets to it: lwIP is only
called while `client_closed` is unset, a receive is only started with nothing left
to write, the structure is only freed with both flags set.

`AtRest` says how the fields stand to each other between events. `handle_acts` is
the theorem of this module: an event that can happen in a client at rest is handled
by a sequence of actions, and leaves the client at rest. What the actions preserve
therefore holds in every run, without another look at the handlers. -/
namespace TwilightLine.Tcp

/-- The bytes of `socks_recv_buf` that `tcp_write` has not accepted yet. -/
def unwritten (cl : TcpClient) : List UInt8 :=
  if cl.socksRecvBufUsed > 0 then cl.socksRecvBuf.drop cl.socksRecvBufSent else []

/-- The calls into lwIP that only set callbacks, ask, flush, or write nothing. -/
def LwipCall.quiet : LwipCall → Bool
  | .close | .abort | .recved _ | .write _ .ok => false
  | _ => true

/-- `cl'` differs from `cl` in nothing but `socks_up`, `socks_recv_waiting` and how
an empty receive buffer is written down. -/
structure SameData (cl cl' : TcpClient) : Prop where
  aborted : cl'.aborted = cl.aborted
  deadAborted : cl'.deadAborted = cl.deadAborted
  clientClosed : cl'.clientClosed = cl.clientClosed
  socksClosed : cl'.socksClosed = cl.socksClosed
  buf : cl'.buf = cl.buf
  unwritten : unwritten cl' = unwritten cl
  pending : cl'.socksRecvTcpPending = cl.socksRecvTcpPending

/-- The SOCKS client may be freed: it has nothing left to send, it has failed, or the
client is murdered. -/
def MayFreeSocks (w : World) : Prop := w.cl.buf = [] ∨ .socksFailed ∈ w.trace ∨ .murdered ∈ w.trace

/-- One action of a client, with what is known when it is done. -/
inductive Act : World → World → Prop where
  /-- The fields that no property of traces depends on. -/
  | fields {w : World} {cl : TcpClient} {pcb : Pcb} {socks : Socks} (h : SameData w.cl cl) :
    Act w {w with cl, pcb, socks}
  | lwip {w : World} {c : LwipCall} {pcb : Pcb} (hopen : w.cl.clientClosed = false) (hc : c.quiet) :
    Act w {w.log (.lwip c) with pcb}
  /-- Once SOCKS is closed, the pcb is only closed with everything written and acknowledged. -/
  | close {w : World} {r : LwipResults} (hopen : w.cl.clientClosed = false)
      (hdone : w.cl.socksClosed = true → unwritten w.cl = [] ∧ w.cl.socksRecvTcpPending = 0) :
    Act w (tcpClose w r)
  | abort {w : World} (hopen : w.cl.clientClosed = false) (hnot : w.cl.aborted = false) (hal : w.allocated) :
    Act w (clientAbortPcb w)
  | closeClient {w : World} (hopen : w.cl.clientClosed = false) (hal : w.allocated) : Act w (setClientClosed w)
  | closeSocks {w : World} (hopen : w.cl.socksClosed = false) (hal : w.allocated) (hmay : MayFreeSocks w) :
    Act w (setSocksClosed w)
  | socksFailed {w : World} : Act w (w.log .socksFailed)
  | murdered {w : World} : Act w (w.log .murdered)
  | dealloc {w : World} (hc : w.cl.clientClosed) (hs : w.cl.socksClosed) (hal : w.allocated)
      (hnum : 0 < w.numClients) :
    Act w (clientDealloc w)
  | enter {w : World} (hopen : w.cl.clientClosed = false) (hnot : w.cl.aborted = false) (hal : w.allocated) :
    Act w (callbackEnter w)
  | ret {w : World} : Act w (callbackReturn w)
  /-- A pbuf fits `buf`. -/
  | accept {w : World} {data : List UInt8} (hopen : w.cl.clientClosed = false)
      (hfit : w.cl.buf.length + data.length ≤ tcpWnd) :
    Act w {w.log (.accepted data) with cl := {w.cl with buf := w.cl.buf ++ data}}
  /-- A pbuf does not fit, and the callback returns. -/
  | refuse {w : World} {n : Nat} {fr : Frame} {rest : List Frame} (hopen : w.cl.clientClosed = false)
      (hnot : w.cl.aborted = false) (hal : w.allocated) (hfit : tcpWnd < w.cl.buf.length + n)
      (hfr : w.frames = fr :: rest) :
    Act w ((deadLeave (w.log (.noBuffer n)) fr rest).log (.ret fr.id .mem))
  /-- SOCKS has sent data, and lwIP's window is given back if the client is open. -/
  | sent {w w' : World} {n : Nat} (hle : n ≤ w.cl.buf.length)
      (hw' : w' = {w.log (.sent (w.cl.buf.take n)) with cl := {w.cl with buf := w.cl.buf.drop n}}) :
    Act w (if w'.cl.clientClosed then w' else w'.log (.lwip (.recved n)))
  /-- SOCKS is only asked for data when the last data is written. -/
  | socks {w : World} {c : SocksCall} {socks : Socks} (hopen : w.cl.socksClosed = false)
      (hrecv : c = .recv → w.cl.clientClosed = false ∧ unwritten w.cl = []) :
    Act w {w.log (.socks c) with socks}
  /-- Data of SOCKS is taken for a client that is open. -/
  | load {w : World} {data : List UInt8} (hopen : w.cl.clientClosed = false) (hempty : unwritten w.cl = [])
      (hdata : data ≠ []) :
    Act w {w.log (.received data) with cl := {w.cl with
      socksRecvBuf := data, socksRecvBufUsed := data.length, socksRecvBufSent := 0, socksRecvWaiting := false}}
  /-- Data of SOCKS is dropped, the client being closed. -/
  | drop {w : World} {data : List UInt8} (hclosed : w.cl.clientClosed) : Act w (w.log (.received data))
  /-- `tcp_write` accepts the next bytes. -/
  | write {w : World} {n : Nat} (hopen : w.cl.clientClosed = false) (hused : w.cl.socksRecvBufUsed > 0)
      (hle : w.cl.socksRecvBufSent + n ≤ w.cl.socksRecvBuf.length) :
    Act w {w.log (.lwip (.write ((w.cl.socksRecvBuf.drop w.cl.socksRecvBufSent).take n) .ok)) with
      cl := {w.cl with socksRecvBufSent := w.cl.socksRecvBufSent + n,
                       socksRecvTcpPending := w.cl.socksRecvTcpPending + n}}
  | acked {w : World} {n : Nat} (hle : n ≤ w.cl.socksRecvTcpPending) :
    Act w {w.log (.acked n) with
      cl := {w.cl with socksRecvTcpPending := w.cl.socksRecvTcpPending - n}}

/-- Actions, one after the other. -/
abbrev Acts : World → World → Prop := Relation.ReflTransGen Act

theorem Act.acts {w w' : World} (h : Act w w') : Acts w w' := .single h

theorem SameData.refl (cl : TcpClient) : SameData cl cl := ⟨rfl, rfl, rfl, rfl, rfl, rfl, rfl⟩

theorem Act.setData (w : World) {cl : TcpClient} (h : SameData w.cl cl) : Act w {w with cl} := .fields h

theorem Act.setPcb (w : World) (pcb : Pcb) : Act w {w with pcb} := .fields (.refl w.cl)

theorem Act.setSocks (w : World) (socks : Socks) : Act w {w with socks} := .fields (.refl w.cl)

/-! ### The client between events -/

/-- What holds between events, and in the middle of a handler whenever a half is closed. -/
structure Core (w : World) : Prop where
  nodup : w.tcpClients.Nodup
  listed : w.self ∈ w.tcpClients ↔ w.allocated = true
  counted : w.numClients = w.tcpClients.length
  socksAlive : w.socks.alive = !w.cl.socksClosed
  socksUp : w.socks.up = w.cl.socksUp
  /-- A send is outstanding exactly when there is data that SOCKS can take. -/
  sending : w.cl.socksClosed = false → (w.socks.sending ≠ none ↔ w.cl.socksUp = true ∧ w.cl.buf ≠ [])
  /-- What is being sent is the beginning of `buf`. -/
  sendingPrefix : ∀ d ∈ w.socks.sending, d ≠ [] ∧ d <+: w.cl.buf
  socksFreed : w.cl.socksClosed → w.socks.sending = none ∧ w.socks.receiving = false
  receiving : w.socks.receiving → w.cl.socksUp = true ∧ w.cl.socksRecvBufUsed = -1
  /-- Data waiting to be written has earlier data to be acknowledged. -/
  waiting : w.cl.socksRecvWaiting → 0 < w.cl.socksRecvTcpPending ∧ 0 < w.cl.socksRecvBufUsed
  notUp : w.cl.socksUp = false → w.cl.socksRecvBufUsed = 0 ∧ w.cl.socksRecvTcpPending = 0
  bufFits : w.cl.buf.length ≤ tcpWnd

/-- What holds of an open client between events. -/
structure OpenAtRest (w : World) : Prop where
  notAborted : w.cl.aborted = false
  alive : w.pcb.alive = true
  err : w.pcb.err = true
  recv : w.pcb.recv = !w.cl.socksClosed
  sent : w.pcb.sent = w.cl.socksUp
  /-- Received data is written, or what is left of it waits. -/
  used : w.cl.socksUp = true → w.cl.socksRecvBufUsed = -1 ∨
    (w.cl.socksRecvBufUsed = w.cl.socksRecvBuf.length ∧ w.cl.socksRecvBufSent < w.cl.socksRecvBuf.length ∧
      w.cl.socksRecvWaiting = true)
  /-- Where SOCKS is closed, the client is owed something. -/
  owed : w.cl.socksClosed = true → owesClient w = true

/-- The client between two events. -/
structure AtRest (w : World) : Prop extends Core w where
  allocated : w.allocated = !(w.cl.clientClosed && w.cl.socksClosed)
  ofOpen : w.cl.clientClosed = false → OpenAtRest w
  ofClosed : w.cl.clientClosed = true → w.pcb.alive = false ∧ (w.cl.socksClosed = false → w.cl.buf ≠ [])

/-! ### What the markers and the deallocation leave alone -/

@[simp]
theorem assert_of {w : World} {p : Bool} (h : p = true) : w.assert p = w := by simp [World.assert, h]

theorem assert_not {w : World} {p : Bool} (h : p = false) : w.assert (!p) = w := assert_of (by simp [h])

theorem assert_decide {w : World} {p : Prop} [Decidable p] (h : p) : w.assert (decide p) = w :=
  assert_of (decide_eq_true h)

section writeDead

variable (w : World) (ptr : Option FrameId) (v : Int)

@[simp] theorem writeDead_cl : (writeDead w ptr v).cl = w.cl := by cases ptr <;> rfl

@[simp] theorem writeDead_allocated : (writeDead w ptr v).allocated = w.allocated := by cases ptr <;> rfl

@[simp] theorem writeDead_pcb : (writeDead w ptr v).pcb = w.pcb := by cases ptr <;> rfl

@[simp] theorem writeDead_socks : (writeDead w ptr v).socks = w.socks := by cases ptr <;> rfl

@[simp] theorem writeDead_self : (writeDead w ptr v).self = w.self := by cases ptr <;> rfl

@[simp] theorem writeDead_tcpClients : (writeDead w ptr v).tcpClients = w.tcpClients := by cases ptr <;> rfl

@[simp] theorem writeDead_numClients : (writeDead w ptr v).numClients = w.numClients := by cases ptr <;> rfl

@[simp] theorem writeDead_nextFrame : (writeDead w ptr v).nextFrame = w.nextFrame := by cases ptr <;> rfl

end writeDead

theorem writeDead_eq (w : World) (ptr : Option FrameId) (v : Int) :
    writeDead w ptr v = {w with
      frames := (writeDead w ptr v).frames, trace := (writeDead w ptr v).trace} := by
  cases ptr <;> rfl

theorem clientAbortPcb_eq {w : World} (hnot : w.cl.aborted = false) :
    clientAbortPcb w = {w with
      cl := {w.cl with aborted := true}
      pcb := {w.pcb with alive := false}
      frames := (clientAbortPcb w).frames
      trace := (clientAbortPcb w).trace} := by
  simp only [clientAbortPcb, hnot, Bool.not_false, assert_of]
  rw [writeDead_eq]
  rfl

theorem clientDealloc_eq {w : World} (hc : w.cl.clientClosed = true) (hs : w.cl.socksClosed = true)
    (hnum : 0 < w.numClients) :
    clientDealloc w = {w with
      allocated := false
      numClients := w.numClients - 1
      tcpClients := w.tcpClients.erase w.self
      frames := (clientDealloc w).frames
      trace := (clientDealloc w).trace} := by
  simp only [clientDealloc, assert_of hc, assert_of hs, assert_decide hnum]
  split
  · rfl
  · rw [writeDead_eq]
    rfl

end TwilightLine.Tcp
