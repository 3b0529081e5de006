import TwilightLine.Lib.Trace
import TwilightLine.System.BAddr

/-! A TCP client of tun2socks, function by function.

A `tcp_client` joins an lwIP connection (a pcb) to a SOCKS connection. Its two
halves close independently: `client_closed` says that the pcb is gone,
`socks_closed` that the SOCKS client is. `World` is what the functions of
`tun2socks.c` touch for one client: the structure itself, the pcb and the SOCKS
client with what is registered or outstanding on them, the list of clients, and
the callbacks of lwIP in progress, each with its `dead_aborted` marker. Every
call out of the module, and every change of the two flags, is recorded in `trace`,
oldest first.

The results of lwIP's calls come from `LwipResults`. A callback that runs jobs
before it returns (`SYNC_COMMIT`) is split there: its function does everything up
to that point, any other handlers may then run, and `callbackReturn` does
`DEAD_LEAVE2` and returns. `common_netif_output` also synchronizes, inside lwIP's
output calls, but the device write before it sets no job, so nothing runs there.
-/
namespace TwilightLine.Tcp

open Trace

/-- `TCP_WND`, the size of `buf`. -/
def tcpWnd : Nat := 5840

/-- `CLIENT_SOCKS_RECV_BUF_SIZE`. -/
def clientSocksRecvBufSize : Nat := 8192

/-- `err_t`, as far as the code tells values apart. -/
inductive Err where
  | ok
  | mem
  | abrt
  | other
  deriving DecidableEq, Repr

/-- `BSOCKSCLIENT_EVENT_*` but `CONNECTED`, which `client_socks_handler` ignores. -/
inductive SocksEvent where
  | error
  | up
  | errorClosed
  deriving DecidableEq, Repr

/-- A call into lwIP with the client's pcb. -/
inductive LwipCall where
  | arg
  | err (set : Bool)
  | recv (set : Bool)
  | sent (set : Bool)
  | close
  | abort
  | recved (len : Nat)
  | sndbuf
  | write (data : List UInt8) (result : Err)
  | output
  deriving DecidableEq, Repr

/-- A use of the client's `BSocksClient` or of its interfaces. -/
inductive SocksCall where
  | init
  | getInterfaces
  | send (data : List UInt8)
  | recv
  deriving DecidableEq, Repr

/-- The address of the `badvpn__dead` variable of a callback in progress. -/
abbrev FrameId := Nat

/-- What happened, as far as properties of the client speak of it. -/
inductive Ev where
  /-- lwIP enters a callback. -/
  | enter (frame : FrameId)
  /-- The callback returns. -/
  | ret (frame : FrameId) (err : Err)
  /-- A marker is written through a `dead_t` pointer. -/
  | deadWrite (frame : FrameId) (value : Int)
  | lwip (call : LwipCall)
  | socks (call : SocksCall)
  /-- `client_closed` is set. -/
  | clientClosed
  /-- `BSocksClient_Free`, and `socks_closed` is set. -/
  | socksFree
  /-- `client_dealloc`. -/
  | dealloc
  /-- A pbuf is copied to `buf`. -/
  | accepted (data : List UInt8)
  /-- The 'no buffer for data' branch. -/
  | noBuffer (len : Nat)
  /-- SOCKS reports bytes sent. -/
  | sent (data : List UInt8)
  /-- SOCKS reports bytes received. -/
  | received (data : List UInt8)
  /-- lwIP reports written bytes acknowledged. -/
  | acked (len : Nat)
  /-- SOCKS reports an error, or that the connection was closed. -/
  | socksFailed
  /-- `client_murder`. -/
  | murdered
  /-- An assertion fails. -/
  | assertFailed
  deriving DecidableEq, Repr

/-- `struct tcp_client`: the fields its functions read. `buf` is the first `buf_used`
bytes of the source's array; the others are never read. -/
structure TcpClient where
  aborted : Bool := false
  deadAborted : Option FrameId := none
  clientClosed : Bool := false
  buf : List UInt8 := []
  socksUp : Bool := false
  socksClosed : Bool := false
  socksRecvBuf : List UInt8 := []
  socksRecvBufUsed : Int := 0
  socksRecvBufSent : Nat := 0
  socksRecvWaiting : Bool := false
  socksRecvTcpPending : Nat := 0
  deriving DecidableEq, Repr

/-- The pcb as lwIP sees it: whether it is still the client's, and which callbacks are set. -/
structure Pcb where
  alive : Bool := false
  err : Bool := false
  recv : Bool := false
  sent : Bool := false
  deriving DecidableEq, Repr

/-- The SOCKS client: whether it exists, whether it has reported UP, the bytes it has
been given to send and not reported on, and whether a receive is outstanding. -/
structure Socks where
  alive : Bool := false
  up : Bool := false
  sending : Option (List UInt8) := none
  receiving : Bool := false
  deriving DecidableEq, Repr

/-- The variables `DEAD_ENTER` declares in a callback. -/
structure Frame where
  id : FrameId
  dead : Int
  prev : Option FrameId
  deriving DecidableEq, Repr

/-- One client with its surroundings. -/
structure Conn where
  cl : TcpClient := {}
  /-- The structure is allocated. -/
  allocated : Bool := false
  pcb : Pcb := {}
  socks : Socks := {}
  /-- The callbacks in progress on this client, innermost first. -/
  frames : List Frame := []
  nextFrame : FrameId := 0
  trace : List Ev := []
  deriving DecidableEq, Repr

/-- A client and the globals its functions touch. -/
structure World extends Conn where
  self : Nat
  tcpClients : List Nat
  numClients : Int
  deriving DecidableEq, Repr

/-- What lwIP answers during one event: `tcp_close`, each pass of the write loop
(`tcp_sndbuf` and then `tcp_write`; when they run out `tcp_sndbuf` is zero), and
`tcp_output`. -/
structure LwipResults where
  close : Err
  writes : List (Nat × Err)
  output : Err
  deriving DecidableEq, Repr

/-! ### Calls out of the module -/

def World.log (w : World) (e : Ev) : World := {w with trace := w.trace ++ [e]}

/-- `ASSERT`. -/
def World.assert (w : World) (p : Bool) : World := if p then w else w.log .assertFailed

def tcpArg (w : World) : World := w.log (.lwip .arg)

def tcpErr (w : World) (set : Bool) : World := {w.log (.lwip (.err set)) with pcb := {w.pcb with err := set}}

def tcpRecv (w : World) (set : Bool) : World :=
  {w.log (.lwip (.recv set)) with pcb := {w.pcb with recv := set}}

def tcpSent (w : World) (set : Bool) : World :=
  {w.log (.lwip (.sent set)) with pcb := {w.pcb with sent := set}}

/-- The three calls that remove the callbacks. -/
def removeCallbacks (w : World) : World := tcpSent (tcpRecv (tcpErr w false) false) false

def tcpClose (w : World) (r : LwipResults) : World :=
  {w.log (.lwip .close) with pcb := {w.pcb with alive := w.pcb.alive && r.close != .ok}}

def tcpAbort (w : World) : World := {w.log (.lwip .abort) with pcb := {w.pcb with alive := false}}

def bSocksClientFree (w : World) : World :=
  {w.log .socksFree with socks := {w.socks with alive := false, sending := none, receiving := false}}

/-- `StreamPassInterface_Sender_Send`. -/
def senderSend (w : World) (data : List UInt8) : World :=
  {w.log (.socks (.send data)) with socks := {w.socks with sending := some data}}

/-- `StreamRecvInterface_Receiver_Recv`. -/
def receiverRecv (w : World) : World := {w.log (.socks .recv) with socks := {w.socks with receiving := true}}

/-! ### The marker of callbacks in progress -/

/-- `*ptr = value` for a `dead_t`, if it is not null. -/
def writeDead (w : World) (ptr : Option FrameId) (value : Int) : World :=
  match ptr with
  | none => w
  | some f =>
    {w.log (.deadWrite f value) with
      frames := w.frames.map fun fr => if fr.id = f then {fr with dead := value} else fr}

/-- lwIP enters a callback, and `DEAD_ENTER(client->dead_aborted)`. -/
def callbackEnter (w : World) : World :=
  {w.log (.enter w.nextFrame) with
    frames := ⟨w.nextFrame, 0, w.cl.deadAborted⟩ :: w.frames
    nextFrame := w.nextFrame + 1
    cl := {w.cl with deadAborted := some w.nextFrame}}

/-- `DEAD_LEAVE2(client->dead_aborted)` of the frame, which then goes out of scope. -/
def deadLeave (w : World) (fr : Frame) (rest : List Frame) : World :=
  let w := if fr.dead = 0 then {w with cl := {w.cl with deadAborted := fr.prev}} else w
  writeDead {w with frames := rest} fr.prev fr.dead

/-- The end of a callback: `DEAD_LEAVE2` and `return (DEAD_KILLED > 0) ? ERR_ABRT : ERR_OK`. -/
def callbackReturn (w : World) : World :=
  match w.frames with
  | [] => w
  | fr :: rest => (deadLeave w fr rest).log (.ret fr.id (if fr.dead > 0 then .abrt else .ok))

/-! ### Closing -/

/-- `client_abort_pcb`. -/
def clientAbortPcb (w : World) : World :=
  let w := w.assert (!w.cl.aborted)
  let w := tcpAbort w
  let w : World := {w with cl := {w.cl with aborted := true}}
  writeDead w w.cl.deadAborted 1

/-- `client_dealloc`. -/
def clientDealloc (w : World) : World :=
  let w := w.assert w.cl.clientClosed
  let w := w.assert w.cl.socksClosed
  let w := w.assert (decide (w.numClients > 0))
  let w : World := {w with numClients := w.numClients - 1, tcpClients := w.tcpClients.erase w.self}
  let w := if w.cl.aborted then w else writeDead w w.cl.deadAborted (-1)
  {w.log .dealloc with allocated := false}

/-- `client->client_closed = 1`. -/
def setClientClosed (w : World) : World := {w.log .clientClosed with cl := {w.cl with clientClosed := true}}

/-- `BSocksClient_Free`, and `client->socks_closed = 1`. -/
def setSocksClosed (w : World) : World :=
  let w := bSocksClientFree w
  {w with cl := {w.cl with socksClosed := true}}

/-- There is data for the client that lwIP has not acknowledged. -/
def owesClient (w : World) : Bool :=
  w.cl.socksUp && (decide (w.cl.socksRecvBufUsed ≥ 0) || decide (w.cl.socksRecvTcpPending > 0))

/-- `tcp_close`, and `tcp_abort` where it fails. -/
def closePcb (r : LwipResults) (w : World) : World :=
  let w := tcpClose (removeCallbacks w) r
  if r.close ≠ .ok then clientAbortPcb w else w

/-- The first part of `client_free_socks`: no more input from the client, and the
SOCKS client is freed. -/
def stopSocks (w : World) : World :=
  let w := w.assert (!w.cl.socksClosed)
  let w := if w.cl.socksUp && !w.cl.clientClosed then tcpRecv w false else w
  setSocksClosed w

@[simp] theorem assert_cl (w : World) (p : Bool) : (w.assert p).cl = w.cl := by
  cases p <;> rfl

theorem closePcb_socksClosed (r : LwipResults) (w : World) :
    (closePcb r w).cl.socksClosed = w.cl.socksClosed := by
  unfold closePcb
  split
  · simp only [clientAbortPcb, writeDead, World.assert]
    split <;> split <;> rfl
  · rfl

-- The three functions call each other. `client_free_socks` sets `socks_closed`
-- before it calls, and with `socks_closed` set nothing calls it again.
mutual

/-- `client_handle_freed_client`. -/
def clientHandleFreedClient (r : LwipResults) (w : World) : World :=
  let w' := setClientClosed (w.assert (!w.cl.clientClosed))
  -- if we have data to be sent to SOCKS and can send it, keep sending
  if w.cl.buf ≠ [] ∧ w.cl.socksClosed = false then w'
  else if w.cl.socksClosed = false then clientFreeSocks r w'
  else clientDealloc w'
termination_by if w.cl.socksClosed then 1 else 4
decreasing_by simp_all

/-- `client_free_client`. -/
def clientFreeClient (r : LwipResults) (w : World) : World :=
  clientHandleFreedClient r (closePcb r (w.assert (!w.cl.clientClosed)))
termination_by if w.cl.socksClosed then 2 else 5
decreasing_by
  rw [closePcb_socksClosed, assert_cl]
  split <;> omega

/-- `client_free_socks`. -/
def clientFreeSocks (r : LwipResults) (w : World) : World :=
  let w := stopSocks w
  -- if we have data to be sent to the client and we can send it, keep sending
  if owesClient w && !w.cl.clientClosed then w
  else if !w.cl.clientClosed then clientFreeClient r w
  else clientDealloc w
termination_by 3
decreasing_by simp [stopSocks, setSocksClosed]

end

/-- `client_abort_client`. -/
def clientAbortClient (r : LwipResults) (w : World) : World :=
  let w := w.assert (!w.cl.clientClosed)
  clientHandleFreedClient r (clientAbortPcb (removeCallbacks w))

/-- `client_murder`. -/
def clientMurder (w : World) : World :=
  let w := w.log .murdered
  let w := if w.cl.clientClosed then w else setClientClosed (clientAbortPcb (removeCallbacks w))
  let w := if w.cl.socksClosed then w else setSocksClosed w
  clientDealloc w

/-- `client_err_func`: the pcb was taken care of by lwIP. -/
def clientErrFunc (r : LwipResults) (w : World) : World :=
  clientHandleFreedClient r (w.assert (!w.cl.clientClosed))

/-- `listener_accept_func` up to its `SYNC_COMMIT`, where the allocations and
`BSocksClient_Init` succeed. `w` has the new structure's address and nothing else. -/
def listenerAcceptFunc (w : World) : World :=
  let frame := w.nextFrame
  let w := w.log (.enter frame)
  -- init SOCKS
  let w : World := {w.log (.socks .init) with socks := {alive := true}}
  -- add to linked list, increment counter
  let w := w.assert (decide (w.numClients ≥ 0))
  let w : World := {w with tcpClients := w.tcpClients ++ [w.self], numClients := w.numClients + 1}
  let w : World := {w with cl := {}, allocated := true, pcb := {alive := true}}
  -- setup handlers
  let w := tcpRecv (tcpErr (tcpArg w) true) true
  {w with
    frames := [⟨frame, 0, none⟩]
    nextFrame := frame + 1
    cl := {w.cl with deadAborted := some frame}}

/-- `listener_accept_func` where an allocation or `BSocksClient_Init` fails. -/
def listenerAcceptFail (w : World) : World :=
  {(w.log (.enter w.nextFrame)).log (.ret w.nextFrame .mem) with nextFrame := w.nextFrame + 1}

/-! ### From the client to SOCKS -/

/-- `client_send_to_socks`. -/
def clientSendToSocks (w : World) : World :=
  let w := w.assert (!w.cl.socksClosed)
  let w := w.assert w.cl.socksUp
  let w := w.assert (w.cl.buf ≠ [])
  senderSend w w.cl.buf

/-- `client_recv_func` up to its `SYNC_COMMIT`; `none` is a FIN. -/
def clientRecvFunc (r : LwipResults) (w : World) (p : Option (List UInt8)) : World :=
  let w := w.assert (!w.cl.clientClosed)
  let w := callbackEnter w
  match p with
  | none => clientFreeClient r w
  | some data =>
    let w := w.assert (data ≠ [])
    if data.length > tcpWnd - w.cl.buf.length then
      -- returns at once, with the pbuf left to lwIP
      match w.frames with
      | [] => w
      | fr :: rest => (deadLeave (w.log (.noBuffer data.length)) fr rest).log (.ret fr.id .mem)
    else
      let w : World := {w.log (.accepted data) with cl := {w.cl with buf := w.cl.buf ++ data}}
      if w.cl.buf.length = data.length ∧ w.cl.socksUp then
        clientSendToSocks (w.assert (!w.cl.socksClosed))
      else w

/-- `client_socks_send_handler_done`. -/
def clientSocksSendHandlerDone (r : LwipResults) (w : World) (dataLen : Nat) : World :=
  let w := w.assert (!w.cl.socksClosed)
  let w := w.assert w.cl.socksUp
  let w := w.assert (w.cl.buf ≠ [])
  let w := w.assert (decide (dataLen > 0))
  let w := w.assert (decide (dataLen ≤ w.cl.buf.length))
  -- remove sent data from buffer
  let w : World := {w.log (.sent (w.cl.buf.take dataLen)) with cl := {w.cl with buf := w.cl.buf.drop dataLen}}
  -- confirm sent data
  let w := if w.cl.clientClosed then w else w.log (.lwip (.recved dataLen))
  if w.cl.buf ≠ [] then senderSend w w.cl.buf
  else if w.cl.clientClosed then clientFreeSocks r w
  else w

/-! ### From SOCKS to the client -/

/-- `client_socks_recv_initiate`. -/
def clientSocksRecvInitiate (w : World) : World :=
  let w := w.assert (!w.cl.clientClosed)
  let w := w.assert (!w.cl.socksClosed)
  let w := w.assert w.cl.socksUp
  let w := w.assert (w.cl.socksRecvBufUsed = -1)
  receiverRecv w

/-- The loop of `client_socks_recv_send_out`. The second component is false where
`tcp_write` failed for good. -/
def sendOutLoop (w : World) : List (Nat × Err) → World × Bool
  | [] => (w.log (.lwip .sndbuf), true)
  | (sndbuf, result) :: rest =>
    let w := w.log (.lwip .sndbuf)
    let toWrite := min (w.cl.socksRecvBufUsed.toNat - w.cl.socksRecvBufSent) sndbuf
    if toWrite = 0 then (w, true)
    else
      let data := (w.cl.socksRecvBuf.drop w.cl.socksRecvBufSent).take toWrite
      let w := w.log (.lwip (.write data result))
      match result with
      | .ok =>
        let w : World := {w with cl := {w.cl with
          socksRecvBufSent := w.cl.socksRecvBufSent + toWrite
          socksRecvTcpPending := w.cl.socksRecvTcpPending + toWrite}}
        if (w.cl.socksRecvBufSent : Int) < w.cl.socksRecvBufUsed then sendOutLoop w rest else (w, true)
      | .mem => (w, true)
      | _ => (w, false)

/-- `client_socks_recv_send_out`: false stands for the result -1, `tcp_abort` was done. -/
def clientSocksRecvSendOut (r : LwipResults) (w : World) : World × Bool :=
  let w := w.assert (!w.cl.clientClosed)
  let w := w.assert w.cl.socksUp
  let w := w.assert (decide (w.cl.socksRecvBufUsed > 0))
  let w := w.assert (decide ((w.cl.socksRecvBufSent : Int) < w.cl.socksRecvBufUsed))
  let w := w.assert (!w.cl.socksRecvWaiting)
  match sendOutLoop w r.writes with
  | (w, false) => (clientAbortClient r w, false)
  | (w, true) =>
    -- start sending now
    let w := w.log (.lwip .output)
    if r.output ≠ .ok then (clientAbortClient r w, false)
    -- more data to queue?
    else if (w.cl.socksRecvBufSent : Int) < w.cl.socksRecvBufUsed then
      if w.cl.socksRecvTcpPending = 0 then (clientAbortClient r w, false)
      -- continue in client_sent_func
      else ({w with cl := {w.cl with socksRecvWaiting := true}}, true)
    -- everything was queued
    else ({w with cl := {w.cl with socksRecvBufUsed := -1}}, true)

/-- `client_socks_recv_handler_done`. -/
def clientSocksRecvHandlerDone (r : LwipResults) (w : World) (data : List UInt8) : World :=
  let w := w.assert (decide (data.length > 0))
  let w := w.assert (decide (data.length ≤ clientSocksRecvBufSize))
  let w := w.assert (!w.cl.socksClosed)
  let w := w.assert w.cl.socksUp
  let w := w.assert (w.cl.socksRecvBufUsed = -1)
  let w := w.log (.received data)
  -- if client was closed, stop receiving
  if w.cl.clientClosed then w
  else
    let w : World := {w with cl := {w.cl with
      socksRecvBuf := data
      socksRecvBufUsed := data.length
      socksRecvBufSent := 0
      socksRecvWaiting := false}}
    match clientSocksRecvSendOut r w with
    | (w, false) => w
    -- continue receiving if needed
    | (w, true) => if w.cl.socksRecvBufUsed = -1 then clientSocksRecvInitiate w else w

/-- `client_sent_func` up to its `SYNC_COMMIT`. -/
def clientSentFunc (r : LwipResults) (w : World) (len : Nat) : World :=
  let w := w.assert (!w.cl.clientClosed)
  let w := w.assert w.cl.socksUp
  let w := w.assert (decide (len > 0))
  let w := w.assert (decide (len ≤ w.cl.socksRecvTcpPending))
  let w := callbackEnter w
  -- decrement pending
  let w : World := {w.log (.acked len) with
    cl := {w.cl with socksRecvTcpPending := w.cl.socksRecvTcpPending - len}}
  -- continue queuing
  if w.cl.socksRecvBufUsed > 0 then
    let w := w.assert w.cl.socksRecvWaiting
    let w := w.assert (decide ((w.cl.socksRecvBufSent : Int) < w.cl.socksRecvBufUsed))
    let w : World := {w with cl := {w.cl with socksRecvWaiting := false}}
    -- possibly send more data
    match clientSocksRecvSendOut r w with
    | (w, false) => w
    | (w, true) =>
      -- we just queued some data, so it can't have been confirmed yet
      let w := w.assert (decide (w.cl.socksRecvTcpPending > 0))
      if w.cl.socksRecvBufUsed = -1 ∧ w.cl.socksClosed = false then clientSocksRecvInitiate w else w
  -- have we sent everything after SOCKS was closed?
  else if w.cl.socksClosed ∧ w.cl.socksRecvTcpPending = 0 then clientFreeClient r w
  else w

/-- `client_socks_handler`. -/
def clientSocksHandler (r : LwipResults) (w : World) (event : SocksEvent) : World :=
  let w := w.assert (!w.cl.socksClosed)
  match event with
  | .error => clientFreeSocks r (w.log .socksFailed)
  | .up =>
    let w := w.assert (!w.cl.socksUp)
    -- init sending and receiving
    let w := w.log (.socks .getInterfaces)
    let w : World := {w with cl := {w.cl with socksRecvBufUsed := -1, socksRecvTcpPending := 0}}
    let w := if w.cl.clientClosed then w else tcpSent w true
    -- set up
    let w : World := {w with cl := {w.cl with socksUp := true}}
    -- start sending data if there is any
    let w := if w.cl.buf ≠ [] then clientSendToSocks w else w
    -- start receiving data if client is still up
    if w.cl.clientClosed then w else clientSocksRecvInitiate w
  | .errorClosed => clientFreeSocks r ((w.log .socksFailed).assert w.cl.socksUp)

end TwilightLine.Tcp
