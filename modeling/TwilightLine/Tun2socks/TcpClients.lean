import TwilightLine.Lib.Run
import TwilightLine.Tun2socks.TcpClient

/-! All TCP clients of tun2socks, and what may happen to them.

`step` lets one event happen to one client: a callback of lwIP while it is set on a
live pcb, an event or a completion of a live SOCKS client, a `client_murder`, or the
return of a callback in progress. `Sys` is every client that was ever accepted, with
the list and the counter, and `sysStep` an event of one of them or an accept. No
order is imposed on events, so that other handlers also run between the two halves
of a callback, of this client and of any other. -/
namespace TwilightLine.Tcp

open Trace

/-- The bytes handed to `tcp_write` and accepted by it. -/
def Ev.writtenData : Ev → List UInt8
  | .lwip (.write data .ok) => data
  | _ => []

/-- The number of bytes lwIP reports acknowledged. -/
def Ev.ackedLen : Ev → Nat
  | .acked n => n
  | _ => 0

/-- An event of one client, with what lwIP answers while it is handled. -/
inductive Event where
  /-- `client_recv_func`; `none` is a FIN. -/
  | recv (p : Option (List UInt8)) (r : LwipResults)
  /-- `client_sent_func`. -/
  | sent (len : Nat) (r : LwipResults)
  /-- `client_err_func`: lwIP has freed the pcb. -/
  | err (r : LwipResults)
  /-- `client_socks_handler`. -/
  | socks (event : SocksEvent) (r : LwipResults)
  /-- `client_socks_send_handler_done`. -/
  | sendDone (dataLen : Nat) (r : LwipResults)
  /-- `client_socks_recv_handler_done`. -/
  | recvDone (data : List UInt8) (r : LwipResults)
  /-- `client_murder`. -/
  | murder
  /-- The innermost callback in progress returns. -/
  | ret
  deriving DecidableEq, Repr

/-- The event can happen now. -/
def Enabled (w : World) : Event → Prop
  | .recv p _ => w.pcb.alive ∧ w.pcb.recv ∧ p ≠ some []
  | .sent len _ => w.pcb.alive ∧ w.pcb.sent ∧ 0 < len ∧ total Ev.ackedLen w.trace + len ≤ (gather Ev.writtenData w.trace).length
  | .err _ => w.pcb.alive ∧ w.pcb.err
  | .socks event _ =>
    w.socks.alive ∧ (event = .up → w.socks.up = false) ∧ (event = .errorClosed → w.socks.up)
  | .sendDone n _ => 0 < n ∧ ∃ data ∈ w.socks.sending, n ≤ data.length
  | .recvDone data _ => w.socks.receiving ∧ data ≠ [] ∧ data.length ≤ clientSocksRecvBufSize
  | .murder => w.self ∈ w.tcpClients
  | .ret => w.frames ≠ []

instance (w : World) (e : Event) : Decidable (Enabled w e) := by
  cases e <;> unfold Enabled <;> infer_instance

/-- What the event does. A completion ends the operation before its handler runs. -/
def handle (w : World) : Event → World
  | .recv p r => clientRecvFunc r w p
  | .sent len r => clientSentFunc r w len
  | .err r => clientErrFunc r {w with pcb := {w.pcb with alive := false}}
  | .socks event r =>
    clientSocksHandler r {w with socks := {w.socks with up := w.socks.up || event == .up}} event
  | .sendDone n r => clientSocksSendHandlerDone r {w with socks := {w.socks with sending := none}} n
  | .recvDone data r => clientSocksRecvHandlerDone r {w with socks := {w.socks with receiving := false}} data
  | .murder => clientMurder w
  | .ret => callbackReturn w

def step (w : World) (e : Event) : Option World := if Enabled w e then some (handle w e) else none

theorem step_some {w w' : World} {e : Event} (h : step w e = some w') : Enabled w e ∧ w' = handle w e := by
  unfold step at h
  split at h
  · next he => exact ⟨he, (Option.some.inj h).symm⟩
  · cases h

/-! ### The system -/

/-- Every client ever accepted, by its address, with the globals. -/
structure Sys where
  conns : Nat → Conn := fun _ => {}
  /-- The address of the next client. -/
  next : Nat := 0
  tcpClients : List Nat := []
  numClients : Int := 0

namespace Sys

/-- One client and the globals. -/
def world (s : Sys) (i : Nat) : World :=
  {s.conns i with self := i, tcpClients := s.tcpClients, numClients := s.numClients}

/-- The system after something happened to client `i`. -/
def put (s : Sys) (i : Nat) (w : World) : Sys :=
  {s with
    conns := fun j => if j = i then w.toConn else s.conns j
    tcpClients := w.tcpClients
    numClients := w.numClients}

end Sys

inductive SysEvent where
  /-- `listener_accept_func`; whether the allocations and `BSocksClient_Init` succeed. -/
  | accept (ok : Bool)
  | client (i : Nat) (e : Event)
  deriving DecidableEq, Repr

def sysStep (s : Sys) : SysEvent → Option Sys
  | .accept ok =>
    let w := if ok then listenerAcceptFunc (s.world s.next) else listenerAcceptFail (s.world s.next)
    some {s.put s.next w with next := s.next + 1}
  | .client i e => (step (s.world i) e).map (s.put i)

/-- The states tun2socks can be in. -/
def Reachable (s : Sys) : Prop := ∃ es, Run.run sysStep {} es = some s

end TwilightLine.Tcp
