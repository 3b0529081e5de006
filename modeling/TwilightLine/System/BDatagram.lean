import TwilightLine.System.IoHalf

/-! `BDatagram` of `system/BDatagram_unix.c`.

A packet may be submitted before the addresses are known, and a receive before receiving has
started; it is kept until then. The two halves share the file descriptor. Which bytes and
which addresses are sent and received is left out, as is the socket; the system calls give
any result. Each function here fails where an assertion does. -/
namespace TwilightLine

open Epoll (Awaited Events)

/-- `send` and `recv` of a datagram socket. -/
structure DatagramHalf extends IoHalf where
  /-- `send.have_addrs`, and `recv.started`. -/
  enabled : Bool
  inited : Bool
  mtu : Nat
  busy : Bool
  deriving DecidableEq, Repr

namespace DatagramHalf

/-- The operation can be carried out. -/
def Running (h : DatagramHalf) : Prop := h.inited = true ∧ h.busy = true ∧ h.enabled = true

instance (h : DatagramHalf) : Decidable h.Running := inferInstanceAs (Decidable (_ ∧ _))

/-- The addresses become known, or receiving starts: an operation that was kept continues. -/
def enable (h : DatagramHalf) : DatagramHalf :=
  if h.enabled then h else {h with enabled := true, job := h.job || (h.inited && h.busy)}

/-- The interface hands an operation over, which is kept unless it can be carried out. -/
def accept (h : DatagramHalf) : Option DatagramHalf :=
  if h.inited = true ∧ h.busy = false then
    h.operation.bind fun half =>
      if half.busyLen ≤ h.mtu then
        some {h with toIoHalf := {half with job := half.job || h.enabled}, busy := true}
      else none
  else none

/-- The interface and the job are new. -/
def init (h : DatagramHalf) (mtu : Nat) : DatagramHalf :=
  {h with toIoHalf := h.create, mtu := mtu, busy := false, inited := true}

/-- The interface and the job are freed. -/
def free (h : DatagramHalf) : DatagramHalf := {h with toIoHalf := h.drop, inited := false}

end DatagramHalf

structure BDatagram where
  /-- The events of `bfd` in the reactor, while it is active. -/
  bfd : Option Awaited
  waitEvents : Awaited
  send : DatagramHalf
  recv : DatagramHalf
  /-- An error was reported (`d_err`). -/
  error : Bool
  freed : Bool
  deriving DecidableEq, Repr

inductive DatagramEvent where
  /-- The reactor reports events; the results are those of `sendmsg` and `recvmsg`, if they are called. -/
  | fd (events : Events) (sent received : IoResult)
  | sendJob (sent : IoResult)
  | recvJob (received : IoResult)
  /-- The user submits a packet, the interface hands it over, and tells that it is done. -/
  | send (len : Nat)
  | sendOperation
  | sendDone
  | recv
  | recvOperation
  | recvDone
  /-- `bind` may fail. -/
  | bind (works : Bool)
  | setSendAddrs
  | sendInit (mtu : Nat)
  | sendFree
  | recvInit (mtu : Nat)
  | recvFree
  | free
  /-- The reactor waits, and resets the limits. -/
  | wait
  deriving DecidableEq, Repr

namespace BDatagram

/-- `BDATAGRAM_SEND_LIMIT` and `BDATAGRAM_RECV_LIMIT`. -/
def sendLimit : Nat := 2

def recvLimit : Nat := 2

/-- `BReactor_SetFileDescriptorEvents`, with `wait_events`. -/
def setEvents (o : BDatagram) : Option BDatagram := o.bfd.map fun _ => {o with bfd := some o.waitEvents}

/-- `report_error`. -/
def reportError (o : BDatagram) : Option BDatagram := if o.error = false then some {o with error := true} else none

/-- A send waits for the file descriptor. -/
def awaitWrite (o : BDatagram) : Option BDatagram := {o with waitEvents := {o.waitEvents with write := true}}.setEvents

def awaitRead (o : BDatagram) : Option BDatagram := {o with waitEvents := {o.waitEvents with read := true}}.setEvents

/-- `do_send`. -/
def doSend (o : BDatagram) (sent : IoResult) : Option BDatagram :=
  if o.error = false ∧ o.send.Running then
    match o.send.limit.increment with
    | none => o.awaitWrite
    | some limit =>
      let o := {o with send := {o.send with limit := limit}}
      match sent with
      | .wouldBlock => o.awaitWrite
      | .failed => o.reportError
      | .bytes n =>
        -- a socket that was sent from is bound
        (o.send.complete n).map fun half =>
          {o with recv := o.recv.enable, send := {o.send with toIoHalf := half, busy := false}}
  else none

/-- `do_recv`. -/
def doRecv (o : BDatagram) (received : IoResult) : Option BDatagram :=
  if o.error = false ∧ o.recv.Running then
    match o.recv.limit.increment with
    | none => o.awaitRead
    | some limit =>
      let o := {o with recv := {o.recv with limit := limit}}
      match received with
      | .wouldBlock => o.awaitRead
      | .failed => o.reportError
      | .bytes n =>
        if n ≤ o.recv.mtu then
          (o.recv.complete n).map fun half => {o with recv := {o.recv with toIoHalf := half, busy := false}}
        else none
  else none

/-- `wait_events &= ~events`. -/
def clearEvents (o : BDatagram) (events : Events) : BDatagram :=
  {o with waitEvents := ⟨o.waitEvents.read && !events.read, o.waitEvents.write && !events.write⟩}

/-- `have_send`. -/
def haveSend (o : BDatagram) (events : Events) : Bool :=
  events.write || (events.error || events.hup) && decide o.send.Running

/-- `have_recv`. -/
def haveRecv (o : BDatagram) (events : Events) : Bool :=
  events.read || (events.error || events.hup) && decide o.recv.Running

/-- `fd_handler`, after the events were cleared. -/
def handleEvents (o : BDatagram) (events : Events) (sent received : IoResult) : Option BDatagram :=
  if (o.haveSend events = true → o.send.Running) ∧ (o.haveRecv events = true → o.recv.Running) then
    if o.haveSend events then
      (if o.haveRecv events then {o with recv := {o.recv with job := true}} else o).doSend sent
    else if o.haveRecv events then o.doRecv received
    else o.reportError
  else none

/-- `fd_handler`. -/
def fdHandler (o : BDatagram) (events : Events) (sent received : IoResult) : Option BDatagram :=
  if o.error = false then (o.clearEvents events).setEvents.bind (·.handleEvents events sent received) else none

/-- `send_if_handler_send`, with the interface's part. -/
def sendOperation (o : BDatagram) : Option BDatagram :=
  if o.error = false then o.send.accept.map fun half => {o with send := half} else none

/-- `recv_if_handler_recv`, with the interface's part. -/
def recvOperation (o : BDatagram) : Option BDatagram :=
  if o.error = false then o.recv.accept.map fun half => {o with recv := half} else none

/-- `BDatagram_Bind`, for an address of a family that is supported. -/
def bind (o : BDatagram) (works : Bool) : Option BDatagram :=
  if o.error = false then some (if works then {o with recv := o.recv.enable} else o) else none

/-- `BDatagram_SetSendAddrs`, for addresses of families that are supported. -/
def setSendAddrs (o : BDatagram) : Option BDatagram :=
  if o.error = false then some {o with send := o.send.enable} else none

/-- `BDatagram_SendAsync_Init`. -/
def sendInit (o : BDatagram) (mtu : Nat) : Option BDatagram :=
  if o.error = false ∧ o.send.inited = false then some {o with send := o.send.init mtu} else none

/-- `BDatagram_RecvAsync_Init`. -/
def recvInit (o : BDatagram) (mtu : Nat) : Option BDatagram :=
  if o.error = false ∧ o.recv.inited = false then some {o with recv := o.recv.init mtu} else none

/-- `BDatagram_SendAsync_Free`. -/
def sendFree (o : BDatagram) : Option BDatagram :=
  if o.send.inited = true then
    {o with waitEvents := {o.waitEvents with write := false}}.setEvents.map fun o : BDatagram => {o with send := o.send.free}
  else none

/-- `BDatagram_RecvAsync_Free`. -/
def recvFree (o : BDatagram) : Option BDatagram :=
  if o.recv.inited = true then
    {o with waitEvents := {o.waitEvents with read := false}}.setEvents.map fun o : BDatagram => {o with recv := o.recv.free}
  else none

/-- `BDatagram_Free`. -/
def free (o : BDatagram) : Option BDatagram :=
  if o.recv.inited = false ∧ o.send.inited = false then o.bfd.map fun _ => {o with bfd := none, freed := true} else none

/-- `BDatagram_Init`, once the file descriptor is monitored. -/
def init : BDatagram where
  bfd := some ⟨false, false⟩
  waitEvents := ⟨false, false⟩
  send := ⟨⟨.init sendLimit, .idle, false, 0, []⟩, false, false, 0, false⟩
  recv := ⟨⟨.init recvLimit, .idle, false, 0, []⟩, false, false, 0, false⟩
  error := false
  freed := false

/-- What can happen. The reactor reports events while no job is pending, `READ` and `WRITE` only
where they are awaited. After an error, and once it is freed, the user does nothing with the
socket but free it. -/
def Allowed (o : BDatagram) : DatagramEvent → Prop
  | .fd events sent received => o.freed = false ∧ o.error = false ∧ o.send.Quiet ∧ o.recv.Quiet ∧
      (∃ awaited, o.bfd = some awaited ∧ (events.read = true → awaited.read = true) ∧
        (events.write = true → awaited.write = true)) ∧
      sent.Fits o.send.busyLen ∧ received.Fits o.recv.busyLen
  | .sendJob sent => o.freed = false ∧ o.error = false ∧ o.send.job = true ∧ sent.Fits o.send.busyLen
  | .recvJob received => o.freed = false ∧ o.error = false ∧ o.recv.job = true ∧ received.Fits o.recv.busyLen
  | .send len => o.freed = false ∧ o.error = false ∧ o.send.inited = true ∧ len ≤ o.send.mtu ∧ o.send.iface = .idle
  | .sendOperation => o.freed = false ∧ o.error = false ∧ ∃ len, o.send.iface = .operationPending len
  | .sendDone => o.freed = false ∧ o.error = false ∧ ∃ n, o.send.iface = .donePending n
  | .recv => o.freed = false ∧ o.error = false ∧ o.recv.inited = true ∧ o.recv.iface = .idle
  | .recvOperation => o.freed = false ∧ o.error = false ∧ ∃ len, o.recv.iface = .operationPending len
  | .recvDone => o.freed = false ∧ o.error = false ∧ ∃ n, o.recv.iface = .donePending n
  | .bind _ => o.freed = false ∧ o.error = false
  | .setSendAddrs => o.freed = false ∧ o.error = false
  | .sendInit _ => o.freed = false ∧ o.error = false ∧ o.send.inited = false
  | .recvInit _ => o.freed = false ∧ o.error = false ∧ o.recv.inited = false
  | .sendFree => o.freed = false ∧ o.send.inited = true
  | .recvFree => o.freed = false ∧ o.recv.inited = true
  | .free => o.freed = false ∧ o.recv.inited = false ∧ o.send.inited = false
  | .wait => True

/-- One event. -/
def step (o : BDatagram) : DatagramEvent → Option BDatagram
  | .fd events sent received => o.fdHandler events sent received
  | .sendJob sent => {o with send := {o.send with job := false}}.doSend sent
  | .recvJob received => {o with recv := {o.recv with job := false}}.doRecv received
  | .send len => (o.send.start len).map fun half => {o with send := {o.send with toIoHalf := half}}
  | .sendOperation => o.sendOperation
  | .sendDone => o.send.tell.map fun half => {o with send := {o.send with toIoHalf := half}}
  -- a receive is for one datagram, of at most the MTU
  | .recv => (o.recv.start o.recv.mtu).map fun half => {o with recv := {o.recv with toIoHalf := half}}
  | .recvOperation => o.recvOperation
  | .recvDone => o.recv.tell.map fun half => {o with recv := {o.recv with toIoHalf := half}}
  | .bind works => o.bind works
  | .setSendAddrs => o.setSendAddrs
  | .sendInit mtu => o.sendInit mtu
  | .sendFree => o.sendFree
  | .recvInit mtu => o.recvInit mtu
  | .recvFree => o.recvFree
  | .free => o.free
  | .wait =>
    some {o with
      send := {o.send with limit := o.send.limit.reset}
      recv := {o.recv with limit := o.recv.limit.reset}}

/-- What holds of a datagram socket between two events. -/
structure Sound (o : BDatagram) : Prop where
  /-- `WRITE` is awaited for a send whose addresses are known only, -/
  write : ∀ awaited, o.bfd = some awaited → awaited.write = true → o.send.Running
  /-- and `READ` for a receive, once receiving has started. -/
  read : ∀ awaited, o.bfd = some awaited → awaited.read = true → o.recv.Running
  /-- A packet is completed at most once, after one system call that sent it, -/
  sends : o.send.Books 0
  /-- and a receive after one that received a datagram, with its length. -/
  recvs : o.recv.Books 0
  /-- A packet that can be sent is not forgotten, -/
  sendGoesOn : o.freed = false → o.error = false → o.send.Running →
    o.send.job = true ∨ ∃ awaited, o.bfd = some awaited ∧ awaited.write = true
  /-- nor a receive. -/
  recvGoesOn : o.freed = false → o.error = false → o.recv.Running →
    o.recv.job = true ∨ ∃ awaited, o.bfd = some awaited ∧ awaited.read = true

/-! ### The condition -/

/-- If `sendmsg` is called, nothing is sent while `WRITE` is still awaited. -/
def SendMeets (o : BDatagram) (sent : IoResult) : Prop :=
  o.send.limit.count < o.send.limit.limit → o.waitEvents.write = true → ∀ n, sent ≠ .bytes n

/-- If `recvmsg` is called, nothing is received while `READ` is still awaited. -/
def RecvMeets (o : BDatagram) (received : IoResult) : Prop :=
  o.recv.limit.count < o.recv.limit.limit → o.waitEvents.read = true → ∀ n, received ≠ .bytes n

/-- The condition for the attempt that an event leads to. -/
def Meets (o : BDatagram) : DatagramEvent → Prop
  | .fd events sent received =>
    let o' := o.clearEvents events
    (o.haveSend events = true → o'.SendMeets sent) ∧
      (o.haveSend events = false → o.haveRecv events = true → o'.RecvMeets received)
  | .recvJob received => o.RecvMeets received
  | _ => True

end BDatagram

end TwilightLine
