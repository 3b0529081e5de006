import TwilightLine.System.IoHalf

/-! `BConnection` of `system/BConnection_unix.c`, once it is connected.

The two directions share the file descriptor: the events that are awaited are in one mask,
and any event may be reported together with errors. Which bytes are sent and received is
left out, as is the socket; the system calls give any result. Each function here fails where
an assertion does. -/
namespace TwilightLine

open Epoll (Awaited Events)

/-- `SEND_STATE_…` and `RECV_STATE_…`. -/
inductive DirectionState where
  | notInited
  | ready
  | busy
  | initedClosed
  deriving DecidableEq, Repr

/-- `send` and `recv` of a connection. -/
structure Direction extends IoHalf where
  state : DirectionState
  deriving DecidableEq, Repr

structure BConnection where
  isHupd : Bool
  /-- The events of `bfd` in the reactor, while it is active. -/
  bfd : Option Awaited
  waitEvents : Awaited
  send : Direction
  recv : Direction
  /-- An error was reported (`d_err`). -/
  error : Bool
  freed : Bool
  deriving DecidableEq, Repr

inductive ConnectionEvent where
  /-- The reactor reports events; the results are those of `write` and `read`, if they are called. -/
  | fd (events : Events) (written read : IoResult)
  | sendJob (written : IoResult)
  | recvJob (read : IoResult)
  /-- The user starts a send, the interface hands it over, and tells that it is done. -/
  | send (len : Nat)
  | sendOperation (written : IoResult)
  | sendDone
  | recv (avail : Nat)
  | recvOperation (read : IoResult)
  | recvDone
  | sendInit
  | sendFree
  | recvInit
  | recvFree
  | free
  /-- The reactor waits, and resets the limits. -/
  | wait
  deriving DecidableEq, Repr

namespace BConnection

/-- `BCONNECTION_SEND_LIMIT` and `BCONNECTION_RECV_LIMIT`. -/
def sendLimit : Nat := 2

def recvLimit : Nat := 2

/-- `BReactor_SetFileDescriptorEvents`, with `wait_events`. -/
def setEvents (o : BConnection) : Option BConnection := o.bfd.map fun _ => {o with bfd := some o.waitEvents}

/-- `BReactor_RemoveFileDescriptor`. -/
def removeFileDescriptor (o : BConnection) : Option BConnection := o.bfd.map fun _ => {o with bfd := none}

/-- `connection_report_error`. -/
def reportError (o : BConnection) : Option BConnection := if o.error = false then some {o with error := true} else none

/-- A send waits for the file descriptor. -/
def awaitWrite (o : BConnection) : Option BConnection := {o with waitEvents := {o.waitEvents with write := true}}.setEvents

def awaitRead (o : BConnection) : Option BConnection := {o with waitEvents := {o.waitEvents with read := true}}.setEvents

/-- `connection_send`. -/
def connectionSend (o : BConnection) (written : IoResult) : Option BConnection :=
  if o.error = false ∧ o.send.state = .busy then
    match if o.isHupd then some o.send.limit else o.send.limit.increment with
    | none => o.awaitWrite
    | some limit =>
      let o := {o with send := {o.send with limit := limit}}
      match written with
      | .wouldBlock => if o.isHupd then o.reportError else o.awaitWrite
      | .failed => o.reportError
      | .bytes n =>
        if n > 0 then (o.send.complete n).map fun half => {o with send := ⟨half, .ready⟩} else none
  else none

/-- `connection_recv`. -/
def connectionRecv (o : BConnection) (read : IoResult) : Option BConnection :=
  if o.error = false ∧ o.recv.state = .busy then
    match if o.isHupd then some o.recv.limit else o.recv.limit.increment with
    | none => o.awaitRead
    | some limit =>
      let o := {o with recv := {o.recv with limit := limit}}
      match read with
      | .wouldBlock => if o.isHupd then o.reportError else o.awaitRead
      | .failed => o.reportError
      | .bytes 0 => some {o with recv := {o.recv with state := .initedClosed}}
      | .bytes n => (o.recv.complete n).map fun half => {o with recv := ⟨half, .ready⟩}
  else none

/-- `wait_events &= ~events`. -/
def clearEvents (o : BConnection) (events : Events) : BConnection :=
  {o with waitEvents := ⟨o.waitEvents.read && !events.read, o.waitEvents.write && !events.write⟩}

/-- The end of monitoring. -/
def hangUp (o : BConnection) (events : Events) : Option BConnection :=
  if events.hup = true then o.removeFileDescriptor.map fun o => {o with isHupd := true} else some o

/-- `have_send`. -/
def haveSend (o : BConnection) (events : Events) : Bool :=
  events.write || (events.error || events.hup) && decide (o.send.state = .busy)

/-- `have_recv`. -/
def haveRecv (o : BConnection) (events : Events) : Bool :=
  events.read || (events.error || events.hup) && decide (o.recv.state = .busy)

/-- `connection_fd_handler`, after the events were cleared. -/
def handleEvents (o : BConnection) (events : Events) (written read : IoResult) : Option BConnection :=
  if (o.haveSend events = true → o.send.state = .busy) ∧ (o.haveRecv events = true → o.recv.state = .busy) then
    if o.haveSend events then
      (if o.haveRecv events then {o with recv := {o.recv with job := true}} else o).connectionSend written
    else if o.haveRecv events then o.connectionRecv read
    else if o.isHupd then some o
    else o.reportError
  else none

/-- `connection_fd_handler`. -/
def fdHandler (o : BConnection) (events : Events) (written read : IoResult) : Option BConnection :=
  if o.error = false ∧ o.isHupd = false then
    ((o.clearEvents events).setEvents.bind (·.hangUp events)).bind (·.handleEvents events written read)
  else none

/-- `connection_send_if_handler_send`, with the interface's part. -/
def sendOperation (o : BConnection) (written : IoResult) : Option BConnection :=
  if o.error = false ∧ o.send.state = .ready then
    o.send.operation.bind fun half =>
      if half.busyLen > 0 then {o with send := ⟨half, .busy⟩}.connectionSend written else none
  else none

/-- `connection_recv_if_handler_recv`. -/
def recvOperation (o : BConnection) (read : IoResult) : Option BConnection :=
  if o.error = false ∧ o.recv.state = .ready then
    o.recv.operation.bind fun half =>
      if half.busyLen > 0 then {o with recv := ⟨half, .busy⟩}.connectionRecv read else none
  else none

/-- `BConnection_SendAsync_Init`. -/
def sendInit (o : BConnection) : Option BConnection :=
  if o.error = false ∧ o.send.state = .notInited then some {o with send := ⟨o.send.create, .ready⟩} else none

/-- `BConnection_RecvAsync_Init`. -/
def recvInit (o : BConnection) : Option BConnection :=
  if o.error = false ∧ o.recv.state = .notInited then some {o with recv := ⟨o.recv.create, .ready⟩} else none

/-- `BConnection_SendAsync_Free`. -/
def sendFree (o : BConnection) : Option BConnection :=
  if o.send.state = .ready ∨ o.send.state = .busy then
    (if o.isHupd then some o else {o with waitEvents := {o.waitEvents with write := false}}.setEvents).map fun o =>
      {o with send := ⟨o.send.drop, .notInited⟩}
  else none

/-- `BConnection_RecvAsync_Free`. -/
def recvFree (o : BConnection) : Option BConnection :=
  if o.recv.state = .ready ∨ o.recv.state = .busy ∨ o.recv.state = .initedClosed then
    (if o.isHupd then some o else {o with waitEvents := {o.waitEvents with read := false}}.setEvents).map fun o =>
      {o with recv := ⟨o.recv.drop, .notInited⟩}
  else none

/-- `BConnection_Free`. -/
def free (o : BConnection) : Option BConnection :=
  if o.send.state = .notInited ∧ o.recv.state = .notInited then
    (if o.isHupd then some o else o.removeFileDescriptor).map fun o => {o with freed := true}
  else none

/-- `BConnection_Init`, once the file descriptor is monitored. -/
def init : BConnection where
  isHupd := false
  bfd := some ⟨false, false⟩
  waitEvents := ⟨false, false⟩
  send := ⟨⟨.init sendLimit, .idle, false, 0, []⟩, .notInited⟩
  recv := ⟨⟨.init recvLimit, .idle, false, 0, []⟩, .notInited⟩
  error := false
  freed := false

/-- What can happen. The reactor reports events while no job is pending, `READ` and `WRITE` only
where they are awaited. After an error, and once it is freed, the user does nothing with the
connection but free it. -/
def Allowed (o : BConnection) : ConnectionEvent → Prop
  | .fd events written read => o.freed = false ∧ o.error = false ∧ o.send.Quiet ∧ o.recv.Quiet ∧
      (∃ awaited, o.bfd = some awaited ∧ (events.read = true → awaited.read = true) ∧
        (events.write = true → awaited.write = true)) ∧
      written.Fits o.send.busyLen ∧ read.Fits o.recv.busyLen
  | .sendJob written => o.freed = false ∧ o.error = false ∧ o.send.job = true ∧ written.Fits o.send.busyLen
  | .recvJob read => o.freed = false ∧ o.error = false ∧ o.recv.job = true ∧ read.Fits o.recv.busyLen
  | .send len => o.freed = false ∧ o.error = false ∧ 0 < len ∧ o.send.state ≠ .notInited ∧ o.send.iface = .idle
  | .sendOperation written => o.freed = false ∧ o.error = false ∧
      ∃ len, o.send.iface = .operationPending len ∧ written.Fits len
  | .sendDone => o.freed = false ∧ o.error = false ∧ ∃ n, o.send.iface = .donePending n
  | .recv avail => o.freed = false ∧ o.error = false ∧ 0 < avail ∧ o.recv.state ≠ .notInited ∧ o.recv.iface = .idle
  | .recvOperation read => o.freed = false ∧ o.error = false ∧
      ∃ avail, o.recv.iface = .operationPending avail ∧ read.Fits avail
  | .recvDone => o.freed = false ∧ o.error = false ∧ ∃ n, o.recv.iface = .donePending n
  | .sendInit => o.freed = false ∧ o.error = false ∧ o.send.state = .notInited
  | .recvInit => o.freed = false ∧ o.error = false ∧ o.recv.state = .notInited
  | .sendFree => o.freed = false ∧ o.send.state ≠ .notInited
  | .recvFree => o.freed = false ∧ o.recv.state ≠ .notInited
  | .free => o.freed = false ∧ o.send.state = .notInited ∧ o.recv.state = .notInited
  | .wait => True

/-- One event. -/
def step (o : BConnection) : ConnectionEvent → Option BConnection
  | .fd events written read => o.fdHandler events written read
  | .sendJob written => {o with send := {o.send with job := false}}.connectionSend written
  | .recvJob read => {o with recv := {o.recv with job := false}}.connectionRecv read
  | .send len => (o.send.start len).map fun half => {o with send := ⟨half, o.send.state⟩}
  | .sendOperation written => o.sendOperation written
  | .sendDone => o.send.tell.map fun half => {o with send := ⟨half, o.send.state⟩}
  | .recv avail => (o.recv.start avail).map fun half => {o with recv := ⟨half, o.recv.state⟩}
  | .recvOperation read => o.recvOperation read
  | .recvDone => o.recv.tell.map fun half => {o with recv := ⟨half, o.recv.state⟩}
  | .sendInit => o.sendInit
  | .sendFree => o.sendFree
  | .recvInit => o.recvInit
  | .recvFree => o.recvFree
  | .free => o.free
  | .wait =>
    some {o with
      send := {o.send with limit := o.send.limit.reset}
      recv := {o.recv with limit := o.recv.limit.reset}}

/-- What holds of a connection between two events. -/
structure Sound (o : BConnection) : Prop where
  /-- While the file descriptor is monitored, `WRITE` is awaited for a send only, -/
  write : ∀ awaited, o.bfd = some awaited → awaited.write = true → o.send.state = .busy
  /-- and `READ` for a receive. -/
  read : ∀ awaited, o.bfd = some awaited → awaited.read = true → o.recv.state = .busy
  /-- After a hang-up it is not monitored. -/
  hupd : o.isHupd = true → o.bfd = none
  /-- A send completes at most once, with at least one byte and at most those asked for, -/
  sends : o.send.Books 1
  /-- and so does a receive. -/
  recvs : o.recv.Books 1

/-! ### The condition -/

/-- `connection_send` calls `write`. -/
def Writes (o : BConnection) : Prop := o.isHupd = true ∨ o.send.limit.count < o.send.limit.limit

/-- `connection_recv` calls `read`. -/
def Reads (o : BConnection) : Prop := o.isHupd = true ∨ o.recv.limit.count < o.recv.limit.limit

/-- If `write` is called it does not send nothing, and nothing is sent while `WRITE` is still awaited. -/
def SendMeets (o : BConnection) (written : IoResult) : Prop :=
  o.Writes → written ≠ .bytes 0 ∧ (o.isHupd = false → o.waitEvents.write = true → ∀ n, written ≠ .bytes n)

/-- If `read` is called, nothing is received and no end found while `READ` is still awaited. -/
def RecvMeets (o : BConnection) (read : IoResult) : Prop :=
  o.Reads → o.isHupd = false → o.waitEvents.read = true → ∀ n, read ≠ .bytes n

/-- The condition for the attempt that an event leads to. -/
def Meets (o : BConnection) : ConnectionEvent → Prop
  | .fd events written read =>
    let o' := {o.clearEvents events with isHupd := events.hup}
    (o.haveSend events = true → o'.SendMeets written) ∧
      (o.haveSend events = false → o.haveRecv events = true → o'.RecvMeets read)
  | .sendJob written => o.SendMeets written
  | .sendOperation written => o.SendMeets written
  | .recvJob read => o.RecvMeets read
  | .recvOperation read => o.RecvMeets read
  | _ => True

end BConnection

end TwilightLine
