import TwilightLine.Flow.PacketStreamSender
import TwilightLine.Lib.ByteMemory
import TwilightLine.Lib.Run
import TwilightLine.Misc.SocksProto

/-! The SOCKS client, `socksclient/BSocksClient.c`.

The client sends its messages from one buffer and receives the replies into it, one
exchange after the other: the methods that it offers, the password if the server asks for
it, and the request. All memory that it asks for it gets. -/
namespace TwilightLine.Socks

open Lib SocksUdp

/-- `struct BSocksClient_auth_info`. -/
inductive AuthInfo where
  | none
  | password (username password : List UInt8)
  deriving DecidableEq, Repr

/-- `auth_type`. -/
def AuthInfo.authType : AuthInfo → UInt8
  | .none => socksMethodNoAuthenticationRequired
  | .password .. => socksMethodUsernamePassword

/-! ### The messages of the client -/

/-- What `continue_job_handler` writes. -/
def hello (authInfo : List AuthInfo) : List UInt8 :=
  [socksVersion, UInt8.ofNat authInfo.length] ++ authInfo.map AuthInfo.authType

/-- The password packet. -/
def passwordPacket (username password : List UInt8) : List UInt8 :=
  [1, UInt8.ofNat username.length] ++ username ++ [UInt8.ofNat password.length] ++ password

/-- The request that `auth_finished` writes for an address with this type. -/
def request (udp : Bool) (atyp : UInt8) (destAddr : BAddr) : List UInt8 :=
  [socksVersion, if udp then socksCmdUdpAssociate else socksCmdConnect, 0, atyp] ++ destAddr.packed

/-! ### The client -/

inductive SocksState where
  | connecting
  | connectedHandler
  | sendingHello
  | sentHello
  | sendingPassword
  | sentPassword
  | sendingRequest
  | sentRequest
  | receivedReplyHeader
  | up
  deriving DecidableEq, Repr

inductive SocksEvent where
  | error
  | up
  | errorClosed
  | connected
  deriving DecidableEq, Repr

/-- `control`. A receive operation is a place in the buffer and a length. -/
structure Control where
  sendSender : PacketStreamSender
  recvIf : Transfer (Nat × Nat) Nat
  recvDest : Nat
  recvLen : Nat
  recvTotal : Nat
  deriving DecidableEq, Repr

structure BSocksClient where
  destAddr : BAddr
  udp : Bool
  bindAddr : BAddr
  state : SocksState
  buffer : Memory
  /-- The size of the buffer, if there is one. -/
  bufferSize : Option Nat
  continueJob : Bool
  /-- Between `init_control_io` and `free_control_io`. -/
  control : Option Control

/-- A client after a handler, and what it reports at the end. -/
abbrev Handled := BSocksClient × Option SocksEvent

/-- `INT_MAX`, the MTU of the sender. -/
def intMax : Nat := 2 ^ 31 - 1

/-- `init_control_io`; nothing was received before. -/
def initControlIo : Control where
  sendSender := .init intMax
  recvIf := .idle
  recvDest := 0
  recvLen := 0
  recvTotal := 0

namespace Control

/-- `do_receive`. -/
def doReceive (c : Control) : Option Control :=
  if c.recvLen < c.recvTotal then
    (c.recvIf.send (c.recvDest + c.recvLen, c.recvTotal - c.recvLen)).map fun recvIf => {c with recvIf := recvIf}
  else none

/-- `start_receive`. -/
def startReceive (c : Control) (dest total : Nat) : Option Control :=
  doReceive {c with recvDest := dest, recvLen := 0, recvTotal := total}

/-- `PacketPassInterface_Sender_Send` to `send_if`. -/
def send (c : Control) (data : List UInt8) : Option Control :=
  (c.sendSender.input.send data).map fun input => {c with sendSender := {c.sendSender with input := input}}

end Control

namespace BSocksClient

/-- `BSocksClient_Init`. -/
def init (destAddr : BAddr) (udp : Bool) (buffer : Memory) : BSocksClient where
  destAddr := destAddr
  udp := udp
  bindAddr := .none
  state := .connecting
  buffer := buffer
  bufferSize := none
  continueJob := false
  control := none

/-- `reserve_buffer`. -/
def reserveBuffer (o : BSocksClient) (size : Nat) : BSocksClient := {o with bufferSize := some size}

/-- `report_error`. -/
def reportError (o : BSocksClient) : Option Handled := some (o, some .error)

/-- The message is written to a buffer of its size and sent. -/
def sendMessage (o : BSocksClient) (c : Control) (message : List UInt8) (state : SocksState) : Option Handled :=
  let o := o.reserveBuffer message.length
  let o := {o with buffer := writeBytes o.buffer 0 message}
  (c.send (readBytes o.buffer 0 message.length)).map fun c => ({o with control := some c, state := state}, none)

/-- The next reply is received to a buffer of this size. -/
def receiveMessage (o : BSocksClient) (c : Control) (size dest total : Nat) (state : SocksState) : Option Handled :=
  (c.startReceive dest total).map fun c =>
    ({o.reserveBuffer size with control := some c, state := state}, none)

/-- `connector_handler`. -/
def connectorHandler (o : BSocksClient) (isError connectionInit : Bool) : Option Handled :=
  if o.state ≠ .connecting then none
  else if isError ∨ !connectionInit then o.reportError
  else some ({o with control := some initControlIo, state := .connectedHandler, continueJob := true}, some .connected)

/-- `connection_handler`. -/
def connectionHandler (o : BSocksClient) (recvClosed : Bool) : Option Handled :=
  if o.state = .connecting then none
  else if o.state = .up ∧ recvClosed then some (o, some .errorClosed)
  else o.reportError

/-- `continue_job_handler`. -/
def continueJobHandler (authInfo : List AuthInfo) (o : BSocksClient) (c : Control) : Option Handled :=
  if o.state ≠ .connectedHandler then none
  else if authInfo.length = 0 ∨ authInfo.length > 255 then o.reportError
  else o.sendMessage c (hello authInfo) .sendingHello

/-- `auth_finished`. -/
def authFinished (o : BSocksClient) (c : Control) : Option Handled :=
  match socksAtyp o.destAddr with
  | none => o.reportError
  | some atyp => o.sendMessage c (request o.udp atyp o.destAddr) .sendingRequest

/-- `recv_handler_done`, when the hello of the server is complete. -/
def receivedHello (authInfo : List AuthInfo) (o : BSocksClient) (c : Control) : Option Handled :=
  if o.buffer 0 ≠ socksVersion then o.reportError
  else
    match authInfo.find? fun ai => ai.authType = o.buffer 1 with
    | none => o.reportError
    | some .none => o.authFinished c
    | some (.password username password) =>
      if username.length = 0 ∨ username.length > 255 ∨ password.length = 0 ∨ password.length > 255 then
        o.reportError
      else o.sendMessage c (passwordPacket username password) .sendingPassword

/-- When the reply to the password is complete. -/
def receivedPasswordReply (o : BSocksClient) (c : Control) : Option Handled :=
  if o.buffer 0 ≠ 1 then o.reportError
  else if o.buffer 1 ≠ 0 then o.reportError
  else o.authFinished c

/-- When the header of the reply to the request is complete. The fields of the address
are set with the rest of the reply. -/
def receivedHeader (o : BSocksClient) (c : Control) : Option Handled :=
  if o.buffer 0 ≠ socksVersion then o.reportError
  else if o.buffer 1 ≠ socksRepSucceeded then o.reportError
  else if o.buffer 3 = socksAtypIpv4 then
    (c.startReceive socksReplyHeaderSize addrIpv4Size).map fun c =>
      ({o with bindAddr := .ipv4 0 0, control := some c, state := .receivedReplyHeader}, none)
  else if o.buffer 3 = socksAtypIpv6 then
    (c.startReceive socksReplyHeaderSize addrIpv6Size).map fun c =>
      ({o with bindAddr := .ipv6 (Vector.replicate 16 0) 0, control := some c, state := .receivedReplyHeader}, none)
  else o.reportError

/-- When the rest of the reply is complete. -/
def receivedReply (o : BSocksClient) : Option Handled :=
  let bindAddr :=
    match o.bindAddr with
    | .ipv4 .. => (readAddrIpv4 (readBytes o.buffer socksReplyHeaderSize addrIpv4Size)).map Prod.fst
    | .ipv6 .. => (readAddrIpv6 (readBytes o.buffer socksReplyHeaderSize addrIpv6Size)).map Prod.fst
    | .none => none
  bindAddr.map fun bindAddr =>
    ({o with bindAddr := bindAddr, bufferSize := none, control := none, state := .up}, some .up)

/-- `recv_handler_done`. -/
def recvHandlerDone (authInfo : List AuthInfo) (o : BSocksClient) (c : Control) (dataLen : Nat) : Option Handled :=
  if dataLen > c.recvTotal - c.recvLen then none
  else
    let c := {c with recvLen := c.recvLen + dataLen}
    if c.recvLen < c.recvTotal then c.doReceive.map fun c => ({o with control := some c}, none)
    else
      match o.state with
      | .sentHello => o.receivedHello authInfo c
      | .sentPassword => o.receivedPasswordReply c
      | .sentRequest => o.receivedHeader c
      | .receivedReplyHeader => o.receivedReply
      | _ => none

/-- `send_handler_done`. -/
def sendHandlerDone (o : BSocksClient) (c : Control) : Option Handled :=
  match o.state with
  | .sendingHello => o.receiveMessage c socksServerHelloSize 0 socksServerHelloSize .sentHello
  | .sendingRequest =>
    o.receiveMessage c (socksReplyHeaderSize + max addrIpv4Size addrIpv6Size) 0 socksReplyHeaderSize .sentRequest
  | .sendingPassword => o.receiveMessage c 2 0 2 .sentPassword
  | _ => none

end BSocksClient

/-! ### Runs -/

/-- A client with what it reported, sent and received. -/
structure SocksRun where
  o : BSocksClient
  freed : Bool
  events : List SocksEvent
  sent : List UInt8
  consumed : List UInt8
  /-- A handler of the client found an error in what it received or was given. -/
  refused : Bool

inductive SocksInput where
  /-- The connector has a result, and with a connection `BConnection_Init` may fail. -/
  | connectorResult (isError connectionInit : Bool)
  /-- The connection has failed, or the server has closed it. -/
  | connectionEvent (recvClosed : Bool)
  | continueJob
  /-- The jobs of the sender and of the stream. -/
  | senderOperation
  | streamOperation
  | streamDone
  | sendDone
  /-- The stream has sent some bytes. -/
  | sent (n : Nat)
  | recvOperation
  /-- Bytes were received. -/
  | received (data : List UInt8)
  | recvDone
  | setDestAddr (destAddr : BAddr)
  | free
  deriving DecidableEq, Repr

namespace SocksRun

/-- `BSocksClient_Init`. -/
def init (destAddr : BAddr) (udp : Bool) (buffer : Memory) : SocksRun :=
  ⟨.init destAddr udp buffer, false, [], [], [], false⟩

/-- After an error the user frees the object before anything else happens to it. -/
def Failed (s : SocksRun) : Prop := .error ∈ s.events ∨ .errorClosed ∈ s.events

instance (s : SocksRun) : Decidable s.Failed := inferInstanceAs (Decidable (_ ∨ _))

/-- After a handler that reports what happens outside. -/
def handled (s : SocksRun) (r : Handled) : SocksRun := {s with o := r.1, events := s.events ++ r.2.toList}

/-- After a handler that reads what the server sent or the user gave. -/
def decided (s : SocksRun) (r : Handled) : SocksRun :=
  {s.handled r with refused := s.refused || r.2 = some .error}

def setControl (s : SocksRun) (c : Control) : SocksRun := {s with o := {s.o with control := some c}}

/-- The sender does something. -/
def onSender (s : SocksRun) (f : PacketStreamSender → Option PacketStreamSender) : Option SocksRun :=
  s.o.control.bind fun c => (f c.sendSender).map fun sender => s.setControl {c with sendSender := sender}

/-- `BSocksClient_Free`: the jobs go with the interfaces. -/
def free (s : SocksRun) : SocksRun :=
  {s with o := {s.o with control := none, continueJob := false, bufferSize := none}, freed := true}

def step (authInfo : List AuthInfo) (s : SocksRun) (e : SocksInput) : Option SocksRun :=
  if s.freed then none
  else if s.Failed ∧ e ≠ .free then none
  else
    match e with
    | .connectorResult isError connectionInit => (s.o.connectorHandler isError connectionInit).map s.handled
    | .connectionEvent recvClosed => (s.o.connectionHandler recvClosed).map s.handled
    | .continueJob =>
      s.o.control.bind fun c =>
        if s.o.continueJob then
          (BSocksClient.continueJobHandler authInfo {s.o with continueJob := false} c).map s.decided
        else none
    | .senderOperation => s.onSender PacketStreamSender.inputOperation
    | .streamOperation => s.onSender PacketStreamSender.outputOperation
    | .streamDone => s.onSender PacketStreamSender.outputJobDone
    | .sendDone =>
      s.o.control.bind fun c =>
        c.sendSender.input.jobDone.bind fun input =>
          (s.o.sendHandlerDone {c with sendSender := {c.sendSender with input := input}}).map s.decided
    | .sent n =>
      s.o.control.bind fun c =>
        (c.sendSender.outputDone n).map fun r =>
          {s.setControl {c with sendSender := r.2} with sent := s.sent ++ r.1}
    | .recvOperation =>
      s.o.control.bind fun c => c.recvIf.jobOperation.map fun r => s.setControl {c with recvIf := r.2}
    | .received data =>
      s.o.control.bind fun c =>
        match c.recvIf with
        | .busy (place, n) =>
          if 0 < data.length ∧ data.length ≤ n then
            some {s with
              o := {s.o with
                buffer := writeBytes s.o.buffer place data
                control := some {c with recvIf := .donePending data.length}}
              consumed := s.consumed ++ data}
          else none
        | _ => none
    | .recvDone =>
      s.o.control.bind fun c =>
        c.recvIf.jobDone.bind fun r => (s.o.recvHandlerDone authInfo {c with recvIf := r.2} r.1).map s.decided
    | .setDestAddr destAddr =>
      if s.o.state = .connecting ∨ s.o.state = .connectedHandler then
        some {s with o := {s.o with destAddr := destAddr}}
      else none
    | .free => some s.free

end SocksRun

end TwilightLine.Socks
