import Mathlib.Logic.Function.Basic
import TwilightLine.Lib.Run
import TwilightLine.Misc.SocksProto

/-! The SOCKS-UDP client, `socks_udp_client/SocksUdpClient.c`.

Datagrams from one local address share a connection: a SOCKS association and a UDP
socket to the relay. The datagrams that the relay sends back are handed to that local
address. A connection is freed when its SOCKS client or its socket fails, when it was
idle for too long, or, where it carried a single DNS query, with the answer.

When the send buffer asks the writer for the next message (`Event.ready`) and when the
socket delivers a datagram is left to the run. -/
namespace TwilightLine.SocksUdp

abbrev Ptr := Nat

/-! ### Messages -/

/-- `sizeof(struct socks_udp_header)`: RSV, FRAG and ATYP. -/
def socksUdpHeaderSize : Nat := 4

/-- `compute_socks_mtu`, where the sum is an `int`. -/
def computeSocksMtu (udpMtu : Nat) : Nat := udpMtu + (socksUdpHeaderSize + addrIpv6Size)

/-- The message that `connection_send` writes. -/
def socksUdpMessage (atyp : UInt8) (remoteAddr : BAddr) (data : List UInt8) : List UInt8 :=
  [0, 0, 0, atyp] ++ remoteAddr.packed ++ data

/-- The header and the address, as `recv_if_handler_send` reads them. -/
def parseSocksUdp (data : List UInt8) : Option (BAddr × List UInt8) :=
  if data.length < socksUdpHeaderSize then none
  else if data.getD 3 0 = socksAtypIpv4 then readAddrIpv4 (data.drop socksUdpHeaderSize)
  else if data.getD 3 0 = socksAtypIpv6 then readAddrIpv6 (data.drop socksUdpHeaderSize)
  else none

def dnsPort : UInt16 := 53

/-- `get_dns_id`. -/
def getDnsId (remoteAddr : BAddr) (data : List UInt8) : Int :=
  if ntoh16 remoteAddr.getPort = dnsPort ∧ data.length ≥ 2 then
    (data.getD 0 0).toNat * 256 + (data.getD 1 0).toNat
  else -1

/-! ### The client -/

/-- `struct SocksUdpClient_connection`. -/
structure Connection where
  localAddr : BAddr
  /-- `first_remote_addr` and `first_data`, until the first job has sent them. -/
  first : Option (BAddr × List UInt8)
  dnsId : Int
  /-- `send_writer.out_have`. -/
  outHave : Bool
  deriving DecidableEq, Repr

inductive Entry where
  /-- A message was written to the send buffer of the connection of a local address. -/
  | written (localAddr : BAddr) (message : List UInt8)
  /-- `handler_received`. -/
  | received (localAddr remoteAddr : BAddr) (data : List UInt8)
  deriving DecidableEq, Repr

/-- The arguments of `SocksUdpClient_Init`. -/
structure Config where
  udpMtu : Nat
  maxConnections : Nat
  deriving DecidableEq, Repr

structure Client where
  cfg : Config
  con : Ptr → Connection
  /-- The next address that the allocator returns. -/
  fresh : Ptr
  connectionsTree : List Ptr
  numConnections : Nat
  log : List Entry

namespace Client

/-- `find_connection`. -/
def findConnection (o : Client) (addr : BAddr) : Option Ptr :=
  o.connectionsTree.find? fun p => bAddrCompareOrder addr (o.con p).localAddr = 0

/-- `connection_free`. -/
def connectionFree (o : Client) (p : Ptr) : Client :=
  {o with numConnections := o.numConnections - 1, connectionsTree := o.connectionsTree.erase p}

def setDnsId (o : Client) (p : Ptr) (dnsId : Int) : Client :=
  {o with con := Function.update o.con p {o.con p with dnsId := dnsId}}

/-- `connection_send`. -/
def connectionSend (o : Client) (p : Ptr) (remoteAddr : BAddr) (data : List UInt8) : Client :=
  let o :=
    if (o.con p).dnsId ≥ 0 ∧ getDnsId remoteAddr data ≠ (o.con p).dnsId then o.setDnsId p (-1) else o
  match socksAtyp remoteAddr with
  | none => o
  | some atyp =>
    -- send buffer is full
    if !(o.con p).outHave then o
    else
      {o with
        con := Function.update o.con p {o.con p with outHave := false}
        log := o.log ++ [.written (o.con p).localAddr (socksUdpMessage atyp remoteAddr data)]}

/-- `connection_init`; a failure of any step undoes the steps before it. -/
def connectionInit (o : Client) (localAddr remoteAddr : BAddr) (data : List UInt8) (success : Bool) : Client :=
  if !success then o
  else
    let p := o.fresh
    {o with
      con := Function.update o.con p
        { localAddr := localAddr
          first := some (remoteAddr, data)
          dnsId := getDnsId remoteAddr data
          outHave := false }
      fresh := p + 1
      connectionsTree := o.connectionsTree ++ [p]
      numConnections := o.numConnections + 1}

/-- `SocksUdpClient_SubmitPacket`. -/
def submitPacket (o : Client) (localAddr remoteAddr : BAddr) (data : List UInt8) (success : Bool) : Client :=
  match o.findConnection localAddr with
  | none =>
    if o.numConnections ≥ o.cfg.maxConnections then o
    else o.connectionInit localAddr remoteAddr data success
  | some p => o.connectionSend p remoteAddr data

/-- `first_job_handler`. -/
def firstJobHandler (o : Client) (p : Ptr) : Option Client :=
  match (o.con p).first with
  | none => none
  | some (remoteAddr, data) =>
    let o := o.connectionSend p remoteAddr data
    some {o with con := Function.update o.con p {o.con p with first := none}}

/-- What `recv_if_handler_send` does after it passed a datagram to the user. -/
def checkDnsReply (o : Client) (p : Ptr) (remoteAddr : BAddr) (data : List UInt8) : Client :=
  if (o.con p).dnsId ≥ 0 then
    if getDnsId remoteAddr data = (o.con p).dnsId then o.connectionFree p else o.setDnsId p (-1)
  else o

/-- `recv_if_handler_send`. -/
def recvIfHandlerSend (o : Client) (p : Ptr) (data : List UInt8) : Client :=
  match parseSocksUdp data with
  | none => o
  | some (remoteAddr, data) =>
    -- too much data
    if data.length > o.cfg.udpMtu then o
    else
      let o : Client := {o with log := o.log ++ [.received (o.con p).localAddr remoteAddr data]}
      o.checkDnsReply p remoteAddr data

end Client

/-- `SocksUdpClient_Init`. -/
def init (cfg : Config) : Client where
  cfg := cfg
  con := fun _ => ⟨.none, none, -1, false⟩
  fresh := 0
  connectionsTree := []
  numConnections := 0
  log := []

inductive Event where
  /-- A datagram; `success` tells whether a connection could be made for it. -/
  | submit (localAddr remoteAddr : BAddr) (data : List UInt8) (success : Bool)
  | firstJob (p : Ptr)
  /-- The send buffer of the connection has room for a message. -/
  | ready (p : Ptr)
  /-- The socket of the connection received a datagram. -/
  | receive (p : Ptr) (data : List UInt8)
  /-- A SOCKS event, a datagram error or the idle timer ends the connection. -/
  | free (p : Ptr)

def step (o : Client) : Event → Option Client
  | .submit localAddr remoteAddr data success =>
    if localAddr.isIp ∧ remoteAddr.isIp ∧ data.length ≤ o.cfg.udpMtu then
      some (o.submitPacket localAddr remoteAddr data success)
    else none
  | .firstJob p => if p ∈ o.connectionsTree then o.firstJobHandler p else none
  | .ready p =>
    if p ∈ o.connectionsTree then
      some {o with con := Function.update o.con p {o.con p with outHave := true}}
    else none
  | .receive p data =>
    if p ∈ o.connectionsTree ∧ data.length ≤ computeSocksMtu o.cfg.udpMtu then
      some (o.recvIfHandlerSend p data)
    else none
  | .free p => if p ∈ o.connectionsTree then some (o.connectionFree p) else none

end TwilightLine.SocksUdp
