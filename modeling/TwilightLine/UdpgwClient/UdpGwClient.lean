import Mathlib.Logic.Function.Basic
import TwilightLine.Base.BPending
import TwilightLine.Flow.PacketProtoFlow
import TwilightLine.Lib.Run
import TwilightLine.UdpgwClient.UdpgwProto

/-! The udpgw client, `udpgw_client/UdpGwClient.c`.

A connection stands for a pair of a local and a remote address and is known to the
server by its conid. A datagram of a new pair gets a new connection while there are
fewer than `max_connections`, and takes over the least recently used one afterwards.

`step` is one event of the client's life. A handler of the program runs from the
stack of pending jobs or, with no job pending, from a timer or a descriptor; the
calls into the client come from a running handler. Jobs that are not the client's
(`Job.foreign`) run handlers as well. The log remembers what conids were bound to,
what was accepted into a send buffer, what the server got and what was handed to the
user. -/
namespace TwilightLine.UdpGw

abbrev Ptr := Nat

/-- `struct UdpGwClient_conaddr`. -/
structure Conaddr where
  localAddr : BAddr
  remoteAddr : BAddr
  deriving DecidableEq, Repr

/-- `conaddr_comparator`. -/
def conaddrComparator (v1 v2 : Conaddr) : Int :=
  let r := bAddrCompareOrder v1.remoteAddr v2.remoteAddr
  if r ≠ 0 then r else bAddrCompareOrder v1.localAddr v2.localAddr

/-- `uint16_comparator`. -/
def uint16Comparator (v1 v2 : UInt16) : Int := bCompare v1.toNat v2.toNat

/-- Where a datagram comes from: its local address, and how long the log was when it
had been given to a connection. -/
structure Origin where
  localAddr : BAddr
  submitted : Nat
  deriving DecidableEq, Repr

/-- What the model remembers about a packet: the origin of the datagram and the
number of bindings that the conid had seen. -/
structure Note extends Origin where
  binding : Nat
  deriving DecidableEq, Repr

/-- `struct UdpGwClient_connection`. -/
structure Connection where
  conaddr : Conaddr
  firstFlags : UInt8
  firstData : List UInt8
  firstOrigin : Origin
  conid : UInt16
  /-- `send_ppflow`. -/
  flow : PacketProtoFlow Note

inductive Job where
  /-- `first_job` of a connection. -/
  | first (p : Ptr)
  /-- A job of a connection's flow. -/
  | flow (p : Ptr) (j : FlowJob)
  /-- A job of another module. -/
  | foreign (n : Nat)
  deriving DecidableEq, Repr

inductive Entry where
  /-- The conid was bound to the pair of addresses. -/
  | bound (conid : UInt16) (conaddr : Conaddr)
  /-- A packet with these flags was accepted into the send buffer of the connection. -/
  | accepted (conid : UInt16) (flags : UInt8) (packet : Packet Note)
  /-- The server got a frame. -/
  | sent (conid : UInt16) (frame : Packet Note)
  /-- The frame left the send buffer. -/
  | completed (conid : UInt16) (frame : Packet Note)
  /-- `handler_received`. -/
  | received (localAddr remoteAddr : BAddr) (data : List UInt8)
  deriving DecidableEq, Repr

/-- The arguments of `UdpGwClient_Init`, with what it asserts about them. A connection's flow
counts no bytes of its ring, which is what the program does while the ring has at most
`2 ^ 29 + 2` blocks (`FlowMemory.delivers_iff`). -/
structure Config where
  udpMtu : Nat
  maxConnections : Nat
  sendBufferSize : Nat
  maxConnections_pos : 0 < maxConnections
  sendBufferSize_pos : 0 < sendBufferSize
  mtu_le : udpgwComputeMtu udpMtu ≤ 65535

structure Client where
  cfg : Config
  /-- `max_connections`, limited to the number of conids. -/
  maxConnections : Nat
  /-- The connections in memory. -/
  con : Ptr → Connection
  /-- The next address that `malloc` returns. -/
  fresh : Ptr
  connectionsTreeByConaddr : List Ptr
  connectionsTreeByConid : List Ptr
  connectionsList : List Ptr
  numConnections : Nat
  nextConid : Nat
  haveServer : Bool
  keepaliveSending : Bool
  jobs : List Job
  /-- A handler of another module is running. -/
  running : Bool
  log : List Entry

/-- Which allocations of `connection_init` succeed. -/
structure Alloc where
  connection : Bool
  ring : Bool
  deriving DecidableEq, Repr

/-- How often the conid was bound. -/
def bindings (conid : UInt16) (log : List Entry) : Nat :=
  log.countP fun
    | .bound c _ => c == conid
    | _ => false

/-- The jobs after a handler of a connection's flow has set a job, if it has. -/
def setFlowJob (p : Ptr) (j : Option FlowJob) (jobs : List Job) : List Job :=
  match j with
  | none => jobs
  | some j => BPending.set (.flow p j) jobs

namespace Client

def udpgwMtu (o : Client) : Nat := udpgwComputeMtu o.cfg.udpMtu

def setFlow (o : Client) (p : Ptr) (flow : PacketProtoFlow Note) : Client :=
  {o with con := Function.update o.con p {o.con p with flow := flow}}

def setJob (o : Client) (p : Ptr) (j : Option FlowJob) : Client :=
  {o with jobs := setFlowJob p j o.jobs}

/-- `find_connection_by_conaddr`. -/
def findConnectionByConaddr (o : Client) (conaddr : Conaddr) : Option Ptr :=
  o.connectionsTreeByConaddr.find? fun p => conaddrComparator conaddr (o.con p).conaddr = 0

/-- `find_connection_by_conid`. -/
def findConnectionByConid (o : Client) (conid : UInt16) : Option Ptr :=
  o.connectionsTreeByConid.find? fun p => uint16Comparator conid (o.con p).conid = 0

/-- `BAVL_Insert`, where a lookup of the node's key found `equal`. -/
def treeInsert (equal : Option Ptr) (p : Ptr) (tree : List Ptr) : List Ptr :=
  match equal with
  | some _ => tree
  | none => tree ++ [p]

/-- The loop of `find_unused_conid`, for a number of turns. -/
def findUnusedConid (o : Client) : Nat → Nat → Option Nat
  | 0, _ => none
  | fuel + 1, nextConid =>
    if o.findConnectionByConid (UInt16.ofNat nextConid) = none then some nextConid
    else o.findUnusedConid fuel (if nextConid = o.maxConnections - 1 then 0 else nextConid + 1)

/-- Move a connection to the end of the list. -/
def touch (o : Client) (p : Ptr) : Client :=
  {o with connectionsList := o.connectionsList.erase p ++ [p]}

/-- The flags of a packet, as `connection_send` completes them. -/
def sendFlags (o : Client) (p : Ptr) (flags : UInt8) : UInt8 :=
  if (o.con p).conaddr.remoteAddr.type = 2 then flags ||| flagIpv6 else flags

/-- The packet that `connection_send` writes. -/
def sendPacket (o : Client) (p : Ptr) (flags : UInt8) (data : List UInt8) (origin : Origin) : Packet Note where
  bytes := udpgwPacket (o.sendFlags p flags) (o.con p).conid (o.con p).conaddr.remoteAddr data
  note := {origin with binding := bindings (o.con p).conid o.log}

/-- `connection_send`. -/
def connectionSend (o : Client) (p : Ptr) (flags : UInt8) (data : List UInt8) (origin : Origin) : Client :=
  -- out of buffer
  if !(o.con p).flow.outHave then o
  else
    let packet := o.sendPacket p flags data origin
    let (flow, j) := (o.con p).flow.endPacket packet
    {(o.setFlow p flow).setJob p j with
      log := o.log ++ [.accepted (o.con p).conid (o.sendFlags p flags) packet]}

/-- `connection_first_job_handler`. -/
def connectionFirstJobHandler (o : Client) (p : Ptr) : Client :=
  o.connectionSend p (flagRebind ||| (o.con p).firstFlags) (o.con p).firstData (o.con p).firstOrigin

/-- `connection_init` from where nothing can fail any more. -/
def connectionInsert (o : Client) (conaddr : Conaddr) (flags : UInt8) (data : List UInt8) (conid : UInt16)
    (flow : PacketProtoFlow Note) (j : FlowJob) : Client :=
  let p := o.fresh
  { o with
    con := Function.update o.con p
      { conaddr := conaddr
        firstFlags := flags
        firstData := data
        firstOrigin := ⟨conaddr.localAddr, o.log.length + 1⟩
        conid := conid
        flow := flow }
    fresh := p + 1
    connectionsTreeByConaddr :=
      treeInsert (o.findConnectionByConaddr conaddr) p o.connectionsTreeByConaddr
    connectionsTreeByConid := treeInsert (o.findConnectionByConid conid) p o.connectionsTreeByConid
    connectionsList := o.connectionsList ++ [p]
    numConnections := o.numConnections + 1
    -- the first job lies below the first job of the flow
    jobs := BPending.set (.flow p j) (BPending.set (.first p) o.jobs)
    log := o.log ++ [.bound conid conaddr] }

/-- `connection_init`. There is no result where the search for a conid does not end. -/
def connectionInit (o : Client) (conaddr : Conaddr) (flags : UInt8) (data : List UInt8) (alloc : Alloc) :
    Option Client :=
  if !alloc.connection then some o
  else
    match o.findUnusedConid o.maxConnections o.nextConid with
    | none => none
    | some nextConid =>
      let o := {o with nextConid := nextConid}
      match PacketProtoFlow.init o.udpgwMtu o.cfg.sendBufferSize with
      | none => some o
      | some (flow, j) =>
        if !alloc.ring then some o
        else some (o.connectionInsert conaddr flags data (UInt16.ofNat nextConid) flow j)

/-- The connection is taken out of the tree, gets the new addresses and is put back. -/
def rebind (o : Client) (p : Ptr) (conaddr : Conaddr) : Client :=
  let o := {o with
    connectionsTreeByConaddr := o.connectionsTreeByConaddr.erase p
    con := Function.update o.con p {o.con p with conaddr := conaddr}}
  {o with
    connectionsTreeByConaddr := treeInsert (o.findConnectionByConaddr conaddr) p o.connectionsTreeByConaddr
    log := o.log ++ [.bound (o.con p).conid conaddr]}

/-- `reuse_connection`. There is no result where the list is empty. -/
def reuseConnection (o : Client) (conaddr : Conaddr) : Option (Client × Ptr) :=
  match o.connectionsList with
  | [] => none
  | p :: _ => some (o.rebind p conaddr, p)

/-- `UdpGwClient_SubmitPacket`. -/
def submitPacket (o : Client) (localAddr remoteAddr : BAddr) (isDns : Bool) (data : List UInt8)
    (alloc : Alloc) : Option Client :=
  let conaddr : Conaddr := ⟨localAddr, remoteAddr⟩
  let flags := if isDns then flagDns else 0
  match o.findConnectionByConaddr conaddr with
  | some p => some ((o.touch p).connectionSend p flags data ⟨localAddr, o.log.length⟩)
  | none =>
    if o.numConnections = o.maxConnections then
      match o.reuseConnection conaddr with
      | none => none
      | some (o, p) =>
        some ((o.touch p).connectionSend p (flags ||| flagRebind) data ⟨localAddr, o.log.length⟩)
    else o.connectionInit conaddr flags data alloc

/-- `recv_interface_handler_send`. -/
def recvInterfaceHandlerSend (o : Client) (data : List UInt8) : Client :=
  match parseUdpgw data with
  | none => o
  | some packet =>
    -- too much data
    if packet.data.length > o.cfg.udpMtu then o
    else
      match o.findConnectionByConid packet.conid with
      | none => o
      | some p =>
        let conaddr := (o.con p).conaddr
        -- wrong remote address
        if bAddrCompareOrder conaddr.remoteAddr packet.remoteAddr ≠ 0 then o
        else
          let o := o.touch p
          {o with log := o.log ++ [.received conaddr.localAddr conaddr.remoteAddr packet.data]}

/-- The server gets the oldest packet of the connection. -/
def transmit (o : Client) (p : Ptr) : Option Client :=
  let con := o.con p
  if !o.haveServer ∨ p ∉ o.connectionsList ∨ con.flow.output = .idle then none
  else
    match con.flow.buf.packets with
    | [] => none
    | frame :: _ =>
      let o := o.setFlow p {con.flow with output := .passed}
      some {o with log := o.log ++ [.sent con.conid frame]}

/-- The send queue is done with the oldest packet of the connection. -/
def drain (o : Client) (p : Ptr) : Option Client :=
  let con := o.con p
  if !o.haveServer ∨ p ∉ o.connectionsList ∨ con.flow.output ≠ .passed then none
  else
    match con.flow.buf.packets with
    | [] => none
    | frame :: _ =>
      let (flow, j) := con.flow.outputHandlerDone
      let o := (o.setFlow p flow).setJob p j
      some {o with log := o.log ++ [.completed con.conid frame]}

/-- `UdpGwClient_DisconnectServer`: what the server got of a packet that is not done
is sent to the next server again. -/
def disconnectServer (o : Client) : Client :=
  {o with
    haveServer := false
    con := fun p =>
      let con := o.con p
      if con.flow.output = .passed then {con with flow := {con.flow with output := .sending}} else con}

/-- The job is one of the connection's. -/
def isJobOf (p : Ptr) : Job → Bool
  | .first q | .flow q _ => q = p
  | .foreign _ => false

/-- `connection_free`. -/
def connectionFree (o : Client) (p : Ptr) : Client :=
  {o with
    numConnections := o.numConnections - 1
    connectionsList := o.connectionsList.erase p
    connectionsTreeByConid := o.connectionsTreeByConid.erase p
    connectionsTreeByConaddr := o.connectionsTreeByConaddr.erase p
    jobs := o.jobs.filter fun job => !isJobOf p job}

/-- The loop of `UdpGwClient_Free`, for a number of turns. -/
def freeConnections (o : Client) : Nat → Client
  | 0 => o
  | turns + 1 =>
    match o.connectionsList with
    | [] => o
    | p :: _ => (o.connectionFree p).freeConnections turns

/-- `UdpGwClient_Free`: the connections are freed, then what was left of the server. -/
def free (o : Client) : Client := {o.freeConnections o.connectionsList.length with haveServer := false}

/-- `BPendingGroup_ExecuteJob`. -/
def executeJob (o : Client) : Option Client :=
  match o.jobs with
  | [] => none
  | .foreign _ :: jobs => some {o with jobs := jobs, running := true}
  | .first p :: jobs => some ({o with jobs := jobs}.connectionFirstJobHandler p)
  | .flow p j :: jobs =>
    let (flow, j) := (o.con p).flow.runJob j
    some (({o with jobs := jobs}.setFlow p flow).setJob p j)

end Client

/-- `UdpGwClient_Init`. -/
def init (cfg : Config) : Client where
  cfg := cfg
  maxConnections := min cfg.maxConnections 65536
  con := fun _ =>
    { conaddr := ⟨.none, .none⟩, firstFlags := 0, firstData := [], firstOrigin := ⟨.none, 0⟩, conid := 0
      flow := { outHave := false, input := none, inputMtu := 0, buf := .init 0 0, output := .idle } }
  fresh := 0
  connectionsTreeByConaddr := []
  connectionsTreeByConid := []
  connectionsList := []
  numConnections := 0
  nextConid := 0
  haveServer := false
  keepaliveSending := false
  jobs := []
  running := false
  log := []

/-- A client for empty datagrams with one connection and the smallest send buffer. -/
def oneConnection : Config where
  udpMtu := 0
  maxConnections := 1
  sendBufferSize := 1
  maxConnections_pos := by decide
  sendBufferSize_pos := by decide
  mtu_le := by decide

inductive Event where
  /-- With no job pending, a timer or a descriptor runs a handler. -/
  | handler
  /-- The running handler returns. -/
  | finish
  /-- The next pending job runs. -/
  | job
  /-- The running handler sets or unsets a job of another module. -/
  | set (n : Nat)
  | unset (n : Nat)
  | submit (localAddr remoteAddr : BAddr) (isDns : Bool) (data : List UInt8) (alloc : Alloc)
  /-- The decoder passes a packet from the server. -/
  | receive (data : List UInt8)
  | connect
  | disconnect
  /-- `send_monitor_handler` and `keepalive_if_handler_done`. -/
  | monitor
  | keepaliveDone
  | transmit (p : Ptr)
  | drain (p : Ptr)

open Client in
/-- An event, where it can happen: the guards are the assertions of the functions
called and the discipline of handlers and jobs. -/
def step (o : Client) : Event → Option Client
  | .handler => if o.running ∨ o.jobs ≠ [] then none else some {o with running := true}
  | .finish => if o.running then some {o with running := false} else none
  | .job => if o.running then none else o.executeJob
  | .set n => if o.running then some {o with jobs := BPending.set (.foreign n) o.jobs} else none
  | .unset n => if o.running then some {o with jobs := BPending.unset (.foreign n) o.jobs} else none
  | .submit localAddr remoteAddr isDns data alloc =>
    if o.running ∧ localAddr.isIp ∧ remoteAddr.isIp ∧ data.length ≤ o.cfg.udpMtu then
      o.submitPacket localAddr remoteAddr isDns data alloc
    else none
  | .receive data =>
    if o.running ∧ o.haveServer ∧ data.length ≤ o.udpgwMtu then some (o.recvInterfaceHandlerSend data)
    else none
  | .connect => if o.running ∧ !o.haveServer then some {o with haveServer := true} else none
  | .disconnect => if o.running ∧ o.haveServer then some o.disconnectServer else none
  | .monitor => if o.running then some {o with keepaliveSending := true} else none
  | .keepaliveDone =>
    if o.running ∧ o.keepaliveSending then some {o with keepaliveSending := false} else none
  | .transmit p => o.transmit p
  | .drain p => if o.running then o.drain p else none

/-- A handler that submits an empty datagram, and the jobs that follow. -/
def submitRun (localAddr remoteAddr : BAddr) (jobs : Nat) : List Event :=
  [.handler, .submit localAddr remoteAddr false [] ⟨true, true⟩, .finish] ++ List.replicate jobs .job

end TwilightLine.UdpGw
