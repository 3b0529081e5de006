import Mathlib.Data.Finset.Erase
import Mathlib.Data.Finset.Insert
import TwilightLine.Base.BPending
import TwilightLine.SocksUdpClient.SocksUdpClient

/-! What the connections of the SOCKS-UDP client own.

`connection_init` allocates a connection and a copy of its first packet and initializes its
components one by one; a step that fails undoes the ones before it. `connection_free` is the
way back, and most of its callers are handlers that a component of that connection calls.

`Machine` is the client with all that is owned, the pending jobs, and the descriptors and
timers that the reactor watches. Whatever is used must be owned and what is freed must have
been: an operation has no result where it reaches into freed memory, frees twice or violates
an assertion. What a component does between its handlers is left to the run (`Act`). -/
namespace TwilightLine.SocksUdpResources

open SocksUdp (Ptr Client Config socksAtyp computeSocksMtu parseSocksUdp getDnsId)

/-- The components of a connection, in the order in which `connection_init` makes them. -/
inductive Part where
  | firstJob
  | socket
  | socks
  | sendAsync
  | sendMonitor
  | sendWriter
  | sendBuffer
  | recvAsync
  | recvIf
  | recvBuffer
  deriving DecidableEq, Repr

inductive Resource where
  /-- The memory of a connection. -/
  | con (p : Ptr)
  /-- The memory of a first packet. -/
  | block (b : Nat)
  /-- A component that is initialized. -/
  | part (p : Ptr) (k : Part)
  deriving DecidableEq, Repr

inductive Job where
  /-- `first_job` of a connection. -/
  | first (p : Ptr)
  /-- A job inside a component. -/
  | of (p : Ptr) (k : Part) (n : Nat)
  /-- A job of another module. -/
  | foreign (n : Nat)
  deriving DecidableEq, Repr

/-- The component that a job is in. -/
def Job.part? : Job → Option (Ptr × Part)
  | .first p => some (p, .firstJob)
  | .of p k _ => some (p, k)
  | .foreign _ => none

/-- How far `connection_init` gets. -/
structure Creation where
  con : Bool
  firstData : Bool
  socket : Bool
  socks : Bool
  /-- The connection to the SOCKS server is there at once. -/
  connected : Bool
  sendBuffer : Bool
  recvBuffer : Bool
  deriving DecidableEq, Repr

def Creation.succeeds (c : Creation) : Bool :=
  c.con && c.firstData && c.socket && c.socks && c.sendBuffer && c.recvBuffer

structure Machine where
  client : Client
  owned : Finset Resource
  jobs : List Job
  /-- The components whose descriptor or timer the reactor watches. -/
  sources : List (Ptr × Part)
  /-- `first_data`, which may be NULL. -/
  firstData : Ptr → Option Nat
  /-- The next block that is allocated. -/
  nextBlock : Nat
  /-- The blocks that were freed. -/
  freed : List Nat

/-- `SocksUdpClient_Init`. -/
def init (cfg : Config) : Machine where
  client := SocksUdp.init cfg
  owned := ∅
  jobs := []
  sources := []
  firstData := fun _ => none
  nextBlock := 0
  freed := []

/-- The arguments of `SocksUdpClient_SubmitPacket`. -/
structure Submission where
  localAddr : BAddr
  remoteAddr : BAddr
  data : List UInt8
  creation : Creation

/-- `BSOCKSCLIENT_EVENT_*`, with the results of what the handler calls. -/
inductive SocksEvent where
  | connected (tcpLocalAddr : Option BAddr) (bind : Bool) (udpBoundAddr : Option BAddr)
  /-- A send may be waiting for the address. -/
  | up (waiting : Bool)
  | error
  | errorClosed

/-- What the components of a connection do among themselves. -/
inductive Act where
  | set (k : Part) (n : Nat)
  | unset (k : Part) (n : Nat)
  | watch (k : Part)
  | unwatch (k : Part)
  /-- The send buffer has room for a message. -/
  | ready

/-- What a component does when one of its jobs runs, or its descriptor or timer. -/
inductive Activity where
  | work (acts : List Act)
  /-- `recv_if` passes a datagram; the user may submit packets when it gets it. -/
  | receive (data : List UInt8) (submissions : List Submission)
  | socks (event : SocksEvent)
  | datagramError
  | idle

namespace Machine

/-- What is used must be owned. -/
def use (o : Machine) (r : Resource) : Option Machine := if r ∈ o.owned then some o else none

def acquire (o : Machine) (r : Resource) : Machine := {o with owned := insert r o.owned}

def release (o : Machine) (r : Resource) : Option Machine :=
  if r ∈ o.owned then some {o with owned := o.owned.erase r} else none

/-- `BPending_Set`. -/
def setJob (o : Machine) (j : Job) : Option Machine :=
  let set : Machine := {o with jobs := BPending.set j o.jobs}
  match j.part? with
  | none => some set
  | some (p, k) => set.use (.part p k)

def watch (o : Machine) (p : Ptr) (k : Part) : Machine := {o with sources := (p, k) :: o.sources}

def initPart (o : Machine) (p : Ptr) (k : Part) : Machine := o.acquire (.part p k)

/-- The free function of a component: its jobs, its descriptor and its timer go with it. -/
def freePart (o : Machine) (p : Ptr) (k : Part) : Option Machine :=
  (o.release (.part p k)).map fun o =>
    {o with
      jobs := o.jobs.filter fun j => j.part? ≠ some (p, k)
      sources := o.sources.filter fun s => s ≠ (p, k)}

def freeParts (o : Machine) (p : Ptr) : List Part → Option Machine
  | [] => some o
  | k :: ks => (o.freePart p k).bind fun o => o.freeParts p ks

/-- `BFree` of `first_data`. -/
def freeFirstData (o : Machine) (p : Ptr) : Option Machine :=
  match o.firstData p with
  | none => some o
  | some b => (o.release (.block b)).map fun o => {o with freed := o.freed ++ [b]}

/-- `connection_free`. -/
def connectionFree (o : Machine) (p : Ptr) : Option Machine := do
  let o ← o.use (.con p)
  if o.client.numConnections > 0 then
    let o : Machine := {o with client := o.client.connectionFree p}
    let o ← o.freeParts p [.recvBuffer, .recvIf, .recvAsync, .sendBuffer, .sendWriter, .sendMonitor, .sendAsync, .socks,
      .socket, .firstJob]
    let o ← o.freeFirstData p
    o.release (.con p)
  else none

/-! ### `connection_init` -/

/-- The label `fail1`. -/
def fail1 (o : Machine) (p : Ptr) : Option Machine := o.release (.con p)

def fail2 (o : Machine) (p : Ptr) : Option Machine := do
  let o ← o.freeParts p [.firstJob]
  let o ← o.freeFirstData p
  o.fail1 p

def fail3 (o : Machine) (p : Ptr) : Option Machine := do
  let o ← o.freeParts p [.socket]
  o.fail2 p

def fail4 (o : Machine) (p : Ptr) : Option Machine := do
  let o ← o.freeParts p [.sendWriter, .sendMonitor, .sendAsync, .socks]
  o.fail3 p

def fail5 (o : Machine) (p : Ptr) : Option Machine := do
  let o ← o.freeParts p [.recvIf, .recvAsync, .sendBuffer]
  o.fail4 p

/-- The copy of the first packet. -/
def storeFirst (o : Machine) (p : Ptr) : Machine :=
  {o.acquire (.block o.nextBlock) with
    firstData := Function.update o.firstData p (some o.nextBlock)
    nextBlock := o.nextBlock + 1}

/-- `BSocksClient_Init` waits for its descriptor, or has the connection at once. -/
def initSocks (o : Machine) (p : Ptr) (connected : Bool) : Option Machine :=
  let o := o.initPart p .socks
  if connected then o.setJob (.of p .socks 0) else some (o.watch p .socks)

/-- `connection_init`. -/
def connectionInit (o : Machine) (localAddr remoteAddr : BAddr) (data : List UInt8) (c : Creation) :
    Option Machine := do
  let p := o.client.fresh
  if !c.con then return o
  let o := o.acquire (.con p)
  if !c.firstData then return ← o.fail1 p
  let o := o.storeFirst p
  -- the first job, below the jobs of the send buffer
  let o ← (o.initPart p .firstJob).setJob (.first p)
  if !c.socket then return ← o.fail2 p
  let o := (o.initPart p .socket).watch p .socket
  if !c.socks then return ← o.fail3 p
  let o ← o.initSocks p c.connected
  -- send pipeline
  let o := o.initPart p .sendAsync
  let o := (o.initPart p .sendMonitor).watch p .sendMonitor
  let o := o.initPart p .sendWriter
  if !c.sendBuffer then return ← o.fail4 p
  let o ← (o.initPart p .sendBuffer).setJob (.of p .sendWriter 0)
  -- receive pipeline
  let o := o.initPart p .recvAsync
  let o := o.initPart p .recvIf
  if !c.recvBuffer then return ← o.fail5 p
  let o ← (o.initPart p .recvBuffer).setJob (.of p .recvAsync 0)
  return {o with client := o.client.connectionInit localAddr remoteAddr data true}

/-! ### Packets -/

/-- `connection_send`: a message that is written makes `BufferWriter_EndPacket` set a job. -/
def connectionSend (o : Machine) (p : Ptr) (remoteAddr : BAddr) (data : List UInt8) : Option Machine := do
  let o ← o.use (.con p)
  let o ← o.use (.part p .sendWriter)
  let written := (socksAtyp remoteAddr).isSome && (o.client.con p).outHave
  let o : Machine := {o with client := o.client.connectionSend p remoteAddr data}
  if written then o.setJob (.of p .sendWriter 1) else some o

/-- A lookup reads the connections in the tree. -/
def useTree (o : Machine) : Option Machine :=
  if ∀ p ∈ o.client.connectionsTree, .con p ∈ o.owned then some o else none

/-- `SocksUdpClient_SubmitPacket`. -/
def submitPacket (o : Machine) (s : Submission) : Option Machine := do
  let o ← o.useTree
  match o.client.findConnection s.localAddr with
  | none =>
    if o.client.numConnections ≥ o.client.cfg.maxConnections then some o
    else o.connectionInit s.localAddr s.remoteAddr s.data s.creation
  | some p => o.connectionSend p s.remoteAddr s.data

def submitPackets (o : Machine) : List Submission → Option Machine
  | [] => some o
  | s :: rest => (o.submitPacket s).bind fun o => o.submitPackets rest

/-- `first_job_handler`. -/
def firstJobHandler (o : Machine) (p : Ptr) : Option Machine := do
  let o ← o.use (.con p)
  let b ← o.firstData p
  let o ← o.use (.block b)
  let (remoteAddr, data) ← (o.client.con p).first
  let o ← o.connectionSend p remoteAddr data
  let o ← o.freeFirstData p
  let o ← o.use (.con p)
  return {o with
    firstData := Function.update o.firstData p none
    client := {o.client with con := Function.update o.client.con p {o.client.con p with first := none}}}

/-- What `recv_if_handler_send` does after it passed a datagram to the user. -/
def checkDnsReply (o : Machine) (p : Ptr) (remoteAddr : BAddr) (data : List UInt8) : Option Machine := do
  let o ← o.use (.con p)
  if (o.client.con p).dnsId ≥ 0 then
    if getDnsId remoteAddr data = (o.client.con p).dnsId then o.connectionFree p
    else some {o with client := o.client.setDnsId p (-1)}
  else some o

/-- `recv_if_handler_send`. -/
def recvIfHandlerSend (o : Machine) (p : Ptr) (data : List UInt8) (submissions : List Submission) : Option Machine := do
  let o ← o.use (.con p)
  -- accept packet
  let o ← o.setJob (.of p .recvIf 1)
  match parseSocksUdp data with
  | none => some o
  | some (remoteAddr, data) =>
    if data.length > o.client.cfg.udpMtu then some o
    else
      -- pass packet to user
      let o : Machine :=
        {o with client := {o.client with log := o.client.log ++ [.received (o.client.con p).localAddr remoteAddr data]}}
      let o ← o.submitPackets submissions
      o.checkDnsReply p remoteAddr data

/-! ### Handlers of the components -/

/-- `socks_state_handler`. -/
def socksStateHandler (o : Machine) (p : Ptr) : SocksEvent → Option Machine
  | .connected tcpLocalAddr bind udpBoundAddr => do
    let o ← o.use (.con p)
    let o ← o.use (.part p .socks)
    match tcpLocalAddr with
    | none => o.connectionFree p
    | some addr =>
      -- bad address type
      if ¬addr.isIp then o.connectionFree p
      else
        let o ← o.use (.part p .socket)
        if !bind then o.connectionFree p
        else if udpBoundAddr = none then o.connectionFree p
        else o.use (.part p .socks)
  | .up waiting => do
    let o ← o.use (.con p)
    let o ← o.use (.part p .socks)
    let o ← o.use (.part p .socket)
    if waiting then o.setJob (.of p .sendAsync 0) else some o
  | .error => do
    let o ← o.use (.con p)
    o.connectionFree p
  | .errorClosed => do
    let o ← o.use (.con p)
    o.connectionFree p

/-- `datagram_state_handler`, for `BDATAGRAM_EVENT_ERROR`. -/
def datagramStateHandler (o : Machine) (p : Ptr) : Option Machine := do
  let o ← o.use (.con p)
  o.connectionFree p

/-- `send_monitor_handler`. -/
def sendMonitorHandler (o : Machine) (p : Ptr) : Option Machine := do
  let o ← o.use (.con p)
  o.connectionFree p

def act (o : Machine) (p : Ptr) : Act → Option Machine
  | .set k n => o.setJob (.of p k n)
  | .unset k n => (o.use (.part p k)).map fun o => {o with jobs := BPending.unset (.of p k n) o.jobs}
  | .watch k => (o.use (.part p k)).map fun o => o.watch p k
  | .unwatch k => (o.use (.part p k)).map fun o => {o with sources := o.sources.erase (p, k)}
  | .ready => (o.use (.part p .sendWriter)).map fun o =>
      {o with client := {o.client with con := Function.update o.client.con p {o.client.con p with outHave := true}}}

def work (o : Machine) (p : Ptr) : List Act → Option Machine
  | [] => some o
  | a :: rest => (o.act p a).bind fun o => o.work p rest

/-- The code of a component runs. -/
def enter (o : Machine) (p : Ptr) (k : Part) (a : Activity) : Option Machine := do
  let o ← o.use (.part p k)
  match a with
  | .work acts => o.work p acts
  | .receive data submissions => o.recvIfHandlerSend p data submissions
  | .socks (.connected tcpLocalAddr bind udpBoundAddr) =>
    -- `continue_job` is set before the handler is called
    let o ← o.setJob (.of p .socks 1)
    o.socksStateHandler p (.connected tcpLocalAddr bind udpBoundAddr)
  | .socks event => o.socksStateHandler p event
  | .datagramError => o.datagramStateHandler p
  -- the timer is started again before the handler is called
  | .idle => (o.watch p .sendMonitor).sendMonitorHandler p

def runJob (o : Machine) (j : Job) (a : Activity) : Option Machine :=
  match j with
  | .first p => o.firstJobHandler p
  | .of p k _ => o.enter p k a
  | .foreign _ => some o

end Machine

inductive Event where
  | submit (s : Submission)
  /-- The next pending job runs. -/
  | job (a : Activity)
  /-- With no job pending, a descriptor or a timer of a component is ready. -/
  | source (p : Ptr) (k : Part) (a : Activity)
  /-- Another module sets a job. -/
  | set (n : Nat)

/-- What `SocksUdpClient_SubmitPacket` asserts. -/
def Submission.Valid (cfg : Config) (s : Submission) : Prop :=
  s.localAddr.isIp ∧ s.remoteAddr.isIp ∧ s.data.length ≤ cfg.udpMtu

instance (cfg : Config) (s : Submission) : Decidable (s.Valid cfg) := inferInstanceAs (Decidable (_ ∧ _ ∧ _))

/-- Which component calls which handler. -/
def Activity.By (cfg : Config) (k : Part) : Activity → Prop
  | .work _ => True
  | .receive data submissions => k = .recvIf ∧ data.length ≤ computeSocksMtu cfg.udpMtu ∧ ∀ s ∈ submissions, s.Valid cfg
  | .socks _ => k = .socks
  | .datagramError => k = .socket ∨ k = .sendAsync ∨ k = .recvAsync
  | .idle => k = .sendMonitor

instance (cfg : Config) (k : Part) : (a : Activity) → Decidable (a.By cfg k)
  | .work _ => inferInstanceAs (Decidable True)
  | .receive .. => inferInstanceAs (Decidable (_ ∧ _ ∧ _))
  | .socks _ => inferInstanceAs (Decidable (_ = _))
  | .datagramError => inferInstanceAs (Decidable (_ ∨ _ ∨ _))
  | .idle => inferInstanceAs (Decidable (_ = _))

/-- The activity fits the job. -/
def Job.Runs (cfg : Config) (a : Activity) : Job → Prop
  | .of _ k _ => a.By cfg k
  | _ => True

instance (cfg : Config) (a : Activity) : (j : Job) → Decidable (j.Runs cfg a)
  | .first _ => inferInstanceAs (Decidable True)
  | .of _ k _ => inferInstanceAs (Decidable (a.By cfg k))
  | .foreign _ => inferInstanceAs (Decidable True)

/-- The event can happen: the program has nothing else to say about it. -/
def Possible (o : Machine) : Event → Prop
  | .submit s => s.Valid o.client.cfg
  | .job a => o.jobs ≠ [] ∧ ∀ j ∈ o.jobs.head?, j.Runs o.client.cfg a
  | .source p k a => o.jobs = [] ∧ (p, k) ∈ o.sources ∧ a.By o.client.cfg k
  | .set _ => True

instance (o : Machine) : (e : Event) → Decidable (Possible o e)
  | .submit _ => inferInstanceAs (Decidable (Submission.Valid _ _))
  | .job _ => inferInstanceAs (Decidable (_ ∧ _))
  | .source .. => inferInstanceAs (Decidable (_ ∧ _ ∧ _))
  | .set _ => inferInstanceAs (Decidable True)

/-- What the program does. -/
def exec (o : Machine) : Event → Option Machine
  | .submit s => o.submitPacket s
  | .job a =>
    match o.jobs with
    | [] => none
    | j :: jobs => {o with jobs := jobs}.runJob j a
  | .source p k a => o.enter p k a
  | .set n => o.setJob (.foreign n)

def step (o : Machine) (e : Event) : Option Machine := if Possible o e then exec o e else none

end TwilightLine.SocksUdpResources
