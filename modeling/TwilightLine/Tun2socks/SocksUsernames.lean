import TwilightLine.Socksclient.BSocksClientReplies
import TwilightLine.System.BAddr

/-! The username that the SOCKS clients of `tun2socks.c` give to the server.

With `append_source_to_username` every TCP client has a username of its own, but all SOCKS
clients, those of the udpgw or of the SOCKS-UDP client too, read it from the one entry
`socks_auth_info[1]`, and they read it when the server has chosen the password. In between
the entry may have been set for another client, and that client may be gone. -/
namespace TwilightLine.Usernames

open Lib Socks

/-- What `password.username` points to. -/
inductive NamePtr where
  /-- `options.username`. -/
  | options
  /-- `socks_username` of a client. -/
  | client (i : Nat)
  deriving DecidableEq, Repr

/-- `struct tcp_client`, after the allocation of its username. -/
structure TcpClient where
  remoteAddr : BAddr
  socksUsername : List UInt8
  /-- `client_dealloc`, or a failed accept, has freed the username. -/
  freed : Bool
  socksClient : Option SocksRun

/-- Whose SOCKS client it is: a TCP client's, or one of those that the udpgw client or the
SOCKS-UDP client makes. -/
inductive Party where
  | tcp (i : Nat)
  | udp (k : Nat)
  deriving DecidableEq, Repr

/-- A password request: who sends it, the username it was made from, whether that was freed
already, and the packet. -/
structure Request where
  party : Party
  username : NamePtr
  freed : Bool
  packet : List UInt8
  deriving DecidableEq, Repr

/-- The TCP clients are numbered as they are accepted. -/
structure State where
  /-- `socks_auth_info[1].password.username` and `username_len`. -/
  username : NamePtr
  usernameLen : Nat
  clients : Nat → Option TcpClient
  numAccepted : Nat
  udpClients : Nat → Option SocksRun
  requests : List Request

inductive Event where
  /-- `listener_accept_func`; `malloc`, `concat_strings` and `BSocksClient_Init` may fail. -/
  | accept (localAddr remoteAddr : BAddr) (malloc concat socksInit : Bool)
  /-- The udpgw client or the SOCKS-UDP client makes a SOCKS client. -/
  | udpInit (k : Nat) (destAddr : BAddr) (udp : Bool)
  /-- A SOCKS client takes a step. -/
  | socks (p : Party) (e : SocksInput)
  /-- `client_dealloc`. -/
  | dealloc (i : Nat)

/-- After the start, with `options.username` in the entry. -/
def init (username : List UInt8) : State where
  username := .options
  usernameLen := username.length
  clients := fun _ => none
  numAccepted := 0
  udpClients := fun _ => none
  requests := []

/-- `concat_strings(3, options.username, "@", addr_str)`. -/
def ownName (username : List UInt8) (remoteAddr : BAddr) : List UInt8 := username ++ [64] ++ bAddrPrint remoteAddr

namespace State

/-- The text at the pointer. -/
def text (username : List UInt8) (s : State) : NamePtr → List UInt8
  | .options => username
  | .client i => ((s.clients i).map TcpClient.socksUsername).getD []

/-- The memory at the pointer was freed. -/
def isFreed (s : State) : NamePtr → Bool
  | .options => false
  | .client i => ((s.clients i).map TcpClient.freed).getD true

/-- `socks_auth_info`. -/
def authInfo (username password : List UInt8) (s : State) : List AuthInfo :=
  [.none, .password ((s.text username s.username).take s.usernameLen) password]

/-- The SOCKS client. -/
def socksClient (s : State) : Party → Option SocksRun
  | .tcp i => (s.clients i).bind TcpClient.socksClient
  | .udp k => s.udpClients k

def setSocksClient (s : State) (run : SocksRun) : Party → State
  | .tcp i => {s with
      clients := Function.update s.clients i ((s.clients i).map fun c => {c with socksClient := some run})}
  | .udp k => {s with udpClients := Function.update s.udpClients k (some run)}

end State

/-- The packet that was handed to the sender. -/
def pendingPacket (run : SocksRun) : List UInt8 :=
  match run.o.control with
  | some c =>
    match c.sendSender.input.state with
    | .operationPending packet => packet
    | _ => []
  | none => []

/-- The password request that the step of a SOCKS client makes. -/
def newRequests (s : State) (p : Party) (run run' : SocksRun) : List Request :=
  if run.o.state ≠ .sendingPassword ∧ run'.o.state = .sendingPassword then
    [⟨p, s.username, s.isFreed s.username, pendingPacket run'⟩]
  else []

/-- `listener_accept_func`, as far as SOCKS is concerned. -/
def listenerAcceptFunc (username : List UInt8) (s : State) (localAddr remoteAddr : BAddr)
    (malloc concat socksInit : Bool) : State :=
  if !malloc then s
  else if !concat then s
  else
    let client : TcpClient := {
      remoteAddr := remoteAddr
      socksUsername := ownName username remoteAddr
      freed := !socksInit
      socksClient := if socksInit then some (.init localAddr false fun _ => 0) else none}
    {s with
      username := .client s.numAccepted
      usernameLen := client.socksUsername.length
      clients := Function.update s.clients s.numAccepted (some client)
      numAccepted := s.numAccepted + 1}

/-- `client_dealloc`: the SOCKS client is closed. -/
def clientDealloc (s : State) (i : Nat) : Option State :=
  match s.clients i with
  | none => none
  | some c =>
    match c.socksClient with
    | none => none
    | some run =>
      if run.freed ∧ ¬c.freed then some {s with clients := Function.update s.clients i (some {c with freed := true})}
      else none

def step (username password : List UInt8) (s : State) : Event → Option State
  | .accept localAddr remoteAddr malloc concat socksInit =>
    some (listenerAcceptFunc username s localAddr remoteAddr malloc concat socksInit)
  | .udpInit k destAddr udp =>
    match s.udpClients k with
    | none => some (s.setSocksClient (.init destAddr udp fun _ => 0) (.udp k))
    | some _ => none
  | .socks p e =>
    (s.socksClient p).bind fun run =>
      (run.step (s.authInfo username password) e).map fun run' =>
        {s.setSocksClient run' p with requests := s.requests ++ newRequests s p run run'}
  | .dealloc i => clientDealloc s i

end TwilightLine.Usernames
