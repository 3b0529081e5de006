import TwilightLine.Socksclient.BSocksClient
import TwilightLine.UdpgwClient.UdpGwClient

/-! `tun2socks/SocksUdpGwClient.c`: the udpgw client over a SOCKS connection.

While there is a SOCKS client, it connects or the udpgw client has its stream for a server.
When either of them fails, the SOCKS client is freed and the reconnect timer is set. The
functions fail where their assertions do. -/
namespace TwilightLine

open Lib Socks

/-- The calls into the two clients that are about the stream between them, and the one that ends the udpgw client. -/
inductive SocksUdpGwCall where
  /-- `UdpGwClient_ConnectServer`, which has succeeded. -/
  | connectServer
  /-- `UdpGwClient_DisconnectServer`. -/
  | disconnectServer
  /-- `BSocksClient_Free`, and whether the udpgw client has a server then. -/
  | freeSocks (haveServer : Bool)
  /-- `UdpGwClient_Free`, and whether it has to free a server itself. -/
  | freeUdpgw (haveServer : Bool)
  deriving DecidableEq, Repr

/-- `SocksUdpGwClient`. -/
structure SocksUdpGwClient where
  remoteUdpgwAddr : BAddr
  udpgwClient : UdpGw.Client
  /-- Whether `reconnect_timer` is running. -/
  reconnectTimer : Bool
  haveSocks : Bool
  /-- The SOCKS client, from `BSocksClient_Init` to `BSocksClient_Free`. -/
  socksClient : Option SocksRun
  socksUp : Bool
  freed : Bool
  calls : List SocksUdpGwCall

namespace SocksUdpGwClient

/-- `UdpGwClient_ConnectServer`, where `PacketProtoDecoder_Init` succeeds or not. -/
def connectServer (o : SocksUdpGwClient) (decoder : Bool) : Option (SocksUdpGwClient × Bool) :=
  if o.udpgwClient.haveServer then none
  else if !decoder then some (o, false)
  else
    some ({o with udpgwClient := {o.udpgwClient with haveServer := true}, calls := o.calls ++ [.connectServer]}, true)

/-- `UdpGwClient_DisconnectServer`. -/
def disconnectServer (o : SocksUdpGwClient) : Option SocksUdpGwClient :=
  if o.udpgwClient.haveServer then
    some {o with udpgwClient := o.udpgwClient.disconnectServer, calls := o.calls ++ [.disconnectServer]}
  else none

/-- `BSocksClient_Free`. -/
def freeSocksClient (o : SocksUdpGwClient) : SocksUdpGwClient :=
  {o with socksClient := none, calls := o.calls ++ [.freeSocks o.udpgwClient.haveServer]}

/-- `free_socks`. -/
def freeSocks (o : SocksUdpGwClient) : Option SocksUdpGwClient :=
  if o.haveSocks then
    (if o.socksUp then o.disconnectServer else some o).map fun o => {o.freeSocksClient with haveSocks := false}
  else none

/-- `BReactor_SetTimer` for `reconnect_timer`. -/
def setTimer (o : SocksUdpGwClient) : SocksUdpGwClient := {o with reconnectTimer := true}

/-- `try_connect`. With memory `BSocksClient_Init` succeeds. -/
def tryConnect (o : SocksUdpGwClient) (memory : Option Memory) : Option SocksUdpGwClient :=
  if o.haveSocks = false ∧ o.reconnectTimer = false then
    match memory with
    | some buffer =>
      some {o with socksClient := some (.init o.remoteUdpgwAddr false buffer), haveSocks := true, socksUp := false}
    | none => some o.setTimer
  else none

/-- `reconnect_timer_handler`. -/
def reconnectTimerHandler (o : SocksUdpGwClient) (memory : Option Memory) : Option SocksUdpGwClient :=
  if o.haveSocks then none else o.tryConnect memory

/-- The SOCKS client is freed, to connect again later. -/
def retry (o : SocksUdpGwClient) : Option SocksUdpGwClient := o.freeSocks.map setTimer

/-- `socks_client_handler`. -/
def socksClientHandler (o : SocksUdpGwClient) (event : SocksEvent) (decoder : Bool) : Option SocksUdpGwClient :=
  if !o.haveSocks then none
  else
    match event with
    | .up =>
      if o.socksUp then none
      else (o.connectServer decoder).bind fun r => if r.2 then some {r.1 with socksUp := true} else r.1.retry
    | .error | .errorClosed => o.retry
    | .connected => some o

/-- `udpgw_handler_servererror`. -/
def udpgwHandlerServererror (o : SocksUdpGwClient) : Option SocksUdpGwClient :=
  if o.haveSocks ∧ o.socksUp then o.retry else none

/-- `SocksUdpGwClient_Init`, where `UdpGwClient_Init` succeeds. -/
def init (remoteUdpgwAddr : BAddr) (cfg : UdpGw.Config) (memory : Option Memory) : Option SocksUdpGwClient :=
  tryConnect {
    remoteUdpgwAddr := remoteUdpgwAddr
    udpgwClient := UdpGw.init cfg
    reconnectTimer := false
    haveSocks := false
    socksClient := none
    socksUp := false
    freed := false
    calls := [] } memory

/-- `UdpGwClient_Free`. -/
def freeUdpgwClient (o : SocksUdpGwClient) : SocksUdpGwClient :=
  {o with udpgwClient := o.udpgwClient.free, calls := o.calls ++ [.freeUdpgw o.udpgwClient.haveServer]}

/-- `SocksUdpGwClient_Free`. -/
def free (o : SocksUdpGwClient) : Option SocksUdpGwClient :=
  (if o.haveSocks then o.freeSocks else some o).map fun o =>
    {({o with reconnectTimer := false} : SocksUdpGwClient).freeUdpgwClient with freed := true}

inductive Event where
  /-- Something happens to the SOCKS client; a server is connected with a decoder or without. -/
  | socks (input : SocksInput) (decoder : Bool)
  | reconnectTimer (memory : Option Memory)
  /-- The decoder of the udpgw client finds an error. -/
  | serverError
  /-- A packet is submitted, or something else happens to the udpgw client. -/
  | udpgw (e : UdpGw.Event)
  | free

/-- What the SOCKS client reports in a step. -/
def reported (s s' : SocksRun) : Option SocksEvent := s'.events[s.events.length]?

/-- The calls that the user of a SOCKS client makes. -/
def isUserCall : SocksInput → Bool
  | .setDestAddr _ | .free => true
  | _ => false

/-- The calls that connect and disconnect the server of the udpgw client. -/
def isServerCall : UdpGw.Event → Bool
  | .connect | .disconnect => true
  | _ => false

/-- Whether an event can happen. The SOCKS client must be there for what happens to it, a timer that expires is
running, and only a connected server has a decoder. -/
def enabled (authInfo : List AuthInfo) (o : SocksUdpGwClient) (e : Event) : Bool :=
  !o.freed &&
    match e with
    | .socks input _ => !isUserCall input && o.socksClient.any fun s => (s.step authInfo input).isSome
    | .reconnectTimer _ => o.reconnectTimer
    | .serverError => o.udpgwClient.haveServer
    | .udpgw e => !isServerCall e && (UdpGw.step o.udpgwClient e).isSome
    | .free => true

/-- The handler of an event. -/
def handle (authInfo : List AuthInfo) (o : SocksUdpGwClient) : Event → Option SocksUdpGwClient
  | .socks input decoder =>
    o.socksClient.bind fun s =>
      (s.step authInfo input).bind fun s' =>
        let o := {o with socksClient := some s'}
        match reported s s' with
        | none => some o
        | some event => o.socksClientHandler event decoder
  | .reconnectTimer memory => {o with reconnectTimer := false}.reconnectTimerHandler memory
  | .serverError => o.udpgwHandlerServererror
  | .udpgw e => (UdpGw.step o.udpgwClient e).map fun client => {o with udpgwClient := client}
  | .free => o.free

def step (authInfo : List AuthInfo) (o : SocksUdpGwClient) (e : Event) : Option SocksUdpGwClient :=
  if o.enabled authInfo e then o.handle authInfo e else none

end SocksUdpGwClient

end TwilightLine
