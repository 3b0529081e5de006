import TwilightLine.Lib.Run

/-! `ProxyManager.java` and `TwilightLineVpnService.java`: the proxy is started and stopped.

The manager binds to the service, which runs in a process of its own, and they send each
other messages. The service's handler of a start request takes three steps, and each may
fail before or after it has got something. A service that was disconnected is not run again
but by a new start, and with its process go the messages that were sent to it. -/
namespace TwilightLine.Proxy

/-- `ProxyManager.Status`. -/
inductive Status where
  | idle
  | starting
  | running
  | stopping
  deriving DecidableEq, Repr

/-- Between `bindService` and `unbindService`. -/
inductive Binding where
  | none
  /-- `onServiceConnected` will be called. -/
  | pending
  | connected
  /-- `onServiceDisconnected` was called. -/
  | lost
  deriving DecidableEq, Repr

/-- `MESSAGE_START_PROXY_REQUEST` and `MESSAGE_STOP_PROXY_REQUEST`. -/
inductive Request where
  | startProxy
  | stopProxy
  deriving DecidableEq, Repr

/-- `MESSAGE_START_PROXY_RESPONSE` and `MESSAGE_STOP_PROXY_RESPONSE`. -/
inductive Response where
  | startProxy
  | stopProxy
  deriving DecidableEq, Repr

/-- `TwilightLineVpnService`: which of its members are not null. -/
structure VpnService where
  clientMessenger : Bool
  vpnFileDescriptor : Bool
  twilightLineClientProcess : Bool
  tun2SocksProcess : Bool
  deriving DecidableEq, Repr

/-- A new service. -/
def VpnService.init : VpnService := ⟨false, false, false, false⟩

/-- The service has no open file descriptor and no running process. -/
def VpnService.Released (o : VpnService) : Prop :=
  o.vpnFileDescriptor = false ∧ o.twilightLineClientProcess = false ∧ o.tun2SocksProcess = false

instance (o : VpnService) : Decidable o.Released := inferInstanceAs (Decidable (_ ∧ _ ∧ _))

/-- How it goes with the VPN: an exception, `establish` returns null, or a descriptor. -/
inductive VpnOutcome where
  | failed
  | null
  | established
  deriving DecidableEq, Repr

/-- How it goes with a process: it does not start, it starts and the step fails later, or all goes well. -/
inductive ProcessOutcome where
  | failed
  | failedLater
  | started
  deriving DecidableEq, Repr

namespace VpnService

/-- `startVpnService`. -/
def startVpnService (o : VpnService) : VpnOutcome → VpnService × Bool
  | .failed => (o, false)
  | .null => ({o with vpnFileDescriptor := false}, true)
  | .established => ({o with vpnFileDescriptor := true}, true)

/-- `startTwilightLineClient`. -/
def startTwilightLineClient (o : VpnService) : ProcessOutcome → VpnService × Bool
  | .failed => (o, false)
  | .failedLater => ({o with twilightLineClientProcess := true}, false)
  | .started => ({o with twilightLineClientProcess := true}, true)

/-- `startTun2Socks`. Without a descriptor to send, an exception leaves the handler. -/
def startTun2Socks (o : VpnService) : ProcessOutcome → Option (VpnService × Bool)
  | .failed => some (o, false)
  | .failedLater => if o.vpnFileDescriptor then some ({o with tun2SocksProcess := true}, false) else none
  | .started => if o.vpnFileDescriptor then some ({o with tun2SocksProcess := true}, true) else none

/-- `onMessageStartProxyRequest`, and whether the response was sent. -/
def onMessageStartProxyRequest (o : VpnService) (vpn : VpnOutcome) (client tun2Socks : ProcessOutcome) (sent : Bool) :
    Option (VpnService × Bool) :=
  let o := {o with clientMessenger := true}
  let (o, started) := o.startVpnService vpn
  if started = false then some (o, false)
  else
    let (o, started) := o.startTwilightLineClient client
    if started = false then some (o, false)
    else
      match o.startTun2Socks tun2Socks with
      | none => none
      | some (o, false) => some (o, false)
      | some (o, true) => some (o, sent)

/-- `stopTun2Socks`, `stopTwilightLineClient` and `stopVpnService`. -/
def stop (o : VpnService) : VpnService :=
  {o with tun2SocksProcess := false, twilightLineClientProcess := false, vpnFileDescriptor := false}

/-- `onMessageStopProxyRequest`, and whether the response was sent; without a messenger it is not. -/
def onMessageStopProxyRequest (o : VpnService) (sent : Bool) : VpnService × Bool :=
  let o := o.stop
  if o.clientMessenger ∧ sent then ({o with clientMessenger := false}, true) else (o, false)

end VpnService

/-- The manager and the service, with the messages between them in their order. -/
structure State where
  status : Status
  /-- `proxyServiceMessenger` is not null. -/
  proxyServiceMessenger : Bool
  binding : Binding
  service : VpnService
  requests : List Request
  responses : List Response
  deriving DecidableEq, Repr

inductive Event where
  | start
  /-- A message may fail to be sent. -/
  | stop (sent : Bool)
  | onServiceConnected (sent : Bool)
  | onServiceDisconnected
  /-- The service handles the next request. -/
  | onMessageStartProxyRequest (vpn : VpnOutcome) (client tun2Socks : ProcessOutcome) (sent : Bool)
  | onMessageStopProxyRequest (sent : Bool)
  /-- The manager handles the next response. -/
  | handleProxyServiceMessage
  deriving DecidableEq, Repr

namespace State

def init : State where
  status := .idle
  proxyServiceMessenger := false
  binding := .none
  service := .init
  requests := []
  responses := []

/-- The service's process has died. -/
def disconnect (s : State) : State :=
  {s with proxyServiceMessenger := false, binding := .lost, service := .init, requests := []}

/-- `onMessageStartProxyResponse` and `onMessageStopProxyResponse`, which unbinds and stops the service. -/
def onMessageResponse (s : State) : Response → State
  | .startProxy => {s with status := .running}
  | .stopProxy => {s with status := .idle, binding := .none}

def step (s : State) : Event → Option State
  | .start => if s.status ≠ .idle then some s else some {s with status := .starting, binding := .pending}
  | .stop sent =>
    if s.status ≠ .running then some s
    else
      let s := {s with status := .stopping}
      if s.proxyServiceMessenger ∧ sent then some {s with requests := s.requests ++ [.stopProxy]} else some s
  | .onServiceConnected sent =>
    if s.binding = .pending then
      let s := {s with binding := .connected, proxyServiceMessenger := true}
      if sent then some {s with requests := s.requests ++ [.startProxy]} else some s
    else none
  | .onServiceDisconnected => if s.binding = .connected then some s.disconnect else none
  | .onMessageStartProxyRequest vpn client tun2Socks sent =>
    match s.requests with
    | .startProxy :: rest =>
      match s.service.onMessageStartProxyRequest vpn client tun2Socks sent with
      | none => some s.disconnect
      | some (service, responded) =>
        some {s with
          service := service
          requests := rest
          responses := s.responses ++ if responded then [.startProxy] else []}
    | _ => none
  | .onMessageStopProxyRequest sent =>
    match s.requests with
    | .stopProxy :: rest =>
      let (service, responded) := s.service.onMessageStopProxyRequest sent
      some {s with
        service := service
        requests := rest
        responses := s.responses ++ if responded then [.stopProxy] else []}
    | _ => none
  | .handleProxyServiceMessage =>
    match s.responses with
    | response :: rest => some ({s with responses := rest}.onMessageResponse response)
    | [] => none

end State

end TwilightLine.Proxy
