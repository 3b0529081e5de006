import TwilightLine.Socksclient.BSocksClientRuns
import TwilightLine.Tun2socks.SocksUdpGwClient
import TwilightLine.UdpgwClient.UdpGwClientTables
import Mathlib.Data.Bool.Basic

/-! Runs of the udpgw client over SOCKS.

Between events there is a SOCKS client or the reconnect timer is running, and a server is
connected exactly while the SOCKS client is up. Whatever ends a SOCKS client, the server is
disconnected before, and when all is freed nothing is left of either (`connects_again`). -/
namespace TwilightLine

namespace Socks

open Lib

variable {authInfo : List AuthInfo} {s s' : SocksRun} {o : BSocksClient} {c : Control} {r : Handled}

/-- A client that was not up is up after a handler exactly if the handler reports that, and its interfaces for the
exchange with the server are gone then. -/
def Settled (r : Handled) : Prop :=
  match r.2 with
  | none | some .connected => r.1.state ≠ .up
  | some .up => r.1.state = .up ∧ r.1.control = none
  | some .error | some .errorClosed => True

theorem settled_error (h : o.reportError = some r) : Settled r := by
  cases h
  trivial

theorem settled_sendMessage {message : List UInt8} {state : SocksState} (h : o.sendMessage c message state = some r)
    (hstate : state ≠ .up) : Settled r := by
  obtain ⟨c', -, rfl⟩ := Option.map_eq_some_iff.mp h
  exact hstate

theorem settled_receiveMessage {size dest total : Nat} {state : SocksState}
    (h : o.receiveMessage c size dest total state = some r) (hstate : state ≠ .up) : Settled r := by
  obtain ⟨c', -, rfl⟩ := Option.map_eq_some_iff.mp h
  exact hstate

theorem settled_authFinished (h : o.authFinished c = some r) : Settled r := by
  unfold BSocksClient.authFinished at h
  split at h
  · exact settled_error h
  · exact settled_sendMessage h nofun

theorem settled_sendHandlerDone (h : o.sendHandlerDone c = some r) : Settled r := by
  unfold BSocksClient.sendHandlerDone at h
  split at h
  · exact settled_receiveMessage h nofun
  · exact settled_receiveMessage h nofun
  · exact settled_receiveMessage h nofun
  · cases h

theorem settled_receivedHello (h : o.receivedHello authInfo c = some r) : Settled r := by
  unfold BSocksClient.receivedHello at h
  split at h
  · exact settled_error h
  · split at h
    · exact settled_error h
    · exact settled_authFinished h
    · split at h
      · exact settled_error h
      · exact settled_sendMessage h nofun

theorem settled_receivedPasswordReply (h : o.receivedPasswordReply c = some r) : Settled r := by
  unfold BSocksClient.receivedPasswordReply at h
  split_ifs at h
  · exact settled_error h
  · exact settled_error h
  · exact settled_authFinished h

theorem settled_receivedHeader (h : o.receivedHeader c = some r) : Settled r := by
  unfold BSocksClient.receivedHeader at h
  split_ifs at h
  · exact settled_error h
  · exact settled_error h
  · obtain ⟨c', -, rfl⟩ := Option.map_eq_some_iff.mp h
    exact nofun
  · obtain ⟨c', -, rfl⟩ := Option.map_eq_some_iff.mp h
    exact nofun
  · exact settled_error h

theorem settled_recvHandlerDone {n : Nat} (hstate : o.state ≠ .up) (h : o.recvHandlerDone authInfo c n = some r) :
    Settled r := by
  unfold BSocksClient.recvHandlerDone at h
  split at h
  · cases h
  · dsimp only at h
    split at h
    · obtain ⟨c', -, rfl⟩ := Option.map_eq_some_iff.mp h
      exact hstate
    · split at h
      · exact settled_receivedHello h
      · exact settled_receivedPasswordReply h
      · exact settled_receivedHeader h
      · obtain ⟨addr, -, rfl⟩ := Option.map_eq_some_iff.mp h
        exact ⟨rfl, rfl⟩
      · cases h

theorem settled_continueJobHandler (h : BSocksClient.continueJobHandler authInfo o c = some r) : Settled r := by
  unfold BSocksClient.continueJobHandler at h
  split_ifs at h
  · exact settled_error h
  · exact settled_sendMessage h nofun

theorem connectionHandler_reports {recvClosed : Bool} (h : o.connectionHandler recvClosed = some r) :
    ∃ event, r = (o, some event) ∧ (event = .error ∨ event = .errorClosed) := by
  unfold BSocksClient.connectionHandler at h
  split_ifs at h
  · cases h
    exact ⟨_, rfl, .inr rfl⟩
  · cases h
    exact ⟨_, rfl, .inl rfl⟩

/-- The client was neither freed nor has failed, and when it is up the exchange with the server is over. -/
structure Serving (s : SocksRun) : Prop where
  freed : s.freed = false
  failed : ¬s.Failed
  up : s.o.state = .up → s.o.control = none

open SocksUdpGwClient in
/-- What a step of a client is to its user, by what is reported. -/
def Step (s s' : SocksRun) : Prop :=
  match reported s s' with
  | none => Serving s' ∧ (s'.o.state = .up ↔ s.o.state = .up)
  | some .connected => Serving s' ∧ s.o.state ≠ .up ∧ s'.o.state ≠ .up
  | some .up => Serving s' ∧ s.o.state ≠ .up ∧ s'.o.state = .up
  | some .error | some .errorClosed => True

/-- A step that runs no handler of the client. -/
theorem Serving.quiet (h : Serving s) (hfreed : s'.freed = s.freed) (hevents : s'.events = s.events)
    (hstate : s'.o.state = s.o.state) (hcontrol : s.o.control = none → s'.o.control = none) : Step s s' := by
  have hnone : SocksUdpGwClient.reported s s' = none := by simp [SocksUdpGwClient.reported, hevents]
  unfold Step
  rw [hnone]
  refine ⟨⟨hfreed.trans h.freed, ?_, fun hup => hcontrol (h.up (hstate ▸ hup))⟩, by rw [hstate]⟩
  unfold SocksRun.Failed
  rw [hevents]
  exact h.failed

theorem Serving.handles (h : Serving s) (hr : Settled r) (hstate : s.o.state ≠ .up)
    (hs' : s'.o = r.1 ∧ s'.freed = s.freed ∧ s'.events = s.events ++ r.2.toList) : Step s s' := by
  obtain ⟨ho, hfreed, hevents⟩ := hs'
  have hreported : SocksUdpGwClient.reported s s' = r.2 := by
    unfold SocksUdpGwClient.reported
    rw [hevents, List.getElem?_append_right (le_refl _), Nat.sub_self]
    cases r.2 <;> rfl
  have hfailed : r.2 ≠ some .error → r.2 ≠ some .errorClosed → ¬s'.Failed := by
    intro herror hclosed
    have hbefore := h.failed
    unfold SocksRun.Failed at hbefore ⊢
    rw [hevents]
    simpa [herror, hclosed] using hbefore
  unfold Step
  unfold Settled at hr
  rw [hreported]
  split at hr
  · next hnone =>
    rw [hnone] at hfailed
    exact ⟨⟨hfreed.trans h.freed, hfailed nofun nofun, fun hup => absurd (ho ▸ hup) hr⟩, by simp [ho, hr, hstate]⟩
  · next hconnected =>
    rw [hconnected] at hfailed
    exact ⟨⟨hfreed.trans h.freed, hfailed nofun nofun, fun hup => absurd (ho ▸ hup) hr⟩, hstate, ho ▸ hr⟩
  · next hup =>
    rw [hup] at hfailed
    exact ⟨⟨hfreed.trans h.freed, hfailed nofun nofun, fun _ => ho ▸ hr.2⟩, hstate, ho ▸ hr.1⟩
  · trivial
  · trivial

/-- While there is control, the client is not up. -/
theorem Serving.notUp (h : Serving s) (hc : s.o.control = some c) : s.o.state ≠ .up := by
  intro hup
  rw [h.up hup] at hc
  cases hc

theorem Serving.onSender {f : PacketStreamSender → Option PacketStreamSender} (h : Serving s)
    (he : s.onSender f = some s') : Step s s' := by
  obtain ⟨c, hc, he⟩ := Option.bind_eq_some_iff.mp he
  obtain ⟨sender, -, rfl⟩ := Option.map_eq_some_iff.mp he
  exact h.quiet rfl rfl rfl fun hnone => by simp [hnone] at hc

/-- **What a step of the client is to its user.** -/
theorem Serving.step {input : SocksInput} (h : Serving s) (huser : SocksUdpGwClient.isUserCall input = false)
    (he : s.step authInfo input = some s') : Step s s' := by
  unfold SocksRun.step at he
  rw [if_neg (by simp [h.freed]), if_neg fun hf => h.failed hf.1] at he
  cases input with
  | connectorResult isError connectionInit =>
    obtain ⟨r, hr, rfl⟩ := Option.map_eq_some_iff.mp he
    unfold BSocksClient.connectorHandler at hr
    split_ifs at hr with hstate herror
    · have hconnecting := not_not.mp hstate
      exact h.handles (settled_error hr) (by simp [hconnecting]) ⟨rfl, rfl, rfl⟩
    · have hconnecting := not_not.mp hstate
      have hsettled : Settled r := by
        cases hr
        simp [Settled]
      exact h.handles hsettled (by simp [hconnecting]) ⟨rfl, rfl, rfl⟩
  | connectionEvent recvClosed =>
    obtain ⟨r, hr, rfl⟩ := Option.map_eq_some_iff.mp he
    obtain ⟨event, hr, hevent⟩ := connectionHandler_reports hr
    unfold Step SocksUdpGwClient.reported
    rcases hevent with rfl | rfl <;> simp [SocksRun.handled, hr]
  | continueJob =>
    obtain ⟨c, hc, he⟩ := Option.bind_eq_some_iff.mp he
    obtain ⟨-, he⟩ := Option.ite_none_right_eq_some.mp he
    obtain ⟨r, hr, rfl⟩ := Option.map_eq_some_iff.mp he
    exact h.handles (settled_continueJobHandler hr) (h.notUp hc) ⟨rfl, rfl, rfl⟩
  | sendDone =>
    obtain ⟨c, hc, he⟩ := Option.bind_eq_some_iff.mp he
    obtain ⟨input, -, he⟩ := Option.bind_eq_some_iff.mp he
    obtain ⟨r, hr, rfl⟩ := Option.map_eq_some_iff.mp he
    exact h.handles (settled_sendHandlerDone hr) (h.notUp hc) ⟨rfl, rfl, rfl⟩
  | recvDone =>
    obtain ⟨c, hc, he⟩ := Option.bind_eq_some_iff.mp he
    obtain ⟨res, -, he⟩ := Option.bind_eq_some_iff.mp he
    obtain ⟨r, hr, rfl⟩ := Option.map_eq_some_iff.mp he
    exact h.handles (settled_recvHandlerDone (h.notUp hc) hr) (h.notUp hc) ⟨rfl, rfl, rfl⟩
  | received data =>
    obtain ⟨c, hc, he⟩ := Option.bind_eq_some_iff.mp he
    split at he
    · obtain ⟨-, he⟩ := Option.ite_none_right_eq_some.mp he
      cases he
      exact h.quiet rfl rfl rfl fun hnone => by simp [hnone] at hc
    · cases he
  | senderOperation => exact h.onSender he
  | streamOperation => exact h.onSender he
  | streamDone => exact h.onSender he
  | sent n =>
    obtain ⟨c, hc, he⟩ := Option.bind_eq_some_iff.mp he
    obtain ⟨res, -, rfl⟩ := Option.map_eq_some_iff.mp he
    exact h.quiet rfl rfl rfl fun hnone => by simp [hnone] at hc
  | recvOperation =>
    obtain ⟨c, hc, he⟩ := Option.bind_eq_some_iff.mp he
    obtain ⟨res, -, rfl⟩ := Option.map_eq_some_iff.mp he
    exact h.quiet rfl rfl rfl fun hnone => by simp [hnone] at hc
  | setDestAddr addr => cases huser
  | free => cases huser

end Socks

namespace UdpGw

variable {o o' : Client} {p : Ptr}

theorem connectionSend_haveServer (o : Client) (p : Ptr) (flags : UInt8) (data : List UInt8) (origin : Origin) :
    (o.connectionSend p flags data origin).haveServer = o.haveServer := by
  unfold Client.connectionSend
  split <;> rfl

theorem connectionInit_haveServer {conaddr : Conaddr} {flags : UInt8} {data : List UInt8} {alloc : Alloc}
    (h : o.connectionInit conaddr flags data alloc = some o') : o'.haveServer = o.haveServer := by
  unfold Client.connectionInit at h
  split at h
  · cases h
    rfl
  · split at h
    · cases h
    · dsimp only at h
      split at h
      · cases h
        rfl
      · split at h
        · cases h
          rfl
        · cases h
          rfl

theorem submitPacket_haveServer {localAddr remoteAddr : BAddr} {isDns : Bool} {data : List UInt8} {alloc : Alloc}
    (h : o.submitPacket localAddr remoteAddr isDns data alloc = some o') : o'.haveServer = o.haveServer := by
  unfold Client.submitPacket at h
  dsimp only at h
  split at h
  · cases h
    exact connectionSend_haveServer ..
  · split at h
    · split at h
      · cases h
      · next o₁ p hreuse =>
        cases h
        have hreuse : o₁.haveServer = o.haveServer := by
          unfold Client.reuseConnection at hreuse
          split at hreuse
          · cases hreuse
          · cases hreuse
            rfl
        exact (connectionSend_haveServer ..).trans hreuse
    · exact connectionInit_haveServer h

theorem recvInterfaceHandlerSend_haveServer (o : Client) (data : List UInt8) :
    (o.recvInterfaceHandlerSend data).haveServer = o.haveServer := by
  unfold Client.recvInterfaceHandlerSend
  split
  · rfl
  · split
    · rfl
    · split
      · rfl
      · dsimp only
        split <;> rfl

theorem executeJob_haveServer (h : o.executeJob = some o') : o'.haveServer = o.haveServer := by
  unfold Client.executeJob at h
  split at h
  · cases h
  · cases h
    rfl
  · cases h
    exact connectionSend_haveServer ..
  · cases h
    rfl

/-- Only `UdpGwClient_ConnectServer` and `UdpGwClient_DisconnectServer` change whether there is a server. -/
theorem step_haveServer {e : Event} (he : SocksUdpGwClient.isServerCall e = false) (h : step o e = some o') :
    o'.haveServer = o.haveServer := by
  cases e with
  | handler =>
    obtain ⟨-, h⟩ := Option.ite_none_left_eq_some.mp h
    cases h
    rfl
  | job =>
    obtain ⟨-, h⟩ := Option.ite_none_left_eq_some.mp h
    exact executeJob_haveServer h
  | submit localAddr remoteAddr isDns data alloc =>
    obtain ⟨-, h⟩ := Option.ite_none_right_eq_some.mp h
    exact submitPacket_haveServer h
  | receive data =>
    obtain ⟨-, h⟩ := Option.ite_none_right_eq_some.mp h
    cases h
    exact recvInterfaceHandlerSend_haveServer ..
  | transmit p =>
    simp only [step, Client.transmit] at h
    split at h
    · cases h
    · split at h
      · cases h
      · cases h
        rfl
  | drain p =>
    obtain ⟨-, h⟩ := Option.ite_none_right_eq_some.mp h
    simp only [Client.drain] at h
    split at h
    · cases h
    · split at h
      · cases h
      · cases h
        rfl
  | connect => cases he
  | disconnect => cases he
  | _ =>
    obtain ⟨-, h⟩ := Option.ite_none_right_eq_some.mp h
    cases h
    rfl

end UdpGw

namespace SocksUdpGwClient

open Lib Socks

variable {authInfo : List AuthInfo} {o o' : SocksUdpGwClient} {e : Event}

/-- No SOCKS client was freed while the udpgw client had its stream for a server. -/
def FreedAfterDisconnect (o : SocksUdpGwClient) : Prop := ∀ haveServer, .freeSocks haveServer ∈ o.calls → haveServer = false

/-- The calls of a teardown: a server that is connected is disconnected, then the SOCKS client is freed. -/
def teardown (o : SocksUdpGwClient) : List SocksUdpGwCall :=
  (if o.udpgwClient.haveServer then [.disconnectServer] else []) ++ if o.socksClient.isSome then [.freeSocks false] else []

/-- A SOCKS client that is gone after a step was freed in a teardown, and the udpgw client behind it if all is freed. -/
def TornDown (o o' : SocksUdpGwClient) : Prop :=
  o.socksClient.isSome → o'.socksClient = none →
    o'.calls = o.calls ++ o.teardown ++ if o'.freed then [.freeUdpgw false] else []

/-- What is left when the client is freed in a state: nothing runs, nothing is connected. -/
structure Freed (o o' : SocksUdpGwClient) : Prop where
  freed : o'.freed = true
  socksClient : o'.socksClient = none
  reconnectTimer : o'.reconnectTimer = false
  server : o'.udpgwClient.haveServer = false
  connections : o'.udpgwClient.Emptied
  calls : o'.calls = o.calls ++ o.teardown ++ [.freeUdpgw false]

/-- What holds between events, until the client is freed. -/
structure Inv (o : SocksUdpGwClient) : Prop where
  socks : o.haveSocks = o.socksClient.isSome
  timer : o.reconnectTimer = !o.haveSocks
  server : o.udpgwClient.haveServer = (o.haveSocks && o.socksUp)
  serving : ∀ s, o.socksClient = some s → Serving s ∧ (s.o.state = .up ↔ o.socksUp = true)
  calls : o.FreedAfterDisconnect
  live : o.freed = false
  client : UdpGw.Standing o.udpgwClient

/-- A server is connected while a SOCKS client is up. -/
theorem Inv.server_eq (h : o.Inv) (hsocks : o.haveSocks = true) : o.udpgwClient.haveServer = o.socksUp := by
  rw [h.server, hsocks, Bool.true_and]

/-- Without a SOCKS client there is no server. -/
theorem Inv.waiting (h : o.Inv) (hsocks : o.haveSocks = false) :
    o.socksClient = none ∧ o.udpgwClient.haveServer = false := by
  have hclient := h.socks
  rw [hsocks] at hclient
  exact ⟨by simpa using hclient.symm, by rw [h.server, hsocks, Bool.false_and]⟩

theorem FreedAfterDisconnect.torn (h : o.FreedAfterDisconnect) {rest : List SocksUdpGwCall}
    (hcalls : o'.calls = o.calls ++ o.teardown ++ rest) (hrest : ∀ haveServer, .freeSocks haveServer ∉ rest) :
    o'.FreedAfterDisconnect := by
  intro haveServer hmem
  rw [hcalls, List.mem_append, List.mem_append] at hmem
  rcases hmem with (hmem | hmem) | hmem
  · exact h haveServer hmem
  · rw [teardown, List.mem_append] at hmem
    rcases hmem with hmem | hmem
    · split at hmem <;> simp at hmem
    · split at hmem <;> simp at hmem
      exact hmem
  · exact absurd hmem (hrest haveServer)

/-- The SOCKS client is freed when there is no server any more. -/
theorem freeSocks_spec (hsocks : o.haveSocks = true) (hclient : o.socksClient.isSome = true)
    (hserver : o.udpgwClient.haveServer = o.socksUp) (hstanding : UdpGw.Standing o.udpgwClient) :
    ∃ o', o.freeSocks = some o' ∧ o'.haveSocks = false ∧ o'.socksClient = none ∧ o'.udpgwClient.haveServer = false ∧
      UdpGw.Standing o'.udpgwClient ∧ o'.freed = o.freed ∧ o'.calls = o.calls ++ o.teardown := by
  rw [freeSocks, if_pos hsocks]
  cases hup : o.socksUp with
  | true =>
    rw [hup] at hserver
    rw [if_pos rfl, disconnectServer, if_pos hserver]
    refine ⟨_, rfl, rfl, rfl, rfl, hstanding.disconnectServer, rfl, ?_⟩
    rw [teardown, if_pos hserver, if_pos hclient, ← List.append_assoc]
    rfl
  | false =>
    rw [hup] at hserver
    refine ⟨_, rfl, rfl, rfl, hserver, hstanding, rfl, ?_⟩
    rw [teardown, if_neg (by rw [hserver]; exact Bool.false_ne_true), if_pos hclient, List.nil_append]
    exact congrArg (fun haveServer => o.calls ++ [SocksUdpGwCall.freeSocks haveServer]) hserver

/-- The client tries again later. -/
theorem retry_spec (hsocks : o.haveSocks = true) (hclient : o.socksClient.isSome = true)
    (hserver : o.udpgwClient.haveServer = o.socksUp) (hcalls : o.FreedAfterDisconnect) (hlive : o.freed = false)
    (hstanding : UdpGw.Standing o.udpgwClient) :
    ∃ o', o.retry = some o' ∧ o'.Inv ∧ o'.calls = o.calls ++ o.teardown := by
  obtain ⟨o', hfree, hsocks', hnone, hserver', hstanding', hlive', hcalls'⟩ := freeSocks_spec hsocks hclient hserver hstanding
  have hall : o'.calls = o.calls ++ o.teardown ++ [] := by rw [hcalls', List.append_nil]
  have htorn : o'.FreedAfterDisconnect := hcalls.torn hall nofun
  refine ⟨o'.setTimer, by rw [retry, hfree]; rfl, ⟨?_, ?_, ?_, ?_, htorn, hlive'.trans hlive, hstanding'⟩, hcalls'⟩
  · simp [setTimer, hsocks', hnone]
  · simp [setTimer, hsocks']
  · simp [setTimer, hsocks', hserver']
  · simp [setTimer, hnone]

/-- A new SOCKS client begins, or the timer is set again. -/
theorem tryConnect_spec (memory : Option Memory) (hsocks : o.haveSocks = false) (hnone : o.socksClient = none)
    (htimer : o.reconnectTimer = false) (hserver : o.udpgwClient.haveServer = false) (hcalls : o.FreedAfterDisconnect)
    (hlive : o.freed = false) (hstanding : UdpGw.Standing o.udpgwClient) : ∃ o', o.tryConnect memory = some o' ∧ o'.Inv := by
  unfold tryConnect
  rw [if_pos ⟨hsocks, htimer⟩]
  cases memory with
  | none => exact ⟨_, rfl, by simp [setTimer, hsocks, hnone], by simp [setTimer, hsocks], by simp [setTimer, hsocks, hserver],
      by simp [setTimer, hnone], hcalls, hlive, hstanding⟩
  | some buffer =>
    refine ⟨_, rfl, rfl, htimer, hserver, ?_, hcalls, hlive, hstanding⟩
    intro s hs
    cases hs
    exact ⟨⟨rfl, by simp [SocksRun.Failed, SocksRun.init], nofun⟩, by simp [SocksRun.init, BSocksClient.init]⟩

/-- Something happens to the SOCKS client. -/
theorem Inv.socks_event (h : o.Inv) {s s' : SocksRun} (hs : o.socksClient = some s) (hstep : Step s s') (decoder : Bool) :
    ∃ o', (match reported s s' with
      | none => some {o with socksClient := some s'}
      | some event => {o with socksClient := some s'}.socksClientHandler event decoder) = some o' ∧ o'.Inv ∧
      (o'.socksClient = none → o'.calls = o.calls ++ o.teardown) := by
  have hsocks : o.haveSocks = true := by rw [h.socks, hs]; rfl
  obtain ⟨-, hup⟩ := h.serving s hs
  have hserver := h.server_eq hsocks
  have hretry : ∃ o', {o with socksClient := some s'}.retry = some o' ∧ o'.Inv ∧
      (o'.socksClient = none → o'.calls = o.calls ++ o.teardown) := by
    obtain ⟨o', heq, hinv, hcalls⟩ := retry_spec (o := {o with socksClient := some s'}) hsocks rfl hserver h.calls h.live h.client
    have hsame : teardown {o with socksClient := some s'} = o.teardown := by rw [teardown, teardown, hs]; rfl
    exact ⟨o', heq, hinv, fun _ => by rw [hcalls, hsame]⟩
  unfold Step at hstep
  cases hreported : reported s s' with
  | none =>
    rw [hreported] at hstep
    refine ⟨_, rfl, ⟨h.socks.trans (by rw [hs]; rfl), h.timer, h.server, ?_, h.calls, h.live, h.client⟩, nofun⟩
    intro s₁ hs₁
    cases hs₁
    exact ⟨hstep.1, hstep.2.trans hup⟩
  | some event =>
    rw [hreported] at hstep
    dsimp only
    unfold socksClientHandler
    rw [if_neg (by simp [hsocks])]
    cases event with
    | connected =>
      refine ⟨_, rfl, ⟨h.socks.trans (by rw [hs]; rfl), h.timer, h.server, ?_, h.calls, h.live, h.client⟩, nofun⟩
      intro s₁ hs₁
      cases hs₁
      exact ⟨hstep.1, iff_of_false hstep.2.2 fun hsup => hstep.2.1 (hup.mpr hsup)⟩
    | up =>
      have hdown : o.socksUp = false := Bool.eq_false_iff.mpr fun hsup => hstep.2.1 (hup.mpr hsup)
      rw [hdown] at hserver
      dsimp only
      rw [if_neg (by simp [hdown]), connectServer, if_neg (by simp [hserver])]
      cases decoder with
      | false => exact hretry
      | true =>
        refine ⟨_, rfl, ⟨h.socks.trans (by rw [hs]; rfl), h.timer, by simp [hsocks], ?_, ?_, h.live, h.client.connected⟩, nofun⟩
        · intro s₁ hs₁
          cases hs₁
          exact ⟨hstep.1, iff_of_true hstep.2.2 rfl⟩
        · intro haveServer hmem
          exact h.calls haveServer (by simpa using hmem)
    | error => exact hretry
    | errorClosed => exact hretry

/-- **When the client is freed** nothing is left. -/
theorem Inv.free (h : o.Inv) : ∃ o', o.free = some o' ∧ o.Freed o' := by
  rw [SocksUdpGwClient.free]
  by_cases hsocks : o.haveSocks = true
  · obtain ⟨o', heq, -, hnone, hserver', hstanding, -, hcalls⟩ := freeSocks_spec hsocks (h.socks.symm.trans hsocks)
      (h.server_eq hsocks) h.client
    rw [if_pos hsocks, heq]
    refine ⟨_, rfl, rfl, hnone, rfl, rfl, hstanding.free, ?_⟩
    exact congr (congrArg (fun calls haveServer => calls ++ [SocksUdpGwCall.freeUdpgw haveServer]) hcalls) hserver'
  · obtain ⟨hnone, hserver⟩ := h.waiting (Bool.eq_false_iff.mpr hsocks)
    have hcalls : o.calls ++ o.teardown = o.calls := by simp [teardown, hserver, hnone]
    rw [if_neg hsocks]
    refine ⟨_, rfl, rfl, hnone, rfl, rfl, h.client.free, ?_⟩
    rw [hcalls]
    exact congrArg (fun haveServer => o.calls ++ [SocksUdpGwCall.freeUdpgw haveServer]) hserver

/-- **The handlers do not fail**, and the client keeps its invariant. -/
theorem Inv.handle (h : o.Inv) (he : o.enabled authInfo e = true) :
    ∃ o', o.handle authInfo e = some o' ∧ o'.FreedAfterDisconnect ∧ (o'.freed = false → o'.Inv) ∧ o.TornDown o' := by
  unfold enabled at he
  rw [Bool.and_eq_true] at he
  cases e with
  | socks input decoder =>
    obtain ⟨-, he⟩ := he
    rw [Bool.and_eq_true, Bool.not_eq_true', Option.any_eq_true] at he
    obtain ⟨huser, s, hs, hstep⟩ := he
    obtain ⟨s', hs'⟩ := Option.isSome_iff_exists.mp hstep
    obtain ⟨o', ho', hinv, htorn⟩ := h.socks_event hs ((h.serving s hs).1.step huser hs') decoder
    refine ⟨o', ?_, hinv.calls, fun _ => hinv, fun _ hgone => ?_⟩
    · simp only [SocksUdpGwClient.handle, hs, Option.bind_some, hs']
      exact ho'
    · rw [htorn hgone, hinv.live]
      exact (List.append_nil _).symm
  | reconnectTimer memory =>
    have hrunning : o.reconnectTimer = true := he.2
    have hsocks : o.haveSocks = false := by
      have htimer := h.timer
      rw [hrunning] at htimer
      simpa using htimer
    obtain ⟨hnone, hserver⟩ := h.waiting hsocks
    obtain ⟨o', ho', hinv⟩ := tryConnect_spec (o := {o with reconnectTimer := false}) memory hsocks hnone rfl hserver
      h.calls h.live h.client
    refine ⟨o', ?_, hinv.calls, fun _ => hinv, fun hsome => by simp [hnone] at hsome⟩
    rw [SocksUdpGwClient.handle, reconnectTimerHandler, if_neg (by simp [hsocks])]
    exact ho'
  | serverError =>
    have hserver : o.udpgwClient.haveServer = true := he.2
    have hboth : o.haveSocks = true ∧ o.socksUp = true := by
      rw [h.server, Bool.and_eq_true] at hserver
      exact hserver
    obtain ⟨o', ho', hinv, hcalls⟩ := retry_spec hboth.1 (h.socks.symm.trans hboth.1) (h.server_eq hboth.1) h.calls h.live
      h.client
    refine ⟨o', by rw [SocksUdpGwClient.handle, udpgwHandlerServererror, if_pos hboth, ho'], hinv.calls, fun _ => hinv,
      fun _ _ => ?_⟩
    rw [hcalls, hinv.live]
    exact (List.append_nil _).symm
  | udpgw e =>
    obtain ⟨-, he⟩ := he
    rw [Bool.and_eq_true, Bool.not_eq_true'] at he
    obtain ⟨client, hclient⟩ := Option.isSome_iff_exists.mp he.2
    refine ⟨{o with udpgwClient := client}, by rw [SocksUdpGwClient.handle, hclient]; rfl, h.calls, fun _ => ?_, fun hsome hnone => ?_⟩
    · exact ⟨h.socks, h.timer, (UdpGw.step_haveServer he.1 hclient).trans h.server, h.serving, h.calls, h.live,
        h.client.step hclient⟩
    · have hgone : o.socksClient = none := hnone
      simp [hgone] at hsome
  | free =>
    obtain ⟨o', ho', hfreed⟩ := h.free
    refine ⟨o', ho', h.calls.torn hfreed.calls nofun, fun hlive => ?_, fun _ _ => ?_⟩
    · rw [hfreed.freed] at hlive
      cases hlive
    · rw [hfreed.calls, hfreed.freed]
      rfl

/-- What holds in every state of a run. -/
def Kept (o : SocksUdpGwClient) : Prop := o.FreedAfterDisconnect ∧ (o.freed = false → o.Inv)

theorem live_of_enabled (h : o.enabled authInfo e = true) : o.freed = false := by
  unfold enabled at h
  rw [Bool.and_eq_true, Bool.not_eq_true'] at h
  exact h.1

theorem Kept.step (h : o.Kept) (he : o.step authInfo e = some o') : o'.Kept ∧ o.TornDown o' := by
  obtain ⟨henabled, he⟩ := Option.ite_none_right_eq_some.mp he
  obtain ⟨o₁, ho₁, hcalls, hinv, htorn⟩ := (h.2 (live_of_enabled henabled)).handle henabled
  rw [he, Option.some.injEq] at ho₁
  exact ho₁ ▸ ⟨⟨hcalls, hinv⟩, htorn⟩

theorem kept_init (remoteUdpgwAddr : BAddr) (cfg : UdpGw.Config) (memory : Option Memory) :
    ∃ o, init remoteUdpgwAddr cfg memory = some o ∧ o.Kept := by
  obtain ⟨o, ho, hinv⟩ := tryConnect_spec (o := ⟨remoteUdpgwAddr, UdpGw.init cfg, false, false, none, false, false, []⟩)
    memory rfl rfl rfl rfl nofun rfl (UdpGw.standing_init cfg)
  exact ⟨o, ho, hinv.calls, fun _ => hinv⟩

/-- **The client connects again.** Between any events, until it is freed, there either is a SOCKS client or the
reconnect timer is running, and the udpgw client has a server exactly while a SOCKS client is up. No handler of an
event that can happen fails. Every teardown disconnects a server before it frees the SOCKS client, and when the client
is freed, as it can be at any time, nothing is left. -/
theorem connects_again (authInfo : List AuthInfo) (remoteUdpgwAddr : BAddr) (cfg : UdpGw.Config) (memory : Option Memory) :
    ∃ o₀, init remoteUdpgwAddr cfg memory = some o₀ ∧
      ∀ es o, Run.run (step authInfo) o₀ es = some o →
        (o.freed = false →
          o.reconnectTimer = !o.socksClient.isSome ∧ o.haveSocks = o.socksClient.isSome ∧
          (o.udpgwClient.haveServer = true ↔ ∃ s, o.socksClient = some s ∧ s.o.state = .up) ∧
          ∃ o', o.step authInfo .free = some o' ∧ o.Freed o') ∧
        (∀ e, o.enabled authInfo e = true → (o.handle authInfo e).isSome) ∧
        (∀ haveServer, .freeSocks haveServer ∈ o.calls → haveServer = false) ∧
        ∀ e o', o.step authInfo e = some o' → o.TornDown o' := by
  obtain ⟨o₀, ho₀, hkept⟩ := kept_init remoteUdpgwAddr cfg memory
  refine ⟨o₀, ho₀, fun es o hrun => ?_⟩
  have hkept' : o.Kept := Run.run_invariant Kept (fun _ _ _ h he => (h.step he).1) hrun hkept
  have hlive := hkept'.2
  refine ⟨fun hfreed => ?_, fun e henabled => ?_, hkept'.1, fun e o' he => (hkept'.step he).2⟩
  · have h := hlive hfreed
    obtain ⟨o', ho', hleft⟩ := h.free
    have henabled : o.enabled authInfo .free = true := by rw [enabled, hfreed]; rfl
    refine ⟨by rw [h.timer, h.socks], h.socks, ?_, o', by rw [step, if_pos henabled]; exact ho', hleft⟩
    rw [h.server, h.socks, Bool.and_eq_true, Option.isSome_iff_exists]
    constructor
    · rintro ⟨⟨s, hs⟩, hup⟩
      exact ⟨s, hs, (h.serving s hs).2.mpr hup⟩
    · rintro ⟨s, hs, hup⟩
      exact ⟨⟨s, hs⟩, (h.serving s hs).2.mp hup⟩
  · obtain ⟨o', ho', -⟩ := (hlive (live_of_enabled henabled)).handle henabled
    rw [ho']
    rfl

/-- The SOCKS client comes up and a datagram is submitted; the server fails, and the first try to connect again fails
too. -/
def serverFails : List Event :=
  passwordHandshake.map (.socks · true) ++ [.udpgw .handler,
    .udpgw (.submit (.ipv4 1 1) (.ipv4 9 1) false [] ⟨true, true⟩), .udpgw .finish, .serverError, .reconnectTimer none,
    .reconnectTimer (some fun _ => 0)]

/-- All is freed while the second SOCKS client connects. -/
theorem connects_again_serverFails :
    ∃ o₀ o o', init (.ipv4 16909060 80) UdpGw.oneConnection (some fun _ => 0) = some o₀ ∧
      Run.run (step [.none, .password [117] [112]]) o₀ serverFails = some o ∧
      Run.run (step [.none, .password [117] [112]]) o₀ (serverFails ++ [.free]) = some o' ∧
      o.udpgwClient.connectionsList = [0] ∧ o.reconnectTimer = !o.socksClient.isSome ∧ o.Freed o' ∧
      o'.calls = [.connectServer, .disconnectServer, .freeSocks false, .freeSocks false, .freeUdpgw false] ∧
      ∀ haveServer, .freeSocks haveServer ∈ o.calls → haveServer = false := by
  obtain ⟨o₀, ho₀, h⟩ := connects_again [.none, .password [117] [112]] (.ipv4 16909060 80) UdpGw.oneConnection
    (some fun _ => 0)
  obtain ⟨o, ho, hend⟩ := (Option.any_eq_true _ _).mp (by decide +kernel :
    ((init (.ipv4 16909060 80) UdpGw.oneConnection (some fun _ => 0)).bind
      (Run.run (step [.none, .password [117] [112]]) · serverFails)).any (fun o =>
        o.calls ++ o.teardown = [.connectServer, .disconnectServer, .freeSocks false, .freeSocks false] ∧
          o.udpgwClient.connectionsList = [0] ∧ o.freed = false) = true)
  obtain ⟨hcalls, hconnections, hfreed⟩ := of_decide_eq_true hend
  obtain ⟨o₁, ho₁, hrun⟩ := Option.bind_eq_some_iff.mp ho
  rw [ho₀, Option.some.injEq] at ho₁
  subst ho₁
  obtain ⟨hlive, -, hall, -⟩ := h serverFails o hrun
  obtain ⟨htimer, -, -, o', hfree, hleft⟩ := hlive hfreed
  refine ⟨o₀, o, o', ho₀, hrun, Run.run_concat hrun hfree, hconnections, htimer, hleft, ?_, hall⟩
  rw [hleft.calls, hcalls]
  rfl

end SocksUdpGwClient

end TwilightLine
