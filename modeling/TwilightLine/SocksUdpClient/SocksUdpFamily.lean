import TwilightLine.Socksclient.BSocksClient

/-! The address families of a SOCKS-UDP association.

The UDP socket of a connection is made for the family of the local address, the address of
the device. It is bound to the address of the TCP connection to the server, and it sends to
the address in the reply of the server. These have the family of the socket exactly when
the server's address and its reply have it (`sameFamily_iff`). -/
namespace TwilightLine.SocksUdp

open Lib Socks

/-- `BDatagram`: the family of the socket, and the addresses that it was given by `BDatagram_Bind` and
`BDatagram_SetSendAddrs`. -/
structure BDatagram where
  family : Nat
  given : List BAddr
  deriving DecidableEq, Repr

/-- What `socks_state_handler` uses of a connection, and the address of the server. -/
structure Association where
  serverAddr : BAddr
  localAddr : BAddr
  socks : SocksRun
  socket : BDatagram

/-- `BAddr_SetPort`; the source asserts an IP address. -/
def setPort (addr : BAddr) (port : UInt16) : BAddr :=
  match addr with
  | .none => .none
  | .ipv4 ip _ => .ipv4 ip port
  | .ipv6 ip _ => .ipv6 ip port

/-- What the kernel answers when SOCKS is connected. -/
structure KernelAnswers where
  /-- The local address of the TCP connection. -/
  tcpLocalAddr : Option BAddr
  bound : Bool
  /-- The local address of the UDP socket. -/
  udpBoundAddr : Option BAddr
  deriving DecidableEq, Repr

/-- The local address of a TCP connection has the family of its socket, which is the one of the
server's address. -/
def KernelAnswers.Possible (kernel : KernelAnswers) (con : Association) : Prop :=
  ∀ addr ∈ kernel.tcpLocalAddr, addr.type = con.serverAddr.type

instance (kernel : KernelAnswers) (con : Association) : Decidable (kernel.Possible con) :=
  inferInstanceAs (Decidable (∀ addr ∈ kernel.tcpLocalAddr, addr.type = con.serverAddr.type))

namespace Association

/-- `connection_init`, what it does to the socket and the SOCKS client. -/
def init (serverAddr localAddr : BAddr) (buffer : Memory) : Association where
  serverAddr := serverAddr
  localAddr := localAddr
  socks := .init .none true buffer
  socket := ⟨localAddr.type, []⟩

/-- `connection_free`. -/
def connectionFree (con : Association) : Association := {con with socks := con.socks.free}

def give (con : Association) (addr : BAddr) : Association :=
  {con with socket := {con.socket with given := con.socket.given ++ [addr]}}

/-- `socks_state_handler`. -/
def socksStateHandler (authInfo : List AuthInfo) (con : Association) (kernel : KernelAnswers) :
    SocksEvent → Option Association
  | .connected =>
    match kernel.tcpLocalAddr with
    | none => some con.connectionFree
    | some tcpLocalAddr =>
      if ¬tcpLocalAddr.isIp then some con.connectionFree
      else
        let con := con.give (setPort tcpLocalAddr 0)
        if !kernel.bound then some con.connectionFree
        else
          match kernel.udpBoundAddr with
          | none => some con.connectionFree
          | some udpBoundAddr =>
            (con.socks.step authInfo (.setDestAddr udpBoundAddr)).map fun socks => {con with socks := socks}
  | .up => some (con.give con.socks.o.bindAddr)
  | .error => some con.connectionFree
  | .errorClosed => some con.connectionFree

inductive Event where
  /-- Something happens to the SOCKS client, and what the kernel would answer to its handler. -/
  | socks (input : SocksInput) (kernel : KernelAnswers)
  /-- The socket fails, the connection is idle for too long, or has its DNS reply. -/
  | free

def step (authInfo : List AuthInfo) (con : Association) : Event → Option Association
  | .socks input kernel =>
    if kernel.Possible con then
      (con.socks.step authInfo input).bind fun socks =>
        match socks.events.drop con.socks.events.length with
        | [] => some {con with socks := socks}
        | event :: _ => {con with socks := socks}.socksStateHandler authInfo kernel event
    else none
  | .free => if con.socks.freed then none else some con.connectionFree

/-- All addresses that the socket was given have its family. -/
def SameFamily (con : Association) : Prop := ∀ addr ∈ con.socket.given, addr.type = con.socket.family

instance (con : Association) : Decidable con.SameFamily := inferInstanceAs (Decidable (∀ addr ∈ con.socket.given, _))

/-- Where this event makes the SOCKS client report that it is connected, and the kernel tells its local IP
address, the server's address has the family of the local address; where it reports that it is up,
the reply of the server has it, as its header said. -/
def FamiliesAgree (authInfo : List AuthInfo) (con : Association) : Event → Prop
  | .socks input kernel =>
    ∀ socks, con.socks.step authInfo input = some socks →
      (socks.events = con.socks.events ++ [.connected] → con.serverAddr.isIp → kernel.tcpLocalAddr.isSome = true →
        con.serverAddr.type = con.localAddr.type) ∧
      (socks.events = con.socks.events ++ [.up] → con.socks.o.bindAddr.type = con.localAddr.type)
  | .free => True

end Association

/-! ### What the SOCKS client reports -/

variable {authInfo : List AuthInfo} {s s' : SocksRun} {o : BSocksClient} {c : Control} {r : Handled} {input : SocksInput}

/-- If the handler reports that the client is up, the address has the type that it had before. -/
def KeepsType (o : BSocksClient) (r : Handled) : Prop := r.2 = some .up → r.1.bindAddr.type = o.bindAddr.type

theorem keepsType_sendMessage {message : List UInt8} {state : SocksState} (h : o.sendMessage c message state = some r) :
    KeepsType o r := by
  obtain ⟨c', -, rfl⟩ := Option.map_eq_some_iff.mp h
  exact nofun

theorem keepsType_receiveMessage {size dest total : Nat} {state : SocksState}
    (h : o.receiveMessage c size dest total state = some r) : KeepsType o r := by
  obtain ⟨c', -, rfl⟩ := Option.map_eq_some_iff.mp h
  exact nofun

theorem keepsType_reportError (h : o.reportError = some r) : KeepsType o r := by
  cases h
  exact nofun

theorem keepsType_authFinished (h : o.authFinished c = some r) : KeepsType o r := by
  unfold BSocksClient.authFinished at h
  split at h
  · exact keepsType_reportError h
  · exact keepsType_sendMessage h

theorem keepsType_receivedHello (h : o.receivedHello authInfo c = some r) : KeepsType o r := by
  unfold BSocksClient.receivedHello at h
  split at h
  · exact keepsType_reportError h
  · split at h
    · exact keepsType_reportError h
    · exact keepsType_authFinished h
    · split at h
      · exact keepsType_reportError h
      · exact keepsType_sendMessage h

theorem keepsType_receivedPasswordReply (h : o.receivedPasswordReply c = some r) : KeepsType o r := by
  unfold BSocksClient.receivedPasswordReply at h
  split at h
  · exact keepsType_reportError h
  · split at h
    · exact keepsType_reportError h
    · exact keepsType_authFinished h

theorem keepsType_receivedHeader (h : o.receivedHeader c = some r) : KeepsType o r := by
  unfold BSocksClient.receivedHeader at h
  split at h
  · exact keepsType_reportError h
  · split at h
    · exact keepsType_reportError h
    · split at h
      · obtain ⟨c', -, rfl⟩ := Option.map_eq_some_iff.mp h
        exact nofun
      · split at h
        · obtain ⟨c', -, rfl⟩ := Option.map_eq_some_iff.mp h
          exact nofun
        · exact keepsType_reportError h

/-- The rest of the reply has the address of the type that the header announced. -/
theorem keepsType_receivedReply (h : o.receivedReply = some r) : KeepsType o r := by
  obtain ⟨bindAddr, hbind, rfl⟩ := Option.map_eq_some_iff.mp h
  intro _
  show bindAddr.type = o.bindAddr.type
  split at hbind
  · next ip port hbefore =>
    obtain ⟨⟨addr, rest⟩, hread, rfl⟩ := Option.map_eq_some_iff.mp hbind
    obtain ⟨⟨ip', port', rfl⟩, -⟩ := readAddrIpv4_eq_some hread
    rw [hbefore]
    rfl
  · next ip port hbefore =>
    obtain ⟨⟨addr, rest⟩, hread, rfl⟩ := Option.map_eq_some_iff.mp hbind
    obtain ⟨⟨ip', port', rfl⟩, -⟩ := readAddrIpv6_eq_some hread
    rw [hbefore]
    rfl
  · cases hbind

theorem keepsType_recvHandlerDone {dataLen : Nat} (h : o.recvHandlerDone authInfo c dataLen = some r) : KeepsType o r := by
  unfold BSocksClient.recvHandlerDone at h
  split at h
  · cases h
  · dsimp only at h
    split at h
    · obtain ⟨c', -, rfl⟩ := Option.map_eq_some_iff.mp h
      exact nofun
    · split at h
      · exact keepsType_receivedHello h
      · exact keepsType_receivedPasswordReply h
      · exact keepsType_receivedHeader h
      · exact keepsType_receivedReply h
      · cases h

theorem keepsType_sendHandlerDone (h : o.sendHandlerDone c = some r) : KeepsType o r := by
  unfold BSocksClient.sendHandlerDone at h
  split at h
  · exact keepsType_receiveMessage h
  · exact keepsType_receiveMessage h
  · exact keepsType_receiveMessage h
  · cases h

theorem keepsType_continueJobHandler (h : BSocksClient.continueJobHandler authInfo o c = some r) : KeepsType o r := by
  unfold BSocksClient.continueJobHandler at h
  split at h
  · cases h
  · split at h
    · exact keepsType_reportError h
    · exact keepsType_sendMessage h

theorem keepsType_connectorHandler {isError connectionInit : Bool} (h : o.connectorHandler isError connectionInit = some r) :
    KeepsType o r := by
  unfold BSocksClient.connectorHandler at h
  split at h
  · cases h
  · split at h
    · exact keepsType_reportError h
    · cases h
      exact nofun

theorem keepsType_connectionHandler {recvClosed : Bool} (h : o.connectionHandler recvClosed = some r) : KeepsType o r := by
  unfold BSocksClient.connectionHandler at h
  split at h
  · cases h
  · split at h
    · cases h
      exact nofun
    · exact keepsType_reportError h

/-- At most one event is reported at a time. -/
def Reports (s s' : SocksRun) : Prop :=
  ∃ event : Option SocksEvent, s'.events = s.events ++ event.toList ∧
    (event = some .up → s'.o.bindAddr.type = s.o.bindAddr.type)

theorem Reports.silent (h : s'.events = s.events) : Reports s s' := ⟨none, by rw [h]; simp, nofun⟩

theorem step_reports (h : s.step authInfo input = some s') : Reports s s' := by
  unfold SocksRun.step at h
  obtain ⟨-, h⟩ := Option.ite_none_left_eq_some.mp h
  obtain ⟨-, h⟩ := Option.ite_none_left_eq_some.mp h
  cases input with
  | connectorResult isError connectionInit =>
    obtain ⟨r, hr, rfl⟩ := Option.map_eq_some_iff.mp h
    exact ⟨r.2, rfl, keepsType_connectorHandler hr⟩
  | connectionEvent recvClosed =>
    obtain ⟨r, hr, rfl⟩ := Option.map_eq_some_iff.mp h
    exact ⟨r.2, rfl, keepsType_connectionHandler hr⟩
  | continueJob =>
    obtain ⟨c, -, h⟩ := Option.bind_eq_some_iff.mp h
    obtain ⟨-, h⟩ := Option.ite_none_right_eq_some.mp h
    obtain ⟨r, hr, rfl⟩ := Option.map_eq_some_iff.mp h
    exact ⟨r.2, rfl, keepsType_continueJobHandler (o := {s.o with continueJob := false}) hr⟩
  | senderOperation | streamOperation | streamDone =>
    obtain ⟨c, -, h⟩ := Option.bind_eq_some_iff.mp h
    obtain ⟨sender, -, rfl⟩ := Option.map_eq_some_iff.mp h
    exact .silent rfl
  | sendDone =>
    obtain ⟨c, -, h⟩ := Option.bind_eq_some_iff.mp h
    obtain ⟨input, -, h⟩ := Option.bind_eq_some_iff.mp h
    obtain ⟨r, hr, rfl⟩ := Option.map_eq_some_iff.mp h
    exact ⟨r.2, rfl, keepsType_sendHandlerDone hr⟩
  | sent n =>
    obtain ⟨c, -, h⟩ := Option.bind_eq_some_iff.mp h
    obtain ⟨r, -, rfl⟩ := Option.map_eq_some_iff.mp h
    exact .silent rfl
  | recvOperation =>
    obtain ⟨c, -, h⟩ := Option.bind_eq_some_iff.mp h
    obtain ⟨r, -, rfl⟩ := Option.map_eq_some_iff.mp h
    exact .silent rfl
  | received data =>
    obtain ⟨c, -, h⟩ := Option.bind_eq_some_iff.mp h
    split at h
    · obtain ⟨-, h⟩ := Option.ite_none_right_eq_some.mp h
      cases h
      exact .silent rfl
    · cases h
  | recvDone =>
    obtain ⟨c, -, h⟩ := Option.bind_eq_some_iff.mp h
    obtain ⟨r', -, h⟩ := Option.bind_eq_some_iff.mp h
    obtain ⟨r, hr, rfl⟩ := Option.map_eq_some_iff.mp h
    exact ⟨r.2, rfl, keepsType_recvHandlerDone hr⟩
  | setDestAddr destAddr =>
    obtain ⟨-, h⟩ := Option.ite_none_right_eq_some.mp h
    cases h
    exact .silent rfl
  | free =>
    cases h
    exact .silent rfl

/-! ### Families -/

variable {con con' : Association} {kernel : KernelAnswers} {addr : BAddr}

theorem setPort_type (addr : BAddr) (port : UInt16) : (setPort addr port).type = addr.type := by
  cases addr <;> rfl

theorem sameFamily_give (con : Association) (addr : BAddr) :
    (con.give addr).SameFamily ↔ con.SameFamily ∧ addr.type = con.socket.family := by
  simp only [Association.SameFamily, Association.give, List.forall_mem_append, List.forall_mem_singleton]

/-- The socket after the connected event. -/
def Association.boundSocket (con : Association) (kernel : KernelAnswers) : BDatagram :=
  match kernel.tcpLocalAddr with
  | none => con.socket
  | some tcpLocalAddr => if tcpLocalAddr.isIp then (con.give (setPort tcpLocalAddr 0)).socket else con.socket

theorem connected_eq (h : con.socksStateHandler authInfo kernel .connected = some con') :
    ∃ socks, con' = {con with socks := socks, socket := con.boundSocket kernel} := by
  unfold Association.socksStateHandler at h
  unfold Association.boundSocket
  dsimp only at h
  cases hlocal : kernel.tcpLocalAddr with
  | none =>
    rw [hlocal] at h
    cases h
    exact ⟨_, rfl⟩
  | some tcpLocalAddr =>
    rw [hlocal] at h
    dsimp only at h ⊢
    by_cases hip : tcpLocalAddr.isIp
    · rw [if_neg (not_not.mpr hip)] at h
      rw [if_pos hip]
      split at h
      · cases h
        exact ⟨_, rfl⟩
      · split at h
        · cases h
          exact ⟨_, rfl⟩
        · obtain ⟨socks, -, rfl⟩ := Option.map_eq_some_iff.mp h
          exact ⟨socks, rfl⟩
    · rw [if_pos hip] at h
      rw [if_neg hip]
      cases h
      exact ⟨_, rfl⟩

/-- The socket is made for the family of the local address. -/
def Association.Made (con : Association) : Prop := con.socket.family = con.localAddr.type

theorem sameFamily_connected (hmade : con.Made) (hpossible : kernel.Possible con)
    (h : con.socksStateHandler authInfo kernel .connected = some con') :
    con'.Made ∧ (con'.SameFamily ↔ con.SameFamily ∧ (con.serverAddr.isIp → kernel.tcpLocalAddr.isSome = true →
      con.serverAddr.type = con.localAddr.type)) := by
  obtain ⟨socks, rfl⟩ := connected_eq h
  unfold Association.Made at hmade
  show (con.boundSocket kernel).family = con.localAddr.type ∧
    ((∀ addr ∈ (con.boundSocket kernel).given, addr.type = (con.boundSocket kernel).family) ↔ _)
  unfold Association.boundSocket
  cases hlocal : kernel.tcpLocalAddr with
  | none => exact ⟨hmade, ⟨fun hf => ⟨hf, by simp⟩, And.left⟩⟩
  | some tcpLocalAddr =>
    have htype : tcpLocalAddr.type = con.serverAddr.type := hpossible tcpLocalAddr hlocal
    have hip : con.serverAddr.isIp ↔ tcpLocalAddr.isIp := by rw [BAddr.isIp, BAddr.isIp, htype]
    dsimp only
    by_cases hlocalIp : tcpLocalAddr.isIp
    · rw [if_pos hlocalIp]
      have hgive := sameFamily_give con (setPort tcpLocalAddr 0)
      rw [setPort_type, htype, hmade] at hgive
      refine ⟨hmade, hgive.trans (and_congr_right fun _ => ?_)⟩
      simp [hip, hlocalIp]
    · rw [if_neg hlocalIp]
      exact ⟨hmade, ⟨fun hf => ⟨hf, fun hserver => absurd (hip.mp hserver) hlocalIp⟩, And.left⟩⟩

/-- **A step keeps all addresses of the socket in its family exactly when the families agree.** -/
theorem sameFamily_step {e : Association.Event} (hmade : con.Made) (h : con.step authInfo e = some con') :
    con'.Made ∧ (con'.SameFamily ↔ con.SameFamily ∧ con.FamiliesAgree authInfo e) := by
  cases e with
  | free =>
    obtain ⟨-, he⟩ := Option.ite_none_left_eq_some.mp h
    cases he
    exact ⟨hmade, ⟨fun hf => ⟨hf, trivial⟩, And.left⟩⟩
  | socks input kernel =>
    obtain ⟨hpossible, h⟩ := Option.ite_none_right_eq_some.mp h
    obtain ⟨socks, hstep, h⟩ := Option.bind_eq_some_iff.mp h
    obtain ⟨event, hevents, hup⟩ := step_reports hstep
    have hagree : con.FamiliesAgree authInfo (.socks input kernel) ↔
        (event = some .connected → con.serverAddr.isIp → kernel.tcpLocalAddr.isSome = true →
          con.serverAddr.type = con.localAddr.type) ∧
        (event = some .up → con.socks.o.bindAddr.type = con.localAddr.type) := by
      have hthis : con.FamiliesAgree authInfo (.socks input kernel) ↔
          (socks.events = con.socks.events ++ [.connected] → con.serverAddr.isIp → kernel.tcpLocalAddr.isSome = true →
            con.serverAddr.type = con.localAddr.type) ∧
          (socks.events = con.socks.events ++ [.up] → con.socks.o.bindAddr.type = con.localAddr.type) := by
        constructor
        · exact fun ha => ha socks hstep
        · intro ha socks' hstep'
          rw [hstep, Option.some.injEq] at hstep'
          exact hstep' ▸ ha
      rw [hthis, hevents, List.append_cancel_left_eq, List.append_cancel_left_eq]
      cases event <;> simp
    rw [hagree]
    rw [hevents, List.drop_left' rfl] at h
    have hmade' : Association.Made {con with socks := socks} := hmade
    cases event with
    | none =>
      cases h
      exact ⟨hmade, ⟨fun hf => ⟨hf, nofun, nofun⟩, And.left⟩⟩
    | some event =>
      cases event with
      | error | errorClosed =>
        cases h
        exact ⟨hmade, ⟨fun hf => ⟨hf, by simp, by simp⟩, And.left⟩⟩
      | connected =>
        obtain ⟨hm, hf⟩ := sameFamily_connected hmade' hpossible h
        refine ⟨hm, hf.trans (and_congr_right fun _ => ?_)⟩
        simp
      | up =>
        cases h
        have hgive := sameFamily_give {con with socks := socks} socks.o.bindAddr
        refine ⟨hmade, hgive.trans (and_congr_right fun _ => ?_)⟩
        rw [hup rfl, show con.socket.family = con.localAddr.type from hmade]
        simp

/-- **All addresses that the socket of a connection is given have its family, in every run in which the
server's address and its reply have the family of the local address, and in no other.** -/
theorem sameFamily_iff (authInfo : List AuthInfo) (serverAddr localAddr : BAddr) (buffer : Memory)
    {es : List Association.Event}
    (h : Run.run (Association.step authInfo) (.init serverAddr localAddr buffer) es = some con) :
    con.SameFamily ↔ Run.AllSteps (Association.step authInfo) (Association.FamiliesAgree authInfo)
      (.init serverAddr localAddr buffer) es := by
  rw [Run.run_iff (P := Association.SameFamily) (fun _ _ _ hmade hstep => (sameFamily_step hmade hstep).1)
    (fun _ _ _ hmade hstep => (sameFamily_step hmade hstep).2) h rfl]
  exact and_iff_right nofun

/-- The TCP connection to the server is made, from this address. -/
def connectedFrom (addr : BAddr) : List Association.Event :=
  [.socks (.connectorResult false true) ⟨some addr, false, none⟩]

theorem sameFamily_iff_connected :
    ∃ con, Run.run (Association.step []) (.init (.ipv4 1 1080) (.ipv4 2 2) fun _ => 0) (connectedFrom (.ipv4 3 3)) = some con ∧
      (con.SameFamily ↔ Run.AllSteps (Association.step []) (Association.FamiliesAgree [])
        (.init (.ipv4 1 1080) (.ipv4 2 2) fun _ => 0) (connectedFrom (.ipv4 3 3))) :=
  ⟨_, rfl, sameFamily_iff _ _ _ _ rfl⟩

/-- A socket for an IPv6 address of the device is bound to an IPv4 address. -/
theorem family_differs :
    ∃ con, Run.run (Association.step []) (.init (.ipv4 1 1080) (.ipv6 (Vector.replicate 16 0) 2) fun _ => 0)
      (connectedFrom (.ipv4 3 3)) = some con ∧ ¬con.SameFamily :=
  ⟨_, rfl, by decide⟩

end TwilightLine.SocksUdp
