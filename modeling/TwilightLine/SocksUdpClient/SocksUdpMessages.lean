import TwilightLine.Misc.BSize
import TwilightLine.SocksUdpClient.SocksUdpClient

/-! The messages that a SOCKS-UDP association accepts.

`recv_if_handler_send` skips RSV and FRAG: it takes whatever `connection_send` could have
written and the same with other bytes there (`parseSocksUdp_eq_some_iff`), so that a
fragment is delivered as a whole datagram. What `connection_send` writes fits the MTU of
the association and is read back as it was (`message_roundTrip`). -/
namespace TwilightLine.SocksUdp

variable {o o' : Client} {p : Ptr} {r : BAddr} {data payload : List UInt8}

/-- A message with any bytes for RSV and FRAG. -/
def headedMessage (rsv₀ rsv₁ frag atyp : UInt8) (remoteAddr : BAddr) (data : List UInt8) : List UInt8 :=
  [rsv₀, rsv₁, frag, atyp] ++ remoteAddr.packed ++ data

theorem headedMessage_zero (atyp : UInt8) (remoteAddr : BAddr) (data : List UInt8) :
    headedMessage 0 0 0 atyp remoteAddr data = socksUdpMessage atyp remoteAddr data := rfl

theorem parseSocksUdp_headed {atyp : UInt8} (hatyp : socksAtyp r = some atyp) (rsv₀ rsv₁ frag : UInt8)
    (payload : List UInt8) : parseSocksUdp (headedMessage rsv₀ rsv₁ frag atyp r payload) = some (r, payload) := by
  have hlen : ¬(headedMessage rsv₀ rsv₁ frag atyp r payload).length < socksUdpHeaderSize := by
    simp [headedMessage, socksUdpHeaderSize]
  have hdrop : (headedMessage rsv₀ rsv₁ frag atyp r payload).drop socksUdpHeaderSize = r.packed ++ payload := rfl
  have htype : (headedMessage rsv₀ rsv₁ frag atyp r payload).getD 3 0 = atyp := rfl
  rw [parseSocksUdp, if_neg hlen, hdrop, htype]
  cases r with
  | none => cases hatyp
  | ipv4 ip port =>
    cases hatyp
    rw [if_pos rfl, readAddrIpv4_packed]
  | ipv6 ip port =>
    cases hatyp
    rw [if_neg (by decide), if_pos rfl, readAddrIpv6_packed]

/-- The messages that the client takes, and what it reads from them. -/
theorem parseSocksUdp_eq_some_iff :
    parseSocksUdp data = some (r, payload) ↔
      ∃ rsv₀ rsv₁ frag atyp, socksAtyp r = some atyp ∧ data = headedMessage rsv₀ rsv₁ frag atyp r payload := by
  constructor
  · intro h
    unfold parseSocksUdp at h
    obtain ⟨hlen, h⟩ := Option.ite_none_left_eq_some.mp h
    obtain ⟨rsv₀, rsv₁, frag, atyp, rest, rfl⟩ : ∃ rsv₀ rsv₁ frag atyp rest, data = rsv₀ :: rsv₁ :: frag :: atyp :: rest := by
      match data, hlen with
      | rsv₀ :: rsv₁ :: frag :: atyp :: rest, _ => exact ⟨rsv₀, rsv₁, frag, atyp, rest, rfl⟩
      | [], hlen => exact absurd (by decide) hlen
      | [_], hlen => exact absurd (show 1 < 4 by decide) hlen
      | [_, _], hlen => exact absurd (show 2 < 4 by decide) hlen
      | [_, _, _], hlen => exact absurd (show 3 < 4 by decide) hlen
    refine ⟨rsv₀, rsv₁, frag, atyp, ?_⟩
    split at h
    · next h4 =>
      obtain ⟨⟨ip, port, rfl⟩, hrest⟩ := readAddrIpv4_eq_some h
      exact ⟨congrArg some h4.symm, congrArg (rsv₀ :: rsv₁ :: frag :: atyp :: ·) hrest⟩
    · obtain ⟨h6, h⟩ := Option.ite_none_right_eq_some.mp h
      obtain ⟨⟨ip, port, rfl⟩, hrest⟩ := readAddrIpv6_eq_some h
      exact ⟨congrArg some h6.symm, congrArg (rsv₀ :: rsv₁ :: frag :: atyp :: ·) hrest⟩
  · rintro ⟨rsv₀, rsv₁, frag, atyp, hatyp, rfl⟩
    exact parseSocksUdp_headed hatyp rsv₀ rsv₁ frag payload

/-- The bytes are what `connection_send` writes for this address and payload. -/
def Encodes (udpMtu : Nat) (data : List UInt8) (r : BAddr) (payload : List UInt8) : Prop :=
  payload.length ≤ udpMtu ∧ ∃ atyp, socksAtyp r = some atyp ∧ data = socksUdpMessage atyp r payload

/-- The datagram of an encoded message is delivered, and nothing else is. -/
structure DeliversEncoded (o o' : Client) (p : Ptr) (data : List UInt8) : Prop where
  delivered : ∀ r payload, Encodes o.cfg.udpMtu data r payload →
    o'.log = o.log ++ [.received (o.con p).localAddr r payload]
  dropped : (∀ r payload, ¬Encodes o.cfg.udpMtu data r payload) → o'.log = o.log

/-- Where an address and a payload follow the header, its RSV and FRAG are 0. -/
def HeaderZero (udpMtu : Nat) (data : List UInt8) : Prop :=
  ∀ rsv₀ rsv₁ frag atyp r payload, socksAtyp r = some atyp → payload.length ≤ udpMtu →
    data = headedMessage rsv₀ rsv₁ frag atyp r payload → rsv₀ = 0 ∧ rsv₁ = 0 ∧ frag = 0

theorem checkDnsReply_log (o : Client) (p : Ptr) (r : BAddr) (data : List UInt8) :
    (o.checkDnsReply p r data).log = o.log := by
  unfold Client.checkDnsReply
  split
  · split <;> rfl
  · rfl

/-- What is read is delivered, if it is not too long. -/
theorem recvIfHandlerSend_log (o : Client) (p : Ptr) (data : List UInt8) :
    (o.recvIfHandlerSend p data).log =
      match parseSocksUdp data with
      | none => o.log
      | some (r, payload) =>
        if payload.length > o.cfg.udpMtu then o.log else o.log ++ [.received (o.con p).localAddr r payload] := by
  unfold Client.recvIfHandlerSend
  cases parseSocksUdp data with
  | none => rfl
  | some parsed =>
    dsimp only
    split
    · rfl
    · exact checkDnsReply_log _ p _ _

/-- **A received message is delivered as it was encoded exactly when RSV and FRAG of what is
read are 0.** -/
theorem deliversEncoded_iff (hs : step o (.receive p data) = some o') :
    DeliversEncoded o o' p data ↔ HeaderZero o.cfg.udpMtu data := by
  obtain ⟨-, he⟩ := Option.ite_none_right_eq_some.mp hs
  cases he
  have hlog := recvIfHandlerSend_log o p data
  constructor
  · intro hd rsv₀ rsv₁ frag atyp r payload hatyp hmtu hdata
    rw [hdata, parseSocksUdp_headed hatyp, ← hdata] at hlog
    dsimp only at hlog
    rw [if_neg (not_lt.mpr hmtu)] at hlog
    have henc : ∃ r payload, Encodes o.cfg.udpMtu data r payload := by
      by_contra hnone
      have hdrop := hd.dropped fun r payload h => hnone ⟨r, payload, h⟩
      rw [hlog] at hdrop
      exact absurd hdrop (by simp)
    obtain ⟨r', payload', -, atyp', -, hmessage⟩ := henc
    rw [hdata] at hmessage
    have hfirst := congrArg (List.take 3) hmessage
    simpa [headedMessage, socksUdpMessage] using hfirst
  · intro hz
    refine ⟨fun r payload ⟨hmtu, atyp, hatyp, hdata⟩ => ?_, fun hnone => ?_⟩
    · rw [hdata, ← headedMessage_zero, parseSocksUdp_headed hatyp, headedMessage_zero, ← hdata] at hlog
      dsimp only at hlog
      rwa [if_neg (not_lt.mpr hmtu)] at hlog
    · rw [hlog]
      cases hparse : parseSocksUdp data with
      | none => rfl
      | some parsed =>
        obtain ⟨r, payload⟩ := parsed
        obtain ⟨rsv₀, rsv₁, frag, atyp, hatyp, hdata⟩ := parseSocksUdp_eq_some_iff.mp hparse
        refine if_pos (not_le.mp fun hmtu => hnone r payload ⟨hmtu, atyp, hatyp, ?_⟩)
        obtain ⟨rfl, rfl, rfl⟩ := hz rsv₀ rsv₁ frag atyp r payload hatyp hmtu hdata
        exact hdata

/-! ### What is written is read back -/

/-- `compute_socks_mtu`, with the overflow of the sum. -/
def computeSocksMtuInt (udpMtu : Int) : Int :=
  ((BSize.ofInt udpMtu).add ((BSize.ofSize socksUdpHeaderSize).add (BSize.ofSize addrIpv6Size))).toInt.getD (-1)

/-- Where the MTU is computed, it is the sum. -/
theorem computeSocksMtuInt_eq {udpMtu : Nat} (h : 0 ≤ computeSocksMtuInt udpMtu) :
    computeSocksMtuInt udpMtu = computeSocksMtu udpMtu := by
  have hsizes : BSize.Is ((BSize.ofSize socksUdpHeaderSize).add (BSize.ofSize addrIpv6Size))
      (socksUdpHeaderSize + addrIpv6Size) := (BSize.is_ofSize (by decide)).add (BSize.is_ofSize (by decide))
  unfold computeSocksMtuInt at h ⊢
  rw [((BSize.is_ofInt udpMtu).add hsizes).toInt] at h ⊢
  split at h
  · next hint =>
    rw [if_pos hint]
    rfl
  · exact absurd h (by decide)

theorem socksUdpMessage_length_le (atyp : UInt8) (r : BAddr) {udpMtu : Nat} (h : data.length ≤ udpMtu) :
    (socksUdpMessage atyp r data).length ≤ computeSocksMtu udpMtu := by
  have hr := r.packed_length_le
  simp only [socksUdpMessage, computeSocksMtu, socksUdpHeaderSize, addrIpv6Size, List.length_append, List.length_cons,
    List.length_nil] at hr ⊢
  omega

theorem socksAtyp_isIp (h : r.isIp) : ∃ atyp, socksAtyp r = some atyp := by
  cases r with
  | none => simp [BAddr.isIp, BAddr.type] at h
  | ipv4 ip port => exact ⟨_, rfl⟩
  | ipv6 ip port => exact ⟨_, rfl⟩

/-- A message is written where the writer is ready. -/
theorem connectionSend_log (o : Client) (p : Ptr) {atyp : UInt8} (hatyp : socksAtyp r = some atyp) (data : List UInt8) :
    (o.connectionSend p r data).log =
      if (o.con p).outHave then o.log ++ [.written (o.con p).localAddr (socksUdpMessage atyp r data)] else o.log := by
  have hcon : ∀ dnsId, ((o.setDnsId p dnsId).con p).outHave = (o.con p).outHave ∧
      ((o.setDnsId p dnsId).con p).localAddr = (o.con p).localAddr := by
    intro dnsId
    simp [Client.setDnsId]
  unfold Client.connectionSend
  rw [hatyp]
  dsimp only
  split
  · rw [(hcon _).1, (hcon _).2]
    cases (o.con p).outHave <;> rfl
  · cases (o.con p).outHave <;> rfl

/-- The message of a datagram is delivered by any connection that receives it. -/
theorem receive_message (hp : p ∈ o.connectionsTree) {atyp : UInt8} (hatyp : socksAtyp r = some atyp)
    (hlen : data.length ≤ o.cfg.udpMtu) :
    ∃ o', step o (.receive p (socksUdpMessage atyp r data)) = some o' ∧
      o'.log = o.log ++ [.received (o.con p).localAddr r data] := by
  refine ⟨_, if_pos ⟨hp, socksUdpMessage_length_le atyp r hlen⟩, ?_⟩
  rw [recvIfHandlerSend_log, ← headedMessage_zero, parseSocksUdp_headed hatyp]
  exact if_neg (not_lt.mpr hlen)

/-- **The message that `connection_send` writes fits the MTU, and the connection delivers from
it the datagram that it was written for.** -/
theorem message_roundTrip {udpMtu : Nat} (hmtu : 0 ≤ computeSocksMtuInt udpMtu) (hcfg : o.cfg.udpMtu = udpMtu)
    (p : Ptr) (hr : r.isIp) (hlen : data.length ≤ udpMtu) :
    ∃ message, (o.connectionSend p r data).log =
        (if (o.con p).outHave then o.log ++ [.written (o.con p).localAddr message] else o.log) ∧
      (message.length : Int) ≤ computeSocksMtuInt udpMtu ∧
      ∀ later, later.cfg = o.cfg → p ∈ later.connectionsTree →
        ∃ o', step later (.receive p message) = some o' ∧
          o'.log = later.log ++ [.received (later.con p).localAddr r data] := by
  obtain ⟨atyp, hatyp⟩ := socksAtyp_isIp hr
  refine ⟨socksUdpMessage atyp r data, connectionSend_log o p hatyp data, ?_, ?_⟩
  · rw [computeSocksMtuInt_eq hmtu]
    exact Int.ofNat_le.mpr (socksUdpMessage_length_le atyp r hlen)
  · intro later hcfg' hp
    refine receive_message hp hatyp ?_
    rw [hcfg', hcfg]
    exact hlen

/-- A client with one connection. -/
def oneConnection : Client :=
  (init ⟨10, 1⟩).connectionInit (.ipv4 1 1) (.ipv4 2 2) [] true

/-- An empty datagram from a host, and the second fragment of one. -/
def emptyDatagram (frag : UInt8) : List UInt8 := headedMessage 0 0 frag socksAtypIpv4 (.ipv4 2 2) []

/-- Its writer is ready. -/
def readyConnection : Client :=
  {oneConnection with con := Function.update oneConnection.con 0 {oneConnection.con 0 with outHave := true}}

/-- The largest datagram to an IPv6 host. -/
theorem message_roundTrip_largest : ∃ message,
    (readyConnection.connectionSend 0 (.ipv6 default 2) (List.replicate 10 7)).log =
        [.written (.ipv4 1 1) message] ∧
      (message.length : Int) ≤ computeSocksMtuInt 10 ∧
      ∀ later, later.cfg = readyConnection.cfg → 0 ∈ later.connectionsTree →
        ∃ o', step later (.receive 0 message) = some o' ∧
          o'.log = later.log ++ [.received (later.con 0).localAddr (.ipv6 default 2) (List.replicate 10 7)] :=
  message_roundTrip (by decide) rfl 0 (by decide) (by decide)

theorem deliversEncoded_iff_empty :
    ∃ o', step oneConnection (.receive 0 (emptyDatagram 0)) = some o' ∧
      (DeliversEncoded oneConnection o' 0 (emptyDatagram 0) ↔ HeaderZero 10 (emptyDatagram 0)) :=
  ⟨_, rfl, deliversEncoded_iff rfl⟩

/-- A fragment is delivered as a datagram of its own. -/
theorem fragment_delivered :
    ∃ o', step oneConnection (.receive 0 (emptyDatagram 2)) = some o' ∧
      ¬DeliversEncoded oneConnection o' 0 (emptyDatagram 2) := by
  refine ⟨oneConnection.recvIfHandlerSend 0 (emptyDatagram 2), rfl, fun hd => ?_⟩
  have hnone : ∀ r payload, ¬Encodes 10 (emptyDatagram 2) r payload := by
    rintro r payload ⟨-, atyp, -, hdata⟩
    have hthird := congrArg (List.getD · 2 0) hdata
    exact absurd (show (2 : UInt8) = 0 from hthird) (by decide)
  have hlog : (oneConnection.recvIfHandlerSend 0 (emptyDatagram 2)).log.length = 1 := by decide
  have hdropped := hd.dropped hnone
  rw [hdropped] at hlog
  exact absurd hlog (by decide)

end TwilightLine.SocksUdp
