import TwilightLine.SocksUdpClient.SocksUdpClientRuns
import TwilightLine.Tun2socks.Device
import TwilightLine.UdpgwClient.UdpGwClientChanges

/-! Datagrams from the UDP clients to the device.

`udp_send_packet_to_device` asserts that the two addresses of a datagram have one
family. The udpgw client hands over the addresses of a connection, which come from one
device packet. The SOCKS-UDP client hands over the local address of a connection and
the remote address that the relay wrote into the datagram, whose family nothing
compares: the assertion holds along a run exactly when the relay keeps to the family of
the connection (`socks_deliveries_iff`). -/
namespace TwilightLine

/-- A device packet has two addresses of one family. -/
theorem parseDeviceUdp_types {cfg : DeviceConfig} {packet : List UInt8} {d : DeviceDatagram}
    (h : parseDeviceUdp cfg packet = some d) : deviceAddrTypesOk d.localAddr d.remoteAddr = true := by
  unfold parseDeviceUdp at h
  split at h
  · obtain ⟨⟨iph, udph, payload⟩, -, h⟩ := Option.bind_eq_some_iff.mp h
    dsimp only at h
    split at h
    · cases h
      rfl
    · cases h
  · split at h
    · split at h
      · cases h
      · obtain ⟨⟨iph, udph, payload⟩, -, h⟩ := Option.bind_eq_some_iff.mp h
        dsimp only at h
        split at h
        · cases h
          rfl
        · cases h
    · cases h

theorem processDeviceUdpPacket_types {cfg : DeviceConfig} {packet : List UInt8} {d : DeviceDatagram}
    (h : processDeviceUdpPacket cfg packet = some d) : deviceAddrTypesOk d.localAddr d.remoteAddr = true := by
  unfold processDeviceUdpPacket at h
  split at h
  · cases h
  · obtain ⟨d', hparse, h⟩ := Option.bind_eq_some_iff.mp h
    split at h
    · cases h
    · cases h
      exact parseDeviceUdp_types hparse

/-- While UDP is forwarded, only addresses of two families make the assertions fail. -/
theorem udpSendPacketToDevice_assertion {cfg : DeviceConfig} (hmode : cfg.udpMode ≠ .none)
    (localAddr remoteAddr : BAddr) (data : List UInt8) :
    udpSendPacketToDevice cfg localAddr remoteAddr data ≠ .assertion ↔
      deviceAddrTypesOk localAddr remoteAddr = true := by
  unfold udpSendPacketToDevice
  cases hok : deviceAddrTypesOk localAddr remoteAddr with
  | false => simp
  | true =>
    have htypes : localAddr.isIp ∧ localAddr.type = remoteAddr.type := of_decide_eq_true hok
    cases localAddr <;> cases remoteAddr <;> simp_all [BAddr.isIp, BAddr.type]
    all_goals split_ifs <;> simp

/-! ### The udpgw client -/

namespace UdpGw

/-- Submitted datagrams come from device packets. -/
def FromDevice (cfg : DeviceConfig) (_ : Client) : Event → Prop
  | .submit localAddr remoteAddr isDns data _ =>
    ∃ packet, processDeviceUdpPacket cfg packet = some ⟨localAddr, remoteAddr, isDns, data⟩
  | _ => True

/-- The connections stand for pairs of one family, and so does what was handed over. -/
structure OneFamily (o : Client) : Prop where
  conaddr : ∀ p ∈ o.connectionsList,
    deviceAddrTypesOk (o.con p).conaddr.localAddr (o.con p).conaddr.remoteAddr = true
  received : ∀ l r d, .received l r d ∈ o.log → deviceAddrTypesOk l r = true

variable {o o' : Client} {p : Ptr}

theorem oneFamily_init (cfg : Config) : OneFamily (init cfg) := ⟨nofun, nofun⟩

theorem OneFamily.same (h : OneFamily o) (hs : Same o o')
    (hlog : ∀ l r d, .received l r d ∈ o'.log → .received l r d ∈ o.log) : OneFamily o' where
  conaddr := by
    intro p hp
    rw [hs.conaddr]
    exact h.conaddr p ((hs.list p).mp hp)
  received := fun l r d hmem => h.received l r d (hlog l r d hmem)

theorem mem_received_concat {log : List Entry} {e : Entry} {l r : BAddr} {d : List UInt8}
    (h : .received l r d ∈ log ++ [e]) (he : ∀ l r d, e ≠ .received l r d) : .received l r d ∈ log := by
  rcases List.mem_append.mp h with h | h
  · exact h
  · exact absurd (List.mem_singleton.mp h).symm (he l r d)

theorem OneFamily.send (h : OneFamily o) (hinv : Inv o) (hp : p ∈ o.connectionsList) (flags : UInt8)
    (data : List UInt8) (origin : Origin) : OneFamily (o.connectionSend p flags data origin) := by
  rcases connectionSend_cases hinv hp flags data origin with ⟨-, hdrop⟩ | ⟨-, ha⟩
  · rw [hdrop]
    exact h
  · refine h.same ha.toSame fun l r d hmem => ?_
    rw [ha.log] at hmem
    exact mem_received_concat hmem nofun

theorem OneFamily.rebind (h : OneFamily o) {a : Conaddr} (ha : deviceAddrTypesOk a.localAddr a.remoteAddr = true) :
    OneFamily (o.rebind p a) where
  conaddr := by
    intro q hq
    rw [rebind_con]
    by_cases hqp : q = p
    · subst hqp
      rw [Function.update_self]
      exact ha
    · rw [Function.update_of_ne hqp]
      exact h.conaddr q hq
  received := by
    intro l r d hmem
    rw [rebind_log] at hmem
    exact h.received l r d (mem_received_concat hmem nofun)

theorem OneFamily.step (h : OneFamily o) (hinv : Inv o) {cfg : DeviceConfig} {e : Event}
    (hfrom : FromDevice cfg o e) (hs : step o e = some o') : OneFamily o' := by
  cases change_of_step hinv hs with
  | quiet hq => exact h.same hq.toSame fun l r d hmem => hq.log ▸ hmem
  | @receive _ packet p hparse hfind haddr =>
    have hp := (hinv.findConnectionByConid hfind).1
    refine ⟨fun q hq => h.conaddr q ((mem_touch hp).mp hq), fun l r d hmem => ?_⟩
    rcases List.mem_append.mp hmem with hmem | hmem
    · exact h.received l r d hmem
    · have he := List.mem_singleton.mp hmem
      injection he with hl hr
      rw [hl, hr]
      exact h.conaddr p hp
  | @first _ rest hjobs =>
    obtain ⟨hp, -, hpop, -⟩ := hinv.popFirst hjobs
    exact OneFamily.send (o := {o with jobs := rest}) {h with} hpop hp _ _ _
  | submit hrun hfind =>
    have hp := (hinv.findConnectionByConaddr hfind).1
    exact (h.same (Quiet.touch hp).toSame fun _ _ _ hmem => hmem).send (hinv.touch hp)
      ((mem_touch hp).mpr hp) _ _ _
  | @reuse _ _ _ _ _ p _ hrun hfind hfull hlist =>
    obtain ⟨packet, hpacket⟩ := hfrom
    have hp : p ∈ o.connectionsList := by simp [hlist]
    exact ((h.rebind (processDeviceUdpPacket_types hpacket)).same (Quiet.touch (o := o.rebind p _) hp).toSame
      fun _ _ _ hmem => hmem).send ((hinv.rebind hp _).touch hp) ((mem_touch hp).mpr hp) _ _ _
  | @insert _ _ _ _ _ next _ hconid hflow =>
    obtain ⟨packet, hpacket⟩ := hfrom
    refine ⟨fun q hq => ?_, fun l r d hmem => h.received l r d (mem_received_concat hmem nofun)⟩
    rcases (mem_connectionInsert ..).mp hq with rfl | hq
    · rw [connectionInsert_new]
      exact processDeviceUdpPacket_types hpacket
    · rw [connectionInsert_old (o := {o with nextConid := next}) _ _ _ _ _ _ (hinv.ne_fresh hq)]
      exact h.conaddr q hq
  | transmit hp hframes =>
    exact h.same {Same.flow (j := none) fun _ => Iff.rfl with}
      fun _ _ _ hmem => mem_received_concat hmem nofun
  | drain hp hpassed hframes =>
    exact h.same {Same.flow fun _ => Iff.rfl with}
      fun _ _ _ hmem => mem_received_concat hmem nofun

/-- What the udpgw client hands over has two addresses of one family. -/
theorem oneFamily_run {dcfg : DeviceConfig} {cfg : Config} {es : List Event}
    (h : Run.run step (init cfg) es = some o) (hfrom : Run.AllSteps step (FromDevice dcfg) (init cfg) es) :
    OneFamily o := by
  have hboth := Run.run_invariant_of (fun o => Inv o ∧ OneFamily o)
    (fun _ _ _ hi hc hs => ⟨hi.1.step hs, hi.2.step hi.1 hc hs⟩) h hfrom ⟨inv_init cfg, oneFamily_init cfg⟩
  exact hboth.2

end UdpGw

/-! ### The SOCKS-UDP client -/

namespace SocksUdp

variable {o o' : Client} {p q : Ptr} {l r : BAddr} {d : List UInt8}

/-- A datagram of the relay that names an address of the other family than the local
address, and is otherwise good: the address is all there, and what follows it is not
too much. -/
def CrossFamily (udpMtu : Nat) (localAddr : BAddr) (data : List UInt8) : Prop :=
  match localAddr with
  | .ipv4 .. => data.getD 3 0 = socksAtypIpv6 ∧ socksUdpHeaderSize + addrIpv6Size ≤ data.length ∧
      data.length ≤ socksUdpHeaderSize + addrIpv6Size + udpMtu
  | .ipv6 .. => data.getD 3 0 = socksAtypIpv4 ∧ socksUdpHeaderSize + addrIpv4Size ≤ data.length ∧
      data.length ≤ socksUdpHeaderSize + addrIpv4Size + udpMtu
  | .none => False

instance (udpMtu : Nat) (localAddr : BAddr) (data : List UInt8) :
    Decidable (CrossFamily udpMtu localAddr data) :=
  match localAddr with
  | .ipv4 .. => inferInstanceAs (Decidable (_ ∧ _))
  | .ipv6 .. => inferInstanceAs (Decidable (_ ∧ _))
  | .none => isFalse not_false

/-- The relay keeps to the family of the connection. -/
def RelayFamily (o : Client) : Event → Prop
  | .receive p data => ¬ CrossFamily o.cfg.udpMtu (o.con p).localAddr data
  | _ => True

instance (o : Client) (e : Event) : Decidable (RelayFamily o e) :=
  match e with
  | .receive .. => inferInstanceAs (Decidable (¬ _))
  | .submit .. => isTrue trivial
  | .firstJob _ => isTrue trivial
  | .ready _ => isTrue trivial
  | .free _ => isTrue trivial

/-- The datagrams that the client passes on, by the type that the relay wrote. -/
theorem parseSocksUdp_eq_some {data payload : List UInt8} (h : parseSocksUdp data = some (r, payload)) :
    (data.getD 3 0 = socksAtypIpv4 ∧ r.type = 1 ∧ data.length = socksUdpHeaderSize + addrIpv4Size + payload.length) ∨
    (data.getD 3 0 = socksAtypIpv6 ∧ r.type = 2 ∧
      data.length = socksUdpHeaderSize + addrIpv6Size + payload.length) := by
  unfold parseSocksUdp at h
  split_ifs at h with hlen h4 h6
  · refine .inl ⟨h4, ?_⟩
    unfold readAddrIpv4 at h
    split_ifs at h with hl
    cases h
    refine ⟨rfl, ?_⟩
    simp only [List.length_drop] at *
    omega
  · refine .inr ⟨h6, ?_⟩
    unfold readAddrIpv6 at h
    split_ifs at h with hl
    cases h
    refine ⟨rfl, ?_⟩
    simp only [List.length_drop] at *
    omega

/-- A datagram with room for the address of its type is read. -/
theorem parseSocksUdp_isSome {data : List UInt8}
    (h : (data.getD 3 0 = socksAtypIpv4 ∧ socksUdpHeaderSize + addrIpv4Size ≤ data.length) ∨
      (data.getD 3 0 = socksAtypIpv6 ∧ socksUdpHeaderSize + addrIpv6Size ≤ data.length)) :
    (parseSocksUdp data).isSome = true := by
  have hne : socksAtypIpv6 ≠ socksAtypIpv4 := by decide
  rcases h with ⟨htype, hlen⟩ | ⟨htype, hlen⟩
  · rw [parseSocksUdp, if_neg (by omega), if_pos htype, readAddrIpv4, if_neg (by rw [List.length_drop]; omega)]
    rfl
  · rw [parseSocksUdp, if_neg (by omega), if_neg (htype ▸ hne), if_pos htype, readAddrIpv6,
      if_neg (by rw [List.length_drop]; omega)]
    rfl

/-- What a datagram of the relay makes the client hand over, when its type is wrong. -/
theorem crossFamily_iff {data : List UInt8} {udpMtu : Nat} (hl : l.isIp) :
    CrossFamily udpMtu l data ↔ ∃ r payload, parseSocksUdp data = some (r, payload) ∧
      payload.length ≤ udpMtu ∧ deviceAddrTypesOk l r = false := by
  have hne : socksAtypIpv6 ≠ socksAtypIpv4 := by decide
  constructor
  · intro h
    cases l with
    | none => exact h.elim
    | ipv4 ip port =>
      obtain ⟨htype, hlen, hmtu⟩ := h
      obtain ⟨⟨r, payload⟩, hparse⟩ := Option.isSome_iff_exists.mp (parseSocksUdp_isSome (.inr ⟨htype, hlen⟩))
      rcases parseSocksUdp_eq_some hparse with ⟨h4, -, -⟩ | ⟨-, hr, hdata⟩
      · exact absurd (htype.symm.trans h4) hne
      · exact ⟨r, payload, hparse, by omega, decide_eq_false fun h => absurd (h.2.trans hr) (by simp [BAddr.type])⟩
    | ipv6 ip port =>
      obtain ⟨htype, hlen, hmtu⟩ := h
      obtain ⟨⟨r, payload⟩, hparse⟩ := Option.isSome_iff_exists.mp (parseSocksUdp_isSome (.inl ⟨htype, hlen⟩))
      rcases parseSocksUdp_eq_some hparse with ⟨-, hr, hdata⟩ | ⟨h6, -, -⟩
      · exact ⟨r, payload, hparse, by omega, decide_eq_false fun h => absurd (h.2.trans hr) (by simp [BAddr.type])⟩
      · exact absurd (h6.symm.trans htype) hne
  · rintro ⟨r, payload, hparse, hmtu, hno⟩
    have htypes : l.type ≠ r.type := fun he => by simp [deviceAddrTypesOk, hl, he] at hno
    rcases parseSocksUdp_eq_some hparse with ⟨h4, hr, hdata⟩ | ⟨h6, hr, hdata⟩
    · cases l with
      | none => simp [BAddr.isIp, BAddr.type] at hl
      | ipv4 ip port => exact absurd hr.symm htypes
      | ipv6 ip port => exact ⟨h4, by omega, by omega⟩
    · cases l with
      | none => simp [BAddr.isIp, BAddr.type] at hl
      | ipv4 ip port => exact ⟨h6, by omega, by omega⟩
      | ipv6 ip port => exact absurd hr.symm htypes

/-- What was handed over has two addresses of one family. -/
def OneFamily (o : Client) : Prop := ∀ l r d, .received l r d ∈ o.log → deviceAddrTypesOk l r = true

theorem Keeps.oneFamily (hk : Keeps o o') : OneFamily o' ↔ OneFamily o :=
  forall₃_congr fun l r d => imp_congr_left (hk.received l r d)

theorem oneFamily_received (o : Client) (l r : BAddr) (d : List UInt8) :
    OneFamily {o with log := o.log ++ [.received l r d]} ↔ OneFamily o ∧ deviceAddrTypesOk l r = true := by
  constructor
  · intro h
    exact ⟨fun l' r' d' hmem => h l' r' d' (List.mem_append_left _ hmem), h l r d (by simp)⟩
  · intro ⟨h, hok⟩ l' r' d' hmem
    rcases List.mem_append.mp hmem with hmem | hmem
    · exact h l' r' d' hmem
    · cases List.mem_singleton.mp hmem
      exact hok

/-- One step hands over no datagram of two families exactly when the relay sent none. -/
theorem oneFamily_step_iff {e : Event} (h : Inv o) (hs : step o e = some o') :
    OneFamily o' ↔ OneFamily o ∧ RelayFamily o e := by
  cases change_of_step hs with
  | refused => exact (and_iff_left trivial).symm
  | insert hl => exact (and_iff_left trivial).symm
  | sent hfind => exact (Keeps.connectionSend o _ _ _).oneFamily.trans (and_iff_left trivial).symm
  | first hk => exact hk.oneFamily.trans (and_iff_left trivial).symm
  | ready hk => exact hk.oneFamily.trans (and_iff_left trivial).symm
  | free hk => exact hk.oneFamily.trans (and_iff_left trivial).symm
  | dropped hp hdrop =>
    refine (and_iff_left fun hc => ?_).symm
    obtain ⟨r, payload, hparse, hmtu, -⟩ := (crossFamily_iff (h.isIp _ hp)).mp hc
    exact hdrop r payload hparse hmtu
  | handed hp hparse hmtu =>
    rw [(Keeps.checkDnsReply _ _ _ _).oneFamily, oneFamily_received]
    refine and_congr_right fun _ => ?_
    rw [RelayFamily, crossFamily_iff (h.isIp _ hp)]
    constructor
    · intro hok ⟨r', payload', hparse', _, hbad⟩
      cases hparse.symm.trans hparse'
      exact absurd hok (by simp [hbad])
    · intro hno
      by_contra hbad
      exact hno ⟨_, _, hparse, hmtu, by simpa using hbad⟩

/-- The client hands over datagrams of one family only, exactly when the relay keeps to
the families of the connections. -/
theorem oneFamily_run_iff {cfg : Config} {es : List Event} (h : Run.run step (init cfg) es = some o) :
    OneFamily o ↔ Run.AllSteps step RelayFamily (init cfg) es := by
  have hinit : OneFamily (init cfg) := nofun
  rw [Run.run_iff (fun _ _ _ => Inv.step) (fun _ _ _ => oneFamily_step_iff) h (inv_init cfg)]
  exact and_iff_right hinit

end SocksUdp

/-- **Delivery.** While UDP is forwarded, nothing that the udpgw client hands over fails
an assertion of `udp_send_packet_to_device`; what the SOCKS-UDP client hands over fails
none exactly when the relay never names an address of the other family. -/
theorem deliveries_assertion_free (dcfg : DeviceConfig) (hmode : dcfg.udpMode ≠ .none) :
    (∀ cfg es o, Run.run UdpGw.step (UdpGw.init cfg) es = some o →
      Run.AllSteps UdpGw.step (UdpGw.FromDevice dcfg) (UdpGw.init cfg) es →
      ∀ l r d, .received l r d ∈ o.log → udpSendPacketToDevice dcfg l r d ≠ .assertion) ∧
    (∀ cfg es o, Run.run SocksUdp.step (SocksUdp.init cfg) es = some o →
      ((∀ l r d, .received l r d ∈ o.log → udpSendPacketToDevice dcfg l r d ≠ .assertion) ↔
        Run.AllSteps SocksUdp.step SocksUdp.RelayFamily (SocksUdp.init cfg) es)) := by
  constructor
  · intro cfg es o hrun hfrom l r d hmem
    exact (udpSendPacketToDevice_assertion hmode l r d).mpr ((UdpGw.oneFamily_run hrun hfrom).received l r d hmem)
  · intro cfg es o hrun
    rw [← SocksUdp.oneFamily_run_iff hrun]
    exact forall₃_congr fun l r d => imp_congr_right fun _ => udpSendPacketToDevice_assertion hmode l r d

/-- An association of an IPv4 address; the relay names an address of its family, or with
`cross` one of the other. -/
def relayReply (cross : Bool) : List SocksUdp.Event :=
  [.submit (.ipv4 1 1) (.ipv4 9 1) [] true, .firstJob 0, .ready 0,
    .receive 0 (if cross then SocksUdp.socksUdpMessage SocksUdp.socksAtypIpv6 (.ipv6 (Vector.replicate 16 0) 1) []
      else SocksUdp.socksUdpMessage SocksUdp.socksAtypIpv4 (.ipv4 9 1) [])]

theorem relay_crosses_families : ¬∀ (dcfg : DeviceConfig) (cfg : SocksUdp.Config) (es : List SocksUdp.Event)
    (o : SocksUdp.Client), dcfg.udpMode = .socks → Run.run SocksUdp.step (SocksUdp.init cfg) es = some o →
      ∀ l r d, .received l r d ∈ o.log → udpSendPacketToDevice dcfg l r d ≠ .assertion := by
  intro hall
  have hrun : (Run.run SocksUdp.step (SocksUdp.init ⟨0, 1⟩) (relayReply true)).any (fun o =>
      decide (SocksUdp.Entry.received (.ipv4 1 1) (.ipv6 (Vector.replicate 16 0) 1) [] ∈ o.log)) = true := by
    decide +kernel
  obtain ⟨o, ho, hmem⟩ := (Option.any_eq_true _ _).mp hrun
  exact hall ⟨.socks, 1500, 0, true, 1, false⟩ _ _ o rfl ho _ _ _ (of_decide_eq_true hmem) (by decide)

/-- The server answers a datagram of the device. -/
def serverReply : List UdpGw.Event :=
  UdpGw.submitRun (.ipv4 1 1) (.ipv4 9 1) 7 ++
    [.handler, .connect, .receive (UdpGw.udpgwPacket 0 0 (.ipv4 9 1) [])]

theorem serverReply_fromDevice : Run.AllSteps UdpGw.step (UdpGw.FromDevice ⟨.udpgw, 1500, 0, true, 1, false⟩)
    (UdpGw.init UdpGw.oneConnection) serverReply := by
  have hpacket : processDeviceUdpPacket ⟨.udpgw, 1500, 0, true, 1, false⟩ (deviceUdpPacket4 9 1 1 1 []) =
      some ⟨.ipv4 1 1, .ipv4 9 1, false, []⟩ := by decide +kernel
  refine ⟨trivial, fun _ _ => ⟨⟨_, hpacket⟩, fun _ _ => ?_⟩⟩
  simp [Run.AllSteps, UdpGw.FromDevice]

theorem deliveries_assertion_free_replies :
    (∃ o, Run.run UdpGw.step (UdpGw.init UdpGw.oneConnection) serverReply = some o ∧
      .received (.ipv4 1 1) (.ipv4 9 1) [] ∈ o.log ∧
      udpSendPacketToDevice ⟨.udpgw, 1500, 0, true, 1, false⟩ (.ipv4 1 1) (.ipv4 9 1) [] ≠ .assertion) ∧
    (∃ o, Run.run SocksUdp.step (SocksUdp.init ⟨0, 1⟩) (relayReply false) = some o ∧
      .received (.ipv4 1 1) (.ipv4 9 1) [] ∈ o.log ∧
      udpSendPacketToDevice ⟨.socks, 1500, 0, true, 1, false⟩ (.ipv4 1 1) (.ipv4 9 1) [] ≠ .assertion) := by
  constructor
  · have hrun : (Run.run UdpGw.step (UdpGw.init UdpGw.oneConnection) serverReply).any (fun o =>
        decide (UdpGw.Entry.received (.ipv4 1 1) (.ipv4 9 1) [] ∈ o.log)) = true := by decide +kernel
    obtain ⟨o, ho, hmem⟩ := (Option.any_eq_true _ _).mp hrun
    have hfree := (deliveries_assertion_free ⟨.udpgw, 1500, 0, true, 1, false⟩ nofun).1 _ _ o ho serverReply_fromDevice
    exact ⟨o, ho, of_decide_eq_true hmem, hfree _ _ _ (of_decide_eq_true hmem)⟩
  · have hrun : (Run.run SocksUdp.step (SocksUdp.init ⟨0, 1⟩) (relayReply false)).any (fun o =>
        decide (SocksUdp.Entry.received (.ipv4 1 1) (.ipv4 9 1) [] ∈ o.log)) = true := by decide +kernel
    have hrelay : Run.AllSteps SocksUdp.step SocksUdp.RelayFamily (SocksUdp.init ⟨0, 1⟩) (relayReply false) := by
      decide +kernel
    obtain ⟨o, ho, hmem⟩ := (Option.any_eq_true _ _).mp hrun
    have hfree := ((deliveries_assertion_free ⟨.socks, 1500, 0, true, 1, false⟩ nofun).2 _ _ o ho).mpr hrelay
    exact ⟨o, ho, of_decide_eq_true hmem, hfree _ _ _ (of_decide_eq_true hmem)⟩

end TwilightLine
