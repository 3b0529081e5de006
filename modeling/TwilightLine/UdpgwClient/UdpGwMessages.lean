import TwilightLine.Misc.BSize
import TwilightLine.UdpgwClient.UdpGwClientChanges

/-! Packets that the client writes and packets that it reads.

`readPacket` reads a packet as `recv_interface_handler_send` does, moving along the buffer,
and stays inside it (`readPacket_eq`). A packet that `connection_send` wrote is handed over
for the connection while that stands for the same addresses, and any bytes are handed over
once or not at all (`packets_roundTrip`). -/
namespace TwilightLine.UdpGw

variable {o o' : Client} {p q : Ptr}

/-! ### Reading a packet -/

/-- Bytes of a buffer, from a position on; there is no result where they reach past its end. -/
def readAt (buf : List UInt8) (pos n : Nat) : Option (List UInt8) :=
  if pos + n ≤ buf.length then some ((buf.drop pos).take n) else none

theorem readAt_eq {buf : List UInt8} {pos n : Nat} (h : pos + n ≤ buf.length) :
    readAt buf pos n = some ((buf.drop pos).take n) := if_pos h

/-- The header, the address and the data of a packet, read from the buffer. There is no
result where a read reaches past the end, and no packet where one is missing. -/
def readPacket (buf : List UInt8) : Option (Option UdpgwPacket) := do
  -- check header
  if buf.length < udpgwHeaderSize then return none
  let header ← readAt buf 0 udpgwHeaderSize
  let pos := udpgwHeaderSize
  let len := buf.length - udpgwHeaderSize
  let flags := header.getD 0 0
  let conid := readLe16 (header.getD 1 0) (header.getD 2 0)
  -- parse address
  if HasFlag flags flagIpv6 then
    if len < addrIpv6Size then return none
    let addr ← readAt buf pos addrIpv6Size
    let data ← readAt buf (pos + addrIpv6Size) (len - addrIpv6Size)
    return (readAddrIpv6 addr).map fun (remoteAddr, _) => ⟨conid, remoteAddr, data⟩
  else
    if len < addrIpv4Size then return none
    let addr ← readAt buf pos addrIpv4Size
    let data ← readAt buf (pos + addrIpv4Size) (len - addrIpv4Size)
    return (readAddrIpv4 addr).map fun (remoteAddr, _) => ⟨conid, remoteAddr, data⟩

/-- An address is read from its own bytes. -/
theorem readAddrIpv4_take {data : List UInt8} (h : addrIpv4Size ≤ data.length) :
    ∃ r, readAddrIpv4 (data.take addrIpv4Size) = some (r, []) ∧ readAddrIpv4 data = some (r, data.drop addrIpv4Size) := by
  obtain ⟨ip, port, hread, hpacked⟩ := readAddrIpv4_of_length (List.length_take_of_le h)
  refine ⟨_, hread, ?_⟩
  have hdata := readAddrIpv4_packed ip port (data.drop addrIpv4Size)
  rwa [hpacked, List.take_append_drop] at hdata

theorem readAddrIpv6_take {data : List UInt8} (h : addrIpv6Size ≤ data.length) :
    ∃ r, readAddrIpv6 (data.take addrIpv6Size) = some (r, []) ∧ readAddrIpv6 data = some (r, data.drop addrIpv6Size) := by
  obtain ⟨ip, port, hread, hpacked⟩ := readAddrIpv6_of_length (List.length_take_of_le h)
  refine ⟨_, hread, ?_⟩
  have hdata := readAddrIpv6_packed ip port (data.drop addrIpv6Size)
  rwa [hpacked, List.take_append_drop] at hdata

theorem readAddrIpv4_short {data : List UInt8} (h : data.length < addrIpv4Size) : readAddrIpv4 data = none := if_pos h

theorem readAddrIpv6_short {data : List UInt8} (h : data.length < addrIpv6Size) : readAddrIpv6 data = none := if_pos h

/-- The rest of a buffer. -/
theorem readAt_rest {buf : List UInt8} {pos n : Nat} (h : pos + n = buf.length) : readAt buf pos n = some (buf.drop pos) := by
  rw [readAt_eq h.le, List.take_of_length_le]
  rw [List.length_drop]
  omega

/-- **No byte past the end of the packet is read.** -/
theorem readPacket_eq (buf : List UInt8) : readPacket buf = some (parseUdpgw buf) := by
  unfold readPacket parseUdpgw
  by_cases hlen : buf.length < udpgwHeaderSize
  · rw [if_pos hlen, if_pos hlen]
    rfl
  have hle := not_lt.mp hlen
  have hrest : (buf.drop udpgwHeaderSize).length = buf.length - udpgwHeaderSize := List.length_drop ..
  have hheader : ∀ i < 3, (buf.take udpgwHeaderSize).getD i 0 = buf.getD i 0 := by
    intro i hi
    simp [List.getD_eq_getElem?_getD, udpgwHeaderSize, hi]
  rw [if_neg hlen, if_neg hlen, readAt_eq (by omega)]
  simp only [List.drop_zero, Option.pure_def, Option.bind_eq_bind, Option.bind_some]
  rw [hheader 0 (by decide), hheader 1 (by decide), hheader 2 (by decide)]
  unfold readUdpgwAddr
  split
  · by_cases hshort : buf.length - udpgwHeaderSize < addrIpv6Size
    · rw [if_pos hshort, readAddrIpv6_short (hrest ▸ hshort)]
      rfl
    · obtain ⟨r, htake, hread⟩ := readAddrIpv6_take (hrest ▸ not_lt.mp hshort)
      rw [if_neg hshort, readAt_eq (by omega), readAt_rest (by omega), hread]
      simp [htake, List.drop_drop]
  · by_cases hshort : buf.length - udpgwHeaderSize < addrIpv4Size
    · rw [if_pos hshort, readAddrIpv4_short (hrest ▸ hshort)]
      rfl
    · obtain ⟨r, htake, hread⟩ := readAddrIpv4_take (hrest ▸ not_lt.mp hshort)
      rw [if_neg hshort, readAt_eq (by omega), readAt_rest (by omega), hread]
      simp [htake, List.drop_drop]

/-- `udpgw_compute_mtu`, with the overflow of the sum. -/
def udpgwComputeMtuInt (dgramMtu : Int) : Int :=
  ((BSize.ofSize udpgwHeaderSize).add
    (((BSize.ofSize addrIpv4Size).max (BSize.ofSize addrIpv6Size)).add (BSize.ofInt dgramMtu))).toInt.getD (-1)

/-- The MTU of a client is computed without overflow. -/
theorem udpgwComputeMtuInt_eq (cfg : Config) : udpgwComputeMtuInt cfg.udpMtu = udpgwComputeMtu cfg.udpMtu := by
  have haddr : BSize.Is ((BSize.ofSize addrIpv4Size).max (BSize.ofSize addrIpv6Size)) (max addrIpv4Size addrIpv6Size) :=
    (BSize.is_ofSize (by decide)).max (BSize.is_ofSize (by decide))
  have hsum : BSize.Is _ (udpgwComputeMtu cfg.udpMtu) :=
    (BSize.is_ofSize (show udpgwHeaderSize ≤ sizeMax by decide)).add (haddr.add (BSize.is_ofInt cfg.udpMtu))
  have hle : udpgwComputeMtu cfg.udpMtu ≤ 2 ^ 31 - 1 := cfg.mtu_le.trans (by decide)
  unfold udpgwComputeMtuInt
  rw [hsum.toInt, if_pos hle]
  rfl

/-! ### Connections -/

/-- The flags that the callers of `connection_send` pass for a connection. -/
def PassedFlags (o : Client) (p : Ptr) (flags : UInt8) : Prop :=
  (∃ isDns, flags = submitFlags isDns ∨ flags = submitFlags isDns ||| flagRebind) ∨
    flags = flagRebind ||| (o.con p).firstFlags

/-- A connection stays one, with its conid and its first flags. -/
structure Stays (p : Ptr) (o o' : Client) : Prop where
  cfg : o'.cfg = o.cfg
  list : p ∈ o.connectionsList → p ∈ o'.connectionsList
  conid : (o'.con p).conid = (o.con p).conid
  firstFlags : (o'.con p).firstFlags = (o.con p).firstFlags

theorem Stays.trans {o₁ o₂ o₃ : Client} (h : Stays p o₁ o₂) (h' : Stays p o₂ o₃) : Stays p o₁ o₃ where
  cfg := h'.cfg.trans h.cfg
  list := fun hp => h'.list (h.list hp)
  conid := h'.conid.trans h.conid
  firstFlags := h'.firstFlags.trans h.firstFlags

theorem Stays.connectionSend (o : Client) (p q : Ptr) (flags : UInt8) (data : List UInt8) (origin : Origin) :
    Stays p o (o.connectionSend q flags data origin) := by
  unfold Client.connectionSend
  split
  · exact ⟨rfl, id, rfl, rfl⟩
  · refine ⟨rfl, id, ?_, ?_⟩
    all_goals by_cases hq : p = q <;> simp [Client.setJob, Client.setFlow, hq]

theorem Stays.touch (hq : q ∈ o.connectionsList) : Stays p o (o.touch q) := ⟨rfl, (mem_touch hq).mpr, rfl, rfl⟩

theorem Stays.rebind (o : Client) (p q : Ptr) (a : Conaddr) : Stays p o (o.rebind q a) := by
  refine ⟨rfl, id, rebind_conid o q p a, ?_⟩
  rw [rebind_con]
  by_cases hq : p = q <;> simp [hq]

theorem Stays.setFlow (o : Client) (p q : Ptr) (flow : PacketProtoFlow Note) : Stays p o (o.setFlow q flow) := by
  refine ⟨rfl, id, ?_, ?_⟩
  all_goals by_cases hq : p = q <;> simp [Client.setFlow, hq]

theorem Stays.step (h : Inv o) {e : Event} (hs : step o e = some o') (hp : p ∈ o.connectionsList) : Stays p o o' := by
  cases change_of_step h hs with
  | quiet hq => exact ⟨hq.cfg, (hq.list p).mpr, hq.conid p, hq.firstFlags p⟩
  | receive _ hfind _ =>
    have hq := (h.findConnectionByConid hfind).1
    exact ⟨rfl, (mem_touch hq).mpr, rfl, rfl⟩
  | @first q rest hjobs =>
    have hsend : Stays p {o with jobs := rest} ({o with jobs := rest}.connectionFirstJobHandler q) :=
      Stays.connectionSend ..
    exact ⟨hsend.cfg, hsend.list, hsend.conid, hsend.firstFlags⟩
  | submit _ hfind => exact (Stays.touch (h.findConnectionByConaddr hfind).1).trans (.connectionSend ..)
  | reuse _ _ _ hlist =>
    have hq := hlist ▸ List.mem_cons_self ..
    exact ((Stays.rebind ..).trans (.touch hq)).trans (.connectionSend ..)
  | insert =>
    have hne := h.ne_fresh hp
    refine ⟨rfl, fun hp => (mem_connectionInsert ..).mpr (.inr hp), ?_, ?_⟩
    all_goals exact congrArg _ (Function.update_of_ne hne ..)
  | @transmit q =>
    have hflow := Stays.setFlow o p q {(o.con q).flow with output := .passed}
    exact ⟨hflow.cfg, hflow.list, hflow.conid, hflow.firstFlags⟩
  | @drain q =>
    have hflow := Stays.setFlow o p q (o.con q).flow.outputHandlerDone.1
    exact ⟨hflow.cfg, hflow.list, hflow.conid, hflow.firstFlags⟩

/-- The first flags of a connection are those of the datagram that it was made for. -/
def FirstFlags (o : Client) : Prop := ∀ p ∈ o.connectionsList, ∃ isDns, (o.con p).firstFlags = submitFlags isDns

theorem new_of_step (h : Inv o) {e : Event} (hs : step o e = some o') (hold : p ∉ o.connectionsList)
    (hp : p ∈ o'.connectionsList) : ∃ isDns, (o'.con p).firstFlags = submitFlags isDns := by
  cases change_of_step h hs with
  | quiet hq => exact absurd ((hq.list p).mp hp) hold
  | receive _ hfind _ => exact absurd ((mem_touch (h.findConnectionByConid hfind).1).mp hp) hold
  | @first q rest =>
    have hlist := (mem_connectionSend (o := {o with jobs := rest}) (p := q) (flagRebind ||| (o.con q).firstFlags)
      (o.con q).firstData (o.con q).firstOrigin).1
    exact absurd (hlist.symm ▸ hp : p ∈ o.connectionsList) hold
  | submit _ hfind =>
    rw [(mem_connectionSend _ _ _).1, mem_touch (h.findConnectionByConaddr hfind).1] at hp
    exact absurd hp hold
  | reuse _ _ _ hlist =>
    rw [(mem_connectionSend _ _ _).1, mem_touch (hlist ▸ List.mem_cons_self ..)] at hp
    exact absurd hp hold
  | @insert l r isDns =>
    rcases (mem_connectionInsert ..).mp hp with rfl | hp
    · exact ⟨isDns, by rw [connectionInsert_new]⟩
    · exact absurd hp hold
  | transmit => exact absurd hp hold
  | drain => exact absurd hp hold

theorem FirstFlags.step (hf : FirstFlags o) (h : Inv o) {e : Event} (hs : step o e = some o') : FirstFlags o' := by
  intro p hp
  by_cases hold : p ∈ o.connectionsList
  · rw [(Stays.step h hs hold).firstFlags]
    exact hf p hold
  · obtain ⟨isDns, hnew⟩ := new_of_step h hs hold hp
    exact ⟨isDns, hnew⟩

/-- A packet carries the flag of its address, whatever flags the callers pass. -/
theorem hasFlag_ipv6 (hf : FirstFlags o) (hp : p ∈ o.connectionsList) {flags : UInt8}
    (hflags : PassedFlags o p flags) :
    HasFlag (o.sendFlags p flags) flagIpv6 ↔ (o.con p).conaddr.remoteAddr.type = 2 := by
  have hdns : ∀ isDns, ¬HasFlag (submitFlags isDns) flagIpv6 := by decide
  have hrebind : ¬HasFlag flagRebind flagIpv6 := by decide
  have hno : ¬HasFlag flags flagIpv6 := by
    rcases hflags with ⟨isDns, rfl | rfl⟩ | rfl
    · exact hdns isDns
    · rw [hasFlag_or, not_or]
      exact ⟨hdns isDns, hrebind⟩
    · obtain ⟨isDns, hfirst⟩ := hf p hp
      rw [hasFlag_or, not_or, hfirst]
      exact ⟨hrebind, hdns isDns⟩
  unfold Client.sendFlags
  split
  · next h6 => simp [hasFlag_or, h6, show HasFlag flagIpv6 flagIpv6 by decide]
  · next h6 => simp [hno, h6]

/-- The connection that a packet of the server is for. -/
structure IsFor (o : Client) (packet : UdpgwPacket) (p : Ptr) : Prop where
  list : p ∈ o.connectionsList
  conid : (o.con p).conid = packet.conid
  remoteAddr : (o.con p).conaddr.remoteAddr = packet.remoteAddr

/-- What the client does with bytes from the server: it hands the payload over for the one
connection that it is for, or does nothing. -/
structure Receives (o : Client) (data : List UInt8) (o' : Client) : Prop where
  handedOver : ∀ packet p, parseUdpgw data = some packet → packet.data.length ≤ o.cfg.udpMtu → IsFor o packet p →
    o'.log = o.log ++ [.received (o.con p).conaddr.localAddr (o.con p).conaddr.remoteAddr packet.data] ∧
      ∀ q, IsFor o packet q → q = p
  dropped : (∀ packet p, parseUdpgw data = some packet → packet.data.length ≤ o.cfg.udpMtu → ¬IsFor o packet p) →
    o'.log = o.log

/-- A lookup by conid finds a connection that has the conid. -/
theorem Inv.find_of_conid (h : Inv o) (hp : p ∈ o.connectionsList) : o.findConnectionByConid (o.con p).conid = some p := by
  cases hfind : o.findConnectionByConid (o.con p).conid with
  | none => exact absurd rfl (h.conid_unused hfind p hp)
  | some q =>
    obtain ⟨hq, hconid⟩ := h.findConnectionByConid hfind
    rw [h.conid_inj q hq p hp hconid]

theorem receives (h : Inv o) (data : List UInt8) : Receives o data (o.recvInterfaceHandlerSend data) where
  handedOver := by
    intro packet p hparse hlen hfor
    refine ⟨?_, fun q hq => h.conid_inj q hq.list p hfor.list (hq.conid.trans hfor.conid.symm)⟩
    have hfind := h.find_of_conid hfor.list
    rw [hfor.conid] at hfind
    have haddr : ¬bAddrCompareOrder (o.con p).conaddr.remoteAddr packet.remoteAddr ≠ 0 :=
      not_not.mpr ((bAddrCompareOrder_eq_zero _ _).mpr hfor.remoteAddr)
    unfold Client.recvInterfaceHandlerSend
    rw [hparse]
    dsimp only
    rw [if_neg (not_lt.mpr hlen), hfind]
    dsimp only
    rw [if_neg haddr]
    rfl
  dropped := by
    intro hnone
    unfold Client.recvInterfaceHandlerSend
    split
    · rfl
    · next packet hparse =>
      split
      · rfl
      · next hlen =>
        split
        · rfl
        · next q hfind =>
          dsimp only
          split
          · rfl
          · next haddr =>
            rw [not_not, bAddrCompareOrder_eq_zero] at haddr
            obtain ⟨hq, hconid⟩ := h.findConnectionByConid hfind
            exact absurd ⟨hq, hconid, haddr⟩ (hnone packet q hparse (not_lt.mp hlen))

/-- The client and what it remembers of its connections, in any state of a run. -/
def Sound (o : Client) : Prop := Inv o ∧ FirstFlags o

theorem sound_run {cfg : Config} {es : List Event} (hrun : Run.run step (init cfg) es = some o) : Sound o :=
  Run.run_invariant Sound (fun _ _ _ h hs => ⟨h.1.step hs, h.2.step h.1 hs⟩) hrun ⟨inv_init cfg, nofun⟩

theorem Stays.run {es : List Event} (h : Inv o) (hrun : Run.run UdpGw.step o es = some o') (hp : p ∈ o.connectionsList) :
    Inv o' ∧ Stays p o o' := by
  refine Run.run_invariant (fun m => Inv m ∧ Stays p o m) ?_ hrun ⟨h, rfl, id, rfl, rfl⟩
  intro m m' e hm hs
  exact ⟨hm.1.step hs, hm.2.trans (Stays.step hm.1 hs (hm.2.list hp))⟩

/-- The packet of a datagram is handed over for its connection, while that has the same
addresses. -/
theorem Sound.packet_received (h : Sound o) (hp : p ∈ o.connectionsList) (hip : (o.con p).conaddr.remoteAddr.isIp)
    {flags : UInt8} (hflags : PassedFlags o p flags) {data : List UInt8} (hlen : data.length ≤ o.cfg.udpMtu)
    (origin : Origin) :
    (o.sendPacket p flags data origin).bytes.length ≤ o.udpgwMtu ∧
      ∀ es o', Run.run step o es = some o' → (o'.con p).conaddr = (o.con p).conaddr → o'.running = true →
        o'.haveServer = true → ∃ o'', step o' (.receive (o.sendPacket p flags data origin).bytes) = some o'' ∧
          o''.log = o'.log ++ [.received (o.con p).conaddr.localAddr (o.con p).conaddr.remoteAddr data] := by
  have hmtu : (o.sendPacket p flags data origin).bytes.length ≤ o.udpgwMtu := udpgwPacket_length_le _ _ _ hlen
  refine ⟨hmtu, ?_⟩
  intro es o' hrun hconaddr hrunning hserver
  obtain ⟨hinv', hstays⟩ := Stays.run h.1 hrun hp
  have hparse : parseUdpgw (o.sendPacket p flags data origin).bytes =
      some ⟨(o.con p).conid, (o.con p).conaddr.remoteAddr, data⟩ :=
    parseUdpgw_packet _ _ hip (hasFlag_ipv6 h.2 hp hflags)
  have hmtu' : (o.sendPacket p flags data origin).bytes.length ≤ o'.udpgwMtu := by
    unfold Client.udpgwMtu at hmtu ⊢
    rwa [hstays.cfg]
  refine ⟨_, if_pos ⟨hrunning, hserver, hmtu'⟩, ?_⟩
  have hfor : IsFor o' ⟨(o.con p).conid, (o.con p).conaddr.remoteAddr, data⟩ p :=
    ⟨hstays.list hp, hstays.conid, congrArg Conaddr.remoteAddr hconaddr⟩
  rw [((receives hinv' _).handedOver _ p hparse (hstays.cfg ▸ hlen) hfor).1, hconaddr]

/-- **Packets of the client are handed over as they were submitted, and any bytes at most
once, for the connection that they name.** -/
theorem packets_roundTrip {cfg : Config} {es : List Event} (hrun : Run.run step (init cfg) es = some o) :
    udpgwComputeMtuInt o.cfg.udpMtu = o.udpgwMtu ∧
    (∀ p ∈ o.connectionsList, (o.con p).conaddr.remoteAddr.isIp → ∀ flags, PassedFlags o p flags →
      ∀ (data : List UInt8) (origin : Origin), data.length ≤ o.cfg.udpMtu →
        (o.sendPacket p flags data origin).bytes.length ≤ o.udpgwMtu ∧
        ∀ es o', Run.run step o es = some o' → (o'.con p).conaddr = (o.con p).conaddr → o'.running = true →
          o'.haveServer = true → ∃ o'', step o' (.receive (o.sendPacket p flags data origin).bytes) = some o'' ∧
            o''.log = o'.log ++ [.received (o.con p).conaddr.localAddr (o.con p).conaddr.remoteAddr data]) ∧
    ∀ data : List UInt8, data.length ≤ o.udpgwMtu → o.running = true → o.haveServer = true →
      readPacket data = some (parseUdpgw data) ∧ ∃ o', step o (.receive data) = some o' ∧ Receives o data o' := by
  have h := sound_run hrun
  refine ⟨udpgwComputeMtuInt_eq o.cfg, ?_, ?_⟩
  · intro p hp hip flags hflags data origin hlen
    exact h.packet_received hp hip hflags hlen origin
  · intro data hlen hrunning hserver
    exact ⟨readPacket_eq data, _, if_pos ⟨hrunning, hserver, hlen⟩, receives h.1 data⟩

/-- A connection to an IPv4 host, with a server. -/
def connected : List Event := submitRun (.ipv4 1 1) (.ipv4 9 1) 7 ++ [.handler, .connect]

theorem packets_roundTrip_connected : ∃ o, Run.run step (init oneConnection) connected = some o ∧
    0 ∈ o.connectionsList ∧ o.running = true ∧ o.haveServer = true ∧
      (∃ o', step o (.receive (o.sendPacket 0 0 [] ⟨.none, 0⟩).bytes) = some o' ∧
        o'.log = o.log ++ [.received (o.con 0).conaddr.localAddr (o.con 0).conaddr.remoteAddr []]) ∧
      readPacket [0, 0] = some (parseUdpgw [0, 0]) := by
  have hrun : (Run.run step (init oneConnection) connected).any (fun o =>
      decide (0 ∈ o.connectionsList ∧ o.running = true ∧ o.haveServer = true ∧ (o.con 0).conaddr.remoteAddr.isIp ∧
        2 ≤ o.udpgwMtu)) = true := by decide +kernel
  obtain ⟨o, ho, hends⟩ := (Option.any_eq_true _ _).mp hrun
  obtain ⟨hp, hrunning, hserver, hip, hmtu⟩ := of_decide_eq_true hends
  obtain ⟨-, hsent, hreceived⟩ := packets_roundTrip ho
  have hfed := (hsent 0 hp hip 0 (.inl ⟨false, .inl rfl⟩) [] ⟨.none, 0⟩ (Nat.zero_le _)).2 [] o rfl rfl hrunning hserver
  exact ⟨o, ho, hp, hrunning, hserver, hfed, (hreceived [0, 0] hmtu hrunning hserver).1⟩

end TwilightLine.UdpGw
