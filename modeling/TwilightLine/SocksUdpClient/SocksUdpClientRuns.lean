import TwilightLine.SocksUdpClient.SocksUdpClient

/-! What the operations of the SOCKS-UDP client do.

`Change` lists the outcomes of a step. Apart from a new connection and a datagram handed
over, all of them free connections, set a DNS id to -1 or write to a send buffer
(`Keeps`). -/
namespace TwilightLine.SocksUdp

variable {o o' : Client} {p q : Ptr} {l r : BAddr} {d : List UInt8}

/-- The connections stand for IP addresses. -/
structure Inv (o : Client) : Prop where
  fresh : ∀ p ∈ o.connectionsTree, p < o.fresh
  isIp : ∀ p ∈ o.connectionsTree, (o.con p).localAddr.isIp
  nodup : o.connectionsTree.Nodup

theorem inv_init (cfg : Config) : Inv (init cfg) := ⟨nofun, nofun, List.nodup_nil⟩

/-- The client has no new connection, and no connection of it a new DNS id. -/
structure Fewer (o o' : Client) : Prop where
  fresh : o'.fresh = o.fresh
  tree : o'.connectionsTree.Sublist o.connectionsTree
  dnsId : ∀ p, (o'.con p).dnsId = (o.con p).dnsId ∨ (o'.con p).dnsId = -1

/-- The client differs in connections it freed, in fields of the others and in what it
wrote. -/
structure Keeps (o o' : Client) : Prop extends Fewer o o' where
  localAddr : ∀ p, (o'.con p).localAddr = (o.con p).localAddr
  received : ∀ l r d, .received l r d ∈ o'.log ↔ .received l r d ∈ o.log

theorem Keeps.refl (o : Client) : Keeps o o :=
  ⟨⟨rfl, List.Sublist.refl _, fun _ => .inl rfl⟩, fun _ => rfl, fun _ _ _ => Iff.rfl⟩

theorem Fewer.trans {o₁ o₂ o₃ : Client} (h : Fewer o₁ o₂) (h' : Fewer o₂ o₃) : Fewer o₁ o₃ where
  fresh := h'.fresh.trans h.fresh
  tree := h'.tree.trans h.tree
  dnsId := by
    intro p
    rcases h'.dnsId p with h' | h'
    · rw [h']
      exact h.dnsId p
    · exact .inr h'

theorem Keeps.trans {o₁ o₂ o₃ : Client} (h : Keeps o₁ o₂) (h' : Keeps o₂ o₃) : Keeps o₁ o₃ where
  toFewer := h.toFewer.trans h'.toFewer
  localAddr p := (h'.localAddr p).trans (h.localAddr p)
  received l r d := (h'.received l r d).trans (h.received l r d)

theorem Fewer.mem (hk : Fewer o o') (hp : p ∈ o'.connectionsTree) : p ∈ o.connectionsTree := hk.tree.subset hp

theorem Keeps.inv (hk : Keeps o o') (h : Inv o) : Inv o' where
  fresh p hp := hk.fresh ▸ h.fresh p (hk.toFewer.mem hp)
  isIp p hp := hk.localAddr p ▸ h.isIp p (hk.toFewer.mem hp)
  nodup := hk.tree.nodup h.nodup

/-- An update of one connection that keeps its local address, and its DNS id or none. -/
theorem Keeps.update (o : Client) (p : Ptr) {c : Connection} (hl : c.localAddr = (o.con p).localAddr)
    (hdns : c.dnsId = (o.con p).dnsId ∨ c.dnsId = -1) :
    Keeps o {o with con := Function.update o.con p c} := by
  have hcon : ∀ q, Function.update o.con p c q = if q = p then c else o.con q := Function.update_apply _ _ _
  refine ⟨⟨rfl, List.Sublist.refl _, fun q => ?_⟩, fun q => ?_, fun _ _ _ => Iff.rfl⟩
  · dsimp only
    rw [hcon]
    split
    · next hq => rw [hq]; exact hdns
    · exact .inl rfl
  · dsimp only
    rw [hcon]
    split
    · next hq => rw [hq, hl]
    · rfl

theorem Keeps.written (o : Client) (localAddr : BAddr) (message : List UInt8) :
    Keeps o {o with log := o.log ++ [.written localAddr message]} :=
  ⟨⟨rfl, List.Sublist.refl _, fun _ => .inl rfl⟩, fun _ => rfl, fun _ _ _ => by simp⟩

theorem Keeps.setDnsId (o : Client) (p : Ptr) : Keeps o (o.setDnsId p (-1)) :=
  Keeps.update o p rfl (.inr rfl)

theorem Keeps.connectionFree (o : Client) (p : Ptr) : Keeps o (o.connectionFree p) :=
  ⟨⟨rfl, List.erase_sublist, fun _ => .inl rfl⟩, fun _ => rfl, fun _ _ _ => Iff.rfl⟩

/-! ### Sending -/

/-- What `connection_send` does once it has looked at the DNS id. -/
def Client.write (o : Client) (p : Ptr) (remoteAddr : BAddr) (data : List UInt8) : Client :=
  match socksAtyp remoteAddr with
  | none => o
  | some atyp =>
    if !(o.con p).outHave then o
    else
      {o with
        con := Function.update o.con p {o.con p with outHave := false}
        log := o.log ++ [.written (o.con p).localAddr (socksUdpMessage atyp remoteAddr data)]}

theorem connectionSend_eq (o : Client) (p : Ptr) (remoteAddr : BAddr) (data : List UInt8) :
    o.connectionSend p remoteAddr data =
      (if (o.con p).dnsId ≥ 0 ∧ getDnsId remoteAddr data ≠ (o.con p).dnsId then o.setDnsId p (-1)
        else o).write p remoteAddr data := rfl

theorem Keeps.write (o : Client) (p : Ptr) (remoteAddr : BAddr) (data : List UInt8) :
    Keeps o (o.write p remoteAddr data) := by
  unfold Client.write
  split
  · exact Keeps.refl o
  · split
    · exact Keeps.refl o
    · exact (Keeps.update o p (c := {o.con p with outHave := false}) rfl (.inl rfl)).trans (Keeps.written _ _ _)

theorem write_tree (o : Client) (p : Ptr) (remoteAddr : BAddr) (data : List UInt8) :
    (o.write p remoteAddr data).connectionsTree = o.connectionsTree := by
  unfold Client.write
  split
  · rfl
  · split <;> rfl

theorem write_dnsId (o : Client) (p q : Ptr) (remoteAddr : BAddr) (data : List UInt8) :
    ((o.write p remoteAddr data).con q).dnsId = (o.con q).dnsId := by
  unfold Client.write
  split
  · rfl
  · split
    · rfl
    · by_cases hq : q = p <;> simp [hq]

theorem Keeps.connectionSend (o : Client) (p : Ptr) (remoteAddr : BAddr) (data : List UInt8) :
    Keeps o (o.connectionSend p remoteAddr data) := by
  rw [connectionSend_eq]
  refine Keeps.trans ?_ (Keeps.write _ p remoteAddr data)
  split
  · exact Keeps.setDnsId o p
  · exact Keeps.refl o

theorem connectionSend_tree (o : Client) (p : Ptr) (remoteAddr : BAddr) (data : List UInt8) :
    (o.connectionSend p remoteAddr data).connectionsTree = o.connectionsTree := by
  rw [connectionSend_eq, write_tree]
  split <;> rfl

theorem setDnsId_self (o : Client) (p : Ptr) (dnsId : Int) : ((o.setDnsId p dnsId).con p).dnsId = dnsId := by
  simp [Client.setDnsId]

/-- A connection keeps a DNS id only while what it sends carries it. -/
theorem connectionSend_dnsId (o : Client) (p : Ptr) (remoteAddr : BAddr) (data : List UInt8) :
    ((o.connectionSend p remoteAddr data).con p).dnsId =
      if (o.con p).dnsId ≥ 0 ∧ getDnsId remoteAddr data ≠ (o.con p).dnsId then -1 else (o.con p).dnsId := by
  rw [connectionSend_eq, write_dnsId]
  split
  · exact setDnsId_self o p (-1)
  · rfl

theorem connectionSend_other (hq : q ≠ p) (remoteAddr : BAddr) (data : List UInt8) :
    ((o.connectionSend p remoteAddr data).con q).dnsId = (o.con q).dnsId := by
  rw [connectionSend_eq, write_dnsId]
  split
  · exact congrArg Connection.dnsId (Function.update_of_ne hq ..)
  · rfl

/-! ### The other operations -/

theorem Keeps.firstJobHandler (h : o.firstJobHandler p = some o') : Keeps o o' := by
  unfold Client.firstJobHandler at h
  split at h
  · cases h
  · cases h
    exact (Keeps.connectionSend o p _ _).trans (Keeps.update _ p rfl (.inl rfl))

theorem Keeps.checkDnsReply (o : Client) (p : Ptr) (remoteAddr : BAddr) (data : List UInt8) :
    Keeps o (o.checkDnsReply p remoteAddr data) := by
  unfold Client.checkDnsReply
  split_ifs
  · exact Keeps.connectionFree o p
  · exact Keeps.setDnsId o p
  · exact Keeps.refl o

theorem Inv.connectionInit (h : Inv o) (hl : l.isIp) (remoteAddr : BAddr) (data : List UInt8) :
    Inv (o.connectionInit l remoteAddr data true) := by
  have hmem : ∀ q, q ∈ o.connectionsTree ++ [o.fresh] ↔ q ∈ o.connectionsTree ∨ q = o.fresh := by simp
  refine ⟨fun q hq => ?_, fun q hq => ?_, ?_⟩
  · show q < o.fresh + 1
    rcases (hmem q).mp hq with hq | rfl
    · exact Nat.lt_succ_of_lt (h.fresh q hq)
    · exact Nat.lt_succ_self _
  · show BAddr.isIp (Function.update o.con o.fresh _ q).localAddr
    rcases (hmem q).mp hq with hq | rfl
    · rw [Function.update_of_ne (h.fresh q hq).ne]
      exact h.isIp q hq
    · rw [Function.update_self]
      exact hl
  · refine List.nodup_append.mpr ⟨h.nodup, List.pairwise_singleton _ _, fun q hq q' hq' => ?_⟩
    rw [List.mem_singleton.mp hq']
    exact (h.fresh q hq).ne

theorem findConnection_mem (h : o.findConnection l = some p) : p ∈ o.connectionsTree := List.mem_of_find?_eq_some h

/-! ### Steps -/

/-- What a step can do. -/
inductive Change (o : Client) : Event → Client → Prop where
  /-- There is no connection for the datagram, and none can be made. -/
  | refused {l r : BAddr} {d : List UInt8} {success : Bool} (hfind : o.findConnection l = none) :
    Change o (.submit l r d success) o
  | insert {l r : BAddr} {d : List UInt8} (hl : l.isIp) (hfind : o.findConnection l = none) :
    Change o (.submit l r d true) (o.connectionInit l r d true)
  | sent {l r : BAddr} {d : List UInt8} {success : Bool} {p : Ptr} (hfind : o.findConnection l = some p) :
    Change o (.submit l r d success) (o.connectionSend p r d)
  | first {p : Ptr} {o' : Client} (hk : Keeps o o') : Change o (.firstJob p) o'
  | ready {p : Ptr} {o' : Client} (hk : Keeps o o') : Change o (.ready p) o'
  | free {p : Ptr} {o' : Client} (hk : Keeps o o') : Change o (.free p) o'
  | dropped {p : Ptr} {data : List UInt8} (hp : p ∈ o.connectionsTree)
    (hdrop : ∀ r payload, parseSocksUdp data = some (r, payload) → ¬ payload.length ≤ o.cfg.udpMtu) :
    Change o (.receive p data) o
  | handed {p : Ptr} {data payload : List UInt8} {r : BAddr} (hp : p ∈ o.connectionsTree)
    (hparse : parseSocksUdp data = some (r, payload)) (hmtu : payload.length ≤ o.cfg.udpMtu) :
    Change o (.receive p data)
      (Client.checkDnsReply {o with log := o.log ++ [.received (o.con p).localAddr r payload]} p r payload)

theorem change_of_submit (hl : l.isIp) (success : Bool) :
    Change o (.submit l r d success) (o.submitPacket l r d success) := by
  unfold Client.submitPacket
  cases hfind : o.findConnection l with
  | some p => exact .sent hfind
  | none =>
    dsimp only
    split
    · exact .refused hfind
    · cases success with
      | false => exact .refused hfind
      | true => exact .insert hl hfind

theorem change_of_receive (hp : p ∈ o.connectionsTree) (data : List UInt8) :
    Change o (.receive p data) (o.recvIfHandlerSend p data) := by
  unfold Client.recvIfHandlerSend
  cases hparse : parseSocksUdp data with
  | none => exact .dropped hp fun r payload h => nomatch hparse.symm.trans h
  | some parsed =>
    obtain ⟨r, payload⟩ := parsed
    dsimp only
    split
    · next hlong =>
      refine .dropped hp fun r' payload' h => ?_
      cases hparse.symm.trans h
      omega
    · exact .handed hp hparse (by omega)

theorem change_of_step {e : Event} (hs : step o e = some o') : Change o e o' := by
  cases e with
  | submit localAddr remoteAddr data success =>
    obtain ⟨⟨hl, -⟩, he⟩ := Option.ite_none_right_eq_some.mp hs
    cases he
    exact change_of_submit hl success
  | firstJob p => exact .first (Keeps.firstJobHandler (Option.ite_none_right_eq_some.mp hs).2)
  | ready p =>
    obtain ⟨-, he⟩ := Option.ite_none_right_eq_some.mp hs
    cases he
    exact .ready (Keeps.update o p rfl (.inl rfl))
  | receive p data =>
    obtain ⟨⟨hp, -⟩, he⟩ := Option.ite_none_right_eq_some.mp hs
    cases he
    exact change_of_receive hp data
  | free p =>
    obtain ⟨-, he⟩ := Option.ite_none_right_eq_some.mp hs
    cases he
    exact .free (Keeps.connectionFree o p)

theorem Inv.step {e : Event} (h : Inv o) (hs : step o e = some o') : Inv o' := by
  cases change_of_step hs with
  | refused => exact h
  | insert hl => exact h.connectionInit hl _ _
  | sent hfind => exact (Keeps.connectionSend o _ _ _).inv h
  | first hk => exact hk.inv h
  | ready hk => exact hk.inv h
  | free hk => exact hk.inv h
  | dropped => exact h
  | handed hp hparse hmtu =>
    exact (Keeps.checkDnsReply _ _ _ _).inv ⟨h.fresh, h.isIp, h.nodup⟩

end TwilightLine.SocksUdp
