import Mathlib.Data.List.Perm.Basic
import TwilightLine.Lib.Recency
import TwilightLine.System.BAddrOrder
import TwilightLine.UdpgwClient.UdpGwClientRuns

/-! The containers of a udpgw client.

The two trees and the list of least recently used connections hold the same
connections, whose conids and address pairs are distinct, and the counter counts them
(`Consistent`). The list is in the order of the last submit or accepted packet, so what
`reuse_connection` takes is the least recently used connection (`tables_consistent`). When
the client is freed, none is left in any of them (`Standing.free`). -/
namespace TwilightLine.UdpGw

/-- The containers and the keys of the connections. -/
structure Table where
  conaddr : Ptr → Conaddr
  conid : Ptr → UInt16
  treeByConaddr : List Ptr
  treeByConid : List Ptr
  list : List Ptr
  num : Nat
  max : Nat
  nextConid : Nat

def Client.table (o : Client) : Table where
  conaddr p := (o.con p).conaddr
  conid p := (o.con p).conid
  treeByConaddr := o.connectionsTreeByConaddr
  treeByConid := o.connectionsTreeByConid
  list := o.connectionsList
  num := o.numConnections
  max := o.maxConnections
  nextConid := o.nextConid

namespace Table

def findConaddr (t : Table) (a : Conaddr) : Option Ptr :=
  t.treeByConaddr.find? fun p => conaddrComparator a (t.conaddr p) = 0

def findConid (t : Table) (c : UInt16) : Option Ptr :=
  t.treeByConid.find? fun p => uint16Comparator c (t.conid p) = 0

def touch (t : Table) (p : Ptr) : Table := {t with list := t.list.erase p ++ [p]}

def rebind (t : Table) (p : Ptr) (a : Conaddr) : Table :=
  let t := {t with
    treeByConaddr := t.treeByConaddr.erase p
    conaddr := Function.update t.conaddr p a}
  {t with treeByConaddr := Client.treeInsert (t.findConaddr a) p t.treeByConaddr}

def insert (t : Table) (p : Ptr) (a : Conaddr) (c : UInt16) : Table :=
  {t with
    conaddr := Function.update t.conaddr p a
    conid := Function.update t.conid p c
    treeByConaddr := Client.treeInsert (t.findConaddr a) p t.treeByConaddr
    treeByConid := Client.treeInsert (t.findConid c) p t.treeByConid
    list := t.list ++ [p]
    num := t.num + 1}

/-- The containers hold the same connections, at most `max`, with keys of their own. -/
structure Consistent (t : Table) : Prop where
  nodup : t.list.Nodup
  conaddr_perm : t.treeByConaddr.Perm t.list
  conid_perm : t.treeByConid.Perm t.list
  conaddr_inj : ∀ p ∈ t.list, ∀ q ∈ t.list, t.conaddr p = t.conaddr q → p = q
  conid_inj : ∀ p ∈ t.list, ∀ q ∈ t.list, t.conid p = t.conid q → p = q
  conid_lt : ∀ p ∈ t.list, (t.conid p).toNat < t.max
  num : t.num = t.list.length
  num_le : t.num ≤ t.max
  next_lt : t.nextConid < t.max
  max_le : t.max ≤ 65536

variable {t : Table} {p q : Ptr} {a : Conaddr} {c : UInt16}

/-! ### Lookups -/

theorem findConaddr_some (h : t.Consistent) (hf : t.findConaddr a = some p) :
    p ∈ t.list ∧ t.conaddr p = a := by
  have heq := List.find?_some hf
  rw [decide_eq_true_eq, conaddrComparator_eq_zero] at heq
  exact ⟨h.conaddr_perm.subset (List.mem_of_find?_eq_some hf), heq.symm⟩

theorem findConaddr_none (h : t.Consistent) (hf : t.findConaddr a = none) : ∀ p ∈ t.list, t.conaddr p ≠ a := by
  intro p hp he
  have hnone := List.find?_eq_none.mp hf p (h.conaddr_perm.symm.subset hp)
  rw [decide_eq_true_eq, conaddrComparator_eq_zero] at hnone
  exact hnone he.symm

theorem findConid_none (h : t.Consistent) (hf : t.findConid c = none) : ∀ p ∈ t.list, t.conid p ≠ c := by
  intro p hp he
  have hnone := List.find?_eq_none.mp hf p (h.conid_perm.symm.subset hp)
  rw [decide_eq_true_eq, uint16Comparator_eq_zero] at hnone
  exact hnone he.symm

/-- The lookup of a connection's pair finds it. -/
theorem findConaddr_eq (h : t.Consistent) (hp : p ∈ t.list) (ha : t.conaddr p = a) :
    t.findConaddr a = some p := by
  cases hf : t.findConaddr a with
  | none => exact absurd ha (findConaddr_none h hf p hp)
  | some q =>
    obtain ⟨hq, hqa⟩ := findConaddr_some h hf
    rw [h.conaddr_inj q hq p hp (hqa.trans ha.symm)]

/-! ### Operations -/

theorem treeInsert_none (tree : List Ptr) : Client.treeInsert none p tree = tree ++ [p] := rfl

theorem Consistent.touch (h : t.Consistent) (hp : p ∈ t.list) : (t.touch p).Consistent := by
  have hperm : (t.touch p).list.Perm t.list :=
    (List.perm_append_singleton p _).trans (List.perm_cons_erase hp).symm
  have hmem : ∀ q ∈ (t.touch p).list, q ∈ t.list := fun q hq => hperm.subset hq
  exact
    { h with
      nodup := hperm.symm.nodup h.nodup
      conaddr_perm := h.conaddr_perm.trans hperm.symm
      conid_perm := h.conid_perm.trans hperm.symm
      conaddr_inj := fun p hp q hq => h.conaddr_inj p (hmem p hp) q (hmem q hq)
      conid_inj := fun p hp q hq => h.conid_inj p (hmem p hp) q (hmem q hq)
      conid_lt := fun p hp => h.conid_lt p (hmem p hp)
      num := h.num.trans hperm.length_eq.symm }

/-- The pair that the connection is bound to is in the tree once, and so is every other. -/
theorem rebind_tree (h : t.Consistent) (hf : t.findConaddr a = none) :
    (t.rebind p a).treeByConaddr = t.treeByConaddr.erase p ++ [p] := by
  have hnone : findConaddr {t with
      treeByConaddr := t.treeByConaddr.erase p
      conaddr := Function.update t.conaddr p a} a = none := by
    apply List.find?_eq_none.mpr
    intro q hq
    have hne : q ≠ p := fun he => (h.conaddr_perm.symm.nodup h.nodup).not_mem_erase (he ▸ hq)
    have hqa := findConaddr_none h hf q (h.conaddr_perm.subset (List.mem_of_mem_erase hq))
    rw [decide_eq_true_eq, conaddrComparator_eq_zero]
    show ¬a = Function.update t.conaddr p a q
    rw [Function.update_of_ne hne]
    exact Ne.symm hqa
  show Client.treeInsert _ p (t.treeByConaddr.erase p) = _
  rw [hnone]
  rfl

/-- **The connection is rekeyed in the tree by address, and in no other container.** -/
theorem Consistent.rebind (h : t.Consistent) (hp : p ∈ t.list) (hf : t.findConaddr a = none) :
    (t.rebind p a).Consistent := by
  have hperm : (t.rebind p a).treeByConaddr.Perm t.list := by
    rw [rebind_tree h hf]
    exact ((List.perm_append_singleton p _).trans
      (List.perm_cons_erase (h.conaddr_perm.symm.subset hp)).symm).trans h.conaddr_perm
  have hother : ∀ q ∈ t.list, q ≠ p → Function.update t.conaddr p a q ≠ a := by
    intro q hq hne
    rw [Function.update_of_ne hne]
    exact findConaddr_none h hf q hq
  refine {h with conaddr_perm := hperm, conaddr_inj := ?_}
  intro q hq r hr he
  change Function.update t.conaddr p a q = Function.update t.conaddr p a r at he
  by_cases hqp : q = p
  · by_cases hrp : r = p
    · rw [hqp, hrp]
    · rw [hqp, Function.update_self] at he
      exact absurd he.symm (hother r hr hrp)
  · by_cases hrp : r = p
    · rw [hrp, Function.update_self] at he
      exact absurd he (hother q hq hqp)
    · rw [Function.update_of_ne hqp, Function.update_of_ne hrp] at he
      exact h.conaddr_inj q hq r hr he

/-- Keys that are distinct stay so when a new element gets a key of its own. -/
theorem update_inj {κ : Type*} {key : Ptr → κ} {l : List Ptr} {k : κ} (hp : p ∉ l)
    (hinj : ∀ q ∈ l, ∀ r ∈ l, key q = key r → q = r) (hk : ∀ q ∈ l, key q ≠ k) :
    ∀ q ∈ l ++ [p], ∀ r ∈ l ++ [p], Function.update key p k q = Function.update key p k r → q = r := by
  have hne : ∀ q ∈ l, q ≠ p := fun q hq he => hp (he ▸ hq)
  intro q hq r hr he
  rcases List.mem_append.mp hq with hq | hq
  · rw [Function.update_of_ne (hne q hq)] at he
    rcases List.mem_append.mp hr with hr | hr
    · rw [Function.update_of_ne (hne r hr)] at he
      exact hinj q hq r hr he
    · rw [List.mem_singleton.mp hr, Function.update_self] at he
      exact absurd he (hk q hq)
  · rw [List.mem_singleton.mp hq, Function.update_self] at he
    rcases List.mem_append.mp hr with hr | hr
    · rw [Function.update_of_ne (hne r hr)] at he
      exact absurd he.symm (hk r hr)
    · rw [List.mem_singleton.mp hq, List.mem_singleton.mp hr]

theorem Consistent.insert (h : t.Consistent) (hp : p ∉ t.list) (hnum : t.num < t.max)
    (ha : t.findConaddr a = none) (hc : t.findConid c = none) (hlt : c.toNat < t.max) :
    (t.insert p a c).Consistent where
  nodup := by
    refine List.nodup_append.mpr ⟨h.nodup, List.pairwise_singleton _ _, fun q hq r hr he => ?_⟩
    rw [List.mem_singleton.mp hr] at he
    exact hp (he ▸ hq)
  conaddr_perm := by
    show (Client.treeInsert (t.findConaddr a) p t.treeByConaddr).Perm (t.list ++ [p])
    rw [ha, treeInsert_none]
    exact h.conaddr_perm.append_right _
  conid_perm := by
    show (Client.treeInsert (t.findConid c) p t.treeByConid).Perm (t.list ++ [p])
    rw [hc, treeInsert_none]
    exact h.conid_perm.append_right _
  conaddr_inj := update_inj hp h.conaddr_inj (findConaddr_none h ha)
  conid_inj := update_inj hp h.conid_inj (findConid_none h hc)
  conid_lt := by
    intro q hq
    show (Function.update t.conid p c q).toNat < t.max
    by_cases hqp : q = p
    · rw [hqp, Function.update_self]
      exact hlt
    · rw [Function.update_of_ne hqp]
      rcases List.mem_append.mp hq with hq | hq
      · exact h.conid_lt q hq
      · exact absurd (List.mem_singleton.mp hq) hqp
  num := by
    show t.num + 1 = (t.list ++ [p]).length
    rw [h.num, List.length_append]
    rfl
  num_le := hnum
  next_lt := h.next_lt
  max_le := h.max_le

end Table

variable {o o' : Client} {p : Ptr}

theorem table_init (cfg : Config) : (init cfg).table.Consistent where
  nodup := List.nodup_nil
  conaddr_perm := .nil
  conid_perm := .nil
  conaddr_inj := nofun
  conid_inj := nofun
  conid_lt := nofun
  num := rfl
  num_le := Nat.zero_le _
  next_lt := by
    have hpos := cfg.maxConnections_pos
    show 0 < min cfg.maxConnections 65536
    omega
  max_le := min_le_right ..

/-! ### What the events do to the containers -/

theorem update_table (o : Client) (p : Ptr) (c : Connection) :
    ({o with con := Function.update o.con p c} : Client).table = {o.table with
      conaddr := Function.update o.table.conaddr p c.conaddr
      conid := Function.update o.table.conid p c.conid} := by
  have hkey : ∀ {κ : Type} (key : Connection → κ), (fun q => key (Function.update o.con p c q)) =
      Function.update (fun q => key (o.con q)) p (key c) := by
    intro κ key
    funext q
    by_cases hq : q = p <;> simp [hq]
  simp only [Client.table, hkey]

theorem setFlow_table (o : Client) (p : Ptr) (flow : PacketProtoFlow Note) : (o.setFlow p flow).table = o.table := by
  have hconaddr : Function.update o.table.conaddr p (o.con p).conaddr = o.table.conaddr :=
    Function.update_eq_self p o.table.conaddr
  have hconid : Function.update o.table.conid p (o.con p).conid = o.table.conid :=
    Function.update_eq_self p o.table.conid
  rw [Client.setFlow, update_table, hconaddr, hconid]

theorem connectionSend_table (o : Client) (p : Ptr) (flags : UInt8) (data : List UInt8) (origin : Origin) :
    (o.connectionSend p flags data origin).table = o.table := by
  unfold Client.connectionSend
  split
  · rfl
  · exact setFlow_table o p _

theorem rebind_table (o : Client) (p : Ptr) (a : Conaddr) : (o.rebind p a).table = o.table.rebind p a := by
  have hconid : Function.update o.table.conid p (o.con p).conid = o.table.conid :=
    Function.update_eq_self p o.table.conid
  have htable := update_table {o with connectionsTreeByConaddr := o.connectionsTreeByConaddr.erase p} p
    {o.con p with conaddr := a}
  change _ = {o.table with
    treeByConaddr := o.table.treeByConaddr.erase p
    conaddr := Function.update o.table.conaddr p a
    conid := Function.update o.table.conid p (o.con p).conid} at htable
  rw [hconid] at htable
  rw [Table.rebind, ← htable]
  rfl

theorem connectionInsert_table (o : Client) (a : Conaddr) (flags : UInt8) (data : List UInt8) (conid : UInt16)
    (flow : PacketProtoFlow Note) (j : FlowJob) :
    (o.connectionInsert a flags data conid flow j).table = o.table.insert o.fresh a conid := by
  have htable := update_table o o.fresh ⟨a, flags, data, ⟨a.localAddr, o.log.length + 1⟩, conid, flow⟩
  have hconaddr := congrArg Table.conaddr htable
  have hconid := congrArg Table.conid htable
  simp only [Client.table] at hconaddr hconid
  simp only [Client.table, Client.connectionInsert, Table.insert, hconaddr, hconid]
  rfl

theorem disconnectServer_table (o : Client) : o.disconnectServer.table = o.table := by
  have hconaddr : o.disconnectServer.table.conaddr = o.table.conaddr := by
    funext q
    simp only [Client.table, Client.disconnectServer]
    split <;> rfl
  have hconid : o.disconnectServer.table.conid = o.table.conid := by
    funext q
    simp only [Client.table, Client.disconnectServer]
    split <;> rfl
  show Table.mk o.disconnectServer.table.conaddr o.disconnectServer.table.conid _ _ _ _ _ _ = _
  rw [hconaddr, hconid]
  rfl

theorem executeJob_table (h : o.executeJob = some o') : o'.table = o.table := by
  unfold Client.executeJob at h
  split at h
  · cases h
  · cases h
    rfl
  · cases h
    exact connectionSend_table ..
  · cases h
    exact setFlow_table ..

/-- The connection that accepts a packet from the server. -/
def Client.receiver (o : Client) (data : List UInt8) : Option Ptr :=
  match parseUdpgw data with
  | none => none
  | some packet =>
    if packet.data.length > o.cfg.udpMtu then none
    else
      match o.findConnectionByConid packet.conid with
      | none => none
      | some p => if bAddrCompareOrder (o.con p).conaddr.remoteAddr packet.remoteAddr ≠ 0 then none else some p

theorem recvInterfaceHandlerSend_table (o : Client) (data : List UInt8) :
    (o.recvInterfaceHandlerSend data).table =
      match o.receiver data with
      | none => o.table
      | some p => o.table.touch p := by
  unfold Client.recvInterfaceHandlerSend Client.receiver
  cases hparse : parseUdpgw data with
  | none => rfl
  | some packet =>
    dsimp only
    split
    · rfl
    · cases o.findConnectionByConid packet.conid with
      | none => rfl
      | some p =>
        dsimp only
        split <;> rfl

theorem receiver_mem (h : o.table.Consistent) {data : List UInt8} (hr : o.receiver data = some p) :
    p ∈ o.connectionsList := by
  unfold Client.receiver at hr
  split at hr
  · cases hr
  · split at hr
    · cases hr
    · split at hr
      · cases hr
      · next q hfind =>
        split at hr
        · cases hr
        · cases hr
          exact h.conid_perm.subset (List.mem_of_find?_eq_some hfind)

/-- The search ends at a conid that is free and within bounds. -/
theorem findUnusedConid_lt {fuel n next : Nat} (h : o.findUnusedConid fuel n = some next)
    (hn : n < o.maxConnections) : next < o.maxConnections := by
  induction fuel generalizing n with
  | zero => cases h
  | succ fuel ih =>
    rw [Client.findUnusedConid] at h
    split at h
    · cases h
      exact hn
    · apply ih h
      split <;> omega

/-- The connection that an event uses: that of the submitted pair, or that of the packet. -/
def usedBy (o o' : Client) : Event → Option Ptr
  | .submit localAddr remoteAddr _ _ _ => o'.findConnectionByConaddr ⟨localAddr, remoteAddr⟩
  | .receive data => o.receiver data
  | _ => none

/-- What an event does to the containers, with the connection it uses. -/
inductive TableChange (o : Client) : Event → Option Ptr → Table → Prop where
  | same {e : Event} {next : Nat} (hnext : next < o.maxConnections) :
    TableChange o e none {o.table with nextConid := next}
  | touch {e : Event} {p : Ptr} (hp : p ∈ o.connectionsList) : TableChange o e (some p) (o.table.touch p)
  | reuse {l r : BAddr} {isDns : Bool} {data : List UInt8} {alloc : Alloc} {p : Ptr} {rest : List Ptr}
    (hfind : o.findConnectionByConaddr ⟨l, r⟩ = none) (hfull : o.numConnections = o.maxConnections)
    (hlist : o.connectionsList = p :: rest) :
    TableChange o (.submit l r isDns data alloc) (some p) ((o.table.rebind p ⟨l, r⟩).touch p)
  | insert {l r : BAddr} {isDns : Bool} {data : List UInt8} {alloc : Alloc} {next : Nat}
    (hfind : o.findConnectionByConaddr ⟨l, r⟩ = none) (hnum : o.numConnections ≠ o.maxConnections)
    (hnext : next < o.maxConnections) (hconid : o.findConnectionByConid (UInt16.ofNat next) = none) :
    TableChange o (.submit l r isDns data alloc) (some o.fresh)
      (Table.insert {o.table with nextConid := next} o.fresh ⟨l, r⟩ (UInt16.ofNat next))

theorem tableConsistent_insert (h : o.table.Consistent) (hfresh : o.fresh ∉ o.connectionsList) {a : Conaddr}
    {next : Nat} (hfind : o.findConnectionByConaddr a = none) (hnum : o.numConnections ≠ o.maxConnections)
    (hnext : next < o.maxConnections) (hconid : o.findConnectionByConid (UInt16.ofNat next) = none) :
    (Table.insert {o.table with nextConid := next} o.fresh a (UInt16.ofNat next)).Consistent := by
  have hnum_le : o.numConnections ≤ o.maxConnections := h.num_le
  have hmax : o.maxConnections ≤ 65536 := h.max_le
  have hlt : (UInt16.ofNat next).toNat < o.maxConnections := by
    rw [UInt16.toNat_ofNat']
    omega
  exact Table.Consistent.insert (t := {o.table with nextConid := next}) {h with next_lt := hnext} hfresh
    (Nat.lt_of_le_of_ne hnum_le hnum) hfind hconid hlt

theorem tableChange_same (h : o.table.Consistent) {e : Event} (htable : o'.table = o.table) :
    TableChange o e none o'.table := by
  rw [htable]
  exact .same h.next_lt

theorem tableChange_of_submit (hinv : Inv o) (h : o.table.Consistent) {l r : BAddr} {isDns : Bool} {data : List UInt8}
    {alloc : Alloc} (hs : o.submitPacket l r isDns data alloc = some o') :
    TableChange o (.submit l r isDns data alloc) (o'.table.findConaddr ⟨l, r⟩) o'.table := by
  rcases submitPacket_cases hs with ⟨p, hfind, rfl⟩ | ⟨hfind, hfull, p, rest, hlist, rfl⟩ | ⟨hfind, hnum, hi⟩
  · obtain ⟨hp, ha⟩ := Table.findConaddr_some h hfind
    have htable : ((o.touch p).connectionSend p (submitFlags isDns) data ⟨l, o.log.length⟩).table =
        o.table.touch p := connectionSend_table ..
    rw [htable, show (o.table.touch p).findConaddr ⟨l, r⟩ = some p from hfind]
    exact .touch hp
  · have hp : p ∈ o.table.list := by
      show p ∈ o.connectionsList
      simp [hlist]
    have htable : (((o.rebind p ⟨l, r⟩).touch p).connectionSend p (submitFlags isDns ||| flagRebind) data
        ⟨l, o.log.length + 1⟩).table = (o.table.rebind p ⟨l, r⟩).touch p := by
      rw [connectionSend_table, ← rebind_table]
      rfl
    rw [htable, Table.findConaddr_eq ((h.rebind hp hfind).touch hp) (by simp [Table.touch])
      (Function.update_self p _ o.table.conaddr)]
    exact .reuse hfind hfull hlist
  · obtain ⟨next, hnext, hcases⟩ := connectionInit_cases hi
    have hlt : next < o.maxConnections := by
      rcases hnext with rfl | hnext
      · exact h.next_lt
      · exact findUnusedConid_lt hnext h.next_lt
    rcases hcases with rfl | ⟨flow, hconid, hflow, rfl⟩
    · rw [show Table.findConaddr ({o with nextConid := next} : Client).table ⟨l, r⟩ = none from hfind]
      exact .same hlt
    · have hfresh : o.fresh ∉ o.connectionsList := fun hmem => lt_irrefl _ (hinv.fresh _ hmem)
      have hconsistent := tableConsistent_insert h hfresh hfind hnum hlt hconid
      have htable : (Client.connectionInsert {o with nextConid := next} ⟨l, r⟩ (submitFlags isDns) data
          (UInt16.ofNat next) flow .encoderOperation).table =
            Table.insert {o.table with nextConid := next} o.fresh ⟨l, r⟩ (UInt16.ofNat next) :=
        connectionInsert_table ..
      rw [htable, Table.findConaddr_eq hconsistent (List.mem_append_right _ (List.mem_singleton_self _))
        (Function.update_self o.fresh _ o.table.conaddr)]
      exact .insert hfind hnum hlt hconid

/-- **What an event does to the containers.** -/
theorem tableChange_of_step (hinv : Inv o) (h : o.table.Consistent) {e : Event} (hs : step o e = some o') :
    TableChange o e (usedBy o o' e) o'.table := by
  unfold UdpGw.step at hs
  cases e with
  | handler | finish | connect | monitor | keepaliveDone | set n | unset n =>
    dsimp only at hs
    split at hs
    all_goals cases hs
    all_goals exact tableChange_same h rfl
  | job =>
    dsimp only at hs
    split at hs
    · cases hs
    · exact tableChange_same h (executeJob_table hs)
  | submit localAddr remoteAddr isDns data alloc =>
    dsimp only at hs
    split at hs
    · exact tableChange_of_submit hinv h hs
    · cases hs
  | receive data =>
    dsimp only at hs
    split at hs
    · cases hs
      show TableChange o _ (o.receiver data) _
      rw [recvInterfaceHandlerSend_table]
      cases hr : o.receiver data with
      | none => exact tableChange_same h rfl
      | some p => exact .touch (receiver_mem h hr)
    · cases hs
  | disconnect =>
    dsimp only at hs
    split at hs
    · cases hs
      exact tableChange_same h (disconnectServer_table o)
    · cases hs
  | transmit p =>
    obtain ⟨-, -, -, frame, frames, -, rfl⟩ := transmit_cases hs
    exact tableChange_same h (setFlow_table o p _)
  | drain p =>
    dsimp only at hs
    split at hs
    · obtain ⟨-, -, frame, frames, -, rfl⟩ := drain_cases hs
      exact tableChange_same h (setFlow_table o p _)
    · cases hs

theorem TableChange.consistent (hinv : Inv o) (h : o.table.Consistent) {e : Event} {used : Option Ptr} {t : Table}
    (hc : TableChange o e used t) : t.Consistent := by
  cases hc with
  | same hnext => exact {h with next_lt := hnext}
  | touch hp => exact h.touch hp
  | reuse hfind hfull hlist =>
    have hp : _ ∈ o.table.list := List.mem_of_mem_head? (by rw [show o.table.list = _ from hlist]; rfl)
    exact (h.rebind hp hfind).touch hp
  | insert hfind hnum hnext hconid =>
    exact tableConsistent_insert h (fun hmem => lt_irrefl _ (hinv.fresh _ hmem)) hfind hnum hnext hconid

/-- What holds of a client as long as it is there. -/
structure Standing (o : Client) : Prop where
  inv : Inv o
  table : o.table.Consistent

theorem standing_init (cfg : Config) : Standing (init cfg) := ⟨inv_init cfg, table_init cfg⟩

theorem Standing.step (h : Standing o) {e : Event} (hs : step o e = some o') : Standing o' :=
  ⟨h.inv.step hs, (tableChange_of_step h.inv h.table hs).consistent h.inv h.table⟩

theorem Standing.connected (h : Standing o) : Standing {o with haveServer := true} := ⟨{h.inv with}, {h.table with}⟩

theorem Standing.disconnectServer (h : Standing o) : Standing o.disconnectServer :=
  ⟨h.inv.disconnectServer, by rw [disconnectServer_table]; exact h.table⟩

/-! ### The order of use -/

/-- The client, with the time of the last use of each connection. -/
structure Clocked where
  client : Client
  now : Nat
  used : Ptr → Nat

def clockedInit (cfg : Config) : Clocked := ⟨init cfg, 0, fun _ => 0⟩

def clockedStep (s : Clocked) (e : Event) : Option Clocked :=
  (step s.client e).map fun o =>
    { client := o
      now := s.now + 1
      used :=
        match usedBy s.client o e with
        | none => s.used
        | some p => Function.update s.used p s.now }

/-- The containers agree, and the list is in the order of use. -/
structure InOrder (s : Clocked) : Prop where
  inv : Inv s.client
  table : s.client.table.Consistent
  recent : Lib.Recent s.used s.now s.client.connectionsList

theorem inOrder_init (cfg : Config) : InOrder (clockedInit cfg) := ⟨inv_init cfg, table_init cfg, Lib.recent_nil⟩

theorem InOrder.step {s s' : Clocked} (h : InOrder s) {e : Event} (hs : clockedStep s e = some s') : InOrder s' := by
  obtain ⟨o, ho, rfl⟩ := Option.map_eq_some_iff.mp hs
  have hstanding := Standing.step ⟨h.inv, h.table⟩ ho
  have hc := tableChange_of_step h.inv h.table ho
  refine ⟨hstanding.inv, hstanding.table, ?_⟩
  show Lib.Recent _ _ o.table.list
  dsimp only
  generalize usedBy s.client o e = used at hc
  generalize o.table = t at hc
  cases hc with
  | same hnext => exact h.recent.later
  | touch hp => exact h.recent.touch _
  | reuse hfind hfull hlist => exact h.recent.touch _
  | insert hfind hnum hnext hconid => exact h.recent.append fun hmem => lt_irrefl _ (h.inv.fresh _ hmem)

/-! ### Failures of `connection_init` -/

/-- `connection_init`, with the job that is pending while its last steps can still fail,
and the undoing of `fail1`. The flag tells whether there is a new connection. -/
def Client.connectionInitSteps (o : Client) (conaddr : Conaddr) (flags : UInt8) (data : List UInt8) (alloc : Alloc) :
    Option (Client × Bool) :=
  if !alloc.connection then some (o, false)
  else
    match o.findUnusedConid o.maxConnections o.nextConid with
    | none => none
    | some nextConid =>
      let o := {o with nextConid := nextConid}
      let first : Client := {o with jobs := BPending.set (.first o.fresh) o.jobs}
      let failed : Client := {first with jobs := BPending.unset (.first o.fresh) first.jobs}
      match PacketProtoFlow.init o.udpgwMtu o.cfg.sendBufferSize with
      | none => some (failed, false)
      | some (flow, j) =>
        if !alloc.ring then some (failed, false)
        else some (o.connectionInsert conaddr flags data (UInt16.ofNat nextConid) flow j, true)

/-- The first job of a connection that is not made is set and unset. -/
theorem Inv.unset_first (h : Inv o) : BPending.unset (.first o.fresh) (BPending.set (.first o.fresh) o.jobs) = o.jobs := by
  have hnot : Job.first o.fresh ∉ o.jobs := fun hmem =>
    lt_irrefl _ (h.fresh _ (h.jobs_live _ hmem o.fresh rfl))
  rw [BPending.set_of_not_mem hnot]
  exact List.erase_cons_head ..

theorem Inv.connectionInit_eq_steps (h : Inv o) (a : Conaddr) (flags : UInt8) (data : List UInt8) (alloc : Alloc) :
    o.connectionInit a flags data alloc = (o.connectionInitSteps a flags data alloc).map Prod.fst := by
  unfold Client.connectionInit Client.connectionInitSteps
  split
  · rfl
  · cases o.findUnusedConid o.maxConnections o.nextConid with
    | none => rfl
    | some next =>
      dsimp only
      rw [h.unset_first]
      cases PacketProtoFlow.init _ o.cfg.sendBufferSize with
      | none => rfl
      | some init =>
        dsimp only
        split <;> rfl

theorem Inv.connectionInit_failed (h : Inv o) {a : Conaddr} {flags : UInt8} {data : List UInt8} {alloc : Alloc}
    (hf : o.connectionInitSteps a flags data alloc = some (o', false)) :
    ∃ next, o' = {o with nextConid := next} := by
  unfold Client.connectionInitSteps at hf
  split at hf
  · cases hf
    exact ⟨o.nextConid, rfl⟩
  · split at hf
    · cases hf
    · next next hnext =>
      dsimp only at hf
      rw [h.unset_first] at hf
      split at hf
      · cases hf
        exact ⟨next, rfl⟩
      · split at hf
        · cases hf
          exact ⟨next, rfl⟩
        · cases hf

/-! ### Runs -/

/-- The connection that is bound to the submitted pair is the least recently used one. -/
theorem InOrder.reuse {s s' : Clocked} (h : InOrder s) {l r : BAddr} {isDns : Bool} {data : List UInt8}
    {alloc : Alloc} (hs : clockedStep s (.submit l r isDns data alloc) = some s')
    (hfind : s.client.findConnectionByConaddr ⟨l, r⟩ = none)
    (hfull : s.client.numConnections = s.client.maxConnections) :
    ∃ p ∈ s.client.connectionsList, (s'.client.con p).conaddr = ⟨l, r⟩ ∧
      ∀ q ∈ s.client.connectionsList, s.used p ≤ s.used q := by
  obtain ⟨o, ho, rfl⟩ := Option.map_eq_some_iff.mp hs
  have hguard := (Option.ite_none_right_eq_some.mp ho).2
  rcases submitPacket_cases hguard with ⟨p, hp, -⟩ | ⟨-, -, p, rest, hlist, rfl⟩ | ⟨-, hroom, -⟩
  · cases hfind.symm.trans hp
  · have hrecent := h.recent
    rw [hlist] at hrecent ⊢
    refine ⟨p, List.mem_cons_self .., ?_, fun q hq => hrecent.head_le hq⟩
    have hconaddr := congrArg Table.conaddr (connectionSend_table ((s.client.rebind p ⟨l, r⟩).touch p) p
      (submitFlags isDns ||| flagRebind) data ⟨l, s.client.log.length + 1⟩)
    rw [show ∀ o : Client, (o.con p).conaddr = o.table.conaddr p from fun _ => rfl, hconaddr]
    show ((s.client.rebind p ⟨l, r⟩).con p).conaddr = _
    rw [rebind_con, Function.update_self]
  · exact absurd hfull hroom

/-- **The containers of a client agree in every reachable state, the list is in the order
of use, a reuse takes the least recently used connection, and a failure to make one
leaves containers and jobs as they were.** -/
theorem tables_consistent {cfg : Config} {es : List Event} {s : Clocked}
    (h : Run.run clockedStep (clockedInit cfg) es = some s) :
    s.client.table.Consistent ∧ Lib.Recent s.used s.now s.client.connectionsList ∧
      (∀ l r isDns data alloc s', clockedStep s (.submit l r isDns data alloc) = some s' →
        s.client.findConnectionByConaddr ⟨l, r⟩ = none → s.client.numConnections = s.client.maxConnections →
        ∃ p ∈ s.client.connectionsList, (s'.client.con p).conaddr = ⟨l, r⟩ ∧
          ∀ q ∈ s.client.connectionsList, s.used p ≤ s.used q) ∧
      ∀ a flags data alloc,
        s.client.connectionInit a flags data alloc =
          (s.client.connectionInitSteps a flags data alloc).map Prod.fst ∧
        ∀ o', s.client.connectionInitSteps a flags data alloc = some (o', false) →
          ∃ next, o' = {s.client with nextConid := next} := by
  have horder : InOrder s := Run.run_invariant InOrder (fun _ _ _ hi hs => hi.step hs) h (inOrder_init cfg)
  refine ⟨horder.table, horder.recent, ?_, ?_⟩
  · intro l r isDns data alloc s' hs hfind hfull
    exact horder.reuse hs hfind hfull
  · intro a flags data alloc
    exact ⟨horder.inv.connectionInit_eq_steps a flags data alloc, fun o' => horder.inv.connectionInit_failed⟩

/-- The one connection there may be is made for a pair and reused for another. -/
def reused : List Event := submitRun (.ipv4 1 1) (.ipv4 9 1) 7 ++ submitRun (.ipv4 2 1) (.ipv4 9 1) 2

theorem tables_consistent_reused : ∃ s, Run.run clockedStep (clockedInit oneConnection) reused = some s ∧
    (s.client.connectionsList = [0] ∧ (s.client.con 0).conaddr = ⟨.ipv4 2 1, .ipv4 9 1⟩) ∧
      s.client.table.Consistent := by
  have hrun : (Run.run clockedStep (clockedInit oneConnection) reused).any (fun s =>
      decide (s.client.connectionsList = [0] ∧ (s.client.con 0).conaddr = ⟨.ipv4 2 1, .ipv4 9 1⟩)) = true := by
    decide +kernel
  obtain ⟨s, hs, hlist⟩ := (Option.any_eq_true _ _).mp hrun
  exact ⟨s, hs, of_decide_eq_true hlist, (tables_consistent hs).1⟩

/-! ### Release -/

/-- Nothing is left of the connections. -/
structure Client.Emptied (o : Client) : Prop where
  list : o.connectionsList = []
  byConid : o.connectionsTreeByConid = []
  byConaddr : o.connectionsTreeByConaddr = []
  num : o.numConnections = 0
  jobs : ∀ j ∈ o.jobs, j.con? = none

theorem isJobOf_iff {j : Job} : Client.isJobOf p j = true ↔ j.con? = some p := by
  cases j with
  | first q => exact decide_eq_true_iff.trans Option.some_inj.symm
  | flow q j => exact decide_eq_true_iff.trans Option.some_inj.symm
  | foreign n => exact iff_of_false nofun nofun

/-- **A connection that is freed** leaves all containers, and takes its jobs along. -/
theorem connectionFree_left (h : o.table.Consistent) (hjobs : ∀ j ∈ o.jobs, ∀ q, j.con? = some q → q ∈ o.connectionsList)
    {rest : List Ptr} (hlist : o.connectionsList = p :: rest) :
    (o.connectionFree p).connectionsList = rest ∧ (o.connectionFree p).table.Consistent ∧
      ∀ j ∈ (o.connectionFree p).jobs, ∀ q, j.con? = some q → q ∈ rest := by
  have hrest : (o.connectionFree p).connectionsList = rest := by
    rw [Client.connectionFree, hlist, List.erase_cons_head]
  have hmem : ∀ q ∈ (o.connectionFree p).table.list, q ∈ o.table.list := fun q hq => List.mem_of_mem_erase hq
  have hnum : o.numConnections - 1 = rest.length := by
    have hcount : o.numConnections = o.connectionsList.length := h.num
    rw [hcount, hlist, List.length_cons, Nat.add_sub_cancel]
  refine ⟨hrest, ?_, fun j hj q hq => ?_⟩
  · exact
      { nodup := h.nodup.erase p
        conaddr_perm := h.conaddr_perm.erase p
        conid_perm := h.conid_perm.erase p
        conaddr_inj := fun q hq r hr => h.conaddr_inj q (hmem q hq) r (hmem r hr)
        conid_inj := fun q hq r hr => h.conid_inj q (hmem q hq) r (hmem r hr)
        conid_lt := fun q hq => h.conid_lt q (hmem q hq)
        num := hnum.trans (congrArg List.length hrest.symm)
        num_le := (Nat.sub_le _ 1).trans h.num_le
        next_lt := h.next_lt
        max_le := h.max_le }
  · obtain ⟨hin, hnot⟩ := List.mem_filter.mp hj
    have hq' := hjobs j hin q hq
    rw [hlist, List.mem_cons] at hq'
    refine hq'.resolve_left ?_
    rintro rfl
    rw [isJobOf_iff.mpr hq] at hnot
    cases hnot

theorem emptied_of_nil (h : o.table.Consistent) (hjobs : ∀ j ∈ o.jobs, ∀ q, j.con? = some q → q ∈ o.connectionsList)
    (hnil : o.connectionsList = []) : o.Emptied where
  list := hnil
  byConid := List.perm_nil.mp (hnil ▸ h.conid_perm)
  byConaddr := List.perm_nil.mp (hnil ▸ h.conaddr_perm)
  num := h.num.trans (congrArg List.length hnil)
  jobs := by
    intro j hj
    rw [Option.eq_none_iff_forall_ne_some]
    intro q hq
    have hin := hjobs j hj q hq
    rw [hnil] at hin
    exact List.not_mem_nil hin

/-- The loop goes on until none is left. -/
theorem freeConnections_empties {turns : Nat} (h : o.table.Consistent)
    (hjobs : ∀ j ∈ o.jobs, ∀ q, j.con? = some q → q ∈ o.connectionsList) (hturns : o.connectionsList.length ≤ turns) :
    (o.freeConnections turns).Emptied := by
  induction turns generalizing o with
  | zero => exact emptied_of_nil h hjobs (List.length_eq_zero_iff.mp (Nat.le_zero.mp hturns))
  | succ turns ih =>
    rw [Client.freeConnections]
    cases hlist : o.connectionsList with
    | nil => exact emptied_of_nil h hjobs hlist
    | cons p rest =>
      obtain ⟨hrest, htable, hleft⟩ := connectionFree_left h hjobs hlist
      rw [hlist, List.length_cons] at hturns
      apply ih htable
      · rwa [hrest]
      · rw [hrest]
        exact Nat.le_of_succ_le_succ hturns

/-- **What `UdpGwClient_Free` leaves.** -/
theorem Standing.free (h : Standing o) : o.free.Emptied :=
  {freeConnections_empties h.table h.inv.jobs_live (Nat.le_refl _) with}

/-! ### The orders of the trees -/

/-- `conaddr_comparator`, with what `memcmp` returns. -/
def conaddrComparatorBy (m : Memcmp) (v1 v2 : Conaddr) : Int :=
  let r := bAddrCompareOrderBy m v1.remoteAddr v2.remoteAddr
  if r ≠ 0 then r else bAddrCompareOrderBy m v1.localAddr v2.localAddr

theorem conaddrComparatorBy_eq (m : Memcmp) : conaddrComparatorBy m = conaddrComparator := by
  funext v1 v2
  unfold conaddrComparatorBy conaddrComparator
  rw [bAddrCompareOrderBy_eq]

theorem conaddrComparator_total : TotalComparison conaddrComparator :=
  (bAddrCompareOrder_total.comap Conaddr.remoteAddr).andThen (bAddrCompareOrder_total.comap Conaddr.localAddr)

/-- **The addresses and the pairs of them are in a total order**, in which only what is equal is taken to be equal. -/
theorem compareOrder_total (m : Memcmp) :
    TotalComparison (bAddrCompareOrderBy m) ∧ (∀ a b, bAddrCompareOrderBy m a b = 0 ↔ a = b) ∧
      (∀ a b : BAddr, a.isIp → b.isIp → (bAddrCompareOrderBy m a b = 0 ↔ bAddrCompare m a b = true)) ∧
      TotalComparison (conaddrComparatorBy m) ∧ ∀ v1 v2, conaddrComparatorBy m v1 v2 = 0 ↔ v1 = v2 := by
  rw [bAddrCompareOrderBy_eq, conaddrComparatorBy_eq]
  refine ⟨bAddrCompareOrder_total, bAddrCompareOrder_eq_zero, fun a b ha _ => ?_, conaddrComparator_total, conaddrComparator_eq_zero⟩
  rw [bAddrCompareOrder_eq_zero, bAddrCompare_iff ha]

/-- The loopback address, and the one after it with a smaller port. -/
def loopback : BAddr := .ipv6 #v[0, 0, 0, 0, 0, 0, 0, 0, 0, 0, 0, 0, 0, 0, 0, 1] 0x5000

def afterLoopback : BAddr := .ipv6 #v[0, 0, 0, 0, 0, 0, 0, 0, 0, 0, 0, 0, 0, 0, 0, 2] 0x3500

theorem compareOrder_total_loopback :
    bAddrCompareOrderBy .bySign loopback afterLoopback = -1 ∧ bAddrCompareOrderBy .bySign afterLoopback loopback = 1 ∧
      bAddrCompare .bySign loopback afterLoopback = false ∧
      conaddrComparatorBy .bySign ⟨loopback, .ipv4 16777343 0x3500⟩ ⟨afterLoopback, .ipv4 16777343 0x3500⟩ ≠ 0 := by
  obtain ⟨htotal, -, hequal, -, hpairs⟩ := compareOrder_total .bySign
  have hless : bAddrCompareOrderBy .bySign loopback afterLoopback = -1 := by decide
  have hne : bAddrCompareOrderBy .bySign loopback afterLoopback ≠ 0 := by rw [hless]; decide
  refine ⟨hless, by rw [htotal.antisymm, hless]; rfl, ?_, fun h => absurd ((hpairs _ _).mp h) (by decide)⟩
  exact Bool.eq_false_iff.mpr fun h => hne ((hequal _ _ (by decide) (by decide)).mpr h)

end TwilightLine.UdpGw
