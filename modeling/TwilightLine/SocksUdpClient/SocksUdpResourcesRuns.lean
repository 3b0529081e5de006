import Mathlib.Data.Finset.Basic
import TwilightLine.SocksUdpClient.SocksUdpClientRuns
import TwilightLine.SocksUdpClient.SocksUdpResources

/-! What the connections own in every state of a run.

`Inv` says that exactly the connections in the tree own something: their memory, their
components, and a first packet until the first job has sent it. `unwind` is what the labels
of `connection_init` and `connection_free` have in common. A creation that fails gives back
all it acquired (`Grown.unwind`), a connection that is freed all it has (`Inv.connectionFree`),
and no handler meets anything that is not owned (`Inv.exec`). -/
namespace TwilightLine.SocksUdp

/-! ### The tree -/

/-- The connections in the tree are counted, and no two have one local address. -/
structure Tree (o : Client) : Prop where
  nodup : o.connectionsTree.Nodup
  fresh : ∀ p ∈ o.connectionsTree, p < o.fresh
  local_inj : ∀ p ∈ o.connectionsTree, ∀ q ∈ o.connectionsTree, (o.con p).localAddr = (o.con q).localAddr → p = q
  num : o.numConnections = o.connectionsTree.length
  num_le : o.numConnections ≤ o.cfg.maxConnections

variable {o o' : Client} {p : Ptr} {l : BAddr}

theorem tree_init (cfg : Config) : Tree (init cfg) := ⟨List.nodup_nil, nofun, nofun, rfl, Nat.zero_le _⟩

/-- An address that a lookup does not find is no connection's. -/
theorem findConnection_none (h : o.findConnection l = none) : ∀ p ∈ o.connectionsTree, (o.con p).localAddr ≠ l := by
  intro p hp hl
  have hnot := List.find?_eq_none.mp h p hp
  rw [decide_eq_true_eq, bAddrCompareOrder_eq_zero] at hnot
  exact hnot hl.symm

theorem Tree.same (h : Tree o) (hcfg : o'.cfg = o.cfg) (htree : o'.connectionsTree = o.connectionsTree)
    (hfresh : o'.fresh = o.fresh) (hnum : o'.numConnections = o.numConnections)
    (hlocal : ∀ p, (o'.con p).localAddr = (o.con p).localAddr) : Tree o' where
  nodup := htree ▸ h.nodup
  fresh := by
    rw [htree, hfresh]
    exact h.fresh
  local_inj := by
    intro p hp q hq he
    rw [htree] at hp hq
    rw [hlocal, hlocal] at he
    exact h.local_inj p hp q hq he
  num := by rw [hnum, htree, h.num]
  num_le := by rw [hnum, hcfg]; exact h.num_le

theorem Tree.connectionFree (h : Tree o) (hp : p ∈ o.connectionsTree) : Tree (o.connectionFree p) where
  nodup := h.nodup.erase p
  fresh := fun q hq => h.fresh q (List.mem_of_mem_erase hq)
  local_inj := fun q hq q' hq' => h.local_inj q (List.mem_of_mem_erase hq) q' (List.mem_of_mem_erase hq')
  num := by
    show o.numConnections - 1 = (o.connectionsTree.erase p).length
    rw [h.num, List.length_erase_of_mem hp]
  num_le := (Nat.sub_le ..).trans h.num_le

theorem Tree.connectionInit (h : Tree o) (hfind : o.findConnection l = none)
    (hroom : ¬o.numConnections ≥ o.cfg.maxConnections) (r : BAddr) (d : List UInt8) :
    Tree (o.connectionInit l r d true) := by
  have hmem : ∀ q, q ∈ o.connectionsTree ++ [o.fresh] ↔ q ∈ o.connectionsTree ∨ q = o.fresh := by simp
  have hold : ∀ q ∈ o.connectionsTree, (o.connectionInit l r d true).con q = o.con q :=
    fun q hq => Function.update_of_ne (h.fresh q hq).ne ..
  have hnew : ((o.connectionInit l r d true).con o.fresh).localAddr = l := by simp [Client.connectionInit]
  refine ⟨?_, fun q hq => ?_, fun q hq q' hq' he => ?_, ?_, ?_⟩
  · refine List.nodup_append.mpr ⟨h.nodup, List.pairwise_singleton _ _, fun q hq q' hq' => ?_⟩
    rw [List.mem_singleton.mp hq']
    exact (h.fresh q hq).ne
  · rcases (hmem q).mp hq with hq | rfl
    · exact Nat.lt_succ_of_lt (h.fresh q hq)
    · exact Nat.lt_succ_self _
  · rcases (hmem q).mp hq with hq | rfl
    · rcases (hmem q').mp hq' with hq' | rfl
      · rw [hold q hq, hold q' hq'] at he
        exact h.local_inj q hq q' hq' he
      · rw [hold q hq, hnew] at he
        exact absurd he (findConnection_none hfind q hq)
    · rcases (hmem q').mp hq' with hq' | rfl
      · rw [hold q' hq', hnew] at he
        exact absurd he.symm (findConnection_none hfind q' hq')
      · rfl
  · show o.numConnections + 1 = (o.connectionsTree ++ [o.fresh]).length
    rw [h.num, List.length_append, List.length_singleton]
  · show o.numConnections + 1 ≤ o.cfg.maxConnections
    omega

/-! ### Updates of a connection -/

/-- Sending changes nothing else of the client. -/
theorem connectionSend_kept (o : Client) (p : Ptr) (r : BAddr) (d : List UInt8) :
    (o.connectionSend p r d).cfg = o.cfg ∧ (o.connectionSend p r d).numConnections = o.numConnections ∧
      ∀ q, ((o.connectionSend p r d).con q).first = (o.con q).first := by
  have hdns : ∀ q, ((o.setDnsId p (-1)).con q).first = (o.con q).first := by
    intro q
    by_cases hq : q = p <;> simp [Client.setDnsId, hq]
  have hwrite : ∀ m : Client, (m.write p r d).cfg = m.cfg ∧ (m.write p r d).numConnections = m.numConnections ∧
      ∀ q, ((m.write p r d).con q).first = (m.con q).first := by
    intro m
    unfold Client.write
    split
    · exact ⟨rfl, rfl, fun _ => rfl⟩
    · split
      · exact ⟨rfl, rfl, fun _ => rfl⟩
      · refine ⟨rfl, rfl, fun q => ?_⟩
        by_cases hq : q = p <;> simp [hq]
  rw [connectionSend_eq]
  split
  · obtain ⟨hcfg, hnum, hfirst⟩ := hwrite (o.setDnsId p (-1))
    exact ⟨hcfg, hnum, fun q => (hfirst q).trans (hdns q)⟩
  · exact hwrite o

end TwilightLine.SocksUdp

namespace TwilightLine.SocksUdpResources

open SocksUdp (Ptr Client Config Tree socksAtyp computeSocksMtu parseSocksUdp getDnsId)

variable {cfg : Config} {o o' : Machine} {c : Client} {p : Ptr} {l r : BAddr} {d : List UInt8}

/-! ### Freeing -/

namespace Machine

/-- What a connection owns, of its components those in the list. -/
def belongs (o : Machine) (p : Ptr) (ks : List Part) : Resource → Bool
  | .con q => q == p
  | .block b => o.firstData p == some b
  | .part q k => q == p && ks.contains k

/-- The components are freed, then the first packet and the connection. -/
def unwind (o : Machine) (p : Ptr) (ks : List Part) : Option Machine :=
  (o.freeParts p ks).bind fun o => (o.freeFirstData p).bind fun o => o.release (.con p)

/-- The machine without what the connection owns. -/
def unwound (o : Machine) (p : Ptr) (ks : List Part) : Machine :=
  {o with
    owned := o.owned.filter fun r => !o.belongs p ks r
    jobs := o.jobs.filter fun j => ∀ k ∈ ks, j.part? ≠ some (p, k)
    sources := o.sources.filter fun s => ∀ k ∈ ks, s ≠ (p, k)
    freed := o.freed ++ (o.firstData p).toList}

end Machine

theorem freeParts_append (o : Machine) (p : Ptr) (ks ks' : List Part) :
    o.freeParts p (ks ++ ks') = (o.freeParts p ks).bind fun o => o.freeParts p ks' := by
  induction ks generalizing o with
  | nil => rfl
  | cons k rest ih =>
    rw [List.cons_append, Machine.freeParts, Machine.freeParts, Option.bind_assoc]
    simp only [ih]

theorem freeParts_eq {ks : List Part} (hnd : ks.Nodup) (h : ∀ k ∈ ks, .part p k ∈ o.owned) :
    o.freeParts p ks = some {o with
      owned := o.owned.filter fun r => ∀ k ∈ ks, r ≠ .part p k
      jobs := o.jobs.filter fun j => ∀ k ∈ ks, j.part? ≠ some (p, k)
      sources := o.sources.filter fun s => ∀ k ∈ ks, s ≠ (p, k)} := by
  induction ks generalizing o with
  | nil => simp [Machine.freeParts]
  | cons k rest ih =>
    obtain ⟨hk, hnd⟩ := List.nodup_cons.mp hnd
    have hfree : o.freePart p k = some {o with
        owned := o.owned.erase (.part p k)
        jobs := o.jobs.filter fun j => j.part? ≠ some (p, k)
        sources := o.sources.filter fun s => s ≠ (p, k)} := by
      rw [Machine.freePart, Machine.release, if_pos (h k (List.mem_cons_self ..))]
      rfl
    rw [Machine.freeParts, hfree, Option.bind_some, ih hnd]
    · simp only [List.filter_filter, List.forall_mem_cons, Option.some.injEq, Machine.mk.injEq, true_and, and_true]
      refine ⟨?_, ?_, ?_⟩
      · ext r
        simp only [Finset.mem_filter, Finset.mem_erase]
        tauto
      · apply List.filter_congr
        intro j _
        rw [Bool.eq_iff_iff]
        simp [and_comm]
      · apply List.filter_congr
        intro s _
        rw [Bool.eq_iff_iff]
        simp [and_comm]
    · intro k' hk'
      refine Finset.mem_erase.mpr ⟨?_, h k' (List.mem_cons_of_mem _ hk')⟩
      intro he
      injection he with _ he
      exact hk (he ▸ hk')

theorem freeFirstData_eq (h : ∀ b, o.firstData p = some b → .block b ∈ o.owned) :
    o.freeFirstData p = some {o with
      owned := o.owned.filter fun r => ∀ b, o.firstData p = some b → r ≠ .block b
      freed := o.freed ++ (o.firstData p).toList} := by
  unfold Machine.freeFirstData
  cases hb : o.firstData p with
  | none => simp
  | some b =>
    dsimp only
    rw [Machine.release, if_pos (h b hb), Option.map_some, Option.some.injEq, Machine.mk.injEq]
    refine ⟨rfl, ?_, rfl, rfl, rfl, rfl, rfl⟩
    ext r
    simp [and_comm]

/-- **What unwinding leaves**, where all that is freed is owned. -/
theorem unwind_eq {ks : List Part} (hnd : ks.Nodup) (hparts : ∀ k ∈ ks, .part p k ∈ o.owned)
    (hblock : ∀ b, o.firstData p = some b → .block b ∈ o.owned) (hcon : .con p ∈ o.owned) :
    o.unwind p ks = some (o.unwound p ks) := by
  rw [Machine.unwind, freeParts_eq hnd hparts, Option.bind_some, freeFirstData_eq, Option.bind_some, Machine.release,
    if_pos, Option.some.injEq, Machine.unwound, Machine.mk.injEq]
  · refine ⟨rfl, ?_, rfl, rfl, rfl, rfl, rfl⟩
    ext r
    cases r <;> simp [Machine.belongs] <;> grind
  · simp [hcon]
  · intro b hb
    simpa using hblock b hb

theorem unwound_owned {ks : List Part} {r : Resource} :
    r ∈ (o.unwound p ks).owned ↔ r ∈ o.owned ∧ o.belongs p ks r = false := by
  simp [Machine.unwound]

/-! ### The invariant -/

/-- What the connections in the tree should own. -/
def Machine.Owns (o : Machine) : Resource → Prop
  | .con p => p ∈ o.client.connectionsTree
  | .block b => ∃ p ∈ o.client.connectionsTree, o.firstData p = some b
  | .part p _ => p ∈ o.client.connectionsTree

structure Inv (cfg : Config) (o : Machine) : Prop where
  cfg : o.client.cfg = cfg
  tree : Tree o.client
  owned : ∀ r, r ∈ o.owned ↔ o.Owns r
  jobs_nodup : o.jobs.Nodup
  jobs : ∀ j ∈ o.jobs, ∀ p k, j.part? = some (p, k) → p ∈ o.client.connectionsTree
  sources : ∀ s ∈ o.sources, s.1 ∈ o.client.connectionsTree
  /-- A first job is pending only while its packet is there. -/
  first_job : ∀ p, .first p ∈ o.jobs → ∃ b, o.firstData p = some b
  first_data : ∀ p ∈ o.client.connectionsTree, (o.client.con p).first.isSome = (o.firstData p).isSome
  block_inj : ∀ p ∈ o.client.connectionsTree, ∀ q ∈ o.client.connectionsTree, ∀ b, o.firstData p = some b →
    o.firstData q = some b → p = q
  block_lt : ∀ p ∈ o.client.connectionsTree, ∀ b, o.firstData p = some b → b < o.nextBlock
  /-- A block is freed once, when it is owned no more. -/
  freed : ∀ b, o.freed.count b = if b < o.nextBlock ∧ .block b ∉ o.owned then 1 else 0

theorem inv_init (cfg : Config) : Inv cfg (init cfg) where
  cfg := rfl
  tree := SocksUdp.tree_init cfg
  owned := by
    intro r
    cases r <;> simp [init, SocksUdp.init, Machine.Owns]
  jobs_nodup := List.nodup_nil
  jobs := nofun
  sources := nofun
  first_job := nofun
  first_data := nofun
  block_inj := nofun
  block_lt := nofun
  freed := fun b => by simp [init]

theorem Inv.use_con (h : Inv cfg o) (hp : p ∈ o.client.connectionsTree) : o.use (.con p) = some o :=
  if_pos ((h.owned (.con p)).mpr hp)

theorem Inv.use_part (h : Inv cfg o) (hp : p ∈ o.client.connectionsTree) (k : Part) : o.use (.part p k) = some o :=
  if_pos ((h.owned (.part p k)).mpr hp)

/-! ### What leaves the connections what they own -/

/-- Connections may change in what they send, and components in their jobs. -/
structure Steady (o o' : Machine) : Prop where
  cfg : o'.client.cfg = o.client.cfg
  tree : o'.client.connectionsTree = o.client.connectionsTree
  fresh : o'.client.fresh = o.client.fresh
  num : o'.client.numConnections = o.client.numConnections
  localAddr : ∀ p, (o'.client.con p).localAddr = (o.client.con p).localAddr
  first : ∀ p, (o'.client.con p).first = (o.client.con p).first
  owned : o'.owned = o.owned
  jobs_nodup : o.jobs.Nodup → o'.jobs.Nodup
  jobs : ∀ j ∈ o'.jobs, j ∈ o.jobs ∨
    (∀ p k, j.part? = some (p, k) → p ∈ o.client.connectionsTree) ∧ ∀ p, j ≠ .first p
  sources : ∀ s ∈ o'.sources, s ∈ o.sources ∨ s.1 ∈ o.client.connectionsTree
  firstData : o'.firstData = o.firstData
  nextBlock : o'.nextBlock = o.nextBlock
  freed : o'.freed = o.freed

theorem Steady.refl (o : Machine) : Steady o o :=
  ⟨rfl, rfl, rfl, rfl, fun _ => rfl, fun _ => rfl, rfl, id, fun _ => .inl, fun _ => .inl, rfl, rfl, rfl⟩

theorem Steady.trans {o₁ o₂ o₃ : Machine} (h : Steady o₁ o₂) (h' : Steady o₂ o₃) : Steady o₁ o₃ where
  cfg := h'.cfg.trans h.cfg
  tree := h'.tree.trans h.tree
  fresh := h'.fresh.trans h.fresh
  num := h'.num.trans h.num
  localAddr := fun p => (h'.localAddr p).trans (h.localAddr p)
  first := fun p => (h'.first p).trans (h.first p)
  owned := h'.owned.trans h.owned
  jobs_nodup := h'.jobs_nodup ∘ h.jobs_nodup
  jobs := by
    intro j hj
    rcases h'.jobs j hj with hj | hj
    · exact h.jobs j hj
    · exact .inr (h.tree ▸ hj)
  sources := by
    intro s hs
    rcases h'.sources s hs with hs | hs
    · exact h.sources s hs
    · exact .inr (h.tree ▸ hs)
  firstData := h'.firstData.trans h.firstData
  nextBlock := h'.nextBlock.trans h.nextBlock
  freed := h'.freed.trans h.freed

theorem Steady.inv (hs : Steady o o') (h : Inv cfg o) : Inv cfg o' where
  cfg := hs.cfg.trans h.cfg
  tree := h.tree.same hs.cfg hs.tree hs.fresh hs.num hs.localAddr
  owned := by
    intro r
    rw [hs.owned, h.owned]
    cases r <;> simp only [Machine.Owns, hs.tree, hs.firstData]
  jobs_nodup := hs.jobs_nodup h.jobs_nodup
  jobs := by
    intro j hj
    rw [hs.tree]
    rcases hs.jobs j hj with hj | hj
    · exact h.jobs j hj
    · exact hj.1
  sources := by
    intro s hs'
    rw [hs.tree]
    rcases hs.sources s hs' with hs' | hs'
    · exact h.sources s hs'
    · exact hs'
  first_job := by
    intro p hp
    rw [hs.firstData]
    rcases hs.jobs _ hp with hp | hp
    · exact h.first_job p hp
    · exact absurd rfl (hp.2 p)
  first_data := by
    intro p hp
    rw [hs.tree] at hp
    rw [hs.first, hs.firstData]
    exact h.first_data p hp
  block_inj := by
    rw [hs.tree, hs.firstData]
    exact h.block_inj
  block_lt := by
    rw [hs.tree, hs.firstData, hs.nextBlock]
    exact h.block_lt
  freed := by
    rw [hs.freed, hs.nextBlock, hs.owned]
    exact h.freed

theorem Inv.setJob (h : Inv cfg o) (hp : p ∈ o.client.connectionsTree) (k : Part) (n : Nat) :
    ∃ o', o.setJob (.of p k n) = some o' ∧ Steady o o' := by
  refine ⟨{o with jobs := BPending.set (.of p k n) o.jobs}, if_pos ((h.owned (.part p k)).mpr hp), ?_⟩
  refine {Steady.refl o with jobs_nodup := fun hnd => BPending.nodup_set hnd _, jobs := fun j hj => ?_}
  rcases BPending.mem_set hj with rfl | hj
  · refine .inr ⟨fun q k' hq => ?_, fun _ => nofun⟩
    injection hq with hq
    injection hq with hq _
    exact hq ▸ hp
  · exact .inl hj

/-- A change of the client that neither the tree nor the first packets notice. -/
theorem Steady.client (hk : SocksUdp.Keeps o.client c) (htree : c.connectionsTree = o.client.connectionsTree)
    (hcfg : c.cfg = o.client.cfg) (hnum : c.numConnections = o.client.numConnections)
    (hfirst : ∀ p, (c.con p).first = (o.client.con p).first) : Steady o {o with client := c} :=
  {Steady.refl o with
    cfg := hcfg, tree := htree, fresh := hk.fresh, num := hnum, localAddr := hk.localAddr, first := hfirst}

theorem Inv.connectionSend (h : Inv cfg o) (hp : p ∈ o.client.connectionsTree) (r : BAddr) (d : List UInt8) :
    ∃ o', o.connectionSend p r d = some o' ∧ Steady o o' := by
  obtain ⟨hcfg, hnum, hfirst⟩ := SocksUdp.connectionSend_kept o.client p r d
  have hsteady := Steady.client (SocksUdp.Keeps.connectionSend o.client p r d)
    (SocksUdp.connectionSend_tree o.client p r d) hcfg hnum hfirst
  obtain ⟨o', hset, hsteady'⟩ := (hsteady.inv h).setJob (hsteady.tree ▸ hp) .sendWriter 1
  unfold Machine.connectionSend
  simp only [h.use_con hp, h.use_part hp, Option.bind_eq_bind, Option.bind_some]
  split
  · exact ⟨o', hset, hsteady.trans hsteady'⟩
  · exact ⟨_, rfl, hsteady⟩

theorem Inv.act (h : Inv cfg o) (hp : p ∈ o.client.connectionsTree) (a : Act) : ∃ o', o.act p a = some o' ∧ Steady o o' := by
  have hmap : ∀ (k : Part) (f : Machine → Machine), (o.use (.part p k)).map f = some (f o) := fun k f => by rw [h.use_part hp k, Option.map_some]
  cases a with
  | set k n => exact h.setJob hp k n
  | unset k n =>
    have hsteady : Steady o {o with jobs := BPending.unset (.of p k n) o.jobs} :=
      {Steady.refl o with jobs_nodup := fun hnd => hnd.erase _, jobs := fun j hj => .inl (List.mem_of_mem_erase hj)}
    exact ⟨_, hmap k _, hsteady⟩
  | watch k =>
    have hsteady : Steady o (o.watch p k) := by
      refine {Steady.refl o with sources := fun s hs => ?_}
      rcases List.mem_cons.mp hs with rfl | hs
      · exact .inr hp
      · exact .inl hs
    exact ⟨_, hmap k _, hsteady⟩
  | unwatch k =>
    have hsteady : Steady o {o with sources := o.sources.erase (p, k)} :=
      {Steady.refl o with sources := fun s hs => .inl (List.mem_of_mem_erase hs)}
    exact ⟨_, hmap k _, hsteady⟩
  | ready =>
    refine ⟨_, hmap .sendWriter _, Steady.client (SocksUdp.Keeps.update _ _ rfl (.inl rfl)) rfl rfl rfl fun q => ?_⟩
    by_cases hq : q = p <;> simp [hq]

theorem Inv.work (h : Inv cfg o) (hp : p ∈ o.client.connectionsTree) (acts : List Act) :
    ∃ o', o.work p acts = some o' ∧ Steady o o' := by
  induction acts generalizing o with
  | nil => exact ⟨o, rfl, .refl o⟩
  | cons a rest ih =>
    obtain ⟨o₁, ha, hsteady⟩ := h.act hp a
    obtain ⟨o', hrest, hsteady'⟩ := ih (hsteady.inv h) (hsteady.tree ▸ hp)
    exact ⟨o', by rw [Machine.work, ha, Option.bind_some, hrest], hsteady.trans hsteady'⟩

/-! ### A connection is freed -/

/-- The components in the order in which `connection_free` frees them. -/
def freeOrder : List Part :=
  [.recvBuffer, .recvIf, .recvAsync, .sendBuffer, .sendWriter, .sendMonitor, .sendAsync, .socks, .socket, .firstJob]

theorem freeOrder_nodup : freeOrder.Nodup := by decide

theorem mem_freeOrder (k : Part) : k ∈ freeOrder := by
  cases k <;> decide

/-- The client has let go of the connection. -/
def Machine.removed (o : Machine) (p : Ptr) : Machine := {o with client := o.client.connectionFree p}

theorem belongs_block (o : Machine) (p : Ptr) (ks : List Part) (b : Nat) :
    o.belongs p ks (.block b) = false ↔ o.firstData p ≠ some b := by
  simp [Machine.belongs]

/-- What was freed of a connection is not owned any more, and no other connection had it. -/
theorem Inv.unwound_owned (h : Inv cfg o) (hp : p ∈ o.client.connectionsTree) (r : Resource) :
    r ∈ ((o.removed p).unwound p freeOrder).owned ↔ ((o.removed p).unwound p freeOrder).Owns r := by
  have herase : ∀ q, q ∈ o.client.connectionsTree.erase p ↔ q ≠ p ∧ q ∈ o.client.connectionsTree :=
    fun q => h.tree.nodup.mem_erase_iff
  rw [SocksUdpResources.unwound_owned]
  show r ∈ o.owned ∧ o.belongs p freeOrder r = false ↔ _
  rw [h.owned]
  cases r with
  | con q =>
    show q ∈ o.client.connectionsTree ∧ (q == p) = false ↔ q ∈ o.client.connectionsTree.erase p
    rw [herase, and_comm, beq_eq_false_iff_ne]
  | part q k =>
    show q ∈ o.client.connectionsTree ∧ (q == p && freeOrder.contains k) = false ↔ q ∈ o.client.connectionsTree.erase p
    rw [List.contains_iff_mem.mpr (mem_freeOrder k), Bool.and_true, herase, and_comm, beq_eq_false_iff_ne]
  | block b =>
    rw [belongs_block]
    constructor
    · rintro ⟨⟨q, hq, hb⟩, hne⟩
      exact ⟨q, (herase q).mpr ⟨fun he => hne (he ▸ hb), hq⟩, hb⟩
    · rintro ⟨q, hq, hb⟩
      obtain ⟨hqp, hq⟩ := (herase q).mp hq
      exact ⟨⟨q, hq, hb⟩, fun hb' => hqp (h.block_inj q hq p hp b hb hb')⟩

/-- The first packet of a connection that is freed is freed with it, unless it was before. -/
theorem Inv.unwound_freed (h : Inv cfg o) (hp : p ∈ o.client.connectionsTree) (b : Nat) :
    (o.freed ++ (o.firstData p).toList).count b =
      if b < o.nextBlock ∧ .block b ∉ ((o.removed p).unwound p freeOrder).owned then 1 else 0 := by
  have howned : .block b ∈ ((o.removed p).unwound p freeOrder).owned ↔ .block b ∈ o.owned ∧ o.firstData p ≠ some b := by
    rw [SocksUdpResources.unwound_owned]
    exact and_congr_right fun _ => belongs_block o p freeOrder b
  simp only [List.count_append, h.freed, howned]
  by_cases hb : o.firstData p = some b
  · have hmem : Resource.block b ∈ o.owned := (h.owned (.block b)).mpr ⟨p, hp, hb⟩
    simp [hb, hmem, h.block_lt p hp b hb]
  · have hcount : (o.firstData p).toList.count b = 0 := by
      rw [List.count_eq_zero, Option.mem_toList]
      exact hb
    simp [hb, hcount]

/-- **A connection gives back all it owns.** -/
theorem Inv.unwound (h : Inv cfg o) (hp : p ∈ o.client.connectionsTree) : Inv cfg ((o.removed p).unwound p freeOrder) where
  cfg := h.cfg
  tree := h.tree.connectionFree hp
  owned := h.unwound_owned hp
  jobs_nodup := h.jobs_nodup.filter _
  jobs := by
    intro j hj q k hq
    obtain ⟨hj, hnot⟩ := List.mem_filter.mp hj
    refine (List.mem_erase_of_ne fun he => ?_).mpr (h.jobs j hj q k hq)
    exact of_decide_eq_true hnot k (mem_freeOrder k) (he ▸ hq)
  sources := by
    intro s hs
    obtain ⟨hs, hnot⟩ := List.mem_filter.mp hs
    refine (List.mem_erase_of_ne fun he => ?_).mpr (h.sources s hs)
    exact of_decide_eq_true hnot s.2 (mem_freeOrder _) (Prod.ext he rfl)
  first_job := fun q hq => h.first_job q (List.mem_of_mem_filter hq)
  first_data := fun q hq => h.first_data q (List.mem_of_mem_erase hq)
  block_inj := fun q hq q' hq' => h.block_inj q (List.mem_of_mem_erase hq) q' (List.mem_of_mem_erase hq')
  block_lt := fun q hq => h.block_lt q (List.mem_of_mem_erase hq)
  freed := h.unwound_freed hp

/-- **`connection_free` frees what is owned, once.** -/
theorem Inv.connectionFree (h : Inv cfg o) (hp : p ∈ o.client.connectionsTree) : ∃ o', o.connectionFree p = some o' ∧ Inv cfg o' := by
  have hnum : o.client.numConnections > 0 := by
    rw [h.tree.num]
    exact List.length_pos_of_mem hp
  have hunwind : (o.removed p).unwind p freeOrder = some ((o.removed p).unwound p freeOrder) :=
    unwind_eq freeOrder_nodup (fun k _ => (h.owned (.part p k)).mpr hp)
      (fun b hb => (h.owned (.block b)).mpr ⟨p, hp, hb⟩) ((h.owned (.con p)).mpr hp)
  refine ⟨_, ?_, h.unwound hp⟩
  unfold Machine.connectionFree
  rw [h.use_con hp, Option.bind_eq_bind, Option.bind_some, if_pos hnum]
  exact hunwind

/-! ### A connection is made -/

/-- What the machine has acquired for a new connection, with these components. -/
structure Grown (o : Machine) (parts : List Part) (o' : Machine) : Prop where
  client : o'.client = o.client
  owned : ∀ r, r ∈ o'.owned ↔ r ∈ o.owned ∨ r = .con o.client.fresh ∨ r = .block o.nextBlock ∨
    ∃ k ∈ parts, r = .part o.client.fresh k
  jobs : ∃ js, o'.jobs = js ++ o.jobs ∧ js.Nodup ∧ ∀ j ∈ js, ∃ k ∈ parts, j.part? = some (o.client.fresh, k)
  sources : ∃ ss, o'.sources = ss ++ o.sources ∧ ∀ s ∈ ss, ∃ k ∈ parts, s = (o.client.fresh, k)
  firstData : o'.firstData = Function.update o.firstData o.client.fresh (some o.nextBlock)
  nextBlock : o'.nextBlock = o.nextBlock + 1
  freed : o'.freed = o.freed

variable {m : Machine} {parts : List Part} {k : Part}

theorem Grown.store (o : Machine) : Grown o [] ((o.acquire (.con o.client.fresh)).storeFirst o.client.fresh) := by
  refine ⟨rfl, fun r => ?_, ⟨[], rfl, List.nodup_nil, nofun⟩, ⟨[], rfl, nofun⟩, rfl, rfl, rfl⟩
  simp only [Machine.storeFirst, Machine.acquire, Finset.mem_insert]
  grind

theorem Grown.part (h : Grown o parts m) (k : Part) : Grown o (k :: parts) (m.initPart o.client.fresh k) where
  client := h.client
  owned := by
    intro r
    simp only [Machine.initPart, Machine.acquire, Finset.mem_insert, h.owned]
    grind
  jobs := by
    obtain ⟨js, hjs, hnd, hof⟩ := h.jobs
    refine ⟨js, hjs, hnd, fun j hj => ?_⟩
    obtain ⟨k', hk', hp⟩ := hof j hj
    exact ⟨k', List.mem_cons_of_mem _ hk', hp⟩
  sources := by
    obtain ⟨ss, hss, hof⟩ := h.sources
    refine ⟨ss, hss, fun s hs => ?_⟩
    obtain ⟨k', hk', hp⟩ := hof s hs
    exact ⟨k', List.mem_cons_of_mem _ hk', hp⟩
  firstData := h.firstData
  nextBlock := h.nextBlock
  freed := h.freed

theorem Grown.watch (h : Grown o parts m) (hk : k ∈ parts) : Grown o parts (m.watch o.client.fresh k) := by
  obtain ⟨ss, hss, hof⟩ := h.sources
  refine {h with sources := ⟨(o.client.fresh, k) :: ss, congrArg _ hss, fun s hs => ?_⟩}
  rcases List.mem_cons.mp hs with rfl | hs
  · exact ⟨k, hk, rfl⟩
  · exact hof s hs

/-- No job is a new connection's. -/
theorem Inv.job_fresh (h : Inv cfg o) {j : Job} (hj : j ∈ o.jobs) : j.part? ≠ some (o.client.fresh, k) :=
  fun hp => absurd (h.tree.fresh _ (h.jobs j hj _ _ hp)) (lt_irrefl _)

theorem Grown.setJob (h : Grown o parts m) (hinv : Inv cfg o) {j : Job} (hj : j.part? = some (o.client.fresh, k))
    (hk : k ∈ parts) : ∃ m', m.setJob j = some m' ∧ Grown o parts m' := by
  obtain ⟨js, hjs, hnd, hof⟩ := h.jobs
  have hmem : Resource.part o.client.fresh k ∈ m.owned := (h.owned _).mpr (.inr (.inr (.inr ⟨k, hk, rfl⟩)))
  have hnot : j ∉ o.jobs := fun hmem => hinv.job_fresh hmem hj
  refine ⟨{m with jobs := BPending.set j m.jobs}, ?_, {h with jobs := ⟨BPending.set j js, ?_, BPending.nodup_set hnd j, ?_⟩}⟩
  · unfold Machine.setJob
    rw [hj]
    exact if_pos hmem
  · show BPending.set j m.jobs = _
    rw [BPending.set, hjs, List.erase_append, BPending.set]
    split
    · rfl
    · next hjs => rw [List.erase_of_not_mem hnot, List.erase_of_not_mem hjs]; rfl
  · intro i hi
    rcases BPending.mem_set hi with rfl | hi
    · exact ⟨k, hk, hj⟩
    · exact hof i hi

/-- All is as it was before the creation; what it allocated was freed. -/
structure Restored (o o' : Machine) : Prop where
  client : o'.client = o.client
  owned : o'.owned = o.owned
  jobs : o'.jobs = o.jobs
  sources : o'.sources = o.sources
  firstData : ∀ p, p ≠ o.client.fresh → o'.firstData p = o.firstData p
  blocks : (o'.nextBlock = o.nextBlock ∧ o'.freed = o.freed) ∨
    (o'.nextBlock = o.nextBlock + 1 ∧ o'.freed = o.freed ++ [o.nextBlock])

/-- Nothing that is owned is a new connection's. -/
theorem Inv.new_resource (h : Inv cfg o) {r : Resource} (hr : r ∈ o.owned) (ks : List Part) :
    r ≠ .con o.client.fresh ∧ r ≠ .block o.nextBlock ∧ ∀ k ∈ ks, r ≠ .part o.client.fresh k := by
  have howns := (h.owned r).mp hr
  refine ⟨?_, ?_, fun k _ => ?_⟩
  · rintro rfl
    exact absurd (h.tree.fresh _ howns) (lt_irrefl _)
  · rintro rfl
    obtain ⟨q, hq, hb⟩ := howns
    exact absurd (h.block_lt q hq _ hb) (lt_irrefl _)
  · rintro rfl
    exact absurd (h.tree.fresh _ howns) (lt_irrefl _)

/-- **A creation that fails gives back what it acquired.** -/
theorem Grown.unwind (h : Grown o parts m) (hinv : Inv cfg o) (ks : List Part) (hnd : ks.Nodup)
    (hparts : ∀ k, k ∈ ks ↔ k ∈ parts) : ∃ o', m.unwind o.client.fresh ks = some o' ∧ Restored o o' := by
  have hblock : m.firstData o.client.fresh = some o.nextBlock := by
    rw [h.firstData, Function.update_self]
  have hunwind := unwind_eq (o := m) hnd
    (fun k hk => (h.owned _).mpr (.inr (.inr (.inr ⟨k, (hparts k).mp hk, rfl⟩))))
    (fun b hb => by
      cases hblock.symm.trans hb
      exact (h.owned _).mpr (.inr (.inr (.inl rfl))))
    ((h.owned (.con o.client.fresh)).mpr (.inr (.inl rfl)))
  refine ⟨_, hunwind, h.client, ?_, ?_, ?_, fun q hq => ?_, .inr ⟨h.nextBlock, ?_⟩⟩
  · ext r
    rw [unwound_owned, h.owned]
    constructor
    · rintro ⟨hr | rfl | rfl | ⟨k, hk, rfl⟩, hnot⟩
      · exact hr
      · simp [Machine.belongs] at hnot
      · simp [Machine.belongs, hblock] at hnot
      · simp [Machine.belongs, (hparts k).mpr hk] at hnot
    · intro hr
      obtain ⟨hcon, hb, hpart⟩ := hinv.new_resource hr ks
      refine ⟨.inl hr, ?_⟩
      cases r with
      | con q => simpa [Machine.belongs] using hcon
      | block b => simpa [Machine.belongs, hblock] using Ne.symm hb
      | part q k =>
        simp only [Machine.belongs, Bool.and_eq_false_iff, beq_eq_false_iff_ne]
        by_cases hq : q = o.client.fresh
        · exact .inr (Bool.eq_false_iff.mpr fun hk => hpart k (List.contains_iff_mem.mp hk) (hq ▸ rfl))
        · exact .inl hq
  · obtain ⟨js, hjs, -, hof⟩ := h.jobs
    show m.jobs.filter _ = o.jobs
    rw [hjs, List.filter_append, List.filter_eq_nil_iff.mpr, List.nil_append, List.filter_eq_self.mpr]
    · exact fun j hj => decide_eq_true fun k _ => hinv.job_fresh hj
    · intro j hj hnot
      obtain ⟨k, hk, hp⟩ := hof j hj
      exact of_decide_eq_true hnot k ((hparts k).mpr hk) hp
  · obtain ⟨ss, hss, hof⟩ := h.sources
    show m.sources.filter _ = o.sources
    rw [hss, List.filter_append, List.filter_eq_nil_iff.mpr, List.nil_append, List.filter_eq_self.mpr]
    · rintro s hs
      refine decide_eq_true fun k _ he => ?_
      exact absurd (hinv.tree.fresh _ (hinv.sources s hs)) (by simp [he])
    · intro s hs hnot
      obtain ⟨k, hk, hp⟩ := hof s hs
      exact of_decide_eq_true hnot k ((hparts k).mpr hk) hp
  · show m.firstData q = _
    rw [h.firstData, Function.update_of_ne hq]
  · show m.freed ++ (m.firstData o.client.fresh).toList = _
    rw [h.freed, hblock]
    rfl

theorem Restored.inv (hr : Restored o o') (h : Inv cfg o) : Inv cfg o' := by
  have hdata : ∀ p ∈ o.client.connectionsTree, o'.firstData p = o.firstData p :=
    fun p hp => hr.firstData p (h.tree.fresh p hp).ne
  refine ⟨hr.client ▸ h.cfg, hr.client ▸ h.tree, fun r => ?_, hr.jobs ▸ h.jobs_nodup, ?_, ?_, ?_, ?_, ?_, ?_, fun b => ?_⟩
  · rw [hr.owned, h.owned]
    cases r with
    | con q => simp only [Machine.Owns, hr.client]
    | part q k => simp only [Machine.Owns, hr.client]
    | block b =>
      simp only [Machine.Owns, hr.client]
      refine exists_congr fun q => and_congr_right fun hq => ?_
      rw [hdata q hq]
  · rw [hr.jobs, hr.client]
    exact h.jobs
  · rw [hr.sources, hr.client]
    exact h.sources
  · rw [hr.jobs]
    intro q hq
    rw [hdata q (h.jobs _ hq q .firstJob rfl)]
    exact h.first_job q hq
  · rw [hr.client]
    intro q hq
    rw [hdata q hq]
    exact h.first_data q hq
  · rw [hr.client]
    intro q hq q' hq' b hb hb'
    rw [hdata q hq] at hb
    rw [hdata q' hq'] at hb'
    exact h.block_inj q hq q' hq' b hb hb'
  · rw [hr.client]
    intro q hq b hb
    rw [hdata q hq] at hb
    have hlt := h.block_lt q hq b hb
    rcases hr.blocks with ⟨hnext, -⟩ | ⟨hnext, -⟩ <;> omega
  · have hcount := h.freed b
    have hnew : Resource.block o.nextBlock ∉ o.owned := fun hmem => (h.new_resource hmem []).2.1 rfl
    rw [hr.owned]
    rcases hr.blocks with ⟨hnext, hfreed⟩ | ⟨hnext, hfreed⟩
    · rw [hnext, hfreed]
      exact hcount
    · rw [hnext, hfreed, List.count_append, hcount, List.count_singleton]
      by_cases hb : b = o.nextBlock
      · simp [hb, hnew]
      · have hlt : b < o.nextBlock + 1 ↔ b < o.nextBlock := by omega
        simp [hlt, Ne.symm hb]

theorem unwind_append (o : Machine) (p : Ptr) (ks ks' : List Part) :
    o.unwind p (ks ++ ks') = (o.freeParts p ks).bind fun o => o.unwind p ks' := by
  rw [Machine.unwind, freeParts_append, Option.bind_assoc]
  rfl

theorem fail3_eq (o : Machine) (p : Ptr) : o.fail3 p = o.unwind p [.socket, .firstJob] :=
  (unwind_append o p [.socket] [.firstJob]).symm

theorem fail4_eq (o : Machine) (p : Ptr) :
    o.fail4 p = o.unwind p [.sendWriter, .sendMonitor, .sendAsync, .socks, .socket, .firstJob] := by
  rw [Machine.fail4]
  simp only [fail3_eq]
  exact (unwind_append o p [.sendWriter, .sendMonitor, .sendAsync, .socks] [.socket, .firstJob]).symm

theorem fail5_eq (o : Machine) (p : Ptr) : o.fail5 p = o.unwind p
    [.recvIf, .recvAsync, .sendBuffer, .sendWriter, .sendMonitor, .sendAsync, .socks, .socket, .firstJob] := by
  rw [Machine.fail5]
  simp only [fail4_eq]
  exact (unwind_append o p [.recvIf, .recvAsync, .sendBuffer]
    [.sendWriter, .sendMonitor, .sendAsync, .socks, .socket, .firstJob]).symm

theorem Grown.initSocks (h : Grown o parts m) (hinv : Inv cfg o) (connected : Bool) :
    ∃ m', m.initSocks o.client.fresh connected = some m' ∧ Grown o (.socks :: parts) m' := by
  have hpart := h.part .socks
  unfold Machine.initSocks
  cases connected with
  | true => exact hpart.setJob (j := .of o.client.fresh .socks 0) hinv rfl (List.mem_cons_self ..)
  | false => exact ⟨_, rfl, hpart.watch (List.mem_cons_self ..)⟩

/-- What `connection_init` comes to: all is as it was, or all is there. -/
theorem Inv.connectionInit_cases (h : Inv cfg o) (l r : BAddr) (d : List UInt8) (c : Creation) :
    ∃ o', o.connectionInit l r d c = some o' ∧ ((c.succeeds = false ∧ Restored o o') ∨
      (c.succeeds = true ∧ ∃ m, Grown o freeOrder m ∧ o' = {m with client := m.client.connectionInit l r d true})) := by
  have hrefl : Restored o o := ⟨rfl, rfl, rfl, rfl, fun _ _ => rfl, .inl ⟨rfl, rfl⟩⟩
  obtain ⟨con, firstData, socket, socks, connected, sendBuffer, recvBuffer⟩ := c
  unfold Machine.connectionInit
  dsimp only
  cases con with
  | false => exact ⟨o, rfl, .inl ⟨rfl, hrefl⟩⟩
  | true =>
  cases firstData with
  | false =>
    have hnew : Resource.con o.client.fresh ∉ o.owned := fun hmem => (h.new_resource hmem []).1 rfl
    refine ⟨o, ?_, .inl ⟨rfl, hrefl⟩⟩
    simp [Machine.fail1, Machine.release, Machine.acquire, Finset.erase_insert hnew]
  | true =>
  obtain ⟨m₁, hset₁, h₁⟩ := ((Grown.store o).part .firstJob).setJob (j := .first o.client.fresh) h rfl (List.mem_cons_self ..)
  simp only [Bool.not_true, Bool.false_eq_true, if_false, hset₁, Option.bind_eq_bind, Option.bind_some]
  cases socket with
  | false =>
    obtain ⟨o', hunwind, hr⟩ := h₁.unwind h [.firstJob] (by decide) (fun k => by cases k <;> decide)
    exact ⟨o', hunwind, .inl ⟨rfl, hr⟩⟩
  | true =>
  have h₂ := (h₁.part .socket).watch (List.mem_cons_self ..)
  cases socks with
  | false =>
    obtain ⟨o', hunwind, hr⟩ := h₂.unwind h [.socket, .firstJob] (by decide) (fun k => by cases k <;> decide)
    exact ⟨o', (fail3_eq _ _).trans hunwind, .inl ⟨rfl, hr⟩⟩
  | true =>
  obtain ⟨m₃, hset₃, h₃⟩ := h₂.initSocks h connected
  have h₄ := (((h₃.part .sendAsync).part .sendMonitor).watch (List.mem_cons_self ..)).part .sendWriter
  simp only [Bool.not_true, Bool.false_eq_true, if_false, hset₃, Option.bind_some]
  cases sendBuffer with
  | false =>
    obtain ⟨o', hunwind, hr⟩ := h₄.unwind h [.sendWriter, .sendMonitor, .sendAsync, .socks, .socket, .firstJob] (by decide)
      (fun k => by cases k <;> decide)
    exact ⟨o', (fail4_eq _ _).trans hunwind, .inl ⟨rfl, hr⟩⟩
  | true =>
  obtain ⟨m₅, hset₅, h₅⟩ := (h₄.part .sendBuffer).setJob (j := .of o.client.fresh .sendWriter 0) h rfl
    (List.mem_cons_of_mem _ (List.mem_cons_self ..))
  have h₆ := (h₅.part .recvAsync).part .recvIf
  simp only [Bool.not_true, Bool.false_eq_true, if_false, hset₅, Option.bind_some]
  cases recvBuffer with
  | false =>
    obtain ⟨o', hunwind, hr⟩ := h₆.unwind h
      [.recvIf, .recvAsync, .sendBuffer, .sendWriter, .sendMonitor, .sendAsync, .socks, .socket, .firstJob] (by decide)
      (fun k => by cases k <;> decide)
    exact ⟨o', (fail5_eq _ _).trans hunwind, .inl ⟨rfl, hr⟩⟩
  | true =>
  obtain ⟨m₇, hset₇, h₇⟩ := (h₆.part .recvBuffer).setJob (j := .of o.client.fresh .recvAsync 0) h rfl (by decide)
  simp only [Bool.not_true, Bool.false_eq_true, if_false, hset₇, Option.bind_some]
  exact ⟨_, rfl, .inr ⟨rfl, m₇, h₇, rfl⟩⟩

/-- **A connection that is made owns what it acquired.** -/
theorem Grown.created (h : Grown o freeOrder m) (hinv : Inv cfg o) (hfind : o.client.findConnection l = none)
    (hroom : ¬o.client.numConnections ≥ o.client.cfg.maxConnections) (r : BAddr) (d : List UInt8) :
    Inv cfg {m with client := m.client.connectionInit l r d true} := by
  have hmem : ∀ q, q ∈ o.client.connectionsTree ++ [o.client.fresh] ↔ q ∈ o.client.connectionsTree ∨ q = o.client.fresh := by
    simp
  have htree : (m.client.connectionInit l r d true).connectionsTree = o.client.connectionsTree ++ [o.client.fresh] := by
    rw [h.client]
    rfl
  have hne : ∀ q ∈ o.client.connectionsTree, q ≠ o.client.fresh := fun q hq => (hinv.tree.fresh q hq).ne
  have hnew : m.firstData o.client.fresh = some o.nextBlock := by rw [h.firstData, Function.update_self]
  have hold : ∀ q ∈ o.client.connectionsTree, m.firstData q = o.firstData q := by
    intro q hq
    rw [h.firstData, Function.update_of_ne (hne q hq)]
  obtain ⟨js, hjs, hnd, hof⟩ := h.jobs
  obtain ⟨ss, hss, hsource⟩ := h.sources
  refine ⟨h.client ▸ hinv.cfg, h.client ▸ hinv.tree.connectionInit hfind hroom r d, fun s => ?_, ?_, ?_, ?_, ?_, ?_, ?_, ?_, fun b => ?_⟩
  · rw [h.owned, hinv.owned]
    cases s with
    | con q => simp only [Machine.Owns, htree, hmem]; grind
    | part q k =>
      have hk := mem_freeOrder k
      simp only [Machine.Owns, htree, hmem]
      grind
    | block b =>
      simp only [Machine.Owns, htree, hmem]
      grind
  · show m.jobs.Nodup
    rw [hjs]
    refine List.nodup_append.mpr ⟨hnd, hinv.jobs_nodup, fun j hj j' hj' he => ?_⟩
    obtain ⟨k, -, hp⟩ := hof j hj
    exact hinv.job_fresh (he ▸ hj') hp
  · intro j hj q k hq
    rw [htree, hmem]
    rw [show _ = _ from hjs, List.mem_append] at hj
    rcases hj with hj | hj
    · obtain ⟨k', -, hp⟩ := hof j hj
      cases hq.symm.trans hp
      exact .inr rfl
    · exact .inl (hinv.jobs j hj q k hq)
  · intro s hs
    rw [htree, hmem]
    rw [show _ = _ from hss, List.mem_append] at hs
    rcases hs with hs | hs
    · obtain ⟨k, -, rfl⟩ := hsource s hs
      exact .inr rfl
    · exact .inl (hinv.sources s hs)
  · intro q hq
    rw [show _ = _ from hjs, List.mem_append] at hq
    rcases hq with hq | hq
    · obtain ⟨k, -, hp⟩ := hof _ hq
      cases hp
      exact ⟨_, hnew⟩
    · obtain ⟨b, hb⟩ := hinv.first_job q hq
      exact ⟨b, (hold q (hinv.jobs _ hq q .firstJob rfl)).trans hb⟩
  · intro q hq
    rw [htree, hmem] at hq
    rcases hq with hq | rfl
    · show (Function.update m.client.con m.client.fresh _ q).first.isSome = (m.firstData q).isSome
      rw [h.client, Function.update_of_ne (hne q hq), hold q hq]
      exact hinv.first_data q hq
    · show (Function.update m.client.con m.client.fresh _ o.client.fresh).first.isSome = (m.firstData o.client.fresh).isSome
      rw [h.client, Function.update_self, hnew]
      rfl
  · intro q hq q' hq' b hb hb'
    rw [htree, hmem] at hq hq'
    have hlt := hinv.block_lt
    have hinj := hinv.block_inj
    grind
  · intro q hq b hb
    rw [htree, hmem] at hq
    show b < m.nextBlock
    have hlt := hinv.block_lt
    have hnext := h.nextBlock
    grind
  · show m.freed.count b = if b < m.nextBlock ∧ .block b ∉ m.owned then 1 else 0
    have hno : Resource.block o.nextBlock ∉ o.owned := fun hmem => (hinv.new_resource hmem []).2.1 rfl
    have howned : Resource.block b ∈ m.owned ↔ Resource.block b ∈ o.owned ∨ b = o.nextBlock := by
      rw [h.owned]
      simp
    have hlt : b < o.nextBlock + 1 ↔ b < o.nextBlock ∨ b = o.nextBlock := by omega
    simp only [h.freed, hinv.freed, h.nextBlock, howned, hlt]
    grind

/-! ### Packets -/

theorem Inv.submitPacket (h : Inv cfg o) (s : Submission) : ∃ o', o.submitPacket s = some o' ∧ Inv cfg o' ∧
    ∀ q ∈ o.client.connectionsTree, q ∈ o'.client.connectionsTree := by
  have huse : o.useTree = some o := if_pos fun p hp => (h.owned (.con p)).mpr hp
  unfold Machine.submitPacket
  simp only [huse, Option.bind_eq_bind, Option.bind_some]
  cases hfind : o.client.findConnection s.localAddr with
  | some p =>
    obtain ⟨o', hsend, hsteady⟩ := h.connectionSend (SocksUdp.findConnection_mem hfind) s.remoteAddr s.data
    exact ⟨o', hsend, hsteady.inv h, fun q hq => hsteady.tree.symm ▸ hq⟩
  | none =>
    dsimp only
    split
    · exact ⟨o, rfl, h, fun _ hq => hq⟩
    · next hroom =>
      obtain ⟨o', hinit, ⟨-, hr⟩ | ⟨-, m, hm, rfl⟩⟩ := h.connectionInit_cases s.localAddr s.remoteAddr s.data s.creation
      · exact ⟨o', hinit, hr.inv h, fun q hq => hr.client.symm ▸ hq⟩
      · refine ⟨_, hinit, hm.created h hfind hroom s.remoteAddr s.data, fun q hq => ?_⟩
        show q ∈ m.client.connectionsTree ++ [m.client.fresh]
        rw [hm.client]
        exact List.mem_append_left _ hq

theorem Inv.submitPackets (h : Inv cfg o) (submissions : List Submission) : ∃ o', o.submitPackets submissions = some o' ∧
    Inv cfg o' ∧ ∀ q ∈ o.client.connectionsTree, q ∈ o'.client.connectionsTree := by
  induction submissions generalizing o with
  | nil => exact ⟨o, rfl, h, fun _ hq => hq⟩
  | cons s rest ih =>
    obtain ⟨o₁, hs, h₁, hmem₁⟩ := h.submitPacket s
    obtain ⟨o', hrest, h', hmem⟩ := ih h₁
    exact ⟨o', by rw [Machine.submitPackets, hs, Option.bind_some, hrest], h', fun q hq => hmem q (hmem₁ q hq)⟩

/-- The first packet was sent and freed. -/
def Machine.firstSent (o : Machine) (p : Ptr) : Machine :=
  {o with
    owned := o.owned.filter fun r => ∀ b, o.firstData p = some b → r ≠ .block b
    freed := o.freed ++ (o.firstData p).toList
    firstData := Function.update o.firstData p none
    client := {o.client with con := Function.update o.client.con p {o.client.con p with first := none}}}

theorem Inv.firstSent (h : Inv cfg o) (hp : p ∈ o.client.connectionsTree) {b : Nat} (hb : o.firstData p = some b)
    (hno : .first p ∉ o.jobs) : Inv cfg (o.firstSent p) := by
  have hdata : ∀ q, (o.firstSent p).firstData q = if q = p then none else o.firstData q :=
    fun q => Function.update_apply ..
  have hcon : ∀ q, (o.firstSent p).client.con q = if q = p then {o.client.con p with first := none} else o.client.con q :=
    fun q => Function.update_apply ..
  have howned : ∀ r, r ∈ (o.firstSent p).owned ↔ r ∈ o.owned ∧ r ≠ .block b := by
    intro r
    simp [Machine.firstSent, hb]
  have hinj := h.block_inj
  refine ⟨h.cfg, h.tree.same rfl rfl rfl rfl fun q => ?_, fun r => ?_, h.jobs_nodup, h.jobs, h.sources, fun q hq => ?_,
    fun q hq => ?_, fun q hq q' hq' b' hb' hb'' => ?_, fun q hq b' hb' => ?_, fun b' => ?_⟩
  · rw [hcon]
    split
    · next hq => rw [hq]
    · rfl
  · rw [howned, h.owned]
    cases r with
    | con q => simp [Machine.Owns, Machine.firstSent]
    | part q k => simp [Machine.Owns, Machine.firstSent]
    | block b' =>
      simp only [Machine.Owns, hdata]
      show _ ↔ ∃ q ∈ o.client.connectionsTree, _
      grind
  · have hqp : q ≠ p := fun he => hno (he ▸ hq)
    rw [hdata, if_neg hqp]
    exact h.first_job q hq
  · rw [hcon, hdata]
    split
    · rfl
    · exact h.first_data q hq
  · rw [hdata] at hb' hb''
    exact h.block_inj q hq q' hq' b' (Option.ite_none_left_eq_some.mp hb').2 (Option.ite_none_left_eq_some.mp hb'').2
  · rw [hdata] at hb'
    exact h.block_lt q hq b' (Option.ite_none_left_eq_some.mp hb').2
  · have hlt := h.block_lt p hp b hb
    have hmem : Resource.block b ∈ o.owned := (h.owned (.block b)).mpr ⟨p, hp, hb⟩
    have hcount : (o.firstSent p).freed.count b' = o.freed.count b' + [b].count b' := by
      rw [Machine.firstSent, hb, ← List.count_append]
      rfl
    simp only [hcount, howned, h.freed, List.count_singleton]
    show _ = if b' < o.nextBlock ∧ _ then 1 else 0
    by_cases he : b' = b
    · simp [he, hmem, hlt]
    · simp [he, Ne.symm he]

/-- **The first job sends the packet that is there, and frees it.** -/
theorem Inv.firstJobHandler (h : Inv cfg o) (hp : p ∈ o.client.connectionsTree) {b : Nat} (hb : o.firstData p = some b)
    (hno : .first p ∉ o.jobs) : ∃ o', o.firstJobHandler p = some o' ∧ Inv cfg o' := by
  have hfirst := h.first_data p hp
  rw [hb] at hfirst
  obtain ⟨⟨r, d⟩, hfirst⟩ := Option.isSome_iff_exists.mp hfirst
  have huse : o.use (.block b) = some o := if_pos ((h.owned (.block b)).mpr ⟨p, hp, hb⟩)
  obtain ⟨o₁, hsend, hsteady⟩ := h.connectionSend hp r d
  have h₁ := hsteady.inv h
  have hp₁ : p ∈ o₁.client.connectionsTree := hsteady.tree ▸ hp
  have hb₁ : o₁.firstData p = some b := hsteady.firstData ▸ hb
  have hno₁ : .first p ∉ o₁.jobs := by
    intro hmem
    rcases hsteady.jobs _ hmem with hmem | ⟨-, hne⟩
    · exact hno hmem
    · exact hne p rfl
  have hfree := freeFirstData_eq (o := o₁) (p := p) fun b hb => (h₁.owned (.block b)).mpr ⟨p, hp₁, hb⟩
  have hcon : Resource.con p ∈ o₁.owned.filter fun r => ∀ b, o₁.firstData p = some b → r ≠ .block b := by
    rw [Finset.mem_filter]
    exact ⟨(h₁.owned (.con p)).mpr hp₁, fun _ _ => nofun⟩
  refine ⟨o₁.firstSent p, ?_, h₁.firstSent hp₁ hb₁ hno₁⟩
  unfold Machine.firstJobHandler
  simp only [h.use_con hp, hb, huse, hfirst, hsend, hfree, Option.bind_eq_bind, Option.bind_some]
  rw [Machine.use, if_pos hcon]
  rfl

theorem Inv.checkDnsReply (h : Inv cfg o) (hp : p ∈ o.client.connectionsTree) (r : BAddr) (d : List UInt8) :
    ∃ o', o.checkDnsReply p r d = some o' ∧ Inv cfg o' := by
  unfold Machine.checkDnsReply
  simp only [h.use_con hp, Option.bind_eq_bind, Option.bind_some]
  split
  · split
    · exact h.connectionFree hp
    · refine ⟨_, rfl, (Steady.client (SocksUdp.Keeps.setDnsId o.client p) rfl rfl rfl fun q => ?_).inv h⟩
      by_cases hq : q = p <;> simp [Client.setDnsId, hq]
  · exact ⟨o, rfl, h⟩

theorem Inv.recvIfHandlerSend (h : Inv cfg o) (hp : p ∈ o.client.connectionsTree) (data : List UInt8)
    (submissions : List Submission) : ∃ o', o.recvIfHandlerSend p data submissions = some o' ∧ Inv cfg o' := by
  obtain ⟨o₁, hset, hsteady⟩ := h.setJob hp .recvIf 1
  have h₁ := hsteady.inv h
  have hp₁ : p ∈ o₁.client.connectionsTree := hsteady.tree ▸ hp
  unfold Machine.recvIfHandlerSend
  simp only [h.use_con hp, hset, Option.bind_eq_bind, Option.bind_some]
  split
  · exact ⟨o₁, rfl, h₁⟩
  · next remoteAddr payload _ =>
    split
    · exact ⟨o₁, rfl, h₁⟩
    · have hlog : Steady o₁ {o₁ with client := {o₁.client with log := o₁.client.log ++
          [.received (o₁.client.con p).localAddr remoteAddr payload]}} := {Steady.refl o₁ with}
      obtain ⟨o₂, hsubmit, h₂, hmem⟩ := (hlog.inv h₁).submitPackets submissions
      rw [hsubmit, Option.bind_some]
      exact h₂.checkDnsReply (hmem p hp₁) remoteAddr payload

/-! ### Handlers of the components -/

/-- **The SOCKS handler may free the connection in every event but one.** -/
theorem Inv.socksStateHandler (h : Inv cfg o) (hp : p ∈ o.client.connectionsTree) (event : SocksEvent) :
    ∃ o', o.socksStateHandler p event = some o' ∧ Inv cfg o' := by
  have hfree := h.connectionFree hp
  cases event with
  | connected tcpLocalAddr bind udpBoundAddr =>
    simp only [Machine.socksStateHandler, h.use_con hp, h.use_part hp, Option.bind_eq_bind, Option.bind_some]
    split
    · exact hfree
    · split
      · exact hfree
      · split
        · exact hfree
        · split
          · exact hfree
          · exact ⟨o, rfl, h⟩
  | up waiting =>
    simp only [Machine.socksStateHandler, h.use_con hp, h.use_part hp, Option.bind_eq_bind, Option.bind_some]
    split
    · obtain ⟨o', hset, hsteady⟩ := h.setJob hp .sendAsync 0
      exact ⟨o', hset, hsteady.inv h⟩
    · exact ⟨o, rfl, h⟩
  | error =>
    rw [Machine.socksStateHandler, h.use_con hp]
    exact hfree
  | errorClosed =>
    rw [Machine.socksStateHandler, h.use_con hp]
    exact hfree

theorem Inv.enter (h : Inv cfg o) (hp : p ∈ o.client.connectionsTree) (k : Part) (a : Activity) :
    ∃ o', o.enter p k a = some o' ∧ Inv cfg o' := by
  unfold Machine.enter
  rw [h.use_part hp k, Option.bind_eq_bind, Option.bind_some]
  cases a with
  | work acts =>
    obtain ⟨o', hwork, hsteady⟩ := h.work hp acts
    exact ⟨o', hwork, hsteady.inv h⟩
  | receive data submissions => exact h.recvIfHandlerSend hp data submissions
  | socks event =>
    cases event with
    | connected tcpLocalAddr bind udpBoundAddr =>
      obtain ⟨o₁, hset, hsteady⟩ := h.setJob hp .socks 1
      dsimp only
      rw [hset, Option.bind_some]
      exact (hsteady.inv h).socksStateHandler (hsteady.tree ▸ hp) _
    | up waiting => exact h.socksStateHandler hp _
    | error => exact h.socksStateHandler hp _
    | errorClosed => exact h.socksStateHandler hp _
  | datagramError =>
    dsimp only
    rw [Machine.datagramStateHandler, h.use_con hp]
    exact h.connectionFree hp
  | idle =>
    obtain ⟨o₁, hwatch, hsteady⟩ := h.act hp (.watch .sendMonitor)
    rw [Machine.act, h.use_part hp, Option.map_some, Option.some.injEq] at hwatch
    subst hwatch
    have h₁ := hsteady.inv h
    dsimp only
    rw [Machine.sendMonitorHandler, h₁.use_con hp]
    exact h₁.connectionFree hp

theorem Inv.runJob {j : Job} {rest : List Job} (h : Inv cfg o) (hjobs : o.jobs = j :: rest) (a : Activity) :
    ∃ o', Machine.runJob {o with jobs := rest} j a = some o' ∧ Inv cfg o' := by
  have hsteady : Steady o {o with jobs := rest} := by
    refine {Steady.refl o with jobs_nodup := fun hnd => ?_, jobs := fun i hi => .inl ?_}
    · rw [hjobs] at hnd
      exact (List.nodup_cons.mp hnd).2
    · rw [hjobs]
      exact List.mem_cons_of_mem _ hi
  have h₁ := hsteady.inv h
  have hmem : j ∈ o.jobs := by
    rw [hjobs]
    exact List.mem_cons_self ..
  cases j with
  | first p =>
    obtain ⟨b, hb⟩ := h.first_job p hmem
    have hnd := h.jobs_nodup
    rw [hjobs] at hnd
    exact h₁.firstJobHandler (h.jobs _ hmem p .firstJob rfl) hb (List.nodup_cons.mp hnd).1
  | of p k n => exact h₁.enter (h.jobs _ hmem p k rfl) k a
  | foreign n => exact ⟨_, rfl, h₁⟩

/-- **Nothing that can happen meets a resource that is not owned.** -/
theorem Inv.exec (h : Inv cfg o) {e : Event} (he : Possible o e) : ∃ o', exec o e = some o' ∧ Inv cfg o' := by
  cases e with
  | submit s =>
    obtain ⟨o', hs, h', -⟩ := h.submitPacket s
    exact ⟨o', hs, h'⟩
  | job a =>
    obtain ⟨hne, -⟩ := he
    obtain ⟨j, rest, hjobs⟩ := List.exists_cons_of_ne_nil hne
    obtain ⟨o', hrun, h'⟩ := h.runJob hjobs a
    refine ⟨o', ?_, h'⟩
    rw [SocksUdpResources.exec, hjobs]
    exact hrun
  | source p k a =>
    obtain ⟨-, hsource, -⟩ := he
    exact h.enter (h.sources _ hsource) k a
  | set n =>
    refine ⟨{o with jobs := BPending.set (.foreign n) o.jobs}, rfl, Steady.inv ?_ h⟩
    refine {Steady.refl o with jobs_nodup := fun hnd => BPending.nodup_set hnd _, jobs := fun j hj => ?_}
    rcases BPending.mem_set hj with rfl | hj
    · exact .inr ⟨nofun, fun _ => nofun⟩
    · exact .inl hj

theorem Inv.step (h : Inv cfg o) {e : Event} (hs : step o e = some o') : Inv cfg o' := by
  obtain ⟨he, hs⟩ := Option.ite_none_right_eq_some.mp hs
  obtain ⟨m, hm, hinv⟩ := h.exec he
  cases hs.symm.trans hm
  exact hinv

theorem inv_run {cfg : Config} {es : List Event} (h : Run.run SocksUdpResources.step (init cfg) es = some o) : Inv cfg o :=
  Run.run_invariant (Inv cfg) (fun _ _ _ hinv hs => hinv.step hs) h (inv_init cfg)

/-! ### Every run -/

/-- What `first_data` blocks are there and what became of the others. -/
structure BlocksFreedOnce (o : Machine) : Prop where
  /-- A block that is owned was not freed, and one connection in the tree points to it. -/
  owned : ∀ b, .block b ∈ o.owned → o.freed.count b = 0 ∧ ∃ p ∈ o.client.connectionsTree, o.firstData p = some b ∧
    ∀ q ∈ o.client.connectionsTree, o.firstData q = some b → q = p
  /-- A block that was allocated and is not owned was freed once, and no connection points to it. -/
  gone : ∀ b, b < o.nextBlock → .block b ∉ o.owned → o.freed.count b = 1 ∧
    ∀ p ∈ o.client.connectionsTree, o.firstData p ≠ some b
  /-- Nothing else was freed. -/
  unallocated : ∀ b, o.nextBlock ≤ b → o.freed.count b = 0

theorem Inv.blocksFreedOnce (h : Inv cfg o) : BlocksFreedOnce o where
  owned := by
    intro b hb
    obtain ⟨p, hp, hdata⟩ := (h.owned (.block b)).mp hb
    refine ⟨by simp [h.freed, hb], p, hp, hdata, fun q hq hq' => h.block_inj q hq p hp b hq' hdata⟩
  gone := by
    intro b hlt hb
    refine ⟨by simp [h.freed, hlt, hb], fun p hp hdata => hb ((h.owned (.block b)).mpr ⟨p, hp, hdata⟩)⟩
  unallocated := by
    intro b hle
    rw [h.freed, if_neg]
    rintro ⟨hlt, -⟩
    omega

/-- What is promised of a client in every state. -/
structure Safe (cfg : Config) (o : Machine) : Prop where
  /-- At most one connection for each local address. -/
  local_inj : ∀ p ∈ o.client.connectionsTree, ∀ q ∈ o.client.connectionsTree,
    (o.client.con p).localAddr = (o.client.con q).localAddr → p = q
  nodup : o.client.connectionsTree.Nodup
  num : o.client.numConnections = o.client.connectionsTree.length
  num_le : o.client.numConnections ≤ cfg.maxConnections
  /-- A creation that fails leaves all as it was. -/
  failed : ∀ l r d (c : Creation), c.succeeds = false → ∃ o', o.connectionInit l r d c = some o' ∧
    o'.client = o.client ∧ o'.owned = o.owned ∧ o'.jobs = o.jobs ∧ o'.sources = o.sources
  /-- The connections in the tree own what is owned, and no one else. -/
  owned : ∀ r, r ∈ o.owned ↔ o.Owns r
  blocks : BlocksFreedOnce o
  /-- What can happen never reaches into what is not owned. -/
  runs : ∀ e, Possible o e → (exec o e).isSome

/-- **Every run of a SOCKS-UDP client is safe**: creations that fail at any step, and handlers
that free the connection they were called for, restore what holds. -/
theorem connections_safe {es : List Event} (h : Run.run step (init cfg) es = some o) : Safe cfg o := by
  have hinv := inv_run h
  refine ⟨hinv.tree.local_inj, hinv.tree.nodup, hinv.tree.num, hinv.cfg ▸ hinv.tree.num_le, ?_, hinv.owned,
    hinv.blocksFreedOnce, ?_⟩
  · intro l r d c hc
    obtain ⟨o', hinit, ⟨-, hr⟩ | ⟨hs, -⟩⟩ := hinv.connectionInit_cases l r d c
    · exact ⟨o', hinit, hr.client, hr.owned, hr.jobs, hr.sources⟩
    · exact absurd (hc.symm.trans hs) nofun
  · intro e he
    obtain ⟨o', hexec, -⟩ := hinv.exec he
    rw [hexec]
    rfl

/-- A connection is made and its first packet sent; it is freed inside the handler for the
SOCKS connection being there. -/
def freedWhenConnected : List Event :=
  [.submit ⟨.ipv4 1 1, .ipv4 9 9, [7], ⟨true, true, true, true, false, true, true⟩⟩, .job (.work []),
    .job (.work [.ready]), .job (.work []), .job (.work []), .source 0 .socks (.socks (.connected none false none))]

theorem connections_safe_freedWhenConnected : ∃ o, Run.run step (init ⟨1, 1⟩) freedWhenConnected = some o ∧
    o.client.log.length = 1 ∧ o.client.connectionsTree = [] ∧ o.freed = [0] ∧ Safe ⟨1, 1⟩ o := by
  have hruns : (Run.run step (init ⟨1, 1⟩) freedWhenConnected).map (fun o =>
      decide (o.client.log.length = 1 ∧ o.client.connectionsTree = [] ∧ o.freed = [0])) = some true := by
    decide +kernel
  obtain ⟨o, ho, hends⟩ := Option.map_eq_some_iff.mp hruns
  obtain ⟨hlog, htree, hfreed⟩ := of_decide_eq_true hends
  exact ⟨o, ho, hlog, htree, hfreed, connections_safe ho⟩

end TwilightLine.SocksUdpResources
