import TwilightLine.SocksUdpClient.SocksUdpClientRuns

/-! The DNS id of a SOCKS-UDP connection.

By its comment, `dns_id` is an id only while every datagram of the connection went to
one IP address, port 53, and carried that id; then the first reply with the id ends the
connection. The code compares port and id and never the address. The law holds along a
run exactly when datagrams and replies that carry the id agree with the connection's
first datagram in the address as well (`dns_law_iff`). -/
namespace TwilightLine.SocksUdp

/-- The datagrams went to the server, on port 53, and carried the id. -/
def OneQuery (server : BAddr) (dnsId : Int) (submitted : List (BAddr × List UInt8)) : Prop :=
  ntoh16 server.getPort = dnsPort ∧ ∀ d ∈ submitted, d.1 = server ∧ getDnsId d.1 d.2 = dnsId

/-- A reply that ended a connection, with the datagrams of the connection. -/
structure Ended where
  submitted : List (BAddr × List UInt8)
  remoteAddr : BAddr
  data : List UInt8
  deriving DecidableEq, Repr

/-- The client, and what was submitted on each of its connections. -/
structure Tracked where
  client : Client
  submitted : Ptr → List (BAddr × List UInt8)
  ended : List Ended

/-- The connection that a datagram is submitted on, if there is one after the step. -/
def submittedOn (o o' : Client) (localAddr : BAddr) : Option Ptr :=
  match o.findConnection localAddr with
  | some p => some p
  | none => if o'.fresh = o.fresh then none else some o.fresh

def Tracked.submit (s : Tracked) (client : Client) (localAddr : BAddr) (d : BAddr × List UInt8) : Tracked :=
  match submittedOn s.client client localAddr with
  | none => {s with client := client}
  | some p =>
    {s with
      client := client
      submitted := Function.update s.submitted p (s.submitted p ++ [d])}

/-- A received datagram; where it ends the connection, it is recorded. -/
def Tracked.receive (s : Tracked) (client : Client) (p : Ptr) (data : List UInt8) : Tracked :=
  match parseSocksUdp data with
  | none => {s with client := client}
  | some (remoteAddr, payload) =>
    {s with
      client := client
      ended := if p ∈ client.connectionsTree then s.ended else s.ended ++ [⟨s.submitted p, remoteAddr, payload⟩]}

def trackedInit (cfg : Config) : Tracked := ⟨init cfg, fun _ => [], []⟩

def trackedStep (s : Tracked) (e : Event) : Option Tracked :=
  (step s.client e).map fun client =>
    match e with
    | .submit localAddr remoteAddr data _ => s.submit client localAddr (remoteAddr, data)
    | .receive p data => s.receive client p data
    | _ => {s with client := client}

/-- The law of `dns_id`, for the connections there are and for those that a reply ended. -/
structure DnsLaw (s : Tracked) : Prop where
  live : ∀ p ∈ s.client.connectionsTree, 0 ≤ (s.client.con p).dnsId →
    ∃ server, OneQuery server (s.client.con p).dnsId (s.submitted p)
  ended : ∀ e ∈ s.ended, ∃ server dnsId, OneQuery server dnsId e.submitted ∧
    e.remoteAddr = server ∧ getDnsId e.remoteAddr e.data = dnsId

/-- The address is that of the connection's first datagram. -/
def FirstServer (s : Tracked) (p : Ptr) (remoteAddr : BAddr) : Prop :=
  ∀ d ∈ (s.submitted p).head?, remoteAddr = d.1

/-- What carries the DNS id of a connection, to it or from it, names the address of its
first datagram. -/
def KeepsServer (s : Tracked) : Event → Prop
  | .submit localAddr remoteAddr data _ => ∀ p ∈ s.client.findConnection localAddr,
    0 ≤ (s.client.con p).dnsId ∧ getDnsId remoteAddr data = (s.client.con p).dnsId → FirstServer s p remoteAddr
  | .receive p data => ∀ x ∈ parseSocksUdp data,
    x.2.length ≤ s.client.cfg.udpMtu ∧ 0 ≤ (s.client.con p).dnsId ∧
      getDnsId x.1 x.2 = (s.client.con p).dnsId → FirstServer s p x.1
  | _ => True

instance (s : Tracked) (p : Ptr) (remoteAddr : BAddr) : Decidable (FirstServer s p remoteAddr) :=
  inferInstanceAs (Decidable (∀ d ∈ (s.submitted p).head?, remoteAddr = d.1))

instance (s : Tracked) (e : Event) : Decidable (KeepsServer s e) :=
  match e with
  | .submit .. => inferInstanceAs (Decidable (∀ p ∈ s.client.findConnection _, _))
  | .receive .. => inferInstanceAs (Decidable (∀ x ∈ parseSocksUdp _, _))
  | .firstJob _ => isTrue trivial
  | .ready _ => isTrue trivial
  | .free _ => isTrue trivial

variable {s s' : Tracked} {p : Ptr} {r : BAddr} {d : List UInt8}

/-! ### Datagrams of one query -/

theorem getDnsId_port (h : 0 ≤ getDnsId r d) : ntoh16 r.getPort = dnsPort := by
  unfold getDnsId at h
  split at h
  · next hp => exact hp.1
  · omega

theorem oneQuery_single (h : 0 ≤ getDnsId r d) : OneQuery r (getDnsId r d) [(r, d)] := by
  refine ⟨getDnsId_port h, fun x hx => ?_⟩
  rw [List.mem_singleton.mp hx]
  exact ⟨rfl, rfl⟩

/-- Where a query goes is where its first datagram went. -/
theorem OneQuery.eq_first {server : BAddr} {dnsId : Int} {submitted : List (BAddr × List UInt8)}
    (h : OneQuery server dnsId submitted) {x : BAddr × List UInt8} (hx : x ∈ submitted.head?) : x.1 = server :=
  (h.2 x (List.mem_of_mem_head? hx)).1

/-- One more datagram of the query, if it goes where the first one went. -/
theorem oneQuery_concat_iff {server : BAddr} {dnsId : Int} {submitted : List (BAddr × List UInt8)}
    (h : OneQuery server dnsId submitted) (hd : getDnsId r d = dnsId) :
    OneQuery server dnsId (submitted ++ [(r, d)]) ↔ r = server := by
  constructor
  · exact fun h' => (h'.2 (r, d) (by simp)).1
  · intro hr
    refine ⟨h.1, fun x hx => ?_⟩
    rcases List.mem_append.mp hx with hx | hx
    · exact h.2 x hx
    · rw [List.mem_singleton.mp hx]
      exact ⟨hr, hd⟩

/-! ### What was submitted on the connections -/

/-- The connections are those that something was submitted on. -/
structure TrackedInv (s : Tracked) : Prop where
  inv : Inv s.client
  ne_nil : ∀ p ∈ s.client.connectionsTree, s.submitted p ≠ []
  unused : ∀ p, s.client.fresh ≤ p → s.submitted p = []

theorem trackedInv_init (cfg : Config) : TrackedInv (trackedInit cfg) := ⟨inv_init cfg, nofun, fun _ _ => rfl⟩

theorem submit_client (s : Tracked) (client : Client) (l : BAddr) (d : BAddr × List UInt8) :
    (s.submit client l d).client = client := by
  unfold Tracked.submit
  split <;> rfl

theorem receive_client (s : Tracked) (client : Client) (p : Ptr) (data : List UInt8) :
    (s.receive client p data).client = client := by
  unfold Tracked.receive
  split <;> rfl

theorem submit_refused (s : Tracked) {l : BAddr} (hfind : s.client.findConnection l = none)
    (d : BAddr × List UInt8) : s.submit s.client l d = s := by
  simp [Tracked.submit, submittedOn, hfind]

theorem submit_sent (s : Tracked) {l : BAddr} (hfind : s.client.findConnection l = some p) (client : Client)
    (d : BAddr × List UInt8) : s.submit client l d =
      ⟨client, Function.update s.submitted p (s.submitted p ++ [d]), s.ended⟩ := by
  simp [Tracked.submit, submittedOn, hfind]

theorem submit_insert (h : TrackedInv s) {l : BAddr} (hfind : s.client.findConnection l = none)
    (r : BAddr) (d : List UInt8) : s.submit (s.client.connectionInit l r d true) l (r, d) =
      ⟨s.client.connectionInit l r d true, Function.update s.submitted s.client.fresh [(r, d)], s.ended⟩ := by
  have hfresh : (s.client.connectionInit l r d true).fresh = s.client.fresh + 1 := rfl
  simp [Tracked.submit, submittedOn, hfind, hfresh, h.unused _ le_rfl]

/-- A datagram that leaves the connection in the tree. -/
theorem receive_kept (s : Tracked) {client : Client} (hp : p ∈ client.connectionsTree) (data : List UInt8) :
    s.receive client p data = {s with client := client} := by
  unfold Tracked.receive
  split
  · rfl
  · rw [if_pos hp]

theorem mem_connectionInit (o : Client) (l r : BAddr) (d : List UInt8) (q : Ptr) :
    q ∈ (o.connectionInit l r d true).connectionsTree ↔ q ∈ o.connectionsTree ∨ q = o.fresh := by
  show q ∈ o.connectionsTree ++ [o.fresh] ↔ _
  simp

/-- What a step of the client does to the record of its connections. -/
inductive TrackedChange (s : Tracked) : Event → Tracked → Prop where
  | same {e : Event} {client : Client} (hk : Fewer s.client client) (hkeeps : KeepsServer s e) :
    TrackedChange s e {s with client := client}
  | insert {l r : BAddr} {d : List UInt8} (hl : l.isIp) (hfind : s.client.findConnection l = none) :
    TrackedChange s (.submit l r d true)
      ⟨s.client.connectionInit l r d true, Function.update s.submitted s.client.fresh [(r, d)], s.ended⟩
  | sent {l r : BAddr} {d : List UInt8} {success : Bool} {p : Ptr} (hfind : s.client.findConnection l = some p) :
    TrackedChange s (.submit l r d success)
      ⟨s.client.connectionSend p r d, Function.update s.submitted p (s.submitted p ++ [(r, d)]), s.ended⟩
  | ended {p : Ptr} {data payload : List UInt8} {r : BAddr} {client : Client}
    (hp : p ∈ s.client.connectionsTree) (hparse : parseSocksUdp data = some (r, payload))
    (hmtu : payload.length ≤ s.client.cfg.udpMtu) (hdns : 0 ≤ (s.client.con p).dnsId)
    (hid : getDnsId r payload = (s.client.con p).dnsId) (hk : Fewer s.client client) :
    TrackedChange s (.receive p data) ⟨client, s.submitted, s.ended ++ [⟨s.submitted p, r, payload⟩]⟩

/-- The relay's datagram carries no DNS id of the connection. -/
theorem keepsServer_of_not (s : Tracked) {data payload : List UInt8} (hparse : parseSocksUdp data = some (r, payload))
    (hid : ¬(0 ≤ (s.client.con p).dnsId ∧ getDnsId r payload = (s.client.con p).dnsId)) :
    KeepsServer s (.receive p data) := by
  intro x hx hx'
  cases hparse.symm.trans hx
  exact absurd hx'.2 hid

/-- A datagram of the relay is handed over: the connection ends if it carries the DNS id. -/
theorem trackedChange_of_handed (h : TrackedInv s) {data payload : List UInt8} (hp : p ∈ s.client.connectionsTree)
    (hparse : parseSocksUdp data = some (r, payload)) (hmtu : payload.length ≤ s.client.cfg.udpMtu)
    {o : Client} (hcon : o.con = s.client.con) (htree : o.connectionsTree = s.client.connectionsTree)
    (hk : Fewer s.client o) :
    TrackedChange s (.receive p data) (s.receive (o.checkDnsReply p r payload) p data) := by
  have hfewer : Fewer s.client (o.checkDnsReply p r payload) :=
    hk.trans (Keeps.checkDnsReply o p r payload).toFewer
  by_cases hid : 0 ≤ (s.client.con p).dnsId ∧ getDnsId r payload = (s.client.con p).dnsId
  · have hfree : o.checkDnsReply p r payload = o.connectionFree p := by
      rw [← hcon] at hid
      rw [Client.checkDnsReply, if_pos hid.1, if_pos hid.2]
    have hgone : p ∉ (o.checkDnsReply p r payload).connectionsTree := by
      rw [hfree]
      show p ∉ o.connectionsTree.erase p
      rw [htree]
      exact h.inv.nodup.not_mem_erase
    have hend : s.receive (o.checkDnsReply p r payload) p data =
        ⟨o.checkDnsReply p r payload, s.submitted, s.ended ++ [⟨s.submitted p, r, payload⟩]⟩ := by
      simp only [Tracked.receive, hparse, if_neg hgone]
    rw [hend]
    exact .ended hp hparse hmtu hid.1 hid.2 hfewer
  · have hlive : p ∈ (o.checkDnsReply p r payload).connectionsTree := by
      rw [← htree] at hp
      rw [← hcon] at hid
      unfold Client.checkDnsReply
      split
      · next hdns =>
        rw [if_neg fun he => hid ⟨hdns, he⟩]
        exact hp
      · exact hp
    rw [receive_kept s hlive]
    exact .same hfewer (keepsServer_of_not s hparse hid)

theorem trackedChange_of_step (h : TrackedInv s) {e : Event} (hs : trackedStep s e = some s') :
    TrackedChange s e s' := by
  obtain ⟨client, hc, rfl⟩ := Option.map_eq_some_iff.mp hs
  cases change_of_step hc with
  | @refused l r d success hfind =>
    show TrackedChange s _ (s.submit s.client l (r, d))
    rw [submit_refused s hfind]
    refine .same (Keeps.refl s.client).toFewer fun p hp => ?_
    cases hfind.symm.trans hp
  | @insert l r d hl hfind =>
    show TrackedChange s _ (s.submit _ l (r, d))
    rw [submit_insert h hfind]
    exact .insert hl hfind
  | @sent l r d success p hfind =>
    show TrackedChange s _ (s.submit _ l (r, d))
    rw [submit_sent s hfind]
    exact .sent hfind
  | first hk => exact .same hk.toFewer trivial
  | ready hk => exact .same hk.toFewer trivial
  | free hk => exact .same hk.toFewer trivial
  | @dropped p data hp hdrop =>
    show TrackedChange s _ (s.receive s.client p data)
    rw [receive_kept s hp]
    exact .same (Keeps.refl s.client).toFewer fun x hx hx' => absurd hx'.1 (hdrop x.1 x.2 hx)
  | handed hp hparse hmtu =>
    exact trackedChange_of_handed h hp hparse hmtu rfl rfl ⟨rfl, List.Sublist.refl _, fun _ => .inl rfl⟩

theorem TrackedInv.step (h : TrackedInv s) {e : Event} (hs : trackedStep s e = some s') : TrackedInv s' := by
  have hinv : Inv s'.client := by
    obtain ⟨client, hc, rfl⟩ := Option.map_eq_some_iff.mp hs
    have hinv := h.inv.step hc
    cases e with
    | submit l r d success => exact (submit_client s client l (r, d)).symm ▸ hinv
    | receive p data => exact (receive_client s client p data).symm ▸ hinv
    | firstJob => exact hinv
    | ready => exact hinv
    | free => exact hinv
  cases trackedChange_of_step h hs with
  | same hk => exact ⟨hinv, fun p hp => h.ne_nil p (hk.mem hp), fun p hp => h.unused p (hk.fresh ▸ hp)⟩
  | insert hl hfind =>
    refine ⟨hinv, fun q hq => ?_, fun q hq => ?_⟩
    · rcases (mem_connectionInit ..).mp hq with hq | rfl
      · simpa [(h.inv.fresh q hq).ne] using h.ne_nil q hq
      · simp
    · have hlt : s.client.fresh < q := hq
      simpa [hlt.ne'] using h.unused q hlt.le
  | @sent l r d success p hfind =>
    have hk := (Keeps.connectionSend s.client p r d).toFewer
    refine ⟨hinv, fun q hq => ?_, fun q hq => ?_⟩
    · by_cases hqp : q = p
      · simp [hqp]
      · simpa [hqp] using h.ne_nil q (hk.mem hq)
    · have hle : s.client.fresh ≤ q := hk.fresh ▸ hq
      have hqp : q ≠ p := fun he => absurd (h.inv.fresh p (findConnection_mem hfind)) (not_lt.mpr (he ▸ hle))
      simpa [hqp] using h.unused q hle
  | ended hp hparse hmtu hdns hid hk =>
    exact ⟨hinv, fun p hp => h.ne_nil p (hk.mem hp), fun p hp => h.unused p (hk.fresh ▸ hp)⟩

/-! ### The law -/

theorem dnsLaw_init (cfg : Config) : DnsLaw (trackedInit cfg) := ⟨nofun, nofun⟩

theorem firstServer_iff (h : TrackedInv s) (hp : p ∈ s.client.connectionsTree) {server : BAddr} {dnsId : Int}
    (hq : OneQuery server dnsId (s.submitted p)) : FirstServer s p r ↔ r = server := by
  obtain ⟨x, rest, hx⟩ := List.exists_cons_of_ne_nil (h.ne_nil p hp)
  have hhead : x ∈ (s.submitted p).head? := by rw [hx]; rfl
  rw [← hq.eq_first hhead]
  constructor
  · exact fun hf => hf x hhead
  · intro hr y hy
    rw [hr, hq.eq_first hhead, hq.eq_first hy]

/-- A connection of before that keeps its datagrams keeps the law. -/
theorem DnsLaw.live_same (h : DnsLaw s) {client : Client} (hk : Fewer s.client client)
    (hp : p ∈ client.connectionsTree) (hdns : 0 ≤ (client.con p).dnsId) :
    ∃ server, OneQuery server (client.con p).dnsId (s.submitted p) := by
  rcases hk.dnsId p with he | he
  · rw [he] at hdns ⊢
    exact h.live p (hk.mem hp) hdns
  · omega

theorem dnsLaw_insert (hinv : TrackedInv s) (h : DnsLaw s) {l : BAddr} :
    DnsLaw ⟨s.client.connectionInit l r d true, Function.update s.submitted s.client.fresh [(r, d)], s.ended⟩ where
  live := by
    intro q hq hdns
    rcases (mem_connectionInit ..).mp hq with hq | rfl
    · have hne := (hinv.inv.fresh q hq).ne
      have hcon : (s.client.connectionInit l r d true).con q = s.client.con q := Function.update_of_ne hne ..
      simp only [hcon, Function.update_of_ne hne] at hdns ⊢
      exact h.live q hq hdns
    · have hcon : ((s.client.connectionInit l r d true).con s.client.fresh).dnsId = getDnsId r d := by
        simp [Client.connectionInit]
      simp only [hcon, Function.update_self] at hdns ⊢
      exact ⟨r, oneQuery_single hdns⟩
  ended := h.ended

/-- A datagram on a connection keeps the law exactly when it goes to the first server. -/
theorem dnsLaw_sent_iff (hinv : TrackedInv s) (h : DnsLaw s) (hp : p ∈ s.client.connectionsTree) :
    DnsLaw ⟨s.client.connectionSend p r d, Function.update s.submitted p (s.submitted p ++ [(r, d)]), s.ended⟩ ↔
      (0 ≤ (s.client.con p).dnsId ∧ getDnsId r d = (s.client.con p).dnsId → FirstServer s p r) := by
  have hdnsId := connectionSend_dnsId s.client p r d
  constructor
  · intro hlaw ⟨hdns, hid⟩
    obtain ⟨server, hq⟩ := h.live p hp hdns
    rw [if_neg fun hc => hc.2 hid] at hdnsId
    have hlive : p ∈ (s.client.connectionSend p r d).connectionsTree := by rwa [connectionSend_tree]
    obtain ⟨server', hq'⟩ := hlaw.live p hlive (by dsimp only; rwa [hdnsId])
    dsimp only at hq'
    rw [hdnsId, Function.update_self] at hq'
    obtain ⟨x, rest, hx⟩ := List.exists_cons_of_ne_nil (hinv.ne_nil p hp)
    have hserver : server' = server := by
      rw [hx] at hq hq'
      rw [← hq.eq_first rfl, ← hq'.eq_first rfl]
    rw [hserver] at hq'
    exact (firstServer_iff hinv hp hq).mpr ((oneQuery_concat_iff hq hid).mp hq')
  · intro hfirst
    refine ⟨fun q hq hdns => ?_, h.ended⟩
    dsimp only at hq hdns ⊢
    rw [connectionSend_tree] at hq
    by_cases hqp : q = p
    · subst hqp
      rw [hdnsId] at hdns ⊢
      rw [Function.update_self]
      split at hdns
      · omega
      · next hmatch =>
        have hid : getDnsId r d = (s.client.con q).dnsId := by
          by_contra hne
          exact hmatch ⟨hdns, hne⟩
        obtain ⟨server, hquery⟩ := h.live q hq hdns
        rw [if_neg hmatch]
        exact ⟨server, (oneQuery_concat_iff hquery hid).mpr ((firstServer_iff hinv hq hquery).mp (hfirst ⟨hdns, hid⟩))⟩
    · rw [connectionSend_other hqp] at hdns ⊢
      rw [Function.update_of_ne hqp]
      exact h.live q hq hdns

/-- **A step keeps the law exactly when what carries the DNS id names the first server.** -/
theorem dnsLaw_step_iff {e : Event} (hinv : TrackedInv s) (h : DnsLaw s) (hs : trackedStep s e = some s') :
    DnsLaw s' ↔ KeepsServer s e := by
  cases trackedChange_of_step hinv hs with
  | same hk hkeeps => exact ⟨fun _ => hkeeps, fun _ => ⟨fun p => h.live_same hk, h.ended⟩⟩
  | insert hl hfind =>
    refine ⟨fun _ p hp => ?_, fun _ => dnsLaw_insert hinv h⟩
    cases hfind.symm.trans hp
  | sent hfind =>
    rw [dnsLaw_sent_iff hinv h (findConnection_mem hfind)]
    constructor
    · intro hfirst q hq
      cases hfind.symm.trans hq
      exact hfirst
    · exact fun hkeeps => hkeeps _ hfind
  | @ended p data payload r client hp hparse hmtu hdns hid hk =>
    obtain ⟨server, hq⟩ := h.live p hp hdns
    have hfirst := firstServer_iff (r := r) hinv hp hq
    constructor
    · intro hlaw x hx _
      cases hparse.symm.trans hx
      obtain ⟨server', dnsId', hq', hr, -⟩ := hlaw.ended ⟨s.submitted p, r, payload⟩ (by simp)
      obtain ⟨y, rest, hy⟩ := List.exists_cons_of_ne_nil (hinv.ne_nil p hp)
      have hserver : server' = server := by
        dsimp only at hq'
        rw [hy] at hq hq'
        rw [← hq.eq_first rfl, ← hq'.eq_first rfl]
      exact hfirst.mpr (hr.trans hserver)
    · intro hkeeps
      refine ⟨fun q => h.live_same hk, fun e he => ?_⟩
      rcases List.mem_append.mp he with he | he
      · exact h.ended e he
      · rw [List.mem_singleton.mp he]
        exact ⟨server, _, hq, hfirst.mp (hkeeps (r, payload) hparse ⟨hmtu, hdns, hid⟩), hid⟩

/-- **The law of `dns_id` holds all along a run exactly when whatever carries the DNS id
of a connection, to it or from it, names the address of its first datagram.** -/
theorem dns_law_iff {cfg : Config} {es : List Event} {s : Tracked}
    (h : Run.run trackedStep (trackedInit cfg) es = some s) :
    Run.AllStates trackedStep DnsLaw (trackedInit cfg) es ↔
      Run.AllSteps trackedStep KeepsServer (trackedInit cfg) es :=
  Run.allStates_iff (fun _ _ _ hi hs => hi.step hs) (fun _ _ _ hi hl hs => dnsLaw_step_iff hi hl hs) h (trackedInv_init cfg)
    (dnsLaw_init cfg)

/-- Two queries with one id, and the answer of the second server if `crossed`. -/
def twoQueries (crossed : Bool) : List Event :=
  let server : BAddr := .ipv4 9 (hton16 dnsPort)
  let other : BAddr := .ipv4 8 (hton16 dnsPort)
  let second := if crossed then other else server
  [.submit (.ipv4 1 1) server [0, 7] true, .ready 0, .firstJob 0, .ready 0,
    .submit (.ipv4 1 1) second [0, 7] true, .receive 0 (socksUdpMessage socksAtypIpv4 second [0, 7])]

theorem dnsId_ignores_server : ¬∀ (cfg : Config) (es : List Event) (s : Tracked),
    Run.run trackedStep (trackedInit cfg) es = some s → DnsLaw s := by
  intro hall
  have hrun : (Run.run trackedStep (trackedInit ⟨2, 1⟩) ((twoQueries true).take 5)).any (fun s =>
      decide (0 ∈ s.client.connectionsTree ∧ 0 ≤ (s.client.con 0).dnsId ∧
        (s.submitted 0).map Prod.fst = [.ipv4 9 (hton16 dnsPort), .ipv4 8 (hton16 dnsPort)])) = true := by
    decide +kernel
  obtain ⟨s, hs, h⟩ := (Option.any_eq_true _ _).mp hrun
  obtain ⟨hlive, hdns, hsubmitted⟩ := of_decide_eq_true h
  obtain ⟨server, -, hserver⟩ := (hall _ _ s hs).live 0 hlive hdns
  have hall : ∀ a ∈ (s.submitted 0).map Prod.fst, a = server := by
    intro a ha
    obtain ⟨x, hx, rfl⟩ := List.mem_map.mp ha
    exact (hserver x hx).1
  rw [hsubmitted] at hall
  have h9 := hall (.ipv4 9 (hton16 dnsPort)) (by simp)
  have h8 := hall (.ipv4 8 (hton16 dnsPort)) (by simp)
  exact absurd (h9.trans h8.symm) (by decide)

theorem dns_law_iff_twoQueries : ∃ s, Run.run trackedStep (trackedInit ⟨2, 1⟩) (twoQueries false) = some s ∧
    s.ended.length = 1 ∧ Run.AllStates trackedStep DnsLaw (trackedInit ⟨2, 1⟩) (twoQueries false) := by
  have hrun : (Run.run trackedStep (trackedInit ⟨2, 1⟩) (twoQueries false)).any
      (fun s => s.ended.length = 1) = true := by decide +kernel
  have hkeeps : Run.AllSteps trackedStep KeepsServer (trackedInit ⟨2, 1⟩) (twoQueries false) := by decide +kernel
  obtain ⟨s, hs, hended⟩ := (Option.any_eq_true _ _).mp hrun
  exact ⟨s, hs, of_decide_eq_true hended, (dns_law_iff hs).mpr hkeeps⟩

end TwilightLine.SocksUdp
