import TwilightLine.Tun2socks.SocksUsernames

/-! Which username a password request carries.

A request is made when the server has chosen the password (`choosesPassword`), and it is
made from what the shared entry points to then (`PointsToOwn`). -/
namespace TwilightLine.Usernames

open Lib Socks

/-! ### When a SOCKS client makes a password request -/

/-- With what the handler reads next the server has chosen the password. -/
def choosesPassword (run : SocksRun) : Bool :=
  run.o.state = .sentHello ∧ run.o.buffer 0 = socksVersion ∧ run.o.buffer 1 = socksMethodUsernamePassword ∧
    run.o.control.any fun c =>
      match c.recvIf with
      | .donePending n => c.recvTotal ≤ c.recvLen + n
      | _ => false

/-- `BSocksClient` takes names and passwords of 1 to 255 bytes. -/
def Sendable (username password : List UInt8) : Prop :=
  (0 < username.length ∧ username.length ≤ 255) ∧ 0 < password.length ∧ password.length ≤ 255

instance (username password : List UInt8) : Decidable (Sendable username password) := inferInstanceAs (Decidable (_ ∧ _))

variable {u p : List UInt8} {run run' : SocksRun} {o : BSocksClient} {c : Control} {r : Handled}

theorem sendMessage_inv {message : List UInt8} {state : SocksState} (h : o.sendMessage c message state = some r) :
    r.1.state = state ∧ r.2 = none ∧
      ∃ c', r.1.control = some c' ∧ c'.sendSender.input.state = .operationPending message := by
  obtain ⟨c', hc', rfl⟩ := Option.map_eq_some_iff.mp h
  obtain ⟨input, hinput, rfl⟩ := Option.map_eq_some_iff.mp hc'
  refine ⟨rfl, rfl, _, rfl, ?_⟩
  rw [readBytes_writeBytes] at hinput
  rw [(PacketPassInterface.send_eq hinput).2.2]

theorem authFinished_state (h : o.authFinished c = some r) : r.1.state = o.state ∨ r.1.state = .sendingRequest := by
  unfold BSocksClient.authFinished at h
  split at h
  · cases h
    exact .inl rfl
  · exact .inr (sendMessage_inv h).1

/-- The entry of the list for the chosen method. -/
theorem find_password (method : UInt8) :
    [AuthInfo.none, .password u p].find? (fun ai => ai.authType = method) =
      if method = socksMethodNoAuthenticationRequired then some .none
      else if method = socksMethodUsernamePassword then some (.password u p)
      else none := by
  by_cases h₀ : method = socksMethodNoAuthenticationRequired
  · simp [h₀, AuthInfo.authType]
  · by_cases h₂ : method = socksMethodUsernamePassword
    · simp [h₂, AuthInfo.authType, socksMethodNoAuthenticationRequired, socksMethodUsernamePassword]
    · simp [h₀, h₂, AuthInfo.authType, Ne.symm h₀, Ne.symm h₂]

/-- The password request is handed to the sender. -/
def Requested (u p : List UInt8) (o : BSocksClient) : Prop :=
  o.state = .sendingPassword ∧
    ∃ c, o.control = some c ∧ c.sendSender.input.state = .operationPending (passwordPacket u p)

theorem receivedHello_request (h : o.receivedHello [.none, .password u p] c = some r) (hstate : o.state = .sentHello) :
    if (o.buffer 0 = socksVersion ∧ o.buffer 1 = socksMethodUsernamePassword) ∧ Sendable u p then Requested u p r.1
    else r.1.state ≠ .sendingPassword := by
  unfold BSocksClient.receivedHello at h
  have hsame : r = (o, some .error) → r.1.state ≠ .sendingPassword := by
    rintro rfl
    simp [hstate]
  split at h
  · next hne =>
    rw [if_neg (fun hc => hne hc.1.1)]
    exact hsame (Option.some.inj h).symm
  · next hversion =>
    rw [not_not] at hversion
    rw [find_password] at h
    by_cases hnone : o.buffer 1 = socksMethodNoAuthenticationRequired
    · rw [if_pos hnone] at h
      rw [if_neg (by simp [hnone, socksMethodNoAuthenticationRequired, socksMethodUsernamePassword])]
      rcases authFinished_state h with hs | hs
      · simp [hs, hstate]
      · simp [hs]
    · rw [if_neg hnone] at h
      by_cases hpassword : o.buffer 1 = socksMethodUsernamePassword
      · rw [if_pos hpassword] at h
        dsimp only at h
        split at h
        · next hlen =>
          rw [if_neg (fun hc => by have := hc.2; unfold Sendable at this; omega)]
          exact hsame (Option.some.inj h).symm
        · next hlen =>
          rw [if_pos ⟨⟨hversion, hpassword⟩, by unfold Sendable; omega⟩]
          obtain ⟨hs, -, hc⟩ := sendMessage_inv h
          exact ⟨hs, hc⟩
      · rw [if_neg hpassword] at h
        rw [if_neg (fun hc => hpassword hc.1.2)]
        exact hsame (Option.some.inj h).symm

/-- The states in which the client has its reply to the hello behind it or before it. -/
theorem recvHandlerDone_other {authInfo : List AuthInfo} {n : Nat} (h : o.recvHandlerDone authInfo c n = some r)
    (hstate : o.state ≠ .sentHello) (hnot : o.state ≠ .sendingPassword) : r.1.state ≠ .sendingPassword := by
  unfold BSocksClient.recvHandlerDone at h
  split at h
  · cases h
  · dsimp only at h
    split at h
    · obtain ⟨c', -, rfl⟩ := Option.map_eq_some_iff.mp h
      exact hnot
    · split at h
      · next hs => exact absurd hs hstate
      · unfold BSocksClient.receivedPasswordReply at h
        split at h
        · cases h
          exact hnot
        · split at h
          · cases h
            exact hnot
          · rcases authFinished_state h with hs | hs
            · rw [hs]
              exact hnot
            · simp [hs]
      · unfold BSocksClient.receivedHeader at h
        split at h
        · cases h
          exact hnot
        · split at h
          · cases h
            exact hnot
          · split at h
            · obtain ⟨c', -, rfl⟩ := Option.map_eq_some_iff.mp h
              simp
            · split at h
              · obtain ⟨c', -, rfl⟩ := Option.map_eq_some_iff.mp h
                simp
              · cases h
                exact hnot
      · obtain ⟨bindAddr, -, rfl⟩ := Option.map_eq_some_iff.mp h
        simp
      · cases h

theorem recvHandlerDone_hello {n : Nat} (h : o.recvHandlerDone [.none, .password u p] c n = some r)
    (hstate : o.state = .sentHello) :
    if c.recvTotal ≤ c.recvLen + n ∧ (o.buffer 0 = socksVersion ∧ o.buffer 1 = socksMethodUsernamePassword) ∧ Sendable u p
    then Requested u p r.1 else r.1.state ≠ .sendingPassword := by
  unfold BSocksClient.recvHandlerDone at h
  split at h
  · cases h
  · dsimp only at h
    split at h
    · next hlt =>
      obtain ⟨c', -, rfl⟩ := Option.map_eq_some_iff.mp h
      rw [if_neg (fun hc => absurd hc.1 (not_le.mpr hlt))]
      simp [hstate]
    · next hge =>
      rw [hstate] at h
      have hreceived := receivedHello_request h hstate
      split at hreceived
      · next hc => rwa [if_pos ⟨not_lt.mp hge, hc⟩]
      · next hc => rwa [if_neg (fun hc' => hc hc'.2)]

theorem onSender_state {f : PacketStreamSender → Option PacketStreamSender} (h : run.onSender f = some run') :
    run'.o.state = run.o.state := by
  obtain ⟨c, -, h⟩ := Option.bind_eq_some_iff.mp h
  obtain ⟨sender, -, rfl⟩ := Option.map_eq_some_iff.mp h
  rfl

/-- Nothing but the handler of received bytes makes a password request. -/
theorem step_other {authInfo : List AuthInfo} {e : SocksInput} (he : run.step authInfo e = some run') (hne : e ≠ .recvDone)
    (hnot : run.o.state ≠ .sendingPassword) : run'.o.state ≠ .sendingPassword := by
  unfold SocksRun.step at he
  split at he
  · cases he
  split at he
  · cases he
  cases e with
  | recvDone => exact absurd rfl hne
  | connectorResult =>
    obtain ⟨r, hr, rfl⟩ := Option.map_eq_some_iff.mp he
    unfold BSocksClient.connectorHandler at hr
    split at hr
    · cases hr
    · split at hr
      · cases hr
        exact hnot
      · cases hr
        simp [SocksRun.handled]
  | connectionEvent =>
    obtain ⟨r, hr, rfl⟩ := Option.map_eq_some_iff.mp he
    unfold BSocksClient.connectionHandler at hr
    split at hr
    · cases hr
    · split at hr
      · cases hr
        exact hnot
      · cases hr
        exact hnot
  | continueJob =>
    obtain ⟨c, -, he⟩ := Option.bind_eq_some_iff.mp he
    obtain ⟨-, he⟩ := Option.ite_none_right_eq_some.mp he
    obtain ⟨r, hr, rfl⟩ := Option.map_eq_some_iff.mp he
    unfold BSocksClient.continueJobHandler at hr
    split at hr
    · cases hr
    · split at hr
      · cases hr
        exact hnot
      · show r.1.state ≠ _
        rw [(sendMessage_inv hr).1]
        decide
  | senderOperation | streamOperation | streamDone =>
    rw [onSender_state he]
    exact hnot
  | sendDone =>
    obtain ⟨c, -, he⟩ := Option.bind_eq_some_iff.mp he
    obtain ⟨input, -, he⟩ := Option.bind_eq_some_iff.mp he
    obtain ⟨r, hr, rfl⟩ := Option.map_eq_some_iff.mp he
    unfold BSocksClient.sendHandlerDone at hr
    split at hr
    · obtain ⟨c', -, rfl⟩ := Option.map_eq_some_iff.mp hr
      simp [SocksRun.decided, SocksRun.handled]
    · obtain ⟨c', -, rfl⟩ := Option.map_eq_some_iff.mp hr
      simp [SocksRun.decided, SocksRun.handled]
    · next hs => exact absurd hs hnot
    · cases hr
  | sent =>
    obtain ⟨c, -, he⟩ := Option.bind_eq_some_iff.mp he
    obtain ⟨r, -, rfl⟩ := Option.map_eq_some_iff.mp he
    exact hnot
  | recvOperation =>
    obtain ⟨c, -, he⟩ := Option.bind_eq_some_iff.mp he
    obtain ⟨r, -, rfl⟩ := Option.map_eq_some_iff.mp he
    exact hnot
  | received =>
    obtain ⟨c, -, he⟩ := Option.bind_eq_some_iff.mp he
    split at he
    · obtain ⟨-, heq⟩ := Option.ite_none_right_eq_some.mp he
      cases heq
      exact hnot
    · cases he
  | setDestAddr =>
    obtain ⟨-, heq⟩ := Option.ite_none_right_eq_some.mp he
    cases heq
    exact hnot
  | free =>
    cases he
    exact hnot

/-- **A password request is made exactly when the server has chosen the password**, and with what
the entry holds then. -/
theorem step_request {e : SocksInput} (he : run.step [.none, .password u p] e = some run')
    (hnot : run.o.state ≠ .sendingPassword) :
    if e = .recvDone ∧ choosesPassword run = true ∧ Sendable u p then Requested u p run'.o
    else run'.o.state ≠ .sendingPassword := by
  by_cases hrecv : e = .recvDone
  · subst hrecv
    unfold SocksRun.step at he
    split at he
    · cases he
    split at he
    · cases he
    obtain ⟨c, hcontrol, he⟩ := Option.bind_eq_some_iff.mp he
    obtain ⟨⟨n, recvIf⟩, hdone, he⟩ := Option.bind_eq_some_iff.mp he
    obtain ⟨r, hr, rfl⟩ := Option.map_eq_some_iff.mp he
    show if _ then Requested u p r.1 else r.1.state ≠ _
    by_cases hstate : run.o.state = .sentHello
    · have hrequest := recvHandlerDone_hello hr hstate
      have hchooses : choosesPassword run = true ↔ c.recvTotal ≤ c.recvLen + n ∧
          run.o.buffer 0 = socksVersion ∧ run.o.buffer 1 = socksMethodUsernamePassword := by
        simp only [choosesPassword, hcontrol, Transfer.jobDone_eq hdone, Option.any_some, hstate, decide_eq_true_eq]
        tauto
      split at hrequest
      · next hc => rwa [if_pos ⟨rfl, hchooses.mpr ⟨hc.1, hc.2.1⟩, hc.2.2⟩]
      · next hc => rwa [if_neg (fun h => hc ⟨(hchooses.mp h.2.1).1, (hchooses.mp h.2.1).2, h.2.2⟩)]
    · rw [if_neg (fun h => hstate (of_decide_eq_true h.2.1).1)]
      exact recvHandlerDone_other hr hstate hnot
  · rw [if_neg (fun h => hrecv h.1)]
    exact step_other he hrecv hnot

/-- A password request says what username it was made from. -/
theorem passwordPacket_inj {u' : List UInt8} (h : passwordPacket u p = passwordPacket u' p) : u = u' := by
  have hlen := congrArg List.length h
  simp only [passwordPacket, List.length_append, List.length_cons, List.length_nil] at hlen
  simp only [passwordPacket, List.cons_append, List.nil_append, List.append_assoc, List.cons.injEq] at h
  exact (List.append_inj h.2.2 (by omega)).1

/-! ### When a request is good, and what the entry points to -/

/-- The request carries the name of its own TCP client, or that of no TCP client, and the memory it
was read from was not freed. -/
def Request.Good (username password : List UInt8) (s : State) (r : Request) : Prop :=
  r.freed = false ∧
    match r.party with
    | .tcp i => ∃ c, s.clients i = some c ∧ r.packet = passwordPacket (ownName username c.remoteAddr) password
    | .udp _ => ∀ i c, s.clients i = some c → r.packet ≠ passwordPacket (ownName username c.remoteAddr) password

/-- The entry points to a name that the party can give: a TCP client its own, or that of a client
with the same source address that is still there, and the others that of the options. -/
def PointsToOwn (s : State) (p : Party) : Prop :=
  match p, s.username with
  | .tcp i, .client j => ∃ c d, s.clients i = some c ∧ s.clients j = some d ∧ d.freed = false ∧
      bAddrPrint d.remoteAddr = bAddrPrint c.remoteAddr
  | .udp _, .options => True
  | _, _ => False

/-- When a request is about to be made, the entry is right for it. -/
def EntryKept (username password : List UInt8) (s : State) : Event → Prop
  | .socks p .recvDone => ∀ run, s.socksClient p = some run → choosesPassword run = true →
      Sendable (s.text username s.username) password → PointsToOwn s p
  | _ => True

/-- A request was made from a right name. -/
def Right (s : State) (r : Request) : Prop :=
  r.freed = false ∧
    match r.party, r.username with
    | .tcp i, .client j => ∃ c d, s.clients i = some c ∧ s.clients j = some d ∧
        bAddrPrint d.remoteAddr = bAddrPrint c.remoteAddr
    | .udp _, .options => True
    | _, _ => False

/-- The client that is pointed to was accepted. -/
def State.Accepted (s : State) : NamePtr → Prop
  | .options => True
  | .client i => ∃ c, s.clients i = some c

/-- A request was made from what is at its pointer. -/
structure Made (username password : List UInt8) (s : State) (r : Request) : Prop where
  name : s.Accepted r.username
  party : ∀ i, r.party = .tcp i → s.Accepted (.client i)
  packet : r.packet = passwordPacket (s.text username r.username) password

/-- What holds in every run. -/
structure Inv (username password : List UInt8) (s : State) : Prop where
  bound : ∀ i, s.numAccepted ≤ i → s.clients i = none
  names : ∀ i c, s.clients i = some c → c.socksUsername = ownName username c.remoteAddr
  entry : s.Accepted s.username
  entryLen : s.usernameLen = (s.text username s.username).length
  log : ∀ r ∈ s.requests, Made username password s r

/-- Clients are added, and they keep their address and their name. -/
def Grows (s s' : State) : Prop :=
  ∀ i c, s.clients i = some c → ∃ c', s'.clients i = some c' ∧ c'.remoteAddr = c.remoteAddr ∧
    c'.socksUsername = c.socksUsername

variable {username password : List UInt8} {s s' : State} {r : Request} {q : NamePtr}

theorem Grows.refl : Grows s s := fun _ c h => ⟨c, h, rfl, rfl⟩

theorem Grows.accepted (hg : Grows s s') (h : s.Accepted q) : s'.Accepted q := by
  cases q with
  | options => trivial
  | client i =>
    obtain ⟨c, hc⟩ := h
    obtain ⟨c', hc', -⟩ := hg i c hc
    exact ⟨c', hc'⟩

theorem Grows.text (hg : Grows s s') (h : s.Accepted q) : s'.text username q = s.text username q := by
  cases q with
  | options => rfl
  | client i =>
    obtain ⟨c, hc⟩ := h
    obtain ⟨c', hc', -, hname⟩ := hg i c hc
    simp [State.text, hc, hc', hname]

theorem Made.grows (h : Made username password s r) (hg : Grows s s') : Made username password s' r := by
  refine ⟨hg.accepted h.name, fun i hi => hg.accepted (h.party i hi), ?_⟩
  rw [hg.text h.name]
  exact h.packet

theorem right_grows (h : Made username password s r) (hg : Grows s s') : Right s' r ↔ Right s r := by
  unfold Right
  refine and_congr_right fun _ => ?_
  split
  · next i j hparty hname =>
    obtain ⟨c, hc⟩ := h.party i hparty
    obtain ⟨d, hd⟩ := hname ▸ h.name
    obtain ⟨c', hc', hcaddr, -⟩ := hg i c hc
    obtain ⟨d', hd', hdaddr, -⟩ := hg j d hd
    simp [hc, hc', hd, hd', hcaddr, hdaddr]
  · rfl
  · rfl

/-- The name of a TCP client is longer than that of the options. -/
theorem ownName_ne (addr : BAddr) : username ≠ ownName username addr := by
  intro h
  have hlen := congrArg List.length h
  simp [ownName] at hlen

theorem ownName_inj {addr addr' : BAddr} : ownName username addr = ownName username addr' ↔ bAddrPrint addr = bAddrPrint addr' := by
  simp [ownName]

theorem Inv.text (hinv : Inv username password s) {j : Nat} {d : TcpClient} (hd : s.clients j = some d) :
    s.text username (.client j) = ownName username d.remoteAddr := by
  simp [State.text, hd, hinv.names j d hd]

/-- **A request is good exactly when it was made from a right name.** -/
theorem good_iff (hinv : Inv username password s) (hr : Made username password s r) :
    r.Good username password s ↔ Right s r := by
  have hpacket : ∀ addr, r.packet = passwordPacket (ownName username addr) password ↔
      s.text username r.username = ownName username addr := by
    intro addr
    rw [hr.packet]
    exact ⟨passwordPacket_inj, fun h => by rw [h]⟩
  unfold Request.Good Right
  refine and_congr_right fun _ => ?_
  simp only [ne_eq, hpacket]
  cases hparty : r.party with
  | tcp i =>
    obtain ⟨c, hc⟩ := hr.party i hparty
    cases hname : r.username with
    | options => simp [hc, State.text, ownName_ne]
    | client j =>
      obtain ⟨d, hd⟩ := hname ▸ hr.name
      simp [hc, hd, hinv.text hd, ownName_inj]
  | udp k =>
    cases hname : r.username with
    | options => simp [State.text, ownName_ne]
    | client j =>
      obtain ⟨d, hd⟩ := hname ▸ hr.name
      simp only [hinv.text hd, iff_false, not_forall, not_not]
      exact ⟨j, d, hd, rfl⟩

/-! ### The steps -/

theorem inv_init (username password : List UInt8) : Inv username password (init username) where
  bound _ _ := rfl
  names _ _ h := nomatch h
  entry := trivial
  entryLen := rfl
  log _ h := nomatch h

/-- A step that accepts no client. -/
theorem Inv.keep (hinv : Inv username password s) (hg : Grows s s') (hnone : ∀ i, s.clients i = none → s'.clients i = none)
    (hname : s'.username = s.username) (hlen : s'.usernameLen = s.usernameLen) (hnum : s'.numAccepted = s.numAccepted)
    (hlog : ∀ r ∈ s'.requests, r ∈ s.requests ∨ Made username password s r) : Inv username password s' where
  bound i hi := hnone i (hinv.bound i (hnum ▸ hi))
  names i c' hc' := by
    cases hc : s.clients i with
    | none => cases (hnone i hc).symm.trans hc'
    | some c =>
      obtain ⟨c₁, hc₁, haddr, hsame⟩ := hg i c hc
      cases hc₁.symm.trans hc'
      rw [hsame, hinv.names i c hc, haddr]
  entry := hname ▸ hg.accepted hinv.entry
  entryLen := by rw [hname, hlen, hg.text hinv.entry, hinv.entryLen]
  log r hr := ((hlog r hr).elim (hinv.log r) id).grows hg

theorem setSocksClient_grows (s : State) (run : SocksRun) (p : Party) :
    Grows s (s.setSocksClient run p) ∧ (∀ i, s.clients i = none → (s.setSocksClient run p).clients i = none) := by
  cases p with
  | udp k => exact ⟨.refl, fun _ h => h⟩
  | tcp j =>
    refine ⟨fun i c hc => ?_, fun i hi => ?_⟩
    · by_cases hij : i = j
      · subst hij
        exact ⟨{c with socksClient := some run}, by simp [State.setSocksClient, hc], rfl, rfl⟩
      · exact ⟨c, by simp [State.setSocksClient, hij, hc], rfl, rfl⟩
    · by_cases hij : i = j
      · subst hij
        simp [State.setSocksClient, hi]
      · simp [State.setSocksClient, hij, hi]

theorem accept_inv (hinv : Inv username password s) (localAddr remoteAddr : BAddr) (malloc concat socksInit : Bool) :
    Grows s (listenerAcceptFunc username s localAddr remoteAddr malloc concat socksInit) ∧
      Inv username password (listenerAcceptFunc username s localAddr remoteAddr malloc concat socksInit) := by
  unfold listenerAcceptFunc
  split
  · exact ⟨.refl, hinv⟩
  · split
    · exact ⟨.refl, hinv⟩
    · dsimp only
      have hnew := hinv.bound _ (Nat.le_refl _)
      have hg : ∀ client : TcpClient, Grows s {s with
          username := .client s.numAccepted
          usernameLen := client.socksUsername.length
          clients := Function.update s.clients s.numAccepted (some client)
          numAccepted := s.numAccepted + 1} := by
        intro client i c hc
        refine ⟨c, ?_, rfl, rfl⟩
        show Function.update s.clients s.numAccepted (some client) i = _
        rw [Function.update_of_ne _, hc]
        rintro rfl
        cases hnew.symm.trans hc
      refine ⟨hg _, ?_, ?_, ?_, ?_, ?_⟩
      · intro i hi
        dsimp only at hi ⊢
        rw [Function.update_of_ne (by omega)]
        exact hinv.bound i (by omega)
      · intro i c hc
        dsimp only at hc
        by_cases hi : i = s.numAccepted
        · subst hi
          rw [Function.update_self] at hc
          cases hc
          rfl
        · rw [Function.update_of_ne hi] at hc
          exact hinv.names i c hc
      · exact ⟨_, Function.update_self ..⟩
      · simp [State.text]
      · exact fun r hr => (hinv.log r hr).grows (hg _)

/-- A request of the step, if there is one, was made from the entry. -/
theorem newRequests_cases (hinv : Inv username password s) {p : Party} {e : SocksInput}
    (he : run.step (s.authInfo username password) e = some run') :
    (e = .recvDone ∧ choosesPassword run = true ∧ Sendable (s.text username s.username) password) ∧
        newRequests s p run run' = [⟨p, s.username, s.isFreed s.username,
          passwordPacket (s.text username s.username) password⟩] ∨
      ¬(e = .recvDone ∧ choosesPassword run = true ∧ Sendable (s.text username s.username) password) ∧
        newRequests s p run run' = [] := by
  have hauth : s.authInfo username password = [.none, .password (s.text username s.username) password] := by
    rw [State.authInfo, hinv.entryLen, List.take_length]
  rw [hauth] at he
  by_cases hnot : run.o.state = .sendingPassword
  · refine .inr ⟨?_, if_neg (fun h => h.1 hnot)⟩
    rintro ⟨-, hc, -⟩
    have hstate := (of_decide_eq_true hc).1
    simp [hnot] at hstate
  · have hrequest := step_request he hnot
    split at hrequest
    · next h =>
      obtain ⟨hstate, c, hc, hpending⟩ := hrequest
      refine .inl ⟨h, ?_⟩
      rw [newRequests, if_pos ⟨hnot, hstate⟩, pendingPacket, hc]
      dsimp only
      rw [hpending]
    · next h => exact .inr ⟨h, if_neg (fun h => hrequest h.2)⟩

theorem step_inv {e : Event} (hinv : Inv username password s) (he : step username password s e = some s') :
    Grows s s' ∧ Inv username password s' := by
  cases e with
  | accept localAddr remoteAddr malloc concat socksInit =>
    cases he
    exact accept_inv hinv ..
  | udpInit k destAddr udp =>
    unfold step at he
    dsimp only at he
    split at he
    · cases he
      obtain ⟨hg, hnone⟩ := setSocksClient_grows s (.init destAddr udp fun _ => 0) (.udp k)
      exact ⟨hg, hinv.keep hg hnone rfl rfl rfl fun _ h => .inl h⟩
    · cases he
  | socks p e =>
    obtain ⟨run, hrun, he⟩ := Option.bind_eq_some_iff.mp he
    obtain ⟨run', hstep, rfl⟩ := Option.map_eq_some_iff.mp he
    obtain ⟨hg, hnone⟩ := setSocksClient_grows s run' p
    have hkeep : (s.setSocksClient run' p).username = s.username ∧
        (s.setSocksClient run' p).usernameLen = s.usernameLen ∧
        (s.setSocksClient run' p).numAccepted = s.numAccepted := by
      cases p <;> exact ⟨rfl, rfl, rfl⟩
    refine ⟨hg, hinv.keep hg hnone hkeep.1 hkeep.2.1 hkeep.2.2 fun r hr => ?_⟩
    rcases List.mem_append.mp hr with hr | hr
    · exact .inl hr
    · rcases newRequests_cases hinv hstep with ⟨-, hnew⟩ | ⟨-, hnew⟩
      · rw [hnew, List.mem_singleton] at hr
        subst hr
        refine .inr ⟨hinv.entry, fun i hi => ?_, rfl⟩
        cases hi
        obtain ⟨c, hc, -⟩ := Option.bind_eq_some_iff.mp hrun
        exact ⟨c, hc⟩
      · rw [hnew] at hr
        cases hr
  | dealloc i =>
    unfold step clientDealloc at he
    dsimp only at he
    split at he
    · cases he
    · next c hc =>
      split at he
      · cases he
      · obtain ⟨-, heq⟩ := Option.ite_none_right_eq_some.mp he
        cases heq
        have hg : Grows s {s with clients := Function.update s.clients i (some {c with freed := true})} := by
          intro j d hd
          by_cases hj : j = i
          · subst hj
            cases hc.symm.trans hd
            exact ⟨_, Function.update_self .., rfl, rfl⟩
          · exact ⟨d, (Function.update_of_ne hj ..).trans hd, rfl, rfl⟩
        refine ⟨hg, hinv.keep hg ?_ rfl rfl rfl fun _ h => .inl h⟩
        intro j hj
        refine (Function.update_of_ne ?_ ..).trans hj
        rintro rfl
        cases hj.symm.trans hc

def AllRight (s : State) : Prop := ∀ r ∈ s.requests, Right s r

/-- A step that makes no request. -/
theorem allRight_same (hinv : Inv username password s) (hg : Grows s s') (hreq : s'.requests = s.requests) :
    AllRight s' ↔ AllRight s := by
  unfold AllRight
  rw [hreq]
  exact forall₂_congr fun r hr => right_grows (hinv.log r hr) hg

/-- The request of a step is right exactly when the entry is. -/
theorem right_new (hinv : Inv username password s) (p : Party) (packet : List UInt8) :
    Right s ⟨p, s.username, s.isFreed s.username, packet⟩ ↔ PointsToOwn s p := by
  have hentry := hinv.entry
  unfold Right PointsToOwn
  generalize s.username = name at hentry
  cases name with
  | options => cases p <;> simp [State.isFreed]
  | client j =>
    obtain ⟨d, hd⟩ := hentry
    cases p with
    | udp k => simp
    | tcp i =>
      simp only [State.isFreed, hd, Option.map_some, Option.getD_some, Option.some.injEq]
      constructor
      · rintro ⟨hfreed, c, d', hc, rfl, haddr⟩
        exact ⟨c, d, hc, rfl, hfreed, haddr⟩
      · rintro ⟨c, d', hc, rfl, hfreed, haddr⟩
        exact ⟨hfreed, c, d, hc, rfl, haddr⟩

theorem step_allRight {e : Event} (hinv : Inv username password s) (he : step username password s e = some s') :
    AllRight s' ↔ AllRight s ∧ EntryKept username password s e := by
  have hg := (step_inv hinv he).1
  cases e with
  | accept localAddr remoteAddr malloc concat socksInit =>
    cases he
    rw [show EntryKept username password s (.accept ..) = True from rfl, and_true]
    refine allRight_same hinv hg ?_
    unfold listenerAcceptFunc
    split
    · rfl
    · split <;> rfl
  | udpInit k destAddr udp =>
    rw [show EntryKept username password s (.udpInit ..) = True from rfl, and_true]
    refine allRight_same hinv hg ?_
    unfold step at he
    dsimp only at he
    split at he
    · cases he
      rfl
    · cases he
  | dealloc i =>
    rw [show EntryKept username password s (.dealloc i) = True from rfl, and_true]
    refine allRight_same hinv hg ?_
    unfold step clientDealloc at he
    dsimp only at he
    split at he
    · cases he
    · split at he
      · cases he
      · obtain ⟨-, heq⟩ := Option.ite_none_right_eq_some.mp he
        cases heq
        rfl
  | socks p e =>
    obtain ⟨run, hrun, he⟩ := Option.bind_eq_some_iff.mp he
    obtain ⟨run', hstep, rfl⟩ := Option.map_eq_some_iff.mp he
    have hold : (∀ r ∈ s.requests, Right {s.setSocksClient run' p with requests := s.requests ++ newRequests s p run run'} r) ↔
        AllRight s := forall₂_congr fun r hr => right_grows (hinv.log r hr) hg
    show (∀ r ∈ s.requests ++ newRequests s p run run', Right _ r) ↔ _
    rw [List.forall_mem_append, hold]
    refine and_congr_right fun _ => ?_
    rcases newRequests_cases hinv hstep with ⟨⟨rfl, hchooses, hsendable⟩, hnew⟩ | ⟨hnot, hnew⟩
    · rw [hnew, List.forall_mem_singleton]
      have hmade : Made username password s ⟨p, s.username, s.isFreed s.username,
          passwordPacket (s.text username s.username) password⟩ := by
        refine ⟨hinv.entry, fun i hi => ?_, rfl⟩
        cases hi
        obtain ⟨c, hc, -⟩ := Option.bind_eq_some_iff.mp hrun
        exact ⟨c, hc⟩
      rw [hnew] at hg
      rw [right_grows hmade hg, right_new hinv]
      constructor
      · exact fun h _ _ _ _ => h
      · exact fun h => h run hrun hchooses hsendable
    · rw [hnew]
      refine iff_of_true nofun ?_
      cases e with
      | recvDone =>
        intro run₁ hrun₁ hchooses hsendable
        cases hrun.symm.trans hrun₁
        exact absurd ⟨rfl, hchooses, hsendable⟩ hnot
      | _ => trivial

/-- **In a run every password request is good exactly when, each time that a server has chosen the
password, the shared entry still points to a name that is right for the client.** -/
theorem requests_good_iff (username password : List UInt8) {es : List Event}
    (h : Run.run (step username password) (init username) es = some s) :
    (∀ r ∈ s.requests, r.Good username password s) ↔
      Run.AllSteps (step username password) (EntryKept username password) (init username) es := by
  have hstep : ∀ s e s', Inv username password s → step username password s e = some s' → Inv username password s' :=
    fun _ _ _ hinv he => (step_inv hinv he).2
  have hinv := Run.run_invariant (Inv username password) hstep h (inv_init ..)
  have hgood : (∀ r ∈ s.requests, r.Good username password s) ↔ AllRight s :=
    forall₂_congr fun r hr => good_iff hinv (hinv.log r hr)
  rw [hgood, Run.run_iff hstep (fun _ _ _ hinv he => step_allRight hinv he) h (inv_init ..)]
  exact and_iff_right nofun

/-- A handshake in which the server chooses the password. -/
def passwordChoice (p : Party) : List Event :=
  [.connectorResult false true, .continueJob, .senderOperation, .streamOperation, .sent 4, .streamDone, .sendDone,
    .recvOperation, .received [5, 2], .recvDone].map (.socks p)

/-- The source address of the first client, and that of the second. -/
def firstAddr : BAddr := .ipv4 33554442 4660

def secondAddr : BAddr := .ipv4 50331658 22136

theorem requests_good_iff_alone :
    ∃ s, Run.run (step [117] [112]) (init [117])
        (.accept (.ipv4 16909060 80) firstAddr true true true :: passwordChoice (.tcp 0)) = some s ∧
      s.requests.length = 1 ∧
      ((∀ r ∈ s.requests, r.Good [117] [112] s) ↔
        Run.AllSteps (step [117] [112]) (EntryKept [117] [112]) (init [117])
          (.accept (.ipv4 16909060 80) firstAddr true true true :: passwordChoice (.tcp 0))) := by
  obtain ⟨s, hrun, h⟩ := (Option.any_eq_true _ _).mp (by decide +kernel :
    (Run.run (step [117] [112]) (init [117])
        (.accept (.ipv4 16909060 80) firstAddr true true true :: passwordChoice (.tcp 0))).any
      (fun s => s.requests.length = 1) = true)
  exact ⟨s, hrun, of_decide_eq_true h, requests_good_iff _ _ hrun⟩

/-- The udpgw client has a SOCKS client, one TCP client is accepted, and the accept of another
fails. Then the servers choose the password. -/
def overwritten : List Event :=
  [.udpInit 0 (.ipv4 16909060 7300) false, .accept (.ipv4 16909060 80) firstAddr true true true,
    .accept (.ipv4 16909060 80) secondAddr true true false] ++ passwordChoice (.tcp 0) ++ passwordChoice (.udp 0)

/-- The TCP client and the udpgw client give the name of the client whose accept has failed, and it
is read from memory that was freed. -/
theorem requests_overwritten :
    ∃ s, Run.run (step [117] [112]) (init [117]) overwritten = some s ∧
      s.requests = [⟨.tcp 0, .client 1, true, passwordPacket (ownName [117] secondAddr) [112]⟩,
        ⟨.udp 0, .client 1, true, passwordPacket (ownName [117] secondAddr) [112]⟩] ∧
      ∀ r ∈ s.requests, ¬r.Good [117] [112] s := by
  obtain ⟨s, hrun, h⟩ := (Option.any_eq_true _ _).mp (by decide +kernel :
    (Run.run (step [117] [112]) (init [117]) overwritten).any
      (fun s => s.requests = [⟨.tcp 0, .client 1, true, passwordPacket (ownName [117] secondAddr) [112]⟩,
        ⟨.udp 0, .client 1, true, passwordPacket (ownName [117] secondAddr) [112]⟩]) = true)
  have hrequests := of_decide_eq_true h
  refine ⟨s, hrun, hrequests, fun r hr hgood => ?_⟩
  rw [hrequests] at hr
  simp only [List.mem_cons, List.not_mem_nil, or_false] at hr
  rcases hr with rfl | rfl <;> exact absurd hgood.1 (by decide)

end TwilightLine.Usernames
