import TwilightLine.App.ProxyManager

/-! Runs of the manager and the service.

A start or a stop takes a round of messages, and `Phase` says where in it they are. Where a
step or a message fails, or the service is lost before it has answered, the manager is stuck
for good. -/
namespace TwilightLine.Proxy

/-- What is asked of every state: a transitional status has something pending that will end it, and
a start that has not led to `RUNNING` has left nothing behind. -/
structure Settling (s : State) : Prop where
  starting : s.status = .starting →
    s.binding = .pending ∨ .startProxy ∈ s.requests ∨ .startProxy ∈ s.responses
  stopping : s.status = .stopping → .stopProxy ∈ s.requests ∨ .stopProxy ∈ s.responses
  released : s.status ≠ .running → s.status ≠ .stopping → .startProxy ∉ s.responses → s.service.Released

/-- Every start step succeeds, every message is sent, and the service is not lost before it has answered. -/
def Unbroken (s : State) : Event → Prop
  | .stop sent => s.status = .running → s.proxyServiceMessenger = true ∧ sent = true
  | .onServiceConnected sent => sent = true
  | .onServiceDisconnected =>
    (s.status = .starting → .startProxy ∈ s.responses) ∧ (s.status = .stopping → .stopProxy ∈ s.responses)
  | .onMessageStartProxyRequest vpn client tun2Socks sent =>
    vpn = .established ∧ client = .started ∧ tun2Socks = .started ∧ sent = true
  | .onMessageStopProxyRequest sent => sent = true
  | _ => True

/-- A service that is started. -/
def VpnService.started : VpnService := ⟨true, true, true, true⟩

/-- Where the manager and the service are in a round. -/
inductive Phase (s : State) : Prop
  | idle (hstatus : s.status = .idle) (hrequests : s.requests = []) (hresponses : s.responses = [])
    (hbinding : s.binding = .none) (hservice : s.service = .init)
  | binding (hstatus : s.status = .starting) (hrequests : s.requests = []) (hresponses : s.responses = [])
    (hbinding : s.binding = .pending) (hservice : s.service = .init)
  | startRequested (hstatus : s.status = .starting) (hrequests : s.requests = [.startProxy]) (hresponses : s.responses = [])
    (hbinding : s.binding = .connected) (hmessenger : s.proxyServiceMessenger = true) (hservice : s.service = .init)
  | startAnswered (hstatus : s.status = .starting) (hrequests : s.requests = []) (hresponses : s.responses = [.startProxy])
    (hbinding : s.binding = .connected ∧ s.proxyServiceMessenger = true ∧ s.service = .started ∨
      s.binding = .lost ∧ s.proxyServiceMessenger = false ∧ s.service = .init)
  | running (hstatus : s.status = .running) (hrequests : s.requests = []) (hresponses : s.responses = [])
    (hbinding : s.binding = .connected ∧ s.proxyServiceMessenger = true ∧ s.service = .started ∨
      s.binding = .lost ∧ s.proxyServiceMessenger = false ∧ s.service = .init)
  | stopRequested (hstatus : s.status = .stopping) (hrequests : s.requests = [.stopProxy]) (hresponses : s.responses = [])
    (hbinding : s.binding = .connected) (hservice : s.service = .started)
  | stopAnswered (hstatus : s.status = .stopping) (hrequests : s.requests = []) (hresponses : s.responses = [.stopProxy])
    (hbinding : s.binding = .connected ∨ s.binding = .lost) (hservice : s.service = .init)

/-- Nothing is pending that would end a transitional status. -/
structure Stuck (s : State) : Prop where
  status : s.status = .starting ∨ s.status = .stopping
  requests : s.requests = []
  responses : s.responses = []
  binding : s.binding ≠ .pending

variable {s s' : State} {e : Event}

theorem Phase.settling (ph : Phase s) : Settling s := by
  have hinit : VpnService.init.Released := by decide
  cases ph with
  | idle hstatus _ _ _ hservice => exact ⟨by simp [hstatus], by simp [hstatus], fun _ _ _ => hservice ▸ hinit⟩
  | binding hstatus _ _ hbinding hservice =>
    exact ⟨fun _ => .inl hbinding, by simp [hstatus], fun _ _ _ => hservice ▸ hinit⟩
  | startRequested hstatus hrequests _ _ _ hservice =>
    exact ⟨fun _ => .inr (.inl (by simp [hrequests])), by simp [hstatus], fun _ _ _ => hservice ▸ hinit⟩
  | startAnswered hstatus _ hresponses =>
    exact ⟨fun _ => .inr (.inr (by simp [hresponses])), by simp [hstatus], by simp [hresponses]⟩
  | running hstatus => exact ⟨by simp [hstatus], by simp [hstatus], by simp [hstatus]⟩
  | stopRequested hstatus hrequests =>
    exact ⟨by simp [hstatus], fun _ => .inl (by simp [hrequests]), by simp [hstatus]⟩
  | stopAnswered hstatus _ hresponses =>
    exact ⟨by simp [hstatus], fun _ => .inr (by simp [hresponses]), by simp [hstatus]⟩

theorem Stuck.not_settling (h : Stuck s) : ¬Settling s := by
  intro hs
  rcases h.status with hstatus | hstatus
  · rcases hs.starting hstatus with hp | hp | hp
    · exact h.binding hp
    · simp [h.requests] at hp
    · simp [h.responses] at hp
  · rcases hs.stopping hstatus with hp | hp
    · simp [h.requests] at hp
    · simp [h.responses] at hp

/-- A manager that is stuck stays so. -/
theorem Stuck.step (h : Stuck s) (he : s.step e = some s') : Stuck s' := by
  cases e with
  | start =>
    have hne : s.status ≠ .idle := by rcases h.status with hs | hs <;> simp [hs]
    rw [State.step, if_pos hne] at he
    cases he
    exact h
  | stop sent =>
    have hne : s.status ≠ .running := by rcases h.status with hs | hs <;> simp [hs]
    rw [State.step, if_pos hne] at he
    cases he
    exact h
  | onServiceConnected sent =>
    rw [State.step, if_neg h.binding] at he
    cases he
  | onServiceDisconnected =>
    obtain ⟨-, heq⟩ := Option.ite_none_right_eq_some.mp he
    cases heq
    exact ⟨h.status, rfl, h.responses, by simp [State.disconnect]⟩
  | onMessageStartProxyRequest | onMessageStopProxyRequest => simp [State.step, h.requests] at he
  | handleProxyServiceMessage => simp [State.step, h.responses] at he

/-- What a step does in a round: it goes on, or the manager is stuck. -/
def Proceeds (s : State) (e : Event) (s' : State) : Prop := Unbroken s e ∧ Phase s' ∨ ¬Unbroken s e ∧ Stuck s'

/-- The service answers a start request exactly if each step succeeds and the response is sent. -/
theorem start_answers (vpn : VpnOutcome) (client tun2Socks : ProcessOutcome) (sent : Bool) :
    if vpn = .established ∧ client = .started ∧ tun2Socks = .started ∧ sent = true then
      VpnService.init.onMessageStartProxyRequest vpn client tun2Socks sent = some (.started, true)
    else
      VpnService.init.onMessageStartProxyRequest vpn client tun2Socks sent = none ∨
        ∃ o, VpnService.init.onMessageStartProxyRequest vpn client tun2Socks sent = some (o, false) := by
  cases vpn <;> cases client <;> cases tun2Socks <;> cases sent <;>
    simp [VpnService.onMessageStartProxyRequest, VpnService.startVpnService, VpnService.startTwilightLineClient,
      VpnService.startTun2Socks, VpnService.init, VpnService.started]

theorem start_proceeds (ph : Phase s) (he : s.step .start = some s') : Proceeds s .start s' := by
  refine .inl ⟨trivial, ?_⟩
  by_cases hidle : s.status = .idle
  · rw [State.step, if_neg (not_not.mpr hidle)] at he
    cases he
    cases ph with
    | idle _ hrequests hresponses _ hservice => exact .binding rfl hrequests hresponses rfl hservice
    | _ hstatus => simp [hstatus] at hidle
  · rw [State.step, if_pos hidle] at he
    cases he
    exact ph

theorem stop_proceeds (ph : Phase s) {sent : Bool} (he : s.step (.stop sent) = some s') : Proceeds s (.stop sent) s' := by
  by_cases hrunning : s.status = .running
  · rw [State.step, if_neg (not_not.mpr hrunning)] at he
    cases ph with
    | running _ hrequests hresponses hbinding =>
      dsimp only at he
      by_cases hsend : s.proxyServiceMessenger = true ∧ sent = true
      · rw [if_pos hsend] at he
        cases he
        rcases hbinding with ⟨hbinding, -, hservice⟩ | ⟨-, hnull, -⟩
        · exact .inl ⟨fun _ => hsend, .stopRequested rfl (by simp [hrequests]) hresponses hbinding hservice⟩
        · simp [hnull] at hsend
      · rw [if_neg hsend] at he
        cases he
        refine .inr ⟨fun h => hsend (h hrunning), .inr rfl, hrequests, hresponses, ?_⟩
        rcases hbinding with ⟨hbinding, -⟩ | ⟨hbinding, -⟩ <;> simp [hbinding]
    | _ hstatus => simp [hstatus] at hrunning
  · rw [State.step, if_pos hrunning] at he
    cases he
    exact .inl ⟨fun h => absurd h hrunning, ph⟩

theorem onServiceConnected_proceeds (ph : Phase s) {sent : Bool} (he : s.step (.onServiceConnected sent) = some s') :
    Proceeds s (.onServiceConnected sent) s' := by
  obtain ⟨hpending, he⟩ := Option.ite_none_right_eq_some.mp he
  cases ph with
  | binding hstatus hrequests hresponses _ hservice =>
    cases sent with
    | true =>
      cases he
      exact .inl ⟨rfl, .startRequested hstatus (by simp [hrequests]) hresponses rfl rfl hservice⟩
    | false =>
      cases he
      exact .inr ⟨nofun, .inl hstatus, hrequests, hresponses, nofun⟩
  | idle _ _ _ hbinding | startRequested _ _ _ hbinding | stopRequested _ _ _ hbinding => simp [hbinding] at hpending
  | startAnswered _ _ _ hbinding | running _ _ _ hbinding =>
    rcases hbinding with ⟨hbinding, -⟩ | ⟨hbinding, -⟩ <;> simp [hbinding] at hpending
  | stopAnswered _ _ _ hbinding => rcases hbinding with hbinding | hbinding <;> simp [hbinding] at hpending

theorem onServiceDisconnected_proceeds (ph : Phase s) (he : s.step .onServiceDisconnected = some s') :
    Proceeds s .onServiceDisconnected s' := by
  obtain ⟨hconnected, heq⟩ := Option.ite_none_right_eq_some.mp he
  cases heq
  cases ph with
  | idle _ _ _ hbinding | binding _ _ _ hbinding => simp [hbinding] at hconnected
  | startRequested hstatus _ hresponses =>
    refine .inr ⟨fun h => ?_, .inl hstatus, rfl, hresponses, nofun⟩
    simpa [hresponses] using h.1 hstatus
  | startAnswered hstatus _ hresponses =>
    exact .inl ⟨⟨fun _ => by simp [hresponses], by simp [hstatus]⟩,
      .startAnswered hstatus rfl hresponses (.inr ⟨rfl, rfl, rfl⟩)⟩
  | running hstatus _ hresponses =>
    exact .inl ⟨⟨by simp [hstatus], by simp [hstatus]⟩, .running hstatus rfl hresponses (.inr ⟨rfl, rfl, rfl⟩)⟩
  | stopRequested hstatus _ hresponses =>
    refine .inr ⟨fun h => ?_, .inr hstatus, rfl, hresponses, nofun⟩
    simpa [hresponses] using h.2 hstatus
  | stopAnswered hstatus _ hresponses =>
    exact .inl ⟨⟨by simp [hstatus], fun _ => by simp [hresponses]⟩,
      .stopAnswered hstatus rfl hresponses (.inr rfl) rfl⟩

theorem onMessageStartProxyRequest_proceeds (ph : Phase s) {vpn : VpnOutcome} {client tun2Socks : ProcessOutcome}
    {sent : Bool} (he : s.step (.onMessageStartProxyRequest vpn client tun2Socks sent) = some s') :
    Proceeds s (.onMessageStartProxyRequest vpn client tun2Socks sent) s' := by
  unfold State.step at he
  cases ph with
  | startRequested hstatus hrequests hresponses hbinding hmessenger hservice =>
    simp only [hrequests, hservice] at he
    have hanswers := start_answers vpn client tun2Socks sent
    split at hanswers
    · next hall =>
      rw [hanswers] at he
      cases he
      exact .inl ⟨hall, .startAnswered hstatus rfl (by simp [hresponses]) (.inl ⟨hbinding, hmessenger, rfl⟩)⟩
    · next hnot =>
      refine .inr ⟨hnot, ?_⟩
      rcases hanswers with hanswers | ⟨o, hanswers⟩
      · rw [hanswers] at he
        cases he
        exact ⟨.inl hstatus, rfl, hresponses, nofun⟩
      · rw [hanswers] at he
        cases he
        exact ⟨.inl hstatus, rfl, by simp [hresponses], by simp [hbinding]⟩
  | _ _ hrequests => simp [hrequests] at he

theorem onMessageStopProxyRequest_proceeds (ph : Phase s) {sent : Bool}
    (he : s.step (.onMessageStopProxyRequest sent) = some s') : Proceeds s (.onMessageStopProxyRequest sent) s' := by
  unfold State.step at he
  cases ph with
  | stopRequested hstatus hrequests hresponses hbinding hservice =>
    simp only [hrequests, hservice] at he
    cases sent with
    | true =>
      cases he
      exact .inl ⟨rfl, .stopAnswered hstatus rfl (by simp [hresponses, VpnService.onMessageStopProxyRequest,
        VpnService.stop, VpnService.started]) (.inl hbinding) rfl⟩
    | false =>
      cases he
      exact .inr ⟨nofun, .inr hstatus, rfl, by simp [hresponses, VpnService.onMessageStopProxyRequest], by simp [hbinding]⟩
  | _ _ hrequests => simp [hrequests] at he

theorem handleProxyServiceMessage_proceeds (ph : Phase s) (he : s.step .handleProxyServiceMessage = some s') :
    Proceeds s .handleProxyServiceMessage s' := by
  refine .inl ⟨trivial, ?_⟩
  unfold State.step at he
  cases ph with
  | startAnswered _ hrequests hresponses hbinding =>
    simp only [hresponses] at he
    cases he
    exact .running rfl hrequests rfl hbinding
  | stopAnswered _ hrequests hresponses hbinding hservice =>
    simp only [hresponses] at he
    cases he
    exact .idle rfl hrequests rfl rfl hservice
  | _ _ _ hresponses => simp [hresponses] at he

/-- **A step goes on with the round, or the manager is stuck for good.** -/
theorem Phase.step (ph : Phase s) (he : s.step e = some s') : Proceeds s e s' := by
  cases e with
  | start => exact start_proceeds ph he
  | stop => exact stop_proceeds ph he
  | onServiceConnected => exact onServiceConnected_proceeds ph he
  | onServiceDisconnected => exact onServiceDisconnected_proceeds ph he
  | onMessageStartProxyRequest => exact onMessageStartProxyRequest_proceeds ph he
  | onMessageStopProxyRequest => exact onMessageStopProxyRequest_proceeds ph he
  | handleProxyServiceMessage => exact handleProxyServiceMessage_proceeds ph he

/-- **The manager never hangs in a run, and a failed start leaves nothing behind, exactly when the
run is unbroken.** -/
theorem settling_iff {es : List Event} (h : Run.run State.step .init es = some s) :
    Run.AllStates State.step Settling .init es ↔ Run.AllSteps State.step Unbroken .init es := by
  have hinit : Phase .init := .idle rfl rfl rfl rfl rfl
  have hinv : ∀ s e s', Phase s ∨ Stuck s → State.step s e = some s' → Phase s' ∨ Stuck s' := by
    intro s e s' hinv he
    rcases hinv with ph | hstuck
    · rcases ph.step he with ⟨-, ph'⟩ | ⟨-, hstuck'⟩
      · exact .inl ph'
      · exact .inr hstuck'
    · exact .inr (hstuck.step he)
  refine Run.allStates_iff hinv ?_ h (.inl hinit) hinit.settling
  intro s e s' hinv hs he
  rcases hinv with ph | hstuck
  · rcases ph.step he with ⟨hunbroken, ph'⟩ | ⟨hbroken, hstuck'⟩
    · exact iff_of_true ph'.settling hunbroken
    · exact iff_of_false hstuck'.not_settling hbroken
  · exact absurd hs hstuck.not_settling

/-- The proxy is started and stopped, and nothing goes wrong. -/
def round : List Event :=
  [.start, .onServiceConnected true, .onMessageStartProxyRequest .established .started .started true,
    .handleProxyServiceMessage, .stop true, .onMessageStopProxyRequest true, .handleProxyServiceMessage]

theorem settling_iff_round : ∃ s, Run.run State.step .init round = some s ∧ s.status = .idle ∧
    (Run.AllStates State.step Settling .init round ↔ Run.AllSteps State.step Unbroken .init round) := by
  obtain ⟨s, hrun, h⟩ := (Option.any_eq_true _ _).mp (by decide +kernel :
    (Run.run State.step .init round).any (fun s => s.status = .idle) = true)
  exact ⟨s, hrun, of_decide_eq_true h, settling_iff hrun⟩

/-- The last step of a start fails: the manager is stuck, and the VPN and the processes go on. -/
theorem start_stuck : ∃ s, Run.run State.step .init [.start, .onServiceConnected true,
      .onMessageStartProxyRequest .established .started .failedLater true] = some s ∧
    s.status = .starting ∧ s.service = ⟨true, true, true, true⟩ ∧ ¬Settling s := by
  obtain ⟨s, hrun, h⟩ := (Option.any_eq_true _ _).mp (by decide +kernel : (Run.run State.step .init [.start,
      .onServiceConnected true, .onMessageStartProxyRequest .established .started .failedLater true]).any
    (fun s => s.status = .starting ∧ s.service = ⟨true, true, true, true⟩ ∧ s.responses = []) = true)
  obtain ⟨hstatus, hservice, hresponses⟩ := of_decide_eq_true h
  refine ⟨s, hrun, hstatus, hservice, fun hs => ?_⟩
  have hreleased := hs.released (by simp [hstatus]) (by simp [hstatus]) (by simp [hresponses])
  simp [VpnService.Released, hservice] at hreleased

end TwilightLine.Proxy
