import TwilightLine.Socksclient.BSocksClientStages

/-! Runs of the SOCKS client.

Each step leads from a stage to a stage, or it fails and reports it (`Outcome`). So the law
holds in every run, and when nothing is left to do but to wait for the server, the client
has said all that it has to say and is up if the server has accepted. -/
namespace TwilightLine.Socks

open Lib SocksUdp

variable {authInfo : List AuthInfo} {s s' : SocksRun} {o : BSocksClient} {c c' : Control}

/-- What a step does while nothing has gone wrong. -/
inductive Outcome (authInfo : List AuthInfo) (s s' : SocksRun) : Prop
  | stage (h : Stage authInfo s') (href : s'.refused = false)
  | failed (hevents : s'.events = s.events ++ [.error] ∨ s.o.state = .up ∧ s'.events = s.events ++ [.errorClosed])
    (hsent : s'.sent = s.sent) (hconsumed : s'.consumed = s.consumed) (hdest : s'.o.destAddr = s.o.destAddr)
    (hudp : s'.o.udp = s.o.udp) (hbind : s'.o.bindAddr = s.o.bindAddr)
    (href : s'.refused = true → s.o.destAddr.isIp →
      ∀ t before addr, Accepted authInfo t before addr → ¬s.consumed <+: t)

/-- How many states are still to come. -/
def SocksState.left : SocksState → Nat
  | .connecting => 9
  | .connectedHandler => 8
  | .sendingHello => 7
  | .sentHello => 6
  | .sendingPassword => 5
  | .sentPassword => 4
  | .sendingRequest => 3
  | .sentRequest => 2
  | .receivedReplyHeader => 1
  | .up => 0

/-- How much is to do before the client waits for the server, or goes to another state. -/
def Control.left (c : Control) : Nat :=
  match c.recvIf with
  | .donePending _ => 2
  | .operationPending _ => 1
  | .busy _ => 0
  | .idle =>
    match c.sendSender.input.state with
    | .operationPending data => c.sendSender.todo data
    | .busy data => c.sendSender.todo data
    | .donePending _ => 1
    | .idle => 0

def BSocksClient.left (o : BSocksClient) : Nat := o.control.elim 0 Control.left

/-- The client has got ahead. -/
def Ahead (o o' : BSocksClient) : Prop :=
  o'.state.left < o.state.left ∨ o'.state = o.state ∧ o'.left < o.left

/-- A handler can run, and the client refuses what it has got, or gets ahead. -/
def Handles (authInfo : List AuthInfo) (s : SocksRun) (handler : Option Handled) : Prop :=
  ∃ r, handler = some r ∧ r.1.destAddr = s.o.destAddr ∧
    ((s.decided r).refused = true ∧ Outcome authInfo s (s.decided r) ∨
      Stage authInfo (s.decided r) ∧ (s.decided r).refused = false ∧ Ahead s.o r.1)

theorem Stage.events (st : Stage authInfo s) :
    s.events = [] ∨ s.events = [.connected] ∨ s.o.state = .up ∧ s.events = [.connected, .up] := by
  cases st with
  | connecting _ _ _ hevents => exact .inl hevents
  | connected _ _ _ hevents => exact .inr (.inl hevents)
  | sending _ _ _ _ _ hevents => exact .inr (.inl hevents)
  | receiving _ _ _ _ _ hevents => exact .inr (.inl hevents)
  | up hstate _ _ hevents => exact .inr (.inr ⟨hstate, hevents⟩)

theorem Stage.up_events (st : Stage authInfo s) (h : s.o.state = .up) : s.events = [.connected, .up] := by
  cases st with
  | connecting hstate | connected hstate => simp [hstate] at h
  | sending _ _ ex =>
    rw [h] at ex
    cases ex
  | receiving _ _ rp =>
    rw [h] at rp
    cases rp
  | up _ _ _ hevents => exact hevents

theorem Stage.not_failed (st : Stage authInfo s) : ¬s.Failed := by
  rcases st.events with h | h | ⟨-, h⟩ <;> simp [SocksRun.Failed, h]

/-- What holds in every run. -/
structure Inv (authInfo : List AuthInfo) (s : SocksRun) : Prop where
  law : Law authInfo s
  stage : s.freed = false → ¬s.Failed → Stage authInfo s ∧ s.refused = false

/-- The law speaks of these things only. -/
theorem Law.congr (law : Law authInfo s) (hevents : s'.events = s.events) (hsent : s'.sent = s.sent)
    (hconsumed : s'.consumed = s.consumed) (hdest : s'.o.destAddr = s.o.destAddr) (hudp : s'.o.udp = s.o.udp)
    (hbind : s'.o.bindAddr = s.o.bindAddr) (href : s'.refused = s.refused) : Law authInfo s' := by
  have hreq : req s'.o = req s.o := by rw [req, req, hdest, hudp]
  refine ⟨?_, ?_, ?_, ?_, ?_⟩
  · rw [hevents]
    exact law.events
  · rw [messages, hreq, hsent, hconsumed]
    exact law.sent
  · rw [hevents, hconsumed, hsent, hbind, hreq]
    exact law.up
  · rw [hconsumed]
    exact law.exact
  · rw [href, hdest, hconsumed]
    exact law.refused

theorem Outcome.inv (out : Outcome authInfo s s') (st : Stage authInfo s) (href : s.refused = false) :
    Inv authInfo s' := by
  cases out with
  | stage st' href' => exact ⟨st'.law href', fun _ _ => ⟨st', href'⟩⟩
  | failed hevents hsent hconsumed hdest hudp hbind href' =>
    have law := st.law href
    have hreq : req s'.o = req s.o := by rw [req, req, hdest, hudp]
    refine ⟨⟨?_, ?_, ?_, ?_, ?_⟩, ?_⟩
    · rcases hevents with hevents | ⟨hup, hevents⟩
      · rcases st.events with h | h | ⟨-, h⟩ <;> simp [hevents, h, reports]
      · simp [hevents, st.up_events hup, reports]
    · rw [messages, hreq, hsent, hconsumed]
      exact law.sent
    · intro hmem
      rw [hconsumed, hsent, hbind, hreq]
      refine law.up ?_
      rcases hevents with hevents | ⟨-, hevents⟩ <;> simpa [hevents] using hmem
    · rw [hconsumed]
      exact law.exact
    · rw [hdest, hconsumed]
      exact href'
    · intro _ hnot
      rcases hevents with hevents | ⟨-, hevents⟩ <;> simp [SocksRun.Failed, hevents] at hnot

theorem Handles.outcome {handler : Option Handled} (h : Handles authInfo s handler)
    (he : handler.map s.decided = some s') : Outcome authInfo s s' := by
  obtain ⟨r, hr, -, h⟩ := h
  rw [hr] at he
  cases he
  rcases h with ⟨-, out⟩ | ⟨st, href, -⟩
  · exact out
  · exact .stage st href

/-! ### What the handlers do -/

@[simp] theorem decided_none (s : SocksRun) (o : BSocksClient) : s.decided (o, none) = {s with o := o} := by
  simp [SocksRun.decided, SocksRun.handled]

@[simp] theorem decided_error (s : SocksRun) (o : BSocksClient) :
    s.decided (o, some .error) = {s with o := o, events := s.events ++ [.error], refused := true} := by
  simp [SocksRun.decided, SocksRun.handled]

/-- A message starts on its way. -/
theorem sendMessage_eq (hsender : c.sendSender.Rest) (hmtu : c.sendSender.input.mtu = intMax) {message : List UInt8}
    (hlen : message.length ≤ intMax) (state : SocksState) : ∃ input, c.sendSender.input.mtu = input.mtu ∧
      PacketStreamSender.At {c.sendSender with input := input} message [] ∧
      o.sendMessage c message state = some ({o with
        bufferSize := some message.length
        buffer := writeBytes o.buffer 0 message
        control := some {c with sendSender := {c.sendSender with input := input}}
        state := state}, none) := by
  obtain ⟨input, hinput, hat⟩ := hsender.send (hlen.trans hmtu.symm.le)
  refine ⟨input, (PacketPassInterface.send_eq hinput).2.2 ▸ rfl, hat, ?_⟩
  rw [BSocksClient.sendMessage]
  dsimp only [BSocksClient.reserveBuffer]
  rw [readBytes_writeBytes, Control.send, hinput]
  rfl

theorem startReceive_eq (hidle : c.recvIf = .idle) {total : Nat} (hpos : 0 < total) (dest : Nat) :
    c.startReceive dest total = some
      {c with recvIf := .operationPending (dest, total), recvDest := dest, recvLen := 0, recvTotal := total} := by
  rw [Control.startReceive, Control.doReceive]
  dsimp only
  rw [if_pos hpos, hidle]
  rfl

theorem Exchange.congr {o' : BSocksClient} {state : SocksState} {message before replies : List UInt8}
    (ex : Exchange authInfo o state message before replies) (h : req o' = req o) :
    Exchange authInfo o' state message before replies := by
  cases ex with
  | hello => exact .hello
  | password hc => exact .password hc
  | request ha => exact h ▸ .request ha

theorem Reply.congr {o' : BSocksClient} {state : SocksState} {sent replies : List UInt8} {dest total : Nat}
    (rp : Reply authInfo o state sent replies dest total) (h : req o' = req o) (hbind : o'.bindAddr = o.bindAddr) :
    Reply authInfo o' state sent replies dest total := by
  cases rp with
  | hello => exact .hello
  | password hc => exact .password hc
  | header ha => exact h ▸ .header ha
  | address4 ha rsv haddr => exact h ▸ .address4 ha rsv (hbind ▸ haddr)
  | address6 ha rsv haddr => exact h ▸ .address6 ha rsv (hbind ▸ haddr)

/-- A message is handed to the sender. -/
theorem sendMessage_handles {message before replies : List UInt8} {state : SocksState}
    (ex : Exchange authInfo o state message before replies) (hdest : o.destAddr = s.o.destAddr)
    (hahead : state.left < s.o.state.left) (hsender : c.sendSender.Rest) (hmtu : c.sendSender.input.mtu = intMax) (hidle : c.recvIf = .idle)
    (hlen : message.length ≤ intMax) (hjob : o.continueJob = false) (hevents : s.events = [.connected])
    (hsent : s.sent = before) (hconsumed : s.consumed = replies) (href : s.refused = false) :
    Handles authInfo s (o.sendMessage c message state) := by
  obtain ⟨input, hinput, hat, heq⟩ := sendMessage_eq (o := o) hsender hmtu hlen state
  refine ⟨_, heq, hdest, .inr ?_⟩
  rw [decided_none]
  exact ⟨.sending _ [] (ex.congr rfl) ⟨rfl, hidle, hinput.symm.trans hmtu, hat⟩ hjob hevents
    (hsent.trans (List.append_nil _).symm) hconsumed, href, .inl hahead⟩

/-- A receive operation is requested for a reply. -/
theorem startReceive_handles {sent replies : List UInt8} {dest total : Nat} (hpos : 0 < total)
    (rp : Reply authInfo o o.state sent replies dest total) (hdest : o.destAddr = s.o.destAddr)
    (hahead : o.state.left < s.o.state.left)
    (hsender : c.sendSender.Rest) (hmtu : c.sendSender.input.mtu = intMax) (hidle : c.recvIf = .idle)
    (hsize : o.bufferSize = some (replySize o.state)) (hjob : o.continueJob = false)
    (hevents : s.events = [.connected]) (hsent : s.sent = sent) (hconsumed : s.consumed = replies)
    (href : s.refused = false) :
    Handles authInfo s ((c.startReceive dest total).map fun c => ({o with control := some c}, none)) := by
  rw [startReceive_eq hidle hpos]
  refine ⟨_, rfl, hdest, .inr ?_⟩
  rw [decided_none]
  exact ⟨.receiving _ [] (rp.congr rfl rfl) ⟨rfl, hsender, hmtu, rfl, rfl, .asked (.inl rfl) hpos,
    hconsumed.trans (List.append_nil _).symm, rfl, hsize⟩ hjob hevents hsent, href, .inl hahead⟩

/-! ### The steps -/

theorem Outcome.unrefused (hevents : s'.events = s.events ++ [.error] ∨ s.o.state = .up ∧ s'.events = s.events ++ [.errorClosed])
    (ho : s'.o = s.o) (hsent : s'.sent = s.sent) (hconsumed : s'.consumed = s.consumed) (href : s'.refused = false) :
    Outcome authInfo s s' := by
  refine .failed hevents hsent hconsumed ?_ ?_ ?_ ?_
  · rw [ho]
  · rw [ho]
  · rw [ho]
  · intro h
    rw [href] at h
    cases h

theorem connectorHandler_outcome (st : Stage authInfo s) (href : s.refused = false) {isError connectionInit : Bool}
    (he : (s.o.connectorHandler isError connectionInit).map s.handled = some s') : Outcome authInfo s s' := by
  obtain ⟨r, hr, rfl⟩ := Option.map_eq_some_iff.mp he
  unfold BSocksClient.connectorHandler at hr
  split at hr
  · cases hr
  · next hstate =>
    rw [not_not] at hstate
    split at hr
    · cases hr
      exact .unrefused (.inl rfl) rfl rfl rfl href
    · cases hr
      cases st with
      | connecting _ _ _ hevents hsent hconsumed =>
        refine .stage (.connected rfl rfl rfl ?_ hsent hconsumed) href
        show s.events ++ [.connected] = _
        rw [hevents]
        rfl
      | connected hne | up hne => simp [hstate] at hne
      | sending _ _ ex =>
        rw [hstate] at ex
        cases ex
      | receiving _ _ rp =>
        rw [hstate] at rp
        cases rp

theorem connectionHandler_outcome (href : s.refused = false) {recvClosed : Bool}
    (he : (s.o.connectionHandler recvClosed).map s.handled = some s') : Outcome authInfo s s' := by
  obtain ⟨r, hr, rfl⟩ := Option.map_eq_some_iff.mp he
  unfold BSocksClient.connectionHandler at hr
  split at hr
  · cases hr
  · split at hr
    · next h =>
      cases hr
      exact .unrefused (.inr ⟨h.1, rfl⟩) rfl rfl rfl href
    · cases hr
      exact .unrefused (.inl rfl) rfl rfl rfl href

theorem hello_length_le (hauth : ValidAuth authInfo) : (hello authInfo).length ≤ intMax := by
  have := hauth.le
  simp only [hello, List.length_append, List.length_cons, List.length_nil, List.length_map, intMax]
  omega

theorem continueJob_handles (hauth : ValidAuth authInfo) (st : Stage authInfo s) (href : s.refused = false)
    (hcontrol : s.o.control = some c) (hjob : s.o.continueJob = true) :
    Handles authInfo s (BSocksClient.continueJobHandler authInfo {s.o with continueJob := false} c) := by
  cases st with
  | connecting _ _ hnot | sending _ _ _ _ hnot | receiving _ _ _ _ hnot | up _ _ hnot => simp [hnot] at hjob
  | connected hstate hc _ hevents hsent hconsumed =>
    cases hc.symm.trans hcontrol
    have hpos := hauth.pos
    have hle := hauth.le
    unfold BSocksClient.continueJobHandler
    rw [if_neg (not_not.mpr hstate), if_neg (by omega)]
    exact sendMessage_handles .hello rfl (by rw [hstate]; decide) (PacketStreamSender.rest_init _) rfl rfl
      (hello_length_le hauth) rfl hevents hsent hconsumed href

/-- What the sender does keeps the stage. -/
theorem onSender_stage (st : Stage authInfo s) {f : PacketStreamSender → Option PacketStreamSender}
    (hat : ∀ {sender sender' : PacketStreamSender} {message got : List UInt8}, sender.At message got →
      f sender = some sender' → sender'.At message got)
    (hmtu : ∀ {sender sender' : PacketStreamSender}, f sender = some sender' → sender'.input.mtu = sender.input.mtu)
    (hrest : ∀ {sender : PacketStreamSender}, sender.Rest → f sender = none) (he : s.onSender f = some s') :
    Stage authInfo s' ∧ s'.refused = s.refused := by
  obtain ⟨c, hcontrol, he⟩ := Option.bind_eq_some_iff.mp he
  obtain ⟨sender, hf, rfl⟩ := Option.map_eq_some_iff.mp he
  cases st with
  | connecting _ hc | up _ hc => simp [hc] at hcontrol
  | connected _ hc =>
    cases hc.symm.trans hcontrol
    cases (hrest (PacketStreamSender.rest_init _)).symm.trans hf
  | receiving _ _ _ hr =>
    cases hr.control.symm.trans hcontrol
    cases (hrest hr.sender).symm.trans hf
  | sending _ got ex hs hjob hevents hsent hconsumed =>
    cases hs.control.symm.trans hcontrol
    exact ⟨.sending _ got (ex.congr rfl) ⟨rfl, hs.recvIf, (hmtu hf).trans hs.mtu, hat hs.sender hf⟩ hjob hevents hsent
      hconsumed, rfl⟩

theorem sent_stage (st : Stage authInfo s) (hcontrol : s.o.control = some c) {n : Nat} {bytes : List UInt8}
    {sender : PacketStreamSender} (he : c.sendSender.outputDone n = some (bytes, sender)) :
    Stage authInfo {s.setControl {c with sendSender := sender} with sent := s.sent ++ bytes} := by
  cases st with
  | connecting _ hc | up _ hc => simp [hc] at hcontrol
  | connected _ hc =>
    cases hc.symm.trans hcontrol
    cases ((PacketStreamSender.rest_init _).outputDone n).symm.trans he
  | receiving _ _ _ hr =>
    cases hr.control.symm.trans hcontrol
    cases (hr.sender.outputDone n).symm.trans he
  | sending _ got ex hs hjob hevents hsent hconsumed =>
    cases hs.control.symm.trans hcontrol
    refine .sending _ (got ++ bytes) (ex.congr rfl) ⟨rfl, hs.recvIf, ?_, hs.sender.outputDone he⟩ hjob hevents ?_ hconsumed
    · exact (PacketStreamSender.outputDone_mtu he).trans hs.mtu
    · show s.sent ++ bytes = _
      rw [hsent, List.append_assoc]

/-- When a message is sent, its reply is received. -/
theorem sendDone_handles (st : Stage authInfo s) (href : s.refused = false) (hcontrol : s.o.control = some c)
    {input : PacketPassInterface} (hinput : c.sendSender.input.jobDone = some input) :
    Handles authInfo s (s.o.sendHandlerDone {c with sendSender := {c.sendSender with input := input}}) := by
  cases st with
  | connecting _ hc | up _ hc => simp [hc] at hcontrol
  | connected _ hc =>
    cases hc.symm.trans hcontrol
    cases (PacketStreamSender.rest_init _).jobDone.symm.trans hinput
  | receiving _ _ _ hr =>
    cases hr.control.symm.trans hcontrol
    cases hr.sender.jobDone.symm.trans hinput
  | @sending message before replies _ got ex hs hjob hevents hsent hconsumed =>
    cases hs.control.symm.trans hcontrol
    obtain ⟨rfl, hrest⟩ := hs.sender.jobDone hinput
    have hmtu : input.mtu = intMax := by
      rw [(PacketPassInterface.jobDone_eq hinput).2]
      exact hs.mtu
    have hreceive : ∀ {size total : Nat} {state : SocksState},
        Reply authInfo s.o state (before ++ got) replies 0 total → 0 < total → size = replySize state →
        state.left < s.o.state.left →
        Handles authInfo s
          (s.o.receiveMessage {c with sendSender := {c.sendSender with input := input}} size 0 total state) :=
      fun {size total state} rp hpos hsize hahead =>
        startReceive_handles (o := {s.o with bufferSize := some size, state := state}) hpos (rp.congr rfl rfl) rfl hahead
          hrest hmtu hs.recvIf (congrArg some hsize) hjob hevents hsent hconsumed href
    unfold BSocksClient.sendHandlerDone
    generalize hstate : s.o.state = state at ex hreceive
    cases ex with
    | hello => exact hreceive .hello (by decide) rfl (by decide)
    | password h => exact hreceive (.password h) (by decide) rfl (by decide)
    | request h => exact hreceive (.header h) (by decide) rfl (by decide)

theorem recvOperation_stage (st : Stage authInfo s) (hcontrol : s.o.control = some c) {op : Nat × Nat}
    {recvIf : Transfer (Nat × Nat) Nat} (he : c.recvIf.jobOperation = some (op, recvIf)) :
    Stage authInfo (s.setControl {c with recvIf := recvIf}) := by
  have hpending := Transfer.jobOperation_eq he
  rw [hpending] at he
  cases he
  cases st with
  | connecting _ hc | up _ hc => simp [hc] at hcontrol
  | connected _ hc =>
    cases hc.symm.trans hcontrol
    cases hpending
  | sending _ _ _ hs =>
    cases hs.control.symm.trans hcontrol
    cases hs.recvIf.symm.trans hpending
  | receiving _ part rp hr hjob hevents hsent =>
    cases hr.control.symm.trans hcontrol
    refine .receiving _ part (rp.congr rfl rfl) ⟨rfl, hr.sender, hr.mtu, hr.recvDest, hr.recvTotal, ?_, hr.consumed,
      hr.buffer, hr.size⟩ hjob hevents hsent
    have hpos := hr.pos
    generalize part.length = n at hpos
    cases hpos with
    | asked h hlt =>
      rcases h with h | h
      · cases h.symm.trans hpending
        exact .asked (.inr rfl) hlt
      · cases h.symm.trans hpending
    | arrived _ h => cases h.symm.trans hpending

/-- What is received continues the reply, in the buffer and in the stream. -/
theorem received_stage (st : Stage authInfo s) (hcontrol : s.o.control = some c) {place n : Nat} {data : List UInt8}
    (hbusy : c.recvIf = .busy (place, n)) (hpos : 0 < data.length) (hle : data.length ≤ n) :
    Stage authInfo {s with
      o := {s.o with
        buffer := writeBytes s.o.buffer place data
        control := some {c with recvIf := .donePending data.length}}
      consumed := s.consumed ++ data} := by
  cases st with
  | connecting _ hc | up _ hc => simp [hc] at hcontrol
  | connected _ hc =>
    cases hc.symm.trans hcontrol
    cases hbusy
  | sending _ _ _ hs =>
    cases hs.control.symm.trans hcontrol
    cases hs.recvIf.symm.trans hbusy
  | @receiving _ replies dest _ _ part rp hr hjob hevents hsent =>
    cases hr.control.symm.trans hcontrol
    obtain ⟨hplace, hn, hlen, hlt⟩ : place = c.recvDest + c.recvLen ∧ n = c.recvTotal - c.recvLen ∧
        part.length = c.recvLen ∧ c.recvLen < c.recvTotal := by
      have hat := hr.pos
      generalize hpart : part.length = k at hat
      cases hat with
      | asked h hlt =>
        rcases h with h | h
        · cases h.symm.trans hbusy
        · cases h.symm.trans hbusy
          exact ⟨rfl, rfl, rfl, hlt⟩
      | arrived _ h => cases h.symm.trans hbusy
    have hplace' : (place : Int) = dest + part.length := by
      rw [hplace, hr.recvDest, hlen]
      rfl
    refine .receiving _ (part ++ data) (rp.congr rfl rfl) ⟨rfl, hr.sender, hr.mtu, hr.recvDest, hr.recvTotal, ?_, ?_, ?_,
      hr.size⟩ hjob hevents hsent
    · rw [List.length_append, hlen]
      exact .arrived _ rfl hpos (by dsimp only; omega)
    · show s.consumed ++ data = _
      rw [hr.consumed, List.append_assoc]
    · show readBytes (writeBytes s.o.buffer place data) dest (part ++ data).length = _
      rw [List.length_append, readBytes_add, hplace', readBytes_writeBytes, readBytes_writeBytes_disjoint (.inl (Int.le_refl _)),
        hr.buffer]

/-- When more of the reply is to come, it is received next. -/
theorem doReceive_handles {sent replies part : List UInt8} {dest total n : Nat}
    (rp : Reply authInfo s.o s.o.state sent replies dest total) (hr : Receiving s c replies dest total part)
    (hn : c.recvIf = .donePending n) (hlt : c.recvLen + n < c.recvTotal) (hjob : s.o.continueJob = false)
    (hevents : s.events = [.connected]) (hsent : s.sent = sent) (href : s.refused = false) :
    Handles authInfo s
      ((Control.doReceive {c with recvIf := .idle, recvLen := c.recvLen + n}).map fun c =>
        ({s.o with control := some c}, none)) := by
  unfold Control.doReceive
  rw [if_pos hlt]
  refine ⟨_, rfl, rfl, .inr ?_⟩
  rw [decided_none]
  refine ⟨.receiving _ part (rp.congr rfl rfl) ⟨rfl, hr.sender, hr.mtu, hr.recvDest, hr.recvTotal, ?_, hr.consumed,
    hr.buffer, hr.size⟩ hjob hevents hsent, href, .inr ⟨rfl, ?_⟩⟩
  · rw [(hr.pos.done hn).1]
    exact .asked (.inl rfl) hlt
  · simp [BSocksClient.left, hr.control, Control.left, hn]

/-- The control after the last bytes of a reply. -/
structure Complete (s : SocksRun) (c : Control) (replies : List UInt8) (dest total : Nat) (part : List UInt8) : Prop where
  sender : c.sendSender.Rest
  mtu : c.sendSender.input.mtu = intMax
  recvIf : c.recvIf = .idle
  length : part.length = total
  buffer : readBytes s.o.buffer dest total = part
  consumed : s.consumed = replies ++ part

/-- What an accepting server answers to the hello. -/
theorem Accepted.hello_cases {t before rest : List UInt8} {addr : BAddr} {version method : UInt8}
    (hacc : Accepted authInfo t before addr) (hle : version :: method :: rest <+: t) :
    version = socksVersion ∧
      (chosen authInfo method = some .none ∨
        ∃ username password, chosen authInfo method = some (.password username password) ∧
          ∀ v m more, rest = v :: m :: more → v = 1 ∧ m = 0) := by
  obtain ⟨more, hmore⟩ := hle
  cases hacc with
  | intro hauth =>
    cases hauth with
    | none h =>
      simp only [List.cons_append, List.nil_append, List.cons.injEq] at hmore
      obtain ⟨rfl, rfl, -⟩ := hmore
      exact ⟨rfl, .inl h⟩
    | password username password h =>
      simp only [List.cons_append, List.nil_append, List.cons.injEq] at hmore
      obtain ⟨rfl, rfl, hmore⟩ := hmore
      refine ⟨rfl, .inr ⟨username, password, h, ?_⟩⟩
      rintro v m more' rfl
      simp only [List.cons_append, List.cons.injEq] at hmore
      exact ⟨hmore.1, hmore.2.1⟩

/-- What an accepting server answers to the request. -/
theorem Accepted.header_cases {t before before' replies rest : List UInt8} {addr : BAddr} {version rep rsv atyp : UInt8}
    (hacc : Accepted authInfo t before addr) (hauth : Authenticated authInfo replies before')
    (hle : replies ++ version :: rep :: rsv :: atyp :: rest <+: t) :
    version = socksVersion ∧ rep = socksRepSucceeded ∧ (atyp = socksAtypIpv4 ∨ atyp = socksAtypIpv6) := by
  obtain ⟨more, hmore⟩ := hle
  cases hacc with
  | intro hauth' rsv' haddr =>
    rw [List.append_assoc, List.append_assoc] at hmore
    obtain ⟨-, -, hmore⟩ := authenticated_unique hauth hauth' hmore
    simp only [List.cons_append, List.cons.injEq] at hmore
    obtain ⟨rfl, rfl, -, rfl, -⟩ := hmore
    exact ⟨rfl, rfl, socksAtyp_cases haddr⟩

/-- A handler reports that it does not accept what was received. -/
theorem Handles.refuse (href : s.o.destAddr.isIp → ∀ t before addr, Accepted authInfo t before addr → ¬s.consumed <+: t) :
    Handles authInfo s s.o.reportError := by
  refine ⟨_, rfl, rfl, .inl ?_⟩
  rw [decided_error]
  exact ⟨rfl, .failed (.inl rfl) rfl rfl rfl rfl rfl fun _ => href⟩

theorem req_length_le (o : BSocksClient) : (req o).length ≤ intMax := by
  unfold req
  split
  · have := o.destAddr.packed_length_le
    simp only [request, List.length_append, List.length_cons, List.length_nil, intMax]
    unfold addrIpv6Size at this
    omega
  · exact Nat.zero_le _

/-- After authentication the request is sent, or the destination has no address for it. -/
theorem authFinished_handles {replies before : List UInt8} (hauth : Authenticated authInfo replies before)
    (hahead : SocksState.sendingRequest.left < s.o.state.left)
    (hsender : c.sendSender.Rest) (hmtu : c.sendSender.input.mtu = intMax) (hidle : c.recvIf = .idle)
    (hjob : s.o.continueJob = false) (hevents : s.events = [.connected]) (hsent : s.sent = before)
    (hconsumed : s.consumed = replies) (href : s.refused = false) : Handles authInfo s (s.o.authFinished c) := by
  unfold BSocksClient.authFinished
  split
  · next hatyp =>
    refine .refuse fun hip => ?_
    cases haddr : s.o.destAddr with
    | none => simp [haddr, BAddr.isIp, BAddr.type] at hip
    | ipv4 | ipv6 =>
      rw [haddr] at hatyp
      cases hatyp
  · next atyp hatyp =>
    have hreq : request s.o.udp atyp s.o.destAddr = req s.o := by rw [req, hatyp]
    rw [hreq]
    exact sendMessage_handles (.request hauth) rfl hahead hsender hmtu hidle (req_length_le s.o) hjob hevents hsent hconsumed
      href

theorem receivedHello_handles (hauth : ValidAuth authInfo) {part : List UInt8}
    (hc : Complete s c [] 0 socksServerHelloSize part) (hstate : s.o.state = .sentHello) (hjob : s.o.continueJob = false)
    (hevents : s.events = [.connected]) (hsent : s.sent = hello authInfo) (href : s.refused = false) :
    Handles authInfo s (s.o.receivedHello authInfo c) := by
  have hconsumed : s.consumed = [s.o.buffer 0, s.o.buffer 1] := by
    rw [hc.consumed, ← hc.buffer]
    rfl
  unfold BSocksClient.receivedHello
  split
  · next hne =>
    refine .refuse fun _ t before addr hacc hle => hne ?_
    rw [hconsumed] at hle
    exact (hacc.hello_cases hle).1
  · next heq =>
    rw [not_not] at heq
    split
    · next hnone =>
      refine .refuse fun _ t before addr hacc hle => ?_
      rw [hconsumed] at hle
      rcases (hacc.hello_cases hle).2 with h | ⟨_, _, h, -⟩ <;> cases hnone.symm.trans h
    · next h =>
      have hmethod : s.o.buffer 1 = _ := chosen_none h
      rw [hmethod] at h
      refine authFinished_handles (.none h) (by rw [hstate]; decide) hc.sender hc.mtu hc.recvIf hjob hevents hsent ?_ href
      rw [hconsumed, heq, hmethod]
    · next username password h =>
      have hmethod : s.o.buffer 1 = _ := chosen_password h
      have hvalid := hauth.passwords username password (List.mem_of_find?_eq_some h)
      rw [if_neg (by omega)]
      rw [hmethod] at h
      refine sendMessage_handles (.password h) rfl (by rw [hstate]; decide) hc.sender hc.mtu hc.recvIf ?_ hjob hevents hsent
        ?_ href
      · simp only [passwordPacket, List.length_append, List.length_cons, List.length_nil, intMax]
        omega
      · rw [hconsumed, heq, hmethod]

theorem receivedPasswordReply_handles {username password part : List UInt8}
    (h : chosen authInfo socksMethodUsernamePassword = some (.password username password))
    (hc : Complete s c [socksVersion, socksMethodUsernamePassword] 0 2 part) (hstate : s.o.state = .sentPassword)
    (hjob : s.o.continueJob = false) (hevents : s.events = [.connected])
    (hsent : s.sent = hello authInfo ++ passwordPacket username password) (href : s.refused = false) :
    Handles authInfo s (s.o.receivedPasswordReply c) := by
  have hconsumed : s.consumed = [socksVersion, socksMethodUsernamePassword, s.o.buffer 0, s.o.buffer 1] := by
    rw [hc.consumed, ← hc.buffer]
    rfl
  have hreply : ∀ t before addr, Accepted authInfo t before addr → s.consumed <+: t →
      s.o.buffer 0 = 1 ∧ s.o.buffer 1 = 0 := by
    intro t before addr hacc hle
    rw [hconsumed] at hle
    rcases (hacc.hello_cases hle).2 with h' | ⟨_, _, -, h'⟩
    · cases h.symm.trans h'
    · exact h' _ _ [] rfl
  unfold BSocksClient.receivedPasswordReply
  split
  · next hne => exact .refuse fun _ t before addr hacc hle => hne (hreply t before addr hacc hle).1
  · next h₀ =>
    split
    · next hne => exact .refuse fun _ t before addr hacc hle => hne (hreply t before addr hacc hle).2
    · next h₁ =>
      rw [not_not] at h₀ h₁
      refine authFinished_handles (.password username password h) (by rw [hstate]; decide) hc.sender hc.mtu hc.recvIf hjob
        hevents hsent ?_ href
      rw [hconsumed, h₀, h₁]

theorem receivedHeader_handles {replies before part : List UInt8} (hauth : Authenticated authInfo replies before)
    (hc : Complete s c replies 0 socksReplyHeaderSize part) (hstate : s.o.state = .sentRequest)
    (hsize : s.o.bufferSize = some (replySize .sentRequest))
    (hjob : s.o.continueJob = false) (hevents : s.events = [.connected]) (hsent : s.sent = before ++ req s.o)
    (href : s.refused = false) : Handles authInfo s (s.o.receivedHeader c) := by
  have hconsumed : s.consumed = replies ++ [s.o.buffer 0, s.o.buffer 1, s.o.buffer 2, s.o.buffer 3] := by
    rw [hc.consumed, ← hc.buffer]
    rfl
  have hheader : ∀ t before addr, Accepted authInfo t before addr → s.consumed <+: t →
      s.o.buffer 0 = socksVersion ∧ s.o.buffer 1 = socksRepSucceeded ∧
        (s.o.buffer 3 = socksAtypIpv4 ∨ s.o.buffer 3 = socksAtypIpv6) := by
    intro t before addr hacc hle
    rw [hconsumed] at hle
    exact hacc.header_cases hauth hle
  have haddr : ∀ {bindAddr : BAddr} {total : Nat}, 0 < total →
      Reply authInfo {s.o with bindAddr := bindAddr} .receivedReplyHeader (before ++ req s.o) s.consumed
        socksReplyHeaderSize total →
      Handles authInfo s ((c.startReceive socksReplyHeaderSize total).map fun c =>
        ({s.o with bindAddr := bindAddr, control := some c, state := .receivedReplyHeader}, none)) :=
    fun {bindAddr total} hpos rp =>
      startReceive_handles (o := {s.o with bindAddr := bindAddr, state := .receivedReplyHeader}) hpos (rp.congr rfl rfl) rfl
        (by rw [hstate]; exact Nat.lt_add_one 1) hc.sender hc.mtu hc.recvIf hsize hjob hevents hsent rfl href
  unfold BSocksClient.receivedHeader
  split
  · next hne => exact .refuse fun _ t before addr hacc hle => hne (hheader t before addr hacc hle).1
  · next h₀ =>
    split
    · next hne => exact .refuse fun _ t before addr hacc hle => hne (hheader t before addr hacc hle).2.1
    · next h₁ =>
      rw [not_not] at h₀ h₁
      split
      · next h₃ =>
        refine haddr (by decide) ?_
        rw [hconsumed, h₀, h₁, h₃]
        exact .address4 hauth _ rfl
      · next hne₄ =>
        split
        · next h₃ =>
          refine haddr (by decide) ?_
          rw [hconsumed, h₀, h₁, h₃]
          exact .address6 hauth _ rfl
        · next hne₆ =>
          refine .refuse fun _ t before addr hacc hle => ?_
          exact (hheader t before addr hacc hle).2.2.elim hne₄ hne₆

/-- The client is up with the address that the server has sent. -/
theorem up_handles {before : List UInt8} {bindAddr : BAddr} (hacc : Accepted authInfo s.consumed before bindAddr)
    (hahead : 0 < s.o.state.left) (hjob : s.o.continueJob = false) (hevents : s.events = [.connected])
    (hsent : s.sent = before ++ req s.o) (href : s.refused = false) : Handles authInfo s
      (some ({s.o with bindAddr := bindAddr, bufferSize := none, control := none, state := .up}, some .up)) := by
  refine ⟨_, rfl, rfl, .inr ⟨.up rfl rfl hjob ?_ hacc hsent, ?_, .inl hahead⟩⟩
  · show s.events ++ [.up] = _
    rw [hevents]
    rfl
  · show (s.refused || false) = false
    rw [href]
    rfl

theorem receivedReply_handles {sent replies part : List UInt8} {dest total : Nat}
    (rp : Reply authInfo s.o .receivedReplyHeader sent replies dest total) (hc : Complete s c replies dest total part)
    (hstate : s.o.state = .receivedReplyHeader) (hjob : s.o.continueJob = false) (hevents : s.events = [.connected])
    (hsent : s.sent = sent) (href : s.refused = false) : Handles authInfo s s.o.receivedReply := by
  have hlength := hc.length
  have hbuffer := hc.buffer
  have hconsumed := hc.consumed
  have hahead : 0 < s.o.state.left := by
    rw [hstate]
    decide
  unfold BSocksClient.receivedReply
  cases rp with
  | address4 hauth rsv haddr =>
    obtain ⟨ip, port, hread, hpacked⟩ := readAddrIpv4_of_length hlength
    obtain ⟨_, _, hbind⟩ : ∃ ip port, s.o.bindAddr = .ipv4 ip port := by
      cases hb : s.o.bindAddr with
      | ipv4 ip port => exact ⟨ip, port, rfl⟩
      | none | ipv6 => simp [hb, BAddr.type] at haddr
    rw [hbind]
    dsimp only
    rw [hbuffer, hread]
    refine up_handles ?_ hahead hjob hevents hsent href
    rw [hconsumed, ← hpacked]
    exact .intro hauth rsv rfl
  | address6 hauth rsv haddr =>
    obtain ⟨ip, port, hread, hpacked⟩ := readAddrIpv6_of_length hlength
    obtain ⟨_, _, hbind⟩ : ∃ ip port, s.o.bindAddr = .ipv6 ip port := by
      cases hb : s.o.bindAddr with
      | ipv6 ip port => exact ⟨ip, port, rfl⟩
      | none | ipv4 => simp [hb, BAddr.type] at haddr
    rw [hbind]
    dsimp only
    rw [hbuffer, hread]
    refine up_handles ?_ hahead hjob hevents hsent href
    rw [hconsumed, ← hpacked]
    exact .intro hauth rsv rfl

/-- Bytes of a reply were received: more of it is to come, or it is complete. -/
theorem recvDone_handles (hauth : ValidAuth authInfo) (st : Stage authInfo s) (href : s.refused = false)
    (hcontrol : s.o.control = some c) {n : Nat} {recvIf : Transfer (Nat × Nat) Nat}
    (hdone : c.recvIf.jobDone = some (n, recvIf)) :
    Handles authInfo s (s.o.recvHandlerDone authInfo {c with recvIf := recvIf} n) := by
  have hn := Transfer.jobDone_eq hdone
  rw [hn] at hdone
  cases hdone
  cases st with
  | connecting _ hc | up _ hc => simp [hc] at hcontrol
  | connected _ hc =>
    cases hc.symm.trans hcontrol
    cases hn
  | sending _ _ _ hs =>
    cases hs.control.symm.trans hcontrol
    cases hs.recvIf.symm.trans hn
  | @receiving sent replies dest total _ part rp hr hjob hevents hsent =>
    cases hr.control.symm.trans hcontrol
    obtain ⟨hlen, hle⟩ := hr.pos.done hn
    unfold BSocksClient.recvHandlerDone
    rw [if_neg (by dsimp only; omega)]
    dsimp only
    by_cases hlt : c.recvLen + n < c.recvTotal
    · rw [if_pos hlt]
      exact doReceive_handles rp hr hn hlt hjob hevents hsent href
    · rw [if_neg hlt]
      have htotal : part.length = total := by
        rw [← hr.recvTotal]
        omega
      have hcomplete : Complete s {c with recvIf := .idle, recvLen := c.recvLen + n} replies dest total part :=
        ⟨hr.sender, hr.mtu, rfl, htotal, htotal ▸ hr.buffer, hr.consumed⟩
      have hsize := hr.size
      generalize hstate : s.o.state = state at rp hsize
      cases rp with
      | hello => exact receivedHello_handles hauth hcomplete hstate hjob hevents hsent href
      | password h => exact receivedPasswordReply_handles h hcomplete hstate hjob hevents hsent href
      | header h => exact receivedHeader_handles h hcomplete hstate hsize hjob hevents hsent href
      | address4 h rsv haddr =>
        exact receivedReply_handles (.address4 h rsv haddr) hcomplete hstate hjob hevents hsent href
      | address6 h rsv haddr =>
        exact receivedReply_handles (.address6 h rsv haddr) hcomplete hstate hjob hevents hsent href

theorem setDestAddr_stage (st : Stage authInfo s) (h : s.o.state = .connecting ∨ s.o.state = .connectedHandler)
    (destAddr : BAddr) : Stage authInfo {s with o := {s.o with destAddr := destAddr}} := by
  cases st with
  | connecting hstate hc hjob hevents hsent hconsumed => exact .connecting hstate hc hjob hevents hsent hconsumed
  | connected hstate hc hjob hevents hsent hconsumed => exact .connected hstate hc hjob hevents hsent hconsumed
  | sending _ _ ex =>
    generalize s.o.state = state at ex h
    cases ex <;> simp at h
  | receiving _ _ rp =>
    generalize s.o.state = state at rp h
    cases rp <;> simp at h
  | up hstate => simp [hstate] at h

/-- **Each step of a client that nothing went wrong with.** -/
theorem step_outcome (hauth : ValidAuth authInfo) (st : Stage authInfo s) (href : s.refused = false)
    (hlive : s.freed = false) {e : SocksInput} (hfree : e ≠ .free) (he : s.step authInfo e = some s') :
    Outcome authInfo s s' := by
  unfold SocksRun.step at he
  rw [if_neg (by simp [hlive]), if_neg (fun h => st.not_failed h.1)] at he
  cases e with
  | connectorResult => exact connectorHandler_outcome st href he
  | connectionEvent => exact connectionHandler_outcome href he
  | continueJob =>
    obtain ⟨c, hcontrol, he⟩ := Option.bind_eq_some_iff.mp he
    obtain ⟨hjob, he⟩ := Option.ite_none_right_eq_some.mp he
    exact (continueJob_handles hauth st href hcontrol hjob).outcome he
  | senderOperation =>
    obtain ⟨h, href'⟩ := onSender_stage st .inputOperation PacketStreamSender.inputOperation_mtu
      PacketStreamSender.Rest.inputOperation he
    exact .stage h (href'.trans href)
  | streamOperation =>
    obtain ⟨h, href'⟩ := onSender_stage st .outputOperation PacketStreamSender.outputOperation_mtu
      PacketStreamSender.Rest.outputOperation he
    exact .stage h (href'.trans href)
  | streamDone =>
    obtain ⟨h, href'⟩ := onSender_stage st .outputJobDone PacketStreamSender.outputJobDone_mtu
      PacketStreamSender.Rest.outputJobDone he
    exact .stage h (href'.trans href)
  | sendDone =>
    obtain ⟨c, hcontrol, he⟩ := Option.bind_eq_some_iff.mp he
    obtain ⟨input, hinput, he⟩ := Option.bind_eq_some_iff.mp he
    exact (sendDone_handles st href hcontrol hinput).outcome he
  | sent n =>
    obtain ⟨c, hcontrol, he⟩ := Option.bind_eq_some_iff.mp he
    obtain ⟨⟨bytes, sender⟩, hdone, rfl⟩ := Option.map_eq_some_iff.mp he
    exact .stage (sent_stage st hcontrol hdone) href
  | recvOperation =>
    obtain ⟨c, hcontrol, he⟩ := Option.bind_eq_some_iff.mp he
    obtain ⟨⟨op, recvIf⟩, hrecv, rfl⟩ := Option.map_eq_some_iff.mp he
    exact .stage (recvOperation_stage st hcontrol hrecv) href
  | received data =>
    obtain ⟨c, hcontrol, he⟩ := Option.bind_eq_some_iff.mp he
    split at he
    · next hbusy =>
      obtain ⟨hdata, heq⟩ := Option.ite_none_right_eq_some.mp he
      cases heq
      exact .stage (received_stage st hcontrol hbusy hdata.1 hdata.2) href
    · cases he
  | recvDone =>
    obtain ⟨c, hcontrol, he⟩ := Option.bind_eq_some_iff.mp he
    obtain ⟨⟨n, recvIf⟩, hdone, he⟩ := Option.bind_eq_some_iff.mp he
    exact (recvDone_handles hauth st href hcontrol hdone).outcome he
  | setDestAddr destAddr =>
    obtain ⟨hstate, heq⟩ := Option.ite_none_right_eq_some.mp he
    cases heq
    exact .stage (setDestAddr_stage st hstate destAddr) href
  | free => exact absurd rfl hfree

theorem inv_init (destAddr : BAddr) (udp : Bool) (buffer : Memory) : Inv authInfo (.init destAddr udp buffer) := by
  have st : Stage authInfo (.init destAddr udp buffer) := .connecting rfl rfl rfl rfl rfl rfl
  exact ⟨st.law rfl, fun _ _ => ⟨st, rfl⟩⟩

theorem step_inv (hauth : ValidAuth authInfo) (hinv : Inv authInfo s) {e : SocksInput} (he : s.step authInfo e = some s') :
    Inv authInfo s' := by
  have hlive : s.freed = false := by
    unfold SocksRun.step at he
    split at he
    · cases he
    · next h => exact eq_false_of_ne_true h
  by_cases hfree : e = .free
  · rw [hfree, SocksRun.step, if_neg (by simp [hlive]), if_neg (fun h => h.2 rfl)] at he
    cases he
    exact ⟨hinv.law.congr rfl rfl rfl rfl rfl rfl rfl, fun h => by cases h⟩
  · have hfailed : ¬s.Failed := by
      intro h
      unfold SocksRun.step at he
      rw [if_neg (by simp [hlive]), if_pos ⟨h, hfree⟩] at he
      cases he
    obtain ⟨st, href⟩ := hinv.stage hlive hfailed
    exact (step_outcome hauth st href hlive hfree he).inv st href

/-! ### Waiting for the server -/

/-- Events that do not depend on the server or the user. -/
def SocksInput.isOwn : SocksInput → Bool
  | .continueJob | .senderOperation | .streamOperation | .streamDone | .sendDone | .sent _ | .recvOperation
  | .recvDone => true
  | _ => false

/-- The client can only receive, or is up. -/
def Waiting (o : BSocksClient) : Prop := o.state = .up ∨ ∃ c op, o.control = some c ∧ c.recvIf = .busy op

/-- **A client that waits has said all that it has to say, and is up if it was accepted.** -/
theorem Stage.waiting (st : Stage authInfo s) (h : Waiting s.o) :
    s.sent = messages authInfo s ∧ ∀ before addr, Accepted authInfo s.consumed before addr → .up ∈ s.events := by
  have law := fun href => st.law href
  cases st with
  | connecting hstate hc =>
    rcases h with h | ⟨c, op, h, -⟩
    · simp [hstate] at h
    · cases hc.symm.trans h
  | connected hstate hc =>
    rcases h with h | ⟨c, op, h, hop⟩
    · simp [hstate] at h
    · cases hc.symm.trans h
      cases hop
  | sending c got ex hs =>
    rcases h with h | ⟨c, op, h, hop⟩
    · rw [h] at ex
      cases ex
    · cases hs.control.symm.trans h
      cases hs.recvIf.symm.trans hop
  | @receiving _ _ _ total c part rp hr _ _ hsent =>
    have hlt : part.length < total := by
      rcases h with h | ⟨c, op, h, hop⟩
      · rw [h] at rp
        cases rp
      · cases hr.control.symm.trans h
        have hpos := hr.pos
        generalize part.length = k at hpos
        rw [← hr.recvTotal]
        cases hpos with
        | asked _ hlt => exact hlt
        | arrived _ h => cases h.symm.trans hop
    refine ⟨?_, fun before addr hacc => ?_⟩
    · rw [hsent, messages, hr.consumed]
      exact rp.settled hlt
    · rw [hr.consumed] at hacc
      exact absurd (rp.exact hr.part_le hacc List.prefix_rfl).2 (Nat.ne_of_lt hlt)
  | up _ _ _ hevents hacc hsent =>
    refine ⟨?_, fun _ _ _ => by simp [hevents]⟩
    rw [hsent, messages]
    generalize s.consumed = consumed at hacc
    cases hacc with
    | intro hauth => rw [List.append_assoc, hauth.answer]

/-- What is received lies within the buffer. -/
theorem Stage.inBuffer (st : Stage authInfo s) (hcontrol : s.o.control = some c) {place n : Nat}
    (hbusy : c.recvIf = .busy (place, n)) : ∃ size, s.o.bufferSize = some size ∧ place + n ≤ size := by
  cases st with
  | connecting _ hc | up _ hc => simp [hc] at hcontrol
  | connected _ hc =>
    cases hc.symm.trans hcontrol
    cases hbusy
  | sending _ _ _ hs =>
    cases hs.control.symm.trans hcontrol
    cases hs.recvIf.symm.trans hbusy
  | receiving _ part rp hr =>
    cases hr.control.symm.trans hcontrol
    refine ⟨_, hr.size, Nat.le_trans ?_ rp.fits⟩
    have hpos := hr.pos
    generalize part.length = k at hpos
    rw [← hr.recvDest, ← hr.recvTotal]
    cases hpos with
    | asked h hlt =>
      rcases h with h | h
      · cases h.symm.trans hbusy
      · cases h.symm.trans hbusy
        omega
    | arrived _ h => cases h.symm.trans hbusy

theorem Control.left_of_at (hidle : c.recvIf = .idle) {message got : List UInt8} (h : c.sendSender.At message got) :
    c.left = c.sendSender.todo message := by
  unfold Control.left
  rw [hidle]
  cases h with
  | requested hin | sending hin | busy hin | sent _ hin =>
    dsimp only
    rw [hin]
  | finished hin =>
    dsimp only
    rw [hin, PacketStreamSender.todo, hin]

/-- One step on the way to waiting. -/
def Advances (authInfo : List AuthInfo) (s : SocksRun) : Prop :=
  ∃ e s', SocksInput.isOwn e = true ∧ s.step authInfo e = some s' ∧ s'.consumed = s.consumed ∧ s'.freed = s.freed ∧
    s'.o.destAddr = s.o.destAddr ∧ (s'.refused = true ∨ Stage authInfo s' ∧ s'.refused = false ∧ Ahead s.o s'.o)

theorem Handles.advances {handler : Option Handled} (h : Handles authInfo s handler) {e : SocksInput}
    (hown : e.isOwn = true) (he : s.step authInfo e = handler.map s.decided) : Advances authInfo s := by
  obtain ⟨r, hr, hdest, h⟩ := h
  rw [hr] at he
  refine ⟨e, _, hown, he, rfl, rfl, hdest, ?_⟩
  rcases h with ⟨href, -⟩ | h
  · exact .inl href
  · exact .inr h

/-- The sender gets on with its message. -/
theorem sending_advances {message before replies got : List UInt8} {sender : PacketStreamSender}
    (ex : Exchange authInfo s.o s.o.state message before replies) (hs : Sending s c message got)
    (hjob : s.o.continueJob = false) (hevents : s.events = [.connected]) (hconsumed : s.consumed = replies)
    (href : s.refused = false) {more : List UInt8} (hsent : s.sent ++ more = before ++ (got ++ more))
    (hat : sender.At message (got ++ more)) (hmtu : sender.input.mtu = c.sendSender.input.mtu)
    (htodo : sender.todo message < c.sendSender.todo message) {e : SocksInput} (hown : e.isOwn = true)
    (he : s.step authInfo e = some {s.setControl {c with sendSender := sender} with sent := s.sent ++ more}) :
    Advances authInfo s := by
  refine ⟨e, _, hown, he, rfl, rfl, rfl, .inr ⟨?_, href, .inr ⟨rfl, ?_⟩⟩⟩
  · exact .sending _ (got ++ more) (ex.congr rfl) ⟨rfl, hs.recvIf, hmtu.trans hs.mtu, hat⟩ hjob hevents hsent hconsumed
  · show Control.left _ < s.o.control.elim 0 Control.left
    rw [hs.control, Control.left_of_at (c := {c with sendSender := sender}) hs.recvIf hat]
    exact htodo.trans_le (Control.left_of_at hs.recvIf hs.sender).symm.le

theorem step_live (hlive : s.freed = false) (hfailed : ¬s.Failed) :
    ¬s.freed = true ∧ ∀ e : SocksInput, ¬(s.Failed ∧ e ≠ .free) :=
  ⟨by simp [hlive], fun _ h => hfailed h.1⟩

/-- **Something of its own is left to do for a client that does not wait.** -/
theorem Stage.advances (hauth : ValidAuth authInfo) (st : Stage authInfo s) (href : s.refused = false)
    (hlive : s.freed = false) (hstate : s.o.state ≠ .connecting) (hnot : ¬Waiting s.o) : Advances authInfo s := by
  obtain ⟨hl, hf⟩ := step_live hlive st.not_failed
  have st' := st
  cases st with
  | connecting hc => exact absurd hc hstate
  | connected _ hc hjob =>
    refine (continueJob_handles hauth st' href hc hjob).advances (e := .continueJob) rfl ?_
    rw [SocksRun.step, if_neg hl, if_neg (hf _), hc]
    exact if_pos hjob
  | @sending _ before _ c got ex hs hjob hevents hsent hconsumed =>
    have hnil : s.sent ++ [] = before ++ (got ++ []) := by rw [List.append_nil, List.append_nil, hsent]
    rcases hs.sender.progress with ⟨sender, h, htodo⟩ | ⟨sender, h, htodo⟩ | ⟨n, bytes, sender, h, htodo⟩ |
      ⟨sender, h, htodo⟩ | ⟨input, h⟩
    · refine sending_advances (e := .senderOperation) ex hs hjob hevents hconsumed href hnil ?_
        (PacketStreamSender.inputOperation_mtu h) htodo rfl ?_
      · rw [List.append_nil]
        exact hs.sender.inputOperation h
      · rw [SocksRun.step, if_neg hl, if_neg (hf _)]
        simp [SocksRun.onSender, hs.control, h]
        rfl
    · refine sending_advances (e := .streamOperation) ex hs hjob hevents hconsumed href hnil ?_
        (PacketStreamSender.outputOperation_mtu h) htodo rfl ?_
      · rw [List.append_nil]
        exact hs.sender.outputOperation h
      · rw [SocksRun.step, if_neg hl, if_neg (hf _)]
        simp [SocksRun.onSender, hs.control, h]
        rfl
    · refine sending_advances (e := .sent n) ex hs hjob hevents hconsumed href ?_ (hs.sender.outputDone h)
        (PacketStreamSender.outputDone_mtu h) htodo rfl ?_
      · rw [hsent, List.append_assoc]
      · rw [SocksRun.step, if_neg hl, if_neg (hf _)]
        simp [hs.control, h]
    · refine sending_advances (e := .streamDone) ex hs hjob hevents hconsumed href hnil ?_
        (PacketStreamSender.outputJobDone_mtu h) htodo rfl ?_
      · rw [List.append_nil]
        exact hs.sender.outputJobDone h
      · rw [SocksRun.step, if_neg hl, if_neg (hf _)]
        simp [SocksRun.onSender, hs.control, h]
        rfl
    · refine (sendDone_handles st' href hs.control h).advances (e := .sendDone) rfl ?_
      rw [SocksRun.step, if_neg hl, if_neg (hf _), hs.control]
      simp [h]
  | receiving c part rp hr hjob hevents hsent =>
    have hpos := hr.pos
    generalize hk : part.length = k at hpos
    cases hpos with
    | asked h hlt =>
      rcases h with h | h
      · have hop : c.recvIf.jobOperation = some
            ((c.recvDest + c.recvLen, c.recvTotal - c.recvLen), .busy (c.recvDest + c.recvLen, c.recvTotal - c.recvLen)) := by
          rw [h]
          rfl
        refine ⟨.recvOperation, s.setControl {c with recvIf := .busy _}, rfl, ?_, rfl, rfl, rfl,
          .inr ⟨recvOperation_stage st' hr.control hop, href, .inr ⟨rfl, ?_⟩⟩⟩
        · rw [SocksRun.step, if_neg hl, if_neg (hf _)]
          simp [hr.control, hop]
        · simp [BSocksClient.left, SocksRun.setControl, hr.control, Control.left, h]
      · exact absurd (.inr ⟨c, _, hr.control, h⟩) hnot
    | arrived n h =>
      have hdone : c.recvIf.jobDone = some (n, .idle) := by
        rw [h]
        rfl
      refine (recvDone_handles hauth st' href hr.control hdone).advances (e := .recvDone) rfl ?_
      rw [SocksRun.step, if_neg hl, if_neg (hf _), hr.control]
      simp [hdone]
  | up hup => exact absurd (.inl hup) hnot

theorem left_connecting {state : SocksState} (h : SocksState.connecting.left ≤ state.left) : state = .connecting := by
  cases state <;> first | rfl | exact absurd h (by decide)

/-- On its own the client comes to wait for the server, or it refuses what it has got. -/
theorem Stage.settles {s : SocksRun} (hauth : ValidAuth authInfo) (st : Stage authInfo s) (href : s.refused = false)
    (hlive : s.freed = false) (hstate : s.o.state ≠ .connecting) :
    ∃ es s', (∀ e ∈ es, SocksInput.isOwn e = true) ∧ Run.run (SocksRun.step authInfo) s es = some s' ∧
      s'.consumed = s.consumed ∧ s'.o.destAddr = s.o.destAddr ∧
      (s'.refused = true ∨ Stage authInfo s' ∧ Waiting s'.o) := by
  by_cases hwait : Waiting s.o
  · exact ⟨[], s, nofun, rfl, rfl, rfl, .inr ⟨st, hwait⟩⟩
  · obtain ⟨e, s₁, hown, he, hconsumed, hfreed, hdest, h⟩ := st.advances hauth href hlive hstate hwait
    rcases h with href₁ | ⟨st₁, href₁, hahead⟩
    · refine ⟨[e], s₁, by simpa using hown, ?_, hconsumed, hdest, .inl href₁⟩
      rw [Run.run, he]
      rfl
    · have hstate₁ : s₁.o.state ≠ .connecting := by
        intro h
        rcases hahead with hlt | ⟨heq, -⟩
        · rw [h] at hlt
          exact hstate (left_connecting hlt.le)
        · exact hstate (heq.symm.trans h)
      have hlex : Prod.Lex (· < ·) (· < ·) (s₁.o.state.left, s₁.o.left) (s.o.state.left, s.o.left) := by
        rw [Prod.lex_def]
        rcases hahead with hlt | ⟨heq, hlt⟩
        · exact .inl hlt
        · exact .inr ⟨congrArg SocksState.left heq, hlt⟩
      obtain ⟨es, s', hes, hrun, hconsumed', hdest', h⟩ := Stage.settles hauth st₁ href₁ (hfreed.trans hlive) hstate₁
      refine ⟨e :: es, s', ?_, ?_, hconsumed'.trans hconsumed, hdest'.trans hdest, h⟩
      · simpa [hown] using hes
      · rw [Run.run, he]
        exact hrun
termination_by (s.o.state.left, s.o.left)
decreasing_by exact hlex

/-- **The SOCKS client.** In every run the law holds. While the replies may be those of an accepting
server, a connected client comes on its own to wait for the rest of them. A client that waits has
sent all its messages, and it is up exactly if it has all the replies of an accepting server. It
receives into its buffer. A client that was freed does nothing. -/
theorem bSocksClient_correct (hauth : ValidAuth authInfo) (destAddr : BAddr) (udp : Bool) (buffer : Memory)
    {es : List SocksInput} (hrun : Run.run (SocksRun.step authInfo) (.init destAddr udp buffer) es = some s) :
    Law authInfo s ∧
      (s.freed = false → ¬s.Failed → s.o.state ≠ .connecting → s.o.destAddr.isIp →
        ∀ t before addr, Accepted authInfo t before addr → s.consumed <+: t →
          ∃ own s', (∀ e ∈ own, SocksInput.isOwn e = true) ∧ Run.run (SocksRun.step authInfo) s own = some s' ∧
            s'.consumed = s.consumed ∧ ¬s'.Failed ∧ Waiting s'.o) ∧
      (s.freed = false → ¬s.Failed → Waiting s.o →
        s.sent = messages authInfo s ∧ (.up ∈ s.events ↔ ∃ before addr, Accepted authInfo s.consumed before addr)) ∧
      (s.freed = false → ¬s.Failed → ∀ c place n, s.o.control = some c → c.recvIf = .busy (place, n) →
        ∃ size, s.o.bufferSize = some size ∧ place + n ≤ size) ∧
      (s.freed = true → ∀ e, s.step authInfo e = none) := by
  have hinv : Inv authInfo s := Run.run_invariant (Inv authInfo) (fun _ _ _ h => step_inv hauth h) hrun (inv_init ..)
  refine ⟨hinv.law, ?_, ?_, ?_, fun h e => if_pos h⟩
  · intro hlive hfailed hstate hip t before addr hacc hle
    obtain ⟨st, href⟩ := hinv.stage hlive hfailed
    obtain ⟨own, s', hown, hrun', hconsumed, hdest, h⟩ := st.settles hauth href hlive hstate
    refine ⟨own, s', hown, hrun', hconsumed, ?_⟩
    rcases h with href' | ⟨st', hwait⟩
    · have hinv' : Inv authInfo s' := Run.run_invariant (Inv authInfo) (fun _ _ _ h => step_inv hauth h) hrun' hinv
      refine absurd (hconsumed ▸ hle) (hinv'.law.refused href' ?_ t before addr hacc)
      rw [hdest]
      exact hip
    · exact ⟨st'.not_failed, hwait⟩
  · intro hlive hfailed hwait
    obtain ⟨st, -⟩ := hinv.stage hlive hfailed
    obtain ⟨hsent, hup⟩ := st.waiting hwait
    refine ⟨hsent, fun h => ?_, fun ⟨before, addr, hacc⟩ => hup before addr hacc⟩
    obtain ⟨before, hacc, -⟩ := hinv.law.up h
    exact ⟨before, _, hacc⟩
  · intro hlive hfailed c place n hcontrol hbusy
    exact (hinv.stage hlive hfailed).1.inBuffer hcontrol hbusy

/-- A server chooses the password, the messages are sent in several writes, and the replies come
in parts. -/
def passwordHandshake : List SocksInput :=
  [.connectorResult false true, .continueJob, .senderOperation, .streamOperation, .sent 4, .streamDone, .sendDone,
    .recvOperation, .received [5], .recvDone, .recvOperation, .received [2], .recvDone,
    .senderOperation, .streamOperation, .sent 2, .streamDone, .streamOperation, .sent 3, .streamDone, .sendDone,
    .recvOperation, .received [1, 0], .recvDone, .senderOperation, .streamOperation, .sent 10, .streamDone, .sendDone,
    .recvOperation, .received [5, 0, 0], .recvDone, .recvOperation, .received [1], .recvDone,
    .recvOperation, .received [10, 0, 0, 1], .recvDone, .recvOperation, .received [31, 144], .recvDone]

theorem bSocksClient_correct_password :
    ∃ s, Run.run (SocksRun.step [.none, .password [117] [112]]) (.init (.ipv4 16909060 80) false fun _ => 0)
        passwordHandshake = some s ∧
      Law [.none, .password [117] [112]] s ∧ s.events = [.connected, .up] ∧
        s.o.bindAddr.packed = [10, 0, 0, 1, 31, 144] := by
  have hauth : ValidAuth [.none, .password [117] [112]] := by
    refine ⟨by decide, by decide, fun username password h => ?_⟩
    cases h with
    | tail _ h =>
      cases h with
      | head => decide
      | tail _ h => cases h
  obtain ⟨s, hrun, h⟩ := (Option.any_eq_true _ _).mp (by decide +kernel :
    (Run.run (SocksRun.step [.none, .password [117] [112]]) (.init (.ipv4 16909060 80) false fun _ => 0)
        passwordHandshake).any
      (fun s => s.events = [.connected, .up] ∧ s.o.bindAddr.packed = [10, 0, 0, 1, 31, 144]) = true)
  exact ⟨s, hrun, (bSocksClient_correct hauth _ _ _ hrun).1, of_decide_eq_true h⟩

end TwilightLine.Socks
