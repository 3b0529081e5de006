import TwilightLine.Tun2socks.TcpClientActions

/-! The handlers of a TCP client, as sequences of actions.

One lemma for each function of `tun2socks.c`: from a client at rest, or at the
point of a handler where the function is called, it does actions only and leaves the
client at rest. The closing functions come first, since every other handler may end
in them; `Finishes` is what all of them do. The loop that writes to lwIP is summed up
by the number of bytes it got rid of (`sendOutLoop_spec`). -/
namespace TwilightLine.Tcp

open Trace

variable {r : LwipResults} {w : World}

/-! ### Closing -/

theorem Core.setClientClosed (h : Core w) : Core (setClientClosed w) := {h with}

theorem Core.setSocksClosed (h : Core w) : Core (setSocksClosed w) :=
  {h with
    socksAlive := rfl
    sending := fun hs => Bool.noConfusion hs
    sendingPrefix := fun _ hd => nomatch hd
    socksFreed := fun _ => ⟨rfl, rfl⟩
    receiving := fun hr => Bool.noConfusion hr}

theorem Core.clientAbortPcb (h : Core w) (hnot : w.cl.aborted = false) : Core (clientAbortPcb w) := by
  rw [clientAbortPcb_eq hnot]
  exact {h with}

/-- There is a client to be counted. -/
theorem Core.numClients_pos (h : Core w) (hal : w.allocated = true) : 0 < w.numClients := by
  rw [h.counted]
  exact_mod_cast List.length_pos_of_mem (h.listed.2 hal)

theorem Core.clientDealloc (h : Core w) (hc : w.cl.clientClosed = true) (hs : w.cl.socksClosed = true)
    (hal : w.allocated = true) : Core (clientDealloc w) := by
  have hmem := h.listed.2 hal
  rw [clientDealloc_eq hc hs (h.numClients_pos hal)]
  refine {h with nodup := h.nodup.erase _, listed := ?_, counted := ?_}
  · simp [h.nodup.not_mem_erase]
  · have := List.length_pos_of_mem hmem
    simp only [List.length_erase_of_mem hmem, h.counted]
    omega

/-- With both flags set the client is freed, and at rest. -/
theorem Core.clientDealloc_acts (h : Core w) (hc : w.cl.clientClosed = true) (hs : w.cl.socksClosed = true)
    (hal : w.allocated = true) (hp : w.pcb.alive = false) :
    Act w (Tcp.clientDealloc w) ∧ AtRest (Tcp.clientDealloc w) := by
  have hnum := h.numClients_pos hal
  refine ⟨.dealloc hc hs hal hnum, h.clientDealloc hc hs hal, ?_, ?_, ?_⟩
  all_goals
    rw [clientDealloc_eq hc hs hnum]
    simp [hc, hs, hp]

/-- What the closing functions make of `w`: actions, and a client at rest. -/
def Finishes (w w' : World) : Prop := Acts w w' ∧ AtRest w'

theorem Act.finishes {w₁ w₂ : World} (h : Act w w₁) (hf : Finishes w₁ w₂) : Finishes w w₂ :=
  ⟨.head h hf.1, hf.2⟩

theorem clientFreeSocks_closed (h : Core w) (hc : w.cl.clientClosed = true) (hs : w.cl.socksClosed = false)
    (hal : w.allocated = true) (hp : w.pcb.alive = false) (hmay : MayFreeSocks w) :
    Finishes w (clientFreeSocks r w) := by
  have hw : clientFreeSocks r w = clientDealloc (setSocksClosed w) := by
    rw [clientFreeSocks]
    simp [stopSocks, setSocksClosed, bSocksClientFree, World.log, hc, hs]
  rw [hw]
  obtain ⟨hact, hrest⟩ := h.setSocksClosed.clientDealloc_acts hc rfl hal hp
  exact ⟨.tail (.single (.closeSocks hs hal hmay)) hact, hrest⟩

/-- `client_handle_freed_client`, whichever way it goes. -/
theorem clientHandleFreedClient_finishes (h : Core w) (hopen : w.cl.clientClosed = false)
    (hal : w.allocated = true) (hp : w.pcb.alive = false) :
    Finishes w (clientHandleFreedClient r w) := by
  refine Act.finishes (.closeClient hopen hal) ?_
  rw [clientHandleFreedClient, assert_not hopen]
  have h' := h.setClientClosed
  by_cases hs : w.cl.socksClosed = true
  · obtain ⟨hact, hrest⟩ := h'.clientDealloc_acts rfl hs hal hp
    simpa [hs] using ⟨hact.acts, hrest⟩
  · rw [Bool.not_eq_true] at hs
    by_cases hb : w.cl.buf = []
    · simpa [hs, hb] using clientFreeSocks_closed h' rfl hs hal hp (.inl hb)
    · rw [if_pos ⟨hb, hs⟩]
      exact ⟨.refl, h', by simp [setClientClosed, World.log, hal, hs], nofun, fun _ => ⟨hp, fun _ => hb⟩⟩

theorem removeCallbacks_acts (hopen : w.cl.clientClosed = false) : Acts w (removeCallbacks w) :=
  .tail (.tail (.single (.lwip hopen rfl)) (.lwip hopen rfl)) (.lwip hopen rfl)

/-- An open client whose pcb can be used. -/
structure Live (w : World) : Prop extends Core w where
  isOpen : w.cl.clientClosed = false
  notAborted : w.cl.aborted = false
  allocated : w.allocated = true

theorem Live.removeCallbacks (h : Live w) : Live (removeCallbacks w) := {h with}

theorem clientAbortClient_finishes (h : Live w) : Finishes w (clientAbortClient r w) := by
  rw [clientAbortClient, assert_not h.isOpen]
  have h' := h.removeCallbacks
  have hf : Finishes (clientAbortPcb (removeCallbacks w))
      (clientHandleFreedClient r (clientAbortPcb (removeCallbacks w))) := by
    refine clientHandleFreedClient_finishes (h'.toCore.clientAbortPcb h'.notAborted) ?_ ?_ ?_
    all_goals rw [clientAbortPcb_eq h'.notAborted]
    · exact h.isOpen
    · exact h.allocated
  exact ⟨(removeCallbacks_acts h.isOpen).trans
    (.head (.abort h'.isOpen h'.notAborted h'.allocated) hf.1), hf.2⟩

theorem clientFreeClient_finishes (h : Live w)
    (hdone : w.cl.socksClosed = true → unwritten w.cl = [] ∧ w.cl.socksRecvTcpPending = 0) :
    Finishes w (clientFreeClient r w) := by
  rw [clientFreeClient, assert_not h.isOpen, closePcb]
  have h' := h.removeCallbacks
  have hclose : Act (removeCallbacks w) (tcpClose (removeCallbacks w) r) := .close h.isOpen hdone
  have hcore : Core (tcpClose (removeCallbacks w) r) := {h'.toCore with}
  have hacts := (removeCallbacks_acts h.isOpen).tail hclose
  suffices hf : Finishes (tcpClose (removeCallbacks w) r) _ from ⟨hacts.trans hf.1, hf.2⟩
  by_cases hr : r.close = .ok
  · rw [if_neg (not_not.2 hr)]
    exact clientHandleFreedClient_finishes hcore h.isOpen h.allocated (by simp [tcpClose, hr])
  · rw [if_pos hr]
    refine Act.finishes (.abort h.isOpen h.notAborted h.allocated) ?_
    have hnot : (tcpClose (removeCallbacks w) r).cl.aborted = false := h.notAborted
    refine clientHandleFreedClient_finishes (hcore.clientAbortPcb hnot) ?_ ?_ ?_
    all_goals rw [clientAbortPcb_eq hnot]
    · exact h.isOpen
    · exact h.allocated

theorem AtRest.live (h : AtRest w) (hopen : w.cl.clientClosed = false) : Live w :=
  {h.toCore with
    isOpen := hopen
    notAborted := (h.ofOpen hopen).notAborted
    allocated := by simp [h.allocated, hopen]}

/-- A client that is owed nothing has all its data written and acknowledged. -/
theorem Core.done_of_not_owes (h : Core w) (howes : owesClient w = false) :
    unwritten w.cl = [] ∧ w.cl.socksRecvTcpPending = 0 := by
  cases hup : w.cl.socksUp
  · have := h.notUp hup
    exact ⟨if_neg (by omega), this.2⟩
  · simp only [owesClient, hup, Bool.true_and, Bool.or_eq_false_iff, decide_eq_false_iff_not] at howes
    exact ⟨if_neg (by omega), by omega⟩

/-- `client_free_socks` with the client open, after the SOCKS client is freed: it waits
for lwIP if the client is owed data, and closes the pcb if not. -/
theorem setSocksClosed_finishes {w : World} (h : Live w) (hs : w.cl.socksClosed = false) (hmay : MayFreeSocks w)
    (howed : owesClient w = true → AtRest (setSocksClosed w)) :
    Finishes w (if owesClient (setSocksClosed w) && !(setSocksClosed w).cl.clientClosed then setSocksClosed w
      else if !(setSocksClosed w).cl.clientClosed then clientFreeClient r (setSocksClosed w)
      else clientDealloc (setSocksClosed w)) := by
  have hopen : (setSocksClosed w).cl.clientClosed = false := h.isOpen
  have howes : owesClient (setSocksClosed w) = owesClient w := rfl
  rw [howes, hopen]
  cases ho : owesClient w
  · exact Act.finishes (.closeSocks hs h.allocated hmay)
      (clientFreeClient_finishes {h.toCore.setSocksClosed, h with} fun _ => h.toCore.done_of_not_owes ho)
  · exact ⟨.single (.closeSocks hs h.allocated hmay), howed ho⟩

/-- `client_free_socks` between events. -/
theorem clientFreeSocks_finishes (h : AtRest w) (hs : w.cl.socksClosed = false) (hmay : MayFreeSocks w) :
    Finishes w (clientFreeSocks r w) := by
  cases hopen : w.cl.clientClosed
  swap
  · exact clientFreeSocks_closed h.toCore hopen hs (by simp [h.allocated, hs]) (h.ofClosed hopen).1 hmay
  have ho := h.ofOpen hopen
  have hl := h.live hopen
  rw [clientFreeSocks, stopSocks, assert_not hs]
  cases hup : w.cl.socksUp
  · simp only [Bool.false_and, Bool.false_eq_true, if_false]
    refine setSocksClosed_finishes hl hs hmay fun howes => ?_
    simp [owesClient, hup] at howes
  · simp only [hopen, Bool.not_false, Bool.and_self, if_true]
    have hl' : Live (tcpRecv w false) := {hl with}
    have hmay' : MayFreeSocks (tcpRecv w false) :=
      hmay.imp_right (.imp (List.mem_append_left _) (List.mem_append_left _))
    obtain ⟨hacts, hrest⟩ := setSocksClosed_finishes (r := r) hl' hs hmay' fun howes =>
      ⟨hl'.toCore.setSocksClosed, by simp [setSocksClosed, bSocksClientFree, tcpRecv, World.log, hl.allocated, hopen],
        fun _ => {ho with recv := rfl, owed := fun _ => howes}, fun hc => by
          rw [show (setSocksClosed (tcpRecv w false)).cl.clientClosed = w.cl.clientClosed from rfl, hopen] at hc
          cases hc⟩
    exact ⟨.head (.lwip hopen rfl) hacts, hrest⟩

/-! ### Handlers that end in closing -/

theorem AtRest.open_of_alive (h : AtRest w) (hp : w.pcb.alive = true) : w.cl.clientClosed = false := by
  cases hc : w.cl.clientClosed
  · rfl
  · rw [(h.ofClosed hc).1] at hp
    cases hp

theorem clientErrFunc_finishes (h : AtRest w) (hp : w.pcb.alive = true) :
    Finishes w (clientErrFunc r {w with pcb := {w.pcb with alive := false}}) := by
  have hopen := h.open_of_alive hp
  rw [clientErrFunc, assert_not hopen]
  refine Act.finishes (.setPcb w {w.pcb with alive := false}) ?_
  exact clientHandleFreedClient_finishes {h.toCore with} hopen (h.live hopen).allocated rfl

/-! ### Entering and leaving a callback -/

/-- The markers of callbacks have no part in the fields' relations. -/
theorem AtRest.remark (h : AtRest w) (deadAborted : Option FrameId) (frames : List Frame) (nextFrame : FrameId)
    (trace : List Ev) :
    AtRest {w with cl := {w.cl with deadAborted}, frames, nextFrame, trace} :=
  {h with ofOpen := fun ho => {h.ofOpen ho with}, ofClosed := h.ofClosed}

theorem AtRest.log (h : AtRest w) (e : Ev) : AtRest (w.log e) := h.remark _ _ _ _

theorem callbackEnter_atRest (h : AtRest w) : AtRest (callbackEnter w) := h.remark _ _ _ _

theorem deadLeave_eq (w : World) (fr : Frame) (rest : List Frame) :
    deadLeave w fr rest = {w with
      cl := {w.cl with deadAborted := (deadLeave w fr rest).cl.deadAborted}
      frames := (deadLeave w fr rest).frames
      trace := (deadLeave w fr rest).trace} := by
  unfold deadLeave
  split <;> cases fr.prev <;> rfl

theorem deadLeave_ret_atRest (h : AtRest w) (fr : Frame) (rest : List Frame) (e : Ev) :
    AtRest ((deadLeave w fr rest).log e) := by
  rw [deadLeave_eq]
  exact h.remark _ _ _ _

theorem callbackReturn_finishes (h : AtRest w) : Finishes w (callbackReturn w) := by
  refine ⟨.single .ret, ?_⟩
  unfold callbackReturn
  split
  · exact h
  · exact deadLeave_ret_atRest h ..

/-- The second half of `client_murder`. -/
theorem clientMurder_socks (h : Core w) (hc : w.cl.clientClosed = true) (hal : w.allocated = true)
    (hp : w.pcb.alive = false) (hmurdered : .murdered ∈ w.trace) :
    Finishes w (clientDealloc (if w.cl.socksClosed then w else setSocksClosed w)) := by
  cases hs : w.cl.socksClosed
  · obtain ⟨hact, hrest⟩ := h.setSocksClosed.clientDealloc_acts hc rfl hal hp
    exact Act.finishes (.closeSocks hs hal (.inr (.inr hmurdered))) ⟨hact.acts, hrest⟩
  · obtain ⟨hact, hrest⟩ := h.clientDealloc_acts hc hs hal hp
    exact ⟨hact.acts, hrest⟩

theorem mem_clientAbortPcb {e : Ev} (hnot : w.cl.aborted = false) (he : e ∈ w.trace) :
    e ∈ (clientAbortPcb w).trace := by
  simp only [clientAbortPcb, assert_not hnot]
  cases hptr : w.cl.deadAborted <;> simp [writeDead, tcpAbort, World.log, hptr, he]

theorem clientMurder_finishes (h : AtRest w) (hmem : w.self ∈ w.tcpClients) : Finishes w (clientMurder w) := by
  refine Act.finishes .murdered ?_
  have hal := h.listed.1 hmem
  have hmurdered : .murdered ∈ (w.log .murdered).trace := List.mem_append_right _ (List.mem_singleton_self _)
  cases hopen : w.cl.clientClosed
  · have hl := ((h.log .murdered).live hopen).removeCallbacks
    simp only [clientMurder, show (w.log .murdered).cl.clientClosed = false from hopen, Bool.false_eq_true, if_false]
    have hf : Finishes (clientAbortPcb (removeCallbacks (w.log .murdered))) _ :=
      Act.finishes (.closeClient (by rw [clientAbortPcb_eq hl.notAborted]; exact hopen)
          (by rw [clientAbortPcb_eq hl.notAborted]; exact hal))
        (clientMurder_socks (hl.toCore.clientAbortPcb hl.notAborted).setClientClosed rfl
          (by rw [clientAbortPcb_eq hl.notAborted]; exact hal)
          (by rw [clientAbortPcb_eq hl.notAborted]; rfl)
          (List.mem_append_left _ (mem_clientAbortPcb hl.notAborted
            (by simp [removeCallbacks, tcpErr, tcpRecv, tcpSent, World.log]))))
    exact ⟨(removeCallbacks_acts (w := w.log .murdered) hopen).trans
      (.head (.abort hl.isOpen hl.notAborted hl.allocated) hf.1), hf.2⟩
  · simp only [clientMurder, show (w.log .murdered).cl.clientClosed = true from hopen, if_true]
    exact clientMurder_socks (h.log .murdered).toCore hopen hal (h.ofClosed hopen).1 hmurdered

/-! ### From the client to SOCKS -/

/-- The pbuf is appended to `buf`, and sending starts where nothing was being sent. -/
theorem AtRest.recv_data (h : AtRest w) (hopen : w.cl.clientClosed = false) (hs : w.cl.socksClosed = false)
    {data : List UInt8} (hdata : data ≠ []) (hfit : w.cl.buf.length + data.length ≤ tcpWnd) :
    Finishes w (
      let w : World := {w.log (.accepted data) with cl := {w.cl with buf := w.cl.buf ++ data}}
      if w.cl.buf.length = data.length ∧ w.cl.socksUp then
        clientSendToSocks (w.assert (!w.cl.socksClosed))
      else w) := by
  refine Act.finishes (.accept hopen hfit) ?_
  have ho := h.ofOpen hopen
  have hne : w.cl.buf ++ data ≠ [] := by simp [hdata]
  have hbuf : (w.cl.buf ++ data).length = data.length ↔ w.cl.buf = [] := by simp [← List.length_eq_zero_iff]
  dsimp only
  split
  · next hc =>
    obtain ⟨hb, hup⟩ := hc
    simp only [clientSendToSocks, assert_not hs, assert_of hup, assert_decide hne]
    exact ⟨.single (.socks hs nofun),
      {h with
        sending := fun _ => by simp [senderSend, World.log, hup, hne]
        sendingPrefix := by simp [senderSend, World.log, hne]
        socksFreed := fun hs' => absurd (hs.symm.trans hs') nofun
        bufFits := by simpa [senderSend, World.log] using hfit
        ofOpen := fun _ => {ho with}
        ofClosed := fun hc => absurd (hopen.symm.trans hc) nofun}⟩
  · next hc =>
    refine ⟨.refl, {h with
      sending := fun _ => ?_
      sendingPrefix := fun d hd => ?_
      bufFits := by simpa [World.log] using hfit
      ofOpen := fun _ => {ho with}
      ofClosed := fun hc => absurd (hopen.symm.trans hc) nofun}⟩
    · rw [hbuf] at hc
      have := h.sending hs
      simp only [World.log]
      tauto
    · obtain ⟨hd₀, hpre⟩ := h.sendingPrefix d hd
      exact ⟨hd₀, hpre.trans (List.prefix_append _ _)⟩

theorem clientRecvFunc_finishes (h : AtRest w) {p : Option (List UInt8)} (hp : w.pcb.alive = true)
    (hrecv : w.pcb.recv = true) (hne : p ≠ some []) : Finishes w (clientRecvFunc r w p) := by
  have hopen := h.open_of_alive hp
  have hs : w.cl.socksClosed = false := by simpa [hrecv] using (h.ofOpen hopen).recv
  have hl := h.live hopen
  have henter : Act w (callbackEnter w) := .enter hopen hl.notAborted hl.allocated
  have h' := callbackEnter_atRest h
  have hl' := h'.live hopen
  simp only [clientRecvFunc, assert_not hopen]
  refine Act.finishes henter ?_
  cases p with
  | none => exact clientFreeClient_finishes hl' fun hs' => absurd (hs.symm.trans hs') nofun
  | some data =>
    have hdata : data ≠ [] := fun he => hne (by rw [he])
    simp only [assert_decide hdata]
    split
    · next hfit =>
      have hfit : tcpWnd < (callbackEnter w).cl.buf.length + data.length := by omega
      exact ⟨.single (.refuse hopen hl.notAborted hl.allocated hfit rfl),
        deadLeave_ret_atRest (h'.remark _ _ _ _) ..⟩
    · next hfit => exact h'.recv_data hopen hs hdata (by have := h'.bufFits; omega)

/-- An outstanding send is one of a SOCKS client that is up, of data in `buf`. -/
theorem Core.of_sending (h : Core w) {data : List UInt8} (hd : data ∈ w.socks.sending) :
    w.cl.socksClosed = false ∧ w.cl.socksUp = true ∧ w.cl.buf ≠ [] := by
  have hne : w.socks.sending ≠ none := fun hn => by rw [hn] at hd; cases hd
  cases hs : w.cl.socksClosed
  · exact ⟨rfl, (h.sending hs).1 hne⟩
  · exact absurd (h.socksFreed hs).1 hne

/-- What follows a completed send: the next send, or the end of a closed client. -/
theorem AtRest.send_more (h : AtRest w) (hs : w.cl.socksClosed = false) (hup : w.cl.socksUp = true)
    {b : List UInt8} (hb : b.length ≤ w.cl.buf.length) {w' : World}
    (hw' : ∃ t, w' = {w with cl := {w.cl with buf := b}, socks := {w.socks with sending := none}, trace := t}) :
    Finishes w' (if w'.cl.buf ≠ [] then senderSend w' w'.cl.buf
      else if w'.cl.clientClosed then clientFreeSocks r w' else w') := by
  have hfit := hb.trans h.bufFits
  obtain ⟨t, hw'⟩ := hw'
  split
  · next hne =>
    refine ⟨.single (.socks (by rw [hw']; exact hs) nofun), ?_⟩
    subst hw'
    exact {h with
      sending := fun _ => ⟨fun _ => ⟨hup, hne⟩, fun _ => nofun⟩
      sendingPrefix := by simpa [senderSend, World.log] using hne
      socksFreed := fun hs' => absurd (hs.symm.trans hs') nofun
      bufFits := hfit
      ofOpen := fun hc => {h.ofOpen hc with}
      ofClosed := fun hc => ⟨(h.ofClosed hc).1, fun _ => hne⟩}
  · next hb =>
    rw [not_not] at hb
    have hcore : Core w' := by
      subst hw'
      exact {h with
        sending := fun _ => ⟨fun hn => absurd rfl hn, fun hn => absurd hb hn.2⟩
        sendingPrefix := fun _ hd => nomatch hd
        socksFreed := fun hs' => absurd (hs.symm.trans hs') nofun
        bufFits := hfit}
    split
    · next hc =>
      refine clientFreeSocks_closed hcore hc (by rw [hw']; exact hs) ?_ ?_ (.inl hb) <;> subst hw'
      · simp [h.allocated, hs]
      · exact (h.ofClosed hc).1
    · next hc =>
      refine ⟨.refl, ?_⟩
      subst hw'
      exact {hcore with
        allocated := h.allocated
        ofOpen := fun hc => {h.ofOpen hc with}
        ofClosed := fun hc' => absurd hc' hc}

theorem clientSocksSendHandlerDone_finishes (h : AtRest w) {n : Nat} {data : List UInt8} (hn : 0 < n)
    (hd : data ∈ w.socks.sending) (hle : n ≤ data.length) :
    Finishes w (clientSocksSendHandlerDone r {w with socks := {w.socks with sending := none}} n) := by
  obtain ⟨hs, hup, hne⟩ := h.of_sending hd
  have hbuf : n ≤ w.cl.buf.length := hle.trans (h.sendingPrefix data hd).2.length_le
  simp only [clientSocksSendHandlerDone, assert_not hs, assert_of hup, assert_decide hne, assert_decide hn,
    assert_decide hbuf]
  refine Act.finishes (.setSocks w {w.socks with sending := none}) (Act.finishes (.sent hbuf rfl) ?_)
  have hdrop : (w.cl.buf.drop n).length ≤ w.cl.buf.length := by simp
  exact h.send_more hs hup hdrop (by split <;> exact ⟨_, rfl⟩)

/-! ### From SOCKS to the client -/

/-- `w` after `n` more bytes were written. -/
structure Wrote (w : World) (n : Nat) (w' : World) : Prop where
  acts : Acts w w'
  eq : ∃ t, w' = {w with
    cl := {w.cl with
      socksRecvBufSent := w.cl.socksRecvBufSent + n
      socksRecvTcpPending := w.cl.socksRecvTcpPending + n}
    trace := t}
  le : w.cl.socksRecvBufSent + n ≤ w.cl.socksRecvBuf.length

/-- One pass of the loop in which `tcp_write` accepts `n` bytes. -/
def wroteBytes (w : World) (n : Nat) : World :=
  let w := w.log (.lwip .sndbuf)
  {w.log (.lwip (.write ((w.cl.socksRecvBuf.drop w.cl.socksRecvBufSent).take n) .ok)) with
    cl := {w.cl with
      socksRecvBufSent := w.cl.socksRecvBufSent + n
      socksRecvTcpPending := w.cl.socksRecvTcpPending + n}}

theorem wroteBytes_wrote {n : Nat} (hopen : w.cl.clientClosed = false) (hused : 0 < w.cl.socksRecvBufUsed)
    (hle : w.cl.socksRecvBufSent + n ≤ w.cl.socksRecvBuf.length) : Wrote w n (wroteBytes w n) :=
  ⟨.tail (.single (.lwip hopen rfl)) (.write hopen hused hle), ⟨_, rfl⟩, hle⟩

/-- The loop writes some of the bytes, and changes nothing else. -/
theorem Wrote.trans {w₁ w₂ : World} {n m : Nat} (h : Wrote w n w₁) (h' : Wrote w₁ m w₂) : Wrote w (n + m) w₂ := by
  obtain ⟨t, rfl⟩ := h.eq
  obtain ⟨t', rfl⟩ := h'.eq
  exact ⟨h.acts.trans h'.acts, ⟨t', by simp only [Nat.add_assoc]⟩, by
    have := h'.le
    simpa only [Nat.add_assoc] using this⟩

theorem sendOutLoop_spec (passes : List (Nat × Err)) (hopen : w.cl.clientClosed = false)
    (hused : w.cl.socksRecvBufUsed = w.cl.socksRecvBuf.length)
    (hlt : w.cl.socksRecvBufSent < w.cl.socksRecvBuf.length) :
    ∃ n, Wrote w n (sendOutLoop w passes).1 := by
  have hlog : ∀ {w : World} {c : LwipCall}, w.cl.clientClosed = false → c.quiet → Act w (w.log (.lwip c)) :=
    fun h hc => .lwip h hc
  induction passes generalizing w with
  | nil => exact ⟨0, .single (hlog hopen rfl), ⟨_, rfl⟩, hlt.le⟩
  | cons pass rest ih =>
    obtain ⟨sndbuf, result⟩ := pass
    have hask : Act w (w.log (.lwip .sndbuf)) := hlog hopen rfl
    simp only [sendOutLoop]
    split
    · exact ⟨0, .single hask, ⟨_, rfl⟩, hlt.le⟩
    · next hne =>
      cases result with
      | ok =>
        have hlen : w.cl.socksRecvBufUsed.toNat = w.cl.socksRecvBuf.length := by simp [hused]
        have hwrote := wroteBytes_wrote (n := min (w.cl.socksRecvBufUsed.toNat - w.cl.socksRecvBufSent) sndbuf)
          hopen (by omega) (by omega)
        let n := min (w.cl.socksRecvBufUsed.toNat - w.cl.socksRecvBufSent) sndbuf
        change ∃ m, Wrote w m (if ((wroteBytes w n).cl.socksRecvBufSent : Int) < w.cl.socksRecvBufUsed
          then sendOutLoop (wroteBytes w n) rest else (wroteBytes w n, true)).1
        split
        · next hmore =>
          obtain ⟨m, hm⟩ := ih (w := wroteBytes w n) hopen hused (by rw [hused] at hmore; exact_mod_cast hmore)
          exact ⟨n + m, hwrote.trans hm⟩
        · exact ⟨n, hwrote⟩
      | mem => exact ⟨0, .tail (.single hask) (hlog hopen rfl), ⟨_, rfl⟩, hlt.le⟩
      | abrt => exact ⟨0, .tail (.single hask) (hlog hopen rfl), ⟨_, rfl⟩, hlt.le⟩
      | other => exact ⟨0, .tail (.single hask) (hlog hopen rfl), ⟨_, rfl⟩, hlt.le⟩

theorem Wrote.live {w' : World} {n : Nat} (h : Wrote w n w') (hl : Live w) (hup : w.cl.socksUp = true)
    (hw : w.cl.socksRecvWaiting = false) : Live w' := by
  obtain ⟨t, rfl⟩ := h.eq
  exact {hl with
    waiting := fun hw' => absurd (hw.symm.trans hw') nofun
    notUp := fun hup' => absurd (hup.symm.trans hup') nofun}

/-- How `client_socks_recv_send_out` ends. -/
inductive SentOut (w : World) : World × Bool → Prop where
  /-- The pcb was aborted. -/
  | failed {w' : World} (h : Finishes w w') : SentOut w (w', false)
  /-- Some bytes are left, and bytes before them are unacknowledged. -/
  | waits {w' : World} {n : Nat} {t : List Ev} (acts : Acts w w')
      (eq : w' = {w with
        cl := {w.cl with
          socksRecvBufSent := w.cl.socksRecvBufSent + n
          socksRecvTcpPending := w.cl.socksRecvTcpPending + n
          socksRecvWaiting := true}
        trace := t})
      (left : w.cl.socksRecvBufSent + n < w.cl.socksRecvBuf.length) (pending : 0 < w.cl.socksRecvTcpPending + n) :
      SentOut w (w', true)
  /-- Everything was written. -/
  | all {w' : World} {n : Nat} {t : List Ev} (acts : Acts w w')
      (eq : w' = {w with
        cl := {w.cl with
          socksRecvBufSent := w.cl.socksRecvBufSent + n
          socksRecvTcpPending := w.cl.socksRecvTcpPending + n
          socksRecvBufUsed := -1}
        trace := t})
      (some : 0 < n) : SentOut w (w', true)

theorem clientSocksRecvSendOut_spec (hl : Live w) (hup : w.cl.socksUp = true)
    (hused : w.cl.socksRecvBufUsed = w.cl.socksRecvBuf.length)
    (hlt : w.cl.socksRecvBufSent < w.cl.socksRecvBuf.length) (hw : w.cl.socksRecvWaiting = false) :
    SentOut w (clientSocksRecvSendOut r w) := by
  have hpos : w.cl.socksRecvBufUsed > 0 := by omega
  have hlt' : (w.cl.socksRecvBufSent : Int) < w.cl.socksRecvBufUsed := by omega
  simp only [clientSocksRecvSendOut, assert_not hl.isOpen, assert_of hup, assert_decide hpos, assert_decide hlt',
    assert_not hw]
  obtain ⟨n, hn⟩ := sendOutLoop_spec r.writes hl.isOpen hused hlt
  have hl' := hn.live hl hup hw
  obtain ⟨t, heq⟩ := hn.eq
  generalize sendOutLoop w r.writes = res at hn hl' heq
  obtain ⟨w₁, ok⟩ := res
  have hfail {w₂ : World} (ha : Acts w w₂) (hl₂ : Live w₂) : SentOut w (clientAbortClient r w₂, false) :=
    .failed ⟨ha.trans (clientAbortClient_finishes hl₂).1, (clientAbortClient_finishes hl₂).2⟩
  cases ok with
  | false => exact hfail hn.acts hl'
  | true =>
    have hout : Acts w (w₁.log (.lwip .output)) := hn.acts.tail (.lwip hl'.isOpen rfl)
    have hl₂ : Live (w₁.log (.lwip .output)) := {hl' with}
    simp only
    split
    · exact hfail hout hl₂
    split
    · next hmore =>
      split
      · exact hfail hout hl₂
      · next hpend =>
        subst heq
        refine .waits (n := n) (hout.tail (.fields ⟨rfl, rfl, rfl, rfl, rfl, rfl, rfl⟩)) rfl ?_ ?_
        · rw [World.log, hused] at hmore
          exact_mod_cast hmore
        · exact Nat.pos_of_ne_zero hpend
    · next hall =>
      subst heq
      have hall : w.cl.socksRecvBuf.length ≤ w.cl.socksRecvBufSent + n := by
        rw [World.log, hused] at hall
        exact_mod_cast not_lt.1 hall
      refine .all (n := n) (hout.tail (.fields ⟨rfl, rfl, rfl, rfl, rfl, ?_, rfl⟩)) rfl (by omega)
      simp [unwritten, World.log, hpos, hall]

/-- Where nothing is left of the last data, more is asked for. -/
theorem clientSocksRecvInitiate_act (hopen : w.cl.clientClosed = false) (hs : w.cl.socksClosed = false)
    (hup : w.cl.socksUp = true) (hused : w.cl.socksRecvBufUsed = -1) : Act w (clientSocksRecvInitiate w) := by
  simp only [clientSocksRecvInitiate, assert_not hopen, assert_not hs, assert_of hup, assert_decide hused]
  exact .socks hs fun _ => ⟨hopen, if_neg (by omega)⟩

theorem clientSocksRecvInitiate_eq (hopen : w.cl.clientClosed = false) (hs : w.cl.socksClosed = false)
    (hup : w.cl.socksUp = true) (hused : w.cl.socksRecvBufUsed = -1) :
    clientSocksRecvInitiate w = receiverRecv w := by
  simp only [clientSocksRecvInitiate, assert_not hopen, assert_not hs, assert_of hup, assert_decide hused]

theorem OpenAtRest.pcb (h : OpenAtRest w) (hup : w.cl.socksUp = true) :
    w.pcb = ⟨true, true, !w.cl.socksClosed, true⟩ := by
  rw [show w.pcb = ⟨w.pcb.alive, w.pcb.err, w.pcb.recv, w.pcb.sent⟩ from rfl, h.alive, h.err, h.recv, h.sent, hup]

/-- What both callers of `client_socks_recv_send_out` do next: where everything was
written and SOCKS is still there, they receive again. -/
theorem SentOut.continue {res : World × Bool} (h : SentOut w res) (hl : Live w)
    (hp : w.pcb = ⟨true, true, !w.cl.socksClosed, true⟩) (hup : w.cl.socksUp = true)
    (hused : w.cl.socksRecvBufUsed = w.cl.socksRecvBuf.length)
    (hlt : w.cl.socksRecvBufSent < w.cl.socksRecvBuf.length) (hw : w.cl.socksRecvWaiting = false) :
    if res.2 then
      0 < res.1.cl.socksRecvTcpPending ∧ res.1.cl.socksClosed = w.cl.socksClosed ∧
      Finishes w (if res.1.cl.socksRecvBufUsed = -1 ∧ res.1.cl.socksClosed = false
        then clientSocksRecvInitiate res.1 else res.1)
    else Finishes w res.1 := by
  have hpos : 0 < w.cl.socksRecvBufUsed := by omega
  have hal : w.allocated = !(w.cl.clientClosed && w.cl.socksClosed) := by simp [hl.allocated, hl.isOpen]
  have hrec : w.socks.receiving = false := by
    by_contra hr
    have := (hl.receiving (by simpa using hr)).2
    omega
  cases h with
  | failed h => exact h
  | @waits w' n t acts eq left pending =>
    subst eq
    refine ⟨pending, rfl, ?_⟩
    rw [if_neg (by dsimp only; omega)]
    exact ⟨acts, {hl with
      allocated := hal
      waiting := fun _ => ⟨pending, hpos⟩
      notUp := fun hup' => absurd (hup.symm.trans hup') nofun
      ofOpen := fun _ => {
        notAborted := hl.notAborted
        alive := by rw [hp]
        err := by rw [hp]
        recv := by rw [hp]
        sent := by rw [hp]; exact hup.symm
        used := fun _ => .inr ⟨hused, left, rfl⟩
        owed := fun _ => by simp [owesClient, hup, pending]}
      ofClosed := fun hc => absurd (hl.isOpen.symm.trans hc) nofun}⟩
  | @all w' n t acts eq some =>
    have hpend : 0 < w.cl.socksRecvTcpPending + n := by omega
    refine ⟨by rw [eq]; exact hpend, by rw [eq], ?_⟩
    have hrest : AtRest w' := by
      rw [eq]
      exact {hl with
        allocated := hal
        receiving := fun hr => absurd (hrec.symm.trans hr) nofun
        waiting := fun hw' => absurd (hw.symm.trans hw') nofun
        notUp := fun hup' => absurd (hup.symm.trans hup') nofun
        ofOpen := fun _ => {
          notAborted := hl.notAborted
          alive := by rw [hp]
          err := by rw [hp]
          recv := by rw [hp]
          sent := by rw [hp]; exact hup.symm
          used := fun _ => .inl rfl
          owed := fun _ => by simp [owesClient, hup, hpend]}
        ofClosed := fun hc => absurd (hl.isOpen.symm.trans hc) nofun}
    have hup' : w'.cl.socksUp = true := by rw [eq]; exact hup
    have hopen' : w'.cl.clientClosed = false := by rw [eq]; exact hl.isOpen
    have hused' : w'.cl.socksRecvBufUsed = -1 := by rw [eq]
    split
    · next hc =>
      have hact := clientSocksRecvInitiate_act hopen' hc.2 hup' hused'
      refine ⟨acts.tail hact, ?_⟩
      rw [clientSocksRecvInitiate_eq hopen' hc.2 hup' hused']
      exact {hrest with
        socksFreed := fun hs => absurd (hc.2.symm.trans hs) nofun
        receiving := fun _ => ⟨hup', hused'⟩
        ofOpen := fun hc => {hrest.ofOpen hc with}
        ofClosed := hrest.ofClosed}
    · exact ⟨acts, hrest⟩

/-- The end of `client_socks_recv_handler_done`. -/
def afterRecv : World × Bool → World
  | (w, false) => w
  | (w, true) => if w.cl.socksRecvBufUsed = -1 then clientSocksRecvInitiate w else w

/-- The end of the queueing branch of `client_sent_func`. -/
def afterSent : World × Bool → World
  | (w, false) => w
  | (w, true) =>
    let w := w.assert (decide (w.cl.socksRecvTcpPending > 0))
    if w.cl.socksRecvBufUsed = -1 ∧ w.cl.socksClosed = false then clientSocksRecvInitiate w else w

theorem SentOut.after_recv {res : World × Bool} (h : SentOut w res) (hl : Live w)
    (hp : w.pcb = ⟨true, true, !w.cl.socksClosed, true⟩) (hup : w.cl.socksUp = true)
    (hused : w.cl.socksRecvBufUsed = w.cl.socksRecvBuf.length)
    (hlt : w.cl.socksRecvBufSent < w.cl.socksRecvBuf.length) (hw : w.cl.socksRecvWaiting = false)
    (hs : w.cl.socksClosed = false) : Finishes w (afterRecv res) := by
  have hcont := h.continue hl hp hup hused hlt hw
  obtain ⟨w', ok⟩ := res
  cases ok with
  | false => exact hcont
  | true =>
    obtain ⟨-, hs', hf⟩ := hcont
    have hs' : w'.cl.socksClosed = false := hs'.trans hs
    simpa only [afterRecv, hs', and_true] using hf

theorem SentOut.after_sent {res : World × Bool} (h : SentOut w res) (hl : Live w)
    (hp : w.pcb = ⟨true, true, !w.cl.socksClosed, true⟩) (hup : w.cl.socksUp = true)
    (hused : w.cl.socksRecvBufUsed = w.cl.socksRecvBuf.length)
    (hlt : w.cl.socksRecvBufSent < w.cl.socksRecvBuf.length) (hw : w.cl.socksRecvWaiting = false) :
    Finishes w (afterSent res) := by
  have hcont := h.continue hl hp hup hused hlt hw
  obtain ⟨w', ok⟩ := res
  cases ok with
  | false => exact hcont
  | true =>
    obtain ⟨hpend, -, hf⟩ := hcont
    simpa only [afterSent, assert_decide hpend] using hf

theorem clientSocksRecvHandlerDone_finishes (h : AtRest w) {data : List UInt8} (hr : w.socks.receiving = true)
    (hne : data ≠ []) (hle : data.length ≤ clientSocksRecvBufSize) :
    Finishes w (clientSocksRecvHandlerDone r {w with socks := {w.socks with receiving := false}} data) := by
  obtain ⟨hup, hused⟩ := h.receiving hr
  have hs : w.cl.socksClosed = false := by
    cases hs : w.cl.socksClosed
    · rfl
    · exact absurd (hr.symm.trans (h.socksFreed hs).2) nofun
  have hpos : data.length > 0 := List.length_pos_iff.2 hne
  have hempty : unwritten w.cl = [] := if_neg (by omega)
  simp only [clientSocksRecvHandlerDone, assert_not hs, assert_of hup, assert_decide hused, assert_decide hpos,
    assert_decide hle]
  refine Act.finishes (.setSocks w {w.socks with receiving := false}) ?_
  split
  · next hc =>
    exact ⟨.single (.drop hc), {h with
      socksFreed := fun hs' => absurd (hs.symm.trans hs') nofun
      receiving := nofun
      ofOpen := fun ho => absurd (ho.symm.trans hc) nofun
      ofClosed := h.ofClosed}⟩
  · next hc =>
    have hopen : w.cl.clientClosed = false := Bool.eq_false_iff.2 hc
    have hl := h.live hopen
    have ho := h.ofOpen hopen
    refine Act.finishes (.load hopen hempty hne) ?_
    have hl' : Live {w.log (.received data) with
        cl := {w.cl with
          socksRecvBuf := data, socksRecvBufUsed := data.length, socksRecvBufSent := 0, socksRecvWaiting := false}
        socks := {w.socks with receiving := false}} :=
      {hl with
        socksFreed := fun hs' => absurd (hs.symm.trans hs') nofun
        receiving := nofun
        waiting := nofun
        notUp := fun hup' => absurd (hup.symm.trans hup') nofun}
    have hout := clientSocksRecvSendOut_spec (r := r) hl' hup rfl hpos rfl
    exact hout.after_recv hl' (ho.pcb hup) hup rfl hpos rfl hs

/-- The queueing branch of `client_sent_func`. -/
theorem sent_queue_finishes (hl : Live {w with cl := {w.cl with socksRecvWaiting := false}})
    (hp : w.pcb = ⟨true, true, !w.cl.socksClosed, true⟩) (hup : w.cl.socksUp = true)
    (hused : w.cl.socksRecvBufUsed = w.cl.socksRecvBuf.length)
    (hlt : w.cl.socksRecvBufSent < w.cl.socksRecvBuf.length) (hw : w.cl.socksRecvWaiting = true) :
    Finishes w (
      let w := w.assert w.cl.socksRecvWaiting
      let w := w.assert (decide ((w.cl.socksRecvBufSent : Int) < w.cl.socksRecvBufUsed))
      let w : World := {w with cl := {w.cl with socksRecvWaiting := false}}
      afterSent (clientSocksRecvSendOut r w)) := by
  have hlt' : (w.cl.socksRecvBufSent : Int) < w.cl.socksRecvBufUsed := by omega
  simp only [assert_of hw, assert_decide hlt']
  have hact : Act w {w with cl := {w.cl with socksRecvWaiting := false}} :=
    .setData w ⟨rfl, rfl, rfl, rfl, rfl, rfl, rfl⟩
  exact hact.finishes ((clientSocksRecvSendOut_spec hl hup hused hlt rfl).after_sent hl hp hup hused hlt rfl)

theorem clientSentFunc_finishes (h : AtRest w) {len : Nat} (hp : w.pcb.alive = true) (hsent : w.pcb.sent = true)
    (hpos : 0 < len) (hle : len ≤ w.cl.socksRecvTcpPending) : Finishes w (clientSentFunc r w len) := by
  have hopen := h.open_of_alive hp
  have ho := h.ofOpen hopen
  have hup : w.cl.socksUp = true := ho.sent ▸ hsent
  have hl := h.live hopen
  have henter : Act w (callbackEnter w) := .enter hopen hl.notAborted hl.allocated
  simp only [clientSentFunc, assert_not hopen, assert_of hup, assert_decide hpos, assert_decide hle]
  refine Act.finishes henter (Act.finishes (.acked hle) ?_)
  split
  · next hused =>
    obtain ⟨hlen, hlt, hw⟩ := (ho.used hup).resolve_left fun hu => absurd (hu ▸ hused) nofun
    refine sent_queue_finishes ?_ (ho.pcb hup) hup hlen hlt hw
    exact {hl with
      waiting := nofun
      notUp := fun hup' => absurd (hup.symm.trans hup') nofun}
  · next hused =>
    have hw : w.cl.socksRecvWaiting = false := by
      by_contra hw
      exact hused (h.waiting (by simpa using hw)).2
    split
    · next hc =>
      exact clientFreeClient_finishes {hl with
        waiting := fun hw' => absurd (hw.symm.trans hw') nofun
        notUp := fun hup' => absurd (hup.symm.trans hup') nofun} fun _ => ⟨if_neg hused, hc.2⟩
    · next hc =>
      exact ⟨.refl, {h with
        waiting := fun hw' => absurd (hw.symm.trans hw') nofun
        notUp := fun hup' => absurd (hup.symm.trans hup') nofun
        ofOpen := fun _ => {ho with
          owed := fun hs => by
            have hpend := Nat.pos_of_ne_zero fun h₀ => hc ⟨hs, h₀⟩
            simp only [owesClient, Bool.and_eq_true, Bool.or_eq_true, decide_eq_true_eq]
            exact ⟨hup, .inr hpend⟩}
        ofClosed := h.ofClosed}⟩

/-! ### Events of the SOCKS client -/

/-- The end of `client_socks_handler` for UP: sending starts if there is data, and
receiving if the client is open. -/
def upStart (w : World) : World :=
  let w := if w.cl.buf ≠ [] then clientSendToSocks w else w
  if w.cl.clientClosed then w else clientSocksRecvInitiate w

/-- A SOCKS client that comes up is given what `buf` holds. -/
theorem up_send (hs : w.cl.socksClosed = false) (hup : w.cl.socksUp = true) (hnone : w.socks.sending = none) :
    ∃ w', w' = (if w.cl.buf ≠ [] then clientSendToSocks w else w) ∧ Acts w w' ∧
      ∃ t, w' = {w with
        socks := {w.socks with sending := if w.cl.buf ≠ [] then some w.cl.buf else none}, trace := t} := by
  refine ⟨_, rfl, ?_⟩
  split
  · next hb =>
    simp only [clientSendToSocks, assert_not hs, assert_of hup, assert_decide hb]
    exact ⟨.single (.socks hs nofun), _, rfl⟩
  · exact ⟨.refl, w.trace, by rw [← hnone]⟩

theorem AtRest.up_start (h : AtRest w) (hs : w.cl.socksClosed = false) (hup : w.cl.socksUp = false) {w' : World}
    (hw' : ∃ t, w' = {w with
      cl := {w.cl with socksRecvBufUsed := -1, socksRecvTcpPending := 0, socksUp := true}
      pcb := {w.pcb with sent := w.pcb.sent || !w.cl.clientClosed}
      socks := {w.socks with up := true}
      trace := t}) : Finishes w' (upStart w') := by
  obtain ⟨t, hw'⟩ := hw'
  have hnone : w.socks.sending = none := by
    by_contra hn
    have := ((h.sending hs).1 hn).1
    simp [hup] at this
  have hw : w.cl.socksRecvWaiting = false := by
    by_contra hw
    have := (h.waiting (by simpa using hw)).2
    have := (h.notUp hup).1
    omega
  have hs' : w'.cl.socksClosed = false := by rw [hw']; exact hs
  have hup' : w'.cl.socksUp = true := by rw [hw']
  obtain ⟨w₁, hw₁, hacts, t₁, heq⟩ := up_send hs' hup' (by rw [hw']; exact hnone)
  have hrest : AtRest w₁ := by
    rw [heq, hw']
    exact {h with
      socksUp := rfl
      sending := fun _ => by
        show (if w.cl.buf ≠ [] then some w.cl.buf else none) ≠ none ↔ true = true ∧ w.cl.buf ≠ []
        by_cases hb : w.cl.buf = [] <;> simp [hb]
      sendingPrefix := fun d hd => by
        by_cases hb : w.cl.buf = []
        · simp [hb] at hd
        · simp only [ne_eq, hb, not_false_eq_true, if_true, Option.mem_def, Option.some.injEq] at hd
          exact hd ▸ ⟨hb, List.prefix_rfl⟩
      socksFreed := fun hs' => absurd (hs.symm.trans hs') nofun
      receiving := fun hr => by
        have := (h.receiving hr).1
        simp [hup] at this
      waiting := fun hw' => absurd (hw.symm.trans hw') nofun
      notUp := nofun
      ofOpen := fun hc => {h.ofOpen hc with
        sent := by
          have hc : w.cl.clientClosed = false := hc
          simp [hc]
        used := fun _ => .inl rfl
        owed := fun hs' => absurd (hs.symm.trans hs') nofun}
      ofClosed := h.ofClosed}
  unfold upStart
  rw [← hw₁]
  dsimp only
  split
  · exact ⟨hacts, hrest⟩
  · next hc =>
    have hopen : w₁.cl.clientClosed = false := Bool.eq_false_iff.2 hc
    have hs₁ : w₁.cl.socksClosed = false := by rw [heq]; exact hs'
    have hup₁ : w₁.cl.socksUp = true := by rw [heq]; exact hup'
    have hused₁ : w₁.cl.socksRecvBufUsed = -1 := by rw [heq, hw']
    refine ⟨hacts.tail (clientSocksRecvInitiate_act hopen hs₁ hup₁ hused₁), ?_⟩
    rw [clientSocksRecvInitiate_eq hopen hs₁ hup₁ hused₁]
    exact {hrest with
      socksFreed := fun hs => absurd (hs₁.symm.trans hs) nofun
      receiving := fun _ => ⟨hup₁, hused₁⟩
      ofOpen := fun hc => {hrest.ofOpen hc with}
      ofClosed := hrest.ofClosed}

theorem clientSocksHandler_up_finishes (h : AtRest w) (hs : w.cl.socksClosed = false)
    (hup : w.cl.socksUp = false) :
    Finishes w (clientSocksHandler r {w with socks := {w.socks with up := true}} .up) := by
  obtain ⟨hused, hpend⟩ := h.notUp hup
  simp only [clientSocksHandler, assert_not hs, assert_not hup]
  let w₁ : World := {w.log (.socks .getInterfaces) with socks := {w.socks with up := true}}
  let w₂ : World := {w₁ with cl := {w₁.cl with socksRecvBufUsed := -1, socksRecvTcpPending := 0}}
  let w₃ : World := if w₂.cl.clientClosed then w₂ else tcpSent w₂ true
  let w₄ : World := {w₃ with cl := {w₃.cl with socksUp := true}}
  have h₁ : Act w w₁ := .socks hs nofun
  have h₂ : Act w₁ w₂ := .setData w₁ ⟨rfl, rfl, rfl, rfl, rfl, by simp [w₁, unwritten, World.log, hused], hpend.symm⟩
  have h₃ : Acts w₂ w₃ ∧
      w₃ = {w₂ with pcb := {w.pcb with sent := w.pcb.sent || !w.cl.clientClosed}, trace := w₃.trace} := by
    cases hc : w.cl.clientClosed
    · rw [show w₃ = tcpSent w₂ true from if_neg (show ¬ w.cl.clientClosed = true by simp [hc])]
      exact ⟨.single (.lwip hc rfl), by simp [tcpSent, World.log, w₂, w₁]⟩
    · rw [show w₃ = w₂ from if_pos hc]
      exact ⟨.refl, by simp [World.log, w₂, w₁]⟩
  have h₄ : Act w₃ w₄ := .setData w₃ ⟨rfl, rfl, rfl, rfl, rfl, rfl, rfl⟩
  have hf : Finishes w₄ (upStart w₄) := by
    refine h.up_start hs hup ⟨w₃.trace, ?_⟩
    simp only [w₄]
    rw [h₃.2]
    rfl
  exact ⟨(((Relation.ReflTransGen.single h₁).tail h₂).trans h₃.1).tail h₄ |>.trans hf.1, hf.2⟩

/-! ### Every event -/

/-- **An event is handled by actions, and leaves the client at rest.** -/
theorem handle_finishes (h : AtRest w) {e : Event} (he : Enabled w e)
    (hacked : (gather Ev.writtenData w.trace).length = total Ev.ackedLen w.trace + w.cl.socksRecvTcpPending) :
    Finishes w (handle w e) := by
  have hsocks : w.socks.alive = true → w.cl.socksClosed = false := fun ha => by
    simpa [ha] using h.socksAlive
  cases e with
  | recv p r => exact clientRecvFunc_finishes h he.1 he.2.1 he.2.2
  | sent len r =>
    obtain ⟨hp, hsent, hpos, hle⟩ := he
    exact clientSentFunc_finishes h hp hsent hpos (by omega)
  | err r => exact clientErrFunc_finishes h he.1
  | socks event r =>
    obtain ⟨hal, hup, herr⟩ := he
    have hs := hsocks hal
    cases event with
    | up =>
      have hup : w.cl.socksUp = false := h.socksUp ▸ hup rfl
      simpa [handle] using clientSocksHandler_up_finishes h hs hup
    | error =>
      have hf := clientFreeSocks_finishes (r := r) (h.log .socksFailed) hs
        (.inr (.inl (List.mem_append_right _ (List.mem_singleton_self _))))
      simpa [handle, clientSocksHandler, assert_not hs, show (SocksEvent.error == .up) = false from rfl] using
        Act.finishes .socksFailed hf
    | errorClosed =>
      have hup : w.cl.socksUp = true := h.socksUp ▸ herr rfl
      have hf := clientFreeSocks_finishes (r := r) (h.log .socksFailed) hs
        (.inr (.inl (List.mem_append_right _ (List.mem_singleton_self _))))
      simpa [handle, clientSocksHandler, assert_not hs, assert_of (w := w.log .socksFailed) hup,
        show (SocksEvent.errorClosed == .up) = false from rfl] using Act.finishes .socksFailed hf
  | sendDone n r =>
    obtain ⟨hn, data, hd, hle⟩ := he
    exact clientSocksSendHandlerDone_finishes h hn hd hle
  | recvDone data r => exact clientSocksRecvHandlerDone_finishes h he.1 he.2.1 he.2.2
  | murder => exact clientMurder_finishes h he
  | ret => exact callbackReturn_finishes h

end TwilightLine.Tcp
