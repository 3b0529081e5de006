import TwilightLine.System.BDatagram

/-! What holds in runs of a datagram socket.

As with a connection, an `ERROR` or a `HUP` leads to attempts without clearing what is
awaited (`hup_then_write`); in a run in which no attempt works while its event is still
awaited, what is awaited is right, no assertion fails (`Inv`), and no operation that can be
carried out is forgotten (`SendGoesOn`, `RecvGoesOn`). -/
namespace TwilightLine.BDatagram

open Epoll (Awaited Events)

/-- The flags of a half, its job and its interface agree. -/
structure HalfOk (h : DatagramHalf) : Prop where
  books : h.Books 0
  closed : h.inited = false → h.iface = .idle
  busy : h.inited = true → h.busy = true → h.iface = .busy h.busyLen ∧ h.busyLen ≤ h.mtu
  ready : h.inited = true → h.busy = false → ∀ len, h.iface ≠ .busy len
  job : h.job = true → h.Running
  pending : ∀ len, h.iface = .operationPending len → len ≤ h.mtu

/-- What is awaited is awaited for a half that runs. -/
structure Inv (o : BDatagram) : Prop where
  send : HalfOk o.send
  recv : HalfOk o.recv
  monitored : o.freed = false → o.bfd = some o.waitEvents
  freed : o.freed = true → o.bfd = none
  write : o.freed = false → o.waitEvents.write = true → o.send.Running
  read : o.freed = false → o.waitEvents.read = true → o.recv.Running
  /-- The job of the send is that of an operation which was not tried. -/
  sendJob : o.freed = false → o.send.job = true → o.waitEvents.write = false

/-- A send that runs is tried again. -/
def SendGoesOn (o : BDatagram) : Prop :=
  o.freed = false → o.error = false → o.send.Running → o.send.job = true ∨ o.waitEvents.write = true

def RecvGoesOn (o : BDatagram) : Prop :=
  o.freed = false → o.error = false → o.recv.Running → o.recv.job = true ∨ o.waitEvents.read = true

variable {o o' : BDatagram} {h : DatagramHalf} {sent received : IoResult}

/-! ### One half -/

/-- Another limit changes nothing that matters. -/
theorem HalfOk.limit (ok : HalfOk h) (limit : BReactorLimit) : HalfOk {h with limit := limit} :=
  ⟨ok.books, ok.closed, ok.busy, ok.ready, ok.job, ok.pending⟩

theorem HalfOk.setJob (ok : HalfOk h) (hrunning : h.Running) : HalfOk {h with job := true} :=
  ⟨ok.books, ok.closed, ok.busy, ok.ready, fun _ => hrunning, ok.pending⟩

theorem HalfOk.noJob (ok : HalfOk h) : HalfOk {h with job := false} :=
  ⟨ok.books, ok.closed, ok.busy, ok.ready, nofun, ok.pending⟩

/-- The interface of a half that is in use is initialized, -/
theorem HalfOk.inited (ok : HalfOk h) (hiface : h.iface ≠ .idle) : h.inited = true := by
  by_contra hinited
  exact hiface (ok.closed (Bool.eq_false_iff.mpr hinited))

/-- and the half is not busy unless the interface is. -/
theorem HalfOk.not_busy (ok : HalfOk h) (hinited : h.inited = true) (hiface : ∀ len, h.iface ≠ .busy len) : h.busy = false := by
  by_contra hbusy
  exact hiface _ (ok.busy hinited (Bool.not_eq_false _ ▸ hbusy)).1

/-- A half whose interface is not busy does not run, and has no job. -/
theorem HalfOk.not_running (ok : HalfOk h) (hiface : ∀ len, h.iface ≠ .busy len) : ¬ h.Running := by
  intro ⟨hinited, hbusy, _⟩
  exact hiface _ (ok.busy hinited hbusy).1

theorem HalfOk.no_job (ok : HalfOk h) (hrunning : ¬ h.Running) : h.job = false := by
  by_contra hjob
  exact hrunning (ok.job (Bool.not_eq_false _ ▸ hjob))

theorem HalfOk.start (ok : HalfOk h) (hidle : h.iface = .idle) (hinited : h.inited = true) {len : Nat} (hlen : len ≤ h.mtu) :
    ∃ half, h.start len = some half ∧ HalfOk {h with toIoHalf := half} ∧ half.job = h.job := by
  obtain ⟨hstart, hbooks⟩ := ok.books.start hidle len
  have hiface : ∀ len, h.iface ≠ .busy len := by
    rw [hidle]
    exact fun _ => nofun
  have hbusy := ok.not_busy hinited hiface
  refine ⟨_, hstart, ⟨hbooks, fun hc => ?_, fun _ hc => ?_, fun _ _ => nofun, ok.job, fun len' heq => ?_⟩, rfl⟩
  · exact absurd (hinited.symm.trans hc) nofun
  · exact absurd (hbusy.symm.trans hc) nofun
  · cases heq
    exact hlen

theorem HalfOk.accept (ok : HalfOk h) {len : Nat} (hpending : h.iface = .operationPending len) :
    ∃ h', h.accept = some h' ∧ HalfOk h' ∧ h'.job = h'.enabled := by
  have hinited : h.inited = true := ok.inited (by rw [hpending]; nofun)
  have hiface : ∀ len, h.iface ≠ .busy len := by
    rw [hpending]
    exact fun _ => nofun
  have hbusy := ok.not_busy hinited hiface
  have hjob := ok.no_job (ok.not_running hiface)
  obtain ⟨hop, hbooks⟩ := ok.books.operation hpending
  have hlen := ok.pending len hpending
  have haccept : h.accept =
      some {h with iface := .busy len, busyLen := len, job := h.job || h.enabled, busy := true} := by
    unfold DatagramHalf.accept
    rw [if_pos ⟨hinited, hbusy⟩, hop, Option.bind_some, if_pos hlen]
  refine ⟨_, haccept, ?_, ?_⟩
  · refine ⟨hbooks, fun hc => absurd (hinited.symm.trans hc) nofun, fun _ _ => ⟨rfl, hlen⟩, fun _ => nofun, fun hset => ?_,
      nofun⟩
    have hset : (h.job || h.enabled) = true := hset
    rw [hjob, Bool.false_or] at hset
    exact ⟨hinited, rfl, hset⟩
  · show (h.job || h.enabled) = h.enabled
    rw [hjob, Bool.false_or]

theorem HalfOk.complete (ok : HalfOk h) (hrunning : h.Running) (hjob : h.job = false) {n : Nat} (hn : n ≤ h.busyLen) :
    ∃ half, h.complete n = some half ∧ HalfOk {h with toIoHalf := half, busy := false} ∧ half.job = false := by
  obtain ⟨hcomplete, hbooks⟩ := ok.books.complete (ok.busy hrunning.1 hrunning.2.1).1 (Nat.zero_le n) hn
  refine ⟨_, hcomplete, ⟨hbooks, fun hc => ?_, nofun, fun _ _ => nofun, fun hset => ?_, nofun⟩, hjob⟩
  · exact absurd (hrunning.1.symm.trans hc) nofun
  · exact absurd (hjob.symm.trans hset) nofun

theorem HalfOk.tell (ok : HalfOk h) {n : Nat} (hdone : h.iface = .donePending n) :
    ∃ half, h.tell = some half ∧ HalfOk {h with toIoHalf := half} ∧ half.job = h.job := by
  have hinited : h.inited = true := ok.inited (by rw [hdone]; nofun)
  have hbusy := ok.not_busy hinited (by rw [hdone]; exact fun _ => nofun)
  obtain ⟨htell, hbooks⟩ := ok.books.tell hdone
  refine ⟨_, htell, ⟨hbooks, fun _ => rfl, fun _ hc => ?_, fun _ _ => nofun, ok.job, nofun⟩, rfl⟩
  exact absurd (hbusy.symm.trans hc) nofun

theorem HalfOk.init (ok : HalfOk h) (hinited : h.inited = false) (mtu : Nat) : HalfOk (h.init mtu) := by
  refine ⟨?_, nofun, fun _ => nofun, fun _ _ => nofun, nofun, nofun⟩
  have hbooks := ok.books
  unfold IoHalf.Books IoHalf.progress at hbooks ⊢
  rw [ok.closed hinited] at hbooks
  exact hbooks

theorem HalfOk.free (ok : HalfOk h) : HalfOk h.free :=
  ⟨ok.books.drop, fun _ => rfl, fun hc => absurd hc nofun, fun hc => absurd hc nofun, fun hc => absurd hc nofun,
    fun _ hc => absurd hc nofun⟩

/-- What is enabled goes on, if it was kept. -/
theorem enable_running : h.enable.Running ↔ h.inited = true ∧ h.busy = true := by
  unfold DatagramHalf.enable
  split
  · next henabled => exact ⟨fun hr => ⟨hr.1, hr.2.1⟩, fun hr => ⟨hr.1, hr.2, henabled⟩⟩
  · exact ⟨fun hr => ⟨hr.1, hr.2.1⟩, fun hr => ⟨hr.1, hr.2, rfl⟩⟩

theorem enable_of_running (hr : h.Running) : h.enable = h := if_pos hr.2.2

theorem enable_job (hr : h.enable.Running) : h.Running ∧ h.enable = h ∨ ¬ h.Running ∧ h.enable.job = true := by
  obtain ⟨hinited, hbusy⟩ := enable_running.mp hr
  unfold DatagramHalf.enable
  by_cases henabled : h.enabled = true
  · rw [if_pos henabled]
    exact .inl ⟨⟨hinited, hbusy, henabled⟩, rfl⟩
  · rw [if_neg henabled]
    refine .inr ⟨fun hc => henabled hc.2.2, ?_⟩
    show (h.job || (h.inited && h.busy)) = true
    rw [hinited, hbusy]
    exact Bool.or_true _

theorem HalfOk.enable (ok : HalfOk h) : HalfOk h.enable := by
  unfold DatagramHalf.enable
  split
  · exact ok
  · next henabled =>
    refine ⟨ok.books, ok.closed, ok.busy, ok.ready, fun hjob => ?_, ok.pending⟩
    rcases Bool.or_eq_true_iff.mp hjob with hjob | hkept
    · exact absurd (ok.job hjob).2.2 henabled
    · obtain ⟨hinited, hbusy⟩ := Bool.and_eq_true_iff.mp hkept
      exact ⟨hinited, hbusy, rfl⟩

/-! ### The routines -/

theorem Inv.withSend (hinv : Inv o) {d : DatagramHalf} (hd : HalfOk d) (hrunning : o.send.Running → d.Running)
    (hjob : o.freed = false → d.job = true → o.waitEvents.write = false) : Inv {o with send := d} :=
  ⟨hd, hinv.recv, hinv.monitored, hinv.freed, fun hf hw => hrunning (hinv.write hf hw), hinv.read, hjob⟩

theorem Inv.withRecv (hinv : Inv o) {d : DatagramHalf} (hd : HalfOk d) (hrunning : o.recv.Running → d.Running) :
    Inv {o with recv := d} :=
  ⟨hinv.send, hd, hinv.monitored, hinv.freed, hinv.write, fun hf hr => hrunning (hinv.read hf hr), hinv.sendJob⟩

/-- After an error nothing has to go on. -/
theorem Inv.reportError (hinv : Inv o) (herror : o.error = false) :
    ∃ o', o.reportError = some o' ∧ Inv o' ∧ SendGoesOn o' ∧ RecvGoesOn o' :=
  ⟨_, if_pos herror, ⟨hinv.send, hinv.recv, hinv.monitored, hinv.freed, hinv.write, hinv.read, hinv.sendJob⟩,
    fun _ => nofun, fun _ => nofun⟩

theorem setEvents_eq (hinv : Inv o) (hfreed : o.freed = false) (waitEvents : Awaited) :
    {o with waitEvents := waitEvents}.setEvents = some {o with waitEvents := waitEvents, bfd := some waitEvents} := by
  unfold setEvents
  rw [show ({o with waitEvents := waitEvents} : BDatagram).bfd = some o.waitEvents from hinv.monitored hfreed]
  rfl

/-- What is awaited may change while the file descriptor is monitored. -/
theorem Inv.setEvents (hinv : Inv o) (hfreed : o.freed = false) {waitEvents : Awaited}
    (hwrite : waitEvents.write = true → o.send.Running) (hread : waitEvents.read = true → o.recv.Running)
    (hjob : o.send.job = true → waitEvents.write = false) :
    Inv {o with waitEvents := waitEvents, bfd := some waitEvents} := by
  refine ⟨hinv.send, hinv.recv, fun _ => rfl, fun hc => ?_, fun _ => hwrite, fun _ => hread, fun _ => hjob⟩
  exact absurd (hfreed.symm.trans hc) nofun

theorem Inv.awaitWrite (hinv : Inv o) (hfreed : o.freed = false) (hrunning : o.send.Running) (hjob : o.send.job = false) :
    ∃ o', o.awaitWrite = some o' ∧ Inv o' ∧ SendGoesOn o' ∧ (RecvGoesOn o → RecvGoesOn o') := by
  refine ⟨_, setEvents_eq hinv hfreed _, ?_, fun _ _ _ => .inr rfl, id⟩
  exact hinv.setEvents hfreed (fun _ => hrunning) (hinv.read hfreed) fun hc => absurd (hjob.symm.trans hc) nofun

theorem Inv.awaitRead (hinv : Inv o) (hfreed : o.freed = false) (hrunning : o.recv.Running) :
    ∃ o', o.awaitRead = some o' ∧ Inv o' ∧ RecvGoesOn o' ∧ (SendGoesOn o → SendGoesOn o') := by
  refine ⟨_, setEvents_eq hinv hfreed _, ?_, fun _ _ _ => .inr rfl, id⟩
  exact hinv.setEvents hfreed (hinv.write hfreed) (fun _ => hrunning) (hinv.sendJob hfreed)

/-- Receiving starts. -/
theorem Inv.enableRecv (hinv : Inv o) : Inv {o with recv := o.recv.enable} :=
  hinv.withRecv hinv.recv.enable fun hr => enable_running.mpr ⟨hr.1, hr.2.1⟩

theorem RecvGoesOn.enable (hgoes : RecvGoesOn o) : RecvGoesOn {o with recv := o.recv.enable} := by
  intro hfreed herror hr
  rcases enable_job hr with ⟨hrunning, hsame⟩ | ⟨-, hjob⟩
  · show o.recv.enable.job = true ∨ _
    rw [hsame]
    exact hgoes hfreed herror hrunning
  · exact .inl hjob

theorem SendGoesOn.enable (hgoes : SendGoesOn o) : SendGoesOn {o with send := o.send.enable} := by
  intro hfreed herror hr
  rcases enable_job hr with ⟨hrunning, hsame⟩ | ⟨-, hjob⟩
  · show o.send.enable.job = true ∨ _
    rw [hsame]
    exact hgoes hfreed herror hrunning
  · exact .inl hjob

/-- **An attempt to send, under the condition.** -/
theorem Inv.doSend (hinv : Inv o) (hfreed : o.freed = false) (herror : o.error = false) (hrunning : o.send.Running)
    (hjob : o.send.job = false) (hfits : sent.Fits o.send.busyLen) (hmeets : o.SendMeets sent) :
    ∃ o', o.doSend sent = some o' ∧ Inv o' ∧ SendGoesOn o' ∧ (RecvGoesOn o → RecvGoesOn o') := by
  unfold BDatagram.doSend
  rw [if_pos ⟨herror, hrunning⟩]
  cases hinc : o.send.limit.increment with
  | none => exact hinv.awaitWrite hfreed hrunning hjob
  | some limit =>
    dsimp only
    have hlimit : Inv {o with send := {o.send with limit := limit}} :=
      hinv.withSend (hinv.send.limit limit) id hinv.sendJob
    cases sent with
    | wouldBlock => exact hlimit.awaitWrite hfreed hrunning hjob
    | failed =>
      obtain ⟨o', h', hinv', hsend, hrecv⟩ := hlimit.reportError herror
      exact ⟨o', h', hinv', hsend, fun _ => hrecv⟩
    | bytes n =>
      obtain ⟨half, hcomplete, hok, hnoJob⟩ := hlimit.send.complete hrunning hjob (hfits n rfl)
      have hstale : o.waitEvents.write ≠ true := fun hw => hmeets (BReactorLimit.increment_some hinc) hw n rfl
      dsimp only
      rw [hcomplete]
      refine ⟨_, rfl, ?_, fun _ _ hr => absurd hr.2.1 nofun, RecvGoesOn.enable⟩
      refine ⟨hok, hinv.recv.enable, hinv.monitored, hinv.freed, fun _ hw => absurd hw hstale, fun hf hr => ?_, fun _ hc => ?_⟩
      · exact hinv.enableRecv.read hf hr
      · exact absurd (hnoJob.symm.trans hc) nofun

/-- **An attempt to receive, under the condition.** -/
theorem Inv.doRecv (hinv : Inv o) (hfreed : o.freed = false) (herror : o.error = false) (hrunning : o.recv.Running)
    (hjob : o.recv.job = false) (hfits : received.Fits o.recv.busyLen) (hmeets : o.RecvMeets received) :
    ∃ o', o.doRecv received = some o' ∧ Inv o' ∧ RecvGoesOn o' ∧ (SendGoesOn o → SendGoesOn o') := by
  unfold BDatagram.doRecv
  rw [if_pos ⟨herror, hrunning⟩]
  cases hinc : o.recv.limit.increment with
  | none => exact hinv.awaitRead hfreed hrunning
  | some limit =>
    dsimp only
    have hlimit : Inv {o with recv := {o.recv with limit := limit}} := hinv.withRecv (hinv.recv.limit limit) id
    cases received with
    | wouldBlock => exact hlimit.awaitRead hfreed hrunning
    | failed =>
      obtain ⟨o', h', hinv', hsend, hrecv⟩ := hlimit.reportError herror
      exact ⟨o', h', hinv', hrecv, fun _ => hsend⟩
    | bytes n =>
      obtain ⟨half, hcomplete, hok, -⟩ := hlimit.recv.complete hrunning hjob (hfits n rfl)
      have hmtu : n ≤ o.recv.mtu := Nat.le_trans (hfits n rfl) (hinv.recv.busy hrunning.1 hrunning.2.1).2
      have hstale : o.waitEvents.read ≠ true := fun hr => hmeets (BReactorLimit.increment_some hinc) hr n rfl
      dsimp only
      rw [if_pos hmtu, hcomplete]
      refine ⟨_, rfl, ?_, fun _ _ hr => absurd hr.2.1 nofun, id⟩
      exact ⟨hinv.send, hok, hinv.monitored, hinv.freed, hinv.write, fun _ hr => absurd hr hstale, hinv.sendJob⟩

/-! ### Events -/

/-- **The events are handled, under the condition.** -/
theorem Inv.handleEvents (hinv : Inv o) (events : Events) (sent received : IoResult) (hfreed : o.freed = false)
    (herror : o.error = false) (hsend : o.send.job = false) (hrecv : o.recv.job = false)
    (hsendFits : sent.Fits o.send.busyLen) (hrecvFits : received.Fits o.recv.busyLen)
    (hwrite : events.write = true → o.send.Running) (hread : events.read = true → o.recv.Running)
    (hsends : o.haveSend events = true → o.SendMeets sent)
    (hrecvs : o.haveSend events = false → o.haveRecv events = true → o.RecvMeets received)
    (hsendGoes : events.write = false → SendGoesOn o) (hrecvGoes : events.read = false → RecvGoesOn o) :
    ∃ o', o.handleEvents events sent received = some o' ∧ Inv o' ∧ SendGoesOn o' ∧ RecvGoesOn o' := by
  have hsendRunning : o.haveSend events = true → o.send.Running := by
    intro hhave
    rcases Bool.or_eq_true_iff.mp hhave with hw | hother
    · exact hwrite hw
    · exact of_decide_eq_true (Bool.and_eq_true_iff.mp hother).2
  have hrecvRunning : o.haveRecv events = true → o.recv.Running := by
    intro hhave
    rcases Bool.or_eq_true_iff.mp hhave with hr | hother
    · exact hread hr
    · exact of_decide_eq_true (Bool.and_eq_true_iff.mp hother).2
  unfold BDatagram.handleEvents
  rw [if_pos ⟨hsendRunning, hrecvRunning⟩]
  by_cases hhaveSend : o.haveSend events = true
  · rw [if_pos hhaveSend]
    by_cases hhaveRecv : o.haveRecv events = true
    · rw [if_pos hhaveRecv]
      have hjob : Inv {o with recv := {o.recv with job := true}} :=
        hinv.withRecv (hinv.recv.setJob (hrecvRunning hhaveRecv)) id
      obtain ⟨o', h', hinv', hsendGoes', hrecvGoes'⟩ :=
        hjob.doSend hfreed herror (hsendRunning hhaveSend) hsend hsendFits (hsends hhaveSend)
      exact ⟨o', h', hinv', hsendGoes', hrecvGoes' fun _ _ _ => .inl rfl⟩
    · rw [if_neg hhaveRecv]
      obtain ⟨o', h', hinv', hsendGoes', hrecvGoes'⟩ :=
        hinv.doSend hfreed herror (hsendRunning hhaveSend) hsend hsendFits (hsends hhaveSend)
      exact ⟨o', h', hinv', hsendGoes', hrecvGoes' (hrecvGoes (Bool.or_eq_false_iff.mp (Bool.eq_false_iff.mpr hhaveRecv)).1)⟩
  · rw [if_neg hhaveSend]
    have hnone := Bool.eq_false_iff.mpr hhaveSend
    by_cases hhaveRecv : o.haveRecv events = true
    · rw [if_pos hhaveRecv]
      obtain ⟨o', h', hinv', hrecvGoes', hsendGoes'⟩ :=
        hinv.doRecv hfreed herror (hrecvRunning hhaveRecv) hrecv hrecvFits (hrecvs hnone hhaveRecv)
      exact ⟨o', h', hinv', hsendGoes' (hsendGoes (Bool.or_eq_false_iff.mp hnone).1), hrecvGoes'⟩
    · rw [if_neg hhaveRecv]
      exact hinv.reportError herror

/-- What a step keeps. -/
structure Good (o : BDatagram) : Prop extends Inv o where
  sendGoesOn : SendGoesOn o
  recvGoesOn : RecvGoesOn o

theorem Good.fd (hgood : Good o) {events : Events} (hallowed : o.Allowed (.fd events sent received))
    (hmeets : o.Meets (.fd events sent received)) : ∃ o', o.step (.fd events sent received) = some o' ∧ Good o' := by
  obtain ⟨hfreed, herror, hsend, hrecv, ⟨awaited, hawaited, hread, hwrite⟩, hsendFits, hrecvFits⟩ := hallowed
  obtain rfl : awaited = o.waitEvents := Option.some.inj (hawaited.symm.trans (hgood.monitored hfreed))
  let cleared : Awaited := ⟨o.waitEvents.read && !events.read, o.waitEvents.write && !events.write⟩
  have hcleared : Inv {o with waitEvents := cleared, bfd := some cleared} :=
    hgood.setEvents hfreed (fun hc => hgood.write hfreed (Bool.and_eq_true_iff.mp hc).1)
      (fun hc => hgood.read hfreed (Bool.and_eq_true_iff.mp hc).1) fun hc => absurd (hsend.1.symm.trans hc) nofun
  obtain ⟨hsends, hrecvs⟩ := hmeets
  obtain ⟨o', h', hinv', hsendGoes, hrecvGoes⟩ := hcleared.handleEvents events sent received hfreed herror hsend.1 hrecv.1
    hsendFits hrecvFits (fun hw => hgood.write hfreed (hwrite hw)) (fun hr => hgood.read hfreed (hread hr)) hsends hrecvs
    (by
      intro hw _ _ hrunning
      show _ ∨ (o.waitEvents.write && !events.write) = true
      rw [hw, Bool.not_false, Bool.and_true]
      exact hgood.sendGoesOn hfreed herror hrunning)
    (by
      intro hr _ _ hrunning
      show _ ∨ (o.waitEvents.read && !events.read) = true
      rw [hr, Bool.not_false, Bool.and_true]
      exact hgood.recvGoesOn hfreed herror hrunning)
  refine ⟨o', ?_, hinv', hsendGoes, hrecvGoes⟩
  show o.fdHandler events sent received = some o'
  unfold fdHandler
  rw [if_pos herror, show (o.clearEvents events).setEvents = _ from setEvents_eq hgood.toInv hfreed cleared, Option.bind_some,
    h']

/-- A send or a receive starts, or its end is told. -/
theorem Good.withSend (hgood : Good o) {half : IoHalf} (hok : HalfOk {o.send with toIoHalf := half})
    (hjob : half.job = o.send.job) : Good {o with send := {o.send with toIoHalf := half}} := by
  refine ⟨hgood.toInv.withSend hok id fun hf hc => hgood.sendJob hf (hjob ▸ hc), fun hf he hr => ?_, hgood.recvGoesOn⟩
  rw [show ({o with send := {o.send with toIoHalf := half}} : BDatagram).send.job = o.send.job from hjob]
  exact hgood.sendGoesOn hf he hr

theorem Good.withRecv (hgood : Good o) {half : IoHalf} (hok : HalfOk {o.recv with toIoHalf := half})
    (hjob : half.job = o.recv.job) : Good {o with recv := {o.recv with toIoHalf := half}} := by
  refine ⟨hgood.toInv.withRecv hok id, hgood.sendGoesOn, fun hf he hr => ?_⟩
  rw [show ({o with recv := {o.recv with toIoHalf := half}} : BDatagram).recv.job = o.recv.job from hjob]
  exact hgood.recvGoesOn hf he hr

/-- `WRITE` is not awaited for a send that does not run. -/
theorem Inv.not_write (hinv : Inv o) (hfreed : o.freed = false) (hrunning : ¬ o.send.Running) : o.waitEvents.write = false := by
  by_contra hw
  exact hrunning (hinv.write hfreed (Bool.not_eq_false _ ▸ hw))

theorem Good.sendOperation (hgood : Good o) (hallowed : o.Allowed .sendOperation) :
    ∃ o', o.step .sendOperation = some o' ∧ Good o' := by
  obtain ⟨hfreed, herror, len, hpending⟩ := hallowed
  obtain ⟨h', haccept, hok, hjob⟩ := hgood.send.accept hpending
  have hnot : ¬ o.send.Running := hgood.send.not_running (by rw [hpending]; exact fun _ => nofun)
  have hwrite := hgood.not_write hfreed hnot
  refine ⟨{o with send := h'}, ?_, ?_, fun _ _ hr => .inl (hjob.trans hr.2.2), hgood.recvGoesOn⟩
  · show o.sendOperation = _
    unfold BDatagram.sendOperation
    rw [if_pos herror, haccept]
    rfl
  · exact hgood.toInv.withSend hok (fun hr => absurd hr hnot) fun _ _ => hwrite

theorem Good.recvOperation (hgood : Good o) (hallowed : o.Allowed .recvOperation) :
    ∃ o', o.step .recvOperation = some o' ∧ Good o' := by
  obtain ⟨hfreed, herror, len, hpending⟩ := hallowed
  obtain ⟨h', haccept, hok, hjob⟩ := hgood.recv.accept hpending
  have hnot : ¬ o.recv.Running := hgood.recv.not_running (by rw [hpending]; exact fun _ => nofun)
  refine ⟨{o with recv := h'}, ?_, ?_, hgood.sendGoesOn, fun _ _ hr => .inl (hjob.trans hr.2.2)⟩
  · show o.recvOperation = _
    unfold BDatagram.recvOperation
    rw [if_pos herror, haccept]
    rfl
  · exact hgood.toInv.withRecv hok (fun hr => absurd hr hnot)

theorem Good.bind (hgood : Good o) {works : Bool} (hallowed : o.Allowed (.bind works)) :
    ∃ o', o.step (.bind works) = some o' ∧ Good o' := by
  refine ⟨_, if_pos hallowed.2, ?_⟩
  by_cases hworks : works = true
  · rw [if_pos hworks]
    exact ⟨hgood.enableRecv, hgood.sendGoesOn, hgood.recvGoesOn.enable⟩
  · rw [if_neg hworks]
    exact hgood

theorem Good.setSendAddrs (hgood : Good o) (hallowed : o.Allowed .setSendAddrs) :
    ∃ o', o.step .setSendAddrs = some o' ∧ Good o' := by
  refine ⟨_, if_pos hallowed.2, ?_, hgood.sendGoesOn.enable, hgood.recvGoesOn⟩
  refine hgood.toInv.withSend hgood.send.enable (fun hr => enable_running.mpr ⟨hr.1, hr.2.1⟩) fun hfreed hjob => ?_
  by_cases hr : o.send.Running
  · rw [enable_of_running hr] at hjob
    exact hgood.sendJob hfreed hjob
  · exact hgood.not_write hfreed hr

theorem Good.sendInit (hgood : Good o) {mtu : Nat} (hallowed : o.Allowed (.sendInit mtu)) :
    ∃ o', o.step (.sendInit mtu) = some o' ∧ Good o' := by
  obtain ⟨-, herror, hinited⟩ := hallowed
  have hnot : ¬ o.send.Running := fun hr => absurd (hinited.symm.trans hr.1) nofun
  refine ⟨_, if_pos ⟨herror, hinited⟩, ?_, fun _ _ hr => absurd hr.2.1 nofun, hgood.recvGoesOn⟩
  exact hgood.toInv.withSend (hgood.send.init hinited mtu) (fun hr => absurd hr hnot) fun _ => nofun

theorem Good.recvInit (hgood : Good o) {mtu : Nat} (hallowed : o.Allowed (.recvInit mtu)) :
    ∃ o', o.step (.recvInit mtu) = some o' ∧ Good o' := by
  obtain ⟨-, herror, hinited⟩ := hallowed
  have hnot : ¬ o.recv.Running := fun hr => absurd (hinited.symm.trans hr.1) nofun
  refine ⟨_, if_pos ⟨herror, hinited⟩, ?_, hgood.sendGoesOn, fun _ _ hr => absurd hr.2.1 nofun⟩
  exact hgood.toInv.withRecv (hgood.recv.init hinited mtu) (fun hr => absurd hr hnot)

theorem Good.sendFree (hgood : Good o) (hallowed : o.Allowed .sendFree) : ∃ o', o.step .sendFree = some o' ∧ Good o' := by
  obtain ⟨hfreed, hinited⟩ := hallowed
  have hset : Inv {o with waitEvents := {o.waitEvents with write := false}, bfd := some {o.waitEvents with write := false}} :=
    hgood.setEvents hfreed nofun (hgood.read hfreed) fun _ => rfl
  have hstep : o.step .sendFree = some {o with
      waitEvents := {o.waitEvents with write := false}
      bfd := some {o.waitEvents with write := false}
      send := o.send.free} := by
    show o.sendFree = _
    unfold BDatagram.sendFree
    rw [if_pos hinited, setEvents_eq hgood.toInv hfreed]
    rfl
  refine ⟨_, hstep, ?_, fun _ _ hr => absurd hr.1 nofun, hgood.recvGoesOn⟩
  exact ⟨hset.send.free, hset.recv, hset.monitored, hset.freed, fun _ => nofun, hset.read, fun _ => nofun⟩

theorem Good.recvFree (hgood : Good o) (hallowed : o.Allowed .recvFree) : ∃ o', o.step .recvFree = some o' ∧ Good o' := by
  obtain ⟨hfreed, hinited⟩ := hallowed
  have hset : Inv {o with waitEvents := {o.waitEvents with read := false}, bfd := some {o.waitEvents with read := false}} :=
    hgood.setEvents hfreed (hgood.write hfreed) nofun (hgood.sendJob hfreed)
  have hstep : o.step .recvFree = some {o with
      waitEvents := {o.waitEvents with read := false}
      bfd := some {o.waitEvents with read := false}
      recv := o.recv.free} := by
    show o.recvFree = _
    unfold BDatagram.recvFree
    rw [if_pos hinited, setEvents_eq hgood.toInv hfreed]
    rfl
  refine ⟨_, hstep, ?_, hgood.sendGoesOn, fun _ _ hr => absurd hr.1 nofun⟩
  exact ⟨hset.send, hset.recv.free, hset.monitored, hset.freed, hset.write, fun _ => nofun, hset.sendJob⟩

theorem Good.free (hgood : Good o) (hallowed : o.Allowed .free) : ∃ o', o.step .free = some o' ∧ Good o' := by
  obtain ⟨hfreed, hinited⟩ := hallowed
  refine ⟨{o with bfd := none, freed := true}, ?_, ?_, nofun, nofun⟩
  · show o.free = _
    unfold BDatagram.free
    rw [if_pos hinited, hgood.monitored hfreed]
    rfl
  · exact ⟨hgood.send, hgood.recv, nofun, fun _ => rfl, nofun, nofun, nofun⟩

/-- **No event fails under the condition, and it keeps what holds.** -/
theorem Good.step (hgood : Good o) {e : DatagramEvent} (hallowed : o.Allowed e) (hmeets : o.Meets e) :
    ∃ o', o.step e = some o' ∧ Good o' := by
  cases e with
  | fd events sent received => exact hgood.fd hallowed hmeets
  | sendJob sent =>
    obtain ⟨hfreed, herror, hjob, hfits⟩ := hallowed
    have hrunning := hgood.send.job hjob
    have hwrite := hgood.sendJob hfreed hjob
    have hnoJob : Inv {o with send := {o.send with job := false}} := hgood.toInv.withSend hgood.send.noJob id fun _ => nofun
    obtain ⟨o', h', hinv', hsend, hrecv⟩ :=
      hnoJob.doSend hfreed herror hrunning rfl hfits fun _ hc => absurd (hwrite.symm.trans hc) nofun
    exact ⟨o', h', hinv', hsend, hrecv hgood.recvGoesOn⟩
  | recvJob received =>
    obtain ⟨hfreed, herror, hjob, hfits⟩ := hallowed
    have hrunning := hgood.recv.job hjob
    have hnoJob : Inv {o with recv := {o.recv with job := false}} := hgood.toInv.withRecv hgood.recv.noJob id
    obtain ⟨o', h', hinv', hrecv, hsend⟩ := hnoJob.doRecv hfreed herror hrunning rfl hfits hmeets
    exact ⟨o', h', hinv', hsend hgood.sendGoesOn, hrecv⟩
  | send len =>
    obtain ⟨-, -, hinited, hlen, hidle⟩ := hallowed
    obtain ⟨half, hstart, hok, hjob⟩ := hgood.send.start hidle hinited hlen
    exact ⟨_, congrArg (Option.map _) hstart, Good.withSend hgood hok hjob⟩
  | sendOperation => exact hgood.sendOperation hallowed
  | sendDone =>
    obtain ⟨-, -, n, hdone⟩ := hallowed
    obtain ⟨half, htell, hok, hjob⟩ := hgood.send.tell hdone
    exact ⟨_, congrArg (Option.map _) htell, Good.withSend hgood hok hjob⟩
  | recv =>
    obtain ⟨-, -, hinited, hidle⟩ := hallowed
    obtain ⟨half, hstart, hok, hjob⟩ := hgood.recv.start hidle hinited (Nat.le_refl _)
    exact ⟨_, congrArg (Option.map _) hstart, Good.withRecv hgood hok hjob⟩
  | recvOperation => exact hgood.recvOperation hallowed
  | recvDone =>
    obtain ⟨-, -, n, hdone⟩ := hallowed
    obtain ⟨half, htell, hok, hjob⟩ := hgood.recv.tell hdone
    exact ⟨_, congrArg (Option.map _) htell, Good.withRecv hgood hok hjob⟩
  | bind works => exact hgood.bind hallowed
  | setSendAddrs => exact hgood.setSendAddrs hallowed
  | sendInit mtu => exact hgood.sendInit hallowed
  | sendFree => exact hgood.sendFree hallowed
  | recvInit mtu => exact hgood.recvInit hallowed
  | recvFree => exact hgood.recvFree hallowed
  | free => exact hgood.free hallowed
  | wait =>
    have hsend : Good {o with send := {o.send with limit := o.send.limit.reset}} :=
      Good.withSend hgood (hgood.send.limit o.send.limit.reset) rfl
    exact ⟨_, rfl, Good.withRecv hsend (hgood.recv.limit o.recv.limit.reset) rfl⟩

/-! ### Runs -/

theorem good_init : Good init where
  send := ⟨rfl, fun _ => rfl, nofun, nofun, nofun, nofun⟩
  recv := ⟨rfl, fun _ => rfl, nofun, nofun, nofun, nofun⟩
  monitored _ := rfl
  freed := nofun
  write _ := nofun
  read _ := nofun
  sendJob _ := nofun
  sendGoesOn _ _ hr := absurd hr.1 nofun
  recvGoesOn _ _ hr := absurd hr.1 nofun

/-- A monitored socket is not freed, and what is monitored is what is awaited. -/
theorem Inv.bfd_eq (hinv : Inv o) {awaited : Awaited} (hawaited : o.bfd = some awaited) :
    o.freed = false ∧ awaited = o.waitEvents := by
  have hfreed : o.freed = false := by
    by_contra hfreed
    rw [hinv.freed (Bool.not_eq_false _ ▸ hfreed)] at hawaited
    cases hawaited
  exact ⟨hfreed, Option.some.inj (hawaited.symm.trans (hinv.monitored hfreed))⟩

theorem Good.sound (hgood : Good o) : Sound o where
  write _ hawaited hw := by
    obtain ⟨hfreed, rfl⟩ := hgood.bfd_eq hawaited
    exact hgood.write hfreed hw
  read _ hawaited hr := by
    obtain ⟨hfreed, rfl⟩ := hgood.bfd_eq hawaited
    exact hgood.read hfreed hr
  sends := hgood.send.books
  recvs := hgood.recv.books
  sendGoesOn hfreed herror hr :=
    (hgood.sendGoesOn hfreed herror hr).imp_right fun hw => ⟨o.waitEvents, hgood.monitored hfreed, hw⟩
  recvGoesOn hfreed herror hr :=
    (hgood.recvGoesOn hfreed herror hr).imp_right fun hw => ⟨o.waitEvents, hgood.monitored hfreed, hw⟩

/-- **In every run whose attempts meet the condition no assertion fails, what is awaited and
completed is right, and nothing that can be carried out is forgotten.** -/
theorem datagram_sound (es : List DatagramEvent)
    (h : Run.AllSteps step (fun o e => o.Allowed e ∧ o.Meets e) init es) :
    ∃ o, Run.run step init es = some o ∧ Sound o := by
  obtain ⟨o, hrun, hgood⟩ := Run.run_progress Good (fun _ _ ho he => ho.step he.1 he.2) h good_init
  exact ⟨o, hrun, hgood.sound⟩

/-- A packet is kept until the addresses are known, waits for the file descriptor, and the
`WRITE` event sends it. -/
def keptThenSent : List DatagramEvent :=
  [.sendInit 100, .send 10, .sendOperation, .setSendAddrs, .sendJob .wouldBlock,
    .fd ⟨false, true, false, false⟩ (.bytes 10) .wouldBlock, .sendDone]

/-- The packet is done, nothing is awaited any more, and receiving has started. -/
theorem datagram_sound_sent : Run.AllSteps step (fun o e => o.Allowed e ∧ o.Meets e) init keptThenSent ∧
    ∃ o, Run.run step init keptThenSent = some o ∧ o.bfd = some ⟨false, false⟩ ∧ o.send.iface = .idle ∧
      o.recv.enabled = true ∧ Sound o := by
  have h : Run.AllSteps step (fun o e => o.Allowed e ∧ o.Meets e) init keptThenSent := by
    refine ⟨⟨⟨rfl, rfl, rfl⟩, trivial⟩, fun o₁ h₁ => ?_⟩
    cases h₁
    refine ⟨⟨⟨rfl, rfl, rfl, by decide, rfl⟩, trivial⟩, fun o₂ h₂ => ?_⟩
    cases h₂
    refine ⟨⟨⟨rfl, rfl, 10, rfl⟩, trivial⟩, fun o₃ h₃ => ?_⟩
    cases h₃
    refine ⟨⟨⟨rfl, rfl⟩, trivial⟩, fun o₄ h₄ => ?_⟩
    cases h₄
    refine ⟨⟨⟨rfl, rfl, rfl, nofun⟩, trivial⟩, fun o₅ h₅ => ?_⟩
    cases h₅
    refine ⟨⟨⟨rfl, rfl, ⟨rfl, nofun, nofun⟩, ⟨rfl, nofun, nofun⟩, ⟨⟨false, true⟩, rfl, nofun, fun _ => rfl⟩, ?_, nofun⟩,
      ?_, fun hs => absurd hs nofun⟩, fun o₆ h₆ => ?_⟩
    · intro n hn
      cases hn
      decide
    · -- The event took `WRITE` off what is awaited.
      exact fun _ _ hw => absurd hw nofun
    cases h₆
    exact ⟨⟨⟨rfl, rfl, 10, rfl⟩, trivial⟩, fun _ _ => trivial⟩
  obtain ⟨o, hrun, hsound⟩ := datagram_sound keptThenSent h
  cases hrun
  exact ⟨h, _, rfl, rfl, rfl, rfl, hsound⟩

/-- A packet waits for the file descriptor, and is sent when there is a hang-up. -/
def hupThenSent : List DatagramEvent :=
  [.sendInit 100, .setSendAddrs, .send 10, .sendOperation, .sendJob .wouldBlock,
    .fd ⟨false, false, false, true⟩ (.bytes 10) .wouldBlock, .sendDone]

/-- The next `WRITE` event finds that no send is busy. -/
theorem hup_then_write : Run.AllSteps step Allowed init hupThenSent ∧
    ∃ o, Run.run step init hupThenSent = some o ∧ ¬ Sound o ∧
      o.Allowed (.fd ⟨false, true, false, false⟩ .wouldBlock .wouldBlock) ∧
      o.step (.fd ⟨false, true, false, false⟩ .wouldBlock .wouldBlock) = none := by
  constructor
  · refine ⟨⟨rfl, rfl, rfl⟩, fun o₁ h₁ => ?_⟩
    cases h₁
    refine ⟨⟨rfl, rfl⟩, fun o₂ h₂ => ?_⟩
    cases h₂
    refine ⟨⟨rfl, rfl, rfl, by decide, rfl⟩, fun o₃ h₃ => ?_⟩
    cases h₃
    refine ⟨⟨rfl, rfl, 10, rfl⟩, fun o₄ h₄ => ?_⟩
    cases h₄
    refine ⟨⟨rfl, rfl, rfl, nofun⟩, fun o₅ h₅ => ?_⟩
    cases h₅
    refine ⟨⟨rfl, rfl, ⟨rfl, nofun, nofun⟩, ⟨rfl, nofun, nofun⟩, ⟨⟨false, true⟩, rfl, nofun, nofun⟩, ?_, nofun⟩,
      fun o₆ h₆ => ?_⟩
    · intro n hn
      cases hn
      decide
    cases h₆
    exact ⟨⟨rfl, rfl, 10, rfl⟩, fun _ _ => trivial⟩
  · refine ⟨_, rfl, fun hsound => ?_, ?_, rfl⟩
    · exact absurd (hsound.write ⟨false, true⟩ rfl rfl).2.1 nofun
    · exact ⟨rfl, rfl, ⟨rfl, nofun, nofun⟩, ⟨rfl, nofun, nofun⟩, ⟨⟨false, true⟩, rfl, nofun, fun _ => rfl⟩, nofun, nofun⟩

end TwilightLine.BDatagram
