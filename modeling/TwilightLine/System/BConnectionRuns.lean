import TwilightLine.System.BConnection

/-! What holds in runs of a connection.

An attempt that moves bytes makes its direction ready. In a run in which no attempt does so
while its event is still awaited, the events that are awaited are those of directions that
are busy (`Inv`), so the handlers find what they assert (`connection_sound`). An `ERROR` event
leads to attempts without clearing what is awaited; after one that works, the next `WRITE`
event finds no send (`error_then_write`). -/
namespace TwilightLine.BConnection

open Epoll (Awaited Events)

/-- The state of a direction and its interface agree. -/
structure DirectionOk (d : Direction) : Prop where
  books : d.Books 1
  shape : match d.state with
    | .notInited => d.iface = .idle ∧ d.job = false
    | .ready => d.job = false ∧ ∀ len, d.iface ≠ .busy len
    | .busy => d.iface = .busy d.busyLen
    | .initedClosed => d.job = false ∧ d.iface = .busy d.busyLen
  positive : ∀ len, d.iface = .operationPending len → 0 < len

structure Inv (o : BConnection) : Prop where
  send : DirectionOk o.send
  recv : DirectionOk o.recv
  /-- The reactor monitors what is awaited until there is a hang-up. -/
  monitored : o.freed = false → o.isHupd = false → o.bfd = some o.waitEvents
  hupd : o.isHupd = true → o.bfd = none
  freed : o.freed = true → o.bfd = none
  write : o.bfd.isSome → o.waitEvents.write = true → o.send.state = .busy
  read : o.bfd.isSome → o.waitEvents.read = true → o.recv.state = .busy
  sendOpen : o.send.state ≠ .initedClosed

variable {o o' : BConnection} {d : Direction} {written read : IoResult}

section Direction

theorem DirectionOk.of_busy (h : DirectionOk d) (hbusy : d.state = .busy) : d.iface = .busy d.busyLen := by
  have hshape := h.shape
  rw [hbusy] at hshape
  exact hshape

/-- Another limit, or no job, changes nothing that matters. -/
theorem DirectionOk.limit (h : DirectionOk d) (limit : BReactorLimit) : DirectionOk {d with limit := limit} :=
  ⟨h.books, h.shape, h.positive⟩

theorem DirectionOk.job (h : DirectionOk d) (hbusy : d.state = .busy) (job : Bool) : DirectionOk {d with job := job} := by
  refine ⟨h.books, ?_, h.positive⟩
  have hiface := h.of_busy hbusy
  dsimp only
  rw [hbusy]
  exact hiface

theorem DirectionOk.noJob (h : DirectionOk d) : DirectionOk {d with job := false} := by
  refine ⟨h.books, ?_, h.positive⟩
  have hshape := h.shape
  dsimp only
  cases hstate : d.state with
  | notInited =>
    rw [hstate] at hshape
    exact ⟨hshape.1, rfl⟩
  | ready =>
    rw [hstate] at hshape
    exact ⟨rfl, hshape.2⟩
  | busy =>
    rw [hstate] at hshape
    exact hshape
  | initedClosed =>
    rw [hstate] at hshape
    exact ⟨rfl, hshape.2⟩

theorem DirectionOk.start (h : DirectionOk d) (hstate : d.state ≠ .notInited) (hidle : d.iface = .idle) {len : Nat}
    (hlen : 0 < len) : ∃ half, d.start len = some half ∧ DirectionOk ⟨half, d.state⟩ := by
  obtain ⟨hstart, hbooks⟩ := h.books.start hidle len
  refine ⟨_, hstart, hbooks, ?_, ?_⟩
  · have hshape := h.shape
    dsimp only
    cases hs : d.state with
    | notInited => exact absurd hs hstate
    | ready =>
      rw [hs] at hshape
      exact ⟨hshape.1, nofun⟩
    | busy =>
      rw [hs] at hshape
      exact absurd (hidle.symm.trans hshape) nofun
    | initedClosed =>
      rw [hs] at hshape
      exact absurd (hidle.symm.trans hshape.2) nofun
  · intro len' heq
    cases heq
    exact hlen

/-- The direction is ready when its interface hands over an operation. -/
theorem DirectionOk.ready_of_idle (h : DirectionOk d) (hiface : ∀ len, d.iface ≠ .busy len) (hnot : d.iface ≠ .idle) :
    d.state = .ready ∧ d.job = false := by
  have hshape := h.shape
  cases hs : d.state with
  | notInited =>
    rw [hs] at hshape
    exact absurd hshape.1 hnot
  | ready =>
    rw [hs] at hshape
    exact ⟨rfl, hshape.1⟩
  | busy =>
    rw [hs] at hshape
    exact absurd hshape (hiface _)
  | initedClosed =>
    rw [hs] at hshape
    exact absurd hshape.2 (hiface _)

theorem DirectionOk.operation (h : DirectionOk d) {len : Nat} (hpending : d.iface = .operationPending len) :
    d.state = .ready ∧ ∃ half, d.operation = some half ∧ half.busyLen = len ∧ 0 < len ∧ half.limit = d.limit ∧
      half.job = false ∧ DirectionOk ⟨half, .busy⟩ := by
  obtain ⟨hready, hjob⟩ := h.ready_of_idle (by rw [hpending]; exact fun _ => nofun) (by rw [hpending]; nofun)
  obtain ⟨hop, hbooks⟩ := h.books.operation hpending
  exact ⟨hready, _, hop, rfl, h.positive len hpending, rfl, hjob, hbooks, rfl, nofun⟩

theorem DirectionOk.complete (h : DirectionOk d) (hbusy : d.state = .busy) (hjob : d.job = false) {n : Nat} (hpos : 0 < n)
    (hn : n ≤ d.busyLen) : ∃ half, d.complete n = some half ∧ DirectionOk ⟨half, .ready⟩ := by
  obtain ⟨hcomplete, hbooks⟩ := h.books.complete (h.of_busy hbusy) hpos hn
  exact ⟨_, hcomplete, hbooks, ⟨hjob, nofun⟩, nofun⟩

theorem DirectionOk.tell (h : DirectionOk d) {n : Nat} (hdone : d.iface = .donePending n) :
    ∃ half, d.tell = some half ∧ DirectionOk ⟨half, d.state⟩ := by
  obtain ⟨hready, hjob⟩ := h.ready_of_idle (by rw [hdone]; exact fun _ => nofun) (by rw [hdone]; nofun)
  obtain ⟨htell, hbooks⟩ := h.books.tell hdone
  rw [hready]
  exact ⟨_, htell, hbooks, ⟨hjob, nofun⟩, nofun⟩

theorem DirectionOk.drop (h : DirectionOk d) : DirectionOk ⟨d.drop, .notInited⟩ := ⟨h.books.drop, ⟨rfl, rfl⟩, nofun⟩

theorem DirectionOk.create (h : DirectionOk d) (hstate : d.state = .notInited) : DirectionOk ⟨d.create, .ready⟩ := by
  have hshape := h.shape
  rw [hstate] at hshape
  refine ⟨?_, ⟨rfl, nofun⟩, nofun⟩
  have hbooks := h.books
  unfold IoHalf.Books IoHalf.progress at hbooks ⊢
  rw [hshape.1] at hbooks
  exact hbooks

end Direction

/-! ### The routines -/

/-- A routine makes its system call exactly where the connection hung up or the limit allows it. -/
theorem attempt_cases (o : BConnection) (limit : BReactorLimit) :
    (o.isHupd = false ∧ (if o.isHupd then some limit else limit.increment) = none) ∨
      ∃ limit', (if o.isHupd then some limit else limit.increment) = some limit' ∧
        (o.isHupd = true ∨ limit.count < limit.limit) := by
  by_cases hhup : o.isHupd = true
  · exact .inr ⟨limit, if_pos hhup, .inl hhup⟩
  · rw [if_neg hhup]
    cases hinc : limit.increment with
    | none => exact .inl ⟨Bool.eq_false_iff.mpr hhup, rfl⟩
    | some limit' => exact .inr ⟨limit', rfl, .inr (BReactorLimit.increment_some hinc)⟩

theorem Inv.withSend (h : Inv o) {d : Direction} (hd : DirectionOk d) (hbusy : o.send.state = .busy → d.state = .busy)
    (hopen : d.state ≠ .initedClosed) : Inv {o with send := d} :=
  ⟨hd, h.recv, h.monitored, h.hupd, h.freed, fun hm hw => hbusy (h.write hm hw), h.read, hopen⟩

theorem Inv.withRecv (h : Inv o) {d : Direction} (hd : DirectionOk d) (hbusy : o.recv.state = .busy → d.state = .busy) :
    Inv {o with recv := d} :=
  ⟨h.send, hd, h.monitored, h.hupd, h.freed, h.write, fun hm hr => hbusy (h.read hm hr), h.sendOpen⟩

theorem Inv.reportError (h : Inv o) (herror : o.error = false) : ∃ o', o.reportError = some o' ∧ Inv o' :=
  ⟨_, if_pos herror, h.send, h.recv, h.monitored, h.hupd, h.freed, h.write, h.read, h.sendOpen⟩

theorem setEvents_eq (h : Inv o) (hfreed : o.freed = false) (hhup : o.isHupd = false) (waitEvents : Awaited) :
    {o with waitEvents := waitEvents}.setEvents = some {o with waitEvents := waitEvents, bfd := some waitEvents} := by
  unfold setEvents
  rw [show ({o with waitEvents := waitEvents} : BConnection).bfd = some o.waitEvents from h.monitored hfreed hhup]
  rfl

/-- What is awaited may change where the file descriptor is monitored. -/
theorem Inv.setEvents (h : Inv o) (hfreed : o.freed = false) (hhup : o.isHupd = false) {waitEvents : Awaited}
    (hwrite : waitEvents.write = true → o.send.state = .busy) (hread : waitEvents.read = true → o.recv.state = .busy) :
    Inv {o with waitEvents := waitEvents, bfd := some waitEvents} := by
  refine ⟨h.send, h.recv, fun _ _ => rfl, fun hc => ?_, fun hc => ?_, fun _ => hwrite, fun _ => hread, h.sendOpen⟩
  · exact absurd (hhup.symm.trans hc) nofun
  · exact absurd (hfreed.symm.trans hc) nofun

theorem Inv.awaited (h : Inv o) (hfreed : o.freed = false) (hhup : o.isHupd = false) :
    (o.waitEvents.write = true → o.send.state = .busy) ∧ (o.waitEvents.read = true → o.recv.state = .busy) := by
  have hsome : o.bfd.isSome := by
    rw [h.monitored hfreed hhup]
    rfl
  exact ⟨h.write hsome, h.read hsome⟩

/-- A monitored connection did not hang up. -/
theorem Inv.not_hupd (h : Inv o) (hm : o.bfd.isSome) : o.isHupd = false := by
  by_contra hhup
  rw [h.hupd (Bool.not_eq_false _ ▸ hhup)] at hm
  cases hm

theorem Inv.awaitWrite (h : Inv o) (hfreed : o.freed = false) (hhup : o.isHupd = false) (hbusy : o.send.state = .busy) :
    ∃ o', o.awaitWrite = some o' ∧ Inv o' :=
  ⟨_, setEvents_eq h hfreed hhup _, h.setEvents hfreed hhup (fun _ => hbusy) (h.awaited hfreed hhup).2⟩

theorem Inv.awaitRead (h : Inv o) (hfreed : o.freed = false) (hhup : o.isHupd = false) (hbusy : o.recv.state = .busy) :
    ∃ o', o.awaitRead = some o' ∧ Inv o' :=
  ⟨_, setEvents_eq h hfreed hhup _, h.setEvents hfreed hhup (h.awaited hfreed hhup).1 fun _ => hbusy⟩

/-- **An attempt to send, under the condition.** -/
theorem Inv.connectionSend (h : Inv o) (hfreed : o.freed = false) (herror : o.error = false) (hbusy : o.send.state = .busy)
    (hjob : o.send.job = false) (hfits : written.Fits o.send.busyLen) (hmeets : o.SendMeets written) :
    ∃ o', o.connectionSend written = some o' ∧ Inv o' := by
  unfold BConnection.connectionSend
  rw [if_pos ⟨herror, hbusy⟩]
  rcases attempt_cases o o.send.limit with ⟨hhup, hnone⟩ | ⟨limit, hsome, hcalled⟩
  · rw [hnone]
    exact h.awaitWrite hfreed hhup hbusy
  · rw [hsome]
    dsimp only
    have hlimit : Inv {o with send := {o.send with limit := limit}} :=
      h.withSend (h.send.limit limit) id h.sendOpen
    cases written with
    | wouldBlock =>
      dsimp only
      by_cases hhup : o.isHupd = true
      · rw [if_pos hhup]
        exact hlimit.reportError herror
      · rw [if_neg hhup]
        exact hlimit.awaitWrite hfreed (Bool.eq_false_iff.mpr hhup) hbusy
    | failed => exact hlimit.reportError herror
    | bytes n =>
      obtain ⟨hsends, hstale⟩ := hmeets hcalled
      have hpos : 0 < n := Nat.pos_of_ne_zero fun hzero => hsends (congrArg IoResult.bytes hzero)
      obtain ⟨half, hcomplete, hok⟩ := hlimit.send.complete hbusy hjob hpos (hfits n rfl)
      dsimp only
      rw [if_pos hpos, hcomplete]
      refine ⟨_, rfl, hok, h.recv, h.monitored, h.hupd, h.freed, fun hm hw => ?_, h.read, nofun⟩
      -- `WRITE` is not awaited any more, or the file descriptor not monitored
      exact absurd rfl (hstale (h.not_hupd hm) hw n)

/-- **An attempt to receive, under the condition.** -/
theorem Inv.connectionRecv (h : Inv o) (hfreed : o.freed = false) (herror : o.error = false) (hbusy : o.recv.state = .busy)
    (hjob : o.recv.job = false) (hfits : read.Fits o.recv.busyLen) (hmeets : o.RecvMeets read) :
    ∃ o', o.connectionRecv read = some o' ∧ Inv o' := by
  unfold BConnection.connectionRecv
  rw [if_pos ⟨herror, hbusy⟩]
  rcases attempt_cases o o.recv.limit with ⟨hhup, hnone⟩ | ⟨limit, hsome, hcalled⟩
  · rw [hnone]
    exact h.awaitRead hfreed hhup hbusy
  · rw [hsome]
    dsimp only
    have hlimit : Inv {o with recv := {o.recv with limit := limit}} := h.withRecv (h.recv.limit limit) id
    have hstale : ∀ n, read = .bytes n → o.bfd.isSome → o.waitEvents.read = true → False :=
      fun n hread hm hr => hmeets hcalled (h.not_hupd hm) hr n hread
    cases read with
    | wouldBlock =>
      dsimp only
      by_cases hhup : o.isHupd = true
      · rw [if_pos hhup]
        exact hlimit.reportError herror
      · rw [if_neg hhup]
        exact hlimit.awaitRead hfreed (Bool.eq_false_iff.mpr hhup) hbusy
    | failed => exact hlimit.reportError herror
    | bytes n =>
      cases n with
      | zero =>
        refine ⟨_, rfl, h.send, ⟨h.recv.books, ⟨hjob, h.recv.of_busy hbusy⟩, h.recv.positive⟩, h.monitored, h.hupd, h.freed,
          h.write, fun hm hr => (hstale 0 rfl hm hr).elim, h.sendOpen⟩
      | succ n =>
        obtain ⟨half, hcomplete, hok⟩ := hlimit.recv.complete hbusy hjob (Nat.succ_pos n) (hfits (n + 1) rfl)
        refine ⟨_, congrArg (Option.map fun half => ({o with recv := ⟨half, .ready⟩} : BConnection)) hcomplete, ?_⟩
        exact ⟨h.send, hok, h.monitored, h.hupd, h.freed, h.write, fun hm hr => (hstale _ rfl hm hr).elim, h.sendOpen⟩

/-! ### Events -/

theorem Inv.hangUp (h : Inv o) (hm : o.bfd.isSome) (events : Events) :
    ∃ o', o.hangUp events = some o' ∧ Inv o' ∧ o' = {o with bfd := o'.bfd, isHupd := events.hup} := by
  unfold BConnection.hangUp
  by_cases hhup : events.hup = true
  · rw [if_pos hhup]
    obtain ⟨awaited, hawaited⟩ := Option.isSome_iff_exists.mp hm
    refine ⟨{o with bfd := none, isHupd := true}, ?_, ?_, by rw [hhup]⟩
    · unfold removeFileDescriptor
      rw [hawaited]
      rfl
    · exact ⟨h.send, h.recv, fun _ hc => absurd hc nofun, fun _ => rfl, fun _ => rfl, fun hc => absurd hc nofun,
        fun hc => absurd hc nofun, h.sendOpen⟩
  · rw [if_neg hhup]
    refine ⟨o, rfl, h, ?_⟩
    rw [Bool.eq_false_iff.mpr hhup, ← h.not_hupd hm]

/-- **The events are handled, under the condition.** -/
theorem Inv.handleEvents (h : Inv o) (events : Events) (written read : IoResult) (hfreed : o.freed = false)
    (herror : o.error = false) (hsend : o.send.job = false) (hrecv : o.recv.job = false)
    (hsendFits : written.Fits o.send.busyLen) (hrecvFits : read.Fits o.recv.busyLen)
    (hwrite : events.write = true → o.send.state = .busy) (hread : events.read = true → o.recv.state = .busy)
    (hsends : o.haveSend events = true → o.SendMeets written)
    (hrecvs : o.haveSend events = false → o.haveRecv events = true → o.RecvMeets read) :
    ∃ o', o.handleEvents events written read = some o' ∧ Inv o' := by
  have hsendBusy : o.haveSend events = true → o.send.state = .busy := by
    intro hhave
    rcases Bool.or_eq_true_iff.mp hhave with hw | hother
    · exact hwrite hw
    · exact of_decide_eq_true (Bool.and_eq_true_iff.mp hother).2
  have hrecvBusy : o.haveRecv events = true → o.recv.state = .busy := by
    intro hhave
    rcases Bool.or_eq_true_iff.mp hhave with hr | hother
    · exact hread hr
    · exact of_decide_eq_true (Bool.and_eq_true_iff.mp hother).2
  unfold BConnection.handleEvents
  rw [if_pos ⟨hsendBusy, hrecvBusy⟩]
  by_cases hhaveSend : o.haveSend events = true
  · rw [if_pos hhaveSend]
    by_cases hhaveRecv : o.haveRecv events = true
    · rw [if_pos hhaveRecv]
      have hjob : Inv {o with recv := {o.recv with job := true}} :=
        h.withRecv (h.recv.job (hrecvBusy hhaveRecv) true) id
      exact hjob.connectionSend hfreed herror (hsendBusy hhaveSend) hsend hsendFits (hsends hhaveSend)
    · rw [if_neg hhaveRecv]
      exact h.connectionSend hfreed herror (hsendBusy hhaveSend) hsend hsendFits (hsends hhaveSend)
  · rw [if_neg hhaveSend]
    by_cases hhaveRecv : o.haveRecv events = true
    · rw [if_pos hhaveRecv]
      exact h.connectionRecv hfreed herror (hrecvBusy hhaveRecv) hrecv hrecvFits
        (hrecvs (Bool.eq_false_iff.mpr hhaveSend) hhaveRecv)
    · rw [if_neg hhaveRecv]
      by_cases hhup : o.isHupd = true
      · rw [if_pos hhup]
        exact ⟨o, rfl, h⟩
      · rw [if_neg hhup]
        exact h.reportError herror

theorem Inv.fd (h : Inv o) {events : Events} (hallowed : o.Allowed (.fd events written read))
    (hmeets : o.Meets (.fd events written read)) : ∃ o', o.step (.fd events written read) = some o' ∧ Inv o' := by
  obtain ⟨hfreed, herror, hsend, hrecv, ⟨awaited, hawaited, hread, hwrite⟩, hsendFits, hrecvFits⟩ := hallowed
  have hm : o.bfd.isSome := by
    rw [hawaited]
    rfl
  have hhup := h.not_hupd hm
  obtain rfl : awaited = o.waitEvents := Option.some.inj (hawaited.symm.trans (h.monitored hfreed hhup))
  obtain ⟨hwriteBusy, hreadBusy⟩ := h.awaited hfreed hhup
  let cleared : Awaited := ⟨o.waitEvents.read && !events.read, o.waitEvents.write && !events.write⟩
  have h₁ : Inv {o with waitEvents := cleared, bfd := some cleared} :=
    h.setEvents hfreed hhup (fun hc => hwriteBusy (Bool.and_eq_true_iff.mp hc).1)
      (fun hc => hreadBusy (Bool.and_eq_true_iff.mp hc).1)
  obtain ⟨o₂, h₂, hinv, hsame⟩ := h₁.hangUp rfl events
  obtain ⟨hsends, hrecvs⟩ := hmeets
  obtain ⟨o', h', hinv'⟩ := hinv.handleEvents events written read
    (by rw [hsame]; exact hfreed) (by rw [hsame]; exact herror) (by rw [hsame]; exact hsend.1) (by rw [hsame]; exact hrecv.1)
    (by rw [hsame]; exact hsendFits) (by rw [hsame]; exact hrecvFits)
    (by rw [hsame]; exact fun hw => hwriteBusy (hwrite hw)) (by rw [hsame]; exact fun hr => hreadBusy (hread hr))
    (by rw [hsame]; exact hsends) (by rw [hsame]; exact hrecvs)
  refine ⟨o', ?_, hinv'⟩
  show o.fdHandler events written read = some o'
  unfold fdHandler
  rw [if_pos ⟨herror, hhup⟩, show (o.clearEvents events).setEvents = _ from setEvents_eq h hfreed hhup cleared, Option.bind_some,
    h₂, Option.bind_some, h']

theorem Inv.sendOperation (h : Inv o) (hallowed : o.Allowed (.sendOperation written)) (hmeets : o.SendMeets written) :
    ∃ o', o.step (.sendOperation written) = some o' ∧ Inv o' := by
  obtain ⟨hfreed, herror, len, hpending, hfits⟩ := hallowed
  obtain ⟨hready, half, hop, hlen, hpos, hlimit, hjob, hok⟩ := h.send.operation hpending
  have hbusy : Inv {o with send := ⟨half, .busy⟩} := h.withSend hok (fun _ => rfl) nofun
  obtain ⟨o', h', hinv'⟩ := hbusy.connectionSend hfreed herror rfl hjob (by rw [hlen]; exact hfits) (by
    intro hcalled
    refine hmeets ?_
    rcases hcalled with hhup | hless
    · exact .inl hhup
    · exact .inr (hlimit ▸ hless))
  refine ⟨o', ?_, hinv'⟩
  show o.sendOperation written = some o'
  unfold BConnection.sendOperation
  rw [if_pos ⟨herror, hready⟩, hop, Option.bind_some, if_pos (by rw [hlen]; exact hpos), h']

theorem Inv.recvOperation (h : Inv o) (hallowed : o.Allowed (.recvOperation read)) (hmeets : o.RecvMeets read) :
    ∃ o', o.step (.recvOperation read) = some o' ∧ Inv o' := by
  obtain ⟨hfreed, herror, len, hpending, hfits⟩ := hallowed
  obtain ⟨hready, half, hop, hlen, hpos, hlimit, hjob, hok⟩ := h.recv.operation hpending
  have hbusy : Inv {o with recv := ⟨half, .busy⟩} := h.withRecv hok (fun _ => rfl)
  obtain ⟨o', h', hinv'⟩ := hbusy.connectionRecv hfreed herror rfl hjob (by rw [hlen]; exact hfits) (by
    intro hcalled
    refine hmeets ?_
    rcases hcalled with hhup | hless
    · exact .inl hhup
    · exact .inr (hlimit ▸ hless))
  refine ⟨o', ?_, hinv'⟩
  show o.recvOperation read = some o'
  unfold BConnection.recvOperation
  rw [if_pos ⟨herror, hready⟩, hop, Option.bind_some, if_pos (by rw [hlen]; exact hpos), h']

/-- The mask where it is freed of one event. -/
theorem Inv.unawait (h : Inv o) (hfreed : o.freed = false) (waitEvents : Awaited)
    (hwrite : waitEvents.write = true → o.waitEvents.write = true) (hread : waitEvents.read = true → o.waitEvents.read = true) :
    ∃ o', (if o.isHupd then some o else {o with waitEvents := waitEvents}.setEvents) = some o' ∧ Inv o' ∧
      o'.send = o.send ∧ o'.recv = o.recv ∧ (o'.bfd.isSome → o'.waitEvents = waitEvents) := by
  by_cases hhup : o.isHupd = true
  · rw [if_pos hhup]
    refine ⟨o, rfl, h, rfl, rfl, fun hm => ?_⟩
    exact absurd ((h.not_hupd hm).symm.trans hhup) nofun
  · have hhup : o.isHupd = false := Bool.eq_false_iff.mpr hhup
    obtain ⟨hwriteBusy, hreadBusy⟩ := h.awaited hfreed hhup
    rw [if_neg (by rw [hhup]; nofun), setEvents_eq h hfreed hhup waitEvents]
    exact ⟨_, rfl, h.setEvents hfreed hhup (fun hw => hwriteBusy (hwrite hw)) (fun hr => hreadBusy (hread hr)), rfl, rfl,
      fun _ => rfl⟩

theorem Inv.sendFree (h : Inv o) (hallowed : o.Allowed .sendFree) : ∃ o', o.step .sendFree = some o' ∧ Inv o' := by
  obtain ⟨hfreed, hstate⟩ := hallowed
  obtain ⟨o₁, h₁, hinv, hsend, hrecv, hmask⟩ :=
    h.unawait hfreed {o.waitEvents with write := false} nofun id
  have hinited : o.send.state = .ready ∨ o.send.state = .busy := by
    cases hs : o.send.state with
    | notInited => exact absurd hs hstate
    | ready => exact .inl rfl
    | busy => exact .inr rfl
    | initedClosed => exact absurd hs h.sendOpen
  refine ⟨{o₁ with send := ⟨o₁.send.drop, .notInited⟩}, ?_, ?_⟩
  · show o.sendFree = _
    unfold BConnection.sendFree
    rw [if_pos hinited, h₁]
    rfl
  · refine ⟨hinv.send.drop, hinv.recv, hinv.monitored, hinv.hupd, hinv.freed, fun hm hw => ?_, hinv.read, nofun⟩
    have hw : o₁.waitEvents.write = true := hw
    rw [hmask hm] at hw
    cases hw

theorem Inv.recvFree (h : Inv o) (hallowed : o.Allowed .recvFree) : ∃ o', o.step .recvFree = some o' ∧ Inv o' := by
  obtain ⟨hfreed, hstate⟩ := hallowed
  obtain ⟨o₁, h₁, hinv, hsend, hrecv, hmask⟩ :=
    h.unawait hfreed {o.waitEvents with read := false} id nofun
  have hinited : o.recv.state = .ready ∨ o.recv.state = .busy ∨ o.recv.state = .initedClosed := by
    cases hs : o.recv.state with
    | notInited => exact absurd hs hstate
    | ready => exact .inl rfl
    | busy => exact .inr (.inl rfl)
    | initedClosed => exact .inr (.inr rfl)
  refine ⟨{o₁ with recv := ⟨o₁.recv.drop, .notInited⟩}, ?_, ?_⟩
  · show o.recvFree = _
    unfold BConnection.recvFree
    rw [if_pos hinited, h₁]
    rfl
  · refine ⟨hinv.send, hinv.recv.drop, hinv.monitored, hinv.hupd, hinv.freed, hinv.write, fun hm hr => ?_, hinv.sendOpen⟩
    have hr : o₁.waitEvents.read = true := hr
    rw [hmask hm] at hr
    cases hr

theorem Inv.free (h : Inv o) (hallowed : o.Allowed .free) : ∃ o', o.step .free = some o' ∧ Inv o' := by
  obtain ⟨hfreed, hstates⟩ := hallowed
  have hremove : ∃ o₁, (if o.isHupd then some o else o.removeFileDescriptor) = some o₁ ∧
      o₁ = {o with bfd := none} := by
    by_cases hhup : o.isHupd = true
    · rw [if_pos hhup, ← h.hupd hhup]
      exact ⟨o, rfl, rfl⟩
    · rw [if_neg hhup, removeFileDescriptor, h.monitored hfreed (Bool.eq_false_iff.mpr hhup)]
      exact ⟨_, rfl, rfl⟩
  obtain ⟨o₁, h₁, rfl⟩ := hremove
  refine ⟨{o with bfd := none, freed := true}, ?_, ?_⟩
  · show o.free = _
    unfold BConnection.free
    rw [if_pos hstates, h₁]
    rfl
  · exact ⟨h.send, h.recv, fun hc => absurd hc nofun, fun _ => rfl, fun _ => rfl, fun hc => absurd hc nofun,
      fun hc => absurd hc nofun, h.sendOpen⟩

/-- **No event fails under the condition, and it keeps the invariant.** -/
theorem Inv.step (h : Inv o) {e : ConnectionEvent} (hallowed : o.Allowed e) (hmeets : o.Meets e) :
    ∃ o', o.step e = some o' ∧ Inv o' := by
  cases e with
  | fd events written read => exact h.fd hallowed hmeets
  | sendJob written =>
    obtain ⟨hfreed, herror, hjob, hfits⟩ := hallowed
    have hbusy : o.send.state = .busy := by
      have hshape := h.send.shape
      cases hs : o.send.state with
      | notInited =>
        rw [hs] at hshape
        exact absurd (hshape.2.symm.trans hjob) nofun
      | ready =>
        rw [hs] at hshape
        exact absurd (hshape.1.symm.trans hjob) nofun
      | busy => rfl
      | initedClosed => exact absurd hs h.sendOpen
    have hnoJob : Inv {o with send := {o.send with job := false}} := h.withSend h.send.noJob id h.sendOpen
    exact hnoJob.connectionSend hfreed herror hbusy rfl hfits hmeets
  | recvJob read =>
    obtain ⟨hfreed, herror, hjob, hfits⟩ := hallowed
    have hbusy : o.recv.state = .busy := by
      have hshape := h.recv.shape
      cases hs : o.recv.state with
      | notInited =>
        rw [hs] at hshape
        exact absurd (hshape.2.symm.trans hjob) nofun
      | ready =>
        rw [hs] at hshape
        exact absurd (hshape.1.symm.trans hjob) nofun
      | busy => rfl
      | initedClosed =>
        rw [hs] at hshape
        exact absurd (hshape.1.symm.trans hjob) nofun
    have hnoJob : Inv {o with recv := {o.recv with job := false}} := h.withRecv h.recv.noJob id
    exact hnoJob.connectionRecv hfreed herror hbusy rfl hfits hmeets
  | send len =>
    obtain ⟨-, -, hlen, hstate, hidle⟩ := hallowed
    obtain ⟨half, hstart, hok⟩ := h.send.start hstate hidle hlen
    exact ⟨_, congrArg (Option.map _) hstart, h.withSend hok id h.sendOpen⟩
  | sendOperation written => exact h.sendOperation hallowed hmeets
  | sendDone =>
    obtain ⟨-, -, n, hdone⟩ := hallowed
    obtain ⟨half, htell, hok⟩ := h.send.tell hdone
    exact ⟨_, congrArg (Option.map _) htell, h.withSend hok id h.sendOpen⟩
  | recv avail =>
    obtain ⟨-, -, hlen, hstate, hidle⟩ := hallowed
    obtain ⟨half, hstart, hok⟩ := h.recv.start hstate hidle hlen
    exact ⟨_, congrArg (Option.map _) hstart, h.withRecv hok id⟩
  | recvOperation read => exact h.recvOperation hallowed hmeets
  | recvDone =>
    obtain ⟨-, -, n, hdone⟩ := hallowed
    obtain ⟨half, htell, hok⟩ := h.recv.tell hdone
    exact ⟨_, congrArg (Option.map _) htell, h.withRecv hok id⟩
  | sendInit =>
    obtain ⟨-, herror, hstate⟩ := hallowed
    refine ⟨_, if_pos ⟨herror, hstate⟩, h.withSend (h.send.create hstate) (fun hbusy => ?_) nofun⟩
    exact absurd (hstate.symm.trans hbusy) nofun
  | sendFree => exact h.sendFree hallowed
  | recvInit =>
    obtain ⟨-, herror, hstate⟩ := hallowed
    refine ⟨_, if_pos ⟨herror, hstate⟩, h.withRecv (h.recv.create hstate) (fun hbusy => ?_)⟩
    exact absurd (hstate.symm.trans hbusy) nofun
  | recvFree => exact h.recvFree hallowed
  | free => exact h.free hallowed
  | wait =>
    have hsend : Inv {o with send := {o.send with limit := o.send.limit.reset}} :=
      h.withSend (h.send.limit o.send.limit.reset) id h.sendOpen
    exact ⟨_, rfl, hsend.withRecv (h.recv.limit o.recv.limit.reset) id⟩

/-! ### Runs -/

theorem inv_init : Inv init where
  send := ⟨rfl, ⟨rfl, rfl⟩, nofun⟩
  recv := ⟨rfl, ⟨rfl, rfl⟩, nofun⟩
  monitored _ _ := rfl
  hupd := nofun
  freed := nofun
  write _ := nofun
  read _ := nofun
  sendOpen := nofun

/-- What is monitored is what is awaited. -/
theorem Inv.bfd_eq (h : Inv o) {awaited : Awaited} (hawaited : o.bfd = some awaited) : awaited = o.waitEvents := by
  have hm : o.bfd.isSome := by
    rw [hawaited]
    rfl
  have hfreed : o.freed = false := by
    by_contra hfreed
    rw [h.freed (Bool.not_eq_false _ ▸ hfreed)] at hm
    cases hm
  exact Option.some.inj (hawaited.symm.trans (h.monitored hfreed (h.not_hupd hm)))

theorem Inv.sound (h : Inv o) : Sound o where
  write _ hawaited hw := h.write (Option.isSome_of_eq_some hawaited) (h.bfd_eq hawaited ▸ hw)
  read _ hawaited hr := h.read (Option.isSome_of_eq_some hawaited) (h.bfd_eq hawaited ▸ hr)
  hupd := h.hupd
  sends := h.send.books
  recvs := h.recv.books

/-- **In every run whose attempts meet the condition no assertion fails, and what is awaited,
called and completed is right.** -/
theorem connection_sound (es : List ConnectionEvent)
    (h : Run.AllSteps step (fun o e => o.Allowed e ∧ o.Meets e) init es) :
    ∃ o, Run.run step init es = some o ∧ Sound o := by
  obtain ⟨o, hrun, hinv⟩ := Run.run_progress Inv (fun _ _ ho he => ho.step he.1 he.2) h inv_init
  exact ⟨o, hrun, hinv.sound⟩

/-- A send of ten bytes waits for the file descriptor, and the `WRITE` event sends them. -/
def blockedThenSent : List ConnectionEvent :=
  [.sendInit, .send 10, .sendOperation .wouldBlock, .fd ⟨false, true, false, false⟩ (.bytes 10) .wouldBlock, .sendDone]

/-- The send completes, and nothing is awaited any more. -/
theorem connection_sound_send : Run.AllSteps step (fun o e => o.Allowed e ∧ o.Meets e) init blockedThenSent ∧
    ∃ o, Run.run step init blockedThenSent = some o ∧ o.bfd = some ⟨false, false⟩ ∧ o.send.iface = .idle ∧ Sound o := by
  have h : Run.AllSteps step (fun o e => o.Allowed e ∧ o.Meets e) init blockedThenSent := by
    refine ⟨⟨⟨rfl, rfl, rfl⟩, trivial⟩, fun o₁ h₁ => ?_⟩
    cases h₁
    refine ⟨⟨⟨rfl, rfl, by decide, nofun, rfl⟩, trivial⟩, fun o₂ h₂ => ?_⟩
    cases h₂
    refine ⟨⟨⟨rfl, rfl, 10, rfl, nofun⟩, fun _ => ⟨nofun, fun _ hw => absurd hw nofun⟩⟩, fun o₃ h₃ => ?_⟩
    cases h₃
    refine ⟨⟨⟨rfl, rfl, ⟨rfl, nofun, nofun⟩, ⟨rfl, nofun, nofun⟩, ⟨⟨false, true⟩, rfl, nofun, fun _ => rfl⟩, ?_, nofun⟩,
      ?_, fun hw => absurd hw nofun⟩, fun o₄ h₄ => ?_⟩
    · intro n hn
      cases hn
      decide
    · -- The event took `WRITE` off what is awaited.
      exact fun _ _ => ⟨nofun, fun _ hw => absurd hw nofun⟩
    cases h₄
    exact ⟨⟨⟨rfl, rfl, 10, rfl⟩, trivial⟩, fun _ _ => trivial⟩
  obtain ⟨o, hrun, hsound⟩ := connection_sound blockedThenSent h
  cases hrun
  exact ⟨h, _, rfl, rfl, rfl, hsound⟩

/-- A send of ten bytes waits for the file descriptor, and an `ERROR` event sends them. -/
def errorThenSent : List ConnectionEvent :=
  [.sendInit, .send 10, .sendOperation .wouldBlock, .fd ⟨false, false, true, false⟩ (.bytes 10) .wouldBlock, .sendDone]

/-- The next `WRITE` event finds that no send is busy. -/
theorem error_then_write : Run.AllSteps step Allowed init errorThenSent ∧
    ∃ o, Run.run step init errorThenSent = some o ∧ ¬ Sound o ∧
      o.Allowed (.fd ⟨false, true, false, false⟩ .wouldBlock .wouldBlock) ∧
      o.step (.fd ⟨false, true, false, false⟩ .wouldBlock .wouldBlock) = none := by
  constructor
  · refine ⟨⟨rfl, rfl, rfl⟩, fun o₁ h₁ => ?_⟩
    cases h₁
    refine ⟨⟨rfl, rfl, by decide, nofun, rfl⟩, fun o₂ h₂ => ?_⟩
    cases h₂
    refine ⟨⟨rfl, rfl, 10, rfl, nofun⟩, fun o₃ h₃ => ?_⟩
    cases h₃
    refine ⟨⟨rfl, rfl, ⟨rfl, nofun, nofun⟩, ⟨rfl, nofun, nofun⟩, ⟨⟨false, true⟩, rfl, nofun, nofun⟩, ?_, nofun⟩,
      fun o₄ h₄ => ?_⟩
    · intro n hn
      cases hn
      decide
    cases h₄
    exact ⟨⟨rfl, rfl, 10, rfl⟩, fun _ _ => trivial⟩
  · refine ⟨_, rfl, fun hsound => ?_, ?_, rfl⟩
    · exact absurd (hsound.write ⟨false, true⟩ rfl rfl) nofun
    · exact ⟨rfl, rfl, ⟨rfl, nofun, nofun⟩, ⟨rfl, nofun, nofun⟩, ⟨⟨false, true⟩, rfl, nofun, fun _ => rfl⟩, nofun, nofun⟩

end TwilightLine.BConnection
