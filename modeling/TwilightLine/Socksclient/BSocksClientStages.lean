import Mathlib.Data.List.Infix
import TwilightLine.Socksclient.BSocksClientReplies

/-! Where the SOCKS client is in its exchanges with the server.

While nothing went wrong the client is connecting, about to begin, sending a message,
receiving a reply, or up (`Stage`); `Exchange` and `Reply` say which message and which
reply belong to which state. What was sent, received and reported obeys `Law` also after an
error and after the object is freed. -/
namespace TwilightLine.Socks

open Lib SocksUdp

/-- The request of the client. -/
def req (o : BSocksClient) : List UInt8 :=
  match socksAtyp o.destAddr with
  | some atyp => request o.udp atyp o.destAddr
  | none => []

/-- The message that is sent in a state, what was sent before it, and what was received. -/
inductive Exchange (authInfo : List AuthInfo) (o : BSocksClient) :
    SocksState → List UInt8 → List UInt8 → List UInt8 → Prop
  | hello : Exchange authInfo o .sendingHello (hello authInfo) [] []
  | password {username password : List UInt8}
    (h : chosen authInfo socksMethodUsernamePassword = some (.password username password)) :
    Exchange authInfo o .sendingPassword (passwordPacket username password) (hello authInfo)
      [socksVersion, socksMethodUsernamePassword]
  | request {replies before : List UInt8} (h : Authenticated authInfo replies before) :
    Exchange authInfo o .sendingRequest (req o) before replies

/-- What was sent and received before the reply of a state, and where in the buffer how much
of it is received. -/
inductive Reply (authInfo : List AuthInfo) (o : BSocksClient) : SocksState → List UInt8 → List UInt8 → Nat → Nat → Prop
  | hello : Reply authInfo o .sentHello (hello authInfo) [] 0 socksServerHelloSize
  | password {username password : List UInt8}
    (h : chosen authInfo socksMethodUsernamePassword = some (.password username password)) :
    Reply authInfo o .sentPassword (Socks.hello authInfo ++ passwordPacket username password)
      [socksVersion, socksMethodUsernamePassword] 0 2
  | header {replies before : List UInt8} (h : Authenticated authInfo replies before) :
    Reply authInfo o .sentRequest (before ++ req o) replies 0 socksReplyHeaderSize
  | address4 {replies before : List UInt8} (h : Authenticated authInfo replies before) (rsv : UInt8)
    (haddr : o.bindAddr.type = 1) :
    Reply authInfo o .receivedReplyHeader (before ++ req o)
      (replies ++ [socksVersion, socksRepSucceeded, rsv, socksAtypIpv4]) socksReplyHeaderSize addrIpv4Size
  | address6 {replies before : List UInt8} (h : Authenticated authInfo replies before) (rsv : UInt8)
    (haddr : o.bindAddr.type = 2) :
    Reply authInfo o .receivedReplyHeader (before ++ req o)
      (replies ++ [socksVersion, socksRepSucceeded, rsv, socksAtypIpv6]) socksReplyHeaderSize addrIpv6Size

/-- The size of the buffer for the reply. -/
def replySize : SocksState → Nat
  | .sentHello => socksServerHelloSize
  | .sentPassword => 2
  | _ => socksReplyHeaderSize + max addrIpv4Size addrIpv6Size

/-- How many bytes of the reply have come. -/
inductive RecvAt (c : Control) : Nat → Prop
  | asked (h : c.recvIf = .operationPending (c.recvDest + c.recvLen, c.recvTotal - c.recvLen) ∨
      c.recvIf = .busy (c.recvDest + c.recvLen, c.recvTotal - c.recvLen)) (hlt : c.recvLen < c.recvTotal) :
    RecvAt c c.recvLen
  | arrived (n : Nat) (h : c.recvIf = .donePending n) (hn : 0 < n) (hle : c.recvLen + n ≤ c.recvTotal) :
    RecvAt c (c.recvLen + n)

/-- A part of a reply has been received. -/
structure Receiving (s : SocksRun) (c : Control) (replies : List UInt8) (dest total : Nat) (part : List UInt8) : Prop where
  control : s.o.control = some c
  sender : c.sendSender.Rest
  mtu : c.sendSender.input.mtu = intMax
  recvDest : c.recvDest = dest
  recvTotal : c.recvTotal = total
  pos : RecvAt c part.length
  consumed : s.consumed = replies ++ part
  buffer : readBytes s.o.buffer dest part.length = part
  size : s.o.bufferSize = some (replySize s.o.state)

/-- A part of a message has been sent. -/
structure Sending (s : SocksRun) (c : Control) (message got : List UInt8) : Prop where
  control : s.o.control = some c
  recvIf : c.recvIf = .idle
  mtu : c.sendSender.input.mtu = intMax
  sender : c.sendSender.At message got

/-- Where the client is, while nothing has gone wrong. -/
inductive Stage (authInfo : List AuthInfo) (s : SocksRun) : Prop
  | connecting (hstate : s.o.state = .connecting) (hcontrol : s.o.control = none) (hjob : s.o.continueJob = false)
    (hevents : s.events = []) (hsent : s.sent = []) (hconsumed : s.consumed = [])
  | connected (hstate : s.o.state = .connectedHandler) (hcontrol : s.o.control = some initControlIo)
    (hjob : s.o.continueJob = true) (hevents : s.events = [.connected]) (hsent : s.sent = [])
    (hconsumed : s.consumed = [])
  | sending {message before replies : List UInt8} (c : Control) (got : List UInt8)
    (ex : Exchange authInfo s.o s.o.state message before replies) (hs : Sending s c message got)
    (hjob : s.o.continueJob = false) (hevents : s.events = [.connected]) (hsent : s.sent = before ++ got)
    (hconsumed : s.consumed = replies)
  | receiving {sent replies : List UInt8} {dest total : Nat} (c : Control) (part : List UInt8)
    (rp : Reply authInfo s.o s.o.state sent replies dest total) (hr : Receiving s c replies dest total part)
    (hjob : s.o.continueJob = false) (hevents : s.events = [.connected]) (hsent : s.sent = sent)
  | up {before : List UInt8} (hstate : s.o.state = .up) (hcontrol : s.o.control = none)
    (hjob : s.o.continueJob = false) (hevents : s.events = [.connected, .up])
    (hacc : Accepted authInfo s.consumed before s.o.bindAddr) (hsent : s.sent = before ++ req s.o)

/-- The events that a client may report, in their order. -/
def reports : List (List SocksEvent) :=
  [[], [.error], [.connected], [.connected, .error], [.connected, .up], [.connected, .up, .error],
    [.connected, .up, .errorClosed]]

/-- What the client has to say, after all that it received. -/
def messages (authInfo : List AuthInfo) (s : SocksRun) : List UInt8 :=
  hello authInfo ++ answer authInfo (req s.o) s.consumed

/-- What holds of a client at any time. -/
structure Law (authInfo : List AuthInfo) (s : SocksRun) : Prop where
  /-- It reports `CONNECTED` before `UP`, and at most one error, after which it reports nothing. -/
  events : s.events ∈ reports
  /-- It sends its messages in their order. -/
  sent : s.sent <+: messages authInfo s
  /-- It is up with the replies of an accepting server only, whose address it records. -/
  up : .up ∈ s.events → ∃ before, Accepted authInfo s.consumed before s.o.bindAddr ∧ s.sent = before ++ req s.o
  /-- It receives not one byte behind the replies. -/
  exact : ∀ t before addr, Accepted authInfo t before addr → t <+: s.consumed → t = s.consumed
  /-- It refuses only what an accepting server does not say. -/
  refused : s.refused = true → s.o.destAddr.isIp → ∀ t before addr, Accepted authInfo t before addr → ¬s.consumed <+: t

variable {authInfo : List AuthInfo} {s s' : SocksRun} {o : BSocksClient} {c c' : Control}

/-! ### What a stage says about the law -/

theorem RecvAt.le {n : Nat} (h : RecvAt c n) : n ≤ c.recvTotal := by
  cases h with
  | asked _ hlt => exact hlt.le
  | arrived _ _ _ hle => exact hle

theorem RecvAt.done {k n : Nat} (h : RecvAt c k) (hn : c.recvIf = .donePending n) :
    k = c.recvLen + n ∧ c.recvLen + n ≤ c.recvTotal := by
  cases h with
  | asked h => rcases h with h | h <;> cases h.symm.trans hn
  | arrived _ h _ hle =>
    cases h.symm.trans hn
    exact ⟨rfl, hle⟩

/-- A reply fits into the buffer. -/
theorem Reply.fits {state : SocksState} {sent replies : List UInt8} {dest total : Nat}
    (rp : Reply authInfo o state sent replies dest total) : dest + total ≤ replySize state := by
  cases rp <;> decide

theorem Receiving.part_le {replies part : List UInt8} {dest total : Nat} (h : Receiving s c replies dest total part) :
    part.length ≤ total := h.recvTotal ▸ h.pos.le

/-- The replies before are shorter than those of an accepting server, or all but the address. -/
theorem Reply.exact {sent replies part t before : List UInt8} {dest total : Nat} {addr : BAddr}
    (rp : Reply authInfo o o.state sent replies dest total) (hle : part.length ≤ total)
    (hacc : Accepted authInfo t before addr) (ht : t <+: replies ++ part) : t = replies ++ part ∧ part.length = total := by
  have hlength := hacc.length.trans ht.length_le
  rw [List.length_append] at hlength
  have haddress : ∀ {replies' before' : List UInt8} {rsv atyp : UInt8} {total : Nat},
      Authenticated authInfo replies' before' → (∀ a : BAddr, socksAtyp a = some atyp → a.packed.length = total) →
      part.length ≤ total → t <+: replies' ++ [socksVersion, socksRepSucceeded, rsv, atyp] ++ part →
      t = replies' ++ [socksVersion, socksRepSucceeded, rsv, atyp] ++ part ∧ part.length = total := by
    intro replies' before' rsv atyp total hauth htotal hle ht
    obtain ⟨more, hmore⟩ := ht
    cases hacc with
    | intro hauth' rsv' haddr =>
      rw [List.append_assoc, List.append_assoc, List.append_assoc] at hmore
      obtain ⟨rfl, -, htail⟩ := authenticated_unique hauth' hauth hmore
      simp only [List.cons_append, List.nil_append, List.cons.injEq, true_and] at htail
      obtain ⟨rfl, rfl, htail⟩ := htail
      have hlen := congrArg List.length htail
      rw [List.length_append, htotal _ haddr] at hlen
      have hmore : more = [] := List.length_eq_zero_iff.mp (by omega)
      rw [hmore, List.append_nil] at htail
      rw [htail]
      exact ⟨rfl, by omega⟩
  generalize o.state = state at rp
  cases rp with
  | hello =>
    simp only [List.length_nil, socksServerHelloSize] at hlength hle
    omega
  | password =>
    simp only [List.length_cons, List.length_nil] at hlength
    omega
  | header hauth =>
    have := hauth.length
    unfold socksReplyHeaderSize at hle
    omega
  | address4 hauth rsv =>
    exact haddress hauth (fun a ha => (packed_length ha).trans (if_pos rfl)) hle ht
  | address6 hauth rsv =>
    exact haddress hauth (fun a ha => (packed_length ha).trans (if_neg (by decide))) hle ht

/-- What was sent before a message, with the message, is the beginning of what has to be said. -/
theorem Exchange.isPrefix {state : SocksState} {message before replies : List UInt8}
    (ex : Exchange authInfo o state message before replies) :
    before ++ message <+: Socks.hello authInfo ++ answer authInfo (req o) replies := by
  cases ex with
  | hello => exact List.prefix_append ..
  | password h =>
    simp only [answer, ne_eq, not_true_eq_false, if_false]
    rw [h]
    exact List.prefix_append_right_inj _ |>.mpr (List.prefix_append ..)
  | request h =>
    have heq := h.answer (req o) []
    rw [List.append_nil] at heq
    rw [heq]

theorem Exchange.short {state : SocksState} {message before replies : List UInt8}
    (ex : Exchange authInfo o state message before replies) : replies.length ≤ 4 := by
  cases ex with
  | hello => exact Nat.zero_le _
  | password => exact (by decide : 2 ≤ 4)
  | request h => exact h.length.2

theorem Reply.isPrefix {state : SocksState} {sent replies : List UInt8} {dest total : Nat}
    (rp : Reply authInfo o state sent replies dest total) (part : List UInt8) :
    sent <+: Socks.hello authInfo ++ answer authInfo (req o) (replies ++ part) := by
  cases rp with
  | hello => exact List.prefix_append ..
  | password h =>
    simp only [List.cons_append, List.nil_append, answer, ne_eq, not_true_eq_false, if_false]
    rw [h, ← List.append_assoc]
    exact List.prefix_append ..
  | header h =>
    rw [h.answer]
  | address4 h rsv _ | address6 h rsv _ =>
    rw [List.append_assoc, h.answer]

/-- Before a reply is complete nothing more has to be said. -/
theorem Reply.settled {state : SocksState} {sent replies part : List UInt8} {dest total : Nat}
    (rp : Reply authInfo o state sent replies dest total) (hlt : part.length < total) :
    sent = Socks.hello authInfo ++ answer authInfo (req o) (replies ++ part) := by
  cases rp with
  | hello =>
    match part, hlt with
    | [], _ => exact (List.append_nil _).symm
    | [_], _ => exact (List.append_nil _).symm
  | password h =>
    have hnil : answerPassword (req o) part = [] := by
      match part, hlt with
      | [], _ => rfl
      | [_], _ => exact answerPassword.eq_2 _ _ (fun _ heq => nomatch heq)
    simp only [List.cons_append, List.nil_append, answer, ne_eq, not_true_eq_false, if_false]
    rw [h]
    show _ = _ ++ (_ ++ answerPassword (req o) part)
    rw [hnil, List.append_nil]
  | header h => rw [h.answer]
  | address4 h rsv _ | address6 h rsv _ => rw [List.append_assoc, h.answer]

/-- **While nothing has gone wrong the law holds.** -/
theorem Stage.law (st : Stage authInfo s) (href : s.refused = false) : Law authInfo s := by
  have hrefused : s.refused = true → s.o.destAddr.isIp →
      ∀ t before addr, Accepted authInfo t before addr → ¬s.consumed <+: t := by
    intro h
    rw [href] at h
    cases h
  have hshort : ∀ {replies : List UInt8}, s.consumed = replies → replies.length ≤ 4 →
      ∀ t before addr, Accepted authInfo t before addr → t <+: s.consumed → t = s.consumed := by
    intro replies hconsumed hle t before addr hacc ht
    have := hacc.length.trans ht.length_le
    rw [hconsumed] at this
    omega
  cases st with
  | connecting _ _ _ hevents hsent hconsumed =>
    refine ⟨by simp [hevents, reports], ?_, by simp [hevents], hshort hconsumed (Nat.zero_le 4), hrefused⟩
    rw [hsent]
    exact List.nil_prefix
  | connected _ _ _ hevents hsent hconsumed =>
    refine ⟨by simp [hevents, reports], ?_, by simp [hevents], hshort hconsumed (Nat.zero_le 4), hrefused⟩
    rw [hsent]
    exact List.nil_prefix
  | sending c got ex hs _ hevents hsent hconsumed =>
    refine ⟨by simp [hevents, reports], ?_, by simp [hevents], hshort hconsumed ex.short, hrefused⟩
    rw [hsent, messages, hconsumed]
    exact ((List.prefix_append_right_inj _).mpr hs.sender.isPrefix_packet).trans ex.isPrefix
  | receiving c part rp hr _ hevents hsent =>
    refine ⟨by simp [hevents, reports], ?_, by simp [hevents], ?_, hrefused⟩
    · rw [hsent, messages, hr.consumed]
      exact rp.isPrefix part
    · intro t before addr hacc ht
      rw [hr.consumed] at ht ⊢
      exact (rp.exact hr.part_le hacc ht).1
  | @up before _ _ _ hevents hacc hsent =>
    refine ⟨by simp [hevents, reports], ?_, fun _ => ⟨before, hacc, hsent⟩,
      fun t _ _ hacc' ht => accepted_unique hacc' hacc ht, hrefused⟩
    rw [hsent, messages]
    generalize s.consumed = consumed at hacc
    cases hacc with
    | intro hauth =>
      rw [List.append_assoc, hauth.answer]

end TwilightLine.Socks
