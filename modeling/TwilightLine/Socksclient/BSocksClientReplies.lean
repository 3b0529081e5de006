import TwilightLine.Socksclient.BSocksClient

/-! What a SOCKS server may answer, and what the client says to it.

A server accepts with the replies of `Accepted`. They are told apart from all others, and
from their own beginnings, as they come (`accepted_unique`, `Accepted.length`). `answer` is
what the client has to say after some of the replies. -/
namespace TwilightLine.Socks

open SocksUdp

/-- The list can be offered: 1 to 255 methods, and every name and password has 1 to 255 bytes. -/
structure ValidAuth (authInfo : List AuthInfo) : Prop where
  pos : 0 < authInfo.length
  le : authInfo.length ≤ 255
  passwords : ∀ username password, .password username password ∈ authInfo →
    (0 < username.length ∧ username.length ≤ 255) ∧ 0 < password.length ∧ password.length ≤ 255

instance (ai : AuthInfo) : Decidable (∀ username password, .password username password = ai →
    (0 < username.length ∧ username.length ≤ 255) ∧ 0 < password.length ∧ password.length ≤ 255) :=
  match ai with
  | .none => isTrue nofun
  | .password u p =>
    decidable_of_iff ((0 < u.length ∧ u.length ≤ 255) ∧ 0 < p.length ∧ p.length ≤ 255)
      ⟨fun h _ _ heq => by cases heq; exact h, fun h => h u p rfl⟩

/-- The first entry of the list with the method. -/
def chosen (authInfo : List AuthInfo) (method : UInt8) : Option AuthInfo :=
  authInfo.find? fun ai => ai.authType = method

/-- The server has authenticated the client: its replies so far, and what the client has sent. -/
inductive Authenticated (authInfo : List AuthInfo) : List UInt8 → List UInt8 → Prop
  | none (h : chosen authInfo socksMethodNoAuthenticationRequired = some .none) :
    Authenticated authInfo [socksVersion, socksMethodNoAuthenticationRequired] (hello authInfo)
  | password (username password : List UInt8)
    (h : chosen authInfo socksMethodUsernamePassword = some (.password username password)) :
    Authenticated authInfo [socksVersion, socksMethodUsernamePassword, 1, 0]
      (hello authInfo ++ passwordPacket username password)

/-- The server has accepted the request: all its replies, what the client had sent before the
request, and the address in the last reply. -/
inductive Accepted (authInfo : List AuthInfo) : List UInt8 → List UInt8 → BAddr → Prop
  | intro {replies before : List UInt8} (h : Authenticated authInfo replies before) (rsv : UInt8) {atyp : UInt8}
    {bindAddr : BAddr} (haddr : socksAtyp bindAddr = some atyp) :
    Accepted authInfo (replies ++ [socksVersion, socksRepSucceeded, rsv, atyp] ++ bindAddr.packed) before bindAddr

/-- What the client says after its password. -/
def answerPassword (request : List UInt8) : List UInt8 → List UInt8
  | 1 :: 0 :: _ => request
  | _ => []

/-- What the client says after its hello, when it has received these bytes. -/
def answer (authInfo : List AuthInfo) (request : List UInt8) : List UInt8 → List UInt8
  | version :: method :: rest =>
    if version ≠ socksVersion then []
    else
      match chosen authInfo method with
      | none => []
      | some .none => request
      | some (.password username password) =>
        passwordPacket username password ++ answerPassword request rest
  | _ => []

variable {authInfo : List AuthInfo} {replies replies' before before' rest rest' t t' : List UInt8} {addr addr' : BAddr}

theorem chosen_authType {method : UInt8} {ai : AuthInfo} (h : chosen authInfo method = some ai) : ai.authType = method := by
  simpa using List.find?_some h

/-- The first method that matches is the one of its kind. -/
theorem chosen_none {method : UInt8} (h : chosen authInfo method = some .none) :
    method = socksMethodNoAuthenticationRequired := (chosen_authType h).symm

theorem chosen_password {method : UInt8} {username password : List UInt8}
    (h : chosen authInfo method = some (.password username password)) : method = socksMethodUsernamePassword :=
  (chosen_authType h).symm

theorem Authenticated.length (h : Authenticated authInfo replies before) : 2 ≤ replies.length ∧ replies.length ≤ 4 := by
  cases h <;> simp

/-- Authentication ends in one way only. -/
theorem authenticated_unique (h : Authenticated authInfo replies before) (h' : Authenticated authInfo replies' before')
    (heq : replies ++ rest = replies' ++ rest') : replies = replies' ∧ before = before' ∧ rest = rest' := by
  cases h with
  | none hnone =>
    cases h' with
    | none => exact ⟨rfl, rfl, by simpa using heq⟩
    | password => simp [socksMethodNoAuthenticationRequired, socksMethodUsernamePassword] at heq
  | password username password hpassword =>
    cases h' with
    | none => simp [socksMethodNoAuthenticationRequired, socksMethodUsernamePassword] at heq
    | password username' password' hpassword' =>
      cases hpassword.symm.trans hpassword'
      exact ⟨rfl, rfl, by simpa using heq⟩

theorem packed_length {atyp : UInt8} (h : socksAtyp addr = some atyp) :
    addr.packed.length = if atyp = socksAtypIpv4 then addrIpv4Size else addrIpv6Size := by
  cases addr with
  | none => cases h
  | ipv4 ip port =>
    cases h
    rfl
  | ipv6 ip port =>
    cases h
    simp [BAddr.packed, socksAtypIpv4, socksAtypIpv6, addrIpv6Size]

theorem Accepted.length (h : Accepted authInfo t before addr) : 12 ≤ t.length := by
  cases h with
  | intro hauth rsv haddr =>
    have := hauth.length
    have hpacked := packed_length haddr
    simp only [List.length_append, List.length_cons, List.length_nil]
    unfold addrIpv4Size addrIpv6Size at hpacked
    split at hpacked <;> omega

theorem socksAtyp_cases {atyp : UInt8} (h : socksAtyp addr = some atyp) : atyp = socksAtypIpv4 ∨ atyp = socksAtypIpv6 := by
  cases addr with
  | none => cases h
  | ipv4 => exact .inl (Option.some.inj h).symm
  | ipv6 => exact .inr (Option.some.inj h).symm

/-- **The answers of an accepting server end where they end.** -/
theorem accepted_unique (h : Accepted authInfo t before addr) (h' : Accepted authInfo t' before' addr') (hle : t <+: t') :
    t = t' := by
  obtain ⟨more, hmore⟩ := hle
  cases h with
  | intro hauth rsv haddr =>
    cases h' with
    | intro hauth' rsv' haddr' =>
      rw [List.append_assoc, List.append_assoc, List.append_assoc] at hmore
      obtain ⟨rfl, -, htail⟩ := authenticated_unique hauth hauth' hmore
      simp only [List.cons_append, List.nil_append, List.cons.injEq, true_and] at htail
      obtain ⟨rfl, rfl, htail⟩ := htail
      obtain ⟨hpacked, -⟩ := List.append_inj (htail.trans (List.append_nil _).symm)
        ((packed_length haddr).trans (packed_length haddr').symm)
      rw [hpacked]

/-- After authentication the request is due. -/
theorem Authenticated.answer (h : Authenticated authInfo replies before) (request rest : List UInt8) :
    hello authInfo ++ answer authInfo request (replies ++ rest) = before ++ request := by
  cases h with
  | none h =>
    simp only [List.cons_append, List.nil_append, Socks.answer, ne_eq, not_true_eq_false, if_false]
    rw [h]
  | password username password h =>
    simp only [List.cons_append, List.nil_append, Socks.answer, ne_eq, not_true_eq_false, if_false]
    rw [h, List.append_assoc]
    rfl

end TwilightLine.Socks
