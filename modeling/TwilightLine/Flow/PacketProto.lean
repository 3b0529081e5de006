import TwilightLine.Flow.PacketProtoFlow

/-! Streams of PacketProto frames.

A frame begins with the length of its packet. So a stream is cut into packets in one way
only (`frames_cancel`), as far as it goes: what is left is the beginning of a frame
(`Incomplete`), or a header that announces too much (`TooLarge`). -/
namespace TwilightLine

/-- A packet with its header, as `input_handler_done` of the encoder leaves it. -/
def ppFrame (payload : List UInt8) : List UInt8 := (packetprotoFrame (⟨payload, ()⟩ : Packet Unit)).bytes

def frames (packets : List (List UInt8)) : List UInt8 := (packets.map ppFrame).flatten

/-- The length in a header. -/
def announced : List UInt8 → Option Nat
  | p₀ :: p₁ :: _ => some (readLe16 p₀ p₁).toNat
  | _ => none

/-- At a boundary, a header announces more than the largest packet. -/
def TooLarge (mtu : Nat) (rest : List UInt8) : Prop := ∃ n, announced rest = some n ∧ mtu < n

/-- At a boundary, there is not yet a whole frame. -/
def Incomplete (mtu : Nat) (rest : List UInt8) : Prop :=
  ∀ n, announced rest = some n → n ≤ mtu ∧ rest.length < packetprotoHeaderSize + n

/-- `PACKETPROTO_MAXPAYLOAD`. -/
def packetprotoMaxpayload : Nat := 65535

/-- Packets of no more than this length, each with a length that a header can hold. -/
def Fit (mtu : Nat) (packets : List (List UInt8)) : Prop :=
  ∀ p ∈ packets, p.length ≤ mtu ∧ p.length ≤ packetprotoMaxpayload

variable {mtu : Nat} {p q rest rest' : List UInt8} {ps qs : List (List UInt8)}

@[simp] theorem frames_nil : frames [] = [] := rfl

@[simp] theorem frames_cons (p : List UInt8) (ps : List (List UInt8)) : frames (p :: ps) = ppFrame p ++ frames ps := by
  simp [frames]

@[simp] theorem frames_append (ps qs : List (List UInt8)) : frames (ps ++ qs) = frames ps ++ frames qs := by
  simp [frames]

theorem ppFrame_eq (p : List UInt8) : ppFrame p = le16 (UInt16.ofNat p.length) ++ p := rfl

@[simp] theorem ppFrame_length (p : List UInt8) : (ppFrame p).length = packetprotoHeaderSize + p.length := by
  rw [ppFrame_eq, List.length_append, le16_length]
  rfl

/-- A header announces the length of the packet behind it. -/
theorem announced_ppFrame (hp : p.length ≤ packetprotoMaxpayload) : announced (ppFrame p ++ rest) = some p.length := by
  show some (readLe16 (UInt16.ofNat p.length).toUInt8 (UInt16.ofNat p.length >>> 8).toUInt8).toNat = _
  unfold packetprotoMaxpayload at hp
  rw [readLe16_le16, UInt16.toNat_ofNat_of_lt' (by show p.length < 65536; omega)]

theorem announced_append {n : Nat} (h : announced rest = some n) : announced (rest ++ rest') = some n := by
  match rest, h with
  | p₀ :: p₁ :: _, h => exact h

theorem announced_length {n : Nat} (h : announced rest = some n) : packetprotoHeaderSize ≤ rest.length := by
  match rest, h with
  | _ :: _ :: _, _ =>
    rw [List.length_cons, List.length_cons]
    exact Nat.le_add_left ..

theorem Fit.head (h : Fit mtu (p :: ps)) : p.length ≤ mtu ∧ p.length ≤ packetprotoMaxpayload :=
  h p (List.mem_cons_self ..)

theorem Fit.tail (h : Fit mtu (p :: ps)) : Fit mtu ps := fun q hq => h q (List.mem_cons_of_mem _ hq)

theorem Fit.concat (h : Fit mtu ps) (hp : p.length ≤ mtu) (hmax : p.length ≤ packetprotoMaxpayload) :
    Fit mtu (ps ++ [p]) := by
  intro q hq
  rcases List.mem_append.mp hq with hq | hq
  · exact h q hq
  · rw [List.mem_singleton.mp hq]
    exact ⟨hp, hmax⟩

/-- The first packet of a stream is determined. -/
theorem ppFrame_cancel (hp : p.length ≤ packetprotoMaxpayload) (hq : q.length ≤ packetprotoMaxpayload)
    (h : ppFrame p ++ rest = ppFrame q ++ rest') : p = q ∧ rest = rest' := by
  have hlen : p.length = q.length := by
    have hann : announced (ppFrame p ++ rest) = some p.length := announced_ppFrame hp
    rw [h, announced_ppFrame hq, Option.some.injEq] at hann
    exact hann.symm
  obtain ⟨hframe, hrest⟩ := List.append_inj h (by rw [ppFrame_length, ppFrame_length, hlen])
  rw [ppFrame_eq, ppFrame_eq, hlen] at hframe
  exact ⟨List.append_cancel_left hframe, hrest⟩

/-- **A stream of frames is cut in one way only.** -/
theorem frames_cancel {mtu' : Nat} (hqs : Fit mtu qs) (hps : Fit mtu' ps) (h : frames qs ++ rest <+: frames ps) :
    qs <+: ps ∧ rest <+: frames (ps.drop qs.length) := by
  induction qs generalizing ps with
  | nil => exact ⟨List.nil_prefix, h⟩
  | cons q qs ih =>
    obtain ⟨more, hmore⟩ := h
    cases ps with
    | nil =>
      have hlen := congrArg List.length hmore
      simp [packetprotoHeaderSize] at hlen
    | cons p ps =>
      rw [frames_cons, frames_cons, List.append_assoc, List.append_assoc] at hmore
      obtain ⟨rfl, htail⟩ := ppFrame_cancel hqs.head.2 hps.head.2 hmore
      obtain ⟨hpre, hrest⟩ := ih hqs.tail hps.tail ⟨more, by rw [List.append_assoc]; exact htail⟩
      exact ⟨List.cons_prefix_cons.mpr ⟨rfl, hpre⟩, hrest⟩

/-- No header of a well-formed stream announces too much. -/
theorem not_tooLarge (hps : Fit mtu ps) (h : rest <+: frames ps) : ¬TooLarge mtu rest := by
  rintro ⟨n, hann, hlarge⟩
  obtain ⟨more, hmore⟩ := h
  cases ps with
  | nil =>
    have hlen := congrArg List.length hmore
    have := announced_length hann
    simp only [List.length_append, frames_nil, List.length_nil] at hlen
    unfold packetprotoHeaderSize at this
    omega
  | cons p ps =>
    have hhead : announced (rest ++ more) = _ := announced_append hann
    rw [hmore, frames_cons, announced_ppFrame hps.head.2, Option.some.injEq] at hhead
    have := hps.head.1
    omega

/-- Where all frames arrived, the beginning of another one is nothing. -/
theorem Incomplete.eq_nil (h : Incomplete mtu (frames ps)) (hps : Fit mtu ps) : ps = [] := by
  cases ps with
  | nil => rfl
  | cons p ps =>
    rw [frames_cons] at h
    have hlen := (h p.length (announced_ppFrame hps.head.2)).2
    rw [List.length_append, ppFrame_length] at hlen
    omega

/-- **No header was missed** where all whole frames were found: any other boundary lies
before, and has a packet behind it. -/
theorem frames_boundary (hps : Fit mtu ps) (hqs : Fit mtu qs) (hheld : Incomplete mtu rest)
    (h : frames ps ++ rest = frames qs ++ rest') : qs <+: ps ∧ ¬TooLarge mtu rest' := by
  induction qs generalizing ps with
  | nil =>
    refine ⟨List.nil_prefix, ?_⟩
    rintro ⟨n, hann, hlarge⟩
    rw [frames_nil, List.nil_append] at h
    subst h
    cases ps with
    | nil =>
      have := (hheld n hann).1
      omega
    | cons p ps =>
      rw [frames_cons, List.append_assoc, announced_ppFrame hps.head.2, Option.some.injEq] at hann
      have := hps.head.1
      omega
  | cons q qs ih =>
    rw [frames_cons, List.append_assoc] at h
    cases ps with
    | nil =>
      -- A whole frame would be held.
      rw [frames_nil, List.nil_append] at h
      have hlen := (hheld q.length (by rw [h]; exact announced_ppFrame hqs.head.2)).2
      rw [h, List.length_append, ppFrame_length] at hlen
      omega
    | cons p ps =>
      rw [frames_cons, List.append_assoc] at h
      obtain ⟨rfl, htail⟩ := ppFrame_cancel hps.head.2 hqs.head.2 h
      obtain ⟨hpre, hnot⟩ := ih hps.tail hqs.tail htail
      exact ⟨List.cons_prefix_cons.mpr ⟨rfl, hpre⟩, hnot⟩

/-- A header announces no more than it can hold. -/
theorem tooLarge_min : TooLarge (min mtu packetprotoMaxpayload) rest ↔ TooLarge mtu rest := by
  constructor
  · rintro ⟨n, hann, hlarge⟩
    refine ⟨n, hann, ?_⟩
    match rest, hann with
    | p₀ :: p₁ :: _, hann =>
      have hn : (readLe16 p₀ p₁).toNat = n := Option.some.inj hann
      have := (readLe16 p₀ p₁).toNat_lt
      unfold packetprotoMaxpayload at hlarge
      omega
  · rintro ⟨n, hann, hlarge⟩
    exact ⟨n, hann, by omega⟩

theorem fit_min : Fit (min mtu packetprotoMaxpayload) ps ↔ Fit mtu ps := by
  constructor
  · intro h p hp
    have := h p hp
    exact ⟨by omega, this.2⟩
  · intro h p hp
    have := h p hp
    exact ⟨by omega, this.2⟩

end TwilightLine
