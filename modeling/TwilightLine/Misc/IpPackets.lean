import TwilightLine.Misc.IpProto

/-! The packets that the header checks accept.

A check accepts exactly the packets that are a header, what it announces, and stray bytes
after that, and it returns the header and the payload (`ipv4Check_eq_some_iff`,
`udpCheck_eq_some_iff`, `ipv6Check_bytes`). -/
namespace TwilightLine

/-! ### Headers in memory -/

@[simp] theorem Ipv4Header.bytes_length (h : Ipv4Header) : h.bytes.length = ipv4HeaderSize := rfl

@[simp] theorem Ipv6Header.bytes_length (h : Ipv6Header) : h.bytes.length = ipv6HeaderSize := by
  simp [Ipv6Header.bytes, ipv6HeaderSize]

theorem UdpHeader.read_bytes (h : UdpHeader) (rest : List UInt8) : UdpHeader.read (h.bytes ++ rest) = h := by
  simp [UdpHeader.read, UdpHeader.bytes, le16, readLe16_le16]

theorem Ipv4Header.read_bytes (h : Ipv4Header) (rest : List UInt8) : Ipv4Header.read (h.bytes ++ rest) = h := by
  simp [Ipv4Header.read, Ipv4Header.bytes, le16, le32, readLe16_le16, readLe32_le32]

/-- Sixteen bytes are read where they lie. -/
theorem readIn6_at (before : List UInt8) (ip : Vector UInt8 16) (rest : List UInt8) :
    readIn6 (before ++ (ip.toList ++ rest)) before.length = ip := by
  apply Vector.ext
  intro i hi
  have hlen : i < ip.toList.length := by simpa using hi
  simp [readIn6, List.getD_eq_getElem?_getD, List.getElem?_append_right, List.getElem?_append_left hlen, hi]

theorem Ipv6Header.read_bytes (h : Ipv6Header) (rest : List UInt8) : Ipv6Header.read (h.bytes ++ rest) = h := by
  obtain ⟨version4Tc4, tc4Fl4, fl, payloadLength, nextHeader, hopLimit, source, destination⟩ := h
  let before : List UInt8 :=
    [version4Tc4, tc4Fl4, fl.toUInt8, (fl >>> 8).toUInt8, payloadLength.toUInt8, (payloadLength >>> 8).toUInt8,
      nextHeader, hopLimit]
  have hbytes : (Ipv6Header.bytes ⟨version4Tc4, tc4Fl4, fl, payloadLength, nextHeader, hopLimit, source, destination⟩) ++
      rest = before ++ (source.toList ++ (destination.toList ++ rest)) := by
    simp [Ipv6Header.bytes, before, le16]
  have hsource : readIn6 (before ++ (source.toList ++ (destination.toList ++ rest))) 8 = source :=
    readIn6_at before source _
  have hdestination : readIn6 (before ++ (source.toList ++ (destination.toList ++ rest))) 24 = destination := by
    have h := readIn6_at (before ++ source.toList) destination rest
    rw [List.append_assoc] at h
    exact (congrArg (readIn6 _) (by simp [before])).trans h
  rw [hbytes, Ipv6Header.read, hsource, hdestination]
  simp [before, readLe16_le16]

/-- The bytes of the header that is read. -/
theorem UdpHeader.bytes_read {data : List UInt8} (h : udpHeaderSize ≤ data.length) :
    (UdpHeader.read data).bytes = data.take udpHeaderSize := by
  match data, h with
  | b₀ :: b₁ :: b₂ :: b₃ :: b₄ :: b₅ :: b₆ :: b₇ :: rest, _ =>
    simp [UdpHeader.read, UdpHeader.bytes, le16_readLe16, udpHeaderSize]

theorem Ipv4Header.bytes_read {data : List UInt8} (h : ipv4HeaderSize ≤ data.length) :
    (Ipv4Header.read data).bytes = data.take ipv4HeaderSize := by
  match data, h with
  | b₀ :: b₁ :: b₂ :: b₃ :: b₄ :: b₅ :: b₆ :: b₇ :: b₈ :: b₉ :: rest, h =>
    match rest, (by simpa [ipv4HeaderSize] using h : 10 ≤ rest.length) with
    | b₁₀ :: b₁₁ :: b₁₂ :: b₁₃ :: b₁₄ :: b₁₅ :: b₁₆ :: b₁₇ :: b₁₈ :: b₁₉ :: rest, _ =>
      simp [Ipv4Header.read, Ipv4Header.bytes, le16_readLe16, le32_readLe32, ipv4HeaderSize]

/-! ### What the checks accept -/

/-- A part of a list, and what surrounds it. -/
theorem append_slice (data : List UInt8) {m n : Nat} (h : m ≤ n) :
    data.take m ++ ((data.drop m).take (n - m) ++ data.drop n) = data := by
  have hdrop : data.drop n = (data.drop m).drop (n - m) := by rw [List.drop_drop, Nat.add_sub_cancel' h]
  rw [hdrop, List.take_append_drop, List.take_append_drop]

theorem udpCheck_eq_some_iff {data payload : List UInt8} {udph : UdpHeader} :
    udpCheck data = some (udph, payload) ↔
      (ntoh16 udph.length).toNat = udpHeaderSize + payload.length ∧ ∃ stray, data = udph.bytes ++ (payload ++ stray) := by
  constructor
  · intro h
    unfold udpCheck at h
    obtain ⟨hsize, h⟩ := Option.ite_none_left_eq_some.mp h
    obtain ⟨hlow, h⟩ := Option.ite_none_left_eq_some.mp h
    obtain ⟨hhigh, h⟩ := Option.ite_none_left_eq_some.mp h
    cases h
    refine ⟨?_, (data.drop udpHeaderSize).drop ((ntoh16 (UdpHeader.read data).length).toNat - udpHeaderSize), ?_⟩
    · rw [List.length_take]
      omega
    · rw [UdpHeader.bytes_read (by omega), List.take_append_drop, List.take_append_drop]
  · rintro ⟨hlen, stray, rfl⟩
    have hread := UdpHeader.read_bytes udph (payload ++ stray)
    have hdrop : (udph.bytes ++ (payload ++ stray)).drop udpHeaderSize = payload ++ stray := List.drop_left' rfl
    have htotal : (udph.bytes ++ (payload ++ stray)).length = udpHeaderSize + (payload.length + stray.length) := by simp
    unfold udpCheck
    rw [if_neg (by omega)]
    dsimp only
    rw [hread, hdrop, hlen, if_neg (by omega), if_neg (by rw [List.length_append]; omega), Nat.add_sub_cancel_left,
      List.take_left' rfl]

/-- The fields of a header fit its options and its payload. -/
structure Ipv4Fields (iph : Ipv4Header) (options body : List UInt8) : Prop where
  version : iph.version = 4
  ihl : iph.ihl.toNat * 4 = ipv4HeaderSize + options.length
  totalLength : (ntoh16 iph.totalLength).toNat = ipv4HeaderSize + options.length + body.length
  checksum : iph.checksum = ipv4Checksum {iph with checksum := hton16 0} options

theorem ipv4Check_eq_some_iff {data body : List UInt8} {iph : Ipv4Header} :
    ipv4Check data = some (iph, body) ↔
      ∃ options stray, Ipv4Fields iph options body ∧ data = iph.bytes ++ (options ++ (body ++ stray)) := by
  constructor
  · intro h
    unfold ipv4Check at h
    obtain ⟨hsize, h⟩ := Option.ite_none_left_eq_some.mp h
    obtain ⟨hversion, h⟩ := Option.ite_none_left_eq_some.mp h
    obtain ⟨hlow, h⟩ := Option.ite_none_left_eq_some.mp h
    obtain ⟨hhigh, h⟩ := Option.ite_none_left_eq_some.mp h
    obtain ⟨hshort, h⟩ := Option.ite_none_left_eq_some.mp h
    obtain ⟨hlong, h⟩ := Option.ite_none_left_eq_some.mp h
    obtain ⟨hsum, h⟩ := Option.ite_none_left_eq_some.mp h
    cases h
    rw [not_not] at hversion hsum
    generalize hlen : (Ipv4Header.read data).ihl.toNat * 4 = headerLen at *
    generalize htotal : (ntoh16 (Ipv4Header.read data).totalLength).toNat = totalLength at *
    refine ⟨(data.drop ipv4HeaderSize).take (headerLen - ipv4HeaderSize), data.drop totalLength, ⟨hversion, ?_, ?_, hsum⟩, ?_⟩
    · rw [hlen, List.length_take, List.length_drop]
      omega
    · rw [htotal, List.length_take, List.length_take, List.length_drop, List.length_drop]
      omega
    · rw [Ipv4Header.bytes_read (not_lt.mp hsize)]
      have hrest : (data.drop headerLen).take (totalLength - headerLen) ++ data.drop totalLength = data.drop headerLen := by
        have hdrop : data.drop totalLength = (data.drop headerLen).drop (totalLength - headerLen) := by
          rw [List.drop_drop, Nat.add_sub_cancel' (not_lt.mp hshort)]
        rw [hdrop, List.take_append_drop]
      rw [hrest, append_slice data (not_lt.mp hlow)]
  · rintro ⟨options, stray, ⟨hversion, hihl, htotal, hsum⟩, rfl⟩
    have hread := Ipv4Header.read_bytes iph (options ++ (body ++ stray))
    have hlen : (iph.bytes ++ (options ++ (body ++ stray))).length =
        ipv4HeaderSize + (options.length + (body.length + stray.length)) := by simp
    have hdrop : (iph.bytes ++ (options ++ (body ++ stray))).drop ipv4HeaderSize = options ++ (body ++ stray) :=
      List.drop_left' rfl
    have hbody : (iph.bytes ++ (options ++ (body ++ stray))).drop (ipv4HeaderSize + options.length) = body ++ stray := by
      rw [← List.drop_drop, hdrop, List.drop_left' rfl]
    unfold ipv4Check
    rw [if_neg (by omega)]
    dsimp only
    rw [hread, hihl, htotal, hdrop, hbody, if_neg (not_not.mpr hversion), if_neg (by omega), if_neg (by omega),
      if_neg (by omega), if_neg (by omega), Nat.add_sub_cancel_left, Nat.add_sub_cancel_left, List.take_left' rfl,
      List.take_left' rfl, if_neg (not_not.mpr hsum)]

/-- An IPv6 packet with its payload and stray bytes is accepted. -/
theorem ipv6Check_bytes {iph : Ipv6Header} {body : List UInt8} (hversion : iph.version4Tc4 >>> 4 = 6)
    (hlen : (ntoh16 iph.payloadLength).toNat = body.length) (stray : List UInt8) :
    ipv6Check (iph.bytes ++ (body ++ stray)) = some (iph, body) := by
  have hread := Ipv6Header.read_bytes iph (body ++ stray)
  have htotal : (iph.bytes ++ (body ++ stray)).length = ipv6HeaderSize + (body.length + stray.length) := by simp
  have hdrop : (iph.bytes ++ (body ++ stray)).drop ipv6HeaderSize = body ++ stray :=
    List.drop_left' iph.bytes_length
  unfold ipv6Check
  rw [if_neg (by omega)]
  dsimp only
  rw [hread, hdrop, hlen, if_neg (not_not.mpr hversion), if_neg (by omega), List.take_left' rfl]

end TwilightLine
