import Mathlib.Data.Nat.Bitwise
import Mathlib.Tactic.NormNum

/-! Integers in memory, and byte order.

`misc/read_write_int.h` and `misc/byteorder.h` on the little-endian target the
program is built for. `le16` and `le32` are the bytes an integer occupies in
memory, `readLe16` and `readLe32` the integer in given bytes, `readBe16` the
integer that given bytes mean on the network. `hton16` and `hton32` reverse the
bytes of an integer, so the memory of `hton16 x` is the network image of `x`
(`le16_hton16`). -/
namespace TwilightLine

/-- `sizeof(uint16_t)` bytes of memory holding `x`. -/
def le16 (x : UInt16) : List UInt8 := [x.toUInt8, (x >>> 8).toUInt8]

/-- `sizeof(uint32_t)` bytes of memory holding `x`. -/
def le32 (x : UInt32) : List UInt8 :=
  [x.toUInt8, (x >>> 8).toUInt8, (x >>> 16).toUInt8, (x >>> 24).toUInt8]

@[simp] theorem le16_length (x : UInt16) : (le16 x).length = 2 := rfl

@[simp] theorem le32_length (x : UInt32) : (le32 x).length = 4 := rfl

/-- `badvpn_read_le16`: also what `memcpy` into a `uint16_t` reads. -/
def readLe16 (p₀ p₁ : UInt8) : UInt16 := (p₁.toUInt16 <<< 8) ||| p₀.toUInt16

/-- `badvpn_read_le32`: also what `memcpy` into a `uint32_t` reads. -/
def readLe32 (p₀ p₁ p₂ p₃ : UInt8) : UInt32 :=
  (p₃.toUInt32 <<< 24) ||| (p₂.toUInt32 <<< 16) ||| (p₁.toUInt32 <<< 8) ||| p₀.toUInt32

/-- `badvpn_read_be16`. -/
def readBe16 (p₀ p₁ : UInt8) : UInt16 := (p₀.toUInt16 <<< 8) ||| p₁.toUInt16

/-- `badvpn_reverse16`: byte by byte, as the source writes it. -/
def badvpnReverse16 (x : UInt16) : UInt16 := readLe16 (x >>> 8).toUInt8 x.toUInt8

/-- `badvpn_reverse32`. -/
def badvpnReverse32 (x : UInt32) : UInt32 :=
  readLe32 (x >>> 24).toUInt8 (x >>> 16).toUInt8 (x >>> 8).toUInt8 x.toUInt8

def hton16 (x : UInt16) : UInt16 := badvpnReverse16 x

def hton32 (x : UInt32) : UInt32 := badvpnReverse32 x

def ntoh16 (x : UInt16) : UInt16 := hton16 x

def ntoh32 (x : UInt32) : UInt32 := hton32 x

/-! ### Values -/

private theorem shift_or (i a c : Nat) (hc : c < 2 ^ i) : a <<< i ||| c = a * 2 ^ i + c := by
  rw [← Nat.shiftLeft_add_eq_or_of_lt hc, Nat.shiftLeft_eq]

/-- A byte moved into place in a wider integer. -/
private theorem byte_shift16 (p : UInt8) : (p.toUInt16 <<< 8).toNat = p.toNat <<< 8 := by
  have hp := p.toNat_lt
  rw [UInt16.toNat_shiftLeft, UInt8.toNat_toUInt16]
  exact Nat.mod_eq_of_lt (by rw [Nat.shiftLeft_eq]; exact (by omega : p.toNat * 2 ^ 8 < 2 ^ 16))

private theorem byte_shift32 (p : UInt8) (i : UInt32) (hi : i.toNat ≤ 24) :
    (p.toUInt32 <<< i).toNat = p.toNat <<< i.toNat := by
  have hp := p.toNat_lt
  have hle : 2 ^ i.toNat ≤ 2 ^ 24 := Nat.pow_le_pow_right (by norm_num) hi
  rw [UInt32.toNat_shiftLeft, UInt8.toNat_toUInt32, Nat.mod_eq_of_lt (a := i.toNat) (by omega)]
  apply Nat.mod_eq_of_lt
  rw [Nat.shiftLeft_eq]
  calc p.toNat * 2 ^ i.toNat ≤ p.toNat * 2 ^ 24 := Nat.mul_le_mul_left _ hle
    _ < 2 ^ 32 := by omega

theorem readLe16_toNat (p₀ p₁ : UInt8) : (readLe16 p₀ p₁).toNat = p₁.toNat * 256 + p₀.toNat := by
  rw [readLe16, UInt16.toNat_or, byte_shift16, UInt8.toNat_toUInt16, shift_or 8 _ _ p₀.toNat_lt]
  norm_num

theorem readBe16_eq (p₀ p₁ : UInt8) : readBe16 p₀ p₁ = readLe16 p₁ p₀ := rfl

theorem readBe16_toNat (p₀ p₁ : UInt8) : (readBe16 p₀ p₁).toNat = p₀.toNat * 256 + p₁.toNat := by
  rw [readBe16_eq, readLe16_toNat]

theorem readLe32_toNat (p₀ p₁ p₂ p₃ : UInt8) : (readLe32 p₀ p₁ p₂ p₃).toNat =
    p₃.toNat * 2 ^ 24 + p₂.toNat * 2 ^ 16 + p₁.toNat * 2 ^ 8 + p₀.toNat := by
  have h₀ := p₀.toNat_lt
  have h₁ := p₁.toNat_lt
  have h₂ := p₂.toNat_lt
  have hs₃ : (p₃.toUInt32 <<< 24).toNat = p₃.toNat <<< 24 := byte_shift32 p₃ 24 (by decide)
  have hs₂ : (p₂.toUInt32 <<< 16).toNat = p₂.toNat <<< 16 := byte_shift32 p₂ 16 (by decide)
  have hs₁ : (p₁.toUInt32 <<< 8).toNat = p₁.toNat <<< 8 := byte_shift32 p₁ 8 (by decide)
  -- The low bytes are gathered first, so that each `or` is an addition below a shift.
  rw [readLe32, UInt32.toNat_or, UInt32.toNat_or, UInt32.toNat_or, hs₃, hs₂, hs₁,
    UInt8.toNat_toUInt32, Nat.or_assoc, Nat.or_assoc, shift_or 8 _ _ h₀,
    shift_or 16 _ _ (by omega), shift_or 24 _ _ (by omega)]
  omega

/-- A byte of an integer, by division. -/
theorem byte16_toNat (x : UInt16) (i : UInt16) (hi : i.toNat < 16) :
    (x >>> i).toUInt8.toNat = x.toNat / 2 ^ i.toNat % 256 := by
  rw [UInt16.toNat_toUInt8, UInt16.toNat_shiftRight, Nat.mod_eq_of_lt hi, Nat.shiftRight_eq_div_pow]

theorem byte32_toNat (x : UInt32) (i : UInt32) (hi : i.toNat < 32) :
    (x >>> i).toUInt8.toNat = x.toNat / 2 ^ i.toNat % 256 := by
  rw [UInt32.toNat_toUInt8, UInt32.toNat_shiftRight, Nat.mod_eq_of_lt hi, Nat.shiftRight_eq_div_pow]

theorem le16_readLe16 (p₀ p₁ : UInt8) : le16 (readLe16 p₀ p₁) = [p₀, p₁] := by
  have h := readLe16_toNat p₀ p₁
  have h₀ := p₀.toNat_lt
  have h₁ := p₁.toNat_lt
  have hhigh := byte16_toNat (readLe16 p₀ p₁) 8 (by decide)
  simp only [le16, List.cons.injEq, and_true]
  constructor <;> apply UInt8.toNat.inj
  · rw [UInt16.toNat_toUInt8, h]
    omega
  · rw [hhigh, h, show UInt16.toNat 8 = 8 from rfl]
    omega

theorem le32_readLe32 (p₀ p₁ p₂ p₃ : UInt8) : le32 (readLe32 p₀ p₁ p₂ p₃) = [p₀, p₁, p₂, p₃] := by
  have h := readLe32_toNat p₀ p₁ p₂ p₃
  have h₀ := p₀.toNat_lt
  have h₁ := p₁.toNat_lt
  have h₂ := p₂.toNat_lt
  have h₃ := p₃.toNat_lt
  have hb₁ := byte32_toNat (readLe32 p₀ p₁ p₂ p₃) 8 (by decide)
  have hb₂ := byte32_toNat (readLe32 p₀ p₁ p₂ p₃) 16 (by decide)
  have hb₃ := byte32_toNat (readLe32 p₀ p₁ p₂ p₃) 24 (by decide)
  simp only [le32, List.cons.injEq, and_true]
  refine ⟨?_, ?_, ?_, ?_⟩ <;> apply UInt8.toNat.inj
  · rw [UInt32.toNat_toUInt8, h]
    omega
  · rw [hb₁, h, show UInt32.toNat 8 = 8 from rfl]
    omega
  · rw [hb₂, h, show UInt32.toNat 16 = 16 from rfl]
    omega
  · rw [hb₃, h, show UInt32.toNat 24 = 24 from rfl]
    omega

theorem readLe16_le16 (x : UInt16) : readLe16 x.toUInt8 (x >>> 8).toUInt8 = x := by
  have hx := x.toNat_lt
  apply UInt16.toNat.inj
  rw [readLe16_toNat, byte16_toNat x 8 (by decide), UInt16.toNat_toUInt8,
    show UInt16.toNat 8 = 8 from rfl]
  omega

theorem readLe32_le32 (x : UInt32) :
    readLe32 x.toUInt8 (x >>> 8).toUInt8 (x >>> 16).toUInt8 (x >>> 24).toUInt8 = x := by
  have hx := x.toNat_lt
  apply UInt32.toNat.inj
  rw [readLe32_toNat, byte32_toNat x 8 (by decide), byte32_toNat x 16 (by decide),
    byte32_toNat x 24 (by decide), UInt32.toNat_toUInt8, show UInt32.toNat 8 = 8 from rfl,
    show UInt32.toNat 16 = 16 from rfl, show UInt32.toNat 24 = 24 from rfl]
  omega

/-- The memory of a converted integer is its network image. -/
theorem le16_hton16 (x : UInt16) : le16 (hton16 x) = [(x >>> 8).toUInt8, x.toUInt8] :=
  le16_readLe16 _ _

theorem le32_hton32 (x : UInt32) : le32 (hton32 x) =
    [(x >>> 24).toUInt8, (x >>> 16).toUInt8, (x >>> 8).toUInt8, x.toUInt8] :=
  le32_readLe32 _ _ _ _

theorem hton16_readLe16 (p₀ p₁ : UInt8) : hton16 (readLe16 p₀ p₁) = readBe16 p₀ p₁ := by
  have h := le16_readLe16 p₀ p₁
  simp only [le16, List.cons.injEq, and_true] at h
  rw [hton16, badvpnReverse16, h.1, h.2, readBe16_eq]

@[simp]
theorem hton16_hton16 (x : UInt16) : hton16 (hton16 x) = x := by
  rw [show hton16 x = readLe16 (x >>> 8).toUInt8 x.toUInt8 from rfl, hton16_readLe16, readBe16_eq,
    readLe16_le16]

theorem hton16_inj {x y : UInt16} (h : hton16 x = hton16 y) : x = y := by
  rw [← hton16_hton16 x, h, hton16_hton16]

theorem hton32_inj {x y : UInt32} (h : hton32 x = hton32 y) : x = y := by
  have hbytes := congrArg le32 h
  rw [le32_hton32, le32_hton32] at hbytes
  simp only [List.cons.injEq, and_true] at hbytes
  obtain ⟨h₃, h₂, h₁, h₀⟩ := hbytes
  rw [← readLe32_le32 x, ← readLe32_le32 y, h₀, h₁, h₂, h₃]

end TwilightLine
