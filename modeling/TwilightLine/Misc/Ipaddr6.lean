import TwilightLine.Lib.Separated
import TwilightLine.Misc.ParseNumber

/-! `misc/ipaddr6.h`: IPv6 addresses as text.

The parser writes the blocks one after the other, and moves those after a `::` to the end. It
learns of an IPv4 address at its first dot, and goes back to where that began. The text before
the position is kept from its end on, so that what is read next, and what was read last, are
heads of lists. There is no result where the program would go before the text or move a negative
number of bytes. -/
namespace TwilightLine.Ipaddr6

open Lib

/-! ### Parsing -/

/-- The variables of `ipaddr6_parse_ipv6_addr`, and the memory at `out_addr->bytes`. -/
structure Parse where
  m : Memory
  numBlocks : Int
  compressPos : Int
  block : UInt16
  empty : Bool

/-- The block is written. -/
def storeBlock (s : Parse) : Parse :=
  let m := writeBytes s.m (2 * s.numBlocks + 0) [(s.block >>> 8).toUInt8]
  let m := writeBytes m (2 * s.numBlocks + 1) [(s.block &&& 0xFF).toUInt8]
  {s with m := m, numBlocks := s.numBlocks + 1}

def memmove (m : Memory) (dest src size : Int) : Option Memory :=
  if 0 ≤ size then some (writeBytes m dest (readBytes m src size.toNat)) else none

def memset (m : Memory) (dest : Int) (c : UInt8) (size : Int) : Option Memory :=
  if 0 ≤ size then some (writeBytes m dest (List.replicate size.toNat c)) else none

/-- `ipv4_done`. -/
def ipv4Done (s : Parse) : Option (Memory × Bool) :=
  if s.compressPos = -1 ∧ s.numBlocks ≠ 8 then some (s.m, false)
  else
    let compressPos := if s.compressPos = -1 then 0 else s.compressPos
    let numRear := s.numBlocks - compressPos
    (memmove s.m (2 * (8 - numRear)) (2 * compressPos) (2 * numRear)).bind fun m =>
      (memset m (2 * compressPos) 0 (2 * (8 - numRear - compressPos))).map (·, true)

/-- The loop on an IPv4 address; `cur_byte` is the number of `bytes`. -/
def ipv4Loop (s : Parse) (bytes : List UInt8) (byte : UInt8) (empty : Bool) : List UInt8 → Option (Memory × Bool)
  | [] =>
    if bytes.length ≠ 3 ∨ empty then some (s.m, false)
    else if 8 - s.numBlocks < 2 then some (s.m, false)
    else ipv4Done {s with m := writeBytes s.m (2 * s.numBlocks) (bytes ++ [byte]), numBlocks := s.numBlocks + 2}
  | c :: rest =>
    if c = 46 then
      if empty ∨ bytes.length = 3 then some (s.m, false) else ipv4Loop s (bytes ++ [byte]) 0 true rest
    else if !empty ∧ byte = 0 then some (s.m, false)
    else
      match decodeDecimalDigit c with
      | none => some (s.m, false)
      | some digit =>
        if byte.toNat > 255 / 10 then some (s.m, false)
        else
          let byte := byte * 10
          if digit > 255 - byte.toNat then some (s.m, false)
          else ipv4Loop s bytes (byte + UInt8.ofNat digit) false rest

/-- `while (name.ptr[i - 1] != ':') i--`: the rest of the text then. -/
def backUp : (before rest : List UInt8) → Option (List UInt8)
  | [], _ => none
  | c :: before, rest => if c ≠ 58 then backUp before (c :: rest) else some rest

/-- `ipv4_ending`. -/
def ipv4Ending (s : Parse) (before rest : List UInt8) : Option (Memory × Bool) :=
  if s.empty ∨ s.numBlocks = 0 ∧ s.compressPos = -1 then some (s.m, false)
  else (backUp before rest).bind fun rest => ipv4Loop s [] 0 true rest

/-- A colon at the position `i`. An error returns 0. -/
def colon (s : Parse) (i : Nat) (isDouble : Bool) : Except Memory Parse :=
  let next : Except Memory Parse :=
    if i > 0 then
      if s.empty ∨ s.numBlocks = 7 then .error s.m else .ok {storeBlock s with block := 0, empty := true}
    else if !isDouble then .error s.m
    else .ok s
  next.bind fun s =>
    if isDouble then
      if s.compressPos ≠ -1 then .error s.m else .ok {s with compressPos := s.numBlocks}
    else .ok s

/-- Another character, which has to be a hex digit. -/
def hexDigit (s : Parse) (c : UInt8) : Except Memory Parse :=
  match decodeHexDigit c with
  | none => .error s.m
  | some digit =>
    if s.block.toNat > 65535 / 16 then .error s.m
    else
      let block := s.block * 16
      if digit > 65535 - block.toNat then .error s.m
      else .ok {s with block := block + UInt16.ofNat digit, empty := false}

/-- After the loop. -/
def blocksEnd (s : Parse) : Option (Memory × Bool) :=
  if !s.empty then ipv4Done (storeBlock s)
  else if s.numBlocks ≠ s.compressPos then some (s.m, false)
  else ipv4Done s

def continueWith (r : Except Memory Parse) (next : Parse → Option (Memory × Bool)) : Option (Memory × Bool) :=
  match r with
  | .error m => some (m, false)
  | .ok s => next s

/-- The loop on the blocks. A step of two characters is one to the second of them, which is passed then. -/
def blocksLoop (s : Parse) (before : List UInt8) (pass : Bool) : List UInt8 → Option (Memory × Bool)
  | [] => blocksEnd s
  | c :: rest =>
    if pass then blocksLoop s (c :: before) false rest
    else if c = 46 then ipv4Ending s before (c :: rest)
    else if c = 58 then
      let isDouble := decide (rest.head? = some 58)
      continueWith (colon s before.length isDouble) fun s => blocksLoop s (c :: before) isDouble rest
    else continueWith (hexDigit s c) fun s => blocksLoop s (c :: before) false rest

/-- `ipaddr6_parse_ipv6_addr`, with its result. -/
def parseIpv6Addr (name : List UInt8) (m : Memory) : Option (Memory × Bool) := blocksLoop ⟨m, 0, -1, 0, true⟩ [] false name

/-! ### Printing -/

/-- `IPADDR6_PRINT_MAX`. -/
def ipaddr6PrintMax : Nat := 44

/-- `sprintf` at the position, and the position after it. -/
def sprintf (o : Memory × Int) (text : List UInt8) : Memory × Int := (writeBytes o.1 o.2 (text ++ [0]), o.2 + text.length)

/-- The variables of the search for zeros. -/
structure Zeros where
  largestStart : Nat
  largestLen : Nat
  currentStart : Nat
  currentLen : Nat

def findZeros (addr : Vector UInt8 16) (z : Zeros) (i : Nat) : Zeros :=
  if addr.toList.getD (2 * i) 0 = 0 ∧ addr.toList.getD (2 * i + 1) 0 = 0 then
    let z := {z with currentLen := z.currentLen + 1}
    if z.currentLen > z.largestLen then {z with largestStart := z.currentStart, largestLen := z.currentLen} else z
  else {z with currentStart := i + 1, currentLen := 0}

def blockOf (addr : Vector UInt8 16) (i : Nat) : UInt16 :=
  ((addr.toList.getD (2 * i) 0).toUInt16 <<< 8) ||| (addr.toList.getD (2 * i + 1) 0).toUInt16

/-- `ipaddr6_print_addr`. -/
def printAddr (addr : Vector UInt8 16) (m : Memory) : Memory :=
  let z := (List.range 8).foldl (findZeros addr) ⟨0, 0, 0, 0⟩
  if z.largestLen > 1 then
    let o := (List.range z.largestStart).foldl (fun o i => sprintf o (printNumber 16 (blockOf addr i).toNat ++ [58])) (m, 0)
    let o := if z.largestStart = 0 then sprintf o [58] else o
    let rest := (List.range 8).drop (z.largestStart + z.largestLen)
    let o := rest.foldl (fun o i => sprintf o (58 :: printNumber 16 (blockOf addr i).toNat)) o
    let o := if z.largestStart + z.largestLen = 8 then sprintf o [58] else o
    o.1
  else
    let o := (List.range 8).foldl (fun (o : (Memory × Int) × List UInt8) i =>
      (sprintf o.1 (o.2 ++ printNumber 16 (blockOf addr i).toNat), [58])) ((m, 0), [])
    o.1.1

/-! ### Text forms -/

def hexValue (s : List UInt8) : Nat := Numeral.value 16 (fun c => (decodeHexDigit c).getD 0) s

/-- Hex digits, and the block that they denote. -/
structure HexDigits (s : List UInt8) (v : UInt16) : Prop where
  digits : ∀ c ∈ s, (decodeHexDigit c).isSome
  value : hexValue s = v.toNat

/-- A group, with any number of leading zeros. -/
structure HexGroup (s : List UInt8) (v : UInt16) : Prop extends HexDigits s v where
  ne_nil : s ≠ []

/-- A group of RFC 4291: one to four hex digits. -/
structure RfcGroup (s : List UInt8) (v : UInt16) : Prop extends HexGroup s v where
  length_le : s.length ≤ 4

/-- Decimal digits without a leading zero, and the byte that they denote. -/
structure OctetDigits (s : List UInt8) (b : UInt8) : Prop where
  digits : ∀ c ∈ s, isDecimalDigit c
  no_leading_zero : s.head? = some 48 → s.length = 1
  value : decimalValue s = b.toNat

structure Octet (s : List UInt8) (b : UInt8) : Prop extends OctetDigits s b where
  ne_nil : s ≠ []

def OctetBytes (s bs : List UInt8) : Prop := ∃ b, Octet s b ∧ bs = [b]

/-- A dotted quad, and its bytes. -/
structure Quad (s bs : List UInt8) : Prop where
  octets : Separated OctetBytes OctetBytes 46 s bs
  length : bs.length = 4

/-- The bytes of a block, in network order. -/
def blockBytes (v : UInt16) : List UInt8 := [(v >>> 8).toUInt8, (v &&& 0xFF).toUInt8]

def GroupBytes (group : List UInt8 → UInt16 → Prop) (s bs : List UInt8) : Prop := ∃ v, group s v ∧ bs = blockBytes v

/-- Groups with colons between them, and the bytes that they denote. In the last place there may be a dotted quad. -/
def Groups (group : List UInt8 → UInt16 → Prop) (quad : Bool) : List UInt8 → List UInt8 → Prop :=
  Separated (GroupBytes group) (fun s bs => GroupBytes group s bs ∨ quad = true ∧ Quad s bs) 58

/-- Groups, or nothing. -/
def MaybeGroups (group : List UInt8 → UInt16 → Prop) (quad : Bool) (s bs : List UInt8) : Prop :=
  s = [] ∧ bs = [] ∨ Groups group quad s bs

/-- The text forms of an address, as in RFC 4291 section 2.2, for what a group is. -/
inductive TextForm (group : List UInt8 → UInt16 → Prop) : List UInt8 → List UInt8 → Prop where
  | full {s bs} : Groups group true s bs → bs.length = 16 → TextForm group s bs
  /-- `::` stands for one or more groups of zeros. -/
  | compressed {s front t rear} : MaybeGroups group false s front → MaybeGroups group true t rear →
      front.length + rear.length < 16 →
      TextForm group (s ++ 58 :: 58 :: t) (front ++ List.replicate (16 - front.length - rear.length) 0 ++ rear)

/-- A `::` among groups that are an address without it. -/
def Overfull (group : List UInt8 → UInt16 → Prop) (name : List UInt8) : Prop :=
  ∃ s front t rear, name = s ++ 58 :: 58 :: t ∧ MaybeGroups group false s front ∧ MaybeGroups group true t rear ∧
    front.length + rear.length = 16

end TwilightLine.Ipaddr6
