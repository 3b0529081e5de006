import TwilightLine.Lib.Run
import TwilightLine.Lib.Tiling
import TwilightLine.Lwip.InetChksum
import TwilightLine.Misc.IpProto

/-! Reassembly of IPv4 fragments, `core/ipv4/ip4_frag.c`.

`ip4_reass` keeps the fragments of unfinished datagrams, at most `IP_REASS_MAX_PBUFS`
buffers in all, and hands a datagram on when its last hole is filled. `ip_reass_tmr`
gives up on datagrams that stay unfinished.

Buffers have identities, and the model keeps the ones that reassembly owns (`live`):
freeing any other, a failed `LWIP_ASSERT` and a null pointer followed are all `none`.
`struct ip_hdr` has the layout of `struct ipv4_header` and is modelled by it. -/
namespace TwilightLine.Ip4Frag

open InetChksum

def ipHlen : Nat := 20

def ipReassMaxPbufs : Nat := 10

def ipReassMaxage : Nat := 15

/-- `IPH_HL_BYTES`. -/
def iphHlBytes (h : Ipv4Header) : Nat := (h.ihl * 4).toNat

/-- `IPH_OFFSET_BYTES`, with `IP_OFFMASK`. -/
def iphOffsetBytes (h : Ipv4Header) : Nat := ((ntoh16 h.flags3Fragmentoffset13 &&& 0x1fff) * 8).toNat

/-- `IPH_LEN` in host order. -/
def iphLen (h : Ipv4Header) : Nat := (ntoh16 h.totalLength).toNat

/-- `(IPH_OFFSET(fraghdr) & PP_NTOHS(IP_MF)) == 0`. -/
def isLast (h : Ipv4Header) : Bool := h.flags3Fragmentoffset13 &&& hton16 0x2000 == 0

/-- `IP_ADDRESSES_AND_ID_MATCH`. -/
def ipAddressesAndIdMatch (a b : Ipv4Header) : Bool :=
  a.sourceAddress == b.sourceAddress && a.destinationAddress == b.destinationAddress &&
    a.identification == b.identification

/-- A fragment in a chain of `clen` buffers: its header and what follows it. -/
structure Pbuf where
  id : Nat
  clen : Nat
  hdr : Ipv4Header
  payload : List UInt8
  deriving DecidableEq, Repr

/-- `struct ip_reass_helper`, which overwrites the header of a kept fragment; the list
a fragment stands in is its `next_pbuf`. -/
structure IpReassHelper where
  start : Nat
  end_ : Nat
  pbuf : Pbuf
  deriving DecidableEq, Repr

/-- `struct ip_reassdata`. -/
structure IpReassdata where
  p : List IpReassHelper
  iphdr : Ipv4Header
  datagramLen : Nat
  /-- `IP_REASS_FLAG_LASTFRAG`. -/
  lastfrag : Bool
  timer : Nat
  deriving DecidableEq, Repr

/-- What can be seen of reassembly. -/
inductive Action
  | freed (p : Pbuf)
  /-- An ICMP message about the datagram with this header. -/
  | timeExceeded (hdr : Ipv4Header)
  /-- `ip4_reass` returned these fragments as one datagram. -/
  | datagram (pbufs : List Pbuf) (hdr : Ipv4Header) (payload : List UInt8)
  deriving DecidableEq, Repr

structure Reass where
  reassdatagrams : List IpReassdata
  ipReassPbufcount : Nat
  live : List Nat
  log : List Action
  deriving DecidableEq, Repr

def init : Reass := ⟨[], 0, [], []⟩

/-! ### The fragments of one datagram -/

/-- How a fragment fared in the list of its datagram. -/
inductive Chained
  /-- A failed assertion. -/
  | abort
  | dropped
  /-- The list, what follows the new fragment in it, and whether no hole was seen before it. -/
  | queued (p after : List IpReassHelper) (valid : Bool)
  deriving DecidableEq, Repr

/-- No hole before a fragment, as far as the search has come; `iprh_prev` is the one
before it. -/
def stillValid (iprhPrev : Option IpReassHelper) (valid : Bool) (iprh : IpReassHelper) : Bool :=
  match iprhPrev with
  | some iprhPrev => valid && iprhPrev.end_ == iprh.start
  | none => valid

/-- The search for the place of a fragment. -/
def insertFrag (iprh : IpReassHelper) : Option IpReassHelper → Bool → List IpReassHelper → Chained
  | iprhPrev, valid, [] =>
    match iprhPrev with
    | some iprhPrev =>
      if ¬ iprhPrev.end_ ≤ iprh.start then .abort
      else .queued [iprh] [] (stillValid (some iprhPrev) valid iprh)
    | none => .queued [iprh] [] valid
  | iprhPrev, valid, iprhTmp :: q =>
    if iprh.start < iprhTmp.start then
      match iprhPrev with
      | some iprhPrev =>
        if iprh.start < iprhPrev.end_ ∨ iprh.end_ > iprhTmp.start then .dropped
        else .queued (iprh :: iprhTmp :: q) (iprhTmp :: q) (stillValid (some iprhPrev) valid iprh)
      | none =>
        if iprh.end_ > iprhTmp.start then .dropped
        else .queued (iprh :: iprhTmp :: q) (iprhTmp :: q) valid
    else if iprh.start = iprhTmp.start then .dropped
    else if iprh.start < iprhTmp.end_ then .dropped
    else
      match insertFrag iprh (some iprhTmp) (stillValid iprhPrev valid iprhTmp) q with
      | .queued p after valid => .queued (iprhTmp :: p) after valid
      | chained => chained

/-- No hole after a fragment. -/
def noHoles (iprhPrev : IpReassHelper) : List IpReassHelper → Bool
  | [] => true
  | iprh :: q => iprhPrev.end_ == iprh.start && noHoles iprh q

/-- `ip_reass_chain_frag_into_datagram_and_validate`: the new list and whether the datagram
is finished, or nothing if the fragment is dropped. -/
def chainFrag (ipr : IpReassdata) (newP : Pbuf) (last : Bool) : Option (Option (List IpReassHelper × Bool)) :=
  let offset := iphOffsetBytes newP.hdr
  let len := iphLen newP.hdr - iphHlBytes newP.hdr
  let iprh : IpReassHelper := ⟨offset, (offset + len) % 2 ^ 16, newP⟩
  if iphHlBytes newP.hdr > iphLen newP.hdr then some none
  else if iprh.end_ < offset then some none
  else
    match insertFrag iprh none true ipr.p with
    | .abort => none
    | .dropped => some none
    | .queued p after valid =>
      if last || ipr.lastfrag then
        let valid := valid && (p.head?.any fun head => head.start == 0) && noHoles iprh after
        -- The datagram must not consist of one fragment.
        if valid ∧ p.length = 1 then none else some (some (p, valid))
      else some (some (p, false))

/-- The header of a finished datagram. -/
def datagramHeader (iphdr : Ipv4Header) (datagramLen : Nat) : Ipv4Header :=
  let fraghdr := {iphdr with
    totalLength := hton16 (UInt16.ofNat (datagramLen + ipHlen)), flags3Fragmentoffset13 := 0, checksum := 0}
  {fraghdr with checksum := inetChksum false fraghdr.bytes}

/-- The header kept for a datagram becomes the one of its first fragment. -/
def keepFirstHeader (ipr : IpReassdata) (fraghdr : Ipv4Header) : IpReassdata :=
  if iphOffsetBytes fraghdr = 0 ∧ iphOffsetBytes ipr.iphdr ≠ 0 then {ipr with iphdr := fraghdr} else ipr

/-! ### The datagrams -/

/-- The search of `ip_reass_remove_oldest_datagram`: the oldest datagram other than the
one of `fraghdr`, with its timer, and the number of others. -/
def findOldest (fraghdr : Ipv4Header) (i : Nat) (oldest : Option (Nat × Nat)) (otherDatagrams : Nat) :
    List IpReassdata → Option (Nat × Nat) × Nat
  | [] => (oldest, otherDatagrams)
  | r :: rest =>
    if ipAddressesAndIdMatch r.iphdr fraghdr then findOldest fraghdr (i + 1) oldest otherDatagrams rest
    else
      let oldest :=
        match oldest with
        | none => (i, r.timer)
        | some (j, timer) => if r.timer ≤ timer then (i, r.timer) else (j, timer)
      findOldest fraghdr (i + 1) (some oldest) (otherDatagrams + 1) rest

namespace Reass

def emit (s : Reass) (a : Action) : Reass := {s with log := s.log ++ [a]}

/-- `pbuf_free` of a whole chain. -/
def pbufFree (s : Reass) (p : Pbuf) : Option Reass :=
  if p.id ∈ s.live then some {s with live := s.live.erase p.id, log := s.log ++ [.freed p]} else none

/-- The loop of `ip_reass_free_complete_datagram`: the buffers freed so far are counted. -/
def freeFragments (s : Reass) (pbufsFreed : Nat) : List IpReassHelper → Option (Reass × Nat)
  | [] => some (s, pbufsFreed)
  | iprh :: rest => do
    guard (pbufsFreed + iprh.pbuf.clen ≤ 0xffff)
    let s ← s.pbufFree iprh.pbuf
    s.freeFragments (pbufsFreed + iprh.pbuf.clen) rest

/-- `ip_reass_free_complete_datagram` of the `i`-th datagram. -/
def ipReassFreeCompleteDatagram (s : Reass) (i : Nat) : Option (Reass × Nat) := do
  let ipr ← s.reassdatagrams[i]?
  -- `ipr->p->payload` is read without asking whether there is a fragment.
  let iprh ← ipr.p.head?
  let s := if iprh.start = 0 then s.emit (.timeExceeded ipr.iphdr) else s
  let (s, pbufsFreed) ← s.freeFragments 0 ipr.p
  let s := {s with reassdatagrams := s.reassdatagrams.eraseIdx i}
  guard (s.ipReassPbufcount ≥ pbufsFreed)
  some ({s with ipReassPbufcount := s.ipReassPbufcount - pbufsFreed}, pbufsFreed)

/-- The loop of `ip_reass_tmr`, with `n` datagrams to go from the `i`-th. -/
def tmrLoop (s : Reass) (i : Nat) : Nat → Option Reass
  | 0 => some s
  | n + 1 =>
    match s.reassdatagrams[i]? with
    | none => some s
    | some r =>
      if r.timer > 0 then
        let s := {s with reassdatagrams := s.reassdatagrams.set i {r with timer := r.timer - 1}}
        s.tmrLoop (i + 1) n
      else do
        let (s, _) ← s.ipReassFreeCompleteDatagram i
        s.tmrLoop i n

/-- `ip_reass_tmr`. -/
def ipReassTmr (s : Reass) : Option Reass := s.tmrLoop 0 s.reassdatagrams.length

/-- The loop of `ip_reass_remove_oldest_datagram`, for as many rounds as there can be. -/
def removeOldestLoop (fraghdr : Ipv4Header) (pbufsNeeded : Nat) : Nat → Reass → Nat → Option (Reass × Nat)
  | 0, _, _ => none
  | rounds + 1, s, pbufsFreed => do
    let (oldest, otherDatagrams) := findOldest fraghdr 0 none 0 s.reassdatagrams
    let (s, pbufsFreed) ←
      match oldest with
      | some (i, _) => do
        let (s, pbufsFreedCurrent) ← s.ipReassFreeCompleteDatagram i
        some (s, pbufsFreed + pbufsFreedCurrent)
      | none => some (s, pbufsFreed)
    if pbufsFreed < pbufsNeeded ∧ otherDatagrams > 1 then removeOldestLoop fraghdr pbufsNeeded rounds s pbufsFreed
    else some (s, pbufsFreed)

/-- `ip_reass_remove_oldest_datagram`. -/
def ipReassRemoveOldestDatagram (s : Reass) (fraghdr : Ipv4Header) (pbufsNeeded : Nat) : Option (Reass × Nat) :=
  removeOldestLoop fraghdr pbufsNeeded (s.reassdatagrams.length + 1) s 0

/-- `ip_reass_enqueue_new_datagram`; `mem` and `mem'` say whether the first and the second
allocation succeed. -/
def ipReassEnqueueNewDatagram (s : Reass) (fraghdr : Ipv4Header) (clen : Nat) (mem mem' : Bool) :
    Option (Reass × Bool) := do
  let (s, ok) ←
    if mem then some (s, true)
    else do
      let (s, pbufsFreed) ← s.ipReassRemoveOldestDatagram fraghdr clen
      some (s, decide (pbufsFreed ≥ clen) && mem')
  if ok then
    let ipr : IpReassdata := ⟨[], fraghdr, 0, false, ipReassMaxage⟩
    some ({s with reassdatagrams := ipr :: s.reassdatagrams}, true)
  else some (s, false)

/-- The part of `ip4_reass` that hands a finished datagram on. -/
def finish (s : Reass) (i : Nat) (ipr : IpReassdata) : Option Reass :=
  let clen := (ipr.p.map fun iprh => iprh.pbuf.clen).sum
  if ¬ s.ipReassPbufcount ≥ clen then none
  else
    let pbufs := ipr.p.map IpReassHelper.pbuf
    some {s with
      reassdatagrams := s.reassdatagrams.eraseIdx i
      ipReassPbufcount := s.ipReassPbufcount - clen
      live := pbufs.foldl (fun live p => live.erase p.id) s.live
      log := s.log ++ [.datagram pbufs (datagramHeader ipr.iphdr ipr.datagramLen) (pbufs.flatMap Pbuf.payload)]}

/-- The part of `ip4_reass` after the datagram of the fragment was found or made, the `i`-th. -/
def chainInto (s : Reass) (i : Nat) (ipr : IpReassdata) (p : Pbuf) : Option Reass :=
  let last := isLast p.hdr
  let datagramLen := (iphOffsetBytes p.hdr + (iphLen p.hdr - iphHlBytes p.hdr)) % 2 ^ 16
  if last ∧ (datagramLen < iphOffsetBytes p.hdr ∨ datagramLen > 0xffff - ipHlen) then s.pbufFree p
  else
    match chainFrag ipr p last with
    | none => none
    | some none => do
      -- The fragment is uncounted and freed once by the callee, and freed again here.
      guard (s.ipReassPbufcount ≥ p.clen)
      let s := {s with ipReassPbufcount := s.ipReassPbufcount - p.clen}
      let s ← s.pbufFree p
      s.pbufFree p
    | some (some (frags, valid)) =>
      let ipr := {ipr with p := frags}
      let ipr := if last then {ipr with datagramLen := datagramLen, lastfrag := true} else ipr
      let s := {s with
        reassdatagrams := s.reassdatagrams.set i ipr
        ipReassPbufcount := (s.ipReassPbufcount + p.clen) % 2 ^ 16}
      if valid then s.finish i ipr else some s

/-- Room for a fragment: `none` in the second place where it has to be dropped. -/
def makeRoom (s : Reass) (p : Pbuf) : Option (Reass × Bool) :=
  if s.ipReassPbufcount + p.clen > ipReassMaxPbufs then do
    let (s, pbufsFreed) ← s.ipReassRemoveOldestDatagram p.hdr p.clen
    some (s, decide (pbufsFreed ≠ 0 ∧ s.ipReassPbufcount + p.clen ≤ ipReassMaxPbufs))
  else some (s, true)

/-- `ip4_reass`. -/
def ip4Reass (s : Reass) (p : Pbuf) (mem mem' : Bool) : Option Reass :=
  if iphHlBytes p.hdr ≠ ipHlen then s.pbufFree p
  else if iphHlBytes p.hdr > iphLen p.hdr then s.pbufFree p
  else do
    let (s, room) ← s.makeRoom p
    if ¬ room then s.pbufFree p
    else
      match s.reassdatagrams.findIdx? fun ipr => ipAddressesAndIdMatch ipr.iphdr p.hdr with
      | none => do
        let (s, ok) ← s.ipReassEnqueueNewDatagram p.hdr p.clen mem mem'
        if ok then do
          let ipr ← s.reassdatagrams[0]?
          s.chainInto 0 ipr p
        else s.pbufFree p
      | some i => do
        let ipr ← s.reassdatagrams[i]?
        let ipr := keepFirstHeader ipr p.hdr
        {s with reassdatagrams := s.reassdatagrams.set i ipr}.chainInto i ipr p

end Reass

/-! ### Runs -/

inductive Event
  /-- `ip4_reass` is called; `mem` and `mem'` are its allocations. -/
  | fragment (p : Pbuf) (mem mem' : Bool)
  | tmr
  deriving DecidableEq, Repr

def step (s : Reass) : Event → Option Reass
  | .fragment p mem mem' => {s with live := p.id :: s.live}.ip4Reass p mem mem'
  | .tmr => s.ipReassTmr

/-- What `ip4_input` sees to: the buffers are new, the fragment is one, and its length is
the one its header says. -/
def Admissible (s : Reass) : Event → Prop
  | .fragment p _ _ =>
    p.id ∉ s.live ∧ 0 < p.clen ∧ p.payload.length = iphLen p.hdr - iphHlBytes p.hdr ∧
      p.hdr.flags3Fragmentoffset13 &&& hton16 0x3fff ≠ 0
  | .tmr => True

instance (s : Reass) (e : Event) : Decidable (Admissible s e) := by
  cases e <;> unfold Admissible <;> infer_instance

end TwilightLine.Ip4Frag
