import BmcCache.Model.Common

/-!
# Packets and kernel helpers

What the programs use of the kernel: the XDP packet buffer with `bpf_xdp_adjust_head` and
`bpf_xdp_adjust_tail`, the socket buffer of the traffic-control hook, verdicts and tail
calls. The buffer is the memory from the lowest address the packet start may be moved to
up to `data_end`; the packet start is an index into it.
-/

namespace BmcCache

open Buffer

abbrev ethHlen : ℕ := 14
abbrev sizeofIphdr : ℕ := 20
abbrev sizeofUdphdr : ℕ := 8
abbrev sizeofTcphdr : ℕ := 20
abbrev sizeofMemcachedUdpHeader : ℕ := 8

abbrev headersLen : ℕ := ethHlen + sizeofIphdr + sizeofUdphdr + sizeofMemcachedUdpHeader

abbrev ipprotoTcp : Byte := 6
abbrev ipprotoUdp : Byte := 17
abbrev memcachedPort : ℕ := 11211
abbrev adjustHeadLen : ℕ := 128
abbrev maxTailCallCnt : ℕ := 33

lemma sizes : ethHlen = 14 ∧ sizeofIphdr = 20 ∧ sizeofUdphdr = 8 ∧ sizeofTcphdr = 20 ∧
    sizeofMemcachedUdpHeader = 8 ∧ headersLen = 50 ∧ adjustHeadLen = 128 ∧ maxTailCallCnt = 33 := by
  decide

/-- Byte `i` of a packet whose bounds have been checked. -/
def byteAt (p : List Byte) (i : ℕ) : Byte := p.getD i 0

/-- The big-endian 16-bit field at `i`, as `ntohs` reads it. -/
def be16At (p : List Byte) (i : ℕ) : ℕ := (byteAt p i).toNat * 256 + (byteAt p (i + 1)).toNat

lemma byteAt_append {a b : List Byte} {i : ℕ} (h : i < a.length) : byteAt (a ++ b) i = byteAt a i := by
  simp only [byteAt, List.getD_eq_getElem?_getD, List.getElem?_append_left h]

lemma be16At_append {a b : List Byte} {i : ℕ} (h : i + 1 < a.length) : be16At (a ++ b) i = be16At a i := by
  rw [be16At, byteAt_append (Nat.lt_of_succ_lt h), byteAt_append h, be16At]

/-- The headers in front of a TCP segment to memcached, without options. -/
structure IsTcpHeader (hdr : List Byte) : Prop where
  length : hdr.length = ethHlen + sizeofIphdr + sizeofTcphdr
  protocol : byteAt hdr (ethHlen + 9) = ipprotoTcp
  port : be16At hdr (ethHlen + sizeofIphdr + 2) = memcachedPort

structure IsUdpHeader (hdr : List Byte) : Prop where
  length : hdr.length = headersLen
  protocol : byteAt hdr (ethHlen + 9) = ipprotoUdp
  port : be16At hdr (ethHlen + sizeofIphdr + 2) = memcachedPort

structure IsReplyHeader (hdr : List Byte) : Prop where
  length : hdr.length = ethHlen + sizeofIphdr + sizeofUdphdr
  protocol : byteAt hdr (ethHlen + 9) = ipprotoUdp
  port : be16At hdr (ethHlen + sizeofIphdr) = memcachedPort

def htons (n : ℕ) : List Byte := [(n / 256 % 256).toUInt8, (n % 256).toUInt8]

/-- A field that `htons` has written is read back as it was, cut to 16 bits. -/
lemma be16At_htons (a b : List Byte) (n : ℕ) : be16At (a ++ (htons n ++ b)) a.length = n % 2 ^ 16 := by
  have hhi : byteAt (a ++ (htons n ++ b)) a.length = (n / 256 % 256).toUInt8 := by
    simp only [byteAt, List.getD_eq_getElem?_getD]
    rw [List.getElem?_append_right (Nat.le_refl _), Nat.sub_self]
    rfl
  have hlo : byteAt (a ++ (htons n ++ b)) (a.length + 1) = (n % 256).toUInt8 := by
    simp only [byteAt, List.getD_eq_getElem?_getD]
    rw [List.getElem?_append_right (Nat.le_add_right _ 1), Nat.add_sub_cancel_left]
    rfl
  rw [be16At, hhi, hlo]
  simp only [Nat.toUInt8, UInt8.toNat_ofNat']
  omega

structure XdpMd where
  mem : List Byte
  data : ℕ

namespace XdpMd

def pkt (ctx : XdpMd) : List Byte := ctx.mem.drop ctx.data

/-- `bpf_xdp_adjust_head`: `none` is the error return, which leaves the packet as it was.
The new start lies within the headroom and at least `ETH_HLEN` bytes before `data_end`. -/
def adjustHead (ctx : XdpMd) (off : ℤ) : Option XdpMd :=
  let data := (ctx.data : ℤ) + off
  if 0 ≤ data ∧ data + ethHlen ≤ ctx.mem.length then some { ctx with data := data.toNat } else none

/-- The packet after a call of `bpf_xdp_adjust_head` whose result is ignored. -/
def tryAdjustHead (ctx : XdpMd) (off : ℤ) : XdpMd := (ctx.adjustHead off).getD ctx

/-- `bpf_xdp_adjust_tail` by a non-positive offset, its result ignored. -/
def tryAdjustTail (ctx : XdpMd) (off : ℤ) : XdpMd :=
  let dataEnd := (ctx.mem.length : ℤ) + off
  if off ≤ 0 ∧ (ctx.data : ℤ) + ethHlen ≤ dataEnd then { ctx with mem := ctx.mem.take dataEnd.toNat }
  else ctx

def store (ctx : XdpMd) (off : ℕ) (bs : List Byte) : XdpMd :=
  { ctx with mem := overwrite ctx.mem (ctx.data + off) bs }

end XdpMd

inductive XdpAction
  | drop
  | pass
  | tx
  deriving DecidableEq, Repr

def XdpAction.code : XdpAction → ℕ
  | .drop => 1
  | .pass => 2
  | .tx => 3

abbrev tcActOk : ℕ := 0
abbrev tcActShot : ℕ := 2

/-- The programs of the ingress chain: the attached filter and those of `map_progs_xdp`. -/
inductive XdpProg
  | rxFilter
  | hashKeys
  | preparePacket
  | writeReply
  | invalidateCache
  deriving DecidableEq, Repr

/-- How a program ends: with a verdict, or with a tail call and the verdict of the
`return` behind it, which is reached when the tail call falls through. -/
inductive Exit
  | ret (action : XdpAction)
  | tailCall (prog : XdpProg) (fallthrough : XdpAction)
  deriving DecidableEq, Repr

structure XdpState where
  ctx : XdpMd
  cpu : PerCpu
  kcache : Cache

/-- The outgoing packet at the traffic-control hook: its linear part and its full length. -/
structure SkBuff where
  linear : List Byte
  len : ℕ
  linear_le : linear.length ≤ len

end BmcCache
