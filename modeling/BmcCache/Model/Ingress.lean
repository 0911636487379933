import BmcCache.Model.Kernel

/-!
# The ingress programs

`bmc_rx_filter_main`, `bmc_hash_keys_main`, `bmc_prepare_packet_main`,
`bmc_write_reply_main` and `bmc_invalidate_cache_main`, each as a function from the state
at its entry to its exit and the state it leaves. A pointer comparison `payload + n <=
data_end` is a comparison of `n` with the length of the packet from `payload` on. The
per-CPU maps with one element always have it, so their null checks have no branch here.
-/

namespace BmcCache

open Buffer

/-- `u16 compute_ip_checksum(struct iphdr *ip)` on the 20 header bytes: the check field is
cleared, the ten little-endian words are added and folded once. -/
def computeIpChecksum (ip : List Byte) : ℕ :=
  let ip := overwrite ip 10 [0, 0]
  let csum := (List.range (sizeofIphdr / 2)).foldl
    (fun acc i => (acc + ((byteAt ip (2 * i)).toNat + 256 * (byteAt ip (2 * i + 1)).toNat)) % 2 ^ 32) 0
  2 ^ 16 - 1 - (csum % 2 ^ 16 + csum / 2 ^ 16) % 2 ^ 16

def le16 (n : ℕ) : List Byte := [(n % 256).toUInt8, (n / 256 % 256).toUInt8]

/-! ### bmc_rx_filter -/

/-- The whitespace loop: iterations left, bytes from `payload + off` on, `off`. -/
def wsLoop : ℕ → List Byte → ℕ → ℕ
  | 0, _, off => off
  | _ + 1, [], off => off
  | n + 1, c :: cs, off => if c ≠ SP then off else wsLoop n cs (off + 1)

def isGet (payload : List Byte) : Bool := (ascii ['g', 'e', 't', ' ']).isPrefixOf payload

/-- The branch of a GET request, with `payload` behind the headers. -/
def rxGet (s : XdpState) (payload : List Byte) : Exit × XdpState :=
  let stats := { s.cpu.stats with getRecvCount := s.cpu.stats.getRecvCount + 1 }
  let pctx := { s.cpu.pctx with keyCount := 0, currentKey := 0, writePktOffset := 0 }
  let off := wsLoop (bmcMaxPacketLength - 4) (payload.drop 4) 4
  if off < bmcMaxPacketLength then
    let pctx := { pctx with readPktOffset := off % 2 ^ 16 }
    let s := { s with cpu := { s.cpu with stats := stats, pctx := pctx } }
    match s.ctx.adjustHead (headersLen + off : ℕ) with
    | none => (.ret .pass, s)
    | some ctx => (.tailCall .hashKeys .pass, { s with ctx := ctx })
  else
    (.ret .pass, { s with cpu := { s.cpu with stats := stats, pctx := pctx } })

def bmcRxFilterMain (s : XdpState) : Exit × XdpState :=
  let pkt := s.ctx.pkt
  if pkt.length < ethHlen + sizeofIphdr then (.ret .pass, s) else
  let protocol := byteAt pkt (ethHlen + 9)
  let transp := ethHlen + sizeofIphdr
  if protocol = ipprotoUdp then
    if pkt.length < transp + sizeofUdphdr then (.ret .pass, s) else
    if be16At pkt (transp + 2) = memcachedPort ∧ headersLen + 4 ≤ pkt.length then
      if isGet (pkt.drop headersLen) then rxGet s (pkt.drop headersLen) else (.ret .pass, s)
    else (.ret .pass, s)
  else if protocol = ipprotoTcp then
    if pkt.length < transp + sizeofTcphdr then (.ret .pass, s) else
    if be16At pkt (transp + 2) = memcachedPort ∧ transp + sizeofTcphdr + 4 ≤ pkt.length then
      (.tailCall .invalidateCache .pass, s)
    else (.ret .pass, s)
  else (.ret .pass, s)

/-! ### bmc_hash_keys -/

structure HashVars where
  hash : UInt32
  off : ℕ
  keyLen : ℕ
  doneParsing : Bool
  deriving DecidableEq, Repr

/-- The hash loop: iterations left and bytes from `payload + off` on. -/
def hashLoop : ℕ → List Byte → HashVars → HashVars
  | 0, _, v => v
  | _ + 1, [], v => v
  | n + 1, c :: cs, v =>
    if c = CR then { v with doneParsing := true }
    else if c = SP then v
    else hashLoop n cs { v with hash := fnvStep v.hash c, off := v.off + 1, keyLen := v.keyLen + 1 }

/-- `for (; i < key_len && payload+i+1 <= data_end; i++) key->data[i] = payload[i]`, with the
iterations left and the bytes from `payload + i` on. -/
def copyKeyLoop : ℕ → List Byte → ℕ → Vector Byte bmcMaxKeyLength → Vector Byte bmcMaxKeyLength
  | 0, _, _, data => data
  | _ + 1, [], _, data => data
  | n + 1, c :: cs, i, data => copyKeyLoop n cs (i + 1) (data.setIfInBounds i c)

def headersBack (pctx : ParsingContext) : ℤ := 0 - ((headersLen + pctx.readPktOffset : ℕ) : ℤ)

/-- The lookup under the entry's lock: a candidate key is saved, a miss is counted. `cpu`
already holds the hash of the key in the slot at `key_count`. -/
def saveOrMiss (cpu : PerCpu) (key : MemcachedKey) (entry : BmcCacheEntry) (payload : List Byte)
    (keyLen : ℕ) : PerCpu :=
  if entry.valid ∧ entry.hash = key.hash then
    let key := { key with data := copyKeyLoop keyLen payload 0 key.data, len := keyLen }
    let cpu := cpu.storeKey cpu.pctx.keyCount key
    { cpu with pctx := { cpu.pctx with keyCount := cpu.pctx.keyCount + 1 } }
  else
    { cpu with stats := { cpu.stats with missCount := cpu.stats.missCount + 1 } }

/-- The end of the program: back to the headers after the last key, or on to the next key. -/
def nextKey (s : XdpState) (v : HashVars) : Exit × XdpState :=
  if v.doneParsing then
    let s := { s with ctx := s.ctx.tryAdjustHead (headersBack s.cpu.pctx) }
    if s.cpu.pctx.keyCount > 0 then (.tailCall .preparePacket .pass, s) else (.ret .pass, s)
  else
    let off := v.off + 1
    let pctx := { s.cpu.pctx with readPktOffset := (s.cpu.pctx.readPktOffset + off) % 2 ^ 16 }
    let s := { s with cpu := { s.cpu with pctx := pctx } }
    match s.ctx.adjustHead off with
    | none => (.ret .pass, s)
    | some ctx => (.tailCall .hashKeys .pass, { s with ctx := ctx })

def bmcHashKeysMain (s : XdpState) : Exit × XdpState :=
  let payload := s.ctx.pkt
  if payload.length = 0 then (.ret .pass, s) else
  match s.cpu.lookupKey s.cpu.pctx.keyCount with
  | none => (.ret .pass, s)
  | some key =>
    let v := hashLoop (bmcMaxKeyLength + 1) payload ⟨fnvOffsetBasis32, 0, 0, false⟩
    let key := { key with hash := v.hash }
    let cpu := s.cpu.storeKey s.cpu.pctx.keyCount key
    if v.keyLen = 0 ∨ v.keyLen > bmcMaxKeyLength then
      (.ret .pass, { s with cpu := cpu, ctx := s.ctx.tryAdjustHead (headersBack cpu.pctx) })
    else
      match s.kcache.lookupElem (cacheIdx key.hash) with
      | none => (.ret .pass, { s with cpu := cpu })
      | some entry => nextKey { s with cpu := saveOrMiss cpu key entry payload v.keyLen } v

/-! ### bmc_prepare_packet -/

/-- Exchange source and destination MAC addresses, IP addresses and UDP ports. -/
def swapAddresses (hdr : List Byte) : List Byte :=
  let hdr := swapFields hdr 0 6 6
  let hdr := swapFields hdr (ethHlen + 12) (ethHlen + 16) 4
  swapFields hdr (ethHlen + sizeofIphdr) (ethHlen + sizeofIphdr + 2) 2

def bmcPreparePacketMain (s : XdpState) : Exit × XdpState :=
  match s.ctx.adjustHead (-(adjustHeadLen : ℤ)) with
  | none => (.ret .pass, s)
  | some ctx =>
    let s := { s with ctx := ctx }
    let pkt := ctx.pkt
    if pkt.length ≤ headersLen ∨ pkt.length ≤ adjustHeadLen + headersLen + 1 then (.ret .pass, s) else
    let hdr := slice pkt adjustHeadLen headersLen
    let s := { s with ctx := ctx.store 0 (swapAddresses hdr) }
    match s.ctx.adjustHead headersLen with
    | none => (.ret .pass, s)
    | some ctx => (.tailCall .writeReply .pass, { s with ctx := ctx })

/-! ### bmc_write_reply -/

def compareKey (key : MemcachedKey) (entry : BmcCacheEntry) : Bool :=
  (List.range (min bmcMaxKeyLength key.len)).all
    fun i => key.data.toList.getD i 0 == entry.data.toList.getD (6 + i) 0

/-- The copy by 8-byte words. The counter bounds the iterations; `off` is also `written`. -/
def wordLoop (entry : BmcCacheEntry) : ℕ → XdpMd → ℕ → XdpMd × ℕ
  | 0, ctx, off => (ctx, off)
  | n + 1, ctx, off =>
    if off + 8 < bmcMaxCacheDataSize ∧ off + 8 ≤ entry.len ∧ off + 8 ≤ ctx.pkt.length then
      wordLoop entry n (ctx.store off (slice entry.data.toList off 8)) (off + 8)
    else (ctx, off)

def byteLoop (entry : BmcCacheEntry) : ℕ → XdpMd → ℕ → XdpMd × ℕ
  | 0, ctx, off => (ctx, off)
  | n + 1, ctx, off =>
    if off < bmcMaxCacheDataSize ∧ off < entry.len ∧ off + 1 ≤ ctx.pkt.length then
      byteLoop entry n (ctx.store off (slice entry.data.toList off 1)) (off + 1)
    else (ctx, off)

def copyEntry (entry : BmcCacheEntry) (ctx : XdpMd) : XdpMd × ℕ :=
  let r := wordLoop entry bmcMaxCacheDataSize ctx 0
  byteLoop entry bmcMaxCacheDataSize r.1 r.2

/-! The same loops with all their variables. -/

/-- The variables of the two copy loops, and the indices of `data` that have been read. -/
structure CopyVars where
  ctx : XdpMd
  off : ℕ
  written : ℕ
  reads : List ℕ

/-- The body of the first loop, then the `off++` of its header. -/
def wordBody (entry : BmcCacheEntry) (v : CopyVars) : CopyVars :=
  let v := { v with
    ctx := v.ctx.store v.off (slice entry.data.toList v.off 8)
    reads := v.reads ++ List.range' v.off 8 }
  let v := { v with off := v.off + 7, written := v.written + 8 }
  { v with off := v.off + 1 }

def byteBody (entry : BmcCacheEntry) (v : CopyVars) : CopyVars :=
  let v := { v with
    ctx := v.ctx.store v.off (slice entry.data.toList v.off 1)
    reads := v.reads ++ [v.off]
    written := v.written + 1 }
  { v with off := v.off + 1 }

def wordLoopVars (entry : BmcCacheEntry) : ℕ → CopyVars → CopyVars
  | 0, v => v
  | n + 1, v =>
    if v.off + 8 < bmcMaxCacheDataSize ∧ v.off + 8 ≤ entry.len ∧ v.off + 8 ≤ v.ctx.pkt.length then
      wordLoopVars entry n (wordBody entry v)
    else v

def byteLoopVars (entry : BmcCacheEntry) : ℕ → CopyVars → CopyVars
  | 0, v => v
  | n + 1, v =>
    if v.off < bmcMaxCacheDataSize ∧ v.off < entry.len ∧ v.off + 1 ≤ v.ctx.pkt.length then
      byteLoopVars entry n (byteBody entry v)
    else v

def copyVars (entry : BmcCacheEntry) (ctx : XdpMd) : CopyVars :=
  byteLoopVars entry bmcMaxCacheDataSize (wordLoopVars entry bmcMaxCacheDataSize ⟨ctx, 0, 0, []⟩)

/-- The section under the entry's lock: `cache_hit`, `written` and the packet. -/
def lockedCopy (key : MemcachedKey) (entry : BmcCacheEntry) (ctx : XdpMd) : Bool × ℕ × XdpMd :=
  if entry.valid ∧ key.hash = entry.hash then
    if compareKey key entry then
      let r := copyEntry entry ctx
      (true, r.2, r.1)
    else (false, 0, ctx)
  else (true, 0, ctx)

/-- The header fields written before transmission; `total` is the frame length. -/
def finishHeaders (ctx : XdpMd) (total : ℕ) : XdpMd :=
  let ctx := ctx.store (ethHlen + 2) (htons (total - ethHlen))
  let ctx := ctx.store (ethHlen + 10) (le16 (computeIpChecksum (slice ctx.pkt ethHlen sizeofIphdr)))
  let ctx := ctx.store (ethHlen + sizeofIphdr + 6) [0, 0]
  ctx.store (ethHlen + sizeofIphdr + 4) (htons (total - (ethHlen + sizeofIphdr)))

def replyEnd : List Byte := ascii ['E', 'N', 'D', '\r', '\n']

def finishReply (s : XdpState) (written : ℕ) : Exit × XdpState :=
  if written + 5 ≤ s.ctx.pkt.length then
    let ctx := s.ctx.store written replyEnd
    let written := written + 5
    let wpo := s.cpu.pctx.writePktOffset
    match ctx.adjustHead (0 - ((headersLen + wpo : ℕ) : ℤ)) with
    | none => (.ret .drop, { s with ctx := ctx })
    | some ctx =>
      if ctx.pkt.length < ethHlen + sizeofIphdr + sizeofUdphdr then
        (.ret .pass, { s with ctx := ctx })
      else
        let total := headersLen + wpo + written
        let ctx := finishHeaders ctx total
        (.ret .tx, { s with ctx := ctx.tryAdjustTail (0 - ((ctx.pkt.length : ℤ) - total)) })
  else (.ret .drop, s)

/-- The end of the program, when `current_key` counts the keys processed so far. -/
def replyNext (s : XdpState) (written : ℕ) : Exit × XdpState :=
  let pctx := s.cpu.pctx
  if pctx.currentKey = pctx.keyCount ∧ (pctx.writePktOffset > 0 ∨ written > 0) then
    finishReply s written
  else if pctx.currentKey = pctx.keyCount then
    let stats := { s.cpu.stats with
      hitMisprediction := s.cpu.stats.hitMisprediction + pctx.keyCount.toUInt32 }
    let ctx := s.ctx.tryAdjustHead ((adjustHeadLen : ℤ) - headersLen)
    (.ret .pass, { s with ctx := ctx, cpu := { s.cpu with stats := stats } })
  else if pctx.currentKey < bmcMaxKeyInPacket then
    let pctx := { pctx with writePktOffset := (pctx.writePktOffset + written) % 2 ^ 16 }
    let s := { s with cpu := { s.cpu with pctx := pctx } }
    match s.ctx.adjustHead written with
    | none => (.ret .drop, s)
    | some ctx => (.tailCall .writeReply .drop, { s with ctx := ctx })
  else (.ret .drop, s)

def countHit (stats : BmcStats) (cacheHit : Bool) : BmcStats :=
  if cacheHit then { stats with hitCount := stats.hitCount + 1 }
  else { stats with missCount := stats.missCount + 1 }

def bmcWriteReplyMain (s : XdpState) : Exit × XdpState :=
  if s.ctx.pkt.length = 0 then (.ret .pass, s) else
  match s.cpu.lookupKey s.cpu.pctx.currentKey with
  | none => (.ret .pass, s)
  | some key =>
    match s.kcache.lookupElem (cacheIdx key.hash) with
    | none => (.ret .drop, s)
    | some entry =>
      let r := lockedCopy key entry s.ctx
      let pctx := { s.cpu.pctx with currentKey := s.cpu.pctx.currentKey + 1 }
      let cpu := { s.cpu with pctx := pctx, stats := countHit s.cpu.stats r.1 }
      replyNext { s with ctx := r.2.2, cpu := cpu } r.2.1

/-! ### bmc_invalidate_cache -/

/-- The variables of the keyword scanner. `skip` counts the bytes that `off += 3` jumps over. -/
structure ScanVars where
  setFound : Bool
  keyFound : Bool
  hash : UInt32
  skip : ℕ
  deriving DecidableEq, Repr

/-- What one iteration of the scanner does besides changing its variables. -/
inductive ScanEvent
  | none
  | setRecv
  | keyEnd (hash : UInt32)
  deriving DecidableEq, Repr

/-- The variables on entry; the C code leaves `hash` uninitialised until a key starts. -/
def ScanVars.init : ScanVars := ⟨false, false, 0, 0⟩

/-- One iteration of the scanner at the byte `c`, with the bytes `cs` behind it. -/
def scanStep (v : ScanVars) (c : Byte) (cs : List Byte) : ScanVars × ScanEvent :=
  if 0 < v.skip then ({ v with skip := v.skip - 1 }, .none)
  else if v.setFound = false ∧ c = chr 's' ∧ (ascii ['e', 't']).isPrefixOf cs then
    ({ v with setFound := true, skip := 3 }, .setRecv)
  else if v.keyFound = false ∧ v.setFound = true ∧ c ≠ SP then
    if c = CR then ({ v with setFound := false, keyFound := false }, .none)
    else ({ v with hash := fnvStep fnvOffsetBasis32 c, keyFound := true }, .none)
  else if v.keyFound then
    if c = SP then ({ v with setFound := false, keyFound := false }, .keyEnd v.hash)
    else ({ v with hash := fnvStep v.hash c }, .none)
  else (v, .none)

/-- The section under the lock of the slot of `hash`. -/
def invalidateSlot (hash : UInt32) (cpu : PerCpu) (kcache : Cache) : PerCpu × Cache :=
  let entry := kcache.at hash
  if entry.valid then
    ({ cpu with stats := { cpu.stats with invalidationCount := cpu.stats.invalidationCount + 1 } },
      kcache.store (cacheIdx hash) { entry with valid := false })
  else (cpu, kcache)

def applyScanEvent : ScanEvent → PerCpu → Cache → PerCpu × Cache
  | .none, cpu, kcache => (cpu, kcache)
  | .setRecv, cpu, kcache =>
    ({ cpu with stats := { cpu.stats with setRecvCount := cpu.stats.setRecvCount + 1 } }, kcache)
  | .keyEnd hash, cpu, kcache => invalidateSlot hash cpu kcache

/-- The scanner loop: iterations left and bytes from `payload + off` on. -/
def scanLoop : ℕ → List Byte → ScanVars → PerCpu → Cache → PerCpu × Cache
  | 0, _, _, cpu, kcache => (cpu, kcache)
  | _ + 1, [], _, cpu, kcache => (cpu, kcache)
  | n + 1, c :: cs, v, cpu, kcache =>
    let r := scanStep v c cs
    let m := applyScanEvent r.2 cpu kcache
    scanLoop n cs r.1 m.1 m.2

def bmcInvalidateCacheMain (s : XdpState) : Exit × XdpState :=
  let payload := s.ctx.pkt.drop (ethHlen + sizeofIphdr + sizeofTcphdr)
  if payload.length = 0 then (.ret .pass, s) else
  let r := scanLoop bmcMaxPacketLength payload ScanVars.init s.cpu s.kcache
  (.ret .pass, { s with cpu := r.1, kcache := r.2 })

/-! ### Tail calls -/

def XdpProg.main : XdpProg → XdpState → Exit × XdpState
  | .rxFilter => bmcRxFilterMain
  | .hashKeys => bmcHashKeysMain
  | .preparePacket => bmcPreparePacketMain
  | .writeReply => bmcWriteReplyMain
  | .invalidateCache => bmcInvalidateCacheMain

/-- What the other CPUs do to the cache before the program with the given number runs. -/
abbrev Interference := ℕ → Cache → Cache

def Interference.quiet : Interference := fun _ c => c

/-- Run the chain from the program `prog`, number `t` of the packet, with `left` tail calls
still allowed. Before each program the other CPUs may change the cache. -/
def runChain (env : Interference) : ℕ → ℕ → XdpProg → XdpState → XdpAction × XdpState
  | left, t, prog, s =>
    match prog.main { s with kcache := env t s.kcache } with
    | (.ret action, s') => (action, s')
    | (.tailCall next fallthrough, s') =>
      match left with
      | 0 => (fallthrough, s')
      | left + 1 => runChain env left (t + 1) next s'

/-- A received frame, with the memory in front of it that the start may be moved into. -/
def received (headroom frame : List Byte) : XdpMd := ⟨headroom ++ frame, headroom.length⟩

def runXdp (env : Interference) (headroom frame : List Byte) (cpu : PerCpu) (kcache : Cache) :
    XdpAction × XdpState :=
  runChain env maxTailCallCnt 0 .rxFilter ⟨received headroom frame, cpu, kcache⟩

end BmcCache
