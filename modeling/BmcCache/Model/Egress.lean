import BmcCache.Model.Kernel

/-!
# The egress programs

`bmc_tx_filter_main` and `bmc_update_cache_main` on the traffic-control hook. They return
integers; two of their `return` statements use the XDP constant `XDP_PASS`.
-/

namespace BmcCache

structure EgressResult where
  code : ℕ
  stats : BmcStats
  kcache : Cache

def isValue (payload : List Byte) : Bool := (ascii ['V', 'A', 'L', 'U', 'E', ' ']).isPrefixOf payload

/-- The key hash loop: iterations left, bytes from `payload + off` on, the hash so far. -/
def updateHashLoop : ℕ → List Byte → UInt32 → UInt32
  | 0, _, hash => hash
  | _ + 1, [], hash => hash
  | n + 1, c :: cs, hash => if c ≠ SP then updateHashLoop n cs (fnvStep hash c) else hash

/-- The comparison loop; the result is `diff`. The counter is the iterations left under the
key bound, the list the bytes from `payload + off` on. -/
def diffLoop (entry : BmcCacheEntry) : ℕ → List Byte → ℕ → Bool
  | 0, _, _ => false
  | _ + 1, [], _ => false
  | n + 1, c :: cs, off =>
    let d := entry.data.toList.getD off 0
    if off < entry.len ∧ (c ≠ SP ∨ d ≠ SP) then
      if d ≠ c then true else diffLoop entry n cs (off + 1)
    else false

/-- The copy loop: bytes from `payload + j` on, `j`, `count` and the entry being written. -/
def copyReplyLoop : List Byte → ℕ → ℕ → BmcCacheEntry → ℕ × BmcCacheEntry
  | [], _, count, entry => (count, entry)
  | c :: cs, j, count, entry =>
    if j < bmcMaxCacheDataSize ∧ count < 2 then
      copyReplyLoop cs (j + 1) (if c = LF then count + 1 else count)
        { entry with data := entry.data.setIfInBounds j c, len := entry.len + 1 }
    else (count, entry)

def upToDate (entry : BmcCacheEntry) (hash : UInt32) (payload : List Byte) : Bool :=
  entry.valid && entry.hash == hash && !(diffLoop entry bmcMaxKeyLength (payload.drop 6) 6)

/-- The section under the lock: the entry as it is left, and whether it was updated. -/
def updateEntry (entry : BmcCacheEntry) (hash : UInt32) (payload : List Byte) :
    BmcCacheEntry × Bool :=
  if upToDate entry hash payload then (entry, false)
  else
    let r := copyReplyLoop payload 0 0 { entry with len := 0 }
    if r.1 = 2 then ({ r.2 with valid := true, hash := hash }, true) else (r.2, false)

def replyHash (payload : List Byte) : UInt32 :=
  updateHashLoop bmcMaxKeyLength (payload.drop 6) fnvOffsetBasis32

def bmcUpdateCacheMain (skb : SkBuff) (stats : BmcStats) (kcache : Cache) : EgressResult :=
  let payload := skb.linear.drop headersLen
  let hash := replyHash payload
  match kcache.lookupElem (cacheIdx hash) with
  | none => ⟨tcActOk, stats, kcache⟩
  | some entry =>
    let r := updateEntry entry hash payload
    let stats := if r.2 then { stats with updateCount := stats.updateCount + 1 } else stats
    ⟨tcActOk, stats, kcache.store (cacheIdx hash) r.1⟩

/-- `bmc_tx_filter_main` with its tail call to `bmc_update_cache_main`. -/
def bmcTxFilterMain (skb : SkBuff) (stats : BmcStats) (kcache : Cache) : EgressResult :=
  let pkt := skb.linear
  if skb.len > bmcMaxCacheDataSize + headersLen then ⟨tcActOk, stats, kcache⟩ else
  if pkt.length < ethHlen + sizeofIphdr then ⟨XdpAction.pass.code, stats, kcache⟩ else
  if byteAt pkt (ethHlen + 9) ≠ ipprotoUdp then ⟨tcActOk, stats, kcache⟩ else
  if pkt.length < ethHlen + sizeofIphdr + sizeofUdphdr then ⟨tcActOk, stats, kcache⟩ else
  if be16At pkt (ethHlen + sizeofIphdr) = memcachedPort ∧ headersLen + 6 ≤ pkt.length ∧
      isValue (pkt.drop headersLen) then
    bmcUpdateCacheMain skb { stats with getRespCount := stats.getRespCount + 1 } kcache
  else ⟨tcActOk, stats, kcache⟩

end BmcCache
