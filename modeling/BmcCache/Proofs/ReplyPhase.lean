import BmcCache.Proofs.RequestWalk

/-!
# The reply phase

`bmc_prepare_packet_main` copies the headers into the headroom and `bmc_write_reply_main`
assembles the reply behind them, one saved key at a time, by moving the packet start over
each block and calling itself again. `reply` is that assembly on the blocks alone; the
chain of programs is shown to follow it, with the exact frame it transmits.
-/

namespace BmcCache.Proofs

open Buffer

/-! ### One saved key -/

/-- The block `bmc_write_reply_main` copies for the key `k`: the contents of the entry in the
slot of `k` if it is valid, has the hash of `k` and starts with the bytes of `k`. -/
def cachedBlock (c : Cache) (k : List Byte) : List Byte :=
  let e := c.at (fnv1aHash32 k)
  if e.valid = true ∧ e.hash = fnv1aHash32 k ∧ slice e.data.toList 6 k.length = k then e.block else []

/-- The bytes behind `VALUE ` in the entry of `k` are those of `k`. -/
def keyMatches (c : Cache) (k : List Byte) : Bool :=
  slice (c.at (fnv1aHash32 k)).data.toList 6 k.length == k

/-- The value of `cache_hit` behind the locked section: it starts as 1 and is cleared only in the
comparison, which an entry that is no longer the one saved does not come to. -/
def countsHit (c : Cache) (k : List Byte) : Bool := !looksCached c k || keyMatches c k

lemma cachedBlock_eq_block {c : Cache} {k : List Byte} (h : cachedBlock c k ≠ []) :
    (c.at (fnv1aHash32 k)).valid = true ∧ cachedBlock c k = (c.at (fnv1aHash32 k)).block := by
  simp only [cachedBlock] at h ⊢
  split_ifs at h ⊢ with hhit
  · exact ⟨hhit.1, rfl⟩
  · exact absurd rfl h

lemma length_cachedBlock_le (c : Cache) (k : List Byte) :
    (cachedBlock c k).length ≤ bmcMaxCacheDataSize := by
  simp only [cachedBlock]
  split
  · rw [length_block]
    exact Nat.min_le_right _ _
  · simp

lemma compareKey_iff {key : MemcachedKey} {k : List Byte} (hk : HoldsKey key k) (e : BmcCacheEntry) :
    compareKey key e = true ↔ slice e.data.toList 6 k.length = k := by
  have hlim := limits
  have hle := hk.le
  have hmin : min bmcMaxKeyLength key.len = k.length := by
    rw [hk.len]
    omega
  have hdata : ∀ i (hi : i < k.length), key.data.toList.getD i 0 = k[i] := by
    intro i hi
    have h1 : (key.data.toList.take k.length)[i]? = k[i]? := by rw [hk.data]
    rw [List.getElem?_take_of_lt hi, List.getElem?_eq_getElem hi] at h1
    rw [List.getD_eq_getElem?_getD, h1, Option.getD_some]
  have hentry : ∀ i (hi : i < k.length), e.data.toList.getD (6 + i) 0 =
      (slice e.data.toList 6 k.length)[i]?.getD 0 := by
    intro i hi
    rw [slice, List.getElem?_take_of_lt hi, List.getElem?_drop, List.getD_eq_getElem?_getD]
  rw [compareKey, hmin, List.all_eq_true]
  constructor
  · intro h
    apply List.ext_getElem?
    intro i
    rcases Nat.lt_or_ge i k.length with hi | hi
    · have hslice : i < (slice e.data.toList 6 k.length).length := by
        simp only [slice, List.length_take, List.length_drop, Vector.length_toList]
        omega
      have heq := h i (List.mem_range.mpr hi)
      rw [beq_iff_eq, hdata i hi, hentry i hi, List.getElem?_eq_getElem hslice, Option.getD_some] at heq
      rw [List.getElem?_eq_getElem hslice, List.getElem?_eq_getElem hi, heq]
    · rw [List.getElem?_eq_none hi, List.getElem?_eq_none]
      simp only [slice, List.length_take]
      omega
  · intro h i hi
    have hi' := List.mem_range.mp hi
    rw [beq_iff_eq, hdata i hi', hentry i hi', h, List.getElem?_eq_getElem hi', Option.getD_some]

lemma lockedCopy_spec {key : MemcachedKey} {k : List Byte} (hk : HoldsKey key k) (c : Cache)
    (ctx : XdpMd) :
    (lockedCopy key (c.at key.hash) ctx).2 =
      (min (cachedBlock c k).length ctx.pkt.length, ctx.store 0 ((cachedBlock c k).take ctx.pkt.length)) := by
  rw [hk.hash]
  simp only [lockedCopy, cachedBlock, hk.hash]
  by_cases hv : (c.at (fnv1aHash32 k)).valid = true ∧ fnv1aHash32 k = (c.at (fnv1aHash32 k)).hash
  · rw [if_pos hv]
    by_cases hcmp : compareKey key (c.at (fnv1aHash32 k)) = true
    · have hsl := (compareKey_iff hk _).mp hcmp
      rw [if_pos hcmp, if_pos ⟨hv.1, hv.2.symm, hsl⟩, copyEntry_spec]
    · have hsl : ¬slice (c.at (fnv1aHash32 k)).data.toList 6 k.length = k :=
        fun h => hcmp ((compareKey_iff hk _).mpr h)
      rw [if_neg hcmp, if_neg (fun h => hsl h.2.2)]
      simp
  · rw [if_neg hv, if_neg (fun h => hv ⟨h.1, h.2.1.symm⟩)]
    simp

lemma lockedCopy_hit {key : MemcachedKey} {k : List Byte} (hk : HoldsKey key k) (c : Cache) (ctx : XdpMd) :
    (lockedCopy key (c.at key.hash) ctx).1 = countsHit c k := by
  have hcmp := compareKey_iff hk (c.at (fnv1aHash32 k))
  rw [hk.hash]
  simp only [lockedCopy, countsHit, looksCached, keyMatches, hk.hash]
  by_cases hv : (c.at (fnv1aHash32 k)).valid = true ∧ fnv1aHash32 k = (c.at (fnv1aHash32 k)).hash
  · have hlooks : ((c.at (fnv1aHash32 k)).valid && (c.at (fnv1aHash32 k)).hash == fnv1aHash32 k) = true := by
      simp [hv.1, ← hv.2]
    rw [if_pos hv, hlooks, Bool.not_true, Bool.false_or]
    by_cases hsame : slice (c.at (fnv1aHash32 k)).data.toList 6 k.length = k
    · rw [if_pos (hcmp.mpr hsame), beq_iff_eq.mpr hsame]
    · rw [if_neg (mt hcmp.mp hsame), beq_eq_false_iff_ne.mpr hsame]
  · have hlooks : ((c.at (fnv1aHash32 k)).valid && (c.at (fnv1aHash32 k)).hash == fnv1aHash32 k) = false := by
      rw [← Bool.not_eq_true, Bool.and_eq_true, beq_iff_eq]
      exact fun h => hv ⟨h.1, h.2.symm⟩
    rw [if_neg hv, hlooks, Bool.not_false, Bool.true_or]

/-! ### One program of the assembly -/

/-- The state in which `bmc_write_reply_main` looks at the first of the saved keys `todo`:
behind the new headers `hdr` stands `out`, written so far over the bytes `rest`. -/
structure AtWrite (s : XdpState) (pre hdr rest out : List Byte) (done todo : List (List Byte)) :
    Prop where
  ctx : s.ctx = ⟨pre ++ (hdr ++ (out ++ rest.drop out.length)), pre.length + (headersLen + out.length)⟩
  hdrLen : hdr.length = headersLen
  room : out.length + ethHlen ≤ rest.length
  enough : adjustHeadLen + ethHlen ≤ headersLen + rest.length
  bound : out.length ≤ bmcMaxCacheDataSize * done.length
  saved : Saved s.cpu (done ++ todo)
  currentKey : s.cpu.pctx.currentKey = done.length
  writePktOffset : s.cpu.pctx.writePktOffset = out.length

section OneBlock

variable {s : XdpState} {pre hdr rest out : List Byte} {done todo : List (List Byte)}

lemma AtWrite.pkt_eq (hs : AtWrite s pre hdr rest out done todo) : s.ctx.pkt = rest.drop out.length := by
  have hlen : pre.length + (headersLen + out.length) = (pre ++ (hdr ++ out)).length := by
    simp [hs.hdrLen]
  rw [XdpMd.pkt, hs.ctx]
  simp only
  rw [hlen, show pre ++ (hdr ++ (out ++ rest.drop out.length)) =
    pre ++ (hdr ++ out) ++ rest.drop out.length by simp, List.drop_left]

lemma AtWrite.pkt_length_eq (hs : AtWrite s pre hdr rest out done todo) :
    s.ctx.pkt.length = rest.length - out.length := by
  rw [hs.pkt_eq, List.length_drop]

lemma AtWrite.store_block (hs : AtWrite s pre hdr rest out done todo) (b : List Byte) :
    s.ctx.store 0 b = ⟨pre ++ (hdr ++ (out ++ b ++ rest.drop (out ++ b).length)),
      pre.length + (headersLen + out.length)⟩ := by
  have hlen : pre.length + (headersLen + out.length) = (pre ++ (hdr ++ out)).length := by
    simp [hs.hdrLen]
  have hmem := overwrite_append (pre ++ (hdr ++ out)) (rest.drop out.length) b
  rw [← hlen, List.drop_drop] at hmem
  rw [XdpMd.store, hs.ctx]
  simp only [Nat.add_zero]
  congr 1
  simpa using hmem

/-- The state in which the end of the program is reached, with the block `b` written. -/
def afterBlock (s : XdpState) (i : ℕ) (b : List Byte) (cacheHit : Bool) : XdpState :=
  { s with
    ctx := s.ctx.store 0 b
    cpu := { s.cpu with
      pctx := { s.cpu.pctx with currentKey := i }
      stats := countHit s.cpu.stats cacheHit } }

lemma writeReply_eq {k : List Byte} (hs : AtWrite s pre hdr rest out done (k :: todo)) :
    bmcWriteReplyMain s = replyNext
      (afterBlock s (done.length + 1) ((cachedBlock s.kcache k).take s.ctx.pkt.length) (countsHit s.kcache k))
      (min (cachedBlock s.kcache k).length s.ctx.pkt.length) := by
  have hsz := sizes
  have hroom := hs.room
  have hpos : s.ctx.pkt.length ≠ 0 := by
    rw [hs.pkt_length_eq]
    omega
  obtain ⟨key, hlookup, hk⟩ := hs.saved.holds done.length k (by simp)
  simp only [bmcWriteReplyMain, hpos, if_false, hs.currentKey, hlookup, Cache.lookupElem_cacheIdx]
  rw [lockedCopy_spec hk, lockedCopy_hit hk]
  rfl

/-! #### The header fields -/

/-- The header fields `bmc_write_reply_main` sets, on the 50 header bytes. -/
def headerFields (hdr : List Byte) (total : ℕ) : List Byte :=
  let hdr := overwrite hdr (ethHlen + 2) (htons (total - ethHlen))
  let hdr := overwrite hdr (ethHlen + 10) (le16 (computeIpChecksum (slice hdr ethHlen sizeofIphdr)))
  let hdr := overwrite hdr (ethHlen + sizeofIphdr + 6) [0, 0]
  overwrite hdr (ethHlen + sizeofIphdr + 4) (htons (total - (ethHlen + sizeofIphdr)))

lemma store_header {pre hdr post bs : List Byte} {off : ℕ} (h : off + bs.length ≤ hdr.length) :
    (⟨pre ++ (hdr ++ post), pre.length⟩ : XdpMd).store off bs =
      ⟨pre ++ (overwrite hdr off bs ++ post), pre.length⟩ := by
  simp only [XdpMd.store]
  rw [overwrite_middle h]

lemma length_htons (n : ℕ) : (htons n).length = 2 := rfl

lemma length_le16 (n : ℕ) : (le16 n).length = 2 := rfl

lemma length_overwrite_hdr {hdr bs : List Byte} {off : ℕ} (h : hdr.length = headersLen)
    (hbs : bs.length = 2) (hoff : off + 2 ≤ headersLen) : (overwrite hdr off bs).length = headersLen :=
  (length_overwrite (by rw [hbs, h]; exact hoff)).trans h

section HeaderFields

variable {hdr : List Byte} (h : hdr.length = headersLen) (total n : ℕ)
include h

lemma length_totLen : (overwrite hdr (ethHlen + 2) (htons n)).length = headersLen :=
  length_overwrite_hdr h (length_htons n) (by decide)

lemma length_ipCheck : (overwrite hdr (ethHlen + 10) (le16 n)).length = headersLen :=
  length_overwrite_hdr h (length_le16 n) (by decide)

lemma length_udpCheck : (overwrite hdr (ethHlen + sizeofIphdr + 6) [0, 0]).length = headersLen :=
  length_overwrite_hdr h rfl (by decide)

lemma length_udpLen : (overwrite hdr (ethHlen + sizeofIphdr + 4) (htons n)).length = headersLen :=
  length_overwrite_hdr h (length_htons n) (by decide)

lemma length_headerFields : (headerFields hdr total).length = headersLen :=
  length_udpLen (length_udpCheck (length_ipCheck (length_totLen h _) _)) _

lemma finishHeaders_spec {pre post : List Byte} :
    finishHeaders ⟨pre ++ (hdr ++ post), pre.length⟩ total =
      ⟨pre ++ (headerFields hdr total ++ post), pre.length⟩ := by
  have h1 := length_totLen h (total - ethHlen)
  have h2 (n : ℕ) := length_ipCheck h1 n
  have h3 (n : ℕ) := length_udpCheck (h2 n)
  have hip : slice (XdpMd.pkt ⟨pre ++ (overwrite hdr (ethHlen + 2) (htons (total - ethHlen)) ++ post),
      pre.length⟩) ethHlen sizeofIphdr =
      slice (overwrite hdr (ethHlen + 2) (htons (total - ethHlen))) ethHlen sizeofIphdr := by
    simp only [XdpMd.pkt, List.drop_left, slice]
    rw [List.drop_append_of_le_length (by rw [h1]; decide), List.take_append_of_le_length]
    rw [List.length_drop, h1]
    decide
  simp only [finishHeaders, headerFields]
  rw [store_header (by rw [length_htons, h]; decide), hip,
    store_header (by rw [length_le16, h1]; decide), store_header (by rw [h2]; decide),
    store_header (by rw [length_htons, h3]; decide)]

end HeaderFields

/-! #### The three ends of the program -/

inductive ReplyStep
  /-- The packet is discarded. -/
  | discard
  /-- No saved key hit: the request goes back to the network stack. -/
  | noHit
  /-- The reply is complete. -/
  | send (out : List Byte)
  /-- More keys follow; `out` has been written. -/
  | next (out : List Byte)
  deriving DecidableEq, Repr

/-- The step for the key `k` when `out` stands behind the headers and `room` bytes were there. -/
def replyStep (c : Cache) (room : ℕ) (out : List Byte) (k : List Byte) (last : Bool) : ReplyStep :=
  let out := out ++ cachedBlock c k
  if last then
    if out = [] then .noHit else if out.length + 5 ≤ room then .send out else .discard
  else if out.length + ethHlen ≤ room then .next out else .discard

/-- The frame that is sent: the finished headers, the blocks and the end marker. -/
def replyFrame (hdr out : List Byte) : List Byte :=
  headerFields hdr (headersLen + out.length + 5) ++ (out ++ replyEnd)

/-- What a program does when its key leads to the given step. -/
def FollowsReplyStep (pre hdr rest : List Byte) (done todo : List (List Byte)) (res : Exit × XdpState) :
    ReplyStep → Prop
  | .discard => res.1 = .ret .drop
  | .noHit => res.1 = .ret .pass ∧ res.2.ctx = ⟨pre ++ (hdr ++ rest), pre.length + adjustHeadLen⟩
  | .send out => res.1 = .ret .tx ∧ res.2.ctx.pkt = replyFrame hdr out ∧ Saved res.2.cpu (done ++ todo)
  | .next out => res.1 = .tailCall .writeReply .drop ∧ AtWrite res.2 pre hdr rest out done todo

lemma length_replyEnd : replyEnd.length = 5 := rfl

lemma adjustHead_backward {mem : List Byte} {data n : ℕ} (hroom : data + ethHlen ≤ mem.length) :
    (⟨mem, data + n⟩ : XdpMd).adjustHead (0 - (n : ℤ)) = some ⟨mem, data⟩ := by
  simp only [XdpMd.adjustHead]
  rw [if_pos (by omega)]
  congr 2
  omega

lemma tryAdjustTail_total (pre body post : List Byte) {total : ℕ} (htotal : body.length = total)
    (hmin : ethHlen ≤ total) :
    ((⟨pre ++ (body ++ post), pre.length⟩ : XdpMd).tryAdjustTail
      (0 - ((((body ++ post).length : ℕ) : ℤ) - total))).pkt = body := by
  have hlen : (pre ++ (body ++ post)).length = pre.length + (body ++ post).length := by simp
  have hsum : (body ++ post).length = total + post.length := by simp [htotal]
  simp only [XdpMd.tryAdjustTail]
  rw [if_pos (by omega)]
  simp only [XdpMd.pkt]
  have hcut : (((pre ++ (body ++ post)).length : ℤ) +
      (0 - ((((body ++ post).length : ℕ) : ℤ) - total))).toNat = pre.length + body.length := by
    omega
  rw [hcut, List.take_length_add_append, List.drop_left, List.take_left]

lemma finishReply_spec {b : List Byte} (i : ℕ) (cacheHit : Bool)
    (hs : AtWrite s pre hdr rest out done todo) (hfits : (out ++ b).length + 5 ≤ rest.length) :
    (finishReply (afterBlock s i b cacheHit) b.length).1 = .ret .tx ∧
      (finishReply (afterBlock s i b cacheHit) b.length).2.ctx.pkt = replyFrame hdr (out ++ b) := by
  have hsz := sizes
  have hhdr := hs.hdrLen
  have hroom := hs.room
  have hout : (out ++ b).length = out.length + b.length := List.length_append
  have hfits' : 0 + b.length ≤ s.ctx.pkt.length := by
    rw [hs.pkt_length_eq]
    omega
  have hpkt : (s.ctx.store 0 b).pkt.length = rest.length - out.length := by
    rw [pkt_length_store hfits', hs.pkt_length_eq]
  have hend : (s.ctx.store 0 b).store b.length replyEnd =
      ⟨pre ++ (hdr ++ (out ++ (b ++ replyEnd) ++ rest.drop (out ++ (b ++ replyEnd)).length)),
        pre.length + (headersLen + out.length)⟩ := by
    have h := store_store s.ctx 0 b replyEnd hfits'
    rw [Nat.zero_add] at h
    rw [h, hs.store_block]
  have hback : (⟨pre ++ (hdr ++ (out ++ (b ++ replyEnd) ++ rest.drop (out ++ (b ++ replyEnd)).length)),
      pre.length + (headersLen + out.length)⟩ : XdpMd).adjustHead
        (0 - ((headersLen + out.length : ℕ) : ℤ)) =
      some ⟨pre ++ (hdr ++ (out ++ (b ++ replyEnd) ++ rest.drop (out ++ (b ++ replyEnd)).length)),
        pre.length⟩ := by
    apply adjustHead_backward
    simp only [List.length_append, hhdr]
    omega
  simp only [finishReply, afterBlock, hs.writePktOffset, hend, hback]
  rw [if_pos (by rw [hpkt]; omega)]
  have hudp : ¬(XdpMd.pkt ⟨pre ++ (hdr ++ (out ++ (b ++ replyEnd) ++
      rest.drop (out ++ (b ++ replyEnd)).length)), pre.length⟩).length <
      ethHlen + sizeofIphdr + sizeofUdphdr := by
    simp only [XdpMd.pkt, List.drop_left, List.length_append, hhdr]
    omega
  rw [if_neg hudp]
  refine ⟨rfl, ?_⟩
  simp only [finishHeaders_spec hhdr]
  have hlen := length_headerFields hhdr (headersLen + out.length + (b.length + 5))
  have htotal : (headerFields hdr (headersLen + out.length + (b.length + 5)) ++
      (out ++ (b ++ replyEnd))).length = headersLen + out.length + (b.length + 5) := by
    simp only [List.length_append, hlen, length_replyEnd]
    omega
  have hcut := tryAdjustTail_total pre _ (rest.drop (out ++ (b ++ replyEnd)).length) htotal (by omega)
  simp only [XdpMd.pkt, List.drop_left, List.append_assoc] at hcut ⊢
  rw [hcut, replyFrame, hout]
  simp only [List.append_assoc, Nat.add_assoc]

lemma finishReply_cpu (s : XdpState) (written : ℕ) : (finishReply s written).2.cpu = s.cpu := by
  simp only [finishReply]
  repeat' split
  all_goals rfl

lemma finishReply_kcache (s : XdpState) (written : ℕ) : (finishReply s written).2.kcache = s.kcache := by
  simp only [finishReply]
  repeat' split
  all_goals rfl

lemma replyNext_kcache (s : XdpState) (written : ℕ) : (replyNext s written).2.kcache = s.kcache := by
  simp only [replyNext]
  split_ifs
  · exact finishReply_kcache s written
  · rfl
  · split <;> rfl
  · rfl

lemma AtWrite.length_store_take (hs : AtWrite s pre hdr rest out done todo) (b : List Byte) :
    (s.ctx.store 0 (b.take s.ctx.pkt.length)).pkt.length = rest.length - out.length ∧
    (s.ctx.store 0 (b.take s.ctx.pkt.length)).mem.length = pre.length + (headersLen + rest.length) := by
  have hroom := hs.room
  have hlen : 0 + (b.take s.ctx.pkt.length).length ≤ s.ctx.pkt.length := by
    rw [List.length_take]
    omega
  refine ⟨by rw [pkt_length_store hlen, hs.pkt_length_eq], ?_⟩
  rw [length_mem_store hlen, hs.ctx]
  simp only [List.length_append, List.length_drop, hs.hdrLen]
  omega

section Ends

variable {k b : List Byte} {cacheHit : Bool}

lemma AtWrite.keyCount_eq (hs : AtWrite s pre hdr rest out done (k :: todo)) :
    s.cpu.pctx.keyCount = done.length + 1 + todo.length ∧
      done.length + 1 + todo.length ≤ bmcMaxKeyInPacket := by
  have hle := hs.saved.le
  have hcount := hs.saved.count
  simp only [List.length_append, List.length_cons] at hle hcount
  omega

lemma AtWrite.data_store (hs : AtWrite s pre hdr rest out done todo) (bs : List Byte) :
    (s.ctx.store 0 bs).data = pre.length + (headersLen + out.length) := by
  rw [XdpMd.store, hs.ctx]

lemma replyNext_more (hs : AtWrite s pre hdr rest out done (k :: todo)) (htodo : todo ≠ [])
    (hb : b.length ≤ bmcMaxCacheDataSize) (hfits : (out ++ b).length + ethHlen ≤ rest.length) :
    (replyNext (afterBlock s (done.length + 1) b cacheHit) b.length).1 = .tailCall .writeReply .drop ∧
      AtWrite (replyNext (afterBlock s (done.length + 1) b cacheHit) b.length).2 pre hdr rest (out ++ b)
        (done ++ [k]) todo := by
  have hsz := sizes
  have hlim := limits
  have hroom := hs.room
  have hbound := hs.bound
  obtain ⟨hcount, hmax⟩ := hs.keyCount_eq
  have hpos : 0 < todo.length := List.length_pos_iff.mpr htodo
  have hout : (out ++ b).length = out.length + b.length := List.length_append
  have hadj : (s.ctx.store 0 b).adjustHead b.length =
      some ⟨pre ++ (hdr ++ (out ++ b ++ rest.drop (out ++ b).length)),
        pre.length + (headersLen + out.length) + b.length⟩ := by
    rw [hs.store_block, adjustHead_forward, if_pos]
    simp only [List.length_append, List.length_drop, hs.hdrLen]
    omega
  have hne : ¬done.length + 1 = done.length + 1 + todo.length := by omega
  have hlt : done.length + 1 < bmcMaxKeyInPacket := by omega
  have hmul : bmcMaxCacheDataSize * done.length ≤ bmcMaxCacheDataSize * 30 :=
    Nat.mul_le_mul_left _ (by omega)
  have hwpo : out.length + b.length < 2 ^ 16 := by omega
  have hkeys : done ++ [k] ++ todo = done ++ k :: todo := by simp
  simp only [replyNext, afterBlock, hcount, hne, false_and, if_false, hlt, if_true, hadj]
  refine ⟨trivial, ⟨?_, hs.hdrLen, hfits, hs.enough, ?_, ?_, ?_, ?_⟩⟩
  · rw [hout, Nat.add_assoc pre.length, Nat.add_assoc headersLen]
  · rw [hout, List.length_append, List.length_singleton, Nat.mul_succ]
    omega
  · rw [hkeys]
    exact hs.saved.of_keys_eq hcount.symm (fun _ _ => rfl)
  · simp
  · rw [hs.writePktOffset, hout]
    exact Nat.mod_eq_of_lt hwpo

lemma replyNext_short (hs : AtWrite s pre hdr rest out done (k :: todo)) (htodo : todo ≠ [])
    (hshort : rest.length < (out ++ b).length + ethHlen) :
    (replyNext (afterBlock s (done.length + 1) (b.take s.ctx.pkt.length) cacheHit)
      (min b.length s.ctx.pkt.length)).1 = .ret .drop := by
  have hsz := sizes
  have hroom := hs.room
  obtain ⟨hcount, hmax⟩ := hs.keyCount_eq
  have hpos : 0 < todo.length := List.length_pos_iff.mpr htodo
  have hout : (out ++ b).length = out.length + b.length := List.length_append
  have hadj : (s.ctx.store 0 (b.take s.ctx.pkt.length)).adjustHead
      ((min b.length s.ctx.pkt.length : ℕ) : ℤ) = none := by
    have h := @adjustHead_forward (s.ctx.store 0 (b.take s.ctx.pkt.length)).mem
      (s.ctx.store 0 (b.take s.ctx.pkt.length)).data (min b.length s.ctx.pkt.length)
    rw [if_neg] at h
    · exact h
    · rw [hs.data_store, (hs.length_store_take b).2, hs.pkt_length_eq]
      omega
  have hne : ¬done.length + 1 = done.length + 1 + todo.length := by omega
  have hlt : done.length + 1 < bmcMaxKeyInPacket := by omega
  simp only [replyNext, afterBlock, hcount, hne, false_and, if_false, hlt, if_true, hadj]

lemma replyNext_noHit (hs : AtWrite s pre hdr rest [] done [k]) :
    (replyNext (afterBlock s (done.length + 1) [] cacheHit) 0).1 = .ret .pass ∧
      (replyNext (afterBlock s (done.length + 1) [] cacheHit) 0).2.ctx =
        ⟨pre ++ (hdr ++ rest), pre.length + adjustHeadLen⟩ := by
  have hsz := sizes
  have henough := hs.enough
  obtain ⟨hcount, -⟩ := hs.keyCount_eq
  have hctx : s.ctx = ⟨pre ++ (hdr ++ rest), pre.length + headersLen⟩ := by
    simpa using hs.ctx
  have hadj : s.ctx.tryAdjustHead ((adjustHeadLen : ℤ) - headersLen) =
      ⟨pre ++ (hdr ++ rest), pre.length + adjustHeadLen⟩ := by
    have hcast : (adjustHeadLen : ℤ) - headersLen = ((adjustHeadLen - headersLen : ℕ) : ℤ) := by decide
    rw [XdpMd.tryAdjustHead, hctx, hcast, adjustHead_forward, if_pos]
    · rfl
    · simp only [List.length_append, hs.hdrLen]
      omega
  simp only [replyNext, afterBlock, hcount, hs.writePktOffset, store_nil, hadj, List.length_nil,
    Nat.add_zero, gt_iff_lt, Nat.lt_irrefl, or_self, and_false, if_false, if_true, and_self]

lemma replyNext_full (hs : AtWrite s pre hdr rest out done [k]) (hne : out ++ b ≠ [])
    (hshort : rest.length < (out ++ b).length + 5) :
    (replyNext (afterBlock s (done.length + 1) (b.take s.ctx.pkt.length) cacheHit)
      (min b.length s.ctx.pkt.length)).1 = .ret .drop := by
  have hsz := sizes
  have hroom := hs.room
  have hpkt := hs.pkt_length_eq
  obtain ⟨hcount, -⟩ := hs.keyCount_eq
  have hout : (out ++ b).length = out.length + b.length := List.length_append
  have hsome : out.length > 0 ∨ min b.length s.ctx.pkt.length > 0 := by
    have hpos := List.length_pos_iff.mpr hne
    omega
  have hbranch : done.length + 1 = done.length + 1 + ([] : List (List Byte)).length ∧
      (out.length > 0 ∨ min b.length s.ctx.pkt.length > 0) := ⟨rfl, hsome⟩
  have hfull : ¬min b.length s.ctx.pkt.length + 5 ≤
      (s.ctx.store 0 (b.take s.ctx.pkt.length)).pkt.length := by
    rw [(hs.length_store_take b).1]
    omega
  simp only [replyNext, afterBlock, hcount, hs.writePktOffset]
  rw [if_pos hbranch]
  simp only [finishReply, hfull, if_false]

lemma replyNext_send (hs : AtWrite s pre hdr rest out done [k]) (hne : out ++ b ≠ [])
    (hfits : (out ++ b).length + 5 ≤ rest.length) :
    (replyNext (afterBlock s (done.length + 1) b cacheHit) b.length).1 = .ret .tx ∧
      (replyNext (afterBlock s (done.length + 1) b cacheHit) b.length).2.ctx.pkt =
        replyFrame hdr (out ++ b) ∧
      Saved (replyNext (afterBlock s (done.length + 1) b cacheHit) b.length).2.cpu (done ++ [k]) := by
  obtain ⟨hcount, -⟩ := hs.keyCount_eq
  have hsome : out.length > 0 ∨ b.length > 0 := by
    have hpos := List.length_pos_iff.mpr hne
    rw [List.length_append] at hpos
    omega
  have hbranch : (afterBlock s (done.length + 1) b cacheHit).cpu.pctx.currentKey =
        (afterBlock s (done.length + 1) b cacheHit).cpu.pctx.keyCount ∧
      ((afterBlock s (done.length + 1) b cacheHit).cpu.pctx.writePktOffset > 0 ∨ b.length > 0) := by
    simp only [afterBlock, hcount, hs.writePktOffset]
    exact ⟨rfl, hsome⟩
  have hspec := finishReply_spec (done.length + 1) cacheHit hs hfits
  simp only [replyNext]
  rw [if_pos hbranch]
  refine ⟨hspec.1, hspec.2, ?_⟩
  rw [finishReply_cpu]
  exact hs.saved.of_keys_eq rfl (fun _ _ => rfl)

end Ends

lemma writeReply_follows_step {k : List Byte} (hs : AtWrite s pre hdr rest out done (k :: todo)) :
    FollowsReplyStep pre hdr rest (done ++ [k]) todo (bmcWriteReplyMain s)
        (replyStep s.kcache rest.length out k todo.isEmpty) ∧
      (bmcWriteReplyMain s).2.kcache = s.kcache := by
  have hsz := sizes
  have hroom := hs.room
  have hpkt := hs.pkt_length_eq
  have hb := length_cachedBlock_le s.kcache k
  have hmain := writeReply_eq hs
  refine ⟨?_, by rw [hmain, replyNext_kcache]; rfl⟩
  rw [hmain, replyStep]
  generalize cachedBlock s.kcache k = b at hb
  have hout : (out ++ b).length = out.length + b.length := List.length_append
  have hwhole : b.length ≤ s.ctx.pkt.length →
      b.take s.ctx.pkt.length = b ∧ min b.length s.ctx.pkt.length = b.length :=
    fun h => ⟨List.take_of_length_le h, Nat.min_eq_left h⟩
  cases todo with
  | nil =>
    simp only [List.isEmpty_nil, if_true]
    split_ifs with hnil hfits
    · obtain ⟨rfl, rfl⟩ := List.append_eq_nil_iff.mp hnil
      rw [List.take_nil, List.length_nil, Nat.zero_min]
      exact replyNext_noHit hs
    · obtain ⟨htake, hmin⟩ := hwhole (by omega)
      rw [htake, hmin]
      rw [FollowsReplyStep, List.append_nil]
      exact replyNext_send hs hnil hfits
    · exact replyNext_full hs hnil (by omega)
  | cons k' todo =>
    simp only [List.isEmpty_cons, Bool.false_eq_true, if_false]
    split_ifs with hfits
    · obtain ⟨htake, hmin⟩ := hwhole (by omega)
      rw [htake, hmin]
      exact replyNext_more hs (List.cons_ne_nil _ _) hb hfits
    · exact replyNext_short hs (List.cons_ne_nil _ _) (by omega)

end OneBlock

/-! ### The chain of programs follows the assembly -/

inductive ReplyEnd
  | discarded
  | noHit
  | sent (out : List Byte)
  deriving DecidableEq, Repr

/-- The assembly for the saved keys, with `left` tail calls allowed, when `out` has been
written and `room` bytes were there behind the headers. -/
def reply (obs : ℕ → Cache) (room : ℕ) : ℕ → ℕ → List (List Byte) → List Byte → ReplyEnd
  | _, _, [], _ => .noHit
  | left, t, k :: ks, out =>
    match replyStep (obs t) room out k ks.isEmpty with
    | .discard => .discarded
    | .noHit => .noHit
    | .send out => .sent out
    | .next out =>
      match left with
      | 0 => .discarded
      | left + 1 => reply obs room left (t + 1) ks out

/-- What the programs do when the assembly ends in the given way. -/
def FollowsReply (pre hdr rest : List Byte) (ks : List (List Byte)) (res : XdpAction × XdpState) :
    ReplyEnd → Prop
  | .discarded => res.1 = .drop
  | .noHit => res.1 = .pass ∧ res.2.ctx = ⟨pre ++ (hdr ++ rest), pre.length + adjustHeadLen⟩
  | .sent out => res.1 = .tx ∧ res.2.ctx.pkt = replyFrame hdr out ∧ Saved res.2.cpu ks

lemma AtWrite.withCache {s : XdpState} {pre hdr rest out : List Byte} {done todo : List (List Byte)}
    (hs : AtWrite s pre hdr rest out done todo) (c : Cache) :
    AtWrite { s with kcache := c } pre hdr rest out done todo :=
  ⟨hs.ctx, hs.hdrLen, hs.room, hs.enough, hs.bound, hs.saved, hs.currentKey, hs.writePktOffset⟩

lemma replyStep_next_todo {c : Cache} {room : ℕ} {out out' k : List Byte} {last : Bool}
    (h : replyStep c room out k last = .next out') : last = false := by
  simp only [replyStep] at h
  split_ifs at h with hlast
  all_goals simp_all

/-- The chain of `bmc_write_reply_main` programs follows the assembly of the reply. -/
theorem writeReply_follows_reply {env : Interference} {obs : ℕ → Cache} (hobs : Observes env obs)
    {pre hdr rest : List Byte} (left t : ℕ) (s : XdpState) (out : List Byte)
    (done todo : List (List Byte)) (hs : AtWrite s pre hdr rest out done todo) (hne : todo ≠ [])
    (hc : env t s.kcache = obs t) :
    FollowsReply pre hdr rest (done ++ todo) (runChain env left t .writeReply s)
      (reply obs rest.length left t todo out) := by
  induction todo generalizing left t s out done with
  | nil => exact absurd rfl hne
  | cons k todo ih =>
    obtain ⟨hstep, hcache⟩ := writeReply_follows_step (hs.withCache (env t s.kcache))
    simp only [hc] at hstep hcache
    obtain ⟨⟨exit, s'⟩, hres⟩ : ∃ res, XdpProg.writeReply.main { s with kcache := env t s.kcache } = res :=
      ⟨_, rfl⟩
    have hmain : bmcWriteReplyMain { s with kcache := obs t } = (exit, s') := by
      rw [← hc]
      exact hres
    rw [hmain] at hstep hcache
    simp only at hcache
    rw [reply]
    cases hr : replyStep (obs t) rest.length out k todo.isEmpty with
    | discard =>
      rw [hr] at hstep
      obtain rfl := hstep
      rw [runChain_ret hres]
      rfl
    | noHit =>
      rw [hr] at hstep
      obtain ⟨rfl, hctx⟩ := hstep
      rw [runChain_ret hres]
      exact ⟨rfl, hctx⟩
    | send out' =>
      rw [hr] at hstep
      obtain ⟨rfl, hpkt, hsaved⟩ := hstep
      rw [runChain_ret hres]
      exact ⟨rfl, hpkt, by simpa using hsaved⟩
    | next out' =>
      have htodo : todo ≠ [] := by
        have hempty := replyStep_next_todo hr
        intro h
        simp [h] at hempty
      rw [hr] at hstep
      obtain ⟨rfl, hat⟩ := hstep
      cases left with
      | zero =>
        rw [runChain_tailCall_zero hres]
        rfl
      | succ left =>
        rw [runChain_tailCall_succ hres]
        rw [show done ++ k :: todo = done ++ [k] ++ todo by simp]
        exact ih left (t + 1) s' out' (done ++ [k]) hat htodo (by rw [hcache, hobs t])

/-! ### bmc_prepare_packet -/

lemma length_swapAddresses {hdr : List Byte} (h : hdr.length = headersLen) :
    (swapAddresses hdr).length = headersLen := by
  have h1 : (swapFields hdr 0 6 6).length = headersLen :=
    (length_swapFields (by rw [h]; decide) (by rw [h]; decide)).trans h
  have h2 : (swapFields (swapFields hdr 0 6 6) (ethHlen + 12) (ethHlen + 16) 4).length = headersLen :=
    (length_swapFields (by rw [h1]; decide) (by rw [h1]; decide)).trans h1
  exact (length_swapFields (by rw [h2]; decide) (by rw [h2]; decide)).trans h2

section Prepare

variable {s : XdpState} {headroom frame : List Byte} {ks : List (List Byte)}

lemma prepare_noHeadroom (hs : Parsed s (headroom ++ frame) headroom.length ks)
    (h : headroom.length < adjustHeadLen) : bmcPreparePacketMain s = (.ret .pass, s) := by
  have hadj : s.ctx.adjustHead (-(adjustHeadLen : ℤ)) = none := by
    rw [hs.ctx, XdpMd.adjustHead]
    simp only
    rw [if_neg (by omega)]
  simp only [bmcPreparePacketMain, hadj]

def swappedHeaders (frame : List Byte) : List Byte := swapAddresses (frame.take headersLen)

lemma prepare_spec (hs : Parsed s (headroom ++ frame) headroom.length ks)
    (h : adjustHeadLen ≤ headroom.length) (hframe : headersLen + 2 ≤ frame.length) :
    ∃ s', bmcPreparePacketMain s = (.tailCall .writeReply .pass, s') ∧ s'.kcache = s.kcache ∧
      AtWrite s' (headroom.take (headroom.length - adjustHeadLen)) (swappedHeaders frame)
        (headroom.drop (headroom.length - adjustHeadLen + headersLen) ++ frame) [] [] ks := by
  have hsz := sizes
  obtain ⟨d, hd⟩ : ∃ d, headroom.length = d + adjustHeadLen := ⟨_, (Nat.sub_add_cancel h).symm⟩
  have hd' : headroom.length - adjustHeadLen = d := by omega
  have hpre : (headroom.take d).length = d := by
    rw [List.length_take]
    omega
  have hhdr : (frame.take headersLen).length = headersLen := by
    rw [List.length_take]
    omega
  have hback : s.ctx.adjustHead (-(adjustHeadLen : ℤ)) = some ⟨headroom ++ frame, d⟩ := by
    have hmem : d + ethHlen ≤ (headroom ++ frame).length := by
      rw [List.length_append]
      omega
    have hb := adjustHead_backward (n := adjustHeadLen) hmem
    rw [hs.ctx, hd]
    simpa using hb
  have hpkt : (⟨headroom ++ frame, d⟩ : XdpMd).pkt.length = adjustHeadLen + frame.length := by
    rw [pkt_length]
    simp only [List.length_append]
    omega
  have hold : slice (⟨headroom ++ frame, d⟩ : XdpMd).pkt adjustHeadLen headersLen =
      frame.take headersLen := by
    simp only [slice, XdpMd.pkt, List.drop_drop]
    rw [← hd, List.drop_left]
  have hstore : (⟨headroom ++ frame, d⟩ : XdpMd).store 0 (swapAddresses (frame.take headersLen)) =
      ⟨headroom.take d ++ (swappedHeaders frame ++ (headroom.drop (d + headersLen) ++ frame)), d⟩ := by
    have hsplit : headroom ++ frame = headroom.take d ++ (headroom.drop d ++ frame) := by
      rw [← List.append_assoc, List.take_append_drop]
    have hov := overwrite_append (headroom.take d) (headroom.drop d ++ frame)
      (swapAddresses (frame.take headersLen))
    rw [hpre, length_swapAddresses hhdr, List.drop_append_of_le_length (by rw [List.length_drop]; omega),
      List.drop_drop, List.append_assoc, ← hsplit] at hov
    simp only [XdpMd.store, Nat.add_zero]
    rw [hov]
    rfl
  have hforward : (⟨headroom.take d ++ (swappedHeaders frame ++ (headroom.drop (d + headersLen) ++ frame)),
      d⟩ : XdpMd).adjustHead (headersLen : ℕ) =
      some ⟨headroom.take d ++ (swappedHeaders frame ++ (headroom.drop (d + headersLen) ++ frame)),
        d + headersLen⟩ := by
    rw [adjustHead_forward, if_pos]
    simp only [List.length_append, List.length_drop, hpre, swappedHeaders, length_swapAddresses hhdr]
    omega
  have hshort : ¬(adjustHeadLen + frame.length ≤ headersLen ∨
      adjustHeadLen + frame.length ≤ adjustHeadLen + headersLen + 1) := by
    omega
  simp only [bmcPreparePacketMain, hback, hpkt, hshort, if_false, hold, hstore, hforward, hd']
  refine ⟨_, rfl, rfl, ⟨?_, length_swapAddresses hhdr, ?_, ?_, by simp, ?_, hs.currentKey,
    hs.writePktOffset⟩⟩
  · simp [hpre]
  · simp only [List.length_append, List.length_drop, List.length_nil]
    omega
  · simp only [List.length_append, List.length_drop]
    omega
  · exact hs.saved

end Prepare

end BmcCache.Proofs
