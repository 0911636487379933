import BmcCache.Proofs.Filling
import BmcCache.Proofs.Invalidation

/-!
# One hash in four loops

The request parser, the cache update, the invalidation and the loader each have a loop of their
own that hashes a key. On a key without spaces and carriage returns they compute one function,
so that the first three meet in one slot.
-/

namespace BmcCache.Proofs

lemma userHash_eq_foldl (key : List Byte) (hash : UInt32) :
    User.fnv1aHash32 key key.length hash = key.foldl fnvStep hash := by
  induction key generalizing hash with
  | nil => rfl
  | cons c cs ih =>
    rw [List.foldl_cons, ← ih]
    unfold User.fnv1aHash32
    rw [List.length_cons, List.range_succ_eq_map, List.foldl_cons, List.foldl_map]
    rfl

/-! ### The request parser -/

lemma nextKey_keys (s : XdpState) (v : HashVars) :
    (nextKey s v).2.cpu.keys = s.cpu.keys ∧ (nextKey s v).2.cpu.pctx.keyCount = s.cpu.pctx.keyCount := by
  simp only [nextKey]
  split_ifs
  · exact ⟨rfl, rfl⟩
  · exact ⟨rfl, rfl⟩
  · split <;> exact ⟨rfl, rfl⟩

lemma saveOrMiss_key {cpu : PerCpu} {key : MemcachedKey} (entry : BmcCacheEntry) (payload : List Byte) (n : ℕ)
    (hkey : cpu.lookupKey cpu.pctx.keyCount = some key) :
    (∃ key', (saveOrMiss cpu key entry payload n).lookupKey cpu.pctx.keyCount = some key' ∧
      key'.hash = key.hash) ∧
      (saveOrMiss cpu key entry payload n).pctx.keyCount =
        if entry.valid = true ∧ entry.hash = key.hash then cpu.pctx.keyCount + 1 else cpu.pctx.keyCount := by
  have hlt : cpu.pctx.keyCount < bmcMaxKeyInPacket := by
    by_contra hge
    rw [PerCpu.lookupKey_eq_none.mpr (Nat.le_of_not_lt hge)] at hkey
    simp at hkey
  unfold saveOrMiss
  split_ifs with hhit
  · exact ⟨⟨_, lookupKey_storeKey_self _ hlt, rfl⟩, rfl⟩
  · exact ⟨⟨key, hkey, rfl⟩, rfl⟩

/-- At a key the parser stores its hash, and looks for the key in the slot of that hash. -/
lemma hashKeys_hash {k : List Byte} (hpos : 0 < k.length) (hle : k.length ≤ bmcMaxKeyLength)
    (hk : ∀ b ∈ k, isKeyByte b = true) {s : XdpState} {sep : Byte} {rest : List Byte}
    (hpkt : s.ctx.pkt = k ++ sep :: rest) (hsep : sep = SP ∨ sep = CR)
    (hcount : s.cpu.pctx.keyCount < bmcMaxKeyInPacket) :
    (∃ key, (bmcHashKeysMain s).2.cpu.lookupKey s.cpu.pctx.keyCount = some key ∧ key.hash = fnv1aHash32 k) ∧
      (bmcHashKeysMain s).2.cpu.pctx.keyCount =
        if looksCached s.kcache k then s.cpu.pctx.keyCount + 1 else s.cpu.pctx.keyCount := by
  have hword : keyWord s.ctx.pkt = k := by
    rw [hpkt]
    apply keyWord_append hle hk
    rcases hsep with rfl | rfl <;> rfl
  have hlen : s.ctx.pkt.length ≠ 0 := by
    rw [hpkt, List.length_append, List.length_cons]
    omega
  have hbad : ¬((wordVars s.ctx.pkt).keyLen = 0 ∨ (wordVars s.ctx.pkt).keyLen > bmcMaxKeyLength) := by
    simp only [wordVars, hword]
    omega
  have hhash : (wordVars s.ctx.pkt).hash = fnv1aHash32 k := by rw [wordVars, hword]
  simp only [bmcHashKeysMain, hlen, if_false, PerCpu.lookupKey_of_lt s.cpu hcount, hashLoop_word, hbad,
    Cache.lookupElem_cacheIdx, hhash]
  -- what `nextKey` does afterwards touches neither the key nor the count
  obtain ⟨hsaved, hnext⟩ := saveOrMiss_key (s.kcache.at (fnv1aHash32 k)) s.ctx.pkt (wordVars s.ctx.pkt).keyLen
    (@lookupKey_storeKey_self s.cpu _ { s.cpu.keys ⟨_, hcount⟩ with hash := fnv1aHash32 k } hcount)
  constructor
  · rw [PerCpu.lookupKey, (nextKey_keys _ _).1]
    exact hsaved
  · rw [(nextKey_keys _ _).2, looksCached]
    simp only [Bool.and_eq_true, beq_iff_eq]
    exact hnext

/-! ### The invalidation -/

section Scanner

variable (n : ℕ) (h : UInt32) (cpu : PerCpu) (c : Cache)

def countSet (cpu : PerCpu) : PerCpu :=
  { cpu with stats := { cpu.stats with setRecvCount := cpu.stats.setRecvCount + 1 } }

lemma scanLoop_set (b : Byte) (rest : List Byte) :
    scanLoop (n + 4) (setText ++ b :: rest) ⟨false, false, h, 0⟩ cpu c =
      scanLoop n rest ⟨true, false, h, 0⟩ (countSet cpu) c := rfl

lemma scanLoop_spaces (m : ℕ) (rest : List Byte) :
    scanLoop (n + m) (List.replicate m SP ++ rest) ⟨true, false, h, 0⟩ cpu c =
      scanLoop n rest ⟨true, false, h, 0⟩ cpu c := by
  induction m with
  | zero => rfl
  | succ m ih =>
    have hstep (cs : List Byte) : scanStep ⟨true, false, h, 0⟩ SP cs = (⟨true, false, h, 0⟩, .none) := rfl
    rw [List.replicate_succ, List.cons_append, ← Nat.add_assoc, scanLoop, hstep]
    exact ih

lemma scanLoop_word {w : List Byte} (hw : SP ∉ w) (rest : List Byte) :
    scanLoop (n + (w.length + 1)) (w ++ SP :: rest) ⟨true, true, h, 0⟩ cpu c =
      scanLoop n rest ⟨false, false, w.foldl fnvStep h, 0⟩ (invalidateSlot (w.foldl fnvStep h) cpu c).1
        (invalidateSlot (w.foldl fnvStep h) cpu c).2 := by
  induction w generalizing h with
  | nil => rfl
  | cons b w ih =>
    rw [List.mem_cons, not_or] at hw
    have hstep (cs : List Byte) :
        scanStep ⟨true, true, h, 0⟩ b cs = (⟨true, true, fnvStep h b, 0⟩, .none) := by
      simp [scanStep, Ne.symm hw.1]
    rw [List.cons_append, List.length_cons, ← Nat.add_assoc, scanLoop, hstep]
    exact ih (fnvStep h b) hw.2

/-- An idle scanner reads `set`, spaces, a key and a space, invalidates the slot of the key and
is idle again. -/
lemma scanLoop_phrase {k : List Byte} (hpos : 0 < k.length) (hk : ∀ b ∈ k, isKeyByte b = true) (m : ℕ)
    (rest : List Byte) :
    scanLoop (n + (setText ++ (List.replicate (m + 1) SP ++ (k ++ [SP]))).length)
        (setText ++ (List.replicate (m + 1) SP ++ (k ++ SP :: rest))) ⟨false, false, h, 0⟩ cpu c =
      scanLoop n rest ⟨false, false, fnv1aHash32 k, 0⟩ (invalidateSlot (fnv1aHash32 k) (countSet cpu) c).1
        (invalidateSlot (fnv1aHash32 k) (countSet cpu) c).2 := by
  obtain ⟨b, w, rfl⟩ := List.exists_cons_of_length_pos hpos
  have hkey : ∀ b' ∈ b :: w, b' ≠ CR ∧ b' ≠ SP := by
    intro b' hb'
    simpa [isKeyByte] using hk b' hb'
  obtain ⟨hcr, hsp⟩ := hkey b List.mem_cons_self
  have hw : SP ∉ w := fun hmem => (hkey SP (List.mem_cons_of_mem _ hmem)).2 rfl
  have hlen : n + (setText ++ (List.replicate (m + 1) SP ++ (b :: w ++ [SP]))).length =
      n + (w.length + 1) + 1 + m + 4 := by
    have hset : setText.length = 3 := rfl
    simp only [List.length_append, List.length_replicate, List.length_cons, List.length_nil, hset]
    omega
  have hstart (cs : List Byte) : scanStep ⟨true, false, h, 0⟩ b cs =
      (⟨true, true, fnvStep fnvOffsetBasis32 b, 0⟩, .none) := by
    simp [scanStep, hcr, hsp]
  rw [hlen, List.replicate_succ, List.cons_append, scanLoop_set, scanLoop_spaces, List.cons_append,
    scanLoop, hstart]
  exact scanLoop_word n (fnvStep fnvOffsetBasis32 b) (countSet cpu) c hw rest

end Scanner

/-- The parser, the update and the invalidation use the hash of a key that the loader computes,
and the slot of that hash. -/
theorem key_hash_agrees {k : List Byte} (hpos : 0 < k.length) (hle : k.length ≤ bmcMaxKeyLength)
    (hk : ∀ b ∈ k, b ≠ SP ∧ b ≠ CR) : ∃ hash, User.fnv1aHash32 k k.length fnvOffsetBasis32 = hash ∧
    (∀ (s : XdpState) (sep : Byte) (rest : List Byte), s.ctx.pkt = k ++ sep :: rest → sep = SP ∨ sep = CR →
      s.cpu.pctx.keyCount < bmcMaxKeyInPacket →
      (∃ key, (bmcHashKeysMain s).2.cpu.lookupKey s.cpu.pctx.keyCount = some key ∧ key.hash = hash) ∧
      (bmcHashKeysMain s).2.cpu.pctx.keyCount =
        if (s.kcache.at hash).valid = true ∧ (s.kcache.at hash).hash = hash then s.cpu.pctx.keyCount + 1
        else s.cpu.pctx.keyCount) ∧
    (∀ (skb : SkBuff) (rest : List Byte), SkBuff.payload skb = valueText ++ (k ++ SP :: rest) →
      replyHash (SkBuff.payload skb) = hash ∧ ∀ stats c, (bmcUpdateCacheMain skb stats c).kcache =
        c.store (cacheIdx hash) (updateEntry (c.at hash) hash (SkBuff.payload skb)).1) ∧
    ∀ (n m : ℕ) (h : UInt32) (rest : List Byte) (cpu : PerCpu) (c : Cache),
      scanLoop (n + (setText ++ (List.replicate (m + 1) SP ++ (k ++ [SP]))).length)
          (setText ++ (List.replicate (m + 1) SP ++ (k ++ SP :: rest))) ⟨false, false, h, 0⟩ cpu c =
        scanLoop n rest ⟨false, false, hash, 0⟩ (invalidateSlot hash (countSet cpu) c).1
          (invalidateSlot hash (countSet cpu) c).2 := by
  have hbytes : ∀ b ∈ k, isKeyByte b = true := by
    intro b hb
    simp [isKeyByte, hk b hb]
  have hsp : SP ∉ k := fun h => (hk SP h).1 rfl
  refine ⟨fnv1aHash32 k, userHash_eq_foldl k fnvOffsetBasis32, ?_, ?_, ?_⟩
  · intro s sep rest hpkt hsep hcount
    obtain ⟨hkey, hnext⟩ := hashKeys_hash hpos hle hbytes hpkt hsep hcount
    simp only [looksCached, Bool.and_eq_true, beq_iff_eq] at hnext
    exact ⟨hkey, hnext⟩
  · intro skb rest hskb
    have hhash : replyHash (SkBuff.payload skb) = fnv1aHash32 k := by
      rw [hskb, replyHash_text ⟨⟨hpos, hle⟩, hsp⟩]
    refine ⟨hhash, ?_⟩
    intro stats c
    rw [updateCache_kcache, hhash]
  · intro n m h rest cpu c
    exact scanLoop_phrase n h cpu c hpos hbytes m rest

theorem longest_key_hash_agrees : replyHash (valueText ++ (List.replicate 250 255 ++ [SP])) =
    User.fnv1aHash32 (List.replicate 250 255) (List.replicate 250 (255 : Byte)).length fnvOffsetBasis32 := by
  have hbytes : ∀ b ∈ List.replicate 250 (255 : Byte), b ≠ SP ∧ b ≠ CR := by
    intro b hb
    rw [List.eq_of_mem_replicate hb]
    decide
  obtain ⟨hash, huser, -, hreply, -⟩ := key_hash_agrees (by rw [List.length_replicate]; decide)
    (by rw [List.length_replicate]) hbytes
  have hpayload : SkBuff.payload
      (sampleFrame (List.replicate 8 0 ++ (valueText ++ (List.replicate 250 255 ++ [SP])))) =
      valueText ++ (List.replicate 250 255 ++ [SP]) := by
    rw [payload_eq_drop_datagram, datagram_sampleFrame]
    exact List.drop_left' rfl
  obtain ⟨hhash, -⟩ := hreply _ [] hpayload
  rw [hpayload] at hhash
  exact hhash.trans huser.symm

end BmcCache.Proofs
