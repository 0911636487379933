import BmcCache.Proofs.RequestWalk

/-!
# Packets do not see what earlier packets left behind

`map_parsing_context` and `map_keys` are reused from packet to packet and only partly reset. Two
runs of the chain on the same frame, with the same caches seen, are compared here program by
program: they read only the parts of the two maps that the packet itself has written.
-/

namespace BmcCache.Proofs

open Buffer

/-! ### What two runs have in common -/

/-- The counters after some of them have grown. -/
def grown (s d : BmcStats) : BmcStats :=
  ⟨s.getRecvCount + d.getRecvCount, s.setRecvCount + d.setRecvCount, s.getRespCount + d.getRespCount,
    s.hitMisprediction + d.hitMisprediction, s.hitCount + d.hitCount, s.missCount + d.missCount,
    s.updateCount + d.updateCount, s.invalidationCount + d.invalidationCount⟩

def BmcStats.zero : BmcStats := ⟨0, 0, 0, 0, 0, 0, 0, 0⟩

/-- The counters `s₁` and `s₂` have grown by the same numbers since they were `b₁` and `b₂`. -/
def SameGrowth (b₁ b₂ s₁ s₂ : BmcStats) : Prop := ∃ d, s₁ = grown b₁ d ∧ s₂ = grown b₂ d

/-- The slots hold the same key; the bytes behind it may be different ones. -/
structure SameKey (k₁ k₂ : MemcachedKey) : Prop where
  hash : k₁.hash = k₂.hash
  len : k₁.len = k₂.len
  data : k₁.data.toList.take k₁.len = k₂.data.toList.take k₂.len

/-- The parsing contexts are the same, and so are the keys saved so far. -/
structure SameKeys (cpu₁ cpu₂ : PerCpu) : Prop where
  pctx : cpu₁.pctx = cpu₂.pctx
  keys : ∀ i, i.val < cpu₁.pctx.keyCount → SameKey (cpu₁.keys i) (cpu₂.keys i)

/-- The packet and the cache are the same, and the counters have grown alike. -/
structure SameSoFar (b₁ b₂ : BmcStats) (s₁ s₂ : XdpState) : Prop where
  ctx : s₁.ctx = s₂.ctx
  kcache : s₁.kcache = s₂.kcache
  stats : SameGrowth b₁ b₂ s₁.cpu.stats s₂.cpu.stats

/-- What two runs have in common when they enter the program. -/
def Related (b₁ b₂ : BmcStats) (s₁ s₂ : XdpState) : XdpProg → Prop
  | .rxFilter | .invalidateCache => SameSoFar b₁ b₂ s₁ s₂
  | .hashKeys => SameSoFar b₁ b₂ s₁ s₂ ∧ SameKeys s₁.cpu s₂.cpu ∧ s₁.cpu.pctx.currentKey = 0
  | .preparePacket | .writeReply =>
    SameSoFar b₁ b₂ s₁ s₂ ∧ SameKeys s₁.cpu s₂.cpu ∧ s₁.cpu.pctx.currentKey < s₁.cpu.pctx.keyCount

/-- Two programs end alike: with the same exit, and related for the program called. -/
structure SameExit (b₁ b₂ : BmcStats) (r₁ r₂ : Exit × XdpState) : Prop where
  exit : r₁.1 = r₂.1
  soFar : SameSoFar b₁ b₂ r₁.2 r₂.2
  next : ∀ prog fallthrough, r₁.1 = .tailCall prog fallthrough → Related b₁ b₂ r₁.2 r₂.2 prog

section Growth

variable {b₁ b₂ s₁ s₂ : BmcStats}

lemma sameGrowth_self (b₁ b₂ : BmcStats) : SameGrowth b₁ b₂ b₁ b₂ := by
  refine ⟨BmcStats.zero, ?_, ?_⟩ <;> simp [grown, BmcStats.zero]

/-- Growing both by the same numbers once more. -/
lemma SameGrowth.more (h : SameGrowth b₁ b₂ s₁ s₂) (d : BmcStats) :
    SameGrowth b₁ b₂ (grown s₁ d) (grown s₂ d) := by
  obtain ⟨d', rfl, rfl⟩ := h
  refine ⟨grown d' d, ?_, ?_⟩ <;> simp [grown, UInt32.add_assoc]

end Growth

lemma sameExit_ret {b₁ b₂ : BmcStats} {s₁ s₂ : XdpState} (h : SameSoFar b₁ b₂ s₁ s₂) (action : XdpAction) :
    SameExit b₁ b₂ (.ret action, s₁) (.ret action, s₂) :=
  ⟨rfl, h, fun _ _ hcall => absurd hcall (by simp)⟩

lemma sameExit_tailCall {b₁ b₂ : BmcStats} {s₁ s₂ : XdpState} {prog : XdpProg} (h : Related b₁ b₂ s₁ s₂ prog)
    (hsoFar : SameSoFar b₁ b₂ s₁ s₂) (fallthrough : XdpAction) :
    SameExit b₁ b₂ (.tailCall prog fallthrough, s₁) (.tailCall prog fallthrough, s₂) := by
  refine ⟨rfl, hsoFar, ?_⟩
  intro prog' fb hcall
  simp only [Exit.tailCall.injEq] at hcall
  exact hcall.1 ▸ h

/-! ### The filter and the scanner -/

section Programs

variable {b₁ b₂ : BmcStats} {s₁ s₂ : XdpState}

lemma rxGet_same (h : SameSoFar b₁ b₂ s₁ s₂) (payload : List Byte) :
    SameExit b₁ b₂ (rxGet s₁ payload) (rxGet s₂ payload) := by
  obtain ⟨ctx, cpu₁, c⟩ := s₁
  obtain ⟨ctx', cpu₂, c'⟩ := s₂
  obtain ⟨rfl, rfl, hstats⟩ := h
  have hgrown : SameGrowth b₁ b₂ { cpu₁.stats with getRecvCount := cpu₁.stats.getRecvCount + 1 }
      { cpu₂.stats with getRecvCount := cpu₂.stats.getRecvCount + 1 } := by
    simpa [grown, BmcStats.zero] using hstats.more { BmcStats.zero with getRecvCount := 1 }
  simp only [rxGet]
  split_ifs
  · cases ctx.adjustHead ((headersLen + wsLoop (bmcMaxPacketLength - 4) (payload.drop 4) 4 : ℕ) : ℤ) with
    | none =>
      refine sameExit_ret ?_ .pass
      exact ⟨rfl, rfl, hgrown⟩
    | some ctx' =>
      -- no key has been saved yet
      refine sameExit_tailCall ?_ ?_ .pass
      · exact ⟨⟨rfl, rfl, hgrown⟩, ⟨rfl, fun i hi => absurd hi (Nat.not_lt_zero _)⟩, rfl⟩
      · exact ⟨rfl, rfl, hgrown⟩
  · refine sameExit_ret ?_ .pass
    exact ⟨rfl, rfl, hgrown⟩

lemma rxFilter_same (h : SameSoFar b₁ b₂ s₁ s₂) :
    SameExit b₁ b₂ (bmcRxFilterMain s₁) (bmcRxFilterMain s₂) := by
  simp only [bmcRxFilterMain, h.ctx]
  split_ifs
  all_goals first
    | exact sameExit_ret h .pass
    | exact rxGet_same h _
    | exact @sameExit_tailCall b₁ b₂ s₁ s₂ .invalidateCache h h .pass

lemma scanLoop_same (n : ℕ) (payload : List Byte) (v : ScanVars) {cpu₁ cpu₂ : PerCpu} (c : Cache)
    (h : SameGrowth b₁ b₂ cpu₁.stats cpu₂.stats) :
    (scanLoop n payload v cpu₁ c).2 = (scanLoop n payload v cpu₂ c).2 ∧
      SameGrowth b₁ b₂ (scanLoop n payload v cpu₁ c).1.stats (scanLoop n payload v cpu₂ c).1.stats := by
  induction payload generalizing n v cpu₁ cpu₂ c with
  | nil => cases n <;> exact ⟨rfl, h⟩
  | cons b bs ih =>
    cases n with
    | zero => exact ⟨rfl, h⟩
    | succ n =>
      simp only [scanLoop]
      cases hev : (scanStep v b bs).2 with
      | none => exact ih n _ c h
      | setRecv =>
        refine ih n _ c ?_
        simpa [applyScanEvent, grown, BmcStats.zero] using h.more { BmcStats.zero with setRecvCount := 1 }
      | keyEnd hash =>
        simp only [applyScanEvent, invalidateSlot]
        split_ifs
        · refine ih n _ _ ?_
          simpa [grown, BmcStats.zero] using h.more { BmcStats.zero with invalidationCount := 1 }
        · exact ih n _ c h

lemma invalidateCache_same (h : SameSoFar b₁ b₂ s₁ s₂) :
    SameExit b₁ b₂ (bmcInvalidateCacheMain s₁) (bmcInvalidateCacheMain s₂) := by
  obtain ⟨ctx, cpu₁, c⟩ := s₁
  obtain ⟨ctx', cpu₂, c'⟩ := s₂
  obtain ⟨rfl, rfl, hstats⟩ := h
  simp only [bmcInvalidateCacheMain]
  split_ifs
  · refine sameExit_ret ?_ .pass
    exact ⟨rfl, rfl, hstats⟩
  · obtain ⟨hcache, hgrown⟩ := scanLoop_same bmcMaxPacketLength
      (XdpMd.pkt ctx |>.drop (ethHlen + sizeofIphdr + sizeofTcphdr)) ScanVars.init c hstats
    refine sameExit_ret ?_ .pass
    exact ⟨rfl, hcache, hgrown⟩

/-! ### The parser -/

lemma SameKeys.lookup {cpu₁ cpu₂ : PerCpu} (h : SameKeys cpu₁ cpu₂) {i : ℕ} (hi : i < cpu₁.pctx.keyCount) :
    (cpu₁.lookupKey i = none ∧ cpu₂.lookupKey i = none) ∨
      ∃ k₁ k₂, cpu₁.lookupKey i = some k₁ ∧ cpu₂.lookupKey i = some k₂ ∧ SameKey k₁ k₂ := by
  by_cases hlt : i < bmcMaxKeyInPacket
  · rw [PerCpu.lookupKey_of_lt cpu₁ hlt, PerCpu.lookupKey_of_lt cpu₂ hlt]
    exact Or.inr ⟨_, _, rfl, rfl, h.keys ⟨i, hlt⟩ hi⟩
  · exact Or.inl ⟨PerCpu.lookupKey_eq_none.mpr (Nat.le_of_not_lt hlt),
      PerCpu.lookupKey_eq_none.mpr (Nat.le_of_not_lt hlt)⟩

/-- Two stores into the slot behind the saved keys. -/
lemma SameKeys.storeKey {cpu₁ cpu₂ : PerCpu} (h : SameKeys cpu₁ cpu₂) (k₁ k₂ : MemcachedKey) :
    SameKeys (cpu₁.storeKey cpu₁.pctx.keyCount k₁) (cpu₂.storeKey cpu₂.pctx.keyCount k₂) := by
  refine ⟨h.pctx, ?_⟩
  intro i hi
  have hne : i.val ≠ cpu₁.pctx.keyCount := Nat.ne_of_lt hi
  have hne' : i.val ≠ cpu₂.pctx.keyCount := h.pctx ▸ hne
  simp only [PerCpu.storeKey, if_neg hne, if_neg hne']
  exact h.keys i hi

lemma saveOrMiss_same {cpu₁ cpu₂ : PerCpu} (h : SameKeys cpu₁ cpu₂)
    (hstats : SameGrowth b₁ b₂ cpu₁.stats cpu₂.stats) {k₁ k₂ : MemcachedKey} (hhash : k₁.hash = k₂.hash)
    (entry : BmcCacheEntry) {payload : List Byte} {n : ℕ} (hn : n ≤ bmcMaxKeyLength)
    (hpayload : n ≤ payload.length) :
    SameKeys (saveOrMiss cpu₁ k₁ entry payload n) (saveOrMiss cpu₂ k₂ entry payload n) ∧
      SameGrowth b₁ b₂ (saveOrMiss cpu₁ k₁ entry payload n).stats
      (saveOrMiss cpu₂ k₂ entry payload n).stats := by
  unfold saveOrMiss
  rw [hhash]
  split_ifs
  · refine ⟨⟨?_, ?_⟩, hstats⟩
    · simp only [PerCpu.storeKey, h.pctx]
    · intro i hi
      simp only [PerCpu.storeKey, ← h.pctx] at hi ⊢
      by_cases hnew : i.val = cpu₁.pctx.keyCount
      · -- the key just copied: the bytes behind it are left over from other packets
        rw [if_pos hnew, if_pos hnew]
        refine ⟨rfl, rfl, ?_⟩
        exact (copyKeyLoop_take payload n k₁.data hn hpayload).trans
          (copyKeyLoop_take payload n k₂.data hn hpayload).symm
      · rw [if_neg hnew, if_neg hnew]
        exact h.keys i (by omega)
  · refine ⟨⟨h.pctx, h.keys⟩, ?_⟩
    simpa [grown, BmcStats.zero] using hstats.more { BmcStats.zero with missCount := 1 }

lemma nextKey_same (h : SameSoFar b₁ b₂ s₁ s₂) (hkeys : SameKeys s₁.cpu s₂.cpu)
    (hcurrent : s₁.cpu.pctx.currentKey = 0) (v : HashVars) :
    SameExit b₁ b₂ (nextKey s₁ v) (nextKey s₂ v) := by
  obtain ⟨ctx, ⟨keys₁, pctx, stats₁⟩, c⟩ := s₁
  obtain ⟨ctx', ⟨keys₂, pctx', stats₂⟩, c'⟩ := s₂
  obtain ⟨rfl, rfl, hstats⟩ := h
  obtain ⟨rfl, hkeys⟩ := hkeys
  simp only [nextKey]
  split_ifs with hdone hsome
  · refine sameExit_tailCall ?_ ?_ .pass
    · exact ⟨⟨rfl, rfl, hstats⟩, ⟨rfl, hkeys⟩, hcurrent.trans_lt hsome⟩
    · exact ⟨rfl, rfl, hstats⟩
  · refine sameExit_ret ?_ .pass
    exact ⟨rfl, rfl, hstats⟩
  · cases ctx.adjustHead ((v.off + 1 : ℕ) : ℤ) with
    | none =>
      refine sameExit_ret ?_ .pass
      exact ⟨rfl, rfl, hstats⟩
    | some ctx' =>
      refine sameExit_tailCall ?_ ?_ .pass
      · exact ⟨⟨rfl, rfl, hstats⟩, ⟨rfl, hkeys⟩, hcurrent⟩
      · exact ⟨rfl, rfl, hstats⟩

lemma hashKeys_same (h : SameSoFar b₁ b₂ s₁ s₂) (hkeys : SameKeys s₁.cpu s₂.cpu)
    (hcurrent : s₁.cpu.pctx.currentKey = 0) : SameExit b₁ b₂ (bmcHashKeysMain s₁) (bmcHashKeysMain s₂) := by
  have hcount : s₁.cpu.pctx.keyCount = s₂.cpu.pctx.keyCount := by rw [hkeys.pctx]
  simp only [bmcHashKeysMain, hashLoop_word, ← h.ctx, ← h.kcache]
  by_cases hempty : s₁.ctx.pkt.length = 0
  · rw [if_pos hempty, if_pos hempty]
    exact sameExit_ret h .pass
  rw [if_neg hempty, if_neg hempty]
  by_cases hslot : s₁.cpu.pctx.keyCount < bmcMaxKeyInPacket
  · rw [PerCpu.lookupKey_of_lt s₁.cpu hslot, PerCpu.lookupKey_of_lt s₂.cpu (hcount ▸ hslot)]
    dsimp only
    split_ifs with hbad
    · refine sameExit_ret ?_ .pass
      refine ⟨?_, rfl, h.stats⟩
      simp only [PerCpu.storeKey, hkeys.pctx]
    · have hword : (wordVars s₁.ctx.pkt).keyLen ≤ s₁.ctx.pkt.length := (keyWord_isPrefix s₁.ctx.pkt).length_le
      have hle : (wordVars s₁.ctx.pkt).keyLen ≤ bmcMaxKeyLength := by omega
      simp only [Cache.lookupElem_cacheIdx]
      obtain ⟨hkeys', hstats'⟩ := @saveOrMiss_same b₁ b₂ _ _ (hkeys.storeKey
        { s₁.cpu.keys ⟨s₁.cpu.pctx.keyCount, hslot⟩ with hash := (wordVars s₁.ctx.pkt).hash }
        { s₂.cpu.keys ⟨s₂.cpu.pctx.keyCount, hcount ▸ hslot⟩ with hash := (wordVars s₁.ctx.pkt).hash })
        h.stats
        { s₁.cpu.keys ⟨s₁.cpu.pctx.keyCount, hslot⟩ with hash := (wordVars s₁.ctx.pkt).hash }
        { s₂.cpu.keys ⟨s₂.cpu.pctx.keyCount, hcount ▸ hslot⟩ with hash := (wordVars s₁.ctx.pkt).hash } rfl
        (s₁.kcache.at (wordVars s₁.ctx.pkt).hash) s₁.ctx.pkt (wordVars s₁.ctx.pkt).keyLen hle hword
      apply nextKey_same
      · exact ⟨rfl, rfl, hstats'⟩
      · exact hkeys'
      · exact (saveOrMiss_pctx _ _ _ _ _).2.1.trans hcurrent
  · rw [PerCpu.lookupKey_eq_none.mpr (Nat.le_of_not_lt hslot),
      PerCpu.lookupKey_eq_none.mpr (hcount ▸ Nat.le_of_not_lt hslot)]
    exact sameExit_ret h .pass

/-! ### The reply phase -/

lemma preparePacket_same (h : SameSoFar b₁ b₂ s₁ s₂) (hkeys : SameKeys s₁.cpu s₂.cpu)
    (hmore : s₁.cpu.pctx.currentKey < s₁.cpu.pctx.keyCount) :
    SameExit b₁ b₂ (bmcPreparePacketMain s₁) (bmcPreparePacketMain s₂) := by
  obtain ⟨ctx, cpu₁, c⟩ := s₁
  obtain ⟨ctx', cpu₂, c'⟩ := s₂
  obtain ⟨rfl, rfl, hstats⟩ := h
  have hsame (ctx : XdpMd) : SameSoFar b₁ b₂ ⟨ctx, cpu₁, c⟩ ⟨ctx, cpu₂, c⟩ := ⟨rfl, rfl, hstats⟩
  simp only [bmcPreparePacketMain]
  cases ctx.adjustHead (-(adjustHeadLen : ℤ)) with
  | none => exact sameExit_ret (hsame ctx) .pass
  | some ctx₁ =>
    dsimp only
    split_ifs
    · exact sameExit_ret (hsame ctx₁) .pass
    · cases (ctx₁.store 0 (swapAddresses (slice ctx₁.pkt adjustHeadLen headersLen))).adjustHead
        (headersLen : ℤ) with
      | none => exact sameExit_ret (hsame _) .pass
      | some ctx₂ =>
        exact @sameExit_tailCall b₁ b₂ _ _ .writeReply ⟨hsame ctx₂, hkeys, hmore⟩ (hsame ctx₂) .pass

lemma compareKey_same {k₁ k₂ : MemcachedKey} (h : SameKey k₁ k₂) (entry : BmcCacheEntry) :
    compareKey k₁ entry = compareKey k₂ entry := by
  have hbyte : ∀ i < k₁.len, k₁.data.toList.getD i 0 = k₂.data.toList.getD i 0 := by
    intro i hi
    rw [List.getD_eq_getElem?_getD, List.getD_eq_getElem?_getD, ← List.getElem?_take_of_lt hi, h.data,
      List.getElem?_take_of_lt (h.len ▸ hi)]
  rw [compareKey, compareKey, ← h.len]
  rw [Bool.eq_iff_iff, List.all_eq_true, List.all_eq_true]
  refine forall₂_congr fun i hi => ?_
  rw [hbyte i (lt_of_lt_of_le (List.mem_range.mp hi) (Nat.min_le_right _ _))]

lemma lockedCopy_same {k₁ k₂ : MemcachedKey} (h : SameKey k₁ k₂) (entry : BmcCacheEntry) (ctx : XdpMd) :
    lockedCopy k₁ entry ctx = lockedCopy k₂ entry ctx := by
  rw [lockedCopy, lockedCopy, h.hash, compareKey_same h]

lemma countHit_same {t₁ t₂ : BmcStats} (h : SameGrowth b₁ b₂ t₁ t₂) (cacheHit : Bool) :
    SameGrowth b₁ b₂ (countHit t₁ cacheHit) (countHit t₂ cacheHit) := by
  cases cacheHit with
  | false => simpa [countHit, grown, BmcStats.zero] using h.more { BmcStats.zero with missCount := 1 }
  | true => simpa [countHit, grown, BmcStats.zero] using h.more { BmcStats.zero with hitCount := 1 }

lemma finishReply_same (h : SameSoFar b₁ b₂ s₁ s₂) (hpctx : s₁.cpu.pctx = s₂.cpu.pctx) (written : ℕ) :
    SameExit b₁ b₂ (finishReply s₁ written) (finishReply s₂ written) := by
  obtain ⟨ctx, cpu₁, c⟩ := s₁
  obtain ⟨ctx', cpu₂, c'⟩ := s₂
  obtain ⟨rfl, rfl, hstats⟩ := h
  have hsame (ctx : XdpMd) : SameSoFar b₁ b₂ ⟨ctx, cpu₁, c⟩ ⟨ctx, cpu₂, c⟩ := ⟨rfl, rfl, hstats⟩
  dsimp only at hpctx
  simp only [finishReply, hpctx]
  split_ifs
  · cases (ctx.store written replyEnd).adjustHead (0 - ((headersLen + cpu₂.pctx.writePktOffset : ℕ) : ℤ)) with
    | none => exact sameExit_ret (hsame _) .drop
    | some ctx₁ =>
      dsimp only
      split_ifs
      · exact sameExit_ret (hsame ctx₁) .pass
      · exact sameExit_ret (hsame _) .tx
  · exact sameExit_ret (hsame ctx) .drop

lemma replyNext_same (h : SameSoFar b₁ b₂ s₁ s₂) (hkeys : SameKeys s₁.cpu s₂.cpu)
    (hle : s₁.cpu.pctx.currentKey ≤ s₁.cpu.pctx.keyCount) (written : ℕ) :
    SameExit b₁ b₂ (replyNext s₁ written) (replyNext s₂ written) := by
  have hfinish := finishReply_same h hkeys.pctx written
  obtain ⟨ctx, ⟨keys₁, pctx, stats₁⟩, c⟩ := s₁
  obtain ⟨ctx', ⟨keys₂, pctx', stats₂⟩, c'⟩ := s₂
  obtain ⟨rfl, rfl, hstats⟩ := h
  obtain ⟨rfl, hkeys⟩ := hkeys
  simp only [replyNext]
  split_ifs with hsend hlast hmore
  · exact hfinish
  · refine sameExit_ret ?_ .pass
    refine ⟨rfl, rfl, ?_⟩
    simpa [grown, BmcStats.zero] using hstats.more
      { BmcStats.zero with hitMisprediction := pctx.keyCount.toUInt32 }
  · cases ctx.adjustHead ((written : ℕ) : ℤ) with
    | none =>
      refine sameExit_ret ?_ .drop
      exact ⟨rfl, rfl, hstats⟩
    | some ctx' =>
      refine sameExit_tailCall ?_ ?_ .drop
      · exact ⟨⟨rfl, rfl, hstats⟩, ⟨rfl, hkeys⟩, Nat.lt_of_le_of_ne hle hlast⟩
      · exact ⟨rfl, rfl, hstats⟩
  · refine sameExit_ret ?_ .drop
    exact ⟨rfl, rfl, hstats⟩

lemma writeReply_same (h : SameSoFar b₁ b₂ s₁ s₂) (hkeys : SameKeys s₁.cpu s₂.cpu)
    (hmore : s₁.cpu.pctx.currentKey < s₁.cpu.pctx.keyCount) :
    SameExit b₁ b₂ (bmcWriteReplyMain s₁) (bmcWriteReplyMain s₂) := by
  simp only [bmcWriteReplyMain, ← h.ctx, ← h.kcache, ← hkeys.pctx]
  by_cases hempty : s₁.ctx.pkt.length = 0
  · rw [if_pos hempty, if_pos hempty]
    exact sameExit_ret h .pass
  rw [if_neg hempty, if_neg hempty]
  rcases hkeys.lookup hmore with ⟨hnone₁, hnone₂⟩ | ⟨k₁, k₂, hsome₁, hsome₂, hkey⟩
  · rw [hnone₁, hnone₂]
    exact sameExit_ret h .pass
  · rw [hsome₁, hsome₂]
    simp only [Cache.lookupElem_cacheIdx]
    rw [lockedCopy_same hkey, hkey.hash]
    apply replyNext_same
    · exact ⟨rfl, rfl, countHit_same h.stats _⟩
    · exact ⟨rfl, hkeys.keys⟩
    · exact hmore

lemma main_same {prog : XdpProg} (h : Related b₁ b₂ s₁ s₂ prog) :
    SameExit b₁ b₂ (prog.main s₁) (prog.main s₂) := by
  cases prog with
  | rxFilter => exact rxFilter_same h
  | hashKeys => exact hashKeys_same h.1 h.2.1 h.2.2
  | preparePacket => exact preparePacket_same h.1 h.2.1 h.2.2
  | writeReply => exact writeReply_same h.1 h.2.1 h.2.2
  | invalidateCache => exact invalidateCache_same h

end Programs

/-! ### The whole chain -/

lemma Related.soFar {b₁ b₂ : BmcStats} {s₁ s₂ : XdpState} {prog : XdpProg} (h : Related b₁ b₂ s₁ s₂ prog) :
    SameSoFar b₁ b₂ s₁ s₂ := by
  cases prog with
  | rxFilter => exact h
  | hashKeys => exact h.1
  | preparePacket => exact h.1
  | writeReply => exact h.1
  | invalidateCache => exact h

/-- What the other CPUs do to the cache is done in both runs. -/
lemma Related.interfere {b₁ b₂ : BmcStats} {s₁ s₂ : XdpState} {prog : XdpProg} (h : Related b₁ b₂ s₁ s₂ prog)
    (f : Cache → Cache) :
    Related b₁ b₂ { s₁ with kcache := f s₁.kcache } { s₂ with kcache := f s₂.kcache } prog := by
  have hsoFar : SameSoFar b₁ b₂ { s₁ with kcache := f s₁.kcache } { s₂ with kcache := f s₂.kcache } :=
    ⟨h.soFar.ctx, congrArg f h.soFar.kcache, h.soFar.stats⟩
  cases prog with
  | rxFilter => exact hsoFar
  | hashKeys => exact ⟨hsoFar, h.2⟩
  | preparePacket => exact ⟨hsoFar, h.2⟩
  | writeReply => exact ⟨hsoFar, h.2⟩
  | invalidateCache => exact hsoFar

lemma runChain_same {b₁ b₂ : BmcStats} (env : Interference) (left t : ℕ) {prog : XdpProg} {s₁ s₂ : XdpState}
    (h : Related b₁ b₂ s₁ s₂ prog) :
    (runChain env left t prog s₁).1 = (runChain env left t prog s₂).1 ∧
      SameSoFar b₁ b₂ (runChain env left t prog s₁).2 (runChain env left t prog s₂).2 := by
  induction left generalizing t prog s₁ s₂ with
  | zero =>
    obtain ⟨hexit, hsoFar, -⟩ := main_same (h.interfere (env t))
    cases hr : (prog.main { s₁ with kcache := env t s₁.kcache }).1 with
    | ret action =>
      rw [runChain_ret (Prod.ext hr rfl), runChain_ret (Prod.ext (hexit.symm.trans hr) rfl)]
      exact ⟨rfl, hsoFar⟩
    | tailCall next fallthrough =>
      rw [runChain_tailCall_zero (Prod.ext hr rfl),
        runChain_tailCall_zero (Prod.ext (hexit.symm.trans hr) rfl)]
      exact ⟨rfl, hsoFar⟩
  | succ left ih =>
    obtain ⟨hexit, hsoFar, hnext⟩ := main_same (h.interfere (env t))
    cases hr : (prog.main { s₁ with kcache := env t s₁.kcache }).1 with
    | ret action =>
      rw [runChain_ret (Prod.ext hr rfl), runChain_ret (Prod.ext (hexit.symm.trans hr) rfl)]
      exact ⟨rfl, hsoFar⟩
    | tailCall next fallthrough =>
      rw [runChain_tailCall_succ (Prod.ext hr rfl),
        runChain_tailCall_succ (Prod.ext (hexit.symm.trans hr) rfl)]
      exact ih (t + 1) (hnext next fallthrough hr)

/-- Whatever earlier packets left in the per-CPU maps, the same frame with the same caches seen has the
same verdict, the same packet, the same effect on the cache and the same growth of the counters. -/
theorem packet_isolated (env : Interference) (headroom frame : List Byte) (cpu₁ cpu₂ : PerCpu) (c : Cache) :
    (runXdp env headroom frame cpu₁ c).1 = (runXdp env headroom frame cpu₂ c).1 ∧
    (runXdp env headroom frame cpu₁ c).2.ctx = (runXdp env headroom frame cpu₂ c).2.ctx ∧
    (runXdp env headroom frame cpu₁ c).2.kcache = (runXdp env headroom frame cpu₂ c).2.kcache ∧
    SameGrowth cpu₁.stats cpu₂.stats (runXdp env headroom frame cpu₁ c).2.cpu.stats
      (runXdp env headroom frame cpu₂ c).2.cpu.stats := by
  have hstart : Related cpu₁.stats cpu₂.stats ⟨received headroom frame, cpu₁, c⟩
      ⟨received headroom frame, cpu₂, c⟩
      .rxFilter := ⟨rfl, rfl, sameGrowth_self cpu₁.stats cpu₂.stats⟩
  obtain ⟨hverdict, hctx, hkcache, hstats⟩ := runChain_same env maxTailCallCnt 0 hstart
  exact ⟨hverdict, hctx, hkcache, hstats⟩

end BmcCache.Proofs
