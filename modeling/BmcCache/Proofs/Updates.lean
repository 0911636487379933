import BmcCache.Lib.Segments
import BmcCache.Model.Egress
import BmcCache.Proofs.CopyLoops
import Mathlib.Data.List.TakeWhile

/-!
# What a reply does to the cache

The hash, comparison and copy loops of `bmc_update_cache_main` on the bytes of the reply,
and the three things a packet on its way out can do to the cache: nothing, store a whole
block, or leave the beginning of one in the entry without marking it valid.
-/

namespace BmcCache.Proofs

open Buffer Segments

def isLF (c : Byte) : Bool := c == LF

/-- The bytes of a reply up to and including its second newline, as far as they fit. -/
def storedBlock (payload : List Byte) : List Byte :=
  takeThrough isLF 2 (payload.take bmcMaxCacheDataSize)

/-- The key a reply is filed under: the bytes behind `VALUE ` up to a space. -/
def keyField (payload : List Byte) : List Byte :=
  ((payload.drop 6).take bmcMaxKeyLength).takeWhile (fun c => c != SP)

lemma updateHashLoop_spec (n : ℕ) (body : List Byte) (hash : UInt32) :
    updateHashLoop n body hash = ((body.take n).takeWhile (fun c => c != SP)).foldl fnvStep hash := by
  induction n generalizing body hash with
  | zero => simp [updateHashLoop]
  | succ n ih =>
    cases body with
    | nil => simp [updateHashLoop]
    | cons c cs =>
      by_cases hc : c = SP
      · simp [updateHashLoop, hc]
      · simp [updateHashLoop, hc, ih]

lemma replyHash_eq (payload : List Byte) : replyHash payload = fnv1aHash32 (keyField payload) :=
  updateHashLoop_spec bmcMaxKeyLength (payload.drop 6) fnvOffsetBasis32

/-! ### The copy loop -/

lemma toList_setIfInBounds {n : ℕ} (data : Vector Byte n) {j : ℕ} (c : Byte) (hj : j < n) :
    (data.setIfInBounds j c).toList = overwrite data.toList j [c] := by
  have hlen : j < data.toList.length := by
    rw [Vector.length_toList]
    exact hj
  rw [Vector.toList_setIfInBounds, List.set_eq_take_append_cons_drop, if_pos hlen, overwrite]
  simp

/-- The copy loop from index `j` on: the bytes through the newline that makes the count two. -/
lemma copyReplyLoop_spec (rest : List Byte) (j count : ℕ) (entry : BmcCacheEntry)
    (hj : j ≤ bmcMaxCacheDataSize) (hcount : count ≤ 2) :
    (copyReplyLoop rest j count entry).1 =
        count + (takeThrough isLF (2 - count) (rest.take (bmcMaxCacheDataSize - j))).countP isLF ∧
      (copyReplyLoop rest j count entry).2.len =
        entry.len + (takeThrough isLF (2 - count) (rest.take (bmcMaxCacheDataSize - j))).length ∧
      (copyReplyLoop rest j count entry).2.data.toList =
        overwrite entry.data.toList j (takeThrough isLF (2 - count) (rest.take (bmcMaxCacheDataSize - j))) ∧
      (copyReplyLoop rest j count entry).2.valid = entry.valid ∧
      (copyReplyLoop rest j count entry).2.hash = entry.hash := by
  induction rest generalizing j count entry with
  | nil => simp [copyReplyLoop]
  | cons c cs ih =>
    by_cases hgo : j < bmcMaxCacheDataSize ∧ count < 2
    · obtain ⟨room, hroom⟩ : ∃ room, bmcMaxCacheDataSize - j = room + 1 :=
        ⟨bmcMaxCacheDataSize - j - 1, by omega⟩
      have hroom' : bmcMaxCacheDataSize - (j + 1) = room := by omega
      obtain ⟨left, hleft⟩ : ∃ left, 2 - count = left + 1 := ⟨2 - count - 1, by omega⟩
      have hnext : 2 - (if c = LF then count + 1 else count) = if isLF c then left else left + 1 := by
        by_cases hc : c = LF
        · simp only [hc, isLF, beq_self_eq_true, if_true]
          omega
        · simp only [isLF, beq_iff_eq, hc, if_false]
          omega
      have hstep := ih (j + 1) (if c = LF then count + 1 else count)
        { entry with data := entry.data.setIfInBounds j c, len := entry.len + 1 } (by omega)
        (by split_ifs <;> omega)
      rw [hroom', hnext] at hstep
      rw [copyReplyLoop, if_pos hgo, hroom, hleft, List.take_succ_cons, takeThrough]
      obtain ⟨h1, h2, h3, h4, h5⟩ := hstep
      refine ⟨?_, ?_, ?_, h4, h5⟩
      · rw [h1, List.countP_cons]
        by_cases hc : c = LF
        · simp only [hc, if_true, isLF, beq_self_eq_true]
          omega
        · simp only [hc, if_false, isLF, beq_iff_eq]
          omega
      · rw [h2, List.length_cons]
        dsimp only
        omega
      · have hjoin := overwrite_overwrite (i := j) [c] (takeThrough isLF (if isLF c then left else left + 1)
          (cs.take room)) (show j ≤ entry.data.toList.length by rw [Vector.length_toList]; exact hj)
        rw [h3, toList_setIfInBounds entry.data c hgo.1]
        exact hjoin
    · rw [copyReplyLoop, if_neg hgo]
      have hnil : takeThrough isLF (2 - count) ((c :: cs).take (bmcMaxCacheDataSize - j)) = [] := by
        rcases Nat.lt_or_ge count 2 with hlt | hge
        · rw [show bmcMaxCacheDataSize - j = 0 by omega, List.take_zero, takeThrough_nil]
        · rw [show 2 - count = 0 by omega, takeThrough_zero]
      rw [hnil]
      simp

lemma length_storedBlock_le (payload : List Byte) : (storedBlock payload).length ≤ bmcMaxCacheDataSize := by
  have h := (takeThrough_isPrefix (p := isLF) 2 (payload.take bmcMaxCacheDataSize)).length_le
  rw [List.length_take] at h
  unfold storedBlock
  omega

lemma storedBlock_isPrefix (payload : List Byte) : storedBlock payload <+: payload :=
  (takeThrough_isPrefix _ _).trans (List.take_prefix _ _)

/-- A reply is complete when its first bytes hold two newlines. -/
def CompleteReply (payload : List Byte) : Prop := 2 ≤ (payload.take bmcMaxCacheDataSize).countP isLF

instance (payload : List Byte) : Decidable (CompleteReply payload) := inferInstanceAs (Decidable (_ ≤ _))

lemma copyReplyLoop_entry (payload : List Byte) (entry : BmcCacheEntry) :
    ((copyReplyLoop payload 0 0 { entry with len := 0 }).1 = 2 ↔ CompleteReply payload) ∧
      (copyReplyLoop payload 0 0 { entry with len := 0 }).2.len = (storedBlock payload).length ∧
      (copyReplyLoop payload 0 0 { entry with len := 0 }).2.block = storedBlock payload ∧
      (copyReplyLoop payload 0 0 { entry with len := 0 }).2.valid = entry.valid ∧
      (copyReplyLoop payload 0 0 { entry with len := 0 }).2.hash = entry.hash := by
  obtain ⟨hcount, hlen, hdata, hvalid, hhash⟩ := copyReplyLoop_spec payload 0 0 { entry with len := 0 }
    (Nat.zero_le _) (Nat.zero_le _)
  rw [Nat.zero_add, Nat.sub_zero, Nat.sub_zero] at hcount hlen
  rw [Nat.sub_zero, Nat.sub_zero] at hdata
  refine ⟨?_, hlen, ?_, hvalid, hhash⟩
  · rw [hcount, countP_takeThrough]
    unfold CompleteReply
    omega
  · rw [BmcCacheEntry.block, hdata, hlen, ← storedBlock, overwrite, List.take_zero, List.nil_append,
      List.take_left]

/-! ### The three things a reply can do -/

def isGetReply (skb : SkBuff) : Bool :=
  decide (skb.len ≤ bmcMaxCacheDataSize + headersLen) && decide (headersLen + 6 ≤ skb.linear.length) &&
    byteAt skb.linear (ethHlen + 9) == ipprotoUdp &&
    be16At skb.linear (ethHlen + sizeofIphdr) == memcachedPort && isValue (skb.linear.drop headersLen)

def SkBuff.payload (skb : SkBuff) : List Byte := skb.linear.drop headersLen

lemma txFilter_other {skb : SkBuff} (h : isGetReply skb = false) (stats : BmcStats) (c : Cache) :
    (bmcTxFilterMain skb stats c).kcache = c := by
  simp only [bmcTxFilterMain]
  split_ifs with h1 h2 h3 h4 h5
  · rfl
  · rfl
  · rfl
  · rfl
  · exfalso
    have hlen : skb.len ≤ bmcMaxCacheDataSize + headersLen := Nat.le_of_not_lt h1
    simp [isGetReply, hlen, h5.1, h5.2.1, h5.2.2] at h
    exact h3 h
  · rfl

/-- The filter calls `bmc_update_cache_main` on what passes its checks. -/
lemma txFilter_update {skb : SkBuff} (h : isGetReply skb = true) (stats : BmcStats) (c : Cache) :
    bmcTxFilterMain skb stats c =
      bmcUpdateCacheMain skb { stats with getRespCount := stats.getRespCount + 1 } c := by
  have hsz := sizes
  simp only [isGetReply, Bool.and_eq_true, decide_eq_true_eq, beq_iff_eq] at h
  obtain ⟨⟨⟨⟨hlen, hlin⟩, hproto⟩, hport⟩, hvalue⟩ := h
  simp only [bmcTxFilterMain]
  rw [if_neg (by omega), if_neg (by omega), if_neg (by simp [hproto]), if_neg (by omega),
    if_pos ⟨hport, hlin, hvalue⟩]

lemma updateCache_kcache (skb : SkBuff) (stats : BmcStats) (c : Cache) :
    (bmcUpdateCacheMain skb stats c).kcache = c.store (cacheIdx (replyHash (SkBuff.payload skb)))
      (updateEntry (c.at (replyHash (SkBuff.payload skb))) (replyHash (SkBuff.payload skb))
        (SkBuff.payload skb)).1 := by
  simp only [bmcUpdateCacheMain, Cache.lookupElem_cacheIdx]
  rfl

lemma txFilter_reply {skb : SkBuff} (h : isGetReply skb = true) (stats : BmcStats) (c : Cache) :
    (bmcTxFilterMain skb stats c).kcache =
      c.store (cacheIdx (replyHash (SkBuff.payload skb)))
        (updateEntry (c.at (replyHash (SkBuff.payload skb))) (replyHash (SkBuff.payload skb))
          (SkBuff.payload skb)).1 := by
  rw [txFilter_update h, updateCache_kcache]

section Update

variable {entry : BmcCacheEntry} {hash : UInt32} {payload : List Byte}

lemma updateEntry_upToDate (h : upToDate entry hash payload = true) :
    (updateEntry entry hash payload).1 = entry := by
  unfold updateEntry
  rw [if_pos h]

lemma updateEntry_complete (h : upToDate entry hash payload = false) (hc : CompleteReply payload) :
    (updateEntry entry hash payload).1.valid = true ∧ (updateEntry entry hash payload).1.hash = hash ∧
      (updateEntry entry hash payload).1.len = (storedBlock payload).length ∧
      (updateEntry entry hash payload).1.block = storedBlock payload := by
  obtain ⟨hcount, hlen, hblock, -, -⟩ := copyReplyLoop_entry payload entry
  simp only [updateEntry, h, Bool.false_eq_true, if_false, hcount.mpr hc, if_true]
  exact ⟨trivial, trivial, hlen, hblock⟩

lemma updateEntry_aborted (h : upToDate entry hash payload = false) (hc : ¬CompleteReply payload) :
    (updateEntry entry hash payload).1.valid = entry.valid ∧
      (updateEntry entry hash payload).1.hash = entry.hash ∧
      (updateEntry entry hash payload).1.len = (storedBlock payload).length ∧
      (updateEntry entry hash payload).1.block = storedBlock payload := by
  obtain ⟨hcount, hlen, hblock, hvalid, hhash⟩ := copyReplyLoop_entry payload entry
  simp only [updateEntry, h, Bool.false_eq_true, if_false, mt hcount.mp hc]
  exact ⟨hvalid, hhash, hlen, hblock⟩

lemma updateEntry_block (h : upToDate entry hash payload = false) :
    (updateEntry entry hash payload).1.block = storedBlock payload := by
  by_cases hc : CompleteReply payload
  · exact (updateEntry_complete h hc).2.2.2
  · exact (updateEntry_aborted h hc).2.2.2

end Update

end BmcCache.Proofs
