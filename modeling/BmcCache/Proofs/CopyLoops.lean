import BmcCache.Model.Ingress

/-!
# The copy loops

One specification for each loop that moves bytes: the saved key in `bmc_hash_keys_main`
and the two loops of `bmc_write_reply_main`, which together write exactly the part of the
cached block that fits between the packet start and `data_end`.
-/

namespace BmcCache.Proofs

open Buffer

/-! ### Packet buffers -/

lemma pkt_length (ctx : XdpMd) : ctx.pkt.length = ctx.mem.length - ctx.data := by
  simp [XdpMd.pkt]

lemma length_mem_store {ctx : XdpMd} {off : ℕ} {bs : List Byte} (h : off + bs.length ≤ ctx.pkt.length) :
    (ctx.store off bs).mem.length = ctx.mem.length := by
  rw [pkt_length] at h
  by_cases hnil : bs = []
  · simp [XdpMd.store, hnil]
  · have hpos : 0 < bs.length := List.length_pos_iff.mpr hnil
    exact length_overwrite (by omega)

lemma pkt_length_store {ctx : XdpMd} {off : ℕ} {bs : List Byte} (h : off + bs.length ≤ ctx.pkt.length) :
    (ctx.store off bs).pkt.length = ctx.pkt.length := by
  rw [pkt_length, pkt_length, length_mem_store h]
  rfl

@[simp] lemma store_nil (ctx : XdpMd) (off : ℕ) : ctx.store off [] = ctx := by
  simp [XdpMd.store]

lemma store_store (ctx : XdpMd) (off : ℕ) (a b : List Byte) (h : off + a.length ≤ ctx.pkt.length) :
    (ctx.store off a).store (off + a.length) b = ctx.store off (a ++ b) := by
  rw [pkt_length] at h
  by_cases hnil : off = 0 ∧ a = []
  · simp [hnil.1, hnil.2]
  · have hpos : ctx.data + off ≤ ctx.mem.length := by
      rcases Nat.eq_zero_or_pos off with h0 | h0
      · have : 0 < a.length := List.length_pos_iff.mpr (fun ha => hnil ⟨h0, ha⟩)
        omega
      · omega
    simp only [XdpMd.store]
    rw [← Nat.add_assoc, overwrite_overwrite a b hpos]

/-! ### The saved key -/

lemma copyKeyLoop_spec (n : ℕ) (body : List Byte) (i : ℕ) (data : Vector Byte bmcMaxKeyLength)
    (h : i + n ≤ bmcMaxKeyLength) :
    (copyKeyLoop n body i data).toList = overwrite data.toList i (body.take n) := by
  induction n generalizing body i data with
  | zero => simp [copyKeyLoop]
  | succ n ih =>
    cases body with
    | nil => simp [copyKeyLoop]
    | cons c cs =>
      have hset : (data.setIfInBounds i c).toList = overwrite data.toList i [c] := by
        rw [Vector.toList_setIfInBounds, List.set_eq_take_append_cons_drop, if_pos (by simp; omega)]
        simp [overwrite]
      have hi : i ≤ data.toList.length := by simp; omega
      rw [copyKeyLoop, ih cs (i + 1) _ (by omega), hset]
      exact overwrite_overwrite [c] (cs.take n) hi

lemma copyKeyLoop_take (body : List Byte) (n : ℕ) (data : Vector Byte bmcMaxKeyLength)
    (hn : n ≤ bmcMaxKeyLength) (hb : n ≤ body.length) :
    (copyKeyLoop n body 0 data).toList.take n = body.take n := by
  rw [copyKeyLoop_spec n body 0 data (by omega)]
  have hlen : (body.take n).length = n := by simp; omega
  simp only [overwrite, List.take_zero, List.nil_append]
  rw [List.take_append_of_le_length (by omega), List.take_take, Nat.min_self]

/-! ### The cached block -/

lemma length_block (e : BmcCacheEntry) : e.block.length = min e.len bmcMaxCacheDataSize := by
  simp [BmcCacheEntry.block]

lemma slice_data_eq {e : BmcCacheEntry} {off n : ℕ} (h : off + n ≤ e.len) :
    slice e.data.toList off n = slice e.block off n := by
  simp only [slice, BmcCacheEntry.block, List.drop_take, List.take_take]
  congr 1
  omega

lemma take_append_slice {l : List Byte} {off n : ℕ} :
    l.take off ++ slice l off n = l.take (off + n) := by
  rw [slice, List.take_add]

lemma store_block_next {e : BmcCacheEntry} {ctx : XdpMd} {off n : ℕ} (hlen : off + n ≤ e.len)
    (hsize : off + n ≤ bmcMaxCacheDataSize) (hpkt : off + n ≤ ctx.pkt.length) :
    (ctx.store 0 (e.block.take off)).store off (slice e.data.toList off n) =
      ctx.store 0 (e.block.take (off + n)) := by
  have hblock := length_block e
  have hoff : (e.block.take off).length = off := by
    rw [List.length_take]
    omega
  have hstep := store_store ctx 0 (e.block.take off) (slice e.block off n)
    (by rw [hoff]; omega)
  rw [hoff, Nat.zero_add, take_append_slice] at hstep
  rw [slice_data_eq hlen, hstep]

lemma pkt_length_store_block {e : BmcCacheEntry} {ctx : XdpMd} {off : ℕ} (h : off ≤ ctx.pkt.length) :
    (ctx.store 0 (e.block.take off)).pkt.length = ctx.pkt.length := by
  apply pkt_length_store
  rw [List.length_take]
  omega

/-- The word loop stops somewhere inside the part that fits, with everything up to there copied. -/
lemma wordLoop_spec (e : BmcCacheEntry) (ctx : XdpMd) (n off : ℕ)
    (h : off ≤ min e.block.length ctx.pkt.length) :
    ∃ off', off' ≤ min e.block.length ctx.pkt.length ∧
      wordLoop e n (ctx.store 0 (e.block.take off)) off = (ctx.store 0 (e.block.take off'), off') := by
  have hblock := length_block e
  induction n generalizing off with
  | zero => exact ⟨off, h, rfl⟩
  | succ n ih =>
    rw [wordLoop, pkt_length_store_block (by omega)]
    by_cases hc : off + 8 < bmcMaxCacheDataSize ∧ off + 8 ≤ e.len ∧ off + 8 ≤ ctx.pkt.length
    · rw [if_pos hc, store_block_next hc.2.1 (by omega) hc.2.2]
      exact ih (off + 8) (by omega)
    · rw [if_neg hc]
      exact ⟨off, h, rfl⟩

lemma byteLoop_spec (e : BmcCacheEntry) (ctx : XdpMd) (n off : ℕ)
    (h : off ≤ min e.block.length ctx.pkt.length) (hn : min e.block.length ctx.pkt.length ≤ off + n) :
    byteLoop e n (ctx.store 0 (e.block.take off)) off =
      (ctx.store 0 (e.block.take (min e.block.length ctx.pkt.length)),
        min e.block.length ctx.pkt.length) := by
  have hblock := length_block e
  induction n generalizing off with
  | zero =>
    have heq : off = min e.block.length ctx.pkt.length := by omega
    rw [byteLoop, ← heq]
  | succ n ih =>
    rw [byteLoop, pkt_length_store_block (by omega)]
    by_cases hc : off < bmcMaxCacheDataSize ∧ off < e.len ∧ off + 1 ≤ ctx.pkt.length
    · rw [if_pos hc, store_block_next (by omega) (by omega) hc.2.2]
      exact ih (off + 1) (by omega) (by omega)
    · have heq : off = min e.block.length ctx.pkt.length := by omega
      rw [if_neg hc, ← heq]

/-- The two loops of `bmc_write_reply_main` are a plain copy of the part that fits. -/
theorem copyEntry_spec (e : BmcCacheEntry) (ctx : XdpMd) :
    copyEntry e ctx = (ctx.store 0 (e.block.take ctx.pkt.length), min e.block.length ctx.pkt.length) := by
  have hblock := length_block e
  obtain ⟨off, hoff, hword⟩ := wordLoop_spec e ctx bmcMaxCacheDataSize 0 (Nat.zero_le _)
  rw [List.take_zero, store_nil] at hword
  rw [copyEntry, hword, byteLoop_spec e ctx bmcMaxCacheDataSize off hoff (by omega)]
  congr 2
  rcases Nat.le_total e.block.length ctx.pkt.length with h | h
  · rw [Nat.min_eq_left h, List.take_length, List.take_of_length_le h]
  · rw [Nat.min_eq_right h]

/-! ### The copy with all its variables -/

/-- The two counters agree and nothing behind the entry has been read. -/
structure SoundCopy (v : CopyVars) : Prop where
  written : v.written = v.off
  reads : ∀ i ∈ v.reads, i < bmcMaxCacheDataSize

section Vars

variable (e : BmcCacheEntry)

lemma wordLoopVars_eq (n : ℕ) {v : CopyVars} (hv : SoundCopy v) :
    ((wordLoopVars e n v).ctx, (wordLoopVars e n v).off) = wordLoop e n v.ctx v.off ∧
      SoundCopy (wordLoopVars e n v) := by
  induction n generalizing v with
  | zero => exact ⟨rfl, hv⟩
  | succ n ih =>
    rw [wordLoopVars, wordLoop]
    split_ifs with hgo
    · apply ih
      refine ⟨?_, ?_⟩
      · simp only [wordBody, hv.written]
      · intro i hi
        simp only [wordBody, List.mem_append, List.mem_range'_1] at hi
        rcases hi with hi | hi
        · exact hv.reads i hi
        · omega
    · exact ⟨rfl, hv⟩

lemma byteLoopVars_eq (n : ℕ) {v : CopyVars} (hv : SoundCopy v) :
    ((byteLoopVars e n v).ctx, (byteLoopVars e n v).off) = byteLoop e n v.ctx v.off ∧
      SoundCopy (byteLoopVars e n v) := by
  induction n generalizing v with
  | zero => exact ⟨rfl, hv⟩
  | succ n ih =>
    rw [byteLoopVars, byteLoop]
    split_ifs with hgo
    · apply ih
      refine ⟨?_, ?_⟩
      · simp only [byteBody, hv.written]
      · intro i hi
        simp only [byteBody, List.mem_append, List.mem_singleton] at hi
        rcases hi with hi | hi
        · exact hv.reads i hi
        · omega
    · exact ⟨rfl, hv⟩

/-- The loops with all their variables compute what the model's copy computes. -/
lemma copyVars_eq (ctx : XdpMd) :
    ((copyVars e ctx).ctx, (copyVars e ctx).off) = copyEntry e ctx ∧ SoundCopy (copyVars e ctx) := by
  have hstart : SoundCopy ⟨ctx, 0, 0, []⟩ := ⟨rfl, by simp⟩
  obtain ⟨hword, hsound⟩ := wordLoopVars_eq e bmcMaxCacheDataSize hstart
  obtain ⟨hbyte, hend⟩ := byteLoopVars_eq e bmcMaxCacheDataSize hsound
  refine ⟨?_, hend⟩
  simp only [copyEntry, ← hword]
  exact hbyte

end Vars

lemma pkt_store_zero {ctx : XdpMd} {bs : List Byte} (h : bs.length ≤ ctx.pkt.length) :
    (ctx.store 0 bs).pkt = bs ++ ctx.pkt.drop bs.length := by
  rw [pkt_length] at h
  by_cases hnil : bs = []
  · simp [hnil]
  · have hpos : 0 < bs.length := List.length_pos_iff.mpr hnil
    have hlen : (ctx.mem.take ctx.data).length = ctx.data := by
      rw [List.length_take]
      omega
    simp only [XdpMd.pkt, XdpMd.store, Nat.add_zero, overwrite, List.append_assoc]
    rw [List.drop_left' hlen, List.drop_drop]

lemma getElem?_mem_store {ctx : XdpMd} {bs : List Byte} {i : ℕ} (hi : i < ctx.data)
    (h : bs.length ≤ ctx.pkt.length) : (ctx.store 0 bs).mem[i]? = ctx.mem[i]? := by
  by_cases hnil : bs = []
  · simp [hnil]
  · have hpos : 0 < bs.length := List.length_pos_iff.mpr hnil
    rw [pkt_length] at h
    simp only [XdpMd.store, Nat.add_zero, overwrite, List.append_assoc]
    rw [List.getElem?_append_left (by rw [List.length_take]; omega), List.getElem?_take_of_lt hi]

/-- The two loops, which the program runs, are a plain copy of the first `min(len, s)` bytes of the entry,
where `s` is the space from `payload` to `data_end`. -/
theorem copy_loops_exact {e : BmcCacheEntry} (he : e.len ≤ bmcMaxCacheDataSize) (ctx : XdpMd) :
    ((copyVars e ctx).ctx, (copyVars e ctx).off) = copyEntry e ctx ∧
    (copyVars e ctx).off = min e.len ctx.pkt.length ∧ (copyVars e ctx).written = min e.len ctx.pkt.length ∧
    (∀ j < min e.len ctx.pkt.length, (copyVars e ctx).ctx.pkt[j]? = e.data.toList[j]?) ∧
    (∀ j, min e.len ctx.pkt.length ≤ j → (copyVars e ctx).ctx.pkt[j]? = ctx.pkt[j]?) ∧
    (∀ i < ctx.data, (copyVars e ctx).ctx.mem[i]? = ctx.mem[i]?) ∧ (copyVars e ctx).ctx.data = ctx.data ∧
    ∀ i ∈ (copyVars e ctx).reads, i < bmcMaxCacheDataSize := by
  obtain ⟨hcopy, hsound⟩ := copyVars_eq e ctx
  have heq := hcopy
  rw [copyEntry_spec, Prod.mk.injEq, length_block, Nat.min_eq_left he] at heq
  obtain ⟨hctx, hoff⟩ := heq
  have htake : e.block.take ctx.pkt.length = e.data.toList.take (min ctx.pkt.length e.len) := by
    rw [BmcCacheEntry.block, List.take_take]
  have hlen : (e.block.take ctx.pkt.length).length = min e.len ctx.pkt.length := by
    rw [List.length_take, length_block]
    omega
  have hpkt : (copyVars e ctx).ctx.pkt = e.block.take ctx.pkt.length ++ ctx.pkt.drop
      (min e.len ctx.pkt.length) := by
    rw [hctx, pkt_store_zero (by omega), hlen]
  refine ⟨hcopy, hoff, hsound.written.trans hoff, ?_, ?_, ?_, ?_, hsound.reads⟩
  · intro j hj
    rw [hpkt, List.getElem?_append_left (by omega), htake, List.getElem?_take_of_lt (by omega)]
  · intro j hj
    rw [hpkt, List.getElem?_append_right (by omega), hlen, List.getElem?_drop, Nat.add_sub_cancel' hj]
  · intro i hi
    rw [hctx]
    exact getElem?_mem_store hi (by omega)
  · rw [hctx]
    rfl

theorem copy_loops_exact_eleven :
    (copyVars { BmcCacheEntry.zero with len := 11 } ⟨List.replicate 20 7, 3⟩).written = 11 :=
  (copy_loops_exact (by decide) ⟨List.replicate 20 7, 3⟩).2.2.1.trans (by decide)

end BmcCache.Proofs
