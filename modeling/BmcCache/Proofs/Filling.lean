import BmcCache.Proofs.Transparency

/-!
# How replies fill the cache

The comparison loop of `bmc_update_cache_main` on whole blocks, and from it what a reply of one
item leaves in its slot: when the slot is left alone, when the item can be served again as it was
stored, and whether it matters which command memcached has answered. Also the verdicts of the
two programs on outgoing packets.
-/

namespace BmcCache.Proofs

open Buffer Segments

/-! ### The verdict on an outgoing packet -/

/-- The packet is let through exactly when it is too long for the cache or the linear part holds
the Ethernet and IP headers. -/
theorem txFilter_ok_iff (skb : SkBuff) (stats : BmcStats) (c : Cache) :
    (bmcTxFilterMain skb stats c).code = tcActOk ↔
      bmcMaxCacheDataSize + headersLen < skb.len ∨ ethHlen + sizeofIphdr ≤ skb.linear.length := by
  have hupdate : ∀ stats, (bmcUpdateCacheMain skb stats c).code = tcActOk := by
    intro stats
    simp only [bmcUpdateCacheMain, Cache.lookupElem_cacheIdx]
  by_cases hlong : skb.len > bmcMaxCacheDataSize + headersLen
  · simp only [bmcTxFilterMain, hlong, if_true, true_or]
  · by_cases hshort : skb.linear.length < ethHlen + sizeofIphdr
    · refine iff_of_false ?_ (by omega)
      simp only [bmcTxFilterMain, hlong, if_false, hshort, if_true]
      decide
    · refine iff_of_true ?_ (Or.inr (Nat.le_of_not_lt hshort))
      simp only [bmcTxFilterMain, hlong, if_false, hshort]
      split_ifs
      · rfl
      · rfl
      · exact hupdate _
      · rfl

/-- A 24-byte frame, shorter than an Ethernet and an IP header. -/
def shortFrame : SkBuff :=
  ⟨[2, 0, 0, 0, 0, 1, 2, 0, 0, 0, 0, 2, 136, 204, 2, 4, 0, 0, 0, 0, 0, 0, 0, 0], 24, by decide⟩

theorem short_frame_shot :
    (bmcTxFilterMain shortFrame PerCpu.zeroed.stats Cache.zeroed).code = tcActShot := by
  rfl

/-! ### The comparison of the keys -/

lemma getD_of_drop {l rest : List Byte} {b : Byte} {i : ℕ} (h : l.drop i = b :: rest) : l.getD i 0 = b := by
  have hget : l[i]? = some b := by rw [← List.head?_drop, h, List.head?_cons]
  rw [List.getD_eq_getElem?_getD, hget, Option.getD_some]

lemma drop_succ_of_drop {l rest : List Byte} {b : Byte} {i : ℕ} (h : l.drop i = b :: rest) :
    l.drop (i + 1) = rest := by
  rw [← List.drop_drop, h]
  rfl

/-- The loop tells two keys apart, whichever of them ends first: then a space meets another byte. -/
lemma diffLoop_iff {e : BmcCacheEntry} {n off : ℕ} {a b r r' : List Byte} (ha : SP ∉ a) (hb : SP ∉ b)
    (hdata : e.data.toList.drop off = a ++ SP :: r') (hlen : off + a.length < e.len) (hna : a.length ≤ n)
    (hnb : b.length ≤ n) : diffLoop e n (b ++ SP :: r) off = true ↔ a ≠ b := by
  induction b generalizing a n off with
  | nil =>
    cases n with
    | zero =>
      rw [List.length_eq_zero_iff.mp (Nat.le_zero.mp hna)]
      simp [diffLoop]
    | succ n =>
      cases a with
      | nil =>
        have hd : e.data.toList.getD off 0 = SP := getD_of_drop hdata
        simp only [List.nil_append, diffLoop, hd, ne_eq, not_true, or_self, and_false, if_false,
          Bool.false_eq_true]
      | cons x a =>
        have hx : x ≠ SP := fun h => ha (h ▸ List.mem_cons_self)
        have hd : e.data.toList.getD off 0 = x := getD_of_drop hdata
        have hoff : off < e.len := by omega
        simp only [List.nil_append, diffLoop, hd, hoff, hx, ne_eq, not_true, not_false_eq_true,
          or_true, and_self, if_true, reduceCtorEq]
  | cons y b ih =>
    have hy : y ≠ SP := fun h => hb (h ▸ List.mem_cons_self)
    cases n with
    | zero => simp at hnb
    | succ n =>
      cases a with
      | nil =>
        have hd : e.data.toList.getD off 0 = SP := getD_of_drop hdata
        have hoff : off < e.len := by simpa using hlen
        simp only [List.cons_append, diffLoop, hd, hoff, hy, ne_eq, not_true, not_false_eq_true,
          true_or, and_self, if_true, Ne.symm hy, reduceCtorEq]
      | cons x a =>
        have hd : e.data.toList.getD off 0 = x := getD_of_drop hdata
        rw [List.length_cons] at hlen hna hnb
        have hoff : off < e.len := by omega
        simp only [List.cons_append, diffLoop, hd, hoff, hy, ne_eq, not_false_eq_true, true_or,
          and_self, if_true]
        by_cases hxy : x = y
        · have hrec := ih (fun h => ha (List.mem_cons_of_mem _ h)) (fun h => hb (List.mem_cons_of_mem _ h))
            (drop_succ_of_drop hdata) (by omega) (Nat.le_of_succ_le_succ hna) (Nat.le_of_succ_le_succ hnb)
          simp only [hxy, not_true, if_false, List.cons.injEq, true_and]
          exact hrec
        · simp [hxy]

/-- The entry is invalid, or a whole block of the key `k'` under the hash of that key. -/
def EntryOf (k' : List Byte) (e : BmcCacheEntry) : Prop :=
  e.valid = true → IsBlock k' e.block ∧ e.hash = fnv1aHash32 k'

lemma data_of_text {e : BmcCacheEntry} {k' : List Byte} (h : valueText ++ (k' ++ [SP]) <+: e.block) :
    (∃ r, e.data.toList.drop 6 = k' ++ SP :: r) ∧ 6 + k'.length < e.len := by
  obtain ⟨rest, hblock⟩ := h
  obtain ⟨behind, hsplit⟩ : ∃ behind, e.data.toList = e.block ++ behind :=
    ⟨_, (List.take_append_drop _ _).symm⟩
  constructor
  · refine ⟨rest ++ behind, ?_⟩
    rw [hsplit, ← hblock]
    simp [valueText, ascii]
  · have hlen : e.block.length ≤ e.len := by
      rw [length_block]
      exact Nat.min_le_left _ _
    rw [← hblock] at hlen
    simp only [valueText, ascii, List.length_append, List.length_map, List.length_cons,
      List.length_nil] at hlen
    omega

lemma isPrefix_of_isBlock {k' block : List Byte} (h : IsBlock k' block) :
    valueText ++ (k' ++ [SP]) <+: block := by
  obtain ⟨flags, num, data, rfl⟩ := h
  exact ⟨flags ++ SP :: (num ++ CR :: LF :: (data ++ [CR, LF])), by simp⟩

/-- A key of 1..250 bytes without a space. -/
def SpacelessKey (k : List Byte) : Prop := (0 < k.length ∧ k.length ≤ bmcMaxKeyLength) ∧ SP ∉ k

section Update

variable {k k' rest : List Byte} {e : BmcCacheEntry}

lemma replyHash_text (hk : SpacelessKey k) (rest : List Byte) :
    replyHash (valueText ++ (k ++ SP :: rest)) = fnv1aHash32 k := by
  have hdrop : (valueText ++ (k ++ SP :: rest)).drop 6 = k ++ SP :: rest := rfl
  rw [replyHash_eq, keyField, hdrop, takeWhile_key rest hk.1.2 hk.2]

lemma upToDate_other (hk : SpacelessKey k) (hk' : SpacelessKey k')
    (htext : valueText ++ (k' ++ [SP]) <+: e.block) (hne : k' ≠ k) (hash : UInt32) :
    upToDate e hash (valueText ++ (k ++ SP :: rest)) = false := by
  have hdrop : (valueText ++ (k ++ SP :: rest)).drop 6 = k ++ SP :: rest := rfl
  obtain ⟨⟨r, hdata⟩, hlen⟩ := data_of_text htext
  rw [upToDate, hdrop, (diffLoop_iff hk'.2 hk.2 hdata hlen hk'.1.2 hk.1.2).mpr hne, Bool.not_true,
    Bool.and_false]

lemma upToDate_iff (hk : SpacelessKey k) (hk' : SpacelessKey k') (he : EntryOf k' e) :
    upToDate e (fnv1aHash32 k) (valueText ++ (k ++ SP :: rest)) = true ↔ e.valid = true ∧ k' = k := by
  have hdrop : (valueText ++ (k ++ SP :: rest)).drop 6 = k ++ SP :: rest := rfl
  constructor
  · intro h
    have hvalid : e.valid = true := by
      rw [upToDate, Bool.and_eq_true, Bool.and_eq_true] at h
      exact h.1.1
    refine ⟨hvalid, ?_⟩
    by_contra hne
    rw [upToDate_other hk hk' (isPrefix_of_isBlock (he hvalid).1) hne] at h
    exact absurd h Bool.false_ne_true
  · rintro ⟨hvalid, rfl⟩
    obtain ⟨⟨r, hdata⟩, hlen⟩ := data_of_text (isPrefix_of_isBlock (he hvalid).1)
    have hiff : diffLoop e bmcMaxKeyLength (k' ++ SP :: rest) 6 = true ↔ k' ≠ k' :=
      diffLoop_iff hk'.2 hk.2 hdata hlen hk'.1.2 hk.1.2
    simp only [upToDate, Bool.and_eq_true, beq_iff_eq, Bool.not_eq_true', hdrop]
    refine ⟨⟨hvalid, (he hvalid).2⟩, ?_⟩
    rw [← Bool.not_eq_true, hiff]
    simp

end Update

lemma updateEntry_stored {e : BmcCacheEntry} {hash : UInt32} {payload : List Byte}
    (h : upToDate e hash payload = false) :
    (updateEntry e hash payload).1.len = (storedBlock payload).length ∧
      (updateEntry e hash payload).1.block = storedBlock payload := by
  by_cases hc : CompleteReply payload
  · exact (updateEntry_complete h hc).2.2
  · exact (updateEntry_aborted h hc).2.2

/-- A reply that is copied in full over another entry changes it. -/
lemma updateEntry_ne {e : BmcCacheEntry} {k k' rest : List Byte} (hk : SP ∉ k) (hk' : SP ∉ k')
    (he : EntryOf k' e) (hother : ¬(e.valid = true ∧ k' = k)) {hash : UInt32}
    (hstale : upToDate e hash (valueText ++ (k ++ SP :: rest)) = false)
    (hc : CompleteReply (valueText ++ (k ++ SP :: rest))) :
    (updateEntry e hash (valueText ++ (k ++ SP :: rest))).1 ≠ e := by
  intro heq
  obtain ⟨hvalid, -, -, hblock⟩ := updateEntry_complete hstale hc
  rw [heq] at hvalid hblock
  obtain ⟨flags, num, data, htext⟩ := (he hvalid).1
  obtain ⟨behind, hprefix⟩ := storedBlock_isPrefix (valueText ++ (k ++ SP :: rest))
  rw [← hblock, htext, List.append_assoc] at hprefix
  have hkeys := List.append_cancel_left hprefix
  rw [List.append_assoc, List.cons_append] at hkeys
  exact hother ⟨hvalid, (append_cons_inj hk' hk hkeys).1⟩

/-- The slot is left alone exactly when it holds the key of the reply already. -/
theorem update_leaves_alone_iff {k k' rest : List Byte} (hk : SpacelessKey k) (hk' : SpacelessKey k')
    {skb : SkBuff} (hskb : SkBuff.payload skb = valueText ++ (k ++ SP :: rest)) {c : Cache}
    (he : EntryOf k' (c.at (fnv1aHash32 k))) (stats : BmcStats) :
    (upToDate (c.at (fnv1aHash32 k)) (replyHash (SkBuff.payload skb)) (SkBuff.payload skb) = true ↔
      (c.at (fnv1aHash32 k)).valid = true ∧ k' = k) ∧
    ((c.at (fnv1aHash32 k)).valid = true ∧ k' = k → (bmcUpdateCacheMain skb stats c).kcache = c) ∧
    (¬((c.at (fnv1aHash32 k)).valid = true ∧ k' = k) →
      ((bmcUpdateCacheMain skb stats c).kcache.at (fnv1aHash32 k)).block = storedBlock (SkBuff.payload skb) ∧
      ((bmcUpdateCacheMain skb stats c).kcache.at (fnv1aHash32 k)).len =
      (storedBlock (SkBuff.payload skb)).length ∧
      (CompleteReply (SkBuff.payload skb) → (bmcUpdateCacheMain skb stats c).kcache ≠ c)) ∧
    ∀ i, i.val ≠ slotOf k → (bmcUpdateCacheMain skb stats c).kcache i = c i := by
  have hhash : replyHash (SkBuff.payload skb) = fnv1aHash32 k := by rw [hskb, replyHash_text hk]
  have hiff : upToDate (c.at (fnv1aHash32 k)) (fnv1aHash32 k) (SkBuff.payload skb) = true ↔
      (c.at (fnv1aHash32 k)).valid = true ∧ k' = k := by
    rw [hskb]
    exact upToDate_iff hk hk' he
  rw [updateCache_kcache, hhash]
  refine ⟨hiff, ?_, ?_, ?_⟩
  · intro hsame
    rw [updateEntry_upToDate (hiff.mpr hsame), Cache.store_at]
  · intro hother
    have hstale : upToDate (c.at (fnv1aHash32 k)) (fnv1aHash32 k) (SkBuff.payload skb) = false := by
      rw [← Bool.not_eq_true, hiff]
      exact hother
    obtain ⟨hlen, hblock⟩ := updateEntry_stored hstale
    rw [Cache.at_store, if_pos rfl]
    refine ⟨hblock, hlen, ?_⟩
    intro hcomplete heq
    have hentry := congrArg (fun c' => Cache.at c' (fnv1aHash32 k)) heq
    simp only [Cache.at_store, if_true] at hentry
    rw [hskb] at hstale hcomplete hentry
    exact updateEntry_ne hk.2 hk'.2 he hother hstale hcomplete hentry
  · intro i hi
    rw [Cache.store_apply]
    exact if_neg hi

theorem cachedItem_left_alone :
    (bmcUpdateCacheMain (sampleReply "VALUE kkkkkkkkkkkk 0 3\r\nabc\r\nEND\r\n".toList) PerCpu.zeroed.stats
      cachedItemCache).kcache = cachedItemCache := by
  have hkey : SpacelessKey cachedItem.key :=
    ⟨⟨cachedItem.isKey.pos, cachedItem.isKey.le⟩, cachedItem.isKey.noSpace⟩
  have hentry : EntryOf cachedItem.key (cachedItemCache.at (fnv1aHash32 cachedItem.key)) :=
    fun _ => ⟨⟨ascii ['0'], ascii ['3'], ascii "abc".toList, by decide +kernel⟩, by decide +kernel⟩
  have hpayload : SkBuff.payload (sampleReply "VALUE kkkkkkkkkkkk 0 3\r\nabc\r\nEND\r\n".toList) =
      valueText ++ (cachedItem.key ++ SP :: ascii "0 3\r\nabc\r\nEND\r\n".toList) := by decide +kernel
  exact (update_leaves_alone_iff hkey hkey hpayload hentry _).2.1 ⟨by decide +kernel, rfl⟩

/-! ### The reply of one item -/

section Reply

variable (it : Item) (verb : RetrievalVerb) (cas : ℕ)

/-- The header line of the block, without its newline. -/
def RetrievalVerb.line : List Byte :=
  valueText ++ (it.key ++ SP :: (itoaU32 it.flags ++ SP :: (itoaU32 it.value.length ++
    ((if verb.returnCas then SP :: itoaU64 cas else []) ++ [CR]))))

lemma block_eq_line (rest : List Byte) :
    verb.block it cas ++ rest = RetrievalVerb.line it verb cas ++ LF ::
    ((it.value ++ [CR]) ++ LF :: rest) := by
  simp [RetrievalVerb.block, RetrievalVerb.line, makeAsciiGetSuffix, valueText, crlf]

lemma lf_not_mem_line : LF ∉ RetrievalVerb.line it verb cas := by
  have hvalue : LF ∉ valueText := by decide
  have hcas : LF ∉ (if verb.returnCas then SP :: itoaU64 cas else []) := by
    split_ifs
    · rw [List.mem_cons, not_or]
      exact ⟨sp_ne_lf.symm, lf_not_mem_itoaU32 cas⟩
    · simp
  have hcr : LF ∉ [CR] := by decide
  simp only [RetrievalVerb.line, List.mem_append, List.mem_cons, not_or]
  exact ⟨hvalue, it.isKey.noNewline, sp_ne_lf.symm, lf_not_mem_itoaU32 _, sp_ne_lf.symm,
    lf_not_mem_itoaU32 _, hcas, by simpa using hcr⟩

lemma replyText_eq_reply : replyText [it] = RetrievalVerb.get.reply it cas := by
  simp [replyText, RetrievalVerb.reply, RetrievalVerb.block, makeAsciiGetSuffix,
    RetrievalVerb.returnCas, Item.block, Item.suffix]

end Reply

/-- The slot is invalid or holds another key. -/
def HoldsOther (k : List Byte) (e : BmcCacheEntry) : Prop :=
  e.valid = true → ∃ k', SpacelessKey k' ∧ k' ≠ k ∧ valueText ++ (k' ++ [SP]) <+: e.block

section Fill

variable {it : Item} {verb : RetrievalVerb} {cas : ℕ}

lemma storedBlock_block (hlf : LF ∉ it.value) (verb : RetrievalVerb) (cas : ℕ) {rest : List Byte}
    (hlen : (verb.block it cas ++ rest).length ≤ bmcMaxCacheDataSize) :
    storedBlock (verb.block it cas ++ rest) = verb.block it cas := by
  have hdata : LF ∉ it.value ++ [CR] := by
    rw [List.mem_append, not_or]
    exact ⟨hlf, by decide⟩
  have hblock := block_eq_line it verb cas []
  rw [List.append_nil] at hblock
  rw [block_eq_line] at hlen ⊢
  rw [storedBlock_two_lines (lf_not_mem_line it verb cas) hdata hlen, hblock]

lemma storedBlock_reply (hlf : LF ∉ it.value) (verb : RetrievalVerb) (cas : ℕ)
    (hlen : (verb.reply it cas).length ≤ bmcMaxCacheDataSize) :
    storedBlock (verb.reply it cas) = verb.block it cas :=
  storedBlock_block hlf verb cas hlen

lemma block_of_not_returnCas (h : verb.returnCas = false) : verb.block it cas = it.block := by
  simp [RetrievalVerb.block, makeAsciiGetSuffix, h, Item.block, Item.suffix]

/-- The CAS value makes a block longer. -/
lemma length_block_of_returnCas (h : verb.returnCas = true) :
    it.block.length < (verb.block it cas).length := by
  simp only [RetrievalVerb.block, makeAsciiGetSuffix, h, if_true, Item.block, Item.suffix, List.length_append,
    List.length_cons]
  omega

lemma block_eq_iff {verb' : RetrievalVerb} :
    verb.block it cas = verb'.block it cas ↔ verb.returnCas = verb'.returnCas := by
  constructor
  · intro h
    cases hv : verb.returnCas with
    | false =>
      cases hv' : verb'.returnCas with
      | false => rfl
      | true =>
        have hlong := @length_block_of_returnCas it verb' cas hv'
        rw [← h, block_of_not_returnCas hv] at hlong
        exact absurd hlong (Nat.lt_irrefl _)
    | true =>
      cases hv' : verb'.returnCas with
      | true => rfl
      | false =>
        have hlong := @length_block_of_returnCas it verb cas hv
        rw [h, block_of_not_returnCas hv'] at hlong
        exact absurd hlong (Nat.lt_irrefl _)
  · intro h
    rw [RetrievalVerb.block, RetrievalVerb.block, h]

lemma reply_eq_text (it : Item) (verb : RetrievalVerb) (cas : ℕ) :
    ∃ rest, verb.reply it cas = valueText ++ (it.key ++ SP :: rest) := by
  refine ⟨itoaU32 it.flags ++ SP :: (itoaU32 it.value.length ++
    ((if verb.returnCas then SP :: itoaU64 cas else []) ++ crlf)) ++ (it.value ++ crlf) ++ getEnd, ?_⟩
  simp [RetrievalVerb.reply, RetrievalVerb.block, makeAsciiGetSuffix, valueText]

lemma completeReply_reply (h : (verb.reply it cas).length ≤ bmcMaxCacheDataSize) :
    CompleteReply (verb.reply it cas) := by
  have hcrlf : crlf.countP isLF = 1 := by decide
  rw [CompleteReply, List.take_of_length_le h]
  simp only [RetrievalVerb.reply, RetrievalVerb.block, makeAsciiGetSuffix, List.countP_append,
    List.countP_cons, hcrlf]
  omega

/-- What a reply leaves in a slot that does not hold its key. -/
lemma fill_slot {skb : SkBuff} {c : Cache} (hreply : isGetReply skb = true)
    (hlen : (verb.reply it cas).length ≤ bmcMaxCacheDataSize)
    (hpayload : SkBuff.payload skb = verb.reply it cas)
    (hslot : HoldsOther it.key (c.at (fnv1aHash32 it.key))) (stats : BmcStats) :
    ((bmcTxFilterMain skb stats c).kcache.at (fnv1aHash32 it.key)).valid = true ∧
      ((bmcTxFilterMain skb stats c).kcache.at (fnv1aHash32 it.key)).hash = fnv1aHash32 it.key ∧
      ((bmcTxFilterMain skb stats c).kcache.at (fnv1aHash32 it.key)).block =
      storedBlock (verb.reply it cas) := by
  have hkey : SpacelessKey it.key := ⟨⟨it.isKey.pos, it.isKey.le⟩, it.isKey.noSpace⟩
  obtain ⟨rest, htext⟩ := reply_eq_text it verb cas
  have hhash : replyHash (verb.reply it cas) = fnv1aHash32 it.key := by rw [htext, replyHash_text hkey]
  have hstale : upToDate (c.at (fnv1aHash32 it.key)) (fnv1aHash32 it.key) (verb.reply it cas) = false := by
    by_cases hvalid : (c.at (fnv1aHash32 it.key)).valid = true
    · obtain ⟨k', hk', hne, hblock⟩ := hslot hvalid
      rw [htext]
      exact upToDate_other hkey hk' hblock hne _
    · rw [upToDate, eq_false_of_ne_true hvalid, Bool.false_and, Bool.false_and]
  obtain ⟨hvalid, hh, -, hblock⟩ := updateEntry_complete hstale (completeReply_reply hlen)
  rw [txFilter_reply hreply, hpayload, hhash, Cache.at_store, if_pos rfl]
  exact ⟨hvalid, hh, hblock⟩

lemma fill_block {skb : SkBuff} {c : Cache} (hlf : LF ∉ it.value) (hskb : IsReplyFrame skb)
    (hreply : isGetReply skb = true) (hpayload : SkBuff.payload skb = verb.reply it cas)
    (hslot : (c.at (fnv1aHash32 it.key)).valid = false) (stats : BmcStats) :
    ((bmcTxFilterMain skb stats c).kcache.at (fnv1aHash32 it.key)).block = verb.block it cas := by
  have hlen : (verb.reply it cas).length ≤ bmcMaxCacheDataSize := by
    rw [← hpayload]
    exact ((isGetReply_iff hskb).mp hreply).1
  have hother : HoldsOther it.key (c.at (fnv1aHash32 it.key)) := by
    intro hvalid
    rw [hslot] at hvalid
    exact absurd hvalid Bool.false_ne_true
  rw [(fill_slot hreply hlen hpayload hother stats).2.2, storedBlock_reply hlf verb cas hlen]

lemma block_eq_block_iff : verb.block it cas = it.block ↔ verb.returnCas = false := by
  rw [← @block_of_not_returnCas it .get cas rfl, block_eq_iff]
  rfl

end Fill

/-- The replies to two retrieval commands fill an invalid slot alike exactly when both or neither show
the CAS value, and with what `get` shows exactly when neither does. -/
theorem fills_agree_iff {it : Item} (hlf : LF ∉ it.value) (cas : ℕ) (verb verb' : RetrievalVerb)
    {skb skb' : SkBuff} (hskb : IsReplyFrame skb) (hskb' : IsReplyFrame skb') (hreply : isGetReply skb = true)
    (hreply' : isGetReply skb' = true) (hpayload : SkBuff.payload skb = verb.reply it cas)
    (hpayload' : SkBuff.payload skb' = verb'.reply it cas) {c : Cache}
    (hslot : (c.at (fnv1aHash32 it.key)).valid = false) (stats : BmcStats) :
    (((bmcTxFilterMain skb stats c).kcache.at (fnv1aHash32 it.key)).block =
        ((bmcTxFilterMain skb' stats c).kcache.at (fnv1aHash32 it.key)).block ↔
      verb.returnCas = verb'.returnCas) ∧
    (((bmcTxFilterMain skb stats c).kcache.at (fnv1aHash32 it.key)).block =
        ((bmcTxFilterMain skb' stats c).kcache.at (fnv1aHash32 it.key)).block ∧
      ((bmcTxFilterMain skb stats c).kcache.at (fnv1aHash32 it.key)).block ++ getEnd = processGetCommand
        (Store.empty.set it) [it.key] ↔
      verb.returnCas = false ∧ verb'.returnCas = false) := by
  have hget : processGetCommand (Store.empty.set it) [it.key] = it.block ++ getEnd := by
    simp [processGetCommand, Store.set, replyText]
  rw [fill_block hlf hskb hreply hpayload hslot, fill_block hlf hskb' hreply' hpayload' hslot, hget]
  refine ⟨block_eq_iff, ?_⟩
  rw [List.append_cancel_right_eq, block_eq_iff, block_eq_block_iff]
  constructor
  · rintro ⟨hsame, hfalse⟩
    exact ⟨hfalse, hsame ▸ hfalse⟩
  · rintro ⟨hfalse, hfalse'⟩
    exact ⟨hfalse.trans hfalse'.symm, hfalse⟩

/-- The frame of a reply to the command when the CAS value of the item is 5. -/
def sampleReplyOf (verb : RetrievalVerb) (it : Item) : SkBuff :=
  sampleFrame (udpHeader 7 0 1 ++ verb.reply it 5)

theorem gets_fills_with_cas :
    LF ∉ cachedItem.value ∧ isGetReply (sampleReplyOf .get cachedItem) = true ∧
      isGetReply (sampleReplyOf .gets cachedItem) = true ∧
      SkBuff.payload (sampleReplyOf .get cachedItem) = RetrievalVerb.get.reply cachedItem 5 ∧
      SkBuff.payload (sampleReplyOf .gets cachedItem) = RetrievalVerb.gets.reply cachedItem 5 ∧
      ((bmcTxFilterMain (sampleReplyOf .get cachedItem) PerCpu.zeroed.stats Cache.zeroed).kcache.at
        (fnv1aHash32 cachedItem.key)).block ≠
      ((bmcTxFilterMain (sampleReplyOf .gets cachedItem) PerCpu.zeroed.stats Cache.zeroed).kcache.at
        (fnv1aHash32 cachedItem.key)).block ∧
      (runXdp Interference.quiet (List.replicate 256 0)
        (sampleHeaders true ++ getLine [cachedItem.key]) PerCpu.zeroed
        (bmcTxFilterMain (sampleReplyOf .gets cachedItem) PerCpu.zeroed.stats
          Cache.zeroed).kcache).2.ctx.pkt.drop
          headersLen = ascii "VALUE kkkkkkkkkkkk 0 3 5\r\nabc\r\nEND\r\n".toList := by
  decide +kernel

theorem get_and_gat_fill_alike :
    ((bmcTxFilterMain (sampleReplyOf .get cachedItem) PerCpu.zeroed.stats Cache.zeroed).kcache.at
        (fnv1aHash32 cachedItem.key)).block =
      ((bmcTxFilterMain (sampleReplyOf .gat cachedItem) PerCpu.zeroed.stats Cache.zeroed).kcache.at
        (fnv1aHash32 cachedItem.key)).block := by
  refine (fills_agree_iff ?_ 5 .get .gat (sampleFrame_isReplyFrame _) (sampleFrame_isReplyFrame _)
    ?_ ?_ ?_ ?_ ?_ _).1.mpr rfl
  all_goals decide +kernel

/-! ### Stored and served again -/

lemma length_itoaU32_le {n k : ℕ} (hk : 0 < k) (h : n < 10 ^ k) : (itoaU32 n).length ≤ k := by
  rw [itoaU32, ascii, List.length_map]
  exact (Nat.length_toDigits_le_iff (by decide) hk).mpr h

/-- The sizes of `bmc_common.h` leave room for the longest key, flags and value. -/
lemma length_replyText_le {it : Item} (h : it.value.length ≤ bmcMaxValLength) :
    (replyText [it]).length ≤ bmcMaxCacheDataSize := by
  have hlim := limits
  have hkey : it.key.length ≤ 250 := it.isKey.le
  have hflags : (itoaU32 it.flags).length ≤ 10 :=
    length_itoaU32_le (by decide) (lt_trans it.flags_lt (by decide))
  have hsize : (itoaU32 it.value.length).length ≤ 4 :=
    length_itoaU32_le (by decide) (lt_of_le_of_lt h (by decide))
  simp only [replyText, Item.block, Item.suffix, getEnd, crlf, ascii, List.map_cons, List.map_nil,
    List.flatten_cons, List.flatten_nil, List.length_append, List.length_cons, List.length_nil,
    List.append_nil]
  omega

/-- The slot of the item holds its block, and `bmc_write_reply_main` copies it for the key. -/
def ServesBack (it : Item) (c : Cache) : Prop :=
  (c.at (fnv1aHash32 it.key)).valid = true ∧ (c.at (fnv1aHash32 it.key)).block ++ getEnd = replyText [it] ∧
    ∀ key ctx, HoldsKey key it.key → (replyText [it]).length ≤ ctx.pkt.length →
      (lockedCopy key (c.at key.hash) ctx).2 = (it.block.length, ctx.store 0 it.block)

section RoundTrip

variable {it : Item} {skb : SkBuff} {c : Cache}

lemma replyText_one (it : Item) : replyText [it] = it.block ++ getEnd := by
  simp [replyText]

lemma countP_block_of_mem (h : LF ∈ it.value) : 3 ≤ it.block.countP isLF := by
  have hcrlf : crlf.countP isLF = 1 := by decide
  have hvalue : 0 < it.value.countP isLF := List.countP_pos_iff.mpr ⟨LF, h, rfl⟩
  simp only [Item.block, Item.suffix, List.countP_append, List.countP_cons, hcrlf]
  omega

lemma countP_storedBlock_le (payload : List Byte) : (storedBlock payload).countP isLF ≤ 2 := by
  rw [storedBlock, countP_takeThrough]
  exact Nat.min_le_left _ _

/-- The reply of an item with a value of at most 1000 bytes passes the filter, and is served again as
it was stored exactly when the value has no newline. -/
theorem reply_served_back_iff (hvalue : it.value.length ≤ bmcMaxValLength) (hskb : IsReplyFrame skb)
    (hpayload : SkBuff.payload skb = replyText [it]) (hslot : HoldsOther it.key (c.at (fnv1aHash32 it.key)))
    (stats : BmcStats) :
    bmcTxFilterMain skb stats c =
      bmcUpdateCacheMain skb { stats with getRespCount := stats.getRespCount + 1 } c ∧
      (ServesBack it (bmcTxFilterMain skb stats c).kcache ↔ LF ∉ it.value) := by
  have hlen := length_replyText_le hvalue
  have hreply : isGetReply skb = true := by
    rw [isGetReply_iff hskb, hpayload]
    refine ⟨hlen, ?_⟩
    rw [replyText_one]
    exact isValue_of_hasKey (hasKey_block it getEnd)
  rw [replyText_eq_reply it 0] at hlen hpayload
  obtain ⟨hvalid, hhash, hblock⟩ := fill_slot hreply hlen hpayload hslot stats
  rw [← replyText_eq_reply it 0] at hblock hpayload
  refine ⟨txFilter_update hreply stats c, ?_⟩
  constructor
  · rintro ⟨-, hback, -⟩ hmem
    -- the copy stops at the second newline, which then stands inside the value
    rw [hblock, replyText_one] at hback
    have hsame := List.append_cancel_right hback
    have htwo := countP_storedBlock_le (it.block ++ getEnd)
    have hthree := countP_block_of_mem hmem
    rw [hsame] at htwo
    omega
  · intro hlf
    have hstored : storedBlock (replyText [it]) = it.block := by
      rw [replyText_eq_reply it 0, storedBlock_reply hlf .get 0 hlen, block_of_not_returnCas rfl]
    rw [hstored] at hblock
    refine ⟨hvalid, by rw [hblock, replyText_one], ?_⟩
    intro key ctx hkey hroom
    have htext := (hasKey_block it []).2.2.2
    rw [List.append_nil] at htext
    have hfit : it.block.length ≤ ctx.pkt.length := by
      rw [replyText_one, List.length_append] at hroom
      omega
    rw [lockedCopy_spec hkey, cachedBlock_of_text hvalid hhash (hblock ▸ htext), hblock, Nat.min_eq_left hfit,
      List.take_of_length_le hfit]

end RoundTrip

/-- Its value is a newline alone. -/
def newlineItem : Item :=
  ⟨ascii ['k'], 0, [LF], [[LF, CR, LF]], ⟨by decide, by decide, by decide, by decide⟩, zero_flags_lt,
    rfl, Or.inl rfl⟩

theorem newline_value_cut :
    newlineItem.value.length ≤ bmcMaxValLength ∧ IsReplyFrame (sampleReplyOf .get newlineItem) ∧
      SkBuff.payload (sampleReplyOf .get newlineItem) = replyText [newlineItem] ∧
      HoldsOther newlineItem.key (Cache.zeroed.at (fnv1aHash32 newlineItem.key)) ∧
      ((bmcTxFilterMain (sampleReplyOf .get newlineItem) PerCpu.zeroed.stats Cache.zeroed).kcache.at
        (fnv1aHash32 newlineItem.key)).block = ascii "VALUE k 0 1\r\n\n".toList ∧
      ¬ServesBack newlineItem
        (bmcTxFilterMain (sampleReplyOf .get newlineItem) PerCpu.zeroed.stats Cache.zeroed).kcache := by
  have hblock : ((bmcTxFilterMain (sampleReplyOf .get newlineItem) PerCpu.zeroed.stats Cache.zeroed).kcache.at
      (fnv1aHash32 newlineItem.key)).block = ascii "VALUE k 0 1\r\n\n".toList := by decide +kernel
  refine ⟨by decide, sampleFrame_isReplyFrame _, by decide +kernel, ?_, hblock, ?_⟩
  · intro hvalid
    exact absurd hvalid Bool.false_ne_true
  · rintro ⟨-, hback, -⟩
    rw [hblock] at hback
    exact absurd hback (by decide +kernel)

theorem cachedItem_served_back :
    ServesBack cachedItem
    (bmcTxFilterMain (sampleReplyOf .get cachedItem) PerCpu.zeroed.stats Cache.zeroed).kcache := by
  refine (reply_served_back_iff ?_ (sampleFrame_isReplyFrame _) ?_ ?_ _).2.mpr ?_
  · decide +kernel
  · decide +kernel
  · intro hvalid
    exact absurd hvalid Bool.false_ne_true
  · decide +kernel

end BmcCache.Proofs
