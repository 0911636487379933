import BmcCache.Proofs.SavedKeys
import Mathlib.Algebra.BigOperators.Group.Finset.Basic
import Mathlib.Algebra.Order.BigOperators.Group.Finset

/-!
# How much fits into a reply

The verdict of the reply phase, from the lengths of the blocks alone: the reply is assembled in
the 128 bytes of headroom and the payload of the request, every block that is not the last must
leave the 14 bytes `bpf_xdp_adjust_head` insists on, and the last one 5 for the end marker.
-/

namespace BmcCache.Proofs

open Buffer

lemma runChain_shift (env : Interference) (d left t : ℕ) (prog : XdpProg) (s : XdpState) :
    runChain env left (d + t) prog s = runChain (fun i => env (d + i)) left t prog s := by
  induction left generalizing t prog s with
  | zero =>
    rw [runChain, runChain]
  | succ left ih =>
    rw [runChain, runChain]
    split
    · rfl
    · exact ih (t + 1) _ _

/-! ### Blocks one by one -/

lemma blocks_append (obs : ℕ → Cache) (t : ℕ) (ks ks' : List (List Byte)) :
    blocks obs t (ks ++ ks') = blocks obs t ks ++ blocks obs (t + ks.length) ks' := by
  induction ks generalizing t with
  | nil => rfl
  | cons k ks ih =>
    rw [List.cons_append, blocks, blocks, ih, List.append_assoc, List.length_cons, Nat.add_right_comm,
      Nat.add_assoc]

/-- The block for saved key `i`, when `bmc_prepare_packet_main` is the first program to see `obs`. -/
def blockAt (obs : ℕ → Cache) (ks : List (List Byte)) (i : ℕ) : List Byte :=
  cachedBlock (obs (i + 1)) (ks.getD i [])

/-- The bytes there are for the block of key `i` in the reply to a request with `P` bytes of payload. -/
def spaceAt (obs : ℕ → Cache) (P : ℕ) (ks : List (List Byte)) (i : ℕ) : ℤ :=
  adjustHeadLen + P - (∑ j ∈ Finset.range i, (blockAt obs ks j).length : ℕ)

section Lengths

variable (obs : ℕ → Cache) (ks : List (List Byte))

lemma blocks_take_succ {n : ℕ} (hn : n < ks.length) :
    blocks obs 1 (ks.take (n + 1)) = blocks obs 1 (ks.take n) ++ blockAt obs ks n := by
  have hlen : (ks.take n).length = n := by
    rw [List.length_take]
    omega
  have hget : ks.getD n [] = ks[n] := by simp [hn]
  rw [List.take_succ_eq_append_getElem hn, blocks_append, hlen, blocks, blocks,
    List.append_nil, blockAt, hget, Nat.add_comm 1 n]

lemma length_blocks_take {n : ℕ} (hn : n ≤ ks.length) :
    (blocks obs 1 (ks.take n)).length = ∑ j ∈ Finset.range n, (blockAt obs ks j).length := by
  induction n with
  | zero => simp [blocks]
  | succ n ih => rw [blocks_take_succ obs ks hn, List.length_append, ih (by omega), Finset.sum_range_succ]

lemma spaceAt_sub (P : ℕ) {i : ℕ} (hi : i < ks.length) :
    spaceAt obs P ks i - (blockAt obs ks i).length = adjustHeadLen +
    P - (blocks obs 1 (ks.take (i + 1))).length := by
  rw [spaceAt, length_blocks_take obs ks hi, Finset.sum_range_succ]
  omega

lemma forall_blockAt_eq_nil : (∀ i < ks.length, blockAt obs ks i = []) ↔ blocks obs 1 ks = [] := by
  have hsum := length_blocks_take obs ks (Nat.le_refl _)
  rw [List.take_length] at hsum
  rw [← List.length_eq_zero_iff, hsum, Finset.sum_eq_zero_iff]
  simp

lemma length_blocks_take_mono {n m : ℕ} (hnm : n ≤ m) (hm : m ≤ ks.length) :
    (blocks obs 1 (ks.take n)).length ≤ (blocks obs 1 (ks.take m)).length := by
  rw [length_blocks_take obs ks hm, length_blocks_take obs ks (hnm.trans hm)]
  exact Finset.sum_le_sum_of_subset (Finset.range_subset_range.mpr hnm)

/-- Of the blocks that are not the last, only the sum of all of them matters. -/
lemma forall_spaceAt_iff (P : ℕ) :
    (∀ i, i + 1 < ks.length → ethHlen ≤ spaceAt obs P ks i - (blockAt obs ks i).length) ↔
      (blocks obs 1 ks.dropLast).length + ethHlen ≤ adjustHeadLen + P := by
  have hsz := sizes
  rw [List.dropLast_eq_take]
  constructor
  · intro h
    rcases Nat.lt_or_ge 1 ks.length with hlen | hlen
    · have hlast := h (ks.length - 2) (by omega)
      rw [spaceAt_sub obs ks P (by omega), show ks.length - 2 + 1 = ks.length - 1 by omega] at hlast
      omega
    · rw [show ks.length - 1 = 0 by omega, List.take_zero, blocks, List.length_nil]
      omega
  · intro h i hi
    have hmono := length_blocks_take_mono obs ks (show i + 1 ≤ ks.length - 1 by omega) (Nat.sub_le _ _)
    rw [spaceAt_sub obs ks P (by omega)]
    omega

lemma last_spaceAt_iff (P : ℕ) (hne : ks ≠ []) :
    (5 ≤ spaceAt obs P ks (ks.length - 1) - (blockAt obs ks (ks.length - 1)).length) ↔
      (blocks obs 1 ks).length + 5 ≤ adjustHeadLen + P := by
  have hpos : 0 < ks.length := List.length_pos_iff.mpr hne
  rw [spaceAt_sub obs ks P (by omega), Nat.sub_add_cancel hpos, List.take_length]
  omega

end Lengths

/-! ### The verdict of the reply phase -/

/-- Some block is copied, and all of them fit. -/
def ReplyFits (obs : ℕ → Cache) (P : ℕ) (ks : List (List Byte)) : Prop :=
  (∃ i < ks.length, blockAt obs ks i ≠ []) ∧
  (∀ i, i + 1 < ks.length → ethHlen ≤ spaceAt obs P ks i - (blockAt obs ks i).length) ∧
  5 ≤ spaceAt obs P ks (ks.length - 1) - (blockAt obs ks (ks.length - 1)).length

/-- The verdict on a request of which the keys `ks` have been saved. -/
theorem reply_phase_verdict {headroom frame : List Byte} {ks : List (List Byte)} {s : XdpState}
    (hs : Parsed s (headroom ++ frame) headroom.length ks) (hks : ks ≠ []) {P : ℕ}
    (hframe : frame.length = headersLen + P) (hP : 4 ≤ P) (hroom : adjustHeadLen ≤ headroom.length)
    (env : Interference) {left : ℕ} (hleft : ks.length ≤ left) (t : ℕ) :
    let obs := seen (fun i => env (t + i)) s.kcache
    let res := runChain env left t .preparePacket s
    ((res.1 = .pass ∧ res.2.ctx.data = headroom.length ∧ res.2.ctx.pkt = frame) ↔
      ∀ i < ks.length, blockAt obs ks i = []) ∧
    (res.1 = .tx ↔ ReplyFits obs P ks) ∧
    (res.1 = .drop ↔ (∃ i < ks.length, blockAt obs ks i ≠ []) ∧ ¬ReplyFits obs P ks) := by
  intro obs res
  have hsz := sizes
  have hpos : 0 < ks.length := List.length_pos_iff.mpr hks
  obtain ⟨left, rfl⟩ : ∃ l, left = l + 1 := ⟨left - 1, by omega⟩
  have hrun := prepare_outcome (observes_seen (fun i => env (t + i)) s.kcache) hks (by omega)
    (left + 1) 0 s hs rfl
  rw [← runChain_shift env t (left + 1) 0, prepareOutcome_eq _ _ _ _ hroom hks] at hrun
  have hsome : (∃ i < ks.length, blockAt obs ks i ≠ []) ↔ blocks obs 1 ks ≠ [] := by
    rw [ne_eq, ← forall_blockAt_eq_nil]
    push Not
    rfl
  have hsize : adjustHeadLen - headersLen + frame.length = adjustHeadLen + P := by omega
  simp only [ReplyFits]
  rw [forall_blockAt_eq_nil, hsome, forall_spaceAt_iff, last_spaceAt_iff _ _ _ hks]
  rw [hsize, Nat.zero_add] at hrun
  have htake := length_blocks_take_mono obs ks (Nat.sub_le ks.length 1) (Nat.le_refl _)
  rw [← List.dropLast_eq_take, List.take_length] at htake
  have hobs : seen (fun i => env (t + i)) s.kcache = obs := rfl
  have hres : runChain env (left + 1) (t + 0) .preparePacket s = res := rfl
  rw [hobs, hres] at hrun
  split_ifs at hrun with h1 h2 h3
  · have hbig : ¬(blocks obs 1 ks.dropLast).length + ethHlen ≤ adjustHeadLen + P := by omega
    have hne : blocks obs 1 ks ≠ [] := by
      intro hnil
      rw [hnil, List.length_nil] at htake
      omega
    have hdrop : res.1 = .drop := hrun
    simp [hdrop, hbig, hne]
  · obtain ⟨hpass, hdata, hpkt⟩ := hrun
    have hnil : blocks obs 1 ks = [] := h2
    simp [hpass, hdata, hpkt, hnil]
  · have htx : res.1 = .tx := hrun.1
    have hne : blocks obs 1 ks ≠ [] := h2
    have hfit : (blocks obs 1 ks.dropLast).length + ethHlen ≤ adjustHeadLen + P := by omega
    simp [htx, hne, hfit, h3]
  · have hdrop : res.1 = .drop := hrun
    have hne : blocks obs 1 ks ≠ [] := h2
    simp [hdrop, hne, h3]

lemma sampleKeys_parsed :
    ∃ s, Parsed s (List.replicate 256 0 ++ (sampleHeaders true ++ requestLine 1 sampleKeys))
    (List.replicate 256 (0 : Byte)).length [ascii "kkkkkkkkkkkk".toList, ascii "nnnnnnnnnnnn".toList] := by
  obtain ⟨e, hfollow, hprog⟩ := sampleKeys_entered
  have hin := enters_of_follow hfollow
  rw [sampleKeysEntry, requestLine_eq] at hin
  obtain ⟨next, -, hnum, -, hexamined⟩ :=
    examined_request ⟨by decide, by decide, by decide⟩ 0 (by simp [sampleKeys])
    sampleKeys_requestKey Interference.quiet (List.replicate 256 0) PerCpu.zeroed twoKeysCache [LF] hprog hin
  have hparsed := hexamined.parsed
  rw [hnum, List.nil_append, sampleKeys_candidates, ← requestLine_eq] at hparsed
  exact ⟨e.state, hparsed⟩

/-- The second saved key is gone from the cache when its turn comes. -/
theorem sampleKeys_fit : ∃ s, s.kcache = cacheAfterReply "VALUE kkkkkkkkkkkk 0 3\r\nabc\r\nEND\r\n".toList ∧
    Saved s.cpu [ascii "kkkkkkkkkkkk".toList, ascii "nnnnnnnnnnnn".toList] ∧
    (runChain Interference.quiet 29 4 .preparePacket s).1 = .tx := by
  obtain ⟨s, hctx, hsaved, hcurrent, hwritten⟩ := sampleKeys_parsed
  refine ⟨{ s with kcache := cacheAfterReply "VALUE kkkkkkkkkkkk 0 3\r\nabc\r\nEND\r\n".toList },
    rfl, hsaved, ?_⟩
  have hroom : adjustHeadLen ≤ (List.replicate 256 (0 : Byte)).length := by
    rw [List.length_replicate]
    decide
  have hverdict := @reply_phase_verdict (List.replicate 256 0)
    (sampleHeaders true ++ requestLine 1 sampleKeys)
    [ascii "kkkkkkkkkkkk".toList, ascii "nnnnnnnnnnnn".toList]
    { s with kcache := cacheAfterReply "VALUE kkkkkkkkkkkk 0 3\r\nabc\r\nEND\r\n".toList }
    ⟨hctx, hsaved, hcurrent, hwritten⟩ (by simp) 44 (by decide) (by decide) hroom Interference.quiet 29
    (by decide) 4
  have hfits : ReplyFits (seen (fun i => Interference.quiet (4 + i))
      (cacheAfterReply "VALUE kkkkkkkkkkkk 0 3\r\nabc\r\nEND\r\n".toList)) 44
      [ascii "kkkkkkkkkkkk".toList, ascii "nnnnnnnnnnnn".toList] := by
    refine ⟨⟨0, by decide, by decide +kernel⟩, ?_, by decide +kernel⟩
    intro i hi
    obtain rfl : i = 0 := by
      simp only [List.length_cons, List.length_nil] at hi
      omega
    decide +kernel
  exact hverdict.2.1.mpr hfits

/-! ### A request for one cached key -/

section OneKey

variable {k : List Byte}

lemma seen_at {env : Interference} (henv : ∀ t c, (env t c).at (fnv1aHash32 k) = c.at (fnv1aHash32 k))
    (c : Cache) (t : ℕ) : (seen env c t).at (fnv1aHash32 k) = c.at (fnv1aHash32 k) := by
  induction t with
  | zero => exact henv 0 c
  | succ t ih => exact (henv (t + 1) _).trans ih

lemma keysOffset_one {hdr : List Byte} (hhdr : IsUdpHeader hdr) (hk : RequestKey k) :
    keysOffset (hdr ++ requestLine (0 + 1) [k]) = 4 := by
  have hkeys : ∀ k' ∈ [k], RequestKey k' := by
    intro k' hk'
    rw [List.mem_singleton.mp hk']
    exact hk
  exact @keysOffset_requestText hdr 0 [k] [LF] hhdr.length hkeys

/-- The filter moves the packet start behind `get `, which `bpf_xdp_adjust_head` refuses when the
key and the end of the line are shorter than an Ethernet header. -/
lemma startsParser_one_iff {hdr : List Byte} (hhdr : IsUdpHeader hdr) (hk : RequestKey k) :
    StartsParser (hdr ++ requestLine 1 [k]) ↔ 12 ≤ k.length := by
  have hsz := sizes
  have hlim := limits
  have hoff := keysOffset_one hhdr hk
  have hlen : (hdr ++ requestLine (0 + 1) [k]).length = headersLen + (4 + (k.length + 2)) := by
    rw [List.length_append, hhdr.length]
    simp only [requestLine, keyLine, crlf, ascii, List.length_append, List.length_map, List.length_cons,
      List.length_nil, List.length_replicate]
    omega
  unfold StartsParser
  rw [hoff, hlen]
  constructor
  · rintro ⟨-, -, hroom⟩
    omega
  · intro hlong
    exact ⟨@isGetFrame_requestText hdr 0 [k] [LF] hhdr, by omega, by omega⟩

lemma keyBytes_one {hdr : List Byte} (hhdr : IsUdpHeader hdr) (hk : RequestKey k) :
    keyBytes (hdr ++ requestLine 1 [k]) = k ++ CR :: [LF] := by
  have hoff := keysOffset_one hhdr hk
  rw [keyBytes, hoff]
  exact @drop_requestText hdr 0 [k] [LF] hhdr.length

end OneKey

/-- A cached key whose block fits is served exactly when it has at least twelve bytes. -/
theorem cached_key_served_iff {k : List Byte} (hk : RequestKey k) {hdr : List Byte} (hhdr : IsUdpHeader hdr)
    {env : Interference} (henv : ∀ t c, (env t c).at (fnv1aHash32 k) = c.at (fnv1aHash32 k))
    {headroom : List Byte} (hroom : adjustHeadLen ≤ headroom.length) (cpu : PerCpu) {c : Cache}
    (hvalid : (c.at (fnv1aHash32 k)).valid = true) (hhash : (c.at (fnv1aHash32 k)).hash = fnv1aHash32 k)
    (htext : valueText ++ (k ++ [SP]) <+: (c.at (fnv1aHash32 k)).block)
    (hfits : (c.at (fnv1aHash32 k)).block.length + 5 ≤ adjustHeadLen + (requestLine 1 [k]).length) :
    ((runXdp env headroom (hdr ++ requestLine 1 [k]) cpu c).1 = .tx ∧
      (runXdp env headroom (hdr ++ requestLine 1 [k]) cpu c).2.ctx.pkt.drop headersLen =
        (c.at (fnv1aHash32 k)).block ++ replyEnd) ↔ 12 ≤ k.length := by
  have hsz := sizes
  have hlim := limits
  have hrun := runXdp_outcome env headroom (hdr ++ requestLine 1 [k]) cpu c
  rw [← startsParser_one_iff hhdr hk]
  by_cases hstart : StartsParser (hdr ++ requestLine 1 [k])
  · refine iff_of_true ?_ hstart
    obtain ⟨⟨hpos, hle⟩, hbytes⟩ := hk
    have hbody := keyBytes_one hhdr ⟨⟨hpos, hle⟩, hbytes⟩
    have hword : keyWord (k ++ CR :: [LF]) = k := keyWord_append hle hbytes rfl
    have hcached (t : ℕ) : cachedBlock (seen env c t) k = (c.at (fnv1aHash32 k)).block := by
      have hat := seen_at henv c t
      rw [← hat] at hvalid hhash htext ⊢
      exact cachedBlock_of_text hvalid hhash htext
    have hlooks : looksCached (seen env c 1) k = true := by
      rw [looksCached, seen_at henv c 1, hvalid, hhash]
      simp
    have hparsed : ParsedAt (seen env c) 1 [] (k ++ CR :: [LF]) [k] 0 (k ++ CR :: [LF]) := by
      refine ⟨?_, (endsLine_append CR hword).mpr rfl, by simp [savedKeys], ?_, by simp⟩
      · rw [ProperKey, hword]
        exact ⟨hpos, hle⟩
      · rw [savedKeys_one, hword, savedNext, if_pos hlooks]
        rfl
    have hblocks : blocks (seen env c) 3 [k] = (c.at (fnv1aHash32 k)).block := by
      rw [blocks, blocks, hcached, List.append_nil]
    have hne : (c.at (fnv1aHash32 k)).block ≠ [] := by
      intro hnil
      rw [hnil] at htext
      exact absurd (List.prefix_nil.mp htext) (by simp [valueText, ascii])
    have hlen : (hdr ++ requestLine 1 [k]).length = headersLen + (requestLine 1 [k]).length := by
      rw [List.length_append, hhdr.length]
    have hout := outcome_prepared (i := 0) hstart hroom (by rw [hbody]; rfl)
      (by rw [hbody]; exact hparsed) (by decide)
    rw [if_neg (by simp [blocks]; omega), hblocks, if_neg hne, if_pos (by omega)] at hout
    rw [hout] at hrun
    obtain ⟨htx, hpkt, -⟩ := hrun
    refine ⟨htx, ?_⟩
    have hhead : (swappedHeaders (hdr ++ requestLine 1 [k])).length = headersLen := by
      apply length_swapAddresses
      rw [List.length_take]
      omega
    rw [hpkt, replyFrame, List.drop_left' (length_headerFields hhead _)]
  · refine iff_of_false ?_ hstart
    rintro ⟨htx, -⟩
    have hhanded : outcome (seen env c) headroom.length (hdr ++ requestLine 1 [k]) = .handed := by
      rw [outcome, if_neg hstart]
    rw [hhanded] at hrun
    rw [hrun.1] at htx
    simp at htx

/-- The key `abc` is cached and its block fits, and the request for it goes to memcached. -/
theorem short_key_not_served : RequestKey (ascii ['a', 'b', 'c']) ∧
    sampleHeaders true ++ requestLine 1 [ascii ['a', 'b', 'c']] = sampleRequest "get abc\r\n".toList ∧
    ((cacheAfterReply "VALUE abc 0 1\r\nx\r\nEND\r\n".toList).at
      (fnv1aHash32 (ascii ['a', 'b', 'c']))).block =
      ascii "VALUE abc 0 1\r\nx\r\n".toList ∧
    ((cacheAfterReply "VALUE abc 0 1\r\nx\r\nEND\r\n".toList).at
      (fnv1aHash32 (ascii ['a', 'b', 'c']))).valid = true ∧
    ((cacheAfterReply "VALUE abc 0 1\r\nx\r\nEND\r\n".toList).at (fnv1aHash32 (ascii ['a', 'b', 'c']))).hash =
      fnv1aHash32 (ascii ['a', 'b', 'c']) ∧
    (runXdp Interference.quiet (List.replicate 256 0) (sampleRequest "get abc\r\n".toList) PerCpu.zeroed
      (cacheAfterReply "VALUE abc 0 1\r\nx\r\nEND\r\n".toList)).1 = .pass := by
  refine ⟨⟨by decide, by decide +kernel⟩, ?_, ?_, ?_, ?_, ?_⟩
  · decide +kernel
  · decide +kernel
  · decide +kernel
  · decide +kernel
  · decide +kernel

theorem cachedItem_served :
    (runXdp Interference.quiet (List.replicate 256 0) (sampleHeaders true ++ requestLine 1 [cachedItem.key])
      PerCpu.zeroed cachedItemCache).1 = .tx ∧
    (runXdp Interference.quiet (List.replicate 256 0) (sampleHeaders true ++ requestLine 1 [cachedItem.key])
      PerCpu.zeroed cachedItemCache).2.ctx.pkt.drop headersLen =
        (cachedItemCache.at (fnv1aHash32 cachedItem.key)).block ++ replyEnd := by
  have htext : valueText ++ (cachedItem.key ++ [SP]) <+:
      (cachedItemCache.at (fnv1aHash32 cachedItem.key)).block := by
    rw [← List.isPrefixOf_iff_prefix]
    decide +kernel
  have hkey : RequestKey cachedItem.key := ⟨by decide +kernel, by decide +kernel⟩
  have hquiet : ∀ t c, (Interference.quiet t c).at (fnv1aHash32 cachedItem.key) =
      c.at (fnv1aHash32 cachedItem.key) :=
    fun _ _ => rfl
  have hroom : adjustHeadLen ≤ (List.replicate 256 (0 : Byte)).length := by
    rw [List.length_replicate]
    decide
  refine (cached_key_served_iff hkey ⟨by decide, by decide, by decide⟩ hquiet hroom PerCpu.zeroed ?_ ?_
    htext ?_).mpr ?_
  · decide +kernel
  · decide +kernel
  · decide +kernel
  · decide +kernel

end BmcCache.Proofs
