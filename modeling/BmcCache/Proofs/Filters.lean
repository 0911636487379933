import BmcCache.Proofs.Accounting
import BmcCache.Proofs.Invalidation

/-!
# The frames the filters act on

`bmc_rx_filter_main` and `bmc_tx_filter_main` see every frame of the interface and read the
protocol, the ports and the payload at fixed offsets of it. This file says exactly which frames
are acted on, whatever kind of frame they are.
-/

namespace BmcCache.Proofs

open Buffer Segments

/-! ### The words in front of a word -/

section Words

variable {body b : List Byte} {i j : ℕ}

lemma fromWord_succ (i : ℕ) (body : List Byte) :
    fromWord (i + 1) body = (fromWord i body).bind fun b => if MovesOn b then some (behindWord b)
      else none := by
  induction i generalizing body with
  | zero =>
    rw [fromWord, fromWord, Option.bind_some]
    rfl
  | succ i ih =>
    have hnext : fromWord (i + 1) body = if MovesOn body then fromWord i (behindWord body) else none := rfl
    rw [fromWord, hnext]
    split_ifs
    · exact ih (behindWord body)
    · rfl

lemma movesOn_of_fromWord (h : fromWord i body = some b) (hj : j < i) :
    ∃ b', fromWord j body = some b' ∧ MovesOn b' := by
  induction i generalizing b with
  | zero => exact absurd hj (Nat.not_lt_zero j)
  | succ i ih =>
    rw [fromWord_succ, Option.bind_eq_some_iff] at h
    obtain ⟨b', hb', hmove⟩ := h
    rcases Nat.lt_succ_iff_lt_or_eq.mp hj with hlt | rfl
    · exact ih hb' hlt
    · refine ⟨b', hb', ?_⟩
      by_contra hno
      rw [if_neg hno] at hmove
      simp at hmove

lemma fromWord_le (h : fromWord i body = some b) (hno : ¬MovesOn b) {b' : List Byte}
    (h' : fromWord j body = some b') : j ≤ i := by
  by_contra hlt
  obtain ⟨b'', hb'', hmove⟩ := movesOn_of_fromWord h' (Nat.lt_of_not_le hlt)
  rw [h, Option.some.injEq] at hb''
  exact hno (hb'' ▸ hmove)

/-- The word at which the parser stops, or word number `n`. -/
lemma exists_last (n : ℕ) (body : List Byte) :
    ∃ i b, fromWord i body = some b ∧ i ≤ n ∧ (i = n ∨ ¬MovesOn b) := by
  induction n with
  | zero => exact ⟨0, body, rfl, Nat.le_refl 0, Or.inl rfl⟩
  | succ n ih =>
    obtain ⟨i, b, hb, hle, hlast⟩ := ih
    by_cases hmove : MovesOn b
    · obtain rfl : i = n := hlast.resolve_right (not_not_intro hmove)
      refine ⟨i + 1, behindWord b, ?_, Nat.le_refl _, Or.inl rfl⟩
      rw [fromWord_succ, hb, Option.bind_some, if_pos hmove]
    · exact ⟨i, b, hb, Nat.le_succ_of_le hle, Or.inr hmove⟩

end Words

/-! ### A cache that has every word -/

def hitEntry (w : List Byte) : BmcCacheEntry :=
  ⟨1, true, fnv1aHash32 w, Vector.ofFn fun i => (List.replicate 6 0 ++ w).getD i.val 0⟩

/-- The cache in which the word `w` is found, in whatever slot it is looked for. -/
def hitCache (w : List Byte) : Cache := fun _ => hitEntry w

lemma looksCached_hitCache (w : List Byte) : looksCached (hitCache w) w = true := by
  simp [looksCached, hitCache, Cache.at, hitEntry]

lemma slice_hitEntry {w : List Byte} (hle : w.length ≤ bmcMaxKeyLength) :
    slice (hitEntry w).data.toList 6 w.length = w := by
  have hlim := limits
  apply List.ext_getElem?
  intro i
  rw [slice]
  rcases Nat.lt_or_ge i w.length with hi | hi
  · have hin : 6 + i < bmcMaxCacheDataSize := by omega
    rw [List.getElem?_take_of_lt hi, List.getElem?_drop, hitEntry, Vector.toList_ofFn,
      List.getElem?_ofFn, dif_pos hin, List.getD_eq_getElem?_getD, List.getElem?_append_right (by simp),
      List.length_replicate, Nat.add_sub_cancel_left, List.getElem?_eq_getElem hi, Option.getD_some]
  · rw [List.getElem?_eq_none hi, List.getElem?_eq_none]
    rw [List.length_take]
    omega

lemma cachedBlock_hitCache {w : List Byte} (hle : w.length ≤ bmcMaxKeyLength) :
    cachedBlock (hitCache w) w ≠ [] := by
  have hhit : (hitEntry w).valid = true ∧ (hitEntry w).hash = fnv1aHash32 w ∧
      slice (hitEntry w).data.toList 6 w.length = w := ⟨rfl, rfl, slice_hitEntry hle⟩
  have hblock : cachedBlock (hitCache w) w = (hitEntry w).block := if_pos hhit
  have hone : (hitEntry w).block.length = 1 := by
    rw [length_block]
    rfl
  rw [hblock]
  intro hnil
  rw [hnil] at hone
  simp at hone

/-- What the other CPUs do to the cache so that every word is found in it when it is looked for, and
the first one once more in the reply phase. -/
def findsAll (body : List Byte) : Interference :=
  fun t _ => hitCache (keyWord ((fromWord (t - 1) body).getD body))

section AllFound

variable {body : List Byte}

/-- All words are saved that are looked for in a cache that has them. -/
lemma length_savedKeys {obs : ℕ → Cache} {n t : ℕ} {b : List Byte} (hb : fromWord n body = some b)
    (hobs : ∀ j < n, ∀ b', fromWord j body = some b' → looksCached (obs (t + j)) (keyWord b') = true) :
    (savedKeys obs n t body).length = n := by
  induction n generalizing t body with
  | zero => rfl
  | succ n ih =>
    have hmove : MovesOn body := by
      by_contra hno
      rw [fromWord, if_neg hno] at hb
      simp at hb
    rw [fromWord, if_pos hmove] at hb
    have hfirst : savedNext (obs t) [] (keyWord body) = [keyWord body] := by
      have hhit : looksCached (obs t) (keyWord body) = true := hobs 0 (Nat.succ_pos n) body rfl
      rw [savedNext, if_pos hhit, List.nil_append]
    rw [savedKeys, hfirst, List.length_append, ih hb, List.length_singleton, Nat.add_comm]
    intro j hj b' hb'
    have hnext := hobs (j + 1) (Nat.succ_lt_succ hj) b' (by rw [fromWord, if_pos hmove, hb'])
    rwa [show t + 1 + j = t + (j + 1) by omega]

lemma seen_findsAll (c : Cache) (t : ℕ) :
    seen (findsAll body) c t = hitCache (keyWord ((fromWord (t - 1) body).getD body)) := by
  cases t <;> rfl

end AllFound

/-! ### Frames taken for a request -/

/-- Read as a UDP packet, the frame makes the filter start the parser, and none of the words that the
parser has key slots for sends it back. -/
def TakenForGet (frame : List Byte) : Prop :=
  StartsParser frame ∧ ∀ i < bmcMaxKeyInPacket, ∀ b, fromWord i (keyBytes frame) = some b → ProperKey b

section Get

variable {frame : List Byte}

/-- In front of a word that sends the frame back, the parser has moved on from every word. -/
lemma movesOn_before {body : List Byte} {i j : ℕ} {b b' : List Byte} (hb : fromWord i body = some b)
    (hbad : ¬ProperKey b) (hb' : fromWord j body = some b') (hkey : ProperKey b') : j < i ∧ MovesOn b' := by
  have hle : j ≤ i := fromWord_le hb (fun hmove => hbad hmove.1) hb'
  have hne : j ≠ i := by
    rintro rfl
    rw [hb, Option.some.injEq] at hb'
    exact hbad (hb' ▸ hkey)
  have hlt : j < i := Nat.lt_of_le_of_ne hle hne
  obtain ⟨b'', hb'', hmove⟩ := movesOn_of_fromWord hb hlt
  rw [hb', Option.some.injEq] at hb''
  exact ⟨hlt, hb'' ▸ hmove⟩

lemma length_savedKeys_le (obs : ℕ → Cache) (n t : ℕ) (body : List Byte) :
    (savedKeys obs n t body).length ≤ n := by
  induction n generalizing t body with
  | zero => exact Nat.le_refl 0
  | succ n ih =>
    have hfirst : (savedNext (obs t) [] (keyWord body)).length ≤ 1 := by
      rw [savedNext]
      split_ifs
      · exact Nat.le_refl 1
      · exact Nat.zero_le 1
    have hrest := ih (t + 1) (behindWord body)
    rw [savedKeys, List.length_append]
    omega

lemma outcome_handed (h : ¬TakenForGet frame) (obs : ℕ → Cache) (headroom : ℕ) :
    outcome obs headroom frame = .handed := by
  have hlim := limits
  have hsz := sizes
  by_cases hstart : StartsParser frame
  · have hword : ∃ i < bmcMaxKeyInPacket, ∃ b, fromWord i (keyBytes frame) = some b ∧ ¬ProperKey b := by
      by_contra hno
      refine h ⟨hstart, fun i hi b hb => ?_⟩
      by_contra hbad
      exact hno ⟨i, hi, b, hb, hbad⟩
    obtain ⟨i, hi, b, hb, hbad⟩ := hword
    have hnot : ¬MovesOn b := fun hmove => hbad hmove.1
    by_contra hhanded
    by_cases hstranded : outcome obs headroom frame = .stranded
    · obtain ⟨-, ⟨j, b', hb', hstrands⟩ | ⟨-, b', hb', hkey, hline, -⟩⟩ :=
        (outcome_stranded_iff ..).mp hstranded
      · have hle := fromWord_le hb hnot hb'
        have hsaved := length_savedKeys_le obs j 1 (keyBytes frame)
        rcases hstrands with hlast | ⟨-, hfull | ⟨hkey, -, hshort⟩⟩
        · omega
        · omega
        · exact (movesOn_before hb hbad hb' hkey).2.2.2 hshort
      · exact (movesOn_before hb hbad hb' hkey).2.2.1 hline
    · obtain ⟨-, -, j, b', ks, hb', hparsed, -⟩ := outcome_replied hhanded hstranded
      exact (movesOn_before hb hbad hb' hparsed.1).2.2.1 hparsed.2.1
  · rcases outcome_cases obs headroom frame with ⟨-, hout⟩ | ⟨hno, -⟩ | ⟨hno, -⟩ | ⟨hno, -⟩
    · exact hout
    · exact absurd hno hstart
    · exact absurd hno hstart
    · exact absurd hno hstart

/-- Where every word is found in the cache, the frame is not handed over as received. -/
lemma outcome_acted (h : TakenForGet frame) (c : Cache) {headroom : ℕ} (hroom : adjustHeadLen ≤ headroom) :
    outcome (seen (findsAll (keyBytes frame)) c) headroom frame ≠ .handed := by
  have hlim := limits
  have hsz := sizes
  obtain ⟨hstart, hproper⟩ := h
  obtain ⟨i, b, hb, hle, hlast⟩ := exists_last bmcMaxKeyInPacket (keyBytes frame)
  have hfound : ∀ j b', fromWord j (keyBytes frame) = some b' →
      looksCached (seen (findsAll (keyBytes frame)) c (1 + j)) (keyWord b') = true := by
    intro j b' hb'
    rw [seen_findsAll, Nat.add_sub_cancel_left, hb', Option.getD_some]
    exact looksCached_hitCache _
  have hsaved : (savedKeys (seen (findsAll (keyBytes frame)) c) i 1 (keyBytes frame)).length = i :=
    length_savedKeys hb fun j _ b' hb' => hfound j b' hb'
  have hstrands (h : StrandsAt (maxTailCallCnt - 1) i
      (savedKeys (seen (findsAll (keyBytes frame)) c) i 1 (keyBytes frame)) b) :
      outcome (seen (findsAll (keyBytes frame)) c) headroom frame ≠ .handed := by
    have hout := (outcome_stranded_iff (seen (findsAll (keyBytes frame)) c) headroom frame).mpr
      ⟨hstart, Or.inl ⟨i, b, hb, h⟩⟩
    rw [hout]
    simp
  rcases Nat.lt_or_ge i bmcMaxKeyInPacket with hlt | hge
  · have hnot : ¬MovesOn b := hlast.resolve_left (Nat.ne_of_lt hlt)
    have hkey : ProperKey b := hproper i hlt b hb
    by_cases hline : EndsLine b
    · -- the first word is saved, and its block is found once more in the reply phase
      have hfirst : ∃ ks, savedKeys (seen (findsAll (keyBytes frame)) c) (i + 1) 1 (keyBytes frame) =
          keyWord (keyBytes frame) :: ks := by
        have hhit := hfound 0 (keyBytes frame) rfl
        rw [savedKeys, savedNext, if_pos hhit]
        exact ⟨_, rfl⟩
      obtain ⟨ks, hks⟩ := hfirst
      have hparsed : ParsedAt (seen (findsAll (keyBytes frame)) c) 1 [] (keyBytes frame)
          (keyWord (keyBytes frame) :: ks) i b :=
        ⟨hkey, hline, by rw [List.nil_append, hsaved]; exact hlt, by rw [hks, List.nil_append],
          List.cons_ne_nil _ _⟩
      have hnone : fromWord (i + 3 - 1) (keyBytes frame) = none := by
        by_contra hsome
        obtain ⟨b', hb'⟩ := Option.ne_none_iff_exists'.mp hsome
        have hbefore := fromWord_le hb hnot hb'
        omega
      have hblocks : blocks (seen (findsAll (keyBytes frame)) c) (i + 3)
          (keyWord (keyBytes frame) :: ks) ≠ [] := by
        rw [blocks, seen_findsAll, hnone, Option.getD_none]
        intro hnil
        exact cachedBlock_hitCache (hproper 0 (by omega) _ rfl).2 (List.append_eq_nil_iff.mp hnil).1
      rw [outcome_prepared hstart hroom hb hparsed (by omega), if_neg hblocks]
      split_ifs <;> simp
    · have hshort : CutShort b := by
        by_contra hlong
        exact hnot ⟨hkey, hline, hlong⟩
      exact hstrands (Or.inr ⟨by omega, Or.inr ⟨hkey, hline, hshort⟩⟩)
  · exact hstrands (Or.inr ⟨by omega, Or.inl (by omega)⟩)

end Get

/-! ### The cache -/

lemma main_exit {prog : XdpProg} (hrx : prog ≠ .rxFilter) (hinv : prog ≠ .invalidateCache) (s : XdpState) :
    (∃ action, (prog.main s).1 = .ret action) ∨
      ∃ next fallthrough, (prog.main s).1 = .tailCall next fallthrough ∧ next ≠ .rxFilter ∧
      next ≠ .invalidateCache := by
  cases prog with
  | rxFilter => exact absurd rfl hrx
  | invalidateCache => exact absurd rfl hinv
  | hashKeys =>
    rcases hashKeys_exit s with hret | hcall | hcall
    · exact Or.inl hret
    · exact Or.inr ⟨_, _, hcall, by simp, by simp⟩
    · exact Or.inr ⟨_, _, hcall, by simp, by simp⟩
  | preparePacket =>
    rcases preparePacket_exit s with hret | hcall
    · exact Or.inl hret
    · exact Or.inr ⟨_, _, hcall, by simp, by simp⟩
  | writeReply =>
    rcases writeReply_exit s with hret | hcall
    · exact Or.inl hret
    · exact Or.inr ⟨_, _, hcall, by simp, by simp⟩

/-- From the parser on, the cache is only changed by the other CPUs. -/
lemma runChain_kcache {env : Interference} {obs : ℕ → Cache} (hobs : Observes env obs) (left t : ℕ)
    {prog : XdpProg} (hrx : prog ≠ .rxFilter) (hinv : prog ≠ .invalidateCache) (s : XdpState)
    (hc : env t s.kcache = obs t) :
    ∃ n, (runChain env left t prog s).2.kcache = obs n := by
  induction left generalizing t prog s with
  | zero =>
    refine ⟨t, ?_⟩
    have hsame := main_kcache hinv { s with kcache := env t s.kcache }
    rcases main_exit hrx hinv { s with kcache := env t s.kcache } with ⟨action, hret⟩ |
      ⟨next, fb, hcall, -, -⟩
    · rw [runChain_ret (show prog.main _ = (.ret action, _) from Prod.ext hret rfl), hsame, ← hc]
    · rw [runChain_tailCall_zero (show prog.main _ = (.tailCall next fb, _) from Prod.ext hcall rfl),
        hsame, ← hc]
  | succ left ih =>
    have hsame := main_kcache hinv { s with kcache := env t s.kcache }
    rcases main_exit hrx hinv { s with kcache := env t s.kcache } with ⟨action, hret⟩ |
      ⟨next, fb, hcall, hrx', hinv'⟩
    · refine ⟨t, ?_⟩
      rw [runChain_ret (show prog.main _ = (.ret action, _) from Prod.ext hret rfl), hsame, ← hc]
    · rw [runChain_tailCall_succ (show prog.main _ = (.tailCall next fb, _) from Prod.ext hcall rfl)]
      refine ih (t + 1) hrx' hinv' _ ?_
      rw [hsame, hobs]
      exact congrArg (env (t + 1)) hc

/-- Read as a TCP segment, the frame has the port and some word behind `set`. -/
def TakenForSet (frame : List Byte) : Prop :=
  IsTcpHeader (frame.take (ethHlen + sizeofIphdr + sizeofTcphdr)) ∧
    ∃ w, ReadsWord ((frame.drop (ethHlen + sizeofIphdr + sizeofTcphdr)).take bmcMaxPacketLength) w

lemma byteAt_take {p : List Byte} {n i : ℕ} (h : i < n) : byteAt (p.take n) i = byteAt p i := by
  rw [byteAt, byteAt, List.getD_eq_getElem?_getD, List.getD_eq_getElem?_getD, List.getElem?_take_of_lt h]

lemma be16At_take {p : List Byte} {n i : ℕ} (h : i + 1 < n) : be16At (p.take n) i = be16At p i := by
  rw [be16At, be16At, byteAt_take (Nat.lt_of_succ_lt h), byteAt_take h]

lemma isTcpHeader_of_exit {s : XdpState} (h : (bmcRxFilterMain s).1 = .tailCall .invalidateCache .pass) :
    IsTcpHeader (s.ctx.pkt.take (ethHlen + sizeofIphdr + sizeofTcphdr)) := by
  have hsz := sizes
  simp only [bmcRxFilterMain, rxGet] at h
  split at h
  · simp at h
  · split at h
    · -- the branch of UDP packets does not call the scanner
      exfalso
      revert h
      repeat' split
      all_goals simp
    · split at h
      · next hproto =>
        split_ifs at h with hshort htcp
        refine ⟨?_, ?_, ?_⟩
        · rw [List.length_take]
          omega
        · rw [byteAt_take (by omega), hproto]
        · rw [be16At_take (by omega), htcp.1]
      · simp at h

/-- The pipeline hands the frame over as received and leaves the cache to the other CPUs. -/
def Untouched (env : Interference) (headroom frame : List Byte) (cpu : PerCpu) (c : Cache) : Prop :=
  (runXdp env headroom frame cpu c).1 = .pass ∧
    (runXdp env headroom frame cpu c).2.ctx.data = headroom.length ∧
    (runXdp env headroom frame cpu c).2.ctx.pkt = frame ∧
    ∃ n, (runXdp env headroom frame cpu c).2.kcache = seen env c n

lemma runXdp_kcache {frame : List Byte} (h : ¬TakenForSet frame) (env : Interference) (headroom : List Byte)
    (cpu : PerCpu) (c : Cache) : ∃ n, (runXdp env headroom frame cpu c).2.kcache = seen env c n := by
  have hpkt := received_pkt headroom frame
  have hsame := rxFilter_kcache ⟨received headroom frame, cpu, env 0 c⟩
  rcases rxFilter_exit ⟨received headroom frame, cpu, env 0 c⟩ with ⟨action, hret⟩ | hcall | hcall
  · have hmain : XdpProg.rxFilter.main ⟨received headroom frame, cpu, env 0 c⟩ = (.ret action, _) :=
      Prod.ext hret rfl
    refine ⟨0, ?_⟩
    rw [runXdp, runChain_ret hmain]
    exact hsame
  · have hmain : XdpProg.rxFilter.main ⟨received headroom frame, cpu, env 0 c⟩ =
        (.tailCall .hashKeys .pass, _) :=
      Prod.ext hcall rfl
    have hchain : runXdp env headroom frame cpu c = runChain env (maxTailCallCnt - 1) 1 .hashKeys _ :=
      runChain_tailCall_succ hmain
    rw [hchain]
    exact runChain_kcache (observes_seen env c) _ 1 (by simp) (by simp) _ (congrArg (env 1) hsame)
  · have hhdr := isTcpHeader_of_exit hcall
    rw [hpkt] at hhdr
    have hget : isGetFrame frame = false := by
      have hproto := hhdr.protocol
      rw [byteAt_take (by decide)] at hproto
      have hudp : (ipprotoTcp == ipprotoUdp) = false := by decide
      rw [isGetFrame, hproto, hudp, Bool.and_false, Bool.false_and, Bool.false_and]
    have hmain : XdpProg.rxFilter.main ⟨received headroom frame, cpu, env 0 c⟩ =
        (.tailCall .invalidateCache .pass, ⟨received headroom frame, cpu, env 0 c⟩) := by
      rcases @rxFilter_other ⟨received headroom frame, cpu, env 0 c⟩
        (by rw [hpkt]; exact hget) with hpass | hscan
      · rw [hpass] at hcall
        simp at hcall
      · exact hscan
    have hnone : frameSlots frame = ∅ := by
      rw [Set.eq_empty_iff_forall_notMem]
      rintro i ⟨w, hw, -⟩
      exact h ⟨hhdr, w, hw⟩
    have hchain : runXdp env headroom frame cpu c =
        runChain env (maxTailCallCnt - 1) 1 .invalidateCache ⟨received headroom frame, cpu, env 0 c⟩ :=
      runChain_tailCall_succ hmain
    obtain ⟨s', hret, -⟩ := invalidate_ctx ⟨received headroom frame, cpu, env 1 (env 0 c)⟩
    have hcleared := invalidate_kcache ⟨received headroom frame, cpu, env 1 (env 0 c)⟩
    rw [hret, hpkt, hnone, clearSlots_empty] at hcleared
    have hscan : XdpProg.invalidateCache.main ⟨received headroom frame, cpu, env 1 (env 0 c)⟩ =
      (.ret .pass, s') := hret
    refine ⟨1, ?_⟩
    rw [hchain, runChain_ret hscan]
    exact hcleared

/-! ### Egress -/

/-- Read as a UDP packet, the frame has the source port and starts like a reply. -/
def TakenForReply (frame : List Byte) : Prop := isGetReply ⟨frame, frame.length, Nat.le_refl _⟩ = true

lemma takenForReply_of_isPrefix {skb : SkBuff} {frame : List Byte} (hlin : skb.linear <+: frame)
    (hlen : skb.len = frame.length) (h : isGetReply skb = true) : TakenForReply frame := by
  have hsz := sizes
  obtain ⟨rest, rfl⟩ := hlin
  simp only [isGetReply, Bool.and_eq_true, decide_eq_true_eq, beq_iff_eq] at h
  obtain ⟨⟨⟨⟨hmax, hlinear⟩, hproto⟩, hport⟩, hvalue⟩ := h
  have hvalue' : isValue ((skb.linear ++ rest).drop headersLen) = true := by
    rw [List.drop_append_of_le_length (by omega)]
    simp only [isValue, List.isPrefixOf_iff_prefix] at hvalue ⊢
    exact hvalue.trans (List.prefix_append _ _)
  simp only [TakenForReply, isGetReply, Bool.and_eq_true, decide_eq_true_eq, beq_iff_eq]
  refine ⟨⟨⟨⟨?_, ?_⟩, ?_⟩, ?_⟩, hvalue'⟩
  · rw [← hlen]
    exact hmax
  · rw [List.length_append]
    omega
  · rw [byteAt_append (by omega), hproto]
  · rw [be16At_append (by omega), hport]

lemma storedBlock_ne_nil {payload : List Byte} (h : payload ≠ []) : storedBlock payload ≠ [] := by
  obtain ⟨b, bs, rfl⟩ := List.exists_cons_of_ne_nil h
  obtain ⟨n, hn⟩ : ∃ n, bmcMaxCacheDataSize = n + 1 := ⟨1302, by decide⟩
  rw [storedBlock, hn, List.take_succ_cons, takeThrough]
  exact List.cons_ne_nil _ _

/-- A reply leaves nothing unchanged in a cache that is still empty. -/
lemma txFilter_changes {skb : SkBuff} (h : isGetReply skb = true) :
    (bmcTxFilterMain skb PerCpu.zeroed.stats Cache.zeroed).kcache ≠ Cache.zeroed := by
  have hpayload : SkBuff.payload skb ≠ [] := by
    have hlen : headersLen + 6 ≤ skb.linear.length := by
      simp only [isGetReply, Bool.and_eq_true, decide_eq_true_eq] at h
      exact h.1.1.1.2
    rw [SkBuff.payload, ne_eq, List.drop_eq_nil_iff]
    omega
  intro hsame
  have hslot : ((bmcTxFilterMain skb PerCpu.zeroed.stats Cache.zeroed).kcache.at
      (replyHash (SkBuff.payload skb))).block =
      [] := by
    rw [hsame]
    rfl
  have hempty : upToDate (Cache.zeroed.at (replyHash (SkBuff.payload skb))) (replyHash (SkBuff.payload skb))
      (SkBuff.payload skb) = false := rfl
  rw [txFilter_reply h, Cache.at_store, if_pos rfl, updateEntry_block hempty] at hslot
  exact storedBlock_ne_nil hpayload hslot

lemma uncached_iff (frame : List Byte) :
    (∀ skb : SkBuff, skb.linear <+: frame → skb.len = frame.length → ∀ stats c,
      (bmcTxFilterMain skb stats c).kcache = c) ↔ ¬TakenForReply frame := by
  constructor
  · intro h hreply
    exact txFilter_changes hreply (h _ (List.prefix_refl frame) rfl _ _)
  · intro h skb hlin hlen stats c
    exact txFilter_other (eq_false_of_ne_true fun hreply =>
      h (takenForReply_of_isPrefix hlin hlen hreply)) stats c

/-! ### The frames acted on -/

lemma untouched_iff (frame : List Byte) :
    (∀ env headroom cpu c, Untouched env headroom frame cpu c) ↔ ¬TakenForGet frame ∧ ¬TakenForSet frame := by
  constructor
  · intro h
    constructor
    · intro hget
      have hall := h (findsAll (keyBytes frame)) (List.replicate adjustHeadLen 0) PerCpu.zeroed Cache.zeroed
      have hrun := runXdp_outcome (findsAll (keyBytes frame))
        (List.replicate adjustHeadLen 0) frame PerCpu.zeroed
        Cache.zeroed
      have hacted := outcome_acted hget Cache.zeroed
        (show adjustHeadLen ≤ (List.replicate adjustHeadLen (0 : Byte)).length by rw [List.length_replicate])
      obtain ⟨hpass, hdata, -, -⟩ := hall
      cases hout : outcome (seen (findsAll (keyBytes frame)) Cache.zeroed)
          (List.replicate adjustHeadLen (0 : Byte)).length frame with
      | handed => exact hacted hout
      | stranded =>
        rw [hout] at hrun
        exact hrun.2 hdata
      | sent ks out =>
        rw [hout] at hrun
        exact absurd (hpass.symm.trans hrun.1) (by simp)
      | discarded =>
        rw [hout] at hrun
        exact absurd (hpass.symm.trans hrun) (by simp)
    · rintro ⟨hhdr, w, hw⟩
      obtain ⟨-, -, -, n, hcache⟩ := h Interference.quiet [] PerCpu.zeroed (hitCache [])
      have hcleared := runXdp_tcp_kcache hhdr (frame.drop (ethHlen + sizeofIphdr + sizeofTcphdr))
        [] PerCpu.zeroed
        (hitCache [])
      rw [List.take_append_drop, hcache, seen_quiet] at hcleared
      have hin : (⟨slotOf w, cacheIdx_lt _⟩ : Fin bmcCacheEntryCount) ∈
          wordSlots ((frame.drop (ethHlen + sizeofIphdr + sizeofTcphdr)).take bmcMaxPacketLength) :=
            ⟨w, hw, rfl⟩
      have hvalid : (hitCache [] ⟨slotOf w, cacheIdx_lt _⟩).valid = true := rfl
      rw [show hitCache [] = _ from hcleared, valid_clearSlots] at hvalid
      exact hvalid.2 hin
  · rintro ⟨hget, hset⟩ env headroom cpu c
    have hrun := runXdp_outcome env headroom frame cpu c
    rw [outcome_handed hget] at hrun
    exact ⟨hrun.1, hrun.2.1, hrun.2.2, runXdp_kcache hset env headroom cpu c⟩

/-- Exactly the frames are left alone that do not have, where a packet to or from memcached would have
them, the bytes the filters and the programs behind them look for. -/
theorem left_alone_iff (frame : List Byte) :
    ((∀ env headroom cpu c, Untouched env headroom frame cpu c) ∧
      ∀ skb : SkBuff, skb.linear <+: frame → skb.len = frame.length → ∀ stats c,
        (bmcTxFilterMain skb stats c).kcache = c) ↔
    ¬TakenForGet frame ∧ ¬TakenForSet frame ∧ ¬TakenForReply frame := by
  rw [untouched_iff, uncached_iff, and_assoc]

/-- An unfragmented IPv4 packet whose header has no options: the EtherType, version and length of the
header, and the flag and offset of fragments. -/
def IsPlainIpv4 (frame : List Byte) : Prop :=
  ethHlen + sizeofIphdr ≤ frame.length ∧ be16At frame 12 = 0x0800 ∧ byteAt frame ethHlen = 0x45 ∧
    be16At frame (ethHlen + 6) % 2 ^ 14 = 0

instance (frame : List Byte) : Decidable (IsPlainIpv4 frame) := inferInstanceAs (Decidable (_ ∧ _ ∧ _ ∧ _))

/-- A frame with the EtherType and the version of IPv6 that has a request in it. -/
def ipv6Request : List Byte :=
  overwrite (sampleHeaders true) 12 [0x86, 0xdd, 0x60] ++ requestLine 1 [cachedItem.key]

/-- A fragment from the middle of a packet that has a reply in it. -/
def fragmentReply : List Byte :=
  overwrite (sampleHeaders false) (ethHlen + 6) [0x20, 0xb9] ++ ascii "VALUE a 0 1\r\nx\r\nEND\r\n".toList

theorem other_frames_acted_on :
    ¬IsPlainIpv4 ipv6Request ∧
    (runXdp Interference.quiet (List.replicate 256 0) ipv6Request PerCpu.zeroed cachedItemCache).1 = .tx ∧
    ¬IsPlainIpv4 fragmentReply ∧
    ((bmcTxFilterMain ⟨fragmentReply, fragmentReply.length, Nat.le_refl _⟩ PerCpu.zeroed.stats
      Cache.zeroed).kcache.at
      (fnv1aHash32 [97])).valid = true := by
  decide +kernel

end BmcCache.Proofs
