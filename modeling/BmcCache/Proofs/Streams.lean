import BmcCache.Proofs.Invalidation
import Mathlib.Data.List.Infix

/-!
# Frames of a TCP stream

`bmc_invalidate_cache_main` starts afresh on every frame and knows no boundaries but those of the
frame. What it does to the cache is therefore one set of slots, taken from the words it reads behind
a fixed header length: this file describes that set, and what happens to it when frames are repeated
or reordered, when TCP options stand in front of the text, and when a stream is cut into segments.
-/

namespace BmcCache.Proofs

open Buffer

/-- The cache after frames have been processed one after the other, each on some CPU. -/
def invalidateAll : List (XdpMd × PerCpu) → Cache → Cache
  | [], c => c
  | (ctx, cpu) :: rest, c => invalidateAll rest (bmcInvalidateCacheMain ⟨ctx, cpu, c⟩).2.kcache

lemma invalidateAll_eq (frames : List (XdpMd × PerCpu)) (c : Cache) :
    invalidateAll frames c = clearSlots {i | ∃ f ∈ frames, i ∈ frameSlots f.1.pkt} c := by
  induction frames generalizing c with
  | nil =>
    have hempty : {i | ∃ f ∈ ([] : List (XdpMd × PerCpu)), i ∈ frameSlots f.1.pkt} = ∅ := by simp
    rw [invalidateAll, hempty, clearSlots_empty]
  | cons f frames ih =>
    obtain ⟨ctx, cpu⟩ := f
    rw [invalidateAll, ih, invalidate_kcache, clearSlots_clearSlots]
    congr 1
    ext i
    simp

/-- Frames commute and are idempotent: each of them clears the valid bits of a set of slots that its
bytes alone determine, so that only the set of frames processed counts. -/
theorem invalidations_commute (c : Cache) :
    (∀ a b : XdpMd, ∀ cpuA cpuB : PerCpu,
      invalidateAll [(a, cpuA), (b, cpuB)] c = invalidateAll [(b, cpuB), (a, cpuA)] c) ∧
    (∀ a : XdpMd, ∀ cpu cpu' : PerCpu, invalidateAll [(a, cpu), (a, cpu')] c = invalidateAll [(a, cpu)] c) ∧
    (∀ frames frames' : List (XdpMd × PerCpu),
      (∀ pkt, (∃ f ∈ frames, f.1.pkt = pkt) ↔ ∃ f ∈ frames', f.1.pkt = pkt) →
        invalidateAll frames c = invalidateAll frames' c) ∧
    ∀ a : XdpMd, ∀ cpu : PerCpu, (bmcInvalidateCacheMain ⟨a, cpu, c⟩).2.ctx = a ∧ ∀ i,
      ((bmcInvalidateCacheMain ⟨a, cpu, c⟩).2.kcache i).data = (c i).data ∧
      ((bmcInvalidateCacheMain ⟨a, cpu, c⟩).2.kcache i).len = (c i).len ∧
      ((bmcInvalidateCacheMain ⟨a, cpu, c⟩).2.kcache i).hash = (c i).hash ∧
      (((bmcInvalidateCacheMain ⟨a, cpu, c⟩).2.kcache i).valid = true ↔
        (c i).valid = true ∧ i ∉ frameSlots a.pkt) := by
  have hset : ∀ frames frames' : List (XdpMd × PerCpu),
      (∀ pkt, (∃ f ∈ frames, f.1.pkt = pkt) ↔ ∃ f ∈ frames', f.1.pkt = pkt) →
        invalidateAll frames c = invalidateAll frames' c := by
    intro frames frames' h
    rw [invalidateAll_eq, invalidateAll_eq]
    congr 1
    ext i
    constructor
    · rintro ⟨f, hf, hi⟩
      obtain ⟨f', hf', hpkt⟩ := (h f.1.pkt).mp ⟨f, hf, rfl⟩
      exact ⟨f', hf', hpkt ▸ hi⟩
    · rintro ⟨f, hf, hi⟩
      obtain ⟨f', hf', hpkt⟩ := (h f.1.pkt).mpr ⟨f, hf, rfl⟩
      exact ⟨f', hf', hpkt ▸ hi⟩
  refine ⟨?_, ?_, hset, ?_⟩
  · intro a b cpuA cpuB
    apply hset
    intro pkt
    simp only [List.mem_cons, List.not_mem_nil, or_false, exists_eq_or_imp, exists_eq_left]
    exact or_comm
  · intro a cpu cpu'
    apply hset
    intro pkt
    simp
  · intro a cpu
    refine ⟨?_, ?_⟩
    · simp only [bmcInvalidateCacheMain]
      split_ifs <;> rfl
    · intro i
      rw [invalidate_kcache]
      obtain ⟨hdata, hlen, hhash⟩ := @contents_clearSlots (frameSlots a.pkt) c i
      exact ⟨hdata, hlen, hhash, valid_clearSlots⟩

/-! ### Reading a text that is cut -/

/-- There is only one way to read a text. -/
lemma Outside.of_outside {l m m' : List Byte} (h : Outside l m) (h' : Outside l m')
    (hlen : m'.length ≤ m.length) :
    Outside m m' := by
  induction h with
  | here l => exact h'
  | next hread hout ih =>
    cases h' with
    | here =>
      have hshort := hout.length_le
      have hlt := readOn_length hread
      omega
    | next hread' hout' =>
      rw [hread, Option.some.injEq, Prod.mk.injEq] at hread'
      exact ih (hread'.2 ▸ hout') hlen

lemma readPhrase_return {spaces rest : List Byte} (x : Byte) (hsp : ∀ y ∈ spaces, y = SP) :
    readPhrase (x :: (spaces ++ CR :: rest)) = some (none, rest) := by
  have hdrop : (spaces ++ CR :: rest).dropWhile (· == SP) = CR :: rest := by
    rw [List.dropWhile_append_of_pos (by simpa using hsp)]
    rfl
  simp only [readPhrase, List.drop_one, List.tail_cons, hdrop, if_true]

lemma readPhrase_word {spaces rest ys : List Byte} {y : Byte} (x : Byte) (hsp : ∀ z ∈ spaces, z = SP)
    (hcr : y ≠ CR) (hword : SP ∉ y :: ys) :
    readPhrase (x :: (spaces ++ (y :: ys ++ SP :: rest))) = some (some (y :: ys), rest) := by
  have hy : y ≠ SP := fun h => hword (h ▸ List.mem_cons_self)
  have hall : ∀ z ∈ y :: ys, (z != SP) = true := by
    intro z hz
    have hne : z ≠ SP := fun h => hword (h ▸ hz)
    simpa using hne
  have hdrop : (spaces ++ (y :: ys ++ SP :: rest)).dropWhile (· == SP) = y :: (ys ++ SP :: rest) := by
    rw [List.dropWhile_append_of_pos (by simpa using hsp), List.cons_append,
      List.dropWhile_cons_of_neg (by simpa using hy)]
  have hbehind : (y :: (ys ++ SP :: rest)).dropWhile (· != SP) = SP :: rest := by
    rw [← List.cons_append, List.dropWhile_append_of_pos hall]
    simp
  have htake : (y :: (ys ++ SP :: rest)).takeWhile (· != SP) = y :: ys := by
    rw [← List.cons_append, List.takeWhile_append_of_pos hall]
    simp
  simp only [readPhrase, List.drop_one, List.tail_cons, hdrop, hcr, if_false, hbehind, htake]

lemma readOn_setText (r : List Byte) : readOn (setText ++ r) = readPhrase r := by
  simp [readOn, setText, ascii]

section Cut

variable {a b a' r : List Byte} {w : Option (List Byte)}

/-- A phrase that ends in front of `b` does not depend on `b`. -/
lemma readPhrase_of_append (h : readPhrase r = some (w, a' ++ b)) :
    ∃ r', r = r' ++ b ∧ readPhrase r' = some (w, a') := by
  obtain ⟨x, spaces, body, rfl, hsp, hbody⟩ := readPhrase_eq_some h
  rcases hbody with ⟨rfl, rfl⟩ | ⟨y, ys, rfl, hcr, hword, rfl⟩
  · exact ⟨x :: (spaces ++ CR :: a'), by simp, readPhrase_return x hsp⟩
  · exact ⟨x :: (spaces ++ (y :: ys ++ SP :: a')), by simp, readPhrase_word x hsp hcr hword⟩

lemma readOn_of_append (ha : a ≠ []) (h : readOn (a ++ b) = some (w, a' ++ b)) : readOn a = some (w, a') := by
  by_cases hset : setText <+: a ++ b
  · obtain ⟨r, hr⟩ := hset
    rw [← hr, readOn_setText] at h
    obtain ⟨r', rfl, hphrase⟩ := readPhrase_of_append h
    rw [← List.append_assoc] at hr
    rw [← List.append_cancel_right hr, readOn_setText, hphrase]
  · cases a with
    | nil => exact absurd rfl ha
    | cons c cs =>
      have hset' : ¬setText <+: c :: cs := fun hp => hset (hp.trans (List.prefix_append _ _))
      rw [List.cons_append] at hset
      rw [← List.isPrefixOf_iff_prefix] at hset hset'
      rw [List.cons_append, readOn, if_neg hset, Option.some.injEq, Prod.mk.injEq] at h
      rw [readOn, if_neg hset', h.1, List.append_cancel_right h.2]

lemma readOn_isSuffix {l rest : List Byte} (h : readOn l = some (w, rest)) : rest <:+ l := by
  cases l with
  | nil => simp [readOn] at h
  | cons c cs =>
    rw [readOn] at h
    split_ifs at h
    · have hdrop : cs.drop 2 <:+ c :: cs := (List.drop_suffix 2 cs).trans (List.suffix_cons c cs)
      obtain ⟨x, spaces, body, hcs, -, hbody⟩ := readPhrase_eq_some h
      rw [hcs] at hdrop
      refine List.IsSuffix.trans ?_ hdrop
      rcases hbody with ⟨-, rfl⟩ | ⟨y, ys, -, -, -, rfl⟩
      · exact ⟨x :: (spaces ++ [CR]), by simp⟩
      · exact ⟨x :: (spaces ++ (y :: ys ++ [SP])), by simp⟩
    · rw [Option.some.injEq, Prod.mk.injEq] at h
      rw [← h.2]
      exact List.suffix_cons c cs

/-- When no phrase goes over a cut, every word is read on one side of it. -/
lemma readsWord_of_append {word : List Byte} (hout : Outside (a ++ b) b) (h : ReadsWord (a ++ b) word) :
    ReadsWord a word ∨ ReadsWord b word := by
  induction hn : a.length using Nat.strong_induction_on generalizing a with
  | _ n ih =>
    by_cases ha : a = []
    · rw [ha, List.nil_append] at h
      exact Or.inr h
    · generalize htext : a ++ b = l at hout
      cases hout with
      | here =>
        have hlen := congrArg List.length htext
        rw [List.length_append] at hlen
        have hpos := List.length_pos_iff.mpr ha
        omega
      | next hread hout =>
        rename_i rest w'
        rw [← htext] at hread
        have hb : b <:+ rest :=
          List.suffix_of_suffix_length_le (List.suffix_append a b) (readOn_isSuffix hread) hout.length_le
        obtain ⟨a', rfl⟩ := hb
        have hread' := readOn_of_append ha hread
        have hlen : a'.length < n := hn ▸ readOn_length hread'
        obtain ⟨w'', rest', hagain, hword⟩ := (readsWord_iff _ _).mp h
        rw [hread, Option.some.injEq, Prod.mk.injEq] at hagain
        obtain ⟨rfl, rfl⟩ := hagain
        rcases hword with hword | hword
        · exact Or.inl ((readsWord_iff _ _).mpr ⟨w', a', hread', Or.inl hword⟩)
        · rcases ih a'.length hlen hout hword rfl with hleft | hright
          · exact Or.inl ((readsWord_iff _ _).mpr ⟨w', a', hread', Or.inr hleft⟩)
          · exact Or.inr hright

end Cut

/-- No cut of the stream falls between a `set` text and the end of its phrase. -/
def CutsOutside (segs : List (List Byte)) : Prop :=
  ∀ before after, after ≠ [] → segs = before ++ after → Outside segs.flatten after.flatten

lemma CutsOutside.tail {seg : List Byte} {segs : List (List Byte)} (h : CutsOutside (seg :: segs)) :
    CutsOutside segs := by
  intro before after hne hsplit
  have hfirst : Outside (seg :: segs).flatten segs.flatten := by
    refine h [seg] segs ?_ rfl
    rw [hsplit]
    exact List.append_ne_nil_of_right_ne_nil before hne
  have hcut : Outside (seg :: segs).flatten after.flatten := h (seg :: before) after hne (by rw [hsplit]; rfl)
  refine hfirst.of_outside hcut ?_
  rw [hsplit, List.flatten_append, List.length_append]
  omega

lemma readsWord_of_cutsOutside {segs : List (List Byte)} {w : List Byte} (h : CutsOutside segs)
    (hw : ReadsWord segs.flatten w) : ∃ seg ∈ segs, ReadsWord seg w := by
  induction segs with
  | nil =>
    rw [List.flatten_nil, readsWord_iff] at hw
    simp [readOn] at hw
  | cons seg segs ih =>
    by_cases hlast : segs = []
    · rw [hlast, List.flatten_singleton] at hw
      exact ⟨seg, List.mem_cons_self, hw⟩
    · rcases readsWord_of_append (h [seg] segs hlast rfl) hw with hseg | hrest
      · exact ⟨seg, List.mem_cons_self, hseg⟩
      · obtain ⟨seg', hmem, hseg'⟩ := ih h.tail hrest
        exact ⟨seg', List.mem_cons_of_mem _ hmem, hseg'⟩

/-! ### Segments -/

/-- The frames carry the segments one by one. -/
def Carries (frames : List (XdpMd × PerCpu)) (segs : List (List Byte)) : Prop :=
  List.Forall₂ (fun f seg => ∃ hdr, IsTcpHeader hdr ∧ f.1.pkt = hdr ++ seg) frames segs

lemma frameSlots_segment {hdr text : List Byte} (hhdr : IsTcpHeader hdr)
    (hlen : text.length ≤ bmcMaxPacketLength) :
    frameSlots (hdr ++ text) = wordSlots text := by
  rw [frameSlots_append hhdr, List.take_of_length_le hlen]

lemma exists_frameSlots_iff {frames : List (XdpMd × PerCpu)} {segs : List (List Byte)}
    (h : Carries frames segs) (hlen : segs.flatten.length ≤ bmcMaxPacketLength) (i : Fin bmcCacheEntryCount) :
    (∃ f ∈ frames, i ∈ frameSlots f.1.pkt) ↔ ∃ seg ∈ segs, i ∈ wordSlots seg := by
  induction h with
  | nil => simp
  | cons hfirst _ ih =>
    rename_i f seg frames segs _
    obtain ⟨hdr, hhdr, hpkt⟩ := hfirst
    rw [List.flatten_cons, List.length_append] at hlen
    simp only [List.mem_cons, exists_eq_or_imp]
    rw [ih (by omega), hpkt, frameSlots_segment hhdr (by omega)]

/-- The segments of a stream invalidate what the stream does exactly when each slot that is valid
before and gets a word of the stream gets a word of a segment; so it is when no cut falls inside a
phrase. -/
theorem cut_stream_invalidates_iff {segs : List (List Byte)} (hlen : segs.flatten.length ≤ 1460)
    {frames : List (XdpMd × PerCpu)} (hframes : Carries frames segs) {whole : XdpMd × PerCpu}
    (hwhole : Carries [whole] [segs.flatten]) (c : Cache) :
    ((∀ i, (c i).valid = true → (invalidateAll [whole] c i).valid = false →
        (invalidateAll frames c i).valid = false) ↔
      ∀ i, (c i).valid = true → i ∈ wordSlots segs.flatten → ∃ seg ∈ segs, i ∈ wordSlots seg) ∧
    (CutsOutside segs → ∀ i, (invalidateAll [whole] c i).valid = false →
      (invalidateAll frames c i).valid = false) := by
  have hmax : segs.flatten.length ≤ bmcMaxPacketLength := le_trans hlen (by decide)
  have hone : [segs.flatten].flatten.length ≤ bmcMaxPacketLength := by
    rw [List.flatten_singleton]
    exact hmax
  have hsegs : ∀ i, (invalidateAll frames c i).valid = false ↔
      (c i).valid = false ∨ ∃ seg ∈ segs, i ∈ wordSlots seg := by
    intro i
    rw [← Bool.not_eq_true, invalidateAll_eq, valid_clearSlots, Set.mem_ofPred_eq,
      exists_frameSlots_iff hframes hmax, not_and_or, Bool.not_eq_true, not_not]
  have hstream : ∀ i, (invalidateAll [whole] c i).valid = false ↔
      (c i).valid = false ∨ i ∈ wordSlots segs.flatten := by
    intro i
    rw [← Bool.not_eq_true, invalidateAll_eq, valid_clearSlots, Set.mem_ofPred_eq,
      exists_frameSlots_iff hwhole hone, not_and_or, Bool.not_eq_true, not_not]
    simp only [List.mem_singleton, exists_eq_left]
  simp only [hsegs, hstream]
  refine ⟨?_, ?_⟩
  · constructor
    · intro h i hvalid hi
      rcases h i hvalid (Or.inr hi) with hinvalid | hseg
      · rw [hvalid] at hinvalid
        exact absurd hinvalid.symm Bool.false_ne_true
      · exact hseg
    · intro h i hvalid hor
      rcases hor with hinvalid | hi
      · exact Or.inl hinvalid
      · exact Or.inr (h i hvalid hi)
  · intro hcuts i hor
    rcases hor with hinvalid | ⟨w, hw, hslot⟩
    · exact Or.inl hinvalid
    · obtain ⟨seg, hmem, hseg⟩ := readsWord_of_cutsOutside hcuts hw
      exact Or.inr ⟨seg, hmem, w, hseg, hslot⟩

def sampleSegment (text : List Byte) : XdpMd × PerCpu :=
  (received (List.replicate 256 0) (sampleTcpHeaders ++ text), PerCpu.zeroed)

lemma carries_sampleSegments (segs : List (List Byte)) : Carries (segs.map sampleSegment) segs := by
  induction segs with
  | nil => exact List.Forall₂.nil
  | cons seg segs ih =>
    exact List.Forall₂.cons ⟨sampleTcpHeaders, sampleTcpHeaders_isTcpHeader, received_pkt _ _⟩ ih

/-- A `set` of `b`, cut inside the keyword. -/
def cutSet : List (List Byte) := [ascii ['s', 'e'], ascii "t b 0 0 1\r\nx\r\n".toList]

theorem cut_set_not_noticed :
    cutSet.flatten = (sampleSet ['b'] ['x']).bytes ∧ Carries (cutSet.map sampleSegment) cutSet ∧
      ∃ i, (cacheAfterReply "VALUE b 0 1\r\ny\r\nEND\r\n".toList i).valid = true ∧
        (invalidateAll [sampleSegment cutSet.flatten] (cacheAfterReply "VALUE b 0 1\r\ny\r\nEND\r\n".toList)
          i).valid = false ∧
        (invalidateAll (cutSet.map sampleSegment) (cacheAfterReply "VALUE b 0 1\r\ny\r\nEND\r\n".toList)
          i).valid = true := by
  refine ⟨by decide +kernel, carries_sampleSegments _, ⟨slotOf (ascii ['b']), by decide +kernel⟩, ?_, ?_, ?_⟩
  · decide +kernel
  · decide +kernel
  · decide +kernel

theorem set_cut_behind_key_noticed :
    (invalidateAll ([ascii "set b ".toList, ascii "0 0 1\r\nx\r\n".toList].map sampleSegment)
      (cacheAfterReply "VALUE b 0 1\r\ny\r\nEND\r\n".toList)
        ⟨slotOf (ascii ['b']), by decide +kernel⟩).valid = false := by
  have hcuts : CutsOutside [ascii "set b ".toList, ascii "0 0 1\r\nx\r\n".toList] := by
    intro before after hne hsplit
    match before with
    | [] =>
      rw [hsplit]
      exact .here _
    | [first] =>
      obtain ⟨rfl, rfl⟩ : ascii "set b ".toList = first ∧ [ascii "0 0 1\r\nx\r\n".toList] = after := by
        simpa using hsplit
      exact .next (w := some (ascii ['b'])) (by decide +kernel) (.here _)
    | first :: second :: before =>
      simp only [List.cons_append, List.cons.injEq, List.nil_eq, List.append_eq_nil_iff] at hsplit
      exact absurd hsplit.2.2.2 hne
  refine (cut_stream_invalidates_iff ?_ (carries_sampleSegments _)
    (carries_sampleSegments [_]) _).2 hcuts _ ?_
  · decide +kernel
  · decide +kernel

/-! ### TCP options -/

/-- No `set` text starts in the bytes `o` in front of `p`. -/
def NoSetIn (o p : List Byte) : Prop := ∀ l, l ≠ [] → l <:+ o → ¬setText <+: l ++ p

lemma readsWord_behind {o p : List Byte} (h : NoSetIn o p) (w : List Byte) : ReadsWord (o ++ p) w ↔
    ReadsWord p w := by
  induction o with
  | nil => rfl
  | cons x o ih =>
    have hplain : ¬setText.isPrefixOf (x :: (o ++ p)) = true := by
      rw [List.isPrefixOf_iff_prefix]
      exact h (x :: o) (List.cons_ne_nil x o) (List.suffix_refl _)
    have hread : readOn (x :: o ++ p) = some (none, o ++ p) := by
      rw [List.cons_append, readOn, if_neg hplain]
    have htail : NoSetIn o p := fun l hne hl => h l hne (hl.trans (List.suffix_cons x o))
    rw [readsWord_iff, hread, ← ih htail]
    simp

/-- Options leave the effect of a segment as it is exactly when the slots that are valid before get a
word of options and payload together when they get one of the payload; so it is when no `set` text
starts in the options and the segment is not too long. -/
theorem options_ignored_iff {hdr hdr' : List Byte} (hhdr : IsTcpHeader hdr) (hhdr' : IsTcpHeader hdr')
    (o p headroom headroom' : List Byte) (cpu cpu' : PerCpu) (c : Cache) :
    ((runXdp Interference.quiet headroom (hdr ++ (o ++ p)) cpu c).2.kcache =
        (runXdp Interference.quiet headroom' (hdr' ++ p) cpu' c).2.kcache ↔
      ∀ i, (c i).valid = true → (i ∈ wordSlots ((o ++ p).take bmcMaxPacketLength) ↔
        i ∈ wordSlots (p.take bmcMaxPacketLength))) ∧
    (NoSetIn o p → (o ++ p).length ≤ bmcMaxPacketLength →
      (runXdp Interference.quiet headroom (hdr ++ (o ++ p)) cpu c).2.kcache =
        (runXdp Interference.quiet headroom' (hdr' ++ p) cpu' c).2.kcache) := by
  rw [runXdp_tcp_kcache hhdr, runXdp_tcp_kcache hhdr']
  refine ⟨clearSlots_eq_iff, ?_⟩
  intro hno hlen
  have hp : p.length ≤ bmcMaxPacketLength := by
    rw [List.length_append] at hlen
    omega
  have hslots : wordSlots (o ++ p) = wordSlots p := by
    ext i
    exact exists_congr fun w => and_congr_left fun _ => readsWord_behind hno w
  rw [List.take_of_length_le hlen, List.take_of_length_le hp, hslots]

/-- The header of a segment with twelve bytes of options, and the options: a timestamp. -/
def optionHeaders : List Byte := overwrite sampleTcpHeaders (ethHlen + sizeofIphdr + 12) [128]

def timestamp (value : List Byte) : List Byte := [1, 1, 8, 10] ++ value ++ [0, 0, 0, 5]

/-- The time reads `set ` here, and hides the `set` of the payload. -/
theorem timestamp_hides_set :
    IsTcpHeader optionHeaders ∧ (byteAt optionHeaders 46).toNat / 16 * 4 =
      sizeofTcphdr + (timestamp (ascii ['s', 'e', 't', ' '])).length ∧
    ((runXdp Interference.quiet (List.replicate 256 0)
      (optionHeaders ++ (timestamp (ascii ['s', 'e', 't', ' ']) ++
      (sampleSet ['b'] ['x']).bytes)) PerCpu.zeroed
        (cacheAfterReply "VALUE b 0 1\r\ny\r\nEND\r\n".toList)).2.kcache.at
        (fnv1aHash32 (ascii ['b']))).valid = true ∧
    ((runXdp Interference.quiet (List.replicate 256 0)
      (sampleTcpHeaders ++ (sampleSet ['b'] ['x']).bytes) PerCpu.zeroed
        (cacheAfterReply "VALUE b 0 1\r\ny\r\nEND\r\n".toList)).2.kcache.at
        (fnv1aHash32 (ascii ['b']))).valid =
          false := by
  refine ⟨⟨?_, ?_, ?_⟩, ?_, ?_, ?_⟩
  all_goals decide +kernel

theorem timestamp_ignored :
    (runXdp Interference.quiet (List.replicate 256 0) (optionHeaders ++ (timestamp [0, 0, 1, 2] ++
      (sampleSet ['b'] ['x']).bytes)) PerCpu.zeroed
        (cacheAfterReply "VALUE b 0 1\r\ny\r\nEND\r\n".toList)).2.kcache =
    (runXdp Interference.quiet (List.replicate 256 0)
      (sampleTcpHeaders ++ (sampleSet ['b'] ['x']).bytes) PerCpu.zeroed
        (cacheAfterReply "VALUE b 0 1\r\ny\r\nEND\r\n".toList)).2.kcache := by
  have hhdr : IsTcpHeader optionHeaders := ⟨by decide +kernel, by decide +kernel, by decide +kernel⟩
  have htails : ∀ l ∈ (timestamp [0, 0, 1, 2]).tails, l ≠ [] →
      setText.isPrefixOf (l ++ (sampleSet ['b'] ['x']).bytes) = false := by decide +kernel
  refine (options_ignored_iff hhdr sampleTcpHeaders_isTcpHeader _ _ _ _ _ _ _).2 ?_ (by decide +kernel)
  intro l hne hl hpre
  have hno := htails l ((List.mem_tails _ _).mpr hl) hne
  rw [List.isPrefixOf_iff_prefix.mpr hpre] at hno
  exact absurd hno.symm Bool.false_ne_true

end BmcCache.Proofs
