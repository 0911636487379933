import BmcCache.Proofs.CopyLoops
import Mathlib.Data.List.TakeWhile
import Mathlib.Tactic.Ring

/-!
# The request parser

`bmc_hash_keys_main` walks over the request by moving the packet start and calling itself
again. `examine` is that walk on the bytes alone: the words of the request, the keys that
looked cached when they were examined, and how the walk ends. The chain of programs is
shown to follow it.
-/

namespace BmcCache.Proofs

open Buffer

/-! ### One word of the request -/

def isKeyByte (c : Byte) : Bool := c != CR && c != SP

/-- The word the hash loop reads at the packet start. -/
def keyWord (body : List Byte) : List Byte := (body.take (bmcMaxKeyLength + 1)).takeWhile isKeyByte

lemma hashLoop_spec (n : ℕ) (body : List Byte) (hash : UInt32) (off keyLen : ℕ) :
    hashLoop n body ⟨hash, off, keyLen, false⟩ =
      ⟨((body.take n).takeWhile isKeyByte).foldl fnvStep hash,
        off + ((body.take n).takeWhile isKeyByte).length,
        keyLen + ((body.take n).takeWhile isKeyByte).length,
        decide (((body.take n).takeWhile isKeyByte).length < n ∧
          body[((body.take n).takeWhile isKeyByte).length]? = some CR)⟩ := by
  induction n generalizing body hash off keyLen with
  | zero => simp [hashLoop]
  | succ n ih =>
    cases body with
    | nil => simp [hashLoop]
    | cons c cs =>
      by_cases hcr : c = CR
      · simp [hashLoop, hcr, isKeyByte]
      · by_cases hsp : c = SP
        · simp [hashLoop, hsp, isKeyByte]
        · have hkey : isKeyByte c = true := by simp [isKeyByte, hcr, hsp]
          rw [hashLoop, if_neg hcr, if_neg hsp, ih]
          simp [hkey, Nat.add_assoc, Nat.add_comm 1]

lemma keyWord_isPrefix (body : List Byte) : keyWord body <+: body :=
  (List.takeWhile_prefix _).trans (List.take_prefix _ _)

lemma take_keyWord (body : List Byte) : body.take (keyWord body).length = keyWord body :=
  (List.prefix_iff_eq_take.mp (keyWord_isPrefix body)).symm

lemma isKeyByte_of_mem_keyWord {body : List Byte} {c : Byte} (h : c ∈ keyWord body) :
    isKeyByte c = true :=
  List.mem_takeWhile_imp h

/-! ### The walk on the bytes -/

def looksCached (c : Cache) (key : List Byte) : Bool :=
  (c.at (fnv1aHash32 key)).valid && (c.at (fnv1aHash32 key)).hash == fnv1aHash32 key

def savedNext (c : Cache) (saved : List (List Byte)) (w : List Byte) : List (List Byte) :=
  if looksCached c w then saved ++ [w] else saved

inductive WalkStep
  /-- `XDP_PASS` with the packet start left at the word. -/
  | strand
  /-- `XDP_PASS` with the packet start moved back to the Ethernet header. -/
  | handBack
  /-- The last word has been read and some keys are saved. -/
  | prepare (saved : List (List Byte))
  /-- The next word starts after `n` more bytes. -/
  | next (saved : List (List Byte)) (n : ℕ)
  deriving DecidableEq, Repr

/-- The word at the head of `body`, when the keys `saved` have been saved. -/
def walkStep (c : Cache) (saved : List (List Byte)) (body : List Byte) : WalkStep :=
  let w := keyWord body
  if bmcMaxKeyInPacket ≤ saved.length then .strand
  else if w.length = 0 ∨ w.length > bmcMaxKeyLength then .handBack
  else if body[w.length]? = some CR then
    if savedNext c saved w = [] then .handBack else .prepare (savedNext c saved w)
  else if body.length < w.length + 1 + ethHlen then .strand
  else .next (savedNext c saved w) (w.length + 1)

inductive WalkEnd
  | stranded
  | handedBack
  | prepared (saved : List (List Byte)) (left t : ℕ)
  deriving DecidableEq, Repr

/-- The walk from the word at the head of `body`, with `left` tail calls allowed. Program
number `t` sees the cache `obs t`. -/
def examine (obs : ℕ → Cache) : ℕ → ℕ → List (List Byte) → List Byte → WalkEnd
  | left, t, saved, body =>
    match walkStep (obs t) saved body with
    | .strand => .stranded
    | .handBack => .handedBack
    | .prepare saved =>
      match left with
      | 0 => .handedBack
      | left + 1 => .prepared saved left (t + 1)
    | .next saved n =>
      match left with
      | 0 => .stranded
      | left + 1 => examine obs left (t + 1) saved (body.drop n)

/-! ### The saved keys -/

/-- The slot of `map_keys` holds the key `k`. -/
structure HoldsKey (key : MemcachedKey) (k : List Byte) : Prop where
  hash : key.hash = fnv1aHash32 k
  len : key.len = k.length
  pos : 0 < k.length
  le : k.length ≤ bmcMaxKeyLength
  data : key.data.toList.take k.length = k
  bytes : ∀ c ∈ k, isKeyByte c = true

/-- `map_keys[0..key_count)` holds the keys `ks`. -/
structure Saved (cpu : PerCpu) (ks : List (List Byte)) : Prop where
  count : cpu.pctx.keyCount = ks.length
  le : ks.length ≤ bmcMaxKeyInPacket
  holds : ∀ i k, ks[i]? = some k → ∃ key, cpu.lookupKey i = some key ∧ HoldsKey key k

lemma lookupKey_storeKey {cpu : PerCpu} {i j : ℕ} (key : MemcachedKey) (h : i ≠ j) :
    (cpu.storeKey j key).lookupKey i = cpu.lookupKey i := by
  simp [PerCpu.lookupKey, PerCpu.storeKey, h]

lemma lookupKey_storeKey_self {cpu : PerCpu} {i : ℕ} (key : MemcachedKey) (h : i < bmcMaxKeyInPacket) :
    (cpu.storeKey i key).lookupKey i = some key := by
  simp [PerCpu.lookupKey, PerCpu.storeKey, h]

lemma Saved.of_keys_eq {cpu cpu' : PerCpu} {ks : List (List Byte)} (h : Saved cpu ks)
    (hcount : cpu'.pctx.keyCount = cpu.pctx.keyCount)
    (hkeys : ∀ i, i < ks.length → cpu'.lookupKey i = cpu.lookupKey i) : Saved cpu' ks := by
  refine ⟨hcount.trans h.count, h.le, ?_⟩
  intro i k hi
  rw [hkeys i (List.getElem?_eq_some_iff.mp hi).1]
  exact h.holds i k hi

lemma Saved.snoc {cpu cpu' : PerCpu} {ks : List (List Byte)} {k : List Byte} (key : MemcachedKey)
    (h : Saved cpu ks) (hlt : ks.length < bmcMaxKeyInPacket)
    (hcount : cpu'.pctx.keyCount = cpu.pctx.keyCount + 1)
    (hkeys : ∀ i, i < ks.length → cpu'.lookupKey i = cpu.lookupKey i)
    (hkey : cpu'.lookupKey ks.length = some key) (hk : HoldsKey key k) : Saved cpu' (ks ++ [k]) := by
  refine ⟨by simp [hcount, h.count], by simp; omega, ?_⟩
  intro i k' hi
  rcases Nat.lt_or_ge i ks.length with hlen | hlen
  · rw [List.getElem?_append_left hlen] at hi
    rw [hkeys i hlen]
    exact h.holds i k' hi
  · rw [List.getElem?_append_right hlen] at hi
    have hi0 := (List.getElem?_eq_some_iff.mp hi).1
    have heq : i = ks.length := by simp at hi0; omega
    subst heq
    simp only [Nat.sub_self, List.getElem?_cons_zero, Option.some.injEq] at hi
    exact ⟨key, hkey, hi ▸ hk⟩

/-! ### One program of the walk -/

lemma saveOrMiss_saved {cpu : PerCpu} {ks : List (List Byte)} (key : MemcachedKey) {c : Cache}
    {body w : List Byte} (hs : Saved cpu ks) (hlt : ks.length < bmcMaxKeyInPacket)
    (hw : body.take w.length = w) (hpos : 0 < w.length) (hle : w.length ≤ bmcMaxKeyLength)
    (hbytes : ∀ b ∈ w, isKeyByte b = true) (hhash : key.hash = fnv1aHash32 w) :
    Saved (saveOrMiss cpu key (c.at key.hash) body w.length) (savedNext c ks w) := by
  have hbody : w.length ≤ body.length := by
    have hlen := congrArg List.length hw
    rw [List.length_take] at hlen
    omega
  rw [savedNext, looksCached, ← hhash]
  by_cases hhit : (c.at key.hash).valid = true ∧ (c.at key.hash).hash = key.hash
  · rw [saveOrMiss, if_pos hhit, if_pos (by simp [hhit])]
    refine Saved.snoc ⟨key.hash, copyKeyLoop w.length body 0 key.data, w.length⟩ hs hlt rfl
      (fun i hi => lookupKey_storeKey _ (by have := hs.count; omega)) ?_
      ⟨hhash, rfl, hpos, hle, ?_, hbytes⟩
    · rw [← hs.count]
      exact lookupKey_storeKey_self _ (by have := hs.count; omega)
    · exact (copyKeyLoop_take body w.length key.data hle hbody).trans hw
  · rw [saveOrMiss, if_neg hhit, if_neg (by simpa using hhit)]
    exact hs.of_keys_eq rfl (fun _ _ => rfl)

lemma saveOrMiss_pctx (cpu : PerCpu) (key : MemcachedKey) (entry : BmcCacheEntry) (body : List Byte)
    (n : ℕ) :
    (saveOrMiss cpu key entry body n).pctx.readPktOffset = cpu.pctx.readPktOffset ∧
    (saveOrMiss cpu key entry body n).pctx.currentKey = cpu.pctx.currentKey ∧
    (saveOrMiss cpu key entry body n).pctx.writePktOffset = cpu.pctx.writePktOffset := by
  unfold saveOrMiss
  split <;> exact ⟨rfl, rfl, rfl⟩

/-- The state in which `bmc_hash_keys_main` reads the key at offset `r` of the payload. -/
structure AtKey (s : XdpState) (mem : List Byte) (h r : ℕ) (ks : List (List Byte)) : Prop where
  ctx : s.ctx = ⟨mem, h + headersLen + r⟩
  offset : s.cpu.pctx.readPktOffset = r
  room : h + headersLen + r + ethHlen ≤ mem.length
  saved : Saved s.cpu ks
  currentKey : s.cpu.pctx.currentKey = 0
  writePktOffset : s.cpu.pctx.writePktOffset = 0

/-- The state after the last key: the packet is as received and the keys `ks` are saved. -/
structure Parsed (s : XdpState) (mem : List Byte) (h : ℕ) (ks : List (List Byte)) : Prop where
  ctx : s.ctx = ⟨mem, h⟩
  saved : Saved s.cpu ks
  currentKey : s.cpu.pctx.currentKey = 0
  writePktOffset : s.cpu.pctx.writePktOffset = 0

lemma tryAdjustHead_back {mem : List Byte} {h r : ℕ} {pctx : ParsingContext}
    (hr : pctx.readPktOffset = r) (hroom : h + headersLen + r + ethHlen ≤ mem.length) :
    (⟨mem, h + headersLen + r⟩ : XdpMd).tryAdjustHead (headersBack pctx) = ⟨mem, h⟩ := by
  have hdata : ((h + headersLen + r : ℕ) : ℤ) + headersBack pctx = h := by
    rw [headersBack, hr]
    omega
  rw [XdpMd.tryAdjustHead, XdpMd.adjustHead]
  simp only [hdata]
  rw [if_pos (by omega)]
  simp

lemma adjustHead_forward {mem : List Byte} {data n : ℕ} :
    (⟨mem, data⟩ : XdpMd).adjustHead (n : ℕ) =
      if data + n + ethHlen ≤ mem.length then some ⟨mem, data + n⟩ else none := by
  have hsz := sizes
  simp only [XdpMd.adjustHead]
  by_cases hc : data + n + ethHlen ≤ mem.length
  · rw [if_pos hc, if_pos (by omega)]
    congr 2
  · rw [if_neg hc, if_neg (by omega)]

section OneKey

variable {s : XdpState} {mem : List Byte} {h r : ℕ} {ks : List (List Byte)}

lemma AtKey.pkt_eq (hs : AtKey s mem h r ks) : s.ctx.pkt = mem.drop (h + headersLen + r) := by
  rw [hs.ctx]
  rfl

lemma AtKey.pkt_pos (hs : AtKey s mem h r ks) : s.ctx.pkt.length ≠ 0 := by
  have hsz := sizes
  have hroom := hs.room
  rw [pkt_length, hs.ctx]
  simp only
  omega

lemma hashKeys_full (hs : AtKey s mem h r ks) (hfull : bmcMaxKeyInPacket ≤ ks.length) :
    bmcHashKeysMain s = (.ret .pass, s) := by
  have hnone : s.cpu.lookupKey s.cpu.pctx.keyCount = none :=
    PerCpu.lookupKey_eq_none.mpr (by rw [hs.saved.count]; exact hfull)
  simp only [bmcHashKeysMain, hs.pkt_pos, if_false, hnone]

def wordVars (body : List Byte) : HashVars :=
  ⟨fnv1aHash32 (keyWord body), (keyWord body).length, (keyWord body).length,
    decide ((keyWord body).length < bmcMaxKeyLength + 1 ∧ body[(keyWord body).length]? = some CR)⟩

lemma hashLoop_word (body : List Byte) :
    hashLoop (bmcMaxKeyLength + 1) body ⟨fnvOffsetBasis32, 0, 0, false⟩ = wordVars body := by
  simp only [hashLoop_spec, Nat.zero_add]
  rfl

lemma hashKeys_badKey (hs : AtKey s mem h r ks) (hlt : ks.length < bmcMaxKeyInPacket)
    (hw : (keyWord s.ctx.pkt).length = 0 ∨ (keyWord s.ctx.pkt).length > bmcMaxKeyLength) :
    ∃ s', bmcHashKeysMain s = (.ret .pass, s') ∧ s'.ctx = ⟨mem, h⟩ ∧ s'.kcache = s.kcache := by
  have hkey := PerCpu.lookupKey_of_lt s.cpu
    (show s.cpu.pctx.keyCount < bmcMaxKeyInPacket by rw [hs.saved.count]; exact hlt)
  simp only [bmcHashKeysMain, hs.pkt_pos, if_false, hkey, hashLoop_word]
  rw [if_pos (by simpa only [wordVars] using hw)]
  refine ⟨_, rfl, ?_, rfl⟩
  simp only [hs.ctx]
  exact tryAdjustHead_back hs.offset hs.room

lemma hashKeys_goodKey (hs : AtKey s mem h r ks) (hlt : ks.length < bmcMaxKeyInPacket)
    (hpos : 0 < (keyWord s.ctx.pkt).length) (hle : (keyWord s.ctx.pkt).length ≤ bmcMaxKeyLength) :
    ∃ s', bmcHashKeysMain s = nextKey s' (wordVars s.ctx.pkt) ∧
      AtKey s' mem h r (savedNext s.kcache ks (keyWord s.ctx.pkt)) ∧ s'.kcache = s.kcache := by
  have hkey := PerCpu.lookupKey_of_lt s.cpu
    (show s.cpu.pctx.keyCount < bmcMaxKeyInPacket by rw [hs.saved.count]; exact hlt)
  have hbad : ¬((wordVars s.ctx.pkt).keyLen = 0 ∨ (wordVars s.ctx.pkt).keyLen > bmcMaxKeyLength) := by
    simp only [wordVars]
    omega
  simp only [bmcHashKeysMain, hs.pkt_pos, if_false, hkey, hashLoop_word, hbad,
    Cache.lookupElem_cacheIdx]
  have hstored (key : MemcachedKey) : Saved (s.cpu.storeKey s.cpu.pctx.keyCount key) ks :=
    hs.saved.of_keys_eq rfl (fun i hi => lookupKey_storeKey _ (by rw [hs.saved.count]; omega))
  refine ⟨_, rfl, ⟨hs.ctx, ?_, hs.room, ?_, ?_, ?_⟩, rfl⟩
  · exact (saveOrMiss_pctx _ _ _ _ _).1.trans hs.offset
  · exact saveOrMiss_saved ⟨fnv1aHash32 (keyWord s.ctx.pkt), _, _⟩ (hstored _) hlt (take_keyWord _) hpos hle
      (fun b hb => isKeyByte_of_mem_keyWord hb) rfl
  · exact (saveOrMiss_pctx _ _ _ _ _).2.1.trans hs.currentKey
  · exact (saveOrMiss_pctx _ _ _ _ _).2.2.trans hs.writePktOffset

lemma nextKey_done (hs : AtKey s mem h r ks) {v : HashVars} (hv : v.doneParsing = true) :
    ∃ s', nextKey s v = (if ks = [] then .ret .pass else .tailCall .preparePacket .pass, s') ∧
      Parsed s' mem h ks ∧ s'.kcache = s.kcache := by
  have hctx : s.ctx.tryAdjustHead (headersBack s.cpu.pctx) = ⟨mem, h⟩ := by
    rw [hs.ctx]
    exact tryAdjustHead_back hs.offset hs.room
  refine ⟨{ s with ctx := ⟨mem, h⟩ }, ?_, ⟨rfl, hs.saved, hs.currentKey, hs.writePktOffset⟩, rfl⟩
  simp only [nextKey, hv, if_true, hctx, hs.saved.count]
  by_cases hnil : ks = []
  · simp [hnil]
  · have hpos : 0 < ks.length := List.length_pos_iff.mpr hnil
    rw [if_pos hpos, if_neg hnil]

lemma nextKey_more (hs : AtKey s mem h r ks) {v : HashVars} (hv : v.doneParsing = false)
    (hwrap : r + (v.off + 1) < 2 ^ 16) :
    if mem.length < h + headersLen + r + (v.off + 1) + ethHlen then
      ∃ s', nextKey s v = (.ret .pass, s') ∧ s'.ctx = s.ctx ∧ s'.kcache = s.kcache
    else ∃ s', nextKey s v = (.tailCall .hashKeys .pass, s') ∧ AtKey s' mem h (r + (v.off + 1)) ks ∧
      s'.kcache = s.kcache := by
  have hadj : s.ctx.adjustHead ((v.off + 1 : ℕ) : ℤ) =
      if h + headersLen + r + (v.off + 1) + ethHlen ≤ mem.length then
        some ⟨mem, h + headersLen + r + (v.off + 1)⟩ else none := by
    rw [hs.ctx, adjustHead_forward]
  simp only [nextKey, hv, Bool.false_eq_true, if_false, hadj]
  split_ifs with h1 h2
  · omega
  · exact ⟨_, rfl, rfl, rfl⟩
  · refine ⟨_, rfl, ⟨by rw [Nat.add_assoc (h + headersLen)], ?_, by omega, ?_, hs.currentKey,
      hs.writePktOffset⟩, rfl⟩
    · simp only [hs.offset]
      exact Nat.mod_eq_of_lt hwrap
    · exact hs.saved.of_keys_eq rfl (fun _ _ => rfl)
  · omega

/-- What a program does when its word leads to the given step. -/
def FollowsStep (s : XdpState) (mem : List Byte) (h r : ℕ) (res : Exit × XdpState) : WalkStep → Prop
  | .strand => res.1 = .ret .pass ∧ res.2.ctx = s.ctx
  | .handBack => res.1 = .ret .pass ∧ res.2.ctx = ⟨mem, h⟩
  | .prepare ks => res.1 = .tailCall .preparePacket .pass ∧ Parsed res.2 mem h ks
  | .next ks n => res.1 = .tailCall .hashKeys .pass ∧ AtKey res.2 mem h (r + n) ks ∧
      n ≤ bmcMaxKeyLength + 1

lemma hashKeys_follows_step (hs : AtKey s mem h r ks) (hr : r + (bmcMaxKeyLength + 1) < 2 ^ 16) :
    FollowsStep s mem h r (bmcHashKeysMain s) (walkStep s.kcache ks s.ctx.pkt) ∧
      (bmcHashKeysMain s).2.kcache = s.kcache := by
  have hlim := limits
  have hroom := hs.room
  have hlen : s.ctx.pkt.length = mem.length - (h + headersLen + r) := by
    rw [hs.pkt_eq, List.length_drop]
  simp only [walkStep]
  split_ifs with hfull hbad hcr hnil hshort
  · rw [hashKeys_full hs hfull]
    exact ⟨⟨rfl, rfl⟩, rfl⟩
  · obtain ⟨s', hmain, hctx, hcache⟩ := hashKeys_badKey hs (by omega) hbad
    rw [hmain]
    exact ⟨⟨rfl, hctx⟩, hcache⟩
  · obtain ⟨s₁, hmain, hs₁, hcache⟩ := hashKeys_goodKey hs (by omega) (by omega) (by omega)
    obtain ⟨s₂, hnext, hs₂, hcache₂⟩ := nextKey_done hs₁ (v := wordVars s.ctx.pkt)
      (by simp only [wordVars, decide_eq_true_eq]; exact ⟨by omega, hcr⟩)
    rw [hmain, hnext, if_pos hnil]
    exact ⟨⟨rfl, hs₂.ctx⟩, hcache₂.trans hcache⟩
  · obtain ⟨s₁, hmain, hs₁, hcache⟩ := hashKeys_goodKey hs (by omega) (by omega) (by omega)
    obtain ⟨s₂, hnext, hs₂, hcache₂⟩ := nextKey_done hs₁ (v := wordVars s.ctx.pkt)
      (by simp only [wordVars, decide_eq_true_eq]; exact ⟨by omega, hcr⟩)
    rw [hmain, hnext, if_neg hnil]
    exact ⟨⟨rfl, hs₂⟩, hcache₂.trans hcache⟩
  · obtain ⟨s₁, hmain, hs₁, hcache⟩ := hashKeys_goodKey hs (by omega) (by omega) (by omega)
    have hv : (wordVars s.ctx.pkt).doneParsing = false := by simp [wordVars, hcr]
    have hmore := nextKey_more hs₁ hv (by simp only [wordVars]; omega)
    rw [if_pos (by simp only [wordVars]; omega)] at hmore
    obtain ⟨s₂, hnext, hctx, hcache₂⟩ := hmore
    rw [hmain, hnext]
    exact ⟨⟨rfl, hctx.trans (hs₁.ctx.trans hs.ctx.symm)⟩, hcache₂.trans hcache⟩
  · obtain ⟨s₁, hmain, hs₁, hcache⟩ := hashKeys_goodKey hs (by omega) (by omega) (by omega)
    have hv : (wordVars s.ctx.pkt).doneParsing = false := by simp [wordVars, hcr]
    have hmore := nextKey_more hs₁ hv (by simp only [wordVars]; omega)
    rw [if_neg (by simp only [wordVars]; omega)] at hmore
    obtain ⟨s₂, hnext, hs₂, hcache₂⟩ := hmore
    rw [hmain, hnext]
    exact ⟨⟨rfl, hs₂, by omega⟩, hcache₂.trans hcache⟩

end OneKey

/-! ### The chain of programs follows the walk -/

section Chain

variable {env : Interference} {left t : ℕ} {prog next : XdpProg} {s s' : XdpState}
  {action : XdpAction}

lemma runChain_ret (h : prog.main { s with kcache := env t s.kcache } = (.ret action, s')) :
    runChain env left t prog s = (action, s') := by
  rw [runChain, h]

lemma runChain_tailCall_zero
    (h : prog.main { s with kcache := env t s.kcache } = (.tailCall next action, s')) :
    runChain env 0 t prog s = (action, s') := by
  rw [runChain, h]

lemma runChain_tailCall_succ
    (h : prog.main { s with kcache := env t s.kcache } = (.tailCall next action, s')) :
    runChain env (left + 1) t prog s = runChain env left (t + 1) next s' := by
  rw [runChain, h]

end Chain

/-- What the programs do when the walk ends in the given way. -/
def FollowsWalk (env : Interference) (obs : ℕ → Cache) (mem : List Byte) (h : ℕ)
    (res : XdpAction × XdpState) : WalkEnd → Prop
  | .stranded => res.1 = .pass ∧ res.2.ctx.mem = mem ∧ h < res.2.ctx.data
  | .handedBack => res.1 = .pass ∧ res.2.ctx = ⟨mem, h⟩
  | .prepared ks left t => ∃ s', res = runChain env left t .preparePacket s' ∧
      Parsed s' mem h ks ∧ env t s'.kcache = obs t

/-- `obs t` is the cache program number `t` sees, when the programs do not change it. -/
def Observes (env : Interference) (obs : ℕ → Cache) : Prop := ∀ t, obs (t + 1) = env (t + 1) (obs t)

lemma AtKey.withCache {s : XdpState} {mem : List Byte} {h r : ℕ} {ks : List (List Byte)}
    (hs : AtKey s mem h r ks) (c : Cache) : AtKey { s with kcache := c } mem h r ks :=
  ⟨hs.ctx, hs.offset, hs.room, hs.saved, hs.currentKey, hs.writePktOffset⟩

/-- The chain of `bmc_hash_keys_main` programs follows the walk over the request. The bound
keeps the 16-bit read offset from wrapping; the tail-call limit provides it. -/
theorem hashKeys_follows_walk {env : Interference} {obs : ℕ → Cache} (hobs : Observes env obs)
    {mem : List Byte} {h : ℕ} (left t r : ℕ) (s : XdpState) (ks : List (List Byte))
    (hs : AtKey s mem h r ks) (hc : env t s.kcache = obs t)
    (hr : r + (bmcMaxKeyLength + 1) * (left + 1) < 2 ^ 16) :
    FollowsWalk env obs mem h (runChain env left t .hashKeys s)
      (examine obs left t ks (mem.drop (h + headersLen + r))) := by
  have hlim := limits
  have hsz := sizes
  induction left using Nat.strong_induction_on generalizing t r s ks with
  | _ left ih =>
    have hr' : r + (bmcMaxKeyLength + 1) < 2 ^ 16 :=
      lt_of_le_of_lt (Nat.add_le_add_left (Nat.le_mul_of_pos_right _ (Nat.succ_pos _)) _) hr
    obtain ⟨hstep, hcache⟩ := hashKeys_follows_step (hs.withCache (env t s.kcache)) hr'
    rw [(hs.withCache (env t s.kcache)).pkt_eq] at hstep
    simp only [hc] at hstep hcache
    obtain ⟨⟨exit, s'⟩, hres⟩ : ∃ res, XdpProg.hashKeys.main { s with kcache := env t s.kcache } = res :=
      ⟨_, rfl⟩
    have hmain : bmcHashKeysMain { s with kcache := obs t } = (exit, s') := by
      rw [← hc]
      exact hres
    rw [hmain] at hstep hcache
    simp only at hcache
    rw [examine]
    cases hw : walkStep (obs t) ks (mem.drop (h + headersLen + r)) with
    | strand =>
      rw [hw] at hstep
      obtain ⟨rfl, hctx⟩ := hstep
      simp only [hs.ctx] at hctx
      rw [runChain_ret hres]
      refine ⟨rfl, by rw [hctx], ?_⟩
      rw [hctx]
      simp only
      omega
    | handBack =>
      rw [hw] at hstep
      obtain ⟨rfl, hctx⟩ := hstep
      rw [runChain_ret hres]
      exact ⟨rfl, hctx⟩
    | prepare ks' =>
      rw [hw] at hstep
      obtain ⟨rfl, hparsed⟩ := hstep
      cases left with
      | zero =>
        rw [runChain_tailCall_zero hres]
        exact ⟨rfl, hparsed.ctx⟩
      | succ left =>
        rw [runChain_tailCall_succ hres]
        exact ⟨s', rfl, hparsed, by rw [hcache, hobs t]⟩
    | next ks' n =>
      rw [hw] at hstep
      obtain ⟨rfl, hat, hn⟩ := hstep
      cases left with
      | zero =>
        -- the walk stops at the tail-call limit with the start behind the previous key
        rw [runChain_tailCall_zero hres]
        refine ⟨rfl, by rw [hat.ctx], ?_⟩
        rw [hat.ctx]
        simp only
        omega
      | succ left =>
        rw [runChain_tailCall_succ hres]
        simp only [List.drop_drop]
        rw [show h + headersLen + r + n = h + headersLen + (r + n) by omega]
        refine ih left (Nat.lt_succ_self _) (t + 1) (r + n) s' ks' hat (by rw [hcache, hobs t]) ?_
        calc r + n + (bmcMaxKeyLength + 1) * (left + 1)
            ≤ r + (bmcMaxKeyLength + 1) + (bmcMaxKeyLength + 1) * (left + 1) := by
              exact Nat.add_le_add_right (Nat.add_le_add_left hn _) _
          _ = r + (bmcMaxKeyLength + 1) * (left + 1 + 1) := by ring
          _ < 2 ^ 16 := hr

end BmcCache.Proofs
