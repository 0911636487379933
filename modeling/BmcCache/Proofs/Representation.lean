import BmcCache.Lib.Transition
import BmcCache.Proofs.MachineSteps

/-!
# The representation invariant and the hit test

What a valid entry is meant to be: a whole block, filed under the hash and slot of its own
key. Replies copied in full establish it; a copy that is given up after it has overwritten
a valid entry breaks it. The hit test of `bmc_write_reply_main` compares as many bytes as
the requested key has, so it takes an entry of a longer key with the same hash for a hit.
-/

namespace BmcCache.Proofs

open Buffer Segments Transition

def valueText : List Byte := ascii ['V', 'A', 'L', 'U', 'E', ' ']

/-- The reply starts with `VALUE `, a key of 1..250 bytes and a space. -/
def HasKey (payload key : List Byte) : Prop :=
  (0 < key.length ∧ key.length ≤ bmcMaxKeyLength) ∧ SP ∉ key ∧ LF ∉ key ∧
    valueText ++ (key ++ [SP]) <+: payload

section Keys

variable {payload key : List Byte}

lemma takeWhile_key (rest : List Byte) (hlen : key.length ≤ bmcMaxKeyLength) (hsp : SP ∉ key) :
    ((key ++ SP :: rest).take bmcMaxKeyLength).takeWhile (fun c => c != SP) = key := by
  have hall : ∀ c ∈ key, (c != SP) = true := by
    intro c hc
    simp only [bne_iff_ne, ne_eq]
    rintro rfl
    exact hsp hc
  rw [List.take_append, List.take_of_length_le hlen]
  cases hroom : bmcMaxKeyLength - key.length with
  | zero => simp [List.takeWhile_eq_self_iff.mpr hall]
  | succ n => simp [List.takeWhile_append_of_pos hall]

lemma keyField_of_hasKey (h : HasKey payload key) : keyField payload = key := by
  obtain ⟨⟨-, hlen⟩, hsp, -, rest, rfl⟩ := h
  have hdrop : (valueText ++ (key ++ [SP]) ++ rest).drop 6 = key ++ SP :: rest := by
    simp [valueText, ascii]
  rw [keyField, hdrop, takeWhile_key rest hlen hsp]

lemma not_isLF_of_not_mem (h : LF ∉ key) : key.countP isLF = 0 := by
  rw [List.countP_eq_zero]
  intro c hc
  simp only [isLF, beq_iff_eq]
  rintro rfl
  exact h hc

/-- Of a reply whose first two lines end where memcached ends them both lines are stored. -/
lemma storedBlock_two_lines {line data rest : List Byte} (hline : LF ∉ line) (hdata : LF ∉ data)
    (hlen : (line ++ LF :: (data ++ LF :: rest)).length ≤ bmcMaxCacheDataSize) :
    storedBlock (line ++ LF :: (data ++ LF :: rest)) = line ++ LF :: (data ++ [LF]) := by
  have hsplit : line ++ LF :: (data ++ LF :: rest) = line ++ LF :: data ++ [LF] ++ rest := by simp
  have hcount : (line ++ LF :: data).countP isLF = 1 := by
    rw [List.countP_append, List.countP_cons, not_isLF_of_not_mem hline, not_isLF_of_not_mem hdata]
    rfl
  have hboth : (line ++ LF :: data ++ [LF]).countP isLF = 2 := by
    rw [List.countP_append, hcount]
    rfl
  rw [storedBlock, List.take_of_length_le hlen, hsplit, takeThrough_append, if_pos (by omega),
    takeThrough_snoc rfl (by omega)]
  simp

lemma storedBlock_hasKey (h : HasKey payload key) : HasKey (storedBlock payload) key := by
  have hlim := limits
  obtain ⟨⟨hpos, hlen⟩, hsp, hlf, rest, rfl⟩ := h
  have hhead : (valueText ++ (key ++ [SP])).length ≤ bmcMaxCacheDataSize := by
    simp only [List.length_append, List.length_singleton]
    have : valueText.length = 6 := rfl
    omega
  have hnone : (valueText ++ (key ++ [SP])).countP isLF = 0 := by
    rw [List.countP_append, List.countP_append, not_isLF_of_not_mem hlf]
    decide
  refine ⟨⟨hpos, hlen⟩, hsp, hlf, ?_⟩
  rw [storedBlock, List.take_append, List.take_of_length_le hhead, takeThrough_append, hnone,
    if_neg (by omega)]
  exact List.prefix_append _ _

lemma isValue_of_hasKey (h : HasKey payload key) : isValue payload = true := by
  obtain ⟨-, -, -, rest, rfl⟩ := h
  simp [isValue, valueText, ascii]

end Keys

/-! ### The representation invariant -/

/-- A valid entry in slot `i`. -/
structure GoodEntry (i : ℕ) (e : BmcCacheEntry) : Prop where
  pos : 0 < e.len
  le : e.len ≤ bmcMaxCacheDataSize
  value : isValue e.block = true
  lines : e.block.countP isLF = 2
  last : e.block.getLast? = some LF
  hash : e.hash = fnv1aHash32 (keyField e.block)
  slot : cacheIdx e.hash = i

def GoodCache (c : Cache) : Prop := ∀ i, (c i).valid = true → GoodEntry i.val (c i)

lemma goodEntry_update {entry : BmcCacheEntry} {payload key : List Byte}
    (hstale : upToDate entry (replyHash payload) payload = false) (hc : CompleteReply payload)
    (hkey : HasKey payload key) :
    GoodEntry (cacheIdx (replyHash payload)) (updateEntry entry (replyHash payload) payload).1 := by
  obtain ⟨-, hhash, hlen, hblock⟩ := updateEntry_complete hstale hc
  have hcount : (storedBlock payload).countP isLF = 2 := by
    rw [storedBlock, countP_takeThrough]
    exact Nat.min_eq_left hc
  obtain ⟨c, hlast, hlf⟩ := getLast?_takeThrough (p := isLF) (show 0 < 2 by omega) hc
  have hvalue := isValue_of_hasKey (storedBlock_hasKey hkey)
  refine ⟨?_, ?_, by rw [hblock]; exact hvalue, by rw [hblock]; exact hcount, ?_, ?_, by rw [hhash]⟩
  · rw [hlen, List.length_pos_iff]
    intro hnil
    rw [hnil] at hcount
    simp at hcount
  · rw [hlen]
    exact length_storedBlock_le payload
  · rw [hblock, storedBlock, hlast]
    simpa [isLF] using hlf
  · rw [hhash, hblock, replyHash_eq, keyField_of_hasKey hkey, keyField_of_hasKey (storedBlock_hasKey hkey)]

def nextMachine (m : Machine) (a : Action) : Option Machine := (m.step a).map Prod.fst

/-- Outgoing packets that start with `VALUE ` carry a key; other actions are not restricted. -/
def RepliesHaveKeys : Action → Prop
  | .transmit _ skb => isValue (SkBuff.payload skb) = true → ∃ key, HasKey (SkBuff.payload skb) key
  | _ => True

/-- The reply is not copied over a valid entry, or it is complete. -/
def NoClobber (m : Machine) : Action → Prop
  | .transmit _ skb =>
    isGetReply skb = true → (m.kcache.at (replyHash (SkBuff.payload skb))).valid = true →
      upToDate (m.kcache.at (replyHash (SkBuff.payload skb))) (replyHash (SkBuff.payload skb))
        (SkBuff.payload skb) = true ∨ CompleteReply (SkBuff.payload skb)
  | _ => True

lemma goodCache_step {m : Machine} {a : Action} {c : Cache} (hgood : GoodCache m.kcache)
    (hkeys : RepliesHaveKeys a) (hclobber : NoClobber m a) (h : CacheStep m a c) : GoodCache c := by
  intro i hvalid
  cases h with
  | same hev hc =>
    rw [hc] at hvalid ⊢
    exact hgood i hvalid
  | invalidated hash hev hc =>
    rw [hc, Cache.store_apply] at hvalid ⊢
    split_ifs at hvalid ⊢ with hi
    exact hgood i hvalid
  | copied cpu skb ha hget hstale hev hc =>
    subst ha
    rw [hc, Cache.store_apply] at hvalid ⊢
    split_ifs at hvalid ⊢ with hi
    · have hvalue : isValue (SkBuff.payload skb) = true := by
        simp only [isGetReply, Bool.and_eq_true] at hget
        exact hget.2
      obtain ⟨key, hkey⟩ := hkeys hvalue
      by_cases hcomplete : CompleteReply (SkBuff.payload skb)
      · rw [hi]
        exact goodEntry_update hstale hcomplete hkey
      · -- the copy was given up, so the entry was valid before, which the condition excludes
        rw [(updateEntry_aborted hstale hcomplete).1] at hvalid
        rcases hclobber hget hvalid with hup | hc'
        · rw [hstale] at hup
          simp at hup
        · exact absurd hc' hcomplete
    · exact hgood i hvalid

/-- In every run in which no incomplete reply overwrites a valid entry, every valid entry is a
whole block under the hash and slot of its key. -/
theorem goodCache_of_noClobber {m : Machine}
    (h : Reach nextMachine (fun m a => RepliesHaveKeys a ∧ NoClobber m a) Machine.booted m) :
    GoodCache m.kcache := by
  apply h.invariant (fun m => GoodCache m.kcache)
  · intro i hvalid
    simp [Machine.booted, Cache.zeroed, BmcCacheEntry.zero] at hvalid
  · intro m a m' hgood hok hstep
    obtain ⟨⟨m₁, v⟩, hm, rfl⟩ := Option.map_eq_some_iff.mp hstep
    exact goodCache_step hgood hok.1 hok.2 (step_kcache hm)

def clobberActions : List Action :=
  [.transmit 0 (sampleReply "VALUE declinate0123456 0 3\r\nabc\r\nEND\r\n".toList),
    .transmit 1 (sampleReply "VALUE macallums0123456 0 3\r\na".toList)]

lemma sampleReply_hasKey (text key : List Char)
    (hlen : 0 < (ascii key).length ∧ (ascii key).length ≤ bmcMaxKeyLength)
    (hsp : SP ∉ ascii key) (hlf : LF ∉ ascii key)
    (htext : (valueText ++ (ascii key ++ [SP])).isPrefixOf (ascii text) = true) :
    HasKey (SkBuff.payload (sampleReply text)) (ascii key) := by
  have hpayload : SkBuff.payload (sampleReply text) = ascii text := by
    rw [SkBuff.payload, sampleReply]
    exact List.drop_left' rfl
  rw [hpayload]
  exact ⟨hlen, hsp, hlf, List.isPrefixOf_iff_prefix.mp htext⟩

theorem clobbered_entry_not_good : ∃ m,
    Reach nextMachine (fun _ a => RepliesHaveKeys a) Machine.booted m ∧ ¬GoodCache m.kcache := by
  have hend : (run nextMachine Machine.booted clobberActions).map (fun m =>
      ((m.kcache.at (fnv1aHash32 (ascii "declinate0123456".toList))).valid,
        (m.kcache.at (fnv1aHash32 (ascii "declinate0123456".toList))).block.countP isLF)) =
      some (true, 1) := by
    decide +kernel
  obtain ⟨m, hrun, hm⟩ := Option.map_eq_some_iff.mp hend
  rw [Prod.mk.injEq] at hm
  have hkeys : Meets nextMachine (fun _ a => RepliesHaveKeys a) Machine.booted clobberActions := by
    refine ⟨fun _ => ⟨_, sampleReply_hasKey _ "declinate0123456".toList ?_ ?_ ?_ ?_⟩, fun _ _ =>
      ⟨fun _ => ⟨_, sampleReply_hasKey _ "macallums0123456".toList ?_ ?_ ?_ ?_⟩, fun _ _ => trivial⟩⟩
    all_goals decide +kernel
  refine ⟨m, Reach.init.of_run hrun hkeys, ?_⟩
  intro hgood
  have hlines := (hgood _ hm.1).lines
  have hone := hm.2
  rw [Cache.at] at hone
  omega

theorem goodCache_after_reply : ∃ m,
    Reach nextMachine (fun m a => RepliesHaveKeys a ∧ NoClobber m a) Machine.booted m ∧
      (m.kcache.at (fnv1aHash32 (ascii "declinate0123456".toList))).valid = true ∧ GoodCache m.kcache := by
  have hend : (run nextMachine Machine.booted (clobberActions.take 1)).map (fun m =>
      (m.kcache.at (fnv1aHash32 (ascii "declinate0123456".toList))).valid) = some true := by
    decide +kernel
  obtain ⟨m, hrun, hvalid⟩ := Option.map_eq_some_iff.mp hend
  have hok : Meets nextMachine (fun m a => RepliesHaveKeys a ∧ NoClobber m a) Machine.booted
      (clobberActions.take 1) := by
    refine ⟨⟨fun _ => ⟨_, sampleReply_hasKey _ "declinate0123456".toList ?_ ?_ ?_ ?_⟩, fun _ h => ?_⟩,
      fun _ _ => trivial⟩
    · decide +kernel
    · decide +kernel
    · decide +kernel
    · decide +kernel
    · simp [Machine.booted, Cache.zeroed, Cache.at, BmcCacheEntry.zero] at h
  have hreach := Reach.init.of_run hrun hok
  exact ⟨m, hreach, hvalid, goodCache_of_noClobber hreach⟩

/-! ### The hit test -/

/-- A whole block of memcached: header line and data line. -/
def IsBlock (key block : List Byte) : Prop :=
  ∃ flags num data : List Byte, block =
    valueText ++ (key ++ SP :: (flags ++ SP :: (num ++ CR :: LF :: (data ++ [CR, LF]))))

/-- Every valid entry is a whole block under the hash and slot of its own key. -/
def WholeBlocks (c : Cache) : Prop :=
  ∀ i, (c i).valid = true → ∃ key, (0 < key.length ∧ key.length ≤ bmcMaxKeyLength) ∧ SP ∉ key ∧
    IsBlock key (c i).block ∧ (c i).hash = fnv1aHash32 key ∧ cacheIdx (c i).hash = i.val

lemma keyField_of_isBlock {key block : List Byte} (h : IsBlock key block)
    (hlen : key.length ≤ bmcMaxKeyLength) (hsp : SP ∉ key) : keyField block = key := by
  obtain ⟨flags, num, data, rfl⟩ := h
  have hdrop : (valueText ++ (key ++ SP :: (flags ++ SP :: (num ++ CR :: LF :: (data ++ [CR, LF]))))).drop 6 =
      key ++ SP :: (flags ++ SP :: (num ++ CR :: LF :: (data ++ [CR, LF]))) := by
    simp [valueText, ascii]
  rw [keyField, hdrop, takeWhile_key _ hlen hsp]

lemma slice_data_of_block {e : BmcCacheEntry} {pre rest : List Byte} {n : ℕ} (h : e.block = pre ++ rest)
    (hpre : 6 + n ≤ pre.length) : slice e.data.toList 6 n = slice pre 6 n := by
  have htake : e.data.toList.take (6 + n) = pre.take (6 + n) := by
    have hlen : 6 + n ≤ e.len := by
      have h1 : (pre ++ rest).length ≤ e.len := by
        rw [← h, BmcCacheEntry.block, List.length_take]
        exact Nat.min_le_left _ _
      rw [List.length_append] at h1
      omega
    have hpart : (pre ++ rest).take (6 + n) = pre.take (6 + n) := List.take_append_of_le_length hpre
    rw [← hpart, ← h, BmcCacheEntry.block, List.take_take, Nat.min_eq_left hlen]
  rw [slice, slice, List.take_drop, List.take_drop, htake]

lemma cachedBlock_of_text {c : Cache} {k : List Byte} (hvalid : (c.at (fnv1aHash32 k)).valid = true)
    (hhash : (c.at (fnv1aHash32 k)).hash = fnv1aHash32 k)
    (htext : valueText ++ (k ++ [SP]) <+: (c.at (fnv1aHash32 k)).block) :
    cachedBlock c k = (c.at (fnv1aHash32 k)).block := by
  obtain ⟨rest, hrest⟩ := htext
  have hslice : slice (c.at (fnv1aHash32 k)).data.toList 6 k.length = k := by
    rw [slice_data_of_block hrest.symm]
    · have hdrop : (valueText ++ (k ++ [SP])).drop 6 = k ++ [SP] := rfl
      rw [slice, hdrop, List.take_left]
    · simp only [valueText, ascii, List.length_append, List.length_map, List.length_cons, List.length_nil]
      omega
  simp only [cachedBlock]
  rw [if_pos ⟨hvalid, hhash, hslice⟩]

/-- On a whole block the comparison finds out whether `k` is an initial part of its key. -/
lemma compare_iff_isPrefix {e : BmcCacheEntry} {key k : List Byte} (hblock : IsBlock key e.block)
    (hk : ∀ c ∈ k, isKeyByte c = true) : slice e.data.toList 6 k.length = k ↔ k <+: key := by
  obtain ⟨flags, num, data, heq⟩ := hblock
  have hsplit : e.block = (valueText ++ (key ++ [SP])) ++
      (flags ++ SP :: (num ++ CR :: LF :: (data ++ [CR, LF]))) := by
    rw [heq]
    simp
  have hlen : (valueText ++ (key ++ [SP])).length = 6 + (key.length + 1) := by
    simp only [valueText, ascii, List.map_cons, List.map_nil, List.length_append, List.length_cons,
      List.length_nil, Nat.reduceAdd]
  have hvalue : ∀ n, slice (valueText ++ (key ++ [SP])) 6 n = (key ++ [SP]).take n := fun n => rfl
  rcases Nat.lt_or_ge key.length k.length with hlong | hshort
  · -- a longer request would have to continue with the space behind the key
    have hdata := slice_data_of_block (n := key.length + 1) hsplit (by rw [hlen])
    rw [hvalue, List.take_of_length_le (by simp)] at hdata
    constructor
    · intro h
      exfalso
      have htake : (slice e.data.toList 6 k.length).take (key.length + 1) = key ++ [SP] := by
        rw [← hdata, slice, slice, List.take_take, Nat.min_eq_left hlong]
      rw [h] at htake
      have hmem : SP ∈ k.take (key.length + 1) := by
        rw [htake]
        simp
      have hsp := hk SP (List.mem_of_mem_take hmem)
      simp [isKeyByte] at hsp
    · intro h
      have := h.length_le
      omega
  · have hdata := slice_data_of_block (n := k.length) hsplit (by rw [hlen]; omega)
    rw [hvalue, List.take_append_of_le_length hshort] at hdata
    rw [hdata, List.prefix_iff_eq_take]
    exact eq_comm

def entryKey (e : BmcCacheEntry) : List Byte := keyField e.block

/-- Another key with the same hash, of which `k` is an initial part, occupies the slot of `k`. -/
def LongerTwin (c : Cache) (k : List Byte) : Prop :=
  (c.at (fnv1aHash32 k)).valid = true ∧
    fnv1aHash32 (entryKey (c.at (fnv1aHash32 k))) = fnv1aHash32 k ∧
    k <+: entryKey (c.at (fnv1aHash32 k)) ∧ k ≠ entryKey (c.at (fnv1aHash32 k))

lemma cachedBlock_ne_nil_iff {c : Cache} (hc : WholeBlocks c) {k : List Byte}
    (hk : ∀ b ∈ k, isKeyByte b = true) :
    cachedBlock c k ≠ [] ↔ (c.at (fnv1aHash32 k)).valid = true ∧
      fnv1aHash32 (entryKey (c.at (fnv1aHash32 k))) = fnv1aHash32 k ∧
      k <+: entryKey (c.at (fnv1aHash32 k)) := by
  by_cases hvalid : (c.at (fnv1aHash32 k)).valid = true
  · obtain ⟨key, hlen, hsp, hblock, hhash, -⟩ := hc _ hvalid
    have hentry : entryKey (c.at (fnv1aHash32 k)) = key := keyField_of_isBlock hblock hlen.2 hsp
    have hne : (c.at (fnv1aHash32 k)).block ≠ [] := by
      obtain ⟨flags, num, data, heq⟩ := hblock
      intro hnil
      rw [Cache.at] at hnil
      rw [hnil] at heq
      simp [valueText, ascii] at heq
    have hcmp := compare_iff_isPrefix hblock hk
    have hhash' : (c.at (fnv1aHash32 k)).hash = fnv1aHash32 key := hhash
    simp only [cachedBlock, hvalid, true_and, hentry, hhash']
    rw [← hcmp]
    split_ifs with hhit
    · exact ⟨fun _ => hhit, fun _ => hne⟩
    · exact ⟨fun h => absurd rfl h, fun h => absurd h hhit⟩
  · simp [cachedBlock, hvalid]

/-- What is copied for a saved key is an entry of that key, unless the slot holds a longer key
with the same hash. -/
theorem copied_entry_key_iff {c : Cache} (hc : WholeBlocks c) {cpu : PerCpu} {ks : List (List Byte)}
    (hsaved : Saved cpu ks) {i : ℕ} {k : List Byte} (hi : ks[i]? = some k) {key : MemcachedKey}
    (hkey : cpu.lookupKey i = some key) {ctx : XdpMd} (hroom : 0 < ctx.pkt.length) :
    (0 < (lockedCopy key (c.at key.hash) ctx).2.1 → entryKey (c.at key.hash) = k) ↔ ¬LongerTwin c k := by
  obtain ⟨key', hkey', hk⟩ := hsaved.holds i k hi
  obtain rfl : key' = key := by
    rw [hkey', Option.some.injEq] at hkey
    exact hkey
  have hcopied : 0 < (lockedCopy key' (c.at key'.hash) ctx).2.1 ↔ cachedBlock c k ≠ [] := by
    rw [lockedCopy_spec hk, ← List.length_pos_iff]
    dsimp only
    omega
  rw [hcopied, hk.hash, cachedBlock_ne_nil_iff hc hk.bytes]
  constructor
  · rintro h ⟨hvalid, hhash, hprefix, hne⟩
    exact hne (h ⟨hvalid, hhash, hprefix⟩).symm
  · rintro h ⟨hvalid, hhash, hprefix⟩
    by_contra hne
    exact h ⟨hvalid, hhash, hprefix, fun heq => hne heq.symm⟩

/-! #### A pair of keys with the same hash -/

lemma wholeBlocks_of_slot {c : Cache} (key : List Byte) (hlen : 0 < key.length ∧ key.length ≤ bmcMaxKeyLength)
    (hsp : SP ∉ key) (hothers : ∀ i, (c i).valid = true → i.val = slotOf key)
    (hblock : IsBlock key (c.at (fnv1aHash32 key)).block)
    (hhash : (c.at (fnv1aHash32 key)).hash = fnv1aHash32 key) : WholeBlocks c := by
  intro i hvalid
  obtain rfl : i = ⟨cacheIdx (fnv1aHash32 key), cacheIdx_lt _⟩ := Fin.ext (hothers i hvalid)
  exact ⟨key, hlen, hsp, hblock, hhash, by rw [show (c _).hash = fnv1aHash32 key from hhash]⟩

lemma cacheAfterReply_others {text : List Char} (h : isGetReply (sampleReply text) = true)
    (i : Fin bmcCacheEntryCount) (hvalid : (cacheAfterReply text i).valid = true) :
    i.val = cacheIdx (replyHash (SkBuff.payload (sampleReply text))) := by
  rw [cacheAfterReply, txFilter_reply h, Cache.store_apply] at hvalid
  by_contra hi
  rw [if_neg hi] at hvalid
  simp [Cache.zeroed, BmcCacheEntry.zero] at hvalid

def longKey : List Byte := ascii "user:1000000q356pi".toList
def longKeyCache : Cache := cacheAfterReply "VALUE user:1000000q356pi 0 1\r\nx\r\nEND\r\n".toList

lemma longKeyCache_wholeBlocks : WholeBlocks longKeyCache := by
  apply wholeBlocks_of_slot longKey
  · decide +kernel
  · decide +kernel
  · intro i hvalid
    rw [cacheAfterReply_others (by decide +kernel) i hvalid]
    decide +kernel
  · exact ⟨ascii ['0'], ascii ['1'], ascii ['x'], by decide +kernel⟩
  · decide +kernel

theorem longer_key_false_hit : WholeBlocks longKeyCache ∧
    (runXdp Interference.quiet (List.replicate 256 0) (sampleRequest "get user:1000000\r\n".toList)
      PerCpu.zeroed longKeyCache).1 = .tx ∧
    (runXdp Interference.quiet (List.replicate 256 0) (sampleRequest "get user:1000000\r\n".toList)
      PerCpu.zeroed longKeyCache).2.ctx.pkt.drop headersLen =
        ascii "VALUE user:1000000q356pi 0 1\r\nx\r\nEND\r\n".toList := by
  refine ⟨longKeyCache_wholeBlocks, ?_⟩
  decide +kernel

def oneKeyCpu (key : List Byte) : PerCpu :=
  { PerCpu.zeroed.storeKey 0
    ⟨fnv1aHash32 key, copyKeyLoop key.length key 0 (Vector.replicate _ 0), key.length⟩ with
    pctx := ⟨1, 0, 0, 0⟩ }

lemma oneKeyCpu_saved (key : List Byte) (hlen : 0 < key.length ∧ key.length ≤ bmcMaxKeyLength)
    (hkey : ∀ c ∈ key, isKeyByte c = true) : Saved (oneKeyCpu key) [key] := by
  refine ⟨rfl, by simp, ?_⟩
  intro i k hi
  obtain ⟨rfl, rfl⟩ : i = 0 ∧ key = k := by
    cases i with
    | zero => simpa using hi
    | succ i => simp at hi
  refine ⟨⟨fnv1aHash32 key, copyKeyLoop key.length key 0 (Vector.replicate _ 0), key.length⟩, ?_,
    ⟨rfl, rfl, hlen.1, hlen.2, ?_, hkey⟩⟩
  · exact @lookupKey_storeKey_self PerCpu.zeroed 0 _ (by decide)
  · rw [copyKeyLoop_take key key.length _ hlen.2 (Nat.le_refl _), List.take_length]

theorem longKey_copied_for_itself : ∃ key, (oneKeyCpu longKey).lookupKey 0 = some key ∧
    (0 < (lockedCopy key (longKeyCache.at key.hash) ⟨List.replicate 100 0, 0⟩).2.1 →
      entryKey (longKeyCache.at key.hash) = longKey) := by
  have hsaved := oneKeyCpu_saved longKey (by decide +kernel) (by decide +kernel)
  have hentry : entryKey (longKeyCache.at (fnv1aHash32 longKey)) = longKey := by decide +kernel
  obtain ⟨key, hkey, -⟩ := hsaved.holds 0 longKey rfl
  refine ⟨key, hkey, (copied_entry_key_iff longKeyCache_wholeBlocks hsaved rfl hkey ?_).mpr ?_⟩
  · rw [pkt_length]
    simp
  · rintro ⟨-, -, -, hne⟩
    exact hne hentry.symm

end BmcCache.Proofs
