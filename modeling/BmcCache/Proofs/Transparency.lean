import BmcCache.Lib.Segments
import BmcCache.Model.Memcached
import BmcCache.Proofs.Datagrams
import BmcCache.Proofs.ReplyForm

/-!
# Answers from the cache and answers of memcached

The reply to a request of several keys is compared with the one memcached would build. The
texts agree exactly when the entries that pass for the words read belong, in order, to the
requested keys memcached holds.
-/

namespace BmcCache.Proofs

open Segments

/-! ### Reading blocks back -/

lemma toNat_chr_of_isDigit {c : Char} (hc : c.isDigit = true) :
    (chr c).toNat = c.toNat ∧ 48 ≤ c.toNat ∧ c.toNat ≤ 57 := by
  have hrange : 48 ≤ c.toNat ∧ c.toNat ≤ 57 := by
    simp only [Char.isDigit, Bool.and_eq_true, decide_eq_true_eq, ge_iff_le, UInt32.le_iff_toNat_le] at hc
    exact hc
  refine ⟨?_, hrange⟩
  have hsmall : c.toNat % 256 = c.toNat := Nat.mod_eq_of_lt (by omega)
  simpa [chr] using hsmall

lemma toNat_of_mem_itoaU32 {n : ℕ} {b : Byte} (hb : b ∈ itoaU32 n) : 48 ≤ b.toNat ∧ b.toNat ≤ 57 := by
  obtain ⟨c, hc, rfl⟩ := List.mem_map.mp hb
  obtain ⟨hchr, hrange⟩ := toNat_chr_of_isDigit (Nat.isDigit_of_mem_toDigits (by decide) (by decide) hc)
  rw [hchr]
  exact hrange

lemma not_mem_itoaU32 (n : ℕ) : SP ∉ itoaU32 n ∧ CR ∉ itoaU32 n := by
  constructor
  · intro hmem
    exact absurd (toNat_of_mem_itoaU32 hmem) (by decide)
  · intro hmem
    exact absurd (toNat_of_mem_itoaU32 hmem) (by decide)

lemma lf_not_mem_itoaU32 (n : ℕ) : LF ∉ itoaU32 n := by
  intro hmem
  exact absurd (toNat_of_mem_itoaU32 hmem) (by decide)

lemma itoaU32_injective : Function.Injective itoaU32 := by
  have hback : ∀ n, (itoaU32 n).map (fun b => Char.ofNat b.toNat) = Nat.toDigits 10 n := by
    intro n
    rw [itoaU32, ascii, List.map_map]
    nth_rewrite 2 [← List.map_id (Nat.toDigits 10 n)]
    apply List.map_congr_left
    intro c hc
    obtain ⟨hchr, -⟩ := toNat_chr_of_isDigit (Nat.isDigit_of_mem_toDigits (by decide) (by decide) hc)
    rw [Function.comp_apply, hchr, Char.ofNat_toNat]
    rfl
  intro n m h
  rw [← Nat.ofDigitChars_ten_toDigits (n := n), ← hback, h, hback, Nat.ofDigitChars_ten_toDigits]

lemma block_append (it : Item) (r : List Byte) : it.block ++ r =
    valueText ++ (it.key ++ SP :: (itoaU32 it.flags ++ SP :: (itoaU32 it.value.length ++
      CR :: LF :: (it.value ++ (crlf ++ r))))) := by
  simp [Item.block, Item.suffix, valueText, crlf]

/-- A block shows where it ends: its length stands in its header line. -/
lemma block_append_inj (it it' : Item) (r r' : List Byte) (h : it.block ++ r = it'.block ++ r') :
    it.block = it'.block ∧ r = r' := by
  rw [block_append, block_append] at h
  obtain ⟨hkey, h⟩ := append_cons_inj it.isKey.noSpace it'.isKey.noSpace (List.append_cancel_left h)
  obtain ⟨hflags, h⟩ := append_cons_inj (not_mem_itoaU32 _).1 (not_mem_itoaU32 _).1 h
  obtain ⟨hnum, h⟩ := append_cons_inj (not_mem_itoaU32 _).2 (not_mem_itoaU32 _).2 h
  have hlen : it.value.length = it'.value.length := itoaU32_injective hnum
  obtain ⟨-, h⟩ := List.cons.inj h
  obtain ⟨hvalue, h⟩ := List.append_inj h hlen
  refine ⟨?_, List.append_cancel_left h⟩
  rw [← List.append_nil it.block, ← List.append_nil it'.block, block_append, block_append, hkey,
    hflags, hnum, hvalue]

lemma block_append_ne_getEnd (it : Item) (r : List Byte) : it.block ++ r ≠ getEnd := by
  rw [block_append]
  intro h
  exact absurd (List.cons.inj h).1 (by decide)

lemma keyField_block (it : Item) : keyField it.block = it.key := by
  have hkey := keyField_of_hasKey (hasKey_block it [])
  rwa [List.append_nil] at hkey

lemma keys_of_replyText_eq {its its' : List Item} (h : replyText its = replyText its') :
    its.map Item.key = its'.map Item.key := by
  have hblocks := map_eq_of_flatten_eq block_append_inj block_append_ne_getEnd h
  have hkeys := congrArg (List.map keyField) hblocks
  simpa [List.map_map, Function.comp_def, keyField_block] using hkeys

/-! ### The words of a request line -/

/-- The keys of a request, a space between any two, and the end of the line. -/
def keyLine : List (List Byte) → List Byte
  | [] => crlf
  | [k] => k ++ crlf
  | k :: ks => k ++ SP :: keyLine ks

def getLine (ks : List (List Byte)) : List Byte := ascii ['g', 'e', 't', ' '] ++ keyLine ks

/-- The words the parser reads: the keys up to the first one with a carriage return, of which it
reads the part in front of that. -/
def readWords : List (List Byte) → List (List Byte)
  | [] => []
  | k :: ks => if CR ∈ k then [k.takeWhile isKeyByte] else k :: readWords ks

lemma keyWord_append {k rest : List Byte} {b : Byte} (hle : k.length ≤ bmcMaxKeyLength)
    (hk : ∀ c ∈ k, isKeyByte c = true) (hb : isKeyByte b = false) : keyWord (k ++ b :: rest) = k := by
  rw [keyWord, List.take_append, List.take_of_length_le (by omega), List.takeWhile_append_of_pos hk,
    show bmcMaxKeyLength + 1 - k.length = bmcMaxKeyLength - k.length + 1 by omega, List.take_succ_cons,
    List.takeWhile_cons_of_neg (by simp [hb]), List.append_nil]

lemma isKeyByte_of_key {k : List Byte} (hk : IsKey k) (hcr : CR ∉ k) : ∀ c ∈ k, isKeyByte c = true := by
  intro c hc
  have h1 : c ≠ CR := fun h => hcr (h ▸ hc)
  have h2 : c ≠ SP := fun h => hk.noSpace (h ▸ hc)
  simp [isKeyByte, h1, h2]

lemma endsLine_append {k rest : List Byte} (b : Byte) (hword : keyWord (k ++ b :: rest) = k) :
    EndsLine (k ++ b :: rest) ↔ b = CR := by
  rw [EndsLine, hword, List.getElem?_append_right (Nat.le_refl _), Nat.sub_self, List.getElem?_cons_zero,
    Option.some.injEq]

lemma behindWord_append {k rest : List Byte} (b : Byte) (hword : keyWord (k ++ b :: rest) = k) :
    behindWord (k ++ b :: rest) = rest := by
  rw [behindWord, hword]
  simp

lemma keyLine_cons (k : List Byte) {ks : List (List Byte)} (hne : ks ≠ []) :
    keyLine (k :: ks) = k ++ SP :: keyLine ks := by
  cases ks with
  | nil => exact absurd rfl hne
  | cons k' ks => rfl

lemma keyLine_of_return {k : List Byte} (ks : List (List Byte)) (hk : IsKey k) (hcr : CR ∈ k) :
    ∃ rest, keyLine (k :: ks) = k.takeWhile isKeyByte ++ CR :: rest := by
  obtain ⟨r, hr⟩ : ∃ r, k.dropWhile isKeyByte = CR :: r := by
    cases hdrop : k.dropWhile isKeyByte with
    | nil => exact absurd (List.dropWhile_eq_nil_iff.mp hdrop CR hcr) (by decide)
    | cons b r =>
      have hhead := List.head?_dropWhile_not isKeyByte k
      have hmem : b ∈ k := (List.dropWhile_sublist isKeyByte).subset (hdrop ▸ List.mem_cons_self)
      have hsp : b ≠ SP := fun h => hk.noSpace (h ▸ hmem)
      have hb : b = CR := by simpa [hdrop, isKeyByte, hsp] using hhead
      exact ⟨r, by rw [hb]⟩
  have hsplit : k = k.takeWhile isKeyByte ++ CR :: r := by rw [← hr, List.takeWhile_append_dropWhile]
  cases ks with
  | nil =>
    refine ⟨r ++ crlf, ?_⟩
    rw [keyLine, ← List.cons_append, ← List.append_assoc, ← hsplit]
  | cons k' ks =>
    refine ⟨r ++ SP :: keyLine (k' :: ks), ?_⟩
    rw [keyLine_cons k (List.cons_ne_nil k' ks), ← List.cons_append, ← List.append_assoc, ← hsplit]

lemma savedNext_nil (c : Cache) (w : List Byte) : savedNext c [] w = [w].filter (looksCached c) := by
  unfold savedNext
  split_ifs with h
  · simp [h]
  · simp [h]

lemma savedKeys_last (c : Cache) {w rest : List Byte} {i : ℕ} {b : List Byte}
    (hword : keyWord (w ++ CR :: rest) = w) (hi : fromWord i (w ++ CR :: rest) = some b) (t : ℕ) :
    savedKeys (fun _ => c) (i + 1) t (w ++ CR :: rest) = [w].filter (looksCached c) := by
  have hstop : ¬MovesOn (w ++ CR :: rest) := fun hmove => hmove.2.1 ((endsLine_append CR hword).mpr rfl)
  cases i with
  | zero => rw [Nat.zero_add, savedKeys_one, hword, savedNext_nil]
  | succ i =>
    rw [fromWord, if_neg hstop] at hi
    simp at hi

/-- When the last word has been reached, the words read are those of the line. -/
lemma savedKeys_keyLine (c : Cache) {ks : List (List Byte)} (hkeys : ∀ k ∈ ks, IsKey k)
    {i : ℕ} {b : List Byte} (hne : ks ≠ []) (hi : fromWord i (keyLine ks) = some b)
    (hline : EndsLine b) (t : ℕ) :
    savedKeys (fun _ => c) (i + 1) t (keyLine ks) = (readWords ks).filter (looksCached c) := by
  induction ks generalizing i t with
  | nil => exact absurd rfl hne
  | cons k ks ih =>
    have hk := hkeys k List.mem_cons_self
    rw [readWords]
    by_cases hcr : CR ∈ k
    · rw [if_pos hcr]
      obtain ⟨rest, hrest⟩ := keyLine_of_return ks hk hcr
      rw [hrest] at hi ⊢
      refine savedKeys_last c (keyWord_append ?_ ?_ rfl) hi t
      · exact ((List.takeWhile_prefix _).length_le).trans hk.le
      · exact fun x hx => List.mem_takeWhile_imp hx
    · rw [if_neg hcr]
      have hbytes := isKeyByte_of_key hk hcr
      cases ks with
      | nil =>
        have hword : keyWord (k ++ CR :: [LF]) = k := keyWord_append hk.le hbytes rfl
        exact savedKeys_last c hword hi t
      | cons k' ks =>
        rw [keyLine_cons k (List.cons_ne_nil k' ks)] at hi ⊢
        have hword : keyWord (k ++ SP :: keyLine (k' :: ks)) = k := keyWord_append hk.le hbytes rfl
        cases i with
        | zero =>
          obtain rfl : k ++ SP :: keyLine (k' :: ks) = b := by simpa [fromWord] using hi
          exact absurd ((endsLine_append SP hword).mp hline) (by decide)
        | succ i =>
          rw [fromWord, behindWord_append SP hword] at hi
          split_ifs at hi with hmove
          have hrec := ih (fun k hk => hkeys k (List.mem_cons_of_mem _ hk)) (List.cons_ne_nil _ _) hi (t + 1)
          rw [savedKeys, hword, behindWord_append SP hword, hrec, savedNext_nil, ← List.filter_append]
          rfl

lemma isKeyByte_of_mem_readWords {ks : List (List Byte)} (hkeys : ∀ k ∈ ks, IsKey k) :
    ∀ w ∈ readWords ks, ∀ b ∈ w, isKeyByte b = true := by
  induction ks with
  | nil => simp [readWords]
  | cons k ks ih =>
    intro w hw
    rw [readWords] at hw
    split_ifs at hw with hcr
    · rw [List.mem_singleton.mp hw]
      exact fun b hb => List.mem_takeWhile_imp hb
    · rcases List.mem_cons.mp hw with rfl | hw
      · exact isKeyByte_of_key (hkeys w List.mem_cons_self) hcr
      · exact ih (fun k hk => hkeys k (List.mem_cons_of_mem _ hk)) w hw

lemma wsLoop_stop (n : ℕ) {b : Byte} (bs : List Byte) (off : ℕ) (hb : b ≠ SP) :
    wsLoop n (b :: bs) off = off := by
  cases n with
  | zero => rfl
  | succ n => rw [wsLoop, if_pos hb]

lemma keyBytes_getLine {hdr : List Byte} (hhdr : hdr.length = headersLen) {ks : List (List Byte)}
    (hne : ks ≠ []) (hkeys : ∀ k ∈ ks, IsKey k) : keyBytes (hdr ++ getLine ks) = keyLine ks := by
  have hdrop : (hdr ++ getLine ks).drop headersLen = getLine ks := by rw [← hhdr, List.drop_left]
  have hoff : keysOffset (hdr ++ getLine ks) = 4 := by
    have hbody : (getLine ks).drop 4 = keyLine ks := rfl
    rw [keysOffset, hdrop, hbody]
    cases ks with
    | nil => exact absurd rfl hne
    | cons k ks =>
      have hk := hkeys k List.mem_cons_self
      obtain ⟨b, bs, rfl⟩ := List.exists_cons_of_length_pos hk.pos
      have hb : b ≠ SP := fun h => hk.noSpace (h ▸ List.mem_cons_self)
      cases ks with
      | nil => exact wsLoop_stop _ _ _ hb
      | cons k' ks => exact wsLoop_stop _ _ _ hb
  rw [keyBytes, hoff, ← List.drop_drop, hdrop]
  rfl

/-! ### What passes for a word -/

/-- The cache holds blocks of memcached's items, each in the slot of its key. -/
def Mirrors (s : Store) (c : Cache) : Prop :=
  ∀ i, (c i).valid = true → ∃ it, s.find it.key = some it ∧ (c i).block = it.block ∧
    (c i).hash = fnv1aHash32 it.key ∧ slotOf it.key = i.val

/-- The key of the entry that is taken for one of the key `w`. -/
def passingKey (c : Cache) (w : List Byte) : Option (List Byte) :=
  let e := c.at (fnv1aHash32 w)
  if e.valid = true ∧ fnv1aHash32 (entryKey e) = fnv1aHash32 w ∧
    w <+: entryKey e then some (entryKey e) else none

lemma passingKey_eq_some_iff {c : Cache} {w key : List Byte} : passingKey c w = some key ↔
    (c.at (fnv1aHash32 w)).valid = true ∧ fnv1aHash32 key = fnv1aHash32 w ∧ w <+: key ∧
      entryKey (c.at (fnv1aHash32 w)) = key := by
  simp only [passingKey, Option.ite_none_right_eq_some, Option.some.injEq]
  constructor
  · rintro ⟨⟨hvalid, hhash, hprefix⟩, rfl⟩
    exact ⟨hvalid, hhash, hprefix, rfl⟩
  · rintro ⟨hvalid, hhash, hprefix, rfl⟩
    exact ⟨⟨hvalid, hhash, hprefix⟩, rfl⟩

lemma passingKey_self_iff {c : Cache} {k : List Byte} : passingKey c k = some k ↔
    (c.at (fnv1aHash32 k)).valid = true ∧ entryKey (c.at (fnv1aHash32 k)) = k := by
  simp [passingKey_eq_some_iff]

lemma passingKey_self_of_some {c : Cache} {w key : List Byte} (h : passingKey c w = some key) :
    passingKey c key = some key := by
  obtain ⟨hvalid, hhash, -, hkey⟩ := passingKey_eq_some_iff.mp h
  rw [passingKey_self_iff, hhash]
  exact ⟨hvalid, hkey⟩

lemma longerTwin_iff {c : Cache} {w : List Byte} :
    LongerTwin c w ↔ ∃ key, passingKey c w = some key ∧ key ≠ w := by
  constructor
  · rintro ⟨hvalid, hhash, hprefix, hne⟩
    exact ⟨_, passingKey_eq_some_iff.mpr ⟨hvalid, hhash, hprefix, rfl⟩, hne.symm⟩
  · rintro ⟨key, hpass, hne⟩
    obtain ⟨hvalid, hhash, hprefix, rfl⟩ := passingKey_eq_some_iff.mp hpass
    exact ⟨hvalid, hhash, hprefix, hne.symm⟩

section Passing

variable {s : Store} {c : Cache} (hc : Mirrors s c)

include hc

lemma mirrors_entry {hash : UInt32} (hvalid : (c.at hash).valid = true) :
    ∃ it, s.find it.key = some it ∧ (c.at hash).block = it.block ∧ entryKey (c.at hash) = it.key := by
  obtain ⟨it, hfind, hblock, -⟩ := hc _ hvalid
  refine ⟨it, hfind, hblock, ?_⟩
  rw [entryKey, Cache.at, hblock, keyField_block]

lemma wholeBlocks_of_mirrors : WholeBlocks c := by
  intro i hvalid
  obtain ⟨it, -, hblock, hhash, hslot⟩ := hc i hvalid
  refine ⟨it.key, ⟨it.isKey.pos, it.isKey.le⟩, it.isKey.noSpace, ?_, hhash, ?_⟩
  · refine ⟨itoaU32 it.flags, itoaU32 it.value.length, it.value, ?_⟩
    rw [hblock, ← List.append_nil it.block, block_append]
    rfl
  · rw [hhash]
    exact hslot

lemma cachedBlock_cases {w : List Byte} (hw : ∀ b ∈ w, isKeyByte b = true) :
    (passingKey c w = none ∧ cachedBlock c w = []) ∨
      ∃ it, s.find it.key = some it ∧ passingKey c w = some it.key ∧ cachedBlock c w = it.block := by
  have hiff := cachedBlock_ne_nil_iff (wholeBlocks_of_mirrors hc) hw
  by_cases hnil : cachedBlock c w = []
  · left
    refine ⟨?_, hnil⟩
    rw [passingKey, if_neg fun h => hiff.mpr h hnil]
  · right
    obtain ⟨hvalid, hblock⟩ := cachedBlock_eq_block hnil
    obtain ⟨it, hfind, hitem, hkey⟩ := mirrors_entry hc hvalid
    refine ⟨it, hfind, ?_, ?_⟩
    · rw [passingKey, if_pos (hiff.mp hnil), hkey]
    · rw [hblock, hitem]

lemma find_of_passingKey {w key : List Byte} (h : passingKey c w = some key) :
    ∃ it, s.find key = some it := by
  obtain ⟨hvalid, -, -, hkey⟩ := passingKey_eq_some_iff.mp h
  obtain ⟨it, hfind, -, hentry⟩ := mirrors_entry hc hvalid
  exact ⟨it, by rw [← hkey, hentry, hfind]⟩

lemma flatten_cachedBlocks {ws : List (List Byte)} (hws : ∀ w ∈ ws, ∀ b ∈ w, isKeyByte b = true) :
    (ws.map (cachedBlock c)).flatten =
      (((ws.filterMap (passingKey c)).filterMap s.find).map Item.block).flatten := by
  induction ws with
  | nil => rfl
  | cons w ws ih =>
    rw [List.map_cons, List.flatten_cons, ih fun w' hw' => hws w' (List.mem_cons_of_mem _ hw')]
    rcases cachedBlock_cases hc (hws w List.mem_cons_self) with ⟨hnone, hnil⟩ | ⟨it, hfind, hpass, hblock⟩
    · rw [List.filterMap_cons_none hnone, hnil, List.nil_append]
    · rw [List.filterMap_cons_some hpass, List.filterMap_cons_some hfind, hblock, List.map_cons,
        List.flatten_cons]

/-- A held key that is not cached, or one for which a longer key passes, shows in the counts. -/
lemma passing_eq_held_iff (ks : List (List Byte)) :
    ks.filterMap (passingKey c) = ks.filter (fun k => (s.find k).isSome) ↔
      ∀ k ∈ ks, ((s.find k).isSome = true → passingKey c k = some k) ∧ ¬LongerTwin c k := by
  constructor
  · intro h
    have hcount : ∀ key, (s.find key).isSome = true →
        ks.countP (fun k => passingKey c k == some key) = ks.countP (· == key) := by
      intro key hheld
      have hkey := congrArg (List.count key) h
      rw [List.count_filter (p := fun k => (s.find k).isSome) hheld, List.count_filterMap] at hkey
      exact hkey
    intro k hk
    constructor
    · intro hheld
      have hpos : 0 < ks.countP (· == k) := List.countP_pos_iff.mpr ⟨k, hk, by simp⟩
      rw [← hcount k hheld, List.countP_pos_iff] at hpos
      obtain ⟨k', -, hpass⟩ := hpos
      exact passingKey_self_of_some (eq_of_beq hpass)
    · rw [longerTwin_iff]
      rintro ⟨key, hpass, hne⟩
      obtain ⟨it, hfind⟩ := find_of_passingKey hc hpass
      have hsum := hcount key (by rw [hfind]; rfl)
      -- both the longer key and `k` count for the longer key
      rw [List.countP_eq_countP_filter_add ks _ (· == key), List.countP_filter, List.countP_filter] at hsum
      have hself : ks.countP (fun k => passingKey c k == some key && k == key) = ks.countP (· == key) := by
        apply List.countP_congr
        intro k' _
        simp only [Bool.and_eq_true, beq_iff_eq]
        constructor
        · exact fun h => h.2
        · rintro rfl
          exact ⟨passingKey_self_of_some hpass, rfl⟩
      have hother : 0 < ks.countP (fun k => passingKey c k == some key && !(k == key)) := by
        rw [List.countP_pos_iff]
        refine ⟨k, hk, ?_⟩
        simp [hpass, hne.symm]
      omega
  · intro h
    induction ks with
    | nil => rfl
    | cons k ks ih =>
      obtain ⟨hheld, htwin⟩ := h k List.mem_cons_self
      have hrec := ih fun k' hk' => h k' (List.mem_cons_of_mem _ hk')
      cases hfind : (s.find k).isSome with
      | true =>
        rw [List.filterMap_cons_some (hheld hfind),
          List.filter_cons_of_pos (p := fun k => (s.find k).isSome) hfind, hrec]
      | false =>
        have hnone : passingKey c k = none := by
          rw [Option.eq_none_iff_forall_ne_some]
          intro key hpass
          obtain rfl : key = k := by
            by_contra hne
            exact htwin (longerTwin_iff.mpr ⟨key, hpass, hne⟩)
          obtain ⟨it, hit⟩ := find_of_passingKey hc hpass
          simp [hit] at hfind
        rw [List.filterMap_cons_none hnone, List.filter_cons_of_neg (by simp [hfind]), hrec]

lemma replyText_passing_iff (ws ks : List (List Byte)) :
    replyText ((ws.filterMap (passingKey c)).filterMap s.find) = processGetCommand s ks ↔
      ws.filterMap (passingKey c) = ks.filter (fun k => (s.find k).isSome) := by
  have hheld : (ks.filter fun k => (s.find k).isSome).filterMap s.find = ks.filterMap s.find := by
    rw [List.filterMap_filter]
    apply List.filterMap_congr
    intro k _
    cases s.find k <;> rfl
  constructor
  · intro h
    have hkeys := keys_of_replyText_eq h
    have hleft : ∀ l : List (List Byte), (∀ key ∈ l, (s.find key).isSome = true) →
        (l.filterMap s.find).map Item.key = l := by
      intro l hl
      induction l with
      | nil => rfl
      | cons key l ih =>
        obtain ⟨it, hfind⟩ := Option.isSome_iff_exists.mp (hl key List.mem_cons_self)
        rw [List.filterMap_cons_some hfind, List.map_cons, s.key_of_find hfind,
          ih fun key' hkey' => hl key' (List.mem_cons_of_mem _ hkey')]
    rw [hleft, ← hheld, hleft] at hkeys
    · exact hkeys
    · intro key hkey
      exact (List.mem_filter.mp hkey).2
    · intro key hkey
      obtain ⟨w, -, hpass⟩ := List.mem_filterMap.mp hkey
      obtain ⟨it, hfind⟩ := find_of_passingKey hc hpass
      rw [hfind]
      rfl
  · intro h
    rw [h, hheld, processGetCommand]

end Passing

/-! ### The answer -/

lemma seen_quiet (c : Cache) : seen Interference.quiet c = fun _ => c := by
  funext t
  induction t with
  | zero => rfl
  | succ t ih =>
    rw [seen, ih]
    rfl

lemma blocks_const (c : Cache) (t : ℕ) (ks : List (List Byte)) :
    blocks (fun _ => c) t ks = (ks.map (cachedBlock c)).flatten := by
  induction ks generalizing t with
  | nil => rfl
  | cons k ks ih => rw [blocks, ih, List.map_cons, List.flatten_cons]

lemma flatten_looksCached (c : Cache) (ws : List (List Byte)) :
    ((ws.filter (looksCached c)).map (cachedBlock c)).flatten = (ws.map (cachedBlock c)).flatten := by
  induction ws with
  | nil => rfl
  | cons w ws ih =>
    by_cases hw : looksCached c w = true
    · rw [List.filter_cons_of_pos hw, List.map_cons, List.flatten_cons, ih, List.map_cons, List.flatten_cons]
    · have hnil : cachedBlock c w = [] := by
        simp only [cachedBlock]
        rw [if_neg]
        rintro ⟨hvalid, hhash, -⟩
        exact hw (by simp [looksCached, hvalid, hhash])
      rw [List.filter_cons_of_neg hw, ih, List.map_cons, List.flatten_cons, hnil, List.nil_append]

lemma answer_eq {s : Store} {c : Cache} (hc : Mirrors s c) {hdr : List Byte} (hhdr : hdr.length = headersLen)
    {ks : List (List Byte)} (hne : ks ≠ []) (hkeys : ∀ k ∈ ks, IsKey k) {headroom : List Byte} {cpu : PerCpu}
    (htx : (runXdp Interference.quiet headroom (hdr ++ getLine ks) cpu c).1 = .tx) :
    (runXdp Interference.quiet headroom (hdr ++ getLine ks) cpu c).2.ctx.pkt.drop headersLen =
      replyText (((readWords ks).filterMap (passingKey c)).filterMap s.find) := by
  obtain ⟨hframe, i, b, saved, hi, ⟨-, hline, -, hsaved, -⟩, -, -, hpkt⟩ := runXdp_sent htx
  rw [seen_quiet, keyBytes_getLine hhdr hne hkeys] at hsaved
  rw [keyBytes_getLine hhdr hne hkeys] at hi
  rw [List.nil_append, savedKeys_keyLine c hkeys hne hi hline 1] at hsaved
  rw [hpkt, List.drop_left' (length_replyHeader hframe _), seen_quiet, blocks_const, hsaved,
    flatten_looksCached, flatten_cachedBlocks hc (isKeyByte_of_mem_readWords hkeys)]
  rfl

lemma readWords_of_no_return {ks : List (List Byte)} (h : ∀ k ∈ ks, CR ∉ k) : readWords ks = ks := by
  induction ks with
  | nil => rfl
  | cons k ks ih =>
    rw [readWords, if_neg (h k List.mem_cons_self), ih fun k' hk' => h k' (List.mem_cons_of_mem _ hk')]

/-- Every requested key that memcached holds has an entry of its own, and for none of the
requested keys an entry of a longer key passes. -/
def AllServed (s : Store) (c : Cache) (ks : List (List Byte)) : Prop :=
  ∀ k ∈ ks, ((s.find k).isSome = true →
    (c.at (fnv1aHash32 k)).valid = true ∧ entryKey (c.at (fnv1aHash32 k)) = k) ∧ ¬LongerTwin c k

/-! #### A cache with one entry -/

def smallItem (key value : List Char) (hkey : IsKey (ascii key)) : Item where
  key := ascii key
  flags := 0
  value := ascii value
  chunks := [ascii value ++ crlf]
  isKey := hkey
  flags_lt := zero_flags_lt
  chunks_eq := List.flatten_singleton
  chunks_large := Or.inl rfl

def cachedItem : Item :=
  smallItem "kkkkkkkkkkkk".toList "abc".toList ⟨by decide, by decide, by decide, by decide⟩

def otherItem : Item :=
  smallItem "mmmmmmmmmmmm".toList "xyz".toList ⟨by decide, by decide, by decide, by decide⟩

def cachedItemCache : Cache := cacheAfterReply "VALUE kkkkkkkkkkkk 0 3\r\nabc\r\nEND\r\n".toList

lemma cachedItemCache_mirrors {s : Store} (hs : s.find cachedItem.key = some cachedItem) :
    Mirrors s cachedItemCache := by
  intro i hvalid
  have hslot : i.val = slotOf cachedItem.key := by
    rw [cacheAfterReply_others (by decide +kernel) i hvalid]
    decide +kernel
  obtain rfl : i = ⟨cacheIdx (fnv1aHash32 cachedItem.key), cacheIdx_lt _⟩ := Fin.ext hslot
  refine ⟨cachedItem, hs, ?_, ?_, rfl⟩
  · decide +kernel
  · decide +kernel

end BmcCache.Proofs
