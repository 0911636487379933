import BmcCache.Model.Memcached
import BmcCache.Proofs.MachineSteps
import BmcCache.Proofs.Verdicts
import Mathlib.Data.Set.Piecewise

/-!
# Which slots a TCP segment invalidates

`bmc_invalidate_cache_main` looks for the text `set` and takes the word behind it for a key,
wherever in the segment that happens. `readOn` describes the text it reads phrase by phrase;
the slots it invalidates are those of the words read. A `set` command is noticed when no
earlier `set` text is still waiting for its word at the place where the command starts.
-/

namespace BmcCache.Proofs

open Buffer

/-! ### Reading a text -/

def setText : List Byte := ascii ['s', 'e', 't']

/-- What follows a `set` text: one byte, spaces, and a word with a space behind it, or a
carriage return in place of the word. The result is the word, if any, and the bytes behind. -/
def readPhrase (r : List Byte) : Option (Option (List Byte) × List Byte) :=
  match (r.drop 1).dropWhile (· == SP) with
  | [] => none
  | b :: bs =>
    if b = CR then some (none, bs)
    else
      match (b :: bs).dropWhile (· != SP) with
      | [] => none
      | _ :: rest => some (some ((b :: bs).takeWhile (· != SP)), rest)

/-- Read on by one byte that starts no `set` text, or by a `set` text and what follows it. -/
def readOn : List Byte → Option (Option (List Byte) × List Byte)
  | [] => none
  | c :: cs => if setText.isPrefixOf (c :: cs) then readPhrase (cs.drop 2) else some (none, cs)

/-- Reading `l` comes to `l'` with no `set` text unfinished. -/
inductive Outside : List Byte → List Byte → Prop
  | here (l : List Byte) : Outside l l
  | next {l l' rest : List Byte} {w : Option (List Byte)} : readOn l = some (w, rest) → Outside rest l' →
      Outside l l'

/-- Reading `l` takes `w` for a key. -/
def ReadsWord (l w : List Byte) : Prop := ∃ l' rest, Outside l l' ∧ readOn l' = some (some w, rest)

lemma readsWord_iff (l w : List Byte) :
    ReadsWord l w ↔ ∃ w' rest, readOn l = some (w', rest) ∧ (w' = some w ∨ ReadsWord rest w) := by
  constructor
  · rintro ⟨l', rest, hout, hread⟩
    cases hout with
    | here => exact ⟨some w, rest, hread, Or.inl rfl⟩
    | next h hout => exact ⟨_, _, h, Or.inr ⟨l', rest, hout, hread⟩⟩
  · rintro ⟨w', rest, hread, rfl | ⟨l', rest', hout, hread'⟩⟩
    · exact ⟨l, rest, .here l, hread⟩
    · exact ⟨l', rest', .next hread hout, hread'⟩

lemma readPhrase_length {r rest : List Byte} {w : Option (List Byte)} (h : readPhrase r = some (w, rest)) :
    rest.length ≤ r.length := by
  have hdrop := (List.dropWhile_sublist (l := r.drop 1) (· == SP)).length_le
  rw [List.length_drop] at hdrop
  unfold readPhrase at h
  split at h
  · simp at h
  · next b bs hq =>
    rw [hq, List.length_cons] at hdrop
    split_ifs at h
    · simp only [Option.some.injEq, Prod.mk.injEq] at h
      rw [← h.2]
      omega
    · split at h
      · simp at h
      · next hrest =>
        have hdrop' := (List.dropWhile_sublist (l := b :: bs) (· != SP)).length_le
        rw [hrest, List.length_cons, List.length_cons] at hdrop'
        simp only [Option.some.injEq, Prod.mk.injEq] at h
        rw [← h.2]
        omega

lemma readOn_length {l rest : List Byte} {w : Option (List Byte)} (h : readOn l = some (w, rest)) :
    rest.length < l.length := by
  cases l with
  | nil => simp [readOn] at h
  | cons c cs =>
    rw [readOn] at h
    split_ifs at h
    · have hlen := readPhrase_length h
      rw [List.length_drop] at hlen
      rw [List.length_cons]
      omega
    · simp only [Option.some.injEq, Prod.mk.injEq] at h
      rw [← h.2, List.length_cons]
      exact Nat.lt_succ_self _

lemma Outside.length_le {l m : List Byte} (h : Outside l m) : m.length ≤ l.length := by
  induction h with
  | here l => exact Nat.le_refl _
  | next hread _ ih => exact Nat.le_of_lt (lt_of_le_of_lt ih (readOn_length hread))

/-- The form of a phrase that is read to its end. -/
lemma readPhrase_eq_some {r rest : List Byte} {w : Option (List Byte)} (h : readPhrase r = some (w, rest)) :
    ∃ x spaces body, r = x :: (spaces ++ body) ∧ (∀ y ∈ spaces, y = SP) ∧
      ((w = none ∧ body = CR :: rest) ∨
        ∃ y ys, w = some (y :: ys) ∧ y ≠ CR ∧ SP ∉ y :: ys ∧ body = y :: ys ++ SP :: rest) := by
  unfold readPhrase at h
  split at h
  · simp at h
  · next b bs hq =>
    cases r with
    | nil => simp at hq
    | cons x r =>
      rw [List.drop_one, List.tail_cons] at hq
      refine ⟨x, r.takeWhile (· == SP), b :: bs, ?_, ?_, ?_⟩
      · rw [← hq, List.takeWhile_append_dropWhile]
      · intro y hy
        simpa using List.mem_takeWhile_imp hy
      · split_ifs at h with hcr
        · left
          simp only [Option.some.injEq, Prod.mk.injEq] at h
          exact ⟨h.1.symm, by rw [hcr, h.2]⟩
        · right
          split at h
          · simp at h
          · next d rest' hrest =>
            simp only [Option.some.injEq, Prod.mk.injEq] at h
            have hsp : b ≠ SP := by
              have hhead := List.head?_dropWhile_not (· == SP) r
              rw [hq] at hhead
              simpa using hhead
            have hd : d = SP := by
              have hhead := List.head?_dropWhile_not (· != SP) (b :: bs)
              rw [hrest] at hhead
              simpa using hhead
            have htake : (b :: bs).takeWhile (· != SP) = b :: bs.takeWhile (· != SP) :=
              List.takeWhile_cons_of_pos (by simpa using hsp)
            refine ⟨b, bs.takeWhile (· != SP), ?_, hcr, ?_, ?_⟩
            · rw [← h.1, htake]
            · rw [← htake]
              intro hmem
              simpa using List.mem_takeWhile_imp hmem
            · rw [hd] at hrest
              rw [← htake, ← h.2, ← hrest, List.takeWhile_append_dropWhile]

lemma four_le_of_readsWord {l w : List Byte} (h : ReadsWord l w) : 4 ≤ l.length := by
  obtain ⟨l', rest, hout, hread⟩ := h
  refine le_trans ?_ hout.length_le
  cases l' with
  | nil => simp [readOn] at hread
  | cons c cs =>
    rw [readOn] at hread
    split_ifs at hread with hset
    · obtain ⟨x, spaces, body, hcs, -, -⟩ := readPhrase_eq_some hread
      have hlen := congrArg List.length hcs
      rw [List.length_drop, List.length_cons] at hlen
      rw [List.length_cons]
      omega
    · simp at hread

/-! ### The scanner -/

/-- The hashes of the keys the scanner finds. -/
def scanHashes : List Byte → ScanVars → List UInt32
  | [], _ => []
  | c :: cs, v =>
    match (scanStep v c cs).2 with
    | .keyEnd hash => hash :: scanHashes cs (scanStep v c cs).1
    | _ => scanHashes cs (scanStep v c cs).1

def invalidateAt (c : Cache) (hash : UInt32) : Cache :=
  c.store (cacheIdx hash) { c.at hash with valid := false }

/-- The scanner has found a key only behind a `set` text. -/
def SoundVars (v : ScanVars) : Prop := v.keyFound = true → v.setFound = true

section Bound

variable {v : ScanVars} {c : Byte} {cs : List Byte}

lemma soundVars_scanStep (hv : SoundVars v) : SoundVars (scanStep v c cs).1 := by
  have hhash : ∀ h, SoundVars { v with hash := h } := fun h => hv
  unfold scanStep
  split_ifs with h1 h2 h3 h4 h5 h6
  · exact hv
  · exact fun _ => rfl
  · intro h
    exact absurd h Bool.false_ne_true
  · exact fun _ => h3.2.1
  · intro h
    exact absurd h Bool.false_ne_true
  · exact hhash _
  · exact hv

lemma scanStep_ne_keyEnd (h : v.keyFound = false) (hash : UInt32) : (scanStep v c cs).2 ≠ .keyEnd hash := by
  unfold scanStep
  split_ifs with h1 h2 h3 h4 h5
  all_goals simp_all

lemma scanHashes_short {l : List Byte} (hl : l.length ≤ 1) (h : v.keyFound = false) :
    scanHashes l v = [] := by
  match l with
  | [] => rfl
  | [b] =>
    have hno := @scanStep_ne_keyEnd v b [] h
    rw [scanHashes]
    split
    · next hash hev => exact absurd hev (hno hash)
    · rfl
  | _ :: _ :: _ => simp at hl

/-- A bound on the bytes in sight matters to a step only where it cuts a `set` text. -/
lemma scanStep_take (hv : SoundVars v) {n : ℕ} (h : scanStep v c (cs.take n) ≠ scanStep v c cs) :
    n < 2 ∧ v.keyFound = false ∧ scanStep v c (cs.take n) = (v, .none) ∧
      scanStep v c cs = ({ v with setFound := true, skip := 3 }, .setRecv) := by
  have hskip : v.skip = 0 := by
    by_contra hne
    exact h (by simp only [scanStep, Nat.pos_of_ne_zero hne, if_true])
  have hset : v.setFound = false := by
    by_contra hne
    exact h (by simp [scanStep, eq_true_of_ne_false hne])
  have hkey : v.keyFound = false := by
    by_contra hne
    rw [hv (eq_true_of_ne_false hne)] at hset
    exact absurd hset.symm Bool.false_ne_true
  have hs : c = chr 's' := by
    by_contra hne
    exact h (by simp only [scanStep, hne, false_and, and_false])
  have hcut : (ascii ['e', 't']).isPrefixOf (cs.take n) = false ∧
      (ascii ['e', 't']).isPrefixOf cs = true := by
    by_cases hcs : (ascii ['e', 't']).isPrefixOf cs = true
    · refine ⟨?_, hcs⟩
      by_contra hne
      exact h (by simp only [scanStep, hcs, eq_true_of_ne_false hne])
    · have hshort : (ascii ['e', 't']).isPrefixOf (cs.take n) ≠ true := by
        intro hp
        rw [List.isPrefixOf_iff_prefix] at hp hcs
        exact hcs (hp.trans (List.take_prefix _ _))
      exact absurd (by simp only [scanStep, hcs, hshort]) h
  refine ⟨?_, hkey, ?_, ?_⟩
  · by_contra hn
    obtain ⟨rest, rfl⟩ := List.isPrefixOf_iff_prefix.mp hcut.2
    have hpre : ascii ['e', 't'] <+: (ascii ['e', 't'] ++ rest).take n := by
      rw [List.prefix_take_iff]
      exact ⟨List.prefix_append _ _, by simpa [ascii] using Nat.le_of_not_lt hn⟩
    rw [List.isPrefixOf_iff_prefix.mpr hpre] at hcut
    exact absurd hcut.1.symm Bool.false_ne_true
  · simp [scanStep, hskip, hset, hkey, hcut.1]
  · simp [scanStep, hskip, hset, hs, hcut.2]

end Bound

/-- The slots the loop invalidates are those of the keys found in the bytes it may look at. -/
lemma scanLoop_kcache (n : ℕ) (l : List Byte) {v : ScanVars} (hv : SoundVars v) (cpu : PerCpu) (c : Cache) :
    (scanLoop n l v cpu c).2 = (scanHashes (l.take n) v).foldl invalidateAt c := by
  induction l generalizing n v cpu c with
  | nil => cases n <;> rfl
  | cons b bs ih =>
    cases n with
    | zero => rfl
    | succ n =>
      rw [scanLoop, List.take_succ_cons, ih n (soundVars_scanStep hv)]
      by_cases hsame : scanStep v b (bs.take n) = scanStep v b bs
      · simp only [scanHashes]
        rw [hsame]
        cases hev : (scanStep v b bs).2 with
        | none => rfl
        | setRecv => rfl
        | keyEnd hash =>
          rw [List.foldl_cons]
          simp only [applyScanEvent, invalidateSlot_kcache]
          rfl
      · -- too few bytes are left for a key behind the `set` text that is cut
        obtain ⟨hn, hkey, hcut, hwhole⟩ := scanStep_take hv hsame
        have hshort : (bs.take n).length ≤ 1 := by
          rw [List.length_take]
          omega
        simp only [scanHashes]
        rw [hcut, hwhole]
        dsimp only
        rw [scanHashes_short (v := v) hshort hkey,
          scanHashes_short (v := { v with setFound := true, skip := 3 }) hshort hkey]
        rfl

section States

variable (h : UInt32) (c : Byte) (cs rest : List Byte)

lemma scanHashes_plain (hplain : setText.isPrefixOf (c :: cs) = false) :
    scanHashes (c :: cs) ⟨false, false, h, 0⟩ = scanHashes cs ⟨false, false, h, 0⟩ := by
  have hno : ¬(c = chr 's' ∧ (ascii ['e', 't']).isPrefixOf cs = true) := by
    rintro ⟨rfl, het⟩
    have hset : setText.isPrefixOf (chr 's' :: cs) = (ascii ['e', 't']).isPrefixOf cs := by
      simp [setText, ascii]
    rw [hset, het] at hplain
    simp at hplain
  have hstep : scanStep ⟨false, false, h, 0⟩ c cs = (⟨false, false, h, 0⟩, .none) := by
    simp only [scanStep, Nat.lt_irrefl, if_false, hno, Bool.false_eq_true, false_and, and_false]
  rw [scanHashes, hstep]

lemma scanHashes_set :
    scanHashes (setText ++ rest) ⟨false, false, h, 0⟩ = scanHashes (rest.drop 1) ⟨true, false, h, 0⟩ := by
  cases rest with
  | nil => rfl
  | cons b bs => rfl

lemma scanHashes_spaces : scanHashes rest ⟨true, false, h, 0⟩ =
    scanHashes (rest.dropWhile (· == SP)) ⟨true, false, h, 0⟩ := by
  induction rest with
  | nil => rfl
  | cons b bs ih =>
    by_cases hb : b = SP
    · have hstep : scanStep ⟨true, false, h, 0⟩ b bs = (⟨true, false, h, 0⟩, .none) := by
        simp [scanStep, hb]
      rw [scanHashes, hstep, List.dropWhile_cons_of_pos (by simpa using hb)]
      exact ih
    · rw [List.dropWhile_cons_of_neg (by simpa using hb)]

lemma scanHashes_return :
    scanHashes (CR :: rest) ⟨true, false, h, 0⟩ = scanHashes rest ⟨false, false, h, 0⟩ := by
  rfl

lemma scanHashes_word : scanHashes rest ⟨true, true, h, 0⟩ =
    match rest.dropWhile (· != SP) with
    | [] => []
    | _ :: rest' => (rest.takeWhile (· != SP)).foldl fnvStep h ::
        scanHashes rest' ⟨false, false, (rest.takeWhile (· != SP)).foldl fnvStep h, 0⟩ := by
  induction rest generalizing h with
  | nil => rfl
  | cons b bs ih =>
    by_cases hb : b = SP
    · have hstep : scanStep ⟨true, true, h, 0⟩ b bs = (⟨false, false, h, 0⟩, .keyEnd h) := by
        simp [scanStep, hb]
      rw [scanHashes, hstep, List.dropWhile_cons_of_neg (by simpa using hb),
        List.takeWhile_cons_of_neg (by simpa using hb)]
      rfl
    · have hstep : scanStep ⟨true, true, h, 0⟩ b bs = (⟨true, true, fnvStep h b, 0⟩, .none) := by
        simp [scanStep, hb]
      rw [scanHashes, hstep, List.dropWhile_cons_of_pos (by simpa using hb),
        List.takeWhile_cons_of_pos (by simpa using hb)]
      exact ih (fnvStep h b)

lemma scanHashes_start (hsp : c ≠ SP) (hcr : c ≠ CR) : scanHashes (c :: cs) ⟨true, false, h, 0⟩ =
    scanHashes cs ⟨true, true, fnvStep fnvOffsetBasis32 c, 0⟩ := by
  have hstep : scanStep ⟨true, false, h, 0⟩ c cs =
      (⟨true, true, fnvStep fnvOffsetBasis32 c, 0⟩, .none) := by
    simp [scanStep, hsp, hcr]
  rw [scanHashes, hstep]

end States

/-- Outside a `set` text the scanner finds the word read next, and then goes on behind it. -/
lemma scanHashes_readOn (l : List Byte) (h : UInt32) : ∃ h',
    scanHashes l ⟨false, false, h, 0⟩ =
      match readOn l with
      | none => []
      | some (w, rest) => (w.map fnv1aHash32).toList ++ scanHashes rest ⟨false, false, h', 0⟩ := by
  cases l with
  | nil => exact ⟨h, rfl⟩
  | cons c cs =>
    rw [readOn]
    by_cases hset : setText.isPrefixOf (c :: cs) = true
    · rw [if_pos hset]
      obtain ⟨r, hr⟩ := List.isPrefixOf_iff_prefix.mp hset
      have hcs : cs.drop 2 = r := by
        have htail := congrArg (List.drop 3) hr
        simpa [setText, ascii] using htail.symm
      rw [hcs, ← hr, scanHashes_set, scanHashes_spaces, readPhrase]
      cases hq : (r.drop 1).dropWhile (· == SP) with
      | nil => exact ⟨h, rfl⟩
      | cons b bs =>
        have hsp : b ≠ SP := by
          have hhead := List.head?_dropWhile_not (· == SP) (r.drop 1)
          rw [hq] at hhead
          simpa using hhead
        by_cases hcr : b = CR
        · refine ⟨h, ?_⟩
          rw [hcr, scanHashes_return]
          simp
        · rw [scanHashes_start h b bs hsp hcr, scanHashes_word]
          have hdrop : (b :: bs).dropWhile (· != SP) = bs.dropWhile (· != SP) :=
            List.dropWhile_cons_of_pos (by simpa using hsp)
          have htake : (b :: bs).takeWhile (· != SP) = b :: bs.takeWhile (· != SP) :=
            List.takeWhile_cons_of_pos (by simpa using hsp)
          refine ⟨(bs.takeWhile (· != SP)).foldl fnvStep (fnvStep fnvOffsetBasis32 b), ?_⟩
          simp only [hcr, if_false, hdrop, htake]
          cases bs.dropWhile (· != SP) with
          | nil => rfl
          | cons d ds => rfl
    · rw [Bool.not_eq_true] at hset
      refine ⟨h, ?_⟩
      rw [hset, scanHashes_plain h c cs hset]
      simp

/-- The hashes found are those of the words read. -/
lemma mem_scanHashes_iff (l : List Byte) (h hash : UInt32) :
    hash ∈ scanHashes l ⟨false, false, h, 0⟩ ↔ ∃ w, ReadsWord l w ∧ fnv1aHash32 w = hash := by
  induction hn : l.length using Nat.strong_induction_on generalizing l h with
  | _ n ih =>
    obtain ⟨h', hscan⟩ := scanHashes_readOn l h
    rw [hscan]
    cases hread : readOn l with
    | none =>
      simp only [List.not_mem_nil, false_iff]
      rintro ⟨w, hw, -⟩
      rw [readsWord_iff, hread] at hw
      simp at hw
    | some r =>
      obtain ⟨w', rest⟩ := r
      have hlen : rest.length < n := hn ▸ readOn_length hread
      have hrec := ih rest.length hlen rest h' rfl
      have hwords : ∀ w, ReadsWord l w ↔ w' = some w ∨ ReadsWord rest w := by
        intro w
        rw [readsWord_iff, hread]
        simp
      simp only [List.mem_append, Option.mem_toList, Option.map_eq_some_iff, hrec, hwords, or_and_right,
        exists_or]

/-! ### Clearing a set of slots -/

def invalidated (e : BmcCacheEntry) : BmcCacheEntry := { e with valid := false }

open Classical in
/-- The cache with the entries of the slots in `S` invalid. -/
noncomputable def clearSlots (S : Set (Fin bmcCacheEntryCount)) (c : Cache) : Cache :=
  S.piecewise (fun i => invalidated (c i)) c

section Clear

variable {S T : Set (Fin bmcCacheEntryCount)} {c : Cache} {i : Fin bmcCacheEntryCount}

lemma clearSlots_of_mem (h : i ∈ S) : clearSlots S c i = invalidated (c i) := by
  classical exact Set.piecewise_eq_of_mem _ _ _ h

lemma clearSlots_of_notMem (h : i ∉ S) : clearSlots S c i = c i := by
  classical exact Set.piecewise_eq_of_notMem _ _ _ h

lemma clearSlots_empty (c : Cache) : clearSlots ∅ c = c := by
  funext i
  exact clearSlots_of_notMem (Set.notMem_empty i)

lemma clearSlots_clearSlots (S T : Set (Fin bmcCacheEntryCount)) (c : Cache) :
    clearSlots T (clearSlots S c) = clearSlots (S ∪ T) c := by
  funext i
  by_cases hS : i ∈ S
  · rw [clearSlots_of_mem (Set.mem_union_left T hS)]
    by_cases hT : i ∈ T
    · rw [clearSlots_of_mem hT, clearSlots_of_mem hS]
      rfl
    · rw [clearSlots_of_notMem hT, clearSlots_of_mem hS]
  · by_cases hT : i ∈ T
    · rw [clearSlots_of_mem (Set.mem_union_right S hT), clearSlots_of_mem hT, clearSlots_of_notMem hS]
    · have hboth : i ∉ S ∪ T := fun h => h.elim hS hT
      rw [clearSlots_of_notMem hboth, clearSlots_of_notMem hT, clearSlots_of_notMem hS]

lemma valid_clearSlots : (clearSlots S c i).valid = true ↔ (c i).valid = true ∧ i ∉ S := by
  by_cases hS : i ∈ S
  · simp [clearSlots_of_mem hS, invalidated, hS]
  · simp [clearSlots_of_notMem hS, hS]

/-- Nothing but valid bits changes. -/
lemma contents_clearSlots : (clearSlots S c i).data = (c i).data ∧ (clearSlots S c i).len = (c i).len ∧
    (clearSlots S c i).hash = (c i).hash := by
  by_cases hS : i ∈ S
  · rw [clearSlots_of_mem hS]
    exact ⟨rfl, rfl, rfl⟩
  · rw [clearSlots_of_notMem hS]
    exact ⟨rfl, rfl, rfl⟩

lemma invalidated_eq_self (h : (c i).valid = false) : invalidated (c i) = c i := by
  rw [invalidated, ← h]

lemma clearSlots_eq_iff :
    clearSlots S c = clearSlots T c ↔ ∀ i, (c i).valid = true → (i ∈ S ↔ i ∈ T) := by
  constructor
  · intro h i hvalid
    have hi := congrArg (fun c' : Cache => (c' i).valid = true) h
    simp only [valid_clearSlots, hvalid, true_and, eq_iff_iff] at hi
    exact not_iff_not.mp hi
  · intro h
    funext i
    by_cases hvalid : (c i).valid = true
    · by_cases hS : i ∈ S
      · rw [clearSlots_of_mem hS, clearSlots_of_mem ((h i hvalid).mp hS)]
      · rw [clearSlots_of_notMem hS, clearSlots_of_notMem fun hT => hS ((h i hvalid).mpr hT)]
    · have hsame : ∀ R, clearSlots R c i = c i := by
        intro R
        by_cases hR : i ∈ R
        · rw [clearSlots_of_mem hR, invalidated_eq_self (eq_false_of_ne_true hvalid)]
        · rw [clearSlots_of_notMem hR]
      rw [hsame, hsame]

end Clear

/-! ### What one frame clears -/

/-- The slots of the words read in the text. -/
def wordSlots (text : List Byte) : Set (Fin bmcCacheEntryCount) :=
  {i | ∃ w, ReadsWord text w ∧ slotOf w = i.val}

/-- The slots of the words read in a frame: behind 54 bytes, in at most 1500 bytes. -/
def frameSlots (frame : List Byte) : Set (Fin bmcCacheEntryCount) :=
  wordSlots ((frame.drop (ethHlen + sizeofIphdr + sizeofTcphdr)).take bmcMaxPacketLength)

lemma foldl_invalidateAt (hashes : List UInt32) (c : Cache) :
    hashes.foldl invalidateAt c = clearSlots {i | ∃ hash ∈ hashes, cacheIdx hash = i.val} c := by
  induction hashes generalizing c with
  | nil =>
    have hempty : {i : Fin bmcCacheEntryCount | ∃ hash ∈ ([] : List UInt32), cacheIdx hash = i.val} = ∅ := by
      simp
    rw [List.foldl_nil, hempty, clearSlots_empty]
  | cons hash hashes ih =>
    have hone : invalidateAt c hash = clearSlots {i | cacheIdx hash = i.val} c := by
      funext i
      rw [invalidateAt, Cache.store_apply]
      by_cases hi : i.val = cacheIdx hash
      · rw [if_pos hi, clearSlots_of_mem hi.symm, Cache.at]
        have hi' : (⟨cacheIdx hash, cacheIdx_lt hash⟩ : Fin bmcCacheEntryCount) = i := Fin.ext hi.symm
        rw [hi', invalidated]
      · have hout : i ∉ {i : Fin bmcCacheEntryCount | cacheIdx hash = i.val} := fun h => hi h.symm
        rw [if_neg hi, clearSlots_of_notMem hout]
    rw [List.foldl_cons, ih, hone, clearSlots_clearSlots]
    congr 1
    ext i
    simp

lemma scanLoop_clears (text : List Byte) (cpu : PerCpu) (c : Cache) :
    (scanLoop bmcMaxPacketLength text ScanVars.init cpu c).2 =
      clearSlots (wordSlots (text.take bmcMaxPacketLength)) c := by
  rw [scanLoop_kcache _ _ (fun h => absurd h Bool.false_ne_true), foldl_invalidateAt]
  congr 1
  ext i
  constructor
  · rintro ⟨hash, hmem, hi⟩
    obtain ⟨w, hw, rfl⟩ := (mem_scanHashes_iff _ 0 hash).mp hmem
    exact ⟨w, hw, hi⟩
  · rintro ⟨w, hw, hi⟩
    exact ⟨fnv1aHash32 w, (mem_scanHashes_iff _ 0 _).mpr ⟨w, hw, rfl⟩, hi⟩

lemma wordSlots_nil : wordSlots [] = ∅ := by
  rw [Set.eq_empty_iff_forall_notMem]
  rintro i ⟨w, hw, -⟩
  rw [readsWord_iff] at hw
  simp [readOn] at hw

lemma invalidate_kcache (s : XdpState) :
    (bmcInvalidateCacheMain s).2.kcache = clearSlots (frameSlots s.ctx.pkt) s.kcache := by
  simp only [bmcInvalidateCacheMain]
  split_ifs with hnil
  · rw [frameSlots, List.length_eq_zero_iff.mp hnil, List.take_nil, wordSlots_nil, clearSlots_empty]
  · exact scanLoop_clears _ _ _

lemma frameSlots_append {hdr text : List Byte} (hhdr : IsTcpHeader hdr) :
    frameSlots (hdr ++ text) = wordSlots (text.take bmcMaxPacketLength) := by
  rw [frameSlots, ← hhdr.length, List.drop_left]

/-! ### Segments of commands -/

lemma dropWhile_key {p : Byte → Bool} {key rest : List Byte} (hpos : 0 < key.length)
    (hkey : ∀ b ∈ key, p b = false) : (key ++ rest).dropWhile p = key ++ rest := by
  obtain ⟨b, bs, rfl⟩ := List.exists_cons_of_length_pos hpos
  rw [List.cons_append, List.dropWhile_cons_of_neg]
  simp [hkey b List.mem_cons_self]

/-- Keys without control bytes are words to the scanner. -/
lemma isWord_of_lt {key : List Byte} (hkey : ∀ b ∈ key, SP < b) : SP ∉ key ∧ key.head? ≠ some CR := by
  constructor
  · intro hmem
    exact absurd (hkey SP hmem) (by decide)
  · intro hhead
    exact absurd (hkey CR (List.mem_of_head? hhead)) (by decide)

lemma readOn_set {key rest : List Byte} (hpos : 0 < key.length) (hkey : SP ∉ key ∧ key.head? ≠ some CR) :
    readOn (setText ++ SP :: (key ++ SP :: rest)) = some (some key, rest) := by
  obtain ⟨hsp, hcr⟩ := hkey
  have hne : ∀ b ∈ key, b ≠ SP := fun b hb => ne_of_mem_of_not_mem hb hsp
  have hphrase : readOn (setText ++ SP :: (key ++ SP :: rest)) = readPhrase (SP :: (key ++ SP :: rest)) := by
    simp [readOn, setText, ascii]
  have hspaces : ((SP :: (key ++ SP :: rest)).drop 1).dropWhile (· == SP) = key ++ SP :: rest := by
    rw [List.drop_one, List.tail_cons]
    exact dropWhile_key hpos (fun b hb => by simpa using hne b hb)
  have hall : ∀ b ∈ key, (b != SP) = true := fun b hb => by simpa using hne b hb
  rw [hphrase, readPhrase, hspaces]
  obtain ⟨b, bs, rfl⟩ := List.exists_cons_of_length_pos hpos
  have hfirst : b ≠ CR := by simpa using hcr
  have hdrop : (b :: (bs ++ SP :: rest)).dropWhile (· != SP) = SP :: rest := by
    rw [← List.cons_append, List.dropWhile_append_of_pos hall]
    simp
  have htake : (b :: (bs ++ SP :: rest)).takeWhile (· != SP) = b :: bs := by
    rw [← List.cons_append, List.takeWhile_append_of_pos hall]
    simp
  simp only [List.cons_append, hfirst, if_false, hdrop, htake]

lemma rxFilter_tcp {s : XdpState} {hdr payload : List Byte} (hhdr : IsTcpHeader hdr)
    (hpkt : s.ctx.pkt = hdr ++ payload) (hlen : 4 ≤ payload.length) :
    bmcRxFilterMain s = (.tailCall .invalidateCache .pass, s) := by
  have hsz := sizes
  have hl := hhdr.length
  have htotal : (hdr ++ payload).length = hdr.length + payload.length := List.length_append
  have hproto : byteAt (hdr ++ payload) (ethHlen + 9) = ipprotoTcp := by
    rw [byteAt_append (by omega), hhdr.protocol]
  have hport : be16At (hdr ++ payload) (ethHlen + sizeofIphdr + 2) = memcachedPort := by
    rw [be16At_append (by omega), hhdr.port]
  simp only [bmcRxFilterMain, hpkt, hproto, hport]
  rw [if_neg (by omega), if_neg (by decide), if_pos trivial, if_neg (by omega), if_pos ⟨trivial, by omega⟩]

lemma rxFilter_tcp_short {s : XdpState} {hdr payload : List Byte} (hhdr : IsTcpHeader hdr)
    (hpkt : s.ctx.pkt = hdr ++ payload) (hlen : payload.length < 4) :
    bmcRxFilterMain s = (.ret .pass, s) := by
  have hsz := sizes
  have hl := hhdr.length
  have htotal : (hdr ++ payload).length = hdr.length + payload.length := List.length_append
  have hproto : byteAt (hdr ++ payload) (ethHlen + 9) = ipprotoTcp := by
    rw [byteAt_append (by omega), hhdr.protocol]
  simp only [bmcRxFilterMain, hpkt, hproto]
  rw [if_neg (by omega), if_neg (by decide), if_pos trivial, if_neg (by omega), if_neg (by omega)]

/-- What the filter and the scanner together do with a segment. -/
lemma runXdp_tcp_kcache {hdr : List Byte} (hhdr : IsTcpHeader hdr) (text headroom : List Byte)
    (cpu : PerCpu) (c : Cache) :
    (runXdp Interference.quiet headroom (hdr ++ text) cpu c).2.kcache =
      clearSlots (wordSlots (text.take bmcMaxPacketLength)) c := by
  have hsz := sizes
  have hpkt := received_pkt headroom (hdr ++ text)
  by_cases hlen : 4 ≤ text.length
  · have hrx : XdpProg.rxFilter.main ⟨received headroom (hdr ++ text), cpu, Interference.quiet 0 c⟩ =
        (.tailCall .invalidateCache .pass, ⟨received headroom (hdr ++ text), cpu, c⟩) :=
          rxFilter_tcp hhdr hpkt hlen
    have hcall : runXdp Interference.quiet headroom (hdr ++ text) cpu c =
        runChain Interference.quiet (maxTailCallCnt - 1) 1 .invalidateCache
          ⟨received headroom (hdr ++ text), cpu, c⟩ := runChain_tailCall_succ hrx
    have hret : XdpProg.invalidateCache.main ⟨received headroom (hdr ++ text), cpu, Interference.quiet 1 c⟩ =
        (.ret .pass, (bmcInvalidateCacheMain ⟨received headroom (hdr ++ text), cpu, c⟩).2) := by
      simp only [XdpProg.main, bmcInvalidateCacheMain]
      split_ifs <;> rfl
    rw [hcall, runChain_ret hret, invalidate_kcache, hpkt, frameSlots_append hhdr]
  · -- too short for the filter, and for a word
    have hnone : wordSlots (text.take bmcMaxPacketLength) = ∅ := by
      rw [Set.eq_empty_iff_forall_notMem]
      rintro i ⟨w, hw, -⟩
      have hfour := four_le_of_readsWord hw
      rw [List.length_take] at hfour
      omega
    have hret : XdpProg.rxFilter.main ⟨received headroom (hdr ++ text), cpu, Interference.quiet 0 c⟩ =
        (.ret .pass, ⟨received headroom (hdr ++ text), cpu, c⟩) :=
          rxFilter_tcp_short hhdr hpkt (Nat.lt_of_not_le hlen)
    have hrun : runXdp Interference.quiet headroom (hdr ++ text) cpu c =
        (.pass, ⟨received headroom (hdr ++ text), cpu, c⟩) := runChain_ret hret
    rw [hrun, hnone, clearSlots_empty]

/-- The cache behind a TCP segment: the slots of the words read are invalid. -/
lemma runXdp_tcp_valid {hdr payload : List Byte} (hhdr : IsTcpHeader hdr)
    (hmax : payload.length ≤ bmcMaxPacketLength) (headroom : List Byte) (cpu : PerCpu) (c : Cache)
    (hash : UInt32) :
    ((runXdp Interference.quiet headroom (hdr ++ payload) cpu c).2.kcache.at hash).valid = true ↔
      (c.at hash).valid = true ∧ ∀ w, ReadsWord payload w → slotOf w ≠ cacheIdx hash := by
  rw [runXdp_tcp_kcache hhdr, List.take_of_length_le hmax, Cache.at, valid_clearSlots]
  refine and_congr_right fun _ => ?_
  constructor
  · intro hno w hw hslot
    exact hno ⟨w, hw, hslot⟩
  · rintro hno ⟨w, hw, hslot⟩
    exact hno w hw hslot

lemma payload_cons (cmd : Command) (after : List Command) :
    Command.payload (cmd :: after) = cmd.bytes ++ Command.payload after := by
  simp [Command.payload]

lemma storage_of_setKey {cmd : Command} {key : List Byte} (h : cmd.setKey = some key) :
    ∃ flags exptime more data, cmd = .storage .set key flags exptime more data := by
  cases cmd with
  | line text => simp [Command.setKey] at h
  | storage verb key' flags exptime more data =>
    cases verb with
    | set =>
      obtain rfl : key' = key := by simpa [Command.setKey] using h
      exact ⟨_, _, _, _, rfl⟩
    | _ => simp [Command.setKey] at h

lemma setKey_bytes {cmd : Command} {key : List Byte} (h : cmd.setKey = some key) :
    ∃ rest, cmd.bytes = setText ++ SP :: (key ++ SP :: rest) := by
  obtain ⟨flags, exptime, more, data, rfl⟩ := storage_of_setKey h
  exact ⟨_, rfl⟩

lemma setKey_wellFormed {cmd : Command} {key : List Byte} (hwf : cmd.WellFormed) (h : cmd.setKey = some key) :
    0 < key.length ∧ ∀ b ∈ key, SP < b := by
  obtain ⟨flags, exptime, more, data, rfl⟩ := storage_of_setKey h
  exact ⟨hwf.1, fun b hb => (hwf.2.2 b hb).1⟩

/-- Every `set` in the segment invalidates exactly when the slot of each was invalid already or some
word read falls in it. A `set` that starts outside the `set` texts before it invalidates. -/
theorem set_invalidates_iff {cmds : List Command} (hwf : ∀ cmd ∈ cmds, cmd.WellFormed) {hdr : List Byte}
    (hhdr : IsTcpHeader hdr) (hlen : (Command.payload cmds).length ≤ 1460) (headroom : List Byte)
    (cpu : PerCpu) (c : Cache) :
    ((∀ cmd ∈ cmds, ∀ key, cmd.setKey = some key →
        ((runXdp Interference.quiet headroom (hdr ++ Command.payload cmds) cpu c).2.kcache.at
          (fnv1aHash32 key)).valid = false) ↔
      ∀ cmd ∈ cmds, ∀ key, cmd.setKey = some key →
        (c.at (fnv1aHash32 key)).valid = false ∨
        ∃ w, ReadsWord (Command.payload cmds) w ∧ slotOf w = slotOf key) ∧
    ∀ before cmd after key, cmds = before ++ cmd :: after → cmd.setKey = some key →
      Outside (Command.payload cmds) (Command.payload (cmd :: after)) →
      ((runXdp Interference.quiet headroom (hdr ++ Command.payload cmds) cpu c).2.kcache.at
        (fnv1aHash32 key)).valid = false := by
  have hmax : (Command.payload cmds).length ≤ bmcMaxPacketLength := le_trans hlen (by decide)
  have hvalid : ∀ key,
      (((runXdp Interference.quiet headroom (hdr ++ Command.payload cmds) cpu c).2.kcache.at
        (fnv1aHash32 key)).valid = false ↔
      (c.at (fnv1aHash32 key)).valid = false ∨
        ∃ w, ReadsWord (Command.payload cmds) w ∧ slotOf w = slotOf key) := by
    intro key
    have hiff := runXdp_tcp_valid hhdr hmax headroom cpu c (fnv1aHash32 key)
    rw [← Bool.not_eq_true, hiff, not_and_or, Bool.not_eq_true]
    push Not
    rfl
  simp only [hvalid, true_and]
  intro before cmd after key hcmds hkey hout
  obtain ⟨rest, hbytes⟩ := setKey_bytes hkey
  have hmem : cmd ∈ cmds := by
    rw [hcmds]
    simp
  obtain ⟨hpos, hchars⟩ := setKey_wellFormed (hwf cmd hmem) hkey
  refine Or.inr ⟨key, ⟨_, rest ++ Command.payload after, hout, ?_⟩, rfl⟩
  rw [payload_cons, hbytes]
  simp only [List.append_assoc, List.cons_append]
  exact readOn_set hpos (isWord_of_lt hchars)

/-! #### A data block that ends in `set` -/

def sampleTcpHeaders : List Byte :=
  [2, 0, 0, 0, 0, 1, 2, 0, 0, 0, 0, 2, 8, 0] ++
  [69, 0, 0, 0, 0, 1, 0, 0, 64, 6, 0, 0, 10, 0, 0, 2, 10, 0, 0, 1] ++
  [195, 80, 43, 203, 0, 0, 0, 1, 0, 0, 0, 1, 80, 24, 255, 255, 0, 0, 0, 0]

def sampleSet (key data : List Char) : Command :=
  .storage .set (ascii key) (ascii ['0']) (ascii ['0']) [] (ascii data)

lemma sampleTcpHeaders_isTcpHeader : IsTcpHeader sampleTcpHeaders := by
  constructor
  · decide
  · decide
  · decide

lemma sampleSet_wellFormed (key data : List Char)
    (hkey : 0 < key.length ∧ key.length ≤ keyMaxLength ∧ ∀ b ∈ ascii key, SP < b ∧ b ≠ 127) :
    (sampleSet key data).WellFormed := by
  obtain ⟨hpos, hle, hbytes⟩ := hkey
  refine ⟨?_, ?_, hbytes⟩
  · simpa [ascii] using hpos
  · simpa [ascii] using hle

def hidingSets : List Command := [sampleSet ['a'] ['s', 'e', 't'], sampleSet ['b'] ['x']]

/-- The first value is the text `set`: behind it the scanner takes `set` of the next command for
the end of a key and passes over the key `b`. -/
theorem set_value_hides_next_set : (∀ cmd ∈ hidingSets, cmd.WellFormed) ∧ IsTcpHeader sampleTcpHeaders ∧
    Command.payload hidingSets = ascii "set a 0 0 3\r\nset\r\nset b 0 0 1\r\nx\r\n".toList ∧
    ((runXdp Interference.quiet (List.replicate 256 0) (sampleTcpHeaders ++ Command.payload hidingSets)
      PerCpu.zeroed (cacheAfterReply "VALUE b 0 1\r\ny\r\nEND\r\n".toList)).2.kcache.at
        (fnv1aHash32 (ascii ['b']))).valid = true := by
  refine ⟨?_, sampleTcpHeaders_isTcpHeader, ?_, ?_⟩
  · intro cmd hcmd
    rcases List.mem_pair.mp hcmd with rfl | rfl
    · exact sampleSet_wellFormed _ _ (by decide +kernel)
    · exact sampleSet_wellFormed _ _ (by decide +kernel)
  · decide +kernel
  · decide +kernel

def pipelinedSets : List Command :=
  [.line (ascii "get b".toList), sampleSet ['a'] ['y'], sampleSet ['b'] ['x']]

theorem pipelined_set_invalidates :
    ((runXdp Interference.quiet (List.replicate 256 0) (sampleTcpHeaders ++ Command.payload pipelinedSets)
      PerCpu.zeroed (cacheAfterReply "VALUE b 0 1\r\ny\r\nEND\r\n".toList)).2.kcache.at
        (fnv1aHash32 (ascii ['b']))).valid = false := by
  have hwf : ∀ cmd ∈ pipelinedSets, cmd.WellFormed := by
    intro cmd hcmd
    simp only [pipelinedSets, List.mem_cons, List.not_mem_nil, or_false] at hcmd
    rcases hcmd with rfl | rfl | rfl
    · exact (by decide : LF ∉ ascii "get b".toList)
    · exact sampleSet_wellFormed _ _ (by decide +kernel)
    · exact sampleSet_wellFormed _ _ (by decide +kernel)
  have hreads : ∀ key ∈ [ascii ['a'], ascii ['b']], ∃ w, ReadsWord (Command.payload pipelinedSets) w ∧
      slotOf w = slotOf key := by
    intro key hkey
    have hscanned : fnv1aHash32 key ∈ scanHashes (Command.payload pipelinedSets) ScanVars.init := by
      rcases List.mem_pair.mp hkey with rfl | rfl
      · decide +kernel
      · decide +kernel
    obtain ⟨w, hw, hhash⟩ := (mem_scanHashes_iff _ 0 _).mp hscanned
    exact ⟨w, hw, congrArg cacheIdx hhash⟩
  refine (set_invalidates_iff hwf sampleTcpHeaders_isTcpHeader (by decide +kernel) _ _ _).1.mpr ?_
    (sampleSet ['b'] ['x']) (by simp [pipelinedSets]) (ascii ['b']) rfl
  intro cmd hcmd key hkey
  refine Or.inr (hreads key ?_)
  simp only [pipelinedSets, List.mem_cons, List.not_mem_nil, or_false] at hcmd
  rcases hcmd with rfl | rfl | rfl
  · simp [Command.setKey] at hkey
  · simp_all [sampleSet, Command.setKey]
  · simp_all [sampleSet, Command.setKey]

end BmcCache.Proofs
