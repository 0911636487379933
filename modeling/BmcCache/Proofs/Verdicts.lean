import BmcCache.Proofs.Pipeline
import BmcCache.Model.Egress

/-!
# Which requests are handed over, answered or discarded

The walk over the keys and the assembly of the reply, described by the words of the
request and the blocks in the cache, and from that the exact conditions under which the
pipeline hands a request over intact, discards it, or answers it.
-/

namespace BmcCache.Proofs

open Buffer

/-! ### The words of a request -/

def ProperKey (b : List Byte) : Prop := 0 < (keyWord b).length ∧ (keyWord b).length ≤ bmcMaxKeyLength

def EndsLine (b : List Byte) : Prop := b[(keyWord b).length]? = some CR

/-- Fewer than `ETH_HLEN` bytes stand behind the word and its separator. -/
def CutShort (b : List Byte) : Prop := b.length < (keyWord b).length + 1 + ethHlen

/-- The parser can move on from the word at the head of `b` to the next one. -/
def MovesOn (b : List Byte) : Prop := ProperKey b ∧ ¬EndsLine b ∧ ¬CutShort b

instance (b : List Byte) : Decidable (ProperKey b) := inferInstanceAs (Decidable (_ ∧ _))
instance (b : List Byte) : Decidable (EndsLine b) := inferInstanceAs (Decidable (_ = _))
instance (b : List Byte) : Decidable (CutShort b) := inferInstanceAs (Decidable (_ < _))
instance (b : List Byte) : Decidable (MovesOn b) := inferInstanceAs (Decidable (_ ∧ _ ∧ _))

def behindWord (b : List Byte) : List Byte := b.drop ((keyWord b).length + 1)

/-- The bytes from word number `i` on, when the parser can move on from every word before. -/
def fromWord : ℕ → List Byte → Option (List Byte)
  | 0, b => some b
  | i + 1, b => if MovesOn b then fromWord i (behindWord b) else none

/-- The keys among the first `n` words that look cached to the programs from number `t` on. -/
def savedKeys (obs : ℕ → Cache) : ℕ → ℕ → List Byte → List (List Byte)
  | 0, _, _ => []
  | n + 1, t, b => savedNext (obs t) [] (keyWord b) ++ savedKeys obs n (t + 1) (behindWord b)

lemma savedNext_eq (c : Cache) (saved : List (List Byte)) (w : List Byte) :
    savedNext c saved w = saved ++ savedNext c [] w := by
  unfold savedNext
  split_ifs <;> simp

lemma savedKeys_one (obs : ℕ → Cache) (t : ℕ) (b : List Byte) :
    savedKeys obs 1 t b = savedNext (obs t) [] (keyWord b) := by
  simp [savedKeys]

lemma append_savedKeys_succ (obs : ℕ → Cache) (saved : List (List Byte)) (n t : ℕ) (b : List Byte) :
    saved ++ savedKeys obs (n + 1) t b =
      savedNext (obs t) saved (keyWord b) ++ savedKeys obs n (t + 1) (behindWord b) := by
  rw [savedKeys, savedNext_eq (obs t) saved, List.append_assoc]

/-- What `walkStep` does, with the conditions under which it does it. -/
lemma walkStep_cases (c : Cache) (saved : List (List Byte)) (b : List Byte) :
    ((bmcMaxKeyInPacket ≤ saved.length ∨ ProperKey b ∧ ¬EndsLine b ∧ CutShort b) ∧
      walkStep c saved b = .strand) ∨
    (saved.length < bmcMaxKeyInPacket ∧ ¬ProperKey b ∧ walkStep c saved b = .handBack) ∨
    (saved.length < bmcMaxKeyInPacket ∧ ProperKey b ∧ EndsLine b ∧ savedNext c saved (keyWord b) = [] ∧
      walkStep c saved b = .handBack) ∨
    (saved.length < bmcMaxKeyInPacket ∧ ProperKey b ∧ EndsLine b ∧ savedNext c saved (keyWord b) ≠ [] ∧
      walkStep c saved b = .prepare (savedNext c saved (keyWord b))) ∨
    (saved.length < bmcMaxKeyInPacket ∧ MovesOn b ∧
      walkStep c saved b = .next (savedNext c saved (keyWord b)) ((keyWord b).length + 1)) := by
  by_cases hfull : bmcMaxKeyInPacket ≤ saved.length
  · exact Or.inl ⟨Or.inl hfull, by simp only [walkStep]; rw [if_pos hfull]⟩
  have hlt : saved.length < bmcMaxKeyInPacket := by omega
  by_cases hkey : ProperKey b
  · have hgood : ¬((keyWord b).length = 0 ∨ (keyWord b).length > bmcMaxKeyLength) := by
      have := hkey.1
      have := hkey.2
      omega
    have hstep : walkStep c saved b =
        if EndsLine b then
          if savedNext c saved (keyWord b) = [] then .handBack else .prepare (savedNext c saved (keyWord b))
        else if CutShort b then .strand
        else .next (savedNext c saved (keyWord b)) ((keyWord b).length + 1) := by
      simp only [walkStep]
      rw [if_neg hfull, if_neg hgood]
      rfl
    rw [hstep]
    by_cases hline : EndsLine b
    · by_cases hnil : savedNext c saved (keyWord b) = []
      · exact Or.inr (Or.inr (Or.inl ⟨hlt, hkey, hline, hnil, by rw [if_pos hline, if_pos hnil]⟩))
      · exact Or.inr (Or.inr (Or.inr (Or.inl ⟨hlt, hkey, hline, hnil, by rw [if_pos hline, if_neg hnil]⟩)))
    · by_cases hshort : CutShort b
      · exact Or.inl ⟨Or.inr ⟨hkey, hline, hshort⟩, by rw [if_neg hline, if_pos hshort]⟩
      · exact Or.inr (Or.inr (Or.inr (Or.inr
          ⟨hlt, ⟨hkey, hline, hshort⟩, by rw [if_neg hline, if_neg hshort]⟩)))
  · have hbad : (keyWord b).length = 0 ∨ (keyWord b).length > bmcMaxKeyLength := by
      unfold ProperKey at hkey
      omega
    exact Or.inr (Or.inl ⟨hlt, hkey, by simp only [walkStep]; rw [if_neg hfull, if_pos hbad]⟩)

lemma exists_fromWord {body : List Byte} {P : ℕ → List Byte → Prop} :
    (∃ i b, fromWord i body = some b ∧ P i b) ↔
      P 0 body ∨ (MovesOn body ∧ ∃ i b, fromWord i (behindWord body) = some b ∧ P (i + 1) b) := by
  constructor
  · rintro ⟨i, b, hi, hP⟩
    cases i with
    | zero =>
      obtain rfl : body = b := by simpa [fromWord] using hi
      exact Or.inl hP
    | succ i =>
      rw [fromWord] at hi
      by_cases hmove : MovesOn body
      · rw [if_pos hmove] at hi
        exact Or.inr ⟨hmove, i, b, hi, hP⟩
      · simp [hmove] at hi
  · rintro (hP | ⟨hmove, i, b, hi, hP⟩)
    · exact ⟨0, body, rfl, hP⟩
    · refine ⟨i + 1, b, ?_, hP⟩
      rw [fromWord, if_pos hmove, hi]

/-! ### The ends of the walk -/

/-- The word `b`, reached as number `i` with the keys `saved`, leaves the packet start stranded
when `left` tail calls were allowed. -/
def StrandsAt (left i : ℕ) (saved : List (List Byte)) (b : List Byte) : Prop :=
  i = left + 1 ∨
    i ≤ left ∧ (bmcMaxKeyInPacket ≤ saved.length ∨ ProperKey b ∧ ¬EndsLine b ∧ CutShort b)

section Stranded

variable {obs : ℕ → Cache} {left t : ℕ} {saved : List (List Byte)} {body : List Byte}

lemma strands_first
    (h : bmcMaxKeyInPacket ≤ saved.length ∨ ProperKey body ∧ ¬EndsLine body ∧ CutShort body) :
    ∃ i b, fromWord i body = some b ∧ StrandsAt left i (saved ++ savedKeys obs i t body) b := by
  refine ⟨0, body, rfl, Or.inr ⟨Nat.zero_le _, ?_⟩⟩
  rwa [savedKeys, List.append_nil]

lemma not_strands_last (hlt : saved.length < bmcMaxKeyInPacket) (hlast : ¬ProperKey body ∨ EndsLine body) :
    ¬∃ i b, fromWord i body = some b ∧ StrandsAt left i (saved ++ savedKeys obs i t body) b := by
  rw [exists_fromWord]
  rintro (hfirst | ⟨hmove, -⟩)
  · rw [savedKeys, List.append_nil] at hfirst
    rcases hfirst with hzero | ⟨-, hfull | ⟨hkey, hline, -⟩⟩
    · omega
    · omega
    · tauto
  · exact hlast.elim (fun h => h hmove.1) hmove.2.1

lemma strandsAt_succ (i : ℕ) (s : List (List Byte)) (b : List Byte) :
    StrandsAt (left + 1) (i + 1) s b ↔ StrandsAt left i s b := by
  simp [StrandsAt]

end Stranded

lemma examine_stranded_iff (obs : ℕ → Cache) (left t : ℕ) (saved : List (List Byte)) (body : List Byte) :
    examine obs left t saved body = .stranded ↔
      ∃ i b, fromWord i body = some b ∧ StrandsAt left i (saved ++ savedKeys obs i t body) b := by
  induction left generalizing t saved body with
  | zero =>
    rcases walkStep_cases (obs t) saved body with
      ⟨hstrand, hw⟩ | ⟨hlt, hkey, hw⟩ | ⟨hlt, hkey, hline, -, hw⟩ | ⟨hlt, hkey, hline, -, hw⟩ |
        ⟨hlt, hmove, hw⟩
    all_goals rw [examine, hw]
    · simpa using strands_first hstrand
    · simpa using not_strands_last hlt (Or.inl hkey)
    · simpa using not_strands_last hlt (Or.inr hline)
    · simpa using not_strands_last hlt (Or.inr hline)
    · rw [exists_fromWord]
      simp only [true_iff]
      exact Or.inr ⟨hmove, 0, _, rfl, Or.inl rfl⟩
  | succ left ih =>
    rcases walkStep_cases (obs t) saved body with
      ⟨hstrand, hw⟩ | ⟨hlt, hkey, hw⟩ | ⟨hlt, hkey, hline, -, hw⟩ | ⟨hlt, hkey, hline, -, hw⟩ |
        ⟨hlt, hmove, hw⟩
    all_goals rw [examine, hw]
    · simpa using strands_first hstrand
    · simpa using not_strands_last hlt (Or.inl hkey)
    · simpa using not_strands_last hlt (Or.inr hline)
    · simpa using not_strands_last hlt (Or.inr hline)
    · have hfirst : ¬StrandsAt (left + 1) 0 (saved ++ savedKeys obs 0 t body) body := by
        rw [savedKeys, List.append_nil]
        rintro (hzero | ⟨-, hfull | ⟨-, -, hshort⟩⟩)
        · omega
        · omega
        · exact hmove.2.2 hshort
      have hrec := ih (t + 1) (savedNext (obs t) saved (keyWord body)) (behindWord body)
      rw [exists_fromWord]
      simp only [hfirst, hmove, true_and, false_or, strandsAt_succ, append_savedKeys_succ]
      exact hrec

/-- The word `b`, reached as number `i`, is the last one, and `ks` have been saved with it. -/
def ParsedAt (obs : ℕ → Cache) (t : ℕ) (saved : List (List Byte)) (body : List Byte)
    (ks : List (List Byte)) (i : ℕ) (b : List Byte) : Prop :=
  ProperKey b ∧ EndsLine b ∧ (saved ++ savedKeys obs i t body).length < bmcMaxKeyInPacket ∧
    ks = saved ++ savedKeys obs (i + 1) t body ∧ ks ≠ []

lemma examine_prepared_iff (obs : ℕ → Cache) (left t : ℕ) (saved : List (List Byte)) (body : List Byte)
    (ks : List (List Byte)) (left' t' : ℕ) :
    examine obs left t saved body = .prepared ks left' t' ↔
      ∃ i b, fromWord i body = some b ∧
        (ParsedAt obs t saved body ks i b ∧ left = left' + (i + 1) ∧ t' = t + (i + 1)) := by
  induction left generalizing t saved body with
  | zero =>
    have hno : ¬examine obs 0 t saved body = .prepared ks left' t' := by
      rw [examine]
      cases walkStep (obs t) saved body <;> simp
    simp only [hno, false_iff]
    rintro ⟨i, b, -, -, hleft, -⟩
    omega
  | succ left ih =>
    rw [exists_fromWord]
    rcases walkStep_cases (obs t) saved body with
      ⟨hstrand, hw⟩ | ⟨hlt, hkey, hw⟩ | ⟨hlt, hkey, hline, hnil, hw⟩ | ⟨hlt, hkey, hline, hnil, hw⟩ |
      ⟨hlt, hmove, hw⟩
    all_goals rw [examine, hw]
    · simp only [reduceCtorEq, false_iff]
      rintro (⟨⟨hkey, hline, hlen, -⟩, -⟩ | ⟨hmove, i, b, -, ⟨-, -, hlen, -⟩, -⟩)
      · rcases hstrand with hfull | ⟨-, hno, -⟩
        · simp only [List.length_append] at hlen
          omega
        · exact hno hline
      · rcases hstrand with hfull | ⟨-, -, hshort⟩
        · simp only [List.length_append] at hlen
          omega
        · exact hmove.2.2 hshort
    · simp [ParsedAt, MovesOn, hkey]
    · have hks : ∀ ks', ks' = saved ++ savedKeys obs (0 + 1) t body → ks' = [] := by
        intro ks' h
        rw [h, Nat.zero_add, savedKeys_one, ← savedNext_eq, hnil]
      simp only [ParsedAt, MovesOn, hline, reduceCtorEq, not_true_eq_false, false_and, and_false, or_false,
        false_iff]
      rintro ⟨⟨-, -, -, h, hne⟩, -⟩
      exact hne (hks ks h)
    · have hks : saved ++ savedKeys obs (0 + 1) t body = savedNext (obs t) saved (keyWord body) := by
        rw [Nat.zero_add, savedKeys_one, ← savedNext_eq]
      have hempty : saved ++ savedKeys obs 0 t body = saved := List.append_nil saved
      simp only [ParsedAt, hks, hempty, MovesOn, hkey, hline, hlt, not_true_eq_false,
        false_and, and_false, or_false, true_and, WalkEnd.prepared.injEq]
      constructor
      · rintro ⟨rfl, rfl, rfl⟩
        exact ⟨⟨rfl, hnil⟩, rfl, rfl⟩
      · rintro ⟨⟨rfl, -⟩, hleft, rfl⟩
        exact ⟨rfl, by omega, rfl⟩
    · have hfirst : ¬EndsLine body := hmove.2.1
      have hshift : ∀ i b, ParsedAt obs t saved body ks (i + 1) b ↔
          ParsedAt obs (t + 1) (savedNext (obs t) saved (keyWord body)) (behindWord body) ks i b := by
        intro i b
        simp only [ParsedAt, append_savedKeys_succ]
      have hcount : ∀ i, (left + 1 = left' + (i + 1 + 1) ↔ left = left' + (i + 1)) ∧
          (t' = t + (i + 1 + 1) ↔ t' = t + 1 + (i + 1)) := by
        intro i
        omega
      have hrec := ih (t + 1) (savedNext (obs t) saved (keyWord body)) (behindWord body)
      simp only [hshift, hmove, true_and, (hcount _).1, (hcount _).2]
      simp only [ParsedAt, hfirst, false_and, and_false, false_or]
      exact hrec

/-! ### The blocks of a reply -/

def blocks (obs : ℕ → Cache) : ℕ → List (List Byte) → List Byte
  | _, [] => []
  | t, k :: ks => cachedBlock (obs t) k ++ blocks obs (t + 1) ks

lemma length_blocks_le (obs : ℕ → Cache) (t : ℕ) (ks : List (List Byte)) :
    (blocks obs t ks).length ≤ bmcMaxCacheDataSize * ks.length := by
  induction ks generalizing t with
  | nil => simp [blocks]
  | cons k ks ih =>
    have hblock := length_cachedBlock_le (obs t) k
    have hrec := ih (t + 1)
    rw [blocks, List.length_append, List.length_cons, Nat.mul_succ]
    omega

/-- The assembly of a reply, by the lengths of its blocks. -/
lemma reply_eq (obs : ℕ → Cache) (room left t : ℕ) (ks : List (List Byte)) (out : List Byte)
    (hroom : out.length + ethHlen ≤ room) (hne : ks ≠ []) :
    reply obs room left t ks out =
      if left + 1 < ks.length ∨ room < (out ++ blocks obs t ks.dropLast).length + ethHlen then .discarded
      else if out ++ blocks obs t ks = [] then .noHit
      else if (out ++ blocks obs t ks).length + 5 ≤ room then .sent (out ++ blocks obs t ks)
      else .discarded := by
  induction ks generalizing left t out with
  | nil => exact absurd rfl hne
  | cons k ks ih =>
    cases ks with
    | nil =>
      have hgo : ¬(left + 1 < [k].length ∨ room < (out ++ blocks obs t [k].dropLast).length + ethHlen) := by
        simp only [List.length_singleton, List.dropLast_singleton, blocks, List.append_nil]
        omega
      rw [if_neg hgo, reply]
      simp only [replyStep, blocks, List.isEmpty_nil, if_true, List.append_nil]
      split_ifs <;> rfl
    | cons k' ks =>
      have hlast : blocks obs t (k :: k' :: ks).dropLast =
          cachedBlock (obs t) k ++ blocks obs (t + 1) (k' :: ks).dropLast := rfl
      rw [reply, hlast, blocks, ← List.append_assoc, ← List.append_assoc]
      simp only [replyStep, List.isEmpty_cons, Bool.false_eq_true, if_false]
      by_cases hfits : (out ++ cachedBlock (obs t) k).length + ethHlen ≤ room
      · rw [if_pos hfits]
        cases left with
        | zero => simp
        | succ left =>
          have hrec := ih left (t + 1) (out ++ cachedBlock (obs t) k) hfits (List.cons_ne_nil _ _)
          have hcount : left + 1 + 1 < (k :: k' :: ks).length ↔ left + 1 < (k' :: ks).length := by
            simp only [List.length_cons]
            omega
          simp only [hrec, hcount]
      · rw [if_neg hfits, if_pos]
        right
        rw [List.length_append]
        omega

/-! ### The verdicts -/

lemma outcome_cases (obs : ℕ → Cache) (h : ℕ) (frame : List Byte) :
    (¬StartsParser frame ∧ outcome obs h frame = .handed) ∨
    (StartsParser frame ∧ walk obs frame = .stranded ∧ outcome obs h frame = .stranded) ∨
    (StartsParser frame ∧ walk obs frame = .handedBack ∧ outcome obs h frame = .handed) ∨
    (StartsParser frame ∧ ∃ ks left t, walk obs frame = .prepared ks left t ∧
      outcome obs h frame = prepareOutcome obs h frame ks left t) := by
  unfold outcome
  by_cases hstart : StartsParser frame
  · rw [if_pos hstart]
    cases walk obs frame with
    | stranded => exact Or.inr (Or.inl ⟨hstart, rfl, rfl⟩)
    | handedBack => exact Or.inr (Or.inr (Or.inl ⟨hstart, rfl, rfl⟩))
    | prepared ks left t => exact Or.inr (Or.inr (Or.inr ⟨hstart, ks, left, t, rfl, rfl⟩))
  · rw [if_neg hstart]
    exact Or.inl ⟨hstart, rfl⟩

lemma walk_stranded_iff (obs : ℕ → Cache) (frame : List Byte) :
    walk obs frame = .stranded ↔ ∃ i b, fromWord i (keyBytes frame) = some b ∧
      StrandsAt (maxTailCallCnt - 1) i (savedKeys obs i 1 (keyBytes frame)) b :=
  examine_stranded_iff obs (maxTailCallCnt - 1) 1 [] (keyBytes frame)

lemma walk_prepared_iff (obs : ℕ → Cache) (frame : List Byte) (ks : List (List Byte)) (left t : ℕ) :
    walk obs frame = .prepared ks left t ↔ ∃ i b, fromWord i (keyBytes frame) = some b ∧
      (ParsedAt obs 1 [] (keyBytes frame) ks i b ∧ left + i + 2 = maxTailCallCnt ∧ t = i + 2) := by
  have hsz := sizes
  unfold walk
  rw [examine_prepared_iff]
  have hcount : ∀ i, (maxTailCallCnt - 1 = left + (i + 1) ↔ left + i + 2 = maxTailCallCnt) ∧
      (t = 1 + (i + 1) ↔ t = i + 2) := by
    intro i
    omega
  simp only [(hcount _).1, (hcount _).2]

/-- The packet start is left inside the request: the parser runs out of key slots, of bytes
behind a key or of tail calls, or the reply program cannot be called after the last key. -/
def Strands (obs : ℕ → Cache) (h : ℕ) (frame : List Byte) : Prop :=
  StartsParser frame ∧
    ((∃ i b, fromWord i (keyBytes frame) = some b ∧
        StrandsAt (maxTailCallCnt - 1) i (savedKeys obs i 1 (keyBytes frame)) b) ∨
      adjustHeadLen ≤ h ∧ ∃ b, fromWord (maxTailCallCnt - 2) (keyBytes frame) = some b ∧
        ProperKey b ∧ EndsLine b ∧ savedKeys obs (maxTailCallCnt - 1) 1 (keyBytes frame) ≠ [])

/-- The reply program gives up: too few tail calls for the saved keys, too few bytes behind
the block of a key that is not the last one, or no place for the end marker. -/
def Discards (obs : ℕ → Cache) (h : ℕ) (frame : List Byte) : Prop :=
  StartsParser frame ∧ adjustHeadLen ≤ h ∧ ∃ i b, fromWord i (keyBytes frame) = some b ∧
    ∃ ks, ParsedAt obs 1 [] (keyBytes frame) ks i b ∧ i + 2 < maxTailCallCnt ∧
      (maxTailCallCnt < i + 2 + ks.length ∨
        adjustHeadLen - headersLen + frame.length < (blocks obs (i + 3) ks.dropLast).length + ethHlen ∨
        blocks obs (i + 3) ks ≠ [] ∧
          adjustHeadLen - headersLen + frame.length < (blocks obs (i + 3) ks).length + 5)

lemma prepareOutcome_eq (obs : ℕ → Cache) {h : ℕ} (frame : List Byte) {ks : List (List Byte)} (left t : ℕ)
    (hh : adjustHeadLen ≤ h) (hne : ks ≠ []) :
    prepareOutcome obs h frame ks (left + 1) t =
      if left + 1 < ks.length ∨ adjustHeadLen - headersLen + frame.length <
          (blocks obs (t + 1) ks.dropLast).length + ethHlen then .discarded
      else if blocks obs (t + 1) ks = [] then .handed
      else if (blocks obs (t + 1) ks).length + 5 ≤ adjustHeadLen - headersLen + frame.length then
        .sent ks (blocks obs (t + 1) ks)
      else .discarded := by
  have hsz := sizes
  have hroom : ([] : List Byte).length + ethHlen ≤ adjustHeadLen - headersLen + frame.length := by
    rw [List.length_nil]
    omega
  unfold prepareOutcome
  rw [if_neg (by omega)]
  simp only [reply_eq obs _ left (t + 1) ks [] hroom hne, List.nil_append]
  split_ifs <;> rfl

lemma prepareOutcome_zero (obs : ℕ → Cache) {h : ℕ} (frame : List Byte) (ks : List (List Byte)) (t : ℕ)
    (hh : adjustHeadLen ≤ h) : prepareOutcome obs h frame ks 0 t = .stranded := by
  unfold prepareOutcome
  rw [if_neg (by omega)]

lemma prepareOutcome_handed (obs : ℕ → Cache) {h : ℕ} (frame : List Byte) (ks : List (List Byte))
    (left t : ℕ) (hh : h < adjustHeadLen) : prepareOutcome obs h frame ks left t = .handed := by
  unfold prepareOutcome
  rw [if_pos hh]

lemma outcome_stranded_walk (obs : ℕ → Cache) (h : ℕ) (frame : List Byte) :
    outcome obs h frame = .stranded ↔ StartsParser frame ∧
      (walk obs frame = .stranded ∨ adjustHeadLen ≤ h ∧ ∃ ks t, walk obs frame = .prepared ks 0 t) := by
  rcases outcome_cases obs h frame with
    ⟨hstart, hout⟩ | ⟨hstart, hw, hout⟩ | ⟨hstart, hw, hout⟩ | ⟨hstart, ks, left, t, hw, hout⟩
  · simp [hout, hstart]
  · simp [hout, hw, hstart]
  · simp [hout, hw]
  · have hne := examine_prepared_ne_nil hw
    rw [hout, hw]
    by_cases hh : adjustHeadLen ≤ h
    · cases left with
      | zero => simp [prepareOutcome_zero obs frame ks t hh, hstart, hh]
      | succ left =>
        rw [prepareOutcome_eq obs frame left t hh hne]
        split_ifs <;> simp
    · rw [prepareOutcome_handed obs frame ks left t (by omega)]
      simp [hh]

theorem outcome_stranded_iff (obs : ℕ → Cache) (h : ℕ) (frame : List Byte) :
    outcome obs h frame = .stranded ↔ Strands obs h frame := by
  have hsz := sizes
  rw [outcome_stranded_walk, Strands]
  refine and_congr_right fun _ => ?_
  constructor
  · rintro (hw | ⟨hh, ks, t, hw⟩)
    · exact Or.inl ((walk_stranded_iff obs frame).mp hw)
    · obtain ⟨i, b, hi, ⟨hkey, hline, -, hks, hne⟩, hcount, -⟩ := (walk_prepared_iff ..).mp hw
      obtain rfl : i = maxTailCallCnt - 2 := by omega
      exact Or.inr ⟨hh, b, hi, hkey, hline, by rw [hks] at hne; exact hne⟩
  · rintro (hs | ⟨hh, b, hi, hkey, hline, hne⟩)
    · exact Or.inl ((walk_stranded_iff obs frame).mpr hs)
    · -- if the last word is reached with all key slots taken, the walk has stranded already
      by_cases hfull : bmcMaxKeyInPacket ≤ (savedKeys obs (maxTailCallCnt - 2) 1 (keyBytes frame)).length
      · exact Or.inl ((walk_stranded_iff obs frame).mpr ⟨_, b, hi, Or.inr ⟨by omega, Or.inl hfull⟩⟩)
      · have hparsed : ParsedAt obs 1 [] (keyBytes frame)
            (savedKeys obs (maxTailCallCnt - 1) 1 (keyBytes frame)) (maxTailCallCnt - 2) b :=
          ⟨hkey, hline, Nat.lt_of_not_le hfull, rfl, hne⟩
        exact Or.inr ⟨hh, _, _, (walk_prepared_iff ..).mpr ⟨_, b, hi, hparsed, by omega, rfl⟩⟩

lemma outcome_prepared {obs : ℕ → Cache} {h : ℕ} {frame : List Byte} {i : ℕ} {b : List Byte}
    {ks : List (List Byte)} (hstart : StartsParser frame) (hh : adjustHeadLen ≤ h)
    (hi : fromWord i (keyBytes frame) = some b) (hparsed : ParsedAt obs 1 [] (keyBytes frame) ks i b)
    (hcount : i + 2 < maxTailCallCnt) :
    outcome obs h frame =
      if maxTailCallCnt < i + 2 + ks.length ∨ adjustHeadLen - headersLen + frame.length <
          (blocks obs (i + 3) ks.dropLast).length + ethHlen then .discarded
      else if blocks obs (i + 3) ks = [] then .handed
      else if (blocks obs (i + 3) ks).length + 5 ≤ adjustHeadLen - headersLen + frame.length then
        .sent ks (blocks obs (i + 3) ks)
      else .discarded := by
  have hsz := sizes
  obtain ⟨left, hleft⟩ : ∃ left, left + 1 + i + 2 = maxTailCallCnt := ⟨maxTailCallCnt - 3 - i, by omega⟩
  have hw := (walk_prepared_iff obs frame ks (left + 1) (i + 2)).mpr ⟨i, b, hi, hparsed, hleft, rfl⟩
  have hcalls : left + 1 < ks.length ↔ maxTailCallCnt < i + 2 + ks.length := by omega
  rcases outcome_cases obs h frame with ⟨hno, -⟩ | ⟨-, hw', -⟩ | ⟨-, hw', -⟩ | ⟨-, ks', left', t', hw', hout⟩
  · exact absurd hstart hno
  · simp [hw] at hw'
  · simp [hw] at hw'
  · rw [hw] at hw'
    obtain ⟨rfl, rfl, rfl⟩ := WalkEnd.prepared.inj hw'
    rw [hout, prepareOutcome_eq obs frame left (i + 2) hh hparsed.2.2.2.2]
    simp only [hcalls]

lemma outcome_replied {obs : ℕ → Cache} {h : ℕ} {frame : List Byte}
    (hd : outcome obs h frame ≠ .handed) (hst : outcome obs h frame ≠ .stranded) :
    StartsParser frame ∧ adjustHeadLen ≤ h ∧ ∃ i b ks, fromWord i (keyBytes frame) = some b ∧
      ParsedAt obs 1 [] (keyBytes frame) ks i b ∧ i + 2 < maxTailCallCnt := by
  rcases outcome_cases obs h frame with
    ⟨-, hout⟩ | ⟨-, -, hout⟩ | ⟨-, -, hout⟩ | ⟨hstart, ks, left, t, hw, hout⟩
  · exact absurd hout hd
  · exact absurd hout hst
  · exact absurd hout hd
  · rcases Nat.lt_or_ge h adjustHeadLen with hh | hh
    · rw [prepareOutcome_handed obs frame ks left t hh] at hout
      exact absurd hout hd
    · obtain ⟨i, b, hi, hparsed, hcount, -⟩ := (walk_prepared_iff ..).mp hw
      cases left with
      | zero =>
        rw [prepareOutcome_zero obs frame ks t hh] at hout
        exact absurd hout hst
      | succ left => exact ⟨hstart, hh, i, b, ks, hi, hparsed, by omega⟩

theorem outcome_discarded_iff (obs : ℕ → Cache) (h : ℕ) (frame : List Byte) :
    outcome obs h frame = .discarded ↔ Discards obs h frame := by
  constructor
  · intro hd
    obtain ⟨hstart, hh, i, b, ks, hi, hparsed, hcount⟩ :=
      @outcome_replied obs h frame (by simp [hd]) (by simp [hd])
    rw [outcome_prepared hstart hh hi hparsed hcount] at hd
    refine ⟨hstart, hh, i, b, hi, ks, hparsed, hcount, ?_⟩
    split_ifs at hd with h1 h2 h3
    · exact h1.imp_right Or.inl
    · exact Or.inr (Or.inr ⟨h2, by omega⟩)
  · rintro ⟨hstart, hh, i, b, hi, ks, hparsed, hcount, hover⟩
    rw [outcome_prepared hstart hh hi hparsed hcount]
    rcases hover with h1 | h1 | ⟨h1, h2⟩
    · rw [if_pos (Or.inl h1)]
    · rw [if_pos (Or.inr h1)]
    · rw [if_neg h1, if_neg (Nat.not_le_of_lt h2), ite_self]

lemma outcome_sent {obs : ℕ → Cache} {h : ℕ} {frame : List Byte} {ks : List (List Byte)} {out : List Byte}
    (hout : outcome obs h frame = .sent ks out) :
    StartsParser frame ∧ ∃ i b, fromWord i (keyBytes frame) = some b ∧
      ParsedAt obs 1 [] (keyBytes frame) ks i b ∧ out = blocks obs (i + 3) ks ∧ out ≠ [] := by
  obtain ⟨hstart, hh, i, b, ks', hi, hparsed, hcount⟩ :=
    @outcome_replied obs h frame (by simp [hout]) (by simp [hout])
  rw [outcome_prepared hstart hh hi hparsed hcount] at hout
  split_ifs at hout with _ hne _
  obtain ⟨rfl, rfl⟩ := Outcome.sent.inj hout
  exact ⟨hstart, i, b, hi, hparsed, rfl, hne⟩

/-! ### Handing over and discarding -/

def sampleHeaders (up : Bool) : List Byte :=
  [2, 0, 0, 0, 0, if up then 1 else 2, 2, 0, 0, 0, 0, if up then 2 else 1, 8, 0] ++
  [69, 0, 0, 0, 0, 1, 0, 0, 64, 17, 0, 0, 10, 0, 0, if up then 2 else 1, 10, 0, 0, if up then 1 else 2] ++
  (if up then [195, 80, 43, 203] else [43, 203, 195, 80]) ++ [0, 0, 0, 0] ++ [0, 7, 0, 0, 0, 1, 0, 0]

def sampleRequest (line : List Char) : List Byte := sampleHeaders true ++ ascii line

def sampleReply (text : List Char) : SkBuff :=
  ⟨sampleHeaders false ++ ascii text, (sampleHeaders false ++ ascii text).length, Nat.le_refl _⟩

def cacheAfterReply (text : List Char) : Cache :=
  (bmcTxFilterMain (sampleReply text) PerCpu.zeroed.stats Cache.zeroed).kcache

/-- The request is handed over intact exactly when the packet start is not left inside it. -/
theorem runXdp_pass_intact_iff (env : Interference) (headroom frame : List Byte) (cpu : PerCpu) (c : Cache) :
    ((runXdp env headroom frame cpu c).1 = .pass →
        (runXdp env headroom frame cpu c).2.ctx.data = headroom.length ∧
        (runXdp env headroom frame cpu c).2.ctx.pkt = frame) ↔
      ¬Strands (seen env c) headroom.length frame := by
  have hrun := runXdp_outcome env headroom frame cpu c
  rw [← outcome_stranded_iff]
  cases hout : outcome (seen env c) headroom.length frame with
  | handed =>
    rw [hout] at hrun
    simp [hrun.2]
  | stranded =>
    rw [hout] at hrun
    simp [hrun.1, hrun.2]
  | sent ks out =>
    rw [hout] at hrun
    simp [hrun.1]
  | discarded =>
    rw [hout] at hrun
    have hdrop : (runXdp env headroom frame cpu c).1 = .drop := hrun
    simp [hdrop]

theorem get_two_keys_stranded :
    (runXdp Interference.quiet [] (sampleRequest "get aaaaaaaaaaaa b\r\n".toList) PerCpu.zeroed
      Cache.zeroed).1 = .pass ∧
    (runXdp Interference.quiet [] (sampleRequest "get aaaaaaaaaaaa b\r\n".toList) PerCpu.zeroed
      Cache.zeroed).2.ctx.data ≠ ([] : List Byte).length := by
  decide +kernel

/-- A request is not discarded exactly when the reply program does not have to give up. -/
theorem runXdp_ne_drop_iff (env : Interference) (headroom frame : List Byte) (cpu : PerCpu) (c : Cache) :
    (runXdp env headroom frame cpu c).1 ≠ .drop ↔ ¬Discards (seen env c) headroom.length frame := by
  have hrun := runXdp_outcome env headroom frame cpu c
  rw [← outcome_discarded_iff]
  cases hout : outcome (seen env c) headroom.length frame with
  | handed =>
    rw [hout] at hrun
    simp [hrun.1]
  | stranded =>
    rw [hout] at hrun
    simp [hrun.1]
  | sent ks out =>
    rw [hout] at hrun
    simp [hrun.1]
  | discarded =>
    rw [hout] at hrun
    have hdrop : (runXdp env headroom frame cpu c).1 = .drop := hrun
    simp [hdrop]

theorem get_cached_value_dropped :
    (runXdp Interference.quiet (List.replicate 256 0) (sampleRequest "get kkkkkkkkkkkk\r\n".toList)
      PerCpu.zeroed (cacheAfterReply ("VALUE kkkkkkkkkkkk 0 150\r\n".toList ++ List.replicate 150 'x' ++
        "\r\nEND\r\n".toList))).1 = .drop := by
  decide +kernel

end BmcCache.Proofs
