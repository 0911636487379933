import BmcCache.Lib.Words
import BmcCache.Model.Connection
import BmcCache.Proofs.Transparency
import Mathlib.Tactic.IntervalCases

/-!
# How memcached reads a command line

`tokenize_command` gives the words of a line in groups of seven, and `process_get_command` goes through
all of the groups. A line that a client writes for a command is read as that command.
-/

namespace BmcCache.Proofs

open Words

/-! ### Tokens -/

/-- The words that the tokens and the rest of the text stand for. -/
def Tokens.words (t : Tokens) : List (List Byte) := t.tokens ++ (t.rest.map (Words.words SP)).getD []

lemma tokenizeLoop_words (m : ℕ) (tokens : List (List Byte)) {token : List Byte} (htoken : SP ∉ token)
    (l : List Byte) :
    Tokens.words (tokenizeLoop m tokens token l) = tokens ++ words SP (token ++ l) := by
  induction l generalizing tokens token with
  | nil =>
    rw [tokenizeLoop, List.append_nil]
    by_cases hnil : token = []
    · simp [Tokens.words, hnil, words_nil]
    · simp [Tokens.words, hnil, words_of_notMem htoken hnil]
  | cons c cs ih =>
    rw [tokenizeLoop]
    by_cases hc : c = SP
    · subst hc
      rw [if_pos rfl]
      by_cases hnil : token = []
      · subst hnil
        rw [if_pos rfl, ih tokens htoken, List.nil_append, List.nil_append, words_cons_sep]
      · rw [if_neg hnil, words_cons htoken hnil]
        split
        · by_cases hcs : cs = []
          · simp [Tokens.words, hcs, words_nil]
          · simp [Tokens.words, hcs]
        · rw [ih (tokens ++ [token]) List.not_mem_nil, List.append_assoc]
          rfl
    · have hnext : SP ∉ token ++ [c] := by
        rw [List.mem_append, List.mem_singleton, not_or]
        exact ⟨htoken, fun h => hc h.symm⟩
      rw [if_neg hc, ih tokens hnext, List.append_assoc]
      rfl

/-- What is left of the text comes behind a separator, and there are as many tokens as are wanted. -/
lemma tokenizeLoop_rest (m : ℕ) {tokens : List (List Byte)} {token l rest : List Byte}
    (h : (tokenizeLoop m tokens token l).rest = some rest) :
    rest <:+ l ∧ rest.length < l.length ∧ (tokenizeLoop m tokens token l).tokens.length = m - 1 := by
  induction l generalizing tokens token with
  | nil => simp [tokenizeLoop] at h
  | cons c cs ih =>
    have hstep : ∀ {tokens token}, (tokenizeLoop m tokens token cs).rest = some rest → rest <:+ c :: cs ∧
        rest.length < (c :: cs).length ∧ (tokenizeLoop m tokens token cs).tokens.length = m - 1 := by
      intro tokens token hrest
      obtain ⟨hsuffix, hlt, hlen⟩ := ih hrest
      exact ⟨hsuffix.trans (List.suffix_cons c cs), Nat.lt_succ_of_lt hlt, hlen⟩
    rw [tokenizeLoop] at h ⊢
    split_ifs at h ⊢ with hc htoken hlimit
    · exact hstep h
    · obtain rfl := Option.some.inj h
      refine ⟨List.suffix_cons c cs, Nat.lt_succ_self _, ?_⟩
      rw [List.length_append, List.length_singleton, hlimit]
    · exact hstep h
    · exact hstep h

section Command

variable {command rest : List Byte} {m : ℕ}

/-- The line in front of a null byte, if there is one. -/
def cString (command : List Byte) : List Byte := command.takeWhile (· ≠ 0)

lemma zero_notMem_cString (command : List Byte) : 0 ∉ cString command := by
  intro hmem
  simpa using List.mem_takeWhile_imp hmem

lemma cString_eq (h0 : 0 ∉ command) : cString command = command := by
  rw [cString, List.takeWhile_eq_self_iff]
  intro b hb
  have hne : b ≠ 0 := fun heq => h0 (heq ▸ hb)
  simpa using hne

lemma tokenizeCommand_words (command : List Byte) (m : ℕ) :
    Tokens.words (tokenizeCommand command m) = words SP (cString command) := by
  rw [tokenizeCommand, tokenizeLoop_words m [] List.not_mem_nil]
  rfl

lemma tokenizeCommand_rest (h : (tokenizeCommand command m).rest = some rest) :
    0 ∉ rest ∧ rest.length < command.length ∧ (tokenizeCommand command m).tokens.length = m - 1 := by
  obtain ⟨hsuffix, hlt, hlen⟩ := tokenizeLoop_rest m h
  have hsub : (cString command).Sublist command := List.takeWhile_sublist _
  refine ⟨fun hmem => ?_, Nat.lt_of_lt_of_le hlt hsub.length_le, hlen⟩
  exact zero_notMem_cString command (hsuffix.subset hmem)

/-- A line with at most as many words as there is room for is read at once. -/
lemma tokens_eq (hfew : (words SP (cString command)).length ≤ m - 1) :
    (tokenizeCommand command m).tokens = words SP (cString command) := by
  have hwords := tokenizeCommand_words command m
  unfold Tokens.words at hwords
  cases hrest : (tokenizeCommand command m).rest with
  | none =>
    rw [hrest] at hwords
    simpa using hwords
  | some rest =>
    obtain ⟨-, -, hlen⟩ := tokenizeCommand_rest hrest
    rw [hrest] at hwords
    have hlength := congrArg List.length hwords
    rw [List.length_append] at hlength
    have hnil : (Option.map (words SP) (some rest)).getD [] = [] := by
      apply List.eq_nil_of_length_eq_zero
      omega
    rw [hnil, List.append_nil] at hwords
    exact hwords

end Command

/-! ### The keys of a request -/

/-- The loop goes through all words, whatever the groups they come in. -/
lemma getKeysLoop_eq (n : ℕ) {t : Tokens} (hpos : 0 < n) (hrest : ∀ rest, t.rest = some rest → 0 ∉ rest ∧
      rest.length < n) :
    getKeysLoop n t = if ∃ key ∈ Tokens.words t, keyMaxLength < key.length then none
      else some (Tokens.words t) := by
  induction n generalizing t with
  | zero => exact absurd hpos (Nat.lt_irrefl 0)
  | succ n ih =>
    rw [getKeysLoop]
    by_cases hlong : ∃ key ∈ t.tokens, keyMaxLength < key.length
    · have hany : (t.tokens.any fun key => decide (keyMaxLength < key.length)) = true := by simpa using hlong
      obtain ⟨key, hkey, hlen⟩ := hlong
      rw [if_pos hany, if_pos ⟨key, List.mem_append_left _ hkey, hlen⟩]
    have hany : ¬(t.tokens.any fun key => decide (keyMaxLength < key.length)) = true := by simpa using hlong
    rw [if_neg hany]
    cases ht : t.rest with
    | none =>
      have hwords : Tokens.words t = t.tokens := by simp [Tokens.words, ht]
      rw [hwords, if_neg hlong]
    | some rest =>
      obtain ⟨h0, hlt⟩ := hrest rest ht
      have hwords : Tokens.words t = t.tokens ++ words SP rest := by simp [Tokens.words, ht]
      have hnext := tokenizeCommand_words rest maxTokens
      rw [cString_eq h0] at hnext
      dsimp only
      by_cases hnil : (tokenizeCommand rest maxTokens).tokens = []
      · -- only spaces are left
        have hdone : (tokenizeCommand rest maxTokens).rest = none := by
          by_contra hsome
          obtain ⟨rest', hrest'⟩ := Option.ne_none_iff_exists'.mp hsome
          obtain ⟨-, -, hlen⟩ := tokenizeCommand_rest hrest'
          rw [hnil] at hlen
          exact absurd hlen (by decide)
        have hempty : words SP rest = [] := by
          rw [← hnext, Tokens.words, hnil, hdone]
          rfl
        rw [if_pos hnil, hwords, hempty, List.append_nil, if_neg hlong]
      · have hsome : 0 < rest.length := by
          apply List.length_pos_of_ne_nil
          rintro rfl
          exact hnil rfl
        rw [if_neg hnil, ih (by omega) fun rest' hrest' => ?_, hnext, hwords]
        · by_cases hlater : ∃ key ∈ words SP rest, keyMaxLength < key.length
          · obtain ⟨key, hkey, hlen⟩ := hlater
            rw [if_pos ⟨key, hkey, hlen⟩, if_pos ⟨key, List.mem_append_right _ hkey, hlen⟩]
            rfl
          · have hnone : ¬∃ key ∈ t.tokens ++ words SP rest, keyMaxLength < key.length := by
              rintro ⟨key, hkey, hlen⟩
              rcases List.mem_append.mp hkey with hkey | hkey
              · exact hlong ⟨key, hkey, hlen⟩
              · exact hlater ⟨key, hkey, hlen⟩
            rw [if_neg hlater, if_neg hnone]
            rfl
        · obtain ⟨h0', hlt', -⟩ := tokenizeCommand_rest hrest'
          exact ⟨h0', by omega⟩

/-- The first group of a line with two words or more has two of them. -/
lemma tokens_cons {command : List Byte} {name : List Byte} {keys : List (List Byte)}
    (hwords : words SP (cString command) = name :: keys) (hsome : keys ≠ []) :
    ∃ group, (tokenizeCommand command maxTokens).tokens = name :: group ∧ group ≠ [] ∧
      Tokens.words ⟨group, (tokenizeCommand command maxTokens).rest⟩ = keys := by
  have hall := tokenizeCommand_words command maxTokens
  rw [hwords] at hall
  have hlen : (tokenizeCommand command maxTokens).rest ≠ none →
      2 ≤ (tokenizeCommand command maxTokens).tokens.length := by
    intro hne
    obtain ⟨rest, hrest⟩ := Option.ne_none_iff_exists'.mp hne
    obtain ⟨-, -, hlen⟩ := tokenizeCommand_rest hrest
    rw [hlen]
    decide
  unfold Tokens.words at hall ⊢
  cases htokens : (tokenizeCommand command maxTokens).tokens with
  | nil =>
    rw [htokens] at hall hlen
    by_cases hrest : (tokenizeCommand command maxTokens).rest = none
    · rw [hrest] at hall
      exact absurd hall (by simp)
    · exact absurd (hlen hrest) (by simp)
  | cons first group =>
    rw [htokens, List.cons_append, List.cons.injEq] at hall
    obtain ⟨rfl, hkeys⟩ := hall
    refine ⟨group, rfl, ?_, hkeys⟩
    rintro rfl
    by_cases hrest : (tokenizeCommand command maxTokens).rest = none
    · rw [hrest] at hkeys
      exact hsome hkeys.symm
    · rw [htokens] at hlen
      exact absurd (hlen hrest) (by simp)

section Get

variable {command name : List Byte} {keys : List (List Byte)}

/-- The loop of a request over all its groups. -/
lemma processCommandLine_get (hwords : words SP (cString command) = name :: keys) (hsome : keys ≠ [])
    (hname : name = ascii "get".toList ∨ name = ascii "bget".toList) :
    processCommandLine command = processGetKeys command (tokenizeCommand command maxTokens) ∧
      getKeysLoop (command.length + 1) ⟨(tokenizeCommand command maxTokens).tokens.tail,
          (tokenizeCommand command maxTokens).rest⟩ =
        if ∃ key ∈ keys, keyMaxLength < key.length then none else some keys := by
  obtain ⟨group, htokens, hne, hkeys⟩ := tokens_cons hwords hsome
  have hpos := List.length_pos_of_ne_nil hne
  have hcond : 3 ≤ (tokenizeCommand command maxTokens).ntokens ∧
      ((tokenizeCommand command maxTokens).value 0 = ascii "get".toList ∨
        (tokenizeCommand command maxTokens).value 0 = ascii "bget".toList) := by
    rw [Tokens.ntokens, Tokens.value, htokens, List.length_cons]
    exact ⟨by omega, hname⟩
  have hloop := getKeysLoop_eq (t := ⟨group, (tokenizeCommand command maxTokens).rest⟩) (command.length + 1)
    (Nat.succ_pos _) fun rest hrest => by
      obtain ⟨h0, hlt, -⟩ := tokenizeCommand_rest hrest
      exact ⟨h0, Nat.lt_succ_of_lt hlt⟩
  rw [hkeys] at hloop
  rw [htokens, List.tail_cons]
  refine ⟨?_, hloop⟩
  simp only [processCommandLine]
  exact if_pos hcond

/-- A request looks up every word behind the first, however many there are, unless one is too long. -/
theorem get_keys_split (hwords : words SP (cString command) = name :: keys) (hsome : keys ≠ [])
    (hname : name = ascii "get".toList ∨ name = ascii "bget".toList) :
    processCommandLine command =
      if ∃ key ∈ keys, keyMaxLength < key.length then .error badFormat false else .get keys := by
  obtain ⟨hline, hloop⟩ := processCommandLine_get hwords hsome hname
  rw [hline, processGetKeys, hloop]
  split_ifs <;> rfl

/-- Nine keys with spaces in between. -/
theorem nine_keys_split : processCommandLine (ascii "get a b  c d e f g h i ".toList) =
    .get (["a", "b", "c", "d", "e", "f", "g", "h", "i"].map fun key => ascii key.toList) := by
  have hwords : words SP (cString (ascii "get a b  c d e f g h i ".toList)) =
      ascii "get".toList :: ["a", "b", "c", "d", "e", "f", "g", "h", "i"].map fun key =>
      ascii key.toList := by
    decide
  rw [get_keys_split hwords (by simp) (Or.inl rfl), if_neg]
  decide

end Get

/-! ### Numbers -/

lemma digitsValue_append (ds : List Byte) (b : Byte) :
    digitsValue (ds ++ [b]) = digitsValue ds * 10 + (b.toNat - 48) := by
  rw [digitsValue, List.foldl_append]
  rfl

lemma toNat_digitChar {d : ℕ} (h : d < 10) : (chr d.digitChar).toNat = 48 + d := by
  interval_cases d <;> rfl

lemma digitsValue_itoa (n : ℕ) : digitsValue (itoaU64 n) = n := by
  induction n using Nat.strong_induction_on with
  | _ n ih =>
    unfold itoaU64 at ih ⊢
    by_cases hsmall : n < 10
    · rw [Nat.toDigits_of_lt_base hsmall]
      have hdigit := toNat_digitChar hsmall
      simp only [ascii, List.map_cons, List.map_nil, digitsValue, List.foldl_cons, List.foldl_nil]
      omega
    · have hmod : n % 10 < 10 := Nat.mod_lt n (by decide)
      have hdigit := toNat_digitChar hmod
      rw [Nat.toDigits_of_base_le (by decide) (Nat.le_of_not_lt hsmall), ascii, List.map_append,
        List.map_singleton, digitsValue_append]
      have hrec := ih (n / 10) (by omega)
      rw [ascii] at hrec
      rw [hrec]
      omega

lemma isDigit_itoa {n : ℕ} {b : Byte} (hb : b ∈ itoaU64 n) : isDigit b = true := by
  have hrange : 48 ≤ b.toNat ∧ b.toNat ≤ 57 := @toNat_of_mem_itoaU32 n b hb
  simp only [isDigit, decide_eq_true_eq, UInt8.le_iff_toNat_le]
  exact hrange

lemma isSpace_of_isDigit {b : Byte} (h : isDigit b = true) :
    isSpace b = false ∧ b ≠ chr '-' ∧ b ≠ chr '+' := by
  simp only [isDigit, decide_eq_true_eq] at h
  refine ⟨?_, ?_, ?_⟩
  · simp only [isSpace, Bool.or_eq_false_iff, beq_eq_false_iff_ne, decide_eq_false_iff_not, not_and]
    constructor
    · rintro rfl
      exact absurd h.1 (by decide)
    · intro _ hle
      exact absurd (UInt8.le_trans h.1 hle) (by decide)
  · rintro rfl
    exact absurd h.1 (by decide)
  · rintro rfl
    exact absurd h.1 (by decide)

section Digits

variable {ds : List Byte} (hne : ds ≠ []) (hall : ∀ b ∈ ds, isDigit b = true)

include hne hall in
/-- What the loops of `strtol` and `strtoull` see of a text of digits. -/
lemma digits_scan : ds.dropWhile isSpace = ds ∧ (ds.head? == some (chr '-')) = false ∧
    (ds.head? == some (chr '+')) = false ∧ ds.takeWhile isDigit = ds := by
  obtain ⟨b, bs, rfl⟩ := List.exists_cons_of_ne_nil hne
  obtain ⟨hspace, hminus, hplus⟩ := isSpace_of_isDigit (hall b List.mem_cons_self)
  refine ⟨?_, ?_, ?_, List.takeWhile_eq_self_iff.mpr hall⟩
  · rw [List.dropWhile_cons_of_neg (by simp [hspace])]
  · simpa using hminus
  · simpa using hplus

include hne hall in
lemma safeStrtoull_digits (hlt : digitsValue ds < 2 ^ 64) : safeStrtoull ds = some (digitsValue ds) := by
  obtain ⟨hdrop, hminus, hplus, htake⟩ := digits_scan hne hall
  have hno : chr '-' ∉ ds.takeWhile (· ≠ 0) := by
    intro hmem
    exact (isSpace_of_isDigit (hall _ ((List.takeWhile_sublist _).subset hmem))).2.1 rfl
  simp only [safeStrtoull, hdrop, hminus, hplus, Bool.or_self, Bool.false_eq_true, if_false, htake]
  rw [if_neg, if_pos, if_neg]
  · exact fun h => hno h.2
  · simp
  · rintro (hnil | hle)
    · exact hne hnil
    · omega

include hne hall in
lemma safeStrtol_digits (hlt : digitsValue ds < 2 ^ 31) : safeStrtol ds = some (digitsValue ds : ℤ) := by
  obtain ⟨hdrop, hminus, hplus, htake⟩ := digits_scan hne hall
  simp only [safeStrtol, hdrop, hminus, hplus, Bool.or_self, Bool.false_eq_true, if_false, htake]
  rw [if_neg, if_pos]
  · rw [Option.some.injEq, Int.bmod_eq_of_le] <;> omega
  · simp
  · rintro (hnil | hle)
    · exact hne hnil
    · omega

end Digits

lemma itoa_ne_nil (n : ℕ) : itoaU64 n ≠ [] := by
  rw [itoaU64, ascii, Ne, List.map_eq_nil_iff]
  exact Nat.toDigits_ne_nil

lemma safeStrtoull_itoa {n : ℕ} (h : n < 2 ^ 64) : safeStrtoull (itoaU64 n) = some n := by
  have hvalue := digitsValue_itoa n
  rw [safeStrtoull_digits (itoa_ne_nil n) (fun b hb => isDigit_itoa hb) (by omega), hvalue]

lemma safeStrtoul_itoa {n : ℕ} (h : n < 2 ^ 32) : safeStrtoul (itoaU32 n) = some n := by
  have hread : safeStrtoull (itoaU32 n) = some n := safeStrtoull_itoa (h.trans (by decide))
  rw [safeStrtoul, hread, Option.map_some, Nat.mod_eq_of_lt h]

lemma safeStrtol_itoa {n : ℕ} (h : n < 2 ^ 31) : safeStrtol (itoaU32 n) = some (n : ℤ) := by
  have hvalue : digitsValue (itoaU32 n) = n := digitsValue_itoa n
  have hread : safeStrtol (itoaU32 n) = some (digitsValue (itoaU32 n) : ℤ) :=
    safeStrtol_digits (itoa_ne_nil n) (fun b hb => @isDigit_itoa n b hb) (by omega)
  rw [hread, hvalue]

/-- The text of a number is a word. -/
lemma sp_notMem_itoa (n : ℕ) : SP ∉ itoaU64 n ∧ 0 ∉ itoaU64 n ∧ LF ∉ itoaU64 n := by
  refine ⟨fun hmem => ?_, fun hmem => ?_, fun hmem => ?_⟩ <;>
    exact absurd (isDigit_itoa hmem) (by decide)

/-! ### Lines of commands -/

/-- The command line that a client writes for a command. -/
def lineOf : ServerCommand → CommandLine
  | .get keys => .get keys
  | .update comm key flags exptime casUnique noreply data =>
    .update ⟨comm, key, flags, (safeStrtol exptime).getD 0, data.length, if comm = .cas then casUnique
      else 0, noreply⟩
  | .arithmetic incr key delta noreply => .arithmetic incr key delta noreply
  | .delete key noreply => .delete key noreply

/-- A command with keys that are words, numbers of the sizes memcached reads, and an expiration time of at
most eleven characters. -/
def Sendable : ServerCommand → Prop
  | .get keys => keys ≠ [] ∧ ∀ key ∈ keys, IsKey key ∧ 0 ∉ key
  | .update _ key flags exptime casUnique _ data =>
    (IsKey key ∧ 0 ∉ key) ∧ flags < 2 ^ 32 ∧
      (IsToken exptime ∧ exptime.length ≤ 11 ∧ (safeStrtol exptime).isSome) ∧
      casUnique < 2 ^ 64 ∧ data.length ≤ intMax - 2
  | .arithmetic _ key delta _ => (IsKey key ∧ 0 ∉ key) ∧ delta < 2 ^ 64
  | .delete key _ => IsKey key ∧ 0 ∉ key

lemma isToken_of_isKey {key : List Byte} (h : IsKey key ∧ 0 ∉ key) : IsToken key :=
  ⟨List.ne_nil_of_length_pos h.1.pos, h.1.noSpace, h.2, h.1.noNewline⟩

lemma isToken_itoa (n : ℕ) : IsToken (itoaU64 n) :=
  ⟨itoa_ne_nil n, (sp_notMem_itoa n).1, (sp_notMem_itoa n).2.1, (sp_notMem_itoa n).2.2⟩

/-- Words with a space in front of each but the first. -/
def spaced (first : List Byte) (rest : List (List Byte)) : List Byte := first ++ (rest.map (SP :: ·)).flatten

lemma spaced_cons (first second : List Byte) (rest : List (List Byte)) :
    spaced first (second :: rest) = first ++ SP :: spaced second rest := by
  simp [spaced]

lemma words_spaced {first : List Byte} {rest : List (List Byte)} (h : ∀ w ∈ first :: rest, IsToken w) :
    words SP (spaced first rest) = first :: rest := by
  induction rest generalizing first with
  | nil =>
    have hfirst := h first List.mem_cons_self
    rw [spaced, List.map_nil, List.flatten_nil, List.append_nil, words_of_notMem hfirst.noSpace hfirst.ne_nil]
  | cons second rest ih =>
    have hfirst := h first List.mem_cons_self
    rw [spaced_cons, words_cons hfirst.noSpace hfirst.ne_nil, ih fun w hw => h w (List.mem_cons_of_mem _ hw)]

/-- A byte that is no space and in no word is not in the line. -/
lemma notMem_spaced {b : Byte} (hb : b ≠ SP) {first : List Byte} {rest : List (List Byte)}
    (h : ∀ w ∈ first :: rest, b ∉ w) : b ∉ spaced first rest := by
  induction rest generalizing first with
  | nil =>
    have hfirst := h first List.mem_cons_self
    simpa [spaced] using hfirst
  | cons second rest ih =>
    rw [spaced_cons, List.mem_append, List.mem_cons, not_or, not_or]
    exact ⟨h first List.mem_cons_self, hb, ih fun w hw => h w (List.mem_cons_of_mem _ hw)⟩

/-- The tokens of a line of at most seven words. -/
lemma tokens_spaced {first : List Byte} {rest : List (List Byte)} (h : ∀ w ∈ first :: rest, IsToken w)
    (hfew : rest.length ≤ 6) : (tokenizeCommand (spaced first rest) maxTokens).tokens = first :: rest := by
  have h0 : 0 ∉ spaced first rest := notMem_spaced (by decide) fun w hw => (h w hw).noNull
  have hwords : words SP (cString (spaced first rest)) = first :: rest := by
    rw [cString_eq h0, words_spaced h]
  rw [tokens_eq, hwords]
  rw [hwords, List.length_cons]
  exact Nat.succ_le_succ hfew

/-- The words of the line of a command. -/
def wordsOf : ServerCommand → List Byte × List (List Byte)
  | .get keys => (ascii "get".toList, keys)
  | .update comm key flags exptime casUnique noreply data =>
    (comm.text, [key, itoaU32 flags, exptime, itoaU32 data.length] ++
      ((if comm = .cas then [itoaU64 casUnique] else []) ++ if noreply then [ascii "noreply".toList] else []))
  | .arithmetic incr key delta noreply =>
    (ascii (if incr then "incr" else "decr").toList,
      [key, itoaU64 delta] ++ if noreply then [ascii "noreply".toList] else [])
  | .delete key noreply => (ascii "delete".toList, [key] ++ if noreply then [ascii "noreply".toList] else [])

/-- What follows the line of a command. -/
def dataOf : ServerCommand → List Byte
  | .update _ _ _ _ _ _ data => data ++ crlf
  | _ => []

lemma bytes_eq (cmd : ServerCommand) :
    cmd.bytes = spaced (wordsOf cmd).1 (wordsOf cmd).2 ++ (crlf ++ dataOf cmd) := by
  cases cmd with
  | get keys => simp [ServerCommand.bytes, ServerCommand.command, Command.bytes, wordsOf, dataOf, spaced]
  | update comm key flags exptime casUnique noreply data =>
    simp only [ServerCommand.bytes, ServerCommand.command, Command.bytes, wordsOf, dataOf, spaced,
      ServerCommand.noreplyText]
    split_ifs <;> simp [ascii, chr]
  | arithmetic incr key delta noreply =>
    simp only [ServerCommand.bytes, ServerCommand.command, Command.bytes, wordsOf, dataOf, spaced,
      ServerCommand.noreplyText]
    split_ifs <;> simp [ascii, chr]
  | delete key noreply =>
    simp only [ServerCommand.bytes, ServerCommand.command, Command.bytes, wordsOf, dataOf, spaced,
      ServerCommand.noreplyText]
    split_ifs <;> simp [ascii, chr]

lemma isToken_text (verb : StorageVerb) : IsToken verb.text := by
  constructor <;> cases verb <;> decide

/-- The words that lines have besides keys and numbers. -/
lemma isToken_names {text : List Byte}
    (h : text ∈ ["get", "incr", "decr", "delete", "noreply"].map fun name => ascii name.toList) :
    IsToken text := by
  have hall : ∀ text ∈ ["get", "incr", "decr", "delete", "noreply"].map fun name => ascii name.toList,
      text ≠ [] ∧ SP ∉ text ∧ 0 ∉ text ∧ LF ∉ text := by decide
  obtain ⟨hne, hsp, h0, hlf⟩ := hall text h
  exact ⟨hne, hsp, h0, hlf⟩

lemma isToken_wordsOf {cmd : ServerCommand} (h : Sendable cmd) :
    ∀ w ∈ (wordsOf cmd).1 :: (wordsOf cmd).2, IsToken w := by
  have hnoreply : ∀ {noreply : Bool} {w}, w ∈ (if noreply then [ascii "noreply".toList] else []) →
      IsToken w := by
    intro noreply w hw
    split_ifs at hw
    · rw [List.mem_singleton.mp hw]
      exact isToken_names (by simp)
    · exact absurd hw List.not_mem_nil
  intro w hw
  cases cmd with
  | get keys =>
    rcases List.mem_cons.mp hw with rfl | hw
    · exact isToken_names (by simp [wordsOf])
    · exact isToken_of_isKey (h.2 w hw)
  | update comm key flags exptime casUnique noreply data =>
    obtain ⟨hkey, -, ⟨hexptime, -⟩, -⟩ := h
    simp only [wordsOf, List.mem_cons, List.mem_append, List.not_mem_nil, or_false] at hw
    rcases hw with rfl | (rfl | rfl | rfl | rfl) | hw | hw
    · exact isToken_text comm
    · exact isToken_of_isKey hkey
    · exact isToken_itoa flags
    · exact hexptime
    · exact isToken_itoa data.length
    · split_ifs at hw
      · rw [List.mem_singleton.mp hw]
        exact isToken_itoa casUnique
      · exact absurd hw List.not_mem_nil
    · exact hnoreply hw
  | arithmetic incr key delta noreply =>
    simp only [wordsOf, List.mem_cons, List.mem_append, List.not_mem_nil, or_false] at hw
    rcases hw with rfl | (rfl | rfl) | hw
    · cases incr <;> exact isToken_names (by simp)
    · exact isToken_of_isKey h.1
    · exact isToken_itoa delta
    · exact hnoreply hw
  | delete key noreply =>
    simp only [wordsOf, List.mem_cons, List.mem_append, List.not_mem_nil, or_false] at hw
    rcases hw with rfl | rfl | hw
    · exact isToken_names (by simp)
    · exact isToken_of_isKey h
    · exact hnoreply hw

/-- The number of a line is no `noreply`. -/
lemma itoa_ne_noreply (n : ℕ) : (itoaU64 n == ascii "noreply".toList) = false := by
  rw [beq_eq_false_iff_ne]
  intro heq
  have hmem : chr 'n' ∈ itoaU64 n := by
    rw [heq]
    decide
  exact absurd (isDigit_itoa hmem) (by decide)

section Lines

variable {t : Tokens} {ws : List (List Byte)} {noreply : Bool}

/-- The last word of a line, which may be `noreply`. -/
lemma value_last {w : List Byte} (h : t.tokens = ws ++ [w]) : t.value (t.ntokens - 2) = w := by
  simp [Tokens.value, Tokens.ntokens, h]

lemma setNoreplyMaybe_eq {n : ℕ}
    (h : t.tokens = ws ++ ([itoaU64 n] ++ if noreply then [ascii "noreply".toList] else [])) :
    setNoreplyMaybe t = noreply := by
  unfold setNoreplyMaybe
  cases noreply with
  | true =>
    rw [← List.append_assoc] at h
    rw [value_last h, beq_self_eq_true]
  | false =>
    rw [if_neg Bool.false_ne_true, List.append_nil] at h
    rw [value_last h, itoa_ne_noreply]

/-- The first word of a storage command is found with its verb, and only `cas` behind the others. -/
lemma updateVerb_text (comm : StorageVerb) :
    updateVerb comm.text = (if comm = .cas then none else some comm) ∧
    comm.text ≠ ascii "get".toList ∧ comm.text ≠ ascii "bget".toList := by
  cases comm <;> decide

lemma processUpdateLine_eq {comm : StorageVerb} {key exptime : List Byte} {flags n reqCas : ℕ}
    {handleCas : Bool} {tail : List (List Byte)}
    (htokens : t.tokens = [comm.text, key, itoaU32 flags, exptime, itoaU32 n] ++ tail) (hkey : IsKey key)
    (hflags : flags < 2 ^ 32) (hexptime : (safeStrtol exptime).isSome) (hn : n ≤ intMax - 2)
    (hcas : (if handleCas then safeStrtoull (t.value 5) else some 0) = some reqCas)
    (hnoreply : setNoreplyMaybe t = noreply) :
    processUpdateLine t comm handleCas =
      .update ⟨comm, key, flags, (safeStrtol exptime).getD 0, n, reqCas, noreply⟩ := by
  obtain ⟨e, he⟩ := Option.isSome_iff_exists.mp hexptime
  have hvalues : t.value 1 = key ∧ t.value 2 = itoaU32 flags ∧ t.value 3 = exptime ∧
      t.value 4 = itoaU32 n := by
    simp [Tokens.value, htokens]
  obtain ⟨hone, htwo, hthree, hfour⟩ := hvalues
  have hvlen : n < 2 ^ 31 := Nat.lt_of_le_of_lt hn (by decide)
  have hbound : ¬((n : ℤ) < 0 ∨ (intMax : ℤ) - 2 < n) := by
    have hint : (intMax : ℤ) = 2 ^ 31 - 1 := rfl
    have hnat : intMax = 2 ^ 31 - 1 := rfl
    omega
  simp only [processUpdateLine, hone, htwo, hthree, hfour, hnoreply, hcas, safeStrtoul_itoa hflags, he,
    safeStrtol_itoa hvlen]
  rw [if_neg (Nat.not_lt_of_le hkey.le), if_neg hbound]
  rfl

lemma processCommandLine_update {comm : StorageVerb} {key : List Byte} {flags : ℕ} {exptime : List Byte}
    {casUnique : ℕ} {data : List Byte} (h : Sendable (.update comm key flags exptime casUnique noreply data))
    {command : List Byte} (htokens : (tokenizeCommand command maxTokens).tokens =
      (wordsOf (.update comm key flags exptime casUnique noreply data)).1 ::
        (wordsOf (.update comm key flags exptime casUnique noreply data)).2) :
    processCommandLine command = lineOf (.update comm key flags exptime casUnique noreply data) := by
  obtain ⟨⟨hkey, -⟩, hflags, ⟨-, -, hexptime⟩, hcas, hdata⟩ := h
  obtain ⟨hverb, hget, hbget⟩ := updateVerb_text comm
  simp only [processCommandLine]
  generalize tokenizeCommand command maxTokens = t at htokens ⊢
  simp only [wordsOf] at htokens
  have hname : t.value 0 = comm.text := by
    rw [Tokens.value, htokens]
    rfl
  rw [hname, if_neg fun hcond => hcond.2.elim hget hbget, hverb]
  by_cases hc : comm = .cas
  · subst hc
    rw [if_pos rfl] at htokens
    have hcount : t.ntokens = 7 ∨ t.ntokens = 8 := by
      rw [Tokens.ntokens, htokens]
      cases noreply with
      | true => exact Or.inr rfl
      | false => exact Or.inl rfl
    have hreq : (if true = true then safeStrtoull (t.value 5) else some 0) = some casUnique := by
      have hfive : t.value 5 = itoaU64 casUnique := by
        rw [Tokens.value, htokens]
        rfl
      rw [if_pos rfl, hfive, safeStrtoull_itoa hcas]
    have hnoreply : setNoreplyMaybe t = noreply :=
      @setNoreplyMaybe_eq t
        [StorageVerb.cas.text, key, itoaU32 flags, exptime, itoaU32 data.length] _ _ htokens
    rw [if_pos rfl]
    dsimp only
    rw [if_pos ⟨hcount, rfl⟩]
    exact processUpdateLine_eq htokens hkey hflags hexptime hdata hreq hnoreply
  · rw [if_neg hc, List.nil_append] at htokens
    have hcount : t.ntokens = 6 ∨ t.ntokens = 7 := by
      rw [Tokens.ntokens, htokens]
      cases noreply with
      | true => exact Or.inr rfl
      | false => exact Or.inl rfl
    have hnoreply : setNoreplyMaybe t = noreply :=
      @setNoreplyMaybe_eq t [comm.text, key, itoaU32 flags, exptime] _ data.length htokens
    rw [if_neg hc]
    dsimp only
    rw [if_pos hcount, lineOf, if_neg hc]
    exact processUpdateLine_eq htokens hkey hflags hexptime hdata rfl hnoreply

/-- The names of the other commands. -/
lemma names_apart {name : List Byte}
    (h : name ∈ ["incr", "decr", "delete"].map fun name => ascii name.toList) :
    name ≠ ascii "get".toList ∧ name ≠ ascii "bget".toList ∧ updateVerb name = none ∧
      name ≠ StorageVerb.cas.text := by
  revert name
  decide

lemma incr_ne_decr : ascii "decr".toList ≠ ascii "incr".toList := by decide

lemma delete_ne : ascii "delete".toList ≠ ascii "incr".toList ∧
    ascii "delete".toList ≠ ascii "decr".toList := by
  decide

lemma processCommandLine_arithmetic {incr : Bool} {key : List Byte} {delta : ℕ}
    (h : Sendable (.arithmetic incr key delta noreply)) {command : List Byte}
    (htokens : (tokenizeCommand command maxTokens).tokens =
      (wordsOf (.arithmetic incr key delta noreply)).1 :: (wordsOf (.arithmetic incr key delta noreply)).2) :
    processCommandLine command = lineOf (.arithmetic incr key delta noreply) := by
  obtain ⟨⟨hkey, -⟩, hdelta⟩ := h
  simp only [processCommandLine]
  generalize tokenizeCommand command maxTokens = t at htokens ⊢
  simp only [wordsOf] at htokens
  have hname : t.value 0 = ascii (if incr then "incr" else "decr").toList := by
    rw [Tokens.value, htokens]
    rfl
  have hvalues : t.value 1 = key ∧ t.value 2 = itoaU64 delta := by
    rw [Tokens.value, Tokens.value, htokens]
    exact ⟨rfl, rfl⟩
  have hcount : t.ntokens = 4 ∨ t.ntokens = 5 := by
    rw [Tokens.ntokens, htokens]
    cases noreply with
    | true => exact Or.inr rfl
    | false => exact Or.inl rfl
  have hnoreply : setNoreplyMaybe t = noreply :=
    @setNoreplyMaybe_eq t [ascii (if incr then "incr" else "decr").toList, key] _ _ htokens
  have hline : processArithmeticLine t incr = .arithmetic incr key delta noreply := by
    simp only [processArithmeticLine, hvalues, hnoreply, safeStrtoull_itoa hdelta]
    rw [if_neg (Nat.not_lt_of_le hkey.le)]
  obtain ⟨hget, hbget, hverb, hcas⟩ := @names_apart (t.value 0) (by rw [hname]; cases incr <;> simp)
  rw [if_neg fun hcond => hcond.2.elim hget hbget, hverb]
  dsimp only
  rw [if_neg fun hcond => hcas hcond.2]
  cases incr with
  | true =>
    rw [if_pos ⟨hcount, hname⟩]
    exact hline
  | false =>
    rw [if_neg fun hcond => incr_ne_decr (hname.symm.trans hcond.2), if_pos ⟨hcount, hname⟩]
    exact hline

lemma processCommandLine_delete {key : List Byte} (h : Sendable (.delete key noreply)) {command : List Byte}
    (htokens : (tokenizeCommand command maxTokens).tokens =
      (wordsOf (.delete key noreply)).1 :: (wordsOf (.delete key noreply)).2) :
    processCommandLine command = lineOf (.delete key noreply) := by
  simp only [processCommandLine]
  generalize tokenizeCommand command maxTokens = t at htokens ⊢
  simp only [wordsOf] at htokens
  have hname : t.value 0 = ascii "delete".toList := by
    rw [Tokens.value, htokens]
    rfl
  have hkey : t.value 1 = key := by
    rw [Tokens.value, htokens]
    rfl
  have hline : processDeleteLine t = .delete key noreply := by
    simp only [processDeleteLine, hkey]
    cases noreply with
    | true =>
      have hcount : t.ntokens = 4 := by
        rw [Tokens.ntokens, htokens]
        rfl
      have hnoreply : setNoreplyMaybe t = true := by
        have hlast := @value_last t [ascii "delete".toList, key] (ascii "noreply".toList) htokens
        rw [setNoreplyMaybe, hlast, beq_self_eq_true]
      simp only [hcount, hnoreply]
      rw [if_neg (by simp), if_neg (Nat.not_lt_of_le h.1.le)]
      rfl
    | false =>
      have hcount : t.ntokens = 3 := by
        rw [Tokens.ntokens, htokens]
        rfl
      rw [hcount, if_neg (by simp), if_neg (Nat.not_lt_of_le h.1.le)]
      rfl
  have hfew : 3 ≤ t.ntokens ∧ t.ntokens ≤ 5 := by
    rw [Tokens.ntokens, htokens]
    cases noreply with
    | true => exact ⟨Nat.le_succ 3, Nat.le_succ 4⟩
    | false => exact ⟨Nat.le_refl 3, Nat.le_add_right 3 2⟩
  obtain ⟨hget, hbget, hverb, hcas⟩ := @names_apart (t.value 0) (by rw [hname]; simp)
  rw [if_neg fun hcond => hcond.2.elim hget hbget, hverb]
  dsimp only
  rw [if_neg fun hcond => hcas hcond.2, if_neg fun hcond => delete_ne.1 (hname.symm.trans hcond.2),
    if_neg fun hcond => delete_ne.2 (hname.symm.trans hcond.2), if_pos ⟨hfew.1, hfew.2, hname⟩]
  exact hline

/-- The line of a command is read as the command. -/
lemma processCommandLine_lineOf {cmd : ServerCommand} (h : Sendable cmd) :
    processCommandLine (spaced (wordsOf cmd).1 (wordsOf cmd).2) = lineOf cmd := by
  have hwords := isToken_wordsOf h
  cases cmd with
  | get keys =>
    have hline := words_spaced hwords
    rw [← cString_eq (notMem_spaced (b := 0) (by decide) fun w hw => (hwords w hw).noNull)] at hline
    obtain ⟨hread, hloop⟩ := processCommandLine_get hline h.1 (Or.inl rfl)
    rw [if_neg] at hloop
    · rw [hread, processGetKeys, hloop]
      rfl
    · rintro ⟨key, hkey, hlong⟩
      exact absurd (h.2 key hkey).1.le (Nat.not_le_of_lt hlong)
  | update comm key flags exptime casUnique noreply data =>
    refine processCommandLine_update h (tokens_spaced hwords ?_)
    simp only [wordsOf, List.length_append, List.length_cons, List.length_nil]
    split_ifs <;> simp
  | arithmetic incr key delta noreply =>
    refine processCommandLine_arithmetic h (tokens_spaced hwords ?_)
    simp only [wordsOf, List.length_append, List.length_cons, List.length_nil]
    split_ifs <;> simp
  | delete key noreply =>
    refine processCommandLine_delete h (tokens_spaced hwords ?_)
    simp only [wordsOf, List.length_append, List.length_cons, List.length_nil]
    split_ifs <;> simp

end Lines

end BmcCache.Proofs
