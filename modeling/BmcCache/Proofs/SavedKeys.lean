import BmcCache.Proofs.Transparency
import Mathlib.Logic.Relation

/-!
# The keys the parser saves

The programs of one packet and the tail calls between them, and what they have done with a
request of several keys by the time `bmc_prepare_packet_main` is entered: every key has been
examined where it stands, and those that looked cached are saved in the order of the request.
-/

namespace BmcCache.Proofs

open Relation

/-! ### Programs that are entered -/

/-- A program at its entry: its number, the tail calls still allowed and the state it finds. -/
structure Entry where
  left : ℕ
  t : ℕ
  prog : XdpProg
  state : XdpState

def Entry.main (env : Interference) (e : Entry) : Exit × XdpState :=
  e.prog.main { e.state with kcache := env e.t e.state.kcache }

def TailCalls (env : Interference) (e e' : Entry) : Prop :=
  ∃ fallthrough, e.main env = (.tailCall e'.prog fallthrough, e'.state) ∧ e.left = e'.left + 1 ∧
    e'.t = e.t + 1

/-- The chain that starts with `e` comes to `e'`. -/
def Enters (env : Interference) : Entry → Entry → Prop := ReflTransGen (TailCalls env)

lemma runChain_of_enters {env : Interference} {e e' : Entry} (h : Enters env e e') :
    runChain env e.left e.t e.prog e.state = runChain env e'.left e'.t e'.prog e'.state := by
  induction h using ReflTransGen.head_induction_on with
  | refl => rfl
  | head hcall _ ih =>
    obtain ⟨fallthrough, hmain, hleft, ht⟩ := hcall
    rw [hleft, runChain_tailCall_succ hmain, ← ht]
    exact ih

section Exits

variable {env : Interference} {e e' : Entry}

lemma not_tailCalls_of_ret {action : XdpAction} (h : (e.main env).1 = .ret action) : ¬TailCalls env e e' := by
  rintro ⟨fallthrough, hmain, -⟩
  rw [hmain] at h
  simp at h

lemma replyNext_exit (s : XdpState) (written : ℕ) :
    (∃ action, (replyNext s written).1 = .ret action) ∨
    (replyNext s written).1 = .tailCall .writeReply .drop := by
  simp only [replyNext, finishReply]
  repeat' split
  all_goals first | exact Or.inl ⟨_, rfl⟩ | exact Or.inr rfl

lemma writeReply_exit (s : XdpState) :
    (∃ action, (bmcWriteReplyMain s).1 = .ret action) ∨
    (bmcWriteReplyMain s).1 = .tailCall .writeReply .drop := by
  simp only [bmcWriteReplyMain]
  repeat' split
  all_goals first | exact Or.inl ⟨_, rfl⟩ | exact replyNext_exit _ _

lemma preparePacket_exit (s : XdpState) :
    (∃ action, (bmcPreparePacketMain s).1 = .ret action) ∨
      (bmcPreparePacketMain s).1 = .tailCall .writeReply .pass := by
  simp only [bmcPreparePacketMain]
  repeat' split
  all_goals first | exact Or.inl ⟨_, rfl⟩ | exact Or.inr rfl

/-- In the reply phase `bmc_write_reply_main` is the only program called. -/
lemma tailCalls_reply (hprog : e.prog = .preparePacket ∨ e.prog = .writeReply) (h : TailCalls env e e') :
    e'.prog = .writeReply := by
  obtain ⟨fallthrough, hmain, -⟩ := h
  obtain ⟨fb, hexit⟩ : ∃ fb, (e.main env).1 = .tailCall .writeReply fb := by
    rw [Entry.main] at hmain ⊢
    rcases hprog with hp | hp
    · rw [hp] at hmain ⊢
      rcases preparePacket_exit { e.state with kcache := env e.t e.state.kcache } with ⟨action, hret⟩ | hcall
      · exact absurd hret (by rw [show bmcPreparePacketMain _ = _ from hmain]; simp)
      · exact ⟨_, hcall⟩
    · rw [hp] at hmain ⊢
      rcases writeReply_exit { e.state with kcache := env e.t e.state.kcache } with ⟨action, hret⟩ | hcall
      · exact absurd hret (by rw [show bmcWriteReplyMain _ = _ from hmain]; simp)
      · exact ⟨_, hcall⟩
  rw [hmain] at hexit
  simp only [Exit.tailCall.injEq] at hexit
  exact hexit.1

lemma enters_from_writeReply (h : Enters env e e') (hprog : e.prog = .writeReply) :
    e'.prog = .writeReply := by
  induction h with
  | refl => exact hprog
  | tail _ hcall ih => exact tailCalls_reply (Or.inr ih) hcall

lemma enters_prepare_self (h : Enters env e e') (hprog : e.prog = .preparePacket)
    (hprog' : e'.prog = .preparePacket) : e' = e := by
  rcases ReflTransGen.cases_head h with heq | ⟨next, hcall, hrest⟩
  · exact heq.symm
  · have hnext := enters_from_writeReply hrest (tailCalls_reply (Or.inl hprog) hcall)
    rw [hnext] at hprog'
    simp at hprog'

end Exits

/-! ### The request line -/

/-- The keyword, spaces after it, and the keys. -/
def requestLine (spaces : ℕ) (ks : List (List Byte)) : List Byte :=
  ascii ['g', 'e', 't'] ++ (List.replicate spaces SP ++ keyLine ks)

/-- The keys of a request in front of the first carriage return, whatever comes behind it. -/
def keysText (rest : List Byte) : List (List Byte) → List Byte
  | [] => CR :: rest
  | [k] => k ++ CR :: rest
  | k :: ks => k ++ SP :: keysText rest ks

def requestText (spaces : ℕ) (ks : List (List Byte)) (rest : List Byte) : List Byte :=
  ascii ['g', 'e', 't'] ++ (List.replicate spaces SP ++ keysText rest ks)

lemma keyLine_eq_keysText (ks : List (List Byte)) : keyLine ks = keysText [LF] ks := by
  induction ks with
  | nil => rfl
  | cons k ks ih =>
    cases ks with
    | nil => rfl
    | cons k' ks =>
      rw [keyLine_cons k (List.cons_ne_nil k' ks), ih]
      rfl

lemma requestLine_eq (spaces : ℕ) (ks : List (List Byte)) :
    requestLine spaces ks = requestText spaces ks [LF] := by
  rw [requestLine, requestText, keyLine_eq_keysText]

/-- A key as a request may hold it. -/
def RequestKey (k : List Byte) : Prop :=
  (0 < k.length ∧ k.length ≤ bmcMaxKeyLength) ∧ ∀ b ∈ k, isKeyByte b = true

lemma wsLoop_spaces (n m off : ℕ) {l : List Byte} (hl : ∀ b, l.head? = some b → b ≠ SP) :
    wsLoop n (List.replicate m SP ++ l) off = off + min n m := by
  induction m generalizing n off with
  | zero =>
    rw [List.replicate_zero, List.nil_append, Nat.min_zero, Nat.add_zero]
    cases l with
    | nil => cases n <;> rfl
    | cons b bs => exact wsLoop_stop n bs off (hl b rfl)
  | succ m ih =>
    cases n with
    | zero => simp [wsLoop]
    | succ n =>
      rw [List.replicate_succ, List.cons_append, wsLoop, if_neg (by simp), ih]
      omega

lemma head?_keysText {rest : List Byte} {ks : List (List Byte)} (hks : ∀ k ∈ ks, RequestKey k) :
    ∀ b, (keysText rest ks).head? = some b → b ≠ SP := by
  cases ks with
  | nil =>
    intro b hb
    obtain rfl : CR = b := by simpa [keysText] using hb
    decide
  | cons k ks =>
    obtain ⟨⟨hpos, -⟩, hbytes⟩ := hks k List.mem_cons_self
    obtain ⟨b, bs, rfl⟩ := List.exists_cons_of_length_pos hpos
    have hb : b ≠ SP := by
      have hkey := hbytes b List.mem_cons_self
      simp only [isKeyByte, Bool.and_eq_true, bne_iff_ne] at hkey
      exact hkey.2
    have hhead : (keysText rest ((b :: bs) :: ks)).head? = some b := by
      cases ks with
      | nil => rfl
      | cons k' ks => rfl
    intro b' hb'
    rw [hhead, Option.some.injEq] at hb'
    exact hb' ▸ hb

section Line

variable {hdr : List Byte} {spaces : ℕ} {ks : List (List Byte)} {rest : List Byte}

lemma keysOffset_requestText (hhdr : hdr.length = headersLen) (hks : ∀ k ∈ ks, RequestKey k) :
    keysOffset (hdr ++ requestText (spaces + 1) ks rest) = 4 + min (bmcMaxPacketLength - 4) spaces := by
  have hdrop : ((hdr ++ requestText (spaces + 1) ks rest).drop headersLen).drop 4 =
      List.replicate spaces SP ++ keysText rest ks := by
    rw [← hhdr, List.drop_left]
    rfl
  rw [keysOffset, hdrop, wsLoop_spaces _ _ _ (head?_keysText hks)]

lemma drop_requestText (hhdr : hdr.length = headersLen) :
    (hdr ++ requestText (spaces + 1) ks rest).drop (headersLen + (4 + spaces)) = keysText rest ks := by
  have hsplit : hdr ++ requestText (spaces + 1) ks rest =
      (hdr ++ (ascii ['g', 'e', 't'] ++ List.replicate (spaces + 1) SP)) ++ keysText rest ks := by
    simp only [requestText, List.append_assoc]
  rw [hsplit, List.drop_left']
  simp only [List.length_append, hhdr, ascii, List.length_map, List.length_cons, List.length_nil,
    List.length_replicate]
  omega

lemma isGetFrame_requestText (hhdr : IsUdpHeader hdr) :
    isGetFrame (hdr ++ requestText (spaces + 1) ks rest) = true := by
  have hsz := sizes
  have hl := hhdr.length
  have hline : requestText (spaces + 1) ks rest =
      ascii ['g', 'e', 't', ' '] ++ (List.replicate spaces SP ++ keysText rest ks) := rfl
  have hdrop : (hdr ++ requestText (spaces + 1) ks rest).drop headersLen =
      requestText (spaces + 1) ks rest := by
    rw [← hl, List.drop_left]
  have hlen : headersLen + 4 ≤ (hdr ++ requestText (spaces + 1) ks rest).length := by
    rw [List.length_append, hl, hline, List.length_append]
    exact Nat.add_le_add_left (Nat.le_add_right 4 _) _
  have hget : isGet (requestText (spaces + 1) ks rest) = true := by
    rw [isGet, hline]
    exact List.isPrefixOf_iff_prefix.mpr (List.prefix_append _ _)
  rw [isGetFrame, hdrop, byteAt_append (by omega), be16At_append (by omega), hhdr.protocol, hhdr.port, hget]
  simpa using hlen

end Line

/-! ### The keys examined -/

/-- The keys that look cached, when the first one is examined by program number `t`. -/
def candidates (obs : ℕ → Cache) : ℕ → List (List Byte) → List (List Byte)
  | _, [] => []
  | t, k :: ks => if looksCached (obs t) k then k :: candidates obs (t + 1) ks else candidates obs (t + 1) ks

/-- Where key number `i` starts, when the first one starts at `off`. -/
def keyStart (off : ℕ) (ks : List (List Byte)) (i : ℕ) : ℕ :=
  off + ((ks.take i).map fun k => k.length + 1).sum

lemma append_candidates_cons (obs : ℕ → Cache) (t : ℕ) (saved : List (List Byte)) (k : List Byte)
    (ks : List (List Byte)) :
    saved ++ candidates obs t (k :: ks) = savedNext (obs t) saved k ++ candidates obs (t + 1) ks := by
  rw [candidates, savedNext]
  split_ifs
  · simp
  · rfl

/-- The program examines the key at the offset `off` of the payload: its packet start is there,
the 16-bit read offset has not wrapped, and the cache it sees is `c`. -/
structure ExaminesAt (env : Interference) (mem : List Byte) (h off : ℕ) (c : Cache) (e : Entry) : Prop where
  prog : e.prog = .hashKeys
  ctx : e.state.ctx = ⟨mem, h + headersLen + off⟩
  offset : e.state.cpu.pctx.readPktOffset = off
  cache : env e.t e.state.kcache = c

lemma hashKeys_prepare_offset {s : XdpState} {fallthrough : XdpAction}
    (h : (bmcHashKeysMain s).1 = .tailCall .preparePacket fallthrough) :
    (bmcHashKeysMain s).2.cpu.pctx.readPktOffset = s.cpu.pctx.readPktOffset := by
  have hnext (s : XdpState) (v : HashVars) (h : (nextKey s v).1 = .tailCall .preparePacket fallthrough) :
      (nextKey s v).2.cpu.pctx.readPktOffset = s.cpu.pctx.readPktOffset := by
    simp only [nextKey] at h ⊢
    split_ifs at h ⊢ with hdone
    · rfl
    · split at h <;> simp at h
  simp only [bmcHashKeysMain] at h ⊢
  split at h
  · simp at h
  · next hlen =>
    rw [if_neg hlen]
    split at h
    · simp at h
    · split_ifs at h ⊢ with hbad
      rw [Cache.lookupElem_cacheIdx] at h ⊢
      exact (hnext _ _ h).trans (saveOrMiss_pctx _ _ _ _ _).1

/-- The counters of hits, misses and mispredictions have grown by the given numbers. -/
structure Counted (s s' : BmcStats) (hits misses mispredicted : ℕ) : Prop where
  hits : s'.hitCount = s.hitCount + UInt32.ofNat hits
  misses : s'.missCount = s.missCount + UInt32.ofNat misses
  mispredicted : s'.hitMisprediction = s.hitMisprediction + UInt32.ofNat mispredicted

lemma Counted.trans {s s' s'' : BmcStats} {h m p h' m' p' : ℕ} (hs : Counted s s' h m p)
    (hs' : Counted s' s'' h' m' p') :
    Counted s s'' (h + h') (m + m') (p + p') := by
  constructor
  · rw [hs'.hits, hs.hits, UInt32.ofNat_add, UInt32.add_assoc]
  · rw [hs'.misses, hs.misses, UInt32.ofNat_add, UInt32.add_assoc]
  · rw [hs'.mispredicted, hs.mispredicted, UInt32.ofNat_add, UInt32.add_assoc]

lemma Counted.of_eq {s s' : BmcStats} (h : s' = s) : Counted s s' 0 0 0 := by
  rw [h]
  exact ⟨(UInt32.add_zero _).symm, (UInt32.add_zero _).symm, (UInt32.add_zero _).symm⟩

lemma nextKey_stats (s : XdpState) (v : HashVars) : (nextKey s v).2.cpu.stats = s.cpu.stats := by
  simp only [nextKey]
  repeat' split
  all_goals rfl

lemma saveOrMiss_counts (cpu : PerCpu) (key : MemcachedKey) (entry : BmcCacheEntry)
    (body : List Byte) (n : ℕ) :
    Counted cpu.stats (saveOrMiss cpu key entry body n).stats 0
      (if (entry.valid && entry.hash == key.hash) = true then 0 else 1) 0 := by
  have hiff : (entry.valid && entry.hash == key.hash) = true ↔
    entry.valid = true ∧ entry.hash = key.hash := by simp
  unfold saveOrMiss
  by_cases hhit : entry.valid = true ∧ entry.hash = key.hash
  · rw [if_pos hhit, if_pos (hiff.mpr hhit)]
    exact Counted.of_eq rfl
  · rw [if_neg hhit, if_neg (mt hiff.mp hhit)]
    exact ⟨(UInt32.add_zero _).symm, rfl, (UInt32.add_zero _).symm⟩

/-- A key that does not look cached is counted as a miss. -/
lemma hashKeys_counts {s : XdpState} {prog : XdpProg} {fallthrough : XdpAction}
    (h : (bmcHashKeysMain s).1 = .tailCall prog fallthrough) :
    Counted s.cpu.stats (bmcHashKeysMain s).2.cpu.stats 0
    (if looksCached s.kcache (keyWord s.ctx.pkt) then 0 else 1)
      0 := by
  simp only [bmcHashKeysMain, hashLoop_word] at h ⊢
  split at h
  · simp at h
  · next hlen =>
    rw [if_neg hlen]
    split at h
    · simp at h
    · split_ifs at h with hbad
      rw [if_neg hbad, Cache.lookupElem_cacheIdx]
      dsimp only
      rw [nextKey_stats]
      exact saveOrMiss_counts (s.cpu.storeKey s.cpu.pctx.keyCount _) _ _ _ _

/-- The state of the request when `bmc_prepare_packet_main` is entered. -/
structure Examined (env : Interference) (obs : ℕ → Cache) (mem : List Byte) (h off : ℕ)
    (saved ks : List (List Byte)) (e e' : Entry) : Prop where
  t : e'.t = e.t + ks.length
  left : e.left = e'.left + ks.length
  cache : env e'.t e'.state.kcache = obs e'.t
  keys : ∀ i < ks.length, ∃ e'', Enters env e e'' ∧ e''.t = e.t + i ∧
    ExaminesAt env mem h (keyStart off ks i) (obs (e.t + i)) e''
  some : saved ++ candidates obs e.t ks ≠ []
  parsed : Parsed e'.state mem h (saved ++ candidates obs e.t ks)
  offset : e'.state.cpu.pctx.readPktOffset = keyStart off ks (ks.length - 1)
  counted : Counted e.state.cpu.stats e'.state.cpu.stats 0 (ks.length - (candidates obs e.t ks).length) 0

lemma length_candidates_le (obs : ℕ → Cache) (t : ℕ) (ks : List (List Byte)) :
    (candidates obs t ks).length ≤ ks.length := by
  induction ks generalizing t with
  | nil => exact Nat.le_refl _
  | cons k ks ih =>
    have hrest := ih (t + 1)
    rw [candidates]
    split_ifs
    · rw [List.length_cons, List.length_cons]
      omega
    · rw [List.length_cons]
      omega

lemma missed_cons (obs : ℕ → Cache) (t : ℕ) (k : List Byte) (ks : List (List Byte)) :
    (k :: ks).length - (candidates obs t (k :: ks)).length =
      (if looksCached (obs t) k then 0 else 1) + (ks.length - (candidates obs (t + 1) ks).length) := by
  have hle := length_candidates_le obs (t + 1) ks
  rw [candidates]
  split_ifs
  · rw [List.length_cons, List.length_cons]
    omega
  · rw [List.length_cons]
    omega

lemma keysText_split (rest k : List Byte) (ks : List (List Byte)) :
    ∃ sep more, keysText rest (k :: ks) = k ++ sep :: more ∧ isKeyByte sep = false ∧ (sep = CR ↔ ks = []) ∧
      (ks ≠ [] → more = keysText rest ks) := by
  cases ks with
  | nil => exact ⟨CR, rest, rfl, rfl, by simp, fun h => absurd rfl h⟩
  | cons k' ks => exact ⟨SP, _, rfl, rfl, by simp, fun _ => rfl⟩

lemma keyStart_cons (off : ℕ) (k : List Byte) (ks : List (List Byte)) (i : ℕ) :
    keyStart off (k :: ks) (i + 1) = keyStart (off + (k.length + 1)) ks i := by
  simp only [keyStart, List.take_succ_cons, List.map_cons, List.sum_cons]
  omega

/-- What the program that examines a key does when it calls another one. -/
lemma tailCalls_from_key {env : Interference} {mem : List Byte} {h off : ℕ} {saved : List (List Byte)}
    {e next : Entry} (hprog : e.prog = .hashKeys) (hs : AtKey e.state mem h off saved)
    (hwrap : off + (bmcMaxKeyLength + 1) < 2 ^ 16) (hcall : TailCalls env e next) :
    e.left = next.left + 1 ∧ next.t = e.t + 1 ∧ next.state.kcache = env e.t e.state.kcache ∧
    Counted e.state.cpu.stats next.state.cpu.stats 0
      (if looksCached (env e.t e.state.kcache) (keyWord (mem.drop (h + headersLen + off))) then 0 else 1) 0 ∧
    ((next.prog = .preparePacket ∧ next.state.cpu.pctx.readPktOffset = off ∧
      EndsLine (mem.drop (h + headersLen + off)) ∧
        savedNext (env e.t e.state.kcache) saved (keyWord (mem.drop (h + headersLen + off))) ≠ [] ∧
        Parsed next.state mem h
        (savedNext (env e.t e.state.kcache) saved (keyWord (mem.drop (h + headersLen + off))))) ∨
      (next.prog = .hashKeys ∧ ¬EndsLine (mem.drop (h + headersLen + off)) ∧
        AtKey next.state mem h (off + ((keyWord (mem.drop (h + headersLen + off))).length + 1))
          (savedNext (env e.t e.state.kcache) saved (keyWord (mem.drop (h + headersLen + off)))))) := by
  obtain ⟨fallthrough, hmain, hleft, ht⟩ := hcall
  have hmain' : bmcHashKeysMain { e.state with kcache := env e.t e.state.kcache } =
      (.tailCall next.prog fallthrough, next.state) := by
    rw [← hmain, Entry.main, hprog]
    rfl
  obtain ⟨hstep, hcache⟩ := hashKeys_follows_step (hs.withCache (env e.t e.state.kcache)) hwrap
  have hcounts := @hashKeys_counts { e.state with kcache := env e.t e.state.kcache } next.prog fallthrough
    (by rw [hmain'])
  rw [hmain', (hs.withCache (env e.t e.state.kcache)).pkt_eq] at hstep hcounts
  rw [hmain'] at hcache
  refine ⟨hleft, ht, hcache, hcounts, ?_⟩
  generalize mem.drop (h + headersLen + off) = body at hstep ⊢
  rcases walkStep_cases (env e.t e.state.kcache) saved body with
    ⟨-, hw⟩ | ⟨-, -, hw⟩ | ⟨-, -, -, -, hw⟩ | ⟨-, -, hline, hsaved, hw⟩ | ⟨-, hmove, hw⟩
  all_goals rw [show walkStep _ saved body = _ from hw] at hstep
  · simp [FollowsStep] at hstep
  · simp [FollowsStep] at hstep
  · simp [FollowsStep] at hstep
  · obtain ⟨hexit, hparsed⟩ := hstep
    simp only [Exit.tailCall.injEq] at hexit
    refine Or.inl ⟨hexit.1, ?_, hline, hsaved, hparsed⟩
    have hoff := @hashKeys_prepare_offset { e.state with kcache := env e.t e.state.kcache } fallthrough
      (by rw [hmain', hexit.1])
    rw [hmain'] at hoff
    exact hoff.trans hs.offset
  · obtain ⟨hexit, hat, -⟩ := hstep
    simp only [Exit.tailCall.injEq] at hexit
    exact Or.inr ⟨hexit.1, hmove.2.1, hat⟩

lemma examined_of_enters {env : Interference} {obs : ℕ → Cache} (hobs : Observes env obs)
    {mem : List Byte} {h : ℕ} {rest : List Byte} {ks : List (List Byte)} (hne : ks ≠ [])
    (hks : ∀ k ∈ ks, RequestKey k) {off : ℕ} {saved : List (List Byte)}
    {e e' : Entry} (hprog : e.prog = .hashKeys) (hs : AtKey e.state mem h off saved)
    (hbody : mem.drop (h + headersLen + off) = keysText rest ks) (hc : env e.t e.state.kcache = obs e.t)
    (hwrap : off + (bmcMaxKeyLength + 1) * (e.left + 1) < 2 ^ 16) (henters : Enters env e e')
    (hprog' : e'.prog = .preparePacket) : Examined env obs mem h off saved ks e e' := by
  have hlim := limits
  induction ks generalizing off saved e with
  | nil => exact absurd rfl hne
  | cons k ks ih =>
    obtain ⟨⟨hpos, hle⟩, hbytes⟩ := hks k List.mem_cons_self
    obtain ⟨sep, more, hline, hsep, hlast, hrest⟩ := keysText_split rest k ks
    have hword : keyWord (k ++ sep :: more) = k := keyWord_append hle hbytes hsep
    have hfirst : ExaminesAt env mem h (keyStart off (k :: ks) 0) (obs (e.t + 0)) e :=
      ⟨hprog, hs.ctx, hs.offset, hc⟩
    rcases ReflTransGen.cases_head henters with heq | ⟨next, hcall, hafter⟩
    · rw [← heq, hprog] at hprog'
      simp at hprog'
    have hfits : off + (bmcMaxKeyLength + 1) < 2 ^ 16 :=
      lt_of_le_of_lt (Nat.add_le_add_left (Nat.le_mul_of_pos_right _ (Nat.succ_pos _)) _) hwrap
    obtain ⟨hleft, ht, hcache, hcounts, hnext⟩ := tailCalls_from_key hprog hs hfits hcall
    rw [hbody, hline, hword, hc] at hcounts
    rw [hbody, hline, hword, endsLine_append sep hword, hlast, hc] at hnext
    have hseen : env next.t next.state.kcache = obs next.t := by rw [hcache, hc, ht, hobs]
    rcases hnext with ⟨hcalled, hoff, rfl, hsome, hparsed⟩ | ⟨hcalled, hmore, hat⟩
    · -- the last key: nothing is called in between
      obtain rfl := enters_prepare_self hafter hcalled hprog'
      refine ⟨ht, hleft, hseen, ?_, ?_, ?_, hoff, ?_⟩
      · intro i hi
        obtain rfl : i = 0 := by simpa using hi
        exact ⟨e, .refl, rfl, hfirst⟩
      · rw [append_candidates_cons, candidates, List.append_nil]
        exact hsome
      · rw [append_candidates_cons, candidates, List.append_nil]
        exact hparsed
      · rw [missed_cons]
        exact hcounts
    · have hbody' : mem.drop (h + headersLen + (off + (k.length + 1))) = keysText rest ks := by
        rw [← Nat.add_assoc, ← List.drop_drop, hbody, hline, ← hrest hmore]
        simp
      have hwrap' : off + (k.length + 1) + (bmcMaxKeyLength + 1) * (next.left + 1) < 2 ^ 16 := by
        rw [hleft, Nat.mul_succ _ (next.left + 1)] at hwrap
        exact lt_of_le_of_lt (by omega) hwrap
      have hexamined := ih hmore (fun k' hk' => hks k' (List.mem_cons_of_mem _ hk')) hcalled hat hbody'
        hseen hwrap' hafter
      have hnum (i : ℕ) : next.t + i = e.t + (i + 1) := by omega
      refine ⟨?_, ?_, hexamined.cache, ?_, ?_, ?_, ?_, ?_⟩
      · rw [hexamined.t, hnum]
        rfl
      · rw [hleft, hexamined.left, List.length_cons]
        omega
      · intro i hi
        cases i with
        | zero => exact ⟨e, .refl, rfl, hfirst⟩
        | succ i =>
          obtain ⟨e'', hin, ht'', hat''⟩ := hexamined.keys i (Nat.lt_of_succ_lt_succ hi)
          rw [hnum, ← keyStart_cons] at hat''
          exact ⟨e'', .head hcall hin, ht''.trans (hnum i), hat''⟩
      · rw [append_candidates_cons, ← ht]
        exact hexamined.some
      · rw [append_candidates_cons, ← ht]
        exact hexamined.parsed
      · have hlen : 0 < ks.length := List.length_pos_iff.mpr hmore
        rw [hexamined.offset, ← keyStart_cons, Nat.sub_add_cancel hlen]
        rfl
      · rw [missed_cons, ← ht]
        exact hcounts.trans hexamined.counted

/-- A request, as it is received. -/
def Entry.first (headroom frame : List Byte) (cpu : PerCpu) (c : Cache) : Entry :=
  ⟨maxTailCallCnt, 0, .rxFilter, ⟨received headroom frame, cpu, c⟩⟩

section Request

variable {hdr : List Byte} (hhdr : IsUdpHeader hdr) (spaces : ℕ) {ks : List (List Byte)} (hne : ks ≠ [])
  (hks : ∀ k ∈ ks, RequestKey k) (env : Interference) (headroom : List Byte) (cpu : PerCpu)
  (c : Cache) {e : Entry}

include hhdr hne hks

lemma examined_request (rest : List Byte) (hprog : e.prog = .preparePacket)
    (hin : Enters env (.first headroom (hdr ++ requestText (spaces + 1) ks rest) cpu c) e) :
    ∃ next, TailCalls env (.first headroom (hdr ++ requestText (spaces + 1) ks rest) cpu c) next ∧
    next.t = 1 ∧
      Counted cpu.stats next.state.cpu.stats 0 0 0 ∧
      Examined env (seen env c) (headroom ++ (hdr ++ requestText (spaces + 1) ks rest)) headroom.length
      (4 + spaces) [] ks
        next e := by
  have hsz := sizes
  have hlim := limits
  generalize hframe : hdr ++ requestText (spaces + 1) ks rest = frame at hin ⊢
  have hget : isGetFrame frame = true := hframe ▸ isGetFrame_requestText hhdr
  have hoffset : keysOffset frame = 4 + min (bmcMaxPacketLength - 4) spaces :=
    hframe ▸ keysOffset_requestText hhdr.length hks
  rcases ReflTransGen.cases_head hin with heq | ⟨next, hcall, hafter⟩
  · rw [← heq] at hprog
    simp [Entry.first] at hprog
  -- the filter calls the parser: the packet start could be moved to the first key
  obtain ⟨fallthrough, hmain, hleft, ht⟩ := id hcall
  have hrx : (Entry.first headroom frame cpu c).main env =
      rxGet ⟨received headroom frame, cpu, env 0 c⟩ (frame.drop headersLen) := by
    have h := @rxFilter_get ⟨received headroom frame, cpu, env 0 c⟩ (by rw [received_pkt]; exact hget)
    rwa [received_pkt] at h
  have hstart : keysOffset frame < bmcMaxPacketLength ∧
      headersLen + keysOffset frame + ethHlen ≤ frame.length := by
    by_contra hno
    obtain ⟨s', hpass, -⟩ := @rxGet_passed headroom frame cpu (env 0 c) (by omega)
    rw [hrx, hpass] at hmain
    simp at hmain
  rw [hrx, rxGet_started hstart.1 hstart.2, Prod.mk.injEq, Exit.tailCall.injEq] at hmain
  obtain ⟨⟨hcalled, -⟩, hstate⟩ := hmain
  have hkeys : keysOffset frame = 4 + spaces := by omega
  have hat := @startedCpu_atKey headroom frame cpu (env 0 c) hstart.1 hstart.2
  rw [hstate, hkeys] at hat
  have hbody : (headroom ++ frame).drop (headroom.length + headersLen + (4 + spaces)) = keysText rest ks := by
    rw [Nat.add_assoc, List.drop_length_add_append, ← hframe, drop_requestText hhdr.length]
  have hnum : next.t = 1 := ht
  have hcache : env next.t next.state.kcache = seen env c next.t := by
    rw [← hstate, hnum]
    rfl
  have hwrap : 4 + spaces + (bmcMaxKeyLength + 1) * (next.left + 1) < 2 ^ 16 := by
    rw [← hleft, ← hkeys]
    have hmax : bmcMaxPacketLength + (bmcMaxKeyLength + 1) * maxTailCallCnt ≤ 2 ^ 16 := by decide
    exact lt_of_lt_of_le (Nat.add_lt_add_right hstart.1 _) hmax
  refine ⟨next, hcall, hnum, ?_, ?_⟩
  · rw [← hstate]
    exact ⟨(UInt32.add_zero _).symm, (UInt32.add_zero _).symm, (UInt32.add_zero _).symm⟩
  · exact examined_of_enters (observes_seen env c) hne hks hcalled.symm hat hbody hcache hwrap hafter hprog

/-- When `bmc_prepare_packet_main` is entered for a request, all its keys have been examined in
their places, the packet is as received, and the keys that looked cached are saved in order. -/
theorem parser_saves_candidates (hprog : e.prog = .preparePacket)
    (hin : Enters env (.first headroom (hdr ++ requestLine (spaces + 1) ks) cpu c) e) :
    (∀ i < ks.length, ∃ e', Enters env (.first headroom (hdr ++ requestLine (spaces + 1) ks) cpu c) e' ∧
      e'.t = i + 1 ∧ ExaminesAt env (headroom ++ (hdr ++ requestLine (spaces + 1) ks)) headroom.length
        (keyStart (4 + spaces) ks i) (seen env c (i + 1)) e') ∧
    e.t = ks.length + 1 ∧ e.state.ctx = received headroom (hdr ++ requestLine (spaces + 1) ks) ∧
    e.state.cpu.pctx.readPktOffset = keyStart (4 + spaces) ks (ks.length - 1) ∧
    Saved e.state.cpu (candidates (seen env c) 1 ks) := by
  rw [requestLine_eq] at hin ⊢
  obtain ⟨next, hcall, hnum, -, hexamined⟩ :=
    examined_request hhdr spaces hne hks env headroom cpu c [LF] hprog hin
  refine ⟨?_, ?_, hexamined.parsed.ctx, hexamined.offset, ?_⟩
  · intro i hi
    obtain ⟨e', hin', ht', hat'⟩ := hexamined.keys i hi
    rw [hnum, Nat.add_comm 1 i] at ht' hat'
    exact ⟨e', .head hcall hin', ht', hat'⟩
  · rw [hexamined.t, hnum, Nat.add_comm]
  · rw [← hnum]
    exact hexamined.parsed.saved

end Request

lemma tailCalls_of_exit {env : Interference} {e : Entry} {n : ℕ} {prog : XdpProg} {fallthrough : XdpAction}
    (hexit : (e.main env).1 = .tailCall prog fallthrough) (hleft : e.left = n + 1) :
    TailCalls env e ⟨n, e.t + 1, prog, (e.main env).2⟩ :=
  ⟨fallthrough, Prod.ext hexit rfl, hleft, rfl⟩

def sampleEntry : Entry :=
  .first (List.replicate 256 0) (sampleHeaders true ++ requestLine 1 [cachedItem.key]) PerCpu.zeroed
    cachedItemCache

/-- The program entered after `n` tail calls. -/
def follow (env : Interference) : ℕ → Entry → Option Entry
  | 0, e => some e
  | n + 1, e =>
    match e.left, e.main env with
    | left + 1, (.tailCall prog _, state) => follow env n ⟨left, e.t + 1, prog, state⟩
    | _, _ => none

lemma enters_of_follow {env : Interference} {n : ℕ} {e e' : Entry} (h : follow env n e = some e') :
    Enters env e e' := by
  induction n generalizing e with
  | zero =>
    obtain rfl := Option.some.inj h
    exact .refl
  | succ n ih =>
    rw [follow] at h
    split at h
    · next left prog fallthrough state hleft hmain => exact .head ⟨fallthrough, hmain, hleft, rfl⟩ (ih h)
    · simp at h

def sampleKeys : List (List Byte) :=
  [ascii "kkkkkkkkkkkk".toList, ascii "mmmmmmmmmmmm".toList, ascii "nnnnnnnnnnnn".toList]

lemma sampleKeys_requestKey : ∀ k ∈ sampleKeys, RequestKey k := by
  unfold RequestKey
  decide +kernel

/-- A request for three keys, of which the cache has the first and the last. -/
def sampleKeysEntry : Entry :=
  .first (List.replicate 256 0) (sampleHeaders true ++ requestLine 1 sampleKeys) PerCpu.zeroed twoKeysCache

lemma sampleKeys_entered :
    ∃ e, follow Interference.quiet 4 sampleKeysEntry = some e ∧ e.prog = .preparePacket :=
  Option.map_eq_some_iff.mp (by decide +kernel)

lemma sampleKeys_candidates : candidates (seen Interference.quiet twoKeysCache) 1 sampleKeys =
    [ascii "kkkkkkkkkkkk".toList, ascii "nnnnnnnnnnnn".toList] := by
  decide +kernel

theorem sampleKeys_saved :
    ∃ e, e.prog = .preparePacket ∧ Enters Interference.quiet sampleKeysEntry e ∧ e.t = 4 ∧
    Saved e.state.cpu [ascii "kkkkkkkkkkkk".toList, ascii "nnnnnnnnnnnn".toList] := by
  obtain ⟨e, hfollow, hprog⟩ := sampleKeys_entered
  have hin := enters_of_follow hfollow
  obtain ⟨-, ht, -, -, hsaved⟩ :=
    parser_saves_candidates ⟨by decide, by decide, by decide⟩ 0 (by simp [sampleKeys])
    sampleKeys_requestKey Interference.quiet (List.replicate 256 0) PerCpu.zeroed twoKeysCache hprog hin
  exact ⟨e, hprog, hin, ht, sampleKeys_candidates ▸ hsaved⟩

end BmcCache.Proofs
