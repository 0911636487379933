import BmcCache.Proofs.SavedKeys

/-!
# The counters of hits and misses

`bmc_hash_keys_main` counts a miss for every key that does not look cached, and
`bmc_write_reply_main` counts a hit or a miss for every saved key, from a flag that is set before
the entry has been looked at. This file adds up what a whole request counts and compares it with
the blocks that are copied.
-/

namespace BmcCache.Proofs

open Buffer Relation

/-! ### One program of the reply phase -/

lemma countHit_counts (stats : BmcStats) (cacheHit : Bool) :
    Counted stats (countHit stats cacheHit) (if cacheHit then 1 else 0) (if cacheHit then 0 else 1) 0 := by
  cases cacheHit with
  | false => exact ⟨(UInt32.add_zero _).symm, rfl, (UInt32.add_zero _).symm⟩
  | true => exact ⟨rfl, (UInt32.add_zero _).symm, (UInt32.add_zero _).symm⟩

/-- The end of the program counts the saved keys as mispredicted when nothing has been written. -/
def MissesAll (s : XdpState) (written : ℕ) : Prop :=
  s.cpu.pctx.currentKey = s.cpu.pctx.keyCount ∧ s.cpu.pctx.writePktOffset = 0 ∧ written = 0

lemma replyNext_counts {s : XdpState} {written mispredicted : ℕ}
    (hall : MissesAll s written → mispredicted = s.cpu.pctx.keyCount)
    (hnone : ¬MissesAll s written → mispredicted = 0) :
    Counted s.cpu.stats (replyNext s written).2.cpu.stats 0 0 mispredicted := by
  simp only [replyNext]
  by_cases hlast : s.cpu.pctx.currentKey = s.cpu.pctx.keyCount
  · by_cases hsome : s.cpu.pctx.writePktOffset > 0 ∨ written > 0
    · have hno : ¬MissesAll s written := by
        rintro ⟨-, hoff, hwritten⟩
        omega
      rw [if_pos ⟨hlast, hsome⟩, hnone hno, finishReply_cpu]
      exact Counted.of_eq rfl
    · have hno : ¬(s.cpu.pctx.currentKey = s.cpu.pctx.keyCount ∧
          (s.cpu.pctx.writePktOffset > 0 ∨ written > 0)) := fun h => hsome h.2
      rw [if_neg hno, if_pos hlast, hall ⟨hlast, by omega, by omega⟩]
      exact ⟨(UInt32.add_zero _).symm, (UInt32.add_zero _).symm, rfl⟩
  · have hno : ¬(s.cpu.pctx.currentKey = s.cpu.pctx.keyCount ∧
        (s.cpu.pctx.writePktOffset > 0 ∨ written > 0)) := fun h => hlast h.1
    rw [if_neg hno, if_neg hlast, hnone fun h => hlast h.1]
    split_ifs
    · split
      · exact Counted.of_eq rfl
      · exact Counted.of_eq rfl
    · exact Counted.of_eq rfl

section OneBlock

variable {s : XdpState} {pre hdr rest out : List Byte} {done todo : List (List Byte)} {k : List Byte}

lemma writeReply_counts (hs : AtWrite s pre hdr rest out done (k :: todo)) :
    Counted s.cpu.stats (bmcWriteReplyMain s).2.cpu.stats (if countsHit s.kcache k then 1 else 0)
      (if countsHit s.kcache k then 0 else 1)
      (if todo = [] ∧ out ++ cachedBlock s.kcache k = [] then done.length + 1 else 0) := by
  have hsz := sizes
  have hroom := hs.room
  obtain ⟨hcount, -⟩ := hs.keyCount_eq
  have hpkt := hs.pkt_length_eq
  rw [writeReply_eq hs]
  generalize cachedBlock s.kcache k = b
  have hiff : MissesAll (afterBlock s (done.length + 1) (b.take s.ctx.pkt.length) (countsHit s.kcache k))
      (min b.length s.ctx.pkt.length) ↔ todo = [] ∧ out ++ b = [] := by
    simp only [MissesAll, afterBlock]
    rw [hcount, hs.writePktOffset, List.append_eq_nil_iff, ← List.length_eq_zero_iff,
      ← List.length_eq_zero_iff, ← List.length_eq_zero_iff]
    omega
  have hnext : Counted (countHit s.cpu.stats (countsHit s.kcache k)) _ 0 0
      (if todo = [] ∧ out ++ b = [] then done.length + 1 else 0) :=
    @replyNext_counts (afterBlock s (done.length + 1) (b.take s.ctx.pkt.length) (countsHit s.kcache k))
      (min b.length s.ctx.pkt.length) _
      (fun h => by
        have hlast := hiff.mp h
        rw [if_pos hlast]
        simp only [afterBlock]
        rw [hcount, hlast.1, List.length_nil])
      (fun h => if_neg (mt hiff.mpr h))
  have hsum := (countHit_counts s.cpu.stats (countsHit s.kcache k)).trans hnext
  simp only [Nat.add_zero, Nat.zero_add] at hsum
  exact hsum

end OneBlock

/-! ### All saved keys -/

/-- The number of keys with the property, when the first one is looked at by program number `t`. -/
def countKeys (p : Cache → List Byte → Bool) (obs : ℕ → Cache) : ℕ → List (List Byte) → ℕ
  | _, [] => 0
  | t, k :: ks => (if p (obs t) k then 1 else 0) + countKeys p obs (t + 1) ks

def countsMiss (c : Cache) (k : List Byte) : Bool := !countsHit c k

def copiesBlock (c : Cache) (k : List Byte) : Bool := cachedBlock c k != []

/-- Every key has the property when it is looked at. -/
def EachKey (P : Cache → List Byte → Prop) (obs : ℕ → Cache) (t : ℕ) (ks : List (List Byte)) : Prop :=
  ∀ i k, ks[i]? = some k → P (obs (t + i)) k

section Count

variable {obs : ℕ → Cache} {t : ℕ} {ks : List (List Byte)} {p q : Cache → List Byte → Bool}

lemma eachKey_cons {P : Cache → List Byte → Prop} {k : List Byte} :
    EachKey P obs t (k :: ks) ↔ P (obs t) k ∧ EachKey P obs (t + 1) ks := by
  constructor
  · intro h
    refine ⟨h 0 k rfl, ?_⟩
    intro i k' hi
    have hnext := h (i + 1) k' hi
    rwa [show t + (i + 1) = t + 1 + i by omega] at hnext
  · rintro ⟨hfirst, hrest⟩ i k' hi
    cases i with
    | zero =>
      obtain rfl : k = k' := by simpa using hi
      exact hfirst
    | succ i =>
      rw [show t + (i + 1) = t + 1 + i by omega]
      exact hrest i k' hi

lemma countKeys_le_length (p : Cache → List Byte → Bool) (obs : ℕ → Cache) (t : ℕ) (ks : List (List Byte)) :
    countKeys p obs t ks ≤ ks.length := by
  induction ks generalizing t with
  | nil => exact Nat.le_refl _
  | cons k ks ih =>
    have hrest := ih (t + 1)
    rw [countKeys, List.length_cons]
    split_ifs <;> omega

lemma countKeys_not (p : Cache → List Byte → Bool) (obs : ℕ → Cache) (t : ℕ) (ks : List (List Byte)) :
    countKeys (fun c k => !p c k) obs t ks = ks.length - countKeys p obs t ks := by
  induction ks generalizing t with
  | nil => rfl
  | cons k ks ih =>
    have hle := countKeys_le_length p obs (t + 1) ks
    rw [countKeys, countKeys, ih, List.length_cons]
    cases p (obs t) k
    · simp only [Bool.not_false, if_true, Bool.false_eq_true, if_false]
      omega
    · simp only [Bool.not_true, Bool.false_eq_true, if_false, if_true]
      omega

lemma countKeys_mono (h : ∀ c k, q c k = true → p c k = true) :
    countKeys q obs t ks ≤ countKeys p obs t ks := by
  induction ks generalizing t with
  | nil => exact Nat.le_refl _
  | cons k ks ih =>
    rw [countKeys, countKeys]
    refine Nat.add_le_add ?_ ih
    split_ifs with hq hp
    · exact Nat.le_refl _
    · exact absurd (h _ _ hq) hp
    · exact Nat.zero_le _
    · exact Nat.le_refl _

/-- Two counts agree when one of the properties implies the other and no key tells them apart. -/
lemma countKeys_eq_iff (h : ∀ c k, q c k = true → p c k = true) :
    countKeys p obs t ks = countKeys q obs t ks ↔
    EachKey (fun c k => p c k = true → q c k = true) obs t ks := by
  induction ks generalizing t with
  | nil => simp [countKeys, EachKey]
  | cons k ks ih =>
    have hmono := @countKeys_mono obs (t + 1) ks p q h
    rw [eachKey_cons, ← ih, countKeys, countKeys]
    by_cases hq : q (obs t) k = true
    · simp only [hq, h _ _ hq, if_true, imp_self, true_and]
      omega
    · by_cases hp : p (obs t) k = true
      · simp only [hq, hp, if_true, if_false, Bool.false_eq_true, true_imp_iff, false_and, iff_false]
        omega
      · simp only [hq, hp, if_false, Bool.false_eq_true, false_imp_iff, true_and, Nat.zero_add]

lemma countKeys_eq_length_iff : countKeys q obs t ks = ks.length ↔
    EachKey (fun c k => q c k = true) obs t ks := by
  have hall : countKeys (fun _ _ => true) obs t ks = ks.length := by
    induction ks generalizing t with
    | nil => rfl
    | cons k ks ih =>
      rw [countKeys, ih, List.length_cons, if_pos rfl, Nat.add_comm]
  have hiff := @countKeys_eq_iff obs t ks (fun _ _ => true) q (fun _ _ _ => rfl)
  rw [hall] at hiff
  rw [eq_comm, hiff]
  simp only [true_imp_iff]

lemma countKeys_eq_zero_iff : countKeys q obs t ks = 0 ↔ EachKey (fun c k => q c k = false) obs t ks := by
  have hnone : countKeys (fun _ _ => false) obs t ks = 0 := by
    induction ks generalizing t with
    | nil => rfl
    | cons k ks ih => rw [countKeys, ih, if_neg Bool.false_ne_true]
  have hiff := @countKeys_eq_iff obs t ks q (fun _ _ => false) (fun _ _ h => absurd h Bool.false_ne_true)
  rw [hnone] at hiff
  rw [hiff]
  simp only [Bool.false_eq_true, imp_false, Bool.not_eq_true]

lemma blocks_eq_nil_iff : blocks obs t ks = [] ↔ countKeys copiesBlock obs t ks = 0 := by
  induction ks generalizing t with
  | nil => simp [blocks, countKeys]
  | cons k ks ih =>
    rw [blocks, countKeys, List.append_eq_nil_iff, ih]
    by_cases hb : cachedBlock (obs t) k = []
    · simp [copiesBlock, hb]
    · simp [copiesBlock, hb]

end Count

lemma copiesBlock_iff (c : Cache) (k : List Byte) :
    copiesBlock c k = true ↔ looksCached c k = true ∧ keyMatches c k = true ∧
    (c.at (fnv1aHash32 k)).block ≠ [] := by
  simp only [copiesBlock, looksCached, keyMatches, cachedBlock, bne_iff_ne, ne_eq,
    Bool.and_eq_true, beq_iff_eq]
  split_ifs with hhit
  · simp [hhit]
  · simp only [not_true, false_iff]
    rintro ⟨⟨hvalid, hhash⟩, hkey, -⟩
    exact hhit ⟨hvalid, hhash, hkey⟩

lemma countsHit_of_copiesBlock (c : Cache) (k : List Byte) (h : copiesBlock c k = true) :
    countsHit c k = true := by
  rw [countsHit, ((copiesBlock_iff c k).mp h).2.1, Bool.or_true]

lemma reply_counts {env : Interference} {obs : ℕ → Cache} (hobs : Observes env obs)
    {pre hdr rest out : List Byte} {done todo : List (List Byte)} {e e' : Entry}
    (hprog : e.prog = .writeReply) (hs : AtWrite e.state pre hdr rest out done todo) (hne : todo ≠ [])
    (hc : env e.t e.state.kcache = obs e.t) (henters : Enters env e e')
    (hexit : (e'.main env).1 = .ret .tx ∨ (e'.main env).1 = .ret .pass) :
    Counted e.state.cpu.stats (e'.main env).2.cpu.stats (countKeys countsHit obs e.t todo)
      (countKeys countsMiss obs e.t todo)
      (if out ++ blocks obs e.t todo = [] then (done ++ todo).length else 0) := by
  induction todo generalizing e out done with
  | nil => exact absurd rfl hne
  | cons k todo ih =>
    have hmain : e.main env = bmcWriteReplyMain { e.state with kcache := env e.t e.state.kcache } := by
      rw [Entry.main, hprog]
      rfl
    have hs' := hs.withCache (env e.t e.state.kcache)
    obtain ⟨hstep, hcache⟩ := writeReply_follows_step hs'
    have hcounts := writeReply_counts hs'
    rw [← hmain] at hstep hcounts hcache
    simp only [hc] at hstep hcounts hcache
    have hmiss : (if countsHit (obs e.t) k then 0 else 1) = if countsMiss (obs e.t) k then 1 else 0 := by
      cases hhit : countsHit (obs e.t) k <;> simp [countsMiss, hhit]
    rw [hmiss] at hcounts
    cases todo with
    | nil =>
      -- the last key: no program is called any more
      have hret : ∃ action, (e.main env).1 = .ret action := by
        cases hr : replyStep (obs e.t) rest.length out k true with
        | discard =>
          rw [List.isEmpty_nil, hr] at hstep
          exact ⟨_, hstep⟩
        | noHit =>
          rw [List.isEmpty_nil, hr] at hstep
          exact ⟨_, hstep.1⟩
        | send out' =>
          rw [List.isEmpty_nil, hr] at hstep
          exact ⟨_, hstep.1⟩
        | next out' => exact absurd (replyStep_next_todo hr) (by simp)
      obtain ⟨action, hret⟩ := hret
      rcases ReflTransGen.cases_head henters with rfl | ⟨next, hcall, -⟩
      · simpa [countKeys, blocks] using hcounts
      · exact absurd hcall (not_tailCalls_of_ret hret)
    | cons k' todo =>
      have hmore : ¬(k' :: todo = [] ∧ out ++ cachedBlock (obs e.t) k = []) :=
        fun h => absurd h.1 (List.cons_ne_nil _ _)
      rw [if_neg hmore] at hcounts
      rcases ReflTransGen.cases_head henters with rfl | ⟨next, hcall, hafter⟩
      · -- a program before the last key does not return one of these verdicts
        exfalso
        rw [replyStep] at hstep
        simp only [List.isEmpty_cons, Bool.false_eq_true, if_false] at hstep
        split_ifs at hstep
        · rw [hstep.1] at hexit
          simp at hexit
        · rw [show (e.main env).1 = .ret .drop from hstep] at hexit
          simp at hexit
      · obtain ⟨fallthrough, hcalled, hleft, ht⟩ := hcall
        rw [hcalled, replyStep] at hstep
        simp only [List.isEmpty_cons, Bool.false_eq_true, if_false] at hstep
        rw [hcalled] at hcounts hcache
        split_ifs at hstep with hfits
        · obtain ⟨hexit', hat⟩ := hstep
          simp only [Exit.tailCall.injEq] at hexit'
          have hseen : env next.t next.state.kcache = obs next.t := by
            rw [show next.state.kcache = obs e.t from hcache, ht, hobs]
          have hrest := ih hexit'.1 hat (List.cons_ne_nil _ _) hseen hafter
          rw [ht] at hrest
          have hsum := hcounts.trans hrest
          rw [Nat.zero_add, List.append_assoc, List.append_assoc] at hsum
          exact hsum
        · simp [FollowsReplyStep] at hstep

/-! ### The whole request -/

lemma hashKeys_exit (s : XdpState) :
    (∃ action, (bmcHashKeysMain s).1 = .ret action) ∨ (bmcHashKeysMain s).1 = .tailCall .hashKeys .pass ∨
      (bmcHashKeysMain s).1 = .tailCall .preparePacket .pass := by
  simp only [bmcHashKeysMain, nextKey]
  repeat' split
  all_goals first | exact Or.inl ⟨_, rfl⟩ | exact Or.inr (Or.inl rfl) | exact Or.inr (Or.inr rfl)

lemma rxFilter_exit (s : XdpState) :
    (∃ action, (bmcRxFilterMain s).1 = .ret action) ∨ (bmcRxFilterMain s).1 = .tailCall .hashKeys .pass ∨
      (bmcRxFilterMain s).1 = .tailCall .invalidateCache .pass := by
  simp only [bmcRxFilterMain, rxGet]
  repeat' split
  all_goals first | exact Or.inl ⟨_, rfl⟩ | exact Or.inr (Or.inl rfl) | exact Or.inr (Or.inr rfl)

/-- Only the programs of the reply phase call `bmc_write_reply_main`. -/
lemma caller_of_writeReply {env : Interference} {e e' : Entry} (h : TailCalls env e e')
    (hprog : e'.prog = .writeReply) :
    e.prog = .preparePacket ∨ e.prog = .writeReply := by
  obtain ⟨fallthrough, hmain, -⟩ := h
  rw [hprog] at hmain
  have hexit : (e.main env).1 = .tailCall .writeReply fallthrough := by rw [hmain]
  rw [Entry.main] at hexit
  cases hp : e.prog with
  | rxFilter =>
    rw [hp] at hexit
    rcases rxFilter_exit { e.state with kcache := env e.t e.state.kcache } with ⟨action, h⟩ | h | h
    all_goals exact absurd (h.symm.trans hexit) (by simp)
  | hashKeys =>
    rw [hp] at hexit
    rcases hashKeys_exit { e.state with kcache := env e.t e.state.kcache } with ⟨action, h⟩ | h | h
    all_goals exact absurd (h.symm.trans hexit) (by simp)
  | preparePacket => exact Or.inl rfl
  | writeReply => exact Or.inr rfl
  | invalidateCache =>
    rw [hp] at hexit
    obtain ⟨s', hret, -⟩ := invalidate_ctx { e.state with kcache := env e.t e.state.kcache }
    have h : (XdpProg.invalidateCache.main { e.state with kcache := env e.t e.state.kcache }).1 =
        .ret .pass := by
      rw [XdpProg.main, hret]
    exact absurd (h.symm.trans hexit) (by simp)

/-- A chain that comes to `bmc_write_reply_main` has passed `bmc_prepare_packet_main`. -/
lemma exists_prepare {env : Interference} {e e' : Entry} (h : Enters env e e') (hprog : e.prog = .rxFilter)
    (hprog' : e'.prog = .writeReply) :
    ∃ e₁ e₂, Enters env e e₁ ∧ e₁.prog = .preparePacket ∧ TailCalls env e₁ e₂ ∧ e₂.prog = .writeReply ∧
      Enters env e₂ e' := by
  induction h with
  | refl =>
    rw [hprog] at hprog'
    simp at hprog'
  | tail hfirst hcall ih =>
    rename_i mid last
    rcases caller_of_writeReply hcall hprog' with hmid | hmid
    · exact ⟨mid, last, hfirst, hmid, hcall, hprog', .refl⟩
    · obtain ⟨e₁, e₂, hin, hprep, hnext, hwrite, hrest⟩ := ih hmid
      exact ⟨e₁, e₂, hin, hprep, hnext, hwrite, hrest.tail hcall⟩

lemma preparePacket_cpu (s : XdpState) : (bmcPreparePacketMain s).2.cpu = s.cpu := by
  simp only [bmcPreparePacketMain]
  repeat' split
  all_goals rfl

section Request

variable {hdr : List Byte} (hhdr : IsUdpHeader hdr) (spaces : ℕ) {ks : List (List Byte)} (hne : ks ≠ [])
  (hks : ∀ k ∈ ks, RequestKey k) (env : Interference) (headroom : List Byte) (cpu : PerCpu)
  (c : Cache) {e : Entry}

include hhdr hne hks

/-- What a request counts that ends in the reply phase with `XDP_TX` or `XDP_PASS`. -/
lemma request_counts (rest : List Byte) (hprog : e.prog = .writeReply)
    (hin : Enters env (.first headroom (hdr ++ requestText (spaces + 1) ks rest) cpu c) e)
    (hexit : (e.main env).1 = .ret .tx ∨ (e.main env).1 = .ret .pass) :
    Counted cpu.stats (runXdp env headroom (hdr ++ requestText (spaces + 1) ks rest) cpu c).2.cpu.stats
      (countKeys countsHit (seen env c) (ks.length + 2) (candidates (seen env c) 1 ks))
      (ks.length - (candidates (seen env c) 1 ks).length +
        countKeys countsMiss (seen env c) (ks.length + 2) (candidates (seen env c) 1 ks))
      (if blocks (seen env c) (ks.length + 2) (candidates (seen env c) 1 ks) = [] then
        (candidates (seen env c) 1 ks).length else 0) ∧
      candidates (seen env c) 1 ks ≠ [] ∧ ks.length ≤ maxTailCallCnt := by
  have hobs := observes_seen env c
  obtain ⟨e₁, e₂, hin₁, hprep, hcall, hwrite, hrest⟩ := exists_prepare hin rfl hprog
  obtain ⟨next, ⟨-, -, hleft, -⟩, hnum, hstart, hexamined⟩ :=
    examined_request hhdr spaces hne hks env headroom cpu c
    rest hprep hin₁
  have ht₁ : e₁.t = ks.length + 1 := by rw [hexamined.t, hnum, Nat.add_comm]
  have hparsed := hexamined.parsed
  have hsome := hexamined.some
  have hmissed := hexamined.counted
  rw [hnum, List.nil_append] at hparsed hsome
  rw [hnum] at hmissed
  obtain ⟨fallthrough, hmain, -, ht₂⟩ := hcall
  have hmain' : bmcPreparePacketMain { e₁.state with kcache := env e₁.t e₁.state.kcache } =
      (.tailCall e₂.prog fallthrough, e₂.state) := by
    rw [← hmain, Entry.main, hprep]
    rfl
  have hparsed' : Parsed { e₁.state with kcache := env e₁.t e₁.state.kcache }
      (headroom ++ (hdr ++ requestText (spaces + 1) ks rest)) headroom.length
      (candidates (seen env c) 1 ks) :=
    ⟨hparsed.ctx, hparsed.saved, hparsed.currentKey, hparsed.writePktOffset⟩
  have hroom : adjustHeadLen ≤ headroom.length := by
    by_contra hshort
    have hret := prepare_noHeadroom hparsed' (Nat.lt_of_not_le hshort)
    rw [hmain'] at hret
    simp at hret
  have hlen : headersLen + 2 ≤ (hdr ++ requestText (spaces + 1) ks rest).length := by
    rw [List.length_append, hhdr.length, requestText, List.length_append]
    simp only [ascii, List.length_map, List.length_cons, List.length_nil]
    omega
  obtain ⟨s', hspec, hcache, hat⟩ := prepare_spec hparsed' hroom hlen
  have hcpu := preparePacket_cpu { e₁.state with kcache := env e₁.t e₁.state.kcache }
  rw [hmain'] at hcpu
  rw [hmain', Prod.mk.injEq] at hspec
  obtain ⟨-, rfl⟩ := hspec
  have hseen : env e₂.t e₂.state.kcache = seen env c e₂.t := by
    rw [hcache, ht₂, hobs]
    exact congrArg (env (e₁.t + 1)) hexamined.cache
  have hreply := reply_counts hobs hwrite hat hsome hseen hrest hexit
  have hrun : (runXdp env headroom (hdr ++ requestText (spaces + 1) ks rest) cpu c).2 = (e.main env).2 := by
    have hchain := runChain_of_enters hin
    rw [runXdp]
    rw [show runChain env maxTailCallCnt 0 .rxFilter
      ⟨received headroom (hdr ++ requestText (spaces + 1) ks rest), cpu, c⟩ = _ from hchain]
    rcases hexit with h | h
    · rw [runChain_ret (show e.prog.main { e.state with kcache := env e.t e.state.kcache } =
        (.ret .tx, (e.main env).2)
        from Prod.ext h rfl)]
    · rw [runChain_ret (show e.prog.main { e.state with kcache := env e.t e.state.kcache } =
        (.ret .pass, (e.main env).2)
        from Prod.ext h rfl)]
  have hall := (hstart.trans hmissed).trans
      (show Counted e₁.state.cpu.stats (e.main env).2.cpu.stats _ _ _ from by
    rw [show e₁.state.cpu.stats = e₂.state.cpu.stats from by rw [hcpu]]
    exact hreply)
  rw [ht₂, ht₁] at hall
  simp only [Nat.zero_add, List.nil_append] at hall
  have hfew : ks.length ≤ maxTailCallCnt := by
    have hnext := hexamined.left
    rw [show (Entry.first headroom (hdr ++ requestText (spaces + 1) ks rest) cpu c).left = maxTailCallCnt
      from rfl] at hleft
    omega
  rw [hrun]
  exact ⟨hall, hsome, hfew⟩

/-- Every saved key still looks cached when its turn comes, and either all blocks are copied or no
key is the one in its entry. -/
def Predicted (obs : ℕ → Cache) (t : ℕ) (ks : List (List Byte)) : Prop :=
  EachKey (fun c k => looksCached c k = true) obs t ks ∧
    (EachKey (fun c k => copiesBlock c k = true) obs t ks ∨
      EachKey (fun c k => keyMatches c k = false) obs t ks)

omit hhdr hne hks in
lemma predicted_iff {obs : ℕ → Cache} {t : ℕ} {saved : List (List Byte)} (hsome : saved ≠ []) :
    (countKeys countsHit obs t saved = countKeys copiesBlock obs t saved ∧
      (if blocks obs t saved = [] then saved.length else 0) =
      saved.length - countKeys copiesBlock obs t saved) ↔
    Predicted obs t saved := by
  have hpos : 0 < saved.length := List.length_pos_iff.mpr hsome
  have hle := countKeys_le_length copiesBlock obs t saved
  rw [countKeys_eq_iff countsHit_of_copiesBlock]
  constructor
  · rintro ⟨hhits, hmis⟩
    have hlooks : EachKey (fun c k => looksCached c k = true) obs t saved := by
      intro i k hi
      by_contra hno
      have hhit : countsHit (obs (t + i)) k = true := by
        rw [countsHit, eq_false_of_ne_true hno, Bool.not_false, Bool.true_or]
      exact hno ((copiesBlock_iff _ _).mp (hhits i k hi hhit)).1
    refine ⟨hlooks, ?_⟩
    by_cases hzero : countKeys copiesBlock obs t saved = 0
    · right
      intro i k hi
      by_contra hmatch
      have hhit : countsHit (obs (t + i)) k = true := by
        rw [countsHit, eq_true_of_ne_false hmatch, Bool.or_true]
      have hno : copiesBlock (obs (t + i)) k = false := countKeys_eq_zero_iff.mp hzero i k hi
      rw [hhits i k hi hhit] at hno
      exact absurd hno.symm Bool.false_ne_true
    · left
      rw [if_neg (mt blocks_eq_nil_iff.mp hzero)] at hmis
      exact countKeys_eq_length_iff.mp (by omega)
  · rintro ⟨hlooks, hall | hnone⟩
    · have hlen := countKeys_eq_length_iff.mpr hall
      have hsent : ¬blocks obs t saved = [] := fun h => absurd (blocks_eq_nil_iff.mp h) (by omega)
      refine ⟨fun i k hi _ => hall i k hi, ?_⟩
      rw [if_neg hsent, hlen, Nat.sub_self]
    · have hzero : countKeys copiesBlock obs t saved = 0 := by
        rw [countKeys_eq_zero_iff]
        intro i k hi
        by_contra hcopies
        have hmatch := ((copiesBlock_iff _ _).mp (eq_true_of_ne_false hcopies)).2.1
        rw [hnone i k hi] at hmatch
        exact absurd hmatch Bool.false_ne_true
      refine ⟨?_, by rw [if_pos (blocks_eq_nil_iff.mpr hzero), hzero, Nat.sub_zero]⟩
      intro i k hi hhit
      rw [countsHit, hlooks i k hi, hnone i k hi] at hhit
      exact absurd hhit (by decide)

omit hhdr hne hks in
lemma add_ofNat_inj {a : UInt32} {m n : ℕ} (hm : m < 2 ^ 32) (hn : n < 2 ^ 32) :
    a + UInt32.ofNat m = a + UInt32.ofNat n ↔ m = n := by
  rw [UInt32.add_right_inj]
  constructor
  · intro h
    have hmod := congrArg UInt32.toNat h
    rwa [UInt32.toNat_ofNat_of_lt' hm, UInt32.toNat_ofNat_of_lt' hn] at hmod
  · rintro rfl
    rfl

omit hhdr hne hks in
/-- Numbers that the counters can hold are determined by the counters. -/
lemma counted_iff {s s' : BmcStats} {h m p h' m' p' : ℕ} (hs : Counted s s' h m p)
    (hh : h < 2 ^ 32 ∧ h' < 2 ^ 32) (hm : m < 2 ^ 32 ∧ m' < 2 ^ 32) (hp : p < 2 ^ 32 ∧ p' < 2 ^ 32) :
    Counted s s' h' m' p' ↔ h = h' ∧ m = m' ∧ p = p' := by
  rw [← @add_ofNat_inj s.hitCount h h' hh.1 hh.2, ← @add_ofNat_inj s.missCount m m' hm.1 hm.2,
    ← @add_ofNat_inj s.hitMisprediction p p' hp.1 hp.2, ← hs.hits, ← hs.misses, ← hs.mispredicted]
  constructor
  · intro hs'
    exact ⟨hs'.hits, hs'.misses, hs'.mispredicted⟩
  · rintro ⟨hhits, hmisses, hmispredicted⟩
    exact ⟨hhits, hmisses, hmispredicted⟩

/-- The counters are exact exactly when the saved keys were predicted rightly as a whole. -/
theorem hit_accounting_iff (rest : List Byte) (hprog : e.prog = .writeReply)
    (hin : Enters env (.first headroom (hdr ++ requestText (spaces + 1) ks rest) cpu c) e)
    (hexit : (e.main env).1 = .ret .tx ∨ (e.main env).1 = .ret .pass) :
    let saved := candidates (seen env c) 1 ks
    let copied := countKeys copiesBlock (seen env c) (ks.length + 2) saved
    Counted cpu.stats (runXdp env headroom (hdr ++ requestText (spaces + 1) ks rest) cpu c).2.cpu.stats copied
      (ks.length - copied) (saved.length - copied) ↔ Predicted (seen env c) (ks.length + 2) saved := by
  obtain ⟨hcounts, hsome, hfew⟩ := request_counts hhdr spaces hne hks env headroom cpu c rest hprog hin hexit
  have hsaved := length_candidates_le (seen env c) 1 ks
  dsimp only
  generalize candidates (seen env c) 1 ks = saved at hcounts hsome hsaved ⊢
  have hlim : maxTailCallCnt < 2 ^ 32 := by decide
  have hhits := countKeys_le_length countsHit (seen env c) (ks.length + 2) saved
  have hcopied := countKeys_le_length copiesBlock (seen env c) (ks.length + 2) saved
  have hmono := @countKeys_mono (seen env c)
    (ks.length + 2) saved countsHit copiesBlock countsHit_of_copiesBlock
  have hmiss : countKeys countsMiss (seen env c) (ks.length + 2) saved =
      saved.length - countKeys countsHit (seen env c) (ks.length + 2) saved :=
    countKeys_not countsHit (seen env c) (ks.length + 2) saved
  have hmis : (if blocks (seen env c) (ks.length + 2) saved = [] then saved.length else 0) ≤
      saved.length := by
    split_ifs
    · exact Nat.le_refl _
    · exact Nat.zero_le _
  rw [← predicted_iff hsome, counted_iff hcounts ⟨by omega, by omega⟩ ⟨by omega, by omega⟩
    ⟨by omega, by omega⟩]
  constructor
  · rintro ⟨hhit, -, hmispredicted⟩
    exact ⟨hhit, hmispredicted⟩
  · rintro ⟨hhit, hmispredicted⟩
    exact ⟨hhit, by omega, hmispredicted⟩

end Request

/-- The cache is emptied between the two phases of the request. -/
def clearedMeanwhile : Interference := fun t c => if t = 3 then Cache.zeroed else c

section Sample

variable (env : Interference)

def sampleHashKeys : Entry := ⟨32, 1, .hashKeys, (sampleEntry.main env).2⟩

def samplePrepare : Entry := ⟨31, 2, .preparePacket, ((sampleHashKeys env).main env).2⟩

def sampleWrite : Entry := ⟨30, 3, .writeReply, ((samplePrepare env).main env).2⟩

variable {env}

lemma enters_sampleWrite (h0 : (sampleEntry.main env).1 = .tailCall .hashKeys .pass)
    (h1 : ((sampleHashKeys env).main env).1 = .tailCall .preparePacket .pass)
    (h2 : ((samplePrepare env).main env).1 = .tailCall .writeReply .pass) :
    Enters env sampleEntry (sampleWrite env) := by
  have hfirst : TailCalls env sampleEntry (sampleHashKeys env) := tailCalls_of_exit h0 rfl
  have hsecond : TailCalls env (sampleHashKeys env) (samplePrepare env) := tailCalls_of_exit h1 rfl
  have hthird : TailCalls env (samplePrepare env) (sampleWrite env) := tailCalls_of_exit h2 rfl
  exact .head hfirst (.head hsecond (.head hthird .refl))

end Sample

/-- The entry of the saved key has been invalidated when its turn comes: nothing is copied, and a
hit is counted. -/
theorem cleared_entry_counts_as_hit :
    Enters clearedMeanwhile sampleEntry (sampleWrite clearedMeanwhile) ∧
    ((sampleWrite clearedMeanwhile).main clearedMeanwhile).1 = .ret .pass ∧
    candidates (seen clearedMeanwhile cachedItemCache) 1 [cachedItem.key] = [cachedItem.key] ∧
    countKeys copiesBlock (seen clearedMeanwhile cachedItemCache) 3 [cachedItem.key] = 0 ∧
    ¬Counted PerCpu.zeroed.stats (runXdp clearedMeanwhile (List.replicate 256 0)
      (sampleHeaders true ++ requestText 1 [cachedItem.key] [LF]) PerCpu.zeroed cachedItemCache).2.cpu.stats
      0 1 1 := by
  refine ⟨enters_sampleWrite (by decide +kernel) (by decide +kernel) (by decide +kernel), by decide +kernel,
    by decide +kernel, by decide +kernel, ?_⟩
  intro hcounted
  have hhits : (runXdp clearedMeanwhile (List.replicate 256 0)
      (sampleHeaders true ++ requestText 1 [cachedItem.key] [LF]) PerCpu.zeroed
      cachedItemCache).2.cpu.stats.hitCount =
        1 := by
    decide +kernel
  rw [hcounted.hits] at hhits
  exact absurd hhits (by decide)

/-- Of three keys the cache has two: two hits and a miss. -/
theorem sampleKeys_counted :
    Counted PerCpu.zeroed.stats (runXdp Interference.quiet (List.replicate 256 0)
      (sampleHeaders true ++ requestText 1 sampleKeys [LF]) PerCpu.zeroed twoKeysCache).2.cpu.stats
      2 1 0 := by
  have hend : (follow Interference.quiet 6 sampleKeysEntry).map
      (fun e => (e.prog, (e.main Interference.quiet).1)) =
      some (.writeReply, .ret .tx) := by
    decide +kernel
  obtain ⟨e, hfollow, hlast⟩ := Option.map_eq_some_iff.mp hend
  obtain ⟨hprog, hexit⟩ := Prod.mk.inj hlast
  have hin := enters_of_follow hfollow
  rw [sampleKeysEntry, requestLine_eq] at hin
  have hiff := hit_accounting_iff ⟨by decide, by decide, by decide⟩ 0
    (by simp [sampleKeys]) sampleKeys_requestKey
    Interference.quiet (List.replicate 256 0) PerCpu.zeroed twoKeysCache [LF] hprog hin (Or.inl hexit)
  have hcopied : countKeys copiesBlock (seen Interference.quiet twoKeysCache) (sampleKeys.length + 2)
      [ascii "kkkkkkkkkkkk".toList, ascii "nnnnnnnnnnnn".toList] = 2 := by
    decide +kernel
  have hlooks : countKeys looksCached (seen Interference.quiet twoKeysCache) (sampleKeys.length + 2)
      [ascii "kkkkkkkkkkkk".toList, ascii "nnnnnnnnnnnn".toList] = 2 := by
    decide +kernel
  have hmissed : sampleKeys.length - 2 = 1 := rfl
  have hnone : [ascii "kkkkkkkkkkkk".toList, ascii "nnnnnnnnnnnn".toList].length - 2 = 0 := rfl
  dsimp only at hiff
  rw [sampleKeys_candidates, hcopied, hmissed, hnone] at hiff
  rw [hiff]
  exact ⟨countKeys_eq_length_iff.mp hlooks, Or.inl (countKeys_eq_length_iff.mp hcopied)⟩

end BmcCache.Proofs
