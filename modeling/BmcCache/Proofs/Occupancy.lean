import BmcCache.Model.Loader
import BmcCache.Proofs.Invalidation
import BmcCache.Proofs.Representation
import Mathlib.Algebra.Order.BigOperators.Group.Finset
import Mathlib.Data.Fintype.BigOperators

/-!
# The statistics of a run

The counters that the loader reports bound what is in the cache: an entry that is valid has been updated
and not been invalidated since.
-/

namespace BmcCache.Proofs

open Transition
open scoped BigOperators

/-! ### Valid entries -/

def validSlots (c : Cache) : ℕ := ∑ i, (c i).valid.toNat

lemma validSlots_store (c : Cache) (hash : UInt32) (e : BmcCacheEntry) :
    validSlots (c.store (cacheIdx hash) e) + (c.at hash).valid.toNat = validSlots c + e.valid.toNat := by
  have hsum : ∀ c : Cache, validSlots c = (c.at hash).valid.toNat +
      ∑ i ∈ Finset.univ.erase ⟨cacheIdx hash, cacheIdx_lt hash⟩, (c i).valid.toNat := by
    intro c
    exact (Finset.add_sum_erase Finset.univ (fun i => (c i).valid.toNat) (Finset.mem_univ _)).symm
  have hrest : ∑ i ∈ Finset.univ.erase ⟨cacheIdx hash, cacheIdx_lt hash⟩,
      (c.store (cacheIdx hash) e i).valid.toNat =
      ∑ i ∈ Finset.univ.erase ⟨cacheIdx hash, cacheIdx_lt hash⟩, (c i).valid.toNat := by
    apply Finset.sum_congr rfl
    intro i hi
    have hother : i.val ≠ cacheIdx hash := fun h => Finset.ne_of_mem_erase hi (Fin.ext h)
    rw [Cache.store_apply, if_neg hother]
  have hself : (c.store (cacheIdx hash) e).at hash = e := by rw [Cache.at_store, if_pos rfl]
  rw [hsum (c.store (cacheIdx hash) e), hsum c, hrest, hself]
  omega

/-! ### Counters of one CPU -/

/-- The counters that say what happened to entries, and to packets that may change them. -/
def changeCounts (stats : BmcStats) : UInt32 × UInt32 × UInt32 × UInt32 :=
  (stats.updateCount, stats.invalidationCount, stats.getRespCount, stats.setRecvCount)

lemma rxFilter_changeCounts (s : XdpState) :
    changeCounts (bmcRxFilterMain s).2.cpu.stats = changeCounts s.cpu.stats := by
  simp only [bmcRxFilterMain, rxGet]
  repeat' split
  all_goals rfl

lemma saveOrMiss_changeCounts (cpu : PerCpu) (key : MemcachedKey) (entry : BmcCacheEntry)
    (payload : List Byte) (keyLen : ℕ) :
    changeCounts (saveOrMiss cpu key entry payload keyLen).stats = changeCounts cpu.stats := by
  simp only [saveOrMiss]
  split_ifs
  · rfl
  · rfl

lemma nextKey_changeCounts (s : XdpState) (v : HashVars) :
    changeCounts (nextKey s v).2.cpu.stats = changeCounts s.cpu.stats := by
  simp only [nextKey]
  repeat' split
  all_goals rfl

lemma hashKeys_changeCounts (s : XdpState) :
    changeCounts (bmcHashKeysMain s).2.cpu.stats = changeCounts s.cpu.stats := by
  simp only [bmcHashKeysMain]
  repeat' split
  all_goals first | rfl | exact (nextKey_changeCounts _ _).trans (saveOrMiss_changeCounts _ _ _ _ _)

lemma preparePacket_changeCounts (s : XdpState) :
    changeCounts (bmcPreparePacketMain s).2.cpu.stats = changeCounts s.cpu.stats := by
  simp only [bmcPreparePacketMain]
  repeat' split
  all_goals rfl

lemma finishReply_changeCounts (s : XdpState) (written : ℕ) :
    changeCounts (finishReply s written).2.cpu.stats = changeCounts s.cpu.stats := by
  simp only [finishReply]
  repeat' split
  all_goals rfl

lemma replyNext_changeCounts (s : XdpState) (written : ℕ) :
    changeCounts (replyNext s written).2.cpu.stats = changeCounts s.cpu.stats := by
  simp only [replyNext]
  split_ifs
  · exact finishReply_changeCounts s written
  · rfl
  · split <;> rfl
  · rfl

lemma countHit_changeCounts (stats : BmcStats) (cacheHit : Bool) :
    changeCounts (countHit stats cacheHit) = changeCounts stats := by
  cases cacheHit <;> rfl

lemma writeReply_changeCounts (s : XdpState) :
    changeCounts (bmcWriteReplyMain s).2.cpu.stats = changeCounts s.cpu.stats := by
  simp only [bmcWriteReplyMain]
  repeat' split
  all_goals first | rfl | exact (replyNext_changeCounts _ _).trans (countHit_changeCounts _ _)

/-- The programs that process GET requests change no entry and count none of these. -/
lemma main_changeCounts {prog : XdpProg} (h : prog ≠ .invalidateCache) (s : XdpState) :
    changeCounts (prog.main s).2.cpu.stats = changeCounts s.cpu.stats := by
  cases prog with
  | rxFilter => exact rxFilter_changeCounts s
  | hashKeys => exact hashKeys_changeCounts s
  | preparePacket => exact preparePacket_changeCounts s
  | writeReply => exact writeReply_changeCounts s
  | invalidateCache => exact absurd rfl h

/-! ### Runs -/

/-- How often a CPU has counted each of them. -/
structure Counts where
  updates : ℕ
  invalidations : ℕ
  replies : ℕ
  sets : ℕ

/-- The counters of 32 bits show the counts. -/
def Shown (stats : BmcStats) (k : Counts) : Prop :=
  changeCounts stats = (k.updates.toUInt32, k.invalidations.toUInt32, k.replies.toUInt32, k.sets.toUInt32)

lemma toUInt32_succ (n : ℕ) : (n + 1).toUInt32 = n.toUInt32 + 1 := UInt32.ofNat_add n 1

section Shown

variable {stats : BmcStats} {k : Counts} (h : Shown stats k)

include h

lemma shown_set : Shown { stats with setRecvCount := stats.setRecvCount + 1 }
    { k with sets := k.sets + 1 } := by
  simp only [Shown, changeCounts, Prod.mk.injEq, toUInt32_succ] at h ⊢
  exact ⟨h.1, h.2.1, h.2.2.1, congrArg (· + 1) h.2.2.2⟩

lemma shown_invalidation : Shown { stats with invalidationCount := stats.invalidationCount + 1 }
    { k with invalidations := k.invalidations + 1 } := by
  simp only [Shown, changeCounts, Prod.mk.injEq, toUInt32_succ] at h ⊢
  exact ⟨h.1, congrArg (· + 1) h.2.1, h.2.2⟩

lemma shown_reply : Shown { stats with getRespCount := stats.getRespCount + 1 }
    { k with replies := k.replies + 1 } := by
  simp only [Shown, changeCounts, Prod.mk.injEq, toUInt32_succ] at h ⊢
  exact ⟨h.1, h.2.1, congrArg (· + 1) h.2.2.1, h.2.2.2⟩

lemma shown_update : Shown { stats with updateCount := stats.updateCount + 1 }
    { k with updates := k.updates + 1 } := by
  simp only [Shown, changeCounts, Prod.mk.injEq, toUInt32_succ] at h ⊢
  exact ⟨congrArg (· + 1) h.1, h.2⟩

end Shown

/-- The scanner has counted a `set` whose key it has not finished. -/
def unfinished (v : ScanVars) : ℕ := (v.setFound || v.keyFound).toNat

def pending : Task → ℕ
  | .scan _ _ v _ => unfinished v
  | _ => 0

lemma unfinished_congr {v w : ScanVars} (hset : w.setFound = v.setFound) (hkey : w.keyFound = v.keyFound) :
    unfinished w = unfinished v := by
  rw [unfinished, unfinished, hset, hkey]

/-- Every key that the scanner finishes belongs to a `set` of its own. -/
lemma unfinished_scanStep (v : ScanVars) (c : Byte) (cs : List Byte) :
    match (scanStep v c cs).2 with
    | .none => unfinished (scanStep v c cs).1 ≤ unfinished v
    | .setRecv => True
    | .keyEnd _ => unfinished (scanStep v c cs).1 + 1 ≤ unfinished v := by
  unfold scanStep
  split_ifs with hskip hset hstart hcr hkey hsp
  · exact Nat.le_of_eq (@unfinished_congr v { v with skip := v.skip - 1 } rfl rfl)
  · trivial
  · exact Nat.zero_le _
  · simp [unfinished, hstart.2.1]
  · simp [unfinished, hkey]
  · exact Nat.le_of_eq (@unfinished_congr v { v with hash := fnvStep v.hash c } rfl rfl)
  · exact Nat.le_refl (unfinished v)

/-- An update that the CPU has made and not counted yet. -/
def uncounted : Task → ℕ
  | .count => 1
  | _ => 0

/-- What `steps` steps on `n` CPUs have counted, and how it bounds the cache. -/
structure Tallied (n steps : ℕ) (m : Machine) (f : ℕ → Counts) : Prop where
  shown : ∀ cpu, Shown (m.cpus cpu).stats (f cpu)
  updates_le : ∀ cpu, (f cpu).updates + uncounted (m.tasks cpu) ≤ (f cpu).replies
  invalidations_le : ∀ cpu, (f cpu).invalidations + pending (m.tasks cpu) ≤ (f cpu).sets
  valid : validSlots m.kcache + ∑ cpu ∈ Finset.range n, (f cpu).invalidations ≤
    ∑ cpu ∈ Finset.range n, (f cpu).updates + ∑ cpu ∈ Finset.range n, uncounted (m.tasks cpu)
  steps : ∑ cpu ∈ Finset.range n, (f cpu).replies + ∑ cpu ∈ Finset.range n, (f cpu).sets ≤ steps

/-- A sum of which one CPU changes its part. -/
lemma sum_other {g g' : ℕ → ℕ} {n cpu : ℕ} (hcpu : cpu < n) (h : ∀ c ≠ cpu, g' c = g c) :
    ∑ c ∈ Finset.range n, g' c + g cpu = ∑ c ∈ Finset.range n, g c + g' cpu := by
  have hmem := Finset.mem_range.mpr hcpu
  have hrest : ∑ c ∈ (Finset.range n).erase cpu, g' c = ∑ c ∈ (Finset.range n).erase cpu, g c :=
    Finset.sum_congr rfl fun c hc => h c (Finset.ne_of_mem_erase hc)
  rw [← Finset.add_sum_erase _ _ hmem, ← Finset.add_sum_erase _ g hmem, hrest]
  omega

lemma sum_counts (g : Counts → ℕ) (f : ℕ → Counts) {n cpu : ℕ} (hcpu : cpu < n) (k : Counts) :
    ∑ c ∈ Finset.range n, g (Function.update f cpu k c) + g (f cpu) =
      ∑ c ∈ Finset.range n, g (f c) + g k := by
  have hsum := @sum_other (fun c => g (f c)) (fun c => g (Function.update f cpu k c)) n cpu hcpu
    fun c hc => by rw [Function.update_of_ne hc]
  rwa [Function.update_self] at hsum

section Step

variable {n steps cpu : ℕ} {m : Machine} {f : ℕ → Counts} {percpu : PerCpu} {c : Cache} {task : Task}

/-- What has to be shown of the step of one CPU. -/
lemma tallied_put (h : Tallied n steps m f) (hcpu : cpu < n) (k : Counts) (hshown : Shown percpu.stats k)
    (hupdates : k.updates + uncounted task ≤ k.replies)
    (hinvalidations : k.invalidations + pending task ≤ k.sets)
    (hvalid : validSlots c + k.invalidations + ((f cpu).updates + uncounted (m.tasks cpu)) ≤
      validSlots m.kcache + (f cpu).invalidations + (k.updates + uncounted task))
    (hsteps : k.replies + k.sets ≤ (f cpu).replies + (f cpu).sets + 1) :
    Tallied n (steps + 1) (m.put cpu percpu c task) (Function.update f cpu k) := by
  constructor
  · intro cpu'
    by_cases hc : cpu' = cpu
    · rw [hc, put_cpus_self, Function.update_self]
      exact hshown
    · rw [put_cpus_ne m percpu c task hc, Function.update_of_ne hc]
      exact h.shown cpu'
  · intro cpu'
    by_cases hc : cpu' = cpu
    · rw [hc, put_tasks_self, Function.update_self]
      exact hupdates
    · rw [put_tasks_ne m percpu c task hc, Function.update_of_ne hc]
      exact h.updates_le cpu'
  · intro cpu'
    by_cases hc : cpu' = cpu
    · rw [hc, put_tasks_self, Function.update_self]
      exact hinvalidations
    · rw [put_tasks_ne m percpu c task hc, Function.update_of_ne hc]
      exact h.invalidations_le cpu'
  · have hbefore := h.valid
    have hu := sum_counts Counts.updates f hcpu k
    have hi := sum_counts Counts.invalidations f hcpu k
    have hopen := @sum_other (fun c => uncounted (m.tasks c))
      (fun c' => uncounted ((m.put cpu percpu c task).tasks c'))
      n cpu hcpu fun c' hc' => by rw [put_tasks_ne m percpu c task hc']
    rw [put_tasks_self] at hopen
    have hkcache : (m.put cpu percpu c task).kcache = c := rfl
    rw [hkcache]
    omega
  · have hbefore := h.steps
    have hr := sum_counts Counts.replies f hcpu k
    have hs := sum_counts Counts.sets f hcpu k
    omega

/-- A step that counts nothing and changes no entry. -/
lemma tallied_quiet (h : Tallied n steps m f) (hcpu : cpu < n)
    (hstats : changeCounts percpu.stats = changeCounts (m.cpus cpu).stats)
    (hpending : pending task ≤ pending (m.tasks cpu)) (hopen : uncounted task = uncounted (m.tasks cpu)) :
    Tallied n (steps + 1) (m.put cpu percpu m.kcache task) (Function.update f cpu (f cpu)) := by
  have hupdates := h.updates_le cpu
  have hinv := h.invalidations_le cpu
  apply tallied_put h hcpu (f cpu) (hstats.trans (h.shown cpu))
  · omega
  · omega
  · omega
  · omega

lemma exit_put (m : Machine) (cpu left : ℕ) (r : Exit × XdpState) :
    ∃ task, (m.exit cpu left r).1 = m.put cpu r.2.cpu r.2.kcache task ∧ pending task = 0 ∧
    uncounted task = 0 := by
  obtain ⟨exit, s⟩ := r
  cases exit with
  | ret action => exact ⟨_, rfl, rfl, rfl⟩
  | tailCall next fallthrough => cases left <;> exact ⟨_, rfl, rfl, rfl⟩

/-- One section of the scanner. -/
lemma tallied_scan {left : ℕ} {b : Byte} {bs : List Byte} {v : ScanVars} {ctx : XdpMd}
    (h : Tallied n steps m f) (hcpu : cpu < n) (ht : m.tasks cpu = .scan (left + 1) (b :: bs) v ctx) :
    ∃ f', Tallied n (steps + 1) (m.put cpu (applyScanEvent (scanStep v b bs).2 (m.cpus cpu) m.kcache).1
      (applyScanEvent (scanStep v b bs).2 (m.cpus cpu) m.kcache).2 (.scan left bs (scanStep v b bs).1 ctx))
      f' := by
  have hevent := unfinished_scanStep v b bs
  have hshown := h.shown cpu
  have hupdates := h.updates_le cpu
  have hinv := h.invalidations_le cpu
  have hopen : uncounted (.scan left bs (scanStep v b bs).1 ctx) = uncounted (m.tasks cpu) := by
    rw [ht]
    rfl
  rw [ht] at hinv
  simp only [pending] at hinv
  cases hev : (scanStep v b bs).2 with
  | none =>
    rw [hev] at hevent
    exact ⟨_, tallied_quiet h hcpu rfl (by rw [ht]; exact hevent) hopen⟩
  | setRecv =>
    have hle : unfinished (scanStep v b bs).1 ≤ 1 := Bool.toNat_le _
    refine ⟨_, tallied_put h hcpu { f cpu with sets := (f cpu).sets + 1 } (shown_set hshown) ?_ ?_ ?_ ?_⟩
    · rw [hopen]
      exact hupdates
    · simp only [pending]
      omega
    · rw [hopen]
      exact Nat.le_refl _
    · simp only
      omega
  | keyEnd hash =>
    rw [hev] at hevent
    dsimp only at hevent
    simp only [applyScanEvent, invalidateSlot]
    split_ifs with hvalid
    · refine ⟨_, tallied_put h hcpu { f cpu with invalidations := (f cpu).invalidations + 1 }
        (shown_invalidation hshown) ?_ ?_ ?_ ?_⟩
      · rw [hopen]
        exact hupdates
      · simp only [pending]
        omega
      · have hstore := validSlots_store m.kcache hash { m.kcache.at hash with valid := false }
        rw [hvalid] at hstore
        simp only [Bool.toNat_true, Bool.toNat_false] at hstore
        simp only [hopen]
        omega
      · simp only
        omega
    · exact ⟨_, tallied_quiet h hcpu rfl (by rw [ht]; simp only [pending]; omega) hopen⟩

lemma tallied_advance {m' : Machine} {v : Option (XdpAction × XdpMd)} (h : Tallied n steps m f)
    (hcpu : cpu < n) (hadv : m.advance cpu = some (m', v)) : ∃ f', Tallied n (steps + 1) m' f' := by
  cases ht : m.tasks cpu with
  | idle => simp [advance_idle ht] at hadv
  | xdp left prog ctx =>
    have hbefore : uncounted (m.tasks cpu) = 0 := by
      rw [ht]
      rfl
    by_cases hprog : prog = .invalidateCache
    · subst hprog
      obtain ⟨task, v', hnext, htask⟩ := advance_invalidate ht
      rw [hnext, Option.some.injEq, Prod.mk.injEq] at hadv
      rw [← hadv.1]
      rcases htask with ⟨rfl, -⟩ | ⟨rfl, -⟩
      · exact ⟨_, tallied_quiet h hcpu rfl (Nat.zero_le _) hbefore.symm⟩
      · exact ⟨_, tallied_quiet h hcpu rfl (Nat.zero_le _) hbefore.symm⟩
    · rw [advance_xdp ht hprog, Option.some.injEq] at hadv
      obtain ⟨task, hput, hpending, hopen⟩ := exit_put m cpu left (prog.main ⟨ctx, m.cpus cpu, m.kcache⟩)
      have hkcache : (prog.main ⟨ctx, m.cpus cpu, m.kcache⟩).2.kcache = m.kcache := main_kcache hprog _
      rw [hadv, hkcache] at hput
      have hm : m' = m.put cpu (prog.main ⟨ctx, m.cpus cpu, m.kcache⟩).2.cpu m.kcache task := hput
      rw [hm]
      exact ⟨_, tallied_quiet h hcpu (main_changeCounts hprog _) (hpending ▸ Nat.zero_le _)
        (hopen.trans hbefore.symm)⟩
  | scan left rest sv ctx =>
    rcases advance_scan_cases ht hadv with ⟨-, rfl, -⟩ | ⟨left, b, bs, rfl, rfl, -, rfl⟩
    · exact ⟨_, tallied_quiet h hcpu rfl (Nat.zero_le _) (by rw [ht]; rfl)⟩
    · exact tallied_scan h hcpu ht
  | count =>
    have hupdates := h.updates_le cpu
    have hinv := h.invalidations_le cpu
    rw [ht] at hupdates hinv
    rw [advance_count ht, Option.some.injEq, Prod.mk.injEq] at hadv
    rw [← hadv.1]
    refine ⟨_, tallied_put h hcpu { f cpu with updates := (f cpu).updates + 1 } (shown_update (h.shown cpu))
      hupdates hinv ?_ ?_⟩
    · rw [ht]
      exact Nat.le_refl _
    · exact Nat.le_succ _

/-- The filter leaves everything as it is, or calls `bmc_update_cache_main`. -/
lemma txFilter_cases (skb : SkBuff) (stats : BmcStats) (c : Cache) :
    (bmcTxFilterMain skb stats c).stats = stats ∧ (bmcTxFilterMain skb stats c).kcache = c ∨
      bmcTxFilterMain skb stats c =
        bmcUpdateCacheMain skb { stats with getRespCount := stats.getRespCount + 1 } c := by
  unfold bmcTxFilterMain
  dsimp only
  split_ifs
  · exact Or.inl ⟨rfl, rfl⟩
  · exact Or.inl ⟨rfl, rfl⟩
  · exact Or.inl ⟨rfl, rfl⟩
  · exact Or.inl ⟨rfl, rfl⟩
  · exact Or.inr rfl
  · exact Or.inl ⟨rfl, rfl⟩

/-- An update that is to be counted leaves a valid entry; without one the flag stays as it is. -/
lemma updateEntry_valid (entry : BmcCacheEntry) (hash : UInt32) (payload : List Byte) :
    (updateEntry entry hash payload).1.valid = ((updateEntry entry hash payload).2 || entry.valid) := by
  obtain ⟨-, -, -, hvalid, -⟩ := copyReplyLoop_entry payload entry
  unfold updateEntry
  dsimp only
  split_ifs
  · rfl
  · rfl
  · exact hvalid

/-- A reply is counted; the entry that it may have made valid is still to be counted. -/
lemma tallied_reply (h : Tallied n steps m f) (hcpu : cpu < n) (hidle : m.tasks cpu = .idle)
    (hstats : percpu.stats = { (m.cpus cpu).stats with getRespCount := (m.cpus cpu).stats.getRespCount + 1 })
    (hpending : pending task = 0) (hopen : uncounted task ≤ 1)
    (hvalid : validSlots c ≤ validSlots m.kcache + uncounted task) :
    Tallied n (steps + 1) (m.put cpu percpu c task)
      (Function.update f cpu { f cpu with replies := (f cpu).replies + 1 }) := by
  have hupdates := h.updates_le cpu
  have hinv := h.invalidations_le cpu
  rw [hidle] at hupdates hinv
  have hshown := shown_reply (h.shown cpu)
  rw [← hstats] at hshown
  apply tallied_put h hcpu _ hshown
  · exact Nat.add_le_add hupdates hopen
  · rwa [hpending]
  · have hbefore : uncounted .idle = 0 := rfl
    rw [hidle, hbefore]
    dsimp only
    omega
  · dsimp only
    omega

/-- The lock section of the egress programs. -/
lemma tallied_transmit (skb : SkBuff) (h : Tallied n steps m f) (hcpu : cpu < n)
    (hidle : m.tasks cpu = .idle) :
    ∃ f', Tallied n (steps + 1) (m.transmitted cpu skb) f' := by
  have hbefore : uncounted (m.tasks cpu) = 0 := by
    rw [hidle]
    rfl
  simp only [Machine.transmitted]
  rcases txFilter_cases skb (m.cpus cpu).stats m.kcache with ⟨hstats, hkcache⟩ | hupdate
  · rw [hstats, hkcache, if_pos rfl]
    exact ⟨_, tallied_quiet h hcpu rfl (Nat.zero_le _) hbefore.symm⟩
  · rw [hupdate]
    simp only [bmcUpdateCacheMain, Cache.lookupElem_cacheIdx]
    generalize hhash : replyHash (skb.linear.drop headersLen) = hash
    generalize skb.linear.drop headersLen = payload at hhash
    have hvalid := updateEntry_valid (m.kcache.at hash) hash payload
    have hstore := validSlots_store m.kcache hash (updateEntry (m.kcache.at hash) hash payload).1
    cases hcounted : (updateEntry (m.kcache.at hash) hash payload).2 with
    | true =>
      rw [hvalid, hcounted, Bool.true_or, Bool.toNat_true] at hstore
      have hgrown : (m.cpus cpu).stats.updateCount + 1 ≠ (m.cpus cpu).stats.updateCount := by simp
      simp only [if_true, if_neg hgrown]
      refine ⟨_, tallied_reply h hcpu hidle rfl rfl (Nat.le_refl 1) ?_⟩
      simp only [uncounted]
      omega
    | false =>
      rw [hvalid, hcounted, Bool.false_or] at hstore
      simp only [Bool.false_eq_true, if_false, if_true]
      refine ⟨_, tallied_reply h hcpu hidle rfl rfl (Nat.zero_le 1) ?_⟩
      simp only [uncounted]
      omega

/-- The CPU of an action. -/
def cpuOf : Action → ℕ
  | .receive cpu _ _ => cpu
  | .advance cpu => cpu
  | .transmit cpu _ => cpu

lemma tallied_step {a : Action} {m' : Machine} (h : Tallied n steps m f) (hcpu : cpuOf a < n)
    (hstep : nextMachine m a = some m') : ∃ f', Tallied n (steps + 1) m' f' := by
  obtain ⟨⟨m₁, v⟩, hm, rfl⟩ := Option.map_eq_some_iff.mp hstep
  cases a with
  | receive cpu headroom frame =>
    obtain ⟨hidle, -, rfl⟩ := step_receive hm
    have hopen : uncounted (.xdp maxTailCallCnt .rxFilter (received headroom frame)) =
        uncounted (m.tasks cpu) := by
      rw [hidle]
      rfl
    exact ⟨_, tallied_quiet h hcpu rfl (Nat.zero_le _) hopen⟩
  | advance cpu => exact tallied_advance h hcpu hm
  | transmit cpu skb =>
    obtain ⟨hidle, -, rfl⟩ := step_transmit hm
    exact tallied_transmit skb h hcpu hidle

end Step

lemma tallied_booted (n : ℕ) : Tallied n 0 Machine.booted fun _ => ⟨0, 0, 0, 0⟩ := by
  have hnone : validSlots Machine.booted.kcache = 0 := Finset.sum_eq_zero fun _ _ => rfl
  constructor
  · exact fun _ => rfl
  · exact fun _ => Nat.le_refl 0
  · exact fun _ => Nat.le_refl 0
  · rw [hnone, Nat.zero_add]
    exact Nat.le_add_right _ _
  · simp

lemma tallied_run {n : ℕ} {as : List Action} {m : Machine} (hcpus : ∀ a ∈ as, cpuOf a < n)
    (hrun : run nextMachine Machine.booted as = some m) : ∃ f, Tallied n as.length m f := by
  induction as using List.reverseRecOn generalizing m with
  | nil =>
    obtain rfl := Option.some.inj hrun
    exact ⟨_, tallied_booted n⟩
  | append_singleton as a ih =>
    obtain ⟨m₁, hfirst, hlast⟩ := run_concat_cases hrun
    obtain ⟨f, hf⟩ := ih (fun b hb => hcpus b (List.mem_append_left _ hb)) hfirst
    rw [List.length_append, List.length_singleton]
    exact tallied_step hf (hcpus a (List.mem_append_right _ (List.mem_singleton_self a))) hlast

/-- What the loader adds up are the counts of all CPUs. -/
lemma shown_aggregateStats {stats : ℕ → BmcStats} {f : ℕ → Counts}
    (h : ∀ cpu, Shown (stats cpu) (f cpu)) (n : ℕ) :
    Shown (User.aggregateStats n stats) ⟨∑ cpu ∈ Finset.range n, (f cpu).updates,
      ∑ cpu ∈ Finset.range n, (f cpu).invalidations, ∑ cpu ∈ Finset.range n, (f cpu).replies,
      ∑ cpu ∈ Finset.range n, (f cpu).sets⟩ := by
  induction n with
  | zero => rfl
  | succ n ih =>
    have hn := h n
    simp only [Shown, changeCounts, Prod.mk.injEq] at ih hn
    have hsum : ∀ a b : ℕ, (a + b).toUInt32 = a.toUInt32 + b.toUInt32 := UInt32.ofNat_add
    simp only [Shown, changeCounts, User.aggregateStats, List.range_succ, List.foldl_append, List.foldl_cons,
      List.foldl_nil, Finset.sum_range_succ, hsum, Prod.mk.injEq]
    rw [← ih.1, ← ih.2.1, ← ih.2.2.1, ← ih.2.2.2, hn.1, hn.2.1, hn.2.2.1, hn.2.2.2]
    exact ⟨rfl, rfl, rfl, rfl⟩

/-- As long as the counters do not wrap, in every interleaving of the CPUs: there are at most as many valid
entries as updates that were not followed by an invalidation, some of which their CPUs have not counted
yet; every update belongs to a reply, and every invalidation to a `set` of its own. -/
theorem stats_bound_entries {n : ℕ} {as : List Action} {m : Machine} (hcpus : ∀ a ∈ as, cpuOf a < n)
    (hfew : as.length < 2 ^ 32) (hrun : run nextMachine Machine.booted as = some m) {stats : BmcStats}
    (hstats : stats = User.aggregateStats n fun cpu => (m.cpus cpu).stats) :
    validSlots m.kcache + stats.invalidationCount.toNat ≤
        stats.updateCount.toNat + ∑ cpu ∈ Finset.range n, uncounted (m.tasks cpu) ∧
      stats.updateCount.toNat + ∑ cpu ∈ Finset.range n, uncounted (m.tasks cpu) ≤ stats.getRespCount.toNat ∧
      stats.invalidationCount.toNat ≤ stats.setRecvCount.toNat := by
  obtain ⟨f, hf⟩ := tallied_run hcpus hrun
  have hshown := shown_aggregateStats hf.shown n
  rw [← hstats] at hshown
  simp only [Shown, changeCounts, Prod.mk.injEq] at hshown
  obtain ⟨hu, hi, hr, hs⟩ := hshown
  have hsteps := hf.steps
  have hvalid := hf.valid
  have hupdates : ∑ cpu ∈ Finset.range n, (f cpu).updates + ∑ cpu ∈ Finset.range n, uncounted (m.tasks cpu) ≤
      ∑ cpu ∈ Finset.range n, (f cpu).replies := by
    rw [← Finset.sum_add_distrib]
    exact Finset.sum_le_sum fun cpu _ => hf.updates_le cpu
  have hinvalidations :
      ∑ cpu ∈ Finset.range n, (f cpu).invalidations ≤ ∑ cpu ∈ Finset.range n, (f cpu).sets :=
    Finset.sum_le_sum fun cpu _ => (Nat.le_add_right _ _).trans (hf.invalidations_le cpu)
  have hsmall : ∀ {k : ℕ}, k < 2 ^ 32 → k.toUInt32.toNat = k := fun hk => Nat.mod_eq_of_lt hk
  rw [hu, hi, hr, hs, hsmall (by omega), hsmall (by omega), hsmall (by omega), hsmall (by omega)]
  exact ⟨hvalid, hupdates, hinvalidations⟩

/-- CPU 1 copies a reply; before it counts the update, CPU 0 scans a `set` of the key. -/
def lateCount : List Action :=
  .transmit 1 (sampleReply "VALUE kkkkkkkkkkkk 0 3\r\nabc\r\nEND\r\n".toList) ::
    .receive 0 [] (sampleTcpHeaders ++ ascii "set kkkkkkkkkkkk 0 0 1\r\nx\r\n".toList) ::
    List.replicate 19 (.advance 0)

theorem lateCount_bound : ∃ m, run nextMachine Machine.booted lateCount = some m ∧
    (User.aggregateStats 2 fun cpu => (m.cpus cpu).stats).updateCount = 0 ∧
    (User.aggregateStats 2 fun cpu => (m.cpus cpu).stats).invalidationCount = 1 ∧
    validSlots m.kcache = 0 := by
  have hend : (run nextMachine Machine.booted lateCount).map (fun m =>
      ((User.aggregateStats 2 fun cpu => (m.cpus cpu).stats).updateCount,
        (User.aggregateStats 2 fun cpu => (m.cpus cpu).stats).invalidationCount,
        uncounted (m.tasks 0), uncounted (m.tasks 1))) = some (0, 1, 0, 1) := by
    decide +kernel
  obtain ⟨m, hrun, hcounts⟩ := Option.map_eq_some_iff.mp hend
  simp only [Prod.mk.injEq] at hcounts
  obtain ⟨hupdates, hinvalidations, hzero, hone⟩ := hcounts
  have hcpus : ∀ a ∈ lateCount, cpuOf a < 2 := by
    intro a ha
    simp only [lateCount, List.mem_cons, List.mem_replicate] at ha
    rcases ha with rfl | rfl | ⟨-, rfl⟩
    · exact Nat.lt_succ_self 1
    · exact Nat.zero_lt_two
    · exact Nat.zero_lt_two
  obtain ⟨hvalid, -, -⟩ := stats_bound_entries hcpus (by simp [lateCount]) hrun rfl
  rw [hupdates, hinvalidations, Finset.sum_range_succ, Finset.sum_range_one, hzero, hone] at hvalid
  exact ⟨m, hrun, hupdates, hinvalidations, by simpa using hvalid⟩

end BmcCache.Proofs
