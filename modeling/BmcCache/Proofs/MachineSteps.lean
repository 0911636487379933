import BmcCache.Model.Machine
import BmcCache.Proofs.ReplyForm
import BmcCache.Proofs.Updates

/-!
# Steps of the machine

What a step of the machine can do to the cache: the programs that process GET requests
leave it alone, `bmc_invalidate_cache_main` clears the `valid` flag of one slot at a time, and
`bmc_update_cache_main` rewrites the entry of one slot.
-/

namespace BmcCache.Proofs

open Buffer

lemma rxFilter_kcache (s : XdpState) : (bmcRxFilterMain s).2.kcache = s.kcache := by
  simp only [bmcRxFilterMain, rxGet]
  repeat' split
  all_goals rfl

lemma hashKeys_kcache (s : XdpState) : (bmcHashKeysMain s).2.kcache = s.kcache := by
  simp only [bmcHashKeysMain, nextKey]
  repeat' split
  all_goals rfl

lemma preparePacket_kcache (s : XdpState) : (bmcPreparePacketMain s).2.kcache = s.kcache := by
  simp only [bmcPreparePacketMain]
  repeat' split
  all_goals rfl

lemma writeReply_kcache (s : XdpState) : (bmcWriteReplyMain s).2.kcache = s.kcache := by
  simp only [bmcWriteReplyMain]
  repeat' split
  all_goals first | rfl | exact replyNext_kcache _ _

lemma main_kcache {prog : XdpProg} (h : prog ≠ .invalidateCache) (s : XdpState) :
    (prog.main s).2.kcache = s.kcache := by
  cases prog with
  | rxFilter => exact rxFilter_kcache s
  | hashKeys => exact hashKeys_kcache s
  | preparePacket => exact preparePacket_kcache s
  | writeReply => exact writeReply_kcache s
  | invalidateCache => exact absurd rfl h

lemma exit_kcache (m : Machine) (cpu left : ℕ) (r : Exit × XdpState) :
    (m.exit cpu left r).1.kcache = r.2.kcache := by
  obtain ⟨exit, s⟩ := r
  cases exit with
  | ret action => rfl
  | tailCall next fallthrough => cases left <;> rfl

section Put

variable (m : Machine) {cpu cpu' : ℕ} (percpu : PerCpu) (c : Cache) (task : Task)

@[simp] lemma put_tasks_self : (m.put cpu percpu c task).tasks cpu = task := Function.update_self ..

@[simp] lemma put_cpus_self : (m.put cpu percpu c task).cpus cpu = percpu := Function.update_self ..

lemma put_tasks_ne (h : cpu' ≠ cpu) : (m.put cpu percpu c task).tasks cpu' = m.tasks cpu' :=
  Function.update_of_ne h ..

lemma put_cpus_ne (h : cpu' ≠ cpu) : (m.put cpu percpu c task).cpus cpu' = m.cpus cpu' :=
  Function.update_of_ne h ..

end Put

section Advance

variable {m : Machine} {cpu left : ℕ} {ctx : XdpMd}

lemma advance_idle (h : m.tasks cpu = .idle) : m.advance cpu = none := by
  simp only [Machine.advance, h]

lemma advance_count (h : m.tasks cpu = .count) :
    m.advance cpu = some (m.put cpu (Machine.countUpdate (m.cpus cpu)) m.kcache .idle, none) := by
  simp only [Machine.advance, h]

lemma advance_xdp {prog : XdpProg} (h : m.tasks cpu = .xdp left prog ctx) (hprog : prog ≠ .invalidateCache) :
    m.advance cpu = some (m.exit cpu left (prog.main ⟨ctx, m.cpus cpu, m.kcache⟩)) := by
  cases prog with
  | invalidateCache => exact absurd rfl hprog
  | rxFilter => simp only [Machine.advance, h]
  | hashKeys => simp only [Machine.advance, h]
  | preparePacket => simp only [Machine.advance, h]
  | writeReply => simp only [Machine.advance, h]

lemma advance_invalidate (h : m.tasks cpu = .xdp left .invalidateCache ctx) :
    ∃ task v, m.advance cpu = some (m.put cpu (m.cpus cpu) m.kcache task, v) ∧
      (task = .idle ∧ v = some (.pass, ctx) ∨
        task = .scan bmcMaxPacketLength (ctx.pkt.drop (ethHlen + sizeofIphdr + sizeofTcphdr))
        ScanVars.init ctx ∧
          v = none) := by
  simp only [Machine.advance, h]
  split_ifs
  · exact ⟨_, _, rfl, Or.inl ⟨rfl, rfl⟩⟩
  · exact ⟨_, _, rfl, Or.inr ⟨rfl, rfl⟩⟩

lemma advance_scan {c : Byte} {cs : List Byte} {v : ScanVars}
    (h : m.tasks cpu = .scan (left + 1) (c :: cs) v ctx) :
    m.advance cpu = some (m.put cpu (applyScanEvent (scanStep v c cs).2 (m.cpus cpu) m.kcache).1
      (applyScanEvent (scanStep v c cs).2 (m.cpus cpu) m.kcache).2 (.scan left cs (scanStep v c cs).1 ctx),
      none) := by
  simp only [Machine.advance, h]

lemma advance_scanned {rest : List Byte} {v : ScanVars} (h : m.tasks cpu = .scan left rest v ctx)
    (hend : left = 0 ∨ rest = []) :
    m.advance cpu = some (m.put cpu (m.cpus cpu) m.kcache .idle, some (.pass, ctx)) := by
  rcases hend with rfl | rfl
  · simp only [Machine.advance, h]
  · cases left <;> simp only [Machine.advance, h]

end Advance

/-- One step of the scanner: it is done and the packet goes on, or it reads a byte. -/
lemma advance_scan_cases {m m' : Machine} {cpu left : ℕ} {ctx : XdpMd} {rest : List Byte} {sv : ScanVars}
    {v : Option (XdpAction × XdpMd)} (h : m.tasks cpu = .scan left rest sv ctx)
    (hadv : m.advance cpu = some (m', v)) :
    ((left = 0 ∨ rest = []) ∧ m' = m.put cpu (m.cpus cpu) m.kcache .idle ∧ v = some (.pass, ctx)) ∨
    ∃ n c cs, left = n + 1 ∧ rest = c :: cs ∧ v = none ∧
      m' = m.put cpu (applyScanEvent (scanStep sv c cs).2 (m.cpus cpu) m.kcache).1
        (applyScanEvent (scanStep sv c cs).2 (m.cpus cpu) m.kcache).2
        (.scan n cs (scanStep sv c cs).1 ctx) := by
  by_cases hend : left = 0 ∨ rest = []
  · rw [advance_scanned h hend, Option.some.injEq, Prod.mk.injEq] at hadv
    exact Or.inl ⟨hend, hadv.1.symm, hadv.2.symm⟩
  · obtain ⟨n, rfl⟩ : ∃ n, left = n + 1 := ⟨left - 1, by omega⟩
    obtain ⟨c, cs, rfl⟩ := List.exists_cons_of_ne_nil fun hnil => hend (Or.inr hnil)
    rw [advance_scan h, Option.some.injEq, Prod.mk.injEq] at hadv
    exact Or.inr ⟨n, c, cs, rfl, rfl, hadv.2.symm, hadv.1.symm⟩

lemma step_receive {m m' : Machine} {cpu : ℕ} {headroom frame : List Byte} {v : Option (XdpAction × XdpMd)}
    (h : m.step (.receive cpu headroom frame) = some (m', v)) :
    m.tasks cpu = .idle ∧ v = none ∧
      m' = m.put cpu (m.cpus cpu) m.kcache (.xdp maxTailCallCnt .rxFilter (received headroom frame)) := by
  simp only [Machine.step] at h
  split at h
  · next hidle =>
    rw [Option.some.injEq, Prod.mk.injEq] at h
    exact ⟨hidle, h.2.symm, h.1.symm⟩
  · simp at h

lemma step_transmit {m m' : Machine} {cpu : ℕ} {skb : SkBuff} {v : Option (XdpAction × XdpMd)}
    (h : m.step (.transmit cpu skb) = some (m', v)) :
    m.tasks cpu = .idle ∧ v = none ∧ m' = m.transmitted cpu skb := by
  simp only [Machine.step] at h
  split at h
  · next hidle =>
    rw [Option.some.injEq, Prod.mk.injEq] at h
    exact ⟨hidle, h.2.symm, h.1.symm⟩
  · simp at h

/-- The egress programs leave a CPU idle, or with an update to count. -/
lemma transmitted_put (m : Machine) (cpu : ℕ) (skb : SkBuff) :
    ∃ percpu task, (task = .idle ∨ task = .count) ∧
      m.transmitted cpu skb =
      m.put cpu percpu (bmcTxFilterMain skb (m.cpus cpu).stats m.kcache).kcache task := by
  refine ⟨_, _, ?_, rfl⟩
  split_ifs
  · exact Or.inl rfl
  · exact Or.inr rfl

/-- What happens to a slot. -/
inductive SlotEvent
  /-- `bmc_invalidate_cache_main` runs its section under the lock of the slot. -/
  | invalidated (slot : ℕ)
  /-- `bmc_update_cache_main` copies a reply into the slot. -/
  | copied (slot : ℕ) (payload : List Byte)

def SlotEvent.slot : SlotEvent → ℕ
  | .invalidated slot => slot
  | .copied slot _ => slot

/-- The event of a step, from the state before it. -/
def slotEvent (m : Machine) : Action → Option SlotEvent
  | .receive _ _ _ => none
  | .advance cpu =>
    match m.tasks cpu with
    | .scan (_ + 1) (c :: cs) v _ =>
      match (scanStep v c cs).2 with
      | .keyEnd hash => some (.invalidated (cacheIdx hash))
      | _ => none
    | _ => none
  | .transmit _ skb =>
    let hash := replyHash (SkBuff.payload skb)
    if isGetReply skb = true ∧ upToDate (m.kcache.at hash) hash (SkBuff.payload skb) = false then
      some (.copied (cacheIdx hash) (SkBuff.payload skb))
    else none

lemma Cache.store_at (c : Cache) (hash : UInt32) : c.store (cacheIdx hash) (c.at hash) = c := by
  funext i
  rw [Cache.store_apply]
  split_ifs with h
  · simp [Cache.at, ← h]
  · rfl

/-- How a step changes the cache: not at all, or in the slot of its event. -/
inductive CacheStep (m : Machine) (a : Action) (c : Cache) : Prop
  | same (event : slotEvent m a = none) (eq : c = m.kcache)
  | invalidated (hash : UInt32) (event : slotEvent m a = some (.invalidated (cacheIdx hash)))
      (eq : c = m.kcache.store (cacheIdx hash) { m.kcache.at hash with valid := false })
  | copied (cpu : ℕ) (skb : SkBuff) (action : a = .transmit cpu skb) (get : isGetReply skb = true)
      (stale : upToDate (m.kcache.at (replyHash (SkBuff.payload skb))) (replyHash (SkBuff.payload skb))
        (SkBuff.payload skb) = false)
      (event : slotEvent m a =
        some (.copied (cacheIdx (replyHash (SkBuff.payload skb))) (SkBuff.payload skb)))
      (eq : c = m.kcache.store (cacheIdx (replyHash (SkBuff.payload skb)))
        (updateEntry (m.kcache.at (replyHash (SkBuff.payload skb))) (replyHash (SkBuff.payload skb))
          (SkBuff.payload skb)).1)

lemma invalidateSlot_kcache (hash : UInt32) (cpu : PerCpu) (c : Cache) :
    (invalidateSlot hash cpu c).2 = c.store (cacheIdx hash) { c.at hash with valid := false } := by
  simp only [invalidateSlot]
  split_ifs with hvalid
  · rfl
  · have hsame : { c.at hash with valid := false } = c.at hash := by
      rw [Bool.not_eq_true] at hvalid
      rw [← hvalid]
    rw [hsame, Cache.store_at]

lemma advance_kcache {m m' : Machine} {cpu : ℕ} {v : Option (XdpAction × XdpMd)}
    (h : m.advance cpu = some (m', v)) : CacheStep m (.advance cpu) m'.kcache := by
  cases ht : m.tasks cpu with
  | idle => simp [advance_idle ht] at h
  | count =>
    rw [advance_count ht, Option.some.injEq, Prod.mk.injEq] at h
    rw [← h.1]
    exact .same (by simp [slotEvent, ht]) rfl
  | xdp left prog ctx =>
    refine .same (by simp [slotEvent, ht]) ?_
    by_cases hprog : prog = .invalidateCache
    · subst hprog
      obtain ⟨task, v', hadv, -⟩ := advance_invalidate ht
      rw [hadv, Option.some.injEq, Prod.mk.injEq] at h
      rw [← h.1]
      rfl
    · rw [advance_xdp ht hprog, Option.some.injEq] at h
      have hm : m' = (m.exit cpu left (prog.main ⟨ctx, m.cpus cpu, m.kcache⟩)).1 := by rw [h]
      rw [hm, exit_kcache, main_kcache hprog]
  | scan left rest sv ctx =>
    rcases advance_scan_cases ht h with ⟨hend, rfl, -⟩ | ⟨n, c, cs, rfl, rfl, -, rfl⟩
    · refine .same ?_ rfl
      rcases hend with rfl | rfl
      · simp [slotEvent, ht]
      · cases left <;> simp [slotEvent, ht]
    · cases hev : (scanStep sv c cs).2 with
      | none => exact .same (by simp [slotEvent, ht, hev]) rfl
      | setRecv => exact .same (by simp [slotEvent, ht, hev]) rfl
      | keyEnd hash =>
        exact .invalidated hash (by simp [slotEvent, ht, hev])
          (invalidateSlot_kcache hash (m.cpus cpu) m.kcache)

lemma transmit_kcache {m m' : Machine} {cpu : ℕ} {skb : SkBuff} {v : Option (XdpAction × XdpMd)}
    (h : m.step (.transmit cpu skb) = some (m', v)) : CacheStep m (.transmit cpu skb) m'.kcache := by
  have hc : m'.kcache = (bmcTxFilterMain skb (m.cpus cpu).stats m.kcache).kcache := by
    rw [(step_transmit h).2.2]
    rfl
  by_cases hget : isGetReply skb = true
  · rw [txFilter_reply hget] at hc
    by_cases hup : upToDate (m.kcache.at (replyHash (SkBuff.payload skb))) (replyHash (SkBuff.payload skb))
        (SkBuff.payload skb) = true
    · rw [updateEntry_upToDate hup, Cache.store_at] at hc
      exact .same (by simp [slotEvent, hup]) hc
    · rw [Bool.not_eq_true] at hup
      exact .copied cpu skb rfl hget hup (by simp [slotEvent, hget, hup]) hc
  · rw [Bool.not_eq_true] at hget
    rw [txFilter_other hget] at hc
    exact .same (by simp [slotEvent, hget]) hc

/-- The cache changes only through the event of the step, and only in its slot. -/
lemma step_kcache {m m' : Machine} {a : Action} {v : Option (XdpAction × XdpMd)}
    (h : m.step a = some (m', v)) : CacheStep m a m'.kcache := by
  cases a with
  | receive cpu headroom frame =>
    obtain ⟨-, -, rfl⟩ := step_receive h
    exact .same rfl rfl
  | advance cpu => exact advance_kcache h
  | transmit cpu skb => exact transmit_kcache h

/-! ### The chain of programs of one packet -/

/-- The machine together with the frame each CPU works on and the caches its programs have run
on since that frame arrived. -/
structure Watched where
  machine : Machine
  frame : ℕ → List Byte
  caches : ℕ → List Cache

namespace Watched

def booted : Watched := ⟨Machine.booted, fun _ => [], fun _ => []⟩

def record (s : Watched) (m : Machine) : Action → Watched
  | .receive cpu _ frame => ⟨m, Function.update s.frame cpu frame, Function.update s.caches cpu []⟩
  | .advance cpu => ⟨m, s.frame, Function.update s.caches cpu (s.machine.kcache :: s.caches cpu)⟩
  | .transmit _ _ => ⟨m, s.frame, s.caches⟩

end Watched

/-- The state of a packet in the chain is the one `runXdp` reaches, whatever the rest of the
programs are going to see. -/
def Serving (s : Watched) (cpu left : ℕ) (prog : XdpProg) (ctx : XdpMd) : Prop :=
  left ≤ maxTailCallCnt ∧ ∃ (headroom : List Byte) (cpu₀ : PerCpu) (c₀ : Cache) (obs : ℕ → Cache),
    (∀ t < maxTailCallCnt - left, obs t ∈ s.caches cpu) ∧
    ∀ obs' : ℕ → Cache, (∀ t < maxTailCallCnt - left, obs' t = obs t) →
      runXdp (fun t _ => obs' t) headroom (s.frame cpu) cpu₀ c₀ =
        runChain (fun t _ => obs' t) left (maxTailCallCnt - left) prog
        ⟨ctx, s.machine.cpus cpu, s.machine.kcache⟩

def AllServing (s : Watched) : Prop :=
  ∀ cpu left prog ctx, s.machine.tasks cpu = .xdp left prog ctx → Serving s cpu left prog ctx

lemma runChain_obs (obs : ℕ → Cache) (left t : ℕ) (prog : XdpProg) (ctx : XdpMd) (cpu : PerCpu)
    (c c' : Cache) :
    runChain (fun t _ => obs t) left t prog ⟨ctx, cpu, c⟩ =
      runChain (fun t _ => obs t) left t prog ⟨ctx, cpu, c'⟩ := by
  rw [runChain, runChain]

lemma serving_received {s : Watched} {cpu : ℕ} (headroom : List Byte) :
    Serving s cpu maxTailCallCnt .rxFilter (received headroom (s.frame cpu)) := by
  refine ⟨Nat.le_refl _, headroom, s.machine.cpus cpu, s.machine.kcache, fun _ => s.machine.kcache,
    fun t ht => absurd ht (by omega), ?_⟩
  intro obs' _
  simp only [runXdp, Nat.sub_self]

lemma Serving.frame_step {s s' : Watched} {cpu left : ℕ} {prog : XdpProg} {ctx : XdpMd}
    (h : Serving s cpu left prog ctx) (hcpu : s'.machine.cpus cpu = s.machine.cpus cpu)
    (hframe : s'.frame cpu = s.frame cpu) (hcaches : s'.caches cpu = s.caches cpu) :
    Serving s' cpu left prog ctx := by
  obtain ⟨hle, headroom, cpu₀, c₀, obs, hmem, hrun⟩ := h
  refine ⟨hle, headroom, cpu₀, c₀, obs, by rwa [hcaches], ?_⟩
  intro obs' hobs
  rw [hframe, hrun obs' hobs, hcpu]
  exact runChain_obs obs' left _ prog ctx _ _ _

lemma Serving.next_obs {s : Watched} {cpu left : ℕ} {prog : XdpProg} {ctx : XdpMd}
    (h : Serving s cpu left prog ctx) :
    ∃ (headroom : List Byte) (cpu₀ : PerCpu) (c₀ : Cache) (obs : ℕ → Cache),
      (∀ t, obs t ∈ s.machine.kcache :: s.caches cpu) ∧ obs (maxTailCallCnt - left) = s.machine.kcache ∧
      ∀ obs' : ℕ → Cache, (∀ t ≤ maxTailCallCnt - left, obs' t = obs t) →
        runXdp (fun t _ => obs' t) headroom (s.frame cpu) cpu₀ c₀ =
          runChain (fun t _ => obs' t) left (maxTailCallCnt - left) prog
            ⟨ctx, s.machine.cpus cpu, s.machine.kcache⟩ := by
  obtain ⟨hle, headroom, cpu₀, c₀, obs, hmem, hrun⟩ := h
  refine ⟨headroom, cpu₀, c₀, fun t => if t < maxTailCallCnt - left then obs t else s.machine.kcache,
    ?_, ?_, ?_⟩
  · intro t
    dsimp only
    split_ifs with ht
    · exact List.mem_cons_of_mem _ (hmem t ht)
    · exact List.mem_cons_self
  · dsimp only
    rw [if_neg (Nat.lt_irrefl _)]
  · intro obs' hobs
    apply hrun
    intro t ht
    rw [hobs t (Nat.le_of_lt ht)]
    exact if_pos ht

lemma Serving.tailCall {s s' : Watched} {cpu left : ℕ} {prog next : XdpProg} {ctx : XdpMd}
    {fallthrough : XdpAction} {r : XdpState} (h : Serving s cpu (left + 1) prog ctx)
    (hmain : prog.main ⟨ctx, s.machine.cpus cpu, s.machine.kcache⟩ = (.tailCall next fallthrough, r))
    (hcpu : s'.machine.cpus cpu = r.cpu) (hframe : s'.frame cpu = s.frame cpu)
    (hcaches : s'.caches cpu = s.machine.kcache :: s.caches cpu) : Serving s' cpu left next r.ctx := by
  have hle := h.1
  obtain ⟨headroom, cpu₀, c₀, obs, hmem, hnow, hrun⟩ := h.next_obs
  have hsucc : maxTailCallCnt - left = maxTailCallCnt - (left + 1) + 1 := by omega
  refine ⟨by omega, headroom, cpu₀, c₀, obs, ?_, ?_⟩
  · intro t _
    rw [hcaches]
    exact hmem t
  · intro obs' hobs
    have hcur : obs' (maxTailCallCnt - (left + 1)) = s.machine.kcache := by
      rw [hobs _ (by omega), hnow]
    rw [hframe, hrun obs' (fun t ht => hobs t (by omega))]
    have hstep : prog.main { (⟨ctx, s.machine.cpus cpu, s.machine.kcache⟩ : XdpState) with
        kcache := (fun t _ => obs' t) (maxTailCallCnt - (left + 1)) s.machine.kcache } =
        (.tailCall next fallthrough, r) := by
      dsimp only
      rw [hcur, hmain]
    rw [runChain_tailCall_succ hstep, hsucc, hcpu]
    exact runChain_obs obs' left _ next r.ctx r.cpu _ _

/-- A reply on the wire is made of blocks from caches its programs ran on. -/
lemma Serving.sent {s : Watched} {cpu left : ℕ} {prog : XdpProg} {ctx : XdpMd}
    (h : Serving s cpu left prog ctx) {m' : Machine} {ctx' : XdpMd}
    (hexit : s.machine.exit cpu left (prog.main ⟨ctx, s.machine.cpus cpu, s.machine.kcache⟩) =
      (m', some (.tx, ctx'))) :
    headersLen ≤ (s.frame cpu).length ∧ ∃ (i : ℕ) (b : List Byte) (ks : List (List Byte)) (obs : ℕ → Cache),
      (∀ t, obs t ∈ s.machine.kcache :: s.caches cpu) ∧
      fromWord i (keyBytes (s.frame cpu)) = some b ∧ ParsedAt obs 1 [] (keyBytes (s.frame cpu)) ks i b ∧
      blocks obs (i + 3) ks ≠ [] ∧
      ctx'.pkt = replyHeader (s.frame cpu) (headersLen + (blocks obs (i + 3) ks).length + 5) ++
        (blocks obs (i + 3) ks ++ replyEnd) := by
  obtain ⟨headroom, cpu₀, c₀, obs, hmem, hnow, hrun⟩ := h.next_obs
  have hrun' := hrun obs (fun _ _ => rfl)
  obtain ⟨⟨exit, r⟩, hmain⟩ : ∃ r, prog.main ⟨ctx, s.machine.cpus cpu, s.machine.kcache⟩ = r := ⟨_, rfl⟩
  rw [hmain] at hexit
  have hstep : prog.main { (⟨ctx, s.machine.cpus cpu, s.machine.kcache⟩ : XdpState) with
      kcache := (fun t _ => obs t) (maxTailCallCnt - left) s.machine.kcache } = (exit, r) := by
    dsimp only
    rw [hnow, hmain]
  have hchain : runChain (fun t _ => obs t) left (maxTailCallCnt - left) prog
      ⟨ctx, s.machine.cpus cpu, s.machine.kcache⟩ = (.tx, r) ∧ r.ctx = ctx' := by
    cases exit with
    | ret action =>
      simp only [Machine.exit, Prod.mk.injEq, Option.some.injEq] at hexit
      obtain ⟨-, rfl, hctx⟩ := hexit
      exact ⟨runChain_ret hstep, hctx⟩
    | tailCall next fallthrough =>
      cases left with
      | zero =>
        simp only [Machine.exit, Prod.mk.injEq, Option.some.injEq] at hexit
        obtain ⟨-, rfl, hctx⟩ := hexit
        exact ⟨runChain_tailCall_zero hstep, hctx⟩
      | succ left => simp [Machine.exit] at hexit
  have htx : runXdp (fun t _ => obs t) headroom (s.frame cpu) cpu₀ c₀ = (.tx, r) := hrun'.trans hchain.1
  obtain ⟨hlen, i, b, ks, hi, hparsed, -, hne, hpkt⟩ :=
    @runXdp_sent (fun t _ => obs t) headroom (s.frame cpu) cpu₀ c₀
    (by rw [htx])
  have hseen : seen (fun t _ => obs t) c₀ = obs := by
    funext t
    cases t <;> rfl
  rw [hseen] at hparsed hne hpkt
  rw [htx, hchain.2] at hpkt
  exact ⟨hlen, i, b, ks, obs, hmem, hi, hparsed, hne, hpkt⟩

lemma step_others {m m' : Machine} {a : Action} {v : Option (XdpAction × XdpMd)}
    (h : m.step a = some (m', v)) :
    ∃ cpu percpu c task, m' = m.put cpu percpu c task ∧
      ((∃ headroom frame, a = .receive cpu headroom frame ∧ m.tasks cpu = .idle ∧ percpu = m.cpus cpu ∧
          task = .xdp maxTailCallCnt .rxFilter (received headroom frame) ∧ v = none) ∨
        (a = .advance cpu ∧ m.tasks cpu ≠ .idle ∧ m.advance cpu = some (m', v)) ∨
        (∃ skb, a = .transmit cpu skb ∧ m.tasks cpu = .idle ∧ (task = .idle ∨ task = .count) ∧
          v = none)) := by
  cases a with
  | receive cpu headroom frame =>
    obtain ⟨hidle, hv, hm⟩ := step_receive h
    exact ⟨cpu, _, _, _, hm, Or.inl ⟨headroom, frame, rfl, hidle, rfl, rfl, hv⟩⟩
  | advance cpu =>
    have hadv : m.advance cpu = some (m', v) := h
    obtain ⟨percpu, c, task, hput⟩ : ∃ percpu c task, m' = m.put cpu percpu c task := by
      cases ht : m.tasks cpu with
      | idle => simp [advance_idle ht] at hadv
      | count =>
        rw [advance_count ht, Option.some.injEq, Prod.mk.injEq] at hadv
        exact ⟨_, _, _, hadv.1.symm⟩
      | xdp left prog ctx =>
        by_cases hprog : prog = .invalidateCache
        · subst hprog
          obtain ⟨task, v', hinv, -⟩ := advance_invalidate ht
          rw [hinv, Option.some.injEq, Prod.mk.injEq] at hadv
          exact ⟨_, _, task, hadv.1.symm⟩
        · rw [advance_xdp ht hprog, Option.some.injEq] at hadv
          obtain ⟨⟨exit, r⟩, hmain⟩ : ∃ r, prog.main ⟨ctx, m.cpus cpu, m.kcache⟩ = r := ⟨_, rfl⟩
          rw [hmain] at hadv
          cases exit with
          | ret action => exact ⟨_, _, _, (congrArg Prod.fst hadv).symm⟩
          | tailCall next fallthrough =>
            cases left with
            | zero => exact ⟨_, _, _, (congrArg Prod.fst hadv).symm⟩
            | succ left => exact ⟨_, _, _, (congrArg Prod.fst hadv).symm⟩
      | scan left rest sv ctx =>
        rcases advance_scan_cases ht hadv with ⟨-, hm, -⟩ | ⟨n, c, cs, -, -, -, hm⟩
        · exact ⟨_, _, _, hm⟩
        · exact ⟨_, _, _, hm⟩
    have hbusy : m.tasks cpu ≠ .idle := by
      intro hidle
      simp [advance_idle hidle] at hadv
    exact ⟨cpu, percpu, c, task, hput, Or.inr (Or.inl ⟨rfl, hbusy, hadv⟩)⟩
  | transmit cpu skb =>
    obtain ⟨hidle, hv, hm⟩ := step_transmit h
    obtain ⟨percpu, task, htask, hput⟩ := transmitted_put m cpu skb
    exact ⟨cpu, _, _, _, hm.trans hput, Or.inr (Or.inr ⟨skb, rfl, hidle, htask, hv⟩)⟩

lemma Serving.advance {s : Watched} {cpu left : ℕ} {prog : XdpProg} {ctx : XdpMd} {m' : Machine}
    {v : Option (XdpAction × XdpMd)} (h : Serving s cpu left prog ctx)
    (ht : s.machine.tasks cpu = .xdp left prog ctx) (hadv : s.machine.advance cpu = some (m', v))
    {left' : ℕ} {prog' : XdpProg} {ctx' : XdpMd} (ht' : m'.tasks cpu = .xdp left' prog' ctx') :
    Serving (s.record m' (.advance cpu)) cpu left' prog' ctx' := by
  by_cases hprog : prog = .invalidateCache
  · subst hprog
    obtain ⟨task, v', hinv, htask⟩ := advance_invalidate ht
    rw [hinv, Option.some.injEq, Prod.mk.injEq] at hadv
    rw [← hadv.1, put_tasks_self] at ht'
    rcases htask with ⟨rfl, -⟩ | ⟨rfl, -⟩ <;> simp at ht'
  · rw [advance_xdp ht hprog, Option.some.injEq] at hadv
    obtain ⟨⟨exit, r⟩, hmain⟩ : ∃ r, prog.main ⟨ctx, s.machine.cpus cpu, s.machine.kcache⟩ = r := ⟨_, rfl⟩
    rw [hmain] at hadv
    have hm : m' = (s.machine.exit cpu left (exit, r)).1 := by rw [hadv]
    cases exit with
    | ret action => simp [hm, Machine.exit] at ht'
    | tailCall next fallthrough =>
      cases left with
      | zero => simp [hm, Machine.exit] at ht'
      | succ left =>
        simp only [hm, Machine.exit, put_tasks_self, Task.xdp.injEq] at ht'
        obtain ⟨rfl, rfl, rfl⟩ := ht'
        refine h.tailCall hmain ?_ rfl (by simp [Watched.record])
        simp [Watched.record, hm, Machine.exit]

/-- Whatever the CPUs do, the packet in the chain on `cpu` is where `runXdp` would be. -/
lemma serving_step {s : Watched} {a : Action} {m' : Machine} {v : Option (XdpAction × XdpMd)} {cpu : ℕ}
    (h : ∀ left prog ctx, s.machine.tasks cpu = .xdp left prog ctx → Serving s cpu left prog ctx)
    (hstep : s.machine.step a = some (m', v)) {left : ℕ} {prog : XdpProg} {ctx : XdpMd}
    (ht : m'.tasks cpu = .xdp left prog ctx) : Serving (s.record m' a) cpu left prog ctx := by
  obtain ⟨cpu', percpu, c, task, hput, hkind⟩ := step_others hstep
  by_cases hcpu : cpu = cpu'
  · subst hcpu
    rcases hkind with ⟨headroom, frame, rfl, -, rfl, rfl, -⟩ | ⟨rfl, hbusy, hadv⟩ | ⟨skb, rfl, -, htask, -⟩
    · rw [hput, put_tasks_self, Task.xdp.injEq] at ht
      obtain ⟨rfl, rfl, rfl⟩ := ht
      have harrived := @serving_received (s.record m' (.receive cpu headroom frame)) cpu headroom
      simpa only [Watched.record, Function.update_self] using harrived
    · cases hold : s.machine.tasks cpu with
      | idle => exact absurd hold hbusy
      | count =>
        rw [advance_count hold, Option.some.injEq, Prod.mk.injEq] at hadv
        simp [← hadv.1] at ht
      | xdp left₀ prog₀ ctx₀ => exact (h left₀ prog₀ ctx₀ hold).advance hold hadv ht
      | scan left₀ rest sv ctx₀ =>
        rcases advance_scan_cases hold hadv with ⟨-, hm, -⟩ | ⟨_, _, _, -, -, -, hm⟩
        · simp [hm] at ht
        · simp [hm] at ht
    · rw [hput, put_tasks_self] at ht
      rcases htask with rfl | rfl <;> simp at ht
  · have hold : s.machine.tasks cpu = .xdp left prog ctx := by
      rw [← ht, hput, put_tasks_ne _ _ _ _ hcpu]
    refine (h left prog ctx hold).frame_step ?_ ?_ ?_
    · rcases hkind with ⟨_, _, rfl, -⟩ | ⟨rfl, -⟩ | ⟨_, rfl, -⟩ <;>
        simp only [Watched.record, hput, put_cpus_ne _ _ _ _ hcpu]
    · rcases hkind with ⟨_, _, rfl, -⟩ | ⟨rfl, -⟩ | ⟨_, rfl, -⟩ <;>
        simp only [Watched.record, Function.update_of_ne hcpu]
    · rcases hkind with ⟨_, _, rfl, -⟩ | ⟨rfl, -⟩ | ⟨_, rfl, -⟩ <;>
        simp only [Watched.record, Function.update_of_ne hcpu]

lemma allServing_step {s : Watched} {a : Action} {m' : Machine} {v : Option (XdpAction × XdpMd)}
    (h : AllServing s) (hstep : s.machine.step a = some (m', v)) : AllServing (s.record m' a) := by
  intro cpu left prog ctx ht
  apply serving_step (h cpu) hstep
  cases a <;> exact ht

lemma allServing_booted : AllServing Watched.booted := by
  intro cpu left prog ctx ht
  simp [Watched.booted, Machine.booted] at ht

end BmcCache.Proofs
