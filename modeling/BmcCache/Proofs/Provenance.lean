import BmcCache.Lib.Transition
import BmcCache.Proofs.MachineSteps
import BmcCache.Proofs.ReplyForm

/-!
# Where served data comes from

The machine with a history: which slots were invalidated and into which slots replies were
copied, in order. A valid entry always holds the beginning of the reply copied last, with no
invalidation after it, and every block sent to a client was such an entry at some moment
after the request had arrived.
-/

namespace BmcCache.Proofs

open Buffer Transition

/-- The machine with its history, the latest event first, and for each CPU the history at the
arrival of the frame it works on. -/
structure Traced where
  watched : Watched
  log : List SlotEvent
  start : ℕ → List SlotEvent

namespace Traced

def booted : Traced := ⟨Watched.booted, [], fun _ => []⟩

abbrev machine (s : Traced) : Machine := s.watched.machine

def record (s : Traced) (a : Action) (m : Machine) : Traced :=
  { watched := s.watched.record m a
    log := (slotEvent s.machine a).toList ++ s.log
    start := match a with
      | .receive cpu _ _ => Function.update s.start cpu s.log
      | _ => s.start }

def step (s : Traced) (a : Action) : Option Traced := (s.machine.step a).map fun r => s.record a r.1

abbrev Reachable (s : Traced) : Prop := Reach step (fun _ _ => True) booted s

@[simp] lemma record_machine (s : Traced) (a : Action) (m : Machine) : (s.record a m).machine = m := by
  cases a <;> rfl

end Traced

def lastEvent (log : List SlotEvent) (slot : ℕ) : Option SlotEvent := log.find? fun e => e.slot == slot

/-- The last event of the slot is the copy of a reply that starts with `b`. -/
def Fresh (log : List SlotEvent) (slot : ℕ) (b : List Byte) : Prop :=
  ∃ payload, lastEvent log slot = some (.copied slot payload) ∧ b <+: payload

def FreshCache (log : List SlotEvent) (c : Cache) : Prop :=
  ∀ i, (c i).valid = true → Fresh log i.val (c i).block

lemma lastEvent_cons_self (log : List SlotEvent) (e : SlotEvent) : lastEvent (e :: log) e.slot = some e := by
  simp [lastEvent]

lemma lastEvent_cons_ne {log : List SlotEvent} {e : SlotEvent} {slot : ℕ} (h : slot ≠ e.slot) :
    lastEvent (e :: log) slot = lastEvent log slot := by
  have hne : (e.slot == slot) = false := by simpa using h.symm
  simp [lastEvent, hne]

lemma freshCache_step {m : Machine} {a : Action} {c : Cache} {log : List SlotEvent}
    (hfresh : FreshCache log m.kcache) (h : CacheStep m a c) :
    FreshCache ((slotEvent m a).toList ++ log) c := by
  intro i hvalid
  cases h with
  | same hev hc =>
    rw [hev, Option.toList_none, List.nil_append]
    rw [hc] at hvalid ⊢
    exact hfresh i hvalid
  | invalidated hash hev hc =>
    rw [hc, Cache.store_apply] at hvalid ⊢
    split_ifs at hvalid ⊢ with hi
    rw [hev, Option.toList_some, List.singleton_append]
    obtain ⟨payload, hlast, hprefix⟩ := hfresh i hvalid
    exact ⟨payload, by rw [lastEvent_cons_ne hi, hlast], hprefix⟩
  | copied cpu skb ha hget hstale hev hc =>
    rw [hc, Cache.store_apply] at hvalid ⊢
    rw [hev, Option.toList_some, List.singleton_append]
    split_ifs at hvalid ⊢ with hi
    · refine ⟨SkBuff.payload skb, ?_, ?_⟩
      · rw [hi]
        exact lastEvent_cons_self log (.copied _ _)
      · rw [updateEntry_block hstale]
        exact storedBlock_isPrefix _
    · obtain ⟨payload, hlast, hprefix⟩ := hfresh i hvalid
      exact ⟨payload, by rw [lastEvent_cons_ne hi, hlast], hprefix⟩

/-- The cache of a moment between the arrival of the packet on `cpu` and now. -/
def SeenFresh (s : Traced) (cpu : ℕ) (c : Cache) : Prop :=
  ∃ log, s.start cpu <:+ log ∧ log <:+ s.log ∧ FreshCache log c

/-- What holds of every run: the cache is fresh, and so were the caches the packets have seen. -/
structure Provenance (s : Traced) : Prop where
  fresh : FreshCache s.log s.machine.kcache
  started : ∀ cpu, s.start cpu <:+ s.log
  seen : ∀ cpu c, c ∈ s.watched.caches cpu → SeenFresh s cpu c
  serving : AllServing s.watched

lemma provenance_step {s : Traced} {a : Action} {m' : Machine} {v : Option (XdpAction × XdpMd)}
    (h : Provenance s) (hstep : s.machine.step a = some (m', v)) : Provenance (s.record a m') := by
  have hgrow : s.log <:+ (s.record a m').log := List.suffix_append _ _
  have hkeep : ∀ cpu c, (s.record a m').start cpu = s.start cpu → SeenFresh s cpu c →
      SeenFresh (s.record a m') cpu c := by
    rintro cpu c hstart ⟨log, h1, h2, h3⟩
    exact ⟨log, by rwa [hstart], h2.trans hgrow, h3⟩
  refine ⟨?_, ?_, ?_, allServing_step h.serving hstep⟩
  · rw [Traced.record_machine]
    exact freshCache_step h.fresh (step_kcache hstep)
  · intro cpu
    cases a with
    | receive cpu' headroom frame =>
      by_cases hcpu : cpu = cpu'
      · subst hcpu
        simp only [Traced.record, Function.update_self]
        exact hgrow
      · simp only [Traced.record, Function.update_of_ne hcpu]
        exact (h.started cpu).trans hgrow
    | advance cpu' => exact (h.started cpu).trans hgrow
    | transmit cpu' skb => exact (h.started cpu).trans hgrow
  · intro cpu c hc
    cases a with
    | receive cpu' headroom frame =>
      by_cases hcpu : cpu = cpu'
      · subst hcpu
        simp [Traced.record, Watched.record] at hc
      · simp only [Traced.record, Watched.record, Function.update_of_ne hcpu] at hc
        exact hkeep cpu c (by simp [Traced.record, Function.update_of_ne hcpu]) (h.seen cpu c hc)
    | advance cpu' =>
      by_cases hcpu : cpu = cpu'
      · subst hcpu
        simp only [Traced.record, Watched.record, Function.update_self, List.mem_cons] at hc
        rcases hc with rfl | hc
        · exact ⟨s.log, h.started cpu, hgrow, h.fresh⟩
        · exact hkeep cpu c rfl (h.seen cpu c hc)
      · simp only [Traced.record, Watched.record, Function.update_of_ne hcpu] at hc
        exact hkeep cpu c rfl (h.seen cpu c hc)
    | transmit cpu' skb => exact hkeep cpu c rfl (h.seen cpu c hc)

lemma provenance_reachable {s : Traced} (h : s.Reachable) : Provenance s := by
  apply h.invariant Provenance
  · refine ⟨?_, fun _ => List.suffix_refl _, ?_, allServing_booted⟩
    · intro i hvalid
      simp [Traced.booted, Watched.booted, Machine.booted, Cache.zeroed, BmcCacheEntry.zero] at hvalid
    · intro cpu c hc
      simp [Traced.booted, Watched.booted] at hc
  · intro s a s' hinv _ hstep
    obtain ⟨⟨m', v⟩, hm, rfl⟩ := Option.map_eq_some_iff.mp hstep
    exact provenance_step hinv hm

/-! ### The blocks of a reply -/

lemma blocks_flatten (obs : ℕ → Cache) (t : ℕ) (ks : List (List Byte)) :
    ∃ bs : List (List Byte), blocks obs t ks = bs.flatten ∧
      ∀ b ∈ bs, ∃ t k, k ∈ ks ∧ b = cachedBlock (obs t) k := by
  induction ks generalizing t with
  | nil => exact ⟨[], rfl, by simp⟩
  | cons k ks ih =>
    obtain ⟨bs, hbs, hall⟩ := ih (t + 1)
    refine ⟨cachedBlock (obs t) k :: bs, by rw [blocks, hbs, List.flatten_cons], ?_⟩
    intro b hb
    rcases List.mem_cons.mp hb with rfl | hb
    · exact ⟨t, k, List.mem_cons_self, rfl⟩
    · obtain ⟨t', k', hk', rfl⟩ := hall b hb
      exact ⟨t', k', List.mem_cons_of_mem _ hk', rfl⟩

lemma sent_task {m m' : Machine} {cpu : ℕ} {ctx' : XdpMd}
    (hadv : m.advance cpu = some (m', some (.tx, ctx'))) :
    ∃ left prog ctx, m.tasks cpu = .xdp left prog ctx ∧
      m.exit cpu left (prog.main ⟨ctx, m.cpus cpu, m.kcache⟩) = (m', some (.tx, ctx')) := by
  cases ht : m.tasks cpu with
  | idle => simp [advance_idle ht] at hadv
  | count => simp [advance_count ht] at hadv
  | xdp left prog ctx =>
    by_cases hprog : prog = .invalidateCache
    · subst hprog
      obtain ⟨task, v', hinv, htask⟩ := advance_invalidate ht
      rw [hinv, Option.some.injEq, Prod.mk.injEq] at hadv
      rcases htask with ⟨-, rfl⟩ | ⟨-, rfl⟩ <;> simp at hadv
    · rw [advance_xdp ht hprog, Option.some.injEq] at hadv
      exact ⟨left, prog, ctx, rfl, hadv⟩
  | scan left rest sv ctx =>
    rcases advance_scan_cases ht hadv with ⟨-, -, hv⟩ | ⟨_, _, _, -, -, hv, -⟩
    · simp at hv
    · simp at hv

/-- Every valid entry holds the beginning of the reply copied last into its slot, after its
last invalidation; every block sent was such an entry after the request arrived; and the
programs that process requests do not change the cache. -/
theorem served_data_fresh {s : Traced} (h : s.Reachable) :
    (∀ i, (s.machine.kcache i).valid = true → Fresh s.log i.val (s.machine.kcache i).block) ∧
    (∀ cpu m' ctx', s.machine.step (.advance cpu) = some (m', some (.tx, ctx')) →
      ∃ bs : List (List Byte),
        ctx'.pkt = replyHeader (s.watched.frame cpu) (headersLen + bs.flatten.length + 5) ++
          (bs.flatten ++ replyEnd) ∧
        ∀ b ∈ bs, b ≠ [] → ∃ log k, s.start cpu <:+ log ∧ log <:+ s.log ∧ Fresh log (slotOf k) b) ∧
    (∀ cpu left prog ctx m' v, s.machine.tasks cpu = .xdp left prog ctx → prog ≠ .invalidateCache →
      s.machine.step (.advance cpu) = some (m', v) → m'.kcache = s.machine.kcache) := by
  have hprov := provenance_reachable h
  refine ⟨hprov.fresh, ?_, ?_⟩
  · intro cpu m' ctx' hstep
    obtain ⟨left, prog, ctx, ht, hexit⟩ := sent_task (show s.machine.advance cpu = _ from hstep)
    obtain ⟨-, i, b, ks, obs, hobs, -, -, -, hpkt⟩ := (hprov.serving cpu left prog ctx ht).sent hexit
    obtain ⟨bs, hbs, hall⟩ := blocks_flatten obs (i + 3) ks
    refine ⟨bs, by rw [hpkt, hbs], ?_⟩
    intro b hb hne
    obtain ⟨t, k, -, rfl⟩ := hall b hb
    obtain ⟨hvalid, hblock⟩ := cachedBlock_eq_block hne
    have hseen : SeenFresh s cpu (obs t) := by
      rcases List.mem_cons.mp (hobs t) with hnow | hold
      · rw [hnow]
        exact ⟨s.log, hprov.started cpu, List.suffix_refl _, hprov.fresh⟩
      · exact hprov.seen cpu _ hold
    obtain ⟨log, h1, h2, hfresh⟩ := hseen
    refine ⟨log, k, h1, h2, ?_⟩
    rw [hblock]
    exact hfresh ⟨cacheIdx (fnv1aHash32 k), cacheIdx_lt _⟩ hvalid
  · intro cpu left prog ctx m' v ht hprog hstep
    have hadv : s.machine.advance cpu = some (m', v) := hstep
    rw [advance_xdp ht hprog, Option.some.injEq] at hadv
    have hm : m' = (s.machine.exit cpu left (prog.main ⟨ctx, s.machine.cpus cpu, s.machine.kcache⟩)).1 := by
      rw [hadv]
    rw [hm, exit_kcache, main_kcache hprog]

def sampleActions : List Action :=
  [.transmit 0 (sampleReply "VALUE kkkkkkkkkkkk 0 3\r\nabc\r\nEND\r\n".toList),
    .receive 1 (List.replicate 256 0) (sampleRequest "get kkkkkkkkkkkk\r\n".toList),
    .advance 1, .advance 1, .advance 1]

theorem sampleActions_served : ∃ s : Traced, s.Reachable ∧ ∃ m' ctx',
    s.machine.step (.advance 1) = some (m', some (.tx, ctx')) ∧ ∃ bs : List (List Byte),
      ctx'.pkt = replyHeader (s.watched.frame 1) (headersLen + bs.flatten.length + 5) ++
        (bs.flatten ++ replyEnd) ∧
      ∀ b ∈ bs, b ≠ [] → ∃ log k, s.start 1 <:+ log ∧ log <:+ s.log ∧ Fresh log (slotOf k) b := by
  have hverdict : ((run Traced.step Traced.booted sampleActions).bind
      fun s => (s.machine.step (.advance 1)).map fun r => r.2.map Prod.fst) = some (some .tx) := by
    decide +kernel
  obtain ⟨s, hrun, hs⟩ := Option.bind_eq_some_iff.mp hverdict
  obtain ⟨⟨m', v⟩, hstep, hv⟩ := Option.map_eq_some_iff.mp hs
  obtain ⟨⟨action, ctx'⟩, rfl, rfl⟩ := Option.map_eq_some_iff.mp hv
  have hreach : s.Reachable := Reach.init.of_run hrun (meets_of_forall (fun _ _ => trivial) _ _)
  exact ⟨s, hreach, m', ctx', hstep, (served_data_fresh hreach).2.1 1 m' ctx' hstep⟩

end BmcCache.Proofs
