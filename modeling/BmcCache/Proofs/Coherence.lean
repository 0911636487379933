import BmcCache.Lib.Transition
import BmcCache.Model.System
import BmcCache.Proofs.Invalidation
import BmcCache.Proofs.Provenance
import BmcCache.Proofs.Filling

/-!
# Coherence with memcached

Runs of the whole system. Between the invalidation of a slot by a `set` and the moment
memcached applies it, and afterwards, a reply that shows an older item may still be on its way
to the egress programs. Where no such reply is copied, a valid entry is the block of memcached's
current item, unless a `set` of its key is still to invalidate it.
-/

namespace BmcCache.Proofs

open Buffer Segments Transition

/-- A `set` of the key has been received and not yet been applied by memcached. -/
def InFlight (s : System) (k : List Byte) : Prop :=
  (∃ cpu r, s.current cpu = some r ∧ r.setKey = some k) ∨ ∃ r ∈ s.passed, r.setKey = some k

/-- For the task of a `set`: its invalidation of the slot is still to come. -/
def ToClear (slot : ℕ) : Task → Prop
  | .idle => False
  | .xdp _ _ _ => True
  | .scan _ rest v _ => ∃ hash ∈ scanHashes rest v, cacheIdx hash = slot
  | .count => False

/-- A `set` of the key is still to invalidate its slot. -/
def Uncleared (s : System) (k : List Byte) : Prop :=
  ∃ cpu r, s.current cpu = some r ∧ r.setKey = some k ∧ ToClear (slotOf k) (s.machine.tasks cpu)

def Allowed (K : Set (List Byte)) : SystemAction → Prop
  | .receive _ _ r => r.WellFormed ∧ r.key ∈ K
  | .transmit _ _ hdr => IsReplyHeader hdr
  | _ => True

/-- A reply is copied into the slot of a key only while a `set` of that key is still to
invalidate it, or when it shows memcached's item and no `set` of the key is in flight. -/
def NoStaleFill (K : Set (List Byte)) (s : System) : SystemAction → Prop
  | .transmit _ i hdr => ∀ d, s.emitted[i]? = some d → isGetReply (frameOf hdr d) = true →
    upToDate (s.machine.kcache.at (replyHash (SkBuff.payload (frameOf hdr d))))
      (replyHash (SkBuff.payload (frameOf hdr d))) (SkBuff.payload (frameOf hdr d)) = false →
    ∀ k ∈ K, slotOf k = cacheIdx (replyHash (SkBuff.payload (frameOf hdr d))) →
      Uncleared s k ∨ ¬InFlight s k ∧
        ∃ it, s.store.find k = some it ∧ SkBuff.payload (frameOf hdr d) = replyText [it]
  | _ => True

/-! ### The task of a set -/

inductive SetTask (frame : List Byte) : Task → Prop
  | filter (ctx : XdpMd) : ctx.pkt = frame → SetTask frame (.xdp maxTailCallCnt .rxFilter ctx)
  | invalidate (left : ℕ) (ctx : XdpMd) : ctx.pkt = frame → SetTask frame (.xdp left .invalidateCache ctx)
  | scan (left : ℕ) (rest : List Byte) (v : ScanVars) (ctx : XdpMd) : rest.length ≤ left → ctx.pkt = frame →
      SetTask frame (.scan left rest v ctx)

lemma advance_invalidate_scan {m : Machine} {cpu left : ℕ} {ctx : XdpMd}
    (h : m.tasks cpu = .xdp left .invalidateCache ctx)
    (hlen : (ctx.pkt.drop (ethHlen + sizeofIphdr + sizeofTcphdr)).length ≠ 0) :
    m.advance cpu = some (m.put cpu (m.cpus cpu) m.kcache
      (.scan bmcMaxPacketLength (ctx.pkt.drop (ethHlen + sizeofIphdr + sizeofTcphdr)) ScanVars.init ctx),
      none) := by
  simp only [Machine.advance, h]
  rw [if_neg hlen]

lemma toClear_scanStep {slot : ℕ} {c : Byte} {cs : List Byte} {v : ScanVars} {m : Machine} {percpu : PerCpu}
    (h : ∃ hash ∈ scanHashes (c :: cs) v, cacheIdx hash = slot) (hslot : slot < bmcCacheEntryCount) :
    (∃ hash ∈ scanHashes cs (scanStep v c cs).1, cacheIdx hash = slot) ∨
      ((applyScanEvent (scanStep v c cs).2 percpu m.kcache).2 ⟨slot, hslot⟩).valid = false := by
  obtain ⟨hash, hmem, rfl⟩ := h
  simp only [scanHashes] at hmem
  cases hev : (scanStep v c cs).2 with
  | none => exact Or.inl ⟨hash, by simpa only [hev] using hmem, rfl⟩
  | setRecv => exact Or.inl ⟨hash, by simpa only [hev] using hmem, rfl⟩
  | keyEnd hash' =>
    simp only [hev, List.mem_cons] at hmem
    rcases hmem with rfl | hmem
    · right
      simp only [applyScanEvent, invalidateSlot_kcache, Cache.store_apply, if_pos]
    · exact Or.inl ⟨hash, hmem, rfl⟩

lemma readsWord_set {hdr flags exptime : List Byte} {it : Item}
    (h : (Request.set hdr flags exptime it).WellFormed) :
    ReadsWord (Command.storage .set it.key flags exptime [] it.value).bytes it.key := by
  obtain ⟨rest, hbytes⟩ := @setKey_bytes (.storage .set it.key flags exptime [] it.value) it.key rfl
  rw [hbytes]
  exact ⟨_, rest, .here _, readOn_set it.isKey.pos (isWord_of_lt fun b hb => (h.2.1 b hb).1)⟩

/-- One step for the frame of a `set`: it stays on the way to its invalidation or makes it, and
it is passed on as received when nothing is left to clear. -/
lemma setTask_advance {m m' : Machine} {cpu : ℕ} {v : Option (XdpAction × XdpMd)}
    {hdr flags exptime : List Byte} {it : Item} (hwf : (Request.set hdr flags exptime it).WellFormed)
    (htask : SetTask (Request.set hdr flags exptime it).frame (m.tasks cpu))
    (hadv : m.advance cpu = some (m', v)) :
    (v = none ∧ SetTask (Request.set hdr flags exptime it).frame (m'.tasks cpu) ∧
      (ToClear (slotOf it.key) (m.tasks cpu) →
        ToClear (slotOf it.key) (m'.tasks cpu) ∨ (m'.kcache.at (fnv1aHash32 it.key)).valid = false)) ∨
    (∃ ctx, v = some (.pass, ctx) ∧ ctx.pkt = (Request.set hdr flags exptime it).frame ∧
      ¬ToClear (slotOf it.key) (m.tasks cpu)) := by
  have hlim := limits
  have hreads := readsWord_set hwf
  obtain ⟨hhdr, -, -, hlen⟩ := hwf
  generalize htext : (Command.storage .set it.key flags exptime [] it.value).bytes = text at hlen hreads
  have hframe : (Request.set hdr flags exptime it).frame = hdr ++ text := by rw [Request.frame, htext]
  have hlong : 4 ≤ text.length := by
    obtain ⟨rest, hbytes⟩ := @setKey_bytes (.storage .set it.key flags exptime [] it.value) it.key rfl
    rw [← htext, hbytes]
    simp only [List.length_append, List.length_cons, setText, ascii, List.length_map, List.length_nil]
    omega
  rw [hframe] at htask ⊢
  generalize ht : m.tasks cpu = task at htask
  cases htask with
  | filter ctx hpkt =>
    have hmain : XdpProg.rxFilter.main ⟨ctx, m.cpus cpu, m.kcache⟩ =
        (.tailCall .invalidateCache .pass, ⟨ctx, m.cpus cpu, m.kcache⟩) := rxFilter_tcp hhdr hpkt hlong
    have hexit : m.exit cpu maxTailCallCnt (.tailCall .invalidateCache .pass, ⟨ctx, m.cpus cpu, m.kcache⟩) =
        (m.put cpu (m.cpus cpu) m.kcache (.xdp (maxTailCallCnt - 1) .invalidateCache ctx), none) := rfl
    rw [advance_xdp ht (by decide), hmain, hexit, Option.some.injEq, Prod.mk.injEq] at hadv
    obtain ⟨rfl, rfl⟩ := hadv
    left
    rw [put_tasks_self]
    exact ⟨rfl, .invalidate _ ctx hpkt, fun _ => Or.inl trivial⟩
  | invalidate left ctx hpkt =>
    have hdrop : ctx.pkt.drop (ethHlen + sizeofIphdr + sizeofTcphdr) = text := by
      rw [hpkt, ← hhdr.length, List.drop_left]
    rw [advance_invalidate_scan ht (by rw [hdrop]; omega), hdrop, Option.some.injEq, Prod.mk.injEq] at hadv
    obtain ⟨rfl, rfl⟩ := hadv
    left
    rw [put_tasks_self]
    refine ⟨rfl, .scan _ _ _ ctx (by omega) hpkt, fun _ => Or.inl ?_⟩
    exact ⟨_, (mem_scanHashes_iff text 0 _).mpr ⟨it.key, hreads, rfl⟩, rfl⟩
  | scan left rest sv ctx hle hpkt =>
    rcases advance_scan_cases ht hadv with ⟨hend, -, rfl⟩ | ⟨n, c, cs, rfl, rfl, rfl, rfl⟩
    · obtain rfl : rest = [] := hend.elim (fun hzero => List.length_eq_zero_iff.mp (by omega)) id
      refine Or.inr ⟨ctx, rfl, hpkt, ?_⟩
      simp [ToClear, scanHashes]
    · left
      rw [put_tasks_self]
      rw [List.length_cons] at hle
      refine ⟨rfl, .scan _ _ _ ctx (by omega) hpkt, ?_⟩
      intro h
      exact toClear_scanStep h (cacheIdx_lt _)

/-! ### The invariant -/

/-- What holds of every run without stale fills: requests are well formed and each `set` is in
one of its tasks, the values memcached holds have no newline, and a valid entry is the block of
the current item unless it is still to be cleared. -/
structure Coherence (K : Set (List Byte)) (s : System) : Prop where
  current : ∀ cpu r, s.current cpu = some r → r.WellFormed ∧ r.key ∈ K ∧
    (r.setKey ≠ none → SetTask r.frame (s.machine.tasks cpu))
  passed : ∀ r ∈ s.passed, r.WellFormed ∧ r.key ∈ K
  lines : ∀ k it, s.store.find k = some it → LF ∉ it.value
  entries : ∀ k ∈ K, (s.machine.kcache.at (fnv1aHash32 k)).valid = true → Uncleared s k ∨
    ¬InFlight s k ∧ ∃ it, s.store.find k = some it ∧ (s.machine.kcache.at (fnv1aHash32 k)).block = it.block

lemma coherence_booted (K : Set (List Byte)) : Coherence K System.booted := by
  refine ⟨?_, ?_, ?_, ?_⟩
  · intro cpu r h
    simp [System.booted] at h
  · intro r h
    simp [System.booted] at h
  · intro k it h
    simp [System.booted, Store.empty] at h
  · intro k _ hvalid
    simp [System.booted, Machine.booted, Cache.zeroed, Cache.at, BmcCacheEntry.zero] at hvalid

lemma storedBlock_replyText {it : Item} (hlf : LF ∉ it.value)
    (hlen : (replyText [it]).length ≤ bmcMaxCacheDataSize) : storedBlock (replyText [it]) = it.block := by
  rw [replyText_eq_reply it 0] at hlen ⊢
  rw [storedBlock_reply hlf .get 0 hlen, block_of_not_returnCas rfl]

section Steps

variable {K : Set (List Byte)} {s s' : System}

/-- A CPU that is idle works on no `set`. -/
lemma not_set_of_idle {cpu cpu' : ℕ} {r : Request} (h : Coherence K s) (hidle : s.machine.tasks cpu = .idle)
    (hcur : s.current cpu' = some r) (hset : r.setKey ≠ none) : cpu' ≠ cpu := by
  rintro rfl
  have htask := (h.current cpu' r hcur).2.2 hset
  rw [hidle] at htask
  cases htask

lemma coherence_receive {cpu : ℕ} {headroom : List Byte} {r : Request} (h : Coherence K s)
    (hr : r.WellFormed ∧ r.key ∈ K) (hstep : s.step (.receive cpu headroom r) = some s') :
    Coherence K s' := by
  obtain ⟨⟨m', v⟩, hm, rfl⟩ := Option.map_eq_some_iff.mp hstep
  obtain ⟨hidle, -, rfl⟩ := step_receive hm
  refine ⟨?_, h.passed, h.lines, ?_⟩
  · intro cpu' r' hcur
    dsimp only at hcur
    by_cases hcpu : cpu' = cpu
    · subst hcpu
      rw [Function.update_self, Option.some.injEq] at hcur
      subst hcur
      dsimp only
      rw [put_tasks_self]
      exact ⟨hr.1, hr.2, fun _ => .filter _ (received_pkt headroom r.frame)⟩
    · rw [Function.update_of_ne hcpu] at hcur
      dsimp only
      rw [put_tasks_ne _ _ _ _ hcpu]
      exact h.current cpu' r' hcur
  · intro k hk hvalid
    by_cases hset : r.setKey = some k
    · left
      refine ⟨cpu, r, Function.update_self .., hset, ?_⟩
      dsimp only
      rw [put_tasks_self]
      trivial
    · rcases h.entries k hk hvalid with ⟨cpu', r', hcur, hkey, hclear⟩ | ⟨hno, hitem⟩
      · have hcpu := not_set_of_idle h hidle hcur (by simp [hkey])
        refine Or.inl ⟨cpu', r', ?_, hkey, ?_⟩
        · dsimp only
          rw [Function.update_of_ne hcpu, hcur]
        · dsimp only
          rwa [put_tasks_ne _ _ _ _ hcpu]
      · refine Or.inr ⟨?_, hitem⟩
        rintro (⟨cpu', r', hcur, hkey⟩ | hpassed)
        · dsimp only at hcur
          by_cases hcpu : cpu' = cpu
          · subst hcpu
            rw [Function.update_self, Option.some.injEq] at hcur
            exact hset (hcur ▸ hkey)
          · rw [Function.update_of_ne hcpu] at hcur
            exact hno (Or.inl ⟨cpu', r', hcur, hkey⟩)
        · exact hno (Or.inr hpassed)

lemma inFlight_of_passed {s s' : System} {k : List Byte} (h : InFlight s' k)
    (hcurrent : s'.current = s.current) (hpassed : ∀ r ∈ s'.passed, r ∈ s.passed) : InFlight s k := by
  rcases h with ⟨cpu, r, hr, hkey⟩ | ⟨r, hr, hkey⟩
  · exact Or.inl ⟨cpu, r, hcurrent ▸ hr, hkey⟩
  · exact Or.inr ⟨r, hpassed r hr, hkey⟩

lemma coherence_deliver {i : ℕ} (h : Coherence K s) (hstep : s.step (.deliver i) = some s') :
    Coherence K s' := by
  obtain ⟨r, hr, rfl⟩ := Option.map_eq_some_iff.mp hstep
  have hmem : r ∈ s.passed := List.mem_of_getElem? hr
  have hpassed : ∀ r' ∈ s.passed.eraseIdx i, r' ∈ s.passed := fun r' h' => List.mem_of_mem_eraseIdx h'
  cases r with
  | get hdr key =>
    refine ⟨h.current, fun r' h' => h.passed r' (hpassed r' h'), h.lines, ?_⟩
    intro k hk hvalid
    refine (h.entries k hk hvalid).imp id ?_
    rintro ⟨hno, hitem⟩
    exact ⟨fun hin => hno (inFlight_of_passed hin rfl hpassed), hitem⟩
  | set hdr flags exptime it =>
    refine ⟨h.current, fun r' h' => h.passed r' (hpassed r' h'), ?_, ?_⟩
    · intro k it' hfind
      simp only [System.handled, Store.set] at hfind
      split_ifs at hfind with hk
      · rw [← Option.some.inj hfind]
        exact (h.passed _ hmem).1.2.2.1
      · exact h.lines k it' hfind
    · intro k hk hvalid
      rcases h.entries k hk hvalid with huncl | ⟨hno, it', hfind, hblock⟩
      · exact Or.inl huncl
      · -- the item set is not one of this key, which has no `set` in flight
        have hne : k ≠ it.key := by
          rintro rfl
          exact hno (Or.inr ⟨_, hmem, rfl⟩)
        refine Or.inr ⟨fun hin => hno (inFlight_of_passed hin rfl hpassed), it', ?_, hblock⟩
        simp only [System.handled, Store.set, if_neg hne]
        exact hfind

lemma valid_of_advance {m m' : Machine} {cpu : ℕ} {v : Option (XdpAction × XdpMd)}
    (hadv : m.advance cpu = some (m', v)) {i : Fin bmcCacheEntryCount} (hvalid : (m'.kcache i).valid = true) :
    m'.kcache i = m.kcache i := by
  cases advance_kcache hadv with
  | same _ heq => rw [heq]
  | invalidated hash _ heq =>
    rw [heq, Cache.store_apply] at hvalid ⊢
    split_ifs at hvalid ⊢
    rfl
  | copied _ _ haction => simp at haction

lemma advanced_current {cpu cpu' : ℕ} {m : Machine} {v : Option (XdpAction × XdpMd)} {r : Request}
    (h : (s.advanced cpu m v).current cpu' = some r) : s.current cpu' = some r ∧ (cpu' = cpu → v = none) := by
  cases v with
  | none => exact ⟨h, fun _ => rfl⟩
  | some v =>
    simp only [System.advanced] at h
    by_cases hcpu : cpu' = cpu
    · subst hcpu
      simp at h
    · rw [Function.update_of_ne hcpu] at h
      exact ⟨h, fun h' => absurd h' hcpu⟩

lemma mem_advanced_passed {cpu : ℕ} {m : Machine} {v : Option (XdpAction × XdpMd)} {r : Request}
    (h : r ∈ (s.advanced cpu m v).passed) : r ∈ s.passed ∨ s.current cpu = some r := by
  cases v with
  | none => exact Or.inl h
  | some v =>
    simp only [System.advanced, List.mem_append, Option.mem_toList, Option.filter_eq_some_iff] at h
    exact h.symm.imp id fun h' => h'.1

lemma coherence_advance {cpu : ℕ} (h : Coherence K s) (hstep : s.step (.advance cpu) = some s') :
    Coherence K s' := by
  obtain ⟨⟨m', v⟩, hadv, rfl⟩ := Option.map_eq_some_iff.mp hstep
  dsimp only
  have hmachine : (s.advanced cpu m' v).machine = m' := by cases v <;> rfl
  have hstore : (s.advanced cpu m' v).store = s.store := by cases v <;> rfl
  have hothers : ∀ cpu' ≠ cpu, m'.tasks cpu' = s.machine.tasks cpu' := by
    intro cpu' hcpu
    obtain ⟨cpu₀, percpu, c, task, rfl, hkind⟩ := step_others hadv
    obtain rfl : cpu = cpu₀ := by
      rcases hkind with ⟨_, _, ha, -⟩ | ⟨ha, -⟩ | ⟨_, ha, -⟩ <;> simp_all
    exact put_tasks_ne _ _ _ _ hcpu
  refine ⟨?_, ?_, ?_, ?_⟩
  · intro cpu' r hcur
    obtain ⟨hold, hnone⟩ := advanced_current hcur
    obtain ⟨hwf, hkey, htask⟩ := h.current cpu' r hold
    refine ⟨hwf, hkey, ?_⟩
    intro hset
    rw [hmachine]
    by_cases hcpu : cpu' = cpu
    · subst hcpu
      cases r with
      | get hdr key => simp [Request.setKey] at hset
      | set hdr flags exptime it =>
        rcases setTask_advance hwf (htask hset) hadv with ⟨-, hnext, -⟩ | ⟨ctx, hv, -⟩
        · exact hnext
        · simp [hnone rfl] at hv
    · rw [hothers cpu' hcpu]
      exact htask hset
  · intro r hr
    rcases mem_advanced_passed hr with hr | hr
    · exact h.passed r hr
    · exact ⟨(h.current cpu r hr).1, (h.current cpu r hr).2.1⟩
  · rw [hstore]
    exact h.lines
  · intro k hk hvalid
    rw [hmachine] at hvalid ⊢
    rw [hstore]
    have hsame : m'.kcache.at (fnv1aHash32 k) = s.machine.kcache.at (fnv1aHash32 k) :=
      valid_of_advance hadv hvalid
    have hbefore := hvalid
    rw [hsame] at hbefore ⊢
    rcases h.entries k hk hbefore with ⟨cpu', r, hcur, hkey, hclear⟩ | ⟨hno, hitem⟩
    · left
      by_cases hcpu : cpu' = cpu
      · subst hcpu
        obtain ⟨hwf, -, htask⟩ := h.current cpu' r hcur
        cases r with
        | get hdr key => simp [Request.setKey] at hkey
        | set hdr flags exptime it =>
          obtain rfl : it.key = k := by simpa [Request.setKey] using hkey
          rcases setTask_advance hwf (htask (by simp [Request.setKey])) hadv with
            ⟨rfl, -, hnext⟩ | ⟨ctx, -, -, hcleared⟩
          · rcases hnext hclear with hnext | hinvalid
            · exact ⟨cpu', _, hcur, hkey, hnext⟩
            · rw [hinvalid] at hvalid
              simp at hvalid
          · exact absurd hclear hcleared
      · refine ⟨cpu', r, ?_, hkey, ?_⟩
        · cases v with
          | none => exact hcur
          | some v =>
            simp only [System.advanced]
            rw [Function.update_of_ne hcpu, hcur]
        · rw [hmachine, hothers cpu' hcpu]
          exact hclear
    · right
      refine ⟨?_, hitem⟩
      rintro (⟨cpu', r, hcur, hkey⟩ | ⟨r, hr, hkey⟩)
      · exact hno (Or.inl ⟨cpu', r, (advanced_current hcur).1, hkey⟩)
      · rcases mem_advanced_passed hr with hr | hr
        · exact hno (Or.inr ⟨r, hr, hkey⟩)
        · exact hno (Or.inl ⟨cpu, r, hr, hkey⟩)

lemma block_copied {it : Item} {entry : BmcCacheEntry} {hdr d : List Byte} (hlf : LF ∉ it.value)
    (hget : isGetReply (frameOf hdr d) = true) (hpayload : SkBuff.payload (frameOf hdr d) = replyText [it])
    (hstale : upToDate entry (replyHash (SkBuff.payload (frameOf hdr d)))
      (SkBuff.payload (frameOf hdr d)) = false) :
    (updateEntry entry (replyHash (SkBuff.payload (frameOf hdr d)))
      (SkBuff.payload (frameOf hdr d))).1.block =
      it.block := by
  rw [updateEntry_block hstale, hpayload]
  apply storedBlock_replyText hlf
  simp only [isGetReply, Bool.and_eq_true, decide_eq_true_eq] at hget
  have hlen := hget.1.1.1.1
  rw [← hpayload, SkBuff.payload, List.length_drop]
  simp only [frameOf] at hlen ⊢
  omega

lemma coherence_transmit {cpu i : ℕ} {hdr : List Byte} (h : Coherence K s)
    (hfill : NoStaleFill K s (.transmit cpu i hdr)) (hstep : s.step (.transmit cpu i hdr) = some s') :
    Coherence K s' := by
  obtain ⟨d, hd, hstep⟩ := Option.bind_eq_some_iff.mp hstep
  obtain ⟨⟨m', v⟩, hm, rfl⟩ := Option.map_eq_some_iff.mp hstep
  have htasks : ∀ cpu' r, s.current cpu' = some r → r.setKey ≠ none →
      m'.tasks cpu' = s.machine.tasks cpu' := by
    intro cpu' r hcur hset
    obtain ⟨hidle, -, rfl⟩ := step_transmit hm
    obtain ⟨percpu, task, -, hput⟩ := transmitted_put s.machine cpu (frameOf hdr d)
    rw [hput, put_tasks_ne _ _ _ _ (not_set_of_idle h hidle hcur hset)]
  have huncl : ∀ k, Uncleared s k →
      Uncleared { s with machine := m', emitted := s.emitted.eraseIdx i } k := by
    rintro k ⟨cpu', r, hcur, hkey, hclear⟩
    refine ⟨cpu', r, hcur, hkey, ?_⟩
    dsimp only
    rw [htasks cpu' r hcur (by simp [hkey])]
    exact hclear
  refine ⟨?_, h.passed, h.lines, ?_⟩
  · intro cpu' r hcur
    obtain ⟨hwf, hkey, htask⟩ := h.current cpu' r hcur
    refine ⟨hwf, hkey, fun hset => ?_⟩
    dsimp only
    rw [htasks cpu' r hcur hset]
    exact htask hset
  · intro k hk hvalid
    dsimp only at hvalid ⊢
    have hkeep : m'.kcache.at (fnv1aHash32 k) = s.machine.kcache.at (fnv1aHash32 k) →
        Uncleared { s with machine := m', emitted := s.emitted.eraseIdx i } k ∨ ¬InFlight s k ∧
          ∃ it, s.store.find k = some it ∧ (m'.kcache.at (fnv1aHash32 k)).block = it.block := by
      intro hsame
      rw [hsame] at hvalid ⊢
      exact (h.entries k hk hvalid).imp (huncl k) id
    cases transmit_kcache hm with
    | same _ heq => exact hkeep (by rw [heq])
    | invalidated hash _ heq =>
      apply hkeep
      rw [heq, Cache.at, Cache.store_apply] at hvalid ⊢
      split_ifs at hvalid ⊢
      rfl
    | copied _ skb haction hget hstale _ heq =>
      obtain ⟨-, rfl⟩ := Action.transmit.inj haction
      rw [heq, Cache.at_store] at hkeep ⊢
      by_cases hslot : cacheIdx (fnv1aHash32 k) = cacheIdx (replyHash (SkBuff.payload (frameOf hdr d)))
      · rcases hfill d hd hget hstale k hk hslot with hclear | ⟨hno, it, hfind, hpayload⟩
        · exact Or.inl (huncl k hclear)
        · refine Or.inr ⟨hno, it, hfind, ?_⟩
          rw [if_pos hslot]
          exact block_copied (h.lines k it hfind) hget hpayload hstale
      · exact hkeep (if_neg hslot)

lemma coherence_step {a : SystemAction} (h : Coherence K s) (hok : Allowed K a ∧ NoStaleFill K s a)
    (hstep : s.step a = some s') : Coherence K s' := by
  cases a with
  | receive cpu headroom r => exact coherence_receive h hok.1 hstep
  | advance cpu => exact coherence_advance h hstep
  | deliver i => exact coherence_deliver h hstep
  | transmit cpu i hdr => exact coherence_transmit h hok.2 hstep

end Steps

/-! ### A time without sets of a key -/

def SetsKey (k : List Byte) : SystemAction → Prop
  | .receive _ _ r => r.setKey = some k
  | _ => False

def ReceivesOn (cpu : ℕ) : SystemAction → Prop
  | .receive cpu' _ _ => cpu' = cpu
  | _ => False

section Quiet

variable {s s' : System} {a : SystemAction} {k : List Byte}

lemma inFlight_step (hstep : s.step a = some s') (h : InFlight s' k) : InFlight s k ∨ SetsKey k a := by
  cases a with
  | receive cpu headroom r =>
    obtain ⟨⟨m', v⟩, -, rfl⟩ := Option.map_eq_some_iff.mp hstep
    rcases h with ⟨cpu', r', hcur, hkey⟩ | hpassed
    · dsimp only at hcur
      by_cases hcpu : cpu' = cpu
      · subst hcpu
        rw [Function.update_self, Option.some.injEq] at hcur
        exact Or.inr (hcur ▸ hkey)
      · rw [Function.update_of_ne hcpu] at hcur
        exact Or.inl (Or.inl ⟨cpu', r', hcur, hkey⟩)
    · exact Or.inl (Or.inr hpassed)
  | advance cpu =>
    obtain ⟨⟨m', v⟩, -, rfl⟩ := Option.map_eq_some_iff.mp hstep
    left
    rcases h with ⟨cpu', r, hcur, hkey⟩ | ⟨r, hr, hkey⟩
    · exact Or.inl ⟨cpu', r, (advanced_current hcur).1, hkey⟩
    · rcases mem_advanced_passed hr with hr | hr
      · exact Or.inr ⟨r, hr, hkey⟩
      · exact Or.inl ⟨cpu, r, hr, hkey⟩
  | deliver i =>
    obtain ⟨r, -, rfl⟩ := Option.map_eq_some_iff.mp hstep
    have hcurrent : (s.handled r).current = s.current := by cases r <;> rfl
    left
    rcases h with ⟨cpu, r', hcur, hkey⟩ | ⟨r', hr', hkey⟩
    · exact Or.inl ⟨cpu, r', by rw [← hcurrent]; exact hcur, hkey⟩
    · exact Or.inr ⟨r', List.mem_of_mem_eraseIdx hr', hkey⟩
  | transmit cpu i hdr =>
    obtain ⟨d, -, hstep⟩ := Option.bind_eq_some_iff.mp hstep
    obtain ⟨⟨m', v⟩, -, rfl⟩ := Option.map_eq_some_iff.mp hstep
    exact Or.inl h

lemma find_step (hstep : s.step a = some s') (h : ¬InFlight s k) : s'.store.find k = s.store.find k := by
  cases a with
  | receive cpu headroom r =>
    obtain ⟨⟨m', v⟩, -, rfl⟩ := Option.map_eq_some_iff.mp hstep
    rfl
  | advance cpu =>
    obtain ⟨⟨m', v⟩, -, rfl⟩ := Option.map_eq_some_iff.mp hstep
    cases v <;> rfl
  | deliver i =>
    obtain ⟨r, hr, rfl⟩ := Option.map_eq_some_iff.mp hstep
    cases r with
    | get hdr key => rfl
    | set hdr flags exptime it =>
      have hne : k ≠ it.key := by
        rintro rfl
        exact h (Or.inr ⟨_, List.mem_of_getElem? hr, rfl⟩)
      simp only [System.handled, Store.set, if_neg hne]
  | transmit cpu i hdr =>
    obtain ⟨d, -, hstep⟩ := Option.bind_eq_some_iff.mp hstep
    obtain ⟨⟨m', v⟩, -, rfl⟩ := Option.map_eq_some_iff.mp hstep
    rfl

end Quiet

/-- Memcached holds the item, and no `set` of its key is in flight. -/
structure Settled (K : Set (List Byte)) (it : Item) (s : System) : Prop where
  coherent : Coherence K s
  find : s.store.find it.key = some it
  quiet : ¬InFlight s it.key

lemma settled_step {K : Set (List Byte)} {it : Item} {s s' : System} {a : SystemAction} (h : Settled K it s)
    (hok : Allowed K a ∧ NoStaleFill K s a) (ha : ¬SetsKey it.key a) (hstep : s.step a = some s') :
    Settled K it s' := by
  refine ⟨coherence_step h.coherent hok hstep, ?_, ?_⟩
  · rw [find_step hstep h.quiet, h.find]
  · intro hin
    exact (inFlight_step hstep hin).elim h.quiet ha

def ShowsItem (it : Item) (c : Cache) : Prop :=
  (c.at (fnv1aHash32 it.key)).valid = true → (c.at (fnv1aHash32 it.key)).block = it.block

lemma showsItem_of_settled {K : Set (List Byte)} {it : Item} {s : System} (h : Settled K it s)
    (hk : it.key ∈ K) :
    ShowsItem it s.machine.kcache := by
  intro hvalid
  rcases h.coherent.entries it.key hk hvalid with ⟨cpu, r, hcur, hkey, -⟩ | ⟨-, it', hfind, hblock⟩
  · exact absurd (Or.inl ⟨cpu, r, hcur, hkey⟩) h.quiet
  · rw [h.find, Option.some.injEq] at hfind
    rw [hblock, hfind]

/-! ### The answer to a request -/

/-- The programs for the frame on `cpu` have run on caches with the property `P` only. -/
def ServedFrom (P : Cache → Prop) (cpu : ℕ) (frame : List Byte) (m : Machine) : Prop :=
  ∃ caches : List Cache, (∀ c ∈ caches, P c) ∧ ∀ left prog ctx, m.tasks cpu = .xdp left prog ctx →
    Serving ⟨m, fun _ => frame, fun _ => caches⟩ cpu left prog ctx

lemma servedFrom_step {P : Cache → Prop} {cpu : ℕ} {frame : List Byte} {m m' : Machine} {a : Action}
    {v : Option (XdpAction × XdpMd)} (h : ServedFrom P cpu frame m) (hP : P m.kcache)
    (hstep : m.step a = some (m', v)) (ha : ∀ headroom f, a ≠ .receive cpu headroom f) :
    ServedFrom P cpu frame m' := by
  obtain ⟨caches, hall, hserving⟩ := h
  have hnext := fun left prog ctx =>
    @serving_step ⟨m, fun _ => frame, fun _ => caches⟩ a m' v cpu hserving hstep
    left prog ctx
  cases a with
  | receive cpu' headroom f =>
    have hcpu : cpu ≠ cpu' := fun h => ha headroom f (by rw [h])
    refine ⟨caches, hall, fun left prog ctx ht => (hnext left prog ctx ht).frame_step rfl ?_ ?_⟩
    · simp [Watched.record, Function.update_of_ne hcpu]
    · simp [Watched.record, Function.update_of_ne hcpu]
  | advance cpu' =>
    by_cases hcpu : cpu = cpu'
    · subst hcpu
      refine ⟨m.kcache :: caches, ?_, fun left prog ctx ht => (hnext left prog ctx ht).frame_step rfl rfl ?_⟩
      · exact List.forall_mem_cons.mpr ⟨hP, hall⟩
      · simp [Watched.record]
    · refine ⟨caches, hall, fun left prog ctx ht => (hnext left prog ctx ht).frame_step rfl rfl ?_⟩
      simp [Watched.record, Function.update_of_ne hcpu]
  | transmit cpu' skb =>
    exact ⟨caches, hall, fun left prog ctx ht => (hnext left prog ctx ht).frame_step rfl rfl rfl⟩

lemma answer_of_servedFrom {it : Item} {cpu : ℕ} {hdr : List Byte} {m m' : Machine} {ctx' : XdpMd}
    (h : ServedFrom (ShowsItem it) cpu (Request.get hdr it.key).frame m) (hnow : ShowsItem it m.kcache)
    (hhdr : hdr.length = headersLen) (hcr : CR ∉ it.key)
    (htx : m.advance cpu = some (m', some (.tx, ctx'))) :
    ctx'.pkt.drop headersLen = it.block ++ getEnd := by
  obtain ⟨left, prog, ctx, ht, hexit⟩ := sent_task htx
  obtain ⟨caches, hall, hserving⟩ := h
  obtain ⟨hlen, i, b, ks, obs, hobs, hi, ⟨-, -, -, hks, hne⟩, hout, hpkt⟩ :=
    (hserving left prog ctx ht).sent hexit
  have hshows : ∀ t, ShowsItem it (obs t) := by
    intro t
    rcases List.mem_cons.mp (hobs t) with hcur | hold
    · rw [hcur]
      exact hnow
    · exact hall _ hold
  have hbody : keyBytes (Request.get hdr it.key).frame = it.key ++ CR :: [LF] :=
    keyBytes_getLine hhdr (List.cons_ne_nil it.key []) fun k hk => List.mem_singleton.mp hk ▸ it.isKey
  have hword : keyWord (it.key ++ CR :: [LF]) = it.key :=
    keyWord_append it.isKey.le (isKeyByte_of_key it.isKey hcr) rfl
  dsimp only at hi hks hpkt hlen
  rw [hbody] at hi hks
  -- the first word is the last one
  obtain rfl : i = 0 := by
    have hstop : ¬MovesOn (it.key ++ CR :: [LF]) :=
      fun hmove => hmove.2.1 ((endsLine_append CR hword).mpr rfl)
    cases i with
    | zero => rfl
    | succ i =>
      rw [fromWord, if_neg hstop] at hi
      simp at hi
  have hone : ks = [it.key] := by
    rw [List.nil_append, Nat.zero_add, savedKeys_one, hword, savedNext_nil] at hks
    rw [hks] at hne ⊢
    cases hlooks : looksCached (obs 1) it.key with
    | true => simp [hlooks]
    | false => simp [hlooks] at hne
  have hblocks : blocks obs (0 + 3) ks = cachedBlock (obs 3) it.key := by
    rw [hone, blocks, blocks, List.append_nil]
  rw [hblocks] at hout hpkt
  obtain ⟨hvalid, hblock⟩ := cachedBlock_eq_block hout
  rw [hpkt, List.drop_left' (length_replyHeader hlen _), hblock, hshows 3 hvalid]
  rfl

lemma machine_step {s s' : System} {a : SystemAction} (hstep : s.step a = some s') :
    s'.machine = s.machine ∨ ∃ action v, s.machine.step action = some (s'.machine, v) ∧
      ∀ cpu, ¬ReceivesOn cpu a → ∀ headroom f, action ≠ .receive cpu headroom f := by
  cases a with
  | receive cpu headroom r =>
    obtain ⟨⟨m', v⟩, hm, rfl⟩ := Option.map_eq_some_iff.mp hstep
    refine Or.inr ⟨_, v, hm, ?_⟩
    intro cpu' hcpu headroom' f heq
    exact hcpu (Action.receive.inj heq).1
  | advance cpu =>
    obtain ⟨⟨m', v⟩, hm, rfl⟩ := Option.map_eq_some_iff.mp hstep
    have hmachine : (s.advanced cpu m' v).machine = m' := by cases v <;> rfl
    exact Or.inr ⟨.advance cpu, v, by rw [hm, hmachine], by simp⟩
  | deliver i =>
    obtain ⟨r, -, rfl⟩ := Option.map_eq_some_iff.mp hstep
    left
    cases r <;> rfl
  | transmit cpu i hdr =>
    obtain ⟨d, -, hstep⟩ := Option.bind_eq_some_iff.mp hstep
    obtain ⟨⟨m', v⟩, hm, rfl⟩ := Option.map_eq_some_iff.mp hstep
    exact Or.inr ⟨_, v, hm, by simp⟩

lemma servedFrom_received {P : Cache → Prop} {s s' : System} {cpu : ℕ} {headroom : List Byte} {r : Request}
    (hstep : s.step (.receive cpu headroom r) = some s') : ServedFrom P cpu r.frame s'.machine := by
  obtain ⟨⟨m', v⟩, hm, rfl⟩ := Option.map_eq_some_iff.mp hstep
  obtain ⟨-, -, rfl⟩ := step_receive hm
  refine ⟨[], by simp, ?_⟩
  intro left prog ctx ht
  dsimp only at ht
  rw [put_tasks_self, Task.xdp.injEq] at ht
  obtain ⟨rfl, rfl, rfl⟩ := ht
  exact @serving_received ⟨_, fun _ => r.frame, fun _ => []⟩ cpu headroom

/-! ### Coherence of runs -/

/-- After memcached has applied a `set` of an item, with no other `set` of its key in flight then
or received later, every GET of the key that arrives afterwards and is answered by the programs
is answered with that item. The condition `ok` says which steps the runs may take. -/
def Coherent (ok : System → SystemAction → Prop) : Prop :=
  ∀ (s₀ s₁ s₂ s₃ s : System) (i cpu : ℕ) (hdr₀ flags exptime headroom hdr : List Byte) (it : Item)
    (m' : Machine) (ctx' : XdpMd),
    Reach System.step ok System.booted s₀ →
    s₀.passed[i]? = some (.set hdr₀ flags exptime it) →
    ok s₀ (.deliver i) → s₀.step (.deliver i) = some s₁ → ¬InFlight s₁ it.key →
    Reach System.step (fun s a => ok s a ∧ ¬SetsKey it.key a) s₁ s₂ →
    ok s₂ (.receive cpu headroom (.get hdr it.key)) →
    s₂.step (.receive cpu headroom (.get hdr it.key)) = some s₃ →
    Reach System.step (fun s a => ok s a ∧ ¬SetsKey it.key a ∧ ¬ReceivesOn cpu a) s₃ s →
    s.machine.step (.advance cpu) = some (m', some (.tx, ctx')) →
    ctx'.pkt.drop headersLen = it.block ++ getEnd

/-- Runs in which no reply is copied too late are coherent. -/
theorem coherent_of_noStaleFill (K : Set (List Byte)) :
    Coherent fun s a => Allowed K a ∧ NoStaleFill K s a := by
  intro s₀ s₁ s₂ s₃ s i cpu hdr₀ flags exptime headroom hdr it m' ctx' hreach hset hok hdeliver
    hquiet hrun₁ hget
    hreceive hrun₂ htx
  have hcoh₀ : Coherence K s₀ := hreach.invariant (Coherence K) (coherence_booted K) fun _ _ _ h hok hstep =>
    coherence_step h hok hstep
  obtain ⟨hwf, hk⟩ := hcoh₀.passed _ (List.mem_of_getElem? hset)
  have hsettled₁ : Settled K it s₁ := by
    refine ⟨coherence_step hcoh₀ hok hdeliver, ?_, hquiet⟩
    obtain ⟨r, hr, rfl⟩ := Option.map_eq_some_iff.mp hdeliver
    obtain rfl : r = .set hdr₀ flags exptime it := by
      rw [hset, Option.some.injEq] at hr
      exact hr.symm
    simp [System.handled, Store.set]
  have hsettled₂ : Settled K it s₂ := hrun₁.invariant (Settled K it) hsettled₁ fun _ _ _ h hok hstep =>
    settled_step h hok.1 hok.2 hstep
  have hsettled₃ : Settled K it s₃ := settled_step hsettled₂ hget (by simp [SetsKey, Request.setKey]) hreceive
  -- from the arrival of the request on, its programs see only caches that show the item
  obtain ⟨hsettled, hserved⟩ : Settled K it s ∧
      ServedFrom (ShowsItem it) cpu (Request.get hdr it.key).frame s.machine := by
    refine hrun₂.invariant (fun s => Settled K it s ∧
      ServedFrom (ShowsItem it) cpu (Request.get hdr it.key).frame s.machine)
      ⟨hsettled₃, servedFrom_received hreceive⟩ ?_
    rintro t a t' ⟨hsettled, hserved⟩ ⟨hok, hnoset, hother⟩ hstep
    refine ⟨settled_step hsettled hok hnoset hstep, ?_⟩
    rcases machine_step hstep with hsame | ⟨action, v, hm, haction⟩
    · rw [hsame]
      exact hserved
    · exact servedFrom_step hserved (showsItem_of_settled hsettled hk) hm (haction cpu hother)
  have hcr : CR ∉ it.key := fun hmem => absurd (hwf.2.1 CR hmem).1 (by decide)
  exact answer_of_servedFrom hserved (showsItem_of_settled hsettled hk) hget.1.1.1.length hcr htx

/-! #### A reply that is copied too late -/

def oldItem : Item := smallItem "kkkkkkkkkkkk".toList ['x'] cachedItem.isKey
def newItem : Item := smallItem "kkkkkkkkkkkk".toList ['y'] cachedItem.isKey

def setRequest (it : Item) : Request := .set sampleTcpHeaders (ascii ['0']) (ascii ['0']) it

def setRun (it : Item) : List SystemAction := .receive 0 [] (setRequest it) :: List.replicate 30 (.advance 0)

def getAction : SystemAction := .receive 0 (List.replicate 256 0) (.get (sampleHeaders true) newItem.key)

def sampleReplyHeader : List Byte := (sampleHeaders false).take (ethHlen + sizeofIphdr + sizeofUdphdr)

/-- The old item is set and a GET gets it from memcached; then a `set` of the new item arrives. -/
def staleBefore : List SystemAction :=
  setRun oldItem ++ [.deliver 0, getAction, .advance 0, .advance 0, .deliver 0] ++ setRun newItem

def answering : List SystemAction := [.advance 0, .advance 0, .advance 0]

/-- The actions of these runs are those of a run over one key, and requests arrive on one CPU. -/
def SampleAction (a : SystemAction) : Prop :=
  Allowed {newItem.key} a ∧ ∀ cpu, ReceivesOn cpu a → cpu = 0

lemma sampleAction_set {it : Item} (hit : it = oldItem ∨ it = newItem) : ∀ a ∈ setRun it, SampleAction a := by
  intro a ha
  rcases List.mem_cons.mp ha with rfl | ha
  · refine ⟨⟨⟨sampleTcpHeaders_isTcpHeader, ?_⟩, ?_⟩, fun cpu h => h.symm⟩
    · rcases hit with rfl | rfl
      · decide +kernel
      · decide +kernel
    · rcases hit with rfl | rfl <;> rfl
  · rw [List.eq_of_mem_replicate ha]
    exact ⟨trivial, fun cpu h => h.elim⟩

lemma sampleAction_get : SampleAction getAction := by
  refine ⟨⟨⟨⟨rfl, rfl, ?_⟩, ?_⟩, rfl⟩, fun cpu h => h.symm⟩
  · decide +kernel
  · decide +kernel

lemma sampleAction_deliver : SampleAction (.deliver 0) := ⟨trivial, fun _ h => h.elim⟩

lemma sampleAction_advance : SampleAction (.advance 0) := ⟨trivial, fun _ h => h.elim⟩

lemma sampleAction_staleBefore : ∀ a ∈ staleBefore, SampleAction a := by
  intro a ha
  simp only [staleBefore, List.mem_append, List.mem_cons, List.not_mem_nil, or_false] at ha
  rcases ha with (ha | rfl | rfl | rfl | rfl | rfl) | ha
  · exact sampleAction_set (Or.inl rfl) a ha
  · exact sampleAction_deliver
  · exact sampleAction_get
  · exact sampleAction_advance
  · exact sampleAction_advance
  · exact sampleAction_deliver
  · exact sampleAction_set (Or.inr rfl) a ha

lemma not_inFlight_sample {s : System} (h : Reach System.step (fun _ a => SampleAction a) System.booted s)
    (hcur : s.current 0 = none) (hpassed : s.passed = []) (k : List Byte) : ¬InFlight s k := by
  have hothers : ∀ cpu ≠ 0, s.current cpu = none := by
    refine h.invariant (fun s => ∀ cpu ≠ 0, s.current cpu = none) (fun _ _ => rfl) ?_
    intro t a t' ht ha hstep cpu hcpu
    cases a with
    | receive cpu' headroom r =>
      obtain ⟨⟨m', v⟩, -, rfl⟩ := Option.map_eq_some_iff.mp hstep
      obtain rfl : cpu' = 0 := ha.2 cpu' rfl
      dsimp only
      rw [Function.update_of_ne hcpu, ht cpu hcpu]
    | advance cpu' =>
      obtain ⟨⟨m', v⟩, -, rfl⟩ := Option.map_eq_some_iff.mp hstep
      rw [Option.eq_none_iff_forall_ne_some]
      intro r hr
      have hold := (advanced_current hr).1
      rw [ht cpu hcpu] at hold
      simp at hold
    | deliver i =>
      obtain ⟨r, -, rfl⟩ := Option.map_eq_some_iff.mp hstep
      cases r <;> exact ht cpu hcpu
    | transmit cpu' i hdr =>
      obtain ⟨d, -, hstep⟩ := Option.bind_eq_some_iff.mp hstep
      obtain ⟨⟨m', v⟩, -, rfl⟩ := Option.map_eq_some_iff.mp hstep
      exact ht cpu hcpu
  rintro (⟨cpu, r, hr, -⟩ | ⟨r, hr, -⟩)
  · by_cases hcpu : cpu = 0
    · rw [hcpu, hcur] at hr
      simp at hr
    · rw [hothers cpu hcpu] at hr
      simp at hr
  · rw [hpassed] at hr
    simp at hr

lemma sampleReplyHeader_isReplyHeader : IsReplyHeader sampleReplyHeader := by
  refine ⟨rfl, rfl, ?_⟩
  decide +kernel

/-- The reply with the old item passes the egress programs after memcached has applied the new
one, and the next GET is answered with the old item. -/
theorem stale_reply_served : Set.InjOn slotOf {newItem.key} ∧
    ¬Coherent fun _ a => Allowed {newItem.key} a := by
  refine ⟨Set.injOn_singleton _ _, ?_⟩
  intro hcoherent
  have hcheck : ((run System.step System.booted staleBefore).bind fun s₀ =>
      (s₀.step (.deliver 0)).bind fun s₁ =>
      (run System.step s₁ [.transmit 1 0 sampleReplyHeader]).bind fun s₂ => (s₂.step getAction).bind fun s₃ =>
      (run System.step s₃ answering).bind fun s => (s.machine.step (.advance 0)).map fun p =>
        (s₀.passed[0]?, (s₁.current 0, s₁.passed), p.2.map fun v => (v.1, v.2.pkt.drop headersLen))) =
      some (some (setRequest newItem), (none, []), some (.tx, oldItem.block ++ getEnd)) := by
    decide +kernel
  obtain ⟨s₀, hrun₀, hcheck⟩ := Option.bind_eq_some_iff.mp hcheck
  obtain ⟨s₁, hdeliver, hcheck⟩ := Option.bind_eq_some_iff.mp hcheck
  obtain ⟨s₂, hrun₁, hcheck⟩ := Option.bind_eq_some_iff.mp hcheck
  obtain ⟨s₃, hreceive, hcheck⟩ := Option.bind_eq_some_iff.mp hcheck
  obtain ⟨s, hrun₂, hcheck⟩ := Option.bind_eq_some_iff.mp hcheck
  obtain ⟨⟨m', v⟩, htx, hcheck⟩ := Option.map_eq_some_iff.mp hcheck
  simp only [Prod.mk.injEq] at hcheck
  obtain ⟨hset, ⟨hcur, hpassed⟩, hv⟩ := hcheck
  obtain ⟨⟨action, ctx'⟩, rfl, hverdict⟩ := Option.map_eq_some_iff.mp hv
  rw [Prod.mk.injEq] at hverdict
  obtain ⟨rfl, hpkt⟩ := hverdict
  have hsample₀ : Reach System.step (fun _ a => SampleAction a) System.booted s₀ :=
    Reach.init.of_run hrun₀ (meets_of_mem (fun a ha _ => sampleAction_staleBefore a ha) _)
  have hsample := hsample₀.step sampleAction_deliver hdeliver
  have hanswer := hcoherent s₀ s₁ s₂ s₃ s 0 0 _ _ _ _ _ newItem m' ctx'
    (Reach.init.of_run hrun₀ (meets_of_mem (fun a ha _ => (sampleAction_staleBefore a ha).1) _)) hset trivial
    hdeliver (not_inFlight_sample hsample hcur hpassed _)
    (Reach.init.of_run hrun₁ ⟨⟨sampleReplyHeader_isReplyHeader, fun h => h.elim⟩, fun _ _ => trivial⟩)
    sampleAction_get.1 hreceive (Reach.init.of_run hrun₂ (meets_of_mem ?_ _)) htx
  · rw [hpkt] at hanswer
    exact absurd (List.append_cancel_right hanswer) (by decide +kernel)
  · intro a ha _
    simp only [answering, List.mem_cons, List.not_mem_nil, or_false, or_self] at ha
    rw [ha]
    exact ⟨trivial, fun h => h.elim, fun h => h.elim⟩

def freshRun : List SystemAction := [getAction, .advance 0, .advance 0, .deliver 0]

lemma freshRun_actions : ∀ a ∈ freshRun,
    SampleAction a ∧ (∀ s, NoStaleFill {newItem.key} s a) ∧ ¬SetsKey newItem.key a := by
  intro a ha
  simp only [freshRun, List.mem_cons, List.not_mem_nil, or_false] at ha
  rcases ha with rfl | rfl | rfl | rfl
  · exact ⟨sampleAction_get, fun _ => trivial, Option.some_ne_none newItem.key ∘ Eq.symm⟩
  · exact ⟨sampleAction_advance, fun _ => trivial, fun h => h.elim⟩
  · exact ⟨sampleAction_advance, fun _ => trivial, fun h => h.elim⟩
  · exact ⟨sampleAction_deliver, fun _ => trivial, fun h => h.elim⟩

lemma noStaleFill_setRun : ∀ a ∈ setRun newItem, ∀ s, NoStaleFill {newItem.key} s a := by
  intro a ha s
  rcases List.mem_cons.mp ha with rfl | ha
  · trivial
  · rw [List.eq_of_mem_replicate ha]
    trivial

theorem fresh_reply_served : ∃ (s : System) (m' : Machine) (ctx' : XdpMd),
    s.machine.step (.advance 0) = some (m', some (.tx, ctx')) ∧
    ctx'.pkt.drop headersLen = newItem.block ++ getEnd := by
  have hcheck : ((run System.step System.booted (setRun newItem)).bind fun s₀ =>
      (s₀.step (.deliver 0)).bind fun s₁ =>
      (run System.step s₁ freshRun).bind fun t => (t.step (.transmit 1 0 sampleReplyHeader)).bind fun s₂ =>
      (s₂.step getAction).bind fun s₃ => (run System.step s₃ answering).bind fun s =>
      (s.machine.step (.advance 0)).map fun p =>
        ((s₀.passed[0]? :: s₁.current 0 :: t.current 0 :: s₁.passed.map some ++ t.passed.map some),
          (t.store.find newItem.key, t.emitted[0]?), p.2.map Prod.fst)) =
      some ([some (setRequest newItem), none, none],
        (some newItem, some (udpHeader 7 0 1 ++ replyText [newItem])), some .tx) := by
    decide +kernel
  obtain ⟨s₀, hrun₀, hcheck⟩ := Option.bind_eq_some_iff.mp hcheck
  obtain ⟨s₁, hdeliver, hcheck⟩ := Option.bind_eq_some_iff.mp hcheck
  obtain ⟨t, hrun₁, hcheck⟩ := Option.bind_eq_some_iff.mp hcheck
  obtain ⟨s₂, htransmit, hcheck⟩ := Option.bind_eq_some_iff.mp hcheck
  obtain ⟨s₃, hreceive, hcheck⟩ := Option.bind_eq_some_iff.mp hcheck
  obtain ⟨s, hrun₂, hcheck⟩ := Option.bind_eq_some_iff.mp hcheck
  obtain ⟨⟨m', v⟩, htx, hcheck⟩ := Option.map_eq_some_iff.mp hcheck
  simp only [Prod.mk.injEq, List.cons_append, List.cons.injEq, List.append_eq_nil_iff,
    List.map_eq_nil_iff] at hcheck
  obtain ⟨⟨hset, hcur₁, hcur, hpassed₁, hpassed⟩, ⟨hfind, hemitted⟩, hv⟩ := hcheck
  obtain ⟨⟨action, ctx'⟩, rfl, rfl⟩ := Option.map_eq_some_iff.mp hv
  refine ⟨s, m', ctx', htx, ?_⟩
  have hfresh := freshRun_actions
  have hsample₀ : Reach System.step (fun _ a => SampleAction a) System.booted s₀ :=
    Reach.init.of_run hrun₀ (meets_of_mem (fun a ha _ => sampleAction_set (Or.inr rfl) a ha) _)
  have hsample₁ := hsample₀.step sampleAction_deliver hdeliver
  have hsample : Reach System.step (fun _ a => SampleAction a) System.booted t :=
    hsample₁.of_run hrun₁ (meets_of_mem (fun a ha _ => (hfresh a ha).1) _)
  have hfill : NoStaleFill {newItem.key} t (.transmit 1 0 sampleReplyHeader) := by
    intro d hd _ _ k hk _
    rw [hemitted, Option.some.injEq] at hd
    rw [Set.mem_singleton_iff] at hk
    refine Or.inr ⟨not_inFlight_sample hsample hcur hpassed k, newItem, by rw [hk, hfind], ?_⟩
    rw [← hd]
    decide +kernel
  have hreach₀ : Reach System.step (fun s a => Allowed {newItem.key} a ∧ NoStaleFill {newItem.key} s a)
      System.booted s₀ :=
    Reach.init.of_run hrun₀ (meets_of_mem (fun a ha s =>
      ⟨(sampleAction_set (Or.inr rfl) a ha).1, noStaleFill_setRun a ha s⟩) _)
  refine coherent_of_noStaleFill {newItem.key} s₀ s₁ s₂ s₃ s 0 0 _ _ _ _ _ newItem m' ctx' hreach₀ hset
    ⟨trivial, trivial⟩ hdeliver (not_inFlight_sample hsample₁ hcur₁ hpassed₁ _) ?_
    ⟨sampleAction_get.1, trivial⟩ hreceive (Reach.init.of_run hrun₂ (meets_of_mem ?_ _)) htx
  · have hreach := Reach.init.of_run hrun₁ (meets_of_mem (fun a ha s =>
      (⟨⟨(hfresh a ha).1.1, (hfresh a ha).2.1 s⟩, (hfresh a ha).2.2⟩ :
        (Allowed {newItem.key} a ∧ NoStaleFill {newItem.key} s a) ∧ ¬SetsKey newItem.key a)) _)
    have hallowed : Allowed {newItem.key} (.transmit 1 0 sampleReplyHeader) := sampleReplyHeader_isReplyHeader
    exact hreach.step ⟨⟨hallowed, hfill⟩, fun h => h.elim⟩ htransmit
  · intro a ha _
    simp only [answering, List.mem_cons, List.not_mem_nil, or_false, or_self] at ha
    rw [ha]
    exact ⟨⟨trivial, trivial⟩, fun h => h.elim, fun h => h.elim⟩

end BmcCache.Proofs
