import BmcCache.Proofs.Capacity
import BmcCache.Proofs.Commands

/-!
# The workload the cache is made for

Runs of requests and of `set` commands over TCP, each packet handled to its end before the next one, in
which memcached loses no items. Memcached is then in the state it would be in without the cache, and
what the cache answers is what memcached would answer.
-/

namespace BmcCache.Proofs

open Buffer Segments

/-- A request, or a `set` over TCP, while no item is lost. -/
def InWorkload (p : Packet) : Prop :=
  p.lost = (fun _ => false) ∧ ((∃ ks, p.command = .get ks) ∨ ∃ k, tcpSetKey p = some k)

/-- Memcached alone, without the cache in front of it. -/
def plainStep (s : Server) (p : Packet) : Server :=
  if p.accepted then (processCommand p.mem s p.command).1 else s

def plainRun (ps : List Packet) : Server := ps.foldl plainStep World.booted.server

/-- What memcached alone sends back. -/
def plainReply (s : Server) (p : Packet) : Option Reply :=
  if p.accepted then some (processCommand p.mem s p.command).2 else none

lemma plainReply_get {s : Server} {p : Packet} (haccepted : p.accepted = true) {ks : List (List Byte)}
    (hget : p.command = .get ks) : plainReply s p = some (.items (ks.filterMap s.store.find)) := by
  rw [plainReply, if_pos haccepted, hget]
  rfl

lemma plainRun_concat (ps : List Packet) (p : Packet) : plainRun (ps ++ [p]) = plainStep (plainRun ps) p := by
  rw [plainRun, List.foldl_append, List.foldl_cons, List.foldl_nil, plainRun]

lemma plainStep_get {s : Server} {p : Packet} {ks : List (List Byte)} (hget : p.command = .get ks) :
    plainStep s p = s := by
  rw [plainStep, hget]
  exact ite_self s

lemma forget_none (s : Store) : s.forget (fun _ => false) = s := rfl

/-! ### Memcached's state -/

lemma transport_of_tcpSetKey {p : Packet} {k : List Byte} (h : tcpSetKey p = some k) :
    p.transport = .tcp := by
  unfold tcpSetKey at h
  split_ifs at h with ht
  exact ht

/-- Over TCP there are no datagrams to count. -/
lemma accepted_of_tcp {p : Packet} (ht : p.transport = .tcp) : p.accepted = true := by
  rw [Packet.accepted, ht]
  rfl

/-- Memcached handles a segment. -/
lemma handled_tcp {p : Packet} (hp : Proper p) (ht : p.transport = .tcp) (w : World) :
    (w.receive p).1 = .pass ∧ (w.receive p).2.ctx.pkt = p.frame ∧ p.accepted = true := by
  obtain ⟨hpass, hpkt⟩ := receive_tcp hp w ht
  exact ⟨hpass, hpkt, accepted_of_tcp ht⟩

lemma plainStep_set {s : Server} {p : Packet} {k : List Byte} (hset : tcpSetKey p = some k) :
    plainStep s p = (processCommand p.mem s p.command).1 :=
      if_pos (accepted_of_tcp (transport_of_tcpSetKey hset))

/-- What the programs do with a packet does not change what memcached does with it. -/
lemma server_step {p : Packet} (hp : Proper p) (hwork : InWorkload p) (w : World) :
    (w.step p).server = plainStep w.server p := by
  obtain ⟨hlost, hcommand⟩ := hwork
  unfold World.step
  dsimp only
  rw [hlost, forget_none]
  split_ifs with hpass
  · rw [World.handle, server_transmit, plainStep, if_pos hpass.2.2]
  · rcases hcommand with ⟨ks, hget⟩ | ⟨k, hset⟩
    · exact (plainStep_get hget).symm
    · exact absurd (handled_tcp hp (transport_of_tcpSetKey hset) w) hpass

lemma server_run {ps : List Packet} (hps : ∀ p ∈ ps, Proper p ∧ InWorkload p) :
    (World.booted.run ps).server = plainRun ps := by
  induction ps using List.reverseRecOn with
  | nil => rfl
  | append_singleton ps p ih =>
    obtain ⟨hp, hwork⟩ := hps p (List.mem_append_right _ (List.mem_singleton_self p))
    rw [run_concat, server_step hp hwork, plainRun_concat, ih fun q hq => hps q (List.mem_append_left _ hq)]

/-! ### The keys of a `set` -/

lemma command_of_setKey {cmd : ServerCommand} {k : List Byte} (h : cmd.command.setKey = some k) :
    ∃ flags exptime casUnique noreply data, cmd = .update .set k flags exptime casUnique noreply data := by
  cases cmd with
  | update comm key flags exptime casUnique noreply data =>
    cases comm with
    | set =>
      obtain rfl : key = k := by simpa [ServerCommand.command, Command.setKey] using h
      exact ⟨flags, exptime, casUnique, noreply, data, rfl⟩
    | _ => simp [ServerCommand.command, Command.setKey] at h
  | _ => simp [ServerCommand.command, Command.setKey] at h

/-- A `set` changes what memcached holds for its key only, also when there is no room for the item. -/
lemma find_set {mem : ItemAlloc} {s : Server} {cmd : ServerCommand} {k k' : List Byte}
    (hset : cmd.command.setKey = some k) (hne : k' ≠ k) :
    (processCommand mem s cmd).1.store.find k' = s.store.find k' := by
  obtain ⟨flags, exptime, casUnique, noreply, data, rfl⟩ := command_of_setKey hset
  simp only [processCommand, processUpdateCommand]
  split
  · simp [Server.unlink, Store.forget, hne]
  · next it halloc =>
    have hkey := (mem.sound halloc).1
    simp [doStoreItem, Server.link, Store.set, hkey, hne]

lemma setKey_of_tcpSetKey {p : Packet} {k : List Byte} (h : tcpSetKey p = some k) :
    p.command.command.setKey = some k := by
  unfold tcpSetKey at h
  split_ifs at h
  exact h

/-- Memcached holds only keys that were set. -/
lemma set_of_find {ps : List Packet} (hps : ∀ p ∈ ps, InWorkload p) {k : List Byte} {it : Item}
    (hfind : (plainRun ps).store.find k = some it) : ∃ p ∈ ps, tcpSetKey p = some k := by
  induction ps using List.reverseRecOn with
  | nil => simp [plainRun, World.booted, Store.empty] at hfind
  | append_singleton ps p ih =>
    have hp := List.mem_append_right ps (List.mem_singleton_self p)
    have hbefore : (plainRun ps).store.find k = some it → ∃ q ∈ ps ++ [p], tcpSetKey q = some k := by
      intro hold
      obtain ⟨q, hq, hset⟩ := ih (fun q hq => hps q (List.mem_append_left _ hq)) hold
      exact ⟨q, List.mem_append_left _ hq, hset⟩
    rw [plainRun_concat] at hfind
    rcases (hps p hp).2 with ⟨ks, hget⟩ | ⟨k', hset⟩
    · rw [plainStep_get hget] at hfind
      exact hbefore hfind
    · by_cases hk : k = k'
      · exact ⟨p, hp, hk ▸ hset⟩
      · rw [plainStep_set hset, find_set (setKey_of_tcpSetKey hset) hk] at hfind
        exact hbefore hfind

/-! ### What the cache holds -/

lemma neverForged_of_concat {ps : List Packet} {p : Packet} (h : NeverForged (ps ++ [p])) :
    NeverForged ps := by
  intro done q rest hsplit
  apply h done q (rest ++ [p])
  rw [hsplit]
  simp

/-- The programs and memcached together keep the cache a part of what memcached holds. -/
lemma mirrors_step {p : Packet} (hp : Proper p) (hwork : InWorkload p) {w : World}
    (hlines : NoNewlines w.server.store) (hforged : NotForged w p) (h : Mirrors w.server.store w.kcache) :
    Mirrors (w.step p).server.store (w.step p).kcache := by
  have hserver := server_step hp hwork w
  obtain ⟨hlost, hcommand⟩ := hwork
  have hreceive : ∀ i, ((w.receive p).2.kcache i).valid = true → ∃ it, w.server.store.find it.key = some it ∧
      ((w.receive p).2.kcache i).block = it.block ∧ ((w.receive p).2.kcache i).hash = fnv1aHash32 it.key ∧
      slotOf it.key = i.val := by
    intro i hvalid
    have hsame := receive_valid hp w hvalid
    rw [hsame] at hvalid ⊢
    exact h i hvalid
  rcases hcommand with ⟨ks, hget⟩ | ⟨k, hset⟩
  · -- a request leaves the items as they are, and its reply shows only such items
    have hstore : (w.step p).server.store = w.server.store := by rw [hserver, plainStep_get hget]
    rw [hstore]
    unfold World.step
    dsimp only
    rw [hlost, forget_none]
    split_ifs with hpass
    · refine shows_transmit (P := fun it => w.server.store.find it.key = some it) _ ?_ hreceive
      have hframes := showsOnly_frames hp hforged (noNewlines_forget hlines p.lost)
        (P := fun it => w.server.store.find it.key = some it)
      rw [hlost, forget_none] at hframes
      exact hframes fun _ _ it hfind => hfind
    · exact hreceive
  · -- the slot of the key is invalid behind a `set`, and the reply goes out over TCP
    have ht := transport_of_tcpSetKey hset
    have hother : ∀ i, ((w.receive p).2.kcache i).valid = true →
        ∃ it, (w.step p).server.store.find it.key = some it ∧
        ((w.receive p).2.kcache i).block = it.block ∧ ((w.receive p).2.kcache i).hash = fnv1aHash32 it.key ∧
        slotOf it.key = i.val := by
      intro i hvalid
      obtain ⟨it, hfind, hblock, hhash, hslot⟩ := hreceive i hvalid
      refine ⟨it, ?_, hblock, hhash, hslot⟩
      rw [hserver, plainStep_set hset, find_set (setKey_of_tcpSetKey hset), hfind]
      rintro rfl
      have hcleared := receive_set hp w hset
      have hi : (⟨slotOf it.key, cacheIdx_lt _⟩ : Fin bmcCacheEntryCount) = i := Fin.ext hslot
      have hentry : (w.receive p).2.kcache i = (w.receive p).2.kcache.at (fnv1aHash32 it.key) := by
        rw [← hi]
        rfl
      rw [hentry, hcleared] at hvalid
      exact absurd hvalid Bool.false_ne_true
    revert hother
    generalize (w.step p).server.store = store
    intro hother
    unfold World.step
    dsimp only
    rw [if_pos (handled_tcp hp ht w), World.handle]
    refine shows_transmit (P := fun it => store.find it.key = some it) _ ?_ hother
    intro skb hmem hreply
    rw [mem_frames_tcp hp hmem ht] at hreply
    exact absurd hreply Bool.false_ne_true

lemma oneLine_of_proper {p : Packet} (hp : Proper p) {w : World} (hwork : InWorkload p)
    (h : NoNewlines w.server.store) :
    NoNewlines (w.step p).server.store := by
  rw [server_step hp hwork, plainStep]
  split_ifs
  · exact noNewlines_processCommand h hp.oneLine
  · exact h

lemma mirrors_run {ps : List Packet} (hps : ∀ p ∈ ps, Proper p ∧ InWorkload p) (hforged : NeverForged ps) :
    NoNewlines (World.booted.run ps).server.store ∧
      Mirrors (World.booted.run ps).server.store (World.booted.run ps).kcache := by
  induction ps using List.reverseRecOn with
  | nil => exact ⟨followed_booted.lines, fun i hvalid => absurd hvalid Bool.false_ne_true⟩
  | append_singleton ps p ih =>
    obtain ⟨hp, hwork⟩ := hps p (List.mem_append_right _ (List.mem_singleton_self p))
    obtain ⟨hlines, hmirrors⟩ :=
      ih (fun q hq => hps q (List.mem_append_left _ hq)) (neverForged_of_concat hforged)
    rw [run_concat]
    exact ⟨oneLine_of_proper hp hwork hlines, mirrors_step hp hwork hlines (hforged ps p [] rfl) hmirrors⟩

/-! ### Answers -/

/-- The items of an answer are a part of those memcached would send, in their order. -/
lemma passing_sublist (s : Store) {c : Cache} {ks : List (List Byte)}
    (hown : ∀ k ∈ ks, ∀ key, passingKey c k = some key → key = k) :
    ((ks.filterMap (passingKey c)).filterMap s.find).Sublist (ks.filterMap s.find) := by
  have hkeys : (ks.filterMap (passingKey c)).Sublist ks := by
    induction ks with
    | nil => exact List.Sublist.refl _
    | cons k ks ih =>
      have hrec := ih fun k' hk' => hown k' (List.mem_cons_of_mem k hk')
      cases hpass : passingKey c k with
      | none =>
        rw [List.filterMap_cons_none hpass]
        exact hrec.cons k
      | some key =>
        rw [List.filterMap_cons_some hpass, hown k List.mem_cons_self key hpass]
        exact hrec.cons_cons k
  exact hkeys.filterMap s.find

/-- An answer has at least one block. -/
lemma length_answer {env : Interference} {headroom frame : List Byte} {cpu : PerCpu} {c : Cache}
    (htx : (runXdp env headroom frame cpu c).1 = .tx) :
    getEnd.length < ((runXdp env headroom frame cpu c).2.ctx.pkt.drop headersLen).length := by
  obtain ⟨hframe, i, b, ks, -, -, -, hne, hpkt⟩ := runXdp_sent htx
  rw [hpkt, List.drop_left' (length_replyHeader hframe _), List.length_append]
  have hpos := List.length_pos_of_ne_nil hne
  have hend : getEnd.length = replyEnd.length := rfl
  omega

section Answers

variable {ps : List Packet} (hps : ∀ p ∈ ps, Proper p ∧ InWorkload p) (hforged : NeverForged ps) {p : Packet}
  (hp : Proper p) {ks : List (List Byte)} (hget : p.command = .get ks)

include hp hget in
lemma frame_get : ks ≠ [] ∧ (∀ k ∈ ks, IsKey k) ∧ p.frame = p.hdr ++ getLine ks := by
  have hne : ks ≠ [] := by
    have hsome := hp.some
    rw [hget] at hsome
    exact hsome
  refine ⟨hne, ?_, ?_⟩
  · intro k hk
    exact (hp.keys k (by rw [hget]; exact hk)).1
  · rw [Packet.frame, hget, bytes_get hne]

include hps hforged hp hget in
/-- An answer has blocks of items that memcached would send, in their order, and at least one. -/
lemma answer_of_workload (hcr : ∀ k ∈ ks, CR ∉ k)
    (hhash : ∀ q ∈ ps, ∀ k', tcpSetKey q = some k' → ∀ k ∈ ks, fnv1aHash32 k' = fnv1aHash32 k → k' = k)
    (htx : ((World.booted.run ps).receive p).1 = .tx) :
    ∃ its, its ≠ [] ∧ its.Sublist (ks.filterMap (plainRun ps).store.find) ∧
      ((World.booted.run ps).receive p).2.ctx.pkt.drop headersLen = replyText its := by
  have hhdr := hp.hdr
  rw [transport_of_tx hp _ htx] at hhdr
  obtain ⟨hne, hkeys, hframe⟩ := frame_get hp hget
  obtain ⟨-, hmirrors⟩ := mirrors_run hps hforged
  rw [server_run hps] at hmirrors
  have hown : ∀ k ∈ ks, ∀ key, passingKey (World.booted.run ps).kcache k = some key → key = k := by
    intro k hk key hpass
    obtain ⟨it, hfind⟩ := find_of_passingKey hmirrors hpass
    obtain ⟨q, hq, hset⟩ := set_of_find (fun q hq => (hps q hq).2) hfind
    exact hhash q hq key hset k hk (passingKey_eq_some_iff.mp hpass).2.1
  have hlong := length_answer htx
  simp only [World.receive, hframe] at htx hlong ⊢
  rw [answer_eq hmirrors hhdr.length hne hkeys htx, readWords_of_no_return hcr] at hlong ⊢
  refine ⟨_, ?_, passing_sublist (plainRun ps).store hown, rfl⟩
  intro hnil
  rw [hnil] at hlong
  exact absurd hlong (Nat.lt_irrefl _)

include hps hforged hp hget in
lemma answer_one (hone : ks.length = 1) (hcr : ∀ k ∈ ks, CR ∉ k)
    (hhash : ∀ q ∈ ps, ∀ k', tcpSetKey q = some k' → ∀ k ∈ ks, fnv1aHash32 k' = fnv1aHash32 k → k' = k)
    (htx : ((World.booted.run ps).receive p).1 = .tx) :
    ((World.booted.run ps).receive p).2.ctx.pkt.drop headersLen =
    processGetCommand (plainRun ps).store ks := by
  obtain ⟨its, hne, hsub, htext⟩ := answer_of_workload hps hforged hp hget hcr hhash htx
  have hle : (ks.filterMap (plainRun ps).store.find).length ≤ its.length := by
    have hpos := List.length_pos_of_ne_nil hne
    have hmap := List.length_filterMap_le (plainRun ps).store.find ks
    omega
  rw [htext, processGetCommand, hsub.eq_of_length_le hle]

end Answers

/-- Memcached is in the state it would be in without the cache. An answered request that memcached would
accept gets blocks of items that memcached would send, in their order and at least one; with one key it gets
memcached's reply. -/
theorem workload_refines {ps : List Packet} (hps : ∀ p ∈ ps, Proper p ∧ InWorkload p)
    (hforged : NeverForged ps) {p : Packet} (hp : Proper p) (haccepted : p.accepted = true)
    {ks : List (List Byte)} (hget : p.command = .get ks) (hcr : ∀ k ∈ ks, CR ∉ k)
    (hhash : ∀ q ∈ ps, ∀ k', tcpSetKey q = some k' → ∀ k ∈ ks, fnv1aHash32 k' = fnv1aHash32 k → k' = k) :
    (World.booted.run ps).server = plainRun ps ∧
      (((World.booted.run ps).receive p).1 = .tx → ∃ sent, plainReply (plainRun ps) p = some (.items sent) ∧
        (∃ its, its ≠ [] ∧ its.Sublist sent ∧
          ((World.booted.run ps).receive p).2.ctx.pkt.drop headersLen = replyText its) ∧
        (ks.length = 1 →
          ((World.booted.run ps).receive p).2.ctx.pkt.drop headersLen = (Reply.items sent).text)) := by
  refine ⟨server_run hps, fun htx => ⟨_, plainReply_get haccepted hget, ?_, fun hone => ?_⟩⟩
  · exact answer_of_workload hps hforged hp hget hcr hhash htx
  · exact answer_one hps hforged hp hget hone hcr hhash htx

/-! #### A request behind a `set` and a request -/

lemma sampleSet_inWorkload : Proper (samplePacket .tcp (sampleStore .set '5')) ∧
    InWorkload (samplePacket .tcp (sampleStore .set '5')) :=
  ⟨samplePacket_proper .tcp rfl (readable_sampleStore _ _) fun hmem =>
    absurd hmem (by decide), rfl, Or.inr ⟨cachedItem.key, rfl⟩⟩

lemma sampleGet_inWorkload : Proper sampleGet ∧ InWorkload sampleGet :=
  ⟨samplePacket_proper .udp rfl trivial trivial, rfl, Or.inl ⟨_, rfl⟩⟩

lemma sampleGet_accepted : sampleGet.accepted = true := by decide

lemma filledRun_inWorkload : ∀ p ∈ filledRun, Proper p ∧ InWorkload p := by
  intro p hp
  simp only [filledRun, List.mem_cons, List.not_mem_nil, or_false] at hp
  rcases hp with rfl | rfl
  · exact sampleSet_inWorkload
  · exact sampleGet_inWorkload

lemma filledRun_neverForged : NeverForged filledRun := by
  have hnone : NeverForged [] := by
    intro done q rest hsplit
    simp at hsplit
  have hset : NeverForged [samplePacket .tcp (sampleStore .set '5')] :=
    neverForged_concat hnone (notForged_sampleStore World.booted .tcp .set '5')
  refine neverForged_concat hset (notForged_sampleGet ?_)
  rw [server_run fun p hp => filledRun_inWorkload p (List.mem_cons.mpr (Or.inl (List.mem_singleton.mp hp)))]
  decide +kernel

lemma filledRun_sets {q : Packet} (hq : q ∈ filledRun) {k' : List Byte} (hset : tcpSetKey q = some k') :
    k' = cachedItem.key := by
  simp only [filledRun, List.mem_cons, List.not_mem_nil, or_false] at hq
  rcases hq with rfl | rfl
  · exact (Option.some.inj hset).symm
  · have hnone : tcpSetKey sampleGet = none := rfl
    rw [hnone] at hset
    exact absurd hset (by simp)

lemma cachedItem_noReturn : CR ∉ cachedItem.key := by decide

theorem filledRun_refined : ((World.booted.run filledRun).receive sampleGet).1 = .tx ∧
    (plainReply (plainRun filledRun) sampleGet).map Reply.text =
      some (((World.booted.run filledRun).receive sampleGet).2.ctx.pkt.drop headersLen) := by
  have htx : ((World.booted.run filledRun).receive sampleGet).1 = .tx := by decide +kernel
  obtain ⟨-, hanswer⟩ :=
    workload_refines filledRun_inWorkload filledRun_neverForged sampleGet_inWorkload.1 sampleGet_accepted rfl
    (fun k hk => List.mem_singleton.mp hk ▸ cachedItem_noReturn)
    (fun q hq k' hset k hk _ => (filledRun_sets hq hset).trans (List.mem_singleton.mp hk).symm)
  obtain ⟨sent, hsent, -, htext⟩ := hanswer htx
  rw [hsent, htext rfl]
  exact ⟨htx, rfl⟩

/-! ### A key that stays cached -/

/-- A frame that goes out invalidates no entry, and one that is taken for a complete reply leaves a valid
entry in its slot. -/
lemma valid_txFilter (skb : SkBuff) (stats : BmcStats) {c : Cache} {i : Fin bmcCacheEntryCount}
    (h : (c i).valid = true ∨ isGetReply skb = true ∧ CompleteReply (SkBuff.payload skb) ∧
      cacheIdx (replyHash (SkBuff.payload skb)) = i.val) :
    ((bmcTxFilterMain skb stats c).kcache i).valid = true := by
  by_cases hreply : isGetReply skb = true
  · rw [txFilter_reply hreply]
    generalize SkBuff.payload skb = payload at *
    rw [Cache.store_apply]
    by_cases hi : i.val = cacheIdx (replyHash payload)
    · rw [if_pos hi]
      have hslot : c.at (replyHash payload) = c i := congrArg c (Fin.ext hi.symm)
      rw [hslot]
      by_cases hup : upToDate (c i) (replyHash payload) payload = true
      · rw [updateEntry_upToDate hup]
        simp only [upToDate, Bool.and_eq_true] at hup
        exact hup.1.1
      rw [Bool.not_eq_true] at hup
      by_cases hcomplete : CompleteReply payload
      · exact (updateEntry_complete hup hcomplete).1
      · rw [(updateEntry_aborted hup hcomplete).1]
        exact h.resolve_right fun hfull => hcomplete hfull.2.1
    · rw [if_neg hi]
      exact h.resolve_right fun hfull => hi hfull.2.2.symm
  · rw [txFilter_other (Bool.not_eq_true _ ▸ hreply)]
    exact h.resolve_right fun hfull => hreply hfull.1

lemma valid_transmit {cpu : ℕ} {i : Fin bmcCacheEntryCount} (skbs : List SkBuff) {w : World}
    (h : (w.kcache i).valid = true ∨ ∃ skb ∈ skbs, isGetReply skb = true ∧
      CompleteReply (SkBuff.payload skb) ∧
      cacheIdx (replyHash (SkBuff.payload skb)) = i.val) :
    ((skbs.foldl (fun w skb => w.transmit cpu skb) w).kcache i).valid = true := by
  induction skbs generalizing w with
  | nil => simpa using h
  | cons skb skbs ih =>
    rw [List.foldl_cons]
    apply ih
    rcases h with hvalid | ⟨skb', hmem, hfull⟩
    · exact Or.inl (valid_txFilter skb _ (Or.inl hvalid))
    · rcases List.mem_cons.mp hmem with rfl | hmem
      · exact Or.inl (valid_txFilter skb' _ (Or.inr hfull))
      · exact Or.inr ⟨skb', hmem, hfull⟩

/-- A packet invalidates only slots of words that a segment has. -/
lemma valid_receive {p : Packet} (hp : Proper p) {w : World} {i : Fin bmcCacheEntryCount}
    (hslot : p.transport = .tcp → i ∉ frameSlots p.frame) (hvalid : (w.kcache i).valid = true) :
    ((w.receive p).2.kcache i).valid = true := by
  cases ht : p.transport with
  | tcp =>
    have hhdr := hp.hdr
    rw [ht] at hhdr
    obtain ⟨hdr, options, hsplit, hhdr, -⟩ := hhdr
    simp only [World.receive, Packet.frame] at hslot ⊢
    have hno := hslot ht
    rw [hsplit, List.append_assoc] at hno ⊢
    rw [frameSlots_append hhdr] at hno
    rw [runXdp_tcp_kcache hhdr, valid_clearSlots]
    exact ⟨hvalid, hno⟩
  | udp =>
    rw [receive_udp hp w ht]
    exact hvalid

lemma valid_step {p : Packet} (hp : Proper p) {w : World} {i : Fin bmcCacheEntryCount}
    (hslot : p.transport = .tcp → i ∉ frameSlots p.frame) (hvalid : (w.kcache i).valid = true) :
    ((w.step p).kcache i).valid = true := by
  unfold World.step
  dsimp only
  split_ifs
  · exact valid_transmit _ (Or.inl (valid_receive hp hslot hvalid))
  · exact valid_receive hp hslot hvalid

/-- The reply with a short item is one datagram. -/
lemma exists_frame {p : Packet} (hp : Proper p) (hudp : p.transport = .udp) {ks : List (List Byte)}
    (hget : p.command = .get ks) {it : Item} (hlen : (replyText [it]).length ≤ bmcMaxCacheDataSize) :
    ∃ skb ∈ p.frames (.items [it]), IsReplyFrame skb ∧ SkBuff.payload skb = replyText [it] := by
  have hlim := limits
  have hsizes := udpSizes
  obtain ⟨full, hcut, -⟩ := getDatagrams_cut (be16At p.hdr (headersLen - udpHeaderSize)) [it]
  have hlast : lastPart [it] = replyText [it] := by
    rw [lastPart, lastStart, Nat.div_eq_of_lt (by omega), Nat.mul_zero, List.drop_zero]
  have hmem : replyText [it] ∈ (getDatagrams (be16At p.hdr (headersLen - udpHeaderSize)) [it]).map
      (List.drop udpHeaderSize) := by
    rw [hcut, hlast]
    exact List.mem_append_right _ (List.mem_singleton_self _)
  obtain ⟨d, hd, htext⟩ := List.mem_map.mp hmem
  obtain ⟨i, hi, rfl⟩ := List.getElem_of_mem hd
  have hframe : ⟨p.replyHdr i ++ (getDatagrams (be16At p.hdr (headersLen - udpHeaderSize)) [it])[i], _,
      Nat.le_refl _⟩ ∈
      p.frames (.items [it]) := by
    have hreply : p.command.isNoreply = false := by
      rw [hget]
      rfl
    rw [Packet.frames, hreply, if_neg Bool.false_ne_true, hudp]
    exact List.mem_mapIdx.mpr ⟨i, hi, rfl⟩
  refine ⟨_, hframe, (mem_frames_udp hp hframe hudp).1, ?_⟩
  have hhdr := hp.replyHdr i
  rw [hudp] at hhdr
  rw [payload_eq_drop_datagram, datagram, List.drop_left' hhdr.length, htext]

/-- Memcached's reply to a request for one key leaves a valid entry in the slot of the key. -/
lemma valid_filled {p : Packet} (hp : Proper p) (hudp : p.transport = .udp) {k : List Byte}
    (hget : p.command = .get [k]) (hlost : p.lost = fun _ => false) {w : World}
    (hpass : (w.receive p).1 = .pass ∧ (w.receive p).2.ctx.pkt = p.frame ∧ p.accepted = true)
    {it : Item} (hfind : w.server.store.find k = some it)
    (hlen : (replyText [it]).length ≤ bmcMaxCacheDataSize) :
    ((w.step p).kcache.at (fnv1aHash32 k)).valid = true := by
  obtain ⟨skb, hmem, hskb, hpayload⟩ := exists_frame hp hudp hget hlen
  have hkey : it.key = k := w.server.store.key_of_find hfind
  have hreply : isGetReply skb = true := by
    rw [isGetReply_iff hskb, hpayload]
    refine ⟨hlen, ?_⟩
    rw [replyText_one]
    exact isValue_of_hasKey (hasKey_block it getEnd)
  have hcomplete : CompleteReply (SkBuff.payload skb) := by
    unfold CompleteReply
    rw [hpayload, List.take_of_length_le hlen, replyText_one, List.countP_append]
    exact Nat.le_add_right_of_le (two_le_countP_block it)
  have hhash : replyHash (SkBuff.payload skb) = fnv1aHash32 k := by
    rw [hpayload, replyText_one, replyHash_eq, keyField_of_hasKey (hasKey_block it getEnd), hkey]
  have hitems : (processCommand p.mem w.server p.command).2 = .items [it] := by
    rw [hget, processCommand, List.filterMap_cons_some hfind, List.filterMap_nil]
  unfold World.step
  dsimp only
  rw [if_pos hpass, hlost, forget_none, World.handle, hitems]
  refine valid_transmit _ (Or.inr ⟨skb, hmem, hreply, hcomplete, ?_⟩)
  rw [hhash]

section Warm

variable {w : World} {k : List Byte} {it : Item}

/-- Memcached holds the item, and the slot of the key has a valid entry. -/
def Warm (w : World) (k : List Byte) (it : Item) : Prop :=
  w.server.store.find k = some it ∧ (w.kcache.at (fnv1aHash32 k)).valid = true

/-- A packet keeps a key warm unless it is a segment with a word of the slot. -/
lemma warm_step {p : Packet} (hp : Proper p) (hwork : InWorkload p) (h : Warm w k it)
    (hslot : p.transport = .tcp → ⟨slotOf k, cacheIdx_lt _⟩ ∉ frameSlots p.frame) : Warm (w.step p) k it := by
  obtain ⟨hfind, hvalid⟩ := h
  refine ⟨?_, valid_step hp hslot hvalid⟩
  rw [server_step hp hwork]
  rcases hwork.2 with ⟨ks, hget⟩ | ⟨k', hset⟩
  · rw [plainStep_get hget]
    exact hfind
  · have hne : k ≠ k' := by
      rintro rfl
      have hcleared := receive_set hp w hset
      have hkept := valid_receive hp hslot hvalid
      exact absurd (hkept.symm.trans hcleared) (by decide)
    rw [plainStep_set hset, find_set (setKey_of_tcpSetKey hset) hne]
    exact hfind

lemma warm_run {rest : List Packet} (hrest : ∀ p ∈ rest, Proper p ∧ InWorkload p) (h : Warm w k it)
    (hslot : ∀ p ∈ rest, p.transport = .tcp → ⟨slotOf k, cacheIdx_lt _⟩ ∉ frameSlots p.frame) :
    Warm (w.run rest) k it := by
  induction rest generalizing w with
  | nil => exact h
  | cons p rest ih =>
    obtain ⟨hp, hwork⟩ := hrest p List.mem_cons_self
    rw [World.run, List.foldl_cons]
    exact ih (fun q hq => hrest q (List.mem_cons_of_mem p hq))
      (warm_step hp hwork h (hslot p List.mem_cons_self)) fun q hq => hslot q (List.mem_cons_of_mem p hq)

/-- A request for a key whose block is in the cache is answered if the block fits. -/
lemma tx_of_cached {hdr headroom : List Byte} (hhdr : IsUdpHeader hdr) (hk : RequestKey k)
    (hlong : 12 ≤ k.length) (hroom : adjustHeadLen ≤ headroom.length) {c : Cache}
    (hvalid : (c.at (fnv1aHash32 k)).valid = true) (hhash : (c.at (fnv1aHash32 k)).hash = fnv1aHash32 k)
    (hkey : it.key = k) (hblock : (c.at (fnv1aHash32 k)).block = it.block)
    (hfits : it.block.length + 5 ≤ adjustHeadLen + (requestLine 1 [k]).length) (cpu : PerCpu) :
    (runXdp Interference.quiet headroom (hdr ++ requestLine 1 [k]) cpu c).1 = .tx := by
  have hsz := sizes
  have hlim := limits
  have hstart := (startsParser_one_iff hhdr hk).mpr hlong
  have hbody := keyBytes_one hhdr hk
  have hword : keyWord (k ++ CR :: [LF]) = k := keyWord_append hk.1.2 hk.2 rfl
  have htext : valueText ++ (k ++ [SP]) <+: (c.at (fnv1aHash32 k)).block := by
    rw [hblock, ← hkey, ← List.append_nil it.block]
    exact (hasKey_block it []).2.2.2
  have hlooks : looksCached c k = true := by
    rw [looksCached, hvalid, hhash]
    simp
  have hparsed : ParsedAt (fun _ => c) 1 [] (k ++ CR :: [LF]) [k] 0 (k ++ CR :: [LF]) := by
    refine ⟨?_, (endsLine_append CR hword).mpr rfl, by simp [savedKeys], ?_, by simp⟩
    · rw [ProperKey, hword]
      exact hk.1
    · rw [savedKeys_one, hword, savedNext, if_pos hlooks]
      rfl
  have hblocks : blocks (fun _ => c) 3 [k] = it.block := by
    rw [blocks, blocks, cachedBlock_of_text hvalid hhash htext, List.append_nil, hblock]
  have hne : it.block ≠ [] := by simp [Item.block, ascii]
  have hlen : (hdr ++ requestLine 1 [k]).length = headersLen + (requestLine 1 [k]).length := by
    rw [List.length_append, hhdr.length]
  have hout := outcome_prepared (i := 0) hstart hroom (by rw [hbody]; rfl)
    (by rw [hbody]; exact hparsed) (by decide)
  rw [if_neg (by simp [blocks]; omega), hblocks, if_neg hne, if_pos (by omega)] at hout
  have hrun := runXdp_outcome Interference.quiet headroom (hdr ++ requestLine 1 [k]) cpu c
  rw [seen_quiet, hout] at hrun
  exact hrun.1

end Warm

/-- Once memcached has answered a request for a key over UDP, the cache answers the next requests for it
with memcached's reply, until a segment has a word of the slot behind a `set`. -/
theorem warm_key_served {ps rest : List Packet} {p q : Packet} {k : List Byte} {it : Item}
    (hps : ∀ r ∈ ps ++ p :: rest, Proper r ∧ InWorkload r) (hforged : NeverForged (ps ++ p :: rest))
    (hslots : ∀ r ∈ ps ++ p :: rest, ∀ k', tcpSetKey r = some k' → slotOf k' = slotOf k → k' = k)
    (hudp : p.transport = .udp) (hget : p.command = .get [k])
    (hpass : ((World.booted.run ps).receive p).1 = .pass ∧
      ((World.booted.run ps).receive p).2.ctx.pkt = p.frame ∧
      p.accepted = true)
    (hfind : (plainRun ps).store.find k = some it)
    (hrest : ∀ r ∈ rest, r.transport = .tcp → ⟨slotOf k, cacheIdx_lt _⟩ ∉ frameSlots r.frame)
    (hq : Proper q) (hqaccepted : q.accepted = true) (hqudp : q.transport = .udp)
    (hqget : q.command = .get [k]) (hcr : CR ∉ k) (hlong : 12 ≤ k.length)
    (hroom : adjustHeadLen ≤ q.headroom.length)
    (hfits : it.block.length + 5 ≤ adjustHeadLen + q.command.bytes.length) :
    ((World.booted.run (ps ++ p :: rest)).receive q).1 = .tx ∧
      (plainReply (plainRun (ps ++ p :: rest)) q).map Reply.text =
        some (((World.booted.run (ps ++ p :: rest)).receive q).2.ctx.pkt.drop headersLen) := by
  have hlim := limits
  have hkey : IsKey k := (hq.keys k (by rw [hqget]; exact List.mem_singleton_self k)).1
  have hrequest : RequestKey k := by
    refine ⟨⟨hkey.pos, hkey.le⟩, fun b hb => ?_⟩
    have hsp : b ≠ SP := fun heq => hkey.noSpace (heq ▸ hb)
    have hnocr : b ≠ CR := fun heq => hcr (heq ▸ hb)
    simp [isKeyByte, hsp, hnocr]
  have hbytes : q.command.bytes = requestLine 1 [k] := by
    rw [hqget, bytes_get (List.cons_ne_nil k [])]
    rfl
  rw [hbytes] at hfits
  have hshort : (replyText [it]).length ≤ bmcMaxCacheDataSize := by
    have hle : k.length ≤ 250 := hkey.le
    have hend : getEnd.length = 5 := rfl
    have hline : (requestLine 1 [k]).length = k.length + 6 := by
      simp only [requestLine, keyLine, crlf, ascii, List.length_append, List.length_map, List.length_cons,
        List.length_nil, List.length_replicate]
      omega
    rw [replyText_one, List.length_append]
    have hsz := sizes
    omega
  -- the reply to `p` leaves the key warm, and the packets behind it keep it so
  have hpsfirst : ∀ r ∈ ps, Proper r ∧ InWorkload r := fun r hr => hps r (List.mem_append_left _ hr)
  obtain ⟨hp, hwork⟩ := hps p (List.mem_append_right _ List.mem_cons_self)
  rw [← server_run hpsfirst] at hfind
  have hfilled : Warm ((World.booted.run ps).step p) k it := by
    refine ⟨?_, valid_filled hp hudp hget hwork.1 hpass hfind hshort⟩
    rw [server_step hp hwork, plainStep_get hget]
    exact hfind
  have hrun : World.booted.run (ps ++ p :: rest) = ((World.booted.run ps).step p).run rest := by
    rw [World.run, List.foldl_append, List.foldl_cons]
    rfl
  have hwarm : Warm (World.booted.run (ps ++ p :: rest)) k it := by
    rw [hrun]
    refine warm_run (fun r hr => ?_) hfilled hrest
    exact hps r (List.mem_append_right _ (List.mem_cons_of_mem p hr))
  -- what is in the slot is the item
  obtain ⟨-, hmirrors⟩ := mirrors_run hps hforged
  obtain ⟨it', hheld, hblock, hhash, hslot⟩ := hmirrors _ hwarm.2
  have hown : it'.key = k := by
    rw [server_run hps] at hheld
    obtain ⟨r, hr, hset⟩ := set_of_find (fun r hr => (hps r hr).2) hheld
    exact hslots r hr _ hset hslot
  have hsame : it' = it := by
    rw [hown, hwarm.1] at hheld
    exact (Option.some.inj hheld).symm
  subst hsame
  rw [hown] at hhash
  have hhdr := hq.hdr
  rw [hqudp] at hhdr
  have htx : ((World.booted.run (ps ++ p :: rest)).receive q).1 = .tx := by
    rw [World.receive, Packet.frame, hbytes]
    exact tx_of_cached hhdr hrequest hlong hroom hwarm.2 hhash hown hblock hfits _
  refine ⟨htx, ?_⟩
  rw [plainReply_get hqaccepted hqget, answer_one hps hforged hq hqget rfl ?_ ?_ htx]
  · rfl
  · intro k' hk'
    rw [List.mem_singleton.mp hk']
    exact hcr
  · intro r hr k' hset k'' hk'' hhash'
    rw [List.mem_singleton.mp hk''] at hhash' ⊢
    exact hslots r hr k' hset (congrArg cacheIdx hhash')

theorem sampleGet_warm : ((World.booted.run filledRun).receive sampleGet).1 = .tx ∧
    (plainReply (plainRun filledRun) sampleGet).map Reply.text =
      some (((World.booted.run filledRun).receive sampleGet).2.ctx.pkt.drop headersLen) := by
  have hpass : ((World.booted.run [samplePacket .tcp (sampleStore .set '5')]).receive sampleGet).1 = .pass ∧
      ((World.booted.run [samplePacket .tcp (sampleStore .set '5')]).receive sampleGet).2.ctx.pkt =
      sampleGet.frame ∧
      sampleGet.accepted = true := by
    decide +kernel
  have hfind : (plainRun [samplePacket .tcp (sampleStore .set '5')]).store.find cachedItem.key =
      some (Item.inOneBuffer cachedItem.key 0 (ascii ['5']) cachedItem.isKey zero_flags_lt) := by
    decide +kernel
  have hsplit : filledRun = [samplePacket .tcp (sampleStore .set '5')] ++ sampleGet :: [] := rfl
  have hwork := filledRun_inWorkload
  have hforged := filledRun_neverForged
  have hsets : ∀ r ∈ filledRun, ∀ k', tcpSetKey r = some k' → slotOf k' = slotOf cachedItem.key →
      k' = cachedItem.key :=
    fun r hr k' hset _ => filledRun_sets hr hset
  rw [hsplit] at hwork hforged hsets ⊢
  refine warm_key_served hwork hforged hsets rfl rfl hpass hfind ?_ sampleGet_inWorkload.1 sampleGet_accepted
    rfl rfl cachedItem_noReturn ?_ ?_ ?_
  · intro r hr
    exact absurd hr List.not_mem_nil
  all_goals decide +kernel

end BmcCache.Proofs
