import BmcCache.Model.Server
import BmcCache.Proofs.Filling
import BmcCache.Proofs.Filters
import BmcCache.Proofs.Streams

/-!
# Which commands the cache follows

Runs in which each packet is handled to its end before the next one. The scanner looks for `set` in
TCP segments only; the other commands, and all commands over UDP, change memcached's items behind
the cache. Every item the cache shows is one that memcached has held since the last `set` of its
key over TCP.
-/

namespace BmcCache.Proofs

open Buffer Segments

/-! ### Packets -/

/-- The key of a `set` that comes over TCP. -/
def tcpSetKey (p : Packet) : Option (List Byte) :=
  if p.transport = .tcp then p.command.command.setKey else none

/-- The data block of a command has no newline. -/
def OneLine : ServerCommand → Prop
  | .update _ _ _ _ _ _ data => LF ∉ data
  | _ => True

/-- The packet has the headers of its transport and so have the frames of its reply. The keys are
words to memcached and to the scanner, the numbers of the line can be read, no `set` text starts in the
TCP options in front of a `set`, and the values have no newline. -/
structure Proper (p : Packet) : Prop where
  hdr : match p.transport with
    | .udp => IsUdpHeader p.hdr
    | .tcp => ∃ hdr options, p.hdr = hdr ++ options ∧ IsTcpHeader hdr ∧ options.length ≤ 40 ∧
        (p.command.command.setKey ≠ none → NoSetIn options p.command.bytes)
  replyHdr : ∀ i, match p.transport with
    | .udp => IsReplyHeader (p.replyHdr i)
    | .tcp => ethHlen + sizeofIphdr ≤ (p.replyHdr i).length ∧ byteAt (p.replyHdr i) (ethHlen + 9) = ipprotoTcp
  keys : ∀ k ∈ p.command.keys, IsKey k ∧ 0 ∉ k ∧ k.head? ≠ some CR
  some : p.command.keys ≠ []
  readable : p.command.Readable
  oneLine : OneLine p.command

/-- No block of memcached's reply to the packet is cut in front of bytes that look like a reply. -/
def NotForged (w : World) (p : Packet) : Prop :=
  ∀ ks, p.command = .get ks → ∀ its, its = ks.filterMap (w.server.store.forget p.lost).find → CutsInside its →
    isValue (lastPart its) = false

/-! ### Values without newlines -/

def NoNewlines (s : Store) : Prop := ∀ k it, s.find k = some it → LF ∉ it.value

section Lines

variable {mem : ItemAlloc} {s : Server}

lemma noNewlines_forget {s : Store} (h : NoNewlines s) (lost : List Byte → Bool) :
    NoNewlines (s.forget lost) := by
  intro k it hfind
  simp only [Store.forget] at hfind
  split_ifs at hfind
  exact h k it hfind

lemma noNewlines_link (h : NoNewlines s.store) {it : Item} (hit : LF ∉ it.value) :
    NoNewlines (s.link it).store := by
  intro k it' hfind
  simp only [Server.link, Store.set] at hfind
  split_ifs at hfind
  · rw [← Option.some.inj hfind]
    exact hit
  · exact h k it' hfind

lemma noNewlines_storeJoined (h : NoNewlines s.store) {old : Item} {value : List Byte} (hvalue : LF ∉ value) :
    NoNewlines (storeJoined mem s old value).1.store := by
  unfold storeJoined
  split
  · exact h
  · next it halloc => exact noNewlines_link h ((mem.sound halloc).2.2 ▸ hvalue)

lemma noNewlines_doStoreItem (h : NoNewlines s.store) {it : Item} (hit : LF ∉ it.value) (comm : StorageVerb)
    (reqCas : ℕ) : NoNewlines (doStoreItem mem s it comm reqCas).1.store := by
  have hlink := noNewlines_link h hit
  unfold doStoreItem
  split
  all_goals try exact h
  all_goals try exact hlink
  · split_ifs
    · exact hlink
    · exact h
  · next old hold =>
    apply noNewlines_storeJoined h
    rw [List.mem_append, not_or]
    exact ⟨h _ old hold, hit⟩
  · next old hold =>
    apply noNewlines_storeJoined h
    rw [List.mem_append, not_or]
    exact ⟨hit, h _ old hold⟩

lemma noNewlines_doAddDelta (h : NoNewlines s.store) (key : List Byte) (incr : Bool) (delta : ℕ) :
    NoNewlines (doAddDelta mem s key incr delta).1.store := by
  unfold doAddDelta
  split
  · exact h
  · next it hfind =>
    by_cases hbad : it.value = [] ∨ it.chunks.length ≠ 1
    · rw [if_pos hbad]
      exact h
    rw [if_neg hbad]
    cases safeStrtoull (it.value ++ crlf ++ mem.behind key) with
    | none => exact h
    | some value =>
      dsimp only
      generalize (if incr then (value + delta) % 2 ^ 64 else value - delta) = n
      have hbuf : LF ∉ itoaU64 n := lf_not_mem_itoaU32 n
      by_cases hfits : (itoaU64 n).length ≤ it.value.length
      · rw [if_pos hfits]
        apply noNewlines_link h
        simp only [Item.overwritten, Item.inOneBuffer, List.mem_append, not_or, List.mem_replicate, not_and]
        exact ⟨hbuf, fun _ => sp_ne_lf.symm⟩
      · rw [if_neg hfits]
        split
        · exact h
        · next it' halloc => exact noNewlines_link h ((mem.sound halloc).2.2 ▸ hbuf)

lemma noNewlines_processCommand (h : NoNewlines s.store) {cmd : ServerCommand} (hcmd : OneLine cmd) :
    NoNewlines (processCommand mem s cmd).1.store := by
  cases cmd with
  | get ks => exact h
  | update comm key flags exptime casUnique noreply data =>
    simp only [processCommand, processUpdateCommand]
    split
    · dsimp only
      split_ifs
      · exact noNewlines_forget h _
      · exact h
    · next it halloc =>
      exact noNewlines_doStoreItem h ((mem.sound halloc).2.2 ▸ hcmd) comm _
  | arithmetic incr key delta noreply => exact noNewlines_doAddDelta h key incr delta
  | delete key noreply =>
    simp only [processCommand, processDeleteCommand]
    split
    · exact noNewlines_forget h _
    · exact h

end Lines

/-! ### The ingress programs -/

lemma mem_keys_of_setKey {cmd : ServerCommand} {k : List Byte} (h : cmd.command.setKey = some k) :
    k ∈ cmd.keys := by
  cases cmd with
  | update comm key flags exptime casUnique noreply data =>
    cases comm with
    | set =>
      obtain rfl : key = k := by simpa [ServerCommand.command, Command.setKey] using h
      exact List.mem_singleton_self key
    | _ => simp [ServerCommand.command, Command.setKey] at h
  | _ => simp [ServerCommand.command, Command.setKey] at h

lemma noSetIn_of_isPrefix {o l l' : List Byte} (h : NoSetIn o l) (hl : l' <+: l) : NoSetIn o l' := by
  intro suffix hne hsuffix hset
  exact h suffix hne hsuffix (hset.trans ((List.prefix_append_right_inj suffix).mpr hl))

/-- The scanner does not come to the end of a segment before it has read the key of a `set`. -/
lemma readsWord_take {options key rest : List Byte} (hoptions : options.length ≤ 40) (hkey : IsKey key)
    (hcr : key.head? ≠ some CR) (hno : NoSetIn options (setText ++ SP :: (key ++ SP :: rest))) :
    ReadsWord ((options ++ (setText ++ SP :: (key ++ SP :: rest))).take bmcMaxPacketLength) key := by
  have hlim := limits
  have hle : key.length ≤ 250 := hkey.le
  obtain ⟨n, hn⟩ : ∃ n, bmcMaxPacketLength = (options ++ (setText ++ SP :: (key ++ [SP]))).length + n := by
    apply Nat.exists_eq_add_of_le
    simp only [List.length_append, List.length_cons, List.length_nil, setText, ascii, List.length_map]
    omega
  have hsplit : options ++ (setText ++ SP :: (key ++ SP :: rest)) =
      options ++ (setText ++ SP :: (key ++ [SP])) ++ rest := by simp
  have htake : (options ++ (setText ++ SP :: (key ++ SP :: rest))).take bmcMaxPacketLength =
      options ++ (setText ++ SP :: (key ++ SP :: rest.take n)) := by
    rw [hsplit, hn, List.take_length_add_append]
    simp
  have hshort : setText ++ SP :: (key ++ SP :: rest.take n) <+: setText ++ SP :: (key ++ SP :: rest) := by
    refine ⟨rest.drop n, ?_⟩
    simp
  rw [htake, readsWord_behind (noSetIn_of_isPrefix hno hshort)]
  exact ⟨_, _, .here _, readOn_set hkey.pos ⟨hkey.noSpace, hcr⟩⟩

section Ingress

variable {p : Packet} (hp : Proper p) (w : World)

include hp

/-- A datagram leaves the cache as it is. -/
lemma receive_udp (ht : p.transport = .udp) : (w.receive p).2.kcache = w.kcache := by
  have hhdr := hp.hdr
  rw [ht] at hhdr
  have hudp : ¬TakenForSet (p.hdr ++ p.command.bytes) := by
    rintro ⟨htcp, -⟩
    have hsz := sizes
    have hproto := htcp.protocol
    have hlen := hhdr.length
    rw [byteAt_take (by omega), byteAt_append (by omega), hhdr.protocol] at hproto
    exact absurd hproto (by decide)
  obtain ⟨n, hsame⟩ := runXdp_kcache hudp Interference.quiet p.headroom (w.cpus p.cpu) w.kcache
  simp only [World.receive, Packet.frame]
  rw [hsame, seen_quiet]

/-- A frame of TCP is handed over as it is. -/
lemma receive_tcp (ht : p.transport = .tcp) :
    (w.receive p).1 = .pass ∧ (w.receive p).2.ctx.pkt = p.frame := by
  have hhdr := hp.hdr
  rw [ht] at hhdr
  obtain ⟨hdr, options, hsplit, hhdr, -⟩ := hhdr
  have hsz := sizes
  have hlen := hhdr.length
  have hproto : byteAt p.frame (ethHlen + 9) = ipprotoTcp := by
    rw [Packet.frame, hsplit, List.append_assoc, byteAt_append (by omega), hhdr.protocol]
  have hother : (ipprotoTcp == ipprotoUdp) = false := rfl
  have hget : isGetFrame p.frame = false := by simp [isGetFrame, hproto, hother]
  have hstart : ¬StartsParser p.frame := by
    rintro ⟨hframe, -⟩
    rw [hget] at hframe
    exact absurd hframe Bool.false_ne_true
  have hout := runXdp_outcome Interference.quiet p.headroom p.frame (w.cpus p.cpu) w.kcache
  rw [outcome, if_neg hstart] at hout
  exact ⟨hout.1, hout.2.2⟩

/-- Only requests over UDP are answered. -/
lemma transport_of_tx (htx : (w.receive p).1 = .tx) : p.transport = .udp := by
  cases ht : p.transport with
  | udp => rfl
  | tcp =>
    rw [(receive_tcp hp w ht).1] at htx
    exact absurd htx (by decide)

/-- Where an entry is valid afterwards, it has not been touched. -/
lemma receive_valid {i : Fin bmcCacheEntryCount} (hvalid : ((w.receive p).2.kcache i).valid = true) :
    (w.receive p).2.kcache i = w.kcache i := by
  cases ht : p.transport with
  | tcp =>
    have hhdr := hp.hdr
    rw [ht] at hhdr
    obtain ⟨hdr, options, hsplit, hhdr, -⟩ := hhdr
    simp only [World.receive, Packet.frame] at hvalid ⊢
    rw [hsplit, List.append_assoc] at hvalid ⊢
    rw [runXdp_tcp_kcache hhdr] at hvalid ⊢
    exact clearSlots_of_notMem (valid_clearSlots.mp hvalid).2
  | udp => exact congrFun (receive_udp hp w ht) i

/-- A `set` over TCP invalidates the slot of its key. -/
lemma receive_set {k : List Byte} (hset : tcpSetKey p = some k) :
    ((w.receive p).2.kcache.at (fnv1aHash32 k)).valid = false := by
  have hhdr := hp.hdr
  unfold tcpSetKey at hset
  split_ifs at hset with ht
  rw [ht] at hhdr
  obtain ⟨hdr, options, hsplit, hhdr, hoptions, hno⟩ := hhdr
  obtain ⟨rest, hbytes⟩ := setKey_bytes hset
  obtain ⟨hkey, -, hcr⟩ := hp.keys k (mem_keys_of_setKey hset)
  have hno' := hno (hset ▸ Option.some_ne_none k)
  rw [ServerCommand.bytes, hbytes] at hno'
  have hreads := readsWord_take hoptions hkey hcr hno'
  rw [← Bool.not_eq_true]
  simp only [World.receive, Packet.frame, ServerCommand.bytes, hsplit, List.append_assoc]
  rw [runXdp_tcp_kcache hhdr, Cache.at, valid_clearSlots, hbytes]
  rintro ⟨-, hslot⟩
  exact hslot ⟨k, hreads, rfl⟩

end Ingress

/-! ### What the cache shows -/

/-- The cache holds blocks of items of which `P` holds, each in the slot of its key. -/
def Shows (P : Item → Prop) (c : Cache) : Prop :=
  ∀ i, (c i).valid = true → ∃ it, P it ∧ (c i).block = it.block ∧ (c i).hash = fnv1aHash32 it.key ∧
    slotOf it.key = i.val

/-- The items that a cache shows make a store. -/
lemma exists_mirrors {P : Item → Prop} {c : Cache} (h : Shows P c) :
    ∃ s : Store, Mirrors s c ∧ ∀ k it, s.find k = some it → P it := by
  classical
  choose item hitem using h
  let slot : List Byte → Fin bmcCacheEntryCount := fun k => ⟨slotOf k, cacheIdx_lt _⟩
  let find : List Byte → Option Item := fun k =>
    if hvalid : (c (slot k)).valid = true then
      if (item (slot k) hvalid).key = k then some (item (slot k) hvalid) else none
    else none
  have hfind : ∀ k it, find k = some it → ∃ i hvalid, item i hvalid = it ∧ it.key = k := by
    intro k it hk
    simp only [find] at hk
    split_ifs at hk with hvalid hkey
    obtain rfl := Option.some.inj hk
    exact ⟨slot k, hvalid, rfl, hkey⟩
  refine ⟨⟨find, ?_⟩, ?_, ?_⟩
  · intro k it hk
    obtain ⟨-, -, -, hkey⟩ := hfind k it hk
    exact hkey
  · intro i hvalid
    obtain ⟨-, hblock, hhash, hslot⟩ := hitem i hvalid
    refine ⟨item i hvalid, ?_, hblock, hhash, hslot⟩
    -- the item is found in its own slot
    have hsame : ∀ j, j = i → ∀ hj, item j hj = item i hvalid := by
      rintro j rfl _
      rfl
    have hi : slot (item i hvalid).key = i := Fin.ext hslot
    have hvalid' : (c (slot (item i hvalid).key)).valid = true := by rw [hi, hvalid]
    have hown := hsame _ hi hvalid'
    simp only [find]
    rw [dif_pos hvalid', if_pos (congrArg Item.key hown), hown]
  · intro k it hk
    obtain ⟨i, hvalid, rfl, -⟩ := hfind k it hk
    exact (hitem i hvalid).1

/-! ### The egress programs -/

/-- If the filter takes the frame for a reply, it starts with the block of an item of which `P` holds. -/
def ShowsOnly (P : Item → Prop) (skb : SkBuff) : Prop :=
  isGetReply skb = true → ∃ it rest, P it ∧ LF ∉ it.value ∧ SkBuff.payload skb = it.block ++ rest ∧
    (SkBuff.payload skb).length ≤ bmcMaxCacheDataSize

lemma shows_txFilter {P : Item → Prop} {c : Cache} (h : Shows P c) {skb : SkBuff} (hskb : ShowsOnly P skb)
    (stats : BmcStats) : Shows P (bmcTxFilterMain skb stats c).kcache := by
  by_cases hreply : isGetReply skb = true
  · obtain ⟨it, rest, hit, hlf, hpayload, hlen⟩ := hskb hreply
    rw [txFilter_reply hreply]
    generalize SkBuff.payload skb = payload at *
    have hhash : replyHash payload = fnv1aHash32 it.key := by
      rw [replyHash_eq, hpayload, keyField_of_hasKey (hasKey_block it rest)]
    intro i hvalid
    rw [Cache.store_apply] at hvalid ⊢
    split_ifs at hvalid ⊢ with hi
    · by_cases hup : upToDate (c.at (replyHash payload)) (replyHash payload) payload = true
      · have hslot : c.at (replyHash payload) = c i := congrArg c (Fin.ext hi.symm)
        rw [updateEntry_upToDate hup, hslot] at hvalid ⊢
        exact h i hvalid
      · rw [Bool.not_eq_true] at hup
        have hcomplete : CompleteReply payload := by
          unfold CompleteReply
          rw [List.take_of_length_le hlen, hpayload, List.countP_append]
          exact Nat.le_add_right_of_le (two_le_countP_block it)
        obtain ⟨-, hnew, -, hblock⟩ := updateEntry_complete hup hcomplete
        have hget : RetrievalVerb.get.block it 0 = it.block := block_of_not_returnCas rfl
        refine ⟨it, hit, ?_, ?_, ?_⟩
        · rw [hpayload, ← hget] at hlen
          rw [hblock, hpayload, ← hget, storedBlock_block hlf .get 0 hlen]
        · rw [hnew, hhash]
        · rw [slotOf, ← hhash, hi]
    · exact h i hvalid
  · rw [txFilter_other (Bool.not_eq_true _ ▸ hreply)]
    exact h

lemma shows_transmit {P : Item → Prop} {cpu : ℕ} (skbs : List SkBuff)
    (hskbs : ∀ skb ∈ skbs, ShowsOnly P skb) {w : World} (h : Shows P w.kcache) :
    Shows P (skbs.foldl (fun w skb => w.transmit cpu skb) w).kcache := by
  induction skbs generalizing w with
  | nil => exact h
  | cons skb skbs ih =>
    rw [List.foldl_cons]
    apply ih fun skb' hmem => hskbs skb' (List.mem_cons_of_mem _ hmem)
    exact shows_txFilter h (hskbs skb List.mem_cons_self) _

/-! ### The frames of a reply -/

section Frames

variable {p : Packet} (hp : Proper p) {r : Reply} {skb : SkBuff} (hmem : skb ∈ p.frames r)

include hp hmem

lemma mem_frames_tcp (ht : p.transport = .tcp) : isGetReply skb = false := by
  have hhdr := hp.replyHdr
  rw [ht] at hhdr
  unfold Packet.frames at hmem
  rw [ht] at hmem
  split_ifs at hmem
  · simp at hmem
  obtain ⟨i, hi, rfl⟩ := List.mem_mapIdx.mp hmem
  obtain ⟨hlen, hproto⟩ := hhdr i
  have hsz := sizes
  have hother : (ipprotoTcp == ipprotoUdp) = false := rfl
  simp only [isGetReply]
  rw [byteAt_append (by omega), hproto, hother]
  simp

lemma mem_frames_udp (ht : p.transport = .udp) : IsReplyFrame skb ∧
    datagram skb ∈ r.datagrams (be16At p.hdr (headersLen - udpHeaderSize)) := by
  have hhdr := hp.replyHdr
  rw [ht] at hhdr
  unfold Packet.frames at hmem
  rw [ht] at hmem
  split_ifs at hmem
  · simp at hmem
  obtain ⟨i, hi, rfl⟩ := List.mem_mapIdx.mp hmem
  have hlen := (hhdr i).length
  have hsz := sizes
  refine ⟨⟨rfl, ?_, ?_⟩, ?_⟩
  · rw [byteAt_append (by omega)]
    exact (hhdr i).protocol
  · rw [be16At_append (by omega)]
    exact (hhdr i).port
  · rw [datagram, List.drop_left' hlen]
    exact List.getElem_mem hi

end Frames

/-- The lines memcached replies with are no blocks of items. -/
lemma not_mem_line {mem : ItemAlloc} {s : Server} {cmd : ServerCommand} {text : List Byte}
    (h : (processCommand mem s cmd).2 = .line text) : chr 'A' ∉ text := by
  have hstore : ∀ t : StoreItemType, chr 'A' ∉ t.text := by
    intro t
    cases t <;> decide +kernel
  have hlarge : chr 'A' ∉ ascii "SERVER_ERROR object too large for cache".toList := by decide +kernel
  have hmemory : chr 'A' ∉ ascii "SERVER_ERROR out of memory storing object".toList := by decide +kernel
  have hdeleted : chr 'A' ∉ ascii "DELETED".toList := by decide +kernel
  cases cmd with
  | get keys => simp [processCommand] at h
  | update comm key flags exptime casUnique noreply data =>
    simp only [processCommand, processUpdateCommand, Reply.line.injEq] at h
    rw [← h]
    split
    · next e _ =>
      cases e with
      | tooLarge => exact hlarge
      | noMemory => exact hmemory
    · exact hstore _
  | arithmetic incr key delta noreply =>
    simp only [processCommand, Reply.line.injEq] at h
    rw [← h]
    cases (doAddDelta mem s key incr delta).2 with
    | ok value =>
      intro hdigit
      exact absurd (toNat_of_mem_itoaU32 (n := value) hdigit) (by decide)
    | _ => decide +kernel
  | delete key noreply =>
    simp only [processCommand, processDeleteCommand, Reply.line.injEq] at h
    rw [← h]
    split
    · exact hdeleted
    · exact hstore .notFound

/-- The datagrams of a line are parts of it. -/
lemma mem_of_mem_line {text d : List Byte} {requestId : ℕ}
    (hd : d ∈ (Reply.line text).datagrams requestId) {b : Byte} (hb : b ∈ d.drop udpHeaderSize) :
    b ∈ text ++ crlf := by
  obtain ⟨h, -⟩ := addIov_holds holds_fresh spare_fresh (text ++ crlf)
  rw [List.nil_append] at h
  have hpart : d.drop udpHeaderSize ∈ ((addIov Conn.fresh (text ++ crlf)).before ++
      [(addIov Conn.fresh (text ++ crlf)).current]).map body := by
    rw [← map_drop_buildUdpHeaders _ requestId]
    exact List.mem_map_of_mem hd
  rw [← h.text]
  simpa using List.mem_flatten_of_mem hpart hb

lemma items_of_processCommand {mem : ItemAlloc} {s : Server} {cmd : ServerCommand} {its : List Item}
    (h : (processCommand mem s cmd).2 = .items its) :
    ∃ ks, cmd = .get ks ∧ its = ks.filterMap s.store.find := by
  cases cmd with
  | get ks => exact ⟨ks, rfl, (Reply.items.inj h).symm⟩
  | _ => simp [processCommand] at h

/-- What memcached's reply leaves in the cache are items it holds. -/
lemma showsOnly_frames {p : Packet} (hp : Proper p) {w : World} (hforged : NotForged w p)
    (hlines : NoNewlines (w.server.store.forget p.lost)) {P : Item → Prop}
    (hP : ∀ ks, p.command = .get ks → ∀ it, (w.server.store.forget p.lost).find it.key = some it → P it) :
    ∀ skb ∈ p.frames (processCommand p.mem
      { w.server with store := w.server.store.forget p.lost } p.command).2, ShowsOnly P skb := by
  intro skb hmem hreply
  have ht : p.transport = .udp := by
    cases ht : p.transport with
    | udp => rfl
    | tcp =>
      rw [mem_frames_tcp hp hmem ht] at hreply
      exact absurd hreply Bool.false_ne_true
  obtain ⟨hframe, hdatagram⟩ := mem_frames_udp hp hmem ht
  obtain ⟨hlen, hvalue⟩ := (isGetReply_iff hframe).mp hreply
  cases hr : (processCommand p.mem { w.server with store := w.server.store.forget p.lost } p.command).2 with
  | line text =>
    have hletter : chr 'A' ∈ (datagram skb).drop udpHeaderSize := by
      rw [← payload_eq_drop_datagram]
      exact (List.isPrefixOf_iff_prefix.mp hvalue).subset (by decide +kernel)
    rw [hr] at hdatagram
    rcases List.mem_append.mp (mem_of_mem_line hdatagram hletter) with htext | hcrlf
    · exact absurd htext (not_mem_line hr)
    · exact absurd hcrlf (by decide)
  | items its =>
    rw [hr] at hdatagram
    obtain ⟨ks, hcmd, hits⟩ := items_of_processCommand hr
    rw [payload_of_reply hframe hdatagram hreply] at hlen hvalue ⊢
    have hcut : ¬CutsInside its := by
      intro hcut
      rw [hforged ks hcmd its hits hcut] at hvalue
      exact absurd hvalue Bool.false_ne_true
    obtain ⟨it, hit, rest, hpart⟩ := lastPart_eq_block hvalue hcut
    rw [hits] at hit
    obtain ⟨k, -, hfind⟩ := List.mem_filterMap.mp hit
    have hown : (w.server.store.forget p.lost).find it.key = some it := by
      rw [Store.key_of_find _ hfind]
      exact hfind
    exact ⟨it, rest, hP ks hcmd it hown, hlines k it hfind, hpart, hlen⟩

/-! ### Runs -/

/-- Memcached has held the item for its key, and no `set` of the key over TCP has come since. -/
def HeldSince (ps : List Packet) (it : Item) : Prop :=
  ∃ done rest, ps = done ++ rest ∧ (World.booted.run done).server.store.find it.key = some it ∧
    ∀ p ∈ rest, tcpSetKey p ≠ some it.key

structure Followed (ps : List Packet) : Prop where
  lines : NoNewlines (World.booted.run ps).server.store
  shows : Shows (HeldSince ps) (World.booted.run ps).kcache

lemma run_concat (w : World) (ps : List Packet) (p : Packet) : w.run (ps ++ [p]) = (w.run ps).step p := by
  rw [World.run, List.foldl_append, List.foldl_cons, List.foldl_nil, World.run]

lemma server_transmit (cpu : ℕ) (skbs : List SkBuff) (w : World) :
    (skbs.foldl (fun w skb => w.transmit cpu skb) w).server = w.server := by
  induction skbs generalizing w with
  | nil => rfl
  | cons skb skbs ih => rw [List.foldl_cons, ih, World.transmit]

lemma followed_booted : Followed [] := by
  constructor
  · intro k it hfind
    simp [World.run, World.booted, Store.empty] at hfind
  · intro i hvalid
    simp [World.run, World.booted, Cache.zeroed, BmcCacheEntry.zero] at hvalid

/-- The ingress programs leave only entries whose items have been held since this packet, too. -/
lemma shows_receive {ps : List Packet} (h : Followed ps) {p : Packet} (hp : Proper p) :
    Shows (HeldSince (ps ++ [p])) ((World.booted.run ps).receive p).2.kcache := by
  intro i hvalid
  have hsame := receive_valid hp (World.booted.run ps) hvalid
  rw [hsame] at hvalid ⊢
  obtain ⟨it, ⟨done, rest, hps, hfind, hrest⟩, hblock, hhash, hslot⟩ := h.shows i hvalid
  have hother : tcpSetKey p ≠ some it.key := by
    intro hset
    have hcleared := receive_set hp (World.booted.run ps) hset
    have hi : (⟨slotOf it.key, cacheIdx_lt _⟩ : Fin bmcCacheEntryCount) = i := Fin.ext hslot
    have hentry : ((World.booted.run ps).receive p).2.kcache i =
        ((World.booted.run ps).receive p).2.kcache.at (fnv1aHash32 it.key) := by rw [← hi]; rfl
    rw [← hsame, hentry, hcleared] at hvalid
    exact absurd hvalid Bool.false_ne_true
  refine ⟨it, ⟨done, rest ++ [p], ?_, hfind, ?_⟩, hblock, hhash, hslot⟩
  · rw [hps, List.append_assoc]
  · intro q hq
    rcases List.mem_append.mp hq with hq | hq
    · exact hrest q hq
    · rw [List.mem_singleton.mp hq]
      exact hother

lemma followed_step {ps : List Packet} (h : Followed ps) {p : Packet} (hp : Proper p)
    (hforged : NotForged (World.booted.run ps) p) : Followed (ps ++ [p]) := by
  have hshows := shows_receive h hp
  have hlines := noNewlines_forget h.lines p.lost
  have hrun := run_concat World.booted ps p
  by_cases hpass : ((World.booted.run ps).receive p).1 = .pass ∧
      ((World.booted.run ps).receive p).2.ctx.pkt = p.frame ∧ p.accepted = true
  · rw [World.step, if_pos hpass, World.handle] at hrun
    dsimp only at hrun
    have hserver : (World.booted.run (ps ++ [p])).server = (processCommand p.mem
        { (World.booted.run ps).server with store := (World.booted.run ps).server.store.forget p.lost }
        p.command).1 := by
      rw [hrun, server_transmit]
    constructor
    · rw [hserver]
      exact noNewlines_processCommand hlines hp.oneLine
    · -- what a `get` shows is what memcached holds behind the packet
      rw [hrun]
      refine shows_transmit _ (showsOnly_frames hp hforged hlines ?_) hshows
      intro ks hget it hfind
      refine ⟨ps ++ [p], [], (List.append_nil _).symm, ?_, ?_⟩
      · rw [hserver, hget]
        exact hfind
      · intro q hq
        exact absurd hq List.not_mem_nil
  · rw [World.step, if_neg hpass] at hrun
    constructor
    · rw [hrun]
      exact hlines
    · rw [hrun]
      exact hshows

/-- In every packet's turn, no block of memcached's reply looks like another. -/
def NeverForged (ps : List Packet) : Prop :=
  ∀ done p rest, ps = done ++ p :: rest → NotForged (World.booted.run done) p

lemma neverForged_concat {ps : List Packet} {p : Packet} (h : NeverForged ps)
    (hforged : NotForged (World.booted.run ps) p) : NeverForged (ps ++ [p]) := by
  intro done q rest hsplit
  rcases List.eq_nil_or_concat rest with rfl | ⟨rest, q', rfl⟩
  · obtain ⟨rfl, rfl⟩ := List.append_singleton_inj.mp hsplit
    exact hforged
  · rw [List.concat_eq_append, ← List.cons_append, ← List.append_assoc] at hsplit
    exact h done q rest (List.append_singleton_inj.mp hsplit).1

lemma run_followed {ps : List Packet} (hps : ∀ p ∈ ps, Proper p) (hforged : NeverForged ps) :
    Followed ps := by
  induction ps using List.reverseRecOn with
  | nil => exact followed_booted
  | append_singleton ps p ih =>
    apply followed_step
    · apply ih
      · intro q hq
        exact hps q (List.mem_append_left _ hq)
      · intro done q rest hsplit
        apply hforged done q (rest ++ [p])
        rw [hsplit]
        simp
    · exact hps p (List.mem_append_right _ (List.mem_singleton_self p))
    · exact hforged ps p [] rfl

/-! ### Answers -/

lemma bytes_get {ks : List (List Byte)} (hne : ks ≠ []) : (ServerCommand.get ks).bytes = getLine ks := by
  have hline : ∀ ks : List (List Byte), ks ≠ [] → (ks.map (SP :: ·)).flatten ++ crlf = SP :: keyLine ks := by
    intro ks hne
    induction ks with
    | nil => exact absurd rfl hne
    | cons k ks ih =>
      cases ks with
      | nil => simp [keyLine]
      | cons k' ks =>
        rw [List.map_cons, List.flatten_cons, List.append_assoc, ih (List.cons_ne_nil k' ks),
          keyLine_cons k (List.cons_ne_nil k' ks), List.cons_append]
  simp only [ServerCommand.bytes, ServerCommand.command, Command.bytes, List.append_assoc, hline ks hne]
  rfl

/-- Behind a `set` of a key over TCP, whatever commands come next, an answered GET shows for the key
only items that memcached has held since. -/
theorem tcp_set_followed {before between : List Packet} {e p : Packet} {k : List Byte} {ks : List (List Byte)}
    (hproper : ∀ q ∈ before ++ e :: between, Proper q) (hforged : NeverForged (before ++ e :: between))
    (hset : tcpSetKey e = some k) (hp : Proper p) (hget : p.command = .get ks)
    (htx : ((World.booted.run (before ++ e :: between)).receive p).1 = .tx) :
    ∃ its, ((World.booted.run (before ++ e :: between)).receive p).2.ctx.pkt.drop headersLen = replyText its ∧
      ∀ it ∈ its, it.key = k → ∃ done, done <+: between ∧
        (World.booted.run (before ++ e :: done)).server.store.find k = some it := by
  have hhdr := hp.hdr
  rw [transport_of_tx hp _ htx] at hhdr
  have hne : ks ≠ [] := by
    have hsome := hp.some
    rw [hget] at hsome
    exact hsome
  have hkeys : ∀ k ∈ ks, IsKey k := by
    intro k hk
    exact (hp.keys k (by rw [hget]; exact hk)).1
  obtain ⟨s, hmirrors, hheld⟩ := exists_mirrors (run_followed hproper hforged).shows
  have hframe : p.frame = p.hdr ++ getLine ks := by rw [Packet.frame, hget, bytes_get hne]
  simp only [World.receive, hframe] at htx ⊢
  refine ⟨_, answer_eq hmirrors hhdr.length hne hkeys htx, ?_⟩
  rintro it hit rfl
  obtain ⟨key, -, hfind⟩ := List.mem_filterMap.mp hit
  obtain ⟨done, rest, hsplit, hitem, hrest⟩ := hheld key it hfind
  -- the item was held behind the `set`, for there is none in the rest
  have hnot : e ∉ rest := fun he => hrest e he hset
  rcases List.append_eq_append_iff.mp hsplit with ⟨since, hdone, hbehind⟩ | ⟨since, -, hbehind⟩
  · cases since with
    | nil =>
      rw [List.nil_append] at hbehind
      exact absurd (hbehind ▸ List.mem_cons_self) hnot
    | cons first since =>
      rw [List.cons_append, List.cons.injEq] at hbehind
      obtain ⟨rfl, rfl⟩ := hbehind
      exact ⟨since, List.prefix_append since rest, hdone ▸ hitem⟩
  · rw [hbehind] at hnot
    exact absurd (List.mem_append_right _ List.mem_cons_self) hnot

/-! #### Commands that are not noticed -/

instance (key : List Byte) : Decidable (IsKey key) :=
  decidable_of_iff (0 < key.length ∧ key.length ≤ keyMaxLength ∧ SP ∉ key ∧ LF ∉ key)
    ⟨fun ⟨hpos, hle, hsp, hlf⟩ => ⟨hpos, hle, hsp, hlf⟩, fun h => ⟨h.pos, h.le, h.noSpace, h.noNewline⟩⟩

/-- An allocator that always has room, in one buffer. -/
def plainAlloc : ItemAlloc where
  alloc := fun key flags value =>
    if h : IsKey key ∧ flags < 2 ^ 32 then
      .ok (Item.inOneBuffer key flags value h.1 h.2)
    else .error .tooLarge
  behind := fun _ => []
  sound := by
    intro key flags value it h
    split_ifs at h
    obtain rfl := Except.ok.inj h
    exact ⟨rfl, rfl, rfl⟩

def samplePacket (transport : Transport) (command : ServerCommand) : Packet where
  cpu := 0
  transport := transport
  hdr := match transport with
    | .udp => sampleHeaders true
    | .tcp => sampleTcpHeaders
  headroom := List.replicate 256 0
  command := command
  lost := fun _ => false
  mem := plainAlloc
  replyHdr := fun _ => match transport with
    | .udp => (sampleHeaders false).take (ethHlen + sizeofIphdr + sizeofUdphdr)
    | .tcp => sampleTcpHeaders

lemma samplePacket_proper (transport : Transport) {command : ServerCommand}
    (hkeys : command.keys = [cachedItem.key]) (hread : command.Readable) (hline : OneLine command) :
    Proper (samplePacket transport command) := by
  have hrequest : IsUdpHeader (sampleHeaders true) := ⟨rfl, rfl, by decide +kernel⟩
  have hreply : IsReplyHeader ((sampleHeaders false).take (ethHlen + sizeofIphdr + sizeofUdphdr)) :=
    ⟨rfl, rfl, by decide +kernel⟩
  refine ⟨?_, ?_, ?_, ?_, hread, hline⟩
  · cases transport with
    | udp => exact hrequest
    | tcp =>
      refine ⟨sampleTcpHeaders, [], (List.append_nil _).symm, sampleTcpHeaders_isTcpHeader, Nat.zero_le _, ?_⟩
      intro _ l hne hl
      exact absurd (List.suffix_nil.mp hl) hne
  · intro i
    cases transport with
    | udp => exact hreply
    | tcp => exact ⟨Nat.le_of_ble_eq_true rfl, rfl⟩
  · intro k hk
    have hk' : k ∈ command.keys := hk
    rw [hkeys, List.mem_singleton] at hk'
    rw [hk']
    exact ⟨cachedItem.isKey, by decide +kernel, by decide +kernel⟩
  · change command.keys ≠ []
    rw [hkeys]
    exact List.cons_ne_nil _ _

def sampleStore (comm : StorageVerb) (data : Char) : ServerCommand :=
  .update comm cachedItem.key 0 (ascii ['0']) 1 false (ascii [data])

lemma readable_sampleStore (comm : StorageVerb) (data : Char) : (sampleStore comm data).Readable := by
  have hzero : IsToken (ascii ['0']) := by constructor <;> decide
  have hone : (ascii [data]).length ≤ intMax - 2 := Nat.le_of_ble_eq_true rfl
  exact ⟨by decide, ⟨hzero, by decide⟩, by decide, hone⟩

def sampleGet : Packet := samplePacket .udp (.get [cachedItem.key])

/-- The key gets the value `5`, and a GET brings it into the cache. -/
def filledRun : List Packet := [samplePacket .tcp (sampleStore .set '5'), sampleGet]

def unnoticed : List Packet :=
  [samplePacket .udp (sampleStore .set '6'), samplePacket .tcp (sampleStore .replace '6'),
    samplePacket .tcp (sampleStore .append '6'), samplePacket .tcp (sampleStore .prepend '6'),
    samplePacket .tcp (sampleStore .cas '6'), samplePacket .tcp (.arithmetic true cachedItem.key 1 false),
    samplePacket .tcp (.arithmetic false cachedItem.key 1 false),
    samplePacket .tcp (.delete cachedItem.key false)]

/-- Each of the commands changes or removes the value, and the next GET is answered with the old one. -/
theorem unnoticed_not_followed : (∀ p ∈ filledRun ++ unnoticed, Proper p) ∧
    ((World.booted.run filledRun).server.store.find cachedItem.key).map Item.value = some (ascii ['5']) ∧
    ∀ e ∈ unnoticed,
      ((World.booted.run (filledRun ++ [e])).server.store.find cachedItem.key).map Item.value ≠
      some (ascii ['5']) ∧
      ((World.booted.run (filledRun ++ [e])).receive sampleGet).1 = .tx ∧
      ((World.booted.run (filledRun ++ [e])).receive sampleGet).2.ctx.pkt.drop headersLen =
        ascii "VALUE kkkkkkkkkkkk 0 1\r\n5\r\nEND\r\n".toList := by
  refine ⟨?_, by decide +kernel, ?_⟩
  · intro p hp
    simp only [filledRun, unnoticed, sampleGet, List.cons_append, List.nil_append, List.mem_cons,
      List.not_mem_nil, or_false] at hp
    rcases hp with rfl | rfl | rfl | rfl | rfl | rfl | rfl | rfl | rfl | rfl
    all_goals apply samplePacket_proper _ rfl
    all_goals first
      | trivial
      | exact readable_sampleStore _ _
      | exact fun hmem => absurd hmem (by decide +kernel)
      | exact (by decide : 1 < 2 ^ 64)
  · decide +kernel

/-- A reply of one datagram is not cut. -/
lemma not_cutsInside_of_short {its : List Item} (h : (replyText its).length ≤ messageRoom) :
    ¬CutsInside its := by
  rintro ⟨pre, it, post, -, hlt, -⟩
  have hroom : 0 < messageRoom := by decide
  have hstart : lastStart its = 0 := by
    rw [lastStart, Nat.div_eq_of_lt (by omega), Nat.mul_zero]
  omega

lemma notForged_of_short {w : World} {p : Packet}
    (h : ∀ ks, p.command = .get ks →
      (replyText (ks.filterMap (w.server.store.forget p.lost).find)).length ≤ messageRoom) :
    NotForged w p := by
  rintro ks hget its rfl hcut
  exact absurd hcut (not_cutsInside_of_short (h ks hget))

lemma notForged_sampleStore (w : World) (transport : Transport) (comm : StorageVerb) (data : Char) :
    NotForged w (samplePacket transport (sampleStore comm data)) := by
  intro ks hget
  cases hget

lemma notForged_sampleGet {w : World}
    (h : (replyText ([cachedItem.key].filterMap w.server.store.find)).length ≤ messageRoom) :
    NotForged w sampleGet := by
  apply notForged_of_short
  intro ks hget
  obtain rfl : [cachedItem.key] = ks := ServerCommand.get.inj hget
  exact h

theorem second_set_followed : ∃ its,
    ((World.booted.run (filledRun ++ samplePacket .tcp (sampleStore .set '6') :: [sampleGet])).receive
      sampleGet).2.ctx.pkt.drop headersLen = replyText its ∧
    ∀ it ∈ its, it.key = cachedItem.key → ∃ done, done <+: [sampleGet] ∧
      (World.booted.run (filledRun ++ samplePacket .tcp (sampleStore .set '6') :: done)).server.store.find
        cachedItem.key = some it := by
  have hproper : ∀ comm data, LF ∉ ascii [data] → Proper (samplePacket .tcp (sampleStore comm data)) :=
    fun comm data hline => samplePacket_proper .tcp rfl (readable_sampleStore comm data) hline
  have hget : Proper sampleGet := samplePacket_proper .udp rfl trivial trivial
  refine tcp_set_followed ?_ ?_ rfl hget rfl ?_
  · intro q hq
    simp only [filledRun, List.cons_append, List.nil_append, List.mem_cons, List.not_mem_nil, or_false] at hq
    rcases hq with rfl | rfl | rfl | rfl
    · exact hproper .set '5' (by decide +kernel)
    · exact hget
    · exact hproper .set '6' (by decide +kernel)
    · exact hget
  · have hnone : NeverForged [] := by
      intro done q rest hsplit
      simp at hsplit
    have hfirst := neverForged_concat hnone (notForged_sampleStore _ .tcp .set '5')
    have hsecond := neverForged_concat hfirst (notForged_sampleGet (by decide +kernel))
    have hthird := neverForged_concat hsecond (notForged_sampleStore _ .tcp .set '6')
    exact neverForged_concat hthird (notForged_sampleGet (by decide +kernel))
  · decide +kernel

end BmcCache.Proofs
