import BmcCache.Lib.Segments
import BmcCache.Model.Memcached
import BmcCache.Proofs.Representation

/-!
# The datagrams of a reply

`add_iov` cuts the text of a reply into messages of which all but the last are full. A full
message is too long for the egress filter, so only the last one can reach the cache: with a
whole block at its start, with `END`, or with whatever a value holds at the place of the cut.
-/

namespace BmcCache.Proofs

open Segments

/-! ### Cutting the text -/

def body (msg : List (List Byte)) : List Byte := (msg.drop 1).flatten

lemma body_snoc {msg : List (List Byte)} (h : 0 < msg.length) (buf : List Byte) :
    body (msg ++ [buf]) = body msg ++ buf := by
  rw [body, List.drop_append_of_le_length h, List.flatten_append, body]
  simp

abbrev messageRoom : ℕ := udpMaxPayloadSize - udpHeaderSize

lemma udpSizes : udpMaxPayloadSize = 1400 ∧ udpHeaderSize = 8 ∧ messageRoom = 1392 ∧ iovMax = 1024 :=
  ⟨rfl, rfl, rfl, rfl⟩

/-- The connection holds `text`, cut into full messages and a current one. -/
structure Holds (c : Conn) (text : List Byte) : Prop where
  full : ∀ msg ∈ c.before, (body msg).length = messageRoom
  header : 0 < c.current.length
  msgbytes : c.msgbytes = udpHeaderSize + (body c.current).length
  room : (body c.current).length ≤ messageRoom
  text : (c.before.map body).flatten ++ body c.current = text

/-- The current message has on average two bytes for each of its buffers, with `k` to spare. -/
def Spare (c : Conn) (k : ℕ) : Prop := 2 * c.current.length + k ≤ c.msgbytes + 4

lemma holds_fresh : Holds Conn.fresh [] := by
  refine ⟨?_, ?_, rfl, ?_, rfl⟩
  · intro msg hmsg
    simp [Conn.fresh] at hmsg
  · simp [Conn.fresh]
  · simp [Conn.fresh, body]

lemma spare_fresh : Spare Conn.fresh 4 := by
  unfold Spare Conn.fresh
  decide

lemma holds_addMsghdr {c : Conn} {text : List Byte} (h : Holds c text)
    (hfull : udpMaxPayloadSize ≤ c.msgbytes) :
    Holds (addMsghdr c) text := by
  have hudp := udpSizes
  have hbytes := h.msgbytes
  have hroom := h.room
  refine ⟨?_, Nat.one_pos, rfl, Nat.zero_le _, ?_⟩
  · intro msg hmsg
    rcases List.mem_append.mp hmsg with hmsg | hmsg
    · exact h.full msg hmsg
    · rw [List.mem_singleton.mp hmsg]
      omega
  · rw [← h.text]
    simp [addMsghdr, body]

lemma holds_append {c : Conn} {text : List Byte} (h : Holds c text) (buf : List Byte)
    (hfits : c.msgbytes + buf.length ≤ udpMaxPayloadSize) :
    Holds ⟨c.before, c.current ++ [buf], c.msgbytes + buf.length⟩ (text ++ buf) := by
  have hudp := udpSizes
  have hbytes := h.msgbytes
  have hbody : body (c.current ++ [buf]) = body c.current ++ buf := body_snoc h.header buf
  refine ⟨h.full, ?_, ?_, ?_, ?_⟩
  · rw [List.length_append]
    exact Nat.add_pos_left h.header _
  · rw [hbody, List.length_append]
    dsimp only
    omega
  · rw [hbody, List.length_append]
    omega
  · rw [hbody, ← h.text, List.append_assoc]

/-- The loop puts the buffer behind the text. With room in the message the first piece goes
there, every further one starts a message. -/
lemma addIovLoop_holds (n : ℕ) (c : Conn) (buf text : List Byte) (hn : buf.length < n) (h : Holds c text)
    (hiov : c.current.length < iovMax ∨ udpMaxPayloadSize ≤ c.msgbytes) :
    Holds (addIovLoop n c buf) (text ++ buf) ∧ (buf ≠ [] → body (addIovLoop n c buf).current ≠ []) ∧
      ∀ k k', (Spare c k ∧ k' + 2 ≤ k + buf.length ∨ udpMaxPayloadSize ≤ c.msgbytes) → k' ≤ 8 →
        Spare (addIovLoop n c buf) k' := by
  have hudp := udpSizes
  induction n generalizing c buf text with
  | zero => omega
  | succ n ih =>
    rw [addIovLoop]
    generalize hd : (if c.current.length = iovMax ∨ udpMaxPayloadSize ≤ c.msgbytes then addMsghdr c
      else c) = d
    -- the connection after a message has been started, if need be
    obtain ⟨hholds, hroom, hspare⟩ : Holds d text ∧ d.msgbytes < udpMaxPayloadSize ∧
        ∀ k k', (Spare c k ∧ k' + 2 ≤ k + buf.length ∨ udpMaxPayloadSize ≤ c.msgbytes) → k' ≤ 8 →
          2 * d.current.length + 2 + k' ≤ d.msgbytes + buf.length + 4 := by
      by_cases hfull : udpMaxPayloadSize ≤ c.msgbytes
      · rw [if_pos (Or.inr hfull)] at hd
        subst hd
        refine ⟨holds_addMsghdr h hfull, show udpHeaderSize < udpMaxPayloadSize by omega, ?_⟩
        intro k k' _ hk'
        simp only [addMsghdr, List.length_singleton]
        omega
      · have hshort : c.current.length < iovMax := by omega
        rw [if_neg (by omega)] at hd
        subst hd
        refine ⟨h, by omega, ?_⟩
        rintro k k' (⟨hk, hlen⟩ | hk) hk'
        · unfold Spare at hk
          omega
        · exact absurd hk hfull
    by_cases hleft : 0 < buf.length + d.msgbytes - udpMaxPayloadSize
    · rw [if_pos hleft]
      generalize hlen : buf.length - (buf.length + d.msgbytes - udpMaxPayloadSize) = len
      have htake : (buf.take len).length = len := by
        rw [List.length_take]
        omega
      have hdrop : (buf.drop len).length = buf.length - len := List.length_drop
      have hnext := holds_append hholds (buf.take len) (by omega)
      rw [htake] at hnext
      obtain ⟨hrec, hne, hk⟩ := ih ⟨d.before, d.current ++ [buf.take len], d.msgbytes + len⟩ (buf.drop len) _
        (by omega) hnext (Or.inr (by dsimp only; omega))
      rw [List.append_assoc, List.take_append_drop] at hrec
      refine ⟨hrec, ?_, ?_⟩
      · intro _
        apply hne
        apply List.ne_nil_of_length_pos
        omega
      · intro k k' _ hk'
        exact hk 0 k' (Or.inr (by dsimp only; omega)) hk'
    · rw [if_neg hleft]
      have hlen : buf.length - (buf.length + d.msgbytes - udpMaxPayloadSize) = buf.length := by omega
      rw [hlen, List.take_length]
      refine ⟨holds_append hholds buf (by omega), ?_, ?_⟩
      · intro hne
        rw [body_snoc hholds.header]
        exact List.append_ne_nil_of_right_ne_nil _ hne
      · intro k k' hk hk'
        have hsum := hspare k k' hk hk'
        unfold Spare
        rw [List.length_append, List.length_singleton]
        dsimp only
        omega

lemma addIov_holds {c : Conn} {text : List Byte} {k : ℕ} (h : Holds c text) (hk : Spare c k)
    (buf : List Byte) :
    Holds (addIov c buf) (text ++ buf) ∧ (buf ≠ [] → body (addIov c buf).current ≠ []) ∧
      ∀ k', k' + 2 ≤ k + buf.length → k' ≤ 8 → Spare (addIov c buf) k' := by
  have hudp := udpSizes
  have hbytes := h.msgbytes
  have hroom := h.room
  -- a message with more than a thousand buffers would hold more bytes than there is room for
  have hiov : c.current.length < iovMax := by
    unfold Spare at hk
    omega
  obtain ⟨hholds, hne, hspare⟩ := addIovLoop_holds (buf.length + 1) c buf text (Nat.lt_succ_self _) h
    (Or.inl hiov)
  exact ⟨hholds, hne, fun k' hk' hle => hspare k k' (Or.inl ⟨hk, hk'⟩) hle⟩

lemma length_itoaU32_pos (n : ℕ) : 0 < (itoaU32 n).length := by
  rw [itoaU32, ascii, List.length_map]
  exact Nat.length_toDigits_pos

lemma six_le_length_suffix (it : Item) : 6 ≤ it.suffix.length := by
  have hflags := length_itoaU32_pos it.flags
  have hsize := length_itoaU32_pos it.value.length
  simp only [Item.suffix, crlf, List.length_cons, List.length_append, List.length_nil]
  omega

lemma foldl_addIov_holds {c : Conn} {text : List Byte} (h : Holds c text) (hk : Spare c 6)
    {chunks : List (List Byte)} (hlarge : ∀ b ∈ chunks, 512 ≤ b.length) :
    Holds (chunks.foldl addIov c) (text ++ chunks.flatten) ∧ Spare (chunks.foldl addIov c) 6 := by
  induction chunks generalizing c text with
  | nil => simpa using ⟨h, hk⟩
  | cons b chunks ih =>
    have hb := hlarge b List.mem_cons_self
    obtain ⟨hnext, -, hspare⟩ := addIov_holds h hk b
    have hrec := ih hnext (hspare 6 (by omega) (by omega)) fun b' hb' =>
      hlarge b' (List.mem_cons_of_mem _ hb')
    rw [List.append_assoc] at hrec
    rw [List.foldl_cons, List.flatten_cons]
    exact hrec

lemma addItem_eq (c : Conn) (it : Item) : addItem c it =
    it.chunks.foldl addIov
    (addIov (addIov (addIov c (ascii ['V', 'A', 'L', 'U', 'E', ' '])) it.key) it.suffix) := by
  rw [addItem]

lemma addItem_holds {c : Conn} {text : List Byte} (h : Holds c text) (hk : Spare c 4) (it : Item) :
    Holds (addItem c it) (text ++ it.block) ∧ Spare (addItem c it) 4 := by
  have hkey := it.isKey.pos
  have hsuffix := six_le_length_suffix it
  obtain ⟨h1, -, hk1⟩ := addIov_holds h hk (ascii ['V', 'A', 'L', 'U', 'E', ' '])
  obtain ⟨h2, -, hk2⟩ := addIov_holds h1 (hk1 8 (Nat.le_refl _) (Nat.le_refl _)) it.key
  obtain ⟨h3, -, hk3⟩ := addIov_holds h2 (hk2 7 (by omega) (by omega)) it.suffix
  have hspare := hk3 8 (by omega) (Nat.le_refl _)
  have hblock : text ++ it.block = text ++ ascii ['V', 'A', 'L', 'U', 'E', ' '] ++ it.key ++ it.suffix ++
      it.chunks.flatten := by
    rw [it.chunks_eq, Item.block]
    simp only [List.append_assoc]
  rw [hblock, addItem_eq]
  rcases it.chunks_large with hone | ⟨-, chunks, last, hmany, hlarge, hlast⟩
  · rw [hone, List.flatten_singleton, List.foldl_cons, List.foldl_nil]
    obtain ⟨h4, -, hk4⟩ := addIov_holds h3 hspare (it.value ++ crlf)
    refine ⟨h4, hk4 4 ?_ (by omega)⟩
    simp only [List.length_append, crlf, List.length_cons, List.length_nil]
    omega
  · rw [hmany, List.foldl_cons, List.foldl_append, List.flatten_cons, List.flatten_append,
      List.flatten_singleton, List.nil_append, List.foldl_cons, List.foldl_nil]
    obtain ⟨h4, -, hk4⟩ := addIov_holds h3 hspare []
    rw [List.append_nil] at h4
    obtain ⟨h5, hk5⟩ := foldl_addIov_holds h4 (hk4 6 (Nat.le_refl _) (by omega)) hlarge
    obtain ⟨h6, -, hk6⟩ := addIov_holds h5 hk5 last
    have hpos := List.length_pos_iff.mpr hlast
    rw [List.append_assoc] at h6
    exact ⟨h6, hk6 4 (by omega) (by omega)⟩

lemma foldl_addItem_holds {c : Conn} {text : List Byte} (h : Holds c text) (hk : Spare c 4)
    (its : List Item) :
    Holds (its.foldl addItem c) (text ++ (its.map Item.block).flatten) ∧ Spare (its.foldl addItem c) 4 := by
  induction its generalizing c text with
  | nil => simpa using ⟨h, hk⟩
  | cons it its ih =>
    obtain ⟨hnext, hspare⟩ := addItem_holds h hk it
    have hrec := ih hnext hspare
    rw [List.append_assoc] at hrec
    rw [List.foldl_cons, List.map_cons, List.flatten_cons]
    exact hrec

lemma map_drop_buildUdpHeaders (c : Conn) (requestId : ℕ) :
    (buildUdpHeaders c requestId).map (List.drop udpHeaderSize) = (c.before ++ [c.current]).map body := by
  apply List.ext_getElem
  · simp [buildUdpHeaders]
  · intro i _ _
    rw [List.getElem_map, List.getElem_map]
    simp only [buildUdpHeaders, List.getElem_mapIdx]
    rfl

/-- Where the last datagram of a reply starts in its text, and what it holds. -/
def lastStart (its : List Item) : ℕ := messageRoom * (((replyText its).length - 1) / messageRoom)

def lastPart (its : List Item) : List Byte := (replyText its).drop (lastStart its)

/-- All datagrams of a reply but the last are full. -/
lemma getDatagrams_cut (requestId : ℕ) (its : List Item) : ∃ full,
    (getDatagrams requestId its).map (List.drop udpHeaderSize) = full ++ [lastPart its] ∧
      ∀ d ∈ full, d.length = messageRoom := by
  obtain ⟨h, hk⟩ := foldl_addItem_holds holds_fresh spare_fresh its
  rw [List.nil_append] at h
  obtain ⟨hholds, hne, -⟩ := addIov_holds h hk getEnd
  refine ⟨(addIov (its.foldl addItem Conn.fresh) getEnd).before.map body, ?_, ?_⟩
  · rw [getDatagrams, map_drop_buildUdpHeaders, List.map_append, List.map_singleton]
    have hlast : body (addIov (its.foldl addItem Conn.fresh) getEnd).current = lastPart its := ?_
    · rw [hlast]
    refine last_piece ?_ (List.length_pos_iff.mpr (hne (by decide))) hholds.room hholds.text
    intro l hl
    obtain ⟨msg, hmsg, rfl⟩ := List.mem_map.mp hl
    exact hholds.full msg hmsg
  · intro d hd
    obtain ⟨msg, hmsg, rfl⟩ := List.mem_map.mp hd
    exact hholds.full msg hmsg

/-! ### Blocks of items -/

lemma hasKey_block (it : Item) (rest : List Byte) : HasKey (it.block ++ rest) it.key := by
  refine ⟨⟨it.isKey.pos, it.isKey.le⟩, it.isKey.noSpace, it.isKey.noNewline, ?_⟩
  exact ⟨itoaU32 it.flags ++ SP :: (itoaU32 it.value.length ++ crlf) ++ (it.value ++ crlf) ++ rest, by
    simp [Item.block, Item.suffix, valueText]⟩

lemma two_le_countP_block (it : Item) : 2 ≤ it.block.countP isLF := by
  have hcrlf : crlf.countP isLF = 1 := by decide
  simp only [Item.block, Item.suffix, List.countP_append, List.countP_cons, hcrlf]
  omega

lemma getLast?_blocks (it : Item) (its : List Item) :
    ((it :: its).map Item.block).flatten.getLast? = some LF := by
  obtain ⟨l, last, hlast⟩ : ∃ l last, it :: its = l ++ [last] :=
    ⟨_, _, (List.dropLast_append_getLast (List.cons_ne_nil it its)).symm⟩
  rw [hlast, List.map_append, List.flatten_append, List.map_singleton, List.flatten_singleton, Item.block]
  simp [crlf]

lemma exists_block (its : List Item) {p : ℕ} (hp : p < (its.map Item.block).flatten.length) :
    ∃ pre it post, its = pre ++ it :: post ∧ (pre.map Item.block).flatten.length ≤ p ∧
      p < (pre.map Item.block).flatten.length + it.block.length := by
  induction its generalizing p with
  | nil => simp at hp
  | cons it its ih =>
    rw [List.map_cons, List.flatten_cons, List.length_append] at hp
    by_cases hfirst : p < it.block.length
    · exact ⟨[], it, its, rfl, Nat.zero_le _, by simpa using hfirst⟩
    · obtain ⟨pre, it', post, rfl, hle, hlt⟩ := ih (p := p - it.block.length) (by omega)
      refine ⟨it :: pre, it', post, rfl, ?_, ?_⟩
      · rw [List.map_cons, List.flatten_cons, List.length_append]
        omega
      · rw [List.map_cons, List.flatten_cons, List.length_append]
        omega

/-- The last datagram starts inside the block of an item. -/
def CutsInside (its : List Item) : Prop := ∃ pre it post, its = pre ++ it :: post ∧
  (pre.map Item.block).flatten.length < lastStart its ∧
  lastStart its < (pre.map Item.block).flatten.length + it.block.length

/-- What the text is filed under and as belongs to one of the items. -/
def FilesOwn (its : List Item) (text : List Byte) : Prop :=
  ∃ it ∈ its, fnv1aHash32 it.key = fnv1aHash32 (keyField text) ∧ storedBlock text <:+: it.block

lemma filesOwn_block {its : List Item} {it : Item} (hit : it ∈ its) {rest : List Byte}
    (hlen : (it.block ++ rest).length ≤ bmcMaxCacheDataSize) : FilesOwn its (it.block ++ rest) := by
  refine ⟨it, hit, ?_, ?_⟩
  · rw [keyField_of_hasKey (hasKey_block it rest)]
  · rw [storedBlock, List.take_of_length_le hlen, takeThrough_append, if_pos (two_le_countP_block it)]
    exact (takeThrough_isPrefix 2 it.block).isInfix

section LastPart

variable {its : List Item} (hvalue : isValue (lastPart its) = true)

include hvalue

lemma lastStart_lt : lastStart its < (its.map Item.block).flatten.length := by
  by_contra hge
  rw [lastPart, replyText, List.drop_append, List.drop_of_length_le (Nat.le_of_not_lt hge),
    List.nil_append] at hvalue
  generalize lastStart its - (its.map Item.block).flatten.length = n at hvalue
  have hlen : valueText.length ≤ (getEnd.drop n).length := (List.isPrefixOf_iff_prefix.mp hvalue).length_le
  rw [List.length_drop] at hlen
  simp [valueText, ascii, getEnd] at hlen
  omega

lemma completeReply_lastPart (hlen : (lastPart its).length ≤ bmcMaxCacheDataSize) :
    CompleteReply (lastPart its) := by
  have hlt := lastStart_lt hvalue
  have hend : getEnd.countP isLF = 1 := by decide
  unfold CompleteReply
  rw [List.take_of_length_le hlen, lastPart, replyText, List.drop_append_of_le_length (Nat.le_of_lt hlt),
    List.countP_append, hend]
  -- the newline behind the last value is still to come
  have hpos : 0 < ((its.map Item.block).flatten.drop (lastStart its)).countP isLF := by
    rw [List.countP_pos_iff]
    refine ⟨LF, ?_, rfl⟩
    apply List.mem_of_getLast?
    rw [List.getLast?_drop, if_neg (by omega)]
    cases its with
    | nil => simp at hlt
    | cons it its => exact getLast?_blocks it its
  omega

lemma lastPart_eq_block (hcut : ¬CutsInside its) : ∃ it ∈ its, ∃ rest, lastPart its = it.block ++ rest := by
  obtain ⟨pre, it, post, hits, hle, hlt⟩ := exists_block its (lastStart_lt hvalue)
  have hstart : lastStart its = (pre.map Item.block).flatten.length := by
    by_contra hne
    exact hcut ⟨pre, it, post, hits, by omega, hlt⟩
  refine ⟨it, ?_, (post.map Item.block).flatten ++ getEnd, ?_⟩
  · rw [hits]
    simp
  · rw [lastPart, hstart, replyText, hits]
    simp

/-- A last datagram that starts with a whole block is filed under a key of the list. -/
lemma filesOwn_lastPart (hlen : (lastPart its).length ≤ bmcMaxCacheDataSize) (hcut : ¬CutsInside its) :
    FilesOwn its (lastPart its) := by
  obtain ⟨it, hmem, rest, hpart⟩ := lastPart_eq_block hvalue hcut
  rw [hpart] at hlen ⊢
  exact filesOwn_block hmem hlen

end LastPart

/-! ### The datagrams on their way out -/

/-- A datagram of memcached in a frame without IP options, all of it in the linear part. -/
structure IsReplyFrame (skb : SkBuff) : Prop where
  whole : skb.len = skb.linear.length
  protocol : byteAt skb.linear (ethHlen + 9) = ipprotoUdp
  port : be16At skb.linear (ethHlen + sizeofIphdr) = memcachedPort

def datagram (skb : SkBuff) : List Byte := skb.linear.drop (ethHlen + sizeofIphdr + sizeofUdphdr)

/-- The cache after the packets have left one after the other. -/
def transmitAll : List SkBuff → BmcStats → Cache → Cache
  | [], _, c => c
  | skb :: skbs, stats, c =>
    transmitAll skbs (bmcTxFilterMain skb stats c).stats (bmcTxFilterMain skb stats c).kcache

/-- A slot that has changed from `c` to `c'` is that of an item's key and holds, under the hash
of that key, bytes of the item's block. -/
def OwnSlots (its : List Item) (c c' : Cache) : Prop :=
  ∀ i, c' i = c i ∨ ∃ it ∈ its, slotOf it.key = i.val ∧ (c' i).hash = fnv1aHash32 it.key ∧
    (c' i).block <:+: it.block

lemma payload_eq_drop_datagram (skb : SkBuff) : SkBuff.payload skb = (datagram skb).drop udpHeaderSize := by
  rw [SkBuff.payload, datagram, List.drop_drop]

lemma isGetReply_iff {skb : SkBuff} (h : IsReplyFrame skb) : isGetReply skb = true ↔
    (SkBuff.payload skb).length ≤ bmcMaxCacheDataSize ∧ isValue (SkBuff.payload skb) = true := by
  have hpayload : (SkBuff.payload skb).length = skb.linear.length - headersLen := by
    rw [SkBuff.payload, List.length_drop]
  simp only [isGetReply, h.whole, h.protocol, h.port, beq_self_eq_true, Bool.and_true, Bool.and_eq_true,
    decide_eq_true_eq]
  constructor
  · rintro ⟨⟨hlen, -⟩, hvalue⟩
    exact ⟨by omega, hvalue⟩
  · rintro ⟨hlen, hvalue⟩
    have hsix : 6 ≤ (SkBuff.payload skb).length := (List.isPrefixOf_iff_prefix.mp hvalue).length_le
    exact ⟨⟨by omega, by omega⟩, hvalue⟩

lemma ownSlots_step {its : List Item} {c c' : Cache} {skb : SkBuff} (h : OwnSlots its c c')
    (hskb : isGetReply skb = true → CompleteReply (SkBuff.payload skb) ∧ FilesOwn its (SkBuff.payload skb))
    (stats : BmcStats) : OwnSlots its c (bmcTxFilterMain skb stats c').kcache := by
  by_cases hreply : isGetReply skb = true
  · obtain ⟨hcomplete, it, hit, hhash, hinfix⟩ := hskb hreply
    rw [← replyHash_eq] at hhash
    rw [txFilter_reply hreply]
    generalize SkBuff.payload skb = payload at *
    intro i
    rw [Cache.store_apply]
    split_ifs with hi
    · by_cases hup : upToDate (c'.at (replyHash payload)) (replyHash payload) payload = true
      · rw [updateEntry_upToDate hup]
        have hslot : c'.at (replyHash payload) = c' i := congrArg c' (Fin.ext hi.symm)
        rw [hslot]
        exact h i
      · rw [Bool.not_eq_true] at hup
        obtain ⟨-, hnew, -, hblock⟩ := updateEntry_complete hup hcomplete
        right
        refine ⟨it, hit, ?_, ?_, ?_⟩
        · rw [slotOf, hhash, hi]
        · rw [hnew, hhash]
        · rw [hblock]
          exact hinfix
    · exact h i
  · rw [txFilter_other (Bool.not_eq_true _ ▸ hreply)]
    exact h

lemma ownSlots_transmitAll {its : List Item} {c : Cache} (skbs : List SkBuff)
    (hskbs : ∀ skb ∈ skbs, isGetReply skb = true →
      CompleteReply (SkBuff.payload skb) ∧ FilesOwn its (SkBuff.payload skb))
    (stats : BmcStats) (c' : Cache) (h : OwnSlots its c c') : OwnSlots its c (transmitAll skbs stats c') := by
  induction skbs generalizing stats c' with
  | nil => exact h
  | cons skb skbs ih =>
    rw [transmitAll]
    apply ih
    · exact fun skb' hmem => hskbs skb' (List.mem_cons_of_mem _ hmem)
    · exact ownSlots_step h (hskbs skb List.mem_cons_self) stats

lemma transmitAll_append (skbs skbs' : List SkBuff) (stats : BmcStats) (c : Cache)
    (hother : ∀ skb ∈ skbs, isGetReply skb = false) :
    ∃ stats', transmitAll (skbs ++ skbs') stats c = transmitAll skbs' stats' c := by
  induction skbs generalizing stats with
  | nil => exact ⟨stats, rfl⟩
  | cons skb skbs ih =>
    rw [List.cons_append, transmitAll, txFilter_other (hother skb List.mem_cons_self)]
    exact ih _ fun skb' hmem => hother skb' (List.mem_cons_of_mem _ hmem)

/-- The datagram in a frame with the headers of the sample reply. -/
def sampleFrame (d : List Byte) : SkBuff :=
  ⟨(sampleHeaders false).take (ethHlen + sizeofIphdr + sizeofUdphdr) ++ d, _, Nat.le_refl _⟩

lemma sampleFrame_isReplyFrame (d : List Byte) : IsReplyFrame (sampleFrame d) := by
  constructor
  · rfl
  · rfl
  · rw [sampleFrame, be16At_append (by decide)]
    rfl

lemma datagram_sampleFrame (d : List Byte) : datagram (sampleFrame d) = d := by
  rw [datagram, sampleFrame]
  exact List.drop_left' rfl

lemma filesOwn_of_ownSlots {its : List Item} {skb : SkBuff} (hreply : isGetReply skb = true)
    (hcomplete : CompleteReply (SkBuff.payload skb)) (stats : BmcStats)
    (h : OwnSlots its Cache.zeroed (bmcTxFilterMain skb stats Cache.zeroed).kcache) :
    FilesOwn its (SkBuff.payload skb) := by
  rw [txFilter_reply hreply] at h
  generalize SkBuff.payload skb = payload at *
  have hstale : upToDate (Cache.zeroed.at (replyHash payload)) (replyHash payload) payload = false := rfl
  obtain ⟨hvalid, hhash, -, hblock⟩ := updateEntry_complete hstale hcomplete
  have hslot := h ⟨cacheIdx (replyHash payload), cacheIdx_lt _⟩
  rw [Cache.store_apply, if_pos rfl] at hslot
  rcases hslot with hsame | ⟨it, hit, -, hkey, hinfix⟩
  · rw [hsame] at hvalid
    simp [Cache.zeroed, BmcCacheEntry.zero] at hvalid
  · refine ⟨it, hit, ?_, ?_⟩
    · rw [← replyHash_eq, ← hkey, hhash]
    · rw [← hblock]
      exact hinfix

/-- A full datagram does not pass the filter: what passes is the last one. -/
lemma payload_of_reply {requestId : ℕ} {its : List Item} {skb : SkBuff} (hskb : IsReplyFrame skb)
    (hmem : datagram skb ∈ getDatagrams requestId its) (hreply : isGetReply skb = true) :
    SkBuff.payload skb = lastPart its := by
  have hlim := limits
  have hudp := udpSizes
  obtain ⟨full, hcut, hfull⟩ := getDatagrams_cut requestId its
  obtain ⟨hlen, -⟩ := (isGetReply_iff hskb).mp hreply
  have hpart : SkBuff.payload skb ∈ full ++ [lastPart its] := by
    rw [← hcut, payload_eq_drop_datagram]
    exact List.mem_map_of_mem hmem
  rcases List.mem_append.mp hpart with hpart | hpart
  · have hroom := hfull _ hpart
    omega
  · exact List.mem_singleton.mp hpart

/-- The datagrams of a reply fill the slots of its own keys only, whatever their order, exactly
when no block is cut where a text of the shape of a reply for another key starts. -/
theorem reply_fills_own_slots_iff (requestId : ℕ) (its : List Item) :
    (∀ skbs : List SkBuff, (∀ skb ∈ skbs, IsReplyFrame skb) →
      (skbs.map datagram).Perm (getDatagrams requestId its) →
      ∀ stats c, OwnSlots its c (transmitAll skbs stats c)) ↔
    (CutsInside its → (lastPart its).length ≤ bmcMaxCacheDataSize → isValue (lastPart its) = true →
      FilesOwn its (lastPart its)) := by
  have hlim := limits
  have hudp := udpSizes
  obtain ⟨full, hcut, hfull⟩ := getDatagrams_cut requestId its
  constructor
  · intro h _ hlen hvalue
    obtain ⟨init, last, hdatagrams, hinit, hlast⟩ := List.map_eq_append_iff.mp hcut
    obtain ⟨d, rfl, hd⟩ := List.map_eq_singleton_iff.mp hlast
    -- the full datagrams first, which leave the empty cache as it is
    have hown := h ((init ++ [d]).map sampleFrame) ?_ ?_ PerCpu.zeroed.stats Cache.zeroed
    · have hother : ∀ skb ∈ init.map sampleFrame, isGetReply skb = false := by
        intro skb hskb
        obtain ⟨e, he, rfl⟩ := List.mem_map.mp hskb
        rw [← Bool.not_eq_true, isGetReply_iff (sampleFrame_isReplyFrame e), payload_eq_drop_datagram,
          datagram_sampleFrame, hfull _ (hinit ▸ List.mem_map_of_mem he)]
        omega
      rw [List.map_append] at hown
      obtain ⟨stats', htransmit⟩ := transmitAll_append (init.map sampleFrame) ([d].map sampleFrame)
        PerCpu.zeroed.stats Cache.zeroed hother
      rw [htransmit, List.map_singleton, transmitAll, transmitAll] at hown
      have hpayload : SkBuff.payload (sampleFrame d) = lastPart its := by
        rw [payload_eq_drop_datagram, datagram_sampleFrame, hd]
      rw [← hpayload] at hlen hvalue ⊢
      refine filesOwn_of_ownSlots ((isGetReply_iff (sampleFrame_isReplyFrame d)).mpr ⟨hlen, hvalue⟩)
        ?_ stats' hown
      rw [hpayload] at hlen hvalue ⊢
      exact completeReply_lastPart hvalue hlen
    · intro skb hskb
      obtain ⟨e, -, rfl⟩ := List.mem_map.mp hskb
      exact sampleFrame_isReplyFrame e
    · rw [hdatagrams, List.map_map]
      have hid : datagram ∘ sampleFrame = id := funext datagram_sampleFrame
      rw [hid, List.map_id]
  · intro h skbs hframes hperm stats c
    refine ownSlots_transmitAll skbs ?_ stats c fun i => Or.inl rfl
    intro skb hskb hreply
    obtain ⟨hlen, hvalue⟩ := (isGetReply_iff (hframes skb hskb)).mp hreply
    have hpayload : SkBuff.payload skb = lastPart its :=
      payload_of_reply (hframes skb hskb) (hperm.mem_iff.mp (List.mem_map_of_mem hskb)) hreply
    rw [hpayload] at hlen hvalue ⊢
    refine ⟨completeReply_lastPart hvalue hlen, ?_⟩
    by_cases hcuts : CutsInside its
    · exact h hcuts hlen hvalue
    · exact filesOwn_lastPart hvalue hlen hcuts

/-! #### A value that forges a reply -/

def forgingValue : List Byte := List.replicate 1376 (chr 'x') ++ ascii "VALUE b 0 1\r\ny\r\n".toList

/-- An item of the key `a` whose block is cut right before the forged one. -/
def forgingItem : Item where
  key := ascii ['a']
  flags := 0
  value := forgingValue
  chunks := [forgingValue ++ crlf]
  isKey := ⟨by decide, by decide, by decide, by decide⟩
  flags_lt := zero_flags_lt
  chunks_eq := by simp
  chunks_large := Or.inl rfl

/-- The datagrams of the item of `a` leave the forged block in the slot of `b`. -/
theorem value_fills_foreign_slot :
    (∀ skb ∈ (getDatagrams 7 [forgingItem]).map sampleFrame, IsReplyFrame skb) ∧
    ((getDatagrams 7 [forgingItem]).map sampleFrame).map datagram = getDatagrams 7 [forgingItem] ∧
    ((transmitAll ((getDatagrams 7 [forgingItem]).map sampleFrame) PerCpu.zeroed.stats Cache.zeroed).at
      (fnv1aHash32 (ascii ['b']))).block = ascii "VALUE b 0 1\r\ny\r\n".toList ∧
    ¬OwnSlots [forgingItem] Cache.zeroed
      (transmitAll ((getDatagrams 7 [forgingItem]).map sampleFrame) PerCpu.zeroed.stats Cache.zeroed) := by
  have hvalid : ((transmitAll ((getDatagrams 7 [forgingItem]).map sampleFrame) PerCpu.zeroed.stats
      Cache.zeroed).at (fnv1aHash32 (ascii ['b']))).valid = true := by decide +kernel
  have hslots : slotOf forgingItem.key ≠ slotOf (ascii ['b']) := by decide +kernel
  refine ⟨?_, ?_, by decide +kernel, ?_⟩
  · intro skb hskb
    obtain ⟨d, -, rfl⟩ := List.mem_map.mp hskb
    exact sampleFrame_isReplyFrame d
  · rw [List.map_map]
    have hid : datagram ∘ sampleFrame = id := funext datagram_sampleFrame
    rw [hid, List.map_id]
  · generalize transmitAll ((getDatagrams 7 [forgingItem]).map sampleFrame) PerCpu.zeroed.stats
      Cache.zeroed = c
      at hvalid
    intro hown
    rcases hown ⟨slotOf (ascii ['b']), cacheIdx_lt _⟩ with hsame | ⟨it, hit, hslot, -⟩
    · have hold := congrArg BmcCacheEntry.valid hsame
      rw [show (c ⟨slotOf (ascii ['b']), cacheIdx_lt _⟩).valid = true from hvalid] at hold
      simp [Cache.zeroed, BmcCacheEntry.zero] at hold
    · rw [List.mem_singleton.mp hit] at hslot
      exact hslots hslot

end BmcCache.Proofs
