import BmcCache.Model.Memcached
import BmcCache.Model.Ingress
import BmcCache.Model.Egress

/-!
# Memcached behind the cache, one packet at a time

What `process_command` does to the items for the commands of the ASCII protocol, and runs in which
each packet is handled to its end before the next one arrives: by the ingress programs, by
memcached if they pass it on, and by the egress programs for memcached's reply.
-/

namespace BmcCache

abbrev intMax : ℕ := 2 ^ 31 - 1

/-! ### Numbers in text -/

def isSpace (b : Byte) : Bool := b == SP || decide (9 ≤ b ∧ b ≤ 13)

def isDigit (b : Byte) : Bool := decide (48 ≤ b ∧ b ≤ 57)

def digitsValue (digits : List Byte) : ℕ := digits.foldl (fun n b => n * 10 + (b.toNat - 48)) 0

/-- `safe_strtoull` on the bytes at `str`; what follows them ends a number like a null byte. -/
def safeStrtoull (str : List Byte) : Option ℕ :=
  let s := str.dropWhile isSpace
  let negative := s.head? == some (chr '-')
  let s := if negative || s.head? == some (chr '+') then s.tail else s
  let digits := s.takeWhile isDigit
  let n := digitsValue digits
  if digits = [] ∨ 2 ^ 64 ≤ n then none
  else
    let ull := if negative then (2 ^ 64 - n) % 2 ^ 64 else n
    let endchar := (s.drop digits.length).headD 0
    if isSpace endchar ∨ endchar = 0 then
      if 2 ^ 63 ≤ ull ∧ chr '-' ∈ str.takeWhile (· ≠ 0) then none else some ull
    else none

/-- `safe_strtoul`; `unsigned long` has 64 bits. -/
def safeStrtoul (str : List Byte) : Option ℕ := (safeStrtoull str).map (· % 2 ^ 32)

/-- `safe_strtol` on a token; `long` has 64 bits and is cut to `int32_t`. -/
def safeStrtol (str : List Byte) : Option ℤ :=
  let s := str.dropWhile isSpace
  let negative := s.head? == some (chr '-')
  let s := if negative || s.head? == some (chr '+') then s.tail else s
  let digits := s.takeWhile isDigit
  let n := digitsValue digits
  if digits = [] ∨ 2 ^ 63 + (if negative then 1 else 0) ≤ n then none
  else
    let l : ℤ := if negative then -n else n
    let endchar := (s.drop digits.length).headD 0
    if isSpace endchar ∨ endchar = 0 then some (l.bmod (2 ^ 32)) else none

/-! ### The items -/

def Item.inOneBuffer (key : List Byte) (flags : ℕ) (value : List Byte) (isKey : IsKey key)
    (flags_lt : flags < 2 ^ 32) :
    Item where
  key := key
  flags := flags
  value := value
  chunks := [value ++ crlf]
  isKey := isKey
  flags_lt := flags_lt
  chunks_eq := List.flatten_singleton
  chunks_large := Or.inl rfl

inductive AllocError
  | tooLarge
  | noMemory
  deriving DecidableEq, Repr

/-- `item_alloc` while a command is handled: whether there is room, how the item is laid out, and what an
earlier item has left in memory behind the item of a key is up to the slab allocator. -/
structure ItemAlloc where
  alloc : List Byte → ℕ → List Byte → Except AllocError Item
  behind : List Byte → List Byte
  sound : ∀ {key flags value it}, alloc key flags value = .ok it →
    it.key = key ∧ it.flags = flags ∧ it.value = value

/-- The store without the items of some keys. -/
def Store.forget (s : Store) (lost : List Byte → Bool) : Store where
  find := fun k => if lost k then none else s.find k
  key_of_find := by
    intro k it h
    split_ifs at h
    exact s.key_of_find h

/-- The items, the CAS number of the item of each key, and the counter `cas_id`. -/
structure Server where
  store : Store
  itemCas : List Byte → ℕ
  casId : ℕ

/-- `do_item_link`, after `do_item_unlink` of the item it replaces if there is one. -/
def Server.link (s : Server) (it : Item) : Server :=
  let casId := (s.casId + 1) % 2 ^ 64
  ⟨s.store.set it, Function.update s.itemCas it.key casId, casId⟩

def Server.unlink (s : Server) (key : List Byte) : Server := { s with store := s.store.forget (· == key) }

inductive StoreItemType
  | stored
  | casExists
  | notFound
  | notStored
  deriving DecidableEq, Repr

def StoreItemType.text : StoreItemType → List Byte
  | .stored => ascii "STORED".toList
  | .casExists => ascii "EXISTS".toList
  | .notFound => ascii "NOT_FOUND".toList
  | .notStored => ascii "NOT_STORED".toList

/-- The part of `do_store_item` for `append` and `prepend`: an item with both values. -/
def storeJoined (mem : ItemAlloc) (s : Server) (old : Item) (value : List Byte) : Server × StoreItemType :=
  match mem.alloc old.key old.flags value with
  | .error _ => (s, .notStored)
  | .ok it => (s.link it, .stored)

def doStoreItem (mem : ItemAlloc) (s : Server) (it : Item) (comm : StorageVerb) (reqCas : ℕ) :
    Server × StoreItemType :=
  match comm, s.store.find it.key with
  | .add, some _ => (s, .notStored)
  | .replace, none => (s, .notStored)
  | .append, none => (s, .notStored)
  | .prepend, none => (s, .notStored)
  | .cas, none => (s, .notFound)
  | .cas, some _ => if reqCas = s.itemCas it.key then (s.link it, .stored) else (s, .casExists)
  | .append, some old => storeJoined mem s old (old.value ++ it.value)
  | .prepend, some old => storeJoined mem s old (it.value ++ old.value)
  | .add, none => (s.link it, .stored)
  | .replace, some _ => (s.link it, .stored)
  | .set, _ => (s.link it, .stored)

/-- `process_update_command` with `complete_nread_ascii`. When there is no memory for the item, a `set`
still removes the item that it was to replace. -/
def processUpdateCommand (mem : ItemAlloc) (s : Server) (comm : StorageVerb) (key : List Byte) (flags : ℕ)
    (data : List Byte) (reqCas : ℕ) : Server × List Byte :=
  match mem.alloc key flags data with
  | .error e =>
    (if comm = .set then s.unlink key else s,
      match e with
      | .tooLarge => ascii "SERVER_ERROR object too large for cache".toList
      | .noMemory => ascii "SERVER_ERROR out of memory storing object".toList)
  | .ok it =>
    let r := doStoreItem mem s it comm reqCas
    (r.1, r.2.text)

inductive DeltaResult
  | ok (value : ℕ)
  | nonNumeric
  | eom
  | itemNotFound
  deriving DecidableEq, Repr

def DeltaResult.text : DeltaResult → List Byte
  | .ok value => itoaU64 value
  | .nonNumeric => ascii "CLIENT_ERROR cannot increment or decrement non-numeric value".toList
  | .eom => ascii "SERVER_ERROR out of memory".toList
  | .itemNotFound => ascii "NOT_FOUND".toList

/-- The item with other bytes in the place of its value. -/
def Item.overwritten (it : Item) (value : List Byte) : Item :=
  Item.inOneBuffer it.key it.flags value it.isKey it.flags_lt

/-- `do_add_delta`. The text that `safe_strtoull` is given does not end with the item. Nothing else holds the
item, so a number that is not longer than the value is written in its place, with spaces behind it. -/
def doAddDelta (mem : ItemAlloc) (s : Server) (key : List Byte) (incr : Bool) (delta : ℕ) :
    Server × DeltaResult :=
  match s.store.find key with
  | none => (s, .itemNotFound)
  | some it =>
    if it.value = [] ∨ it.chunks.length ≠ 1 then (s, .nonNumeric)
    else
      match safeStrtoull (it.value ++ crlf ++ mem.behind key) with
      | none => (s, .nonNumeric)
      | some value =>
        let value := if incr then (value + delta) % 2 ^ 64 else value - delta
        let buf := itoaU64 value
        if buf.length ≤ it.value.length then
          (s.link (it.overwritten (buf ++ List.replicate (it.value.length - buf.length) SP)), .ok value)
        else
          match mem.alloc key it.flags buf with
          | .error _ => (s, .eom)
          | .ok it => (s.link it, .ok value)

def processDeleteCommand (s : Server) (key : List Byte) : Server × List Byte :=
  match s.store.find key with
  | some _ => (s.unlink key, ascii "DELETED".toList)
  | none => (s, ascii "NOT_FOUND".toList)

/-! ### Commands -/

/-- The commands on items. `exptime` is its text; when items expire is not up to the commands. -/
inductive ServerCommand
  | get (keys : List (List Byte))
  | update (comm : StorageVerb) (key : List Byte) (flags : ℕ) (exptime : List Byte) (casUnique : ℕ)
  (noreply : Bool)
    (data : List Byte)
  | arithmetic (incr : Bool) (key : List Byte) (delta : ℕ) (noreply : Bool)
  | delete (key : List Byte) (noreply : Bool)

namespace ServerCommand

def noreplyText (noreply : Bool) : List Byte := if noreply then ascii " noreply".toList else []

/-- The command on the wire. -/
def command : ServerCommand → Command
  | .get keys => .line (ascii "get".toList ++ (keys.map (SP :: ·)).flatten)
  | .update comm key flags exptime casUnique noreply data =>
    .storage comm key (itoaU32 flags) exptime
      ((if comm = .cas then SP :: itoaU64 casUnique else []) ++ noreplyText noreply) data
  | .arithmetic incr key delta noreply =>
    .line (ascii (if incr then "incr " else "decr ").toList ++
      (key ++ SP :: (itoaU64 delta ++ noreplyText noreply)))
  | .delete key noreply => .line (ascii "delete ".toList ++ (key ++ noreplyText noreply))

def bytes (cmd : ServerCommand) : List Byte := cmd.command.bytes

def keys : ServerCommand → List (List Byte)
  | .get keys => keys
  | .update _ key _ _ _ _ _ => [key]
  | .arithmetic _ key _ _ => [key]
  | .delete key _ => [key]

def isNoreply : ServerCommand → Bool
  | .get _ => false
  | .update _ _ _ _ _ noreply _ => noreply
  | .arithmetic _ _ _ noreply => noreply
  | .delete _ noreply => noreply

end ServerCommand

/-- The text is one word of a line. -/
structure IsToken (text : List Byte) : Prop where
  ne_nil : text ≠ []
  noSpace : SP ∉ text
  noNull : 0 ∉ text
  noNewline : LF ∉ text

/-- The numbers of the line can be read, so that the command is accepted. -/
def ServerCommand.Readable : ServerCommand → Prop
  | .update _ _ flags exptime casUnique _ data =>
    flags < 2 ^ 64 ∧ (IsToken exptime ∧ (safeStrtol exptime).isSome) ∧ casUnique < 2 ^ 64 ∧
      data.length ≤ intMax - 2
  | .arithmetic _ _ delta _ => delta < 2 ^ 64
  | _ => True

inductive Reply
  | items (its : List Item)
  | line (text : List Byte)

def processCommand (mem : ItemAlloc) (s : Server) : ServerCommand → Server × Reply
  | .get keys => (s, .items (keys.filterMap s.store.find))
  | .update comm key flags _ casUnique _ data =>
    -- `safe_strtoul` cuts the flags
    let r := processUpdateCommand mem s comm key (flags % 2 ^ 32) data (if comm = .cas then casUnique else 0)
    (r.1, .line r.2)
  | .arithmetic incr key delta _ =>
    let r := doAddDelta mem s key incr delta
    (r.1, .line r.2.text)
  | .delete key _ =>
    let r := processDeleteCommand s key
    (r.1, .line r.2)

/-- The datagrams of a reply over UDP; a line is one buffer. -/
def Reply.datagrams (requestId : ℕ) : Reply → List (List Byte)
  | .items its => getDatagrams requestId its
  | .line text => buildUdpHeaders (addIov Conn.fresh (text ++ crlf)) requestId

def Reply.text : Reply → List Byte
  | .items its => replyText its
  | .line text => text ++ crlf

/-! ### Packets -/

inductive Transport
  | udp
  | tcp
  deriving DecidableEq, Repr

/-- A packet with one command, and what happens while it is handled: which items are gone by then,
expired or evicted, what the allocator does, and the headers of the frames of the reply. -/
structure Packet where
  cpu : ℕ
  transport : Transport
  hdr : List Byte
  headroom : List Byte
  command : ServerCommand
  lost : List Byte → Bool
  mem : ItemAlloc
  replyHdr : ℕ → List Byte

namespace Packet

def frame (p : Packet) : List Byte := p.hdr ++ p.command.bytes

/-- `try_read_udp` gives a request up that says it has more than one datagram. -/
def accepted (p : Packet) : Bool :=
  p.transport == .tcp || be16At p.hdr (headersLen - udpHeaderSize + 4) == 1

def frames (p : Packet) (r : Reply) : List SkBuff :=
  if p.command.isNoreply then []
  else
    let parts := match p.transport with
      | .udp => r.datagrams (be16At p.hdr (headersLen - udpHeaderSize))
      | .tcp => [r.text]
    parts.mapIdx fun i d => ⟨p.replyHdr i ++ d, (p.replyHdr i ++ d).length, Nat.le_refl _⟩

end Packet

structure World where
  cpus : ℕ → PerCpu
  kcache : Cache
  server : Server

namespace World

def booted : World := ⟨fun _ => PerCpu.zeroed, Cache.zeroed, ⟨Store.empty, fun _ => 0, 0⟩⟩

/-- The ingress programs on a packet. -/
def receive (w : World) (p : Packet) : XdpAction × XdpState :=
  runXdp Interference.quiet p.headroom p.frame (w.cpus p.cpu) w.kcache

/-- The egress programs on a frame. -/
def transmit (w : World) (cpu : ℕ) (skb : SkBuff) : World :=
  let r := bmcTxFilterMain skb (w.cpus cpu).stats w.kcache
  { w with cpus := Function.update w.cpus cpu { w.cpus cpu with stats := r.stats }, kcache := r.kcache }

/-- Memcached handles the command of a packet, and its reply goes out. -/
def handle (w : World) (p : Packet) : World :=
  let r := processCommand p.mem w.server p.command
  (p.frames r.2).foldl (fun w skb => w.transmit p.cpu skb) { w with server := r.1 }

def step (w : World) (p : Packet) : World :=
  let r := w.receive p
  let w := ⟨Function.update w.cpus p.cpu r.2.cpu, r.2.kcache,
    { w.server with store := w.server.store.forget p.lost }⟩
  if r.1 = .pass ∧ r.2.ctx.pkt = p.frame ∧ p.accepted = true then w.handle p else w

def run (w : World) (ps : List Packet) : World := ps.foldl step w

end World

end BmcCache
