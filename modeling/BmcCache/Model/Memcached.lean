import BmcCache.Model.Kernel

/-!
# What memcached puts on the wire

Items and the replies `process_get_command` builds for them: `add_iov` collects the pieces of a
reply in messages of at most `UDP_MAX_PAYLOAD_SIZE` bytes and `build_udp_headers` fills in the
eight bytes in front of each. Also the ASCII commands a client sends over TCP.
-/

namespace BmcCache

abbrev keyMaxLength : ℕ := 250
abbrev udpMaxPayloadSize : ℕ := 1400
abbrev udpHeaderSize : ℕ := 8
abbrev iovMax : ℕ := 1024

def crlf : List Byte := [CR, LF]

def itoaU32 (n : ℕ) : List Byte := ascii (Nat.toDigits 10 n)

/-- A key between spaces in a line. A null byte, where `tokenize_command` ends the line, is not excluded. -/
structure IsKey (key : List Byte) : Prop where
  pos : 0 < key.length
  le : key.length ≤ keyMaxLength
  noSpace : SP ∉ key
  noNewline : LF ∉ key

/-- An item with its value. The value and the CRLF behind it are kept in one buffer, or for a
large item behind an empty header chunk in chunks of which all but the last are large. -/
structure Item where
  key : List Byte
  flags : ℕ
  value : List Byte
  chunks : List (List Byte)
  isKey : IsKey key
  flags_lt : flags < 2 ^ 32
  chunks_eq : chunks.flatten = value ++ crlf
  chunks_large : chunks = [value ++ crlf] ∨
    512 ≤ value.length ∧ ∃ body last, chunks = [] :: (body ++ [last]) ∧
    (∀ b ∈ body, 512 ≤ b.length) ∧ last ≠ []
  deriving DecidableEq

lemma zero_flags_lt : 0 < 2 ^ 32 := by decide

namespace Item

/-- `make_ascii_get_suffix` without a CAS value; `nbytes` counts the CRLF behind the value. -/
def suffix (it : Item) : List Byte :=
  SP :: (itoaU32 it.flags ++ SP :: (itoaU32 it.value.length ++ crlf))

/-- The block of an item in a reply. -/
def block (it : Item) : List Byte :=
  ascii ['V', 'A', 'L', 'U', 'E', ' '] ++ (it.key ++ (it.suffix ++ (it.value ++ crlf)))

end Item

/-! ### Messages -/

/-- The pending data of a UDP connection: the messages before the current one and the current
one, each as the list of its buffers, the first of which is the place of the header. -/
structure Conn where
  before : List (List (List Byte))
  current : List (List Byte)
  msgbytes : ℕ

/-- `add_msghdr`, which leaves room for the UDP header. -/
def addMsghdr (c : Conn) : Conn :=
  ⟨c.before ++ [c.current], [List.replicate udpHeaderSize 0], udpHeaderSize⟩

def Conn.fresh : Conn := ⟨[], [List.replicate udpHeaderSize 0], udpHeaderSize⟩

/-- The `do`-`while` loop of `add_iov`; the counter bounds its iterations. -/
def addIovLoop : ℕ → Conn → List Byte → Conn
  | 0, c, _ => c
  | n + 1, c, buf =>
    let c := if c.current.length = iovMax ∨ udpMaxPayloadSize ≤ c.msgbytes then addMsghdr c else c
    let leftover := buf.length + c.msgbytes - udpMaxPayloadSize
    let len := buf.length - leftover
    let c := ⟨c.before, c.current ++ [buf.take len], c.msgbytes + len⟩
    if 0 < leftover then addIovLoop n c (buf.drop len) else c

def addIov (c : Conn) (buf : List Byte) : Conn := addIovLoop (buf.length + 1) c buf

/-- The buffers `process_get_command` adds for an item it has found. -/
def addItem (c : Conn) (it : Item) : Conn :=
  let c := addIov c (ascii ['V', 'A', 'L', 'U', 'E', ' '])
  let c := addIov c it.key
  let c := addIov c it.suffix
  it.chunks.foldl addIov c

def getEnd : List Byte := ascii ['E', 'N', 'D', '\r', '\n']

/-- The header `build_udp_headers` writes in front of message `i` of `n`. -/
def udpHeader (requestId i n : ℕ) : List Byte :=
  [(requestId / 256).toUInt8, (requestId % 256).toUInt8, (i / 256).toUInt8, (i % 256).toUInt8,
    (n / 256).toUInt8, (n % 256).toUInt8, 0, 0]

/-- `build_udp_headers`: the messages as they are sent. -/
def buildUdpHeaders (c : Conn) (requestId : ℕ) : List (List Byte) :=
  (c.before ++ [c.current]).mapIdx fun i msg =>
    udpHeader requestId i (c.before.length + 1) ++ (msg.drop 1).flatten

/-- The datagrams of the reply to a get that finds the items `its`. -/
def getDatagrams (requestId : ℕ) (its : List Item) : List (List Byte) :=
  buildUdpHeaders (addIov (its.foldl addItem Conn.fresh) getEnd) requestId

/-! ### The store -/

/-- The items memcached holds, each under its own key. -/
structure Store where
  find : List Byte → Option Item
  key_of_find : ∀ {k it}, find k = some it → it.key = k

namespace Store

def empty : Store := ⟨fun _ => none, by simp⟩

/-- The store after a `set` of the item. -/
def set (s : Store) (it : Item) : Store where
  find := fun k => if k = it.key then some it else s.find k
  key_of_find := by
    intro k it' h
    split_ifs at h with hk
    · rw [← Option.some.inj h, hk]
    · exact s.key_of_find h

end Store

def replyText (its : List Item) : List Byte := (its.map Item.block).flatten ++ getEnd

/-- The text of the reply `process_get_command` builds for the keys it has read. -/
def processGetCommand (s : Store) (ks : List (List Byte)) : List Byte := replyText (ks.filterMap s.find)

/-! ### The retrieval commands -/

inductive RetrievalVerb
  | get
  | bget
  | gets
  | gat
  | gats
  deriving DecidableEq, Repr

/-- The argument `return_cas` of `process_get_command` for the command. -/
def RetrievalVerb.returnCas : RetrievalVerb → Bool
  | .get => false
  | .bget => false
  | .gets => true
  | .gat => false
  | .gats => true

def itoaU64 (n : ℕ) : List Byte := ascii (Nat.toDigits 10 n)

def makeAsciiGetSuffix (it : Item) (cas : ℕ) (returnCas : Bool) : List Byte :=
  SP :: (itoaU32 it.flags ++ SP :: (itoaU32 it.value.length ++
    ((if returnCas then SP :: itoaU64 cas else []) ++ crlf)))

/-- The block of an item with the CAS value `cas` in the reply to the command. -/
def RetrievalVerb.block (verb : RetrievalVerb) (it : Item) (cas : ℕ) : List Byte :=
  ascii ['V', 'A', 'L', 'U', 'E', ' '] ++
    (it.key ++ (makeAsciiGetSuffix it cas verb.returnCas ++ (it.value ++ crlf)))

/-- The reply to the command when it names the item alone. -/
def RetrievalVerb.reply (verb : RetrievalVerb) (it : Item) (cas : ℕ) : List Byte :=
  verb.block it cas ++ getEnd

/-! ### Commands -/

inductive StorageVerb
  | set
  | add
  | replace
  | append
  | prepend
  | cas
  deriving DecidableEq, Repr

def StorageVerb.text : StorageVerb → List Byte
  | .set => ascii ['s', 'e', 't']
  | .add => ascii ['a', 'd', 'd']
  | .replace => ascii ['r', 'e', 'p', 'l', 'a', 'c', 'e']
  | .append => ascii ['a', 'p', 'p', 'e', 'n', 'd']
  | .prepend => ascii ['p', 'r', 'e', 'p', 'e', 'n', 'd']
  | .cas => ascii ['c', 'a', 's']

/-- A complete command: a storage command with its data block, or one of the commands that are
a single line. `more` is what follows the length: a CAS value, `noreply` or nothing. -/
inductive Command
  | storage (verb : StorageVerb) (key flags exptime more data : List Byte)
  | line (text : List Byte)

namespace Command

def bytes : Command → List Byte
  | .storage verb key flags exptime more data =>
    verb.text ++ SP :: (key ++ SP :: (flags ++ SP :: (exptime ++ SP :: (itoaU32 data.length ++
      (more ++ (crlf ++ (data ++ crlf)))))))
  | .line text => text ++ crlf

def payload (cmds : List Command) : List Byte := (cmds.map bytes).flatten

/-- Keys are those the protocol allows: neither spaces nor control bytes. -/
def WellFormed : Command → Prop
  | .storage _ key _ _ _ _ => 0 < key.length ∧ key.length ≤ keyMaxLength ∧ ∀ b ∈ key, SP < b ∧ b ≠ 127
  | .line text => LF ∉ text

def setKey : Command → Option (List Byte)
  | .storage .set key _ _ _ _ => some key
  | _ => none

end Command

end BmcCache
