import BmcCache.Model.Server

/-!
# A connection

How memcached finds the commands in what it reads: `tokenize_command`, the part of `process_command`
in front of the operations on items, and the states of `drive_machine` in which a connection over TCP
reads. Replies are written between two commands.
-/

namespace BmcCache

abbrev maxTokens : ℕ := 8

/-! ### Tokens -/

/-- The tokens with their texts, and what the value of the last one, which is empty, points to. -/
structure Tokens where
  tokens : List (List Byte)
  rest : Option (List Byte)
  deriving DecidableEq, Repr

namespace Tokens

def ntokens (t : Tokens) : ℕ := t.tokens.length + 1

def value (t : Tokens) (i : ℕ) : List Byte := t.tokens.getD i []

end Tokens

/-- The loop of `tokenize_command`: the tokens so far, the one that is being read, and the text from
the current character on. -/
def tokenizeLoop (maxTokens : ℕ) (tokens : List (List Byte)) (token : List Byte) : List Byte → Tokens
  | [] => ⟨if token = [] then tokens else tokens ++ [token], none⟩
  | c :: cs =>
    if c = SP then
      if token = [] then tokenizeLoop maxTokens tokens [] cs
      else if tokens.length + 1 = maxTokens - 1 then ⟨tokens ++ [token], if cs = [] then none else some cs⟩
      else tokenizeLoop maxTokens (tokens ++ [token]) [] cs
    else tokenizeLoop maxTokens tokens (token ++ [c]) cs

def tokenizeCommand (command : List Byte) (maxTokens : ℕ) : Tokens :=
  tokenizeLoop maxTokens [] [] (command.takeWhile (· ≠ 0))

/-! ### Command lines -/

/-- The line of a storage command. -/
structure UpdateLine where
  comm : StorageVerb
  key : List Byte
  flags : ℕ
  exptime : ℤ
  vlen : ℕ
  reqCas : ℕ
  noreply : Bool
  deriving DecidableEq, Repr

inductive CommandLine
  | get (keys : List (List Byte))
  | update (line : UpdateLine)
  | arithmetic (incr : Bool) (key : List Byte) (delta : ℕ) (noreply : Bool)
  | delete (key : List Byte) (noreply : Bool)
  | error (text : List Byte) (noreply : Bool)
  /-- One of the commands that are not about items and their values, or none. -/
  | other
  deriving DecidableEq, Repr

def badFormat : List Byte := ascii "CLIENT_ERROR bad command line format".toList

/-- The loop of `process_get_command`, `none` when it comes upon a key that is too long; the counter
bounds its iterations. -/
def getKeysLoop : ℕ → Tokens → Option (List (List Byte))
  | 0, _ => some []
  | n + 1, t =>
    if t.tokens.any fun key => decide (keyMaxLength < key.length) then none
    else
      match t.rest with
      | none => some t.tokens
      | some rest =>
        let next := tokenizeCommand rest maxTokens
        if next.tokens = [] then some t.tokens else (getKeysLoop n next).map (t.tokens ++ ·)

/-- The keys `process_get_command` looks up. -/
def processGetKeys (command : List Byte) (t : Tokens) : CommandLine :=
  match getKeysLoop (command.length + 1) ⟨t.tokens.tail, t.rest⟩ with
  | some keys => .get keys
  | none => .error badFormat false

def setNoreplyMaybe (t : Tokens) : Bool := t.value (t.ntokens - 2) == ascii "noreply".toList

/-- `process_update_command` as far as it reads the line. -/
def processUpdateLine (t : Tokens) (comm : StorageVerb) (handleCas : Bool) : CommandLine :=
  let noreply := setNoreplyMaybe t
  if keyMaxLength < (t.value 1).length then .error badFormat noreply
  else
    match safeStrtoul (t.value 2), safeStrtol (t.value 3), safeStrtol (t.value 4),
      (if handleCas then safeStrtoull (t.value 5) else some 0) with
    | some flags, some exptime, some vlen, some reqCas =>
      if vlen < 0 ∨ (intMax : ℤ) - 2 < vlen then .error badFormat noreply
      else .update ⟨comm, t.value 1, flags, exptime, vlen.toNat, reqCas, noreply⟩
    | _, _, _, _ => .error badFormat noreply

def processArithmeticLine (t : Tokens) (incr : Bool) : CommandLine :=
  let noreply := setNoreplyMaybe t
  if keyMaxLength < (t.value 1).length then .error badFormat noreply
  else
    match safeStrtoull (t.value 2) with
    | some delta => .arithmetic incr (t.value 1) delta noreply
    | none => .error (ascii "CLIENT_ERROR invalid numeric delta argument".toList) noreply

def processDeleteLine (t : Tokens) : CommandLine :=
  let holdIsZero := t.value 2 == ascii ['0']
  let noreply := decide (3 < t.ntokens) && setNoreplyMaybe t
  if 3 < t.ntokens ∧ ¬(t.ntokens = 4 ∧ (holdIsZero = true ∨ noreply = true)) ∧
      ¬(t.ntokens = 5 ∧ holdIsZero = true ∧ noreply = true) then
    .error (ascii "CLIENT_ERROR bad command line format.  Usage: delete <key> [noreply]".toList) noreply
  else if keyMaxLength < (t.value 1).length then .error badFormat noreply
  else .delete (t.value 1) noreply

def updateVerb (command : List Byte) : Option StorageVerb :=
  [StorageVerb.add, .set, .replace, .prepend, .append].find? fun verb => verb.text == command

/-- `process_command` as far as it reads the line. -/
def processCommandLine (command : List Byte) : CommandLine :=
  let t := tokenizeCommand command maxTokens
  let name := t.value 0
  if 3 ≤ t.ntokens ∧ (name = ascii "get".toList ∨ name = ascii "bget".toList) then processGetKeys command t
  else
    match updateVerb name with
    | some comm => if t.ntokens = 6 ∨ t.ntokens = 7 then processUpdateLine t comm false else .other
    | none =>
      if (t.ntokens = 7 ∨ t.ntokens = 8) ∧ name = StorageVerb.cas.text then processUpdateLine t .cas true
      else if (t.ntokens = 4 ∨ t.ntokens = 5) ∧ name = ascii "incr".toList then processArithmeticLine t true
      else if (t.ntokens = 4 ∨ t.ntokens = 5) ∧ name = ascii "decr".toList then processArithmeticLine t false
      else if 3 ≤ t.ntokens ∧ t.ntokens ≤ 5 ∧ name = ascii "delete".toList then processDeleteLine t
      else .other

/-! ### Reading -/

inductive ReadResult
  | needMore
  | close
  | line (command rest : List Byte)
  deriving DecidableEq, Repr

/-- `try_read_command_ascii` on what is in the buffer. -/
def tryReadCommandAscii (rbuf : List Byte) : ReadResult :=
  let line := rbuf.takeWhile (· ≠ LF)
  if line.length = rbuf.length then
    if 1024 < rbuf.length then
      let ptr := rbuf.dropWhile (· == SP)
      if 100 < rbuf.length - ptr.length ∨
          ¬(ascii "get ".toList <+: ptr) ∧ ¬(ascii "gets ".toList <+: ptr) then .close
      else .needMore
    else .needMore
  else
    .line (if 1 < line.length ∧ line.getLast? = some CR then line.dropLast else line)
    (rbuf.drop (line.length + 1))

/-- What memcached sends for the text of a datagram when it is a request for values. -/
def getReply (s : Store) (text : List Byte) : Option (List Byte) :=
  match tryReadCommandAscii text with
  | .line command _ =>
    match processCommandLine command with
    | .get keys => some (processGetCommand s keys)
    | _ => none
  | _ => none

inductive ConnState
  | newCmd
  /-- The item of a storage command is read: what has been read of it, and how much is left. -/
  | nread (line : UpdateLine) (ritem : List Byte) (rlbytes : ℕ)
  | swallow (sbytes : ℕ)
  | closing
  deriving DecidableEq, Repr

/-- What becomes of the commands of a connection. -/
inductive Event
  | run (line : CommandLine)
  | store (line : UpdateLine) (data : List Byte)
  | badChunk (line : UpdateLine)
  /-- There was no memory for the item, or it is too large. -/
  | noRoom (line : UpdateLine)
  deriving DecidableEq, Repr

/-- A connection over TCP, and the bytes of its client that have not been read. -/
structure Session where
  state : ConnState
  rbuf : List Byte
  socket : List Byte
  events : List Event
  deriving DecidableEq, Repr

/-- How much is read at a time is up to the network. -/
inductive ConnAction
  | read (n : ℕ)
  | parse (room : Bool)
  /-- Bytes of the buffer go into the item, or are thrown away. -/
  | copy
  /-- Bytes of the socket do. -/
  | receive (n : ℕ)
  /-- Bytes of the buffer go into a chunk of the item, and there is no room for the next chunk. -/
  | noChunk (n : ℕ)
  | finish
  deriving DecidableEq, Repr

namespace Session

def init (stream : List Byte) : Session := ⟨.newCmd, [], stream, []⟩

/-- `complete_nread_ascii`. -/
def completeNreadAscii (s : Session) (line : UpdateLine) (ritem : List Byte) : Session :=
  let data := ritem.take (ritem.length - 2)
  if ritem.drop (ritem.length - 2) = crlf then
    { s with state := .newCmd, events := s.events ++ [.store line data] }
  else { s with state := .newCmd, events := s.events ++ [.badChunk line] }

/-- Without room for an item, or for the rest of it, the error is written and the data that is left is
thrown away, but `out_string` starts the next command at once when there is no reply. -/
def noRoom (s : Session) (line : UpdateLine) (left : ℕ) : Session :=
  { s with
    state := if line.noreply then .newCmd else .swallow left
    events := s.events ++ [.noRoom line] }

def processLine (s : Session) (rest : List Byte) (room : Bool) : CommandLine → Session
  | .update line =>
    if room then { s with state := .nread line [] (line.vlen + 2), rbuf := rest }
    else { s with rbuf := rest }.noRoom line (line.vlen + 2)
  | line => { s with rbuf := rest, events := s.events ++ [.run line] }

def step (s : Session) : ConnAction → Option Session
  | .read n =>
    match s.state with
    | .newCmd =>
      if 0 < n ∧ n ≤ s.socket.length then
        some { s with rbuf := s.rbuf ++ s.socket.take n, socket := s.socket.drop n }
      else none
    | _ => none
  | .parse room =>
    match s.state with
    | .newCmd =>
      match tryReadCommandAscii s.rbuf with
      | .needMore => none
      | .close => some { s with state := .closing }
      | .line command rest => some (s.processLine rest room (processCommandLine command))
    | _ => none
  | .copy =>
    if s.rbuf = [] then none
    else
      match s.state with
      | .nread line ritem (k + 1) =>
        let tocopy := min s.rbuf.length (k + 1)
        some { s with
          state := .nread line (ritem ++ s.rbuf.take tocopy) (k + 1 - tocopy)
          rbuf := s.rbuf.drop tocopy }
      | .swallow (k + 1) =>
        let tocopy := min s.rbuf.length (k + 1)
        some { s with state := .swallow (k + 1 - tocopy), rbuf := s.rbuf.drop tocopy }
      | _ => none
  | .receive n =>
    if s.rbuf ≠ [] ∨ n = 0 ∨ s.socket.length < n then none
    else
      match s.state with
      | .nread line ritem (k + 1) =>
        if n ≤ k + 1 then
          some { s with
            state := .nread line (ritem ++ s.socket.take n) (k + 1 - n)
            socket := s.socket.drop n }
        else none
      | .swallow (k + 1) =>
        if n ≤ k + 1 then some { s with state := .swallow (k + 1 - n), socket := s.socket.drop n } else none
      | _ => none
  | .noChunk n =>
    match s.state with
    | .nread line _ (k + 1) =>
      if n ≤ s.rbuf.length ∧ n ≤ k then some ({ s with rbuf := s.rbuf.drop n }.noRoom line (k + 1 - n))
      else none
    | _ => none
  | .finish =>
    match s.state with
    | .nread line ritem 0 => some (s.completeNreadAscii line ritem)
    | .swallow 0 => some { s with state := .newCmd }
    | _ => none

end Session

end BmcCache
