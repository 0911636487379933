import BmcCache.Model.Machine
import BmcCache.Model.Memcached

/-!
# The cache in front of memcached

The machine of the programs together with memcached and what is on its way between them:
requests whose frames the programs have passed on, which memcached handles in any order and at
any later time, and datagrams of replies, which reach the egress programs at any later time.
-/

namespace BmcCache

/-- A request of a client: a GET of one key over UDP, or a `set` of an item over TCP. -/
inductive Request
  | get (hdr key : List Byte)
  | set (hdr flags exptime : List Byte) (it : Item)
  deriving DecidableEq

namespace Request

def frame : Request → List Byte
  | .get hdr key => hdr ++ (ascii ['g', 'e', 't', ' '] ++ (key ++ crlf))
  | .set hdr flags exptime it => hdr ++ (Command.storage .set it.key flags exptime [] it.value).bytes

def key : Request → List Byte
  | .get _ key => key
  | .set _ _ _ it => it.key

def setKey : Request → Option (List Byte)
  | .get _ _ => none
  | .set _ _ _ it => some it.key

/-- Requests as clients make them: keys without spaces and control bytes, one segment for a
`set`, and no newline in its data. -/
def WellFormed : Request → Prop
  | .get hdr key => IsUdpHeader hdr ∧ 0 < key.length ∧ key.length ≤ keyMaxLength ∧ ∀ b ∈ key, SP < b ∧ b ≠ 127
  | .set hdr flags exptime it => IsTcpHeader hdr ∧ (∀ b ∈ it.key, SP < b ∧ b ≠ 127) ∧ LF ∉ it.value ∧
    (Command.storage .set it.key flags exptime [] it.value).bytes.length ≤ 1460

end Request

structure System where
  machine : Machine
  /-- The request whose frame a CPU works on. -/
  current : ℕ → Option Request
  /-- The requests whose frames have been passed on to memcached. -/
  passed : List Request
  store : Store
  /-- The datagrams memcached has sent. -/
  emitted : List (List Byte)

inductive SystemAction
  | receive (cpu : ℕ) (headroom : List Byte) (r : Request)
  | advance (cpu : ℕ)
  | deliver (i : ℕ)
  | transmit (cpu i : ℕ) (hdr : List Byte)

def frameOf (hdr d : List Byte) : SkBuff := ⟨hdr ++ d, (hdr ++ d).length, Nat.le_refl _⟩

namespace System

def booted : System := ⟨Machine.booted, fun _ => none, [], Store.empty, []⟩

/-- The machine has made a step on `cpu`. A frame that is passed on as it was received reaches
memcached; any other verdict ends the request. -/
def advanced (s : System) (cpu : ℕ) (m : Machine) : Option (XdpAction × XdpMd) → System
  | none => { s with machine := m }
  | some (action, ctx) =>
    { s with
      machine := m
      current := Function.update s.current cpu none
      passed := ((s.current cpu).filter fun r => action = .pass ∧ ctx.pkt = r.frame).toList ++ s.passed }

def handled (s : System) : Request → System
  | .get hdr key =>
    let sent := getDatagrams (be16At hdr (headersLen - udpHeaderSize)) (s.store.find key).toList
    { s with emitted := s.emitted ++ sent }
  | .set _ _ _ it => { s with store := s.store.set it }

def step (s : System) : SystemAction → Option System
  | .receive cpu headroom r =>
    (s.machine.step (.receive cpu headroom r.frame)).map fun p =>
      { s with machine := p.1, current := Function.update s.current cpu (some r) }
  | .advance cpu => (s.machine.step (.advance cpu)).map fun p => s.advanced cpu p.1 p.2
  | .deliver i => s.passed[i]?.map fun r => { s.handled r with passed := s.passed.eraseIdx i }
  | .transmit cpu i hdr =>
    s.emitted[i]?.bind fun d => (s.machine.step (.transmit cpu (frameOf hdr d))).map fun p =>
      { s with machine := p.1, emitted := s.emitted.eraseIdx i }

end System

end BmcCache
