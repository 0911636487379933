import Mathlib.Data.Int.Notation
import Mathlib.Data.List.Basic
import Mathlib.Logic.Function.Iterate

/-!
# The UDP sockets of memcached

`server_socket` opens a socket for each address that `getaddrinfo` returns and hands it to the
worker threads through `dispatch_conn_new`, which picks the threads in turn. With `reuseport` the
branch for UDP dispatches one socket and jumps back to the label `next_socket`; without it a loop
dispatches the socket once for each thread. Here is the part of it for UDP. What the system answers
to the calls made for an address is part of the address.
-/

namespace BmcCache

/-- How an attempt to open and bind a socket ends. -/
inductive Attempt
  /-- `new_socket` fails. -/
  | noSocket
  /-- `new_socket` fails with `EMFILE`. -/
  | outOfFds
  /-- `IPV6_V6ONLY` cannot be set. -/
  | notV6only
  /-- `bind` fails with `EADDRINUSE`. -/
  | inUse
  /-- `bind` fails in another way. -/
  | bindError
  | bound
  deriving DecidableEq, Repr

/-- An address: the answers to the attempts made for it one after the other, and whether `dup` gives
a descriptor for thread `c`. -/
structure Address where
  attempt : ℕ → Attempt
  dup : ℕ → Bool

structure Settings where
  numThreads : ℕ
  numThreadsPerUdp : ℕ
  reuseport : Bool

/-- The variables `thd` and `success` of `server_socket`, `last_thread` of `thread.c`, and the
threads that have been given a socket of the current address. -/
structure Listening where
  thd : ℕ
  success : ℕ
  lastThread : ℤ
  tids : List ℕ
  deriving DecidableEq, Repr

/-- How the body of the loop over the addresses ends. -/
inductive Flow
  | next
  | ret (code : ℕ)
  | exit
  deriving DecidableEq, Repr

def dispatchConnNew (st : Settings) (s : Listening) : Listening :=
  let tid := (s.lastThread + 1) % st.numThreads
  { s with lastThread := tid, tids := s.tids ++ [tid.toNat] }

/-- The loop over the threads: iterations left and `c`. -/
def dupLoop (st : Settings) (a : Address) : ℕ → ℕ → Listening → Flow × Listening
  | 0, _, s => (.next, s)
  | n + 1, c, s => if c = 0 ∨ a.dup c then dupLoop st a n (c + 1) (dispatchConnNew st s) else (.exit, s)

/-- The body of the loop from the label `next_socket` on, at attempt `k` for the address. -/
def nextSocket (st : Settings) (a : Address) (k : ℕ) (s : Listening) : Flow × Listening :=
  match a.attempt k with
  | .noSocket => (.next, s)
  | .outOfFds => (.exit, s)
  | .notV6only => (.next, s)
  | .inUse => (.next, s)
  | .bindError => (.ret 1, s)
  | .bound =>
    if st.reuseport then
      if s.thd < st.numThreadsPerUdp then
        nextSocket st a (k + 1)
          { dispatchConnNew st { s with success := s.success + 1 } with thd := s.thd + 1 }
      else (.next, { dispatchConnNew st { s with success := s.success + 1 } with thd := 0 })
    else dupLoop st a st.numThreadsPerUdp 0 { s with success := s.success + 1 }
termination_by st.numThreadsPerUdp - s.thd

/-- The loop over the addresses, with the threads that get a socket of each address visited. -/
def addressLoop (st : Settings) : List Address → Listening → Flow × List (List ℕ)
  | [], s => (.ret (if s.success = 0 then 1 else 0), [])
  | a :: rest, s =>
    match nextSocket st a 0 { s with tids := [] } with
    | (.next, s') => ((addressLoop st rest s').1, s'.tids :: (addressLoop st rest s').2)
    | (flow, s') => (flow, [s'.tids])

def serverSocket (st : Settings) (ai : List Address) (lastThread : ℤ) : Flow × List (List ℕ) :=
  addressLoop st ai ⟨0, 0, lastThread, []⟩

end BmcCache
