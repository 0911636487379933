import BmcCache.Proofs.CasRuns
import BmcCache.Proofs.CommandLines
import BmcCache.Proofs.Workload

/-!
# Counters

A value that is a number stays one under `incr` and `decr`, whether it is rewritten in its place with spaces
behind it or gets a new item, and every command that is answered with a number counts once.
-/

namespace BmcCache.Proofs

/-! ### Numbers in values -/

section Digits

variable {ds : List Byte} (hne : ds ≠ []) (hall : ∀ b ∈ ds, isDigit b = true) {c : Byte}
    (hc : isDigit c = false)

end Digits

section Behind

/-- The text that `strtoull` reads behind the spaces. -/
def unspaced (str : List Byte) : List Byte := str.dropWhile isSpace

/-- And behind the sign. -/
def unsigned (str : List Byte) : List Byte :=
  if (unspaced str).head? == some (chr '-') || (unspaced str).head? == some (chr '+') then (unspaced str).tail
  else unspaced str

/-- The number that `strtoull` returns. -/
def ull (str : List Byte) : ℕ :=
  let n := digitsValue ((unsigned str).takeWhile isDigit)
  if (unspaced str).head? == some (chr '-') then (2 ^ 64 - n) % 2 ^ 64 else n

variable {str : List Byte} (hdigits : (unsigned str).takeWhile isDigit ≠ []) (behind : List Byte)

end Behind

/-! ### One command -/

section Step

variable {mem : ItemAlloc} {s : Server} {k : List Byte} {n : ℕ}

end Step

/-! ### Runs -/

/-- The delta for a key that a packet brings, if it is answered with a number. -/
def countedBy (k : List Byte) (w : World) (p : Packet) : List (Bool × ℕ) :=
  match p.command with
  | .arithmetic incr key delta _ =>
    match p.accepted && key == k, (doAddDelta p.mem (handled w p) key incr delta).2 with
    | true, .ok _ => [(incr, delta)]
    | _, _ => []
  | _ => []

def counted (k : List Byte) : World → List Packet → List (Bool × ℕ)
  | _, [] => []
  | w, p :: ps => countedBy k w p ++ counted k (w.step p) ps

section Run

variable {w : World} {k : List Byte} {n : ℕ} {p : Packet}

end Run

end BmcCache.Proofs
