import BmcCache.Lib.Chains
import BmcCache.Model.Memcached

/-!
# Memcached's hash table

`assoc.c`: the buckets with their chains, and the expansion that moves one bucket of the old table
at a time. Worker threads and the thread that moves the buckets are interleaved; each of them takes
one of the item locks of `thread.c` for what it does.
-/

namespace BmcCache

open Chains

/-- The table, with the chains of its buckets. `oldHashtable` is in use while `expanding`. -/
structure Assoc where
  hashpower : ℕ
  primaryHashtable : ℕ → List Item
  oldHashtable : ℕ → List Item
  expanding : Bool
  expandBucket : ℕ

/-- A bucket. -/
inductive Place
  | old (bucket : ℕ)
  | primary (bucket : ℕ)
  deriving DecidableEq, Repr

abbrev hashpowerMax : ℕ := 32

/-- The shift is one of 32 bits, which takes its count modulo 32. -/
def hashsize (n : ℕ) : ℕ := ((1 : UInt32) <<< n.toUInt32).toNat

def hashmask (n : ℕ) : ℕ := hashsize n - 1

namespace Assoc

def init (hashtableInit : ℕ) : Assoc := ⟨hashtableInit, fun _ => [], fun _ => [], false, 0⟩

/-- Where the operations look for a key with the hash value `hv`. -/
def place (t : Assoc) (hv : ℕ) : Place :=
  if t.expanding = true ∧ t.expandBucket ≤ hv &&& hashmask (t.hashpower - 1) then
    .old (hv &&& hashmask (t.hashpower - 1))
  else .primary (hv &&& hashmask t.hashpower)

def chain (t : Assoc) : Place → List Item
  | .old bucket => t.oldHashtable bucket
  | .primary bucket => t.primaryHashtable bucket

def setChain (t : Assoc) (items : List Item) : Place → Assoc
  | .old bucket => { t with oldHashtable := Function.update t.oldHashtable bucket items }
  | .primary bucket => { t with primaryHashtable := Function.update t.primaryHashtable bucket items }

end Assoc

/-- What a thread does to the bucket it has located. -/
inductive AssocOp
  | find
  | insert (it : Item)
  | delete

/-- The part of `assoc_find`, `assoc_insert` and `assoc_delete` behind the choice of the bucket, with
the item found. -/
def AssocOp.apply (op : AssocOp) (t : Assoc) (place : Place) (key : List Byte) : Assoc × Option Item :=
  match op with
  | .find => (t, lookup Item.key key (t.chain place))
  | .insert it => (t.setChain (it :: t.chain place) place, none)
  | .delete => (t.setChain (unlink Item.key key (t.chain place)) place, none)

def assocExpand (t : Assoc) : Assoc := ⟨t.hashpower + 1, fun _ => [], t.primaryHashtable, true, 0⟩

/-- One item of the bucket that is moved. -/
def Assoc.moveItem (t : Assoc) (hv : ℕ) (it : Item) : Assoc :=
  let bucket := hv &&& hashmask t.hashpower
  { t with primaryHashtable := Function.update t.primaryHashtable bucket (it :: t.primaryHashtable bucket) }

/-- The end of the move of a bucket, and with the last one of the expansion. -/
def Assoc.bucketMoved (t : Assoc) : Assoc :=
  { t with
    oldHashtable := Function.update t.oldHashtable t.expandBucket []
    expandBucket := t.expandBucket + 1
    expanding := decide (t.expandBucket + 1 ≠ hashsize (t.hashpower - 1)) }

/-! ### Threads -/

inductive Worker
  | idle
  | locked (key : List Byte)
  | located (key : List Byte) (place : Place)

/-- `assoc_maintenance_thread`: without a lock, or with the lock of the bucket it moves and the items
that are still to be moved, or before it gives the lock back. -/
inductive Mover
  | free
  | moving (items : List Item)
  | moved (bucket : ℕ)

structure AssocSystem where
  table : Assoc
  itemLocks : ℕ → Bool
  workers : ℕ → Worker
  mover : Mover

inductive AssocAction
  | lock (worker : ℕ) (key : List Byte)
  | locate (worker : ℕ)
  | apply (worker : ℕ) (op : AssocOp)
  | unlock (worker : ℕ)
  | expand
  | tryLock
  | move
  | finish
  | release

section Steps

variable (hash : List Byte → ℕ) (lockPower : ℕ)

/-- The item lock of a hash value. -/
def lockOf (hv : ℕ) : ℕ := hv &&& hashmask lockPower

namespace AssocSystem

def init (hashtableInit : ℕ) : AssocSystem :=
  ⟨Assoc.init hashtableInit, fun _ => false, fun _ => .idle, .free⟩

def setWorker (s : AssocSystem) (worker : ℕ) (w : Worker) : AssocSystem :=
  { s with workers := Function.update s.workers worker w }

def setLock (s : AssocSystem) (lock : ℕ) (held : Bool) : AssocSystem :=
  { s with itemLocks := Function.update s.itemLocks lock held }

/-- One step of one thread. The table is expanded while the other threads are paused, so that none of
them holds a lock. -/
def step (s : AssocSystem) : AssocAction → Option AssocSystem
  | .lock worker key =>
    match s.workers worker with
    | .idle =>
      if s.itemLocks (lockOf lockPower (hash key)) then none
      else some ((s.setLock (lockOf lockPower (hash key)) true).setWorker worker (.locked key))
    | _ => none
  | .locate worker =>
    match s.workers worker with
    | .locked key => some (s.setWorker worker (.located key (s.table.place (hash key))))
    | _ => none
  | .apply worker op =>
    match s.workers worker with
    | .located key place =>
      some ({ s with table := (op.apply s.table place key).1 }.setWorker worker (.locked key))
    | _ => none
  | .unlock worker =>
    match s.workers worker with
    | .locked key => some ((s.setLock (lockOf lockPower (hash key)) false).setWorker worker .idle)
    | _ => none
  | .expand =>
    match s.mover with
    | .free =>
      if s.table.expanding = true ∨ hashpowerMax ≤ s.table.hashpower ∨
          ∃ lock < hashsize lockPower, s.itemLocks lock then none
      else some { s with table := assocExpand s.table }
    | _ => none
  | .tryLock =>
    match s.mover with
    | .free =>
      if s.table.expanding = true ∧ s.itemLocks (lockOf lockPower s.table.expandBucket) = false then
        some { s.setLock (lockOf lockPower s.table.expandBucket) true with
          mover := .moving (s.table.oldHashtable s.table.expandBucket) }
      else none
    | _ => none
  | .move =>
    match s.mover with
    | .moving (it :: items) =>
      some { s with table := s.table.moveItem (hash it.key) it, mover := .moving items }
    | _ => none
  | .finish =>
    match s.mover with
    | .moving [] => some { s with table := s.table.bucketMoved, mover := .moved s.table.expandBucket }
    | _ => none
  | .release =>
    match s.mover with
    | .moved bucket => some { s.setLock (lockOf lockPower bucket) false with mover := .free }
    | _ => none

end AssocSystem

end Steps

end BmcCache
