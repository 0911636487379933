import BmcCache.Lib.Buffer
import Mathlib.Algebra.Group.Nat.Defs
import Mathlib.Data.Nat.Basic
import Mathlib.Logic.Function.Basic

/-!
# Constants, maps and cache entries

The data of `bmc_common.h` and the map definitions of `bmc_kern.c`. A `char` is a byte;
where the programs widen it to an integer it is sign-extended, as on the BPF target.
-/

namespace BmcCache

abbrev Byte := UInt8

def chr (c : Char) : Byte := c.toNat.toUInt8

def ascii (s : List Char) : List Byte := s.map chr

abbrev SP : Byte := 32
abbrev CR : Byte := 13
abbrev LF : Byte := 10

@[simp] lemma sp_ne_cr : SP ≠ CR := by decide
@[simp] lemma sp_ne_lf : SP ≠ LF := by decide

abbrev bmcMaxKeyLength : ℕ := 250
abbrev bmcMaxValLength : ℕ := 1000
abbrev bmcMaxAdditionalPayloadBytes : ℕ := 53
abbrev bmcMaxCacheDataSize : ℕ :=
  bmcMaxKeyLength + bmcMaxValLength + bmcMaxAdditionalPayloadBytes
abbrev bmcMaxKeyInMultiget : ℕ := 30
abbrev bmcCacheEntryCount : ℕ := 3250000
abbrev bmcMaxPacketLength : ℕ := 1500
abbrev bmcMaxKeyInPacket : ℕ := bmcMaxKeyInMultiget

lemma limits : bmcMaxKeyLength = 250 ∧ bmcMaxValLength = 1000 ∧ bmcMaxCacheDataSize = 1303 ∧
    bmcMaxKeyInPacket = 30 ∧ bmcMaxPacketLength = 1500 := by
  decide

def fnvOffsetBasis32 : UInt32 := 2166136261
def fnvPrime32 : UInt32 := 16777619

/-- One round of FNV-1a: `hash ^= c; hash *= FNV_PRIME_32` with a signed `char c`. -/
def fnvStep (hash : UInt32) (c : Byte) : UInt32 :=
  (hash ^^^ c.toInt8.toInt32.toUInt32) * fnvPrime32

def fnv1aHash32 (key : List Byte) : UInt32 := key.foldl fnvStep fnvOffsetBasis32

/-- `fnv1a_hash32(key, length, hash)` of the loader `bmc_user.c`. -/
def User.fnv1aHash32 (key : List Byte) (length : ℕ) (hash : UInt32) : UInt32 :=
  (List.range length).foldl (fun hash i => fnvStep hash (key.getD i 0)) hash

/-- The slot of a hash in `map_kcache`. -/
def cacheIdx (hash : UInt32) : ℕ := hash.toNat % bmcCacheEntryCount

def slotOf (key : List Byte) : ℕ := cacheIdx (fnv1aHash32 key)

structure BmcCacheEntry where
  len : ℕ
  valid : Bool
  hash : UInt32
  data : Vector Byte bmcMaxCacheDataSize

namespace BmcCacheEntry

def zero : BmcCacheEntry := ⟨0, false, 0, Vector.replicate _ 0⟩

/-- The bytes the entry holds, `data[0..len)`. -/
def block (e : BmcCacheEntry) : List Byte := e.data.toList.take e.len

end BmcCacheEntry

abbrev Cache := Fin bmcCacheEntryCount → BmcCacheEntry

/-- `bpf_map_lookup_elem(&map_kcache, &idx)`: `none` is the null pointer. -/
def Cache.lookupElem (c : Cache) (idx : ℕ) : Option BmcCacheEntry :=
  if h : idx < bmcCacheEntryCount then some (c ⟨idx, h⟩) else none

/-- A store through the pointer returned by the lookup of `idx`. -/
def Cache.store (c : Cache) (idx : ℕ) (e : BmcCacheEntry) : Cache :=
  fun i => if i.val = idx then e else c i

def Cache.zeroed : Cache := fun _ => BmcCacheEntry.zero

structure BmcStats where
  getRecvCount : UInt32
  setRecvCount : UInt32
  getRespCount : UInt32
  hitMisprediction : UInt32
  hitCount : UInt32
  missCount : UInt32
  updateCount : UInt32
  invalidationCount : UInt32

structure MemcachedKey where
  hash : UInt32
  data : Vector Byte bmcMaxKeyLength
  len : ℕ

/-- The 16-bit offsets are kept reduced modulo `2 ^ 16` by every assignment. -/
structure ParsingContext where
  keyCount : ℕ
  currentKey : ℕ
  readPktOffset : ℕ
  writePktOffset : ℕ

/-- The per-CPU maps `map_keys`, `map_parsing_context` and `map_stats`. -/
structure PerCpu where
  keys : Fin bmcMaxKeyInPacket → MemcachedKey
  pctx : ParsingContext
  stats : BmcStats

def PerCpu.zeroed : PerCpu :=
  ⟨fun _ => ⟨0, Vector.replicate _ 0, 0⟩, ⟨0, 0, 0, 0⟩, ⟨0, 0, 0, 0, 0, 0, 0, 0⟩⟩

def PerCpu.lookupKey (cpu : PerCpu) (idx : ℕ) : Option MemcachedKey :=
  if h : idx < bmcMaxKeyInPacket then some (cpu.keys ⟨idx, h⟩) else none

/-- A store through the pointer returned by the lookup of key `idx`. -/
def PerCpu.storeKey (cpu : PerCpu) (idx : ℕ) (key : MemcachedKey) : PerCpu :=
  { cpu with keys := fun i => if i.val = idx then key else cpu.keys i }

lemma cacheIdx_lt (hash : UInt32) : cacheIdx hash < bmcCacheEntryCount :=
  Nat.mod_lt _ (by decide)

def Cache.at (c : Cache) (hash : UInt32) : BmcCacheEntry := c ⟨cacheIdx hash, cacheIdx_lt hash⟩

/-- The null check after a lookup by hash never fires: the map is an array. -/
@[simp] lemma Cache.lookupElem_cacheIdx (c : Cache) (hash : UInt32) :
    c.lookupElem (cacheIdx hash) = some (c.at hash) := by
  simp [Cache.lookupElem, Cache.at, cacheIdx_lt]

lemma Cache.store_apply (c : Cache) (idx : ℕ) (e : BmcCacheEntry) (i : Fin bmcCacheEntryCount) :
    c.store idx e i = if i.val = idx then e else c i := rfl

lemma Cache.at_store (c : Cache) (idx : ℕ) (e : BmcCacheEntry) (hash : UInt32) :
    (c.store idx e).at hash = if cacheIdx hash = idx then e else c.at hash := rfl

lemma PerCpu.lookupKey_of_lt (cpu : PerCpu) {idx : ℕ} (h : idx < bmcMaxKeyInPacket) :
    cpu.lookupKey idx = some (cpu.keys ⟨idx, h⟩) := by
  simp [PerCpu.lookupKey, h]

lemma PerCpu.lookupKey_eq_none {cpu : PerCpu} {idx : ℕ} :
    cpu.lookupKey idx = none ↔ bmcMaxKeyInPacket ≤ idx := by
  simp [PerCpu.lookupKey]

end BmcCache
