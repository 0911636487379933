import BmcCache.Model.Assoc
import Mathlib.Tactic.IntervalCases

/-!
# The hash table while it is expanded

A bucket is looked at, changed and moved only under the item lock that all its keys share: the lock is
chosen by fewer bits of the hash than the bucket. So the steps of the threads keep the items in the
buckets where the operations look for them.
-/

namespace BmcCache.Proofs

open Chains

/-! ### Hash values -/

/-- Beyond `2 ^ 31` buckets the shift starts again. -/
lemma hashsize_eq {n : ℕ} (h : n ≤ 31) : hashsize n = 2 ^ n := by
  interval_cases n <;> rfl

lemma and_hashmask (hv : ℕ) {n : ℕ} (h : n ≤ 31) : hv &&& hashmask n = hv % 2 ^ n := by
  rw [hashmask, hashsize_eq h, Nat.and_two_pow_sub_one_eq_mod]

lemma mod_mod_pow (hv : ℕ) {m n : ℕ} (h : m ≤ n) : hv % 2 ^ n % 2 ^ m = hv % 2 ^ m :=
  Nat.mod_mod_of_dvd hv (Nat.pow_dvd_pow 2 h)

section Table

variable {hash : List Byte → ℕ} {lockPower : ℕ} {s s' : AssocSystem}

/-- The hash value is one of the bucket of the old table that is moved. -/
def InMoved (t : Assoc) (hv : ℕ) : Prop := t.expanding = true ∧ hv % 2 ^ (t.hashpower - 1) = t.expandBucket

/-- The bucket of the hash value is still in the old table. -/
def InOld (t : Assoc) (hv : ℕ) : Prop := t.expanding = true ∧ t.expandBucket ≤ hv % 2 ^ (t.hashpower - 1)

instance (t : Assoc) (hv : ℕ) : Decidable (InOld t hv) := inferInstanceAs (Decidable (_ ∧ _))

lemma place_old {t : Assoc} (hp : t.hashpower ≤ 31) {hv : ℕ} (h : InOld t hv) :
    t.place hv = .old (hv % 2 ^ (t.hashpower - 1)) := by
  unfold InOld at h
  unfold Assoc.place
  rw [and_hashmask hv (by omega), if_pos h]

lemma place_primary {t : Assoc} (hp : t.hashpower ≤ 31) {hv : ℕ} (h : ¬InOld t hv) :
    t.place hv = .primary (hv % 2 ^ t.hashpower) := by
  unfold InOld at h
  unfold Assoc.place
  rw [and_hashmask hv (by omega), and_hashmask hv hp, if_neg h]

/-- The chain with the items of a hash value: for the bucket that is moved, what is left of it and
where it goes. -/
def view (s : AssocSystem) (hv : ℕ) : List Item :=
  if InOld s.table hv then
    match s.mover with
    | .moving items =>
      if hv % 2 ^ (s.table.hashpower - 1) = s.table.expandBucket then
        items ++ s.table.primaryHashtable (hv % 2 ^ s.table.hashpower)
      else s.table.oldHashtable (hv % 2 ^ (s.table.hashpower - 1))
    | _ => s.table.oldHashtable (hv % 2 ^ (s.table.hashpower - 1))
  else s.table.primaryHashtable (hv % 2 ^ s.table.hashpower)

/-- What the table holds for a key. -/
def contents (hash : List Byte → ℕ) (s : AssocSystem) (key : List Byte) : Option Item :=
  lookup Item.key key (view s (hash key))

/-- The lock that a worker holds. -/
def heldBy (hash : List Byte → ℕ) (lockPower : ℕ) : Worker → Option ℕ
  | .idle => none
  | .locked key => some (hash key % 2 ^ lockPower)
  | .located key _ => some (hash key % 2 ^ lockPower)

/-- The lock that the thread holds which moves the buckets. -/
def heldByMover (lockPower : ℕ) (s : AssocSystem) : Option ℕ :=
  match s.mover with
  | .free => none
  | .moving _ => some (s.table.expandBucket % 2 ^ lockPower)
  | .moved bucket => some (bucket % 2 ^ lockPower)

/-- Every thread has set the lock it holds, and no two hold the same. -/
structure LocksSound (hash : List Byte → ℕ) (lockPower : ℕ) (s : AssocSystem) : Prop where
  held : ∀ w lock, heldBy hash lockPower (s.workers w) = some lock → s.itemLocks lock = true
  heldMover : ∀ lock, heldByMover lockPower s = some lock → s.itemLocks lock = true
  exclusive : ∀ w w' lock, heldBy hash lockPower (s.workers w) = some lock →
    heldBy hash lockPower (s.workers w') = some lock → w = w'
  mover : ∀ w lock, heldBy hash lockPower (s.workers w) = some lock → heldByMover lockPower s ≠ some lock

/-- Every item is in the bucket of its hash value, and the keys of a chain are distinct. -/
structure TableSound (hash : List Byte → ℕ) (lockPower : ℕ) (s : AssocSystem) : Prop where
  power : lockPower < s.table.hashpower
  limit : s.table.hashpower ≤ 31
  bucket : s.table.expanding = true → s.table.expandBucket < 2 ^ (s.table.hashpower - 1)
  primary : ∀ b, ∀ it ∈ s.table.primaryHashtable b, hash it.key % 2 ^ s.table.hashpower = b
  done : ∀ b, ∀ it ∈ s.table.primaryHashtable b, InOld s.table (hash it.key) →
    InMoved s.table (hash it.key) ∧ ∃ items, s.mover = .moving items
  old : s.table.expanding = true →
    ∀ b, ∀ it ∈ s.table.oldHashtable b, hash it.key % 2 ^ (s.table.hashpower - 1) = b
  moving : ∀ items, s.mover = .moving items → s.table.expanding = true ∧
    ∀ it ∈ items, hash it.key % 2 ^ (s.table.hashpower - 1) = s.table.expandBucket
  freed : ∀ b, (s.table.expanding = true → b < s.table.expandBucket) → s.table.oldHashtable b = []
  distinct : ∀ hv, Distinct Item.key (view s hv)

/-- A worker that has located the bucket of its key has located the right one. -/
def PlacesSound (hash : List Byte → ℕ) (s : AssocSystem) : Prop :=
  ∀ w key place, s.workers w = .located key place → place = s.table.place (hash key)

structure AssocSound (hash : List Byte → ℕ) (lockPower : ℕ) (s : AssocSystem) : Prop where
  locks : LocksSound hash lockPower s
  table : TableSound hash lockPower s
  places : PlacesSound hash s

/-! ### Views -/

lemma view_primary {hv : ℕ} (h : ¬InOld s.table hv) :
    view s hv = s.table.primaryHashtable (hv % 2 ^ s.table.hashpower) := by
  rw [view, if_neg h]

lemma view_moving {hv : ℕ} {items : List Item} (h : InMoved s.table hv) (hmover : s.mover = .moving items) :
    view s hv = items ++ s.table.primaryHashtable (hv % 2 ^ s.table.hashpower) := by
  have hold : InOld s.table hv := ⟨h.1, Nat.le_of_eq h.2.symm⟩
  rw [view, if_pos hold, hmover]
  exact if_pos h.2

lemma view_old {hv : ℕ} (h : InOld s.table hv)
    (hrest : InMoved s.table hv → ∀ items, s.mover ≠ .moving items) :
    view s hv = s.table.oldHashtable (hv % 2 ^ (s.table.hashpower - 1)) := by
  rw [view, if_pos h]
  split
  · next items hmover =>
    rw [if_neg]
    intro hbucket
    exact hrest ⟨h.1, hbucket⟩ items hmover
  · rfl

lemma view_congr {hv : ℕ} (htable : s'.table = s.table) (hmover : s'.mover = s.mover) :
    view s' hv = view s hv := by
  rw [view, view, htable, hmover]

lemma contents_congr (h : ∀ hv, view s' hv = view s hv) : contents hash s' = contents hash s := by
  funext key
  rw [contents, contents, h]

/-- The chain a worker finds is that of its key, unless its bucket is being moved. -/
lemma chain_place (hp : s.table.hashpower ≤ 31) {hv : ℕ}
    (hrest : InMoved s.table hv → ∀ items, s.mover ≠ .moving items) :
    s.table.chain (s.table.place hv) = view s hv := by
  by_cases h : InOld s.table hv
  · rw [place_old hp h, view_old h hrest, Assoc.chain]
  · rw [place_primary hp h, view_primary h, Assoc.chain]

/-- Hash values that agree in the bits of the primary table are in the same buckets. -/
lemma mod_eq_of_primary {t : Assoc} {hv hv' : ℕ} (h : hv % 2 ^ t.hashpower = hv' % 2 ^ t.hashpower) :
    hv % 2 ^ (t.hashpower - 1) = hv' % 2 ^ (t.hashpower - 1) := by
  rw [← mod_mod_pow hv (Nat.sub_le t.hashpower 1), h, mod_mod_pow hv' (Nat.sub_le t.hashpower 1)]

lemma inOld_congr {t : Assoc} {hv hv' : ℕ} (h : hv % 2 ^ (t.hashpower - 1) = hv' % 2 ^ (t.hashpower - 1)) :
    InOld t hv ↔ InOld t hv' := by
  unfold InOld
  rw [h]

/-! ### Locks -/

/-- A worker's bucket is not moved while it holds its lock. -/
lemma not_moving_of_held (h : AssocSound hash lockPower s) {w : ℕ} {key : List Byte}
    (hheld : heldBy hash lockPower (s.workers w) = some (hash key % 2 ^ lockPower)) :
    InMoved s.table (hash key) → ∀ items, s.mover ≠ .moving items := by
  rintro ⟨-, hbucket⟩ items hmover
  have hle : lockPower ≤ s.table.hashpower - 1 := Nat.le_sub_one_of_lt h.table.power
  apply h.locks.mover w _ hheld
  rw [heldByMover, hmover]
  simp only [← hbucket, mod_mod_pow _ hle]

lemma tableSound_congr (h : TableSound hash lockPower s) (htable : s'.table = s.table)
    (hmover : s'.mover = s.mover) :
    TableSound hash lockPower s' := by
  constructor
  · rw [htable]
    exact h.power
  · rw [htable]
    exact h.limit
  · rw [htable]
    exact h.bucket
  · rw [htable]
    exact h.primary
  · rw [htable, hmover]
    exact h.done
  · rw [htable]
    exact h.old
  · rw [htable, hmover]
    exact h.moving
  · rw [htable]
    exact h.freed
  · intro hv
    rw [view_congr htable hmover]
    exact h.distinct hv

/-- There are fewer locks than buckets. -/
lemma lockOf_eq (h : TableSound hash lockPower s) (hv : ℕ) : lockOf lockPower hv = hv % 2 ^ lockPower :=
  and_hashmask hv (Nat.le_of_lt (Nat.lt_of_lt_of_le h.power h.limit))

/-- The workers after one of them has changed its state. -/
lemma heldBy_setWorker {w w' : ℕ} {worker : Worker} {lock : ℕ}
    (h : heldBy hash lockPower ((s.setWorker w worker).workers w') = some lock) :
    (w' = w ∧ heldBy hash lockPower worker = some lock) ∨
      (w' ≠ w ∧ heldBy hash lockPower (s.workers w') = some lock) := by
  by_cases hw : w' = w
  · subst hw
    left
    simpa [AssocSystem.setWorker] using h
  · right
    simpa [AssocSystem.setWorker, hw] using h

/-- A worker that holds the same lock as before. -/
lemma locksSound_setWorker (h : LocksSound hash lockPower s) {w : ℕ} {worker : Worker}
    (hsame : heldBy hash lockPower worker = heldBy hash lockPower (s.workers w)) :
    LocksSound hash lockPower (s.setWorker w worker) := by
  have hback : ∀ w' lock, heldBy hash lockPower ((s.setWorker w worker).workers w') = some lock →
      heldBy hash lockPower (s.workers w') = some lock := by
    intro w' lock hheld
    rcases heldBy_setWorker hheld with ⟨rfl, hnew⟩ | ⟨-, hold⟩
    · rw [← hsame]
      exact hnew
    · exact hold
  constructor
  · intro w' lock hheld
    exact h.held w' lock (hback w' lock hheld)
  · exact h.heldMover
  · intro w₁ w₂ lock h₁ h₂
    exact h.exclusive w₁ w₂ lock (hback w₁ lock h₁) (hback w₂ lock h₂)
  · intro w' lock hheld
    exact h.mover w' lock (hback w' lock hheld)

/-- A worker without a lock takes one that is free. -/
lemma locksSound_lock (h : LocksSound hash lockPower s) {w : ℕ} {worker : Worker} {lock : ℕ}
    (hfree : s.itemLocks lock = false) (hheld : heldBy hash lockPower worker = some lock) :
    LocksSound hash lockPower ((s.setLock lock true).setWorker w worker) := by
  -- nobody holds a lock that is not set
  have hnone : ∀ lock', s.itemLocks lock' = true → lock' ≠ lock := by
    rintro lock' hset rfl
    rw [hfree] at hset
    exact absurd hset Bool.false_ne_true
  have hset : ∀ lock', s.itemLocks lock' = true → (s.setLock lock true).itemLocks lock' = true := by
    intro lock' hlock
    simp only [AssocSystem.setLock, Function.update_of_ne (hnone lock' hlock)]
    exact hlock
  have hself : (s.setLock lock true).itemLocks lock = true := by simp [AssocSystem.setLock]
  constructor
  · intro w' lock' hw'
    rcases heldBy_setWorker hw' with ⟨-, hnew⟩ | ⟨-, hold⟩
    · obtain rfl : lock = lock' := Option.some.inj (hheld.symm.trans hnew)
      exact hself
    · exact hset lock' (h.held w' lock' hold)
  · intro lock' hmover
    exact hset lock' (h.heldMover lock' hmover)
  · intro w₁ w₂ lock' h₁ h₂
    rcases heldBy_setWorker h₁ with ⟨rfl, new₁⟩ | ⟨-, old₁⟩
    · obtain rfl : lock = lock' := Option.some.inj (hheld.symm.trans new₁)
      rcases heldBy_setWorker h₂ with ⟨rfl, -⟩ | ⟨-, old₂⟩
      · rfl
      · exact absurd rfl (hnone lock (h.held w₂ lock old₂))
    · rcases heldBy_setWorker h₂ with ⟨rfl, new₂⟩ | ⟨-, old₂⟩
      · obtain rfl : lock = lock' := Option.some.inj (hheld.symm.trans new₂)
        exact absurd rfl (hnone lock (h.held w₁ lock old₁))
      · exact h.exclusive w₁ w₂ lock' old₁ old₂
  · intro w' lock' hw' hmover
    rcases heldBy_setWorker hw' with ⟨-, hnew⟩ | ⟨-, hold⟩
    · obtain rfl : lock = lock' := Option.some.inj (hheld.symm.trans hnew)
      exact absurd rfl (hnone lock (h.heldMover lock hmover))
    · exact h.mover w' lock' hold hmover

/-- A worker gives its lock back. -/
lemma locksSound_unlock (h : LocksSound hash lockPower s) {w lock : ℕ}
    (hheld : heldBy hash lockPower (s.workers w) = some lock) :
    LocksSound hash lockPower ((s.setLock lock false).setWorker w .idle) := by
  have hset : ∀ lock', lock' ≠ lock → s.itemLocks lock' = true →
      (s.setLock lock false).itemLocks lock' = true := by
    intro lock' hne hlock
    simp only [AssocSystem.setLock, Function.update_of_ne hne]
    exact hlock
  have hback : ∀ w' lock', heldBy hash lockPower (((s.setLock lock false).setWorker w .idle).workers w') =
      some lock' →
      w' ≠ w ∧ heldBy hash lockPower (s.workers w') = some lock' := by
    intro w' lock' hw'
    rcases heldBy_setWorker hw' with ⟨-, hnew⟩ | ⟨hne, hold⟩
    · simp [heldBy] at hnew
    · exact ⟨hne, hold⟩
  constructor
  · intro w' lock' hw'
    obtain ⟨hne, hold⟩ := hback w' lock' hw'
    apply hset lock' _ (h.held w' lock' hold)
    rintro rfl
    exact hne (h.exclusive w' w lock' hold hheld)
  · intro lock' hmover
    apply hset lock' _ (h.heldMover lock' hmover)
    rintro rfl
    exact h.mover w lock' hheld hmover
  · intro w₁ w₂ lock' h₁ h₂
    exact h.exclusive w₁ w₂ lock' (hback w₁ lock' h₁).2 (hback w₂ lock' h₂).2
  · intro w' lock' hw'
    exact h.mover w' lock' (hback w' lock' hw').2

/-- The located places of the workers after one of them has changed its state. -/
lemma placesSound_setWorker (h : PlacesSound hash s) {w : ℕ} {worker : Worker}
    (hworker : ∀ key place, worker = .located key place → place = s.table.place (hash key)) :
    PlacesSound hash (s.setWorker w worker) := by
  intro w' key place hw'
  by_cases hw : w' = w
  · subst hw
    apply hworker key place
    simpa [AssocSystem.setWorker] using hw'
  · apply h w' key place
    simpa [AssocSystem.setWorker, hw] using hw'

/-! ### Operations on a bucket -/

@[simp] lemma setChain_hashpower (t : Assoc) (items : List Item) (place : Place) :
    (t.setChain items place).hashpower = t.hashpower := by cases place <;> rfl

@[simp] lemma setChain_expanding (t : Assoc) (items : List Item) (place : Place) :
    (t.setChain items place).expanding = t.expanding := by cases place <;> rfl

@[simp] lemma setChain_expandBucket (t : Assoc) (items : List Item) (place : Place) :
    (t.setChain items place).expandBucket = t.expandBucket := by cases place <;> rfl

lemma place_setChain (t : Assoc) (items : List Item) (place : Place) (hv : ℕ) :
    (t.setChain items place).place hv = t.place hv := by
  unfold Assoc.place
  rw [setChain_hashpower, setChain_expanding, setChain_expandBucket]

lemma inOld_setChain (t : Assoc) (items : List Item) (place : Place) (hv : ℕ) :
    InOld (t.setChain items place) hv ↔ InOld t hv := by
  unfold InOld
  rw [setChain_hashpower, setChain_expanding, setChain_expandBucket]

lemma inMoved_setChain (t : Assoc) (items : List Item) (place : Place) (hv : ℕ) :
    InMoved (t.setChain items place) hv ↔ InMoved t hv := by
  unfold InMoved
  rw [setChain_hashpower, setChain_expanding, setChain_expandBucket]

lemma chain_setChain (t : Assoc) (items : List Item) (place place' : Place) :
    (t.setChain items place).chain place' = if place' = place then items else t.chain place' := by
  cases place <;> cases place' <;> simp [Assoc.setChain, Assoc.chain, Function.update_apply]

/-- Only the chain of the bucket changes: a bucket that is being moved shares no chain with it. -/
lemma view_setChain (hp : s.table.hashpower ≤ 31) {hv hv₀ : ℕ} {items : List Item}
    (hrest : InMoved s.table hv₀ → ∀ items, s.mover ≠ .moving items) :
    view { s with table := s.table.setChain items (s.table.place hv₀) } hv =
      if s.table.place hv = s.table.place hv₀ then items else view s hv := by
  by_cases hmoving : InMoved s.table hv ∧ ∃ left, s.mover = .moving left
  · obtain ⟨hmoved, left, hleft⟩ := hmoving
    have hold : InOld s.table hv := ⟨hmoved.1, Nat.le_of_eq hmoved.2.symm⟩
    have hother : ¬InMoved s.table hv₀ := fun h => hrest h left hleft
    have hne : s.table.place hv ≠ s.table.place hv₀ := by
      intro heq
      rw [place_old hp hold] at heq
      by_cases h₀ : InOld s.table hv₀
      · rw [place_old hp h₀, Place.old.injEq] at heq
        exact hother ⟨h₀.1, heq.symm.trans hmoved.2⟩
      · rw [place_primary hp h₀] at heq
        exact absurd heq (by simp)
    have hprimary : (s.table.setChain items (s.table.place hv₀)).chain
        (.primary (hv % 2 ^ s.table.hashpower)) =
        s.table.chain (.primary (hv % 2 ^ s.table.hashpower)) := by
      rw [chain_setChain, if_neg]
      intro heq
      by_cases h₀ : InOld s.table hv₀
      · rw [place_old hp h₀] at heq
        exact absurd heq (by simp)
      · rw [place_primary hp h₀, Place.primary.injEq] at heq
        exact hother ⟨hmoved.1, (mod_eq_of_primary heq).symm.trans hmoved.2⟩
    have hnew := view_moving (s := { s with table := s.table.setChain items (s.table.place hv₀) })
      ((inMoved_setChain s.table items _ hv).mpr hmoved) hleft
    rw [if_neg hne, view_moving hmoved hleft, hnew]
    simp only [setChain_hashpower]
    exact congrArg (left ++ ·) hprimary
  · have hrest' : InMoved s.table hv → ∀ left, s.mover ≠ .moving left :=
      fun hmoved left hleft => hmoving ⟨hmoved, left, hleft⟩
    rw [← chain_place hp hrest', ← chain_setChain, ← chain_place, place_setChain]
    · rwa [setChain_hashpower]
    intro hmoved
    exact hrest' ((inMoved_setChain s.table items _ hv).mp hmoved)

/-- Hash values with the same place are in the same bucket. -/
lemma mod_eq_of_place {t : Assoc} (hp : t.hashpower ≤ 31) {hv hv' : ℕ} (h : t.place hv = t.place hv') :
    (InOld t hv ∧ InOld t hv' ∧ hv % 2 ^ (t.hashpower - 1) = hv' % 2 ^ (t.hashpower - 1)) ∨
      (¬InOld t hv ∧ ¬InOld t hv' ∧ hv % 2 ^ t.hashpower = hv' % 2 ^ t.hashpower) := by
  by_cases h₁ : InOld t hv <;> by_cases h₂ : InOld t hv'
  · left
    rw [place_old hp h₁, place_old hp h₂, Place.old.injEq] at h
    exact ⟨h₁, h₂, h⟩
  · rw [place_old hp h₁, place_primary hp h₂] at h
    exact absurd h (by simp)
  · rw [place_primary hp h₁, place_old hp h₂] at h
    exact absurd h (by simp)
  · right
    rw [place_primary hp h₁, place_primary hp h₂, Place.primary.injEq] at h
    exact ⟨h₁, h₂, h⟩

/-- The items of a chain that is located for a key are in the place of the key. -/
lemma place_of_mem (h : TableSound hash lockPower s) {key : List Byte} {it : Item}
    (hit : it ∈ s.table.chain (s.table.place (hash key))) :
    s.table.place (hash it.key) = s.table.place (hash key) := by
  by_cases hold : InOld s.table (hash key)
  · rw [place_old h.limit hold, Assoc.chain] at hit
    have hmod := h.old hold.1 _ it hit
    rw [place_old h.limit hold, place_old h.limit ((inOld_congr hmod).mpr hold), hmod]
  · rw [place_primary h.limit hold, Assoc.chain] at hit
    have hmod := h.primary _ it hit
    rw [place_primary h.limit hold,
      place_primary h.limit ((inOld_congr (mod_eq_of_primary hmod)).not.mpr hold), hmod]

/-- A chain of items that belong to the bucket of the key, with distinct keys, keeps the table in order. -/
lemma tableSound_setChain (h : TableSound hash lockPower s) {key : List Byte} {items : List Item}
    (hrest : InMoved s.table (hash key) → ∀ items, s.mover ≠ .moving items)
    (hmem : ∀ it ∈ items, s.table.place (hash it.key) = s.table.place (hash key))
    (hdistinct : Distinct Item.key items) :
    TableSound hash lockPower { s with table := s.table.setChain items (s.table.place (hash key)) } := by
  -- an item of a chain is an item of the chain before, or one of the new ones
  have hcases : ∀ place, ∀ it ∈ (s.table.setChain items (s.table.place (hash key))).chain place,
      it ∈ s.table.chain place ∨ (place = s.table.place (hash it.key) ∧ it ∈ items) := by
    intro place it hit
    rw [chain_setChain] at hit
    split at hit
    · next heq => exact Or.inr ⟨heq.trans (hmem it hit).symm, hit⟩
    · exact Or.inl hit
  constructor
  · rw [setChain_hashpower]
    exact h.power
  · rw [setChain_hashpower]
    exact h.limit
  · rw [setChain_hashpower, setChain_expanding, setChain_expandBucket]
    exact h.bucket
  · intro b it hit
    rw [setChain_hashpower]
    rcases hcases (.primary b) it hit with hbefore | ⟨hplace, -⟩
    · exact h.primary b it hbefore
    · by_cases hold : InOld s.table (hash it.key)
      · rw [place_old h.limit hold] at hplace
        exact absurd hplace (by simp)
      · rw [place_primary h.limit hold, Place.primary.injEq] at hplace
        exact hplace.symm
  · intro b it hit hold
    rw [inOld_setChain] at hold
    rw [inMoved_setChain]
    rcases hcases (.primary b) it hit with hbefore | ⟨hplace, -⟩
    · exact h.done b it hbefore hold
    · rw [place_old h.limit hold] at hplace
      exact absurd hplace (by simp)
  · intro hexp b it hit
    rw [setChain_hashpower]
    rw [setChain_expanding] at hexp
    rcases hcases (.old b) it hit with hbefore | ⟨hplace, -⟩
    · exact h.old hexp b it hbefore
    · by_cases hold : InOld s.table (hash it.key)
      · rw [place_old h.limit hold, Place.old.injEq] at hplace
        exact hplace.symm
      · rw [place_primary h.limit hold] at hplace
        exact absurd hplace (by simp)
  · rw [setChain_hashpower, setChain_expanding, setChain_expandBucket]
    exact h.moving
  · intro b hb
    rw [setChain_expanding, setChain_expandBucket] at hb
    have hne : Place.old b ≠ s.table.place (hash key) := by
      intro heq
      by_cases hold : InOld s.table (hash key)
      · rw [place_old h.limit hold, Place.old.injEq] at heq
        exact absurd hold.2 (heq ▸ Nat.not_le_of_lt (hb hold.1))
      · rw [place_primary h.limit hold] at heq
        exact absurd heq (by simp)
    have hchain := chain_setChain s.table items (s.table.place (hash key)) (.old b)
    rw [if_neg hne] at hchain
    exact hchain.trans (h.freed b hb)
  · intro hv
    rw [view_setChain h.limit hrest]
    split
    · exact hdistinct
    · exact h.distinct hv

/-! ### The operations on a map -/

/-- What an operation on a key does to a map. -/
def effect (op : AssocOp) (key : List Byte) (store : List Byte → Option Item) : List Byte → Option Item :=
  match op with
  | .find => store
  | .insert it => Function.update store key (some it)
  | .delete => Function.update store key none

/-- An item is inserted under its own key, and only when the key is not found. -/
def Permitted (op : AssocOp) (t : Assoc) (place : Place) (key : List Byte) : Prop :=
  ∀ it, op = .insert it → it.key = key ∧ lookup Item.key key (t.chain place) = none

lemma contents_setChain (hp : s.table.hashpower ≤ 31) {key : List Byte} {items : List Item}
    (hrest : InMoved s.table (hash key) → ∀ items, s.mover ≠ .moving items)
    (hother : ∀ key', key' ≠ key → lookup Item.key key' items = lookup Item.key key' (view s (hash key))) :
    contents hash { s with table := s.table.setChain items (s.table.place (hash key)) } =
      Function.update (contents hash s) key (lookup Item.key key items) := by
  funext key'
  rw [contents, view_setChain hp hrest]
  by_cases hkey : key' = key
  · subst hkey
    rw [if_pos rfl, Function.update_self]
  rw [Function.update_of_ne hkey, contents]
  split
  · next hplace =>
    -- a key of the same bucket, which is not being moved either
    have hrest' : InMoved s.table (hash key') → ∀ items, s.mover ≠ .moving items := by
      intro hmoved
      have hold : InOld s.table (hash key') := ⟨hmoved.1, Nat.le_of_eq hmoved.2.symm⟩
      rcases mod_eq_of_place hp hplace with ⟨-, -, hmod⟩ | ⟨hnot, -, -⟩
      · exact hrest ⟨hmoved.1, hmod.symm.trans hmoved.2⟩
      · exact absurd hold hnot
    rw [hother key' hkey, ← chain_place hp hrest, ← hplace, chain_place hp hrest']
  · rfl

/-- An operation on the located bucket of a key does to the contents what it does to a map. -/
lemma apply_sound (h : TableSound hash lockPower s) {op : AssocOp} {key : List Byte}
    (hrest : InMoved s.table (hash key) → ∀ items, s.mover ≠ .moving items)
    (hok : Permitted op s.table (s.table.place (hash key)) key) :
    TableSound hash lockPower { s with table := (op.apply s.table (s.table.place (hash key)) key).1 } ∧
      contents hash { s with table := (op.apply s.table (s.table.place (hash key)) key).1 } =
        effect op key (contents hash s) := by
  have hmem : ∀ it ∈ s.table.chain (s.table.place (hash key)),
      s.table.place (hash it.key) = s.table.place (hash key) := fun it => place_of_mem h
  have hdistinct : Distinct Item.key (s.table.chain (s.table.place (hash key))) := by
    rw [chain_place h.limit hrest]
    exact h.distinct (hash key)
  cases op with
  | find => exact ⟨h, rfl⟩
  | insert it =>
    obtain ⟨hkey, hnone⟩ := hok it rfl
    constructor
    · apply tableSound_setChain h hrest
      · intro it' hit'
        rcases List.mem_cons.mp hit' with rfl | hit'
        · rw [hkey]
        · exact hmem it' hit'
      · rw [distinct_cons, hkey]
        exact ⟨lookup_eq_none_iff.mp hnone, hdistinct⟩
    · refine (contents_setChain h.limit hrest fun key' hne => ?_).trans ?_
      · rw [← chain_place h.limit hrest]
        apply lookup_cons_of_ne
        rw [hkey]
        exact hne.symm
      · rw [effect, ← hkey, lookup_cons_self]
  | delete =>
    constructor
    · apply tableSound_setChain h hrest
      · intro it hit
        exact hmem it ((mem_unlink hdistinct).mp hit).1
      · exact distinct_unlink hdistinct
    · refine (contents_setChain h.limit hrest fun key' hne => ?_).trans ?_
      · rw [← chain_place h.limit hrest]
        apply lookup_congr (distinct_unlink hdistinct) hdistinct
        rintro it rfl
        rw [mem_unlink hdistinct]
        exact and_iff_left hne
      · rw [effect, lookup_eq_none_iff.mpr]
        intro it hit
        exact ((mem_unlink hdistinct).mp hit).2

/-! ### The expansion -/

/-- Without a bucket that is being moved, a hash value is where the operations look for it. -/
lemma view_of_rest (hp : s.table.hashpower ≤ 31) (h : ∀ items, s.mover ≠ .moving items) (hv : ℕ) :
    view s hv = s.table.chain (s.table.place hv) := (chain_place hp fun _ => h).symm

lemma heldBy_lt {worker : Worker} {lock : ℕ} (h : heldBy hash lockPower worker = some lock) :
    lock < 2 ^ lockPower := by
  cases worker with
  | idle => exact absurd h (by simp [heldBy])
  | locked key =>
    obtain rfl := Option.some.inj h
    exact Nat.mod_lt _ (Nat.two_pow_pos lockPower)
  | located key place =>
    obtain rfl := Option.some.inj h
    exact Nat.mod_lt _ (Nat.two_pow_pos lockPower)

section Expand

variable (h : AssocSound hash lockPower s) (hmover : s.mover = .free) (hexp : s.table.expanding = false)
  (hlt : s.table.hashpower < 31)

include hmover hexp hlt in
lemma view_expand (hv : ℕ) : view { s with table := assocExpand s.table } hv = view s hv := by
  have hrest : ∀ items, s.mover ≠ .moving items := by simp [hmover]
  have hnot : ¬InOld s.table hv := fun hold => absurd hold.1 (by simp [hexp])
  have hold : InOld (assocExpand s.table) hv := ⟨rfl, Nat.zero_le _⟩
  rw [view_of_rest (Nat.le_of_lt hlt) hrest,
    view_of_rest (s := { s with table := assocExpand s.table }) hlt hrest,
    place_primary (Nat.le_of_lt hlt) hnot, place_old (t := assocExpand s.table) hlt hold]
  rfl

include h hmover hexp hlt in
/-- While no lock is held, the old table is the one before and holds what it held. -/
lemma expand_sound (hlocks : ∀ lock < hashsize lockPower, s.itemLocks lock = false) :
    AssocSound hash lockPower { s with table := assocExpand s.table } := by
  have hpower := h.table.power
  have hnone : ∀ w lock, heldBy hash lockPower (s.workers w) ≠ some lock := by
    intro w lock hheld
    have hset := h.locks.held w lock hheld
    have hsize : hashsize lockPower = 2 ^ lockPower := hashsize_eq (Nat.le_of_lt (Nat.lt_trans hpower hlt))
    rw [hlocks lock (hsize ▸ heldBy_lt hheld)] at hset
    exact absurd hset Bool.false_ne_true
  have hfree : heldByMover lockPower { s with table := assocExpand s.table } = none := by
    rw [heldByMover, hmover]
  refine ⟨?_, ?_, ?_⟩
  · constructor
    · intro w lock hheld
      exact absurd hheld (hnone w lock)
    · intro lock hheld
      rw [hfree] at hheld
      exact absurd hheld (by simp)
    · intro w w' lock hheld
      exact absurd hheld (hnone w lock)
    · intro w lock hheld
      exact absurd hheld (hnone w lock)
  · constructor
    · exact Nat.lt_succ_of_lt hpower
    · exact hlt
    · intro _
      exact Nat.two_pow_pos _
    · intro b it hit
      exact absurd hit List.not_mem_nil
    · intro b it hit
      exact absurd hit List.not_mem_nil
    · intro _
      exact h.table.primary
    · intro items hmoving
      rw [hmover] at hmoving
      exact absurd hmoving (by simp)
    · intro b hb
      exact absurd (hb rfl) (Nat.not_lt_zero b)
    · intro hv
      rw [view_expand hmover hexp hlt]
      exact h.table.distinct hv
  · intro w key place hw
    exact absurd (congrArg (heldBy hash lockPower) hw) (hnone w _)

end Expand

section TryLock

variable (h : AssocSound hash lockPower s) (hmover : s.mover = .free) (hexp : s.table.expanding = true)

include h hmover in
/-- Before a bucket is moved, nothing is in the buckets it is moved to. -/
lemma primary_nil {hv : ℕ} (hmoved : InMoved s.table hv) :
    s.table.primaryHashtable (hv % 2 ^ s.table.hashpower) = [] := by
  apply List.eq_nil_iff_forall_not_mem.mpr
  intro it hit
  have hmod := mod_eq_of_primary (h.table.primary _ it hit)
  have hold : InOld s.table (hash it.key) := ⟨hmoved.1, Nat.le_of_eq (hmod.trans hmoved.2).symm⟩
  obtain ⟨-, items, hitems⟩ := h.table.done _ it hit hold
  rw [hmover] at hitems
  exact absurd hitems (by simp)

include h hmover in
lemma view_tryLock (lock hv : ℕ) :
    view { s.setLock lock true with mover := .moving (s.table.oldHashtable s.table.expandBucket) } hv =
    view s hv := by
  have hrest : ∀ items, s.mover ≠ .moving items := by simp [hmover]
  by_cases hmoved : InMoved s.table hv
  · have hold : InOld s.table hv := ⟨hmoved.1, Nat.le_of_eq hmoved.2.symm⟩
    have hnew := view_moving (s := { s.setLock lock true with
      mover := .moving (s.table.oldHashtable s.table.expandBucket) }) hmoved rfl
    rw [hnew, view_of_rest h.table.limit hrest, place_old h.table.limit hold, hmoved.2]
    simp only [AssocSystem.setLock, primary_nil h hmover hmoved, List.append_nil]
    rfl
  · rw [view_of_rest h.table.limit hrest, ← chain_place (s := { s.setLock lock true with
      mover := .moving (s.table.oldHashtable s.table.expandBucket) }) h.table.limit
        (fun hm => absurd hm hmoved)]
    rfl

include h hmover hexp in
lemma tryLock_sound (hfree : s.itemLocks (lockOf lockPower s.table.expandBucket) = false) :
    AssocSound hash lockPower { s.setLock (lockOf lockPower s.table.expandBucket) true with
      mover := .moving (s.table.oldHashtable s.table.expandBucket) } := by
  rw [lockOf_eq h.table] at hfree ⊢
  have hheld : ∀ w lock, heldBy hash lockPower (s.workers w) = some lock →
      lock ≠ s.table.expandBucket % 2 ^ lockPower := by
    rintro w lock hw rfl
    rw [h.locks.held w _ hw] at hfree
    exact absurd hfree (by simp)
  refine ⟨?_, ?_, ?_⟩
  · constructor
    · intro w lock hw
      simp only [AssocSystem.setLock, Function.update_of_ne (hheld w lock hw)]
      exact h.locks.held w lock hw
    · intro lock hlock
      obtain rfl := Option.some.inj hlock
      simp [AssocSystem.setLock]
    · exact h.locks.exclusive
    · intro w lock hw hlock
      exact hheld w lock hw (Option.some.inj hlock).symm
  · constructor
    · exact h.table.power
    · exact h.table.limit
    · exact h.table.bucket
    · exact h.table.primary
    · intro b it hit hold
      obtain ⟨-, items, hitems⟩ := h.table.done b it hit hold
      rw [hmover] at hitems
      exact absurd hitems (by simp)
    · exact h.table.old
    · intro items hitems
      obtain rfl := Mover.moving.inj hitems
      exact ⟨hexp, fun it hit => h.table.old hexp _ it hit⟩
    · exact h.table.freed
    · intro hv
      rw [view_tryLock h hmover]
      exact h.table.distinct hv
  · exact h.places

end TryLock

section Move

variable {it : Item} {items : List Item} (h : AssocSound hash lockPower s)
    (hmover : s.mover = .moving (it :: items))

/-- The system after an item is moved. -/
def afterMove (hash : List Byte → ℕ) (s : AssocSystem) (it : Item) (items : List Item) : AssocSystem :=
  { s with table := s.table.moveItem (hash it.key) it, mover := .moving items }

lemma primary_afterMove (hp : s.table.hashpower ≤ 31) (b : ℕ) :
    (afterMove hash s it items).table.primaryHashtable b =
    if b = hash it.key % 2 ^ s.table.hashpower then it :: s.table.primaryHashtable b
    else s.table.primaryHashtable b := by
  simp only [afterMove, Assoc.moveItem, and_hashmask _ hp, Function.update_apply]
  split
  · next heq => rw [heq]
  · rfl

include h hmover in
lemma inMoved_head : InMoved s.table (hash it.key) := by
  obtain ⟨hexp, hmod⟩ := h.table.moving _ hmover
  exact ⟨hexp, hmod it List.mem_cons_self⟩

include h hmover in
/-- The other buckets are left alone. -/
lemma view_move_other {hv : ℕ} (hnot : ¬InMoved s.table hv) :
    view (afterMove hash s it items) hv = view s hv := by
  have hprimary : ¬InOld s.table hv → hv % 2 ^ s.table.hashpower ≠ hash it.key % 2 ^ s.table.hashpower := by
    intro hold heq
    have hhead := inMoved_head h hmover
    exact hold ⟨hhead.1, Nat.le_of_eq ((mod_eq_of_primary heq).trans hhead.2).symm⟩
  have hnew := @chain_place (afterMove hash s it items) h.table.limit hv fun hm => absurd hm hnot
  rw [← hnew, ← chain_place h.table.limit fun hm => absurd hm hnot]
  by_cases hold : InOld s.table hv
  · rw [place_old h.table.limit hold, place_old (t := (afterMove hash s it items).table) h.table.limit hold]
    rfl
  · rw [place_primary h.table.limit hold,
      place_primary (t := (afterMove hash s it items).table) h.table.limit hold]
    exact (primary_afterMove h.table.limit _).trans (if_neg (hprimary hold))

include h in
lemma view_move_moved {hv : ℕ} (hmoved : InMoved s.table hv) : view (afterMove hash s it items) hv =
    items ++ if hv % 2 ^ s.table.hashpower = hash it.key % 2 ^ s.table.hashpower then
      it :: s.table.primaryHashtable (hv % 2 ^ s.table.hashpower)
    else s.table.primaryHashtable (hv % 2 ^ s.table.hashpower) := by
  have hnew := view_moving (s := afterMove hash s it items) hmoved rfl
  rw [hnew]
  exact congrArg (items ++ ·) (primary_afterMove h.table.limit _)

include h hmover in
lemma distinct_move (hv : ℕ) : Distinct Item.key (view (afterMove hash s it items) hv) := by
  have hdistinct := h.table.distinct hv
  by_cases hmoved : InMoved s.table hv
  · rw [view_moving hmoved hmover] at hdistinct
    rw [view_move_moved h hmoved]
    split
    · exact distinct_of_perm hdistinct List.perm_middle.symm
    · exact distinct_of_sublist hdistinct (List.sublist_cons_self it _)
  · rw [view_move_other h hmover hmoved]
    exact hdistinct

include h hmover in
/-- An item that is moved stays in the chain of its key, in another place. -/
lemma contents_move : contents hash (afterMove hash s it items) = contents hash s := by
  funext key
  apply lookup_congr (distinct_move h hmover _) (h.table.distinct _)
  rintro a rfl
  by_cases hmoved : InMoved s.table (hash a.key)
  · rw [view_move_moved h hmoved, view_moving hmoved hmover]
    split
    · exact List.perm_middle.mem_iff
    · next hne =>
      rw [List.cons_append, List.mem_cons]
      constructor
      · intro ha
        exact Or.inr ha
      · rintro (rfl | ha)
        · exact absurd rfl hne
        · exact ha
  · rw [view_move_other h hmover hmoved]

include h hmover in
lemma move_sound : AssocSound hash lockPower (afterMove hash s it items) := by
  obtain ⟨hexp, hmod⟩ := h.table.moving _ hmover
  have hheld : ∀ lock, heldByMover lockPower (afterMove hash s it items) = some lock →
      heldByMover lockPower s = some lock := by
    intro lock hlock
    rw [heldByMover, hmover]
    exact hlock
  refine ⟨⟨h.locks.held, ?_, h.locks.exclusive, ?_⟩, ?_, h.places⟩
  · intro lock hlock
    exact h.locks.heldMover lock (hheld lock hlock)
  · intro w lock hw hlock
    exact h.locks.mover w lock hw (hheld lock hlock)
  · have hcases : ∀ b, ∀ a ∈ (afterMove hash s it items).table.primaryHashtable b,
        (a = it ∧ b = hash it.key % 2 ^ s.table.hashpower) ∨ a ∈ s.table.primaryHashtable b := by
      intro b a ha
      rw [primary_afterMove h.table.limit] at ha
      split at ha
      · next heq =>
        rcases List.mem_cons.mp ha with rfl | ha
        · exact Or.inl ⟨rfl, heq⟩
        · exact Or.inr ha
      · exact Or.inr ha
    constructor
    · exact h.table.power
    · exact h.table.limit
    · exact h.table.bucket
    · intro b a ha
      rcases hcases b a ha with ⟨rfl, rfl⟩ | ha
      · rfl
      · exact h.table.primary b a ha
    · intro b a ha hold
      rcases hcases b a ha with ⟨rfl, rfl⟩ | ha
      · have hhead := inMoved_head h hmover
        exact ⟨hhead, items, rfl⟩
      · exact ⟨(h.table.done b a ha hold).1, items, rfl⟩
    · exact h.table.old
    · intro items' hitems
      obtain rfl := Mover.moving.inj hitems
      exact ⟨hexp, fun a ha => hmod a (List.mem_cons_of_mem it ha)⟩
    · exact h.table.freed
    · exact distinct_move h hmover

end Move

section Finish

variable (h : AssocSound hash lockPower s) (hmover : s.mover = .moving [])

/-- The system after the last item of a bucket is moved. -/
def afterFinish (s : AssocSystem) : AssocSystem :=
  { s with table := s.table.bucketMoved, mover := .moved s.table.expandBucket }

lemma expanding_finish (hp : s.table.hashpower ≤ 31) : (afterFinish s).table.expanding = true ↔
    s.table.expandBucket + 1 ≠ 2 ^ (s.table.hashpower - 1) := by
  rw [← hashsize_eq (by omega : s.table.hashpower - 1 ≤ 31)]
  exact decide_eq_true_iff

include h hmover in
/-- The hash values of the bucket are now in the primary table, the others are where they were. -/
lemma inOld_finish {hv : ℕ} : InOld (afterFinish s).table hv ↔ InOld s.table hv ∧ ¬InMoved s.table hv := by
  obtain ⟨hexp, -⟩ := h.table.moving _ hmover
  have hlt : hv % 2 ^ (s.table.hashpower - 1) < 2 ^ (s.table.hashpower - 1) :=
    Nat.mod_lt _ (Nat.two_pow_pos _)
  rw [InOld, InOld, InMoved, expanding_finish h.table.limit, hexp]
  simp only [afterFinish, Assoc.bucketMoved, true_and]
  omega

include h hmover in
lemma view_finish (hv : ℕ) : view (afterFinish s) hv = view s hv := by
  have hlimit : (afterFinish s).table.hashpower ≤ 31 := h.table.limit
  have hrest : ∀ items, (afterFinish s).mover ≠ .moving items := by simp [afterFinish]
  rw [view_of_rest hlimit hrest]
  by_cases hmoved : InMoved s.table hv
  · have hnot : ¬InOld (afterFinish s).table hv := by
      rw [inOld_finish h hmover]
      exact fun hold => hold.2 hmoved
    rw [place_primary hlimit hnot, view_moving hmoved hmover]
    rfl
  · rw [← chain_place h.table.limit fun hm => absurd hm hmoved]
    by_cases hold : InOld s.table hv
    · have hold' := (inOld_finish h hmover).mpr ⟨hold, hmoved⟩
      have hne : hv % 2 ^ (s.table.hashpower - 1) ≠ s.table.expandBucket := fun heq => hmoved ⟨hold.1, heq⟩
      rw [place_old h.table.limit hold, place_old hlimit hold']
      exact Function.update_of_ne hne _ _
    · have hnot : ¬InOld (afterFinish s).table hv := by
        rw [inOld_finish h hmover]
        exact fun hold' => hold hold'.1
      rw [place_primary h.table.limit hold, place_primary hlimit hnot]
      rfl

include h hmover in
/-- No bucket is left behind when the old table is freed. -/
lemma freed_finish {b : ℕ} (hb : (afterFinish s).table.expanding = true → b < s.table.expandBucket + 1) :
    (afterFinish s).table.oldHashtable b = [] := by
  obtain ⟨hexp, -⟩ := h.table.moving _ hmover
  by_cases heq : b = s.table.expandBucket
  · rw [heq]
    exact Function.update_self _ _ _
  refine (Function.update_of_ne heq _ _).trans (List.eq_nil_iff_forall_not_mem.mpr fun it hit => ?_)
  have hmod := h.table.old hexp b it hit
  have hlt : hash it.key % 2 ^ (s.table.hashpower - 1) < 2 ^ (s.table.hashpower - 1) :=
    Nat.mod_lt _ (Nat.two_pow_pos _)
  rw [expanding_finish h.table.limit] at hb
  have hbelow : b < s.table.expandBucket := by
    by_cases hlast : s.table.expandBucket + 1 = 2 ^ (s.table.hashpower - 1)
    · omega
    · have := hb hlast
      omega
  rw [h.table.freed b fun _ => hbelow] at hit
  exact absurd hit List.not_mem_nil

include h hmover in
/-- A worker's bucket is not the one that was moved, so the worker still looks in the right place. -/
lemma places_finish : PlacesSound hash (afterFinish s) := by
  intro w key place hw
  have hlimit : (afterFinish s).table.hashpower ≤ 31 := h.table.limit
  have hheld : heldBy hash lockPower (s.workers w) = some (hash key % 2 ^ lockPower) :=
    congrArg (heldBy hash lockPower) hw
  have hnot : ¬InMoved s.table (hash key) := fun hm => not_moving_of_held h hheld hm [] hmover
  rw [h.places w key place hw]
  by_cases hold : InOld s.table (hash key)
  · rw [place_old h.table.limit hold, place_old hlimit ((inOld_finish h hmover).mpr ⟨hold, hnot⟩)]
    rfl
  · have hnew : ¬InOld (afterFinish s).table (hash key) := by
      rw [inOld_finish h hmover]
      exact fun hold' => hold hold'.1
    rw [place_primary h.table.limit hold, place_primary hlimit hnew]
    rfl

include h hmover in
lemma finish_sound : AssocSound hash lockPower (afterFinish s) := by
  obtain ⟨hexp, -⟩ := h.table.moving _ hmover
  have hheld : heldByMover lockPower (afterFinish s) = heldByMover lockPower s := by
    rw [heldByMover, heldByMover, hmover]
    rfl
  refine ⟨⟨h.locks.held, ?_, h.locks.exclusive, ?_⟩, ?_, places_finish h hmover⟩
  · rw [hheld]
    exact h.locks.heldMover
  · rw [hheld]
    exact h.locks.mover
  constructor
  · exact h.table.power
  · exact h.table.limit
  · intro hexp'
    have hlt := h.table.bucket hexp
    rw [expanding_finish h.table.limit] at hexp'
    exact Nat.lt_of_le_of_ne hlt hexp'
  · exact h.table.primary
  · intro b it hit hold
    have hold' := (inOld_finish h hmover).mp hold
    exact absurd (h.table.done b it hit hold'.1).1 hold'.2
  · intro _ b it hit
    by_cases heq : b = s.table.expandBucket
    · rw [heq, show (afterFinish s).table.oldHashtable s.table.expandBucket = []
        from Function.update_self _ _ _] at hit
      exact absurd hit List.not_mem_nil
    · rw [show (afterFinish s).table.oldHashtable b = s.table.oldHashtable b
        from Function.update_of_ne heq _ _] at hit
      exact h.table.old hexp b it hit
  · intro items hitems
    exact absurd hitems (by simp [afterFinish])
  · intro b hb
    exact freed_finish h hmover hb
  · intro hv
    rw [view_finish h hmover]
    exact h.table.distinct hv

end Finish

section Release

variable {bucket : ℕ} (h : AssocSound hash lockPower s) (hmover : s.mover = .moved bucket)

include h hmover in
lemma view_release (lock hv : ℕ) : view { s.setLock lock false with mover := .free } hv = view s hv := by
  have hrest : ∀ items, s.mover ≠ .moving items := by simp [hmover]
  rw [view_of_rest h.table.limit hrest,
    view_of_rest (s := { s.setLock lock false with mover := .free }) h.table.limit (by simp)]
  rfl

include h hmover in
lemma release_sound :
    AssocSound hash lockPower { s.setLock (lockOf lockPower bucket) false with mover := .free } := by
  rw [lockOf_eq h.table]
  have hheld : heldByMover lockPower s = some (bucket % 2 ^ lockPower) := by rw [heldByMover, hmover]
  refine ⟨⟨?_, ?_, h.locks.exclusive, ?_⟩, ?_, h.places⟩
  · intro w lock hw
    have hne : lock ≠ bucket % 2 ^ lockPower := by
      rintro rfl
      exact h.locks.mover w _ hw hheld
    simp only [AssocSystem.setLock, Function.update_of_ne hne]
    exact h.locks.held w lock hw
  · intro lock hlock
    exact absurd hlock (by simp [heldByMover])
  · intro w lock _
    simp [heldByMover]
  constructor
  · exact h.table.power
  · exact h.table.limit
  · exact h.table.bucket
  · exact h.table.primary
  · intro b it hit hold
    obtain ⟨-, items, hitems⟩ := h.table.done b it hit hold
    rw [hmover] at hitems
    exact absurd hitems (by simp)
  · exact h.table.old
  · intro items hitems
    exact absurd hitems (by simp)
  · exact h.table.freed
  · intro hv
    rw [view_release h hmover]
    exact h.table.distinct hv

end Release

end Table

end BmcCache.Proofs
