import BmcCache.Lib.Transition
import BmcCache.Proofs.Assoc
import BmcCache.Proofs.Transparency

/-!
# Runs of the hash table

Whatever the order in which the worker threads and the thread that expands the table take their steps,
the table holds what the operations on it leave when they are applied one after the other.
-/

namespace BmcCache.Proofs

open Chains Transition

section Runs

variable {hash : List Byte → ℕ} {lockPower : ℕ} {s s' : AssocSystem}

/-! ### Steps -/

/-- What a step does to a map that the operations are applied to as they happen. -/
def stepEffect (s : AssocSystem) (a : AssocAction) (store : List Byte → Option Item) :
    List Byte → Option Item :=
  match a with
  | .apply w op =>
    match s.workers w with
    | .located key _ => effect op key store
    | _ => store
  | _ => store

/-- Items are inserted only under keys that are absent. -/
def InsertsAbsent (s : AssocSystem) (a : AssocAction) : Prop :=
  ∀ w op key place, a = .apply w op → s.workers w = .located key place → Permitted op s.table place key

/-- And the table is expanded to `2 ^ 31` buckets at most. -/
def WithinLimits (s : AssocSystem) (a : AssocAction) : Prop :=
  InsertsAbsent s a ∧ (a = .expand → s.table.hashpower < 31)

lemma worker_step_sound (h : AssocSound hash lockPower s) {w : ℕ} {worker : Worker}
    (hsame : heldBy hash lockPower worker = heldBy hash lockPower (s.workers w))
    (hworker : ∀ key place, worker = .located key place → place = s.table.place (hash key)) :
    AssocSound hash lockPower (s.setWorker w worker) ∧
    contents hash (s.setWorker w worker) = contents hash s :=
  ⟨⟨locksSound_setWorker h.locks hsame, tableSound_congr h.table rfl rfl,
    placesSound_setWorker h.places hworker⟩, contents_congr fun _ => view_congr rfl rfl⟩

lemma apply_step_sound (h : AssocSound hash lockPower s) {w : ℕ} {op : AssocOp} {key : List Byte}
    {place : Place} (hw : s.workers w = .located key place) (hok : Permitted op s.table place key) :
    AssocSound hash lockPower ({ s with table := (op.apply s.table place key).1 }.setWorker w (.locked key)) ∧
      contents hash ({ s with table := (op.apply s.table place key).1 }.setWorker w (.locked key)) =
        effect op key (contents hash s) := by
  have hheld : heldBy hash lockPower (s.workers w) = some (hash key % 2 ^ lockPower) :=
    congrArg (heldBy hash lockPower) hw
  obtain rfl := h.places w key place hw
  obtain ⟨htable, hcontents⟩ := apply_sound h.table (not_moving_of_held h hheld) hok
  -- the bucket of a hash value does not depend on the chains
  have hplace : ∀ hv, (op.apply s.table (s.table.place (hash key)) key).1.place hv = s.table.place hv := by
    intro hv
    cases op with
    | find => rfl
    | insert it => exact place_setChain s.table _ _ hv
    | delete => exact place_setChain s.table _ _ hv
  have hmoverLock : heldByMover lockPower
      { s with table := (op.apply s.table (s.table.place (hash key)) key).1 } =
      heldByMover lockPower s := by
    unfold heldByMover
    cases op with
    | find => rfl
    | insert it => simp only [AssocOp.apply, setChain_expandBucket]
    | delete => simp only [AssocOp.apply, setChain_expandBucket]
  have hsound : AssocSound hash lockPower
      { s with table := (op.apply s.table (s.table.place (hash key)) key).1 } := by
    refine ⟨⟨h.locks.held, ?_, h.locks.exclusive, ?_⟩, htable, ?_⟩
    · rw [hmoverLock]
      exact h.locks.heldMover
    · rw [hmoverLock]
      exact h.locks.mover
    · intro w' key' place' hw'
      rw [hplace]
      exact h.places w' key' place' hw'
  have hkeep : heldBy hash lockPower (.locked key) = heldBy hash lockPower (s.workers w) := hheld.symm
  obtain ⟨hdone, hsame⟩ := worker_step_sound hsound hkeep (by simp)
  exact ⟨hdone, hsame.trans hcontents⟩

/-- A step keeps the invariant, and does to the contents what the operation in it does to a map. -/
theorem step_sound (h : AssocSound hash lockPower s) {a : AssocAction} (hok : WithinLimits s a)
    (hstep : s.step hash lockPower a = some s') :
    AssocSound hash lockPower s' ∧ contents hash s' = stepEffect s a (contents hash s) := by
  cases a with
  | lock w key =>
    simp only [AssocSystem.step] at hstep
    split at hstep
    · next hw =>
      split at hstep
      · exact absurd hstep (by simp)
      · next hfree =>
        obtain rfl := Option.some.inj hstep
        rw [lockOf_eq h.table, Bool.not_eq_true] at hfree
        rw [lockOf_eq h.table]
        exact ⟨⟨locksSound_lock h.locks hfree rfl, tableSound_congr h.table rfl rfl,
          placesSound_setWorker h.places (by simp)⟩, contents_congr fun _ => view_congr rfl rfl⟩
    · exact absurd hstep (by simp)
  | locate w =>
    simp only [AssocSystem.step] at hstep
    split at hstep
    · next key hw =>
      obtain rfl := Option.some.inj hstep
      apply worker_step_sound h
      · rw [hw]
        rfl
      · rintro key' place' heq
        obtain ⟨rfl, rfl⟩ := Worker.located.inj heq
        rfl
    · exact absurd hstep (by simp)
  | apply w op =>
    simp only [AssocSystem.step] at hstep
    split at hstep
    · next key place hw =>
      obtain rfl := Option.some.inj hstep
      simp only [stepEffect, hw]
      exact apply_step_sound h hw (hok.1 w op key place rfl hw)
    · exact absurd hstep (by simp)
  | unlock w =>
    simp only [AssocSystem.step] at hstep
    split at hstep
    · next key hw =>
      obtain rfl := Option.some.inj hstep
      have hheld : heldBy hash lockPower (s.workers w) = some (hash key % 2 ^ lockPower) :=
        congrArg (heldBy hash lockPower) hw
      rw [lockOf_eq h.table]
      exact ⟨⟨locksSound_unlock h.locks hheld, tableSound_congr h.table rfl rfl,
        placesSound_setWorker h.places (by simp)⟩, contents_congr fun _ => view_congr rfl rfl⟩
    · exact absurd hstep (by simp)
  | expand =>
    simp only [AssocSystem.step] at hstep
    split at hstep
    · next hmover =>
      split at hstep
      · exact absurd hstep (by simp)
      · next hcond =>
        obtain rfl := Option.some.inj hstep
        simp only [not_or, not_exists, not_and, Bool.not_eq_true] at hcond
        exact ⟨expand_sound h hmover hcond.1 (hok.2 rfl) hcond.2.2,
          contents_congr (view_expand hmover hcond.1 (hok.2 rfl))⟩
    · exact absurd hstep (by simp)
  | tryLock =>
    simp only [AssocSystem.step] at hstep
    split at hstep
    · next hmover =>
      split at hstep
      · next hcond =>
        obtain rfl := Option.some.inj hstep
        exact ⟨tryLock_sound h hmover hcond.1 hcond.2, contents_congr (view_tryLock h hmover _)⟩
      · exact absurd hstep (by simp)
    · exact absurd hstep (by simp)
  | move =>
    simp only [AssocSystem.step] at hstep
    split at hstep
    · next it items hmover =>
      obtain rfl := Option.some.inj hstep
      exact ⟨move_sound h hmover, contents_move h hmover⟩
    · exact absurd hstep (by simp)
  | finish =>
    simp only [AssocSystem.step] at hstep
    split at hstep
    · next hmover =>
      obtain rfl := Option.some.inj hstep
      exact ⟨finish_sound h hmover, contents_congr (view_finish h hmover)⟩
    · exact absurd hstep (by simp)
  | release =>
    simp only [AssocSystem.step] at hstep
    split at hstep
    · next bucket hmover =>
      obtain rfl := Option.some.inj hstep
      exact ⟨release_sound h hmover, contents_congr (view_release h hmover _)⟩
    · exact absurd hstep (by simp)

lemma init_sound {hashtableInit : ℕ} (hpower : lockPower < hashtableInit) (hlimit : hashtableInit ≤ 31) :
    AssocSound hash lockPower (AssocSystem.init hashtableInit) := by
  have hview : ∀ hv, view (AssocSystem.init hashtableInit) hv = [] := by
    intro hv
    rw [view_of_rest hlimit (by simp [AssocSystem.init])]
    cases (AssocSystem.init hashtableInit).table.place hv <;> rfl
  refine ⟨⟨by simp [AssocSystem.init, heldBy], by simp [AssocSystem.init, heldByMover],
    by simp [AssocSystem.init, heldBy], by simp [AssocSystem.init, heldBy]⟩,
    ?_, by simp [PlacesSound, AssocSystem.init]⟩
  constructor
  · exact hpower
  · exact hlimit
  · simp [AssocSystem.init, Assoc.init]
  · simp [AssocSystem.init, Assoc.init]
  · simp [AssocSystem.init, Assoc.init]
  · simp [AssocSystem.init, Assoc.init]
  · simp [AssocSystem.init]
  · simp [AssocSystem.init, Assoc.init]
  · intro hv
    rw [hview]
    exact distinct_nil

/-- The system with a map that every operation is applied to at the step that applies it to the table. -/
def trackedStep (hash : List Byte → ℕ) (lockPower : ℕ) (p : AssocSystem × (List Byte → Option Item))
    (a : AssocAction) :
    Option (AssocSystem × (List Byte → Option Item)) :=
  (p.1.step hash lockPower a).map fun s' => (s', stepEffect p.1 a p.2)

lemma reach_sound {hashtableInit : ℕ} (hpower : lockPower < hashtableInit)
    (hlimit : hashtableInit ≤ 31)
    (hreach : Reach (AssocSystem.step hash lockPower) WithinLimits (AssocSystem.init hashtableInit) s) :
    AssocSound hash lockPower s :=
  hreach.invariant (AssocSound hash lockPower) (init_sound hpower hlimit) fun _ _ _ h hok hstep =>
    (step_sound h hok hstep).1

lemma tracked_sound {hashtableInit : ℕ} (hpower : lockPower < hashtableInit)
    (hlimit : hashtableInit ≤ 31)
    {p : AssocSystem × (List Byte → Option Item)}
    (hreach : Reach (trackedStep hash lockPower) (fun p => WithinLimits p.1)
      (AssocSystem.init hashtableInit, fun _ => none) p) :
    AssocSound hash lockPower p.1 ∧ contents hash p.1 = p.2 := by
  apply hreach.invariant fun p => AssocSound hash lockPower p.1 ∧ contents hash p.1 = p.2
  · refine ⟨init_sound hpower hlimit, ?_⟩
    funext key
    rw [contents, view_of_rest hlimit (by simp [AssocSystem.init])]
    cases (AssocSystem.init hashtableInit).table.place (hash key) <;> rfl
  · rintro ⟨s, store⟩ a p' ⟨h, hstore⟩ hok hstep
    obtain ⟨s', hs', rfl⟩ := Option.map_eq_some_iff.mp hstep
    obtain ⟨hsound, hcontents⟩ := step_sound h hok hs'
    exact ⟨hsound, hcontents.trans (congrArg (stepEffect s a) hstore)⟩

/-- In every interleaving of the threads, a worker that has located the bucket of its key finds there what
the operations applied so far leave for the key in a map; so does every lookup while no bucket is moved. -/
theorem lookups_linearize {hashtableInit : ℕ} (hpower : lockPower < hashtableInit)
    (hlimit : hashtableInit ≤ 31)
    {p : AssocSystem × (List Byte → Option Item)}
    (hreach : Reach (trackedStep hash lockPower) (fun p => WithinLimits p.1)
      (AssocSystem.init hashtableInit, fun _ => none) p) :
    (∀ w key place, p.1.workers w = .located key place →
      (AssocOp.find.apply p.1.table place key).2 = p.2 key) ∧
      ((∀ items, p.1.mover ≠ .moving items) →
        ∀ key, (AssocOp.find.apply p.1.table (p.1.table.place (hash key)) key).2 = p.2 key) := by
  obtain ⟨h, hcontents⟩ := tracked_sound hpower hlimit hreach
  have hlookup : ∀ key, (InMoved p.1.table (hash key) → ∀ items, p.1.mover ≠ .moving items) →
      (AssocOp.find.apply p.1.table (p.1.table.place (hash key)) key).2 = p.2 key := by
    intro key hrest
    rw [← hcontents, contents, ← chain_place h.table.limit hrest]
    rfl
  constructor
  · intro w key place hw
    obtain rfl := h.places w key place hw
    exact hlookup key (not_moving_of_held h (congrArg (heldBy hash lockPower) hw))
  · intro hrest key
    exact hlookup key fun _ => hrest

lemma insertsAbsent_of_quiet {a : AssocAction} (h : ∀ w op, a ≠ .apply w op) (s : AssocSystem) :
    InsertsAbsent s a :=
  fun w op _ _ ha => absurd ha (h w op)

/-- A bucket is under one lock: no two workers have located the same one, and none has located a bucket
that the expansion reads or writes. -/
theorem buckets_exclusive {hashtableInit : ℕ} (hpower : lockPower < hashtableInit)
    (hlimit : hashtableInit ≤ 31)
    (hreach : Reach (AssocSystem.step hash lockPower) WithinLimits (AssocSystem.init hashtableInit) s) :
    (∀ w w' key key' place, s.workers w = .located key place → s.workers w' = .located key' place → w = w') ∧
      ∀ items w key place, s.mover = .moving items → s.workers w = .located key place →
        place ≠ .old s.table.expandBucket ∧
        ∀ it ∈ items, place ≠ .primary (hash it.key &&& hashmask s.table.hashpower) := by
  have h := reach_sound hpower hlimit hreach
  have hle : lockPower ≤ s.table.hashpower - 1 := Nat.le_sub_one_of_lt h.table.power
  have hheld : ∀ w key place, s.workers w = .located key place →
      heldBy hash lockPower (s.workers w) = some (hash key % 2 ^ lockPower) := by
    intro w key place hw
    exact congrArg (heldBy hash lockPower) hw
  constructor
  · intro w w' key key' place hw hw'
    have hplace : s.table.place (hash key) = s.table.place (hash key') :=
      (h.places w key place hw).symm.trans (h.places w' key' place hw')
    have hmod : hash key % 2 ^ (s.table.hashpower - 1) = hash key' % 2 ^ (s.table.hashpower - 1) := by
      rcases mod_eq_of_place h.table.limit hplace with ⟨-, -, hmod⟩ | ⟨-, -, hmod⟩
      · exact hmod
      · exact mod_eq_of_primary hmod
    apply h.locks.exclusive w w' _ (hheld w key place hw)
    rw [hheld w' key' place hw', ← mod_mod_pow (hash key') hle, ← hmod, mod_mod_pow (hash key) hle]
  · intro items w key place hmover hw
    have hnot : ¬InMoved s.table (hash key) :=
      fun hm => not_moving_of_held h (hheld w key place hw) hm items hmover
    obtain ⟨hexp, hitems⟩ := h.table.moving items hmover
    rw [h.places w key place hw]
    by_cases hold : InOld s.table (hash key)
    · rw [place_old h.table.limit hold]
      constructor
      · rintro heq
        exact hnot ⟨hexp, Place.old.inj heq⟩
      · simp
    · rw [place_primary h.table.limit hold]
      constructor
      · simp
      · intro it hit heq
        rw [and_hashmask _ h.table.limit, Place.primary.injEq] at heq
        exact hnot ⟨hexp, (mod_eq_of_primary heq).trans (hitems it hit)⟩

/-! ### A whole expansion -/

/-- The steps of the thread that expands the table. -/
def MoverAction (a : AssocAction) : Prop := a = .tryLock ∨ a = .move ∨ a = .finish ∨ a = .release

variable (hash lockPower) in
/-- The rest of a bucket is moved. -/
lemma run_moves (items : List Item) : ∀ {s : AssocSystem}, s.mover = .moving items →
    ∃ t, run (AssocSystem.step hash lockPower) s (List.replicate items.length .move) =
        some { s with table := t, mover := .moving [] } ∧
      t.hashpower = s.table.hashpower ∧ t.expandBucket = s.table.expandBucket := by
  induction items with
  | nil =>
    intro s hmover
    exact ⟨s.table, by rw [← hmover]; rfl, rfl, rfl⟩
  | cons it items ih =>
    intro s hmover
    obtain ⟨t, hrun, hpower, hbucket⟩ := ih (s := afterMove hash s it items) rfl
    refine ⟨t, ?_, hpower, hbucket⟩
    have hstep : s.step hash lockPower .move = some (afterMove hash s it items) := by
      simp only [AssocSystem.step, hmover]
      rfl
    rw [List.length_cons, List.replicate_succ, run, hstep]
    exact hrun

variable (hash lockPower) in
/-- A bucket whose lock is taken is moved to its end. -/
lemma run_locked (hp : s.table.hashpower ≤ 31) {items : List Item} (hmover : s.mover = .moving items) :
    ∃ s', run (AssocSystem.step hash lockPower) s
    (List.replicate items.length .move ++ [.finish, .release]) = some s' ∧
      s'.mover = .free ∧ s'.table.hashpower = s.table.hashpower ∧
      s'.table.expandBucket = s.table.expandBucket + 1 ∧
      (s'.table.expanding = true ↔ s.table.expandBucket + 1 ≠ 2 ^ (s.table.hashpower - 1)) ∧
      s'.itemLocks = Function.update s.itemLocks (lockOf lockPower s.table.expandBucket) false := by
  obtain ⟨t, hrun, hpower, hbucket⟩ := run_moves hash lockPower items hmover
  refine ⟨{ (afterFinish { s with table := t, mover := .moving [] }).setLock
    (lockOf lockPower t.expandBucket) false with
    mover := .free }, ?_, rfl, hpower, congrArg (· + 1) hbucket, ?_, ?_⟩
  · rw [run_append hrun]
    rfl
  · rw [← hpower, ← hbucket]
    exact expanding_finish (s := { s with table := t, mover := .moving [] }) (hpower.symm ▸ hp)
  · rw [← hbucket]
    rfl

variable (hash lockPower) in
/-- With its lock free, the next bucket can be moved; all locks are free again after it. -/
lemma run_bucket (hp : s.table.hashpower ≤ 31) (hmover : s.mover = .free) (hexp : s.table.expanding = true)
    (hfree : ∀ lock, s.itemLocks lock = false) :
    ∃ as s', (∀ a ∈ as, MoverAction a) ∧ run (AssocSystem.step hash lockPower) s as = some s' ∧
    s'.mover = .free ∧
      (∀ lock, s'.itemLocks lock = false) ∧ s'.table.hashpower = s.table.hashpower ∧
      s'.table.expandBucket = s.table.expandBucket + 1 ∧
      (s'.table.expanding = true ↔ s.table.expandBucket + 1 ≠ 2 ^ (s.table.hashpower - 1)) := by
  have htry : s.step hash lockPower .tryLock =
      some { s.setLock (lockOf lockPower s.table.expandBucket) true with
      mover := .moving (s.table.oldHashtable s.table.expandBucket) } := by
    simp only [AssocSystem.step, hmover]
    exact if_pos ⟨hexp, hfree _⟩
  obtain ⟨s', hrun, hmover', hpower, hbucket, hexp', hlocks⟩ := run_locked hash lockPower
    (s := { s.setLock (lockOf lockPower s.table.expandBucket) true with
      mover := .moving (s.table.oldHashtable s.table.expandBucket) }) hp rfl
  refine ⟨.tryLock :: (List.replicate (s.table.oldHashtable s.table.expandBucket).length .move ++
    [.finish, .release]), s', ?_, ?_, hmover', ?_, hpower, hbucket, hexp'⟩
  · intro a ha
    unfold MoverAction
    simp only [List.mem_cons, List.mem_append, List.mem_replicate, List.not_mem_nil, or_false] at ha
    tauto
  · rw [run, htry, Option.bind_some, hrun]
  · intro lock
    rw [hlocks]
    simp only [AssocSystem.setLock, Function.update_apply]
    split
    · rfl
    · exact hfree lock

lemma withinLimits_mover {a : AssocAction} (h : MoverAction a) (s : AssocSystem) : WithinLimits s a := by
  constructor
  · apply insertsAbsent_of_quiet
    rintro w op rfl
    rcases h with h | h | h | h <;> exact absurd h (by simp)
  · rintro rfl
    rcases h with h | h | h | h <;> exact absurd h (by simp)

/-- The steps of the expansion leave the contents as they are. -/
lemma run_mover_sound {as : List AssocAction} (has : ∀ a ∈ as, MoverAction a)
    (h : AssocSound hash lockPower s) (hrun : run (AssocSystem.step hash lockPower) s as = some s') :
    AssocSound hash lockPower s' ∧ contents hash s' = contents hash s := by
  induction as generalizing s with
  | nil =>
    obtain rfl := Option.some.inj hrun
    exact ⟨h, rfl⟩
  | cons a as ih =>
    rw [run, Option.bind_eq_some_iff] at hrun
    obtain ⟨t, ht, hrun⟩ := hrun
    have ha := has a List.mem_cons_self
    have hquiet : stepEffect s a (contents hash s) = contents hash s := by
      rcases ha with rfl | rfl | rfl | rfl <;> rfl
    obtain ⟨hsound, hcontents⟩ := step_sound h (withinLimits_mover ha s) ht
    obtain ⟨hsound', hcontents'⟩ := ih (fun a' ha' => has a' (List.mem_cons_of_mem _ ha')) hsound hrun
    exact ⟨hsound', hcontents'.trans (hcontents.trans hquiet)⟩

variable (hash lockPower) in
/-- The buckets from `expandBucket` on are moved one after the other. -/
lemma run_buckets (n : ℕ) : ∀ {s : AssocSystem}, s.table.hashpower ≤ 31 → s.mover = .free →
    s.table.expanding = true →
    (∀ lock, s.itemLocks lock = false) → s.table.expandBucket + (n + 1) = 2 ^ (s.table.hashpower - 1) →
    ∃ as s', (∀ a ∈ as, MoverAction a) ∧ run (AssocSystem.step hash lockPower) s as = some s' ∧
      s'.mover = .free ∧ s'.table.expanding = false := by
  induction n with
  | zero =>
    intro s hp hmover hexp hfree hlast
    obtain ⟨as, s', has, hrun, hmover', -, -, -, hexp'⟩ := run_bucket hash lockPower hp hmover hexp hfree
    refine ⟨as, s', has, hrun, hmover', ?_⟩
    rw [← Bool.not_eq_true, hexp']
    exact not_not_intro hlast
  | succ n ih =>
    intro s hp hmover hexp hfree hlast
    obtain ⟨as, s', has, hrun, hmover', hfree', hpower, hbucket, hexp'⟩ :=
      run_bucket hash lockPower hp hmover hexp hfree
    obtain ⟨as', s'', has', hrun', hmover'', hdone⟩ :=
      ih (hpower ▸ hp) hmover' (hexp'.mpr (by omega)) hfree' (by rw [hpower]; omega)
    refine ⟨as ++ as', s'', ?_, (run_append hrun).trans hrun', hmover'', hdone⟩
    intro a ha
    exact (List.mem_append.mp ha).elim (has a) (has' a)

/-- From every state of a run in which no lock is held, the expansion can be carried to its end by the
thread alone: the old table is then empty and every key has what it had. -/
theorem expansion_completes {hashtableInit : ℕ} (hpower : lockPower < hashtableInit)
    (hlimit : hashtableInit ≤ 31)
    (hreach : Reach (AssocSystem.step hash lockPower) WithinLimits (AssocSystem.init hashtableInit) s)
    (hexp : s.table.expanding = true) (hfree : ∀ lock, s.itemLocks lock = false) :
    ∃ as s', (∀ a ∈ as, MoverAction a) ∧ run (AssocSystem.step hash lockPower) s as = some s' ∧
      s'.table.expanding = false ∧ (∀ b, s'.table.oldHashtable b = []) ∧
      ∀ key, lookup Item.key key (s'.table.primaryHashtable (hash key &&& hashmask s'.table.hashpower)) =
        lookup Item.key key (s.table.chain (s.table.place (hash key))) := by
  have h := reach_sound hpower hlimit hreach
  have hmover : s.mover = .free := by
    cases hm : s.mover with
    | free => rfl
    | moving items =>
      have hset := h.locks.heldMover (s.table.expandBucket % 2 ^ lockPower) (by rw [heldByMover, hm])
      exact absurd (hset.symm.trans (hfree _)) (by simp)
    | moved bucket =>
      have hset := h.locks.heldMover (bucket % 2 ^ lockPower) (by rw [heldByMover, hm])
      exact absurd (hset.symm.trans (hfree _)) (by simp)
  have hlt := h.table.bucket hexp
  obtain ⟨as, s', has, hrun, hmover', hdone⟩ := run_buckets hash lockPower
    (2 ^ (s.table.hashpower - 1) - s.table.expandBucket - 1) h.table.limit hmover hexp hfree (by omega)
  obtain ⟨h', hcontents⟩ := run_mover_sound has h hrun
  refine ⟨as, s', has, hrun, hdone, ?_, ?_⟩
  · intro b
    exact h'.table.freed b fun hexp' => absurd hexp' (by simp [hdone])
  · intro key
    have hnot : ¬InOld s'.table (hash key) := fun hold => absurd hold.1 (by simp [hdone])
    have hkey := congrFun hcontents key
    rw [contents, contents, view_primary hnot, view_of_rest h.table.limit (by simp [hmover])] at hkey
    rw [and_hashmask _ h'.table.limit]
    exact hkey

end Runs

/-! ### An item that is moved -/

/-- A worker has located the bucket of an item. -/
def insertRun : List AssocAction := [.lock 0 cachedItem.key, .locate 0]

/-- Its bucket is moved to a table of four buckets. -/
def moveRun : List AssocAction := [.tryLock, .move, .finish, .release, .lock 1 cachedItem.key, .locate 1]

lemma withinLimits_cachedItem {s : AssocSystem} {place : Place}
    (hw : s.workers 0 = .located cachedItem.key place) (hnone : s.table.chain place = []) :
    WithinLimits s (.apply 0 (.insert cachedItem)) := by
  refine ⟨?_, fun hexpand => absurd hexpand (by simp)⟩
  rintro w op key place' heq hw' it rfl
  obtain ⟨rfl, hop⟩ := AssocAction.apply.inj heq
  obtain rfl := AssocOp.insert.inj hop
  rw [hw] at hw'
  obtain ⟨rfl, rfl⟩ := Worker.located.inj hw'
  exact ⟨rfl, by rw [hnone]; rfl⟩

lemma withinLimits_expand {s : AssocSystem} (h : s.table.hashpower < 31) : WithinLimits s .expand :=
  ⟨insertsAbsent_of_quiet (by simp) s, fun _ => h⟩

lemma meets_quiet {as : List AssocAction} (h : ∀ a ∈ as, (∀ w op, a ≠ .apply w op) ∧ a ≠ .expand)
    {σ : Type*} {step : σ → AssocAction → Option σ} (f : σ → AssocSystem) (p : σ) :
    Meets step (fun p => WithinLimits (f p)) p as := by
  apply meets_of_mem
  intro a ha p
  obtain ⟨happly, hexpand⟩ := h a ha
  exact ⟨insertsAbsent_of_quiet happly (f p), fun heq => absurd heq hexpand⟩

/-- A worker finds the item after its bucket is moved. -/
theorem moved_item_found : ∃ p place, Reach (trackedStep List.length 0) (fun p => WithinLimits p.1)
    (AssocSystem.init 1, fun _ => none) p ∧ p.1.workers 1 = .located cachedItem.key place ∧
    (AssocOp.find.apply p.1.table place cachedItem.key).2 = some cachedItem := by
  have hreach := @Reach.init _ _ (trackedStep List.length 0) (fun p => WithinLimits p.1)
    (AssocSystem.init 1, fun _ => none)
  have hlocated := hreach.of_run (rfl : run _ _ insertRun = some _)
    (meets_quiet (by simp [insertRun]) Prod.fst _)
  have hinserted := hlocated.step (withinLimits_cachedItem rfl rfl) rfl
  have hunlocked := hinserted.of_run (rfl : run _ _ [.unlock 0] = some _) (meets_quiet (by simp) Prod.fst _)
  have hexpanded := hunlocked.step (withinLimits_expand (by decide : 1 < 31)) rfl
  have hmoved := hexpanded.of_run (rfl : run _ _ moveRun = some _)
    (meets_quiet (by simp [moveRun]) Prod.fst _)
  refine ⟨_, _, hmoved, rfl, ?_⟩
  exact (lookups_linearize (by decide : 0 < 1) (by decide) hmoved).1 1 _ _ rfl

def otherBucketRun : List AssocAction := [.tryLock, .lock 1 [0], .locate 1]

/-- A worker is in another bucket while the bucket of the item is moved. -/
theorem moved_bucket_left_alone :
    ∃ s, Reach (AssocSystem.step List.length 1) WithinLimits (AssocSystem.init 2) s ∧
    s.mover = .moving [cachedItem] ∧ s.workers 1 = .located [0] (.old 1) ∧
    Place.old 1 ≠ .old s.table.expandBucket := by
  have hreach := @Reach.init _ _ (AssocSystem.step List.length 1) WithinLimits (AssocSystem.init 2)
  have hlocated := hreach.of_run (rfl : run _ _ insertRun = some _) (meets_quiet (by simp [insertRun]) id _)
  have hinserted := hlocated.step (withinLimits_cachedItem rfl rfl) rfl
  have hunlocked := hinserted.of_run (rfl : run _ _ [.unlock 0] = some _) (meets_quiet (by simp) id _)
  have hexpanded := hunlocked.step (withinLimits_expand (by decide : 2 < 31)) rfl
  have hmoving := hexpanded.of_run (rfl : run _ _ otherBucketRun = some _)
    (meets_quiet (by simp [otherBucketRun]) id _)
  refine ⟨_, hmoving, rfl, rfl, ?_⟩
  exact ((buckets_exclusive (by decide : 1 < 2) (by decide) hmoving).2 _ 1 _ _ rfl rfl).1

/-- The expansion that is under way after the item is inserted. -/
theorem moved_item_kept : ∃ s, Reach (AssocSystem.step List.length 0) WithinLimits (AssocSystem.init 1) s ∧
    s.table.expanding = true ∧ ∃ as s', (∀ a ∈ as, MoverAction a) ∧
      run (AssocSystem.step List.length 0) s as = some s' ∧ s'.table.expanding = false ∧
      lookup Item.key cachedItem.key
      (s'.table.primaryHashtable (cachedItem.key.length &&& hashmask s'.table.hashpower)) =
        some cachedItem := by
  have hreach := @Reach.init _ _ (AssocSystem.step List.length 0) WithinLimits (AssocSystem.init 1)
  have hlocated := hreach.of_run (rfl : run _ _ insertRun = some _) (meets_quiet (by simp [insertRun]) id _)
  have hinserted := hlocated.step (withinLimits_cachedItem rfl rfl) rfl
  have hunlocked := hinserted.of_run (rfl : run _ _ [.unlock 0] = some _) (meets_quiet (by simp) id _)
  have hexpanded := hunlocked.step (withinLimits_expand (by decide : 1 < 31)) rfl
  obtain ⟨as, s', has, hrun, hdone, -, hkeys⟩ :=
    expansion_completes (by decide : 0 < 1) (by decide) hexpanded rfl (by
    intro lock
    simp [AssocSystem.setLock, AssocSystem.setWorker, AssocSystem.init])
  exact ⟨_, hexpanded, rfl, as, s', has, hrun, hdone, hkeys cachedItem.key⟩

end BmcCache.Proofs
