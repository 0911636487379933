import BmcCache.Lib.Versions
import BmcCache.Proofs.Commands

/-!
# The numbers of `cas`

`do_item_link` gives every item the next number of a counter. In a run of any packets, a `cas` with the
number that a client has read stores its item exactly when nothing has happened to the key since.
-/

namespace BmcCache.Proofs

open Versions

/-- What memcached holds when it comes to the command of a packet. -/
def handled (w : World) (p : Packet) : Server := { w.server with store := w.server.store.forget p.lost }

/-- The items with their numbers, as `gets` shows them. -/
def serverCells : Cells Server (List Byte) Item where
  cell := fun s k => (s.store.find k).map fun it => (s.itemCas k, it)
  clock := Server.casId

section Commands

variable {mem : ItemAlloc} {s : Server}

/-- An item of the key is linked, the key is unlinked, or nothing is done. -/
inductive ServerStep (s : Server) (key : List Byte) : Server → Prop
  | same : ServerStep s key s
  | link (it : Item) (hkey : it.key = key) : ServerStep s key (s.link it)
  | unlink : ServerStep s key (s.unlink key)

lemma storeJoined_step (old : Item) (value : List Byte) :
    ServerStep s old.key (storeJoined mem s old value).1 := by
  unfold storeJoined
  split
  · exact ServerStep.same
  · next it halloc => exact ServerStep.link it (mem.sound halloc).1

lemma doStoreItem_step (it : Item) (comm : StorageVerb) (reqCas : ℕ) :
    ServerStep s it.key (doStoreItem mem s it comm reqCas).1 := by
  have hlink := ServerStep.link (s := s) it rfl
  unfold doStoreItem
  split
  case h_6 =>
    split_ifs
    · exact hlink
    · exact ServerStep.same
  case h_7 old hold => exact s.store.key_of_find hold ▸ storeJoined_step _ _
  case h_8 old hold => exact s.store.key_of_find hold ▸ storeJoined_step _ _
  all_goals first | exact ServerStep.same | exact hlink

lemma processUpdateCommand_step (comm : StorageVerb) (key : List Byte) (flags : ℕ) (data : List Byte)
    (reqCas : ℕ) :
    ServerStep s key (processUpdateCommand mem s comm key flags data reqCas).1 := by
  unfold processUpdateCommand
  split
  · dsimp only
    split_ifs
    · exact ServerStep.unlink
    · exact ServerStep.same
  · next it halloc => exact (mem.sound halloc).1 ▸ doStoreItem_step it comm reqCas

lemma doAddDelta_step (key : List Byte) (incr : Bool) (delta : ℕ) :
    ServerStep s key (doAddDelta mem s key incr delta).1 := by
  unfold doAddDelta
  split
  · exact ServerStep.same
  · next it hfind =>
    have hkey : it.key = key := s.store.key_of_find hfind
    split
    · exact ServerStep.same
    · cases safeStrtoull (it.value ++ crlf ++ mem.behind key) with
      | none => exact ServerStep.same
      | some value =>
        dsimp only
        generalize (if incr then (value + delta) % 2 ^ 64 else value - delta) = n
        split
        · exact ServerStep.link _ hkey
        · cases halloc : mem.alloc key it.flags (itoaU64 n) with
          | error e => exact ServerStep.same
          | ok it => exact ServerStep.link it (mem.sound halloc).1

/-- A command other than `get` has one key, and changes no other. -/
lemma processCommand_step (cmd : ServerCommand) :
    (processCommand mem s cmd).1 = s ∨ ∃ key, cmd.keys = [key] ∧
    ServerStep s key (processCommand mem s cmd).1 := by
  cases cmd with
  | get keys => exact Or.inl rfl
  | update comm key flags exptime casUnique noreply data =>
    exact Or.inr ⟨key, rfl, processUpdateCommand_step _ _ _ _ _⟩
  | arithmetic incr key delta noreply => exact Or.inr ⟨key, rfl, doAddDelta_step _ _ _⟩
  | delete key noreply =>
    right
    refine ⟨key, rfl, ?_⟩
    simp only [processCommand, processDeleteCommand]
    split
    · exact ServerStep.unlink
    · exact ServerStep.same

end Commands

/-! ### Runs -/

section Run

variable {s s' : Server}

/-- Items that are lost or unlinked leave empty cells. -/
lemma changes_forget (s : Server) (lost : List Byte → Bool) :
    Changes serverCells s { s with store := s.store.forget lost } := by
  refine ⟨Nat.le_refl _, fun k => ?_⟩
  by_cases hk : lost k = true
  · right; left
    simp [serverCells, Store.forget, hk]
  · left
    simp [serverCells, Store.forget, hk]

lemma changes_link (it : Item) (hroom : s.casId + 1 < 2 ^ 64) : Changes serverCells s (s.link it) := by
  have hnext : (s.casId + 1) % 2 ^ 64 = s.casId + 1 := Nat.mod_eq_of_lt hroom
  refine ⟨?_, fun k => ?_⟩
  · simp only [serverCells, Server.link, hnext]
    exact Nat.le_succ _
  · simp only [serverCells, Server.link, hnext, Store.set]
    by_cases hk : k = it.key
    · right; right
      subst hk
      exact ⟨s.casId + 1, it, by simp, Nat.lt_succ_self _, Nat.le_refl _⟩
    · left
      simp [hk]

lemma changes_step {key : List Byte} (h : ServerStep s key s') (hroom : s.casId + 1 < 2 ^ 64) :
    Changes serverCells s s' := by
  cases h with
  | same => exact Changes.refl s
  | link it _ => exact changes_link it hroom
  | unlink => exact changes_forget s (· == key)

lemma casId_step {key : List Byte} (h : ServerStep s key s') : s'.casId ≤ s.casId + 1 := by
  cases h with
  | same => exact Nat.le_succ _
  | link it _ => exact Nat.mod_le _ _
  | unlink => exact Nat.le_succ _

/-- Memcached handles the command of a packet that is handed over intact, and sees no other. -/
lemma server_of_step (w : World) (p : Packet) :
    (w.step p).server =
      if (w.receive p).1 = .pass ∧ (w.receive p).2.ctx.pkt = p.frame ∧ p.accepted = true then
        (processCommand p.mem (handled w p) p.command).1
      else handled w p := by
  unfold World.step
  dsimp only
  split_ifs with hpass
  · rw [World.handle, server_transmit]
    rfl
  · rfl

lemma server_step_cases (w : World) (p : Packet) :
    (w.step p).server = handled w p ∨
      ∃ key, p.command.keys = [key] ∧ ServerStep (handled w p) key (w.step p).server := by
  rw [server_of_step]
  split_ifs
  · exact processCommand_step p.command
  · exact Or.inl rfl

/-- What memcached holds after the first `n` packets. -/
def serverAt (ps : List Packet) (n : ℕ) : Server := (World.booted.run (ps.take n)).server

lemma serverAt_succ {ps : List Packet} {n : ℕ} (hn : n < ps.length) :
    serverAt ps (n + 1) = handled (World.booted.run (ps.take n)) ps[n] ∨
      ∃ key, ServerStep (handled (World.booted.run (ps.take n)) ps[n]) key (serverAt ps (n + 1)) := by
  rw [serverAt, List.take_succ_eq_append_getElem hn, run_concat]
  exact (server_step_cases _ _).imp_right fun ⟨key, _, hstep⟩ => ⟨key, hstep⟩

lemma serverAt_end {ps : List Packet} {n : ℕ} (hn : ps.length ≤ n) :
    serverAt ps n = (World.booted.run ps).server := by
  rw [serverAt, List.take_of_length_le hn]

/-- A packet moves the counter on by one at most. -/
lemma casId_le (ps : List Packet) (n : ℕ) : (serverAt ps n).casId ≤ n := by
  induction n with
  | zero => exact Nat.le_refl 0
  | succ n ih =>
    rcases Nat.lt_or_ge n ps.length with hn | hn
    · have hhandled : (handled (World.booted.run (ps.take n)) ps[n]).casId = (serverAt ps n).casId := rfl
      rcases serverAt_succ hn with hsame | ⟨key, hstep⟩
      · rw [hsame, hhandled]
        exact Nat.le_succ_of_le ih
      · have hle := casId_step hstep
        rw [hhandled] at hle
        exact hle.trans (Nat.succ_le_succ ih)
    · rw [serverAt_end (Nat.le_succ_of_le hn), ← serverAt_end hn]
      exact Nat.le_succ_of_le ih

lemma changes_run {ps : List Packet} (hfew : ps.length < 2 ^ 64) (n : ℕ) :
    Changes serverCells (serverAt ps n) (serverAt ps (n + 1)) := by
  rcases Nat.lt_or_ge n ps.length with hn | hn
  · have hlost : Changes serverCells (serverAt ps n) (handled (World.booted.run (ps.take n)) ps[n]) :=
      changes_forget (serverAt ps n) ps[n].lost
    rcases serverAt_succ hn with hsame | ⟨key, hstep⟩
    · rw [hsame]
      exact hlost
    · have hid : (handled (World.booted.run (ps.take n)) ps[n]).casId ≤ n := casId_le ps n
      exact hlost.trans (changes_step hstep (by omega))
  · rw [serverAt_end hn, serverAt_end (Nat.le_succ_of_le hn)]
    exact Changes.refl _

lemma given_booted (ps : List Packet) : Given serverCells (serverAt ps 0) := by
  intro k n it hcell
  simp [serverCells, serverAt, World.run, World.booted, Store.empty] at hcell

end Run

section Cas

variable {k data exptime : List Byte} {flags : ℕ} {noreply : Bool}

lemma text_stored_iff (r : StoreItemType) : r.text = StoreItemType.stored.text ↔ r = .stored := by
  constructor
  · intro h
    cases r with
    | stored => rfl
    | _ => exact absurd h (by decide)
  · exact fun h => congrArg StoreItemType.text h

lemma doStoreItem_cas (mem : ItemAlloc) (s : Server) (it : Item) (reqCas : ℕ) :
    (doStoreItem mem s it .cas reqCas).2 = .stored ↔ (s.store.find it.key).isSome ∧
    s.itemCas it.key = reqCas := by
  unfold doStoreItem
  cases s.store.find it.key with
  | none => simp
  | some old =>
    by_cases hcas : reqCas = s.itemCas it.key
    · simp [hcas]
    · have hcas' : s.itemCas it.key ≠ reqCas := fun h => hcas h.symm
      simp [hcas, hcas']

/-- A `cas` is answered with `STORED` when there is room for its item and its number is that of the key. -/
lemma cas_answer_iff (mem : ItemAlloc) (s : Server) (casUnique : ℕ) :
    (processUpdateCommand mem s .cas k flags data casUnique).2 = StoreItemType.stored.text ↔
      (∃ it, mem.alloc k flags data = .ok it) ∧ (s.store.find k).isSome ∧ s.itemCas k = casUnique := by
  unfold processUpdateCommand
  cases halloc : mem.alloc k flags data with
  | error e =>
    have hno : ¬∃ it : Item, Except.error e = Except.ok it := nofun
    refine iff_of_false ?_ fun h => hno h.1
    dsimp only
    cases e <;> decide
  | ok it =>
    obtain ⟨hkey, -, -⟩ := mem.sound halloc
    have hroom : ∃ it' : Item, (Except.ok it : Except AllocError Item) = .ok it' := ⟨it, rfl⟩
    dsimp only
    rw [text_stored_iff, doStoreItem_cas, hkey]
    exact (and_iff_right hroom).symm

/-- A `cas` with the number that a key had after `n` packets stores its item exactly when the key has had
the same item, with that number, ever since. -/
theorem cas_stored_iff {ps : List Packet} (hfew : ps.length < 2 ^ 64) {n : ℕ} {it : Item}
    (hread : (serverAt ps n).store.find k = some it) {p : Packet}
    (hp : p.command = .update .cas k flags exptime ((serverAt ps n).itemCas k) noreply data) :
    (processCommand p.mem (handled (World.booted.run ps) p) p.command).2 = .line StoreItemType.stored.text ↔
      (∃ new, p.mem.alloc k (flags % 2 ^ 32) data = .ok new) ∧ p.lost k = false ∧
        ∀ m, n ≤ m → (serverAt ps m).store.find k = some it ∧
        (serverAt ps m).itemCas k = (serverAt ps n).itemCas k := by
  have hcell : serverCells.cell (serverAt ps n) k = some ((serverAt ps n).itemCas k, it) := by
    simp [serverCells, hread]
  have hcommand : (processCommand p.mem (handled (World.booted.run ps) p) p.command).2 =
      .line (processUpdateCommand p.mem (handled (World.booted.run ps) p) .cas k (flags % 2 ^ 32) data
        ((serverAt ps n).itemCas k)).2 := by
    rw [hp]
    rfl
  have hfind : (handled (World.booted.run ps) p).store.find k =
      if p.lost k then none else (World.booted.run ps).server.store.find k := rfl
  have hnumber : (handled (World.booted.run ps) p).itemCas k = (World.booted.run ps).server.itemCas k := rfl
  rw [hcommand, Reply.line.injEq, cas_answer_iff, hfind, hnumber]
  refine and_congr_right fun _ => ?_
  constructor
  · rintro ⟨hsome, hcas⟩
    split_ifs at hsome with hlost
    · exact absurd hsome (by simp)
    obtain ⟨it', hit'⟩ := Option.isSome_iff_exists.mp hsome
    refine ⟨by simpa using hlost, fun m hm => ?_⟩
    have hend : serverCells.cell (serverAt ps (max m ps.length)) k =
        some ((serverAt ps n).itemCas k, it') := by
      rw [serverAt_end (Nat.le_max_right _ _)]
      simp [serverCells, hit', hcas]
    have hkept := unchanged_between (changes_run hfew) (given_booted ps) hcell hend hm (Nat.le_max_left _ _)
    obtain ⟨old, hold, heq⟩ := Option.map_eq_some_iff.mp hkept
    rw [Prod.mk.injEq] at heq
    exact ⟨heq.2 ▸ hold, heq.1⟩
  · rintro ⟨hlost, hkept⟩
    obtain ⟨hitem, hcas⟩ := hkept (max n ps.length) (Nat.le_max_left _ _)
    rw [serverAt_end (Nat.le_max_right _ _)] at hitem hcas
    rw [hlost, if_neg Bool.false_ne_true, hitem]
    exact ⟨rfl, hcas⟩

/-- A value is stored, and before the `cas` another key gets a value and the key is asked for. -/
def casRun : List Packet :=
  [samplePacket .tcp (sampleStore .set '5'),
    samplePacket .tcp (.update .set otherItem.key 0 (ascii ['0']) 0 false (ascii ['7'])), sampleGet]

/-- A client reads the number of the value and replaces it; nothing has happened to the key in between. -/
theorem sampleCas_stored :
    (processCommand plainAlloc (handled (World.booted.run casRun) (samplePacket .tcp (sampleStore .cas '6')))
        (sampleStore .cas '6')).2 = .line StoreItemType.stored.text ∧
      ∃ it, ∀ m, 1 ≤ m → (serverAt casRun m).store.find cachedItem.key = some it ∧
        (serverAt casRun m).itemCas cachedItem.key = (serverAt casRun 1).itemCas cachedItem.key := by
  have hrun : ((serverAt casRun 1).store.find cachedItem.key).isSome ∧
      (serverAt casRun 1).itemCas cachedItem.key = 1 ∧
      (processUpdateCommand plainAlloc
        (handled (World.booted.run casRun) (samplePacket .tcp (sampleStore .cas '6')))
        .cas cachedItem.key 0 (ascii ['6']) 1).2 = StoreItemType.stored.text := by decide +kernel
  obtain ⟨hfind, hnumber, htext⟩ := hrun
  obtain ⟨it, hit⟩ := Option.isSome_iff_exists.mp hfind
  have hcommand : sampleStore .cas '6' = .update .cas cachedItem.key 0 (ascii ['0'])
      ((serverAt casRun 1).itemCas cachedItem.key) false (ascii ['6']) := by
    rw [hnumber]
    rfl
  have hfew : casRun.length < 2 ^ 64 := by decide
  have hstored := congrArg Reply.line htext
  have hiff := @cas_stored_iff _ _ _ _ _ _ hfew 1 it hit (samplePacket .tcp (sampleStore .cas '6')) hcommand
  exact ⟨hstored, it, (hiff.mp hstored).2.2⟩

end Cas

end BmcCache.Proofs
