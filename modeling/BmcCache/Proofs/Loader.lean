import BmcCache.Lib.Transition
import BmcCache.Model.Loader

/-!
# What the loader leaves in the kernel

While the loader runs, the filter is attached only when all programs that it can come to are in their places.
It stays attached when the loader ends in another way than by a signal that it waits for.
-/

namespace BmcCache.Proofs

open Transition BmcCache.User

variable {o : Options} {s s' : Loader}

/-! ### The arrays -/

def isXdp : BpfProg → Bool
  | .xdp _ => true
  | _ => false

/-- What the array for a program holds under an index. -/
def heldAt (s : Loader) (d : BpfProgsDesc) (idx : ℕ) : Option BpfProg :=
  if isXdp d.prog then s.progsXdp idx else s.progsTc idx

/-- No two programs have the same place. -/
lemma place_inj : ∀ d ∈ progs, ∀ e ∈ progs, d.mapProgIdx.isSome → d.mapProgIdx = e.mapProgIdx →
    isXdp d.prog = isXdp e.prog → d = e := by decide

lemma heldAt_updateElem_self (d : BpfProgsDesc) (idx : ℕ) :
    heldAt (s.updateElem d idx) d idx = some d.prog := by
  unfold heldAt Loader.updateElem
  cases hprog : d.prog <;> simp [isXdp]

lemma heldAt_updateElem {d e : BpfProgsDesc} (hd : d ∈ progs) (he : e ∈ progs) {idx idx' : ℕ}
    (hidx : d.mapProgIdx = some idx) (hidx' : e.mapProgIdx = some idx')
    (hheld : heldAt s d idx = some d.prog) :
    heldAt (s.updateElem e idx') d idx = some d.prog := by
  by_cases hde : d = e
  · subst hde
    obtain rfl := Option.some.inj (hidx.symm.trans hidx')
    exact heldAt_updateElem_self d idx
  · have hapart : isXdp d.prog = isXdp e.prog → idx ≠ idx' := by
      rintro hsame rfl
      exact hde (place_inj d hd e he (hidx ▸ rfl) (hidx.trans hidx'.symm) hsame)
    rw [← hheld]
    unfold heldAt Loader.updateElem
    cases hd' : d.prog <;> cases he' : e.prog <;> simp_all [isXdp]

/-- The first `n` programs are in their arrays. -/
def FilledUpTo (s : Loader) (n : ℕ) : Prop :=
  ∀ i < n, ∀ d idx, progs[i]? = some d → d.mapProgIdx = some idx → heldAt s d idx = some d.prog

/-- How many of the programs are in their arrays. -/
def filledBy : Phase → ℕ
  | .load => 0
  | .progFd i => i
  | .update i => i
  | .pin i => i + 1
  | .unpin i => i + 1
  | .exited _ | .killed => 0
  | _ => progs.length

/-- The phases in which nothing has been attached. -/
def loading : Phase → Bool
  | .load | .progFd _ | .update _ | .pin _ | .unpin _ => true
  | _ => false

lemma filledUpTo_congr {n : ℕ} (h : FilledUpTo s n) (hxdp : s'.progsXdp = s.progsXdp)
    (htc : s'.progsTc = s.progsTc) :
    FilledUpTo s' n := by
  intro i hi d idx hd hidx
  unfold heldAt
  rw [hxdp, htc]
  exact h i hi d idx hd hidx

/-- A program without a place does not need one. -/
lemma filledUpTo_succ {i : ℕ} {d : BpfProgsDesc} (h : FilledUpTo s i) (hd : progs[i]? = some d)
    (hidx : d.mapProgIdx = none) :
    FilledUpTo s (i + 1) := by
  intro j hj d' idx hd' hidx'
  rcases Nat.lt_succ_iff_lt_or_eq.mp hj with hj | rfl
  · exact h j hj d' idx hd' hidx'
  · obtain rfl := Option.some.inj (hd.symm.trans hd')
    rw [hidx] at hidx'
    exact absurd hidx' nofun

lemma filledUpTo_updateElem {i idx : ℕ} {d : BpfProgsDesc} (h : FilledUpTo s i) (hd : progs[i]? = some d)
    (hidx : d.mapProgIdx = some idx) : FilledUpTo (s.updateElem d idx) (i + 1) := by
  have hmem : d ∈ progs := List.mem_of_getElem? hd
  intro j hj d' idx' hd' hidx'
  rcases Nat.lt_succ_iff_lt_or_eq.mp hj with hj | rfl
  · exact heldAt_updateElem (List.mem_of_getElem? hd') hmem hidx' hidx (h j hj d' idx' hd' hidx')
  · obtain rfl := Option.some.inj (hd.symm.trans hd')
    obtain rfl := Option.some.inj (hidx.symm.trans hidx')
    exact heldAt_updateElem_self d idx

lemma filledBy_nextProg {i : ℕ} (hi : i < progs.length) : filledBy (Loader.nextProg i) = i + 1 := by
  unfold Loader.nextProg
  split_ifs with h
  · rfl
  · exact Nat.le_antisymm (Nat.not_lt.mp h) hi

lemma filledBy_afterUpdate {i : ℕ} (hi : i < progs.length) (d : BpfProgsDesc) :
    filledBy (Loader.afterUpdate i d) = i + 1 := by
  unfold Loader.afterUpdate
  split_ifs
  · rfl
  · exact filledBy_nextProg hi

lemma loading_nextInterface (i : ℕ) : loading (Loader.nextInterface o i) = false ∧
    filledBy (Loader.nextInterface o i) = progs.length := by
  unfold Loader.nextInterface
  split_ifs
  · exact ⟨rfl, rfl⟩
  · exact ⟨rfl, rfl⟩

lemma loading_nextDetach (ret : ℤ) (i : ℕ) : loading (Loader.nextDetach o ret i) = false ∧
    filledBy (Loader.nextDetach o ret i) ≤ progs.length := by
  unfold Loader.nextDetach
  split_ifs
  · exact ⟨rfl, Nat.le_refl _⟩
  · exact ⟨rfl, Nat.zero_le _⟩

lemma FilledUpTo.mono {m n : ℕ} (h : FilledUpTo s n) (hmn : m ≤ n) : FilledUpTo s m :=
  fun i hi => h i (Nat.lt_of_lt_of_le hi hmn)

/-! ### Attached only when ready -/

structure Ready (o : Options) (s : Loader) : Prop where
  filled : FilledUpTo s (filledBy s.phase)
  attached : ∀ ifindex, s.attached ifindex = true →
    ifindex ∈ o.interfaces ∧ FilledUpTo s progs.length ∧ loading s.phase = false

/-- A step that leaves the arrays as they are and attaches nothing. -/
lemma ready_move (h : Ready o s) (hxdp : s'.progsXdp = s.progsXdp) (htc : s'.progsTc = s.progsTc)
    (hattached : ∀ ifindex, s'.attached ifindex = true → s.attached ifindex = true)
    (hfilled : FilledUpTo s (filledBy s'.phase)) (hloading : loading s.phase = false →
      loading s'.phase = false) :
    Ready o s' := by
  refine ⟨filledUpTo_congr hfilled hxdp htc, fun ifindex hif => ?_⟩
  obtain ⟨hmem, hall, hlate⟩ := h.attached ifindex (hattached ifindex hif)
  exact ⟨hmem, filledUpTo_congr hall hxdp htc, hloading hlate⟩

lemma ready_ok (h : Ready o s) (hstep : s.call o .ok = some s') : Ready o s' := by
  have hfilled := h.filled
  cases hphase : s.phase with
  | load =>
    simp only [Loader.call, hphase, Option.some.injEq] at hstep
    subst hstep
    exact ready_move h rfl rfl (fun _ => id) (fun i hi => absurd hi (Nat.not_lt_zero i))
      (by simp [loading, hphase])
  | progFd i =>
    simp only [Loader.call, hphase, Option.map_eq_some_iff] at hstep
    obtain ⟨d, hd, rfl⟩ := hstep
    have hi : i < progs.length := (List.getElem?_eq_some_iff.mp hd).1
    rw [hphase] at hfilled
    refine ready_move h rfl rfl (fun _ => id) ?_ (by simp [loading, hphase])
    cases hidx : d.mapProgIdx with
    | some idx => exact hfilled
    | none =>
      have hnext : filledBy (Loader.afterUpdate i d) = i + 1 := filledBy_afterUpdate hi d
      simp only [Option.isSome_none, Bool.false_eq_true, if_false]
      rw [hnext]
      exact filledUpTo_succ hfilled hd hidx
  | update i =>
    simp only [Loader.call, hphase, Option.bind_eq_some_iff, Option.map_eq_some_iff] at hstep
    obtain ⟨d, hd, idx, hidx, rfl⟩ := hstep
    have hi : i < progs.length := (List.getElem?_eq_some_iff.mp hd).1
    have hnext : filledBy (Loader.afterUpdate i d) = i + 1 := filledBy_afterUpdate hi d
    rw [hphase] at hfilled
    have hupdated := filledUpTo_updateElem hfilled hd hidx
    refine ⟨?_, fun ifindex hif => ?_⟩
    · dsimp only
      rw [hnext]
      exact filledUpTo_congr hupdated rfl rfl
    · have hattached : s.attached ifindex = true := by
        rw [← hif]
        unfold Loader.updateElem
        split <;> rfl
      have hlate := (h.attached ifindex hattached).2.2
      rw [hphase] at hlate
      exact absurd hlate (by simp [loading])
  | pin i =>
    simp only [Loader.call, hphase, Option.map_eq_some_iff] at hstep
    obtain ⟨d, hd, rfl⟩ := hstep
    have hi : i < progs.length := (List.getElem?_eq_some_iff.mp hd).1
    rw [hphase] at hfilled
    refine ready_move h rfl rfl (fun _ => id) ?_ (by simp [loading, hphase])
    dsimp only
    rw [filledBy_nextProg hi]
    exact hfilled
  | unpin i =>
    simp only [Loader.call, hphase, Option.map_eq_some_iff] at hstep
    obtain ⟨d, hd, rfl⟩ := hstep
    rw [hphase] at hfilled
    exact ready_move h rfl rfl (fun _ => id) hfilled (by simp [loading, hphase])
  | mainFd =>
    simp only [Loader.call, hphase, Option.some.injEq] at hstep
    subst hstep
    obtain ⟨hlate, hall⟩ := @loading_nextInterface o 0
    rw [hphase] at hfilled
    refine ready_move h rfl rfl (fun _ => id) ?_ fun _ => hlate
    dsimp only
    rw [hall]
    exact hfilled
  | attach i =>
    simp only [Loader.call, hphase, Option.map_eq_some_iff] at hstep
    obtain ⟨ifindex, hif, rfl⟩ := hstep
    obtain ⟨hlate, hall⟩ := @loading_nextInterface o (i + 1)
    rw [hphase] at hfilled
    have hready : FilledUpTo s progs.length := hfilled
    refine ⟨?_, fun ifindex' hattached => ?_⟩
    · dsimp only
      rw [hall]
      exact filledUpTo_congr hready rfl rfl
    · refine ⟨?_, filledUpTo_congr hready rfl rfl, hlate⟩
      by_cases hsame : ifindex' = ifindex
      · rw [hsame]
        exact List.mem_of_getElem? hif
      · simp only [Function.update_of_ne hsame] at hattached
        exact (h.attached ifindex' hattached).1
  | sigprocmask =>
    simp only [Loader.call, hphase, Option.some.injEq] at hstep
    subst hstep
    rw [hphase] at hfilled
    refine ready_move h rfl rfl (fun _ => id) ?_ fun _ => ?_
    · dsimp only
      split_ifs <;> exact hfilled
    · dsimp only
      split_ifs <;> rfl
  | openInterval =>
    simp only [Loader.call, hphase, Option.some.injEq] at hstep
    subst hstep
    rw [hphase] at hfilled
    exact ready_move h rfl rfl (fun _ => id) hfilled fun _ => rfl
  | wait => simp [Loader.call, hphase] at hstep
  | detach i =>
    simp only [Loader.call, hphase, Option.map_eq_some_iff] at hstep
    obtain ⟨ifindex, hif, rfl⟩ := hstep
    obtain ⟨hlate, hle⟩ := @loading_nextDetach o s.ret (i + 1)
    rw [hphase] at hfilled
    have hready : FilledUpTo s progs.length := hfilled
    refine ready_move h rfl rfl (fun ifindex' hattached => ?_) (hready.mono hle) fun _ => hlate
    dsimp only at hattached
    by_cases hsame : ifindex' = ifindex
    · rw [hsame, Function.update_self] at hattached
      exact absurd hattached Bool.false_ne_true
    · rwa [Function.update_of_ne hsame] at hattached
  | exited code => simp [Loader.call, hphase] at hstep
  | killed => simp [Loader.call, hphase] at hstep

/-! ### The end of the process -/

lemma running_of_call {a : Call} (h : s.call o a = some s') : s.phase.running = true := by
  cases hphase : s.phase with
  | exited code => cases a <;> simp [Loader.call, hphase, Phase.running] at h
  | killed => cases a <;> simp [Loader.call, hphase, Phase.running] at h
  | _ => rfl

@[simp] lemma phase_closed (s : Loader) : s.closed.phase = s.phase := by
  unfold Loader.closed
  split_ifs <;> rfl

@[simp] lemma attached_closed (s : Loader) : s.closed.attached = s.attached := by
  unfold Loader.closed
  split_ifs <;> rfl

lemma closed_of_running (h : s.phase.running = true) : s.closed = s := if_pos h

/-- Only the arrays change with the end of the process. -/
lemma call_of_step {a : Call} (h : s.step o a = some s') :
    ∃ t, s.call o a = some t ∧ s' = t.closed ∧ s'.phase = t.phase ∧ s'.attached = t.attached := by
  obtain ⟨t, ht, rfl⟩ := Option.map_eq_some_iff.mp h
  exact ⟨t, ht, rfl, phase_closed t, attached_closed t⟩

/-- A call that fails ends the program, or is ignored. -/
lemma fail_cases (hstep : s.call o .fail = some s') :
    (∃ code, s' = { s with phase := .exited code }) ∨
      ∃ i, s.phase = .detach i ∧ s' = { s with phase := Loader.nextDetach o s.ret (i + 1) } := by
  cases hphase : s.phase <;> simp only [Loader.call, hphase, Option.some.injEq, reduceCtorEq] at hstep
  case detach i => exact Or.inr ⟨i, rfl, hstep.symm⟩
  all_goals exact Or.inl ⟨_, hstep.symm⟩

/-- A signal leads to the end of the loop, or the loop goes on. -/
lemma signal_cases {sig : Signal} {written : Bool} (hstep : s.call o (.signal sig written) = some s') :
    s.phase = .wait ∧ s'.progsXdp = s.progsXdp ∧ s'.progsTc = s.progsTc ∧ s'.attached = s.attached ∧
      (s'.phase = .wait ∨ ∃ ret, s'.phase = Loader.nextDetach o ret 0) := by
  cases hphase : s.phase <;> simp only [Loader.call, hphase, Option.ite_none_left_eq_some, Option.some.injEq,
    reduceCtorEq] at hstep
  obtain ⟨-, rfl⟩ := hstep
  cases sig with
  | int => exact ⟨rfl, rfl, rfl, rfl, Or.inr ⟨_, rfl⟩⟩
  | term => exact ⟨rfl, rfl, rfl, rfl, Or.inr ⟨_, rfl⟩⟩
  | alrm =>
    simp only [Loader.handle]
    split_ifs
    · exact ⟨trivial, rfl, rfl, rfl, Or.inl hphase⟩
    all_goals exact ⟨trivial, rfl, rfl, rfl, Or.inr ⟨_, rfl⟩⟩
  | usr1 =>
    cases written with
    | true => exact ⟨rfl, rfl, rfl, rfl, Or.inl hphase⟩
    | false => exact ⟨rfl, rfl, rfl, rfl, Or.inr ⟨_, rfl⟩⟩

lemma ready_call {a : Call} (h : Ready o s) (hstep : s.call o a = some s') (hrun : s'.phase.running = true) :
    Ready o s' := by
  have hfilled := h.filled
  cases a with
  | ok => exact ready_ok h hstep
  | fail =>
    rcases fail_cases hstep with ⟨code, rfl⟩ | ⟨i, hphase, rfl⟩
    · exact ready_move h rfl rfl (fun _ => id) (fun i hi => absurd hi (Nat.not_lt_zero i)) fun _ => rfl
    · obtain ⟨hlate, hle⟩ := @loading_nextDetach o s.ret (i + 1)
      rw [hphase] at hfilled
      exact ready_move h rfl rfl (fun _ => id) (FilledUpTo.mono hfilled hle) fun _ => hlate
  | eexist =>
    cases hphase : s.phase <;> simp only [Loader.call, hphase, Option.some.injEq, reduceCtorEq] at hstep
    subst hstep
    rw [hphase] at hfilled
    exact ready_move h rfl rfl (fun _ => id) hfilled (by simp [loading, hphase])
  | signal sig written =>
    obtain ⟨hphase, hxdp, htc, hattached, hnext⟩ := signal_cases hstep
    rw [hphase] at hfilled
    refine ready_move h hxdp htc (fun ifindex => by rw [hattached]; exact id) ?_ fun _ => ?_
    · rcases hnext with hwait | ⟨ret, hdetach⟩
      · rw [hwait]
        exact hfilled
      · rw [hdetach]
        exact FilledUpTo.mono hfilled (loading_nextDetach ret 0).2
    · rcases hnext with hwait | ⟨ret, hdetach⟩
      · rw [hwait]
        rfl
      · rw [hdetach]
        exact (loading_nextDetach ret 0).1
  | killed =>
    simp only [Loader.call, Option.ite_none_right_eq_some, Option.some.injEq] at hstep
    obtain ⟨-, rfl⟩ := hstep
    exact absurd hrun Bool.false_ne_true

/-- Whatever calls fail and whatever signals arrive: while the loader runs and the filter is attached to an
interface, that is one of the command line, and every tail call of the programs finds its program. -/
theorem attached_ready {pinned : BpfProg → Bool}
    (h : Reach (Loader.step o) (fun _ _ => True) (Loader.init pinned) s) (hrun : s.phase.running = true)
    {ifindex : ℕ} (hattached : s.attached ifindex = true) :
    ifindex ∈ o.interfaces ∧ (∀ prog idx, prog.tailCallIdx = some idx → s.progsXdp idx = some (.xdp prog)) ∧
      s.progsTc bmcProgTcUpdateCache = some .updateCache := by
  have hready : s.phase.running = true → Ready o s := by
    apply Reach.invariant (fun s : Loader => s.phase.running = true → Ready o s) h
    · exact fun _ => ⟨fun i hi => absurd hi (Nat.not_lt_zero i), fun _ hif => absurd hif Bool.false_ne_true⟩
    · intro t a t' ht _ hstep hrun'
      obtain ⟨u, hu, rfl, hphase, -⟩ := call_of_step hstep
      rw [hphase] at hrun'
      rw [closed_of_running hrun']
      exact ready_call (ht (running_of_call hu)) hu hrun'
  obtain ⟨hmem, hall, -⟩ := (hready hrun).attached ifindex hattached
  refine ⟨hmem, ?_, hall 6 (by decide) _ 0 rfl rfl⟩
  intro prog idx hidx
  cases prog with
  | rxFilter => exact absurd hidx nofun
  | hashKeys =>
    obtain rfl := Option.some.inj hidx
    exact hall 1 (by decide) _ 0 rfl rfl
  | preparePacket =>
    obtain rfl := Option.some.inj hidx
    exact hall 2 (by decide) _ 1 rfl rfl
  | writeReply =>
    obtain rfl := Option.some.inj hidx
    exact hall 3 (by decide) _ 2 rfl rfl
  | invalidateCache =>
    obtain rfl := Option.some.inj hidx
    exact hall 4 (by decide) _ 3 rfl rfl

def twoInterfaces : Options := ⟨0, [2, 3]⟩

/-- The filter is attached to the first interface. -/
lemma first_attached :
    ∃ s, run (Loader.step twoInterfaces) (Loader.init fun _ => false) (List.replicate 16 .ok) = some s ∧
    s.attached 2 = true ∧ s.phase = .attach 1 := ⟨_, rfl, rfl, rfl⟩

theorem first_attached_ready : ∃ s,
    run (Loader.step twoInterfaces) (Loader.init fun _ => false) (List.replicate 16 .ok) = some s ∧
    s.attached 2 = true ∧
      s.progsTc bmcProgTcUpdateCache = some .updateCache := by
  obtain ⟨s, hrun, hattached, hphase⟩ := first_attached
  have hreach := Reach.of_run Reach.init hrun (meets_of_forall (fun _ _ => trivial) _ _)
  exact ⟨s, hrun, hattached, (attached_ready hreach (hphase ▸ rfl) hattached).2.2⟩

/-! ### What stays attached -/

/-- The interfaces that the filter is attached to in a phase, when no call that detaches it fails. -/
def attachedIn (o : Options) : Phase → ℕ → Prop
  | .attach i, ifindex => ifindex ∈ o.interfaces.take i
  | .sigprocmask, ifindex => ifindex ∈ o.interfaces
  | .openInterval, ifindex => ifindex ∈ o.interfaces
  | .wait, ifindex => ifindex ∈ o.interfaces
  | .detach i, ifindex => ifindex ∈ o.interfaces ∧ ifindex ∉ o.interfaces.take i
  | _, _ => False

def DetachSucceeds (s : Loader) (a : Call) : Prop := a = .fail → ∀ i, s.phase ≠ .detach i

lemma attachedIn_nextInterface (i ifindex : ℕ) :
    attachedIn o (Loader.nextInterface o i) ifindex ↔ ifindex ∈ o.interfaces.take i := by
  unfold Loader.nextInterface
  split_ifs with hi
  · exact Iff.rfl
  · rw [List.take_of_length_le (Nat.not_lt.mp hi)]
    exact Iff.rfl

lemma attachedIn_nextDetach (ret : ℤ) (i ifindex : ℕ) : attachedIn o (Loader.nextDetach o ret i) ifindex ↔
    ifindex ∈ o.interfaces ∧ ifindex ∉ o.interfaces.take i := by
  unfold Loader.nextDetach
  split_ifs with hi
  · exact Iff.rfl
  · rw [List.take_of_length_le (Nat.not_lt.mp hi)]
    exact iff_of_false id fun h => h.2 h.1

lemma mem_take_succ {i ifindex ifindex' : ℕ} (hif : o.interfaces[i]? = some ifindex) :
    ifindex' ∈ o.interfaces.take (i + 1) ↔ ifindex' ∈ o.interfaces.take i ∨ ifindex' = ifindex := by
  rw [List.take_add_one, hif, Option.toList_some, List.mem_append, List.mem_singleton]

lemma attachedIn_nextProg (i ifindex : ℕ) : ¬attachedIn o (Loader.nextProg i) ifindex := by
  unfold Loader.nextProg
  split_ifs <;> exact id

lemma attachedIn_afterUpdate (i : ℕ) (d : BpfProgsDesc) (ifindex : ℕ) :
    ¬attachedIn o (Loader.afterUpdate i d) ifindex := by
  unfold Loader.afterUpdate
  split_ifs
  · exact id
  · exact attachedIn_nextProg i ifindex

/-- As long as no call fails, the filter is attached to the interfaces of the phase. -/
lemma attachedIn_ok (hs : ∀ ifindex, s.attached ifindex = true ↔ attachedIn o s.phase ifindex)
    (hstep : s.call o .ok = some s') (ifindex : ℕ) : s'.attached ifindex = true ↔
    attachedIn o s'.phase ifindex := by
  cases hphase : s.phase with
  | load =>
    simp only [Loader.call, hphase, Option.some.injEq] at hstep
    subst hstep
    rw [hphase] at hs
    exact hs ifindex
  | progFd i =>
    simp only [Loader.call, hphase, Option.map_eq_some_iff] at hstep
    obtain ⟨d, hd, rfl⟩ := hstep
    rw [hphase] at hs
    refine (hs ifindex).trans (iff_of_false id ?_)
    dsimp only
    split_ifs
    · exact id
    · exact attachedIn_afterUpdate i d ifindex
  | update i =>
    simp only [Loader.call, hphase, Option.bind_eq_some_iff, Option.map_eq_some_iff] at hstep
    obtain ⟨d, hd, idx, hidx, rfl⟩ := hstep
    rw [hphase] at hs
    have hsame : (s.updateElem d idx).attached = s.attached := by
      unfold Loader.updateElem
      split <;> rfl
    dsimp only
    rw [hsame]
    exact (hs ifindex).trans (iff_of_false id (attachedIn_afterUpdate i d ifindex))
  | pin i =>
    simp only [Loader.call, hphase, Option.map_eq_some_iff] at hstep
    obtain ⟨d, hd, rfl⟩ := hstep
    rw [hphase] at hs
    exact (hs ifindex).trans (iff_of_false id (attachedIn_nextProg i ifindex))
  | unpin i =>
    simp only [Loader.call, hphase, Option.map_eq_some_iff] at hstep
    obtain ⟨d, hd, rfl⟩ := hstep
    rw [hphase] at hs
    exact hs ifindex
  | mainFd =>
    simp only [Loader.call, hphase, Option.some.injEq] at hstep
    subst hstep
    rw [hphase] at hs
    refine (hs ifindex).trans (iff_of_false id ?_)
    dsimp only
    rw [attachedIn_nextInterface, List.take_zero]
    exact List.not_mem_nil
  | attach i =>
    simp only [Loader.call, hphase, Option.map_eq_some_iff] at hstep
    obtain ⟨new, hnew, rfl⟩ := hstep
    rw [hphase] at hs
    dsimp only
    rw [attachedIn_nextInterface, mem_take_succ hnew]
    by_cases hsame : ifindex = new
    · rw [hsame, Function.update_self]
      exact iff_of_true rfl (Or.inr rfl)
    · rw [Function.update_of_ne hsame, or_iff_left hsame]
      exact hs ifindex
  | sigprocmask =>
    simp only [Loader.call, hphase, Option.some.injEq] at hstep
    subst hstep
    rw [hphase] at hs
    dsimp only
    split_ifs <;> exact hs ifindex
  | openInterval =>
    simp only [Loader.call, hphase, Option.some.injEq] at hstep
    subst hstep
    rw [hphase] at hs
    exact hs ifindex
  | wait => simp [Loader.call, hphase] at hstep
  | detach i =>
    simp only [Loader.call, hphase, Option.map_eq_some_iff] at hstep
    obtain ⟨old, hold, rfl⟩ := hstep
    rw [hphase] at hs
    dsimp only
    rw [attachedIn_nextDetach, mem_take_succ hold, not_or]
    by_cases hsame : ifindex = old
    · rw [hsame, Function.update_self]
      exact iff_of_false Bool.false_ne_true fun h => h.2.2 rfl
    · rw [Function.update_of_ne hsame, and_iff_left hsame]
      exact hs ifindex
  | exited code => simp [Loader.call, hphase] at hstep
  | killed => simp [Loader.call, hphase] at hstep

lemma attachedIn_signal {sig : Signal} {written : Bool} (hs : ∀ ifindex, s.attached ifindex = true ↔
      attachedIn o s.phase ifindex)
    (hstep : s.call o (.signal sig written) = some s') (ifindex : ℕ) :
    s'.attached ifindex = true ↔ attachedIn o s'.phase ifindex := by
  obtain ⟨hphase, -, -, hattached, hnext⟩ := signal_cases hstep
  rw [hphase] at hs
  rw [hattached]
  rcases hnext with hwait | ⟨ret, hdetach⟩
  · rw [hwait]
    exact hs ifindex
  · rw [hdetach, attachedIn_nextDetach, List.take_zero, and_iff_left List.not_mem_nil]
    exact hs ifindex

/-- A loader that has not given up has attached what its phase says. -/
lemma attachedIn_call {a : Call} (hs : ∀ ifindex, s.attached ifindex = true ↔ attachedIn o s.phase ifindex)
    (hfail : a ≠ .fail) (hkilled : a ≠ .killed) (hstep : s.call o a = some s') (ifindex : ℕ) :
    s'.attached ifindex = true ↔ attachedIn o s'.phase ifindex := by
  cases a with
  | ok => exact attachedIn_ok hs hstep ifindex
  | fail => exact absurd rfl hfail
  | killed => exact absurd rfl hkilled
  | eexist =>
    cases hphase : s.phase <;> simp only [Loader.call, hphase, Option.some.injEq, reduceCtorEq] at hstep
    subst hstep
    rw [hphase] at hs
    exact hs ifindex
  | signal sig written => exact attachedIn_signal hs hstep ifindex

/-- A call that ends the program leaves what is attached as it is. -/
lemma ended_attached {a : Call} (hok : DetachSucceeds s a) (hend : a = .fail ∨ a = .killed)
    (hstep : s.call o a = some s') :
    s'.phase.running = false ∧ s'.attached = s.attached := by
  rcases hend with rfl | rfl
  · rcases fail_cases hstep with ⟨code, rfl⟩ | ⟨i, hdetach, -⟩
    · exact ⟨rfl, rfl⟩
    · exact absurd hdetach (hok rfl i)
  · simp only [Loader.call, Option.ite_none_right_eq_some, Option.some.injEq] at hstep
    obtain ⟨-, rfl⟩ := hstep
    exact ⟨rfl, rfl⟩

lemma attachedIn_ended {phase : Phase} (h : phase.running = false) (ifindex : ℕ) :
    ¬attachedIn o phase ifindex := by
  cases phase with
  | exited code => exact id
  | killed => exact id
  | _ => exact absurd h nofun

/-- While the loader runs, the filter is attached to the interfaces of its phase. -/
lemma attachedIn_reach {pinned : BpfProg → Bool}
    (h : Reach (Loader.step o) DetachSucceeds (Loader.init pinned) s) :
    s.phase.running = true → ∀ ifindex, s.attached ifindex = true ↔ attachedIn o s.phase ifindex := by
  apply Reach.invariant
    (fun s : Loader => s.phase.running = true → ∀ ifindex, s.attached ifindex = true ↔
      attachedIn o s.phase ifindex) h
  · exact fun _ _ => iff_of_false Bool.false_ne_true id
  · intro t a t' ht hok hstep hrun
    obtain ⟨u, hu, -, hphase, hattached⟩ := call_of_step hstep
    rw [hphase, hattached]
    rw [hphase] at hrun
    by_cases hend : a = .fail ∨ a = .killed
    · exact absurd (hrun.symm.trans (ended_attached hok hend hu).1) nofun
    · rw [not_or] at hend
      exact attachedIn_call (ht (running_of_call hu)) hend.1 hend.2 hu

/-- A loader that gives up, or that is killed, leaves the filter attached to the interfaces so far; one that
has taken a signal to its end leaves it attached to none. -/
theorem exit_attached {pinned : BpfProg → Bool} {a : Call}
    (h : Reach (Loader.step o) DetachSucceeds (Loader.init pinned) s) (hok : DetachSucceeds s a)
    (hstep : s.step o a = some s') (hend : s'.phase.running = false) (ifindex : ℕ) :
    s'.attached ifindex = true ↔ (a = .fail ∨ a = .killed) ∧ attachedIn o s.phase ifindex := by
  obtain ⟨t, ht, -, hphase, hattached⟩ := call_of_step hstep
  have hs := attachedIn_reach h (running_of_call ht)
  rw [hattached]
  rw [hphase] at hend
  by_cases hcall : a = .fail ∨ a = .killed
  · rw [(ended_attached hok hcall ht).2]
    exact (hs ifindex).trans (and_iff_right hcall).symm
  · have hne := not_or.mp hcall
    have hnext := attachedIn_call hs hne.1 hne.2 ht ifindex
    exact hnext.trans (iff_of_false (attachedIn_ended hend ifindex) fun hand => hcall hand.1)

/-- The filter cannot be attached to the second interface, and stays attached to the first; so does it when
the loader is killed there. -/
theorem first_left_attached :
    ∃ s, run (Loader.step twoInterfaces) (Loader.init fun _ => false) (List.replicate 16 .ok) =
    some s ∧ ∀ a ∈ [Call.fail, .killed], ∃ s', s.step twoInterfaces a = some s' ∧ s'.phase.running = false ∧
      s'.attached 2 = true ∧ s'.attached 3 ≠ true := by
  obtain ⟨s, hrun, -, hphase⟩ := first_attached
  have hok : ∀ a ∈ List.replicate 16 Call.ok, ∀ t, DetachSucceeds t a := by
    intro a ha t hfail
    rw [List.eq_of_mem_replicate ha] at hfail
    exact absurd hfail nofun
  have hreach := Reach.of_run Reach.init hrun (meets_of_mem hok _)
  refine ⟨s, hrun, fun a ha => ?_⟩
  have hcall : DetachSucceeds s a := by
    intro _ i hdetach
    rw [hphase] at hdetach
    exact absurd hdetach nofun
  have hend : a = .fail ∨ a = .killed := List.mem_pair.mp ha
  obtain ⟨s', hstep⟩ : ∃ s', s.step twoInterfaces a = some s' := by
    rcases hend with rfl | rfl
    · exact ⟨_, by simp only [Loader.step, Loader.call, hphase]; rfl⟩
    · exact ⟨_, by simp only [Loader.step, Loader.call, hphase]; rfl⟩
  have hover : s'.phase.running = false := by
    obtain ⟨t, ht, -, hsame, -⟩ := call_of_step hstep
    rw [hsame]
    exact (ended_attached hcall hend ht).1
  have hleft := exit_attached hreach hcall hstep hover
  rw [hphase] at hleft
  refine ⟨s', hstep, hover, (hleft 2).mpr ⟨hend, List.mem_cons_self⟩, fun h => ?_⟩
  have hmem : 3 ∈ [2] := ((hleft 3).mp h).2
  exact absurd hmem (by decide)

end BmcCache.Proofs
