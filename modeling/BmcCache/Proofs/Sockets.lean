import BmcCache.Model.Sockets

/-!
# How many sockets the threads get

The loop over the threads gives every worker one socket of each address. The jump back to
`next_socket` is taken once too often, and the counter that it tests keeps its value when the
attempts for an address end in a failure.
-/

namespace BmcCache.Proofs

variable {st : Settings}

/-! ### Dispatching in turn -/

/-- The next socket goes to thread 0. -/
def AtFirst (st : Settings) (s : Listening) : Prop := (s.lastThread + 1) % st.numThreads = 0

lemma iterate_dispatch_tids {n : ℕ} {s : Listening} (hs : AtFirst st s) (hn : n ≤ st.numThreads) :
    ((dispatchConnNew st)^[n] s).tids = s.tids ++ List.range n ∧
      (((dispatchConnNew st)^[n] s).lastThread + 1) % st.numThreads = (n : ℤ) % st.numThreads := by
  induction n with
  | zero => simpa [AtFirst] using hs
  | succ n ih =>
    obtain ⟨htids, hlast⟩ := ih (by omega)
    have htid : (n : ℤ) % st.numThreads = n := Int.emod_eq_of_lt (by omega) (by omega)
    rw [Function.iterate_succ_apply', dispatchConnNew]
    dsimp only
    rw [hlast, htid, htids, List.range_succ, List.append_assoc]
    refine ⟨by simp, by simp⟩

/-! ### One address -/

section Address

variable {a : Address} {s : Listening}

lemma dupLoop_eq (hdup : ∀ c, a.dup c = true) (n c : ℕ) (s : Listening) :
    dupLoop st a n c s = (.next, (dispatchConnNew st)^[n] s) := by
  induction n generalizing c s with
  | zero => rfl
  | succ n ih => rw [dupLoop, if_pos (Or.inr (hdup c)), ih, Function.iterate_succ_apply]

/-- The attempts `k`, …, `k + n - 1` succeed, with fewer than the threads counted. -/
lemma nextSocket_bound (hre : st.reuseport = true) {n k : ℕ}
    (hbound : ∀ i, i < n → a.attempt (k + i) = .bound) (hthd : s.thd + n ≤ st.numThreadsPerUdp) :
    ∃ s', nextSocket st a k s = nextSocket st a (k + n) s' ∧ s'.thd = s.thd + n ∧
      s'.tids.length = s.tids.length + n := by
  induction n generalizing k s with
  | zero => exact ⟨s, rfl, rfl, rfl⟩
  | succ n ih =>
    have hfirst : a.attempt k = .bound := hbound 0 (Nat.succ_pos n)
    have hrest : ∀ i, i < n → a.attempt (k + 1 + i) = .bound := by
      intro i hi
      have hnext := hbound (i + 1) (by omega)
      rw [← hnext]
      congr 1
      omega
    obtain ⟨s', heq, hthd', hlen'⟩ := @ih
      { dispatchConnNew st { s with success := s.success + 1 } with thd := s.thd + 1 } (k + 1) hrest
      (by dsimp only; omega)
    refine ⟨s', ?_, ?_, ?_⟩
    · rw [nextSocket, hfirst]
      simp only [hre, if_true]
      rw [if_pos (by omega), heq]
      congr 1
      omega
    · rw [hthd']
      dsimp only
      omega
    · rw [hlen', dispatchConnNew, List.length_append]
      simp only [List.length_cons, List.length_nil]
      omega

/-- All attempts succeed: one socket more than there are threads left to count. -/
lemma nextSocket_all (hre : st.reuseport = true) (hbound : ∀ k, a.attempt k = .bound)
    (hthd : s.thd ≤ st.numThreadsPerUdp) :
    ∃ s', nextSocket st a 0 s = (.next, s') ∧ s'.thd = 0 ∧
      s'.tids.length = s.tids.length + (st.numThreadsPerUdp - s.thd + 1) := by
  obtain ⟨s', heq, hthd', hlen⟩ := @nextSocket_bound st a s hre (st.numThreadsPerUdp - s.thd) 0
    (fun i _ => hbound _) (by omega)
  refine ⟨{ dispatchConnNew st { s' with success := s'.success + 1 } with thd := 0 }, ?_, rfl, ?_⟩
  · rw [heq, nextSocket, hbound]
    simp only [hre, if_true]
    rw [if_neg (by omega)]
  · rw [dispatchConnNew, List.length_append, hlen]
    rfl

/-- The attempts for the address end with the failure of attempt `j`. -/
def FailsAfter (a : Address) (j : ℕ) : Prop :=
  (∀ i, i < j → a.attempt i = .bound) ∧
    (a.attempt j = .noSocket ∨ a.attempt j = .notV6only ∨ a.attempt j = .inUse)

/-- The counter is not reset when an attempt fails. -/
lemma nextSocket_fails (hre : st.reuseport = true) {j : ℕ} (hfails : FailsAfter a j)
    (hthd : s.thd + j ≤ st.numThreadsPerUdp) :
    ∃ s', nextSocket st a 0 s = (.next, s') ∧ s'.thd = s.thd + j ∧ s'.tids.length = s.tids.length + j := by
  obtain ⟨hbound, hlast⟩ := hfails
  obtain ⟨s', heq, hthd', hlen⟩ := @nextSocket_bound st a s hre j 0
    (fun i hi => by rw [Nat.zero_add]; exact hbound i hi) hthd
  refine ⟨s', ?_, hthd', hlen⟩
  rw [heq, nextSocket, Nat.zero_add]
  rcases hlast with h | h | h
  · rw [h]
  · rw [h]
  · rw [h]

end Address

/-! ### All addresses -/

/-- Every attempt to open a socket for the address succeeds. -/
structure Bindable (a : Address) : Prop where
  attempt : ∀ k, a.attempt k = .bound
  dup : ∀ c, a.dup c = true

lemma addressLoop_original {N : ℕ} {ai : List Address} (hbind : ∀ a ∈ ai, Bindable a) {s : Listening}
    (hs : AtFirst ⟨N, N, false⟩ s) : (addressLoop ⟨N, N, false⟩ ai s).2 = ai.map fun _ => List.range N := by
  induction ai generalizing s with
  | nil => rfl
  | cons a ai ih =>
    have ha := hbind a List.mem_cons_self
    let s₁ : Listening := { s with tids := [], success := s.success + 1 }
    have hfirst : AtFirst ⟨N, N, false⟩ s₁ := hs
    obtain ⟨htids, hlast⟩ := iterate_dispatch_tids hfirst (Nat.le_refl N)
    have hnext : nextSocket ⟨N, N, false⟩ a 0 { s with tids := [] } =
        (.next, (dispatchConnNew ⟨N, N, false⟩)^[N] s₁) := by
      rw [nextSocket, ha.attempt 0]
      simp only [Bool.false_eq_true, if_false]
      exact dupLoop_eq ha.dup N 0 s₁
    have hagain : AtFirst ⟨N, N, false⟩ ((dispatchConnNew ⟨N, N, false⟩)^[N] s₁) := by
      rw [AtFirst, hlast]
      exact Int.emod_self
    rw [addressLoop, hnext]
    dsimp only
    rw [htids, ih (fun b hb => hbind b (List.mem_cons_of_mem a hb)) hagain]
    rfl

lemma addressLoop_reuseport {N : ℕ} {a : Address} {ai : List Address} (hbind : ∀ b ∈ a :: ai, Bindable b)
    {s : Listening} (hthd : s.thd ≤ N) :
    ((addressLoop ⟨N, N, true⟩ (a :: ai) s).2).map List.length = (N - s.thd + 1) :: ai.map fun _ =>
    N + 1 := by
  induction ai generalizing a s with
  | nil =>
    obtain ⟨s', hnext, -, hlen⟩ := @nextSocket_all ⟨N, N, true⟩ a { s with tids := [] } rfl
      (hbind a List.mem_cons_self).attempt hthd
    rw [addressLoop, hnext]
    simp only [addressLoop, List.map_cons, List.map_nil, hlen, List.length_nil, Nat.zero_add]
  | cons b ai ih =>
    obtain ⟨s', hnext, hthd', hlen⟩ := @nextSocket_all ⟨N, N, true⟩ a { s with tids := [] } rfl
      (hbind a List.mem_cons_self).attempt hthd
    have hrest := @ih b (fun d hd => hbind d (List.mem_cons_of_mem a hd)) s' (by omega)
    rw [addressLoop, hnext]
    simp only [List.map_cons, hlen, List.length_nil, Nat.zero_add]
    rw [hrest, hthd']
    rfl

/-- With `reuseport` every address gets one socket more than there are threads, so that some thread
gets two of them, and after an address that fails late the next one gets fewer. -/
theorem reuseport_one_socket_more (N : ℕ) {ai : List Address} (hne : ai ≠ [])
    (hbind : ∀ a ∈ ai, Bindable a) :
    (serverSocket ⟨N, N, false⟩ ai (-1)).2 = ai.map (fun _ => List.range N) ∧
    (serverSocket ⟨N, N, true⟩ ai (-1)).2.map List.length = ai.map (fun _ => N + 1) ∧
    (serverSocket ⟨N, N, true⟩ ai (-1)).2.map List.length ≠
    (serverSocket ⟨N, N, false⟩ ai (-1)).2.map List.length ∧
    (∀ tids ∈ (serverSocket ⟨N, N, true⟩ ai (-1)).2, ¬tids.Perm (List.range N)) ∧
    ∀ failing j, FailsAfter failing j → j ≤ N →
      (serverSocket ⟨N, N, true⟩ (failing :: ai) (-1)).2.map List.length =
        j :: (N - j + 1) :: ai.tail.map fun _ => N + 1 := by
  have horiginal : (serverSocket ⟨N, N, false⟩ ai (-1)).2 = ai.map fun _ => List.range N := by
    refine addressLoop_original hbind ?_
    simp [AtFirst]
  have hcount : (serverSocket ⟨N, N, true⟩ ai (-1)).2.map List.length = ai.map fun _ => N + 1 := by
    obtain ⟨a, rest, rfl⟩ := List.exists_cons_of_ne_nil hne
    exact addressLoop_reuseport hbind (Nat.zero_le N)
  refine ⟨horiginal, hcount, ?_, ?_, ?_⟩
  · intro hsame
    obtain ⟨a, rest, rfl⟩ := List.exists_cons_of_ne_nil hne
    rw [hcount, horiginal] at hsame
    simp at hsame
  · intro tids htids hperm
    have hlen : tids.length ∈ (serverSocket ⟨N, N, true⟩ ai (-1)).2.map List.length :=
      List.mem_map_of_mem htids
    rw [hcount, List.mem_map] at hlen
    obtain ⟨-, -, hlen⟩ := hlen
    rw [hperm.length_eq, List.length_range] at hlen
    omega
  · intro failing j hfails hj
    obtain ⟨a, rest, rfl⟩ := List.exists_cons_of_ne_nil hne
    obtain ⟨s', hnext, hthd, hlen⟩ := @nextSocket_fails ⟨N, N, true⟩ failing ⟨0, 0, -1, []⟩ rfl j hfails
      (by dsimp only; omega)
    have hrest := @addressLoop_reuseport N a rest hbind s' (by dsimp only at hthd; omega)
    rw [serverSocket, addressLoop, hnext]
    simp only [List.map_cons, hlen, List.length_nil, Nat.zero_add]
    rw [hrest, hthd]
    simp

/-- An address for which every call succeeds. -/
def openAddress : Address := ⟨fun _ => .bound, fun _ => true⟩

theorem two_threads_three_sockets :
    Bindable openAddress ∧ (serverSocket ⟨2, 2, false⟩ [openAddress] (-1)).2 = [[0, 1]] ∧
      (serverSocket ⟨2, 2, true⟩ [openAddress] (-1)).2 = [[0, 1, 0]] := by
  refine ⟨⟨fun _ => rfl, fun _ => rfl⟩, ?_, ?_⟩
  · simp [serverSocket, addressLoop, nextSocket, dupLoop, dispatchConnNew, openAddress]
  · simp [serverSocket, addressLoop, nextSocket, dispatchConnNew, openAddress]

theorem eight_threads_nine_sockets :
    (serverSocket ⟨8, 8, true⟩ [openAddress, openAddress] (-1)).2.map List.length = [9, 9] := by
  have hbind : ∀ a ∈ [openAddress, openAddress], Bindable a := by
    intro a ha
    rcases List.mem_pair.mp ha with rfl | rfl
    · exact ⟨fun _ => rfl, fun _ => rfl⟩
    · exact ⟨fun _ => rfl, fun _ => rfl⟩
  exact (reuseport_one_socket_more 8 (by simp) hbind).2.1

end BmcCache.Proofs
