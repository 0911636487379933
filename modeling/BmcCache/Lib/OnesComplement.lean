import Mathlib.Data.Nat.ModEq
import Mathlib.Tactic.Common
import Mathlib.Tactic.Ring

/-!
# One's-complement sums

Adding words of a fixed width in one's-complement arithmetic: the plain sum is reduced by adding
its carry back in until none is left. With `M` words the result depends only on the residue of
the sum modulo `M - 1`, where zero and `M - 1` stand for the same number.
-/

namespace OnesComplement

/-- The sum with end-around carries, for words below `M`. -/
def endAround (M n : ℕ) : ℕ :=
  if _h : 2 ≤ M ∧ M ≤ n then endAround M (n % M + n / M) else n
termination_by n
decreasing_by
  have hpos : 0 < n / M := Nat.div_pos _h.2 (by omega)
  have hdiv : n % M + M * (n / M) = n := Nat.mod_add_div n M
  have hmul : 2 * (n / M) ≤ M * (n / M) := Nat.mul_le_mul_right _ _h.1
  omega

lemma fold_eq (M n : ℕ) (hM : 1 ≤ M) : n = (M - 1) * (n / M) + (n % M + n / M) := by
  have hdiv : n % M + M * (n / M) = n := Nat.mod_add_div n M
  obtain ⟨m, rfl⟩ : ∃ m, M = m + 1 := ⟨M - 1, by omega⟩
  rw [Nat.add_sub_cancel]
  calc n = n % (m + 1) + (m + 1) * (n / (m + 1)) := hdiv.symm
    _ = m * (n / (m + 1)) + (n % (m + 1) + n / (m + 1)) := by ring

/-- The carries never change the residue, and only the sum zero has no carry to keep. -/
lemma endAround_spec {M : ℕ} (hM : 2 ≤ M) (n : ℕ) :
    endAround M n < M ∧ endAround M n ≡ n [MOD M - 1] ∧ (endAround M n = 0 ↔ n = 0) := by
  induction n using Nat.strong_induction_on with
  | _ n ih =>
    rw [endAround]
    split_ifs with h
    · have hpos : 0 < n / M := Nat.div_pos h.2 (by omega)
      have hmul : 2 * (n / M) ≤ M * (n / M) := Nat.mul_le_mul_right _ hM
      have hdiv : n % M + M * (n / M) = n := Nat.mod_add_div n M
      obtain ⟨hlt, hmod, hzero⟩ := ih (n % M + n / M) (by omega)
      refine ⟨hlt, hmod.trans ?_, hzero.trans (by omega)⟩
      have hfold : n % M + n / M ≡ (M - 1) * (n / M) + (n % M + n / M) [MOD M - 1] := by
        simp [Nat.ModEq]
      rwa [← fold_eq M n (by omega)] at hfold
    · exact ⟨by omega, Nat.ModEq.refl n, Iff.rfl⟩

/-- The largest word, which stands for zero, is the result exactly for the positive multiples. -/
theorem endAround_eq_max_iff {M : ℕ} (hM : 2 ≤ M) (n : ℕ) :
    endAround M n = M - 1 ↔ n ≠ 0 ∧ M - 1 ∣ n := by
  obtain ⟨hlt, hmod, hzero⟩ := endAround_spec hM n
  have hdvd : M - 1 ∣ n ↔ M - 1 ∣ endAround M n := hmod.dvd_iff (dvd_refl _) |>.symm
  rw [hdvd]
  constructor
  · intro h
    refine ⟨fun hn => ?_, by rw [h]⟩
    have := hzero.mpr hn
    omega
  · rintro ⟨hne, k, hk⟩
    have hpos : endAround M n ≠ 0 := fun h => hne (hzero.mp h)
    -- the only positive multiple below `M`
    rcases k with _ | _ | k
    · simp [hk] at hpos
    · simpa using hk
    · rw [hk] at hlt
      have hmul : (M - 1) * 2 ≤ (M - 1) * (k + 1 + 1) := Nat.mul_le_mul_left _ (by omega)
      omega

/-- One fold of the carries is enough exactly when it leaves no carry; then the complement of the
folded sum makes the whole sum a multiple, otherwise it misses one by one. -/
theorem dvd_add_complement_iff {M S : ℕ} (hM : 3 ≤ M) (hS : S / M < M) :
    M - 1 ∣ S + (M - 1 - (S % M + S / M) % M) ↔ S % M + S / M < M := by
  have hfold := fold_eq M S (by omega)
  have hr : S % M < M := Nat.mod_lt _ (by omega)
  rcases Nat.lt_or_ge (S % M + S / M) M with hlt | hge
  · rw [Nat.mod_eq_of_lt hlt]
    refine iff_of_true ⟨S / M + 1, ?_⟩ hlt
    rw [Nat.mul_succ]
    omega
  · rw [Nat.mod_eq_sub_mod hge, Nat.mod_eq_of_lt (by omega)]
    refine iff_of_false ?_ (by omega)
    rintro ⟨k, hk⟩
    have hsum : (M - 1) * k = (M - 1) * (S / M + 2) + 1 := by
      rw [← hk, Nat.mul_add]
      omega
    have hone : M - 1 ∣ 1 := by
      have h1 : M - 1 ∣ (M - 1) * (S / M + 2) + 1 := ⟨k, hsum.symm⟩
      exact (Nat.dvd_add_right (Dvd.intro _ rfl)).mp h1
    have := Nat.le_of_dvd Nat.one_pos hone
    omega

end OnesComplement
