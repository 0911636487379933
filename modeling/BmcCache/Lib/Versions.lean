import Mathlib.Order.Monotone.Basic
import Mathlib.Data.Nat.Init
import Mathlib.Tactic.Common

/-!
# Cells with version numbers

A counter gives every new content of a cell the next number. Then a cell that has the same number at two
times was not changed between them, whatever was done to it and to the others.
-/

namespace Versions

/-- The numbered contents of the cells of a state, and the number that was given last. -/
structure Cells (σ κ α : Type*) where
  cell : σ → κ → Option (ℕ × α)
  clock : σ → ℕ

variable {σ κ α : Type*} (C : Cells σ κ α) {s s' s'' : σ}

/-- The numbers in the cells have been given. -/
def Given (s : σ) : Prop := ∀ k n a, C.cell s k = some (n, a) → n ≤ C.clock s

/-- Every cell is left as it is, emptied, or given new contents with a new number. -/
structure Changes (s s' : σ) : Prop where
  clock_le : C.clock s ≤ C.clock s'
  cell : ∀ k, C.cell s' k = C.cell s k ∨ C.cell s' k = none ∨
    ∃ n a, C.cell s' k = some (n, a) ∧ C.clock s < n ∧ n ≤ C.clock s'

variable {C}

lemma Changes.refl (s : σ) : Changes C s s := ⟨Nat.le_refl _, fun _ => Or.inl rfl⟩

lemma Changes.trans (h : Changes C s s') (h' : Changes C s' s'') : Changes C s s'' := by
  refine ⟨h.clock_le.trans h'.clock_le, fun k => ?_⟩
  rcases h'.cell k with hsame | hnone | ⟨n, a, hnew, hlt, hle⟩
  · rw [hsame]
    rcases h.cell k with hfirst | hnone | ⟨n, a, hnew, hlt, hle⟩
    · exact Or.inl hfirst
    · exact Or.inr (Or.inl hnone)
    · exact Or.inr (Or.inr ⟨n, a, hnew, hlt, hle.trans h'.clock_le⟩)
  · exact Or.inr (Or.inl hnone)
  · exact Or.inr (Or.inr ⟨n, a, hnew, Nat.lt_of_le_of_lt h.clock_le hlt, hle⟩)

lemma given_step (hs : Given C s) (h : Changes C s s') : Given C s' := by
  intro k n a hcell
  rcases h.cell k with hsame | hnone | ⟨n', a', hnew, -, hle⟩
  · exact (hs k n a (hsame ▸ hcell)).trans h.clock_le
  · rw [hnone] at hcell
    exact absurd hcell nofun
  · rw [hnew, Option.some.injEq, Prod.mk.injEq] at hcell
    exact hcell.1 ▸ hle

section Run

variable {f : ℕ → σ} (hstep : ∀ m, Changes C (f m) (f (m + 1)))

include hstep

lemma given_run (hinit : Given C (f 0)) (m : ℕ) : Given C (f m) := by
  induction m with
  | zero => exact hinit
  | succ m ih => exact given_step ih (hstep m)

lemma clock_mono : Monotone fun m => C.clock (f m) :=
  monotone_nat_of_le_succ fun m => (hstep m).clock_le

/-- A number that has been passed does not come back. -/
lemma passed_mono {k : κ} {c i m j : ℕ} (hc : c ≤ C.clock (f i)) (him : i ≤ m) (hmj : m ≤ j)
    (h : ∀ n a, C.cell (f m) k = some (n, a) → c < n) : ∀ n a, C.cell (f j) k = some (n, a) → c < n := by
  induction j, hmj using Nat.le_induction with
  | base => exact h
  | succ j hmj ih =>
    intro n a hcell
    rcases (hstep j).cell k with hsame | hnone | ⟨n', a', hnew, hlt, -⟩
    · exact ih n a (hsame ▸ hcell)
    · rw [hnone] at hcell
      exact absurd hcell nofun
    · rw [hnew, Option.some.injEq, Prod.mk.injEq] at hcell
      rw [← hcell.1]
      have hclock : C.clock (f i) ≤ C.clock (f j) := clock_mono hstep (him.trans hmj)
      exact Nat.lt_of_le_of_lt (hc.trans hclock) hlt

/-- Between two times at which a cell has the same number, it keeps its contents. -/
theorem unchanged_between (hinit : Given C (f 0)) {k : κ} {c i j : ℕ} {a b : α}
    (hi : C.cell (f i) k = some (c, a)) (hj : C.cell (f j) k = some (c, b)) {m : ℕ} (him : i ≤ m)
    (hmj : m ≤ j) : C.cell (f m) k = some (c, a) := by
  have hc : c ≤ C.clock (f i) := given_run hstep hinit i k c a hi
  induction m, him using Nat.le_induction with
  | base => exact hi
  | succ m him ih =>
    have hm := ih (Nat.le_of_succ_le hmj)
    rcases (hstep m).cell k with hsame | hnone | ⟨n, a', hnew, hlt, -⟩
    · rw [hsame, hm]
    · have hpassed := passed_mono hstep hc (Nat.le_succ_of_le him) hmj fun n a' hcell => by
        rw [hnone] at hcell
        exact absurd hcell nofun
      exact absurd (hpassed c b hj) (Nat.lt_irrefl c)
    · have hpassed := passed_mono hstep hc (Nat.le_succ_of_le him) hmj fun n' b' hcell => by
        rw [hnew, Option.some.injEq, Prod.mk.injEq] at hcell
        have hclock : C.clock (f i) ≤ C.clock (f m) := clock_mono hstep him
        exact hcell.1 ▸ Nat.lt_of_le_of_lt (hc.trans hclock) hlt
      exact absurd (hpassed c b hj) (Nat.lt_irrefl c)

end Run

end Versions
