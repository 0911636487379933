import Mathlib.Logic.Basic
import Mathlib.Tactic.Common

/-!
# Labelled transition systems

A system is a partial step function on states and actions. `Reach step ok init` holds of
the states that runs from `init` reach when every step of the run meets the condition
`ok`, a condition on the state before the step and the action.
-/

namespace Transition

variable {σ α : Type*} {step : σ → α → Option σ} {ok : σ → α → Prop} {init s s' : σ}

inductive Reach (step : σ → α → Option σ) (ok : σ → α → Prop) (init : σ) : σ → Prop
  | init : Reach step ok init init
  | step {s s' : σ} {a : α} : Reach step ok init s → ok s a → step s a = some s' →
      Reach step ok init s'

/-- What holds initially and is kept by every allowed step holds in every state reached. -/
theorem Reach.invariant (inv : σ → Prop) (h : Reach step ok init s) (hinit : inv init)
    (hstep : ∀ s a s', inv s → ok s a → step s a = some s' → inv s') : inv s := by
  induction h with
  | init => exact hinit
  | step _ hok hs ih => exact hstep _ _ _ ih hok hs

/-- The state after a list of actions. -/
def run (step : σ → α → Option σ) : σ → List α → Option σ
  | s, [] => some s
  | s, a :: as => (step s a).bind fun s' => run step s' as

lemma run_append {as bs : List α} (h : run step s as = some s') : run step s (as ++ bs) = run step s' bs := by
  induction as generalizing s with
  | nil =>
    obtain rfl := Option.some.inj h
    rfl
  | cons a as ih =>
    rw [run, Option.bind_eq_some_iff] at h
    obtain ⟨t, ht, hrun⟩ := h
    rw [List.cons_append, run, ht]
    exact ih hrun

/-- A run with its last step apart. -/
lemma run_concat_cases {as : List α} {a : α} (h : run step s (as ++ [a]) = some s') :
    ∃ t, run step s as = some t ∧ step t a = some s' := by
  induction as generalizing s with
  | nil =>
    rw [List.nil_append, run, Option.bind_eq_some_iff] at h
    obtain ⟨t, ht, hrun⟩ := h
    obtain rfl := Option.some.inj hrun
    exact ⟨s, rfl, ht⟩
  | cons b as ih =>
    rw [List.cons_append, run, Option.bind_eq_some_iff] at h
    obtain ⟨u, hu, hrun⟩ := h
    obtain ⟨t, ht, hlast⟩ := ih hrun
    refine ⟨t, ?_, hlast⟩
    rw [run, hu]
    exact ht

/-- What every step decreases bounds the length of a run. -/
lemma length_le_of_run (left : σ → ℕ) (hlt : ∀ s a s', step s a = some s' → left s' < left s) {as : List α}
    (h : run step s as = some s') : as.length + left s' ≤ left s := by
  induction as generalizing s with
  | nil =>
    obtain rfl := Option.some.inj h
    exact Nat.le_of_eq (Nat.zero_add _)
  | cons a as ih =>
    rw [run, Option.bind_eq_some_iff] at h
    obtain ⟨t, ht, hrun⟩ := h
    have hrest := ih hrun
    have hstep := hlt s a t ht
    rw [List.length_cons]
    omega

/-- Every state on the way meets the condition for the action taken there. -/
def Meets (step : σ → α → Option σ) (ok : σ → α → Prop) : σ → List α → Prop
  | _, [] => True
  | s, a :: as => ok s a ∧ ∀ s', step s a = some s' → Meets step ok s' as

lemma meets_of_mem {as : List α} (h : ∀ a ∈ as, ∀ s, ok s a) (s : σ) : Meets step ok s as := by
  induction as generalizing s with
  | nil => trivial
  | cons a as ih =>
    exact ⟨h a List.mem_cons_self s, fun s' _ => ih (fun a' ha' => h a' (List.mem_cons_of_mem _ ha')) s'⟩

lemma meets_of_forall (h : ∀ s a, ok s a) (s : σ) (as : List α) : Meets step ok s as :=
  meets_of_mem (fun a _ s => h s a) s

/-- A run whose steps meet the condition reaches its last state. -/
theorem Reach.of_run {as : List α} (hs : Reach step ok init s) (hrun : run step s as = some s')
    (hmeets : Meets step ok s as) : Reach step ok init s' := by
  induction as generalizing s with
  | nil =>
    rw [run, Option.some.injEq] at hrun
    exact hrun ▸ hs
  | cons a as ih =>
    rw [run, Option.bind_eq_some_iff] at hrun
    obtain ⟨t, ht, hrun⟩ := hrun
    exact ih (Reach.step hs hmeets.1 ht) hrun (hmeets.2 t ht)

end Transition
