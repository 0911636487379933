import Mathlib.Data.List.Basic
import Mathlib.Tactic.Common

/-!
# Words of a text

The words of a list: its longest parts that have no separator, without the empty ones.
-/

namespace Words

variable {α : Type*} [DecidableEq α] {sep a : α} {w l l' : List α}

def words (sep : α) (l : List α) : List (List α) := (l.splitOn sep).filter (· ≠ [])

lemma words_nil (sep : α) : words sep [] = [] := rfl

lemma words_cons_sep (sep : α) (l : List α) : words sep (sep :: l) = words sep l := by
  simp [words, List.splitOn_eq_splitOnP, List.splitOnP_cons_eq_if_modifyHead]

/-- A part without a separator is a word of its own. -/
lemma words_of_notMem (h : sep ∉ w) (hne : w ≠ []) : words sep w = [w] := by
  have hall : ∀ x ∈ w, (x == sep) = false := by
    intro x hx
    rw [beq_eq_false_iff_ne]
    rintro rfl
    exact h hx
  rw [words, List.splitOn_eq_splitOnP, List.splitOnP_eq_singleton hall]
  simp [hne]

lemma words_append_cons (l l' : List α) : words sep (l ++ sep :: l') = words sep l ++ words sep l' := by
  rw [words, List.splitOn_eq_splitOnP, List.splitOnP_append_cons (p := fun x => x == sep) l l'
    (beq_self_eq_true sep), List.filter_append]
  rfl

lemma words_cons (h : sep ∉ w) (hne : w ≠ []) (l : List α) :
    words sep (w ++ sep :: l) = w :: words sep l := by
  rw [words_append_cons, words_of_notMem h hne, List.singleton_append]

end Words
