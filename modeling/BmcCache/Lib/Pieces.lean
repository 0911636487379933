import Mathlib.Data.List.Basic
import Mathlib.Tactic.Common

/-!
# Numbered pieces

A text is sent in numbered pieces, which arrive in any order, more than once, or not at all. Whoever looks
for one number after the other puts the text together again, or sees that a piece is missing.
-/

namespace Pieces

variable {δ β : Type*} (seq : δ → ℕ) (payload : δ → List β)

/-- The payloads of the next `n` pieces from number `i` on, each the first one that has arrived. -/
def gather (arrived : List δ) : ℕ → ℕ → Option (List β)
  | _, 0 => some []
  | i, n + 1 =>
    (arrived.find? fun d => seq d == i).bind fun d => (gather arrived (i + 1) n).map (payload d ++ ·)

/-- Every piece has its place in the list as its number. -/
def Numbered (sent : List δ) : Prop := ∀ i (h : i < sent.length), seq sent[i] = i

variable {seq payload} {sent arrived : List δ} (hnum : Numbered seq sent) (hsent : ∀ d ∈ arrived, d ∈ sent)

include hnum hsent

/-- What has arrived with a number is the piece that was sent with it. -/
lemma piece_of_seq {d : δ} (hd : d ∈ arrived) {i : ℕ} (hseq : seq d = i) :
    ∃ h : i < sent.length, d = sent[i] := by
  obtain ⟨j, hj, rfl⟩ := List.getElem_of_mem (hsent d hd)
  obtain rfl : j = i := (hnum j hj).symm.trans hseq
  exact ⟨hj, rfl⟩

lemma find_arrived {i : ℕ} (hi : i < sent.length) (hmem : sent[i] ∈ arrived) :
    (arrived.find? fun d => seq d == i) = some sent[i] := by
  have hself : (seq sent[i] == i) = true := by
    rw [hnum i hi]
    exact beq_self_eq_true i
  have hsome : (arrived.find? fun d => seq d == i).isSome := by
    rw [List.find?_isSome]
    exact ⟨sent[i], hmem, hself⟩
  obtain ⟨d, hd⟩ := Option.isSome_iff_exists.mp hsome
  obtain ⟨_, rfl⟩ := piece_of_seq hnum hsent (List.mem_of_find?_eq_some hd)
    (by simpa using List.find?_some hd)
  exact hd

lemma find_missing {i : ℕ} (hi : i < sent.length) (hmissing : sent[i] ∉ arrived) :
    (arrived.find? fun d => seq d == i) = none := by
  rw [List.find?_eq_none]
  intro d hd hseq
  obtain ⟨_, rfl⟩ := piece_of_seq hnum hsent hd (by simpa using hseq)
  exact hmissing hd

/-- When all pieces have arrived, their payloads are put together in order. -/
theorem gather_all (hall : ∀ d ∈ sent, d ∈ arrived) {i n : ℕ} (hin : i + n = sent.length) :
    gather seq payload arrived i n = some ((sent.drop i).map payload).flatten := by
  induction n generalizing i with
  | zero =>
    have hnil : sent.drop i = [] := List.drop_eq_nil_of_le (by omega)
    rw [gather, hnil]
    rfl
  | succ n ih =>
    have hi : i < sent.length := by omega
    rw [gather, find_arrived hnum hsent hi (hall _ (List.getElem_mem hi)), Option.bind_some, ih (by omega),
      List.drop_eq_getElem_cons hi, List.map_cons, List.flatten_cons]
    rfl

/-- A piece that is missing is noticed. -/
theorem gather_missing {i n j : ℕ} (hij : i ≤ j) (hjn : j < i + n) (hj : j < sent.length)
    (hmissing : sent[j] ∉ arrived) :
    gather seq payload arrived i n = none := by
  induction n generalizing i with
  | zero => omega
  | succ n ih =>
    rw [gather]
    rcases Nat.eq_or_lt_of_le hij with rfl | hlt
    · rw [find_missing hnum hsent hj hmissing, Option.bind_none]
    · rw [ih hlt (by omega)]
      cases arrived.find? fun d => seq d == i <;> rfl

end Pieces
