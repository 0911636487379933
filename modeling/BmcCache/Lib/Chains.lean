import Mathlib.Data.List.Nodup
import Mathlib.Tactic.Common

/-!
# Chains of entries with distinct keys

The chains of a hash table: lists of entries that are looked up by the first entry with the key.
When the keys of a chain are distinct, the order of its entries does not matter for a lookup.
-/

namespace Chains

variable {α β : Type*} {key : α → β} {k : β} {l l' : List α}

def Distinct (key : α → β) (l : List α) : Prop := (l.map key).Nodup

lemma distinct_nil : Distinct key [] := List.nodup_nil

lemma distinct_cons {a : α} : Distinct key (a :: l) ↔ (∀ b ∈ l, key b ≠ key a) ∧ Distinct key l := by
  unfold Distinct
  rw [List.map_cons, List.nodup_cons, List.mem_map]
  push Not
  rfl

lemma distinct_of_perm (h : Distinct key l) (hperm : l.Perm l') : Distinct key l' :=
  (hperm.map key).nodup_iff.mp h

lemma distinct_of_sublist (h : Distinct key l) (hsub : l'.Sublist l) : Distinct key l' :=
  h.sublist (hsub.map key)

variable [DecidableEq β]

/-- The first entry of the chain with the key. -/
def lookup (key : α → β) (k : β) (l : List α) : Option α := l.find? fun a => key a = k

/-- The chain without the first entry with the key. -/
def unlink (key : α → β) (k : β) (l : List α) : List α := l.eraseP fun a => key a = k

lemma distinct_unlink (h : Distinct key l) : Distinct key (unlink key k l) :=
  distinct_of_sublist h List.eraseP_sublist

lemma lookup_cons_self (a : α) : lookup key (key a) (a :: l) = some a := by simp [lookup]

lemma lookup_cons_of_ne {a : α} (h : key a ≠ k) : lookup key k (a :: l) = lookup key k l := by
  simp [lookup, h]

lemma lookup_eq_none_iff : lookup key k l = none ↔ ∀ a ∈ l, key a ≠ k := by simp [lookup]

lemma lookup_eq_some_iff (h : Distinct key l) {a : α} : lookup key k l = some a ↔ a ∈ l ∧ key a = k := by
  induction l with
  | nil => simp [lookup]
  | cons b l ih =>
    obtain ⟨hb, hl⟩ := distinct_cons.mp h
    by_cases hk : key b = k
    · subst hk
      rw [lookup_cons_self, Option.some.injEq, List.mem_cons]
      constructor
      · rintro rfl
        exact ⟨Or.inl rfl, rfl⟩
      · rintro ⟨rfl | ha, heq⟩
        · rfl
        · exact absurd heq (hb a ha)
    · rw [lookup_cons_of_ne hk, ih hl, List.mem_cons]
      constructor
      · rintro ⟨ha, heq⟩
        exact ⟨Or.inr ha, heq⟩
      · rintro ⟨rfl | ha, heq⟩
        · exact absurd heq hk
        · exact ⟨ha, heq⟩

/-- Chains with the same entries for the key give the same entry. -/
lemma lookup_congr (h : Distinct key l) (h' : Distinct key l')
    (hmem : ∀ a, key a = k → (a ∈ l ↔ a ∈ l')) : lookup key k l = lookup key k l' := by
  ext a
  rw [lookup_eq_some_iff h, lookup_eq_some_iff h']
  constructor
  · rintro ⟨ha, rfl⟩
    exact ⟨(hmem a rfl).mp ha, rfl⟩
  · rintro ⟨ha, rfl⟩
    exact ⟨(hmem a rfl).mpr ha, rfl⟩

lemma mem_unlink (h : Distinct key l) {a : α} : a ∈ unlink key k l ↔ a ∈ l ∧ key a ≠ k := by
  induction l with
  | nil => simp [unlink]
  | cons b l ih =>
    obtain ⟨hb, hl⟩ := distinct_cons.mp h
    by_cases hk : key b = k
    · subst hk
      have hgone : unlink key (key b) (b :: l) = l := by simp [unlink]
      rw [hgone, List.mem_cons]
      constructor
      · intro ha
        exact ⟨Or.inr ha, hb a ha⟩
      · rintro ⟨rfl | ha, hne⟩
        · exact absurd rfl hne
        · exact ha
    · have hskip : unlink key k (b :: l) = b :: unlink key k l := by simp [unlink, hk]
      rw [hskip, List.mem_cons, ih hl, List.mem_cons]
      constructor
      · rintro (rfl | ⟨ha, hne⟩)
        · exact ⟨Or.inl rfl, hk⟩
        · exact ⟨Or.inr ha, hne⟩
      · rintro ⟨rfl | ha, hne⟩
        · exact Or.inl rfl
        · exact Or.inr ⟨ha, hne⟩

end Chains
