import Mathlib.Data.List.Basic
import Mathlib.Tactic.Common

/-!
# Initial segments up to a separator

`takeThrough p n l` is the initial segment of `l` that ends with its `n`-th element
satisfying `p`, or all of `l` when there are fewer. It is what a reader copies that counts
separators and stops at the `n`-th. Also where the last piece of a text starts that is cut
into pieces of one length, and texts that are read back field by field and word by word.
-/

namespace Segments

variable {α : Type*} {p : α → Bool}

def takeThrough (p : α → Bool) : ℕ → List α → List α
  | 0, _ => []
  | _ + 1, [] => []
  | n + 1, a :: l => a :: takeThrough p (if p a then n else n + 1) l

@[simp] lemma takeThrough_zero (l : List α) : takeThrough p 0 l = [] := by
  cases l <;> rfl

@[simp] lemma takeThrough_nil (n : ℕ) : takeThrough p n ([] : List α) = [] := by
  cases n <;> rfl

lemma takeThrough_isPrefix (n : ℕ) (l : List α) : takeThrough p n l <+: l := by
  induction l generalizing n with
  | nil => simp
  | cons a l ih =>
    cases n with
    | zero => simp
    | succ n => exact (List.prefix_cons_inj a).mpr (ih _)

lemma countP_takeThrough (n : ℕ) (l : List α) : (takeThrough p n l).countP p = min n (l.countP p) := by
  induction l generalizing n with
  | nil => simp
  | cons a l ih =>
    cases n with
    | zero => simp
    | succ n =>
      rw [takeThrough, List.countP_cons, List.countP_cons, ih]
      by_cases ha : p a = true
      · rw [if_pos ha, if_pos ha]
        omega
      · rw [if_neg ha, if_neg ha]
        omega

lemma getLast?_takeThrough {n : ℕ} {l : List α} (hn : 0 < n) (hl : n ≤ l.countP p) :
    ∃ a, (takeThrough p n l).getLast? = some a ∧ p a = true := by
  induction l generalizing n with
  | nil => simp at hl; omega
  | cons a l ih =>
    obtain ⟨n, rfl⟩ : ∃ m, n = m + 1 := ⟨n - 1, by omega⟩
    rw [takeThrough]
    by_cases ha : p a = true
    · rw [if_pos ha]
      cases n with
      | zero => exact ⟨a, by simp, ha⟩
      | succ n =>
        rw [List.countP_cons, if_pos ha] at hl
        obtain ⟨b, hb, hpb⟩ := ih (Nat.succ_pos n) (by omega)
        refine ⟨b, ?_, hpb⟩
        rw [List.getLast?_cons, hb]
        rfl
    · rw [if_neg ha]
      rw [List.countP_cons, if_neg ha] at hl
      obtain ⟨b, hb, hpb⟩ := ih hn (by omega)
      refine ⟨b, ?_, hpb⟩
      rw [List.getLast?_cons, hb]
      rfl

lemma takeThrough_append {n : ℕ} (a b : List α) :
    takeThrough p n (a ++ b) =
      if n ≤ a.countP p then takeThrough p n a else a ++ takeThrough p (n - a.countP p) b := by
  induction a generalizing n with
  | nil =>
    cases n with
    | zero => simp
    | succ n => simp
  | cons x a ih =>
    cases n with
    | zero => simp
    | succ n =>
      rw [List.cons_append, takeThrough, takeThrough, ih, List.countP_cons]
      by_cases hx : p x = true
      · simp only [hx, if_true, Nat.add_le_add_iff_right, Nat.add_sub_add_right]
        split_ifs <;> rfl
      · simp only [hx, Bool.false_eq_true, if_false, Nat.add_zero]
        split_ifs <;> rfl

lemma takeThrough_snoc {n : ℕ} {a : List α} {x : α} (hx : p x = true) (ha : a.countP p + 1 = n) :
    takeThrough p n (a ++ [x]) = a ++ [x] := by
  rw [takeThrough_append, if_neg (by omega), show n - a.countP p = 1 by omega]
  simp [takeThrough, hx]

lemma length_flatten_of_forall {w : ℕ} {pieces : List (List α)} (h : ∀ l ∈ pieces, l.length = w) :
    pieces.flatten.length = w * pieces.length := by
  induction pieces with
  | nil => simp
  | cons l pieces ih =>
    rw [List.flatten_cons, List.length_append, h l List.mem_cons_self,
      ih fun l' hl' => h l' (List.mem_cons_of_mem _ hl'), List.length_cons, Nat.mul_succ, Nat.add_comm]

lemma last_piece {w : ℕ} {full : List (List α)} {last text : List α} (hfull : ∀ l ∈ full, l.length = w)
    (hpos : 0 < last.length) (hle : last.length ≤ w) (htext : full.flatten ++ last = text) :
    last = text.drop (w * ((text.length - 1) / w)) := by
  have hlen := length_flatten_of_forall hfull
  have hcount : (text.length - 1) / w = full.length := by
    rw [← htext, List.length_append, hlen]
    apply Nat.div_eq_of_lt_le
    · rw [Nat.mul_comm]
      omega
    · rw [Nat.succ_mul, Nat.mul_comm]
      omega
  rw [hcount, ← htext, ← hlen, List.drop_left]

lemma append_cons_inj {s : α} {a a' r r' : List α} (ha : s ∉ a) (ha' : s ∉ a')
    (h : a ++ s :: r = a' ++ s :: r') :
    a = a' ∧ r = r' := by
  induction a generalizing a' with
  | nil =>
    cases a' with
    | nil => exact ⟨rfl, by simpa using h⟩
    | cons x a' =>
      obtain ⟨rfl, -⟩ := List.cons.inj h
      exact absurd List.mem_cons_self ha'
  | cons x a ih =>
    cases a' with
    | nil =>
      obtain ⟨rfl, -⟩ := List.cons.inj h
      exact absurd List.mem_cons_self ha
    | cons x' a' =>
      obtain ⟨rfl, htail⟩ := List.cons.inj h
      obtain ⟨rfl, rfl⟩ := ih (fun hs => ha (List.mem_cons_of_mem _ hs))
        (fun hs => ha' (List.mem_cons_of_mem _ hs))
        htail
      exact ⟨rfl, rfl⟩

/-- Words of which none continues another can be read back up to an end that no word starts. -/
lemma map_eq_of_flatten_eq {β : Type*} {code : β → List α} {stop : List α}
    (hcode : ∀ b b' r r', code b ++ r = code b' ++ r' → code b = code b' ∧ r = r')
    (hstop : ∀ b r, code b ++ r ≠ stop) {l l' : List β}
    (h : (l.map code).flatten ++ stop = (l'.map code).flatten ++ stop) : l.map code = l'.map code := by
  induction l generalizing l' with
  | nil =>
    cases l' with
    | nil => rfl
    | cons b' l' =>
      simp only [List.map_nil, List.flatten_nil, List.nil_append, List.map_cons, List.flatten_cons,
        List.append_assoc] at h
      exact absurd h.symm (hstop b' _)
  | cons b l ih =>
    cases l' with
    | nil =>
      simp only [List.map_nil, List.flatten_nil, List.nil_append, List.map_cons, List.flatten_cons,
        List.append_assoc] at h
      exact absurd h (hstop b _)
    | cons b' l' =>
      simp only [List.map_cons, List.flatten_cons, List.append_assoc] at h
      obtain ⟨hhead, htail⟩ := hcode _ _ _ _ h
      rw [List.map_cons, List.map_cons, hhead, ih htail]

end Segments
