import Mathlib.Data.List.Basic
import Mathlib.Tactic.Common

/-!
# Writing into byte buffers

A buffer is a list; `overwrite l i bs` stores the block `bs` at index `i` and leaves the
rest of `l` alone. Reads and writes are stated at arbitrary element types, and the laws
say how consecutive writes compose and which parts of the buffer a write cannot touch.
-/

namespace Buffer

variable {α : Type*}

def slice (l : List α) (i n : ℕ) : List α := (l.drop i).take n

def overwrite (l : List α) (i : ℕ) (bs : List α) : List α :=
  l.take i ++ bs ++ l.drop (i + bs.length)

/-- Exchange the two fields of length `n` at `i` and `j`. -/
def swapFields (l : List α) (i j n : ℕ) : List α :=
  overwrite (overwrite l i (slice l j n)) j (slice l i n)

lemma length_slice {l : List α} {i n : ℕ} (h : i + n ≤ l.length) : (slice l i n).length = n := by
  simp only [slice, List.length_take, List.length_drop]
  omega

lemma slice_append_slice {l : List α} {i j m n : ℕ} (h : j = i + m) :
    slice l i m ++ slice l j n = slice l i (m + n) := by
  rw [h, slice, slice, slice, ← List.drop_drop, List.take_add]

@[simp] lemma overwrite_nil (l : List α) (i : ℕ) : overwrite l i [] = l := by
  simp [overwrite]

lemma length_overwrite {l : List α} {i : ℕ} {bs : List α} (h : i + bs.length ≤ l.length) :
    (overwrite l i bs).length = l.length := by
  simp only [overwrite, List.length_append, List.length_take, List.length_drop]
  omega

lemma overwrite_append (pre rest bs : List α) :
    overwrite (pre ++ rest) pre.length bs = pre ++ bs ++ rest.drop bs.length := by
  simp [overwrite, List.drop_append]

lemma overwrite_overwrite {l : List α} {i : ℕ} (a b : List α) (h : i ≤ l.length) :
    overwrite (overwrite l i a) (i + a.length) b = overwrite l i (a ++ b) := by
  have hlen : (l.take i ++ a).length = i + a.length := by
    simp only [List.length_append, List.length_take]
    omega
  have hstep := overwrite_append (l.take i ++ a) (l.drop (i + a.length)) b
  rw [hlen] at hstep
  change overwrite (l.take i ++ a ++ l.drop (i + a.length)) (i + a.length) b = _
  rw [hstep]
  simp [overwrite, List.drop_drop, Nat.add_assoc]

lemma overwrite_middle {pre mid post bs : List α} {i : ℕ} (h : i + bs.length ≤ mid.length) :
    overwrite (pre ++ (mid ++ post)) (pre.length + i) bs = pre ++ (overwrite mid i bs ++ post) := by
  have h1 : i - mid.length = 0 := by omega
  have h2 : i + bs.length - mid.length = 0 := by omega
  have h3 : pre.take (pre.length + i) = pre := List.take_of_length_le (by omega)
  have h4 : pre.drop (pre.length + (i + bs.length)) = [] := List.drop_of_length_le (by omega)
  simp [overwrite, List.take_append, List.drop_append, Nat.add_assoc, h1, h2, h3, h4]

lemma overwrite_field (pre old new post : List α) (h : new.length = old.length) :
    overwrite (pre ++ (old ++ post)) pre.length new = pre ++ (new ++ post) := by
  rw [overwrite_append, h, List.drop_left, List.append_assoc]

lemma slice_field (pre fld post : List α) : slice (pre ++ (fld ++ post)) pre.length fld.length = fld := by
  simp [slice]

lemma swapFields_fields (pre a mid b post : List α) (h : a.length = b.length) :
    swapFields (pre ++ (a ++ (mid ++ (b ++ post)))) pre.length (pre.length + a.length + mid.length)
      a.length = pre ++ (b ++ (mid ++ (a ++ post))) := by
  have hb : slice (pre ++ (a ++ (mid ++ (b ++ post)))) (pre.length + a.length + mid.length) a.length = b := by
    have := slice_field (pre ++ a ++ mid) b post
    simpa [h, Nat.add_assoc] using this
  have hw : overwrite (pre ++ (b ++ (mid ++ (b ++ post)))) (pre.length + a.length + mid.length) a =
      pre ++ (b ++ (mid ++ (a ++ post))) := by
    have := overwrite_field (pre ++ b ++ mid) b a post h
    simpa [h, Nat.add_assoc] using this
  rw [swapFields, hb, slice_field pre a, overwrite_field pre a b _ h.symm, hw]

lemma length_swapFields {l : List α} {i j n : ℕ} (hi : i + n ≤ l.length) (hj : j + n ≤ l.length) :
    (swapFields l i j n).length = l.length := by
  have h1 : (overwrite l i (slice l j n)).length = l.length :=
    length_overwrite (by rw [length_slice hj]; exact hi)
  unfold swapFields
  rw [length_overwrite (by rw [length_slice hi, h1]; exact hj), h1]

end Buffer
