import Mathlib.Algebra.BigOperators.Group.List.Basic
import Mathlib.Algebra.Group.Action.Defs
import Mathlib.Algebra.Order.BigOperators.Group.List
import Mathlib.Algebra.Order.Ring.Nat

/-! # Sliding Windows

    A queue that holds the last `w` elements: every element is put at the end,
    and if there are too many the first is taken off.

    * `foldl_slide`: after any number of elements the last `w` are left.
    * `exists_le_mean`, `exists_mean_le`: a mean that is rounded down lies between
      two of its numbers. -/

namespace SlidingWindow

/-! ## Section 1: The queue -/

variable {α : Type*} {w : ℕ}

def slide (w : ℕ) (xs : List α) (x : α) : List α :=
  let xs := xs ++ [x]
  if xs.length > w then xs.drop 1 else xs

theorem length_slide_le {xs : List α} (h : xs.length ≤ w) (x : α) :
    (slide w xs x).length ≤ w := by
  unfold slide
  dsimp only
  split
  · rw [List.length_drop, List.length_append, List.length_singleton]
    omega
  · next hroom => omega

theorem mem_slide {xs : List α} {x y : α} (h : y ∈ slide w xs x) : y ∈ xs ∨ y = x := by
  have hmem : y ∈ xs ++ [x] := by
    unfold slide at h
    dsimp only at h
    split at h
    · exact List.mem_of_mem_drop h
    · exact h
  rcases List.mem_append.1 hmem with hold | hnew
  · exact .inl hold
  · exact .inr (List.mem_singleton.1 hnew)

/-- The last `w` elements. -/
def last (w : ℕ) (xs : List α) : List α := xs.drop (xs.length - w)

theorem length_last (w : ℕ) (xs : List α) : (last w xs).length = min xs.length w := by
  unfold last
  rw [List.length_drop]
  omega

theorem slide_last (w : ℕ) (xs : List α) (x : α) : slide w (last w xs) x = last w (xs ++ [x]) := by
  have hlength := length_last w xs
  unfold slide
  dsimp only
  rw [List.length_append, hlength, List.length_singleton]
  unfold last
  rw [List.length_append, List.length_singleton]
  by_cases hfull : w ≤ xs.length
  -- the queue is full: the first element of the window leaves it
  · rw [if_pos (by omega), ← List.drop_append_of_le_length (by omega), List.drop_drop]
    congr 1
    omega
  · rw [if_neg (by omega), ← List.drop_append_of_le_length (by omega)]
    congr 1
    omega

theorem foldl_slide_last (w : ℕ) (seen xs : List α) :
    xs.foldl (slide w) (last w seen) = last w (seen ++ xs) := by
  induction xs generalizing seen with
  | nil => simp
  | cons x xs ih =>
    rw [List.foldl_cons, slide_last, ih, List.append_assoc, List.singleton_append]

theorem foldl_slide (w : ℕ) (xs : List α) : xs.foldl (slide w) [] = last w xs := by
  have hnil : last w ([] : List α) = [] := List.drop_nil
  have hrun := foldl_slide_last w [] xs
  rwa [hnil, List.nil_append] at hrun

theorem last_ne_nil {xs : List α} (hw : 1 ≤ w) (hxs : xs ≠ []) : last w xs ≠ [] := by
  have hpos : 0 < xs.length := List.length_pos_iff.2 hxs
  have hlength := length_last w xs
  exact List.length_pos_iff.1 (by omega)

/-! ## Section 2: The mean -/

theorem sum_le_of_length_le {xs : List ℕ} {n b : ℕ} (hn : xs.length ≤ n) (hb : ∀ x ∈ xs, x ≤ b) :
    xs.sum ≤ n * b := by
  have hsum := List.sum_le_card_nsmul xs b hb
  rw [smul_eq_mul] at hsum
  exact hsum.trans (Nat.mul_le_mul_right b hn)

theorem sum_map_const (xs : List ℕ) (n : ℕ) : (xs.map fun _ => n).sum = xs.length * n := by
  rw [List.map_const', List.sum_replicate, smul_eq_mul]

theorem exists_le_mean {xs : List ℕ} (hxs : xs ≠ []) : ∃ x ∈ xs, x ≤ xs.sum / xs.length := by
  have hpos : 0 < xs.length := List.length_pos_iff.2 hxs
  have hsum : (xs.map id).sum < (xs.map fun _ => xs.sum / xs.length + 1).sum := by
    rw [List.map_id, sum_map_const]
    exact Nat.lt_mul_div_succ xs.sum hpos
  obtain ⟨x, hx, hlt⟩ := List.exists_lt_of_sum_lt id (fun _ => xs.sum / xs.length + 1) hsum
  exact ⟨x, hx, Nat.lt_succ_iff.1 hlt⟩

theorem exists_mean_le {xs : List ℕ} (hxs : xs ≠ []) : ∃ x ∈ xs, xs.sum / xs.length ≤ x := by
  have hsum : (xs.map fun _ => xs.sum / xs.length).sum ≤ (xs.map id).sum := by
    rw [List.map_id, sum_map_const]
    exact Nat.mul_div_le xs.sum xs.length
  exact List.exists_le_of_sum_le hxs (fun _ => xs.sum / xs.length) id hsum

end SlidingWindow
