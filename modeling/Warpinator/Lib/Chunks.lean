import Mathlib.Data.List.Basic

/-! # Chunks of a List

    `List.toChunks n` fills a chunk up to `n` elements before it begins the
    next.  The loop `List.toChunks.go` carries the chunk that is being filled and
    those that are full.

    * `toChunks_flatten`: the chunks put together are the list.
    * `length_of_mem_toChunks`: a chunk has from one to `n` elements. -/

namespace List

variable {α : Type*} {n : Nat}

/-- What the loop has collected and what it has still to read keep their order. -/
theorem toChunks_go_flatten (xs : List α) (filling : Array α) (full : Array (List α)) :
    (toChunks.go n xs filling full).flatten
      = full.toList.flatten ++ (filling.toList ++ xs) := by
  induction xs generalizing filling full with
  | nil => simp [toChunks.go]
  | cons x xs ih =>
    rw [toChunks.go]
    split
    · rw [ih]
      simp
    · rw [ih]
      simp

theorem toChunks_flatten (xs : List α) : (xs.toChunks n).flatten = xs := by
  cases xs with
  | nil => simp [toChunks]
  | cons x xs =>
    cases n with
    | zero => simp [toChunks]
    | succ n =>
      show (toChunks.go (n + 1) xs #[x] #[]).flatten = x :: xs
      rw [toChunks_go_flatten]
      rfl

/-- A chunk is begun with an element and is full with `n`. -/
theorem length_of_mem_toChunks_go (xs : List α) {filling : Array α} {full : Array (List α)}
    (hn : 0 < n) (hfilling : 0 < filling.size ∧ filling.size ≤ n)
    (hfull : ∀ c ∈ full.toList, 0 < c.length ∧ c.length ≤ n) :
    ∀ c ∈ toChunks.go n xs filling full, 0 < c.length ∧ c.length ≤ n := by
  have hpush : ∀ {filling : Array α}, 0 < filling.size ∧ filling.size ≤ n →
      ∀ {full : Array (List α)}, (∀ c ∈ full.toList, 0 < c.length ∧ c.length ≤ n) →
      ∀ c ∈ (full.push filling.toList).toList, 0 < c.length ∧ c.length ≤ n := by
    intro filling hfilling full hfull c hc
    rw [Array.toList_push] at hc
    rcases mem_append.1 hc with hc | hc
    · exact hfull c hc
    · obtain rfl := mem_singleton.1 hc
      exact hfilling
  induction xs generalizing filling full with
  | nil => exact hpush hfilling hfull
  | cons x xs ih =>
    rw [toChunks.go]
    split
    · refine ih ⟨?_, ?_⟩ (hpush hfilling hfull)
      · simp
      · exact hn
    · next hroom =>
      have hne : filling.size ≠ n := fun h => hroom (beq_iff_eq.2 h)
      refine ih ?_ hfull
      rw [Array.size_push]
      omega

theorem length_of_mem_toChunks {xs c : List α} (hn : 0 < n) (hc : c ∈ xs.toChunks n) :
    0 < c.length ∧ c.length ≤ n := by
  cases xs with
  | nil => simp [toChunks] at hc
  | cons x xs =>
    obtain ⟨n, rfl⟩ : ∃ k, n = k + 1 := ⟨n - 1, by omega⟩
    have hgo : c ∈ toChunks.go (n + 1) xs #[x] #[] := hc
    refine length_of_mem_toChunks_go xs hn ⟨?_, ?_⟩ ?_ c hgo
    · simp
    · simp
    · simp

end List
