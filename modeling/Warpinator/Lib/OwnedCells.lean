import Mathlib.Data.List.Basic
import Mathlib.Logic.Function.Basic

/-! # Owned Cells

    Values in cells, and keys that refer to them: `refs k` is the cell of the
    key `k`.  References may have been copied elsewhere, so writing to a cell and
    referring to a new one are not the same.

    As long as every key has a cell of its own, whoever reads by key sees an
    assignment in both cases: `read_write`, `read_alloc`, `read_release`. -/

variable {κ β : Type}

/-- The value of a key. -/
def readCell (cells : List β) (refs : κ → Option Nat) (k : κ) : Option β :=
  (refs k).bind fun a => cells[a]?

/-- Every key refers to a cell that is there, and no two keys to the same. -/
structure Owned (cells : List β) (refs : κ → Option Nat) : Prop where
  valid : ∀ k a, refs k = some a → a < cells.length
  own : ∀ k k' a, refs k = some a → refs k' = some a → k = k'

namespace Owned

variable {cells : List β} {refs : κ → Option Nat} {k : κ} {a : Nat}

/-! ## Section 1: Through the reference -/

theorem write (h : Owned cells refs) (a : Nat) (x : β) : Owned (cells.set a x) refs where
  valid := by
    intro k' a' hk'
    rw [List.length_set]
    exact h.valid k' a' hk'
  own := h.own

theorem read_write [DecidableEq κ] (h : Owned cells refs) (hk : refs k = some a) (x : β) :
    readCell (cells.set a x) refs = Function.update (readCell cells refs) k (some x) := by
  funext k'
  by_cases hkey : k' = k
  · subst hkey
    have hlt := h.valid k' a hk
    rw [Function.update_self, readCell, hk, Option.bind_some, List.getElem?_set_self hlt]
  · rw [Function.update_of_ne hkey]
    unfold readCell
    cases hk' : refs k' with
    | none => rfl
    | some a' =>
      -- another key does not refer to the cell
      have hne : a ≠ a' := by
        intro heq
        subst heq
        exact hkey (h.own k' k a hk' hk)
      rw [Option.bind_some, Option.bind_some, List.getElem?_set_ne hne]

/-! ## Section 2: In a new cell -/

theorem alloc [DecidableEq κ] (h : Owned cells refs) (k : κ) (x : β) :
    Owned (cells ++ [x]) (Function.update refs k (some cells.length)) := by
  have hold : ∀ k' a', refs k' = some a' → a' ≠ cells.length :=
    fun k' a' hk' => Nat.ne_of_lt (h.valid k' a' hk')
  refine ⟨fun k' a' hk' => ?_, fun k' k'' a' hk' hk'' => ?_⟩
  · rw [List.length_append, List.length_singleton]
    rw [Function.update_apply] at hk'
    split at hk'
    · obtain rfl := Option.some.inj hk'
      omega
    · have hlt := h.valid k' a' hk'
      omega
  · rw [Function.update_apply] at hk' hk''
    split at hk'
    · next hkey' =>
      obtain rfl := Option.some.inj hk'
      split at hk''
      · next hkey'' => rw [hkey', hkey'']
      · exact absurd rfl (hold k'' _ hk'')
    · split at hk''
      · obtain rfl := Option.some.inj hk''
        exact absurd rfl (hold k' _ hk')
      · exact h.own k' k'' a' hk' hk''

theorem read_alloc [DecidableEq κ] (h : Owned cells refs) (k : κ) (x : β) :
    readCell (cells ++ [x]) (Function.update refs k (some cells.length))
      = Function.update (readCell cells refs) k (some x) := by
  funext k'
  by_cases hkey : k' = k
  · subst hkey
    rw [Function.update_self, readCell, Function.update_self, Option.bind_some]
    exact List.getElem?_concat_length
  · rw [Function.update_of_ne hkey]
    unfold readCell
    rw [Function.update_of_ne hkey]
    cases hk' : refs k' with
    | none => rfl
    | some a' =>
      rw [Option.bind_some, Option.bind_some, List.getElem?_append_left (h.valid k' a' hk')]

/-! ## Section 3: Without a cell -/

theorem release [DecidableEq κ] (h : Owned cells refs) (k : κ) :
    Owned cells (Function.update refs k none) := by
  have hkept : ∀ k' a', Function.update refs k none k' = some a' → refs k' = some a' := by
    intro k' a' hk'
    rw [Function.update_apply] at hk'
    split at hk'
    · cases hk'
    · exact hk'
  exact ⟨fun k' a' hk' => h.valid k' a' (hkept k' a' hk'),
    fun k' k'' a' hk' hk'' => h.own k' k'' a' (hkept k' a' hk') (hkept k'' a' hk'')⟩

theorem read_release [DecidableEq κ] (k : κ) :
    readCell cells (Function.update refs k none)
      = Function.update (readCell cells refs) k none := by
  funext k'
  by_cases hkey : k' = k
  · subst hkey
    rw [Function.update_self, readCell, Function.update_self, Option.bind_none]
  · rw [Function.update_of_ne hkey]
    unfold readCell
    rw [Function.update_of_ne hkey]

end Owned
