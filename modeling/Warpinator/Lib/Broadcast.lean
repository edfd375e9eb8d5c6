import Mathlib.Data.List.Basic
import Mathlib.Order.Lattice

/-! # A Bounded Broadcast Channel

    Every receiver gets every value that is sent while it listens, in the same
    order.  The channel holds `capacity` values: a receiver that falls further
    behind is told that it has lagged, and goes on with the oldest value held.

    A receiver is a cursor into the list of everything sent, so `unread` is the
    rest of that list, and `len` is what the slowest receiver has not read.

    * `unread_le_len`: no receiver has more to read than `len` says, as long as
      the channel is not full.
    * `Within d n`: no receiver is `d` values behind the position `n`.  Whatever
      the receivers do keeps that (`Within.onward`). -/

structure Broadcast (β : Type) where
  /-- The values sent to some receiver, oldest first. -/
  sent : List β
  /-- The position of the next value of each receiver; `none` when it is dropped. -/
  receivers : List (Option Nat)

namespace Broadcast

variable {β : Type} (b : Broadcast β)

/-! ## Section 1: Operations -/

def new : Broadcast β where
  sent := []
  receivers := []

/-- A value that nobody listens for is not kept. -/
def send (x : β) : Broadcast β :=
  if b.receivers.any Option.isSome then { b with sent := b.sent ++ [x] } else b

/-- A new receiver gets what is sent from now on. -/
def subscribe : Broadcast β := { b with receivers := b.receivers ++ [some b.sent.length] }

def drop (i : Nat) : Broadcast β := { b with receivers := b.receivers.set i none }

/-- The position of a receiver that listens. -/
def cursor (i : Nat) : Option Nat := b.receivers[i]?.join

def unread (i : Nat) : List β :=
  match b.cursor i with
  | some c => b.sent.drop c
  | none => []

/-- The number of values that the slowest receiver has not read, as far as they
    are held. -/
def len (capacity : Nat) : Nat :=
  min capacity ((b.receivers.filterMap id).foldr (fun c n => max (b.sent.length - c) n) 0)

inductive Received (β : Type) where
  | value (x : β)
  | lagged (missed : Nat)

/-- The next value of a receiver, or that it has lagged; `none` while there is
    nothing to read. -/
def recv (capacity i : Nat) : Option (Received β × Broadcast β) :=
  match b.cursor i with
  | none => none
  | some c =>
    if capacity < b.sent.length - c then
      let oldest := b.sent.length - capacity
      some (.lagged (oldest - c), { b with receivers := b.receivers.set i (some oldest) })
    else
      b.sent[c]?.map fun x => (.value x, { b with receivers := b.receivers.set i (some (c + 1)) })

/-! ## Section 2: Cursors -/

variable {b}

theorem cursor_eq_some {i c : Nat} : b.cursor i = some c ↔ b.receivers[i]? = some (some c) := by
  unfold cursor
  cases h : b.receivers[i]? with
  | none => simp
  | some o => simp

theorem unread_of_cursor {i c : Nat} (h : b.cursor i = some c) : b.unread i = b.sent.drop c := by
  rw [unread, h]

/-- No receiver has more to read than the length says. -/
theorem unread_le_len {i c capacity : Nat} (h : b.cursor i = some c)
    (hlen : b.len capacity < capacity) : b.sent.length - c ≤ b.len capacity := by
  have hmem : c ∈ b.receivers.filterMap id :=
    List.mem_filterMap.2 ⟨some c, List.mem_of_getElem? (cursor_eq_some.1 h), rfl⟩
  have hmax : ∀ cs : List Nat, c ∈ cs →
      b.sent.length - c ≤ cs.foldr (fun c n => max (b.sent.length - c) n) 0 := by
    intro cs hcs
    induction cs with
    | nil => cases hcs
    | cons c' cs ih =>
      rw [List.foldr_cons]
      rcases List.mem_cons.1 hcs with rfl | hcs
      · exact le_max_left _ _
      · exact (ih hcs).trans (le_max_right _ _)
  have hle := hmax _ hmem
  unfold len at hlen ⊢
  rw [min_def] at hlen ⊢
  split at hlen
  · omega
  · rw [if_neg (by assumption)]
    exact hle

/-- A step of the receivers: each of them listens from the end of what has been
    sent, or is not behind the one it was. -/
def Onward (b b' : Broadcast β) : Prop :=
  ∀ i c', b'.cursor i = some c' → c' = b.sent.length ∨ ∃ c, b.cursor i = some c ∧ c ≤ c'

theorem onward_set {i : Nat} {o : Option Nat}
    (ho : ∀ c' ∈ o, ∃ c, b.cursor i = some c ∧ c ≤ c') :
    b.Onward { b with receivers := b.receivers.set i o } := by
  intro j c' h
  right
  rw [cursor_eq_some] at h
  rw [List.getElem?_set] at h
  split at h
  · next hij =>
    subst hij
    split at h
    · obtain rfl := Option.some.inj h
      exact ho c' rfl
    · cases h
  · exact ⟨c', cursor_eq_some.2 h, Nat.le_refl c'⟩

theorem onward_drop (i : Nat) : b.Onward (b.drop i) := onward_set fun c' hc' => by cases hc'

theorem onward_subscribe : b.Onward b.subscribe := by
  intro j c' h
  rw [cursor_eq_some, subscribe, List.getElem?_append] at h
  split at h
  · exact .inr ⟨c', cursor_eq_some.2 h, Nat.le_refl c'⟩
  · left
    have hmem := List.mem_singleton.1 (List.mem_of_getElem? h)
    exact (Option.some.inj hmem)

theorem onward_recv {capacity i : Nat} {r : Received β} {b' : Broadcast β}
    (h : b.recv capacity i = some (r, b')) : b.Onward b' ∧ b'.sent = b.sent := by
  unfold recv at h
  split at h
  · cases h
  · next c hc =>
    split at h
    · obtain ⟨-, rfl⟩ := Prod.mk.inj (Option.some.inj h)
      refine ⟨onward_set fun c' hc' => ?_, rfl⟩
      obtain rfl := Option.some.inj hc'
      exact ⟨c, hc, by omega⟩
    · obtain ⟨x, _, heq⟩ := Option.map_eq_some_iff.1 h
      obtain ⟨-, rfl⟩ := Prod.mk.inj heq
      refine ⟨onward_set fun c' hc' => ?_, rfl⟩
      obtain rfl := Option.some.inj hc'
      exact ⟨c, hc, by omega⟩

/-- A value is sent behind the others, or to nobody. -/
theorem sent_append_or (b : Broadcast β) (x : β) :
    (b.send x).sent = b.sent ++ [x] ∨ (b.send x).sent = b.sent := by
  unfold send
  split
  · exact .inl rfl
  · exact .inr rfl

theorem cursor_send (x : β) (i : Nat) : (b.send x).cursor i = b.cursor i := by
  unfold send
  split <;> rfl

/-- No receiver is `d` values behind the position `n`. -/
def Within (b : Broadcast β) (d n : Nat) : Prop := ∀ i c, b.cursor i = some c → n < c + d

theorem Within.onward {b' : Broadcast β} {d n : Nat} (h : b.Within d n) (hd : 0 < d)
    (hn : n ≤ b.sent.length) (ho : b.Onward b') : b'.Within d n := by
  intro i c' hc'
  rcases ho i c' hc' with rfl | ⟨c, hc, hle⟩
  · omega
  · have hlt := h i c hc
    omega

theorem Within.send {d n : Nat} (h : b.Within d n) (x : β) : (b.send x).Within d n := by
  intro i c hc
  rw [cursor_send] at hc
  exact h i c hc

/-- What the length tells about the end of the channel. -/
theorem within_of_len {capacity d : Nat} (hlen : b.len capacity < d) (hd : d ≤ capacity) :
    b.Within d b.sent.length := by
  intro i c hc
  have hle := unread_le_len hc (Nat.lt_of_lt_of_le hlen hd)
  omega

end Broadcast
