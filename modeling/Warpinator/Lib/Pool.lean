import Mathlib.Data.List.Basic
import Warpinator.Lib.Machine

/-! # Interleaved Tasks

    Tasks that share a state and advance one step at a time, in any order.  A
    step may spawn further tasks; new tasks may enter and the surroundings may
    change the shared state at any time.

    * `Pool` is an open collection of tasks of one type.
    * `Duo` is the closed case of two tasks of different types.
    * `solo` is one task without interference.

    The rules reduce a run of a pool to the steps of its tasks: `forall_run`
    for what holds of every task, `countP_run` for how many tasks have a
    property, `origin_of_mem` for where a task comes from. -/

/-! ## Section 1: Pools -/

structure Pool (σ τ : Type) where
  shared : σ
  tasks : List τ

inductive PoolLabel (τ α ε : Type) where
  /-- Task `i` advances. -/
  | run (i : Nat) (a : α)
  | enter (t : τ)
  | env (e : ε)

/-- How tasks advance, which tasks may enter and what the surroundings do. -/
structure Tasking (σ τ α ε : Type) where
  step : σ → τ → α → Option (σ × τ × List τ)
  mayEnter : τ → Bool
  env : σ → ε → σ

namespace Tasking

variable {σ τ α ε : Type} (m : Tasking σ τ α ε)

def poolStep (p : Pool σ τ) : PoolLabel τ α ε → Option (Pool σ τ)
  | .run i a =>
    p.tasks[i]?.bind fun t => (m.step p.shared t a).map fun (shared, t, spawned) =>
      { shared := shared, tasks := p.tasks.set i t ++ spawned }
  | .enter t => if m.mayEnter t then some { p with tasks := p.tasks ++ [t] } else none
  | .env e => some { p with shared := m.env p.shared e }

def pool : Machine (Pool σ τ) (PoolLabel τ α ε) where
  step := m.poolStep

variable {m} {p p' : Pool σ τ}

theorem run_cases {i : Nat} {a : α} (h : m.poolStep p (.run i a) = some p') :
    ∃ t shared t' spawned, p.tasks[i]? = some t ∧
      m.step p.shared t a = some (shared, t', spawned) ∧
      p' = { shared := shared, tasks := p.tasks.set i t' ++ spawned } := by
  obtain ⟨t, ht, h⟩ := Option.bind_eq_some_iff.1 h
  obtain ⟨⟨shared, t', spawned⟩, hstep, heq⟩ := Option.map_eq_some_iff.1 h
  exact ⟨t, shared, t', spawned, ht, hstep, heq.symm⟩

theorem enter_cases {t : τ} (h : m.poolStep p (.enter t) = some p') :
    m.mayEnter t = true ∧ p' = { p with tasks := p.tasks ++ [t] } := by
  simp only [poolStep] at h
  split at h
  · next hmay => exact ⟨hmay, (Option.some.inj h).symm⟩
  · cases h

/-! ## Section 2: Rules for a step -/

theorem set_eq {ts : List τ} {i : Nat} {t : τ} (h : ts[i]? = some t) (t' : τ) :
    ∃ before after, ts = before ++ t :: after ∧ ts.set i t' = before ++ t' :: after := by
  obtain ⟨hi, rfl⟩ := List.getElem?_eq_some_iff.1 h
  refine ⟨ts.take i, ts.drop (i + 1), ?_, List.set_eq_take_append_cons_drop.trans (if_pos hi)⟩
  rw [List.getElem_cons_drop, List.take_append_drop]

/-- What holds of every task: the task that runs establishes it for itself and
    for what it spawns, and keeps it for the others. -/
theorem forall_run {P Q : τ → Prop} {ts spawned : List τ} {i : Nat} {t' : τ}
    (hall : ∀ u ∈ ts, P u) (hother : ∀ u, P u → Q u) (hself : Q t')
    (hspawned : ∀ u ∈ spawned, Q u) : ∀ u ∈ ts.set i t' ++ spawned, Q u := by
  intro u hu
  rcases List.mem_append.1 hu with hu | hu
  · rcases List.mem_or_eq_of_mem_set hu with hu | rfl
    · exact hother u (hall u hu)
    · exact hself
  · exact hspawned u hu

/-- The task that runs is replaced in a count. -/
theorem countP_run {ts : List τ} {i : Nat} {t : τ} (q : τ → Bool) (h : ts[i]? = some t) (t' : τ)
    (spawned : List τ) :
    (ts.set i t' ++ spawned).countP q + [t].countP q = ts.countP q + (t' :: spawned).countP q := by
  obtain ⟨before, after, hts, hset⟩ := set_eq h t'
  rw [hset, hts]
  simp only [List.countP_append, List.countP_cons, List.countP_nil]
  omega

/-- Where at most one task counts and the one at `i` does, no other one counts. -/
theorem not_of_mem_eraseIdx {ts : List τ} {i : Nat} {t : τ} {q : τ → Bool}
    (honce : ts.countP q ≤ 1) (h : ts[i]? = some t) (ht : q t = true) {u : τ}
    (hu : u ∈ ts.eraseIdx i) : q u = false := by
  obtain ⟨hi, rfl⟩ := List.getElem?_eq_some_iff.1 h
  rw [← List.take_append_drop i ts, ← List.getElem_cons_drop hi, List.countP_append,
    List.countP_cons_of_pos ht] at honce
  have hrest : (ts.eraseIdx i).countP q = 0 := by
    rw [List.eraseIdx_eq_take_drop_succ, List.countP_append]
    omega
  simpa using List.countP_eq_zero.1 hrest u hu

/-! ### Where the tasks stand -/

section positions

variable {ts spawned : List τ} {i n : Nat} {t' u : τ}

theorem getElem?_run_self {t : τ} (h : ts[i]? = some t) (t' : τ) (spawned : List τ) :
    (ts.set i t' ++ spawned)[i]? = some t' := by
  have hi := (List.getElem?_eq_some_iff.1 h).1
  rw [List.getElem?_append_left (by rwa [List.length_set]), List.getElem?_set_self hi]

theorem getElem?_run_of_ne (h : ts[n]? = some u) (hne : n ≠ i) (t' : τ) (spawned : List τ) :
    (ts.set i t' ++ spawned)[n]? = some u := by
  have hn := (List.getElem?_eq_some_iff.1 h).1
  rw [List.getElem?_append_left (by rwa [List.length_set]), List.getElem?_set_ne (Ne.symm hne)]
  exact h

/-- The task at a place has run, has been there before, or stands behind all
    others because it has been spawned. -/
theorem getElem?_run_places {t : τ} (hi : ts[i]? = some t)
    (h : (ts.set i t' ++ spawned)[n]? = some u) :
    (n = i ∧ u = t') ∨ (n ≠ i ∧ ts[n]? = some u) ∨ (ts.length ≤ n ∧ u ∈ spawned) := by
  by_cases hne : n = i
  · subst hne
    rw [getElem?_run_self hi] at h
    exact .inl ⟨rfl, (Option.some.inj h).symm⟩
  · rw [List.getElem?_append, List.length_set] at h
    split at h
    · rw [List.getElem?_set_ne (Ne.symm hne)] at h
      exact .inr (.inl ⟨hne, h⟩)
    · exact .inr (.inr ⟨by omega, List.mem_of_getElem? h⟩)

/-- The task at a place has run, has been there before, or has been spawned. -/
theorem getElem?_run_cases {t : τ} (hi : ts[i]? = some t)
    (h : (ts.set i t' ++ spawned)[n]? = some u) :
    (n = i ∧ u = t') ∨ (n ≠ i ∧ ts[n]? = some u) ∨ u ∈ spawned := by
  rcases getElem?_run_places hi h with hself | hother | ⟨_, hspawned⟩
  · exact .inl hself
  · exact .inr (.inl hother)
  · exact .inr (.inr hspawned)

theorem getElem?_enter_of_some (h : ts[n]? = some u) (t : τ) : (ts ++ [t])[n]? = some u := by
  rw [List.getElem?_append_left (List.getElem?_eq_some_iff.1 h).1, h]

/-- The task at a place was there before, or is the one that has entered. -/
theorem getElem?_enter_cases {t : τ} (h : (ts ++ [t])[n]? = some u) :
    ts[n]? = some u ∨ (n = ts.length ∧ u = t) := by
  rw [List.getElem?_append] at h
  split at h
  · exact .inl h
  · next hn =>
    obtain ⟨hlt, heq⟩ := List.getElem?_eq_some_iff.1 h
    have hzero : n - ts.length = 0 := by simpa using hlt
    refine .inr ⟨by omega, ?_⟩
    rw [← heq]
    simp [hzero]

end positions

/-- Where a task after a step comes from. -/
inductive Origin (m : Tasking σ τ α ε) (p : Pool σ τ) (l : PoolLabel τ α ε) (p' : Pool σ τ)
    (u : τ) : Prop
  /-- It was there before, and is not the task that has run. -/
  | kept : u ∈ p.tasks → (∀ i a, l = .run i a → u ∈ p.tasks.eraseIdx i) → Origin m p l p' u
  | made (i : Nat) (a : α) (t t' : τ) (spawned : List τ) : l = .run i a → p.tasks[i]? = some t →
      m.step p.shared t a = some (p'.shared, t', spawned) → u ∈ t' :: spawned → Origin m p l p' u
  | entered : l = .enter u → m.mayEnter u = true → Origin m p l p' u

theorem origin_of_mem {l : PoolLabel τ α ε} (h : m.poolStep p l = some p') {u : τ}
    (hu : u ∈ p'.tasks) : Origin m p l p' u := by
  cases l with
  | run i a =>
    obtain ⟨t, shared, t', spawned, ht, hstep, rfl⟩ := run_cases h
    -- the task that has run, an old one, or a spawned one
    rcases List.mem_append.1 hu with hset | hspawned
    · obtain ⟨n, hn⟩ := List.mem_iff_getElem?.1 hset
      by_cases hi : i = n
      · subst hi
        rw [List.getElem?_set_self (List.getElem?_eq_some_iff.1 ht).1] at hn
        exact .made i a t t' spawned rfl ht hstep (Option.some.inj hn ▸ List.mem_cons_self)
      · rw [List.getElem?_set_ne hi] at hn
        refine .kept (List.mem_of_getElem? hn) fun i' a' hl => ?_
        cases hl
        exact List.mem_eraseIdx_iff_getElem?.2 ⟨n, Ne.symm hi, hn⟩
    · exact .made i a t t' spawned rfl ht hstep (List.mem_cons_of_mem _ hspawned)
  | enter t =>
    obtain ⟨hmay, rfl⟩ := enter_cases h
    rcases List.mem_append.1 hu with hold | hself
    · exact .kept hold fun i a hl => by cases hl
    · obtain rfl := List.mem_singleton.1 hself
      exact .entered rfl hmay
  | env e =>
    cases h
    exact .kept hu fun i a hl => by cases hl

end Tasking

/-! ## Section 3: Two tasks -/

structure Duo (σ τ₁ τ₂ : Type) where
  shared : σ
  left : τ₁
  right : τ₂

inductive DuoLabel (α ε : Type) where
  | left (a : α)
  | right (a : α)
  | env (e : ε)

/-- Two tasks, each advancing on its own. -/
def duo {σ τ₁ τ₂ α ε : Type} (step₁ : σ → τ₁ → α → Option (σ × τ₁))
    (step₂ : σ → τ₂ → α → Option (σ × τ₂)) (env : σ → ε → σ) :
    Machine (Duo σ τ₁ τ₂) (DuoLabel α ε) where
  step d
    | .left a => (step₁ d.shared d.left a).map fun (shared, t) =>
        { d with shared := shared, left := t }
    | .right a => (step₂ d.shared d.right a).map fun (shared, t) =>
        { d with shared := shared, right := t }
    | .env e => some { d with shared := env d.shared e }

/-- The steps of two tasks. -/
theorem duo_cases {σ τ₁ τ₂ α ε : Type} {step₁ : σ → τ₁ → α → Option (σ × τ₁)}
    {step₂ : σ → τ₂ → α → Option (σ × τ₂)} {env : σ → ε → σ} {d d' : Duo σ τ₁ τ₂}
    {l : DuoLabel α ε} (h : (duo step₁ step₂ env).step d l = some d') :
    (∃ a, l = .left a ∧ step₁ d.shared d.left a = some (d'.shared, d'.left) ∧
      d'.right = d.right) ∨
    (∃ a, l = .right a ∧ step₂ d.shared d.right a = some (d'.shared, d'.right) ∧
      d'.left = d.left) ∨
    ∃ e, l = .env e ∧ d' = { d with shared := env d.shared e } := by
  cases l with
  | left a =>
    obtain ⟨⟨shared, t⟩, hstep, rfl⟩ := Option.map_eq_some_iff.1 h
    exact .inl ⟨a, rfl, hstep, rfl⟩
  | right a =>
    obtain ⟨⟨shared, t⟩, hstep, rfl⟩ := Option.map_eq_some_iff.1 h
    exact .inr (.inl ⟨a, rfl, hstep, rfl⟩)
  | env e => exact .inr (.inr ⟨e, rfl, (Option.some.inj h).symm⟩)

/-! ## Section 4: One task -/

/-- A task on its own. -/
def solo {σ τ α : Type} (step : σ → τ → α → Option (σ × τ)) : Machine (σ × τ) α where
  step st a := step st.1 st.2 a

@[simp] theorem solo_step {σ τ α : Type} (step : σ → τ → α → Option (σ × τ)) (s : σ) (t : τ)
    (a : α) : (solo step).step (s, t) a = step s t a := rfl
