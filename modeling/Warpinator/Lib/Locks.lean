import Mathlib.Data.List.Basic
import Mathlib.Logic.Function.Basic
import Mathlib.Logic.Relation
import Warpinator.Lib.Machine

/-! # Guards of Read-Write Locks

    Tasks that take locks and hold them for a block of code.  A guard is given
    up where its block ends, also when the function returns from inside of it or
    when the whole task is dropped.

    The tasks that wait for a lock form a queue, and only the first of them may
    get it.  What a task does otherwise is left open: it may branch, loop, and
    wait for something outside.

    * `Prog.Disciplined`: every lock ranks above those that are already held,
      and nothing is awaited under a lock of rank `r₀` or more.
    * `no_deadlock`: disciplined tasks never all wait for each other.
    * `prompt`: where a task wants or holds a lock of rank `r₀` or more, what it
      waits for in the end goes on at once.
    * `Blocked`: but behind a writer nobody gets a lock as long as the task that
      holds it stands still.
    * `exclusive`: whoever writes under a lock is alone under it. -/

namespace Locks

variable {κ : Type}

/-! ## Section 1: Programs -/

inductive Mode where
  | read
  | write
  deriving DecidableEq, Repr

/-- What a task does, as far as locks are concerned. -/
inductive Prog (κ : Type) where
  | skip
  /-- The lock is held while the body runs. -/
  | guard (lock : κ) (mode : Mode) (body : Prog κ)
  /-- Wait for something outside. -/
  | await
  | seq (p q : Prog κ)
  | either (p q : Prog κ)
  | loop (body : Prog κ)
  /-- Return from the function. -/
  | ret
  | fn (body : Prog κ)
  deriving DecidableEq

namespace Prog

def block (ps : List (Prog κ)) : Prog κ := ps.foldr .seq .skip

/-- Go on or return, as `?` does. -/
def question : Prog κ := .either .skip .ret

/-- No lock of a rank below `floor` is taken, each guard raises the floor to its
    own rank, and nothing is awaited above `r₀`. -/
def Disciplined (rank : κ → Nat) (r₀ : Nat) : Nat → Prog κ → Prop
  | _, .skip => True
  | floor, .guard lock _ body => floor ≤ rank lock ∧ body.Disciplined rank r₀ (rank lock + 1)
  | floor, .await => floor ≤ r₀
  | floor, .seq p q => p.Disciplined rank r₀ floor ∧ q.Disciplined rank r₀ floor
  | floor, .either p q => p.Disciplined rank r₀ floor ∧ q.Disciplined rank r₀ floor
  | floor, .loop body => body.Disciplined rank r₀ floor
  | _, .ret => True
  | floor, .fn body => body.Disciplined rank r₀ floor

instance decidableDisciplined (rank : κ → Nat) (r₀ : Nat) :
    (floor : Nat) → (p : Prog κ) → Decidable (p.Disciplined rank r₀ floor)
  | _, .skip => .isTrue trivial
  | floor, .guard lock _ body =>
    have := decidableDisciplined rank r₀ (rank lock + 1) body
    inferInstanceAs (Decidable (floor ≤ rank lock ∧ _))
  | floor, .await => inferInstanceAs (Decidable (floor ≤ r₀))
  | floor, .seq p q =>
    have := decidableDisciplined rank r₀ floor p
    have := decidableDisciplined rank r₀ floor q
    inferInstanceAs (Decidable (_ ∧ _))
  | floor, .either p q =>
    have := decidableDisciplined rank r₀ floor p
    have := decidableDisciplined rank r₀ floor q
    inferInstanceAs (Decidable (_ ∧ _))
  | floor, .loop body => decidableDisciplined rank r₀ floor body
  | _, .ret => .isTrue trivial
  | floor, .fn body => decidableDisciplined rank r₀ floor body

end Prog

/-! ## Section 2: Tasks -/

/-- What is left to do: programs, guards to give up, and the ends of functions. -/
inductive Frame (κ : Type) where
  | prog (p : Prog κ)
  | unlock (lock : κ) (mode : Mode)
  | leave
  deriving DecidableEq

abbrev Task (κ : Type) : Type := List (Frame κ)

namespace Task

/-- The task holds the lock. -/
def Holds (t : Task κ) (lock : κ) (mode : Mode) : Prop := .unlock lock mode ∈ t

/-- The next thing the task does is to take the lock. -/
def Wants (t : Task κ) (lock : κ) (mode : Mode) : Prop :=
  ∃ body k, t = .prog (.guard lock mode body) :: k

def Awaits (t : Task κ) : Prop := ∃ k, t = .prog .await :: k

def Uses (t : Task κ) (lock : κ) : Prop := (∃ mode, t.Wants lock mode) ∨ ∃ mode, t.Holds lock mode

/-- A step that takes no lock. -/
def advance (choice : Bool) : Task κ → Option (Task κ)
  | .prog .skip :: k => some k
  | .prog (.seq p q) :: k => some (.prog p :: .prog q :: k)
  | .prog (.either p q) :: k => some (.prog (if choice then p else q) :: k)
  | .prog (.loop body) :: k => some (if choice then .prog body :: .prog (.loop body) :: k else k)
  | .prog (.fn body) :: k => some (.prog body :: .leave :: k)
  -- a function that returns gives up its guards one by one
  | .prog .ret :: .prog _ :: k => some (.prog .ret :: k)
  | .prog .ret :: .unlock _ _ :: k => some (.prog .ret :: k)
  | .prog .ret :: .leave :: k => some k
  | .prog .ret :: [] => some []
  | .unlock _ _ :: k => some k
  | .leave :: k => some k
  | _ => none

/-- One above the rank of the last lock taken. -/
def floor (rank : κ → Nat) : Task κ → Nat
  | [] => 0
  | .unlock lock _ :: _ => rank lock + 1
  | .prog _ :: k => floor rank k
  | .leave :: k => floor rank k

def Disciplined (rank : κ → Nat) (r₀ : Nat) : Task κ → Prop
  | [] => True
  | .prog p :: k => p.Disciplined rank r₀ (floor rank k) ∧ Disciplined rank r₀ k
  | .unlock lock _ :: k => floor rank k ≤ rank lock ∧ Disciplined rank r₀ k
  | .leave :: k => Disciplined rank r₀ k

variable {rank : κ → Nat} {r₀ : Nat} {t t' : Task κ} {lock : κ} {mode : Mode}

/-- The locks held rank below the floor. -/
theorem Disciplined.rank_lt (h : t.Disciplined rank r₀) (hholds : t.Holds lock mode) :
    rank lock < t.floor rank := by
  induction t with
  | nil => cases hholds
  | cons f k ih =>
    cases f with
    | prog p =>
      have hk : Holds k lock mode := by simpa [Holds] using hholds
      exact ih h.2 hk
    | leave =>
      have hk : Holds k lock mode := by simpa [Holds] using hholds
      exact ih h hk
    | unlock lock' mode' =>
      rcases List.mem_cons.1 hholds with heq | hk
      · cases heq
        exact Nat.lt_succ_self _
      · have hbelow : rank lock < floor rank k := ih h.2 hk
        have hfloor : floor rank k ≤ rank lock' := h.1
        show rank lock < rank lock' + 1
        omega

/-- A lock that is wanted ranks above those that are held. -/
theorem Disciplined.wants (h : t.Disciplined rank r₀) (hwants : t.Wants lock mode) :
    t.floor rank ≤ rank lock := by
  obtain ⟨body, k, rfl⟩ := hwants
  exact h.1.1

theorem Disciplined.awaits (h : t.Disciplined rank r₀) (hawaits : t.Awaits) :
    t.floor rank ≤ r₀ := by
  obtain ⟨k, rfl⟩ := hawaits
  exact h.1

theorem advance_disciplined {choice : Bool} (h : t.Disciplined rank r₀)
    (hstep : t.advance choice = some t') : t'.Disciplined rank r₀ := by
  unfold advance at hstep
  split at hstep
  · cases hstep; exact h.2
  · cases hstep; exact ⟨h.1.1, h.1.2, h.2⟩
  · next p q k =>
    cases hstep
    cases choice
    · exact ⟨h.1.2, h.2⟩
    · exact ⟨h.1.1, h.2⟩
  · next body k =>
    cases hstep
    cases choice
    · exact h.2
    · exact ⟨h.1, h.1, h.2⟩
  · cases hstep; exact ⟨h.1, h.2⟩
  · cases hstep; exact ⟨trivial, h.2.2⟩
  · cases hstep; exact ⟨trivial, h.2.2⟩
  · cases hstep; exact h.2
  · cases hstep; trivial
  · cases hstep; exact h.2
  · cases hstep; exact h
  · cases hstep

/-- A step that takes no lock holds no more locks than before. -/
theorem advance_holds {choice : Bool} (hstep : t.advance choice = some t')
    (hholds : t'.Holds lock mode) : t.Holds lock mode := by
  unfold Holds at hholds ⊢
  unfold advance at hstep
  split at hstep
  · cases hstep; exact List.mem_cons_of_mem _ hholds
  · cases hstep; simpa using hholds
  · cases hstep; simpa using hholds
  · next body k =>
    cases hstep
    cases choice
    · exact List.mem_cons_of_mem _ hholds
    · simpa using hholds
  · cases hstep; simpa using hholds
  · cases hstep; simpa using hholds
  · cases hstep
    simp only [List.mem_cons, reduceCtorEq, false_or] at hholds ⊢
    exact .inr hholds
  · cases hstep; simpa using hholds
  · cases hstep; cases hholds
  · cases hstep; exact List.mem_cons_of_mem _ hholds
  · cases hstep; exact List.mem_cons_of_mem _ hholds
  · cases hstep

/-- A task goes on by itself, or takes a lock, or waits, or is done. -/
theorem advance_cases (t : Task κ) :
    t = [] ∨ (t.advance true).isSome ∨ t.Awaits ∨ ∃ lock mode, t.Wants lock mode := by
  cases t with
  | nil => exact .inl rfl
  | cons f k =>
    refine .inr ?_
    cases f with
    | prog p =>
      cases p with
      | guard lock mode body => exact .inr (.inr ⟨lock, mode, body, k, rfl⟩)
      | await => exact .inr (.inl ⟨k, rfl⟩)
      | ret =>
        left
        cases k with
        | nil => rfl
        | cons f' k' => cases f' <;> rfl
      | _ => exact .inl rfl
    | _ => exact .inl rfl

theorem exists_rank_le (rank : κ → Nat) (ts : List (Task κ)) :
    ∃ m, ∀ t ∈ ts, ∀ lock mode, t.Wants lock mode → rank lock ≤ m := by
  induction ts with
  | nil => exact ⟨0, by simp⟩
  | cons t ts ih =>
    obtain ⟨m, hm⟩ := ih
    by_cases hwants : ∃ lock mode, t.Wants lock mode
    · obtain ⟨lock, mode, hlock⟩ := hwants
      refine ⟨max m (rank lock), fun u hu lock' mode' hu' => ?_⟩
      rcases List.mem_cons.1 hu with rfl | hu
      · obtain ⟨body, k, rfl⟩ := hlock
        obtain ⟨body', k', heq⟩ := hu'
        cases heq
        exact le_max_right _ _
      · exact (hm u hu lock' mode' hu').trans (le_max_left _ _)
    · refine ⟨m, fun u hu lock mode hlock => ?_⟩
      rcases List.mem_cons.1 hu with rfl | hu
      · exact absurd ⟨lock, mode, hlock⟩ hwants
      · exact hm u hu lock mode hlock

end Task

/-! ## Section 3: Tasks that share locks -/

structure System (κ : Type) where
  tasks : List (Task κ)
  /-- The numbers of the tasks that wait for a lock, the first to come in front. -/
  queue : κ → List Nat

inductive Label (κ : Type) where
  | enter (p : Prog κ)
  | run (i : Nat) (choice : Bool)
  /-- What task `i` waits for has come. -/
  | answer (i : Nat)
  /-- Task `i` is dropped where it stands. -/
  | drop (i : Nat)

namespace System

variable {s s' : System κ} {l : Label κ} {i j : Nat} {t t' : Task κ}

/-- Nobody is in the way of a task that takes the lock. -/
def Free (s : System κ) (lock : κ) : Mode → Prop
  | .read => ∀ t ∈ s.tasks, .unlock lock .write ∉ t
  | .write => ∀ t ∈ s.tasks, ∀ mode : Mode, .unlock lock mode ∉ t

theorem Free.not_write {lock : κ} {mode : Mode} (h : s.Free lock mode) (ht : t ∈ s.tasks) :
    ¬ t.Holds lock .write := by
  cases mode with
  | read => exact h t ht
  | write => exact h t ht .write

def setTask (s : System κ) (i : Nat) (t : Task κ) : System κ :=
  { s with tasks := s.tasks.set i t }

theorem setTask_ne {t : Task κ} (h : i ≠ j) : (s.setTask i t).tasks[j]? = s.tasks[j]? :=
  List.getElem?_set_ne h

theorem getElem?_setTask {t₁ : Task κ} (h : (s.setTask i t₁).tasks[j]? = some t) :
    (i = j ∧ t = t₁) ∨ s.tasks[j]? = some t := by
  unfold setTask at h
  by_cases hij : i = j
  · subst hij
    refine .inl ⟨rfl, ?_⟩
    rw [List.getElem?_set] at h
    simp only [if_true] at h
    split at h
    · exact (Option.some.inj h).symm
    · cases h
  · rw [List.getElem?_set_ne hij] at h
    exact .inr h

variable [DecidableEq κ]

instance decidableFree (s : System κ) (lock : κ) : (mode : Mode) → Decidable (s.Free lock mode)
  | .read => inferInstanceAs (Decidable (∀ t ∈ s.tasks, _))
  | .write =>
    decidable_of_iff (∀ t ∈ s.tasks, Frame.unlock lock .read ∉ t ∧ Frame.unlock lock .write ∉ t)
      ⟨fun h t ht mode => by cases mode; exacts [(h t ht).1, (h t ht).2],
        fun h t ht => ⟨h t ht .read, h t ht .write⟩⟩

def enqueue (s : System κ) (i : Nat) (lock : κ) : System κ :=
  { s with queue := Function.update s.queue lock (s.queue lock ++ [i]) }

/-- Task `i` waits for no lock. -/
def leaveQueues (s : System κ) (i : Nat) : System κ :=
  { s with queue := fun lock => (s.queue lock).filter (· ≠ i) }

/-- Task `i` takes a lock: it lines up, and gets the lock as soon as it is the
    first one and nobody is in the way. -/
def acquire (s : System κ) (i : Nat) (lock : κ) (mode : Mode) (held : Task κ) :
    Option (System κ) :=
  if i ∈ s.queue lock then
    if (s.queue lock).head? = some i ∧ s.Free lock mode then
      some ((s.setTask i held).leaveQueues i)
    else none
  else some (s.enqueue i lock)

def step (s : System κ) : Label κ → Option (System κ)
  | .enter p => some { s with tasks := s.tasks ++ [[.prog p]] }
  | .run i choice =>
    match s.tasks[i]? with
    | some (.prog (.guard lock mode body) :: k) =>
      s.acquire i lock mode (.prog body :: .unlock lock mode :: k)
    | some t => (t.advance choice).map fun t => s.setTask i t
    | none => none
  | .answer i =>
    match s.tasks[i]? with
    | some (.prog .await :: k) => some (s.setTask i k)
    | _ => none
  | .drop i => some ((s.setTask i []).leaveQueues i)

/-- No task has started. -/
def new : System κ where
  tasks := []
  queue _ := []

/-! ## Section 4: What a step can do -/

/-- The moves of a system. -/
inductive Move (s : System κ) : Label κ → System κ → Prop
  | enter (p : Prog κ) : Move s (.enter p) { s with tasks := s.tasks ++ [[.prog p]] }
  | queued (i : Nat) (choice : Bool) (lock : κ) (mode : Mode) (t : Task κ) :
      s.tasks[i]? = some t → t.Wants lock mode → i ∉ s.queue lock →
      Move s (.run i choice) (s.enqueue i lock)
  | acquired (i : Nat) (choice : Bool) (lock : κ) (mode : Mode) (body : Prog κ) (k : Task κ) :
      s.tasks[i]? = some (.prog (.guard lock mode body) :: k) →
      (s.queue lock).head? = some i → s.Free lock mode →
      Move s (.run i choice) ((s.setTask i (.prog body :: .unlock lock mode :: k)).leaveQueues i)
  | advanced (i : Nat) (choice : Bool) (t t' : Task κ) :
      s.tasks[i]? = some t → t.advance choice = some t' →
      Move s (.run i choice) (s.setTask i t')
  | answered (i : Nat) (k : Task κ) :
      s.tasks[i]? = some (.prog .await :: k) → Move s (.answer i) (s.setTask i k)
  | dropped (i : Nat) : Move s (.drop i) ((s.setTask i []).leaveQueues i)

theorem step_move (h : s.step l = some s') : Move s l s' := by
  unfold step at h
  split at h
  · cases h
    exact .enter _
  · next i choice =>
    split at h
    · next lock mode body k ht =>
      unfold acquire at h
      split at h
      · split at h
        · next hgrant =>
          cases h
          exact .acquired i choice lock mode body k ht hgrant.1 hgrant.2
        · cases h
      · next hqueue =>
        cases h
        exact .queued i choice lock mode _ ht ⟨body, k, rfl⟩ hqueue
    · next t _ ht =>
      obtain ⟨t', hadvance, rfl⟩ := Option.map_eq_some_iff.1 h
      exact .advanced i choice t t' ht hadvance
    · cases h
  · next i =>
    split at h
    · next k ht =>
      cases h
      exact .answered i k ht
    · cases h
  · cases h
    exact .dropped _

/-- What task `j` is after a step. -/
theorem Move.tasks (h : Move s l s') (ht' : s'.tasks[j]? = some t') :
    s.tasks[j]? = some t' ∨ (∃ p, l = .enter p ∧ t' = [.prog p]) ∨ t' = [] ∨
      ∃ t, s.tasks[j]? = some t ∧
        ((∃ lock mode body k, t = .prog (.guard lock mode body) :: k ∧
            t' = .prog body :: .unlock lock mode :: k ∧
            (s.queue lock).head? = some j ∧ s.Free lock mode ∧
            ∀ i, i ≠ j → s'.tasks[i]? = s.tasks[i]?) ∨
          (∃ choice, t.advance choice = some t') ∨ t = .prog .await :: t') := by
  cases h with
  | enter p =>
    rw [List.getElem?_append] at ht'
    split at ht'
    · exact .inl ht'
    · obtain rfl := List.mem_singleton.1 (List.mem_of_getElem? ht')
      exact .inr (.inl ⟨p, rfl, rfl⟩)
  | queued => exact .inl ht'
  | acquired i _ lock mode body k ht hfirst hfree =>
    rcases getElem?_setTask (t := t') ht' with ⟨rfl, rfl⟩ | hold
    · exact .inr (.inr (.inr ⟨_, ht, .inl ⟨lock, mode, body, k, rfl, rfl, hfirst, hfree,
        fun _ hne => setTask_ne (Ne.symm hne)⟩⟩))
    · exact .inl hold
  | advanced i choice t₁ t₂ ht hadvance =>
    rcases getElem?_setTask (t := t') ht' with ⟨rfl, rfl⟩ | hold
    · exact .inr (.inr (.inr ⟨_, ht, .inr (.inl ⟨choice, hadvance⟩)⟩))
    · exact .inl hold
  | answered i k ht =>
    rcases getElem?_setTask (t := t') ht' with ⟨rfl, rfl⟩ | hold
    · exact .inr (.inr (.inr ⟨_, ht, .inr (.inr rfl)⟩))
    · exact .inl hold
  | dropped i =>
    rcases getElem?_setTask (t := t') ht' with ⟨rfl, rfl⟩ | hold
    · exact .inr (.inr (.inl rfl))
    · exact .inl hold

/-- What becomes of task `j` in a step. -/
theorem Move.task_after (h : Move s l s') (ht : s.tasks[j]? = some t) (hdrop : l ≠ .drop j) :
    s'.tasks[j]? = some t ∨ ∃ t', s'.tasks[j]? = some t' ∧
      ((∃ lock mode body k, t = .prog (.guard lock mode body) :: k ∧
          (s.queue lock).head? = some j ∧ s.Free lock mode) ∨
        (∃ choice, t.advance choice = some t') ∨ t = .prog .await :: t') := by
  have hlt := (List.getElem?_eq_some_iff.1 ht).1
  cases h with
  | enter p => exact .inl ((List.getElem?_append_left hlt).trans ht)
  | queued => exact .inl ht
  | acquired i _ lock mode body k hi hfirst hfree =>
    by_cases hij : i = j
    · subst hij
      obtain rfl := Option.some.inj (hi.symm.trans ht)
      exact .inr ⟨_, List.getElem?_set_self hlt, .inl ⟨lock, mode, body, k, rfl, hfirst, hfree⟩⟩
    · exact .inl ((List.getElem?_set_ne hij).trans ht)
  | advanced i choice t₁ t₂ hi hadvance =>
    by_cases hij : i = j
    · subst hij
      obtain rfl := Option.some.inj (hi.symm.trans ht)
      exact .inr ⟨t₂, List.getElem?_set_self hlt, .inr (.inl ⟨choice, hadvance⟩)⟩
    · exact .inl ((List.getElem?_set_ne hij).trans ht)
  | answered i k hi =>
    by_cases hij : i = j
    · subst hij
      obtain rfl := Option.some.inj (hi.symm.trans ht)
      exact .inr ⟨k, List.getElem?_set_self hlt, .inr (.inr rfl)⟩
    · exact .inl ((List.getElem?_set_ne hij).trans ht)
  | dropped i =>
    have hij : i ≠ j := by
      rintro rfl
      exact hdrop rfl
    exact .inl ((List.getElem?_set_ne hij).trans ht)

/-! ## Section 5: Writers are alone -/

/-- Whoever holds a lock to write is alone with it. -/
def Exclusive (s : System κ) : Prop :=
  ∀ (i j : Nat) (t u : Task κ) (lock : κ) (mode : Mode), s.tasks[i]? = some t →
    s.tasks[j]? = some u → i ≠ j → t.Holds lock .write → ¬ u.Holds lock mode

/-- What a task holds after a step it has held before, or it has taken it, and
    the other tasks have stood still. -/
theorem Move.holds (h : Move s l s') {lock : κ} {mode : Mode} (ht' : s'.tasks[j]? = some t')
    (hholds : t'.Holds lock mode) :
    (∃ t, s.tasks[j]? = some t ∧ t.Holds lock mode) ∨
      (s.Free lock mode ∧ ∀ i, i ≠ j → s'.tasks[i]? = s.tasks[i]?) := by
  rcases h.tasks ht' with hold | ⟨p, _, rfl⟩ | rfl | ⟨t, ht, hcase⟩
  · exact .inl ⟨t', hold, hholds⟩
  · simp [Task.Holds] at hholds
  · cases hholds
  · rcases hcase with ⟨lock', mode', body, k, rfl, rfl, _, hfree, hothers⟩ |
      ⟨choice, hadvance⟩ | rfl
    · simp only [Task.Holds, List.mem_cons, reduceCtorEq, false_or, Frame.unlock.injEq] at hholds
      rcases hholds with ⟨rfl, rfl⟩ | hk
      · exact .inr ⟨hfree, hothers⟩
      · exact .inl ⟨_, ht, List.mem_cons_of_mem _ hk⟩
    · exact .inl ⟨t, ht, Task.advance_holds hadvance hholds⟩
    · exact .inl ⟨_, ht, List.mem_cons_of_mem _ hholds⟩

theorem step_exclusive (h : s.step l = some s') (hex : s.Exclusive) : s'.Exclusive := by
  intro i j t' u' lock mode ht' hu' hne hwrite hholds
  have hmove := step_move h
  rcases hmove.holds ht' hwrite with ⟨t, ht, htholds⟩ | ⟨hfree, hothers⟩
  · rcases hmove.holds hu' hholds with ⟨u, hu, huholds⟩ | ⟨hfree, hothers⟩
    · exact hex i j t u lock mode ht hu hne htholds huholds
    · -- the second task has taken the lock, the first one still holds it
      rw [hothers i hne] at ht'
      exact hfree.not_write (List.mem_of_getElem? ht') hwrite
  · rw [hothers j (Ne.symm hne)] at hu'
    exact hfree u' (List.mem_of_getElem? hu') mode hholds

/-! ## Section 6: Disciplined tasks -/

structure Sound (rank : κ → Nat) (r₀ : Nat) (s : System κ) : Prop where
  disciplined : ∀ t ∈ s.tasks, t.Disciplined rank r₀
  waiting : ∀ lock, ∀ i ∈ s.queue lock, ∃ t mode, s.tasks[i]? = some t ∧ t.Wants lock mode

/-- Task `i` can go on at once. -/
def Runs (s : System κ) (i : Nat) : Prop := ∃ choice, (s.step (.run i choice)).isSome

variable {rank : κ → Nat} {r₀ : Nat} {lock : κ} {mode : Mode}

theorem Move.disciplined (h : Move s l s') (hentry : ∀ p, l = .enter p → p.Disciplined rank r₀ 0)
    (hs : ∀ t ∈ s.tasks, t.Disciplined rank r₀) : ∀ t ∈ s'.tasks, t.Disciplined rank r₀ := by
  intro t' ht'
  obtain ⟨j, hj⟩ := List.mem_iff_getElem?.1 ht'
  rcases h.tasks hj with hold | ⟨p, hl, rfl⟩ | rfl | ⟨t, ht, hcase⟩
  · exact hs t' (List.mem_of_getElem? hold)
  · exact ⟨hentry p hl, trivial⟩
  · trivial
  · have hdisc := hs t (List.mem_of_getElem? ht)
    rcases hcase with ⟨lock, mode, body, k, rfl, rfl, _⟩ | ⟨choice, hadvance⟩ | rfl
    · exact ⟨hdisc.1.2, hdisc.1.1, hdisc.2⟩
    · exact Task.advance_disciplined hdisc hadvance
    · exact hdisc.2

/-- A task that waits for a lock stays where it is. -/
theorem Move.waiting (h : Move s l s')
    (hs : ∀ lock, ∀ i ∈ s.queue lock, ∃ t mode, s.tasks[i]? = some t ∧ t.Wants lock mode) :
    ∀ lock, ∀ i ∈ s'.queue lock, ∃ t mode, s'.tasks[i]? = some t ∧ t.Wants lock mode := by
  intro lock j hj
  cases h with
  | enter p =>
    obtain ⟨t, mode, ht, hwants⟩ := hs lock j hj
    refine ⟨t, mode, ?_, hwants⟩
    rw [List.getElem?_append_left (List.getElem?_eq_some_iff.1 ht).1]
    exact ht
  | queued i _ lock' mode t ht hwants _ =>
    by_cases hlock : lock = lock'
    · subst hlock
      have hmem : j ∈ s.queue lock ∨ j = i := by simpa [enqueue] using hj
      rcases hmem with hmem | rfl
      · exact hs lock j hmem
      · exact ⟨t, mode, ht, hwants⟩
    · exact hs lock j (by simpa [enqueue, hlock] using hj)
  | acquired i _ _ _ _ _ _ _ _ =>
    have hmem : j ∈ s.queue lock ∧ j ≠ i := by simpa [leaveQueues, setTask] using hj
    obtain ⟨t, mode, ht, hwants⟩ := hs lock j hmem.1
    exact ⟨t, mode, (setTask_ne (Ne.symm hmem.2)).trans ht, hwants⟩
  | advanced i choice t₁ t₂ ht₁ hadvance =>
    obtain ⟨t, mode, ht, hwants⟩ := hs lock j hj
    refine ⟨t, mode, (setTask_ne fun hij => ?_).trans ht, hwants⟩
    subst hij
    obtain rfl := Option.some.inj (ht₁.symm.trans ht)
    obtain ⟨body, k, rfl⟩ := hwants
    cases hadvance
  | answered i k hk =>
    obtain ⟨t, mode, ht, hwants⟩ := hs lock j hj
    refine ⟨t, mode, (setTask_ne fun hij => ?_).trans ht, hwants⟩
    subst hij
    obtain rfl := Option.some.inj (hk.symm.trans ht)
    obtain ⟨body, k', heq⟩ := hwants
    cases heq
  | dropped i =>
    have hmem : j ∈ s.queue lock ∧ j ≠ i := by simpa [leaveQueues, setTask] using hj
    obtain ⟨t, mode, ht, hwants⟩ := hs lock j hmem.1
    exact ⟨t, mode, (setTask_ne (Ne.symm hmem.2)).trans ht, hwants⟩

theorem step_sound (h : s.step l = some s') (hentry : ∀ p, l = .enter p → p.Disciplined rank r₀ 0)
    (hs : s.Sound rank r₀) : s'.Sound rank r₀ where
  disciplined := (step_move h).disciplined hentry hs.disciplined
  waiting := (step_move h).waiting hs.waiting

/-! ## Section 7: Progress -/

theorem runs_of_advance (ht : s.tasks[i]? = some t) (h : (t.advance true).isSome) : s.Runs i := by
  refine ⟨true, ?_⟩
  unfold step
  dsimp only
  rw [ht]
  split
  · next heq =>
    cases heq
    cases h
  · next heq =>
    cases heq
    rw [Option.isSome_map]
    exact h
  · next heq => cases heq

theorem runs_of_unqueued (ht : s.tasks[i]? = some t) (hwants : t.Wants lock mode)
    (hqueue : i ∉ s.queue lock) : s.Runs i := by
  obtain ⟨body, k, rfl⟩ := hwants
  exact ⟨true, by simp [step, ht, acquire, hqueue]⟩

theorem runs_of_first (ht : s.tasks[i]? = some t) (hwants : t.Wants lock mode)
    (hfirst : (s.queue lock).head? = some i) (hfree : s.Free lock mode) : s.Runs i := by
  obtain ⟨body, k, rfl⟩ := hwants
  have hmem : i ∈ s.queue lock := List.mem_of_head? hfirst
  exact ⟨true, by simp [step, ht, acquire, hmem, hfirst, hfree]⟩

/-- Task `i` waits for a lock that `j` gets first or holds. -/
def WaitsFor (s : System κ) (i j : Nat) : Prop :=
  ∃ lock, i ∈ s.queue lock ∧ ((s.queue lock).head? = some j ∨
    ∃ u mode, s.tasks[j]? = some u ∧ u.Holds lock mode)

/-- Task `j` is what task `i` waits for in the end. -/
def LeadsTo (s : System κ) (i j : Nat) : Prop := Relation.ReflTransGen s.WaitsFor i j

/-- What a task waits for in the end goes on at once, or waits for something
    outside under the same lock or a higher one. -/
theorem Sound.leadsTo_of_le (hs : s.Sound rank r₀) {m : Nat}
    (hm : ∀ t ∈ s.tasks, ∀ lock mode, t.Wants lock mode → rank lock ≤ m) (n : Nat)
    (hn : m < rank lock + n) (hi : i ∈ s.queue lock) :
    ∃ j u, s.tasks[j]? = some u ∧ s.LeadsTo i j ∧
      (s.Runs j ∨ (u.Awaits ∧ ((∃ mode, u.Holds lock mode) ∨ rank lock + 1 < u.floor rank))) := by
  induction n generalizing i lock with
  | zero =>
    obtain ⟨t, mode, ht, hwants⟩ := hs.waiting lock i hi
    have hle := hm t (List.mem_of_getElem? ht) lock mode hwants
    omega
  | succ n ih =>
    obtain ⟨first, hfirst⟩ : ∃ first, (s.queue lock).head? = some first := by
      cases hq : s.queue lock with
      | nil => rw [hq] at hi; cases hi
      | cons first rest => exact ⟨first, rfl⟩
    obtain ⟨t, mode, ht, hwants⟩ := hs.waiting lock first (List.mem_of_head? hfirst)
    by_cases hfree : s.Free lock mode
    · exact ⟨first, t, ht, .single ⟨lock, hi, .inl hfirst⟩,
        .inl (runs_of_first ht hwants hfirst hfree)⟩
    · -- the lock is held by a task that does not wait for this one
      obtain ⟨u, hu, mode', hholds⟩ : ∃ u ∈ s.tasks, ∃ mode', u.Holds lock mode' := by
        by_contra hnone
        push Not at hnone
        apply hfree
        cases mode with
        | read => exact fun u hu => hnone u hu .write
        | write => exact fun u hu mode' => hnone u hu mode'
      obtain ⟨j, hj⟩ := List.mem_iff_getElem?.1 hu
      have hwaits : s.WaitsFor i j := ⟨lock, hi, .inr ⟨u, mode', hj, hholds⟩⟩
      have hbelow := (hs.disciplined u hu).rank_lt hholds
      rcases u.advance_cases with rfl | hadvance | hawaits | ⟨lock', mode'', hwants'⟩
      · cases hholds
      · exact ⟨j, u, hj, .single hwaits, .inl (runs_of_advance hj hadvance)⟩
      · exact ⟨j, u, hj, .single hwaits, .inr ⟨hawaits, .inl ⟨mode', hholds⟩⟩⟩
      · have habove := (hs.disciplined u hu).wants hwants'
        by_cases hqueue : j ∈ s.queue lock'
        · obtain ⟨k, v, hk, hleads, hcase⟩ := ih (by omega) hqueue
          refine ⟨k, v, hk, .head hwaits hleads, hcase.imp id fun h => ⟨h.1, .inr ?_⟩⟩
          rcases h.2 with ⟨mode₁, hholds'⟩ | hbelow'
          · have := (hs.disciplined v (List.mem_of_getElem? hk)).rank_lt hholds'
            omega
          · omega
        · exact ⟨j, u, hj, .single hwaits, .inl (runs_of_unqueued hj hwants' hqueue)⟩

theorem Sound.leadsTo (hs : s.Sound rank r₀) (hi : i ∈ s.queue lock) :
    ∃ j u, s.tasks[j]? = some u ∧ s.LeadsTo i j ∧
      (s.Runs j ∨ (u.Awaits ∧ ((∃ mode, u.Holds lock mode) ∨ rank lock + 1 < u.floor rank))) := by
  obtain ⟨m, hm⟩ := Task.exists_rank_le rank s.tasks
  exact hs.leadsTo_of_le hm (m + 1) (by omega) hi

/-- What a task that is not done waits for in the end goes on at once, or waits
    for something outside. -/
theorem Sound.no_deadlock (hs : s.Sound rank r₀) (hi : s.tasks[i]? = some t) (hdone : t ≠ []) :
    ∃ j u, s.tasks[j]? = some u ∧ s.LeadsTo i j ∧ (s.Runs j ∨ u.Awaits) := by
  rcases t.advance_cases with rfl | hadvance | hawaits | ⟨lock, mode, hwants⟩
  · exact absurd rfl hdone
  · exact ⟨i, t, hi, .refl, .inl (runs_of_advance hi hadvance)⟩
  · exact ⟨i, t, hi, .refl, .inr hawaits⟩
  · by_cases hqueue : i ∈ s.queue lock
    · obtain ⟨j, u, hj, hleads, hcase⟩ := hs.leadsTo hqueue
      exact ⟨j, u, hj, hleads, hcase.imp id And.left⟩
    · exact ⟨i, t, hi, .refl, .inl (runs_of_unqueued hi hwants hqueue)⟩

/-- A task that waits for a lock of the last rank below `r₀` waits in the end for
    one that goes on at once, or for one that waits for something outside under
    the same lock. -/
theorem Sound.held_up (hs : s.Sound rank r₀) (hrank : rank lock + 1 = r₀)
    (hi : i ∈ s.queue lock) :
    ∃ j u, s.tasks[j]? = some u ∧ s.LeadsTo i j ∧
      (s.Runs j ∨ (u.Awaits ∧ ∃ mode, u.Holds lock mode)) := by
  obtain ⟨j, u, hj, hleads, hruns | ⟨hawaits, hcase⟩⟩ := hs.leadsTo hi
  · exact ⟨j, u, hj, hleads, .inl hruns⟩
  · have hfloor := (hs.disciplined u (List.mem_of_getElem? hj)).awaits hawaits
    rcases hcase with hholds | hbelow
    · exact ⟨j, u, hj, hleads, .inr ⟨hawaits, hholds⟩⟩
    · omega

/-- What a task waits for in the end that wants or holds a lock of rank `r₀` or
    more goes on at once. -/
theorem Sound.prompt (hs : s.Sound rank r₀) (hi : s.tasks[i]? = some t) (huses : t.Uses lock)
    (hrank : r₀ ≤ rank lock) : ∃ j, s.LeadsTo i j ∧ s.Runs j := by
  -- a task that waits for a lock of such a rank
  have hqueued : ∀ lock, r₀ ≤ rank lock → i ∈ s.queue lock → ∃ j, s.LeadsTo i j ∧ s.Runs j := by
    intro lock hrank hqueue
    obtain ⟨j, u, hj, hleads, hruns | ⟨hawaits, hcase⟩⟩ := hs.leadsTo hqueue
    · exact ⟨j, hleads, hruns⟩
    · have hdisc := hs.disciplined u (List.mem_of_getElem? hj)
      have hfloor := hdisc.awaits hawaits
      rcases hcase with ⟨mode, hholds⟩ | hbelow
      · have := hdisc.rank_lt hholds
        omega
      · omega
  have hdisc := hs.disciplined t (List.mem_of_getElem? hi)
  rcases huses with ⟨mode, hwants⟩ | ⟨mode, hholds⟩
  · by_cases hqueue : i ∈ s.queue lock
    · exact hqueued lock hrank hqueue
    · exact ⟨i, .refl, runs_of_unqueued hi hwants hqueue⟩
  · have hbelow := hdisc.rank_lt hholds
    rcases t.advance_cases with rfl | hadvance | hawaits | ⟨lock', mode', hwants⟩
    · cases hholds
    · exact ⟨i, .refl, runs_of_advance hi hadvance⟩
    · have := hdisc.awaits hawaits
      omega
    · have habove := hdisc.wants hwants
      by_cases hqueue : i ∈ s.queue lock'
      · exact hqueued lock' (by omega) hqueue
      · exact ⟨i, .refl, runs_of_unqueued hi hwants hqueue⟩

/-! ## Section 8: Blocked locks -/

/-- Task `j` waits for something outside while it holds the lock, and task `i` is
    the first in the queue and wants to write. -/
structure Blocked (s : System κ) (lock : κ) (i j : Nat) : Prop where
  holder : ∃ u mode, s.tasks[j]? = some u ∧ u.Awaits ∧ u.Holds lock mode
  writer : ∃ t, s.tasks[i]? = some t ∧ t.Wants lock .write
  first : (s.queue lock).head? = some i

omit [DecidableEq κ] in
theorem Blocked.not_free (hb : s.Blocked lock i j) : ¬ s.Free lock .write := by
  obtain ⟨u, mode, hu, _, hholds⟩ := hb.holder
  exact fun hfree => hfree u (List.mem_of_getElem? hu) mode hholds

omit [DecidableEq κ] in
/-- The task that gets a lock does not get a blocked one. -/
theorem Blocked.ne_of_first {k : Nat} {body : Prog κ} {rest : Task κ} {lock' : κ}
    (hb : s.Blocked lock i j) (hk : s.tasks[k]? = some (.prog (.guard lock' mode body) :: rest))
    (hfirst : (s.queue lock').head? = some k) (hfree : s.Free lock' mode) :
    lock' ≠ lock ∧ k ≠ i := by
  obtain ⟨t, ht, body', rest', rfl⟩ := hb.writer
  have hne : k ≠ i := by
    rintro rfl
    cases hk.symm.trans ht
    exact hb.not_free hfree
  refine ⟨?_, hne⟩
  rintro rfl
  exact hne (Option.some.inj (hfirst.symm.trans hb.first))

theorem head?_filter_ne {queue : List Nat} {k : Nat} (hhead : queue.head? = some i) (hne : k ≠ i) :
    (queue.filter (· ≠ k)).head? = some i := by
  cases queue with
  | nil => cases hhead
  | cons first rest =>
    obtain rfl := Option.some.inj hhead
    rw [List.filter_cons_of_pos (by simpa using Ne.symm hne)]
    rfl

theorem Move.blocked (h : Move s l s') (hb : s.Blocked lock i j) (hanswer : l ≠ .answer j)
    (hdropj : l ≠ .drop j) (hdropi : l ≠ .drop i) : s'.Blocked lock i j := by
  obtain ⟨u, mode, hu, hawaits, hholds⟩ := hb.holder
  obtain ⟨t, ht, hwants⟩ := hb.writer
  -- what is left to show for a step of another task
  have hset : ∀ (k : Nat) (v : Task κ), k ≠ i → k ≠ j → ∀ queue : κ → List Nat,
      (queue lock).head? = some i →
      ({ s with tasks := s.tasks.set k v, queue := queue } : System κ).Blocked lock i j :=
    fun k v hki hkj queue hqueue =>
      ⟨⟨u, mode, (List.getElem?_set_ne hkj).trans hu, hawaits, hholds⟩,
        ⟨t, (List.getElem?_set_ne hki).trans ht, hwants⟩, hqueue⟩
  cases h with
  | enter p =>
    refine ⟨⟨u, mode, ?_, hawaits, hholds⟩, ⟨t, ?_, hwants⟩, hb.first⟩
    · exact (List.getElem?_append_left (List.getElem?_eq_some_iff.1 hu).1).trans hu
    · exact (List.getElem?_append_left (List.getElem?_eq_some_iff.1 ht).1).trans ht
  | queued k _ lock' _ _ _ _ _ =>
    refine ⟨⟨u, mode, hu, hawaits, hholds⟩, ⟨t, ht, hwants⟩, ?_⟩
    by_cases hlock : lock = lock'
    · subst hlock
      simp [enqueue, hb.first]
    · simp [enqueue, hlock, hb.first]
  | acquired k _ lock' mode' body rest hk hfirst hfree =>
    have hne := (hb.ne_of_first hk hfirst hfree).2
    refine hset k _ hne ?_ _ (head?_filter_ne hb.first hne)
    rintro rfl
    obtain ⟨rest', rfl⟩ := hawaits
    cases hk.symm.trans hu
  | advanced k choice v v' hv hadvance =>
    refine hset k v' ?_ ?_ _ hb.first
    · rintro rfl
      obtain ⟨body, rest, rfl⟩ := hwants
      cases hv.symm.trans ht
      cases hadvance
    · rintro rfl
      obtain ⟨rest, rfl⟩ := hawaits
      cases hv.symm.trans hu
      cases hadvance
  | answered k rest hk =>
    refine hset k rest ?_ ?_ _ hb.first
    · rintro rfl
      obtain ⟨body, rest', rfl⟩ := hwants
      cases hk.symm.trans ht
    · rintro rfl
      exact hanswer rfl
  | dropped k =>
    have hki : k ≠ i := by
      rintro rfl
      exact hdropi rfl
    have hkj : k ≠ j := by
      rintro rfl
      exact hdropj rfl
    exact hset k [] hki hkj _ (head?_filter_ne hb.first hki)

end System

/-- The machine of a system of tasks. -/
def system (κ : Type) [DecidableEq κ] : Machine (System κ) (Label κ) where
  step := System.step

/-- Disciplined programs keep the invariant. -/
theorem sound_of_disciplined [DecidableEq κ] {rank : κ → Nat} {r₀ : Nat} {ls : List (Label κ)}
    {s : System κ} (hentry : ∀ p, .enter p ∈ ls → p.Disciplined rank r₀ 0)
    (hrun : (system κ).exec .new ls = some s) : s.Sound rank r₀ := by
  have hC : (system κ).Along (fun _ l => ∀ p, l = .enter p → p.Disciplined rank r₀ 0) .new ls :=
    (system κ).along_of_forall (fun l hl _ p (heq : l = .enter p) => hentry p (heq ▸ hl)) .new
  refine (system κ).exec_invariant_along (fun _ _ _ hentry hs h => System.step_sound h hentry hs)
    ⟨?_, ?_⟩ hC hrun
  · intro t ht
    cases ht
  · intro lock i hi
    cases hi

/-- Whoever writes under a lock is alone under it. -/
theorem exclusive [DecidableEq κ] {ls : List (Label κ)} {s : System κ}
    (hrun : (system κ).exec .new ls = some s) : s.Exclusive :=
  (system κ).exec_invariant (fun _ _ _ hex h => System.step_exclusive h hex)
    (fun i j t u lock mode ht => by simp [System.new] at ht) hrun

end Locks
