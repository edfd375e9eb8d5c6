import Mathlib.Data.List.Infix

/-! # Transition Machines

    A machine is a partial step function: the label of a step carries every
    choice the step leaves open, so a run is a list of labels and can be
    evaluated.

    * `exec` runs a list of labels.
    * `Along C` says that every step of a run satisfies `C` in the state it
      finds.
    * `exec_invariant` and `exec_invariant_along` are the induction rules: what
      one step keeps, a run keeps.
    * `exec_log_le` bounds what a run appends to a log by a budget.
    * `along_of_invariant` gives a condition that an invariant implies.
    * `along_congr_invariant` exchanges conditions that agree under an invariant.
    * `exists_first_bad` finds the first step of a run that breaks `C`.
    * `count p` is the number of steps that satisfy `p`, which a measure gives by
      `count_of_measure`, or bounds by `count_le_of_measure`.
    * `Always P` says that every state of a run has the property `P`, and
      `always_iff_along` when that is a condition on the steps. -/

structure Machine (σ Λ : Type) where
  step : σ → Λ → Option σ

namespace Machine

variable {σ Λ : Type} (m : Machine σ Λ)

/-- Run a list of labels. -/
def exec : σ → List Λ → Option σ
  | s, [] => some s
  | s, l :: ls => (m.step s l).bind fun s' => exec s' ls

/-- Every step of the run satisfies `C`. -/
def Along (C : σ → Λ → Prop) : σ → List Λ → Prop
  | _, [] => True
  | s, l :: ls => C s l ∧ ∀ s', m.step s l = some s' → Along C s' ls

/-- A decidable condition can be checked along a given run. -/
instance decidableAlong (C : σ → Λ → Prop) [∀ s l, Decidable (C s l)] :
    (s : σ) → (ls : List Λ) → Decidable (m.Along C s ls)
  | _, [] => .isTrue trivial
  | s, l :: ls =>
    have : Decidable (∀ s', m.step s l = some s' → m.Along C s' ls) :=
      match h : m.step s l with
      | none => .isTrue fun s' hs' => by cases hs'
      | some t =>
        have := decidableAlong C t ls
        decidable_of_iff (m.Along C t ls)
          ⟨fun hC s' hs' => Option.some.inj hs' ▸ hC, fun hC => hC t rfl⟩
    inferInstanceAs (Decidable (_ ∧ _))

@[simp] theorem exec_nil (s : σ) : m.exec s [] = some s := rfl

theorem exec_cons {s : σ} {l : Λ} {ls : List Λ} {s' : σ} :
    m.exec s (l :: ls) = some s' ↔ ∃ t, m.step s l = some t ∧ m.exec t ls = some s' := by
  simp [exec, Option.bind_eq_some_iff]

theorem exec_append {s : σ} {ls ls' : List Λ} {s' : σ} :
    m.exec s (ls ++ ls') = some s' ↔ ∃ t, m.exec s ls = some t ∧ m.exec t ls' = some s' := by
  induction ls generalizing s with
  | nil => simp
  | cons l ls ih =>
    simp only [List.cons_append, exec_cons, ih]
    constructor
    · rintro ⟨t, ht, u, hu, hs'⟩
      exact ⟨u, ⟨t, ht, hu⟩, hs'⟩
    · rintro ⟨u, ⟨t, ht, hu⟩, hs'⟩
      exact ⟨t, ht, u, hu, hs'⟩

/-- What every step keeps holds after every run. -/
theorem exec_invariant {I : σ → Prop}
    (hstep : ∀ s l s', I s → m.step s l = some s' → I s')
    {s : σ} {ls : List Λ} {s' : σ} (h₀ : I s) (hrun : m.exec s ls = some s') : I s' := by
  induction ls generalizing s with
  | nil =>
    simp only [exec_nil, Option.some.injEq] at hrun
    exact hrun ▸ h₀
  | cons l ls ih =>
    obtain ⟨t, ht, hrun⟩ := (m.exec_cons).1 hrun
    exact ih (hstep s l t h₀ ht) hrun

/-- What every step that satisfies `C` keeps holds after every run of such
    steps. -/
theorem exec_invariant_along {I : σ → Prop} {C : σ → Λ → Prop}
    (hstep : ∀ s l s', C s l → I s → m.step s l = some s' → I s')
    {s : σ} {ls : List Λ} {s' : σ} (h₀ : I s) (hC : m.Along C s ls)
    (hrun : m.exec s ls = some s') : I s' := by
  induction ls generalizing s with
  | nil =>
    simp only [exec_nil, Option.some.injEq] at hrun
    exact hrun ▸ h₀
  | cons l ls ih =>
    obtain ⟨t, ht, hrun⟩ := (m.exec_cons).1 hrun
    exact ih (hstep s l t hC.1 h₀ ht) (hC.2 t ht) hrun

/-- A log `f` to which the steps append, each at the expense of a budget `g`: no
    run appends more than the budget that it starts with. -/
theorem exec_log_le {β : Type} {f : σ → List β} {g : σ → Nat} {C : Λ → Prop}
    (hstep : ∀ s l s', C l → m.step s l = some s' →
      ∃ new, f s' = f s ++ new ∧ new.length + g s' ≤ g s)
    {s : σ} {ls : List Λ} {s' : σ} (hC : ∀ l ∈ ls, C l) (hrun : m.exec s ls = some s') :
    ∃ new, f s' = f s ++ new ∧ new.length + g s' ≤ g s := by
  induction ls generalizing s with
  | nil =>
    obtain rfl := Option.some.inj hrun
    exact ⟨[], by simp, by simp⟩
  | cons l ls ih =>
    obtain ⟨t, ht, hrun⟩ := (m.exec_cons).1 hrun
    obtain ⟨new, hlog, hbudget⟩ := hstep s l t (hC l List.mem_cons_self) ht
    obtain ⟨new', hlog', hbudget'⟩ := ih (fun l' hl' => hC l' (List.mem_cons_of_mem l hl')) hrun
    refine ⟨new ++ new', by rw [hlog', hlog, List.append_assoc], ?_⟩
    rw [List.length_append]
    omega

theorem Along.mono {C D : σ → Λ → Prop} (h : ∀ s l, C s l → D s l) {s : σ} {ls : List Λ}
    (hC : m.Along C s ls) : m.Along D s ls := by
  induction ls generalizing s with
  | nil => trivial
  | cons l ls ih => exact ⟨h s l hC.1, fun s' hs' => ih (hC.2 s' hs')⟩

/-- A run is followed step by step. -/
theorem Along.cons {m : Machine σ Λ} {C : σ → Λ → Prop} {s t : σ} {l : Λ} {ls : List Λ} (hC : C s l)
    (hstep : m.step s l = some t) (hrest : m.Along C t ls) : m.Along C s (l :: ls) := by
  refine ⟨hC, fun s' hs' => ?_⟩
  rw [hstep] at hs'
  exact Option.some.inj hs' ▸ hrest

theorem along_of_forall {C : σ → Λ → Prop} {ls : List Λ} (h : ∀ l ∈ ls, ∀ s, C s l) (s : σ) :
    m.Along C s ls := by
  induction ls generalizing s with
  | nil => trivial
  | cons l ls ih =>
    exact ⟨h l List.mem_cons_self s, fun s' _ =>
      ih (fun l' hl' => h l' (List.mem_cons_of_mem l hl')) s'⟩

theorem along_of_append {C : σ → Λ → Prop} {s : σ} {ls ls' : List Λ} (h : m.Along C s (ls ++ ls')) :
    m.Along C s ls := by
  induction ls generalizing s with
  | nil => trivial
  | cons l ls ih => exact ⟨h.1, fun s' hs' => ih (h.2 s' hs')⟩

theorem along_snoc {C : σ → Λ → Prop} {s : σ} {ls : List Λ} {l : Λ} :
    m.Along C s (ls ++ [l]) ↔ m.Along C s ls ∧ ∀ t, m.exec s ls = some t → C t l := by
  induction ls generalizing s with
  | nil =>
    constructor
    · rintro ⟨hC, _⟩
      refine ⟨trivial, fun t ht => ?_⟩
      obtain rfl : s = t := Option.some.inj ht
      exact hC
    · rintro ⟨_, hC⟩
      exact ⟨hC s rfl, fun _ _ => trivial⟩
  | cons l' ls ih =>
    constructor
    · rintro ⟨hC, hrest⟩
      refine ⟨⟨hC, fun t ht => (ih.1 (hrest t ht)).1⟩, fun u hu => ?_⟩
      obtain ⟨t, ht, hrun⟩ := (m.exec_cons).1 hu
      exact (ih.1 (hrest t ht)).2 u hrun
    · rintro ⟨⟨hC, hrest⟩, hlast⟩
      refine ⟨hC, fun t ht => ih.2 ⟨hrest t ht, fun u hu => ?_⟩⟩
      exact hlast u ((m.exec_cons).2 ⟨t, ht, hu⟩)

/-- What every state of an invariant satisfies, every run satisfies. -/
theorem along_of_invariant {I : σ → Prop} {C : σ → Λ → Prop}
    (hstep : ∀ s l s', I s → m.step s l = some s' → I s') (h : ∀ s l, I s → C s l)
    {s : σ} (h₀ : I s) (ls : List Λ) : m.Along C s ls := by
  induction ls generalizing s with
  | nil => trivial
  | cons l ls ih => exact ⟨h s l h₀, fun s' hs' => ih (hstep s l s' h₀ hs')⟩

/-- The same where the steps keep the invariant under a condition. -/
theorem Along.of_invariant {I : σ → Prop} {C D : σ → Λ → Prop}
    (hstep : ∀ s l s', C s l → I s → m.step s l = some s' → I s') (h : ∀ s l, I s → D s l)
    {s : σ} (h₀ : I s) {ls : List Λ} (hC : m.Along C s ls) : m.Along D s ls := by
  induction ls generalizing s with
  | nil => trivial
  | cons l ls ih => exact ⟨h s l h₀, fun s' hs' => ih (hstep s l s' hC.1 h₀ hs') (hC.2 s' hs')⟩

/-- Two conditions that agree wherever an invariant holds. -/
theorem along_congr_invariant {I : σ → Prop} {C D : σ → Λ → Prop}
    (hstep : ∀ s l s', I s → m.step s l = some s' → I s') (h : ∀ s l, I s → (C s l ↔ D s l))
    {s : σ} (h₀ : I s) (ls : List Λ) : m.Along C s ls ↔ m.Along D s ls := by
  induction ls generalizing s with
  | nil => exact Iff.rfl
  | cons l ls ih =>
    simp only [Along, h s l h₀]
    constructor
    · rintro ⟨hD, hrest⟩
      exact ⟨hD, fun s' hs' => (ih (hstep s l s' h₀ hs')).1 (hrest s' hs')⟩
    · rintro ⟨hD, hrest⟩
      exact ⟨hD, fun s' hs' => (ih (hstep s l s' h₀ hs')).2 (hrest s' hs')⟩

/-- A run that breaks `C` somewhere breaks it at a first step. -/
theorem exists_first_bad {C : σ → Λ → Prop} {s : σ} {ls : List Λ} {s' : σ}
    (hrun : m.exec s ls = some s') (hbad : ¬ m.Along C s ls) :
    ∃ pre l post t u, ls = pre ++ l :: post ∧ m.Along C s pre ∧ m.exec s pre = some t ∧
      ¬ C t l ∧ m.step t l = some u ∧ m.exec u post = some s' := by
  induction ls generalizing s with
  | nil => exact absurd trivial hbad
  | cons l ls ih =>
    obtain ⟨t, ht, hrun⟩ := (m.exec_cons).1 hrun
    by_cases hC : C s l
    · have hbad' : ¬ m.Along C t ls := by
        intro h
        apply hbad
        refine ⟨hC, fun s'' hs'' => ?_⟩
        rw [ht, Option.some.injEq] at hs''
        exact hs'' ▸ h
      obtain ⟨pre, l', post, u, v, rfl, halong, hpre, hnot, hstep, hpost⟩ := ih hrun hbad'
      refine ⟨l :: pre, l', post, u, v, rfl, ⟨hC, fun s'' hs'' => ?_⟩, ?_, hnot, hstep, hpost⟩
      · rw [ht, Option.some.injEq] at hs''
        exact hs'' ▸ halong
      · exact (m.exec_cons).2 ⟨t, ht, hpre⟩
    · exact ⟨[], l, ls, s, t, rfl, trivial, rfl, hC, ht, hrun⟩

/-- Every state that the run goes through satisfies `P`. -/
def Always (P : σ → Prop) (s : σ) (ls : List Λ) : Prop :=
  ∀ pre t, pre <+: ls → m.exec s pre = some t → P t

theorem always_cons {P : σ → Prop} {s t : σ} {l : Λ} {ls : List Λ} (hstep : m.step s l = some t) :
    m.Always P s (l :: ls) ↔ P s ∧ m.Always P t ls := by
  constructor
  · intro h
    refine ⟨h [] s List.nil_prefix rfl, fun pre u hpre hrun => ?_⟩
    exact h (l :: pre) u (List.cons_prefix_cons.2 ⟨rfl, hpre⟩) ((m.exec_cons).2 ⟨t, hstep, hrun⟩)
  · rintro ⟨hs, ht⟩ pre u hpre hrun
    cases pre with
    | nil =>
      obtain rfl : s = u := Option.some.inj hrun
      exact hs
    | cons l' pre =>
      obtain ⟨rfl, htail⟩ := List.cons_prefix_cons.1 hpre
      obtain ⟨t', ht', hrun⟩ := (m.exec_cons).1 hrun
      obtain rfl : t = t' := Option.some.inj (hstep.symm.trans ht')
      exact ht pre u htail hrun

/-- Where a step keeps `P` exactly if it satisfies `C`, the states of a run
    satisfy `P` exactly if its steps satisfy `C`. -/
theorem always_iff_along {I P : σ → Prop} {C : σ → Λ → Prop}
    (hkeep : ∀ s l s', I s → P s → m.step s l = some s' → I s' ∧ (P s' ↔ C s l))
    {s : σ} {ls : List Λ} {s' : σ} (hI : I s) (hP : P s) (hrun : m.exec s ls = some s') :
    m.Always P s ls ↔ m.Along C s ls := by
  induction ls generalizing s with
  | nil =>
    refine ⟨fun _ => trivial, fun _ pre t hpre hrun => ?_⟩
    rw [List.prefix_nil.1 hpre] at hrun
    obtain rfl : s = t := Option.some.inj hrun
    exact hP
  | cons l ls ih =>
    obtain ⟨t, hstep, hrun⟩ := (m.exec_cons).1 hrun
    obtain ⟨hIt, hPt⟩ := hkeep s l t hI hP hstep
    rw [always_cons m hstep]
    constructor
    · rintro ⟨_, hall⟩
      have htail := hall [] t List.nil_prefix rfl
      refine ⟨hPt.1 htail, fun u hu => ?_⟩
      obtain rfl : t = u := Option.some.inj (hstep.symm.trans hu)
      exact (ih hIt htail hrun).1 hall
    · rintro ⟨hC, hrest⟩
      exact ⟨hP, (ih hIt (hPt.2 hC) hrun).2 (hrest t hstep)⟩

/-- The number of steps of a run that satisfy `p`. -/
def count (p : σ → Λ → Bool) : σ → List Λ → Nat
  | _, [] => 0
  | s, l :: ls =>
    (p s l).toNat +
      match m.step s l with
      | some s' => count p s' ls
      | none => 0

/-- What goes down by one at the steps that satisfy `p`, and stays at the
    others, counts them. -/
theorem count_of_measure {p : σ → Λ → Bool} {C : σ → Λ → Prop} {f : σ → Nat}
    (hstep : ∀ s l s', C s l → m.step s l = some s' → f s = (p s l).toNat + f s')
    {s : σ} {ls : List Λ} {s' : σ} (hC : m.Along C s ls) (hrun : m.exec s ls = some s') :
    f s = m.count p s ls + f s' := by
  induction ls generalizing s with
  | nil =>
    obtain rfl : s = s' := Option.some.inj hrun
    simp [count]
  | cons l ls ih =>
    obtain ⟨t, ht, hrun⟩ := (m.exec_cons).1 hrun
    have hfirst := hstep s l t hC.1 ht
    have hrest := ih (hC.2 t ht) hrun
    have hcount : m.count p s (l :: ls) = (p s l).toNat + m.count p t ls := by
      simp only [count, ht]
    omega

/-- What goes down at the steps that satisfy `p`, and up at none, bounds them. -/
theorem count_le_of_measure {I : σ → Prop} {p : σ → Λ → Bool} {f : σ → Nat}
    (hstep : ∀ s l s', I s → m.step s l = some s' → I s' ∧ (p s l).toNat + f s' ≤ f s)
    {s : σ} {ls : List Λ} {s' : σ} (h₀ : I s) (hrun : m.exec s ls = some s') :
    m.count p s ls + f s' ≤ f s := by
  induction ls generalizing s with
  | nil =>
    obtain rfl : s = s' := Option.some.inj hrun
    simp [count]
  | cons l ls ih =>
    obtain ⟨t, ht, hrun⟩ := (m.exec_cons).1 hrun
    obtain ⟨hI, hfirst⟩ := hstep s l t h₀ ht
    have hrest := ih hI hrun
    have hcount : m.count p s (l :: ls) = (p s l).toNat + m.count p t ls := by
      simp only [count, ht]
    omega

end Machine
