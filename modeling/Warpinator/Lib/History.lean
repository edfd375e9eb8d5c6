import Mathlib.Data.List.Induction
import Warpinator.Lib.Machine

/-! # Events of a Run

    An event is a property of a step.  `Passes` says that a run goes through
    given events one after the other, which is how "earlier" and "after" are
    said about runs of a machine.

    * `Passes.append`, `Passes.take` and `Passes.snoc` build such histories up.
    * `PassesFrom` is for a first event that looks back at the run before it.
    * `exec_history` is the induction rule for what a state knows about the run
      that led to it.
    * `Throughout P` says that every moment of a run has the property `P`, which
      may look back, and `throughout_iff_along` when that is a condition on the
      steps. -/

namespace Machine

variable {σ Λ : Type}

abbrev Event (σ Λ : Type) : Type := σ → Λ → σ → Prop

/-- The run contains steps with the given events, in this order. -/
def Passes (m : Machine σ Λ) : List (Event σ Λ) → σ → List Λ → Prop
  | [], _, _ => True
  | E :: Es, s, ls => ∃ pre l post t u, ls = pre ++ l :: post ∧ m.exec s pre = some t ∧
      m.step t l = some u ∧ E t l u ∧ m.Passes Es u post

variable {m : Machine σ Λ} {Es : List (Event σ Λ)} {s : σ} {ls : List Λ}

/-- A longer run passes what its beginning passes. -/
theorem Passes.append (h : m.Passes Es s ls) (ls' : List Λ) : m.Passes Es s (ls ++ ls') := by
  induction Es generalizing s ls with
  | nil => trivial
  | cons E Es ih =>
    obtain ⟨pre, l, post, t, u, rfl, hpre, hstep, hE, hrest⟩ := h
    exact ⟨pre, l, post ++ ls', t, u, by simp, hpre, hstep, hE, ih hrest⟩

theorem Passes.take (h : m.Passes Es s ls) (n : Nat) : m.Passes (Es.take n) s ls := by
  induction Es generalizing s ls n with
  | nil => simpa using h
  | cons E Es ih =>
    cases n with
    | zero => trivial
    | succ n =>
      obtain ⟨pre, l, post, t, u, rfl, hpre, hstep, hE, hrest⟩ := h
      exact ⟨pre, l, post, t, u, rfl, hpre, hstep, hE, ih hrest n⟩

/-- What follows a step of a run is a run from there. -/
theorem exec_rest {pre post : List Λ} {l : Λ} {t u v : σ}
    (hrun : m.exec s (pre ++ l :: post) = some v)
    (hpre : m.exec s pre = some t) (hstep : m.step t l = some u) : m.exec u post = some v := by
  obtain ⟨t', ht', hpost⟩ := (m.exec_append).1 hrun
  obtain rfl : t = t' := Option.some.inj (hpre.symm.trans ht')
  obtain ⟨u', hu', hpost⟩ := (m.exec_cons).1 hpost
  obtain rfl : u = u' := Option.some.inj (hstep.symm.trans hu')
  exact hpost

/-- The last step of a run adds its event. -/
theorem Passes.snoc {E : Event σ Λ} {l : Λ} {t u : σ} (h : m.Passes Es s ls)
    (hrun : m.exec s ls = some t) (hstep : m.step t l = some u) (hE : E t l u) :
    m.Passes (Es ++ [E]) s (ls ++ [l]) := by
  induction Es generalizing s ls with
  | nil => exact ⟨ls, l, [], t, u, rfl, hrun, hstep, hE, trivial⟩
  | cons E' Es ih =>
    obtain ⟨pre, l', post, t', u', rfl, hpre, hstep', hE', hrest⟩ := h
    have hpost := exec_rest hrun hpre hstep'
    exact ⟨pre, l', post ++ [l], t', u', by simp, hpre, hstep', hE', ih hrest hpost⟩

/-- The run contains a step with an event that may look at the run up to it, and
    then steps with given events. -/
def PassesFrom (m : Machine σ Λ) (E : List Λ → Event σ Λ) (Es : List (Event σ Λ)) (s : σ)
    (ls : List Λ) : Prop :=
  ∃ pre l post t u, ls = pre ++ l :: post ∧ m.exec s pre = some t ∧ m.step t l = some u ∧
    E pre t l u ∧ m.Passes Es u post

section lookingBack

variable {E : List Λ → Event σ Λ}

theorem PassesFrom.append (h : m.PassesFrom E Es s ls) (ls' : List Λ) :
    m.PassesFrom E Es s (ls ++ ls') := by
  obtain ⟨pre, l, post, t, u, rfl, hpre, hstep, hE, hrest⟩ := h
  exact ⟨pre, l, post ++ ls', t, u, by simp, hpre, hstep, hE, hrest.append ls'⟩

/-- The event of the last step sees the whole run before it. -/
theorem PassesFrom.last {l : Λ} {t u : σ} (hrun : m.exec s ls = some t)
    (hstep : m.step t l = some u) (hE : E ls t l u) : m.PassesFrom E [] s (ls ++ [l]) :=
  ⟨ls, l, [], t, u, rfl, hrun, hstep, hE, trivial⟩

theorem PassesFrom.snoc {E' : Event σ Λ} {l : Λ} {t u : σ} (h : m.PassesFrom E Es s ls)
    (hrun : m.exec s ls = some t) (hstep : m.step t l = some u) (hE : E' t l u) :
    m.PassesFrom E (Es ++ [E']) s (ls ++ [l]) := by
  obtain ⟨pre, l', post, t', u', rfl, hpre, hstep', hfirst, hrest⟩ := h
  have hpost := exec_rest hrun hpre hstep'
  exact ⟨pre, l', post ++ [l], t', u', by simp, hpre, hstep', hfirst, hrest.snoc hpost hstep hE⟩

/-- A weaker first event is passed as well. -/
theorem PassesFrom.imp {E' : List Λ → Event σ Λ} (h : m.PassesFrom E Es s ls)
    (himp : ∀ pre t l u, E pre t l u → E' pre t l u) : m.PassesFrom E' Es s ls := by
  obtain ⟨pre, l, post, t, u, hls, hpre, hstep, hE, hrest⟩ := h
  exact ⟨pre, l, post, t, u, hls, hpre, hstep, himp _ _ _ _ hE, hrest⟩

end lookingBack

/-- What a step keeps of the history holds of the history of every run. -/
theorem exec_history {H : List Λ → σ → Prop} {s₀ : σ} (h₀ : H [] s₀)
    (hkeep : ∀ ls s l s', m.exec s₀ ls = some s → H ls s → m.step s l = some s' →
      H (ls ++ [l]) s')
    {ls : List Λ} {s : σ} (hrun : m.exec s₀ ls = some s) : H ls s := by
  induction ls using List.reverseRecOn generalizing s with
  | nil =>
    obtain rfl : s₀ = s := Option.some.inj hrun
    exact h₀
  | append_singleton ls l ih =>
    obtain ⟨t, ht, hlast⟩ := (m.exec_append).1 hrun
    obtain ⟨u, hu, hnil⟩ := (m.exec_cons).1 hlast
    obtain rfl : u = s := Option.some.inj hnil
    exact hkeep ls t l u ht (ih ht) hu

/-- Every state of the run has the property, together with the run up to it. -/
def Throughout (m : Machine σ Λ) (P : List Λ → σ → Prop) (s : σ) (ls : List Λ) : Prop :=
  ∀ pre t, pre <+: ls → m.exec s pre = some t → P pre t

theorem throughout_snoc {P : List Λ → σ → Prop} {l : Λ} {t : σ}
    (hrun : m.exec s (ls ++ [l]) = some t) :
    m.Throughout P s (ls ++ [l]) ↔ m.Throughout P s ls ∧ P (ls ++ [l]) t := by
  constructor
  · exact fun h => ⟨fun pre u hpre => h pre u (hpre.trans (List.prefix_append _ _)),
      h _ t List.prefix_rfl hrun⟩
  · rintro ⟨hall, hlast⟩ pre u hpre hexec
    rcases List.prefix_concat_iff.1 hpre with rfl | hpre
    · obtain rfl : t = u := Option.some.inj (hrun.symm.trans hexec)
      exact hlast
    · exact hall pre u hpre hexec

/-- Where a step of the run keeps `P` exactly if it satisfies `C`, all moments of
    the run have the property `P` exactly if its steps satisfy `C`. -/
theorem throughout_iff_along {P : List Λ → σ → Prop} {C : σ → Λ → Prop} {s₀ : σ} (hP₀ : P [] s₀)
    {ls : List Λ} {s : σ} (hrun : m.exec s₀ ls = some s)
    (hstep : ∀ pre l t u, pre ++ [l] <+: ls → m.exec s₀ pre = some t → P pre t →
      m.step t l = some u → (P (pre ++ [l]) u ↔ C t l)) :
    m.Throughout P s₀ ls ↔ m.Along C s₀ ls := by
  induction ls using List.reverseRecOn generalizing s with
  | nil =>
    refine iff_of_true (fun pre t hpre hexec => ?_) trivial
    obtain rfl := List.prefix_nil.1 hpre
    obtain rfl : s₀ = t := Option.some.inj hexec
    exact hP₀
  | append_singleton ls l ih =>
    obtain ⟨t, ht, hlast⟩ := (m.exec_append).1 hrun
    obtain ⟨u, hu, hnil⟩ := (m.exec_cons).1 hlast
    obtain rfl : u = s := Option.some.inj hnil
    have hinit := ih ht fun pre l t u hpre => hstep pre l t u (hpre.trans (List.prefix_append _ _))
    rw [throughout_snoc hrun, along_snoc, ← hinit]
    refine and_congr_right fun hall => ?_
    rw [hstep ls l t u List.prefix_rfl ht (hall ls t List.prefix_rfl ht) hu]
    constructor
    · intro hC t' ht'
      obtain rfl : t = t' := Option.some.inj (ht.symm.trans ht')
      exact hC
    · exact fun h => h t ht

end Machine
