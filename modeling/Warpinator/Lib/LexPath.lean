import Mathlib.Data.List.DropRight
import Mathlib.Data.List.Infix

/-! # Lexical Paths

    Path strings over an arbitrary alphabet with one separator and one dot
    character.  Everything here is lexical: no file system is consulted.

    * `components` splits a string at the separator and drops the empty and the
      `.` pieces, except a leading `.`.
    * `join` appends a path, which an absolute path overrides.
    * `resolve` follows the components from left to right and lets each `..`
      remove the name before it.
    * `Inside` says that one path resolves to another one or below it.  Its
      second half matters for relative bases: `../..` has the components of
      `..` as a prefix and is not below it.

    The alphabet is a parameter, so the same lemmas serve byte strings, strings
    of decoded characters and images under a character replacement
    (`body_map`). -/

namespace LexPath

/-! ## Section 1: Components -/

/-- The two characters that a path grammar singles out. -/
structure Charset (α : Type) where
  sep : α
  dot : α
  sep_ne_dot : sep ≠ dot

inductive Component (α : Type) where
  | rootDir
  | curDir
  | parentDir
  | normal (name : List α)
  deriving DecidableEq, Repr

def Component.isNormal {α : Type} : Component α → Bool
  | .normal _ => true
  | _ => false

def Component.map {α β : Type} (f : α → β) : Component α → Component β
  | .rootDir => .rootDir
  | .curDir => .curDir
  | .parentDir => .parentDir
  | .normal name => .normal (name.map f)

section components
variable {α : Type} [DecidableEq α] (cs : Charset α)

/-- The component that one piece between separators stands for, if any. -/
def piece (p : List α) : Option (Component α) :=
  if p = [] ∨ p = [cs.dot] then none
  else if p = [cs.dot, cs.dot] then some .parentDir
  else some (.normal p)

def hasRoot (s : List α) : Bool := decide (s.head? = some cs.sep)

/-- The components of the pieces, without the root and the leading dot. -/
def body (s : List α) : List (Component α) :=
  (s.splitOn cs.sep).filterMap (piece cs)

def front (s : List α) : List (Component α) :=
  if hasRoot cs s then [.rootDir]
  else if (s.splitOn cs.sep).head? = some [cs.dot] then [.curDir]
  else []

def components (s : List α) : List (Component α) := front cs s ++ body cs s

/-- Append `b` to `a`, with a separator where one is missing. -/
def join (a b : List α) : List α :=
  if hasRoot cs b then b
  else if a = [] ∨ a.getLast? = some cs.sep then a ++ b
  else a ++ cs.sep :: b

@[simp] theorem piece_nil : piece cs [] = none := by simp [piece]

@[simp] theorem body_nil : body cs [] = [] := by
  simp [body, List.splitOn_nil]

@[simp] theorem hasRoot_nil : hasRoot cs [] = false := by simp [hasRoot]

theorem hasRoot_append {a : List α} (b : List α) (ha : a ≠ []) :
    hasRoot cs (a ++ b) = hasRoot cs a := by
  obtain ⟨x, xs, rfl⟩ := List.exists_cons_of_ne_nil ha
  simp [hasRoot]

/-- Splitting at a separator splits the components. -/
theorem body_append_sep (a b : List α) :
    body cs (a ++ cs.sep :: b) = body cs a ++ body cs b := by
  simp only [body, List.splitOn_append_cons_self, List.filterMap_append]

theorem front_append_sep {a : List α} (b : List α) (ha : a ≠ []) :
    front cs (a ++ cs.sep :: b) = front cs a := by
  have hhead : ((a ++ cs.sep :: b).splitOn cs.sep).head? = (a.splitOn cs.sep).head? := by
    rw [List.splitOn_append_cons_self, List.head?_append_of_ne_nil _ (List.splitOn_ne_nil _ _)]
  simp only [front, hasRoot_append cs _ ha, hhead]

theorem front_root (b : List α) : front cs (cs.sep :: b) = [.rootDir] := by
  simp [front, hasRoot]

/-- Joining a relative path to a non-empty one keeps the front and appends the
    components of the body. -/
theorem front_body_join {a b : List α} (ha : a ≠ []) (hb : hasRoot cs b = false) :
    front cs (join cs a b) = front cs a ∧ body cs (join cs a b) = body cs a ++ body cs b := by
  by_cases hlast : a.getLast? = some cs.sep
  · -- `a` already ends with the separator
    obtain ⟨a', rfl⟩ : ∃ a', a = a' ++ [cs.sep] := by
      refine ⟨a.dropLast, ?_⟩
      have := List.dropLast_append_getLast? cs.sep hlast
      exact this.symm
    have hjoin : join cs (a' ++ [cs.sep]) b = a' ++ cs.sep :: b := by
      simp [join, hb]
    have hbody : body cs (a' ++ [cs.sep]) = body cs a' := by
      have := body_append_sep cs a' []
      simpa using this
    rw [hjoin, body_append_sep, hbody]
    by_cases ha' : a' = []
    · subst ha'
      simp [front_root]
    · exact ⟨by rw [front_append_sep cs b ha', front_append_sep cs [] ha'], rfl⟩
  · have hjoin : join cs a b = a ++ cs.sep :: b := by
      simp [join, hb, ha, hlast]
    rw [hjoin]
    exact ⟨front_append_sep cs b ha, body_append_sep cs a b⟩

theorem components_join {a b : List α} (ha : a ≠ []) (hb : hasRoot cs b = false) :
    components cs (join cs a b) = components cs a ++ body cs b := by
  obtain ⟨hfront, hbody⟩ := front_body_join cs ha hb
  rw [components, components, hfront, hbody, List.append_assoc]

/-- The pieces of a path that another one is joined to. -/
def lead (a : List α) : List (List α) :=
  if a.getLast? = some cs.sep then (a.splitOn cs.sep).dropLast else a.splitOn cs.sep

theorem splitOn_join {a b : List α} (ha : a ≠ []) (hb : hasRoot cs b = false) :
    (join cs a b).splitOn cs.sep = lead cs a ++ b.splitOn cs.sep := by
  by_cases hlast : a.getLast? = some cs.sep
  · have hjoin : join cs a b = a.dropLast ++ cs.sep :: b := by
      conv_lhs => rw [← List.dropLast_append_getLast? cs.sep hlast]
      simp [join, hb]
    have hlead : lead cs a = a.dropLast.splitOn cs.sep := by
      have hsplit := List.splitOn_append_cons_self (a := cs.sep) a.dropLast []
      rw [List.dropLast_append_getLast? cs.sep hlast, List.splitOn_nil] at hsplit
      rw [lead, if_pos hlast, hsplit, List.dropLast_concat]
    rw [hjoin, hlead, List.splitOn_append_cons_self]
  · have hjoin : join cs a b = a ++ cs.sep :: b := by
      simp [join, hb, ha, hlast]
    rw [hjoin, lead, if_neg hlast, List.splitOn_append_cons_self]

theorem lead_of_getLast?_ne {a : List α} (h : a.getLast? ≠ some cs.sep) :
    lead cs a = a.splitOn cs.sep := if_neg h

theorem filterMap_lead (a : List α) : (lead cs a).filterMap (piece cs) = body cs a := by
  unfold lead
  split
  · next hlast =>
    have hsplit := List.splitOn_append_cons_self (a := cs.sep) a.dropLast []
    rw [List.dropLast_append_getLast? cs.sep hlast, List.splitOn_nil] at hsplit
    rw [body, hsplit, List.dropLast_concat, List.filterMap_append]
    simp
  · rfl

theorem getLast?_join {a b : List α} (hb : b ≠ []) : (join cs a b).getLast? = b.getLast? := by
  unfold join
  split
  · rfl
  · split
    · rw [List.getLast?_append_of_ne_nil _ hb]
    · rw [List.getLast?_append_of_ne_nil _ (List.cons_ne_nil _ _), List.getLast?_cons_of_ne_nil hb]

theorem join_ne_nil {a : List α} (b : List α) (ha : a ≠ []) (hb : hasRoot cs b = false) :
    join cs a b ≠ [] := by
  simp only [join, hb, Bool.false_eq_true, if_false]
  split <;> simp [ha]

theorem not_isNormal_of_mem_front {s : List α} {c : Component α} (h : c ∈ front cs s) :
    c = .rootDir ∨ c = .curDir := by
  unfold front at h
  split at h
  · exact .inl (List.mem_singleton.1 h)
  · split at h
    · exact .inr (List.mem_singleton.1 h)
    · cases h

theorem ne_of_mem_body {s : List α} {c : Component α} (h : c ∈ body cs s) :
    c ≠ .rootDir ∧ c ≠ .curDir := by
  obtain ⟨p, _, hp⟩ := List.mem_filterMap.1 h
  unfold piece at hp
  split at hp
  · cases hp
  · split at hp <;> cases hp <;> simp

end components

/-! ## Section 2: Prefixes, parents and remainders -/

section prefixes
variable {α : Type} [DecidableEq α] (cs : Charset α)

/-- Component-wise prefix test.  It does not resolve `..`. -/
def startsWith (s base : List α) : Bool :=
  (components cs base).isPrefixOf (components cs s)

/-- All components but the last, unless that is the root. -/
def parent (p : List (Component α)) : Option (List (Component α)) :=
  match p.getLast? with
  | none => none
  | some .rootDir => none
  | some _ => some p.dropLast

/-- The name at the end of a path. -/
def fileName (p : List (Component α)) : Option (List α) :=
  match p.getLast? with
  | some (.normal name) => some name
  | _ => none

/-- Drop pieces until `n` of them that carry a component are gone. -/
def dropPieces : Nat → List (List α) → List (List α)
  | 0, ps => ps
  | _ + 1, [] => []
  | n + 1, p :: ps =>
    if (piece cs p).isNone then dropPieces (n + 1) ps else dropPieces n ps

/-- Drop the pieces without a component at both ends. -/
def trimPieces (ps : List (List α)) : List (List α) :=
  (ps.dropWhile fun p => (piece cs p).isNone).rdropWhile fun p => (piece cs p).isNone

/-- What is left of `s` behind the components of `base`, as a string: inner
    redundant separators stay, those at the ends go. -/
def stripPrefix (s : List α) (base : List (Component α)) : Option (List α) :=
  if base.isPrefixOf (components cs s) then
    let names := (base.filter fun c => c != .rootDir && c != .curDir).length
    some ([cs.sep].intercalate (trimPieces cs (dropPieces cs names (s.splitOn cs.sep))))
  else none

theorem filterMap_dropPieces (n : Nat) (ps : List (List α)) :
    (dropPieces cs n ps).filterMap (piece cs) = (ps.filterMap (piece cs)).drop n := by
  induction ps generalizing n with
  | nil => cases n <;> simp [dropPieces]
  | cons p ps ih =>
    cases n with
    | zero => simp [dropPieces]
    | succ n =>
      cases hp : piece cs p with
      | none => simp [dropPieces, hp, ih]
      | some c => simp [dropPieces, hp, ih]

theorem filterMap_dropWhile_isNone (ps : List (List α)) :
    (ps.dropWhile fun p => (piece cs p).isNone).filterMap (piece cs)
      = ps.filterMap (piece cs) := by
  induction ps with
  | nil => rfl
  | cons p ps ih =>
    cases hp : piece cs p with
    | none => simp [hp, ih]
    | some c => simp [hp]

theorem filterMap_trimPieces (ps : List (List α)) :
    (trimPieces cs ps).filterMap (piece cs) = ps.filterMap (piece cs) := by
  unfold trimPieces List.rdropWhile
  rw [List.filterMap_reverse, filterMap_dropWhile_isNone, ← List.filterMap_reverse,
    List.reverse_reverse, filterMap_dropWhile_isNone]

theorem mem_of_mem_dropPieces {n : Nat} {ps : List (List α)} {p : List α}
    (h : p ∈ dropPieces cs n ps) : p ∈ ps := by
  induction ps generalizing n with
  | nil => cases n <;> simp [dropPieces] at h
  | cons q ps ih =>
    cases n with
    | zero => simpa [dropPieces] using h
    | succ n =>
      simp only [dropPieces] at h
      split at h
      · exact List.mem_cons_of_mem _ (ih h)
      · exact List.mem_cons_of_mem _ (ih h)

theorem mem_of_mem_trimPieces {ps : List (List α)} {p : List α}
    (h : p ∈ trimPieces cs ps) : p ∈ ps :=
  (List.dropWhile_suffix _).subset ((List.rdropWhile_prefix _ _).subset h)

/-- Trimming leaves a first piece that carries a component. -/
theorem piece_head_trimPieces {ps : List (List α)} {p : List α}
    (h : (trimPieces cs ps).head? = some p) : piece cs p ≠ none := by
  intro hp
  set qs := ps.dropWhile fun p => (piece cs p).isNone with hqs
  have hpre : trimPieces cs ps <+: qs := List.rdropWhile_prefix _ _
  have hq : qs.head? = some p := by
    obtain ⟨t, ht⟩ := hpre
    cases htp : trimPieces cs ps with
    | nil => rw [htp] at h; simp at h
    | cons x xs =>
      rw [htp] at h ht
      simp only [List.head?_cons, Option.some.injEq] at h
      rw [← ht, h]; rfl
  have hne : qs ≠ [] := by intro h0; rw [h0] at hq; simp at hq
  have := List.head_dropWhile_not (fun p => (piece cs p).isNone) (l := ps) hne
  rw [List.head?_eq_some_head hne, Option.some.injEq] at hq
  rw [hq] at this
  simp [hp] at this

theorem piece_getLast_trimPieces (ps : List (List α)) (hne : trimPieces cs ps ≠ []) :
    piece cs ((trimPieces cs ps).getLast hne) ≠ none := by
  have := List.rdropWhile_last_not (fun p => (piece cs p).isNone) _ hne
  simpa [trimPieces] using this

/-- One component leaves one piece. -/
theorem trimPieces_eq_singleton {ps : List (List α)} {name : List α}
    (h : ps.filterMap (piece cs) = [.normal name]) : trimPieces cs ps = [name] := by
  have hmap : (trimPieces cs ps).filterMap (piece cs) = [.normal name] := by
    rw [filterMap_trimPieces, h]
  cases htrim : trimPieces cs ps with
  | nil => rw [htrim] at hmap; cases hmap
  | cons p rest =>
    have hp : piece cs p ≠ none := piece_head_trimPieces cs (by rw [htrim]; rfl)
    obtain ⟨c, hc⟩ := Option.ne_none_iff_exists'.1 hp
    rw [htrim, List.filterMap_cons_some hc, List.cons.injEq] at hmap
    -- a last piece of its own would be a second component
    have hrest : rest = [] := by
      by_contra hne
      have hlast : piece cs (rest.getLast hne) ≠ none := by
        have := piece_getLast_trimPieces cs ps (by rw [htrim]; simp)
        simpa [htrim, List.getLast_cons hne] using this
      obtain ⟨d, hd⟩ := Option.ne_none_iff_exists'.1 hlast
      have hmem : d ∈ rest.filterMap (piece cs) :=
        List.mem_filterMap.2 ⟨_, List.getLast_mem hne, hd⟩
      rw [hmap.2] at hmem
      cases hmem
    have hname : p = name := by
      rw [hmap.1] at hc
      unfold piece at hc
      split at hc
      · cases hc
      · split at hc
        · cases hc
        · cases hc; rfl
    rw [hrest, hname]

theorem dropPieces_append {n : Nat} {ps : List (List α)} (qs : List (List α))
    (h : n ≤ (ps.filterMap (piece cs)).length) :
    dropPieces cs n (ps ++ qs) = dropPieces cs n ps ++ qs := by
  induction ps generalizing n with
  | nil =>
    have hn : n = 0 := by simpa using h
    subst hn
    simp [dropPieces]
  | cons p ps ih =>
    cases n with
    | zero => simp [dropPieces]
    | succ n =>
      cases hp : piece cs p with
      | none =>
        rw [List.filterMap_cons_none hp] at h
        simp [dropPieces, hp, ih h]
      | some c =>
        rw [List.filterMap_cons_some hp, List.length_cons] at h
        simp [dropPieces, hp, ih (by omega : n ≤ _)]

/-- Pieces behind others that carry a component are left alone by trimming. -/
theorem trimPieces_append {ps qs : List (List α)} (hps : ps.filterMap (piece cs) ≠ [])
    (hqs : ∀ q ∈ qs, piece cs q ≠ none) (hne : qs ≠ []) :
    trimPieces cs (ps ++ qs) = (ps.dropWhile fun p => (piece cs p).isNone) ++ qs := by
  have hdrop : (ps ++ qs).dropWhile (fun p => (piece cs p).isNone)
      = (ps.dropWhile fun p => (piece cs p).isNone) ++ qs := by
    rw [List.dropWhile_append, if_neg]
    intro hempty
    rw [List.isEmpty_iff, List.dropWhile_eq_nil_iff] at hempty
    apply hps
    rw [List.filterMap_eq_nil_iff]
    intro p hp
    simpa using hempty p hp
  rw [trimPieces, hdrop, List.rdropWhile_eq_self_iff]
  intro hl hlast
  rw [List.getLast_append_of_ne_nil _ hne] at hlast
  have := hqs _ (List.getLast_mem hne)
  simp at hlast
  exact this hlast

theorem not_sep_mem_of_mem_splitOn {s p : List α} (h : p ∈ s.splitOn cs.sep) :
    cs.sep ∉ p := by
  induction s generalizing p with
  | nil => simp only [List.splitOn_nil, List.mem_singleton] at h; subst h; simp
  | cons x xs ih =>
    rw [List.splitOn_cons_eq_if_modifyHead] at h
    obtain ⟨r, rs, hr⟩ := List.exists_cons_of_ne_nil (List.splitOn_ne_nil cs.sep xs)
    split at h
    · rcases List.mem_cons.1 h with rfl | h
      · simp
      · exact ih h
    · next hx =>
      rw [hr, List.modifyHead_cons] at h
      rcases List.mem_cons.1 h with rfl | h
      · intro hmem
        rcases List.mem_cons.1 hmem with rfl | hmem
        · simp at hx
        · exact ih (hr ▸ List.mem_cons_self ..) hmem
      · exact ih (hr ▸ List.mem_cons_of_mem _ h)

/-- The body of a rendered piece list is read back from its pieces. -/
theorem body_intercalate {ps : List (List α)} (hsep : ∀ p ∈ ps, cs.sep ∉ p) :
    body cs ([cs.sep].intercalate ps) = ps.filterMap (piece cs) := by
  by_cases hps : ps = []
  · subst hps
    simp [List.intercalate]
  · rw [body, List.splitOn_intercalate cs.sep hsep hps]

theorem front_intercalate {ps : List (List α)} (hsep : ∀ p ∈ ps, cs.sep ∉ p)
    (hhead : ∀ p, ps.head? = some p → piece cs p ≠ none) :
    front cs ([cs.sep].intercalate ps) = [] := by
  cases ps with
  | nil =>
    have hdot : ¬ (some ([] : List α) = some [cs.dot]) := by simp
    simp [List.intercalate, front, List.splitOn_nil, hdot]
  | cons p ps =>
    have hp : piece cs p ≠ none := hhead p rfl
    have hroot : hasRoot cs ([cs.sep].intercalate (p :: ps)) = false := by
      cases p with
      | nil => simp at hp
      | cons x xs =>
        have hx : cs.sep ∉ x :: xs := hsep _ List.mem_cons_self
        have hxs : x ≠ cs.sep := fun h => hx (h ▸ List.mem_cons_self)
        cases ps <;> simp [List.intercalate, hasRoot, hxs]
    have hdot : p ≠ [cs.dot] := by
      rintro rfl
      simp [piece] at hp
    simp [front, hroot, List.splitOn_intercalate cs.sep hsep (List.cons_ne_nil _ _), hdot]

/-- The remainder behind a prefix has the components behind that prefix. -/
theorem components_stripPrefix {s r : List α} {base : List (Component α)}
    (h : stripPrefix cs s base = some r) :
    components cs r
      = (body cs s).drop (base.filter fun c => c != .rootDir && c != .curDir).length := by
  simp only [stripPrefix] at h
  split at h
  · have hr := Option.some.inj h
    set n := (base.filter fun c => c != .rootDir && c != .curDir).length
    have hsep : ∀ p ∈ trimPieces cs (dropPieces cs n (s.splitOn cs.sep)), cs.sep ∉ p :=
      fun p hp => not_sep_mem_of_mem_splitOn cs
        (mem_of_mem_dropPieces cs (mem_of_mem_trimPieces cs hp))
    rw [← hr, components, front_intercalate cs hsep fun p hp => piece_head_trimPieces cs hp,
      body_intercalate cs hsep, filterMap_trimPieces, filterMap_dropPieces, List.nil_append, body]
  · cases h

end prefixes

/-! ## Section 3: Character replacement -/

section replacement
variable {α β : Type} [DecidableEq α] [DecidableEq β] (cs : Charset α) (ds : Charset β)

/-- A character map that neither creates nor destroys separators and dots. -/
structure Respects (f : α → β) : Prop where
  sep : ∀ x, f x = ds.sep ↔ x = cs.sep
  dot : ∀ x, f x = ds.dot ↔ x = cs.dot

variable {cs ds} {f : α → β}

theorem splitOn_map (hf : Respects cs ds f) (s : List α) :
    (s.map f).splitOn ds.sep = (s.splitOn cs.sep).map (List.map f) := by
  induction s with
  | nil => simp [List.splitOn_nil]
  | cons x xs ih =>
    obtain ⟨r, rs, hr⟩ := List.exists_cons_of_ne_nil (List.splitOn_ne_nil cs.sep xs)
    by_cases hx : x = cs.sep
    · subst hx
      have hfx : f cs.sep = ds.sep := (hf.sep _).2 rfl
      simp [List.splitOn_cons_eq_if_modifyHead, hfx, ih]
    · have hfx : f x ≠ ds.sep := fun h => hx ((hf.sep x).1 h)
      simp [List.splitOn_cons_eq_if_modifyHead, hfx, hx, ih, hr]

theorem map_intercalate {γ δ : Type} (g : γ → δ) (sep : List γ) (ps : List (List γ)) :
    (sep.intercalate ps).map g = (sep.map g).intercalate (ps.map (List.map g)) := by
  induction ps with
  | nil => simp [List.intercalate]
  | cons p ps ih =>
    cases ps with
    | nil => simp [List.intercalate]
    | cons q ps =>
      simp only [List.intercalate, List.intersperse_cons_cons, List.flatten_cons, List.map_append,
        List.map_cons] at ih ⊢
      rw [ih]

theorem piece_map (hf : Respects cs ds f) (p : List α) :
    piece ds (p.map f) = (piece cs p).map (Component.map f) := by
  have hone : p.map f = [ds.dot] ↔ p = [cs.dot] := by
    rw [List.map_eq_singleton_iff]
    constructor
    · rintro ⟨x, rfl, hx⟩
      rw [(hf.dot x).1 hx]
    · rintro rfl
      exact ⟨cs.dot, rfl, (hf.dot _).2 rfl⟩
  have htwo : p.map f = [ds.dot, ds.dot] ↔ p = [cs.dot, cs.dot] := by
    constructor
    · intro h
      rw [List.map_eq_cons_iff] at h
      obtain ⟨x, p, rfl, hx, h⟩ := h
      rw [List.map_eq_singleton_iff] at h
      obtain ⟨y, rfl, hy⟩ := h
      rw [(hf.dot x).1 hx, (hf.dot y).1 hy]
    · rintro rfl
      simp [(hf.dot cs.dot).2 rfl]
  simp only [piece, List.map_eq_nil_iff, hone, htwo]
  split
  · rfl
  · split <;> rfl

/-- Replacing characters acts on each component by itself. -/
theorem body_map (hf : Respects cs ds f) (s : List α) :
    body ds (s.map f) = (body cs s).map (Component.map f) := by
  simp only [body, splitOn_map hf, List.filterMap_map, List.map_filterMap]
  congr 1
  funext p
  exact piece_map hf p

theorem hasRoot_map (hf : Respects cs ds f) (s : List α) :
    hasRoot ds (s.map f) = hasRoot cs s := by
  cases s with
  | nil => rfl
  | cons x xs => simp [hasRoot, hf.sep x]

theorem front_map (hf : Respects cs ds f) (s : List α) :
    front ds (s.map f) = (front cs s).map (Component.map f) := by
  have hhead : ((s.map f).splitOn ds.sep).head? = some [ds.dot]
      ↔ (s.splitOn cs.sep).head? = some [cs.dot] := by
    rw [splitOn_map hf, List.head?_map]
    cases (s.splitOn cs.sep).head? with
    | none => simp
    | some p =>
      simp only [Option.map_some, Option.some.injEq, List.map_eq_singleton_iff]
      constructor
      · rintro ⟨x, rfl, hx⟩
        rw [(hf.dot x).1 hx]
      · rintro rfl
        exact ⟨cs.dot, rfl, (hf.dot _).2 rfl⟩
  simp only [front, hasRoot_map hf, hhead]
  split
  · rfl
  · split <;> rfl

theorem components_map (hf : Respects cs ds f) (s : List α) :
    components ds (s.map f) = (components cs s).map (Component.map f) := by
  rw [components, components, front_map hf, body_map hf, List.map_append]

end replacement

/-! ## Section 4: Lexical resolution -/

section resolution
variable {α : Type}

/-- Follow one component from the location `acc`. -/
def follow (acc : List (Component α)) : Component α → List (Component α)
  | .rootDir => [.rootDir]
  | .curDir => acc
  | .normal name => acc ++ [.normal name]
  | .parentDir =>
    match acc.getLast? with
    | some (.normal _) => acc.dropLast
    | some .rootDir => acc
    | _ => acc ++ [.parentDir]

/-- The location that a path names once its dots are worked off. -/
def resolve (p : List (Component α)) : List (Component α) := p.foldl follow []

@[simp] theorem follow_normal (acc : List (Component α)) (name : List α) :
    follow acc (.normal name) = acc ++ [.normal name] := rfl

theorem resolve_append (p q : List (Component α)) :
    resolve (p ++ q) = q.foldl follow (resolve p) := by
  simp [resolve, List.foldl_append]

/-- `p` names the location of `base` or one below it. -/
def Inside (base p : List (Component α)) : Prop :=
  resolve base <+: resolve p ∧
    ((resolve p).drop (resolve base).length).all Component.isNormal = true

instance [DecidableEq α] (base p : List (Component α)) : Decidable (Inside base p) := by
  unfold Inside; infer_instance

end resolution

end LexPath
