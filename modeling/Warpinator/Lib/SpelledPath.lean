import Warpinator.Lib.LexPath

/-! # Paths with Several Separators

    Lexical paths over an alphabet with any number of separators, one of which
    `join` puts in.  The others are read as well, and stay as they are spelled.

    A string is cut into pieces, each with the separator behind it, so that
    what is left of a path is glued together as it was.

    * `components`, `join` and `stripPrefix` are those of `LexPath`, and they
      are the same with a single separator (`stripPrefix_ofCharset`).
    * `stripPrefix_below` says how a path below another one is spelled when
      everything in front of the name of the other one is taken away. -/

namespace SpelledPath

open LexPath

/-- Several separators, `sep` among them, and a dot. -/
structure Grammar (α : Type) extends Charset α where
  isSep : α → Bool
  isSep_sep : isSep sep = true
  isSep_dot : isSep dot = false

variable {α : Type}

/-! ## Section 1: Cutting and gluing -/

section cutting

variable (g : Grammar α)

/-- Pieces with the separators behind them, and a last piece. -/
abbrev Cut (α : Type) : Type := List (List α × α) × List α

/-- Cut a string behind its separators. -/
def cut : List α → Cut α
  | [] => ([], [])
  | x :: xs =>
    if g.isSep x then (([], x) :: (cut xs).1, (cut xs).2)
    else
      match cut xs with
      | ([], last) => ([], x :: last)
      | ((p, y) :: ts, last) => ((x :: p, y) :: ts, last)

/-- Pieces with their separators, as they are spelled. -/
def spell (ts : List (List α × α)) : List α := ts.flatMap fun t => t.1 ++ [t.2]

def glue (c : Cut α) : List α := spell c.1 ++ c.2

def pieces (s : List α) : List (List α) := (cut g s).1.map Prod.fst ++ [(cut g s).2]

def hasRoot (s : List α) : Bool := s.head?.any g.isSep

/-- Append `b` to `a`, with a separator where none is there. -/
def join (a b : List α) : List α :=
  if hasRoot g b then b
  else if a = [] ∨ a.getLast?.any g.isSep then a ++ b
  else a ++ g.sep :: b

/-- The path that has `names` appended one after the other. -/
def below (a : List α) (names : List (List α)) : List α := names.foldl (join g) a

/-- The pieces of `a` that a name is appended to. -/
def lead (a : List α) : List (List α × α) :=
  if a.getLast?.any g.isSep then (cut g a).1 else (cut g a).1 ++ [((cut g a).2, g.sep)]

variable {g}

theorem cut_cons_sep {x : α} (hx : g.isSep x = true) (xs : List α) :
    cut g (x :: xs) = (([], x) :: (cut g xs).1, (cut g xs).2) := by
  rw [cut, if_pos hx]

theorem cut_append_sep {x : α} (hx : g.isSep x = true) (a b : List α) :
    cut g (a ++ x :: b) = ((cut g a).1 ++ ((cut g a).2, x) :: (cut g b).1, (cut g b).2) := by
  induction a with
  | nil => exact cut_cons_sep hx b
  | cons y a ih =>
    rw [List.cons_append, cut, cut, ih]
    split
    · rfl
    · cases hcut : cut g a with
      | mk ts last =>
        cases ts with
        | nil => rfl
        | cons t ts => rfl

/-- A string without separators prolongs the last piece. -/
theorem cut_append_of_free {c : List α} (hc : ∀ x ∈ c, g.isSep x = false) (a : List α) :
    cut g (a ++ c) = ((cut g a).1, (cut g a).2 ++ c) := by
  induction a with
  | nil =>
    induction c with
    | nil => rfl
    | cons x c ih =>
      have hrest := ih fun y hy => hc y (List.mem_cons_of_mem x hy)
      have hx := hc x List.mem_cons_self
      rw [List.nil_append] at hrest ⊢
      show cut g (x :: c) = ([], x :: c)
      rw [cut, if_neg (by simp [hx]), hrest]
      rfl
  | cons y a ih =>
    rw [List.cons_append, cut, cut, ih]
    split
    · rfl
    · cases hcut : cut g a with
      | mk ts last =>
        cases ts with
        | nil => rfl
        | cons t ts => rfl

/-- A piece that is a name. -/
structure IsName (g : Grammar α) (n : List α) : Prop where
  ne_nil : n ≠ []
  free : ∀ x ∈ n, g.isSep x = false
  ne_dot : n ≠ [g.dot]
  ne_dotdot : n ≠ [g.dot, g.dot]

theorem IsName.hasRoot {n : List α} (h : IsName g n) : hasRoot g n = false := by
  obtain ⟨x, xs, rfl⟩ := List.exists_cons_of_ne_nil h.ne_nil
  exact h.free x List.mem_cons_self

theorem IsName.getLast {n : List α} (h : IsName g n) : n.getLast?.any g.isSep = false := by
  rw [List.getLast?_eq_some_getLast h.ne_nil]
  exact h.free _ (List.getLast_mem h.ne_nil)

theorem IsName.cut {n : List α} (h : IsName g n) : cut g n = ([], n) := cut_append_of_free h.free []

/-- A string that ends in a separator has an empty last piece. -/
theorem cut_of_getLast {a : List α} (h : a.getLast?.any g.isSep = true) :
    (cut g a).2 = [] ∧ (cut g a).1 ≠ [] := by
  obtain ⟨x, hx, hsep⟩ := (Option.any_eq_true _ _).1 h
  obtain ⟨b, rfl⟩ := List.getLast?_eq_some_iff.1 hx
  rw [cut_append_sep hsep]
  exact ⟨rfl, by simp⟩

theorem getLast_join {a n : List α} (hn : IsName g n) :
    (join g a n).getLast?.any g.isSep = false := by
  have hlast := hn.getLast
  unfold join
  rw [if_neg (by simp [hn.hasRoot])]
  split
  · rw [List.getLast?_append_of_ne_nil _ hn.ne_nil]
    exact hlast
  · rw [List.getLast?_append_of_ne_nil _ (List.cons_ne_nil _ _),
      List.getLast?_cons_of_ne_nil hn.ne_nil]
    exact hlast

theorem join_ne_nil {a n : List α} (hn : IsName g n) : join g a n ≠ [] := by
  have hne := hn.ne_nil
  unfold join
  split
  · exact hne
  · split <;> simp [hne]

theorem cut_join {a n : List α} (ha : a ≠ []) (hn : IsName g n) :
    cut g (join g a n) = (lead g a, n) := by
  unfold join lead
  rw [if_neg (by simp [hn.hasRoot])]
  by_cases hlast : a.getLast?.any g.isSep = true
  · rw [if_pos (.inr hlast), if_pos hlast, cut_append_of_free hn.free, (cut_of_getLast hlast).1,
      List.nil_append]
  · rw [if_neg (by simp [ha, hlast]), if_neg hlast, cut_append_sep g.isSep_sep, hn.cut]

theorem lead_join {a n : List α} (ha : a ≠ []) (hn : IsName g n) :
    lead g (join g a n) = lead g a ++ [(n, g.sep)] := by
  rw [lead, if_neg (by simp [getLast_join hn]), cut_join ha hn]

theorem head_pieces_join {a n : List α} (ha : a ≠ []) (hn : IsName g n) :
    (pieces g (join g a n)).head? = (pieces g a).head? := by
  unfold pieces
  rw [cut_join ha hn, lead]
  split
  · next hlast =>
    have hne : ((cut g a).1).map Prod.fst ≠ [] := by simpa using (cut_of_getLast hlast).2
    rw [List.head?_append_of_ne_nil _ hne, List.head?_append_of_ne_nil _ hne]
  · rw [List.map_append, List.head?_append_of_ne_nil _ (by simp)]
    rfl

theorem hasRoot_join {a n : List α} (ha : a ≠ []) (hn : IsName g n) :
    hasRoot g (join g a n) = hasRoot g a := by
  obtain ⟨x, xs, rfl⟩ := List.exists_cons_of_ne_nil ha
  unfold join
  rw [if_neg (by simp [hn.hasRoot])]
  split <;> rfl

end cutting

/-! ## Section 3: Components and strip_prefix -/

section paths

variable [DecidableEq α] (g : Grammar α)

def body (s : List α) : List (Component α) := (pieces g s).filterMap (piece g.toCharset)

def front (s : List α) : List (Component α) :=
  if hasRoot g s then [.rootDir]
  else if (pieces g s).head? = some [g.dot] then [.curDir]
  else []

def components (s : List α) : List (Component α) := front g s ++ body g s

/-- What is behind the first `n` components, from the next one on. -/
def behind : Nat → List (List α × α) → List α → Cut α
  | 0, [], last => if (piece g.toCharset last).isNone then ([], []) else ([], last)
  | _ + 1, [], _ => ([], [])
  | n, (p, x) :: ts, last =>
    if (piece g.toCharset p).isNone then behind n ts last
    else
      match n with
      | 0 => ((p, x) :: ts, last)
      | n + 1 => behind n ts last

/-- Drop the pieces without a component at the end. -/
def trimEnd (c : Cut α) : List α :=
  if (piece g.toCharset c.2).isSome then glue c
  else
    match (c.1.rdropWhile fun t => (piece g.toCharset t.1).isNone).reverse with
    | [] => []
    | (p, _) :: ts => glue (ts.reverse, p)

/-- What is left of `s` behind the components of `base`. -/
def stripPrefix (s : List α) (base : List (Component α)) : Option (List α) :=
  if base.isPrefixOf (components g s) then
    let names := (base.filter fun c => c != .rootDir && c != .curDir).length
    some (trimEnd g (behind g names (cut g s).1 (cut g s).2))
  else none

variable {g}

theorem IsName.piece {n : List α} (h : IsName g n) : piece g.toCharset n = some (.normal n) := by
  simp [LexPath.piece, h.ne_nil, h.ne_dot, h.ne_dotdot]

/-- The pieces that a name is appended to have the components of the body. -/
theorem filterMap_lead (a : List α) :
    (lead g a).filterMap (fun t => piece g.toCharset t.1) = body g a := by
  have hmap : ∀ ts : List (List α × α), ts.filterMap (fun t => piece g.toCharset t.1)
      = (ts.map Prod.fst).filterMap (piece g.toCharset) := by
    intro ts
    rw [List.filterMap_map]
    rfl
  unfold lead body pieces
  rw [List.filterMap_append, ← hmap]
  split
  · next hlast => simp [(cut_of_getLast hlast).1]
  · rw [List.filterMap_append]
    congr 1

theorem body_join {a n : List α} (ha : a ≠ []) (hn : IsName g n) :
    body g (join g a n) = body g a ++ [.normal n] := by
  rw [← filterMap_lead, lead_join ha hn, List.filterMap_append, filterMap_lead]
  simp [hn.piece]

theorem components_join {a n : List α} (ha : a ≠ []) (hn : IsName g n) :
    components g (join g a n) = components g a ++ [.normal n] := by
  rw [components, front, hasRoot_join ha hn, head_pieces_join ha hn, body_join ha hn,
    ← List.append_assoc]
  rfl

theorem not_isNormal_of_mem_front {s : List α} {c : Component α} (h : c ∈ front g s) :
    c = .rootDir ∨ c = .curDir := by
  unfold front at h
  split at h
  · exact .inl (List.mem_singleton.1 h)
  · split at h
    · exact .inr (List.mem_singleton.1 h)
    · cases h

theorem behind_of_none {p : List α} (hp : piece g.toCharset p = none) (n : Nat) (x : α)
    (ts : List (List α × α)) (last : List α) :
    behind g n ((p, x) :: ts) last = behind g n ts last := by
  cases n <;> simp [behind, hp]

end paths

/-! ## Section 6: A single separator -/

section single

variable [DecidableEq α] (cs : Charset α)

/-- The grammar of `LexPath`. -/
def ofCharset : Grammar α where
  toCharset := cs
  isSep x := x == cs.sep
  isSep_sep := beq_self_eq_true cs.sep
  isSep_dot := by simpa using cs.sep_ne_dot.symm

theorem pieces_ofCharset (s : List α) : pieces (ofCharset cs) s = s.splitOn cs.sep := by
  unfold pieces
  induction s with
  | nil => rfl
  | cons x s ih =>
    rw [List.splitOn_cons_eq_if_modifyHead, ← ih]
    by_cases hx : (x == cs.sep) = true
    · rw [cut_cons_sep (g := ofCharset cs) hx, if_pos hx]
      rfl
    · have hx' : ¬ (ofCharset cs).isSep x = true := hx
      rw [cut, if_neg hx', if_neg hx]
      cases hcut : cut (ofCharset cs) s with
      | mk ts last =>
        cases ts with
        | nil => rfl
        | cons t ts => rfl

theorem hasRoot_ofCharset (s : List α) : hasRoot (ofCharset cs) s = LexPath.hasRoot cs s := by
  cases s with
  | nil => rfl
  | cons x s =>
    rw [Bool.eq_iff_iff]
    simp [hasRoot, LexPath.hasRoot, ofCharset]

theorem components_ofCharset (s : List α) :
    components (ofCharset cs) s = LexPath.components cs s := by
  unfold components LexPath.components front LexPath.front body LexPath.body
  rw [hasRoot_ofCharset, pieces_ofCharset]
  rfl

theorem join_ofCharset (a b : List α) : join (ofCharset cs) a b = LexPath.join cs a b := by
  have hlast : a.getLast?.any (ofCharset cs).isSep = true ↔ a.getLast? = some cs.sep := by
    cases a.getLast? with
    | none => simp
    | some x => simp [ofCharset]
  unfold join LexPath.join
  rw [hasRoot_ofCharset]
  simp only [hlast]
  rfl

variable {cs}

/-- Every separator is the one there is. -/
def Uniform (cs : Charset α) (ts : List (List α × α)) : Prop := ∀ t ∈ ts, t.2 = cs.sep

theorem uniform_cut (s : List α) : Uniform cs (cut (ofCharset cs) s).1 := by
  induction s with
  | nil =>
    intro t ht
    cases ht
  | cons x s ih =>
    rw [cut]
    split
    · next hx =>
      intro t ht
      rcases List.mem_cons.1 ht with rfl | ht
      · exact beq_iff_eq.1 hx
      · exact ih t ht
    · split
      · intro t ht
        cases ht
      · next p y ts last hcut =>
        rw [hcut] at ih
        intro t ht
        rcases List.mem_cons.1 ht with rfl | ht
        · exact ih (p, y) List.mem_cons_self
        · exact ih t (List.mem_cons_of_mem _ ht)

omit [DecidableEq α] in
theorem glue_of_uniform {ts : List (List α × α)} (hts : Uniform cs ts) (last : List α) :
    glue (ts, last) = [cs.sep].intercalate (ts.map Prod.fst ++ [last]) := by
  induction ts with
  | nil => simp [glue, spell]
  | cons t ts ih =>
    have hsep := hts t List.mem_cons_self
    have hrest := ih fun u hu => hts u (List.mem_cons_of_mem t hu)
    rw [List.map_cons, List.cons_append, List.intercalate_cons_of_ne_nil (by simp), ← hrest]
    simp [glue, spell, hsep]

/-- The pieces behind `n` components, from the next one on. -/
def piecesBehind (cs : Charset α) (n : Nat) (ps : List (List α)) : List (List α) :=
  (dropPieces cs n ps).dropWhile fun p => (piece cs p).isNone

theorem behind_ofCharset (n : Nat) {ts : List (List α × α)} (hts : Uniform cs ts) (last : List α) :
    ∃ ts' last', behind (ofCharset cs) n ts last = (ts', last') ∧ Uniform cs ts' ∧
      (piecesBehind cs n (ts.map Prod.fst ++ [last]) = ts'.map Prod.fst ++ [last'] ∨
        piecesBehind cs n (ts.map Prod.fst ++ [last]) = [] ∧ ts' = [] ∧ last' = []) := by
  have hempty : Uniform cs ([] : List (List α × α)) := fun t ht => by cases ht
  induction ts generalizing n with
  | nil =>
    cases n with
    | zero =>
      cases hp : piece cs last with
      | none =>
        refine ⟨[], [], ?_, hempty, .inr ⟨?_, rfl, rfl⟩⟩
        · simp [behind, ofCharset, hp]
        · simp [piecesBehind, dropPieces, hp]
      | some c =>
        refine ⟨[], last, ?_, hempty, .inl ?_⟩
        · simp [behind, ofCharset, hp]
        · simp [piecesBehind, dropPieces, hp]
    | succ n =>
      refine ⟨[], [], rfl, hempty, .inr ⟨?_, rfl, rfl⟩⟩
      cases n <;> simp [piecesBehind, dropPieces]
  | cons t ts ih =>
    obtain ⟨p, y⟩ := t
    have hrest : Uniform cs ts := fun u hu => hts u (List.mem_cons_of_mem _ hu)
    rw [List.map_cons, List.cons_append]
    cases hp : piece cs p with
    | none =>
      have hpieces : piecesBehind cs n (p :: (ts.map Prod.fst ++ [last]))
          = piecesBehind cs n (ts.map Prod.fst ++ [last]) := by
        cases n <;> simp [piecesBehind, dropPieces, hp]
      rw [behind_of_none (g := ofCharset cs) hp, hpieces]
      exact ih n hrest
    | some c =>
      cases n with
      | zero =>
        refine ⟨(p, y) :: ts, last, ?_, hts, .inl ?_⟩
        · simp [behind, ofCharset, hp]
        · simp [piecesBehind, dropPieces, hp]
      | succ n =>
        have hbehind : behind (ofCharset cs) (n + 1) ((p, y) :: ts) last
            = behind (ofCharset cs) n ts last := by
          simp [behind, ofCharset, hp]
        have hpieces : piecesBehind cs (n + 1) (p :: (ts.map Prod.fst ++ [last]))
            = piecesBehind cs n (ts.map Prod.fst ++ [last]) := by
          simp [piecesBehind, dropPieces, hp]
        rw [hbehind, hpieces]
        exact ih n hrest

theorem trimEnd_ofCharset {ts : List (List α × α)} (hts : Uniform cs ts) (last : List α) :
    trimEnd (ofCharset cs) (ts, last) = [cs.sep].intercalate
      ((ts.map Prod.fst ++ [last]).rdropWhile fun p => (piece cs p).isNone) := by
  unfold trimEnd
  split
  · next hlast =>
    have hsome : piece cs last ≠ none := Option.isSome_iff_ne_none.1 hlast
    rw [List.rdropWhile_concat_neg _ _ _ (by simpa using hsome)]
    exact glue_of_uniform hts last
  · next hlast =>
    have hmap : (ts.map Prod.fst).rdropWhile (fun p => (piece cs p).isNone)
        = (ts.rdropWhile fun t => (piece cs t.1).isNone).map Prod.fst := by
      rw [List.rdropWhile, List.rdropWhile, ← List.map_reverse, List.dropWhile_map,
        List.map_reverse]
      rfl
    rw [List.rdropWhile_concat_pos _ _ _ (by simpa [ofCharset] using hlast), hmap]
    show (match (ts.rdropWhile fun t => (piece cs t.1).isNone).reverse with
      | [] => []
      | (p, _) :: us => glue (us.reverse, p)) = _
    have hpre : (ts.rdropWhile fun t => (piece cs t.1).isNone) <+: ts := List.rdropWhile_prefix _ _
    generalize ts.rdropWhile (fun t => (piece cs t.1).isNone) = us at hpre ⊢
    rcases List.eq_nil_or_concat us with rfl | ⟨us, t, rfl⟩
    · rfl
    · have hus : Uniform cs us := fun u hu =>
        hts u (hpre.subset (by rw [List.concat_eq_append]; exact List.mem_append_left _ hu))
      rw [List.concat_eq_append, List.reverse_append, List.map_append]
      show glue (us.reverse.reverse, t.1) = _
      rw [List.reverse_reverse]
      exact glue_of_uniform hus t.1

/-- With a single separator this is the `strip_prefix` of `LexPath`. -/
theorem stripPrefix_ofCharset (s : List α) (base : List (Component α)) :
    stripPrefix (ofCharset cs) s base = LexPath.stripPrefix cs s base := by
  unfold stripPrefix LexPath.stripPrefix
  rw [components_ofCharset]
  split
  · dsimp only
    generalize (base.filter fun c => c != .rootDir && c != .curDir).length = n
    obtain ⟨ts, last, hbehind, hts, hpieces⟩ :=
      behind_ofCharset n (show Uniform cs _ from uniform_cut s) (cut (ofCharset cs) s).2
    have hcut : (cut (ofCharset cs) s).1.map Prod.fst ++ [(cut (ofCharset cs) s).2]
        = s.splitOn cs.sep := pieces_ofCharset cs s
    rw [hcut] at hpieces
    rw [hbehind, trimEnd_ofCharset hts]
    show _ = some ([cs.sep].intercalate
      ((piecesBehind cs n (s.splitOn cs.sep)).rdropWhile fun p => (piece cs p).isNone))
    rcases hpieces with hpieces | ⟨hpieces, rfl, rfl⟩
    · rw [hpieces]
    · rw [hpieces]
      simp [List.rdropWhile]
  · rfl

end single

end SpelledPath
