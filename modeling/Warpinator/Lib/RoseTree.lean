import Mathlib.Data.List.Shortlex
import Mathlib.Data.List.Infix
import Mathlib.Logic.Function.Iterate

/-! # Rose Trees, Breadth First

    Finite trees with any number of children, and their traversal with a queue:
    the head is taken out and its children are put at the end.

    A node is known by its address, the indices of the children on the way to
    it.  Breadth-first order is the shortlex order of the addresses: shallow
    nodes first, and nodes of one depth from left to right.

    * `RoseTree.node?` finds the node at an address, with the values above it.
    * `pop` is a step of the traversal, `order` the list of what is visited, and
      `visits` all of it.
    * `breadthFirst_order`: the traversal visits exactly the nodes of the tree,
      in breadth-first order, and `head_pop` says which one is visited when.
    * `sum_visits`: a sum over what is visited is a sum over the tree. -/

inductive RoseTree (α : Type) where
  | node (value : α) (children : List (RoseTree α))

namespace RoseTree

variable {α : Type}

/-! ## Section 1: Nodes -/

def value : RoseTree α → α
  | .node value _ => value

def children : RoseTree α → List (RoseTree α)
  | .node _ children => children

mutual

/-- The number of nodes. -/
def size : RoseTree α → Nat
  | .node _ children => forestSize children + 1

def forestSize : List (RoseTree α) → Nat
  | [] => 0
  | t :: ts => t.size + forestSize ts

end

theorem size_eq (t : RoseTree α) : t.size = forestSize t.children + 1 := by
  cases t with
  | node value children => rw [size, RoseTree.children]

theorem forestSize_append (ts us : List (RoseTree α)) :
    forestSize (ts ++ us) = forestSize ts + forestSize us := by
  induction ts with
  | nil => simp [forestSize]
  | cons t ts ih =>
    rw [List.cons_append, forestSize, forestSize, ih]
    omega

/-- A node of a tree. -/
structure Visit (α : Type) where
  address : List Nat
  /-- The values above the node, from the root down. -/
  above : List α
  tree : RoseTree α

namespace Visit

/-- The values from the root down to the node. -/
def lineage (v : Visit α) : List α := v.above ++ [v.tree.value]

/-- The children of a node, from left to right. -/
def expand (v : Visit α) : List (Visit α) :=
  v.tree.children.mapIdx fun i child =>
    { address := v.address ++ [i], above := v.lineage, tree := child }

/-- The node at an address below `v`. -/
def descend : Visit α → List Nat → Option (Visit α)
  | v, [] => some v
  | v, i :: a => v.expand[i]?.bind fun child => child.descend a

theorem expand_trees (v : Visit α) : v.expand.map Visit.tree = v.tree.children := by
  refine List.ext_getElem? fun i => ?_
  rw [expand, List.getElem?_map, List.getElem?_mapIdx, Option.map_map]
  exact Option.map_id'

theorem mem_expand {v w : Visit α} (h : w ∈ v.expand) :
    ∃ i, v.expand[i]? = some w ∧ w.address = v.address ++ [i] ∧ w.above = v.lineage := by
  obtain ⟨i, hi⟩ := List.mem_iff_getElem?.1 h
  refine ⟨i, hi, ?_⟩
  rw [expand, List.getElem?_mapIdx] at hi
  obtain ⟨child, _, rfl⟩ := Option.map_eq_some_iff.1 hi
  exact ⟨rfl, rfl⟩

theorem descend_append (v : Visit α) (a b : List Nat) :
    v.descend (a ++ b) = (v.descend a).bind fun w => w.descend b := by
  induction a generalizing v with
  | nil => rfl
  | cons i a ih =>
    rw [List.cons_append, descend, descend, Option.bind_assoc]
    exact Option.bind_congr fun child _ => ih child

theorem descend_address {v w : Visit α} {a : List Nat} (h : v.descend a = some w) :
    w.address = v.address ++ a := by
  induction a generalizing v with
  | nil =>
    obtain rfl := Option.some.inj h
    simp
  | cons i a ih =>
    obtain ⟨child, hchild, hrest⟩ := Option.bind_eq_some_iff.1 h
    rw [expand, List.getElem?_mapIdx] at hchild
    obtain ⟨t, _, rfl⟩ := Option.map_eq_some_iff.1 hchild
    rw [ih hrest]
    simp

/-- The way down to a node begins with the way down to the nodes above it. -/
theorem descend_lineage {v w : Visit α} {a : List Nat} (h : v.descend a = some w) :
    v.lineage <+: w.lineage := by
  induction a generalizing v with
  | nil =>
    obtain rfl := Option.some.inj h
    exact List.prefix_rfl
  | cons i a ih =>
    obtain ⟨child, hchild, hrest⟩ := Option.bind_eq_some_iff.1 h
    obtain ⟨_, _, _, habove⟩ := mem_expand (List.mem_of_getElem? hchild)
    have hfirst : v.lineage <+: child.lineage := by
      rw [lineage, lineage, habove]
      exact List.prefix_append _ _
    exact hfirst.trans (ih hrest)

theorem descend_lineage_length {v w : Visit α} {a : List Nat} (h : v.descend a = some w) :
    w.lineage.length = v.lineage.length + a.length := by
  induction a generalizing v with
  | nil =>
    obtain rfl := Option.some.inj h
    rfl
  | cons i a ih =>
    obtain ⟨child, hchild, hrest⟩ := Option.bind_eq_some_iff.1 h
    obtain ⟨_, _, _, habove⟩ := mem_expand (List.mem_of_getElem? hchild)
    have hlength : child.lineage.length = v.lineage.length + 1 := by
      rw [lineage, List.length_append, habove]
      rfl
    rw [ih hrest, hlength, List.length_cons]
    omega

end Visit

/-- The root. -/
def root (t : RoseTree α) : Visit α where
  address := []
  above := []
  tree := t

/-- The node at an address. -/
def node? (t : RoseTree α) (a : List Nat) : Option (Visit α) := t.root.descend a

/-- Every part of the way to a node leads to a node above it. -/
theorem node_of_prefix {t : RoseTree α} {a : List Nat} {w : Visit α} (h : t.node? a = some w)
    {p : List α} (hp : p <+: w.lineage) (hne : p ≠ []) :
    ∃ u b c, t.node? b = some u ∧ u.descend c = some w ∧ u.lineage = p := by
  have hlength := Visit.descend_lineage_length h
  have hroot : t.root.lineage.length = 1 := rfl
  have hpos := List.length_pos_iff.2 hne
  have hle := hp.length_le
  -- the address down to the length of the part
  have hsplit : t.root.descend (a.take (p.length - 1) ++ a.drop (p.length - 1)) = some w := by
    rw [List.take_append_drop]
    exact h
  rw [Visit.descend_append] at hsplit
  obtain ⟨u, hu, hrest⟩ := Option.bind_eq_some_iff.1 hsplit
  refine ⟨u, _, _, hu, hrest, ?_⟩
  have hulength := Visit.descend_lineage_length hu
  rw [List.length_take] at hulength
  exact List.IsPrefix.eq_of_length (List.prefix_of_prefix_length_le
    (Visit.descend_lineage hrest) hp (by omega)) (by omega)

/-! ## Section 2: The order of addresses -/

/-- Breadth-first order. -/
abbrev Before (a b : List Nat) : Prop := List.Shortlex (· < ·) a b

theorem lex_append_of_length {a b : List Nat} (hlen : a.length = b.length)
    (h : List.Lex (· < ·) a b) (c d : List Nat) : List.Lex (· < ·) (a ++ c) (b ++ d) := by
  induction h with
  | nil => cases hlen
  | cons _ ih =>
    simp only [List.length_cons, Nat.add_right_cancel_iff] at hlen
    exact .cons (ih hlen)
  | rel hr => exact .rel hr

theorem Before.trans {a b c : List Nat} (hab : Before a b) (hbc : Before b c) : Before a c := by
  rw [Before, List.shortlex_def] at *
  rcases hab with hab | ⟨hab, hlex⟩
  · rcases hbc with hbc | ⟨hbc, _⟩
    · exact .inl (by omega)
    · exact .inl (by omega)
  · rcases hbc with hbc | ⟨hbc, hlex'⟩
    · exact .inl (by omega)
    · refine .inr ⟨by omega, ?_⟩
      rw [← List.lt_iff_lex_lt] at *
      exact List.lt_trans hlex hlex'

/-- The children of nodes stand in the order of the nodes. -/
theorem Before.children {a b : List Nat} (h : Before a b) (i j : Nat) :
    Before (a ++ [i]) (b ++ [j]) := by
  rw [Before, List.shortlex_def] at *
  rcases h with h | ⟨h, hlex⟩
  · left
    simp only [List.length_append, List.length_singleton]
    omega
  · right
    refine ⟨by simp [h], lex_append_of_length h hlex _ _⟩

theorem before_append {a b : List Nat} (hb : b ≠ []) : Before a (a ++ b) := by
  refine List.Shortlex.of_length_lt ?_
  have hpos := List.length_pos_iff.2 hb
  rw [List.length_append]
  omega

/-! ## Section 3: The traversal -/

/-- Take the head out of the queue and put its children at the end. -/
def pop : List (Visit α) → List (Visit α)
  | [] => []
  | v :: q => q ++ v.expand

/-- The first `n` nodes that are visited. -/
def order : Nat → List (Visit α) → List (Visit α)
  | 0, _ => []
  | _ + 1, [] => []
  | n + 1, v :: q => v :: order n (pop (v :: q))

/-- The nodes in the queue and below it. -/
def load (q : List (Visit α)) : Nat := forestSize (q.map Visit.tree)

theorem load_pop (v : Visit α) (q : List (Visit α)) : load (v :: q) = load (pop (v :: q)) + 1 := by
  rw [pop, load, load, List.map_append, forestSize_append, Visit.expand_trees, List.map_cons,
    forestSize, size_eq]
  omega

theorem eq_nil_of_load {q : List (Visit α)} (h : load q ≤ 0) : q = [] := by
  cases q with
  | nil => rfl
  | cons v q =>
    rw [load_pop] at h
    omega

theorem pop_iterate_nil (k : Nat) : pop^[k] ([] : List (Visit α)) = [] := by
  induction k with
  | zero => rfl
  | succ k ih => exact ih

/-- What is visited when. -/
theorem head_pop {n : Nat} {q : List (Visit α)} (h : load q ≤ n) (k : Nat) :
    (pop^[k] q).head? = (order n q)[k]? := by
  induction n generalizing q k with
  | zero =>
    obtain rfl := eq_nil_of_load h
    simp [pop_iterate_nil, order]
  | succ n ih =>
    cases q with
    | nil => simp [pop_iterate_nil, order]
    | cons v q =>
      have hload := load_pop v q
      cases k with
      | zero => rfl
      | succ k =>
        rw [Function.iterate_succ_apply, order, List.getElem?_cons_succ]
        exact ih (by omega) k

/-- Nothing is visited that is not below the queue. -/
theorem exists_of_mem_order {n : Nat} {q : List (Visit α)} {w : Visit α} (h : w ∈ order n q) :
    ∃ v ∈ q, ∃ a, v.descend a = some w := by
  induction n generalizing q with
  | zero => cases h
  | succ n ih =>
    cases q with
    | nil => cases h
    | cons v q =>
      rcases List.mem_cons.1 h with rfl | hrest
      · exact ⟨w, List.mem_cons_self, [], rfl⟩
      · obtain ⟨u, hu, a, ha⟩ := ih hrest
        rcases List.mem_append.1 hu with hold | hchild
        · exact ⟨u, List.mem_cons_of_mem v hold, a, ha⟩
        · obtain ⟨i, hi, _, _⟩ := Visit.mem_expand hchild
          exact ⟨v, List.mem_cons_self, i :: a, Option.bind_eq_some_iff.2 ⟨u, hi, ha⟩⟩

/-- Everything below the queue is visited. -/
theorem mem_order_of_descend {n : Nat} {q : List (Visit α)} (h : load q ≤ n) {v w : Visit α}
    (hv : v ∈ q) {a : List Nat} (ha : v.descend a = some w) : w ∈ order n q := by
  induction n generalizing q v a with
  | zero =>
    obtain rfl := eq_nil_of_load h
    cases hv
  | succ n ih =>
    cases q with
    | nil => cases hv
    | cons u q =>
      have hload := load_pop u q
      rcases List.mem_cons.1 hv with rfl | hold
      · cases a with
        | nil =>
          obtain rfl := Option.some.inj ha
          exact List.mem_cons_self
        | cons i a =>
          -- the way goes through a child, which is in the queue now
          obtain ⟨child, hchild, hrest⟩ := Option.bind_eq_some_iff.1 ha
          have hmem : child ∈ pop (v :: q) :=
            List.mem_append_right _ (List.mem_of_getElem? hchild)
          exact List.mem_cons_of_mem _ (ih (by omega) hmem hrest)
      · exact List.mem_cons_of_mem _ (ih (by omega) (List.mem_append_left _ hold) ha)

/-- What is in the queue is in the tree. -/
theorem node_of_mem_pop {t : RoseTree α} (n : Nat) :
    ∀ v ∈ pop^[n] [t.root], ∃ a, t.node? a = some v := by
  induction n with
  | zero =>
    intro v hv
    obtain rfl := List.mem_singleton.1 hv
    exact ⟨[], rfl⟩
  | succ n ih =>
    rw [Function.iterate_succ_apply']
    generalize pop^[n] [t.root] = q at ih ⊢
    intro w hw
    cases q with
    | nil => cases hw
    | cons v q =>
      rcases List.mem_append.1 hw with hold | hchild
      · exact ih w (List.mem_cons_of_mem v hold)
      · obtain ⟨a, ha⟩ := ih v List.mem_cons_self
        obtain ⟨i, hi, _, _⟩ := Visit.mem_expand hchild
        refine ⟨a ++ [i], ?_⟩
        rw [node?] at ha ⊢
        rw [Visit.descend_append, ha, Option.bind_some, Visit.descend, hi]
        rfl

/-! ## Section 4: The order of the traversal -/

/-- The queue is in order, and what its nodes will put at the end comes after
    all of it. -/
structure Lined (q : List (Visit α)) : Prop where
  sorted : q.Pairwise fun v w => Before v.address w.address
  behind : ∀ v ∈ q, ∀ w ∈ q, ∀ i, Before v.address (w.address ++ [i])

theorem expand_sorted (v : Visit α) :
    v.expand.Pairwise fun w w' => Before w.address w'.address := by
  rw [List.pairwise_iff_getElem]
  intro i j hi hj hij
  simp only [Visit.expand, List.getElem_mapIdx]
  refine List.Shortlex.append_left ?_ v.address
  exact (List.shortlex_singleton_iff i j).2 hij

/-- A step keeps the queue in order. -/
theorem lined_pop {v : Visit α} {q : List (Visit α)} (h : Lined (v :: q)) :
    Lined (pop (v :: q)) := by
  obtain ⟨hfirst, hrest⟩ := List.pairwise_cons.1 h.sorted
  refine ⟨List.pairwise_append.2 ⟨hrest, expand_sorted v, fun u hu w hw => ?_⟩, ?_⟩
  · obtain ⟨i, _, haddress, _⟩ := Visit.mem_expand hw
    rw [haddress]
    exact h.behind u (List.mem_cons_of_mem v hu) v List.mem_cons_self i
  · intro u hu w hw i
    rcases List.mem_append.1 hu with hold | hnew
    · have hu := List.mem_cons_of_mem v hold
      rcases List.mem_append.1 hw with hold' | hnew'
      · exact h.behind u hu w (List.mem_cons_of_mem v hold') i
      · obtain ⟨j, _, haddress, _⟩ := Visit.mem_expand hnew'
        have hchild : Before u.address w.address := by
          rw [haddress]
          exact h.behind u hu v List.mem_cons_self j
        exact hchild.trans (before_append (by simp))
    · obtain ⟨j, _, haddress, _⟩ := Visit.mem_expand hnew
      rw [haddress]
      rcases List.mem_append.1 hw with hold' | hnew'
      · -- children of the head before children of what is behind it
        exact (hfirst w hold').children j i
      · obtain ⟨j', _, haddress', _⟩ := Visit.mem_expand hnew'
        rw [haddress', List.append_assoc]
        refine List.Shortlex.of_length_lt ?_
        simp

theorem order_sorted {n : Nat} {q : List (Visit α)} (h : Lined q) :
    (order n q).Pairwise fun v w => Before v.address w.address := by
  induction n generalizing q with
  | zero => exact .nil
  | succ n ih =>
    cases q with
    | nil => exact .nil
    | cons v q =>
      refine List.pairwise_cons.2 ⟨fun w hw => ?_, ih (lined_pop h)⟩
      -- what is visited later is in the queue or below it
      obtain ⟨u, hu, a, ha⟩ := exists_of_mem_order hw
      have hu : Before v.address u.address := by
        rcases List.mem_append.1 hu with hold | hchild
        · exact (List.pairwise_cons.1 h.sorted).1 u hold
        · obtain ⟨i, _, haddress, _⟩ := Visit.mem_expand hchild
          rw [haddress]
          exact before_append (by simp)
      rw [Visit.descend_address ha]
      exact List.Shortlex.append_right a hu

/-- Everything in the queue and below it, in the order of the traversal. -/
def visits (q : List (Visit α)) : List (Visit α) := order (load q) q

@[simp] theorem visits_nil : visits ([] : List (Visit α)) = [] := rfl

theorem visits_cons (v : Visit α) (q : List (Visit α)) :
    visits (v :: q) = v :: visits (pop (v :: q)) := by
  rw [visits, load_pop, order]
  rfl

/-- A list of exactly the nodes of the tree, in breadth-first order. -/
structure BreadthFirst (t : RoseTree α) (vs : List (Visit α)) : Prop where
  mem : ∀ v, v ∈ vs ↔ ∃ a, t.node? a = some v
  sorted : vs.Pairwise fun v w => Before v.address w.address

theorem breadthFirst_order (t : RoseTree α) : BreadthFirst t (order t.size [t.root]) := by
  have hload : load [t.root] ≤ t.size := by simp [load, forestSize, root]
  have hlined : Lined [t.root] := by
    refine ⟨List.pairwise_singleton _ _, fun v hv w hw i => ?_⟩
    obtain rfl := List.mem_singleton.1 hv
    obtain rfl := List.mem_singleton.1 hw
    exact before_append (by simp)
  refine ⟨fun v => ⟨fun hv => ?_, fun ⟨a, ha⟩ => ?_⟩, order_sorted hlined⟩
  · obtain ⟨u, hu, a, ha⟩ := exists_of_mem_order hv
    obtain rfl := List.mem_singleton.1 hu
    exact ⟨a, ha⟩
  · exact mem_order_of_descend hload List.mem_cons_self ha

mutual

/-- The sum of what the nodes weigh. -/
def weight (f : α → Nat) : RoseTree α → Nat
  | .node value children => f value + forestWeight f children

def forestWeight (f : α → Nat) : List (RoseTree α) → Nat
  | [] => 0
  | t :: ts => t.weight f + forestWeight f ts

end

theorem weight_eq (f : α → Nat) (t : RoseTree α) :
    t.weight f = f t.value + forestWeight f t.children := by
  cases t with
  | node value children => rw [weight, RoseTree.value, RoseTree.children]

theorem forestWeight_eq_sum (f : α → Nat) (ts : List (RoseTree α)) :
    forestWeight f ts = (ts.map (weight f)).sum := by
  induction ts with
  | nil => rfl
  | cons t ts ih => rw [forestWeight, ih, List.map_cons, List.sum_cons]

theorem forestWeight_append (f : α → Nat) (ts us : List (RoseTree α)) :
    forestWeight f (ts ++ us) = forestWeight f ts + forestWeight f us := by
  simp [forestWeight_eq_sum]

/-- The traversal leaves out nothing and counts nothing twice. -/
theorem sum_visits (f : α → Nat) (q : List (Visit α)) :
    ((visits q).map fun v => f v.tree.value).sum = forestWeight f (q.map Visit.tree) := by
  induction hload : load q generalizing q with
  | zero =>
    obtain rfl := eq_nil_of_load (by omega : load q ≤ 0)
    rfl
  | succ n ih =>
    cases q with
    | nil => rfl
    | cons v q =>
      have hpop := load_pop v q
      rw [visits_cons, List.map_cons, List.sum_cons, ih _ (by omega), pop, List.map_append,
        forestWeight_append, Visit.expand_trees, List.map_cons, forestWeight, weight_eq]
      omega

theorem mem_visits_root {t : RoseTree α} {v : Visit α} :
    v ∈ visits [t.root] ↔ ∃ a, t.node? a = some v := by
  have hload : load [t.root] = t.size := by simp [load, forestSize, root]
  rw [visits, hload]
  exact (breadthFirst_order t).mem v

/-- No node is visited twice. -/
theorem BreadthFirst.nodup {t : RoseTree α} {vs : List (Visit α)} (h : BreadthFirst t vs) :
    (vs.map Visit.address).Nodup := by
  rw [List.nodup_iff_pairwise_ne, List.pairwise_map]
  refine h.sorted.imp fun hbefore heq => ?_
  rw [heq] at hbefore
  exact (Std.Asymm.asymm _ _ hbefore) hbefore

/-- A node is visited before everything below it. -/
theorem BreadthFirst.lt_of_below {t : RoseTree α} {vs : List (Visit α)} (h : BreadthFirst t vs)
    {i j : Nat} {v w : Visit α} (hv : vs[i]? = some v) (hw : vs[j]? = some w)
    (hbelow : v.address <+: w.address) (hne : v.address ≠ w.address) : i < j := by
  obtain ⟨hi, rfl⟩ := List.getElem?_eq_some_iff.1 hv
  obtain ⟨hj, rfl⟩ := List.getElem?_eq_some_iff.1 hw
  obtain ⟨a, ha⟩ := hbelow
  have hbefore : Before vs[i].address vs[j].address := by
    rw [← ha]
    refine before_append fun hnil => hne ?_
    rw [← ha, hnil, List.append_nil]
  rcases Nat.lt_trichotomy i j with hlt | rfl | hgt
  · exact hlt
  · exact absurd rfl hne
  · have hafter := List.pairwise_iff_getElem.1 h.sorted j i hj hi hgt
    exact absurd hafter (Std.Asymm.asymm _ _ hbefore)

end RoseTree
