import Warpinator.Transfers.Reassembly

/-! # Source Trees

    A static tree of files and directories under a source path, what a walker
    shows of it, and the relative paths under which its entries travel. -/

namespace Warpinator

open LexPath

/-! ## Section 1: Trees -/

/-- A legal name of a directory entry. -/
structure FileName where
  raw : OsString
  ne_nil : raw ≠ []
  not_sep_mem : unix.sep ∉ raw
  ne_dot : raw ≠ [unix.dot]
  ne_dotdot : raw ≠ [unix.dot, unix.dot]

mutual

inductive Tree where
  | file (bytes : List UInt8) (modified : Option SystemTime)
  | dir (children : Forest)
  /-- A symlink or a special file. -/
  | other

inductive Forest where
  | nil
  | cons (name : FileName) (tree : Tree) (rest : Forest)

end

def Tree.kind : Tree → EntryKind
  | .file bytes modified => .file bytes modified
  | .dir _ => .dir
  | .other => .other

/-- An entry of a tree: the names that lead to it, and what it is. -/
abbrev TreeEntry : Type := List FileName × EntryKind

mutual

/-- The entries below the root of a tree. -/
def Tree.descendants : Tree → List TreeEntry
  | .dir children => children.entries
  | .file _ _ => []
  | .other => []

def Forest.entries : Forest → List TreeEntry
  | .nil => []
  | .cons name tree rest =>
    ([name], tree.kind) :: tree.descendants.map (fun e => (name :: e.1, e.2)) ++ rest.entries

end

theorem Tree.kind_of_descendant {t : Tree} {e : TreeEntry} (h : e ∈ t.descendants) :
    t.kind = .dir := by
  cases t with
  | dir children => rfl
  | file bytes modified => simp [Tree.descendants] at h
  | other => simp [Tree.descendants] at h

mutual

/-- The directories on the way to an entry are entries themselves. -/
theorem Tree.descendants_closed (t : Tree) {e : TreeEntry} (he : e ∈ t.descendants)
    {ns : List FileName}
    (hns : ns <+: e.1) (hnil : ns ≠ []) (hne : ns ≠ e.1) : (ns, .dir) ∈ t.descendants := by
  cases t with
  | dir children => exact children.entries_closed he hns hnil hne
  | file bytes modified => simp [Tree.descendants] at he
  | other => simp [Tree.descendants] at he

theorem Forest.entries_closed (f : Forest) {e : TreeEntry} (he : e ∈ f.entries)
    {ns : List FileName} (hns : ns <+: e.1) (hnil : ns ≠ []) (hne : ns ≠ e.1) :
    (ns, .dir) ∈ f.entries := by
  cases f with
  | nil => simp [Forest.entries] at he
  | cons name tree rest =>
    obtain ⟨n, ns, rfl⟩ := List.exists_cons_of_ne_nil hnil
    simp only [Forest.entries, List.cons_append, List.mem_cons, List.mem_append,
      List.mem_map] at he ⊢
    rcases he with rfl | ⟨e', he', rfl⟩ | he
    · -- the child itself has no directory above it
      rw [List.cons_prefix_cons] at hns
      obtain ⟨rfl, hns⟩ := hns
      rw [List.prefix_nil] at hns
      exact absurd (by rw [hns]) hne
    · rw [List.cons_prefix_cons] at hns
      obtain ⟨rfl, hns⟩ := hns
      by_cases hchild : ns = []
      · subst hchild
        exact .inl (by rw [Tree.kind_of_descendant he'])
      · have hne' : ns ≠ e'.1 := fun h => hne (by rw [h])
        exact .inr (.inl ⟨_, tree.descendants_closed he' hns hchild hne', rfl⟩)
    · exact .inr (.inr (rest.entries_closed he hns hnil hne))

end

theorem Forest.entries_ne_nil (f : Forest) {e : TreeEntry} (he : e ∈ f.entries) : e.1 ≠ [] := by
  cases f with
  | nil => simp [Forest.entries] at he
  | cons name tree rest =>
    simp only [Forest.entries, List.cons_append, List.mem_cons, List.mem_append,
      List.mem_map] at he
    rcases he with rfl | ⟨e', _, rfl⟩ | he
    · simp
    · simp
    · exact rest.entries_ne_nil he

/-! ## Section 2: Sources with their trees -/

/-- A source path with a normal final component, and what is there. -/
structure SourceTree where
  path : PathBuf
  tree : Tree
  name : List OsUnit
  named : fileName path.components = some name

namespace SourceTree

/-- The entries of the source, its root first. -/
def entries (st : SourceTree) : List TreeEntry := ([], st.tree.kind) :: st.tree.descendants

/-- The base that relative paths are taken from. -/
def base (st : SourceTree) : Path := (parent st.path.components).getD []

/-- The path that the walker reports for an entry. -/
def entryPath (st : SourceTree) (names : List FileName) : PathBuf :=
  names.foldl (fun p name => join unix p name.raw) st.path

/-- The relative path under which an entry is sent. -/
def rel (st : SourceTree) (names : List FileName) : String :=
  relativePath st.base (st.entryPath names)

/-- The sanitized relative path, as the receiver reads it. -/
def sanitizedPath (st : SourceTree) (names : List FileName) : Path :=
  PathBuf.components (OsString.ofString (sanitizePathComponent (st.rel names)))

/-- Where the receiver puts an entry. -/
def location (st : SourceTree) (destination : PathBuf) (names : List FileName) : Path :=
  resolve (destination.join (sanitizePathComponent (st.rel names))).components

/-- The source as `metadata` and a walker present it: the walker reports every
    entry below the root once, in some order. -/
def Shows (st : SourceTree) (s : Source) : Prop :=
  s.path = st.path ∧
    match st.tree with
    | .file bytes modified => s.kind = .file bytes modified
    | .dir children =>
      ∃ walk, s.kind = .dir walk ∧
        walk.Perm (children.entries.map fun e => ⟨st.entryPath e.1, e.2⟩)
    | .other => s.kind = .other

/-- What the sender makes of an entry.  The root directory itself is not sent. -/
def item (st : SourceTree) (e : TreeEntry) : Option Item :=
  match e.2 with
  | .file bytes modified => some (.file (st.rel e.1) (modified.map .ofSystemTime) bytes)
  | .dir => if e.1 = [] then none else some (.dir (st.rel e.1))
  | .other => none

theorem items_perm {st : SourceTree} {s : Source} (h : st.Shows s) :
    (sourceItems s).Perm (st.entries.filterMap st.item) := by
  obtain ⟨hpath, hkind⟩ := h
  have hrel : relativePath st.base s.path = st.rel [] := by rw [hpath]; rfl
  have hbase : (parent s.path.components).getD [] = st.base := by rw [hpath]; rfl
  unfold sourceItems itemsAt entries
  rw [hbase]
  cases ht : st.tree with
  | file bytes modified =>
    simp only [ht] at hkind
    simp [hkind, Tree.kind, Tree.descendants, item, hrel]
  | other =>
    simp only [ht] at hkind
    simp [hkind, Tree.kind, Tree.descendants, item]
  | dir children =>
    simp only [ht] at hkind
    obtain ⟨walk, hwalk, hperm⟩ := hkind
    have hroot : st.item ([], Tree.kind (.dir children)) = none := by simp [item, Tree.kind]
    rw [hwalk, List.filterMap_cons_none hroot]
    refine (hperm.flatMap_right _).trans (.of_eq ?_)
    rw [List.flatMap_map]
    show children.entries.flatMap _ = children.entries.filterMap st.item
    -- below the root an entry gives its item, or none
    have hone : ∀ e ∈ children.entries,
        entryItems st.base ⟨st.entryPath e.1, e.2⟩ = (st.item e).toList := by
      intro e he
      have hne := children.entries_ne_nil he
      cases hk : e.2 <;> simp [entryItems, item, hk, hne, rel]
    revert hone
    generalize children.entries = es
    intro hone
    induction es with
    | nil => rfl
    | cons e es ih =>
      rw [List.flatMap_cons, hone e List.mem_cons_self,
        ih fun e he => hone e (List.mem_cons_of_mem _ he)]
      cases hi : st.item e <;> simp [hi]

/-! ## Section 3: Relative paths -/

end SourceTree

theorem FileName.hasRoot (n : FileName) : LexPath.hasRoot unix n.raw = false := by
  obtain ⟨x, xs, hx⟩ := List.exists_cons_of_ne_nil n.ne_nil
  have hne : x ≠ unix.sep := by
    rintro rfl
    exact n.not_sep_mem (by rw [hx]; exact List.mem_cons_self)
  simp [LexPath.hasRoot, hx, hne]

theorem FileName.body (n : FileName) : LexPath.body unix n.raw = [.normal n.raw] := by
  have hsplit : n.raw.splitOn unix.sep = [n.raw] := List.splitOn_eq_singleton n.not_sep_mem
  simp [LexPath.body, hsplit, piece, n.ne_nil, n.ne_dot, n.ne_dotdot]

/-- What the wire and the receiver do to a unit of a name. -/
def sanitizeUnit (u : OsUnit) : OsUnit := .char (sanitizeChar u.lossy)

theorem sanitizeChar_eq_iff {d : Char} (hd : d ∉ reservedChars) (hne : d ≠ '_') (c : Char) :
    sanitizeChar c = d ↔ c = d := by
  unfold sanitizeChar
  split
  · next hc =>
    constructor
    · intro h
      exact absurd h.symm hne
    · rintro rfl
      exact absurd hc hd
  · rfl

theorem sanitizeUnit_eq_iff {d : Char} (hd : d ∉ reservedChars) (hne : d ≠ '_')
    (hlossy : d ≠ Char.ofNat 0xFFFD) (u : OsUnit) : sanitizeUnit u = .char d ↔ u = .char d := by
  cases u with
  | char c => simp [sanitizeUnit, OsUnit.lossy, sanitizeChar_eq_iff hd hne]
  | invalid bytes =>
    simp [sanitizeUnit, OsUnit.lossy, sanitizeChar_eq_iff hd hne, hlossy.symm]

/-- Separators and dots stay what they are. -/
theorem sanitizeUnit_respects : Respects unix unix sanitizeUnit where
  sep := sanitizeUnit_eq_iff (by decide) (by decide) (by decide)
  dot := sanitizeUnit_eq_iff (by decide) (by decide) (by decide)

/-- Sanitizing the rendered path is a character replacement on the path. -/
theorem ofString_sanitize (r : OsString) :
    OsString.ofString (sanitizePathComponent (OsString.toStringLossy r)) = r.map sanitizeUnit := by
  simp [OsString.ofString, sanitizePathComponent, OsString.toList_toStringLossy, sanitizeUnit]

namespace SourceTree

variable (st : SourceTree)

/-- The components of the source path behind its front. -/
theorem body_path : ∃ init, LexPath.body unix st.path = init ++ [.normal st.name] := by
  have hlast : st.path.components.getLast? = some (.normal st.name) := by
    have hnamed := st.named
    unfold fileName at hnamed
    split at hnamed
    · next hl => rw [hl, Option.some.inj hnamed]
    · cases hnamed
  have hcomp : st.path.components = front unix st.path ++ LexPath.body unix st.path := rfl
  rw [hcomp, List.getLast?_append] at hlast
  cases hb : (LexPath.body unix st.path).getLast? with
  | some c =>
    rw [hb, Option.some_or, Option.some.injEq] at hlast
    exact ⟨_, (List.dropLast_append_getLast? _ (hlast ▸ hb)).symm⟩
  | none =>
    exfalso
    rw [hb, Option.none_or] at hlast
    -- without a body the last component would belong to the front, which holds no name
    rcases not_isNormal_of_mem_front unix (List.mem_of_getLast? hlast) with h | h <;> cases h

theorem path_ne_nil : st.path ≠ [] := by
  intro h
  obtain ⟨init, hbody⟩ := st.body_path
  rw [h, body_nil] at hbody
  exact absurd hbody.symm (by simp)

theorem entryPath_concat (names : List FileName) (n : FileName) :
    st.entryPath (names ++ [n]) = join unix (st.entryPath names) n.raw := by
  simp [entryPath, List.foldl_append]

theorem entryPath_ne_nil (names : List FileName) : st.entryPath names ≠ [] := by
  induction names using List.reverseRecOn with
  | nil => exact st.path_ne_nil
  | append_singleton names n ih =>
    rw [entryPath_concat]
    exact join_ne_nil unix _ ih n.hasRoot

/-- The path of an entry is the path of its source with the names appended. -/
theorem front_body_entryPath (names : List FileName) :
    front unix (st.entryPath names) = front unix st.path ∧
      LexPath.body unix (st.entryPath names)
        = LexPath.body unix st.path ++ names.map fun n => .normal n.raw := by
  induction names using List.reverseRecOn with
  | nil => exact ⟨rfl, by simp [entryPath]⟩
  | append_singleton names n ih =>
    obtain ⟨hfront, hbody⟩ := front_body_join unix (st.entryPath_ne_nil names) n.hasRoot
    rw [entryPath_concat, hfront, hbody, ih.1, ih.2, n.body]
    simp

theorem base_eq {init : Path} (h : LexPath.body unix st.path = init ++ [.normal st.name]) :
    st.base = front unix st.path ++ init := by
  have hcomp : st.path.components = (front unix st.path ++ init) ++ [.normal st.name] := by
    show front unix st.path ++ LexPath.body unix st.path = _
    rw [h, List.append_assoc]
  simp [base, parent, hcomp]

/-- The base has as many names as come before the name of the source. -/
theorem length_base {init : Path}
    (hinit : LexPath.body unix st.path = init ++ [.normal st.name]) :
    (st.base.filter fun c => c != .rootDir && c != .curDir).length = init.length := by
  have hnone : (front unix st.path).filter (fun c => c != .rootDir && c != .curDir) = [] := by
    rw [List.filter_eq_nil_iff]
    intro c hc
    rcases not_isNormal_of_mem_front unix hc with rfl | rfl <;> simp
  have hall : init.filter (fun c => c != .rootDir && c != .curDir) = init := by
    rw [List.filter_eq_self]
    intro c hc
    have hmem : c ∈ LexPath.body unix st.path := by rw [hinit]; simp [hc]
    have := ne_of_mem_body unix hmem
    simp [this.1, this.2]
  rw [st.base_eq hinit, List.filter_append, hnone, hall, List.nil_append]

/-- Stripping the base leaves the pieces from the name of the source on. -/
theorem stripPrefix_entryPath {init : Path}
    (hinit : LexPath.body unix st.path = init ++ [.normal st.name]) (names : List FileName) :
    stripPrefix unix (st.entryPath names) st.base
      = some ([unix.sep].intercalate
          (trimPieces unix
            (dropPieces unix init.length ((st.entryPath names).splitOn unix.sep)))) := by
  obtain ⟨hfront, hbody⟩ := st.front_body_entryPath names
  have hprefix : st.base <+: components unix (st.entryPath names) := by
    refine ⟨.normal st.name :: names.map fun n => .normal n.raw, ?_⟩
    rw [components, hfront, hbody, st.base_eq hinit, hinit]
    simp
  rw [stripPrefix, if_pos (List.isPrefixOf_iff_prefix.2 hprefix), st.length_base hinit]

/-- The relative path of an entry: the name of the source and the names below
    it, sanitized one by one. -/
theorem sanitizedPath_eq (names : List FileName) :
    st.sanitizedPath names
      = (st.name :: names.map FileName.raw).map fun n => .normal (n.map sanitizeUnit) := by
  obtain ⟨init, hinit⟩ := st.body_path
  have hr := st.stripPrefix_entryPath hinit names
  generalize [unix.sep].intercalate _ = r at hr
  have hrel : components unix r = .normal st.name :: names.map fun n => .normal n.raw := by
    rw [components_stripPrefix unix hr, st.length_base hinit, (st.front_body_entryPath names).2,
      hinit, List.append_assoc, List.drop_left]
    rfl
  have hstring : st.rel names = OsString.toStringLossy r := by
    simp [rel, relativePath, hr]
  show components unix (OsString.ofString (sanitizePathComponent (st.rel names))) = _
  rw [hstring, ofString_sanitize, components_map sanitizeUnit_respects, hrel]
  simp [Component.map, Function.comp_def]

theorem namesPath (names : List FileName) :
    NamesPath (sanitizePathComponent (st.rel names)) (st.sanitizedPath names) where
  components := rfl
  normal := by
    rw [sanitizedPath_eq]
    intro c hc
    obtain ⟨n, _, rfl⟩ := List.mem_map.1 hc
    rfl
  ne_nil := by rw [sanitizedPath_eq]; simp

/-! ## Section 4: Relative paths as strings -/

theorem splitOn_raw (n : FileName) : n.raw.splitOn unix.sep = [n.raw] :=
  List.splitOn_eq_singleton n.not_sep_mem

theorem splitOn_entryPath {names : List FileName} (hne : names ≠ []) :
    (st.entryPath names).splitOn unix.sep = lead unix st.path ++ names.map FileName.raw := by
  induction names using List.reverseRecOn with
  | nil => exact absurd rfl hne
  | append_singleton names n ih =>
    rw [entryPath_concat, splitOn_join unix (st.entryPath_ne_nil names) n.hasRoot, splitOn_raw,
      List.map_append, ← List.append_assoc]
    by_cases hnames : names = []
    · subst hnames
      simp [entryPath]
    · -- a name ends in no separator, so that a join adds one piece
      have hlast : (st.entryPath names).getLast? ≠ some unix.sep := by
        obtain ⟨ms, m, rfl⟩ : ∃ ms m, names = ms ++ [m] :=
          ⟨_, _, (List.dropLast_append_getLast hnames).symm⟩
        rw [entryPath_concat, getLast?_join unix m.ne_nil]
        intro h
        exact m.not_sep_mem (List.mem_of_getLast? h)
      rw [lead_of_getLast?_ne unix hlast, ih hnames]
      rfl

/-- Below the root, a relative path is what the source gives, followed by the
    names. -/
theorem rel_below : ∃ ps : List OsString, ∀ names : List FileName, names ≠ [] →
    st.rel names
      = OsString.toStringLossy ([unix.sep].intercalate (ps ++ names.map FileName.raw)) := by
  obtain ⟨init, hinit⟩ := st.body_path
  set kept := dropPieces unix init.length (lead unix st.path) with hkept
  refine ⟨kept.dropWhile fun p => (piece unix p).isNone, fun names hne => ?_⟩
  have hlead : (lead unix st.path).filterMap (piece unix) = init ++ [.normal st.name] := by
    rw [filterMap_lead, hinit]
  have hpieces : kept.filterMap (piece unix) ≠ [] := by
    rw [hkept, filterMap_dropPieces, hlead, List.drop_left]
    simp
  have hnames : ∀ q ∈ names.map FileName.raw, piece unix q ≠ none := by
    intro q hq
    obtain ⟨n, _, rfl⟩ := List.mem_map.1 hq
    simp [piece, n.ne_nil, n.ne_dot, n.ne_dotdot]
  have hr := st.stripPrefix_entryPath hinit names
  rw [st.splitOn_entryPath hne, dropPieces_append unix _ (by rw [hlead]; simp), ← hkept,
    trimPieces_append unix hpieces hnames (by simpa using hne)] at hr
  simp [rel, relativePath, hr]

theorem rel_root : st.rel [] = OsString.toStringLossy st.name := by
  obtain ⟨init, hinit⟩ := st.body_path
  have hr := st.stripPrefix_entryPath hinit []
  have hpieces : (dropPieces unix init.length ((st.entryPath []).splitOn unix.sep)).filterMap
      (piece unix) = [.normal st.name] := by
    rw [filterMap_dropPieces]
    show (LexPath.body unix (st.entryPath [])).drop init.length = _
    rw [(st.front_body_entryPath []).2, hinit, List.append_assoc, List.drop_left]
    rfl
  rw [trimPieces_eq_singleton unix hpieces] at hr
  simp [rel, relativePath, hr, List.intercalate]

/-- Equal replacements give equal sanitized strings. -/
theorem sanitize_congr {r r' : OsString} (h : r.map sanitizeUnit = r'.map sanitizeUnit) :
    sanitizePathComponent (OsString.toStringLossy r)
      = sanitizePathComponent (OsString.toStringLossy r') := by
  rw [← ofString_sanitize, ← ofString_sanitize] at h
  exact OsString.ofString_injective h

/-- Within one source, the sanitized path determines the sanitized string. -/
theorem sanitized_congr {names names' : List FileName}
    (h : st.sanitizedPath names = st.sanitizedPath names') :
    sanitizePathComponent (st.rel names) = sanitizePathComponent (st.rel names') := by
  rw [sanitizedPath_eq, sanitizedPath_eq] at h
  have hmap : (names.map FileName.raw).map (List.map sanitizeUnit)
      = (names'.map FileName.raw).map (List.map sanitizeUnit) := by
    -- equal paths have equal names, one by one
    apply normal_injective.list_map
    simpa [Function.comp_def] using h
  obtain ⟨ps, hps⟩ := st.rel_below
  -- the root is rendered without its base, so that it stands apart
  by_cases hne : names = []
  · subst hne
    have hne' : names' = [] := by simpa using hmap.symm
    rw [hne']
  · have hne' : names' ≠ [] := by
      rintro rfl
      exact hne (by simpa using hmap)
    rw [hps names hne, hps names' hne']
    apply sanitize_congr
    rw [map_intercalate, map_intercalate, List.map_append, List.map_append, hmap]

/-- What comes before the path of an entry is the path of an entry above it. -/
theorem prefix_sanitizedPath {names : List FileName} {p : Path}
    (hp : p <+: st.sanitizedPath names) (hne : p ≠ []) :
    ∃ ns, ns <+: names ∧ st.sanitizedPath ns = p := by
  obtain ⟨c, q, rfl⟩ := List.exists_cons_of_ne_nil hne
  refine ⟨names.take q.length, List.take_prefix _ _, ?_⟩
  rw [List.prefix_iff_eq_take] at hp
  rw [hp, sanitizedPath_eq, sanitizedPath_eq, ← List.map_take, List.length_cons,
    List.take_succ_cons, List.map_take]

/-- The directories above an entry are entries. -/
theorem entries_closed {e : TreeEntry} (he : e ∈ st.entries) {ns : List FileName}
    (hns : ns <+: e.1) (hne : ns ≠ e.1) : (ns, .dir) ∈ st.entries := by
  rcases List.mem_cons.1 he with rfl | he
  · exact absurd (List.prefix_nil.1 hns) hne
  · by_cases hnil : ns = []
    · subst hnil
      rw [entries, Tree.kind_of_descendant he]
      exact List.mem_cons_self
    · exact List.mem_cons_of_mem _ (st.tree.descendants_closed he hns hnil hne)

/-- Two sources with a common sanitized path have the same sanitized name. -/
theorem sanitized_root_congr {st st' : SourceTree} {names names' : List FileName}
    (h : st.sanitizedPath names = st'.sanitizedPath names') :
    sanitizePathComponent (st.rel []) = sanitizePathComponent (st'.rel []) := by
  rw [sanitizedPath_eq, sanitizedPath_eq, List.map_cons, List.map_cons, List.cons.injEq,
    Component.normal.injEq] at h
  rw [rel_root, rel_root]
  exact sanitize_congr h.1

end SourceTree

end Warpinator
