import Warpinator.Transfers.Omissions

/-! # Sources That Are Listed Again

    Entries that share a sanitized path are copies of one entry: a source is
    listed more than once.  The receiver takes a file that comes directly after
    itself for more of the same file and appends it; a file that comes again
    later is truncated first.

    So the last row of copies decides.  `lastRun` is its length, `keptFiles` what
    it makes of every file, and `Standing` the receiver after some items. -/

namespace Warpinator

open LexPath

/-! ## Section 1: Copies -/

/-- The time that travels with a file. -/
def Item.time : Item → Option FileTime
  | .file _ t _ => t
  | .dir _ => none

/-- Two items are copies of one file or directory. -/
structure Alike (i j : Item) : Prop where
  path : i.path = j.path
  kind : i.isFile = j.isFile
  data : i.data = j.data
  time : i.time = j.time

/-- The items of entries are copies, or in nobody's way. -/
theorem alike_or_apart {sts : List SourceTree} (h : OneEntryAPath sts) {i j : Item}
    (hi : i ∈ (allEntries sts).filterMap entryItem)
    (hj : j ∈ (allEntries sts).filterMap entryItem) : Alike i j ∨ Apart i j := by
  obtain ⟨x, hx, hxi⟩ := List.mem_filterMap.1 hi
  obtain ⟨y, hy, hyj⟩ := List.mem_filterMap.1 hj
  by_cases hpath : i.path = j.path
  · have hkind : x.2.2 = y.2.2 :=
      h x hx y hy (by rwa [← entryItem_path hxi, ← entryItem_path hyj])
    obtain ⟨st, names, kind⟩ := x
    obtain ⟨st', names', kind'⟩ := y
    obtain rfl : kind = kind' := hkind
    refine .inl ⟨hpath, ?_, ?_, ?_⟩
    all_goals
      cases kind with
      | file bytes modified => cases hxi; cases hyj; rfl
      | dir =>
        simp only [entryItem, SourceTree.item] at hxi hyj
        split at hxi
        · cases hxi
        · split at hyj
          · cases hyj
          · cases hxi; cases hyj; rfl
      | other => cases hxi
  · exact .inr (apart_of_entries h hx hy hxi hyj hpath)

/-- To list sources again adds no entry. -/
theorem OneEntryAPath.subset {sts sts' : List SourceTree} (h : OneEntryAPath sts)
    (hsub : sts' ⊆ sts) : OneEntryAPath sts' := by
  have hentries : ∀ x ∈ allEntries sts', x ∈ allEntries sts := by
    rintro ⟨st, e⟩ hx
    obtain ⟨hst, he⟩ := mem_allEntries.1 hx
    exact mem_allEntries.2 ⟨hsub hst, he⟩
  exact fun x hx y hy => h x (hentries x hx) y (hentries y hy)

/-- Where an entry lies. -/
def entryPlace (x : SourceTree × TreeEntry) : Path :=
  x.1.path.components ++ x.2.1.map fun n => .normal n.raw

/-- Entries may be told apart by where they lie: what lies at one place is one
    entry, with the same entries below it from wherever it is listed. -/
theorem oneEntryAPath_of_places {sts : List SourceTree}
    (hsame : ∀ x ∈ allEntries sts, ∀ y ∈ allEntries sts, entryPlace x = entryPlace y →
      x.2.2 = y.2.2)
    (hwhole : ∀ st ∈ sts, ∀ st' ∈ sts, st.path.components = st'.path.components →
      ∀ e ∈ st.entries, e ∈ st'.entries)
    (hdistinct : ∀ x ∈ allEntries sts, ∀ y ∈ allEntries sts, sanitizedRel x = sanitizedRel y →
      entryPlace x = entryPlace y) : OneEntryAPath sts := by
  rintro ⟨st, names, kind⟩ hx ⟨st', names', kind'⟩ hy hpath
  obtain ⟨hst, _⟩ := mem_allEntries.1 hx
  obtain ⟨hst', hentry'⟩ := mem_allEntries.1 hy
  -- the roots have one path, and are listed from one place
  have hroots := hdistinct (st, ([], st.tree.kind))
    (mem_allEntries.2 ⟨hst, List.mem_cons_self⟩) (st', ([], st'.tree.kind))
    (mem_allEntries.2 ⟨hst', List.mem_cons_self⟩) (SourceTree.sanitized_root_congr hpath)
  have hcomponents : st.path.components = st'.path.components := by
    simpa [entryPlace] using hroots
  have hname : st.name = st'.name := by
    have hnamed := st.named
    rw [hcomponents, st'.named] at hnamed
    exact (Option.some.inj hnamed).symm
  have hhere : (names', kind') ∈ st.entries := hwhole st' hst' st hst hcomponents.symm _ hentry'
  have hpath' : st.sanitizedPath names = st.sanitizedPath names' := by
    rw [show st.sanitizedPath names = st'.sanitizedPath names' from hpath,
      SourceTree.sanitizedPath_eq, SourceTree.sanitizedPath_eq, hname]
  have hplace := hdistinct (st, (names, kind)) hx (st, (names', kind'))
    (mem_allEntries.2 ⟨hst, hhere⟩) (st.sanitized_congr hpath')
  exact hsame (st, (names, kind)) hx (st, (names', kind'))
    (mem_allEntries.2 ⟨hst, hhere⟩) hplace

/-! ### The last row of copies -/

/-- How often the file at `p` was sent in a row when it was last sent.  The last
    item comes first. -/
def lastRun (p : Path) : List Item → Nat
  | [] => 0
  | i :: done =>
    if i.path = p then
      if done.head?.map Item.sanitized = some i.sanitized then lastRun p done + 1 else 1
    else lastRun p done

section lastRuns

variable {p : Path} {i : Item} {done : List Item}

theorem lastRun_other (h : i.path ≠ p) : lastRun p (i :: done) = lastRun p done := if_neg h

theorem lastRun_again (h : done.head?.map Item.sanitized = some i.sanitized) :
    lastRun i.path (i :: done) = lastRun i.path done + 1 := by
  rw [lastRun, if_pos rfl, if_pos h]

theorem lastRun_new (h : done.head?.map Item.sanitized ≠ some i.sanitized) :
    lastRun i.path (i :: done) = 1 := by
  rw [lastRun, if_pos rfl, if_neg h]

theorem lastRun_pos (hi : i ∈ done) : 0 < lastRun i.path done := by
  induction done with
  | nil => cases hi
  | cons j done ih =>
    rw [lastRun]
    split
    · split <;> omega
    · next hne =>
      rcases List.mem_cons.1 hi with rfl | hi
      · exact absurd rfl hne
      · exact ih hi

/-- The row is longer than one exactly if the last copy follows another one. -/
theorem lastRun_eq_one_iff (hi : i ∈ done) :
    lastRun i.path done = 1 ↔
      ∀ after j k before, done = after ++ j :: k :: before → j.path = i.path →
        k.sanitized = j.sanitized → ∃ l ∈ after, l.path = i.path := by
  induction done with
  | nil => cases hi
  | cons j done ih =>
    by_cases hpath : j.path = i.path
    · rw [← hpath]
      by_cases hagain : done.head?.map Item.sanitized = some j.sanitized
      · -- the last item is a copy of the one before it
        rw [lastRun_again hagain]
        cases done with
        | nil => cases hagain
        | cons k before =>
          have hk : k.sanitized = j.sanitized := Option.some.inj hagain
          have hkpath : k.path = j.path := by simp only [Item.path, hk]
          have hpos : 0 < lastRun j.path (k :: before) := hkpath ▸ lastRun_pos List.mem_cons_self
          refine iff_of_false (by omega) fun h => ?_
          obtain ⟨l, hl, _⟩ := h [] j k before rfl rfl hk
          cases hl
      · rw [lastRun_new hagain]
        refine iff_of_true rfl fun after j' k before heq hj' hk => ?_
        cases after with
        | nil =>
          obtain ⟨rfl, rfl⟩ := List.cons.inj heq
          exact absurd (congrArg some hk) hagain
        | cons l after =>
          obtain ⟨rfl, _⟩ := List.cons.inj heq
          exact ⟨j, List.mem_cons_self, rfl⟩
    · have hi' : i ∈ done := by
        rcases List.mem_cons.1 hi with rfl | hi
        · exact absurd rfl hpath
        · exact hi
      rw [lastRun_other hpath, ih hi']
      -- the last item has another path, and is in no row of copies
      constructor
      · intro h after j' k before heq hj' hk
        cases after with
        | nil =>
          obtain ⟨rfl, _⟩ := List.cons.inj heq
          exact absurd hj' hpath
        | cons l after =>
          obtain ⟨rfl, rfl⟩ := List.cons.inj heq
          obtain ⟨l', hl', hpath'⟩ := h after j' k before rfl hj' hk
          exact ⟨l', List.mem_cons_of_mem _ hl', hpath'⟩
      · intro h after j' k before heq hj' hk
        obtain ⟨l, hl, hlpath⟩ := h (j :: after) j' k before (by rw [heq]; rfl) hj' hk
        rcases List.mem_cons.1 hl with rfl | hl
        · exact absurd hlpath hpath
        · exact ⟨l, hl, hlpath⟩

end lastRuns

/-! ## Section 2: What the receiver keeps -/

/-- The file that is made of an item and its copies. -/
def Item.kept (checks : Bool) (done : List Item) (i : Item) : Path × FileData :=
  (i.path, ⟨(List.replicate (lastRun i.path done) i.data).flatten, stamp checks i.time⟩)

def keptFiles (checks : Bool) (done : List Item) : List (Path × FileData) :=
  (files done).map (Item.kept checks done)

section kept

variable {checks : Bool} {i j : Item} {done : List Item} {e : Path × FileData}

theorem mem_keptFiles :
    e ∈ keptFiles checks done ↔ ∃ i ∈ done, i.isFile = true ∧ i.kept checks done = e := by
  simp [keptFiles, files, and_assoc]

theorem kept_other (h : j.path ≠ i.path) : i.kept checks (j :: done) = i.kept checks done := by
  simp only [Item.kept, lastRun_other h]

theorem Alike.kept_eq (h : Alike i j) : i.kept checks done = j.kept checks done := by
  simp only [Item.kept, h.path, h.data, h.time]

/-- A directory leaves the files as they are. -/
theorem mem_keptFiles_dir (hj : j.isFile = false) (hdone : ∀ i ∈ done, Alike i j ∨ Apart i j) :
    e ∈ keptFiles checks (j :: done) ↔ e ∈ keptFiles checks done := by
  have hkept : ∀ i ∈ done, i.isFile = true → i.kept checks (j :: done) = i.kept checks done := by
    intro i hi hfile
    rcases hdone i hi with halike | hapart
    · rw [halike.kind, hj] at hfile
      cases hfile
    · exact kept_other hapart.ne.symm
  rw [mem_keptFiles, mem_keptFiles]
  constructor
  · rintro ⟨i, hi, hfile, rfl⟩
    rcases List.mem_cons.1 hi with rfl | hi
    · rw [hj] at hfile
      cases hfile
    · exact ⟨i, hi, hfile, (hkept i hi hfile).symm⟩
  · rintro ⟨i, hi, hfile, rfl⟩
    exact ⟨i, List.mem_cons_of_mem _ hi, hfile, hkept i hi hfile⟩

/-- A file takes the place of its copies. -/
theorem mem_keptFiles_file (hj : j.isFile = true) (hdone : ∀ i ∈ done, Alike i j ∨ Apart i j) :
    e ∈ keptFiles checks (j :: done) ↔
      e = j.kept checks (j :: done) ∨ e ∈ others j.path (keptFiles checks done) := by
  rw [mem_others, mem_keptFiles, mem_keptFiles]
  constructor
  · rintro ⟨i, hi, hfile, rfl⟩
    rcases List.mem_cons.1 hi with rfl | hi
    · exact .inl rfl
    · rcases hdone i hi with halike | hapart
      · exact .inl halike.kept_eq
      · exact .inr ⟨⟨i, hi, hfile, (kept_other hapart.ne.symm).symm⟩, hapart.ne⟩
  · rintro (rfl | ⟨⟨i, hi, hfile, rfl⟩, hne⟩)
    · exact ⟨j, List.mem_cons_self, hj, rfl⟩
    · exact ⟨i, List.mem_cons_of_mem _ hi, hfile, kept_other (Ne.symm hne)⟩

/-- No file is in the way of an item, but for its own copies. -/
theorem keptFiles_clear (hdone : ∀ i ∈ done, Alike i j ∨ Apart i j)
    (he : e ∈ keptFiles checks done) (hne : e.1 ≠ j.path) : ¬ e.1 <+: j.path := by
  obtain ⟨i, hi, hfile, rfl⟩ := mem_keptFiles.1 he
  rcases hdone i hi with halike | hapart
  · exact absurd halike.path hne
  · exact hapart.left hfile

/-- And no directory has been made at the path of a file. -/
theorem madeDirs_clear (hj : j.isFile = true) (hdone : ∀ i ∈ done, Alike i j ∨ Apart i j)
    (hnames : NamesPath j.sanitized j.path) {q : Path} (hq : q ∈ done.filterMap Item.madeDir) :
    ¬ j.path <+: q := by
  intro hle
  obtain ⟨i, hi, hiq⟩ := List.mem_filterMap.1 hq
  rcases hdone i hi with halike | hapart
  · -- only the directory above a copy has been made
    cases i with
    | dir rel => rw [← halike.kind] at hj; cases hj
    | file rel t data =>
      simp only [Item.madeDir] at hiq
      split at hiq
      · cases hiq
      · rw [halike.path, Option.some.injEq] at hiq
        subst hiq
        have hlen := hle.length_le
        have hpos := List.length_pos_of_ne_nil hnames.ne_nil
        rw [List.length_dropLast] at hlen
        omega
  · exact hapart.right hj (hle.trans (Item.madeDir_prefix hiq))

end kept

/-! ## Section 3: Item by item -/

theorem Rests.congr {checks : Bool} {base : Path} {current : Option String}
    {written written' : List (Path × FileData)} {made made' : List Path} {r : Receiver}
    (h : Rests checks base current written made r) (hwritten : ∀ e, e ∈ written ↔ e ∈ written')
    (hmade : ∀ q ∈ made, q ∈ made') : Rests checks base current written' made' r := by
  obtain ⟨r', hfin, hfile, hholds⟩ := h.finalized
  exact ⟨h.path, r', hfin, hfile, hholds.congr hwritten hmade⟩

/-- The receiver after the items `done`, each of which has a chunk, the last one
    first. -/
structure Standing (checks : Bool) (destination : PathBuf) (done : List Item) (r : Receiver) :
    Prop where
  current : r.state.currentPath = done.head?.map Item.sanitized
  rests : Rests checks (resolve destination.components) r.state.currentPath
    (keptFiles checks done) (done.filterMap Item.madeDir) r
  /-- After a directory no file is open, -/
  dir : ∀ i before, done = i :: before → i.isFile = false → r.state.currentFile = none
  /-- and after a file, this file. -/
  file : ∀ i before, done = i :: before → i.isFile = true → ∃ written made,
    Opened (resolve destination.components) i.path i.sanitized i.time
      (List.replicate (lastRun i.path done) i.data).flatten written made r ∧
    (∀ e, e ∈ written ↔ e ∈ others i.path (keptFiles checks done)) ∧
    ∀ q ∈ made, q ∈ done.filterMap Item.madeDir

section items

variable {checks : Bool} {destination : PathBuf} {j : Item} {done : List Item} {r : Receiver}
  {acs : ChunkStream}

/-- A file that is open is what the receiver stands at. -/
theorem standing_of_opened {written : List (Path × FileData)} {made : List Path}
    (hj : j.Sendable checks) (hfile : j.isFile = true)
    (hdone : ∀ i ∈ done, Alike i j ∨ Apart i j)
    (h : Opened (resolve destination.components) j.path j.sanitized j.time
      (List.replicate (lastRun j.path (j :: done)) j.data).flatten written made r)
    (hwritten : ∀ e, e ∈ written ↔ e ∈ others j.path (keptFiles checks done))
    (hmade : ∀ q ∈ made, q ∈ (j :: done).filterMap Item.madeDir) :
    Standing checks destination (j :: done) r := by
  have htime : ∀ time, j.time = some time → (time.systemTime checks).isSome := by
    intro time ht
    cases j with
    | dir rel => cases hfile
    | file rel t data => exact hj.time rel time data (by rw [show t = some time from ht])
  have hkept : ∀ e, e ∈ (j.path, ⟨(List.replicate (lastRun j.path (j :: done)) j.data).flatten,
      stamp checks j.time⟩) :: written ↔ e ∈ keptFiles checks (j :: done) := by
    intro e
    rw [List.mem_cons, hwritten, mem_keptFiles_file hfile hdone]
    rfl
  refine ⟨h.path, ?_, fun i before heq hdir => ?_, fun i before heq _ => ?_⟩
  · rw [h.path]
    exact (h.rests htime).congr hkept hmade
  · obtain ⟨rfl, _⟩ := List.cons.inj heq
    rw [hfile] at hdir
    cases hdir
  · obtain ⟨rfl, _⟩ := List.cons.inj heq
    refine ⟨written, made, h, fun e => ?_, hmade⟩
    rw [hwritten, mem_others, mem_others, mem_keptFiles_file hfile hdone, mem_others]
    constructor
    · rintro ⟨he, hne⟩
      exact ⟨.inr ⟨he, hne⟩, hne⟩
    · rintro ⟨rfl | he, hne⟩
      · exact absurd rfl hne
      · exact he

/-- Where the current path is the one of the next item, the item before is a copy. -/
theorem Standing.again (h : Standing checks destination done r)
    (hdone : ∀ i ∈ done, Alike i j ∨ Apart i j)
    (hcurrent : r.state.currentPath = some j.sanitized) :
    ∃ i before, done = i :: before ∧ Alike i j ∧ i.sanitized = j.sanitized := by
  rw [h.current] at hcurrent
  cases done with
  | nil => cases hcurrent
  | cons i before =>
    have hsame : i.sanitized = j.sanitized := Option.some.inj hcurrent
    refine ⟨i, before, rfl, ?_, hsame⟩
    rcases hdone i List.mem_cons_self with halike | hapart
    · exact halike
    · exact absurd (by simp only [Item.path, hsame]) hapart.ne

theorem mem_madeDirs_cons {q : Path} (hq : q ∈ done.filterMap Item.madeDir) :
    q ∈ (j :: done).filterMap Item.madeDir := by
  obtain ⟨i, hi, hiq⟩ := List.mem_filterMap.1 hq
  exact List.mem_filterMap.2 ⟨i, List.mem_cons_of_mem _ hi, hiq⟩

theorem standing_of_dir {r' : Receiver} (hj : j.isFile = false)
    (hdone : ∀ i ∈ done, Alike i j ∨ Apart i j)
    (hrest : Rests checks (resolve destination.components) (some j.sanitized)
      (keptFiles checks done) ((j :: done).filterMap Item.madeDir) r')
    (hnone : r'.state.currentFile = none) : Standing checks destination (j :: done) r' where
  current := hrest.path
  rests := by
    rw [hrest.path]
    exact hrest.congr (fun e => (mem_keptFiles_dir hj hdone).symm) fun q hq => hq
  dir _ _ _ _ := hnone
  file i before heq hfile := by
    obtain ⟨rfl, _⟩ := List.cons.inj heq
    rw [hj] at hfile
    cases hfile

/-- A directory is made, unless it has been made just before. -/
theorem Standing.directory {rel : String} (h : Standing checks destination done r)
    (hj : (Item.dir rel).Sendable checks)
    (hdone : ∀ i ∈ done, Alike i (.dir rel) ∨ Apart i (.dir rel)) (bps : Nat) :
    ∃ r', processChunk checks destination (.good bps) (.ofDirectory rel) r = .ok r' ∧
      Standing checks destination (.dir rel :: done) r' := by
  by_cases hcurrent : r.state.currentPath = some (Item.dir rel).sanitized
  · obtain ⟨i, before, hdone', halike, _⟩ := h.again hdone hcurrent
    have hnone : r.state.currentFile = none := h.dir i before hdone' halike.kind
    refine ⟨r, ?_, standing_of_dir rfl hdone ?_ hnone⟩
    · have hpath : r.state.currentPath = some (sanitizePathComponent rel) := hcurrent
      have hclear : refusesPath destination (sanitizePathComponent rel) = false :=
        hj.names.not_refused destination
      simp [processChunk, hclear, hpath, writeChunk, hnone]
    · rw [← hcurrent]
      exact h.rests.congr (fun _ => .rfl) fun q hq => mem_madeDirs_cons hq
  · have hclear : ∀ e ∈ keptFiles checks done, ¬ e.1 <+: (Item.dir rel).path := by
      intro e he
      refine keptFiles_clear hdone he ?_
      obtain ⟨i, hi, hfile, rfl⟩ := mem_keptFiles.1 he
      rcases hdone i hi with halike | hapart
      · rw [halike.kind] at hfile
        cases hfile
      · exact hapart.ne
    obtain ⟨r', hstep, hnone, hrest⟩ := processChunk_makes hj.names h.rests hclear hcurrent bps
    exact ⟨r', hstep, standing_of_dir rfl hdone hrest hnone⟩

/-- A file is created, or appended to itself if it has been sent just before. -/
theorem Standing.wholeFile {rel : String} {t : Option FileTime} {data : List UInt8}
    (h : Standing checks destination done r) (hj : (Item.file rel t data).Sendable checks)
    (hne : data ≠ [])
    (hdone : ∀ i ∈ done, Alike i (.file rel t data) ∨ Apart i (.file rel t data))
    (hchunks : FileChunks rel t data (acs.map Prod.snd)) (hgood : Faultless acs) :
    ∃ r', processAll checks destination acs r = .ok r' ∧
      Standing checks destination (.file rel t data :: done) r' := by
  set j : Item := .file rel t data with hjdef
  by_cases hcurrent : r.state.currentPath = some j.sanitized
  · obtain ⟨i, before, hdone', halike, hsame⟩ := h.again hdone hcurrent
    obtain ⟨written, made, hopened, hwritten, hmade⟩ := h.file i before hdone' halike.kind
    rw [halike.path, halike.data, halike.time, hsame] at hopened
    obtain ⟨r', hrun, hopened'⟩ := processAll_appends hj.names hchunks hgood hopened
    refine ⟨r', hrun, standing_of_opened hj rfl hdone ?_ (halike.path ▸ hwritten)
      fun q hq => mem_madeDirs_cons (hmade q hq)⟩
    rw [lastRun_again (by rw [← h.current, hcurrent]), List.replicate_succ', List.flatten_concat]
    exact hopened'
  · obtain ⟨r', hrun, hopened⟩ := processAll_file rel hj.names hchunks hgood hne h.rests
      (fun e he => keptFiles_clear hdone he) (fun q hq => madeDirs_clear rfl hdone hj.names hq)
      hcurrent
    have hmade : ∀ q ∈ j.path.dropLast :: done.filterMap Item.madeDir,
        q ∈ (j :: done).filterMap Item.madeDir := fun q hq => by
      simpa [hjdef, Item.madeDir, hne] using hq
    refine ⟨r', hrun, standing_of_opened hj rfl hdone ?_ (fun _ => .rfl) hmade⟩
    have hone : (List.replicate 1 j.data).flatten = j.data := List.append_nil _
    rw [lastRun_new (by rw [← h.current]; exact hcurrent), hone]
    exact hopened

theorem Standing.item (h : Standing checks destination done r) (hj : j.Sendable checks)
    (hsends : j.sends = true) (hdone : ∀ i ∈ done, Alike i j ∨ Apart i j)
    (hchunks : ItemChunks j (acs.map Prod.snd)) (hgood : Faultless acs) :
    ∃ r', processAll checks destination acs r = .ok r' ∧
      Standing checks destination (j :: done) r' := by
  cases j with
  | dir rel =>
    obtain ⟨⟨ans, c⟩, rfl, hc⟩ := List.map_eq_singleton_iff.1 hchunks
    obtain ⟨bps, rfl⟩ := hgood _ List.mem_cons_self
    subst hc
    obtain ⟨r', hstep, hstanding⟩ := h.directory hj hdone bps
    exact ⟨r', processAll_cons hstep rfl, hstanding⟩
  | file rel t data =>
    have hne : data ≠ [] := by simpa [Item.sends] using hsends
    exact h.wholeFile hj hne hdone hchunks hgood

/-- The chunks of all items.  Only items with chunks count. -/
theorem Standing.items {is : List Item} {css : List (List FileChunk)}
    (h : Standing checks destination done r) (hitems : ∀ i ∈ is, i.Sendable checks)
    (hdone : ∀ i ∈ done ++ is, ∀ j ∈ is, Alike i j ∨ Apart i j)
    (hchunks : List.Forall₂ ItemChunks is css) (hacs : acs.map Prod.snd = css.flatten)
    (hgood : Faultless acs) :
    ∃ r', processAll checks destination acs r = .ok r' ∧
      Standing checks destination ((is.filter Item.sends).reverse ++ done) r' := by
  induction hchunks generalizing acs done r with
  | nil =>
    obtain rfl : acs = [] := List.map_eq_nil_iff.1 hacs
    exact ⟨r, rfl, h⟩
  | @cons i cs is css hi _ ih =>
    rw [List.flatten_cons] at hacs
    obtain ⟨acs₁, acs₂, rfl, hcs, hcss⟩ := List.map_eq_append_iff.1 hacs
    have hgood₁ : Faultless acs₁ := fun ac hac => hgood ac (List.mem_append_left _ hac)
    have hgood₂ : Faultless acs₂ := fun ac hac => hgood ac (List.mem_append_right _ hac)
    have hlater : ∀ k ∈ is, k.Sendable checks := fun k hk => hitems k (List.mem_cons_of_mem _ hk)
    by_cases hsends : i.sends = true
    · obtain ⟨r₁, hrun₁, h₁⟩ := h.item (hitems i List.mem_cons_self) hsends
        (fun k hk => hdone k (List.mem_append_left _ hk) i List.mem_cons_self) (hcs ▸ hi) hgood₁
      obtain ⟨r₂, hrun₂, h₂⟩ := ih h₁ hlater
        (fun k hk l hl => hdone k (by simp only [List.mem_append, List.mem_cons] at hk ⊢; tauto) l
          (List.mem_cons_of_mem _ hl)) hcss hgood₂
      refine ⟨r₂, by rw [processAll_append hrun₁, hrun₂], ?_⟩
      rwa [List.filter_cons_of_pos hsends, List.reverse_cons, List.append_assoc]
    · have hnil : acs₁ = [] := by
        cases i with
        | dir rel => exact absurd rfl hsends
        | file rel t data =>
          obtain rfl : data = [] := by simpa [Item.sends] using hsends
          exact List.map_eq_nil_iff.1 (hcs.trans (ItemChunks.of_empty hi))
      subst hnil
      obtain ⟨r₂, hrun₂, h₂⟩ := ih h hlater
        (fun k hk l hl => hdone k (by simp only [List.mem_append, List.mem_cons] at hk ⊢; tauto) l
          (List.mem_cons_of_mem _ hl)) hcss hgood₂
      exact ⟨r₂, hrun₂, by rwa [List.filter_cons_of_neg hsends]⟩

end items

theorem standing_start {checks : Bool} {destination : PathBuf} {node : Path → Option Node}
    (h : EmptyDestination destination node) : Standing checks destination [] (.start node) where
  current := rfl
  rests := (restsAfter_start h).rests
  dir i before heq := by cases heq
  file i before heq := by cases heq

/-! ## Section 4: The last copies -/

/-- Where a file comes directly after itself, it comes again later. -/
def LastCopyApart : List Item → Prop
  | i :: j :: is =>
    (j.isFile = true → i.sanitized = j.sanitized → ∃ k ∈ is, k.path = j.path) ∧
      LastCopyApart (j :: is)
  | _ => True

instance decidableLastCopyApart : ∀ is, Decidable (LastCopyApart is)
  | [] => inferInstanceAs (Decidable True)
  | [_] => inferInstanceAs (Decidable True)
  | i :: j :: is =>
    have := decidableLastCopyApart (j :: is)
    inferInstanceAs (Decidable ((j.isFile = true → i.sanitized = j.sanitized →
      ∃ k ∈ is, k.path = j.path) ∧ LastCopyApart (j :: is)))

theorem lastCopyApart_iff {is : List Item} : LastCopyApart is ↔
    ∀ before i j after, is = before ++ i :: j :: after → j.isFile = true →
      i.sanitized = j.sanitized → ∃ k ∈ after, k.path = j.path := by
  induction is with
  | nil => simp [LastCopyApart]
  | cons a is ih =>
    cases is with
    | nil => simp [LastCopyApart, List.cons_eq_append_iff]
    | cons b is =>
      rw [LastCopyApart, ih]
      constructor
      · rintro ⟨hfirst, hrest⟩ before i j after heq
        cases before with
        | nil =>
          obtain ⟨rfl, htail⟩ := List.cons.inj heq
          obtain ⟨rfl, rfl⟩ := List.cons.inj htail
          exact hfirst
        | cons c before => exact hrest before i j after (List.cons.inj heq).2
      · exact fun h => ⟨h [] a b is rfl, fun before i j after heq =>
          h (a :: before) i j after (congrArg (a :: ·) heq)⟩

/-- The condition says that every last row of copies has length one. -/
theorem lastRun_reverse_iff {is : List Item}
    (halike : ∀ i ∈ is, ∀ j ∈ is, Alike i j ∨ Apart i j) :
    (∀ i ∈ is, i.isFile = true → lastRun i.path is.reverse = 1) ↔ LastCopyApart is := by
  rw [lastCopyApart_iff]
  constructor
  · intro h before i j after heq hfile hsame
    have hj : j ∈ is := by rw [heq]; simp
    have hone := (lastRun_eq_one_iff (List.mem_reverse.2 hj)).1 (h j hj hfile)
    obtain ⟨k, hk, hpath⟩ := hone after.reverse j i before.reverse (by simp [heq]) rfl hsame
    exact ⟨k, List.mem_reverse.1 hk, hpath⟩
  · intro h i hi hfile
    refine (lastRun_eq_one_iff (List.mem_reverse.2 hi)).2 fun after j k before heq hpath hsame => ?_
    have heq' : is = before.reverse ++ k :: j :: after.reverse := by
      rw [← List.reverse_reverse is, heq]
      simp
    have hj : j ∈ is := by rw [heq']; simp
    have hjfile : j.isFile = true := by
      rcases halike j hj i hi with hj' | hj'
      · rw [hj'.kind, hfile]
      · exact absurd hpath hj'.ne
    obtain ⟨l, hl, hlpath⟩ := h before.reverse k j after.reverse heq' hjfile hsame
    exact ⟨l, List.mem_reverse.1 hl, hlpath.trans hpath⟩

/-! ## Section 5: Delivery -/

theorem Item.storedFile_eq_some {checks : Bool} {i : Item} {e : Path × FileData} :
    i.storedFile checks = some e ↔
      i.sends = true ∧ i.isFile = true ∧ (i.path, ⟨i.data, stamp checks i.time⟩) = e := by
  cases i with
  | dir rel => simp [Item.storedFile, Item.isFile]
  | file rel t data =>
    by_cases hdata : data = []
    · simp [Item.storedFile, Item.sends, hdata]
    · simp [Item.storedFile, Item.sends, Item.isFile, Item.data, Item.time, hdata]

/-- Whatever the sources, the receiver stores the last copies. -/
theorem kept_of_undisturbed {checks : Bool} {destination : PathBuf} {sts : List SourceTree}
    {sources : List Source} {ls : List SendLabel} {s' : Sender}
    {result : Except TransferError Bool} {acs : ChunkStream} {node : Path → Option Node}
    (hshow : List.Forall₂ SourceTree.Shows sts sources)
    (halike : ∀ i ∈ allItems sources, ∀ j ∈ allItems sources, Alike i j ∨ Apart i j)
    (hsend : sender.exec (.start sources) ls = some s') (hls : ∀ l ∈ ls, l.undisturbed = true)
    (hret : s'.pc = .returned result) (hempty : EmptyDestination destination node)
    (hacs : acs.map Prod.snd = s'.handed) (hgood : Faultless acs) :
    ∃ r r' made, processAll checks destination acs (.start node) = .ok r ∧
      receiveRound checks destination none r .endOfStream = .done (.ok true) r' ∧
      Holds (resolve destination.components)
        (keptFiles checks ((allItems sources).filter Item.sends).reverse) made r'.disk := by
  have hpc : (Sender.start sources).pc.Healthy := sourceLoop_healthy (rooted_of_shows hshow)
  -- the sender has handed over the chunks of every item, in the order of its walk
  obtain ⟨css, hcss, hchunks⟩ := (emits_of_returned hsend (along_undisturbed hls hpc) hret).items
  have hsendable : ∀ i ∈ allItems sources, i.Sendable checks := by
    intro i hi
    obtain ⟨x, _, hx⟩ := List.mem_filterMap.1 ((allItems_perm hshow).mem_iff.1 hi)
    exact sendable_of_entry hx
  obtain ⟨r, hrun, hstanding⟩ := (standing_start hempty).items hsendable
    (by simpa using halike) hchunks (hacs.trans hcss) hgood
  rw [List.append_nil] at hstanding
  obtain ⟨r', hfin, _, hholds⟩ := hstanding.rests.finalized
  exact ⟨r, r', _, hrun, by simp [receiveRound, leaveLoop, hfin], hholds⟩

section delivered

variable {checks : Bool} {destination : PathBuf} {sts : List SourceTree} {sources : List Source}
  {made : List Path} {r : Receiver}

/-- A file that is delivered has been sent once in its last row. -/
theorem lastRun_of_delivered {i : Item} {done : List Item}
    (hperm : (allItems sources).Perm ((allEntries sts).filterMap entryItem))
    (hholds : Holds (resolve destination.components) (keptFiles checks done) made r.disk)
    (hdelivered : Delivered destination sts r) (hi : i ∈ allItems sources) (hdone : i ∈ done)
    (hsends : i.sends = true) (hfile : i.isFile = true) : lastRun i.path done = 1 := by
  obtain ⟨x, hx, hxi⟩ := List.mem_filterMap.1 (hperm.mem_iff.1 hi)
  cases i with
  | dir rel => cases hfile
  | file rel t data =>
    have hne : data ≠ [] := by simpa [Item.sends] using hsends
    obtain ⟨modified, hkind, _⟩ := entryItem_file hxi
    obtain ⟨hst, hentry⟩ := mem_allEntries.1 hx
    rw [show x.2 = (x.2.1, .file data modified) from Prod.ext rfl hkind] at hentry
    obtain ⟨found, hnode, hbytes, _⟩ := hdelivered.files x.1 hst x.2.1 data modified hentry hne
    -- what lies there is the copies of the last row
    have hkept := hholds.files _ (mem_keptFiles.2 ⟨_, hdone, hfile, rfl⟩)
    have hloc : x.1.location destination x.2.1
        = resolve destination.components ++ (Item.file rel t data).path := by
      rw [SourceTree.location, (x.1.namesPath x.2.1).resolve_target, entryItem_path hxi]
    rw [hloc] at hnode
    have hfound := Node.file.inj (Option.some.inj (hnode.symm.trans hkept))
    rw [hfound] at hbytes
    have hlen := congrArg List.length hbytes
    have hpos := List.length_pos_of_ne_nil hne
    simp only [Item.kept, Item.data, List.length_flatten, List.map_replicate,
      List.sum_replicate_nat] at hlen
    exact Nat.eq_of_mul_eq_mul_right hpos (by omega)

/-- Where every last row has length one, the sources are delivered. -/
theorem delivered_of_lastRun
    (hperm : (allItems sources).Perm ((allEntries sts).filterMap entryItem))
    (hholds : Holds (resolve destination.components)
      (keptFiles checks ((allItems sources).filter Item.sends).reverse) made r.disk)
    (hone : ∀ i ∈ (allItems sources).filter Item.sends, i.isFile = true →
      lastRun i.path ((allItems sources).filter Item.sends).reverse = 1) :
    Delivered destination sts r := by
  set done := ((allItems sources).filter Item.sends).reverse
  have hmem : ∀ i, i ∈ done ↔ i ∈ allItems sources ∧ i.sends = true := by simp [done]
  have hkept : ∀ i ∈ done, i.isFile = true →
      i.kept checks done = (i.path, ⟨i.data, stamp checks i.time⟩) := by
    intro i hi hfile
    have hrow : lastRun i.path done = 1 := hone i (List.mem_reverse.1 hi) hfile
    rw [Item.kept, hrow, List.replicate_one, List.flatten_singleton]
  have hsame : ∀ e, e ∈ keptFiles checks done ↔
      e ∈ (allItems sources).filterMap (Item.storedFile checks) := by
    intro e
    rw [mem_keptFiles, List.mem_filterMap]
    constructor
    · rintro ⟨i, hi, hfile, rfl⟩
      obtain ⟨hitem, hsends⟩ := (hmem i).1 hi
      exact ⟨i, hitem, Item.storedFile_eq_some.2 ⟨hsends, hfile, (hkept i hi hfile).symm⟩⟩
    · rintro ⟨i, hi, hie⟩
      obtain ⟨hsends, hfile, rfl⟩ := Item.storedFile_eq_some.1 hie
      have hdone : i ∈ done := (hmem i).2 ⟨hi, hsends⟩
      exact ⟨i, hdone, hfile, hkept i hdone hfile⟩
  exact delivered_of_holds hperm (hholds.congr hsame fun q hq => hq)

end delivered

/-- Where no source is listed again, no two items have one path. -/
theorem lastCopyApart_of_pairwise {is : List Item} (h : is.Pairwise Apart) : LastCopyApart is := by
  refine lastCopyApart_iff.2 fun before i j after heq _ hsame => ?_
  rw [heq, List.pairwise_append, List.pairwise_cons] at h
  exact absurd (by simp only [Item.path, hsame]) (h.2.1.1 j List.mem_cons_self).ne

/-- Pairwise different entries are delivered. -/
theorem delivered_of_undisturbed {checks : Bool} {destination : PathBuf} {sts : List SourceTree}
    {sources : List Source} {ls : List SendLabel} {s' : Sender}
    {result : Except TransferError Bool} {acs : ChunkStream} {node : Path → Option Node}
    (hshow : List.Forall₂ SourceTree.Shows sts sources)
    (hdistinct : ((allEntries sts).map sanitizedRel).Nodup)
    (hsend : sender.exec (.start sources) ls = some s') (hls : ∀ l ∈ ls, l.undisturbed = true)
    (hret : s'.pc = .returned result) (hempty : EmptyDestination destination node)
    (hacs : acs.map Prod.snd = s'.handed) (hgood : Faultless acs) :
    ∃ r r', processAll checks destination acs (.start node) = .ok r ∧
      receiveRound checks destination none r .endOfStream = .done (.ok true) r' ∧
      Delivered destination sts r' := by
  have hperm := allItems_perm hshow
  have halike : ∀ i ∈ allItems sources, ∀ j ∈ allItems sources, Alike i j ∨ Apart i j :=
    fun i hi j hj => alike_or_apart (oneEntryAPath_of_nodup hdistinct) (hperm.mem_iff.1 hi)
      (hperm.mem_iff.1 hj)
  have hapart : ((allItems sources).filter Item.sends).Pairwise Apart :=
    ((hperm.pairwise_iff Apart.symm).2 (pairwise_apart hdistinct)).filter _
  obtain ⟨r, r', made, hrun, hend, hholds⟩ :=
    kept_of_undisturbed hshow halike hsend hls hret hempty hacs hgood
  refine ⟨r, r', hrun, hend, delivered_of_lastRun hperm hholds ?_⟩
  exact (lastRun_reverse_iff fun i hi j hj => halike i (List.mem_filter.1 hi).1 j
    (List.mem_filter.1 hj).1).2 (lastCopyApart_of_pairwise hapart)

/-- What an undisturbed sender has handed over, a receiver on a file system
    that does not fail turns into the files of the sources, if and only if no
    file comes directly after itself for the last time. -/
theorem delivered_iff_lastCopyApart {checks : Bool} {destination : PathBuf}
    {sts : List SourceTree} {sources : List Source} {ls : List SendLabel} {s' : Sender}
    {result : Except TransferError Bool} {acs : ChunkStream} {node : Path → Option Node}
    (hshow : List.Forall₂ SourceTree.Shows sts sources) (hone : OneEntryAPath sts)
    (hsend : sender.exec (.start sources) ls = some s') (hls : ∀ l ∈ ls, l.undisturbed = true)
    (hret : s'.pc = .returned result) (hempty : EmptyDestination destination node)
    (hacs : acs.map Prod.snd = s'.handed) (hgood : Faultless acs) :
    ∃ r r', processAll checks destination acs (.start node) = .ok r ∧
      receiveRound checks destination none r .endOfStream = .done (.ok true) r' ∧
      (Delivered destination sts r' ↔ LastCopyApart ((allItems sources).filter Item.sends)) := by
  have hperm := allItems_perm hshow
  have halike : ∀ i ∈ allItems sources, ∀ j ∈ allItems sources, Alike i j ∨ Apart i j :=
    fun i hi j hj => alike_or_apart hone (hperm.mem_iff.1 hi) (hperm.mem_iff.1 hj)
  obtain ⟨r, r', made, hrun, hend, hholds⟩ :=
    kept_of_undisturbed hshow halike hsend hls hret hempty hacs hgood
  refine ⟨r, r', hrun, hend, ?_⟩
  rw [← lastRun_reverse_iff fun i hi j hj =>
    halike i (List.mem_filter.1 hi).1 j (List.mem_filter.1 hj).1]
  constructor
  · intro hdelivered i hi hfile
    obtain ⟨hitem, hsends⟩ := List.mem_filter.1 hi
    exact lastRun_of_delivered hperm hholds hdelivered hitem (List.mem_reverse.2 hi) hsends hfile
  · exact delivered_of_lastRun hperm hholds

/-- The file `/a/x` of one byte. -/
def fileTree : SourceTree where
  path := OsString.ofString "/a/x"
  tree := .file [7] (some laterTime)
  name := OsString.ofString "x"
  named := by decide

def fileSource : Source := ⟨OsString.ofString "/a/x", .file [7] (some laterTime)⟩

theorem fileTree_shows : fileTree.Shows fileSource := ⟨rfl, rfl⟩

def fileRun : List SendLabel :=
  [.poll false, .io none, .io none, .poll false, .read (.ok 1), .send true, .progress 1,
    .poll false, .read (.ok 0)]

def fileStream : ChunkStream := [(.good 1, .ofFile "x" (some (.ofSystemTime laterTime)) [7])]

/-- A file that is listed twice arrives with all its bytes doubled, though both
    sides complete. -/
theorem file_twice_doubled :
    List.Forall₂ SourceTree.Shows [fileTree, fileTree] [fileSource, fileSource] ∧
      OneEntryAPath [fileTree, fileTree] ∧
      (∀ l ∈ fileRun ++ fileRun, l.undisturbed = true) ∧ Faultless (fileStream ++ fileStream) ∧
      EmptyDestination (OsString.ofString "/d") (emptyTree (OsString.ofString "/d")) ∧
      ∃ s' r r', sender.exec (.start [fileSource, fileSource]) (fileRun ++ fileRun) = some s' ∧
        s'.pc = .returned (.ok true) ∧ (fileStream ++ fileStream).map Prod.snd = s'.handed ∧
        processAll true (OsString.ofString "/d") (fileStream ++ fileStream)
          (.start (emptyTree (OsString.ofString "/d"))) = .ok r ∧
        receiveRound true (OsString.ofString "/d") none r .endOfStream = .done (.ok true) r' ∧
        r'.disk.node (fileTree.location (OsString.ofString "/d") [])
          = some (.file ⟨[7, 7], some laterTime.truncated⟩) ∧
        ¬ Delivered (OsString.ofString "/d") [fileTree, fileTree] r' := by
  have hone : OneEntryAPath [fileTree, fileTree] := by
    unfold OneEntryAPath
    decide
  obtain ⟨s', r, r', hsend, hret, hhanded, hrun, hend, hnode⟩ :
      ∃ s' r r', sender.exec (.start [fileSource, fileSource]) (fileRun ++ fileRun) = some s' ∧
        s'.pc = .returned (.ok true) ∧ (fileStream ++ fileStream).map Prod.snd = s'.handed ∧
        processAll true (OsString.ofString "/d") (fileStream ++ fileStream)
          (.start (emptyTree (OsString.ofString "/d"))) = .ok r ∧
        receiveRound true (OsString.ofString "/d") none r .endOfStream = .done (.ok true) r' ∧
        r'.disk.node (fileTree.location (OsString.ofString "/d") [])
          = some (.file ⟨[7, 7], some laterTime.truncated⟩) :=
    ⟨_, _, _, rfl, rfl, by decide, rfl, rfl, by decide⟩
  refine ⟨.cons fileTree_shows (.cons fileTree_shows .nil), hone, by decide,
    by simp [Faultless, fileStream], emptyDestination_emptyTree _, s', r, r', hsend, hret, hhanded,
    hrun, hend, hnode, fun hdelivered => ?_⟩
  obtain ⟨data, hdata, hbytes, _⟩ :=
    hdelivered.files fileTree List.mem_cons_self [] [7] _ List.mem_cons_self (by simp)
  rw [hnode, Option.some.injEq, Node.file.injEq] at hdata
  subst hdata
  cases hbytes

/-- The directory is listed twice, and its files lie between their copies. -/
theorem delivered_pairTwice :
    ∃ r r', processAll true (OsString.ofString "/d") (pairStream ++ pairStream)
        (.start (emptyTree (OsString.ofString "/d"))) = .ok r ∧
      receiveRound true (OsString.ofString "/d") none r .endOfStream = .done (.ok true) r' ∧
      Delivered (OsString.ofString "/d") [pairTree, pairTree] r' := by
  have hlisted : OneEntryAPath [pairTree] := oneEntryAPath_of_nodup (by decide)
  have hone : OneEntryAPath [pairTree, pairTree] := hlisted.subset (by simp)
  obtain ⟨r, r', hrun, hend, hiff⟩ :=
    @delivered_iff_lastCopyApart true (OsString.ofString "/d") _ [pairSource, pairSource]
      (pairRun ++ pairRun) _ _ (pairStream ++ pairStream) _
      (.cons pairTree_shows (.cons pairTree_shows .nil)) hone rfl (by decide) rfl
      (emptyDestination_emptyTree _) (by decide) (by simp [Faultless, pairStream])
  exact ⟨r, r', hrun, hend, hiff.2 (by decide)⟩

end Warpinator
