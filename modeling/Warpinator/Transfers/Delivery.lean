import Mathlib.Data.List.Nodup
import Warpinator.Transfers.Trees

/-! # Delivery

    The sending and the receiving side put together: a sender that runs
    undisturbed over static trees, and a receiver that processes what it has
    handed over on a file system that does not fail. -/

namespace Warpinator

open LexPath

/-! ## Section 1: Undisturbed senders -/

/-- Neither a cancellation nor an error. -/
def SendLabel.undisturbed : SendLabel → Bool
  | .poll cancelled => !cancelled
  | .io fault => fault.isNone
  | .next fault => !fault
  | .read (.ok _) => true
  | .read (.error _) => false
  | .send accepted => accepted
  | .progress _ => true

def Rooted (sources : List Source) : Prop :=
  ∀ s ∈ sources, (parent s.path.components).isSome

def SendCont.Healthy : SendCont → Prop
  | .nextSource rest => Rooted rest
  | .nextEntry _ _ rest => Rooted rest

/-- The sources left have parents and no error item is pending. -/
def SendPc.Healthy : SendPc → Prop
  | .sourcePoll source rest => Rooted (source :: rest)
  | .sourceMetadata _ _ rest => Rooted rest
  | .walkNext _ _ rest => Rooted rest
  | .walkPoll _ item _ rest => item.isSome ∧ Rooted rest
  | .entryMetadata _ _ _ rest => Rooted rest
  | .sendDir _ cont => cont.Healthy
  | .openFile _ cont => cont.Healthy
  | .filePoll _ cont => cont.Healthy
  | .readFile _ cont => cont.Healthy
  | .sendFile _ _ cont => cont.Healthy
  | .progress _ _ cont => cont.Healthy
  | .returned _ => True

theorem sourceLoop_healthy {rest : List Source} (h : Rooted rest) : (sourceLoop rest).Healthy := by
  cases rest with
  | nil => trivial
  | cons s rest => exact h

theorem resume_healthy {cont : SendCont} (h : cont.Healthy) : cont.resume.Healthy := by
  cases cont with
  | nextSource rest => exact sourceLoop_healthy h
  | nextEntry base entries rest => exact h

theorem SendMove.healthy {pc pc' : SendPc} {l : SendLabel} {cs : List FileChunk}
    (h : SendMove pc l pc' cs) (hl : l.undisturbed = true) (hpc : pc.Healthy) : pc'.Healthy := by
  cases h with
  | sourcePolled base source rest hp => exact fun s hs => hpc s (List.mem_cons_of_mem _ hs)
  | sourceEntered base source rest =>
    unfold enterSource
    split
    · exact hpc
    · exact hpc
    · exact sourceLoop_healthy hpc
  -- excluded: the run is undisturbed
  | walkFailed base entries rest => cases hl
  | walkDone base rest => exact sourceLoop_healthy hpc
  | walkItem base e entries rest => exact ⟨rfl, hpc⟩
  | walkPolled base e entries rest => exact hpc.2
  | entryEntered base e entries rest =>
    unfold enterEntry
    split <;> exact hpc
  | dirSent chunk cont => exact resume_healthy hpc
  | opened file cont => exact hpc
  | fileCancelled file cont => exact resume_healthy hpc
  | filePolled file cont => exact hpc
  | readEof file cont hrem => exact resume_healthy hpc
  | readBytes file cont n hpos hchunk hlen => exact hpc
  | chunkSent chunk file cont => exact hpc
  | progressed bytes bps file cont => exact hpc
  | _ => trivial

/-- An undisturbed step of a healthy sender is no early exit. -/
theorem earlyExit_of_undisturbed {pc : SendPc} {l : SendLabel} (hl : l.undisturbed = true)
    (hpc : pc.Healthy) : earlyExit pc l = false := by
  cases l with
  | poll cancelled =>
    cases cancelled with
    | true => cases hl
    | false =>
      cases pc with
      -- a source has a parent
      | sourcePoll source rest =>
        have hroot := hpc source List.mem_cons_self
        simpa [earlyExit] using hroot
      -- and the walk meets no error item
      | walkPoll base item entries rest =>
        cases item with
        | none => cases hpc.1
        | some e => rfl
      | _ => rfl
  | io fault =>
    cases fault with
    | none => cases pc <;> rfl
    | some e => cases hl
  | next fault => cases pc <;> rfl
  | read answer =>
    cases answer with
    | ok n => cases pc <;> rfl
    | error e => cases hl
  | send accepted =>
    cases accepted with
    | true => cases pc <;> rfl
    | false => cases hl
  | progress bps => cases pc <;> rfl

theorem along_undisturbed {s : Sender} {ls : List SendLabel}
    (hls : ∀ l ∈ ls, l.undisturbed = true) (hs : s.pc.Healthy) :
    sender.Along (fun s l => earlyExit s.pc l = false) s ls := by
  induction ls generalizing s with
  | nil => trivial
  | cons l ls ih =>
    have hl := hls l List.mem_cons_self
    refine ⟨earlyExit_of_undisturbed hl hs, fun s' hs' => ?_⟩
    obtain ⟨cs, _, hmove⟩ := sendStep_move hs'
    exact ih (fun l hl => hls l (List.mem_cons_of_mem _ hl)) (hmove.healthy hl hs)

/-! ## Section 2: Entries of several sources -/

def allEntries (sts : List SourceTree) : List (SourceTree × TreeEntry) :=
  sts.flatMap fun st => st.entries.map fun e => (st, e)

/-- The sanitized relative path of an entry. -/
def sanitizedRel (x : SourceTree × TreeEntry) : String :=
  sanitizePathComponent (x.1.rel x.2.1)

def entryItem (x : SourceTree × TreeEntry) : Option Item := x.1.item x.2

theorem mem_allEntries {sts : List SourceTree} {st : SourceTree} {e : TreeEntry} :
    (st, e) ∈ allEntries sts ↔ st ∈ sts ∧ e ∈ st.entries := by
  simp only [allEntries, List.mem_flatMap, List.mem_map, Prod.mk.injEq]
  constructor
  · rintro ⟨st', hst, e', he, rfl, rfl⟩
    exact ⟨hst, he⟩
  · rintro ⟨hst, he⟩
    exact ⟨st, hst, e, he, rfl, rfl⟩

theorem allItems_perm {sts : List SourceTree} {sources : List Source}
    (h : List.Forall₂ SourceTree.Shows sts sources) :
    (allItems sources).Perm ((allEntries sts).filterMap entryItem) := by
  induction h with
  | nil => exact .refl _
  | @cons st s sts sources hshow _ ih =>
    have hitems : (st.entries.map fun e => (st, e)).filterMap entryItem
        = st.entries.filterMap st.item := by
      rw [List.filterMap_map]
      rfl
    show (sourceItems s ++ allItems sources).Perm _
    rw [allEntries, List.flatMap_cons, List.filterMap_append, hitems]
    exact (SourceTree.items_perm hshow).append ih

/-- Entries with distinct sanitized strings have distinct sanitized paths: two
    strings for one path would need two sources with the same name. -/
theorem pairwise_sanitizedPath {sts : List SourceTree}
    (h : ((allEntries sts).map sanitizedRel).Nodup) :
    (allEntries sts).Pairwise fun x y => x.1.sanitizedPath x.2.1 ≠ y.1.sanitizedPath y.2.1 := by
  rw [List.Nodup, List.pairwise_map, allEntries, List.pairwise_flatMap] at h
  rw [allEntries, List.pairwise_flatMap]
  refine ⟨fun st hst => ?_, h.2.imp fun {st st'} hdistinct => ?_⟩
  · rw [List.pairwise_map]
    have hone := h.1 st hst
    rw [List.pairwise_map] at hone
    exact hone.imp fun hne heq => hne (SourceTree.sanitized_congr st heq)
  · -- entries of two sources: already the roots are told apart
    have hroots := hdistinct (st, ([], st.tree.kind)) (by simp [SourceTree.entries])
      (st', ([], st'.tree.kind)) (by simp [SourceTree.entries])
    intro x hx y hy heq
    obtain ⟨e, _, rfl⟩ := List.mem_map.1 hx
    obtain ⟨e', _, rfl⟩ := List.mem_map.1 hy
    exact hroots (SourceTree.sanitized_root_congr heq)

/-! ## Section 3: The items of the entries -/

theorem entryItem_rel {x : SourceTree × TreeEntry} {i : Item} (h : entryItem x = some i) :
    i.rel = x.1.rel x.2.1 := by
  obtain ⟨st, names, kind⟩ := x
  cases kind with
  | file bytes modified => cases h; rfl
  | dir =>
    simp only [entryItem, SourceTree.item] at h
    split at h <;> cases h
    rfl
  | other => cases h

theorem entryItem_path {x : SourceTree × TreeEntry} {i : Item} (h : entryItem x = some i) :
    i.path = x.1.sanitizedPath x.2.1 := by
  rw [Item.path, Item.sanitized, entryItem_rel h]
  rfl

theorem entryItem_file {x : SourceTree × TreeEntry} {rel : String} {t : Option FileTime}
    {data : List UInt8} (h : entryItem x = some (.file rel t data)) :
    ∃ modified, x.2.2 = .file data modified ∧ t = modified.map .ofSystemTime := by
  obtain ⟨st, names, kind⟩ := x
  cases kind with
  | file bytes modified => cases h; exact ⟨modified, rfl, rfl⟩
  | dir =>
    simp only [entryItem, SourceTree.item] at h
    split at h <;> cases h
  | other => cases h

/-- Entries with one sanitized path are of one kind, with one content.  No two
    distinct entries share a path then, but a source may be listed again. -/
def OneEntryAPath (sts : List SourceTree) : Prop :=
  ∀ x ∈ allEntries sts, ∀ y ∈ allEntries sts,
    x.1.sanitizedPath x.2.1 = y.1.sanitizedPath y.2.1 → x.2.2 = y.2.2

theorem oneEntryAPath_of_nodup {sts : List SourceTree}
    (h : ((allEntries sts).map sanitizedRel).Nodup) : OneEntryAPath sts := by
  intro x hx y hy heq
  have hnodup : ((allEntries sts).map fun x => x.1.sanitizedPath x.2.1).Nodup :=
    List.pairwise_map.2 (pairwise_sanitizedPath h)
  rw [List.inj_on_of_nodup_map hnodup hx hy heq]

/-- A file among the entries is in nobody's way. -/
theorem not_prefix_of_entries {sts : List SourceTree} (h : OneEntryAPath sts)
    {x y : SourceTree × TreeEntry} (hx : x ∈ allEntries sts) (hy : y ∈ allEntries sts)
    (hne : x.1.sanitizedPath x.2.1 ≠ y.1.sanitizedPath y.2.1) (hfile : x.2.2 ≠ .dir) :
    ¬ x.1.sanitizedPath x.2.1 <+: y.1.sanitizedPath y.2.1 := by
  intro hpre
  obtain ⟨st, names, kind⟩ := x
  obtain ⟨st', names', kind'⟩ := y
  obtain ⟨ns, hns, heq⟩ := st'.prefix_sanitizedPath hpre (st.namesPath names).ne_nil
  obtain ⟨hst, hy⟩ := mem_allEntries.1 hy
  -- a file on the way to an entry would be a directory of that entry's source
  have hdir : (ns, EntryKind.dir) ∈ st'.entries := st'.entries_closed hy hns fun hns => by
    subst hns
    exact hne heq.symm
  exact hfile (h _ hx _ (mem_allEntries.2 ⟨hst, hdir⟩) heq.symm)

theorem entryItem_ne_dir {x : SourceTree × TreeEntry} {i : Item} (h : entryItem x = some i)
    (hfile : i.isFile = true) : x.2.2 ≠ .dir := by
  cases i with
  | dir rel => cases hfile
  | file rel t data =>
    obtain ⟨modified, hx, _⟩ := entryItem_file h
    simp [hx]

/-- Items of entries with different paths are apart. -/
theorem apart_of_entries {sts : List SourceTree} (h : OneEntryAPath sts)
    {x y : SourceTree × TreeEntry} (hx : x ∈ allEntries sts) (hy : y ∈ allEntries sts) {i j : Item}
    (hi : entryItem x = some i) (hj : entryItem y = some j) (hne : i.path ≠ j.path) :
    Apart i j := by
  have hne' : x.1.sanitizedPath x.2.1 ≠ y.1.sanitizedPath y.2.1 := by
    rwa [← entryItem_path hi, ← entryItem_path hj]
  refine ⟨hne, fun hfile => ?_, fun hfile => ?_⟩ <;> rw [entryItem_path hi, entryItem_path hj]
  · exact not_prefix_of_entries h hx hy hne' (entryItem_ne_dir hi hfile)
  · exact not_prefix_of_entries h hy hx hne'.symm (entryItem_ne_dir hj hfile)

theorem pairwise_apart {sts : List SourceTree} (h : ((allEntries sts).map sanitizedRel).Nodup) :
    ((allEntries sts).filterMap entryItem).Pairwise Apart := by
  rw [List.pairwise_filterMap]
  refine (pairwise_sanitizedPath h).imp_of_mem fun {x y} hx hy hne i hi j hj => ?_
  refine apart_of_entries (oneEntryAPath_of_nodup h) hx hy hi hj ?_
  rwa [entryItem_path hi, entryItem_path hj]

theorem Apart.symm {i j : Item} (h : Apart i j) : Apart j i := ⟨h.ne.symm, h.right, h.left⟩

/-! ## Section 4: File times -/

/-- Truncated to milliseconds. -/
def SystemTime.truncated (t : SystemTime) : SystemTime where
  nanos := t.nanos / 10 ^ 6 * 10 ^ 6
  lower := by have := t.lower; omega
  upper := by have := t.upper; omega

theorem lower_natCast (n : Nat) : -(2 ^ 63 * 10 ^ 9) ≤ (n : Int) := by omega

theorem afterEpoch_of_lt {n : Nat} (h : (n : Int) < 2 ^ 63 * 10 ^ 9) :
    SystemTime.afterEpoch n = some ⟨n, lower_natCast n, h⟩ := dif_pos h

/-- What the receiver makes of a time that the sender has read off a file. -/
theorem systemTime_ofSystemTime (checks : Bool) (t : SystemTime) :
    ∃ t', (FileTime.ofSystemTime t).systemTime checks = some t' ∧
      (0 ≤ t.nanos → t' = t.truncated) := by
  have hmul : mulU32 checks (FileTime.ofSystemTime t).mtimeUsec 1000
      = some ((FileTime.ofSystemTime t).mtimeUsec * 1000) := by
    refine if_pos ?_
    show t.nanos.toNat % 10 ^ 9 / 10 ^ 6 * 1000 * 1000 < 2 ^ 32
    omega
  have hupper := t.upper
  have hlt : (((FileTime.ofSystemTime t).mtime * 10 ^ 9
      + (FileTime.ofSystemTime t).mtimeUsec * 1000 : Nat) : Int) < 2 ^ 63 * 10 ^ 9 := by
    show ((t.nanos.toNat / 10 ^ 9 * 10 ^ 9
      + t.nanos.toNat % 10 ^ 9 / 10 ^ 6 * 1000 * 1000 : Nat) : Int) < _
    omega
  -- seconds and milliseconds together drop what is below a millisecond
  refine ⟨⟨_, by omega, hlt⟩, ?_, fun hpos => ?_⟩
  · rw [FileTime.systemTime, hmul, Option.bind_some]
    exact afterEpoch_of_lt hlt
  · simp only [SystemTime.truncated, SystemTime.mk.injEq, FileTime.ofSystemTime]
    omega

theorem sendable_of_entry {checks : Bool} {x : SourceTree × TreeEntry} {i : Item}
    (h : entryItem x = some i) : i.Sendable checks where
  names := by
    rw [entryItem_path h, Item.sanitized, entryItem_rel h]
    exact x.1.namesPath x.2.1
  time := by
    rintro rel time data rfl
    obtain ⟨modified, _, ht⟩ := entryItem_file h
    cases modified with
    | none => cases ht
    | some t =>
      cases ht
      obtain ⟨t', ht', _⟩ := systemTime_ofSystemTime checks t
      rw [ht']
      rfl

/-! ## Section 5: Delivery -/

/-- The non-empty files of the sources are in the destination, and no others. -/
structure Delivered (destination : PathBuf) (sts : List SourceTree) (r : Receiver) : Prop where
  files : ∀ st ∈ sts, ∀ names bytes modified, (names, .file bytes modified) ∈ st.entries →
    bytes ≠ [] → ∃ data, r.disk.node (st.location destination names) = some (.file data) ∧
      data.bytes = bytes ∧
      ∀ t, modified = some t → SystemTime.epoch.nanos ≤ t.nanos → data.mtime = some t.truncated
  only : ∀ l data, resolve destination.components <+: l → r.disk.node l = some (.file data) →
    ∃ st ∈ sts, ∃ names bytes modified, (names, .file bytes modified) ∈ st.entries ∧
      bytes ≠ [] ∧ l = st.location destination names

theorem rooted_of_shows {sts : List SourceTree} {sources : List Source}
    (h : List.Forall₂ SourceTree.Shows sts sources) : Rooted sources := by
  induction h with
  | nil => simp [Rooted]
  | @cons st s sts sources hshow _ ih =>
    intro s' hs'
    rcases List.mem_cons.1 hs' with rfl | hs'
    · obtain ⟨init, hinit⟩ := st.body_path
      have hcomp : s'.path.components = front unix st.path ++ LexPath.body unix st.path := by
        rw [hshow.1]
        rfl
      simp [hcomp, hinit, parent, ← List.append_assoc]
    · exact ih s' hs'

/-- The contents of the destination once the receiver rests after all items. -/
theorem delivered_of_holds {checks : Bool} {destination : PathBuf} {sts : List SourceTree}
    {is : List Item} {made : List Path} {r : Receiver}
    (hperm : is.Perm ((allEntries sts).filterMap entryItem))
    (hholds : Holds (resolve destination.components) (is.filterMap (Item.storedFile checks)) made
      r.disk) : Delivered destination sts r where
  files := by
    intro st hst names bytes modified he hne
    have hitem : Item.file (st.rel names) (modified.map .ofSystemTime) bytes ∈ is :=
      hperm.mem_iff.2 (List.mem_filterMap.2 ⟨_, mem_allEntries.2 ⟨hst, he⟩, rfl⟩)
    -- a file with bytes is among what the receiver stores
    have hstored : (st.sanitizedPath names, ⟨bytes, stamp checks (modified.map .ofSystemTime)⟩)
        ∈ is.filterMap (Item.storedFile checks) :=
      List.mem_filterMap.2 ⟨_, hitem, if_neg hne⟩
    have hnode := hholds.files _ hstored
    rw [← (st.namesPath names).resolve_target] at hnode
    refine ⟨_, hnode, rfl, fun t ht hepoch => ?_⟩
    subst ht
    obtain ⟨t', ht', htrunc⟩ := systemTime_ofSystemTime checks t
    simp [stamp, ht', htrunc hepoch]
  only := by
    intro l data hl hnode
    obtain ⟨e, he, rfl⟩ := hholds.only l data hl hnode
    obtain ⟨i, hi, hie⟩ := List.mem_filterMap.1 he
    obtain ⟨x, hx, hxi⟩ := List.mem_filterMap.1 (hperm.mem_iff.1 hi)
    obtain ⟨hpath, _⟩ := Item.storedFile_spec hie
    cases i with
    | dir rel => cases hie
    | file rel t bytes =>
      obtain ⟨modified, hkind, _⟩ := entryItem_file hxi
      have hne : bytes ≠ [] := by
        rintro rfl
        simp [Item.storedFile] at hie
      have hmem := mem_allEntries.1 hx
      refine ⟨x.1, hmem.1, x.2.1, bytes, modified, hkind ▸ hmem.2, hne, ?_⟩
      rw [hpath, entryItem_path hxi, SourceTree.location, (x.1.namesPath x.2.1).resolve_target]

/-- The directory `/s` with the file `a` of one byte. -/
def smallTree : SourceTree where
  path := OsString.ofString "/s"
  tree := .dir (.cons
    { raw := OsString.ofString "a", ne_nil := by decide, not_sep_mem := by decide
      ne_dot := by decide, ne_dotdot := by decide }
    (.file [7] (some .epoch)) .nil)
  name := OsString.ofString "s"
  named := by decide

def smallSource : Source where
  path := OsString.ofString "/s"
  kind := .dir [⟨OsString.ofString "/s/a", .file [7] (some .epoch)⟩]

theorem emptyDestination_emptyTree (destination : PathBuf) :
    EmptyDestination destination (emptyTree destination) where
  above _ hl := if_pos hl
  below _ hl hne := if_neg fun h => hne (h.eq_of_length (le_antisymm h.length_le hl.length_le))

theorem smallTree_shows : smallTree.Shows smallSource := ⟨rfl, _, rfl, .refl _⟩

def smallRun : List SendLabel :=
  [.poll false, .io none, .next false, .poll false, .io none, .io none, .poll false, .read (.ok 1),
    .send true, .progress 1, .poll false, .read (.ok 0), .next false]

/-- A time behind the epoch, with a part below the millisecond. -/
def laterTime : SystemTime := ⟨1700000000123456789, by decide, by decide⟩

/-- The directory `/s` with a file of two bytes and a file of one byte. -/
def pairTree : SourceTree where
  path := OsString.ofString "/s"
  tree := .dir (.cons
    { raw := OsString.ofString "a", ne_nil := by decide, not_sep_mem := by decide
      ne_dot := by decide, ne_dotdot := by decide }
    (.file [7, 8] (some laterTime)) (.cons
    { raw := OsString.ofString "b", ne_nil := by decide, not_sep_mem := by decide
      ne_dot := by decide, ne_dotdot := by decide }
    (.file [9] (some .epoch)) .nil))
  name := OsString.ofString "s"
  named := by decide

def pairSource : Source where
  path := OsString.ofString "/s"
  kind := .dir [⟨OsString.ofString "/s/a", .file [7, 8] (some laterTime)⟩,
    ⟨OsString.ofString "/s/b", .file [9] (some .epoch)⟩]

theorem pairTree_shows : pairTree.Shows pairSource := ⟨rfl, _, rfl, .refl _⟩

def pairRun : List SendLabel :=
  [.poll false, .io none, .next false, .poll false, .io none, .io none, .poll false, .read (.ok 2),
    .send true, .progress 1, .poll false, .read (.ok 0), .next false, .poll false, .io none,
    .io none, .poll false, .read (.ok 1), .send true, .progress 1, .poll false, .read (.ok 0),
    .next false]

def pairStream : ChunkStream :=
  [(.good 1, .ofFile "s/a" (some (.ofSystemTime laterTime)) [7, 8]),
    (.good 1, .ofFile "s/b" (some (.ofSystemTime .epoch)) [9])]

end Warpinator
