import Warpinator.Transfers.Totals
import Warpinator.Transfers.VirtualDelivery

/-! # Declared Totals over a Virtual File System

    `process_paths` of `types/transfer.rs` in the `virtual_filesystem` build.  It
    never goes below the entries of a source: `read_dir` has the platform add up
    what is in each of them.  `send_stream_inner` lists every directory itself,
    with `list_dir`.

    `virtual_totals`: if the platform adds up what its directories hold, the
    bytes declared are the bytes sent and the bytes shown as transferred. -/

namespace Warpinator

open RoseTree

/-! ## Section 1: process_paths -/

/-- `VirtualMetadata`, as far as `process_paths` reads it. -/
structure VirtualStat where
  isDir : Bool
  name : String
  size : BitVec 64
  fileCount : BitVec 64
  deriving DecidableEq

/-- What `process_paths` finds at a path. -/
structure VirtualView where
  metadata : Except VirtualFilesystemError VirtualStat
  readDir : Except VirtualFilesystemError (List VirtualStat)

def Counting.addEntry (c : Counting) (entry : VirtualStat) : Counting :=
  ⟨c.totalSize + entry.size, c.fileCount + entry.fileCount⟩

/-- The loop over the paths. -/
def virtualProcessLoop : List VirtualView → Counting → List String →
    Except SourcePathError (Counting × List String)
  | [], c, entryNames => .ok (c, entryNames)
  | p :: ps, c, entryNames =>
    match p.metadata with
    | .error e => .error (.virtualFilesystemError e)
    | .ok metadata =>
      if metadata.isDir then
        match p.readDir with
        | .error e => .error (.virtualFilesystemError e)
        | .ok entries =>
          virtualProcessLoop ps (entries.foldl Counting.addEntry c) (entryNames ++ [metadata.name])
      else virtualProcessLoop ps (c.addFile metadata.size) (entryNames ++ [metadata.name])

/-- `split_once('.')`, with the part behind the dot. -/
def afterFirstDot (name : String) : String :=
  String.ofList ((name.toList.dropWhile fun c => c ≠ '.').drop 1)

namespace Transfer

/-- `process_paths` for more than a single file. -/
def virtualProcessAllPaths (t : Transfer) (paths : List VirtualView) :
    Except SourcePathError Unit × Transfer :=
  match virtualProcessLoop paths .zero [] with
  | .error e => (.error e, t)
  | .ok (c, entryNames) =>
    (.ok (), t.withTotals
      { totalBytes := c.totalSize.toNat
        fileCount := c.fileCount.toNat
        entryNames := entryNames
        singleName := none
        singleMimeType := none })

/-- `process_paths`; `first` is the answer of `metadata(paths[0])` and `mime` is
    `mime_guess`. -/
def virtualProcessPaths (mime : String → String)
    (first : Except VirtualFilesystemError VirtualStat) (t : Transfer) (paths : List VirtualView) :
    Except SourcePathError Unit × Transfer :=
  match paths with
  | [p] =>
    match first with
    | .error e => (.error (.virtualFilesystemError e), t)
    | .ok metadata =>
      if metadata.isDir then t.virtualProcessAllPaths [p]
      else
        (.ok (), t.withTotals
          { totalBytes := metadata.size.toNat
            fileCount := 1
            entryNames := [metadata.name]
            singleName := some metadata.name
            singleMimeType := some (mime (afterFirstDot metadata.name)) })
  | _ => t.virtualProcessAllPaths paths

end Transfer

/-! ## Section 2: What the platform adds up -/

/-- The bytes of a node, without what is below it. -/
def StaticVfs.bytes (fs : StaticVfs) (e : VirtualEntry) : Nat :=
  if e.isDir then 0 else (fs.contents e.path).length

/-- A node as a number of files. -/
def VirtualEntry.files (e : VirtualEntry) : Nat := if e.isDir then 0 else 1

/-- The answers of `metadata` and `read_dir` for a source: the size of a file is
    the number of its bytes, that of an entry of a directory the number of all
    bytes in it.  The entries may come in any order. -/
structure StaticVfs.Measures (fs : StaticVfs) (t : RoseTree VirtualEntry) (p : VirtualView) :
    Prop where
  metadata : ∃ m, p.metadata = .ok m ∧ m.isDir = t.value.isDir ∧ m.name = t.value.name ∧
    (t.value.isDir = false → m.size = .ofNat 64 (fs.contents t.value.path).length)
  readDir : t.value.isDir = true → ∃ entries children, p.readDir = .ok entries ∧
    children.Perm t.children ∧
    List.Forall₂ (fun c m => m.size = .ofNat 64 (weight fs.bytes c)) children entries

/-- `read_dir` counts the files in each entry of the directory. -/
def CountsFiles (t : RoseTree VirtualEntry) (p : VirtualView) : Prop :=
  t.value.isDir = true → ∀ entries, p.readDir = .ok entries → ∃ children,
    children.Perm t.children ∧
    List.Forall₂ (fun c m => m.fileCount = .ofNat 64 (weight VirtualEntry.files c)) children entries

section counting

variable {fs : StaticVfs} {trees : List (RoseTree VirtualEntry)} {paths : List VirtualView}

theorem foldl_addEntry (entries : List VirtualStat) (c : Counting) :
    entries.foldl Counting.addEntry c =
      ⟨entries.foldl (fun n m => n + m.size) c.totalSize,
        entries.foldl (fun n m => n + m.fileCount) c.fileCount⟩ := by
  induction entries generalizing c with
  | nil => rfl
  | cons m entries ih => rw [List.foldl_cons, ih]; rfl

/-- A counter that is given the weight of each tree comes to the weight of all. -/
theorem foldl_weight {f : VirtualEntry → Nat} {g : VirtualStat → BitVec 64}
    {ts us : List (RoseTree VirtualEntry)} {entries : List VirtualStat} (hperm : ts.Perm us)
    (h : List.Forall₂ (fun c m => g m = .ofNat 64 (weight f c)) ts entries) (n : BitVec 64) :
    entries.foldl (fun n m => n + g m) n = n + .ofNat 64 (forestWeight f us) := by
  have hweight : forestWeight f us = forestWeight f ts := by
    rw [forestWeight_eq_sum, forestWeight_eq_sum]
    exact (hperm.symm.map (weight f)).sum_eq
  rw [hweight]
  clear hperm hweight
  induction h generalizing n with
  | nil => simp [forestWeight]
  | cons hm _ ih =>
    rw [List.foldl_cons, ih, hm, forestWeight, BitVec.ofNat_add, BitVec.add_assoc]

/-- A directory weighs what is below it. -/
theorem weight_of_dir {f : VirtualEntry → Nat} (hf : ∀ e : VirtualEntry, e.isDir = true → f e = 0)
    {t : RoseTree VirtualEntry} (hdir : t.value.isDir = true) :
    t.weight f = forestWeight f t.children := by
  rw [weight_eq, hf _ hdir, Nat.zero_add]

/-- A file has nothing below it. -/
theorem weight_of_file {f : VirtualEntry → Nat} {t : RoseTree VirtualEntry}
    (hlists : Lists fs.listDir t) (hfile : t.value.isDir = false) : t.weight f = f t.value := by
  cases hlists with
  | directory hdir _ _ =>
    rw [RoseTree.value, hdir] at hfile
    cases hfile
  | file _ => rw [weight, forestWeight, Nat.add_zero, RoseTree.value]

theorem bytes_of_dir (e : VirtualEntry) (h : e.isDir = true) : fs.bytes e = 0 := if_pos h

theorem files_of_dir (e : VirtualEntry) (h : e.isDir = true) : e.files = 0 := if_pos h

theorem bytes_of_file {e : VirtualEntry} (h : e.isDir = false) :
    fs.bytes e = (fs.contents e.path).length := by
  simp [StaticVfs.bytes, h]

theorem files_of_file {e : VirtualEntry} (h : e.isDir = false) : e.files = 1 := by
  simp [VirtualEntry.files, h]

/-- What the loop adds up over measured sources. -/
theorem virtualProcessLoop_totals {c c' : Counting} {entryNames entryNames' : List String}
    (hlists : ∀ t ∈ trees, Lists fs.listDir t) (hmeasures : List.Forall₂ fs.Measures trees paths)
    (h : virtualProcessLoop paths c entryNames = .ok (c', entryNames')) :
    c'.totalSize = c.totalSize + .ofNat 64 (forestWeight fs.bytes trees) ∧
      (List.Forall₂ CountsFiles trees paths →
        c'.fileCount = c.fileCount + .ofNat 64 (forestWeight VirtualEntry.files trees)) ∧
      entryNames' = entryNames ++ trees.map fun t => t.value.name := by
  induction hmeasures generalizing c entryNames with
  | nil =>
    cases h
    simp [forestWeight]
  | @cons t p trees paths ht _ ih =>
    obtain ⟨m, hmetadata, hisDir, hname, hsize⟩ := ht.metadata
    have hrest := fun {c entryNames} => @ih c entryNames
      fun t' ht' => hlists t' (List.mem_cons_of_mem t ht')
    have hlist := hlists t List.mem_cons_self
    rw [virtualProcessLoop, hmetadata] at h
    dsimp only at h
    by_cases hdir : t.value.isDir = true
    · obtain ⟨entries, children, hread, hperm, hsizes⟩ := ht.readDir hdir
      rw [if_pos (hisDir.trans hdir), hread] at h
      obtain ⟨hbytes, hfiles, hnames⟩ := hrest h
      rw [foldl_addEntry] at hbytes hfiles
      refine ⟨?_, fun hcounts => ?_, ?_⟩
      · rw [hbytes, forestWeight, weight_of_dir bytes_of_dir hdir, BitVec.ofNat_add,
          ← BitVec.add_assoc, ← foldl_weight hperm hsizes]
      · obtain ⟨hcount, hcounts⟩ := List.forall₂_cons.1 hcounts
        obtain ⟨counted, hperm', hcounted⟩ := hcount hdir entries hread
        rw [hfiles hcounts, forestWeight, weight_of_dir files_of_dir hdir, BitVec.ofNat_add,
          ← BitVec.add_assoc, ← foldl_weight hperm' hcounted]
      · rw [hnames, hname, List.map_cons, List.append_assoc]
        rfl
    · have hfile : t.value.isDir = false := by simpa using hdir
      have hno : ¬ m.isDir = true := by rw [hisDir]; exact hdir
      rw [if_neg hno] at h
      obtain ⟨hbytes, hfiles, hnames⟩ := hrest h
      refine ⟨?_, fun hcounts => ?_, ?_⟩
      · rw [hbytes, Counting.addFile, hsize hfile, forestWeight, weight_of_file hlist hfile,
          bytes_of_file hfile, BitVec.ofNat_add, BitVec.add_assoc]
      · rw [hfiles (List.forall₂_cons.1 hcounts).2, Counting.addFile, forestWeight,
          weight_of_file hlist hfile, files_of_file hfile, BitVec.ofNat_add, ← BitVec.add_assoc]
        rfl
      · rw [hnames, hname, List.map_cons, List.append_assoc]
        rfl

/-- What `process_paths` declares about measured sources, after the loop. -/
theorem virtualProcessAllPaths_totals {t t' : Transfer} (hlists : ∀ t ∈ trees, Lists fs.listDir t)
    (hmeasures : List.Forall₂ fs.Measures trees paths)
    (h : t.virtualProcessAllPaths paths = (.ok (), t')) :
    t'.totalBytes = (BitVec.ofNat 64 (forestWeight fs.bytes trees)).toNat ∧
      (List.Forall₂ CountsFiles trees paths →
        t'.fileCount = (BitVec.ofNat 64 (forestWeight VirtualEntry.files trees)).toNat) ∧
      t'.entryNames = trees.map fun t => t.value.name := by
  unfold Transfer.virtualProcessAllPaths at h
  split at h
  · cases h
  · next c entryNames hloop =>
    obtain ⟨hbytes, hfiles, hnames⟩ := virtualProcessLoop_totals hlists hmeasures hloop
    cases h
    refine ⟨?_, fun hcounts => ?_, ?_⟩
    · simp [Transfer.withTotals, hbytes, Counting.zero]
    · simp [Transfer.withTotals, hfiles hcounts, Counting.zero]
    · simp [Transfer.withTotals, hnames]

/-- What `process_paths` declares about measured sources. -/
theorem virtualProcessPaths_totals {mime : String → String}
    {first : Except VirtualFilesystemError VirtualStat} {t t' : Transfer}
    (hlists : ∀ t ∈ trees, Lists fs.listDir t) (hmeasures : List.Forall₂ fs.Measures trees paths)
    (hfirst : ∀ p ∈ paths.head?, first = p.metadata)
    (h : t.virtualProcessPaths mime first paths = (.ok (), t')) :
    t'.totalBytes = (BitVec.ofNat 64 (forestWeight fs.bytes trees)).toNat ∧
      (List.Forall₂ CountsFiles trees paths →
        t'.fileCount = (BitVec.ofNat 64 (forestWeight VirtualEntry.files trees)).toNat) ∧
      t'.entryNames = trees.map fun t => t.value.name := by
  unfold Transfer.virtualProcessPaths at h
  split at h
  · next p =>
    split at h
    · cases h
    · next m =>
      split at h
      · exact virtualProcessAllPaths_totals hlists hmeasures h
      · next hno =>
        -- the shorter way: the source is a file
        obtain ⟨tree, rest, htree, hrest, rfl⟩ := List.forall₂_cons_right_iff.1 hmeasures
        obtain rfl : rest = [] := List.forall₂_nil_right_iff.1 hrest
        obtain ⟨m', hmetadata, hisDir, hname, hsize⟩ := htree.metadata
        obtain rfl : m = m' := Except.ok.inj ((hfirst p rfl).trans hmetadata)
        have hfile : tree.value.isDir = false := by rw [← hisDir]; simpa using hno
        have hlist := hlists tree List.mem_cons_self
        cases h
        refine ⟨?_, fun _ => ?_, ?_⟩
        · rw [forestWeight, forestWeight, weight_of_file hlist hfile, bytes_of_file hfile,
            Nat.add_zero, ← hsize hfile]
          rfl
        · rw [forestWeight, forestWeight, weight_of_file hlist hfile, files_of_file hfile]
          rfl
        · simp [Transfer.withTotals, hname]
  · exact virtualProcessAllPaths_totals hlists hmeasures h

theorem virtualProcessAllPaths_error {t t' : Transfer} {e : SourcePathError}
    (h : t.virtualProcessAllPaths paths = (.error e, t')) : t' = t := by
  unfold Transfer.virtualProcessAllPaths at h
  split at h
  · cases h; rfl
  · cases h

/-- A `process_paths` that fails leaves the transfer as it is. -/
theorem virtualProcessPaths_error {mime : String → String}
    {first : Except VirtualFilesystemError VirtualStat} {t t' : Transfer} {e : SourcePathError}
    (h : t.virtualProcessPaths mime first paths = (.error e, t')) : t' = t := by
  unfold Transfer.virtualProcessPaths at h
  split at h
  · split at h
    · cases h; rfl
    · split at h
      · exact virtualProcessAllPaths_error h
      · cases h
  · exact virtualProcessAllPaths_error h

end counting

/-! ## Section 3: What is sent and shown -/

/-- The bytes of a chunk that has been handed over and not yet been recorded. -/
def VirtualPc.unrecorded : VirtualPc → Nat
  | .inFile pc _ _ => pc.unrecorded
  | _ => 0

def VirtualPc.WellFormed : VirtualPc → Prop
  | .sendDir chunk _ _ => chunk = .ofDirectory chunk.relativePath
  | .inFile pc _ _ => pc.WellFormed
  | _ => True

/-- The bytes handed over are the bytes recorded, but for the chunk in between. -/
structure VirtualSender.Recorded (s : VirtualSender) : Prop where
  wellFormed : s.pc.WellFormed
  bytes : chunkBytes s.handed = progressBytes s.progress + s.pc.unrecorded

/-- A point between two items. -/
structure VirtualPc.Between (pc : VirtualPc) : Prop where
  wellFormed : pc.WellFormed
  unrecorded : pc.unrecorded = 0

section points

variable (queue : List WalkDirEntry) (rest : List PathBuf)

theorem virtualSourceLoop_between : (virtualSourceLoop rest).Between := by
  cases rest <;> exact ⟨trivial, rfl⟩

theorem virtualWalkNext_between : (virtualWalkNext queue rest).Between := by
  cases queue with
  | nil => exact virtualSourceLoop_between rest
  | cons e queue =>
    unfold virtualWalkNext
    dsimp only
    split <;> exact ⟨trivial, rfl⟩

theorem virtualEnterSource_between (source : String) (m : VirtualMetadata) :
    (virtualEnterSource source m rest).Between := by
  unfold virtualEnterSource
  split
  · exact virtualWalkNext_between _ _
  · exact ⟨trivial, rfl⟩

theorem virtualEnterEntry_between (e : WalkDirEntry) :
    (virtualEnterEntry e queue rest).Between := by
  unfold virtualEnterEntry
  split
  · exact ⟨rfl, rfl⟩
  · exact ⟨trivial, rfl⟩

theorem virtualFileLoop_recorded {pc : SendPc} (hwf : pc.WellFormed) :
    (virtualFileLoop queue rest pc).WellFormed ∧
      (virtualFileLoop queue rest pc).unrecorded = pc.unrecorded := by
  unfold virtualFileLoop
  split
  · obtain ⟨hwf', hnone⟩ := virtualWalkNext_between queue rest
    exact ⟨hwf', hnone⟩
  · exact ⟨trivial, rfl⟩
  · exact ⟨hwf, rfl⟩

end points

section records

variable {s s' : VirtualSender} {l : VirtualLabel}

theorem recorded_virtual_start (sources : List PathBuf) :
    (VirtualSender.start sources).Recorded where
  wellFormed := (virtualSourceLoop_between sources).wellFormed
  bytes := by
    show 0 = 0 + (virtualSourceLoop sources).unrecorded
    rw [(virtualSourceLoop_between sources).unrecorded]

theorem step_virtual_recorded (h : s.step l = some s') (hrec : s.Recorded) : s'.Recorded := by
  -- a step that hands nothing over
  have hstill : ∀ pc', s' = s.goto pc' → s.pc.unrecorded = 0 → pc'.Between → s'.Recorded := by
    rintro pc' rfl hnone hbetween
    refine ⟨hbetween.wellFormed, ?_⟩
    have hbytes := hrec.bytes
    rw [hnone] at hbytes
    rw [virtual_goto_pc, hbetween.unrecorded]
    exact hbytes
  unfold VirtualSender.step at h
  split at h
  · next source rest cancelled hpc =>
    have hnone : s.pc.unrecorded = 0 := by rw [hpc]; rfl
    split at h
    · exact hstill _ (Option.some.inj h).symm hnone ⟨trivial, rfl⟩
    · split at h
      · exact hstill _ (Option.some.inj h).symm hnone ⟨trivial, rfl⟩
      · exact hstill _ (Option.some.inj h).symm hnone ⟨trivial, rfl⟩
  · next source rest answer hpc =>
    have hnone : s.pc.unrecorded = 0 := by rw [hpc]; rfl
    split at h
    · exact hstill _ (Option.some.inj h).symm hnone ⟨trivial, rfl⟩
    · exact hstill _ (Option.some.inj h).symm hnone (virtualEnterSource_between _ _ _)
  · next entry queue rest answer hpc =>
    exact hstill _ (Option.some.inj h).symm (by rw [hpc]; rfl) ⟨trivial, rfl⟩
  · next entry queue rest cancelled hpc =>
    have hnone : s.pc.unrecorded = 0 := by rw [hpc]; rfl
    split at h
    · exact hstill _ (Option.some.inj h).symm hnone ⟨trivial, rfl⟩
    · exact hstill _ (Option.some.inj h).symm hnone (virtualEnterEntry_between _ _ _)
  · next chunk queue rest accepted hpc =>
    have hnone : s.pc.unrecorded = 0 := by rw [hpc]; rfl
    split at h
    · -- the chunk of a directory carries no bytes
      obtain rfl := Option.some.inj h
      have hchunk : chunk = .ofDirectory chunk.relativePath := by
        have hwf := hrec.wellFormed
        rwa [hpc] at hwf
      have hempty : chunk.chunk = [] := by rw [hchunk]; rfl
      obtain ⟨hwf, hafter⟩ := virtualWalkNext_between queue rest
      refine ⟨hwf, ?_⟩
      have hbytes := hrec.bytes
      rw [hnone] at hbytes
      show chunkBytes (s.handed ++ [chunk]) = progressBytes s.progress + _
      rw [hafter, ← hbytes]
      simp [chunkBytes, hempty]
    · exact hstill _ (Option.some.inj h).symm hnone ⟨trivial, rfl⟩
  · next path rel queue rest answer hpc =>
    have hnone : s.pc.unrecorded = 0 := by rw [hpc]; rfl
    split at h
    · exact hstill _ (Option.some.inj h).symm hnone ⟨trivial, rfl⟩
    · exact hstill _ (Option.some.inj h).symm hnone ⟨trivial, rfl⟩
  · next rel bytes queue rest answer hpc =>
    have hnone : s.pc.unrecorded = 0 := by rw [hpc]; rfl
    split at h
    · exact hstill _ (Option.some.inj h).symm hnone ⟨trivial, rfl⟩
    · exact hstill _ (Option.some.inj h).symm hnone ⟨trivial, rfl⟩
  · next pc queue rest l hpc =>
    -- in `send_file_inner`, as in the other build
    obtain ⟨t, hstep, rfl⟩ := Option.map_eq_some_iff.1 h
    have hwf : pc.WellFormed := by
      have hwf := hrec.wellFormed
      rwa [hpc] at hwf
    have hbefore : Recorded ⟨pc, s.speed, s.handed, s.progress⟩ := by
      have hbytes := hrec.bytes
      rwa [hpc] at hbytes
    have hafter : Recorded t := step_recorded hwf hstep hbefore
    obtain ⟨hwf', hsame⟩ := virtualFileLoop_recorded queue rest (step_wellFormed hstep)
    refine ⟨hwf', ?_⟩
    show chunkBytes t.handed = progressBytes t.progress +
      (virtualFileLoop queue rest t.pc).unrecorded
    rw [hsame]
    exact hafter
  · cases h

end records

/-! ## Section 4: Totals -/

section totals

variable {fs : StaticVfs} {trees : List (RoseTree VirtualEntry)} {sources : List PathBuf}
  {ls : List VirtualLabel} {s' : VirtualSender} {result : Except TransferError Bool}

theorem sum_allVisits (f : VirtualEntry → Nat) (trees : List (RoseTree VirtualEntry)) :
    ((allVisits trees).map fun v => f v.tree.value).sum = forestWeight f trees := by
  induction trees with
  | nil => rfl
  | cons t trees ih =>
    have htree := sum_visits f [t.root]
    rw [List.map_singleton, forestWeight, forestWeight, Nat.add_zero] at htree
    rw [allVisits, List.flatMap_cons, List.map_append, List.sum_append, htree, forestWeight, ← ih]
    rfl

/-- The items of nodes have the bytes of the nodes. -/
theorem itemBytes_of_presents {vs : List (Visit VirtualEntry)} {is : List Item}
    (h : List.Forall₂ fs.Presents vs is) :
    itemBytes is = (vs.map fun v => fs.bytes v.tree.value).sum := by
  induction h with
  | nil => rfl
  | cons hi _ ih =>
    rw [itemBytes_cons, ih, List.map_cons, List.sum_cons]
    cases hi with
    | dir hdir => rw [bytes_of_dir _ hdir]; rfl
    | file _ hfile => rw [bytes_of_file hfile]; rfl

/-- The files among the items of nodes are those among the nodes. -/
theorem files_of_presents {vs : List (Visit VirtualEntry)} {is : List Item}
    (h : List.Forall₂ fs.Presents vs is) :
    (files is).length = (vs.map fun v => v.tree.value.files).sum := by
  induction h with
  | nil => rfl
  | cons hi _ ih =>
    rw [List.map_cons, List.sum_cons, ← ih]
    cases hi with
    | dir hdir => simp [files, Item.isFile, files_of_dir _ hdir]
    | file _ hfile =>
      rw [files, List.filter_cons_of_pos rfl, List.length_cons, files_of_file hfile]
      exact Nat.add_comm _ _

/-- What a sender on a file system that stays as it is has sent. -/
theorem virtual_sent (hshow : List.Forall₂ fs.Shows trees sources)
    (hrun : virtualSender.exec (.start sources) ls = some s')
    (hanswers : virtualSender.Along fs.Answers (.start sources) ls)
    (hret : s'.pc = .returned result) :
    chunkBytes s'.handed = forestWeight fs.bytes trees ∧
      progressBytes s'.progress = forestWeight fs.bytes trees ∧
      ∃ items, List.Forall₂ fs.Presents (allVisits trees) items ∧ Emits items s'.handed ∧
        (files items).length = forestWeight VirtualEntry.files trees := by
  obtain ⟨_, items, hitems, hemits⟩ := emits_visits hshow hrun hanswers hret
  have hbytes : chunkBytes s'.handed = forestWeight fs.bytes trees := by
    rw [← hemits.bytes, itemBytes_of_presents hitems, sum_allVisits]
  have hrec : s'.Recorded := virtualSender.exec_invariant
    (fun _ _ _ hrec hstep => step_virtual_recorded hstep hrec) (recorded_virtual_start sources) hrun
  have hrecorded := hrec.bytes
  rw [hret, hbytes] at hrecorded
  refine ⟨hbytes, hrecorded.symm, items, hitems, hemits, ?_⟩
  rw [files_of_presents hitems, sum_allVisits]

end totals

/-- On a virtual file system that stays as it is and adds up its directories as
    documented, what `process_paths` declares is what is sent and shown: the bytes,
    the files among the nodes, each of which is sent as one item, and the names. -/
theorem virtual_totals {fs : StaticVfs} {trees : List (RoseTree VirtualEntry)}
    {sources : List PathBuf} {ls : List VirtualLabel} {s' : VirtualSender}
    {result : Except TransferError Bool} {paths : List VirtualView} {t' : Transfer}
    (mime : String → String) (first : Except VirtualFilesystemError VirtualStat) (t : Transfer)
    (hshow : List.Forall₂ fs.Shows trees sources)
    (hmeasures : List.Forall₂ fs.Measures trees paths)
    (hfirst : ∀ p ∈ paths.head?, first = p.metadata)
    (hfits : forestWeight fs.bytes trees < 2 ^ 64)
    (hprocess : t.virtualProcessPaths mime first paths = (.ok (), t'))
    (hrun : virtualSender.exec (.start sources) ls = some s')
    (hanswers : virtualSender.Along fs.Answers (.start sources) ls)
    (hret : s'.pc = .returned result) :
    chunkBytes s'.handed = t'.totalBytes ∧
      (∀ t₀ : Transfer, t₀.bytesTransferred = 0 →
        (s'.progress.foldl (fun t p => p.apply t) t₀).bytesTransferred = t'.totalBytes) ∧
      (List.Forall₂ CountsFiles trees paths → forestWeight VirtualEntry.files trees < 2 ^ 64 →
        ∃ items, List.Forall₂ fs.Presents (allVisits trees) items ∧ Emits items s'.handed ∧
          t'.fileCount = (files items).length) ∧
      t'.entryNames = trees.map fun t => t.value.name := by
  obtain ⟨hbytes, hfiles, hnames⟩ :=
    virtualProcessPaths_totals (lists_of_mem hshow) hmeasures hfirst hprocess
  obtain ⟨hsent, hprogress, items, hitems, hemits, hlength⟩ := virtual_sent hshow hrun hanswers hret
  -- below 2 ^ 64 the counters of `process_paths` do not wrap around
  have htotal : t'.totalBytes = forestWeight fs.bytes trees := by
    rw [hbytes, BitVec.toNat_ofNat, Nat.mod_eq_of_lt hfits]
  refine ⟨hsent.trans htotal.symm, fun t₀ ht₀ => ?_, fun hcounts hfew => ?_, hnames⟩
  · rw [foldl_progress]
    omega
  · refine ⟨items, hitems, hemits, ?_⟩
    rw [hfiles hcounts, BitVec.toNat_ofNat, Nat.mod_eq_of_lt hfew, hlength]

/-- The directory `/s` with the file `a`, as `process_paths` finds it. -/
def smallVirtualView : VirtualView where
  metadata := .ok ⟨true, "s", 0, 0⟩
  readDir := .ok [⟨false, "a", 1, 1⟩]

theorem smallVirtualView_measures : smallVfs.Measures smallVirtualTree smallVirtualView where
  metadata := ⟨_, rfl, rfl, rfl, fun h => by cases h⟩
  readDir _ := ⟨_, _, rfl, .refl _, .cons (by decide) .nil⟩

theorem smallVirtualView_counts : CountsFiles smallVirtualTree smallVirtualView := by
  intro _ entries hentries
  cases hentries
  exact ⟨_, .refl _, .cons (by decide) .nil⟩

theorem virtual_totals_small :
    ∃ s' items, virtualSender.exec (.start [OsString.ofString "/s"]) smallVirtualRun = some s' ∧
      chunkBytes s'.handed = 1 ∧
      List.Forall₂ smallVfs.Presents (allVisits [smallVirtualTree]) items ∧
      Emits items s'.handed ∧ (files items).length = 1 := by
  have hrun : ∃ s', virtualSender.exec (.start [OsString.ofString "/s"]) smallVirtualRun = some s' ∧
      s'.pc = .returned (.ok true) := ⟨_, rfl, rfl⟩
  obtain ⟨s', hrun, hret⟩ := hrun
  obtain ⟨hbytes, _, hfiles, _⟩ := virtual_totals (fun _ => "") (.ok ⟨true, "s", 0, 0⟩)
    (.bare "t" "b" .initializing (.incoming [])) (.cons smallVirtualTree_shows .nil)
    (.cons smallVirtualView_measures .nil) (fun p hp => by cases hp; rfl) (by decide) rfl hrun
    smallVirtualRun_answers hret
  obtain ⟨items, hitems, hemits, hcount⟩ := hfiles (.cons smallVirtualView_counts .nil) (by decide)
  exact ⟨s', items, hrun, hbytes, hitems, hemits, hcount.symm⟩

end Warpinator
