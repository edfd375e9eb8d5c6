import Mathlib.Algebra.BigOperators.Group.List.Basic
import Mathlib.Data.BitVec
import Warpinator.Server.Host
import Warpinator.Transfers.Omissions

/-! # Declared Totals

    `process_paths` of `types/transfer.rs` in the `real_filesystem` build, which
    counts what `send_stream_inner` is going to send.

    The two walk the same paths on their own: one skips what it cannot read and
    has a shorter way for a single file, the other chunks every file and stops
    at an error.  `declared_totals` says that on a tree without errors they
    come to the same numbers. -/

namespace Warpinator

open LexPath

/-! ## Section 1: process_paths -/

/-- `std::fs::Metadata`, as far as `process_paths` asks. -/
inductive Metadata where
  | file (len : BitVec 64)
  | dir
  | other

/-- What `process_paths` finds at a path. -/
structure PathView where
  path : PathBuf
  metadata : Except IoErrorKind Metadata
  /-- The items of the walk, `none` for an error item, with the answer of
      `entry.metadata()`. -/
  walk : List (Option (Except IoErrorKind Metadata))

/-- The local variables `total_size` and `file_count`. -/
structure Counting where
  totalSize : BitVec 64
  fileCount : BitVec 64

namespace Counting

def zero : Counting := ⟨0, 0⟩

def addFile (c : Counting) (len : BitVec 64) : Counting := ⟨c.totalSize + len, c.fileCount + 1⟩

def addItem (c : Counting) : Option (Except IoErrorKind Metadata) → Counting
  | some (.ok (.file len)) => c.addFile len
  -- directories, unreadable metadata and error items
  | _ => c

end Counting

/-- The loop over the paths. -/
def processLoop : List PathView → Counting → List String →
    Except SourcePathError (Counting × List String)
  | [], c, entryNames => .ok (c, entryNames)
  | p :: ps, c, entryNames =>
    match p.metadata with
    | .error e => .error (.ioError e)
    | .ok metadata =>
      let c := match metadata with
        | .file len => c.addFile len
        | .dir => p.walk.foldl Counting.addItem c
        | .other => c
      let entryNames := match fileName p.path.components with
        | some name => entryNames ++ [OsString.toStringLossy name]
        | none => entryNames
      processLoop ps c entryNames

namespace Transfer

/-- `process_paths` for more than a single file. -/
def processAllPaths (t : Transfer) (paths : List PathView) :
    Except SourcePathError Unit × Transfer :=
  match processLoop paths .zero [] with
  | .error e => (.error e, t)
  | .ok (c, entryNames) =>
    (.ok (), t.withTotals
      { totalBytes := c.totalSize.toNat
        fileCount := c.fileCount.toNat
        entryNames := entryNames
        singleName := none
        singleMimeType := none })

/-- `process_paths`; `first` is the answer of `metadata(&paths[0])` and `mime` is
    `mime_guess`. -/
def processPaths (mime : PathBuf → String) (first : Except IoErrorKind Metadata)
    (t : Transfer) (paths : List PathView) : Except SourcePathError Unit × Transfer :=
  match paths with
  | [p] =>
    match first with
    | .error e => (.error (.ioError e), t)
    | .ok (.file len) =>
      match fileName p.path.components with
      | none => (.error (.unsupportedPathType p.path), t)
      | some name =>
        let name := OsString.toStringLossy name
        (.ok (), t.withTotals
          { totalBytes := len.toNat
            fileCount := 1
            entryNames := [name]
            singleName := some name
            singleMimeType := some (mime p.path) })
    | .ok _ => t.processAllPaths [p]
  | _ => t.processAllPaths paths

end Transfer

/-! ## Section 2: The counting walk -/

def EntryKind.metadata : EntryKind → Metadata
  | .file bytes _ => .file (.ofNat 64 bytes.length)
  | .dir => .dir
  | .other => .other

def SourceKind.metadata : SourceKind → Metadata
  | .file bytes _ => .file (.ofNat 64 bytes.length)
  | .dir _ => .dir
  | .other => .other

/-- `process_paths` finds the source without an error; its walk may come in
    another order. -/
structure PathView.Shows (p : PathView) (source : Source) : Prop where
  path : p.path = source.path
  metadata : p.metadata = .ok source.kind.metadata
  walk : ∀ entries, source.kind = .dir entries →
    p.walk.Perm (entries.map fun e => some (.ok e.kind.metadata))

/-- The bytes and files that an item of a walk adds. -/
def itemLen : Option (Except IoErrorKind Metadata) → BitVec 64
  | some (.ok (.file len)) => len
  | _ => 0

def itemCount : Option (Except IoErrorKind Metadata) → BitVec 64
  | some (.ok (.file _)) => 1
  | _ => 0

theorem addItem_eq (c : Counting) (item : Option (Except IoErrorKind Metadata)) :
    c.addItem item = ⟨c.totalSize + itemLen item, c.fileCount + itemCount item⟩ := by
  unfold Counting.addItem itemLen itemCount Counting.addFile
  split
  · rfl
  · simp

theorem foldl_addItem (walk : List (Option (Except IoErrorKind Metadata))) (c : Counting) :
    walk.foldl Counting.addItem c
      = ⟨c.totalSize + (walk.map itemLen).sum, c.fileCount + (walk.map itemCount).sum⟩ := by
  induction walk generalizing c with
  | nil => simp
  | cons item walk ih =>
    rw [List.foldl_cons, ih, addItem_eq]
    simp only [List.map_cons, List.sum_cons, BitVec.add_assoc]

/-- The bytes and the files of a list of items, as `u64`. -/
def bytesOf (is : List Item) : BitVec 64 := .ofNat 64 (itemBytes is)

def countOf (is : List Item) : BitVec 64 := .ofNat 64 (files is).length

@[simp] theorem bytesOf_append (is is' : List Item) :
    bytesOf (is ++ is') = bytesOf is + bytesOf is' := by
  simp [bytesOf, BitVec.ofNat_add]

@[simp] theorem countOf_append (is is' : List Item) :
    countOf (is ++ is') = countOf is + countOf is' := by
  simp [countOf, files, BitVec.ofNat_add]

theorem bytesOf_file (rel : String) (t : Option FileTime) (data : List UInt8) :
    bytesOf [.file rel t data] = .ofNat 64 data.length := by
  simp [bytesOf, itemBytes, Item.data]

theorem countOf_file (rel : String) (t : Option FileTime) (data : List UInt8) :
    countOf [.file rel t data] = 1 := rfl

theorem itemLen_entry (base : Path) (e : WalkEntry) :
    itemLen (some (.ok e.kind.metadata)) = bytesOf (entryItems base e) := by
  unfold entryItems
  cases e.kind <;> simp [EntryKind.metadata, itemLen, bytesOf, itemBytes, Item.data]

theorem itemCount_entry (base : Path) (e : WalkEntry) :
    itemCount (some (.ok e.kind.metadata)) = countOf (entryItems base e) := by
  unfold entryItems
  cases e.kind <;> rfl

/-- The walk of a directory, in whatever order. -/
theorem walk_sums {p : PathView} {source : Source} {entries : List WalkEntry} (hp : p.Shows source)
    (hkind : source.kind = .dir entries) (base : Path) :
    (p.walk.map itemLen).sum = bytesOf (entries.flatMap (entryItems base)) ∧
    (p.walk.map itemCount).sum = countOf (entries.flatMap (entryItems base)) := by
  have hperm := hp.walk entries hkind
  have hlen : ∀ entries : List WalkEntry,
      ((entries.map fun e => some (Except.ok e.kind.metadata)).map itemLen).sum
        = bytesOf (entries.flatMap (entryItems base)) := by
    intro entries
    induction entries with
    | nil => rfl
    | cons e es ih =>
      simp only [List.map_cons, List.sum_cons, List.flatMap_cons, bytesOf_append, ih]
      rw [itemLen_entry base]
  have hcount : ∀ entries : List WalkEntry,
      ((entries.map fun e => some (Except.ok e.kind.metadata)).map itemCount).sum
        = countOf (entries.flatMap (entryItems base)) := by
    intro entries
    induction entries with
    | nil => rfl
    | cons e es ih =>
      simp only [List.map_cons, List.sum_cons, List.flatMap_cons, countOf_append, ih]
      rw [itemCount_entry base]
  -- the walk may come in any order, and the sums do not depend on it
  rw [(hperm.map itemLen).sum_eq, (hperm.map itemCount).sum_eq]
  exact ⟨hlen entries, hcount entries⟩

/-- What the loop adds up. -/
theorem processLoop_counts {paths : List PathView} {sources : List Source}
    (hshows : List.Forall₂ PathView.Shows paths sources) {c c' : Counting}
    {names names' : List String}
    (h : processLoop paths c names = .ok (c', names')) :
    c' = ⟨c.totalSize + bytesOf (allItems sources), c.fileCount + countOf (allItems sources)⟩ := by
  induction hshows generalizing c names with
  | nil =>
    cases h
    simp [allItems, bytesOf, countOf, itemBytes, files]
  -- one path: its walk adds what the sender's walk of it is going to send
  | @cons p source ps sources hp _ ih =>
    have hmetadata := hp.metadata
    simp only [processLoop, hmetadata] at h
    have hall : allItems (source :: sources) = sourceItems source ++ allItems sources := by
      simp [allItems]
    rw [ih h, hall, bytesOf_append, countOf_append, ← BitVec.add_assoc, ← BitVec.add_assoc]
    cases hkind : source.kind with
    | file bytes modified =>
      simp only [SourceKind.metadata, Counting.addFile, sourceItems, itemsAt, hkind, bytesOf_file,
        countOf_file]
    | dir entries =>
      obtain ⟨hlen, hcount⟩ := walk_sums hp hkind ((parent source.path.components).getD [])
      simp only [SourceKind.metadata, foldl_addItem, sourceItems, itemsAt, hkind, hlen, hcount]
    | other =>
      simp [SourceKind.metadata, sourceItems, itemsAt, hkind, bytesOf, countOf, itemBytes, files]

/-! ## Section 3: The streaming walk -/

/-- `send_file` opens a file in this step. -/
def fileOpened (s : Sender) (l : SendLabel) : Bool :=
  match s.pc, l with
  | .openFile _ _, .io none => true
  | _, _ => false

/-- The files that a program point has still to open. -/
def SendPc.unopened : SendPc → Nat
  | .openFile _ cont => (files cont.todo).length + 1
  | .filePoll _ cont => (files cont.todo).length
  | .readFile _ cont => (files cont.todo).length
  | .sendFile _ _ cont => (files cont.todo).length
  | .progress _ _ cont => (files cont.todo).length
  | pc => (files pc.todo).length

theorem sourceLoop_unopened (rest : List Source) :
    (sourceLoop rest).unopened = (files (allItems rest)).length := by
  cases rest with
  | nil => rfl
  | cons source rest => rw [← sourceLoop_todo]; rfl

theorem resume_unopened (cont : SendCont) : cont.resume.unopened = (files cont.todo).length := by
  cases cont with
  | nextSource rest => exact sourceLoop_unopened rest
  | nextEntry base entries rest => rfl

theorem enterSource_unopened (base : Path) (source : Source) (rest : List Source) :
    (enterSource base source rest).unopened
      = (files (itemsAt base source ++ allItems rest)).length := by
  unfold enterSource itemsAt
  cases source.kind with
  | file bytes modified => rfl
  | dir walk => rfl
  | other => exact sourceLoop_unopened rest

theorem enterEntry_unopened (base : Path) (e : WalkEntry) (entries : List WalkEntry)
    (rest : List Source) :
    (enterEntry base e entries rest).unopened
      = (files (entryItems base e ++
          (entries.flatMap (entryItems base) ++ allItems rest))).length := by
  unfold enterEntry entryItems
  cases e.kind <;> rfl

theorem step_unopened {s s' : Sender} {l : SendLabel} (hstay : earlyExit s.pc l = false)
    (h : sendStep s l = some s') : s.pc.unopened = (fileOpened s l).toNat + s'.pc.unopened := by
  obtain ⟨cs, _, hmove⟩ := sendStep_move h
  unfold fileOpened
  revert hmove hstay
  generalize s.pc = pc
  generalize s'.pc = pc'
  intro hstay hmove
  cases hmove with
  | sourcePolled base source rest hp =>
    have hitems : sourceItems source = itemsAt base source := by simp [sourceItems, hp]
    simp only [SendPc.unopened, SendPc.todo, hitems]
    simp
  | sourceEntered base source rest => rw [enterSource_unopened]; simp [SendPc.unopened, SendPc.todo]
  | walkFailed base entries rest => simp [SendPc.unopened, SendPc.todo]
  | walkDone base rest => rw [sourceLoop_unopened]; simp [SendPc.unopened, SendPc.todo]
  | walkItem base e entries rest => simp [SendPc.unopened, SendPc.todo, files]
  | walkPolled base e entries rest => simp [SendPc.unopened, SendPc.todo]
  | entryEntered base e entries rest =>
    rw [enterEntry_unopened]
    simp [SendPc.unopened, SendPc.todo]
  | dirSent chunk cont =>
    rw [resume_unopened]
    simp [SendPc.unopened, SendPc.todo, files, Item.isFile]
  -- the one step that opens a file
  | opened file cont => simp [SendPc.unopened]; omega
  | filePolled file cont => simp [SendPc.unopened]
  | readEof file cont _ => rw [resume_unopened]; simp [SendPc.unopened]
  | readBytes file cont n _ _ _ => simp [SendPc.unopened]
  | chunkSent chunk file cont => simp [SendPc.unopened]
  | progressed bytes bps file cont => simp [SendPc.unopened]
  -- what is left are the steps that leave early
  | sourceCancelled source rest => cases hstay
  | sourceRootless source rest hp => simp [earlyExit, hp] at hstay
  | sourceFailed base source rest e => cases hstay
  | walkCancelled base item entries rest => cases item <;> cases hstay
  | walkError base entries rest => cases hstay
  | entryFailed base e entries rest k => cases hstay
  | dirRefused chunk cont => cases hstay
  | openFailed file cont e => cases hstay
  | fileCancelled file cont => cases hstay
  | readFailed file cont e => cases hstay
  | chunkRefused chunk file cont => cases hstay

/-- The bytes of the progress updates issued so far. -/
def progressBytes (ps : List Progress) : Nat := (ps.map Progress.bytes).sum

/-- The bytes that have been handed over and not recorded. -/
def SendPc.unrecorded : SendPc → Nat
  | .progress bytes _ _ => bytes
  | _ => 0

theorem foldl_progress (ps : List Progress) (t : Transfer) :
    (ps.foldl (fun t p => p.apply t) t).bytesTransferred
      = t.bytesTransferred + progressBytes ps := by
  induction ps generalizing t with
  | nil => simp [progressBytes]
  | cons p ps ih =>
    rw [List.foldl_cons, ih]
    simp only [Progress.apply, progressBytes, List.map_cons, List.sum_cons]
    omega

theorem sourceLoop_unrecorded (rest : List Source) : (sourceLoop rest).unrecorded = 0 := by
  cases rest <;> rfl

theorem resume_unrecorded (cont : SendCont) : cont.resume.unrecorded = 0 := by
  cases cont with
  | nextSource rest => exact sourceLoop_unrecorded rest
  | nextEntry base entries rest => rfl

theorem enterSource_unrecorded (base : Path) (source : Source) (rest : List Source) :
    (enterSource base source rest).unrecorded = 0 := by
  unfold enterSource
  cases source.kind with
  | file bytes modified => rfl
  | dir walk => rfl
  | other => exact sourceLoop_unrecorded rest

theorem enterEntry_unrecorded (base : Path) (e : WalkEntry) (entries : List WalkEntry)
    (rest : List Source) : (enterEntry base e entries rest).unrecorded = 0 := by
  unfold enterEntry
  cases e.kind <;> rfl

/-- Every byte handed over is recorded, at the latest in the next step. -/
def Recorded (s : Sender) : Prop :=
  chunkBytes s.handed = progressBytes s.progress + s.pc.unrecorded

theorem recorded_start (sources : List Source) : Recorded (.start sources) := by
  show chunkBytes [] = progressBytes [] + (sourceLoop sources).unrecorded
  rw [sourceLoop_unrecorded]
  rfl

theorem step_recorded {s s' : Sender} {l : SendLabel} (hwf : s.pc.WellFormed)
    (h : sendStep s l = some s') (hrec : Recorded s) : Recorded s' := by
  obtain ⟨pc, speed, handed, progress⟩ := s
  -- a step that hands nothing over
  have hstill : ∀ {pc' : SendPc}, pc.unrecorded = 0 → pc'.unrecorded = 0 →
      Recorded ⟨pc', speed, handed, progress⟩ := by
    intro pc' hpc hpc'
    unfold Recorded at hrec ⊢
    simp only [hpc, hpc'] at hrec ⊢
    exact hrec
  unfold sendStep at h
  dsimp only at h
  split at h
  · split at h
    · cases h; exact hstill rfl rfl
    · split at h <;> cases h <;> exact hstill rfl rfl
  · split at h
    · cases h; exact hstill rfl rfl
    · cases h; exact hstill rfl (enterSource_unrecorded _ _ _)
  · split at h
    · cases h; exact hstill rfl rfl
    · split at h
      · cases h; exact hstill rfl (sourceLoop_unrecorded _)
      · cases h; exact hstill rfl rfl
  · split at h
    · cases h; exact hstill rfl rfl
    · split at h <;> cases h <;> exact hstill rfl rfl
  · split at h
    · cases h; exact hstill rfl rfl
    · cases h; exact hstill rfl (enterEntry_unrecorded _ _ _ _)
  · -- a directory has no bytes
    next chunk cont accepted =>
    have hchunk : chunk = .ofDirectory chunk.relativePath := hwf
    have hbytes : chunk.chunk = [] := by rw [hchunk]; rfl
    split at h
    · cases h
      unfold Recorded at hrec ⊢
      show chunkBytes (handed ++ [chunk]) = progressBytes progress + cont.resume.unrecorded
      rw [resume_unrecorded, chunkBytes_append, chunkBytes_cons, hbytes]
      simpa [SendPc.unrecorded] using hrec
    · cases h; exact hstill rfl rfl
  · split at h <;> cases h <;> exact hstill rfl rfl
  · split at h
    · cases h; exact hstill rfl (resume_unrecorded _)
    · cases h; exact hstill rfl rfl
  · split at h
    · cases h; exact hstill rfl rfl
    · split at h
      · cases h; exact hstill rfl (resume_unrecorded _)
      · cases h
    · split at h
      · cases h; exact hstill rfl rfl
      · cases h
  · next chunk file cont accepted =>
    split at h
    · cases h
      unfold Recorded at hrec ⊢
      show chunkBytes (handed ++ [chunk]) = progressBytes progress + chunk.chunk.length
      simp only [chunkBytes_append, chunkBytes_cons, chunkBytes_nil, SendPc.unrecorded] at hrec ⊢
      omega
    · cases h; exact hstill rfl rfl
  · next bytes file cont bps =>
    cases h
    unfold Recorded at hrec ⊢
    simp only [progressBytes, SendPc.unrecorded, List.map_append, List.map_cons, List.map_nil,
      List.sum_append, List.sum_cons, List.sum_nil] at hrec ⊢
    omega
  · cases h

/-! ## Section 4: Both walks -/

/-- `process_paths` sees a tree that does not change, without errors. -/
structure SeesTree (first : Except IoErrorKind Metadata) (paths : List PathView)
    (sources : List Source) : Prop where
  shows : List.Forall₂ PathView.Shows paths sources
  first : ∀ p ∈ paths.head?, first = p.metadata

theorem processAllPaths_error {t t' : Transfer} {paths : List PathView} {e : SourcePathError}
    (h : t.processAllPaths paths = (.error e, t')) : t' = t := by
  unfold Transfer.processAllPaths at h
  split at h
  · cases h; rfl
  · cases h

theorem processPaths_error {mime : PathBuf → String} {first : Except IoErrorKind Metadata}
    {t t' : Transfer} {paths : List PathView} {e : SourcePathError}
    (h : t.processPaths mime first paths = (.error e, t')) : t' = t := by
  unfold Transfer.processPaths at h
  split at h
  · split at h
    · cases h; rfl
    · split at h
      · cases h; rfl
      · cases h
    · exact processAllPaths_error h
  · exact processAllPaths_error h

/-- What `process_paths` declares. -/
theorem processAllPaths_totals {t t' : Transfer} {paths : List PathView} {sources : List Source}
    (hshows : List.Forall₂ PathView.Shows paths sources)
    (h : t.processAllPaths paths = (.ok (), t')) :
    t'.totalBytes = (bytesOf (allItems sources)).toNat ∧
      t'.fileCount = (countOf (allItems sources)).toNat := by
  unfold Transfer.processAllPaths at h
  split at h
  · cases h
  · next c entryNames hloop =>
    have hcounts := processLoop_counts hshows hloop
    cases h
    simp [Transfer.withTotals, hcounts, Counting.zero]

theorem processPaths_totals {mime : PathBuf → String} {first : Except IoErrorKind Metadata}
    {t t' : Transfer} {paths : List PathView} {sources : List Source}
    (htree : SeesTree first paths sources) (h : t.processPaths mime first paths = (.ok (), t')) :
    t'.totalBytes = (bytesOf (allItems sources)).toNat ∧
      t'.fileCount = (countOf (allItems sources)).toNat := by
  unfold Transfer.processPaths at h
  split at h
  · next p =>
    split at h
    · cases h
    · next len =>
      -- the shorter way: the source is a file
      split at h
      · cases h
      · next name hname =>
        obtain ⟨source, rest, hp, hrest, rfl⟩ := List.forall₂_cons_left_iff.1 htree.shows
        obtain rfl : rest = [] := List.forall₂_nil_left_iff.1 hrest
        have hmetadata : Except.ok (Metadata.file len) = .ok source.kind.metadata :=
          (htree.first p rfl).trans hp.metadata
        cases hkind : source.kind with
        | file bytes modified =>
          have hlen : len = .ofNat 64 bytes.length := by
            simpa [hkind, SourceKind.metadata] using hmetadata
          have hitems : allItems [source] = [.file (relativePath
              ((parent source.path.components).getD []) source.path)
              (modified.map .ofSystemTime) bytes] := by
            simp [allItems, sourceItems, itemsAt, hkind]
          cases h
          rw [hitems, bytesOf_file, countOf_file, ← hlen]
          exact ⟨rfl, rfl⟩
        | dir walk => simp [hkind, SourceKind.metadata] at hmetadata
        | other => simp [hkind, SourceKind.metadata] at hmetadata
    · exact processAllPaths_totals htree.shows h
  · exact processAllPaths_totals htree.shows h

/-- What a sender that is not cancelled and returns `Ok(true)` has sent. -/
theorem sent_totals {sources : List Source} {ls : List SendLabel} {s' : Sender}
    (hrun : sender.exec (.start sources) ls = some s') (hpolls : .poll true ∉ ls)
    (hret : s'.pc = .returned (.ok true)) :
    chunkBytes s'.handed = itemBytes (allItems sources) ∧
      progressBytes s'.progress = itemBytes (allItems sources) ∧
      sender.count fileOpened (.start sources) ls = (files (allItems sources)).length := by
  have hstay := stays_of_completed hpolls hrun hret
  have hbytes := (emits_of_returned hrun hstay hret).bytes
  -- a directory's chunk is empty only at a well-formed program point
  have hrec : s'.pc.WellFormed ∧ Recorded s' :=
    sender.exec_invariant (I := fun s => s.pc.WellFormed ∧ Recorded s)
      (fun _ _ _ h hs => ⟨step_wellFormed hs, step_recorded h.1 hs h.2⟩)
      ⟨sourceLoop_wellFormed _, recorded_start sources⟩ hrun
  have hrecorded : chunkBytes s'.handed = progressBytes s'.progress + s'.pc.unrecorded := hrec.2
  have hcount := Machine.count_of_measure sender (p := fileOpened) (f := fun s => s.pc.unopened)
    (fun _ _ _ hC hs => step_unopened hC hs) hstay hrun
  have hstart : (Sender.start sources).pc.unopened = (files (allItems sources)).length :=
    sourceLoop_unopened sources
  have hend : s'.pc.unopened = 0 := by rw [hret]; rfl
  have hnone : s'.pc.unrecorded = 0 := by rw [hret]; rfl
  simp only [hstart, hend] at hcount
  exact ⟨hbytes.symm, by omega, by omega⟩

/-- On a tree without errors, what `process_paths` declares is what is sent, and
    a `process_paths` that fails leaves the transfer as it is. -/
theorem declared_totals (mime : PathBuf → String) (first : Except IoErrorKind Metadata)
    (paths : List PathView) (t : Transfer) :
    (∀ t' sources ls s', t.processPaths mime first paths = (.ok (), t') →
      SeesTree first paths sources → itemBytes (allItems sources) < 2 ^ 64 →
      (files (allItems sources)).length < 2 ^ 64 →
      sender.exec (.start sources) ls = some s' → .poll true ∉ ls →
      s'.pc = .returned (.ok true) →
        chunkBytes s'.handed = t'.totalBytes ∧
        (∀ t₀ : Transfer, t₀.bytesTransferred = 0 →
          (s'.progress.foldl (fun t p => p.apply t) t₀).bytesTransferred = t'.totalBytes) ∧
        t'.fileCount = sender.count fileOpened (.start sources) ls) ∧
    ∀ e t', t.processPaths mime first paths = (.error e, t') → t' = t := by
  refine ⟨?_, fun e t' h => processPaths_error h⟩
  intro t' sources ls s' hprocess htree hbytes hcount hrun hpolls hret
  obtain ⟨htotal, hfiles⟩ := processPaths_totals htree hprocess
  obtain ⟨hsent, hprogress, hopened⟩ := sent_totals hrun hpolls hret
  -- below 2 ^ 64 the counters of `process_paths` do not wrap around
  have htotal' : t'.totalBytes = itemBytes (allItems sources) := by
    rw [htotal, bytesOf, BitVec.toNat_ofNat, Nat.mod_eq_of_lt hbytes]
  have hfiles' : t'.fileCount = (files (allItems sources)).length := by
    rw [hfiles, countOf, BitVec.toNat_ofNat, Nat.mod_eq_of_lt hcount]
  refine ⟨by omega, fun t₀ ht₀ => ?_, by omega⟩
  rw [foldl_progress]
  omega

/-- A path as `process_paths` finds it. -/
def smallView : PathView where
  path := OsString.ofString "/s"
  metadata := .ok .dir
  walk := [some (.ok (.file 1))]

theorem seesTree_small : SeesTree (.ok .dir) [smallView] [smallSource] where
  shows := .cons ⟨rfl, rfl, fun entries h => by cases h; exact .refl _⟩ .nil
  first p hp := by cases hp; rfl

/-- A directory with a file of one byte, and a path that is not there. -/
theorem declared_totals_small :
    (∃ s', sender.exec (.start [smallSource]) smallRun = some s' ∧
      chunkBytes s'.handed
        = ((Transfer.bare "t" "b" .initializing (.incoming [])).processPaths (fun _ => "")
            (.ok .dir) [smallView]).2.totalBytes) ∧
    ((Transfer.bare "t" "b" .initializing (.incoming [])).processPaths (fun _ => "")
      (.error .notFound) [smallView]).2 = .bare "t" "b" .initializing (.incoming []) := by
  refine ⟨⟨_, rfl, ?_⟩, ?_⟩
  · have htotals := (declared_totals (fun _ => "") (.ok .dir) [smallView]
      (.bare "t" "b" .initializing (.incoming []))).1 _ [smallSource] smallRun _ rfl seesTree_small
        (by decide) (by decide) rfl (by simp [smallRun]) rfl
    exact htotals.1
  · exact (declared_totals (fun _ => "") (.error .notFound) [smallView]
      (.bare "t" "b" .initializing (.incoming []))).2 _ _ rfl

end Warpinator
