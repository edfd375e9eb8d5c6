import Mathlib.Data.List.Destutter
import Warpinator.Transfers.Confinement
import Warpinator.Transfers.Delivery
import Warpinator.Transfers.Stopping

/-! # Entries that Arrive

    An entry of a source exists for the receiver only if a chunk names it.  A
    file without bytes has no chunk, the root of a source directory has none
    either, and a chunk that names the current path again opens nothing.

    `allCreated_iff_announced`: exactly the entries that the opened items of the
    sources announce are created. -/

namespace Warpinator

open LexPath

/-! ## Section 1: Nodes stay -/

/-- Directories stay directories and files stay files. -/
structure Disk.Grows (d d' : Disk) : Prop where
  dir : ∀ l, d.node l = some .dir → d'.node l = some .dir
  file : ∀ l, d.isFile l = true → d'.isFile l = true

theorem Disk.Grows.refl (d : Disk) : d.Grows d := ⟨fun _ h => h, fun _ h => h⟩

theorem Disk.Grows.trans {d d' d'' : Disk} (h : d.Grows d') (h' : d'.Grows d'') : d.Grows d'' :=
  ⟨fun l hl => h'.dir l (h.dir l hl), fun l hl => h'.file l (h.file l hl)⟩

section operations

variable {d : Disk} {l : Path}

theorem isFile_iff : d.isFile l = true ↔ ∃ data, d.node l = some (.file data) := by
  unfold Disk.isFile
  split
  · next data h => simp [h]
  · next h => simp only [Bool.false_eq_true, false_iff]; rintro ⟨data, hdata⟩; exact h data hdata

/-- A file written over a file, or where no directory is. -/
theorem grows_setFile (data : FileData) (hnot : d.node l ≠ some .dir) :
    d.Grows (d.setNode l (.file data)) where
  dir l' h := by
    have hne : l' ≠ l := by rintro rfl; exact hnot h
    rw [setNode_ne _ _ hne, h]
  file l' h := by
    by_cases hl : l' = l
    · rw [hl, isFile_iff, setNode_self]
      exact ⟨data, rfl⟩
    · rw [isFile_iff] at h ⊢
      rwa [setNode_ne _ _ hl]

theorem grows_append (bytes : List UInt8) : d.Grows (d.append l bytes) := by
  unfold Disk.append
  split
  · next f hf => exact grows_setFile _ (by simp [hf])
  · exact .refl d

theorem grows_writeAll (fault : Option Fault) (file : OpenFile) (bytes : List UInt8) :
    d.Grows (d.writeAll fault file bytes).2 := by
  unfold Disk.writeAll
  split
  · exact .refl d
  · split
    · exact .refl d
    · split
      · exact .refl d
      · exact .refl d
      · exact grows_append bytes

theorem grows_setTimes (fault : Option IoErrorKind) (file : OpenFile) (time : SystemTime) :
    d.Grows (d.setTimes fault file time) := by
  unfold Disk.setTimes
  split
  · next f hf => exact grows_setFile _ (by simp [hf])
  · exact .refl d

theorem grows_createDirAll (fault : Option IoErrorKind) (p : Path) :
    d.Grows (d.createDirAll fault p).2 := by
  unfold Disk.createDirAll
  cases fault with
  | some e => exact ⟨fun _ h => h, fun _ h => h⟩
  | none =>
    dsimp only
    split
    · exact ⟨fun _ h => h, fun _ h => h⟩
    · refine ⟨fun l h => ?_, fun l h => ?_⟩
      · simp [h]
      · obtain ⟨data, hdata⟩ := isFile_iff.1 h
        exact isFile_iff.2 ⟨data, by simp [hdata]⟩

theorem grows_createFile (fault : Option IoErrorKind) (p : Path) :
    d.Grows (d.createFile fault p).2 := by
  unfold Disk.createFile
  cases fault with
  | some e => exact ⟨fun _ h => h, fun _ h => h⟩
  | none =>
    dsimp only
    split
    · exact ⟨fun _ h => h, fun _ h => h⟩
    · next hnot =>
      split
      · exact ⟨fun _ h => h, fun _ h => h⟩
      · obtain ⟨hdir, hfile⟩ := grows_setFile (d := d) { bytes := [], mtime := none } hnot
        exact ⟨hdir, hfile⟩

end operations

/-- What a call that succeeds leaves behind. -/
def FsCall.Done (d : Disk) : FsCall → Prop
  | .createDirAll p => ∀ l, l <+: resolve p → d.node l = some .dir
  | .createFile p => d.isFile (resolve p) = true

theorem FsCall.Done.grows {d d' : Disk} {c : FsCall} (h : c.Done d) (hgrows : d.Grows d') :
    c.Done d' := by
  cases c with
  | createDirAll p => exact fun l hl => hgrows.dir l (h l hl)
  | createFile p => exact hgrows.file _ h

theorem createDirAll_done {fault : Option IoErrorKind} {p : Path} {d : Disk}
    (h : (d.createDirAll fault p).1 = .ok ()) :
    FsCall.Done (d.createDirAll fault p).2 (.createDirAll p) := by
  unfold Disk.createDirAll at h ⊢
  cases fault with
  | some e => cases h
  | none =>
    dsimp only at h ⊢
    split at h
    · cases h
    · next hfree =>
      rw [if_neg hfree]
      intro l hl
      have hnot : d.isFile l = false := by
        simp only [List.any_eq_true, not_exists, not_and, Bool.not_eq_true] at hfree
        exact hfree l ((List.mem_inits _ _).2 hl)
      dsimp only
      cases hn : d.node l with
      | none => simp [hl]
      | some n =>
        cases n with
        | dir => simp
        | file data => simp [Disk.isFile, hn] at hnot

theorem createFile_done {fault : Option IoErrorKind} {p : Path} {d d' : Disk} {file : OpenFile}
    (h : d.createFile fault p = (.ok file, d')) : FsCall.Done d' (.createFile p) := by
  unfold Disk.createFile at h
  cases fault with
  | some e => cases h
  | none =>
    dsimp only at h
    split at h
    · cases h
    · split at h
      · cases h
      · cases h
        exact isFile_iff.2 ⟨_, setNode_self _ _ _⟩

/-! ## Section 2: What a chunk creates -/

/-- The calls that create a file or a directory with all that is above it. -/
def creationCalls (isDir : Bool) (target : Path) : List FsCall :=
  if isDir then [.createDirAll target]
  else (parent target).toList.map .createDirAll ++ [.createFile target]

/-- The calls for a chunk whose path is not the current one. -/
def FileChunk.calls (destination : PathBuf) (c : FileChunk) : List FsCall :=
  creationCalls (decide (c.kind = .directory)) (c.target destination).components

/-- The answer to `create_dir_all`, where `process_chunk` calls it for a chunk
    that it opens. -/
def dirAnswer (destination : PathBuf) (ans : IoAnswers) (c : FileChunk) (d : Disk) :
    Except IoErrorKind Unit :=
  if c.kind = .directory then (d.createDirAll ans.createDirAll (c.target destination).components).1
  else
    match parent (c.target destination).components with
    | some p => (d.createDirAll ans.createDirAll p).1
    | none => .ok ()

section chunks

variable {checks : Bool} {destination : PathBuf} {ans : IoAnswers} {c : FileChunk}
  {r r' r₁ : Receiver}

/-- A chunk is processed without an I/O error; `process_chunk` itself ignores
    those of `create_dir_all`. -/
structure Clean (checks : Bool) (destination : PathBuf) (ans : IoAnswers) (c : FileChunk)
    (r r' : Receiver) : Prop where
  ok : processChunk checks destination ans c r = .ok r'
  dirs : ∀ r₁, finalizeCurrentFile checks ans.finalize r = .ok r₁ →
    r.state.currentPath ≠ some c.sanitized → dirAnswer destination ans c r₁.disk = .ok ()

theorem finalize_grows {fault : Option IoErrorKind}
    (h : finalizeCurrentFile checks fault r = .ok r') :
    r.disk.Grows r'.disk ∧ r'.disk.calls = r.disk.calls := by
  unfold finalizeCurrentFile at h
  split at h
  · cases h; exact ⟨.refl _, rfl⟩
  · split at h
    · split at h
      · cases h
      · cases h; exact ⟨grows_setTimes _ _ _, setTimes_calls _ _ _ _⟩
    · cases h; exact ⟨.refl _, rfl⟩

theorem writeChunk_grows {data : List UInt8} (h : writeChunk ans data r = .ok r') :
    r.disk.Grows r'.disk ∧ r'.disk.calls = r.disk.calls ∧
      r'.state.currentPath = r.state.currentPath := by
  unfold writeChunk at h
  split at h
  · cases h; exact ⟨.refl _, rfl, rfl⟩
  · next file _ =>
    have hgrows := grows_writeAll (d := r.disk) ans.write file data
    have hcalls := writeAll_calls ans.write file data r.disk
    split at h
    · cases h
    · next heq =>
      rw [heq] at hgrows hcalls
      cases h
      exact ⟨hgrows, hcalls, rfl⟩

theorem openTarget_path {target : PathBuf} (h : openTarget ans c target r = .ok r') :
    r'.state.currentPath = r.state.currentPath := by
  unfold openTarget at h
  split at h
  · cases h; rfl
  · split at h
    · cases h
    · exact (writeChunk_grows h).2.2

theorem openCalls_eq (destination : PathBuf) (c : FileChunk) :
    openCalls (c.target destination) c.kind = c.calls destination := by
  unfold FileChunk.calls creationCalls openCalls
  cases c.kind with
  | directory => rfl
  | file | symlink => cases parent (c.target destination).components <;> rfl

/-- Opening a target that succeeds creates what its calls name. -/
theorem openTarget_creates (hdirs : dirAnswer destination ans c r.disk = .ok ())
    (h : openTarget ans c (c.target destination) r = .ok r') :
    r.disk.Grows r'.disk ∧ ∀ call ∈ c.calls destination, call.Done r'.disk := by
  unfold openTarget at h
  unfold FileChunk.calls creationCalls
  unfold dirAnswer at hdirs
  by_cases hkind : c.kind = .directory
  · simp only [hkind, if_true, decide_true] at h hdirs ⊢
    cases h
    refine ⟨grows_createDirAll _ _, ?_⟩
    simpa using createDirAll_done hdirs
  · simp only [hkind, if_false, decide_false, Bool.false_eq_true] at h hdirs ⊢
    -- the parent directory first
    have hparent : r.disk.Grows (createParent ans (c.target destination) r.disk) ∧
        ∀ call ∈ (parent (c.target destination).components).toList.map FsCall.createDirAll,
          call.Done (createParent ans (c.target destination) r.disk) := by
      unfold createParent
      cases hp : parent (c.target destination).components with
      | none => exact ⟨.refl _, by simp⟩
      | some p =>
        rw [hp] at hdirs
        exact ⟨grows_createDirAll _ _, by simpa using createDirAll_done hdirs⟩
    obtain ⟨hgrows, hdone⟩ := hparent
    generalize createParent ans (c.target destination) r.disk = d at h hgrows hdone
    have hgrows' := grows_createFile (d := d) ans.createFile (c.target destination).components
    split at h
    · cases h
    · next file d' hfile =>
      rw [hfile] at hgrows'
      obtain ⟨hwrite, _, _⟩ := writeChunk_grows h
      have hfileDone := createFile_done hfile
      refine ⟨(hgrows.trans hgrows').trans hwrite, fun call hcall => ?_⟩
      rcases List.mem_append.1 hcall with hcall | hcall
      · exact (hdone call hcall).grows (hgrows'.trans hwrite)
      · rw [List.mem_singleton] at hcall
        exact hcall ▸ hfileDone.grows hwrite

/-- The calls that a chunk causes after the given current path. -/
def callsAfter (destination : PathBuf) (current : Option String) (c : FileChunk) : List FsCall :=
  if c.kind = .symlink ∨ current = some c.sanitized then [] else c.calls destination

/-- The current path after a chunk. -/
def pathAfter (current : Option String) (c : FileChunk) : Option String :=
  if c.kind = .symlink then current else some c.sanitized

/-- The ways of a chunk that is processed: it is skipped, it continues the current
    path, or it finalizes the current file and opens its target. -/
theorem processChunk_cases (h : processChunk checks destination ans c r = .ok r') :
    (c.kind = .symlink ∧ r' = r) ∨
    (c.kind ≠ .symlink ∧ r.state.currentPath = some c.sanitized ∧
      writeChunk ans c.chunk r = .ok r') ∨
    (c.kind ≠ .symlink ∧ r.state.currentPath ≠ some c.sanitized ∧
      ∃ r₁, finalizeCurrentFile checks ans.finalize r = .ok r₁ ∧
        openTarget ans c (c.target destination)
          { r₁ with state := { r₁.state with
              currentPath := some c.sanitized, currentFileMtime := c.time } } = .ok r') := by
  unfold processChunk at h
  split at h
  · next hkind => cases h; exact .inl ⟨hkind, rfl⟩
  · next hkind =>
    dsimp only at h
    split at h
    · cases h
    · split at h
      · next hcurrent => exact .inr (.inl ⟨hkind, hcurrent, h⟩)
      · next hcurrent =>
        cases hfin : finalizeCurrentFile checks ans.finalize r with
        | err e r₁ => exact absurd hfin (finalizeCurrentFile_ne_err _ _ _ _ _)
        | panic r₁ => rw [hfin] at h; cases h
        | ok r₁ => rw [hfin] at h; exact .inr (.inr ⟨hkind, hcurrent, r₁, rfl, h⟩)

/-- The calls of a chunk, whether those for directories succeed or not. -/
theorem processChunk_calls (h : processChunk checks destination ans c r = .ok r') :
    r'.disk.calls = r.disk.calls ++ callsAfter destination r.state.currentPath c ∧
      r'.state.currentPath = pathAfter r.state.currentPath c := by
  unfold callsAfter pathAfter
  obtain ⟨hkind, rfl⟩ | ⟨hkind, hcurrent, hwrite⟩ | ⟨hkind, hcurrent, r₁, hfin, hopen⟩ :=
    processChunk_cases h
  · simp [hkind]
  · obtain ⟨_, hcalls, hpath⟩ := writeChunk_grows hwrite
    simp [hcalls, hpath, hkind, hcurrent]
  · have hcalls := openTarget_calls ans c (c.target destination)
      { r₁ with state := { r₁.state with
          currentPath := some c.sanitized, currentFileMtime := c.time } }
    rw [hopen, openCalls_eq] at hcalls
    have hfinCalls := (finalize_grows hfin).2
    simp only [Outcome.state, hfinCalls] at hcalls
    simp [hcalls, openTarget_path hopen, hkind, hcurrent]

/-- One chunk. -/
theorem Clean.creates (h : Clean checks destination ans c r r') :
    r.disk.Grows r'.disk ∧
      ∀ call ∈ callsAfter destination r.state.currentPath c, call.Done r'.disk := by
  unfold callsAfter
  obtain ⟨hkind, rfl⟩ | ⟨_, hcurrent, hwrite⟩ | ⟨hkind, hcurrent, r₁, hfin, hopen⟩ :=
    processChunk_cases h.ok
  · exact ⟨.refl _, by simp [hkind]⟩
  · exact ⟨(writeChunk_grows hwrite).1, by simp [hcurrent]⟩
  · obtain ⟨hgrows, hdone⟩ := openTarget_creates (by exact h.dirs r₁ hfin hcurrent) hopen
    have hopens : ¬ (c.kind = .symlink ∨ r.state.currentPath = some c.sanitized) := by
      simp [hkind, hcurrent]
    rw [if_neg hopens]
    exact ⟨(finalize_grows hfin).1.trans hgrows, hdone⟩

end chunks

/-! ## Section 3: Streams of chunks -/

/-- The chunks are processed in order, each without an I/O error. -/
def CleanAll (checks : Bool) (destination : PathBuf) : ChunkStream → Receiver → Receiver → Prop
  | [], r, r' => r' = r
  | (ans, c) :: rest, r, r' =>
    ∃ r₁, Clean checks destination ans c r r₁ ∧ CleanAll checks destination rest r₁ r'

/-- The calls that a list of chunks causes after the given current path. -/
def chunkCalls (destination : PathBuf) : Option String → List FileChunk → List FsCall
  | _, [] => []
  | current, c :: cs =>
    callsAfter destination current c ++ chunkCalls destination (pathAfter current c) cs

section streams

variable {checks : Bool} {destination : PathBuf} {acs : ChunkStream} {r r' : Receiver}

theorem processAll_calls (h : processAll checks destination acs r = .ok r') :
    r'.disk.calls
      = r.disk.calls ++ chunkCalls destination r.state.currentPath (acs.map Prod.snd) := by
  induction acs generalizing r with
  | nil =>
    cases h
    simp [chunkCalls]
  | cons ac acs ih =>
    obtain ⟨ans, c⟩ := ac
    obtain ⟨r₁, hstep, hrest⟩ := processAll_cons_ok h
    obtain ⟨hcalls, hpath⟩ := processChunk_calls hstep
    rw [ih hrest, hcalls, hpath, List.append_assoc]
    rfl

theorem CleanAll.processed (h : CleanAll checks destination acs r r') :
    processAll checks destination acs r = .ok r' := by
  induction acs generalizing r with
  | nil =>
    obtain rfl : r' = r := h
    rfl
  | cons ac acs ih =>
    obtain ⟨r₁, hclean, hrest⟩ := h
    exact processAll_cons hclean.ok (ih hrest)

theorem CleanAll.creates (h : CleanAll checks destination acs r r') :
    r.disk.Grows r'.disk ∧
      ∀ call ∈ chunkCalls destination r.state.currentPath (acs.map Prod.snd),
        call.Done r'.disk := by
  induction acs generalizing r with
  | nil =>
    obtain rfl : r' = r := h
    exact ⟨.refl _, by simp [chunkCalls]⟩
  | cons ac acs ih =>
    obtain ⟨ans, c⟩ := ac
    obtain ⟨r₁, hclean, hrest⟩ := h
    obtain ⟨hgrows, hdone⟩ := hclean.creates
    obtain ⟨hgrows', hdone'⟩ := ih hrest
    rw [(processChunk_calls hclean.ok).2] at hdone'
    -- what one chunk has created stays, since a clean run removes nothing
    refine ⟨hgrows.trans hgrows', fun call hcall => ?_⟩
    rcases List.mem_append.1 hcall with hcall | hcall
    · exact (hdone call hcall).grows hgrows'
    · exact hdone' call hcall

end streams

/-! ## Section 4: Opened items -/

/-- Some chunk names the item. -/
def Item.sends : Item → Bool
  | .dir _ => true
  | .file _ _ data => !data.isEmpty

/-- The items that the receiver opens: those that some chunk names, without
    those whose path is that of the item before. -/
def opened (is : List Item) : List Item :=
  (is.filter Item.sends).destutter fun i j => i.sanitized ≠ j.sanitized

def Item.target (destination : PathBuf) (i : Item) : Path :=
  (destination.join i.sanitized).components

def Item.calls (destination : PathBuf) (i : Item) : List FsCall :=
  creationCalls (!i.isFile) (i.target destination)

section items

variable {destination : PathBuf} {current : Option String}

/-- The later chunks of a file open nothing. -/
theorem chunkCalls_same (destination : PathBuf) {rel : String} {t : Option FileTime}
    {data : List UInt8} {cs : List FileChunk} (cs' : List FileChunk)
    (h : FileChunks rel t data cs) :
    chunkCalls destination (some (sanitizePathComponent rel)) (cs ++ cs')
      = chunkCalls destination (some (sanitizePathComponent rel)) cs' := by
  -- on the chunks of the file; each has the current path
  induction h with
  | eof t => rfl
  | read t data rest cs _ _ ih =>
    have hsanitized : (FileChunk.ofFile rel t data).sanitized = sanitizePathComponent rel := rfl
    simp only [List.cons_append, chunkCalls, callsAfter, pathAfter, ofFile_kind, hsanitized,
      or_true, if_true, reduceCtorEq, if_false, List.nil_append]
    exact ih

/-- The chunks of one item. -/
theorem chunkCalls_item {i : Item} {cs cs' : List FileChunk} (h : ItemChunks i cs) :
    chunkCalls destination current (cs ++ cs')
      = if i.sends then
          (if current = some i.sanitized then [] else i.calls destination) ++
            chunkCalls destination (some i.sanitized) cs'
        else chunkCalls destination current cs' := by
  cases i with
  | dir rel =>
    obtain rfl : cs = [.ofDirectory rel] := h
    have hsanitized : (FileChunk.ofDirectory rel).sanitized = (Item.dir rel).sanitized := rfl
    have hcalls : (FileChunk.ofDirectory rel).calls destination
        = (Item.dir rel).calls destination := by
      simp [FileChunk.calls, Item.calls, Item.isFile, Item.target, FileChunk.target, hsanitized]
    simp [chunkCalls, callsAfter, pathAfter, Item.sends, hsanitized, hcalls]
  -- an empty file sends no chunk; of any other the first chunk opens it
  | file rel t data =>
    cases h with
    | eof => rfl
    | read _ data rest cs hne hrest =>
      have hsanitized : (FileChunk.ofFile rel t data).sanitized
          = (Item.file rel t (data ++ rest)).sanitized := rfl
      have hcalls : (FileChunk.ofFile rel t data).calls destination
          = (Item.file rel t (data ++ rest)).calls destination := by
        simp [FileChunk.calls, Item.calls, Item.isFile, Item.target, FileChunk.target, hsanitized]
      have hsends : (Item.file rel t (data ++ rest)).sends = true := by simp [Item.sends, hne]
      have hsame := chunkCalls_same destination cs' hrest
      rw [hsends, if_pos rfl, ← hcalls, ← hsanitized]
      simp only [List.cons_append, chunkCalls, callsAfter, pathAfter, ofFile_kind, reduceCtorEq,
        false_or, if_false]
      exact congrArg _ hsame

/-- What the receiver opens after a current path, item by item. -/
def callsFrom (destination : PathBuf) : Option String → List Item → List FsCall
  | _, [] => []
  | current, i :: is =>
    if i.sends then
      (if current = some i.sanitized then [] else i.calls destination) ++
        callsFrom destination (some i.sanitized) is
    else callsFrom destination current is

theorem chunkCalls_items {is : List Item} {css : List (List FileChunk)}
    (h : List.Forall₂ ItemChunks is css) :
    chunkCalls destination current css.flatten = callsFrom destination current is := by
  induction h generalizing current with
  | nil => rfl
  | cons hitem _ ih =>
    rw [List.flatten_cons, chunkCalls_item hitem, ih, ih]
    rfl

theorem callsFrom_some (i : Item) (is : List Item) :
    (List.destutter' (fun i j : Item => i.sanitized ≠ j.sanitized) i (is.filter Item.sends)).flatMap
        (Item.calls destination)
      = i.calls destination ++ callsFrom destination (some i.sanitized) is := by
  induction is generalizing i with
  | nil => simp [callsFrom]
  | cons j is ih =>
    -- an item that sends nothing leaves the current path as it is
    by_cases hsends : j.sends = true
    · rw [List.filter_cons_of_pos hsends]
      by_cases hsame : i.sanitized = j.sanitized
      · rw [List.destutter'_cons_neg _ (by simpa using hsame), ih i]
        simp [callsFrom, hsends, hsame]
      · rw [List.destutter'_cons_pos _ (by simpa using hsame), List.flatMap_cons, ih j]
        simp [callsFrom, hsends, hsame]
    · rw [List.filter_cons_of_neg hsends, ih i]
      simp [callsFrom, hsends]

theorem callsFrom_none (is : List Item) :
    callsFrom destination none is = (opened is).flatMap (Item.calls destination) := by
  induction is with
  | nil => rfl
  | cons i is ih =>
    unfold opened at ih ⊢
    by_cases hsends : i.sends = true
    · rw [List.filter_cons_of_pos hsends]
      show _ = (List.destutter' _ i (is.filter Item.sends)).flatMap (Item.calls destination)
      rw [callsFrom_some]
      simp [callsFrom, hsends]
    · rw [List.filter_cons_of_neg hsends, ← ih]
      simp [callsFrom, hsends]

end items

/-! ## Section 5: Entries of the sources -/

/-- What is at a source path and below it, the root first. -/
def Source.entries (s : Source) : List WalkEntry :=
  match s.kind with
  | .file bytes modified => [⟨s.path, .file bytes modified⟩]
  | .dir walk => ⟨s.path, .dir⟩ :: walk
  | .other => [⟨s.path, .other⟩]

/-- Where an entry of the source belongs. -/
def Source.location (s : Source) (destination : PathBuf) (e : WalkEntry) : Path :=
  let rel := relativePath ((parent s.path.components).getD []) e.path
  resolve (destination.join (sanitizePathComponent rel)).components

/-- Processing has created the entry: a file with `File::create`, a directory
    with `create_dir_all` for it or for something below. -/
def Created (d : Disk) (location : Path) : EntryKind → Prop
  | .file _ _ => d.isFile location = true ∧
      ∃ p, .createFile p ∈ d.calls ∧ resolve p = location
  | .dir => d.node location = some .dir ∧
      ∃ p, .createDirAll p ∈ d.calls ∧ location <+: resolve p
  | .other => True

def AllCreated (destination : PathBuf) (sources : List Source) (d : Disk) : Prop :=
  ∀ s ∈ sources, ∀ e ∈ s.entries, Created d (s.location destination e) e.kind

/-- The directory that comes with an item: itself, or the parent of a file. -/
def Item.directory (destination : PathBuf) (i : Item) : Option Path :=
  if i.isFile then parent (i.target destination) else some (i.target destination)

/-- The item brings the entry with it. -/
def Item.Brings (destination : PathBuf) (i : Item) (location : Path) : EntryKind → Prop
  | .file _ _ => i.isFile = true ∧ resolve (i.target destination) = location
  | .dir => ∃ p, i.directory destination = some p ∧ location <+: resolve p
  | .other => True

/-- Some opened item brings each file and each directory of the sources. -/
def Announced (destination : PathBuf) (sources : List Source) : Prop :=
  ∀ s ∈ sources, ∀ e ∈ s.entries, e.kind ≠ .other →
    ∃ i ∈ opened (allItems sources), i.Brings destination (s.location destination e) e.kind

section entries

variable {destination : PathBuf} {sources : List Source} {i : Item} {p : Path}

theorem createFile_mem_calls :
    .createFile p ∈ i.calls destination ↔ i.isFile = true ∧ i.target destination = p := by
  unfold Item.calls creationCalls
  cases i.isFile with
  | true => simp [eq_comm]
  | false => simp

theorem createDirAll_mem_calls :
    .createDirAll p ∈ i.calls destination ↔ i.directory destination = some p := by
  unfold Item.calls creationCalls Item.directory
  cases i.isFile with
  | true => simp
  | false => simp [eq_comm]

/-- The calls for the opened items, all successful, create exactly what these
    bring. -/
theorem created_iff {d : Disk} {is : List Item}
    (hcalls : d.calls = is.flatMap (Item.calls destination)) (hdone : ∀ call ∈ d.calls, call.Done d)
    (location : Path) {kind : EntryKind} (hkind : kind ≠ .other) :
    Created d location kind ↔ ∃ i ∈ is, i.Brings destination location kind := by
  cases kind with
  | other => exact absurd rfl hkind
  -- a file is created by `File::create` of its own item only
  | file bytes modified =>
    constructor
    · rintro ⟨_, p, hp, hlocation⟩
      rw [hcalls] at hp
      obtain ⟨i, hi, hcall⟩ := List.mem_flatMap.1 hp
      obtain ⟨hfile, rfl⟩ := createFile_mem_calls.1 hcall
      exact ⟨i, hi, hfile, hlocation⟩
    · rintro ⟨i, hi, hfile, hlocation⟩
      have hmem : .createFile (i.target destination) ∈ d.calls := by
        rw [hcalls]
        exact List.mem_flatMap.2 ⟨i, hi, createFile_mem_calls.2 ⟨hfile, rfl⟩⟩
      exact ⟨hlocation ▸ hdone _ hmem, _, hmem, hlocation⟩
  -- a directory may come with any item below it
  | dir =>
    constructor
    · rintro ⟨_, p, hp, hlocation⟩
      rw [hcalls] at hp
      obtain ⟨i, hi, hcall⟩ := List.mem_flatMap.1 hp
      exact ⟨i, hi, p, createDirAll_mem_calls.1 hcall, hlocation⟩
    · rintro ⟨i, hi, p, hp, hlocation⟩
      have hmem : .createDirAll p ∈ d.calls := by
        rw [hcalls]
        exact List.mem_flatMap.2 ⟨i, hi, createDirAll_mem_calls.2 hp⟩
      exact ⟨hdone _ hmem _ hlocation, p, hmem, hlocation⟩

end entries

/-! ## Section 6: Whole transfers -/

/-- A sender that is not cancelled and returns `Ok(true)` leaves no loop early. -/
theorem stays_of_completed {s s' : Sender} {ls : List SendLabel} (hpolls : .poll true ∉ ls)
    (hrun : sender.exec s ls = some s') (hret : s'.pc = .returned (.ok true)) :
    sender.Along (fun s l => earlyExit s.pc l = false) s ls := by
  induction ls generalizing s with
  | nil => trivial
  | cons l ls ih =>
    rw [List.mem_cons, not_or] at hpolls
    obtain ⟨t, hstep, hrest⟩ := (Machine.exec_cons _).1 hrun
    refine ⟨?_, fun u hu => ?_⟩
    · obtain ⟨cs, _, hmove⟩ := sendStep_move hstep
      by_contra hexit
      -- an early exit is a cancelled poll or a result other than `Ok(true)`
      rcases hmove.exit_cases (by simpa using hexit) with ⟨file, cont, _, hl⟩ | ⟨r, hr, hne⟩
      · exact hpolls.1 hl.symm
      · obtain ⟨_, rfl⟩ := returned_stays hr hrest
        rw [hr] at hret
        exact hne (SendPc.returned.inj hret)
    · obtain rfl : t = u := Option.some.inj (hstep.symm.trans hu)
      exact ih hpolls.2 hrest

/-- Of a transfer without cancellation and errors, every file and every
    directory is created exactly if the opened items announce it. -/
theorem allCreated_iff_announced {checks : Bool} {destination : PathBuf} {sources : List Source}
    {ls : List SendLabel} {s' : Sender} {acs : ChunkStream} {node : Path → Option Node}
    {r : Receiver} (hsend : sender.exec (.start sources) ls = some s') (hpolls : .poll true ∉ ls)
    (hret : s'.pc = .returned (.ok true)) (hacs : acs.map Prod.snd = s'.handed)
    (hclean : CleanAll checks destination acs (.start node) r) :
    AllCreated destination sources r.disk ↔ Announced destination sources := by
  obtain ⟨css, hcss, hitems⟩ :=
    (emits_of_returned hsend (stays_of_completed hpolls hsend hret) hret).items
  have hcalls := processAll_calls hclean.processed
  obtain ⟨_, hdone⟩ := hclean.creates
  have hchunks : chunkCalls destination none (acs.map Prod.snd)
      = (opened (allItems sources)).flatMap (Item.calls destination) := by
    rw [hacs, hcss, chunkCalls_items hitems, callsFrom_none]
  have hcalls : r.disk.calls = chunkCalls destination none (acs.map Prod.snd) := by
    simpa [Receiver.start, ReceiveState.new] using hcalls
  have hdone : ∀ call ∈ r.disk.calls, call.Done r.disk := by
    rw [hcalls]
    exact hdone
  rw [hchunks] at hcalls
  constructor
  · intro h s hs e he hkind
    exact (created_iff hcalls hdone _ hkind).1 (h s hs e he)
  · intro h s hs e he
    -- of entries that are neither files nor directories nothing is asked
    by_cases hkind : e.kind = .other
    · rw [hkind]
      trivial
    · exact (created_iff hcalls hdone _ hkind).2 (h s hs e he hkind)

/-- The directory `/s` and its file arrive. -/
theorem allCreated_smallSource :
    ∃ r, CleanAll true (OsString.ofString "/d")
        [(.good 1, .ofFile "s/a" (some (.ofSystemTime .epoch)) [7])]
        (.start (emptyTree (OsString.ofString "/d"))) r ∧
      (AllCreated (OsString.ofString "/d") [smallSource] r.disk ↔
        Announced (OsString.ofString "/d") [smallSource]) := by
  have hclean : ∃ r, CleanAll true (OsString.ofString "/d")
      [(.good 1, .ofFile "s/a" (some (.ofSystemTime .epoch)) [7])]
      (.start (emptyTree (OsString.ofString "/d"))) r := by
    refine ⟨_, _, ⟨rfl, fun r₁ hfin _ => ?_⟩, rfl⟩
    obtain rfl := Outcome.ok.inj hfin
    rfl
  obtain ⟨r, hclean⟩ := hclean
  have hsend : ∃ s', sender.exec (.start [smallSource]) smallRun = some s' ∧
      s'.pc = .returned (.ok true) ∧
      [.ofFile "s/a" (some (.ofSystemTime .epoch)) [7]] = s'.handed := ⟨_, rfl, rfl, by decide⟩
  obtain ⟨s', hsend, hret, hhanded⟩ := hsend
  have hpolls : .poll true ∉ smallRun := by simp [smallRun]
  exact ⟨r, hclean, allCreated_iff_announced hsend hpolls hret (by simpa using hhanded) hclean⟩

/-- An empty file and an empty source directory. -/
def emptySources : List Source :=
  [⟨OsString.ofString "/f", .file [] none⟩, ⟨OsString.ofString "/s", .dir []⟩]

/-- Nothing is sent, and neither arrives. -/
theorem emptySources_lost :
    ∃ s', sender.exec (.start emptySources)
        [.poll false, .io none, .io none, .poll false, .read (.ok 0), .poll false, .io none,
          .next false] = some s' ∧
      s'.pc = .returned (.ok true) ∧ s'.handed = [] ∧
      ∀ s ∈ emptySources, ∀ node,
        ¬ AllCreated (OsString.ofString "/d") [s] (Receiver.start node).disk := by
  refine ⟨_, rfl, rfl, rfl, fun s hs node h => ?_⟩
  simp only [emptySources, List.mem_cons, List.not_mem_nil, or_false] at hs
  rcases hs with rfl | rfl
  · obtain ⟨_, p, hp, _⟩ := h _ List.mem_cons_self _ List.mem_cons_self
    cases hp
  · obtain ⟨_, p, hp, _⟩ := h _ List.mem_cons_self _ List.mem_cons_self
    cases hp

end Warpinator
