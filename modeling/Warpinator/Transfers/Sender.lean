import Warpinator.Lib.Machine
import Warpinator.Transfers.Receiver

/-! # The Sending Task

    `transfer_sender.rs` in the `real_filesystem` build as a machine with one
    step for each operation that waits: a poll of the cancellation token, a
    file system call, a chunk handed to `tx`, a progress update.

    The labels carry what the surroundings answer.  A source directory comes
    with the entries that the walker yields for it, in the walker's order. -/

namespace Warpinator

open LexPath

/-! ## Section 1: Sources -/

/-- A node as `metadata` describes it, with the contents of a file. -/
inductive EntryKind where
  | file (bytes : List UInt8) (modified : Option SystemTime)
  | dir
  /-- Neither a file nor a directory, for instance a symlink. -/
  | other
  deriving DecidableEq

/-- An entry that `async_walkdir::WalkDir` yields. -/
structure WalkEntry where
  path : PathBuf
  kind : EntryKind

inductive SourceKind where
  | file (bytes : List UInt8) (modified : Option SystemTime)
  | dir (walk : List WalkEntry)
  | other

structure Source where
  path : PathBuf
  kind : SourceKind

/-! ## Section 2: Chunks -/

/-- The file time that goes into the first chunk of a file. -/
def FileTime.ofSystemTime (t : SystemTime) : FileTime where
  mtime := t.nanos.toNat / 10 ^ 9
  mtimeUsec := t.nanos.toNat % 10 ^ 9 / 10 ^ 6 * 1000
  mtime_lt := by have := t.upper; omega
  mtimeUsec_lt := by omega

/-- `path.strip_prefix(base).unwrap_or(path)`, rendered for the wire. -/
def relativePath (base : Path) (path : PathBuf) : String :=
  OsString.toStringLossy ((stripPrefix unix path base).getD path)

def chunkSize : Nat := 64 * 1024

def FileChunk.ofDirectory (rel : String) : FileChunk where
  relativePath := rel
  fileType := FileType.directory.toInt
  symlinkTarget := ""
  chunk := []
  fileMode := 0o755
  time := none

def FileChunk.ofFile (rel : String) (time : Option FileTime) (data : List UInt8) : FileChunk where
  relativePath := rel
  fileType := FileType.file.toInt
  symlinkTarget := ""
  chunk := data
  fileMode := 0o644
  time := time

section chunks

variable (rel : String) (t : Option FileTime) (data : List UInt8)

@[simp] theorem ofFile_relativePath : (FileChunk.ofFile rel t data).relativePath = rel := rfl

@[simp] theorem ofFile_time : (FileChunk.ofFile rel t data).time = t := rfl

@[simp] theorem ofFile_chunk : (FileChunk.ofFile rel t data).chunk = data := rfl

@[simp] theorem ofFile_kind : (FileChunk.ofFile rel t data).kind = .file := by
  simp [FileChunk.kind, FileChunk.ofFile]

@[simp] theorem ofDirectory_relativePath : (FileChunk.ofDirectory rel).relativePath = rel := rfl

@[simp] theorem ofDirectory_time : (FileChunk.ofDirectory rel).time = none := rfl

@[simp] theorem ofDirectory_kind : (FileChunk.ofDirectory rel).kind = .directory := by
  simp [FileChunk.kind, FileChunk.ofDirectory]

end chunks

/-! ## Section 3: Program points -/

/-- The state of the read loop of `send_file_inner`. -/
structure FileLoop where
  relativePath : String
  fileTime : Option FileTime
  remaining : List UInt8
  firstChunk : Bool

def FileLoop.time (f : FileLoop) : Option FileTime := if f.firstChunk then f.fileTime else none

/-- The chunk of the next `n` bytes. -/
def FileLoop.take (f : FileLoop) (n : Nat) : FileChunk :=
  .ofFile f.relativePath f.time (f.remaining.take n)

def FileLoop.advance (f : FileLoop) (n : Nat) : FileLoop :=
  { f with remaining := f.remaining.drop n, firstChunk := false }

/-- Where `send_stream_inner` goes on when `send_file` has returned `Ok(())`. -/
inductive SendCont where
  | nextSource (rest : List Source)
  | nextEntry (base : Path) (entries : List WalkEntry) (rest : List Source)

inductive SendPc where
  /-- Head of the source loop. -/
  | sourcePoll (source : Source) (rest : List Source)
  | sourceMetadata (base : Path) (source : Source) (rest : List Source)
  | walkNext (base : Path) (entries : List WalkEntry) (rest : List Source)
  /-- Head of the walk loop; `item` is `none` for an error item. -/
  | walkPoll (base : Path) (item : Option WalkEntry) (entries : List WalkEntry)
      (rest : List Source)
  | entryMetadata (base : Path) (entry : WalkEntry) (entries : List WalkEntry)
      (rest : List Source)
  | sendDir (chunk : FileChunk) (cont : SendCont)
  | openFile (file : FileLoop) (cont : SendCont)
  /-- Head of the read loop. -/
  | filePoll (file : FileLoop) (cont : SendCont)
  | readFile (file : FileLoop) (cont : SendCont)
  | sendFile (chunk : FileChunk) (file : FileLoop) (cont : SendCont)
  | progress (bytes : Nat) (file : FileLoop) (cont : SendCont)
  | returned (result : Except TransferError Bool)

/-- The source loop with the sources that are left. -/
def sourceLoop : List Source → SendPc
  | [] => .returned (.ok true)
  | source :: rest => .sourcePoll source rest

def SendCont.resume : SendCont → SendPc
  | .nextSource rest => sourceLoop rest
  | .nextEntry base entries rest => .walkNext base entries rest

/-- What the surroundings answer. -/
inductive SendLabel where
  | poll (cancelled : Bool)
  /-- `metadata` or `File::open`. -/
  | io (fault : Option IoErrorKind)
  /-- `walker.next()`, which yields an error item when `fault` is set. -/
  | next (fault : Bool)
  | read (answer : Except IoErrorKind Nat)
  | send (accepted : Bool)
  | progress (bps : Nat)

structure Sender where
  pc : SendPc
  speed : MovingAverageCalculator
  /-- The chunks that `tx` has taken, oldest first. -/
  handed : List FileChunk
  /-- The progress updates issued so far, oldest first. -/
  progress : List Progress

def Sender.start (sources : List Source) : Sender where
  pc := sourceLoop sources
  speed := .new 30
  handed := []
  progress := []

def Sender.goto (s : Sender) (pc : SendPc) : Sender := { s with pc := pc }

@[simp] theorem goto_pc (s : Sender) (pc : SendPc) : (s.goto pc).pc = pc := rfl
@[simp] theorem goto_handed (s : Sender) (pc : SendPc) : (s.goto pc).handed = s.handed := rfl

/-- A chunk handed to `tx`. -/
def Sender.hand (s : Sender) (chunk : FileChunk) (pc : SendPc) : Sender :=
  { s with pc := pc, handed := s.handed ++ [chunk] }

@[simp] theorem hand_pc (s : Sender) (c : FileChunk) (pc : SendPc) : (s.hand c pc).pc = pc := rfl
@[simp] theorem hand_handed (s : Sender) (c : FileChunk) (pc : SendPc) :
    (s.hand c pc).handed = s.handed ++ [c] := rfl

/-! ## Section 4: The step function -/

/-- The branch on `source_metadata`. -/
def enterSource (base : Path) (source : Source) (rest : List Source) : SendPc :=
  match source.kind with
  | .file bytes modified =>
    .openFile
      { relativePath := Warpinator.relativePath base source.path
        fileTime := modified.map .ofSystemTime
        remaining := bytes
        firstChunk := true }
      (.nextSource rest)
  | .dir walk => .walkNext base walk rest
  | .other => sourceLoop rest

/-- The branch on the metadata of a walked entry. -/
def enterEntry (base : Path) (entry : WalkEntry) (entries : List WalkEntry) (rest : List Source) :
    SendPc :=
  match entry.kind with
  | .dir => .sendDir (.ofDirectory (relativePath base entry.path)) (.nextEntry base entries rest)
  | .file bytes modified =>
    .openFile
      { relativePath := Warpinator.relativePath base entry.path
        fileTime := modified.map .ofSystemTime
        remaining := bytes
        firstChunk := true }
      (.nextEntry base entries rest)
  -- symlinks skipped
  | .other => .walkNext base entries rest

/-- One step of `send_stream_inner` and the functions it calls. -/
def sendStep (s : Sender) (l : SendLabel) : Option Sender :=
  match s.pc, l with
  | .sourcePoll source rest, .poll cancelled =>
    if cancelled then some (s.goto (.returned (.ok false)))
    else
      match parent source.path.components with
      -- a path without a parent ends the whole transfer
      | none => some (s.goto (.returned (.error .failedToProcessFiles)))
      | some base => some (s.goto (.sourceMetadata base source rest))
  | .sourceMetadata base source rest, .io fault =>
    match fault with
    | some e => some (s.goto (.returned (.error (.ofIoErrorKind e))))
    | none => some (s.goto (enterSource base source rest))
  | .walkNext base entries rest, .next fault =>
    if fault then some (s.goto (.walkPoll base none entries rest))
    else
      match entries with
      -- the walk is over
      | [] => some (s.goto (sourceLoop rest))
      | e :: es => some (s.goto (.walkPoll base (some e) es rest))
  | .walkPoll base item entries rest, .poll cancelled =>
    if cancelled then some (s.goto (.returned (.ok false)))
    else
      match item with
      | none => some (s.goto (.returned (.error .failedToProcessFiles)))
      | some e => some (s.goto (.entryMetadata base e entries rest))
  | .entryMetadata base entry entries rest, .io fault =>
    match fault with
    | some e => some (s.goto (.returned (.error (.ofIoErrorKind e))))
    | none => some (s.goto (enterEntry base entry entries rest))
  | .sendDir chunk cont, .send accepted =>
    if accepted then some (s.hand chunk cont.resume)
    else some (s.goto (.returned (.error .connectionLost)))
  | .openFile file cont, .io fault =>
    match fault with
    | some e => some (s.goto (.returned (.error (.ofIoErrorKind e))))
    | none => some (s.goto (.filePoll file cont))
  | .filePoll file cont, .poll cancelled =>
    -- a cancelled file returns `Ok(())`, as a finished one does
    if cancelled then some (s.goto cont.resume) else some (s.goto (.readFile file cont))
  | .readFile file cont, .read answer =>
    match answer with
    | .error e => some (s.goto (.returned (.error (.ofIoErrorKind e))))
    -- `n == 0` is the end of the file; a read returns at most what is left
    | .ok 0 => if file.remaining = [] then some (s.goto cont.resume) else none
    | .ok n =>
      if n ≤ chunkSize ∧ n ≤ file.remaining.length then
        some (s.goto (.sendFile (file.take n) (file.advance n) cont))
      else none
  | .sendFile chunk file cont, .send accepted =>
    if accepted then some (s.hand chunk (.progress chunk.chunk.length file cont))
    -- the receiving half of the channel has been dropped
    else some (s.goto (.returned (.error .connectionLost)))
  | .progress bytes file cont, .progress bps =>
    let (speed, avgBps) := s.speed.push bps
    some { s with
      pc := .filePoll file cont
      speed := speed
      progress := s.progress ++ [⟨bytes, avgBps⟩] }
  | _, _ => none

def sender : Machine Sender SendLabel where
  step := sendStep

/-! ## Section 5: What a step can do -/

/-- The moves between program points, with the chunks handed over. -/
inductive SendMove : SendPc → SendLabel → SendPc → List FileChunk → Prop where
  | sourceCancelled (source : Source) (rest : List Source) :
      SendMove (.sourcePoll source rest) (.poll true) (.returned (.ok false)) []
  | sourceRootless (source : Source) (rest : List Source) :
      parent source.path.components = none →
      SendMove (.sourcePoll source rest) (.poll false)
        (.returned (.error .failedToProcessFiles)) []
  | sourcePolled (base : Path) (source : Source) (rest : List Source) :
      parent source.path.components = some base →
      SendMove (.sourcePoll source rest) (.poll false) (.sourceMetadata base source rest) []
  | sourceFailed (base : Path) (source : Source) (rest : List Source) (e : IoErrorKind) :
      SendMove (.sourceMetadata base source rest) (.io (some e))
        (.returned (.error (.ofIoErrorKind e))) []
  | sourceEntered (base : Path) (source : Source) (rest : List Source) :
      SendMove (.sourceMetadata base source rest) (.io none) (enterSource base source rest) []
  | walkFailed (base : Path) (entries : List WalkEntry) (rest : List Source) :
      SendMove (.walkNext base entries rest) (.next true) (.walkPoll base none entries rest) []
  | walkDone (base : Path) (rest : List Source) :
      SendMove (.walkNext base [] rest) (.next false) (sourceLoop rest) []
  | walkItem (base : Path) (e : WalkEntry) (entries : List WalkEntry) (rest : List Source) :
      SendMove (.walkNext base (e :: entries) rest) (.next false)
        (.walkPoll base (some e) entries rest) []
  | walkCancelled (base : Path) (item : Option WalkEntry) (entries : List WalkEntry)
      (rest : List Source) :
      SendMove (.walkPoll base item entries rest) (.poll true) (.returned (.ok false)) []
  | walkError (base : Path) (entries : List WalkEntry) (rest : List Source) :
      SendMove (.walkPoll base none entries rest) (.poll false)
        (.returned (.error .failedToProcessFiles)) []
  | walkPolled (base : Path) (e : WalkEntry) (entries : List WalkEntry) (rest : List Source) :
      SendMove (.walkPoll base (some e) entries rest) (.poll false)
        (.entryMetadata base e entries rest) []
  | entryFailed (base : Path) (e : WalkEntry) (entries : List WalkEntry) (rest : List Source)
      (k : IoErrorKind) :
      SendMove (.entryMetadata base e entries rest) (.io (some k))
        (.returned (.error (.ofIoErrorKind k))) []
  | entryEntered (base : Path) (e : WalkEntry) (entries : List WalkEntry) (rest : List Source) :
      SendMove (.entryMetadata base e entries rest) (.io none)
        (enterEntry base e entries rest) []
  | dirSent (chunk : FileChunk) (cont : SendCont) :
      SendMove (.sendDir chunk cont) (.send true) cont.resume [chunk]
  | dirRefused (chunk : FileChunk) (cont : SendCont) :
      SendMove (.sendDir chunk cont) (.send false) (.returned (.error .connectionLost)) []
  | openFailed (file : FileLoop) (cont : SendCont) (e : IoErrorKind) :
      SendMove (.openFile file cont) (.io (some e)) (.returned (.error (.ofIoErrorKind e))) []
  | opened (file : FileLoop) (cont : SendCont) :
      SendMove (.openFile file cont) (.io none) (.filePoll file cont) []
  | fileCancelled (file : FileLoop) (cont : SendCont) :
      SendMove (.filePoll file cont) (.poll true) cont.resume []
  | filePolled (file : FileLoop) (cont : SendCont) :
      SendMove (.filePoll file cont) (.poll false) (.readFile file cont) []
  | readFailed (file : FileLoop) (cont : SendCont) (e : IoErrorKind) :
      SendMove (.readFile file cont) (.read (.error e)) (.returned (.error (.ofIoErrorKind e))) []
  | readEof (file : FileLoop) (cont : SendCont) :
      file.remaining = [] → SendMove (.readFile file cont) (.read (.ok 0)) cont.resume []
  | readBytes (file : FileLoop) (cont : SendCont) (n : Nat) :
      0 < n → n ≤ chunkSize → n ≤ file.remaining.length →
      SendMove (.readFile file cont) (.read (.ok n))
        (.sendFile (file.take n) (file.advance n) cont) []
  | chunkSent (chunk : FileChunk) (file : FileLoop) (cont : SendCont) :
      SendMove (.sendFile chunk file cont) (.send true)
        (.progress chunk.chunk.length file cont) [chunk]
  | chunkRefused (chunk : FileChunk) (file : FileLoop) (cont : SendCont) :
      SendMove (.sendFile chunk file cont) (.send false) (.returned (.error .connectionLost)) []
  | progressed (bytes bps : Nat) (file : FileLoop) (cont : SendCont) :
      SendMove (.progress bytes file cont) (.progress bps) (.filePoll file cont) []

/-- Every step is one of the moves. -/
theorem sendStep_move {s s' : Sender} {l : SendLabel} (h : sendStep s l = some s') :
    ∃ cs, s'.handed = s.handed ++ cs ∧ SendMove s.pc l s'.pc cs := by
  obtain ⟨pc, speed, handed, progress⟩ := s
  have done : ∀ {pc' : SendPc}, SendMove pc l pc' [] →
      ∃ cs, handed = handed ++ cs ∧ SendMove pc l pc' cs :=
    fun hmove => ⟨[], (List.append_nil _).symm, hmove⟩
  unfold sendStep at h
  dsimp only at h
  split at h
  · -- source poll
    next source rest cancelled =>
    cases cancelled with
    | true => cases h; exact done (.sourceCancelled _ _)
    | false =>
      simp only [Bool.false_eq_true, if_false] at h
      split at h
      · next hp => cases h; exact done (.sourceRootless _ _ hp)
      · next hp => cases h; exact done (.sourcePolled _ _ _ hp)
  · -- source metadata
    split at h
    · cases h; exact done (.sourceFailed _ _ _ _)
    · cases h; exact done (.sourceEntered _ _ _)
  · -- walker
    next base entries rest fault =>
    cases fault with
    | true => cases h; exact done (.walkFailed _ _ _)
    | false =>
      simp only [Bool.false_eq_true, if_false] at h
      split at h
      · cases h; exact done (.walkDone _ _)
      · cases h; exact done (.walkItem _ _ _ _)
  · -- walk poll
    next base item entries rest cancelled =>
    cases cancelled with
    | true => cases h; exact done (.walkCancelled _ _ _ _)
    | false =>
      simp only [Bool.false_eq_true, if_false] at h
      split at h
      · cases h; exact done (.walkError _ _ _)
      · cases h; exact done (.walkPolled _ _ _ _)
  · -- entry metadata
    split at h
    · cases h; exact done (.entryFailed _ _ _ _ _)
    · cases h; exact done (.entryEntered _ _ _ _)
  · -- directory chunk
    next chunk cont accepted =>
    cases accepted with
    | true => cases h; exact ⟨[chunk], rfl, .dirSent _ _⟩
    | false => cases h; exact done (.dirRefused _ _)
  · -- open
    split at h
    · cases h; exact done (.openFailed _ _ _)
    · cases h; exact done (.opened _ _)
  · -- read loop poll
    next file cont cancelled =>
    cases cancelled with
    | true => cases h; exact done (.fileCancelled _ _)
    | false => cases h; exact done (.filePolled _ _)
  · -- read
    next file cont answer =>
    split at h
    · cases h; exact done (.readFailed _ _ _)
    · split at h
      · next hrem => cases h; exact done (.readEof _ _ hrem)
      · cases h
    · next n hn =>
      split at h
      · next hlen =>
        cases h
        exact done (.readBytes _ _ _ (Nat.pos_of_ne_zero fun h0 => hn (by rw [h0])) hlen.1 hlen.2)
      · cases h
  · -- file chunk
    next chunk file cont accepted =>
    cases accepted with
    | true => cases h; exact ⟨[chunk], rfl, .chunkSent _ _ _⟩
    | false => cases h; exact done (.chunkRefused _ _ _)
  · cases h; exact done (.progressed _ _ _ _)
  · cases h

end Warpinator
