import Warpinator.Transfers.Disk

/-! # The Receiving Task

    `transfer_receiver.rs` in the `real_filesystem` build: the file state
    machine that opens, appends and finalizes files as the chunks of a stream
    name them.

    A call returns `ok`, returns an error, or panics.  `checks` tells whether
    the build has overflow checks on (a debug build), which decides what
    `mtime_usec * 1000` does beyond `u32`. -/

namespace Warpinator

open LexPath

/-! ## Section 1: Messages -/

inductive FileType where
  | file
  | directory
  | symlink
  deriving DecidableEq, Repr

/-- `TryFrom<i32> for FileType`. -/
def FileType.tryFrom (value : Int) : Option FileType :=
  if value = 1 then some .file
  else if value = 2 then some .directory
  else if value = 3 then some .symlink
  else none

/-- `From<FileType> for i32`. -/
def FileType.toInt : FileType → Int
  | .file => 1
  | .directory => 2
  | .symlink => 3

@[simp] theorem tryFrom_toInt (t : FileType) : FileType.tryFrom t.toInt = some t := by
  cases t <;> rfl

/-- `proto::FileChunk`. -/
structure FileChunk where
  relativePath : String
  fileType : Int
  symlinkTarget : String
  chunk : List UInt8
  fileMode : Nat
  time : Option FileTime
  deriving DecidableEq

/-- The file type the receiver reads out of a chunk. -/
def FileChunk.kind (c : FileChunk) : FileType := (FileType.tryFrom c.fileType).getD .file

/-! ## Section 2: Speed and progress -/

structure MovingAverageCalculator where
  samples : List Nat
  window : Nat
  deriving DecidableEq

def MovingAverageCalculator.new (window : Nat) : MovingAverageCalculator where
  samples := []
  window := window

def MovingAverageCalculator.currentAverage (m : MovingAverageCalculator) : Nat :=
  if m.samples.isEmpty then 0 else m.samples.sum / m.samples.length

/-- `push` with a positive elapsed time; `bps` is the truncated quotient of
    bytes and seconds. -/
def MovingAverageCalculator.push (m : MovingAverageCalculator) (bps : Nat) :
    MovingAverageCalculator × Nat :=
  let samples := m.samples ++ [bps]
  let m := { m with samples := if samples.length > m.window then samples.drop 1 else samples }
  (m, m.currentAverage)

/-- A progress update of the transfer record. -/
structure Progress where
  bytes : Nat
  bytesPerSecond : Nat
  deriving DecidableEq

def Progress.apply (p : Progress) (t : Transfer) : Transfer :=
  { t with
    bytesTransferred := t.bytesTransferred + p.bytes
    bytesPerSecond := p.bytesPerSecond }

/-! ## Section 3: Receiver state -/

structure ReceiveState where
  currentPath : Option String
  currentFile : Option OpenFile
  currentFileMtime : Option FileTime
  speed : MovingAverageCalculator
  deriving DecidableEq

def ReceiveState.new : ReceiveState where
  currentPath := none
  currentFile := none
  currentFileMtime := none
  speed := .new 30

structure Receiver where
  state : ReceiveState
  disk : Disk
  /-- The progress updates issued so far, oldest first. -/
  progress : List Progress

/-- A receiver that has processed nothing yet, on the given tree. -/
def Receiver.start (node : Path → Option Node) : Receiver where
  state := .new
  disk := { node := node, calls := [] }
  progress := []

/-- What the surroundings answer while one chunk is processed. -/
structure IoAnswers where
  finalize : Option IoErrorKind
  createDirAll : Option IoErrorKind
  createFile : Option IoErrorKind
  write : Option Fault
  bps : Nat

/-- No operation fails. -/
def IoAnswers.good (bps : Nat) : IoAnswers where
  finalize := none
  createDirAll := none
  createFile := none
  write := none
  bps := bps

inductive Outcome (σ : Type) where
  | ok (s : σ)
  | err (e : TransferError) (s : σ)
  | panic (s : σ)

/-- The state a call leaves, however it ends. -/
def Outcome.state {σ : Type} : Outcome σ → σ
  | .ok s => s
  | .err _ s => s
  | .panic s => s

def Outcome.bind {σ : Type} (o : Outcome σ) (f : σ → Outcome σ) : Outcome σ :=
  match o with
  | .ok s => f s
  | .err e s => .err e s
  | .panic s => .panic s

/-! ## Section 4: Functions -/

/-- Multiplication of two `u32`, `none` where it panics. -/
def mulU32 (checks : Bool) (a b : Nat) : Option Nat :=
  if a * b < 2 ^ 32 then some (a * b)
  else if checks then none
  else some (a * b % 2 ^ 32)

/-- `UNIX_EPOCH + Duration::new(time.mtime, time.mtime_usec * 1000)`, `none`
    where one of the three operations panics. -/
def FileTime.systemTime (checks : Bool) (time : FileTime) : Option SystemTime :=
  (mulU32 checks time.mtimeUsec 1000).bind fun nanos =>
    SystemTime.afterEpoch (time.mtime * 10 ^ 9 + nanos)

def ReceiveState.closed (s : ReceiveState) : ReceiveState :=
  { s with currentPath := none, currentFile := none, currentFileMtime := none }

/-- `ReceiveState::finalize_current_file`. -/
def finalizeCurrentFile (checks : Bool) (fault : Option IoErrorKind) (r : Receiver) :
    Outcome Receiver :=
  -- `current_file_mtime` is only taken out together with a file
  match r.state.currentFile with
  | none => .ok { r with state := { r.state with currentPath := none } }
  | some file =>
    match r.state.currentFileMtime with
    | some time =>
      -- `into_std` waits for the write in flight and drops its error
      match time.systemTime checks with
      | none => .panic r
      | some t =>
        .ok { r with state := r.state.closed, disk := r.disk.setTimes fault file t }
    | none => .ok { r with state := r.state.closed }

/-- The characters that the receiver replaces. -/
def reservedChars : List Char := ['\\', '<', '>', '*', '|', '?', ':', '"']

def sanitizeChar (c : Char) : Char := if c ∈ reservedChars then '_' else c

def sanitizePathComponent (name : String) : String :=
  String.ofList (name.toList.map sanitizeChar)

/-- `s.contains("..")`. -/
def containsDotDot (s : String) : Bool :=
  s.toList.tails.any fun t => ['.', '.'].isPrefixOf t

/-- `write_chunk`. -/
def writeChunk (ans : IoAnswers) (data : List UInt8) (r : Receiver) : Outcome Receiver :=
  match r.state.currentFile with
  -- data without an open file is dropped, as after a directory's chunk
  | none => .ok r
  | some file =>
    match r.disk.writeAll ans.write file data with
    | (.error e, disk) => .err (.ofIoErrorKind e) { r with disk := disk }
    | (.ok file, disk) =>
      let (speed, avgBps) := r.state.speed.push ans.bps
      .ok { r with
        state := { r.state with currentFile := some file, speed := speed }
        disk := disk
        progress := r.progress ++ [⟨data.length, avgBps⟩] }

/-- `create_dir_all` on the parent of the target, where it has one. -/
def createParent (ans : IoAnswers) (targetPath : PathBuf) (d : Disk) : Disk :=
  match parent targetPath.components with
  | some p => (d.createDirAll ans.createDirAll p).2
  | none => d

/-- The branch of `process_chunk` for a path other than the current one, after
    the current file has been finalized. -/
def openTarget (ans : IoAnswers) (chunk : FileChunk) (targetPath : PathBuf) (r : Receiver) :
    Outcome Receiver :=
  if chunk.kind = .directory then
    .ok { r with disk := (r.disk.createDirAll ans.createDirAll targetPath.components).2 }
  else
    match (createParent ans targetPath r.disk).createFile ans.createFile targetPath.components with
    | (.error e, disk) => .err (.ofIoErrorKind e) { r with disk := disk }
    -- a new file takes the data of the very chunk that opened it
    | (.ok file, disk) =>
      writeChunk ans chunk.chunk
        { r with state := { r.state with currentFile := some file }, disk := disk }

/-- The test of `process_chunk` that rejects a target outside the destination. -/
def refusesPath (destination : PathBuf) (sanitized : String) : Bool :=
  containsDotDot sanitized && !(destination.join sanitized).startsWith destination

/-- `process_chunk` of the `real_filesystem` build. -/
def processChunk (checks : Bool) (destination : PathBuf) (ans : IoAnswers) (chunk : FileChunk)
    (r : Receiver) : Outcome Receiver :=
  -- left out before the path check, so a link may carry any path
  if chunk.kind = .symlink then .ok r
  else
    let sanitized := sanitizePathComponent chunk.relativePath
    if refusesPath destination sanitized then .err .unsafePath r
    else if r.state.currentPath = some sanitized then writeChunk ans chunk.chunk r
    else
      (finalizeCurrentFile checks ans.finalize r).bind fun r =>
        openTarget ans chunk (destination.join sanitized)
          { r with state := { r.state with
              currentPath := some sanitized, currentFileMtime := chunk.time } }

/-! ## Section 5: The receive loop -/

/-- A stream of chunks, each with the answers of the file system.  It ends at
    the first chunk that does not return `Ok`. -/
abbrev ChunkStream : Type := List (IoAnswers × FileChunk)

/-- The chunks of a stream, processed in order. -/
def processAll (checks : Bool) (destination : PathBuf) : ChunkStream → Receiver → Outcome Receiver
  | [], r => .ok r
  | (ans, chunk) :: rest, r =>
    (processChunk checks destination ans chunk r).bind (processAll checks destination rest)

/-- What one `select!` of the receive loop wakes up with. -/
inductive StreamEvent where
  | cancelled
  | message (ans : IoAnswers) (chunk : FileChunk)
  | endOfStream
  | streamError

/-- One round of the loop: another round, or the result of
    `receive_stream_inner`. -/
inductive Round where
  | again (r : Receiver)
  | done (result : Except TransferError Bool) (r : Receiver)
  | panic (r : Receiver)

/-- Finalize the current file and leave the loop. -/
def leaveLoop (checks : Bool) (fault : Option IoErrorKind) (result : Except TransferError Bool)
    (r : Receiver) : Round :=
  match finalizeCurrentFile checks fault r with
  | .ok r => .done result r
  -- finalizing never errs
  | .err e r => .done (.error e) r
  | .panic r => .panic r

/-- The body of the loop of `receive_stream_inner`.  `fault` answers the
    finalization on the way out. -/
def receiveRound (checks : Bool) (destination : PathBuf) (fault : Option IoErrorKind)
    (r : Receiver) : StreamEvent → Round
  | .cancelled => leaveLoop checks fault (.ok false) r
  | .endOfStream => leaveLoop checks fault (.ok true) r
  | .streamError => leaveLoop checks fault (.error .connectionLost) r
  | .message ans chunk =>
    match processChunk checks destination ans chunk r with
    | .ok r => .again r
    -- `?` leaves the loop with the current file not finalized
    | .err e r => .done (.error e) r
    | .panic r => .panic r

/-- The state that `receive_stream` wants to leave. -/
def receiveFinalState : Except TransferError Bool → TransferState
  | .ok true => .completed
  | .ok false => .canceled
  | .error e => .failed e

/-- The closing update of `receive_stream`. -/
def finishReceive (finalState : TransferState) (t : Transfer) : Transfer :=
  { t with
    state := if t.state = .stopped ∨ t.state = .canceled then t.state else finalState
    bytesPerSecond := 0 }

/-! ## Section 6: What a call can do -/

theorem finalizeCurrentFile_calls (checks : Bool) (fault : Option IoErrorKind) (r : Receiver) :
    (finalizeCurrentFile checks fault r).state.disk.calls = r.disk.calls := by
  unfold finalizeCurrentFile
  split
  · rfl
  · split
    · split
      · rfl
      · simp [Outcome.state]
    · rfl

theorem finalizeCurrentFile_ne_err (checks : Bool) (fault : Option IoErrorKind) (r : Receiver)
    (e : TransferError) (r' : Receiver) : finalizeCurrentFile checks fault r ≠ .err e r' := by
  unfold finalizeCurrentFile
  split
  · simp
  · split
    · split <;> simp
    · simp

theorem writeChunk_calls (ans : IoAnswers) (data : List UInt8) (r : Receiver) :
    (writeChunk ans data r).state.disk.calls = r.disk.calls := by
  unfold writeChunk
  split
  · rfl
  · next file _ =>
    have h := writeAll_calls ans.write file data r.disk
    split <;> next heq => rw [heq] at h; exact h

theorem writeChunk_err {ans : IoAnswers} {data : List UInt8} {r r' : Receiver} {e : TransferError}
    (h : writeChunk ans data r = .err e r') : ∃ k, e = .ofIoErrorKind k := by
  unfold writeChunk at h
  split at h
  · cases h
  · split at h
    · cases h; exact ⟨_, rfl⟩
    · cases h

theorem openTarget_err {ans : IoAnswers} {chunk : FileChunk} {target : PathBuf} {r r' : Receiver}
    {e : TransferError} (h : openTarget ans chunk target r = .err e r') :
    ∃ k, e = .ofIoErrorKind k := by
  unfold openTarget at h
  split at h
  · cases h
  · split at h
    · cases h; exact ⟨_, rfl⟩
    · exact writeChunk_err h

/-- A chunk fails with `UnsafePath` or with an I/O error. -/
theorem processChunk_err {checks : Bool} {destination : PathBuf} {ans : IoAnswers}
    {chunk : FileChunk} {r r' : Receiver} {e : TransferError}
    (h : processChunk checks destination ans chunk r = .err e r') :
    e = .unsafePath ∨ ∃ k, e = .ofIoErrorKind k := by
  unfold processChunk at h
  split at h
  · cases h
  · dsimp only at h
    split at h
    · cases h; exact .inl rfl
    · split at h
      · exact .inr (writeChunk_err h)
      · cases hfin : finalizeCurrentFile checks ans.finalize r with
        | ok r₁ => rw [hfin] at h; exact .inr (openTarget_err h)
        | err e' r₁ => exact absurd hfin (finalizeCurrentFile_ne_err _ _ _ _ _)
        | panic r₁ => rw [hfin] at h; cases h

end Warpinator
