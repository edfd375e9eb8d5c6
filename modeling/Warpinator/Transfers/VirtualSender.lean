import Warpinator.Transfers.Sender

/-! # The Sending Task over a Virtual File System

    `transfer_sender.rs` in the `virtual_filesystem` build, with the walker of
    `filesystem/vfs/walkdir.rs`: a queue of entries, where a directory is listed
    when it leaves the queue.

    `send_file_inner` is the same function in both builds.  Here it is a run of
    the other build's machine that has nothing left to do after the file. -/

namespace Warpinator

/-! ## Section 1: The walker -/

/-- `Path::to_str`. -/
def OsString.toStr (s : OsString) : Option String :=
  (s.mapM fun u : OsUnit => match u with
    | .char c => some c
    | .invalid _ => none).map String.ofList

/-- `VirtualMetadata`, as far as the sender reads it. -/
structure VirtualMetadata where
  isDir : Bool
  name : String
  deriving DecidableEq

/-- `VirtualEntry`. -/
structure VirtualEntry where
  isDir : Bool
  path : String
  name : String
  deriving DecidableEq

structure WalkDirEntry where
  isDir : Bool
  path : String
  name : String
  basePath : String
  deriving DecidableEq

def WalkDirEntry.relativePath (e : WalkDirEntry) : String :=
  if e.basePath.isEmpty then e.name else e.basePath ++ "/" ++ e.name

/-- `VirtualWalkDir::new`. -/
def virtualWalkDir (rootPath rootName : String) : List WalkDirEntry :=
  [{ isDir := true, path := rootPath, name := rootName, basePath := "" }]

/-- The queue of `VirtualWalkDir::next` after the listing of an entry. -/
def WalkDirEntry.enqueue (e : WalkDirEntry) (queue : List WalkDirEntry) :
    Except VirtualFilesystemError (List VirtualEntry) → List WalkDirEntry
  | .ok children =>
    queue ++ children.map fun child =>
      { isDir := child.isDir, path := child.path, name := child.name, basePath := e.relativePath }
  -- the error is logged
  | .error _ => queue

/-! ## Section 2: Program points -/

inductive VirtualPc where
  /-- Head of the source loop. -/
  | sourcePoll (source : PathBuf) (rest : List PathBuf)
  | sourceMetadata (source : String) (rest : List PathBuf)
  | listDir (entry : WalkDirEntry) (queue : List WalkDirEntry) (rest : List PathBuf)
  /-- Head of the walk loop. -/
  | walkPoll (entry : WalkDirEntry) (queue : List WalkDirEntry) (rest : List PathBuf)
  | sendDir (chunk : FileChunk) (queue : List WalkDirEntry) (rest : List PathBuf)
  | openFile (path rel : String) (queue : List WalkDirEntry) (rest : List PathBuf)
  | fileMetadata (rel : String) (bytes : List UInt8) (queue : List WalkDirEntry)
      (rest : List PathBuf)
  /-- In `send_file_inner`. -/
  | inFile (pc : SendPc) (queue : List WalkDirEntry) (rest : List PathBuf)
  | returned (result : Except TransferError Bool)

/-- What the surroundings answer. -/
inductive VirtualLabel where
  /-- What both builds ask for. -/
  | common (l : SendLabel)
  | metadata (answer : Except VirtualFilesystemError VirtualMetadata)
  | listDir (answer : Except VirtualFilesystemError (List VirtualEntry))
  /-- `open_file`, with the contents of the file. -/
  | openFile (answer : Except VirtualFilesystemError (List UInt8))
  /-- The metadata of the open file, with its modification time. -/
  | fileMetadata (answer : Except IoErrorKind (Option SystemTime))

def virtualSourceLoop : List PathBuf → VirtualPc
  | [] => .returned (.ok true)
  | source :: rest => .sourcePoll source rest

/-- `VirtualWalkDir::next` up to the listing, and the source loop behind it. -/
def virtualWalkNext (queue : List WalkDirEntry) (rest : List PathBuf) : VirtualPc :=
  match queue with
  | [] => virtualSourceLoop rest
  | e :: queue => if e.isDir then .listDir e queue rest else .walkPoll e queue rest

/-- The branch on `source_metadata`. -/
def virtualEnterSource (source : String) (m : VirtualMetadata) (rest : List PathBuf) : VirtualPc :=
  if m.isDir then virtualWalkNext (virtualWalkDir source m.name) rest
  else .openFile source m.name [] rest

/-- The branch on a walked entry. -/
def virtualEnterEntry (e : WalkDirEntry) (queue : List WalkDirEntry) (rest : List PathBuf) :
    VirtualPc :=
  if e.isDir then .sendDir (.ofDirectory e.relativePath) queue rest
  else .openFile e.path e.relativePath queue rest

/-- `send_file_inner`, with nothing to do after it. -/
def sendFileInner (rel : String) (modified : Option SystemTime) (bytes : List UInt8) : SendPc :=
  .filePoll
    { relativePath := rel
      fileTime := modified.map .ofSystemTime
      remaining := bytes
      firstChunk := true }
    (.nextSource [])

/-- Go on when `send_file_inner` has returned. -/
def virtualFileLoop (queue : List WalkDirEntry) (rest : List PathBuf) : SendPc → VirtualPc
  | .returned (.ok _) => virtualWalkNext queue rest
  | .returned (.error e) => .returned (.error e)
  | pc => .inFile pc queue rest

/-! ## Section 3: The step function -/

structure VirtualSender where
  pc : VirtualPc
  speed : MovingAverageCalculator
  /-- The chunks that `tx` has taken, oldest first. -/
  handed : List FileChunk
  /-- The progress updates issued so far, oldest first. -/
  progress : List Progress

def VirtualSender.start (sources : List PathBuf) : VirtualSender where
  pc := virtualSourceLoop sources
  speed := .new 30
  handed := []
  progress := []

def VirtualSender.goto (s : VirtualSender) (pc : VirtualPc) : VirtualSender := { s with pc := pc }

@[simp] theorem virtual_goto_pc (s : VirtualSender) (pc : VirtualPc) : (s.goto pc).pc = pc := rfl

/-- One step of `send_stream_inner` and the functions it calls. -/
def VirtualSender.step (s : VirtualSender) (l : VirtualLabel) : Option VirtualSender :=
  match s.pc, l with
  | .sourcePoll source rest, .common (.poll cancelled) =>
    if cancelled then some (s.goto (.returned (.ok false)))
    else
      match source.toStr with
      | none => some (s.goto (.returned (.error .unsafePath)))
      | some source => some (s.goto (.sourceMetadata source rest))
  | .sourceMetadata source rest, .metadata answer =>
    match answer with
    | .error e => some (s.goto (.returned (.error (.virtualFilesystemError e))))
    | .ok m => some (s.goto (virtualEnterSource source m rest))
  | .listDir entry queue rest, .listDir answer =>
    some (s.goto (.walkPoll entry (entry.enqueue queue answer) rest))
  | .walkPoll entry queue rest, .common (.poll cancelled) =>
    if cancelled then some (s.goto (.returned (.ok false)))
    else some (s.goto (virtualEnterEntry entry queue rest))
  | .sendDir chunk queue rest, .common (.send accepted) =>
    if accepted then
      some { s with pc := virtualWalkNext queue rest, handed := s.handed ++ [chunk] }
    else some (s.goto (.returned (.error .connectionLost)))
  | .openFile _ rel queue rest, .openFile answer =>
    match answer with
    | .error e => some (s.goto (.returned (.error (.virtualFilesystemError e))))
    | .ok bytes => some (s.goto (.fileMetadata rel bytes queue rest))
  | .fileMetadata rel bytes queue rest, .fileMetadata answer =>
    match answer with
    | .error e => some (s.goto (.returned (.error (.ofIoErrorKind e))))
    | .ok modified => some (s.goto (.inFile (sendFileInner rel modified bytes) queue rest))
  | .inFile pc queue rest, .common l =>
    (sendStep { pc := pc, speed := s.speed, handed := s.handed, progress := s.progress } l).map
      fun t =>
        { pc := virtualFileLoop queue rest t.pc
          speed := t.speed
          handed := t.handed
          progress := t.progress }
  | _, _ => none

def virtualSender : Machine VirtualSender VirtualLabel where
  step := VirtualSender.step

end Warpinator
