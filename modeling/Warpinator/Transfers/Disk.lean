import Warpinator.Types.Transfer

/-! # The Receiver's Disk

    The part of the file system that the receiving task sees: a tree of nodes
    keyed by resolved location, the operations of `tokio::fs` it calls, and a
    record of the paths it passes to `create_dir_all` and `File::create`.

    Whether an operation fails beyond what the tree itself decides is answered
    from outside, call by call.  A buffered write may also report its failure
    late: `write_all` returns `Ok` and the error waits in the handle for the
    next operation on it. -/

namespace Warpinator

open LexPath

/-! ## Section 1: Nodes and handles -/

/-- A regular file.  `mtime` is `none` while the clock has set it. -/
structure FileData where
  bytes : List UInt8
  mtime : Option SystemTime
  deriving DecidableEq

inductive Node where
  | dir
  | file (data : FileData)
  deriving DecidableEq

/-- An open `tokio::fs::File`. -/
structure OpenFile where
  location : Path
  /-- A failed background write that no operation has reported yet. -/
  pending : Option IoErrorKind
  deriving DecidableEq

/-- How a write fails: at once, or at the next operation on the handle. -/
inductive Fault where
  | now (kind : IoErrorKind)
  | late (kind : IoErrorKind)
  deriving DecidableEq, Repr

inductive FsCall where
  | createDirAll (path : Path)
  | createFile (path : Path)
  deriving DecidableEq

def FsCall.path : FsCall → Path
  | .createDirAll p => p
  | .createFile p => p

structure Disk where
  node : Path → Option Node
  /-- The calls made so far, oldest first. -/
  calls : List FsCall

/-- Nothing but the directories down to the destination. -/
def emptyTree (destination : PathBuf) (l : Path) : Option Node :=
  if l <+: resolve destination.components then some .dir else none

def Disk.setNode (d : Disk) (location : Path) (n : Node) : Disk :=
  { d with node := fun l => if l = location then some n else d.node l }

@[simp] theorem setNode_self (d : Disk) (l : Path) (n : Node) :
    (d.setNode l n).node l = some n := by
  simp [Disk.setNode]

@[simp] theorem setNode_ne (d : Disk) {l l' : Path} (n : Node) (h : l' ≠ l) :
    (d.setNode l n).node l' = d.node l' := by
  simp [Disk.setNode, h]

/-! ## Section 2: Operations -/

def Disk.isFile (d : Disk) (location : Path) : Bool :=
  match d.node location with
  | some (.file _) => true
  | _ => false

/-- `tokio::fs::create_dir_all`. -/
def Disk.createDirAll (fault : Option IoErrorKind) (path : Path) (d : Disk) :
    Except IoErrorKind Unit × Disk :=
  let target := resolve path
  let logged := { d with calls := d.calls ++ [.createDirAll path] }
  match fault with
  | some e => (.error e, logged)
  | none =>
    if target.inits.any d.isFile then (.error (.other 20), logged)
    else
      (.ok (), { logged with
        node := fun l => if d.node l = none ∧ l <+: target then some .dir else d.node l })

/-- `tokio::fs::File::create`: creates the file or truncates it. -/
def Disk.createFile (fault : Option IoErrorKind) (path : Path) (d : Disk) :
    Except IoErrorKind OpenFile × Disk :=
  let target := resolve path
  let logged := { d with calls := d.calls ++ [.createFile path] }
  match fault with
  | some e => (.error e, logged)
  | none =>
    if d.node target = some .dir then (.error (.other 21), logged)
    -- below a regular file, or below nothing
    else if d.node target.dropLast ≠ some .dir then
      (.error (if target.dropLast.inits.any d.isFile then .other 20 else .notFound), logged)
    else
      (.ok { location := target, pending := none },
        logged.setNode target (.file { bytes := [], mtime := none }))

/-- Append to the file behind a handle. -/
def Disk.append (d : Disk) (location : Path) (data : List UInt8) : Disk :=
  match d.node location with
  | some (.file f) => d.setNode location (.file { bytes := f.bytes ++ data, mtime := none })
  | _ => d

/-- `write_all`, which does nothing without data.  A pending failure of an
    earlier write surfaces here. -/
def Disk.writeAll (fault : Option Fault) (file : OpenFile) (data : List UInt8) (d : Disk) :
    Except IoErrorKind OpenFile × Disk :=
  if data = [] then (.ok file, d)
  else
    match file.pending with
    | some e => (.error e, d)
    | none =>
      match fault with
      | some (.now e) => (.error e, d)
      | some (.late e) => (.ok { file with pending := some e }, d)
      | none => (.ok file, d.append file.location data)

/-- `set_times` on the file behind a handle, its result dropped. -/
def Disk.setTimes (fault : Option IoErrorKind) (file : OpenFile) (time : SystemTime) (d : Disk) :
    Disk :=
  match fault, d.node file.location with
  | none, some (.file f) => d.setNode file.location (.file { f with mtime := some time })
  | _, _ => d

@[simp] theorem createDirAll_calls (fault : Option IoErrorKind) (p : Path) (d : Disk) :
    (d.createDirAll fault p).2.calls = d.calls ++ [.createDirAll p] := by
  unfold Disk.createDirAll
  cases fault with
  | some e => rfl
  | none => dsimp only; split <;> rfl

@[simp] theorem createFile_calls (fault : Option IoErrorKind) (p : Path) (d : Disk) :
    (d.createFile fault p).2.calls = d.calls ++ [.createFile p] := by
  unfold Disk.createFile
  cases fault with
  | some e => rfl
  | none =>
    dsimp only
    split
    · rfl
    · split <;> rfl

@[simp] theorem append_calls (d : Disk) (l : Path) (data : List UInt8) :
    (d.append l data).calls = d.calls := by
  unfold Disk.append
  split <;> rfl

@[simp] theorem writeAll_calls (fault : Option Fault) (file : OpenFile) (data : List UInt8)
    (d : Disk) : (d.writeAll fault file data).2.calls = d.calls := by
  unfold Disk.writeAll
  split
  · rfl
  · split
    · rfl
    · split <;> simp

@[simp] theorem setTimes_calls (fault : Option IoErrorKind) (file : OpenFile) (t : SystemTime)
    (d : Disk) : (d.setTimes fault file t).calls = d.calls := by
  unfold Disk.setTimes
  split <;> rfl

end Warpinator
