import Warpinator.Transfers.Confinement
import Warpinator.Transfers.Trees
import Warpinator.Transfers.VirtualSender

/-! # The Receiving Task over a Virtual File System

    `process_chunk` of the `virtual_filesystem` build.  Its path check is one
    on substrings, where the other build compares components.

    `finalize_current_file` and `write_chunk` are the same functions in both
    builds.  The host's file system decides which file a descriptor refers to
    and what its tree looks like after a call, so both are answers. -/

namespace Warpinator

open LexPath

/-! ## Section 1: Functions -/

/-- A call of the virtual file system. -/
inductive VfsCall where
  | createDir (path folder : String)
  | createFile (path file : String)
  deriving DecidableEq

structure VirtualReceiver where
  /-- What both builds keep, with the files that descriptors refer to. -/
  receiver : Receiver
  /-- The calls made so far, oldest first. -/
  vfsCalls : List VfsCall

/-- What the surroundings answer while one chunk is processed. -/
structure VfsAnswers where
  /-- The answers to the operations on open files. -/
  io : IoAnswers
  createDir : Except VirtualFilesystemError String
  /-- `create_file`, with the file that the descriptor refers to. -/
  createFile : Except VirtualFilesystemError Path
  /-- The tree after the call. -/
  node : Path → Option Node

def VirtualReceiver.called (ans : VfsAnswers) (call : VfsCall) (v : VirtualReceiver) :
    VirtualReceiver where
  receiver := { v.receiver with disk := { v.receiver.disk with node := ans.node } }
  vfsCalls := v.vfsCalls ++ [call]

def Outcome.map {σ τ : Type} (f : σ → τ) : Outcome σ → Outcome τ
  | .ok s => .ok (f s)
  | .err e s => .err e (f s)
  | .panic s => .panic (f s)

/-- Run a function of both builds. -/
def VirtualReceiver.lift (v : VirtualReceiver) (o : Outcome Receiver) : Outcome VirtualReceiver :=
  o.map fun r => { v with receiver := r }

/-- The branch of `process_chunk` for a path other than the current one, after
    the current file has been finalized. -/
def openVirtual (destination : PathBuf) (ans : VfsAnswers) (chunk : FileChunk)
    (sanitized : String) (v : VirtualReceiver) : Outcome VirtualReceiver :=
  match destination.toStr with
  | none => .err .unsafePath v
  | some path =>
    if chunk.kind = .directory then
      let v := v.called ans (.createDir path sanitized)
      match ans.createDir with
      | .error e => .err (.virtualFilesystemError e) v
      | .ok _ => .ok v
    else
      let v := v.called ans (.createFile path sanitized)
      match ans.createFile with
      | .error e => .err (.virtualFilesystemError e) v
      | .ok location =>
        let r := v.receiver
        v.lift (writeChunk ans.io chunk.chunk
          { r with state := { r.state with
              currentFile := some { location := location, pending := none } } })

/-- `process_chunk` of the `virtual_filesystem` build. -/
def virtualProcessChunk (checks : Bool) (destination : PathBuf) (ans : VfsAnswers)
    (chunk : FileChunk) (v : VirtualReceiver) : Outcome VirtualReceiver :=
  if chunk.kind = .symlink then .ok v
  else
    let sanitized := sanitizePathComponent chunk.relativePath
    if containsDotDot sanitized then .err .unsafePath v
    else if v.receiver.state.currentPath = some sanitized then
      v.lift (writeChunk ans.io chunk.chunk v.receiver)
    else
      (v.lift (finalizeCurrentFile checks ans.io.finalize v.receiver)).bind fun v =>
        openVirtual destination ans chunk sanitized
          { v with receiver := { v.receiver with state := { v.receiver.state with
              currentPath := some sanitized, currentFileMtime := chunk.time } } }

/-! ## Section 2: What a call can fail with -/

@[simp] theorem lift_error (v : VirtualReceiver) (o : Outcome Receiver) :
    (v.lift o).error? = o.error? := by
  cases o <;> rfl

theorem finalizeCurrentFile_error (checks : Bool) (fault : Option IoErrorKind) (r : Receiver) :
    (finalizeCurrentFile checks fault r).error? = none := by
  cases hfin : finalizeCurrentFile checks fault r with
  | err e r' => exact absurd hfin (finalizeCurrentFile_ne_err checks fault r e r')
  | _ => rfl

/-- A destination that is valid UTF-8 is opened without `UnsafePath`. -/
theorem openVirtual_error {destination : PathBuf} (hutf8 : destination.toStr.isSome = true)
    (ans : VfsAnswers) (c : FileChunk) (sanitized : String) (v : VirtualReceiver) :
    (openVirtual destination ans c sanitized v).error? ≠ some .unsafePath := by
  obtain ⟨path, hpath⟩ := Option.isSome_iff_exists.mp hutf8
  unfold openVirtual
  rw [hpath]
  dsimp only
  split
  · split <;> simp [Outcome.error?]
  · split
    · simp [Outcome.error?]
    · rw [lift_error]
      exact writeChunk_error _ _ _

/-- Past its path check, `process_chunk` does not fail with `UnsafePath`. -/
theorem virtualProcessChunk_error {destination : PathBuf}
    (hutf8 : destination.toStr.isSome = true) (checks : Bool) (ans : VfsAnswers) {c : FileChunk}
    (v : VirtualReceiver) (hpass : containsDotDot (sanitizePathComponent c.relativePath) = false) :
    (virtualProcessChunk checks destination ans c v).error? ≠ some .unsafePath := by
  unfold virtualProcessChunk
  dsimp only
  rw [hpass]
  split
  · simp [Outcome.error?]
  · rw [if_neg Bool.false_ne_true]
    split
    · rw [lift_error]
      exact writeChunk_error _ _ _
    · have hfin := finalizeCurrentFile_error checks ans.io.finalize v.receiver
      cases hout : finalizeCurrentFile checks ans.io.finalize v.receiver with
      | ok r => exact openVirtual_error hutf8 ans c _ _
      | err e r => rw [hout] at hfin; cases hfin
      | panic r => simp [VirtualReceiver.lift, Outcome.map, Outcome.bind, Outcome.error?]

/-- Past its path check, neither does the other build's. -/
theorem processChunk_error {checks : Bool} {destination : PathBuf} {ans : IoAnswers}
    {c : FileChunk} {r : Receiver}
    (hpass : refusesPath destination (sanitizePathComponent c.relativePath) = false) :
    (processChunk checks destination ans c r).error? ≠ some .unsafePath := by
  unfold processChunk
  dsimp only
  rw [hpass]
  split
  · simp [Outcome.error?]
  · rw [if_neg Bool.false_ne_true]
    split
    · exact writeChunk_error _ _ _
    · have hfin := finalizeCurrentFile_error checks ans.finalize r
      cases hout : finalizeCurrentFile checks ans.finalize r with
      | ok r => exact openTarget_error ans c _ _
      | err e r => rw [hout] at hfin; cases hfin
      | panic r => simp [Outcome.bind, Outcome.error?]

/-! ## Section 3: Honest paths -/

/-- A relative path whose components are all file names. -/
def HonestPath (s : String) : Prop :=
  ∀ name ∈ s.toList.splitOn '/', name ≠ [] ∧ name ≠ ['.'] ∧ name ≠ ['.', '.']

instance (s : String) : Decidable (HonestPath s) := by
  unfold HonestPath; infer_instance

theorem isPrefixOf_map_sanitizeChar (t : List Char) :
    ['.', '.'].isPrefixOf (t.map sanitizeChar) = ['.', '.'].isPrefixOf t := by
  have hdot : ∀ c, ('.' == sanitizeChar c) = ('.' == c) := by
    intro c
    have h := sanitizeChar_eq_iff (d := '.') (by decide) (by decide) c
    rw [Bool.eq_iff_iff, beq_iff_eq, beq_iff_eq, eq_comm, h, eq_comm]
  match t with
  | [] => rfl
  | [a] => simp [List.isPrefixOf]
  | a :: b :: _ => simp [List.isPrefixOf, hdot]

/-- Sanitizing neither makes nor breaks a pair of dots. -/
theorem containsDotDot_sanitize (s : String) :
    containsDotDot (sanitizePathComponent s) = containsDotDot s := by
  unfold containsDotDot sanitizePathComponent
  rw [String.toList_ofList, List.map_tails, List.any_map]
  congr 1
  funext t
  exact isPrefixOf_map_sanitizeChar t

/-- An honest path stays relative when it is sanitized. -/
theorem HonestPath.isAbsolute {s : String} (hs : HonestPath s) :
    PathBuf.isAbsolute (OsString.ofString (sanitizePathComponent s)) = false := by
  cases hl : s.toList with
  | nil =>
    have h := (hs [] (by simp [hl])).1
    exact absurd rfl h
  | cons c rest =>
    have hc : c ≠ '/' := by
      intro hc
      -- a leading separator leaves an empty component in front of it
      have h := (hs [] (by simp [hl, hc, List.splitOn_cons_eq_if_modifyHead])).1
      exact absurd rfl h
    have hsan : sanitizeChar c ≠ '/' := by
      rw [ne_eq, sanitizeChar_eq_iff (by decide) (by decide)]
      exact hc
    simp [PathBuf.isAbsolute, LexPath.hasRoot, OsString.ofString, sanitizePathComponent, hl, unix,
      hsan]

/-- Neither build answers the chunk with `UnsafePath`. -/
def NotRefused (checks : Bool) (destination virtualDestination : PathBuf) (ans : IoAnswers)
    (vfs : VfsAnswers) (c : FileChunk) (r : Receiver) (v : VirtualReceiver) : Prop :=
  (processChunk checks destination ans c r).error? ≠ some .unsafePath ∧
    (virtualProcessChunk checks virtualDestination vfs c v).error? ≠ some .unsafePath

/-- On the real file system every honest path is accepted. -/
theorem processChunk_honest (checks : Bool) (destination : PathBuf) (ans : IoAnswers)
    {c : FileChunk} (hpath : HonestPath c.relativePath) (r : Receiver) :
    (processChunk checks destination ans c r).error? ≠ some .unsafePath :=
  processChunk_error (refusesPath_relative hpath.isAbsolute)

/-- An honest path is accepted by both builds exactly when no component of it
    contains two dots in a row, or it is a link's and not looked at. -/
theorem notRefused_iff (checks : Bool) (destination : PathBuf) {virtualDestination : PathBuf}
    (hutf8 : virtualDestination.toStr.isSome = true) (ans : IoAnswers) (vfs : VfsAnswers)
    {c : FileChunk} (hpath : HonestPath c.relativePath) (r : Receiver) (v : VirtualReceiver) :
    NotRefused checks destination virtualDestination ans vfs c r v ↔
      c.kind = .symlink ∨ containsDotDot c.relativePath = false := by
  have hreal := processChunk_honest checks destination ans hpath r
  constructor
  · rintro ⟨-, hvirtual⟩
    by_contra hcon
    push Not at hcon
    obtain ⟨hsym, hdots⟩ := hcon
    apply hvirtual
    have hsan : containsDotDot (sanitizePathComponent c.relativePath) = true := by
      rw [containsDotDot_sanitize]
      simpa using hdots
    simp [virtualProcessChunk, hsym, hsan, Outcome.error?]
  · rintro (hsym | hdots)
    · refine ⟨hreal, ?_⟩
      simp [virtualProcessChunk, hsym, Outcome.error?]
    · refine ⟨hreal, virtualProcessChunk_error hutf8 checks vfs v ?_⟩
      rw [containsDotDot_sanitize]
      exact hdots

/-- Nothing fails, and the descriptor refers to a new file `f`. -/
def goodVfs : VfsAnswers where
  io := .good 0
  createDir := .ok ""
  createFile := .ok [.normal [.char 'f']]
  node := fun l => if l = [.normal [.char 'f']] then some (.file ⟨[], none⟩) else none

/-- `a.b` is accepted. -/
theorem notRefused_dot : NotRefused false (OsString.ofString "/d") (OsString.ofString "/d")
    (.good 0) goodVfs (fileChunk "a.b" [1]) (.start fun _ => none)
    { receiver := .start fun _ => none, vfsCalls := [] } :=
  (notRefused_iff false (OsString.ofString "/d") (by decide) (.good 0) goodVfs (by decide) _ _).mpr
    (.inr (by decide))

/-- `a..b` is a file name that the virtual build refuses. -/
theorem not_notRefused_dots : HonestPath "a..b" ∧
    ¬ NotRefused false (OsString.ofString "/d") (OsString.ofString "/d") (.good 0) goodVfs
      (fileChunk "a..b" [1]) (.start fun _ => none)
      { receiver := .start fun _ => none, vfsCalls := [] } := by
  refine ⟨by decide, fun h => h.2 ?_⟩
  rfl

end Warpinator
