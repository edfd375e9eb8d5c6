import Warpinator.Transfers.Receiver

/-! # Confinement of Received Files

    Which paths a stream of chunks can make the receiver create.  The target of
    a chunk is the destination joined with the sanitized relative path;
    `process_chunk` is meant to refuse a target outside the destination.

    Its test is component-wise and does not resolve `..`.  A relative path
    always passes it (`refusesPath_relative`), and so does an absolute path
    without `..`.  `chunkConfined_iff` says exactly which chunks are handled as
    intended, `streamConfined_iff` lifts this to whole streams. -/

namespace Warpinator

open LexPath

/-! ## Section 1: The test of `process_chunk` -/

def FileChunk.sanitized (c : FileChunk) : String := sanitizePathComponent c.relativePath

/-- Where a chunk wants to be written. -/
def FileChunk.target (destination : PathBuf) (c : FileChunk) : PathBuf :=
  destination.join c.sanitized

/-- The target of the chunk, its dots resolved, is not the destination and not
    below it. -/
def Leaves (destination : PathBuf) (c : FileChunk) : Prop :=
  ¬ Inside destination.components (c.target destination).components

instance (destination : PathBuf) (c : FileChunk) : Decidable (Leaves destination c) := by
  unfold Leaves; infer_instance

/-- No relative path is refused, however many `..` it has: joining keeps the
    components of the destination in front. -/
theorem refusesPath_relative {destination : PathBuf} {s : String}
    (hrel : PathBuf.isAbsolute (OsString.ofString s) = false) :
    refusesPath destination s = false := by
  have hpre : (destination.join s).startsWith destination = true := by
    show (components unix destination).isPrefixOf
      (components unix (join unix destination (OsString.ofString s))) = true
    rw [List.isPrefixOf_iff_prefix]
    by_cases hd : destination = []
    · subst hd
      exact List.nil_prefix
    · rw [components_join unix hd hrel]
      exact List.prefix_append _ _
  simp [refusesPath, hpre]

/-! ## Section 2: The calls of one chunk -/

/-- The calls made between two states. -/
def newCalls (before after : Receiver) : List FsCall :=
  after.disk.calls.drop before.disk.calls.length

theorem newCalls_of_append {before after : Receiver} {new : List FsCall}
    (h : after.disk.calls = before.disk.calls ++ new) : newCalls before after = new := by
  simp [newCalls, h]

/-- The error a call returns, if it returns one. -/
def Outcome.error? {σ : Type} : Outcome σ → Option TransferError
  | .err e _ => some e
  | _ => none

/-- The calls that open a target. -/
def openCalls (target : PathBuf) : FileType → List FsCall
  | .directory => [.createDirAll target.components]
  | _ =>
    match parent target.components with
    | some p => [.createDirAll p, .createFile target.components]
    | none => [.createFile target.components]

theorem createParent_calls (ans : IoAnswers) (target : PathBuf) (d : Disk) :
    (createParent ans target d).calls ++ [.createFile target.components]
      = d.calls ++ openCalls target .file := by
  cases hp : parent target.components <;> simp [createParent, openCalls, hp]

theorem openTarget_calls (ans : IoAnswers) (c : FileChunk) (target : PathBuf) (r : Receiver) :
    (openTarget ans c target r).state.disk.calls = r.disk.calls ++ openCalls target c.kind := by
  unfold openTarget
  split
  · next hdir => simp [Outcome.state, openCalls, hdir]
  · next hdir =>
    have hcalls := createParent_calls ans target r.disk
    have hkind : openCalls target c.kind = openCalls target .file := by
      cases hk : c.kind with
      | directory => exact absurd hk hdir
      | file => rfl
      | symlink => rfl
    have hcreate := createFile_calls ans.createFile target.components
      (createParent ans target r.disk)
    rw [hcalls, ← hkind] at hcreate
    split
    · next heq => rw [heq] at hcreate; exact hcreate
    · next heq =>
      rw [heq] at hcreate
      rw [writeChunk_calls]
      exact hcreate

theorem error?_ne_unsafePath {o : Outcome Receiver}
    (h : ∀ e r', o = .err e r' → ∃ k, e = .ofIoErrorKind k) : o.error? ≠ some .unsafePath := by
  cases o with
  | err e r =>
    obtain ⟨k, rfl⟩ := h e r rfl
    simp [Outcome.error?, ofIoErrorKind_ne_unsafePath]
  | _ => simp [Outcome.error?]

theorem writeChunk_error (ans : IoAnswers) (data : List UInt8) (r : Receiver) :
    (writeChunk ans data r).error? ≠ some .unsafePath :=
  error?_ne_unsafePath fun _ _ => writeChunk_err

theorem openTarget_error (ans : IoAnswers) (c : FileChunk) (target : PathBuf) (r : Receiver) :
    (openTarget ans c target r).error? ≠ some .unsafePath :=
  error?_ne_unsafePath fun _ _ => openTarget_err

/-! ## Section 3: One chunk -/

/-- What a chunk must keep: it creates nothing outside the destination, and if
    its target leaves the destination it is refused and creates nothing. -/
def ChunkConfined (checks : Bool) (destination : PathBuf) (ans : IoAnswers) (c : FileChunk)
    (r : Receiver) : Prop :=
  let out := processChunk checks destination ans c r
  (∀ call ∈ newCalls r out.state, Inside destination.components call.path) ∧
    (Leaves destination c → out.error? = some .unsafePath ∧ newCalls r out.state = [])

/-- Finalizing the current file panics (on a file time that overflows). -/
def finalizePanics (checks : Bool) (r : Receiver) : Bool :=
  match r.state.currentFile, r.state.currentFileMtime with
  | some _, some time => (time.systemTime checks).isNone
  | _, _ => false

/-- The chunk opens a regular file. -/
def opensFile (checks : Bool) (destination : PathBuf) (c : FileChunk) (r : Receiver) : Prop :=
  c.kind = .file ∧ refusesPath destination c.sanitized = false ∧
    r.state.currentPath ≠ some c.sanitized ∧ finalizePanics checks r = false

/-- The chunks that are handled as intended: those that leave the destination
    by a path the test does refuse, and those that stay, together with the
    parent directory of a file they open. -/
def ChunkSafe (checks : Bool) (destination : PathBuf) (c : FileChunk) (r : Receiver) : Prop :=
  if Leaves destination c then c.kind ≠ .symlink ∧ refusesPath destination c.sanitized = true
  else opensFile checks destination c r →
    ∀ p, parent (c.target destination).components = some p → Inside destination.components p

theorem finalize_of_panics {checks : Bool} {r : Receiver} (fault : Option IoErrorKind)
    (h : finalizePanics checks r = true) : finalizeCurrentFile checks fault r = .panic r := by
  unfold finalizePanics at h
  unfold finalizeCurrentFile
  split at h
  · next file time hf ht =>
    have hnone : time.systemTime checks = none := by simpa using h
    simp [hf, ht, hnone]
  · cases h

theorem finalize_of_not_panics {checks : Bool} {r : Receiver} (fault : Option IoErrorKind)
    (h : finalizePanics checks r = false) :
    ∃ r', finalizeCurrentFile checks fault r = .ok r' ∧ r'.disk.calls = r.disk.calls := by
  have hcalls := finalizeCurrentFile_calls checks fault r
  cases hout : finalizeCurrentFile checks fault r with
  | ok r' => exact ⟨r', rfl, by rw [hout] at hcalls; exact hcalls⟩
  | err e r' => exact absurd hout (finalizeCurrentFile_ne_err checks fault r e r')
  | panic r' =>
    exfalso
    unfold finalizePanics at h
    unfold finalizeCurrentFile at hout
    cases hf : r.state.currentFile with
    | none => simp [hf] at hout
    | some file =>
      cases ht : r.state.currentFileMtime with
      | none => simp [hf, ht] at hout
      | some time =>
        cases hs : time.systemTime checks with
        | none => simp [hf, ht, hs] at h
        | some t => simp [hf, ht, hs] at hout

/-- A chunk that neither fails with `UnsafePath` nor creates anything is handled
    as intended exactly when it stays. -/
theorem confined_of_no_calls {checks : Bool} {destination : PathBuf} {ans : IoAnswers}
    {c : FileChunk} {r : Receiver}
    (hcalls : (processChunk checks destination ans c r).state.disk.calls = r.disk.calls)
    (herr : (processChunk checks destination ans c r).error? ≠ some .unsafePath) :
    ChunkConfined checks destination ans c r ↔ ¬ Leaves destination c := by
  have hnew : newCalls r (processChunk checks destination ans c r).state = [] :=
    newCalls_of_append (by simpa using hcalls)
  unfold ChunkConfined
  dsimp only
  rw [hnew]
  constructor
  · intro h hl
    exact herr (h.2 hl).1
  · intro h
    exact ⟨by simp, fun hl => absurd hl h⟩

theorem chunkConfined_iff (checks : Bool) (destination : PathBuf) (ans : IoAnswers)
    (c : FileChunk) (r : Receiver) :
    ChunkConfined checks destination ans c r ↔ ChunkSafe checks destination c r := by
  by_cases hsym : c.kind = .symlink
  · -- symlink chunks are skipped
    have hout : processChunk checks destination ans c r = .ok r := by
      simp [processChunk, hsym]
    rw [confined_of_no_calls (by rw [hout]; rfl) (by rw [hout]; simp [Outcome.error?])]
    by_cases hl : Leaves destination c <;> simp [ChunkSafe, opensFile, hl, hsym]
  by_cases href : refusesPath destination c.sanitized = true
  · -- the test refuses the path
    have hout : processChunk checks destination ans c r = .err .unsafePath r := by
      have href' : refusesPath destination (sanitizePathComponent c.relativePath) = true := href
      simp [processChunk, hsym, href']
    have hnew : newCalls r (processChunk checks destination ans c r).state = [] := by
      rw [hout]; exact newCalls_of_append (by simp [Outcome.state])
    have hconf : ChunkConfined checks destination ans c r := by
      refine ⟨by simp [hnew], fun _ => ⟨by rw [hout]; rfl, hnew⟩⟩
    by_cases hl : Leaves destination c <;> simp [ChunkSafe, opensFile, hl, hsym, href, hconf]
  have href' : refusesPath destination (sanitizePathComponent c.relativePath) = false := by
    simpa [FileChunk.sanitized] using href
  by_cases hcur : r.state.currentPath = some c.sanitized
  · -- the chunk continues the current file
    have hcur' : r.state.currentPath = some (sanitizePathComponent c.relativePath) := hcur
    have hout : processChunk checks destination ans c r = writeChunk ans c.chunk r := by
      simp [processChunk, hsym, href', hcur']
    rw [confined_of_no_calls (by rw [hout]; exact writeChunk_calls _ _ _)
      (by rw [hout]; exact writeChunk_error _ _ _)]
    by_cases hl : Leaves destination c <;> simp [ChunkSafe, opensFile, hl, hcur, href]
  have hcur' : ¬ r.state.currentPath = some (sanitizePathComponent c.relativePath) := hcur
  cases hpan : finalizePanics checks r with
  | true =>
    have hout : processChunk checks destination ans c r = .panic r := by
      simp [processChunk, hsym, href', hcur', finalize_of_panics ans.finalize hpan, Outcome.bind]
    rw [confined_of_no_calls (by rw [hout]; rfl) (by rw [hout]; simp [Outcome.error?])]
    by_cases hl : Leaves destination c <;> simp [ChunkSafe, opensFile, hl, hpan, href]
  | false =>
    -- a new path is opened
    obtain ⟨r', hfin, hfc⟩ := finalize_of_not_panics ans.finalize hpan
    set r'' : Receiver := { r' with state := { r'.state with
      currentPath := some c.sanitized, currentFileMtime := c.time } } with hr''
    have hout : processChunk checks destination ans c r
        = openTarget ans c (c.target destination) r'' := by
      simp [processChunk, hsym, href', hcur', hfin, Outcome.bind, hr'', FileChunk.target,
        FileChunk.sanitized]
    have hnew : newCalls r (processChunk checks destination ans c r).state
        = openCalls (c.target destination) c.kind := by
      apply newCalls_of_append
      rw [hout, openTarget_calls]
      show r'.disk.calls ++ _ = _
      rw [hfc]
    have herr : (processChunk checks destination ans c r).error? ≠ some .unsafePath := by
      rw [hout]; exact openTarget_error _ _ _ _
    unfold ChunkConfined
    dsimp only
    rw [hnew]
    by_cases hl : Leaves destination c
    · have hsafe : ¬ ChunkSafe checks destination c r := by simp [ChunkSafe, hl, href]
      exact ⟨fun h => absurd (h.2 hl).1 herr, fun h => absurd h hsafe⟩
    · have hin : Inside destination.components (c.target destination).components := by
        simpa [Leaves] using hl
      cases hk : c.kind with
      | symlink => exact absurd hk hsym
      | directory => simp [ChunkSafe, opensFile, openCalls, FsCall.path, hl, hk, hin]
      | file =>
        have hopen : opensFile checks destination c r :=
          ⟨hk, by simpa using href, hcur, hpan⟩
        cases hp : parent (c.target destination).components with
        | none => simp [ChunkSafe, openCalls, FsCall.path, hl, hin, hp]
        | some p => simp [ChunkSafe, openCalls, FsCall.path, hl, hin, hp, hopen]

/-! ## Section 4: Streams -/

/-- Every chunk of the stream that is processed satisfies `P` in the state it
    finds. -/
def EachChunk (checks : Bool) (destination : PathBuf)
    (P : IoAnswers → FileChunk → Receiver → Prop) : ChunkStream → Receiver → Prop
  | [], _ => True
  | (ans, c) :: rest, r =>
    P ans c r ∧ ∀ r', processChunk checks destination ans c r = .ok r' →
      EachChunk checks destination P rest r'

theorem EachChunk.congr {checks : Bool} {destination : PathBuf}
    {P Q : IoAnswers → FileChunk → Receiver → Prop} (h : ∀ a c r, P a c r ↔ Q a c r)
    (cs : ChunkStream) (r : Receiver) :
    EachChunk checks destination P cs r ↔ EachChunk checks destination Q cs r := by
  induction cs generalizing r with
  | nil => exact Iff.rfl
  | cons ac rest ih =>
    obtain ⟨a, c⟩ := ac
    simp only [EachChunk, h, ih]

/-- Every chunk of the stream is handled as intended. -/
def StreamConfined (checks : Bool) (destination : PathBuf) (cs : ChunkStream) (r : Receiver) :
    Prop :=
  EachChunk checks destination (ChunkConfined checks destination) cs r

/-- Every chunk of the stream is one of the safe ones in the state it finds. -/
def StreamSafe (checks : Bool) (destination : PathBuf) (cs : ChunkStream) (r : Receiver) :
    Prop :=
  EachChunk checks destination (fun _ c r => ChunkSafe checks destination c r) cs r

/-- A stream is confined to the destination exactly when its chunks are safe. -/
theorem streamConfined_iff (checks : Bool) (destination : PathBuf) (cs : ChunkStream)
    (r : Receiver) :
    StreamConfined checks destination cs r ↔ StreamSafe checks destination cs r :=
  EachChunk.congr (fun ans c r => chunkConfined_iff checks destination ans c r) cs r

/-- A file chunk as a peer may send it. -/
def fileChunk (path : String) (data : List UInt8) : FileChunk where
  relativePath := path
  fileType := FileType.file.toInt
  symlinkTarget := ""
  chunk := data
  fileMode := 0o644
  time := none

/-- `../evil` is created next to the destination `/d`. -/
theorem not_streamConfined_dotdot :
    ¬ StreamConfined false (OsString.ofString "/d") [(.good 0, fileChunk "../evil" [1])]
      (.start fun l => if l.length ≤ 2 then some .dir else none) := by
  intro h
  have hcalls := h.1.1 (.createFile (PathBuf.components (OsString.ofString "/d/../evil")))
  revert hcalls
  decide

end Warpinator
