import Warpinator.Transfers.Confinement
import Warpinator.Transfers.Emission

/-! # Reassembly

    What the receiver makes of the chunks of a list of items, on a file system
    that does not fail.  `Holds` describes the destination by the files written
    and the directories made so far; each operation of the disk keeps it.

    Between two items the last file may still be open with its time pending.
    `Rests` therefore describes the receiver by what finalizing leaves, which is
    the same whether another item follows or the stream ends. -/

namespace Warpinator

open LexPath

/-! ## Section 1: The destination -/

/-- The files written and the directories made, by their paths below `base`. -/
structure Holds (base : Path) (written : List (Path × FileData)) (made : List Path)
    (d : Disk) : Prop where
  above : ∀ l, l <+: base → d.node l = some .dir
  files : ∀ e ∈ written, d.node (base ++ e.1) = some (.file e.2)
  only : ∀ l data, base <+: l → d.node l = some (.file data) →
    ∃ e ∈ written, l = base ++ e.1
  dirs : ∀ l, base <+: l → d.node l = some .dir → l = base ∨ ∃ q ∈ made, l <+: base ++ q

variable {base : Path} {written : List (Path × FileData)} {made : List Path} {d : Disk}

theorem Holds.withCalls (h : Holds base written made d) (calls : List FsCall) :
    Holds base written made { d with calls := calls } :=
  ⟨h.above, h.files, h.only, h.dirs⟩

/-- No file is in the way of a path that no file written is a prefix of. -/
theorem Holds.not_file (h : Holds base written made d) {p l : Path}
    (hclear : ∀ e ∈ written, ¬ e.1 <+: p) (hl : l <+: base ++ p) (data : FileData) :
    d.node l ≠ some (.file data) := by
  intro hfile
  rcases List.prefix_or_prefix_of_prefix hl (List.prefix_append base p) with hab | hbe
  · rw [h.above l hab] at hfile
    cases hfile
  · obtain ⟨e, he, rfl⟩ := h.only l data hbe hfile
    exact hclear e he ((List.prefix_append_right_inj base).1 hl)

theorem Holds.createDirAll (h : Holds base written made d) {path p : Path}
    (hpath : resolve path = base ++ p) (hclear : ∀ e ∈ written, ¬ e.1 <+: p) :
    Holds base written (p :: made) (d.createDirAll none path).2 ∧
      ∀ l, l <+: base ++ p → (d.createDirAll none path).2.node l = some .dir := by
  have hany : (base ++ p).inits.any d.isFile = false := by
    rw [List.any_eq_false]
    intro l hl hfile
    unfold Disk.isFile at hfile
    split at hfile
    · next data hnode => exact h.not_file hclear ((List.mem_inits _ _).1 hl) data hnode
    · cases hfile
  have hnode : ∀ l, (d.createDirAll none path).2.node l
      = if d.node l = none ∧ l <+: base ++ p then some .dir else d.node l := by
    intro l
    simp only [Disk.createDirAll, hpath, hany, Bool.false_eq_true, if_false]
  have hsame : ∀ l, d.node l ≠ none → (d.createDirAll none path).2.node l = d.node l := by
    intro l hl
    rw [hnode, if_neg fun hc => hl hc.1]
  refine ⟨⟨fun l hl => ?_, fun e he => ?_, fun l data hl hfile => ?_, fun l hb hl => ?_⟩,
    fun l hl => ?_⟩
  · rw [hsame l (by rw [h.above l hl]; simp)]
    exact h.above l hl
  · rw [hsame _ (by rw [h.files e he]; simp)]
    exact h.files e he
  · rw [hnode] at hfile
    split at hfile
    · cases hfile
    · exact h.only l data hl hfile
  · rw [hnode] at hl
    split at hl
    · next hc => exact .inr ⟨p, List.mem_cons_self, hc.2⟩
    · rcases h.dirs l hb hl with heq | ⟨q, hq, hpre⟩
      · exact .inl heq
      · exact .inr ⟨q, List.mem_cons_of_mem _ hq, hpre⟩
  · rw [hnode]
    split
    · rfl
    · next hc =>
      cases hn : d.node l with
      | none => exact absurd ⟨hn, hl⟩ hc
      | some n =>
        cases n with
        | dir => rfl
        | file data => exact absurd hn (h.not_file hclear hl data)

/-- The files at other paths. -/
def others (p : Path) (written : List (Path × FileData)) : List (Path × FileData) :=
  written.filter fun e => e.1 ≠ p

theorem mem_others {p : Path} {e : Path × FileData} :
    e ∈ others p written ↔ e ∈ written ∧ e.1 ≠ p := by
  simp [others]

theorem others_eq {p : Path} (h : ∀ e ∈ written, e.1 ≠ p) : others p written = written :=
  List.filter_eq_self.2 fun e he => decide_eq_true (h e he)

/-- A file set at a path.  What was written there before is gone. -/
theorem Holds.setFile (h : Holds base written made d) {p : Path} (data : FileData)
    (hfree : d.node (base ++ p) ≠ some .dir) :
    Holds base ((p, data) :: others p written) made (d.setNode (base ++ p) (.file data)) := by
  have hself := setNode_self d (base ++ p) (.file data)
  refine ⟨fun l hl => ?_, fun e he => ?_, fun l data' hl hfile => ?_, fun l hb hl => ?_⟩
  · rw [setNode_ne _ _ fun heq => ?_]
    · exact h.above l hl
    · subst heq
      exact hfree (h.above _ hl)
  · rcases List.mem_cons.1 he with rfl | he
    · exact hself
    · obtain ⟨he, hne⟩ := mem_others.1 he
      rw [setNode_ne _ _ fun heq => hne (List.append_cancel_left heq)]
      exact h.files e he
  · by_cases heq : l = base ++ p
    · exact ⟨(p, data), List.mem_cons_self, heq⟩
    · rw [setNode_ne _ _ heq] at hfile
      obtain ⟨e, he, rfl⟩ := h.only l data' hl hfile
      have hother : e.1 ≠ p := fun hep => heq (by rw [hep])
      exact ⟨e, List.mem_cons_of_mem _ (mem_others.2 ⟨he, hother⟩), rfl⟩
  · by_cases heq : l = base ++ p
    · rw [heq, hself] at hl
      cases hl
    · rw [setNode_ne _ _ heq] at hl
      exact h.dirs l hb hl

/-- The last file written, set to other contents. -/
theorem Holds.resetFile {p : Path} {data data' : FileData}
    (h : Holds base ((p, data) :: written) made d) (hnew : ∀ e ∈ written, e.1 ≠ p) :
    Holds base ((p, data') :: written) made (d.setNode (base ++ p) (.file data')) := by
  have hp := h.files (p, data) List.mem_cons_self
  have hset := h.setFile data' (by rw [hp]; simp)
  have hothers : others p ((p, data) :: written) = written := by
    rw [others, List.filter_cons_of_neg (by simp)]
    exact others_eq hnew
  rwa [hothers] at hset

/-- Only what is in the lists counts. -/
theorem Holds.congr {written' : List (Path × FileData)} {made' : List Path}
    (h : Holds base written made d) (hwritten : ∀ e, e ∈ written ↔ e ∈ written')
    (hmade : ∀ q ∈ made, q ∈ made') : Holds base written' made' d where
  above := h.above
  files e he := h.files e ((hwritten e).2 he)
  only l data hl hfile := by
    obtain ⟨e, he, heq⟩ := h.only l data hl hfile
    exact ⟨e, (hwritten e).1 he, heq⟩
  dirs l hb hl := (h.dirs l hb hl).imp_right fun ⟨q, hq, hle⟩ => ⟨q, hmade q hq, hle⟩

/-! ## Section 2: Targets -/

/-- The string names a path of one or more normal components. -/
structure NamesPath (s : String) (p : Path) : Prop where
  components : PathBuf.components (OsString.ofString s) = p
  normal : ∀ c ∈ p, c.isNormal = true
  ne_nil : p ≠ []

variable {s : String} {p : Path}

theorem NamesPath.hasRoot (h : NamesPath s p) :
    PathBuf.isAbsolute (OsString.ofString s) = false := by
  cases hroot : PathBuf.isAbsolute (OsString.ofString s) with
  | false => rfl
  | true =>
    have hmem : Component.rootDir ∈ p := by
      rw [← h.components]
      have hroot' : LexPath.hasRoot unix (OsString.ofString s) = true := hroot
      simp [PathBuf.components, LexPath.components, front, hroot']
    have := h.normal _ hmem
    cases this

theorem NamesPath.body (h : NamesPath s p) : LexPath.body unix (OsString.ofString s) = p := by
  have hroot : LexPath.hasRoot unix (OsString.ofString s) = false := h.hasRoot
  have hcomp : front unix (OsString.ofString s) ++ LexPath.body unix (OsString.ofString s) = p :=
    h.components
  have hfront : front unix (OsString.ofString s) = [] := by
    cases hf : front unix (OsString.ofString s) with
    | nil => rfl
    | cons c rest =>
      have hnormal : c.isNormal = true := h.normal c (by rw [← hcomp, hf]; simp)
      simp only [front, hroot, Bool.false_eq_true, if_false] at hf
      split at hf
      · cases hf; cases hnormal
      · cases hf
  rwa [hfront, List.nil_append] at hcomp

theorem NamesPath.target (h : NamesPath s p) (destination : PathBuf) :
    (destination.join s).components = destination.components ++ p := by
  have hroot : LexPath.hasRoot unix (OsString.ofString s) = false := h.hasRoot
  by_cases hd : destination = []
  · subst hd
    have hjoin : PathBuf.join [] s = OsString.ofString s := by
      simp [PathBuf.join, LexPath.join, hroot]
    rw [hjoin, h.components]
    rfl
  · show LexPath.components unix (LexPath.join unix destination (OsString.ofString s)) = _
    rw [components_join unix hd hroot, h.body]
    rfl

theorem foldl_follow_of_normal (acc : Path) {p : Path} (h : ∀ c ∈ p, c.isNormal = true) :
    p.foldl follow acc = acc ++ p := by
  induction p generalizing acc with
  | nil => simp
  | cons c p ih =>
    have hc := h c List.mem_cons_self
    cases c with
    | normal name =>
      rw [List.foldl_cons, follow_normal, ih _ fun c hc => h c (List.mem_cons_of_mem _ hc)]
      simp
    | _ => cases hc

theorem NamesPath.resolve_target (h : NamesPath s p) (destination : PathBuf) :
    resolve (destination.join s).components = resolve destination.components ++ p := by
  rw [h.target, resolve_append, foldl_follow_of_normal _ h.normal]

theorem NamesPath.parent_target (h : NamesPath s p) (destination : PathBuf) :
    parent (destination.join s).components = some (destination.components ++ p.dropLast) ∧
      resolve (destination.components ++ p.dropLast)
        = resolve destination.components ++ p.dropLast := by
  obtain ⟨q, c, rfl⟩ : ∃ q c, p = q ++ [c] :=
    ⟨_, _, (List.dropLast_append_getLast h.ne_nil).symm⟩
  have hc := h.normal c (by simp)
  constructor
  · rw [h.target, ← List.append_assoc]
    cases c with
    | normal name => simp [parent]
    | _ => cases hc
  · rw [List.dropLast_concat, resolve_append,
      foldl_follow_of_normal _ fun c hc => h.normal c (by simp [hc])]

/-! ## Section 3: One item -/

/-- A file is open and has received `bytes`. -/
structure Opened (base p : Path) (s : String) (t : Option FileTime) (bytes : List UInt8)
    (written : List (Path × FileData)) (made : List Path) (r : Receiver) : Prop where
  path : r.state.currentPath = some s
  file : r.state.currentFile = some { location := base ++ p, pending := none }
  time : r.state.currentFileMtime = t
  holds : Holds base ((p, ⟨bytes, none⟩) :: written) made r.disk
  new : ∀ e ∈ written, e.1 ≠ p

/-- What finalizing leaves, with the path that is current before. -/
structure Rests (checks : Bool) (base : Path) (current : Option String)
    (written : List (Path × FileData)) (made : List Path) (r : Receiver) : Prop where
  path : r.state.currentPath = current
  finalized : ∃ r', finalizeCurrentFile checks none r = .ok r' ∧
    r'.state.currentFile = none ∧ Holds base written made r'.disk

variable {checks : Bool} {t : Option FileTime} {bytes : List UInt8} {r : Receiver}

theorem Opened.write (h : Opened base p s t bytes written made r) (bps : Nat)
    (data : List UInt8) :
    ∃ r', writeChunk (.good bps) data r = .ok r' ∧
      Opened base p s t (bytes ++ data) written made r' := by
  have hnode := h.holds.files (p, ⟨bytes, none⟩) List.mem_cons_self
  by_cases hdata : data = []
  · -- without data the file stays as it is
    subst hdata
    simp only [writeChunk, h.file, IoAnswers.good, Disk.writeAll, if_true, List.append_nil]
    exact ⟨_, rfl, h.path, rfl, h.time, h.holds, h.new⟩
  · simp only [writeChunk, h.file, IoAnswers.good, Disk.writeAll, if_neg hdata]
    refine ⟨_, rfl, h.path, rfl, h.time, ?_, h.new⟩
    simp only [Disk.append, hnode]
    exact h.holds.resetFile h.new

/-- The modification time that finalizing sets. -/
def stamp (checks : Bool) (t : Option FileTime) : Option SystemTime :=
  t.bind (FileTime.systemTime checks)

theorem Opened.rests (h : Opened base p s t bytes written made r)
    (htime : ∀ time, t = some time → (time.systemTime checks).isSome) :
    Rests checks base (some s) ((p, ⟨bytes, stamp checks t⟩) :: written) made r := by
  refine ⟨h.path, ?_⟩
  cases t with
  | none =>
    simp only [finalizeCurrentFile, h.file, h.time]
    exact ⟨_, rfl, rfl, h.holds⟩
  | some time =>
    obtain ⟨st, hst⟩ := Option.isSome_iff_exists.1 (htime time rfl)
    have hnode := h.holds.files (p, ⟨bytes, none⟩) List.mem_cons_self
    simp only [finalizeCurrentFile, h.file, h.time, hst]
    refine ⟨_, rfl, rfl, ?_⟩
    simp only [Disk.setTimes, hnode, stamp, Option.bind_some, hst]
    exact h.holds.resetFile h.new

/-- The test of `process_chunk` lets the path of an item pass. -/
theorem NamesPath.not_refused (h : NamesPath s p) (destination : PathBuf) :
    refusesPath destination s = false :=
  refusesPath_relative h.hasRoot

variable {destination : PathBuf} {current : Option String}

/-- The first chunk of a file opens it, and truncates a file that is there. -/
theorem processChunk_opens {rel : String} (hname : NamesPath (sanitizePathComponent rel) p)
    (hrest : Rests checks (resolve destination.components) current written made r)
    (hfiles : ∀ e ∈ written, e.1 ≠ p → ¬ e.1 <+: p) (hmadeClear : ∀ q ∈ made, ¬ p <+: q)
    (hnot : current ≠ some (sanitizePathComponent rel)) (bps : Nat) (data : List UInt8) :
    ∃ r', processChunk checks destination (.good bps) (.ofFile rel t data) r = .ok r' ∧
      Opened (resolve destination.components) p (sanitizePathComponent rel) t data
        (others p written) (p.dropLast :: made) r' := by
  obtain ⟨r₁, hfin, hfile, hholds⟩ := hrest.finalized
  obtain ⟨hparent, hresolve⟩ := hname.parent_target destination
  have hshorter : p.dropLast.length < p.length := by
    have hpos := List.length_pos_of_ne_nil hname.ne_nil
    rw [List.length_dropLast]
    omega
  have hpre : ∀ e ∈ written, ¬ e.1 <+: p.dropLast := by
    intro e he hle
    by_cases hep : e.1 = p
    · rw [hep] at hle
      have := hle.length_le
      omega
    · exact hfiles e he hep (hle.trans (List.dropLast_prefix p))
  obtain ⟨hmade, hdirs⟩ := hholds.createDirAll hresolve hpre
  set d₁ := (r₁.disk.createDirAll none (destination.components ++ p.dropLast)).2 with hd₁
  -- the target itself is free
  have hfree : d₁.node (resolve destination.components ++ p) ≠ some .dir := by
    intro hdir
    rcases hmade.dirs _ (List.prefix_append _ _) hdir with heq | ⟨q, hq, hle⟩
    · exact hname.ne_nil (List.append_right_eq_self.1 heq)
    · have hle' := (List.prefix_append_right_inj _).1 hle
      rcases List.mem_cons.1 hq with rfl | hq
      · have := hle'.length_le
        omega
      · exact hmadeClear q hq hle'
  have hparentDir : d₁.node (resolve destination.components ++ p).dropLast = some .dir := by
    rw [List.dropLast_append_of_ne_nil hname.ne_nil]
    exact hdirs _ List.prefix_rfl
  have hparentDir' : ¬ d₁.node (resolve destination.components ++ p).dropLast ≠ some .dir :=
    not_not_intro hparentDir
  have hcurrent : r.state.currentPath ≠ some (sanitizePathComponent rel) :=
    hrest.path ▸ hnot
  -- the receiver once the empty file is there
  set r₂ : Receiver :=
    { state := { r₁.state with
        currentPath := some (sanitizePathComponent rel)
        currentFile := some { location := resolve destination.components ++ p, pending := none }
        currentFileMtime := t }
      disk := ({ d₁ with calls := d₁.calls ++
        [.createFile (destination.join (sanitizePathComponent rel)).components] } : Disk).setNode
          (resolve destination.components ++ p) (.file ⟨[], none⟩)
      progress := r₁.progress } with hr₂
  have hopened : Opened (resolve destination.components) p (sanitizePathComponent rel) t []
      (others p written) (p.dropLast :: made) r₂ :=
    ⟨rfl, rfl, rfl, (hmade.withCalls _).setFile _ hfree, fun e he => (mem_others.1 he).2⟩
  obtain ⟨r₃, hwrite, hopened'⟩ := hopened.write bps data
  refine ⟨r₃, ?_, hopened'⟩
  rw [← hwrite]
  simp only [processChunk, ofFile_kind, ofFile_relativePath, ofFile_time, ofFile_chunk,
    hname.not_refused destination, hcurrent, IoAnswers.good,
    hfin, Outcome.bind, openTarget, createParent, hparent, ← hd₁, Disk.createFile,
    hname.resolve_target, hfree, hparentDir', if_false, reduceCtorEq, Bool.false_eq_true, hr₂]

/-- A later chunk of the file is appended. -/
theorem processChunk_appends {rel : String} {time : Option FileTime}
    (hname : NamesPath (sanitizePathComponent rel) p)
    (h : Opened base p (sanitizePathComponent rel) t bytes written made r) (bps : Nat)
    (data : List UInt8) :
    ∃ r', processChunk checks destination (.good bps) (.ofFile rel time data) r = .ok r' ∧
      Opened base p (sanitizePathComponent rel) t (bytes ++ data) written made r' := by
  obtain ⟨r', hwrite, hopened⟩ := h.write bps data
  refine ⟨r', ?_, hopened⟩
  simp [processChunk, hname.not_refused destination, h.path, hwrite]

/-- A directory chunk makes its directory. -/
theorem processChunk_makes {rel : String} (hname : NamesPath (sanitizePathComponent rel) p)
    (hrest : Rests checks (resolve destination.components) current written made r)
    (hfiles : ∀ e ∈ written, ¬ e.1 <+: p) (hnot : current ≠ some (sanitizePathComponent rel))
    (bps : Nat) :
    ∃ r', processChunk checks destination (.good bps) (.ofDirectory rel) r = .ok r' ∧
      r'.state.currentFile = none ∧
      Rests checks (resolve destination.components) (some (sanitizePathComponent rel)) written
        (p :: made) r' := by
  obtain ⟨r₁, hfin, hfile, hholds⟩ := hrest.finalized
  obtain ⟨hmade, _⟩ := hholds.createDirAll (hname.resolve_target destination) hfiles
  have hcurrent : r.state.currentPath ≠ some (sanitizePathComponent rel) := by
    rw [hrest.path]
    exact hnot
  generalize hd : (r₁.disk.createDirAll none
    (destination.join (sanitizePathComponent rel)).components).2 = d at hmade
  refine ⟨{ r₁ with
      state := { r₁.state with
        currentPath := some (sanitizePathComponent rel), currentFileMtime := none }
      disk := d }, ?_, hfile, rfl, ?_⟩
  · simp only [processChunk, ofDirectory_kind, ofDirectory_relativePath, ofDirectory_time,
      hname.not_refused destination, hcurrent, IoAnswers.good, hfin, Outcome.bind, openTarget,
      if_false, if_true, reduceCtorEq, Bool.false_eq_true, hd]
  · simp only [finalizeCurrentFile, hfile]
    exact ⟨_, rfl, rfl, hmade⟩

/-! ## Section 4: Streams of chunks -/

/-- No operation of the file system fails. -/
def Faultless (acs : ChunkStream) : Prop := ∀ ac ∈ acs, ∃ bps, ac.1 = .good bps

theorem processAll_cons {ans : IoAnswers} {c : FileChunk} {acs : ChunkStream} {r r' r'' : Receiver}
    (hstep : processChunk checks destination ans c r = .ok r')
    (hrun : processAll checks destination acs r' = .ok r'') :
    processAll checks destination ((ans, c) :: acs) r = .ok r'' := by
  simp only [processAll, hstep, Outcome.bind, hrun]

theorem processAll_cons_ok {ans : IoAnswers} {c : FileChunk} {acs : ChunkStream} {r r'' : Receiver}
    (h : processAll checks destination ((ans, c) :: acs) r = .ok r'') :
    ∃ r', processChunk checks destination ans c r = .ok r' ∧
      processAll checks destination acs r' = .ok r'' := by
  simp only [processAll] at h
  cases hstep : processChunk checks destination ans c r with
  | ok r' => rw [hstep] at h; exact ⟨r', rfl, h⟩
  | err e r' => rw [hstep] at h; cases h
  | panic r' => rw [hstep] at h; cases h

theorem processAll_append {acs acs' : ChunkStream} {r r' : Receiver}
    (h : processAll checks destination acs r = .ok r') :
    processAll checks destination (acs ++ acs') r = processAll checks destination acs' r' := by
  induction acs generalizing r with
  | nil => cases h; rfl
  | cons ac acs ih =>
    obtain ⟨ans, c⟩ := ac
    obtain ⟨r₁, hstep, hrest⟩ := processAll_cons_ok h
    simp only [List.cons_append, processAll, hstep, Outcome.bind]
    exact ih hrest

theorem processAll_append_ok {acs acs' : ChunkStream} {r r'' : Receiver}
    (h : processAll checks destination (acs ++ acs') r = .ok r'') :
    ∃ r', processAll checks destination acs r = .ok r' ∧
      processAll checks destination acs' r' = .ok r'' := by
  induction acs generalizing r with
  | nil => exact ⟨r, rfl, h⟩
  | cons ac acs ih =>
    obtain ⟨ans, c⟩ := ac
    obtain ⟨r₁, hstep, hrest⟩ := processAll_cons_ok h
    obtain ⟨r', hrun, hrest'⟩ := ih hrest
    exact ⟨r', processAll_cons hstep hrun, hrest'⟩

/-- The later chunks of a file. -/
theorem processAll_appends {rel : String} {time : Option FileTime} {data : List UInt8}
    {acs : ChunkStream} (hname : NamesPath (sanitizePathComponent rel) p)
    (hchunks : FileChunks rel time data (acs.map Prod.snd)) (hgood : Faultless acs)
    (h : Opened base p (sanitizePathComponent rel) t bytes written made r) :
    ∃ r', processAll checks destination acs r = .ok r' ∧
      Opened base p (sanitizePathComponent rel) t (bytes ++ data) written made r' := by
  induction acs generalizing time data bytes r with
  | nil =>
    cases hchunks with
    | eof t => exact ⟨r, rfl, by rwa [List.append_nil]⟩
  | cons ac acs ih =>
    obtain ⟨ans, c⟩ := ac
    obtain ⟨bps, rfl⟩ := hgood _ List.mem_cons_self
    cases hchunks with
    | read _ data rest cs _ hrest =>
      have happend : ∃ r₁, processChunk checks destination (.good bps) (.ofFile rel time data) r
          = .ok r₁ ∧ _ := processChunk_appends hname h bps data
      obtain ⟨r₁, hstep, hopened⟩ := happend
      obtain ⟨r₂, hrun, hopened'⟩ :=
        ih hrest (fun ac hac => hgood ac (List.mem_cons_of_mem _ hac)) hopened
      exact ⟨r₂, processAll_cons hstep hrun, by rwa [List.append_assoc] at hopened'⟩

/-- All chunks of a file. -/
theorem processAll_file (rel : String) {data : List UInt8} {acs : ChunkStream}
    (hname : NamesPath (sanitizePathComponent rel) p)
    (hchunks : FileChunks rel t data (acs.map Prod.snd)) (hgood : Faultless acs)
    (hne : data ≠ [])
    (hrest : Rests checks (resolve destination.components) current written made r)
    (hfiles : ∀ e ∈ written, e.1 ≠ p → ¬ e.1 <+: p) (hmadeClear : ∀ q ∈ made, ¬ p <+: q)
    (hnot : current ≠ some (sanitizePathComponent rel)) :
    ∃ r', processAll checks destination acs r = .ok r' ∧
      Opened (resolve destination.components) p (sanitizePathComponent rel) t data
        (others p written) (p.dropLast :: made) r' := by
  cases acs with
  | nil =>
    cases hchunks with
    | eof t => exact absurd rfl hne
  | cons ac acs =>
    obtain ⟨ans, c⟩ := ac
    obtain ⟨bps, rfl⟩ := hgood _ List.mem_cons_self
    cases hchunks with
    | read _ data rest cs _ hlater =>
      obtain ⟨r₁, hstep, hopened⟩ := processChunk_opens hname hrest hfiles hmadeClear hnot bps data
      have happend : ∃ r₂, processAll checks destination acs r₁ = .ok r₂ ∧ _ :=
        processAll_appends hname hlater
          (fun ac hac => hgood ac (List.mem_cons_of_mem _ hac)) hopened
      obtain ⟨r₂, hrun, hopened'⟩ := happend
      exact ⟨r₂, processAll_cons hstep hrun, hopened'⟩

/-! ## Section 5: Lists of items -/

def Item.rel : Item → String
  | .dir rel => rel
  | .file rel _ _ => rel

def Item.sanitized (i : Item) : String := sanitizePathComponent i.rel

/-- The path that the receiver reads out of the sanitized relative path. -/
def Item.path (i : Item) : Path := PathBuf.components (OsString.ofString i.sanitized)

/-- Neither item is in the way of the other. -/
structure Apart (i j : Item) : Prop where
  ne : i.path ≠ j.path
  left : i.isFile = true → ¬ i.path <+: j.path
  right : j.isFile = true → ¬ j.path <+: i.path

/-- An item with a proper path and a time that the receiver can set. -/
structure Item.Sendable (checks : Bool) (i : Item) : Prop where
  names : NamesPath i.sanitized i.path
  time : ∀ rel time data, i = .file rel (some time) data → (time.systemTime checks).isSome

/-- The file that an item becomes; empty files have no chunk. -/
def Item.storedFile (checks : Bool) (i : Item) : Option (Path × FileData) :=
  match i with
  | .dir _ => none
  | .file _ t data => if data = [] then none else some (i.path, ⟨data, stamp checks t⟩)

/-- The directory made for an item. -/
def Item.madeDir (i : Item) : Option Path :=
  match i with
  | .dir _ => some i.path
  | .file _ _ data => if data = [] then none else some i.path.dropLast

theorem Item.storedFile_spec {i : Item} {e : Path × FileData} (h : i.storedFile checks = some e) :
    e.1 = i.path ∧ i.isFile = true := by
  cases i with
  | dir rel => cases h
  | file rel t data =>
    simp only [Item.storedFile] at h
    split at h
    · cases h
    · rw [← Option.some.inj h]
      exact ⟨rfl, rfl⟩

theorem Item.madeDir_prefix {i : Item} {q : Path} (h : i.madeDir = some q) : q <+: i.path := by
  cases i with
  | dir rel => exact Option.some.inj h ▸ List.prefix_rfl
  | file rel t data =>
    simp only [Item.madeDir] at h
    split at h
    · cases h
    · rw [← Option.some.inj h]
      exact List.dropLast_prefix _

/-- The receiver rests after the items `done`, the last one first. -/
structure RestsAfter (checks : Bool) (destination : PathBuf) (done : List Item) (r : Receiver) :
    Prop where
  rests : Rests checks (resolve destination.components) r.state.currentPath
    (done.filterMap (Item.storedFile checks)) (done.filterMap Item.madeDir) r
  current : ∀ s, r.state.currentPath = some s → ∃ i ∈ done, s = i.sanitized

theorem RestsAfter.item {i : Item} {done : List Item} {acs : ChunkStream}
    (h : RestsAfter checks destination done r) (hi : i.Sendable checks)
    (hapart : ∀ j ∈ done, Apart j i) (hchunks : ItemChunks i (acs.map Prod.snd))
    (hgood : Faultless acs) :
    ∃ r', processAll checks destination acs r = .ok r' ∧
      RestsAfter checks destination (i :: done) r' := by
  have hfiles : ∀ e ∈ done.filterMap (Item.storedFile checks), ¬ e.1 <+: i.path := by
    intro e he
    obtain ⟨j, hj, hje⟩ := List.mem_filterMap.1 he
    obtain ⟨hpath, hfile⟩ := Item.storedFile_spec hje
    rw [hpath]
    exact (hapart j hj).left hfile
  have hnot : r.state.currentPath ≠ some i.sanitized := by
    intro hcur
    obtain ⟨j, hj, hji⟩ := h.current _ hcur
    exact (hapart j hj).ne (by simp only [Item.path, hji])
  have hcurrent : ∀ r' : Receiver, r'.state.currentPath = some i.sanitized →
      ∀ s, r'.state.currentPath = some s → ∃ j ∈ i :: done, s = j.sanitized := by
    intro r' hr' s hs
    rw [hr', Option.some.injEq] at hs
    exact ⟨i, List.mem_cons_self, hs.symm⟩
  cases i with
  -- a directory is one chunk
  | dir rel =>
    obtain ⟨⟨ans, c⟩, rfl, hc⟩ := List.map_eq_singleton_iff.1 hchunks
    obtain ⟨bps, rfl⟩ := hgood _ List.mem_cons_self
    subst hc
    obtain ⟨r', hstep, _, hrest⟩ := processChunk_makes hi.names h.rests hfiles hnot bps
    refine ⟨r', processAll_cons hstep rfl, ?_, hcurrent r' hrest.path⟩
    rw [hrest.path]
    exact hrest
  | file rel t data =>
    by_cases hdata : data = []
    · subst hdata
      obtain rfl : acs = [] := List.map_eq_nil_iff.1 hchunks.of_empty
      refine ⟨r, rfl, ?_, fun s hs => ?_⟩
      · simpa [Item.storedFile, Item.madeDir] using h.rests
      · obtain ⟨j, hj, hjs⟩ := h.current s hs
        exact ⟨j, List.mem_cons_of_mem _ hj, hjs⟩
    · have hmadeClear : ∀ q ∈ done.filterMap Item.madeDir,
          ¬ (Item.file rel t data).path <+: q := by
        intro q hq hle
        obtain ⟨j, hj, hjq⟩ := List.mem_filterMap.1 hq
        exact (hapart j hj).right rfl (hle.trans (Item.madeDir_prefix hjq))
      have hnew : ∀ e ∈ done.filterMap (Item.storedFile checks),
          e.1 ≠ (Item.file rel t data).path := fun e he heq =>
        hfiles e he (heq ▸ List.prefix_rfl)
      obtain ⟨r', hrun, hopened⟩ := processAll_file rel hi.names hchunks hgood hdata h.rests
        (fun e he _ => hfiles e he) hmadeClear hnot
      rw [others_eq hnew] at hopened
      have htime : ∀ time, t = some time → (time.systemTime checks).isSome := fun time ht =>
        hi.time rel time data (by rw [ht])
      have hrest := hopened.rests htime
      refine ⟨r', hrun, ?_, hcurrent r' hrest.path⟩
      rw [hrest.path]
      simpa [Item.storedFile, Item.madeDir, hdata] using hrest

/-- The chunks of a list of items are processed item by item. -/
theorem RestsAfter.items {is done : List Item} {css : List (List FileChunk)} {acs : ChunkStream}
    (h : RestsAfter checks destination done r) (hitems : ∀ i ∈ is, i.Sendable checks)
    (hapart : is.Pairwise Apart) (hdone : ∀ j ∈ done, ∀ i ∈ is, Apart j i)
    (hchunks : List.Forall₂ ItemChunks is css) (hacs : acs.map Prod.snd = css.flatten)
    (hgood : Faultless acs) :
    ∃ r', processAll checks destination acs r = .ok r' ∧
      RestsAfter checks destination (is.reverse ++ done) r' := by
  induction hchunks generalizing acs done r with
  | nil =>
    have hnil : acs = [] := List.map_eq_nil_iff.1 hacs
    subst hnil
    exact ⟨r, rfl, h⟩
  | @cons i cs is css hi _ ih =>
    rw [List.flatten_cons] at hacs
    -- the answers of the first item, and those of the rest
    obtain ⟨acs₁, acs₂, rfl, hcs, hcss⟩ := List.map_eq_append_iff.1 hacs
    rw [List.pairwise_cons] at hapart
    obtain ⟨r₁, hrun₁, hrest₁⟩ := h.item (hitems i List.mem_cons_self)
      (fun j hj => hdone j hj i List.mem_cons_self) (hcs ▸ hi)
      fun ac hac => hgood ac (List.mem_append_left _ hac)
    obtain ⟨r₂, hrun₂, hrest₂⟩ := ih hrest₁ (fun i hi => hitems i (List.mem_cons_of_mem _ hi))
      hapart.2
      (fun j hj k hk => by
        rcases List.mem_cons.1 hj with rfl | hj
        · exact hapart.1 k hk
        · exact hdone j hj k (List.mem_cons_of_mem _ hk))
      hcss fun ac hac => hgood ac (List.mem_append_right _ hac)
    refine ⟨r₂, by rw [processAll_append hrun₁, hrun₂], ?_⟩
    rwa [List.reverse_cons, List.append_assoc]

/-- Directories down to the destination and nothing in it. -/
structure EmptyDestination (destination : PathBuf) (node : Path → Option Node) : Prop where
  above : ∀ l, l <+: resolve destination.components → node l = some .dir
  below : ∀ l, resolve destination.components <+: l → l ≠ resolve destination.components →
    node l = none

theorem restsAfter_start {node : Path → Option Node} (h : EmptyDestination destination node) :
    RestsAfter checks destination [] (.start node) := by
  refine ⟨⟨rfl, _, rfl, rfl, h.above, by simp, fun l data hl hfile => ?_, fun l hb hl => ?_⟩,
    fun s hs => by cases hs⟩
  · exfalso
    by_cases heq : l = resolve destination.components
    · have hdir : some (Node.file data) = some .dir := hfile.symm.trans (h.above l (by rw [heq]))
      cases hdir
    · have hnone : some (Node.file data) = none := hfile.symm.trans (h.below l hl heq)
      cases hnone
  · by_cases heq : l = resolve destination.components
    · exact .inl heq
    · have hnone : some Node.dir = none := hl.symm.trans (h.below l hb heq)
      cases hnone

end Warpinator
