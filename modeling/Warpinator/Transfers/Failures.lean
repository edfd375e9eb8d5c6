import Warpinator.Transfers.FileTimes
import Warpinator.Transfers.Omissions

/-! # Failures of the Receiver

    The receive loop returns the errors of `File::create` and of the writes, and
    drops those of `create_dir_all` and of the flush at the end of a file.

    A write may report its failure late, with the next operation on the file.
    If that is another write, the failure is returned after all; if it is the
    flush, nobody sees it.  `errors_reported_iff` puts this together: a failure
    is dropped only by `create_dir_all` and by the flush, and is made good only
    where the stream breaks off with an error of its own. -/

namespace Warpinator

open LexPath

/-! ## Section 1: What fails -/

/-- An operation of the receiver that has failed. -/
inductive Failure where
  | createDirAll
  | createFile
  | write
  | flush
  deriving DecidableEq

/-- A write to the current file has failed and has not been reported. -/
def Receiver.writeError (r : Receiver) : Option IoErrorKind :=
  r.state.currentFile.bind OpenFile.pending

/-- Finalizing the current file drops an error: that of a write in flight, or the
    one that the flush itself reports. -/
def Receiver.flushFails (r : Receiver) (fault : Option IoErrorKind) : Bool :=
  r.writeError.isSome ||
    (r.state.currentFile.isSome && r.state.currentFileMtime.isNone && fault.isSome)

/-- A write fails, now or later, or it reports the failure of an earlier one. -/
def writeFails (ans : IoAnswers) (file : OpenFile) (data : List UInt8) : Bool :=
  data ≠ [] && (file.pending.isSome || ans.write.isSome)

/-- A write returns an error. -/
def writeReports (ans : IoAnswers) (file : OpenFile) (data : List UInt8) : Bool :=
  data ≠ [] && (file.pending.isSome || match ans.write with
    | some (.now _) => true
    | _ => false)

/-- `File::create` for a chunk, after `create_dir_all` on the parent. -/
def fileAnswer (destination : PathBuf) (ans : IoAnswers) (c : FileChunk) (d : Disk) :
    Except IoErrorKind OpenFile :=
  ((createParent ans (c.target destination) d).createFile ans.createFile
    (c.target destination).components).1

/-- What fails while a chunk is opened. -/
def openFailures (destination : PathBuf) (ans : IoAnswers) (c : FileChunk) (d : Disk) :
    List Failure :=
  (match dirAnswer destination ans c d with
    | .ok _ => []
    | .error _ => [.createDirAll]) ++
  if c.kind = .directory then []
  else
    match fileAnswer destination ans c d with
    | .error _ => [.createFile]
    | .ok file => if writeFails ans file c.chunk then [.write] else []

/-- What fails in a round of the loop. -/
def Receiver.failures (checks : Bool) (destination : PathBuf) (fault : Option IoErrorKind)
    (r : Receiver) : StreamEvent → List Failure
  | .message ans c =>
    if c.kind = .symlink ∨ refusesPath destination c.sanitized = true then []
    else if r.state.currentPath = some c.sanitized then
      match r.state.currentFile with
      | none => []
      | some file => if writeFails ans file c.chunk then [.write] else []
    else
      (if r.flushFails ans.finalize then [.flush] else []) ++
        match finalizeCurrentFile checks ans.finalize r with
        | .ok r => openFailures destination ans c r.disk
        | _ => []
  | _ => if r.flushFails fault then [.flush] else []

/-- Opening a chunk returns an error. -/
def openReports (destination : PathBuf) (ans : IoAnswers) (c : FileChunk) (d : Disk) : Bool :=
  c.kind ≠ .directory &&
    match fileAnswer destination ans c d with
    | .error _ => true
    | .ok file => writeReports ans file c.chunk

/-- The stream breaks off in this round: an error of the connection, a path that is
    refused, a file that cannot be created or a write that returns an error. -/
def Receiver.breaksOff (checks : Bool) (destination : PathBuf) (fault : Option IoErrorKind)
    (r : Receiver) : StreamEvent → Bool
  | .message ans c =>
    c.kind ≠ .symlink &&
      if refusesPath destination c.sanitized then true
      else if r.state.currentPath = some c.sanitized then
        match r.state.currentFile with
        | none => false
        | some file => writeReports ans file c.chunk
      else
        match finalizeCurrentFile checks ans.finalize r with
        | .ok r => openReports destination ans c r.disk
        | _ => false
  | .streamError =>
    match finalizeCurrentFile checks fault r with
    | .ok _ => true
    | _ => false
  | _ => false

/-- Nobody is told of a failure of this operation. -/
def Failure.dropped : Failure → Bool
  | .createDirAll | .flush => true
  | .createFile | .write => false

/-! ## Section 2: What a round does with a failure -/

section rounds

variable {checks : Bool} {destination : PathBuf} {fault : Option IoErrorKind} {ans : IoAnswers}
  {c : FileChunk} {r r' : Receiver}

theorem writeChunk_view {file : OpenFile} (hfile : r.state.currentFile = some file)
    (ans : IoAnswers) (data : List UInt8) :
    (writeReports ans file data = true ∧ ∃ e r', writeChunk ans data r = .err e r') ∨
    (writeReports ans file data = false ∧ ∃ r', writeChunk ans data r = .ok r' ∧
      (writeFails ans file data = true → r'.writeError.isSome) ∧
      (file.pending.isSome → r'.writeError.isSome)) := by
  unfold writeReports writeFails
  simp only [writeChunk, hfile, Disk.writeAll]
  by_cases hdata : data = []
  · -- nothing is written, and nothing is reported
    rw [if_pos hdata]
    refine .inr ⟨by simp [hdata], _, rfl, by simp [hdata], fun hpending => ?_⟩
    simpa [Receiver.writeError] using hpending
  · rw [if_neg hdata]
    cases hpending : file.pending with
    -- the failure of an earlier write is returned first
    | some e => exact .inl ⟨by simp [hdata], _, _, rfl⟩
    | none =>
      cases hwrite : ans.write with
      | none => exact .inr ⟨by simp, _, rfl, by simp, by simp⟩
      | some w =>
        cases w with
        | now e => exact .inl ⟨by simp [hdata], _, _, rfl⟩
        -- `write_all` succeeds: the failure is left for the next operation on the file
        | late e =>
          refine .inr ⟨by simp, _, rfl, fun _ => ?_, by simp⟩
          simp [Receiver.writeError]

theorem openTarget_view (destination : PathBuf) (ans : IoAnswers) (c : FileChunk)
    (r : Receiver) :
    (openReports destination ans c r.disk = true ∧
      ∃ e r', openTarget ans c (c.target destination) r = .err e r') ∨
    (openReports destination ans c r.disk = false ∧
      ∃ r', openTarget ans c (c.target destination) r = .ok r' ∧
        ((openFailures destination ans c r.disk).any Failure.dropped = false →
          openFailures destination ans c r.disk ≠ [] → r'.writeError.isSome)) := by
  unfold openReports openFailures openTarget
  by_cases hkind : c.kind = .directory
  · refine .inr ⟨by simp [hkind], _, by rw [if_pos hkind], fun hkept hfails => ?_⟩
    -- the only failure is one that is dropped
    cases hdir : dirAnswer destination ans c r.disk with
    | ok _ => simp [hkind, hdir] at hfails
    | error e => simp [hdir, Failure.dropped] at hkept
  · simp only [hkind, if_false]
    unfold fileAnswer
    generalize hcreate : (createParent ans (c.target destination) r.disk).createFile ans.createFile
      (c.target destination).components = created
    obtain ⟨answer, disk⟩ := created
    cases answer with
    | error e => exact .inl ⟨by simp [hkind], _, _, rfl⟩
    | ok file =>
      have hview := writeChunk_view (r := { r with
        state := { r.state with currentFile := some file }, disk := disk }) rfl ans c.chunk
      rcases hview with ⟨hreports, e, r', herr⟩ | ⟨hreports, r', hok, hfails, _⟩
      · exact .inl ⟨by simp [hkind, hreports], e, r', herr⟩
      · refine .inr ⟨by simp [hreports], r', hok, fun hkept hany => ?_⟩
        cases hdir : dirAnswer destination ans c r.disk with
        | error e => simp [hdir, Failure.dropped] at hkept
        | ok _ =>
          apply hfails
          by_contra hnot
          simp [hdir, hnot] at hany

/-- What the rounds without a dropped failure keep: what has failed waits in the
    current file. -/
def KeepsError (r : Receiver) (fs : List Failure) (r' : Receiver) : Prop :=
  fs.any Failure.dropped = false →
    (fs ≠ [] → r'.writeError.isSome) ∧ (r.writeError.isSome → r'.writeError.isSome)

/-- The end of a round that does not break off. -/
inductive Calm (r : Receiver) (fs : List Failure) : Round → Prop where
  | again (r' : Receiver) : KeepsError r fs r' → Calm r fs (.again r')
  | done (completed : Bool) (r' : Receiver) :
      (fs.any Failure.dropped = false → fs = [] ∧ r.writeError = none) →
      Calm r fs (.done (.ok completed) r')
  | panic (r' : Receiver) :
      (fs.any Failure.dropped = false → fs = [] ∧ r.writeError = none) → Calm r fs (.panic r')

/-- Where the flush drops nothing, no write has failed. -/
theorem writeError_of_flush (h : r.flushFails fault = false) : r.writeError = none := by
  unfold Receiver.flushFails at h
  rw [Bool.or_eq_false_iff] at h
  simpa using h.1

/-- A round whose only failure can be the one of a flush. -/
theorem flush_only (h : (if r.flushFails fault = true then [Failure.flush] else []).any
    Failure.dropped = false) :
    (if r.flushFails fault = true then [Failure.flush] else []) = [] ∧ r.writeError = none := by
  cases hflush : r.flushFails fault with
  | true => simp [hflush, Failure.dropped] at h
  | false => exact ⟨by simp, writeError_of_flush hflush⟩

theorem leaveLoop_calm (completed : Bool) :
    Calm r (if r.flushFails fault = true then [.flush] else [])
      (leaveLoop checks fault (.ok completed) r) := by
  unfold leaveLoop
  cases hfin : finalizeCurrentFile checks fault r with
  | ok r₁ => exact .done _ _ flush_only
  | err e r₁ => exact absurd hfin (finalizeCurrentFile_ne_err _ _ _ _ _)
  | panic r₁ => exact .panic _ flush_only

theorem message_view :
    (r.breaksOff checks destination fault (.message ans c) = true ∧
      ∃ e r', receiveRound checks destination fault r (.message ans c) = .done (.error e) r') ∨
    (r.breaksOff checks destination fault (.message ans c) = false ∧
      Calm r (r.failures checks destination fault (.message ans c))
        (receiveRound checks destination fault r (.message ans c))) := by
  have hname : sanitizePathComponent c.relativePath = c.sanitized := rfl
  simp only [Receiver.breaksOff, Receiver.failures, receiveRound, processChunk, hname]
  by_cases hkind : c.kind = .symlink
  · -- a symlink is skipped
    simp only [hkind, if_true, true_or]
    exact .inr ⟨by simp, .again r fun _ => ⟨by simp, id⟩⟩
  by_cases hrefuses : refusesPath destination c.sanitized = true
  · simp only [hkind, hrefuses, if_true, if_false]
    exact .inl ⟨by simp [hkind], _, _, rfl⟩
  by_cases hcurrent : r.state.currentPath = some c.sanitized
  · -- another chunk of the current path
    simp only [hkind, hrefuses, hcurrent, if_true, if_false, or_self, Bool.false_eq_true]
    cases hfile : r.state.currentFile with
    | none =>
      simp only [writeChunk, hfile]
      exact .inr ⟨by simp, .again r fun _ => ⟨by simp, id⟩⟩
    | some file =>
      rcases writeChunk_view hfile ans c.chunk with
        ⟨hreports, e, r', herr⟩ | ⟨hreports, r', hok, hfails, hpending⟩
      · rw [herr]
        exact .inl ⟨by simp [hkind, hreports], e, r', rfl⟩
      · rw [hok]
        refine .inr ⟨by simp [hreports], .again r' fun _ => ⟨fun hany => ?_, fun herror => ?_⟩⟩
        · apply hfails
          by_contra hnot
          simp [hnot] at hany
        · apply hpending
          simpa [Receiver.writeError, hfile] using herror
  · -- the current file is finalized first
    simp only [hkind, hrefuses, hcurrent, if_false, or_self, Bool.false_eq_true]
    cases hfin : finalizeCurrentFile checks ans.finalize r with
    | err e r₁ => exact absurd hfin (finalizeCurrentFile_ne_err _ _ _ _ _)
    | panic r₁ =>
      simp only [Outcome.bind, List.append_nil]
      exact .inr ⟨by simp, .panic _ flush_only⟩
    | ok r₁ =>
      simp only [Outcome.bind]
      have hview := openTarget_view destination ans c { r₁ with
        state := { r₁.state with currentPath := some c.sanitized, currentFileMtime := c.time } }
      rcases hview with ⟨hreports, e, r', herr⟩ | ⟨hreports, r', hok, hkept⟩
      · rw [show openTarget ans c (destination.join c.sanitized) _ = _ from herr]
        have hreports : openReports destination ans c r₁.disk = true := hreports
        exact .inl ⟨by simp [hkind, hreports], e, r', rfl⟩
      · rw [show openTarget ans c (destination.join c.sanitized) _ = _ from hok]
        have hreports : openReports destination ans c r₁.disk = false := hreports
        refine .inr ⟨by simp [hreports], .again r' fun hdropped => ?_⟩
        rw [List.any_append, Bool.or_eq_false_iff] at hdropped
        obtain ⟨hnil, hnone⟩ := flush_only hdropped.1
        refine ⟨fun hany => hkept hdropped.2 ?_, fun herror => ?_⟩
        · rw [hnil, List.nil_append] at hany
          exact hany
        · rw [hnone] at herror
          cases herror

theorem receiveRound_view (checks : Bool) (destination : PathBuf) (fault : Option IoErrorKind)
    (r : Receiver) (event : StreamEvent) :
    (r.breaksOff checks destination fault event = true ∧
      ∃ e r', receiveRound checks destination fault r event = .done (.error e) r') ∨
    (r.breaksOff checks destination fault event = false ∧
      Calm r (r.failures checks destination fault event)
        (receiveRound checks destination fault r event)) := by
  cases event with
  | cancelled => exact .inr ⟨rfl, leaveLoop_calm false⟩
  | endOfStream => exact .inr ⟨rfl, leaveLoop_calm true⟩
  | streamError =>
    simp only [Receiver.breaksOff, Receiver.failures, receiveRound, leaveLoop]
    cases hfin : finalizeCurrentFile checks fault r with
    | ok r₁ => exact .inl ⟨rfl, _, _, rfl⟩
    | err e r₁ => exact absurd hfin (finalizeCurrentFile_ne_err _ _ _ _ _)
    | panic r₁ => exact .inr ⟨rfl, .panic _ flush_only⟩
  | message ans c => exact message_view

end rounds

/-! ## Section 3: Whole streams -/

/-- What a round of the loop wakes up with, and the answer to a finalization on
    the way out. -/
abbrev LoopLabel : Type := StreamEvent × Option IoErrorKind

/-- The loop of `receive_stream_inner`. -/
def receiveLoop (checks : Bool) (destination : PathBuf) : Machine Round LoopLabel where
  step
    | .again r, (event, fault) => some (receiveRound checks destination fault r event)
    | _, _ => none

def Round.isOver : Round → Bool
  | .again _ => false
  | _ => true

/-- The call returns an error, and the closing update does not leave the transfer
    as completed. -/
def Round.Reported : Round → Prop
  | .done result _ =>
    (∃ e, result = .error e) ∧
      ∀ t, (finishReceive (receiveFinalState result) t).state ≠ .completed
  | _ => False

theorem reported_of_error (e : TransferError) (r : Receiver) :
    (Round.done (.error e) r).Reported := by
  refine ⟨⟨e, rfl⟩, fun t => ?_⟩
  simp only [finishReceive, receiveFinalState]
  split
  · next h =>
    rcases h with h | h
    all_goals
      rw [h]
      simp
  · simp

def Round.failures (checks : Bool) (destination : PathBuf) (s : Round) (l : LoopLabel) :
    List Failure :=
  match s with
  | .again r => r.failures checks destination l.2 l.1
  | _ => []

/-- Nothing fails in the round. -/
def NothingFails (checks : Bool) (destination : PathBuf) (s : Round) (l : LoopLabel) : Prop :=
  s.failures checks destination l = []

/-- No `create_dir_all` and no flush fails in the round. -/
def NothingDropped (checks : Bool) (destination : PathBuf) (s : Round) (l : LoopLabel) : Prop :=
  (s.failures checks destination l).any Failure.dropped = false

/-- The stream goes on. -/
def GoesOn (checks : Bool) (destination : PathBuf) (s : Round) (l : LoopLabel) : Prop :=
  match s with
  | .again r => r.breaksOff checks destination l.2 l.1 = false
  | _ => True

section runs

variable {checks : Bool} {destination : PathBuf} {s final : Round} {ls : List LoopLabel}
  {r : Receiver}

theorem nothingDropped_of_nothingFails {l : LoopLabel} (h : NothingFails checks destination s l) :
    NothingDropped checks destination s l := by
  unfold NothingDropped
  rw [show s.failures checks destination l = [] from h]
  rfl

/-- A loop that is over takes no further round. -/
theorem over_stays (hover : s.isOver = true)
    (hrun : (receiveLoop checks destination).exec s ls = some final) : ls = [] ∧ final = s := by
  cases ls with
  | nil => exact ⟨rfl, (Option.some.inj hrun).symm⟩
  | cons l ls =>
    obtain ⟨t, hstep, _⟩ := (Machine.exec_cons _).1 hrun
    cases s with
    | again r => cases hover
    | done result r => cases hstep
    | panic r => cases hstep

/-- The rounds of a stream, one at a time. -/
theorem along_round {P : Round → LoopLabel → Prop} {event : StreamEvent}
    {fault : Option IoErrorKind} :
    (receiveLoop checks destination).Along P (.again r) ((event, fault) :: ls) ↔
      P (.again r) (event, fault) ∧
        (receiveLoop checks destination).Along P
          (receiveRound checks destination fault r event) ls := by
  constructor
  · rintro ⟨hP, hrest⟩
    exact ⟨hP, hrest _ rfl⟩
  · rintro ⟨hP, hrest⟩
    refine ⟨hP, fun t ht => ?_⟩
    obtain rfl := Option.some.inj ht
    exact hrest

/-- The call returns an error exactly if the stream breaks off. -/
theorem reported_iff (hrun : (receiveLoop checks destination).exec (.again r) ls = some final)
    (hover : final.isOver = true) :
    final.Reported ↔
      ¬ (receiveLoop checks destination).Along (GoesOn checks destination) (.again r) ls := by
  induction ls generalizing r with
  | nil =>
    obtain rfl := Option.some.inj hrun
    cases hover
  | cons l ls ih =>
    obtain ⟨event, fault⟩ := l
    obtain ⟨t, hstep, hrun⟩ := (Machine.exec_cons _).1 hrun
    obtain rfl : receiveRound checks destination fault r event = t := Option.some.inj hstep
    rw [along_round]
    rcases receiveRound_view checks destination fault r event with
      ⟨hbreaks, e, r', hround⟩ | ⟨hgoes, hcalm⟩
    · rw [hround] at hrun
      obtain ⟨_, rfl⟩ := over_stays rfl hrun
      exact iff_of_true (reported_of_error e r') fun h => by simp [GoesOn, hbreaks] at h
    -- a round that breaks nothing off goes on, ends well or panics
    · generalize receiveRound checks destination fault r event = t at hrun hcalm ⊢
      cases hcalm with
      | again r' _ =>
        rw [ih hrun]
        simp [GoesOn, hgoes]
      | done completed r' _ =>
        obtain ⟨rfl, rfl⟩ := over_stays rfl hrun
        refine iff_of_false ?_ fun h => h ⟨hgoes, trivial⟩
        rintro ⟨⟨e, he⟩, _⟩
        cases he
      | panic r' _ =>
        obtain ⟨rfl, rfl⟩ := over_stays rfl hrun
        exact iff_of_false id fun h => h ⟨hgoes, trivial⟩

/-- Where the stream goes on to its end and nothing is dropped, nothing has failed:
    the failure of a write waits in the current file until a write or a flush
    reports it. -/
theorem nothingFails_of_goesOn
    (hrun : (receiveLoop checks destination).exec (.again r) ls = some final)
    (hover : final.isOver = true)
    (hdropped : (receiveLoop checks destination).Along (NothingDropped checks destination)
      (.again r) ls)
    (hgoes : (receiveLoop checks destination).Along (GoesOn checks destination) (.again r) ls) :
    r.writeError = none ∧
      (receiveLoop checks destination).Along (NothingFails checks destination) (.again r) ls := by
  induction ls generalizing r with
  | nil =>
    obtain rfl := Option.some.inj hrun
    cases hover
  | cons l ls ih =>
    obtain ⟨event, fault⟩ := l
    obtain ⟨t, hstep, hrun⟩ := (Machine.exec_cons _).1 hrun
    obtain rfl : receiveRound checks destination fault r event = t := Option.some.inj hstep
    obtain ⟨hkept, hdropped⟩ := along_round.1 hdropped
    obtain ⟨hgoesOn, hgoes⟩ := along_round.1 hgoes
    rw [along_round]
    rcases receiveRound_view checks destination fault r event with ⟨hbreaks, _⟩ | ⟨_, hcalm⟩
    · -- the stream does not break off
      rw [show r.breaksOff checks destination fault event = false from hgoesOn] at hbreaks
      cases hbreaks
    · generalize receiveRound checks destination fault r event = t at hrun hcalm hdropped hgoes ⊢
      cases hcalm with
      | again r' hround =>
        -- by the induction hypothesis no write is pending after the round, and what fails in it
        -- would be
        obtain ⟨hnone, hrest⟩ := ih hrun hdropped hgoes
        obtain ⟨hfails, herror⟩ := hround hkept
        rw [hnone] at hfails herror
        refine ⟨?_, ?_, hrest⟩
        · simpa using herror
        · by_contra hany
          simpa using hfails hany
      | done completed r' hround =>
        obtain ⟨rfl, rfl⟩ := over_stays rfl hrun
        obtain ⟨hnil, hnone⟩ := hround hkept
        exact ⟨hnone, hnil, trivial⟩
      | panic r' hround =>
        obtain ⟨rfl, rfl⟩ := over_stays rfl hrun
        obtain ⟨hnil, hnone⟩ := hround hkept
        exact ⟨hnone, hnil, trivial⟩

/-- A stream in which an operation fails ends in an error exactly if no
    `create_dir_all` and no flush fails, or if the stream breaks off anyway. -/
theorem errors_reported_iff {node : Path → Option Node}
    (hrun : (receiveLoop checks destination).exec (.again (Receiver.start node)) ls = some final)
    (hover : final.isOver = true) :
    (¬ (receiveLoop checks destination).Along (NothingFails checks destination)
        (.again (Receiver.start node)) ls → final.Reported) ↔
      ((receiveLoop checks destination).Along (NothingDropped checks destination)
          (.again (Receiver.start node)) ls ∨
        ¬ (receiveLoop checks destination).Along (GoesOn checks destination)
          (.again (Receiver.start node)) ls) := by
  rw [reported_iff hrun hover]
  constructor
  · intro hreported
    by_cases hgoes : (receiveLoop checks destination).Along (GoesOn checks destination)
        (.again (Receiver.start node)) ls
    · refine .inl (Machine.Along.mono _ (fun _ _ => nothingDropped_of_nothingFails) ?_)
      by_contra hfails
      exact hreported hfails hgoes
    · exact .inr hgoes
  · rintro (hdropped | hbreaks) hfails
    · intro hgoes
      exact hfails (nothingFails_of_goesOn hrun hover hdropped hgoes).2
    · exact hbreaks

end runs

instance {checks : Bool} {destination : PathBuf} {s : Round} {l : LoopLabel} :
    Decidable (NothingFails checks destination s l) :=
  inferInstanceAs (Decidable (s.failures checks destination l = []))

instance {checks : Bool} {destination : PathBuf} {s : Round} {l : LoopLabel} :
    Decidable (NothingDropped checks destination s l) :=
  inferInstanceAs (Decidable ((s.failures checks destination l).any Failure.dropped = false))

/-- The loop on an empty tree below `/d`. -/
def atOutset : Round := .again (.start (emptyTree (OsString.ofString "/d")))

def chunkOfA : FileChunk := .ofFile "s/a" none [7]

/-- `File::create` fails. -/
def refusedCreate : List LoopLabel :=
  [(.message { IoAnswers.good 1 with createFile := some (.other 13) } chunkOfA, none)]

/-- The last write of the stream fails, and its file is flushed. -/
def lateWrite : List LoopLabel :=
  [(.message { IoAnswers.good 1 with write := some (.late (.other 28)) } chunkOfA, none),
    (.endOfStream, none)]

theorem refused_create_reported :
    ∃ final, (receiveLoop true (OsString.ofString "/d")).exec atOutset refusedCreate = some final ∧
      final.Reported := by
  have hfails : ¬ (receiveLoop true (OsString.ofString "/d")).Along
      (NothingFails true (OsString.ofString "/d")) atOutset refusedCreate := by decide
  have hkept : (receiveLoop true (OsString.ofString "/d")).Along
      (NothingDropped true (OsString.ofString "/d")) atOutset refusedCreate := by decide
  exact ⟨_, rfl, (errors_reported_iff rfl rfl).2 (.inl hkept) hfails⟩

/-- A byte is lost, and the call returns `Ok(true)`. -/
theorem late_write_unreported :
    ∃ final, (receiveLoop true (OsString.ofString "/d")).exec atOutset lateWrite = some final ∧
      (∃ r, final = .done (.ok true) r) ∧
      ¬ (receiveLoop true (OsString.ofString "/d")).Along
        (NothingFails true (OsString.ofString "/d")) atOutset lateWrite ∧
      ¬ final.Reported := by
  refine ⟨_, rfl, ⟨_, rfl⟩, by decide, ?_⟩
  rintro ⟨⟨e, he⟩, _⟩
  cases he

end Warpinator
