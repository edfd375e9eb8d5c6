import Warpinator.Transfers.StreamTasks

/-! # File Times from the Wire

    `finalize_current_file` turns the `FileTime` of a chunk into a `SystemTime`:
    a multiplication in `u32`, a `Duration` and an addition to `UNIX_EPOCH`.
    Where one of them panics, `receive_stream` ends without its closing update.

    `survives_iff_timesFit`: this never happens exactly if every time that is
    finalized fits. -/

namespace Warpinator

open LexPath

/-! ## Section 1: Finalized times -/

/-- The multiplication stays in `u32`. -/
def FileTime.NoOverflow (t : FileTime) : Prop := t.mtimeUsec * 1000 < 2 ^ 32

/-- The time fits: the multiplication stays in `u32`, and the seconds stay
    below those that a `SystemTime` can hold. -/
def FileTime.Fits (t : FileTime) : Prop :=
  t.NoOverflow ∧ t.mtime + t.mtimeUsec * 1000 / 10 ^ 9 < 2 ^ 63

instance (t : FileTime) : Decidable t.NoOverflow := inferInstanceAs (Decidable (_ < _))

instance (t : FileTime) : Decidable t.Fits := inferInstanceAs (Decidable (_ ∧ _))

/-- The time that a finalization of the current file would set. -/
def Receiver.pendingTime (r : Receiver) : Option FileTime :=
  if r.state.currentFile.isSome then r.state.currentFileMtime else none

/-- The time that a round of the loop finalizes. -/
def Receiver.finalizes (destination : PathBuf) (r : Receiver) : StreamEvent → Option FileTime
  | .message _ chunk =>
    let sanitized := sanitizePathComponent chunk.relativePath
    if chunk.kind = .symlink ∨ refusesPath destination sanitized = true ∨
        r.state.currentPath = some sanitized then none
    else r.pendingTime
  | _ => r.pendingTime

theorem systemTime_of_noOverflow {t : FileTime} (h : t.NoOverflow) (checks : Bool) :
    t.systemTime checks = SystemTime.afterEpoch (t.mtime * 10 ^ 9 + t.mtimeUsec * 1000) := by
  have hmul : mulU32 checks t.mtimeUsec 1000 = some (t.mtimeUsec * 1000) := if_pos h
  rw [FileTime.systemTime, hmul, Option.bind_some]

theorem afterEpoch_isSome_iff (n : Nat) :
    (SystemTime.afterEpoch n).isSome ↔ n < 2 ^ 63 * 10 ^ 9 := by
  unfold SystemTime.afterEpoch
  split
  · next h => exact iff_of_true rfl (by exact_mod_cast h)
  · next h => exact iff_of_false (by simp) fun hn => h (by exact_mod_cast hn)

/-- Without an overflow, what decides is whether the seconds fit. -/
theorem fits_iff {t : FileTime} (h : t.NoOverflow) (checks : Bool) :
    t.Fits ↔ (t.systemTime checks).isSome := by
  rw [systemTime_of_noOverflow h, afterEpoch_isSome_iff]
  have hsecs : t.mtime + t.mtimeUsec * 1000 / 10 ^ 9 < 2 ^ 63 ↔
      t.mtime * 10 ^ 9 + t.mtimeUsec * 1000 < 2 ^ 63 * 10 ^ 9 := by omega
  exact ⟨fun hfits => hsecs.1 hfits.2, fun hlt => ⟨h, hsecs.2 hlt⟩⟩

section rounds

variable {checks : Bool} {destination : PathBuf} {fault : Option IoErrorKind} {r r' : Receiver}

theorem finalize_panics_iff (fault : Option IoErrorKind) :
    (∃ r', finalizeCurrentFile checks fault r = .panic r') ↔
      ∃ t, r.pendingTime = some t ∧ t.systemTime checks = none := by
  unfold finalizeCurrentFile Receiver.pendingTime
  cases r.state.currentFile with
  | none => simp
  | some file =>
    cases r.state.currentFileMtime with
    | none => simp
    | some t =>
      cases ht : t.systemTime checks with
      | none => simp [ht]
      | some time => simp [ht]

theorem writeChunk_ne_panic (ans : IoAnswers) (data : List UInt8) (r : Receiver) :
    writeChunk ans data r ≠ .panic r' := by
  unfold writeChunk
  split
  · simp
  · split <;> simp

theorem openTarget_ne_panic (ans : IoAnswers) (c : FileChunk) (target : PathBuf) (r : Receiver) :
    openTarget ans c target r ≠ .panic r' := by
  unfold openTarget
  split
  · simp
  · split
    · simp
    · exact writeChunk_ne_panic _ _ _

theorem leaveLoop_panics_iff {result : Except TransferError Bool} :
    (∃ r', leaveLoop checks fault result r = .panic r') ↔
      ∃ r', finalizeCurrentFile checks fault r = .panic r' := by
  unfold leaveLoop
  cases finalizeCurrentFile checks fault r <;> simp

theorem processChunk_panics_iff {ans : IoAnswers} {c : FileChunk} :
    (∃ r', processChunk checks destination ans c r = .panic r') ↔
      ∃ t, r.finalizes destination (.message ans c) = some t ∧ t.systemTime checks = none := by
  unfold processChunk Receiver.finalizes
  dsimp only
  by_cases hkind : c.kind = .symlink
  · simp [hkind]
  · by_cases hrefuses : refusesPath destination (sanitizePathComponent c.relativePath) = true
    · simp [hkind, hrefuses]
    · by_cases hcurrent : r.state.currentPath = some (sanitizePathComponent c.relativePath)
      · simp [hkind, hrefuses, hcurrent, writeChunk_ne_panic]
      · simp only [hkind, hrefuses, hcurrent, if_false, or_self, Bool.false_eq_true]
        rw [← finalize_panics_iff ans.finalize]
        cases hfin : finalizeCurrentFile checks ans.finalize r with
        | ok r₁ => simp [Outcome.bind, openTarget_ne_panic]
        | err e r₁ => simp [Outcome.bind]
        | panic r₁ => simp [Outcome.bind]

/-- A round panics exactly if the time that it finalizes has no `SystemTime`. -/
theorem receiveRound_panics_iff (fault : Option IoErrorKind) {event : StreamEvent} :
    (∃ r', receiveRound checks destination fault r event = .panic r') ↔
      ∃ t, r.finalizes destination event = some t ∧ t.systemTime checks = none := by
  cases event with
  | cancelled => exact leaveLoop_panics_iff.trans (finalize_panics_iff fault)
  | endOfStream => exact leaveLoop_panics_iff.trans (finalize_panics_iff fault)
  | streamError => exact leaveLoop_panics_iff.trans (finalize_panics_iff fault)
  | message ans c =>
    rw [← processChunk_panics_iff]
    simp only [receiveRound]
    cases processChunk checks destination ans c r <;> simp

end rounds

/-! ## Section 2: Receiving tasks among others -/

/-- A change of the host by other tasks. -/
structure HostChange where
  apply : Host → Host
  /-- The build stays the same. -/
  checks_apply : ∀ host, (apply host).checks = host.checks

structure Receiving where
  host : Host
  task : ReceiveTask

inductive ReceivingLabel where
  | task (ans : Answer)
  | other (change : HostChange)

def ReceivePhase.ended : ReceivePhase → Bool
  | .done | .panicked => true
  | _ => false

/-- `receive_stream` up to its end. -/
def receiving : Machine Receiving ReceivingLabel where
  step s
    | .task ans => (s.task.step s.host ans).map fun (host, task) => ⟨host, task⟩
    | .other change =>
      if s.task.phase.ended then none else some { s with host := change.apply s.host }

/-- The time that a step finalizes. -/
def Receiving.finalizes (s : Receiving) : ReceivingLabel → Option FileTime
  | .task (.receive event _ _) =>
    if s.task.phase = .inner then s.task.receiver.finalizes s.task.destination event else none
  | _ => none

/-- The step multiplies within `u32`. -/
def MultipliesInRange (s : Receiving) (l : ReceivingLabel) : Prop :=
  ∀ t ∈ s.finalizes l, t.NoOverflow

/-- The time that the step finalizes fits. -/
def TimesFit (s : Receiving) (l : ReceivingLabel) : Prop := ∀ t ∈ s.finalizes l, t.Fits

instance (s : Receiving) : DecidablePred (TimesFit s) := fun l =>
  inferInstanceAs (Decidable (∀ t ∈ s.finalizes l, t.Fits))

/-- No multiplication overflows, the task comes to its closing update, and the
    transfer is not left in progress. -/
structure Survives (s : Receiving) (ls : List ReceivingLabel) (s' : Receiving) : Prop where
  multiplies : receiving.Along MultipliesInRange s ls
  closed : s'.task.phase = .done
  state : s'.host.stateOf s'.task.remoteUuid s'.task.transferUuid ≠ some .inProgress

section steps

variable {s s' : Receiving} {l : ReceivingLabel}

/-- The steps of a receiving task. -/
theorem receiving_cases (h : receiving.step s l = some s') :
    (∃ ans, l = .task ans ∧ ReceiveTaskMove s.host s.task ans s'.host s'.task) ∨
      ∃ change, l = .other change ∧ s.task.phase.ended = false ∧
        s' = { s with host := change.apply s.host } := by
  cases l with
  | task ans =>
    obtain ⟨⟨host, task⟩, hstep, rfl⟩ := Option.map_eq_some_iff.1 h
    exact .inl ⟨ans, rfl, ReceiveTask.step_move hstep⟩
  | other change =>
    simp only [receiving] at h
    split at h
    · cases h
    · next hended => cases h; exact .inr ⟨change, rfl, by simpa using hended, rfl⟩

/-- A task that has ended takes no further step. -/
theorem ended_stays {ls : List ReceivingLabel} (hended : s.task.phase.ended = true)
    (hrun : receiving.exec s ls = some s') : ls = [] ∧ s' = s := by
  cases ls with
  | nil => exact ⟨rfl, (Option.some.inj hrun).symm⟩
  | cons l ls =>
    obtain ⟨t, hstep, _⟩ := (Machine.exec_cons _).1 hrun
    rcases receiving_cases hstep with ⟨ans, _, hmove⟩ | ⟨change, _, hnot, _⟩
    · generalize t.host = host' at hmove
      generalize t.task = task' at hmove
      cases hmove with
      | again _ _ _ _ hphase | leave _ _ _ _ _ hphase | panic _ _ _ _ hphase | close _ _ hphase =>
        rw [hphase] at hended
        cases hended
    · rw [hended] at hnot
      cases hnot

/-- A step panics exactly if the time that it finalizes has no `SystemTime`. -/
theorem panicked_iff (h : receiving.step s l = some s') (hnot : s.task.phase ≠ .panicked) :
    s'.task.phase = .panicked ↔
      ∃ t, s.finalizes l = some t ∧ t.systemTime s.host.checks = none := by
  rcases receiving_cases h with ⟨ans, rfl, hmove⟩ | ⟨change, rfl, _, rfl⟩
  · -- a round, or the closing update, which finalizes nothing
    generalize hhost : s'.host = host' at hmove
    generalize htask : s'.task = task' at hmove
    cases hmove with
    | again event fault queued r hphase _ hround =>
      simp only [Receiving.finalizes, hphase, if_true, reduceCtorEq, false_iff]
      rw [← receiveRound_panics_iff fault, hround]
      simp
    | leave event fault queued result r hphase _ hround =>
      simp only [Receiving.finalizes, hphase, if_true, reduceCtorEq, false_iff]
      rw [← receiveRound_panics_iff fault, hround]
      simp
    | panic event fault queued r hphase _ hround =>
      simp only [Receiving.finalizes, hphase, if_true, true_iff]
      rw [← receiveRound_panics_iff fault, hround]
      exact ⟨r, rfl⟩
    | close queued finalState hphase => simp [Receiving.finalizes]
  · simp [Receiving.finalizes, hnot]

/-- The state that the closing update is about to write, or has written. -/
structure Concluding (s : Receiving) : Prop where
  closing : ∀ finalState, s.task.phase = .closing finalState → finalState ≠ .inProgress
  done : s.task.phase = .done →
    s.host.stateOf s.task.remoteUuid s.task.transferUuid ≠ some .inProgress

theorem receiveFinalState_ne_inProgress (result : Except TransferError Bool) :
    receiveFinalState result ≠ .inProgress := by
  unfold receiveFinalState
  split <;> simp

/-- The closing update leaves no transfer in progress. -/
theorem finishReceive_ne_inProgress (host : Host) (queued : Nat) (k u : String)
    {finalState : TransferState} (h : finalState ≠ .inProgress) :
    (host.updateTransfer queued k u (.finishReceive finalState)).2.stateOf k u
      ≠ some .inProgress := by
  rw [stateOf_updateTransfer, if_pos ⟨rfl, rfl⟩]
  cases host.transfer k u with
  | none => simp
  | some t =>
    simp only [Option.map_some, finishReceive_state, ne_eq, Option.some.injEq]
    split
    · next hstate => rcases hstate with hstate | hstate <;> simp [hstate]
    · exact h

theorem concluding_step (h : Concluding s) (hstep : receiving.step s l = some s') :
    Concluding s' := by
  rcases receiving_cases hstep with ⟨ans, rfl, hmove⟩ | ⟨change, rfl, hnot, rfl⟩
  · obtain ⟨host', task'⟩ := s'
    dsimp only at hmove
    cases hmove with
    | again event fault queued r hphase =>
      exact ⟨fun f hf => (by simp [hphase] at hf), fun hf => (by simp [hphase] at hf)⟩
    | leave event fault queued result r hphase =>
      refine ⟨fun f hf => ?_, fun hf => by cases hf⟩
      cases hf
      exact receiveFinalState_ne_inProgress result
    | panic => exact ⟨fun f hf => (by cases hf), fun hf => (by cases hf)⟩
    | close queued finalState hphase =>
      refine ⟨fun f hf => (by cases hf), fun _ => ?_⟩
      exact finishReceive_ne_inProgress _ _ _ _ (h.closing _ hphase)
  · -- the others may write the state of the transfer, but not once the task is over
    refine ⟨h.closing, fun hf => ?_⟩
    have hf : s.task.phase = .done := hf
    simp [hf, ReceivePhase.ended] at hnot

theorem concluding_start {task : ReceiveTask} (host : Host) (h : task.phase = .inner) :
    Concluding ⟨host, task⟩ := by
  constructor
  · simp [h]
  · simp [h]

end steps

/-! ## Section 3: Whole tasks -/

section runs

variable {s s' : Receiving} {ls : List ReceivingLabel}

theorem multipliesInRange_of_timesFit {l : ReceivingLabel} (h : TimesFit s l) :
    MultipliesInRange s l := fun t ht => (h t ht).1

/-- No step of a run on times that fit panics. -/
theorem not_panicked_step {l : ReceivingLabel} (hfit : TimesFit s l)
    (hnot : s.task.phase ≠ .panicked) (hstep : receiving.step s l = some s') :
    s'.task.phase ≠ .panicked := by
  intro hpanicked
  obtain ⟨t, ht, hnone⟩ := (panicked_iff hstep hnot).1 hpanicked
  have hsome := (fits_iff (hfit t ht).1 s.host.checks).1 (hfit t ht)
  rw [hnone] at hsome
  cases hsome

/-- A run that ends with the closing update and does not overflow has finalized
    times that fit. -/
theorem timesFit_of_closed (hnot : s.task.phase ≠ .panicked)
    (hmultiplies : receiving.Along MultipliesInRange s ls) (hrun : receiving.exec s ls = some s')
    (hclosed : s'.task.phase = .done) : receiving.Along TimesFit s ls := by
  induction ls generalizing s with
  | nil => trivial
  | cons l ls ih =>
    obtain ⟨t, hstep, hrest⟩ := (Machine.exec_cons _).1 hrun
    -- a panic would have been the end
    have hnot' : t.task.phase ≠ .panicked := by
      intro hpanicked
      obtain ⟨_, rfl⟩ := ended_stays (by rw [hpanicked]; rfl) hrest
      rw [hpanicked] at hclosed
      cases hclosed
    refine ⟨fun time htime => ?_, fun u hu => ?_⟩
    · have hmul := hmultiplies.1 time htime
      rw [fits_iff hmul s.host.checks, Option.isSome_iff_ne_none]
      exact fun hnone => hnot' ((panicked_iff hstep hnot).2 ⟨time, htime, hnone⟩)
    · obtain rfl : t = u := Option.some.inj (hstep.symm.trans hu)
      exact ih hnot' (hmultiplies.2 t hstep) hrest

/-- A task that receives, whatever its chunks and whatever else happens on its
    host, survives exactly if every time that it finalizes fits. -/
theorem survives_iff_timesFit {host : Host} {task : ReceiveTask} (hinner : task.phase = .inner)
    (hrun : receiving.exec ⟨host, task⟩ ls = some s') (hended : s'.task.phase.ended = true) :
    Survives ⟨host, task⟩ ls s' ↔ receiving.Along TimesFit ⟨host, task⟩ ls := by
  have hstart : (Receiving.mk host task).task.phase ≠ .panicked := by simp [hinner]
  constructor
  · intro h
    exact timesFit_of_closed hstart h.multiplies hrun h.closed
  · intro h
    have hnot : s'.task.phase ≠ .panicked :=
      receiving.exec_invariant_along (I := fun s => s.task.phase ≠ .panicked)
        (fun _ _ _ hfit hnot hstep => not_panicked_step hfit hnot hstep) hstart h hrun
    have hclosed : s'.task.phase = .done := by
      generalize s'.task.phase = phase at hended hnot
      cases phase with
      | done => rfl
      | panicked => exact absurd rfl hnot
      | inner | closing => cases hended
    have hconcluding : Concluding s' :=
      receiving.exec_invariant (fun _ _ _ => concluding_step) (concluding_start host hinner) hrun
    exact ⟨h.mono _ (fun _ _ => multipliesInRange_of_timesFit), hclosed, hconcluding.done hclosed⟩

end runs

/-- A host that receives the transfer `in` from `b` into `/d`. -/
def receivingHost (checks : Bool) : Host :=
  { Host.single "b" (.bare "in" "b" .inProgress (.incoming (OsString.ofString "/d"))) with
    checks := checks }

def receivingTask : ReceiveTask :=
  .new "b" "in" (OsString.ofString "/d") [0] (emptyTree (OsString.ofString "/d"))

/-- One chunk with the given time, and the end of the stream. -/
def timedRun (time : FileTime) : List ReceivingLabel :=
  [.task (.receive (.message (.good 1) (.ofFile "f" (some time) [7])) none 0),
    .task (.receive .endOfStream none 0)]

/-- A time that real files have. -/
def wireTime : FileTime := ⟨1600000000, 123456, by decide, by decide⟩

theorem survives_wireTime :
    ∃ s, receiving.exec ⟨receivingHost true, receivingTask⟩ (timedRun wireTime ++ [.task (.go 0)])
        = some s ∧
      (Survives ⟨receivingHost true, receivingTask⟩ (timedRun wireTime ++ [.task (.go 0)]) s ↔
        receiving.Along TimesFit ⟨receivingHost true, receivingTask⟩
          (timedRun wireTime ++ [.task (.go 0)])) ∧
      receiving.Along TimesFit ⟨receivingHost true, receivingTask⟩
        (timedRun wireTime ++ [.task (.go 0)]) := by
  have hfit : receiving.Along TimesFit ⟨receivingHost true, receivingTask⟩
      (timedRun wireTime ++ [.task (.go 0)]) := by decide
  exact ⟨_, rfl, survives_iff_timesFit rfl rfl rfl, hfit⟩

/-- Seconds beyond those of a `SystemTime` panic in every build, microseconds
    that overflow in a build with overflow checks; the transfer stays in
    progress. -/
theorem left_inProgress :
    (∃ s, receiving.exec ⟨receivingHost false, receivingTask⟩
        (timedRun ⟨2 ^ 63, 0, by decide, by decide⟩) = some s ∧ s.task.phase = .panicked ∧
      s.host.stateOf "b" "in" = some .inProgress) ∧
    ∃ s, receiving.exec ⟨receivingHost true, receivingTask⟩
        (timedRun ⟨0, 4294968, by decide, by decide⟩) = some s ∧ s.task.phase = .panicked ∧
      s.host.stateOf "b" "in" = some .inProgress :=
  ⟨⟨_, rfl, rfl, by decide⟩, ⟨_, rfl, rfl, by decide⟩⟩

end Warpinator
