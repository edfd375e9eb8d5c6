import Warpinator.Transfers.Stopping
import Warpinator.Transfers.VirtualSender

/-! # How Soon a Sender Stops

    The token of a sender is only polled, at the heads of the source loop, the
    walk loop and the read loop.  Between two polls at most one chunk is handed
    to `tx`: `owes` is the number of chunks that a program point may still hand
    over before the next poll. -/

namespace Warpinator

/-! ## Section 1: The real file system -/

/-- The chunks that may be handed over before the next poll. -/
def SendPc.owes : SendPc → Nat
  | .entryMetadata .. | .sendDir .. | .readFile .. | .sendFile .. => 1
  | _ => 0

theorem sourceLoop_owes (rest : List Source) : (sourceLoop rest).owes = 0 := by
  cases rest <;> rfl

/-- Behind a file or a directory comes a poll, also where the next entry or the
    next source follows. -/
theorem resume_owes (cont : SendCont) : cont.resume.owes = 0 := by
  cases cont with
  | nextSource rest => exact sourceLoop_owes rest
  | nextEntry base entries rest => rfl

theorem enterSource_owes (base : Path) (source : Source) (rest : List Source) :
    (enterSource base source rest).owes = 0 := by
  unfold enterSource
  split
  · rfl
  · rfl
  · exact sourceLoop_owes rest

theorem enterEntry_owes (base : Path) (entry : WalkEntry) (entries : List WalkEntry)
    (rest : List Source) : (enterEntry base entry entries rest).owes ≤ 1 := by
  unfold enterEntry
  split <;> simp [SendPc.owes]

/-- While the token is cancelled, a step hands over what its point owes. -/
theorem SendMove.owes_le {pc pc' : SendPc} {l : SendLabel} {cs : List FileChunk}
    (h : SendMove pc l pc' cs) (hcancelled : l.agrees true = true) :
    cs.length + pc'.owes ≤ pc.owes := by
  cases h with
  -- the polls that let the sender go on do not occur
  | sourceRootless | sourcePolled | walkError | walkPolled | filePolled => cases hcancelled
  | sourceEntered base source rest =>
    have hnext := enterSource_owes base source rest
    show 0 + (enterSource base source rest).owes ≤ 0
    omega
  | walkDone base rest =>
    have hnext := sourceLoop_owes rest
    show 0 + (sourceLoop rest).owes ≤ 0
    omega
  | entryEntered base e entries rest =>
    have hnext := enterEntry_owes base e entries rest
    show 0 + (enterEntry base e entries rest).owes ≤ 1
    omega
  -- a directory's chunk is the only one up to the next entry
  | dirSent chunk cont =>
    have hnext := resume_owes cont
    show 1 + cont.resume.owes ≤ 1
    omega
  | fileCancelled file cont =>
    have hnext := resume_owes cont
    show 0 + cont.resume.owes ≤ 0
    omega
  | readEof file cont _ =>
    have hnext := resume_owes cont
    show 0 + cont.resume.owes ≤ 1
    omega
  | sourceCancelled | sourceFailed | walkFailed | walkItem | walkCancelled | entryFailed
  | dirRefused | openFailed | opened | readFailed | readBytes | chunkSent | chunkRefused
  | progressed => simp [SendPc.owes]

theorem sendStep_owes {s s' : Sender} {l : SendLabel} (hcancelled : l.agrees true = true)
    (h : sendStep s l = some s') :
    ∃ new, s'.handed = s.handed ++ new ∧ new.length + s'.pc.owes ≤ s.pc.owes := by
  obtain ⟨cs, hhanded, hmove⟩ := sendStep_move h
  exact ⟨cs, hhanded, hmove.owes_le hcancelled⟩

theorem SendPc.owes_le_one (pc : SendPc) : pc.owes ≤ 1 := by
  cases pc <;> simp [SendPc.owes]

/-! ## Section 2: The virtual file system -/

def VirtualPc.owes : VirtualPc → Nat
  | .sendDir .. => 1
  | .inFile pc _ _ => pc.owes
  | _ => 0

theorem VirtualPc.owes_le_one (pc : VirtualPc) : pc.owes ≤ 1 := by
  cases pc with
  | inFile pc queue rest => exact pc.owes_le_one
  | _ => simp [VirtualPc.owes]

def VirtualLabel.agrees (cancelled : Bool) : VirtualLabel → Bool
  | .common l => l.agrees cancelled
  | _ => true

theorem virtualSourceLoop_owes (rest : List PathBuf) : (virtualSourceLoop rest).owes = 0 := by
  cases rest <;> rfl

theorem virtualWalkNext_owes (queue : List WalkDirEntry) (rest : List PathBuf) :
    (virtualWalkNext queue rest).owes = 0 := by
  unfold virtualWalkNext
  split
  · exact virtualSourceLoop_owes rest
  · split <;> rfl

theorem virtualEnterSource_owes (source : String) (m : VirtualMetadata) (rest : List PathBuf) :
    (virtualEnterSource source m rest).owes = 0 := by
  unfold virtualEnterSource
  split
  · exact virtualWalkNext_owes _ _
  · rfl

theorem virtualFileLoop_owes (queue : List WalkDirEntry) (rest : List PathBuf) (pc : SendPc) :
    (virtualFileLoop queue rest pc).owes ≤ pc.owes := by
  unfold virtualFileLoop
  split
  · rw [virtualWalkNext_owes]
    exact Nat.zero_le _
  · exact Nat.zero_le _
  · exact Nat.le_refl _

theorem virtualStep_owes {s s' : VirtualSender} {l : VirtualLabel}
    (hcancelled : l.agrees true = true) (h : s.step l = some s') :
    ∃ new, s'.handed = s.handed ++ new ∧ new.length + s'.pc.owes ≤ s.pc.owes := by
  -- a step that hands nothing over and leads to a point that owes nothing
  have hquiet : ∀ pc', s' = s.goto pc' → pc'.owes = 0 →
      ∃ new, s'.handed = s.handed ++ new ∧ new.length + s'.pc.owes ≤ s.pc.owes := by
    rintro pc' rfl hzero
    refine ⟨[], by simp [VirtualSender.goto], ?_⟩
    show 0 + pc'.owes ≤ s.pc.owes
    omega
  unfold VirtualSender.step at h
  split at h
  · next source rest cancelled hpc =>
    obtain rfl : cancelled = true := by
      simpa [VirtualLabel.agrees, SendLabel.agrees] using hcancelled
    exact hquiet _ (Option.some.inj h).symm rfl
  · split at h
    · exact hquiet _ (Option.some.inj h).symm rfl
    · exact hquiet _ (Option.some.inj h).symm (virtualEnterSource_owes _ _ _)
  · exact hquiet _ (Option.some.inj h).symm rfl
  · next entry queue rest cancelled hpc =>
    obtain rfl : cancelled = true := by
      simpa [VirtualLabel.agrees, SendLabel.agrees] using hcancelled
    exact hquiet _ (Option.some.inj h).symm rfl
  · next chunk queue rest accepted hpc =>
    split at h
    · obtain rfl := Option.some.inj h
      refine ⟨[chunk], rfl, ?_⟩
      have hnext := virtualWalkNext_owes queue rest
      rw [hpc]
      show 1 + (virtualWalkNext queue rest).owes ≤ 1
      omega
    · exact hquiet _ (Option.some.inj h).symm rfl
  · split at h
    · exact hquiet _ (Option.some.inj h).symm rfl
    · exact hquiet _ (Option.some.inj h).symm rfl
  · split at h
    · exact hquiet _ (Option.some.inj h).symm rfl
    · exact hquiet _ (Option.some.inj h).symm rfl
  · next pc queue rest l hpc =>
    -- in `send_file_inner`, as in the other build
    obtain ⟨t, hstep, rfl⟩ := Option.map_eq_some_iff.1 h
    obtain ⟨new, hhanded, howes⟩ := sendStep_owes hcancelled hstep
    refine ⟨new, hhanded, ?_⟩
    have hloop := virtualFileLoop_owes queue rest t.pc
    rw [hpc]
    show new.length + (virtualFileLoop queue rest t.pc).owes ≤ pc.owes
    exact Nat.le_trans (Nat.add_le_add_left hloop _) howes
  · cases h

/-! ## Section 3: Runs -/

/-- Every poll finds the token cancelled. -/
def VirtualCancelled (ls : List VirtualLabel) : Prop := ∀ l ∈ ls, l.agrees true = true

/-- From the moment on at which the token is cancelled, at most one further
    chunk is handed over, in both builds. -/
theorem prompt_stop :
    (∀ (sources : List Source) (before after : List SendLabel) (s s' : Sender),
      sender.exec (.start sources) before = some s → sender.exec s after = some s' →
      Cancelled after → ∃ new, s'.handed = s.handed ++ new ∧ new.length ≤ 1) ∧
    ∀ (sources : List PathBuf) (before after : List VirtualLabel) (s s' : VirtualSender),
      virtualSender.exec (.start sources) before = some s →
      virtualSender.exec s after = some s' →
      VirtualCancelled after → ∃ new, s'.handed = s.handed ++ new ∧ new.length ≤ 1 := by
  constructor
  · intro sources before after s s' _ hafter hcancelled
    obtain ⟨new, hhanded, hbudget⟩ := Machine.exec_log_le sender (f := Sender.handed)
      (g := fun s => s.pc.owes) (C := fun l => l.agrees true = true)
      (fun _ _ _ hC h => sendStep_owes hC h) hcancelled hafter
    have hstart := s.pc.owes_le_one
    exact ⟨new, hhanded, by omega⟩
  · intro sources before after s s' _ hafter hcancelled
    obtain ⟨new, hhanded, hbudget⟩ := Machine.exec_log_le virtualSender (f := VirtualSender.handed)
      (g := fun s => s.pc.owes) (C := fun l => l.agrees true = true)
      (fun _ _ _ hC h => virtualStep_owes hC h) hcancelled hafter
    have hstart := s.pc.owes_le_one
    exact ⟨new, hhanded, by omega⟩

/-- A file of one byte is opened. -/
def openingRun : List SendLabel := [.poll false, .io none, .io none, .poll false]

def virtualOpeningRun : List VirtualLabel :=
  [.common (.poll false), .metadata (.ok ⟨false, "f"⟩), .openFile (.ok [0]),
    .fileMetadata (.ok none), .common (.poll false)]

/-- The token is cancelled while its chunk is being read. -/
def readingRun : List SendLabel := [.read (.ok 1), .send true, .progress 0, .poll true]

theorem prompt_stop_reading :
    (∃ s s', sender.exec (.start [sourceOfOneByte]) openingRun = some s ∧
      sender.exec s readingRun = some s' ∧
      ∃ new, s'.handed = s.handed ++ new ∧ new.length ≤ 1) ∧
    ∃ s s', virtualSender.exec (.start [OsString.ofString "/f"]) virtualOpeningRun = some s ∧
      virtualSender.exec s (readingRun.map .common) = some s' ∧
      ∃ new, s'.handed = s.handed ++ new ∧ new.length ≤ 1 :=
  ⟨⟨_, _, rfl, rfl, prompt_stop.1 [sourceOfOneByte] openingRun readingRun _ _ rfl rfl
      (by unfold Cancelled; decide)⟩,
    ⟨_, _, rfl, rfl, prompt_stop.2 [OsString.ofString "/f"] virtualOpeningRun
      (readingRun.map .common) _ _ rfl rfl (by unfold VirtualCancelled; decide)⟩⟩

end Warpinator
