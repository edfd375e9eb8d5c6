import Warpinator.Transfers.Ending
import Warpinator.Transfers.Totals

/-! # The Progress of a Transfer

    Both sides of a transfer count the bytes that they have handed over or
    written, and show the sum as `bytes_transferred`.

    The two counts never run ahead of the bytes on their way
    (`Link.Accounted`): however the run goes, neither side shows more than the
    sources hold, and the receiver no more than the sender has handed over. -/

namespace Warpinator

/-! ## Section 1: Updates and chunks -/

@[simp] theorem progressBytes_nil : progressBytes [] = 0 := rfl

@[simp] theorem progressBytes_append (ps ps' : List Progress) :
    progressBytes (ps ++ ps') = progressBytes ps + progressBytes ps' := by
  simp [progressBytes]

@[simp] theorem progressBytes_singleton (p : Progress) : progressBytes [p] = p.bytes := by
  simp [progressBytes]

/-- A sender only adds to its updates. -/
theorem sendStep_progress {s s' : Sender} {l : SendLabel} (h : sendStep s l = some s') :
    ∃ new, s'.progress = s.progress ++ new := by
  have still : ∀ {pc : SendPc} {handed : List FileChunk},
      some { s with pc := pc, handed := handed } = some s' →
      ∃ new, s'.progress = s.progress ++ new := by
    rintro pc handed ⟨⟩
    exact ⟨[], (List.append_nil _).symm⟩
  unfold sendStep at h
  split at h
  · split at h
    · exact still h
    · split at h <;> exact still h
  · split at h <;> exact still h
  · split at h
    · exact still h
    · split at h <;> exact still h
  · split at h
    · exact still h
    · split at h <;> exact still h
  · split at h <;> exact still h
  · split at h <;> exact still h
  · split at h <;> exact still h
  · split at h <;> exact still h
  · split at h
    · exact still h
    · split at h
      · exact still h
      · cases h
    · split at h
      · exact still h
      · cases h
  · split at h <;> exact still h
  · cases h
    exact ⟨_, rfl⟩
  · cases h

/-- Between a chunk and its progress update the sender does nothing else. -/
theorem SendMove.unrecorded_le {pc pc' : SendPc} {l : SendLabel} {cs : List FileChunk}
    (h : SendMove pc l pc' cs) (hwf : pc.WellFormed) : pc'.unrecorded ≤ chunkSize := by
  cases h with
  | sourceEntered base source rest => rw [enterSource_unrecorded]; exact Nat.zero_le _
  | walkDone base rest => rw [sourceLoop_unrecorded]; exact Nat.zero_le _
  | entryEntered base e entries rest => rw [enterEntry_unrecorded]; exact Nat.zero_le _
  | dirSent chunk cont => rw [resume_unrecorded]; exact Nat.zero_le _
  | fileCancelled file cont => rw [resume_unrecorded]; exact Nat.zero_le _
  | readEof file cont _ => rw [resume_unrecorded]; exact Nat.zero_le _
  | chunkSent chunk file cont => exact hwf.2.2.1
  | _ => exact Nat.zero_le _

/-- A call that returns `Ok` has recorded at most `n` bytes, any other none. -/
def Outcome.Records (r : Receiver) (n : Nat) : Outcome Receiver → Prop
  | .ok r' => ∃ new, r'.progress = r.progress ++ new ∧ progressBytes new ≤ n
  | .err _ r' => r'.progress = r.progress
  | .panic r' => r'.progress = r.progress

theorem writeChunk_records (ans : IoAnswers) (data : List UInt8) (r : Receiver) :
    (writeChunk ans data r).Records r data.length := by
  unfold writeChunk
  split
  · exact ⟨[], (List.append_nil _).symm, Nat.zero_le _⟩
  · split
    · rfl
    · exact ⟨_, rfl, by simp⟩

theorem Outcome.Records.of_progress {r r₁ : Receiver} {n : Nat} {o : Outcome Receiver}
    (h : o.Records r₁ n) (hprogress : r₁.progress = r.progress) : o.Records r n := by
  cases o with
  | ok r' =>
    obtain ⟨new, hnew, hbytes⟩ := h
    exact ⟨new, by rw [hnew, hprogress], hbytes⟩
  | err e r' => exact Eq.trans h hprogress
  | panic r' => exact Eq.trans h hprogress

theorem finalizeCurrentFile_progress (checks : Bool) (fault : Option IoErrorKind) (r : Receiver) :
    (finalizeCurrentFile checks fault r).state.progress = r.progress := by
  unfold finalizeCurrentFile
  split
  · rfl
  · split
    · split <;> rfl
    · rfl

theorem openTarget_records (ans : IoAnswers) (chunk : FileChunk) (target : PathBuf)
    (r : Receiver) : (openTarget ans chunk target r).Records r chunk.chunk.length := by
  unfold openTarget
  split
  · exact ⟨[], (List.append_nil _).symm, Nat.zero_le _⟩
  · split
    · rfl
    · next file disk _ =>
      exact writeChunk_records ans chunk.chunk
        { r with state := { r.state with currentFile := some file }, disk := disk }

/-- A chunk adds the bytes that it brings at most. -/
theorem processChunk_records (checks : Bool) (destination : PathBuf) (ans : IoAnswers)
    (chunk : FileChunk) (r : Receiver) :
    (processChunk checks destination ans chunk r).Records r chunk.chunk.length := by
  unfold processChunk
  split
  · exact ⟨[], (List.append_nil _).symm, Nat.zero_le _⟩
  dsimp only
  split
  · rfl
  split
  · exact writeChunk_records ans chunk.chunk r
  -- a new path: the file before it is finalized, which records nothing
  have hfin := finalizeCurrentFile_progress checks ans.finalize r
  cases hout : finalizeCurrentFile checks ans.finalize r with
  | err e r₁ => rw [hout] at hfin; exact hfin
  | panic r₁ => rw [hout] at hfin; exact hfin
  | ok r₁ =>
    rw [hout] at hfin
    exact (openTarget_records ans chunk _ _).of_progress hfin

/-! ## Section 2: Records -/

/-- The bytes that a record shows. -/
def Host.shownBytes (host : Host) (remoteUuid transferUuid : String) : Option Nat :=
  (host.transfer remoteUuid transferUuid).map Transfer.bytesTransferred

theorem shownBytes_updateTransfer (host : Host) (k u : String) (queued : Nat) (f : TransferUpdate) :
    (host.updateTransfer queued k u f).2.shownBytes k u
      = (host.transfer k u).map fun t => (f.apply t).bytesTransferred := by
  unfold Host.shownBytes
  rw [Host.transfer_updateTransfer, if_pos ⟨rfl, rfl⟩, Option.map_map]
  rfl

/-- A record shows what has been recorded in it. -/
theorem shownBytes_recordProgress (host : Host) (queued : Nat) (k u : String)
    (before new : List Progress) :
    (host.recordProgress queued k u before (before ++ new)).shownBytes k u
      = (host.shownBytes k u).map (· + progressBytes new) := by
  unfold Host.recordProgress
  rw [List.drop_left]
  induction new generalizing host with
  | nil => simp
  | cons p ps ih =>
    rw [List.foldl_cons, ih, shownBytes_updateTransfer, Option.map_map]
    unfold Host.shownBytes
    rw [Option.map_map]
    congr 1
    funext t
    simp only [Function.comp, TransferUpdate.progress, Progress.apply, progressBytes,
      List.map_cons, List.sum_cons]
    omega

/-- The record of a sending task shows the updates that the task has issued. -/
def SendTask.Shown (base : Nat) (host : Host) (task : SendTask) : Prop :=
  host.shownBytes task.remoteUuid task.transferUuid
    = some (base + progressBytes task.sender.progress)

def ReceiveTask.Shown (base : Nat) (host : Host) (task : ReceiveTask) : Prop :=
  host.shownBytes task.remoteUuid task.transferUuid
    = some (base + progressBytes task.receiver.progress)

theorem SendTask.step_shown {base : Nat} {host host' : Host} {task task' : SendTask}
    {ans : Answer} (hstep : task.step host ans = some (host', task'))
    (h : task.Shown base host) : task'.Shown base host' := by
  unfold SendTask.Shown at h ⊢
  cases SendTask.step_move hstep with
  | inner l queued sender hphase _ hsend =>
    obtain ⟨new, hnew⟩ := sendStep_progress hsend
    dsimp only
    rw [hnew, shownBytes_recordProgress, h, progressBytes_append]
    simp [Nat.add_assoc]
  | decide queued result hphase hpc => exact h
  | close queued finalState hphase =>
    dsimp only
    rw [shownBytes_updateTransfer]
    exact h
  | leave queued hphase => exact h

/-! ## Section 3: What the receiver shows -/

/-- The bytes that an event brings. -/
def StreamEvent.bytes : StreamEvent → Nat
  | .message _ chunk => chunk.chunk.length
  | _ => 0

def Answer.bytes : Answer → Nat
  | .receive event _ _ => event.bytes
  | _ => 0

/-- A round that goes on has recorded at most what the event brought, and one
    that leaves the loop nothing. -/
theorem receiveRound_records (checks : Bool) (destination : PathBuf) (fault : Option IoErrorKind)
    (r : Receiver) (event : StreamEvent) :
    (∃ r' new, receiveRound checks destination fault r event = .again r' ∧
      r'.progress = r.progress ++ new ∧ progressBytes new ≤ event.bytes) ∨
    ∃ r', ((∃ result, receiveRound checks destination fault r event = .done result r') ∨
      receiveRound checks destination fault r event = .panic r') ∧ r'.progress = r.progress := by
  have hleave : ∀ result, ∃ r', ((∃ result', leaveLoop checks fault result r = .done result' r') ∨
      leaveLoop checks fault result r = .panic r') ∧ r'.progress = r.progress := by
    intro result
    have hfin := finalizeCurrentFile_progress checks fault r
    unfold leaveLoop
    cases hout : finalizeCurrentFile checks fault r with
    | ok r₁ => rw [hout] at hfin; exact ⟨r₁, .inl ⟨_, rfl⟩, hfin⟩
    | err e r₁ => rw [hout] at hfin; exact ⟨r₁, .inl ⟨_, rfl⟩, hfin⟩
    | panic r₁ => rw [hout] at hfin; exact ⟨r₁, .inr rfl, hfin⟩
  cases event with
  | cancelled => exact .inr (hleave _)
  | endOfStream => exact .inr (hleave _)
  | streamError => exact .inr (hleave _)
  | message io chunk =>
    have hchunk := processChunk_records checks destination io chunk r
    simp only [receiveRound]
    cases hout : processChunk checks destination io chunk r with
    | ok r' =>
      rw [hout] at hchunk
      obtain ⟨new, hnew, hbytes⟩ := hchunk
      exact .inl ⟨r', new, rfl, hnew, hbytes⟩
    | err e r' => rw [hout] at hchunk; exact .inr ⟨r', .inl ⟨_, rfl⟩, hchunk⟩
    | panic r' => rw [hout] at hchunk; exact .inr ⟨r', .inr rfl, hchunk⟩

/-- A receiving task adds to its record what it adds to its progress, and no
    more than has arrived. -/
theorem ReceiveTask.step_records {host host' : Host} {task task' : ReceiveTask} {ans : Answer}
    (hstep : task.step host ans = some (host', task')) :
    ∃ new, task'.receiver.progress = task.receiver.progress ++ new ∧
      progressBytes new ≤ ans.bytes ∧
      host'.shownBytes task'.remoteUuid task'.transferUuid
        = (host.shownBytes task.remoteUuid task.transferUuid).map (· + progressBytes new) := by
  -- where nothing is recorded
  have none_new : ∀ {r : Receiver}, r.progress = task.receiver.progress →
      ∃ new, r.progress = task.receiver.progress ++ new ∧ progressBytes new ≤ ans.bytes ∧
        host.shownBytes task.remoteUuid task.transferUuid
          = (host.shownBytes task.remoteUuid task.transferUuid).map (· + progressBytes new) :=
    fun hr => ⟨[], by simp [hr], Nat.zero_le _, by simp⟩
  cases ReceiveTask.step_move hstep with
  | again event fault queued r hphase _ hround =>
    rcases receiveRound_records host.checks task.destination fault task.receiver event with
      ⟨r', new, hr', hnew, hbytes⟩ | ⟨r', hr', _⟩
    · obtain rfl : r' = r := by simpa using hr'.symm.trans hround
      refine ⟨new, hnew, hbytes, ?_⟩
      rw [hnew]
      exact shownBytes_recordProgress _ _ _ _ _ _
    · simp [hround] at hr'
  | leave event fault queued result r hphase _ hround =>
    rcases receiveRound_records host.checks task.destination fault task.receiver event with
      ⟨r', new, hr', _⟩ | ⟨r', hr', hprogress⟩
    · simp [hround] at hr'
    · obtain rfl : r = r' := by simpa [hround] using hr'
      exact none_new hprogress
  | panic event fault queued r hphase _ hround =>
    rcases receiveRound_records host.checks task.destination fault task.receiver event with
      ⟨r', new, hr', _⟩ | ⟨r', hr', hprogress⟩
    · simp [hround] at hr'
    · obtain rfl : r = r' := by simpa [hround] using hr'
      exact none_new hprogress
  | close queued finalState hphase =>
    refine ⟨[], by simp, Nat.zero_le _, ?_⟩
    rw [shownBytes_updateTransfer]
    simp only [progressBytes_nil, Nat.add_zero, Option.map_id']
    rfl

theorem ReceiveTask.step_shown {base : Nat} {host host' : Host} {task task' : ReceiveTask}
    {ans : Answer} (hstep : task.step host ans = some (host', task'))
    (h : task.Shown base host) : task'.Shown base host' := by
  obtain ⟨new, hnew, _, hshown⟩ := ReceiveTask.step_records hstep
  unfold ReceiveTask.Shown at h ⊢
  rw [hshown, h, hnew, progressBytes_append, Option.map_some, Nat.add_assoc]

/-! ## Section 4: The two counts of a link -/

/-- What arrives is no more than what the queue gives away. -/
theorem Link.arrives_bytes {s : Link} {ans : Answer} {queue : List FileChunk}
    (h : s.arrives ans = some queue) : ans.bytes + chunkBytes queue ≤ chunkBytes s.queue := by
  unfold Link.arrives at h
  split at h
  · split at h
    · next c rest hqueue =>
      split at h
      · next hc =>
        cases h
        rw [hqueue, hc, chunkBytes_cons]
        exact le_rfl
      · cases h
    · cases h
  · split at h
    · cases h; simp [Answer.bytes, StreamEvent.bytes]
    · cases h
  · split at h
    · cases h; simp [Answer.bytes, StreamEvent.bytes]
    · cases h
  · next hmessage _ _ =>
    cases h
    have hzero : ans.bytes = 0 := by
      cases ans with
      | receive event fault queued =>
        cases event with
        | message io chunk => exact absurd rfl (hmessage io chunk fault queued)
        | _ => rfl
      | _ => rfl
    omega

/-- The bytes on their way through a link. -/
structure Link.Accounted (sources : List Source) (s : Link) : Prop where
  wellFormed : s.sendTask.sender.pc.WellFormed
  /-- What is handed over comes from the sources. -/
  balanced : Balanced sources s.sendTask.sender
  /-- The sender records what it has handed over. -/
  recorded : Recorded s.sendTask.sender
  /-- It is one chunk behind at most. -/
  behind : s.sendTask.sender.pc.unrecorded ≤ chunkSize
  /-- The receiver records what has arrived. -/
  onTheWay : progressBytes s.receiveTask.receiver.progress + chunkBytes s.queue
    ≤ chunkBytes s.sendTask.sender.handed

theorem step_link_accounted {sources : List Source} {s s' : Link} {l : LinkLabel}
    (hstep : s.step l = some s') (h : s.Accounted sources) : s'.Accounted sources := by
  cases l with
  | send ans =>
    simp only [Link.step] at hstep
    split at hstep
    · obtain ⟨⟨host, task⟩, htask, heq⟩ := Option.map_eq_some_iff.1 hstep
      cases heq
      cases SendTask.step_move htask with
      | inner l queued sender hphase _ hsend =>
        obtain ⟨cs, hhanded, hmove⟩ := sendStep_move hsend
        refine ⟨step_wellFormed hsend, step_balanced hsend h.wellFormed h.balanced,
          step_recorded h.wellFormed hsend h.recorded, hmove.unrecorded_le h.wellFormed, ?_⟩
        -- what `tx` takes goes into the queue
        have hway := h.onTheWay
        simp only [hhanded, List.drop_left, chunkBytes_append]
        omega
      | decide queued result _ _ => exact ⟨h.1, h.2, h.3, h.4, by simpa using h.onTheWay⟩
      | close queued finalState _ => exact ⟨h.1, h.2, h.3, h.4, by simpa using h.onTheWay⟩
      | leave queued _ => exact ⟨h.1, h.2, h.3, h.4, by simpa using h.onTheWay⟩
    · cases hstep
  | receive ans =>
    obtain ⟨queue, harrives, hstep⟩ := Option.bind_eq_some_iff.1 hstep
    obtain ⟨⟨host, task⟩, htask, heq⟩ := Option.map_eq_some_iff.1 hstep
    cases heq
    obtain ⟨new, hnew, hle, _⟩ := ReceiveTask.step_records htask
    have hbytes := Link.arrives_bytes harrives
    have hway := h.onTheWay
    refine ⟨h.1, h.2, h.3, h.4, ?_⟩
    simp only [hnew, progressBytes_append]
    omega
  | cancelSender token => cases hstep; exact ⟨h.1, h.2, h.3, h.4, h.5⟩
  | cancelReceiver token => cases hstep; exact ⟨h.1, h.2, h.3, h.4, h.5⟩
  | lose => cases hstep; exact ⟨h.1, h.2, h.3, h.4, h.5⟩

/-- Both records show what their tasks have recorded. -/
structure Link.Shown (sent received : Nat) (s : Link) : Prop where
  sent : s.sendTask.Shown sent s.sender
  received : s.receiveTask.Shown received s.receiver

theorem step_link_shown {sent received : Nat} {s s' : Link} {l : LinkLabel}
    (hstep : s.step l = some s') (h : s.Shown sent received) : s'.Shown sent received := by
  cases l with
  | send ans =>
    simp only [Link.step] at hstep
    split at hstep
    · obtain ⟨⟨host, task⟩, htask, heq⟩ := Option.map_eq_some_iff.1 hstep
      cases heq
      exact ⟨SendTask.step_shown htask h.sent, h.received⟩
    · cases hstep
  | receive ans =>
    obtain ⟨queue, _, hstep⟩ := Option.bind_eq_some_iff.1 hstep
    obtain ⟨⟨host, task⟩, htask, heq⟩ := Option.map_eq_some_iff.1 hstep
    cases heq
    exact ⟨h.sent, ReceiveTask.step_shown htask h.received⟩
  | cancelSender token => cases hstep; exact ⟨h.1, h.2⟩
  | cancelReceiver token => cases hstep; exact ⟨h.1, h.2⟩
  | lose => cases hstep; exact ⟨h.1, h.2⟩

/-- A transfer of which nothing has been moved yet, on both sides. -/
structure FreshSession extends Session where
  fresh : receiveTask.receiver.progress = []
  sentNone : sender.shownBytes sendTask.remoteUuid sendTask.transferUuid = some 0
  receivedNone : receiver.shownBytes receiveTask.remoteUuid receiveTask.transferUuid = some 0

theorem accounted_start (s : FreshSession) : s.start.Accounted s.sources := by
  have hsender : s.start.sendTask.sender = .start s.sources := s.sendTask_start
  refine ⟨?_, ?_, ?_, ?_, ?_⟩
  · rw [hsender]; exact sourceLoop_wellFormed _
  · rw [hsender]; exact balanced_start _
  · rw [hsender]; exact recorded_start _
  · rw [hsender, show (Sender.start s.sources).pc = sourceLoop s.sources from rfl,
      sourceLoop_unrecorded]
    exact Nat.zero_le _
  · show progressBytes s.receiveTask.receiver.progress + chunkBytes [] ≤ _
    rw [s.fresh]
    exact Nat.zero_le _

theorem shown_start (s : FreshSession) : s.start.Shown 0 0 := by
  constructor
  · have hsender : s.start.sendTask.sender = .start s.sources := s.sendTask_start
    unfold SendTask.Shown
    rw [hsender]
    exact s.sentNone
  · show s.receiver.shownBytes _ _ = some (0 + progressBytes s.receiveTask.receiver.progress)
    rw [s.fresh]
    exact s.receivedNone

/-- However a transfer goes, at every moment the sender shows the bytes that it
    has handed over but for the chunk it is at, the receiver shows no more than
    the sender has handed over, and neither shows more than `process_paths` has
    declared. -/
theorem progress_is_earned (s : FreshSession) {ls : List LinkLabel} {s' : Link}
    (hrun : link.exec s.start ls = some s') :
    ∃ sent received, s'.sender.shownBytes s'.sendTask.remoteUuid s'.sendTask.transferUuid
        = some sent ∧
      s'.receiver.shownBytes s'.receiveTask.remoteUuid s'.receiveTask.transferUuid
        = some received ∧
      sent + s'.sendTask.sender.pc.unrecorded = chunkBytes s'.sendTask.sender.handed ∧
      s'.sendTask.sender.pc.unrecorded ≤ chunkSize ∧
      received + chunkBytes s'.queue ≤ chunkBytes s'.sendTask.sender.handed ∧
      ∀ mime first paths (t t' : Transfer), t.processPaths mime first paths = (.ok (), t') →
        SeesTree first paths s.sources → itemBytes (allItems s.sources) < 2 ^ 64 →
        sent ≤ t'.totalBytes ∧ received ≤ t'.totalBytes := by
  have hinv : s'.Accounted s.sources ∧ s'.Shown 0 0 :=
    link.exec_invariant (I := fun s' => s'.Accounted s.sources ∧ s'.Shown 0 0)
      (fun _ _ _ h hs => ⟨step_link_accounted hs h.1, step_link_shown hs h.2⟩)
      ⟨accounted_start s, shown_start s⟩ hrun
  obtain ⟨haccounted, hshown⟩ := hinv
  have hrecorded := haccounted.recorded
  have hbalanced := haccounted.balanced
  have hway := haccounted.onTheWay
  unfold Recorded at hrecorded
  unfold Balanced at hbalanced
  refine ⟨_, _, hshown.sent, hshown.received, by omega, haccounted.behind, by omega, ?_⟩
  intro mime first paths t t' hprocess htree hlt
  obtain ⟨htotal, _⟩ := processPaths_totals htree hprocess
  have hbytes : (bytesOf (allItems s.sources)).toNat = itemBytes (allItems s.sources) := by
    rw [bytesOf, BitVec.toNat_ofNat, Nat.mod_eq_of_lt hlt]
  omega

/-- The session of one byte, with empty records. -/
def freshOneByte : FreshSession where
  toSession := oneByteSession
  fresh := rfl
  sentNone := by decide
  receivedNone := by decide

/-- The byte has arrived, and the sender has not recorded it yet. -/
theorem progress_is_earned_midway :
    ∃ s', link.exec freshOneByte.start (wholeRun.take 7) = some s' ∧
      ∃ sent received, s'.sender.shownBytes s'.sendTask.remoteUuid s'.sendTask.transferUuid
          = some sent ∧
        s'.receiver.shownBytes s'.receiveTask.remoteUuid s'.receiveTask.transferUuid
          = some received ∧
        sent + s'.sendTask.sender.pc.unrecorded = chunkBytes s'.sendTask.sender.handed ∧
        received + chunkBytes s'.queue ≤ chunkBytes s'.sendTask.sender.handed := by
  obtain ⟨s', hrun⟩ : ∃ s', link.exec freshOneByte.start (wholeRun.take 7) = some s' := ⟨_, rfl⟩
  obtain ⟨sent, received, hsent, hreceived, hhanded, _, hway, _⟩ :=
    progress_is_earned freshOneByte hrun
  exact ⟨s', hrun, sent, received, hsent, hreceived, hhanded, hway⟩

end Warpinator
