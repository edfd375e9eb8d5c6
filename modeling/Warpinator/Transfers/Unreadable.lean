import Warpinator.Transfers.Delivery
import Warpinator.Transfers.Stopping
import Warpinator.Transfers.VirtualSender

/-! # Directories That Cannot Be Listed

    The walker of the `real_filesystem` build yields an error item for such a
    directory, and `send_stream_inner` returns `FailedToProcessFiles`.  The
    walker of the `virtual_filesystem` build logs the error and yields the
    directory as an empty one, so that the transfer goes on without it.
    `unreadable_reported_iff` states both. -/

namespace Warpinator

/-! ## Section 1: What ends a run with an error -/

/-- The call returns an error, and the closing update of a transfer that is not
    cancelled leaves it as failed. -/
def EndsInErr (result : Except TransferError Bool) : Prop :=
  ∃ e, result = .error e ∧ sendFinalState result false = .failed e

theorem endsInErr_error (e : TransferError) : EndsInErr (.error e) := ⟨e, rfl, rfl⟩

theorem not_endsInErr_ok (b : Bool) : ¬ EndsInErr (.ok b) := by
  rintro ⟨e, he, _⟩
  cases he

/-- A read fails, or the channel to the peer is closed. -/
def SendLabel.fails : SendLabel → Bool
  | .read (.error _) | .send false => true
  | _ => false

/-- An operation other than a listing fails. -/
def VirtualLabel.fails : VirtualLabel → Bool
  | .common l => l.fails
  | .metadata (.error _) | .openFile (.error _) | .fileMetadata (.error _) => true
  | _ => false

/-- A listing fails. -/
def VirtualLabel.unlisted : VirtualLabel → Bool
  | .listDir (.error _) => true
  | _ => false

/-- The step fails in an operation other than a listing, or finds a source whose
    path is not Unicode. -/
def VirtualSender.breaksOff (s : VirtualSender) (l : VirtualLabel) : Bool :=
  l.fails || match s.pc with
    | .sourcePoll source _ => source.toStr.isNone
    | _ => false

/-! ## Section 2: The build over a virtual file system -/

/-- A point of `send_file_inner` with nothing to do after it. -/
inductive InFile : SendPc → Prop where
  | filePoll (file : FileLoop) : InFile (.filePoll file (.nextSource []))
  | readFile (file : FileLoop) : InFile (.readFile file (.nextSource []))
  | sendFile (chunk : FileChunk) (file : FileLoop) :
      InFile (.sendFile chunk file (.nextSource []))
  | progress (bytes : Nat) (file : FileLoop) : InFile (.progress bytes file (.nextSource []))

def VirtualSender.Sound (s : VirtualSender) : Prop :=
  ∀ pc queue rest, s.pc = .inFile pc queue rest → InFile pc

/-- A point that is no error and that a sound run can be at. -/
def VirtualPc.GoesOn (pc : VirtualPc) : Prop :=
  (∀ e, pc ≠ .returned (.error e)) ∧ ∀ p queue rest, pc = .inFile p queue rest → InFile p

section points

variable (queue : List WalkDirEntry) (rest : List PathBuf)

theorem virtualSourceLoop_goesOn : (virtualSourceLoop rest).GoesOn := by
  cases rest with
  | nil => exact ⟨by simp [virtualSourceLoop], by simp [virtualSourceLoop]⟩
  | cons source rest => exact ⟨by simp [virtualSourceLoop], by simp [virtualSourceLoop]⟩

theorem virtualWalkNext_goesOn : (virtualWalkNext queue rest).GoesOn := by
  cases queue with
  | nil => exact virtualSourceLoop_goesOn rest
  | cons e queue =>
    unfold virtualWalkNext
    dsimp only
    split
    · exact ⟨by simp, by simp⟩
    · exact ⟨by simp, by simp⟩

theorem virtualEnterSource_goesOn (source : String) (m : VirtualMetadata) :
    (virtualEnterSource source m rest).GoesOn := by
  unfold virtualEnterSource
  split
  · exact virtualWalkNext_goesOn _ _
  · exact ⟨by simp, by simp⟩

theorem virtualEnterEntry_goesOn (e : WalkDirEntry) : (virtualEnterEntry e queue rest).GoesOn := by
  unfold virtualEnterEntry
  split
  · exact ⟨by simp, by simp⟩
  · exact ⟨by simp, by simp⟩

/-- `send_file_inner` returns an error exactly if an operation fails. -/
theorem virtualFileLoop_view {pc pc' : SendPc} {l : SendLabel} {cs : List FileChunk}
    (hpc : InFile pc) (hmove : SendMove pc l pc' cs) :
    (l.fails = true ∧ ∃ e, virtualFileLoop queue rest pc' = .returned (.error e)) ∨
      (l.fails = false ∧ (virtualFileLoop queue rest pc').GoesOn) := by
  have hin : ∀ {p : SendPc}, InFile p → virtualFileLoop queue rest p = .inFile p queue rest :=
    fun h => by cases h <;> rfl
  have hstays : ∀ {p : SendPc}, InFile p → (virtualFileLoop queue rest p).GoesOn := by
    intro p h
    rw [hin h]
    refine ⟨by simp, fun p' queue' rest' heq => ?_⟩
    cases heq
    exact h
  -- one case for each program point of the read loop
  cases hpc with
  | filePoll file =>
    cases hmove with
    | fileCancelled => exact .inr ⟨rfl, virtualWalkNext_goesOn queue rest⟩
    | filePolled => exact .inr ⟨rfl, hstays (.readFile file)⟩
  | readFile file =>
    cases hmove with
    | readFailed file cont e => exact .inl ⟨rfl, _, rfl⟩
    | readEof _ _ _ => exact .inr ⟨rfl, virtualWalkNext_goesOn queue rest⟩
    | readBytes _ _ n => exact .inr ⟨rfl, hstays (.sendFile _ _)⟩
  | sendFile chunk file =>
    cases hmove with
    | chunkSent => exact .inr ⟨rfl, hstays (.progress _ _)⟩
    | chunkRefused => exact .inl ⟨rfl, _, rfl⟩
  | progress bytes file =>
    cases hmove with
    | progressed => exact .inr ⟨rfl, hstays (.filePoll _)⟩

end points

/-- A step returns an error exactly if it breaks off; a listing that fails does not. -/
theorem virtualStep_view {s s' : VirtualSender} {l : VirtualLabel} (h : s.step l = some s')
    (hs : s.Sound) (hpoll : l ≠ .common (.poll true)) :
    (s.breaksOff l = true ∧ ∃ e, s'.pc = .returned (.error e)) ∨
      (s.breaksOff l = false ∧ s'.pc.GoesOn) := by
  unfold VirtualSender.breaksOff
  unfold VirtualSender.step at h
  split at h
  · next source rest cancelled hpc =>
    cases cancelled with
    | true => exact absurd rfl hpoll
    | false =>
      simp only [Bool.false_eq_true, if_false] at h
      split at h
      · next hnone => cases h; exact .inl ⟨by simp [hpc, hnone], _, rfl⟩
      · next hsome =>
        cases h
        exact .inr ⟨by simp [hpc, hsome, VirtualLabel.fails, SendLabel.fails], by simp, by simp⟩
  · next hpc =>
    split at h
    · cases h; exact .inl ⟨rfl, _, rfl⟩
    · cases h; exact .inr ⟨by simp [hpc, VirtualLabel.fails], virtualEnterSource_goesOn _ _ _⟩
  · next hpc =>
    -- the walk goes on, whatever the listing has answered
    cases h
    exact .inr ⟨by simp [hpc, VirtualLabel.fails], by simp, by simp⟩
  · next entry queue rest cancelled hpc =>
    cases cancelled with
    | true => exact absurd rfl hpoll
    | false =>
      simp only [Bool.false_eq_true, if_false] at h
      cases h
      exact .inr ⟨by simp [hpc, VirtualLabel.fails, SendLabel.fails],
        virtualEnterEntry_goesOn _ _ _⟩
  · next chunk queue rest accepted hpc =>
    cases accepted with
    | true =>
      cases h
      exact .inr ⟨by simp [hpc, VirtualLabel.fails, SendLabel.fails], virtualWalkNext_goesOn _ _⟩
    | false => cases h; exact .inl ⟨rfl, _, rfl⟩
  · next hpc =>
    split at h
    · cases h; exact .inl ⟨rfl, _, rfl⟩
    · cases h; exact .inr ⟨by simp [hpc, VirtualLabel.fails], by simp, by simp⟩
  · next hpc =>
    split at h
    · cases h; exact .inl ⟨rfl, _, rfl⟩
    · cases h
      refine .inr ⟨by simp [hpc, VirtualLabel.fails], by simp, fun p queue rest heq => ?_⟩
      cases heq
      exact .filePoll _
  · next pc queue rest l hpc =>
    obtain ⟨t, hstep, heq⟩ := Option.map_eq_some_iff.1 h
    cases heq
    obtain ⟨cs, _, hmove⟩ := sendStep_move hstep
    rcases virtualFileLoop_view queue rest (hs _ _ _ hpc) hmove with hview | hview
    · exact .inl ⟨by simp [VirtualLabel.fails, hview.1], hview.2⟩
    · exact .inr ⟨by simp [hpc, VirtualLabel.fails, hview.1], hview.2⟩
  · cases h

/-- Each step of the run goes on. -/
def VirtualGoesOn (s : VirtualSender) (l : VirtualLabel) : Prop := s.breaksOff l = false

section runs

variable {s s' : VirtualSender} {ls : List VirtualLabel} {result : Except TransferError Bool}

theorem virtual_returned_stays {r : Except TransferError Bool} (hpc : s.pc = .returned r)
    (hrun : virtualSender.exec s ls = some s') : ls = [] ∧ s' = s := by
  cases ls with
  | nil => exact ⟨rfl, (Option.some.inj hrun).symm⟩
  | cons l ls =>
    obtain ⟨t, hstep, _⟩ := (Machine.exec_cons _).1 hrun
    have hstep : s.step l = some t := hstep
    simp [VirtualSender.step, hpc] at hstep

/-- A run that is not cancelled returns an error exactly if a step breaks off. -/
theorem virtual_endsInErr_iff (hrun : virtualSender.exec s ls = some s')
    (hret : s'.pc = .returned result) (hpolls : .common (.poll true) ∉ ls) (hs : s.Sound)
    (hgoes : ∀ e, s.pc ≠ .returned (.error e)) :
    EndsInErr result ↔ ¬ virtualSender.Along VirtualGoesOn s ls := by
  induction ls generalizing s with
  | nil =>
    obtain rfl := Option.some.inj hrun
    refine iff_of_false ?_ fun h => h trivial
    rintro ⟨e, rfl, _⟩
    exact hgoes e hret
  | cons l ls ih =>
    rw [List.mem_cons, not_or] at hpolls
    obtain ⟨t, hstep, hrest⟩ := (Machine.exec_cons _).1 hrun
    have hstep : s.step l = some t := hstep
    rcases virtualStep_view hstep hs (Ne.symm hpolls.1) with ⟨hbreaks, e, he⟩ | ⟨hnot, hgoesOn⟩
    · obtain ⟨_, rfl⟩ := virtual_returned_stays he hrest
      obtain rfl : .error e = result := VirtualPc.returned.inj (he.symm.trans hret)
      refine iff_of_true (endsInErr_error e) fun h => ?_
      have hnot : s.breaksOff l = false := h.1
      rw [hbreaks] at hnot
      cases hnot
    · rw [ih hrest hpolls.2 hgoesOn.2 hgoesOn.1, not_iff_not]
      constructor
      · refine fun h => ⟨hnot, fun u hu => ?_⟩
        obtain rfl : t = u := Option.some.inj (hstep.symm.trans hu)
        exact h
      · exact fun h => h.2 t hstep

end runs

/-! ## Section 3: The build over the real file system -/

/-- The walker yields an error item. -/
def SendLabel.unlisted : SendLabel → Bool
  | .next fault => fault
  | _ => false

/-- An error item is all that the next poll finds. -/
theorem endsInErr_of_error_item {s s' : Sender} {ls : List SendLabel}
    {result : Except TransferError Bool} {base : Path} {entries : List WalkEntry}
    {rest : List Source} (hpc : s.pc = .walkPoll base none entries rest)
    (hrun : sender.exec s ls = some s') (hret : s'.pc = .returned result)
    (hpolls : .poll true ∉ ls) : EndsInErr result := by
  obtain ⟨l, ls', t, cs, rfl, hmove, hrest⟩ := first_move (by simp [hpc]) hrun hret
  rw [hpc] at hmove
  generalize htpc : t.pc = pc at hmove
  cases hmove with
  | walkCancelled => exact absurd List.mem_cons_self hpolls
  | walkError =>
    obtain ⟨_, rfl⟩ := returned_stays htpc hrest
    obtain rfl := SendPc.returned.inj (htpc.symm.trans hret)
    exact endsInErr_error _

/-- A run that is not cancelled and meets an error item returns an error. -/
theorem endsInErr_of_unlisted {s s' : Sender} {ls : List SendLabel}
    {result : Except TransferError Bool} (hrun : sender.exec s ls = some s')
    (hret : s'.pc = .returned result) (hpolls : .poll true ∉ ls)
    (hmeets : ls.any SendLabel.unlisted = true) : EndsInErr result := by
  induction ls generalizing s with
  | nil => cases hmeets
  | cons l ls ih =>
    rw [List.mem_cons, not_or] at hpolls
    obtain ⟨t, hstep, hrest⟩ := (Machine.exec_cons _).1 hrun
    rw [List.any_cons, Bool.or_eq_true] at hmeets
    rcases hmeets with hl | hlater
    · obtain ⟨cs, _, hmove⟩ := sendStep_move hstep
      generalize hpc : s.pc = pc at hmove
      generalize htpc : t.pc = pc' at hmove
      cases hmove with
      | walkFailed => exact endsInErr_of_error_item htpc hrest hret hpolls.2
      | _ => cases hl
    · exact ih hrest hpolls.2 hlater

/-! ## Section 4: Both builds -/

theorem virtual_start_sound (sources : List PathBuf) : (VirtualSender.start sources).Sound :=
  (virtualSourceLoop_goesOn sources).2

/-- A run of `send_stream_inner` to its end, in either build, that is not
    cancelled. -/
inductive FinishedSend where
  | realFilesystem (sources : List Source) (ls : List SendLabel) (s' : Sender)
      (result : Except TransferError Bool) (exec : sender.exec (.start sources) ls = some s')
      (returned : s'.pc = .returned result) (polls : .poll true ∉ ls)
  | virtualFilesystem (sources : List PathBuf) (ls : List VirtualLabel) (s' : VirtualSender)
      (result : Except TransferError Bool)
      (exec : virtualSender.exec (.start sources) ls = some s')
      (returned : s'.pc = .returned result) (polls : .common (.poll true) ∉ ls)

namespace FinishedSend

def result : FinishedSend → Except TransferError Bool
  | .realFilesystem _ _ _ result _ _ _ => result
  | .virtualFilesystem _ _ _ result _ _ _ => result

/-- A directory of the run cannot be listed. -/
def unlisted : FinishedSend → Bool
  | .realFilesystem _ ls _ _ _ _ _ => ls.any SendLabel.unlisted
  | .virtualFilesystem _ ls _ _ _ _ _ => ls.any VirtualLabel.unlisted

/-- The build is the one over the real file system, all directories are listed, or
    something else ends the run early. -/
def Reports : FinishedSend → Prop
  | .realFilesystem .. => True
  | .virtualFilesystem sources ls _ _ _ _ _ =>
    ls.any VirtualLabel.unlisted = false ∨
      ¬ virtualSender.Along VirtualGoesOn (.start sources) ls

end FinishedSend

/-- The build over the real file system reports every directory that it cannot
    list.  The one over a virtual file system does so exactly if it returns early
    for another reason. -/
theorem unreadable_reported_iff (r : FinishedSend) :
    (r.unlisted = true → EndsInErr r.result) ↔ r.Reports := by
  cases r with
  | realFilesystem sources ls s' result hrun hret hpolls =>
    exact iff_of_true (fun hmeets => endsInErr_of_unlisted hrun hret hpolls hmeets) trivial
  | virtualFilesystem sources ls s' result hrun hret hpolls =>
    have hends := virtual_endsInErr_iff hrun hret hpolls (virtual_start_sound sources)
      (virtualSourceLoop_goesOn sources).1
    show (ls.any VirtualLabel.unlisted = true → EndsInErr result) ↔
      (ls.any VirtualLabel.unlisted = false ∨ _)
    rw [hends]
    cases ls.any VirtualLabel.unlisted with
    | true => simp
    | false => simp

instance {s : VirtualSender} {l : VirtualLabel} : Decidable (VirtualGoesOn s l) :=
  inferInstanceAs (Decidable (s.breaksOff l = false))

/-- The directory `/s` cannot be listed. -/
def unlistedRun : List SendLabel := [.poll false, .io none, .next true, .poll false]

/-- As `unlistedRun`, and the channel to the peer is closed. -/
def virtualUnlistedRun (accepted : Bool) : List VirtualLabel :=
  [.common (.poll false), .metadata (.ok ⟨true, "s"⟩), .listDir (.error .permissionDenied),
    .common (.poll false), .common (.send accepted)]

/-- Both builds report the directory `/s`, the one over a virtual file system
    because the channel is closed. -/
theorem unreadable_reported :
    (∃ s' result, sender.exec (.start [smallSource]) unlistedRun = some s' ∧
      s'.pc = .returned result ∧ EndsInErr result) ∧
    ∃ s' result, virtualSender.exec (.start [OsString.ofString "/s"]) (virtualUnlistedRun false) =
      some s' ∧ s'.pc = .returned result ∧ EndsInErr result := by
  have hreal : ∃ s', sender.exec (.start [smallSource]) unlistedRun = some s' ∧
      s'.pc = .returned (.error .failedToProcessFiles) := ⟨_, rfl, rfl⟩
  have hvirtual : ∃ s', virtualSender.exec (.start [OsString.ofString "/s"])
      (virtualUnlistedRun false) = some s' ∧ s'.pc = .returned (.error .connectionLost) :=
    ⟨_, rfl, rfl⟩
  obtain ⟨s, hrun, hret⟩ := hreal
  obtain ⟨t, hrun', hret'⟩ := hvirtual
  have hcloses : ¬ virtualSender.Along VirtualGoesOn (.start [OsString.ofString "/s"])
      (virtualUnlistedRun false) := by decide
  constructor
  · refine ⟨s, _, hrun, hret, ?_⟩
    exact (unreadable_reported_iff (.realFilesystem _ _ _ _ hrun hret (by simp [unlistedRun]))).2
      trivial rfl
  · refine ⟨t, _, hrun', hret', ?_⟩
    exact (unreadable_reported_iff (.virtualFilesystem _ _ _ _ hrun' hret'
      (by simp [virtualUnlistedRun]))).2 (.inr hcloses) rfl

/-- The directory `/s` cannot be listed, and the transfer completes without its
    contents. -/
theorem unlisted_directory_completes :
    ∃ s', virtualSender.exec (.start [OsString.ofString "/s"]) (virtualUnlistedRun true) = some s' ∧
      s'.pc = .returned (.ok true) ∧ .common (.poll true) ∉ virtualUnlistedRun true ∧
      (virtualUnlistedRun true).any VirtualLabel.unlisted = true ∧
      ¬ EndsInErr (.ok true) ∧ sendFinalState (.ok true) false = .completed :=
  ⟨_, rfl, rfl, by simp [virtualUnlistedRun], rfl, not_endsInErr_ok true, rfl⟩

end Warpinator
