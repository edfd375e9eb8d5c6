import Warpinator.Server.Ordering

/-! # What the Events Tell

    Every operation of the manager sends an event about what it has changed, but
    `update_transfer` drops its event while 128 or more are queued and the
    discriminant of the state stays the same.

    `RemoteManager.Tells` says that a write has sent an event about every
    transfer that it has changed.  `activity_speaks` sorts the steps of an
    instance by it: they tell, or make progress, or make one other update, or
    panic. -/

namespace Warpinator

/-! ## Section 1: Updates that may be dropped -/

/-- What is compared of a transfer and its copy. -/
def Transfer.shown (t : Transfer) : TransferState × Nat × Nat :=
  (t.state, t.bytesTransferred, t.bytesPerSecond)

/-- The remote and the transfer that an event names. -/
def WarpEvent.transfer : WarpEvent → Option (String × String)
  | .transferAdded remoteUuid transferUuid => some (remoteUuid, transferUuid)
  | .transferUpdated remoteUuid transferUuid => some (remoteUuid, transferUuid)
  | .transferRemoved remoteUuid transferUuid => some (remoteUuid, transferUuid)
  | _ => none

/-- The streaming task has its closing update of the transfer ahead. -/
def Activity.streamsTo (k u : String) : Activity → Bool
  | .call (.sendStream task) =>
    match task.phase with
    | .inner | .closing _ => task.remoteUuid == k && task.transferUuid == u
    | _ => false
  | .call (.receiveStream task) =>
    match task.phase with
    | .inner | .closing _ => task.remoteUuid == k && task.transferUuid == u
    | _ => false
  | _ => false

/-- A streaming task that has not closed its transfer. -/
def Activity.isStreaming : Activity → Bool
  | .call (.sendStream task) =>
    match task.phase with
    | .inner | .closing _ => true
    | _ => false
  | .call (.receiveStream task) =>
    match task.phase with
    | .inner | .closing _ => true
    | _ => false
  | _ => false

/-- The update of a transfer, other than progress, that the next step makes. -/
def Activity.updates : Activity → Option (String × String × TransferUpdate)
  | .call (.startTransfer (.update t _ _)) => some (t.remoteUuid, t.uuid, .setState .inProgress)
  | .call (.peerStopTransfer (.update t s)) => some (t.remoteUuid, t.uuid, .setState s)
  | .call (.cancelTransferOpRequest (.update t s)) => some (t.remoteUuid, t.uuid, .setState s)
  | .call (.sendTransferRequest w (.announce t)) => some (w.uuid, t.uuid, .announce t)
  | .call (.sendTransferRequest w (.abort t _)) =>
    some (w.uuid, t.uuid, .setState (.failed .failedToProcessFiles))
  | .call (.acceptTransfer w (.update u destination)) => some (w.uuid, u, .accept destination)
  | .call (.stopTransfer w _ (.update u s)) => some (w.uuid, u, .setState s)
  | .call (.cancelTransfer w (.update u s)) => some (w.uuid, u, .setState s)
  | .call (.sendStream task) =>
    match task.phase with
    | .closing s => some (task.remoteUuid, task.transferUuid, .finishSend s)
    | _ => none
  | .call (.receiveStream task) =>
    match task.phase with
    | .closing s => some (task.remoteUuid, task.transferUuid, .finishReceive s)
    | _ => none
  | _ => none

/-- The transfer whose receiving task panics in the next step. -/
def Activity.panics (i : Instance) (ans : ActivityAnswer) : Activity → Option (String × String)
  | .call (.receiveStream task) =>
    match task.phase, ans with
    | .inner, .call (.receive event fault _) =>
      match receiveRound i.host.checks task.destination fault task.receiver event with
      | .panic _ => some (task.remoteUuid, task.transferUuid)
      | _ => none
    | _, _ => none
  | _ => none

/-- `update_transfer` sends its event. -/
def TransferUpdate.Published (f : TransferUpdate) (queued : Nat) (t : Transfer) : Prop :=
  queued < 128 ∨ (f.apply t).state.discriminant ≠ t.state.discriminant

instance (f : TransferUpdate) (queued : Nat) (t : Transfer) : Decidable (f.Published queued t) :=
  inferInstanceAs (Decidable (_ ∨ _))

/-! ## Section 2: What a write tells -/

namespace RemoteManager

/-- Every transfer shows what it showed before or is named by a new event,
    except those in `silent`. -/
structure Tells (m m' : RemoteManager) (silent : String → String → Prop) : Prop where
  told : ∃ es, m'.events = m.events ++ es ∧ (∀ k u, .transferRemoved k u ∉ es) ∧
    ∀ k u t', m'.transfer k u = some t' → ¬ silent k u →
      (∃ t, m.transfer k u = some t ∧ t'.shown = t.shown) ∨
        ∃ event ∈ es, event.transfer = some (k, u)

variable {m m' m'' : RemoteManager} {silent : String → String → Prop}

theorem Tells.of_same (hevents : m'.events = m.events)
    (hsame : ∀ k u, m'.transfer k u = m.transfer k u) : m.Tells m' silent where
  told := by
    refine ⟨[], by rw [hevents, List.append_nil], by simp, fun k u t' ht' _ => .inl ⟨t', ?_, rfl⟩⟩
    rw [← hsame]
    exact ht'

theorem Tells.refl (m : RemoteManager) : m.Tells m silent := .of_same rfl fun _ _ => rfl

/-- A write with one event, which changes at most the transfer it names. -/
theorem Tells.of_event (event : WarpEvent) (hevents : m'.events = m.events ++ [event])
    (hnot : ∀ k u, event ≠ .transferRemoved k u)
    (hsame : ∀ k u, event.transfer ≠ some (k, u) →
      ∀ t', m'.transfer k u = some t' → m.transfer k u = some t') : m.Tells m' silent where
  told := by
    refine ⟨[event], hevents, fun k u hmem => hnot k u (List.mem_singleton.1 hmem).symm,
      fun k u t' ht' _ => ?_⟩
    by_cases hnames : event.transfer = some (k, u)
    · exact .inr ⟨event, List.mem_singleton_self _, hnames⟩
    · exact .inl ⟨t', hsame k u hnames t' ht', rfl⟩

theorem transfer_of_remote (k u : String) :
    m.transfer k u = (m.remote k).bind fun r => r.transfers.find? fun t => t.uuid = u := rfl

/-- The transfers of a remote stay, whatever else a write does to it. -/
theorem transfer_of_content (hcontent : ∀ k,
    (m'.remote k).map Remote.transfers = (m.remote k).map Remote.transfers) (k u : String) :
    m'.transfer k u = m.transfer k u := by
  have hk := hcontent k
  rw [transfer_of_remote, transfer_of_remote]
  cases hr' : m'.remote k with
  | none =>
    rw [hr'] at hk
    have hr : m.remote k = none := Option.map_eq_none_iff.1 hk.symm
    rw [hr]
  | some r' =>
    rw [hr'] at hk
    obtain ⟨r, hr, heq⟩ := Option.map_eq_some_iff.1 hk.symm
    rw [hr]
    simp [heq]

theorem tells_setRemote {k : String} {r r' : Remote} (event : WarpEvent) (hr : m.remote k = some r)
    (hnot : ∀ k u, event ≠ .transferRemoved k u)
    (hsame : ∀ u, event.transfer ≠ some (k, u) →
      ∀ t', r'.transfers.find? (fun t => t.uuid = u) = some t' →
        r.transfers.find? (fun t => t.uuid = u) = some t') :
    m.Tells (m.setRemote k r' event) silent := by
  refine .of_event event rfl hnot fun k' u hnames t' ht' => ?_
  rw [transfer_of_remote, remote_setRemote] at ht'
  rw [transfer_of_remote]
  by_cases hk : k' = k
  · subst hk
    rw [if_pos rfl] at ht'
    rw [hr]
    exact hsame u hnames t' ht'
  · rw [if_neg hk] at ht'
    exact ht'

theorem RecordWrite.tells {k : String} {f : Remote → Remote} {event : WarpEvent}
    (h : m.RecordWrite k f event m') (hnot : ∀ k u, event ≠ .transferRemoved k u)
    (hsame : ∀ r u, event.transfer ≠ some (k, u) →
      ∀ t', (f r).transfers.find? (fun t => t.uuid = u) = some t' →
        r.transfers.find? (fun t => t.uuid = u) = some t') : m.Tells m' silent := by
  cases h with
  | missed => exact .refl m
  | written hr => exact tells_setRemote event hr hnot (hsame _)

theorem tells_updateRemote (uuid : String) {f : Remote → Remote}
    (hf : ∀ r, (f r).transfers = r.transfers) : m.Tells (m.updateRemote uuid f).2 silent := by
  refine (m.updateRemote_write uuid f).tells (by simp) fun r u _ t' ht' => ?_
  rw [hf] at ht'
  exact ht'

theorem tells_addTransfer (k : String) (t : Transfer) : m.Tells (m.addTransfer k t).2 silent := by
  refine (m.addTransfer_write k t).tells (by simp) fun r u hnames t' ht' => ?_
  have hne : ¬ t.uuid = u := by
    intro heq
    exact hnames (by rw [← heq]; rfl)
  simpa [List.find?_append, hne] using ht'

theorem tells_addMessage (k : String) (msg : Message) : m.Tells (m.addMessage k msg).2 silent :=
  (m.addMessage_write k msg).tells (by simp) fun _ _ _ _ ht' => ht'

theorem tells_removeMessage (k u : String) : m.Tells (m.removeMessage k u).2 silent :=
  (m.removeMessage_write k u).tells (by simp) fun _ _ _ _ ht' => ht'

/-- A record without transfers takes the place of what is there. -/
theorem tells_addRemote {r : Remote} (hempty : r.transfers = []) :
    m.Tells (m.addRemote r) silent := by
  refine .of_event (.remoteAdded r.uuid) rfl (by simp) fun k u _ t' ht' => ?_
  have ht : (m.setRemote r.uuid r (.remoteAdded r.uuid)).transfer k u = some t' := ht'
  rw [transfer_of_remote, remote_setRemote] at ht
  by_cases hk : k = r.uuid
  · simp [hk, hempty] at ht
  · rw [if_neg hk] at ht
    exact ht

/-- Only the transfer that is updated may change in silence. -/
theorem tells_updateTransfer (queued : Nat) (k u : String) (f : TransferUpdate) :
    m.Tells (m.updateTransfer queued k u f).2 fun k' u' => k' = k ∧ u' = u where
  told := by
    have hothers : ∀ k' u' t', (m.updateTransfer queued k u f).2.transfer k' u' = some t' →
        ¬ (k' = k ∧ u' = u) → ∃ t, m.transfer k' u' = some t ∧ t'.shown = t.shown := by
      intro k' u' t' ht' hne
      rw [transfer_updateTransfer, if_neg hne] at ht'
      exact ⟨t', ht', rfl⟩
    have hevents : (m.updateTransfer queued k u f).2.events = m.events ∨
        (m.updateTransfer queued k u f).2.events = m.events ++ [.transferUpdated k u] := by
      unfold updateTransfer
      split
      · dsimp only
        split
        · exact .inr rfl
        · exact .inl rfl
      · exact .inl rfl
    rcases hevents with heq | heq
    · exact ⟨[], by rw [heq, List.append_nil], by simp,
        fun k' u' t' ht' hne => .inl (hothers k' u' t' ht' hne)⟩
    · exact ⟨[.transferUpdated k u], heq, by simp,
        fun k' u' t' ht' hne => .inl (hothers k' u' t' ht' hne)⟩

/-- An update that is published appends its event. -/
theorem events_of_published {queued : Nat} {k u : String} {f : TransferUpdate} {t : Transfer}
    (ht : m.transfer k u = some t) (hpublished : f.Published queued t) :
    (m.updateTransfer queued k u f).2.events = m.events ++ [.transferUpdated k u] := by
  unfold TransferUpdate.Published at hpublished
  unfold updateTransfer
  cases hr : m.remotes k with
  | none => simp [transfer_of_remote, RemoteManager.remote, hr] at ht
  | some r =>
    rw [ht]
    dsimp only
    rw [if_pos hpublished]

theorem Tells.trans (h : m.Tells m' silent) (h' : m'.Tells m'' silent) : m.Tells m'' silent where
  told := by
    obtain ⟨es, hevents, hnot, htold⟩ := h.told
    obtain ⟨es', hevents', hnot', htold'⟩ := h'.told
    refine ⟨es ++ es', by rw [hevents', hevents, List.append_assoc], fun k u hmem => ?_,
      fun k u t'' ht'' hsilent => ?_⟩
    · rcases List.mem_append.1 hmem with hfirst | hsecond
      · exact hnot k u hfirst
      · exact hnot' k u hsecond
    · rcases htold' k u t'' ht'' hsilent with ⟨t', ht', hshown'⟩ | ⟨event, hmem, hnames⟩
      · rcases htold k u t' ht' hsilent with ⟨t, ht, hshown⟩ | ⟨event, hmem, hnames⟩
        · exact .inl ⟨t, ht, hshown'.trans hshown⟩
        · exact .inr ⟨event, List.mem_append_left _ hmem, hnames⟩
      · exact .inr ⟨event, List.mem_append_right _ hmem, hnames⟩

/-- More may be silent. -/
theorem Tells.weaken {silent' : String → String → Prop} (h : m.Tells m' silent)
    (hsub : ∀ k u, silent k u → silent' k u) : m.Tells m' silent' where
  told := by
    obtain ⟨es, hevents, hnot, htold⟩ := h.told
    exact ⟨es, hevents, hnot, fun k u t' ht' hsilent =>
      htold k u t' ht' fun hs => hsilent (hsub k u hs)⟩

theorem tells_recordProgress (host : Host) (queued : Nat) (k u : String)
    (before after : List Progress) :
    host.manager.Tells (host.recordProgress queued k u before after).manager
      fun k' u' => k' = k ∧ u' = u := by
  unfold Host.recordProgress
  induction after.drop before.length generalizing host with
  | nil => exact .refl _
  | cons p ps ih =>
    have hfirst := tells_updateTransfer (m := host.manager) queued k u (.progress p)
    have hrest := ih (host.updateTransfer queued k u (.progress p)).2
    exact hfirst.trans hrest

end RemoteManager

/-! ## Section 3: What the steps tell -/

/-- What a step of an activity does to the copies: it tells all that it
    changes, apart from progress of its own transfer, one update, or a panic. -/
inductive Activity.Speaks (i : Instance) (a : Activity) (ans : ActivityAnswer) (i' : Instance)
    (a' : Activity) : Prop
  | told : i.host.manager.Tells i'.host.manager (fun _ _ => False) →
      (∀ k u, a.streamsTo k u = true → a'.streamsTo k u = true) → Speaks i a ans i' a'
  | progress (k u : String) :
      i.host.manager.Tells i'.host.manager (fun k' u' => k' = k ∧ u' = u) →
      a'.streamsTo k u = true →
      (∀ k u, a.streamsTo k u = true → a'.streamsTo k u = true) → Speaks i a ans i' a'
  | update (queued : Nat) (k u : String) (f : TransferUpdate) :
      ans = .call (.go queued) → a.updates = some (k, u, f) →
      i'.host.manager = (i.host.manager.updateTransfer queued k u f).2 →
      (∀ k' u', a.streamsTo k' u' = true → k' = k ∧ u' = u) → Speaks i a ans i' a'
  | panic (k u : String) : a.panics i ans = some (k, u) → i'.host.manager = i.host.manager →
      (∀ k' u', a.streamsTo k' u' = true → k' = k ∧ u' = u) → Speaks i a ans i' a'

section speaking

variable {i : Instance} {host : Host} {ans : Answer}

/-- The activity has no streaming task to close. -/
theorem speaks_told {a a' : Activity} {ans : ActivityAnswer} {i' : Instance}
    (htells : i.host.manager.Tells i'.host.manager fun _ _ => False)
    (hnot : ∀ k u, a.streamsTo k u = false) : a.Speaks i ans i' a' :=
  .told htells fun k u h => by rw [hnot] at h; cases h

theorem speaks_update {a a' : Activity} {i' : Instance} {queued : Nat} {k u : String}
    {f : TransferUpdate} (hupdates : a.updates = some (k, u, f))
    (hmanager : i'.host.manager = (i.host.manager.updateTransfer queued k u f).2)
    (hnot : ∀ k u, a.streamsTo k u = false) : a.Speaks i (.call (.go queued)) i' a' :=
  .update queued k u f rfl hupdates hmanager fun k u h => by rw [hnot] at h; cases h

theorem start_speaks {pc pc' : WarpServer.StartPc}
    (h : WarpServer.startTransfer i.host pc ans = some (host, pc')) :
    (Activity.call (.startTransfer pc)).Speaks i (.call ans) { i with host := host }
      (.call (.startTransfer pc')) := by
  cases pc with
  -- the only step that writes; the update is dropped if the record is gone
  | update transfer sourcePaths token =>
    cases ans with
    | go queued =>
      refine speaks_update rfl ?_ fun _ _ => rfl
      simp only [WarpServer.startTransfer] at h
      split at h
      · next heq =>
        cases h
        exact congrArg (fun r => r.2.manager) heq.symm
      · next heq =>
        cases h
        exact congrArg (fun r => r.2.manager) heq.symm
    | noClient | fresh _ _ | processed _ | reply _ | send _ _ | receive _ _ _ => cases h
  | lookup req =>
    cases WarpServer.startTransfer_move h with
    | refused _ status _ => exact speaks_told (.refl _) fun _ _ => rfl
    | found _ transfer sourcePaths token _ => exact speaks_told (.refl _) fun _ _ => rfl
  | streaming _ | failed _ => cases ans <;> cases h

theorem stop_speaks {pc pc' : WarpServer.StopPc}
    (h : WarpServer.stopTransfer i.host pc ans = some (host, pc')) :
    (Activity.call (.peerStopTransfer pc)).Speaks i (.call ans) { i with host := host }
      (.call (.peerStopTransfer pc')) := by
  cases pc with
  -- the only step that writes
  | update transfer newState =>
    cases ans with
    | go queued =>
      cases h
      exact speaks_update rfl rfl fun _ _ => rfl
    | noClient | fresh _ _ | processed _ | reply _ | send _ _ | receive _ _ _ => cases h
  | lookup req =>
    cases WarpServer.stopTransfer_move h with
    | refused _ status _ => exact speaks_told (.refl _) fun _ _ => rfl
    | foundOutgoing _ info transfer token _ _ => exact speaks_told (.refl _) fun _ _ => rfl
    | foundIncoming _ info transfer _ _ => exact speaks_told (.refl _) fun _ _ => rfl
  | cancel transfer token newState =>
    cases WarpServer.stopTransfer_move h with
    | cancelled _ _ _ => exact speaks_told (.refl _) fun _ _ => rfl
  | returned _ => cases ans <;> cases h

theorem cancel_speaks {pc pc' : WarpServer.CancelPc}
    (h : WarpServer.cancelTransferOpRequest i.host pc ans = some (host, pc')) :
    (Activity.call (.cancelTransferOpRequest pc)).Speaks i (.call ans) { i with host := host }
      (.call (.cancelTransferOpRequest pc')) := by
  cases pc with
  -- the only step that writes
  | update transfer newState =>
    cases ans with
    | go queued =>
      cases h
      exact speaks_update rfl rfl fun _ _ => rfl
    | noClient | fresh _ _ | processed _ | reply _ | send _ _ | receive _ _ _ => cases h
  | lookup req =>
    cases WarpServer.cancelTransferOpRequest_move h with
    | refused _ status _ => exact speaks_told (.refl _) fun _ _ => rfl
    | found _ transfer _ _ => exact speaks_told (.refl _) fun _ _ => rfl
  | returned _ => cases ans <;> cases h

theorem process_speaks {pc pc' : WarpServer.ProcessPc}
    (h : WarpServer.processTransferOpRequest i.host pc ans = some (host, pc')) :
    (Activity.call (.processTransferOpRequest pc)).Speaks i (.call ans) { i with host := host }
      (.call (.processTransferOpRequest pc')) := by
  cases WarpServer.processTransferOpRequest_move h with
  | refused req status => exact speaks_told (.refl _) fun _ _ => rfl
  | added req info id now result _ =>
    exact speaks_told (RemoteManager.tells_addTransfer info.ident _) fun _ _ => rfl

/-- A closing step of an operation updates the transfer, if it is there. -/
theorem finish_manager {w : Worker} {queued : Nat} {u : String} {f : TransferUpdate}
    {result : Except RemoteWorkerError Unit} (h : w.finish i.host queued u f = (host, result)) :
    host.manager = (i.host.manager.updateTransfer queued w.uuid u f).2 := by
  unfold Worker.finish at h
  split at h
  · next heq =>
    cases h
    exact congrArg (fun r => r.2.manager) heq.symm
  · next heq =>
    cases h
    exact congrArg (fun r => r.2.manager) heq.symm

theorem sendRequest_speaks {w : Worker} {pc pc' : Worker.SendRequestPc}
    (h : w.sendTransferRequest i.host pc ans = some (host, pc')) :
    (Activity.call (.sendTransferRequest w pc)).Speaks i (.call ans) { i with host := host }
      (.call (.sendTransferRequest w pc')) := by
  cases pc with
  -- the two closing updates first, then the steps that add a transfer or write nothing
  | announce transfer =>
    cases ans with
    | go queued =>
      refine speaks_update rfl ?_ fun _ _ => rfl
      cases h
      exact finish_manager rfl
    | noClient | fresh _ _ | processed _ | reply _ | send _ _ | receive _ _ _ => cases h
  | abort transfer e =>
    cases ans with
    | go queued =>
      refine speaks_update rfl ?_ fun _ _ => rfl
      simp only [Worker.sendTransferRequest] at h
      split at h
      · next heq =>
        cases h
        exact finish_manager heq
      · next heq =>
        cases h
        exact finish_manager heq
    | noClient | fresh _ _ | processed _ | reply _ | send _ _ | receive _ _ _ => cases h
  | start sourcePaths =>
    cases Worker.sendTransferRequest_move h with
    | refused _ => exact speaks_told (.refl _) fun _ _ => rfl
    | created _ id now token _ => exact speaks_told (.refl _) fun _ _ => rfl
  | add transfer =>
    cases Worker.sendTransferRequest_move h with
    | added _ => exact speaks_told (RemoteManager.tells_addTransfer _ _) fun _ _ => rfl
    | notAdded _ e => exact speaks_told (RemoteManager.tells_addTransfer _ _) fun _ _ => rfl
  | process transfer =>
    cases Worker.sendTransferRequest_move h with
    | processed _ totals req => exact speaks_told (.refl _) fun _ _ => rfl
    | notProcessed _ e => exact speaks_told (.refl _) fun _ _ => rfl
  | request transfer req =>
    cases Worker.sendTransferRequest_move h with
    | answered _ _ => exact speaks_told (.refl _) fun _ _ => rfl
    | failed _ _ e => exact speaks_told (.refl _) fun _ _ => rfl
  | returned _ => cases ans <;> cases h

theorem accept_speaks {w : Worker} {pc pc' : Worker.AcceptPc}
    (h : w.acceptTransfer i.host pc ans = some (host, pc')) :
    (Activity.call (.acceptTransfer w pc)).Speaks i (.call ans) { i with host := host }
      (.call (.acceptTransfer w pc')) := by
  cases Worker.acceptTransfer_move h with
  | refused u destination ans e => exact speaks_told (.refl _) fun _ _ => rfl
  | found u destination queued transfer _ => exact speaks_told (.refl _) fun _ _ => rfl
  | answered u destination req => exact speaks_told (.refl _) fun _ _ => rfl
  | denied u destination req status => exact speaks_told (.refl _) fun _ _ => rfl
  | lost u destination queued e _ => exact speaks_told (.refl _) fun _ _ => rfl
  | accepted u destination queued token disk _ => exact speaks_update rfl rfl fun _ _ => rfl

/-- The two operations that take a transfer back. -/
theorem withdraw_speaks {μ : Type} {w : Worker} {message : OpInfo → μ}
    {newState : TransferKind → TransferState} {pc pc' : Worker.WithdrawPc μ} {a a' : Activity}
    (h : Worker.WithdrawMove w message newState i.host pc ans host pc')
    (hupdates : ∀ u s, pc = .update u s → a.updates = some (w.uuid, u, .setState s))
    (hnot : ∀ k u, a.streamsTo k u = false) :
    a.Speaks i (.call ans) { i with host := host } a' := by
  cases h with
  | refused u ans e => exact speaks_told (.refl _) hnot
  | foundOutgoing u queued transfer token _ => exact speaks_told (.refl _) hnot
  | foundIncoming u queued transfer _ => exact speaks_told (.refl _) hnot
  | cancelled u queued token s req => exact speaks_told (.refl _) hnot
  | answered u s req => exact speaks_told (.refl _) hnot
  | denied u s req status => exact speaks_told (.refl _) hnot
  | updated u s queued _ => exact speaks_update (hupdates u s rfl) rfl hnot
  | lost u s queued e _ => exact speaks_told (.refl _) hnot

theorem sendStream_speaks {task task' : SendTask}
    (h : task.step i.host ans = some (host, task')) :
    (Activity.call (.sendStream task)).Speaks i (.call ans) { i with host := host }
      (.call (.sendStream task')) := by
  cases SendTask.step_move h with
  -- the task still streams, so its progress may stay untold
  | inner l queued sender hphase _ _ =>
    refine .progress task.remoteUuid task.transferUuid
      (RemoteManager.tells_recordProgress _ _ _ _ _ _) ?_ ?_
    · simp [Activity.streamsTo, hphase]
    · intro k u hstreams
      simpa [Activity.streamsTo, hphase] using hstreams
  | decide queued result hphase _ =>
    refine .told (.refl _) fun k u hstreams => ?_
    simpa [Activity.streamsTo, hphase] using hstreams
  | close queued finalState hphase =>
    refine .update queued task.remoteUuid task.transferUuid (.finishSend finalState) rfl ?_ rfl ?_
    · simp [Activity.updates, hphase]
    · intro k u hstreams
      simp only [Activity.streamsTo, hphase, Bool.and_eq_true, beq_iff_eq] at hstreams
      exact ⟨hstreams.1.symm, hstreams.2.symm⟩
  -- the record is closed, and the task streams to nothing any more
  | leave queued hphase =>
    refine .told (.refl _) fun k u hstreams => ?_
    simp [Activity.streamsTo, hphase] at hstreams

theorem receiveStream_speaks {task task' : ReceiveTask}
    (h : task.step i.host ans = some (host, task')) :
    (Activity.call (.receiveStream task)).Speaks i (.call ans) { i with host := host }
      (.call (.receiveStream task')) := by
  cases ReceiveTask.step_move h with
  | again event fault queued r hphase _ _ =>
    refine .progress task.remoteUuid task.transferUuid
      (RemoteManager.tells_recordProgress _ _ _ _ _ _) ?_ ?_
    · simp [Activity.streamsTo, hphase]
    · intro k u hstreams
      simpa [Activity.streamsTo, hphase] using hstreams
  | leave event fault queued result r hphase _ _ =>
    refine .told (.refl _) fun k u hstreams => ?_
    simpa [Activity.streamsTo, hphase] using hstreams
  -- the task ends without a closing update
  | panic event fault queued r hphase _ hround =>
    refine .panic task.remoteUuid task.transferUuid ?_ rfl ?_
    · simp [Activity.panics, hphase, hround]
    · intro k u hstreams
      simp only [Activity.streamsTo, hphase, Bool.and_eq_true, beq_iff_eq] at hstreams
      exact ⟨hstreams.1.symm, hstreams.2.symm⟩
  | close queued finalState hphase =>
    refine .update queued task.remoteUuid task.transferUuid (.finishReceive finalState)
      rfl ?_ rfl ?_
    · simp [Activity.updates, hphase]
    · intro k u hstreams
      simp only [Activity.streamsTo, hphase, Bool.and_eq_true, beq_iff_eq] at hstreams
      exact ⟨hstreams.1.symm, hstreams.2.symm⟩

theorem call_speaks {t t' : Task} {spawned : List Task}
    (h : t.step i.host ans = some (host, t', spawned)) :
    (Activity.call t).Speaks i (.call ans) { i with host := host } (.call t') := by
  cases task_move h with
  | processTransferOpRequest pc pc₁ hstep => exact process_speaks hstep
  | startTransfer pc pc₁ hstep => exact start_speaks hstep
  | peerStopTransfer pc pc₁ hstep => exact stop_speaks hstep
  | cancelTransferOpRequest pc pc₁ hstep => exact cancel_speaks hstep
  | sendTransferRequest w pc pc₁ hstep => exact sendRequest_speaks hstep
  | acceptTransfer w pc pc₁ hstep => exact accept_speaks hstep
  | stopTransfer w error pc pc₁ hstep =>
    refine withdraw_speaks (Worker.withdraw_move hstep) (fun u s hpc => ?_) fun _ _ => rfl
    rw [hpc]
    rfl
  | cancelTransfer w pc pc₁ hstep =>
    refine withdraw_speaks (Worker.withdraw_move hstep) (fun u s hpc => ?_) fun _ _ => rfl
    rw [hpc]
    rfl
  | sendStream task task₁ hstep => exact sendStream_speaks hstep
  | receiveStream task task₁ hstep => exact receiveStream_speaks hstep

end speaking

/-! ### Admissions -/

section admitting

variable {g g' : Registry} {ans : AdmitAnswer}

theorem tells_update (g : Registry) (uuid : String) {f : Remote → Remote}
    (hf : ∀ r, (f r).transfers = r.transfers) :
    g.manager.Tells (g.updateRemote uuid f).manager fun _ _ => False :=
  RemoteManager.tells_updateRemote uuid hf

/-- A closure that has panicked has left the transfers alone. -/
theorem tells_leave {uuid : String} {r r' : Remote} (hr : g.remote uuid = some r)
    (hsame : r'.transfers = r.transfers) :
    g.manager.Tells (g.leaveRemote uuid r').manager fun _ _ => False := by
  refine .of_same rfl (RemoteManager.transfer_of_content fun k => ?_)
  have hleft : (g.leaveRemote uuid r').manager.remote k
      = if k = uuid then some r' else g.remote k := remote_leaveRemote g uuid k r'
  rw [hleft]
  -- the record is put back under its own uuid with the same transfers
  by_cases hk : k = uuid
  · subst hk
    have hstored : g.manager.remote k = some r := hr
    simp [hstored, hsame]
  · rw [if_neg hk]
    rfl

/-- An admission tells of the record that it inserts, which has no transfers. -/
theorem admission_tells {s : RegistrationServer} {t t' : Admission} {spawned : List Admission}
    (hempty : ∀ r ∈ t.carried, r.transfers = []) (h : t.step s g ans = some (g', t', spawned)) :
    g.manager.Tells g'.manager fun _ _ => False := by
  have hstep := (admission_registryStep h).1
  generalize hinserts : t.inserts = stored at hstep
  cases hstep with
  | idle => exact .refl _
  | worker uuid => exact .refl _
  | update uuid hf => exact tells_update g uuid fun r => (Prod.mk.inj (Prod.mk.inj (hf r)).2).1
  | leave hr hcontent => exact tells_leave hr (Prod.mk.inj (Prod.mk.inj hcontent).2).1
  | insert r =>
    exact RemoteManager.tells_addRemote (hempty r (Admission.carried_of_inserts hinserts))

end admitting

theorem activity_speaks {s : Settings} {i i' : Instance} {a a' : Activity} {ans : ActivityAnswer}
    {spawned : List Activity} (hsound : a.Sound i) (h : a.step s i ans = some (i', a', spawned)) :
    a.Speaks i ans i' a' := by
  unfold Activity.step at h
  split at h
  -- an admission, then a call, then the two ways a message is added
  · next t ans =>
    obtain ⟨⟨g, t₁, spawned₁⟩, hstep, heq⟩ := Option.map_eq_some_iff.1 h
    cases heq
    exact speaks_told (admission_tells (fun r hr => (hsound.1 r hr).1) hstep) fun _ _ => rfl
  · next t ans =>
    obtain ⟨⟨host, t₁, spawned₁⟩, hstep, heq⟩ := Option.map_eq_some_iff.1 h
    cases heq
    exact call_speaks hstep
  · next pc ans =>
    obtain ⟨⟨host, pc₁⟩, hstep, heq⟩ := Option.map_eq_some_iff.1 h
    cases heq
    cases WarpServer.sendTextMessage_move hstep with
    | refused req status => exact speaks_told (.refl _) fun _ _ => rfl
    | added req id now result _ =>
      exact speaks_told (RemoteManager.tells_addMessage _ _) fun _ _ => rfl
  · next w pc ans =>
    obtain ⟨⟨host, pc₁⟩, hstep, heq⟩ := Option.map_eq_some_iff.1 h
    cases heq
    cases Worker.sendMessage_move hstep with
    | refused text => exact speaks_told (.refl _) fun _ _ => rfl
    | created text id now req _ => exact speaks_told (.refl _) fun _ _ => rfl
    | answered msg req => exact speaks_told (.refl _) fun _ _ => rfl
    | failed msg req status => exact speaks_told (.refl _) fun _ _ => rfl
    | added msg result => exact speaks_told (RemoteManager.tells_addMessage _ _) fun _ _ => rfl
  · split at h
    · cases h
      exact speaks_told (.refl _) fun _ _ => rfl
    · cases h
      exact speaks_told (.refl _) fun _ _ => rfl
  · cases h

/-! ## Section 4: Removed transfers stay away -/

/-- What is named by a removal is not stored, and will not be. -/
def Running.Gone (p : Running) : Prop :=
  ∀ k u, .transferRemoved k u ∈ p.shared.host.manager.events →
    u ∈ p.shared.host.uuids ∧ p.shared.load p.tasks k u = 0

theorem transfer_eq_none_of_load {p : Running} {k u : String}
    (h : p.shared.load p.tasks k u = 0) : p.shared.host.manager.transfer k u = none := by
  have hcount : (p.shared.stored k).count u = 0 := by
    unfold Instance.load at h
    omega
  have hnot : u ∉ p.shared.stored k := List.count_eq_zero.1 hcount
  unfold Instance.stored at hnot
  rw [RemoteManager.transfer_of_remote]
  cases hr : p.shared.host.manager.remote k with
  | none => rfl
  | some r =>
    have hremote : p.shared.remote k = some r := hr
    rw [hremote] at hnot
    have hfind : r.transfers.find? (fun t => t.uuid = u) = none := by
      rw [List.find?_eq_none]
      intro t ht heq
      have hmem : u ∈ r.transfers.map Transfer.uuid := by
        rw [← of_decide_eq_true heq]
        exact List.mem_map_of_mem ht
      exact hnot (List.mem_append_left _ hmem)
    exact hfind

/-- Erasing the first transfer of a uuid erases that uuid once. -/
theorem map_uuid_eraseP (u : String) (ts : List Transfer) :
    (ts.eraseP fun t => t.uuid = u).map Transfer.uuid = (ts.map Transfer.uuid).erase u := by
  induction ts with
  | nil => rfl
  | cons t ts ih =>
    by_cases ht : t.uuid = u
    · simp [ht]
    · simp [ht, ih]

theorem find_eraseP {u u' : String} (hne : u' ≠ u) (ts : List Transfer) :
    (ts.eraseP fun t => t.uuid = u).find? (fun t => t.uuid = u')
      = ts.find? fun t => t.uuid = u' := by
  induction ts with
  | nil => rfl
  | cons t ts ih =>
    by_cases ht : t.uuid = u
    · have hnot : ¬ t.uuid = u' := by
        intro heq
        exact hne (heq.symm.trans ht)
      simp [ht, Ne.symm hne]
    · by_cases ht' : t.uuid = u'
      · simp [ht', hne]
      · simp [ht, ht', ih]

/-- Every change but a removal tells what it does. -/
theorem change_tells (i : Instance) (e : InstanceChange) :
    (∃ k u, e = .removeTransfer k u) ∨
      i.host.manager.Tells (i.change e).host.manager fun _ _ => False := by
  cases e with
  | update uuid f => exact .inr (tells_update i.registry uuid f.transfers_apply)
  | removed fullname => exact .inr (tells_update i.registry fullname fun _ => rfl)
  | removeTransfer k u => exact .inl ⟨k, u, rfl⟩
  | removeMessage k u => exact .inr (RemoteManager.tells_removeMessage k u)
  | cancel token => exact .inr (.refl _)
  | files files => exact .inr (.refl _)
  | disk disk => exact .inr (.refl _)

section gone

variable {s : Settings} {p p' : Running} {l : RunningLabel}

/-- A uuid that has been drawn is not counted more often later. -/
theorem load_step (hp : p.Sound) (hstep : (activities s).poolStep p l = some p') {k u : String}
    (hu : u ∈ p.shared.host.uuids) :
    u ∈ p'.shared.host.uuids ∧ p'.shared.load p'.tasks k u ≤ p.shared.load p.tasks k u := by
  cases l with
  | run j ans =>
    obtain ⟨t, i', t', spawned, ht, hadvance, rfl⟩ := Tasking.run_cases hstep
    have hkeeps := activity_keepsOrder hp.ordered hp.drawn_stored
      (hp.sound t (List.mem_of_getElem? ht)) (activity_move hadvance)
    refine ⟨hkeeps.grows.uuids hu, ?_⟩
    have heq := load_run ht i' t' spawned k u
    -- a fresh uuid is not one that has been drawn
    rcases hkeeps.load k u with hle | ⟨hfresh, _⟩
    · show i'.load (p.tasks.set j t' ++ spawned) k u ≤ p.shared.load p.tasks k u
      omega
    · exact absurd hu hfresh
  | enter t =>
    obtain ⟨hnew, rfl⟩ := Tasking.enter_cases hstep
    obtain ⟨_, hpending⟩ := sound_of_entering (i := p.shared) hnew
    refine ⟨hu, ?_⟩
    show p.shared.load (p.tasks ++ [t]) k u ≤ p.shared.load p.tasks k u
    simp [Instance.load, List.countP_append, hpending]
  | env e =>
    cases hstep
    refine ⟨(grows_change p.shared e).uuids hu, ?_⟩
    have hstored := stored_retouched (retouched_change p.shared e) k u
    show (p.shared.change e).load p.tasks k u ≤ p.shared.load p.tasks k u
    unfold Instance.load
    omega

/-- A removal takes the only entry of its uuid. -/
theorem load_removeTransfer (hp : p.Sound) {k u : String} {r : Remote} {t : Transfer}
    (hr : p.shared.remote k = some r) (ht : p.shared.host.manager.transfer k u = some t)
    {i' : Instance} (hr' : i'.remote k
      = some { r with transfers := r.transfers.eraseP fun t => t.uuid = u }) :
    u ∈ p.shared.host.uuids ∧ i'.load p.tasks k u = 0 := by
  have hmem : u ∈ r.transfers.map Transfer.uuid := by
    have hremote : p.shared.host.manager.remote k = some r := hr
    rw [RemoteManager.transfer_of_remote, hremote] at ht
    have huuid : t.uuid = u := by simpa using List.find?_some ht
    rw [← huuid]
    exact List.mem_map_of_mem (List.mem_of_find?_eq_some ht)
  have hpos : 0 < (r.transfers.map Transfer.uuid).count u := List.count_pos_iff.2 hmem
  -- at most one entry carries the uuid, so erasing one leaves none
  have honce := hp.once k u
  have hdrawn := hp.drawn k u
  have herased : ((r.transfers.map Transfer.uuid).erase u).count u
      = (r.transfers.map Transfer.uuid).count u - 1 := List.count_erase_self
  unfold Instance.load Instance.stored at honce hdrawn ⊢
  rw [hr] at honce hdrawn
  rw [hr']
  simp only [List.count_append, map_uuid_eraseP] at honce hdrawn ⊢
  exact ⟨hdrawn (by omega), by omega⟩

/-- A step tells of no removal, unless it is one. -/
theorem running_tells (hp : p.Sound) (hstep : (activities s).poolStep p l = some p') :
    p.shared.host.manager.Tells p'.shared.host.manager (fun _ _ => True) ∨
    ∃ k u r t, p.shared.remote k = some r ∧ p.shared.host.manager.transfer k u = some t ∧
      p'.tasks = p.tasks ∧ p'.shared.host.manager = p.shared.host.manager.setRemote k
        { r with transfers := r.transfers.eraseP fun t => t.uuid = u } (.transferRemoved k u) := by
  cases l with
  | run j ans =>
    left
    obtain ⟨t, i', t', spawned, ht, hadvance, rfl⟩ := Tasking.run_cases hstep
    show p.shared.host.manager.Tells i'.host.manager _
    cases activity_speaks (hp.sound t (List.mem_of_getElem? ht)) hadvance with
    | told htells _ => exact htells.weaken fun _ _ h => h.elim
    | progress k u htells _ _ => exact htells.weaken fun _ _ _ => trivial
    | update queued k u f _ _ hmanager _ =>
      rw [hmanager]
      exact (RemoteManager.tells_updateTransfer queued k u f).weaken fun _ _ _ => trivial
    | panic k u _ hmanager _ =>
      rw [hmanager]
      exact .refl _
  | enter t =>
    obtain ⟨_, rfl⟩ := Tasking.enter_cases hstep
    exact .inl (.refl _)
  -- only the removal of a transfer tells of a removal, and only if it finds one
  | env e =>
    cases hstep
    rcases change_tells p.shared e with ⟨k, u, rfl⟩ | htells
    · rcases RemoteManager.removeTransfer_cases p.shared.host.manager k u with
        hsame | ⟨r, t, hr, ht, hremoved⟩
      · left
        show p.shared.host.manager.Tells (p.shared.host.manager.removeTransfer k u).2 _
        rw [hsame]
        exact .refl _
      · exact .inr ⟨k, u, r, t, hr, ht, rfl, hremoved⟩
    · exact .inl (htells.weaken fun _ _ h => h.elim)

/-- Events are only ever appended. -/
theorem events_step (hp : p.Sound) (hstep : (activities s).poolStep p l = some p') :
    ∃ es, p'.shared.host.manager.events = p.shared.host.manager.events ++ es := by
  rcases running_tells hp hstep with ⟨es, hevents, _⟩ | ⟨k, u, r, t, _, _, _, hmanager⟩
  · exact ⟨es, hevents⟩
  · exact ⟨[.transferRemoved k u], by rw [hmanager]; rfl⟩

theorem gone_step (hp : p.Sound) (hgone : p.Gone) (hstep : (activities s).poolStep p l = some p') :
    p'.Gone := by
  -- removals that have been told of before
  have hold : ∀ k u, .transferRemoved k u ∈ p.shared.host.manager.events →
      u ∈ p'.shared.host.uuids ∧ p'.shared.load p'.tasks k u = 0 := by
    intro k u hmem
    obtain ⟨hu, hzero⟩ := hgone k u hmem
    obtain ⟨hu', hle⟩ := load_step hp hstep (k := k) hu
    exact ⟨hu', by omega⟩
  intro k u hmem
  rcases running_tells hp hstep with
    ⟨es, hevents, hnot, _⟩ | ⟨k₀, u₀, r, t, hr, ht, htasks, hmanager⟩
  · rw [hevents] at hmem
    rcases List.mem_append.1 hmem with hbefore | hnew
    · exact hold k u hbefore
    · exact absurd hnew (hnot k u)
  -- the step is a removal: its own event is the only new one
  · have hmem' :
        .transferRemoved k u ∈ p.shared.host.manager.events ++ [.transferRemoved k₀ u₀] := by
      rw [hmanager] at hmem
      exact hmem
    rcases List.mem_append.1 hmem' with hbefore | hnew
    · exact hold k u hbefore
    · cases List.mem_singleton.1 hnew
      have hremote : p'.shared.remote k
          = some { r with transfers := r.transfers.eraseP fun t => t.uuid = u } := by
        show p'.shared.host.manager.remote k = _
        rw [hmanager, remote_setRemote, if_pos rfl]
      obtain ⟨hdrawn, hzero⟩ := load_removeTransfer hp hr ht hremote
      rw [htasks]
      exact ⟨(load_step hp hstep (k := k) hdrawn).1, hzero⟩

end gone

end Warpinator
