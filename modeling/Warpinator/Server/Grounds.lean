import Warpinator.Lib.History
import Warpinator.Server.RecordLife
import Warpinator.Transfers.Reassembly

/-! # The Grounds of a State

    Apart from the states in which a transfer is stored, each of its states is
    chosen by an activity at one step and written by it at a later one, with
    anything in between.

    `Ground` lists the choices, each with what the activity has found.
    `every_state_has_a_ground` reads the state that a record shows back to the
    choice: a transfer is `Completed` because its own streaming task has come to
    its end. -/

namespace Warpinator

/-! ## Section 1: Choices -/

namespace Worker

/-- The transfer and the state that the operation will write. -/
def WithdrawPc.verdict {μ : Type} : WithdrawPc μ → Option (String × TransferState)
  | .cancel u _ newState _ => some (u, newState)
  | .request u newState _ => some (u, newState)
  | .update u newState => some (u, newState)
  | _ => none

end Worker

/-- The transfer and the state that an activity has chosen for it, and will write. -/
def Activity.verdict : Activity → Option (String × String × TransferState)
  | .call (.startTransfer (.update t _ _)) => some (t.remoteUuid, t.uuid, .inProgress)
  | .call (.peerStopTransfer (.cancel t _ newState)) => some (t.remoteUuid, t.uuid, newState)
  | .call (.peerStopTransfer (.update t newState)) => some (t.remoteUuid, t.uuid, newState)
  | .call (.cancelTransferOpRequest (.update t newState)) => some (t.remoteUuid, t.uuid, newState)
  | .call (.sendTransferRequest w (.abort t _)) =>
    some (w.uuid, t.uuid, .failed .failedToProcessFiles)
  | .call (.acceptTransfer w (.update u _)) => some (w.uuid, u, .inProgress)
  | .call (.stopTransfer w _ pc) => pc.verdict.map fun v => (w.uuid, v)
  | .call (.cancelTransfer w pc) => pc.verdict.map fun v => (w.uuid, v)
  | .call (.sendStream task) =>
    match task.phase with
    | .closing finalState => some (task.remoteUuid, task.transferUuid, finalState)
    | _ => none
  | .call (.receiveStream task) =>
    match task.phase with
    | .closing finalState => some (task.remoteUuid, task.transferUuid, finalState)
    | _ => none
  | _ => none

/-! ### What an activity has behind it -/

/-- The step of `send_stream_inner` that an answer is for. -/
def Answer.sendLabel? : Answer → Option SendLabel
  | .send l _ => some l
  | _ => none

/-- The chunk that an answer brings to the receive loop. -/
def Answer.chunk? : Answer → Option (IoAnswers × FileChunk)
  | .receive (.message ans chunk) _ _ => some (ans, chunk)
  | _ => none

/-- What the steps of task `j` have been answered in a run. -/
def answersOf (j : Nat) (ls : List RunningLabel) : List Answer :=
  ls.filterMap fun
    | .run i (.call ans) => if i = j then some ans else none
    | _ => none

/-- The calls that an activity can have been spawned as, and what its steps have
    been answered so far. -/
structure Past where
  spawned : Task → Prop
  answers : List Answer

/-- The sending task has taken the steps of its past, over its sources. -/
def SendTask.Follows (past : Past) (task : SendTask) : Prop :=
  ∃ sources, past.spawned
      (.sendStream (.new task.remoteUuid task.transferUuid sources task.cancellationToken)) ∧
    Warpinator.sender.exec (.start sources) (past.answers.filterMap Answer.sendLabel?)
      = some task.sender

/-- It has come to its result that way. -/
def SendTask.Reaches (past : Past) (task : SendTask) (result : Except TransferError Bool) : Prop :=
  task.Follows past ∧ task.sender.pc = .returned result

/-- The receiving task has processed every chunk of its past, and nothing has
    failed. -/
def ReceiveTask.HasProcessed (past : Past) (checks : Bool) (task : ReceiveTask) : Prop :=
  ∃ node, past.spawned (.receiveStream
      (.new task.remoteUuid task.transferUuid task.destination task.cancellationToken node)) ∧
    processAll checks task.destination (past.answers.filterMap Answer.chunk?) (.start node)
      = .ok task.receiver

/-- What an activity with the given past finds when it chooses the state `st` for
    the transfer `u` of `k`. -/
inductive Ground (host : Host) (past : Past) (k u : String) :
    Activity → Answer → TransferState → Prop
  /-- The peer asks for the stream. -/
  | start (req : OpInfo) (t : Transfer) (queued : Nat) : req.ident = k →
      host.transferByProtocolId k req.timestamp = some t → t.uuid = u → t.kind.isIncoming = false →
      Ground host past k u (.call (.startTransfer (.lookup req))) (.go queued) .inProgress
  | peerStop (req : StopInfo) (info : OpInfo) (t : Transfer) (queued : Nat) :
      req.info = some info → info.ident = k →
      host.transferByProtocolId k info.timestamp = some t → t.uuid = u →
      Ground host past k u (.call (.peerStopTransfer (.lookup req))) (.go queued)
        (WarpServer.stopState t.kind req.error)
  | peerCancel (req : OpInfo) (t : Transfer) (queued : Nat) : req.ident = k →
      host.transferByProtocolId k req.timestamp = some t → t.uuid = u →
      t.state = .waitingPermission →
      Ground host past k u (.call (.cancelTransferOpRequest (.lookup req))) (.go queued)
        (WarpServer.cancelState t.kind)
  /-- The peer agrees that the transfer starts. -/
  | accept (w : Worker) (destination : PathBuf) (req : OpInfo) : w.uuid = k →
      Ground host past k u (.call (.acceptTransfer w (.request u destination req)))
        (.reply (.ok ()))
        .inProgress
  | unreadable (w : Worker) (t : Transfer) (e : SourcePathError) : w.uuid = k → t.uuid = u →
      Ground host past k u (.call (.sendTransferRequest w (.process t))) (.processed (.error e))
        (.failed .failedToProcessFiles)
  | stop (w : Worker) (error : Bool) (t : Transfer) (queued : Nat) : w.uuid = k →
      host.transfer k u = some t →
      Ground host past k u (.call (.stopTransfer w error (.lookup u))) (.go queued) .stopped
  | cancel (w : Worker) (t : Transfer) (queued : Nat) : w.uuid = k →
      host.transfer k u = some t →
      Ground host past k u (.call (.cancelTransfer w (.lookup u))) (.go queued)
        (Worker.cancelState t.kind)
  /-- The transfer's own sending task is through. -/
  | sent (task : SendTask) (result : Except TransferError Bool) (queued : Nat) :
      task.remoteUuid = k → task.transferUuid = u → task.Reaches past result →
      Ground host past k u (.call (.sendStream task)) (.go queued)
        (sendFinalState result (host.tokens.isCancelled task.cancellationToken))
  /-- Its receiving task leaves the loop. -/
  | received (task : ReceiveTask) (event : StreamEvent) (fault : Option IoErrorKind) (queued : Nat)
      (result : Except TransferError Bool) (r : Receiver) :
      task.remoteUuid = k → task.transferUuid = u → task.HasProcessed past host.checks →
      wakesFor host task.cancellationToken event = true →
      receiveRound host.checks task.destination fault task.receiver event = .done result r →
      Ground host past k u (.call (.receiveStream task)) (.receive event fault queued)
        (receiveFinalState result)

/-- The task has sent everything, or has processed everything and has come to the
    end of the stream. -/
def Activity.IsThrough (past : Past) (checks : Bool) (k u : String) : Activity → Answer → Prop
  | .call (.sendStream task), _ =>
    task.remoteUuid = k ∧ task.transferUuid = u ∧ task.Reaches past (.ok true)
  | .call (.receiveStream task), .receive event _ _ =>
    task.remoteUuid = k ∧ task.transferUuid = u ∧ event = .endOfStream ∧
      task.HasProcessed past checks
  | _, _ => False

/-- Only the streaming tasks of a transfer find it completed. -/
theorem Ground.isThrough {host : Host} {past : Past} {k u : String} {a : Activity} {ans : Answer}
    {st : TransferState} (h : Ground host past k u a ans st) (hst : st = .completed) :
    a.IsThrough past host.checks k u ans := by
  cases h with
  | start _ _ _ _ _ _ _ | accept _ _ _ _ | unreadable _ _ _ _ _ | stop _ _ _ _ _ _ => cases hst
  | peerStop req info t queued _ _ _ _ =>
    unfold WarpServer.stopState at hst
    split at hst <;> split at hst <;> cases hst
  | peerCancel req t queued _ _ _ _ =>
    unfold WarpServer.cancelState at hst
    split at hst <;> cases hst
  | cancel w t queued _ _ =>
    unfold Worker.cancelState at hst
    split at hst <;> cases hst
  | sent task result queued hk hu hreaches =>
    refine ⟨hk, hu, ?_⟩
    unfold sendFinalState at hst
    split at hst
    · exact hreaches
    · split at hst <;> cases hst
    · cases hst
  | received task event fault queued result r hk hu hprocessed _ hround =>
    refine ⟨hk, hu, ?_, hprocessed⟩
    unfold receiveFinalState at hst
    split at hst
    · exact receiveRound_completed hround
    · cases hst
    · cases hst

/-! ## Section 2: From choice to choice -/

/-- The streaming tasks have come to where they are by their past. -/
def Activity.Streams (past : Past) (checks : Bool) : Activity → Prop
  | .call (.sendStream task) => task.Follows past
  | .call (.receiveStream task) => task.phase = .inner → task.HasProcessed past checks
  | _ => True

section calls

variable {host host' : Host} {past : Past} {k u : String} {st : TransferState} {ans : Answer}

theorem withdraw_verdict {μ : Type} {w : Worker} {message : OpInfo → μ}
    {newState : TransferKind → TransferState} {pc pc' : Worker.WithdrawPc μ}
    (h : Worker.WithdrawMove w message newState host pc ans host' pc')
    (hverdict : pc'.verdict = some (u, st)) :
    pc.verdict = some (u, st) ∨ ∃ t queued, pc = .lookup u ∧ ans = .go queued ∧
      host.transfer w.uuid u = some t ∧ st = newState t.kind := by
  cases h with
  | refused _ _ _ | denied _ _ _ _ | updated _ _ _ _ | lost _ _ _ _ _ => cases hverdict
  | foundOutgoing _ queued t _ ht | foundIncoming _ queued t ht =>
    obtain ⟨rfl, rfl⟩ := Prod.mk.inj (Option.some.inj hverdict)
    exact .inr ⟨t, queued, rfl, rfl, ht, rfl⟩
  | cancelled _ _ _ _ _ | answered _ _ _ => exact .inl hverdict

/-- The lookup of `start_transfer` that goes on has seen the kind. -/
theorem startTransfer_kind {req : OpInfo} {t : Transfer} {sourcePaths : List PathBuf}
    {token : TokenId}
    (h : WarpServer.startTransfer host (.lookup req) ans
      = some (host', .update t sourcePaths token)) :
    host.transferByProtocolId req.ident req.timestamp = some t ∧ t.kind.isIncoming = false ∧
      ∃ queued, ans = .go queued := by
  cases ans with
  | go queued =>
    simp only [WarpServer.startTransfer] at h
    split at h
    · cases h
    · next t' ht' =>
      split at h
      · next hkind => cases h; exact ⟨ht', by rw [hkind]; rfl, queued, rfl⟩
      · cases h
  | noClient | fresh _ _ | processed _ | reply _ | send _ _ | receive _ _ _ => cases h

/-- The answers that the lookups of peers take. -/
theorem stopTransfer_go {pc pc' : WarpServer.StopPc}
    (h : WarpServer.stopTransfer host pc ans = some (host', pc')) :
    ∃ queued, ans = .go queued := by
  cases ans with
  | go queued => exact ⟨queued, rfl⟩
  | noClient | fresh _ _ | processed _ | reply _ | send _ _ | receive _ _ _ =>
    cases pc <;> cases h

theorem cancelTransferOpRequest_go {pc pc' : WarpServer.CancelPc}
    (h : WarpServer.cancelTransferOpRequest host pc ans = some (host', pc')) :
    ∃ queued, ans = .go queued := by
  cases ans with
  | go queued => exact ⟨queued, rfl⟩
  | noClient | fresh _ _ | processed _ | reply _ | send _ _ | receive _ _ _ =>
    cases pc <;> cases h

/-- A call has chosen a state before, or chooses it on good grounds. -/
theorem call_verdict {t t' : Task} {spawned : List Task}
    (h : t.step host ans = some (host', t', spawned))
    (hfound : ∀ k id r, host.transferByProtocolId k id = some r → r.remoteUuid = k)
    (hstreams : (Activity.call t).Streams past host.checks)
    (hverdict : (Activity.call t').verdict = some (k, u, st)) :
    (Activity.call t).verdict = some (k, u, st) ∨ Ground host past k u (.call t) ans st := by
  cases task_move h with
  | processTransferOpRequest _ _ _ => cases hverdict
  | startTransfer pc pc₁ hstep =>
    cases pc with
    | lookup req =>
      cases WarpServer.startTransfer_move hstep with
      | refused _ _ _ => cases hverdict
      | found _ r sourcePaths token _ =>
        obtain ⟨hr, hkind, queued, rfl⟩ := startTransfer_kind hstep
        cases hverdict
        rw [hfound _ _ _ hr]
        exact .inr (.start req r queued rfl hr rfl hkind)
    | update r sourcePaths token =>
      cases WarpServer.startTransfer_move hstep with
      | lost _ _ _ _ _ | started _ _ _ _ _ _ => cases hverdict
    | streaming _ | failed _ => cases hstep
  | peerStopTransfer pc pc₁ hstep =>
    obtain ⟨queued, rfl⟩ := stopTransfer_go hstep
    cases WarpServer.stopTransfer_move hstep with
    | refused _ _ _ | updated _ _ _ => cases hverdict
    | foundOutgoing req info r _ hinfo hr | foundIncoming req info r hinfo hr =>
      cases hverdict
      rw [hfound _ _ _ hr]
      exact .inr (.peerStop req info r queued hinfo rfl hr rfl)
    | cancelled _ _ _ => exact .inl hverdict
  | cancelTransferOpRequest pc pc₁ hstep =>
    obtain ⟨queued, rfl⟩ := cancelTransferOpRequest_go hstep
    cases WarpServer.cancelTransferOpRequest_move hstep with
    | refused _ _ _ | updated _ _ _ => cases hverdict
    | found req r hr hwaiting =>
      cases hverdict
      rw [hfound _ _ _ hr]
      exact .inr (.peerCancel req r queued rfl hr rfl hwaiting)
  | sendTransferRequest w pc pc₁ hstep =>
    cases pc with
    | process r =>
      cases ans with
      | processed result =>
        cases result with
        | ok totals => cases hstep; cases hverdict
        | error e => cases hstep; cases hverdict; exact .inr (.unreadable w r e rfl rfl)
      | noClient | go _ | fresh _ _ | reply _ | send _ _ | receive _ _ _ => cases hstep
    | start _ | add _ | request _ _ | announce _ | abort _ _ | returned _ =>
      cases Worker.sendTransferRequest_move hstep <;> cases hverdict
  | acceptTransfer w pc pc₁ hstep =>
    cases Worker.acceptTransfer_move hstep with
    | refused _ _ _ _ | found _ _ _ _ _ | denied _ _ _ _ | lost _ _ _ _ _
    | accepted _ _ _ _ _ _ => cases hverdict
    | answered u' destination req =>
      cases hverdict
      exact .inr (.accept w destination req rfl)
  | stopTransfer w error pc pc₁ hstep =>
    obtain ⟨v, hv, heq⟩ := Option.map_eq_some_iff.1 hverdict
    cases heq
    rcases withdraw_verdict (Worker.withdraw_move hstep) hv with
      hbefore | ⟨r, queued, rfl, rfl, hr, rfl⟩
    · exact .inl (Option.map_eq_some_iff.2 ⟨_, hbefore, rfl⟩)
    · exact .inr (.stop w error r queued rfl hr)
  | cancelTransfer w pc pc₁ hstep =>
    obtain ⟨v, hv, heq⟩ := Option.map_eq_some_iff.1 hverdict
    cases heq
    rcases withdraw_verdict (Worker.withdraw_move hstep) hv with
      hbefore | ⟨r, queued, rfl, rfl, hr, rfl⟩
    · exact .inl (Option.map_eq_some_iff.2 ⟨_, hbefore, rfl⟩)
    · exact .inr (.cancel w r queued rfl hr)
  | sendStream task task₁ hstep =>
    cases SendTask.step_move hstep with
    | inner _ _ _ hphase _ _ => simp [Activity.verdict, hphase] at hverdict
    | decide queued result _ hpc =>
      cases hverdict
      exact .inr (.sent task result queued rfl rfl ⟨hstreams, hpc⟩)
    | close _ _ _ | leave _ _ => cases hverdict
  | receiveStream task task₁ hstep =>
    cases ReceiveTask.step_move hstep with
    | again _ _ _ _ hphase _ _ => simp [Activity.verdict, hphase] at hverdict
    | leave event fault queued result r hphase hwakes hround =>
      cases hverdict
      exact .inr
        (.received task event fault queued result r rfl rfl (hstreams hphase) hwakes hround)
    | panic _ _ _ _ _ _ _ | close _ _ _ => cases hverdict

end calls

/-! ## Section 3: The tasks on their way -/

section checks

variable {host host' : Host} {ans : Answer}

/-- The build of the library does not change under a call. -/
theorem call_checks {t t' : Task} {spawned : List Task}
    (h : t.step host ans = some (host', t', spawned)) : host'.checks = host.checks := by
  cases task_move h with
  | processTransferOpRequest pc pc₁ hstep =>
    cases WarpServer.processTransferOpRequest_move hstep <;> rfl
  | startTransfer pc pc₁ hstep => cases WarpServer.startTransfer_move hstep <;> rfl
  | peerStopTransfer pc pc₁ hstep => cases WarpServer.stopTransfer_move hstep <;> rfl
  | cancelTransferOpRequest pc pc₁ hstep =>
    cases WarpServer.cancelTransferOpRequest_move hstep <;> rfl
  | sendTransferRequest w pc pc₁ hstep => cases Worker.sendTransferRequest_move hstep <;> rfl
  | acceptTransfer w pc pc₁ hstep => cases Worker.acceptTransfer_move hstep <;> rfl
  | stopTransfer w error pc pc₁ hstep => cases Worker.withdraw_move hstep <;> rfl
  | cancelTransfer w pc pc₁ hstep => cases Worker.withdraw_move hstep <;> rfl
  | sendStream task task₁ hstep =>
    cases SendTask.step_move hstep with
    | inner _ _ _ _ _ _ => exact recordProgress_checks _ _ _ _ _ _
    | decide _ _ _ _ | close _ _ _ | leave _ _ => rfl
  | receiveStream task task₁ hstep =>
    cases ReceiveTask.step_move hstep with
    | again _ _ _ _ _ _ _ => exact recordProgress_checks _ _ _ _ _ _
    | leave _ _ _ _ _ _ _ _ | panic _ _ _ _ _ _ _ | close _ _ _ => rfl

theorem activity_checks {s : Settings} {i i' : Instance} {a a' : Activity}
    {spawned : List Activity} (h : ActivityMove s i a i' a' spawned) :
    i'.host.checks = i.host.checks := by
  cases h with
  | call t t' host ans ts hstep => exact call_checks hstep
  | sendTextMessage pc pc' host hmove => cases hmove <;> rfl
  | sendMessage w pc pc' host hmove => cases hmove <;> rfl
  | admission _ _ _ _ _ _ | getWorker _ _ _ _ | missing _ _ => rfl

theorem change_checks (i : Instance) (e : InstanceChange) :
    (i.change e).host.checks = i.host.checks := by
  cases e <;> rfl

/-- Another round means that a chunk has been processed. -/
theorem processed_of_again {checks : Bool} {destination : PathBuf} {fault : Option IoErrorKind}
    {r r' : Receiver} {event : StreamEvent}
    (h : receiveRound checks destination fault r event = .again r') :
    ∃ ans chunk, event = .message ans chunk ∧
      processChunk checks destination ans chunk r = .ok r' := by
  cases event with
  | message ans chunk =>
    simp only [receiveRound] at h
    split at h
    · next r₁ hchunk => cases h; exact ⟨ans, chunk, rfl, hchunk⟩
    · cases h
    · cases h
  | cancelled | endOfStream | streamError =>
    simp only [receiveRound, leaveLoop] at h
    split at h <;> cases h

/-- The past after one more step. -/
def Past.answered (past : Past) (ans : Answer) : Past :=
  { past with answers := past.answers ++ [ans] }

theorem Activity.Streams.mono {past past' : Past} {checks : Bool} {a : Activity}
    (h : a.Streams past checks) (hspawned : ∀ t, past.spawned t → past'.spawned t)
    (hanswers : past'.answers = past.answers) : a.Streams past' checks := by
  unfold Activity.Streams at h ⊢
  split
  · obtain ⟨sources, hs, hrun⟩ := h
    exact ⟨sources, hspawned _ hs, by rwa [hanswers]⟩
  · intro hphase
    obtain ⟨node, hs, hrun⟩ := h hphase
    exact ⟨node, hspawned _ hs, by rwa [hanswers]⟩
  · trivial

/-- A sending task takes the step that its past says. -/
theorem SendTask.follows_step {past : Past} {task task' : SendTask}
    (h : task.step host ans = some (host', task')) (hfollows : task.Follows past) :
    task'.Follows (past.answered ans) := by
  obtain ⟨sources, hs, hrun⟩ := hfollows
  cases SendTask.step_move h with
  | inner l queued sender' _ _ hsend =>
    refine ⟨sources, hs, ?_⟩
    rw [Past.answered, List.filterMap_append]
    exact (Warpinator.sender.exec_append).2
      ⟨_, hrun, (Warpinator.sender.exec_cons).2 ⟨_, hsend, rfl⟩⟩
  | decide _ _ _ _ | close _ _ _ | leave _ _ =>
    refine ⟨sources, hs, ?_⟩
    rw [Past.answered, List.filterMap_append]
    exact (congrArg _ (List.append_nil _)).trans hrun

/-- A receiving task that stays in its loop has processed one more chunk. -/
theorem ReceiveTask.processed_step {past : Past} {task task' : ReceiveTask}
    (h : task.step host ans = some (host', task'))
    (hprocessed : task.phase = .inner → task.HasProcessed past host.checks)
    (hphase' : task'.phase = .inner) : task'.HasProcessed (past.answered ans) host.checks := by
  cases ReceiveTask.step_move h with
  | again event fault queued r hphase _ hround =>
    obtain ⟨node, hs, hrun⟩ := hprocessed hphase
    obtain ⟨io, chunk, rfl, hchunk⟩ := processed_of_again hround
    refine ⟨node, hs, ?_⟩
    rw [Past.answered, List.filterMap_append, processAll_append hrun]
    exact processAll_cons hchunk rfl
  | leave _ _ _ _ _ _ _ _ | panic _ _ _ _ _ _ _ | close _ _ _ => cases hphase'

theorem call_streams {past : Past} {t t' : Task} {spawned : List Task}
    (h : t.step host ans = some (host', t', spawned))
    (hstreams : (Activity.call t).Streams past host.checks) :
    (Activity.call t').Streams (past.answered ans) host.checks := by
  cases task_move h with
  | sendStream task task₁ hstep => exact SendTask.follows_step hstep hstreams
  | receiveStream task task₁ hstep => exact ReceiveTask.processed_step hstep hstreams
  | processTransferOpRequest _ _ _ | startTransfer _ _ _ | peerStopTransfer _ _ _
  | cancelTransferOpRequest _ _ _ | sendTransferRequest _ _ _ _ | acceptTransfer _ _ _ _
  | stopTransfer _ _ _ _ _ | cancelTransfer _ _ _ _ => trivial

/-- A streaming task starts out with nothing behind it. -/
theorem spawned_streams {past : Past} {t t' : Task} {spawned : List Task}
    (h : t.step host ans = some (host', t', spawned)) {b : Task} (hb : b ∈ spawned)
    (hspawned : past.spawned b) (hanswers : past.answers = []) (checks : Bool) :
    (Activity.call b).Streams past checks := by
  cases task_move h with
  | startTransfer pc pc₁ hstep =>
    cases WarpServer.startTransfer_move hstep with
    | started _ _ _ _ sources _ =>
      obtain rfl := List.mem_singleton.1 hb
      exact ⟨sources, hspawned, by rw [hanswers]; rfl⟩
    | refused _ _ _ | found _ _ _ _ _ | lost _ _ _ _ _ => cases hb
  | acceptTransfer w pc pc₁ hstep =>
    cases Worker.acceptTransfer_move hstep with
    | accepted _ _ _ _ disk _ =>
      obtain rfl := List.mem_singleton.1 hb
      exact fun _ => ⟨disk, hspawned, by rw [hanswers]; rfl⟩
    | refused _ _ _ _ | found _ _ _ _ _ | answered _ _ _ | denied _ _ _ _ | lost _ _ _ _ _ =>
      cases hb
  | processTransferOpRequest _ _ _ | peerStopTransfer _ _ _ | cancelTransferOpRequest _ _ _
  | sendTransferRequest _ _ _ _ | stopTransfer _ _ _ _ _ | cancelTransfer _ _ _ _
  | sendStream _ _ _ | receiveStream _ _ _ => cases hb

end checks

/-! ## Section 4: Every run -/

/-- Task `j` is spawned as the call. -/
def Spawns (j : Nat) (t : Task) : Machine.Event Running RunningLabel :=
  fun p _ p' => p.tasks.length ≤ j ∧ p'.tasks[j]? = some (.call t)

/-- The past of task `j` in a run of an instance. -/
def pastOf (s : Settings) (checks : Bool) (j : Nat) (ls : List RunningLabel) : Past where
  spawned t := (activities s).pool.Passes [Spawns j t] (Running.new checks) ls
  answers := answersOf j ls

/-- Task `j` chooses the state for the transfer, on a ground that its past gives. -/
def Chooses (s : Settings) (checks : Bool) (j : Nat) (k u : String) (st : TransferState) :
    List RunningLabel → Machine.Event Running RunningLabel :=
  fun ls p l _ => ∃ a ans, l = .run j (.call ans) ∧ p.tasks[j]? = some a ∧
    Ground p.shared.host (pastOf s checks j ls) k u a ans st

/-- Task `j` writes the state. -/
def Writes (j : Nat) (k u : String) (st : TransferState) : Machine.Event Running RunningLabel :=
  fun p l p' => (∃ ans, l = .run j ans) ∧ (∃ f, p.updates l = some (k, u, f)) ∧
    p'.shared.host.stateOf k u = some st

/-- Task `j` is a streaming task of the transfer, and takes the step that ends it. -/
def ComesThrough (s : Settings) (checks : Bool) (j : Nat) (k u : String) :
    List RunningLabel → Machine.Event Running RunningLabel :=
  fun ls p l _ => ∃ a ans, l = .run j (.call ans) ∧ p.tasks[j]? = some a ∧
    a.IsThrough (pastOf s checks j ls) p.shared.host.checks k u ans

/-- What a state knows about the run that has led to it. -/
structure Running.Grounded (s : Settings) (checks : Bool) (ls : List RunningLabel) (p : Running) :
    Prop where
  fit : p.Fit
  checks_eq : p.shared.host.checks = checks
  streams : ∀ (j : Nat) (a : Activity), p.tasks[j]? = some a →
    a.Streams (pastOf s checks j ls) checks
  /-- Nobody has answered a task that does not exist yet. -/
  fresh : ∀ j, p.tasks.length ≤ j → answersOf j ls = []
  chosen : ∀ j a, p.tasks[j]? = some a → ∀ k u st, a.verdict = some (k, u, st) →
    (activities s).pool.PassesFrom (Chooses s checks j k u st) [] (Running.new checks) ls
  written : ∀ k u t, p.shared.host.transfer k u = some t → t.state.isDecision = true →
    ∃ j, (activities s).pool.PassesFrom (Chooses s checks j k u t.state) [Writes j k u t.state]
      (Running.new checks) ls

/-- The update that an activity makes writes what it has chosen, or no decision. -/
theorem verdict_of_updates {a : Activity} {k u : String} {f : TransferUpdate}
    (h : a.updates = some (k, u, f)) (r : Transfer) :
    a.verdict = some (k, u, (f.apply r).state) ∨ (f.apply r).state = r.state ∨
      (f.apply r).state = .waitingPermission := by
  unfold Activity.updates at h
  split at h
  · cases h; exact .inl rfl
  · cases h; exact .inl rfl
  · cases h; exact .inl rfl
  · cases h; exact .inr (.inr rfl)
  · cases h; exact .inl rfl
  · cases h; exact .inl rfl
  · cases h; exact .inl rfl
  · cases h; exact .inl rfl
  · next task =>
    split at h
    · next st hphase =>
      cases h
      exact .inl (by simp [Activity.verdict, hphase, TransferUpdate.finishSend])
    · cases h
  · next task =>
    split at h
    · next st hphase =>
      cases h
      -- a transfer that has been stopped or canceled keeps its state
      rw [finishReceive_state]
      split
      · exact .inr (.inl rfl)
      · exact .inl (by simp [Activity.verdict, hphase])
    · cases h
  · cases h

section steps

variable {s : Settings} {checks : Bool} {ls : List RunningLabel} {p p' : Running}
  {l : RunningLabel}

theorem verdict_of_isNew {a : Activity} (h : a.isNew = true) : a.verdict = none := by
  cases a with
  | call t =>
    cases t with
    | processTransferOpRequest pc => rfl
    | startTransfer pc =>
      cases pc with
      | lookup _ => rfl
      | update _ _ _ | streaming _ | failed _ => cases h
    | peerStopTransfer pc =>
      cases pc with
      | lookup _ => rfl
      | cancel _ _ _ | update _ _ | returned _ => cases h
    | cancelTransferOpRequest pc =>
      cases pc with
      | lookup _ => rfl
      | update _ _ | returned _ => cases h
    | sendTransferRequest _ _ | acceptTransfer _ _ | stopTransfer _ _ _ | cancelTransfer _ _
    | sendStream _ | receiveStream _ => cases h
  | admission _ | sendTextMessage _ | getWorker _ _ => rfl
  | sendMessage _ _ | workerMissing => cases h

theorem verdict_start (w : Worker) (op : WorkerOp) : (op.start w).verdict = none := by
  cases op <;> rfl

theorem verdict_spawned {i i' : Instance} {a a' : Activity} {spawned : List Activity}
    (h : ActivityMove s i a i' a' spawned) {b : Activity} (hb : b ∈ spawned) :
    b.verdict = none := by
  cases h with
  | call t t' host ans ts hstep =>
    obtain ⟨t₁, ht₁, rfl⟩ := List.mem_map.1 hb
    rcases streaming_of_spawned hstep ht₁ with ⟨task, rfl, hphase⟩ | ⟨task, rfl, hphase⟩
    · simp [Activity.verdict, hphase]
    · simp [Activity.verdict, hphase]
  | getWorker _ _ _ _ | admission _ _ _ _ _ _ | sendTextMessage _ _ _ _ | sendMessage _ _ _ _ _
  | missing _ _ => cases hb

/-- The step of a call, with what it answers. -/
theorem call_of_step {i i' : Instance} {t : Task} {a' : Activity} {ans : ActivityAnswer}
    {spawned : List Activity}
    (h : (Activity.call t).step s i ans = some (i', a', spawned)) :
    ∃ ans' host' t' ts, ans = .call ans' ∧ t.step i.host ans' = some (host', t', ts) ∧
      a' = .call t' := by
  cases ans with
  | admission ans => cases h
  | call ans =>
    obtain ⟨⟨host', t', ts⟩, hstep, heq⟩ := Option.map_eq_some_iff.1 h
    cases heq
    exact ⟨ans, host', t', ts, rfl, hstep, rfl⟩

/-- An activity that has chosen a state after its step has done so before, or now. -/
theorem chosen_of_step (h : p.Grounded s checks ls) {j : Nat} {ans : ActivityAnswer}
    {a a' : Activity} {i' : Instance} {spawned : List Activity} (ha : p.tasks[j]? = some a)
    (hadvance : a.step s p.shared ans = some (i', a', spawned)) {k u : String}
    {st : TransferState} (hverdict : a'.verdict = some (k, u, st)) :
    a.verdict = some (k, u, st) ∨ Chooses s checks j k u st ls p (.run j ans) p' := by
  cases activity_move hadvance with
  | call t t' _ _ _ _ =>
    obtain ⟨ans', host', t₁, ts, rfl, hstep, heq⟩ := call_of_step hadvance
    rw [heq] at hverdict
    have hstreams : (Activity.call t).Streams (pastOf s checks j ls) p.shared.host.checks := by
      rw [h.checks_eq]
      exact h.streams j _ ha
    have hfound : ∀ k id r, p.shared.host.transferByProtocolId k id = some r →
      r.remoteUuid = k := by
      intro k id r hr
      obtain ⟨remote, hremote, hfind⟩ := Option.bind_eq_some_iff.1 hr
      exact h.fit.sound.wellFormed.transfers k remote hremote r (List.mem_of_find?_eq_some hfind)
    rcases call_verdict hstep hfound hstreams hverdict with hbefore | hground
    · exact .inl hbefore
    · exact .inr ⟨_, ans', rfl, ha, hground⟩
  | getWorker uuid op w _ =>
    rw [verdict_start] at hverdict
    cases hverdict
  | admission _ _ _ _ _ _ | sendTextMessage _ _ _ _ | sendMessage _ _ _ _ _ | missing _ _ =>
    cases hverdict

theorem answersOf_self (j : Nat) (ls : List RunningLabel) (ans : Answer) :
    answersOf j (ls ++ [.run j (.call ans)]) = answersOf j ls ++ [ans] := by
  simp [answersOf, List.filterMap_append]

theorem answersOf_other {j : Nat} {l : RunningLabel} (h : ∀ ans, l ≠ .run j ans)
    (ls : List RunningLabel) : answersOf j (ls ++ [l]) = answersOf j ls := by
  unfold answersOf
  rw [List.filterMap_append]
  cases l with
  | run i ans =>
    have hi : i ≠ j := fun heq => h ans (by rw [heq])
    cases ans with
    | call ans => simp [hi]
    | admission ans => simp
  | enter a | env e => simp

/-- A task has its past from its own steps. -/
theorem streams_kept {j : Nat} {a : Activity} (h : a.Streams (pastOf s checks j ls) checks)
    (hl : ∀ ans, l ≠ .run j ans) : a.Streams (pastOf s checks j (ls ++ [l])) checks :=
  h.mono (fun _ hspawned => hspawned.append _) (answersOf_other hl ls)

/-- The step of the task itself is the last one of its past. -/
theorem streams_self (h : p.Grounded s checks ls) {j : Nat} {ans : ActivityAnswer}
    {a a' : Activity} {i' : Instance} {spawned : List Activity} (ha : p.tasks[j]? = some a)
    (hadvance : a.step s p.shared ans = some (i', a', spawned)) :
    a'.Streams (pastOf s checks j (ls ++ [.run j ans])) checks := by
  have hmove := activity_move hadvance
  cases hmove with
  | call t t' _ _ _ _ =>
    obtain ⟨ans', host', t₁, ts, rfl, hcall, heq⟩ := call_of_step hadvance
    have hstreams : (Activity.call t).Streams (pastOf s checks j ls) p.shared.host.checks := by
      rw [h.checks_eq]
      exact h.streams j _ ha
    have hkept := call_streams hcall hstreams
    rw [h.checks_eq] at hkept
    rw [heq]
    exact hkept.mono (fun _ hspawned => hspawned.append _) (answersOf_self j ls ans')
  | getWorker uuid op w _ => cases op <;> trivial
  | admission _ _ _ _ _ _ | sendTextMessage _ _ _ _ | sendMessage _ _ _ _ _ | missing _ _ => trivial

/-- A spawned task has no past. -/
theorem streams_spawned (hrun : (activities s).pool.exec (Running.new checks) ls = some p)
    (h : p.Grounded s checks ls) {i j : Nat} {ans : ActivityAnswer} {a a' b : Activity}
    {i' : Instance} {spawned : List Activity} (ha : p.tasks[i]? = some a)
    (hadvance : a.step s p.shared ans = some (i', a', spawned))
    (hstep : (activities s).poolStep p (.run i ans) = some p') (hj : p.tasks.length ≤ j)
    (hb : p'.tasks[j]? = some b) (hspawned : b ∈ spawned) :
    b.Streams (pastOf s checks j (ls ++ [.run i ans])) checks := by
  have hmove := activity_move hadvance
  cases hmove with
  | call t t' host ans' ts hcall =>
    obtain ⟨t₁, ht₁, rfl⟩ := List.mem_map.1 hspawned
    have hi := (List.getElem?_eq_some_iff.1 ha).1
    have hnone : (activities s).pool.Passes [] (Running.new checks) ls := trivial
    have hspawns : (activities s).pool.Passes [Spawns j t₁] (Running.new checks)
        (ls ++ [.run i ans]) := hnone.snoc hrun hstep ⟨hj, hb⟩
    refine spawned_streams hcall ht₁ hspawns ?_ checks
    have hother : ∀ ans', (.run i ans : RunningLabel) ≠ .run j ans' := by
      rintro ans' heq
      cases heq
      omega
    exact (answersOf_other hother ls).trans (h.fresh j hj)
  | getWorker _ _ _ _ | admission _ _ _ _ _ _ | sendTextMessage _ _ _ _ | sendMessage _ _ _ _ _
  | missing _ _ => cases hspawned

theorem streams_of_isNew {b : Activity} (hnew : b.isNew = true) (past : Past) (checks : Bool) :
    b.Streams past checks := by
  cases b with
  | call t =>
    cases t with
    | sendStream _ | receiveStream _ => cases hnew
    | processTransferOpRequest _ | startTransfer _ | peerStopTransfer _
    | cancelTransferOpRequest _ | sendTransferRequest _ _ | acceptTransfer _ _
    | stopTransfer _ _ _ | cancelTransfer _ _ => trivial
  | admission _ | sendTextMessage _ | getWorker _ _ | sendMessage _ _ | workerMissing => trivial

theorem streams_step (hrun : (activities s).pool.exec (Running.new checks) ls = some p)
    (h : p.Grounded s checks ls) (hstep : (activities s).poolStep p l = some p') {j : Nat}
    {b : Activity} (hb : p'.tasks[j]? = some b) :
    b.Streams (pastOf s checks j (ls ++ [l])) checks := by
  cases l with
  | run i ans =>
    obtain ⟨a, i', a', spawned, ha, hadvance, heq⟩ := Tasking.run_cases hstep
    have hb' := hb
    rw [heq] at hb'
    rcases Tasking.getElem?_run_places ha hb' with ⟨rfl, rfl⟩ | ⟨hne, hold⟩ | ⟨hj, hspawned⟩
    · exact streams_self h ha hadvance
    · exact streams_kept (h.streams j b hold) fun ans' heq => hne (by cases heq; rfl)
    · exact streams_spawned hrun h ha hadvance hstep hj hb hspawned
  | enter a =>
    obtain ⟨hnew, rfl⟩ := Tasking.enter_cases hstep
    rcases Tasking.getElem?_enter_cases hb with hold | ⟨_, rfl⟩
    · exact streams_kept (h.streams j b hold) fun _ heq => by cases heq
    · exact streams_of_isNew hnew _ _
  | env e =>
    cases hstep
    exact streams_kept (h.streams j b hb) fun _ heq => by cases heq

theorem fresh_step (h : p.Grounded s checks ls) (hstep : (activities s).poolStep p l = some p')
    {j : Nat} (hj : p'.tasks.length ≤ j) : answersOf j (ls ++ [l]) = [] := by
  cases l with
  | run i ans =>
    obtain ⟨a, i', a', spawned, ha, _, rfl⟩ := Tasking.run_cases hstep
    have hi := (List.getElem?_eq_some_iff.1 ha).1
    simp only [List.length_append, List.length_set] at hj
    rw [answersOf_other (by rintro ans' heq; cases heq; omega)]
    exact h.fresh j (by omega)
  | enter a =>
    obtain ⟨_, rfl⟩ := Tasking.enter_cases hstep
    simp only [List.length_append] at hj
    rw [answersOf_other fun _ heq => by cases heq]
    exact h.fresh j (by omega)
  | env e =>
    cases hstep
    rw [answersOf_other fun _ heq => by cases heq]
    exact h.fresh j hj

/-- A state that is to be written has been chosen. -/
theorem chosen_step (hrun : (activities s).pool.exec (Running.new checks) ls = some p)
    (h : p.Grounded s checks ls) (hstep : (activities s).poolStep p l = some p') {j : Nat}
    {b : Activity} (hb : p'.tasks[j]? = some b) {k u : String} {st : TransferState}
    (hverdict : b.verdict = some (k, u, st)) :
    (activities s).pool.PassesFrom (Chooses s checks j k u st) [] (Running.new checks)
      (ls ++ [l]) := by
  cases l with
  | run i ans =>
    obtain ⟨a, i', a', spawned, ha, hadvance, rfl⟩ := Tasking.run_cases hstep
    rcases Tasking.getElem?_run_cases ha hb with ⟨rfl, rfl⟩ | ⟨_, hold⟩ | hspawned
    · rcases chosen_of_step h ha hadvance hverdict with hbefore | hnow
      · exact (h.chosen j a ha k u st hbefore).append _
      · exact .last hrun hstep hnow
    · exact (h.chosen j b hold k u st hverdict).append _
    · rw [verdict_spawned (activity_move hadvance) hspawned] at hverdict
      cases hverdict
  | enter a =>
    obtain ⟨hnew, rfl⟩ := Tasking.enter_cases hstep
    rcases Tasking.getElem?_enter_cases hb with hold | ⟨_, rfl⟩
    · exact (h.chosen j b hold k u st hverdict).append _
    · rw [verdict_of_isNew hnew] at hverdict
      cases hverdict
  | env e =>
    cases hstep
    exact (h.chosen j b hb k u st hverdict).append _

/-- A state that is stored has been written after it was chosen. -/
theorem written_step (hrun : (activities s).pool.exec (Running.new checks) ls = some p)
    (h : p.Grounded s checks ls) (hstep : (activities s).poolStep p l = some p') {k u : String}
    {r' : Transfer} (hr' : p'.shared.host.transfer k u = some r')
    (hdecision : r'.state.isDecision = true) :
    ∃ j, (activities s).pool.PassesFrom (Chooses s checks j k u r'.state) [Writes j k u r'.state]
      (Running.new checks) (ls ++ [l]) := by
  have hkept : ∀ r, p.shared.host.transfer k u = some r → r'.state = r.state →
      ∃ j, (activities s).pool.PassesFrom (Chooses s checks j k u r'.state)
        [Writes j k u r'.state] (Running.new checks) (ls ++ [l]) := by
    intro r hr hstate
    rw [hstate] at hdecision ⊢
    obtain ⟨j, hj⟩ := h.written k u r hr hdecision
    exact ⟨j, hj.append _⟩
  cases l with
  | run j ans =>
    obtain ⟨a, i', a', spawned, ha, hadvance, rfl⟩ := Tasking.run_cases hstep
    have hmem := List.mem_of_getElem? ha
    cases activity_origin (h.fit.sound.sound a hmem) (activity_move hadvance) hr' with
    | kept r hr _ _ hstate => exact hkept r hr hstate
    | updated f r hupdates hr heq =>
      rcases verdict_of_updates hupdates r with hverdict | hsame | hwaiting
      · rw [← heq] at hverdict
        -- it was chosen before, and is written now
        refine ⟨j, (h.chosen j a ha k u _ hverdict).snoc hrun hstep ⟨⟨ans, rfl⟩, ⟨f, ?_⟩, ?_⟩⟩
        · show p.tasks[j]?.bind Activity.updates = some (k, u, f)
          rw [ha]
          exact hupdates
        · exact Option.map_eq_some_iff.2 ⟨r', hr', rfl⟩
      · exact hkept r hr (by rw [heq, hsame])
      · rw [heq, hwaiting] at hdecision
        cases hdecision
    | received _ hwaiting => rw [hwaiting] at hdecision; cases hdecision
    | created w heq _ _ =>
      subst heq
      rw [(h.fit.storesBlank _ hmem).2] at hdecision
      cases hdecision
  | enter a =>
    obtain ⟨_, rfl⟩ := Tasking.enter_cases hstep
    exact hkept r' hr' rfl
  | env e =>
    cases hstep
    exact hkept r' (transfer_of_change h.fit.sound e hr') rfl

theorem grounded_step (hrun : (activities s).pool.exec (Running.new checks) ls = some p)
    (h : p.Grounded s checks ls) (hstep : (activities s).poolStep p l = some p') :
    p'.Grounded s checks (ls ++ [l]) where
  fit := fit_step h.fit hstep
  checks_eq := by
    cases l with
    | run j ans =>
      obtain ⟨a, i', a', spawned, ha, hadvance, rfl⟩ := Tasking.run_cases hstep
      exact (activity_checks (activity_move hadvance)).trans h.checks_eq
    | enter a =>
      obtain ⟨_, rfl⟩ := Tasking.enter_cases hstep
      exact h.checks_eq
    | env e =>
      cases hstep
      exact (change_checks p.shared e).trans h.checks_eq
  streams _ _ hb := streams_step hrun h hstep hb
  fresh _ hj := fresh_step h hstep hj
  chosen _ _ hb _ _ _ hverdict := chosen_step hrun h hstep hb hverdict
  written _ _ _ hr' hdecision := written_step hrun h hstep hr' hdecision

theorem grounded_new (s : Settings) (checks : Bool) :
    (Running.new checks).Grounded s checks [] where
  fit := fit_new checks
  checks_eq := rfl
  streams j a ha := by cases ha
  fresh j _ := rfl
  chosen j a ha := by cases ha
  written k u t ht := by cases ht

end steps

/-- Whatever goes on in an instance: a transfer that is shown in progress or over
    has been so chosen, on one of the grounds, by an activity that has written it
    at a later step.  One that is shown as completed has its own streaming task
    to thank for it, which has sent everything, or has processed every chunk that
    its stream has brought it and has come to the end of the stream. -/
theorem every_state_has_a_ground {s : Settings} {checks : Bool} {ls : List RunningLabel}
    {p : Running} (hrun : (activities s).pool.exec (Running.new checks) ls = some p)
    {k u : String} {t : Transfer} (ht : p.shared.host.transfer k u = some t)
    (hdecision : t.state.isDecision = true) :
    ∃ j, (activities s).pool.PassesFrom (Chooses s checks j k u t.state) [Writes j k u t.state]
        (Running.new checks) ls ∧
      (t.state = .completed → (activities s).pool.PassesFrom (ComesThrough s checks j k u)
        [Writes j k u .completed] (Running.new checks) ls) := by
  have hgrounded : p.Grounded s checks ls :=
    Machine.exec_history (H := fun ls p => Running.Grounded s checks ls p) (grounded_new s checks)
      (fun ls p l p' hrun h hstep => grounded_step hrun h hstep) hrun
  obtain ⟨j, hpasses⟩ := hgrounded.written k u t ht hdecision
  refine ⟨j, hpasses, fun hcompleted => ?_⟩
  rw [hcompleted] at hpasses
  refine hpasses.imp ?_
  rintro pre p₁ l p₂ ⟨a, ans, hl, ha, hground⟩
  exact ⟨a, ans, hl, ha, hground.isThrough rfl⟩

/-- `b` announces a transfer of one file, which the application accepts. -/
def incomingRun : List RunningLabel :=
  [.enter (.admission (.register (.lookup registrationOfB))),
    .run 0 (.admission .go), .run 0 (.admission .go), .run 0 (.admission .go),
    .enter (.call (.processTransferOpRequest
      (.add ⟨some ⟨"b", 1, "", false⟩, "b", "a", "a", 2, 1, "f", "", ["f"]⟩))),
    .run 1 (.call (.fresh ⟨0, 1⟩ 1)), .env (.disk (emptyTree (OsString.ofString "/d"))),
    .enter (.getWorker "b" (.acceptTransfer (Uuid.toString ⟨0, 1⟩) (OsString.ofString "/d"))),
    .run 2 (.call (.go 0)), .run 2 (.call (.go 0)), .run 2 (.call (.reply (.ok ()))),
    .run 2 (.call (.go 0))]

/-- Its stream brings two bytes and comes to its end. -/
def receivingRun : List RunningLabel :=
  [.run 3 (.call (.receive
      (.message (.good 1) (.ofFile "f" (some ⟨1700000000, 0, by decide, by decide⟩) [7, 8]))
        none 0)),
    .run 3 (.call (.receive .endOfStream none 0)), .run 3 (.call (.go 0))]

theorem ground_of_receivingRun :
    ∃ p t j, (activities settingsOfA).pool.exec (Running.new false) (incomingRun ++ receivingRun)
        = some p ∧
      p.shared.host.transfer "b" (Uuid.toString ⟨0, 1⟩) = some t ∧ t.state = .completed ∧
      (activities settingsOfA).pool.PassesFrom
        (ComesThrough settingsOfA false j "b" (Uuid.toString ⟨0, 1⟩))
        [Writes j "b" (Uuid.toString ⟨0, 1⟩) .completed] (Running.new false)
        (incomingRun ++ receivingRun) := by
  obtain ⟨p, hrun, t, ht, hcompleted⟩ :
      ∃ p, (activities settingsOfA).pool.exec (Running.new false) (incomingRun ++ receivingRun)
        = some p ∧
      ∃ t, p.shared.host.transfer "b" (Uuid.toString ⟨0, 1⟩) = some t ∧ t.state = .completed :=
    ⟨_, rfl, _, rfl, rfl⟩
  obtain ⟨j, _, hthrough⟩ := every_state_has_a_ground hrun ht (by rw [hcompleted]; rfl)
  exact ⟨p, t, j, hrun, ht, hcompleted, hthrough hcompleted⟩

end Warpinator
