import Warpinator.Server.Host

/-! # The Streaming Tasks

    `send_stream` and `receive_stream` as they are spawned: the inner function,
    the closing update of the transfer, and for the sender the drop of `tx`,
    which the other side sees as the end of the stream. -/

namespace Warpinator

/-! ## Section 1: Updates of the streaming tasks -/

def TransferUpdate.progress (p : Progress) : TransferUpdate where
  apply := p.apply
  uuid_apply _ := rfl
  remoteUuid_apply _ := rfl
  protocolId_apply _ := rfl

/-- The closing update of `send_stream`. -/
def TransferUpdate.finishSend (finalState : TransferState) : TransferUpdate where
  apply t := { t with state := finalState, bytesPerSecond := 0 }
  uuid_apply _ := rfl
  remoteUuid_apply _ := rfl
  protocolId_apply _ := rfl

/-- The closing update of `receive_stream`. -/
def TransferUpdate.finishReceive (finalState : TransferState) : TransferUpdate where
  apply := Warpinator.finishReceive finalState
  uuid_apply _ := rfl
  remoteUuid_apply _ := rfl
  protocolId_apply _ := rfl

theorem finishReceive_state (s : TransferState) (t : Transfer) :
    ((TransferUpdate.finishReceive s).apply t).state
      = if t.state = .stopped ∨ t.state = .canceled then t.state else s := rfl

/-- The progress updates that a step has added, applied to the record. -/
def Host.recordProgress (host : Host) (queued : Nat) (remoteUuid transferUuid : String)
    (before after : List Progress) : Host :=
  (after.drop before.length).foldl
    (fun host p => (host.updateTransfer queued remoteUuid transferUuid (.progress p)).2) host

/-! ## Section 2: The sending task -/

inductive SendPhase where
  | inner
  | closing (finalState : TransferState)
  /-- `tx` is about to be dropped. -/
  | leaving
  | done
  deriving DecidableEq

structure SendTask where
  remoteUuid : String
  transferUuid : String
  cancellationToken : TokenId
  sender : Sender
  phase : SendPhase

/-- The final state that `send_stream` picks. -/
def sendFinalState (result : Except TransferError Bool) (isCancelled : Bool) : TransferState :=
  match result with
  | .ok true => .completed
  | .error e => if isCancelled then .canceled else .failed e
  | .ok false => .canceled

/-- A task for `send_stream` as it is spawned. -/
def SendTask.new (remoteUuid transferUuid : String) (sources : List Source)
    (cancellationToken : TokenId) : SendTask where
  remoteUuid := remoteUuid
  transferUuid := transferUuid
  cancellationToken := cancellationToken
  sender := .start sources
  phase := .inner

/-- A poll answers what the token says. -/
def pollAgrees (host : Host) (token : TokenId) : SendLabel → Bool
  | .poll cancelled => cancelled == host.tokens.isCancelled token
  | _ => true

/-- One step of `send_stream`. -/
def SendTask.step (host : Host) (task : SendTask) (ans : Answer) : Option (Host × SendTask) :=
  match task.phase, ans with
  | .inner, .send l queued =>
    if pollAgrees host task.cancellationToken l then
      (sendStep task.sender l).map fun sender =>
        (host.recordProgress queued task.remoteUuid task.transferUuid task.sender.progress
          sender.progress, { task with sender := sender })
    else none
  | .inner, .go _ =>
    match task.sender.pc with
    | .returned result =>
      let finalState := sendFinalState result (host.tokens.isCancelled task.cancellationToken)
      some (host, { task with phase := .closing finalState })
    | _ => none
  | .closing finalState, .go queued =>
    some ((host.updateTransfer queued task.remoteUuid task.transferUuid
      (.finishSend finalState)).2, { task with phase := .leaving })
  | .leaving, .go _ => some (host, { task with phase := .done })
  | _, _ => none

/-! ## Section 3: The receiving task -/

inductive ReceivePhase where
  | inner
  | closing (finalState : TransferState)
  | done
  /-- The task has panicked. -/
  | panicked
  deriving DecidableEq

structure ReceiveTask where
  remoteUuid : String
  transferUuid : String
  destination : PathBuf
  cancellationToken : TokenId
  receiver : Receiver
  phase : ReceivePhase

/-- A task for `receive_stream` as it is spawned, on the tree it finds. -/
def ReceiveTask.new (remoteUuid transferUuid : String) (destination : PathBuf)
    (cancellationToken : TokenId) (node : Path → Option Node) : ReceiveTask where
  remoteUuid := remoteUuid
  transferUuid := transferUuid
  destination := destination
  cancellationToken := cancellationToken
  receiver := .start node
  phase := .inner

/-- The branch of the cancelled token is ready once the token is cancelled. -/
def wakesFor (host : Host) (token : TokenId) : StreamEvent → Bool
  | .cancelled => host.tokens.isCancelled token
  | _ => true

/-- One step of `receive_stream`. -/
def ReceiveTask.step (host : Host) (task : ReceiveTask) (ans : Answer) :
    Option (Host × ReceiveTask) :=
  match task.phase, ans with
  | .inner, .receive event fault queued =>
    if wakesFor host task.cancellationToken event then
      match receiveRound host.checks task.destination fault task.receiver event with
      | .again r =>
        some (host.recordProgress queued task.remoteUuid task.transferUuid
          task.receiver.progress r.progress, { task with receiver := r })
      | .done result r =>
        some (host, { task with receiver := r, phase := .closing (receiveFinalState result) })
      | .panic r => some (host, { task with receiver := r, phase := .panicked })
    else none
  | .closing finalState, .go queued =>
    some ((host.updateTransfer queued task.remoteUuid task.transferUuid
      (.finishReceive finalState)).2, { task with phase := .done })
  | _, _ => none

/-! ## Section 4: What a step can do -/

@[simp] theorem recordProgress_tokens (host : Host) (queued : Nat) (k u : String)
    (before after : List Progress) :
    (host.recordProgress queued k u before after).tokens = host.tokens := by
  unfold Host.recordProgress
  induction after.drop before.length generalizing host with
  | nil => rfl
  | cons p ps ih => rw [List.foldl_cons, ih, updateTransfer_tokens]

@[simp] theorem recordProgress_uuids (host : Host) (queued : Nat) (k u : String)
    (before after : List Progress) :
    (host.recordProgress queued k u before after).uuids = host.uuids := by
  unfold Host.recordProgress
  induction after.drop before.length generalizing host with
  | nil => rfl
  | cons p ps ih => rw [List.foldl_cons, ih, updateTransfer_uuids]

@[simp] theorem recordProgress_checks (host : Host) (queued : Nat) (k u : String)
    (before after : List Progress) :
    (host.recordProgress queued k u before after).checks = host.checks := by
  unfold Host.recordProgress
  induction after.drop before.length generalizing host with
  | nil => rfl
  | cons p ps ih => rw [List.foldl_cons, ih]; rfl

/-- Progress leaves every state as it is. -/
@[simp] theorem recordProgress_stateOf (host : Host) (queued : Nat) (k u : String)
    (before after : List Progress) (k' u' : String) :
    (host.recordProgress queued k u before after).stateOf k' u' = host.stateOf k' u' := by
  unfold Host.recordProgress
  induction after.drop before.length generalizing host with
  | nil => rfl
  | cons p ps ih =>
    rw [List.foldl_cons, ih, stateOf_updateTransfer]
    split
    · next h => rw [h.1, h.2]; rfl
    · rfl

theorem Host.Has.recordProgress {host : Host} {k u : String} {id : Nat} {kind : TransferKind}
    {s : TransferState} (h : host.Has k u id kind s) (queued : Nat) (before after : List Progress) :
    (host.recordProgress queued k u before after).Has k u id kind s := by
  unfold Host.recordProgress
  induction after.drop before.length generalizing host with
  | nil => exact h
  | cons p ps ih =>
    exact ih (h.update queued (.progress p) (fun s => s) (fun _ => rfl) fun _ => rfl)

theorem sendFinalState_ne_waiting (result : Except TransferError Bool) (isCancelled : Bool) :
    sendFinalState result isCancelled ≠ .waitingPermission := by
  unfold sendFinalState
  split
  · simp
  · split <;> simp
  · simp

theorem receiveFinalState_ne_waiting (result : Except TransferError Bool) :
    receiveFinalState result ≠ .waitingPermission := by
  unfold receiveFinalState
  split <;> simp

/-- The moves of a sending task. -/
inductive SendTaskMove (host : Host) (task : SendTask) : Answer → Host → SendTask → Prop where
  | inner (l : SendLabel) (queued : Nat) (sender : Sender) :
      task.phase = .inner → pollAgrees host task.cancellationToken l = true →
      sendStep task.sender l = some sender →
      SendTaskMove host task (.send l queued)
        (host.recordProgress queued task.remoteUuid task.transferUuid task.sender.progress
          sender.progress) { task with sender := sender }
  | decide (queued : Nat) (result : Except TransferError Bool) :
      task.phase = .inner → task.sender.pc = .returned result →
      SendTaskMove host task (.go queued) host { task with
        phase := .closing
          (sendFinalState result (host.tokens.isCancelled task.cancellationToken)) }
  | close (queued : Nat) (finalState : TransferState) :
      task.phase = .closing finalState →
      SendTaskMove host task (.go queued)
        (host.updateTransfer queued task.remoteUuid task.transferUuid (.finishSend finalState)).2
        { task with phase := .leaving }
  | leave (queued : Nat) :
      task.phase = .leaving →
      SendTaskMove host task (.go queued) host { task with phase := .done }

theorem SendTask.step_move {host host' : Host} {task task' : SendTask} {ans : Answer}
    (h : task.step host ans = some (host', task')) : SendTaskMove host task ans host' task' := by
  unfold SendTask.step at h
  split at h
  · next l queued hphase =>
    split at h
    · next hpoll =>
      obtain ⟨sender, hsend, heq⟩ := Option.map_eq_some_iff.1 h
      cases heq
      exact .inner l queued sender hphase hpoll hsend
    · cases h
  · next queued hphase =>
    split at h
    · next result hpc => cases h; exact .decide queued result hphase hpc
    · cases h
  · next finalState queued hphase => cases h; exact .close queued finalState hphase
  · next queued hphase => cases h; exact .leave queued hphase
  · cases h

/-- The moves of a receiving task. -/
inductive ReceiveTaskMove (host : Host) (task : ReceiveTask) :
    Answer → Host → ReceiveTask → Prop where
  | again (event : StreamEvent) (fault : Option IoErrorKind) (queued : Nat) (r : Receiver) :
      task.phase = .inner → wakesFor host task.cancellationToken event = true →
      receiveRound host.checks task.destination fault task.receiver event = .again r →
      ReceiveTaskMove host task (.receive event fault queued)
        (host.recordProgress queued task.remoteUuid task.transferUuid task.receiver.progress
          r.progress) { task with receiver := r }
  | leave (event : StreamEvent) (fault : Option IoErrorKind) (queued : Nat)
      (result : Except TransferError Bool) (r : Receiver) :
      task.phase = .inner → wakesFor host task.cancellationToken event = true →
      receiveRound host.checks task.destination fault task.receiver event = .done result r →
      ReceiveTaskMove host task (.receive event fault queued) host
        { task with receiver := r, phase := .closing (receiveFinalState result) }
  | panic (event : StreamEvent) (fault : Option IoErrorKind) (queued : Nat) (r : Receiver) :
      task.phase = .inner → wakesFor host task.cancellationToken event = true →
      receiveRound host.checks task.destination fault task.receiver event = .panic r →
      ReceiveTaskMove host task (.receive event fault queued) host
        { task with receiver := r, phase := .panicked }
  | close (queued : Nat) (finalState : TransferState) :
      task.phase = .closing finalState →
      ReceiveTaskMove host task (.go queued)
        (host.updateTransfer queued task.remoteUuid task.transferUuid
          (.finishReceive finalState)).2 { task with phase := .done }

theorem ReceiveTask.step_move {host host' : Host} {task task' : ReceiveTask} {ans : Answer}
    (h : task.step host ans = some (host', task')) :
    ReceiveTaskMove host task ans host' task' := by
  unfold ReceiveTask.step at h
  split at h
  · next event fault queued hphase =>
    split at h
    · next hwake =>
      split at h
      · next r hround => cases h; exact .again event fault queued r hphase hwake hround
      · next result r hround =>
        cases h
        exact .leave event fault queued result r hphase hwake hround
      · next r hround => cases h; exact .panic event fault queued r hphase hwake hround
    · cases h
  · next finalState queued hphase => cases h; exact .close queued finalState hphase
  · cases h

/-- The loop ends with `Ok(true)` at the end of the stream only. -/
theorem receiveRound_completed {checks : Bool} {destination : PathBuf}
    {fault : Option IoErrorKind} {r r' : Receiver} {event : StreamEvent}
    (h : receiveRound checks destination fault r event = .done (.ok true) r') :
    event = .endOfStream := by
  have hleave : ∀ result, leaveLoop checks fault result r = .done (.ok true) r' →
      result = .ok true := by
    intro result hl
    unfold leaveLoop at hl
    split at hl
    · cases hl; rfl
    · cases hl
    · cases hl
  cases event with
  | cancelled => cases hleave _ h
  | streamError => cases hleave _ h
  | endOfStream => rfl
  | message ans chunk =>
    simp only [receiveRound] at h
    split at h <;> cases h

end Warpinator
