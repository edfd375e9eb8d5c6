import Warpinator.Transfers.StreamTasks

/-! # The Warp Server

    The handlers of `grpc/warp.rs` that work on transfers.  A handler runs from
    one await point to the next; the record it has looked up is a copy, so what
    it decides on may have changed when it writes. -/

namespace Warpinator

def Status.notFound (message : String) : Status := ⟨.notFound, message⟩
def Status.invalidArgument (message : String) : Status := ⟨.invalidArgument, message⟩
def Status.internal (message : String) : Status := ⟨.internal, message⟩
def Status.failedPrecondition (message : String) : Status := ⟨.failedPrecondition, message⟩

namespace WarpServer

/-! ## Section 1: process_transfer_op_request -/

inductive ProcessPc where
  | add (req : TransferOpRequest)
  | returned (result : Except Status Unit)

/-- A uuid that has been drawn before is not drawn again. -/
def processTransferOpRequest (host : Host) (pc : ProcessPc) (ans : Answer) :
    Option (Host × ProcessPc) :=
  match pc, ans with
  | .add req, .go _ =>
    match req.info with
    | none => some (host, .returned (.error (.invalidArgument "Missing OpInfo")))
    | some _ => none
  | .add req, .fresh id now =>
    match req.info with
    | none => none
    | some info =>
      if id.toString ∈ host.uuids then none
      else
        match (host.issue id).addTransfer info.ident (.ofRequest id now info req) with
        | (.ok _, host) => some (host, .returned (.ok ()))
        | (.error .notFound, host) =>
          some (host, .returned (.error
            (.internal "Failed to add transfer op request: NotFound")))
  | _, _ => none

/-! ## Section 2: start_transfer -/

inductive StartPc where
  | lookup (req : OpInfo)
  | update (transfer : Transfer) (sourcePaths : List PathBuf) (cancellationToken : TokenId)
  /-- Answered with the stream of the task that has been spawned. -/
  | streaming (task : SendTask)
  | failed (status : Status)

def startTransfer (host : Host) (pc : StartPc) (ans : Answer) : Option (Host × StartPc) :=
  match pc, ans with
  -- the state of the record is not looked at, so a transfer that is over can start again
  | .lookup req, .go _ =>
    match host.transferByProtocolId req.ident req.timestamp with
    | none => some (host, .failed (.notFound "Transfer not found"))
    | some transfer =>
      match transfer.kind with
      | .outgoing sourcePaths token => some (host, .update transfer sourcePaths token)
      | .incoming _ => some (host, .failed (.invalidArgument "Cannot start an incoming transfer"))
  | .update transfer sourcePaths token, .go queued =>
    match host.updateTransfer queued transfer.remoteUuid transfer.uuid (.setState .inProgress) with
    | (.error _, host) => some (host, .failed (.internal "Failed to update transfer state"))
    | (.ok _, host) =>
      some (host, .streaming
        (.new transfer.remoteUuid transfer.uuid (host.sources sourcePaths) token))
  | _, _ => none

/-! ## Section 3: stop_transfer -/

inductive StopPc where
  | lookup (req : StopInfo)
  /-- An outgoing transfer; its token is about to be cancelled. -/
  | cancel (transfer : Transfer) (cancellationToken : TokenId) (newState : TransferState)
  | update (transfer : Transfer) (newState : TransferState)
  | returned (result : Except Status Unit)

/-- The state that `stop_transfer` assigns. -/
def stopState (kind : TransferKind) (error : Bool) : TransferState :=
  match kind with
  | .outgoing _ _ => if error then .failed .remoteError else .stopped
  | .incoming _ => if error then .failed .remoteError else .canceled

def stopTransfer (host : Host) (pc : StopPc) (ans : Answer) : Option (Host × StopPc) :=
  match pc, ans with
  | .lookup req, .go _ =>
    match req.info with
    | none => some (host, .returned (.error (.invalidArgument "Missing OpInfo")))
    | some info =>
      match host.transferByProtocolId info.ident info.timestamp with
      | none => some (host, .returned (.error (.notFound "Transfer not found")))
      | some transfer =>
        match transfer.kind with
        | .outgoing _ token =>
          some (host, .cancel transfer token (stopState transfer.kind req.error))
        | .incoming _ => some (host, .update transfer (stopState transfer.kind req.error))
  -- the state to assign was chosen at the lookup
  | .cancel transfer token newState, .go _ => some (host.cancel token, .update transfer newState)
  | .update transfer newState, .go queued =>
    -- an update that finds nothing is ignored
    some ((host.updateTransfer queued transfer.remoteUuid transfer.uuid (.setState newState)).2,
      .returned (.ok ()))
  | _, _ => none

/-! ## Section 4: cancel_transfer_op_request -/

inductive CancelPc where
  | lookup (req : OpInfo)
  | update (transfer : Transfer) (newState : TransferState)
  | returned (result : Except Status Unit)

/-- The state that `cancel_transfer_op_request` assigns. -/
def cancelState : TransferKind → TransferState
  | .outgoing _ _ => .denied
  | .incoming _ => .canceled

def cancelTransferOpRequest (host : Host) (pc : CancelPc) (ans : Answer) :
    Option (Host × CancelPc) :=
  match pc, ans with
  | .lookup req, .go _ =>
    match host.transferByProtocolId req.ident req.timestamp with
    | none => some (host, .returned (.error (.notFound "Transfer not found")))
    | some transfer =>
      -- the check and the update below are two separate steps
      if transfer.state = .waitingPermission then
        some (host, .update transfer (cancelState transfer.kind))
      else
        some (host, .returned (.error (.failedPrecondition
          "Can only cancel transfers that are waiting for permission")))
  | .update transfer newState, .go queued =>
    some ((host.updateTransfer queued transfer.remoteUuid transfer.uuid (.setState newState)).2,
      .returned (.ok ()))
  | _, _ => none

/-! ## Section 5: What a step can do -/

/-- The moves of `process_transfer_op_request`. -/
inductive ProcessMove (host : Host) : ProcessPc → Host → ProcessPc → Prop where
  | refused (req : TransferOpRequest) (status : Status) :
      ProcessMove host (.add req) host (.returned (.error status))
  | added (req : TransferOpRequest) (info : OpInfo) (id : Uuid) (now : Nat)
      (result : Except Status Unit) :
      id.toString ∉ host.uuids →
      ProcessMove host (.add req)
        ((host.issue id).addTransfer info.ident (.ofRequest id now info req)).2 (.returned result)

/-- The moves of `start_transfer`. -/
inductive StartMove (host : Host) : StartPc → Host → StartPc → Prop where
  | refused (req : OpInfo) (status : Status) :
      (∀ t, host.transferByProtocolId req.ident req.timestamp = some t →
        ∃ destination, t.kind = .incoming destination) →
      StartMove host (.lookup req) host (.failed status)
  | found (req : OpInfo) (transfer : Transfer) (sourcePaths : List PathBuf) (token : TokenId) :
      host.transferByProtocolId req.ident req.timestamp = some transfer →
      StartMove host (.lookup req) host (.update transfer sourcePaths token)
  | lost (transfer : Transfer) (sourcePaths : List PathBuf) (token : TokenId) (status : Status) :
      host.transfer transfer.remoteUuid transfer.uuid = none →
      StartMove host (.update transfer sourcePaths token) host (.failed status)
  | started (transfer : Transfer) (sourcePaths : List PathBuf) (token : TokenId) (queued : Nat)
      (sources : List Source) :
      (host.transfer transfer.remoteUuid transfer.uuid).isSome →
      StartMove host (.update transfer sourcePaths token)
        (host.updateTransfer queued transfer.remoteUuid transfer.uuid (.setState .inProgress)).2
        (.streaming (.new transfer.remoteUuid transfer.uuid sources token))

/-- The moves of `stop_transfer`. -/
inductive StopMove (host : Host) : StopPc → Host → StopPc → Prop where
  | refused (req : StopInfo) (status : Status) :
      (∀ info, req.info = some info →
        host.transferByProtocolId info.ident info.timestamp = none) →
      StopMove host (.lookup req) host (.returned (.error status))
  | foundOutgoing (req : StopInfo) (info : OpInfo) (transfer : Transfer) (token : TokenId) :
      req.info = some info → host.transferByProtocolId info.ident info.timestamp = some transfer →
      StopMove host (.lookup req) host (.cancel transfer token (stopState transfer.kind req.error))
  | foundIncoming (req : StopInfo) (info : OpInfo) (transfer : Transfer) :
      req.info = some info → host.transferByProtocolId info.ident info.timestamp = some transfer →
      StopMove host (.lookup req) host (.update transfer (stopState transfer.kind req.error))
  | cancelled (transfer : Transfer) (token : TokenId) (newState : TransferState) :
      StopMove host (.cancel transfer token newState) (host.cancel token)
        (.update transfer newState)
  | updated (transfer : Transfer) (newState : TransferState) (queued : Nat) :
      StopMove host (.update transfer newState)
        (host.updateTransfer queued transfer.remoteUuid transfer.uuid (.setState newState)).2
        (.returned (.ok ()))

/-- The moves of `cancel_transfer_op_request`. -/
inductive CancelMove (host : Host) : CancelPc → Host → CancelPc → Prop where
  | refused (req : OpInfo) (status : Status) :
      (∀ t, host.transferByProtocolId req.ident req.timestamp = some t →
        t.state ≠ .waitingPermission) →
      CancelMove host (.lookup req) host (.returned (.error status))
  | found (req : OpInfo) (transfer : Transfer) :
      host.transferByProtocolId req.ident req.timestamp = some transfer →
      transfer.state = .waitingPermission →
      CancelMove host (.lookup req) host (.update transfer (cancelState transfer.kind))
  | updated (transfer : Transfer) (newState : TransferState) (queued : Nat) :
      CancelMove host (.update transfer newState)
        (host.updateTransfer queued transfer.remoteUuid transfer.uuid (.setState newState)).2
        (.returned (.ok ()))

variable {host host' : Host} {ans : Answer}

theorem processTransferOpRequest_move {pc pc' : ProcessPc}
    (h : processTransferOpRequest host pc ans = some (host', pc')) :
    ProcessMove host pc host' pc' := by
  unfold processTransferOpRequest at h
  split at h
  · next req queued =>
    split at h
    · cases h; exact .refused _ _
    · cases h
  · next req id now =>
    split at h
    · cases h
    · next info _ =>
      split at h
      · cases h
      · next hid =>
        have hadded := @ProcessMove.added host req info id now
        split at h
        · next host₁ heq => cases h; rw [heq] at hadded; exact hadded _ hid
        · next host₁ heq => cases h; rw [heq] at hadded; exact hadded _ hid
  · cases h

theorem startTransfer_move {pc pc' : StartPc} (h : startTransfer host pc ans = some (host', pc')) :
    StartMove host pc host' pc' := by
  unfold startTransfer at h
  split at h
  · next req queued =>
    split at h
    · next hnone =>
      cases h
      exact .refused _ _ fun t ht => by rw [hnone] at ht; cases ht
    · next transfer hsome =>
      split at h
      · cases h; exact .found _ _ _ _ hsome
      · next destination hkind =>
        cases h
        refine .refused _ _ fun t ht => ⟨destination, ?_⟩
        rw [hsome] at ht
        cases ht
        exact hkind
  · next transfer sourcePaths token queued =>
    cases ht : host.transfer transfer.remoteUuid transfer.uuid with
    | none =>
      rw [Host.updateTransfer_none ht] at h
      cases h
      exact .lost _ _ _ _ ht
    | some t =>
      have hsome : (host.transfer transfer.remoteUuid transfer.uuid).isSome := by simp [ht]
      rw [Host.updateTransfer_some hsome] at h
      cases h
      exact .started _ _ _ _ _ hsome
  · cases h

/-- The update of `start_transfer` on a record that is there. -/
theorem startTransfer_update {transfer : Transfer} (sourcePaths : List PathBuf) (token : TokenId)
    (queued : Nat) (h : (host.transfer transfer.remoteUuid transfer.uuid).isSome) :
    ∃ sources, startTransfer host (.update transfer sourcePaths token) (.go queued)
      = some ((host.updateTransfer queued transfer.remoteUuid transfer.uuid
          (.setState .inProgress)).2,
        .streaming (.new transfer.remoteUuid transfer.uuid sources token)) := by
  simp only [startTransfer]
  rw [Host.updateTransfer_some h]
  exact ⟨_, rfl⟩

theorem stopTransfer_move {pc pc' : StopPc} (h : stopTransfer host pc ans = some (host', pc')) :
    StopMove host pc host' pc' := by
  unfold stopTransfer at h
  split at h
  · next req queued =>
    split at h
    · next hinfo =>
      cases h
      exact .refused _ _ fun info hsome => by rw [hinfo] at hsome; cases hsome
    · next info hinfo =>
      split at h
      · next hnone =>
        cases h
        refine .refused _ _ fun info' hinfo' => ?_
        rw [hinfo] at hinfo'
        cases hinfo'
        exact hnone
      · next transfer hsome =>
        split at h
        · cases h; exact .foundOutgoing _ _ _ _ hinfo hsome
        · cases h; exact .foundIncoming _ _ _ hinfo hsome
  · cases h; exact .cancelled _ _ _
  · cases h; exact .updated _ _ _
  · cases h

theorem cancelTransferOpRequest_move {pc pc' : CancelPc}
    (h : cancelTransferOpRequest host pc ans = some (host', pc')) :
    CancelMove host pc host' pc' := by
  unfold cancelTransferOpRequest at h
  split at h
  · next req queued =>
    split at h
    · next hnone =>
      cases h
      exact .refused _ _ fun t ht => by rw [hnone] at ht; cases ht
    · next transfer hsome =>
      split at h
      · next hstate => cases h; exact .found _ _ hsome hstate
      · next hstate =>
        cases h
        refine .refused _ _ fun t ht => ?_
        rw [hsome] at ht
        cases ht
        exact hstate
  · cases h; exact .updated _ _ _
  · cases h

end WarpServer

end Warpinator
