import Warpinator.Transfers.StreamTasks

/-! # The Remote Worker

    The operations of `remote_worker.rs` on transfers, with one step from each
    await point to the next.  The manager outlives the worker here, so
    `upgrade` always succeeds. -/

namespace Warpinator

/-- What `OperationFailed` boxes. -/
inductive OperationError where
  | sourcePath (e : SourcePathError)
  | transport
  | message (text : String)

inductive RemoteWorkerError where
  | remoteNotFound
  | transferNotFound
  | noClient
  | remoteFailed (status : Status)
  | operationFailed (e : OperationError)
  | operationTimedOut
  | illegalOperation (message : String)
  | updateFailed (e : UpdateError)

structure Worker where
  /-- The uuid of the remote. -/
  uuid : String
  /-- The own full name, under which the remote knows this host. -/
  serverFullname : String
  cancellationToken : TokenId

namespace Worker

/-- The `OpInfo` that names a transfer to the remote. -/
def opInfo (w : Worker) (protocolId : Nat) : OpInfo where
  ident := w.serverFullname
  timestamp := protocolId
  readableName := ""
  useCompression := false

/-- An update of a transfer of the remote as the last step of a call. -/
def finish (w : Worker) (host : Host) (queued : Nat) (transferUuid : String) (f : TransferUpdate) :
    Host × Except RemoteWorkerError Unit :=
  match host.updateTransfer queued w.uuid transferUuid f with
  | (.ok _, host) => (host, .ok ())
  | (.error e, host) => (host, .error (.updateFailed e))

/-! ## Section 1: send_transfer_request -/

inductive SendRequestPc where
  | start (sourcePaths : List PathBuf)
  | add (transfer : Transfer)
  | process (transfer : Transfer)
  /-- The request is on its way. -/
  | request (transfer : Transfer) (req : TransferOpRequest)
  | announce (transfer : Transfer)
  | abort (transfer : Transfer) (e : SourcePathError)
  | returned (result : Except RemoteWorkerError Unit)

end Worker

/-- The closing update of `send_transfer_request`. -/
def TransferUpdate.announce (transfer : Transfer) : TransferUpdate where
  apply t := { t with
    totalBytes := transfer.totalBytes
    fileCount := transfer.fileCount
    entryNames := transfer.entryNames
    singleName := transfer.singleName
    singleMimeType := transfer.singleMimeType
    state := .waitingPermission }
  uuid_apply _ := rfl
  remoteUuid_apply _ := rfl
  protocolId_apply _ := rfl

@[simp] theorem announce_state (transfer t : Transfer) :
    ((TransferUpdate.announce transfer).apply t).state = .waitingPermission := rfl

@[simp] theorem announce_kind (transfer t : Transfer) :
    ((TransferUpdate.announce transfer).apply t).kind = t.kind := rfl

namespace Worker

def sendTransferRequest (w : Worker) (host : Host) (pc : SendRequestPc) (ans : Answer) :
    Option (Host × SendRequestPc) :=
  match pc, ans with
  | .start _, .noClient => some (host, .returned (.error .noClient))
  | .start sourcePaths, .fresh id now =>
    -- a random uuid never repeats: a second draw of one is no step
    if id.toString ∈ host.uuids then none
    else
      let (token, host) := host.childToken w.cancellationToken
      some (host.issue id, .add (.newOutgoing id now w.uuid sourcePaths token))
  -- the record is stored before its paths are processed, so that it shows at once
  | .add transfer, .go _ =>
    match host.addTransfer w.uuid transfer with
    | (.ok _, host) => some (host, .process transfer)
    | (.error e, host) => some (host, .returned (.error (.updateFailed e)))
  | .process transfer, .processed (.ok totals) =>
    let transfer := transfer.withTotals totals
    some (host, .request transfer (transfer.asProto w.serverFullname))
  | .process transfer, .processed (.error e) => some (host, .abort transfer e)
  | .request transfer _, .reply (.ok _) => some (host, .announce transfer)
  -- `?` on the call: the record stays in `Initializing`
  | .request _ _, .reply (.error status) => some (host, .returned (.error (.remoteFailed status)))
  -- the whole state is assigned, whatever the record has become since the request
  | .announce transfer, .go queued =>
    let (host, result) := w.finish host queued transfer.uuid (.announce transfer)
    some (host, .returned result)
  | .abort transfer e, .go queued =>
    -- the error of this update hides the one that led here
    match w.finish host queued transfer.uuid (.setState (.failed .failedToProcessFiles)) with
    | (host, .ok _) => some (host, .returned (.error (.operationFailed (.sourcePath e))))
    | (host, .error e) => some (host, .returned (.error e))
  | _, _ => none

/-! ## Section 2: accept_transfer -/

inductive AcceptPc where
  | lookup (transferUuid : String) (destination : PathBuf)
  | request (transferUuid : String) (destination : PathBuf) (req : OpInfo)
  | update (transferUuid : String) (destination : PathBuf)
  /-- Returned `Ok(())` with the task spawned. -/
  | receiving (task : ReceiveTask)
  | failed (e : RemoteWorkerError)

end Worker

/-- The update of `accept_transfer`. -/
def TransferUpdate.accept (destination : PathBuf) : TransferUpdate where
  apply t := { t with state := .inProgress, kind := .incoming destination }
  uuid_apply _ := rfl
  remoteUuid_apply _ := rfl
  protocolId_apply _ := rfl

@[simp] theorem accept_state (destination : PathBuf) (t : Transfer) :
    ((TransferUpdate.accept destination).apply t).state = .inProgress := rfl

namespace Worker

def acceptTransfer (w : Worker) (host : Host) (pc : AcceptPc) (ans : Answer) :
    Option (Host × AcceptPc) :=
  match pc, ans with
  | .lookup _ _, .noClient => some (host, .failed .noClient)
  | .lookup transferUuid destination, .go _ =>
    match host.transfer w.uuid transferUuid with
    | none => some (host, .failed .transferNotFound)
    | some transfer =>
      match transfer.kind with
      | .outgoing _ _ =>
        some (host, .failed (.illegalOperation "Cannot accept an outgoing transfer"))
      | .incoming _ =>
        -- the state of the record is not looked at
        some (host, .request transferUuid destination (w.opInfo transfer.protocolId))
  | .request transferUuid destination _, .reply (.ok _) =>
    some (host, .update transferUuid destination)
  | .request _ _ _, .reply (.error status) => some (host, .failed (.remoteFailed status))
  | .update transferUuid destination, .go queued =>
    match w.finish host queued transferUuid (.accept destination) with
    | (host, .error e) => some (host, .failed e)
    | (host, .ok _) =>
      let (token, host) := host.childToken w.cancellationToken
      some (host, .receiving (.new w.uuid transferUuid destination token host.disk))
  | _, _ => none

/-! ## Section 3: stop_transfer and cancel_transfer -/

/-- The steps of the two operations that take a transfer back; `μ` is the
    message they send. -/
inductive WithdrawPc (μ : Type) where
  | lookup (transferUuid : String)
  /-- An outgoing transfer; its token is about to be cancelled. -/
  | cancel (transferUuid : String) (cancellationToken : TokenId) (newState : TransferState)
    (req : μ)
  | request (transferUuid : String) (newState : TransferState) (req : μ)
  | update (transferUuid : String) (newState : TransferState)
  | returned (result : Except RemoteWorkerError Unit)

/-- Cancel the token of an outgoing transfer, send the request, then set the
    state, which depends on the kind that the lookup has found. -/
def withdraw {μ : Type} (w : Worker) (message : OpInfo → μ)
    (newState : TransferKind → TransferState)
    (host : Host) (pc : WithdrawPc μ) (ans : Answer) : Option (Host × WithdrawPc μ) :=
  match pc, ans with
  | .lookup _, .noClient => some (host, .returned (.error .noClient))
  | .lookup transferUuid, .go _ =>
    match host.transfer w.uuid transferUuid with
    | none => some (host, .returned (.error .transferNotFound))
    | some transfer =>
      let req := message (w.opInfo transfer.protocolId)
      match transfer.kind with
      | .outgoing _ token => some (host, .cancel transferUuid token (newState transfer.kind) req)
      | .incoming _ => some (host, .request transferUuid (newState transfer.kind) req)
  | .cancel transferUuid token newState req, .go _ =>
    -- the token goes before the request, so a refused request leaves it cancelled
    some (host.cancel token, .request transferUuid newState req)
  | .request transferUuid newState _, .reply (.ok _) => some (host, .update transferUuid newState)
  | .request _ _ _, .reply (.error status) => some (host, .returned (.error (.remoteFailed status)))
  | .update transferUuid newState, .go queued =>
    let (host, result) := w.finish host queued transferUuid (.setState newState)
    some (host, .returned result)
  | _, _ => none

/-- `stop_transfer`. -/
def stopTransfer (w : Worker) (error : Bool) (host : Host) (pc : WithdrawPc StopInfo)
    (ans : Answer) : Option (Host × WithdrawPc StopInfo) :=
  w.withdraw (fun info => { info := some info, error := error }) (fun _ => .stopped) host pc ans

/-- The state that `cancel_transfer` assigns. -/
def cancelState : TransferKind → TransferState
  | .incoming _ => .denied
  | .outgoing _ _ => .canceled

/-- `cancel_transfer`. -/
def cancelTransfer (w : Worker) (host : Host) (pc : WithdrawPc OpInfo) (ans : Answer) :
    Option (Host × WithdrawPc OpInfo) :=
  w.withdraw id cancelState host pc ans

/-! ## Section 4: What a step can do -/

variable {w : Worker} {host host' : Host} {ans : Answer}

theorem finish_cases (w : Worker) (host : Host) (queued : Nat) (u : String) (f : TransferUpdate) :
    (host.transfer w.uuid u = none ∧ ∃ e, w.finish host queued u f = (host, .error e)) ∨
    ((host.transfer w.uuid u).isSome ∧
      w.finish host queued u f = ((host.updateTransfer queued w.uuid u f).2, .ok ())) := by
  unfold finish
  cases ht : host.transfer w.uuid u with
  | none =>
    rw [Host.updateTransfer_none ht]
    exact .inl ⟨rfl, _, rfl⟩
  | some t =>
    rw [Host.updateTransfer_some (by rw [ht]; rfl)]
    exact .inr ⟨rfl, rfl⟩

/-- The moves of `send_transfer_request`. -/
inductive SendRequestMove (w : Worker) (host : Host) :
    SendRequestPc → Host → SendRequestPc → Prop where
  | refused (sourcePaths : List PathBuf) :
      SendRequestMove w host (.start sourcePaths) host (.returned (.error .noClient))
  | created (sourcePaths : List PathBuf) (id : Uuid) (now : Nat) (token : TokenId) :
      id.toString ∉ host.uuids →
      SendRequestMove w host (.start sourcePaths)
        ((host.childToken w.cancellationToken).2.issue id)
        (.add (.newOutgoing id now w.uuid sourcePaths token))
  | added (transfer : Transfer) :
      SendRequestMove w host (.add transfer) (host.addTransfer w.uuid transfer).2
        (.process transfer)
  | notAdded (transfer : Transfer) (e : RemoteWorkerError) :
      SendRequestMove w host (.add transfer) (host.addTransfer w.uuid transfer).2
        (.returned (.error e))
  | processed (transfer : Transfer) (totals : Totals) (req : TransferOpRequest) :
      SendRequestMove w host (.process transfer) host (.request (transfer.withTotals totals) req)
  | notProcessed (transfer : Transfer) (e : SourcePathError) :
      SendRequestMove w host (.process transfer) host (.abort transfer e)
  | answered (transfer : Transfer) (req : TransferOpRequest) :
      SendRequestMove w host (.request transfer req) host (.announce transfer)
  | failed (transfer : Transfer) (req : TransferOpRequest) (e : RemoteWorkerError) :
      SendRequestMove w host (.request transfer req) host (.returned (.error e))
  | announced (transfer : Transfer) (queued : Nat) :
      (host.transfer w.uuid transfer.uuid).isSome →
      SendRequestMove w host (.announce transfer)
        (host.updateTransfer queued w.uuid transfer.uuid (.announce transfer)).2
          (.returned (.ok ()))
  | lost (transfer : Transfer) (e : RemoteWorkerError) :
      host.transfer w.uuid transfer.uuid = none →
      SendRequestMove w host (.announce transfer) host (.returned (.error e))
  | aborted (transfer : Transfer) (e : SourcePathError) (queued : Nat) (e' : RemoteWorkerError) :
      SendRequestMove w host (.abort transfer e)
        (host.updateTransfer queued w.uuid transfer.uuid
          (.setState (.failed .failedToProcessFiles))).2 (.returned (.error e'))

/-- The moves of `accept_transfer`. -/
inductive AcceptMove (w : Worker) (host : Host) : AcceptPc → Answer → Host → AcceptPc → Prop where
  | refused (u : String) (destination : PathBuf) (ans : Answer) (e : RemoteWorkerError) :
      AcceptMove w host (.lookup u destination) ans host (.failed e)
  | found (u : String) (destination : PathBuf) (queued : Nat) (transfer : Transfer) :
      host.transfer w.uuid u = some transfer →
      AcceptMove w host (.lookup u destination) (.go queued) host
        (.request u destination (w.opInfo transfer.protocolId))
  | answered (u : String) (destination : PathBuf) (req : OpInfo) :
      AcceptMove w host (.request u destination req) (.reply (.ok ())) host (.update u destination)
  | denied (u : String) (destination : PathBuf) (req : OpInfo) (status : Status) :
      AcceptMove w host (.request u destination req) (.reply (.error status)) host
        (.failed (.remoteFailed status))
  | lost (u : String) (destination : PathBuf) (queued : Nat) (e : RemoteWorkerError) :
      host.transfer w.uuid u = none →
      AcceptMove w host (.update u destination) (.go queued) host (.failed e)
  | accepted (u : String) (destination : PathBuf) (queued : Nat) (token : TokenId)
      (disk : Path → Option Node) :
      (host.transfer w.uuid u).isSome →
      AcceptMove w host (.update u destination) (.go queued)
        ((host.updateTransfer queued w.uuid u (.accept destination)).2.childToken
          w.cancellationToken).2
        (.receiving (.new w.uuid u destination token disk))

/-- The moves of `stop_transfer` and `cancel_transfer`. -/
inductive WithdrawMove {μ : Type} (w : Worker) (message : OpInfo → μ)
    (newState : TransferKind → TransferState) (host : Host) :
    WithdrawPc μ → Answer → Host → WithdrawPc μ → Prop where
  | refused (u : String) (ans : Answer) (e : RemoteWorkerError) :
      WithdrawMove w message newState host (.lookup u) ans host (.returned (.error e))
  | foundOutgoing (u : String) (queued : Nat) (transfer : Transfer) (token : TokenId) :
      host.transfer w.uuid u = some transfer →
      WithdrawMove w message newState host (.lookup u) (.go queued) host
        (.cancel u token (newState transfer.kind) (message (w.opInfo transfer.protocolId)))
  | foundIncoming (u : String) (queued : Nat) (transfer : Transfer) :
      host.transfer w.uuid u = some transfer →
      WithdrawMove w message newState host (.lookup u) (.go queued) host
        (.request u (newState transfer.kind) (message (w.opInfo transfer.protocolId)))
  | cancelled (u : String) (queued : Nat) (token : TokenId) (s : TransferState) (req : μ) :
      WithdrawMove w message newState host (.cancel u token s req) (.go queued)
        (host.cancel token) (.request u s req)
  | answered (u : String) (s : TransferState) (req : μ) :
      WithdrawMove w message newState host (.request u s req) (.reply (.ok ())) host (.update u s)
  | denied (u : String) (s : TransferState) (req : μ) (status : Status) :
      WithdrawMove w message newState host (.request u s req) (.reply (.error status)) host
        (.returned (.error (.remoteFailed status)))
  | updated (u : String) (s : TransferState) (queued : Nat) :
      (host.transfer w.uuid u).isSome →
      WithdrawMove w message newState host (.update u s) (.go queued)
        (host.updateTransfer queued w.uuid u (.setState s)).2 (.returned (.ok ()))
  | lost (u : String) (s : TransferState) (queued : Nat) (e : RemoteWorkerError) :
      host.transfer w.uuid u = none →
      WithdrawMove w message newState host (.update u s) (.go queued) host (.returned (.error e))

theorem sendTransferRequest_move {pc pc' : SendRequestPc}
    (h : w.sendTransferRequest host pc ans = some (host', pc')) :
    SendRequestMove w host pc host' pc' := by
  unfold sendTransferRequest at h
  split at h
  · cases h; exact .refused _
  · split at h
    · cases h
    · next hid => cases h; exact .created _ _ _ _ hid
  · next transfer queued =>
    have hadded := @SendRequestMove.added w host transfer
    have hnot := @SendRequestMove.notAdded w host transfer
    split at h
    · next host₁ heq => cases h; rw [heq] at hadded; exact hadded
    · next e host₁ heq => cases h; rw [heq] at hnot; exact hnot _
  · cases h; exact .processed _ _ _
  · cases h; exact .notProcessed _ _
  · cases h; exact .answered _ _
  · cases h; exact .failed _ _ _
  · next transfer queued =>
    rcases finish_cases w host queued transfer.uuid (.announce transfer) with
      ⟨hnone, e, heq⟩ | ⟨hsome, heq⟩
    · rw [heq] at h; cases h; exact .lost _ _ hnone
    · rw [heq] at h; cases h; exact .announced _ _ hsome
  · next transfer e queued =>
    have haborted := @SendRequestMove.aborted w host transfer e queued
    rcases finish_cases w host queued transfer.uuid
      (.setState (.failed .failedToProcessFiles)) with ⟨hnone, e', heq⟩ | ⟨hsome, heq⟩
    · rw [heq] at h
      cases h
      rw [Host.updateTransfer_none hnone] at haborted
      exact haborted _
    · rw [heq] at h; cases h; exact haborted _
  · cases h

theorem acceptTransfer_move {pc pc' : AcceptPc}
    (h : w.acceptTransfer host pc ans = some (host', pc')) :
    AcceptMove w host pc ans host' pc' := by
  unfold acceptTransfer at h
  split at h
  · cases h; exact .refused _ _ _ _
  · split at h
    · cases h; exact .refused _ _ _ _
    · next transfer ht =>
      split at h
      · cases h; exact .refused _ _ _ _
      · cases h; exact .found _ _ _ _ ht
  · cases h; exact .answered _ _ _
  · cases h; exact .denied _ _ _ _
  · next u destination queued =>
    rcases finish_cases w host queued u (.accept destination) with ⟨hnone, e, heq⟩ | ⟨hsome, heq⟩
    · rw [heq] at h; cases h; exact .lost _ _ _ _ hnone
    · rw [heq] at h; cases h; exact .accepted _ _ _ _ _ hsome
  · cases h

theorem withdraw_move {μ : Type} {message : OpInfo → μ} {newState : TransferKind → TransferState}
    {pc pc' : WithdrawPc μ} (h : w.withdraw message newState host pc ans = some (host', pc')) :
    WithdrawMove w message newState host pc ans host' pc' := by
  unfold withdraw at h
  split at h
  · cases h; exact .refused _ _ _
  · split at h
    · cases h; exact .refused _ _ _
    · next transfer ht =>
      dsimp only at h
      split at h
      · cases h; exact .foundOutgoing _ _ _ _ ht
      · cases h; exact .foundIncoming _ _ _ ht
  · cases h; exact .cancelled _ _ _ _ _
  · cases h; exact .answered _ _ _
  · cases h; exact .denied _ _ _ _
  · next u s queued =>
    rcases finish_cases w host queued u (.setState s) with ⟨hnone, e, heq⟩ | ⟨hsome, heq⟩
    · rw [heq] at h; cases h; exact .lost _ _ _ _ hnone
    · rw [heq] at h; cases h; exact .updated _ _ _ hsome
  · cases h

end Worker

end Warpinator
