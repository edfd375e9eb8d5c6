import Warpinator.Types.Platform
import Warpinator.Types.Token

/-! # Transfers

    The data of `types/transfer.rs`. -/

namespace Warpinator

/-! ## Section 1: Errors -/

/-- gRPC status codes. -/
inductive Code where
  | cancelled | unknown | invalidArgument | deadlineExceeded | notFound | alreadyExists
  | permissionDenied | resourceExhausted | failedPrecondition | aborted | outOfRange
  | unimplemented | internal | unavailable | dataLoss | unauthenticated
  deriving DecidableEq, Repr

/-- `tonic::Status`. -/
structure Status where
  code : Code
  message : String
  deriving DecidableEq, Repr

inductive VirtualFilesystemError where
  | alreadySet | notSet | fileNotFound | fileAlreadyExists | permissionDenied | invalidPath
  | fileCreateError
  deriving DecidableEq, Repr

inductive TransferError where
  | connectionLost
  | storageFull
  | failedToProcessFiles
  | failedToStartTransfer (status : Status)
  | unsafePath
  | filesNotFound
  | permissionDenied
  | fileTooLarge
  | invalidFilename
  | outOfMemory
  | ioError (kind : IoErrorKind)
  | remoteError
  | virtualFilesystemError (e : VirtualFilesystemError)
  deriving DecidableEq, Repr

/-- `From<IoErrorKind> for TransferError`. -/
def TransferError.ofIoErrorKind : IoErrorKind → TransferError
  | .notFound => .filesNotFound
  | .permissionDenied => .permissionDenied
  | .readOnlyFilesystem => .permissionDenied
  | .storageFull => .storageFull
  | .fileTooLarge => .fileTooLarge
  | .invalidFilename => .invalidFilename
  | .outOfMemory => .outOfMemory
  | e => .ioError e

theorem ofIoErrorKind_ne_unsafePath (k : IoErrorKind) :
    TransferError.ofIoErrorKind k ≠ .unsafePath := by
  cases k <;> simp [TransferError.ofIoErrorKind]

/-- No local I/O error is reported as the peer's. -/
theorem ofIoErrorKind_ne_remoteError (k : IoErrorKind) :
    TransferError.ofIoErrorKind k ≠ .remoteError := by
  cases k <;> simp [TransferError.ofIoErrorKind]

/-! ## Section 2: The record -/

inductive TransferState where
  /-- New outgoing transfer. -/
  | initializing
  /-- Waiting for the other party to accept the transfer. -/
  | waitingPermission
  | inProgress
  | paused
  | completed
  | stopped
  /-- Canceled by the sender. -/
  | canceled
  /-- Denied by the other party. -/
  | denied
  | failed (e : TransferError)
  deriving DecidableEq, Repr

/-- `std::mem::discriminant`. -/
def TransferState.discriminant : TransferState → Nat
  | .initializing => 0
  | .waitingPermission => 1
  | .inProgress => 2
  | .paused => 3
  | .completed => 4
  | .stopped => 5
  | .canceled => 6
  | .denied => 7
  | .failed _ => 8

inductive TransferKind where
  | outgoing (sourcePaths : List PathBuf) (cancellationToken : TokenId)
  | incoming (destination : PathBuf)
  deriving DecidableEq

/-- The cancellation token of an outgoing transfer. -/
def TransferKind.token : TransferKind → Option TokenId
  | .outgoing _ token => some token
  | .incoming _ => none

structure Transfer where
  uuid : String
  remoteUuid : String
  protocolId : Nat
  state : TransferState
  timestamp : Nat
  totalBytes : Nat
  bytesTransferred : Nat
  bytesPerSecond : Nat
  fileCount : Nat
  entryNames : List String
  singleName : Option String
  singleMimeType : Option String
  kind : TransferKind
  deriving DecidableEq

/-- A bare record. -/
def Transfer.bare (uuid remoteUuid : String) (state : TransferState) (kind : TransferKind) :
    Transfer where
  uuid := uuid
  remoteUuid := remoteUuid
  protocolId := 0
  state := state
  timestamp := 0
  totalBytes := 0
  bytesTransferred := 0
  bytesPerSecond := 0
  fileCount := 0
  entryNames := []
  singleName := none
  singleMimeType := none
  kind := kind

/-! ## Section 3: Requests -/

/-- `proto::OpInfo`. -/
structure OpInfo where
  ident : String
  timestamp : Nat
  readableName : String
  useCompression : Bool
  deriving DecidableEq, Repr

/-- `proto::StopInfo`. -/
structure StopInfo where
  info : Option OpInfo
  error : Bool
  deriving DecidableEq, Repr

/-- `proto::TransferOpRequest`. -/
structure TransferOpRequest where
  info : Option OpInfo
  senderName : String
  receiverName : String
  receiver : String
  size : Nat
  count : Nat
  nameIfSingle : String
  mimeIfSingle : String
  topDirBasenames : List String
  deriving DecidableEq, Repr

/-- `uuid::Uuid`, as its two halves. -/
structure Uuid where
  high : BitVec 64
  low : BitVec 64
  deriving DecidableEq, Repr

/-- The hexadecimal digits of a half. -/
def hexDigits (half : BitVec 64) : List Char :=
  (List.range 16).map fun i => Nat.digitChar (half.toNat / 16 ^ (15 - i) % 16)

/-- `to_string`: the hyphenated form. -/
def Uuid.toString (id : Uuid) : String :=
  let h := hexDigits id.high
  let l := hexDigits id.low
  String.ofList (h.take 8 ++ '-' :: (h.drop 8).take 4 ++ '-' :: h.drop 12
    ++ '-' :: l.take 4 ++ '-' :: l.drop 4)

/-- `Transfer::new_outgoing` with the uuid and the time it draws. -/
def Transfer.newOutgoing (id : Uuid) (now : Nat) (remoteUuid : String)
    (sourcePaths : List PathBuf) (cancellationToken : TokenId) : Transfer where
  uuid := id.toString
  remoteUuid := remoteUuid
  protocolId := (id.high + id.low).toNat
  state := .initializing
  timestamp := now
  totalBytes := 0
  bytesTransferred := 0
  bytesPerSecond := 0
  fileCount := 0
  entryNames := []
  singleName := none
  singleMimeType := none
  kind := .outgoing sourcePaths cancellationToken

/-- `Transfer::as_proto`. -/
def Transfer.asProto (t : Transfer) (serviceId : String) : TransferOpRequest where
  info := some
    { ident := serviceId, timestamp := t.protocolId, readableName := "", useCompression := false }
  senderName := ""
  receiverName := ""
  receiver := serviceId
  size := t.totalBytes
  count := t.fileCount
  nameIfSingle := t.singleName.getD ""
  mimeIfSingle := t.singleMimeType.getD ""
  topDirBasenames := t.entryNames

/-- `From<TransferOpRequest> for Transfer` on a request with its `info`. -/
def Transfer.ofRequest (id : Uuid) (now : Nat) (info : OpInfo) (value : TransferOpRequest) :
    Transfer where
  uuid := id.toString
  remoteUuid := info.ident
  protocolId := info.timestamp
  state := .waitingPermission
  timestamp := now
  totalBytes := value.size
  bytesTransferred := 0
  bytesPerSecond := 0
  fileCount := value.count
  entryNames := value.topDirBasenames
  singleName :=
    if value.count = 1 ∧ value.nameIfSingle ≠ "" then some value.nameIfSingle else none
  singleMimeType :=
    if value.count = 1 ∧ value.mimeIfSingle ≠ "" then some value.mimeIfSingle else none
  -- the default destination, until the transfer is accepted
  kind := .incoming (OsString.ofString "/")

/-- What `process_paths` finds out about the sources. -/
structure Totals where
  totalBytes : Nat
  fileCount : Nat
  entryNames : List String
  singleName : Option String
  singleMimeType : Option String

/-- The transfer after a successful `process_paths`. -/
def Transfer.withTotals (t : Transfer) (s : Totals) : Transfer :=
  { t with
    totalBytes := s.totalBytes
    fileCount := s.fileCount
    entryNames := s.entryNames
    singleName := s.singleName
    singleMimeType := s.singleMimeType }

end Warpinator
