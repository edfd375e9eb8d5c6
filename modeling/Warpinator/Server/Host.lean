import Warpinator.Server.RemoteManager
import Warpinator.Transfers.Sender

/-! # A Host

    What the calls and tasks of one running instance share: the manager, the
    cancellation tokens, the uuids drawn so far and the local files.

    Calls and tasks advance from one await point to the next, one at a time and
    in any order.  Whatever a step is told from outside (a reply, a new uuid,
    an I/O result) is its `Answer`. -/

namespace Warpinator

structure Host where
  manager : RemoteManager
  tokens : Tokens
  /-- The uuids drawn so far. -/
  uuids : List String
  /-- The files that sources are read from. -/
  files : PathBuf → SourceKind
  /-- The tree that a receiving task starts on. -/
  disk : Path → Option Node
  /-- The build has overflow checks on. -/
  checks : Bool

/-- Why `process_paths` failed. -/
inductive SourcePathError where
  | virtualFilesystemError (e : VirtualFilesystemError)
  | ioError (kind : IoErrorKind)
  | unsupportedPathType (path : PathBuf)

inductive Answer where
  /-- Nothing comes from outside; `queued` is the value of `event_tx.len()`. -/
  | go (queued : Nat)
  /-- The worker has no gRPC client. -/
  | noClient
  /-- The next uuid and the time. -/
  | fresh (id : Uuid) (now : Nat)
  | processed (result : Except SourcePathError Totals)
  | reply (result : Except Status Unit)
  | send (l : SendLabel) (queued : Nat)
  | receive (event : StreamEvent) (fault : Option IoErrorKind) (queued : Nat)

namespace Host

/-- A host that knows one remote with one transfer. -/
def single (remoteUuid : String) (t : Transfer) : Host where
  manager :=
    { remotes := fun uuid =>
        if uuid = remoteUuid then
          some { Remote.new remoteUuid (.v4 0) 0 0 remoteUuid "" with transfers := [t] }
        else none
      events := [] }
  tokens := { cancelled := [], issued := 0 }
  uuids := [t.uuid]
  files := fun _ => .other
  disk := fun _ => none
  checks := false

def transfer (host : Host) (remoteUuid transferUuid : String) : Option Transfer :=
  host.manager.transfer remoteUuid transferUuid

def transferByProtocolId (host : Host) (remoteUuid : String) (id : Nat) : Option Transfer :=
  host.manager.transferByProtocolId remoteUuid id

/-- The sources at the given paths. -/
def sources (host : Host) (paths : List PathBuf) : List Source :=
  paths.map fun path => { path := path, kind := host.files path }

/-- The state of a transfer record. -/
def stateOf (host : Host) (remoteUuid transferUuid : String) : Option TransferState :=
  (host.transfer remoteUuid transferUuid).map Transfer.state

def updateTransfer (host : Host) (queued : Nat) (remoteUuid transferUuid : String)
    (f : TransferUpdate) : Except UpdateError Unit × Host :=
  let (result, manager) := host.manager.updateTransfer queued remoteUuid transferUuid f
  (result, { host with manager := manager })

def addTransfer (host : Host) (remoteUuid : String) (t : Transfer) :
    Except UpdateError Unit × Host :=
  let (result, manager) := host.manager.addTransfer remoteUuid t
  (result, { host with manager := manager })

/-- `token.cancel()`. -/
def cancel (host : Host) (token : TokenId) : Host :=
  { host with tokens := host.tokens.cancel token }

/-- `token.child_token()`. -/
def childToken (host : Host) (token : TokenId) : TokenId × Host :=
  let (child, tokens) := host.tokens.child token
  (child, { host with tokens := tokens })

def issue (host : Host) (id : Uuid) : Host := { host with uuids := id.toString :: host.uuids }

end Host

section lookups

variable (host : Host) (k u : String)

@[simp] theorem updateTransfer_tokens (queued : Nat) (f : TransferUpdate) :
    (host.updateTransfer queued k u f).2.tokens = host.tokens := rfl

@[simp] theorem updateTransfer_uuids (queued : Nat) (f : TransferUpdate) :
    (host.updateTransfer queued k u f).2.uuids = host.uuids := rfl

theorem Host.transfer_updateTransfer (queued : Nat) (f : TransferUpdate) (k' u' : String) :
    (host.updateTransfer queued k u f).2.transfer k' u'
      = if k' = k ∧ u' = u then (host.transfer k u).map f.apply else host.transfer k' u' :=
  Warpinator.transfer_updateTransfer host.manager k u queued f k' u'

theorem Host.transfer_addTransfer (t : Transfer) (k' u' : String) :
    (host.addTransfer k t).2.transfer k' u'
      = if k' = k ∧ (host.manager.remotes k).isSome ∧ t.uuid = u'
        then (host.transfer k' u').or (some t) else host.transfer k' u' :=
  Warpinator.transfer_addTransfer host.manager k t k' u'

theorem Host.updateTransfer_ok (queued : Nat) (f : TransferUpdate) :
    (host.updateTransfer queued k u f).1 = .ok () ↔ (host.transfer k u).isSome :=
  Warpinator.updateTransfer_ok host.manager k u queued f

theorem Host.updateTransfer_none {host : Host} {k u : String} (h : host.transfer k u = none)
    (queued : Nat) (f : TransferUpdate) :
    host.updateTransfer queued k u f = (.error .notFound, host) := by
  have hmanager : host.manager.updateTransfer queued k u f = (.error .notFound, host.manager) := by
    have hnone : host.manager.transfer k u = none := h
    unfold RemoteManager.updateTransfer
    cases host.manager.remotes k <;> simp [hnone]
  simp [Host.updateTransfer, hmanager]

theorem Host.updateTransfer_some {host : Host} {k u : String} (h : (host.transfer k u).isSome)
    (queued : Nat) (f : TransferUpdate) :
    host.updateTransfer queued k u f = (.ok (), (host.updateTransfer queued k u f).2) :=
  Prod.ext ((host.updateTransfer_ok k u queued f).2 h) rfl

theorem stateOf_updateTransfer (queued : Nat) (f : TransferUpdate) (k' u' : String) :
    (host.updateTransfer queued k u f).2.stateOf k' u'
      = if k' = k ∧ u' = u then (host.transfer k u).map fun t => (f.apply t).state
        else host.stateOf k' u' := by
  unfold Host.stateOf
  rw [Host.transfer_updateTransfer]
  split
  · rw [Option.map_map]; rfl
  · rfl

@[simp] theorem stateOf_issue (id : Uuid) : (host.issue id).stateOf k u = host.stateOf k u := rfl

end lookups

/-! ## Section 2: A record under observation -/

/-- The transfer `u` of the remote `k`, found by its uuid and by its protocol
    id, with its kind and its state. -/
def Host.Has (host : Host) (k u : String) (id : Nat) (kind : TransferKind) (s : TransferState) :
    Prop :=
  ∃ t, Addresses host.manager k u id t ∧ t.remoteUuid = k ∧ t.kind = kind ∧ t.state = s

section has

variable {host : Host} {k u : String} {id : Nat} {kind : TransferKind} {s : TransferState}

theorem Host.Has.stateOf (h : host.Has k u id kind s) : host.stateOf k u = some s := by
  obtain ⟨t, haddr, _, _, rfl⟩ := h
  have ht : host.transfer k u = some t := haddr.byUuid
  simp [Host.stateOf, ht]

theorem Host.Has.isSome (h : host.Has k u id kind s) : (host.transfer k u).isSome := by
  obtain ⟨t, haddr, _⟩ := h
  have ht : host.transfer k u = some t := haddr.byUuid
  simp [ht]

/-- What a handler finds under the protocol id. -/
theorem Host.Has.found (h : host.Has k u id kind s) {t : Transfer}
    (ht : host.transferByProtocolId k id = some t) :
    t.remoteUuid = k ∧ t.uuid = u ∧ t.kind = kind ∧ t.state = s := by
  obtain ⟨t', haddr, hk, hkind, hs⟩ := h
  have heq : some t' = some t := haddr.byProtocolId.symm.trans ht
  cases heq
  refine ⟨hk, ?_, hkind, hs⟩
  obtain ⟨r, _, hfind⟩ := Option.bind_eq_some_iff.1 haddr.byUuid
  simpa using List.find?_some hfind

theorem Host.Has.exists_found (h : host.Has k u id kind s) :
    ∃ t, host.transferByProtocolId k id = some t :=
  let ⟨t, haddr, _⟩ := h
  ⟨t, haddr.byProtocolId⟩

theorem Host.Has.of_manager {host' : Host} (h : host.Has k u id kind s)
    (hmanager : host'.manager = host.manager) : host'.Has k u id kind s := by
  unfold Host.Has
  rw [hmanager]
  exact h

/-- An update that keeps the kind and takes the state by `g`. -/
theorem Host.Has.update (h : host.Has k u id kind s) (queued : Nat) (f : TransferUpdate)
    (g : TransferState → TransferState) (hkind : ∀ t, (f.apply t).kind = t.kind)
    (hstate : ∀ t, (f.apply t).state = g t.state) :
    (host.updateTransfer queued k u f).2.Has k u id kind (g s) := by
  obtain ⟨t, haddr, hk, rfl, rfl⟩ := h
  exact ⟨f.apply t, haddr.updateTransfer queued f, by simp [hk], hkind t, hstate t⟩

end has

end Warpinator
