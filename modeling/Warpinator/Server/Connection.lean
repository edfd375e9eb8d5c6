import Warpinator.Server.Authenticator
import Warpinator.Server.RemoteWorker

/-! # The Connection to a Remote

    `connect`, `disconnect` and the loop of `remote_worker.rs`, with one step
    from each await point to the next.

    `ping`, `wait_for_duplex` and the two fetches keep a read guard of the client
    until they return, so nothing writes the client in the meantime. -/

namespace Warpinator

/-! ## Section 1: Errors -/

inductive ReceiveCertError where
  | noRemote
  | requestFailed (status : Status)
  | decodingCertificateFailed
  | malformedCertificate
  | wrongGroupCode
  | offline

inductive ConnectRemoteError where
  | certificateError (e : ReceiveCertError)
  | tlsError (e : RemoteWorkerError)
  | pingError (e : RemoteWorkerError)
  | duplexError (e : RemoteWorkerError)
  | remoteWorkerNotFound

/-- The state that `connect` leaves after a failed `receive_certificate`. -/
def ReceiveCertError.state : ReceiveCertError → RemoteState
  | .wrongGroupCode => .error .groupCodeMismatch
  | .offline => .disconnected
  | _ => .error .noCertificate

/-- How a call over the channel fails. -/
inductive RpcFailure where
  | status (s : Status)
  | elapsed

def RpcFailure.toError : RpcFailure → RemoteWorkerError
  | .status s => .remoteFailed s
  | .elapsed => .operationTimedOut

/-! ## Section 2: The state of a worker -/

/-- What a channel has been built from. -/
structure Channel where
  certPem : List UInt8
  ip : IpAddr
  port : BitVec 16

/-- The fields of a worker that never change. -/
structure Connector where
  uuid : String
  serverFullname : String
  serverHostname : String
  authenticator : Authenticator

structure Connection where
  manager : RemoteManager
  /-- The value of `state_tx`, how often it was sent and who still listens. -/
  watch : RemoteState
  sends : Nat
  receivers : Nat
  channel : Option Channel
  client : Option Channel
  /-- The read guards of `client` that are alive. -/
  readers : Nat

namespace Connection

/-- A worker that `RemoteWorker::new` has just made. -/
def new (manager : RemoteManager) : Connection where
  manager := manager
  watch := .disconnected
  sends := 0
  receivers := 1
  channel := none
  client := none
  readers := 0

/-- The first half of `set_state`.  Without a receiver nothing is sent. -/
def sendState (c : Connection) (state : RemoteState) : Connection :=
  if c.receivers = 0 then c else { c with watch := state, sends := c.sends + 1 }

def updateRemote (c : Connection) (uuid : String) (f : Remote → Remote) : Connection :=
  { c with manager := (c.manager.updateRemote uuid f).2 }

/-- The second half of `set_state`. -/
def storeState (c : Connection) (uuid : String) (state : RemoteState) : Connection :=
  c.updateRemote uuid fun r => { r with state := state }

def lock (c : Connection) : Connection := { c with readers := c.readers + 1 }

def unlock (c : Connection) : Connection := { c with readers := c.readers - 1 }

def subscribe (c : Connection) : Connection := { c with receivers := c.receivers + 1 }

def unsubscribe (c : Connection) : Connection := { c with receivers := c.receivers - 1 }

end Connection

inductive SetStatePc where
  | send
  | store
  deriving DecidableEq

/-! ## Section 3: connect -/

structure RemoteMachineInfo where
  displayName : String
  userName : String
  featureFlags : BitVec 32

/-- What `connect` does after `set_state`. -/
inductive ConnectNext where
  | certificate
  | fail (e : ConnectRemoteError)
  | duplex
  | fetch

inductive ConnectPc where
  | setState (phase : SetStatePc) (state : RemoteState) (next : ConnectNext)
  | certificate
  | requestCertificate (ip : IpAddr) (authPort : BitVec 16)
  | storeCertificate (certPem : List UInt8)
  | buildChannel (certPem : List UInt8)
  | dial (channel : Channel)
  | setChannel (channel : Channel)
  | setClient (channel : Channel)
  | ping
  | pinging (client : Channel)
  | clearChannel (state : RemoteConnectionError) (e : ConnectRemoteError)
  | clearClient (state : RemoteConnectionError) (e : ConnectRemoteError)
  | waitForDuplex
  /-- The request is on its way. -/
  | waiting (client : Channel)
  | fetchMachineInfo
  | fetchingMachineInfo (client : Channel)
  | storeMachineInfo (info : RemoteMachineInfo)
  | fetchAvatar
  | fetchingAvatar (client : Channel)
  | storeAvatar (bytes : List UInt8)
  | returned (result : Except ConnectRemoteError Unit)

def ConnectNext.pc : ConnectNext → ConnectPc
  | .certificate => .certificate
  | .fail e => .returned (.error e)
  | .duplex => .waitForDuplex
  | .fetch => .fetchMachineInfo

namespace ConnectPc

def start : ConnectPc := .setState .send .connecting .certificate

def rejected (e : ReceiveCertError) : ConnectPc :=
  .setState .send e.state (.fail (.certificateError e))

def unreachable (e : RemoteWorkerError) : ConnectPc :=
  .setState .send (.error .sslError) (.fail (.tlsError e))

end ConnectPc

def ConnectPc.isReturned : ConnectPc → Bool
  | .returned _ => true
  | _ => false

/-- What a step of `connect` is told. -/
inductive ConnectAnswer where
  | go
  /-- The registration service cannot be reached. -/
  | offline
  | refused (status : Status)
  | lockedCert (text : String)
  | dialed
  | undialed
  | pong
  | haveDuplex (response : Bool)
  | machineInfo (info : RemoteMachineInfo)
  | avatar (bytes : List UInt8)
  | failed (e : RpcFailure)

/-- The text without line breaks. -/
def cleanedCert (lockedCert : String) : String :=
  String.ofList (lockedCert.toList.filter fun c => c ≠ '\n' ∧ c ≠ '\r')

/-- What `receive_certificate` makes of a response. -/
def Authenticator.receive (crypto : Crypto) (a : Authenticator) (lockedCert : String) :
    Except ReceiveCertError (List UInt8) :=
  match crypto.decode (cleanedCert lockedCert) with
  | none => .error .decodingCertificateFailed
  | some decoded =>
    match a.unboxCert crypto decoded with
    | .error .boxTooShort => .error .malformedCertificate
    | .error .decryptionFailed => .error .wrongGroupCode
    | .ok certPem => .ok certPem

/-- The bits of `ProtocolFeatures` that have a name. -/
def knownFeatures : BitVec 32 := 1

namespace Connector

def connect (crypto : Crypto) (w : Connector) (c : Connection) (pc : ConnectPc)
    (ans : ConnectAnswer) : Option (Connection × ConnectPc) :=
  match pc, ans with
  | .setState .send state next, .go => some (c.sendState state, .setState .store state next)
  | .setState .store state next, .go => some (c.storeState w.uuid state, next.pc)
  | .certificate, .go =>
    match c.manager.remote w.uuid with
    | none => some (c, .rejected .noRemote)
    | some remote => some (c, .requestCertificate remote.ip remote.authPort)
  | .requestCertificate _ _, .offline => some (c, .rejected .offline)
  | .requestCertificate _ _, .refused status => some (c, .rejected (.requestFailed status))
  | .requestCertificate _ _, .lockedCert text =>
    match w.authenticator.receive crypto text with
    | .error e => some (c, .rejected e)
    | .ok certPem => some (c, .storeCertificate certPem)
  | .storeCertificate certPem, .go =>
    match c.manager.updateRemote w.uuid fun r => { r with certPem := some certPem } with
    | (.error _, _) => some (c, .rejected .noRemote)
    | (.ok _, manager) => some ({ c with manager := manager }, .buildChannel certPem)
  | .buildChannel certPem, .go =>
    match c.manager.remote w.uuid with
    | none => some (c, .unreachable .remoteNotFound)
    | some remote => some (c, .dial { certPem := certPem, ip := remote.ip, port := remote.port })
  | .dial channel, .dialed => some (c, .setChannel channel)
  | .dial _, .undialed => some (c, .unreachable (.operationFailed .transport))
  | .setChannel channel, .go => some ({ c with channel := some channel }, .setClient channel)
  | .setClient channel, .go =>
    if c.readers = 0 then some ({ c with client := some channel }, .ping) else none
  | .ping, .go =>
    match c.client with
    | none => some (c, .clearChannel .sslError (.pingError .noClient))
    | some client => some (c.lock, .pinging client)
  | .pinging _, .pong => some (c.unlock, .setState .send .awaitingDuplex .duplex)
  | .pinging _, .failed e => some (c.unlock, .clearChannel .sslError (.pingError e.toError))
  | .clearChannel state e, .go => some ({ c with channel := none }, .clearClient state e)
  | .clearClient state e, .go =>
    if c.readers = 0 then some ({ c with client := none }, .setState .send (.error state) (.fail e))
    else none
  | .waitForDuplex, .go =>
    match c.client with
    | none => some (c, .clearChannel .duplexError (.duplexError .noClient))
    | some client => some (c.lock, .waiting client)
  | .waiting _, .haveDuplex true => some (c.unlock, .setState .send .connected .fetch)
  | .waiting _, .haveDuplex false =>
    some (c.unlock, .clearChannel .duplexError
      (.duplexError (.operationFailed (.message "Duplex not established"))))
  | .waiting _, .failed e => some (c.unlock, .clearChannel .duplexError (.duplexError e.toError))
  | .fetchMachineInfo, .go =>
    match c.client with
    | none => some (c, .fetchAvatar)
    | some client => some (c.lock, .fetchingMachineInfo client)
  | .fetchingMachineInfo _, .machineInfo info => some (c, .storeMachineInfo info)
  | .fetchingMachineInfo _, .failed _ => some (c.unlock, .fetchAvatar)
  | .storeMachineInfo info, .go =>
    let c := c.updateRemote w.uuid fun r => { r with
      displayName := info.displayName
      username := info.userName
      features := info.featureFlags &&& knownFeatures }
    some (c.unlock, .fetchAvatar)
  | .fetchAvatar, .go =>
    match c.client with
    | none => some (c, .returned (.ok ()))
    | some client => some (c.lock, .fetchingAvatar client)
  | .fetchingAvatar _, .avatar bytes => some (c, .storeAvatar bytes)
  | .fetchingAvatar _, .failed _ => some (c.unlock, .returned (.ok ()))
  | .storeAvatar bytes, .go =>
    let picture := if bytes.isEmpty then none else some bytes
    let c := c.updateRemote w.uuid fun r => { r with
      picture := picture
      pictureVersion := r.pictureVersion + 1 }
    some (c.unlock, .returned (.ok ()))
  | _, _ => none

end Connector

/-! ## Section 4: The loop of a worker -/

inductive LoopPc where
  | borrow
  /-- The `select!` in the state `Connected`, -/
  | connected
  /-- in `wait_then_reconnect` -/
  | retry
  /-- and in the remaining states. -/
  | watching
  | connect
  | connecting (call : Nat)
  | ping
  | pinging (client : Channel)
  | lost (phase : SetStatePc)
  | clearChannel
  | clearClient
  | disconnectChannel
  | disconnectClient
  | disconnect (phase : SetStatePc)
  | stopped

structure Loop where
  pc : LoopPc
  /-- The number of sends that `state_rx` has seen. -/
  seen : Nat

inductive LoopAnswer where
  | go
  | cancelled
  | slept
  | changed
  | pong
  | failed (e : RpcFailure)

namespace LoopPc

/-- Where the loop waits in the given state; it breaks out of a group code
    mismatch. -/
def select : RemoteState → Option LoopPc
  | .connected => some .connected
  | .disconnected => some .retry
  | .error .groupCodeMismatch => none
  | .error _ => some .retry
  | _ => some .watching

/-- The loop handles a failed ping or is in `disconnect`. -/
def handling : LoopPc → Bool
  | .lost _ | .clearChannel | .clearClient => true
  | .disconnectChannel | .disconnectClient | .disconnect _ => true
  | _ => false

def selecting : LoopPc → Bool
  | .connected | .retry | .watching => true
  | _ => false

end LoopPc

namespace Connector

/-- A step of the loop, apart from `connect().await`. -/
def loop (w : Connector) (c : Connection) (l : Loop) (ans : LoopAnswer) :
    Option (Connection × Loop) :=
  match l.pc, ans with
  | .borrow, .go =>
    match LoopPc.select c.watch with
    | some pc => some (c, { l with pc := pc })
    | none => some (c.unsubscribe, { l with pc := .stopped })
  | pc, .cancelled => if pc.selecting then some (c, { l with pc := .disconnectChannel }) else none
  | pc, .changed =>
    if pc.selecting ∧ c.sends ≠ l.seen then some (c, { pc := .borrow, seen := c.sends }) else none
  | .connected, .slept => some (c, { l with pc := .ping })
  | .retry, .slept => some (c, { l with pc := .connect })
  | .ping, .go =>
    match c.client with
    | none => some (c, { l with pc := .lost .send })
    | some client => some (c.lock, { l with pc := .pinging client })
  | .pinging _, .pong => some (c.unlock, { l with pc := .borrow })
  | .pinging _, .failed _ => some (c.unlock, { l with pc := .lost .send })
  | .lost .send, .go => some (c.sendState .disconnected, { l with pc := .lost .store })
  | .lost .store, .go => some (c.storeState w.uuid .disconnected, { l with pc := .clearChannel })
  | .clearChannel, .go => some ({ c with channel := none }, { l with pc := .clearClient })
  | .clearClient, .go =>
    if c.readers = 0 then some ({ c with client := none }, { l with pc := .borrow }) else none
  | .disconnectChannel, .go => some ({ c with channel := none }, { l with pc := .disconnectClient })
  | .disconnectClient, .go =>
    if c.readers = 0 then some ({ c with client := none }, { l with pc := .disconnect .send })
    else none
  | .disconnect .send, .go =>
    some (c.sendState .disconnected, { l with pc := .disconnect .store })
  | .disconnect .store, .go =>
    some ((c.storeState w.uuid .disconnected).unsubscribe, { l with pc := .stopped })
  | _, _ => none

end Connector

/-! ## Section 5: What a step can do -/

/-- The state in the record of the remote. -/
def Connection.stateOf (c : Connection) (uuid : String) : Option RemoteState :=
  (c.manager.remote uuid).map Remote.state

section records

variable (c : Connection) (uuid : String)

theorem stateOf_updateRemote (f : Remote → Remote) (uuid' : String) :
    (c.updateRemote uuid f).stateOf uuid'
      = if uuid' = uuid then (c.manager.remote uuid).map fun r => (f r).state
        else c.stateOf uuid' := by
  unfold Connection.updateRemote Connection.stateOf RemoteManager.updateRemote
    RemoteManager.remote
  cases hr : c.manager.remotes uuid with
  | none =>
    by_cases hu : uuid' = uuid
    · simp [hu, hr]
    · simp [hu]
  | some r =>
    by_cases hu : uuid' = uuid
    · simp [hu, RemoteManager.setRemote]
    · simp [hu, RemoteManager.setRemote]

@[simp] theorem stateOf_storeState (state : RemoteState) :
    (c.storeState uuid state).stateOf uuid = (c.stateOf uuid).map fun _ => state := by
  unfold Connection.storeState
  rw [stateOf_updateRemote, if_pos rfl]
  simp [Connection.stateOf, Function.comp_def]

@[simp] theorem stateOf_sendState (state : RemoteState) :
    (c.sendState state).stateOf uuid = c.stateOf uuid := by
  unfold Connection.sendState
  split <;> rfl

@[simp] theorem client_sendState (state : RemoteState) : (c.sendState state).client = c.client := by
  unfold Connection.sendState
  split <;> rfl

/-- An update that keeps the state of the record. -/
theorem stateOf_updateRemote_of_keeps {f : Remote → Remote} (hf : ∀ r, (f r).state = r.state) :
    (c.updateRemote uuid f).stateOf uuid = c.stateOf uuid := by
  rw [stateOf_updateRemote, if_pos rfl]
  simp [Connection.stateOf, hf]

end records

/-- The state between the two writes of `set_state`. -/
def ConnectPc.between : ConnectPc → Option RemoteState
  | .setState .store state _ => some state
  | _ => none

/-- The state that `set_state` is about to write. -/
def ConnectPc.sets : ConnectPc → Option RemoteState
  | .setState _ state _ => some state
  | _ => none

/-- A `set_state` is on its way that will not write `Connected`. -/
def ConnectPc.alters (pc : ConnectPc) : Bool :=
  match pc.sets with
  | some state => state != .connected
  | none => false

/-- A step that leaves both copies of the state alone and does not clear the
    client. -/
structure Silent (uuid : String) (c c' : Connection) : Prop where
  stateOf : c'.stateOf uuid = c.stateOf uuid
  watch : c'.watch = c.watch
  receivers : c'.receivers = c.receivers
  client : c.client.isSome → c'.client.isSome

theorem Silent.refl (uuid : String) (c : Connection) : Silent uuid c c := ⟨rfl, rfl, rfl, id⟩

/-- The moves of `connect`, as far as the two copies of the state and the
    client are concerned. -/
inductive ConnectMove (w : Connector) (c : Connection) :
    ConnectPc → Connection → ConnectPc → Prop
  | send (state : RemoteState) (next : ConnectNext) :
      ConnectMove w c (.setState .send state next) (c.sendState state) (.setState .store state next)
  | store (state : RemoteState) (next : ConnectNext) :
      ConnectMove w c (.setState .store state next) (c.storeState w.uuid state) next.pc
  | clear (state : RemoteConnectionError) (e : ConnectRemoteError) :
      ConnectMove w c (.clearClient state e) { c with client := none }
        (.setState .send (.error state) (.fail e))
  | silent (pc : ConnectPc) (c' : Connection) (pc' : ConnectPc) :
      Silent w.uuid c c' → pc.sets = none → pc'.between = none → ConnectMove w c pc c' pc'

theorem ConnectNext.between_pc (next : ConnectNext) : next.pc.between = none := by
  cases next <;> rfl

theorem Connector.connect_move {crypto : Crypto} {w : Connector} {c c' : Connection}
    {pc pc' : ConnectPc} {ans : ConnectAnswer} (h : w.connect crypto c pc ans = some (c', pc')) :
    ConnectMove w c pc c' pc' := by
  have hsame : ∀ {pc pc'}, pc.sets = none → pc'.between = none → ConnectMove w c pc c pc' :=
    fun {pc pc'} hpc hpc' => .silent pc c pc' (.refl _ _) hpc hpc'
  unfold Connector.connect at h
  -- the branches in the order of `connect`: state, certificate, channel, ping, duplex, machine
  -- info, avatar
  split at h
  · cases h; exact .send _ _
  · cases h; exact .store _ _
  · split at h <;> cases h <;> exact hsame rfl rfl
  · cases h; exact hsame rfl rfl
  · cases h; exact hsame rfl rfl
  · split at h <;> cases h <;> exact hsame rfl rfl
  · next certPem =>
    have hkeep := stateOf_updateRemote_of_keeps c w.uuid
      (f := fun r => { r with certPem := some certPem }) fun _ => rfl
    split at h
    · cases h; exact hsame rfl rfl
    · next manager heq =>
      cases h
      unfold Connection.updateRemote at hkeep
      rw [heq] at hkeep
      exact .silent _ _ _ ⟨hkeep, rfl, rfl, id⟩ rfl rfl
  · split at h <;> cases h <;> exact hsame rfl rfl
  · cases h; exact hsame rfl rfl
  · cases h; exact hsame rfl rfl
  · cases h; exact .silent _ _ _ ⟨rfl, rfl, rfl, id⟩ rfl rfl
  · split at h
    · cases h; exact .silent _ _ _ ⟨rfl, rfl, rfl, fun _ => rfl⟩ rfl rfl
    · cases h
  · split at h
    · cases h; exact hsame rfl rfl
    · cases h; exact .silent _ _ _ ⟨rfl, rfl, rfl, id⟩ rfl rfl
  · cases h; exact .silent _ _ _ ⟨rfl, rfl, rfl, id⟩ rfl rfl
  · cases h; exact .silent _ _ _ ⟨rfl, rfl, rfl, id⟩ rfl rfl
  · cases h; exact .silent _ _ _ ⟨rfl, rfl, rfl, id⟩ rfl rfl
  · split at h
    · cases h; exact .clear _ _
    · cases h
  · split at h
    · cases h; exact hsame rfl rfl
    · cases h; exact .silent _ _ _ ⟨rfl, rfl, rfl, id⟩ rfl rfl
  · cases h; exact .silent _ _ _ ⟨rfl, rfl, rfl, id⟩ rfl rfl
  · cases h; exact .silent _ _ _ ⟨rfl, rfl, rfl, id⟩ rfl rfl
  · cases h; exact .silent _ _ _ ⟨rfl, rfl, rfl, id⟩ rfl rfl
  · split at h
    · cases h; exact hsame rfl rfl
    · cases h; exact .silent _ _ _ ⟨rfl, rfl, rfl, id⟩ rfl rfl
  · cases h; exact hsame rfl rfl
  · cases h; exact .silent _ _ _ ⟨rfl, rfl, rfl, id⟩ rfl rfl
  · cases h
    refine .silent _ _ _ ⟨?_, rfl, rfl, id⟩ rfl rfl
    exact stateOf_updateRemote_of_keeps c w.uuid fun _ => rfl
  · split at h
    · cases h; exact hsame rfl rfl
    · cases h; exact .silent _ _ _ ⟨rfl, rfl, rfl, id⟩ rfl rfl
  · cases h; exact hsame rfl rfl
  · cases h; exact .silent _ _ _ ⟨rfl, rfl, rfl, id⟩ rfl rfl
  · cases h
    refine .silent _ _ _ ⟨?_, rfl, rfl, id⟩ rfl rfl
    exact stateOf_updateRemote_of_keeps c w.uuid fun _ => rfl
  · cases h

namespace LoopPc

def between : LoopPc → Option RemoteState
  | .lost .store => some .disconnected
  | .disconnect .store => some .disconnected
  | _ => none

def sets : LoopPc → Option RemoteState
  | .lost _ => some .disconnected
  | .disconnect _ => some .disconnected
  | _ => none

/-- The loop is in `disconnect`. -/
def closing : LoopPc → Bool
  | .disconnectChannel | .disconnectClient | .disconnect _ => true
  | _ => false

end LoopPc

/-- The moves of the loop. -/
inductive LoopMove (w : Connector) (c : Connection) :
    LoopPc → LoopAnswer → Connection → LoopPc → Prop
  | lostSend : LoopMove w c (.lost .send) .go (c.sendState .disconnected) (.lost .store)
  | lostStore : LoopMove w c (.lost .store) .go (c.storeState w.uuid .disconnected) .clearChannel
  | lostClear : LoopMove w c .clearClient .go { c with client := none } .borrow
  | closeClear :
      LoopMove w c .disconnectClient .go { c with client := none } (.disconnect .send)
  | closeSend :
      LoopMove w c (.disconnect .send) .go (c.sendState .disconnected) (.disconnect .store)
  | closeStore :
      LoopMove w c (.disconnect .store) .go (c.storeState w.uuid .disconnected).unsubscribe .stopped
  | leave :
      c.watch = .error .groupCodeMismatch → LoopMove w c .borrow .go c.unsubscribe .stopped
  | silent (pc : LoopPc) (ans : LoopAnswer) (c' : Connection) (pc' : LoopPc) :
      Silent w.uuid c c' → pc.sets = none → pc'.between = none →
      (pc'.closing = true → pc.closing = true ∨ ans = .cancelled) →
      (pc = .borrow → c.watch ≠ .error .groupCodeMismatch) →
      pc ≠ .stopped → pc' ≠ .stopped → LoopMove w c pc ans c' pc'

theorem LoopPc.select_eq_none {state : RemoteState} (h : LoopPc.select state = none) :
    state = .error .groupCodeMismatch := by
  unfold LoopPc.select at h
  split at h <;> simp_all

theorem LoopPc.select_spec {state : RemoteState} {pc : LoopPc} (h : LoopPc.select state = some pc) :
    pc.selecting = true := by
  unfold LoopPc.select at h
  split at h <;> cases h <;> rfl

theorem LoopPc.of_selecting {pc : LoopPc} (h : pc.selecting = true) :
    pc.sets = none ∧ pc.between = none ∧ pc.closing = false ∧ pc ≠ .borrow ∧ pc ≠ .stopped := by
  cases pc <;> simp_all [LoopPc.selecting, LoopPc.sets, LoopPc.between, LoopPc.closing]

theorem LoopPc.watch_of_select {state : RemoteState} {pc : LoopPc}
    (h : LoopPc.select state = some pc) : state ≠ .error .groupCodeMismatch := by
  rintro rfl
  cases h

theorem Connector.loop_move {w : Connector} {c c' : Connection} {l l' : Loop} {ans : LoopAnswer}
    (h : w.loop c l ans = some (c', l')) : LoopMove w c l.pc ans c' l'.pc := by
  obtain ⟨pc, seen⟩ := l
  -- most steps leave the state and the client alone and do not disconnect
  have hplain : ∀ {pc ans c' pc'}, Silent w.uuid c c' → pc.sets = none → pc'.between = none →
      pc'.closing = false → pc ≠ .borrow → pc ≠ .stopped → pc' ≠ .stopped →
      LoopMove w c pc ans c' pc' :=
    fun {pc ans c' pc'} hsilent hsets hbetween hclosing hborrow hpc hpc' =>
      .silent pc ans c' pc' hsilent hsets hbetween (by simp [hclosing]) (fun h => absurd h hborrow)
        hpc hpc'
  have hlocked : ∀ {c' : Connection}, c'.manager = c.manager → c'.watch = c.watch →
      c'.receivers = c.receivers → c'.client = c.client → Silent w.uuid c c' := by
    intro c' hmanager hwatch hreceivers hclient
    exact ⟨by simp [Connection.stateOf, hmanager], hwatch, hreceivers, by simp [hclient]⟩
  unfold Connector.loop at h
  dsimp only at h
  split at h
  · split at h
    · next pc' hselect =>
      cases h
      obtain ⟨_, hbetween, hclosing, _, hstopped⟩ :=
        LoopPc.of_selecting (LoopPc.select_spec hselect)
      exact .silent _ _ _ _ (.refl _ _) rfl hbetween (by simp [hclosing])
        (fun _ => LoopPc.watch_of_select hselect) (by simp) hstopped
    · next hselect => cases h; exact .leave (LoopPc.select_eq_none hselect)
  · split at h
    · next hselecting =>
      cases h
      obtain ⟨hsets, _, _, hborrow, hstopped⟩ := LoopPc.of_selecting hselecting
      exact .silent _ _ _ _ (.refl _ _) hsets rfl (fun _ => .inr rfl)
        (fun hpc => absurd hpc hborrow) hstopped (by simp)
    · cases h
  · split at h
    · next hchanged =>
      cases h
      obtain ⟨hsets, _, _, hborrow, hstopped⟩ := LoopPc.of_selecting hchanged.1
      exact hplain (.refl _ _) hsets rfl rfl hborrow hstopped (by simp)
    · cases h
  · cases h; exact hplain (.refl _ _) rfl rfl rfl (by simp) (by simp) (by simp)
  · cases h; exact hplain (.refl _ _) rfl rfl rfl (by simp) (by simp) (by simp)
  · split at h
    · cases h; exact hplain (.refl _ _) rfl rfl rfl (by simp) (by simp) (by simp)
    · cases h; exact hplain (hlocked rfl rfl rfl rfl) rfl rfl rfl (by simp) (by simp) (by simp)
  · cases h; exact hplain (hlocked rfl rfl rfl rfl) rfl rfl rfl (by simp) (by simp) (by simp)
  · cases h; exact hplain (hlocked rfl rfl rfl rfl) rfl rfl rfl (by simp) (by simp) (by simp)
  · cases h; exact .lostSend
  · cases h; exact .lostStore
  · cases h; exact hplain (hlocked rfl rfl rfl rfl) rfl rfl rfl (by simp) (by simp) (by simp)
  · split at h
    · cases h; exact .lostClear
    · cases h
  · cases h
    exact .silent _ _ _ _ (hlocked rfl rfl rfl rfl) rfl rfl (fun _ => .inl rfl) (by simp) (by simp)
      (by simp)
  · split at h
    · cases h; exact .closeClear
    · cases h
  · cases h; exact .closeSend
  · cases h; exact .closeStore
  · cases h

end Warpinator
