import Warpinator.Server.RemoteManager

/-! # The Duplex Handler

    `waiting_for_duplex` of `grpc/warp.rs`: it answers at once where the record
    of the caller shows a connection, else it waits for one on the events of
    the manager, for ten seconds. -/

namespace Warpinator

structure LookupName where
  id : String
  readableName : String

/-- The capacity of `event_tx`. -/
def eventCapacity : Nat := 256

namespace WarpServer

inductive WaitingPc where
  | subscribe (req : LookupName)
  /-- `cursor` events precede the next one that the subscription delivers. -/
  | lookup (req : LookupName) (cursor : Nat)
  | worker (req : LookupName) (cursor : Nat)
  | listen (req : LookupName) (cursor : Nat)
  | check (req : LookupName) (cursor : Nat)
  /-- The subscription lagged: `select!` has only the deadline left. -/
  | lagged (req : LookupName)
  | returned (response : Bool)

def WaitingPc.request : WaitingPc → Option LookupName
  | .subscribe req => some req
  | .lookup req _ => some req
  | .worker req _ => some req
  | .listen req _ => some req
  | .check req _ => some req
  | .lagged req => some req
  | .returned _ => none

inductive WaitingAnswer where
  | go
  | deadline

/-- The states in which the caller may go on. -/
def hasDuplex : RemoteState → Bool
  | .awaitingDuplex | .connected => true
  | _ => false

/-- `RemoteAdded(uuid) | RemoteUpdated(uuid) if uuid == id`. -/
def concernsRemote (id : String) : WarpEvent → Bool
  | .remoteAdded uuid => uuid == id
  | .remoteUpdated uuid => uuid == id
  | _ => false

/-- The second component says that a `connect` of the worker is spawned;
    `hasWorker` is `get_worker`. -/
def waitingForDuplex (m : RemoteManager) (hasWorker : String → Bool) (pc : WaitingPc)
    (ans : WaitingAnswer) : Option (WaitingPc × Bool) :=
  match pc, ans with
  | .subscribe req, .go => some (.lookup req m.events.length, false)
  | .lookup req cursor, .go =>
    match m.remote req.id with
    | none => some (.listen req cursor, false)
    | some remote =>
      match remote.state with
      | .error _ | .disconnected => some (.worker req cursor, false)
      | .awaitingDuplex | .connected => some (.returned true, false)
      | .connecting => some (.listen req cursor, false)
  -- `connect` is spawned, and its result is not waited for
  | .worker req cursor, .go => some (.listen req cursor, hasWorker req.id)
  -- the deadline runs over all rounds of the loop
  | .listen _ _, .deadline => some (.returned false, false)
  | .listen req cursor, .go =>
    match m.events[cursor]? with
    | none => none
    | some event =>
      -- `Ok(event)` does not match `Lagged`, which disables the branch of the events
      if m.events.length - cursor > eventCapacity then some (.lagged req, false)
      else if concernsRemote req.id event then some (.check req (cursor + 1), false)
      else some (.listen req (cursor + 1), false)
  | .check req cursor, .go =>
    match m.remote req.id with
    | none => some (.listen req cursor, false)
    | some remote =>
      if hasDuplex remote.state then some (.returned true, false)
      else some (.listen req cursor, false)
  | .lagged _, .deadline => some (.returned false, false)
  | _, _ => none

section steps

variable {m : RemoteManager} {hasWorker : String → Bool} {pc pc' : WaitingPc}
  {ans : WaitingAnswer} {spawns : Bool}

/-- A step keeps the request or answers it.  It answers `true` only if it finds
    the caller's record with a connection. -/
theorem waitingForDuplex_view (h : waitingForDuplex m hasWorker pc ans = some (pc', spawns)) :
    ∃ req, pc.request = some req ∧ (pc'.request = some req ∨ pc' = .returned false ∨
      pc' = .returned true ∧ ∃ remote, m.remote req.id = some remote ∧ hasDuplex remote.state) := by
  unfold waitingForDuplex at h
  split at h
  · cases h; exact ⟨_, rfl, .inl rfl⟩
  -- the first look at the remote
  · next req cursor =>
    refine ⟨req, rfl, ?_⟩
    split at h
    · cases h; exact .inl rfl
    · next remote hremote =>
      split at h
      · cases h; exact .inl rfl
      · cases h; exact .inl rfl
      · next hstate =>
        cases h
        exact .inr (.inr ⟨rfl, remote, hremote, by simp [hstate, hasDuplex]⟩)
      · next hstate =>
        cases h
        exact .inr (.inr ⟨rfl, remote, hremote, by simp [hstate, hasDuplex]⟩)
      · cases h; exact .inl rfl
  · cases h; exact ⟨_, rfl, .inl rfl⟩
  · cases h; exact ⟨_, rfl, .inr (.inl rfl)⟩
  · next req cursor =>
    refine ⟨req, rfl, .inl ?_⟩
    split at h
    · cases h
    · split at h
      · cases h; rfl
      · split at h
        · cases h; rfl
        · cases h; rfl
  -- the look after a wake-up
  · next req cursor =>
    refine ⟨req, rfl, ?_⟩
    split at h
    · cases h; exact .inl rfl
    · next remote hremote =>
      split at h
      · next hstate => cases h; exact .inr (.inr ⟨rfl, remote, hremote, hstate⟩)
      · cases h; exact .inl rfl
  · cases h; exact ⟨_, rfl, .inr (.inl rfl)⟩
  · cases h

end steps

end WarpServer

end Warpinator
