import Warpinator.Lib.Chunks
import Warpinator.Lib.Machine
import Warpinator.Lib.OwnedCells
import Warpinator.Server.Connection

/-! # The Avatar of a Remote

    `get_remote_machine_avatar` sends the picture of the user in chunks, and
    `fetch_avatar` puts them together and stores the result.  A picture is kept
    behind an `Arc`, which every clone of the record shares: where there was a
    picture before, the new one is written through the `Arc`.

    `updateRemoteAsync_of_some`: whichever way it is stored, the picture of the
    remote is assigned, and that of no other remote changes. -/

namespace Warpinator

/-! ## Section 1: Records that share their picture -/

/-- The cell behind an `Arc`. -/
abbrev ArcId := Nat

/-- The fields of a record that `fetch_avatar` writes. -/
structure AvatarRecord where
  picture : Option ArcId
  pictureVersion : BitVec 8

/-- The closure of `fetch_avatar`, with the cells that it leaves. -/
def AvatarRecord.receive (cells : List (List UInt8)) (r : AvatarRecord)
    (picture : Option (List UInt8)) : AvatarRecord × List (List UInt8) :=
  let (shared, cells) :=
    match r.picture, picture with
    | some arc, some pic => (some arc, cells.set arc pic)
    | none, some pic => (some cells.length, cells ++ [pic])
    | _, _ => (none, cells)
  -- `wrapping_add(1)`
  ({ picture := shared, pictureVersion := r.pictureVersion + 1 }, cells)

@[simp] theorem receive_pictureVersion (cells : List (List UInt8)) (r : AvatarRecord)
    (picture : Option (List UInt8)) :
    (r.receive cells picture).1.pictureVersion = r.pictureVersion + 1 := rfl

/-- The `Arc`s of the records. -/
def arcs (remotes : String → Option AvatarRecord) (uuid : String) : Option ArcId :=
  (remotes uuid).bind AvatarRecord.picture

/-- The pictures of the manager.  `add_remote` is given records without one, so
    no two records share an `Arc`. -/
structure AvatarStore where
  remotes : String → Option AvatarRecord
  cells : List (List UInt8)
  events : List WarpEvent
  owned : Owned cells (arcs remotes)

/-- What is behind the `Arc` of a remote. -/
def AvatarStore.picture (s : AvatarStore) : String → Option (List UInt8) :=
  readCell s.cells (arcs s.remotes)

theorem arcs_update (remotes : String → Option AvatarRecord) (uuid : String) (r : AvatarRecord) :
    arcs (Function.update remotes uuid (some r))
      = Function.update (arcs remotes) uuid r.picture := by
  funext uuid'
  unfold arcs
  by_cases h : uuid' = uuid
  · subst h
    rw [Function.update_self, Function.update_self]
    rfl
  · rw [Function.update_of_ne h, Function.update_of_ne h]

/-- In each of its cases the closure assigns the picture. -/
theorem receive_assigns {cells : List (List UInt8)} {refs : String → Option ArcId} {uuid : String}
    {r : AvatarRecord} (h : Owned cells refs) (hr : refs uuid = r.picture)
    (picture : Option (List UInt8)) :
    Owned (r.receive cells picture).2
      (Function.update refs uuid (r.receive cells picture).1.picture) ∧
      readCell (r.receive cells picture).2
          (Function.update refs uuid (r.receive cells picture).1.picture)
        = Function.update (readCell cells refs) uuid picture := by
  obtain ⟨prior, version⟩ := r
  dsimp only at hr
  cases prior with
  | some arc =>
    cases picture with
    | some pic =>
      -- the reference stays, the cell is written
      have hsame : Function.update refs uuid (some arc) = refs := by
        rw [← hr, Function.update_eq_self]
      show Owned (cells.set arc pic) (Function.update refs uuid (some arc)) ∧
        readCell (cells.set arc pic) (Function.update refs uuid (some arc)) = _
      rw [hsame]
      exact ⟨h.write arc pic, h.read_write hr pic⟩
    | none => exact ⟨h.release uuid, Owned.read_release uuid⟩
  | none =>
    cases picture with
    | some pic => exact ⟨h.alloc uuid pic, h.read_alloc uuid pic⟩
    | none => exact ⟨h.release uuid, Owned.read_release uuid⟩

/-- `update_remote_async` with the closure of `fetch_avatar`.  It keeps the lock of
    `remotes` while it waits for the guard of the picture. -/
def AvatarStore.updateRemoteAsync (s : AvatarStore) (uuid : String)
    (picture : Option (List UInt8)) :
    Except UpdateError Unit × AvatarStore :=
  match h : s.remotes uuid with
  | none => (.error .notFound, s)
  | some r =>
    (.ok (),
      { remotes := Function.update s.remotes uuid (some (r.receive s.cells picture).1)
        cells := (r.receive s.cells picture).2
        events := s.events ++ [.remoteUpdated uuid]
        owned := by
          rw [arcs_update]
          exact (receive_assigns s.owned (by rw [arcs, h]; rfl) picture).1 })

theorem updateRemoteAsync_of_none {s : AvatarStore} {uuid : String} (h : s.remotes uuid = none)
    (picture : Option (List UInt8)) :
    s.updateRemoteAsync uuid picture = (.error .notFound, s) := by
  unfold AvatarStore.updateRemoteAsync
  split
  · rfl
  · next r hr => cases h.symm.trans hr

theorem updateRemoteAsync_of_some {s : AvatarStore} {uuid : String} {r : AvatarRecord}
    (h : s.remotes uuid = some r) (picture : Option (List UInt8)) :
    ∃ s', s.updateRemoteAsync uuid picture = (.ok (), s') ∧
      s'.remotes = Function.update s.remotes uuid (some (r.receive s.cells picture).1) ∧
      s'.cells = (r.receive s.cells picture).2 ∧
      s'.picture = Function.update s.picture uuid picture ∧
      s'.events = s.events ++ [.remoteUpdated uuid] := by
  unfold AvatarStore.updateRemoteAsync
  split
  · next hr => cases h.symm.trans hr
  · next r' hr =>
    obtain rfl : r = r' := Option.some.inj (h.symm.trans hr)
    refine ⟨_, rfl, rfl, rfl, ?_, rfl⟩
    unfold AvatarStore.picture
    dsimp only
    rw [arcs_update]
    exact (receive_assigns s.owned (by rw [arcs, hr]; rfl) picture).2

/-! ## Section 2: The two calls -/

def avatarChunkSize : Nat := 1024 * 64

/-- The task that `get_remote_machine_avatar` leaves behind. -/
inductive AvatarTask where
  /-- The handler has not looked at the picture. -/
  | handler
  /-- It has spawned the task. -/
  | spawned
  | sending (chunks : List (List UInt8))
  /-- `tx` is dropped. -/
  | closed

inductive FetchAvatarPc where
  /-- The request is on its way. -/
  | request
  | receive (bytes : List UInt8)
  | store (picture : Option (List UInt8))
  | returned (result : Except RemoteWorkerError Unit)

structure AvatarFetch where
  /-- `user_config.picture` on the serving side. -/
  picture : Option (List UInt8)
  /-- What the handler or its task has found there. -/
  served : Option (List UInt8)
  task : AvatarTask
  /-- The chunks in the channel of the handler and those under way. -/
  channel : List (List UInt8)
  wire : List (List UInt8)
  pc : FetchAvatarPc
  store : AvatarStore

inductive AvatarLabel where
  | setPicture (picture : Option (List UInt8))
  /-- Other operations on the records. -/
  | other (f : AvatarStore → AvatarStore)
  /-- `picture.read().await.is_none()`. -/
  | check
  /-- `picture.read().await.clone()`. -/
  | read
  | send
  /-- The task ends. -/
  | close
  /-- `tx.send` fails, since the stream is gone. -/
  | hangUp
  | transmit
  | respond
  | message
  | endOfStream
  | fail (status : Status)
  | store

/-- `bytes.chunks(AVATAR_CHUNK_SIZE)`, if there is a picture. -/
def avatarChunks : Option (List UInt8) → List (List UInt8)
  | some bytes => bytes.toChunks avatarChunkSize
  | none => []

/-- What `fetch_avatar` makes of the bytes of the stream. -/
def receivedPicture (bytes : List UInt8) : Option (List UInt8) :=
  if bytes.isEmpty then none else some bytes

namespace AvatarFetch

/-- `fetch_avatar` with or without a client. -/
def start (client : Bool) (picture : Option (List UInt8)) (store : AvatarStore) : AvatarFetch where
  picture := picture
  served := picture
  task := if client then .handler else .closed
  channel := []
  wire := []
  pc := if client then .request else .returned (.error .noClient)
  store := store

def step (uuid : String) (s : AvatarFetch) : AvatarLabel → Option AvatarFetch
  | .setPicture picture => some { s with picture := picture }
  | .other f => some { s with store := f s.store }
  | .check =>
    match s.task with
    | .handler =>
      if s.picture.isNone then some { s with served := none, task := .closed }
      else some { s with task := .spawned }
    | _ => none
  | .read =>
    match s.task with
    | .spawned => some { s with served := s.picture, task := .sending (avatarChunks s.picture) }
    | _ => none
  | .send =>
    match s.task with
    | .sending (c :: cs) =>
      -- `mpsc::channel(4)`
      if s.channel.length < 4 then
        some { s with task := .sending cs, channel := s.channel ++ [c] }
      else none
    | _ => none
  | .close =>
    match s.task with
    | .sending [] => some { s with task := .closed }
    | _ => none
  | .hangUp =>
    match s.task, s.pc with
    | .sending (_ :: _), .returned (.error _) => some { s with task := .closed }
    | _, _ => none
  | .transmit =>
    match s.channel with
    | c :: cs => some { s with channel := cs, wire := s.wire ++ [c] }
    | [] => none
  | .respond =>
    match s.pc, s.task with
    | .request, .handler => none
    | .request, _ => some { s with pc := .receive [] }
    | _, _ => none
  | .message =>
    match s.pc, s.wire with
    | .receive bytes, c :: cs => some { s with wire := cs, pc := .receive (bytes ++ c) }
    | _, _ => none
  | .endOfStream =>
    match s.pc, s.wire, s.channel, s.task with
    | .receive bytes, [], [], .closed => some { s with pc := .store (receivedPicture bytes) }
    | _, _, _, _ => none
  | .fail status =>
    match s.pc with
    | .request | .receive _ => some { s with pc := .returned (.error (.remoteFailed status)) }
    | _ => none
  | .store =>
    match s.pc with
    | .store picture =>
      match s.store.updateRemoteAsync uuid picture with
      | (.ok _, store) => some { s with store := store, pc := .returned (.ok ()) }
      | (.error e, store) =>
        some { s with store := store, pc := .returned (.error (.updateFailed e)) }
    | _ => none

end AvatarFetch

def avatarFetch (uuid : String) : Machine AvatarFetch AvatarLabel where
  step := AvatarFetch.step uuid

/-- What a step of the surroundings does to the records. -/
def AvatarLabel.onStore : AvatarLabel → AvatarStore → AvatarStore
  | .other f => f
  | _ => id

/-- The picture that the user sets. -/
def AvatarLabel.sets : AvatarLabel → Option (Option (List UInt8))
  | .setPicture picture => some picture
  | _ => none

/-! ## Section 3: Moves -/

inductive AvatarMove (uuid : String) (s : AvatarFetch) : AvatarLabel → AvatarFetch → Prop
  | setPicture (picture : Option (List UInt8)) :
      AvatarMove uuid s (.setPicture picture) { s with picture := picture }
  | other (f : AvatarStore → AvatarStore) :
      AvatarMove uuid s (.other f) { s with store := f s.store }
  | checkedNone (htask : s.task = .handler) (hpicture : s.picture = none) :
      AvatarMove uuid s .check { s with served := none, task := .closed }
  | checkedSome (htask : s.task = .handler) :
      AvatarMove uuid s .check { s with task := .spawned }
  | read (htask : s.task = .spawned) :
      AvatarMove uuid s .read
        { s with served := s.picture, task := .sending (avatarChunks s.picture) }
  | send (c : List UInt8) (cs : List (List UInt8)) (htask : s.task = .sending (c :: cs)) :
      AvatarMove uuid s .send { s with task := .sending cs, channel := s.channel ++ [c] }
  | close (htask : s.task = .sending []) : AvatarMove uuid s .close { s with task := .closed }
  | hangUp (e : RemoteWorkerError) (hpc : s.pc = .returned (.error e)) :
      AvatarMove uuid s .hangUp { s with task := .closed }
  | transmit (c : List UInt8) (cs : List (List UInt8)) (hchannel : s.channel = c :: cs) :
      AvatarMove uuid s .transmit { s with channel := cs, wire := s.wire ++ [c] }
  | respond (hpc : s.pc = .request) : AvatarMove uuid s .respond { s with pc := .receive [] }
  | message (bytes c : List UInt8) (cs : List (List UInt8)) (hpc : s.pc = .receive bytes)
      (hwire : s.wire = c :: cs) :
      AvatarMove uuid s .message { s with wire := cs, pc := .receive (bytes ++ c) }
  | endOfStream (bytes : List UInt8) (hpc : s.pc = .receive bytes) (hwire : s.wire = [])
      (hchannel : s.channel = []) (htask : s.task = .closed) :
      AvatarMove uuid s .endOfStream { s with pc := .store (receivedPicture bytes) }
  | fail (status : Status) (hpc : s.pc = .request ∨ ∃ bytes, s.pc = .receive bytes) :
      AvatarMove uuid s (.fail status) { s with pc := .returned (.error (.remoteFailed status)) }
  | stored (picture : Option (List UInt8)) (store : AvatarStore) (hpc : s.pc = .store picture)
      (hstore : s.store.updateRemoteAsync uuid picture = (.ok (), store)) :
      AvatarMove uuid s .store { s with store := store, pc := .returned (.ok ()) }
  | unknown (picture : Option (List UInt8)) (hpc : s.pc = .store picture)
      (hnone : s.store.remotes uuid = none) :
      AvatarMove uuid s .store { s with pc := .returned (.error (.updateFailed .notFound)) }

theorem avatarFetch_move {uuid : String} {s s' : AvatarFetch} {l : AvatarLabel}
    (h : (avatarFetch uuid).step s l = some s') : AvatarMove uuid s l s' := by
  change AvatarFetch.step uuid s l = some s' at h
  cases l with
  | setPicture picture => exact Option.some.inj h ▸ .setPicture picture
  | other f => exact Option.some.inj h ▸ .other f
  | check =>
    simp only [AvatarFetch.step] at h
    split at h
    · next htask =>
      split at h
      · next hnone =>
        exact Option.some.inj h ▸ .checkedNone htask (Option.isNone_iff_eq_none.1 hnone)
      · exact Option.some.inj h ▸ .checkedSome htask
    · cases h
  | read =>
    simp only [AvatarFetch.step] at h
    split at h
    · next htask => exact Option.some.inj h ▸ .read htask
    · cases h
  | send =>
    simp only [AvatarFetch.step] at h
    split at h
    · next c cs htask =>
      split at h
      · exact Option.some.inj h ▸ .send c cs htask
      · cases h
    · cases h
  | close =>
    simp only [AvatarFetch.step] at h
    split at h
    · next htask => exact Option.some.inj h ▸ .close htask
    · cases h
  | hangUp =>
    simp only [AvatarFetch.step] at h
    split at h
    · next e _ hpc => exact Option.some.inj h ▸ .hangUp e hpc
    · cases h
  | transmit =>
    simp only [AvatarFetch.step] at h
    split at h
    · next c cs hchannel => exact Option.some.inj h ▸ .transmit c cs hchannel
    · cases h
  | respond =>
    simp only [AvatarFetch.step] at h
    split at h
    · cases h
    · next hpc _ => exact Option.some.inj h ▸ .respond hpc
    · cases h
  | message =>
    simp only [AvatarFetch.step] at h
    split at h
    · next bytes c cs hpc hwire => exact Option.some.inj h ▸ .message bytes c cs hpc hwire
    · cases h
  | endOfStream =>
    simp only [AvatarFetch.step] at h
    split at h
    · next bytes hpc hwire hchannel htask =>
      exact Option.some.inj h ▸ .endOfStream bytes hpc hwire hchannel htask
    · cases h
  | fail status =>
    simp only [AvatarFetch.step] at h
    split at h
    · next hpc => exact Option.some.inj h ▸ .fail status (.inl hpc)
    · next bytes hpc => exact Option.some.inj h ▸ .fail status (.inr ⟨bytes, hpc⟩)
    · cases h
  | store =>
    simp only [AvatarFetch.step] at h
    split at h
    · next picture hpc =>
      cases hr : s.store.remotes uuid with
      | none =>
        rw [updateRemoteAsync_of_none hr] at h
        exact Option.some.inj h ▸ .unknown picture hpc hr
      | some r =>
        obtain ⟨store, hstore, -⟩ := updateRemoteAsync_of_some hr picture
        rw [hstore] at h
        exact Option.some.inj h ▸ .stored picture store hpc hstore
    · cases h

end Warpinator
