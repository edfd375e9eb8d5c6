import Mathlib.Data.List.Basic
import Mathlib.Logic.Function.Basic
import Warpinator.Types.Remote

/-! # The Remote Manager

    The store of `remote_manager.rs`: remotes by uuid, each with its transfers.
    Every operation holds the lock of `remotes` from its lookup to the event it
    sends, so it is one step here.

    The closures that the program passes to `update_transfer` never touch what
    identifies a transfer; `TransferUpdate` keeps that with the closure. -/

namespace Warpinator

/-! ## Section 1: Updates of a transfer -/

structure TransferUpdate where
  apply : Transfer → Transfer
  uuid_apply : ∀ t, (apply t).uuid = t.uuid
  remoteUuid_apply : ∀ t, (apply t).remoteUuid = t.remoteUuid
  protocolId_apply : ∀ t, (apply t).protocolId = t.protocolId

attribute [simp] TransferUpdate.uuid_apply TransferUpdate.remoteUuid_apply
  TransferUpdate.protocolId_apply

/-- `|t| t.state = state`. -/
def TransferUpdate.setState (state : TransferState) : TransferUpdate where
  apply t := { t with state := state }
  uuid_apply _ := rfl
  remoteUuid_apply _ := rfl
  protocolId_apply _ := rfl

@[simp] theorem setState_state (s : TransferState) (t : Transfer) :
    ((TransferUpdate.setState s).apply t).state = s := rfl

@[simp] theorem setState_kind (s : TransferState) (t : Transfer) :
    ((TransferUpdate.setState s).apply t).kind = t.kind := rfl

/-! ## Section 2: The store -/

inductive WarpEvent where
  | remoteAdded (uuid : String)
  | remoteUpdated (uuid : String)
  | transferAdded (remoteUuid transferUuid : String)
  | transferUpdated (remoteUuid transferUuid : String)
  | transferRemoved (remoteUuid transferUuid : String)
  | messageAdded (remoteUuid messageUuid : String)
  | messageRemoved (remoteUuid messageUuid : String)
  deriving DecidableEq, Repr

inductive UpdateError where
  | notFound
  deriving DecidableEq, Repr

structure RemoteManager where
  remotes : String → Option Remote
  /-- The events published on `event_tx` so far, oldest first. -/
  events : List WarpEvent

namespace RemoteManager

def empty : RemoteManager where
  remotes _ := none
  events := []

/-- A manager that knows one remote. -/
def single (r : Remote) : RemoteManager where
  remotes uuid := if uuid = r.uuid then some r else none
  events := []

def remote (m : RemoteManager) (uuid : String) : Option Remote := m.remotes uuid

def transfer (m : RemoteManager) (remoteUuid transferUuid : String) : Option Transfer :=
  (m.remotes remoteUuid).bind fun r => r.transfers.find? fun t => t.uuid = transferUuid

def transferByProtocolId (m : RemoteManager) (remoteUuid : String) (id : Nat) : Option Transfer :=
  (m.remotes remoteUuid).bind fun r => r.transfers.find? fun t => t.protocolId = id

/-- The effect of `get_mut` and an event. -/
def setRemote (m : RemoteManager) (uuid : String) (r : Remote) (event : WarpEvent) :
    RemoteManager where
  remotes := Function.update m.remotes uuid (some r)
  events := m.events ++ [event]

def updateRemote (m : RemoteManager) (uuid : String) (f : Remote → Remote) :
    Except UpdateError Unit × RemoteManager :=
  match m.remotes uuid with
  | some r => (.ok (), m.setRemote uuid (f r) (.remoteUpdated uuid))
  | none => (.error .notFound, m)

/-- `add_remote`, the store's side of it: a record under the same uuid is replaced. -/
def addRemote (m : RemoteManager) (r : Remote) : RemoteManager :=
  m.setRemote r.uuid r (.remoteAdded r.uuid)

def addTransfer (m : RemoteManager) (remoteUuid : String) (t : Transfer) :
    Except UpdateError Unit × RemoteManager :=
  match m.remotes remoteUuid with
  | some r =>
    (.ok (), m.setRemote remoteUuid { r with transfers := r.transfers ++ [t] }
      (.transferAdded remoteUuid t.uuid))
  | none => (.error .notFound, m)

def removeTransfer (m : RemoteManager) (remoteUuid transferUuid : String) :
    Except UpdateError Unit × RemoteManager :=
  match m.remotes remoteUuid, m.transfer remoteUuid transferUuid with
  | some r, some _ =>
    (.ok (), m.setRemote remoteUuid
      { r with transfers := r.transfers.eraseP fun t => t.uuid = transferUuid }
      (.transferRemoved remoteUuid transferUuid))
  | _, _ => (.error .notFound, m)

def addMessage (m : RemoteManager) (remoteUuid : String) (msg : Message) :
    Except UpdateError Unit × RemoteManager :=
  match m.remotes remoteUuid with
  | some r =>
    (.ok (), m.setRemote remoteUuid { r with messages := r.messages ++ [msg] }
      (.messageAdded remoteUuid msg.uuid))
  | none => (.error .notFound, m)

def removeMessage (m : RemoteManager) (remoteUuid messageUuid : String) :
    Except UpdateError Unit × RemoteManager :=
  match m.remotes remoteUuid with
  | none => (.error .notFound, m)
  | some r =>
    if r.messages.any fun msg => msg.uuid = messageUuid then
      (.ok (), m.setRemote remoteUuid
        { r with messages := r.messages.eraseP fun msg => msg.uuid = messageUuid }
        (.messageRemoved remoteUuid messageUuid))
    else (.error .notFound, m)

/-- The list with the first transfer of the given uuid updated. -/
def updateFirst (uuid : String) (f : TransferUpdate) (ts : List Transfer) : List Transfer :=
  -- `iter_mut().find(..)`: a later transfer of the same uuid is left alone
  ts.replaceF fun t => if t.uuid = uuid then some (f.apply t) else none

/-- `update_transfer`; `queued` is the value of `event_tx.len()`. -/
def updateTransfer (m : RemoteManager) (queued : Nat) (remoteUuid transferUuid : String)
    (f : TransferUpdate) : Except UpdateError Unit × RemoteManager :=
  match m.remotes remoteUuid, m.transfer remoteUuid transferUuid with
  | some r, some t =>
    let r := { r with transfers := updateFirst transferUuid f r.transfers }
    let remotes := Function.update m.remotes remoteUuid (some r)
    -- with a full queue only a change of the kind of state is told of
    if queued < 128 ∨ (f.apply t).state.discriminant ≠ t.state.discriminant then
      (.ok (), { remotes, events := m.events ++ [.transferUpdated remoteUuid transferUuid] })
    else (.ok (), { m with remotes })
  | _, _ => (.error .notFound, m)

end RemoteManager

/-! ## Section 3: Writes to a record -/

theorem remote_setRemote (m : RemoteManager) (uuid k : String) (r : Remote) (event : WarpEvent) :
    (m.setRemote uuid r event).remote k = if k = uuid then some r else m.remote k := by
  unfold RemoteManager.setRemote RemoteManager.remote
  by_cases hk : k = uuid
  · simp [hk]
  · simp [hk]

namespace RemoteManager

/-- Nothing is written, or `f r` takes the place of a record `r` with one event. -/
inductive RecordWrite (m : RemoteManager) (k : String) (f : Remote → Remote) (event : WarpEvent) :
    RemoteManager → Prop
  | missed : RecordWrite m k f event m
  | written {r : Remote} : m.remote k = some r →
      RecordWrite m k f event (m.setRemote k (f r) event)

variable (m : RemoteManager)

theorem updateRemote_write (k : String) (f : Remote → Remote) :
    m.RecordWrite k f (.remoteUpdated k) (m.updateRemote k f).2 := by
  unfold updateRemote
  cases hr : m.remotes k with
  | none => exact .missed
  | some r => exact .written hr

theorem addTransfer_write (k : String) (t : Transfer) :
    m.RecordWrite k (fun r => { r with transfers := r.transfers ++ [t] })
      (.transferAdded k t.uuid) (m.addTransfer k t).2 := by
  unfold addTransfer
  cases hr : m.remotes k with
  | none => exact .missed
  | some r => exact .written hr

theorem removeTransfer_cases (k u : String) :
    (m.removeTransfer k u).2 = m ∨ ∃ r t, m.remote k = some r ∧ m.transfer k u = some t ∧
      (m.removeTransfer k u).2 = m.setRemote k
        { r with transfers := r.transfers.eraseP fun t => t.uuid = u } (.transferRemoved k u) := by
  unfold removeTransfer
  cases hr : m.remotes k with
  | none => exact .inl rfl
  | some r =>
    cases ht : m.transfer k u with
    | none => exact .inl rfl
    | some t => exact .inr ⟨r, t, hr, rfl, rfl⟩

theorem removeTransfer_write (k u : String) :
    m.RecordWrite k (fun r => { r with transfers := r.transfers.eraseP fun t => t.uuid = u })
      (.transferRemoved k u) (m.removeTransfer k u).2 := by
  rcases m.removeTransfer_cases k u with heq | ⟨r, _, hr, _, heq⟩
  · rw [heq]
    exact .missed
  · rw [heq]
    exact .written hr

theorem addMessage_write (k : String) (msg : Message) :
    m.RecordWrite k (fun r => { r with messages := r.messages ++ [msg] })
      (.messageAdded k msg.uuid) (m.addMessage k msg).2 := by
  unfold addMessage
  cases hr : m.remotes k with
  | none => exact .missed
  | some r => exact .written hr

theorem removeMessage_write (k u : String) :
    m.RecordWrite k (fun r => { r with messages := r.messages.eraseP fun msg => msg.uuid = u })
      (.messageRemoved k u) (m.removeMessage k u).2 := by
  unfold removeMessage
  cases hr : m.remotes k with
  | none => exact .missed
  | some r =>
    dsimp only
    split
    · exact .written hr
    · exact .missed

end RemoteManager

/-! ## Section 4: Reading after writing -/

/-- Among entries with different keys, the lookup of a key finds its entry. -/
theorem find_key_of_mem {α κ : Type} [DecidableEq κ] {key : α → κ} {xs : List α} {x : α}
    (hnodup : (xs.map key).Nodup) (h : x ∈ xs) : xs.find? (fun y => key y = key x) = some x := by
  induction xs with
  | nil => cases h
  | cons y ys ih =>
    rw [List.map_cons, List.nodup_cons] at hnodup
    rcases List.mem_cons.1 h with rfl | hmem
    · simp
    · have hne : ¬ key y = key x := by
        intro heq
        apply hnodup.1
        rw [heq]
        exact List.mem_map_of_mem hmem
      simpa [hne] using ih hnodup.2 hmem

section lookups

variable (m : RemoteManager) (k u : String)

theorem find_updateFirst (f : TransferUpdate) (u' : String) (ts : List Transfer) :
    (RemoteManager.updateFirst u f ts).find? (fun t => t.uuid = u')
      = if u' = u then (ts.find? fun t => t.uuid = u').map f.apply
        else ts.find? fun t => t.uuid = u' := by
  induction ts with
  | nil => simp [RemoteManager.updateFirst]
  | cons t ts ih =>
    unfold RemoteManager.updateFirst at ih ⊢
    rw [List.replaceF_cons]
    by_cases ht : t.uuid = u
    · by_cases hu : u' = u
      · simp [ht, hu]
      · have hne : ¬ u = u' := fun h => hu h.symm
        simp [ht, hu, hne]
    · simp only [ht, if_false]
      by_cases hu' : t.uuid = u'
      · have hne : ¬ u' = u := fun h => ht (hu'.trans h)
        simp [hu', hne]
      · simp only [List.find?_cons, hu', decide_false, ih]

theorem transfer_updateTransfer (queued : Nat) (f : TransferUpdate) (k' u' : String) :
    (m.updateTransfer queued k u f).2.transfer k' u'
      = if k' = k ∧ u' = u then (m.transfer k u).map f.apply else m.transfer k' u' := by
  unfold RemoteManager.updateTransfer
  cases hr : m.remotes k with
  | none =>
    by_cases hk : k' = k ∧ u' = u
    · simp [hk, RemoteManager.transfer, hr]
    · simp [hk]
  | some r =>
    cases ht : m.transfer k u with
    | none =>
      by_cases hk : k' = k ∧ u' = u
      · simp [hk, ht]
      · simp [hk]
    | some t =>
      have hfind : r.transfers.find? (fun t => t.uuid = u) = some t := by
        simpa [RemoteManager.transfer, hr] using ht
      have hremotes : ∀ events, RemoteManager.transfer
          ⟨Function.update m.remotes k
            (some { r with transfers := RemoteManager.updateFirst u f r.transfers }), events⟩ k' u'
          = if k' = k ∧ u' = u then (some t).map f.apply else m.transfer k' u' := by
        intro events
        by_cases hk : k' = k
        · subst hk
          by_cases hu : u' = u
          · subst hu
            simp [RemoteManager.transfer, find_updateFirst, hfind]
          · simp [RemoteManager.transfer, find_updateFirst, hr, hu]
        · simp [RemoteManager.transfer, hk]
      dsimp only
      split
      · exact hremotes _
      · exact hremotes _

theorem updateTransfer_ok (queued : Nat) (f : TransferUpdate) :
    (m.updateTransfer queued k u f).1 = .ok () ↔ (m.transfer k u).isSome := by
  unfold RemoteManager.updateTransfer
  cases hr : m.remotes k with
  | none => simp [RemoteManager.transfer, hr]
  | some r =>
    cases ht : m.transfer k u with
    | none => simp
    | some t =>
      dsimp only
      split <;> simp

theorem transfer_addTransfer (t : Transfer) (k' u' : String) :
    (m.addTransfer k t).2.transfer k' u'
      = if k' = k ∧ (m.remotes k).isSome ∧ t.uuid = u' then (m.transfer k' u').or (some t)
        else m.transfer k' u' := by
  unfold RemoteManager.addTransfer
  cases hr : m.remotes k with
  | none => simp
  | some r =>
    by_cases hk : k' = k
    · subst hk
      by_cases hu : t.uuid = u'
      · simp [RemoteManager.transfer, RemoteManager.setRemote, hr, hu, List.find?_append]
      · simp [RemoteManager.transfer, RemoteManager.setRemote, hr, hu, List.find?_append]
    · simp [RemoteManager.transfer, RemoteManager.setRemote, hk]

/-- Uuid and protocol id lead to the same record. -/
structure Addresses (id : Nat) (t : Transfer) : Prop where
  byUuid : m.transfer k u = some t
  byProtocolId : m.transferByProtocolId k id = some t

theorem find_id_updateFirst {f : TransferUpdate} {ts : List Transfer} {id : Nat} {t : Transfer}
    (hu : ts.find? (fun t => t.uuid = u) = some t)
    (hid : ts.find? (fun t => t.protocolId = id) = some t) :
    (RemoteManager.updateFirst u f ts).find? (fun t => t.protocolId = id) = some (f.apply t) := by
  have htu : t.uuid = u := by simpa using List.find?_some hu
  have htid : t.protocolId = id := by simpa using List.find?_some hid
  induction ts with
  | nil => simp at hu
  | cons t' ts ih =>
    unfold RemoteManager.updateFirst at ih ⊢
    rw [List.replaceF_cons]
    by_cases ht' : t'.uuid = u
    · -- the first transfer is the record
      have hrec : t' = t := by simpa [ht'] using hu
      subst hrec
      simp [ht', htid]
    · have hid' : ¬ t'.protocolId = id := by
        intro h
        have hrec : t' = t := by simpa [h] using hid
        exact ht' (hrec ▸ htu)
      simp only [List.find?_cons, ht', hid', decide_false] at hu hid
      simpa [ht', hid'] using ih hu hid

/-- An update of a record keeps both ways to it. -/
theorem Addresses.updateTransfer {m : RemoteManager} {k u : String} {id : Nat} {t : Transfer}
    (h : Addresses m k u id t) (queued : Nat) (f : TransferUpdate) :
    Addresses (m.updateTransfer queued k u f).2 k u id (f.apply t) where
  byUuid := by simp [transfer_updateTransfer, h.byUuid]
  byProtocolId := by
    obtain ⟨hu, hid⟩ := h
    unfold RemoteManager.updateTransfer
    cases hr : m.remotes k with
    | none => simp [RemoteManager.transfer, hr] at hu
    | some r =>
      rw [hu]
      simp only [RemoteManager.transfer, RemoteManager.transferByProtocolId, hr,
        Option.bind_some] at hu hid
      have hfind := find_id_updateFirst (f := f) u hu hid
      dsimp only
      split <;> simp [RemoteManager.transferByProtocolId, hfind]

end lookups

end Warpinator
