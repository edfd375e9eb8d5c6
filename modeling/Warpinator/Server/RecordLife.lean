import Warpinator.Server.StateChanges

/-! # The Life of a Record

    Handlers, operations and streaming tasks hold copies of a transfer and write
    it later, in any order.  `Transfer.Later` is what all of it leaves intact
    while the transfer is stored: who it belongs to, its direction, the progress
    made so far, and what the sender has announced.

    `Running.Fit` is the invariant that carries it: what an activity is about to
    write fits the record that it will find. -/

namespace Warpinator

/-! ## Section 1: Earlier and later -/

/-- What `process_paths` has found out, as the record shows it. -/
def Transfer.totals (t : Transfer) : Totals where
  totalBytes := t.totalBytes
  fileCount := t.fileCount
  entryNames := t.entryNames
  singleName := t.singleName
  singleMimeType := t.singleMimeType

/-- The totals of a record that nothing has been found out about. -/
def Totals.none : Totals where
  totalBytes := 0
  fileCount := 0
  entryNames := []
  singleName := .none
  singleMimeType := .none

def TransferKind.isIncoming : TransferKind → Bool
  | .outgoing _ _ => false
  | .incoming _ => true

/-- An outgoing transfer whose totals are not known yet. -/
def Transfer.Blank (t : Transfer) : Prop :=
  t.kind.isIncoming = false ∧ t.totals = .none

/-- The states that calls and streaming tasks choose for a transfer. -/
def TransferState.isDecision : TransferState → Bool
  | .initializing | .waitingPermission | .paused => false
  | _ => true

/-- `t'` is `t`, or what has become of it. -/
structure Transfer.Later (t t' : Transfer) : Prop where
  uuid : t'.uuid = t.uuid
  remoteUuid : t'.remoteUuid = t.remoteUuid
  protocolId : t'.protocolId = t.protocolId
  timestamp : t'.timestamp = t.timestamp
  bytes : t.bytesTransferred ≤ t'.bytesTransferred
  direction : t'.kind.isIncoming = t.kind.isIncoming
  /-- The sources and the token of an outgoing transfer stay. -/
  outgoing : t.kind.isIncoming = false → t'.kind = t.kind
  /-- The totals are written once, by the sender. -/
  totals : t'.totals = t.totals ∨ t.Blank
  initializing : t'.state = .initializing → t.state = .initializing
  /-- Nobody asks for permission twice. -/
  waiting : t.kind.isIncoming = true → t'.state = .waitingPermission →
    t.state = .waitingPermission
  paused : t'.state = .paused → t.state = .paused

theorem Transfer.Later.refl (t : Transfer) : t.Later t :=
  ⟨rfl, rfl, rfl, rfl, le_refl _, rfl, fun _ => rfl, .inl rfl, id, fun _ => id, id⟩

theorem Transfer.Later.trans {t t' t'' : Transfer} (h : t.Later t') (h' : t'.Later t'') :
    t.Later t'' where
  uuid := h'.uuid.trans h.uuid
  remoteUuid := h'.remoteUuid.trans h.remoteUuid
  protocolId := h'.protocolId.trans h.protocolId
  timestamp := h'.timestamp.trans h.timestamp
  bytes := h.bytes.trans h'.bytes
  direction := h'.direction.trans h.direction
  outgoing hout := (h'.outgoing (h.direction.trans hout)).trans (h.outgoing hout)
  totals := by
    rcases h.totals with hsame | hblank
    · rcases h'.totals with hsame' | ⟨hout, hnone⟩
      · exact .inl (hsame'.trans hsame)
      · exact .inr ⟨h.direction.symm.trans hout, hsame.symm.trans hnone⟩
    · exact .inr hblank
  initializing hst := h.initializing (h'.initializing hst)
  waiting hin hst := h.waiting hin (h'.waiting (h.direction.trans hin) hst)
  paused hst := h.paused (h'.paused hst)

theorem Transfer.Blank.later {t t' : Transfer} (h : t.Blank) (hlater : t.Later t')
    (htotals : t'.totals = t.totals) : t'.Blank :=
  ⟨hlater.direction.trans h.1, htotals.trans h.2⟩

section updates

variable (t : Transfer)

/-- A decision about the state, which leaves the rest of the record alone. -/
theorem later_of_decision {t' : Transfer} (st : TransferState) (hst : st.isDecision = true)
    (h : t' = { t with state := st, bytesPerSecond := t'.bytesPerSecond }) : t.Later t' := by
  have hne : st ≠ .initializing ∧ st ≠ .waitingPermission ∧ st ≠ .paused := by
    refine ⟨?_, ?_, ?_⟩ <;> · rintro rfl; cases hst
  rw [h]
  exact ⟨rfl, rfl, rfl, rfl, le_refl _, rfl, fun _ => rfl, .inl rfl, fun h => absurd h hne.1,
    fun _ h => absurd h hne.2.1, fun h => absurd h hne.2.2⟩

theorem later_setState {st : TransferState} (hst : st.isDecision = true) :
    t.Later ((TransferUpdate.setState st).apply t) :=
  later_of_decision t st hst rfl

theorem later_finishSend {st : TransferState} (hst : st.isDecision = true) :
    t.Later ((TransferUpdate.finishSend st).apply t) :=
  later_of_decision t st hst rfl

theorem later_finishReceive {st : TransferState} (hst : st.isDecision = true) :
    t.Later ((TransferUpdate.finishReceive st).apply t) := by
  -- a transfer that has been stopped or canceled keeps its state
  by_cases hover : t.state = .stopped ∨ t.state = .canceled
  · refine later_of_decision t t.state ?_ ?_
    · rcases hover with h | h <;> · rw [h]; rfl
    · simp [TransferUpdate.finishReceive, finishReceive, hover]
  · refine later_of_decision t st hst ?_
    simp [TransferUpdate.finishReceive, finishReceive, hover]

theorem later_progress (p : Progress) : t.Later ((TransferUpdate.progress p).apply t) :=
  ⟨rfl, rfl, rfl, rfl, Nat.le_add_right _ _, rfl, fun _ => rfl, .inl rfl, id, fun _ => id, id⟩

theorem later_accept (destination : PathBuf) (hin : t.kind.isIncoming = true) :
    t.Later ((TransferUpdate.accept destination).apply t) where
  uuid := rfl
  remoteUuid := rfl
  protocolId := rfl
  timestamp := rfl
  bytes := le_refl _
  direction := hin.symm
  outgoing hout := by rw [hin] at hout; cases hout
  totals := .inl rfl
  initializing hst := by cases hst
  waiting _ hst := by cases hst
  paused hst := by cases hst

theorem later_announce (transfer : Transfer) (hblank : t.Blank) :
    t.Later ((TransferUpdate.announce transfer).apply t) where
  uuid := rfl
  remoteUuid := rfl
  protocolId := rfl
  timestamp := rfl
  bytes := le_refl _
  direction := rfl
  outgoing _ := rfl
  totals := .inr hblank
  initializing hst := by cases hst
  waiting hin _ := by rw [hblank.1] at hin; cases hin
  paused hst := by cases hst

end updates

/-! ## Section 2: What activities hold -/

namespace Worker

/-- The state that the operation has chosen. -/
def WithdrawPc.decided {μ : Type} : WithdrawPc μ → Option TransferState
  | .cancel _ _ newState _ => some newState
  | .request _ newState _ => some newState
  | .update _ newState => some newState
  | _ => none

end Worker

/-- The state that an activity has chosen for a transfer, and will write. -/
def Activity.decided : Activity → Option TransferState
  | .call (.peerStopTransfer (.cancel _ _ newState)) => some newState
  | .call (.peerStopTransfer (.update _ newState)) => some newState
  | .call (.cancelTransferOpRequest (.update _ newState)) => some newState
  | .call (.stopTransfer _ _ pc) => pc.decided
  | .call (.cancelTransfer _ pc) => pc.decided
  | .call (.sendStream task) =>
    match task.phase with
    | .closing finalState => some finalState
    | _ => none
  | .call (.receiveStream task) =>
    match task.phase with
    | .closing finalState => some finalState
    | _ => none
  | _ => none

/-- The transfer that an activity has found incoming, and will accept. -/
def Activity.accepts : Activity → Option (String × String)
  | .call (.acceptTransfer w (.request u _ _)) => some (w.uuid, u)
  | .call (.acceptTransfer w (.update u _)) => some (w.uuid, u)
  | _ => none

/-- The transfer that an activity has stored, and will announce. -/
def Activity.announces : Activity → Option (String × String)
  | .call (.sendTransferRequest w (.process t)) => some (w.uuid, t.uuid)
  | .call (.sendTransferRequest w (.request t _)) => some (w.uuid, t.uuid)
  | .call (.sendTransferRequest w (.announce t)) => some (w.uuid, t.uuid)
  | _ => none

/-- A transfer that is about to be stored is blank. -/
def Activity.StoresBlank : Activity → Prop
  | .call (.sendTransferRequest _ (.add t)) => t.Blank ∧ t.state = .initializing
  | _ => True

section holding

variable {s : Settings} {i i' : Instance} {a a' : Activity} {spawned : List Activity}
  {host host' : Host} {ans : Answer}

theorem stopState_isDecision (kind : TransferKind) (error : Bool) :
    (WarpServer.stopState kind error).isDecision = true := by
  cases kind <;> cases error <;> rfl

theorem cancelState_isDecision (kind : TransferKind) :
    (WarpServer.cancelState kind).isDecision = true := by
  cases kind <;> rfl

theorem workerCancelState_isDecision (kind : TransferKind) :
    (Worker.cancelState kind).isDecision = true := by
  cases kind <;> rfl

theorem sendFinalState_isDecision (result : Except TransferError Bool) (isCancelled : Bool) :
    (sendFinalState result isCancelled).isDecision = true := by
  unfold sendFinalState
  split
  · rfl
  · split <;> rfl
  · rfl

theorem receiveFinalState_isDecision (result : Except TransferError Bool) :
    (receiveFinalState result).isDecision = true := by
  unfold receiveFinalState
  split <;> rfl

theorem withdraw_decided {μ : Type} {w : Worker} {message : OpInfo → μ}
    {newState : TransferKind → TransferState} {pc pc' : Worker.WithdrawPc μ}
    (h : Worker.WithdrawMove w message newState host pc ans host' pc')
    (hnew : ∀ kind, (newState kind).isDecision = true)
    (hpc : ∀ st, pc.decided = some st → st.isDecision = true) :
    ∀ st, pc'.decided = some st → st.isDecision = true := by
  intro st hst
  cases h with
  | refused _ _ _ | denied _ _ _ _ | updated _ _ _ _ | lost _ _ _ _ _ => cases hst
  | foundOutgoing _ _ _ _ _ | foundIncoming _ _ _ _ =>
    cases hst
    exact hnew _
  | cancelled _ _ _ _ _ | answered _ _ _ => exact hpc st hst

/-- What a call spawns is a streaming task at its beginning. -/
theorem streaming_of_spawned {t t' : Task} {spawned : List Task}
    (h : t.step host ans = some (host', t', spawned)) {b : Task} (hb : b ∈ spawned) :
    (∃ task, b = .sendStream task ∧ task.phase = .inner) ∨
      ∃ task, b = .receiveStream task ∧ task.phase = .inner := by
  cases task_move h with
  | startTransfer pc pc₁ hstep =>
    cases WarpServer.startTransfer_move hstep with
    | started _ _ _ _ _ _ => exact .inl ⟨_, List.mem_singleton.1 hb, rfl⟩
    | refused _ _ _ | found _ _ _ _ _ | lost _ _ _ _ _ => cases hb
  | acceptTransfer w pc pc₁ hstep =>
    cases Worker.acceptTransfer_move hstep with
    | accepted _ _ _ _ _ _ => exact .inr ⟨_, List.mem_singleton.1 hb, rfl⟩
    | refused _ _ _ _ | found _ _ _ _ _ | answered _ _ _ | denied _ _ _ _ | lost _ _ _ _ _ =>
      cases hb
  | processTransferOpRequest _ _ _ | peerStopTransfer _ _ _ | cancelTransferOpRequest _ _ _
  | sendTransferRequest _ _ _ _ | stopTransfer _ _ _ _ _ | cancelTransfer _ _ _ _
  | sendStream _ _ _ | receiveStream _ _ _ => cases hb

/-- The state that a call chooses is a decision. -/
theorem call_decided {t t' : Task} {spawned : List Task}
    (h : t.step host ans = some (host', t', spawned))
    (ht : ∀ st, (Activity.call t).decided = some st → st.isDecision = true) {st : TransferState}
    (hst : (Activity.call t').decided = some st) : st.isDecision = true := by
  cases task_move h with
  | processTransferOpRequest _ _ _ | sendTransferRequest _ _ _ _ | startTransfer _ _ _
  | acceptTransfer _ _ _ _ => cases hst
  | peerStopTransfer pc pc₁ hstep =>
    cases WarpServer.stopTransfer_move hstep with
    | refused _ _ _ | updated _ _ _ => cases hst
    | foundOutgoing _ _ _ _ _ _ | foundIncoming _ _ _ _ _ =>
      cases hst
      exact stopState_isDecision _ _
    | cancelled transfer token newState => exact ht st hst
  | cancelTransferOpRequest pc pc₁ hstep =>
    cases WarpServer.cancelTransferOpRequest_move hstep with
    | refused _ _ _ | updated _ _ _ => cases hst
    | found _ _ _ _ =>
      cases hst
      exact cancelState_isDecision _
  | stopTransfer w error pc pc₁ hstep =>
    exact withdraw_decided (Worker.withdraw_move hstep) (fun _ => rfl) ht st hst
  | cancelTransfer w pc pc₁ hstep =>
    exact withdraw_decided (Worker.withdraw_move hstep) workerCancelState_isDecision ht st hst
  | sendStream task task₁ hstep =>
    cases SendTask.step_move hstep with
    | inner l queued sender hphase _ _ => simp [Activity.decided, hphase] at hst
    | decide queued result _ _ =>
      cases hst
      exact sendFinalState_isDecision _ _
    | close _ _ _ | leave _ _ => cases hst
  | receiveStream task task₁ hstep =>
    cases ReceiveTask.step_move hstep with
    | again event fault queued r hphase _ _ => simp [Activity.decided, hphase] at hst
    | leave event fault queued result r _ _ _ =>
      cases hst
      exact receiveFinalState_isDecision _
    | panic _ _ _ _ _ _ _ | close _ _ _ => cases hst

/-- A call that accepts has found the transfer incoming. -/
theorem call_accepts {t t' : Task} {spawned : List Task}
    (h : t.step host ans = some (host', t', spawned)) {k u : String}
    (haccepts : (Activity.call t').accepts = some (k, u)) :
    (Activity.call t).accepts = some (k, u) ∨
      (host' = host ∧ ∃ r, host.transfer k u = some r ∧ r.kind.isIncoming = true) := by
  cases task_move h with
  | acceptTransfer w pc pc₁ hstep =>
    cases pc with
    | lookup u' destination =>
      -- the lookup that goes on has seen the kind
      cases ans with
      | noClient => cases hstep; cases haccepts
      | go queued =>
        simp only [Worker.acceptTransfer] at hstep
        split at hstep
        · cases hstep; cases haccepts
        · next transfer ht =>
          split at hstep
          · cases hstep; cases haccepts
          · next hkind =>
            cases hstep
            obtain ⟨rfl, rfl⟩ := Prod.mk.inj (Option.some.inj haccepts)
            exact .inr ⟨rfl, transfer, ht, by rw [hkind]; rfl⟩
      | fresh _ _ | processed _ | reply _ | send _ _ | receive _ _ _ => cases hstep
    | request u' destination req =>
      cases Worker.acceptTransfer_move hstep with
      | answered _ _ _ => exact .inl haccepts
      | denied _ _ _ _ => cases haccepts
    | update u' destination =>
      cases Worker.acceptTransfer_move hstep with
      | lost _ _ _ _ _ | accepted _ _ _ _ _ _ => cases haccepts
    | receiving _ | failed _ => cases hstep
  | processTransferOpRequest _ _ _ | startTransfer _ _ _ | peerStopTransfer _ _ _
  | cancelTransferOpRequest _ _ _ | sendTransferRequest _ _ _ _ | stopTransfer _ _ _ _ _
  | cancelTransfer _ _ _ _ | sendStream _ _ _ | receiveStream _ _ _ => cases haccepts

/-- A call that announces has done so before, or has just stored the transfer. -/
theorem call_announces {t t' : Task} {spawned : List Task}
    (h : t.step host ans = some (host', t', spawned)) {k u : String}
    (hannounces : (Activity.call t').announces = some (k, u)) :
    ((Activity.call t).announces = some (k, u) ∧ host' = host) ∨
      ∃ w r, t = .sendTransferRequest w (.add r) ∧ w.uuid = k ∧ r.uuid = u ∧
        host' = (host.addTransfer k r).2 := by
  cases task_move h with
  | sendTransferRequest w pc pc₁ hstep =>
    cases Worker.sendTransferRequest_move hstep with
    | refused _ | created _ _ _ _ _ | notAdded _ _ | notProcessed _ _ | failed _ _ _
    | announced _ _ _ | lost _ _ _ | aborted _ _ _ _ => cases hannounces
    | added transfer =>
      obtain ⟨rfl, rfl⟩ := Prod.mk.inj (Option.some.inj hannounces)
      exact .inr ⟨w, transfer, rfl, rfl, rfl, rfl⟩
    | processed _ _ _ | answered _ _ => exact .inl ⟨hannounces, rfl⟩
  | processTransferOpRequest _ _ _ | startTransfer _ _ _ | peerStopTransfer _ _ _
  | cancelTransferOpRequest _ _ _ | acceptTransfer _ _ _ _ | stopTransfer _ _ _ _ _
  | cancelTransfer _ _ _ _ | sendStream _ _ _ | receiveStream _ _ _ => cases hannounces

/-- A call that is about to store a transfer of its own has just made it. -/
theorem call_storesBlank {t t' : Task} {spawned : List Task}
    (h : t.step host ans = some (host', t', spawned)) : (Activity.call t').StoresBlank := by
  cases task_move h with
  | sendTransferRequest w pc pc₁ hstep =>
    cases Worker.sendTransferRequest_move hstep with
    | created _ _ _ _ _ => exact ⟨⟨rfl, rfl⟩, rfl⟩
    | refused _ | added _ | notAdded _ _ | processed _ _ _ | notProcessed _ _ | answered _ _
    | failed _ _ _ | announced _ _ _ | lost _ _ _ | aborted _ _ _ _ => trivial
  | processTransferOpRequest _ _ _ | startTransfer _ _ _ | peerStopTransfer _ _ _
  | cancelTransferOpRequest _ _ _ | acceptTransfer _ _ _ _ | stopTransfer _ _ _ _ _
  | cancelTransfer _ _ _ _ | sendStream _ _ _ | receiveStream _ _ _ => trivial

/-- An activity that holds nothing of a transfer. -/
structure Activity.HoldsNothing (a : Activity) : Prop where
  decided : a.decided = none
  accepts : a.accepts = none
  announces : a.announces = none
  storesBlank : a.StoresBlank

theorem holdsNothing_of_spawned {t t' : Task} {spawned : List Task}
    (h : t.step host ans = some (host', t', spawned)) {b : Task} (hb : b ∈ spawned) :
    (Activity.call b).HoldsNothing := by
  rcases streaming_of_spawned h hb with ⟨task, rfl, hphase⟩ | ⟨task, rfl, hphase⟩
  · exact ⟨by simp [Activity.decided, hphase], rfl, rfl, trivial⟩
  · exact ⟨by simp [Activity.decided, hphase], rfl, rfl, trivial⟩

theorem holdsNothing_of_isNew (h : a.isNew = true) : a.HoldsNothing := by
  cases a with
  | call t =>
    cases t with
    | processTransferOpRequest pc => exact ⟨rfl, rfl, rfl, trivial⟩
    | startTransfer pc => exact ⟨rfl, rfl, rfl, trivial⟩
    | peerStopTransfer pc =>
      cases pc with
      | lookup _ => exact ⟨rfl, rfl, rfl, trivial⟩
      | cancel _ _ _ | update _ _ | returned _ => cases h
    | cancelTransferOpRequest pc =>
      cases pc with
      | lookup _ => exact ⟨rfl, rfl, rfl, trivial⟩
      | update _ _ | returned _ => cases h
    | sendTransferRequest _ _ | acceptTransfer _ _ | stopTransfer _ _ _ | cancelTransfer _ _
    | sendStream _ | receiveStream _ => cases h
  | admission _ | sendTextMessage _ | getWorker _ _ => exact ⟨rfl, rfl, rfl, trivial⟩
  | sendMessage _ _ | workerMissing => cases h

theorem holdsNothing_start (w : Worker) (op : WorkerOp) : (op.start w).HoldsNothing := by
  cases op <;> exact ⟨rfl, rfl, rfl, trivial⟩

/-- What activities spawn holds nothing of a transfer. -/
theorem spawned_holdsNothing (h : ActivityMove s i a i' a' spawned) {b : Activity}
    (hb : b ∈ spawned) : b.HoldsNothing := by
  cases h with
  | call t t' host ans ts hstep =>
    obtain ⟨t₁, ht₁, rfl⟩ := List.mem_map.1 hb
    exact holdsNothing_of_spawned hstep ht₁
  | getWorker _ _ _ _ | admission _ _ _ _ _ _ | sendTextMessage _ _ _ _ | sendMessage _ _ _ _ _
  | missing _ _ => cases hb

/-- An activity that is no call holds nothing of a transfer after its step. -/
theorem activity_holds (h : ActivityMove s i a i' a' spawned) :
    a'.HoldsNothing ∨ ∃ t t' host' ans ts, a = .call t ∧ a' = .call t' ∧
      i' = { i with host := host' } ∧ t.step i.host ans = some (host', t', ts) := by
  cases h with
  | call t t' host ans ts hstep => exact .inr ⟨t, t', host, ans, ts, rfl, rfl, rfl, hstep⟩
  | getWorker uuid op w _ => exact .inl (holdsNothing_start w op)
  | admission _ _ _ _ _ _ | sendTextMessage _ _ _ _ | sendMessage _ _ _ _ _ | missing _ _ =>
    exact .inl ⟨rfl, rfl, rfl, trivial⟩

/-- A transfer is stored as the step that follows its creation. -/
theorem added_move {w : Worker} {r : Transfer}
    (h : ActivityMove s i (.call (.sendTransferRequest w (.add r))) i' a' spawned) :
    spawned = [] ∧ a'.pending = none ∧ i'.host = (i.host.addTransfer w.uuid r).2 := by
  cases h with
  | call t t' host ans ts hstep =>
    cases task_move hstep with
    | sendTransferRequest w pc pc₁ hcall =>
      cases Worker.sendTransferRequest_move hcall with
      | added _ | notAdded _ _ => exact ⟨rfl, rfl, rfl⟩

end holding

/-! ## Section 3: Where a record comes from -/

/-- Where the record of a transfer after a step of `a` comes from. -/
inductive RecordOrigin (host : Host) (a : Activity) (k u : String) (r' : Transfer) : Prop
  | kept (r : Transfer) : host.transfer k u = some r → r.Later r' → r'.totals = r.totals →
      r'.state = r.state → RecordOrigin host a k u r'
  | updated (f : TransferUpdate) (r : Transfer) : a.updates = some (k, u, f) →
      host.transfer k u = some r → r' = f.apply r → RecordOrigin host a k u r'
  | received : u ∉ host.uuids → r'.state = .waitingPermission → RecordOrigin host a k u r'
  | created (w : Worker) : a = .call (.sendTransferRequest w (.add r')) → w.uuid = k →
      r'.uuid = u → RecordOrigin host a k u r'

section origins

variable {host host' : Host} {a : Activity} {k u : String} {r' : Transfer}

theorem RecordOrigin.of_same (h : host.transfer k u = some r') : RecordOrigin host a k u r' :=
  .kept r' h (.refl r') rfl rfl

theorem transfer_of_manager {host₁ : Host} (h : host'.manager = host₁.manager) (k u : String) :
    host'.transfer k u = host₁.transfer k u := by
  unfold Host.transfer
  rw [h]

/-- Progress makes a record a later one. -/
theorem later_recordProgress {queued : Nat} {k' u' : String} {before after : List Progress}
    (h : (host.recordProgress queued k' u' before after).transfer k u = some r') :
    ∃ r, host.transfer k u = some r ∧ r.Later r' ∧ r'.totals = r.totals ∧
      r'.state = r.state := by
  unfold Host.recordProgress at h
  generalize after.drop before.length = ps at h
  induction ps generalizing host with
  | nil => exact ⟨r', h, .refl r', rfl, rfl⟩
  | cons p ps ih =>
    obtain ⟨r₁, hr₁, hlater, htotals, hstate⟩ := ih h
    rw [Host.transfer_updateTransfer] at hr₁
    split at hr₁
    · next hku =>
      obtain ⟨rfl, rfl⟩ := hku
      obtain ⟨r, hr, rfl⟩ := Option.map_eq_some_iff.1 hr₁
      exact ⟨r, hr, (later_progress r p).trans hlater, htotals, hstate⟩
    · exact ⟨r₁, hr₁, hlater, htotals, hstate⟩

theorem origin_of_added {t : Transfer}
    (h : (host.addTransfer k t).2.transfer k u = some r') :
    host.transfer k u = some r' ∨ (r' = t ∧ t.uuid = u) := by
  rw [Host.transfer_addTransfer] at h
  split at h
  · next hcond =>
    cases hr : host.transfer k u with
    | none =>
      rw [hr] at h
      exact .inr ⟨(Option.some.inj h).symm, hcond.2.2⟩
    | some r =>
      rw [hr] at h
      exact .inl h
  · exact .inl h

theorem transfer_addTransfer_of_ne {k' : String} {t : Transfer} (hk : k ≠ k') :
    (host.addTransfer k' t).2.transfer k u = host.transfer k u := by
  rw [Host.transfer_addTransfer, if_neg fun h => hk h.1]

theorem process_origin {pc pc' : WarpServer.ProcessPc} {ans : Answer}
    (h : WarpServer.processTransferOpRequest host pc ans = some (host', pc'))
    (hr' : host'.transfer k u = some r') :
    RecordOrigin host (.call (.processTransferOpRequest pc)) k u r' := by
  cases WarpServer.processTransferOpRequest_move h with
  | refused req status => exact .of_same hr'
  | added req info id now result hid =>
    obtain ⟨-, hsame | ⟨info', _, id', now', heq⟩⟩ := processTransferOpRequest_ident h
    · rw [hsame] at hr'
      exact .of_same hr'
    · -- the uuid that is stored is the one that has been drawn
      have huuids : id.toString :: host.uuids = id'.toString :: host.uuids :=
        congrArg Host.uuids heq
      obtain ⟨hid', -⟩ := List.cons.inj huuids
      rw [heq] at hr'
      by_cases hk : k = info'.ident
      · subst hk
        rcases origin_of_added hr' with hold | ⟨rfl, rfl⟩
        · exact .of_same hold
        · refine .received ?_ rfl
          show id'.toString ∉ host.uuids
          rw [← hid']
          exact hid
      · rw [transfer_addTransfer_of_ne hk] at hr'
        exact .of_same hr'

theorem call_origin {t t' : Task} {ans : Answer} {spawned : List Task}
    (h : t.step host ans = some (host', t', spawned)) (hr' : host'.transfer k u = some r') :
    RecordOrigin host (.call t) k u r' := by
  cases call_effect h with
  | same hmanager =>
    rw [transfer_of_manager hmanager] at hr'
    exact .of_same hr'
  | progress queued k' u' before after hmanager =>
    rw [transfer_of_manager hmanager] at hr'
    obtain ⟨r, hr, hlater, htotals, hstate⟩ := later_recordProgress hr'
    exact .kept r hr hlater htotals hstate
  | update queued k' u' f hupdates hmanager =>
    rw [transfer_of_manager hmanager, Host.transfer_updateTransfer] at hr'
    split at hr'
    · next hku =>
      obtain ⟨rfl, rfl⟩ := hku
      obtain ⟨r, hr, rfl⟩ := Option.map_eq_some_iff.1 hr'
      exact .updated f r hupdates hr rfl
    · exact .of_same hr'
  | add k' t₀ hmanager haddition hnew =>
    -- one of the two calls that store a transfer
    cases task_move h with
    | processTransferOpRequest pc pc₁ hstep => exact process_origin hstep hr'
    | sendTransferRequest w pc pc₁ hstep =>
      cases Worker.sendTransferRequest_move hstep with
      | added transfer | notAdded transfer e =>
        by_cases hk : k = w.uuid
        · subst hk
          rcases origin_of_added hr' with hold | ⟨rfl, huuid⟩
          · exact .of_same hold
          · exact .created w rfl rfl huuid
        · rw [transfer_addTransfer_of_ne hk] at hr'
          exact .of_same hr'
      | refused _ | created _ _ _ _ _ | processed _ _ _ | notProcessed _ _ | answered _ _
      | failed _ _ _ | announced _ _ _ | lost _ _ _ | aborted _ _ _ _ => cases haddition
    | startTransfer _ _ _ | peerStopTransfer _ _ _ | cancelTransferOpRequest _ _ _
    | acceptTransfer _ _ _ _ | stopTransfer _ _ _ _ _ | cancelTransfer _ _ _ _
    | sendStream _ _ _ | receiveStream _ _ _ => cases haddition

theorem activity_origin {s : Settings} {i i' : Instance} {a' : Activity} {spawned : List Activity}
    (hsound : a.Sound i) (h : ActivityMove s i a i' a' spawned)
    (hr' : i'.host.transfer k u = some r') : RecordOrigin i.host a k u r' := by
  cases h with
  | call t t' host ans spawned hstep => exact call_origin hstep hr'
  | admission t t' g ans spawned hstep =>
    cases (admission_move hstep).1 with
    | same g' _ hsame =>
      have heq := RemoteManager.transfer_of_content (transfers_of_sameRecords hsame) k u
      exact .of_same (heq.symm.trans hr')
    | insert r hr =>
      -- a record of a remote that is inserted holds no transfers
      obtain ⟨r₁, hr₁, hfind⟩ := Option.bind_eq_some_iff.1 hr'
      rcases remote_of_inserted hsound hr hr₁ with hempty | hbefore
      · rw [hempty] at hfind
        cases hfind
      · exact .of_same (Option.bind_eq_some_iff.2 ⟨r₁, hbefore, hfind⟩)
  | sendTextMessage pc pc' host hmove =>
    cases hmove with
    | refused req status => exact .of_same hr'
    | added req id now result _ =>
      have heq := RemoteManager.transfer_of_content
        (transfers_addMessage i.host.manager req.ident (.ofTextMessage id now req)) k u
      exact .of_same (heq.symm.trans hr')
  | sendMessage w pc pc' host hmove =>
    cases hmove with
    | refused _ | created _ _ _ _ _ | answered _ _ | failed _ _ _ => exact .of_same hr'
    | added msg result =>
      have heq := RemoteManager.transfer_of_content
        (transfers_addMessage i.host.manager w.uuid msg) k u
      exact .of_same (heq.symm.trans hr')
  | getWorker uuid op w _ => exact .of_same hr'
  | missing uuid op => exact .of_same hr'

/-- What is left after a removal has been there before. -/
theorem transfer_of_removed {i : Instance} (hi : i.WellFormed) (k' u' : String)
    (hr' : (i.change (.removeTransfer k' u')).host.transfer k u = some r') :
    i.host.transfer k u = some r' := by
  have hafter : (i.host.manager.removeTransfer k' u').2.transfer k u = some r' := hr'
  rcases RemoteManager.removeTransfer_cases i.host.manager k' u' with heq | ⟨r, t, hr, _, heq⟩
  · rw [heq] at hafter
    exact hafter
  rw [heq, RemoteManager.transfer_of_remote, remote_setRemote] at hafter
  show i.host.manager.transfer k u = some r'
  rw [RemoteManager.transfer_of_remote]
  by_cases hk : k = k'
  · subst hk
    rw [if_pos rfl, Option.bind_some] at hafter
    by_cases hu : u = u'
    · subst hu
      rw [find_eraseP_self (hi.transferUuids k r hr)] at hafter
      cases hafter
    · rw [find_eraseP hu] at hafter
      rw [hr, Option.bind_some]
      exact hafter
  · rw [if_neg hk] at hafter
    exact hafter

/-- Changes from outside write no record of a transfer. -/
theorem transfer_of_change {p : Running} (hp : p.Sound) (e : InstanceChange)
    (hr' : (p.shared.change e).host.transfer k u = some r') :
    p.shared.host.transfer k u = some r' := by
  by_cases hremoval : ∃ k' u', e = .removeTransfer k' u'
  · obtain ⟨k', u', rfl⟩ := hremoval
    exact transfer_of_removed hp.wellFormed k' u' hr'
  · have hnot : ∀ k u, e ≠ .removeTransfer k u := fun k' u' he => hremoval ⟨k', u', he⟩
    have heq := RemoteManager.transfer_of_content (transfers_change p.shared hnot) k u
    exact heq.symm.trans hr'

end origins

/-! ## Section 4: The invariant -/

/-- The transfer has been stored, and what is left of it satisfies `P`. -/
structure Running.Keeps (p : Running) (k u : String) (P : Transfer → Prop) : Prop where
  drawn : u ∈ p.shared.host.uuids
  stored : ∀ a ∈ p.tasks, a.pending ≠ some (k, u)
  record : ∀ t, p.shared.host.transfer k u = some t → P t

/-- What the activities hold fits the records. -/
structure Running.Fit (p : Running) : Prop where
  sound : p.Sound
  decided : ∀ a ∈ p.tasks, ∀ st, a.decided = some st → st.isDecision = true
  storesBlank : ∀ a ∈ p.tasks, a.StoresBlank
  accepts : ∀ a ∈ p.tasks, ∀ k u, a.accepts = some (k, u) →
    p.Keeps k u fun t => t.kind.isIncoming = true
  announces : ∀ a ∈ p.tasks, ∀ k u, a.announces = some (k, u) → p.Keeps k u Transfer.Blank
  /-- One activity at most announces a transfer. -/
  once : ∀ k u, p.tasks.countP (fun a => a.announces = some (k, u)) ≤ 1

/-- An update that an activity is about to make fits the record that it finds. -/
theorem Running.Fit.later_of_updates {p : Running} (h : p.Fit) {a : Activity} (ha : a ∈ p.tasks)
    {k u : String} {f : TransferUpdate} (hupdates : a.updates = some (k, u, f)) {r : Transfer}
    (hr : p.shared.host.transfer k u = some r) :
    r.Later (f.apply r) ∧ ((f.apply r).totals = r.totals ∨ a.announces = some (k, u)) := by
  have hdecided := h.decided a ha
  unfold Activity.updates at hupdates
  split at hupdates
  -- calls of peers
  · cases hupdates; exact ⟨later_setState r rfl, .inl rfl⟩
  · cases hupdates; exact ⟨later_setState r (hdecided _ rfl), .inl rfl⟩
  · cases hupdates; exact ⟨later_setState r (hdecided _ rfl), .inl rfl⟩
  -- `send_transfer_request`
  · next w t =>
    cases hupdates
    exact ⟨later_announce r t ((h.announces _ ha _ _ rfl).record r hr), .inr rfl⟩
  · cases hupdates; exact ⟨later_setState r rfl, .inl rfl⟩
  -- `accept_transfer`
  · next w u' destination =>
    cases hupdates
    exact ⟨later_accept r destination ((h.accepts _ ha _ _ rfl).record r hr), .inl rfl⟩
  -- `stop_transfer` and `cancel_transfer`
  · cases hupdates; exact ⟨later_setState r (hdecided _ rfl), .inl rfl⟩
  · cases hupdates; exact ⟨later_setState r (hdecided _ rfl), .inl rfl⟩
  -- the streaming tasks
  · next task =>
    split at hupdates
    · next finalState hphase =>
      cases hupdates
      exact ⟨later_finishSend r (hdecided _ (by simp [Activity.decided, hphase])), .inl rfl⟩
    · cases hupdates
  · next task =>
    split at hupdates
    · next finalState hphase =>
      cases hupdates
      exact ⟨later_finishReceive r (hdecided _ (by simp [Activity.decided, hphase])), .inl rfl⟩
    · cases hupdates
  · cases hupdates

section steps

variable {s : Settings} {p p' : Running} {l : RunningLabel} {k u : String} {P : Transfer → Prop}

/-- What is stored will not be stored again. -/
theorem keeps_of_stored (hp : p.Sound) {t : Transfer} (ht : p.shared.host.transfer k u = some t)
    (hP : P t) : p.Keeps k u P := by
  have hmem : u ∈ p.shared.stored k := by
    obtain ⟨r, hr, hfind⟩ := Option.bind_eq_some_iff.1 ht
    have hremote : p.shared.remote k = some r := hr
    have huuid : t.uuid = u := by simpa using List.find?_some hfind
    unfold Instance.stored
    rw [hremote, ← huuid]
    exact List.mem_append_left _ (List.mem_map_of_mem (List.mem_of_find?_eq_some hfind))
  refine ⟨hp.drawn_stored k u hmem, fun a ha hpending => ?_, fun t' ht' => ?_⟩
  · -- it is counted once, and it is stored
    have honce := hp.once k u
    have hpos : 0 < (p.shared.stored k).count u := List.count_pos_iff.2 hmem
    have hheld : 0 < p.tasks.countP fun t => t.pending = some (k, u) :=
      List.countP_pos_iff.2 ⟨a, ha, by simp [hpending]⟩
    unfold Instance.load at honce
    omega
  · rw [Option.some.inj (ht'.symm.trans ht)]
    exact hP

/-- The activity that takes the step announces the transfer. -/
def Running.Announces (p : Running) (l : RunningLabel) (k u : String) : Prop :=
  ∃ j ans a, l = .run j ans ∧ p.tasks[j]? = some a ∧ a.announces = some (k, u)

/-- A record that has been stored before a step is a later one after it. -/
theorem record_step (h : p.Fit) (hstep : (activities s).poolStep p l = some p')
    (hkeeps : p.Keeps k u P) {r' : Transfer} (hr' : p'.shared.host.transfer k u = some r') :
    ∃ r, p.shared.host.transfer k u = some r ∧ r.Later r' ∧
      (r'.totals = r.totals ∨ p.Announces l k u) := by
  cases l with
  | run j ans =>
    obtain ⟨a, i', a', spawned, ha, hadvance, rfl⟩ := Tasking.run_cases hstep
    have hmem := List.mem_of_getElem? ha
    cases activity_origin (h.sound.sound a hmem) (activity_move hadvance) hr' with
    | kept r hr hlater htotals _ => exact ⟨r, hr, hlater, .inl htotals⟩
    | updated f r hupdates hr heq =>
      obtain ⟨hlater, htotals⟩ := h.later_of_updates hmem hupdates hr
      rw [heq]
      refine ⟨r, hr, hlater, htotals.imp_right fun hannounces => ?_⟩
      exact ⟨j, ans, a, rfl, ha, hannounces⟩
    | received hfresh _ => exact absurd hkeeps.drawn hfresh
    | created w heq hk hu =>
      subst heq hk hu
      exact absurd rfl (hkeeps.stored _ hmem)
  | enter a =>
    obtain ⟨_, rfl⟩ := Tasking.enter_cases hstep
    exact ⟨r', hr', .refl r', .inl rfl⟩
  | env e =>
    cases hstep
    exact ⟨r', transfer_of_change h.sound e hr', .refl r', .inl rfl⟩

/-- What every later record satisfies is kept by a step. -/
theorem keeps_step (h : p.Fit) (hstep : (activities s).poolStep p l = some p')
    (hkeeps : p.Keeps k u P)
    (hP : ∀ r r', P r → r.Later r' → r'.totals = r.totals ∨ p.Announces l k u → P r') :
    p'.Keeps k u P where
  drawn := (load_step h.sound hstep (k := k) hkeeps.drawn).1
  stored b hb hpending := by
    cases Tasking.origin_of_mem hstep hb with
    | kept hold _ => exact hkeeps.stored b hold hpending
    | made j ans a a' spawned _ ha hadvance hmem =>
      rcases pending_step (activity_move hadvance) hmem hpending with hheld | hfresh
      · exact hkeeps.stored a (List.mem_of_getElem? ha) hheld
      · exact hfresh hkeeps.drawn
    | entered _ hnew =>
      rw [(sound_of_entering (i := p.shared) hnew).2] at hpending
      cases hpending
  record r' hr' := by
    obtain ⟨r, hr, hlater, htotals⟩ := record_step h hstep hkeeps hr'
    exact hP r r' (hkeeps.record r hr) hlater htotals

/-- A transfer that has been found incoming stays incoming. -/
theorem accepts_step (h : p.Fit) (hstep : (activities s).poolStep p l = some p') {b : Activity}
    (hb : b ∈ p'.tasks) (haccepts : b.accepts = some (k, u)) :
    p'.Keeps k u fun t => t.kind.isIncoming = true := by
  have hkept : p.Keeps k u (fun t => t.kind.isIncoming = true) →
      p'.Keeps k u fun t => t.kind.isIncoming = true := fun hkeeps =>
    keeps_step h hstep hkeeps fun r r' hr hlater _ => hlater.direction.trans hr
  cases Tasking.origin_of_mem hstep hb with
  | kept hold _ => exact hkept (h.accepts b hold k u haccepts)
  | made j ans a a' spawned _ ha hadvance hmem =>
    rcases List.mem_cons.1 hmem with rfl | hspawned
    · rcases activity_holds (activity_move hadvance) with
        hnothing | ⟨t, t', host', ans', ts, rfl, rfl, _, hcall⟩
      · rw [hnothing.accepts] at haccepts
        cases haccepts
      · rcases call_accepts hcall haccepts with hbefore | ⟨_, r, hr, hin⟩
        · exact hkept (h.accepts _ (List.mem_of_getElem? ha) k u hbefore)
        · exact hkept (keeps_of_stored h.sound hr hin)
    · rw [(spawned_holdsNothing (activity_move hadvance) hspawned).accepts] at haccepts
      cases haccepts
  | entered _ hnew =>
    rw [(holdsNothing_of_isNew hnew).accepts] at haccepts
    cases haccepts

/-- A transfer that has just been stored is blank, and nobody will store it again. -/
theorem keeps_of_added (h : p.Fit) {j : Nat} {ans : ActivityAnswer} {w : Worker} {r : Transfer}
    (ha : p.tasks[j]? = some (.call (.sendTransferRequest w (.add r))))
    (hstep : (activities s).poolStep p (.run j ans) = some p') :
    p'.Keeps w.uuid r.uuid Transfer.Blank := by
  have hmem := List.mem_of_getElem? ha
  have hpos : 0 < p.tasks.countP fun t => t.pending = some (w.uuid, r.uuid) :=
    List.countP_pos_iff.2 ⟨_, hmem, by simp [Activity.pending]⟩
  have honce : p.tasks.countP (fun t => t.pending = some (w.uuid, r.uuid)) ≤ 1 := by
    have hload := h.sound.once w.uuid r.uuid
    unfold Instance.load at hload
    omega
  have hdrawn : r.uuid ∈ p.shared.host.uuids := by
    apply h.sound.drawn w.uuid
    unfold Instance.load
    omega
  refine ⟨(load_step h.sound hstep (k := w.uuid) hdrawn).1, fun b hb hpending => ?_, ?_⟩
  · cases Tasking.origin_of_mem hstep hb with
    | kept _ hother =>
      -- the one activity that held it is the one that has run
      have hnot := Tasking.not_of_mem_eraseIdx honce ha (by simp [Activity.pending])
        (hother j ans rfl)
      simp [hpending] at hnot
    | made j' ans' a a' spawned heq ha' hadvance hmade =>
      cases heq
      obtain rfl := Option.some.inj (ha.symm.trans ha')
      obtain ⟨rfl, hnone, _⟩ := added_move (activity_move hadvance)
      rw [List.mem_singleton.1 hmade, hnone] at hpending
      cases hpending
    | entered heq _ => cases heq
  · intro r' hr'
    obtain ⟨a, i', a', spawned, ha', hadvance, rfl⟩ := Tasking.run_cases hstep
    obtain rfl := Option.some.inj (ha.symm.trans ha')
    obtain ⟨_, _, hhost⟩ := added_move (activity_move hadvance)
    have hafter : (p.shared.host.addTransfer w.uuid r).2.transfer w.uuid r.uuid = some r' := by
      rw [← hhost]
      exact hr'
    rcases origin_of_added hafter with hold | ⟨rfl, _⟩
    · have hkeeps := keeps_of_stored (P := fun _ => True) h.sound hold trivial
      exact absurd rfl (hkeeps.stored _ hmem)
    · exact (h.storesBlank _ hmem).1

/-- A transfer that will be announced stays blank. -/
theorem announces_step (h : p.Fit) (hstep : (activities s).poolStep p l = some p') {b : Activity}
    (hb : b ∈ p'.tasks) (hannounces : b.announces = some (k, u)) :
    p'.Keeps k u Transfer.Blank := by
  cases Tasking.origin_of_mem hstep hb with
  | kept hold hother =>
    refine keeps_step h hstep (h.announces b hold k u hannounces) fun r r' hr hlater htotals => ?_
    rcases htotals with hsame | ⟨j, ans, a, rfl, ha, hself⟩
    · exact hr.later hlater hsame
    · -- two activities would announce it
      have hnot := Tasking.not_of_mem_eraseIdx (h.once k u) ha (by simp [hself])
        (hother j ans rfl)
      simp [hannounces] at hnot
  | made j ans a a' spawned heq ha hadvance hmem =>
    rcases List.mem_cons.1 hmem with rfl | hspawned
    · rcases activity_holds (activity_move hadvance) with
        hnothing | ⟨t, t', host', ans', ts, rfl, rfl, hi', hcall⟩
      · rw [hnothing.announces] at hannounces
        cases hannounces
      · rcases call_announces hcall hannounces with ⟨hbefore, rfl⟩ | ⟨w, r, rfl, rfl, rfl, _⟩
        · -- it waits for the totals or for the answer, and the records stay
          have hkeeps := h.announces _ (List.mem_of_getElem? ha) k u hbefore
          obtain ⟨hdrawn, hstored, _⟩ := keeps_step h hstep
            ⟨hkeeps.drawn, hkeeps.stored, fun _ _ => trivial⟩ (P := fun _ => True)
            fun _ _ _ _ _ => trivial
          refine ⟨hdrawn, hstored, fun r hr => hkeeps.record r ?_⟩
          have hshared : p'.shared = p.shared := hi'
          rw [hshared] at hr
          exact hr
        · subst heq
          exact keeps_of_added h ha hstep
    · rw [(spawned_holdsNothing (activity_move hadvance) hspawned).announces] at hannounces
      cases hannounces
  | entered _ hnew =>
    rw [(holdsNothing_of_isNew hnew).announces] at hannounces
    cases hannounces

/-- One activity at most announces a transfer after a step. -/
theorem once_step (h : p.Fit) (hstep : (activities s).poolStep p l = some p') (k u : String) :
    p'.tasks.countP (fun a => a.announces = some (k, u)) ≤ 1 := by
  have honce := h.once k u
  cases l with
  | run j ans =>
    obtain ⟨a, i', a', spawned, ha, hadvance, rfl⟩ := Tasking.run_cases hstep
    have hmove := activity_move hadvance
    have hcount := Tasking.countP_run (fun a => decide (a.announces = some (k, u))) ha a' spawned
    have hspawned : spawned.countP (fun a => decide (a.announces = some (k, u))) = 0 := by
      rw [List.countP_eq_zero]
      intro b hb
      simp [(spawned_holdsNothing hmove hb).announces]
    rw [List.countP_singleton, List.countP_cons, hspawned] at hcount
    show (p.tasks.set j a' ++ spawned).countP _ ≤ 1
    by_cases hannounces : a'.announces = some (k, u)
    · rcases activity_holds hmove with hnothing | ⟨t, t', host', ans', ts, rfl, rfl, _, hcall⟩
      · rw [hnothing.announces] at hannounces
        cases hannounces
      · rcases call_announces hcall hannounces with ⟨hbefore, _⟩ | ⟨w, r, rfl, rfl, rfl, _⟩
        · simp only [hbefore, hannounces, decide_true, if_true] at hcount
          omega
        · -- nobody announces what has not been stored
          have hzero :
              p.tasks.countP (fun a => decide (a.announces = some (w.uuid, r.uuid))) = 0 := by
            rw [List.countP_eq_zero]
            intro b hb hself
            exact (h.announces b hb _ _ (by simpa using hself)).stored _
              (List.mem_of_getElem? ha) rfl
          rw [hzero] at hcount
          simp only [hannounces, decide_true, if_true] at hcount
          omega
    · have hnot : ¬ decide (a'.announces = some (k, u)) = true := by simpa using hannounces
      rw [if_neg hnot] at hcount
      omega
  | enter a =>
    obtain ⟨hnew, rfl⟩ := Tasking.enter_cases hstep
    simpa [List.countP_append, (holdsNothing_of_isNew hnew).announces] using honce
  | env e =>
    cases hstep
    exact honce

theorem fit_step (h : p.Fit) (hstep : (activities s).poolStep p l = some p') : p'.Fit where
  sound := sound_step h.sound hstep
  decided b hb st hst := by
    cases Tasking.origin_of_mem hstep hb with
    | kept hold _ => exact h.decided b hold st hst
    | made j ans a a' spawned _ ha hadvance hmem =>
      rcases List.mem_cons.1 hmem with rfl | hspawned
      · rcases activity_holds (activity_move hadvance) with
          hnothing | ⟨t, t', host', ans', ts, rfl, rfl, _, hcall⟩
        · rw [hnothing.decided] at hst
          cases hst
        · exact call_decided hcall (h.decided _ (List.mem_of_getElem? ha)) hst
      · rw [(spawned_holdsNothing (activity_move hadvance) hspawned).decided] at hst
        cases hst
    | entered _ hnew =>
      rw [(holdsNothing_of_isNew hnew).decided] at hst
      cases hst
  storesBlank b hb := by
    cases Tasking.origin_of_mem hstep hb with
    | kept hold _ => exact h.storesBlank b hold
    | made j ans a a' spawned _ ha hadvance hmem =>
      rcases List.mem_cons.1 hmem with rfl | hspawned
      · rcases activity_holds (activity_move hadvance) with
          hnothing | ⟨t, t', host', ans', ts, rfl, rfl, _, hcall⟩
        · exact hnothing.storesBlank
        · exact call_storesBlank hcall
      · exact (spawned_holdsNothing (activity_move hadvance) hspawned).storesBlank
    | entered _ hnew => exact (holdsNothing_of_isNew hnew).storesBlank
  accepts b hb k u haccepts := accepts_step h hstep hb haccepts
  announces b hb k u hannounces := announces_step h hstep hb hannounces
  once k u := once_step h hstep k u

theorem fit_new (checks : Bool) : (Running.new checks).Fit where
  sound := sound_new checks
  decided a ha := by cases ha
  storesBlank a ha := by cases ha
  accepts a ha := by cases ha
  announces a ha := by cases ha
  once k u := Nat.zero_le _

end steps

/-! ## Section 5: Every run -/

/-- What has been stored never becomes `Paused`. -/
structure Running.Lively (p : Running) : Prop where
  fit : p.Fit
  paused : ∀ k u t, p.shared.host.transfer k u = some t → t.state ≠ .paused

theorem lively_step {s : Settings} {p p' : Running} {l : RunningLabel} (h : p.Lively)
    (hstep : (activities s).poolStep p l = some p') : p'.Lively where
  fit := fit_step h.fit hstep
  paused k u r' hr' hpaused := by
    cases l with
    | run j ans =>
      obtain ⟨a, i', a', spawned, ha, hadvance, rfl⟩ := Tasking.run_cases hstep
      have hmem := List.mem_of_getElem? ha
      cases activity_origin (h.fit.sound.sound a hmem) (activity_move hadvance) hr' with
      | kept r hr hlater _ _ => exact h.paused k u r hr (hlater.paused hpaused)
      | updated f r hupdates hr heq =>
        rw [heq] at hpaused
        exact h.paused k u r hr ((h.fit.later_of_updates hmem hupdates hr).1.paused hpaused)
      | received _ hwaiting => rw [hwaiting] at hpaused; cases hpaused
      | created w heq _ _ =>
        subst heq
        rw [(h.fit.storesBlank _ hmem).2] at hpaused
        cases hpaused
    | enter a =>
      obtain ⟨_, rfl⟩ := Tasking.enter_cases hstep
      exact h.paused k u r' hr' hpaused
    | env e =>
      cases hstep
      exact h.paused k u r' (transfer_of_change h.fit.sound e hr') hpaused

theorem lively_of_reachable {s : Settings} {checks : Bool} {ls : List RunningLabel} {p : Running}
    (hrun : (activities s).pool.exec (Running.new checks) ls = some p) : p.Lively :=
  Machine.exec_invariant (activities s).pool (fun _ _ _ hI hstep => lively_step hI hstep)
    ⟨fit_new checks, fun k u t ht => by cases ht⟩ hrun

/-- Whatever goes on in an instance, and in whatever order: a transfer that is
    stored twice in a run is the same one, grown older.  Its identity, its
    direction, and the sources and the token of an outgoing one have not
    changed, its progress has not shrunk, its totals have changed only if it was
    an outgoing one without any, and it is not `Paused`. -/
theorem record_life {s : Settings} {checks : Bool} {ls ls' : List RunningLabel} {p p' : Running}
    (hrun : (activities s).pool.exec (Running.new checks) ls = some p)
    (hrun' : (activities s).pool.exec p ls' = some p') {k u : String} {t t' : Transfer}
    (ht : p.shared.host.transfer k u = some t) (ht' : p'.shared.host.transfer k u = some t') :
    t.Later t' ∧ t'.state ≠ .paused := by
  have hlively := lively_of_reachable hrun
  have hafter : p'.Lively ∧ p'.Keeps k u fun t' => t.Later t' := by
    refine Machine.exec_invariant (activities s).pool
      (I := fun p : Running => p.Lively ∧ p.Keeps k u fun t' => t.Later t') ?_
      ⟨hlively, keeps_of_stored hlively.fit.sound ht (.refl t)⟩ hrun'
    rintro p l p' ⟨h, hkeeps⟩ hstep
    exact ⟨lively_step h hstep,
      keeps_step h.fit hstep hkeeps fun r r' hr hlater _ => hr.trans hlater⟩
  exact ⟨hafter.2.record t' ht', hafter.1.paused k u t' ht'⟩

/-- A transfer to `b` is stored. -/
def storedRun : List RunningLabel :=
  [.enter (.admission (.register (.lookup registrationOfB))),
    .run 0 (.admission .go), .run 0 (.admission .go), .run 0 (.admission .go),
    .enter (.getWorker "b" (.sendTransferRequest [])),
    .run 1 (.call (.go 0)), .run 1 (.call (.fresh ⟨0, 1⟩ 0)), .run 1 (.call (.go 0))]

/-- It is announced with three bytes. -/
def announcingRun : List RunningLabel :=
  [.run 1 (.call (.processed (.ok ⟨3, 1, ["f"], some "f", none⟩))),
    .run 1 (.call (.reply (.ok ()))),
    .run 1 (.call (.go 0))]

theorem record_life_announced :
    ∃ p p' t t', (activities settingsOfA).pool.exec (Running.new false) storedRun = some p ∧
      (activities settingsOfA).pool.exec p announcingRun = some p' ∧
      p.shared.host.transfer "b" (Uuid.toString ⟨0, 1⟩) = some t ∧
      p'.shared.host.transfer "b" (Uuid.toString ⟨0, 1⟩) = some t' ∧
      t.totalBytes = 0 ∧ t'.totalBytes = 3 ∧ t.Later t' ∧ t'.state ≠ .paused := by
  obtain ⟨p, hrun, p', hrun', t, ht, hzero, t', ht', hthree⟩ :
      ∃ p, (activities settingsOfA).pool.exec (Running.new false) storedRun = some p ∧
      ∃ p', (activities settingsOfA).pool.exec p announcingRun = some p' ∧
      ∃ t, p.shared.host.transfer "b" (Uuid.toString ⟨0, 1⟩) = some t ∧ t.totalBytes = 0 ∧
      ∃ t', p'.shared.host.transfer "b" (Uuid.toString ⟨0, 1⟩) = some t' ∧ t'.totalBytes = 3 :=
    ⟨_, rfl, _, rfl, _, rfl, rfl, _, rfl, rfl⟩
  exact ⟨p, p', t, t', hrun, hrun', ht, ht', hzero, hthree, record_life hrun hrun' ht ht'⟩

end Warpinator
