import Warpinator.Server.Calls

/-! # Consent

    `start_transfer` is meant to stream a transfer once, and only while it
    waits for permission.  The handler does not look at the state.

    `consented_iff` says when this goes well: exactly if every call of
    `start_transfer` finds the transfer waiting when it writes.  What carries the
    induction is a count: at any time a transfer is streamed, or is still going
    to be announced, or waits for permission, and it does so once. -/

namespace Warpinator

/-! ## Section 1: What is meant -/

/-- The task streams, or has streamed, the transfer. -/
def Task.streams (k u : String) : Task → Bool
  | .sendStream task => task.remoteUuid = k ∧ task.transferUuid = u
  | _ => false

/-- The number of streams of a transfer that have been spawned. -/
def streamsOf (w : World) (k u : String) : Nat := w.tasks.countP (Task.streams k u)

/-- A step that spawns a stream finds the transfer waiting for permission. -/
def Consented (w : World) (l : WorldLabel) : Prop :=
  ∀ w', calls.pool.step w l = some w' → ∀ k u, streamsOf w k u < streamsOf w' k u →
    w.shared.stateOf k u = some .waitingPermission

/-- If the next step of the task is the update of `start_transfer`, it finds
    the transfer waiting for permission. -/
def Task.StartsWaiting (host : Host) : Task → Prop
  | .startTransfer (.update transfer _ _) =>
    ∀ s, host.stateOf transfer.remoteUuid transfer.uuid = some s → s = .waitingPermission
  | _ => True

def StartsWaiting (w : World) : WorldLabel → Prop
  | .run i (.go _) => ∀ t, w.tasks[i]? = some t → t.StartsWaiting w.shared
  | _ => True

/-! ## Section 2: Claims on a transfer -/

/-- The uuids of the records have been drawn. -/
def Host.Known (host : Host) : Prop := ∀ k u, (host.stateOf k u).isSome → u ∈ host.uuids

def Host.waits (host : Host) (k u : String) : Bool :=
  host.stateOf k u = some .waitingPermission

/-- The transfer that a call is still going to announce. -/
def Worker.SendRequestPc.pending : Worker.SendRequestPc → Option Transfer
  | .add transfer => some transfer
  | .process transfer => some transfer
  | .request transfer _ => some transfer
  | .announce transfer => some transfer
  | _ => none

/-- The task is going to announce the transfer, or streams it. -/
def Task.claims (k u : String) : Task → Bool
  | .sendTransferRequest w pc => w.uuid = k ∧ pc.pending.any fun t => t.uuid = u
  | t => t.streams k u

/-- The uuid of the transfer that the task is going to announce or stream. -/
def Task.carried : Task → Option String
  | .startTransfer (.update transfer _ _) => some transfer.uuid
  | .sendTransferRequest _ pc => pc.pending.map Transfer.uuid
  | .sendStream task => some task.transferUuid
  | _ => none

def Worker.WithdrawPc.newState {μ : Type} : Worker.WithdrawPc μ → Option TransferState
  | .cancel _ _ newState _ => some newState
  | .request _ newState _ => some newState
  | .update _ newState => some newState
  | _ => none

/-- The state that the task writes next, announcements aside. -/
def Task.writes : Task → Option TransferState
  | .peerStopTransfer (.cancel _ _ newState) => some newState
  | .peerStopTransfer (.update _ newState) => some newState
  | .cancelTransferOpRequest (.update _ newState) => some newState
  | .sendTransferRequest _ (.add transfer) => some transfer.state
  | .stopTransfer _ _ pc => pc.newState
  | .cancelTransfer _ pc => pc.newState
  | .sendStream { phase := .closing finalState, .. } => some finalState
  | .receiveStream { phase := .closing finalState, .. } => some finalState
  | _ => none

attribute [local simp] Task.writes

structure Task.Sound (uuids : List String) (t : Task) : Prop where
  carried : ∀ u, t.carried = some u → u ∈ uuids
  writes : t.writes ≠ some .waitingPermission

theorem Task.Sound.mono {uuids uuids' : List String} (hle : uuids ⊆ uuids') {t : Task}
    (h : t.Sound uuids) : t.Sound uuids' :=
  ⟨fun u hu => hle (h.carried u hu), h.writes⟩

theorem Task.carried_of_claims {t : Task} {k u : String} (h : t.claims k u = true) :
    t.carried = some u := by
  cases t with
  | sendTransferRequest w pc =>
    simp only [Task.claims, Bool.decide_and, Bool.and_eq_true, decide_eq_true_eq] at h
    cases hp : pc.pending with
    | none => simp [hp] at h
    | some t =>
      have hu : t.uuid = u := by simpa [hp] using h.2
      simp [Task.carried, hp, hu]
  | sendStream task =>
    simp only [Task.claims, Task.streams, Bool.decide_and, Bool.and_eq_true,
      decide_eq_true_eq] at h
    simp [Task.carried, h.2]
  | _ => simp [Task.claims, Task.streams] at h

theorem Task.claims_of_streams {t : Task} {k u : String} (h : t.streams k u = true) :
    t.claims k u = true := by
  cases t with
  | sendStream task => exact h
  | _ => simp [Task.streams] at h

/-- How often a transfer is claimed, waiting for permission included. -/
def load (host : Host) (ts : List Task) (k u : String) : Nat :=
  ts.countP (Task.claims k u) + (host.waits k u).toNat

/-- What a step of a task keeps. -/
structure Keeps (host : Host) (t : Task) (host' : Host) (ts : List Task) : Prop where
  grows : host.uuids ⊆ host'.uuids
  known : host'.Known
  sound : ∀ t ∈ ts, t.Sound host'.uuids
  load : ∀ k u, u ∈ host.uuids → load host' ts k u ≤ load host [t] k u
  fresh : ∀ k u, u ∉ host.uuids → Warpinator.load host' ts k u ≤ 1

theorem load_of_not_mem {host : Host} {ts : List Task} {k u : String} (hknown : host.Known)
    (hsound : ∀ t ∈ ts, t.Sound host.uuids) (hu : u ∉ host.uuids) : load host ts k u = 0 := by
  have hwaits : host.waits k u = false := by
    cases hs : host.stateOf k u with
    | none => simp [Host.waits, hs]
    | some s => exact absurd (hknown k u (by simp [hs])) hu
  have hclaims : ts.countP (Task.claims k u) = 0 := by
    rw [List.countP_eq_zero]
    intro t ht hclaim
    exact hu ((hsound t ht).carried u (Task.carried_of_claims hclaim))
  simp [load, hwaits, hclaims]

/-- A step that draws no uuid and claims nothing new. -/
theorem Keeps.of_le {host host' : Host} {t : Task} {ts : List Task} (hknown : host.Known)
    (ht : t.Sound host.uuids) (huuids : host'.uuids = host.uuids) (hknown' : host'.Known)
    (hsound : ∀ t ∈ ts, t.Sound host.uuids)
    (hload : ∀ k u, Warpinator.load host' ts k u ≤ Warpinator.load host [t] k u) :
    Keeps host t host' ts where
  grows := by rw [huuids]; exact List.Subset.refl _
  known := hknown'
  sound := by rw [huuids]; exact hsound
  load := fun k u _ => hload k u
  fresh := by
    intro k u hu
    have hzero : Warpinator.load host [t] k u = 0 :=
      load_of_not_mem hknown (by simpa using ht) hu
    have := hload k u
    omega

/-! ## Section 3: Steps -/

section steps

variable {host host' : Host} {t t' : Task} {k u : String}

theorem isSome_stateOf_updateTransfer (host : Host) (k u : String) (queued : Nat)
    (f : TransferUpdate) (k' u' : String) :
    ((host.updateTransfer queued k u f).2.stateOf k' u').isSome = (host.stateOf k' u').isSome := by
  rw [stateOf_updateTransfer]
  split
  · next h => simp [Host.stateOf, h.1, h.2]
  · rfl

theorem Host.Known.updateTransfer (h : host.Known) (queued : Nat) (f : TransferUpdate) :
    (host.updateTransfer queued k u f).2.Known := by
  intro k' u' hsome
  rw [isSome_stateOf_updateTransfer] at hsome
  exact h k' u' hsome

/-- An update that does not write `WaitingPermission`. -/
theorem waits_updateTransfer (f : TransferUpdate)
    (hf : ∀ t, (f.apply t).state ≠ .waitingPermission) (queued : Nat) {k' u' : String}
    (h : (host.updateTransfer queued k u f).2.waits k' u' = true) :
    host.waits k' u' = true ∧ ¬ (k' = k ∧ u' = u) := by
  simp only [Host.waits, stateOf_updateTransfer, decide_eq_true_eq] at h ⊢
  split at h
  · obtain ⟨t, _, ht⟩ := Option.map_eq_some_iff.1 h
    exact absurd ht (hf t)
  · next hne => exact ⟨h, hne⟩

theorem load_le (hwaits : host'.waits k u = true → host.waits k u = true)
    (hclaims : t'.claims k u = true → t.claims k u = true) :
    load host' [t'] k u ≤ load host [t] k u := by
  simp only [load, List.countP_singleton]
  cases hw' : host'.waits k u <;> cases hc' : t'.claims k u <;> simp_all

/-- A step that leaves the records alone. -/
theorem Keeps.still (hknown : host.Known) (ht : t.Sound host.uuids)
    (huuids : host'.uuids = host.uuids)
    (hstate : ∀ k u, host'.stateOf k u = host.stateOf k u) (ht' : t'.Sound host.uuids)
    (hclaims : ∀ k u, t'.claims k u = true → t.claims k u = true) : Keeps host t host' [t'] := by
  refine .of_le hknown ht huuids (fun k u hsome => ?_) (by simpa using ht') fun k u =>
    load_le (fun h => ?_) (hclaims k u)
  · rw [hstate] at hsome
    rw [huuids]
    exact hknown k u hsome
  · simpa [Host.waits, hstate] using h

/-- A step that updates a record. -/
theorem Keeps.write (hknown : host.Known) (ht : t.Sound host.uuids) (f : TransferUpdate)
    (hf : ∀ t, (f.apply t).state ≠ .waitingPermission) (queued : Nat) (ht' : t'.Sound host.uuids)
    (hclaims : ∀ k u, t'.claims k u = true → t.claims k u = true) :
    Keeps host t (host.updateTransfer queued k u f).2 [t'] :=
  .of_le hknown ht rfl (hknown.updateTransfer queued f) (by simpa using ht') fun k' u' =>
    load_le (fun h => (waits_updateTransfer f hf queued h).1) (hclaims k' u')

/-- A task that carries nothing. -/
theorem Task.Sound.of_carried {uuids : List String} (hc : t.carried = none)
    (hw : t.writes ≠ some .waitingPermission) : t.Sound uuids :=
  ⟨fun u hu => absurd (hc.symm.trans hu) (by simp), hw⟩

theorem not_claims_of_carried (hc : t.carried = none) (k u : String) : t.claims k u ≠ true := by
  intro h
  rw [Task.carried_of_claims h] at hc
  cases hc

theorem withdraw_keeps {μ : Type} {w : Worker} {message : OpInfo → μ}
    {newState : TransferKind → TransferState} {ans : Answer} {pc pc' : Worker.WithdrawPc μ}
    (mk : Worker.WithdrawPc μ → Task) (hc : ∀ pc, (mk pc).carried = none)
    (hw : ∀ pc, (mk pc).writes = pc.newState) (hnew : ∀ kind, newState kind ≠ .waitingPermission)
    (hknown : host.Known) (ht : (mk pc).Sound host.uuids)
    (h : Worker.WithdrawMove w message newState host pc ans host' pc') :
    Keeps host (mk pc) host' [mk pc'] := by
  have hclaims : ∀ k u, (mk pc').claims k u = true → (mk pc).claims k u = true :=
    fun k u hclaim => absurd hclaim (not_claims_of_carried (hc pc') k u)
  have hsound : ∀ pc, pc.newState ≠ some .waitingPermission → (mk pc).Sound host.uuids :=
    fun pc hne => .of_carried (hc pc) (by rwa [hw])
  have hstill : ∀ {host'}, host'.uuids = host.uuids →
      (∀ k u, host'.stateOf k u = host.stateOf k u) → pc'.newState ≠ some .waitingPermission →
      Keeps host (mk pc) host' [mk pc'] :=
    fun huuids hstate hne => .still hknown ht huuids hstate (hsound _ hne) hclaims
  have hwrites := ht.writes
  rw [hw] at hwrites
  cases h with
  | refused u ans e => exact hstill rfl (fun _ _ => rfl) (by simp [Worker.WithdrawPc.newState])
  | foundOutgoing u queued transfer token _ =>
    exact hstill rfl (fun _ _ => rfl) (by simp [Worker.WithdrawPc.newState, hnew])
  | foundIncoming u queued transfer _ =>
    exact hstill rfl (fun _ _ => rfl) (by simp [Worker.WithdrawPc.newState, hnew])
  | cancelled u queued token s req => exact hstill rfl (fun _ _ => rfl) hwrites
  | answered u s req => exact hstill rfl (fun _ _ => rfl) hwrites
  | denied u s req status =>
    exact hstill rfl (fun _ _ => rfl) (by simp [Worker.WithdrawPc.newState])
  | updated u s queued _ =>
    have hs : s ≠ .waitingPermission := fun h => hwrites (congrArg some h)
    exact .write hknown ht _ (fun _ => hs) queued (hsound _ (by simp [Worker.WithdrawPc.newState]))
      hclaims
  | lost u s queued e _ => exact hstill rfl (fun _ _ => rfl) (by simp [Worker.WithdrawPc.newState])

theorem stop_keeps {pc pc' : WarpServer.StopPc} (hknown : host.Known)
    (ht : (Task.peerStopTransfer pc).Sound host.uuids)
    (h : WarpServer.StopMove host pc host' pc') :
    Keeps host (.peerStopTransfer pc) host' [.peerStopTransfer pc'] := by
  have hclaims : ∀ k u, (Task.peerStopTransfer pc').claims k u = true →
      (Task.peerStopTransfer pc).claims k u = true := fun _ _ hclaim => hclaim
  have hstop : ∀ kind error, WarpServer.stopState kind error ≠ .waitingPermission := by
    intro kind error
    cases kind <;> cases error <;> simp [WarpServer.stopState]
  have hwrites := ht.writes
  cases h with
  | refused req status _ =>
    exact .still hknown ht rfl (fun _ _ => rfl) (.of_carried rfl (by simp)) hclaims
  | foundOutgoing req info transfer token _ _ =>
    refine .still hknown ht rfl (fun _ _ => rfl) (.of_carried rfl ?_) hclaims
    simp [hstop]
  | foundIncoming req info transfer _ _ =>
    refine .still hknown ht rfl (fun _ _ => rfl) (.of_carried rfl ?_) hclaims
    simp [hstop]
  | cancelled transfer token newState =>
    exact .still hknown ht rfl (fun _ _ => rfl) (.of_carried rfl hwrites) hclaims
  | updated transfer newState queued =>
    have hs : newState ≠ .waitingPermission := fun h => hwrites (congrArg some h)
    exact .write hknown ht _ (fun _ => hs) queued (.of_carried rfl (by simp)) hclaims

theorem cancel_keeps {pc pc' : WarpServer.CancelPc} (hknown : host.Known)
    (ht : (Task.cancelTransferOpRequest pc).Sound host.uuids)
    (h : WarpServer.CancelMove host pc host' pc') :
    Keeps host (.cancelTransferOpRequest pc) host' [.cancelTransferOpRequest pc'] := by
  have hclaims : ∀ k u, (Task.cancelTransferOpRequest pc').claims k u = true →
      (Task.cancelTransferOpRequest pc).claims k u = true := fun _ _ hclaim => hclaim
  have hwrites := ht.writes
  cases h with
  | refused req status _ =>
    exact .still hknown ht rfl (fun _ _ => rfl) (.of_carried rfl (by simp)) hclaims
  | found req transfer _ _ =>
    refine .still hknown ht rfl (fun _ _ => rfl) (.of_carried rfl ?_) hclaims
    cases transfer.kind <;> simp [WarpServer.cancelState]
  | updated transfer newState queued =>
    have hs : newState ≠ .waitingPermission := fun h => hwrites (congrArg some h)
    exact .write hknown ht _ (fun _ => hs) queued (.of_carried rfl (by simp)) hclaims

theorem accept_keeps {w : Worker} {ans : Answer} {pc pc' : Worker.AcceptPc} (hknown : host.Known)
    (ht : (Task.acceptTransfer w pc).Sound host.uuids)
    (h : Worker.AcceptMove w host pc ans host' pc') :
    Keeps host (.acceptTransfer w pc) host' (.acceptTransfer w pc' :: pc'.spawned) := by
  have hclaims : ∀ k u, (Task.acceptTransfer w pc').claims k u = true →
      (Task.acceptTransfer w pc).claims k u = true := fun _ _ hclaim => hclaim
  have hsound : ∀ pc, (Task.acceptTransfer w pc).Sound host.uuids :=
    fun pc => .of_carried rfl (by simp)
  cases h with
  | accepted u destination queued token disk _ =>
    -- the receiving task claims nothing
    refine .of_le hknown ht rfl (hknown.updateTransfer queued _) ?_ fun k' u' => ?_
    · intro t htask
      simp only [Worker.AcceptPc.spawned, List.mem_cons, List.not_mem_nil, or_false] at htask
      rcases htask with rfl | rfl
      · exact hsound _
      · exact .of_carried rfl (by simp [ReceiveTask.new])
    · have hwaits :=
        @waits_updateTransfer host w.uuid u (.accept destination) (by simp) queued k' u'
      exact @load_le host _ (.acceptTransfer w (.update u destination))
        (.acceptTransfer w (.update u destination)) k' u' (fun h => (hwaits h).1) fun h => h
  | refused u destination ans e => exact .still hknown ht rfl (fun _ _ => rfl) (hsound _) hclaims
  | found u destination queued transfer _ =>
    exact .still hknown ht rfl (fun _ _ => rfl) (hsound _) hclaims
  | answered u destination req => exact .still hknown ht rfl (fun _ _ => rfl) (hsound _) hclaims
  | denied u destination req status =>
    exact .still hknown ht rfl (fun _ _ => rfl) (hsound _) hclaims
  | lost u destination queued e _ =>
    exact .still hknown ht rfl (fun _ _ => rfl) (hsound _) hclaims

theorem send_keeps {task task' : SendTask} {ans : Answer} (hknown : host.Known)
    (ht : (Task.sendStream task).Sound host.uuids) (h : SendTaskMove host task ans host' task') :
    Keeps host (.sendStream task) host' [.sendStream task'] := by
  have hkeys : task'.remoteUuid = task.remoteUuid ∧ task'.transferUuid = task.transferUuid := by
    cases h <;> exact ⟨rfl, rfl⟩
  have hclaims : ∀ k u, (Task.sendStream task').claims k u = true →
      (Task.sendStream task).claims k u = true := by
    intro k u hclaim
    simpa [Task.claims, Task.streams, hkeys.1, hkeys.2] using hclaim
  have hsound : (∀ s, task'.phase = .closing s → s ≠ .waitingPermission) →
      (Task.sendStream task').Sound host.uuids := by
    intro hphase
    refine ⟨fun u hu => ht.carried u ?_, fun hw => ?_⟩
    · simpa [Task.carried, hkeys.2] using hu
    · obtain ⟨k, u, token, sender, phase⟩ := task'
      cases phase with
      | closing s =>
        simp only [Task.writes, Option.some.injEq] at hw
        exact hphase s rfl hw
      | _ => simp at hw
  cases h with
  | inner l queued sender hinner _ _ =>
    refine .still hknown ht (recordProgress_uuids _ _ _ _ _ _) (fun _ _ => by simp)
      (hsound fun s hs => ?_) hclaims
    simp [hinner] at hs
  | decide queued result hinner _ =>
    refine .still hknown ht rfl (fun _ _ => rfl) (hsound fun s hs => ?_) hclaims
    cases hs
    exact sendFinalState_ne_waiting _ _
  -- the final state was picked before, and is none that waits
  | close queued finalState hphase =>
    refine .write hknown ht _ (fun t => ?_) queued (hsound fun s hs => by cases hs) hclaims
    intro hs
    obtain ⟨k, u, token, sender, phase⟩ := task
    cases hphase
    exact ht.writes (congrArg some hs)
  | leave queued hphase =>
    exact .still hknown ht rfl (fun _ _ => rfl) (hsound fun s hs => by cases hs) hclaims

theorem receive_keeps {task task' : ReceiveTask} {ans : Answer} (hknown : host.Known)
    (ht : (Task.receiveStream task).Sound host.uuids)
    (h : ReceiveTaskMove host task ans host' task') :
    Keeps host (.receiveStream task) host' [.receiveStream task'] := by
  have hclaims : ∀ k u, (Task.receiveStream task').claims k u = true →
      (Task.receiveStream task).claims k u = true := fun _ _ hclaim => hclaim
  have hsound : (∀ s, task'.phase = .closing s → s ≠ .waitingPermission) →
      (Task.receiveStream task').Sound host.uuids := by
    intro hphase
    refine .of_carried rfl fun hw => ?_
    obtain ⟨k, u, destination, token, receiver, phase⟩ := task'
    cases phase with
    | closing s =>
      simp only [Task.writes, Option.some.injEq] at hw
      exact hphase s rfl hw
    | _ => simp at hw
  cases h with
  | again event fault queued r hinner _ _ =>
    refine .still hknown ht (recordProgress_uuids _ _ _ _ _ _) (fun _ _ => by simp)
      (hsound fun s hs => ?_) hclaims
    simp [hinner] at hs
  | leave event fault queued result r hinner _ _ =>
    refine .still hknown ht rfl (fun _ _ => rfl) (hsound fun s hs => ?_) hclaims
    cases hs
    exact receiveFinalState_ne_waiting _
  | panic event fault queued r hinner _ _ =>
    exact .still hknown ht rfl (fun _ _ => rfl) (hsound fun s hs => by cases hs) hclaims
  -- either the state is kept or it becomes the one picked before
  | close queued finalState hphase =>
    refine .write hknown ht _ (fun t => ?_) queued (hsound fun s hs => by cases hs) hclaims
    rw [finishReceive_state]
    split
    · next hkept => rcases hkept with h | h <;> simp [h]
    · intro hs
      obtain ⟨k, u, destination, token, receiver, phase⟩ := task
      cases hphase
      exact ht.writes (congrArg some hs)

/-- A record is added under a uuid that the list does not have yet, or nothing
    is seen of it. -/
theorem stateOf_addTransfer (host : Host) (k : String) (t : Transfer) (k' u' : String) :
    (host.addTransfer k t).2.stateOf k' u' = host.stateOf k' u' ∨
      u' = t.uuid ∧ (host.addTransfer k t).2.stateOf k' u' = some t.state := by
  unfold Host.stateOf
  rw [Host.transfer_addTransfer]
  split
  · next h =>
    cases ht : host.transfer k' u' with
    | none => exact .inr ⟨h.2.2.symm, rfl⟩
    | some t' => exact .inl rfl
  · exact .inl rfl

theorem process_keeps {pc pc' : WarpServer.ProcessPc} (hknown : host.Known)
    (ht : (Task.processTransferOpRequest pc).Sound host.uuids)
    (h : WarpServer.ProcessMove host pc host' pc') :
    Keeps host (.processTransferOpRequest pc) host' [.processTransferOpRequest pc'] := by
  have hsound : ∀ uuids pc, (Task.processTransferOpRequest pc).Sound uuids :=
    fun _ pc => .of_carried rfl (by simp)
  cases h with
  | refused req status =>
    exact .still hknown ht rfl (fun _ _ => rfl) (hsound _ _) (fun _ _ hclaim => hclaim)
  | added req info id now result hid =>
    set t := Transfer.ofRequest id now info req
    have hstate := stateOf_addTransfer (host.issue id) info.ident t
    refine ⟨List.subset_cons_self _ _, fun k u hsome => ?_, by simpa using hsound _ _,
      fun k u hu => ?_, fun k u _ => ?_⟩
    · rcases hstate k u with heq | ⟨rfl, _⟩
      · rw [heq] at hsome
        exact List.mem_cons_of_mem _ (hknown k u hsome)
      · exact List.mem_cons_self
    · rcases hstate k u with heq | ⟨rfl, _⟩
      · exact load_le (fun hwaits => by simpa [Host.waits, heq] using hwaits) fun hclaim => hclaim
      · exact absurd hu hid
    · -- a new record waits for permission, and nothing claims it yet
      have hle := Bool.toNat_le ((Host.addTransfer (host.issue id) info.ident t).2.waits k u)
      simpa [load, Task.claims, Task.streams] using hle

theorem request_sound {w : Worker} {uuids : List String} {pc : Worker.SendRequestPc}
    (hc : ∀ t, pc.pending = some t → t.uuid ∈ uuids)
    (hw : ∀ t, pc = .add t → t.state ≠ .waitingPermission) :
    (Task.sendTransferRequest w pc).Sound uuids where
  carried := by
    intro u hu
    obtain ⟨t, ht, rfl⟩ := Option.map_eq_some_iff.1 hu
    exact hc t ht
  writes := by
    cases pc with
    | add t => exact fun h => hw t rfl (Option.some.inj h)
    | _ => simp

theorem claims_request {w : Worker} {pc : Worker.SendRequestPc} :
    (Task.sendTransferRequest w pc).claims k u = true ↔
      w.uuid = k ∧ ∃ t, pc.pending = some t ∧ t.uuid = u := by
  simp [Task.claims, Option.any_eq_true]

/-- A step that leaves the records alone and goes on with the same transfer. -/
theorem request_goesOn {w : Worker} {pc pc' : Worker.SendRequestPc} {transfer transfer' : Transfer}
    (hknown : host.Known) (ht : (Task.sendTransferRequest w pc).Sound host.uuids)
    (hpending : pc.pending = some transfer) (hpending' : pc'.pending = some transfer')
    (huuid : transfer'.uuid = transfer.uuid) (hnot : ∀ t, pc' ≠ .add t) :
    Keeps host (.sendTransferRequest w pc) host [.sendTransferRequest w pc'] := by
  refine .still hknown ht rfl (fun _ _ => rfl)
    (request_sound (fun t hp => ?_) fun t heq => absurd heq (hnot t)) fun k u hclaim => ?_
  · obtain rfl : transfer' = t := Option.some.inj (hpending'.symm.trans hp)
    rw [huuid]
    exact ht.carried _ (by simp [Task.carried, hpending])
  · obtain ⟨hk, t, hp, hu⟩ := claims_request.1 hclaim
    obtain rfl : transfer' = t := Option.some.inj (hpending'.symm.trans hp)
    exact claims_request.2 ⟨hk, transfer, hpending, huuid ▸ hu⟩

theorem request_keeps {w : Worker} {pc pc' : Worker.SendRequestPc} (hknown : host.Known)
    (ht : (Task.sendTransferRequest w pc).Sound host.uuids)
    (h : Worker.SendRequestMove w host pc host' pc') :
    Keeps host (.sendTransferRequest w pc) host' [.sendTransferRequest w pc'] := by
  have hcarried : ∀ t, pc.pending = some t → t.uuid ∈ host.uuids := fun t hp =>
    ht.carried _ (by simp [Task.carried, hp])
  -- where nothing is pending any more
  have hsound : pc'.pending = none → (Task.sendTransferRequest w pc').Sound host.uuids :=
    fun hp => request_sound (by simp [hp]) (by rintro t rfl; cases hp)
  have hclaims : pc'.pending = none → ∀ k u, (Task.sendTransferRequest w pc').claims k u = true →
      (Task.sendTransferRequest w pc).claims k u = true := by
    intro hp k u hclaim
    obtain ⟨_, t, ht, _⟩ := claims_request.1 hclaim
    rw [hp] at ht
    cases ht
  have hadd : ∀ transfer, pc = .add transfer → (∀ t, pc' ≠ .add t) →
      (∀ t, pc'.pending = some t → t = transfer) →
      Keeps host (.sendTransferRequest w pc) (host.addTransfer w.uuid transfer).2
        [.sendTransferRequest w pc'] := by
    rintro transfer rfl hnot hpending
    have hmem := hcarried transfer rfl
    have hwrites : transfer.state ≠ .waitingPermission := fun h => ht.writes (congrArg some h)
    have hstate := stateOf_addTransfer host w.uuid transfer
    refine .of_le hknown ht rfl (fun k u hsome => ?_) ?_ fun k u => load_le (fun hwaits => ?_) ?_
    · rcases hstate k u with heq | ⟨rfl, _⟩
      · rw [heq] at hsome
        exact hknown k u hsome
      · exact hmem
    · simp only [List.mem_singleton, forall_eq]
      exact request_sound (fun t hp => hpending t hp ▸ hmem) fun t heq => absurd heq (hnot t)
    · rcases hstate k u with heq | ⟨_, heq⟩
      · simpa [Host.waits, heq] using hwaits
      · exact absurd (by simpa [Host.waits, heq] using hwaits) hwrites
    · intro hclaim
      obtain ⟨hk, t, hp, hu⟩ := claims_request.1 hclaim
      exact claims_request.2 ⟨hk, transfer, rfl, hpending t hp ▸ hu⟩
  cases h with
  | refused sourcePaths =>
    exact .still hknown ht rfl (fun _ _ => rfl) (hsound rfl) (hclaims rfl)
  | created sourcePaths id now token hid =>
    -- the uuid has just been drawn
    have hclaim : ∀ k u, (Task.sendTransferRequest w
        (.add (.newOutgoing id now w.uuid sourcePaths token))).claims k u = true →
        u = id.toString := by
      intro k u hclaim
      obtain ⟨_, t, hp, rfl⟩ := claims_request.1 hclaim
      cases hp
      rfl
    refine ⟨List.subset_cons_self _ _, fun k u hsome => List.mem_cons_of_mem _ (hknown k u hsome),
      ?_, fun k u hu => load_le (fun hwaits => hwaits) fun h => ?_, fun k u hu => ?_⟩
    · simp only [List.mem_singleton, forall_eq]
      refine request_sound (fun t hp => ?_) fun t heq => ?_
      · cases hp
        exact List.mem_cons_self
      · cases heq
        simp [Transfer.newOutgoing]
    · exact absurd (hclaim k u h ▸ hu) hid
    · have hwaits : host.waits k u = false := by
        cases hs : host.stateOf k u with
        | none => simp [Host.waits, hs]
        | some s => exact absurd (hknown k u (by simp [hs])) hu
      have hwaits' : ((host.childToken w.cancellationToken).2.issue id).waits k u = false := hwaits
      simp only [load, hwaits', List.countP_singleton]
      split <;> simp
  | added transfer => exact hadd transfer rfl (by simp) (by simp [Worker.SendRequestPc.pending])
  | notAdded transfer e =>
    exact hadd transfer rfl (by simp) (by simp [Worker.SendRequestPc.pending])
  | processed transfer totals req => exact request_goesOn hknown ht rfl rfl rfl (by simp)
  | notProcessed transfer e =>
    exact .still hknown ht rfl (fun _ _ => rfl) (hsound rfl) (hclaims rfl)
  | answered transfer req => exact request_goesOn hknown ht rfl rfl rfl (by simp)
  | failed transfer req e =>
    exact .still hknown ht rfl (fun _ _ => rfl) (hsound rfl) (hclaims rfl)
  | announced transfer queued _ =>
    -- the claim turns into the wait for permission
    refine .of_le hknown ht rfl (hknown.updateTransfer queued _)
      (by simpa using hsound rfl) fun k u => ?_
    by_cases hkey : k = w.uuid ∧ u = transfer.uuid
    · obtain ⟨rfl, rfl⟩ := hkey
      have hbefore : (Task.sendTransferRequest w (.announce transfer)).claims w.uuid transfer.uuid
          = true := claims_request.2 ⟨rfl, transfer, rfl, rfl⟩
      have hafter : (Task.sendTransferRequest w (.returned (.ok ()))).claims w.uuid transfer.uuid
          = false := by simp [Task.claims, Worker.SendRequestPc.pending]
      have hle := Bool.toNat_le ((host.updateTransfer queued w.uuid transfer.uuid
        (.announce transfer)).2.waits w.uuid transfer.uuid)
      simp only [load, List.countP_singleton, hbefore, hafter]
      simp only [Bool.false_eq_true, if_false, if_true]
      omega
    · refine load_le (fun hwaits => ?_) (hclaims rfl k u)
      simpa [Host.waits, stateOf_updateTransfer, hkey] using hwaits
  | lost transfer e _ =>
    exact .still hknown ht rfl (fun _ _ => rfl) (hsound rfl) (hclaims rfl)
  | aborted transfer e queued e' =>
    exact .write hknown ht _ (fun t => by simp) queued (hsound rfl) (hclaims rfl)

theorem Host.Known.byProtocolId (hknown : host.Known) {id : Nat} {transfer : Transfer}
    (h : host.transferByProtocolId k id = some transfer) : transfer.uuid ∈ host.uuids := by
  apply hknown k
  obtain ⟨r, hr, hfind⟩ := Option.bind_eq_some_iff.1 h
  have hmem := List.mem_of_find?_eq_some hfind
  have hsome : (r.transfers.find? fun t => t.uuid = transfer.uuid).isSome := by
    rw [List.find?_isSome]
    exact ⟨transfer, hmem, by simp⟩
  simpa [Host.stateOf, Host.transfer, RemoteManager.transfer, hr] using hsome

theorem start_keeps {pc pc' : WarpServer.StartPc} (hknown : host.Known)
    (ht : (Task.startTransfer pc).Sound host.uuids)
    (hwaiting : (Task.startTransfer pc).StartsWaiting host)
    (h : WarpServer.StartMove host pc host' pc') :
    Keeps host (.startTransfer pc) host' (.startTransfer pc' :: pc'.spawned) := by
  cases h with
  | refused req status _ =>
    exact .still hknown ht rfl (fun _ _ => rfl) (.of_carried rfl (by simp))
      fun _ _ hclaim => hclaim
  | found req transfer sourcePaths token hfound =>
    refine .still hknown ht rfl (fun _ _ => rfl) ⟨fun u hu => ?_, by simp⟩
      fun _ _ hclaim => hclaim
    cases hu
    exact hknown.byProtocolId hfound
  | lost transfer sourcePaths token status _ =>
    exact .still hknown ht rfl (fun _ _ => rfl) (.of_carried rfl (by simp))
      fun _ _ hclaim => hclaim
  | started transfer sourcePaths token queued sources hsome =>
    have hmem := ht.carried _ rfl
    -- the wait for permission turns into the claim of the stream
    have hwaits : host.waits transfer.remoteUuid transfer.uuid = true := by
      obtain ⟨t, ht⟩ := Option.isSome_iff_exists.1 hsome
      have hstate : host.stateOf transfer.remoteUuid transfer.uuid = some t.state := by
        simp [Host.stateOf, ht]
      rw [hwaiting _ hstate] at hstate
      simp [Host.waits, hstate]
    refine .of_le hknown ht rfl (hknown.updateTransfer queued _) (fun t htask => ?_)
      fun k u => ?_
    · simp only [WarpServer.StartPc.spawned, List.mem_cons, List.not_mem_nil, or_false] at htask
      rcases htask with rfl | rfl
      · exact .of_carried rfl (by simp)
      · refine ⟨fun u hu => ?_, by simp [SendTask.new]⟩
        cases hu
        exact hmem
    · have hstill : (host.updateTransfer queued transfer.remoteUuid transfer.uuid
          (.setState .inProgress)).2.waits k u = true → host.waits k u = true ∧
          ¬ (k = transfer.remoteUuid ∧ u = transfer.uuid) :=
        waits_updateTransfer (.setState .inProgress) (by simp) queued
      simp only [load, WarpServer.StartPc.spawned, List.countP_cons, List.countP_nil, Task.claims,
        Task.streams, SendTask.new]
      by_cases hkey : transfer.remoteUuid = k ∧ transfer.uuid = u
      · obtain ⟨rfl, rfl⟩ := hkey
        cases hw : (host.updateTransfer queued transfer.remoteUuid transfer.uuid
          (.setState .inProgress)).2.waits transfer.remoteUuid transfer.uuid with
        | true => exact absurd ⟨rfl, rfl⟩ (hstill hw).2
        | false => simp [hwaits]
      · cases hw : (host.updateTransfer queued transfer.remoteUuid transfer.uuid
          (.setState .inProgress)).2.waits k u with
        | true => simp [hkey, (hstill hw).1]
        | false => simp [hkey]

theorem step_keeps {ans : Answer} {spawned : List Task} (hknown : host.Known)
    (ht : t.Sound host.uuids) (hwaiting : t.StartsWaiting host)
    (h : t.step host ans = some (host', t', spawned)) : Keeps host t host' (t' :: spawned) := by
  cases task_move h with
  | processTransferOpRequest pc pc' hstep =>
    exact process_keeps hknown ht (WarpServer.processTransferOpRequest_move hstep)
  | startTransfer pc pc' hstep =>
    exact start_keeps hknown ht hwaiting (WarpServer.startTransfer_move hstep)
  | peerStopTransfer pc pc' hstep =>
    exact stop_keeps hknown ht (WarpServer.stopTransfer_move hstep)
  | cancelTransferOpRequest pc pc' hstep =>
    exact cancel_keeps hknown ht (WarpServer.cancelTransferOpRequest_move hstep)
  | sendTransferRequest w pc pc' hstep =>
    exact request_keeps hknown ht (Worker.sendTransferRequest_move hstep)
  | acceptTransfer w pc pc' hstep =>
    exact accept_keeps hknown ht (Worker.acceptTransfer_move hstep)
  | stopTransfer w error pc pc' hstep =>
    exact withdraw_keeps (Task.stopTransfer _ _) (fun _ => rfl) (fun _ => rfl) (by simp) hknown ht
      (Worker.withdraw_move hstep)
  | cancelTransfer w pc pc' hstep =>
    refine withdraw_keeps (Task.cancelTransfer _) (fun _ => rfl) (fun _ => rfl) (fun kind => ?_)
      hknown ht (Worker.withdraw_move hstep)
    cases kind <;> simp [Worker.cancelState]
  | sendStream task task' hstep => exact send_keeps hknown ht (SendTask.step_move hstep)
  | receiveStream task task' hstep => exact receive_keeps hknown ht (ReceiveTask.step_move hstep)

end steps

/-! ## Section 4: Runs -/

/-- Every transfer is claimed at most once. -/
structure Sole (w : World) : Prop where
  known : w.shared.Known
  sound : ∀ t ∈ w.tasks, t.Sound w.shared.uuids
  load : ∀ k u, load w.shared w.tasks k u ≤ 1

/-- A new call carries nothing and claims nothing. -/
theorem sound_of_isNew {t : Task} (h : t.isNew = true) (uuids : List String) :
    t.Sound uuids ∧ ∀ k u, t.claims k u = false := by
  have hnew : t.carried = none ∧ t.writes = none := by
    unfold Task.isNew at h
    split at h <;> first | exact ⟨rfl, rfl⟩ | cases h
  refine ⟨.of_carried hnew.1 (by rw [hnew.2]; simp), fun k u => ?_⟩
  simpa using not_claims_of_carried hnew.1 k u

theorem startsWaiting_of_step {w : World} {i : Nat} {ans : Answer} {t : Task}
    {out : Host × Task × List Task} (hwaiting : StartsWaiting w (.run i ans))
    (hget : w.tasks[i]? = some t) (hstep : t.step w.shared ans = some out) :
    t.StartsWaiting w.shared := by
  cases ans with
  | go queued => exact hwaiting t hget
  | _ =>
    unfold Task.StartsWaiting
    split
    · simp [Task.step, WarpServer.startTransfer] at hstep
    · trivial

theorem step_sole {w w' : World} {l : WorldLabel} (hwaiting : StartsWaiting w l) (hw : Sole w)
    (h : calls.pool.step w l = some w') : Sole w' := by
  cases l with
  | run i ans =>
    obtain ⟨t, host, t', spawned, hget, hstep, rfl⟩ := Tasking.run_cases h
    have hkeeps := step_keeps hw.known (hw.sound t (List.mem_of_getElem? hget))
      (startsWaiting_of_step hwaiting hget hstep) hstep
    refine ⟨hkeeps.known, ?_, fun k u => ?_⟩
    · exact Tasking.forall_run hw.sound (fun t ht => ht.mono hkeeps.grows)
        (hkeeps.sound t' List.mem_cons_self) fun s hs => hkeeps.sound s (List.mem_cons_of_mem _ hs)
    · have hcount := Tasking.countP_run (Task.claims k u) hget t' spawned
      have hload := hw.load k u
      -- a uuid that is not drawn yet has no claims, so a step may add one
      by_cases hu : u ∈ w.shared.uuids
      · have hle := hkeeps.load k u hu
        simp only [load] at hload hle ⊢
        omega
      · have hle := hkeeps.fresh k u hu
        have hzero := load_of_not_mem (k := k) hw.known hw.sound hu
        simp only [load] at hle hzero ⊢
        omega
  | enter t =>
    obtain ⟨hnew, rfl⟩ := Tasking.enter_cases h
    obtain ⟨hsound, hclaims⟩ := sound_of_isNew hnew w.shared.uuids
    refine ⟨hw.known, fun s hs => ?_, fun k u => ?_⟩
    · rcases List.mem_append.1 hs with hs | hs
      · exact hw.sound s hs
      · rw [List.mem_singleton.1 hs]
        exact hsound
    · have hload := hw.load k u
      simpa [load, hclaims] using hload
  | env token =>
    cases h
    exact ⟨hw.known, hw.sound, hw.load⟩

theorem streamsOf_le_load (w : World) (k u : String) :
    streamsOf w k u ≤ load w.shared w.tasks k u :=
  (List.countP_mono_left fun _ _ h => Task.claims_of_streams h).trans (Nat.le_add_right _ _)

/-- Only the update of `start_transfer` spawns a stream. -/
theorem step_streams {host host' : Host} {t t' : Task} {ans : Answer} {spawned : List Task}
    (h : t.step host ans = some (host', t', spawned)) (k u : String) :
    (t' :: spawned).countP (Task.streams k u) = [t].countP (Task.streams k u) ∨
    ∃ transfer sourcePaths token, t = .startTransfer (.update transfer sourcePaths token) ∧
      (host.transfer transfer.remoteUuid transfer.uuid).isSome ∧
      (t' :: spawned).countP (Task.streams k u)
        = if transfer.remoteUuid = k ∧ transfer.uuid = u then 1 else 0 := by
  cases task_move h with
  | startTransfer pc pc' hstep =>
    cases WarpServer.startTransfer_move hstep with
    | started transfer sourcePaths token queued sources hsome =>
      refine .inr ⟨transfer, sourcePaths, token, rfl, hsome, ?_⟩
      simp [WarpServer.StartPc.spawned, Task.streams, SendTask.new]
    | _ => exact .inl rfl
  | acceptTransfer w pc pc' hstep => cases pc' <;> exact .inl rfl
  | sendStream task task' hstep =>
    have hkeys : task'.remoteUuid = task.remoteUuid ∧ task'.transferUuid = task.transferUuid := by
      cases SendTask.step_move hstep <;> exact ⟨rfl, rfl⟩
    simp [Task.streams, hkeys.1, hkeys.2]
  | processTransferOpRequest _ _ _ | peerStopTransfer _ _ _ | cancelTransferOpRequest _ _ _
  | sendTransferRequest _ _ _ _ | stopTransfer _ _ _ _ _ | cancelTransfer _ _ _ _
  | receiveStream _ _ _ => exact .inl rfl

theorem step_startUpdate {w : World} {i : Nat} (queued : Nat) {transfer : Transfer}
    {sourcePaths : List PathBuf} {token : TokenId}
    (hget : w.tasks[i]? = some (.startTransfer (.update transfer sourcePaths token)))
    (hsome : (w.shared.transfer transfer.remoteUuid transfer.uuid).isSome) :
    ∃ w', calls.pool.step w (.run i (.go queued)) = some w' ∧
      streamsOf w transfer.remoteUuid transfer.uuid
        < streamsOf w' transfer.remoteUuid transfer.uuid := by
  obtain ⟨sources, hstart⟩ := WarpServer.startTransfer_update sourcePaths token queued hsome
  have hkeys : Task.streams transfer.remoteUuid transfer.uuid
      (.sendStream (.new transfer.remoteUuid transfer.uuid sources token)) = true := by
    simp [Task.streams, SendTask.new]
  generalize SendTask.new transfer.remoteUuid transfer.uuid sources token = task at hstart hkeys
  generalize (w.shared.updateTransfer queued transfer.remoteUuid transfer.uuid
    (.setState .inProgress)).2 = host at hstart
  have hcount := Tasking.countP_run (Task.streams transfer.remoteUuid transfer.uuid) hget
    (.startTransfer (.streaming task)) [.sendStream task]
  refine ⟨{ shared := host, tasks := w.tasks.set i (.startTransfer (.streaming task))
    ++ [.sendStream task] }, ?_, ?_⟩
  · show calls.poolStep w (.run i (.go queued)) = _
    simp only [Tasking.poolStep, hget, Option.bind_some, calls, Task.step, hstart, Option.map_some,
      WarpServer.StartPc.spawned]
  · have hzero : Task.streams transfer.remoteUuid transfer.uuid
        (.startTransfer (.update transfer sourcePaths token)) = false := rfl
    have hone : Task.streams transfer.remoteUuid transfer.uuid
        (.startTransfer (.streaming task)) = false := rfl
    simp only [List.countP_cons, List.countP_nil, hkeys, hzero, hone, if_true, Bool.false_eq_true,
      if_false] at hcount
    simp only [streamsOf]
    omega

theorem consented_iff_startsWaiting (w : World) (l : WorldLabel) :
    Consented w l ↔ StartsWaiting w l := by
  constructor
  · intro hconsent
    cases l with
    | run i ans =>
      cases ans with
      | go queued =>
        intro t hget
        unfold Task.StartsWaiting
        split
        · next transfer sourcePaths token =>
          intro s hs
          have hsome : (w.shared.transfer transfer.remoteUuid transfer.uuid).isSome := by
            obtain ⟨r, hr, _⟩ := Option.map_eq_some_iff.1 hs
            simp [hr]
          -- the update starts a stream, and consent is asked for every stream that starts
          obtain ⟨w', hstep, hlt⟩ := step_startUpdate queued hget hsome
          have hwaiting := hconsent w' hstep _ _ hlt
          rw [hs] at hwaiting
          exact Option.some.inj hwaiting
        · trivial
      | _ => trivial
    | _ => trivial
  · intro hwaiting w' hstep k u hlt
    cases l with
    | run i ans =>
      obtain ⟨t, host, t', spawned, hget, htstep, rfl⟩ := Tasking.run_cases hstep
      have hcount := Tasking.countP_run (Task.streams k u) hget t' spawned
      -- only the update of `start_transfer` starts a stream
      rcases step_streams htstep k u with heq | ⟨transfer, sourcePaths, token, rfl, hsome, heq⟩
      · simp only [streamsOf] at hlt
        omega
      · have hkey : transfer.remoteUuid = k ∧ transfer.uuid = u := by
          by_contra hne
          rw [if_neg hne] at heq
          simp only [streamsOf] at hlt
          omega
        obtain ⟨rfl, rfl⟩ := hkey
        obtain ⟨r, hr⟩ := Option.isSome_iff_exists.1 hsome
        have hstate : w.shared.stateOf transfer.remoteUuid transfer.uuid = some r.state := by
          simp [Host.stateOf, hr]
        rw [hstate, startsWaiting_of_step hwaiting hget htstep _ hstate]
    | enter t =>
      obtain ⟨hnew, rfl⟩ := Tasking.enter_cases hstep
      have hnot : t.streams k u = false := by
        cases hs : t.streams k u with
        | false => rfl
        | true =>
          have hclaim := Task.claims_of_streams hs
          rw [(sound_of_isNew hnew w.shared.uuids).2] at hclaim
          cases hclaim
      simp [streamsOf, hnot] at hlt
    | env token =>
      cases hstep
      exact absurd hlt (lt_irrefl _)

/-- The calls of `start_transfer` are consented to, and every transfer is
    streamed at most once, exactly if every update of `start_transfer` finds
    its transfer waiting for permission. -/
theorem consented_iff {host : Host} (hknown : host.Known) {ls : List WorldLabel} {w' : World}
    (hrun : calls.pool.exec { shared := host, tasks := [] } ls = some w') :
    (calls.pool.Along Consented { shared := host, tasks := [] } ls ∧ ∀ k u, streamsOf w' k u ≤ 1) ↔
      calls.pool.Along StartsWaiting { shared := host, tasks := [] } ls := by
  constructor
  · intro h
    exact h.1.mono _ fun w l => (consented_iff_startsWaiting w l).1
  · intro h
    refine ⟨h.mono _ fun w l => (consented_iff_startsWaiting w l).2, fun k u => ?_⟩
    have hstart : Sole { shared := host, tasks := [] } :=
      ⟨hknown, by simp, fun k u => by simpa [load] using Bool.toNat_le _⟩
    have hsole : Sole w' := calls.pool.exec_invariant_along
      (fun _ _ _ hC hI hs => step_sole hC hI hs) hstart h hrun
    exact (streamsOf_le_load w' k u).trans (hsole.load k u)

theorem known_single (k : String) (t : Transfer) : (Host.single k t).Known := by
  intro k' u' hsome
  obtain ⟨s, hs⟩ := Option.isSome_iff_exists.1 hsome
  obtain ⟨r, hr, _⟩ := Option.map_eq_some_iff.1 hs
  obtain ⟨remote, hremote, hfind⟩ := Option.bind_eq_some_iff.1 hr
  have hlist : remote.transfers = [t] := by
    simp only [Host.single] at hremote
    split at hremote <;> cases hremote
    rfl
  rw [hlist] at hfind
  have hmem := List.mem_of_find?_eq_some hfind
  have huuid : r.uuid = u' := by simpa using List.find?_some hfind
  simp only [List.mem_singleton] at hmem
  simp [Host.single, ← huuid, hmem]

/-- The host `a` with one transfer to `b` that waits for permission. -/
def waitingHost : Host :=
  .single "b" (.bare "out" "b" .waitingPermission (.outgoing [OsString.ofString "/f"] [0]))

def outRequest : OpInfo where
  ident := "b"
  timestamp := 0
  readableName := ""
  useCompression := false

def startedRun : List WorldLabel :=
  [.enter (.startTransfer (.lookup outRequest)), .run 0 (.go 0), .run 0 (.go 0)]

theorem consented_startedRun :
    ∃ w', calls.pool.exec { shared := waitingHost, tasks := [] } startedRun = some w' ∧
      ((calls.pool.Along Consented { shared := waitingHost, tasks := [] } startedRun ∧
        ∀ k u, streamsOf w' k u ≤ 1) ↔
      calls.pool.Along StartsWaiting { shared := waitingHost, tasks := [] } startedRun) :=
  ⟨_, rfl, consented_iff (known_single _ _) rfl⟩

def deniedRun : List WorldLabel :=
  [.enter (.cancelTransferOpRequest (.lookup outRequest)), .run 0 (.go 0), .run 0 (.go 0)]

/-- `b` denies the transfer and then starts it twice. -/
theorem denied_but_streamed :
    ∃ w w', calls.pool.exec { shared := waitingHost, tasks := [] } deniedRun = some w ∧
      w.shared.stateOf "b" "out" = some .denied ∧
      calls.pool.exec w
        [.enter (.startTransfer (.lookup outRequest)), .run 1 (.go 0), .run 1 (.go 0),
          .enter (.startTransfer (.lookup outRequest)), .run 3 (.go 0), .run 3 (.go 0)] = some w' ∧
      streamsOf w "b" "out" = 0 ∧ streamsOf w' "b" "out" = 2 := by
  refine ⟨_, _, rfl, by decide, rfl, by decide, by decide⟩

end Warpinator
