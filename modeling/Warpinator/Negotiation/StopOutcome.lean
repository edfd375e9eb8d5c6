import Warpinator.Server.Calls

/-! # The Outcome of a Stop

    A transfer in progress, its streaming task and one stop, by the application
    or by the peer.  Task and stop both write the state when they end; the stop
    is meant to have the last word.

    The closing update of `send_stream` does not look at the state, that of
    `receive_stream` gives way to `Stopped` and `Canceled` only.
    `stop_survives_iff` treats both tasks at once: the outcome of the stop
    survives exactly if the closing update of the task does not come after it,
    or leaves it as it is. -/

namespace Warpinator

/-! ## Section 1: The two sides -/

inductive StreamTask where
  | send (task : SendTask)
  | receive (task : ReceiveTask)

namespace StreamTask

def step (host : Host) (t : StreamTask) (ans : Answer) : Option (Host × StreamTask) :=
  match t with
  | .send task => (task.step host ans).map fun (host, task) => (host, .send task)
  | .receive task => (task.step host ans).map fun (host, task) => (host, .receive task)

def remoteUuid : StreamTask → String
  | .send task => task.remoteUuid
  | .receive task => task.remoteUuid

def transferUuid : StreamTask → String
  | .send task => task.transferUuid
  | .receive task => task.transferUuid

/-- What the closing update does to the state, once the task is about to write
    it. -/
def closing : StreamTask → Option (TransferState → TransferState)
  | .send task =>
    match task.phase with
    | .closing finalState => some fun _ => finalState
    | _ => none
  | .receive task =>
    match task.phase with
    | .closing finalState =>
      some fun s => if s = .stopped ∨ s = .canceled then s else finalState
    | _ => none

/-- The task does not touch the record any more. -/
def isOver : StreamTask → Bool
  | .send task => task.phase = .leaving ∨ task.phase = .done
  | .receive task => task.phase = .done ∨ task.phase = .panicked

end StreamTask

inductive StopCall where
  | own (w : Worker) (error : Bool) (pc : Worker.WithdrawPc StopInfo)
  | peer (pc : WarpServer.StopPc)

namespace StopCall

def step (host : Host) (call : StopCall) (ans : Answer) : Option (Host × StopCall) :=
  match call with
  | .own w error pc =>
    (w.stopTransfer error host pc ans).map fun (host, pc) => (host, .own w error pc)
  | .peer pc => (WarpServer.stopTransfer host pc ans).map fun (host, pc) => (host, .peer pc)

/-- The call has returned `Ok`. -/
def succeeded : StopCall → Bool
  | .own _ _ (.returned (.ok _)) => true
  | .peer (.returned (.ok _)) => true
  | _ => false

/-- The call has returned an error. -/
def failed : StopCall → Bool
  | .own _ _ (.returned (.error _)) => true
  | .peer (.returned (.error _)) => true
  | _ => false

end StopCall

abbrev Race : Type := Duo Host StreamTask StopCall

def race : Machine Race (DuoLabel Answer TokenId) := duo StreamTask.step StopCall.step Host.cancel

/-- A new stop of a transfer, and the state that it assigns. -/
inductive Stops (k u : String) (id : Nat) (kind : TransferKind) :
    StopCall → TransferState → Prop where
  | own (w : Worker) (error : Bool) :
      w.uuid = k → Stops k u id kind (.own w error (.lookup u)) .stopped
  | peer (info : OpInfo) (error : Bool) :
      info.ident = k → info.timestamp = id →
      Stops k u id kind (.peer (.lookup { info := some info, error := error }))
        (WarpServer.stopState kind error)

/-- A transfer in progress and a stop that has just been called. -/
structure StopSession (kind : TransferKind) where
  host : Host
  remoteUuid : String
  transferUuid : String
  protocolId : Nat
  call : StopCall
  assigned : TransferState
  record : host.Has remoteUuid transferUuid protocolId kind .inProgress
  stops : Stops remoteUuid transferUuid protocolId kind call assigned

/-- The sending task has just been spawned. -/
def StopSession.sending {sourcePaths : List PathBuf} {token : TokenId}
    (s : StopSession (.outgoing sourcePaths token)) : Race where
  shared := s.host
  left := .send (.new s.remoteUuid s.transferUuid (s.host.sources sourcePaths) token)
  right := s.call

/-- The receiving task has just been spawned. -/
def StopSession.receiving {destination : PathBuf} (s : StopSession (.incoming destination))
    (token : TokenId) : Race where
  shared := s.host
  left := .receive (.new s.remoteUuid s.transferUuid destination token s.host.disk)
  right := s.call

/-! ## Section 2: What a step can do -/

section steps

variable {host host' : Host} {ans : Answer} {k u : String} {id : Nat} {kind : TransferKind}
  {s assigned : TransferState}

/-- A step of a streaming task: it goes on, it writes its final state, or it
    has written it. -/
inductive StreamView (k u : String) (id : Nat) (kind : TransferKind) (s : TransferState)
    (host' : Host) (t t' : StreamTask) : Prop where
  | goesOn : t.isOver = false → t.closing = none → host'.Has k u id kind s →
      StreamView k u id kind s host' t t'
  | closes (g : TransferState → TransferState) :
      t.isOver = false → t.closing = some g → host'.Has k u id kind (g s) → t'.isOver = true →
      StreamView k u id kind s host' t t'
  | isOver : t.isOver = true → t'.isOver = true → host'.Has k u id kind s →
      StreamView k u id kind s host' t t'

theorem StreamTask.step_view {t t' : StreamTask} (h : t.step host ans = some (host', t'))
    (hrec : host.Has k u id kind s) (hk : t.remoteUuid = k) (hu : t.transferUuid = u) :
    t'.remoteUuid = k ∧ t'.transferUuid = u ∧ StreamView k u id kind s host' t t' := by
  subst hk hu
  cases t with
  | send task =>
    obtain ⟨⟨host₁, task'⟩, hstep, heq⟩ := Option.map_eq_some_iff.1 h
    cases heq
    cases SendTask.step_move hstep with
    | inner l queued sender hphase _ _ =>
      refine ⟨rfl, rfl, .goesOn (by simp [isOver, hphase]) ?_ (hrec.recordProgress _ _ _)⟩
      simp [closing, hphase]
    | decide queued result hphase _ =>
      exact ⟨rfl, rfl, .goesOn (by simp [isOver, hphase]) (by simp [closing, hphase]) hrec⟩
    -- the sender assigns its state whatever the record says
    | close queued finalState hphase =>
      refine ⟨rfl, rfl, .closes (fun _ => finalState) (by simp [isOver, hphase])
        (by simp [closing, hphase]) ?_ (by simp [isOver])⟩
      exact hrec.update queued (.finishSend finalState) (fun _ => finalState) (fun _ => rfl)
        fun _ => rfl
    | leave queued hphase =>
      exact ⟨rfl, rfl, .isOver (by simp [isOver, hphase]) (by simp [isOver]) hrec⟩
  | receive task =>
    obtain ⟨⟨host₁, task'⟩, hstep, heq⟩ := Option.map_eq_some_iff.1 h
    cases heq
    cases ReceiveTask.step_move hstep with
    | again event fault queued r hphase _ _ =>
      refine ⟨rfl, rfl, .goesOn (by simp [isOver, hphase]) ?_ (hrec.recordProgress _ _ _)⟩
      simp [closing, hphase]
    | leave event fault queued result r hphase _ _ =>
      exact ⟨rfl, rfl, .goesOn (by simp [isOver, hphase]) (by simp [closing, hphase]) hrec⟩
    | panic event fault queued r hphase _ _ =>
      exact ⟨rfl, rfl, .goesOn (by simp [isOver, hphase]) (by simp [closing, hphase]) hrec⟩
    -- the receiver looks at the record first
    | close queued finalState hphase =>
      refine ⟨rfl, rfl, .closes (fun s => if s = .stopped ∨ s = .canceled then s else finalState)
        (by simp [isOver, hphase]) (by simp [closing, hphase]) ?_ (by simp [isOver])⟩
      exact hrec.update queued (.finishReceive finalState)
        (fun s => if s = .stopped ∨ s = .canceled then s else finalState) (fun _ => rfl)
        fun t => finishReceive_state finalState t

/-- The stop has not written its state yet. -/
def StopCall.Pending (k u : String) (id : Nat) (kind : TransferKind) (assigned : TransferState) :
    StopCall → Prop
  | .own w _ (.lookup u') => w.uuid = k ∧ u' = u ∧ assigned = .stopped
  | .own w _ (.cancel u' _ newState _) => w.uuid = k ∧ u' = u ∧ newState = assigned
  | .own w _ (.request u' newState _) => w.uuid = k ∧ u' = u ∧ newState = assigned
  | .own w _ (.update u' newState) => w.uuid = k ∧ u' = u ∧ newState = assigned
  | .peer (.lookup req) =>
    ∃ info, req.info = some info ∧ info.ident = k ∧ info.timestamp = id ∧
      assigned = WarpServer.stopState kind req.error
  | .peer (.cancel t _ newState) => t.remoteUuid = k ∧ t.uuid = u ∧ newState = assigned
  | .peer (.update t newState) => t.remoteUuid = k ∧ t.uuid = u ∧ newState = assigned
  | _ => False

theorem Stops.pending {call : StopCall} (h : Stops k u id kind call assigned) :
    call.Pending k u id kind assigned := by
  cases h with
  | own w error hw => exact ⟨hw, rfl, rfl⟩
  | peer info error hk hid => exact ⟨info, rfl, hk, hid, rfl⟩

/-- A step of a stop that has not written its state yet: still not, or it
    fails, or it writes. -/
inductive StopView (k u : String) (id : Nat) (kind : TransferKind) (s assigned : TransferState)
    (host' : Host) (call' : StopCall) : Prop where
  | goesOn : call'.Pending k u id kind assigned ∨ call'.failed = true → host'.Has k u id kind s →
      StopView k u id kind s assigned host' call'
  | writes : call'.succeeded = true → host'.Has k u id kind assigned →
      StopView k u id kind s assigned host' call'

theorem StopCall.step_view {call call' : StopCall} (h : call.step host ans = some (host', call'))
    (hrec : host.Has k u id kind s) (hp : call.Pending k u id kind assigned) :
    StopView k u id kind s assigned host' call' := by
  cases call with
  | own w error pc =>
    obtain ⟨⟨host₁, pc'⟩, hstep, heq⟩ := Option.map_eq_some_iff.1 h
    cases heq
    cases Worker.withdraw_move hstep with
    | refused u' ans e => exact .goesOn (.inr rfl) hrec
    | foundOutgoing u' queued transfer token _ =>
      exact .goesOn (.inl ⟨hp.1, hp.2.1, hp.2.2.symm⟩) hrec
    | foundIncoming u' queued transfer _ =>
      exact .goesOn (.inl ⟨hp.1, hp.2.1, hp.2.2.symm⟩) hrec
    | cancelled u' queued token newState req => exact .goesOn (.inl hp) (hrec.of_manager rfl)
    | answered u' newState req => exact .goesOn (.inl hp) hrec
    | denied u' newState req status => exact .goesOn (.inr rfl) hrec
    -- the only step of the call that writes
    | updated u' newState queued _ =>
      obtain ⟨rfl, rfl, rfl⟩ := hp
      exact .writes rfl (hrec.update queued (.setState newState) (fun _ => newState) (fun _ => rfl)
        fun _ => rfl)
    | lost u' newState queued e _ => exact .goesOn (.inr rfl) hrec
  | peer pc =>
    obtain ⟨⟨host₁, pc'⟩, hstep, heq⟩ := Option.map_eq_some_iff.1 h
    cases heq
    cases WarpServer.stopTransfer_move hstep with
    | refused req status _ => exact .goesOn (.inr rfl) hrec
    | foundOutgoing req info transfer token hinfo hfound =>
      obtain ⟨info', hinfo', rfl, rfl, rfl⟩ := hp
      rw [hinfo] at hinfo'
      cases hinfo'
      obtain ⟨hk, hu, rfl, _⟩ := hrec.found hfound
      exact .goesOn (.inl ⟨hk, hu, rfl⟩) hrec
    | foundIncoming req info transfer hinfo hfound =>
      obtain ⟨info', hinfo', rfl, rfl, rfl⟩ := hp
      rw [hinfo] at hinfo'
      cases hinfo'
      obtain ⟨hk, hu, rfl, _⟩ := hrec.found hfound
      exact .goesOn (.inl ⟨hk, hu, rfl⟩) hrec
    | cancelled transfer token newState => exact .goesOn (.inl hp) (hrec.of_manager rfl)
    | updated transfer newState queued =>
      obtain ⟨rfl, rfl, rfl⟩ := hp
      exact .writes rfl (hrec.update queued (.setState newState) (fun _ => newState) (fun _ => rfl)
        fun _ => rfl)

theorem StopCall.step_returned {call : StopCall} (h : call.succeeded = true ∨ call.failed = true) :
    call.step host ans = none := by
  cases call with
  | own w error pc =>
    cases pc <;> simp_all [succeeded, failed, step, Worker.stopTransfer, Worker.withdraw]
  | peer pc => cases pc <;> simp_all [succeeded, failed, step, WarpServer.stopTransfer]

end steps

/-! ## Section 3: Who writes last -/

section runs

variable {k u : String} {id : Nat} {kind : TransferKind} {assigned : TransferState} {r r' : Race}
  {l : DuoLabel Answer TokenId}

/-- The state of the record. -/
def stateIn (r : Race) : Option TransferState :=
  r.shared.stateOf r.left.remoteUuid r.left.transferUuid

/-- If the step is the closing update of the task, it finds the transfer still
    in progress or leaves the state as it is. -/
def Spares (r : Race) : DuoLabel Answer TokenId → Prop
  | .left _ => ∀ g, r.left.closing = some g → ∀ s, stateIn r = some s → s = .inProgress ∨ g s = s
  | _ => True

/-- As long as the task has not closed the transfer, the state is the one of a
    transfer in progress or, after the stop, the one assigned. -/
structure Contested (k u : String) (id : Nat) (kind : TransferKind) (assigned : TransferState)
    (r : Race) (s : TransferState) : Prop where
  record : r.shared.Has k u id kind s
  remoteUuid : r.left.remoteUuid = k
  transferUuid : r.left.transferUuid = u
  call : r.right.Pending k u id kind assigned ∨ r.right.failed = true ∨ r.right.succeeded = true
  running : r.left.isOver = false → s = if r.right.succeeded = true then assigned else .inProgress

theorem StopCall.Pending.not_succeeded {call : StopCall} (h : call.Pending k u id kind assigned) :
    call.succeeded = false := by
  cases call with
  | own w error pc => cases pc <;> first | rfl | cases h
  | peer pc => cases pc <;> first | rfl | cases h

theorem StopCall.not_succeeded_of_failed {call : StopCall} (h : call.failed = true) :
    call.succeeded = false := by
  unfold failed at h
  split at h <;> first | rfl | cases h

theorem Contested.stateIn {s : TransferState} (h : Contested k u id kind assigned r s) :
    stateIn r = some s := by
  unfold Warpinator.stateIn
  rw [h.remoteUuid, h.transferUuid]
  exact h.record.stateOf

theorem StreamTask.not_over_of_closing {t : StreamTask} {g : TransferState → TransferState}
    (h : t.closing = some g) : t.isOver = false := by
  cases t with
  | send task => cases hp : task.phase <;> simp [closing, isOver, hp] at h ⊢
  | receive task => cases hp : task.phase <;> simp [closing, isOver, hp] at h ⊢

/-- What a step does to the state. -/
inductive RaceView (assigned : TransferState) (r : Race) (s : TransferState) (r' : Race)
    (s' : TransferState) : DuoLabel Answer TokenId → Prop where
  | still (l : DuoLabel Answer TokenId) :
      s' = s → r'.right.succeeded = r.right.succeeded →
      (r.left.isOver = true → r'.left.isOver = true) →
      (∀ a, l = .left a → r.left.closing = none) →
      RaceView assigned r s r' s' l
  | closes (a : Answer) (g : TransferState → TransferState) :
      r.left.closing = some g → s' = g s → r'.right.succeeded = r.right.succeeded →
      r'.left.isOver = true → RaceView assigned r s r' s' (.left a)
  | writes (a : Answer) :
      r.right.succeeded = false → r'.right.succeeded = true → s' = assigned →
      RaceView assigned r s r' s' (.right a)

theorem step_contested {s : TransferState} (h : race.step r l = some r')
    (hr : Contested k u id kind assigned r s) :
    ∃ s', Contested k u id kind assigned r' s' ∧ RaceView assigned r s r' s' l := by
  -- a step of the task, of the stop, or a cancellation from outside
  rcases duo_cases h with ⟨a, rfl, hstep, hright⟩ | ⟨a, rfl, hstep, hleft⟩ | ⟨token, rfl, rfl⟩
  · obtain ⟨hk, hu, hview⟩ := StreamTask.step_view hstep hr.record hr.remoteUuid hr.transferUuid
    have hcall := hr.call
    have hrunning := hr.running
    rw [← hright] at hcall hrunning
    cases hview with
    | goesOn hopen hclosing hrec =>
      refine ⟨s, ⟨hrec, hk, hu, hcall, fun _ => hrunning hopen⟩,
        .still _ rfl (by rw [hright]) ?_ ?_⟩
      · intro hover
        rw [hopen] at hover
        cases hover
      · exact fun _ _ => hclosing
    | closes g hopen hclosing hrec hover =>
      refine ⟨g s, ⟨hrec, hk, hu, hcall, fun hopen' => ?_⟩,
        .closes a g hclosing rfl (by rw [hright]) hover⟩
      rw [hover] at hopen'
      cases hopen'
    | isOver hover hover' hrec =>
      refine ⟨s, ⟨hrec, hk, hu, hcall, fun hopen' => ?_⟩, .still _ rfl (by rw [hright])
        (fun _ => hover') fun _ _ => ?_⟩
      · rw [hover'] at hopen'
        cases hopen'
      · cases hc : r.left.closing with
        | none => rfl
        | some g =>
          rw [StreamTask.not_over_of_closing hc] at hover
          cases hover
  · rcases hr.call with hpending | hreturned
    · have hnot := hpending.not_succeeded
      cases StopCall.step_view hstep hr.record hpending with
      | goesOn hcall hrec =>
        have hnot' : r'.right.succeeded = false := by
          rcases hcall with hp | hf
          · exact hp.not_succeeded
          · exact StopCall.not_succeeded_of_failed hf
        refine ⟨s, ⟨hrec, hleft ▸ hr.remoteUuid, hleft ▸ hr.transferUuid,
          hcall.imp_right Or.inl, fun hopen => ?_⟩,
          .still _ rfl (by rw [hnot, hnot']) (by simp [hleft]) (by simp)⟩
        rw [hnot', ← hnot]
        exact hr.running (hleft ▸ hopen)
      | writes hsucc hrec =>
        exact ⟨assigned, ⟨hrec, hleft ▸ hr.remoteUuid, hleft ▸ hr.transferUuid, .inr (.inr hsucc),
          fun _ => by rw [if_pos hsucc]⟩, .writes a hnot hsucc rfl⟩
    · rw [StopCall.step_returned hreturned.symm] at hstep
      cases hstep
  · exact ⟨s, ⟨hr.record.of_manager rfl, hr.remoteUuid, hr.transferUuid, hr.call, hr.running⟩,
      .still _ rfl rfl (fun h => h) (by simp)⟩

/-- Unless the closing update has overwritten it, the outcome of the stop is in
    the record. -/
def Survived (k u : String) (id : Nat) (kind : TransferKind) (assigned : TransferState) (r : Race) :
    Prop :=
  ∃ s, Contested k u id kind assigned r s ∧ (r.right.succeeded = true → s = assigned)

/-- The closing update has overwritten the outcome of the stop. -/
def Overwritten (k u : String) (id : Nat) (kind : TransferKind) (assigned : TransferState)
    (r : Race) : Prop :=
  ∃ s, Contested k u id kind assigned r s ∧ r.right.succeeded = true ∧ r.left.isOver = true ∧
    s ≠ assigned

theorem step_survived (hne : assigned ≠ .inProgress) (hspares : Spares r l)
    (hr : Survived k u id kind assigned r) (h : race.step r l = some r') :
    Survived k u id kind assigned r' := by
  obtain ⟨s, hcontested, hsame⟩ := hr
  obtain ⟨s', hcontested', hview⟩ := step_contested h hcontested
  refine ⟨s', hcontested', fun hsucc' => ?_⟩
  cases hview with
  | still l hs hsucc _ _ => rw [hs, hsame (hsucc ▸ hsucc')]
  -- the closing update finds the assigned state, and leaves it alone
  | closes a g hclosing hs hsucc _ =>
    have hassigned := hsame (hsucc ▸ hsucc')
    rcases hspares g hclosing s hcontested.stateIn with hs' | hs'
    · exact absurd (hassigned.symm.trans hs') hne
    · rw [hs, hs', hassigned]
  | writes a _ _ hs => exact hs

theorem step_overwritten (hr : Overwritten k u id kind assigned r) (h : race.step r l = some r') :
    Overwritten k u id kind assigned r' := by
  obtain ⟨s, hcontested, hsucc, hover, hne⟩ := hr
  obtain ⟨s', hcontested', hview⟩ := step_contested h hcontested
  cases hview with
  | still l hs hsucc' hover' _ =>
    exact ⟨s', hcontested', hsucc'.trans hsucc, hover' hover, hs ▸ hne⟩
  | closes a g hclosing _ _ _ =>
    rw [StreamTask.not_over_of_closing hclosing] at hover
    cases hover
  -- the stop has returned, and writes once
  | writes a hnot _ _ =>
    rw [hsucc] at hnot
    cases hnot

/-- A closing update that spares nothing comes after the stop. -/
theorem overwritten_of_not_spares (hspares : ¬ Spares r l) (hr : Survived k u id kind assigned r)
    (h : race.step r l = some r') : Overwritten k u id kind assigned r' := by
  obtain ⟨s, hcontested, hsame⟩ := hr
  obtain ⟨s', hcontested', hview⟩ := step_contested h hcontested
  cases l with
  | right a => exact absurd trivial hspares
  | env token => exact absurd trivial hspares
  | left a =>
    simp only [Spares, not_forall] at hspares
    obtain ⟨g, hclosing, s₁, hs₁, hnot⟩ := hspares
    rw [hcontested.stateIn] at hs₁
    cases hs₁
    rw [not_or] at hnot
    have hrunning := hcontested.running (StreamTask.not_over_of_closing hclosing)
    -- the closing update changes a state other than `InProgress`, so the stop has written
    have hsucc : r.right.succeeded = true := by
      by_contra hnosucc
      rw [if_neg hnosucc] at hrunning
      exact hnot.1 hrunning
    rw [if_pos hsucc] at hrunning
    cases hview with
    | still _ _ _ _ hnone =>
      rw [hnone a rfl] at hclosing
      cases hclosing
    | closes _ g' hclosing' hs hsucc' hover =>
      rw [hclosing'] at hclosing
      cases hclosing
      exact ⟨s', hcontested', hsucc'.trans hsucc, hover, by rw [hs, ← hrunning]; exact hnot.2⟩

/-- Once the stop has returned, its outcome is in the record exactly if every
    closing update on the way has spared it. -/
theorem stop_survives_iff (hne : assigned ≠ .inProgress) {r₀ : Race}
    (h₀ : Contested k u id kind assigned r₀ .inProgress) (hnot : r₀.right.succeeded = false)
    {ls : List (DuoLabel Answer TokenId)} (hrun : race.exec r₀ ls = some r)
    (hok : r.right.succeeded = true) :
    r.shared.stateOf k u = some assigned ↔ race.Along Spares r₀ ls := by
  have hstart : Survived k u id kind assigned r₀ :=
    ⟨_, h₀, fun hsucc => absurd hsucc (by rw [hnot]; simp)⟩
  constructor
  · intro hstate
    by_contra hspares
    -- the first closing update that spares nothing overwrites the outcome for good
    obtain ⟨pre, l, post, t, t', rfl, halong, hpre, hbad, hstep, hpost⟩ :=
      race.exists_first_bad hrun hspares
    have ht : Survived k u id kind assigned t :=
      race.exec_invariant_along (fun _ _ _ hC hI hs => step_survived hne hC hI hs) hstart halong
        hpre
    have hr : Overwritten k u id kind assigned r :=
      race.exec_invariant (fun _ _ _ hI hs => step_overwritten hI hs)
        (overwritten_of_not_spares hbad ht hstep) hpost
    obtain ⟨s, hcontested, _, _, hother⟩ := hr
    rw [hcontested.record.stateOf] at hstate
    exact hother (Option.some.inj hstate)
  · intro hspares
    have hr : Survived k u id kind assigned r :=
      race.exec_invariant_along (fun _ _ _ hC hI hs => step_survived hne hC hI hs) hstart hspares
        hrun
    obtain ⟨s, hcontested, hsame⟩ := hr
    rw [hcontested.record.stateOf, hsame hok]

end runs

/-! ## Section 4: What the tasks write -/

/-- No local failure of the sender is reported as the peer's. -/
theorem SendMove.error_ne_remoteError {pc pc' : SendPc} {l : SendLabel} {cs : List FileChunk}
    (h : SendMove pc l pc' cs) {e : TransferError} (hret : pc' = .returned (.error e)) :
    e ≠ .remoteError := by
  have hloop : ∀ rest, sourceLoop rest ≠ .returned (.error e) := by
    intro rest
    cases rest <;> simp [sourceLoop]
  have hresume : ∀ cont : SendCont, cont.resume ≠ .returned (.error e) := by
    intro cont
    cases cont with
    | nextSource rest => exact hloop rest
    | nextEntry base entries rest => simp [SendCont.resume]
  cases h with
  | sourceEntered base source rest =>
    unfold enterSource at hret
    split at hret
    · cases hret
    · cases hret
    · exact absurd hret (hloop rest)
  | walkDone base rest => exact absurd hret (hloop rest)
  | entryEntered base entry entries rest =>
    unfold enterEntry at hret
    split at hret <;> cases hret
  | dirSent chunk cont => exact absurd hret (hresume cont)
  | fileCancelled file cont => exact absurd hret (hresume cont)
  | readEof file cont _ => exact absurd hret (hresume cont)
  -- the errors of the file system
  | sourceFailed base source rest k => cases hret; exact ofIoErrorKind_ne_remoteError k
  | entryFailed base entry entries rest k => cases hret; exact ofIoErrorKind_ne_remoteError k
  | openFailed file cont k => cases hret; exact ofIoErrorKind_ne_remoteError k
  | readFailed file cont k => cases hret; exact ofIoErrorKind_ne_remoteError k
  | _ => cases hret <;> simp

/-- No local failure of the receiver is reported as the peer's. -/
theorem receiveRound_ne_remoteError (checks : Bool) (destination : PathBuf)
    (fault : Option IoErrorKind) (r r' : Receiver) (event : StreamEvent) :
    receiveRound checks destination fault r event ≠ .done (.error .remoteError) r' := by
  have hleave : ∀ result, result ≠ .error .remoteError →
      leaveLoop checks fault result r ≠ .done (.error .remoteError) r' := by
    intro result hne h
    unfold leaveLoop at h
    split at h
    · cases h; exact hne rfl
    · next heq => exact finalizeCurrentFile_ne_err _ _ _ _ _ heq
    · cases h
  cases event with
  | cancelled => exact hleave _ (by simp)
  | endOfStream => exact hleave _ (by simp)
  | streamError => exact hleave _ (by simp)
  | message ans chunk =>
    intro h
    simp only [receiveRound] at h
    split at h
    · cases h
    · next e r heq =>
      cases h
      rcases processChunk_err heq with h | ⟨k, h⟩
      · cases h
      · exact ofIoErrorKind_ne_remoteError k h.symm
    · cases h

def StreamTask.isSend : StreamTask → Bool
  | .send _ => true
  | .receive _ => false

/-- The final state of a task is its own: none that the stop of a transfer of
    its kind assigns and that it would not leave alone. -/
def StreamTask.Own : StreamTask → Prop
  | .send task =>
    (∀ e, task.sender.pc = .returned (.error e) → e ≠ .remoteError) ∧
      ∀ s, task.phase = .closing s → s ≠ .stopped ∧ s ≠ .failed .remoteError
  | .receive task => ∀ s, task.phase = .closing s → s ≠ .failed .remoteError

theorem StreamTask.step_own {host host' : Host} {ans : Answer} {t t' : StreamTask}
    (h : t.step host ans = some (host', t')) (ht : t.Own) : t'.Own := by
  cases t with
  | send task =>
    obtain ⟨⟨host₁, task'⟩, hstep, heq⟩ := Option.map_eq_some_iff.1 h
    cases heq
    cases SendTask.step_move hstep with
    | inner l queued sender hphase _ hsend =>
      obtain ⟨cs, _, hmove⟩ := sendStep_move hsend
      refine ⟨fun e hret => hmove.error_ne_remoteError hret, fun s hs => ?_⟩
      have hclosing : task.phase = .closing s := hs
      rw [hphase] at hclosing
      cases hclosing
    -- the state is picked from the result, which is never `RemoteError`
    | decide queued result hphase hret =>
      refine ⟨ht.1, fun s hs => ?_⟩
      cases hs
      unfold sendFinalState
      split
      · simp
      · next e =>
        split
        · simp
        · simpa using ht.1 e hret
      · simp
    | close queued finalState hphase => exact ⟨ht.1, by simp⟩
    | leave queued hphase => exact ⟨ht.1, by simp⟩
  | receive task =>
    obtain ⟨⟨host₁, task'⟩, hstep, heq⟩ := Option.map_eq_some_iff.1 h
    cases heq
    intro s hs
    cases ReceiveTask.step_move hstep with
    | again event fault queued r hphase _ _ =>
      have hclosing : task.phase = .closing s := hs
      rw [hphase] at hclosing
      cases hclosing
    | leave event fault queued result r _ _ hround =>
      cases hs
      rintro hfinal
      unfold receiveFinalState at hfinal
      split at hfinal
      · cases hfinal
      · cases hfinal
      · cases hfinal; exact receiveRound_ne_remoteError _ _ _ _ _ _ hround
    | panic event fault queued r _ _ _ => cases hs
    | close queued finalState hphase => cases hs

theorem StreamTask.step_isSend {host host' : Host} {ans : Answer} {t t' : StreamTask}
    (h : t.step host ans = some (host', t')) : t'.isSend = t.isSend := by
  cases t <;> obtain ⟨_, _, heq⟩ := Option.map_eq_some_iff.1 h <;> cases heq <;> rfl

theorem step_race_own {r r' : Race} {l : DuoLabel Answer TokenId} (h : race.step r l = some r')
    (hr : r.left.Own) : r'.left.Own ∧ r'.left.isSend = r.left.isSend := by
  rcases duo_cases h with ⟨a, _, hstep, _⟩ | ⟨a, _, _, hleft⟩ | ⟨token, _, rfl⟩
  · exact ⟨StreamTask.step_own hstep hr, StreamTask.step_isSend hstep⟩
  · rw [hleft]
    exact ⟨hr, rfl⟩
  · exact ⟨hr, rfl⟩

/-! ## Section 5: The two outcomes -/

/-- If the step is the closing update, it finds the transfer in progress. -/
def ClosesInProgress (r : Race) : DuoLabel Answer TokenId → Prop
  | .left _ => r.left.closing.isSome → stateIn r = some .inProgress
  | _ => True

/-- If the step is the closing update, it does not find the state
    `Failed(RemoteError)`. -/
def ClosesNotFailed (r : Race) : DuoLabel Answer TokenId → Prop
  | .left _ => r.left.closing.isSome → stateIn r ≠ some (.failed .remoteError)
  | _ => True

section outcomes

variable {k u : String} {id : Nat} {kind : TransferKind} {call : StopCall}
  {assigned : TransferState}

theorem Stops.assigned_ne (h : Stops k u id kind call assigned) : assigned ≠ .inProgress := by
  cases h with
  | own w error _ => simp
  | peer info error _ _ => cases kind <;> cases error <;> simp [WarpServer.stopState]

theorem Stops.contested {r : Race} (h : Stops k u id kind r.right assigned)
    (hrec : r.shared.Has k u id kind .inProgress) (hk : r.left.remoteUuid = k)
    (hu : r.left.transferUuid = u) :
    r.right.succeeded = false ∧ Contested k u id kind assigned r .inProgress := by
  have hnot := h.pending.not_succeeded
  exact ⟨hnot, hrec, hk, hu, .inl h.pending, fun _ => by simp [hnot]⟩

/-- Where the final states of the task are its own, the condition of
    `stop_survives_iff` may be replaced by one on the state that is found. -/
theorem along_spares_congr {C : Race → DuoLabel Answer TokenId → Prop} {r₀ : Race}
    (hown : r₀.left.Own) (hcontested : Contested k u id kind assigned r₀ .inProgress)
    (h : ∀ r l s, r.left.Own → r.left.isSend = r₀.left.isSend →
      Contested k u id kind assigned r s → (Spares r l ↔ C r l))
    (ls : List (DuoLabel Answer TokenId)) : race.Along Spares r₀ ls ↔ race.Along C r₀ ls := by
  refine race.along_congr_invariant
    (I := fun r => (r.left.Own ∧ r.left.isSend = r₀.left.isSend) ∧
      ∃ s, Contested k u id kind assigned r s) ?_ ?_ ⟨⟨hown, rfl⟩, _, hcontested⟩ ls
  · rintro r l r' ⟨⟨hown, hsend⟩, s, hcontested⟩ hs
    obtain ⟨hown', hsend'⟩ := step_race_own hs hown
    obtain ⟨s', hcontested', _⟩ := step_contested hs hcontested
    exact ⟨⟨hown', hsend'.trans hsend⟩, s', hcontested'⟩
  · rintro r l ⟨⟨hown, hsend⟩, s, hcontested⟩
    exact h r l s hown hsend hcontested

theorem Contested.closing {r : Race} {s : TransferState} {g : TransferState → TransferState}
    (h : Contested k u id kind assigned r s) (hclosing : r.left.closing = some g) :
    s = .inProgress ∨ s = assigned := by
  have hrunning := h.running (StreamTask.not_over_of_closing hclosing)
  split at hrunning
  · exact .inr hrunning
  · exact .inl hrunning

theorem spares_iff_closesInProgress {r : Race} {s : TransferState} (hown : r.left.Own)
    (hsend : r.left.isSend = true)
    (hassigned : assigned = .stopped ∨ assigned = .failed .remoteError)
    (hcontested : Contested k u id kind assigned r s) (l : DuoLabel Answer TokenId) :
    Spares r l ↔ ClosesInProgress r l := by
  cases l with
  | right a => exact Iff.rfl
  | env token => exact Iff.rfl
  | left a =>
    simp only [Spares, ClosesInProgress, hcontested.stateIn, Option.some.injEq, forall_eq']
    constructor
    · intro h hsome
      obtain ⟨g, hclosing⟩ := Option.isSome_iff_exists.1 hsome
      rcases h g hclosing with hs | hs
      · exact hs
      · rcases hcontested.closing hclosing with hs' | hs'
        · exact hs'
        · -- the final state of the task would be the one assigned
          exfalso
          cases hleft : r.left with
          | receive task => simp [hleft, StreamTask.isSend] at hsend
          | send task =>
            rw [hleft] at hown hclosing
            cases hp : task.phase with
            | closing f =>
              simp only [StreamTask.closing, hp, Option.some.injEq] at hclosing
              have hf := hown.2 f hp
              rw [← hclosing] at hs
              rcases hassigned with rfl | rfl
              · exact hf.1 (hs.trans hs')
              · exact hf.2 (hs.trans hs')
            | _ => simp [StreamTask.closing, hp] at hclosing
    · intro h g hclosing
      exact .inl (h (by simp [hclosing]))

theorem spares_iff_closesNotFailed {r : Race} {s : TransferState} (hown : r.left.Own)
    (hsend : r.left.isSend = false)
    (hassigned : assigned = .stopped ∨ assigned = .canceled ∨ assigned = .failed .remoteError)
    (hcontested : Contested k u id kind assigned r s) (l : DuoLabel Answer TokenId) :
    Spares r l ↔ ClosesNotFailed r l := by
  cases l with
  | right a => exact Iff.rfl
  | env token => exact Iff.rfl
  | left a =>
    simp only [Spares, ClosesNotFailed, hcontested.stateIn, Option.some.injEq, forall_eq']
    cases hleft : r.left with
    | send task => simp [hleft, StreamTask.isSend] at hsend
    | receive task =>
      rw [hleft] at hown
      have hclosing : ∀ g, r.left.closing = some g → s = .inProgress ∨ s = assigned :=
        fun _ => hcontested.closing
      rw [hleft] at hclosing
      cases hp : task.phase with
      | closing f =>
        have hf := hown f hp
        simp only [StreamTask.closing, hp, Option.some.injEq, forall_eq', Option.isSome_some,
          forall_const, ne_eq] at hclosing ⊢
        constructor
        · rintro h rfl
          simp [hf] at h
        · intro hs
          rcases hclosing with rfl | rfl
          · exact .inl rfl
          · rcases hassigned with rfl | rfl | rfl
            · simp
            · simp
            · exact absurd rfl hs
      | _ => simp [StreamTask.closing, hp]

end outcomes

/-- After a stop of an outgoing transfer has returned `Ok`, the state is the
    one that it assigns exactly if the sending task has not made its closing
    update after the stop's. -/
theorem stop_survives_sending_iff {sourcePaths : List PathBuf} {token : TokenId}
    (s : StopSession (.outgoing sourcePaths token)) {ls : List (DuoLabel Answer TokenId)} {r : Race}
    (hrun : race.exec s.sending ls = some r) (hok : r.right.succeeded = true) :
    r.shared.stateOf s.remoteUuid s.transferUuid = some s.assigned ↔
      race.Along ClosesInProgress s.sending ls := by
  obtain ⟨hnot, hcontested⟩ := Stops.contested (r := s.sending) s.stops s.record rfl rfl
  have hassigned : s.assigned = .stopped ∨ s.assigned = .failed .remoteError := by
    obtain ⟨_, _, _, _, _, _, _, hstops⟩ := s
    cases hstops with
    | own w error _ => exact .inl rfl
    | peer info error _ _ => cases error <;> simp [WarpServer.stopState]
  have hown : s.sending.left.Own := by
    refine ⟨fun e hret => ?_, by simp [SendTask.new]⟩
    have hloop : sourceLoop (s.host.sources sourcePaths) = .returned (.error e) := hret
    -- a task that has just been spawned has not returned
    cases hs : s.host.sources sourcePaths <;> simp [hs, sourceLoop] at hloop
  rw [stop_survives_iff s.stops.assigned_ne hcontested hnot hrun hok]
  exact along_spares_congr hown hcontested
    (fun r l s hown hsend hc => spares_iff_closesInProgress hown hsend hassigned hc l) ls

/-- The application stops a transfer to `b`. -/
def ownStop : StopSession (.outgoing [OsString.ofString "/f"] [0]) where
  host := .single "b" (.bare "out" "b" .inProgress (.outgoing [OsString.ofString "/f"] [0]))
  remoteUuid := "b"
  transferUuid := "out"
  protocolId := 0
  call := .own { uuid := "b", serverFullname := "a", cancellationToken := [] } false (.lookup "out")
  assigned := .stopped
  record := ⟨_, ⟨rfl, rfl⟩, rfl, rfl, rfl⟩
  stops := .own _ _ rfl

/-- The task has ended before the stop writes. -/
def lateStop : List (DuoLabel Answer TokenId) :=
  [.left (.send (.poll false) 0), .left (.send (.io none) 0), .left (.go 0), .left (.go 0),
    .right (.go 0), .right (.go 0), .right (.reply (.ok ())), .right (.go 0)]

theorem stop_survives_lateStop :
    ∃ r, race.exec ownStop.sending lateStop = some r ∧
      (r.shared.stateOf "b" "out" = some .stopped ↔
        race.Along ClosesInProgress ownStop.sending lateStop) :=
  ⟨_, rfl, stop_survives_sending_iff ownStop rfl rfl⟩

/-- The task finds its token cancelled and closes the transfer after the stop. -/
def earlyStop : List (DuoLabel Answer TokenId) :=
  [.right (.go 0), .right (.go 0), .right (.reply (.ok ())), .right (.go 0),
    .left (.send (.poll true) 0), .left (.go 0), .left (.go 0), .left (.go 0)]

theorem stopped_then_canceled :
    ∃ r, race.exec ownStop.sending earlyStop = some r ∧ r.right.succeeded = true ∧
      r.left.isOver = true ∧ r.shared.stateOf "b" "out" ≠ some ownStop.assigned ∧
      r.shared.stateOf "b" "out" = some .canceled :=
  ⟨_, rfl, rfl, rfl, by decide, by decide⟩

/-- After a stop of an incoming transfer has returned `Ok`, the state is the
    one that it assigns exactly if the receiving task has not made its closing
    update on a transfer that the peer had stopped with an error. -/
theorem stop_survives_receiving_iff {destination : PathBuf}
    (s : StopSession (.incoming destination)) (token : TokenId)
    {ls : List (DuoLabel Answer TokenId)} {r : Race}
    (hrun : race.exec (s.receiving token) ls = some r) (hok : r.right.succeeded = true) :
    r.shared.stateOf s.remoteUuid s.transferUuid = some s.assigned ↔
      race.Along ClosesNotFailed (s.receiving token) ls := by
  obtain ⟨hnot, hcontested⟩ := Stops.contested (r := s.receiving token) s.stops s.record rfl rfl
  have hassigned : s.assigned = .stopped ∨ s.assigned = .canceled ∨
      s.assigned = .failed .remoteError := by
    obtain ⟨_, _, _, _, _, _, _, hstops⟩ := s
    cases hstops with
    | own w error _ => exact .inl rfl
    | peer info error _ _ => cases error <;> simp [WarpServer.stopState]
  have hown : (s.receiving token).left.Own := by
    simp [StopSession.receiving, ReceiveTask.new, StreamTask.Own]
  rw [stop_survives_iff s.stops.assigned_ne hcontested hnot hrun hok]
  exact along_spares_congr hown hcontested
    (fun r l s hown hsend hc => spares_iff_closesNotFailed hown hsend hassigned hc l) ls

/-- The peer `a` stops a transfer with an error. -/
def peerStop : StopSession (.incoming (OsString.ofString "/d")) where
  host := .single "a" (.bare "in" "a" .inProgress (.incoming (OsString.ofString "/d")))
  remoteUuid := "a"
  transferUuid := "in"
  protocolId := 0
  call := .peer (.lookup
    { info := some { ident := "a", timestamp := 0, readableName := "", useCompression := false }
      error := true })
  assigned := .failed .remoteError
  record := ⟨_, ⟨rfl, rfl⟩, rfl, rfl, rfl⟩
  stops := .peer _ true rfl rfl

def stopAfterEnd : List (DuoLabel Answer TokenId) :=
  [.left (.receive .endOfStream none 0), .left (.go 0), .right (.go 0), .right (.go 0)]

theorem stop_survives_stopAfterEnd :
    ∃ r, race.exec (peerStop.receiving [0]) stopAfterEnd = some r ∧
      (r.shared.stateOf "a" "in" = some (.failed .remoteError) ↔
        race.Along ClosesNotFailed (peerStop.receiving [0]) stopAfterEnd) :=
  ⟨_, rfl, stop_survives_receiving_iff peerStop [0] rfl rfl⟩

/-- The stream ends after the peer has reported its error. -/
def endAfterStop : List (DuoLabel Answer TokenId) :=
  [.right (.go 0), .right (.go 0), .left (.receive .endOfStream none 0), .left (.go 0)]

theorem failed_then_completed :
    ∃ r, race.exec (peerStop.receiving [0]) endAfterStop = some r ∧ r.right.succeeded = true ∧
      r.left.isOver = true ∧ r.shared.stateOf "a" "in" ≠ some peerStop.assigned ∧
      r.shared.stateOf "a" "in" = some .completed :=
  ⟨_, rfl, rfl, rfl, by decide, by decide⟩

end Warpinator
