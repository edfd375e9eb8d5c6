import Warpinator.Server.Calls

/-! # Announcing a Request

    `send_transfer_request` writes `WaitingPermission` after the peer has
    answered its RPC.  The peer knows the transfer by then and may already have
    started or denied it; the closing update does not look.

    `kept_iff_announcesFirst` says when no reaction is lost: exactly if the peer's
    reaction has not been answered yet when the closing update is written. -/

namespace Warpinator

/-! ## Section 1: A request and a reaction -/

/-- What the peer does about the transfer.  After `start_transfer` has answered,
    the stream that it has spawned goes on. -/
inductive Reaction where
  | start (pc : WarpServer.StartPc)
  | cancel (pc : WarpServer.CancelPc)

namespace Reaction

def step (host : Host) (t : Reaction) (ans : Answer) : Option (Host × Reaction) :=
  match t with
  | .start (.streaming task) =>
    (task.step host ans).map fun (host, task) => (host, .start (.streaming task))
  | .start pc => (WarpServer.startTransfer host pc ans).map fun (host, pc) => (host, .start pc)
  | .cancel pc =>
    (WarpServer.cancelTransferOpRequest host pc ans).map fun (host, pc) => (host, .cancel pc)

/-- `start_transfer` has answered `Ok`, or the denial has been refused. -/
def answered : Reaction → Bool
  | .start (.streaming _) => true
  | .cancel (.returned (.error _)) => true
  | _ => false

end Reaction

/-- A reaction that has just arrived. -/
inductive Reacts (k : String) (id : Nat) : Reaction → Prop where
  | start (info : OpInfo) :
      info.ident = k → info.timestamp = id → Reacts k id (.start (.lookup info))
  | cancel (info : OpInfo) :
      info.ident = k → info.timestamp = id → Reacts k id (.cancel (.lookup info))

abbrev Announcing : Type := Duo Host Worker.SendRequestPc Reaction

def announcing (w : Worker) : Machine Announcing (DuoLabel Answer TokenId) :=
  duo w.sendTransferRequest Reaction.step Host.cancel

/-- A request has been delivered and not answered yet; a reaction arrives. -/
structure Announcement where
  host : Host
  worker : Worker
  transfer : Transfer
  kind : TransferKind
  reaction : Reaction
  record : host.Has worker.uuid transfer.uuid transfer.protocolId kind .initializing
  reacts : Reacts worker.uuid transfer.protocolId reaction

def Announcement.start (a : Announcement) : Announcing where
  shared := a.host
  left := .request a.transfer (a.transfer.asProto a.worker.serverFullname)
  right := a.reaction

/-- The reaction is not lost: after `start_transfer` has answered `Ok`, and
    after a denial has been refused, the transfer does not wait for
    permission. -/
def Kept (a : Announcement) (s : Announcing) : Prop :=
  s.right.answered = true →
    s.shared.stateOf a.worker.uuid a.transfer.uuid ≠ some .waitingPermission

/-- If the step is the closing update of `send_transfer_request`, the reaction
    has not been answered yet. -/
def AnnouncesFirst (s : Announcing) : DuoLabel Answer TokenId → Prop
  | .left _ =>
    match s.left with
    | .announce _ => s.right.answered = false
    | _ => True
  | _ => True

/-! ## Section 2: What a step can do -/

/-- The request works on the transfer. -/
def Announcement.Requests (a : Announcement) : Worker.SendRequestPc → Prop
  | .request transfer _ => transfer.uuid = a.transfer.uuid
  | .announce transfer => transfer.uuid = a.transfer.uuid
  | .returned _ => True
  | _ => False

/-- The reaction works on the transfer, and its stream does not write
    `WaitingPermission`. -/
def Announcement.Concerns (a : Announcement) : Reaction → Prop
  | .start (.lookup info) => info.ident = a.worker.uuid ∧ info.timestamp = a.transfer.protocolId
  | .start (.update t _ _) => t.remoteUuid = a.worker.uuid ∧ t.uuid = a.transfer.uuid
  | .start (.streaming task) =>
    (task.remoteUuid = a.worker.uuid ∧ task.transferUuid = a.transfer.uuid) ∧
      ∀ s, task.phase = .closing s → s ≠ .waitingPermission
  | .start (.failed _) => True
  | .cancel (.lookup info) => info.ident = a.worker.uuid ∧ info.timestamp = a.transfer.protocolId
  | .cancel (.update t _) => t.remoteUuid = a.worker.uuid ∧ t.uuid = a.transfer.uuid
  | .cancel (.returned _) => True

/-- The record in the given state. -/
abbrev Announcement.Has (a : Announcement) (host : Host) (st : TransferState) : Prop :=
  host.Has a.worker.uuid a.transfer.uuid a.transfer.protocolId a.kind st

section steps

variable {a : Announcement} {host host' : Host} {ans : Answer} {st : TransferState}

/-- A step of the request: only the closing update touches the record. -/
theorem request_view {pc pc' : Worker.SendRequestPc} (hrec : a.Has host st) (hreq : a.Requests pc)
    (h : a.worker.sendTransferRequest host pc ans = some (host', pc')) :
    a.Requests pc' ∧ ((∃ t, pc = .announce t) ∧ a.Has host' .waitingPermission ∨
      (∀ t, pc ≠ .announce t) ∧ a.Has host' st) := by
  cases Worker.sendTransferRequest_move h with
  | answered transfer req => exact ⟨hreq, .inr ⟨by simp, hrec⟩⟩
  | failed transfer req e => exact ⟨trivial, .inr ⟨by simp, hrec⟩⟩
  | announced transfer queued _ =>
    have hu : transfer.uuid = a.transfer.uuid := hreq
    refine ⟨trivial, .inl ⟨⟨_, rfl⟩, ?_⟩⟩
    rw [hu]
    exact hrec.update queued (.announce transfer) (fun _ => .waitingPermission) (fun _ => rfl)
      fun _ => rfl
  | lost transfer e hnone =>
    have hu : transfer.uuid = a.transfer.uuid := hreq
    have hsome := hrec.isSome
    rw [← hu, hnone] at hsome
    cases hsome
  | _ => exact absurd hreq id

/-- A step of the reaction: when it is answered, the record does not wait for
    permission. -/
theorem reaction_view {t t' : Reaction} (hrec : a.Has host st) (hconcerns : a.Concerns t)
    (hkept : t.answered = true → st ≠ .waitingPermission)
    (h : t.step host ans = some (host', t')) :
    (t.answered = true → t'.answered = true) ∧ a.Concerns t' ∧
      ∃ st', a.Has host' st' ∧ (t'.answered = true → st' ≠ .waitingPermission) := by
  unfold Reaction.step at h
  split at h
  · -- the stream
    next task =>
    obtain ⟨⟨host₁, task'⟩, hstep, heq⟩ := Option.map_eq_some_iff.1 h
    cases heq
    obtain ⟨⟨hk, hu⟩, hphase⟩ := hconcerns
    have hst := hkept rfl
    refine ⟨fun h => h, ?_⟩
    unfold Announcement.Has at hrec ⊢
    cases SendTask.step_move hstep with
    | inner l queued sender _ _ _ =>
      refine ⟨⟨⟨hk, hu⟩, hphase⟩, st, ?_, fun _ => hst⟩
      rw [hk, hu]
      exact hrec.recordProgress _ _ _
    | decide queued result _ _ =>
      refine ⟨⟨⟨hk, hu⟩, fun s hs => ?_⟩, st, hrec, fun _ => hst⟩
      cases hs
      exact sendFinalState_ne_waiting _ _
    -- the state that the task has picked is none that waits
    | close queued finalState hclosing =>
      refine ⟨⟨⟨hk, hu⟩, by simp⟩, finalState, ?_, fun _ => hphase _ hclosing⟩
      rw [hk, hu]
      exact hrec.update queued (.finishSend finalState) (fun _ => finalState) (fun _ => rfl)
        fun _ => rfl
    | leave queued _ => exact ⟨⟨⟨hk, hu⟩, by simp⟩, st, hrec, fun _ => hst⟩
  · -- `start_transfer`
    next pc hpc =>
    obtain ⟨⟨host₁, pc'⟩, hstep, heq⟩ := Option.map_eq_some_iff.1 h
    cases heq
    cases WarpServer.startTransfer_move hstep with
    | refused req status _ =>
      exact ⟨by simp [Reaction.answered], trivial, st, hrec, by simp [Reaction.answered]⟩
    | found req transfer sourcePaths token hfound =>
      obtain ⟨hk, hid⟩ := hconcerns
      rw [hk, hid] at hfound
      obtain ⟨hk', hu', _, _⟩ := hrec.found hfound
      exact ⟨by simp [Reaction.answered], ⟨hk', hu'⟩, st, hrec, by simp [Reaction.answered]⟩
    | lost transfer sourcePaths token status _ =>
      exact ⟨by simp [Reaction.answered], trivial, st, hrec, by simp [Reaction.answered]⟩
    | started transfer sourcePaths token queued sources _ =>
      obtain ⟨hk, hu⟩ := hconcerns
      refine ⟨by simp [Reaction.answered], ⟨⟨hk, hu⟩, by simp [SendTask.new]⟩,
        .inProgress, ?_, by simp⟩
      rw [hk, hu]
      exact hrec.update queued (.setState .inProgress) (fun _ => .inProgress) (fun _ => rfl)
        fun _ => rfl
  · -- `cancel_transfer_op_request`
    next pc =>
    obtain ⟨⟨host₁, pc'⟩, hstep, heq⟩ := Option.map_eq_some_iff.1 h
    cases heq
    cases WarpServer.cancelTransferOpRequest_move hstep with
    -- refused means that the record does not wait any more
    | refused req status hrefused =>
      refine ⟨by simp [Reaction.answered], trivial, st, hrec, fun _ => ?_⟩
      obtain ⟨hk, hid⟩ := hconcerns
      obtain ⟨t, ht⟩ := hrec.exists_found
      obtain ⟨_, _, _, hst⟩ := hrec.found ht
      rw [hk, hid] at hrefused
      exact hst ▸ hrefused t ht
    | found req transfer hfound _ =>
      obtain ⟨hk, hid⟩ := hconcerns
      rw [hk, hid] at hfound
      obtain ⟨hk', hu', _, _⟩ := hrec.found hfound
      exact ⟨by simp [Reaction.answered], ⟨hk', hu'⟩, st, hrec, by simp [Reaction.answered]⟩
    | updated transfer newState queued =>
      obtain ⟨hk, hu⟩ := hconcerns
      refine ⟨by simp [Reaction.answered], trivial, newState, ?_, by simp [Reaction.answered]⟩
      rw [hk, hu]
      exact hrec.update queued (.setState newState) (fun _ => newState) (fun _ => rfl)
        fun _ => rfl

end steps

/-! ## Section 3: Runs -/

/-- The invariant of every run. -/
structure Announcement.Sound (a : Announcement) (s : Announcing) (st : TransferState) : Prop where
  record : a.Has s.shared st
  requests : a.Requests s.left
  concerns : a.Concerns s.right

/-- The invariant of a run in which nothing is lost. -/
def Announcement.Holds (a : Announcement) (s : Announcing) : Prop :=
  ∃ st, a.Sound s st ∧ (s.right.answered = true → st ≠ .waitingPermission)

theorem Announcement.Holds.kept {a : Announcement} {s : Announcing} (h : a.Holds s) : Kept a s := by
  obtain ⟨st, hsound, hne⟩ := h
  intro hanswered hstate
  rw [hsound.record.stateOf] at hstate
  exact hne hanswered (Option.some.inj hstate)

theorem Announcement.holds_start (a : Announcement) : a.Holds a.start := by
  refine ⟨.initializing, ⟨a.record, rfl, ?_⟩, by simp⟩
  obtain ⟨_, _, _, _, _, _, hreacts⟩ := a
  cases hreacts with
  | start info hk hid => exact ⟨hk, hid⟩
  | cancel info hk hid => exact ⟨hk, hid⟩

/-- A step keeps the invariant, unless it is a closing update after the
    reaction has been answered; then the reaction is lost. -/
theorem step_holds {a : Announcement} {s s' : Announcing} {l : DuoLabel Answer TokenId}
    (h : (announcing a.worker).step s l = some s') (hs : a.Holds s) :
    (AnnouncesFirst s l → a.Holds s') ∧ (¬ AnnouncesFirst s l → ¬ Kept a s') := by
  obtain ⟨st, ⟨hrec, hreq, hconcerns⟩, hne⟩ := hs
  rcases duo_cases h with ⟨ans, rfl, hstep, hright⟩ | ⟨ans, rfl, hstep, hleft⟩ | ⟨token, rfl, rfl⟩
  · obtain ⟨hreq', ⟨⟨t, ht⟩, hrec'⟩ | ⟨hnot, hrec'⟩⟩ := request_view hrec hreq hstep
    -- the closing update: harmless before the answer, a loss after it
    · have hsound : a.Sound s' .waitingPermission := ⟨hrec', hreq', hright ▸ hconcerns⟩
      simp only [AnnouncesFirst, ht]
      refine ⟨fun hfirst => ⟨_, hsound, fun hanswered => ?_⟩, fun hlate hkept => ?_⟩
      · rw [hright, hfirst] at hanswered
        cases hanswered
      · refine hkept ?_ hrec'.stateOf
        rw [hright]
        simpa using hlate
    -- any other step of the request leaves the record as it is
    · refine ⟨fun _ => ⟨st, ⟨hrec', hreq', hright ▸ hconcerns⟩, by rwa [hright]⟩, fun hlate => ?_⟩
      exfalso
      apply hlate
      unfold AnnouncesFirst
      dsimp only
      split
      · next t ht => exact absurd ht (hnot t)
      · trivial
  · obtain ⟨_, hconcerns', st', hrec', hne'⟩ := reaction_view hrec hconcerns hne hstep
    exact ⟨fun _ => ⟨st', ⟨hrec', hleft ▸ hreq, hconcerns'⟩, hne'⟩,
      fun hlate => absurd trivial hlate⟩
  · exact ⟨fun _ => ⟨st, ⟨hrec.of_manager rfl, hreq, hconcerns⟩, hne⟩,
      fun hlate => absurd trivial hlate⟩

/-- No reaction is lost in any state that a run passes exactly if the closing
    update of the request always comes before the answer to the reaction. -/
theorem kept_iff_announcesFirst (a : Announcement) {ls : List (DuoLabel Answer TokenId)}
    {s' : Announcing} (hrun : (announcing a.worker).exec a.start ls = some s') :
    (∀ pre post s, ls = pre ++ post → (announcing a.worker).exec a.start pre = some s → Kept a s) ↔
      (announcing a.worker).Along AnnouncesFirst a.start ls := by
  constructor
  · intro hkept
    by_contra hlate
    -- the first closing update that comes too late
    obtain ⟨pre, l, post, t, u, rfl, halong, hpre, hbad, hstep, _⟩ :=
      (announcing a.worker).exists_first_bad hrun hlate
    have ht : a.Holds t := (announcing a.worker).exec_invariant_along
      (fun _ _ _ hC hI hs => (step_holds hs hI).1 hC) a.holds_start halong hpre
    refine (step_holds hstep ht).2 hbad (hkept (pre ++ [l]) post u (by simp) ?_)
    rw [Machine.exec_append]
    exact ⟨t, hpre, by simp [Machine.exec, hstep]⟩
  · rintro halong pre post s rfl hpre
    have hs : a.Holds s := (announcing a.worker).exec_invariant_along
      (fun _ _ _ hC hI hs => (step_holds hs hI).1 hC) a.holds_start
      ((announcing a.worker).along_of_append halong) hpre
    exact hs.kept

/-- The request of a transfer to `b`; `b` reacts by starting it. -/
def earlyStart : Announcement where
  host := .single "b" (.bare "out" "b" .initializing (.outgoing [OsString.ofString "/f"] [0]))
  worker := { uuid := "b", serverFullname := "a", cancellationToken := [] }
  transfer := .bare "out" "b" .initializing (.outgoing [OsString.ofString "/f"] [0])
  kind := .outgoing [OsString.ofString "/f"] [0]
  reaction := .start (.lookup
    { ident := "b", timestamp := 0, readableName := "", useCompression := false })
  record := ⟨_, ⟨rfl, rfl⟩, rfl, rfl, rfl⟩
  reacts := .start _ rfl rfl

/-- The request is announced before the peer starts it. -/
def announcedFirst : List (DuoLabel Answer TokenId) :=
  [.left (.reply (.ok ())), .left (.go 0), .right (.go 0), .right (.go 0)]

theorem kept_iff_announcedFirst :
    (∀ pre post s, announcedFirst = pre ++ post →
        (announcing earlyStart.worker).exec earlyStart.start pre = some s → Kept earlyStart s) ↔
      (announcing earlyStart.worker).Along AnnouncesFirst earlyStart.start announcedFirst := by
  obtain ⟨s', hrun⟩ : ∃ s', (announcing earlyStart.worker).exec earlyStart.start announcedFirst
      = some s' := ⟨_, rfl⟩
  exact kept_iff_announcesFirst earlyStart hrun

/-- The peer has started the transfer, which then waits for permission again. -/
theorem started_then_waiting :
    ∃ s s', (announcing earlyStart.worker).exec earlyStart.start [.right (.go 0), .right (.go 0)]
        = some s ∧
      s.right.answered = true ∧ s.shared.stateOf "b" "out" = some .inProgress ∧
      (announcing earlyStart.worker).exec s [.left (.reply (.ok ())), .left (.go 0)] = some s' ∧
      ¬ Kept earlyStart s' := by
  refine ⟨_, _, rfl, rfl, by decide, rfl, fun hkept => hkept rfl ?_⟩
  decide

end Warpinator
