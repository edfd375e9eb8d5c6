import Warpinator.Lib.History
import Warpinator.Negotiation.Consent

/-! # Requests that Fail

    The application's calls on a transfer change the store before and after
    they ask the remote, and the remote may fail to answer.

    * `send_transfer_request` publishes the record first.  `request_settled_iff`
      says that the call leaves a settled transfer exactly if the remote has
      not refused the request.
    * `stop_transfer` and `cancel_transfer` cancel the token first.
      `withdraw_atomic_iff` says when a call that returns an error has left the
      transfer as it was. -/

namespace Warpinator

/-! ## Section 1: What a request leaves behind -/

/-- No call to the remote has failed. -/
def Unrefused (ls : List Answer) : Prop := ∀ status, .reply (.error status) ∉ ls

instance (ls : List Answer) : Decidable (Unrefused ls) :=
  decidable_of_iff (∀ a ∈ ls, (match a with | .reply (.error _) => false | _ => true) = true) <| by
    constructor
    · intro h status hmem
      exact absurd (h _ hmem) (by simp)
    · intro h a ha
      split
      · exact absurd ha (h _)
      · rfl

/-- The added transfer waits for permission with the totals that the paths came
    to, or it has failed. -/
def Settled (host : Host) (k : String) (added : Transfer) (ls : List Answer) :
    Except RemoteWorkerError Unit → Prop
  | .ok _ => ∃ totals, .processed (.ok totals) ∈ ls ∧
      host.transfer k added.uuid = some { added.withTotals totals with state := .waitingPermission }
  | .error _ => ∃ e, host.stateOf k added.uuid = some (.failed e)

theorem unrefused_snoc {ls : List Answer} {a : Answer} :
    Unrefused (ls ++ [a]) ↔ Unrefused ls ∧ ∀ status, a ≠ .reply (.error status) := by
  unfold Unrefused
  constructor
  · intro h
    refine ⟨fun status hmem => h status (by simp [hmem]), fun status ha => h status (by simp [ha])⟩
  · rintro ⟨hls, ha⟩ status hmem
    rcases List.mem_append.1 hmem with hmem | hmem
    · exact hls status hmem
    · exact ha status (List.mem_singleton.1 hmem).symm

namespace Worker

/-- What is known on the way from the creation of a transfer to the end of the
    call. -/
def RequestStage (w : Worker) (added : Transfer) (ls : List Answer) (host : Host) :
    SendRequestPc → Prop
  | .start _ => False
  | .add t => t = added ∧ (host.manager.remotes w.uuid).isSome ∧
      host.transfer w.uuid added.uuid = none ∧ Unrefused ls
  | .process t => t = added ∧ host.transfer w.uuid added.uuid = some added ∧ Unrefused ls
  | .request t _ => (∃ totals, .processed (.ok totals) ∈ ls ∧ t = added.withTotals totals) ∧
      host.transfer w.uuid added.uuid = some added ∧ Unrefused ls
  | .announce t => (∃ totals, .processed (.ok totals) ∈ ls ∧ t = added.withTotals totals) ∧
      host.transfer w.uuid added.uuid = some added ∧ Unrefused ls
  | .abort t _ => t = added ∧ host.transfer w.uuid added.uuid = some added ∧ Unrefused ls
  | .returned result => Settled host w.uuid added ls result ↔ Unrefused ls

section request

variable {w : Worker} {added : Transfer} {ls : List Answer} {host host' : Host} {ans : Answer}
  {pc pc' : SendRequestPc}

/-- The closing update of a call finds a transfer that is there. -/
theorem finish_some {u : String} (h : (host.transfer w.uuid u).isSome) (queued : Nat)
    (f : TransferUpdate) :
    w.finish host queued u f = ((host.updateTransfer queued w.uuid u f).2, .ok ()) := by
  unfold finish
  rw [Host.updateTransfer_some h]

theorem step_requestStage (hinit : added.state = .initializing)
    (hstage : w.RequestStage added ls host pc)
    (h : w.sendTransferRequest host pc ans = some (host', pc')) :
    w.RequestStage added (ls ++ [ans]) host' pc' := by
  have hgo : ∀ queued, Unrefused ls → Unrefused (ls ++ [.go queued]) := fun queued hls =>
    unrefused_snoc.2 ⟨hls, by simp⟩
  have hprocessed : ∀ r, Unrefused ls → Unrefused (ls ++ [.processed r]) := fun r hls =>
    unrefused_snoc.2 ⟨hls, by simp⟩
  unfold sendTransferRequest at h
  split at h
  · exact hstage.elim
  · exact hstage.elim
  · next transfer queued =>
    -- the record is published before anything can fail
    obtain ⟨rfl, hremote, hnone, hls⟩ := hstage
    have hfound := Host.transfer_addTransfer host w.uuid transfer w.uuid transfer.uuid
    rw [if_pos ⟨rfl, hremote, rfl⟩, hnone, Option.none_or] at hfound
    split at h
    · next host₁ heq =>
      cases h
      rw [heq] at hfound
      exact ⟨rfl, hfound, hgo queued hls⟩
    · next e host₁ heq =>
      -- the remote is there
      obtain ⟨r, hr⟩ := Option.isSome_iff_exists.1 hremote
      simp [Host.addTransfer, RemoteManager.addTransfer, hr] at heq
  · next transfer totals =>
    cases h
    obtain ⟨rfl, hfound, hls⟩ := hstage
    exact ⟨⟨totals, by simp, rfl⟩, hfound, hprocessed _ hls⟩
  · next transfer e =>
    cases h
    obtain ⟨rfl, hfound, hls⟩ := hstage
    exact ⟨rfl, hfound, hprocessed _ hls⟩
  · next transfer req u =>
    cases h
    obtain ⟨⟨totals, hmem, rfl⟩, hfound, hls⟩ := hstage
    exact ⟨⟨totals, by simp [hmem], rfl⟩, hfound, unrefused_snoc.2 ⟨hls, by simp⟩⟩
  · next transfer req status =>
    -- the call returns and leaves the record as it has been published
    cases h
    obtain ⟨_, hfound, _⟩ := hstage
    have hsettled : ¬ Settled host w.uuid added (ls ++ [.reply (.error status)])
        (.error (.remoteFailed status)) := by
      rintro ⟨e, he⟩
      simp [Host.stateOf, hfound, hinit] at he
    have hrefused : ¬ Unrefused (ls ++ [.reply (.error status)]) := fun hall =>
      hall status (by simp)
    exact iff_of_false hsettled hrefused
  · next transfer queued =>
    obtain ⟨⟨totals, hmem, rfl⟩, hfound, hls⟩ := hstage
    have hsome : (host.transfer w.uuid (added.withTotals totals).uuid).isSome := by
      rw [show (added.withTotals totals).uuid = added.uuid from rfl, hfound]
      rfl
    -- the update replaces the published record by the one with the totals
    have hfinish := finish_some hsome queued (.announce (added.withTotals totals))
    rw [hfinish] at h
    cases h
    refine iff_of_true ⟨totals, by simp [hmem], ?_⟩ (hgo queued hls)
    rw [Host.transfer_updateTransfer, if_pos ⟨rfl, rfl⟩]
    rw [show (added.withTotals totals).uuid = added.uuid from rfl, hfound]
    rfl
  · next transfer e queued =>
    obtain ⟨rfl, hfound, hls⟩ := hstage
    -- the paths could not be processed: the record is marked as failed before the call returns
    have hfailed : ∀ e', Settled (host.updateTransfer queued w.uuid transfer.uuid
        (.setState (.failed .failedToProcessFiles))).2 w.uuid transfer (ls ++ [.go queued])
        (.error e') := by
      refine fun e' => ⟨.failedToProcessFiles, ?_⟩
      rw [stateOf_updateTransfer, if_pos ⟨rfl, rfl⟩, hfound]
      rfl
    have hsome : (host.transfer w.uuid transfer.uuid).isSome := by rw [hfound]; rfl
    have hfinish := finish_some hsome queued (.setState (.failed .failedToProcessFiles))
    rw [hfinish] at h
    cases h
    exact iff_of_true (hfailed _) (hgo queued hls)
  · cases h

/-- What a call has added, once it has drawn the uuid. -/
def addedTransfer (w : Worker) (host : Host) (sourcePaths : List PathBuf) (id : Uuid) (now : Nat) :
    Transfer :=
  .newOutgoing id now w.uuid sourcePaths (host.childToken w.cancellationToken).1

/-- A call that runs on its own settles the transfer it adds exactly if the
    remote does not refuse the request. -/
theorem request_settled_iff {sourcePaths : List PathBuf} {id : Uuid} {now : Nat}
    {result : Except RemoteWorkerError Unit} (hremote : (host.manager.remotes w.uuid).isSome)
    (hknown : host.Known)
    (hrun : (solo w.sendTransferRequest).exec (host, .start sourcePaths) (.fresh id now :: ls)
      = some (host', .returned result)) :
    Settled host' w.uuid (w.addedTransfer host sourcePaths id now) ls result ↔ Unrefused ls := by
  obtain ⟨⟨host₁, pc₁⟩, hfirst, hrest⟩ := (Machine.exec_cons _).1 hrun
  rw [solo_step] at hfirst
  simp only [sendTransferRequest] at hfirst
  split at hfirst
  · cases hfirst
  · next hid =>
    cases hfirst
    -- a uuid that has not been drawn names no record
    have hnone : host.transfer w.uuid id.toString = none := by
      cases ht : host.transfer w.uuid id.toString with
      | none => rfl
      | some t => exact absurd (hknown w.uuid id.toString (by simp [Host.stateOf, ht])) hid
    have h₀ : w.RequestStage (w.addedTransfer host sourcePaths id now) []
        ((host.childToken w.cancellationToken).2.issue id)
        (.add (w.addedTransfer host sourcePaths id now)) :=
      ⟨rfl, hremote, hnone, fun _ => List.not_mem_nil⟩
    exact Machine.exec_history (m := solo w.sendTransferRequest)
      (H := fun ls st => w.RequestStage (w.addedTransfer host sourcePaths id now) ls st.1 st.2) h₀
      (fun ls st ans st' _ hstage hstep => step_requestStage rfl hstage hstep) hrest

end request

end Worker

/-- The worker for the remote `b`. -/
def requestWorker : Worker where
  uuid := "b"
  serverFullname := "a"
  cancellationToken := []

/-- A host that knows `b`, with one earlier transfer. -/
def requestHost (state : TransferState) (kind : TransferKind) : Host :=
  Host.single "b" (.bare "t" "b" state kind)

def emptyTotals : Totals where
  totalBytes := 0
  fileCount := 0
  entryNames := []
  singleName := none
  singleMimeType := none

/-- The answers up to the one of the remote. -/
def requestAnswers (reply : Except Status Unit) : List Answer :=
  [.go 0, .processed (.ok emptyTotals), .reply reply]

theorem known_requestHost (state : TransferState) (kind : TransferKind) :
    (requestHost state kind).Known := by
  intro k u hsome
  simp only [requestHost, Host.single, Host.stateOf, Host.transfer, RemoteManager.transfer]
    at hsome ⊢
  by_cases hk : k = "b"
  · by_cases hu : "t" = u
    · simp [Transfer.bare, hu]
    · simp [hk, hu, Transfer.bare] at hsome
  · simp [hk] at hsome

namespace Worker

theorem request_settled_answered :
    ∃ host', (solo requestWorker.sendTransferRequest).exec
        (requestHost .completed (.incoming []), .start [])
        (.fresh ⟨0, 0⟩ 0 :: (requestAnswers (.ok ()) ++ [.go 0]))
          = some (host', .returned (.ok ())) ∧
      Settled host' "b"
        (requestWorker.addedTransfer (requestHost .completed (.incoming [])) [] ⟨0, 0⟩ 0)
        (requestAnswers (.ok ()) ++ [.go 0]) (.ok ()) := by
  refine ⟨_, rfl, ?_⟩
  exact (request_settled_iff (w := requestWorker) rfl (known_requestHost _ _) rfl).2 (by decide)

/-- The remote cannot be reached any more, and the transfer stays as it has
    been published. -/
theorem refused_request_strands :
    ∃ host' e, (solo requestWorker.sendTransferRequest).exec
        (requestHost .completed (.incoming []), .start [])
        (.fresh ⟨0, 0⟩ 0 :: requestAnswers (.error ⟨.unavailable, ""⟩))
          = some (host', .returned (.error e)) ∧
      host'.stateOf "b" (Uuid.toString ⟨0, 0⟩) = some .initializing :=
  ⟨_, _, rfl, by decide⟩

end Worker

/-! ## Section 2: Taking a transfer back -/

/-- The record is as it was, and the token of an outgoing transfer is cancelled
    only if it was. -/
structure LeftAlone (before after : Host) (k u : String) (t : Transfer) : Prop where
  record : after.transfer k u = some t
  token : ∀ token, t.kind.token = some token →
    after.tokens.isCancelled token = before.tokens.isCancelled token

/-- The call fails before it does anything, or there is no token that it could
    cancel. -/
def SparesToken (host : Host) (t : Transfer) (ls : List Answer) : Prop :=
  .noClient ∈ ls ∨ ∀ token, t.kind.token = some token → host.tokens.isCancelled token = true

/-- The host after a call has cancelled the token of a transfer. -/
def Host.cancelToken (host : Host) (t : Transfer) : Host :=
  match t.kind.token with
  | some token => host.cancel token
  | none => host

@[simp] theorem transfer_cancelToken (host : Host) (t : Transfer) (k u : String) :
    (host.cancelToken t).transfer k u = host.transfer k u := by
  unfold Host.cancelToken
  split <;> rfl

theorem isCancelled_cancelToken (host : Host) {t : Transfer} {token : TokenId}
    (h : t.kind.token = some token) : (host.cancelToken t).tokens.isCancelled token = true := by
  unfold Host.cancelToken
  rw [h]
  simp [Host.cancel]

theorem leftAlone_cancelToken_iff {host : Host} {k u : String} {t : Transfer}
    (ht : host.transfer k u = some t) :
    LeftAlone host (host.cancelToken t) k u t ↔
      ∀ token, t.kind.token = some token → host.tokens.isCancelled token = true := by
  constructor
  · intro h token htoken
    rw [← h.token token htoken]
    exact isCancelled_cancelToken host htoken
  · intro h
    refine ⟨by rw [transfer_cancelToken, ht], fun token htoken => ?_⟩
    rw [h token htoken, isCancelled_cancelToken host htoken]

namespace Worker

/-- What is known on the way from the lookup of a transfer to the end of the
    call. -/
def WithdrawStage {μ : Type} (before : Host) (u : String) (t : Transfer) (ls : List Answer)
    (host : Host) : WithdrawPc μ → Prop
  | .lookup u' => u' = u ∧ host = before ∧ .noClient ∉ ls
  | .cancel u' token _ _ => u' = u ∧ host = before ∧ t.kind.token = some token ∧ .noClient ∉ ls
  | .request u' _ _ => u' = u ∧ host = before.cancelToken t ∧ .noClient ∉ ls
  | .update u' _ => u' = u ∧ host = before.cancelToken t ∧ .noClient ∉ ls
  | .returned (.ok _) => True
  | .returned (.error _) => host = before ∧ .noClient ∈ ls ∨
      host = before.cancelToken t ∧ .noClient ∉ ls

section withdraw

variable {μ : Type} {w : Worker} {message : OpInfo → μ} {newState : TransferKind → TransferState}
  {before host host' : Host} {u : String} {t : Transfer} {ls : List Answer} {ans : Answer}
  {pc pc' : WithdrawPc μ}

theorem step_withdrawStage (ht : before.transfer w.uuid u = some t)
    (hstage : WithdrawStage before u t ls host pc)
    (h : w.withdraw message newState host pc ans = some (host', pc')) :
    WithdrawStage before u t (ls ++ [ans]) host' pc' := by
  unfold withdraw at h
  split at h
  · -- without a client nothing has been touched
    cases h
    obtain ⟨_, rfl, _⟩ := hstage
    exact .inl ⟨rfl, by simp⟩
  · obtain ⟨rfl, rfl, hls⟩ := hstage
    rw [ht] at h
    dsimp only at h
    split at h
    · next paths token hkind =>
      cases h
      refine ⟨rfl, rfl, ?_, by simp [hls]⟩
      rw [hkind]
      rfl
    · next destination hkind =>
      -- an incoming transfer has no token to cancel
      cases h
      refine ⟨rfl, ?_, by simp [hls]⟩
      unfold Host.cancelToken
      rw [hkind]
      rfl
  · cases h
    obtain ⟨rfl, rfl, htoken, hls⟩ := hstage
    refine ⟨rfl, ?_, by simp [hls]⟩
    unfold Host.cancelToken
    rw [htoken]
  · cases h
    obtain ⟨rfl, rfl, hls⟩ := hstage
    exact ⟨rfl, rfl, by simp [hls]⟩
  · -- the remote refuses after the token has been cancelled
    cases h
    obtain ⟨_, rfl, hls⟩ := hstage
    exact .inr ⟨rfl, by simp [hls]⟩
  · next u' s queued =>
    obtain ⟨rfl, rfl, hls⟩ := hstage
    have hsome : ((before.cancelToken t).transfer w.uuid u').isSome := by
      rw [transfer_cancelToken, ht]
      rfl
    -- the closing update finds the record, so that the call returns `Ok`
    rw [finish_some hsome] at h
    cases h
    trivial
  · cases h

/-- A call on its own that returns an error. -/
theorem withdraw_failed {e : RemoteWorkerError} (ht : host.transfer w.uuid u = some t)
    (hrun : (solo (w.withdraw message newState)).exec (host, .lookup u) ls
      = some (host', .returned (.error e))) :
    LeftAlone host host' w.uuid u t ↔ SparesToken host t ls := by
  have h₀ : WithdrawStage host u t [] host (.lookup u : WithdrawPc μ) :=
    ⟨rfl, rfl, List.not_mem_nil⟩
  have hstage := Machine.exec_history (m := solo (w.withdraw message newState))
    (H := fun ls st => WithdrawStage host u t ls st.1 st.2) h₀
    (fun ls st ans st' _ hstage hstep => step_withdrawStage ht hstage hstep) hrun
  rcases hstage with ⟨rfl, hclient⟩ | ⟨rfl, hclient⟩
  · exact iff_of_true ⟨ht, fun _ _ => rfl⟩ (.inl hclient)
  · rw [leftAlone_cancelToken_iff ht]
    unfold SparesToken
    rw [or_iff_right hclient]

/-- When a call of `stop_transfer` or of `cancel_transfer` that returns an error
    has left the transfer alone. -/
theorem withdraw_atomic_iff (w : Worker) (host : Host) (u : String) (t : Transfer)
    (ht : host.transfer w.uuid u = some t) :
    (∀ error ls host' e, (solo (w.stopTransfer error)).exec (host, .lookup u) ls
        = some (host', .returned (.error e)) →
      (LeftAlone host host' w.uuid u t ↔ SparesToken host t ls)) ∧
    ∀ ls host' e, (solo w.cancelTransfer).exec (host, .lookup u) ls
        = some (host', .returned (.error e)) →
      (LeftAlone host host' w.uuid u t ↔ SparesToken host t ls) :=
  ⟨fun _ _ _ _ hrun => withdraw_failed ht hrun, fun _ _ _ hrun => withdraw_failed ht hrun⟩

end withdraw

/-- The peer does not answer that an incoming transfer is stopped. -/
theorem withdraw_atomic_incoming :
    ∃ host' e, (solo (requestWorker.stopTransfer false)).exec
        (requestHost .inProgress (.incoming []), .lookup "t")
        [.go 0, .reply (.error ⟨.unavailable, ""⟩)] = some (host', .returned (.error e)) ∧
      LeftAlone (requestHost .inProgress (.incoming [])) host' "b" "t"
        (.bare "t" "b" .inProgress (.incoming [])) := by
  refine ⟨_, _, rfl, ?_⟩
  have hiff := (withdraw_atomic_iff requestWorker (requestHost .inProgress (.incoming [])) "t" _
    rfl).1 false [.go 0, .reply (.error ⟨.unavailable, ""⟩)] _ _ rfl
  refine hiff.2 (.inr ?_)
  intro token htoken
  cases htoken

/-- A pending transfer that could not be cancelled: it still waits for permission,
    with a token that is cancelled for good. -/
theorem failed_cancel_cancels_token :
    ∃ host' e, (solo requestWorker.cancelTransfer).exec
        (requestHost .waitingPermission (.outgoing [] [0]), .lookup "t")
        [.go 0, .go 0, .reply (.error ⟨.unavailable, ""⟩)] = some (host', .returned (.error e)) ∧
      (requestHost .waitingPermission (.outgoing [] [0])).tokens.isCancelled [0] = false ∧
      host'.tokens.isCancelled [0] = true ∧ host'.stateOf "b" "t" = some .waitingPermission :=
  ⟨_, _, rfl, by decide, by decide, by decide⟩

end Worker

end Warpinator
