import Warpinator.Server.Requests
import Warpinator.Server.TokenOwners

/-! # Finished Transfers

    A stop of the peer may cross with the end of the transfer, or come twice.
    `stop_transfer` does not look at the state: it cancels the token of the
    transfer and writes a state that depends on the kind and the error flag.

    `late_stop_iff` says when the transfers that are finished stay as they are:
    step by step in every run, and for a whole call from every reachable
    state. -/

namespace Warpinator

open WarpServer

/-! ## Section 1: What is to be kept -/

/-- `Completed`, `Stopped`, `Canceled`, `Denied` or `Failed`. -/
def TransferState.isFinished : TransferState → Bool
  | .completed | .stopped | .canceled | .denied | .failed _ => true
  | .initializing | .waitingPermission | .inProgress | .paused => false

/-- Every finished transfer has kept its state and its token, and the token is
    cancelled only if it was. -/
structure Host.KeepsFinished (before after : Host) : Prop where
  records : ∀ k u t, before.transfer k u = some t → t.state.isFinished = true →
    ∃ t', after.transfer k u = some t' ∧ t'.state = t.state ∧ t'.kind.token = t.kind.token
  tokens : ∀ k u t token, before.transfer k u = some t → t.state.isFinished = true →
    t.kind.token = some token →
    after.tokens.isCancelled token = before.tokens.isCancelled token

/-- The transfer that the request names is not finished, or a stop leaves nothing
    to do. -/
def Host.StopSpares (host : Host) (req : StopInfo) : Prop :=
  ∀ info t, req.info = some info →
    host.transferByProtocolId info.ident info.timestamp = some t → t.state.isFinished = true →
    t.state = stopState t.kind req.error ∧
      ∀ token, t.kind.token = some token → host.tokens.isCancelled token = true

/-! ## Section 2: The two writes of a stop -/

section writes

variable {host : Host}

theorem keepsFinished_refl (host : Host) : host.KeepsFinished host :=
  ⟨fun _ _ t ht _ => ⟨t, ht, rfl, rfl⟩, fun _ _ _ _ _ _ _ => rfl⟩

/-- The state of a finished transfer stays. -/
theorem Host.KeepsFinished.stateOf {after : Host} (h : host.KeepsFinished after) {k u : String}
    {s : TransferState} (hstate : host.stateOf k u = some s) (hfinished : s.isFinished = true) :
    after.stateOf k u = some s := by
  obtain ⟨t, ht, rfl⟩ := Option.map_eq_some_iff.1 hstate
  obtain ⟨t', ht', hsame, _⟩ := h.records k u t ht hfinished
  rw [Host.stateOf, ht', Option.map_some, hsame]

/-- The update keeps the finished transfers exactly if it has nothing to change of
    the one that it writes. -/
theorem keepsFinished_update_iff (queued : Nat) (k u : String) (s : TransferState) :
    host.KeepsFinished (host.updateTransfer queued k u (.setState s)).2 ↔
      ∀ t, host.transfer k u = some t → t.state.isFinished = true → t.state = s := by
  constructor
  · intro h t ht hfinished
    obtain ⟨t', ht', hstate, _⟩ := h.records k u t ht hfinished
    rw [Host.transfer_updateTransfer, if_pos ⟨rfl, rfl⟩, ht] at ht'
    obtain rfl := Option.some.inj ht'
    exact hstate.symm
  · intro h
    refine ⟨fun k' u' t ht hfinished => ?_, fun _ _ _ _ _ _ _ => rfl⟩
    rw [Host.transfer_updateTransfer]
    by_cases hku : k' = k ∧ u' = u
    · obtain ⟨rfl, rfl⟩ := hku
      rw [if_pos ⟨rfl, rfl⟩, ht]
      exact ⟨_, rfl, (h t ht hfinished).symm, rfl⟩
    · rw [if_neg hku]
      exact ⟨t, ht, rfl, rfl⟩

/-- What is kept depends on the records and the tokens only. -/
theorem keepsFinished_split {after : Host} :
    host.KeepsFinished after ↔
      host.KeepsFinished { after with tokens := host.tokens } ∧
        host.KeepsFinished { host with tokens := after.tokens } := by
  constructor
  · intro h
    exact ⟨⟨h.records, fun _ _ _ _ _ _ _ => rfl⟩,
      ⟨fun _ _ t ht _ => ⟨t, ht, rfl, rfl⟩, h.tokens⟩⟩
  · rintro ⟨hrecords, htokens⟩
    exact ⟨hrecords.records, htokens.tokens⟩

theorem owns_of_transfer {i : Instance} {k u : String} {t : Transfer} {token : TokenId}
    (ht : i.host.transfer k u = some t) (htoken : t.kind.token = some token) :
    i.Owns k u token := by
  obtain ⟨r, hr, hfind⟩ := Option.bind_eq_some_iff.1 ht
  exact ⟨r, t, hr, List.mem_of_find?_eq_some hfind, by simpa using List.find?_some hfind, htoken⟩

/-- The cancellation of a token concerns its owner only. -/
theorem keepsFinished_cancel_iff {p : Running} (hp : p.Tokened) {k u : String} {token : TokenId}
    (hknows : p.Knows k u token) :
    p.shared.host.KeepsFinished (p.shared.host.cancel token) ↔
      ∀ t, p.shared.host.transfer k u = some t → t.state.isFinished = true →
        t.kind.token = some token → p.shared.host.tokens.isCancelled token = true := by
  constructor
  · intro h t ht hfinished htoken
    rw [← h.tokens k u t token ht hfinished htoken]
    simp [Host.cancel]
  · intro h
    refine ⟨fun _ _ t ht _ => ⟨t, ht, rfl, rfl⟩, fun k' u' t token' ht hfinished htoken => ?_⟩
    show (p.shared.host.tokens.cancel token).isCancelled token' = _
    rw [isCancelled_cancel]
    cases hbelow : token.isPrefixOf token' with
    | false => rfl
    | true =>
      -- both have two numbers, so they are the same token
      have hknows' : p.Knows k' u' token' := .inl (owns_of_transfer ht htoken)
      obtain ⟨n, c, rfl, _⟩ := hp.issued k u token hknows
      obtain ⟨n', c', rfl, _⟩ := hp.issued k' u' token' hknows'
      obtain ⟨rfl, rfl⟩ : n = n' ∧ c = c' := by simpa [List.isPrefixOf] using hbelow
      obtain ⟨rfl, rfl⟩ := hp.owner k u k' u' _ hknows hknows'
      rw [h t ht hfinished htoken]
      rfl

end writes

/-! ## Section 3: Steps and calls -/

/-- The stop of a peer that takes the step. -/
def Running.stops (p : Running) : RunningLabel → Option StopPc
  | .run j (.call (.go _)) =>
    match p.tasks[j]? with
    | some (.call (.peerStopTransfer pc)) => some pc
    | _ => none
  | _ => none

/-- A step of a stop leaves the finished transfers alone. -/
def StopKeeps (s : Settings) (p : Running) (l : RunningLabel) : Prop :=
  ∀ pc p', p.stops l = some pc → (activities s).poolStep p l = some p' →
    p.shared.host.KeepsFinished p'.shared.host

/-- A stop that is about to cancel a token or to write a state finds the transfer
    not finished, or as it will leave it. -/
def StopFinds (p : Running) (l : RunningLabel) : Prop :=
  match p.stops l with
  | some (.cancel t token _) =>
    ∀ t', p.shared.host.transfer t.remoteUuid t.uuid = some t' → t'.state.isFinished = true →
      t'.kind.token = some token → p.shared.host.tokens.isCancelled token = true
  | some (.update t newState) =>
    ∀ t', p.shared.host.transfer t.remoteUuid t.uuid = some t' → t'.state.isFinished = true →
      t'.state = newState
  | _ => True

theorem stops_cases {p : Running} {l : RunningLabel} {pc : StopPc} (h : p.stops l = some pc) :
    ∃ j queued, l = .run j (.call (.go queued)) ∧
      p.tasks[j]? = some (.call (.peerStopTransfer pc)) := by
  unfold Running.stops at h
  split at h
  · next j queued =>
    split at h
    · next pc' ht =>
      cases h
      exact ⟨j, queued, rfl, ht⟩
    · cases h
  · cases h

/-- A step of a stop, seen from the pool. -/
theorem poolStep_stop {s : Settings} {p p' : Running} {j queued : Nat} {pc : StopPc}
    (ht : p.tasks[j]? = some (.call (.peerStopTransfer pc))) :
    (activities s).poolStep p (.run j (.call (.go queued))) = some p' ↔
      ∃ host pc', stopTransfer p.shared.host pc (.go queued) = some (host, pc') ∧
        p' = { shared := { p.shared with host := host }
               tasks := p.tasks.set j (.call (.peerStopTransfer pc')) ++ [] } := by
  constructor
  · intro h
    obtain ⟨t, i', t', spawned, ht', hstep, rfl⟩ := Tasking.run_cases h
    obtain rfl := Option.some.inj (ht.symm.trans ht')
    obtain ⟨⟨host, task, ts⟩, hcall, heq⟩ := Option.map_eq_some_iff.1 hstep
    obtain ⟨⟨host', pc'⟩, hstop, heq'⟩ := Option.map_eq_some_iff.1 hcall
    cases heq'
    cases heq
    exact ⟨_, pc', hstop, rfl⟩
  · rintro ⟨host, pc', hstop, rfl⟩
    simp [Tasking.poolStep, ht, activities, Activity.step, Task.step, hstop]

theorem stopKeeps_iff {s : Settings} {p : Running} (hp : p.Tokened) (l : RunningLabel) :
    StopKeeps s p l ↔ StopFinds p l := by
  unfold StopKeeps StopFinds
  cases hstops : p.stops l with
  | none => simp
  | some pc =>
    obtain ⟨j, queued, rfl, ht⟩ := stops_cases hstops
    have hview : (∀ pc₁ p', some pc = some pc₁ →
          (activities s).poolStep p (.run j (.call (.go queued))) = some p' →
          p.shared.host.KeepsFinished p'.shared.host) ↔
        ∀ host pc', stopTransfer p.shared.host pc (.go queued) = some (host, pc') →
          p.shared.host.KeepsFinished host := by
      constructor
      · intro h host pc' hstop
        exact h pc _ rfl ((poolStep_stop ht).2 ⟨host, pc', hstop, rfl⟩)
      · intro h pc₁ p' _ hstep
        obtain ⟨host, pc', hstop, rfl⟩ := (poolStep_stop ht).1 hstep
        exact h host pc' hstop
    rw [hview]
    cases pc with
    | lookup req =>
      -- the lookup writes nothing
      refine iff_of_true (fun host pc' hstop => ?_) trivial
      cases stopTransfer_move hstop with
      | refused _ status _ => exact keepsFinished_refl _
      | foundOutgoing _ info transfer token _ _ => exact keepsFinished_refl _
      | foundIncoming _ info transfer _ _ => exact keepsFinished_refl _
    | cancel t token newState =>
      -- the stop carries the token of its transfer, and no other transfer has it
      have hknows : p.Knows t.remoteUuid t.uuid token :=
        .inr ⟨_, List.mem_of_getElem? ht, rfl, rfl, rfl⟩
      refine Iff.trans ?_ (keepsFinished_cancel_iff hp hknows)
      constructor
      · intro h
        exact h _ _ rfl
      · intro h host pc' hstop
        cases hstop
        exact h
    | update t newState =>
      refine Iff.trans ?_ (keepsFinished_update_iff queued t.remoteUuid t.uuid newState)
      constructor
      · intro h
        exact h _ _ rfl
      · intro h host pc' hstop
        cases hstop
        exact h
    | returned result => exact iff_of_true (fun host pc' hstop => by cases hstop) trivial

/-! ### A call on its own -/

/-- Without a token there is nothing to cancel. -/
theorem stopTransfer_incoming {host host' : Host} {req : StopInfo} {t : Transfer}
    {newState : TransferState} {ans : Answer}
    (h : stopTransfer host (.lookup req) ans = some (host', .update t newState)) :
    t.kind.token = none := by
  cases ans with
  | go queued =>
    dsimp only [stopTransfer] at h
    split at h
    · cases h
    · split at h
      · cases h
      · split at h
        · cases h
        · next destination hkind =>
          cases h
          rw [hkind]
          rfl
  | noClient | fresh _ _ | processed _ | reply _ | send _ _ | receive _ _ _ => cases h

theorem cancelToken_of_outgoing {host : Host} {t : Transfer} {sourcePaths : List PathBuf}
    {token : TokenId} (hkind : t.kind = .outgoing sourcePaths token) :
    host.cancelToken t = host.cancel token := by
  simp [Host.cancelToken, hkind, TransferKind.token]

theorem cancelToken_of_none {host : Host} {t : Transfer} (hkind : t.kind.token = none) :
    host.cancelToken t = host := by
  simp [Host.cancelToken, hkind]

section alone

variable {host host' : Host} {result : Except Status Unit} {ls : List Answer}

/-- A call that has returned leaves the host as it is. -/
theorem solo_stop_returned {r : Except Status Unit}
    (hrun : (solo stopTransfer).exec (host, .returned r) ls = some (host', .returned result)) :
    host' = host := by
  cases ls with
  | nil =>
    cases hrun
    rfl
  | cons a ls =>
    obtain ⟨st, hstep, _⟩ := (Machine.exec_cons _).1 hrun
    cases a <;> cases hstep

/-- The update is the last step of a call. -/
theorem solo_stop_update {t : Transfer} {s : TransferState}
    (hrun : (solo stopTransfer).exec (host, .update t s) ls = some (host', .returned result)) :
    ∃ queued, host' = (host.updateTransfer queued t.remoteUuid t.uuid (.setState s)).2 := by
  cases ls with
  | nil => cases hrun
  | cons a ls =>
    obtain ⟨⟨host₁, pc₁⟩, hstep, hrest⟩ := (Machine.exec_cons _).1 hrun
    cases stopTransfer_move hstep with
    | updated _ _ queued => exact ⟨queued, solo_stop_returned hrest⟩

/-- What a call that runs on its own leaves. -/
theorem stop_alone {req : StopInfo}
    (hrun : (solo stopTransfer).exec (host, .lookup req) ls = some (host', .returned result)) :
    (host' = host ∧ ∀ info, req.info = some info →
        host.transferByProtocolId info.ident info.timestamp = none) ∨
      ∃ info t queued, req.info = some info ∧
        host.transferByProtocolId info.ident info.timestamp = some t ∧
        host' = ((host.cancelToken t).updateTransfer queued t.remoteUuid t.uuid
          (.setState (stopState t.kind req.error))).2 := by
  cases ls with
  | nil => cases hrun
  | cons a ls =>
    obtain ⟨⟨host₁, pc₁⟩, hstep, hrest⟩ := (Machine.exec_cons _).1 hrun
    have htoken := @stopTransfer_token host
    cases stopTransfer_move hstep with
    | refused _ status hnone => exact .inl ⟨solo_stop_returned hrest, hnone⟩
    | foundOutgoing _ info t token hinfo hfound =>
      right
      obtain ⟨sourcePaths, hkind⟩ := htoken hstep
      cases ls with
      | nil => cases hrest
      | cons a ls =>
        -- the cancellation stands between the lookup and the update
        obtain ⟨⟨host₂, pc₂⟩, hcancel, hrest⟩ := (Machine.exec_cons _).1 hrest
        cases stopTransfer_move hcancel with
        | cancelled _ _ _ =>
          obtain ⟨queued, rfl⟩ := solo_stop_update hrest
          refine ⟨info, t, queued, hinfo, hfound, ?_⟩
          rw [cancelToken_of_outgoing hkind]
    | foundIncoming _ info t hinfo hfound =>
      right
      obtain ⟨queued, rfl⟩ := solo_stop_update hrest
      refine ⟨info, t, queued, hinfo, hfound, ?_⟩
      rw [cancelToken_of_none (stopTransfer_incoming hstep)]

end alone

/-- What a handler finds under a protocol id is found under its own uuids. -/
theorem transfer_of_found {i : Instance} (hi : i.WellFormed) {k : String} {id : Nat}
    {t : Transfer} (h : i.host.transferByProtocolId k id = some t) :
    i.host.transfer t.remoteUuid t.uuid = some t := by
  obtain ⟨r, hr, hfind⟩ := Option.bind_eq_some_iff.1 h
  have hmem : t ∈ r.transfers := List.mem_of_find?_eq_some hfind
  rw [hi.transfers k r hr t hmem]
  exact Option.bind_eq_some_iff.2 ⟨r, hr, find_key_of_mem (hi.transferUuids k r hr) hmem⟩

/-- The cancellation that a stop makes of the transfer it has found. -/
theorem keepsFinished_cancelToken_iff {p : Running} (hp : p.Tokened) {t : Transfer}
    (ht : p.shared.host.transfer t.remoteUuid t.uuid = some t) :
    p.shared.host.KeepsFinished (p.shared.host.cancelToken t) ↔
      (t.state.isFinished = true →
        ∀ token, t.kind.token = some token → p.shared.host.tokens.isCancelled token = true) := by
  cases htoken : t.kind.token with
  | none =>
    rw [cancelToken_of_none htoken]
    exact iff_of_true (keepsFinished_refl _) fun _ _ h => by cases h
  | some token =>
    have hcancel : p.shared.host.cancelToken t = p.shared.host.cancel token := by
      simp [Host.cancelToken, htoken]
    rw [hcancel, keepsFinished_cancel_iff hp (.inl (owns_of_transfer ht htoken))]
    constructor
    · intro h hfinished token' htoken'
      obtain rfl := Option.some.inj htoken'
      exact h t ht hfinished htoken
    · intro h t' ht' hfinished _
      obtain rfl := Option.some.inj (ht.symm.trans ht')
      exact h hfinished token rfl

/-- A call that runs on its own keeps the finished transfers exactly if it finds
    none of them, or one with nothing to do. -/
theorem keepsFinished_alone_iff {p : Running} (hp : p.Sound) (htokens : p.Tokened) {host' : Host}
    {req : StopInfo} {result : Except Status Unit} {ls : List Answer}
    (hrun : (solo stopTransfer).exec (p.shared.host, .lookup req) ls
      = some (host', .returned result)) :
    p.shared.host.KeepsFinished host' ↔ p.shared.host.StopSpares req := by
  rcases stop_alone hrun with ⟨rfl, hnone⟩ | ⟨info, t, queued, hinfo, hfound, rfl⟩
  · -- a call that finds nothing writes nothing
    refine iff_of_true (keepsFinished_refl _) fun info t hinfo hfound => ?_
    rw [hnone info hinfo] at hfound
    cases hfound
  have ht := transfer_of_found hp.wellFormed hfound
  -- the update and the cancellation, each on its own
  have hupdate : { ((p.shared.host.cancelToken t).updateTransfer queued t.remoteUuid t.uuid
        (.setState (stopState t.kind req.error))).2 with tokens := p.shared.host.tokens }
      = (p.shared.host.updateTransfer queued t.remoteUuid t.uuid
        (.setState (stopState t.kind req.error))).2 := by
    unfold Host.cancelToken
    split <;> rfl
  have hcancel : { p.shared.host with tokens :=
        ((p.shared.host.cancelToken t).updateTransfer queued t.remoteUuid t.uuid
          (.setState (stopState t.kind req.error))).2.tokens } = p.shared.host.cancelToken t := by
    unfold Host.cancelToken
    split <;> rfl
  rw [keepsFinished_split, hupdate, hcancel, keepsFinished_update_iff,
    keepsFinished_cancelToken_iff htokens ht]
  constructor
  · rintro ⟨hstate, htoken⟩ info' t' hinfo' hfound' hfinished
    obtain rfl := Option.some.inj (hinfo.symm.trans hinfo')
    obtain rfl := Option.some.inj (hfound.symm.trans hfound')
    exact ⟨hstate t ht hfinished, htoken hfinished⟩
  · intro h
    refine ⟨fun t' ht' hfinished => ?_, fun hfinished => (h info t hinfo hfound hfinished).2⟩
    obtain rfl := Option.some.inj (ht.symm.trans ht')
    exact (h info t hinfo hfound hfinished).1

/-- Stops leave the finished transfers alone exactly as long as they find nothing to
    do: step by step along every run, and over a whole call from every state
    that a run reaches. -/
theorem late_stop_iff {s : Settings} {checks : Bool} {ls : List RunningLabel} {p : Running}
    (hrun : (activities s).pool.exec (Running.new checks) ls = some p) :
    ((activities s).pool.Along (StopKeeps s) (Running.new checks) ls ↔
      (activities s).pool.Along StopFinds (Running.new checks) ls) ∧
    ∀ req answers host' result,
      (solo stopTransfer).exec (p.shared.host, .lookup req) answers
        = some (host', .returned result) →
      (p.shared.host.KeepsFinished host' ↔ p.shared.host.StopSpares req) := by
  obtain ⟨hsound, htokened⟩ := tokened_of_reachable hrun
  constructor
  · exact Machine.along_congr_invariant (activities s).pool
      (I := fun p : Running => Running.Sound p ∧ Running.Tokened p)
      (fun _ _ _ hI hstep => ⟨sound_step hI.1 hstep, tokened_step hI.1 hI.2 hstep⟩)
      (fun _ l hI => stopKeeps_iff hI.2 l) ⟨sound_new checks, tokened_new checks⟩ ls
  · intro req answers host' result halone
    exact keepsFinished_alone_iff hsound htokened halone

/-- A transfer to `b` is announced. -/
def announcedRun : List RunningLabel :=
  [.enter (.admission (.register (.lookup registrationOfB))),
    .run 0 (.admission .go), .run 0 (.admission .go), .run 0 (.admission .go),
    .enter (.getWorker "b" (.sendTransferRequest [])),
    .run 1 (.call (.go 0)), .run 1 (.call (.fresh ⟨0, 1⟩ 0)), .run 1 (.call (.go 0)),
    .run 1 (.call (.processed (.ok ⟨0, 0, [], none, none⟩))), .run 1 (.call (.reply (.ok ()))),
    .run 1 (.call (.go 0))]

/-- How `b` names the transfer. -/
def announcedToB : OpInfo := ⟨"b", 1, "", false⟩

/-- The transfer is started and completed. -/
def completedRun : List RunningLabel :=
  announcedRun ++ [.enter (.call (.startTransfer (.lookup announcedToB))),
    .run 2 (.call (.go 0)), .run 2 (.call (.go 0)),
    .run 3 (.call (.go 0)), .run 3 (.call (.go 0))]

/-- The peer stops the transfer. -/
def stopOfB : StopInfo := ⟨some announcedToB, false⟩

/-- A stop that crosses with the end of the transfer. -/
def crossingStop : List RunningLabel :=
  completedRun ++ [.enter (.call (.peerStopTransfer (.lookup stopOfB))), .run 4 (.call (.go 0)),
    .run 4 (.call (.go 0)), .run 4 (.call (.go 0))]

/-- A second stop has nothing to do. -/
theorem second_stop_keeps :
    ∃ p host', (activities settingsOfA).pool.exec (Running.new false) crossingStop = some p ∧
      (solo stopTransfer).exec (p.shared.host, .lookup stopOfB) [.go 0, .go 0, .go 0]
        = some (host', .returned (.ok ())) ∧ p.shared.host.KeepsFinished host' := by
  have hexec : ∃ p host',
      (activities settingsOfA).pool.exec (Running.new false) crossingStop = some p ∧
      (solo stopTransfer).exec (p.shared.host, .lookup stopOfB) [.go 0, .go 0, .go 0]
        = some (host', .returned (.ok ())) ∧
      (p.shared.host.transferByProtocolId "b" 1).map
        (fun t => (t.state, stopState t.kind false, t.kind.token))
          = some (.stopped, .stopped, some [0, 0]) ∧
      p.shared.host.tokens.isCancelled [0, 0] = true := ⟨_, _, rfl, rfl, rfl, rfl⟩
  obtain ⟨p, host', hrun, halone, hshown, hcancelled⟩ := hexec
  refine ⟨p, host', hrun, halone, ((late_stop_iff hrun).2 _ _ _ _ halone).2 ?_⟩
  intro info t hinfo hfound _
  obtain rfl := Option.some.inj hinfo
  rw [show p.shared.host.transferByProtocolId "b" 1 = some t from hfound] at hshown
  obtain ⟨hstate, hrest⟩ := Prod.mk.inj (Option.some.inj hshown)
  obtain ⟨hstop, htoken⟩ := Prod.mk.inj hrest
  refine ⟨hstate.trans hstop.symm, fun token htoken' => ?_⟩
  obtain rfl := Option.some.inj (htoken.symm.trans htoken')
  exact hcancelled

/-- A completed transfer becomes stopped, and its token is cancelled. -/
theorem late_stop_rewrites :
    ∃ p host', (activities settingsOfA).pool.exec (Running.new false) completedRun = some p ∧
      p.shared.host.stateOf "b" (Uuid.toString ⟨0, 1⟩) = some .completed ∧
      (solo stopTransfer).exec (p.shared.host, .lookup stopOfB) [.go 0, .go 0, .go 0]
        = some (host', .returned (.ok ())) ∧
      host'.stateOf "b" (Uuid.toString ⟨0, 1⟩) = some .stopped ∧
      p.shared.host.tokens.isCancelled [0, 0] = false ∧ host'.tokens.isCancelled [0, 0] = true ∧
      ¬ p.shared.host.KeepsFinished host' := by
  refine ⟨_, _, rfl, rfl, rfl, rfl, rfl, rfl, fun h => ?_⟩
  have hsame := h.stateOf (k := "b") (u := Uuid.toString ⟨0, 1⟩) (s := .completed) rfl rfl
  have hstopped : some TransferState.stopped = some .completed := hsame
  cases hstopped

end Warpinator
