import Warpinator.Server.Isolation
import Warpinator.Server.Telling

/-! # What Changes a State

    The state of a transfer changes in two ways: an activity makes the update
    that it is about to make, or a new transfer is stored.  Everything else
    leaves the states alone or takes a transfer away (`stateOf_step`).

    A transfer that has been stored once is not stored again (`pending_step`). -/

namespace Warpinator

/-! ## Section 1: Calls -/

/-- The remote and the protocol id of the transfer that the next step of an
    activity adds. -/
def Activity.addition : Activity → Option (String × Nat)
  | .call (.processTransferOpRequest (.add req)) =>
    req.info.map fun info => (info.ident, info.timestamp)
  | .call (.sendTransferRequest w (.add t)) => some (w.uuid, t.protocolId)
  | _ => none

/-- What a step of a call does to the transfers. -/
inductive StoreEffect (host : Host) (a : Activity) (host' : Host) : Prop
  | same : host'.manager = host.manager → StoreEffect host a host'
  | progress (queued : Nat) (k u : String) (before after : List Progress) :
      host'.manager = (host.recordProgress queued k u before after).manager →
      StoreEffect host a host'
  | update (queued : Nat) (k u : String) (f : TransferUpdate) : a.updates = some (k, u, f) →
      host'.manager = (host.updateTransfer queued k u f).2.manager → StoreEffect host a host'
  | add (k : String) (t : Transfer) : host'.manager = (host.addTransfer k t).2.manager →
      a.addition = some (k, t.protocolId) →
      a.pending = some (k, t.uuid) ∨ t.uuid ∉ host.uuids → StoreEffect host a host'

section calls

variable {host host' : Host} {ans : Answer}

theorem process_effect {pc pc' : WarpServer.ProcessPc}
    (h : WarpServer.processTransferOpRequest host pc ans = some (host', pc')) :
    StoreEffect host (.call (.processTransferOpRequest pc)) host' := by
  cases WarpServer.processTransferOpRequest_move h with
  | refused req status => exact .same rfl
  | added req info id now result hid =>
    obtain ⟨-, hsame | ⟨info', hinfo, id', now', heq⟩⟩ := processTransferOpRequest_ident h
    · exact .same (congrArg Host.manager hsame)
    · have huuids : id.toString :: host.uuids = id'.toString :: host.uuids :=
        congrArg Host.uuids heq
      obtain ⟨hid', -⟩ := List.cons.inj huuids
      have hmanager := congrArg Host.manager heq
      refine .add info'.ident (.ofRequest id' now' info' req) hmanager ?_ (.inr ?_)
      · have hsome : req.info = some info' := hinfo
        simp [Activity.addition, hsome, Transfer.ofRequest]
      · show id'.toString ∉ host.uuids
        rw [← hid']
        exact hid

theorem withdraw_effect {μ : Type} {w : Worker} {message : OpInfo → μ}
    {newState : TransferKind → TransferState} {pc pc' : Worker.WithdrawPc μ} {a : Activity}
    (h : Worker.WithdrawMove w message newState host pc ans host' pc')
    (hupdates : ∀ u s, pc = .update u s → a.updates = some (w.uuid, u, .setState s)) :
    StoreEffect host a host' := by
  cases h with
  | refused u ans e => exact .same rfl
  | foundOutgoing u queued transfer token _ => exact .same rfl
  | foundIncoming u queued transfer _ => exact .same rfl
  | cancelled u queued token s req => exact .same rfl
  | answered u s req => exact .same rfl
  | denied u s req status => exact .same rfl
  | updated u s queued _ => exact .update queued _ _ _ (hupdates u s rfl) rfl
  | lost u s queued e _ => exact .same rfl

theorem sendRequest_effect {w : Worker} {pc pc' : Worker.SendRequestPc}
    (h : Worker.SendRequestMove w host pc host' pc') :
    StoreEffect host (.call (.sendTransferRequest w pc)) host' := by
  cases h with
  | refused sourcePaths => exact .same rfl
  | created sourcePaths id now token _ => exact .same rfl
  | added transfer => exact .add w.uuid transfer rfl rfl (.inl rfl)
  | notAdded transfer e => exact .add w.uuid transfer rfl rfl (.inl rfl)
  | processed transfer totals req => exact .same rfl
  | notProcessed transfer e => exact .same rfl
  | answered transfer req => exact .same rfl
  | failed transfer req e => exact .same rfl
  | announced transfer queued _ => exact .update queued _ _ _ rfl rfl
  | lost transfer e _ => exact .same rfl
  | aborted transfer e queued e' => exact .update queued _ _ _ rfl rfl

theorem sendStream_effect {task task' : SendTask} (h : SendTaskMove host task ans host' task') :
    StoreEffect host (.call (.sendStream task)) host' := by
  cases h with
  | inner l queued sender _ _ _ => exact .progress queued _ _ _ _ rfl
  | decide queued result _ _ => exact .same rfl
  | close queued finalState hphase =>
    exact .update queued _ _ _ (by simp [Activity.updates, hphase]) rfl
  | leave queued _ => exact .same rfl

theorem receiveStream_effect {task task' : ReceiveTask}
    (h : ReceiveTaskMove host task ans host' task') :
    StoreEffect host (.call (.receiveStream task)) host' := by
  cases h with
  | again event fault queued r _ _ _ => exact .progress queued _ _ _ _ rfl
  | leave event fault queued result r _ _ _ => exact .same rfl
  | panic event fault queued r _ _ _ => exact .same rfl
  | close queued finalState hphase =>
    exact .update queued _ _ _ (by simp [Activity.updates, hphase]) rfl

theorem call_effect {t t' : Task} {spawned : List Task}
    (h : t.step host ans = some (host', t', spawned)) : StoreEffect host (.call t) host' := by
  cases task_move h with
  | processTransferOpRequest pc pc₁ hstep =>
    exact process_effect hstep
  | startTransfer pc pc₁ hstep =>
    cases WarpServer.startTransfer_move hstep with
    | refused req status _ => exact .same rfl
    | found req transfer sourcePaths token _ => exact .same rfl
    | lost transfer sourcePaths token status _ => exact .same rfl
    | started transfer sourcePaths token queued sources _ => exact .update queued _ _ _ rfl rfl
  | peerStopTransfer pc pc₁ hstep =>
    cases WarpServer.stopTransfer_move hstep with
    | refused req status _ => exact .same rfl
    | foundOutgoing req info transfer token _ _ => exact .same rfl
    | foundIncoming req info transfer _ _ => exact .same rfl
    | cancelled transfer token newState => exact .same rfl
    | updated transfer newState queued => exact .update queued _ _ _ rfl rfl
  | cancelTransferOpRequest pc pc₁ hstep =>
    cases WarpServer.cancelTransferOpRequest_move hstep with
    | refused req status _ => exact .same rfl
    | found req transfer _ _ => exact .same rfl
    | updated transfer newState queued => exact .update queued _ _ _ rfl rfl
  | sendTransferRequest w pc pc₁ hstep =>
    exact sendRequest_effect (Worker.sendTransferRequest_move hstep)
  | acceptTransfer w pc pc₁ hstep =>
    cases Worker.acceptTransfer_move hstep with
    | refused u destination ans e => exact .same rfl
    | found u destination queued transfer _ => exact .same rfl
    | answered u destination req => exact .same rfl
    | denied u destination req status => exact .same rfl
    | lost u destination queued e _ => exact .same rfl
    | accepted u destination queued token disk _ => exact .update queued _ _ _ rfl rfl
  | stopTransfer w error pc pc₁ hstep =>
    refine withdraw_effect (Worker.withdraw_move hstep) fun u s hpc => ?_
    rw [hpc]
    rfl
  | cancelTransfer w pc pc₁ hstep =>
    refine withdraw_effect (Worker.withdraw_move hstep) fun u s hpc => ?_
    rw [hpc]
    rfl
  | sendStream task task₁ hstep => exact sendStream_effect (SendTask.step_move hstep)
  | receiveStream task task₁ hstep => exact receiveStream_effect (ReceiveTask.step_move hstep)

/-! ## Section 2: States -/

/-- What a step of an activity does to the states of the transfers. -/
inductive StateEffect (host : Host) (a : Activity) (host' : Host) : Prop
  | still : (∀ k u, host'.stateOf k u = host.stateOf k u) → StateEffect host a host'
  | update (queued : Nat) (k u : String) (f : TransferUpdate) : a.updates = some (k, u, f) →
      host'.manager = (host.updateTransfer queued k u f).2.manager → StateEffect host a host'
  | add (k : String) (t : Transfer) : host'.manager = (host.addTransfer k t).2.manager →
      a.pending = some (k, t.uuid) ∨ t.uuid ∉ host.uuids → StateEffect host a host'

theorem stateOf_of_manager {host₁ : Host} (h : host'.manager = host₁.manager) (k u : String) :
    host'.stateOf k u = host₁.stateOf k u := by
  unfold Host.stateOf Host.transfer
  rw [h]

theorem call_states {t t' : Task} {spawned : List Task}
    (h : t.step host ans = some (host', t', spawned)) : StateEffect host (.call t) host' := by
  cases call_effect h with
  | same hmanager => exact .still (stateOf_of_manager hmanager)
  | progress queued k' u' before after hmanager =>
    refine .still fun k u => ?_
    rw [stateOf_of_manager hmanager]
    exact recordProgress_stateOf _ _ _ _ _ _ k u
  | update queued k u f hupdates hmanager => exact .update queued k u f hupdates hmanager
  | add k t hmanager _ hnew => exact .add k t hmanager hnew

/-- Where a state comes from. -/
theorem StateEffect.origin {a : Activity} (h : StateEffect host a host') {k u : String}
    {s : TransferState} (hs : host'.stateOf k u = some s) :
    host.stateOf k u = some s ∨
      (∃ f r, a.updates = some (k, u, f) ∧ host.transfer k u = some r ∧ s = (f.apply r).state) ∨
      a.pending = some (k, u) ∨ u ∉ host.uuids := by
  cases h with
  | still hstill =>
    rw [hstill] at hs
    exact .inl hs
  | update queued k' u' f hupdates hmanager =>
    -- the states depend on the manager alone
    have hsame : host'.stateOf k u = (host.updateTransfer queued k' u' f).2.stateOf k u := by
      unfold Host.stateOf Host.transfer
      rw [hmanager]
    rw [hsame, stateOf_updateTransfer] at hs
    by_cases hku : k = k' ∧ u = u'
    · obtain ⟨rfl, rfl⟩ := hku
      rw [if_pos ⟨rfl, rfl⟩] at hs
      obtain ⟨r, hr, rfl⟩ := Option.map_eq_some_iff.1 hs
      exact .inr (.inl ⟨f, r, hupdates, hr, rfl⟩)
    · rw [if_neg hku] at hs
      exact .inl hs
  | add k' t hmanager hnew =>
    have hsame : host'.transfer k u = (host.addTransfer k' t).2.transfer k u := by
      unfold Host.transfer
      rw [hmanager]
    rw [Host.stateOf, hsame, Host.transfer_addTransfer] at hs
    by_cases hku : k = k' ∧ t.uuid = u
    · obtain ⟨rfl, rfl⟩ := hku
      exact .inr (.inr hnew)
    · rw [if_neg fun hcond => hku ⟨hcond.1, hcond.2.2⟩] at hs
      exact .inl hs

end calls

/-! ## Section 3: Every step -/

section steps

variable {i i' : Instance}

theorem stateOf_of_content {m m' : RemoteManager}
    (h : ∀ k, (m'.remote k).map Remote.transfers = (m.remote k).map Remote.transfers)
    {k u : String} :
    (m'.transfer k u).map Transfer.state = (m.transfer k u).map Transfer.state := by
  rw [RemoteManager.transfer_of_content h]

theorem transfers_of_sameRecords {g g' : Registry} (h : SameRecords g g') (k : String) :
    (g'.manager.remote k).map Remote.transfers = (g.manager.remote k).map Remote.transfers := by
  have hk := congrArg (Option.map fun c : String × List Transfer × List Message => c.2.1)
    (h.content k)
  rw [Option.map_map, Option.map_map] at hk
  exact hk

theorem transfers_addMessage (m : RemoteManager) (k : String) (msg : Message) (k' : String) :
    ((m.addMessage k msg).2.remote k').map Remote.transfers
      = (m.remote k').map Remote.transfers := by
  rw [RemoteManager.remote_addMessage]
  by_cases hk : k' = k
  · rw [if_pos hk, hk, Option.map_map]
    rfl
  · rw [if_neg hk]

/-- Where a state comes from, for any activity. -/
theorem activity_states {s : Settings} {a a' : Activity} {spawned : List Activity}
    (hsound : a.Sound i) (h : ActivityMove s i a i' a' spawned) {k u : String} {st : TransferState}
    (hst : i'.host.stateOf k u = some st) :
    i.host.stateOf k u = some st ∨
      (∃ f r, a.updates = some (k, u, f) ∧ i.host.transfer k u = some r ∧ st = (f.apply r).state) ∨
      a.pending = some (k, u) ∨ u ∉ i.host.uuids := by
  cases h with
  | admission t t' g ans spawned hstep =>
    left
    cases (admission_move hstep).1 with
    | same g' _ hsame =>
      have heq := stateOf_of_content (transfers_of_sameRecords hsame) (k := k) (u := u)
      exact heq.symm.trans hst
    | insert r hr =>
      -- a record that is inserted is empty
      obtain ⟨t', ht', rfl⟩ := Option.map_eq_some_iff.1 hst
      obtain ⟨r', hr', hfind⟩ := Option.bind_eq_some_iff.1 ht'
      rcases remote_of_inserted hsound hr hr' with hempty | hbefore
      · rw [hempty] at hfind
        cases hfind
      · exact Option.map_eq_some_iff.2 ⟨t', Option.bind_eq_some_iff.2 ⟨r', hbefore, hfind⟩, rfl⟩
  | call t t' host ans spawned hstep => exact (call_states hstep).origin hst
  | sendTextMessage pc pc' host hmove =>
    left
    cases hmove with
    | refused req status => exact hst
    | added req id now result _ =>
      have heq := stateOf_of_content (k := k) (u := u)
        (transfers_addMessage i.host.manager req.ident (.ofTextMessage id now req))
      exact heq.symm.trans hst
  | sendMessage w pc pc' host hmove =>
    left
    cases hmove with
    | refused text => exact hst
    | created text id now req _ => exact hst
    | answered msg req => exact hst
    | failed msg req status => exact hst
    -- messages are kept beside the transfers
    | added msg result =>
      have heq := stateOf_of_content (k := k) (u := u)
        (transfers_addMessage i.host.manager w.uuid msg)
      exact heq.symm.trans hst
  | getWorker uuid op w _ => exact .inl hst
  | missing uuid op => exact .inl hst

/-- A new uuid is drawn, or was held before. -/
theorem pending_step {s : Settings} {a a' : Activity} {spawned : List Activity}
    (h : ActivityMove s i a i' a' spawned) {b : Activity} (hb : b ∈ a' :: spawned) {k u : String}
    (hpending : b.pending = some (k, u)) : a.pending = some (k, u) ∨ u ∉ i.host.uuids := by
  cases h with
  | admission t t' g ans spawned hstep =>
    rw [List.mem_singleton.1 hb] at hpending
    cases hpending
  | call t t' host ans spawned hstep =>
    by_cases hstores : t.stores = true
    · cases task_move hstep with
      | processTransferOpRequest pc pc₁ _ =>
        rw [List.mem_singleton.1 hb] at hpending
        cases hpending
      | sendTransferRequest w pc pc₁ hcall =>
        rw [List.mem_singleton.1 hb] at hpending
        cases Worker.sendTransferRequest_move hcall with
        -- the only step that draws a uuid before the transfer is stored
        | created sourcePaths id now token hid =>
          obtain ⟨rfl, rfl⟩ := Prod.mk.inj (Option.some.inj hpending)
          exact .inr hid
        | refused _ | added _ | notAdded _ _ | processed _ _ _ | notProcessed _ _ | answered _ _
        | failed _ _ _ | announced _ _ _ | lost _ _ _ | aborted _ _ _ _ => cases hpending
      | startTransfer _ _ _ | peerStopTransfer _ _ _ | cancelTransferOpRequest _ _ _
      | acceptTransfer _ _ _ _ | stopTransfer _ _ _ _ _ | cancelTransfer _ _ _ _
      | sendStream _ _ _ | receiveStream _ _ _ => cases hstores
    · have htouches := call_touchesUp hstep (by simpa using hstores)
      rw [← List.map_cons] at hb
      obtain ⟨t₁, ht₁, rfl⟩ := List.mem_map.1 hb
      rw [pending_of_not_stores (htouches.stores t₁ ht₁)] at hpending
      cases hpending
  | sendTextMessage pc pc' host hmove =>
    rw [List.mem_singleton.1 hb] at hpending
    cases hpending
  | sendMessage w pc pc' host hmove =>
    rw [List.mem_singleton.1 hb] at hpending
    cases hmove with
    | created text id now req hid =>
      obtain ⟨rfl, rfl⟩ := Prod.mk.inj (Option.some.inj hpending)
      exact .inr hid
    | answered msg req => exact .inl hpending
    | refused _ | failed _ _ _ | added _ _ => cases hpending
  | getWorker uuid op w _ =>
    rw [List.mem_singleton.1 hb, pending_start] at hpending
    cases hpending
  | missing uuid op =>
    rw [List.mem_singleton.1 hb] at hpending
    cases hpending

theorem find_eraseP_self {ts : List Transfer} (hnodup : (ts.map Transfer.uuid).Nodup) (u : String) :
    (ts.eraseP fun t => t.uuid = u).find? (fun t => t.uuid = u) = none := by
  rw [List.find?_eq_none]
  intro t ht huuid
  have hmem : t.uuid ∈ (ts.map Transfer.uuid).erase u := by
    rw [← map_uuid_eraseP]
    exact List.mem_map_of_mem ht
  rw [of_decide_eq_true huuid] at hmem
  exact hnodup.not_mem_erase hmem

/-- What is left after a removal has been there before. -/
theorem stateOf_removeTransfer (hi : i.WellFormed) (k' u' : String) {k u : String}
    {st : TransferState} (hst : (i.change (.removeTransfer k' u')).host.stateOf k u = some st) :
    i.host.stateOf k u = some st := by
  have hafter : ((i.host.manager.removeTransfer k' u').2.transfer k u).map Transfer.state
      = some st := hst
  rcases RemoteManager.removeTransfer_cases i.host.manager k' u' with heq | ⟨r, t, hr, ht, heq⟩
  · rw [heq] at hafter
    exact hafter
  rw [heq, RemoteManager.transfer_of_remote, remote_setRemote] at hafter
  by_cases hk : k = k'
  · subst hk
    rw [if_pos rfl, Option.bind_some] at hafter
    by_cases hu : u = u'
    · subst hu
      -- the uuids of a remote differ, so that nothing is left under the removed one
      rw [find_eraseP_self (hi.transferUuids k r hr)] at hafter
      cases hafter
    · rw [find_eraseP hu] at hafter
      show (i.host.manager.transfer k u).map Transfer.state = some st
      rw [RemoteManager.transfer_of_remote, hr, Option.bind_some]
      exact hafter
  · rw [if_neg hk] at hafter
    exact hafter

/-- Of the changes from outside, only a removal touches the transfers. -/
theorem transfers_change (i : Instance) {e : InstanceChange}
    (hnot : ∀ k u, e ≠ .removeTransfer k u) (k : String) :
    ((i.change e).host.manager.remote k).map Remote.transfers
      = (i.host.manager.remote k).map Remote.transfers := by
  cases e with
  | update uuid f =>
    exact transfers_of_sameRecords (sameRecords_update i.registry uuid f.content_apply) k
  | removed fullname =>
    exact transfers_of_sameRecords
      (sameRecords_update i.registry fullname (f := Remote.removed) fun _ => rfl) k
  | removeMessage k' u' =>
    show ((i.host.manager.removeMessage k' u').2.remote k).map Remote.transfers = _
    have hwrite := i.host.manager.removeMessage_write k' u'
    generalize (i.host.manager.removeMessage k' u').2 = m' at hwrite ⊢
    cases hwrite with
    | missed => rfl
    | written hr =>
      rw [remote_setRemote]
      by_cases hk : k = k'
      · rw [if_pos hk, hk, hr]
        rfl
      · rw [if_neg hk]
  | removeTransfer k' u' => exact absurd rfl (hnot k' u')
  | cancel token => rfl
  | files files => rfl
  | disk disk => rfl

/-- Changes from outside write no state. -/
theorem change_states {p : Running} (hp : p.Sound) (e : InstanceChange) {k u : String}
    {st : TransferState} (hst : (p.shared.change e).host.stateOf k u = some st) :
    p.shared.host.stateOf k u = some st := by
  by_cases hremoval : ∃ k' u', e = .removeTransfer k' u'
  · obtain ⟨k', u', rfl⟩ := hremoval
    exact stateOf_removeTransfer hp.wellFormed k' u' hst
  · have hnot : ∀ k u, e ≠ .removeTransfer k u := fun k' u' he => hremoval ⟨k', u', he⟩
    exact (stateOf_of_content (transfers_change p.shared hnot)).symm.trans hst

end steps

/-- The update of a transfer, other than progress, that a step makes. -/
def Running.updates (p : Running) : RunningLabel → Option (String × String × TransferUpdate)
  | .run j _ => p.tasks[j]?.bind Activity.updates
  | _ => none

/-- The states of stored transfers change by updates only. -/
theorem stateOf_step {s : Settings} {p p' : Running} {l : RunningLabel} (hp : p.Sound)
    (hstep : (activities s).poolStep p l = some p') {k u : String}
    (hdrawn : u ∈ p.shared.host.uuids)
    (hpending : ∀ a ∈ p.tasks, a.pending ≠ some (k, u)) {st : TransferState}
    (hst : p'.shared.host.stateOf k u = some st) :
    p.shared.host.stateOf k u = some st ∨
      ∃ f r, p.updates l = some (k, u, f) ∧ p.shared.host.transfer k u = some r ∧
        st = (f.apply r).state := by
  cases l with
  | run j ans =>
    obtain ⟨a, i', a', spawned, ha, hadvance, rfl⟩ := Tasking.run_cases hstep
    have hmem := List.mem_of_getElem? ha
    rcases activity_states (hp.sound a hmem) (activity_move hadvance) hst with
      hsame | ⟨f, r, hupdates, hr, rfl⟩ | hadds | hfresh
    · exact .inl hsame
    · exact .inr ⟨f, r, by rw [Running.updates, ha]; exact hupdates, hr, rfl⟩
    · exact absurd hadds (hpending a hmem)
    · exact absurd hdrawn hfresh
  | enter a =>
    obtain ⟨_, rfl⟩ := Tasking.enter_cases hstep
    exact .inl hst
  | env e =>
    cases hstep
    exact .inl (change_states hp e hst)

end Warpinator
