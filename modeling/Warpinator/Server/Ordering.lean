import Warpinator.Server.StoreOrder

/-! # Every Run Keeps the Order

    The store of an instance stays in order, and no uuid is stored twice under
    one remote, in any interleaving of admissions, calls, operations, streaming
    tasks and changes from outside.

    `Running.Sound` is the invariant, `sound_step` keeps it.  A uuid that has
    been drawn is counted where it is stored and where it is held by an activity
    that is about to store it. -/

namespace Warpinator

/-! ## Section 1: The invariant of a run -/

/-- The remote that an admission is about to add. -/
def JoinPc.carried {ρ : Type} : JoinPc ρ → Option Remote
  | .addWorker r => some r
  | .addRemote r => some r
  | _ => none

def Admission.carried : Admission → Option Remote
  | .newService (.join pc) => pc.carried
  | .register (.join pc) => pc.carried
  | .manual (.join pc) => pc.carried
  | _ => none

/-- A worker that the instance has made. -/
def Instance.Employs (i : Instance) (w : Worker) : Prop :=
  ∃ n : Nat, w.cancellationToken = [n] ∧ i.workerUuids[n]? = some w.uuid

/-- The remote and the uuid of what an activity has made and will store. -/
def Activity.pending : Activity → Option (String × String)
  | .call (.sendTransferRequest w (.add t)) => some (w.uuid, t.uuid)
  | .sendMessage w (.request msg _) => some (w.uuid, msg.uuid)
  | .sendMessage w (.add msg) => some (w.uuid, msg.uuid)
  | _ => none

/-- What an activity holds fits the remote that it works for. -/
def Activity.Sound (i : Instance) : Activity → Prop
  | .admission t => (∀ r ∈ t.carried, r.transfers = [] ∧ r.messages = []) ∧
      ∀ r ∈ t.inserts, (i.workers r.uuid).isSome
  | .call (.sendTransferRequest w (.add t)) => i.Employs w ∧ i.Placed w.uuid t
  | .call (.sendTransferRequest w _) => i.Employs w
  | .sendMessage w (.request msg _) => msg.remoteUuid = w.uuid
  | .sendMessage w (.add msg) => msg.remoteUuid = w.uuid
  | _ => True

/-- How often `u` is stored under `k`, or will be. -/
def Instance.load (i : Instance) (ts : List Activity) (k u : String) : Nat :=
  ts.countP (fun t => t.pending = some (k, u)) + (i.stored k).count u

structure Running.Sound (p : Running) : Prop where
  ordered : p.shared.Ordered
  sound : ∀ t ∈ p.tasks, t.Sound p.shared
  once : ∀ k u, p.shared.load p.tasks k u ≤ 1
  drawn : ∀ k u, 0 < p.shared.load p.tasks k u → u ∈ p.shared.host.uuids

theorem Activity.Sound.mono {i i' : Instance} {t : Activity} (h : t.Sound i) (hgrows : i.Grows i') :
    t.Sound i' := by
  have hemploys : ∀ w, i.Employs w → i'.Employs w := by
    rintro w ⟨n, htoken, hn⟩
    exact ⟨n, htoken, hgrows.workerUuids n w.uuid hn⟩
  unfold Activity.Sound at h ⊢
  split at h
  · exact ⟨h.1, fun r hr => hgrows.workers r.uuid (h.2 r hr)⟩
  · exact ⟨hemploys _ h.1, h.2.mono hgrows⟩
  · exact hemploys _ h
  · exact h
  · exact h
  · trivial

/-- A sound run has a well-formed store. -/
theorem Running.Sound.wellFormed {p : Running} (h : p.Sound) : p.shared.WellFormed := by
  have hcount : ∀ k u, (p.shared.stored k).count u ≤ 1 := by
    intro k u
    have honce := h.once k u
    unfold Instance.load at honce
    omega
  have hstored : ∀ k r, p.shared.remote k = some r →
      (r.transfers.map Transfer.uuid ++ r.messages.map Message.uuid).Nodup := by
    intro k r hr
    have heq : p.shared.stored k
        = r.transfers.map Transfer.uuid ++ r.messages.map Message.uuid := by
      simp [Instance.stored, hr]
    rw [← heq]
    exact List.nodup_iff_count.2 (hcount k)
  refine ⟨h.ordered.keyed, fun k r hr => ?_, fun k r hr t ht => (h.ordered.transfers k r t hr ht).1,
    fun k r hr msg => h.ordered.messages k r msg hr, fun k r hr => ?_, fun k r hr => ?_⟩
  · obtain ⟨n, hn⟩ := Option.isSome_iff_exists.1 (h.ordered.registered k (by rw [hr]; rfl))
    exact ⟨n, hn, h.ordered.workers k n hn⟩
  · exact (List.nodup_append.1 (hstored k r hr)).1
  · exact (List.nodup_append.1 (hstored k r hr)).2.1

/-! ## Section 2: What a step keeps -/

/-- A step of `t` from `i`, which leaves `i'` and the activities `ts`. -/
structure Activity.Keeps (i : Instance) (t : Activity) (i' : Instance) (ts : List Activity) :
    Prop where
  grows : i.Grows i'
  ordered : i'.Ordered
  sound : ∀ t' ∈ ts, t'.Sound i'
  load : ∀ k u, i'.load ts k u ≤ i.load [t] k u ∨
    (u ∉ i.host.uuids ∧ u ∈ i'.host.uuids ∧ i'.load ts k u ≤ 1)

section keeping

variable {i i' : Instance} {t : Activity} {ts : List Activity}

/-- A step that stores nothing new. -/
theorem Activity.Keeps.retouched (h : i.Ordered) (hgrows : i.Grows i')
    (hworkers : ∀ (k : String) (n : Nat), i'.workers k = some n → i'.workerUuids[n]? = some k)
    (hrecords : i.host.manager.Retouched i'.host.manager) (hsound : ∀ t' ∈ ts, t'.Sound i')
    (hpending : ∀ t' ∈ ts, t'.pending = none ∨ ts = [t'] ∧ t'.pending = t.pending) :
    t.Keeps i i' ts where
  grows := hgrows
  ordered := h.retouched hgrows hworkers hrecords
  sound := hsound
  load k u := by
    left
    have hstored := stored_retouched hrecords k u
    have hcount : ts.countP (fun t => t.pending = some (k, u))
        ≤ [t].countP (fun t => t.pending = some (k, u)) := by
      -- the one activity that may hold something is then the only one left
      by_cases hnone : ∃ t' ∈ ts, t'.pending ≠ none
      · obtain ⟨t', ht', hne⟩ := hnone
        obtain ⟨hts, heq⟩ := (hpending t' ht').resolve_left hne
        rw [hts]
        simp [List.countP_cons, heq]
      · have hzero : ts.countP (fun t => t.pending = some (k, u)) = 0 := by
          rw [List.countP_eq_zero]
          intro t' ht' htrue
          exact hnone ⟨t', ht', by simpa using fun h => by simp [h] at htrue⟩
        omega
    unfold Instance.load
    omega

/-! ## Section 3: Calls and streaming tasks -/

theorem setState_keepsToken (s : TransferState) : (TransferUpdate.setState s).KeepsToken :=
  fun _ => .inl rfl

theorem progress_keepsToken (p : Progress) : (TransferUpdate.progress p).KeepsToken :=
  fun _ => .inl rfl

theorem announce_keepsToken (transfer : Transfer) : (TransferUpdate.announce transfer).KeepsToken :=
  fun _ => .inl rfl

theorem accept_keepsToken (destination : PathBuf) :
    (TransferUpdate.accept destination).KeepsToken :=
  fun _ => .inr ⟨destination, rfl⟩

theorem retouched_recordProgress (host : Host) (queued : Nat) (k u : String)
    (before after : List Progress) :
    host.manager.Retouched (host.recordProgress queued k u before after).manager := by
  unfold Host.recordProgress
  induction after.drop before.length generalizing host with
  | nil => exact .refl _
  | cons p ps ih =>
    have hfirst := RemoteManager.retouched_updateTransfer host.manager k u queued
      (progress_keepsToken p)
    have hrest := ih (host.updateTransfer queued k u (.progress p)).2
    exact hfirst.trans hrest

/-- The calls that store a transfer. -/
def Task.stores : Task → Bool
  | .processTransferOpRequest _ => true
  | .sendTransferRequest _ _ => true
  | _ => false

/-- Any other call or task only touches records up. -/
structure TouchesUp (host host' : Host) (ts : List Task) : Prop where
  records : host.manager.Retouched host'.manager
  uuids : host'.uuids = host.uuids
  issued : host.tokens.issued ≤ host'.tokens.issued
  stores : ∀ t ∈ ts, t.stores = false

section calls

variable {host host' : Host} {ans : Answer} {ts : List Task}

theorem TouchesUp.still (hmanager : host'.manager = host.manager)
    (huuids : host'.uuids = host.uuids)
    (hissued : host'.tokens.issued = host.tokens.issued)
    (hstores : ∀ t ∈ ts, t.stores = false) : TouchesUp host host' ts :=
  ⟨by rw [hmanager]; exact .refl _, huuids, hissued.ge, hstores⟩

theorem TouchesUp.update (queued : Nat) (k u : String) {f : TransferUpdate} (hf : f.KeepsToken)
    (hstores : ∀ t ∈ ts, t.stores = false) :
    TouchesUp host (host.updateTransfer queued k u f).2 ts :=
  ⟨RemoteManager.retouched_updateTransfer _ k u queued hf, rfl, le_refl _, hstores⟩

theorem withdraw_touchesUp {μ : Type} {w : Worker} {message : OpInfo → μ}
    {newState : TransferKind → TransferState} {pc pc' : Worker.WithdrawPc μ}
    (h : Worker.WithdrawMove w message newState host pc ans host' pc')
    (hstores : ∀ t ∈ ts, t.stores = false) : TouchesUp host host' ts := by
  cases h with
  | refused u ans e => exact .still rfl rfl rfl hstores
  | foundOutgoing u queued transfer token _ => exact .still rfl rfl rfl hstores
  | foundIncoming u queued transfer _ => exact .still rfl rfl rfl hstores
  | cancelled u queued token s req => exact .still rfl rfl rfl hstores
  | answered u s req => exact .still rfl rfl rfl hstores
  | denied u s req status => exact .still rfl rfl rfl hstores
  | updated u s queued _ => exact .update queued _ _ (setState_keepsToken s) hstores
  | lost u s queued e _ => exact .still rfl rfl rfl hstores

theorem call_touchesUp {t t' : Task} {spawned : List Task}
    (h : t.step host ans = some (host', t', spawned)) (hnot : t.stores = false) :
    TouchesUp host host' (t' :: spawned) := by
  -- the two calls that store are excluded; every other one writes by a single update, or by
  -- a list of progress updates
  cases task_move h with
  | processTransferOpRequest pc pc₁ hstep => cases hnot
  | sendTransferRequest w pc pc₁ hstep => cases hnot
  | startTransfer pc pc₁ hstep =>
    have hmove := WarpServer.startTransfer_move hstep
    have hstores : ∀ t ∈ Task.startTransfer pc₁ :: pc₁.spawned, t.stores = false := by
      cases pc₁ <;> simp [Task.stores, WarpServer.StartPc.spawned]
    cases hmove with
    | refused req status _ => exact .still rfl rfl rfl hstores
    | found req transfer sourcePaths token _ => exact .still rfl rfl rfl hstores
    | lost transfer sourcePaths token status _ => exact .still rfl rfl rfl hstores
    | started transfer sourcePaths token queued sources _ =>
      exact .update queued _ _ (setState_keepsToken _) hstores
  | peerStopTransfer pc pc₁ hstep =>
    have hmove := WarpServer.stopTransfer_move hstep
    have hstores : ∀ t ∈ [Task.peerStopTransfer pc₁], t.stores = false := by simp [Task.stores]
    cases hmove with
    | refused req status _ => exact .still rfl rfl rfl hstores
    | foundOutgoing req info transfer token _ _ => exact .still rfl rfl rfl hstores
    | foundIncoming req info transfer _ _ => exact .still rfl rfl rfl hstores
    | cancelled transfer token newState => exact .still rfl rfl rfl hstores
    | updated transfer newState queued => exact .update queued _ _ (setState_keepsToken _) hstores
  | cancelTransferOpRequest pc pc₁ hstep =>
    have hmove := WarpServer.cancelTransferOpRequest_move hstep
    have hstores : ∀ t ∈ [Task.cancelTransferOpRequest pc₁], t.stores = false := by
      simp [Task.stores]
    cases hmove with
    | refused req status _ => exact .still rfl rfl rfl hstores
    | found req transfer _ _ => exact .still rfl rfl rfl hstores
    | updated transfer newState queued => exact .update queued _ _ (setState_keepsToken _) hstores
  | acceptTransfer w pc pc₁ hstep =>
    have hmove := Worker.acceptTransfer_move hstep
    have hstores : ∀ t ∈ Task.acceptTransfer w pc₁ :: pc₁.spawned, t.stores = false := by
      cases pc₁ <;> simp [Task.stores, Worker.AcceptPc.spawned]
    cases hmove with
    | refused u destination ans e => exact .still rfl rfl rfl hstores
    | found u destination queued transfer _ => exact .still rfl rfl rfl hstores
    | answered u destination req => exact .still rfl rfl rfl hstores
    | denied u destination req status => exact .still rfl rfl rfl hstores
    | lost u destination queued e _ => exact .still rfl rfl rfl hstores
    | accepted u destination queued token disk _ =>
      exact ⟨RemoteManager.retouched_updateTransfer _ _ _ queued (accept_keepsToken destination),
        rfl, Nat.le_succ _, hstores⟩
  | stopTransfer w error pc pc₁ hstep =>
    exact withdraw_touchesUp (Worker.withdraw_move hstep) (by simp [Task.stores])
  | cancelTransfer w pc pc₁ hstep =>
    exact withdraw_touchesUp (Worker.withdraw_move hstep) (by simp [Task.stores])
  | sendStream task task₁ hstep =>
    have hstores : ∀ t ∈ [Task.sendStream task₁], t.stores = false := by simp [Task.stores]
    cases SendTask.step_move hstep with
    | inner l queued sender _ _ _ =>
      exact ⟨retouched_recordProgress _ _ _ _ _ _, recordProgress_uuids _ _ _ _ _ _,
        by rw [recordProgress_tokens], hstores⟩
    | decide queued result _ _ => exact .still rfl rfl rfl hstores
    | close queued finalState _ => exact .update queued _ _ (fun _ => .inl rfl) hstores
    | leave queued _ => exact .still rfl rfl rfl hstores
  | receiveStream task task₁ hstep =>
    have hstores : ∀ t ∈ [Task.receiveStream task₁], t.stores = false := by simp [Task.stores]
    cases ReceiveTask.step_move hstep with
    | again event fault queued r _ _ _ =>
      exact ⟨retouched_recordProgress _ _ _ _ _ _, recordProgress_uuids _ _ _ _ _ _,
        by rw [recordProgress_tokens], hstores⟩
    | leave event fault queued result r _ _ _ => exact .still rfl rfl rfl hstores
    | panic event fault queued r _ _ _ => exact .still rfl rfl rfl hstores
    | close queued finalState _ => exact .update queued _ _ (fun _ => .inl rfl) hstores

end calls

/-! ## Section 4: Steps that store -/

theorem load_singleton (i : Instance) (t : Activity) (k u : String) :
    i.load [t] k u = (if t.pending = some (k, u) then 1 else 0) + (i.stored k).count u := by
  unfold Instance.load
  rw [List.countP_singleton]
  simp

/-- What was pending is stored. -/
theorem Activity.Keeps.delivered {t' : Activity} {k u : String} (h : i.Adds k u i')
    (hpending : t.pending = some (k, u)) (hpending' : t'.pending = none) (hsound : t'.Sound i') :
    t.Keeps i i' [t'] where
  grows := h.grows
  ordered := h.ordered
  sound := by simpa using hsound
  load k' u' := by
    left
    have hcount := h.count k' u'
    rw [load_singleton, load_singleton, hpending, hpending']
    -- one less is pending and one more is stored
    by_cases hku : k' = k ∧ u' = u
    · obtain ⟨rfl, rfl⟩ := hku
      simp only [and_self, if_true] at hcount
      simp
      omega
    · rw [if_neg hku] at hcount
      simp
      omega

/-- A new uuid is stored at once. -/
theorem Activity.Keeps.issued {t' : Activity} {k u : String} (h : i.Adds k u i')
    (hdrawn : u ∉ i.stored k) (hfresh : u ∉ i.host.uuids) (huuid : u ∈ i'.host.uuids)
    (hpending' : t'.pending = none) (hsound : t'.Sound i') : t.Keeps i i' [t'] where
  grows := h.grows
  ordered := h.ordered
  sound := by simpa using hsound
  load k' u' := by
    have hcount := h.count k' u'
    rw [load_singleton, load_singleton, hpending']
    by_cases hku : k' = k ∧ u' = u
    · obtain ⟨rfl, rfl⟩ := hku
      have hzero : (i.stored k').count u' = 0 := List.count_eq_zero.2 hdrawn
      simp only [and_self, if_true] at hcount
      refine .inr ⟨hfresh, huuid, ?_⟩
      simp
      omega
    · rw [if_neg hku] at hcount
      left
      simp
      omega

/-- A new uuid is held by the activity. -/
theorem Activity.Keeps.drawn {t' : Activity} {k u : String} (hi : i.Ordered) (hgrows : i.Grows i')
    (hworkers : i'.workers = i.workers) (huuids : i'.workerUuids = i.workerUuids)
    (hmanager : i'.host.manager = i.host.manager) (hdrawn : u ∉ i.stored k)
    (hfresh : u ∉ i.host.uuids) (huuid : u ∈ i'.host.uuids) (hpending : t'.pending = some (k, u))
    (hsound : t'.Sound i') : t.Keeps i i' [t'] where
  grows := hgrows
  ordered := by
    refine hi.retouched hgrows ?_ (by rw [hmanager]; exact .refl _)
    rw [hworkers, huuids]
    exact hi.workers
  sound := by simpa using hsound
  load k' u' := by
    have hstored : i'.stored k' = i.stored k' := by
      unfold Instance.stored Instance.remote
      rw [hmanager]
    rw [load_singleton, load_singleton, hpending, hstored]
    by_cases hku : k' = k ∧ u' = u
    · obtain ⟨rfl, rfl⟩ := hku
      have hzero : (i.stored k').count u' = 0 := List.count_eq_zero.2 hdrawn
      refine .inr ⟨hfresh, huuid, ?_⟩
      simp
      omega
    · left
      have hne : ¬ (k = k' ∧ u = u') := fun h => hku ⟨h.1.symm, h.2.symm⟩
      simp [hne]

/-! ## Section 5: Every step -/

variable {host : Host}

theorem sound_of_not_stores {t : Task} (h : t.stores = false) : (Activity.call t).Sound i := by
  cases t <;> trivial

theorem pending_of_not_stores {t : Task} (h : t.stores = false) :
    (Activity.call t).pending = none := by
  cases t <;> first | rfl | cases h

/-- What is stored has been drawn. -/
def Instance.Drawn (i : Instance) : Prop := ∀ k u, u ∈ i.stored k → u ∈ i.host.uuids

theorem process_keepsOrder {pc pc' : WarpServer.ProcessPc} (hi : i.Ordered) (hdrawn : i.Drawn)
    (h : WarpServer.ProcessMove i.host pc host pc') :
    (Activity.call (.processTransferOpRequest pc)).Keeps i { i with host := host }
      [.call (.processTransferOpRequest pc')] := by
  cases h with
  | refused req status =>
    exact .retouched hi (.refl i) hi.workers (.refl _) (by simp [Activity.Sound])
      (by simp [Activity.pending])
  | added req info id now result hid =>
    -- the record is made with the `ident` under which it is stored
    have hplaced : i.Placed info.ident (.ofRequest id now info req) := by
      refine ⟨rfl, fun sourcePaths token htoken => ?_⟩
      cases htoken
    have hadds := adds_transfer (i.host.issue id) hi rfl (List.subset_cons_self _ _) hplaced
    exact .issued hadds (fun hmem => hid (hdrawn _ _ hmem)) hid List.mem_cons_self rfl trivial

theorem employs_of_sound {w : Worker} {pc : Worker.SendRequestPc}
    (h : (Activity.call (.sendTransferRequest w pc)).Sound i) : i.Employs w := by
  cases pc with
  | add transfer => exact h.1
  | start _ | process _ | request _ _ | announce _ | abort _ _ | returned _ => exact h

/-- The token of a new transfer is a child of the worker's. -/
theorem sendTransferRequest_token {w : Worker} {host : Host} {sourcePaths : List PathBuf}
    {transfer : Transfer} {ans : Answer} {host' : Host}
    (h : w.sendTransferRequest host (.start sourcePaths) ans = some (host', .add transfer)) :
    transfer.kind = .outgoing sourcePaths (host.childToken w.cancellationToken).1 := by
  cases ans with
  | fresh id now =>
    dsimp only [Worker.sendTransferRequest] at h
    split at h
    · cases h
    · cases h
      rfl
  | noClient => cases h
  | go _ | processed _ | reply _ | send _ _ | receive _ _ _ => cases h

theorem placed_child {w : Worker} {t : Transfer} {sourcePaths : List PathBuf} (hw : i.Employs w)
    (huuid : t.remoteUuid = w.uuid)
    (hkind : t.kind = .outgoing sourcePaths (i.host.childToken w.cancellationToken).1) :
    i.Placed w.uuid t := by
  obtain ⟨n, htoken, hn⟩ := hw
  refine ⟨huuid, fun paths token hkind' => ?_⟩
  rw [hkind] at hkind'
  cases hkind'
  exact ⟨n, i.host.tokens.issued, by rw [htoken]; rfl, hn⟩

theorem sendRequest_keepsOrder {w : Worker} {pc pc' : Worker.SendRequestPc} {ans : Answer}
    (hi : i.Ordered) (hdrawn : i.Drawn)
    (hsound : (Activity.call (.sendTransferRequest w pc)).Sound i)
    (h : w.sendTransferRequest i.host pc ans = some (host, pc')) :
    (Activity.call (.sendTransferRequest w pc)).Keeps i { i with host := host }
      [.call (.sendTransferRequest w pc')] := by
  have hw : i.Employs w := employs_of_sound hsound
  -- the steps that store nothing
  have hretouched : ∀ {host' : Host} {pc'' : Worker.SendRequestPc},
      i.host.manager.Retouched host'.manager → host'.uuids = i.host.uuids →
      (∀ transfer, pc'' ≠ .add transfer) →
      (Activity.call (.sendTransferRequest w pc)).Keeps i { i with host := host' }
        [.call (.sendTransferRequest w pc'')] := by
    intro host' pc'' hrecords huuids hnot
    have hgrows : i.Grows { i with host := host' } :=
      ⟨fun _ h => h, fun _ _ h => h, by simp [huuids]⟩
    refine .retouched hi hgrows hi.workers hrecords ?_ ?_
    · intro t' ht'
      rw [List.mem_singleton.1 ht']
      cases pc'' with
      | add transfer => exact absurd rfl (hnot transfer)
      | start _ | process _ | request _ _ | announce _ | abort _ _ | returned _ => exact hw
    · intro t' ht'
      rw [List.mem_singleton.1 ht']
      cases pc'' with
      | add transfer => exact absurd rfl (hnot transfer)
      | start _ | process _ | request _ _ | announce _ | abort _ _ | returned _ => exact .inl rfl
  have htoken := @sendTransferRequest_token w i.host
  cases Worker.sendTransferRequest_move h with
  | refused sourcePaths => exact hretouched (.refl _) rfl fun _ h => by cases h
  | created sourcePaths id now token hid =>
    have hplaced := placed_child hw rfl (htoken h)
    exact .drawn hi ⟨fun _ h => h, fun _ _ h => h, List.subset_cons_self _ _⟩ rfl rfl rfl
      (fun hmem => hid (hdrawn _ _ hmem)) hid List.mem_cons_self rfl ⟨hw, hplaced⟩
  | added transfer =>
    have hadds := adds_transfer i.host hi rfl (List.Subset.refl _) hsound.2
    exact .delivered hadds rfl rfl hw
  | notAdded transfer e =>
    have hadds := adds_transfer i.host hi rfl (List.Subset.refl _) hsound.2
    exact .delivered hadds rfl rfl hw
  | processed transfer totals req => exact hretouched (.refl _) rfl fun _ h => by cases h
  | notProcessed transfer e => exact hretouched (.refl _) rfl fun _ h => by cases h
  | answered transfer req => exact hretouched (.refl _) rfl fun _ h => by cases h
  | failed transfer req e => exact hretouched (.refl _) rfl fun _ h => by cases h
  | announced transfer queued _ =>
    exact hretouched (RemoteManager.retouched_updateTransfer _ _ _ queued
      (announce_keepsToken transfer)) rfl fun _ h => by cases h
  | lost transfer e _ => exact hretouched (.refl _) rfl fun _ h => by cases h
  | aborted transfer e queued e' =>
    exact hretouched (RemoteManager.retouched_updateTransfer _ _ _ queued (setState_keepsToken _))
      rfl fun _ h => by cases h

theorem call_keepsOrder {t t' : Task} {ans : Answer} {spawned : List Task} (hi : i.Ordered)
    (hdrawn : i.Drawn) (hsound : (Activity.call t).Sound i)
    (h : t.step i.host ans = some (host, t', spawned)) :
    (Activity.call t).Keeps i { i with host := host } (.call t' :: spawned.map .call) := by
  -- a call that stores nothing only touches up, whatever it spawns
  by_cases hstores : t.stores = true
  · cases task_move h with
    | processTransferOpRequest pc pc₁ hstep =>
      exact process_keepsOrder hi hdrawn (WarpServer.processTransferOpRequest_move hstep)
    | sendTransferRequest w pc pc₁ hstep => exact sendRequest_keepsOrder hi hdrawn hsound hstep
    | startTransfer _ _ _ | peerStopTransfer _ _ _ | cancelTransferOpRequest _ _ _
    | acceptTransfer _ _ _ _ | stopTransfer _ _ _ _ _ | cancelTransfer _ _ _ _ | sendStream _ _ _
    | receiveStream _ _ _ => cases hstores
  · have htouches := call_touchesUp h (by simpa using hstores)
    have hcalls : ∀ t'' ∈ Activity.call t' :: spawned.map Activity.call,
        ∃ u, u.stores = false ∧ t'' = .call u := by
      intro t'' ht''
      rw [← List.map_cons] at ht''
      obtain ⟨u, hu, rfl⟩ := List.mem_map.1 ht''
      exact ⟨u, htouches.stores u hu, rfl⟩
    refine .retouched hi ⟨fun _ h => h, fun _ _ h => h, by simp [htouches.uuids]⟩ hi.workers
      htouches.records ?_ ?_
    · intro t'' ht''
      obtain ⟨u, hu, rfl⟩ := hcalls t'' ht''
      exact sound_of_not_stores hu
    · intro t'' ht''
      obtain ⟨u, hu, rfl⟩ := hcalls t'' ht''
      exact .inl (pending_of_not_stores hu)

theorem text_keepsOrder {pc pc' : WarpServer.TextPc} (hi : i.Ordered) (hdrawn : i.Drawn)
    (h : WarpServer.TextMove i.host pc host pc') :
    (Activity.sendTextMessage pc).Keeps i { i with host := host } [.sendTextMessage pc'] := by
  cases h with
  | refused req status =>
    exact .retouched hi (.refl i) hi.workers (.refl _) (by simp [Activity.Sound])
      (by simp [Activity.pending])
  | added req id now result hid =>
    have hmsg : (Message.ofTextMessage id now req).remoteUuid = req.ident := rfl
    have hadds := adds_message (i.host.issue id) hi rfl (List.subset_cons_self _ _) hmsg
    exact .issued hadds (fun hmem => hid (hdrawn _ _ hmem)) hid List.mem_cons_self rfl trivial

theorem sendMessage_keepsOrder {w : Worker} {pc pc' : Worker.SendMessagePc} (hi : i.Ordered)
    (hdrawn : i.Drawn) (hsound : (Activity.sendMessage w pc).Sound i)
    (h : Worker.SendMessageMove w i.host pc host pc') :
    (Activity.sendMessage w pc).Keeps i { i with host := host } [.sendMessage w pc'] := by
  cases h with
  | refused text =>
    exact .retouched hi (.refl i) hi.workers (.refl _) (by simp [Activity.Sound])
      (by simp [Activity.pending])
  -- the uuid is drawn here and stored only after the reply
  | created text id now req hid =>
    exact .drawn hi ⟨fun _ h => h, fun _ _ h => h, List.subset_cons_self _ _⟩ rfl rfl rfl
      (fun hmem => hid (hdrawn _ _ hmem)) hid List.mem_cons_self rfl rfl
  | answered msg req =>
    refine .retouched hi (.refl i) hi.workers (.refl _) ?_ ?_
    · intro t' ht'
      rw [List.mem_singleton.1 ht']
      exact hsound
    · intro t' ht'
      rw [List.mem_singleton.1 ht']
      exact .inr ⟨rfl, rfl⟩
  | failed msg req status =>
    exact .retouched hi (.refl i) hi.workers (.refl _) (by simp [Activity.Sound])
      (by simp [Activity.pending])
  -- the message that was pending is stored
  | added msg result =>
    have hadds := adds_message i.host hi rfl (List.Subset.refl _) hsound
    exact .delivered hadds rfl rfl trivial

/-! ### Admissions -/

/-- What a step of an admission takes along, and what it does to the workers. -/
structure AdmissionStep (g : Registry) (t : Admission) (g' : Registry) (t' : Admission) : Prop where
  carried : ∀ r ∈ t'.carried, t.carried = some r ∨ r.transfers = [] ∧ r.messages = []
  inserts : ∀ r ∈ t'.inserts, t.makes = [r.uuid]
  workers : (t.makes = [] ∧ g'.workers = g.workers) ∨
    ∃ uuid, t.makes = [uuid] ∧ t.inserts = none ∧ g' = g.addWorker uuid

section admitting

variable {g g' : Registry} {ans : AdmitAnswer}

/-- A step that adds no worker, to a remote that is new if there is one. -/
theorem AdmissionStep.plain {t t' : Admission} (hmakes : t.makes = [])
    (hworkers : g'.workers = g.workers) (hinserts : t'.inserts = none)
    (hcarried : ∀ r ∈ t'.carried, r.transfers = [] ∧ r.messages = []) :
    AdmissionStep g t g' t' where
  carried r hr := .inr (hcarried r hr)
  inserts r hr := by
    rw [hinserts] at hr
    cases hr
  workers := .inl ⟨hmakes, hworkers⟩

theorem AdmissionStep.bare {t t' : Admission} (hmakes : t.makes = [])
    (hworkers : g'.workers = g.workers) (hinserts : t'.inserts = none)
    (hcarried : t'.carried = none) :
    AdmissionStep g t g' t' :=
  .plain hmakes hworkers hinserts fun r hr => by rw [hcarried] at hr; cases hr

/-- The common rest of an admission, whichever one it is part of. -/
theorem join_admissionStep {ρ : Type} {e : JoinEnd ρ} {pc pc' : JoinPc ρ}
    (wrap : JoinPc ρ → Admission) (hcarried : ∀ pc, (wrap pc).carried = pc.carried)
    (hinserts : ∀ pc, (wrap pc).inserts = pc.inserts) (hmakes : ∀ pc, (wrap pc).makes = pc.makes)
    (hadded : ∀ uuid, (e.added uuid).carried = none ∧ (e.added uuid).inserts = none)
    (h : e.step g pc ans = some (g', pc')) : AdmissionStep g (wrap pc) g' (wrap pc') := by
  unfold JoinEnd.step at h
  split at h
  -- `add_worker`: the record is carried on, and the worker made is its own
  · next r =>
    cases h
    refine ⟨fun r' hr' => ?_, fun r' hr' => ?_, .inr ⟨r.uuid, hmakes _, hinserts _, rfl⟩⟩
    · rw [hcarried] at hr'
      exact .inl ((hcarried _).trans hr')
    · rw [hinserts] at hr'
      obtain rfl : r = r' := Option.some.inj hr'
      exact hmakes _
  · next r =>
    cases h
    exact .bare (hmakes _) rfl ((hinserts _).trans (hadded r.uuid).2)
      ((hcarried _).trans (hadded r.uuid).1)
  · split at h
    · cases h
      exact .bare (hmakes _) rfl (hinserts _) (hcarried _)
    · cases h
      exact .bare (hmakes _) rfl (hinserts _) (hcarried _)
  · cases h
    exact .bare (hmakes _) rfl (hinserts _) (hcarried _)
  · cases h

theorem handleNewService_step {pc pc' : NewServicePc}
    (h : handleNewService g pc ans = some (g', pc')) :
    AdmissionStep g (.newService pc) g' (.newService pc') := by
  unfold handleNewService at h
  split at h
  · split at h
    · cases h
      exact .bare rfl rfl rfl rfl
    · next service _ =>
      split at h
      · -- the only step that makes a remote
        cases h
        refine .plain rfl rfl rfl fun r hr => ?_
        obtain rfl : service.asRemote = r := Option.some.inj hr
        exact ⟨rfl, rfl⟩
      · cases h
        exact .bare rfl rfl rfl rfl
  · next service remote =>
    cases h
    by_cases hdown : remote.state.isDown = true
    · rw [if_pos hdown]
      exact .bare rfl rfl rfl rfl
    · rw [if_neg hdown]
      exact .bare rfl rfl rfl rfl
  · obtain ⟨⟨g₁, pc₁⟩, hjoin, heq⟩ := Option.map_eq_some_iff.1 h
    cases heq
    exact join_admissionStep (fun pc => .newService (.join pc)) (fun _ => rfl) (fun _ => rfl)
      (fun _ => rfl) (fun _ => ⟨rfl, rfl⟩) hjoin
  · cases h

theorem registerService_step {s : RegistrationServer} {pc pc' : RegisterPc}
    (h : s.registerService g pc ans = some (g', pc')) :
    AdmissionStep g (.register pc) g' (.register pc') := by
  unfold RegistrationServer.registerService at h
  split at h
  · split at h
    · split at h
      · cases h
        exact .bare rfl rfl rfl rfl
      · split at h
        · cases h
          refine .plain rfl rfl rfl fun r hr => ?_
          -- the remote of an unknown service is new and empty
          rw [← Option.some.inj hr]
          exact ⟨rfl, rfl⟩
        · cases h
          exact .bare rfl rfl rfl rfl
    · split at h
      · cases h
        exact .bare rfl rfl rfl rfl
      · split at h
        · cases h
          exact .bare rfl rfl rfl rfl
        · cases h
          exact .bare rfl rfl rfl rfl
  · next req ip needsReconnect =>
    split at h
    · cases h
      exact .bare rfl rfl rfl rfl
    · split at h
      · cases h
        exact .bare rfl rfl rfl rfl
      · cases h
        exact .bare rfl rfl rfl rfl
      · cases h
        cases needsReconnect with
        | true => exact .bare rfl rfl rfl rfl
        | false => exact .bare rfl rfl rfl rfl
  · obtain ⟨⟨g₁, pc₁⟩, hjoin, heq⟩ := Option.map_eq_some_iff.1 h
    cases heq
    exact join_admissionStep (fun pc => .register (.join pc)) (fun _ => rfl) (fun _ => rfl)
      (fun _ => rfl) (fun _ => ⟨rfl, rfl⟩) hjoin
  · cases h

theorem manualConnection_step {pc pc' : ManualPc} (h : manualConnection g pc ans = some (g', pc')) :
    AdmissionStep g (.manual pc) g' (.manual pc') := by
  unfold manualConnection at h
  split at h
  · split at h
    · cases h
      exact .bare rfl rfl rfl rfl
    · cases h
      exact .bare rfl rfl rfl rfl
  · cases h
    exact .bare rfl rfl rfl rfl
  · cases h
    exact .bare rfl rfl rfl rfl
  · cases h
    exact .bare rfl rfl rfl rfl
  · cases h
    exact .bare rfl rfl rfl rfl
  · split at h
    · cases h
      exact .bare rfl rfl rfl rfl
    · split at h
      · cases h
        exact .bare rfl rfl rfl rfl
      · cases h
        refine .plain rfl rfl rfl fun r hr => ?_
        -- the remote of an unknown service is new and empty
        rw [← Option.some.inj hr]
        exact ⟨rfl, rfl⟩
  · next ip service remote =>
    split at h
    · cases h
      exact .bare rfl rfl rfl rfl
    · cases h
      cases remote.state with
      | error e => exact .bare rfl rfl rfl rfl
      | disconnected => exact .bare rfl rfl rfl rfl
      | connecting => exact .bare rfl rfl rfl rfl
      | awaitingDuplex => exact .bare rfl rfl rfl rfl
      | connected => exact .bare rfl rfl rfl rfl
  · obtain ⟨⟨g₁, pc₁⟩, hjoin, heq⟩ := Option.map_eq_some_iff.1 h
    cases heq
    exact join_admissionStep (fun pc => .manual (.join pc)) (fun _ => rfl) (fun _ => rfl)
      (fun _ => rfl) (fun _ => ⟨rfl, rfl⟩) hjoin
  · cases h

theorem admission_step {s : RegistrationServer} {t t' : Admission} {spawned : List Admission}
    (h : t.step s g ans = some (g', t', spawned)) : AdmissionStep g t g' t' := by
  cases t with
  | newService pc =>
    obtain ⟨⟨g₁, pc₁⟩, hstep, heq⟩ := Option.map_eq_some_iff.1 h
    cases heq
    exact handleNewService_step hstep
  | register pc =>
    obtain ⟨⟨g₁, pc₁⟩, hstep, heq⟩ := Option.map_eq_some_iff.1 h
    cases heq
    exact registerService_step hstep
  | manual pc =>
    obtain ⟨⟨g₁, pc₁⟩, hstep, heq⟩ := Option.map_eq_some_iff.1 h
    cases heq
    exact manualConnection_step hstep

end admitting

/-- The workers that an admission leaves are those of their uuids. -/
theorem AdmissionStep.workers_store {t t' : Admission} {g : Registry} (hi : i.Ordered)
    (h : AdmissionStep i.registry t g t') (k : String) (n : Nat) (hn : g.workers k = some n) :
    (i.workerUuids ++ t.makes)[n]? = some k := by
  obtain ⟨hmakes, hworkers⟩ | ⟨uuid, hmakes, _, rfl⟩ := h.workers
  · rw [hmakes, List.append_nil]
    rw [hworkers] at hn
    exact hi.workers k n hn
  · rw [hmakes]
    by_cases hk : k = uuid
    · -- the worker that has just been made
      have hmade : some i.workerUuids.length = some n := by
        simpa [Registry.addWorker, Instance.registry, hk] using hn
      rw [← Option.some.inj hmade, hk]
      simp
    · have hold : i.workers k = some n := by
        simpa [Registry.addWorker, Instance.registry, hk] using hn
      have hlt := hi.workers k n hold
      rw [List.getElem?_append_left (List.getElem?_eq_some_iff.1 hlt).1]
      exact hlt

theorem AdmissionStep.grows_store {t t' : Admission} {g : Registry}
    (h : AdmissionStep i.registry t g t') : i.Grows (i.store g t.makes) where
  workers k hk := by
    obtain ⟨_, hworkers⟩ | ⟨uuid, _, _, rfl⟩ := h.workers
    · show (g.workers k).isSome
      rw [hworkers]
      exact hk
    · show (Function.update i.workers uuid _ k).isSome
      by_cases hku : k = uuid
      · simp [hku]
      · simpa [hku] using hk
  workerUuids n k hn := by
    show (i.workerUuids ++ t.makes)[n]? = some k
    rw [List.getElem?_append_left (List.getElem?_eq_some_iff.1 hn).1]
    exact hn
  uuids := List.Subset.refl _

/-- An admission that is about to insert a record carries it. -/
theorem Admission.carried_of_inserts {t : Admission} {r : Remote} (h : t.inserts = some r) :
    t.carried = some r := by
  unfold Admission.inserts at h
  split at h
  · next pc => cases pc with
    | addRemote r' => exact h
    | addWorker _ | getWorker _ | connecting _ | returned _ | panicked => cases h
  · next pc => cases pc with
    | addRemote r' => exact h
    | addWorker _ | getWorker _ | connecting _ | returned _ | panicked => cases h
  · next pc => cases pc with
    | addRemote r' => exact h
    | addWorker _ | getWorker _ | connecting _ | returned _ | panicked => cases h
  · cases h

/-- What stands in the store once an admission has inserted its record. -/
theorem remote_of_inserted {i : Instance} {t : Admission} {r r' : Remote} {k : String}
    (hsound : (Activity.admission t).Sound i) (hr : t.inserts = some r)
    (h : (i.registry.insertRemote r).remote k = some r') :
    r'.transfers = [] ∨ i.registry.remote k = some r' := by
  rw [remote_insertRemote] at h
  by_cases hk : k = r.uuid
  · rw [if_pos hk] at h
    obtain rfl := Option.some.inj h
    exact .inl (hsound.1 r (Admission.carried_of_inserts hr)).1
  · rw [if_neg hk] at h
    exact .inr h

/-- An empty record takes the place of what is there. -/
theorem Activity.Keeps.inserted {t : Admission} {t' : Activity} {r : Remote}
    (hi : i.Ordered) (hgrows : i.Grows i') (hworkers : i'.workers = i.workers)
    (huuids : i'.workerUuids = i.workerUuids)
    (hremote : ∀ k, i'.remote k = if k = r.uuid then some r else i.remote k)
    (hempty : r.transfers = [] ∧ r.messages = []) (hworker : (i.workers r.uuid).isSome)
    (hpending : t'.pending = none) (hsound : t'.Sound i') :
    (Activity.admission t).Keeps i i' [t'] where
  grows := hgrows
  ordered := by
    obtain ⟨htransfers, hmessages⟩ := hempty
    have hcases : ∀ k r', i'.remote k = some r' →
        k = r.uuid ∧ r' = r ∨ i.remote k = some r' := by
      intro k r' hr'
      rw [hremote] at hr'
      by_cases hk : k = r.uuid
      · rw [if_pos hk] at hr'
        exact .inl ⟨hk, (Option.some.inj hr').symm⟩
      · rw [if_neg hk] at hr'
        exact .inr hr'
    constructor
    · intro k r' hr'
      rcases hcases k r' hr' with ⟨rfl, rfl⟩ | hold
      · rfl
      · exact hi.keyed k r' hold
    · intro k hk
      rw [hworkers]
      obtain ⟨r', hr'⟩ := Option.isSome_iff_exists.1 hk
      rcases hcases k r' hr' with ⟨rfl, _⟩ | hold
      · exact hworker
      · exact hi.registered k (by rw [hold]; rfl)
    · rw [hworkers, huuids]
      exact hi.workers
    · intro k r' t hr' ht
      rcases hcases k r' hr' with ⟨_, rfl⟩ | hold
      · rw [htransfers] at ht
        cases ht
      · exact (hi.transfers k r' t hold ht).mono hgrows
    · intro k r' msg hr' hmsg
      rcases hcases k r' hr' with ⟨_, rfl⟩ | hold
      · rw [hmessages] at hmsg
        cases hmsg
      · exact hi.messages k r' msg hold hmsg
  sound := by simpa using hsound
  load k u := by
    left
    rw [load_singleton, load_singleton, hpending]
    have hcount : (i'.stored k).count u ≤ (i.stored k).count u := by
      unfold Instance.stored
      rw [hremote]
      -- only the counts under the inserted uuid change, and there they drop to zero
      by_cases hk : k = r.uuid
      · simp [hk, hempty]
      · rw [if_neg hk]
    simp
    omega

theorem admission_keepsOrder {s : RegistrationServer} {t t' : Admission} {g : Registry}
    {ans : AdmitAnswer} {spawned : List Admission} (hi : i.Ordered)
    (hsound : (Activity.admission t).Sound i)
    (h : t.step s i.registry ans = some (g, t', spawned)) :
    (Activity.admission t).Keeps i (i.store g t.makes) [.admission t'] := by
  have hstep := admission_step h
  have hgrows := hstep.grows_store
  have hempty : ∀ r ∈ t'.carried, r.transfers = [] ∧ r.messages = [] := by
    intro r hr
    rcases hstep.carried r hr with hold | hnew
    · exact hsound.1 r hold
    · exact hnew
  have hworker : ∀ r ∈ t'.inserts, ((i.store g t.makes).workers r.uuid).isSome := by
    intro r hr
    have hmakes := hstep.inserts r hr
    obtain ⟨hnil, _⟩ | ⟨uuid, huuid, _, rfl⟩ := hstep.workers
    · rw [hnil] at hmakes
      cases hmakes
    · rw [huuid] at hmakes
      cases hmakes
      simp [Instance.store, Registry.addWorker]
  have hsound' : (Activity.admission t').Sound (i.store g t.makes) := ⟨hempty, hworker⟩
  -- an admission either leaves the contents of every record or puts an empty one in place
  cases (admission_move h).1 with
  | same g' hinserts hsame =>
    refine .retouched hi hgrows (hstep.workers_store hi) hsame.retouched ?_ ?_
    · intro t'' ht''
      rw [List.mem_singleton.1 ht'']
      exact hsound'
    · intro t'' ht''
      rw [List.mem_singleton.1 ht'']
      exact .inl rfl
  | insert r hr =>
    obtain ⟨hmakes, hworkers⟩ | ⟨uuid, _, hnone, _⟩ := hstep.workers
    · have huuids : (i.store (i.registry.insertRemote r) t.makes).workerUuids = i.workerUuids := by
        simp [Instance.store, hmakes]
      exact .inserted hi hgrows hworkers huuids (fun k => remote_insertRemote i.registry k r)
        (hsound.1 r (Admission.carried_of_inserts hr)) (hsound.2 r hr) rfl hsound'
    · rw [hnone] at hr
      cases hr

end keeping

/-! ## Section 6: Every run -/

theorem employs_getWorker {s : Settings} {i : Instance} {uuid : String} {w : Worker}
    (hi : i.Ordered) (h : i.getWorker s uuid = some w) : i.Employs w := by
  obtain ⟨n, hn, h⟩ := Option.bind_eq_some_iff.1 h
  have hlookup := hi.workers uuid n hn
  rw [hlookup] at h
  cases h
  exact ⟨n, rfl, hlookup⟩

theorem start_sound {i : Instance} {w : Worker} (hw : i.Employs w) (op : WorkerOp) :
    (op.start w).Sound i := by
  cases op with
  | sendTransferRequest sourcePaths => exact hw
  | acceptTransfer _ _ | stopTransfer _ _ | cancelTransfer _ | sendMessage _ => trivial

theorem pending_start (w : Worker) (op : WorkerOp) : (op.start w).pending = none := by
  cases op <;> rfl

theorem activity_keepsOrder {s : Settings} {i i' : Instance} {t t' : Activity}
    {spawned : List Activity}
    (hi : i.Ordered) (hdrawn : i.Drawn) (hsound : t.Sound i)
    (h : ActivityMove s i t i' t' spawned) :
    t.Keeps i i' (t' :: spawned) := by
  cases h with
  | admission t t' g ans spawned hstep => exact admission_keepsOrder hi hsound hstep
  | call t t' host ans spawned hstep => exact call_keepsOrder hi hdrawn hsound hstep
  | sendTextMessage pc pc' host hmove => exact text_keepsOrder hi hdrawn hmove
  | sendMessage w pc pc' host hmove => exact sendMessage_keepsOrder hi hdrawn hsound hmove
  -- the worker of a call is one that the instance has made
  | getWorker uuid op w hw =>
    refine .retouched hi (.refl i) hi.workers (.refl _) ?_ ?_
    · intro t' ht'
      rw [List.mem_singleton.1 ht']
      exact start_sound (employs_getWorker hi hw) op
    · intro t' ht'
      rw [List.mem_singleton.1 ht']
      exact .inl (pending_start w op)
  | missing uuid op =>
    exact .retouched hi (.refl i) hi.workers (.refl _) (by simp [Activity.Sound])
      (by simp [Activity.pending])

/-- An activity that may enter holds nothing. -/
theorem sound_of_entering {i : Instance} {t : Activity} (h : t.isNew = true) :
    t.Sound i ∧ t.pending = none := by
  unfold Activity.isNew at h
  split at h
  · next t =>
    refine ⟨?_, rfl⟩
    unfold Admission.isNew at h
    split at h
    · exact ⟨fun r hr => (by cases hr), fun r hr => (by cases hr)⟩
    · exact ⟨fun r hr => (by cases hr), fun r hr => (by cases hr)⟩
    · exact ⟨fun r hr => (by cases hr), fun r hr => (by cases hr)⟩
    · cases h
  · next t =>
    unfold Task.isPeerCall at h
    split at h
    · exact ⟨trivial, rfl⟩
    · exact ⟨trivial, rfl⟩
    · exact ⟨trivial, rfl⟩
    · exact ⟨trivial, rfl⟩
    · cases h
  · exact ⟨trivial, rfl⟩
  · exact ⟨trivial, rfl⟩
  · cases h

theorem retouched_change (i : Instance) (e : InstanceChange) :
    i.host.manager.Retouched (i.change e).host.manager := by
  cases e with
  | update uuid f => exact (sameRecords_update i.registry uuid f.content_apply).retouched
  | removed fullname =>
    have hsame := sameRecords_update i.registry fullname (f := Remote.removed) fun _ => rfl
    exact hsame.retouched
  | removeTransfer uuid transferUuid => exact RemoteManager.retouched_removeTransfer _ _ _
  | removeMessage uuid messageUuid => exact RemoteManager.retouched_removeMessage _ _ _
  | cancel token => exact .refl _
  | files files => exact .refl _
  | disk disk => exact .refl _

theorem change_workers (i : Instance) (e : InstanceChange) :
    (i.change e).workers = i.workers ∧ (i.change e).workerUuids = i.workerUuids ∧
      (i.change e).host.uuids = i.host.uuids := by
  cases e with
  | update uuid f => exact ⟨rfl, List.append_nil _, rfl⟩
  | removed fullname => exact ⟨rfl, List.append_nil _, rfl⟩
  | removeTransfer uuid transferUuid => exact ⟨rfl, List.append_nil _, rfl⟩
  | removeMessage uuid messageUuid => exact ⟨rfl, List.append_nil _, rfl⟩
  | cancel token => exact ⟨rfl, rfl, rfl⟩
  | files files => exact ⟨rfl, rfl, rfl⟩
  | disk disk => exact ⟨rfl, rfl, rfl⟩

theorem grows_change (i : Instance) (e : InstanceChange) : i.Grows (i.change e) := by
  obtain ⟨hworkers, huuids, hdrawn⟩ := change_workers i e
  refine ⟨fun k h => ?_, fun n k h => ?_, ?_⟩
  · rw [hworkers]
    exact h
  · rw [huuids]
    exact h
  · rw [hdrawn]
    exact List.Subset.refl _

section runs

variable {s : Settings} {p p' : Running} {l : RunningLabel}

theorem Running.Sound.drawn_stored (h : p.Sound) : p.shared.Drawn := by
  intro k u hu
  apply h.drawn k u
  have hpos : 0 < (p.shared.stored k).count u := List.count_pos_iff.2 hu
  unfold Instance.load
  omega

/-- The count of a pool after a step of one of its tasks. -/
theorem load_run {j : Nat} {t : Activity} (ht : p.tasks[j]? = some t) (i' : Instance)
    (t' : Activity) (spawned : List Activity) (k u : String) :
    i'.load (p.tasks.set j t' ++ spawned) k u + p.shared.load [t] k u
      = p.shared.load p.tasks k u + i'.load (t' :: spawned) k u := by
  have hcount := Tasking.countP_run (fun t => decide (t.pending = some (k, u))) ht t' spawned
  unfold Instance.load
  omega

theorem sound_step (h : p.Sound) (hstep : (activities s).poolStep p l = some p') : p'.Sound := by
  cases l with
  | run j ans =>
    obtain ⟨t, i', t', spawned, ht, hadvance, rfl⟩ := Tasking.run_cases hstep
    have hsound := h.sound t (List.mem_of_getElem? ht)
    have hkeeps := activity_keepsOrder h.ordered h.drawn_stored hsound (activity_move hadvance)
    have hload : ∀ k u, i'.load (p.tasks.set j t' ++ spawned) k u ≤ p.shared.load p.tasks k u ∨
        (u ∈ i'.host.uuids ∧ i'.load (p.tasks.set j t' ++ spawned) k u ≤ 1) := by
      intro k u
      have heq := load_run ht i' t' spawned k u
      -- the load of the one task that runs is replaced by that of what it leaves
      rcases hkeeps.load k u with hle | ⟨hfresh, huuid, hone⟩
      · left
        omega
      · -- nobody has held the new uuid before
        have hzero : p.shared.load p.tasks k u = 0 := by
          by_contra hne
          exact hfresh (h.drawn k u (Nat.pos_of_ne_zero hne))
        right
        exact ⟨huuid, by omega⟩
    refine ⟨hkeeps.ordered, ?_, fun k u => ?_, fun k u hpos => ?_⟩
    · exact Tasking.forall_run h.sound (fun u hu => hu.mono hkeeps.grows)
        (hkeeps.sound t' List.mem_cons_self)
        fun u hu => hkeeps.sound u (List.mem_cons_of_mem _ hu)
    · rcases hload k u with hle | ⟨_, hone⟩
      · exact hle.trans (h.once k u)
      · exact hone
    · rcases hload k u with hle | ⟨huuid, _⟩
      · exact hkeeps.grows.uuids (h.drawn k u (lt_of_lt_of_le hpos hle))
      · exact huuid
  | enter t =>
    obtain ⟨hnew, rfl⟩ := Tasking.enter_cases hstep
    obtain ⟨hsound, hpending⟩ := sound_of_entering (i := p.shared) hnew
    have hload : ∀ k u, p.shared.load (p.tasks ++ [t]) k u = p.shared.load p.tasks k u := by
      intro k u
      simp [Instance.load, List.countP_append, hpending]
    refine ⟨h.ordered, ?_, fun k u => ?_, fun k u hpos => ?_⟩
    · intro u hu
      rcases List.mem_append.1 hu with hold | hself
      · exact h.sound u hold
      · rw [List.mem_singleton.1 hself]
        exact hsound
    · rw [hload]
      exact h.once k u
    · rw [hload] at hpos
      exact h.drawn k u hpos
  | env e =>
    cases hstep
    -- the world outside stores nothing
    have hgrows := grows_change p.shared e
    obtain ⟨hworkers, huuids, _⟩ := change_workers p.shared e
    have hrecords := retouched_change p.shared e
    have hload : ∀ k u, (p.shared.change e).load p.tasks k u ≤ p.shared.load p.tasks k u := by
      intro k u
      have hstored := stored_retouched hrecords k u
      unfold Instance.load
      omega
    refine ⟨h.ordered.retouched hgrows ?_ hrecords, fun t ht => (h.sound t ht).mono hgrows,
      fun k u => (hload k u).trans (h.once k u), fun k u hpos => ?_⟩
    · intro k n hn
      show (p.shared.change e).workerUuids[n]? = some k
      rw [huuids]
      exact h.ordered.workers k n (hworkers ▸ hn)
    · exact hgrows.uuids (h.drawn k u (lt_of_lt_of_le hpos (hload k u)))

theorem sound_new (checks : Bool) : (Running.new checks).Sound where
  ordered :=
    { keyed := fun k r hr => by cases hr
      registered := fun k hk => by cases hk
      workers := fun k n hn => by cases hn
      transfers := fun k r t hr => by cases hr
      messages := fun k r msg hr => by cases hr }
  sound t ht := by cases ht
  once k u := by simp [Instance.load, Running.new, Instance.stored, Instance.remote, Instance.new,
    RemoteManager.remote, RemoteManager.empty]
  drawn k u hpos := by simp [Instance.load, Running.new, Instance.stored, Instance.remote,
    Instance.new, RemoteManager.remote, RemoteManager.empty] at hpos

theorem sound_of_reachable {checks : Bool} {ls : List RunningLabel}
    (hrun : (activities s).pool.exec (Running.new checks) ls = some p) : p.Sound :=
  Machine.exec_invariant (activities s).pool (fun _ _ _ hI hstep => sound_step hI hstep)
    (sound_new checks) hrun

end runs

end Warpinator
