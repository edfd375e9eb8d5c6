import Warpinator.Server.StateChanges

/-! # Protocol Ids

    A peer names a transfer by the `ident` of its remote and a protocol id, and
    `transfer_by_protocol_id` takes the first transfer with that id.

    `add_transfer` does not look for a transfer of the same id.
    `idsIdentify_iff`: the ids tell the transfers of every remote apart, in
    every state of a run, exactly if every addition finds its id unused. -/

namespace Warpinator

/-! ## Section 1: The ids under a remote -/

namespace RemoteManager

/-- The protocol ids of the transfers of a remote, in order. -/
def protocolIds (m : RemoteManager) (k : String) : List Nat :=
  (((m.remote k).map Remote.transfers).getD []).map Transfer.protocolId

variable {m m' : RemoteManager}

theorem protocolIds_of_transfers {k : String}
    (h : (m'.remote k).map Remote.transfers = (m.remote k).map Remote.transfers) :
    m'.protocolIds k = m.protocolIds k := by
  unfold protocolIds
  rw [h]

theorem protocolIds_of_remote {k : String} {r : Remote} (hr : m.remote k = some r) :
    m.protocolIds k = r.transfers.map Transfer.protocolId := by
  simp [protocolIds, hr]

theorem protocolIds_of_none {k : String} (hr : m.remote k = none) : m.protocolIds k = [] := by
  simp [protocolIds, hr]

theorem map_protocolId_updateFirst (u : String) (f : TransferUpdate) (ts : List Transfer) :
    (updateFirst u f ts).map Transfer.protocolId = ts.map Transfer.protocolId := by
  induction ts with
  | nil => rfl
  | cons t ts ih =>
    unfold updateFirst at ih ⊢
    rw [List.replaceF_cons]
    by_cases ht : t.uuid = u
    · simp [ht]
    · simp only [ht, if_false, List.map_cons, ih]

theorem protocolIds_updateTransfer (m : RemoteManager) (queued : Nat) (k u : String)
    (f : TransferUpdate) (k' : String) :
    (m.updateTransfer queued k u f).2.protocolIds k' = m.protocolIds k' := by
  unfold protocolIds
  rw [remote_updateTransfer]
  by_cases hk : k' = k
  · subst hk
    cases hr : m.remote k' with
    | none => simp
    | some r => simp [map_protocolId_updateFirst]
  · rw [if_neg hk]

theorem protocolIds_addTransfer (m : RemoteManager) (k : String) (t : Transfer) (k' : String) :
    (m.addTransfer k t).2.protocolIds k'
      = if k' = k ∧ (m.remote k).isSome then m.protocolIds k ++ [t.protocolId]
        else m.protocolIds k' := by
  unfold protocolIds
  rw [remote_addTransfer]
  by_cases hk : k' = k
  · subst hk
    cases hr : m.remote k' with
    | none => simp
    | some r => simp
  · rw [if_neg hk, if_neg fun h => hk h.1]

/-- A removal takes one id out. -/
theorem protocolIds_removeTransfer (m : RemoteManager) (k u k' : String) :
    ((m.removeTransfer k u).2.protocolIds k').Sublist (m.protocolIds k') := by
  rcases removeTransfer_cases m k u with heq | ⟨r, t, hr, _, heq⟩
  · rw [heq]
  · rw [heq]
    by_cases hk : k' = k
    · subst hk
      have hafter := remote_setRemote m k' k'
        { r with transfers := r.transfers.eraseP fun t => t.uuid = u } (.transferRemoved k' u)
      rw [if_pos rfl] at hafter
      rw [protocolIds_of_remote hafter, protocolIds_of_remote hr]
      exact List.eraseP_sublist.map _
    · have hafter := remote_setRemote m k k'
        { r with transfers := r.transfers.eraseP fun t => t.uuid = u } (.transferRemoved k u)
      rw [if_neg hk] at hafter
      rw [protocolIds_of_transfers (congrArg (Option.map Remote.transfers) hafter)]

/-- The lookup fails where the id is unused. -/
theorem transferByProtocolId_eq_none {k : String} {id : Nat} :
    m.transferByProtocolId k id = none ↔ id ∉ m.protocolIds k := by
  have hlookup : m.transferByProtocolId k id
      = (m.remote k).bind fun r => r.transfers.find? fun t => t.protocolId = id := rfl
  rw [hlookup]
  cases hr : m.remote k with
  | none => simp [protocolIds_of_none hr]
  | some r =>
    rw [protocolIds_of_remote hr, Option.bind_some, List.find?_eq_none]
    simp [eq_comm]

/-- An addition keeps the ids apart exactly if its id is unused. -/
theorem nodup_addTransfer_iff {k : String} {t : Transfer} (h : ∀ k', (m.protocolIds k').Nodup) :
    (∀ k', ((m.addTransfer k t).2.protocolIds k').Nodup)
      ↔ m.transferByProtocolId k t.protocolId = none := by
  rw [transferByProtocolId_eq_none]
  constructor
  · intro hafter hmem
    have hsome : (m.remote k).isSome := by
      by_contra hnot
      rw [protocolIds_of_none (by simpa using hnot)] at hmem
      cases hmem
    have hnodup := hafter k
    rw [protocolIds_addTransfer, if_pos ⟨rfl, hsome⟩, List.nodup_append] at hnodup
    exact hnodup.2.2 _ hmem _ List.mem_cons_self rfl
  · intro hnew k'
    rw [protocolIds_addTransfer]
    split
    · rw [List.nodup_append]
      refine ⟨h k, by simp, ?_⟩
      rintro id hid _ hlast rfl
      exact hnew (List.mem_singleton.1 hlast ▸ hid)
    · exact h k'

end RemoteManager

theorem Host.protocolIds_recordProgress (host : Host) (queued : Nat) (k u : String)
    (before after : List Progress) (k' : String) :
    (host.recordProgress queued k u before after).manager.protocolIds k'
      = host.manager.protocolIds k' := by
  unfold Host.recordProgress
  induction after.drop before.length generalizing host with
  | nil => rfl
  | cons p ps ih =>
    rw [List.foldl_cons, ih]
    exact RemoteManager.protocolIds_updateTransfer host.manager queued k u _ k'

/-! ## Section 2: What a step does to the ids -/

section steps

variable {i i' : Instance} {host host' : Host} {ans : Answer}

/-- A request that names a remote adds its transfer there. -/
theorem processTransferOpRequest_adds {req : TransferOpRequest} {info : OpInfo}
    {pc' : WarpServer.ProcessPc} (hinfo : req.info = some info)
    (h : WarpServer.processTransferOpRequest host (.add req) ans = some (host', pc')) :
    ∃ t, t.protocolId = info.timestamp ∧
      host'.manager = (host.addTransfer info.ident t).2.manager := by
  cases ans with
  | go queued =>
    simp only [WarpServer.processTransferOpRequest, hinfo] at h
    cases h
  | fresh id now =>
    refine ⟨.ofRequest id now info req, rfl, ?_⟩
    simp only [WarpServer.processTransferOpRequest, hinfo] at h
    split at h
    · cases h
    · split at h
      · next host₁ heq =>
        cases h
        exact (congrArg (fun result => result.2.manager) heq).symm
      · next host₁ heq =>
        cases h
        exact (congrArg (fun result => result.2.manager) heq).symm
  | noClient | processed _ | reply _ | send _ _ | receive _ _ _ => cases h

/-- A call that is about to add a transfer adds it with its next step. -/
theorem call_adds {t t' : Task} {spawned : List Task} {k : String} {id : Nat}
    (h : t.step host ans = some (host', t', spawned))
    (hadds : (Activity.call t).addition = some (k, id)) :
    ∃ tr, tr.protocolId = id ∧ host'.manager = (host.addTransfer k tr).2.manager := by
  cases task_move h with
  | processTransferOpRequest pc pc₁ hstep =>
    cases pc with
    | add req =>
      obtain ⟨info, hinfo, heq⟩ := Option.map_eq_some_iff.1 hadds
      obtain ⟨rfl, rfl⟩ := Prod.mk.inj heq
      exact processTransferOpRequest_adds hinfo hstep
    | returned result => cases hadds
  | sendTransferRequest w pc pc₁ hstep =>
    cases Worker.sendTransferRequest_move hstep with
    | added transfer =>
      obtain ⟨rfl, rfl⟩ := Prod.mk.inj (Option.some.inj hadds)
      exact ⟨transfer, rfl, rfl⟩
    | notAdded transfer e =>
      obtain ⟨rfl, rfl⟩ := Prod.mk.inj (Option.some.inj hadds)
      exact ⟨transfer, rfl, rfl⟩
    | refused _ | created _ _ _ _ _ | processed _ _ _ | notProcessed _ _ | answered _ _
    | failed _ _ _ | announced _ _ _ | lost _ _ _ | aborted _ _ _ _ => cases hadds
  | startTransfer _ _ _ | peerStopTransfer _ _ _ | cancelTransferOpRequest _ _ _
  | acceptTransfer _ _ _ _ | stopTransfer _ _ _ _ _ | cancelTransfer _ _ _ _
  | sendStream _ _ _ | receiveStream _ _ _ => cases hadds

/-- Any other call leaves the ids as they are. -/
theorem call_ids {t t' : Task} {spawned : List Task}
    (h : t.step host ans = some (host', t', spawned))
    (hadds : (Activity.call t).addition = none) (k : String) :
    host'.manager.protocolIds k = host.manager.protocolIds k := by
  cases call_effect h with
  | same hmanager => rw [hmanager]
  | progress queued k' u before after hmanager =>
    rw [hmanager]
    exact host.protocolIds_recordProgress queued k' u before after k
  | update queued k' u f _ hmanager =>
    rw [hmanager]
    exact host.manager.protocolIds_updateTransfer queued k' u f k
  | add k' t _ haddition _ =>
    rw [haddition] at hadds
    cases hadds

/-- An activity adds the transfer that it is about to add, and nothing else. -/
theorem activity_ids {s : Settings} {a a' : Activity} {spawned : List Activity}
    (hsound : a.Sound i) (h : ActivityMove s i a i' a' spawned) :
    (a.addition = none ∧
      ∀ k, (i'.host.manager.protocolIds k).Sublist (i.host.manager.protocolIds k)) ∨
    ∃ k t, a.addition = some (k, t.protocolId) ∧
      i'.host.manager = (i.host.manager.addTransfer k t).2 := by
  have hsame : (∀ k, i'.host.manager.protocolIds k = i.host.manager.protocolIds k) →
      ∀ k, (i'.host.manager.protocolIds k).Sublist (i.host.manager.protocolIds k) := by
    intro heq k
    rw [heq]
  cases h with
  | admission t t' g ans spawned hstep =>
    refine .inl ⟨rfl, ?_⟩
    cases (admission_move hstep).1 with
    | same g' _ hrecords =>
      exact hsame fun k =>
        RemoteManager.protocolIds_of_transfers (transfers_of_sameRecords hrecords k)
    | insert r hr =>
      intro k
      -- a record that is inserted has no transfers yet
      cases hk : (i.registry.insertRemote r).remote k with
      | none =>
        have hempty : (i.store (i.registry.insertRemote r) t.makes).host.manager.protocolIds k
            = [] := RemoteManager.protocolIds_of_none hk
        rw [hempty]
        exact List.nil_sublist _
      | some r' =>
        have hids : (i.store (i.registry.insertRemote r) t.makes).host.manager.protocolIds k
            = r'.transfers.map Transfer.protocolId := RemoteManager.protocolIds_of_remote hk
        rw [hids]
        rcases remote_of_inserted hsound hr hk with hempty | hbefore
        · rw [hempty]
          exact List.nil_sublist _
        · have hold : i.host.manager.protocolIds k = r'.transfers.map Transfer.protocolId :=
            RemoteManager.protocolIds_of_remote hbefore
          rw [hold]
  | call t t' host ans spawned hstep =>
    cases hadds : (Activity.call t).addition with
    | none => exact .inl ⟨rfl, hsame (call_ids hstep hadds)⟩
    | some addition =>
      obtain ⟨tr, hid, hmanager⟩ := call_adds hstep hadds
      exact .inr ⟨addition.1, tr, by rw [hid], hmanager⟩
  | sendTextMessage pc pc' host hmove =>
    refine .inl ⟨rfl, hsame fun k => ?_⟩
    cases hmove with
    | refused req status => rfl
    | added req id now result _ =>
      exact RemoteManager.protocolIds_of_transfers (transfers_addMessage i.host.manager _ _ k)
  | sendMessage w pc pc' host hmove =>
    refine .inl ⟨rfl, hsame fun k => ?_⟩
    cases hmove with
    | added msg result =>
      exact RemoteManager.protocolIds_of_transfers (transfers_addMessage i.host.manager _ _ k)
    | refused _ | created _ _ _ _ _ | answered _ _ | failed _ _ _ => rfl
  | getWorker uuid op w _ => exact .inl ⟨rfl, hsame fun _ => rfl⟩
  | missing uuid op => exact .inl ⟨rfl, hsame fun _ => rfl⟩

/-- Changes from outside add no id. -/
theorem change_ids (i : Instance) (e : InstanceChange) (k : String) :
    ((i.change e).host.manager.protocolIds k).Sublist (i.host.manager.protocolIds k) := by
  by_cases hremoval : ∃ k' u', e = .removeTransfer k' u'
  · obtain ⟨k', u', rfl⟩ := hremoval
    exact i.host.manager.protocolIds_removeTransfer k' u' k
  · have hnot : ∀ k u, e ≠ .removeTransfer k u := fun k' u' he => hremoval ⟨k', u', he⟩
    rw [RemoteManager.protocolIds_of_transfers (transfers_change i hnot k)]

end steps

/-! ## Section 3: Runs -/

/-- The ids tell the transfers of a remote apart, and the lookup by id finds
    the one. -/
structure IdsIdentify (p : Running) : Prop where
  nodup : ∀ k, (p.shared.host.manager.protocolIds k).Nodup
  resolves : ∀ k r t, p.shared.remote k = some r → t ∈ r.transfers →
    p.shared.host.transferByProtocolId k t.protocolId = some t

/-- The remote and the protocol id of the transfer that a step adds. -/
def Running.addition (p : Running) : RunningLabel → Option (String × Nat)
  | .run j _ => p.tasks[j]?.bind Activity.addition
  | _ => none

/-- A step that adds a transfer finds none with its protocol id. -/
def FindsNoTwin (p : Running) (l : RunningLabel) : Prop :=
  ∀ addition ∈ p.addition l,
    p.shared.host.transferByProtocolId addition.1 addition.2 = none

instance (p : Running) (l : RunningLabel) : Decidable (FindsNoTwin p l) := by
  unfold FindsNoTwin; infer_instance

variable {s : Settings} {p p' : Running} {l : RunningLabel}

theorem idsIdentify_of_nodup (h : ∀ k, (p.shared.host.manager.protocolIds k).Nodup) :
    IdsIdentify p := by
  refine ⟨h, fun k r t hr ht => ?_⟩
  have hids : p.shared.host.manager.protocolIds k = r.transfers.map Transfer.protocolId :=
    RemoteManager.protocolIds_of_remote hr
  have hnodup := h k
  rw [hids] at hnodup
  exact Option.bind_eq_some_iff.2 ⟨r, hr, find_key_of_mem hnodup ht⟩

theorem idsIdentify_iff_nodup :
    IdsIdentify p ↔ ∀ k, (p.shared.host.manager.protocolIds k).Nodup :=
  ⟨fun h => h.nodup, idsIdentify_of_nodup⟩

/-- A step keeps the ids apart exactly if what it adds has a new one. -/
theorem idsIdentify_step (hp : p.Sound) (hids : IdsIdentify p)
    (hstep : (activities s).poolStep p l = some p') : IdsIdentify p' ↔ FindsNoTwin p l := by
  cases l with
  | enter a =>
    obtain ⟨_, rfl⟩ := Tasking.enter_cases hstep
    exact iff_of_true ⟨hids.nodup, hids.resolves⟩ fun _ hadd => by cases hadd
  | env e =>
    cases hstep
    refine iff_of_true (idsIdentify_of_nodup fun k => ?_) fun _ hadd => by cases hadd
    exact (hids.nodup k).sublist (change_ids p.shared e k)
  | run j ans =>
    obtain ⟨a, i', a', spawned, ha, hadvance, rfl⟩ := Tasking.run_cases hstep
    have haddition : p.addition (.run j ans) = a.addition := by
      rw [Running.addition, ha, Option.bind_some]
    unfold FindsNoTwin
    rw [haddition]
    rcases activity_ids (hp.sound a (List.mem_of_getElem? ha)) (activity_move hadvance) with
      ⟨hnone, hsub⟩ | ⟨k, t, hadds, hmanager⟩
    · rw [hnone]
      refine iff_of_true (idsIdentify_of_nodup fun k => ?_) fun _ hadd => by cases hadd
      exact (hids.nodup k).sublist (hsub k)
    · rw [hadds, idsIdentify_iff_nodup]
      show (∀ k', (i'.host.manager.protocolIds k').Nodup) ↔ _
      rw [hmanager, RemoteManager.nodup_addTransfer_iff hids.nodup]
      constructor
      · rintro hnone _ ⟨⟩
        exact hnone
      · intro hall
        exact hall (k, t.protocolId) rfl

/-- Protocol ids identify the transfers in every state of a run exactly if
    every addition finds its id unused under the remote. -/
theorem idsIdentify_iff {checks : Bool} {ls : List RunningLabel}
    (hrun : (activities s).pool.exec (Running.new checks) ls = some p) :
    (activities s).pool.Always IdsIdentify (Running.new checks) ls ↔
      (activities s).pool.Along FindsNoTwin (Running.new checks) ls := by
  have hnew : IdsIdentify (Running.new checks) := idsIdentify_of_nodup fun _ => List.nodup_nil
  exact Machine.always_iff_along _ (I := Running.Sound) (P := IdsIdentify)
    (fun _ _ _ hI hP hstep => ⟨sound_step hI hstep, idsIdentify_step hI hP hstep⟩)
    (sound_new checks) hnew hrun

/-- A request of `b` with the given id. -/
def requestWithId (id : Nat) : TransferOpRequest where
  info := some ⟨"b", id, "", false⟩
  senderName := ""
  receiverName := ""
  receiver := ""
  size := 3
  count := 1
  nameIfSingle := "f"
  mimeIfSingle := "text/plain"
  topDirBasenames := ["f"]

/-- The host `b` registers itself and requests two transfers. -/
def twoRequests (id id' : Nat) : List RunningLabel :=
  [.enter (.admission (.register (.lookup registrationOfB))),
    .run 0 (.admission .go), .run 0 (.admission .go), .run 0 (.admission .go),
    .enter (.call (.processTransferOpRequest (.add (requestWithId id)))),
    .run 1 (.call (.fresh ⟨0, 1⟩ 0)),
    .enter (.call (.processTransferOpRequest (.add (requestWithId id')))),
    .run 2 (.call (.fresh ⟨0, 2⟩ 0))]

theorem idsIdentify_twoRequests :
    ∃ p, (activities settingsOfA).pool.exec (Running.new false) (twoRequests 1 2) = some p ∧
      ((activities settingsOfA).pool.Always IdsIdentify (Running.new false) (twoRequests 1 2) ↔
        (activities settingsOfA).pool.Along FindsNoTwin (Running.new false) (twoRequests 1 2)) ∧
      (activities settingsOfA).pool.Along FindsNoTwin (Running.new false) (twoRequests 1 2) :=
  ⟨_, rfl, idsIdentify_iff rfl, by decide⟩

/-- The second request repeats the id of the first: both are stored, and the
    lookup finds the older one. -/
theorem repeated_id_stored_twice :
    ∃ p, (activities settingsOfA).pool.exec (Running.new false) (twoRequests 1 1) = some p ∧
      p.shared.host.manager.protocolIds "b" = [1, 1] ∧
      (p.shared.host.transferByProtocolId "b" 1).map Transfer.uuid
        = some (Uuid.toString ⟨0, 1⟩) ∧
      ¬ IdsIdentify p := by
  refine ⟨_, rfl, by decide, by decide, fun h => ?_⟩
  have hnodup := h.nodup "b"
  revert hnodup
  decide

end Warpinator
