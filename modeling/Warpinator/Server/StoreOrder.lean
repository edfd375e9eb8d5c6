import Warpinator.Server.Instance

/-! # The Order of the Store

    What stands where in the records of an instance: every record under its own
    uuid with a worker, every transfer and message under its own `remote_uuid`,
    and every token below the worker of its remote (`Instance.Ordered`).

    Writes are of two kinds.  Most only touch up what is there
    (`RemoteManager.Retouched`); the others add one entry (`Instance.Adds`). -/

namespace Warpinator

namespace Instance

/-! ## Section 1: What is claimed of a store -/

structure WellFormed (i : Instance) : Prop where
  keyed : ∀ k r, i.remote k = some r → r.uuid = k
  worker : ∀ k r, i.remote k = some r → ∃ n, i.workers k = some n ∧ i.workerUuids[n]? = some k
  transfers : ∀ k r, i.remote k = some r → ∀ t ∈ r.transfers, t.remoteUuid = k
  messages : ∀ k r, i.remote k = some r → ∀ msg ∈ r.messages, msg.remoteUuid = k
  transferUuids : ∀ k r, i.remote k = some r → (r.transfers.map Transfer.uuid).Nodup
  messageUuids : ∀ k r, i.remote k = some r → (r.messages.map Message.uuid).Nodup

/-! ## Section 2: The invariant of the store -/

/-- A token below the one of a worker of the remote. -/
def Belongs (i : Instance) (k : String) (token : TokenId) : Prop :=
  ∃ n c, token = [n, c] ∧ i.workerUuids[n]? = some k

/-- A transfer that may stand under `k`. -/
def Placed (i : Instance) (k : String) (t : Transfer) : Prop :=
  t.remoteUuid = k ∧ ∀ sourcePaths token, t.kind = .outgoing sourcePaths token → i.Belongs k token

structure Ordered (i : Instance) : Prop where
  keyed : ∀ k r, i.remote k = some r → r.uuid = k
  registered : ∀ k, (i.remote k).isSome → (i.workers k).isSome
  workers : ∀ k n, i.workers k = some n → i.workerUuids[n]? = some k
  transfers : ∀ k r t, i.remote k = some r → t ∈ r.transfers → i.Placed k t
  messages : ∀ k r msg, i.remote k = some r → msg ∈ r.messages → msg.remoteUuid = k

/-- The uuids of the transfers and messages that are stored under `k`. -/
def stored (i : Instance) (k : String) : List String :=
  match i.remote k with
  | some r => r.transfers.map Transfer.uuid ++ r.messages.map Message.uuid
  | none => []

/-- Workers and uuids are never taken back. -/
structure Grows (i i' : Instance) : Prop where
  workers : ∀ k, (i.workers k).isSome → (i'.workers k).isSome
  workerUuids : ∀ (n : Nat) (k : String), i.workerUuids[n]? = some k →
    i'.workerUuids[n]? = some k
  uuids : i.host.uuids ⊆ i'.host.uuids

theorem Grows.refl (i : Instance) : i.Grows i := ⟨fun _ h => h, fun _ _ h => h, fun _ h => h⟩

theorem Belongs.mono {i i' : Instance} {k : String} {token : TokenId} (h : i.Belongs k token)
    (hgrows : i.Grows i') : i'.Belongs k token := by
  obtain ⟨n, c, rfl, hn⟩ := h
  exact ⟨n, c, rfl, hgrows.workerUuids n k hn⟩

theorem Placed.mono {i i' : Instance} {k : String} {t : Transfer} (h : i.Placed k t)
    (hgrows : i.Grows i') : i'.Placed k t :=
  ⟨h.1, fun sourcePaths token hkind => (h.2 sourcePaths token hkind).mono hgrows⟩

/-- Tokens of different remotes are on different branches. -/
theorem Belongs.not_prefix {i : Instance} {k k' : String} {token token' : TokenId}
    (h : i.Belongs k token) (h' : i.Belongs k' token') (hne : k' ≠ k) :
    token.isPrefixOf token' = false := by
  obtain ⟨n, c, rfl, hn⟩ := h
  obtain ⟨n', c', rfl, hn'⟩ := h'
  -- a worker's number stands for one remote
  have hnum : n ≠ n' := by
    intro heq
    rw [heq, hn'] at hn
    exact hne (Option.some.inj hn)
  simp [List.isPrefixOf, hnum]

end Instance

/-! ## Section 3: Writes that only touch up -/

/-- `r'` is `r` after a write that adds nothing: what stands in it has kept its
    names, a kind has at most become incoming, and no token has moved. -/
structure Remote.Kept (r r' : Remote) : Prop where
  uuid : r'.uuid = r.uuid
  transferUuids : (r'.transfers.map Transfer.uuid).Sublist (r.transfers.map Transfer.uuid)
  messages : r'.messages.Sublist r.messages
  transfers : ∀ t' ∈ r'.transfers, ∃ t ∈ r.transfers, t'.remoteUuid = t.remoteUuid ∧
    (t'.kind = t.kind ∨ ∃ destination, t'.kind = .incoming destination)
  tokens : ∀ t' ∈ r'.transfers, ∀ token, t'.kind.token = some token →
    ∃ t ∈ r.transfers, t.uuid = t'.uuid ∧ t.kind.token = some token

theorem Remote.Kept.refl (r : Remote) : r.Kept r :=
  ⟨rfl, .refl _, .refl _, fun t ht => ⟨t, ht, rfl, .inl rfl⟩, fun t ht _ h => ⟨t, ht, rfl, h⟩⟩

theorem Remote.Kept.trans {r r' r'' : Remote} (h : r.Kept r') (h' : r'.Kept r'') : r.Kept r'' where
  uuid := h'.uuid.trans h.uuid
  transferUuids := h'.transferUuids.trans h.transferUuids
  messages := h'.messages.trans h.messages
  transfers t'' ht'' := by
    obtain ⟨t', ht', huuid', hkind'⟩ := h'.transfers t'' ht''
    obtain ⟨t, ht, huuid, hkind⟩ := h.transfers t' ht'
    refine ⟨t, ht, huuid'.trans huuid, ?_⟩
    rcases hkind' with heq | hincoming
    · rw [heq]
      exact hkind
    · exact .inr hincoming
  tokens t'' ht'' token htoken := by
    obtain ⟨t', ht', huuid', htoken'⟩ := h'.tokens t'' ht'' token htoken
    obtain ⟨t, ht, huuid, htoken⟩ := h.tokens t' ht' token htoken'
    exact ⟨t, ht, huuid.trans huuid', htoken⟩

/-- The same uuid, transfers and messages. -/
theorem Remote.Kept.of_content {r r' : Remote} (h : r'.content = r.content) : r.Kept r' := by
  obtain ⟨huuid, hrest⟩ := Prod.mk.inj h
  obtain ⟨htransfers, hmessages⟩ := Prod.mk.inj hrest
  refine ⟨huuid, ?_, ?_, fun t ht => ⟨t, htransfers ▸ ht, rfl, .inl rfl⟩,
    fun t ht _ htoken => ⟨t, htransfers ▸ ht, rfl, htoken⟩⟩
  · rw [htransfers]
  · rw [hmessages]

/-- An update that leaves the token of a transfer in place. -/
def TransferUpdate.KeepsToken (f : TransferUpdate) : Prop :=
  ∀ t, (f.apply t).kind = t.kind ∨ ∃ destination, (f.apply t).kind = .incoming destination

theorem mem_updateFirst {u : String} {f : TransferUpdate} {ts : List Transfer} {t' : Transfer}
    (h : t' ∈ RemoteManager.updateFirst u f ts) : ∃ t ∈ ts, t' = t ∨ t' = f.apply t := by
  induction ts with
  | nil => cases h
  | cons t ts ih =>
    unfold RemoteManager.updateFirst at ih h
    rw [List.replaceF_cons] at h
    by_cases ht : t.uuid = u
    · -- the first transfer is the one that is updated
      rw [if_pos ht] at h
      rcases List.mem_cons.1 h with rfl | hmem
      · exact ⟨t, List.mem_cons_self, .inr rfl⟩
      · exact ⟨t', List.mem_cons_of_mem _ hmem, .inl rfl⟩
    · rw [if_neg ht] at h
      rcases List.mem_cons.1 h with rfl | hmem
      · exact ⟨t', List.mem_cons_self, .inl rfl⟩
      · obtain ⟨t₁, hmem₁, hrest⟩ := ih hmem
        exact ⟨t₁, List.mem_cons_of_mem _ hmem₁, hrest⟩

theorem Remote.Kept.updateFirst (r : Remote) (u : String) {f : TransferUpdate}
    (hf : f.KeepsToken) : r.Kept { r with
      transfers := RemoteManager.updateFirst u f r.transfers } where
  uuid := rfl
  transferUuids := by rw [map_uuid_updateFirst]
  messages := .refl _
  transfers t' ht' := by
    obtain ⟨t, ht, heq⟩ := mem_updateFirst ht'
    rcases heq with rfl | rfl
    · exact ⟨t', ht, rfl, .inl rfl⟩
    · exact ⟨t, ht, f.remoteUuid_apply t, hf t⟩
  tokens t' ht' token htoken := by
    obtain ⟨t, ht, heq⟩ := mem_updateFirst ht'
    rcases heq with rfl | rfl
    · exact ⟨t', ht, rfl, htoken⟩
    · refine ⟨t, ht, (f.uuid_apply t).symm, ?_⟩
      rcases hf t with hsame | ⟨destination, hincoming⟩
      · rw [← hsame]
        exact htoken
      · rw [hincoming] at htoken
        cases htoken

theorem Remote.Kept.eraseTransfer (r : Remote) (p : Transfer → Bool) :
    r.Kept { r with transfers := r.transfers.eraseP p } where
  uuid := rfl
  transferUuids := List.eraseP_sublist.map _
  messages := .refl _
  transfers t ht := ⟨t, List.mem_of_mem_eraseP ht, rfl, .inl rfl⟩
  tokens t ht _ htoken := ⟨t, List.mem_of_mem_eraseP ht, rfl, htoken⟩

theorem Remote.Kept.eraseMessage (r : Remote) (p : Message → Bool) :
    r.Kept { r with messages := r.messages.eraseP p } where
  uuid := rfl
  transferUuids := .refl _
  messages := List.eraseP_sublist
  transfers t ht := ⟨t, ht, rfl, .inl rfl⟩
  tokens t ht _ htoken := ⟨t, ht, rfl, htoken⟩

/-- No record is new, and each is what a write has left of it. -/
structure RemoteManager.Retouched (m m' : RemoteManager) : Prop where
  records : ∀ k r', m'.remote k = some r' → ∃ r, m.remote k = some r ∧ r.Kept r'

namespace RemoteManager

theorem Retouched.refl (m : RemoteManager) : m.Retouched m := ⟨fun _ r hr => ⟨r, hr, .refl r⟩⟩

theorem Retouched.trans {m m' m'' : RemoteManager} (h : m.Retouched m') (h' : m'.Retouched m'') :
    m.Retouched m'' where
  records k r'' hr'' := by
    obtain ⟨r', hr', hkept'⟩ := h'.records k r'' hr''
    obtain ⟨r, hr, hkept⟩ := h.records k r' hr'
    exact ⟨r, hr, hkept.trans hkept'⟩

/-- A write of at most one record. -/
theorem Retouched.of_write {m m' : RemoteManager} {k : String} {g : Remote → Remote}
    (hwrite : ∀ k', m'.remote k' = if k' = k then (m.remote k).map g else m.remote k')
    (hg : ∀ r : Remote, r.Kept (g r)) : m.Retouched m' where
  records k' r' hr' := by
    rw [hwrite] at hr'
    by_cases hk : k' = k
    · rw [if_pos hk] at hr'
      obtain ⟨r, hr, rfl⟩ := Option.map_eq_some_iff.1 hr'
      exact ⟨r, hk ▸ hr, hg r⟩
    · rw [if_neg hk] at hr'
      exact ⟨r', hr', .refl r'⟩

variable (m : RemoteManager) (k k' u : String)

theorem updateFirst_of_find_none {f : TransferUpdate} {ts : List Transfer}
    (h : ts.find? (fun t => t.uuid = u) = none) : updateFirst u f ts = ts := by
  induction ts with
  | nil => rfl
  | cons t ts ih =>
    have ht : ¬ t.uuid = u := by
      intro ht
      simp [ht] at h
    have hrest : ts.find? (fun t => t.uuid = u) = none := by simpa [ht] using h
    have htail := ih hrest
    unfold updateFirst at htail ⊢
    rw [List.replaceF_cons, if_neg ht]
    exact congrArg _ htail

/-- What `update_transfer` does to the records. -/
theorem remote_updateTransfer (queued : Nat) (f : TransferUpdate) :
    (m.updateTransfer queued k u f).2.remote k'
      = if k' = k then (m.remote k).map fun r => { r with transfers := updateFirst u f r.transfers }
        else m.remote k' := by
  unfold updateTransfer RemoteManager.remote
  cases hr : m.remotes k with
  | none =>
    by_cases hk : k' = k
    · simp [hk, hr]
    · simp [hk]
  | some r =>
    cases ht : m.transfer k u with
    | none =>
      by_cases hk : k' = k
      · have hfind : r.transfers.find? (fun t => t.uuid = u) = none := by
          simpa [RemoteManager.transfer, hr] using ht
        simp [hk, hr, updateFirst_of_find_none u hfind]
      · simp [hk]
    | some t =>
      dsimp only
      by_cases hk : k' = k
      · split <;> simp [hk]
      · split <;> simp [hk]

/-- A write that stores a new record for a remote, where there is one. -/
theorem remote_of_write {m' : RemoteManager} {g : Remote → Remote} (event : WarpEvent)
    (hnone : m.remotes k = none → m' = m)
    (hsome : ∀ r, m.remotes k = some r → m' = m.setRemote k (g r) event) :
    m'.remote k' = if k' = k then (m.remote k).map g else m.remote k' := by
  cases hr : m.remotes k with
  | none =>
    rw [hnone hr]
    by_cases hk : k' = k
    · simp [RemoteManager.remote, hk, hr]
    · simp [hk]
  | some r =>
    rw [hsome r hr, remote_setRemote]
    by_cases hk : k' = k
    · simp [RemoteManager.remote, hk, hr]
    · simp [hk]

theorem remote_addTransfer (t : Transfer) :
    (m.addTransfer k t).2.remote k'
      = if k' = k then (m.remote k).map fun r => { r with transfers := r.transfers ++ [t] }
        else m.remote k' := by
  refine remote_of_write m k k' (.transferAdded k t.uuid) (fun hr => ?_) fun r hr => ?_
  · simp [addTransfer, hr]
  · simp [addTransfer, hr]

theorem remote_addMessage (msg : Message) :
    (m.addMessage k msg).2.remote k'
      = if k' = k then (m.remote k).map fun r => { r with messages := r.messages ++ [msg] }
        else m.remote k' := by
  refine remote_of_write m k k' (.messageAdded k msg.uuid) (fun hr => ?_) fun r hr => ?_
  · simp [addMessage, hr]
  · simp [addMessage, hr]

theorem retouched_updateTransfer (queued : Nat) {f : TransferUpdate} (hf : f.KeepsToken) :
    m.Retouched (m.updateTransfer queued k u f).2 :=
  .of_write (fun k' => remote_updateTransfer m k k' u queued f) fun r => .updateFirst r u hf

theorem RecordWrite.retouched {m m' : RemoteManager} {k : String} {f : Remote → Remote}
    {event : WarpEvent} (h : m.RecordWrite k f event m') (hf : ∀ r : Remote, r.Kept (f r)) :
    m.Retouched m' where
  records k' r' hr' := by
    cases h with
    | missed => exact ⟨r', hr', .refl r'⟩
    | written hr =>
      rw [remote_setRemote] at hr'
      by_cases hk : k' = k
      · rw [if_pos hk] at hr'
        obtain rfl := Option.some.inj hr'
        exact ⟨_, hk ▸ hr, hf _⟩
      · rw [if_neg hk] at hr'
        exact ⟨r', hr', .refl r'⟩

theorem retouched_removeTransfer : m.Retouched (m.removeTransfer k u).2 :=
  (m.removeTransfer_write k u).retouched fun r => .eraseTransfer r _

theorem retouched_removeMessage : m.Retouched (m.removeMessage k u).2 :=
  (m.removeMessage_write k u).retouched fun r => .eraseMessage r _

end RemoteManager

/-- A write that leaves uuids, transfers and messages of every remote alone. -/
theorem SameRecords.retouched {g g' : Registry} (h : SameRecords g g') :
    g.manager.Retouched g'.manager where
  records k r' hr' := by
    have hcontent := h.content k
    have hsome : g'.remote k = some r' := hr'
    rw [hsome] at hcontent
    obtain ⟨r, hr, heq⟩ := Option.map_eq_some_iff.1 hcontent.symm
    exact ⟨r, hr, .of_content heq.symm⟩

/-! ## Section 4: What writes do to the order -/

section ordering

variable {i i' : Instance}

theorem Instance.Ordered.retouched (h : i.Ordered) (hgrows : i.Grows i')
    (hworkers : ∀ (k : String) (n : Nat), i'.workers k = some n → i'.workerUuids[n]? = some k)
    (hrecords : i.host.manager.Retouched i'.host.manager) : i'.Ordered where
  keyed k r' hr' := by
    obtain ⟨r, hr, hkept⟩ := hrecords.records k r' hr'
    exact hkept.uuid.trans (h.keyed k r hr)
  registered k hk := by
    obtain ⟨r', hr'⟩ := Option.isSome_iff_exists.1 hk
    obtain ⟨r, hr, _⟩ := hrecords.records k r' hr'
    have hsome : i.remote k = some r := hr
    exact hgrows.workers k (h.registered k (by rw [hsome]; rfl))
  workers := hworkers
  transfers k r' t' hr' ht' := by
    obtain ⟨r, hr, hkept⟩ := hrecords.records k r' hr'
    obtain ⟨t, ht, huuid, hkind⟩ := hkept.transfers t' ht'
    have hplaced := (h.transfers k r t hr ht).mono hgrows
    refine ⟨huuid.trans hplaced.1, fun sourcePaths token htoken => ?_⟩
    rcases hkind with heq | ⟨destination, hincoming⟩
    · exact hplaced.2 sourcePaths token (heq.symm.trans htoken)
    · rw [hincoming] at htoken
      cases htoken
  messages k r' msg hr' hmsg := by
    obtain ⟨r, hr, hkept⟩ := hrecords.records k r' hr'
    exact h.messages k r msg hr (hkept.messages.subset hmsg)

theorem stored_retouched (hrecords : i.host.manager.Retouched i'.host.manager) (k u : String) :
    (i'.stored k).count u ≤ (i.stored k).count u := by
  unfold Instance.stored
  cases hr' : i'.remote k with
  | none => simp
  | some r' =>
    obtain ⟨r, hr, hkept⟩ := hrecords.records k r' hr'
    have hsome : i.remote k = some r := hr
    rw [hsome]
    exact (hkept.transferUuids.append (hkept.messages.map _)).count_le u

/-- A new entry under `k`, in an instance whose records are those of `i`. -/
structure Instance.Adds (i : Instance) (k u : String) (i' : Instance) : Prop where
  grows : i.Grows i'
  ordered : i'.Ordered
  count : ∀ k' u', (i'.stored k').count u'
    ≤ (i.stored k').count u' + if k' = k ∧ u' = u then 1 else 0

/-- `r'` is `r` with at most one more entry, which may stand under `k`. -/
structure Remote.Gains (i : Instance) (k u : String) (r r' : Remote) : Prop where
  uuid : r'.uuid = r.uuid
  transfers : ∀ t ∈ r'.transfers, t ∈ r.transfers ∨ i.Placed k t
  messages : ∀ msg ∈ r'.messages, msg ∈ r.messages ∨ msg.remoteUuid = k
  count : ∀ u', (r'.transfers.map Transfer.uuid ++ r'.messages.map Message.uuid).count u'
    ≤ (r.transfers.map Transfer.uuid ++ r.messages.map Message.uuid).count u'
      + if u' = u then 1 else 0

theorem Remote.gains_transfer {k : String} {t : Transfer} (ht : i.Placed k t) (r : Remote) :
    r.Gains i k t.uuid { r with transfers := r.transfers ++ [t] } where
  uuid := rfl
  transfers t' ht' := by
    rcases List.mem_append.1 ht' with hold | hnew
    · exact .inl hold
    · exact .inr (List.mem_singleton.1 hnew ▸ ht)
  messages _ h := .inl h
  count u' := by
    by_cases hu : u' = t.uuid
    · simp [hu]
      omega
    · have hne : ¬ t.uuid = u' := fun h => hu h.symm
      simp [hu, hne]

theorem Remote.gains_message {k : String} {msg : Message} (hmsg : msg.remoteUuid = k) (r : Remote) :
    r.Gains i k msg.uuid { r with messages := r.messages ++ [msg] } where
  uuid := rfl
  transfers _ h := .inl h
  messages msg' hmsg' := by
    rcases List.mem_append.1 hmsg' with hold | hnew
    · exact .inl hold
    · exact .inr (List.mem_singleton.1 hnew ▸ hmsg)
  count u' := by
    by_cases hu : u' = msg.uuid
    · simp [hu]
      omega
    · have hne : ¬ msg.uuid = u' := fun h => hu h.symm
      simp [hu, hne]

theorem adds_of_write {k u : String} {g : Remote → Remote} (hi : i.Ordered) (hgrows : i.Grows i')
    (hworkers : i'.workers = i.workers) (huuids : i'.workerUuids = i.workerUuids)
    (hwrite : ∀ k', i'.remote k' = if k' = k then (i.remote k).map g else i.remote k')
    (hg : ∀ r, Remote.Gains i k u r (g r)) : i.Adds k u i' := by
  -- every record is the one that was there, or the one under `k` after the write
  have hcases : ∀ k' r', i'.remote k' = some r' →
      ∃ r, i.remote k' = some r ∧ (k' = k ∧ r' = g r ∨ k' ≠ k ∧ r' = r) := by
    intro k' r' hr'
    rw [hwrite] at hr'
    by_cases hk : k' = k
    · rw [if_pos hk] at hr'
      obtain ⟨r, hr, rfl⟩ := Option.map_eq_some_iff.1 hr'
      exact ⟨r, hk ▸ hr, .inl ⟨hk, rfl⟩⟩
    · rw [if_neg hk] at hr'
      exact ⟨r', hr', .inr ⟨hk, rfl⟩⟩
  refine ⟨hgrows, ⟨?_, ?_, ?_, ?_, ?_⟩, fun k' u' => ?_⟩
  · intro k' r' hr'
    obtain ⟨r, hr, ⟨_, rfl⟩ | ⟨_, rfl⟩⟩ := hcases k' r' hr'
    · exact (hg r).uuid.trans (hi.keyed k' r hr)
    · exact hi.keyed k' r' hr
  · intro k' hk'
    obtain ⟨r', hr'⟩ := Option.isSome_iff_exists.1 hk'
    obtain ⟨r, hr, _⟩ := hcases k' r' hr'
    exact hgrows.workers k' (hi.registered k' (by rw [hr]; rfl))
  · rw [hworkers, huuids]
    exact hi.workers
  · intro k' r' t ht' ht
    obtain ⟨r, hr, ⟨hk, rfl⟩ | ⟨_, rfl⟩⟩ := hcases k' r' ht'
    · rcases (hg r).transfers t ht with hold | hnew
      · exact (hi.transfers k' r t hr hold).mono hgrows
      · exact (hk ▸ hnew).mono hgrows
    · exact (hi.transfers k' r' t hr ht).mono hgrows
  · intro k' r' msg hr' hmsg
    obtain ⟨r, hr, ⟨hk, rfl⟩ | ⟨_, rfl⟩⟩ := hcases k' r' hr'
    · rcases (hg r).messages msg hmsg with hold | hnew
      · exact hi.messages k' r msg hr hold
      · exact hk ▸ hnew
    · exact hi.messages k' r' msg hr hmsg
  · unfold Instance.stored
    cases hr' : i'.remote k' with
    | none => simp
    | some r' =>
      obtain ⟨r, hr, ⟨hk, rfl⟩ | ⟨_, rfl⟩⟩ := hcases k' r' hr'
      · rw [hr]
        simpa [hk] using (hg r).count u'
      · rw [hr]
        simp

theorem adds_transfer (host : Host) {k : String} {t : Transfer} (hi : i.Ordered)
    (hmanager : host.manager = i.host.manager) (huuids : i.host.uuids ⊆ host.uuids)
    (ht : i.Placed k t) : i.Adds k t.uuid { i with host := (host.addTransfer k t).2 } := by
  refine adds_of_write hi ⟨fun _ h => h, fun _ _ h => h, huuids⟩ rfl rfl (fun k' => ?_)
    (Remote.gains_transfer ht)
  have h := RemoteManager.remote_addTransfer host.manager k k' t
  show (host.manager.addTransfer k t).2.remote k' = _
  rw [hmanager] at h ⊢
  exact h

theorem adds_message (host : Host) {k : String} {msg : Message} (hi : i.Ordered)
    (hmanager : host.manager = i.host.manager) (huuids : i.host.uuids ⊆ host.uuids)
    (hmsg : msg.remoteUuid = k) :
    i.Adds k msg.uuid { i with host := (host.addMessage k msg).2 } := by
  refine adds_of_write hi ⟨fun _ h => h, fun _ _ h => h, huuids⟩ rfl rfl (fun k' => ?_)
    (Remote.gains_message hmsg)
  have h := RemoteManager.remote_addMessage host.manager k k' msg
  show (host.manager.addMessage k msg).2.remote k' = _
  rw [hmanager] at h ⊢
  exact h

end ordering

end Warpinator
