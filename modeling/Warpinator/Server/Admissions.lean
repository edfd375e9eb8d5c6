import Warpinator.Lib.Pool
import Warpinator.Server.Discovery

/-! # Concurrent Admissions

    Any number of admissions, of the same remote or of others, while transfers
    and messages are added to the remotes.

    An admission that has found no record inserts its own later, whatever has
    been inserted in the meantime.  `admits_iff_findsNone`: one loop for each
    uuid and no lost transfer or message, exactly if every insertion finds no
    record. -/

namespace Warpinator

/-! ## Section 1: Admissions as tasks -/

inductive Admission where
  | newService (pc : NewServicePc)
  | register (pc : RegisterPc)
  | manual (pc : ManualPc)

def Admission.step (s : RegistrationServer) (g : Registry) (t : Admission) (ans : AdmitAnswer) :
    Option (Registry × Admission × List Admission) :=
  match t with
  | .newService pc => (handleNewService g pc ans).map fun (g, pc) => (g, .newService pc, [])
  | .register pc => (s.registerService g pc ans).map fun (g, pc) => (g, .register pc, [])
  | .manual pc => (manualConnection g pc ans).map fun (g, pc) => (g, .manual pc, [])

def Admission.isNew : Admission → Bool
  | .newService (.resolve _) => true
  | .register (.lookup _) => true
  | .manual (.parse _) => true
  | _ => false

/-- What else happens to the records. -/
inductive RecordChange where
  | update (uuid : String) (f : RemoteUpdate)
  | removed (fullname : String)
  | addTransfer (uuid : String) (t : Transfer)
  | updateTransfer (queued : Nat) (uuid transferUuid : String) (f : TransferUpdate)
  | removeTransfer (uuid transferUuid : String)
  | addMessage (uuid : String) (msg : Message)
  | removeMessage (uuid messageUuid : String)

def Registry.change (g : Registry) : RecordChange → Registry
  | .update uuid f => g.updateRemote uuid f.apply
  | .removed fullname => g.updateRemote fullname Remote.removed
  | .addTransfer uuid t => { g with manager := (g.manager.addTransfer uuid t).2 }
  | .updateTransfer queued uuid transferUuid f =>
    { g with manager := (g.manager.updateTransfer queued uuid transferUuid f).2 }
  | .removeTransfer uuid transferUuid =>
    { g with manager := (g.manager.removeTransfer uuid transferUuid).2 }
  | .addMessage uuid msg => { g with manager := (g.manager.addMessage uuid msg).2 }
  | .removeMessage uuid messageUuid =>
    { g with manager := (g.manager.removeMessage uuid messageUuid).2 }

def admissions (s : RegistrationServer) : Tasking Registry Admission AdmitAnswer RecordChange where
  step := Admission.step s
  mayEnter := Admission.isNew
  env := Registry.change

abbrev Lobby : Type := Pool Registry Admission

abbrev LobbyLabel : Type := PoolLabel Admission AdmitAnswer RecordChange

/-! ## Section 2: What a step does to the records -/

/-- What an update leaves alone. -/
def Remote.content (r : Remote) : String × List Transfer × List Message :=
  (r.uuid, r.transfers, r.messages)

/-- The same records, apart from what an update may change. -/
structure SameRecords (g g' : Registry) : Prop where
  content : ∀ k, (g'.remote k).map Remote.content = (g.remote k).map Remote.content
  loops : g'.loops = g.loops

theorem SameRecords.refl (g : Registry) : SameRecords g g := ⟨fun _ => rfl, rfl⟩

theorem SameRecords.isSome {g g' : Registry} (h : SameRecords g g') (k : String) :
    (g'.remote k).isSome = (g.remote k).isSome := by
  simpa using congrArg Option.isSome (h.content k)

theorem sameRecords_update (g : Registry) (uuid : String) {f : Remote → Remote}
    (hf : ∀ r, (f r).content = r.content) : SameRecords g (g.updateRemote uuid f) where
  content k := by
    rw [remote_updateRemote]
    split
    · next hk =>
      subst hk
      simp [Function.comp_def, hf]
    · rfl
  loops := rfl

theorem RemoteUpdate.content_apply (f : RemoteUpdate) (r : Remote) :
    (f.apply r).content = r.content := by
  simp [Remote.content, f.uuid_apply, f.transfers_apply, f.messages_apply]

theorem remote_leaveRemote (g : Registry) (uuid k : String) (r : Remote) :
    (g.leaveRemote uuid r).remote k = if k = uuid then some r else g.remote k := by
  unfold Registry.leaveRemote Registry.remote RemoteManager.remote
  by_cases hk : k = uuid
  · simp [hk]
  · simp [hk]

theorem sameRecords_leave {g : Registry} {uuid : String} {r r' : Remote}
    (hr : g.remote uuid = some r) (hcontent : r'.content = r.content) :
    SameRecords g (g.leaveRemote uuid r') where
  content k := by
    rw [remote_leaveRemote]
    split
    · next hk =>
      subst hk
      simp [hr, hcontent]
    · rfl
  loops := rfl

/-- The record that the next step of a task inserts. -/
def JoinPc.inserts {ρ : Type} : JoinPc ρ → Option Remote
  | .addRemote r => some r
  | _ => none

def Admission.inserts : Admission → Option Remote
  | .newService (.join pc) => pc.inserts
  | .register (.join pc) => pc.inserts
  | .manual (.join pc) => pc.inserts
  | _ => none

/-- The moves of an admission. -/
inductive AdmissionMove (g : Registry) (t : Admission) : Registry → Prop
  | same (g' : Registry) : t.inserts = none → SameRecords g g' → AdmissionMove g t g'
  | insert (r : Remote) : t.inserts = some r → AdmissionMove g t (g.insertRemote r)

/-- What a step of an admission does, by the record that it inserts. -/
inductive RegistryStep (g : Registry) : Option Remote → Registry → Prop
  | idle : RegistryStep g none g
  | worker (uuid : String) : RegistryStep g none (g.addWorker uuid)
  | update (uuid : String) {f : Remote → Remote} (hf : ∀ r, (f r).content = r.content) :
      RegistryStep g none (g.updateRemote uuid f)
  /-- A closure has panicked halfway. -/
  | leave {uuid : String} {r r' : Remote} (hr : g.remote uuid = some r)
      (hcontent : r'.content = r.content) : RegistryStep g none (g.leaveRemote uuid r')
  | insert (r : Remote) : RegistryStep g (some r) (g.insertRemote r)

section steps

variable {g g' : Registry}

theorem join_registryStep {ρ : Type} {e : JoinEnd ρ} {pc pc' : JoinPc ρ} {ans : AdmitAnswer}
    (h : e.step g pc ans = some (g', pc')) : RegistryStep g pc.inserts g' := by
  unfold JoinEnd.step at h
  split at h
  · next r =>
    cases h
    exact .worker r.uuid
  · next r =>
    cases h
    exact .insert r
  · split at h
    · cases h
      exact .idle
    · cases h
      exact .idle
  · next uuid result effect =>
    cases h
    exact .update uuid effect.content_apply
  · cases h

theorem handleNewService_registryStep {pc pc' : NewServicePc} {ans : AdmitAnswer}
    (h : handleNewService g pc ans = some (g', pc')) :
    RegistryStep g (Admission.newService pc).inserts g' := by
  unfold handleNewService at h
  split at h
  · split at h
    · cases h
      exact .idle
    · split at h
      · cases h
        exact .idle
      · cases h
        exact .idle
  · next service remote =>
    cases h
    exact .update service.name fun _ => rfl
  · obtain ⟨⟨g₁, pc₁⟩, hjoin, heq⟩ := Option.map_eq_some_iff.1 h
    obtain ⟨rfl, rfl⟩ := Prod.mk.inj heq
    exact join_registryStep hjoin
  · cases h

theorem registerService_registryStep {s : RegistrationServer} {pc pc' : RegisterPc}
    {ans : AdmitAnswer} (h : s.registerService g pc ans = some (g', pc')) :
    RegistryStep g (Admission.register pc).inserts g' := by
  unfold RegistrationServer.registerService at h
  split at h
  · split at h
    · split at h
      · cases h
        exact .idle
      · split at h
        · cases h
          exact .idle
        · cases h
          exact .idle
    · split at h
      · cases h
        exact .idle
      · split at h
        · cases h
          exact .idle
        · cases h
          exact .idle
  · next req ip needsReconnect =>
    split at h
    · cases h
      exact .idle
    -- a port that does not fit panics, after the address or the first port is written
    · next r hr =>
      split at h
      · cases h
        exact .leave hr rfl
      · cases h
        exact .leave hr rfl
      · cases h
        exact .update req.serviceId fun _ => rfl
  · obtain ⟨⟨g₁, pc₁⟩, hjoin, heq⟩ := Option.map_eq_some_iff.1 h
    obtain ⟨rfl, rfl⟩ := Prod.mk.inj heq
    exact join_registryStep hjoin
  · cases h

theorem manualConnection_registryStep {pc pc' : ManualPc} {ans : AdmitAnswer}
    (h : manualConnection g pc ans = some (g', pc')) :
    RegistryStep g (Admission.manual pc).inserts g' := by
  unfold manualConnection at h
  split at h
  · split at h
    · cases h
      exact .idle
    · cases h
      exact .idle
  · cases h
    exact .idle
  · cases h
    exact .idle
  · cases h
    exact .idle
  · cases h
    exact .idle
  · split at h
    · cases h
      exact .idle
    · split at h
      · cases h
        exact .idle
      · cases h
        exact .idle
  · next ip service remote =>
    split at h
    · cases h
      exact .idle
    · cases h
      exact .update remote.uuid fun _ => rfl
  · obtain ⟨⟨g₁, pc₁⟩, hjoin, heq⟩ := Option.map_eq_some_iff.1 h
    obtain ⟨rfl, rfl⟩ := Prod.mk.inj heq
    exact join_registryStep hjoin
  · cases h

theorem admission_registryStep {s : RegistrationServer} {t t' : Admission} {ans : AdmitAnswer}
    {spawned : List Admission} (h : t.step s g ans = some (g', t', spawned)) :
    RegistryStep g t.inserts g' ∧ spawned = [] := by
  cases t with
  | newService pc =>
    obtain ⟨⟨g₁, pc₁⟩, hstep, heq⟩ := Option.map_eq_some_iff.1 h
    obtain ⟨rfl, hrest⟩ := Prod.mk.inj heq
    exact ⟨handleNewService_registryStep hstep, (Prod.mk.inj hrest).2.symm⟩
  | register pc =>
    obtain ⟨⟨g₁, pc₁⟩, hstep, heq⟩ := Option.map_eq_some_iff.1 h
    obtain ⟨rfl, hrest⟩ := Prod.mk.inj heq
    exact ⟨registerService_registryStep hstep, (Prod.mk.inj hrest).2.symm⟩
  | manual pc =>
    obtain ⟨⟨g₁, pc₁⟩, hstep, heq⟩ := Option.map_eq_some_iff.1 h
    obtain ⟨rfl, hrest⟩ := Prod.mk.inj heq
    exact ⟨manualConnection_registryStep hstep, (Prod.mk.inj hrest).2.symm⟩

/-- Only an insertion changes which records there are, or what they hold. -/
theorem admission_move {s : RegistrationServer} {t t' : Admission} {ans : AdmitAnswer}
    {spawned : List Admission} (h : t.step s g ans = some (g', t', spawned)) :
    AdmissionMove g t g' ∧ spawned = [] := by
  obtain ⟨hstep, hspawned⟩ := admission_registryStep h
  refine ⟨?_, hspawned⟩
  generalize hinserts : t.inserts = stored at hstep
  cases hstep with
  | idle => exact .same g hinserts (.refl g)
  | worker uuid => exact .same _ hinserts ⟨fun _ => rfl, rfl⟩
  | update uuid hf => exact .same _ hinserts (sameRecords_update g uuid hf)
  | leave hr hcontent => exact .same _ hinserts (sameRecords_leave hr hcontent)
  | insert r => exact .insert r hinserts

end steps

/-! ## Section 3: What the surroundings do to the records -/

/-- A change leaves the record that it writes under its uuid, and removes from
    it what it names. -/
structure RecordChange.Keeps (e : RecordChange) (k : String) (r r' : Remote) : Prop where
  uuid : r'.uuid = r.uuid
  transfers : ∀ u ∈ r.transfers.map Transfer.uuid,
    u ∈ r'.transfers.map Transfer.uuid ∨ e = .removeTransfer k u
  messages : ∀ u ∈ r.messages.map Message.uuid,
    u ∈ r'.messages.map Message.uuid ∨ e = .removeMessage k u

/-- At most one record is written. -/
inductive ChangeMove (g : Registry) (e : RecordChange) (g' : Registry) : Prop
  | same : (∀ k, g'.remote k = g.remote k) → g'.loops = g.loops → ChangeMove g e g'
  | write (uuid : String) (r r' : Remote) : g.remote uuid = some r →
      (∀ k, g'.remote k = if k = uuid then some r' else g.remote k) → g'.loops = g.loops →
      e.Keeps uuid r r' → ChangeMove g e g'

theorem map_uuid_updateFirst (uuid : String) (f : TransferUpdate) (ts : List Transfer) :
    (RemoteManager.updateFirst uuid f ts).map Transfer.uuid = ts.map Transfer.uuid := by
  induction ts with
  | nil => rfl
  | cons t ts ih =>
    unfold RemoteManager.updateFirst at ih ⊢
    rw [List.replaceF_cons]
    by_cases ht : t.uuid = uuid
    · simp [ht]
    · simp only [ht, if_false, List.map_cons, ih]

theorem mem_map_eraseP {α : Type} {key : α → String} {k u : String} {xs : List α}
    (hu : u ∈ xs.map key) (hne : u ≠ k) : u ∈ (xs.eraseP fun x => key x = k).map key := by
  obtain ⟨x, hx, rfl⟩ := List.mem_map.1 hu
  exact List.mem_map_of_mem ((List.mem_eraseP_of_neg (by simpa using hne)).2 hx)

section changes

variable (g : Registry)

theorem updateRemote_move {e : RecordChange} (uuid : String) {f : Remote → Remote}
    (hf : ∀ r, (f r).content = r.content) : ChangeMove g e (g.updateRemote uuid f) := by
  cases hr : g.remote uuid with
  | none =>
    refine .same (fun k => ?_) rfl
    rw [remote_updateRemote]
    split
    · next hk => rw [hk, hr]; rfl
    · rfl
  | some r =>
    obtain ⟨huuid, hrest⟩ := Prod.mk.inj (hf r)
    obtain ⟨htransfers, hmessages⟩ := Prod.mk.inj hrest
    refine .write uuid r (f r) hr (fun k => ?_) rfl ⟨huuid, fun u hu => ?_, fun u hu => ?_⟩
    · rw [remote_updateRemote, hr]; rfl
    · exact .inl (htransfers ▸ hu)
    · exact .inl (hmessages ▸ hu)

theorem RemoteManager.RecordWrite.changes {g : Registry} {e : RecordChange} {k : String}
    {f : Remote → Remote} {event : WarpEvent} {m : RemoteManager}
    (h : g.manager.RecordWrite k f event m) (hkeeps : ∀ r, e.Keeps k r (f r)) :
    ChangeMove g e { g with manager := m } := by
  cases h with
  | missed => exact .same (fun _ => rfl) rfl
  | written hr => exact .write k _ _ hr (remote_setRemote _ k · _ _) rfl (hkeeps _)

theorem change_move (e : RecordChange) : ChangeMove g e (g.change e) := by
  cases e with
  | update uuid f => exact updateRemote_move g uuid f.content_apply
  | removed fullname => exact updateRemote_move g fullname fun _ => rfl
  -- additions keep every uuid; a removal may drop the one it names
  | addTransfer uuid t =>
    refine (g.manager.addTransfer_write uuid t).changes fun r =>
      ⟨rfl, fun u hu => .inl ?_, fun u hu => .inl hu⟩
    simp only [List.map_append, List.mem_append]
    exact .inl hu
  | updateTransfer queued uuid transferUuid f =>
    dsimp only [Registry.change, RemoteManager.updateTransfer]
    cases hr : g.manager.remotes uuid with
    | none => exact .same (fun _ => rfl) rfl
    | some r =>
      cases g.manager.transfer uuid transferUuid with
      | none => exact .same (fun _ => rfl) rfl
      | some t =>
        have hkept : RecordChange.Keeps (.updateTransfer queued uuid transferUuid f) uuid r
            { r with transfers := RemoteManager.updateFirst transferUuid f r.transfers } :=
          ⟨rfl, fun u hu => .inl (by rwa [map_uuid_updateFirst]), fun u hu => .inl hu⟩
        dsimp only
        split
        · exact .write uuid r _ hr (remote_setRemote _ uuid · _ (.remoteUpdated uuid)) rfl hkept
        · exact .write uuid r _ hr (remote_setRemote _ uuid · _ (.remoteUpdated uuid)) rfl hkept
  | removeTransfer uuid transferUuid =>
    refine (g.manager.removeTransfer_write uuid transferUuid).changes fun r =>
      ⟨rfl, fun u hu => ?_, fun u hu => .inl hu⟩
    by_cases hne : u = transferUuid
    · exact .inr (by rw [hne])
    · exact .inl (mem_map_eraseP hu hne)
  | addMessage uuid msg =>
    refine (g.manager.addMessage_write uuid msg).changes fun r =>
      ⟨rfl, fun u hu => .inl hu, fun u hu => .inl ?_⟩
    simp only [List.map_append, List.mem_append]
    exact .inl hu
  | removeMessage uuid messageUuid =>
    refine (g.manager.removeMessage_write uuid messageUuid).changes fun r =>
      ⟨rfl, fun u hu => .inl hu, fun u hu => ?_⟩
    by_cases hne : u = messageUuid
    · exact .inr (by rw [hne])
    · exact .inl (mem_map_eraseP hu hne)

/-- What every change leaves alone in a record. -/
theorem map_change {α : Type} {φ : Remote → α} (e : RecordChange)
    (hupdate : ∀ (f : RemoteUpdate) r, φ (f.apply r) = φ r)
    (hremoved : ∀ fullname, e = .removed fullname → ∀ r : Remote, φ r.removed = φ r)
    (hrest : ∀ (r : Remote) ts msgs, φ { r with transfers := ts, messages := msgs } = φ r)
    (n : String) : ((g.change e).remote n).map φ = (g.remote n).map φ := by
  -- a write of one record, by which the value stays
  have hset : ∀ (k : String) (r r' : Remote) (event : WarpEvent), g.manager.remote k = some r →
      φ r' = φ r → ((g.manager.setRemote k r' event).remote n).map φ = (g.remote n).map φ := by
    intro k r r' event hr hφ
    rw [remote_setRemote]
    split
    · next hk =>
      subst hk
      rw [Registry.remote, hr, Option.map_some, Option.map_some, hφ]
    · rfl
  have hwrite : ∀ (k : String) (f : Remote → Remote) (event : WarpEvent) (m : RemoteManager),
      g.manager.RecordWrite k f event m → (∀ r, φ (f r) = φ r) →
      (m.remote n).map φ = (g.remote n).map φ := by
    intro k f event m hm hf
    cases hm with
    | missed => rfl
    | written hr => exact hset k _ _ event hr (hf _)
  cases e with
  | update uuid f => exact hwrite _ _ _ _ (g.manager.updateRemote_write uuid f.apply) (hupdate f)
  | removed fullname =>
    exact hwrite _ _ _ _ (g.manager.updateRemote_write fullname Remote.removed)
      (hremoved fullname rfl)
  | addTransfer uuid t =>
    exact hwrite _ _ _ _ (g.manager.addTransfer_write uuid t) fun r => hrest r _ r.messages
  | removeTransfer uuid u =>
    exact hwrite _ _ _ _ (g.manager.removeTransfer_write uuid u) fun r => hrest r _ r.messages
  | addMessage uuid msg =>
    exact hwrite _ _ _ _ (g.manager.addMessage_write uuid msg) fun r => hrest r r.transfers _
  | removeMessage uuid u =>
    exact hwrite _ _ _ _ (g.manager.removeMessage_write uuid u) fun r => hrest r r.transfers _
  | updateTransfer queued uuid u f =>
    dsimp only [Registry.change, RemoteManager.updateTransfer]
    cases hr : g.manager.remotes uuid with
    | none => rfl
    | some r =>
      cases g.manager.transfer uuid u with
      | none => rfl
      | some t =>
        have hkept := hrest r (RemoteManager.updateFirst u f r.transfers) r.messages
        dsimp only
        split
        · exact hset uuid r _ (.remoteUpdated uuid) hr hkept
        · exact hset uuid r _ (.remoteUpdated uuid) hr hkept

variable {g}

theorem ChangeMove.isSome {e : RecordChange} {g' : Registry} (h : ChangeMove g e g') (k : String) :
    (g'.remote k).isSome = (g.remote k).isSome := by
  cases h with
  | same hremote _ => rw [hremote]
  | write uuid r r' hr hremote _ _ =>
    rw [hremote]
    by_cases hk : k = uuid
    · simp [hk, hr]
    · simp [hk]

theorem ChangeMove.loops {e : RecordChange} {g' : Registry} (h : ChangeMove g e g') :
    g'.loops = g.loops := by
  cases h with
  | same _ hloops => exact hloops
  | write _ _ _ _ _ hloops _ => exact hloops

end changes

/-! ## Section 4: One loop, nothing lost -/

def OneLoop (p : Lobby) : Prop := ∀ uuid, p.shared.loops.count uuid ≤ 1

/-- Only a removal makes a transfer or a message disappear. -/
def KeepsData (s : RegistrationServer) (p : Lobby) (l : LobbyLabel) : Prop :=
  ∀ p' k r, (admissions s).poolStep p l = some p' → p.shared.remote k = some r →
    ∃ r', p'.shared.remote k = some r' ∧
      (∀ u ∈ r.transfers.map Transfer.uuid,
        u ∈ r'.transfers.map Transfer.uuid ∨ l = .env (.removeTransfer k u)) ∧
      ∀ u ∈ r.messages.map Message.uuid,
        u ∈ r'.messages.map Message.uuid ∨ l = .env (.removeMessage k u)

/-- A step that inserts a record finds none. -/
def FindsNone (p : Lobby) : LobbyLabel → Prop
  | .run i _ => ∀ r ∈ p.tasks[i]?.bind Admission.inserts, p.shared.remote r.uuid = none
  | _ => True

instance (p : Lobby) : DecidablePred (FindsNone p)
  | .run i _ => inferInstanceAs
      (Decidable (∀ r ∈ p.tasks[i]?.bind Admission.inserts, p.shared.remote r.uuid = none))
  | .enter _ | .env _ => .isTrue trivial

/-- The remotes with a record are those with a loop. -/
def Looped (p : Lobby) : Prop := ∀ uuid, (p.shared.remote uuid).isSome ↔ uuid ∈ p.shared.loops

def Lobby.new : Lobby := ⟨.new, []⟩

variable {s : RegistrationServer} {p p' : Lobby} {l : LobbyLabel}

/-- The steps of the lobby. -/
inductive LobbyMove (p : Lobby) (l : LobbyLabel) (g' : Registry) : Prop
  | same : SameRecords p.shared g' → FindsNone p l → LobbyMove p l g'
  | change (e : RecordChange) : l = .env e → ChangeMove p.shared e g' → LobbyMove p l g'
  | insert (r : Remote) : g' = p.shared.insertRemote r →
      (FindsNone p l ↔ p.shared.remote r.uuid = none) → LobbyMove p l g'

theorem lobby_move (h : (admissions s).poolStep p l = some p') : LobbyMove p l p'.shared := by
  cases l with
  | run i ans =>
    obtain ⟨t, shared, t', spawned, ht, hstep, rfl⟩ := Tasking.run_cases h
    obtain ⟨hmove, _⟩ := admission_move hstep
    cases hmove with
    | same _ hnone hsame => exact .same hsame (by simp [FindsNone, ht, hnone])
    | insert r hr => exact .insert r rfl (by simp [FindsNone, ht, hr])
  | enter t =>
    obtain ⟨_, rfl⟩ := Tasking.enter_cases h
    exact .same (.refl _) trivial
  | env e =>
    obtain rfl := Option.some.inj h
    exact .change e rfl (change_move p.shared e)

theorem looped_of_same {g g' : Registry} {tasks tasks' : List Admission}
    (hsome : ∀ k, (g'.remote k).isSome = (g.remote k).isSome) (hloops : g'.loops = g.loops)
    (h : Looped ⟨g, tasks⟩) : Looped ⟨g', tasks'⟩ := by
  intro k
  simp only [hsome, hloops]
  exact h k

theorem looped_insert {g : Registry} {tasks tasks' : List Admission} (r : Remote)
    (h : Looped ⟨g, tasks⟩) : Looped ⟨g.insertRemote r, tasks'⟩ := by
  intro k
  have hk := h k
  have hloops : (g.insertRemote r).loops = g.loops ++ [r.uuid] := rfl
  simp only [remote_insertRemote, hloops, List.mem_append, List.mem_singleton]
  by_cases hkr : k = r.uuid
  · simp [hkr]
  · simpa [hkr] using hk

theorem oneLoop_insert {g : Registry} {tasks tasks' : List Admission} (r : Remote)
    (hone : OneLoop ⟨g, tasks⟩) : OneLoop ⟨g.insertRemote r, tasks'⟩ ↔ r.uuid ∉ g.loops := by
  constructor
  · intro h hmem
    have hcount := h r.uuid
    have hpos := List.count_pos_iff.2 hmem
    simp only [Registry.insertRemote, List.count_append, List.count_singleton_self] at hcount
    omega
  · intro hnot k
    have hcount := hone k
    simp only [Registry.insertRemote, List.count_append, List.count_singleton] at hcount ⊢
    by_cases hk : r.uuid = k
    · have hzero : g.loops.count k = 0 := List.count_eq_zero.2 (hk ▸ hnot)
      simp [hk, hzero]
    · simpa [hk] using hcount

/-- A step keeps the loops apart exactly if what it inserts is new. -/
theorem oneLoop_step (h : (admissions s).poolStep p l = some p') (hlooped : Looped p)
    (hone : OneLoop p) : Looped p' ∧ (OneLoop p' ↔ FindsNone p l) := by
  cases lobby_move h with
  | same hsame hfinds =>
    refine ⟨looped_of_same hsame.isSome hsame.loops hlooped, iff_of_true (fun k => ?_) hfinds⟩
    rw [hsame.loops]
    exact hone k
  | change e he hchange =>
    have hfinds : FindsNone p l := by rw [he]; trivial
    refine ⟨looped_of_same hchange.isSome hchange.loops hlooped,
      iff_of_true (fun k => ?_) hfinds⟩
    rw [hchange.loops]
    exact hone k
  | insert r hg hfinds =>
    obtain ⟨g', tasks'⟩ := p'
    dsimp only at hg
    subst hg
    refine ⟨looped_insert r hlooped, ?_⟩
    rw [oneLoop_insert r hone, hfinds, ← hlooped r.uuid, Option.isSome_iff_ne_none, not_not]

theorem keepsData_of_findsNone (h : FindsNone p l) : KeepsData s p l := by
  intro p' k r hstep hr
  cases lobby_move hstep with
  | same hsame _ =>
    have hcontent := hsame.content k
    rw [hr] at hcontent
    obtain ⟨r', hr', heq⟩ := Option.map_eq_some_iff.1 hcontent
    obtain ⟨_, hrest⟩ := Prod.mk.inj heq
    obtain ⟨htransfers, hmessages⟩ := Prod.mk.inj hrest
    exact ⟨r', hr', fun u hu => .inl (htransfers ▸ hu), fun u hu => .inl (hmessages ▸ hu)⟩
  | change e he hchange =>
    subst he
    cases hchange with
    | same hremote _ =>
      exact ⟨r, (hremote k).trans hr, fun u hu => .inl hu, fun u hu => .inl hu⟩
    | write uuid r₀ r' hr₀ hremote _ hkeeps =>
      by_cases hk : k = uuid
      · subst hk
        obtain rfl : r₀ = r := Option.some.inj (hr₀.symm.trans hr)
        refine ⟨r', by rw [hremote, if_pos rfl], fun u hu => ?_, fun u hu => ?_⟩
        · exact (hkeeps.transfers u hu).imp_right (congrArg _)
        · exact (hkeeps.messages u hu).imp_right (congrArg _)
      · exact ⟨r, by rw [hremote, if_neg hk, hr], fun u hu => .inl hu, fun u hu => .inl hu⟩
  | insert r₀ hg hfinds =>
    have hnone := hfinds.1 h
    -- an insertion that finds no record replaces none
    have hk : k ≠ r₀.uuid := fun hk => by rw [← hk, hr] at hnone; cases hnone
    rw [hg, remote_insertRemote, if_neg hk]
    exact ⟨r, hr, fun u hu => .inl hu, fun u hu => .inl hu⟩

/-- There is one loop for each uuid, and nothing gets lost, exactly if every
    insertion finds no record. -/
theorem admits_iff_findsNone {ls : List LobbyLabel}
    (hrun : (admissions s).pool.exec Lobby.new ls = some p') :
    ((admissions s).pool.Always OneLoop Lobby.new ls ∧
      (admissions s).pool.Along (KeepsData s) Lobby.new ls)
      ↔ (admissions s).pool.Along FindsNone Lobby.new ls := by
  have hlooped : Looped Lobby.new := fun _ => by simp [Lobby.new, Registry.new, Registry.remote,
    RemoteManager.remote, RemoteManager.empty]
  have hone : OneLoop Lobby.new := fun _ => by simp [Lobby.new, Registry.new]
  rw [Machine.always_iff_along _ (C := FindsNone) (fun _ _ _ hI hP h => oneLoop_step h hI hP)
    hlooped hone hrun]
  constructor
  · exact And.left
  · exact fun h => ⟨h, Machine.Along.mono _ (fun _ _ => keepsData_of_findsNone) h⟩

/-- The registration of the host `b`. -/
def registrationOfB : ServiceRegistration where
  serviceId := "b"
  ip := "10.0.0.7"
  port := 42000
  hostname := "b"
  apiVersion := 2
  authPort := 42001
  ipv6 := ""

def serverOfA : RegistrationServer where
  regServiceMessage := { registrationOfB with serviceId := "a", ip := "10.0.0.6", hostname := "a" }
  display _ := ""

/-- The host `b` registers itself while the manager is new. -/
def registerRun : List LobbyLabel :=
  [.enter (.register (.lookup registrationOfB)), .run 0 .go, .run 0 .go, .run 0 .go]

theorem admits_registerRun :
    ∃ p, (admissions serverOfA).pool.exec Lobby.new registerRun = some p ∧
      (((admissions serverOfA).pool.Always OneLoop Lobby.new registerRun ∧
        (admissions serverOfA).pool.Along (KeepsData serverOfA) Lobby.new registerRun)
        ↔ (admissions serverOfA).pool.Along FindsNone Lobby.new registerRun) ∧
      (admissions serverOfA).pool.Along FindsNone Lobby.new registerRun :=
  ⟨_, rfl, admits_iff_findsNone rfl, by decide⟩

/-- Both admissions look `b` up before the first of them inserts it. -/
def crossedAdmissions : List LobbyLabel :=
  [.enter (.register (.lookup registrationOfB)), .enter (.register (.lookup registrationOfB)),
    .run 0 .go, .run 1 .go, .run 0 .go, .run 0 .go,
    .env (.addTransfer "b" (.bare "t" "b" .waitingPermission (.incoming (OsString.ofString "/d"))))]

/-- The transfers of a remote. -/
def Registry.transferUuids (g : Registry) (uuid : String) : Option (List String) :=
  (g.remote uuid).map fun r => r.transfers.map Transfer.uuid

/-- The second insertion replaces the record: its transfer is lost, and there
    are two loops. -/
theorem second_admission_loses :
    ∃ p p', (admissions serverOfA).pool.exec Lobby.new crossedAdmissions = some p ∧
      p.shared.transferUuids "b" = some ["t"] ∧
      (admissions serverOfA).pool.exec p [.run 1 .go, .run 1 .go] = some p' ∧
      p'.shared.transferUuids "b" = some [] ∧ p'.shared.loops.count "b" = 2 :=
  ⟨_, _, rfl, by decide, rfl, by decide, by decide⟩

end Warpinator
