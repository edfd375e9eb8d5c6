import Warpinator.Server.Admission

/-! # Discovery

    The loop of `DiscoveryService::start` over the events of the mDNS daemon.

    A resolved service is stored under its instance name, a removed one is
    looked up under its full name. -/

namespace Warpinator

/-! ## Section 1: The loop -/

inductive ServiceEvent where
  | serviceResolved (info : ResolvedService)
  | serviceRemoved (tyDomain fullname : String)
  | other

structure Discovery where
  registry : Registry
  /-- The event that is being handled. -/
  pc : Option NewServicePc

inductive DiscoveryLabel where
  | event (e : ServiceEvent)
  | step (ans : AdmitAnswer)

namespace Discovery

/-- The result of `handle_new_service` is dropped. -/
def settle : NewServicePc → Option NewServicePc
  | .join (.returned _) => none
  | pc => some pc

def start (d : Discovery) : DiscoveryLabel → Option Discovery
  | .event e =>
    match d.pc, e with
    | none, .serviceResolved info => some { d with pc := some (.resolve info) }
    | none, .serviceRemoved _ fullname =>
      -- the key is the full name of the event, while records are stored under the instance name
      some { d with registry := d.registry.updateRemote fullname Remote.removed }
    | none, .other => some d
    | some _, _ => none
  | .step ans =>
    d.pc.bind fun pc => (handleNewService d.registry pc ans).map fun (registry, pc) =>
      { registry := registry, pc := settle pc }

end Discovery

/-! ## Section 2: Names -/

/-- The full name of an instance. -/
def fullnameOf (domain n : String) : String := n ++ ("." ++ domain)

/-- An instance name: no trailing dot, and no service domain at its end. -/
structure IsInstanceName (domain n : String) : Prop where
  noDot : ¬ EndsWith n "."
  noDomain : ¬ EndsWith n ("." ++ domain)

theorem name_of_fullname {domain n : String} (hn : IsInstanceName domain n) {info : ResolvedService}
    (hfullname : info.fullname = fullnameOf domain n) (hdomain : info.tyDomain = domain) :
    info.name = n := by
  have hpat : ("." ++ domain).toList ≠ [] := by simp
  unfold ResolvedService.name
  rw [hfullname, hdomain]
  unfold fullnameOf
  rw [trimEndMatches_append hpat hn.noDomain, trimEndMatches_of_not hn.noDot]

/-- A full name is no instance name. -/
theorem fullname_ne {domain n m : String} (hn : IsInstanceName domain n) :
    fullnameOf domain m ≠ n := by
  rintro rfl
  apply hn.noDomain
  unfold EndsWith fullnameOf
  simp only [String.toList_append]
  exact List.suffix_append m.toList _

theorem read_name {info : ResolvedService} {service : ServiceInfo} (h : info.read = .ok service) :
    service.name = info.name := by
  unfold ResolvedService.read at h
  split at h
  · cases h
  · split at h
    · cases h
    · split at h
      · cases h
      · split at h
        · cases h
        · dsimp only at h
          generalize parseUnsigned 8 _ = apiVersion at h
          cases apiVersion with
          | none => cases h
          | some apiVersion =>
            dsimp only at h
            split at h
            · cases h
            · split at h
              · cases h
              · exact (congrArg ServiceInfo.name (Except.ok.inj h)).symm

/-! ## Section 3: What a step does to one remote -/

/-- The availability of a remote, `none` if there is no record. -/
def Registry.availability (g : Registry) (n : String) : Option Bool :=
  (g.remote n).map Remote.serviceAvailable

section registries

variable (g : Registry) (uuid n : String)

theorem remote_updateRemote (f : Remote → Remote) :
    (g.updateRemote uuid f).remote n = if n = uuid then (g.remote uuid).map f else g.remote n := by
  unfold Registry.updateRemote Registry.remote RemoteManager.updateRemote RemoteManager.remote
  cases hr : g.manager.remotes uuid with
  | none =>
    by_cases hn : n = uuid
    · simp [hn, hr]
    · simp [hn]
  | some r =>
    by_cases hn : n = uuid
    · simp [hn, RemoteManager.setRemote]
    · simp [hn, RemoteManager.setRemote]

theorem remote_insertRemote (r : Remote) :
    (g.insertRemote r).remote n = if n = r.uuid then some r else g.remote n := by
  unfold Registry.insertRemote Registry.remote RemoteManager.addRemote RemoteManager.remote
    RemoteManager.setRemote
  by_cases hn : n = r.uuid
  · simp [hn]
  · simp [hn]

theorem availability_updateRemote_of_keeps {f : Remote → Remote}
    (hf : ∀ r, (f r).serviceAvailable = r.serviceAvailable) :
    (g.updateRemote uuid f).availability n = g.availability n := by
  unfold Registry.availability
  rw [remote_updateRemote]
  split
  · next hn =>
    subst hn
    simp [Function.comp_def, hf]
  · rfl

theorem availability_updateRemote_of_ne {f : Remote → Remote} (hne : n ≠ uuid) :
    (g.updateRemote uuid f).availability n = g.availability n := by
  unfold Registry.availability
  rw [remote_updateRemote, if_neg hne]

end registries

/-- The remote that a call is about to write. -/
def NewServicePc.writes : NewServicePc → Option String
  | .resolve info => some info.name
  | .update service _ => some service.name
  | .join (.addWorker r) => some r.uuid
  | .join (.addRemote r) => some r.uuid
  | _ => none

/-- The call will make the remote available. -/
def NewServicePc.Succeeds (g : Registry) : NewServicePc → Prop
  | .resolve info => ∃ service, info.read = .ok service
  | .update service _ => (g.remote service.name).isSome
  | .join (.addWorker r) => r.serviceAvailable = true
  | .join (.addRemote r) => r.serviceAvailable = true
  | _ => True

section steps

variable {g g' : Registry} {pc pc' : NewServicePc} {ans : AdmitAnswer} {n : String}

/-- A call that does not write the remote. -/
theorem handleNewService_other (hne : pc.writes ≠ some n)
    (h : handleNewService g pc ans = some (g', pc')) :
    g'.availability n = g.availability n ∧ pc'.writes ≠ some n := by
  unfold handleNewService at h
  split at h
  · next info =>
    have hname : info.name ≠ n := fun heq => hne (by simp [NewServicePc.writes, heq])
    split at h
    · cases h; exact ⟨rfl, by simp [NewServicePc.writes]⟩
    · next service hread =>
      have hservice : service.name ≠ n := fun heq => hname ((read_name hread).symm.trans heq)
      split at h
      · cases h
        exact ⟨rfl, by simpa [NewServicePc.writes, ServiceInfo.asRemote, Remote.new] using hservice⟩
      · cases h; exact ⟨rfl, by simpa [NewServicePc.writes] using hservice⟩
  · next service remote =>
    have hservice : service.name ≠ n := fun heq => hne (by simp [NewServicePc.writes, heq])
    cases h
    refine ⟨availability_updateRemote_of_ne g _ n fun heq => hservice heq.symm, ?_⟩
    split <;> simp [NewServicePc.writes]
  -- the common rest of an admission: only `add_remote` writes
  · next pc =>
    obtain ⟨⟨g₁, pc₁⟩, hjoin, heq⟩ := Option.map_eq_some_iff.1 h
    obtain ⟨rfl, rfl⟩ := Prod.mk.inj heq
    unfold JoinEnd.step at hjoin
    split at hjoin
    · next r =>
      have hr : r.uuid ≠ n := fun heq => hne (by simp [NewServicePc.writes, heq])
      cases hjoin
      exact ⟨rfl, by simpa [NewServicePc.writes] using hr⟩
    · next r =>
      have hr : n ≠ r.uuid := fun heq => hne (by simp [NewServicePc.writes, heq])
      cases hjoin
      refine ⟨?_, by simp [NewServicePc.writes, newServiceEnd]⟩
      unfold Registry.availability
      rw [remote_insertRemote, if_neg hr]
    · split at hjoin <;> cases hjoin <;> exact ⟨rfl, by simp [NewServicePc.writes]⟩
    · cases hjoin
      exact ⟨availability_updateRemote_of_keeps _ _ _ (RemoteUpdate.serviceAvailable_apply _),
        by simp [NewServicePc.writes]⟩
    · cases hjoin
  · cases h

/-- A call that writes the remote goes on to do so, or has done it. -/
theorem handleNewService_writes (hwrites : pc.writes = some n) (hsucceeds : pc.Succeeds g)
    (h : handleNewService g pc ans = some (g', pc')) :
    (pc'.writes = some n ∧ pc'.Succeeds g') ∨
      (pc'.writes = none ∧ g'.availability n = some true) := by
  unfold handleNewService at h
  split at h
  · next info =>
    obtain ⟨service, hread⟩ := hsucceeds
    have hname : service.name = n := (read_name hread).trans (Option.some.inj hwrites)
    rw [hread] at h
    dsimp only at h
    split at h
    · cases h
      exact .inl ⟨by simp [NewServicePc.writes, ServiceInfo.asRemote, Remote.new, hname], rfl⟩
    · next remote hremote =>
      cases h
      refine .inl ⟨by simp [NewServicePc.writes, hname], ?_⟩
      show (g.remote service.name).isSome
      rw [hremote]
      rfl
  -- a known remote: the update makes it available
  · next service remote =>
    obtain rfl : service.name = n := Option.some.inj hwrites
    cases h
    refine .inr ⟨by split <;> rfl, ?_⟩
    have hsome : (g.remote service.name).isSome := hsucceeds
    obtain ⟨r, hr⟩ := Option.isSome_iff_exists.1 hsome
    unfold Registry.availability
    rw [remote_updateRemote, if_pos rfl, hr]
    rfl
  · next pc =>
    obtain ⟨⟨g₁, pc₁⟩, hjoin, heq⟩ := Option.map_eq_some_iff.1 h
    obtain ⟨rfl, rfl⟩ := Prod.mk.inj heq
    unfold JoinEnd.step at hjoin
    split at hjoin
    · cases hjoin; exact .inl ⟨hwrites, hsucceeds⟩
    -- a new remote: `add_remote` stores it, available as it was made
    · next r =>
      obtain rfl : r.uuid = n := Option.some.inj hwrites
      cases hjoin
      refine .inr ⟨rfl, ?_⟩
      have havailable : r.serviceAvailable = true := hsucceeds
      unfold Registry.availability
      rw [remote_insertRemote, if_pos rfl]
      simp [havailable]
    · cases hwrites
    · cases hwrites
    · cases hjoin
  · cases h

end steps

end Warpinator
