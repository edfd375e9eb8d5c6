import Warpinator.Server.Admissions

/-! # The Announced API Version

    `handle_new_service` refuses a service that does not announce version 2.
    `register_service` and `manual_connection` receive a version with the
    registration and do not look at it.

    What a peer has announced is not part of the program's state, so the lobby
    is watched from outside: `heard` keeps the announcement of each admission,
    `admittedAt` the one under which a record was added.
    `enforcesVersion_iff` says which runs admit only version 2. -/

namespace Warpinator

/-! ## Section 1: Announcements -/

/-- A version as announced; a TXT property may hold a text that is none. -/
abbrev ApiVersion : Type := Option Nat

def ResolvedService.apiVersion (info : ResolvedService) : ApiVersion :=
  (parseUnsigned 8 ((info.properties "api-version").getD "1")).map BitVec.toNat

def ServiceRegistration.version (req : ServiceRegistration) : ApiVersion :=
  some req.apiVersion.toNat

/-- What the peer announces, where the admission gets to know it. -/
def Admission.announced : Admission → Option ApiVersion
  | .newService (.resolve info) => some info.apiVersion
  | .register (.lookup req) => some req.version
  | .manual (.lookup _ service) => some service.version
  | _ => none

/-- The admission has ended, and not with `Ok`. -/
def JoinPc.refused {α ε : Type} : JoinPc (Except ε α) → Bool
  | .returned (.error _) => true
  | .panicked => true
  | _ => false

def Admission.refused : Admission → Bool
  | .newService (.join pc) => pc.refused
  | .register (.join pc) => pc.refused
  | .manual (.join pc) => pc.refused
  | _ => false

/-- A lobby with what the peers have announced. -/
structure Watched where
  lobby : Lobby
  /-- What the peer of each admission has announced so far. -/
  heard : Nat → Option ApiVersion
  /-- What the peer had announced when the record was added. -/
  admittedAt : String → Option ApiVersion

namespace Watched

def new : Watched where
  lobby := .new
  heard _ := none
  admittedAt _ := none

/-- The admission that a step advances. -/
def task (w : Watched) : LobbyLabel → Option Admission
  | .run i _ => w.lobby.tasks[i]?
  | _ => none

/-- Take down the announcement of a task that advances. -/
def hear (w : Watched) (p' : Lobby) (i : Nat) (t : Admission) : Watched where
  lobby := p'
  heard := Function.update w.heard i (t.announced.or (w.heard i))
  admittedAt :=
    match t.inserts with
    | some r => Function.update w.admittedAt r.uuid (w.heard i)
    | none => w.admittedAt

def record (w : Watched) (p' : Lobby) : LobbyLabel → Watched
  | .run i _ =>
    match w.lobby.tasks[i]? with
    | some t => w.hear p' i t
    | none => { w with lobby := p' }
  | _ => { w with lobby := p' }

end Watched

/-- The lobby, watched. -/
def watched (s : RegistrationServer) : Machine Watched LobbyLabel where
  step w l := ((admissions s).poolStep w.lobby l).map fun p' => w.record p' l

/-- Every record was added for a peer that had announced version 2, and every
    admission of another version has been refused. -/
structure EnforcesVersion (w : Watched) : Prop where
  admitted : ∀ k, (w.lobby.shared.remote k).isSome → w.admittedAt k = some (some 2)
  refused : ∀ i t v, w.lobby.tasks[i]? = some t → w.heard i = some v → v ≠ some 2 →
    t.refused = true

/-- A step for a peer of another version leaves the store as it is. -/
def RefusalsKeepStore (s : RegistrationServer) (w : Watched) : LobbyLabel → Prop
  | .run i ans => ∀ t v w', w.lobby.tasks[i]? = some t → t.announced.or (w.heard i) = some v →
      v ≠ some 2 → (watched s).step w (.run i ans) = some w' →
      w'.lobby.shared = w.lobby.shared
  | _ => True

/-! ## Section 2: The step that reads the announcement -/

/-- The registration fails for another reason than its version. -/
def ServiceRegistration.unusable (g : Registry) (req : ServiceRegistration) : Prop :=
  match g.remote req.serviceId with
  | none => IpAddr.fromStr req.ip = none ∨ toU16 req.port = none ∨ toU16 req.authPort = none
  | some r => r.state ≠ .connected ∧ IpAddr.fromStr req.ip = none

/-- The registration has version 2 or fails anyway. -/
def Admission.versionChecked (g : Registry) : Admission → Prop
  | .register (.lookup req) => req.version = some 2 ∨ req.unusable g
  | .manual (.lookup ip service) =>
    service.version = some 2 ∨ (g.remote service.serviceId = none ∧ IpAddr.fromStr ip = none)
  | _ => True

def VersionChecked (w : Watched) (l : LobbyLabel) : Prop :=
  ∀ t ∈ w.task l, t.versionChecked w.lobby.shared

instance (g : Registry) (req : ServiceRegistration) : Decidable (req.unusable g) := by
  unfold ServiceRegistration.unusable
  split <;> infer_instance

instance (g : Registry) : DecidablePred (Admission.versionChecked g) := fun t => by
  unfold Admission.versionChecked
  split <;> infer_instance

instance (w : Watched) : DecidablePred (VersionChecked w) := fun l =>
  inferInstanceAs (Decidable (∀ t ∈ w.task l, t.versionChecked w.lobby.shared))

section steps

variable {g g' : Registry} {ans : AdmitAnswer}

theorem read_of_apiVersion {info : ResolvedService} (h : info.apiVersion ≠ some 2) :
    ∃ e, info.read = .error e := by
  unfold ResolvedService.read
  -- the checks in front of the version fail as well
  split
  · exact ⟨_, rfl⟩
  · split
    · exact ⟨_, rfl⟩
    · split
      · exact ⟨_, rfl⟩
      · split
        · exact ⟨_, rfl⟩
        · dsimp only
          split
          · exact ⟨_, rfl⟩
          · next version hversion =>
            have hne : version ≠ 2 := by
              rintro rfl
              exact h (by simp [ResolvedService.apiVersion, hversion])
            rw [if_pos hne]
            exact ⟨_, rfl⟩

/-- Nothing is written at the lookup of a service, and it refuses another
    version. -/
theorem newService_announces {info : ResolvedService} {pc' : NewServicePc}
    (h : handleNewService g (.resolve info) ans = some (g', pc')) :
    g' = g ∧ (info.apiVersion ≠ some 2 → (Admission.newService pc').refused = true) := by
  unfold handleNewService at h
  split at h
  · next hpc =>
    cases hpc
    split at h
    · cases h
      exact ⟨rfl, fun _ => rfl⟩
    · next service hread =>
      refine ⟨?_, fun hv => ?_⟩
      · split at h <;> cases h <;> rfl
      · obtain ⟨e, he⟩ := read_of_apiVersion hv
        rw [hread] at he
        cases he
  · next hpc => cases hpc
  · next hpc => cases hpc
  · cases h

/-- Nothing is written at the lookup of a registration.  It is refused there
    exactly if it is unusable. -/
theorem register_announces {s : RegistrationServer} {req : ServiceRegistration} {pc' : RegisterPc}
    (h : s.registerService g (.lookup req) ans = some (g', pc')) :
    g' = g ∧ ((Admission.register pc').refused = true ↔ req.unusable g) := by
  unfold RegistrationServer.registerService at h
  unfold ServiceRegistration.unusable
  split at h
  · next hpc =>
    cases hpc
    cases hr : g.remote req.serviceId with
    | none =>
      rw [hr] at h
      dsimp only at h ⊢
      cases hip : IpAddr.fromStr req.ip with
      | none =>
        rw [hip] at h
        cases h
        simp [Admission.refused, JoinPc.refused]
      | some ip =>
        rw [hip] at h
        dsimp only at h
        split at h
        · next port authPort hport hauthPort =>
          cases h
          simp [Admission.refused, JoinPc.refused, hport, hauthPort]
        · next hports =>
          cases h
          refine ⟨rfl, iff_of_true rfl (.inr ?_)⟩
          cases hport : toU16 req.port with
          | none => exact .inl rfl
          | some port =>
            cases hauthPort : toU16 req.authPort with
            | none => exact .inr rfl
            | some authPort => exact absurd hauthPort (hports port authPort hport)
    | some r =>
      rw [hr] at h
      dsimp only at h ⊢
      split at h
      · next hstate =>
        cases h
        simp [Admission.refused, JoinPc.refused, hstate]
      · next hstate =>
        split at h
        · next hip =>
          cases h
          simp [Admission.refused, JoinPc.refused, hstate, hip]
        · next ip hip =>
          cases h
          simp [Admission.refused, hip]
  · next hpc => cases hpc
  · next hpc => cases hpc
  · cases h

/-- Nothing is written at the lookup of a reply.  It is refused there exactly
    if there is no record and no address for one. -/
theorem manual_announces {ip : String} {service : ServiceRegistration} {pc' : ManualPc}
    (h : manualConnection g (.lookup ip service) ans = some (g', pc')) :
    g' = g ∧ ((Admission.manual pc').refused = true ↔
      g.remote service.serviceId = none ∧ IpAddr.fromStr ip = none) := by
  cases ans with
  | go =>
    simp only [manualConnection] at h
    cases hr : g.remote service.serviceId with
    | some r =>
      rw [hr] at h
      cases h
      simp [Admission.refused]
    | none =>
      rw [hr] at h
      cases hip : IpAddr.fromStr ip with
      | none =>
        rw [hip] at h
        cases h
        simp [Admission.refused, JoinPc.refused]
      | some addr =>
        rw [hip] at h
        cases h
        simp [Admission.refused, JoinPc.refused]
  | _ => cases h

theorem announcing_step {s : RegistrationServer} {t t' : Admission} {spawned : List Admission}
    {v : ApiVersion} (h : t.step s g ans = some (g', t', spawned)) (hv : t.announced = some v) :
    g' = g ∧ ((v ≠ some 2 → t'.refused = true) ↔ t.versionChecked g) := by
  cases t with
  | newService pc =>
    obtain ⟨⟨g₁, pc₁⟩, hstep, heq⟩ := Option.map_eq_some_iff.1 h
    cases heq
    cases pc with
    | resolve info =>
      obtain rfl : info.apiVersion = v := Option.some.inj hv
      obtain ⟨hg, hrefused⟩ := newService_announces hstep
      exact ⟨hg, iff_of_true hrefused trivial⟩
    | _ => cases hv
  | register pc =>
    obtain ⟨⟨g₁, pc₁⟩, hstep, heq⟩ := Option.map_eq_some_iff.1 h
    cases heq
    cases pc with
    | lookup req =>
      obtain rfl : req.version = v := Option.some.inj hv
      obtain ⟨hg, hrefused⟩ := register_announces hstep
      refine ⟨hg, ?_⟩
      rw [hrefused]
      exact or_iff_not_imp_left.symm
    | _ => cases hv
  | manual pc =>
    obtain ⟨⟨g₁, pc₁⟩, hstep, heq⟩ := Option.map_eq_some_iff.1 h
    cases heq
    cases pc with
    | lookup ip service =>
      obtain rfl : service.version = v := Option.some.inj hv
      obtain ⟨hg, hrefused⟩ := manual_announces hstep
      refine ⟨hg, ?_⟩
      rw [hrefused]
      exact or_iff_not_imp_left.symm
    | _ => cases hv

/-! ## Section 3: The steps after it -/

theorem join_refused {ε α : Type} {e : JoinEnd (Except ε α)} {pc : JoinPc (Except ε α)}
    (h : pc.refused = true) : e.step g pc ans = none := by
  cases pc with
  | returned result => cases ans <;> rfl
  | panicked => cases ans <;> rfl
  | _ => cases h

/-- A refused admission makes no further step. -/
theorem step_refused {s : RegistrationServer} {t : Admission} (h : t.refused = true) :
    t.step s g ans = none := by
  cases t with
  | newService pc =>
    cases pc with
    | join pc =>
      have hjoin : newServiceEnd.step g pc ans = none := join_refused h
      simp [Admission.step, handleNewService, hjoin]
    | _ => cases h
  | register pc =>
    cases pc with
    | join pc =>
      have hjoin : s.joinEnd.step g pc ans = none := join_refused h
      simp [Admission.step, RegistrationServer.registerService, hjoin]
    | _ => cases h
  | manual pc =>
    cases pc with
    | join pc =>
      have hjoin : manualEnd.step g pc ans = none := join_refused h
      simp [Admission.step, manualConnection, hjoin]
    | _ => cases h

/-- The admission is about to add its remote. -/
def JoinPc.adds {ρ : Type} : JoinPc ρ → Bool
  | .addWorker _ | .addRemote _ => true
  | _ => false

def Admission.adds : Admission → Bool
  | .newService (.join pc) => pc.adds
  | .register (.join pc) => pc.adds
  | .manual (.join pc) => pc.adds
  | _ => false

theorem join_adds_of_inserts {ρ : Type} {pc : JoinPc ρ} {r : Remote} (h : pc.inserts = some r) :
    pc.adds = true := by
  cases pc with
  | addRemote remote => rfl
  | _ => cases h

theorem adds_of_inserts {t : Admission} {r : Remote} (h : t.inserts = some r) : t.adds = true := by
  cases t with
  | newService pc =>
    cases pc with
    | join pc => exact join_adds_of_inserts h
    | _ => cases h
  | register pc =>
    cases pc with
    | join pc => exact join_adds_of_inserts h
    | _ => cases h
  | manual pc =>
    cases pc with
    | join pc => exact join_adds_of_inserts h
    | _ => cases h

theorem join_adds {ρ : Type} {e : JoinEnd ρ} {pc pc' : JoinPc ρ}
    (h : e.step g pc ans = some (g', pc')) (hadds : pc'.adds = true) : pc.adds = true := by
  unfold JoinEnd.step at h
  split at h
  · rfl
  · rfl
  · split at h <;> cases h <;> cases hadds
  · cases h
    cases hadds
  · cases h

theorem newService_adds {pc pc' : NewServicePc} (h : handleNewService g pc ans = some (g', pc'))
    (hadds : (Admission.newService pc').adds = true) :
    (Admission.newService pc).adds = true ∨ (Admission.newService pc).announced.isSome := by
  cases pc with
  | resolve info => exact .inr rfl
  | update service remote =>
    cases ans with
    | go =>
      simp only [handleNewService] at h
      cases h
      revert hadds
      simp only [Admission.adds]
      split <;> simp [JoinPc.adds]
    | _ => cases h
  | join pc =>
    simp only [handleNewService] at h
    obtain ⟨⟨g₁, pc₁⟩, hjoin, heq⟩ := Option.map_eq_some_iff.1 h
    cases heq
    exact .inl (join_adds hjoin hadds)

theorem register_adds {s : RegistrationServer} {pc pc' : RegisterPc}
    (h : s.registerService g pc ans = some (g', pc'))
    (hadds : (Admission.register pc').adds = true) :
    (Admission.register pc).adds = true ∨ (Admission.register pc).announced.isSome := by
  cases pc with
  | lookup req => exact .inr rfl
  | update req ip needsReconnect =>
    cases ans with
    | go =>
      simp only [RegistrationServer.registerService] at h
      split at h
      · cases h
        cases hadds
      · split at h
        · cases h
          cases hadds
        · cases h
          cases hadds
        · cases h
          revert hadds
          simp only [Admission.adds]
          split <;> simp [JoinPc.adds]
    | _ => cases h
  | join pc =>
    simp only [RegistrationServer.registerService] at h
    obtain ⟨⟨g₁, pc₁⟩, hjoin, heq⟩ := Option.map_eq_some_iff.1 h
    cases heq
    exact .inl (join_adds hjoin hadds)

theorem manual_adds {pc pc' : ManualPc} (h : manualConnection g pc ans = some (g', pc'))
    (hadds : (Admission.manual pc').adds = true) :
    (Admission.manual pc).adds = true ∨ (Admission.manual pc).announced.isSome := by
  unfold manualConnection at h
  split at h
  · split at h <;> cases h <;> cases hadds
  · cases h; cases hadds
  · cases h; cases hadds
  · cases h; cases hadds
  · cases h; cases hadds
  · exact .inr rfl
  · next ip service remote =>
    split at h
    · cases h; cases hadds
    · cases h
      revert hadds
      simp only [Admission.adds, manualNext]
      split <;> simp [JoinPc.adds]
  · obtain ⟨⟨g₁, pc₁⟩, hjoin, heq⟩ := Option.map_eq_some_iff.1 h
    cases heq
    exact .inl (join_adds hjoin hadds)
  · cases h

/-- Whoever is about to add a remote was so before, or has just read the
    announcement. -/
theorem step_adds {s : RegistrationServer} {t t' : Admission} {spawned : List Admission}
    (h : t.step s g ans = some (g', t', spawned)) (hadds : t'.adds = true) :
    t.adds = true ∨ t.announced.isSome := by
  cases t with
  | newService pc =>
    obtain ⟨⟨g₁, pc₁⟩, hstep, heq⟩ := Option.map_eq_some_iff.1 h
    cases heq
    exact newService_adds hstep hadds
  | register pc =>
    obtain ⟨⟨g₁, pc₁⟩, hstep, heq⟩ := Option.map_eq_some_iff.1 h
    cases heq
    exact register_adds hstep hadds
  | manual pc =>
    obtain ⟨⟨g₁, pc₁⟩, hstep, heq⟩ := Option.map_eq_some_iff.1 h
    cases heq
    exact manual_adds hstep hadds

end steps

/-! ## Section 4: Runs -/

/-- What the announcements have to do with the tasks. -/
structure Heard (w : Watched) : Prop where
  heard_none : ∀ i, w.lobby.tasks.length ≤ i → w.heard i = none
  heard_adds : ∀ i t, w.lobby.tasks[i]? = some t → t.adds = true → (w.heard i).isSome = true

/-- The steps of a watched lobby. -/
inductive WatchedMove (s : RegistrationServer) (w : Watched) : LobbyLabel → Watched → Prop
  | run (i : Nat) (ans : AdmitAnswer) (t t' : Admission) (g' : Registry) :
      w.lobby.tasks[i]? = some t → t.step s w.lobby.shared ans = some (g', t', []) →
      WatchedMove s w (.run i ans) (w.hear ⟨g', w.lobby.tasks.set i t'⟩ i t)
  | enter (t : Admission) : t.isNew = true →
      WatchedMove s w (.enter t) { w with lobby := ⟨w.lobby.shared, w.lobby.tasks ++ [t]⟩ }
  | env (e : RecordChange) :
      WatchedMove s w (.env e) { w with lobby := ⟨w.lobby.shared.change e, w.lobby.tasks⟩ }

variable {s : RegistrationServer} {w w' : Watched} {l : LobbyLabel}

theorem watched_move (h : (watched s).step w l = some w') : WatchedMove s w l w' := by
  obtain ⟨p', hstep, rfl⟩ := Option.map_eq_some_iff.1 h
  cases l with
  | run i ans =>
    obtain ⟨t, g', t', spawned, ht, hrun, rfl⟩ := Tasking.run_cases hstep
    obtain ⟨_, rfl⟩ := admission_move hrun
    have hrecord : w.record ⟨g', w.lobby.tasks.set i t' ++ []⟩ (.run i ans)
        = w.hear ⟨g', w.lobby.tasks.set i t'⟩ i t := by
      simp [Watched.record, ht]
    rw [hrecord]
    exact .run i ans t t' g' ht hrun
  | enter t =>
    obtain ⟨hnew, rfl⟩ := Tasking.enter_cases hstep
    exact .enter t hnew
  | env e =>
    obtain rfl := Option.some.inj hstep
    exact .env e

theorem adds_of_isNew {t : Admission} (h : t.isNew = true) : t.adds = false := by
  cases t with
  | newService pc =>
    cases pc with
    | resolve info => rfl
    | _ => cases h
  | register pc =>
    cases pc with
    | lookup req => rfl
    | _ => cases h
  | manual pc =>
    cases pc with
    | parse url => rfl
    | _ => cases h

theorem heard_step (h : (watched s).step w l = some w') (hw : Heard w) : Heard w' := by
  cases watched_move h with
  | run i ans t t' g' ht hrun =>
    have hi : i < w.lobby.tasks.length := (List.getElem?_eq_some_iff.1 ht).1
    refine ⟨fun j hj => ?_, fun j u hu hadds => ?_⟩
    · have hlen : w.lobby.tasks.length ≤ j := by simpa [Watched.hear] using hj
      have hne : j ≠ i := by omega
      simp [Watched.hear, hne, hw.heard_none j hlen]
    · by_cases hj : j = i
      · subst hj
        -- the task that has run: its announcement is old or just taken down
        have hself : (w.lobby.tasks.set j t')[j]? = some t' := List.getElem?_set_self hi
        obtain rfl : t' = u := Option.some.inj (hself.symm.trans hu)
        rcases step_adds hrun hadds with hold | hnew
        · have hheard := hw.heard_adds j t ht hold
          cases ha : t.announced with
          | none => simpa [Watched.hear, ha] using hheard
          | some v => simp [Watched.hear, ha]
        · obtain ⟨v, hv⟩ := Option.isSome_iff_exists.1 hnew
          simp [Watched.hear, hv]
      · have hother : (w.lobby.tasks.set i t')[j]? = w.lobby.tasks[j]? :=
          List.getElem?_set_ne (Ne.symm hj)
        have hheard := hw.heard_adds j u (hother.symm.trans hu) hadds
        simpa [Watched.hear, hj] using hheard
  | enter t hnew =>
    refine ⟨fun j hj => hw.heard_none j ?_, fun j u hu hadds => ?_⟩
    · simp only [List.length_append, List.length_singleton] at hj
      omega
    · dsimp only at hu ⊢
      rw [List.getElem?_append] at hu
      split at hu
      · exact hw.heard_adds j u hu hadds
      · obtain rfl := List.mem_singleton.1 (List.mem_of_getElem? hu)
        rw [adds_of_isNew hnew] at hadds
        cases hadds
  | env e => exact ⟨hw.heard_none, hw.heard_adds⟩

theorem versionChecked_of_silent {g : Registry} {t : Admission} (h : t.announced = none) :
    t.versionChecked g := by
  cases t with
  | newService pc => trivial
  | register pc =>
    cases pc with
    | lookup req => cases h
    | _ => trivial
  | manual pc =>
    cases pc with
    | lookup ip service => cases h
    | _ => trivial

/-- A step keeps the versions enforced exactly if it is checked. -/
theorem enforcesVersion_step (h : (watched s).step w l = some w') (hw : Heard w)
    (henf : EnforcesVersion w) : EnforcesVersion w' ↔ VersionChecked w l := by
  cases watched_move h with
  | enter t hnew =>
    refine iff_of_true ⟨henf.admitted, fun j u v hu hv hne => ?_⟩ (fun t ht => by cases ht)
    dsimp only at hu hv
    rw [List.getElem?_append] at hu
    split at hu
    · exact henf.refused j u v hu hv hne
    · next hj =>
      rw [hw.heard_none j (by omega)] at hv
      cases hv
  | env e =>
    refine iff_of_true ⟨fun k hk => henf.admitted k ?_, henf.refused⟩ (fun t ht => by cases ht)
    rw [← (change_move w.lobby.shared e).isSome]
    exact hk
  | run i ans t t' g' ht hrun =>
    have hi : i < w.lobby.tasks.length := (List.getElem?_eq_some_iff.1 ht).1
    have hself : (w.lobby.tasks.set i t')[i]? = some t' := List.getElem?_set_self hi
    have hchecked : VersionChecked w (.run i ans) ↔ t.versionChecked w.lobby.shared := by
      refine ⟨fun hall => hall t ht, fun hone u hu => ?_⟩
      obtain rfl : t = u := Option.some.inj (ht.symm.trans hu)
      exact hone
    -- the records
    have hadmitted : ∀ k, (g'.remote k).isSome →
        (w.hear ⟨g', w.lobby.tasks.set i t'⟩ i t).admittedAt k = some (some 2) := by
      intro k hk
      obtain ⟨hmove, -⟩ := admission_move hrun
      cases hmove with
      | same _ hnone hsame =>
        rw [hsame.isSome] at hk
        simpa [Watched.hear, hnone] using henf.admitted k hk
      | insert r hr =>
        by_cases hkr : k = r.uuid
        · obtain ⟨v, hv⟩ := Option.isSome_iff_exists.1
            (hw.heard_adds i t ht (adds_of_inserts hr))
          have hv2 : v = some 2 := by
            by_contra hne
            have hstop : t.step s w.lobby.shared ans = none :=
              step_refused (henf.refused i t v ht hv hne)
            rw [hstop] at hrun
            cases hrun
          simp [Watched.hear, hr, hkr, hv, hv2]
        · rw [remote_insertRemote, if_neg hkr] at hk
          simpa [Watched.hear, hr, hkr] using henf.admitted k hk
    -- the other tasks
    have hothers : ∀ j u v, j ≠ i → (w.lobby.tasks.set i t')[j]? = some u →
        (w.hear ⟨g', w.lobby.tasks.set i t'⟩ i t).heard j = some v → v ≠ some 2 →
        u.refused = true := by
      intro j u v hj hu hv hne
      rw [List.getElem?_set_ne (Ne.symm hj)] at hu
      have hv' : w.heard j = some v := by simpa [Watched.hear, hj] using hv
      exact henf.refused j u v hu hv' hne
    rw [hchecked]
    cases ha : t.announced with
    | none =>
      refine iff_of_true ⟨hadmitted, fun j u v hu hv hne => ?_⟩ (versionChecked_of_silent ha)
      by_cases hj : j = i
      · subst hj
        -- a task of another version has been refused and does not run
        have hv' : w.heard j = some v := by simpa [Watched.hear, ha] using hv
        have hstop : t.step s w.lobby.shared ans = none :=
          step_refused (henf.refused j t v ht hv' hne)
        rw [hstop] at hrun
        cases hrun
      · exact hothers j u v hj hu hv hne
    | some v₀ =>
      obtain ⟨-, hiff⟩ := announcing_step hrun ha
      rw [← hiff]
      have hheard : (w.hear ⟨g', w.lobby.tasks.set i t'⟩ i t).heard i = some v₀ := by
        simp [Watched.hear, ha]
      constructor
      · intro hall hne
        exact hall.refused i t' v₀ hself hheard hne
      · intro hrefused
        refine ⟨hadmitted, fun j u v hu hv hne => ?_⟩
        by_cases hj : j = i
        · subst hj
          obtain rfl : t' = u := Option.some.inj (hself.symm.trans hu)
          obtain rfl : v₀ = v := Option.some.inj (hheard.symm.trans hv)
          exact hrefused hne
        · exact hothers j u v hj hu hv hne

/-- While the versions are enforced, a step for another version writes
    nothing. -/
theorem keepStore_of_enforced (henf : EnforcesVersion w) : RefusalsKeepStore s w l := by
  cases l with
  | run i ans =>
    intro t v w' ht hv hne hstep
    cases watched_move hstep with
    | run _ _ u t' g' hu hrun =>
      obtain rfl : t = u := Option.some.inj (ht.symm.trans hu)
      cases ha : t.announced with
      | none =>
        have hv' : w.heard i = some v := by simpa [ha] using hv
        have hstop : t.step s w.lobby.shared ans = none :=
          step_refused (henf.refused i t v ht hv' hne)
        rw [hstop] at hrun
        cases hrun
      | some v₀ => exact (announcing_step hrun ha).1
  | _ => trivial

/-- Only version 2 is admitted, and another one is refused without a change of
    the store, exactly if every registration that is looked up has version 2 or
    fails for another reason. -/
theorem enforcesVersion_iff {ls : List LobbyLabel}
    (hrun : (watched s).exec Watched.new ls = some w) :
    ((watched s).Always EnforcesVersion Watched.new ls ∧
      (watched s).Along (RefusalsKeepStore s) Watched.new ls)
      ↔ (watched s).Along VersionChecked Watched.new ls := by
  have hheard : Heard Watched.new := ⟨fun _ _ => rfl, fun i t ht => by cases ht⟩
  have henf : EnforcesVersion Watched.new := by
    refine ⟨fun k hk => ?_, fun i t v ht => by cases ht⟩
    cases hk
  have halways : (watched s).Always EnforcesVersion Watched.new ls ↔
      (watched s).Along VersionChecked Watched.new ls :=
    Machine.always_iff_along _ (I := Heard) (P := EnforcesVersion)
      (fun _ _ _ hI hP h => ⟨heard_step h hI, enforcesVersion_step h hI hP⟩) hheard henf hrun
  rw [halways, and_iff_left_iff_imp]
  intro hchecked
  -- a checked run enforces the versions in every state that a step starts from
  refine Machine.Along.of_invariant _ (I := fun w => Heard w ∧ EnforcesVersion w) ?_ ?_
    ⟨hheard, henf⟩ hchecked
  · rintro w l w' hC ⟨hI, hP⟩ h
    exact ⟨heard_step h hI, (enforcesVersion_step h hI hP).2 hC⟩
  · rintro w l ⟨-, hP⟩
    exact keepStore_of_enforced hP

theorem enforces_registerRun :
    ∃ w, (watched serverOfA).exec Watched.new registerRun = some w ∧
      (((watched serverOfA).Always EnforcesVersion Watched.new registerRun ∧
        (watched serverOfA).Along (RefusalsKeepStore serverOfA) Watched.new registerRun)
        ↔ (watched serverOfA).Along VersionChecked Watched.new registerRun) ∧
      (watched serverOfA).Along VersionChecked Watched.new registerRun :=
  ⟨_, rfl, enforcesVersion_iff rfl, by decide⟩

/-- The host `b` registers itself with version 1. -/
def registerOldRun : List LobbyLabel :=
  [.enter (.register (.lookup { registrationOfB with apiVersion := 1 })), .run 0 .go, .run 0 .go,
    .run 0 .go]

/-- It is admitted. -/
theorem old_version_admitted :
    ∃ w, (watched serverOfA).exec Watched.new registerOldRun = some w ∧
      (w.lobby.shared.remote "b").isSome = true ∧ w.admittedAt "b" = some (some 1) ∧
      ¬ EnforcesVersion w := by
  refine ⟨_, rfl, by decide, by decide, fun h => ?_⟩
  have hadmitted := h.admitted "b" (by decide)
  revert hadmitted
  decide

end Warpinator
