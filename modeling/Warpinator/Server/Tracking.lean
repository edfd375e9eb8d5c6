import Warpinator.Lib.History
import Warpinator.Server.Admissions

/-! # Tracking of Services

    The loop of the discovery among the other ways in: hosts may register
    themselves or be connected by hand at any time, and their records change.

    `tracked_iff_agrees`: the record of an instance follows the events of
    its service exactly if no event removes a service whose record is still
    available or connected, and no other admission puts its own record in the
    place of an available one. -/

namespace Warpinator

/-! ## Section 1: The loop among the admissions -/

/-- The loop with the other admissions. -/
structure Browsing where
  lobby : Lobby
  /-- The event that the loop is handling. -/
  pc : Option NewServicePc

inductive BrowsingLabel where
  | loop (l : DiscoveryLabel)
  | other (l : LobbyLabel)

/-- The events of services are the loop's alone. -/
def fromElsewhere : LobbyLabel → Bool
  | .enter (.newService _) => false
  | .env (.removed _) => false
  | _ => true

def Browsing.step (s : RegistrationServer) (b : Browsing) : BrowsingLabel → Option Browsing
  | .loop l =>
    (Discovery.start ⟨b.lobby.shared, b.pc⟩ l).map fun d =>
      { lobby := { b.lobby with shared := d.registry }, pc := d.pc }
  | .other l =>
    if fromElsewhere l then
      ((admissions s).poolStep b.lobby l).map fun lobby => { b with lobby := lobby }
    else none

def browsing (s : RegistrationServer) : Machine Browsing BrowsingLabel where
  step := Browsing.step s

def Browsing.new : Browsing := ⟨.new, none⟩

/-! ## Section 2: Histories -/

inductive Sighting where
  | resolved
  | removed
  deriving DecidableEq, Repr

/-- What an event says about the instance `n`. -/
def sighting (domain n : String) : BrowsingLabel → Option Sighting
  | .loop (.event (.serviceResolved info)) =>
    if info.fullname = fullnameOf domain n then some .resolved else none
  | .loop (.event (.serviceRemoved _ fullname)) =>
    if fullname = fullnameOf domain n then some .removed else none
  | _ => none

/-- The last event for the instance. -/
def lastSighting (domain n : String) (ls : List BrowsingLabel) : Option Sighting :=
  (ls.filterMap (sighting domain n)).getLast?

/-- An event of the browsed domain.  Those that resolve `n` pass validation. -/
def OfDomain (domain n : String) : BrowsingLabel → Prop
  | .loop (.event (.serviceResolved info)) =>
    info.tyDomain = domain ∧ ∃ m, IsInstanceName domain m ∧ info.fullname = fullnameOf domain m ∧
      (m = n → ∃ service, info.read = .ok service)
  | .loop (.event (.serviceRemoved _ fullname)) =>
    ∃ m, IsInstanceName domain m ∧ fullname = fullnameOf domain m
  | _ => True

/-- The loop has nothing left to write about the instance. -/
def Browsing.Settled (n : String) (b : Browsing) : Prop := b.pc.bind NewServicePc.writes ≠ some n

instance (n : String) (b : Browsing) : Decidable (b.Settled n) :=
  inferInstanceAs (Decidable (_ ≠ _))

/-- The remote is available if and only if the last event for it has resolved
    it; and right after a removal its record, if there is one, is disconnected. -/
structure Tracked (domain n : String) (ls : List BrowsingLabel) (b : Browsing) : Prop where
  available : b.Settled n →
    (b.lobby.shared.availability n = some true ↔ lastSighting domain n ls = some .resolved)
  disconnected : ls.getLast?.bind (sighting domain n) = some .removed →
    ∀ r, b.lobby.shared.remote n = some r → r.state = .disconnected

/-- A removal finds no record, or one that is disconnected and not available;
    and another admission puts its record in the place of no available one,
    unless the loop is about to write it anyway. -/
def Agrees (domain n : String) (b : Browsing) : BrowsingLabel → Prop
  | .loop (.event (.serviceRemoved _ fullname)) => fullname = fullnameOf domain n →
    ∀ r ∈ b.lobby.shared.remote n, r.serviceAvailable = false ∧ r.state = .disconnected
  | .other (.run i _) => ∀ r ∈ b.lobby.tasks[i]?.bind Admission.inserts,
    r.uuid = n → b.Settled n → b.lobby.shared.availability n ≠ some true
  | _ => True

instance (domain n : String) (b : Browsing) : DecidablePred (Agrees domain n b)
  | .loop (.event (.serviceRemoved _ fullname)) => inferInstanceAs (Decidable
      (fullname = fullnameOf domain n →
        ∀ r ∈ b.lobby.shared.remote n, r.serviceAvailable = false ∧ r.state = .disconnected))
  | .other (.run i _) => inferInstanceAs (Decidable
      (∀ r ∈ b.lobby.tasks[i]?.bind Admission.inserts,
        r.uuid = n → b.Settled n → b.lobby.shared.availability n ≠ some true))
  | .loop (.event (.serviceResolved _)) | .loop (.event .other) | .loop (.step _)
  | .other (.enter _) | .other (.env _) => .isTrue trivial

/-! ## Section 3: The other admissions -/

/-- The record that another admission is about to insert is not available. -/
def JoinPc.Unannounced {ρ : Type} : JoinPc ρ → Prop
  | .addWorker r | .addRemote r => r.serviceAvailable = false
  | _ => True

/-- The admission is none of the loop's. -/
def Admission.Unannounced : Admission → Prop
  | .newService _ => False
  | .register (.join pc) => pc.Unannounced
  | .manual (.join pc) => pc.Unannounced
  | _ => True

/-- What the step of an admission does to the availability of all records, by
    the record that it inserts. -/
inductive AvailabilityStep (g : Registry) : Option Remote → Registry → Prop
  | same (g' : Registry) : (∀ n, g'.availability n = g.availability n) → AvailabilityStep g none g'
  | insert (r : Remote) : AvailabilityStep g (some r) (g.insertRemote r)

section admissions

variable {g g' : Registry} {ans : AdmitAnswer}

theorem AvailabilityStep.idle : AvailabilityStep g none g := .same g fun _ => rfl

theorem availability_leaveRemote {uuid : String} {r r' : Remote} (hr : g.remote uuid = some r)
    (havailable : r'.serviceAvailable = r.serviceAvailable) (n : String) :
    (g.leaveRemote uuid r').availability n = g.availability n := by
  unfold Registry.availability
  rw [remote_leaveRemote]
  split
  · next hn => rw [hn, hr, Option.map_some, Option.map_some, havailable]
  · exact rfl

theorem join_availability {ρ : Type} {e : JoinEnd ρ} {pc pc' : JoinPc ρ}
    (hadded : ∀ uuid, (e.added uuid).Unannounced) (hpc : pc.Unannounced)
    (h : e.step g pc ans = some (g', pc')) :
    AvailabilityStep g pc.inserts g' ∧ pc'.Unannounced := by
  unfold JoinEnd.step at h
  split at h
  · cases h
    exact ⟨.same _ fun _ => rfl, hpc⟩
  · next r =>
    cases h
    exact ⟨.insert r, hadded _⟩
  · split at h
    · cases h
      exact ⟨.idle, trivial⟩
    · cases h
      exact ⟨.idle, trivial⟩
  · next uuid result effect =>
    cases h
    exact ⟨.same _ fun n =>
      availability_updateRemote_of_keeps g uuid n effect.serviceAvailable_apply,
      trivial⟩
  · cases h

theorem registerService_availability {s : RegistrationServer} {pc pc' : RegisterPc}
    (hpc : (Admission.register pc).Unannounced) (h : s.registerService g pc ans = some (g', pc')) :
    AvailabilityStep g (Admission.register pc).inserts g' ∧
      (Admission.register pc').Unannounced := by
  unfold RegistrationServer.registerService at h
  split at h
  · split at h
    · split at h
      · cases h
        exact ⟨.idle, trivial⟩
      · split at h
        -- the new record is not available
        · cases h
          exact ⟨.idle, rfl⟩
        · cases h
          exact ⟨.idle, trivial⟩
    · split at h
      · cases h
        exact ⟨.idle, trivial⟩
      · split at h
        · cases h
          exact ⟨.idle, trivial⟩
        · cases h
          exact ⟨.idle, trivial⟩
  · next req ip needsReconnect =>
    split at h
    · cases h
      exact ⟨.idle, trivial⟩
    · next r hr =>
      split at h
      · cases h
        exact ⟨.same _ (availability_leaveRemote hr rfl), trivial⟩
      · cases h
        exact ⟨.same _ (availability_leaveRemote hr rfl), trivial⟩
      · cases h
        refine ⟨.same _ fun n => availability_updateRemote_of_keeps g _ n fun _ => rfl, ?_⟩
        split
        · exact trivial
        · exact trivial
  · obtain ⟨⟨g₁, pc₁⟩, hjoin, heq⟩ := Option.map_eq_some_iff.1 h
    obtain ⟨rfl, rfl⟩ := Prod.mk.inj heq
    exact join_availability (e := s.joinEnd) (fun _ => trivial) hpc hjoin
  · cases h

theorem manualConnection_availability {pc pc' : ManualPc}
    (hpc : (Admission.manual pc).Unannounced) (h : manualConnection g pc ans = some (g', pc')) :
    AvailabilityStep g (Admission.manual pc).inserts g' ∧ (Admission.manual pc').Unannounced := by
  unfold manualConnection at h
  split at h
  · split at h
    · cases h
      exact ⟨.idle, trivial⟩
    · cases h
      exact ⟨.idle, trivial⟩
  · cases h
    exact ⟨.idle, trivial⟩
  · cases h
    exact ⟨.idle, trivial⟩
  · cases h
    exact ⟨.idle, trivial⟩
  · cases h
    exact ⟨.idle, trivial⟩
  · split at h
    · cases h
      exact ⟨.idle, trivial⟩
    · split at h
      · cases h
        exact ⟨.idle, trivial⟩
      · cases h
        exact ⟨.idle, rfl⟩
  · next ip service remote =>
    split at h
    · cases h
      exact ⟨.idle, trivial⟩
    · cases h
      refine ⟨.same _ fun n => availability_updateRemote_of_keeps g _ n fun _ => rfl, ?_⟩
      cases remote.state <;> exact trivial
  · obtain ⟨⟨g₁, pc₁⟩, hjoin, heq⟩ := Option.map_eq_some_iff.1 h
    obtain ⟨rfl, rfl⟩ := Prod.mk.inj heq
    exact join_availability (e := manualEnd) (fun _ => trivial) hpc hjoin
  · cases h

theorem admission_availability {s : RegistrationServer} {t t' : Admission}
    {spawned : List Admission} (ht : t.Unannounced) (h : t.step s g ans = some (g', t', spawned)) :
    AvailabilityStep g t.inserts g' ∧ t'.Unannounced ∧ spawned = [] := by
  cases t with
  | newService pc => exact ht.elim
  | register pc =>
    obtain ⟨⟨g₁, pc₁⟩, hstep, heq⟩ := Option.map_eq_some_iff.1 h
    cases heq
    obtain ⟨hmove, ht'⟩ := registerService_availability ht hstep
    exact ⟨hmove, ht', rfl⟩
  | manual pc =>
    obtain ⟨⟨g₁, pc₁⟩, hstep, heq⟩ := Option.map_eq_some_iff.1 h
    cases heq
    obtain ⟨hmove, ht'⟩ := manualConnection_availability ht hstep
    exact ⟨hmove, ht', rfl⟩

theorem unannounced_of_isNew {t : Admission} (hnew : t.isNew = true)
    (helse : fromElsewhere (.enter t) = true) : t.Unannounced := by
  unfold Admission.isNew at hnew
  split at hnew
  · cases helse
  · exact trivial
  · exact trivial
  · cases hnew

end admissions

/-! ## Section 4: Steps -/

/-- The moves of the loop and of the others. -/
inductive BrowsingMove (s : RegistrationServer) (b : Browsing) : BrowsingLabel → Browsing → Prop
  | resolved (info : ResolvedService) : b.pc = none →
      BrowsingMove s b (.loop (.event (.serviceResolved info)))
        { b with pc := some (.resolve info) }
  | removed (tyDomain fullname : String) : b.pc = none →
      BrowsingMove s b (.loop (.event (.serviceRemoved tyDomain fullname)))
        { b with lobby := { b.lobby with
            shared := b.lobby.shared.updateRemote fullname Remote.removed } }
  | unseen : b.pc = none → BrowsingMove s b (.loop (.event .other)) b
  | call (pc pc' : NewServicePc) (g' : Registry) (ans : AdmitAnswer) : b.pc = some pc →
      handleNewService b.lobby.shared pc ans = some (g', pc') →
      BrowsingMove s b (.loop (.step ans))
        { lobby := { b.lobby with shared := g' }, pc := Discovery.settle pc' }
  | other (l : LobbyLabel) (lobby : Lobby) : fromElsewhere l = true →
      (admissions s).poolStep b.lobby l = some lobby →
      BrowsingMove s b (.other l) { b with lobby := lobby }

theorem browsing_move {s : RegistrationServer} {b b' : Browsing} {l : BrowsingLabel}
    (h : (browsing s).step b l = some b') : BrowsingMove s b l b' := by
  cases l with
  | loop l =>
    obtain ⟨d, hd, rfl⟩ := Option.map_eq_some_iff.1 h
    unfold Discovery.start at hd
    split at hd
    · split at hd
      · next info hpc => cases hd; exact .resolved info hpc
      · next tyDomain fullname hpc => cases hd; exact .removed tyDomain fullname hpc
      · next hpc => cases hd; exact .unseen hpc
      · cases hd
    · next ans =>
      obtain ⟨pc, hpc, hmap⟩ := Option.bind_eq_some_iff.1 hd
      obtain ⟨⟨g', pc'⟩, hcall, rfl⟩ := Option.map_eq_some_iff.1 hmap
      exact .call pc pc' g' ans hpc hcall
  | other l =>
    have hother : (if fromElsewhere l then
      ((admissions s).poolStep b.lobby l).map fun lobby => ({ b with lobby := lobby } : Browsing)
      else none) = some b' := h
    split at hother
    · next helse =>
      obtain ⟨lobby, hlobby, rfl⟩ := Option.map_eq_some_iff.1 hother
      exact .other l lobby helse hlobby
    · cases hother

theorem settle_eq_some {pc pc' : NewServicePc} (h : Discovery.settle pc = some pc') : pc = pc' := by
  unfold Discovery.settle at h
  split at h
  · cases h
  · exact Option.some.inj h

theorem settle_bind_writes (pc : NewServicePc) :
    (Discovery.settle pc).bind NewServicePc.writes = pc.writes := by
  unfold Discovery.settle
  split
  · rfl
  · rfl

section steps

variable {s : RegistrationServer} {domain n : String} {b b' : Browsing} {l : BrowsingLabel}
  {ls : List BrowsingLabel}

/-- The name of a resolved service is its instance name. -/
theorem name_of_resolved {info : ResolvedService}
    (hl : OfDomain domain n (.loop (.event (.serviceResolved info)))) :
    info.name = n ↔ info.fullname = fullnameOf domain n := by
  obtain ⟨hdomain, m, hm, hfullname, _⟩ := hl
  rw [name_of_fullname hm hfullname hdomain, hfullname]
  constructor
  · rintro rfl
    rfl
  · intro heq
    unfold fullnameOf at heq
    exact String.append_left_inj _ |>.1 heq

theorem valid_of_resolved {info : ResolvedService}
    (hl : OfDomain domain n (.loop (.event (.serviceResolved info)))) (hname : info.name = n) :
    ∃ service, info.read = .ok service := by
  obtain ⟨hdomain, m, hm, hfullname, hvalid⟩ := hl
  rw [name_of_fullname hm hfullname hdomain] at hname
  exact hvalid hname

/-- A removal is looked up under a full name, which is the name of no instance. -/
theorem remote_removed (hn : IsInstanceName domain n) {tyDomain fullname : String}
    (hl : OfDomain domain n (.loop (.event (.serviceRemoved tyDomain fullname)))) (g : Registry) :
    (g.updateRemote fullname Remote.removed).remote n = g.remote n := by
  obtain ⟨m, _, rfl⟩ := hl
  rw [remote_updateRemote, if_neg fun heq => fullname_ne hn heq.symm]

theorem lastSighting_snoc_none (hl : sighting domain n l = none) :
    lastSighting domain n (ls ++ [l]) = lastSighting domain n ls := by
  simp [lastSighting, List.filterMap_append, hl]

theorem lastSighting_snoc_some {x : Sighting} (hl : sighting domain n l = some x) :
    lastSighting domain n (ls ++ [l]) = some x := by
  simp [lastSighting, List.filterMap_append, hl]

theorem NewServicePc.Succeeds.mono {pc : NewServicePc} {g g' : Registry} (h : pc.Succeeds g)
    (hsome : ∀ k, (g.remote k).isSome → (g'.remote k).isSome) : pc.Succeeds g' := by
  unfold NewServicePc.Succeeds at h ⊢
  split
  · exact h
  · exact hsome _ h
  · exact h
  · exact h
  · trivial

/-- No record is ever taken away. -/
theorem lobby_isSome {p p' : Lobby} {l : LobbyLabel}
    (h : (admissions s).poolStep p l = some p') (k : String)
    (hk : (p.shared.remote k).isSome) : (p'.shared.remote k).isSome := by
  cases lobby_move h with
  | same hsame _ => rwa [hsame.isSome]
  | change e _ hchange => rwa [hchange.isSome]
  | insert r hr _ =>
    rw [hr, remote_insertRemote]
    split
    · rfl
    · exact hk

/-- What holds along every run: the other admissions store no available record,
    and where the loop is about to write the instance, the last event has
    resolved it. -/
structure Heeded (domain n : String) (ls : List BrowsingLabel) (b : Browsing) : Prop where
  outside : ∀ t ∈ b.lobby.tasks, t.Unannounced
  writing : ∀ pc, b.pc = some pc → pc.writes = some n →
    pc.Succeeds b.lobby.shared ∧ lastSighting domain n ls = some .resolved

theorem outside_step {p p' : Lobby} {l : LobbyLabel} (helse : fromElsewhere l = true)
    (h : ∀ t ∈ p.tasks, t.Unannounced) (hstep : (admissions s).poolStep p l = some p') :
    ∀ t ∈ p'.tasks, t.Unannounced := by
  cases l with
  | run i ans =>
    obtain ⟨t, g, t', spawned, ht, hown, rfl⟩ := Tasking.run_cases hstep
    obtain ⟨_, ht', rfl⟩ := admission_availability (h t (List.mem_of_getElem? ht)) hown
    exact Tasking.forall_run h (fun _ hu => hu) ht' (by simp)
  | enter t =>
    obtain ⟨hnew, rfl⟩ := Tasking.enter_cases hstep
    intro u hu
    rcases List.mem_append.1 hu with hold | hself
    · exact h u hold
    · obtain rfl := List.mem_singleton.1 hself
      exact unannounced_of_isNew hnew helse
  | env e =>
    cases hstep
    exact h

theorem heeded_step (hl : OfDomain domain n l) (h : Heeded domain n ls b)
    (hstep : (browsing s).step b l = some b') : Heeded domain n (ls ++ [l]) b' := by
  cases browsing_move hstep with
  | resolved info hpc =>
    refine ⟨h.outside, fun pc heq hwrites => ?_⟩
    cases heq
    have hname : info.name = n := Option.some.inj hwrites
    refine ⟨valid_of_resolved hl hname, lastSighting_snoc_some ?_⟩
    exact if_pos ((name_of_resolved hl).1 hname)
  | removed tyDomain fullname hpc => exact ⟨h.outside, fun pc heq => by simp [hpc] at heq⟩
  | unseen hpc => exact ⟨h.outside, fun pc heq => by simp [hpc] at heq⟩
  | call pc pc' g' ans hpc hcall =>
    refine ⟨h.outside, fun pc₁ heq hwrites₁ => ?_⟩
    obtain rfl := settle_eq_some heq
    by_cases hwrites : pc.writes = some n
    · obtain ⟨hsucceeds, hlast⟩ := h.writing pc hpc hwrites
      rcases handleNewService_writes hwrites hsucceeds hcall with ⟨_, hsucceeds'⟩ | ⟨hnone, _⟩
      · exact ⟨hsucceeds', by rwa [lastSighting_snoc_none rfl]⟩
      · rw [hnone] at hwrites₁
        cases hwrites₁
    · exact absurd hwrites₁ (handleNewService_other hwrites hcall).2
  | other l lobby helse hlobby =>
    refine ⟨outside_step helse h.outside hlobby, fun pc heq hwrites => ?_⟩
    obtain ⟨hsucceeds, hlast⟩ := h.writing pc heq hwrites
    exact ⟨hsucceeds.mono (lobby_isSome hlobby), by rwa [lastSighting_snoc_none rfl]⟩

/-- What the surroundings of the admissions do to the availability. -/
theorem availability_change (g : Registry) {e : RecordChange}
    (helse : fromElsewhere (.env e) = true) : (g.change e).availability n = g.availability n := by
  refine map_change g e RemoteUpdate.serviceAvailable_apply (fun fullname he => ?_)
    (fun _ _ _ => rfl) n
  subst he
  cases helse

theorem availability_insertRemote (g : Registry) {r : Remote} :
    (g.insertRemote r).availability n
      = if n = r.uuid then some r.serviceAvailable else g.availability n := by
  unfold Registry.availability
  rw [remote_insertRemote]
  split <;> rfl

/-- What another admission inserts is not available. -/
theorem Admission.Unannounced.inserts {t : Admission} {r : Remote} (h : t.Unannounced)
    (hr : t.inserts = some r) : r.serviceAvailable = false := by
  have hjoin : ∀ {ρ : Type} {pc : JoinPc ρ}, pc.Unannounced → pc.inserts = some r →
      r.serviceAvailable = false := by
    intro ρ pc hpc hpr
    cases pc with
    | addRemote r' => cases hpr; exact hpc
    | addWorker _ | getWorker _ | connecting _ | returned _ | panicked => cases hpr
  cases t with
  | newService pc => exact h.elim
  | register pc =>
    cases pc with
    | join pc => exact hjoin h hr
    | lookup _ | update _ _ _ => cases hr
  | manual pc =>
    cases pc with
    | join pc => exact hjoin h hr
    | parse _ | dial _ _ | register _ | lookup _ _ | update _ _ _ => cases hr

/-- An insertion keeps the record on its track if and only if it replaces no
    available one. -/
theorem tracked_insert {r : Remote} (havailable : r.serviceAvailable = false)
    (hP : Tracked domain n ls b) :
    (b.Settled n → ((b.lobby.shared.insertRemote r).availability n = some true ↔
      lastSighting domain n ls = some .resolved)) ↔
    (r.uuid = n → b.Settled n → b.lobby.shared.availability n ≠ some true) := by
  rw [availability_insertRemote, havailable]
  constructor
  · intro htracked huuid hsettled hbefore
    have hafter := (htracked hsettled).2 ((hP.available hsettled).1 hbefore)
    rw [if_pos huuid.symm] at hafter
    cases hafter
  · intro hagrees hsettled
    split
    · next hn =>
      have hlast := (hP.available hsettled).not.1 (hagrees hn.symm hsettled)
      exact iff_of_false (by simp) hlast
    · exact hP.available hsettled

/-- The steps of the others. -/
theorem tracked_other {l : LobbyLabel} {lobby : Lobby} (helse : fromElsewhere l = true)
    (hlobby : (admissions s).poolStep b.lobby l = some lobby) (h : Heeded domain n ls b)
    (hP : Tracked domain n ls b) :
    (b.Settled n → (lobby.shared.availability n = some true ↔
      lastSighting domain n ls = some .resolved)) ↔ Agrees domain n b (.other l) := by
  cases l with
  | run i ans =>
    obtain ⟨t, g, t', spawned, ht, hown, rfl⟩ := Tasking.run_cases hlobby
    have houtside := h.outside t (List.mem_of_getElem? ht)
    obtain ⟨hmove, _⟩ := admission_availability houtside hown
    have hagrees : Agrees domain n b (.other (.run i ans)) ↔ ∀ r ∈ t.inserts,
        r.uuid = n → b.Settled n → b.lobby.shared.availability n ≠ some true := by
      simp only [Agrees, ht, Option.bind_some]
    rw [hagrees]
    generalize hstored : t.inserts = stored at hmove ⊢
    cases hmove with
    | same g hsame =>
      refine iff_of_true (fun hsettled => ?_) fun r hr => by cases hr
      rw [hsame]
      exact hP.available hsettled
    | insert r =>
      rw [tracked_insert (houtside.inserts hstored) hP]
      constructor
      · intro hold r' hr'
        obtain rfl := Option.some.inj hr'
        exact hold
      · exact fun hall => hall r rfl
  | enter t =>
    obtain ⟨_, rfl⟩ := Tasking.enter_cases hlobby
    exact iff_of_true hP.available trivial
  | env e =>
    cases hlobby
    refine iff_of_true (fun hsettled => ?_) trivial
    rw [show ((admissions s).env b.lobby.shared e).availability n = b.lobby.shared.availability n
      from availability_change _ helse]
    exact hP.available hsettled

/-- Where the loop idles, it has nothing left to write. -/
theorem settled_of_idle (hpc : b.pc = none) : b.Settled n := by
  simp [Browsing.Settled, hpc]

/-- The step of a removal. -/
theorem tracked_removed (hn : IsInstanceName domain n) {tyDomain fullname : String}
    (hl : OfDomain domain n (.loop (.event (.serviceRemoved tyDomain fullname))))
    (hpc : b.pc = none) (hP : Tracked domain n ls b) :
    Tracked domain n (ls ++ [.loop (.event (.serviceRemoved tyDomain fullname))])
        { b with lobby := { b.lobby with
            shared := b.lobby.shared.updateRemote fullname Remote.removed } } ↔
      Agrees domain n b (.loop (.event (.serviceRemoved tyDomain fullname))) := by
  have hremote := remote_removed hn hl b.lobby.shared
  have havailability : (b.lobby.shared.updateRemote fullname Remote.removed).availability n
      = b.lobby.shared.availability n := by
    unfold Registry.availability
    rw [hremote]
  by_cases hfullname : fullname = fullnameOf domain n
  · have hsighting : sighting domain n (.loop (.event (.serviceRemoved tyDomain fullname)))
        = some .removed := if_pos hfullname
    constructor
    · intro hafter _ r hr
      refine ⟨?_, hafter.disconnected (by simp [hsighting]) r (hremote.trans hr)⟩
      -- an available record would have to be resolved last
      have hnot := (hafter.available (settled_of_idle hpc)).1
      rw [havailability, lastSighting_snoc_some hsighting] at hnot
      cases havailable : r.serviceAvailable with
      | false => rfl
      | true =>
        have hsome : b.lobby.shared.availability n = some true := by
          simp [Registry.availability, Option.mem_def.1 hr, havailable]
        cases hnot hsome
    · intro hagrees
      refine ⟨fun _ => iff_of_false ?_ ?_, fun _ r hr => (hagrees hfullname r (hremote ▸ hr)).2⟩
      · show (b.lobby.shared.updateRemote fullname Remote.removed).availability n ≠ some true
        rw [havailability]
        intro hsome
        obtain ⟨r, hr, htrue⟩ := Option.map_eq_some_iff.1 hsome
        rw [(hagrees hfullname r hr).1] at htrue
        cases htrue
      · rw [lastSighting_snoc_some hsighting]
        simp
  · have hsighting : sighting domain n (.loop (.event (.serviceRemoved tyDomain fullname)))
        = none := if_neg hfullname
    refine iff_of_true ⟨fun hsettled => ?_, fun hlast => ?_⟩ fun heq => absurd heq hfullname
    · rw [lastSighting_snoc_none hsighting]
      show (b.lobby.shared.updateRemote fullname Remote.removed).availability n = some true ↔ _
      rw [havailability]
      exact hP.available hsettled
    · simp [hsighting] at hlast

/-- A step of a call of the loop. -/
theorem tracked_call {pc pc' : NewServicePc} {g' : Registry} {ans : AdmitAnswer}
    (hpc : b.pc = some pc) (hcall : handleNewService b.lobby.shared pc ans = some (g', pc'))
    (h : Heeded domain n ls b) (hP : Tracked domain n ls b) :
    Tracked domain n (ls ++ [.loop (.step ans)])
      { lobby := { b.lobby with shared := g' }, pc := Discovery.settle pc' } := by
  have hnone : sighting domain n (.loop (.step ans)) = none := rfl
  refine ⟨fun hsettled => ?_, fun hlast => by simp [hnone] at hlast⟩
  rw [lastSighting_snoc_none hnone]
  show g'.availability n = some true ↔ _
  have hsettled' : pc'.writes ≠ some n := by
    unfold Browsing.Settled at hsettled
    rwa [settle_bind_writes] at hsettled
  by_cases hwrites : pc.writes = some n
  · obtain ⟨hsucceeds, hlast⟩ := h.writing pc hpc hwrites
    rcases handleNewService_writes hwrites hsucceeds hcall with ⟨hstill, _⟩ | ⟨_, havailable⟩
    · exact absurd hstill hsettled'
    · exact iff_of_true havailable hlast
  · rw [(handleNewService_other hwrites hcall).1]
    exact hP.available (by simpa [Browsing.Settled, hpc] using hwrites)

/-- A step keeps the record on its track if and only if it agrees. -/
theorem tracked_step (hn : IsInstanceName domain n) (hl : OfDomain domain n l)
    (h : Heeded domain n ls b) (hP : Tracked domain n ls b)
    (hstep : (browsing s).step b l = some b') :
    Tracked domain n (ls ++ [l]) b' ↔ Agrees domain n b l := by
  cases browsing_move hstep with
  | resolved info hpc =>
    refine iff_of_true ⟨fun hsettled => ?_, fun hlast => ?_⟩ trivial
    -- the loop is about to write the instance, or another one
    · have hname : info.name ≠ n := fun heq => hsettled (congrArg some heq)
      have hnone : sighting domain n (.loop (.event (.serviceResolved info))) = none :=
        if_neg fun heq => hname ((name_of_resolved hl).2 heq)
      rw [lastSighting_snoc_none hnone]
      exact hP.available (settled_of_idle hpc)
    · rw [List.getLast?_concat, Option.bind_some, sighting] at hlast
      split at hlast <;> cases hlast
  | removed tyDomain fullname hpc => exact tracked_removed hn hl hpc hP
  | unseen hpc =>
    refine iff_of_true ⟨fun hsettled => ?_, fun hlast => by simp [sighting] at hlast⟩ trivial
    rw [lastSighting_snoc_none rfl]
    exact hP.available hsettled
  | call pc pc' g' ans hpc hcall => exact iff_of_true (tracked_call hpc hcall h hP) trivial
  | other l lobby helse hlobby =>
    rw [← tracked_other helse hlobby h hP]
    constructor
    · intro hafter hsettled
      have hiff := hafter.available hsettled
      rwa [lastSighting_snoc_none rfl] at hiff
    · intro hiff
      refine ⟨fun hsettled => ?_, fun hlast => by simp [sighting] at hlast⟩
      rw [lastSighting_snoc_none rfl]
      exact hiff hsettled

end steps

/-! ## Section 5: Runs -/

theorem heeded_run {s : RegistrationServer} {domain n : String} {ls : List BrowsingLabel}
    {b : Browsing} (hls : ∀ l ∈ ls, OfDomain domain n l)
    (hrun : (browsing s).exec .new ls = some b) : Heeded domain n ls b := by
  refine Machine.exec_history (H := fun ls b => (∀ l ∈ ls, OfDomain domain n l) →
    Heeded domain n ls b) (fun _ => ?_) (fun ls b l b' _ h hstep hdomain => ?_) hrun hls
  · exact ⟨by simp [Browsing.new, Lobby.new], fun _ heq => by cases heq⟩
  · exact heeded_step (hdomain l (by simp)) (h fun l' hl' => hdomain l' (by simp [hl'])) hstep

/-- The new manager has no record, and no event has been seen. -/
theorem tracked_new (domain n : String) : Tracked domain n [] .new := by
  refine ⟨fun _ => iff_of_false ?_ (by simp [lastSighting]), fun hlast => by simp at hlast⟩
  simp [Registry.availability, Browsing.new, Lobby.new, Registry.new, Registry.remote,
    RemoteManager.remote, RemoteManager.empty]

/-- In every run from a new manager, with any other admissions and updates: the
    remote of an instance follows the events of its service if and only if every
    step agrees with that. -/
theorem tracked_iff_agrees {s : RegistrationServer} {domain n : String}
    (hn : IsInstanceName domain n) {ls : List BrowsingLabel} {b : Browsing}
    (hls : ∀ l ∈ ls, OfDomain domain n l) (hrun : (browsing s).exec .new ls = some b) :
    (browsing s).Throughout (Tracked domain n) .new ls ↔
      (browsing s).Along (Agrees domain n) .new ls := by
  refine Machine.throughout_iff_along (tracked_new domain n) hrun fun pre l t u hpre ht htracked hu => ?_
  have hdomain : ∀ l' ∈ pre ++ [l], OfDomain domain n l' := fun l' hl' => hls l' (hpre.subset hl')
  exact tracked_step hn (hdomain l (by simp))
    (heeded_run (fun l' hl' => hdomain l' (by simp [hl'])) ht) htracked hu

/-- The service of the instance `b`. -/
def serviceOfB : ResolvedService where
  fullname := "b._warpinator._tcp.local."
  tyDomain := "_warpinator._tcp.local."
  addresses := [.v4 0x0a000007]
  port := 42000
  properties := fun key =>
    if key = "auth-port" then some "42001"
    else if key = "hostname" then some "b"
    else if key = "api-version" then some "2"
    else none

/-- The host `b` registers itself, its service is resolved, and the call that
    finds its record makes it available. -/
def resolvedRun : List BrowsingLabel :=
  [.other (.enter (.register (.lookup registrationOfB))), .other (.run 0 .go), .other (.run 0 .go),
    .other (.run 0 .go), .loop (.event (.serviceResolved serviceOfB)), .loop (.step .go),
    .loop (.step .go), .loop (.step .go),
    .loop (.step (.connected (.ok ()) .connected))]

/-- The event that follows when the service goes away. -/
def removalOfB : BrowsingLabel :=
  .loop (.event (.serviceRemoved "_warpinator._tcp.local." "b._warpinator._tcp.local."))

theorem tracked_resolvedRun :
    ∃ b, (browsing serverOfA).exec .new resolvedRun = some b ∧
      ((browsing serverOfA).Throughout (Tracked "_warpinator._tcp.local." "b") .new resolvedRun ↔
        (browsing serverOfA).Along (Agrees "_warpinator._tcp.local." "b") .new resolvedRun) ∧
      (browsing serverOfA).Along (Agrees "_warpinator._tcp.local." "b") .new resolvedRun := by
  have hn : IsInstanceName "_warpinator._tcp.local." "b" :=
    ⟨by unfold EndsWith; decide, by unfold EndsWith; decide⟩
  refine ⟨_, rfl, tracked_iff_agrees hn ?_ rfl, by decide⟩
  intro l hl
  simp only [resolvedRun, List.mem_cons, List.not_mem_nil, or_false] at hl
  rcases hl with rfl | rfl | rfl | rfl | rfl | rfl | rfl | rfl | rfl
  all_goals try exact trivial
  exact ⟨rfl, "b", hn, by decide, fun _ => ⟨_, rfl⟩⟩

/-- The service is removed: its remote stays available and connected. -/
theorem available_after_removal :
    ∃ b, (browsing serverOfA).exec .new (resolvedRun ++ [removalOfB]) = some b ∧
      b.Settled "b" ∧ b.lobby.shared.availability "b" = some true ∧
      (b.lobby.shared.remote "b").map Remote.state = some .connected ∧
      lastSighting "_warpinator._tcp.local." "b" (resolvedRun ++ [removalOfB]) = some .removed :=
  ⟨_, rfl, by decide, by decide, by decide, by decide⟩

end Warpinator
