import Warpinator.Server.Admissions

/-! # Registrations from the Wire

    `register_service` and the reply handling of `manual_connection` take a
    `ServiceRegistration` that a peer has written.  Its ports have 32 bits, those
    of a remote 16.

    One call runs among any other admissions and changes
    (`faithful_iff_accepts`): it stores the announced ports, or refuses the
    message and changes nothing, exactly if the ports fit or are never looked
    at, and the remote is not connected. -/

namespace Warpinator

/-! ## Section 1: What the other tasks leave in place -/

/-- Every record stands under its own uuid. -/
def Registry.WellKeyed (g : Registry) : Prop := ∀ k r, g.remote k = some r → r.uuid = k

/-- No record goes away or to another key. -/
structure Registry.Survives (g g' : Registry) : Prop where
  isSome : ∀ k, (g.remote k).isSome → (g'.remote k).isSome
  wellKeyed : g.WellKeyed → g'.WellKeyed

theorem SameRecords.survives {g g' : Registry} (h : SameRecords g g') : g.Survives g' where
  isSome k hk := by rwa [h.isSome]
  wellKeyed hg k r hr := by
    have hcontent := h.content k
    rw [hr] at hcontent
    obtain ⟨r₀, hr₀, heq⟩ := Option.map_eq_some_iff.1 hcontent.symm
    exact (Prod.mk.inj heq).1.symm.trans (hg k r₀ hr₀)

theorem ChangeMove.survives {g g' : Registry} {e : RecordChange} (h : ChangeMove g e g') :
    g.Survives g' where
  isSome k hk := by rwa [h.isSome]
  wellKeyed hg k r hr := by
    cases h with
    | same hremote _ => exact hg k r (hremote k ▸ hr)
    | write uuid r₀ r' hr₀ hremote _ hkeeps =>
      rw [hremote] at hr
      split at hr
      · next hk =>
        cases hr
        rw [hkeeps.uuid, hg uuid r₀ hr₀, hk]
      · exact hg k r hr

theorem insertRemote_survives (g : Registry) (r : Remote) : g.Survives (g.insertRemote r) where
  isSome k hk := by
    rw [remote_insertRemote]
    split
    · rfl
    · exact hk
  wellKeyed hg k r' hr := by
    rw [remote_insertRemote] at hr
    split at hr
    · next hk => cases hr; exact hk.symm
    · exact hg k r' hr

section lobby

variable {s : RegistrationServer} {p p' : Lobby}

theorem lobby_survives {l : LobbyLabel} (h : (admissions s).poolStep p l = some p') :
    p.shared.Survives p'.shared := by
  cases lobby_move h with
  | same hsame _ => exact hsame.survives
  | change e _ hchange => exact hchange.survives
  | insert r hg _ => exact hg ▸ insertRemote_survives _ r

theorem wellKeyed_of_reachable {ls : List LobbyLabel}
    (hrun : (admissions s).pool.exec Lobby.new ls = some p) : p.shared.WellKeyed := by
  refine Machine.exec_invariant _ (I := fun p : Lobby => p.shared.WellKeyed) ?_ ?_ hrun
  · intro p l p' hI hstep
    exact (lobby_survives hstep).wellKeyed hI
  · intro k r hr
    cases hr

end lobby

/-! ## Section 2: Ports -/

namespace ServiceRegistration

/-- The announced ports are ports. -/
def Fits (service : ServiceRegistration) : Prop :=
  service.port.toNat < 2 ^ 16 ∧ service.authPort.toNat < 2 ^ 16

/-- The ports of a record are those of the message. -/
def Announces (service : ServiceRegistration) (ports : BitVec 16 × BitVec 16) : Prop :=
  ports.1.toNat = service.port.toNat ∧ ports.2.toNat = service.authPort.toNat

instance (service : ServiceRegistration) : Decidable service.Fits :=
  inferInstanceAs (Decidable (_ ∧ _))

instance (service : ServiceRegistration) : DecidablePred service.Announces := fun _ =>
  inferInstanceAs (Decidable (_ ∧ _))

end ServiceRegistration

theorem toNat_setWidth_eq_iff (n : BitVec 32) :
    (n.setWidth 16).toNat = n.toNat ↔ n.toNat < 2 ^ 16 := by
  rw [BitVec.toNat_setWidth]
  exact Nat.mod_eq_iff_lt (by decide)

/-- `as` keeps a number exactly if it fits. -/
theorem announces_setWidth_iff (service : ServiceRegistration) :
    service.Announces (service.port.setWidth 16, service.authPort.setWidth 16) ↔ service.Fits := by
  simp only [ServiceRegistration.Announces, ServiceRegistration.Fits, toNat_setWidth_eq_iff]

theorem toU16_eq_none_iff {n : BitVec 32} : toU16 n = none ↔ ¬ n.toNat < 2 ^ 16 := by
  unfold toU16
  split <;> simp_all

theorem toU16_of_lt {n : BitVec 32} (h : n.toNat < 2 ^ 16) : toU16 n = some (n.setWidth 16) :=
  if_pos h

/-- A conversion that succeeds keeps the number. -/
theorem toU16_eq_some {n : BitVec 32} {m : BitVec 16} (h : toU16 n = some m) :
    n.toNat < 2 ^ 16 ∧ m.toNat = n.toNat := by
  unfold toU16 at h
  split at h
  · next hn =>
    cases h
    exact ⟨hn, (toNat_setWidth_eq_iff n).2 hn⟩
  · cases h

/-! ## Section 3: A call among other tasks -/

/-- How a call ends. -/
inductive CallEnd (ρ : Type) where
  | returned (result : ρ)
  | panicked

def JoinPc.outcome {ρ : Type} : JoinPc ρ → Option (CallEnd ρ)
  | .returned result => some (.returned result)
  | .panicked => some .panicked
  | _ => none

def JoinPc.rank {ρ : Type} : JoinPc ρ → Nat
  | .addWorker _ => 4
  | .addRemote _ => 3
  | .getWorker _ => 2
  | .connecting _ => 1
  | .returned _ | .panicked => 0

/-- A call that writes the ports of a remote. -/
structure Caller (π ρ : Type) where
  step : Registry → π → AdmitAnswer → Option (Registry × π)
  /-- The remote whose ports the next step stores. -/
  writes : π → Option String
  outcome : π → Option (CallEnd ρ)
  /-- A bound on the number of steps to go. -/
  rank : π → Nat

structure Enrolment (π : Type) where
  lobby : Lobby
  pc : π
  /-- The ports that the call has stored. -/
  stored : Option (BitVec 16 × BitVec 16)
  /-- No step of the call has changed the maps. -/
  untouched : Prop

inductive EnrolmentLabel where
  | call (ans : AdmitAnswer)
  | other (l : LobbyLabel)

def Remote.ports (r : Remote) : BitVec 16 × BitVec 16 := (r.port, r.authPort)

/-- The call after a step of its own. -/
def Caller.advance {π ρ : Type} (c : Caller π ρ) (e : Enrolment π) (g : Registry) (pc : π) :
    Enrolment π where
  lobby := { e.lobby with shared := g }
  pc := pc
  stored :=
    match c.writes e.pc with
    | some uuid => (g.remote uuid).map Remote.ports
    | none => e.stored
  untouched := e.untouched ∧ g.manager.remotes = e.lobby.shared.manager.remotes ∧
    g.workers = e.lobby.shared.workers

def Caller.enrolment {π ρ : Type} (c : Caller π ρ) (s : RegistrationServer) :
    Machine (Enrolment π) EnrolmentLabel where
  step e
    | .call ans => (c.step e.lobby.shared e.pc ans).map fun (g, pc) => c.advance e g pc
    | .other l => ((admissions s).poolStep e.lobby l).map fun p => { e with lobby := p }

/-- A call that is about to take its first step. -/
def Enrolment.start {π : Type} (p : Lobby) (pc : π) : Enrolment π where
  lobby := p
  pc := pc
  stored := none
  untouched := True

def registering (s : RegistrationServer) :
    Caller RegisterPc (Except Status ServiceRegistration) where
  step := s.registerService
  writes
    | .update req _ _ => some req.serviceId
    | .join pc => pc.inserts.map Remote.uuid
    | _ => none
  outcome
    | .join pc => pc.outcome
    | _ => none
  rank
    | .lookup _ => 6
    | .update _ _ _ => 5
    | .join pc => pc.rank

def connectingManually : Caller ManualPc (Except ManualConnectionError Unit) where
  step := manualConnection
  writes
    | .update _ _ remote => some remote.uuid
    | .join pc => pc.inserts.map Remote.uuid
    | _ => none
  outcome
    | .join pc => pc.outcome
    | _ => none
  rank
    | .parse _ => 9
    | .dial _ _ => 8
    | .register _ => 7
    | .lookup _ _ => 6
    | .update _ _ _ => 5
    | .join pc => pc.rank

/-- A call that has not ended takes a further step, and only so many. -/
structure Caller.Total {π ρ : Type} (c : Caller π ρ) : Prop where
  proceeds : ∀ g pc, c.outcome pc = none → ∃ ans, (c.step g pc ans).isSome
  decreases : ∀ g pc ans g' pc', c.step g pc ans = some (g', pc') → c.rank pc' < c.rank pc

/-- The call has stored the announced ports, or it has refused the message and
    changed nothing. -/
def Faithful {π ε α : Type} (service : ServiceRegistration) (e : Enrolment π) :
    CallEnd (Except ε α) → Prop
  | .returned result =>
    match e.stored with
    | some ports => service.Announces ports
    | none => (∃ err, result = .error err) ∧ e.untouched
  | .panicked => False

/-- The messages that `register_service` handles well. -/
def Registry.AcceptsRegistration (g : Registry) (req : ServiceRegistration) : Prop :=
  (∀ r, g.remote req.serviceId = some r → r.state ≠ .connected) ∧
    (IpAddr.fromStr req.ip = none ∨ req.Fits)

/-- The replies that `manual_connection` handles well. -/
def Registry.AcceptsReply (g : Registry) (ip : String) (service : ServiceRegistration) : Prop :=
  (g.remote service.serviceId = none ∧ IpAddr.fromStr ip = none) ∨ service.Fits

/-! ## Section 4: The common rest -/

section joins

variable {ε α : Type} {service : ServiceRegistration} {accepts : Prop}

/-- A record that has been written. -/
def JoinPc.isLate {ρ : Type} : JoinPc ρ → Bool
  | .getWorker _ | .connecting _ | .returned _ => true
  | _ => false

/-- The message is handled well exactly if it is accepted: what this means of
    the rest of a call. -/
def JoinPc.Sound {π ε α : Type} (service : ServiceRegistration) (accepts : Prop)
    (e : Enrolment π) : JoinPc (Except ε α) → Prop
  | .addWorker r | .addRemote r => service.Announces r.ports ↔ accepts
  | .getWorker _ | .connecting _ => ∃ ports, e.stored = some ports ∧
      (service.Announces ports ↔ accepts)
  | .returned result => Faithful service e (.returned result) ↔ accepts
  | .panicked => ¬ accepts

theorem JoinPc.Sound.of_stored {π : Type} {e : Enrolment π} {ports : BitVec 16 × BitVec 16}
    {pc : JoinPc (Except ε α)} (hlate : pc.isLate = true) (hstored : e.stored = some ports)
    (hports : service.Announces ports ↔ accepts) : pc.Sound service accepts e := by
  cases pc with
  | getWorker | connecting => exact ⟨ports, hstored, hports⟩
  | returned result =>
    simp only [JoinPc.Sound, Faithful, hstored]
    exact hports
  | addWorker | addRemote | panicked => cases hlate

/-- A call that ends has been sound. -/
theorem JoinPc.Sound.faithful_iff {π : Type} {e : Enrolment π} {pc : JoinPc (Except ε α)}
    {o : CallEnd (Except ε α)} (h : pc.Sound service accepts e) (hend : pc.outcome = some o) :
    Faithful service e o ↔ accepts := by
  cases pc with
  | returned result => cases hend; exact h
  | panicked => cases hend; exact iff_of_false id h
  | addWorker | addRemote | getWorker | connecting => cases hend

/-- One step of the rest of a call. -/
theorem join_sound {j : JoinEnd (Except ε α)} (hadded : ∀ uuid, (j.added uuid).isLate = true)
    {g g' : Registry} {pc pc' : JoinPc (Except ε α)} {ans : AdmitAnswer}
    (hstep : j.step g pc ans = some (g', pc')) {π : Type} {e e' : Enrolment π}
    (hinserts : ∀ r, pc.inserts = some r → e'.stored = (g'.remote r.uuid).map Remote.ports)
    (hother : pc.inserts = none → e'.stored = e.stored) (h : pc.Sound service accepts e) :
    pc'.Sound service accepts e' := by
  unfold JoinEnd.step at hstep
  split at hstep
  · cases hstep
    exact h
  · next r =>
    cases hstep
    -- the record is inserted with the announced ports
    refine .of_stored (hadded _) ?_ h
    simpa [remote_insertRemote] using hinserts r rfl
  · obtain ⟨ports, hstored, hports⟩ := h
    have hstored' := (hother rfl).trans hstored
    -- with a worker or without, the ports are stored by now
    split at hstep <;> cases hstep <;> exact .of_stored rfl hstored' hports
  · obtain ⟨ports, hstored, hports⟩ := h
    cases hstep
    exact .of_stored rfl ((hother rfl).trans hstored) hports
  · cases hstep

end joins

/-! ## Section 5: Both calls -/

theorem enrolment_cases {π ρ : Type} {c : Caller π ρ} {s : RegistrationServer} {e e' : Enrolment π}
    {l : EnrolmentLabel} (h : (c.enrolment s).step e l = some e') :
    (∃ ans g pc, l = .call ans ∧ c.step e.lobby.shared e.pc ans = some (g, pc) ∧
      e' = c.advance e g pc) ∨
    ∃ p, e.lobby.shared.Survives p.shared ∧ e' = { e with lobby := p } := by
  cases l with
  | call ans =>
    obtain ⟨⟨g, pc⟩, hstep, rfl⟩ := Option.map_eq_some_iff.1 h
    exact .inl ⟨ans, g, pc, rfl, hstep, rfl⟩
  | other l =>
    obtain ⟨p, hstep, rfl⟩ := Option.map_eq_some_iff.1 h
    exact .inr ⟨p, lobby_survives hstep, rfl⟩

section calls

variable {s : RegistrationServer} {service : ServiceRegistration} {accepts : Prop}

def RegisterPc.Sound (req : ServiceRegistration) (accepts : Prop) (e : Enrolment RegisterPc) :
    Prop :=
  match e.pc with
  | .lookup _ => False
  | .update req' _ _ => req' = req ∧ (e.lobby.shared.remote req.serviceId).isSome ∧
      (req.Fits ↔ accepts)
  | .join pc => pc.Sound req accepts e

/-- The update of a known remote stores the announced ports or panics. -/
theorem register_update_sound {e : Enrolment RegisterPc} {req : ServiceRegistration} {ip : IpAddr}
    {needsReconnect : Bool} {g : Registry} {pc : RegisterPc}
    (hpc : e.pc = .update req ip needsReconnect)
    (hsome : (e.lobby.shared.remote req.serviceId).isSome) (haccepts : req.Fits ↔ accepts)
    (hstep : s.registerService e.lobby.shared (.update req ip needsReconnect) .go = some (g, pc)) :
    RegisterPc.Sound req accepts ((registering s).advance e g pc) := by
  obtain ⟨r, hr⟩ := Option.isSome_iff_exists.1 hsome
  simp only [RegistrationServer.registerService, hr] at hstep
  split at hstep
  · next hport =>
    cases hstep
    -- `unwrap` on a port that does not fit
    exact fun h => toU16_eq_none_iff.1 hport (haccepts.2 h).1
  · next hauthPort =>
    cases hstep
    exact fun h => toU16_eq_none_iff.1 hauthPort (haccepts.2 h).2
  · next port authPort hport hauthPort =>
    obtain ⟨hport, hportEq⟩ := toU16_eq_some hport
    obtain ⟨hauthPort, hauthPortEq⟩ := toU16_eq_some hauthPort
    obtain ⟨rfl, rfl⟩ := Prod.mk.inj (Option.some.inj hstep).symm
    have hports : req.Announces (port, authPort) ↔ accepts :=
      iff_of_true ⟨hportEq, hauthPortEq⟩ (haccepts.1 ⟨hport, hauthPort⟩)
    refine JoinPc.Sound.of_stored (by split <;> rfl) ?_ hports
    cases needsReconnect <;>
      simp [Caller.advance, registering, hpc, remote_updateRemote, hr, Remote.ports]

theorem register_join_sound {e : Enrolment RegisterPc}
    {j : JoinPc (Except Status ServiceRegistration)}
    {ans : AdmitAnswer} {g : Registry} {pc : RegisterPc} (hpc : e.pc = .join j)
    (h : j.Sound service accepts e)
    (hstep : s.registerService e.lobby.shared (.join j) ans = some (g, pc)) :
    RegisterPc.Sound service accepts ((registering s).advance e g pc) := by
  obtain ⟨⟨g₁, j'⟩, hjoin, heq⟩ := Option.map_eq_some_iff.1 hstep
  obtain ⟨rfl, rfl⟩ := Prod.mk.inj heq
  refine join_sound (fun _ => rfl) hjoin (fun r hr => ?_) (fun hnone => ?_) h
  · simp [Caller.advance, registering, hpc, hr]
  · simp [Caller.advance, registering, hpc, hnone]

theorem register_sound_step {e e' : Enrolment RegisterPc} {l : EnrolmentLabel}
    (h : RegisterPc.Sound service accepts e)
    (hstep : ((registering s).enrolment s).step e l = some e') :
    RegisterPc.Sound service accepts e' := by
  rcases enrolment_cases hstep with ⟨ans, g, pc, rfl, hown, rfl⟩ | ⟨p, hsurvives, rfl⟩
  · generalize hpc : e.pc = pc₀ at hown
    unfold RegisterPc.Sound at h
    rw [hpc] at h
    cases pc₀ with
    | lookup req => exact absurd h id
    | update req ip needsReconnect =>
      obtain ⟨rfl, hsome, haccepts⟩ := h
      cases ans with
      | go => exact register_update_sound hpc hsome haccepts hown
      | dialed | undialed | registered | connected => cases hown
    | join j => exact register_join_sound hpc h hown
  · unfold RegisterPc.Sound at h ⊢
    dsimp only
    generalize e.pc = pc at h ⊢
    cases pc with
    | lookup req => exact h
    -- the others may update the record in between, but they do not remove it
    | update req ip needsReconnect => exact ⟨h.1, hsurvives.isSome _ h.2.1, h.2.2⟩
    | join j => cases j <;> exact h

/-- A call that refuses the message at once. -/
theorem refused_faithful {π ε α : Type} {c : Caller π (Except ε α)} {p : Lobby} {pc pc' : π}
    (hwrites : c.writes pc = none) (err : ε) :
    Faithful service (c.advance (.start p pc) p.shared pc')
      (.returned (.error err : Except ε α)) := by
  simp [Faithful, Caller.advance, Enrolment.start, hwrites]

/-- The first step of `register_service`. -/
theorem register_sound_start {p : Lobby} {e : Enrolment RegisterPc} {req : ServiceRegistration}
    (hstep : ((registering s).enrolment s).step (.start p (.lookup req)) (.call .go) = some e) :
    RegisterPc.Sound req (p.shared.AcceptsRegistration req) e := by
  obtain ⟨⟨g, pc⟩, hown, rfl⟩ := Option.map_eq_some_iff.1 hstep
  simp only [registering, Enrolment.start, RegistrationServer.registerService] at hown
  split at hown
  · next hnone =>
    have hstate : ∀ r, p.shared.remote req.serviceId = some r → r.state ≠ .connected := by
      simp [hnone]
    split at hown
    · next hip =>
      cases hown
      exact iff_of_true (refused_faithful rfl _) ⟨hstate, .inl hip⟩
    · next ip hip =>
      have haccepts : p.shared.AcceptsRegistration req ↔ req.Fits := by
        simp [Registry.AcceptsRegistration, hnone, hip]
      split at hown
      · next port authPort hport hauthPort =>
        cases hown
        obtain ⟨hport, hportEq⟩ := toU16_eq_some hport
        obtain ⟨hauthPort, hauthPortEq⟩ := toU16_eq_some hauthPort
        exact iff_of_true ⟨hportEq, hauthPortEq⟩ (haccepts.2 ⟨hport, hauthPort⟩)
      · next hnot =>
        cases hown
        intro h
        obtain ⟨hport, hauthPort⟩ := haccepts.1 h
        exact hnot _ _ (toU16_of_lt hport) (toU16_of_lt hauthPort)
  · next r hr =>
    split at hown
    · next hstate =>
      cases hown
      -- a connected remote is answered with `Ok`, and its ports are not stored
      refine iff_of_false (fun h => ?_) fun h => h.1 r hr hstate
      obtain ⟨⟨err, herr⟩, _⟩ := h
      cases herr
    · next hstate =>
      have hstate' : ∀ r', p.shared.remote req.serviceId = some r' → r'.state ≠ .connected := by
        intro r' hr'
        obtain rfl : r = r' := Option.some.inj (hr.symm.trans hr')
        exact hstate
      split at hown
      · next hip =>
        cases hown
        exact iff_of_true (refused_faithful rfl _) ⟨hstate', .inl hip⟩
      · next ip hip =>
        cases hown
        refine ⟨rfl, Option.isSome_iff_exists.2 ⟨r, hr⟩, fun h => ⟨hstate', .inr h⟩, fun h => ?_⟩
        rcases h.2 with h | h
        · rw [hip] at h; cases h
        · exact h

def ManualPc.Sound (service : ServiceRegistration) (accepts : Prop) (e : Enrolment ManualPc) :
    Prop :=
  match e.pc with
  | .update _ service' remote => service' = service ∧
      (e.lobby.shared.remote remote.uuid).isSome ∧ (service.Fits ↔ accepts)
  | .join pc => pc.Sound service accepts e
  | _ => False

theorem manualNext_isLate (uuid : String) (state : RemoteState) :
    (manualNext uuid state).isLate = true := by
  cases state <;> rfl

theorem manual_update_sound {e : Enrolment ManualPc} {ip : String} {remote : Remote}
    {g : Registry} {pc : ManualPc} (hpc : e.pc = .update ip service remote)
    (hsome : (e.lobby.shared.remote remote.uuid).isSome) (haccepts : service.Fits ↔ accepts)
    (hstep : manualConnection e.lobby.shared (.update ip service remote) .go = some (g, pc)) :
    ManualPc.Sound service accepts (connectingManually.advance e g pc) := by
  obtain ⟨r, hr⟩ := Option.isSome_iff_exists.1 hsome
  simp only [manualConnection, hr] at hstep
  obtain ⟨rfl, rfl⟩ := Prod.mk.inj (Option.some.inj hstep).symm
  have hports : service.Announces (service.update ip r).ports ↔ accepts :=
    (announces_setWidth_iff service).trans haccepts
  refine JoinPc.Sound.of_stored (manualNext_isLate _ _) ?_ hports
  simp [Caller.advance, connectingManually, hpc, remote_updateRemote, hr]

theorem manual_join_sound {e : Enrolment ManualPc} {j : JoinPc (Except ManualConnectionError Unit)}
    {ans : AdmitAnswer} {g : Registry} {pc : ManualPc} (hpc : e.pc = .join j)
    (h : j.Sound service accepts e)
    (hstep : manualConnection e.lobby.shared (.join j) ans = some (g, pc)) :
    ManualPc.Sound service accepts (connectingManually.advance e g pc) := by
  obtain ⟨⟨g₁, j'⟩, hjoin, heq⟩ := Option.map_eq_some_iff.1 hstep
  obtain ⟨rfl, rfl⟩ := Prod.mk.inj heq
  refine join_sound (fun _ => rfl) hjoin (fun r hr => ?_) (fun hnone => ?_) h
  · simp [Caller.advance, connectingManually, hpc, hr]
  · simp [Caller.advance, connectingManually, hpc, hnone]

theorem manual_sound_step {e e' : Enrolment ManualPc} {l : EnrolmentLabel}
    (h : ManualPc.Sound service accepts e)
    (hstep : (connectingManually.enrolment s).step e l = some e') :
    ManualPc.Sound service accepts e' := by
  rcases enrolment_cases hstep with ⟨ans, g, pc, rfl, hown, rfl⟩ | ⟨p, hsurvives, rfl⟩
  · generalize hpc : e.pc = pc₀ at hown
    unfold ManualPc.Sound at h
    rw [hpc] at h
    cases pc₀ with
    | parse | dial | register | lookup => exact absurd h id
    | update ip service' remote =>
      obtain ⟨rfl, hsome, haccepts⟩ := h
      cases ans with
      | go => exact manual_update_sound hpc hsome haccepts hown
      | dialed | undialed | registered | connected => cases hown
    | join j => exact manual_join_sound hpc h hown
  · unfold ManualPc.Sound at h ⊢
    dsimp only
    generalize e.pc = pc at h ⊢
    cases pc with
    | parse | dial | register | lookup => exact h
    -- here, too, the record stays
    | update ip service' remote => exact ⟨h.1, hsurvives.isSome _ h.2.1, h.2.2⟩
    | join j => cases j <;> exact h

/-- The first step of `manual_connection` after the reply. -/
theorem manual_sound_start {p : Lobby} (hkeyed : p.shared.WellKeyed) {e : Enrolment ManualPc}
    {ip : String}
    (hstep : (connectingManually.enrolment s).step (.start p (.lookup ip service)) (.call .go)
      = some e) :
    ManualPc.Sound service (p.shared.AcceptsReply ip service) e := by
  obtain ⟨⟨g, pc⟩, hown, rfl⟩ := Option.map_eq_some_iff.1 hstep
  simp only [connectingManually, Enrolment.start, manualConnection] at hown
  split at hown
  · next r hr =>
    cases hown
    have huuid : r.uuid = service.serviceId := hkeyed _ _ hr
    refine ⟨rfl, ?_, ?_⟩
    · show (p.shared.remote r.uuid).isSome = true
      rw [huuid, hr]
      rfl
    · simp [Registry.AcceptsReply, hr]
  · next hnone =>
    split at hown
    · next hip =>
      cases hown
      exact iff_of_true (refused_faithful rfl _) (.inl ⟨hnone, hip⟩)
    · next addr haddr =>
      cases hown
      -- the ports of a new remote are cut to 16 bits
      refine (announces_setWidth_iff service).trans ?_
      simp [Registry.AcceptsReply, haddr]

end calls

/-! ## Section 6: Whole calls -/

section totality

variable {ε α : Type} {j : JoinEnd (Except ε α)}

theorem join_proceeds (g : Registry) {pc : JoinPc (Except ε α)} (h : pc.outcome = none) :
    ∃ ans, (j.step g pc ans).isSome := by
  cases pc with
  | addWorker r => exact ⟨.go, rfl⟩
  | addRemote r => exact ⟨.go, rfl⟩
  | getWorker uuid =>
    refine ⟨.go, ?_⟩
    unfold JoinEnd.step
    dsimp only
    split <;> rfl
  | connecting uuid => exact ⟨.connected (.ok ()) .id, rfl⟩
  | returned | panicked => cases h

theorem late_rank {pc : JoinPc (Except ε α)} (h : pc.isLate = true) : pc.rank ≤ 2 := by
  cases pc <;> simp_all [JoinPc.isLate, JoinPc.rank]

theorem join_decreases (hadded : ∀ uuid, (j.added uuid).isLate = true) {g g' : Registry}
    {pc pc' : JoinPc (Except ε α)} {ans : AdmitAnswer} (h : j.step g pc ans = some (g', pc')) :
    pc'.rank < pc.rank := by
  unfold JoinEnd.step at h
  split at h
  · cases h; exact Nat.lt_succ_self 3
  · next r =>
    cases h
    exact Nat.lt_succ_of_le (late_rank (hadded r.uuid))
  · split at h <;> cases h <;> simp [JoinPc.rank]
  · cases h; exact Nat.zero_lt_one
  · cases h

theorem registering_total (s : RegistrationServer) : (registering s).Total where
  proceeds g pc h := by
    cases pc with
    | lookup req =>
      refine ⟨.go, ?_⟩
      simp only [registering, RegistrationServer.registerService]
      split
      · split
        · rfl
        · split <;> rfl
      · split
        · rfl
        · split <;> rfl
    | update req ip needsReconnect =>
      refine ⟨.go, ?_⟩
      simp only [registering, RegistrationServer.registerService]
      split
      · rfl
      · split <;> rfl
    | join pc =>
      obtain ⟨ans, hans⟩ := join_proceeds (j := s.joinEnd) g h
      exact ⟨ans, by simpa [registering, RegistrationServer.registerService] using hans⟩
  decreases g pc ans g' pc' h := by
    simp only [registering, RegistrationServer.registerService] at h ⊢
    split at h
    · split at h
      · split at h
        · cases h; simp [JoinPc.rank]
        · split at h <;> cases h <;> simp [JoinPc.rank]
      · split at h
        · cases h; simp [JoinPc.rank]
        · split at h <;> cases h <;> simp [JoinPc.rank]
    · next req ip needsReconnect =>
      split at h
      · cases h; simp [JoinPc.rank]
      · split at h
        · cases h; simp [JoinPc.rank]
        · cases h; simp [JoinPc.rank]
        · cases h
          cases needsReconnect <;> simp [JoinPc.rank]
    · obtain ⟨⟨g₁, j'⟩, hjoin, heq⟩ := Option.map_eq_some_iff.1 h
      obtain ⟨rfl, rfl⟩ := Prod.mk.inj heq
      exact join_decreases (fun _ => rfl) hjoin
    · cases h

theorem connectingManually_total : connectingManually.Total where
  proceeds g pc h := by
    cases pc with
    | parse url =>
      refine ⟨.go, ?_⟩
      simp only [connectingManually, manualConnection]
      split <;> rfl
    | dial ip port => exact ⟨.dialed, rfl⟩
    | register ip => exact ⟨.registered (.error ⟨.unavailable, ""⟩), rfl⟩
    | lookup ip service =>
      refine ⟨.go, ?_⟩
      simp only [connectingManually, manualConnection]
      split
      · rfl
      · split <;> rfl
    | update ip service remote =>
      refine ⟨.go, ?_⟩
      simp only [connectingManually, manualConnection]
      split <;> rfl
    | join pc =>
      obtain ⟨ans, hans⟩ := join_proceeds (j := manualEnd) g h
      exact ⟨ans, by simpa [connectingManually, manualConnection] using hans⟩
  decreases g pc ans g' pc' h := by
    simp only [connectingManually, manualConnection] at h ⊢
    split at h
    · split at h <;> cases h <;> simp [JoinPc.rank]
    · cases h; simp
    · cases h; simp [JoinPc.rank]
    · cases h; simp [JoinPc.rank]
    · cases h; simp
    · split at h
      · cases h; simp
      · split at h <;> cases h <;> simp [JoinPc.rank]
    · next ip service remote =>
      split at h
      · cases h; simp [JoinPc.rank]
      · cases h
        exact Nat.lt_of_le_of_lt (late_rank (manualNext_isLate _ _)) (show 2 < 5 by decide)
    · obtain ⟨⟨g₁, j'⟩, hjoin, heq⟩ := Option.map_eq_some_iff.1 h
      obtain ⟨rfl, rfl⟩ := Prod.mk.inj heq
      exact join_decreases (fun _ => rfl) hjoin
    · cases h

end totality

variable {s : RegistrationServer}

/-- What the first step establishes and every step keeps decides how a call
    ends. -/
theorem faithful_run {π ε α : Type} {c : Caller π (Except ε α)} {service : ServiceRegistration}
    {accepts : Prop} (Sound : Enrolment π → Prop)
    (hend : ∀ e o, Sound e → c.outcome e.pc = some o → (Faithful service e o ↔ accepts))
    (hkeep : ∀ e l e', Sound e → (c.enrolment s).step e l = some e' → Sound e')
    {e₀ e : Enrolment π}
    (hstart : ∀ e₁, (c.enrolment s).step e₀ (.call .go) = some e₁ → Sound e₁)
    {ls : List EnrolmentLabel} (hrun : (c.enrolment s).exec e₀ (.call .go :: ls) = some e)
    {o : CallEnd (Except ε α)} (ho : c.outcome e.pc = some o) : Faithful service e o ↔ accepts := by
  obtain ⟨e₁, hfirst, hrest⟩ := (Machine.exec_cons _).1 hrun
  exact hend e o (Machine.exec_invariant _ hkeep (hstart e₁ hfirst) hrest) ho

theorem register_sound_end {service : ServiceRegistration} {accepts : Prop}
    {e : Enrolment RegisterPc} {o : CallEnd (Except Status ServiceRegistration)}
    (h : RegisterPc.Sound service accepts e) (ho : (registering s).outcome e.pc = some o) :
    Faithful service e o ↔ accepts := by
  unfold RegisterPc.Sound at h
  generalize e.pc = pc at h ho
  cases pc with
  | lookup | update => cases ho
  | join pc => exact JoinPc.Sound.faithful_iff h ho

theorem manual_sound_end {service : ServiceRegistration} {accepts : Prop}
    {e : Enrolment ManualPc} {o : CallEnd (Except ManualConnectionError Unit)}
    (h : ManualPc.Sound service accepts e) (ho : connectingManually.outcome e.pc = some o) :
    Faithful service e o ↔ accepts := by
  unfold ManualPc.Sound at h
  generalize e.pc = pc at h ho
  cases pc with
  | parse | dial | register | lookup | update => cases ho
  | join pc => exact JoinPc.Sound.faithful_iff h ho

/-- Whatever the message, whatever the other tasks do: a call ends, and it stores
    what is announced or refuses it without a trace, exactly if the message is
    accepted. -/
theorem faithful_iff_accepts {p : Lobby} {ls₀ : List LobbyLabel}
    (hreach : (admissions s).pool.exec Lobby.new ls₀ = some p) :
    (registering s).Total ∧ connectingManually.Total ∧
    (∀ req ls e o, ((registering s).enrolment s).exec (.start p (.lookup req)) (.call .go :: ls)
        = some e → (registering s).outcome e.pc = some o →
      (Faithful req e o ↔ p.shared.AcceptsRegistration req)) ∧
    ∀ ip service ls e o, (connectingManually.enrolment s).exec (.start p (.lookup ip service))
        (.call .go :: ls) = some e → connectingManually.outcome e.pc = some o →
      (Faithful service e o ↔ p.shared.AcceptsReply ip service) := by
  refine ⟨registering_total s, connectingManually_total, ?_, ?_⟩
  · intro req ls e o hrun ho
    exact faithful_run (RegisterPc.Sound req _) (fun _ _ => register_sound_end)
      (fun _ _ _ => register_sound_step) (fun _ => register_sound_start) hrun ho
  · intro ip service ls e o hrun ho
    have hkeyed := wellKeyed_of_reachable hreach
    exact faithful_run (ManualPc.Sound service _) (fun _ _ => manual_sound_end)
      (fun _ _ _ => manual_sound_step) (fun _ => manual_sound_start hkeyed) hrun ho

/-- A new manager: `b` registers itself, then this host connects to it. -/
theorem faithful_registrationOfB :
    (∃ e, ((registering serverOfA).enrolment serverOfA).exec
        (.start Lobby.new (.lookup registrationOfB)) [.call .go, .call .go, .call .go] = some e ∧
      (Faithful registrationOfB e (.returned (.ok serverOfA.regServiceMessage) :
          CallEnd (Except Status ServiceRegistration))
        ↔ Lobby.new.shared.AcceptsRegistration registrationOfB)) ∧
    ∃ e, (connectingManually.enrolment serverOfA).exec
        (.start Lobby.new (.lookup "10.0.0.7" registrationOfB))
        [.call .go, .call .go, .call .go, .call (.connected (.ok ()) .id)] = some e ∧
      (Faithful registrationOfB e (.returned (.ok ()) : CallEnd (Except ManualConnectionError Unit))
        ↔ Lobby.new.shared.AcceptsReply "10.0.0.7" registrationOfB) := by
  have hreach : (admissions serverOfA).pool.exec Lobby.new [] = some Lobby.new := rfl
  obtain ⟨_, _, hregister, hmanual⟩ := faithful_iff_accepts hreach
  refine ⟨⟨_, rfl, hregister _ [.call .go, .call .go] _ _ rfl rfl⟩, ⟨_, rfl, ?_⟩⟩
  exact hmanual _ _ [.call .go, .call .go, .call (.connected (.ok ()) .id)] _ _ rfl rfl

/-- A port of 17 bits panics in `register_service` and is cut off by
    `manual_connection`; a connected remote that registers other ports is
    answered with success. -/
theorem unfaithful_calls :
    (∃ e, ((registering serverOfA).enrolment serverOfA).exec
        (.start Lobby.new (.lookup { registrationOfB with port := 65536 })) [.call .go] = some e ∧
      (registering serverOfA).outcome e.pc = some .panicked) ∧
    (∃ e, (connectingManually.enrolment serverOfA).exec
        (.start Lobby.new (.lookup "10.0.0.7" { registrationOfB with port := 65536 + 80 }))
        [.call .go, .call .go, .call .go, .call (.connected (.ok ()) .id)] = some e ∧
      connectingManually.outcome e.pc = some (.returned (.ok ())) ∧
      e.stored = some (80, 42001)) ∧
    ∃ p e, (admissions serverOfA).pool.exec Lobby.new
      (registerRun ++ [.env (.update "b" .connected)])
        = some p ∧
      ((registering serverOfA).enrolment serverOfA).exec
        (.start p (.lookup { registrationOfB with port := 80 })) [.call .go] = some e ∧
      (registering serverOfA).outcome e.pc = some (.returned (.ok serverOfA.regServiceMessage)) ∧
      e.stored = none :=
  ⟨⟨_, rfl, rfl⟩, ⟨_, rfl, rfl, by decide⟩, ⟨_, _, rfl, rfl, rfl, rfl⟩⟩

end Warpinator
