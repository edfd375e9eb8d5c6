import Warpinator.Server.Registration
import Warpinator.Server.ServiceNames
import Warpinator.Types.Rendering

/-! # Contact Data

    A host tells others where it can be reached: in the TXT properties of its
    service, in the request that it registers with, and in the reply to a host
    that connects manually.  Each way has its own format.

    `contact_data`: as long as what is said about the host comes from the host,
    its record holds its address, its ports and its host name, whichever way
    came first and however the admissions interleave. -/

namespace Warpinator

/-! ## Section 1: What a message gives -/

/-- Where a host can be reached. -/
structure Contact where
  ip : IpAddr
  port : BitVec 16
  authPort : BitVec 16
  hostname : String
  deriving DecidableEq

def Remote.contact (r : Remote) : Contact := ⟨r.ip, r.port, r.authPort, r.hostname⟩

def ServiceInfo.contact (service : ServiceInfo) : Contact :=
  ⟨service.address, service.port, service.authPort, service.hostname⟩

/-- The ports and the host name of a message. -/
structure ServiceRegistration.Gives (service : ServiceRegistration) (c : Contact) : Prop where
  port : service.port = c.port.setWidth 32
  authPort : service.authPort = c.authPort.setWidth 32
  hostname : service.hostname = c.hostname

/-- Where the host itself can be reached. -/
def WarpinatorServer.contact (host : WarpinatorServer) (addr : BitVec 32) : Contact :=
  ⟨.v4 addr, host.port, host.regPort, host.hostname⟩

theorem setWidth_setWidth_16 (n : BitVec 16) : (n.setWidth 32).setWidth 16 = n := by
  rw [BitVec.setWidth_setWidth_of_le _ (by decide), BitVec.setWidth_eq]

theorem toU16_setWidth (n : BitVec 16) : toU16 (n.setWidth 32) = some n := by
  have hwide : (n.setWidth 32).toNat = n.toNat := by
    rw [BitVec.toNat_setWidth]
    exact Nat.mod_eq_of_lt (lt_trans n.isLt (by decide))
  rw [toU16_of_lt (by rw [hwide]; exact n.isLt), setWidth_setWidth_16]

section messages

variable {host : WarpinatorServer} {addr : BitVec 32}

/-- The announcement of a host is read as it was meant. -/
theorem read_announceMdns {info : ResolvedService} {service : ServiceInfo}
    (haddr : host.bindAddrV4 = some addr) (hinfo : host.announceMdns = some info)
    (hread : info.read = .ok service) : service.contact = host.contact addr := by
  unfold WarpinatorServer.announceMdns at hinfo
  rw [haddr] at hinfo
  obtain rfl := Option.some.inj hinfo
  have hversion : parseUnsigned 8 "2" = some 2 := by decide
  have hauthPort : parseUnsigned 16 host.regPort.toNat.repr = some host.regPort :=
    parseUnsigned_toString host.regPort
  simp only [ResolvedService.read, List.find?_singleton, IpAddr.isIpv4, ↓reduceIte, String.reduceEq,
    Nat.toString_eq_repr, hauthPort, Option.getD_some, hversion, BitVec.ofNat_eq_ofNat, ne_eq,
    not_true_eq_false, Option.some.injEq, Except.ok.injEq] at hread
  rw [← hread]
  rfl

theorem ServiceRegistration.Gives.ports {service : ServiceRegistration} {c : Contact}
    (h : service.Gives c) :
    toU16 service.port = some c.port ∧ toU16 service.authPort = some c.authPort := by
  rw [h.port, h.authPort]
  exact ⟨toU16_setWidth _, toU16_setWidth _⟩

/-- The ports that a message is converted to. -/
theorem ServiceRegistration.Gives.contact_of_toU16 {service : ServiceRegistration} {c : Contact}
    {port authPort : BitVec 16} (h : service.Gives c) (hport : toU16 service.port = some port)
    (hauthPort : toU16 service.authPort = some authPort) :
    (⟨c.ip, port, authPort, service.hostname⟩ : Contact) = c := by
  obtain rfl := Option.some.inj (hport.symm.trans h.ports.1)
  obtain rfl := Option.some.inj (hauthPort.symm.trans h.ports.2)
  rw [h.hostname]

/-- A message that gives contact data makes a record with them. -/
theorem ServiceRegistration.Gives.contact {service : ServiceRegistration} {c : Contact}
    (h : service.Gives c) :
    (⟨c.ip, service.port.setWidth 16, service.authPort.setWidth 16, service.hostname⟩ : Contact)
      = c := by
  rw [h.port, h.authPort, h.hostname, setWidth_setWidth_16, setWidth_setWidth_16]

theorem regServiceMessage_gives (ip ipv6 : String) :
    (host.regServiceMessage ip ipv6).Gives (host.contact addr) where
  port := rfl
  authPort := rfl
  hostname := rfl

end messages

/-! ## Section 2: What comes in about a host -/

theorem RemoteUpdate.contact_apply (f : RemoteUpdate) (r : Remote) :
    (f.apply r).contact = r.contact := by
  simp [Remote.contact, f.ip_apply, f.hostname_apply, f.port_apply, f.authPort_apply]

/-- A reply under the name of the host comes from the host.  The call has dialed
    its address, or a name, which is no address. -/
def ReplyFrom (host : WarpinatorServer) (addr : BitVec 32) (t : Admission) : AdmitAnswer → Prop
  | .registered (.ok service) => ∀ ip, t = .manual (.register ip) →
      service.serviceId = host.serviceName →
      (∀ a, IpAddr.fromStr ip = some a → a = .v4 addr) ∧
        ∃ text ipv6, service = host.regServiceMessage text ipv6
  | _ => True

/-- What is said about the host at the start of an admission comes from the host. -/
def SaidBy (host : WarpinatorServer) (addr : BitVec 32) : Admission → Prop
  | .newService (.resolve info) =>
    info.name = host.serviceName → host.announceMdns = some info
  | .register (.lookup req) => req.serviceId = host.serviceName →
      ∃ ipv6, req = host.regServiceMessage (ipv4Text addr) ipv6
  | _ => True

/-- Nobody else speaks for the host. -/
def Genuine (host : WarpinatorServer) (addr : BitVec 32) (p : Lobby) : LobbyLabel → Prop
  | .run i ans => ∀ t, p.tasks[i]? = some t → ReplyFrom host addr t ans
  | .enter t => SaidBy host addr t
  | .env _ => True

/-! ## Section 3: Records and admissions -/

/-- The record under `k`, if there is one, has the contact data `c`. -/
def Registry.Reaches (g : Registry) (k : String) (c : Contact) : Prop :=
  ∀ r, g.remote k = some r → r.contact = c

/-- A record that is about to be inserted under `k` has the contact data `c`. -/
def JoinPc.Carries {ρ : Type} (k : String) (c : Contact) : JoinPc ρ → Prop
  | .addWorker r | .addRemote r => r.uuid = k → r.contact = c
  | _ => True

/-- What an admission is going to write under `k` is `c`. -/
def Admission.Carries (k : String) (c : Contact) : Admission → Prop
  | .newService (.resolve info) => ∀ service, info.read = .ok service → service.name = k →
      service.contact = c
  | .newService (.update service _) => service.name = k → service.contact = c
  | .newService (.join pc) => pc.Carries k c
  | .register (.lookup req) => req.serviceId = k →
      IpAddr.fromStr req.ip = some c.ip ∧ req.Gives c
  | .register (.update req ip _) => req.serviceId = k → ip = c.ip ∧ req.Gives c
  | .register (.join pc) => pc.Carries k c
  | .manual (.lookup ip service) => service.serviceId = k →
      (∀ a, IpAddr.fromStr ip = some a → a = c.ip) ∧ service.Gives c
  | .manual (.update ip service remote) => remote.uuid = service.serviceId ∧
      (service.serviceId = k → (∀ a, IpAddr.fromStr ip = some a → a = c.ip) ∧ service.Gives c)
  | .manual (.join pc) => pc.Carries k c
  | .manual _ => True

section reaches

variable {g g' : Registry} {k uuid : String} {c : Contact}

theorem Registry.Reaches.update (h : g.Reaches k c) {f : Remote → Remote}
    (hf : uuid = k → ∀ r, r.contact = c → (f r).contact = c) :
    (g.updateRemote uuid f).Reaches k c := by
  intro r hr
  rw [remote_updateRemote] at hr
  split at hr
  · next hk =>
    obtain ⟨r₀, hr₀, rfl⟩ := Option.map_eq_some_iff.1 hr
    exact hf hk.symm r₀ (h r₀ (hk ▸ hr₀))
  · exact h r hr

theorem Registry.Reaches.insert (h : g.Reaches k c) {r : Remote} (hr : r.uuid = k → r.contact = c) :
    (g.insertRemote r).Reaches k c := by
  intro r' hr'
  rw [remote_insertRemote] at hr'
  split at hr'
  · next hk =>
    obtain rfl := Option.some.inj hr'
    exact hr hk.symm
  · exact h r' hr'

/-- Another record is left as a closure that panicked has left it. -/
theorem Registry.Reaches.leave (h : g.Reaches k c) {r : Remote} (hne : uuid ≠ k) :
    (g.leaveRemote uuid r).Reaches k c := by
  intro r' hr'
  rw [remote_leaveRemote, if_neg hne.symm] at hr'
  exact h r' hr'

theorem Registry.Reaches.change (h : g.Reaches k c) (e : RecordChange) :
    (g.change e).Reaches k c := by
  intro r hr
  have hmap := map_change (φ := Remote.contact) g e RemoteUpdate.contact_apply
    (fun _ _ _ => rfl) (fun _ _ _ => rfl) k
  rw [hr, Option.map_some] at hmap
  obtain ⟨r₀, hr₀, heq⟩ := Option.map_eq_some_iff.1 hmap.symm
  exact heq.symm.trans (h r₀ hr₀)

end reaches

/-! ## Section 4: Steps -/

section steps

variable {g g' : Registry} {k : String} {c : Contact} {ans : AdmitAnswer}

theorem join_carries {ρ : Type} {e : JoinEnd ρ} {pc pc' : JoinPc ρ}
    (hadded : ∀ uuid, (e.added uuid).Carries k c) (hg : g.Reaches k c) (hpc : pc.Carries k c)
    (hstep : e.step g pc ans = some (g', pc')) :
    g'.Reaches k c ∧ pc'.Carries k c := by
  unfold JoinEnd.step at hstep
  split at hstep
  · cases hstep
    exact ⟨hg, hpc⟩
  · cases hstep
    exact ⟨hg.insert hpc, hadded _⟩
  · split at hstep
    · cases hstep
      exact ⟨hg, trivial⟩
    · cases hstep
      exact ⟨hg, trivial⟩
  · cases hstep
    exact ⟨hg.update fun _ r hr => (RemoteUpdate.contact_apply _ r).trans hr, trivial⟩
  · cases hstep

theorem handleNewService_carries {pc pc' : NewServicePc} (hg : g.Reaches k c)
    (hpc : (Admission.newService pc).Carries k c)
    (hstep : handleNewService g pc ans = some (g', pc')) :
    g'.Reaches k c ∧ (Admission.newService pc').Carries k c := by
  unfold handleNewService at hstep
  split at hstep
  · split at hstep
    · cases hstep
      exact ⟨hg, trivial⟩
    · next service hread =>
      have hservice : service.name = k → service.contact = c := hpc service hread
      split at hstep
      · cases hstep
        exact ⟨hg, hservice⟩
      · cases hstep
        exact ⟨hg, hservice⟩
  · next service remote =>
    cases hstep
    refine ⟨hg.update fun hk _ _ => hpc hk, ?_⟩
    split
    · exact trivial
    · exact trivial
  · obtain ⟨⟨g₁, pc₁⟩, hjoin, heq⟩ := Option.map_eq_some_iff.1 hstep
    obtain ⟨rfl, rfl⟩ := Prod.mk.inj heq
    exact join_carries (e := newServiceEnd) (fun _ => trivial) hg hpc hjoin
  · cases hstep

theorem registerService_carries {s : RegistrationServer} {pc pc' : RegisterPc}
    (hg : g.Reaches k c) (hpc : (Admission.register pc).Carries k c)
    (hstep : s.registerService g pc ans = some (g', pc')) :
    g'.Reaches k c ∧ (Admission.register pc').Carries k c := by
  unfold RegistrationServer.registerService at hstep
  split at hstep
  · split at hstep
    · split at hstep
      · cases hstep
        exact ⟨hg, trivial⟩
      · next req _ _ _ ip hip =>
        split at hstep
        · next port authPort hport hauthPort =>
          cases hstep
          refine ⟨hg, fun hk => ?_⟩
          obtain ⟨hip', hgives⟩ := hpc hk
          obtain rfl := Option.some.inj (hip.symm.trans hip')
          exact hgives.contact_of_toU16 hport hauthPort
        · cases hstep
          exact ⟨hg, trivial⟩
    · split at hstep
      · cases hstep
        exact ⟨hg, trivial⟩
      · split at hstep
        · cases hstep
          exact ⟨hg, trivial⟩
        · next ip hip =>
          cases hstep
          refine ⟨hg, fun hk => ?_⟩
          obtain ⟨hip', hgives⟩ := hpc hk
          exact ⟨Option.some.inj (hip.symm.trans hip'), hgives⟩
  · next req ip needsReconnect =>
    split at hstep
    · cases hstep
      exact ⟨hg, trivial⟩
    -- a port that does not fit is none of the host
    · split at hstep
      · next hport =>
        cases hstep
        refine ⟨hg.leave fun hk => ?_, trivial⟩
        rw [(hpc hk).2.ports.1] at hport
        cases hport
      · next hauthPort =>
        cases hstep
        refine ⟨hg.leave fun hk => ?_, trivial⟩
        rw [(hpc hk).2.ports.2] at hauthPort
        cases hauthPort
      · next port authPort hport hauthPort =>
        cases hstep
        refine ⟨hg.update fun hk _ _ => ?_, ?_⟩
        · obtain ⟨rfl, hgives⟩ := hpc hk
          exact hgives.contact_of_toU16 hport hauthPort
        · split
          · exact trivial
          · exact trivial
  · obtain ⟨⟨g₁, pc₁⟩, hjoin, heq⟩ := Option.map_eq_some_iff.1 hstep
    obtain ⟨rfl, rfl⟩ := Prod.mk.inj heq
    exact join_carries (e := s.joinEnd) (fun _ => trivial) hg hpc hjoin
  · cases hstep

theorem manualNext_carries (uuid : String) (state : RemoteState) :
    (manualNext uuid state).Carries k c := by
  cases state <;> exact trivial

theorem manualConnection_carries {pc pc' : ManualPc} (hkeyed : g.WellKeyed)
    (hg : g.Reaches k c) (hpc : (Admission.manual pc).Carries k c)
    (hreply : ∀ ip service, pc = .register ip → ans = .registered (.ok service) →
      (Admission.manual (.lookup ip service)).Carries k c)
    (hstep : manualConnection g pc ans = some (g', pc')) :
    g'.Reaches k c ∧ (Admission.manual pc').Carries k c := by
  unfold manualConnection at hstep
  split at hstep
  · split at hstep
    · cases hstep
      exact ⟨hg, trivial⟩
    · cases hstep
      exact ⟨hg, trivial⟩
  · cases hstep
    exact ⟨hg, trivial⟩
  · cases hstep
    exact ⟨hg, trivial⟩
  · cases hstep
    exact ⟨hg, trivial⟩
  · next ip service =>
    cases hstep
    exact ⟨hg, hreply ip service rfl rfl⟩
  · next ip service =>
    split at hstep
    · next remote hremote =>
      cases hstep
      exact ⟨hg, hkeyed _ _ hremote, hpc⟩
    · split at hstep
      · cases hstep
        exact ⟨hg, trivial⟩
      · next addr haddr =>
        cases hstep
        refine ⟨hg, fun hk => ?_⟩
        obtain ⟨hip, hgives⟩ := hpc hk
        obtain rfl := hip addr haddr
        exact hgives.contact
  · next ip service remote =>
    split at hstep
    · cases hstep
      exact ⟨hg, trivial⟩
    · cases hstep
      refine ⟨hg.update fun hk r hr => ?_, manualNext_carries _ _⟩
      obtain ⟨hip, hgives⟩ := hpc.2 (hpc.1.symm.trans hk)
      -- under a name the record keeps its address
      have haddr : (IpAddr.fromStr ip).getD r.ip = c.ip := by
        cases hparse : IpAddr.fromStr ip with
        | none => exact congrArg Contact.ip hr
        | some addr => exact hip addr hparse
      show (⟨(IpAddr.fromStr ip).getD r.ip, _, _, _⟩ : Contact) = c
      rw [haddr]
      exact hgives.contact
  · obtain ⟨⟨g₁, pc₁⟩, hjoin, heq⟩ := Option.map_eq_some_iff.1 hstep
    obtain ⟨rfl, rfl⟩ := Prod.mk.inj heq
    exact join_carries (e := manualEnd) (fun _ => trivial) hg hpc hjoin
  · cases hstep

end steps

/-! ## Section 5: Runs -/

/-- The record of `k` and all admissions on the way agree on `c`. -/
structure Lobby.Knows (p : Lobby) (k : String) (c : Contact) : Prop where
  wellKeyed : p.shared.WellKeyed
  record : p.shared.Reaches k c
  tasks : ∀ t ∈ p.tasks, t.Carries k c

section runs

variable {s : RegistrationServer} {host : WarpinatorServer} {addr : BitVec 32}

theorem reply_carries {ip : String} {service : ServiceRegistration}
    (h : service.serviceId = host.serviceName →
      (∀ a, IpAddr.fromStr ip = some a → a = .v4 addr) ∧
        ∃ text ipv6, service = host.regServiceMessage text ipv6) :
    (Admission.manual (.lookup ip service)).Carries host.serviceName (host.contact addr) := by
  intro hk
  obtain ⟨hip, text, ipv6, rfl⟩ := h hk
  exact ⟨hip, regServiceMessage_gives text ipv6⟩

theorem admission_carries {t t' : Admission} {g g' : Registry} {ans : AdmitAnswer}
    {spawned : List Admission} (hkeyed : g.WellKeyed) (hreply : ReplyFrom host addr t ans)
    (hg : g.Reaches host.serviceName (host.contact addr))
    (ht : t.Carries host.serviceName (host.contact addr))
    (h : t.step s g ans = some (g', t', spawned)) :
    g'.Reaches host.serviceName (host.contact addr) ∧
      t'.Carries host.serviceName (host.contact addr) ∧ spawned = [] := by
  cases t with
  | newService pc =>
    obtain ⟨⟨g₁, pc₁⟩, hstep, heq⟩ := Option.map_eq_some_iff.1 h
    cases heq
    obtain ⟨hg', ht'⟩ := handleNewService_carries hg ht hstep
    exact ⟨hg', ht', rfl⟩
  | register pc =>
    obtain ⟨⟨g₁, pc₁⟩, hstep, heq⟩ := Option.map_eq_some_iff.1 h
    cases heq
    obtain ⟨hg', ht'⟩ := registerService_carries hg ht hstep
    exact ⟨hg', ht', rfl⟩
  | manual pc =>
    obtain ⟨⟨g₁, pc₁⟩, hstep, heq⟩ := Option.map_eq_some_iff.1 h
    cases heq
    have hlookup : ∀ ip service, pc = .register ip → ans = .registered (.ok service) →
        (Admission.manual (.lookup ip service)).Carries host.serviceName (host.contact addr) := by
      rintro ip service rfl rfl
      exact reply_carries (hreply ip rfl)
    obtain ⟨hg', ht'⟩ := manualConnection_carries hkeyed hg ht hlookup hstep
    exact ⟨hg', ht', rfl⟩

theorem saidBy_carries {t : Admission} (haddr : host.bindAddrV4 = some addr) (hnew : t.isNew = true)
    (h : SaidBy host addr t) : t.Carries host.serviceName (host.contact addr) := by
  unfold Admission.isNew at hnew
  split at hnew
  · next info =>
    intro service hread hk
    exact read_announceMdns haddr (h ((read_name hread).symm.trans hk)) hread
  · next req =>
    intro hk
    obtain ⟨ipv6, rfl⟩ := h hk
    exact ⟨fromStr_ipv4Text addr, regServiceMessage_gives _ ipv6⟩
  · exact trivial
  · cases hnew

theorem knows_step {p p' : Lobby} {l : LobbyLabel} (haddr : host.bindAddrV4 = some addr)
    (hl : Genuine host addr p l) (h : p.Knows host.serviceName (host.contact addr))
    (hstep : (admissions s).poolStep p l = some p') :
    p'.Knows host.serviceName (host.contact addr) := by
  have hkeyed : p'.shared.WellKeyed := (lobby_survives hstep).wellKeyed h.wellKeyed
  cases l with
  | run i ans =>
    obtain ⟨t, g, t', spawned, ht, hown, rfl⟩ := Tasking.run_cases hstep
    obtain ⟨hg, ht', rfl⟩ := admission_carries h.wellKeyed (hl t ht) h.record
      (h.tasks t (List.mem_of_getElem? ht)) hown
    exact ⟨hkeyed, hg, Tasking.forall_run h.tasks (fun _ hu => hu) ht' (by simp)⟩
  | enter t =>
    obtain ⟨hnew, rfl⟩ := Tasking.enter_cases hstep
    refine ⟨hkeyed, h.record, fun u hu => ?_⟩
    rcases List.mem_append.1 hu with hold | hself
    · exact h.tasks u hold
    · obtain rfl := List.mem_singleton.1 hself
      exact saidBy_carries haddr hnew hl
  | env e =>
    obtain rfl := Option.some.inj hstep
    exact ⟨hkeyed, h.record.change e, h.tasks⟩

theorem knows_new (k : String) (c : Contact) : Lobby.new.Knows k c where
  wellKeyed _ _ hr := by cases hr
  record _ hr := by cases hr
  tasks _ ht := by cases ht

/-- As long as nobody else speaks for a host: after any admissions, by mDNS, by
    registration and by hand, in any order, the record of the host holds its
    address, its ports and its name. -/
theorem contact_data {ls : List LobbyLabel} {p : Lobby} {r : Remote}
    (haddr : host.bindAddrV4 = some addr)
    (hrun : (admissions s).pool.exec Lobby.new ls = some p)
    (hgenuine : (admissions s).pool.Along (Genuine host addr) Lobby.new ls)
    (hr : p.shared.remote host.serviceName = some r) :
    r.ip = .v4 addr ∧ r.port = host.port ∧ r.authPort = host.regPort ∧
      r.hostname = host.hostname := by
  have hknows : p.Knows host.serviceName (host.contact addr) :=
    (admissions s).pool.exec_invariant_along
      (fun _ _ _ hl h hstep => knows_step haddr hl h hstep) (knows_new _ _) hgenuine hrun
  have hcontact := hknows.record r hr
  simpa [Remote.contact, WarpinatorServer.contact] using hcontact

end runs

/-- The host `b` registers itself, and then it is connected by hand, under a name. -/
def contactRun : List LobbyLabel :=
  [.enter (.register (.lookup ((serverNamed "b").regServiceMessage "10.0.0.7" ""))),
    .run 0 .go, .run 0 .go, .run 0 .go,
    .enter (.manual (.parse "b.local:42001")), .run 1 .go, .run 1 .dialed,
    .run 1 (.registered (.ok ((serverNamed "b").regServiceMessage "10.0.0.7" ""))),
    .run 1 .go, .run 1 .go]

theorem contactRun_genuine : (admissions serverOfA).pool.Along
    (Genuine (serverNamed "b") 0x0a000007) Lobby.new contactRun := by
  have htext : ipv4Text 0x0a000007 = "10.0.0.7" := by decide
  have hgo : ∀ p i, Genuine (serverNamed "b") 0x0a000007 p (.run i .go) := fun _ _ _ _ => trivial
  refine .cons ?request rfl (.cons (hgo _ _) rfl (.cons (hgo _ _) rfl (.cons (hgo _ _) rfl
    (.cons ?url rfl (.cons (hgo _ _) rfl (.cons ?dialed rfl (.cons ?reply rfl
      (.cons (hgo _ _) rfl (.cons (hgo _ _) rfl ?rest)))))))))
  case request => exact fun _ => ⟨"", by rw [htext]⟩
  case url => exact trivial
  case dialed => exact fun _ _ => trivial
  case rest => exact trivial
  case reply =>
    intro t ht ip hpc _
    have hip : some (Admission.manual (.register "b.local")) = some (.manual (.register ip)) :=
      hpc ▸ ht
    cases hip
    have hname : IpAddr.fromStr "b.local" = none := by decide
    refine ⟨fun a ha => ?_, "10.0.0.7", "", rfl⟩
    rw [hname] at ha
    cases ha

theorem contact_data_manual :
    ∃ p r, (admissions serverOfA).pool.exec Lobby.new contactRun = some p ∧
    p.shared.remote "b" = some r ∧ r.ip = .v4 0x0a000007 ∧ r.port = 42000 ∧ r.authPort = 42001 ∧
    r.hostname = "b" := by
  obtain ⟨p, r, hrun, hr⟩ : ∃ p r, (admissions serverOfA).pool.exec Lobby.new contactRun = some p ∧
      p.shared.remote "b" = some r := ⟨_, _, rfl, rfl⟩
  exact ⟨p, r, hrun, hr, @contact_data _ (serverNamed "b") _ _ _ _ rfl hrun contactRun_genuine hr⟩

end Warpinator
