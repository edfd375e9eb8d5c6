import Warpinator.Server.Admissions

/-! # Service Names

    A host calls itself by its service name: in the registration message, in the
    `ident` of its requests, and before the domain in its mDNS name.  The others
    store its record under the name that they learn first.

    `handle_new_service` takes the domain off an mDNS name as often as it is
    there, and then every dot (`name_of_resolves`).  `keyedByName_iff`: all ways
    lead to the same record exactly if the service name does not end in a dot. -/

namespace Warpinator

/-! ## Section 1: What a host says about itself -/

/-- `SERVICE_DOMAIN`. -/
def serviceDomain : String := "_warpinator._tcp.local."

structure WarpinatorServer where
  serviceName : String
  hostname : String
  bindAddrV4 : Option (BitVec 32)
  port : BitVec 16
  regPort : BitVec 16

namespace WarpinatorServer

variable (s : WarpinatorServer)

/-- What others resolve after `announce_mdns`. -/
def announceMdns : Option ResolvedService :=
  s.bindAddrV4.map fun addr => {
    fullname := fullnameOf serviceDomain s.serviceName
    tyDomain := serviceDomain
    addresses := [.v4 addr]
    port := s.port
    properties := fun key =>
      if key = "type" then some "real"
      else if key = "hostname" then some s.hostname
      else if key = "api-version" then some "2"
      else if key = "auth-port" then some (toString s.regPort.toNat)
      else none }

/-- The `reg_service_message`, with the texts of the two addresses. -/
def regServiceMessage (ip ipv6 : String) : ServiceRegistration where
  serviceId := s.serviceName
  ip := ip
  port := s.port.setWidth 32
  hostname := s.hostname
  apiVersion := 2
  authPort := s.regPort.setWidth 32
  ipv6 := ipv6

/-- A worker of the host: `RemoteManager::new` is given the service name. -/
def worker (uuid : String) (token : TokenId) : Worker where
  uuid := uuid
  serverFullname := s.serviceName
  cancellationToken := token

/-- The service of the host, with any address and properties. -/
structure Resolves (info : ResolvedService) : Prop where
  fullname : info.fullname = fullnameOf serviceDomain s.serviceName
  tyDomain : info.tyDomain = serviceDomain

theorem announceMdns_resolves {s : WarpinatorServer} {info : ResolvedService}
    (h : s.announceMdns = some info) : s.Resolves info := by
  obtain ⟨addr, _, rfl⟩ := Option.map_eq_some_iff.1 h
  exact ⟨rfl, rfl⟩

end WarpinatorServer

/-! ## Section 2: The name that is stored -/

/-- The record that an admission is about to make after its first step. -/
def Admission.newRecord (server : RegistrationServer) (g : Registry) (t : Admission) :
    Option Remote :=
  match t.step server g .go with
  | some (_, .newService (.join (.addWorker r)), _) => some r
  | some (_, .register (.join (.addWorker r)), _) => some r
  | some (_, .manual (.join (.addWorker r)), _) => some r
  | _ => none

/-- However a record of the host is made, its key is the name that the host puts
    into its requests. -/
structure KeyedByName (s : WarpinatorServer) (info : ResolvedService) : Prop where
  name : info.name = s.serviceName
  discovered : ∀ server g r, (Admission.newService (.resolve info)).newRecord server g = some r →
    r.uuid = s.serviceName
  registered : ∀ server g ip ipv6 r,
    (Admission.register (.lookup (s.regServiceMessage ip ipv6))).newRecord server g = some r →
    r.uuid = s.serviceName
  connected : ∀ server g url ip ipv6 r,
    (Admission.manual (.lookup url (s.regServiceMessage ip ipv6))).newRecord server g = some r →
    r.uuid = s.serviceName
  ident : ∀ uuid token protocolId,
    ((s.worker uuid token).opInfo protocolId).ident = s.serviceName

section keys

variable {server : RegistrationServer} {g : Registry} {r : Remote}

theorem uuid_of_discovered {info : ResolvedService}
    (h : (Admission.newService (.resolve info)).newRecord server g = some r) :
    r.uuid = info.name := by
  unfold Admission.newRecord Admission.step handleNewService at h
  dsimp only at h
  cases hread : info.read with
  | error e => simp [hread] at h
  | ok service =>
    cases hremote : g.remote service.name with
    | none =>
      simp only [hread, hremote, Option.map_some, Option.some.injEq] at h
      rw [← h]
      exact read_name hread
    | some remote => simp [hread, hremote] at h

theorem uuid_of_registered {req : ServiceRegistration}
    (h : (Admission.register (.lookup req)).newRecord server g = some r) :
    r.uuid = req.serviceId := by
  unfold Admission.newRecord Admission.step RegistrationServer.registerService at h
  dsimp only at h
  cases hremote : g.remote req.serviceId with
  | none =>
    cases hip : IpAddr.fromStr req.ip with
    | none => simp [hremote, hip] at h
    | some ip =>
      cases hport : toU16 req.port with
      | none => simp [hremote, hip, hport] at h
      | some port =>
        cases hauth : toU16 req.authPort with
        | none => simp [hremote, hip, hport, hauth] at h
        | some authPort =>
          simp only [hremote, hip, hport, hauth, Option.map_some, Option.some.injEq] at h
          rw [← h]
          rfl
  | some remote =>
    by_cases hstate : remote.state = .connected
    · simp [hremote, hstate] at h
    · cases hip : IpAddr.fromStr req.ip with
      | none => simp [hremote, hstate, hip] at h
      | some ip => simp [hremote, hstate, hip] at h

theorem uuid_of_connected {url : String} {service : ServiceRegistration}
    (h : (Admission.manual (.lookup url service)).newRecord server g = some r) :
    r.uuid = service.serviceId := by
  unfold Admission.newRecord Admission.step manualConnection at h
  dsimp only at h
  cases hremote : g.remote service.serviceId with
  | none =>
    cases hip : IpAddr.fromStr url with
    | none => simp [hremote, hip] at h
    | some addr =>
      simp only [hremote, hip, Option.map_some, Option.some.injEq] at h
      rw [← h]
      rfl
  | some remote => simp [hremote] at h

end keys

/-- What is left of a service name. -/
theorem name_of_resolves {s : WarpinatorServer} {info : ResolvedService} (h : s.Resolves info) :
    info.name = trimEndMatches (trimEndMatches s.serviceName ("." ++ serviceDomain)) "." := by
  have hpat : ("." ++ serviceDomain).toList ≠ [] := by simp
  unfold ResolvedService.name
  rw [h.fullname, h.tyDomain]
  unfold fullnameOf
  rw [trimEndMatches_append_self hpat]

/-- The domain ends in a dot itself. -/
theorem endsWith_dot_of_domain {n : String} (h : EndsWith n ("." ++ serviceDomain)) :
    EndsWith n "." := by
  have hdot : ".".toList <:+ ("." ++ serviceDomain).toList := by decide
  exact hdot.trans h

theorem name_eq_iff {s : WarpinatorServer} {info : ResolvedService} (h : s.Resolves info) :
    info.name = s.serviceName ↔ ¬ EndsWith s.serviceName "." := by
  rw [name_of_resolves h]
  constructor
  · intro heq
    rw [← heq]
    exact not_endsWith_trimEndMatches (by decide) _
  · intro hdot
    have hdomain : ¬ EndsWith s.serviceName ("." ++ serviceDomain) := fun hends =>
      hdot (endsWith_dot_of_domain hends)
    rw [trimEndMatches_of_not hdomain, trimEndMatches_of_not hdot]

/-- A service name that ends in a dot is not recovered, any other is. -/
theorem keyedByName_iff {s : WarpinatorServer} {info : ResolvedService} (hinfo : s.Resolves info) :
    KeyedByName s info ↔ ¬ EndsWith s.serviceName "." := by
  constructor
  · intro hkeyed
    exact (name_eq_iff hinfo).1 hkeyed.name
  · intro hdot
    have hname : info.name = s.serviceName := (name_eq_iff hinfo).2 hdot
    exact {
      name := hname
      discovered := fun _ _ _ h => (uuid_of_discovered h).trans hname
      registered := fun _ _ _ _ _ h => uuid_of_registered h
      connected := fun _ _ _ _ _ _ h => uuid_of_connected h
      ident := fun _ _ _ => rfl }

def serverNamed (serviceName : String) : WarpinatorServer where
  serviceName := serviceName
  hostname := "b"
  bindAddrV4 := some 0x0a000007
  port := 42000
  regPort := 42001

theorem keyedByName_iff_announced :
    ∃ info, (serverNamed "b").announceMdns = some info ∧
      (KeyedByName (serverNamed "b") info ↔ ¬ EndsWith "b" ".") :=
  ⟨_, rfl, keyedByName_iff (WarpinatorServer.announceMdns_resolves rfl)⟩

/-- The host `b.` registers itself, and then its service is resolved: it has two
    records. -/
theorem two_records :
    ∃ info, (serverNamed "b.").announceMdns = some info ∧ info.name = "b" ∧
      ¬ KeyedByName (serverNamed "b.") info ∧
      ∃ p, (admissions serverOfA).pool.exec Lobby.new
          [.enter (.register (.lookup ((serverNamed "b.").regServiceMessage "10.0.0.7" ""))),
            .run 0 .go, .run 0 .go, .run 0 .go,
            .enter (.newService (.resolve info)), .run 1 .go, .run 1 .go, .run 1 .go] = some p ∧
        (p.shared.remote "b.").isSome ∧ (p.shared.remote "b").isSome := by
  refine ⟨_, rfl, by decide, ?_, _, rfl, by decide, by decide⟩
  intro hkeyed
  have hname : "b" = "b." := hkeyed.name
  exact absurd hname (by decide)

end Warpinator
