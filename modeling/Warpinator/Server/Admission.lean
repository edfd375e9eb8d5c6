import Warpinator.Server.Connection
import Warpinator.Types.Text

/-! # Admission of Remotes

    The three ways by which a remote enters the manager: `handle_new_service` of
    `server/discovery.rs`, `register_service` of `grpc/registration.rs` and
    `manual_connection` of `remote_manager.rs`.  Each looks the remote up under
    one lock and writes it under another. -/

namespace Warpinator

/-! ## Section 1: The manager -/

structure Registry where
  manager : RemoteManager
  /-- The worker of each uuid, by its number. -/
  workers : String → Option Nat
  /-- The number of workers made so far. -/
  made : Nat
  /-- The uuids whose loop has been spawned, oldest first. -/
  loops : List String

/-- An `update_remote` outside of this module: it writes states, certificates,
    machine infos and avatars. -/
structure RemoteUpdate where
  apply : Remote → Remote
  uuid_apply : ∀ r, (apply r).uuid = r.uuid
  ip_apply : ∀ r, (apply r).ip = r.ip
  port_apply : ∀ r, (apply r).port = r.port
  authPort_apply : ∀ r, (apply r).authPort = r.authPort
  hostname_apply : ∀ r, (apply r).hostname = r.hostname
  serviceAvailable_apply : ∀ r, (apply r).serviceAvailable = r.serviceAvailable
  transfers_apply : ∀ r, (apply r).transfers = r.transfers
  messages_apply : ∀ r, (apply r).messages = r.messages

def RemoteUpdate.id : RemoteUpdate where
  apply r := r
  uuid_apply _ := rfl
  ip_apply _ := rfl
  port_apply _ := rfl
  authPort_apply _ := rfl
  hostname_apply _ := rfl
  serviceAvailable_apply _ := rfl
  transfers_apply _ := rfl
  messages_apply _ := rfl

/-- The update that ends a successful `connect`. -/
def RemoteUpdate.connected : RemoteUpdate where
  apply r := { r with state := .connected }
  uuid_apply _ := rfl
  ip_apply _ := rfl
  port_apply _ := rfl
  authPort_apply _ := rfl
  hostname_apply _ := rfl
  serviceAvailable_apply _ := rfl
  transfers_apply _ := rfl
  messages_apply _ := rfl

namespace Registry

/-- The manager that `RemoteManager::new` makes. -/
def new : Registry where
  manager := .empty
  workers _ := none
  made := 0
  loops := []

def remote (g : Registry) (uuid : String) : Option Remote := g.manager.remote uuid

/-- `add_remote` up to its first insertion. -/
def addWorker (g : Registry) (uuid : String) : Registry :=
  { g with workers := Function.update g.workers uuid (some g.made), made := g.made + 1 }

/-- The rest of `add_remote`. -/
def insertRemote (g : Registry) (r : Remote) : Registry :=
  { g with manager := g.manager.addRemote r, loops := g.loops ++ [r.uuid] }

def updateRemote (g : Registry) (uuid : String) (f : Remote → Remote) : Registry :=
  { g with manager := (g.manager.updateRemote uuid f).2 }

/-- A record as a closure that panicked has left it: no event is sent. -/
def leaveRemote (g : Registry) (uuid : String) (r : Remote) : Registry :=
  { g with manager := { g.manager with
      remotes := Function.update g.manager.remotes uuid (some r) } }

end Registry

inductive AdmitAnswer where
  | go
  /-- The other host's registration service is reached, or not. -/
  | dialed
  | undialed
  | registered (reply : Except Status ServiceRegistration)
  /-- `connect` returns, after its own updates of the record. -/
  | connected (result : Except ConnectRemoteError Unit) (effect : RemoteUpdate)

/-- The common rest of an admission. -/
inductive JoinPc (ρ : Type) where
  | addWorker (remote : Remote)
  | addRemote (remote : Remote)
  | getWorker (uuid : String)
  | connecting (uuid : String)
  | returned (result : ρ)
  | panicked

/-- How an admission goes on after `add_remote`, without a worker and after
    `connect`. -/
structure JoinEnd (ρ : Type) where
  added : String → JoinPc ρ
  missing : ρ
  connected : Except ConnectRemoteError Unit → ρ

def JoinEnd.step {ρ : Type} (e : JoinEnd ρ) (g : Registry) (pc : JoinPc ρ) (ans : AdmitAnswer) :
    Option (Registry × JoinPc ρ) :=
  match pc, ans with
  | .addWorker r, .go => some (g.addWorker r.uuid, .addRemote r)
  | .addRemote r, .go => some (g.insertRemote r, e.added r.uuid)
  | .getWorker uuid, .go =>
    match g.workers uuid with
    | some _ => some (g, .connecting uuid)
    | none => some (g, .returned e.missing)
  | .connecting uuid, .connected result effect =>
    some (g.updateRemote uuid effect.apply, .returned (e.connected result))
  | _, _ => none

/-- A remote that is about to be reconnected. -/
def RemoteState.isDown : RemoteState → Bool
  | .disconnected | .error _ => true
  | _ => false

/-! ## Section 2: handle_new_service -/

/-- `mdns_sd::ResolvedService`. -/
structure ResolvedService where
  fullname : String
  tyDomain : String
  /-- In the order of iteration. -/
  addresses : List IpAddr
  port : BitVec 16
  /-- The value of a TXT property, as text. -/
  properties : String → Option String

inductive DiscoveryNewServiceError where
  | noValidIpAddress
  | unsupportedApiVersion (version : BitVec 8)
  | flushRegistration
  | missingTxtProperty (name : String)
  | invalidTxtProperty (name value : String)
  | failedToConnectToRemote (e : ConnectRemoteError)

/-- What a service announces about a remote. -/
structure ServiceInfo where
  name : String
  address : IpAddr
  port : BitVec 16
  authPort : BitVec 16
  hostname : String

/-- The name of the instance. -/
def ResolvedService.name (info : ResolvedService) : String :=
  trimEndMatches (trimEndMatches info.fullname ("." ++ info.tyDomain)) "."

/-- The part of `handle_new_service` before it takes a lock. -/
def ResolvedService.read (info : ResolvedService) : Except DiscoveryNewServiceError ServiceInfo :=
  match info.addresses.find? IpAddr.isIpv4 with
  | none => .error .noValidIpAddress
  | some address =>
    match info.properties "auth-port" with
    | none => .error (.missingTxtProperty "auth-port")
    | some authPortStr =>
      match parseUnsigned 16 authPortStr with
      | none => .error (.invalidTxtProperty "auth-port" authPortStr)
      | some authPort =>
        match info.properties "hostname" with
        | none => .error (.missingTxtProperty "hostname")
        | some hostname =>
          let apiVersionStr := (info.properties "api-version").getD "1"
          match parseUnsigned 8 apiVersionStr with
          | none => .error (.invalidTxtProperty "api-version" apiVersionStr)
          | some apiVersion =>
            if apiVersion ≠ 2 then .error (.unsupportedApiVersion apiVersion)
            else if info.properties "type" = some "flush" then .error .flushRegistration
            else
              .ok {
                name := info.name
                address := address
                port := info.port
                authPort := authPort
                hostname := hostname }

def ServiceInfo.asRemote (s : ServiceInfo) : Remote :=
  { Remote.new s.name s.address s.port s.authPort s.name s.hostname with serviceAvailable := true }

/-- The update of a remote that is known already. -/
def ServiceInfo.update (s : ServiceInfo) (r : Remote) : Remote :=
  { r with
    hostname := s.hostname
    authPort := s.authPort
    ip := s.address
    port := s.port
    serviceAvailable := true }

inductive NewServicePc where
  | resolve (info : ResolvedService)
  | update (service : ServiceInfo) (remote : Remote)
  | join (pc : JoinPc (Except DiscoveryNewServiceError Unit))

def newServiceEnd : JoinEnd (Except DiscoveryNewServiceError Unit) where
  added uuid := .connecting uuid
  missing := .error (.failedToConnectToRemote .remoteWorkerNotFound)
  connected
    | .ok _ => .ok ()
    | .error e => .error (.failedToConnectToRemote e)

def handleNewService (g : Registry) (pc : NewServicePc) (ans : AdmitAnswer) :
    Option (Registry × NewServicePc) :=
  match pc, ans with
  | .resolve info, .go =>
    match info.read with
    | .error e => some (g, .join (.returned (.error e)))
    | .ok service =>
      match g.remote service.name with
      | none => some (g, .join (.addWorker service.asRemote))
      | some remote => some (g, .update service remote)
  | .update service remote, .go =>
    some (g.updateRemote service.name service.update,
      .join (if remote.state.isDown then .getWorker remote.uuid else .returned (.ok ())))
  | .join pc, ans => (newServiceEnd.step g pc ans).map fun (g, pc) => (g, .join pc)
  | _, _ => none

/-! ## Section 3: register_service -/

/-- What a host knows about itself, and the text of an error. -/
structure RegistrationServer where
  regServiceMessage : ServiceRegistration
  display : ConnectRemoteError → String

/-- `try_into` for a port. -/
def toU16 (n : BitVec 32) : Option (BitVec 16) :=
  if n.toNat < 2 ^ 16 then some (n.setWidth 16) else none

/-- The text of an `AddrParseError` of `IpAddr`. -/
def addrParseError : String := "invalid IP address syntax"

inductive RegisterPc where
  | lookup (req : ServiceRegistration)
  | update (req : ServiceRegistration) (ip : IpAddr) (needsReconnect : Bool)
  | join (pc : JoinPc (Except Status ServiceRegistration))

namespace RegistrationServer

def joinEnd (s : RegistrationServer) : JoinEnd (Except Status ServiceRegistration) where
  added _ := .returned (.ok s.regServiceMessage)
  missing := .error ⟨.internal, "Failed to connect to remote after registration update"⟩
  connected
    | .ok _ => .ok s.regServiceMessage
    | .error e =>
      .error ⟨.internal, "Failed to connect to remote after registration update: " ++ s.display e⟩

def registerService (s : RegistrationServer) (g : Registry) (pc : RegisterPc) (ans : AdmitAnswer) :
    Option (Registry × RegisterPc) :=
  match pc, ans with
  | .lookup req, .go =>
    match g.remote req.serviceId with
    | none =>
      match IpAddr.fromStr req.ip with
      | none => some (g, .join (.returned (.error ⟨.invalidArgument, addrParseError⟩)))
      | some ip =>
        -- both conversions are unwrapped
        match toU16 req.port, toU16 req.authPort with
        | some port, some authPort =>
          some (g, .join (.addWorker
            (.new req.serviceId ip port authPort req.serviceId req.hostname)))
        | _, _ => some (g, .join .panicked)
    | some remote =>
      if remote.state = .connected then some (g, .join (.returned (.ok s.regServiceMessage)))
      else
        match IpAddr.fromStr req.ip with
        | none => some (g, .join (.returned (.error ⟨.invalidArgument, addrParseError⟩)))
        | some ip => some (g, .update req ip remote.state.isDown)
  | .update req ip needsReconnect, .go =>
    match g.remote req.serviceId with
    | none => some (g, .join .panicked)
    | some r =>
      match toU16 req.port, toU16 req.authPort with
      | none, _ => some (g.leaveRemote req.serviceId { r with ip := ip }, .join .panicked)
      | some port, none =>
        some (g.leaveRemote req.serviceId { r with ip := ip, port := port }, .join .panicked)
      | some port, some authPort =>
        let f (r : Remote) : Remote := { r with
          ip := ip
          port := port
          authPort := authPort
          hostname := req.hostname
          serviceName := req.serviceId }
        some (g.updateRemote req.serviceId f,
          .join (if needsReconnect then .getWorker req.serviceId
            else .returned (.ok s.regServiceMessage)))
  | .join pc, ans => (s.joinEnd.step g pc ans).map fun (g, pc) => (g, .join pc)
  | _, _ => none

end RegistrationServer

/-! ## Section 4: manual_connection -/

inductive ManualConnectionError where
  | invalidUrl
  | failedToRegister
  | unavailable
  | remoteInternal
  | remoteUnimplemented
  | alreadyConnecting
  | alreadyConnected
  | failedToConnect (e : ConnectRemoteError)

/-- The error for a `register_service` that fails. -/
def ManualConnectionError.ofCode : Code → ManualConnectionError
  | .unimplemented => .remoteUnimplemented
  | .internal => .remoteInternal
  | .unavailable => .unavailable
  | _ => .failedToRegister

inductive ManualPc where
  | parse (url : String)
  | dial (ip port : String)
  | register (ip : String)
  | lookup (ip : String) (service : ServiceRegistration)
  | update (ip : String) (service : ServiceRegistration) (remote : Remote)
  | join (pc : JoinPc (Except ManualConnectionError Unit))

def manualEnd : JoinEnd (Except ManualConnectionError Unit) where
  added uuid := .connecting uuid
  missing := .error (.failedToConnect .remoteWorkerNotFound)
  connected
    | .ok _ => .ok ()
    | .error e => .error (.failedToConnect e)

/-- The update of a remote that is known already. -/
def ServiceRegistration.update (ip : String) (service : ServiceRegistration) (r : Remote) :
    Remote :=
  { r with
    ip := (IpAddr.fromStr ip).getD r.ip
    hostname := service.hostname
    port := service.port.setWidth 16
    authPort := service.authPort.setWidth 16
    serviceStatic := true }

def ServiceRegistration.asRemote (ip : IpAddr) (service : ServiceRegistration) : Remote :=
  { Remote.new service.serviceId ip (service.port.setWidth 16) (service.authPort.setWidth 16)
      service.serviceId service.hostname with serviceStatic := true }

/-- What `manual_connection` does with a remote in the given state. -/
def manualNext (uuid : String) : RemoteState → JoinPc (Except ManualConnectionError Unit)
  | .error _ | .disconnected => .getWorker uuid
  | .connecting | .awaitingDuplex => .returned (.error .alreadyConnecting)
  | .connected => .returned (.error .alreadyConnected)

def manualConnection (g : Registry) (pc : ManualPc) (ans : AdmitAnswer) :
    Option (Registry × ManualPc) :=
  match pc, ans with
  | .parse url, .go =>
    match splitLast ':' url with
    | none => some (g, .join (.returned (.error .invalidUrl)))
    | some (ip, port) => some (g, .dial ip port)
  | .dial ip _, .dialed => some (g, .register ip)
  | .dial _ _, .undialed => some (g, .join (.returned (.error .failedToRegister)))
  | .register _, .registered (.error status) =>
    some (g, .join (.returned (.error (.ofCode status.code))))
  | .register ip, .registered (.ok service) => some (g, .lookup ip service)
  | .lookup ip service, .go =>
    match g.remote service.serviceId with
    | some remote => some (g, .update ip service remote)
    | none =>
      match IpAddr.fromStr ip with
      | none => some (g, .join (.returned (.error .invalidUrl)))
      | some addr => some (g, .join (.addWorker (service.asRemote addr)))
  | .update ip service remote, .go =>
    match g.remote remote.uuid with
    | none => some (g, .join .panicked)
    | some _ =>
      some (g.updateRemote remote.uuid (service.update ip),
        .join (manualNext remote.uuid remote.state))
  | .join pc, ans => (manualEnd.step g pc ans).map fun (g, pc) => (g, .join pc)
  | _, _ => none

end Warpinator
