import Warpinator.Types.Transfer

/-! # Remotes and Messages

    The data of `types/remote.rs` and `types/message.rs`. -/

namespace Warpinator

/-! ## Section 1: Messages -/

inductive Direction where
  | sent
  | received
  deriving DecidableEq, Repr

structure Message where
  uuid : String
  remoteUuid : String
  direction : Direction
  timestamp : Nat
  content : String
  deriving DecidableEq

/-! ## Section 2: Remotes -/

/-- `std::net::IpAddr`. -/
inductive IpAddr where
  | v4 (addr : BitVec 32)
  | v6 (addr : BitVec 128)
  deriving DecidableEq

inductive RemoteConnectionError where
  | sslError
  | groupCodeMismatch
  | noCertificate
  | duplexError
  deriving DecidableEq, Repr

inductive RemoteState where
  | error (e : RemoteConnectionError)
  | disconnected
  | connecting
  | awaitingDuplex
  | connected
  deriving DecidableEq, Repr

structure Remote where
  uuid : String
  ip : IpAddr
  port : BitVec 16
  authPort : BitVec 16
  serviceName : String
  /-- The bits of `ProtocolFeatures`. -/
  features : BitVec 32
  displayName : String
  username : String
  hostname : String
  picture : Option (List UInt8)
  pictureVersion : BitVec 8
  state : RemoteState
  messages : List Message
  transfers : List Transfer
  /-- The service is registered, not discovered. -/
  serviceStatic : Bool
  /-- The mDNS service is currently available. -/
  serviceAvailable : Bool
  certPem : Option (List UInt8)
  deriving DecidableEq

def Remote.new (uuid : String) (ip : IpAddr) (port authPort : BitVec 16) (serviceName : String)
    (hostname : String) : Remote where
  uuid := uuid
  ip := ip
  port := port
  authPort := authPort
  serviceName := serviceName
  features := 0
  displayName := ""
  username := ""
  hostname := hostname
  picture := none
  pictureVersion := 0
  state := .disconnected
  messages := []
  transfers := []
  serviceStatic := false
  serviceAvailable := false
  certPem := none

/-- `proto::ServiceRegistration`. -/
structure ServiceRegistration where
  serviceId : String
  ip : String
  port : BitVec 32
  hostname : String
  apiVersion : BitVec 32
  authPort : BitVec 32
  ipv6 : String
  deriving DecidableEq

/-- What the removal of its service does to a remote. -/
def Remote.removed (r : Remote) : Remote :=
  { r with serviceAvailable := false, state := .disconnected }

end Warpinator
