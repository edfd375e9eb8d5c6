import Warpinator.Grpc.WarpServer
import Warpinator.Server.RemoteWorker

/-! # Text Messages

    `send_text_message` of `grpc/warp.rs` and `send_message` of
    `remote_worker.rs`, with the conversions of `types/message.rs`.  A message is
    stored by the handler that receives it, and by the worker that has sent it
    once the other host has answered. -/

namespace Warpinator

/-! ## Section 1: Messages -/

/-- `proto::TextMessage`. -/
structure TextMessage where
  ident : String
  timestamp : Nat
  message : String

/-- `Message::new`, with the uuid and the time that it draws. -/
def Message.new (id : Uuid) (now : Nat) (remoteUuid : String) (direction : Direction)
    (content : String) : Message where
  uuid := id.toString
  remoteUuid := remoteUuid
  direction := direction
  timestamp := now
  content := content

/-- `as_proto`. -/
def Message.asProto (msg : Message) (serviceId : String) : TextMessage where
  ident := serviceId
  timestamp := msg.timestamp
  message := msg.content

/-- `From<&TextMessage> for Message`. -/
def Message.ofTextMessage (id : Uuid) (now : Nat) (value : TextMessage) : Message :=
  .new id now value.ident .received value.message

def Host.addMessage (host : Host) (remoteUuid : String) (msg : Message) :
    Except UpdateError Unit × Host :=
  let (result, manager) := host.manager.addMessage remoteUuid msg
  (result, { host with manager := manager })

/-! ## Section 2: send_text_message -/

/-- `ProtocolFeatures::MESSAGE_SUPPORT`. -/
def messageSupport : BitVec 32 := 0b0001

namespace WarpServer

inductive TextPc where
  | add (req : TextMessage)
  | returned (result : Except Status Unit)

/-- `features` are those of `protocol_config`. -/
def sendTextMessage (features : BitVec 32) (host : Host) (pc : TextPc) (ans : Answer) :
    Option (Host × TextPc) :=
  match pc, ans with
  | .add _, .go _ =>
    if features &&& messageSupport = messageSupport then none
    else some (host, .returned (.error ⟨.unimplemented, "Messaging feature is disabled"⟩))
  | .add req, .fresh id now =>
    if features &&& messageSupport = messageSupport then
      if id.toString ∈ host.uuids then none
      else
        match (host.issue id).addMessage req.ident (.ofTextMessage id now req) with
        | (.ok _, host) => some (host, .returned (.ok ()))
        | (.error .notFound, host) =>
          some (host, .returned (.error (.internal "Failed to add message: NotFound")))
    else none
  | _, _ => none

/-- The moves of `send_text_message`. -/
inductive TextMove (host : Host) : TextPc → Host → TextPc → Prop where
  | refused (req : TextMessage) (status : Status) :
      TextMove host (.add req) host (.returned (.error status))
  | added (req : TextMessage) (id : Uuid) (now : Nat) (result : Except Status Unit) :
      id.toString ∉ host.uuids →
      TextMove host (.add req) ((host.issue id).addMessage req.ident (.ofTextMessage id now req)).2
        (.returned result)

theorem sendTextMessage_move {features : BitVec 32} {host host' : Host} {pc pc' : TextPc}
    {ans : Answer} (h : sendTextMessage features host pc ans = some (host', pc')) :
    TextMove host pc host' pc' := by
  unfold sendTextMessage at h
  split at h
  · split at h
    · cases h
    · cases h
      exact .refused _ _
  · next req id now =>
    split at h
    · split at h
      · cases h
      · next hid =>
        have hadded := @TextMove.added host req id now
        split at h
        · next host₁ heq =>
          cases h
          rw [heq] at hadded
          exact hadded _ hid
        · next host₁ heq =>
          cases h
          rw [heq] at hadded
          exact hadded _ hid
    · cases h
  · cases h

end WarpServer

/-! ## Section 3: send_message -/

namespace Worker

inductive SendMessagePc where
  | start (text : String)
  | request (msg : Message) (req : TextMessage)
  | add (msg : Message)
  | returned (result : Except RemoteWorkerError Unit)

def sendMessage (w : Worker) (host : Host) (pc : SendMessagePc) (ans : Answer) :
    Option (Host × SendMessagePc) :=
  match pc, ans with
  | .start _, .noClient => some (host, .returned (.error .noClient))
  | .start text, .fresh id now =>
    if id.toString ∈ host.uuids then none
    else
      let msg := Message.new id now w.uuid .sent text
      some (host.issue id, .request msg (msg.asProto w.serverFullname))
  | .request msg _, .reply (.ok _) => some (host, .add msg)
  | .request _ _, .reply (.error status) => some (host, .returned (.error (.remoteFailed status)))
  | .add msg, .go _ =>
    match host.addMessage w.uuid msg with
    | (.ok _, host) => some (host, .returned (.ok ()))
    | (.error e, host) => some (host, .returned (.error (.updateFailed e)))
  | _, _ => none

/-- The moves of `send_message`. -/
inductive SendMessageMove (w : Worker) (host : Host) :
    SendMessagePc → Host → SendMessagePc → Prop where
  | refused (text : String) :
      SendMessageMove w host (.start text) host (.returned (.error .noClient))
  | created (text : String) (id : Uuid) (now : Nat) (req : TextMessage) :
      id.toString ∉ host.uuids →
      SendMessageMove w host (.start text) (host.issue id)
        (.request (.new id now w.uuid .sent text) req)
  | answered (msg : Message) (req : TextMessage) :
      SendMessageMove w host (.request msg req) host (.add msg)
  | failed (msg : Message) (req : TextMessage) (status : Status) :
      SendMessageMove w host (.request msg req) host (.returned (.error (.remoteFailed status)))
  | added (msg : Message) (result : Except RemoteWorkerError Unit) :
      SendMessageMove w host (.add msg) (host.addMessage w.uuid msg).2 (.returned result)

theorem sendMessage_move {w : Worker} {host host' : Host} {pc pc' : SendMessagePc} {ans : Answer}
    (h : w.sendMessage host pc ans = some (host', pc')) : SendMessageMove w host pc host' pc' := by
  unfold sendMessage at h
  split at h
  · cases h
    exact .refused _
  · split at h
    · cases h
    · next hid =>
      cases h
      exact .created _ _ _ _ hid
  · cases h
    exact .answered _ _
  · cases h
    exact .failed _ _ _
  · next msg queued =>
    have hadded := @SendMessageMove.added w host msg
    split at h
    · next host₁ heq =>
      cases h
      rw [heq] at hadded
      exact hadded _
    · next e host₁ heq =>
      cases h
      rw [heq] at hadded
      exact hadded _
  · cases h

end Worker

end Warpinator
