import Warpinator.Grpc.WarpServer
import Warpinator.Lib.Pool
import Warpinator.Server.RemoteWorker

/-! # Calls

    Everything that may work on the transfers of a host at the same time: the
    calls that peers make, the calls that the application makes, and the
    streaming tasks that they spawn. -/

namespace Warpinator

inductive Task where
  | processTransferOpRequest (pc : WarpServer.ProcessPc)
  | startTransfer (pc : WarpServer.StartPc)
  | peerStopTransfer (pc : WarpServer.StopPc)
  | cancelTransferOpRequest (pc : WarpServer.CancelPc)
  | sendTransferRequest (w : Worker) (pc : Worker.SendRequestPc)
  | acceptTransfer (w : Worker) (pc : Worker.AcceptPc)
  | stopTransfer (w : Worker) (error : Bool) (pc : Worker.WithdrawPc StopInfo)
  | cancelTransfer (w : Worker) (pc : Worker.WithdrawPc OpInfo)
  | sendStream (task : SendTask)
  | receiveStream (task : ReceiveTask)

/-- The task that a step of `start_transfer` spawns. -/
def WarpServer.StartPc.spawned : WarpServer.StartPc → List Task
  | .streaming task => [.sendStream task]
  | _ => []

/-- The task that a step of `accept_transfer` spawns. -/
def Worker.AcceptPc.spawned : Worker.AcceptPc → List Task
  | .receiving task => [.receiveStream task]
  | _ => []

/-- One step of a task, with the tasks that it spawns. -/
def Task.step (host : Host) (t : Task) (ans : Answer) : Option (Host × Task × List Task) :=
  match t with
  | .processTransferOpRequest pc =>
    (WarpServer.processTransferOpRequest host pc ans).map fun (host, pc) =>
      (host, .processTransferOpRequest pc, [])
  | .startTransfer pc =>
    (WarpServer.startTransfer host pc ans).map fun (host, pc) =>
      (host, .startTransfer pc, pc.spawned)
  | .peerStopTransfer pc =>
    (WarpServer.stopTransfer host pc ans).map fun (host, pc) => (host, .peerStopTransfer pc, [])
  | .cancelTransferOpRequest pc =>
    (WarpServer.cancelTransferOpRequest host pc ans).map fun (host, pc) =>
      (host, .cancelTransferOpRequest pc, [])
  | .sendTransferRequest w pc =>
    (w.sendTransferRequest host pc ans).map fun (host, pc) =>
      (host, .sendTransferRequest w pc, [])
  | .acceptTransfer w pc =>
    (w.acceptTransfer host pc ans).map fun (host, pc) =>
      (host, .acceptTransfer w pc, pc.spawned)
  | .stopTransfer w error pc =>
    (w.stopTransfer error host pc ans).map fun (host, pc) => (host, .stopTransfer w error pc, [])
  | .cancelTransfer w pc =>
    (w.cancelTransfer host pc ans).map fun (host, pc) => (host, .cancelTransfer w pc, [])
  | .sendStream task => (task.step host ans).map fun (host, task) => (host, .sendStream task, [])
  | .receiveStream task =>
    (task.step host ans).map fun (host, task) => (host, .receiveStream task, [])

/-- The steps of a task, by the call that it is. -/
inductive TaskMove (host : Host) (ans : Answer) (host' : Host) : Task → Task → List Task → Prop
  | processTransferOpRequest (pc pc' : WarpServer.ProcessPc) :
    WarpServer.processTransferOpRequest host pc ans = some (host', pc') →
    TaskMove host ans host' (.processTransferOpRequest pc) (.processTransferOpRequest pc') []
  | startTransfer (pc pc' : WarpServer.StartPc) :
    WarpServer.startTransfer host pc ans = some (host', pc') →
    TaskMove host ans host' (.startTransfer pc) (.startTransfer pc') pc'.spawned
  | peerStopTransfer (pc pc' : WarpServer.StopPc) :
    WarpServer.stopTransfer host pc ans = some (host', pc') →
    TaskMove host ans host' (.peerStopTransfer pc) (.peerStopTransfer pc') []
  | cancelTransferOpRequest (pc pc' : WarpServer.CancelPc) :
    WarpServer.cancelTransferOpRequest host pc ans = some (host', pc') →
    TaskMove host ans host' (.cancelTransferOpRequest pc) (.cancelTransferOpRequest pc') []
  | sendTransferRequest (w : Worker) (pc pc' : Worker.SendRequestPc) :
    w.sendTransferRequest host pc ans = some (host', pc') →
    TaskMove host ans host' (.sendTransferRequest w pc) (.sendTransferRequest w pc') []
  | acceptTransfer (w : Worker) (pc pc' : Worker.AcceptPc) :
    w.acceptTransfer host pc ans = some (host', pc') →
    TaskMove host ans host' (.acceptTransfer w pc) (.acceptTransfer w pc') pc'.spawned
  | stopTransfer (w : Worker) (error : Bool) (pc pc' : Worker.WithdrawPc StopInfo) :
    w.stopTransfer error host pc ans = some (host', pc') →
    TaskMove host ans host' (.stopTransfer w error pc) (.stopTransfer w error pc') []
  | cancelTransfer (w : Worker) (pc pc' : Worker.WithdrawPc OpInfo) :
    w.cancelTransfer host pc ans = some (host', pc') →
    TaskMove host ans host' (.cancelTransfer w pc) (.cancelTransfer w pc') []
  | sendStream (task task' : SendTask) :
    task.step host ans = some (host', task') →
    TaskMove host ans host' (.sendStream task) (.sendStream task') []
  | receiveStream (task task' : ReceiveTask) :
    task.step host ans = some (host', task') →
    TaskMove host ans host' (.receiveStream task) (.receiveStream task') []

theorem task_move {host host' : Host} {t t' : Task} {ans : Answer} {spawned : List Task}
    (h : t.step host ans = some (host', t', spawned)) : TaskMove host ans host' t t' spawned := by
  cases t with
  | processTransferOpRequest pc =>
    obtain ⟨⟨host₁, pc'⟩, hstep, heq⟩ := Option.map_eq_some_iff.1 h
    cases heq
    exact .processTransferOpRequest pc pc' hstep
  | startTransfer pc =>
    obtain ⟨⟨host₁, pc'⟩, hstep, heq⟩ := Option.map_eq_some_iff.1 h
    cases heq
    exact .startTransfer pc pc' hstep
  | peerStopTransfer pc =>
    obtain ⟨⟨host₁, pc'⟩, hstep, heq⟩ := Option.map_eq_some_iff.1 h
    cases heq
    exact .peerStopTransfer pc pc' hstep
  | cancelTransferOpRequest pc =>
    obtain ⟨⟨host₁, pc'⟩, hstep, heq⟩ := Option.map_eq_some_iff.1 h
    cases heq
    exact .cancelTransferOpRequest pc pc' hstep
  | sendTransferRequest w pc =>
    obtain ⟨⟨host₁, pc'⟩, hstep, heq⟩ := Option.map_eq_some_iff.1 h
    cases heq
    exact .sendTransferRequest w pc pc' hstep
  | acceptTransfer w pc =>
    obtain ⟨⟨host₁, pc'⟩, hstep, heq⟩ := Option.map_eq_some_iff.1 h
    cases heq
    exact .acceptTransfer w pc pc' hstep
  | stopTransfer w error pc =>
    obtain ⟨⟨host₁, pc'⟩, hstep, heq⟩ := Option.map_eq_some_iff.1 h
    cases heq
    exact .stopTransfer w error pc pc' hstep
  | cancelTransfer w pc =>
    obtain ⟨⟨host₁, pc'⟩, hstep, heq⟩ := Option.map_eq_some_iff.1 h
    cases heq
    exact .cancelTransfer w pc pc' hstep
  | sendStream task =>
    obtain ⟨⟨host₁, task'⟩, hstep, heq⟩ := Option.map_eq_some_iff.1 h
    cases heq
    exact .sendStream task task' hstep
  | receiveStream task =>
    obtain ⟨⟨host₁, task'⟩, hstep, heq⟩ := Option.map_eq_some_iff.1 h
    cases heq
    exact .receiveStream task task' hstep

/-- The task is a call that has not done anything yet. -/
def Task.isNew : Task → Bool
  | .processTransferOpRequest (.add _) => true
  | .startTransfer (.lookup _) => true
  | .peerStopTransfer (.lookup _) => true
  | .cancelTransferOpRequest (.lookup _) => true
  | .sendTransferRequest _ (.start _) => true
  | .acceptTransfer _ (.lookup _ _) => true
  | .stopTransfer _ _ (.lookup _) => true
  | .cancelTransfer _ (.lookup _) => true
  | _ => false

/-- The calls and tasks of a host.  The surroundings may cancel any token. -/
def calls : Tasking Host Task Answer TokenId where
  step := Task.step
  mayEnter := Task.isNew
  env := Host.cancel

abbrev World : Type := Pool Host Task

abbrev WorldLabel : Type := PoolLabel Task Answer TokenId

end Warpinator
