import Warpinator.Server.Admissions
import Warpinator.Server.Calls
import Warpinator.Server.Messaging

/-! # A Running Instance

    One manager and everything that works on it at the same time: admissions of
    remotes, the calls of peers, the operations of the application on its
    workers, and the streaming tasks.

    The application reaches a worker through `get_worker` only.  It may keep the
    worker as long as it likes, also when another one has taken its place. -/

namespace Warpinator

/-! ## Section 1: The state -/

/-- What stays the same while an instance runs. -/
structure Settings where
  registration : RegistrationServer
  serverFullname : String
  /-- The features of `protocol_config`. -/
  features : BitVec 32

structure Instance where
  host : Host
  /-- The worker of each uuid, by its number. -/
  workers : String → Option Nat
  /-- The uuids of the workers made so far, by number. -/
  workerUuids : List String
  /-- The uuids whose loop has been spawned, oldest first. -/
  loops : List String

namespace Instance

/-- An instance that has just been started. -/
def new (checks : Bool) : Instance where
  host :=
    { manager := .empty
      tokens := { cancelled := [], issued := 0 }
      uuids := []
      files := fun _ => .other
      disk := fun _ => none
      checks := checks }
  workers _ := none
  workerUuids := []
  loops := []

def remote (i : Instance) (uuid : String) : Option Remote := i.host.manager.remote uuid

/-- What admissions see of an instance. -/
def registry (i : Instance) : Registry where
  manager := i.host.manager
  workers := i.workers
  made := i.workerUuids.length
  loops := i.loops

/-- What an admission leaves; `made` are the uuids of the workers it has made. -/
def store (i : Instance) (g : Registry) (made : List String) : Instance where
  host := { i.host with manager := g.manager }
  workers := g.workers
  workerUuids := i.workerUuids ++ made
  loops := g.loops

/-- `get_worker`.  The token of worker `n` is child `n` of the root token. -/
def getWorker (s : Settings) (i : Instance) (uuid : String) : Option Worker :=
  (i.workers uuid).bind fun n => i.workerUuids[n]?.map fun uuid =>
    { uuid := uuid, serverFullname := s.serverFullname, cancellationToken := [n] }

end Instance

/-! ## Section 2: What goes on -/

/-- The operations of a worker on transfers and messages. -/
inductive WorkerOp where
  | sendTransferRequest (sourcePaths : List PathBuf)
  | acceptTransfer (transferUuid : String) (destination : PathBuf)
  | stopTransfer (transferUuid : String) (error : Bool)
  | cancelTransfer (transferUuid : String)
  | sendMessage (message : String)

inductive Activity where
  | admission (t : Admission)
  /-- A call of a peer or a worker on transfers, or a streaming task. -/
  | call (t : Task)
  | sendTextMessage (pc : WarpServer.TextPc)
  | sendMessage (w : Worker) (pc : Worker.SendMessagePc)
  /-- The application is about to ask for a worker. -/
  | getWorker (uuid : String) (op : WorkerOp)
  /-- There is no such worker. -/
  | workerMissing

/-- The operation as it begins. -/
def WorkerOp.start (w : Worker) : WorkerOp → Activity
  | .sendTransferRequest sourcePaths => .call (.sendTransferRequest w (.start sourcePaths))
  | .acceptTransfer transferUuid destination =>
    .call (.acceptTransfer w (.lookup transferUuid destination))
  | .stopTransfer transferUuid error => .call (.stopTransfer w error (.lookup transferUuid))
  | .cancelTransfer transferUuid => .call (.cancelTransfer w (.lookup transferUuid))
  | .sendMessage message => .sendMessage w (.start message)

/-- The uuid of the worker that the next step of `add_remote` makes. -/
def JoinPc.makes {ρ : Type} : JoinPc ρ → List String
  | .addWorker r => [r.uuid]
  | _ => []

def Admission.makes : Admission → List String
  | .newService (.join pc) => pc.makes
  | .register (.join pc) => pc.makes
  | .manual (.join pc) => pc.makes
  | _ => []

inductive ActivityAnswer where
  | admission (ans : AdmitAnswer)
  | call (ans : Answer)

/-- One step of an activity, with the tasks that it spawns. -/
def Activity.step (s : Settings) (i : Instance) (t : Activity) (ans : ActivityAnswer) :
    Option (Instance × Activity × List Activity) :=
  match t, ans with
  | .admission t, .admission ans =>
    (t.step s.registration i.registry ans).map fun (g, t', _) =>
      (i.store g t.makes, .admission t', [])
  | .call t, .call ans =>
    (t.step i.host ans).map fun (host, t, spawned) =>
      ({ i with host := host }, .call t, spawned.map .call)
  | .sendTextMessage pc, .call ans =>
    (WarpServer.sendTextMessage s.features i.host pc ans).map fun (host, pc) =>
      ({ i with host := host }, .sendTextMessage pc, [])
  | .sendMessage w pc, .call ans =>
    (w.sendMessage i.host pc ans).map fun (host, pc) =>
      ({ i with host := host }, .sendMessage w pc, [])
  | .getWorker uuid op, .call (.go _) =>
    match i.getWorker s uuid with
    | some w => some (i, op.start w, [])
    | none => some (i, .workerMissing, [])
  | _, _ => none

/-- A call of a peer that has not done anything yet. -/
def Task.isPeerCall : Task → Bool
  | .processTransferOpRequest (.add _) => true
  | .startTransfer (.lookup _) => true
  | .peerStopTransfer (.lookup _) => true
  | .cancelTransferOpRequest (.lookup _) => true
  | _ => false

def Activity.isNew : Activity → Bool
  | .admission t => t.isNew
  | .call t => t.isPeerCall
  | .sendTextMessage (.add _) => true
  | .getWorker _ _ => true
  | _ => false

/-! ## Section 3: The surroundings -/

/-- What else happens: the connection logic updates remotes, the application
    removes transfers and messages and cancels tokens, and files change. -/
inductive InstanceChange where
  | update (uuid : String) (f : RemoteUpdate)
  | removed (fullname : String)
  | removeTransfer (uuid transferUuid : String)
  | removeMessage (uuid messageUuid : String)
  | cancel (token : TokenId)
  | files (files : PathBuf → SourceKind)
  | disk (disk : Path → Option Node)

def Instance.change (i : Instance) : InstanceChange → Instance
  | .update uuid f => i.store (i.registry.change (.update uuid f)) []
  | .removed fullname => i.store (i.registry.change (.removed fullname)) []
  | .removeTransfer uuid transferUuid =>
    i.store (i.registry.change (.removeTransfer uuid transferUuid)) []
  | .removeMessage uuid messageUuid =>
    i.store (i.registry.change (.removeMessage uuid messageUuid)) []
  | .cancel token => { i with host := i.host.cancel token }
  | .files files => { i with host := { i.host with files := files } }
  | .disk disk => { i with host := { i.host with disk := disk } }

def activities (s : Settings) : Tasking Instance Activity ActivityAnswer InstanceChange where
  step := Activity.step s
  mayEnter := Activity.isNew
  env := Instance.change

/-- An instance with everything that goes on in it. -/
abbrev Running : Type := Pool Instance Activity

abbrev RunningLabel : Type := PoolLabel Activity ActivityAnswer InstanceChange

def Running.new (checks : Bool) : Running := ⟨.new checks, []⟩

/-! ## Section 4: What a step can do -/

/-- The steps of an activity. -/
inductive ActivityMove (s : Settings) (i : Instance) :
    Activity → Instance → Activity → List Activity → Prop where
  | admission (t t' : Admission) (g : Registry) (ans : AdmitAnswer) (spawned : List Admission) :
      t.step s.registration i.registry ans = some (g, t', spawned) →
      ActivityMove s i (.admission t) (i.store g t.makes) (.admission t') []
  | call (t t' : Task) (host : Host) (ans : Answer) (spawned : List Task) :
      t.step i.host ans = some (host, t', spawned) →
      ActivityMove s i (.call t) { i with host := host } (.call t') (spawned.map .call)
  | sendTextMessage (pc pc' : WarpServer.TextPc) (host : Host) :
      WarpServer.TextMove i.host pc host pc' →
      ActivityMove s i (.sendTextMessage pc) { i with host := host } (.sendTextMessage pc') []
  | sendMessage (w : Worker) (pc pc' : Worker.SendMessagePc) (host : Host) :
      Worker.SendMessageMove w i.host pc host pc' →
      ActivityMove s i (.sendMessage w pc) { i with host := host } (.sendMessage w pc') []
  | getWorker (uuid : String) (op : WorkerOp) (w : Worker) :
      i.getWorker s uuid = some w →
      ActivityMove s i (.getWorker uuid op) i (op.start w) []
  | missing (uuid : String) (op : WorkerOp) :
      ActivityMove s i (.getWorker uuid op) i .workerMissing []

theorem activity_move {s : Settings} {i i' : Instance} {t t' : Activity} {ans : ActivityAnswer}
    {spawned : List Activity} (h : t.step s i ans = some (i', t', spawned)) :
    ActivityMove s i t i' t' spawned := by
  unfold Activity.step at h
  split at h
  · next t ans =>
    obtain ⟨⟨g, t₁, spawned₁⟩, hstep, heq⟩ := Option.map_eq_some_iff.1 h
    cases heq
    exact .admission t t₁ g ans spawned₁ hstep
  · next t ans =>
    obtain ⟨⟨host, t₁, spawned₁⟩, hstep, heq⟩ := Option.map_eq_some_iff.1 h
    cases heq
    exact .call t t₁ host ans spawned₁ hstep
  · next pc ans =>
    obtain ⟨⟨host, pc₁⟩, hstep, heq⟩ := Option.map_eq_some_iff.1 h
    cases heq
    exact .sendTextMessage pc pc₁ host (WarpServer.sendTextMessage_move hstep)
  · next w pc ans =>
    obtain ⟨⟨host, pc₁⟩, hstep, heq⟩ := Option.map_eq_some_iff.1 h
    cases heq
    exact .sendMessage w pc pc₁ host (Worker.sendMessage_move hstep)
  · next uuid op queued =>
    split at h
    · next w hw =>
      cases h
      exact .getWorker uuid op w hw
    · cases h
      exact .missing uuid op
  · cases h

end Warpinator
