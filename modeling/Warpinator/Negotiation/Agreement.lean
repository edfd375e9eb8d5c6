import Warpinator.Negotiation.Protocol
import Warpinator.Server.Calls

/-! # Agreement of the Negotiation

    A transfer waits for permission on two hosts.  The sender may cancel it, the
    receiver may cancel or accept it, each once, and the requests cross on the
    wire.

    A call writes its record when the peer has answered, a handler when it has
    looked the record up, and neither looks at it again.  `agrees_of_orderly`
    says when the records agree at the end: if every such update finds its
    record still waiting, and if neither streaming task ends otherwise than its
    counterpart. -/

namespace Warpinator

/-! ## Section 1: Two hosts -/

/-- One host, with its own `cancel_transfer` and the handler of the other's. -/
structure Side where
  host : Host
  cancel : Option (Worker.WithdrawPc OpInfo)
  handler : Option WarpServer.CancelPc

structure Negotiation where
  side : Role → Side
  /-- `accept_transfer` of the receiver, then its receiving task. -/
  accept : Option Worker.AcceptPc
  /-- `start_transfer` of the sender, then its sending task. -/
  start : Option WarpServer.StartPc
  /-- The chunks in flight, oldest first. -/
  queue : List FileChunk

inductive NegotiationLabel where
  /-- A step of `cancel_transfer` of `x` that needs nothing from the peer. -/
  | cancel (x : Role) (ans : Answer)
  /-- The request of `x` arrives. -/
  | deliverCancel (x : Role)
  /-- A step of the handler on the side of `x`. -/
  | handle (x : Role) (ans : Answer)
  /-- The peer's handler has returned, and its answer arrives at `x`. -/
  | replyCancel (x : Role)
  | accept (ans : Answer)
  | deliverStart
  | start (ans : Answer)
  | replyStart

def Answer.isReply : Answer → Bool
  | .reply _ => true
  | _ => false

namespace Negotiation

def put (s : Negotiation) (x : Role) (side : Side) : Negotiation :=
  { s with side := Function.update s.side x side }

@[simp] theorem put_self (s : Negotiation) (x : Role) (side : Side) :
    (s.put x side).side x = side :=
  Function.update_self _ _ _

@[simp] theorem put_peer (s : Negotiation) (x : Role) (side : Side) :
    (s.put x side).side x.peer = s.side x.peer :=
  Function.update_of_ne x.peer_ne _ _

/-- The other end of the channel has been dropped. -/
def gone (s : Negotiation) : Bool :=
  match s.accept with
  | some (.receiving task) => task.phase != .inner
  | some (.failed _) => true
  | _ => false

/-- `tx` accepts a chunk while the other end of the channel is there. -/
def accepts (s : Negotiation) : Answer → Bool
  | .send (.send accepted) _ => accepted || s.gone
  | _ => true

/-- `tx` has been dropped. -/
def ended (s : Negotiation) : Bool :=
  match s.start with
  | some (.streaming task) => task.phase = .done
  | _ => false

/-- The chunks in flight after `stream.message()` has given its answer, `none`
    where it cannot answer so.  The connection is not lost. -/
def arrives (s : Negotiation) : Answer → Option (List FileChunk)
  | .receive (.message _ chunk) _ _ =>
    match s.queue with
    | c :: rest => if c = chunk then some rest else none
    | [] => none
  | .receive .endOfStream _ _ => if s.queue = [] ∧ s.ended then some [] else none
  | .receive .streamError _ _ => none
  | _ => some s.queue

def stepStart (s : Negotiation) (ans : Answer) : Option Negotiation :=
  match s.start with
  | none => none
  | some (.streaming task) =>
    if s.accepts ans then
      (task.step (s.side .sender).host ans).map fun (host, task') =>
        { s.put .sender { s.side .sender with host := host } with
          start := some (.streaming task')
          queue := s.queue ++ task'.sender.handed.drop task.sender.handed.length }
    else none
  | some pc =>
    (WarpServer.startTransfer (s.side .sender).host pc ans).map fun (host, pc) =>
      { s.put .sender { s.side .sender with host := host } with start := some pc }

end Negotiation

/-- The kind of the transfer on the side of this role. -/
def Role.Owns : Role → TransferKind → Prop
  | .sender, .outgoing _ _ => True
  | .receiver, .incoming _ => True
  | _, _ => False

/-- A transfer that waits for permission on both hosts, and the calls that are
    going to be made. -/
structure Proposal where
  host : Role → Host
  worker : Role → Worker
  transferUuid : Role → String
  protocolId : Nat
  kind : Role → TransferKind
  /-- `cancel_transfer` is called. -/
  cancels : Role → Bool
  /-- The destination that `accept_transfer` is called with. -/
  accepts : Option PathBuf
  knows : ∀ x : Role, (worker x).serverFullname = (worker x.peer).uuid
  owns : ∀ x : Role, x.Owns (kind x)
  record : ∀ x,
    (host x).Has (worker x).uuid (transferUuid x) protocolId (kind x) .waitingPermission

namespace Proposal

variable (o : Proposal)

def start : Negotiation where
  side x :=
    { host := o.host x
      cancel := if o.cancels x then some (.lookup (o.transferUuid x)) else none
      handler := none }
  accept := o.accepts.map fun destination => .lookup (o.transferUuid .receiver) destination
  start := none
  queue := []

def stepCancel (s : Negotiation) (x : Role) (ans : Answer) : Option Negotiation :=
  (s.side x).cancel.bind fun pc =>
    ((o.worker x).cancelTransfer (s.side x).host pc ans).map fun (host, pc) =>
      s.put x { s.side x with host := host, cancel := some pc }

/-- Nothing is left to receive before the task has been spawned. -/
def stepAccept (s : Negotiation) (ans : Answer) : Option Negotiation :=
  match s.accept with
  | none => none
  | some (.receiving task) =>
    (s.arrives ans).bind fun queue =>
      (task.step (s.side .receiver).host ans).map fun (host, task) =>
        { s.put .receiver { s.side .receiver with host := host } with
          accept := some (.receiving task)
          queue := queue }
  | some pc =>
    ((o.worker .receiver).acceptTransfer (s.side .receiver).host pc ans).map fun (host, pc) =>
      { s.put .receiver { s.side .receiver with host := host } with accept := some pc }

def step (s : Negotiation) : NegotiationLabel → Option Negotiation
  | .cancel x ans => if ans.isReply then none else o.stepCancel s x ans
  | .deliverCancel x =>
    match (s.side x).cancel, (s.side x.peer).handler with
    | some (.request _ _ req), none =>
      some (s.put x.peer { s.side x.peer with handler := some (.lookup req) })
    | _, _ => none
  | .handle x ans =>
    (s.side x).handler.bind fun pc =>
      (WarpServer.cancelTransferOpRequest (s.side x).host pc ans).map fun (host, pc) =>
        s.put x { s.side x with host := host, handler := some pc }
  | .replyCancel x =>
    match (s.side x.peer).handler with
    | some (.returned result) => o.stepCancel s x (.reply result)
    | _ => none
  | .accept ans => if ans.isReply then none else o.stepAccept s ans
  | .deliverStart =>
    match s.accept, s.start with
    | some (.request _ _ req), none => some { s with start := some (.lookup req) }
    | _, _ => none
  | .start ans => s.stepStart ans
  | .replyStart =>
    match s.start with
    | some (.streaming _) => o.stepAccept s (.reply (.ok ()))
    | some (.failed status) => o.stepAccept s (.reply (.error status))
    | _ => none

def negotiation : Machine Negotiation NegotiationLabel where
  step := o.step

end Proposal

/-! ## Section 2: What is meant -/

/-- The stage of a call. -/
def CallStage.of : Option (Worker.WithdrawPc OpInfo) → CallStage
  | none => .before
  | some (.lookup _) => .before
  | some (.cancel _ _ _ _) => .before
  | some (.request _ _ _) => .asking
  | some (.update _ _) => .answered
  | some (.returned (.ok _)) => .closed
  | some (.returned (.error _)) => .failed

def HandlerStage.of : Option WarpServer.CancelPc → HandlerStage
  | none => .absent
  | some (.lookup _) => .working
  | some (.update _ _) => .working
  | some (.returned (.ok _)) => .granted
  | some (.returned (.error _)) => .refused

def AcceptStage.of : Option Worker.AcceptPc → AcceptStage
  | none => .before
  | some (.lookup _ _) => .before
  | some (.request _ _ _) => .asking
  | some (.update _ _) => .answered
  | some (.receiving task) => .receiving task.phase
  | some (.failed _) => .failed

def StartStage.of : Option WarpServer.StartPc → StartStage
  | none => .absent
  | some (.lookup _) => .working
  | some (.update _ _ _) => .working
  | some (.streaming task) => .sending task.phase
  | some (.failed _) => .failed

namespace Proposal

variable (o : Proposal)

/-- The state of the record on the side of `x`. -/
def stateOf (x : Role) (host : Host) : Option TransferState :=
  host.stateOf (o.worker x).uuid (o.transferUuid x)

def state (s : Negotiation) (x : Role) : Option TransferState := o.stateOf x (s.side x).host

/-- How far the negotiation has come. -/
def snapshot (s : Negotiation) : Snapshot where
  view x :=
    { cancel := .of (s.side x).cancel
      handler := .of (s.side x).handler
      state := o.state s x }
  accept := .of s.accept
  start := .of s.start

/-- The records agree on `Canceled`, on `Denied` and on `Completed`. -/
def Agrees (s : Negotiation) : Prop :=
  (o.state s .sender = some .canceled ↔ o.state s .receiver = some .canceled) ∧
  (o.state s .sender = some .denied ↔ o.state s .receiver = some .denied) ∧
  (o.state s .sender = some .completed ↔ o.state s .receiver = some .completed)

/-- If the next step of the sending task is to pick its final state, it is not
    `Canceled`, and it is `Completed` only while the receiving task has not
    failed. -/
def DecidesWell (s : Negotiation) (task : SendTask) : Prop :=
  match task.phase, task.sender.pc with
  | .inner, .returned result =>
    let finalState := sendFinalState result
      ((s.side .sender).host.tokens.isCancelled task.cancellationToken)
    finalState ≠ .canceled ∧ (finalState = .completed → ¬ (o.snapshot s).ReceivedShort)
  | _, _ => True

instance (s : Negotiation) (task : SendTask) : Decidable (o.DecidesWell s task) := by
  unfold DecidesWell
  split <;> infer_instance

/-- If the receiving task leaves its loop with this step, it has not been
    cancelled, it takes the end of the stream for success only if the sender has
    completed the transfer, and it fails only if the sender has not. -/
def StopsWell (s : Negotiation) (task : ReceiveTask) : Answer → Prop
  | .receive event fault _ =>
    match receiveRound (s.side .receiver).host.checks task.destination fault
        task.receiver event with
    | .again _ => True
    | .done result _ =>
      receiveFinalState result ≠ .canceled ∧
        (receiveFinalState result = .completed → o.state s .sender = some .completed) ∧
        (receiveFinalState result ≠ .completed → ¬ (o.snapshot s).SentWhole)
    | .panic _ => ¬ (o.snapshot s).SentWhole
  | _ => True

instance (s : Negotiation) (task : ReceiveTask) (ans : Answer) :
    Decidable (o.StopsWell s task ans) := by
  unfold StopsWell
  split
  · split <;> infer_instance
  · infer_instance

/-- The update of a call or a handler finds its record waiting for permission,
    and the streaming tasks end alike. -/
def Orderly (s : Negotiation) : NegotiationLabel → Prop
  | .cancel x _ =>
    match (s.side x).cancel with
    | some (.update _ _) => o.state s x = some .waitingPermission
    | _ => True
  | .handle x _ =>
    match (s.side x).handler with
    | some (.update _ _) => o.state s x = some .waitingPermission
    | _ => True
  | .accept ans =>
    match s.accept with
    | some (.update _ _) => o.state s .receiver = some .waitingPermission
    | some (.receiving task) => o.StopsWell s task ans
    | _ => True
  | .start _ =>
    match s.start with
    | some (.update _ _ _) => o.state s .sender = some .waitingPermission
    | some (.streaming task) => o.DecidesWell s task
    | _ => True
  | _ => True

instance (s : Negotiation) : DecidablePred (o.Orderly s) := fun l => by
  unfold Orderly
  cases l <;> first | infer_instance | (dsimp only; split <;> infer_instance)

end Proposal

/-- No call, no request and no streaming task is left. -/
structure Negotiation.Quiet (s : Negotiation) : Prop where
  cancel : ∀ x pc, (s.side x).cancel = some pc → ∃ result, pc = .returned result
  handler : ∀ x pc, (s.side x).handler = some pc → ∃ result, pc = .returned result
  accept : ∀ pc, s.accept = some pc →
    (∃ e, pc = .failed e) ∨
      ∃ task, pc = .receiving task ∧ (task.phase = .done ∨ task.phase = .panicked)
  start : ∀ pc, s.start = some pc →
    (∃ status, pc = .failed status) ∨ ∃ task, pc = .streaming task ∧ task.phase = .done

/-! ## Section 3: What a step can do -/

section views

variable {o : Proposal} {host host' : Host} {ans : Answer} {st : TransferState} {x : Role}

/-- What `cancel_transfer` writes on the side of `x`. -/
theorem Role.cancelState_of_owns {kind : TransferKind} (h : x.Owns kind) :
    Worker.cancelState kind = x.withdrawn := by
  cases x <;> cases kind <;> first | rfl | cases h

/-- What the handler of the peer's `cancel_transfer` writes there. -/
theorem Role.handlerState_of_owns {kind : TransferKind} (h : x.Owns kind) :
    WarpServer.cancelState kind = x.peer.withdrawn := by
  cases x <;> cases kind <;> first | rfl | cases h

/-- The record on the side of `x`. -/
def Proposal.Record (o : Proposal) (x : Role) (host : Host) (st : TransferState) : Prop :=
  ∃ kind, x.Owns kind ∧
    host.Has (o.worker x).uuid (o.transferUuid x) o.protocolId kind st

theorem Proposal.Record.stateOf (h : o.Record x host st) : o.stateOf x host = some st := by
  obtain ⟨_, _, hrec⟩ := h
  exact Host.Has.stateOf hrec

theorem Proposal.Record.of_manager (h : o.Record x host st)
    (hmanager : host'.manager = host.manager) : o.Record x host' st := by
  obtain ⟨kind, howns, hrec⟩ := h
  exact ⟨kind, howns, hrec.of_manager hmanager⟩

theorem Proposal.Record.update (h : o.Record x host st) (queued : Nat) (f : TransferUpdate)
    (g : TransferState → TransferState) (hkind : ∀ t, x.Owns t.kind → x.Owns (f.apply t).kind)
    (hstate : ∀ t, (f.apply t).state = g t.state) :
    o.Record x (host.updateTransfer queued (o.worker x).uuid (o.transferUuid x) f).2 (g st) := by
  obtain ⟨_, howns, t, haddr, hk, rfl, rfl⟩ := h
  exact ⟨_, hkind t howns, f.apply t, haddr.updateTransfer queued f, by simp [hk], rfl, hstate t⟩

theorem Proposal.Record.recordProgress (h : o.Record x host st) (queued : Nat)
    (before after : List Progress) :
    o.Record x
      (host.recordProgress queued (o.worker x).uuid (o.transferUuid x) before after) st := by
  obtain ⟨kind, howns, hrec⟩ := h
  exact ⟨kind, howns, hrec.recordProgress queued before after⟩

/-- A request names the transfer on the side of `x`. -/
def Proposal.Names (o : Proposal) (x : Role) (req : OpInfo) : Prop :=
  req.ident = (o.worker x).uuid ∧ req.timestamp = o.protocolId

/-- A copy of the record on the side of `x`. -/
def Proposal.Copies (o : Proposal) (x : Role) (t : Transfer) : Prop :=
  t.remoteUuid = (o.worker x).uuid ∧ t.uuid = o.transferUuid x

theorem Proposal.Record.found (h : o.Record x host st) {req : OpInfo} (hreq : o.Names x req)
    {t : Transfer} (ht : host.transferByProtocolId req.ident req.timestamp = some t) :
    o.Copies x t ∧ x.Owns t.kind ∧ t.state = st := by
  obtain ⟨kind, howns, hrec⟩ := h
  rw [hreq.1, hreq.2] at ht
  obtain ⟨hk, hu, rfl, hs⟩ := hrec.found ht
  exact ⟨⟨hk, hu⟩, howns, hs⟩

/-- The call of `x` is about the transfer. -/
def Proposal.Withdraws (o : Proposal) (x : Role) : Worker.WithdrawPc OpInfo → Prop
  | .lookup u => u = o.transferUuid x
  | .cancel u _ s req => u = o.transferUuid x ∧ s = x.withdrawn ∧ o.Names x.peer req
  | .request u s req => u = o.transferUuid x ∧ s = x.withdrawn ∧ o.Names x.peer req
  | .update u s => u = o.transferUuid x ∧ s = x.withdrawn
  | .returned _ => True

/-- The handler on the side of `x` is about the transfer. -/
def Proposal.Handles (o : Proposal) (x : Role) : WarpServer.CancelPc → Prop
  | .lookup req => o.Names x req
  | .update t s => o.Copies x t ∧ s = x.peer.withdrawn
  | .returned _ => True

def Proposal.Accepts (o : Proposal) : Worker.AcceptPc → Prop
  | .lookup u _ => u = o.transferUuid .receiver
  | .request u _ req => u = o.transferUuid .receiver ∧ o.Names .sender req
  | .update u _ => u = o.transferUuid .receiver
  | .receiving task =>
    task.remoteUuid = (o.worker .receiver).uuid ∧ task.transferUuid = o.transferUuid .receiver
  | .failed _ => True

def Proposal.Starts (o : Proposal) : WarpServer.StartPc → Prop
  | .lookup req => o.Names .sender req
  | .update t _ _ => o.Copies .sender t
  | .streaming task =>
    task.remoteUuid = (o.worker .sender).uuid ∧ task.transferUuid = o.transferUuid .sender
  | .failed _ => True

/-- The request that `x` makes of what it has looked up. -/
theorem Proposal.Record.request (h : o.Record x host st) {u : String} {t : Transfer}
    (hu : u = o.transferUuid x) (ht : host.transfer (o.worker x).uuid u = some t) :
    o.Names x.peer ((o.worker x).opInfo t.protocolId) ∧ x.Owns t.kind := by
  obtain ⟨_, howns, t', haddr, _, rfl, _⟩ := h
  have heq : some t' = some t := haddr.byUuid.symm.trans (hu ▸ ht)
  cases heq
  obtain ⟨_, _, hfind⟩ := Option.bind_eq_some_iff.1 haddr.byProtocolId
  have hid : t.protocolId = o.protocolId := by simpa using List.find?_some hfind
  exact ⟨⟨o.knows x, hid⟩, howns⟩

/-- A step of `cancel_transfer`: only the closing update touches the record. -/
inductive CancelView (o : Proposal) (x : Role) (st : TransferState) (ans : Answer) (host' : Host) :
    CallStage → CallStage → Prop
  | stays : o.Record x host' st → CancelView o x st ans host' .before .before
  | asks : o.Record x host' st → CancelView o x st ans host' .before .asking
  | fails : o.Record x host' st → CancelView o x st ans host' .before .failed
  | answered :
      ans = .reply (.ok ()) → o.Record x host' st → CancelView o x st ans host' .asking .answered
  | denied (status : Status) :
      ans = .reply (.error status) → o.Record x host' st →
      CancelView o x st ans host' .asking .failed
  | closes (queued : Nat) :
      ans = .go queued → o.Record x host' x.withdrawn →
      CancelView o x st ans host' .answered .closed

theorem cancel_view {pc pc' : Worker.WithdrawPc OpInfo} (hrec : o.Record x host st)
    (hpc : o.Withdraws x pc) (h : (o.worker x).cancelTransfer host pc ans = some (host', pc')) :
    o.Withdraws x pc' ∧ CancelView o x st ans host' (.of (some pc)) (.of (some pc')) := by
  cases Worker.withdraw_move h with
  | refused u ans e => exact ⟨trivial, .fails hrec⟩
  -- the token goes first: the request is not out yet
  | foundOutgoing u queued transfer token hfound =>
    obtain ⟨hnames, howns⟩ := hrec.request hpc hfound
    exact ⟨⟨hpc, Role.cancelState_of_owns howns, hnames⟩, .stays hrec⟩
  | foundIncoming u queued transfer hfound =>
    obtain ⟨hnames, howns⟩ := hrec.request hpc hfound
    exact ⟨⟨hpc, Role.cancelState_of_owns howns, hnames⟩, .asks hrec⟩
  | cancelled u queued token s req => exact ⟨hpc, .asks (hrec.of_manager rfl)⟩
  | answered u s req => exact ⟨⟨hpc.1, hpc.2.1⟩, .answered rfl hrec⟩
  | denied u s req status => exact ⟨trivial, .denied status rfl hrec⟩
  | updated u s queued hsome =>
    obtain ⟨rfl, rfl⟩ := hpc
    exact ⟨trivial, .closes queued rfl
      (hrec.update queued _ (fun _ => x.withdrawn) (fun _ h => h) fun _ => rfl)⟩
  -- the record is there, so this step cannot happen
  | lost u s queued e hnone =>
    obtain ⟨rfl, rfl⟩ := hpc
    obtain ⟨_, _, hhas⟩ := hrec
    have hsome := hhas.isSome
    rw [hnone] at hsome
    cases hsome

/-- A step of the handler of `cancel_transfer`. -/
inductive HandlerView (o : Proposal) (x : Role) (st : TransferState) (pc : WarpServer.CancelPc)
    (host' : Host) : HandlerStage → HandlerStage → Prop
  | looks : o.Record x host' st → HandlerView o x st pc host' .working .working
  | refuses : o.Record x host' st → HandlerView o x st pc host' .working .refused
  | grants (t : Transfer) (s : TransferState) :
      pc = .update t s → o.Record x host' x.peer.withdrawn →
      HandlerView o x st pc host' .working .granted

theorem handler_view {pc pc' : WarpServer.CancelPc} (hrec : o.Record x host st)
    (hpc : o.Handles x pc)
    (h : WarpServer.cancelTransferOpRequest host pc ans = some (host', pc')) :
    o.Handles x pc' ∧ HandlerView o x st pc host' (.of (some pc)) (.of (some pc')) := by
  cases WarpServer.cancelTransferOpRequest_move h with
  | refused req status _ => exact ⟨trivial, .refuses hrec⟩
  | found req transfer hfound _ =>
    obtain ⟨hcopy, howns, _⟩ := hrec.found hpc hfound
    exact ⟨⟨hcopy, Role.handlerState_of_owns howns⟩, .looks hrec⟩
  | updated transfer newState queued =>
    obtain ⟨⟨hk, hu⟩, rfl⟩ := hpc
    rw [hk, hu]
    exact ⟨trivial, .grants _ _ rfl
      (hrec.update queued _ (fun _ => x.peer.withdrawn) (fun _ h => h) fun _ => rfl)⟩

/-- A step of `accept_transfer` up to its update. -/
inductive AcceptView (o : Proposal) (st : TransferState) (ans : Answer) (host' : Host) :
    AcceptStage → AcceptStage → Prop
  | asks : o.Record .receiver host' st → AcceptView o st ans host' .before .asking
  | fails : o.Record .receiver host' st → AcceptView o st ans host' .before .failed
  | answered :
      ans = .reply (.ok ()) → o.Record .receiver host' st →
      AcceptView o st ans host' .asking .answered
  | denied (status : Status) :
      ans = .reply (.error status) → o.Record .receiver host' st →
      AcceptView o st ans host' .asking .failed
  | accepts (queued : Nat) :
      ans = .go queued → o.Record .receiver host' .inProgress →
      AcceptView o st ans host' .answered (.receiving .inner)

theorem accept_view {pc pc' : Worker.AcceptPc} (hrec : o.Record .receiver host st)
    (hpc : o.Accepts pc)
    (h : (o.worker .receiver).acceptTransfer host pc ans = some (host', pc')) :
    o.Accepts pc' ∧ AcceptView o st ans host' (.of (some pc)) (.of (some pc')) := by
  cases Worker.acceptTransfer_move h with
  | refused u destination ans e => exact ⟨trivial, .fails hrec⟩
  | found u destination queued transfer hfound =>
    obtain ⟨hnames, _⟩ := hrec.request hpc hfound
    exact ⟨⟨hpc, hnames⟩, .asks hrec⟩
  | answered u destination req => exact ⟨hpc.1, .answered rfl hrec⟩
  | denied u destination req status => exact ⟨trivial, .denied status rfl hrec⟩
  -- the record is there, so this step cannot happen
  | lost u destination queued e hnone =>
    obtain rfl : u = o.transferUuid .receiver := hpc
    obtain ⟨_, _, hhas⟩ := hrec
    have hsome := hhas.isSome
    rw [hnone] at hsome
    cases hsome
  | accepted u destination queued token disk _ =>
    obtain rfl : u = o.transferUuid .receiver := hpc
    refine ⟨⟨rfl, rfl⟩, .accepts queued rfl (Proposal.Record.of_manager ?_ rfl)⟩
    -- the update assigns the destination too
    exact hrec.update queued (.accept destination) (fun _ => .inProgress) (fun _ _ => trivial)
      fun _ => rfl

/-- A step of `start_transfer` up to its update. -/
inductive StartView (o : Proposal) (st : TransferState) (pc : WarpServer.StartPc) (host' : Host) :
    StartStage → StartStage → Prop
  | looks : o.Record .sender host' st → StartView o st pc host' .working .working
  | fails : o.Record .sender host' st → StartView o st pc host' .working .failed
  | starts (t : Transfer) (sourcePaths : List PathBuf) (token : TokenId) :
      pc = .update t sourcePaths token → o.Record .sender host' .inProgress →
      StartView o st pc host' .working (.sending .inner)

theorem start_view {pc pc' : WarpServer.StartPc} (hrec : o.Record .sender host st)
    (hpc : o.Starts pc) (h : WarpServer.startTransfer host pc ans = some (host', pc')) :
    o.Starts pc' ∧ StartView o st pc host' (.of (some pc)) (.of (some pc')) := by
  cases WarpServer.startTransfer_move h with
  | refused req status _ => exact ⟨trivial, .fails hrec⟩
  | found req transfer sourcePaths token hfound =>
    obtain ⟨hcopy, _⟩ := hrec.found hpc hfound
    exact ⟨hcopy, .looks hrec⟩
  | lost transfer sourcePaths token status _ => exact ⟨trivial, .fails hrec⟩
  | started transfer sourcePaths token queued sources _ =>
    obtain ⟨hk, hu⟩ := hpc
    rw [hk, hu]
    exact ⟨⟨rfl, rfl⟩, .starts _ _ _ rfl
      (hrec.update queued _ (fun _ => .inProgress) (fun _ h => h) fun _ => rfl)⟩

end views

/-! ## Section 4: The hosts follow the protocol -/

/-- Both records are there, and the calls and handlers are about them. -/
structure Proposal.Wired (o : Proposal) (s : Negotiation) : Prop where
  record : ∀ x, ∃ st, o.Record x (s.side x).host st
  cancel : ∀ x pc, (s.side x).cancel = some pc → o.Withdraws x pc
  handler : ∀ x pc, (s.side x).handler = some pc → o.Handles x pc
  accept : ∀ pc, s.accept = some pc → o.Accepts pc
  start : ∀ pc, s.start = some pc → o.Starts pc

section refinement

variable {o : Proposal} {s s' : Negotiation} {x : Role} {side : Side} {ans : Answer}

theorem snapshot_put (o : Proposal) (s : Negotiation) (x : Role) (side : Side) :
    o.snapshot (s.put x side) = (o.snapshot s).put x
      { cancel := .of side.cancel
        handler := .of side.handler
        state := o.stateOf x side.host } := by
  simp only [Proposal.snapshot, Snapshot.put, Snapshot.mk.injEq]
  refine ⟨funext fun y => ?_, rfl, rfl⟩
  rcases x.eq_or_eq_peer y with rfl | rfl
  · simp [Proposal.state]
  · simp [Proposal.state, Function.update_of_ne x.peer_ne]

theorem Proposal.Wired.put (h : o.Wired s) (hrec : ∃ st, o.Record x side.host st)
    (hcancel : ∀ pc, side.cancel = some pc → o.Withdraws x pc)
    (hhandler : ∀ pc, side.handler = some pc → o.Handles x pc) : o.Wired (s.put x side) := by
  refine ⟨fun y => ?_, fun y => ?_, fun y => ?_, h.accept, h.start⟩
  · rcases x.eq_or_eq_peer y with rfl | rfl
    · simpa using hrec
    · simpa using h.record x.peer
  · rcases x.eq_or_eq_peer y with rfl | rfl
    · simpa using hcancel
    · simpa using h.cancel x.peer
  · rcases x.eq_or_eq_peer y with rfl | rfl
    · simpa using hhandler
    · simpa using h.handler x.peer

theorem Proposal.Wired.host (h : o.Wired s) {host : Host} {st : TransferState}
    (hrec : o.Record x host st) : o.Wired (s.put x { s.side x with host := host }) :=
  h.put ⟨st, hrec⟩ (h.cancel x) (h.handler x)

/-- The hosts follow the protocol with this step, or do nothing that it sees. -/
def Proposal.Follows (o : Proposal) (s s' : Negotiation) : Prop :=
  o.Wired s' ∧ (o.snapshot s' = o.snapshot s ∨ (o.snapshot s).Step (o.snapshot s'))

theorem stepCancel_follows (hs : o.Wired s)
    (hreply : ∀ result, ans = .reply result →
      (s.side x.peer).handler = some (.returned result))
    (hC : ∀ u st queued, (s.side x).cancel = some (.update u st) → ans = .go queued →
      o.state s x = some .waitingPermission)
    (h : o.stepCancel s x ans = some s') : o.Follows s s' := by
  obtain ⟨pc, hpc, h⟩ := Option.bind_eq_some_iff.1 h
  obtain ⟨⟨host', pc'⟩, hstep, heq⟩ := Option.map_eq_some_iff.1 h
  cases heq
  obtain ⟨st, hrec⟩ := hs.record x
  obtain ⟨hpc', hview⟩ := cancel_view hrec (hs.cancel x pc hpc) hstep
  have hput : ∀ {st'}, o.Record x host' st' → o.Wired (s.put x
      { s.side x with host := host', cancel := some pc' }) := by
    intro st' hrec'
    refine hs.put ⟨st', hrec'⟩ (fun pc₁ heq => ?_) (hs.handler x)
    cases heq
    exact hpc'
  have hbefore : ((o.snapshot s).view x).cancel = .of (some pc) := congrArg CallStage.of hpc
  have hstate : ((o.snapshot s).view x).state = some st := hrec.stateOf
  have hreplied : ∀ result, ans = .reply result →
      ((o.snapshot s).view x.peer).handler = .of (some (.returned result)) :=
    fun result heq => congrArg HandlerStage.of (hreply result heq)
  -- orderliness is about the program point, the protocol's step about the stage
  have hwaits : ∀ queued, CallStage.of (some pc) = .answered → ans = .go queued →
      ((o.snapshot s).view x).state = some .waitingPermission := by
    intro queued hstage
    cases pc with
    | update u st => exact hC u st queued hpc
    | returned result => cases result <;> cases hstage
    | _ => cases hstage
  unfold Proposal.Follows
  rw [snapshot_put]
  show _ ∧ ((o.snapshot s).put x { (o.snapshot s).view x with
    cancel := .of (some pc'), state := o.stateOf x host' } = _ ∨ (o.snapshot s).Step
      ((o.snapshot s).put x { (o.snapshot s).view x with
        cancel := .of (some pc'), state := o.stateOf x host' }))
  -- from here on only the stages matter
  generalize CallStage.of (some pc) = stage at hview hbefore hwaits
  generalize CallStage.of (some pc') = stage' at hview
  cases hview with
  -- the only step that the protocol does not see
  | stays hrec' =>
    rw [hrec'.stateOf, ← hstate, ← hbefore]
    exact ⟨hput hrec', .inl ((o.snapshot s).put_view x)⟩
  | asks hrec' =>
    rw [hrec'.stateOf, ← hstate]
    exact ⟨hput hrec', .inr (.asks x hbefore)⟩
  | fails hrec' =>
    rw [hrec'.stateOf, ← hstate]
    exact ⟨hput hrec', .inr (.fails x hbefore)⟩
  | answered hans hrec' =>
    rw [hrec'.stateOf, ← hstate]
    exact ⟨hput hrec', .inr (.answered x hbefore (hreplied _ hans))⟩
  | denied status hans hrec' =>
    rw [hrec'.stateOf, ← hstate]
    exact ⟨hput hrec', .inr (.denied x hbefore (hreplied _ hans))⟩
  | closes queued hans hrec' =>
    rw [hrec'.stateOf]
    exact ⟨hput hrec', .inr (.closes x hbefore (hwaits queued rfl hans))⟩

theorem stepHandler_follows {host' : Host} {pc pc' : WarpServer.CancelPc} (hs : o.Wired s)
    (hpc : (s.side x).handler = some pc)
    (hC : ∀ t st, pc = .update t st → o.state s x = some .waitingPermission)
    (h : WarpServer.cancelTransferOpRequest (s.side x).host pc ans = some (host', pc')) :
    o.Follows s (s.put x { s.side x with host := host', handler := some pc' }) := by
  obtain ⟨st, hrec⟩ := hs.record x
  obtain ⟨hpc', hview⟩ := handler_view hrec (hs.handler x pc hpc) h
  have hput : ∀ {st'}, o.Record x host' st' → o.Wired (s.put x
      { s.side x with host := host', handler := some pc' }) := by
    intro st' hrec'
    refine hs.put ⟨st', hrec'⟩ (hs.cancel x) fun pc₁ heq => ?_
    cases heq
    exact hpc'
  have hbefore : ((o.snapshot s).view x).handler = .of (some pc) := congrArg HandlerStage.of hpc
  have hstate : ((o.snapshot s).view x).state = some st := hrec.stateOf
  unfold Proposal.Follows
  rw [snapshot_put]
  show _ ∧ ((o.snapshot s).put x { (o.snapshot s).view x with
    handler := .of (some pc'), state := o.stateOf x host' } = _ ∨ (o.snapshot s).Step
      ((o.snapshot s).put x { (o.snapshot s).view x with
        handler := .of (some pc'), state := o.stateOf x host' }))
  -- from here on only the stages matter
  generalize HandlerStage.of (some pc) = stage at hview hbefore
  generalize HandlerStage.of (some pc') = stage' at hview
  cases hview with
  | looks hrec' =>
    rw [hrec'.stateOf, ← hstate, ← hbefore]
    exact ⟨hput hrec', .inl ((o.snapshot s).put_view x)⟩
  | refuses hrec' =>
    rw [hrec'.stateOf, ← hstate]
    exact ⟨hput hrec', .inr (.refuses x hbefore)⟩
  | grants t st' heq hrec' =>
    rw [hrec'.stateOf]
    exact ⟨hput hrec', .inr (.grants x hbefore (hC t st' heq))⟩

theorem Proposal.Wired.with_accept (h : o.Wired s) {pc : Worker.AcceptPc} (hpc : o.Accepts pc)
    (queue : List FileChunk) : o.Wired { s with accept := some pc, queue := queue } := by
  refine ⟨h.record, h.cancel, h.handler, fun pc' heq => ?_, h.start⟩
  cases heq
  exact hpc

theorem Proposal.Wired.with_start (h : o.Wired s) {pc : WarpServer.StartPc} (hpc : o.Starts pc)
    (queue : List FileChunk) : o.Wired { s with start := some pc, queue := queue } := by
  refine ⟨h.record, h.cancel, h.handler, h.accept, fun pc' heq => ?_⟩
  cases heq
  exact hpc

theorem Proposal.Wired.sends (h : o.Wired s) {host : Host} {st : TransferState}
    (hrec : o.Record .sender host st) {task : SendTask} (queue : List FileChunk)
    (hk : task.remoteUuid = (o.worker .sender).uuid)
    (hu : task.transferUuid = o.transferUuid .sender) :
    o.Wired { s.put .sender { s.side .sender with host := host } with
      start := some (.streaming task), queue := queue } := by
  have hpc : o.Starts (.streaming task) := ⟨hk, hu⟩
  exact (h.host hrec).with_start hpc queue

theorem Proposal.Wired.receives (h : o.Wired s) {host : Host} {st : TransferState}
    (hrec : o.Record .receiver host st) {task : ReceiveTask} (queue : List FileChunk)
    (hk : task.remoteUuid = (o.worker .receiver).uuid)
    (hu : task.transferUuid = o.transferUuid .receiver) :
    o.Wired { s.put .receiver { s.side .receiver with host := host } with
      accept := some (.receiving task), queue := queue } := by
  have hpc : o.Accepts (.receiving task) := ⟨hk, hu⟩
  exact (h.host hrec).with_accept hpc queue

theorem snapshot_host (o : Proposal) (s : Negotiation) (x : Role) (host : Host) :
    o.snapshot (s.put x { s.side x with host := host }) =
      (o.snapshot s).put x { (o.snapshot s).view x with state := o.stateOf x host } :=
  snapshot_put o s x _

theorem snapshot_accept (o : Proposal) (s : Negotiation) (host : Host) (pc : Worker.AcceptPc)
    (queue : List FileChunk) :
    o.snapshot { s.put .receiver { s.side .receiver with host := host } with
        accept := some pc, queue := queue } =
      { (o.snapshot s).put .receiver
          { (o.snapshot s).view .receiver with state := o.stateOf .receiver host } with
        accept := .of (some pc) } :=
  congrArg (fun p => { p with accept := AcceptStage.of (some pc) }) (snapshot_host o s _ host)

theorem snapshot_start (o : Proposal) (s : Negotiation) (host : Host) (pc : WarpServer.StartPc)
    (queue : List FileChunk) :
    o.snapshot { s.put .sender { s.side .sender with host := host } with
        start := some pc, queue := queue } =
      { (o.snapshot s).put .sender
          { (o.snapshot s).view .sender with state := o.stateOf .sender host } with
        start := .of (some pc) } :=
  congrArg (fun p => { p with start := StartStage.of (some pc) }) (snapshot_host o s _ host)

/-- A step of `accept_transfer` up to its update. -/
theorem stepCall_follows {host' : Host} {pc pc' : Worker.AcceptPc} (hs : o.Wired s)
    (hpc : s.accept = some pc)
    (hok : ans = .reply (.ok ()) → ∃ phase, (o.snapshot s).start = .sending phase)
    (herror : ∀ status, ans = .reply (.error status) → (o.snapshot s).start = .failed)
    (hC : ∀ u destination queued, pc = .update u destination → ans = .go queued →
      o.state s .receiver = some .waitingPermission)
    (h : (o.worker .receiver).acceptTransfer (s.side .receiver).host pc ans = some (host', pc'))
    (queue : List FileChunk) :
    o.Follows s { s.put .receiver { s.side .receiver with host := host' } with
      accept := some pc', queue := queue } := by
  obtain ⟨st, hrec⟩ := hs.record .receiver
  obtain ⟨hpc', hview⟩ := accept_view hrec (hs.accept pc hpc) h
  have hput : ∀ {st'}, o.Record .receiver host' st' →
      o.Wired { s.put .receiver { s.side .receiver with host := host' } with
        accept := some pc', queue := queue } :=
    fun hrec' => (hs.host hrec').with_accept hpc' queue
  have hbefore : (o.snapshot s).accept = .of (some pc) := congrArg AcceptStage.of hpc
  have hstate : ((o.snapshot s).view .receiver).state = some st := hrec.stateOf
  have hwaits : ∀ queued, AcceptStage.of (some pc) = .answered → ans = .go queued →
      ((o.snapshot s).view .receiver).state = some .waitingPermission := by
    intro queued hstage
    cases pc with
    | update u destination => exact hC u destination queued rfl
    | _ => cases hstage
  unfold Proposal.Follows
  rw [snapshot_accept]
  -- from here on only the stages matter
  generalize AcceptStage.of (some pc) = stage at hview hbefore hwaits
  generalize AcceptStage.of (some pc') = stage' at hview
  cases hview with
  | asks hrec' =>
    rw [hrec'.stateOf, ← hstate, Snapshot.put_view]
    exact ⟨hput hrec', .inr (.asksStart hbefore)⟩
  | fails hrec' =>
    rw [hrec'.stateOf, ← hstate, Snapshot.put_view]
    exact ⟨hput hrec', .inr (.failsStart hbefore)⟩
  | answered hans hrec' =>
    rw [hrec'.stateOf, ← hstate, Snapshot.put_view]
    obtain ⟨phase, hphase⟩ := hok hans
    exact ⟨hput hrec', .inr (.startAnswered phase hbefore hphase)⟩
  | denied status hans hrec' =>
    rw [hrec'.stateOf, ← hstate, Snapshot.put_view]
    exact ⟨hput hrec', .inr (.startDenied hbefore (herror status hans))⟩
  | accepts queued hans hrec' =>
    rw [hrec'.stateOf]
    exact ⟨hput hrec', .inr (.accepts hbefore (hwaits queued rfl hans))⟩

/-- A step of `start_transfer` up to its update. -/
theorem stepServe_follows {host' : Host} {pc pc' : WarpServer.StartPc} (hs : o.Wired s)
    (hpc : s.start = some pc)
    (hC : ∀ t sourcePaths token, pc = .update t sourcePaths token →
      o.state s .sender = some .waitingPermission)
    (h : WarpServer.startTransfer (s.side .sender).host pc ans = some (host', pc'))
    (queue : List FileChunk) :
    o.Follows s { s.put .sender { s.side .sender with host := host' } with
      start := some pc', queue := queue } := by
  obtain ⟨st, hrec⟩ := hs.record .sender
  obtain ⟨hpc', hview⟩ := start_view hrec (hs.start pc hpc) h
  have hput : ∀ {st'}, o.Record .sender host' st' →
      o.Wired { s.put .sender { s.side .sender with host := host' } with
        start := some pc', queue := queue } :=
    fun hrec' => (hs.host hrec').with_start hpc' queue
  have hbefore : (o.snapshot s).start = .of (some pc) := congrArg StartStage.of hpc
  have hstate : ((o.snapshot s).view .sender).state = some st := hrec.stateOf
  unfold Proposal.Follows
  rw [snapshot_start]
  -- from here on only the stages matter
  generalize StartStage.of (some pc) = stage at hview hbefore
  generalize StartStage.of (some pc') = stage' at hview
  cases hview with
  | looks hrec' =>
    rw [hrec'.stateOf, ← hstate, Snapshot.put_view, ← hbefore]
    exact ⟨hput hrec', .inl rfl⟩
  | fails hrec' =>
    rw [hrec'.stateOf, ← hstate, Snapshot.put_view]
    exact ⟨hput hrec', .inr (.refusesStart hbefore)⟩
  | starts t sourcePaths token heq hrec' =>
    rw [hrec'.stateOf]
    exact ⟨hput hrec', .inr (.starts hbefore (hC t sourcePaths token heq))⟩

theorem sendFinalState_isOutcome {result : Except TransferError Bool} {isCancelled : Bool}
    (h : sendFinalState result isCancelled ≠ .canceled) :
    IsOutcome (sendFinalState result isCancelled) := by
  refine ⟨sendFinalState_ne_waiting _ _, fun x => ?_⟩
  cases x with
  | sender => exact h
  | receiver =>
    unfold sendFinalState
    split
    · simp [Role.withdrawn]
    · split <;> simp [Role.withdrawn]
    · simp [Role.withdrawn]

theorem receiveFinalState_isOutcome {result : Except TransferError Bool}
    (h : receiveFinalState result ≠ .canceled) : IsOutcome (receiveFinalState result) := by
  refine ⟨receiveFinalState_ne_waiting _, fun x => ?_⟩
  cases x with
  | sender => exact h
  | receiver =>
    unfold receiveFinalState
    split <;> simp [Role.withdrawn]

/-- A step of the sending task. -/
theorem stepSend_follows {host' : Host} {task task' : SendTask} (hs : o.Wired s)
    (hpc : s.start = some (.streaming task)) (hC : o.DecidesWell s task)
    (h : task.step (s.side .sender).host ans = some (host', task')) (queue : List FileChunk) :
    o.Follows s { s.put .sender { s.side .sender with host := host' } with
      start := some (.streaming task'), queue := queue } := by
  obtain ⟨st, hrec⟩ := hs.record .sender
  obtain ⟨hk, hu⟩ := hs.start _ hpc
  have hbefore : (o.snapshot s).start = .sending task.phase := congrArg StartStage.of hpc
  have hstate : ((o.snapshot s).view .sender).state = some st := hrec.stateOf
  unfold Proposal.Follows
  rw [snapshot_start]
  cases SendTask.step_move h with
  -- progress is invisible to the protocol
  | inner l queued sender hphase _ _ =>
    have hrec' := hrec.recordProgress queued task.sender.progress sender.progress
    rw [← hk, ← hu] at hrec'
    refine ⟨hs.sends hrec' _ hk hu, .inl ?_⟩
    rw [hrec'.stateOf, ← hstate, Snapshot.put_view]
    exact congrArg (fun stage => { o.snapshot s with start := stage }) hbefore.symm
  | decide queued result hphase hreturned =>
    refine ⟨hs.sends hrec _ hk hu, .inr ?_⟩
    rw [hrec.stateOf, ← hstate, Snapshot.put_view]
    rw [hphase] at hbefore
    unfold Proposal.DecidesWell at hC
    rw [hphase, hreturned] at hC
    exact .decides _ hbefore (sendFinalState_isOutcome hC.1) hC.2
  | close queued finalState hphase =>
    have hrec' := hrec.update queued (.finishSend finalState) (fun _ => finalState) (fun _ h => h)
      fun _ => rfl
    rw [← hk, ← hu] at hrec'
    refine ⟨hs.sends hrec' _ hk hu, .inr ?_⟩
    rw [hrec'.stateOf]
    rw [hphase] at hbefore
    exact .finishesSending finalState hbefore
  | leave queued hphase =>
    refine ⟨hs.sends hrec _ hk hu, .inr ?_⟩
    rw [hrec.stateOf, ← hstate, Snapshot.put_view]
    rw [hphase] at hbefore
    exact .leaves hbefore

/-- A step of the receiving task. -/
theorem stepReceive_follows {host' : Host} {task task' : ReceiveTask} (hs : o.Wired s)
    (hsound : (o.snapshot s).Sound) (hpc : s.accept = some (.receiving task))
    (hC : o.StopsWell s task ans)
    (h : task.step (s.side .receiver).host ans = some (host', task')) (queue : List FileChunk) :
    o.Follows s { s.put .receiver { s.side .receiver with host := host' } with
      accept := some (.receiving task'), queue := queue } := by
  obtain ⟨st, hrec⟩ := hs.record .receiver
  obtain ⟨hk, hu⟩ := hs.accept _ hpc
  have hbefore : (o.snapshot s).accept = .receiving task.phase := congrArg AcceptStage.of hpc
  have hstate : ((o.snapshot s).view .receiver).state = some st := hrec.stateOf
  unfold Proposal.Follows
  rw [snapshot_accept]
  cases ReceiveTask.step_move h with
  -- progress is invisible to the protocol
  | again event fault queued r hphase _ _ =>
    have hrec' := hrec.recordProgress queued task.receiver.progress r.progress
    rw [← hk, ← hu] at hrec'
    refine ⟨hs.receives hrec' _ hk hu, .inl ?_⟩
    rw [hrec'.stateOf, ← hstate, Snapshot.put_view]
    exact congrArg (fun stage => { o.snapshot s with accept := stage }) hbefore.symm
  | leave event fault queued result r hphase _ hround =>
    refine ⟨hs.receives hrec _ hk hu, .inr ?_⟩
    rw [hrec.stateOf, ← hstate, Snapshot.put_view]
    rw [hphase] at hbefore
    simp only [Proposal.StopsWell, hround] at hC
    exact .stops _ hbefore (receiveFinalState_isOutcome hC.1) hC.2.1 hC.2.2
  | panic event fault queued r hphase _ hround =>
    refine ⟨hs.receives hrec _ hk hu, .inr ?_⟩
    rw [hrec.stateOf, ← hstate, Snapshot.put_view]
    rw [hphase] at hbefore
    simp only [Proposal.StopsWell, hround] at hC
    exact .panics hbefore hC
  | close queued finalState hphase =>
    rw [hphase] at hbefore
    -- nobody else has written the record while the task has streamed
    obtain ⟨_, _, hprogress, _⟩ := (hsound.cause .receiver).receiving hbefore
    obtain rfl : st = .inProgress := by simpa [hstate] using hprogress
    have hrec' := hrec.update queued (.finishReceive finalState)
      (fun s => if s = .stopped ∨ s = .canceled then s else finalState) (fun _ h => h)
      fun t => finishReceive_state finalState t
    rw [← hk, ← hu] at hrec'
    refine ⟨hs.receives hrec' _ hk hu, .inr ?_⟩
    rw [hrec'.stateOf]
    exact .finishesReceiving finalState hbefore hprogress

theorem stepAccept_follows (hs : o.Wired s) (hsound : (o.snapshot s).Sound)
    (hok : ans = .reply (.ok ()) → ∃ phase, (o.snapshot s).start = .sending phase)
    (herror : ∀ status, ans = .reply (.error status) → (o.snapshot s).start = .failed)
    (hupdate : ∀ u destination queued, s.accept = some (.update u destination) →
      ans = .go queued → o.state s .receiver = some .waitingPermission)
    (hstops : ∀ task, s.accept = some (.receiving task) → o.StopsWell s task ans)
    (h : o.stepAccept s ans = some s') : o.Follows s s' := by
  unfold Proposal.stepAccept at h
  split at h
  · cases h
  · next task hpc =>
    obtain ⟨queue, _, h⟩ := Option.bind_eq_some_iff.1 h
    obtain ⟨⟨host', task'⟩, hstep, heq⟩ := Option.map_eq_some_iff.1 h
    cases heq
    exact stepReceive_follows hs hsound hpc (hstops task hpc) hstep queue
  · next pc _ hpc =>
    obtain ⟨⟨host', pc'⟩, hstep, heq⟩ := Option.map_eq_some_iff.1 h
    cases heq
    refine stepCall_follows hs hpc hok herror (fun u destination queued heq hans => ?_)
      hstep s.queue
    exact hupdate u destination queued (heq ▸ hpc) hans

/-- An orderly step of the hosts follows the protocol. -/
theorem negotiation_follows {l : NegotiationLabel} (hs : o.Wired s) (hsound : (o.snapshot s).Sound)
    (hC : o.Orderly s l) (h : o.step s l = some s') : o.Follows s s' := by
  cases l with
  | cancel x ans =>
    simp only [Proposal.step] at h
    split at h
    · cases h
    · next hans =>
      refine stepCancel_follows hs (fun result heq => ?_) (fun u st queued hpc _ => ?_) h
      · rw [heq] at hans
        exact absurd rfl hans
      · simpa [Proposal.Orderly, hpc] using hC
  -- the request on the wire becomes the argument of the peer's handler
  | deliverCancel x =>
    simp only [Proposal.step] at h
    split at h
    · next u st req hpc habsent =>
      cases h
      refine ⟨hs.put (hs.record x.peer) (hs.cancel x.peer) fun pc heq => ?_, .inr ?_⟩
      · cases heq
        exact (hs.cancel x _ hpc).2.2
      · rw [snapshot_put]
        exact .arrives x (congrArg CallStage.of hpc) (congrArg HandlerStage.of habsent)
    · cases h
  | handle x ans =>
    obtain ⟨pc, hpc, h⟩ := Option.bind_eq_some_iff.1 h
    obtain ⟨⟨host', pc'⟩, hstep, heq⟩ := Option.map_eq_some_iff.1 h
    cases heq
    refine stepHandler_follows hs hpc (fun t st heq => ?_) hstep
    simpa [Proposal.Orderly, hpc, heq] using hC
  -- what the handler has returned is the answer of the call
  | replyCancel x =>
    simp only [Proposal.step] at h
    split at h
    · next result hpc =>
      refine stepCancel_follows hs (fun result' heq => ?_) (fun _ _ _ _ hgo => by cases hgo) h
      cases heq
      exact hpc
    · cases h
  | accept ans =>
    simp only [Proposal.step] at h
    split at h
    · cases h
    · next hans =>
      have hreply : ∀ result, ans ≠ .reply result := by
        intro result heq
        rw [heq] at hans
        exact absurd rfl hans
      refine stepAccept_follows hs hsound (fun heq => absurd heq (hreply _))
        (fun status heq => absurd heq (hreply _)) (fun u destination queued hpc _ => ?_)
        (fun task hpc => ?_) h
      · simpa [Proposal.Orderly, hpc] using hC
      · simpa [Proposal.Orderly, hpc] using hC
  -- the request on the wire becomes the argument of `start_transfer`
  | deliverStart =>
    simp only [Proposal.step] at h
    split at h
    · next u destination req hpc habsent =>
      cases h
      have hreq : o.Starts (.lookup req) := (hs.accept _ hpc).2
      refine ⟨hs.with_start hreq s.queue, .inr ?_⟩
      exact .startArrives (congrArg AcceptStage.of hpc) (congrArg StartStage.of habsent)
    · cases h
  | start ans =>
    simp only [Proposal.step, Negotiation.stepStart] at h
    split at h
    · cases h
    · next task hpc =>
      split at h
      · obtain ⟨⟨host', task'⟩, hstep, heq⟩ := Option.map_eq_some_iff.1 h
        cases heq
        simp only [Proposal.Orderly, hpc] at hC
        exact stepSend_follows hs hpc hC hstep _
      · cases h
    · next pc _ hpc =>
      obtain ⟨⟨host', pc'⟩, hstep, heq⟩ := Option.map_eq_some_iff.1 h
      cases heq
      refine stepServe_follows hs hpc (fun t sourcePaths token heq => ?_) hstep s.queue
      simpa [Proposal.Orderly, hpc, heq] using hC
  -- a stream or a status, depending on how `start_transfer` has ended
  | replyStart =>
    simp only [Proposal.step] at h
    split at h
    · next task hpc =>
      refine stepAccept_follows hs hsound (fun _ => ⟨task.phase, congrArg StartStage.of hpc⟩)
        (fun status heq => by cases heq) (fun _ _ _ _ hgo => by cases hgo) ?_ h
      exact fun _ _ => trivial
    · next status hpc =>
      refine stepAccept_follows hs hsound (fun heq => by cases heq)
        (fun status' _ => congrArg StartStage.of hpc) (fun _ _ _ _ hgo => by cases hgo) ?_ h
      exact fun _ _ => trivial
    · cases h

end refinement

/-! ## Section 5: Runs -/

section runs

variable {o : Proposal} {s : Negotiation}

theorem Proposal.wired_start (o : Proposal) : o.Wired o.start := by
  refine ⟨fun x => ⟨_, o.kind x, o.owns x, o.record x⟩, fun x pc hpc => ?_, fun x pc hpc => ?_,
    fun pc hpc => ?_, fun pc hpc => ?_⟩
  · simp only [Proposal.start, Option.ite_none_right_eq_some, Option.some.injEq] at hpc
    obtain ⟨_, rfl⟩ := hpc
    rfl
  · cases hpc
  · obtain ⟨destination, _, rfl⟩ := Option.map_eq_some_iff.1 hpc
    rfl
  · cases hpc

theorem Proposal.sound_start (o : Proposal) : (o.snapshot o.start).Sound := by
  have hcancel : ∀ x, ((o.snapshot o.start).view x).cancel = .before := by
    intro x
    show CallStage.of (if o.cancels x then _ else none) = .before
    split <;> rfl
  have haccept : (o.snapshot o.start).accept = .before := by
    show AcceptStage.of (o.accepts.map _) = .before
    cases o.accepts <;> rfl
  have hstate : ∀ x, ((o.snapshot o.start).view x).state = some .waitingPermission :=
    fun x => (o.record x).stateOf
  refine ⟨fun x => ?_, ?_, fun x => ?_, fun hr => ?_, fun hs => ?_⟩
  · rw [hcancel]
    rfl
  · rw [haccept]
    rfl
  · refine .waiting (by simp [hcancel])
      (by simp [Proposal.snapshot, Proposal.start, HandlerStage.of])
      ?_ (hstate x)
    cases x with
    | sender => exact fun phase => by simp [Proposal.snapshot, Proposal.start, StartStage.of]
    | receiver => exact fun phase => by simp [haccept]
  · rcases hr with hclosing | hcompleted
    · rw [haccept] at hclosing
      cases hclosing
    · rw [hstate] at hcompleted
      cases hcompleted
  · rcases hs with hclosing | hcompleted
    · cases hclosing
    · rw [hstate] at hcompleted
      cases hcompleted

/-- Nothing is left on the hosts, so nothing is left of the protocol. -/
theorem Negotiation.Quiet.snapshot (h : s.Quiet) (o : Proposal) : (o.snapshot s).Quiet := by
  refine ⟨fun x => ?_, ?_, fun phase hphase => ?_⟩
  · show CallStage.of (s.side x).cancel ≠ .asking ∧ CallStage.of (s.side x).cancel ≠ .answered
    cases hpc : (s.side x).cancel with
    | none => exact ⟨by decide, by decide⟩
    | some pc =>
      obtain ⟨result, rfl⟩ := h.cancel x pc hpc
      cases result <;> exact ⟨by simp [CallStage.of], by simp [CallStage.of]⟩
  · show AcceptStage.of s.accept = _ ∨ AcceptStage.of s.accept = _ ∨ AcceptStage.of s.accept = _ ∨
      AcceptStage.of s.accept = _
    cases hpc : s.accept with
    | none => exact .inl rfl
    | some pc =>
      rcases h.accept pc hpc with ⟨e, rfl⟩ | ⟨task, rfl, hdone | hpanicked⟩
      · exact .inr (.inl rfl)
      · exact .inr (.inr (.inl (congrArg AcceptStage.receiving hdone)))
      · exact .inr (.inr (.inr (congrArg AcceptStage.receiving hpanicked)))
  · have hstage : StartStage.of s.start = .sending phase := hphase
    cases hpc : s.start with
    | none => rw [hpc] at hstage; cases hstage
    | some pc =>
      rw [hpc] at hstage
      rcases h.start pc hpc with ⟨status, rfl⟩ | ⟨task, rfl, hdone⟩
      · cases hstage
      · cases hstage
        exact hdone

/-- The records agree once nothing is left, in every run whose updates find
    their records waiting and whose streaming tasks end alike. -/
theorem agrees_of_orderly (o : Proposal) {ls : List NegotiationLabel} {s : Negotiation}
    (hrun : o.negotiation.exec o.start ls = some s)
    (horderly : o.negotiation.Along o.Orderly o.start ls) (hquiet : s.Quiet) : o.Agrees s := by
  have hkept : o.Wired s ∧ (o.snapshot s).Sound := by
    refine o.negotiation.exec_invariant_along (I := fun s => o.Wired s ∧ (o.snapshot s).Sound)
      (fun s l s' hC hI hstep => ?_) ⟨o.wired_start, o.sound_start⟩ horderly hrun
    obtain ⟨hwired, hsame | hfollows⟩ := negotiation_follows hI.1 hI.2 hC hstep
    · exact ⟨hwired, hsame ▸ hI.2⟩
    · exact ⟨hwired, hfollows.sound hI.2⟩
  have hagrees := hkept.2.agrees (hquiet.snapshot o)
  exact ⟨hagrees .canceled (.inl rfl), hagrees .denied (.inr (.inl rfl)),
    hagrees .completed (.inr (.inr rfl))⟩

end runs

/-- A file of one byte that `a` offers to `b`. -/
def offeredFile (cancels : Role → Bool) (accepts : Option PathBuf) : Proposal where
  host
    | .sender =>
      { Host.single "b" (.bare "out" "b" .waitingPermission
          (.outgoing [OsString.ofString "/f"] [0])) with files := fun _ => .file [7] none }
    | .receiver =>
      { Host.single "a"
          (.bare "in" "a" .waitingPermission (.incoming (OsString.ofString "/d"))) with
        disk := emptyTree (OsString.ofString "/d") }
  worker
    | .sender => { uuid := "b", serverFullname := "a", cancellationToken := [] }
    | .receiver => { uuid := "a", serverFullname := "b", cancellationToken := [] }
  transferUuid
    | .sender => "out"
    | .receiver => "in"
  protocolId := 0
  kind
    | .sender => .outgoing [OsString.ofString "/f"] [0]
    | .receiver => .incoming (OsString.ofString "/d")
  cancels := cancels
  accepts := accepts
  knows := fun x => by cases x <;> rfl
  owns := fun x => by cases x <;> trivial
  record := fun x => by
    cases x
    · exact ⟨_, ⟨rfl, rfl⟩, rfl, rfl, rfl⟩
    · exact ⟨_, ⟨rfl, rfl⟩, rfl, rfl, rfl⟩

/-- `b` accepts, and the byte is received. -/
def acceptedRun : List NegotiationLabel :=
  [.accept (.go 0), .deliverStart, .start (.go 0), .start (.go 0), .replyStart, .accept (.go 0),
    .start (.send (.poll false) 0), .start (.send (.io none) 0), .start (.send (.io none) 0),
    .start (.send (.poll false) 0), .start (.send (.read (.ok 1)) 0), .start (.send (.send true) 0),
    .accept (.receive (.message (.good 1) (.ofFile "f" none [7])) none 0),
    .start (.send (.progress 1) 0), .start (.send (.poll false) 0),
    .start (.send (.read (.ok 0)) 0), .start (.go 0), .start (.go 0), .start (.go 0),
    .accept (.receive .endOfStream none 0), .accept (.go 0)]

theorem agrees_acceptedRun :
    ∃ s, (offeredFile (fun _ => false) (some (OsString.ofString "/d"))).negotiation.exec
        (offeredFile (fun _ => false) (some (OsString.ofString "/d"))).start acceptedRun = some s ∧
      (offeredFile (fun _ => false) (some (OsString.ofString "/d"))).Agrees s := by
  refine ⟨_, rfl, @agrees_of_orderly _ acceptedRun _ rfl (by decide) ⟨fun x pc hpc => ?_,
    fun x pc hpc => ?_, fun pc hpc => ?_, fun pc hpc => ?_⟩⟩
  · cases x <;> cases hpc
  · cases x <;> cases hpc
  · cases hpc
    exact .inr ⟨_, rfl, .inl rfl⟩
  · cases hpc
    exact .inr ⟨_, rfl, rfl⟩

/-- Both cancel, and the requests cross on the wire: each handler still finds
    the transfer waiting. -/
def crossingCancels : List NegotiationLabel :=
  [.cancel .sender (.go 0), .cancel .sender (.go 0), .cancel .receiver (.go 0),
    .deliverCancel .sender, .deliverCancel .receiver,
    .handle .receiver (.go 0), .handle .receiver (.go 0),
    .handle .sender (.go 0), .handle .sender (.go 0),
    .replyCancel .sender, .replyCancel .receiver,
    .cancel .sender (.go 0), .cancel .receiver (.go 0)]

theorem crossing_cancels_disagree :
    ∃ s, (offeredFile (fun _ => true) none).negotiation.exec
        (offeredFile (fun _ => true) none).start crossingCancels = some s ∧ s.Quiet ∧
      (offeredFile (fun _ => true) none).state s .sender = some .canceled ∧
      (offeredFile (fun _ => true) none).state s .receiver = some .denied ∧
      ¬ (offeredFile (fun _ => true) none).Agrees s := by
  refine ⟨_, rfl, ⟨fun x pc hpc => ?_, fun x pc hpc => ?_, fun pc hpc => ?_, fun pc hpc => ?_⟩,
    by decide, by decide, fun hagrees => ?_⟩
  · cases x <;> cases hpc <;> exact ⟨_, rfl⟩
  · cases x <;> cases hpc <;> exact ⟨_, rfl⟩
  · cases hpc
  · cases hpc
  · have hcanceled := hagrees.1.1 (by decide)
    revert hcanceled
    decide

end Warpinator
