import Warpinator.Negotiation.Finished
import Warpinator.Transfers.Delivery
import Warpinator.Transfers.Stopping
import Warpinator.Transfers.Truncation

/-! # Transfers Come to an End

    A transfer that both sides have in progress, whatever the file systems, the
    tokens and the connection do.

    `work` bounds the steps that a sender has left, so neither task runs for
    ever (`SendMove.work_lt`), and until both are over, one of them can go on
    (`Link.goes_on`): no task waits for the other in vain.  In the end each side
    has recorded how the transfer ended. -/

namespace Warpinator

/-! ## Section 1: The work of a sender -/

/-- One poll, one read, one chunk and one progress update for a byte at most;
    the file is opened, polled and read once more at its end. -/
def fileWork (bytes : List UInt8) : Nat := 4 * bytes.length + 3

def EntryKind.work : EntryKind → Nat
  | .file bytes _ => fileWork bytes
  | .dir => 1
  | .other => 0

/-- An entry is yielded, polled for and looked at. -/
def WalkEntry.work (e : WalkEntry) : Nat := e.kind.work + 3

def walkWork (entries : List WalkEntry) : Nat := (entries.map WalkEntry.work).sum + 2

def SourceKind.work : SourceKind → Nat
  | .file bytes _ => fileWork bytes
  | .dir walk => walkWork walk
  | .other => 0

def Source.work (s : Source) : Nat := s.kind.work + 2

def sourcesWork (sources : List Source) : Nat := (sources.map Source.work).sum

def SendCont.work : SendCont → Nat
  | .nextSource rest => sourcesWork rest
  | .nextEntry _ entries rest => walkWork entries + sourcesWork rest

/-- The steps that a program point has left at most. -/
def SendPc.work : SendPc → Nat
  | .sourcePoll source rest => source.kind.work + sourcesWork rest + 2
  | .sourceMetadata _ source rest => source.kind.work + sourcesWork rest + 1
  | .walkNext _ entries rest => walkWork entries + sourcesWork rest
  | .walkPoll _ (some e) entries rest => e.kind.work + (walkWork entries + sourcesWork rest) + 2
  -- an error item ends the task
  | .walkPoll _ none _ _ => 1
  | .entryMetadata _ e entries rest => e.kind.work + (walkWork entries + sourcesWork rest) + 1
  | .sendDir _ cont => cont.work + 1
  | .openFile f cont => fileWork f.remaining + cont.work
  | .filePoll f cont => 4 * f.remaining.length + cont.work + 2
  | .readFile f cont => 4 * f.remaining.length + cont.work + 1
  | .sendFile _ f cont => 4 * f.remaining.length + cont.work + 4
  | .progress _ f cont => 4 * f.remaining.length + cont.work + 3
  | .returned _ => 0

theorem sourceLoop_work (rest : List Source) : (sourceLoop rest).work = sourcesWork rest := by
  cases rest with
  | nil => rfl
  | cons s rest =>
    simp only [sourceLoop, SendPc.work, sourcesWork, List.map_cons, List.sum_cons, Source.work]
    omega

theorem resume_work (cont : SendCont) : cont.resume.work = cont.work := by
  cases cont with
  | nextSource rest => exact sourceLoop_work rest
  | nextEntry base entries rest => rfl

theorem enterSource_work (base : Path) (source : Source) (rest : List Source) :
    (enterSource base source rest).work = source.kind.work + sourcesWork rest := by
  unfold enterSource
  cases source.kind with
  | file bytes modified => rfl
  | dir walk => rfl
  | other =>
    show (sourceLoop rest).work = 0 + sourcesWork rest
    rw [sourceLoop_work]
    omega

theorem enterEntry_work (base : Path) (e : WalkEntry) (entries : List WalkEntry)
    (rest : List Source) :
    (enterEntry base e entries rest).work
      = e.kind.work + (walkWork entries + sourcesWork rest) := by
  unfold enterEntry
  cases e.kind with
  | file bytes modified => rfl
  | dir => simp only [SendPc.work, SendCont.work, EntryKind.work]; omega
  | other => simp only [SendPc.work, EntryKind.work]; omega

/-- Every step is work done, also the ones that leave a loop early. -/
theorem SendMove.work_lt {pc pc' : SendPc} {l : SendLabel} {cs : List FileChunk}
    (h : SendMove pc l pc' cs) : pc'.work < pc.work := by
  cases h with
  | sourceEntered base source rest =>
    rw [enterSource_work]
    simp only [SendPc.work]
    omega
  | walkDone base rest =>
    rw [sourceLoop_work]
    simp [SendPc.work, walkWork]
  | walkItem base e entries rest =>
    simp only [SendPc.work, walkWork, List.map_cons, List.sum_cons, WalkEntry.work]
    omega
  | walkCancelled base item entries rest => cases item <;> simp [SendPc.work]
  | entryEntered base e entries rest =>
    rw [enterEntry_work]
    simp only [SendPc.work]
    omega
  | dirSent chunk cont => rw [resume_work]; simp only [SendPc.work]; omega
  | fileCancelled file cont => rw [resume_work]; simp only [SendPc.work]; omega
  | readEof file cont hrem => rw [resume_work]; simp only [SendPc.work]; omega
  -- a read takes at least one byte off the file
  | readBytes file cont n hpos hchunk hlen =>
    simp only [SendPc.work, FileLoop.advance, List.length_drop]
    omega
  | _ => simp [SendPc.work, fileWork, walkWork]; try omega

/-- A step hands over one chunk at most, and that only if `tx` takes it. -/
theorem SendMove.hands_one {pc pc' : SendPc} {l : SendLabel} {cs : List FileChunk}
    (h : SendMove pc l pc' cs) : cs.length ≤ 1 ∧ (l ≠ .send true → cs = []) := by
  cases h <;> simp

/-- No file system call fails. -/
def SendLabel.faultless : SendLabel → Bool
  | .poll _ => true
  | .send _ => true
  | l => l.undisturbed

/-- The answers are what the token and `tx` say. -/
def SendLabel.suits (cancelled accepted : Bool) : SendLabel → Bool
  | .poll c => c == cancelled
  | .send a => a == accepted
  | _ => true

/-- Until it has returned, a sender has a step without a failure, whatever its
    token and `tx` say. -/
theorem sendStep_goes_on (s : Sender) (cancelled accepted : Bool)
    (hpc : ∀ result, s.pc ≠ .returned result) :
    ∃ l s', l.faultless = true ∧ l.suits cancelled accepted = true ∧ sendStep s l = some s' := by
  obtain ⟨pc, speed, handed, progress⟩ := s
  -- the label of the step, and that there is one
  have one : ∀ l : SendLabel, l.faultless = true → l.suits cancelled accepted = true →
      (sendStep ⟨pc, speed, handed, progress⟩ l).isSome →
      ∃ l s', l.faultless = true ∧ l.suits cancelled accepted = true ∧
        sendStep ⟨pc, speed, handed, progress⟩ l = some s' := by
    intro l hfault hsuits hsome
    obtain ⟨s', hs'⟩ := Option.isSome_iff_exists.1 hsome
    exact ⟨l, s', hfault, hsuits, hs'⟩
  cases pc with
  | sourcePoll source rest =>
    refine one (.poll cancelled) rfl (by simp [SendLabel.suits]) ?_
    cases cancelled with
    | true => simp [sendStep]
    | false => cases hparent : LexPath.parent source.path.components <;> simp [sendStep, hparent]
  | sourceMetadata base source rest =>
    exact one (.io none) rfl rfl (by simp [sendStep])
  | walkNext base entries rest =>
    exact one (.next false) rfl rfl (by cases entries <;> simp [sendStep])
  | walkPoll base item entries rest =>
    refine one (.poll cancelled) rfl (by simp [SendLabel.suits]) ?_
    cases cancelled <;> cases item <;> simp [sendStep]
  | entryMetadata base e entries rest =>
    exact one (.io none) rfl rfl (by simp [sendStep])
  | sendDir chunk cont =>
    exact one (.send accepted) rfl (by simp [SendLabel.suits])
      (by cases accepted <;> simp [sendStep])
  | openFile file cont => exact one (.io none) rfl rfl (by simp [sendStep])
  | filePoll file cont =>
    refine one (.poll cancelled) rfl (by simp [SendLabel.suits]) ?_
    cases cancelled <;> simp [sendStep]
  | readFile file cont =>
    -- the end of the file, or its next byte
    cases hrem : file.remaining with
    | nil => exact one (.read (.ok 0)) rfl rfl (by simp [sendStep, hrem])
    | cons b bs =>
      exact one (.read (.ok 1)) rfl rfl (by simp [sendStep, hrem, chunkSize])
  | sendFile chunk file cont =>
    exact one (.send accepted) rfl (by simp [SendLabel.suits])
      (by cases accepted <;> simp [sendStep])
  | progress bytes file cont => exact one (.progress 0) rfl rfl (by simp [sendStep])
  | returned result => exact absurd rfl (hpc result)

/-! ## Section 2: The work of the two tasks -/

def SendPhase.left : SendPhase → Nat
  | .inner => 3
  | .closing _ => 2
  | .leaving => 1
  | .done => 0

def ReceivePhase.left : ReceivePhase → Nat
  | .inner => 2
  | .closing _ => 1
  | .done => 0
  | .panicked => 0

/-- The steps that the two tasks have left at most.  A step of the sender may
    add one for the receiver. -/
def Link.work (s : Link) : Nat :=
  2 * (s.sendTask.sender.pc.work + s.sendTask.phase.left) + s.queue.length
    + s.receiveTask.phase.left

def LinkLabel.isTask : LinkLabel → Bool
  | .send _ | .receive _ => true
  | .cancelSender _ | .cancelReceiver _ | .lose => false

theorem SendTask.step_work {host host' : Host} {task task' : SendTask} {ans : Answer}
    (h : task.step host ans = some (host', task')) :
    (task'.sender.handed.drop task.sender.handed.length).length ≤ 1 ∧
      task'.sender.pc.work + task'.phase.left < task.sender.pc.work + task.phase.left := by
  cases SendTask.step_move h with
  | inner l queued sender hphase _ hsend =>
    obtain ⟨cs, hhanded, hmove⟩ := sendStep_move hsend
    have hlt := hmove.work_lt
    refine ⟨?_, by dsimp only; omega⟩
    show (sender.handed.drop _).length ≤ 1
    rw [hhanded, List.drop_left]
    exact hmove.hands_one.1
  | decide queued result hphase _ => simp [hphase, SendPhase.left]
  | close queued finalState hphase => simp [hphase, SendPhase.left]
  | leave queued hphase => simp [hphase, SendPhase.left]

theorem ReceiveTask.step_work {host host' : Host} {task task' : ReceiveTask} {ans : Answer}
    (h : task.step host ans = some (host', task')) :
    task'.phase.left < task.phase.left ∨
      task'.phase = task.phase ∧
        ∃ io chunk fault queued, ans = .receive (.message io chunk) fault queued := by
  cases ReceiveTask.step_move h with
  | again event fault queued r hphase _ hround =>
    refine .inr ⟨rfl, ?_⟩
    -- the other events leave the loop
    have hleave : ∀ result, leaveLoop host.checks fault result task.receiver ≠ .again r := by
      intro result
      unfold leaveLoop
      split <;> simp
    cases event with
    | message io chunk => exact ⟨io, chunk, fault, queued, rfl⟩
    | cancelled => exact absurd hround (hleave _)
    | endOfStream => exact absurd hround (hleave _)
    | streamError => exact absurd hround (hleave _)
  | leave event fault queued result r hphase _ _ =>
    left
    simp [hphase, ReceivePhase.left]
  | panic event fault queued r hphase _ _ =>
    left
    simp [hphase, ReceivePhase.left]
  | close queued finalState hphase =>
    left
    simp [hphase, ReceivePhase.left]

/-- What arrives leaves the queue; the queue never grows. -/
theorem Link.arrives_length {s : Link} {ans : Answer} {queue : List FileChunk}
    (h : s.arrives ans = some queue) :
    queue.length ≤ s.queue.length ∧
      ∀ io chunk fault queued, ans = .receive (.message io chunk) fault queued →
        queue.length < s.queue.length := by
  unfold Link.arrives at h
  split at h
  · split at h
    · next c rest hqueue =>
      split at h
      · cases h
        rw [hqueue]
        simp
      · cases h
    · cases h
  · split at h
    · cases h
      exact ⟨by simp, by simp⟩
    · cases h
  · split at h
    · cases h
      exact ⟨le_rfl, by simp⟩
    · cases h
  · next hmessage _ _ =>
    cases h
    exact ⟨le_rfl, fun io chunk fault queued heq => absurd heq (hmessage io chunk fault queued)⟩

theorem step_link_work {s s' : Link} {l : LinkLabel} (h : s.step l = some s') :
    l.isTask.toNat + s'.work ≤ s.work := by
  cases l with
  | send ans =>
    simp only [Link.step] at h
    split at h
    · obtain ⟨⟨host, task⟩, htask, heq⟩ := Option.map_eq_some_iff.1 h
      cases heq
      obtain ⟨hone, hlt⟩ := SendTask.step_work htask
      simp only [Link.work, LinkLabel.isTask, Bool.toNat_true, List.length_append]
      omega
    · cases h
  | receive ans =>
    obtain ⟨queue, harrives, h⟩ := Option.bind_eq_some_iff.1 h
    obtain ⟨⟨host, task⟩, htask, heq⟩ := Option.map_eq_some_iff.1 h
    cases heq
    obtain ⟨hle, hmessage⟩ := Link.arrives_length harrives
    simp only [Link.work, LinkLabel.isTask, Bool.toNat_true]
    rcases ReceiveTask.step_work htask with hlt | ⟨hphase, io, chunk, fault, queued, hans⟩
    · omega
    · have hshorter := hmessage io chunk fault queued hans
      rw [hphase]
      omega
  | cancelSender token => cases h; simp [Link.work, LinkLabel.isTask]
  | cancelReceiver token => cases h; simp [Link.work, LinkLabel.isTask]
  | lose => cases h; simp [Link.work, LinkLabel.isTask]

/-! ## Section 3: Nobody waits in vain -/

/-- Neither task has a step left. -/
def Link.Over (s : Link) : Prop :=
  s.sendTask.phase = .done ∧
    (s.receiveTask.phase = .done ∨ s.receiveTask.phase = .panicked)

/-- No file system call fails in the step. -/
def LinkLabel.faultless : LinkLabel → Bool
  | .send (.send l _) => l.faultless
  | .receive (.receive (.message io _) fault _) =>
    io.finalize.isNone && io.createDirAll.isNone && io.createFile.isNone && io.write.isNone
      && fault.isNone
  | .receive (.receive _ fault _) => fault.isNone
  | _ => true

/-- The sending task goes on until it is done; where the receiver has left its
    loop, without another chunk. -/
theorem Link.sender_goes_on {s : Link} (hdone : s.sendTask.phase ≠ .done) (accepted : Bool)
    (haccepted : accepted = false → s.receiveTask.phase ≠ .inner) :
    ∃ ans s', (LinkLabel.send ans).faultless = true ∧ s.step (.send ans) = some s' ∧
      s'.queue.length ≤ s.queue.length + accepted.toNat := by
  cases hphase : s.sendTask.phase with
  | inner =>
    by_cases hret : ∃ result, s.sendTask.sender.pc = .returned result
    · obtain ⟨result, hret⟩ := hret
      refine ⟨.go 0, _, rfl, by simp [Link.step, Link.accepts, SendTask.step, hphase, hret]; rfl,
        ?_⟩
      simp
    · obtain ⟨l, sender, hfault, hsuits, hsend⟩ := sendStep_goes_on s.sendTask.sender
        (s.sender.tokens.isCancelled s.sendTask.cancellationToken) accepted fun result h =>
          hret ⟨result, h⟩
      have hpoll : pollAgrees s.sender s.sendTask.cancellationToken l = true := by
        cases l with
        | poll c => exact hsuits
        | _ => rfl
      have haccepts : s.accepts (.send l 0) = true := by
        cases l with
        | send a =>
          -- refused only where the receiver has left its loop
          obtain rfl : a = accepted := by simpa [SendLabel.suits] using hsuits
          cases a with
          | true => rfl
          | false => simp [Link.accepts, haccepted rfl]
        | _ => rfl
      obtain ⟨cs, hhanded, hmove⟩ := sendStep_move hsend
      refine ⟨.send l 0, _, hfault,
        by simp [Link.step, haccepts, SendTask.step, hphase, hpoll, hsend]; rfl, ?_⟩
      obtain ⟨hone, hnone⟩ := hmove.hands_one
      simp only [hhanded, List.drop_left, List.length_append]
      cases accepted with
      | true => simp only [Bool.toNat_true]; omega
      | false =>
        have hl : l ≠ .send true := by
          rintro rfl
          simp [SendLabel.suits] at hsuits
        simp [hnone hl]
  | closing finalState =>
    refine ⟨.go 0, _, rfl, by simp [Link.step, Link.accepts, SendTask.step, hphase]; rfl, ?_⟩
    simp
  | leaving =>
    refine ⟨.go 0, _, rfl, by simp [Link.step, Link.accepts, SendTask.step, hphase]; rfl, ?_⟩
    simp
  | done => exact absurd hphase hdone

/-- Whatever a receiving task in its loop is told, it has an answer to. -/
theorem ReceiveTask.step_inner {host : Host} {task : ReceiveTask} {event : StreamEvent}
    (hphase : task.phase = .inner) (hwakes : wakesFor host task.cancellationToken event = true)
    (fault : Option IoErrorKind) (queued : Nat) :
    ∃ r, task.step host (.receive event fault queued) = some r := by
  simp only [ReceiveTask.step, hphase, hwakes, if_true]
  split
  · exact ⟨_, rfl⟩
  · exact ⟨_, rfl⟩
  · exact ⟨_, rfl⟩

/-- The receiving task goes on once there is a chunk or the sender is done. -/
theorem Link.receiver_goes_on {s : Link} (hready : s.sendTask.phase = .done ∨ s.queue ≠ [])
    (hover : s.receiveTask.phase ≠ .done ∧ s.receiveTask.phase ≠ .panicked) :
    ∃ ans s', (LinkLabel.receive ans).faultless = true ∧ s.step (.receive ans) = some s' ∧
      s'.queue.length ≤ s.queue.length := by
  have one : ∀ event : StreamEvent, s.receiveTask.phase = .inner →
      wakesFor s.receiver s.receiveTask.cancellationToken event = true →
      (LinkLabel.receive (.receive event none 0)).faultless = true →
      (s.arrives (.receive event none 0)).isSome →
      ∃ ans s', (LinkLabel.receive ans).faultless = true ∧ s.step (.receive ans) = some s' ∧
        s'.queue.length ≤ s.queue.length := by
    intro event hphase hwakes hfault harrives
    obtain ⟨queue, hqueue⟩ := Option.isSome_iff_exists.1 harrives
    obtain ⟨⟨host, task⟩, htask⟩ := ReceiveTask.step_inner hphase hwakes none 0
    exact ⟨.receive event none 0, _, hfault, by simp [Link.step, hqueue, htask]; rfl,
      (Link.arrives_length hqueue).1⟩
  cases hphase : s.receiveTask.phase with
  | inner =>
    cases hqueue : s.queue with
    | cons chunk rest =>
      rw [← hqueue]
      exact one (.message (.good 0) chunk) hphase rfl rfl (by simp [Link.arrives, hqueue])
    | nil =>
      rw [← hqueue]
      have hdone : s.sendTask.phase = .done := hready.resolve_right fun h => h hqueue
      -- all chunks have arrived: the end of the stream, or of the connection
      cases hbroken : s.broken with
      | false =>
        exact one .endOfStream hphase rfl rfl (by simp [Link.arrives, hqueue, hdone, hbroken])
      | true => exact one .streamError hphase rfl rfl (by simp [Link.arrives, hbroken])
  | closing finalState =>
    refine ⟨.go 0, _, rfl, by simp [Link.step, Link.arrives, ReceiveTask.step, hphase]; rfl, ?_⟩
    simp
  | done => exact absurd hphase hover.1
  | panicked => exact absurd hphase hover.2

/-- Some task can go on, with a channel of any capacity. -/
theorem Link.goes_on {s : Link} (hover : ¬ s.Over) {capacity : Nat} (hpos : 0 < capacity)
    (hqueue : s.queue.length ≤ capacity) :
    ∃ l s', l.isTask = true ∧ l.faultless = true ∧ s.step l = some s' ∧
      s'.queue.length ≤ capacity := by
  by_cases hdone : s.sendTask.phase = .done
  · obtain ⟨ans, s', hfault, hstep, hlen⟩ := Link.receiver_goes_on (.inl hdone)
      ⟨fun h => hover ⟨hdone, .inl h⟩, fun h => hover ⟨hdone, .inr h⟩⟩
    exact ⟨_, s', rfl, hfault, hstep, by omega⟩
  by_cases hinner : s.receiveTask.phase = .inner
  · by_cases hfull : s.queue.length < capacity
    · obtain ⟨ans, s', hfault, hstep, hlen⟩ := Link.sender_goes_on hdone true (by simp)
      exact ⟨_, s', rfl, hfault, hstep, by simp only [Bool.toNat_true] at hlen; omega⟩
    · -- the sender waits for room, and the receiver takes a chunk
      have hne : s.queue ≠ [] := by
        rintro hnil
        simp [hnil] at hfull
        omega
      obtain ⟨ans, s', hfault, hstep, hlen⟩ := Link.receiver_goes_on (.inr hne)
        ⟨by simp [hinner], by simp [hinner]⟩
      exact ⟨_, s', rfl, hfault, hstep, by omega⟩
  · obtain ⟨ans, s', hfault, hstep, hlen⟩ :=
      Link.sender_goes_on hdone false fun _ => hinner
    exact ⟨_, s', rfl, hfault, hstep, by simp only [Bool.toNat_false] at hlen; omega⟩

/-! ## Section 4: The end on record -/

/-- The state of the sender's transfer. -/
def Link.sent (s : Link) : Option TransferState :=
  s.sender.stateOf s.sendTask.remoteUuid s.sendTask.transferUuid

theorem sendFinalState_finished (result : Except TransferError Bool) (isCancelled : Bool) :
    (sendFinalState result isCancelled).isFinished = true := by
  unfold sendFinalState
  split
  · rfl
  · split <;> rfl
  · rfl

theorem receiveFinalState_finished (result : Except TransferError Bool) :
    (receiveFinalState result).isFinished = true := by
  unfold receiveFinalState
  split <;> rfl

theorem stateOf_updateTransfer_self {host : Host} {k u : String} {t : Transfer}
    (ht : host.transfer k u = some t) (queued : Nat) (f : TransferUpdate) :
    (host.updateTransfer queued k u f).2.stateOf k u = some (f.apply t).state := by
  rw [stateOf_updateTransfer, if_pos ⟨rfl, rfl⟩, ht]
  rfl

section records

variable (P : TransferState → Prop)

/-- What the phase of a sending task says about its record: it ends in a state
    with `P`. -/
structure SendTask.OnRecord (host : Host) (task : SendTask) : Prop where
  known : (host.stateOf task.remoteUuid task.transferUuid).isSome
  closing : ∀ st, task.phase = .closing st → P st
  ended : task.phase = .leaving ∨ task.phase = .done →
    ∃ st, host.stateOf task.remoteUuid task.transferUuid = some st ∧ P st

/-- What the phase of a receiving task says about its record. -/
structure ReceiveTask.OnRecord (host : Host) (task : ReceiveTask) : Prop where
  running : task.phase ≠ .done →
    host.stateOf task.remoteUuid task.transferUuid = some .inProgress
  closing : ∀ st, task.phase = .closing st → P st
  ended : task.phase = .done →
    ∃ st, host.stateOf task.remoteUuid task.transferUuid = some st ∧ P st

/-- Both records agree with the phases of the tasks. -/
structure Link.OnRecord (s : Link) : Prop where
  sent : s.sendTask.OnRecord P s.sender
  received : s.receiveTask.OnRecord P s.receiver

/-- The states that the tasks pick in a step have `P`. -/
structure Link.Picks (s : Link) (l : LinkLabel) : Prop where
  sent : ∀ result, s.sendTask.sender.pc = .returned result →
    P (sendFinalState result (s.sender.tokens.isCancelled s.sendTask.cancellationToken))
  received : ∀ event fault queued result r, l = .receive (.receive event fault queued) →
    receiveRound s.receiver.checks s.receiveTask.destination fault s.receiveTask.receiver event
      = .done result r → P (receiveFinalState result)

variable {P}

theorem SendTask.step_onRecord {host host' : Host} {task task' : SendTask} {ans : Answer}
    (hstep : task.step host ans = some (host', task'))
    (hpicks : ∀ result, task.sender.pc = .returned result →
      P (sendFinalState result (host.tokens.isCancelled task.cancellationToken)))
    (h : task.OnRecord P host) : task'.OnRecord P host' := by
  cases SendTask.step_move hstep with
  | inner l queued sender hphase _ hsend =>
    refine ⟨?_, h.closing, fun hover => ?_⟩
    · simpa using h.known
    · simp [hphase] at hover
  | decide queued result hphase hpc =>
    refine ⟨h.known, fun st hst => ?_, fun hover => ?_⟩
    · cases hst
      exact hpicks result hpc
    · simp at hover
  | close queued finalState hphase =>
    -- the closing update sets the state, whatever it was
    obtain ⟨t, ht⟩ : ∃ t, host.transfer task.remoteUuid task.transferUuid = some t := by
      simpa [Host.stateOf, Option.isSome_iff_exists] using h.known
    have hstate := stateOf_updateTransfer_self ht queued (.finishSend finalState)
    refine ⟨by simp only [hstate, Option.isSome_some], fun st hst => ?_, fun _ => ?_⟩
    · cases hst
    · exact ⟨_, hstate, h.closing finalState hphase⟩
  | leave queued hphase =>
    refine ⟨h.known, fun st hst => ?_, fun _ => h.ended (.inl hphase)⟩
    cases hst

theorem ReceiveTask.step_onRecord {host host' : Host} {task task' : ReceiveTask} {ans : Answer}
    (hstep : task.step host ans = some (host', task'))
    (hpicks : ∀ event fault queued result r, ans = .receive event fault queued →
      receiveRound host.checks task.destination fault task.receiver event = .done result r →
      P (receiveFinalState result))
    (h : task.OnRecord P host) : task'.OnRecord P host' := by
  cases ReceiveTask.step_move hstep with
  | again event fault queued r hphase _ _ =>
    refine ⟨fun hne => ?_, h.closing, fun hover => ?_⟩
    · simpa using h.running hne
    · simp [hphase] at hover
  | leave event fault queued result r hphase _ hround =>
    refine ⟨fun _ => h.running (by simp [hphase]), fun st hst => ?_, fun hover => ?_⟩
    · cases hst
      exact hpicks event fault queued result r rfl hround
    · cases hover
  | panic event fault queued r hphase _ _ =>
    refine ⟨fun _ => h.running (by simp [hphase]), fun st hst => ?_, fun hover => ?_⟩
    · cases hst
    · cases hover
  | close queued finalState hphase =>
    have hrunning := h.running (by simp [hphase])
    obtain ⟨t, ht, hprogress⟩ := Option.map_eq_some_iff.1 hrunning
    have hstate := stateOf_updateTransfer_self ht queued (.finishReceive finalState)
    -- the transfer has neither been stopped nor cancelled
    rw [finishReceive_state, if_neg (by simp [hprogress])] at hstate
    refine ⟨fun hne => absurd rfl hne, fun st hst => ?_, fun _ => ⟨_, hstate, ?_⟩⟩
    · cases hst
    · exact h.closing finalState hphase

theorem step_link_onRecord {s s' : Link} {l : LinkLabel} (hstep : s.step l = some s')
    (hpicks : s.Picks P l) (h : s.OnRecord P) : s'.OnRecord P := by
  cases l with
  | send ans =>
    simp only [Link.step] at hstep
    split at hstep
    · obtain ⟨⟨host, task⟩, htask, heq⟩ := Option.map_eq_some_iff.1 hstep
      cases heq
      exact ⟨SendTask.step_onRecord htask hpicks.sent h.sent, h.received⟩
    · cases hstep
  | receive ans =>
    obtain ⟨queue, _, hstep⟩ := Option.bind_eq_some_iff.1 hstep
    obtain ⟨⟨host, task⟩, htask, heq⟩ := Option.map_eq_some_iff.1 hstep
    cases heq
    refine ⟨h.sent, ReceiveTask.step_onRecord htask ?_ h.received⟩
    rintro event fault queued result r rfl hround
    exact hpicks.received event fault queued result r rfl hround
  -- tokens and connections are no part of a record
  | cancelSender token => cases hstep; exact ⟨⟨h.sent.1, h.sent.2, h.sent.3⟩, h.received⟩
  | cancelReceiver token =>
    cases hstep
    exact ⟨h.sent, ⟨h.received.1, h.received.2, h.received.3⟩⟩
  | lose => cases hstep; exact ⟨h.sent, h.received⟩

theorem onRecord_start (s : Session) (hsent : s.start.sent.isSome) : s.start.OnRecord P where
  sent :=
    { known := hsent
      closing := fun st hst => absurd (s.sendTask_inner.symm.trans hst) (by simp)
      ended := fun h => by
        have hinner : s.start.sendTask.phase = .inner := s.sendTask_inner
        simp [hinner] at h }
  received :=
    { running := fun _ => s.inProgress
      closing := fun st hst => absurd (s.receiveTask_inner.symm.trans hst) (by simp)
      ended := fun h => absurd (s.receiveTask_inner.symm.trans h) (by simp) }

end records

theorem picks_finished (s : Link) (l : LinkLabel) : s.Picks (fun st => st.isFinished = true) l where
  sent result _ := sendFinalState_finished result _
  received _ _ _ result _ _ _ := receiveFinalState_finished result

/-- However a transfer goes, its tasks have a bounded number of steps, one of
    them can go on until both are over, also with a channel that holds few
    chunks, and then both records say how the transfer ended, but for a receiving
    task that has panicked. -/
theorem transfer_ends (s : Session) {ls : List LinkLabel} {s' : Link}
    (hsent : s.start.sent.isSome) (hrun : link.exec s.start ls = some s') :
    link.count (fun _ l => l.isTask) s.start ls ≤ 2 * sourcesWork s.sources + 8 ∧
    (¬ s'.Over → ∀ capacity > 0, s'.queue.length ≤ capacity → ∃ l s'', l.isTask = true ∧
      l.faultless = true ∧ s'.step l = some s'' ∧ s''.queue.length ≤ capacity) ∧
    (s'.Over → (∃ st, s'.sent = some st ∧ st.isFinished = true) ∧
      ((s'.receiveTask.phase = .panicked ∧ s'.received = some .inProgress) ∨
        ∃ st, s'.received = some st ∧ st.isFinished = true)) := by
  have hbound := link.count_le_of_measure (I := fun _ => True) (f := Link.work)
    (p := fun _ l => l.isTask) (fun _ _ _ _ h => ⟨trivial, step_link_work h⟩) trivial hrun
  have hstart : s.start.work = 2 * sourcesWork s.sources + 8 := by
    have hpc : s.start.sendTask.sender.pc = sourceLoop s.sources := by
      show s.sendTask.sender.pc = _
      rw [s.sendTask_start]
      rfl
    have hsend : s.start.sendTask.phase = .inner := s.sendTask_inner
    have hreceive : s.start.receiveTask.phase = .inner := s.receiveTask_inner
    have hqueue : s.start.queue = [] := rfl
    simp only [Link.work, hpc, hsend, hreceive, hqueue, sourceLoop_work, SendPhase.left,
      ReceivePhase.left, List.length_nil]
    omega
  have honRecord : s'.OnRecord fun st => st.isFinished = true :=
    link.exec_invariant (I := fun s => s.OnRecord fun st => st.isFinished = true)
      (fun s l _ h hs => step_link_onRecord hs (picks_finished s l) h) (onRecord_start s hsent) hrun
  refine ⟨by omega, fun hover capacity hpos => Link.goes_on hover hpos, fun hover =>
    ⟨honRecord.sent.ended (.inr hover.1), ?_⟩⟩
  rcases hover.2 with hdone | hpanicked
  · exact .inr (honRecord.received.ended hdone)
  · exact .inl ⟨hpanicked, honRecord.received.running (by simp [hpanicked])⟩

/-- The transfer of one byte, from its start to its end. -/
theorem transfer_ends_wholeRun :
    link.count (fun _ l => l.isTask) oneByteSession.start wholeRun
        ≤ 2 * sourcesWork oneByteSession.sources + 8 ∧
      ∃ s', link.exec oneByteSession.start wholeRun = some s' ∧
        (∃ st, s'.sent = some st ∧ st.isFinished = true) ∧
        ((s'.receiveTask.phase = .panicked ∧ s'.received = some .inProgress) ∨
          ∃ st, s'.received = some st ∧ st.isFinished = true) := by
  obtain ⟨s', hrun, hover⟩ : ∃ s', link.exec oneByteSession.start wholeRun = some s' ∧ s'.Over :=
    ⟨_, rfl, rfl, .inl rfl⟩
  have hend := transfer_ends oneByteSession (by decide) hrun
  exact ⟨hend.1, s', hrun, hend.2.2 hover⟩

end Warpinator
