import Warpinator.Lib.Locks

/-! # The Locks of an Instance

    Which locks the functions of the library take, and what they wait for while
    they hold them.  A guard in the head of an `if let` lives to the end of the
    statement, one that is bound to a name lives to the end of the function, also
    where a later variable has the same name: so the operations of a worker keep
    its `client` locked while the peer is answering, and the task that sends the
    user's picture keeps the picture locked while the peer is reading.

    * `Entry.disciplined`: the locks are taken in one order, and under most of
      them nothing is awaited.
    * `calls_do_not_deadlock`: whatever is called, what an unfinished task waits
      for in the end goes on at once, or waits for a peer, a disk or a timer.
    * `silent_peers_are_contained`: a peer that does not answer holds up nobody at
      the store, and nobody at the client of another worker.
    * `unread_picture_blocks_everyone`: but a peer that does not read the user's
      picture holds up all others, once the user wants to set another one. -/

namespace Warpinator

namespace Locking

open Locks (Prog Mode System Label)

/-! ## Section 1: Locks -/

/-- Workers and the pictures of remotes are known by numbers. -/
inductive Lock where
  | client (worker : Nat)
  | channel (worker : Nat)
  | workers
  | remotes
  /-- The picture of a remote, which the copies of the remote share. -/
  | picture (arc : Nat)
  /-- The picture and the name in the `UserConfig`. -/
  | userPicture
  | displayName
  deriving DecidableEq

/-- The order in which locks are taken. -/
def Lock.rank : Lock → Nat
  | .client _ | .userPicture => 0
  | .channel _ | .displayName | .workers => 1
  | .remotes => 2
  | .picture _ => 3

/-- Nothing is awaited under such a lock, other than locks. -/
def Lock.isQuick (lock : Lock) : Prop := 1 ≤ lock.rank

instance (lock : Lock) : Decidable lock.isQuick := inferInstanceAs (Decidable (1 ≤ lock.rank))

/-- Do this and return, or go on. -/
def onError (ps : List (Prog Lock)) : Prog Lock := .either (.block (ps ++ [.ret])) .skip

/-! ## Section 2: remote_manager.rs -/

def remote : Prog Lock := .guard .remotes .read .skip
def remotes : Prog Lock := .guard .remotes .read .skip
def transfer : Prog Lock := .guard .remotes .read .skip
def transferByProtocolId : Prog Lock := .guard .remotes .read .skip
def transfers : Prog Lock := .guard .remotes .read .skip
def message : Prog Lock := .guard .remotes .read .skip
def messages : Prog Lock := .guard .remotes .read .skip

def getWorker : Prog Lock := .guard .workers .read .skip

def updateRemote : Prog Lock := .guard .remotes .write .skip
def addTransfer : Prog Lock := .guard .remotes .write .skip
def updateTransfer : Prog Lock := .guard .remotes .write .skip
def removeTransfer : Prog Lock := .guard .remotes .write .skip
def addMessage : Prog Lock := .guard .remotes .write .skip
def removeMessage : Prog Lock := .guard .remotes .write .skip

/-- The closure runs under the guard, if the remote is there. -/
def updateRemoteAsync (f : Prog Lock) : Prog Lock := .guard .remotes .write (.either f .skip)

/-- Each of the two guards lives for one statement. -/
def addRemote : Prog Lock :=
  .block [.guard .workers .write .skip, .guard .remotes .write .skip]

/-! ## Section 3: remote_worker.rs -/

/-- A function that begins with `self.client.read().await` and returns if there is
    no client. -/
def withClient (w : Nat) (ps : List (Prog Lock)) : Prog Lock :=
  .fn (.guard (.client w) .read (.block (.question :: ps)))

def setState : Prog Lock := .fn (.block [.question, updateRemote])

def clearChannel (w : Nat) : Prog Lock :=
  .block [.guard (.channel w) .write .skip, .guard (.client w) .write .skip]

def disconnect (w : Nat) : Prog Lock := .block [clearChannel w, setState]

def receiveCertificate : Prog Lock :=
  .fn (.block [
    .question, remote, .question, .question,
    -- the connection, the request
    .await, .question, .await, .question,
    .question, .question, .question, updateRemote, .question])

def buildChannel : Prog Lock :=
  .fn (.block [.question, remote, .question, .question, .question, .await, .question])

def ping (w : Nat) : Prog Lock := withClient w [.await, .question]

def waitForDuplex (w : Nat) : Prog Lock := withClient w [.await, .question, .question]

def fetchMachineInfo (w : Nat) : Prog Lock :=
  withClient w [.await, .question, .question, updateRemote, .question]

/-- The closure locks the picture that is there, if a new one has come. -/
def fetchAvatar (w arc : Nat) : Prog Lock :=
  withClient w [
    .await, .question, .loop (.block [.await, .question]),
    .question, updateRemoteAsync (.either (.guard (.picture arc) .write .skip) .skip), .question]

def connect (w arc : Nat) : Prog Lock :=
  .fn (.block [
    setState, .question,
    receiveCertificate, onError [setState],
    buildChannel, onError [setState],
    .guard (.channel w) .write .skip, .guard (.client w) .write .skip,
    ping w, onError [clearChannel w, setState],
    setState, .question,
    waitForDuplex w, onError [clearChannel w, setState],
    setState, .question,
    fetchMachineInfo w, fetchAvatar w arc])

/-- Wait for the token, the timer or a new state; only the first ends the loop. -/
def waitThenReconnect (w arc : Nat) : Prog Lock :=
  .block [.await, .either (.block [disconnect w, .ret]) (.either (connect w arc) .skip)]

def spawnLoop (w arc : Nat) : Prog Lock :=
  .fn (.loop (.either
    -- connected
    (.block [.await, .either (.block [disconnect w, .ret])
      (.either (.block [ping w, .either (.block [setState, clearChannel w]) .skip]) .skip)])
    -- disconnected, or an error
    (.either (.either .ret (waitThenReconnect w arc))
      (.block [.await, .either (.block [disconnect w, .ret]) .skip]))))

/-- `process_paths` waits for the disk. -/
def sendTransferRequest (w : Nat) : Prog Lock :=
  withClient w [
    .question, addTransfer, .question, .loop .await,
    .either
      (.block [.await, .question, .question, updateTransfer, .question])
      (.block [.question, updateTransfer, .question])]

def sendMessage (w : Nat) : Prog Lock :=
  withClient w [.await, .question, .question, addMessage, .question]

def acceptTransfer (w : Nat) : Prog Lock :=
  withClient w [
    .question, transfer, .question, .question, .await, .question,
    .question, updateTransfer, .question, .question]

def stopTransfer (w : Nat) : Prog Lock :=
  withClient w [
    .question, transfer, .question, .await, .question, .question, updateTransfer, .question]

def cancelTransfer (w : Nat) : Prog Lock :=
  withClient w [
    .question, transfer, .question, .await, .question, .question, updateTransfer, .question]

/-! ## Section 4: warp.rs, registration.rs and discovery.rs -/

def waitingForDuplex : Prog Lock :=
  .fn (.block [
    remote, .either getWorker .question,
    .loop (.block [.await, .either .ret (.either (.block [remote, .question]) .skip)])])

def getRemoteMachineInfo : Prog Lock := .guard .displayName .read .skip

def getRemoteMachineAvatar : Prog Lock :=
  .fn (.block [.guard .userPicture .read .skip, .question])

/-- The task that `get_remote_machine_avatar` spawns.  The guard in its `if let`
    lives as long as there are chunks to send. -/
def sendAvatar : Prog Lock :=
  .guard .userPicture .read (.either (.fn (.loop (.block [.await, .question]))) .skip)

def processTransferOpRequest : Prog Lock := .fn (.block [.question, addTransfer, .question])

def startTransfer : Prog Lock :=
  .fn (.block [transferByProtocolId, .question, .question, updateTransfer, .question])

/-- `stop_transfer` of the server. -/
def transferStopped : Prog Lock :=
  .fn (.block [.question, transferByProtocolId, .question, updateTransfer])

def cancelTransferOpRequest : Prog Lock :=
  .fn (.block [transferByProtocolId, .question, .either updateTransfer .ret])

def sendTextMessage : Prog Lock := .fn (.block [.question, addMessage, .question])

def registerService (w arc : Nat) : Prog Lock :=
  .fn (.block [
    remote,
    .either (.block [.question, addRemote])
      (.either .skip
        (.block [.question, updateRemote,
          .either (.block [getWorker, .question, connect w arc, .question]) .skip]))])

def manualConnection (w arc : Nat) : Prog Lock :=
  .fn (.block [
    .question, .question, .await, .question, .await, .question, remote,
    onError [updateRemote, .either (.block [getWorker, .question, connect w arc]) .skip],
    .question, addRemote, connect w arc])

def handleNewService (w arc : Nat) : Prog Lock :=
  .fn (.block [
    .question, remote,
    .either (.block [addRemote, connect w arc, .question])
      (.block [updateRemote,
        .either (.block [getWorker, .question, connect w arc, .question]) .skip])])

/-- The loop of `DiscoveryService::start`, over the events of the browser: the
    resolved services, and `none` for the rest. -/
def start (events : List (Option (Nat × Nat))) : Prog Lock :=
  .fn (.block (.question :: events.map fun event =>
    .block [.await, match event with
      | some (w, arc) => handleNewService w arc
      | none => .either updateRemote .skip]))

/-! ## Section 5: Streams -/

def sendFile : Prog Lock :=
  .fn (.block [
    .loop (.block [.await, .question]),
    .loop (.block [.question, .await, .question, .await, .question, updateTransfer])])

def sendStreamInner : Prog Lock :=
  .fn (.loop (.block [
    .question, .await, .question,
    .either (.block [sendFile, .question])
      (.loop (.block [
        .await, .question, .await, .question,
        .either (.block [.await, .question]) (.either (.block [sendFile, .question]) .skip)]))]))

def sendStream : Prog Lock := .block [sendStreamInner, updateTransfer]

def writeChunk : Prog Lock := .fn (.block [.question, .await, .question, updateTransfer])

/-- `finalize_current_file` waits for the disk, and so do the names of entries. -/
def processChunk : Prog Lock :=
  .fn (.block [.question, .question, .loop .await, .question, writeChunk, .question])

def receiveStreamInner : Prog Lock :=
  .fn (.loop (.block [
    .await, .either (.block [processChunk, .question]) (.block [.loop .await, .ret])]))

def receiveStream : Prog Lock := .block [receiveStreamInner, updateTransfer]

/-! ## Section 6: user.rs -/

def setDisplayName : Prog Lock := .guard .displayName .write .skip

def setPicture : Prog Lock := .guard .userPicture .write .skip

/-- An application that looks at the picture of a remote. -/
def viewPicture (arc : Nat) : Prog Lock := .guard (.picture arc) .read .skip

/-! ## Section 7: Calls -/

/-- What the application and the peers can call, and what the library spawns. -/
inductive Entry where
  | remote
  | remotes
  | transfer
  | transferByProtocolId
  | transfers
  | message
  | messages
  | getWorker
  | updateRemote
  | addTransfer
  | updateTransfer
  | removeTransfer
  | addMessage
  | removeMessage
  | addRemote
  | connect (w arc : Nat)
  | spawnLoop (w arc : Nat)
  | disconnect (w : Nat)
  | sendTransferRequest (w : Nat)
  | sendMessage (w : Nat)
  | acceptTransfer (w : Nat)
  | stopTransfer (w : Nat)
  | cancelTransfer (w : Nat)
  | waitingForDuplex
  | getRemoteMachineInfo
  | getRemoteMachineAvatar
  | sendAvatar
  | processTransferOpRequest
  | startTransfer
  | transferStopped
  | cancelTransferOpRequest
  | sendTextMessage
  | registerService (w arc : Nat)
  | manualConnection (w arc : Nat)
  | start (events : List (Option (Nat × Nat)))
  | sendStream
  | receiveStream
  | setDisplayName
  | setPicture
  | viewPicture (arc : Nat)

def Entry.prog : Entry → Prog Lock
  | .remote => Locking.remote
  | .remotes => Locking.remotes
  | .transfer => Locking.transfer
  | .transferByProtocolId => Locking.transferByProtocolId
  | .transfers => Locking.transfers
  | .message => Locking.message
  | .messages => Locking.messages
  | .getWorker => Locking.getWorker
  | .updateRemote => Locking.updateRemote
  | .addTransfer => Locking.addTransfer
  | .updateTransfer => Locking.updateTransfer
  | .removeTransfer => Locking.removeTransfer
  | .addMessage => Locking.addMessage
  | .removeMessage => Locking.removeMessage
  | .addRemote => Locking.addRemote
  | .connect w arc => Locking.connect w arc
  | .spawnLoop w arc => Locking.spawnLoop w arc
  | .disconnect w => Locking.disconnect w
  | .sendTransferRequest w => Locking.sendTransferRequest w
  | .sendMessage w => Locking.sendMessage w
  | .acceptTransfer w => Locking.acceptTransfer w
  | .stopTransfer w => Locking.stopTransfer w
  | .cancelTransfer w => Locking.cancelTransfer w
  | .waitingForDuplex => Locking.waitingForDuplex
  | .getRemoteMachineInfo => Locking.getRemoteMachineInfo
  | .getRemoteMachineAvatar => Locking.getRemoteMachineAvatar
  | .sendAvatar => Locking.sendAvatar
  | .processTransferOpRequest => Locking.processTransferOpRequest
  | .startTransfer => Locking.startTransfer
  | .transferStopped => Locking.transferStopped
  | .cancelTransferOpRequest => Locking.cancelTransferOpRequest
  | .sendTextMessage => Locking.sendTextMessage
  | .registerService w arc => Locking.registerService w arc
  | .manualConnection w arc => Locking.manualConnection w arc
  | .start events => Locking.start events
  | .sendStream => Locking.sendStream
  | .receiveStream => Locking.receiveStream
  | .setDisplayName => Locking.setDisplayName
  | .setPicture => Locking.setPicture
  | .viewPicture arc => Locking.viewPicture arc

/-- Only such calls are entered. -/
def Entered (ls : List (Label Lock)) : Prop := ∀ p, .enter p ∈ ls → ∃ e : Entry, e.prog = p

theorem handleNewService_disciplined (w arc : Nat) :
    (handleNewService w arc).Disciplined Lock.rank 1 0 := of_decide_eq_true rfl

theorem start_disciplined (events : List (Option (Nat × Nat))) :
    (start events).Disciplined Lock.rank 1 0 := by
  refine ⟨⟨trivial, trivial⟩, ?_⟩
  induction events with
  | nil => trivial
  | cons event events ih =>
    refine ⟨⟨Nat.zero_le _, ?_, trivial⟩, ih⟩
    cases event with
    | none => exact of_decide_eq_true rfl
    | some service => exact handleNewService_disciplined _ _

/-- The locks are taken in the order of their ranks, and only under a client or
    the user's picture is anything awaited. -/
theorem Entry.disciplined (e : Entry) : e.prog.Disciplined Lock.rank 1 0 := by
  cases e with
  | start events => exact start_disciplined events
  | _ => exact of_decide_eq_true rfl

/-! ## Section 8: Main results -/

variable {ls : List (Label Lock)} {s : System Lock}

theorem sound (hentered : Entered ls) (hrun : (Locks.system Lock).exec .new ls = some s) :
    s.Sound Lock.rank 1 := by
  refine Locks.sound_of_disciplined (fun p hp => ?_) hrun
  obtain ⟨e, rfl⟩ := hentered p hp
  exact e.disciplined

/-- Whoever writes to the store is alone with it, so that what it does there is one
    step for all others. -/
theorem store_writers_are_alone (hrun : (Locks.system Lock).exec .new ls = some s) {i j : Nat}
    {t u : Locks.Task Lock} {mode : Mode} (ht : s.tasks[i]? = some t) (hu : s.tasks[j]? = some u)
    (hne : i ≠ j) (hwrites : t.Holds .remotes .write) : ¬ u.Holds .remotes mode :=
  Locks.exclusive hrun i j t u .remotes mode ht hu hne hwrites

/-- What an unfinished task waits for in the end goes on at once, or waits for
    something that is not a lock. -/
theorem calls_do_not_deadlock (hentered : Entered ls)
    (hrun : (Locks.system Lock).exec .new ls = some s) {i : Nat} {t : Locks.Task Lock}
    (ht : s.tasks[i]? = some t) (hdone : t ≠ []) :
    ∃ j u, s.tasks[j]? = some u ∧ s.LeadsTo i j ∧ (s.Runs j ∨ u.Awaits) :=
  (sound hentered hrun).no_deadlock ht hdone

/-- Whoever uses the store, or any other lock than a client or the user's picture,
    waits for no peer.  Whoever waits for a client, or for that picture, waits for
    no peer but one that is asked under the same lock. -/
theorem silent_peers_are_contained (hentered : Entered ls)
    (hrun : (Locks.system Lock).exec .new ls = some s) {i : Nat} {t : Locks.Task Lock}
    {lock : Lock} (ht : s.tasks[i]? = some t) (huses : t.Uses lock) :
    (lock.isQuick → ∃ j, s.LeadsTo i j ∧ s.Runs j) ∧
      (¬ lock.isQuick → i ∈ s.queue lock → ∃ j u, s.tasks[j]? = some u ∧ s.LeadsTo i j ∧
        (s.Runs j ∨ (u.Awaits ∧ ∃ mode, u.Holds lock mode))) := by
  have hs := sound hentered hrun
  refine ⟨hs.prompt ht huses, fun hslow hqueue => hs.held_up ?_ hqueue⟩
  unfold Lock.isQuick at hslow
  omega

/-- Take `n` steps with task `i`. -/
def goOn (i n : Nat) : List (Label Lock) := List.replicate n (.run i true)

/-- A peer does not answer to a message, and the worker is disconnected. -/
def unanswered : List (Label Lock) :=
  .enter (sendMessage 0) :: goOn 0 7 ++ .enter (disconnect 0) :: goOn 1 8

theorem unanswered_entered : Entered unanswered := by
  intro p hp
  simp only [unanswered, goOn, List.mem_append, List.mem_cons, List.mem_replicate, reduceCtorEq,
    and_false, or_false, Label.enter.injEq] at hp
  rcases hp with rfl | rfl
  · exact ⟨.sendMessage 0, rfl⟩
  · exact ⟨.disconnect 0, rfl⟩

theorem unanswered_goes_on : ∃ s, (Locks.system Lock).exec .new unanswered = some s ∧
    ∃ j u, s.tasks[j]? = some u ∧ s.LeadsTo 1 j ∧ (s.Runs j ∨ u.Awaits) :=
  ⟨_, rfl, calls_do_not_deadlock unanswered_entered rfl (i := 1) rfl (List.cons_ne_nil _ _)⟩

theorem unanswered_is_contained : ∃ s, (Locks.system Lock).exec .new unanswered = some s ∧
    ∃ j u, s.tasks[j]? = some u ∧ s.LeadsTo 1 j ∧
      (s.Runs j ∨ (u.Awaits ∧ ∃ mode, u.Holds (.client 0) mode)) :=
  ⟨_, rfl, (silent_peers_are_contained unanswered_entered rfl (i := 1) rfl
    (show Locks.Task.Uses _ (.client 0) from .inl ⟨_, _, _, rfl⟩)).2 (by decide) (by decide)⟩

/-- What a call of `get_remote_machine_avatar` is until it has read the picture. -/
def asking : List (Locks.Task Lock) :=
  [[.prog getRemoteMachineAvatar],
    [.prog (.block [.guard .userPicture .read .skip, .question]), .leave],
    [.prog (.guard .userPicture .read .skip), .prog (.block [.question]), .leave]]

theorem asking_advance {t t' : Locks.Task Lock} {choice : Bool} (ht : t ∈ asking)
    (hadvance : t.advance choice = some t') : t' ∈ asking := by
  simp only [asking, List.mem_cons, List.not_mem_nil, or_false] at ht
  rcases ht with rfl | rfl | rfl
  · cases hadvance
    simp [asking]
  · cases hadvance
    simp [asking, Prog.block]
  · cases hadvance

theorem asking_guard {lock : Lock} {mode : Mode} {body : Prog Lock} {k : Locks.Task Lock}
    (ht : .prog (.guard lock mode body) :: k ∈ asking) : lock = .userPicture := by
  simp only [asking, List.mem_cons, List.not_mem_nil, or_false] at ht
  rcases ht with h | h | h
  · cases h
  · cases h
  · cases h
    rfl

theorem asking_await {t : Locks.Task Lock} (ht : t ∈ asking) : ¬ t.Awaits := by
  rintro ⟨k, rfl⟩
  simp [asking, getRemoteMachineAvatar, Prog.block] at ht

/-- A call does not read the picture while it is blocked. -/
theorem exec_asking {s s' : System Lock} {ls : List (Label Lock)} {i j n : Nat}
    {t : Locks.Task Lock} (hb : s.Blocked .userPicture i j) (ht : s.tasks[n]? = some t)
    (hasking : t ∈ asking) (hunread : .answer j ∉ ls) (hsending : .drop j ∉ ls)
    (hsetting : .drop i ∉ ls) (hcall : .drop n ∉ ls)
    (hrun : (Locks.system Lock).exec s ls = some s') :
    ∃ t', s'.tasks[n]? = some t' ∧ t' ∈ asking := by
  induction ls generalizing s t with
  | nil =>
    obtain rfl := Option.some.inj hrun
    exact ⟨t, ht, hasking⟩
  | cons l ls ih =>
    obtain ⟨s₁, hstep, hrun⟩ := (Machine.exec_cons _).1 hrun
    have hmove := System.step_move hstep
    rw [List.mem_cons, not_or] at hunread hsending hsetting hcall
    have hb₁ := hmove.blocked hb (Ne.symm hunread.1) (Ne.symm hsending.1) (Ne.symm hsetting.1)
    rcases hmove.task_after ht (Ne.symm hcall.1) with hsame |
      ⟨t₁, ht₁, ⟨lock, mode, body, k, rfl, hfirst, hfree⟩ | ⟨choice, hadvance⟩ | rfl⟩
    · exact ih hb₁ hsame hasking hunread.2 hsending.2 hsetting.2 hcall.2 hrun
    · exact absurd (asking_guard hasking) (hb.ne_of_first ht hfirst hfree).1
    · exact ih hb₁ ht₁ (asking_advance hasking hadvance) hunread.2 hsending.2 hsetting.2 hcall.2
        hrun
    · exact absurd ⟨t₁, rfl⟩ (asking_await hasking)

/-- Task `j` sends the user's picture to a peer that reads no further, and task `i`
    waits to set another picture.  Until the peer reads on or one of the two tasks
    is given up, a call of `get_remote_machine_avatar` has no answer, whatever
    else happens. -/
theorem unread_picture_blocks_everyone {ls : List (Label Lock)} {s s' : System Lock} {i j : Nat}
    (hb : s.Blocked .userPicture i j) (hunread : .answer j ∉ ls) (hsending : .drop j ∉ ls)
    (hsetting : .drop i ∉ ls) (hcall : .drop s.tasks.length ∉ ls)
    (hrun : (Locks.system Lock).exec s (.enter getRemoteMachineAvatar :: ls) = some s') :
    ∃ t, s'.tasks[s.tasks.length]? = some t ∧ t ≠ [] := by
  obtain ⟨s₁, hstep, hrun⟩ := (Machine.exec_cons _).1 hrun
  have hmove : System.Move s (.enter getRemoteMachineAvatar) s₁ := System.step_move hstep
  have hb₁ : s₁.Blocked .userPicture i j := hmove.blocked hb nofun nofun nofun
  have hentered : s₁.tasks[s.tasks.length]? = some [.prog getRemoteMachineAvatar] := by
    obtain rfl := Option.some.inj hstep
    simp
  obtain ⟨t, ht, hasking⟩ := exec_asking hb₁ hentered List.mem_cons_self hunread hsending hsetting
    hcall hrun
  refine ⟨t, ht, ?_⟩
  rintro rfl
  simp [asking] at hasking

/-- One peer stops to read, and the user sets another picture. -/
def unread : List (Label Lock) := .enter sendAvatar :: goOn 0 6 ++ .enter setPicture :: goOn 1 1

theorem unread_blocked {s : System Lock} (hrun : (Locks.system Lock).exec .new unread = some s) :
    s.Blocked .userPicture 1 0 := by
  obtain rfl := Option.some.inj hrun
  refine ⟨⟨_, .read, rfl, ⟨_, rfl⟩, ?_⟩, ⟨_, rfl, _, _, rfl⟩, rfl⟩
  simp [Locks.Task.Holds]

theorem second_peer_gets_no_picture : ∃ s s', (Locks.system Lock).exec .new unread = some s ∧
    (Locks.system Lock).exec s (.enter getRemoteMachineAvatar :: goOn 2 3) = some s' ∧
    ∃ t, s'.tasks[s.tasks.length]? = some t ∧ t ≠ [] := by
  obtain ⟨s', hruns⟩ : ∃ s', (Locks.system Lock).exec .new
      (unread ++ .enter getRemoteMachineAvatar :: goOn 2 3) = some s' := ⟨_, rfl⟩
  obtain ⟨s, hunread, hasked⟩ := (Machine.exec_append _).1 hruns
  have htwo : s.tasks.length = 2 := by
    obtain rfl := Option.some.inj hunread
    rfl
  refine ⟨s, s', hunread, hasked, ?_⟩
  refine unread_picture_blocks_everyone (unread_blocked hunread) ?_ ?_ ?_ ?_ hasked
  all_goals simp [goOn]

end Locking

end Warpinator
