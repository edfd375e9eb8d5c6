import Warpinator.Server.Isolation
import Warpinator.Transfers.PromptStop

/-! # Cancelled Senders

    A token can be cancelled from many sides: for one transfer, for a worker, or
    for all at once, when the server shuts down.  Whatever else goes on in the
    instance, its sending tasks see it at their next poll.

    `SendStep` says what a step of the instance can do to the sending tasks.
    `cancelled_senders_stop` follows a run from the moment at which the token is
    cancelled. -/

namespace Warpinator

/-! ## Section 1: Tokens stay cancelled -/

/-- No token is revived. -/
def Host.KeepsCancelled (before after : Host) : Prop :=
  ∀ token, before.tokens.isCancelled token = true → after.tokens.isCancelled token = true

section tokens

variable {host host' : Host} {ans : Answer}

theorem Host.KeepsCancelled.of_eq (h : host'.tokens = host.tokens) : host.KeepsCancelled host' := by
  intro token hcancelled
  rw [h]
  exact hcancelled

theorem keepsCancelled_cancel (host : Host) (token : TokenId) :
    host.KeepsCancelled (host.cancel token) := by
  intro token' hcancelled
  show (host.tokens.cancel token).isCancelled token' = true
  rw [isCancelled_cancel, hcancelled, Bool.or_true]

theorem withdraw_keepsCancelled {μ : Type} {w : Worker} {message : OpInfo → μ}
    {newState : TransferKind → TransferState} {pc pc' : Worker.WithdrawPc μ}
    (h : w.withdraw message newState host pc ans = some (host', pc')) :
    host.KeepsCancelled host' := by
  cases Worker.withdraw_move h with
  | refused _ _ _ => exact .of_eq rfl
  | foundOutgoing _ _ _ _ _ => exact .of_eq rfl
  | foundIncoming _ _ _ _ => exact .of_eq rfl
  | cancelled _ _ token _ _ => exact keepsCancelled_cancel host token
  | answered _ _ _ => exact .of_eq rfl
  | denied _ _ _ _ => exact .of_eq rfl
  | updated _ _ _ _ => exact .of_eq rfl
  | lost _ _ _ _ _ => exact .of_eq rfl

theorem task_keepsCancelled {t t' : Task} {spawned : List Task}
    (h : t.step host ans = some (host', t', spawned)) : host.KeepsCancelled host' := by
  cases task_move h with
  | processTransferOpRequest pc pc' hstep =>
    cases WarpServer.processTransferOpRequest_move hstep <;> exact .of_eq rfl
  | startTransfer pc pc' hstep =>
    cases WarpServer.startTransfer_move hstep <;> exact .of_eq rfl
  | peerStopTransfer pc pc' hstep =>
    cases WarpServer.stopTransfer_move hstep with
    | cancelled _ token _ => exact keepsCancelled_cancel host token
    | refused _ _ _ => exact .of_eq rfl
    | foundOutgoing _ _ _ _ _ _ => exact .of_eq rfl
    | foundIncoming _ _ _ _ _ => exact .of_eq rfl
    | updated _ _ _ => exact .of_eq rfl
  | cancelTransferOpRequest pc pc' hstep =>
    cases WarpServer.cancelTransferOpRequest_move hstep <;> exact .of_eq rfl
  | sendTransferRequest w pc pc' hstep =>
    -- a new token leaves the cancelled ones as they are
    cases Worker.sendTransferRequest_move hstep <;> exact fun _ hcancelled => hcancelled
  | acceptTransfer w pc pc' hstep =>
    cases Worker.acceptTransfer_move hstep <;> exact fun _ hcancelled => hcancelled
  | stopTransfer w error pc pc' hstep => exact withdraw_keepsCancelled hstep
  | cancelTransfer w pc pc' hstep => exact withdraw_keepsCancelled hstep
  | sendStream task task' hstep =>
    cases SendTask.step_move hstep with
    | inner _ _ _ _ _ _ => exact .of_eq (recordProgress_tokens _ _ _ _ _ _)
    | decide _ _ _ _ => exact .of_eq rfl
    | close _ _ _ => exact .of_eq rfl
    | leave _ _ => exact .of_eq rfl
  | receiveStream task task' hstep =>
    cases ReceiveTask.step_move hstep with
    | again _ _ _ _ _ _ _ => exact .of_eq (recordProgress_tokens _ _ _ _ _ _)
    | leave _ _ _ _ _ _ _ _ => exact .of_eq rfl
    | panic _ _ _ _ _ _ _ => exact .of_eq rfl
    | close _ _ _ => exact .of_eq rfl

end tokens

section steps

variable {s : Settings} {p p' : Running} {l : RunningLabel}

theorem activity_keepsCancelled {i i' : Instance} {a a' : Activity} {spawned : List Activity}
    (h : ActivityMove s i a i' a' spawned) : i.host.KeepsCancelled i'.host := by
  cases h with
  | admission _ _ _ _ _ _ => exact .of_eq rfl
  | call _ _ _ _ _ hstep => exact task_keepsCancelled hstep
  | sendTextMessage _ _ _ hmove => cases hmove <;> exact .of_eq rfl
  | sendMessage _ _ _ _ hmove => cases hmove <;> exact .of_eq rfl
  | getWorker _ _ _ _ => exact .of_eq rfl
  | missing _ _ => exact .of_eq rfl

theorem poolStep_keepsCancelled (h : (activities s).poolStep p l = some p') :
    p.shared.host.KeepsCancelled p'.shared.host := by
  cases l with
  | run i ans =>
    obtain ⟨a, i', a', spawned, _, hadvance, rfl⟩ := Tasking.run_cases h
    exact activity_keepsCancelled (activity_move hadvance)
  | enter a =>
    obtain ⟨_, rfl⟩ := Tasking.enter_cases h
    exact .of_eq rfl
  | env e =>
    cases h
    cases e with
    | cancel token => exact keepsCancelled_cancel _ token
    | update _ _ | removed _ | removeTransfer _ _ | removeMessage _ _ | files _ | disk _ =>
      exact .of_eq rfl

/-! ## Section 2: What a step does to the sending tasks -/

def Activity.sendTask? : Activity → Option SendTask
  | .call (.sendStream task) => some task
  | _ => none

def Running.sendTaskAt (p : Running) (j : Nat) : Option SendTask :=
  p.tasks[j]?.bind Activity.sendTask?

/-- A sending task after a step of the instance: the same as before, one step
    further, or one that has just been spawned. -/
inductive SendStep (p : Running) (j : Nat) : SendTask → Prop
  | same (task : SendTask) : p.sendTaskAt j = some task → SendStep p j task
  | advanced (task task' : SendTask) (ans : Answer) (host : Host) :
      p.sendTaskAt j = some task → task.step p.shared.host ans = some (host, task') →
      SendStep p j task'
  | spawned (k u : String) (sources : List Source) (token : TokenId) :
      p.tasks.length ≤ j → SendStep p j (.new k u sources token)

theorem sendTaskAt_eq_some {j : Nat} {task : SendTask} :
    p.sendTaskAt j = some task ↔ p.tasks[j]? = some (.call (.sendStream task)) := by
  unfold Running.sendTaskAt
  cases p.tasks[j]? with
  | none => simp
  | some a =>
    cases a with
    | call t => cases t <;> simp [Activity.sendTask?]
    | admission _ | sendTextMessage _ | sendMessage _ _ | getWorker _ _ | workerMissing =>
      simp [Activity.sendTask?]

theorem sendTaskAt_of_length_le {j : Nat} (h : p.tasks.length ≤ j) : p.sendTaskAt j = none := by
  unfold Running.sendTaskAt
  rw [List.getElem?_eq_none h]
  rfl

/-- An activity that is a sending task afterwards was one before. -/
theorem sendStream_of_move {i i' : Instance} {a : Activity} {spawned : List Activity}
    {ans : ActivityAnswer} {task' : SendTask}
    (h : a.step s i ans = some (i', .call (.sendStream task'), spawned)) :
    ∃ task ans host, a = .call (.sendStream task) ∧ task.step i.host ans = some (host, task') := by
  generalize ha' : Activity.call (.sendStream task') = a' at h
  cases activity_move h with
  | call t t' host ans spawned hstep =>
    obtain rfl : Task.sendStream task' = t' := Activity.call.inj ha'
    cases task_move hstep with
    | sendStream task _ hadvance => exact ⟨task, ans, host, rfl, hadvance⟩
  | getWorker uuid op w _ => cases op <;> cases ha'
  | admission _ _ _ _ _ _ => cases ha'
  | sendTextMessage _ _ _ _ => cases ha'
  | sendMessage _ _ _ _ _ => cases ha'
  | missing _ _ => cases ha'

/-- A sending task that is spawned is at its start. -/
theorem new_of_spawned {i i' : Instance} {a a' : Activity} {spawned : List Activity}
    {task : SendTask} (h : ActivityMove s i a i' a' spawned)
    (hspawned : .call (.sendStream task) ∈ spawned) :
    ∃ k u sources token, task = .new k u sources token := by
  cases h with
  | call t t' host ans tasks hstep =>
    obtain ⟨t₁, ht₁, heq⟩ := List.mem_map.1 hspawned
    obtain rfl : t₁ = .sendStream task := Activity.call.inj heq
    cases task_move hstep with
    | startTransfer pc pc' hstart =>
      cases WarpServer.startTransfer_move hstart with
      | started transfer sourcePaths token queued sources _ =>
        obtain rfl := Task.sendStream.inj (List.mem_singleton.1 ht₁)
        exact ⟨_, _, _, _, rfl⟩
      | refused _ _ _ => cases ht₁
      | found _ _ _ _ _ => cases ht₁
      | lost _ _ _ _ _ => cases ht₁
    | acceptTransfer w pc pc' _ =>
      cases pc' with
      | receiving receive => cases List.mem_singleton.1 ht₁
      | lookup _ _ | request _ _ _ | update _ _ | failed _ => cases ht₁
    | processTransferOpRequest _ _ _ | peerStopTransfer _ _ _ | cancelTransferOpRequest _ _ _
    | sendTransferRequest _ _ _ _ | stopTransfer _ _ _ _ _ | cancelTransfer _ _ _ _
    | sendStream _ _ _ | receiveStream _ _ _ => cases ht₁
  | admission _ _ _ _ _ _ | sendTextMessage _ _ _ _ | sendMessage _ _ _ _ _ | getWorker _ _ _ _
  | missing _ _ => cases hspawned

/-- What a step of the instance does to the sending tasks. -/
theorem poolStep_sendStep (h : (activities s).poolStep p l = some p') {j : Nat} {task' : SendTask}
    (htask : p'.sendTaskAt j = some task') : SendStep p j task' := by
  rw [sendTaskAt_eq_some] at htask
  cases l with
  | run i ans =>
    obtain ⟨a, i', a', spawned, ha, hadvance, rfl⟩ := Tasking.run_cases h
    rcases Tasking.getElem?_run_places ha htask with ⟨rfl, rfl⟩ | ⟨_, hold⟩ | ⟨hj, hspawned⟩
    · obtain ⟨task, ans, host, rfl, hstep⟩ := sendStream_of_move hadvance
      exact .advanced task task' ans host (sendTaskAt_eq_some.2 ha) hstep
    · exact .same task' (sendTaskAt_eq_some.2 hold)
    · obtain ⟨k, u, sources, token, rfl⟩ := new_of_spawned (activity_move hadvance) hspawned
      exact .spawned k u sources token hj
  | enter a =>
    obtain ⟨hmay, rfl⟩ := Tasking.enter_cases h
    rcases Tasking.getElem?_enter_cases htask with hold | ⟨_, rfl⟩
    · exact .same task' (sendTaskAt_eq_some.2 hold)
    · cases hmay
  | env e =>
    cases h
    exact .same task' (sendTaskAt_eq_some.2 htask)

theorem token_of_step {host host' : Host} {task task' : SendTask} {ans : Answer}
    (h : task.step host ans = some (host', task')) :
    task'.cancellationToken = task.cancellationToken := by
  cases SendTask.step_move h <;> rfl

/-- A sending task stays where it is, with its token. -/
theorem poolStep_stays (h : (activities s).poolStep p l = some p') {j : Nat} {task : SendTask}
    (htask : p.sendTaskAt j = some task) :
    ∃ task', p'.sendTaskAt j = some task' ∧ task'.cancellationToken = task.cancellationToken := by
  have hat := sendTaskAt_eq_some.1 htask
  cases l with
  | run i ans =>
    obtain ⟨a, i', a', spawned, ha, hadvance, rfl⟩ := Tasking.run_cases h
    by_cases hj : j = i
    · subst hj
      obtain rfl : a = .call (.sendStream task) := Option.some.inj (ha.symm.trans hat)
      cases activity_move hadvance with
      | call _ t' host ans spawned hstep =>
        cases task_move hstep with
        | sendStream _ task' hsend =>
          exact ⟨task', sendTaskAt_eq_some.2 (Tasking.getElem?_run_self ha _ _),
            token_of_step hsend⟩
    · exact ⟨task, sendTaskAt_eq_some.2 (Tasking.getElem?_run_of_ne hat hj _ _), rfl⟩
  | enter a =>
    obtain ⟨_, rfl⟩ := Tasking.enter_cases h
    exact ⟨task, sendTaskAt_eq_some.2 (Tasking.getElem?_enter_of_some hat a), rfl⟩
  | env e =>
    cases h
    exact ⟨task, htask, rfl⟩

theorem poolStep_length (h : (activities s).poolStep p l = some p') :
    p.tasks.length ≤ p'.tasks.length := by
  cases l with
  | run i ans =>
    obtain ⟨a, i', a', spawned, _, _, rfl⟩ := Tasking.run_cases h
    simp
  | enter a =>
    obtain ⟨_, rfl⟩ := Tasking.enter_cases h
    simp
  | env e =>
    cases h
    exact le_refl _

end steps

/-! ## Section 3: Winding up -/

/-- What has become of a sending task whose token was cancelled when it was `old`,
    or when it was not there yet. -/
structure SendTask.Winds (old : Option SendTask) (task : SendTask) : Prop where
  handed : ∃ new, task.sender.handed = old.elim [] (fun t => t.sender.handed) ++ new ∧
    new.length + task.sender.pc.owes ≤ old.elim 0 fun t => t.sender.pc.owes
  /-- A state that it decides on afterwards is no failure. -/
  verdict : ∀ finalState, task.phase = .closing finalState →
    (∃ t, old = some t ∧ t.phase = .closing finalState) ∨
      finalState = .completed ∨ finalState = .canceled

theorem SendTask.winds_refl (task : SendTask) : SendTask.Winds (some task) task where
  handed := ⟨[], by simp⟩
  verdict finalState h := .inl ⟨task, rfl, h⟩

theorem SendTask.winds_new (k u : String) (sources : List Source) (token : TokenId) :
    SendTask.Winds none (.new k u sources token) where
  handed := by
    refine ⟨[], rfl, ?_⟩
    have hnone : (sourceLoop sources).owes = 0 := by cases sources <;> rfl
    show 0 + (sourceLoop sources).owes ≤ 0
    omega
  verdict _ h := by cases h

theorem sendFinalState_cancelled (result : Except TransferError Bool) :
    sendFinalState result true = .completed ∨ sendFinalState result true = .canceled := by
  unfold sendFinalState
  split
  · exact .inl rfl
  · exact .inr rfl
  · exact .inr rfl

/-- A step of the task under a cancelled token. -/
theorem SendTask.Winds.step {old : Option SendTask} {host host' : Host} {task task' : SendTask}
    {ans : Answer} (h : SendTask.Winds old task)
    (hcancelled : host.tokens.isCancelled task.cancellationToken = true)
    (hstep : task.step host ans = some (host', task')) : SendTask.Winds old task' := by
  cases SendTask.step_move hstep with
  | inner l queued sender hphase hpoll hsend =>
    have hagrees : l.agrees true = true := by
      cases l <;> simp_all [SendLabel.agrees, pollAgrees]
    obtain ⟨new, hhanded, howes⟩ := h.handed
    obtain ⟨more, hmore, howes'⟩ := sendStep_owes hagrees hsend
    refine ⟨⟨new ++ more, ?_, ?_⟩, fun finalState hclosing => ?_⟩
    · show sender.handed = _
      rw [hmore, hhanded, List.append_assoc]
    · show (new ++ more).length + sender.pc.owes ≤ _
      rw [List.length_append]
      omega
    · rw [hphase] at hclosing
      cases hclosing
  | decide queued result hphase hpc =>
    refine ⟨h.handed, fun finalState hclosing => .inr ?_⟩
    cases hclosing
    rw [hcancelled]
    exact sendFinalState_cancelled result
  | close queued finalState hphase => exact ⟨h.handed, fun _ hclosing => by cases hclosing⟩
  | leave queued hphase => exact ⟨h.handed, fun _ hclosing => by cases hclosing⟩

/-- The state `p'` some time after `p`: nobody revives a token, and the sending
    tasks whose token was cancelled in `p` wind up. -/
structure Running.Winding (p p' : Running) : Prop where
  grows : p.tasks.length ≤ p'.tasks.length
  cancelled : p.shared.host.KeepsCancelled p'.shared.host
  stays : ∀ j task, p.sendTaskAt j = some task → ∃ task', p'.sendTaskAt j = some task' ∧
    task'.cancellationToken = task.cancellationToken
  winds : ∀ j task', p'.sendTaskAt j = some task' →
    p.shared.host.tokens.isCancelled task'.cancellationToken = true →
    SendTask.Winds (p.sendTaskAt j) task'

section runs

variable {s : Settings} {p p' p'' : Running} {l : RunningLabel}

theorem winding_refl (p : Running) : p.Winding p where
  grows := le_refl _
  cancelled _ h := h
  stays _ task h := ⟨task, h, rfl⟩
  winds _ task' h _ := by
    rw [h]
    exact task'.winds_refl

theorem winding_step (h : p.Winding p') (hstep : (activities s).poolStep p' l = some p'') :
    p.Winding p'' where
  grows := le_trans h.grows (poolStep_length hstep)
  cancelled token hcancelled := poolStep_keepsCancelled hstep token (h.cancelled token hcancelled)
  stays j task htask := by
    obtain ⟨task', htask', htoken⟩ := h.stays j task htask
    obtain ⟨task'', htask'', htoken'⟩ := poolStep_stays hstep htask'
    exact ⟨task'', htask'', htoken'.trans htoken⟩
  winds j task'' htask hcancelled := by
    cases poolStep_sendStep hstep htask with
    | same _ hbefore => exact h.winds j task'' hbefore hcancelled
    | advanced task _ ans host hbefore hadvance =>
      rw [token_of_step hadvance] at hcancelled
      exact (h.winds j task hbefore hcancelled).step (h.cancelled _ hcancelled) hadvance
    | spawned k u sources token hj =>
      rw [sendTaskAt_of_length_le (le_trans h.grows hj)]
      exact SendTask.winds_new k u sources token

theorem winding_of_run {ls : List RunningLabel} (h : (activities s).pool.exec p ls = some p') :
    p.Winding p' :=
  (activities s).pool.exec_invariant (fun _ _ _ h hstep => winding_step h hstep) (winding_refl p) h

end runs

/-- From a state of an instance in which the token of a sending task is cancelled,
    whatever goes on in the instance: the task hands over at most one more chunk,
    and if it has still to decide on its final state, it decides for `Completed`
    or `Canceled`.  A task that is spawned under a cancelled token hands over
    nothing.  No token is revived, and the root token cancels them all: after it
    each sending task hands over at most one more chunk, and each new one none. -/
theorem cancelled_senders_stop {s : Settings} {p p' : Running} {ls : List RunningLabel}
    (hrun : (activities s).pool.exec p ls = some p') :
    (∀ (j : Nat) (task : SendTask), p.tasks[j]? = some (.call (.sendStream task)) →
      p.shared.host.tokens.isCancelled task.cancellationToken = true →
      ∃ task' new, p'.tasks[j]? = some (.call (.sendStream task')) ∧
        task'.sender.handed = task.sender.handed ++ new ∧ new.length ≤ 1 ∧
        (task.phase = .inner → ∀ finalState, task'.phase = .closing finalState →
          finalState = .completed ∨ finalState = .canceled)) ∧
    (∀ (j : Nat) (task' : SendTask), p.tasks.length ≤ j →
      p'.tasks[j]? = some (.call (.sendStream task')) →
      p.shared.host.tokens.isCancelled task'.cancellationToken = true →
      task'.sender.handed = []) ∧
    (∀ token, p.shared.host.tokens.isCancelled token = true →
      p'.shared.host.tokens.isCancelled token = true) ∧
    (p.shared.host.tokens.isCancelled [] = true →
      ∀ token, p.shared.host.tokens.isCancelled token = true) := by
  have hwinding := winding_of_run hrun
  refine ⟨fun j task htask hcancelled => ?_, fun j task' hj htask' hcancelled => ?_,
    hwinding.cancelled, fun hroot token => ?_⟩
  · have hat := sendTaskAt_eq_some.2 htask
    obtain ⟨task', htask', htoken⟩ := hwinding.stays j task hat
    rw [← htoken] at hcancelled
    have hwinds := hwinding.winds j task' htask' hcancelled
    rw [hat] at hwinds
    obtain ⟨new, hhanded, howes⟩ := hwinds.handed
    have hone : task.sender.pc.owes ≤ 1 := task.sender.pc.owes_le_one
    have howes : new.length + task'.sender.pc.owes ≤ task.sender.pc.owes := howes
    refine ⟨task', new, sendTaskAt_eq_some.1 htask', hhanded, by omega, ?_⟩
    intro hinner finalState hclosing
    rcases hwinds.verdict finalState hclosing with ⟨t, ht, hphase⟩ | hverdict
    · obtain rfl := Option.some.inj ht
      rw [hinner] at hphase
      cases hphase
    · exact hverdict
  · have hwinds := hwinding.winds j task' (sendTaskAt_eq_some.2 htask') hcancelled
    rw [sendTaskAt_of_length_le hj] at hwinds
    obtain ⟨new, hhanded, howes⟩ := hwinds.handed
    have howes : new.length + task'.sender.pc.owes ≤ 0 := howes
    have hnil : new = [] := List.eq_nil_of_length_eq_zero (by omega)
    rw [hhanded, hnil]
    rfl
  · obtain ⟨c, hc, hprefix⟩ := List.any_eq_true.1 hroot
    obtain rfl : c = [] := List.prefix_nil.1 (List.isPrefixOf_iff_prefix.1 hprefix)
    exact List.any_eq_true.2 ⟨[], hc, rfl⟩

/-- The one byte of a file is being read for `b` when the server shuts down. -/
def shutdownRun : List RunningLabel :=
  [.env (.files fun _ => .file [7] none),
    .enter (.admission (.register (.lookup registrationOfB))),
    .run 0 (.admission .go), .run 0 (.admission .go), .run 0 (.admission .go),
    .enter (.getWorker "b" (.sendTransferRequest [OsString.ofString "/f"])),
    .run 1 (.call (.go 0)), .run 1 (.call (.fresh ⟨0, 1⟩ 0)), .run 1 (.call (.go 0)),
    .run 1 (.call (.processed (.ok ⟨1, 1, ["f"], some "f", none⟩))),
    .run 1 (.call (.reply (.ok ()))),
    .run 1 (.call (.go 0)),
    .enter (.call (.startTransfer (.lookup ⟨"b", 1, "", false⟩))),
    .run 2 (.call (.go 0)), .run 2 (.call (.go 0)),
    .run 3 (.call (.send (.poll false) 0)), .run 3 (.call (.send (.io none) 0)),
    .run 3 (.call (.send (.io none) 0)), .run 3 (.call (.send (.poll false) 0)),
    .env (.cancel [])]

/-- What the sending task does after that.  A cancelled token ends the file, which
    is the last one. -/
def windingRun : List RunningLabel :=
  [.run 3 (.call (.send (.read (.ok 1)) 0)), .run 3 (.call (.send (.send true) 0)),
    .run 3 (.call (.send (.progress 1) 0)), .run 3 (.call (.send (.poll true) 0)),
    .run 3 (.call (.go 0))]

theorem cancelled_senders_stop_reading :
    ∃ p p' task task' new,
      (activities settingsOfA).pool.exec (Running.new false) shutdownRun = some p ∧
      (activities settingsOfA).pool.exec p windingRun = some p' ∧
      p.tasks[3]? = some (.call (.sendStream task)) ∧
      p'.tasks[3]? = some (.call (.sendStream task')) ∧
      task'.sender.handed = task.sender.handed ++ new ∧ new.length ≤ 1 ∧
      task'.phase = .closing .completed := by
  obtain ⟨p, hrun, p', hrun', task, htask, hcancelled, closing, hclosing, hphase⟩ :
      ∃ p, (activities settingsOfA).pool.exec (Running.new false) shutdownRun = some p ∧
      ∃ p', (activities settingsOfA).pool.exec p windingRun = some p' ∧
      ∃ task, p.tasks[3]? = some (.call (.sendStream task)) ∧
        p.shared.host.tokens.isCancelled task.cancellationToken = true ∧
      ∃ closing, p'.tasks[3]? = some (.call (.sendStream closing)) ∧
        closing.phase = .closing .completed :=
    ⟨_, rfl, _, rfl, _, rfl, rfl, _, rfl, rfl⟩
  obtain ⟨task', new, htask', hhanded, hone, _⟩ :=
    (cancelled_senders_stop hrun').1 3 task htask hcancelled
  have hsame : closing = task' :=
    Task.sendStream.inj (Activity.call.inj (Option.some.inj (hclosing.symm.trans htask')))
  exact ⟨p, p', task, task', new, hrun, hrun', htask, htask', hhanded, hone, hsame ▸ hphase⟩

end Warpinator
