import Warpinator.Transfers.Emission
import Warpinator.Transfers.StreamTasks

/-! # Cancelling a Sender

    The token of a sender is cancelled at some moment of its run.
    `send_stream_inner` polls it in three loops, and a read loop that finds it
    cancelled returns the same `Ok(())` as one at the end of its file.

    `truthful_iff_continues`: the result is truthful exactly if the sender never
    stops in the last file that it enumerates. -/

namespace Warpinator

/-! ## Section 1: Runs -/

/-- A poll answers what the token says. -/
def SendLabel.agrees (cancelled : Bool) : SendLabel → Bool
  | .poll b => b == cancelled
  | _ => true

/-- A run of `send_stream_inner` to its end. -/
structure SendRun (sources : List Source) where
  labels : List SendLabel
  /-- The token is cancelled before the step of this number. -/
  moment : Nat
  last : Sender
  result : Except TransferError Bool
  exec : sender.exec (.start sources) labels = some last
  returned : last.pc = .returned result
  polls : ∀ i (h : i < labels.length), labels[i].agrees (decide (moment ≤ i)) = true

namespace SendRun

variable {sources : List Source}

/-- What `send_stream` records. -/
def finalState (r : SendRun sources) : TransferState :=
  sendFinalState r.result (decide (r.moment ≤ r.labels.length))

/-- The token stops a file before its end; `post` is the rest of the run. -/
def Stops (r : SendRun sources) (file : FileLoop) (cont : SendCont) (post : List SendLabel) :
    Prop :=
  ∃ pre s, r.labels = pre ++ .poll true :: post ∧ sender.exec (.start sources) pre = some s ∧
    s.pc = .filePoll file cont ∧ file.remaining ≠ []

/-- `Ok(true)` says that every file has been sent, and a file that was stopped
    ends the transfer as cancelled. -/
structure Truthful (r : SendRun sources) : Prop where
  completed : r.result = .ok true → HandedAll sources r.last.handed
  stopped : ∀ file cont post, r.Stops file cont post → r.finalState = .canceled

end SendRun

/-- Something follows the file: a source, or another item of the walker. -/
def SendCont.Continues (post : List SendLabel) : SendCont → Prop
  | .nextSource rest => rest ≠ []
  | .nextEntry _ entries rest => entries ≠ [] ∨ rest ≠ [] ∨ post.head? = some (.next true)

/-- `Completed` is recorded for `Ok(true)` only. -/
theorem finalState_completed_iff {sources : List Source} (r : SendRun sources) :
    r.finalState = .completed ↔ r.result = .ok true := by
  unfold SendRun.finalState sendFinalState
  split
  · simp_all
  · split <;> simp_all
  · simp_all

/-! ## Section 2: After a stop -/

section stops

variable {s s' : Sender} {ls : List SendLabel} {result : Except TransferError Bool}

/-- Every poll finds the token cancelled. -/
def Cancelled (ls : List SendLabel) : Prop := ∀ l ∈ ls, l.agrees true = true

/-- A sender that has returned takes no further step. -/
theorem returned_stays {r : Except TransferError Bool} (hpc : s.pc = .returned r)
    (hrun : sender.exec s ls = some s') : ls = [] ∧ s' = s := by
  cases ls with
  | nil => exact ⟨rfl, (Option.some.inj hrun).symm⟩
  | cons l ls =>
    obtain ⟨t, hstep, _⟩ := (Machine.exec_cons _).1 hrun
    obtain ⟨cs, _, hmove⟩ := sendStep_move hstep
    rw [hpc] at hmove
    cases hmove

/-- A run that ends by returning, and has not returned yet, begins with a move. -/
theorem first_move (hpc : ∀ r, s.pc ≠ .returned r) (hrun : sender.exec s ls = some s')
    (hret : s'.pc = .returned result) :
    ∃ l ls' t cs, ls = l :: ls' ∧ SendMove s.pc l t.pc cs ∧ sender.exec t ls' = some s' := by
  cases ls with
  | nil =>
    obtain rfl := Option.some.inj hrun
    exact absurd hret (hpc result)
  | cons l ls =>
    obtain ⟨t, hstep, hrest⟩ := (Machine.exec_cons _).1 hrun
    obtain ⟨cs, _, hmove⟩ := sendStep_move hstep
    exact ⟨l, ls, t, cs, rfl, hmove, hrest⟩

/-- A point that is left only by returning `Ok(false)`. -/
theorem result_of_leaves (hpc : ∀ r, s.pc ≠ .returned r)
    (hleaves : ∀ l pc' cs, l.agrees true = true → SendMove s.pc l pc' cs →
      pc' = .returned (.ok false))
    (hcancelled : Cancelled ls) (hrun : sender.exec s ls = some s')
    (hret : s'.pc = .returned result) : result = .ok false := by
  obtain ⟨l, ls', t, cs, rfl, hmove, hrest⟩ := first_move hpc hrun hret
  have ht := hleaves l t.pc cs (hcancelled l (by simp)) hmove
  obtain ⟨_, rfl⟩ := returned_stays ht hrest
  rw [ht] at hret
  cases hret
  rfl

/-- The source loop polls the token first. -/
theorem sourceLoop_cancelled {rest : List Source} (hrest : rest ≠ []) (hpc : s.pc = sourceLoop rest)
    (hcancelled : Cancelled ls) (hrun : sender.exec s ls = some s')
    (hret : s'.pc = .returned result) : result = .ok false := by
  cases rest with
  | nil => exact absurd rfl hrest
  | cons source rest =>
    refine result_of_leaves (by simp [hpc, sourceLoop]) ?_ hcancelled hrun hret
    rw [hpc]
    intro l pc' cs hagrees hmove
    cases hmove with
    | sourceCancelled => rfl
    | sourceRootless | sourcePolled => cases hagrees

/-- The walk loop polls the token after each item. -/
theorem walkPoll_cancelled {base : Path} {item : Option WalkEntry} {entries : List WalkEntry}
    {rest : List Source} (hpc : s.pc = .walkPoll base item entries rest)
    (hcancelled : Cancelled ls) (hrun : sender.exec s ls = some s')
    (hret : s'.pc = .returned result) : result = .ok false := by
  refine result_of_leaves (by simp [hpc]) ?_ hcancelled hrun hret
  rw [hpc]
  intro l pc' cs hagrees hmove
  cases hmove with
  | walkCancelled => rfl
  | walkError | walkPolled => cases hagrees

/-- Where something follows, a poll of the token follows. -/
theorem resume_cancelled {cont : SendCont} (hpc : s.pc = cont.resume) (hcont : cont.Continues ls)
    (hcancelled : Cancelled ls) (hrun : sender.exec s ls = some s')
    (hret : s'.pc = .returned result) : result = .ok false := by
  cases cont with
  | nextSource rest => exact sourceLoop_cancelled hcont hpc hcancelled hrun hret
  | nextEntry base entries rest =>
    have hpc : s.pc = .walkNext base entries rest := hpc
    obtain ⟨l, ls', t, cs, rfl, hmove, hrest⟩ := first_move (by simp [hpc]) hrun hret
    have htail : Cancelled ls' := fun l' hl' => hcancelled l' (List.mem_cons_of_mem l hl')
    rw [hpc] at hmove
    generalize htpc : t.pc = pc at hmove
    -- an item, or an error item, is polled; the end of the walk leads to the next source
    cases hmove with
    | walkFailed => exact walkPoll_cancelled htpc htail hrest hret
    | walkItem => exact walkPoll_cancelled htpc htail hrest hret
    | walkDone =>
      have hne : rest ≠ [] := by simpa [SendCont.Continues] using hcont
      exact sourceLoop_cancelled hne htpc htail hrest hret

/-- Where nothing follows, the sender returns `Ok(true)`. -/
theorem resume_finishes {cont : SendCont} (hpc : s.pc = cont.resume) (hcont : ¬ cont.Continues ls)
    (hrun : sender.exec s ls = some s') (hret : s'.pc = .returned result) : result = .ok true := by
  have hdone : ∀ {t : Sender} {ls' : List SendLabel}, t.pc = sourceLoop [] →
      sender.exec t ls' = some s' → result = .ok true := by
    intro t ls' htpc hrun
    obtain ⟨_, rfl⟩ := returned_stays htpc hrun
    rw [htpc] at hret
    cases hret
    rfl
  cases cont with
  | nextSource rest =>
    have hrest : rest = [] := by simpa [SendCont.Continues] using hcont
    subst hrest
    exact hdone hpc hrun
  | nextEntry base entries rest =>
    have hpc : s.pc = .walkNext base entries rest := hpc
    simp only [SendCont.Continues, not_or, not_not] at hcont
    -- nothing is left to walk, so the next answer of the walker can only end the walk
    obtain ⟨rfl, rfl, hhead⟩ := hcont
    obtain ⟨l, ls', t, cs, rfl, hmove, hrest⟩ := first_move (by simp [hpc]) hrun hret
    rw [hpc] at hmove
    generalize htpc : t.pc = pc at hmove
    cases hmove with
    | walkFailed => exact absurd rfl hhead
    | walkDone => exact hdone htpc hrest

/-! ## Section 3: Without a stop -/

/-- The step stops no file before its end. -/
def StopsNone (s : Sender) (l : SendLabel) : Prop :=
  ∀ file cont, s.pc = .filePoll file cont → l = .poll true → file.remaining = []

/-- The other early exits return, but not `Ok(true)`. -/
theorem SendMove.exit_cases {pc pc' : SendPc} {l : SendLabel} {cs : List FileChunk}
    (h : SendMove pc l pc' cs) (hexit : earlyExit pc l = true) :
    (∃ file cont, pc = .filePoll file cont ∧ l = .poll true) ∨
      ∃ r, pc' = .returned r ∧ r ≠ .ok true := by
  cases h with
  | fileCancelled file cont => exact .inl ⟨file, cont, rfl, rfl⟩
  | sourceCancelled | walkCancelled => exact .inr ⟨_, rfl, by simp⟩
  | sourceRootless | sourceFailed | walkError | entryFailed | dirRefused | openFailed | readFailed
  | chunkRefused => exact .inr ⟨_, rfl, by simp⟩
  | sourcePolled base source rest hp => simp [earlyExit, hp] at hexit
  | sourceEntered | walkFailed | walkDone | walkItem | walkPolled | entryEntered | dirSent | opened
  | filePolled | readEof | readBytes | chunkSent | progressed => cases hexit

theorem noLoss_of_stopsNone {t : Sender} {l : SendLabel} (hstep : sendStep s l = some t)
    (hstops : StopsNone s l) (hnot : ∀ r, t.pc = .returned r → r = .ok true) : NoLoss s l := by
  intro hexit
  obtain ⟨cs, _, hmove⟩ := sendStep_move hstep
  rcases hmove.exit_cases hexit with ⟨file, cont, hpc, hl⟩ | ⟨r, hr, hne⟩
  · simp [hpc, SendPc.abandoned, FileLoop.item, itemBytes, Item.data, hstops file cont hpc hl]
  · exact absurd (hnot r hr) hne

/-- A run that stops no file and returns `Ok(true)` hands over every file. -/
theorem handedAll_of_stopsNone {sources : List Source} (hwf : s.pc.WellFormed)
    (hcarries : Carries sources s) (hstops : sender.Along StopsNone s ls)
    (hrun : sender.exec s ls = some s') (hret : s'.pc = .returned (.ok true)) :
    HandedAll sources s'.handed := by
  induction ls generalizing s with
  | nil =>
    obtain rfl := Option.some.inj hrun
    exact hcarries.handedAll hret
  | cons l ls ih =>
    obtain ⟨t, hstep, hrest⟩ := (Machine.exec_cons _).1 hrun
    have hnot : ∀ r, t.pc = .returned r → r = .ok true := by
      intro r hr
      obtain ⟨_, rfl⟩ := returned_stays hr hrest
      rw [hr] at hret
      exact SendPc.returned.inj hret
    -- any other early exit would have returned something else
    have hloss := noLoss_of_stopsNone hstep hstops.1 hnot
    exact ih (step_wellFormed hstep) (step_carries hstep hloss hwf hcarries) (hstops.2 t hstep)
      hrest

end stops

/-! ## Section 4: Truthful results -/

variable {sources : List Source} {r : SendRun sources} {file : FileLoop} {cont : SendCont}
  {post : List SendLabel}

/-- The run after a stop. -/
theorem SendRun.Stops.after (h : r.Stops file cont post) :
    (∃ t, t.pc = cont.resume ∧ sender.exec t post = some r.last) ∧ Cancelled post ∧
      r.moment ≤ r.labels.length := by
  obtain ⟨pre, s, hlabels, hpre, hpc, _⟩ := h
  have hexec := r.exec
  rw [hlabels] at hexec
  obtain ⟨s₁, hpre', hrest⟩ := (Machine.exec_append _).1 hexec
  obtain rfl : s = s₁ := Option.some.inj (hpre.symm.trans hpre')
  obtain ⟨t, hstep, hrest⟩ := (Machine.exec_cons _).1 hrest
  obtain ⟨cs, _, hmove⟩ := sendStep_move hstep
  rw [hpc] at hmove
  have hmoment : r.moment ≤ pre.length := by
    have hpoll := r.polls pre.length (by simp [hlabels])
    simpa [hlabels, SendLabel.agrees] using hpoll
  refine ⟨⟨t, ?_, hrest⟩, ?_, ?_⟩
  · generalize t.pc = pc at hmove
    cases hmove
    rfl
  · -- the polls after a cancelled one find the token cancelled
    intro l hl
    obtain ⟨j, hj, rfl⟩ := List.getElem_of_mem hl
    have hlt : pre.length + 1 + j < r.labels.length := by
      simp only [hlabels, List.length_append, List.length_cons]
      omega
    have hpoll := r.polls _ hlt
    have hle : r.moment ≤ pre.length + 1 + j := by omega
    have hget : r.labels[pre.length + 1 + j] = post[j] := by
      simp only [hlabels]
      rw [List.getElem_append_right (by omega)]
      simp [Nat.add_assoc, Nat.add_comm 1]
    rwa [hget, decide_eq_true hle] at hpoll
  · simp only [hlabels, List.length_append, List.length_cons]
    omega

/-- A stopped file that something follows ends the transfer as cancelled. -/
theorem SendRun.Stops.result_of_continues (h : r.Stops file cont post)
    (hcont : cont.Continues post) : r.result = .ok false := by
  obtain ⟨⟨t, hpc, hrun⟩, hcancelled, _⟩ := h.after
  exact resume_cancelled hpc hcont hcancelled hrun r.returned

theorem SendRun.Stops.result_of_last (h : r.Stops file cont post)
    (hcont : ¬ cont.Continues post) : r.result = .ok true := by
  obtain ⟨⟨t, hpc, hrun⟩, _, _⟩ := h.after
  exact resume_finishes hpc hcont hrun r.returned

/-- The result is truthful exactly if something follows every file that the
    token has stopped. -/
theorem truthful_iff_continues (r : SendRun sources) :
    r.Truthful ↔ ∀ file cont post, r.Stops file cont post → cont.Continues post := by
  constructor
  · intro h file cont post hstops
    by_contra hcont
    have hcompleted := (finalState_completed_iff r).2 (hstops.result_of_last hcont)
    rw [h.stopped file cont post hstops] at hcompleted
    cases hcompleted
  · intro h
    constructor
    · intro hresult
      -- a file that was stopped would make the result `Ok(false)`
      have hstops : sender.Along StopsNone (.start sources) r.labels := by
        by_contra hnot
        obtain ⟨pre, l, post, s, u, hlabels, _, hpre, hbad, _, _⟩ :=
          Machine.exists_first_bad _ r.exec hnot
        simp only [StopsNone, not_forall] at hbad
        obtain ⟨file, cont, hpc, hl, hne⟩ := hbad
        subst hl
        have hstops : r.Stops file cont post := ⟨pre, s, hlabels, hpre, hpc, hne⟩
        have hfalse := hstops.result_of_continues (h file cont post hstops)
        rw [hresult] at hfalse
        cases hfalse
      exact handedAll_of_stopsNone (sourceLoop_wellFormed _) (carries_start _) hstops r.exec
        (hresult ▸ r.returned)
    · intro file cont post hstops
      simp [SendRun.finalState, hstops.result_of_continues (h file cont post hstops),
        sendFinalState]

/-- The file `/f` with one byte. -/
def sourceOfOneByte : Source where
  path := OsString.ofString "/f"
  kind := .file [0] none

/-- The token is cancelled when the file has been opened. -/
def stoppedRun : SendRun [sourceOfOneByte] where
  labels := [.poll false, .io none, .io none, .poll true]
  moment := 3
  last := (Sender.start [sourceOfOneByte]).goto (.returned (.ok true))
  result := .ok true
  exec := rfl
  returned := rfl
  polls := by decide

/-- No byte has been sent. -/
theorem stoppedRun_completed :
    stoppedRun.finalState = .completed ∧ stoppedRun.last.handed = [] ∧ ¬ stoppedRun.Truthful := by
  refine ⟨rfl, rfl, fun h => ?_⟩
  have hstate : stoppedRun.finalState = .canceled :=
    h.stopped _ _ [] ⟨[.poll false, .io none, .io none], _, rfl, rfl, rfl, by simp⟩
  cases hstate

end Warpinator
