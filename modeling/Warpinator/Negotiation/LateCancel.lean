import Warpinator.Negotiation.Finished
import Warpinator.Server.StateChanges

/-! # Late Cancellations

    `cancel_transfer_op_request` refuses a transfer that does not wait for
    permission.  It looks at a copy of the record and writes later, so that the
    transfer may have been started, stopped or denied in between.

    `cancel_overwrites_waiting`: the state that it overwrites is
    `WaitingPermission` as long as nobody else changes the state of a transfer
    between the check and the write. -/

namespace Warpinator

open WarpServer

/-! ## Section 1: The check and the write -/

/-- The handler has checked the transfer, and writes its state in the next step. -/
def Activity.cancels (k u : String) : Activity → Bool
  | .call (.cancelTransferOpRequest (.update t _)) => t.remoteUuid = k ∧ t.uuid = u
  | _ => false

/-- The state that a handler overwrites is `WaitingPermission`. -/
def OverwritesWaiting (p : Running) : RunningLabel → Prop
  | .run j _ => ∀ a ∈ p.tasks[j]?, ∀ k u, a.cancels k u = true →
      ∀ s, p.shared.host.stateOf k u = some s → s = .waitingPermission
  | _ => True

/-- The step changes the state of no transfer that another handler has checked. -/
def LeavesChecked (p : Running) (l : RunningLabel) : Prop :=
  match l, p.updates l with
  | .run j _, some (k, u, f) =>
    ∀ b ∈ p.tasks.eraseIdx j, b.cancels k u = true →
      ∀ r ∈ p.shared.host.transfer k u, (f.apply r).state = r.state
  | _, _ => True

/-- What a handler has checked is still so, or the transfer is gone for good. -/
structure Running.Checked (p : Running) (k u : String) : Prop where
  drawn : u ∈ p.shared.host.uuids
  stored : ∀ a ∈ p.tasks, a.pending ≠ some (k, u)
  waiting : ∀ s, p.shared.host.stateOf k u = some s → s = .waitingPermission

def Running.AllChecked (p : Running) : Prop :=
  ∀ a ∈ p.tasks, ∀ k u, a.cancels k u = true → p.Checked k u

/-! ## Section 2: What a step keeps -/

section steps

variable {s : Settings} {p p' : Running} {l : RunningLabel} {k u : String}

/-- What is found waiting is checked. -/
theorem checked_of_waiting (hp : p.Sound)
    (hst : p.shared.host.stateOf k u = some .waitingPermission) : p.Checked k u := by
  have hmem : u ∈ p.shared.stored k := by
    obtain ⟨t, ht, _⟩ := Option.map_eq_some_iff.1 hst
    obtain ⟨r, hr, hfind⟩ := Option.bind_eq_some_iff.1 ht
    have hremote : p.shared.remote k = some r := hr
    have huuid : t.uuid = u := by simpa using List.find?_some hfind
    unfold Instance.stored
    rw [hremote, ← huuid]
    exact List.mem_append_left _ (List.mem_map_of_mem (List.mem_of_find?_eq_some hfind))
  refine ⟨hp.drawn_stored k u hmem, fun a ha hpending => ?_, fun st hst' => ?_⟩
  · -- it is counted once, and it is stored
    have honce := hp.once k u
    have hpos : 0 < (p.shared.stored k).count u := List.count_pos_iff.2 hmem
    have hheld : 0 < p.tasks.countP fun t => t.pending = some (k, u) :=
      List.countP_pos_iff.2 ⟨a, ha, by simp [hpending]⟩
    unfold Instance.load at honce
    omega
  · exact (Option.some.inj (hst.symm.trans hst')).symm

theorem checked_step (hp : p.Sound) (hstep : (activities s).poolStep p l = some p')
    (hchecked : p.Checked k u)
    (hkeeps : ∀ f r, p.updates l = some (k, u, f) → p.shared.host.transfer k u = some r →
      (f.apply r).state = r.state) : p'.Checked k u where
  drawn := (load_step hp hstep (k := k) hchecked.drawn).1
  stored b hb hpending := by
    cases Tasking.origin_of_mem hstep hb with
    | kept hold _ => exact hchecked.stored b hold hpending
    | made j ans a a' spawned _ ha hadvance hmem =>
      rcases pending_step (activity_move hadvance) hmem hpending with hheld | hfresh
      · exact hchecked.stored a (List.mem_of_getElem? ha) hheld
      · exact hfresh hchecked.drawn
    | entered _ hnew =>
      rw [(sound_of_entering (i := p.shared) hnew).2] at hpending
      cases hpending
  waiting st hst := by
    rcases stateOf_step hp hstep hchecked.drawn hchecked.stored hst with
      hsame | ⟨f, r, hupdates, hr, rfl⟩
    · exact hchecked.waiting st hsame
    · rw [hkeeps f r hupdates hr]
      exact hchecked.waiting r.state (by rw [Host.stateOf, hr]; rfl)

/-- No other call becomes a handler of `CancelTransferOpRequest`, or spawns one. -/
theorem step_cancelRequest {t t' : Task} {spawned : List Task} {host host' : Host} {ans : Answer}
    (h : t.step host ans = some (host', t', spawned)) :
    (∃ pc, t = .cancelTransferOpRequest pc) ∨
      ∀ u ∈ t' :: spawned, ∀ pc, u ≠ .cancelTransferOpRequest pc := by
  cases task_move h with
  | cancelTransferOpRequest pc pc₁ _ => exact .inl ⟨pc, rfl⟩
  | startTransfer pc pc₁ _ =>
    right
    cases pc₁ <;> simp [StartPc.spawned]
  | acceptTransfer w pc pc₁ _ =>
    right
    cases pc₁ <;> simp [Worker.AcceptPc.spawned]
  | processTransferOpRequest _ _ _ | peerStopTransfer _ _ _ | sendTransferRequest _ _ _ _
  | stopTransfer _ _ _ _ _ | cancelTransfer _ _ _ _ | sendStream _ _ _ | receiveStream _ _ _ =>
    right
    simp

/-- A handler that is about to write has just found its transfer waiting. -/
theorem waiting_of_cancels (hp : p.Sound) {a a' b : Activity} {ans : ActivityAnswer} {i' : Instance}
    {spawned : List Activity} (hadvance : a.step s p.shared ans = some (i', a', spawned))
    (hb : b ∈ a' :: spawned) (hcancels : b.cancels k u = true) :
    i' = p.shared ∧ p.shared.host.stateOf k u = some .waitingPermission := by
  have hform : ∃ t newState, b = .call (.cancelTransferOpRequest (.update t newState)) ∧
      t.remoteUuid = k ∧ t.uuid = u := by
    unfold Activity.cancels at hcancels
    split at hcancels
    · next t newState => exact ⟨t, newState, rfl, by simpa using hcancels⟩
    · cases hcancels
  obtain ⟨t, newState, rfl, rfl, rfl⟩ := hform
  cases activity_move hadvance with
  | admission t₁ t₁' g ans spawned _ => cases List.mem_singleton.1 hb
  | sendTextMessage pc pc' host _ => cases List.mem_singleton.1 hb
  | sendMessage w pc pc' host _ => cases List.mem_singleton.1 hb
  | missing uuid op => cases List.mem_singleton.1 hb
  | getWorker uuid op w _ =>
    have heq := List.mem_singleton.1 hb
    cases op <;> cases heq
  | call t₁ t₁' host ans spawned hstep =>
    -- the handler itself, in its lookup: no other step leads to its update
    rcases step_cancelRequest hstep with ⟨pc, rfl⟩ | hnot
    · obtain ⟨⟨host₁, pc₁⟩, hcancel, heq⟩ := Option.map_eq_some_iff.1 hstep
      cases heq
      have hpc : pc₁ = .update t newState := by
        cases List.mem_singleton.1 hb
        rfl
      cases cancelTransferOpRequest_move hcancel with
      | refused req status _ => cases hpc
      | updated t' newState' queued => cases hpc
      | found req transfer hfound hwaiting =>
        -- it has found the transfer under its protocol id, in `WaitingPermission`
        cases hpc
        refine ⟨rfl, ?_⟩
        rw [Host.stateOf, transfer_of_found hp.wellFormed hfound, Option.map_some, hwaiting]
    · rw [← List.map_cons] at hb
      obtain ⟨t₂, ht₂, heq⟩ := List.mem_map.1 hb
      exact absurd (Activity.call.inj heq) (hnot t₂ ht₂ _)

theorem allChecked_step (hp : p.Sound) (hleaves : LeavesChecked p l) (hall : p.AllChecked)
    (hstep : (activities s).poolStep p l = some p') : p'.AllChecked := by
  intro b hb k u hcancels
  cases Tasking.origin_of_mem hstep hb with
  | kept hold hother =>
    -- a handler that does not step itself
    refine checked_step hp hstep (hall b hold k u hcancels) fun f r hupdates hr => ?_
    cases l with
    | run j ans =>
      simp only [LeavesChecked, hupdates] at hleaves
      exact hleaves b (hother j ans rfl) hcancels r hr
    | enter a => cases hupdates
    | env e => cases hupdates
  | made j ans a a' spawned _ ha hadvance hmem =>
    obtain ⟨hsame, hwaiting⟩ := waiting_of_cancels hp hadvance hmem hcancels
    refine checked_of_waiting (sound_step hp hstep) ?_
    rw [hsame]
    exact hwaiting
  | entered _ hnew =>
    -- whoever enters has checked nothing
    unfold Activity.cancels at hcancels
    split at hcancels
    · cases hnew
    · cases hcancels

end steps

/-! ## Section 3: Every run -/

/-- As long as nobody else changes the state of a transfer between the check and the
    write of a handler, the state that a handler overwrites is
    `WaitingPermission`. -/
theorem cancel_overwrites_waiting {s : Settings} {checks : Bool} {ls : List RunningLabel}
    (hleaves : (activities s).pool.Along LeavesChecked (Running.new checks) ls) :
    (activities s).pool.Along OverwritesWaiting (Running.new checks) ls := by
  refine Machine.Along.of_invariant (activities s).pool
    (I := fun p : Running => Running.Sound p ∧ Running.AllChecked p) ?_ ?_ ?_ hleaves
  · rintro p l p' hl ⟨hp, hall⟩ hstep
    exact ⟨sound_step hp hstep, allChecked_step hp hl hall hstep⟩
  · rintro p l ⟨_, hall⟩
    cases l with
    | run j ans =>
      intro a ha k u hcancels
      exact (hall a (List.mem_of_getElem? ha) k u hcancels).waiting
    | enter a => trivial
    | env e => trivial
  · refine ⟨sound_new checks, fun a ha => ?_⟩
    cases ha

instance (p : Running) (l : RunningLabel) : Decidable (LeavesChecked p l) := by
  unfold LeavesChecked
  split
  · infer_instance
  · infer_instance

/-- `b` denies the transfer. -/
def denialRun : List RunningLabel :=
  announcedRun ++ [.enter (.call (.cancelTransferOpRequest (.lookup announcedToB))),
    .run 2 (.call (.go 0)), .run 2 (.call (.go 0))]

theorem denial_overwrites_waiting :
    ((activities settingsOfA).pool.exec (Running.new false) denialRun).map
        (fun p => p.shared.host.stateOf "b" (Uuid.toString ⟨0, 1⟩)) = some (some .denied) ∧
      (activities settingsOfA).pool.Along OverwritesWaiting (Running.new false) denialRun :=
  ⟨rfl, cancel_overwrites_waiting (by decide)⟩

/-- `b` starts the transfer between the check and the write of its denial. -/
def startedBetween : List RunningLabel :=
  announcedRun ++ [.enter (.call (.cancelTransferOpRequest (.lookup announcedToB))),
    .run 2 (.call (.go 0)),
    .enter (.call (.startTransfer (.lookup announcedToB))), .run 3 (.call (.go 0)),
    .run 3 (.call (.go 0))]

/-- The denial overwrites a transfer in progress. -/
theorem late_denial_overwrites :
    ∃ p p', (activities settingsOfA).pool.exec (Running.new false) startedBetween = some p ∧
      (activities settingsOfA).poolStep p (.run 2 (.call (.go 0))) = some p' ∧
      p.shared.host.stateOf "b" (Uuid.toString ⟨0, 1⟩) = some .inProgress ∧
      p'.shared.host.stateOf "b" (Uuid.toString ⟨0, 1⟩) = some .denied ∧
      ¬ (activities settingsOfA).pool.Along OverwritesWaiting (Running.new false)
        (startedBetween ++ [.run 2 (.call (.go 0))]) := by
  have hexec : ∃ p p' a,
      (activities settingsOfA).pool.exec (Running.new false) startedBetween = some p ∧
      (activities settingsOfA).poolStep p (.run 2 (.call (.go 0))) = some p' ∧
      p.shared.host.stateOf "b" (Uuid.toString ⟨0, 1⟩) = some .inProgress ∧
      p'.shared.host.stateOf "b" (Uuid.toString ⟨0, 1⟩) = some .denied ∧
      p.tasks[2]? = some a ∧ a.cancels "b" (Uuid.toString ⟨0, 1⟩) = true :=
    ⟨_, _, _, rfl, rfl, rfl, rfl, rfl, rfl⟩
  obtain ⟨p, p', a, hrun, hstep, hstarted, hdenied, ha, hcancels⟩ := hexec
  refine ⟨p, p', hrun, hstep, hstarted, hdenied, fun halong => ?_⟩
  have hlast := ((activities settingsOfA).pool.along_snoc.1 halong).2 p hrun
  have hwaiting := hlast a ha "b" _ hcancels _ hstarted
  cases hwaiting

end Warpinator
