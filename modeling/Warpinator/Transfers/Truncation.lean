import Warpinator.Transfers.Emission
import Warpinator.Transfers.StreamTasks

/-! # Truncated Transfers

    A sending and a receiving task joined by the stream between them.  Chunks
    arrive in order; when the sender has dropped `tx` and every chunk has
    arrived, `stream.message()` answers `Ok(None)`; when the connection is lost
    it answers an error.

    The receiver takes `Ok(None)` for success.  `handedAll_iff_noLoss` says
    when that is justified: a transfer that the receiver has completed is whole
    exactly if no early exit of the sender left bytes behind. -/

namespace Warpinator

/-! ## Section 1: The link -/

structure Link where
  sender : Host
  receiver : Host
  sendTask : SendTask
  receiveTask : ReceiveTask
  /-- The chunks in flight, oldest first. -/
  queue : List FileChunk
  /-- The connection has been lost. -/
  broken : Bool

inductive LinkLabel where
  /-- A step of the sending task. -/
  | send (ans : Answer)
  /-- A step of the receiving task. -/
  | receive (ans : Answer)
  | cancelSender (token : TokenId)
  | cancelReceiver (token : TokenId)
  | lose

/-- `tx` accepts a chunk while the other end of the channel is there. -/
def Link.accepts (s : Link) : Answer → Bool
  | .send (.send accepted) _ => accepted || s.broken || s.receiveTask.phase != .inner
  | _ => true

/-- The chunks in flight after `stream.message()` has given its answer, `none`
    where it cannot answer so. -/
def Link.arrives (s : Link) : Answer → Option (List FileChunk)
  | .receive (.message _ chunk) _ _ =>
    match s.queue with
    | c :: rest => if c = chunk then some rest else none
    | [] => none
  | .receive .endOfStream _ _ =>
    if s.queue = [] ∧ s.sendTask.phase = .done ∧ s.broken = false then some [] else none
  | .receive .streamError _ _ => if s.broken then some s.queue else none
  | _ => some s.queue

def Link.step (s : Link) : LinkLabel → Option Link
  | .send ans =>
    if s.accepts ans then
      (s.sendTask.step s.sender ans).map fun (host, task) => { s with
        sender := host
        sendTask := task
        queue := s.queue ++ task.sender.handed.drop s.sendTask.sender.handed.length }
    else none
  | .receive ans =>
    (s.arrives ans).bind fun queue =>
      (s.receiveTask.step s.receiver ans).map fun (host, task) =>
        { s with receiver := host, receiveTask := task, queue := queue }
  | .cancelSender token => some { s with sender := s.sender.cancel token }
  | .cancelReceiver token => some { s with receiver := s.receiver.cancel token }
  | .lose => some { s with broken := true }

def link : Machine Link LinkLabel where
  step := Link.step

/-- Two hosts at the start of a transfer that both have in progress. -/
structure Session where
  sender : Host
  receiver : Host
  sendTask : SendTask
  receiveTask : ReceiveTask
  sources : List Source
  /-- The sending task has just been spawned. -/
  sendTask_start : sendTask.sender = .start sources
  sendTask_inner : sendTask.phase = .inner
  receiveTask_inner : receiveTask.phase = .inner
  inProgress : receiver.stateOf receiveTask.remoteUuid receiveTask.transferUuid = some .inProgress

def Session.start (s : Session) : Link where
  sender := s.sender
  receiver := s.receiver
  sendTask := s.sendTask
  receiveTask := s.receiveTask
  queue := []
  broken := false

/-- The state of the receiver's transfer. -/
def Link.received (s : Link) : Option TransferState :=
  s.receiver.stateOf s.receiveTask.remoteUuid s.receiveTask.transferUuid

/-! ## Section 2: What a step can do -/

/-- A step of the link as seen from the sending task. -/
inductive SenderView (s s' : Link) : LinkLabel → Prop where
  | inner (l : SendLabel) (queued : Nat) :
      s.sendTask.phase = .inner → s'.sendTask.phase = .inner →
      sendStep s.sendTask.sender l = some s'.sendTask.sender →
      SenderView s s' (.send (.send l queued))
  | phase (queued : Nat) :
      s'.sendTask.sender = s.sendTask.sender →
      (s'.sendTask.phase ≠ .inner →
        s.sendTask.phase ≠ .inner ∨ ∃ result, s.sendTask.sender.pc = .returned result) →
      SenderView s s' (.send (.go queued))
  | other (l : LinkLabel) : (∀ ans, l ≠ .send ans) → s'.sendTask = s.sendTask → SenderView s s' l

theorem step_senderView {s s' : Link} {l : LinkLabel} (h : s.step l = some s') :
    SenderView s s' l := by
  cases l with
  | send ans =>
    simp only [Link.step] at h
    split at h
    · obtain ⟨⟨host, task⟩, htask, heq⟩ := Option.map_eq_some_iff.1 h
      cases heq
      cases SendTask.step_move htask with
      | inner l queued sender hphase _ hsend => exact .inner l queued hphase hphase hsend
      | decide queued result _ hpc => exact .phase queued rfl fun _ => .inr ⟨result, hpc⟩
      | close queued finalState hphase =>
        exact .phase queued rfl fun _ => .inl (by rw [hphase]; simp)
      | leave queued hphase => exact .phase queued rfl fun _ => .inl (by rw [hphase]; simp)
    · cases h
  | receive ans =>
    obtain ⟨queue, _, h⟩ := Option.bind_eq_some_iff.1 h
    obtain ⟨⟨host, task⟩, _, heq⟩ := Option.map_eq_some_iff.1 h
    cases heq
    exact .other _ (by simp) rfl
  | cancelSender token => cases h; exact .other _ (by simp) rfl
  | cancelReceiver token => cases h; exact .other _ (by simp) rfl
  | lose => cases h; exact .other _ (by simp) rfl

/-- The receiver has seen the end of the stream. -/
def Link.SeenEnd (s : Link) : Prop :=
  s.receiveTask.phase = .closing .completed ∨ s.received = some .completed

/-- Once the receiver has seen the end of the stream, the sending task is done. -/
def Link.EndIsReal (s : Link) : Prop := s.SeenEnd → s.sendTask.phase = .done

theorem sendTask_done_stays {s s' : Link} {l : LinkLabel} (h : s.step l = some s')
    (hdone : s.sendTask.phase = .done) : s'.sendTask.phase = .done := by
  cases l with
  | send ans =>
    simp only [Link.step] at h
    split at h
    · obtain ⟨⟨host, task⟩, htask, _⟩ := Option.map_eq_some_iff.1 h
      simp [SendTask.step, hdone] at htask
    · cases h
  | receive ans =>
    obtain ⟨queue, _, h⟩ := Option.bind_eq_some_iff.1 h
    obtain ⟨⟨host, task⟩, _, heq⟩ := Option.map_eq_some_iff.1 h
    cases heq
    exact hdone
  | cancelSender token => cases h; exact hdone
  | cancelReceiver token => cases h; exact hdone
  | lose => cases h; exact hdone

/-- Only the end of the stream lets the receiver see the end. -/
theorem receive_seenEnd {host host' : Host} {task task' : ReceiveTask} {ans : Answer}
    (h : task.step host ans = some (host', task'))
    (hseen : task'.phase = .closing .completed ∨
      host'.stateOf task'.remoteUuid task'.transferUuid = some .completed) :
    (task.phase = .closing .completed ∨
      host.stateOf task.remoteUuid task.transferUuid = some .completed) ∨
    ∃ fault queued, ans = .receive .endOfStream fault queued := by
  cases ReceiveTask.step_move h with
  | again event fault queued r hphase _ _ =>
    simp only [recordProgress_stateOf] at hseen
    exact .inl hseen
  | leave event fault queued result r _ _ hround =>
    -- `Completed` is chosen after `Ok(true)`, which only the end of the stream returns
    rcases hseen with hclosing | hstate
    · have hfinal : receiveFinalState result = .completed := by simpa using hclosing
      have hok : result = .ok true := by
        unfold receiveFinalState at hfinal
        split at hfinal <;> simp_all
      subst hok
      have hevent := receiveRound_completed hround
      subst hevent
      exact .inr ⟨fault, queued, rfl⟩
    · exact .inl (.inr hstate)
  | panic event fault queued r _ _ _ =>
    rcases hseen with hclosing | hstate
    · cases hclosing
    · exact .inl (.inr hstate)
  | close queued finalState hphase =>
    rcases hseen with hclosing | hstate
    · cases hclosing
    · left
      simp only [stateOf_updateTransfer, and_self, if_true, Option.map_eq_some_iff,
        finishReceive_state] at hstate
      obtain ⟨t, ht, hfinal⟩ := hstate
      split at hfinal
      · exact .inr (by simp [Host.stateOf, ht, hfinal])
      · exact .inl (by rw [hphase, hfinal])

theorem step_endIsReal {s s' : Link} {l : LinkLabel} (h : s.step l = some s')
    (hreal : s.EndIsReal) : s'.EndIsReal := by
  intro hseen
  -- once seen, the end stays real; otherwise this step is the one that sees it
  by_cases hbefore : s.SeenEnd
  · exact sendTask_done_stays h (hreal hbefore)
  cases l with
  | send ans =>
    simp only [Link.step] at h
    split at h
    · obtain ⟨⟨host, task⟩, _, heq⟩ := Option.map_eq_some_iff.1 h
      cases heq
      exact absurd hseen hbefore
    · cases h
  | cancelSender token => cases h; exact absurd hseen hbefore
  | cancelReceiver token => cases h; exact absurd hseen hbefore
  | lose => cases h; exact absurd hseen hbefore
  | receive ans =>
    obtain ⟨queue, harrives, h⟩ := Option.bind_eq_some_iff.1 h
    obtain ⟨⟨host, task⟩, htask, heq⟩ := Option.map_eq_some_iff.1 h
    cases heq
    rcases receive_seenEnd htask hseen with hold | ⟨fault, queued, rfl⟩
    · exact absurd hold hbefore
    · -- the end arrives when the sending task has dropped its half of the channel
      simp only [Link.arrives] at harrives
      split at harrives
      · next hend => exact hend.2.1
      · cases harrives

/-! ## Section 3: When a completed transfer is whole -/

/-- No early exit of the step leaves bytes of a file behind. -/
def NoLossAt (s : Link) : LinkLabel → Prop
  | .send (.send l _) => NoLoss s.sendTask.sender l
  | _ => True

/-- Once the inner function is over, it has returned. -/
def Link.Returned (s : Link) : Prop :=
  s.sendTask.phase ≠ .inner → ∃ result, s.sendTask.sender.pc = .returned result

/-- The invariant of every run. -/
structure Link.Sound (s : Link) : Prop where
  wellFormed : s.sendTask.sender.pc.WellFormed
  returned : s.Returned
  endIsReal : s.EndIsReal

theorem step_sound {s s' : Link} {l : LinkLabel} (hstep : s.step l = some s') (h : s.Sound) :
    s'.Sound := by
  cases step_senderView hstep with
  | inner l queued hphase hphase' hsend =>
    exact ⟨step_wellFormed hsend, fun hne => absurd hphase' hne, step_endIsReal hstep h.endIsReal⟩
  | phase queued hsender hphase =>
    refine ⟨by rw [hsender]; exact h.wellFormed, fun hne => ?_, step_endIsReal hstep h.endIsReal⟩
    rw [hsender]
    rcases hphase hne with hne' | hret
    · exact h.returned hne'
    · exact hret
  | other l _ htask =>
    refine ⟨by rw [htask]; exact h.wellFormed, fun hne => ?_, step_endIsReal hstep h.endIsReal⟩
    rw [htask] at hne ⊢
    exact h.returned hne

variable (sources : List Source)

theorem step_link_carries {s s' : Link} {l : LinkLabel} (hstep : s.step l = some s')
    (hloss : NoLossAt s l) (hs : s.Sound) (h : Carries sources s.sendTask.sender) :
    Carries sources s'.sendTask.sender := by
  cases step_senderView hstep with
  | inner l queued _ _ hsend => exact step_carries hsend hloss hs.wellFormed h
  | phase queued hsender _ => rwa [hsender]
  | other l _ htask => rwa [htask]

theorem step_link_balanced {s s' : Link} {l : LinkLabel} (hstep : s.step l = some s')
    (hs : s.Sound) (h : Balanced sources s.sendTask.sender) :
    Balanced sources s'.sendTask.sender := by
  cases step_senderView hstep with
  | inner l queued _ _ hsend => exact step_balanced hsend hs.wellFormed h
  | phase queued hsender _ => rwa [hsender]
  | other l _ htask => rwa [htask]

/-- A step that loses bytes leaves too few. -/
theorem step_link_short {s s' : Link} {l : LinkLabel} (hstep : s.step l = some s')
    (hloss : ¬ NoLossAt s l) (hs : s.Sound) (h : Balanced sources s.sendTask.sender) :
    Short sources s'.sendTask.sender := by
  cases step_senderView hstep with
  | inner l queued _ _ hsend => exact step_short hsend hloss hs.wellFormed h
  | phase queued _ _ => exact absurd trivial hloss
  | other l hne _ =>
    exfalso
    apply hloss
    cases l with
    | send ans => exact absurd rfl (hne ans)
    | _ => trivial

theorem step_link_stays_short {s s' : Link} {l : LinkLabel} (hstep : s.step l = some s')
    (hs : s.Sound) (h : Short sources s.sendTask.sender) : Short sources s'.sendTask.sender := by
  cases step_senderView hstep with
  | inner l queued _ _ hsend => exact h.step hsend hs.wellFormed
  | phase queued hsender _ => rwa [hsender]
  | other l _ htask => rwa [htask]

variable {sources}

theorem sound_start (s : Session) : s.start.Sound where
  wellFormed := by
    show s.sendTask.sender.pc.WellFormed
    rw [s.sendTask_start]
    exact sourceLoop_wellFormed _
  returned := fun hne => absurd s.sendTask_inner hne
  endIsReal := by
    intro hseen
    exfalso
    rcases hseen with hclosing | hstate
    · have hinner : s.receiveTask.phase = .closing .completed := hclosing
      rw [s.receiveTask_inner] at hinner
      cases hinner
    · have hcompleted : s.receiver.stateOf s.receiveTask.remoteUuid s.receiveTask.transferUuid
          = some .completed := hstate
      rw [s.inProgress] at hcompleted
      cases hcompleted

/-- A transfer that the receiver has completed is whole exactly if no early
    exit of the sender left bytes of a file behind. -/
theorem handedAll_iff_noLoss (s : Session) {ls : List LinkLabel} {s' : Link}
    (hrun : link.exec s.start ls = some s') (hdone : s'.received = some .completed) :
    HandedAll s.sources s'.sendTask.sender.handed ↔ link.Along NoLossAt s.start ls := by
  have hstart : s.start.sendTask.sender = .start s.sources := s.sendTask_start
  have hbalanced : Balanced s.sources s.start.sendTask.sender := hstart ▸ balanced_start _
  constructor
  · -- after a loss the bytes cannot add up any more
    intro hall
    by_contra hloss
    obtain ⟨pre, l, post, t, u, rfl, _, hpre, hbad, hstep, hpost⟩ :=
      link.exists_first_bad hrun hloss
    have ht : t.Sound ∧ Balanced s.sources t.sendTask.sender :=
      link.exec_invariant (I := fun s' => s'.Sound ∧ Balanced s.sources s'.sendTask.sender)
        (fun _ _ _ h hs => ⟨step_sound hs h.1, step_link_balanced _ hs h.1 h.2⟩)
        ⟨sound_start s, hbalanced⟩ hpre
    have hu := step_link_short s.sources hstep hbad ht.1 ht.2
    have hs' : s'.Sound ∧ Short s.sources s'.sendTask.sender :=
      link.exec_invariant (I := fun s' => s'.Sound ∧ Short s.sources s'.sendTask.sender)
        (fun _ _ _ h hs => ⟨step_sound hs h.1, step_link_stays_short _ hs h.1 h.2⟩)
        ⟨step_sound hstep ht.1, hu⟩ hpost
    exact hs'.2.not_handedAll hall
  · intro hloss
    have hs' : s'.Sound ∧ Carries s.sources s'.sendTask.sender :=
      link.exec_invariant_along
        (I := fun s' => s'.Sound ∧ Carries s.sources s'.sendTask.sender)
        (fun _ _ _ hC h hs => ⟨step_sound hs h.1, step_link_carries _ hs hC h.1 h.2⟩)
        ⟨sound_start s, hstart ▸ carries_start _⟩ hloss hrun
    -- the sender has returned, and all of its chunks were carried
    have hphase : s'.sendTask.phase = .done := hs'.1.endIsReal (.inr hdone)
    obtain ⟨result, hret⟩ := hs'.1.returned (by rw [hphase]; simp)
    exact hs'.2.handedAll hret

/-- One file of one byte, from host `b` to host `a`. -/
def oneByteSession : Session where
  sender := .single "a" (.bare "out" "a" .inProgress (.outgoing [OsString.ofString "/f"] [0]))
  receiver := .single "b" (.bare "in" "b" .inProgress (.incoming (OsString.ofString "/d")))
  sendTask := .new "a" "out" [⟨OsString.ofString "/f", .file [7] none⟩] [0]
  receiveTask := .new "b" "in" (OsString.ofString "/d") [0] (emptyTree (OsString.ofString "/d"))
  sources := [⟨OsString.ofString "/f", .file [7] none⟩]
  sendTask_start := rfl
  sendTask_inner := rfl
  receiveTask_inner := rfl
  inProgress := by decide

/-- The byte is read, sent and received. -/
def wholeRun : List LinkLabel :=
  [.send (.send (.poll false) 0), .send (.send (.io none) 0), .send (.send (.io none) 0),
    .send (.send (.poll false) 0), .send (.send (.read (.ok 1)) 0), .send (.send (.send true) 0),
    .receive (.receive (.message (.good 1) (.ofFile "f" none [7])) none 0),
    .send (.send (.progress 1) 0), .send (.send (.poll false) 0), .send (.send (.read (.ok 0)) 0),
    .send (.go 0), .send (.go 0), .send (.go 0), .receive (.receive .endOfStream none 0),
    .receive (.go 0)]

theorem handedAll_iff_noLoss_wholeRun :
    ∃ s', link.exec oneByteSession.start wholeRun = some s' ∧
      (HandedAll oneByteSession.sources s'.sendTask.sender.handed ↔
        link.Along NoLossAt oneByteSession.start wholeRun) := by
  obtain ⟨s', hrun, hdone⟩ : ∃ s', link.exec oneByteSession.start wholeRun = some s' ∧
      s'.received = some .completed := by refine ⟨_, rfl, ?_⟩; decide
  exact ⟨s', hrun, handedAll_iff_noLoss oneByteSession hrun hdone⟩

/-- The token is cancelled before the task polls it for the first time. -/
def cancelledRun : List LinkLabel :=
  [.cancelSender [0], .send (.send (.poll true) 0), .send (.go 0), .send (.go 0), .send (.go 0),
    .receive (.receive .endOfStream none 0), .receive (.go 0)]

theorem completed_but_truncated :
    ∃ s', link.exec oneByteSession.start cancelledRun = some s' ∧
      s'.received = some .completed ∧
      ¬ HandedAll oneByteSession.sources s'.sendTask.sender.handed := by
  refine ⟨_, rfl, by decide, ?_⟩
  intro hall
  have hbytes := hall.bytes
  revert hbytes
  decide

end Warpinator
