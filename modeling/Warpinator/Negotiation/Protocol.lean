import Mathlib.Logic.Function.Basic
import Warpinator.Transfers.StreamTasks

/-! # The Negotiation as a Protocol

    What two hosts do about a transfer that waits for permission, as far as the
    outcome depends on it: how far each call and each handler has come, and the
    states of the two records.

    The sender may withdraw the transfer and the receiver may refuse it; the one
    ends as `Canceled` and the other as `Denied`, on both hosts.  The receiver
    may also accept it; then both hosts stream.

    A step of `Step` writes a record only while it waits for permission, and a
    streaming task ends as its counterpart does.  `Sound.agrees` says that
    the records agree when such steps have come to rest. -/

namespace Warpinator

/-! ## Section 1: Stages -/

inductive Role where
  | sender
  | receiver
  deriving DecidableEq

namespace Role

def peer : Role → Role
  | .sender => .receiver
  | .receiver => .sender

@[simp] theorem peer_peer (x : Role) : x.peer.peer = x := by
  cases x <;> rfl

theorem peer_ne (x : Role) : x.peer ≠ x := by
  cases x <;> decide

theorem eq_or_eq_peer (x y : Role) : y = x ∨ y = x.peer := by
  cases x <;> cases y <;> decide

/-- The state of a transfer that this role has withdrawn. -/
def withdrawn : Role → TransferState
  | .sender => .canceled
  | .receiver => .denied

end Role

/-- A state that a streaming task leaves: it neither waits nor has been
    withdrawn. -/
def IsOutcome (s : TransferState) : Prop := s ≠ .waitingPermission ∧ ∀ x : Role, s ≠ x.withdrawn

/-- How far `cancel_transfer` has come; `answered` is the moment between the
    answer and the update. -/
inductive CallStage where
  | before
  | asking
  | answered
  | closed
  | failed
  deriving DecidableEq

/-- How far the handler of the request has come. -/
inductive HandlerStage where
  | absent
  | working
  | granted
  | refused
  deriving DecidableEq

/-- How far `accept_transfer` has come, its receiving task included. -/
inductive AcceptStage where
  | before
  | asking
  | answered
  | failed
  | receiving (phase : ReceivePhase)
  deriving DecidableEq

/-- How far `start_transfer` has come, its sending task included. -/
inductive StartStage where
  | absent
  | working
  | failed
  | sending (phase : SendPhase)
  deriving DecidableEq

/-- The calls and handlers about the withdrawal on one host, and its record. -/
structure SideView where
  cancel : CallStage
  handler : HandlerStage
  state : Option TransferState

structure Snapshot where
  view : Role → SideView
  accept : AcceptStage
  start : StartStage

namespace Snapshot

def put (p : Snapshot) (x : Role) (v : SideView) : Snapshot :=
  { p with view := Function.update p.view x v }

@[simp] theorem put_self (p : Snapshot) (x : Role) (v : SideView) : (p.put x v).view x = v :=
  Function.update_self _ _ _

@[simp] theorem put_peer (p : Snapshot) (x : Role) (v : SideView) :
    (p.put x v).view x.peer = p.view x.peer :=
  Function.update_of_ne x.peer_ne _ _

@[simp] theorem put_accept (p : Snapshot) (x : Role) (v : SideView) :
    (p.put x v).accept = p.accept := rfl

@[simp] theorem put_view (p : Snapshot) (x : Role) : p.put x (p.view x) = p := by
  simp [put]

/-- The sending task has made out that the transfer is complete. -/
def SentWhole (p : Snapshot) : Prop :=
  p.start = .sending (.closing .completed) ∨ (p.view .sender).state = some .completed

instance (p : Snapshot) : Decidable p.SentWhole := inferInstanceAs (Decidable (_ ∨ _))

/-- So has the receiving task. -/
def ReceivedWhole (p : Snapshot) : Prop :=
  p.accept = .receiving (.closing .completed) ∨ (p.view .receiver).state = some .completed

/-- The receiving task has ended in another way. -/
def ReceivedShort (p : Snapshot) : Prop :=
  match p.accept with
  | .receiving .inner => False
  | .receiving (.closing finalState) => finalState ≠ .completed
  | .receiving .done => (p.view .receiver).state ≠ some .completed
  | .receiving .panicked => True
  | _ => False

instance (p : Snapshot) : Decidable p.ReceivedShort := by
  unfold ReceivedShort
  split <;> infer_instance

/-! ## Section 2: Steps -/

/-- The steps of an orderly negotiation. -/
inductive Step (p : Snapshot) : Snapshot → Prop
  | asks (x : Role) :
      (p.view x).cancel = .before → Step p (p.put x { p.view x with cancel := .asking })
  | fails (x : Role) :
      (p.view x).cancel = .before → Step p (p.put x { p.view x with cancel := .failed })
  | arrives (x : Role) :
      (p.view x).cancel = .asking → (p.view x.peer).handler = .absent →
      Step p (p.put x.peer { p.view x.peer with handler := .working })
  | refuses (x : Role) :
      (p.view x).handler = .working → Step p (p.put x { p.view x with handler := .refused })
  | grants (x : Role) :
      (p.view x).handler = .working → (p.view x).state = some .waitingPermission →
      Step p (p.put x { p.view x with handler := .granted, state := some x.peer.withdrawn })
  | denied (x : Role) :
      (p.view x).cancel = .asking → (p.view x.peer).handler = .refused →
      Step p (p.put x { p.view x with cancel := .failed })
  | answered (x : Role) :
      (p.view x).cancel = .asking → (p.view x.peer).handler = .granted →
      Step p (p.put x { p.view x with cancel := .answered })
  | closes (x : Role) :
      (p.view x).cancel = .answered → (p.view x).state = some .waitingPermission →
      Step p (p.put x { p.view x with cancel := .closed, state := some x.withdrawn })
  | asksStart : p.accept = .before → Step p { p with accept := .asking }
  | failsStart : p.accept = .before → Step p { p with accept := .failed }
  | startArrives : p.accept = .asking → p.start = .absent → Step p { p with start := .working }
  | refusesStart : p.start = .working → Step p { p with start := .failed }
  | starts :
      p.start = .working → (p.view .sender).state = some .waitingPermission →
      Step p { p.put .sender { p.view .sender with state := some .inProgress } with
        start := .sending .inner }
  | startDenied : p.accept = .asking → p.start = .failed → Step p { p with accept := .failed }
  | startAnswered (phase : SendPhase) :
      p.accept = .asking → p.start = .sending phase → Step p { p with accept := .answered }
  | accepts :
      p.accept = .answered → (p.view .receiver).state = some .waitingPermission →
      Step p { p.put .receiver { p.view .receiver with state := some .inProgress } with
        accept := .receiving .inner }
  -- the sending task
  | decides (finalState : TransferState) :
      p.start = .sending .inner → IsOutcome finalState →
      (finalState = .completed → ¬ p.ReceivedShort) →
      Step p { p with start := .sending (.closing finalState) }
  | finishesSending (finalState : TransferState) :
      p.start = .sending (.closing finalState) →
      Step p { p.put .sender { p.view .sender with state := some finalState } with
        start := .sending .leaving }
  | leaves : p.start = .sending .leaving → Step p { p with start := .sending .done }
  -- the receiving task
  | stops (finalState : TransferState) :
      p.accept = .receiving .inner → IsOutcome finalState →
      (finalState = .completed → (p.view .sender).state = some .completed) →
      (finalState ≠ .completed → ¬ p.SentWhole) →
      Step p { p with accept := .receiving (.closing finalState) }
  | panics :
      p.accept = .receiving .inner → ¬ p.SentWhole →
        Step p { p with accept := .receiving .panicked }
  | finishesReceiving (finalState : TransferState) :
      p.accept = .receiving (.closing finalState) → (p.view .receiver).state = some .inProgress →
      Step p { p.put .receiver { p.view .receiver with state := some finalState } with
        accept := .receiving .done }

/-! ## Section 3: What the steps keep -/

/-- A call has its answer from the handler. -/
def Asked : CallStage → HandlerStage → Prop
  | .before, h => h = .absent
  | .asking, _ => True
  | .answered, h => h = .granted
  | .closed, h => h = .granted
  | .failed, h => h = .absent ∨ h = .refused

/-- `accept_transfer` has its answer from `start_transfer`. -/
def Started : AcceptStage → StartStage → Prop
  | .before, s => s = .absent
  | .asking, _ => True
  | .answered, s => ∃ phase, s = .sending phase
  | .receiving _, s => ∃ phase, s = .sending phase
  | .failed, s => s = .absent ∨ s = .failed

/-- The record of the sender while its task streams and after it. -/
def Sending (p : Snapshot) : SendPhase → Prop
  | .inner => (p.view .sender).state = some .inProgress
  | .closing finalState =>
    (p.view .sender).state = some .inProgress ∧ IsOutcome finalState
  | .leaving | .done => ∃ s, (p.view .sender).state = some s ∧ IsOutcome s

/-- The record of the receiver while its task streams and after it. -/
def Receiving (p : Snapshot) : ReceivePhase → Prop
  | .inner | .panicked => (p.view .receiver).state = some .inProgress
  | .closing finalState =>
    (p.view .receiver).state = some .inProgress ∧ IsOutcome finalState
  | .done => ∃ s, (p.view .receiver).state = some s ∧ IsOutcome s

/-- The role streams. -/
def Streaming (p : Snapshot) : Role → Prop
  | .sender => ∃ phase, p.start = .sending phase ∧ p.Sending phase
  | .receiver => ∃ phase, p.accept = .receiving phase ∧ p.Receiving phase

/-- The role has not started to stream. -/
def NotStreaming (p : Snapshot) : Role → Prop
  | .sender => ∀ phase, p.start ≠ .sending phase
  | .receiver => ∀ phase, p.accept ≠ .receiving phase

/-- Why a record is in its state.  Only one of the reasons has come true. -/
inductive Cause (p : Snapshot) (x : Role) : Prop
  | waiting :
      (p.view x).cancel ≠ .closed → (p.view x).handler ≠ .granted → p.NotStreaming x →
      (p.view x).state = some .waitingPermission → Cause p x
  | closed :
      (p.view x).cancel = .closed → (p.view x).handler ≠ .granted → p.NotStreaming x →
      (p.view x).state = some x.withdrawn → Cause p x
  | granted :
      (p.view x).cancel ≠ .closed → (p.view x).handler = .granted → p.NotStreaming x →
      (p.view x).state = some x.peer.withdrawn → Cause p x
  | streaming :
      (p.view x).cancel ≠ .closed → (p.view x).handler ≠ .granted → p.Streaming x → Cause p x

/-- The invariant of an orderly negotiation. -/
structure Sound (p : Snapshot) : Prop where
  asked : ∀ x : Role, Asked (p.view x).cancel (p.view x.peer).handler
  started : Started p.accept p.start
  cause : ∀ x, p.Cause x
  received : p.ReceivedWhole → (p.view .sender).state = some .completed
  sent : p.SentWhole → ¬ p.ReceivedShort

section steps

variable {p p' : Snapshot} {x : Role}

theorem Cause.congr (h : p.Cause x) (hview : p'.view x = p.view x)
    (hnot : p.NotStreaming x → p'.NotStreaming x) (hstreams : p.Streaming x → p'.Streaming x) :
    p'.Cause x := by
  cases h with
  | waiting hcancel hhandler hn hs =>
    exact .waiting (by rwa [hview]) (by rwa [hview]) (hnot hn) (by rwa [hview])
  | closed hcancel hhandler hn hs =>
    exact .closed (by rwa [hview]) (by rwa [hview]) (hnot hn) (by rwa [hview])
  | granted hcancel hhandler hn hs =>
    exact .granted (by rwa [hview]) (by rwa [hview]) (hnot hn) (by rwa [hview])
  | streaming hcancel hhandler hs =>
    exact .streaming (by rwa [hview]) (by rwa [hview]) (hstreams hs)

/-- Streaming depends on the state of the record, not on the other calls. -/
theorem Streaming.of_state (h : p.Streaming x) (hstate : (p'.view x).state = (p.view x).state)
    (hstart : x = .sender → p'.start = p.start) (haccept : x = .receiver → p'.accept = p.accept) :
    p'.Streaming x := by
  cases x with
  | sender =>
    obtain ⟨phase, hphase, hs⟩ := h
    refine ⟨phase, by rw [hstart rfl, hphase], ?_⟩
    cases phase <;> simpa [Sending, hstate] using hs
  | receiver =>
    obtain ⟨phase, hphase, hs⟩ := h
    refine ⟨phase, by rw [haccept rfl, hphase], ?_⟩
    cases phase <;> simpa [Receiving, hstate] using hs

theorem NotStreaming.of_same (h : p.NotStreaming x) (hstart : x = .sender → p'.start = p.start)
    (haccept : x = .receiver → p'.accept = p.accept) : p'.NotStreaming x := by
  cases x with
  | sender =>
    intro phase
    rw [hstart rfl]
    exact h phase
  | receiver =>
    intro phase
    rw [haccept rfl]
    exact h phase

/-- The role that a step does not concern. -/
theorem Cause.of_same (h : p.Cause x) (hview : p'.view x = p.view x)
    (hstart : x = .sender → p'.start = p.start) (haccept : x = .receiver → p'.accept = p.accept) :
    p'.Cause x :=
  h.congr hview (fun hn => hn.of_same hstart haccept) fun hs =>
    hs.of_state (by rw [hview]) hstart haccept

theorem NotStreaming.not_streaming (h : p.NotStreaming x) : ¬ p.Streaming x := by
  cases x with
  | sender =>
    rintro ⟨phase, hphase, _⟩
    exact h phase hphase
  | receiver =>
    rintro ⟨phase, hphase, _⟩
    exact h phase hphase

theorem withdrawn_ne_waiting (x : Role) : x.withdrawn ≠ .waitingPermission := by
  cases x <;> decide

theorem withdrawn_ne_completed (x : Role) : x.withdrawn ≠ .completed := by
  cases x <;> decide

/-- The record of a role that streams. -/
theorem Streaming.state (h : p.Streaming x) :
    ∃ s, (p.view x).state = some s ∧ IsOutcome s := by
  have hprogress : IsOutcome .inProgress := by
    refine ⟨by decide, fun x => ?_⟩
    cases x <;> decide
  cases x with
  | sender =>
    obtain ⟨phase, _, hs⟩ := h
    cases phase with
    | inner => exact ⟨_, hs, hprogress⟩
    | closing finalState => exact ⟨_, hs.1, hprogress⟩
    | leaving => exact hs
    | done => exact hs
  | receiver =>
    obtain ⟨phase, _, hs⟩ := h
    cases phase with
    | inner => exact ⟨_, hs, hprogress⟩
    | closing finalState => exact ⟨_, hs.1, hprogress⟩
    | done => exact hs
    | panicked => exact ⟨_, hs, hprogress⟩

/-- A record that waits has not been written. -/
theorem Cause.of_waiting (h : p.Cause x) (hs : (p.view x).state = some .waitingPermission) :
    (p.view x).cancel ≠ .closed ∧ (p.view x).handler ≠ .granted ∧ p.NotStreaming x := by
  cases h with
  | waiting hcancel hhandler hn _ => exact ⟨hcancel, hhandler, hn⟩
  | closed _ _ _ hstate =>
    rw [hs, Option.some.injEq] at hstate
    exact absurd hstate.symm (withdrawn_ne_waiting x)
  | granted _ _ _ hstate =>
    rw [hs, Option.some.injEq] at hstate
    exact absurd hstate.symm (withdrawn_ne_waiting x.peer)
  | streaming _ _ hstreams =>
    obtain ⟨s, hstate, hne, _⟩ := hstreams.state
    rw [hs, Option.some.injEq] at hstate
    exact absurd hstate.symm hne

/-- A step about the withdrawal, on one side. -/
theorem Sound.put (h : p.Sound) {v : SideView} (hasks : Asked v.cancel (p.view x.peer).handler)
    (hasked : Asked (p.view x.peer).cancel v.handler) (hcause : (p.put x v).Cause x)
    (hstate : v.state = (p.view x).state ∨
      (p.view x).state = some .waitingPermission ∧ ∃ y : Role, v.state = some y.withdrawn) :
    (p.put x v).Sound := by
  -- no record becomes complete or stops being complete
  have hwhole : ∀ y, ((p.put x v).view y).state = some .completed ↔
      (p.view y).state = some .completed := by
    intro y
    rcases x.eq_or_eq_peer y with rfl | rfl
    · rw [put_self]
      rcases hstate with hsame | ⟨hwaits, z, hz⟩
      · rw [hsame]
      · rw [hwaits, hz]
        simp [withdrawn_ne_completed]
    · rw [put_peer]
  refine ⟨fun y => ?_, h.started, fun y => ?_, fun hr => ?_, fun hs hr => ?_⟩
  · rcases x.eq_or_eq_peer y with rfl | rfl
    · rw [put_self, put_peer]
      exact hasks
    · rw [put_peer, Role.peer_peer, put_self]
      exact hasked
  · rcases x.eq_or_eq_peer y with rfl | rfl
    · exact hcause
    · exact (h.cause _).of_same (put_peer ..) (fun _ => rfl) fun _ => rfl
  · rw [hwhole]
    exact h.received (hr.imp_right (hwhole _).1)
  · refine h.sent (hs.imp_right (hwhole _).1) ?_
    unfold ReceivedShort at hr ⊢
    simpa only [ne_eq, hwhole, put_accept] using hr

/-- Another step of the calls and handlers of one side leaves the reason as it is. -/
theorem Cause.put (h : p.Cause x) {v : SideView}
    (hcancel : v.cancel = .closed ↔ (p.view x).cancel = .closed)
    (hhandler : v.handler = .granted ↔ (p.view x).handler = .granted)
    (hstate : v.state = (p.view x).state) : (p.put x v).Cause x := by
  have hnot : p.NotStreaming x → (p.put x v).NotStreaming x :=
    fun hn => hn.of_same (fun _ => rfl) fun _ => rfl
  cases h with
  | waiting hc hh hn hs =>
    exact .waiting (by simpa [hcancel]) (by simpa [hhandler]) (hnot hn) (by simpa [hstate])
  | closed hc hh hn hs =>
    exact .closed (by simpa [hcancel]) (by simpa [hhandler]) (hnot hn) (by simpa [hstate])
  | granted hc hh hn hs =>
    exact .granted (by simpa [hcancel]) (by simpa [hhandler]) (hnot hn) (by simpa [hstate])
  | streaming hc hh hs =>
    refine .streaming (by simpa [hcancel]) (by simpa [hhandler]) ?_
    exact hs.of_state (by simpa using hstate) (fun _ => rfl) fun _ => rfl

theorem Sound.asked_peer (h : p.Sound) (x : Role) :
    Asked (p.view x.peer).cancel (p.view x).handler := by
  simpa using h.asked x.peer

/-- A step of `accept_transfer` or `start_transfer` before either streams. -/
theorem Sound.advance (h : p.Sound) {accept : AcceptStage} {start : StartStage}
    (hstarted : Started accept start)
    (hsender : start = p.start ∨ p.NotStreaming .sender ∧ ∀ phase, start ≠ .sending phase)
    (hreceiver : accept = p.accept ∨
      p.NotStreaming .receiver ∧ ∀ phase, accept ≠ .receiving phase) :
    ({ p with accept := accept, start := start } : Snapshot).Sound := by
  refine ⟨h.asked, hstarted, fun x => ?_, fun hr => ?_, fun hs hr => ?_⟩
  · cases x with
    -- either nothing changes for the sender, or it does not stream before or after
    | sender =>
      rcases hsender with rfl | ⟨hbefore, hafter⟩
      · exact (h.cause _).of_same rfl (fun _ => rfl) (by simp)
      · exact (h.cause _).congr rfl (fun _ => hafter) fun hs => absurd hs hbefore.not_streaming
    | receiver =>
      rcases hreceiver with rfl | ⟨hbefore, hafter⟩
      · exact (h.cause _).of_same rfl (by simp) fun _ => rfl
      · exact (h.cause _).congr rfl (fun _ => hafter) fun hs => absurd hs hbefore.not_streaming
  · rcases hr with hclosing | hstate
    · rcases hreceiver with rfl | ⟨_, hafter⟩
      · exact h.received (.inl hclosing)
      · exact absurd hclosing (hafter _)
    · exact h.received (.inr hstate)
  · have hsent : p.SentWhole := by
      rcases hs with hclosing | hstate
      · rcases hsender with rfl | ⟨_, hafter⟩
        · exact .inl hclosing
        · exact absurd hclosing (hafter _)
      · exact .inr hstate
    rcases hreceiver with rfl | ⟨_, hafter⟩
    · exact h.sent hsent hr
    · unfold ReceivedShort at hr
      cases accept with
      | receiving phase => exact hafter phase rfl
      | _ => exact hr

theorem Cause.sending {phase : SendPhase} (h : p.Cause .sender) (hs : p.start = .sending phase) :
    (p.view .sender).cancel ≠ .closed ∧ (p.view .sender).handler ≠ .granted ∧ p.Sending phase := by
  cases h with
  | waiting _ _ hn _ => exact absurd hs (hn phase)
  | closed _ _ hn _ => exact absurd hs (hn phase)
  | granted _ _ hn _ => exact absurd hs (hn phase)
  | streaming hc hh hstreams =>
    obtain ⟨phase', hphase, hsending⟩ := hstreams
    rw [hs, StartStage.sending.injEq] at hphase
    exact ⟨hc, hh, hphase ▸ hsending⟩

theorem Cause.receiving {phase : ReceivePhase} (h : p.Cause .receiver)
    (ha : p.accept = .receiving phase) :
    (p.view .receiver).cancel ≠ .closed ∧ (p.view .receiver).handler ≠ .granted ∧
      p.Receiving phase := by
  cases h with
  | waiting _ _ hn _ => exact absurd ha (hn phase)
  | closed _ _ hn _ => exact absurd ha (hn phase)
  | granted _ _ hn _ => exact absurd ha (hn phase)
  | streaming hc hh hstreams =>
    obtain ⟨phase', hphase, hreceiving⟩ := hstreams
    rw [ha, AcceptStage.receiving.injEq] at hphase
    exact ⟨hc, hh, hphase ▸ hreceiving⟩

/-- While the sender streams, `start_transfer` has answered. -/
theorem Started.of_sending {a : AcceptStage} {phase : SendPhase} (h : Started a (.sending phase))
    (phase' : SendPhase) : Started a (.sending phase') := by
  cases a with
  | before => cases h
  | asking => trivial
  | answered => exact ⟨phase', rfl⟩
  | failed => simp [Started] at h
  | receiving phase => exact ⟨phase', rfl⟩

theorem Sound.asked_put (h : p.Sound) {v : SideView} (hcancel : v.cancel = (p.view x).cancel)
    (hhandler : v.handler = (p.view x).handler) (y : Role) :
    Asked ((p.put x v).view y).cancel ((p.put x v).view y.peer).handler := by
  rcases x.eq_or_eq_peer y with rfl | rfl
  · rw [put_self, put_peer, hcancel]
    exact h.asked y
  · rw [put_peer, Role.peer_peer, put_self, hhandler]
    exact h.asked_peer x

/-- A step of the sending task. -/
theorem Sound.send (h : p.Sound) {phase : SendPhase} (phase' : SendPhase)
    (state : Option TransferState) (hs : p.start = .sending phase)
    (hp' : p' = { p.put .sender { p.view .sender with state := state } with
      start := .sending phase' })
    (hsending : p'.Sending phase')
    (hreceived : p.ReceivedWhole → state = some .completed)
    (hsent : p'.SentWhole → ¬ p.ReceivedShort) : p'.Sound := by
  obtain ⟨hc, hh, _⟩ := (h.cause .sender).sending hs
  have hstarted := h.started
  rw [hs] at hstarted
  subst hp'
  refine ⟨h.asked_put rfl rfl, hstarted.of_sending phase', fun y => ?_, hreceived, hsent⟩
  cases y with
  | sender => exact .streaming hc hh ⟨phase', rfl, hsending⟩
  | receiver => exact (h.cause .receiver).of_same rfl (by simp) fun _ => rfl

/-- A step of the receiving task. -/
theorem Sound.receive (h : p.Sound) {phase : ReceivePhase} (phase' : ReceivePhase)
    (state : Option TransferState) (ha : p.accept = .receiving phase)
    (hp' : p' = { p.put .receiver { p.view .receiver with state := state } with
      accept := .receiving phase' })
    (hreceiving : p'.Receiving phase')
    (hreceived : p'.ReceivedWhole → (p.view .sender).state = some .completed)
    (hsent : p.SentWhole → ¬ p'.ReceivedShort) : p'.Sound := by
  obtain ⟨hc, hh, _⟩ := (h.cause .receiver).receiving ha
  have hstarted := h.started
  rw [ha] at hstarted
  subst hp'
  refine ⟨h.asked_put rfl rfl, hstarted, fun y => ?_, hreceived, hsent⟩
  cases y with
  | sender => exact (h.cause .sender).of_same rfl (fun _ => rfl) (by simp)
  | receiver => exact .streaming hc hh ⟨phase', rfl, hreceiving⟩

/-! The steps of a cancellation -/

theorem Sound.arrives (h : p.Sound) (x : Role) (hc : (p.view x).cancel = .asking)
    (hh : (p.view x.peer).handler = .absent) :
    (p.put x.peer { p.view x.peer with handler := .working }).Sound := by
  refine h.put (h.asked x.peer) ?_ ((h.cause x.peer).put Iff.rfl (by simp [hh]) rfl) (.inl rfl)
  rw [Role.peer_peer, hc]
  trivial

/-- A refused request leaves no trace in the records. -/
theorem Sound.refuses (h : p.Sound) (x : Role) (hh : (p.view x).handler = .working) :
    (p.put x { p.view x with handler := .refused }).Sound := by
  have hasked := h.asked_peer x
  rw [hh] at hasked
  refine h.put (h.asked x) ?_ ((h.cause x).put Iff.rfl (by simp [hh]) rfl) (.inl rfl)
  cases hc : (p.view x.peer).cancel <;> simp_all [Asked]

/-- The record was waiting, so nobody has written it for another reason. -/
theorem Sound.grants (h : p.Sound) (x : Role) (hh : (p.view x).handler = .working)
    (hs : (p.view x).state = some .waitingPermission) :
    (p.put x { p.view x with handler := .granted, state := some x.peer.withdrawn }).Sound := by
  have hasked := h.asked_peer x
  rw [hh] at hasked
  obtain ⟨hc, _, hn⟩ := (h.cause x).of_waiting hs
  refine h.put (h.asked x) ?_ ?_ (.inr ⟨hs, x.peer, rfl⟩)
  · cases hc : (p.view x.peer).cancel <;> simp_all [Asked]
  · exact .granted (by simpa using hc) (by simp) (hn.of_same (fun _ => rfl) fun _ => rfl) (by simp)

/-- The handler has granted the request and, by orderliness, nothing else has
    happened here. -/
theorem Sound.closes (h : p.Sound) (x : Role) (hc : (p.view x).cancel = .answered)
    (hs : (p.view x).state = some .waitingPermission) :
    (p.put x { p.view x with cancel := .closed, state := some x.withdrawn }).Sound := by
  have hgranted := h.asked x
  rw [hc] at hgranted
  obtain ⟨_, hh, hn⟩ := (h.cause x).of_waiting hs
  refine h.put hgranted (h.asked_peer x) ?_ (.inr ⟨hs, x, rfl⟩)
  exact .closed (by simp) (by simpa using hh) (hn.of_same (fun _ => rfl) fun _ => rfl) (by simp)

/-! The steps of `accept_transfer` and `start_transfer` -/

theorem Sound.startArrives (h : p.Sound) (ha : p.accept = .asking) (hs : p.start = .absent) :
    ({ p with start := .working } : Snapshot).Sound := by
  refine h.advance ?_ (.inr ⟨by simp [NotStreaming, hs], by simp⟩) (.inl rfl)
  rw [ha]
  trivial

theorem Sound.refusesStart (h : p.Sound) (hs : p.start = .working) :
    ({ p with start := .failed } : Snapshot).Sound := by
  refine h.advance ?_ (.inr ⟨by simp [NotStreaming, hs], by simp⟩) (.inl rfl)
  have hstarted := h.started
  rw [hs] at hstarted
  cases ha : p.accept <;> simp_all [Started]

/-- The sender begins to stream; no record can be complete yet. -/
theorem Sound.starts (h : p.Sound) (hs : p.start = .working)
    (hwaits : (p.view .sender).state = some .waitingPermission) :
    ({ p.put .sender { p.view .sender with state := some .inProgress } with
      start := .sending .inner } : Snapshot).Sound := by
  obtain ⟨hc, hh, _⟩ := (h.cause .sender).of_waiting hwaits
  have hstarted := h.started
  rw [hs] at hstarted
  refine ⟨h.asked_put rfl rfl, ?_, fun y => ?_, fun hr => ?_, fun hsent => ?_⟩
  · cases ha : p.accept <;> simp_all [Started]
  · cases y with
    | sender => exact .streaming hc hh ⟨.inner, rfl, rfl⟩
    | receiver => exact (h.cause .receiver).of_same rfl (by simp) fun _ => rfl
  · have hcompleted := h.received hr
    rw [hwaits] at hcompleted
    cases hcompleted
  · rcases hsent with hclosing | hstate
    · cases hclosing
    · cases hstate

theorem Sound.accepts (h : p.Sound) (ha : p.accept = .answered)
    (hwaits : (p.view .receiver).state = some .waitingPermission) :
    ({ p.put .receiver { p.view .receiver with state := some .inProgress } with
      accept := .receiving .inner } : Snapshot).Sound := by
  obtain ⟨hc, hh, _⟩ := (h.cause .receiver).of_waiting hwaits
  have hstarted := h.started
  rw [ha] at hstarted
  refine ⟨h.asked_put rfl rfl, hstarted, fun y => ?_, fun hr => ?_, fun _ hshort => hshort⟩
  · cases y with
    | sender => exact (h.cause .sender).of_same rfl (fun _ => rfl) (by simp)
    | receiver => exact .streaming hc hh ⟨.inner, rfl, rfl⟩
  · rcases hr with hclosing | hstate
    · cases hclosing
    · cases hstate

/-! The steps of the sending task -/

/-- If the sender decides for `Completed`, the receiver has not come up short. -/
theorem Sound.decides (h : p.Sound) (finalState : TransferState) (hs : p.start = .sending .inner)
    (hfinal : IsOutcome finalState) (hagrees : finalState = .completed → ¬ p.ReceivedShort) :
    ({ p with start := .sending (.closing finalState) } : Snapshot).Sound := by
  obtain ⟨_, _, hstate⟩ := (h.cause .sender).sending hs
  refine h.send (.closing finalState) _ hs (by rw [put_view]) ⟨hstate, hfinal⟩ h.received ?_
  rintro (hclosing | hcompleted)
  · cases hclosing
    exact hagrees rfl
  · exact h.sent (.inr hcompleted)

/-- The state becomes what was decided. -/
theorem Sound.finishesSending (h : p.Sound) (finalState : TransferState)
    (hs : p.start = .sending (.closing finalState)) :
    ({ p.put .sender { p.view .sender with state := some finalState } with
      start := .sending .leaving } : Snapshot).Sound := by
  obtain ⟨_, _, hstate, hfinal⟩ := (h.cause .sender).sending hs
  refine h.send .leaving _ hs rfl ⟨finalState, rfl, hfinal⟩ (fun hr => ?_) ?_
  · have hcompleted := h.received hr
    rw [hstate] at hcompleted
    cases hcompleted
  · rintro (hclosing | hcompleted)
    · cases hclosing
    · cases hcompleted
      exact h.sent (.inl hs)

theorem Sound.leaves (h : p.Sound) (hs : p.start = .sending .leaving) :
    ({ p with start := .sending .done } : Snapshot).Sound := by
  obtain ⟨_, _, houtcome⟩ := (h.cause .sender).sending hs
  refine h.send .done _ hs (by rw [put_view]) houtcome h.received ?_
  rintro (hclosing | hcompleted)
  · cases hclosing
  · exact h.sent (.inr hcompleted)

/-! The steps of the receiving task, which decides and writes later as well -/

theorem Sound.stops (h : p.Sound) (finalState : TransferState) (ha : p.accept = .receiving .inner)
    (hfinal : IsOutcome finalState)
    (hwhole : finalState = .completed → (p.view .sender).state = some .completed)
    (hshort : finalState ≠ .completed → ¬ p.SentWhole) :
    ({ p with accept := .receiving (.closing finalState) } : Snapshot).Sound := by
  obtain ⟨_, _, hstate⟩ := (h.cause .receiver).receiving ha
  refine h.receive (.closing finalState) _ ha (by rw [put_view]) ⟨hstate, hfinal⟩ ?_
    fun hsent hs => hshort hs hsent
  rintro (hclosing | hcompleted)
  · cases hclosing
    exact hwhole rfl
  · exact h.received (.inr hcompleted)

/-- A panicked receiver comes up short for good. -/
theorem Sound.panics (h : p.Sound) (ha : p.accept = .receiving .inner) (hnot : ¬ p.SentWhole) :
    ({ p with accept := .receiving .panicked } : Snapshot).Sound := by
  obtain ⟨_, _, hstate⟩ := (h.cause .receiver).receiving ha
  refine h.receive .panicked _ ha (by rw [put_view]) hstate ?_ fun hsent _ => hnot hsent
  rintro (hclosing | hcompleted)
  · cases hclosing
  · exact h.received (.inr hcompleted)

theorem Sound.finishesReceiving (h : p.Sound) (finalState : TransferState)
    (ha : p.accept = .receiving (.closing finalState)) :
    ({ p.put .receiver { p.view .receiver with state := some finalState } with
      accept := .receiving .done } : Snapshot).Sound := by
  obtain ⟨_, _, _, hfinal⟩ := (h.cause .receiver).receiving ha
  refine h.receive .done _ ha rfl ⟨finalState, rfl, hfinal⟩ ?_ fun hsent hshort => ?_
  · rintro (hclosing | hcompleted)
    · cases hclosing
    · cases hcompleted
      exact h.received (.inl ha)
  · refine h.sent hsent ?_
    unfold ReceivedShort
    rw [ha]
    exact fun hcompleted => hshort (congrArg some hcompleted)

/-- An orderly step keeps the invariant. -/
theorem Step.sound (hstep : p.Step p') (h : p.Sound) : p'.Sound := by
  cases hstep with
  | asks x hc =>
    exact h.put trivial (h.asked_peer x) ((h.cause x).put (by simp [hc]) Iff.rfl rfl) (.inl rfl)
  | fails x hc =>
    have habsent := h.asked x
    rw [hc] at habsent
    exact h.put (.inl habsent) (h.asked_peer x) ((h.cause x).put (by simp [hc]) Iff.rfl rfl)
      (.inl rfl)
  | arrives x hc hh => exact h.arrives x hc hh
  | refuses x hh => exact h.refuses x hh
  | grants x hh hs => exact h.grants x hh hs
  | denied x hc hh =>
    exact h.put (.inr hh) (h.asked_peer x) ((h.cause x).put (by simp [hc]) Iff.rfl rfl) (.inl rfl)
  | answered x hc hh =>
    exact h.put hh (h.asked_peer x) ((h.cause x).put (by simp [hc]) Iff.rfl rfl) (.inl rfl)
  | closes x hc hs => exact h.closes x hc hs
  | asksStart ha =>
    have habsent := h.started
    rw [ha] at habsent
    exact h.advance trivial (.inl rfl) (.inr ⟨by simp [NotStreaming, ha], by simp⟩)
  | failsStart ha =>
    have habsent := h.started
    rw [ha] at habsent
    exact h.advance (.inl habsent) (.inl rfl) (.inr ⟨by simp [NotStreaming, ha], by simp⟩)
  | startArrives ha hs => exact h.startArrives ha hs
  | refusesStart hs => exact h.refusesStart hs
  | startDenied ha hs =>
    exact h.advance (.inr hs) (.inl rfl) (.inr ⟨by simp [NotStreaming, ha], by simp⟩)
  | startAnswered phase ha hs =>
    exact h.advance ⟨phase, hs⟩ (.inl rfl) (.inr ⟨by simp [NotStreaming, ha], by simp⟩)
  | starts hs hwaits => exact h.starts hs hwaits
  | accepts ha hwaits => exact h.accepts ha hwaits
  | decides finalState hs hfinal hagrees => exact h.decides finalState hs hfinal hagrees
  | finishesSending finalState hs => exact h.finishesSending finalState hs
  | leaves hs => exact h.leaves hs
  | stops finalState ha hfinal hwhole hshort => exact h.stops finalState ha hfinal hwhole hshort
  | panics ha hnot => exact h.panics ha hnot
  | finishesReceiving finalState ha _ => exact h.finishesReceiving finalState ha

end steps

/-! ## Section 4: At rest -/

/-- No call, no handler and no streaming task is left. -/
structure Quiet (p : Snapshot) : Prop where
  cancel : ∀ x, (p.view x).cancel ≠ .asking ∧ (p.view x).cancel ≠ .answered
  accept : p.accept = .before ∨ p.accept = .failed ∨ p.accept = .receiving .done ∨
    p.accept = .receiving .panicked
  start : ∀ phase, p.start = .sending phase → phase = .done

/-- The records agree on these states. -/
def Agrees (p : Snapshot) : Prop :=
  ∀ s, s = .canceled ∨ s = .denied ∨ s = .completed →
    ((p.view .sender).state = some s ↔ (p.view .receiver).state = some s)

section rest

variable {p : Snapshot}

/-- Who has withdrawn a transfer, by a call or by a request. -/
theorem Sound.withdrawn_cases (h : p.Sound) {x y : Role}
    (hs : (p.view y).state = some x.withdrawn) :
    y = x ∧ (p.view x).cancel = .closed ∨ y = x.peer ∧ (p.view y).handler = .granted := by
  have hsame : ∀ {z : Role}, (p.view y).state = some z.withdrawn → z = x := by
    intro z hz
    rw [hs, Option.some.injEq] at hz
    cases x <;> cases z <;> first | rfl | cases hz
  cases h.cause y with
  | waiting _ _ _ hwaits =>
    rw [hs, Option.some.injEq] at hwaits
    exact absurd hwaits (withdrawn_ne_waiting x)
  | closed hc _ _ hstate =>
    obtain rfl := hsame hstate
    exact .inl ⟨rfl, hc⟩
  | granted _ hh _ hstate =>
    obtain rfl := hsame hstate
    exact .inr ⟨(Role.peer_peer y).symm, hh⟩
  | streaming _ _ hstreams =>
    obtain ⟨s, hstate, _, hne⟩ := hstreams.state
    rw [hs, Option.some.injEq] at hstate
    exact absurd hstate.symm (hne x)

theorem Sound.state_of_closed (h : p.Sound) {x : Role} (hc : (p.view x).cancel = .closed) :
    (p.view x).state = some x.withdrawn := by
  cases h.cause x with
  | waiting hne _ _ _ => exact absurd hc hne
  | closed _ _ _ hs => exact hs
  | granted hne _ _ _ => exact absurd hc hne
  | streaming hne _ _ => exact absurd hc hne

theorem Sound.state_of_granted (h : p.Sound) {x : Role} (hh : (p.view x).handler = .granted) :
    (p.view x).state = some x.peer.withdrawn := by
  cases h.cause x with
  | waiting _ hne _ _ => exact absurd hh hne
  | closed _ hne _ _ => exact absurd hh hne
  | granted _ _ _ hs => exact hs
  | streaming _ hne _ => exact absurd hh hne

/-- A withdrawal has reached both records or neither. -/
theorem Sound.withdrawn_iff (h : p.Sound) (hquiet : p.Quiet) (x : Role) :
    (p.view x).state = some x.withdrawn ↔ (p.view x.peer).state = some x.withdrawn := by
  constructor
  · intro hs
    rcases h.withdrawn_cases hs with ⟨_, hc⟩ | ⟨hpeer, _⟩
    · have hgranted := h.asked x
      rw [hc] at hgranted
      simpa using h.state_of_granted hgranted
    · exact absurd hpeer.symm x.peer_ne
  · intro hs
    rcases h.withdrawn_cases hs with ⟨hself, _⟩ | ⟨_, hh⟩
    · exact absurd hself x.peer_ne
    · -- the call has its answer, and has closed
      have hasked := h.asked x
      obtain ⟨hasking, hanswered⟩ := hquiet.cancel x
      rw [hh] at hasked
      refine h.state_of_closed ?_
      cases hc : (p.view x).cancel <;> simp_all [Asked]

theorem Sound.completed_iff (h : p.Sound) (hquiet : p.Quiet) :
    (p.view .sender).state = some .completed ↔ (p.view .receiver).state = some .completed := by
  constructor
  · intro hs
    have hnotShort := h.sent (.inr hs)
    obtain ⟨phase, hphase⟩ : ∃ phase, p.start = .sending phase := by
      cases h.cause .sender with
      | waiting _ _ _ hstate => rw [hs] at hstate; cases hstate
      | closed _ _ _ hstate => rw [hs] at hstate; cases hstate
      | granted _ _ _ hstate => rw [hs] at hstate; cases hstate
      | streaming _ _ hstreams => exact ⟨hstreams.choose, hstreams.choose_spec.1⟩
    have hstarted := h.started
    unfold ReceivedShort at hnotShort
    rcases hquiet.accept with ha | ha | ha | ha
    · rw [ha, hphase] at hstarted
      cases hstarted
    · rw [ha, hphase] at hstarted
      simp [Started] at hstarted
    · rw [ha] at hnotShort
      exact Classical.not_not.1 hnotShort
    · rw [ha] at hnotShort
      exact absurd trivial hnotShort
  · intro hr
    exact h.received (.inr hr)

/-- An orderly negotiation that has come to rest has the same outcome on both
    hosts. -/
theorem Sound.agrees (h : p.Sound) (hquiet : p.Quiet) : p.Agrees := by
  rintro s (rfl | rfl | rfl)
  · exact h.withdrawn_iff hquiet .sender
  · exact (h.withdrawn_iff hquiet .receiver).symm
  · exact h.completed_iff hquiet

end rest

end Snapshot

end Warpinator
