import Warpinator.Server.Telling

/-! # A Subscriber

    A subscriber to the events of an instance that keeps copies of the
    transfers, as the example interface does in `examples/tui/app.rs`: it takes
    an event from its queue and then reads the transfer that the event names.

    The channel holds 256 events.  Only subscribers that never lag are modelled,
    so every event reaches them.  `event_tx.len()` counts the events that some
    subscriber has not taken yet: at least those in this queue, and more when
    another subscriber is slower. -/

namespace Warpinator

/-! ## Section 1: Copies of transfers -/

abbrev Copies : Type := String → String → Option Transfer

def Copies.set (c : Copies) (remoteUuid transferUuid : String) (t : Option Transfer) : Copies :=
  fun k u => if k = remoteUuid ∧ u = transferUuid then t else c k u

/-- `hydrate`, and what the interface does with its result. -/
def Copies.hydrate (c : Copies) (m : RemoteManager) : WarpEvent → Copies
  | .transferAdded remoteUuid transferUuid =>
    match m.transfer remoteUuid transferUuid with
    | some t => c.set remoteUuid transferUuid (some t)
    | none => c
  | .transferUpdated remoteUuid transferUuid =>
    match m.transfer remoteUuid transferUuid with
    | some t => c.set remoteUuid transferUuid (some t)
    | none => c
  | .transferRemoved remoteUuid transferUuid => c.set remoteUuid transferUuid none
  | _ => c

/-! ## Section 2: The run that is observed -/

structure Observed where
  running : Running
  /-- The number of events taken from the queue. -/
  received : Nat
  /-- The event that is being hydrated. -/
  current : Option WarpEvent
  copies : Copies

namespace Observed

def manager (o : Observed) : RemoteManager := o.running.shared.host.manager

/-- The queue of the subscriber. -/
def queue (o : Observed) : List WarpEvent := o.manager.events.drop o.received

/-- The subscriber subscribes to a manager that is new. -/
def new (checks : Bool) : Observed where
  running := .new checks
  received := 0
  current := none
  copies _ _ := none

end Observed

/-- The value of `event_tx.len()` that an answer gives. -/
def Answer.queued : Answer → Option Nat
  | .go queued => some queued
  | .send _ queued => some queued
  | .receive _ _ queued => some queued
  | _ => none

def queuedOf : RunningLabel → Option Nat
  | .run _ (.call ans) => ans.queued
  | _ => none

inductive ObservedLabel where
  | step (l : RunningLabel)
  /-- The subscriber takes an event. -/
  | recv
  /-- It reads what the event names. -/
  | hydrate

/-- The given length of the channel is possible. -/
def Observed.Fits (o : Observed) (l : RunningLabel) : Prop :=
  ∀ queued ∈ queuedOf l,
    o.queue.length ≤ queued ∧ queued ≤ o.manager.events.length ∧ queued ≤ 256

instance Observed.decidableFits (o : Observed) (l : RunningLabel) : Decidable (o.Fits l) :=
  inferInstanceAs (Decidable (∀ queued ∈ queuedOf l, _))

def Observed.step (s : Settings) (o : Observed) : ObservedLabel → Option Observed
  | .step l =>
    if o.Fits l then
      ((activities s).poolStep o.running l).bind fun running =>
        let o := { o with running := running }
        -- the subscriber does not lag
        if o.queue.length ≤ 256 then some o else none
    else none
  | .recv =>
    match o.current, o.queue with
    | none, event :: _ => some { o with received := o.received + 1, current := some event }
    | _, _ => none
  | .hydrate =>
    o.current.map fun event =>
      { o with current := none, copies := o.copies.hydrate o.manager event }

def observing (s : Settings) : Machine Observed ObservedLabel where
  step := Observed.step s

/-! ## Section 3: What a step can do -/

/-- The steps of an observed run. -/
inductive ObservedMove (s : Settings) (o : Observed) : ObservedLabel → Observed → Prop where
  | step (l : RunningLabel) (running : Running) :
      o.Fits l → (activities s).poolStep o.running l = some running →
      ObservedMove s o (.step l) { o with running := running }
  | recv (event : WarpEvent) (rest : List WarpEvent) :
      o.current = none → o.queue = event :: rest →
      ObservedMove s o .recv { o with received := o.received + 1, current := some event }
  | hydrate (event : WarpEvent) :
      o.current = some event →
      ObservedMove s o .hydrate
        { o with current := none, copies := o.copies.hydrate o.manager event }

theorem observed_move {s : Settings} {o o' : Observed} {l : ObservedLabel}
    (h : o.step s l = some o') : ObservedMove s o l o' := by
  cases l with
  | step l =>
    simp only [Observed.step] at h
    split at h
    · next hfits =>
      obtain ⟨running, hstep, h⟩ := Option.bind_eq_some_iff.1 h
      split at h
      · cases h
        exact .step l running hfits hstep
      · cases h
    · cases h
  | recv =>
    simp only [Observed.step] at h
    split at h
    · next event rest hcurrent hqueue =>
      cases h
      exact .recv event rest hcurrent hqueue
    · cases h
  | hydrate =>
    obtain ⟨event, hcurrent, heq⟩ := Option.map_eq_some_iff.1 h
    cases heq
    exact .hydrate event hcurrent

end Warpinator
