import Warpinator.Lib.Pool
import Warpinator.Server.Connection

/-! # One Worker at Work

    A worker with its loop and the `connect` calls that run on it: from manual
    connections, discovery, registrations, the duplex handler and the loop
    itself.  All of them advance in any order. -/

namespace Warpinator

/-! ## Section 1: Steps -/

structure LiveWorker where
  connection : Connection
  calls : List ConnectPc
  loop : Loop
  /-- The root token is cancelled. -/
  cancelled : Bool

/-- An `update_remote` of another task.  No other closure touches the state. -/
structure InfoUpdate where
  apply : Remote → Remote
  uuid_apply : ∀ r, (apply r).uuid = r.uuid
  state_apply : ∀ r, (apply r).state = r.state

inductive LiveLabel where
  /-- A further call of `connect`. -/
  | start
  | call (i : Nat) (ans : ConnectAnswer)
  | loop (ans : LoopAnswer)
  | update (f : InfoUpdate)
  /-- Discovery handles `ServiceRemoved`. -/
  | removed (fullname : String)
  /-- `subscribe_state`, and such a receiver dropped. -/
  | subscribe
  | unsubscribe
  | cancelRoot

namespace LiveWorker

/-- The worker that `add_remote` has made. -/
def new (manager : RemoteManager) : LiveWorker where
  connection := .new manager
  calls := []
  loop := { pc := .borrow, seen := 0 }
  cancelled := false

def advance (crypto : Crypto) (w : Connector) (n : LiveWorker) (i : Nat) (ans : ConnectAnswer) :
    Option LiveWorker :=
  n.calls[i]?.bind fun pc =>
    (w.connect crypto n.connection pc ans).map fun (connection, pc) =>
      { n with connection := connection, calls := n.calls.set i pc }

def advanceLoop (w : Connector) (n : LiveWorker) (ans : LoopAnswer) : Option LiveWorker :=
  match n.loop.pc, ans with
  | .connect, .go =>
    some { n with
      calls := n.calls ++ [.start]
      loop := { n.loop with pc := .connecting n.calls.length } }
  | .connecting i, .go =>
    match n.calls[i]? with
    | some (.returned _) => some { n with loop := { n.loop with pc := .borrow } }
    | _ => none
  | _, _ =>
    (w.loop n.connection n.loop ans).map fun (connection, loop) =>
      { n with connection := connection, loop := loop }

/-- The receivers that the loop holds. -/
def loopReceivers (n : LiveWorker) : Nat :=
  match n.loop.pc with
  | .stopped => 0
  | _ => 1

def step (crypto : Crypto) (w : Connector) (n : LiveWorker) : LiveLabel → Option LiveWorker
  | .start => some { n with calls := n.calls ++ [.start] }
  | .call i ans => n.advance crypto w i ans
  | .loop .cancelled => if n.cancelled then n.advanceLoop w .cancelled else none
  | .loop ans => n.advanceLoop w ans
  | .update f => some { n with connection := n.connection.updateRemote w.uuid f.apply }
  | .removed fullname =>
    some { n with connection := n.connection.updateRemote fullname Remote.removed }
  | .subscribe => some { n with connection := n.connection.subscribe }
  | .unsubscribe =>
    if n.loopReceivers < n.connection.receivers then
      some { n with connection := n.connection.unsubscribe }
    else none
  | .cancelRoot => some { n with cancelled := true }

/-- The state in the record of the remote. -/
def stateOf (w : Connector) (n : LiveWorker) : Option RemoteState := n.connection.stateOf w.uuid

end LiveWorker

def Connector.live (crypto : Crypto) (w : Connector) : Machine LiveWorker LiveLabel where
  step := LiveWorker.step crypto w

/-! ## Section 2: What a step can do -/

/-- The moves of a worker at work. -/
inductive LiveMove (w : Connector) (n : LiveWorker) : LiveLabel → LiveWorker → Prop
  | start : LiveMove w n .start { n with calls := n.calls ++ [.start] }
  | call (i : Nat) (ans : ConnectAnswer) (pc : ConnectPc) (c' : Connection) (pc' : ConnectPc) :
      n.calls[i]? = some pc → ConnectMove w n.connection pc c' pc' →
      LiveMove w n (.call i ans) { n with connection := c', calls := n.calls.set i pc' }
  | loop (ans : LoopAnswer) (spawned : List ConnectPc) (c' : Connection) (loop' : Loop) :
      (ans = .cancelled → n.cancelled = true) → (∀ pc ∈ spawned, pc = .start) →
      LoopMove w n.connection n.loop.pc ans c' loop'.pc →
      LiveMove w n (.loop ans)
        { n with connection := c', calls := n.calls ++ spawned, loop := loop' }
  | update (f : InfoUpdate) :
      LiveMove w n (.update f) { n with connection := n.connection.updateRemote w.uuid f.apply }
  | removed (fullname : String) :
      LiveMove w n (.removed fullname)
        { n with connection := n.connection.updateRemote fullname Remote.removed }
  | subscribe : LiveMove w n .subscribe { n with connection := n.connection.subscribe }
  | unsubscribe :
      n.loopReceivers < n.connection.receivers →
      LiveMove w n .unsubscribe { n with connection := n.connection.unsubscribe }
  | cancelRoot : LiveMove w n .cancelRoot { n with cancelled := true }

section steps

variable {crypto : Crypto} {w : Connector} {n n' : LiveWorker}

theorem advanceLoop_move {ans : LoopAnswer} (hroot : ans = .cancelled → n.cancelled = true)
    (h : n.advanceLoop w ans = some n') : LiveMove w n (.loop ans) n' := by
  have hidle : ∀ {ans : LoopAnswer} {pc pc' : LoopPc},
      pc.sets = none → pc'.between = none → pc'.closing = false →
      pc ≠ .borrow → pc ≠ .stopped → pc' ≠ .stopped →
      LoopMove w n.connection pc ans n.connection pc' :=
    fun hsets hbetween hclosing hborrow hpc hpc' =>
      .silent _ _ _ _ (.refl _ _) hsets hbetween (by simp [hclosing])
        (fun h => absurd h hborrow) hpc hpc'
  unfold LiveWorker.advanceLoop at h
  split at h
  · next hpc =>
    cases h
    refine .loop _ [.start] _ _ hroot (by simp) ?_
    rw [hpc]
    exact hidle rfl rfl rfl (by simp) (by simp) (by simp)
  · next i hpc =>
    split at h
    · cases h
      have hmove := LiveMove.loop (w := w) (n := n) .go [] n.connection
        { n.loop with pc := .borrow } hroot (by simp)
      rw [List.append_nil, hpc] at hmove
      exact hmove (hidle rfl rfl rfl (by simp) (by simp) (by simp))
    · cases h
  · obtain ⟨⟨c', loop'⟩, hloop, rfl⟩ := Option.map_eq_some_iff.1 h
    have hmove := LiveMove.loop (w := w) (n := n) _ [] c' loop' hroot (by simp)
      (Connector.loop_move hloop)
    rw [List.append_nil] at hmove
    exact hmove

theorem Connector.live_move {l : LiveLabel} (h : (w.live crypto).step n l = some n') :
    LiveMove w n l n' := by
  have hstep : n.step crypto w l = some n' := h
  unfold LiveWorker.step at hstep
  split at hstep
  · cases hstep; exact .start
  · next i ans =>
    obtain ⟨pc, hpc, hcall⟩ := Option.bind_eq_some_iff.1 hstep
    obtain ⟨⟨c', pc'⟩, hconnect, rfl⟩ := Option.map_eq_some_iff.1 hcall
    exact .call i ans pc c' pc' hpc (Connector.connect_move hconnect)
  · split at hstep
    · next hroot => exact advanceLoop_move (fun _ => hroot) hstep
    · cases hstep
  · next ans hans => exact advanceLoop_move (fun heq => absurd heq (by simpa using hans)) hstep
  · cases hstep; exact .update _
  · cases hstep; exact .removed _
  · cases hstep; exact .subscribe
  · split at hstep
    · next hreceivers => cases hstep; exact .unsubscribe hreceivers
    · cases hstep
  · cases hstep; exact .cancelRoot

/-- What a step does to the calls. -/
theorem Connector.live_calls {l : LiveLabel} (h : (w.live crypto).step n l = some n') :
    (∃ i ans pc c' pc', l = .call i ans ∧ n.calls[i]? = some pc ∧
      w.connect crypto n.connection pc ans = some (c', pc') ∧ n'.calls = n.calls.set i pc') ∨
    ((∀ i ans, l ≠ .call i ans) ∧
      ∃ spawned, n'.calls = n.calls ++ spawned ∧ ∀ pc ∈ spawned, pc = .start) := by
  cases Connector.live_move h with
  | call i ans _ _ _ _ _ =>
    obtain ⟨pc, hpc, hcall⟩ := Option.bind_eq_some_iff.1 h
    obtain ⟨⟨c', pc'⟩, hconnect, heq⟩ := Option.map_eq_some_iff.1 hcall
    exact .inl ⟨i, ans, pc, c', pc', rfl, hpc, hconnect, (congrArg LiveWorker.calls heq).symm⟩
  | start => exact .inr ⟨by simp, [.start], rfl, by simp⟩
  | loop ans spawned c' loop' _ hspawned _ => exact .inr ⟨by simp, spawned, rfl, hspawned⟩
  | _ => exact .inr ⟨by simp, [], by simp, by simp⟩

@[simp] theorem stateOf_subscribe (c : Connection) (uuid : String) :
    c.subscribe.stateOf uuid = c.stateOf uuid := rfl

@[simp] theorem stateOf_unsubscribe (c : Connection) (uuid : String) :
    c.unsubscribe.stateOf uuid = c.stateOf uuid := rfl

@[simp] theorem stateOf_infoUpdate (c : Connection) (uuid : String) (f : InfoUpdate) :
    (c.updateRemote uuid f.apply).stateOf uuid = c.stateOf uuid :=
  stateOf_updateRemote_of_keeps c uuid f.state_apply

theorem stateOf_removed (c : Connection) (fullname uuid : String) :
    (c.updateRemote fullname Remote.removed).stateOf uuid
      = if uuid = fullname then (c.stateOf uuid).map fun _ => .disconnected
        else c.stateOf uuid := by
  rw [stateOf_updateRemote]
  split
  · next heq =>
    subst heq
    simp [Connection.stateOf, Function.comp_def, Remote.removed]
  · rfl

end steps

end Warpinator
