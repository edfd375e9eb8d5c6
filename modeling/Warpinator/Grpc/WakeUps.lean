import Mathlib.Data.List.Infix
import Warpinator.Grpc.WaitingForDuplex
import Warpinator.Server.Admissions

/-! # Wake-ups of the Duplex Handler

    `waiting_for_duplex` subscribes before it reads the record, so that a change
    of the record is either what it reads or an event that it has not read yet.

    This is the invariant behind `no_missed_wakeup`: a handler that keeps up with
    the events does not let its deadline pass over a remote that is waiting for
    it.  A handler that is overrun listens no more, and `overrun_misses_wakeup`
    shows what it misses. -/

namespace Warpinator

/-! ## Section 1: The handler and the store -/

/-- The operations of the store. -/
inductive StoreOp where
  | addRemote (r : Remote)
  | updateRemote (uuid : String) (f : Remote → Remote)
  | addTransfer (remoteUuid : String) (t : Transfer)
  | updateTransfer (queued : Nat) (remoteUuid transferUuid : String) (f : TransferUpdate)
  | removeTransfer (remoteUuid transferUuid : String)
  | addMessage (remoteUuid : String) (msg : Message)
  | removeMessage (remoteUuid messageUuid : String)

namespace RemoteManager

def apply (m : RemoteManager) : StoreOp → RemoteManager
  | .addRemote r => m.addRemote r
  | .updateRemote uuid f => (m.updateRemote uuid f).2
  | .addTransfer remoteUuid t => (m.addTransfer remoteUuid t).2
  | .updateTransfer queued remoteUuid transferUuid f =>
    (m.updateTransfer queued remoteUuid transferUuid f).2
  | .removeTransfer remoteUuid transferUuid => (m.removeTransfer remoteUuid transferUuid).2
  | .addMessage remoteUuid msg => (m.addMessage remoteUuid msg).2
  | .removeMessage remoteUuid messageUuid => (m.removeMessage remoteUuid messageUuid).2

/-- The record of the remote shows `AwaitingDuplex` or `Connected`. -/
def duplex (m : RemoteManager) (id : String) : Bool :=
  (m.remote id).any fun r => WarpServer.hasDuplex r.state

end RemoteManager

/-- A call of the handler and the store that it looks at. -/
structure DuplexWait where
  manager : RemoteManager
  pc : WarpServer.WaitingPc

inductive DuplexWaitLabel where
  | handler (ans : WarpServer.WaitingAnswer)
  | store (op : StoreOp)

namespace DuplexWait

/-- The handler advances, or anything else writes to the store. -/
def step (hasWorker : String → Bool) (d : DuplexWait) : DuplexWaitLabel → Option DuplexWait
  | .handler ans =>
    (WarpServer.waitingForDuplex d.manager hasWorker d.pc ans).map fun (pc, _) =>
      { d with pc := pc }
  | .store op => some { d with manager := d.manager.apply op }

end DuplexWait

def duplexWait (hasWorker : String → Bool) : Machine DuplexWait DuplexWaitLabel where
  step := DuplexWait.step hasWorker

/-! ## Section 2: Changes are told -/

namespace RemoteManager

/-- New events come to the end, and one of them names the remote if its record
    has been given or has lost a connection. -/
structure TellsDuplex (id : String) (m m' : RemoteManager) : Prop where
  told : ∃ es, m'.events = m.events ++ es ∧
    (m'.duplex id = m.duplex id ∨ ∃ event ∈ es, WarpServer.concernsRemote id event = true)

variable {m : RemoteManager} {id k : String}

theorem TellsDuplex.refl (m : RemoteManager) : m.TellsDuplex id m :=
  ⟨[], by simp, .inl rfl⟩

/-- A write that keeps the state of the record. -/
theorem tellsDuplex_setRemote {r r' : Remote} (event : WarpEvent) (hr : m.remotes k = some r)
    (hstate : r'.state = r.state) : m.TellsDuplex id (m.setRemote k r' event) := by
  refine ⟨[event], rfl, .inl ?_⟩
  unfold duplex
  rw [remote_setRemote]
  by_cases hid : id = k
  · have hremote : m.remote id = some r := by rw [hid]; exact hr
    rw [if_pos hid, hremote]
    show WarpServer.hasDuplex r'.state = WarpServer.hasDuplex r.state
    rw [hstate]
  · rw [if_neg hid]

theorem tellsDuplex_addRemote (r : Remote) : m.TellsDuplex id (m.addRemote r) := by
  refine ⟨[.remoteAdded r.uuid], rfl, ?_⟩
  by_cases hid : r.uuid = id
  · exact .inr ⟨_, List.mem_singleton_self _, by simp [WarpServer.concernsRemote, hid]⟩
  · -- the record of another remote
    refine .inl ?_
    unfold duplex addRemote
    rw [remote_setRemote, if_neg (fun h => hid h.symm)]

theorem tellsDuplex_updateRemote (uuid : String) (f : Remote → Remote) :
    m.TellsDuplex id (m.updateRemote uuid f).2 := by
  have hwrite := m.updateRemote_write uuid f
  generalize (m.updateRemote uuid f).2 = m' at hwrite ⊢
  cases hwrite with
  | missed => exact .refl m
  | written hr =>
    refine ⟨[.remoteUpdated uuid], rfl, ?_⟩
    by_cases hid : uuid = id
    · exact .inr ⟨_, List.mem_singleton_self _, by simp [WarpServer.concernsRemote, hid]⟩
    · refine .inl ?_
      unfold duplex
      rw [remote_setRemote, if_neg (fun h => hid h.symm)]

theorem tellsDuplex_updateTransfer (queued : Nat) (k u : String) (f : TransferUpdate) :
    m.TellsDuplex id (m.updateTransfer queued k u f).2 := by
  unfold updateTransfer
  cases hr : m.remotes k with
  | none => exact .refl m
  | some r =>
    cases m.transfer k u with
    | none => exact .refl m
    | some t =>
      -- an update of the transfer that sends an event, or one that does not
      have htold : m.TellsDuplex id
          (m.setRemote k { r with transfers := updateFirst u f r.transfers }
          (.transferUpdated k u)) := tellsDuplex_setRemote _ hr rfl
      obtain ⟨es, hes, hsame⟩ := htold.told
      dsimp only
      split
      · exact ⟨es, hes, hsame⟩
      · refine ⟨[], by simp, .inl ?_⟩
        rcases hsame with hsame | ⟨event, hmem, hconcerns⟩
        · exact hsame
        · obtain rfl : es = [.transferUpdated k u] := (List.append_cancel_left hes).symm
          rw [List.mem_singleton.1 hmem] at hconcerns
          cases hconcerns

/-- A write that keeps the state of the record it replaces. -/
theorem RecordWrite.tellsDuplex {m' : RemoteManager} {f : Remote → Remote} {event : WarpEvent}
    (h : m.RecordWrite k f event m') (hstate : ∀ r, (f r).state = r.state) :
    m.TellsDuplex id m' := by
  cases h with
  | missed => exact .refl m
  | written hr => exact tellsDuplex_setRemote event hr (hstate _)

/-- Every operation of the store tells of the connections it makes. -/
theorem tellsDuplex_apply (m : RemoteManager) (id : String) (op : StoreOp) :
    m.TellsDuplex id (m.apply op) := by
  cases op with
  | addRemote r => exact tellsDuplex_addRemote r
  | updateRemote uuid f => exact tellsDuplex_updateRemote uuid f
  | addTransfer k t => exact (m.addTransfer_write k t).tellsDuplex fun _ => rfl
  | updateTransfer queued k u f => exact tellsDuplex_updateTransfer queued k u f
  | removeTransfer k u => exact (m.removeTransfer_write k u).tellsDuplex fun _ => rfl
  | addMessage k msg => exact (m.addMessage_write k msg).tellsDuplex fun _ => rfl
  | removeMessage k u => exact (m.removeMessage_write k u).tellsDuplex fun _ => rfl

end RemoteManager

/-! ## Section 3: No missed wake-up -/

namespace DuplexWait

/-- Where in the events a handler listens. -/
def listensAt (d : DuplexWait) : Option Nat :=
  match d.pc with
  | .listen _ cursor => some cursor
  | _ => none

/-- Where the handler reads the events, it keeps up with them. -/
def KeepsUp (d : DuplexWait) : DuplexWaitLabel → Prop
  | .handler .go => ∀ cursor ∈ d.listensAt, d.manager.events.length - cursor ≤ eventCapacity
  | _ => True

/-- The deadline does not come before an event that the handler is still
    listening for. -/
def Prompt (d : DuplexWait) : DuplexWaitLabel → Prop
  | .handler .deadline => ∀ cursor ∈ d.listensAt, d.manager.events.length ≤ cursor
  | _ => True

instance decidableKeepsUp (d : DuplexWait) : (l : DuplexWaitLabel) → Decidable (d.KeepsUp l)
  | .handler .go => inferInstanceAs (Decidable (∀ cursor ∈ d.listensAt, _))
  | .handler .deadline => .isTrue trivial
  | .store _ => .isTrue trivial

instance decidablePrompt (d : DuplexWait) : (l : DuplexWaitLabel) → Decidable (d.Prompt l)
  | .handler .deadline => inferInstanceAs (Decidable (∀ cursor ∈ d.listensAt, _))
  | .handler .go => .isTrue trivial
  | .store _ => .isTrue trivial

/-- The handler of a request has subscribed. -/
def subscribed (d : DuplexWait) : Bool :=
  match d.pc with
  | .subscribe _ => false
  | _ => true

/-- After the subscription the remote gets a connection, and keeps it to the
    end of the run. -/
def Missed (hasWorker : String → Bool) (id : String) (d : DuplexWait)
    (ls : List DuplexWaitLabel) : Prop :=
  ∃ pre l post t u, ls = pre ++ l :: post ∧ (duplexWait hasWorker).exec d pre = some t ∧
    (duplexWait hasWorker).step t l = some u ∧ t.subscribed = true ∧ t.manager.duplex id = false ∧
    u.manager.duplex id = true ∧
    (duplexWait hasWorker).Always (fun s => s.manager.duplex id = true) u post

/-- An event ahead of the handler names the remote. -/
def Unread (id : String) (m : RemoteManager) (cursor : Nat) : Prop :=
  ∃ event ∈ m.events.drop cursor, WarpServer.concernsRemote id event = true

/-- A handler that has looked at the record, and has not found a connection,
    has one ahead whenever there is one. -/
def Awake (id : String) (d : DuplexWait) : Prop :=
  match d.pc with
  | .subscribe req => req.id = id
  | .lookup req cursor | .check req cursor => req.id = id ∧ cursor ≤ d.manager.events.length
  | .worker req cursor | .listen req cursor => req.id = id ∧ cursor ≤ d.manager.events.length ∧
      (d.manager.duplex id = true → Unread id d.manager cursor)
  | .lagged _ => False
  | .returned _ => True

section steps

variable {hasWorker : String → Bool} {id : String} {m m' : RemoteManager} {cursor : Nat}
  {d d' : DuplexWait} {l : DuplexWaitLabel} {ls : List DuplexWaitLabel}

/-- A write keeps something ahead, or puts it there. -/
theorem unread_of_tells (htells : m.TellsDuplex id m') (hcursor : cursor ≤ m.events.length)
    (h : m.duplex id = true → Unread id m cursor) (hduplex : m'.duplex id = true) :
    Unread id m' cursor := by
  obtain ⟨es, hevents, hcases⟩ := htells.told
  unfold Unread
  rw [hevents, List.drop_append_of_le_length hcursor]
  rcases hcases with hsame | ⟨event, hmem, hconcerns⟩
  · obtain ⟨event, hmem, hconcerns⟩ := h (hsame ▸ hduplex)
    exact ⟨event, List.mem_append_left _ hmem, hconcerns⟩
  · exact ⟨event, List.mem_append_right _ hmem, hconcerns⟩

/-- An event that does not name the remote is nothing to wait for. -/
theorem unread_succ {event : WarpEvent} (hevent : m.events[cursor]? = some event)
    (hother : WarpServer.concernsRemote id event = false) (h : Unread id m cursor) :
    Unread id m (cursor + 1) := by
  obtain ⟨hlt, hget⟩ := List.getElem?_eq_some_iff.1 hevent
  obtain ⟨event', hmem, hconcerns⟩ := h
  rw [List.drop_eq_getElem_cons hlt, hget] at hmem
  rcases List.mem_cons.1 hmem with rfl | hmem
  · rw [hother] at hconcerns
    cases hconcerns
  · exact ⟨event', hmem, hconcerns⟩

theorem awake_store (h : Awake id d) (op : StoreOp) :
    Awake id { d with manager := d.manager.apply op } := by
  have htells := d.manager.tellsDuplex_apply id op
  have hlonger : d.manager.events.length ≤ (d.manager.apply op).events.length := by
    obtain ⟨es, hevents, _⟩ := htells.told
    rw [hevents, List.length_append]
    omega
  obtain ⟨manager, pc⟩ := d
  cases pc with
  | subscribe req => exact h
  | lookup req cursor => exact ⟨h.1, h.2.trans hlonger⟩
  | check req cursor => exact ⟨h.1, h.2.trans hlonger⟩
  | worker req cursor =>
    obtain ⟨hreq, hcursor, hahead⟩ := h
    exact ⟨hreq, hcursor.trans hlonger, unread_of_tells htells hcursor hahead⟩
  | listen req cursor =>
    obtain ⟨hreq, hcursor, hahead⟩ := h
    exact ⟨hreq, hcursor.trans hlonger, unread_of_tells htells hcursor hahead⟩
  | lagged req => exact h
  | returned response => trivial

theorem awake_handler {ans : WarpServer.WaitingAnswer} {pc' : WarpServer.WaitingPc} {spawns : Bool}
    (hkeeps : d.KeepsUp (.handler ans)) (hawake : Awake id d)
    (h : WarpServer.waitingForDuplex d.manager hasWorker d.pc ans = some (pc', spawns)) :
    Awake id { d with pc := pc' } := by
  obtain ⟨m, pc⟩ := d
  unfold WarpServer.waitingForDuplex at h
  dsimp only at h
  split at h
  · -- the handler subscribes before it reads
    cases h
    exact ⟨hawake, le_refl _⟩
  · next req cursor =>
    obtain ⟨rfl, hcursor⟩ := hawake
    -- whatever has no connection now needs an event to get one
    have hnone : m.duplex req.id = false →
        (m.duplex req.id = true → Unread req.id m cursor) := by
      intro hfalse htrue
      rw [hfalse] at htrue
      cases htrue
    split at h
    · next hremote =>
      cases h
      exact ⟨rfl, hcursor, hnone (by simp [RemoteManager.duplex, hremote])⟩
    · next remote hremote =>
      have hstate : m.duplex req.id = WarpServer.hasDuplex remote.state := by
        simp [RemoteManager.duplex, hremote]
      split at h
      · next hs => cases h; exact ⟨rfl, hcursor, hnone (by rw [hstate, hs]; rfl)⟩
      · next hs => cases h; exact ⟨rfl, hcursor, hnone (by rw [hstate, hs]; rfl)⟩
      · cases h; trivial
      · cases h; trivial
      · next hs => cases h; exact ⟨rfl, hcursor, hnone (by rw [hstate, hs]; rfl)⟩
  · cases h
    exact hawake
  · cases h
    trivial
  · next req cursor =>
    obtain ⟨rfl, hcursor, hahead⟩ := hawake
    split at h
    · cases h
    · next event hevent =>
      obtain ⟨hlt, _⟩ := List.getElem?_eq_some_iff.1 hevent
      split at h
      · -- the handler has kept up
        next hover =>
        have hle : m.events.length - cursor ≤ eventCapacity := hkeeps cursor rfl
        omega
      · split at h
        · cases h; exact ⟨rfl, hlt⟩
        · -- an event of another remote is passed over
          next hother =>
          cases h
          refine ⟨rfl, hlt, fun hduplex => ?_⟩
          exact unread_succ hevent (by simpa using hother) (hahead hduplex)
  · next req cursor =>
    obtain ⟨rfl, hcursor⟩ := hawake
    split at h
    · next hremote =>
      cases h
      refine ⟨rfl, hcursor, fun hduplex => ?_⟩
      simp [RemoteManager.duplex, hremote] at hduplex
    · next remote hremote =>
      split at h
      · cases h; trivial
      · next hstate =>
        cases h
        refine ⟨rfl, hcursor, fun hduplex => ?_⟩
        simp [RemoteManager.duplex, hremote, hstate] at hduplex
  · exact hawake.elim
  · cases h

theorem step_awake (hkeeps : d.KeepsUp l) (hawake : Awake id d)
    (h : (duplexWait hasWorker).step d l = some d') : Awake id d' := by
  cases l with
  | handler ans =>
    obtain ⟨⟨pc', spawns⟩, hstep, rfl⟩ := Option.map_eq_some_iff.1 h
    exact awake_handler hkeeps hawake hstep
  | store op =>
    obtain rfl := Option.some.inj h
    exact awake_store hawake op

/-- A handler that has kept up, and that the deadline ends, has no connection
    before it. -/
theorem not_duplex_at_deadline (hawake : Awake id d) (hprompt : d.Prompt (.handler .deadline))
    (h : (duplexWait hasWorker).step d (.handler .deadline) = some d') :
    d'.pc = .returned false ∧ d.manager.duplex id = false := by
  obtain ⟨⟨pc', spawns⟩, hstep, rfl⟩ := Option.map_eq_some_iff.1 h
  obtain ⟨m, pc⟩ := d
  cases pc with
  | listen req cursor =>
    cases hstep
    refine ⟨rfl, ?_⟩
    obtain ⟨rfl, hcursor, hahead⟩ := hawake
    cases hduplex : m.duplex req.id with
    | false => rfl
    | true =>
      -- but everything published has been read
      obtain ⟨event, hmem, _⟩ := hahead hduplex
      have hempty : m.events.drop cursor = [] := List.drop_eq_nil_of_le (hprompt cursor rfl)
      rw [hempty] at hmem
      cases hmem
  | lagged req => exact hawake.elim
  | subscribe req => cases hstep
  | lookup req cursor => cases hstep
  | worker req cursor => cases hstep
  | check req cursor => cases hstep
  | returned response => cases hstep

/-- A handler that keeps up with the events, and that its deadline ends, answers
    `false` and has not missed a connection. -/
theorem no_missed_wakeup {req : LookupName}
    (hprompt : (duplexWait hasWorker).Along Prompt ⟨m, .subscribe req⟩ (ls ++ [.handler .deadline]))
    (hkeeps : (duplexWait hasWorker).Along KeepsUp ⟨m, .subscribe req⟩ (ls ++ [.handler .deadline]))
    (hrun : (duplexWait hasWorker).exec ⟨m, .subscribe req⟩ (ls ++ [.handler .deadline])
      = some d') :
    d'.pc = .returned false ∧ ¬ Missed hasWorker req.id ⟨m, .subscribe req⟩ ls := by
  obtain ⟨d, hls, hlast⟩ := (Machine.exec_append _).1 hrun
  obtain ⟨_, hdeadline, hnil⟩ := (Machine.exec_cons _).1 hlast
  obtain rfl := Option.some.inj hnil
  have h₀ : Awake req.id ⟨m, .subscribe req⟩ := rfl
  have hawake : Awake req.id d :=
    Machine.exec_invariant_along _ (fun _ _ _ hkeeps hawake hstep => step_awake hkeeps hawake hstep)
      h₀ (Machine.along_of_append _ hkeeps) hls
  have hlast := ((Machine.along_snoc _).1 hprompt).2 d hls
  obtain ⟨hreturned, hnot⟩ := not_duplex_at_deadline hawake hlast hdeadline
  refine ⟨hreturned, ?_⟩
  rintro ⟨pre, l, post, t, u, rfl, hpre, hstep, _, _, _, hstays⟩
  -- the state before the deadline is the last of those that keep the connection
  obtain ⟨t', hpre', hpost⟩ := (Machine.exec_append _).1 hls
  obtain rfl : t = t' := Option.some.inj (hpre.symm.trans hpre')
  obtain ⟨u', hstep', hpost⟩ := (Machine.exec_cons _).1 hpost
  obtain rfl : u = u' := Option.some.inj (hstep.symm.trans hstep')
  have hduplex : d.manager.duplex req.id = true := hstays post d (List.prefix_refl _) hpost
  rw [hnot] at hduplex
  cases hduplex

end steps

/-- `b` is connecting, and there is another remote. -/
def twoKnown : RemoteManager :=
  (RemoteManager.single { Remote.new "b" (.v4 0) 0 0 "b" "" with state := .connecting }).addRemote
    (.new "c" (.v4 0) 0 0 "c" "")

/-- The start of a call for `b`. -/
def calledForB : DuplexWait := ⟨twoKnown, .subscribe { id := "b", readableName := "" }⟩

/-- The other remote is written. -/
def touch : DuplexWaitLabel := .store (.updateRemote "c" id)

/-- `b` is connected. -/
def connectB : DuplexWaitLabel := .store (.updateRemote "b" fun r => { r with state := .connected })

/-- `b` falls back. -/
def dropB : DuplexWaitLabel := .store (.updateRemote "b" fun r => { r with state := .connecting })

/-- `b` is connected and falls back before the handler looks again: it reads the
    event of the other remote, and each of the two for `b` lets it look once. -/
def fallenBack : List DuplexWaitLabel :=
  [.handler .go, .handler .go, touch, connectB, .handler .go, dropB, .handler .go, .handler .go,
    .handler .go, .handler .go]

/-- A call that waits for `b` in vain, which does not stay connected. -/
theorem no_missed_wakeup_fallenBack : ¬ Missed (fun _ => false) "b" calledForB fallenBack := by
  have hprompt : (duplexWait fun _ => false).Along Prompt calledForB
      (fallenBack ++ [.handler .deadline]) := by decide
  have hkeeps : (duplexWait fun _ => false).Along KeepsUp calledForB
      (fallenBack ++ [.handler .deadline]) := by decide
  exact (no_missed_wakeup hprompt hkeeps rfl).2

theorem exec_touch {d : DuplexWait} {r : Remote} (hr : d.manager.remotes "c" = some r) (n : Nat) :
    (duplexWait fun _ => false).exec d (List.replicate n touch) = some { d with
      manager := { d.manager with
        events := d.manager.events ++ List.replicate n (.remoteUpdated "c") } } := by
  induction n generalizing d with
  | zero => simp
  | succ n ih =>
    obtain ⟨⟨remotes, events⟩, pc⟩ := d
    have hr' : remotes "c" = some r := hr
    -- the write leaves the record as it is and adds an event
    have hstep : (duplexWait fun _ => false).step ⟨⟨remotes, events⟩, pc⟩ touch
        = some ⟨⟨remotes, events ++ [.remoteUpdated "c"]⟩, pc⟩ := by
      show some (DuplexWait.mk (RemoteManager.updateRemote ⟨remotes, events⟩ "c" id).2 pc) = _
      simp only [RemoteManager.updateRemote, hr', RemoteManager.setRemote, id]
      rw [← hr', Function.update_eq_self]
    rw [List.replicate_succ]
    refine (Machine.exec_cons _).2 ⟨_, hstep, ?_⟩
    rw [ih hr']
    simp [List.replicate_succ]

theorem prompt_of_no_deadline {hasWorker : String → Bool} {d : DuplexWait}
    {ls : List DuplexWaitLabel}
    (h : .handler .deadline ∉ ls) : (duplexWait hasWorker).Along Prompt d ls := by
  induction ls generalizing d with
  | nil => trivial
  | cons l ls ih =>
    refine ⟨?_, fun d' _ => ih fun hmem => h (List.mem_cons_of_mem _ hmem)⟩
    cases l with
    | handler ans =>
      cases ans with
      | go => trivial
      | deadline => exact absurd List.mem_cons_self h
    | store op => trivial

/-- The handler has to wait, `n` events come before it looks again, and then `b`
    gets connected. -/
def overrun (n : Nat) : List DuplexWaitLabel :=
  ([.handler .go, .handler .go] ++ List.replicate n touch ++ [.handler .go]) ++ [connectB]

/-- More events than the channel holds: the handler listens no more. -/
def overrunState (n : Nat) : DuplexWait where
  manager := { twoKnown with events := .remoteAdded "c" :: List.replicate n (.remoteUpdated "c") }
  pc := .lagged { id := "b", readableName := "" }

theorem exec_overrun {n : Nat} (hn : eventCapacity < n) :
    (duplexWait fun _ => false).exec calledForB
        ([.handler .go, .handler .go] ++ List.replicate n touch ++ [.handler .go])
      = some (overrunState n) := by
  have hlisten : (duplexWait fun _ => false).exec calledForB [.handler .go, .handler .go]
      = some ⟨twoKnown, .listen ⟨"b", ""⟩ 1⟩ := rfl
  have htouched := exec_touch (d := ⟨twoKnown, .listen ⟨"b", ""⟩ 1⟩) rfl n
  refine (Machine.exec_append _).2 ⟨_, (Machine.exec_append _).2 ⟨_, hlisten, htouched⟩, ?_⟩
  obtain ⟨k, rfl⟩ : ∃ k, n = k + 1 := ⟨n - 1, by omega⟩
  have hlength : (overrunState (k + 1)).manager.events.length - 1 > eventCapacity := by
    simpa [overrunState] using hn
  have hnext : (overrunState (k + 1)).manager.events[1]? = some (.remoteUpdated "c") := rfl
  -- `Err(Lagged)` does not match the pattern of the branch
  have hlagged : WarpServer.waitingForDuplex (overrunState (k + 1)).manager (fun _ => false)
      (.listen ⟨"b", ""⟩ 1) .go = some (.lagged ⟨"b", ""⟩, false) := by
    simp only [WarpServer.waitingForDuplex, hnext]
    rw [if_pos hlength]
  refine (Machine.exec_cons _).2 ⟨overrunState (k + 1), ?_, rfl⟩
  exact Option.map_eq_some_iff.2 ⟨_, hlagged, rfl⟩

theorem overrun_misses_wakeup :
    ∃ d', (duplexWait fun _ => false).exec calledForB (overrun 257 ++ [.handler .deadline])
        = some d' ∧
      (duplexWait fun _ => false).Along Prompt calledForB (overrun 257 ++ [.handler .deadline]) ∧
      d'.pc = .returned false ∧ Missed (fun _ => false) "b" calledForB (overrun 257) := by
  have hoverrun := exec_overrun (n := 257) (by decide)
  have hconnect : (duplexWait fun _ => false).exec calledForB (overrun 257)
      = some { overrunState 257 with manager := (overrunState 257).manager.apply (.updateRemote "b"
          fun r => { r with state := .connected }) } :=
    (Machine.exec_append _).2 ⟨_, hoverrun, rfl⟩
  have hno : .handler .deadline ∉ overrun 257 := by
    intro hmem
    simp only [overrun, List.mem_append, List.mem_cons, List.mem_replicate, touch, connectB] at hmem
    simp at hmem
  refine ⟨_, (Machine.exec_append _).2 ⟨_, hconnect, rfl⟩, ?_, rfl, ?_⟩
  · -- the deadline ends a call that listens no more
    refine (Machine.along_snoc _).2 ⟨prompt_of_no_deadline hno, fun t ht => ?_⟩
    obtain rfl := Option.some.inj (hconnect.symm.trans ht)
    intro cursor hcursor
    cases hcursor
  · refine ⟨_, connectB, [], overrunState 257, _, rfl, hoverrun, rfl, rfl, rfl, rfl, ?_⟩
    intro pre t hpre hrun
    obtain rfl : pre = [] := List.prefix_nil.1 hpre
    obtain rfl := Option.some.inj hrun
    rfl

end DuplexWait

end Warpinator
