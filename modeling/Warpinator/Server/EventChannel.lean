import Warpinator.Lib.Broadcast
import Warpinator.Lib.Machine
import Warpinator.Grpc.WakeUps

/-! # The Event Channel

    The channel behind `event_tx`, with the operations of the manager that send
    on it and any number of subscribers.

    Every operation sends while it holds the lock of `remotes`, apart from
    `add_remote`, which sends when it has released it.  So `update_transfer`
    reads `event_tx.len()` and sends later, and between the two the receivers
    move and records that were added before are announced.

    `progress_alone_loses_nothing`: at most half of the channel is ever taken by
    progress. -/

namespace Warpinator

/-! ## Section 1: Operations on the channel -/

/-- An event with what its throttle has seen. -/
structure Publication where
  event : WarpEvent
  /-- For an `update_transfer` that left the kind of state as it was: how many
      events had been sent when it read the length of the channel. -/
  checkedAt : Option Nat

/-- The event of an `update_transfer` that left the kind of state as it was. -/
def Publication.isProgress (p : Publication) : Bool := p.checkedAt.isSome

/-- The event of an `add_remote`. -/
def Publication.announces (p : Publication) : Prop :=
  ∃ uuid, p = { event := .remoteAdded uuid, checkedAt := none }

structure EventBus where
  manager : RemoteManager
  channel : Broadcast Publication
  /-- What the holder of the lock of `remotes` is about to send. -/
  pending : Option Publication
  /-- The events of remotes that `add_remote` has inserted and not announced. -/
  unannounced : List Publication

inductive EventLabel where
  /-- An operation up to its event. -/
  | write (op : StoreOp)
  /-- It sends its event and releases the lock. -/
  | send
  /-- An `add_remote` sends its event, without the lock. -/
  | announce (i : Nat)
  | subscribe
  | recv (i : Nat)
  | drop (i : Nat)

/-- The operation leaves the kind of state of the transfer as it is. -/
def StoreOp.keepsKind (m : RemoteManager) : StoreOp → Bool
  | .updateTransfer _ remoteUuid transferUuid f =>
    (m.transfer remoteUuid transferUuid).any fun t =>
      (f.apply t).state.discriminant == t.state.discriminant
  | _ => false

/-- The length that `update_transfer` reads is that of the channel. -/
def StoreOp.reads (len : Nat) : StoreOp → Bool
  | .updateTransfer queued _ _ _ => queued == len
  | _ => true

def StoreOp.announces : StoreOp → Bool
  | .addRemote _ => true
  | _ => false

namespace EventBus

def new : EventBus where
  manager := .empty
  channel := .new
  pending := none
  unannounced := []

/-- The event that an operation has added to those of the manager. -/
def publication (b : EventBus) (op : StoreOp) : Option Publication :=
  ((b.manager.apply op).events.drop b.manager.events.length).head?.map fun event =>
    { event, checkedAt := if op.keepsKind b.manager then some b.channel.sent.length else none }

def write (b : EventBus) (op : StoreOp) : EventBus :=
  if op.announces then
    { b with
      manager := b.manager.apply op
      unannounced := b.unannounced ++ (b.publication op).toList }
  else { b with manager := b.manager.apply op, pending := b.publication op }

def step (b : EventBus) : EventLabel → Option EventBus
  | .write op =>
    if b.pending.isNone && op.reads (b.channel.len eventCapacity) then some (b.write op) else none
  | .send => b.pending.map fun p => { b with channel := b.channel.send p, pending := none }
  | .announce i =>
    b.unannounced[i]?.map fun p =>
      { b with channel := b.channel.send p, unannounced := b.unannounced.eraseIdx i }
  | .subscribe => some { b with channel := b.channel.subscribe }
  | .recv i =>
    (b.channel.recv eventCapacity i).map fun (_, channel) => { b with channel := channel }
  | .drop i => some { b with channel := b.channel.drop i }

end EventBus

def eventBus : Machine EventBus EventLabel where
  step := EventBus.step

/-! ## Section 2: What an operation publishes -/

/-- Progress is published only while the channel is less than half full. -/
theorem len_of_progress {b : EventBus} {op : StoreOp} {p : Publication} {n : Nat}
    (hreads : op.reads (b.channel.len eventCapacity) = true) (hp : b.publication op = some p)
    (hn : p.checkedAt = some n) :
    n = b.channel.sent.length ∧ b.channel.len eventCapacity < 128 := by
  obtain ⟨event, hevent, rfl⟩ := Option.map_eq_some_iff.1 hp
  dsimp only at hn
  split at hn
  · next hkeeps =>
    refine ⟨(Option.some.inj hn).symm, ?_⟩
    cases op with
    | updateTransfer queued k u f =>
      have hqueued : queued = b.channel.len eventCapacity := beq_iff_eq.1 hreads
      obtain ⟨t, ht, hkind⟩ := (Option.any_eq_true _ _).1 hkeeps
      by_contra hfull
      -- neither of the two conditions of the throttle holds
      have hnone : (b.manager.apply (.updateTransfer queued k u f)).events = b.manager.events := by
        show (b.manager.updateTransfer queued k u f).2.events = _
        unfold RemoteManager.updateTransfer
        split
        · next r t' _ ht' =>
          obtain rfl : t = t' := Option.some.inj (ht.symm.trans ht')
          rw [if_neg]
          rintro (hlt | hne)
          · omega
          · exact hne (beq_iff_eq.1 hkind)
        · rfl
      rw [hnone, List.drop_length] at hevent
      cases hevent
    | _ => cases hkeeps
  · cases hn

/-- `add_remote` publishes an announcement. -/
theorem announces_publication {b : EventBus} {op : StoreOp} {p : Publication}
    (hop : op.announces = true) (hp : b.publication op = some p) : p.announces := by
  obtain ⟨event, hevent, rfl⟩ := Option.map_eq_some_iff.1 hp
  cases op with
  | addRemote r =>
    have hdrop : (b.manager.apply (.addRemote r)).events.drop b.manager.events.length
        = [.remoteAdded r.uuid] := List.drop_left
    rw [hdrop] at hevent
    obtain rfl := Option.some.inj hevent
    exact ⟨r.uuid, rfl⟩
  | _ => cases hop

/-! ## Section 3: The throttle -/

/-- `n` events had been sent when the throttle of an event at position `k` was
    consulted: no receiver was half a channel behind, and what has been sent
    since are announcements. -/
structure Throttled (channel : Broadcast Publication) (k n : Nat) : Prop where
  le : n ≤ k
  within : channel.Within 128 n
  announced : ∀ l, n ≤ l → l < k → ∃ p, channel.sent[l]? = some p ∧ p.announces

structure EventBus.Paced (b : EventBus) : Prop where
  sent : ∀ k p n, b.channel.sent[k]? = some p → p.checkedAt = some n → Throttled b.channel k n
  pending : ∀ p n, b.pending = some p → p.checkedAt = some n →
    Throttled b.channel b.channel.sent.length n
  unannounced : ∀ p ∈ b.unannounced, p.announces

section paced

variable {channel channel' : Broadcast Publication} {k n : Nat} {b b' : EventBus}

/-- Steps of the receivers. -/
theorem Throttled.onward (h : Throttled channel k n) (hk : k ≤ channel.sent.length)
    (ho : channel.Onward channel') (hsent : channel'.sent = channel.sent) :
    Throttled channel' k n where
  le := h.le
  within := h.within.onward (by decide) (Nat.le_trans h.le hk) ho
  announced := by
    rw [hsent]
    exact h.announced

/-- A value that is sent comes behind the events that are there. -/
theorem Throttled.send (h : Throttled channel k n) (p : Publication) :
    Throttled (channel.send p) k n where
  le := h.le
  within := h.within.send p
  announced := by
    intro l hl hk
    obtain ⟨q, hq, hannounces⟩ := h.announced l hl hk
    refine ⟨q, ?_, hannounces⟩
    rcases channel.sent_append_or p with hsent | hsent
    · rw [hsent, List.getElem?_append_left (List.getElem?_eq_some_iff.1 hq).1]
      exact hq
    · rw [hsent]
      exact hq

theorem paced_of_onward {channel : Broadcast Publication} (h : b.Paced)
    (ho : b.channel.Onward channel) (hsent : channel.sent = b.channel.sent) :
    EventBus.Paced { b with channel := channel } where
  sent := by
    intro k p n hp hn
    rw [hsent] at hp
    exact (h.sent k p n hp hn).onward (Nat.le_of_lt (List.getElem?_eq_some_iff.1 hp).1) ho hsent
  pending := by
    intro p n hp hn
    rw [hsent]
    exact (h.pending p n hp hn).onward (Nat.le_refl _) ho hsent
  unannounced := h.unannounced

/-- Sending an event that was throttled, or an announcement. -/
theorem sent_send (h : b.Paced) {p : Publication}
    (hp : ∀ n, p.checkedAt = some n → Throttled b.channel b.channel.sent.length n) :
    ∀ k q n, (b.channel.send p).sent[k]? = some q → q.checkedAt = some n →
      Throttled (b.channel.send p) k n := by
  intro k q n hq hn
  have hcases : b.channel.sent[k]? = some q ∨ k = b.channel.sent.length ∧ q = p := by
    rcases b.channel.sent_append_or p with hsent | hsent
    · rw [hsent, List.getElem?_append] at hq
      split at hq
      · exact .inl hq
      · right
        obtain ⟨hlt, hqp⟩ := List.getElem?_eq_some_iff.1 hq
        simp only [List.length_singleton] at hlt
        exact ⟨by omega, (List.mem_singleton.1 (List.mem_of_getElem? hq))⟩
    · rw [hsent] at hq
      exact .inl hq
  rcases hcases with hold | ⟨rfl, rfl⟩
  · exact (h.sent k q n hold hn).send p
  · exact (hp n hn).send q

theorem paced_send {p : Publication} (h : b.Paced) (hp : b.pending = some p) :
    EventBus.Paced { b with channel := b.channel.send p, pending := none } where
  sent := sent_send h fun n hn => h.pending p n hp hn
  pending := by
    intro q n hq
    cases hq
  unannounced := h.unannounced

theorem paced_announce {i : Nat} {p : Publication} (h : b.Paced) (hp : b.unannounced[i]? = some p) :
    EventBus.Paced
      { b with channel := b.channel.send p, unannounced := b.unannounced.eraseIdx i } where
  sent := by
    obtain ⟨uuid, rfl⟩ := h.unannounced p (List.mem_of_getElem? hp)
    exact sent_send h fun n hn => by cases hn
  pending := by
    intro q n hq hn
    have hthrottled := (h.pending q n hq hn).send p
    show Throttled (b.channel.send p) (b.channel.send p).sent.length n
    refine ⟨?_, hthrottled.within, fun l hl hlt => ?_⟩
    · have hle := hthrottled.le
      rcases b.channel.sent_append_or p with hsent | hsent
      · rw [hsent, List.length_append]
        omega
      · rw [hsent]
        exact hle
    · by_cases hlast : l < b.channel.sent.length
      · exact hthrottled.announced l hl hlast
      · -- the event sent now is an announcement
        refine ⟨p, ?_, h.unannounced p (List.mem_of_getElem? hp)⟩
        rcases b.channel.sent_append_or p with hsent | hsent
        · rw [hsent, List.length_append, List.length_singleton] at hlt
          rw [hsent, show l = b.channel.sent.length by omega]
          exact List.getElem?_concat_length
        · rw [hsent] at hlt
          exact absurd hlt hlast
  unannounced := fun q hq => h.unannounced q (List.eraseIdx_subset hq)

theorem paced_write {op : StoreOp} (h : b.Paced) (hpending : b.pending = none)
    (hreads : op.reads (b.channel.len eventCapacity) = true) : (b.write op).Paced := by
  unfold EventBus.write
  split
  · next hop =>
    refine ⟨h.sent, fun p n hp => ?_, fun p hp => ?_⟩
    · rw [show EventBus.pending _ = b.pending from rfl, hpending] at hp
      cases hp
    · rcases List.mem_append.1 hp with hp | hp
      · exact h.unannounced p hp
      · exact announces_publication hop (Option.mem_toList.1 hp)
  · refine ⟨h.sent, fun p n hp hn => ?_, h.unannounced⟩
    obtain ⟨rfl, hlen⟩ := len_of_progress hreads hp hn
    exact ⟨Nat.le_refl _, Broadcast.within_of_len hlen (by decide),
      fun l hl hlt => absurd hlt (Nat.not_lt.2 hl)⟩

theorem paced_step {l : EventLabel} (h : b.Paced) (hstep : eventBus.step b l = some b') :
    b'.Paced := by
  cases l with
  | write op =>
    rw [show eventBus.step b (.write op)
      = if b.pending.isNone && op.reads _ then _ else none from rfl]
      at hstep
    split at hstep
    · next hcan =>
      rw [Bool.and_eq_true, Option.isNone_iff_eq_none] at hcan
      obtain rfl := Option.some.inj hstep
      exact paced_write h hcan.1 hcan.2
    · cases hstep
  | send =>
    obtain ⟨p, hp, rfl⟩ := Option.map_eq_some_iff.1 hstep
    exact paced_send h hp
  | announce i =>
    obtain ⟨p, hp, rfl⟩ := Option.map_eq_some_iff.1 hstep
    exact paced_announce h hp
  | subscribe =>
    obtain rfl := Option.some.inj hstep
    exact paced_of_onward h Broadcast.onward_subscribe rfl
  | recv i =>
    obtain ⟨⟨r, channel⟩, hrecv, rfl⟩ := Option.map_eq_some_iff.1 hstep
    obtain ⟨ho, hsent⟩ := Broadcast.onward_recv hrecv
    exact paced_of_onward h ho hsent
  | drop i =>
    obtain rfl := Option.some.inj hstep
    exact paced_of_onward h (Broadcast.onward_drop i) rfl

theorem paced_run {ls : List EventLabel} (hrun : eventBus.exec .new ls = some b) : b.Paced := by
  refine eventBus.exec_invariant (I := EventBus.Paced) (fun _ _ _ hI h => paced_step hI h) ?_ hrun
  refine ⟨fun k p n hp => ?_, fun p n hp => ?_, fun p hp => ?_⟩
  · cases hp
  · cases hp
  · cases hp

end paced

/-! ## Section 4: What a receiver has not read -/

/-- A progress event among the unread ones: at the check fewer than 128 events of
    the list had been sent, and from then on there are only announcements in
    front of it. -/
structure Early (unread : List Publication) (k m : Nat) : Prop where
  lt : m < 128
  announced : ∀ l, m ≤ l → l < k → ∃ p, unread[l]? = some p ∧ p.announces

/-- Progress events that all were early are at most half a channel. -/
theorem countP_isProgress_le {unread : List Publication}
    (h : ∀ k p, unread[k]? = some p → p.isProgress = true → ∃ m, Early unread k m) :
    unread.countP Publication.isProgress ≤ 128 := by
  induction unread using List.reverseRecOn with
  | nil => simp
  | append_singleton before p ih =>
    rw [List.countP_append, List.countP_singleton]
    split
    · next hprogress =>
      obtain ⟨m, hearly⟩ := h before.length p List.getElem?_concat_length hprogress
      -- behind the check there is nothing but announcements
      have hlate : (before.drop m).countP Publication.isProgress = 0 := by
        rw [List.countP_eq_zero]
        intro q hq
        obtain ⟨l, hl⟩ := List.mem_iff_getElem?.1 hq
        rw [List.getElem?_drop] at hl
        have hlt := (List.getElem?_eq_some_iff.1 hl).1
        obtain ⟨q', hq', uuid, rfl⟩ := hearly.announced (m + l) (by omega) hlt
        rw [List.getElem?_append_left hlt, hl] at hq'
        obtain rfl := Option.some.inj hq'
        simp [Publication.isProgress]
      have hcount : before.countP Publication.isProgress ≤ m := by
        rw [← List.take_append_drop m before, List.countP_append, hlate, Nat.add_zero]
        exact Nat.le_trans List.countP_le_length (List.length_take_le m before)
      have hlt := hearly.lt
      omega
    · refine Nat.le_trans (ih fun k q hq hprogress => ?_) (Nat.le_refl _)
      have hlt := (List.getElem?_eq_some_iff.1 hq).1
      obtain ⟨m, hearly⟩ := h k q (by rw [List.getElem?_append_left hlt]; exact hq) hprogress
      refine ⟨m, hearly.lt, fun l hl hk => ?_⟩
      obtain ⟨p', hp', hannounces⟩ := hearly.announced l hl hk
      rw [List.getElem?_append_left (by omega)] at hp'
      exact ⟨p', hp', hannounces⟩

/-! ## Section 5: Runs with a slow receiver -/

theorem EventBus.write_locked (b : EventBus) {op : StoreOp} (hop : op.announces = false) :
    b.write op = { b with manager := b.manager.apply op, pending := b.publication op } := by
  rw [EventBus.write, hop]
  rfl

/-- A remote with a transfer in progress. -/
def transferringB : Remote :=
  { Remote.new "b" (.v4 1) 42000 42001 "b" "b" with
    transfers := [.bare "t" "b" .inProgress (.incoming [])] }

/-- The record of `b` is written `n` times and told of. -/
def touches (n : Nat) : List EventLabel :=
  (List.replicate n [.write (.updateRemote "b" id), .send]).flatten

def touchedB : Publication := { event := .remoteUpdated "b", checkedAt := none }

def EventBus.touched (b : EventBus) (n : Nat) : EventBus :=
  { b with
    manager :=
      { b.manager with events := b.manager.events ++ List.replicate n (.remoteUpdated "b") }
    channel := { b.channel with sent := b.channel.sent ++ List.replicate n touchedB } }

theorem exec_touches {b : EventBus} {r : Remote} (hr : b.manager.remotes "b" = some r)
    (hpending : b.pending = none) (hlisten : b.channel.receivers.any Option.isSome = true)
    (n : Nat) :
    eventBus.exec b (touches n) = some (b.touched n) := by
  induction n generalizing b with
  | zero => simp [touches, EventBus.touched]
  | succ n ih =>
    obtain ⟨⟨remotes, events⟩, ⟨sent, receivers⟩, pending, unannounced⟩ := b
    obtain rfl : pending = none := hpending
    have hr' : remotes "b" = some r := hr
    have hsend : Broadcast.send ⟨sent, receivers⟩ touchedB = ⟨sent ++ [touchedB], receivers⟩ := by
      rw [Broadcast.send, if_pos hlisten]
    -- the write leaves the record as it is and adds an event
    have happly : RemoteManager.apply ⟨remotes, events⟩ (.updateRemote "b" id)
        = ⟨remotes, events ++ [.remoteUpdated "b"]⟩ := by
      simp only [RemoteManager.apply, RemoteManager.updateRemote, hr', RemoteManager.setRemote, id]
      rw [← hr', Function.update_eq_self]
    have hpublication : EventBus.publication
        ⟨⟨remotes, events⟩, ⟨sent, receivers⟩, none, unannounced⟩
        (.updateRemote "b" id) = some touchedB := by
      rw [EventBus.publication, happly, List.drop_left]
      rfl
    have hwrite : eventBus.step ⟨⟨remotes, events⟩, ⟨sent, receivers⟩, none, unannounced⟩
        (.write (.updateRemote "b" id))
        = some ⟨⟨remotes, events ++ [.remoteUpdated "b"]⟩, ⟨sent, receivers⟩, some touchedB,
          unannounced⟩ := by
      show some (EventBus.write _ _) = _
      rw [EventBus.write_locked _ rfl, happly, hpublication]
    have htold : eventBus.step ⟨⟨remotes, events ++ [.remoteUpdated "b"]⟩, ⟨sent, receivers⟩,
        some touchedB, unannounced⟩ .send
        = some ⟨⟨remotes, events ++ [.remoteUpdated "b"]⟩, ⟨sent ++ [touchedB], receivers⟩, none,
          unannounced⟩ := congrArg (fun channel => some (EventBus.mk _ channel none _)) hsend
    refine (Machine.exec_cons _).2 ⟨_, hwrite, (Machine.exec_cons _).2 ⟨_, htold, ?_⟩⟩
    have hrest := ih (b := ⟨⟨remotes, events ++ [.remoteUpdated "b"]⟩,
      ⟨sent ++ [touchedB], receivers⟩, none, unannounced⟩) hr' rfl hlisten
    refine Eq.trans hrest ?_
    simp [EventBus.touched, List.replicate_succ]

/-- An update that changes no kind of state is overtaken by an announcement. -/
theorem exec_overtaken {b : EventBus} {r : Remote} {t : Transfer} {p : Publication} {queued : Nat}
    (hr : b.manager.remotes "b" = some r) (ht : b.manager.transfer "b" "t" = some t)
    (hstate : t.state = .inProgress) (hpending : b.pending = none) (hp : b.unannounced = [p])
    (hlisten : b.channel.receivers = [some 0]) (hlen : b.channel.len eventCapacity = queued)
    (hlt : queued < 128) :
    ∃ b', eventBus.exec b
        [.write (.updateTransfer queued "b" "t" (.setState .inProgress)), .announce 0, .send]
          = some b' ∧
      (∃ r', b'.manager.remotes "b" = some r') ∧ b'.pending = none ∧
      b'.channel.receivers = [some 0] ∧
      b'.channel.sent = b.channel.sent ++
        [p, { event := .transferUpdated "b" "t", checkedAt := some b.channel.sent.length }] := by
  obtain ⟨⟨remotes, events⟩, ⟨sent, receivers⟩, pending, unannounced⟩ := b
  dsimp only at hr ht hpending hp hlisten hlen
  subst hpending hp hlisten
  obtain ⟨⟨remotes', events'⟩, happly, hevents, hr'⟩ : ∃ m : RemoteManager,
      RemoteManager.apply ⟨remotes, events⟩ (.updateTransfer queued "b" "t" (.setState .inProgress))
        = m ∧
      m.events = events ++ [.transferUpdated "b" "t"] ∧ ∃ r', m.remotes "b" = some r' := by
    refine ⟨_, rfl, ?_, ?_⟩
    · simp only [RemoteManager.apply, RemoteManager.updateTransfer, hr, ht, if_pos (Or.inl hlt)]
    · simp only [RemoteManager.apply, RemoteManager.updateTransfer, hr, ht, if_pos (Or.inl hlt)]
      exact ⟨_, Function.update_self _ _ _⟩
  obtain rfl : events' = events ++ [.transferUpdated "b" "t"] := hevents
  have hpublication : EventBus.publication ⟨⟨remotes, events⟩, ⟨sent, [some 0]⟩, none, [p]⟩
      (.updateTransfer queued "b" "t" (.setState .inProgress))
      = some { event := .transferUpdated "b" "t", checkedAt := some sent.length } := by
    rw [EventBus.publication, happly, List.drop_left]
    simp [StoreOp.keepsKind, ht, hstate]
  have hwrite : eventBus.step ⟨⟨remotes, events⟩, ⟨sent, [some 0]⟩, none, [p]⟩
      (.write (.updateTransfer queued "b" "t" (.setState .inProgress)))
      = some ⟨⟨remotes', events ++ [.transferUpdated "b" "t"]⟩, ⟨sent, [some 0]⟩,
        some { event := .transferUpdated "b" "t", checkedAt := some sent.length }, [p]⟩ := by
    show (if (queued == Broadcast.len _ eventCapacity) = true then some (EventBus.write _ _)
      else none)
      = _
    rw [if_pos (beq_iff_eq.2 hlen.symm), EventBus.write_locked _ rfl, happly, hpublication]
  refine ⟨_, (Machine.exec_cons _).2 ⟨_, hwrite, rfl⟩, hr', rfl, rfl, ?_⟩
  show sent ++ [p] ++ [_] = _
  rw [List.append_assoc]
  rfl

/-- The record of `b` has been told of, and that of `c` not. -/
def awaitingC : EventBus where
  manager :=
    (RemoteManager.empty.addRemote transferringB).addRemote { transferringB with uuid := "c" }
  channel := { sent := [{ event := .remoteAdded "b", checkedAt := none }], receivers := [some 0] }
  pending := none
  unannounced := [{ event := .remoteAdded "c", checkedAt := none }]

/-- The transfer goes on while `c` waits to be announced. -/
def overtakenRun : List EventLabel :=
  [.subscribe, .write (.addRemote transferringB), .announce 0,
    .write (.addRemote { transferringB with uuid := "c" })] ++ touches 126 ++
  [.write (.updateTransfer 127 "b" "t" (.setState .inProgress)), .announce 0, .send] ++ touches 128

theorem exec_overtakenRun : ∃ b, eventBus.exec .new overtakenRun = some b ∧
    eventCapacity < (b.channel.unread 0).length ∧
    ∃ p, (b.channel.unread 0)[128]? = some p ∧ p.isProgress = true := by
  have hfirst : eventBus.exec .new [.subscribe, .write (.addRemote transferringB), .announce 0,
      .write (.addRemote { transferringB with uuid := "c" })] = some awaitingC := rfl
  have htouched := exec_touches (b := awaitingC) (r := transferringB) rfl rfl rfl 126
  have hbefore : (awaitingC.touched 126).channel.sent.length = 127 := by
    simp [EventBus.touched, awaitingC]
  have hlen : (awaitingC.touched 126).channel.len eventCapacity = 127 := by
    simp [Broadcast.len, EventBus.touched, awaitingC, eventCapacity]
  obtain ⟨b, hrun, ⟨r, hr⟩, hpending, hlisten, hsent⟩ :=
    exec_overtaken (b := awaitingC.touched 126) (r := transferringB)
      (t := .bare "t" "b" .inProgress (.incoming [])) rfl rfl rfl rfl rfl rfl hlen (by decide)
  have hrest := exec_touches hr hpending (by rw [hlisten]; rfl) 128
  have hunread : (b.touched 128).channel.unread 0
      = b.channel.sent ++ List.replicate 128 touchedB := by
    have hcursor : (b.touched 128).channel.cursor 0 = some 0 := by
      rw [Broadcast.cursor_eq_some]
      show b.channel.receivers[0]? = _
      rw [hlisten]
      rfl
    rw [Broadcast.unread_of_cursor hcursor, List.drop_zero]
    rfl
  rw [hsent, List.append_assoc] at hunread
  refine ⟨b.touched 128, ?_, ?_,
    { event := .transferUpdated "b" "t",
      checkedAt := some (awaitingC.touched 126).channel.sent.length }, ?_, rfl⟩
  · exact (Machine.exec_append _).2 ⟨_, (Machine.exec_append _).2
      ⟨_, (Machine.exec_append _).2 ⟨_, hfirst, htouched⟩, hrun⟩, hrest⟩
  · rw [hunread, List.length_append, List.length_append, hbefore, List.length_replicate]
    decide
  · -- the announcement of `c` is at position 127
    rw [hunread, List.getElem?_append_right (by omega), hbefore]
    rfl

/-- The receiver reads one event of a backlog. -/
def slowRun (n : Nat) : List EventLabel :=
  [.subscribe, .write (.addRemote transferringB), .announce 0] ++ touches n ++ [.recv 0]

/-- Only `b` is known, and it has been told of. -/
def knowingB : EventBus where
  manager := RemoteManager.empty.addRemote transferringB
  channel := { sent := [{ event := .remoteAdded "b", checkedAt := none }], receivers := [some 0] }
  pending := none
  unannounced := []

theorem exec_slowRun {n : Nat} (hn : n < eventCapacity) (k : Nat) :
    ∃ b b', eventBus.exec .new (slowRun n) = some b ∧ eventBus.exec b (touches k) = some b' ∧
      b'.channel.unread 0 = List.replicate n touchedB ++ List.replicate k touchedB ∧
      b'.channel.sent = b.channel.sent ++ List.replicate k touchedB := by
  have hfirst : eventBus.exec .new [.subscribe, .write (.addRemote transferringB), .announce 0]
      = some knowingB := rfl
  have htouched := exec_touches (b := knowingB) (r := transferringB) rfl rfl rfl n
  have hlen : (knowingB.touched n).channel.sent.length = n + 1 := by
    simp [EventBus.touched, knowingB]
  obtain ⟨b, hrecv, hb⟩ : ∃ b, eventBus.step (knowingB.touched n) (.recv 0) = some b ∧
      b = { knowingB.touched n with
        channel := { (knowingB.touched n).channel with receivers := [some 1] } } := by
    refine ⟨_, ?_, rfl⟩
    -- the channel may be full, but the receiver has not lagged
    show (Broadcast.recv _ eventCapacity 0).map _ = _
    rw [Broadcast.recv, show Broadcast.cursor _ 0 = some 0 from rfl]
    dsimp only
    rw [if_neg (by omega)]
    rfl
  have hrest := exec_touches (b := b) (r := transferringB) (by rw [hb]; rfl) (by rw [hb]; rfl)
    (by rw [hb]; rfl) k
  refine ⟨b, b.touched k, ?_, hrest, ?_, rfl⟩
  · exact (Machine.exec_append _).2 ⟨_, (Machine.exec_append _).2 ⟨_, hfirst, htouched⟩,
      (Machine.exec_cons _).2 ⟨_, hrecv, rfl⟩⟩
  · rw [hb, Broadcast.unread_of_cursor (c := 1) rfl]
    rfl

/-! ## Section 6: A receiver that lags -/

/-- A receiver that has lagged: a progress event that it has not read was
    throttled while fewer than 128 of its unread events had been sent, and since
    that check only announcements have been sent in front of it.  There are at
    most 128 progress events, so at least 129 others. -/
theorem progress_alone_loses_nothing {ls : List EventLabel} {b : EventBus}
    (hrun : eventBus.exec .new ls = some b) (i : Nat)
    (hlagged : eventCapacity < (b.channel.unread i).length) :
    (∀ c k p, b.channel.cursor i = some c → (b.channel.unread i)[k]? = some p →
      p.isProgress = true →
      ∃ n, p.checkedAt = some n ∧ n < c + 128 ∧ n ≤ c + k ∧
        ∀ l, n ≤ l → l < c + k → ∃ q, b.channel.sent[l]? = some q ∧ q.announces) ∧
    (b.channel.unread i).countP Publication.isProgress ≤ 128 ∧
    129 ≤ (b.channel.unread i).countP fun p => !p.isProgress := by
  have hpaced := paced_run hrun
  have hchecked : ∀ c k p, b.channel.cursor i = some c → (b.channel.unread i)[k]? = some p →
      p.isProgress = true → ∃ n, p.checkedAt = some n ∧ Throttled b.channel (c + k) n ∧
        n < c + 128 := by
    intro c k p hcursor hp hprogress
    rw [Broadcast.unread_of_cursor hcursor, List.getElem?_drop] at hp
    obtain ⟨n, hn⟩ := Option.isSome_iff_exists.1 hprogress
    have hthrottled := hpaced.sent (c + k) p n hp hn
    have hwithin := hthrottled.within i c hcursor
    exact ⟨n, hn, hthrottled, by omega⟩
  have hearly : ∀ k p, (b.channel.unread i)[k]? = some p → p.isProgress = true →
      ∃ m, Early (b.channel.unread i) k m := by
    intro k p hp hprogress
    cases hcursor : b.channel.cursor i with
    | none => simp [Broadcast.unread, hcursor] at hp
    | some c =>
      obtain ⟨n, _, hthrottled, hlt⟩ := hchecked c k p hcursor hp hprogress
      rw [Broadcast.unread_of_cursor hcursor]
      refine ⟨n - c, by omega, fun l hl hk => ?_⟩
      rw [List.getElem?_drop]
      exact hthrottled.announced (c + l) (by omega) (by omega)
  have hcount := countP_isProgress_le hearly
  have hothers : (b.channel.unread i).countP (fun p => !p.isProgress)
      = (b.channel.unread i).countP fun p => ¬ p.isProgress = true := by
    congr 1
    funext p
    simp
  have htotal : (b.channel.unread i).length = (b.channel.unread i).countP Publication.isProgress
      + (b.channel.unread i).countP fun p => ¬ p.isProgress = true :=
    List.length_eq_countP_add_countP Publication.isProgress
  rw [← hothers] at htotal
  unfold eventCapacity at hlagged
  refine ⟨fun c k p hcursor hp hprogress => ?_, hcount, by omega⟩
  obtain ⟨n, hn, hthrottled, hlt⟩ := hchecked c k p hcursor hp hprogress
  exact ⟨n, hn, hlt, hthrottled.le, hthrottled.announced⟩

theorem progress_alone_overtaken : ∃ b, eventBus.exec .new overtakenRun = some b ∧
    (b.channel.unread 0).countP Publication.isProgress ≤ 128 ∧
    129 ≤ (b.channel.unread 0).countP fun p => !p.isProgress := by
  obtain ⟨b, hrun, hlagged, -⟩ := exec_overtakenRun
  exact ⟨b, hrun, (progress_alone_loses_nothing hrun 0 hlagged).2⟩

/-- An announcement puts the progress event behind 128 others, and a receiver
    lags by two events that follow a backlog. -/
theorem overtaken_progress :
    (∃ b p, eventBus.exec .new overtakenRun = some b ∧
      eventCapacity < (b.channel.unread 0).length ∧
      (b.channel.unread 0)[128]? = some p ∧ p.isProgress = true) ∧
    ∃ b b', eventBus.exec .new (slowRun 255) = some b ∧ eventBus.exec b (touches 2) = some b' ∧
      eventCapacity < (b'.channel.unread 0).length ∧
      b'.channel.sent.length = b.channel.sent.length + 2 := by
  obtain ⟨b, hrun, hlagged, p, hp, hprogress⟩ := exec_overtakenRun
  obtain ⟨b₁, b₂, hrun₁, hrun₂, hunread, hsent⟩ := exec_slowRun (n := 255) (by decide) 2
  refine ⟨⟨b, p, hrun, hlagged, hp, hprogress⟩, b₁, b₂, hrun₁, hrun₂, ?_, ?_⟩
  · rw [hunread, List.length_append, List.length_replicate, List.length_replicate]
    decide
  · rw [hsent, List.length_append, List.length_replicate]

end Warpinator
