import Warpinator.Server.LiveWorker

/-! # A Worker and its Connection

    What the state of a remote says about its worker:

    * a connected remote has a client (`usable_of_keepsClient`),
    * both copies of the state agree (`copies_agree_of_writesAlone`),
    * the loop watches over the connection (`supervised_iff_staysInCharge`).

    None of them holds of every run, since nothing keeps two `connect` calls
    apart and the loop is never started again.  Each theorem names the steps
    that break its property. -/

namespace Warpinator

/-! ## Section 1: Connected implies a client -/

namespace LiveWorker

/-- Some `set_state` is on its way that will not write `Connected`. -/
def Pending (n : LiveWorker) : Prop :=
  (∃ pc ∈ n.calls, pc.alters = true) ∨ n.loop.pc.sets = some .disconnected

instance (n : LiveWorker) : Decidable n.Pending := inferInstanceAs (Decidable (_ ∨ _))

/-- Wherever the remote is connected, a client is there or the state is about
    to change. -/
def Usable (w : Connector) (n : LiveWorker) : Prop :=
  n.stateOf w = some .connected → n.connection.client.isSome ∨ n.Pending

/-- No `connect`, no `disconnect` and no failed ping is being handled. -/
def Settled (n : LiveWorker) : Prop :=
  (∀ pc ∈ n.calls, pc.isReturned = true) ∧ n.loop.pc.handling = false

instance (n : LiveWorker) : Decidable n.Settled := inferInstanceAs (Decidable (_ ∧ _))

/-- The state that a `set_state` writes into the record with this step. -/
def stores (n : LiveWorker) : LiveLabel → Option RemoteState
  | .call i _ => n.calls[i]?.bind ConnectPc.between
  | .loop _ => n.loop.pc.between
  | _ => none

/-- The branch of a failed ping clears the client with this step. -/
def dropsClient (n : LiveWorker) : LiveLabel → Bool
  | .loop _ =>
    match n.loop.pc with
    | .clearClient => true
    | _ => false
  | _ => false

/-- Unless the state is about to change anyway, a `set_state(Connected)` finds
    a client, and the branch of a failed ping does not take the client of a
    connected remote. -/
def KeepsClient (w : Connector) (n : LiveWorker) (l : LiveLabel) : Prop :=
  (n.stores l = some .connected → n.connection.client.isSome ∨ n.Pending) ∧
    (n.dropsClient l = true → n.stateOf w ≠ some .connected ∨ n.Pending)

instance (w : Connector) (n : LiveWorker) : DecidablePred (n.KeepsClient w) := fun _ =>
  inferInstanceAs (Decidable (_ ∧ _))

variable {w : Connector} {n : LiveWorker}

theorem Settled.not_pending (h : n.Settled) : ¬ n.Pending := by
  obtain ⟨hcalls, hloop⟩ := h
  rintro (⟨pc, hpc, halters⟩ | hsets)
  · have hreturned := hcalls pc hpc
    -- a call that has returned writes nothing any more
    cases pc with
    | returned result => cases halters
    | _ => cases hreturned
  · generalize n.loop.pc = pc at hloop hsets
    cases pc with
    | lost phase => cases hloop
    | disconnect phase => cases hloop
    | _ => cases hsets

/-- A call that advances keeps what is on its way. -/
theorem pending_set {i : Nat} {pc pc' : ConnectPc} (hpc : n.calls[i]? = some pc)
    (halters : pc.alters = true → pc'.alters = true) (c' : Connection) (h : n.Pending) :
    Pending { n with connection := c', calls := n.calls.set i pc' } := by
  rcases h with ⟨pc₀, hmem, h₀⟩ | hloop
  · obtain ⟨before, after, heq, hset⟩ := Tasking.set_eq hpc pc'
    -- the witness is another call, or the one that advances
    rw [heq] at hmem
    refine .inl ?_
    dsimp only
    rw [hset]
    rcases List.mem_append.1 hmem with hmem | hmem
    · exact ⟨pc₀, List.mem_append_left _ hmem, h₀⟩
    · rcases List.mem_cons.1 hmem with rfl | hmem
      · exact ⟨pc', by simp, halters h₀⟩
      · exact ⟨pc₀, by simp [hmem], h₀⟩
  · exact .inr hloop

theorem mem_set_self {α : Type} {xs : List α} {i : Nat} {x : α} (h : xs[i]? = some x) (y : α) :
    y ∈ xs.set i y := by
  obtain ⟨before, after, _, hset⟩ := Tasking.set_eq h y
  simp [hset]

/-- One step of a call. -/
theorem usable_call {i : Nat} {ans : ConnectAnswer} {pc pc' : ConnectPc} {c' : Connection}
    (hpc : n.calls[i]? = some pc) (hmove : ConnectMove w n.connection pc c' pc')
    (hkeeps : n.KeepsClient w (.call i ans)) (h : n.Usable w) :
    Usable w { n with connection := c', calls := n.calls.set i pc' } := by
  intro hconnected
  cases hmove with
  | send state next =>
    rcases h (by simpa [stateOf] using hconnected) with hclient | hpending
    · exact .inl (by simpa using hclient)
    · refine .inr (pending_set hpc ?_ _ hpending)
      exact id
  | store state next =>
    -- only `set_state(Connected)` can make the remote connected
    by_cases hstate : state = .connected
    · subst hstate
      rcases hkeeps.1 (by simp [stores, hpc, ConnectPc.between]) with hclient | hpending
      · exact .inl hclient
      · exact .inr (pending_set hpc (by simp [ConnectPc.alters, ConnectPc.sets]) _ hpending)
    · simp [stateOf, hstate] at hconnected
  | clear state e =>
    -- the error path has taken the client, but its `set_state` is still to come
    exact .inr (.inl ⟨_, mem_set_self hpc _, by simp [ConnectPc.alters, ConnectPc.sets]⟩)
  | silent _ _ _ hsilent hsets hbetween =>
    -- the state was there before the step, and a silent step keeps the client
    have hbefore : n.stateOf w = some .connected := hsilent.stateOf.symm.trans hconnected
    rcases h hbefore with hclient | hpending
    · exact .inl (hsilent.client hclient)
    · exact .inr (pending_set hpc (by simp [ConnectPc.alters, hsets]) _ hpending)

/-- One step of the loop. -/
theorem usable_loop {ans : LoopAnswer} {spawned : List ConnectPc} {c' : Connection} {loop' : Loop}
    (hmove : LoopMove w n.connection n.loop.pc ans c' loop'.pc)
    (hkeeps : n.KeepsClient w (.loop ans)) (h : n.Usable w) :
    Usable w { n with connection := c', calls := n.calls ++ spawned, loop := loop' } := by
  intro hconnected
  have hcalls : (∃ pc ∈ n.calls, pc.alters = true) →
      Pending { n with connection := c', calls := n.calls ++ spawned, loop := loop' } :=
    fun ⟨pc, hmem, halters⟩ => .inl ⟨pc, List.mem_append_left _ hmem, halters⟩
  generalize hpc : n.loop.pc = pc at hmove
  generalize hpc' : loop'.pc = pc' at hmove
  cases hmove with
  -- a failed ping: `Disconnected` is sent, recorded, and only then the client is cleared
  | lostSend => exact .inr (.inr (by simp [hpc', LoopPc.sets]))
  | lostStore => simp [stateOf] at hconnected
  | lostClear =>
    rcases hkeeps.2 (by simp [dropsClient, hpc]) with hne | hpending
    · exact absurd hconnected hne
    · rcases hpending with hpending | hloop
      · exact .inr (hcalls hpending)
      · simp [hpc, LoopPc.sets] at hloop
  -- `disconnect` clears the client first, so its `set_state` is pending all along
  | closeClear => exact .inr (.inr (by simp [hpc', LoopPc.sets]))
  | closeSend => exact .inr (.inr (by simp [hpc', LoopPc.sets]))
  | closeStore => simp [stateOf] at hconnected
  | leave _ =>
    rcases h (by simpa [stateOf] using hconnected) with hclient | hpending | hloop
    · exact .inl hclient
    · exact .inr (hcalls hpending)
    · simp [hpc, LoopPc.sets] at hloop
  | silent _ _ _ _ hsilent hsets =>
    have hbefore : n.stateOf w = some .connected := hsilent.stateOf.symm.trans hconnected
    rcases h hbefore with hclient | hpending | hloop
    · exact .inl (hsilent.client hclient)
    · exact .inr (hcalls hpending)
    · simp [hpc, hsets] at hloop

theorem usable_step {crypto : Crypto} {l : LiveLabel} {n' : LiveWorker}
    (hkeeps : n.KeepsClient w l) (h : n.Usable w) (hstep : (w.live crypto).step n l = some n') :
    n'.Usable w := by
  cases Connector.live_move hstep with
  | start =>
    intro hconnected
    rcases h hconnected with hclient | hpending | hloop
    · exact .inl hclient
    · obtain ⟨pc, hmem, halters⟩ := hpending
      exact .inr (.inl ⟨pc, List.mem_append_left _ hmem, halters⟩)
    · exact .inr (.inr hloop)
  | call i ans pc c' pc' hpc hmove => exact usable_call hpc hmove hkeeps h
  | loop ans spawned c' loop' _ _ hmove => exact usable_loop hmove hkeeps h
  | update f => exact fun hconnected => h (by simpa [stateOf] using hconnected)
  | removed fullname =>
    intro hconnected
    -- discovery writes `Disconnected`, or it removes another remote
    simp only [stateOf, stateOf_removed] at hconnected
    split at hconnected
    · simp at hconnected
    · exact h hconnected
  | subscribe => exact h
  | unsubscribe _ => exact h
  | cancelRoot => exact h

/-- Between operations a connected remote has a client, in every run that keeps
    to `KeepsClient`. -/
theorem usable_of_keepsClient {crypto : Crypto} {manager : RemoteManager} {ls : List LiveLabel}
    (hnew : (new manager).stateOf w ≠ some .connected)
    (hkeeps : (w.live crypto).Along (KeepsClient w) (new manager) ls)
    (hrun : (w.live crypto).exec (new manager) ls = some n) (hsettled : n.Settled)
    (hconnected : n.stateOf w = some .connected) : n.connection.client.isSome := by
  have husable : n.Usable w :=
    (w.live crypto).exec_invariant_along (I := Usable w)
      (fun s l s' hC hI hstep => usable_step hC hI hstep)
      (fun h => absurd h hnew) hkeeps hrun
  exact (husable hconnected).resolve_right hsettled.not_pending

/-- A worker for the remote `b`. -/
def workerOfB : Connector where
  uuid := "b"
  serverFullname := "a"
  serverHostname := "a"
  authenticator := { groupCode := "Warpinator", certPem := [] }

def knowsB : RemoteManager := .single (.new "b" (.v4 0) 0 0 "b" "")

/-- The steps of a call up to the answer of its ping. -/
def untilPinging (i : Nat) : List LiveLabel :=
  [.call i .go, .call i .go, .call i .go, .call i (.lockedCert "aaaaaaaaaaaaaaaaaaaaaaaa"),
    .call i .go, .call i .go, .call i .dialed, .call i .go, .call i .go, .call i .go]

/-- The steps of a call up to its last `set_state`. -/
def untilAnswered (i : Nat) : List LiveLabel :=
  untilPinging i ++ [.call i .pong, .call i .go, .call i .go, .call i .go,
    .call i (.haveDuplex true)]

/-- A single call that succeeds. -/
def singleConnect : List LiveLabel :=
  .start :: untilAnswered 0 ++ [.call 0 .go, .call 0 .go, .call 0 .go, .call 0 (.failed .elapsed),
    .call 0 .go, .call 0 (.failed .elapsed)]

theorem usable_singleConnect :
    ∃ n, (workerOfB.live .plain).exec (new knowsB) singleConnect = some n ∧
      n.connection.client.isSome := by
  have hkeeps :
      (workerOfB.live .plain).Along (KeepsClient workerOfB) (new knowsB) singleConnect := by
    decide
  exact ⟨_, rfl, usable_of_keepsClient (by decide) hkeeps rfl (by decide) (by decide)⟩

/-- The second call's ping fails after the first call has been answered, so
    it takes the client that the first call is about to declare connected. -/
theorem connected_without_client :
    ∃ n, (workerOfB.live .plain).exec (new knowsB) (.start :: .start :: untilAnswered 0 ++
        untilPinging 1 ++ [.call 1 (.failed .elapsed), .call 1 .go, .call 1 .go, .call 1 .go,
          .call 1 .go, .call 0 .go, .call 0 .go, .call 0 .go, .call 0 .go]) = some n ∧
      n.Settled ∧ n.stateOf workerOfB = some .connected ∧ n.connection.client = none :=
  ⟨_, rfl, by decide, by decide, by decide⟩

/-! ## Section 2: The two copies of the state -/

/-- The states of the `set_state` calls that are between their two writes. -/
def between (n : LiveWorker) : List RemoteState :=
  n.calls.filterMap ConnectPc.between ++ n.loop.pc.between.toList

/-- A `set_state` sends the state with this step. -/
def sends (n : LiveWorker) : LiveLabel → Bool
  | .call i _ =>
    match n.calls[i]? with
    | some (.setState .send _ _) => true
    | _ => false
  | .loop _ =>
    match n.loop.pc with
    | .lost .send | .disconnect .send => true
    | _ => false
  | _ => false

/-- Discovery sets the record of this remote with this step. -/
def removes (w : Connector) : LiveLabel → Bool
  | .removed fullname => fullname == w.uuid
  | _ => false

/-- A `set_state` begins when no other one is between its writes, and finds a
    receiver; discovery removes the remote only where that changes nothing. -/
def WritesAlone (w : Connector) (n : LiveWorker) (l : LiveLabel) : Prop :=
  (n.sends l = true → n.between = [] ∧ 0 < n.connection.receivers) ∧
    (removes w l = true → n.between = [] → n.stateOf w = some .disconnected)

instance (w : Connector) (n : LiveWorker) : DecidablePred (n.WritesAlone w) := fun _ =>
  inferInstanceAs (Decidable (_ ∧ _))

/-- At most one `set_state` is between its writes, and its state is the one in
    the watch channel; without it, both copies are equal. -/
def Copies (w : Connector) (n : LiveWorker) : Prop :=
  n.between = [] ∧ n.stateOf w = some n.connection.watch ∨
    n.between = [n.connection.watch] ∧ (n.stateOf w).isSome

theorem between_set {i : Nat} {pc : ConnectPc} (hpc : n.calls[i]? = some pc) (pc' : ConnectPc)
    (c' : Connection) :
    ∃ before after, n.between = before ++ pc.between.toList ++ after ∧
      between { n with connection := c', calls := n.calls.set i pc' }
        = before ++ pc'.between.toList ++ after := by
  obtain ⟨before, after, heq, hset⟩ := Tasking.set_eq hpc pc'
  refine ⟨before.filterMap ConnectPc.between,
    after.filterMap ConnectPc.between ++ n.loop.pc.between.toList, ?_, ?_⟩
  · unfold between
    rw [heq]
    cases h : pc.between <;> simp [List.filterMap_append, h]
  · unfold between
    dsimp only
    rw [hset]
    cases h : pc'.between <;> simp [List.filterMap_append, h]

theorem between_loop {spawned : List ConnectPc} (hspawned : ∀ pc ∈ spawned, pc = .start)
    (c' : Connection) (loop' : Loop) :
    between { n with connection := c', calls := n.calls ++ spawned, loop := loop' }
      = n.calls.filterMap ConnectPc.between ++ loop'.pc.between.toList := by
  -- a spawned `connect` has not reached its first `set_state`
  have hnone : spawned.filterMap ConnectPc.between = [] := by
    rw [List.filterMap_eq_nil_iff]
    intro pc hpc
    rw [hspawned pc hpc]
    rfl
  simp [between, List.filterMap_append, hnone]

theorem eq_of_append_singleton {α : Type} {before after : List α} {x y : α}
    (h : before ++ [x] ++ after = [y]) : before = [] ∧ after = [] ∧ x = y := by
  have hlength := congrArg List.length h
  simp only [List.length_append, List.length_singleton] at hlength
  have hbefore : before = [] := List.length_eq_zero_iff.1 (by omega)
  have hafter : after = [] := List.length_eq_zero_iff.1 (by omega)
  subst hbefore hafter
  exact ⟨rfl, rfl, by simpa using h⟩

/-- A `set_state` begins where no other one is between its writes. -/
theorem copies_begin {n' : LiveWorker} (state : RemoteState)
    (hreceivers : 0 < n.connection.receivers)
    (hconnection : n'.connection = n.connection.sendState state) (hafter : n'.between = [state])
    (h : n.Copies w) : n'.Copies w := by
  have hwatch : n'.connection.watch = state := by
    rw [hconnection]
    simp [Connection.sendState, Nat.ne_of_gt hreceivers]
  have hstate : n'.stateOf w = n.stateOf w := by
    simp [stateOf, hconnection]
  refine .inr ⟨by rw [hafter, hwatch], ?_⟩
  rw [hstate]
  rcases h with ⟨_, hrec⟩ | ⟨_, hrec⟩
  · exact Option.isSome_of_eq_some hrec
  · exact hrec

/-- The `set_state` that stores its state is the only one, and the state is the
    one in the watch channel. -/
theorem copies_complete {n' : LiveWorker} {before after : List RemoteState} {state : RemoteState}
    (hbefore : n.between = before ++ [state] ++ after) (hafter : n'.between = before ++ after)
    (hwatch : n'.connection.watch = n.connection.watch)
    (hstate : n'.stateOf w = (n.stateOf w).map fun _ => state) (h : n.Copies w) : n'.Copies w := by
  rcases h with ⟨hnil, _⟩ | ⟨hone, hrec⟩
  · rw [hnil] at hbefore
    simp at hbefore
  · rw [hone] at hbefore
    obtain ⟨rfl, rfl, hsent⟩ := eq_of_append_singleton hbefore.symm
    obtain ⟨st, hst⟩ := Option.isSome_iff_exists.1 hrec
    refine .inl ⟨hafter, ?_⟩
    rw [hstate, hst, hwatch, ← hsent]
    rfl

theorem copies_congr {n' : LiveWorker} (hbetween : n'.between = n.between)
    (hwatch : n'.connection.watch = n.connection.watch) (hstate : n'.stateOf w = n.stateOf w)
    (h : n.Copies w) : n'.Copies w := by
  unfold Copies
  rw [hbetween, hwatch, hstate]
  exact h

theorem copies_call {i : Nat} {ans : ConnectAnswer} {pc pc' : ConnectPc} {c' : Connection}
    (hpc : n.calls[i]? = some pc) (hmove : ConnectMove w n.connection pc c' pc')
    (halone : n.WritesAlone w (.call i ans)) (h : n.Copies w) :
    Copies w { n with connection := c', calls := n.calls.set i pc' } := by
  obtain ⟨before, after, hbefore, hafter⟩ := between_set hpc pc' c'
  cases hmove with
  | send state next =>
    -- nothing is between its writes, so the list below is just this call's
    obtain ⟨hnil, hreceivers⟩ := halone.1 (by simp [sends, hpc])
    rw [hnil] at hbefore
    obtain ⟨hleft, rfl⟩ := List.append_eq_nil_iff.1 hbefore.symm
    obtain ⟨rfl, _⟩ := List.append_eq_nil_iff.1 hleft
    exact copies_begin state hreceivers rfl hafter h
  | store state next =>
    have hpc' : next.pc.between = none := next.between_pc
    rw [hpc', Option.toList_none, List.append_nil] at hafter
    exact copies_complete hbefore hafter rfl (stateOf_storeState _ _ _) h
  | clear state e =>
    -- the error path ends where a `set_state` begins: neither is between writes
    exact copies_congr (hafter.trans hbefore.symm) rfl rfl h
  | silent _ _ _ hsilent hsets hbetween =>
    have hpcb : pc.between = none := by
      cases pc with
      | setState phase state next => cases hsets
      | _ => rfl
    rw [hbetween, ← hpcb] at hafter
    exact copies_congr (hafter.trans hbefore.symm) hsilent.watch hsilent.stateOf h

theorem copies_loop {ans : LoopAnswer} {spawned : List ConnectPc} {c' : Connection} {loop' : Loop}
    (hspawned : ∀ pc ∈ spawned, pc = .start)
    (hmove : LoopMove w n.connection n.loop.pc ans c' loop'.pc)
    (halone : n.WritesAlone w (.loop ans)) (h : n.Copies w) :
    Copies w { n with connection := c', calls := n.calls ++ spawned, loop := loop' } := by
  have hafter := between_loop (n := n) hspawned c' loop'
  have hbefore : n.between = n.calls.filterMap ConnectPc.between ++ n.loop.pc.between.toList := rfl
  generalize hpc : n.loop.pc = pc at hmove hbefore
  generalize hpc' : loop'.pc = pc' at hmove hafter
  -- the two steps that begin a `set_state` and the two that complete it
  have hsend : sends n (.loop ans) = true → pc'.between = some .disconnected →
      c' = n.connection.sendState .disconnected →
      Copies w { n with connection := c', calls := n.calls ++ spawned, loop := loop' } := by
    intro hsends hbetween hconnection
    obtain ⟨hnil, hreceivers⟩ := halone.1 hsends
    rw [hnil] at hbefore
    obtain ⟨hcalls, _⟩ := List.append_eq_nil_iff.1 hbefore.symm
    rw [hcalls, hbetween] at hafter
    exact copies_begin .disconnected hreceivers hconnection hafter h
  have hstore : pc.between = some .disconnected → pc'.between = none →
      c'.watch = n.connection.watch →
      c'.stateOf w.uuid = (n.connection.stateOf w.uuid).map (fun _ => .disconnected) →
      Copies w { n with connection := c', calls := n.calls ++ spawned, loop := loop' } := by
    intro hbetween hbetween' hwatch hstate
    rw [hbetween, ← List.append_nil (_ ++ _)] at hbefore
    rw [hbetween'] at hafter
    exact copies_complete hbefore hafter hwatch hstate h
  have hkeep : pc.between = none → pc'.between = none → c'.watch = n.connection.watch →
      c'.stateOf w.uuid = n.connection.stateOf w.uuid →
      Copies w { n with connection := c', calls := n.calls ++ spawned, loop := loop' } := by
    intro hbetween hbetween' hwatch hstate
    rw [hbetween', ← hbetween] at hafter
    exact copies_congr (hafter.trans hbefore.symm) hwatch hstate h
  cases hmove with
  | lostSend => exact hsend (by simp [sends, hpc]) rfl rfl
  | lostStore => exact hstore rfl rfl rfl (stateOf_storeState _ _ _)
  | lostClear => exact hkeep rfl rfl rfl rfl
  | closeClear => exact hkeep rfl rfl rfl rfl
  | closeSend => exact hsend (by simp [sends, hpc]) rfl rfl
  | closeStore => exact hstore rfl rfl rfl (stateOf_storeState _ _ _)
  | leave _ => exact hkeep rfl rfl rfl rfl
  | silent _ _ _ _ hsilent hsets hbetween =>
    have hpcb : pc.between = none := by
      cases pc with
      | lost phase => cases hsets
      | disconnect phase => cases hsets
      | _ => rfl
    exact hkeep hpcb hbetween hsilent.watch hsilent.stateOf

theorem copies_step {crypto : Crypto} {l : LiveLabel} {n' : LiveWorker}
    (halone : n.WritesAlone w l) (h : n.Copies w) (hstep : (w.live crypto).step n l = some n') :
    n'.Copies w := by
  cases Connector.live_move hstep with
  | start =>
    have heq : between { n with calls := n.calls ++ [.start] } = n.between := by
      simp [between, List.filterMap_append, ConnectPc.start, ConnectPc.between]
    exact copies_congr heq rfl rfl h
  | call i ans pc c' pc' hpc hmove => exact copies_call hpc hmove halone h
  | loop ans spawned c' loop' _ hspawned hmove => exact copies_loop hspawned hmove halone h
  | update f =>
    have hstate := stateOf_infoUpdate n.connection w.uuid f
    exact copies_congr (n := n) rfl rfl hstate h
  | removed fullname =>
    have hstate := stateOf_removed n.connection fullname w.uuid
    by_cases hname : w.uuid = fullname
    · rw [if_pos hname] at hstate
      rcases h with ⟨hnil, hrec⟩ | ⟨hone, hrec⟩
      · have hdisconnected := halone.2 (by simp [removes, hname]) hnil
        refine .inl ⟨hnil, ?_⟩
        have hrec' : n.connection.stateOf w.uuid = some n.connection.watch := hrec
        have hwatch : n.connection.watch = .disconnected :=
          Option.some.inj (hrec.symm.trans hdisconnected)
        simp only [stateOf, hstate, hrec', Option.map_some]
        rw [← hwatch]
        rfl
      -- during a `set_state`: its second write is still to come
      · refine .inr ⟨hone, ?_⟩
        have hrec' : (n.connection.stateOf w.uuid).isSome := hrec
        simp [stateOf, hstate, hrec']
    · rw [if_neg hname] at hstate
      exact copies_congr (n := n) rfl rfl hstate h
  | subscribe => exact h
  | unsubscribe _ => exact h
  | cancelRoot => exact h

/-- While no `set_state` is between its two writes, the watch channel and the
    record show the same state, in every run that keeps to `WritesAlone`. -/
theorem copies_agree_of_writesAlone {crypto : Crypto} {manager : RemoteManager}
    {ls : List LiveLabel} (hnew : (new manager).stateOf w = some .disconnected)
    (halone : (w.live crypto).Along (WritesAlone w) (new manager) ls)
    (hrun : (w.live crypto).exec (new manager) ls = some n) (hbetween : n.between = []) :
    n.stateOf w = some n.connection.watch := by
  have hcopies : n.Copies w :=
    (w.live crypto).exec_invariant_along (I := Copies w)
      (fun s l s' hC hI hstep => copies_step hC hI hstep) (.inl ⟨rfl, hnew⟩) halone hrun
  rcases hcopies with ⟨_, heq⟩ | ⟨hone, _⟩
  · exact heq
  · rw [hbetween] at hone
    cases hone

theorem copies_agree_singleConnect :
    ∃ n, (workerOfB.live .plain).exec (new knowsB) singleConnect = some n ∧
      n.stateOf workerOfB = some n.connection.watch := by
  have halone :
      (workerOfB.live .plain).Along (WritesAlone workerOfB) (new knowsB) singleConnect := by
    decide
  exact ⟨_, rfl, copies_agree_of_writesAlone (by decide) halone rfl (by decide)⟩

/-- Two calls begin together; the first has sent `Connecting`, the second
    completes as offline, and the first one's record comes last. -/
theorem copies_differ :
    ∃ n, (workerOfB.live .plain).exec (new knowsB)
        [.start, .start, .call 0 .go, .call 1 .go, .call 1 .go, .call 1 .go, .call 1 .offline,
          .call 1 .go, .call 1 .go, .call 0 .go] = some n ∧
      n.between = [] ∧ n.stateOf workerOfB = some .connecting ∧
      n.connection.watch = .disconnected :=
  ⟨_, rfl, by decide, by decide, by decide⟩

/-! ## Section 3: The loop -/

/-- Unless the root token is cancelled, the loop runs in every state but the
    group code mismatch. -/
def Supervised (w : Connector) (n : LiveWorker) : Prop :=
  n.cancelled = false → ∀ state, n.stateOf w = some state → state ≠ .error .groupCodeMismatch →
    n.loop.pc ≠ .stopped

/-- The loop leaves on a group code mismatch with this step. -/
def leaves (n : LiveWorker) : LiveLabel → Bool
  | .loop _ =>
    match n.loop.pc with
    | .borrow => n.connection.watch == .error .groupCodeMismatch
    | _ => false
  | _ => false

def stopped (n : LiveWorker) : Bool :=
  match n.loop.pc with
  | .stopped => true
  | _ => false

/-- While the root token is not cancelled: the loop leaves only when the record
    shows the mismatch too, and nothing else is written to the record after
    that. -/
def StaysInCharge (w : Connector) (n : LiveWorker) (l : LiveLabel) : Prop :=
  n.cancelled = false →
    (n.leaves l = true → n.stateOf w = some (.error .groupCodeMismatch)) ∧
    (n.stopped = true → n.stores l = none ∨ n.stores l = some (.error .groupCodeMismatch)) ∧
    (n.stopped = true → removes w l = false)

instance (w : Connector) (n : LiveWorker) : DecidablePred (n.StaysInCharge w) := fun _ =>
  inferInstanceAs (Decidable (_ → _))

/-- The record exists, and only a cancelled root token leads to `disconnect`. -/
structure Guarded (w : Connector) (n : LiveWorker) : Prop where
  isSome : (n.stateOf w).isSome
  closing : n.loop.pc.closing = true → n.cancelled = true

theorem stopped_iff : n.stopped = true ↔ n.loop.pc = .stopped := by
  unfold stopped
  split
  · next h => simp [h]
  · next h => simpa using h

/-- A step that changes neither the record's state nor the loop. -/
theorem supervised_congr {n' : LiveWorker} {l : LiveLabel} (hg : n.Guarded w) (h : n.Supervised w)
    (hstate : n'.stateOf w = n.stateOf w) (hloop : n'.loop.pc = n.loop.pc)
    (hcancelled : n'.cancelled = n.cancelled) (hleaves : n.leaves l = false)
    (hstores : n.stores l = none) (hremoves : removes w l = false) :
    n'.Guarded w ∧ (n'.Supervised w ↔ n.StaysInCharge w l) := by
  refine ⟨⟨by rw [hstate]; exact hg.isSome, ?_⟩, ?_⟩
  · rw [hloop, hcancelled]
    exact hg.closing
  · have hsupervised : n'.Supervised w := by
      unfold Supervised
      rw [hstate, hloop, hcancelled]
      exact h
    refine iff_of_true hsupervised fun _ => ⟨?_, fun _ => .inl hstores, fun _ => hremoves⟩
    simp [hleaves]

/-- A step that writes the state of the record. -/
theorem supervised_write {n' : LiveWorker} {l : LiveLabel} (state : RemoteState) (hg : n.Guarded w)
    (hstate : n'.stateOf w = (n.stateOf w).map fun _ => state) (hloop : n'.loop.pc = n.loop.pc)
    (hcancelled : n'.cancelled = n.cancelled) (hleaves : n.leaves l = false)
    (hwrites : (n.stores l = none ∨ n.stores l = some (.error .groupCodeMismatch)) ∧
      removes w l = false ↔ state = .error .groupCodeMismatch) :
    n'.Guarded w ∧ (n'.Supervised w ↔ n.StaysInCharge w l) := by
  obtain ⟨st, hst⟩ := Option.isSome_iff_exists.1 hg.isSome
  rw [hst, Option.map_some] at hstate
  refine ⟨⟨by rw [hstate]; rfl, ?_⟩, ?_⟩
  · rw [hloop, hcancelled]
    exact hg.closing
  · simp only [Supervised, hstate, hloop, hcancelled, Option.some.injEq, forall_eq', StaysInCharge,
      hleaves, Bool.false_eq_true, false_implies, true_and, stopped_iff]
    constructor
    · intro h hroot
      by_cases hmismatch : state = .error .groupCodeMismatch
      · exact ⟨fun _ => (hwrites.2 hmismatch).1, fun _ => (hwrites.2 hmismatch).2⟩
      · have hrunning := h hroot hmismatch
        exact ⟨fun h => absurd h hrunning, fun h => absurd h hrunning⟩
    · intro h hroot hmismatch hstopped
      exact hmismatch (hwrites.1 ⟨(h hroot).1 hstopped, (h hroot).2 hstopped⟩)

theorem supervised_call {i : Nat} {ans : ConnectAnswer} {pc pc' : ConnectPc} {c' : Connection}
    (hpc : n.calls[i]? = some pc) (hmove : ConnectMove w n.connection pc c' pc')
    (hg : n.Guarded w) (h : n.Supervised w) :
    Guarded w { n with connection := c', calls := n.calls.set i pc' } ∧
      (Supervised w { n with connection := c', calls := n.calls.set i pc' } ↔
        n.StaysInCharge w (.call i ans)) := by
  have hstores : n.stores (.call i ans) = pc.between := by simp [stores, hpc]
  cases hmove with
  | store state next =>
    -- the second write of `set_state` is the only step of a call that reaches the record
    refine supervised_write state hg (stateOf_storeState _ _ _) rfl rfl rfl ?_
    simp [hstores, ConnectPc.between, removes]
  | send state next =>
    exact supervised_congr hg h (stateOf_sendState _ _ _) rfl rfl rfl hstores rfl
  | clear state e => exact supervised_congr hg h rfl rfl rfl rfl hstores rfl
  | silent _ _ _ hsilent hsets hbetween =>
    have hpcb : pc.between = none := by
      cases pc with
      | setState phase state next => cases hsets
      | _ => rfl
    exact supervised_congr hg h hsilent.stateOf rfl rfl rfl (hstores.trans hpcb) rfl

theorem supervised_loop {ans : LoopAnswer} {spawned : List ConnectPc} {c' : Connection}
    {loop' : Loop} (hroot : ans = .cancelled → n.cancelled = true)
    (hmove : LoopMove w n.connection n.loop.pc ans c' loop'.pc)
    (hg : n.Guarded w) :
    Guarded w { n with connection := c', calls := n.calls ++ spawned, loop := loop' } ∧
      (Supervised w { n with connection := c', calls := n.calls ++ spawned, loop := loop' } ↔
        n.StaysInCharge w (.loop ans)) := by
  have hstopped : n.stopped = true ↔ n.loop.pc = .stopped := stopped_iff
  have hclosing := hg.closing
  generalize hpc : n.loop.pc = pc at hmove hstopped hclosing
  generalize hpc' : loop'.pc = pc' at hmove
  have hstores : n.stores (.loop ans) = pc.between := by simp [stores, hpc]
  have hrec : (n.connection.stateOf w.uuid).isSome := hg.isSome
  -- a loop that goes on
  have hon : pc ≠ .stopped → pc' ≠ .stopped → n.leaves (.loop ans) = false →
      (c'.stateOf w.uuid).isSome → (pc'.closing = true → n.cancelled = true) →
      Guarded w { n with connection := c', calls := n.calls ++ spawned, loop := loop' } ∧
        (Supervised w { n with connection := c', calls := n.calls ++ spawned, loop := loop' } ↔
          n.StaysInCharge w (.loop ans)) := by
    intro hne hne' hleaves hsome hclosing'
    refine ⟨⟨hsome, by simpa [hpc'] using hclosing'⟩, iff_of_true ?_ ?_⟩
    · intro _ _ _ _
      simpa [hpc'] using hne'
    · intro _
      have hrunning : n.stopped = false := by simpa [hne] using hstopped
      simp [hleaves, hrunning]
  cases hmove with
  | lostSend =>
    exact hon (by simp) (by simp) (by simp [leaves, hpc]) (by simpa using hrec)
      (by simp [LoopPc.closing])
  | lostStore =>
    exact hon (by simp) (by simp) (by simp [leaves, hpc]) (by simpa using hrec)
      (by simp [LoopPc.closing])
  | lostClear =>
    exact hon (by simp) (by simp) (by simp [leaves, hpc]) hrec (by simp [LoopPc.closing])
  | closeClear => exact hon (by simp) (by simp) (by simp [leaves, hpc]) hrec fun _ => hclosing rfl
  | closeSend =>
    exact hon (by simp) (by simp) (by simp [leaves, hpc]) (by simpa using hrec) fun _ =>
      hclosing rfl
  | closeStore =>
    -- `disconnect` is reached from a cancelled root token only, so nothing is claimed
    have hcancelled : n.cancelled = true := hclosing rfl
    refine ⟨⟨by simpa [stateOf] using hrec, fun _ => hcancelled⟩, iff_of_true ?_ ?_⟩
    · intro hroot'
      rw [hcancelled] at hroot'
      cases hroot'
    · intro hroot'
      rw [hcancelled] at hroot'
      cases hroot'
  | leave hwatch =>
    -- the loop stops here, which is fine exactly if the record shows the mismatch too
    have hleaves : n.leaves (.loop .go) = true := by simp [leaves, hpc, hwatch]
    have hrunning : n.stopped = false := by simpa using hstopped
    refine ⟨⟨hrec, by simp [hpc', LoopPc.closing]⟩, ?_⟩
    simp only [Supervised, hpc', StaysInCharge, hleaves, hrunning, removes, stateOf,
      stateOf_unsubscribe, true_implies, ne_eq, not_true_eq_false, imp_false, not_not,
      Bool.false_eq_true, false_implies, and_true]
    obtain ⟨st, hst⟩ := Option.isSome_iff_exists.1 hrec
    simp [hst]
  | silent _ _ _ _ hsilent hsets hbetween hclose hborrow hne hne' =>
    have hleaves : n.leaves (.loop ans) = false := by
      unfold leaves
      rw [hpc]
      dsimp only
      split
      · simpa using hborrow rfl
      · rfl
    refine hon hne hne' hleaves (by rw [hsilent.stateOf]; exact hrec) fun h => ?_
    rcases hclose h with h | h
    · exact hclosing h
    · exact hroot h

theorem supervised_step {crypto : Crypto} {l : LiveLabel} {n' : LiveWorker} (hg : n.Guarded w)
    (h : n.Supervised w) (hstep : (w.live crypto).step n l = some n') :
    n'.Guarded w ∧ (n'.Supervised w ↔ n.StaysInCharge w l) := by
  cases Connector.live_move hstep with
  | start => exact supervised_congr hg h rfl rfl rfl rfl rfl rfl
  | call i ans pc c' pc' hpc hmove => exact supervised_call hpc hmove hg h
  | loop ans spawned c' loop' hroot _ hmove => exact supervised_loop hroot hmove hg
  | update f => exact supervised_congr hg h (stateOf_infoUpdate _ _ _) rfl rfl rfl rfl rfl
  | removed fullname =>
    have hstate := stateOf_removed n.connection fullname w.uuid
    by_cases hname : w.uuid = fullname
    · rw [if_pos hname] at hstate
      refine supervised_write .disconnected hg hstate rfl rfl rfl ?_
      simp [removes, hname]
    · rw [if_neg hname] at hstate
      refine supervised_congr hg h hstate rfl rfl rfl rfl ?_
      simpa [removes] using fun heq => hname heq.symm
  | subscribe => exact supervised_congr hg h rfl rfl rfl rfl rfl rfl
  | unsubscribe _ => exact supervised_congr hg h rfl rfl rfl rfl rfl rfl
  | cancelRoot =>
    -- from here on `Supervised` asks for nothing
    refine ⟨⟨hg.isSome, fun _ => rfl⟩, iff_of_true (fun hroot => by cases hroot) fun _ => ?_⟩
    simp [leaves, stores, removes]

/-- The loop runs in every state that a run goes through, as long as the root
    token is not cancelled and the record shows no group code mismatch, exactly
    if the steps of the run satisfy `StaysInCharge`. -/
theorem supervised_iff_staysInCharge {crypto : Crypto} {manager : RemoteManager}
    {ls : List LiveLabel} (hnew : (new manager).stateOf w = some .disconnected)
    (hrun : (w.live crypto).exec (new manager) ls = some n) :
    (w.live crypto).Always (Supervised w) (new manager) ls ↔
      (w.live crypto).Along (StaysInCharge w) (new manager) ls := by
  refine (w.live crypto).always_iff_along (I := Guarded w)
    (fun s l s' hg h hstep => supervised_step hg h hstep) ⟨?_, ?_⟩ ?_ hrun
  · rw [hnew]; rfl
  · simp [new, LoopPc.closing]
  · intro _ _ _ _
    simp [new]

theorem supervised_singleConnect :
    ∃ n, (workerOfB.live .plain).exec (new knowsB) singleConnect = some n ∧
      ((workerOfB.live .plain).Always (Supervised workerOfB) (new knowsB) singleConnect ↔
        (workerOfB.live .plain).Along (StaysInCharge workerOfB) (new knowsB) singleConnect) :=
  ⟨_, rfl, supervised_iff_staysInCharge (by decide) rfl⟩

/-- A box that the group code does not open. -/
def Crypto.closed : Crypto := { Crypto.plain with decrypt := fun _ _ _ => none }

/-- A group code mismatch ends the loop; a later call goes on without it. -/
theorem connecting_unsupervised :
    ∃ n, (workerOfB.live Crypto.closed).exec (new knowsB)
        [.start, .call 0 .go, .call 0 .go, .call 0 .go,
          .call 0 (.lockedCert "aaaaaaaaaaaaaaaaaaaaaaaa"), .call 0 .go, .call 0 .go, .loop .go,
          .start, .call 1 .go, .call 1 .go] = some n ∧
      n.cancelled = false ∧ n.stateOf workerOfB = some .connecting ∧ n.stopped = true :=
  ⟨_, rfl, rfl, by decide, rfl⟩

end LiveWorker

end Warpinator
