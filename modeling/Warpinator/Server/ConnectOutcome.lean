import Warpinator.Lib.History
import Warpinator.Lib.Pool
import Warpinator.Server.Supervision

/-! # The Outcome of a Connect

    One call of `connect` without interference.  It is meant to end connected
    over the channel that it has built, or closed and without a channel.

    A call that fails before it has stored a channel of its own does not look
    at the one that is there.  `connect_outcome_iff` says that these calls, made
    while a client or a channel is left over, are the only ones that end in any
    other way. -/

namespace Warpinator

/-! ## Section 1: What is meant -/

/-- The states that a failed call may leave. -/
def RemoteState.isClosed : RemoteState → Bool
  | .error _ | .disconnected => true
  | _ => false

theorem ReceiveCertError.isClosed_state (e : ReceiveCertError) : e.state.isClosed = true := by
  cases e <;> rfl

namespace Connector

/-- The channel comes into being in this step. -/
def dials (channel : Channel) : Machine.Event (Connection × ConnectPc) ConnectAnswer :=
  fun st ans _ => st.2 = .dial channel ∧ ans = .dialed

/-- The call has built the channel. -/
def Built (crypto : Crypto) (w : Connector) (c : Connection) (ls : List ConnectAnswer)
    (channel : Channel) : Prop :=
  (solo (w.connect crypto)).Passes [dials channel] (c, .start) ls

/-- A call that began in `c` ends in `c'` as it is meant to. -/
def Outcome (crypto : Crypto) (w : Connector) (c : Connection) (ls : List ConnectAnswer)
    (c' : Connection) : Except ConnectRemoteError Unit → Prop
  | .ok _ => c'.stateOf w.uuid = some .connected ∧
      ∃ channel, w.Built crypto c ls channel ∧ c'.client = some channel ∧ c'.channel = some channel
  | .error _ => (∀ state, c'.stateOf w.uuid = some state → state.isClosed = true) ∧
      c'.client = none ∧ c'.channel = none

/-! ## Section 2: The stages of a call -/

/-- No channel has been built, and what was stored before still is. -/
structure Untouched (c : Connection) (ls : List ConnectAnswer) (c' : Connection) : Prop where
  client : c'.client = c.client
  channel : c'.channel = c.channel
  undialed : .dialed ∉ ls

/-- A failed call has cleared the channel that it has built, and no other. -/
def Cleared (c : Connection) (ls : List ConnectAnswer) (c' : Connection) : Prop :=
  Untouched c ls c' ∨ .dialed ∈ ls ∧ c'.client = none ∧ c'.channel = none

/-- The channel of this call is stored, in a worker whose remote has a record. -/
structure Holds (crypto : Crypto) (w : Connector) (c : Connection) (ls : List ConnectAnswer)
    (c' : Connection) (channel : Channel) : Prop where
  built : w.Built crypto c ls channel
  record : (c'.stateOf w.uuid).isSome
  client : c'.client = some channel
  channel : c'.channel = some channel

/-- What is known at each point of a call that began in `c`. -/
def ConnectStage (crypto : Crypto) (w : Connector) (c : Connection) (ls : List ConnectAnswer)
    (c' : Connection) : ConnectPc → Prop
  | .setState _ _ .certificate => Untouched c ls c'
  | .setState _ state (.fail _) => state.isClosed = true ∧ Cleared c ls c'
  | .setState _ _ .duplex => ∃ channel, w.Holds crypto c ls c' channel
  | .setState _ state .fetch => state = .connected ∧ ∃ channel, w.Holds crypto c ls c' channel
  | .certificate | .requestCertificate _ _ | .storeCertificate _ | .buildChannel _ =>
    Untouched c ls c'
  | .dial _ => Untouched c ls c' ∧ (c'.stateOf w.uuid).isSome
  | .setChannel channel => w.Built crypto c ls channel ∧ (c'.stateOf w.uuid).isSome
  | .setClient channel =>
    w.Built crypto c ls channel ∧ (c'.stateOf w.uuid).isSome ∧ c'.channel = some channel
  | .ping | .pinging _ | .waitForDuplex | .waiting _ => ∃ channel, w.Holds crypto c ls c' channel
  | .clearChannel _ _ => .dialed ∈ ls
  | .clearClient _ _ => .dialed ∈ ls ∧ c'.channel = none
  | .fetchMachineInfo | .fetchingMachineInfo _ | .storeMachineInfo _
  | .fetchAvatar | .fetchingAvatar _ | .storeAvatar _ | .returned (.ok _) =>
    c'.stateOf w.uuid = some .connected ∧ ∃ channel, w.Holds crypto c ls c' channel
  | .returned (.error _) =>
    (∀ state, c'.stateOf w.uuid = some state → state.isClosed = true) ∧ Cleared c ls c'

section steps

variable {crypto : Crypto} {w : Connector} {c c₁ c₂ : Connection} {ls : List ConnectAnswer}
  {ans : ConnectAnswer} {channel : Channel} {pc pc' : ConnectPc}

@[simp] theorem channel_sendState (c : Connection) (state : RemoteState) :
    (c.sendState state).channel = c.channel := by
  unfold Connection.sendState
  split <;> rfl

theorem Built.dialed_mem (h : w.Built crypto c ls channel) : .dialed ∈ ls := by
  obtain ⟨pre, ans, post, t, u, rfl, _, _, ⟨_, rfl⟩, _⟩ := h
  simp

theorem Untouched.snoc (h : Untouched c ls c₁) (hans : ans ≠ .dialed)
    (hclient : c₂.client = c₁.client) (hchannel : c₂.channel = c₁.channel) :
    Untouched c (ls ++ [ans]) c₂ where
  client := hclient.trans h.client
  channel := hchannel.trans h.channel
  undialed := by
    intro hmem
    rcases List.mem_append.1 hmem with hmem | hmem
    · exact h.undialed hmem
    · exact hans (List.mem_singleton.1 hmem).symm

theorem Cleared.snoc (h : Cleared c ls c₁) (hans : ans ≠ .dialed)
    (hclient : c₂.client = c₁.client) (hchannel : c₂.channel = c₁.channel) :
    Cleared c (ls ++ [ans]) c₂ := by
  rcases h with h | ⟨hmem, hnone, hnone'⟩
  · exact .inl (h.snoc hans hclient hchannel)
  · exact .inr ⟨by simp [hmem], hclient.trans hnone, hchannel.trans hnone'⟩

theorem Holds.snoc (h : w.Holds crypto c ls c₁ channel) (ans : ConnectAnswer)
    (hrecord : (c₂.stateOf w.uuid).isSome = (c₁.stateOf w.uuid).isSome)
    (hclient : c₂.client = c₁.client) (hchannel : c₂.channel = c₁.channel) :
    w.Holds crypto c (ls ++ [ans]) c₂ channel where
  built := Machine.Passes.append h.built [ans]
  record := by rw [hrecord]; exact h.record
  client := hclient.trans h.client
  channel := hchannel.trans h.channel

theorem Untouched.rejected (h : Untouched c ls c₁) (hans : ans ≠ .dialed) (e : ReceiveCertError) :
    w.ConnectStage crypto c (ls ++ [ans]) c₁ (.rejected e) :=
  ⟨e.isClosed_state, .inl (h.snoc hans rfl rfl)⟩

theorem Untouched.unreachable (h : Untouched c ls c₁) (hans : ans ≠ .dialed)
    (e : RemoteWorkerError) : w.ConnectStage crypto c (ls ++ [ans]) c₁ (.unreachable e) :=
  ⟨rfl, .inl (h.snoc hans rfl rfl)⟩

/-- The sending half of `set_state` leaves what is known, -/
theorem stage_sendState {state : RemoteState} {next : ConnectNext}
    (hstage : w.ConnectStage crypto c ls c₁ (.setState .send state next)) :
    w.ConnectStage crypto c (ls ++ [.go]) (c₁.sendState state) (.setState .store state next) := by
  cases next with
  | certificate => exact Untouched.snoc hstage (by simp) (by simp) (by simp)
  | fail e => exact ⟨hstage.1, hstage.2.snoc (by simp) (by simp) (by simp)⟩
  | duplex =>
    obtain ⟨channel, hholds⟩ := hstage
    exact ⟨channel, hholds.snoc .go (by simp) (by simp) (by simp)⟩
  | fetch =>
    obtain ⟨rfl, channel, hholds⟩ := hstage
    exact ⟨rfl, channel, hholds.snoc .go (by simp) (by simp) (by simp)⟩

/-- and the storing half writes the state of the record. -/
theorem stage_storeState {state : RemoteState} {next : ConnectNext}
    (hstage : w.ConnectStage crypto c ls c₁ (.setState .store state next)) :
    w.ConnectStage crypto c (ls ++ [.go]) (c₁.storeState w.uuid state) next.pc := by
  cases next with
  | certificate => exact Untouched.snoc hstage (by simp) rfl rfl
  | fail e =>
    obtain ⟨hclosed, hcleared⟩ := hstage
    refine ⟨fun state' hstate' => ?_, hcleared.snoc (by simp) rfl rfl⟩
    rw [stateOf_storeState] at hstate'
    obtain ⟨_, _, rfl⟩ := Option.map_eq_some_iff.1 hstate'
    exact hclosed
  | duplex =>
    obtain ⟨channel, hholds⟩ := hstage
    exact ⟨channel, hholds.snoc .go (by simp) rfl rfl⟩
  | fetch =>
    -- the last write of the state
    obtain ⟨rfl, channel, hholds⟩ := hstage
    refine ⟨?_, channel, hholds.snoc .go (by simp) rfl rfl⟩
    rw [stateOf_storeState]
    obtain ⟨state, hstate⟩ := Option.isSome_iff_exists.1 hholds.record
    rw [hstate]
    rfl

theorem stage_setState {phase : SetStatePc} {state : RemoteState} {next : ConnectNext}
    (hstage : w.ConnectStage crypto c ls c₁ (.setState phase state next))
    (h : w.connect crypto c₁ (.setState phase state next) ans = some (c₂, pc')) :
    w.ConnectStage crypto c (ls ++ [ans]) c₂ pc' := by
  cases phase with
  | send =>
    cases ans <;> cases h
    exact stage_sendState hstage
  | store =>
    cases ans <;> cases h
    exact stage_storeState hstage

/-! `receive_certificate` and the first half of `build_channel`: nothing of a
    channel is stored. -/

theorem stage_certificate (hstage : Untouched c ls c₁)
    (h : w.connect crypto c₁ .certificate ans = some (c₂, pc')) :
    w.ConnectStage crypto c (ls ++ [ans]) c₂ pc' := by
  cases ans with
  | go =>
    unfold connect at h
    dsimp only at h
    split at h
    · cases h; exact hstage.rejected (by simp) _
    · cases h; exact Untouched.snoc hstage (by simp) rfl rfl
  | _ => cases h

theorem stage_requestCertificate {ip : IpAddr} {authPort : BitVec 16} (hstage : Untouched c ls c₁)
    (h : w.connect crypto c₁ (.requestCertificate ip authPort) ans = some (c₂, pc')) :
    w.ConnectStage crypto c (ls ++ [ans]) c₂ pc' := by
  cases ans with
  | offline => cases h; exact hstage.rejected (by simp) _
  | refused status => cases h; exact hstage.rejected (by simp) _
  | lockedCert text =>
    unfold connect at h
    dsimp only at h
    split at h
    · cases h; exact hstage.rejected (by simp) _
    · cases h; exact Untouched.snoc hstage (by simp) rfl rfl
  | _ => cases h

theorem stage_storeCertificate {certPem : List UInt8} (hstage : Untouched c ls c₁)
    (h : w.connect crypto c₁ (.storeCertificate certPem) ans = some (c₂, pc')) :
    w.ConnectStage crypto c (ls ++ [ans]) c₂ pc' := by
  cases ans with
  | go =>
    unfold connect at h
    dsimp only at h
    split at h
    · cases h; exact hstage.rejected (by simp) _
    · cases h; exact Untouched.snoc hstage (by simp) rfl rfl
  | _ => cases h

theorem stage_buildChannel {certPem : List UInt8} (hstage : Untouched c ls c₁)
    (h : w.connect crypto c₁ (.buildChannel certPem) ans = some (c₂, pc')) :
    w.ConnectStage crypto c (ls ++ [ans]) c₂ pc' := by
  cases ans with
  | go =>
    unfold connect at h
    dsimp only at h
    split at h
    · cases h; exact hstage.unreachable (by simp) _
    · next remote hremote =>
      cases h
      refine ⟨Untouched.snoc hstage (by simp) rfl rfl, ?_⟩
      simp [Connection.stateOf, hremote]
  | _ => cases h

/-- The channel of this call comes into being. -/
theorem stage_dial (hrun : (solo (w.connect crypto)).exec (c, .start) ls = some (c₁, .dial channel))
    (hstage : w.ConnectStage crypto c ls c₁ (.dial channel))
    (h : w.connect crypto c₁ (.dial channel) ans = some (c₂, pc')) :
    w.ConnectStage crypto c (ls ++ [ans]) c₂ pc' := by
  cases ans with
  | dialed =>
    have hdials : (solo (w.connect crypto)).step (c₁, .dial channel) .dialed = some (c₂, pc') := h
    cases h
    have hnone : (solo (w.connect crypto)).Passes [] (c, .start) ls := trivial
    have hbuilt : w.Built crypto c (ls ++ [.dialed]) channel := hnone.snoc hrun hdials ⟨rfl, rfl⟩
    exact ⟨hbuilt, hstage.2⟩
  | undialed => cases h; exact hstage.1.unreachable (by simp) _
  | _ => cases h

theorem stage_setChannel (hstage : w.ConnectStage crypto c ls c₁ (.setChannel channel))
    (h : w.connect crypto c₁ (.setChannel channel) ans = some (c₂, pc')) :
    w.ConnectStage crypto c (ls ++ [ans]) c₂ pc' := by
  cases ans with
  | go =>
    cases h
    obtain ⟨hbuilt, hrecord⟩ := hstage
    exact ⟨Machine.Passes.append hbuilt [.go], hrecord, rfl⟩
  | _ => cases h

theorem stage_setClient (hstage : w.ConnectStage crypto c ls c₁ (.setClient channel))
    (h : w.connect crypto c₁ (.setClient channel) ans = some (c₂, pc')) :
    w.ConnectStage crypto c (ls ++ [ans]) c₂ pc' := by
  cases ans with
  | go =>
    unfold connect at h
    dsimp only at h
    split at h
    · cases h
      obtain ⟨hbuilt, hrecord, hchannel⟩ := hstage
      exact ⟨_, Machine.Passes.append hbuilt [.go], hrecord, rfl, hchannel⟩
    · cases h
  | _ => cases h

/-! The ping and `wait_for_duplex`: nothing has cleared the client since. -/

theorem stage_ping (hholds : w.Holds crypto c ls c₁ channel)
    (h : w.connect crypto c₁ .ping ans = some (c₂, pc')) :
    w.ConnectStage crypto c (ls ++ [ans]) c₂ pc' := by
  cases ans with
  | go =>
    unfold connect at h
    simp only [hholds.client] at h
    cases h
    exact ⟨channel, hholds.snoc .go rfl rfl rfl⟩
  | _ => cases h

theorem stage_pinging {client : Channel} (hholds : w.Holds crypto c ls c₁ channel)
    (h : w.connect crypto c₁ (.pinging client) ans = some (c₂, pc')) :
    w.ConnectStage crypto c (ls ++ [ans]) c₂ pc' := by
  cases ans with
  | pong => cases h; exact ⟨channel, hholds.snoc .pong rfl rfl rfl⟩
  | failed e => cases h; exact List.mem_append_left _ hholds.built.dialed_mem
  | _ => cases h

theorem stage_waitForDuplex (hholds : w.Holds crypto c ls c₁ channel)
    (h : w.connect crypto c₁ .waitForDuplex ans = some (c₂, pc')) :
    w.ConnectStage crypto c (ls ++ [ans]) c₂ pc' := by
  cases ans with
  | go =>
    unfold connect at h
    simp only [hholds.client] at h
    cases h
    exact ⟨channel, hholds.snoc .go rfl rfl rfl⟩
  | _ => cases h

theorem stage_waiting {client : Channel} (hholds : w.Holds crypto c ls c₁ channel)
    (h : w.connect crypto c₁ (.waiting client) ans = some (c₂, pc')) :
    w.ConnectStage crypto c (ls ++ [ans]) c₂ pc' := by
  cases ans with
  | haveDuplex response =>
    cases response with
    | true => cases h; exact ⟨rfl, channel, hholds.snoc _ rfl rfl rfl⟩
    | false => cases h; exact List.mem_append_left _ hholds.built.dialed_mem
  | failed e => cases h; exact List.mem_append_left _ hholds.built.dialed_mem
  | _ => cases h

/-- A failed call clears the channel, and then the client. -/
theorem stage_clearChannel {state : RemoteConnectionError} {e : ConnectRemoteError}
    (hstage : .dialed ∈ ls)
    (h : w.connect crypto c₁ (.clearChannel state e) ans = some (c₂, pc')) :
    w.ConnectStage crypto c (ls ++ [ans]) c₂ pc' := by
  cases ans with
  | go => cases h; exact ⟨List.mem_append_left _ hstage, rfl⟩
  | _ => cases h

theorem stage_clearClient {state : RemoteConnectionError} {e : ConnectRemoteError}
    (hstage : w.ConnectStage crypto c ls c₁ (.clearClient state e))
    (h : w.connect crypto c₁ (.clearClient state e) ans = some (c₂, pc')) :
    w.ConnectStage crypto c (ls ++ [ans]) c₂ pc' := by
  cases ans with
  | go =>
    unfold connect at h
    dsimp only at h
    split at h
    · cases h
      exact ⟨rfl, .inr ⟨List.mem_append_left _ hstage.1, rfl, hstage.2⟩⟩
    · cases h
  | _ => cases h

/-! What is fetched from here on does not decide anything any more. -/

/-- The call is connected, with its channel. -/
def Fetching (crypto : Crypto) (w : Connector) (c : Connection) (ls : List ConnectAnswer)
    (c' : Connection) : Prop :=
  c'.stateOf w.uuid = some .connected ∧ ∃ channel, w.Holds crypto c ls c' channel

theorem Fetching.snoc (h : w.Fetching crypto c ls c₁) (ans : ConnectAnswer)
    (hstate : c₂.stateOf w.uuid = c₁.stateOf w.uuid)
    (hclient : c₂.client = c₁.client) (hchannel : c₂.channel = c₁.channel) :
    w.Fetching crypto c (ls ++ [ans]) c₂ := by
  obtain ⟨hconnected, channel, hholds⟩ := h
  exact ⟨hstate.trans hconnected, channel,
    hholds.snoc ans (congrArg Option.isSome hstate) hclient hchannel⟩

theorem stage_fetchMachineInfo (hstage : w.Fetching crypto c ls c₁)
    (h : w.connect crypto c₁ .fetchMachineInfo ans = some (c₂, pc')) :
    w.ConnectStage crypto c (ls ++ [ans]) c₂ pc' := by
  cases ans with
  | go =>
    have ⟨_, _, hholds⟩ := hstage
    unfold connect at h
    simp only [hholds.client] at h
    cases h
    exact hstage.snoc .go rfl rfl rfl
  | _ => cases h

theorem stage_fetchingMachineInfo {client : Channel} (hstage : w.Fetching crypto c ls c₁)
    (h : w.connect crypto c₁ (.fetchingMachineInfo client) ans = some (c₂, pc')) :
    w.ConnectStage crypto c (ls ++ [ans]) c₂ pc' := by
  cases ans with
  | machineInfo info => cases h; exact hstage.snoc _ rfl rfl rfl
  | failed e => cases h; exact hstage.snoc _ rfl rfl rfl
  | _ => cases h

theorem stage_storeMachineInfo {info : RemoteMachineInfo} (hstage : w.Fetching crypto c ls c₁)
    (h : w.connect crypto c₁ (.storeMachineInfo info) ans = some (c₂, pc')) :
    w.ConnectStage crypto c (ls ++ [ans]) c₂ pc' := by
  cases ans with
  | go =>
    cases h
    have hkeep := stateOf_updateRemote_of_keeps c₁ w.uuid
      (f := fun r => { r with
        displayName := info.displayName
        username := info.userName
        features := info.featureFlags &&& knownFeatures }) fun _ => rfl
    exact hstage.snoc .go hkeep rfl rfl
  | _ => cases h

theorem stage_fetchAvatar (hstage : w.Fetching crypto c ls c₁)
    (h : w.connect crypto c₁ .fetchAvatar ans = some (c₂, pc')) :
    w.ConnectStage crypto c (ls ++ [ans]) c₂ pc' := by
  cases ans with
  | go =>
    have ⟨_, _, hholds⟩ := hstage
    unfold connect at h
    simp only [hholds.client] at h
    cases h
    exact hstage.snoc .go rfl rfl rfl
  | _ => cases h

theorem stage_fetchingAvatar {client : Channel} (hstage : w.Fetching crypto c ls c₁)
    (h : w.connect crypto c₁ (.fetchingAvatar client) ans = some (c₂, pc')) :
    w.ConnectStage crypto c (ls ++ [ans]) c₂ pc' := by
  cases ans with
  | avatar bytes => cases h; exact hstage.snoc _ rfl rfl rfl
  | failed e => cases h; exact hstage.snoc _ rfl rfl rfl
  | _ => cases h

theorem stage_storeAvatar {bytes : List UInt8} (hstage : w.Fetching crypto c ls c₁)
    (h : w.connect crypto c₁ (.storeAvatar bytes) ans = some (c₂, pc')) :
    w.ConnectStage crypto c (ls ++ [ans]) c₂ pc' := by
  cases ans with
  | go =>
    cases h
    have hkeep := stateOf_updateRemote_of_keeps c₁ w.uuid
      (f := fun r => { r with
        picture := if bytes.isEmpty then none else some bytes
        pictureVersion := r.pictureVersion + 1 }) fun _ => rfl
    exact hstage.snoc .go hkeep rfl rfl
  | _ => cases h

theorem step_connectStage (hrun : (solo (w.connect crypto)).exec (c, .start) ls = some (c₁, pc))
    (hstage : w.ConnectStage crypto c ls c₁ pc)
    (h : w.connect crypto c₁ pc ans = some (c₂, pc')) :
    w.ConnectStage crypto c (ls ++ [ans]) c₂ pc' := by
  cases pc with
  | setState phase state next => exact stage_setState hstage h
  | certificate => exact stage_certificate hstage h
  | requestCertificate ip authPort => exact stage_requestCertificate hstage h
  | storeCertificate certPem => exact stage_storeCertificate hstage h
  | buildChannel certPem => exact stage_buildChannel hstage h
  | dial channel => exact stage_dial hrun hstage h
  | setChannel channel => exact stage_setChannel hstage h
  | setClient channel => exact stage_setClient hstage h
  | ping => exact hstage.elim fun _ hholds => stage_ping hholds h
  | pinging client => exact hstage.elim fun _ hholds => stage_pinging hholds h
  | clearChannel state e => exact stage_clearChannel hstage h
  | clearClient state e => exact stage_clearClient hstage h
  | waitForDuplex => exact hstage.elim fun _ hholds => stage_waitForDuplex hholds h
  | waiting client => exact hstage.elim fun _ hholds => stage_waiting hholds h
  | fetchMachineInfo => exact stage_fetchMachineInfo hstage h
  | fetchingMachineInfo client => exact stage_fetchingMachineInfo hstage h
  | storeMachineInfo info => exact stage_storeMachineInfo hstage h
  | fetchAvatar => exact stage_fetchAvatar hstage h
  | fetchingAvatar client => exact stage_fetchingAvatar hstage h
  | storeAvatar bytes => exact stage_storeAvatar hstage h
  | returned result => cases ans <;> cases h

end steps

/-! ## Section 3: The outcome -/

section runs

variable {crypto : Crypto} {w : Connector} {c c' : Connection} {ls : List ConnectAnswer}
  {result : Except ConnectRemoteError Unit}

/-- No record comes or goes. -/
theorem isSome_stateOf_connect {pc pc' : ConnectPc} {ans : ConnectAnswer}
    (h : w.connect crypto c pc ans = some (c', pc')) :
    (c'.stateOf w.uuid).isSome = (c.stateOf w.uuid).isSome := by
  cases connect_move h with
  | send state nxt => rw [stateOf_sendState]
  | store state nxt => rw [stateOf_storeState, Option.isSome_map]
  | clear state e => rfl
  | silent pc c' pc' hsilent _ _ => rw [hsilent.stateOf]

/-- A call on its own keeps the record, and it ends as it is meant to exactly if
    it found the worker without a channel or has built one. -/
theorem connect_outcome_iff
    (hrun : (solo (w.connect crypto)).exec (c, .start) ls = some (c', .returned result)) :
    (c'.stateOf w.uuid).isSome = (c.stateOf w.uuid).isSome ∧
    (w.Outcome crypto c ls c' result ↔ (c.client = none ∧ c.channel = none) ∨ .dialed ∈ ls) := by
  have hrecord := Machine.exec_invariant (solo (w.connect crypto))
    (I := fun st => (st.1.stateOf w.uuid).isSome = (c.stateOf w.uuid).isSome)
    (fun st ans st' hst hstep => (isSome_stateOf_connect hstep).trans hst) rfl hrun
  have h₀ : w.ConnectStage crypto c [] c .start := ⟨rfl, rfl, List.not_mem_nil⟩
  have hstage := Machine.exec_history (m := solo (w.connect crypto))
    (H := fun ls st => w.ConnectStage crypto c ls st.1 st.2) h₀
    (fun ls st ans st' hrun hstage hstep => step_connectStage hrun hstage hstep) hrun
  refine ⟨hrecord, ?_⟩
  cases result with
  | ok _ =>
    obtain ⟨hstate, channel, hholds⟩ := hstage
    exact iff_of_true ⟨hstate, channel, hholds.built, hholds.client, hholds.channel⟩
      (.inr hholds.built.dialed_mem)
  | error e =>
    obtain ⟨hclosed, huntouched | ⟨hdialed, hclient, hchannel⟩⟩ := hstage
    · -- the call has failed before it stored anything
      rw [or_iff_left huntouched.undialed]
      show _ ∧ c'.client = none ∧ c'.channel = none ↔ _
      rw [huntouched.client, huntouched.channel]
      exact and_iff_right hclosed
    · exact iff_of_true ⟨hclosed, hclient, hchannel⟩ (.inr hdialed)

end runs

open LiveWorker (workerOfB knowsB)

/-- What a call is told until its ping is on its way. -/
def untilPinging : List ConnectAnswer :=
  [.go, .go, .go, .lockedCert "aaaaaaaaaaaaaaaaaaaaaaaa", .go, .go, .dialed, .go, .go, .go]

/-- A first call, whose ping fails. -/
theorem connect_outcome_unanswered :
    ∃ c' e, (solo (workerOfB.connect .plain)).exec (.new knowsB, .start)
        (untilPinging ++ [.failed .elapsed, .go, .go, .go, .go]) = some (c', .returned (.error e)) ∧
      c'.client = none ∧ c'.channel = none := by
  have hexec : ∃ c' e, (solo (workerOfB.connect .plain)).exec (.new knowsB, .start)
      (untilPinging ++ [.failed .elapsed, .go, .go, .go, .go]) = some (c', .returned (.error e)) :=
    ⟨_, _, rfl⟩
  obtain ⟨c', e, hrun⟩ := hexec
  obtain ⟨_, hiff⟩ := connect_outcome_iff hrun
  exact ⟨c', e, hrun, (hiff.2 (.inl ⟨rfl, rfl⟩)).2⟩

/-- A call that succeeds, and another one when the remote has gone offline: it
    ends disconnected, with the client of the first call. -/
theorem failed_connect_leaves_client :
    ∃ c c' e, (solo (workerOfB.connect .plain)).exec (.new knowsB, .start)
        (untilPinging ++ [.pong, .go, .go, .go, .haveDuplex true, .go, .go, .go, .failed .elapsed,
          .go, .failed .elapsed]) = some (c, .returned (.ok ())) ∧
      (solo (workerOfB.connect .plain)).exec (c, .start) [.go, .go, .go, .offline, .go, .go]
        = some (c', .returned (.error e)) ∧
      c'.stateOf "b" = some .disconnected ∧ c'.client.isSome ∧ c'.channel.isSome :=
  ⟨_, _, _, rfl, rfl, by decide, by decide, by decide⟩

end Connector

end Warpinator
