import Warpinator.Grpc.WaitingForDuplex
import Warpinator.Lib.History
import Warpinator.Server.LiveWorker

/-! # The Duplex Handshake

    Two hosts that know each other under their full names.  Each has a worker
    for the other, any number of `connect` calls on it, and a handler for every
    `WaitingForDuplex` request that has arrived.

    `handshake_of_connected`: a call that writes `Connected` has opened the
    other's certificate, pinged it, written `AwaitingDuplex` and asked, and the
    other's record was in a state with a connection after that. -/

namespace Warpinator

/-! ## Section 1: Two hosts -/

inductive Party where
  | a
  | b
  deriving DecidableEq

def Party.peer : Party → Party
  | .a => .b
  | .b => .a

@[simp] theorem peer_peer (x : Party) : x.peer.peer = x := by
  cases x <;> rfl

theorem peer_ne (x : Party) : x.peer ≠ x := by
  cases x <;> decide

theorem eq_peer_of_ne {x y : Party} (h : x ≠ y) : x = y.peer := by
  cases x with
  | a =>
    cases y with
    | a => exact absurd rfl h
    | b => rfl
  | b =>
    cases y with
    | a => rfl
    | b => exact absurd rfl h

structure DuplexNode where
  worker : LiveWorker
  /-- The calls whose request is on its way. -/
  outbox : List Nat
  /-- The handlers, each with the call that it answers. -/
  handlers : List (Nat × WarpServer.WaitingPc)

abbrev Duplex : Type := Party → DuplexNode

/-- Two workers that name each other. -/
structure DuplexPair where
  crypto : Crypto
  connector : Party → Connector
  knows : ∀ x, (connector x).uuid = (connector x.peer).serverFullname

inductive DuplexLabel where
  /-- A step of a worker that needs nothing from the handlers of the other host. -/
  | worker (x : Party) (l : LiveLabel)
  /-- The other host's registration service answers call `i`. -/
  | certify (x : Party) (i : Nat) (nonce : List UInt8)
  /-- The request of call `i` arrives. -/
  | deliver (x : Party) (i : Nat)
  | handle (x : Party) (h : Nat) (ans : WarpServer.WaitingAnswer)
  /-- Handler `h` of the other host answers call `i`. -/
  | reply (x : Party) (i : Nat) (h : Nat)

/-- The answer comes from a handler of the other host. -/
def ConnectAnswer.fromPeer : ConnectAnswer → Bool
  | .lockedCert _ | .refused _ | .haveDuplex _ => true
  | _ => false

def LiveLabel.fromPeer : LiveLabel → Bool
  | .call _ ans => ans.fromPeer
  | _ => false

/-- Call `i` sends its request with this step. -/
def asks (n n' : LiveWorker) : LiveLabel → Option Nat
  | .call i _ =>
    match n.calls[i]?, n'.calls[i]? with
    | some .waitForDuplex, some (.waiting _) => some i
    | _, _ => none
  | _ => none

namespace DuplexPair

variable (p : DuplexPair)

/-- The `LookupName` of a request. -/
def lookupName (x : Party) : LookupName where
  id := (p.connector x).serverFullname
  readableName := (p.connector x).serverHostname

def stepWorker (d : Duplex) (x : Party) (l : LiveLabel) : Option Duplex :=
  ((p.connector x).live p.crypto).step (d x).worker l |>.map fun n =>
    Function.update d x
      { d x with worker := n, outbox := (d x).outbox ++ (asks (d x).worker n l).toList }

def step (d : Duplex) : DuplexLabel → Option Duplex
  | .worker x l => if l.fromPeer then none else p.stepWorker d x l
  | .certify x i nonce =>
    match (p.connector x.peer).authenticator.requestCertificate p.crypto nonce with
    | .ok text => p.stepWorker d x (.call i (.lockedCert text))
    | .error status => p.stepWorker d x (.call i (.refused status))
  | .deliver x i =>
    if i ∈ (d x).outbox then
      let handlers := (d x.peer).handlers ++ [(i, .subscribe (p.lookupName x))]
      some (Function.update (Function.update d x { d x with outbox := (d x).outbox.erase i }) x.peer
        { d x.peer with handlers := handlers })
    else none
  | .handle x h ans =>
    (d x).handlers[h]?.bind fun (i, pc) =>
      (WarpServer.waitingForDuplex (d x).worker.connection.manager
        (fun id => id == (p.connector x).uuid) pc ans).map fun (pc, spawns) =>
        let worker := (d x).worker
        Function.update d x { d x with
          worker := if spawns then { worker with calls := worker.calls ++ [.start] } else worker
          handlers := (d x).handlers.set h (i, pc) }
  | .reply x i h =>
    match (d x.peer).handlers[h]? with
    | some (j, .returned response) =>
      if j = i then p.stepWorker d x (.call i (.haveDuplex response)) else none
    | _ => none

def duplex : Machine Duplex DuplexLabel where
  step := p.step

end DuplexPair

/-! ## Section 2: What a call has behind it -/

section milestones

variable (p : DuplexPair) (x : Party) (i : Nat)

/-- Call `i` opens the certificate of the other host with its own key. -/
def Unboxed : Machine.Event Duplex DuplexLabel := fun _ l _ =>
  ∃ nonce text decoded certPem, l = .certify x i nonce ∧
    (p.connector x.peer).authenticator.requestCertificate p.crypto nonce = .ok text ∧
    p.crypto.decode (cleanedCert text) = some decoded ∧
    (p.connector x).authenticator.unboxCert p.crypto decoded = .ok certPem

/-- The ping of call `i` is answered. -/
def Pinged : Machine.Event Duplex DuplexLabel := fun d l _ =>
  l = .worker x (.call i .pong) ∧ ∃ client, (d x).worker.calls[i]? = some (.pinging client)

/-- Call `i` writes the state into the record of the other host. -/
def Wrote (state : RemoteState) : Machine.Event Duplex DuplexLabel := fun d l _ =>
  l = .worker x (.call i .go) ∧
    ∃ next, (d x).worker.calls[i]? = some (.setState .store state next)

/-- Call `i` sends its `WaitingForDuplex` request. -/
def Asked : Machine.Event Duplex DuplexLabel := fun d l d' =>
  l = .worker x (.call i .go) ∧ (d x).worker.calls[i]? = some .waitForDuplex ∧
    ∃ client, (d' x).worker.calls[i]? = some (.waiting client)

/-- The other host's record of this one shows a connection. -/
def PeerReady : Machine.Event Duplex DuplexLabel := fun d _ _ =>
  ∃ remote, (d x.peer).worker.connection.manager.remote (p.connector x).serverFullname
      = some remote ∧
    (remote.state = .awaitingDuplex ∨ remote.state = .connected)

def milestones : List (Machine.Event Duplex DuplexLabel) :=
  [Unboxed p x i, Pinged x i, Wrote x i .awaitingDuplex, Asked x i, PeerReady p x]

end milestones

namespace ConnectPc

/-- A `set_state` is followed by what belongs to its state. -/
def Shaped : ConnectPc → Prop
  | .setState _ state .duplex => state = .awaitingDuplex
  | .setState _ state .fetch => state = .connected
  | .setState _ state _ => state ≠ .connected
  | _ => True

/-- How many milestones a call at this point has behind it. -/
def passed : ConnectPc → Nat
  | .storeCertificate _ | .buildChannel _ | .dial _ | .setChannel _ | .setClient _ => 1
  | .ping | .pinging _ => 1
  | .setState _ _ .duplex => 2
  | .waitForDuplex => 3
  | .waiting _ => 4
  | .setState _ _ .fetch => 5
  | _ => 0

end ConnectPc

/-- How a step of `connect` passes milestones. -/
inductive Progresses (crypto : Crypto) (a : Authenticator) :
    ConnectPc → ConnectAnswer → ConnectPc → Prop
  | stays (pc : ConnectPc) (ans : ConnectAnswer) (pc' : ConnectPc) :
      pc'.passed ≤ pc.passed → Progresses crypto a pc ans pc'
  | unboxed (pc : ConnectPc) (text : String) (decoded certPem : List UInt8) :
      crypto.decode (cleanedCert text) = some decoded → a.unboxCert crypto decoded = .ok certPem →
      Progresses crypto a pc (.lockedCert text) (.storeCertificate certPem)
  | pinged (client : Channel) :
      Progresses crypto a (.pinging client) .pong (.setState .send .awaitingDuplex .duplex)
  | wrote : Progresses crypto a (.setState .store .awaitingDuplex .duplex) .go .waitForDuplex
  | asked (client : Channel) : Progresses crypto a .waitForDuplex .go (.waiting client)
  | answered (client : Channel) :
      Progresses crypto a (.waiting client) (.haveDuplex true) (.setState .send .connected .fetch)

theorem receive_ok {crypto : Crypto} {a : Authenticator} {text : String} {certPem : List UInt8}
    (h : a.receive crypto text = .ok certPem) :
    ∃ decoded, crypto.decode (cleanedCert text) = some decoded ∧
      a.unboxCert crypto decoded = .ok certPem := by
  unfold Authenticator.receive at h
  split at h
  · cases h
  · next decoded hdecode =>
    split at h
    · cases h
    · cases h
    · next certPem' hunbox =>
      cases h
      exact ⟨decoded, hdecode, hunbox⟩

theorem ReceiveCertError.state_ne (e : ReceiveCertError) : e.state ≠ .connected := by
  cases e <;> simp [ReceiveCertError.state]

/-- A step of `connect` passes at most the next milestone. -/
theorem Connector.connect_progresses {crypto : Crypto} {w : Connector} {c c' : Connection}
    {pc pc' : ConnectPc} {ans : ConnectAnswer} (hshaped : pc.Shaped)
    (h : w.connect crypto c pc ans = some (c', pc')) :
    pc'.Shaped ∧ Progresses crypto w.authenticator pc ans pc' := by
  have hrejected : ∀ e, (ConnectPc.rejected e).Shaped := fun e => e.state_ne
  unfold Connector.connect at h
  split at h
  · -- the sending half of `set_state`
    next state next =>
    cases h
    cases next <;> exact ⟨hshaped, .stays _ _ _ (by simp [ConnectPc.passed])⟩
  · -- the storing half of `set_state`
    next state next =>
    cases h
    cases next with
    | duplex =>
      obtain rfl : state = .awaitingDuplex := hshaped
      exact ⟨trivial, .wrote⟩
    | _ => exact ⟨trivial, .stays _ _ _ (by simp [ConnectNext.pc, ConnectPc.passed])⟩
  · -- reading the remote's address
    split at h <;> cases h
    · exact ⟨hrejected _, .stays _ _ _ (by simp [ConnectPc.rejected, ConnectPc.passed])⟩
    · exact ⟨trivial, .stays _ _ _ (by simp [ConnectPc.passed])⟩
  · -- `request_certificate`, offline
    cases h; exact ⟨hrejected _, .stays _ _ _ (by simp [ConnectPc.rejected, ConnectPc.passed])⟩
  · -- `request_certificate`, refused
    cases h; exact ⟨hrejected _, .stays _ _ _ (by simp [ConnectPc.rejected, ConnectPc.passed])⟩
  · -- `request_certificate`, answered with a locked certificate
    split at h
    · cases h; exact ⟨hrejected _, .stays _ _ _ (by simp [ConnectPc.rejected, ConnectPc.passed])⟩
    · next hreceive =>
      cases h
      obtain ⟨decoded, hdecode, hunbox⟩ := receive_ok hreceive
      exact ⟨trivial, .unboxed _ _ decoded _ hdecode hunbox⟩
  · -- storing the certificate
    split at h <;> cases h
    · exact ⟨hrejected _, .stays _ _ _ (by simp [ConnectPc.rejected, ConnectPc.passed])⟩
    · exact ⟨trivial, .stays _ _ _ (by simp [ConnectPc.passed])⟩
  · -- reading the address to dial
    split at h <;> cases h
    · exact ⟨by simp [ConnectPc.unreachable, ConnectPc.Shaped],
        .stays _ _ _ (by simp [ConnectPc.unreachable, ConnectPc.passed])⟩
    · exact ⟨trivial, .stays _ _ _ (by simp [ConnectPc.passed])⟩
  · -- the dial succeeds
    cases h; exact ⟨trivial, .stays _ _ _ (by simp [ConnectPc.passed])⟩
  · -- the dial fails
    cases h
    exact ⟨by simp [ConnectPc.unreachable, ConnectPc.Shaped],
      .stays _ _ _ (by simp [ConnectPc.unreachable, ConnectPc.passed])⟩
  · -- storing the channel
    cases h; exact ⟨trivial, .stays _ _ _ (by simp [ConnectPc.passed])⟩
  · -- storing the client
    split at h
    · cases h; exact ⟨trivial, .stays _ _ _ (by simp [ConnectPc.passed])⟩
    · cases h
  · -- `ping`
    split at h <;> cases h <;> exact ⟨trivial, .stays _ _ _ (by simp [ConnectPc.passed])⟩
  · -- the ping is answered
    cases h; exact ⟨rfl, .pinged _⟩
  · -- the ping fails
    cases h; exact ⟨trivial, .stays _ _ _ (by simp [ConnectPc.passed])⟩
  · -- clearing the channel
    cases h; exact ⟨trivial, .stays _ _ _ (by simp [ConnectPc.passed])⟩
  · -- clearing the client
    split at h
    · cases h
      exact ⟨by simp [ConnectPc.Shaped], .stays _ _ _ (by simp [ConnectPc.passed])⟩
    · cases h
  · -- `wait_for_duplex`
    split at h <;> cases h
    · exact ⟨trivial, .stays _ _ _ (by simp [ConnectPc.passed])⟩
    · exact ⟨trivial, .asked _⟩
  · -- the duplex is established
    cases h; exact ⟨rfl, .answered _⟩
  · -- the remote has no duplex
    cases h; exact ⟨trivial, .stays _ _ _ (by simp [ConnectPc.passed])⟩
  · -- the wait fails
    cases h; exact ⟨trivial, .stays _ _ _ (by simp [ConnectPc.passed])⟩
  · -- asking for the machine info
    split at h <;> cases h <;> exact ⟨trivial, .stays _ _ _ (by simp [ConnectPc.passed])⟩
  · -- the machine info comes
    cases h; exact ⟨trivial, .stays _ _ _ (by simp [ConnectPc.passed])⟩
  · -- the machine info does not come
    cases h; exact ⟨trivial, .stays _ _ _ (by simp [ConnectPc.passed])⟩
  · -- storing the machine info
    cases h; exact ⟨trivial, .stays _ _ _ (by simp [ConnectPc.passed])⟩
  · -- asking for the avatar
    split at h <;> cases h <;> exact ⟨trivial, .stays _ _ _ (by simp [ConnectPc.passed])⟩
  · -- the avatar comes
    cases h; exact ⟨trivial, .stays _ _ _ (by simp [ConnectPc.passed])⟩
  · -- the avatar does not come
    cases h; exact ⟨trivial, .stays _ _ _ (by simp [ConnectPc.passed])⟩
  · -- storing the avatar
    cases h; exact ⟨trivial, .stays _ _ _ (by simp [ConnectPc.passed])⟩
  · -- no other step
    cases h

/-! ## Section 3: Histories -/

section histories

variable {p : DuplexPair} {s₀ : Duplex} {ls : List DuplexLabel}

/-- The run has passed the first `n` milestones of call `i`. -/
def Passed (p : DuplexPair) (s₀ : Duplex) (ls : List DuplexLabel) (x : Party) (i n : Nat) : Prop :=
  p.duplex.Passes ((milestones p x i).take n) s₀ ls

theorem Passed.zero (x : Party) (i : Nat) : Passed p s₀ ls x i 0 := trivial

theorem Passed.mono {x : Party} {i m n : Nat} (h : Passed p s₀ ls x i n) (hle : m ≤ n)
    (l : DuplexLabel) : Passed p s₀ (ls ++ [l]) x i m := by
  have htake := (h.take m).append [l]
  rwa [List.take_take, Nat.min_eq_left hle] at htake

theorem Passed.next {x : Party} {i n : Nat} {E : Machine.Event Duplex DuplexLabel}
    (hE : (milestones p x i)[n]? = some E) {d d' : Duplex} {l : DuplexLabel}
    (h : Passed p s₀ ls x i n) (hrun : p.duplex.exec s₀ ls = some d)
    (hstep : p.duplex.step d l = some d') (hpasses : E d l d') :
    Passed p s₀ (ls ++ [l]) x i (n + 1) := by
  unfold Passed
  rw [List.take_add_one, hE]
  exact Machine.Passes.snoc h hrun hstep hpasses

/-- What the calls of `x`, its requests and the handlers of them have behind
    them. -/
structure History (p : DuplexPair) (s₀ : Duplex) (ls : List DuplexLabel) (d : Duplex) (x : Party) :
    Prop where
  calls : ∀ i pc, (d x).worker.calls[i]? = some pc → pc.Shaped ∧ Passed p s₀ ls x i pc.passed
  outbox : ∀ i ∈ (d x).outbox, Passed p s₀ ls x i 4
  asked : ∀ i pc req, (i, pc) ∈ (d x.peer).handlers → pc.request = some req →
    req.id = (p.connector x).serverFullname ∧ Passed p s₀ ls x i 4
  answered : ∀ i, (i, WarpServer.WaitingPc.returned true) ∈ (d x.peer).handlers →
    Passed p s₀ ls x i 5

theorem start_passed (x : Party) (i : Nat) :
    ConnectPc.start.Shaped ∧ Passed p s₀ ls x i ConnectPc.start.passed :=
  ⟨by simp [ConnectPc.start, ConnectPc.Shaped], trivial⟩

/-- What a party has behind it stays behind it. -/
theorem History.later {d : Duplex} {x : Party} (h : History p s₀ ls d x) (l : DuplexLabel) :
    History p s₀ (ls ++ [l]) d x where
  calls i pc hpc := ⟨(h.calls i pc hpc).1, (h.calls i pc hpc).2.mono le_rfl l⟩
  outbox i hi := (h.outbox i hi).mono le_rfl l
  asked i pc req hmem hreq :=
    ⟨(h.asked i pc req hmem hreq).1, (h.asked i pc req hmem hreq).2.mono le_rfl l⟩
  answered i hmem := (h.answered i hmem).mono le_rfl l

/-- What a step of a worker does to the history of its party. -/
theorem history_stepWorker {d d' : Duplex} {y : Party} {label : LiveLabel} {l : DuplexLabel}
    (hH : ∀ x, History p s₀ ls d x) (h : p.stepWorker d y label = some d')
    (hcall : ∀ i ans pc c' pc', label = .call i ans → (d y).worker.calls[i]? = some pc →
      (p.connector y).connect p.crypto (d y).worker.connection pc ans = some (c', pc') →
      (d' y).worker.calls[i]? = some pc' → Passed p s₀ (ls ++ [l]) y i pc'.passed) (x : Party) :
    History p s₀ (ls ++ [l]) d' x := by
  obtain ⟨n, hstep, rfl⟩ := Option.map_eq_some_iff.1 h
  by_cases hxy : x = y
  · subst hxy
    have hpeer : x.peer ≠ x := peer_ne x
    have hold := hH x
    have hlater := hold.later l
    have hcalls : ∀ i pc, n.calls[i]? = some pc →
        pc.Shaped ∧ Passed p s₀ (ls ++ [l]) x i pc.passed := by
      intro j pc₁ hpc₁
      -- a call that steps keeps its number; a new one comes last
      rcases Connector.live_calls hstep with
        ⟨i, ans, pc, c', pc', rfl, hpc, hconnect, hset⟩ | ⟨_, spawned, happ, hspawned⟩
      · rw [hset, List.getElem?_set] at hpc₁
        split at hpc₁
        · next hij =>
          subst hij
          have hpc' : n.calls[i]? = some pc' := by
            rw [hset, List.getElem?_set, if_pos rfl, if_pos (List.getElem?_eq_some_iff.1 hpc).1]
          split at hpc₁
          · rw [← Option.some.inj hpc₁]
            exact ⟨(Connector.connect_progresses (hold.calls i pc hpc).1 hconnect).1,
              hcall i ans pc c' pc' rfl hpc hconnect (by simpa using hpc')⟩
          · cases hpc₁
        · exact hlater.calls j pc₁ hpc₁
      · rw [happ, List.getElem?_append] at hpc₁
        split at hpc₁
        · exact hlater.calls j pc₁ hpc₁
        · rw [hspawned pc₁ (List.mem_of_getElem? hpc₁)]
          exact start_passed x j
    refine ⟨by simpa using hcalls, ?_, ?_, ?_⟩
    · intro i hi
      simp only [Function.update_self, List.mem_append, Option.mem_toList] at hi
      rcases hi with hi | hi
      · exact hlater.outbox i hi
      · -- the request has just been sent
        unfold asks at hi
        split at hi
        · split at hi
          · next hwaiting =>
            cases hi
            exact (hcalls _ _ hwaiting).2
          · cases hi
        · cases hi
    · intro i pc req hmem hreq
      rw [Function.update_of_ne hpeer] at hmem
      exact hlater.asked i pc req hmem hreq
    · intro i hmem
      rw [Function.update_of_ne hpeer] at hmem
      exact hlater.answered i hmem
  · have hlater := (hH x).later l
    have hx : Function.update d y { d y with
        worker := n, outbox := (d y).outbox ++ (asks (d y).worker n label).toList } x = d x :=
      Function.update_of_ne hxy _ _
    refine ⟨?_, ?_, ?_, ?_⟩
    · intro i pc hpc
      rw [hx] at hpc
      exact hlater.calls i pc hpc
    · intro i hi
      rw [hx] at hi
      exact hlater.outbox i hi
    · intro i pc req hmem hreq
      have hmem' : (i, pc) ∈ (d x.peer).handlers := by
        by_cases hpy : x.peer = y
        · subst hpy; simpa using hmem
        · rwa [Function.update_of_ne hpy] at hmem
      exact hlater.asked i pc req hmem' hreq
    · intro i hmem
      have hmem' : (i, WarpServer.WaitingPc.returned true) ∈ (d x.peer).handlers := by
        by_cases hpy : x.peer = y
        · subst hpy; simpa using hmem
        · rwa [Function.update_of_ne hpy] at hmem
      exact hlater.answered i hmem'

theorem history_worker {d d' : Duplex} {y : Party} {label : LiveLabel}
    (hH : ∀ x, History p s₀ ls d x) (hrun : p.duplex.exec s₀ ls = some d)
    (h : p.duplex.step d (.worker y label) = some d') (x : Party) :
    History p s₀ (ls ++ [.worker y label]) d' x := by
  have hstep : (if label.fromPeer then none else p.stepWorker d y label) = some d' := h
  split at hstep
  · cases hstep
  · next hlocal =>
    refine history_stepWorker hH hstep (fun i ans pc c' pc' hl hpc hconnect hpc' => ?_) x
    subst hl
    obtain ⟨hshaped, hpassed⟩ := (hH y).calls i pc hpc
    cases (Connector.connect_progresses hshaped hconnect).2 with
    | stays _ _ _ hle => exact hpassed.mono hle _
    -- only `certify` answers with a certificate
    | unboxed _ text decoded certPem => simp [LiveLabel.fromPeer, ConnectAnswer.fromPeer] at hlocal
    | pinged client => exact hpassed.next rfl hrun h ⟨rfl, client, hpc⟩
    | wrote => exact hpassed.next rfl hrun h ⟨rfl, .duplex, hpc⟩
    | asked client => exact hpassed.next rfl hrun h ⟨rfl, hpc, client, hpc'⟩
    -- and only `reply` with a duplex
    | answered client => simp [LiveLabel.fromPeer, ConnectAnswer.fromPeer] at hlocal

theorem history_certify {d d' : Duplex} {y : Party} {i : Nat} {nonce : List UInt8}
    (hH : ∀ x, History p s₀ ls d x) (hrun : p.duplex.exec s₀ ls = some d)
    (h : p.duplex.step d (.certify y i nonce) = some d') (x : Party) :
    History p s₀ (ls ++ [.certify y i nonce]) d' x := by
  have hstep : p.step d (.certify y i nonce) = some d' := h
  unfold DuplexPair.step at hstep
  dsimp only at hstep
  split at hstep
  · next text htext =>
    refine history_stepWorker hH hstep (fun j ans pc c' pc' hl hpc hconnect _ => ?_) x
    cases hl
    obtain ⟨hshaped, hpassed⟩ := (hH y).calls i pc hpc
    cases (Connector.connect_progresses hshaped hconnect).2 with
    | stays _ _ _ hle => exact hpassed.mono hle _
    | unboxed _ _ decoded certPem hdecode hunbox =>
      exact (Passed.zero y i).next rfl hrun h
        ⟨nonce, text, decoded, certPem, rfl, htext, hdecode, hunbox⟩
  · refine history_stepWorker hH hstep (fun j ans pc c' pc' hl hpc hconnect _ => ?_) x
    cases hl
    obtain ⟨hshaped, hpassed⟩ := (hH y).calls i pc hpc
    cases (Connector.connect_progresses hshaped hconnect).2 with
    | stays _ _ _ hle => exact hpassed.mono hle _

theorem history_reply {d d' : Duplex} {y : Party} {i h : Nat}
    (hH : ∀ x, History p s₀ ls d x) (hreply : p.duplex.step d (.reply y i h) = some d')
    (x : Party) : History p s₀ (ls ++ [.reply y i h]) d' x := by
  have hstep : p.step d (.reply y i h) = some d' := hreply
  unfold DuplexPair.step at hstep
  dsimp only at hstep
  split at hstep
  · next j response hhandler =>
    split at hstep
    · next hji =>
      subst hji
      refine history_stepWorker hH hstep (fun k ans pc c' pc' hl hpc hconnect _ => ?_) x
      cases hl
      obtain ⟨hshaped, hpassed⟩ := (hH y).calls j pc hpc
      cases (Connector.connect_progresses hshaped hconnect).2 with
      | stays _ _ _ hle => exact hpassed.mono hle _
      | answered client =>
        exact ((hH y).answered j (List.mem_of_getElem? hhandler)).mono le_rfl _
    · cases hstep
  · cases hstep

theorem history_deliver {d d' : Duplex} {y : Party} {i : Nat} (hH : ∀ x, History p s₀ ls d x)
    (h : p.duplex.step d (.deliver y i) = some d') (x : Party) :
    History p s₀ (ls ++ [.deliver y i]) d' x := by
  have hstep : p.step d (.deliver y i) = some d' := h
  unfold DuplexPair.step at hstep
  dsimp only at hstep
  split at hstep
  · next hi =>
    cases hstep
    -- only the outbox of `y` and the handlers of its peer change
    have hlater := (hH x).later (.deliver y i)
    have hne : y ≠ y.peer := (peer_ne y).symm
    refine ⟨fun j pc hpc => ?_, fun j hj => ?_, fun j pc req hmem hreq => ?_, fun j hmem => ?_⟩
    · have hpc' : (d x).worker.calls[j]? = some pc := by
        by_cases hx : x = y.peer
        · subst hx; simpa using hpc
        · rw [Function.update_of_ne hx] at hpc
          by_cases hxy : x = y
          · subst hxy; simpa using hpc
          · rwa [Function.update_of_ne hxy] at hpc
      exact hlater.calls j pc hpc'
    · have hj' : j ∈ (d x).outbox := by
        by_cases hx : x = y.peer
        · subst hx; simpa using hj
        · rw [Function.update_of_ne hx] at hj
          by_cases hxy : x = y
          · subst hxy
            rw [Function.update_self] at hj
            exact List.mem_of_mem_erase hj
          · rwa [Function.update_of_ne hxy] at hj
      exact hlater.outbox j hj'
    · by_cases hxy : x = y
      · subst hxy
        rw [Function.update_self] at hmem
        rcases List.mem_append.1 hmem with hmem | hmem
        · exact hlater.asked j pc req hmem hreq
        · obtain ⟨rfl, rfl⟩ := Prod.mk.inj (List.mem_singleton.1 hmem)
          cases hreq
          exact ⟨rfl, hlater.outbox j hi⟩
      · obtain rfl : x = y.peer := eq_peer_of_ne hxy
        rw [peer_peer, Function.update_of_ne hne, Function.update_self] at hmem
        have hmem' : (j, pc) ∈ (d y.peer.peer).handlers := by simpa using hmem
        exact hlater.asked j pc req hmem' hreq
    · by_cases hxy : x = y
      · subst hxy
        rw [Function.update_self] at hmem
        rcases List.mem_append.1 hmem with hmem | hmem
        · exact hlater.answered j hmem
        · cases List.mem_singleton.1 hmem
      · obtain rfl : x = y.peer := eq_peer_of_ne hxy
        rw [peer_peer, Function.update_of_ne hne, Function.update_self] at hmem
        have hmem' : (j, WarpServer.WaitingPc.returned true) ∈ (d y.peer.peer).handlers := by
          simpa using hmem
        exact hlater.answered j hmem'
  · cases hstep

theorem history_handle {d d' : Duplex} {y : Party} {h : Nat} {ans : WarpServer.WaitingAnswer}
    (hH : ∀ x, History p s₀ ls d x) (hrun : p.duplex.exec s₀ ls = some d)
    (hhandle : p.duplex.step d (.handle y h ans) = some d') (x : Party) :
    History p s₀ (ls ++ [.handle y h ans]) d' x := by
  obtain ⟨⟨i, pc⟩, hpc, hmap⟩ := Option.bind_eq_some_iff.1 hhandle
  obtain ⟨⟨pc', spawns⟩, hwaiting, heq⟩ := Option.map_eq_some_iff.1 hmap
  obtain ⟨req, hreq, hcases⟩ := WarpServer.waitingForDuplex_view hwaiting
  have hmem₀ : (i, pc) ∈ (d y).handlers := List.mem_of_getElem? hpc
  have hself : d' y = { d y with
      worker := if spawns then { (d y).worker with calls := (d y).worker.calls ++ [.start] }
        else (d y).worker
      handlers := (d y).handlers.set h (i, pc') } := by
    rw [← heq]
    exact Function.update_self _ _ _
  have hother : ∀ x, x ≠ y → d' x = d x := fun x hx => by
    rw [← heq]
    exact Function.update_of_ne hx _ _
  have hold := hH x
  have hlater := hold.later (.handle y h ans)
  refine ⟨fun j pc₁ hpc₁ => ?_, fun j hj => ?_, fun j pc₁ req₁ hmem hreq₁ => ?_, fun j hmem => ?_⟩
  · by_cases hxy : x = y
    · subst hxy
      rw [hself] at hpc₁
      dsimp only at hpc₁
      split at hpc₁
      · rw [List.getElem?_append] at hpc₁
        split at hpc₁
        · exact hlater.calls j pc₁ hpc₁
        · rw [List.mem_singleton.1 (List.mem_of_getElem? hpc₁)]
          exact start_passed x j
      · exact hlater.calls j pc₁ hpc₁
    · rw [hother x hxy] at hpc₁
      exact hlater.calls j pc₁ hpc₁
  · have hj' : j ∈ (d x).outbox := by
      by_cases hxy : x = y
      · subst hxy
        rw [hself] at hj
        exact hj
      · rwa [hother x hxy] at hj
    exact hlater.outbox j hj'
  · by_cases hxy : x.peer = y
    · subst hxy
      rw [hself] at hmem
      rcases List.mem_or_eq_of_mem_set hmem with hmem | hmem
      · exact hlater.asked j pc₁ req₁ hmem hreq₁
      · obtain ⟨rfl, rfl⟩ := Prod.mk.inj hmem
        obtain ⟨hid, hpassed⟩ := hold.asked j pc req hmem₀ hreq
        -- the handler goes on with the same request, or has returned
        rcases hcases with hkeep | rfl | ⟨rfl, _⟩
        · obtain rfl : req = req₁ := Option.some.inj (hkeep.symm.trans hreq₁)
          exact ⟨hid, hpassed.mono le_rfl _⟩
        · cases hreq₁
        · cases hreq₁
    · rw [hother _ hxy] at hmem
      exact hlater.asked j pc₁ req₁ hmem hreq₁
  · by_cases hxy : x.peer = y
    · subst hxy
      rw [hself] at hmem
      rcases List.mem_or_eq_of_mem_set hmem with hmem | hmem
      · exact hlater.answered j hmem
      · obtain ⟨rfl, rfl⟩ := Prod.mk.inj hmem
        obtain ⟨hid, hpassed⟩ := hold.asked j pc req hmem₀ hreq
        rcases hcases with hkeep | hfalse | ⟨_, remote, hremote, hduplex⟩
        · cases hkeep
        · cases hfalse
        -- it has returned `true`: it has seen the caller in a state with a duplex
        · refine hpassed.next rfl hrun hhandle ⟨remote, ?_, ?_⟩
          · rw [← hid]
            exact hremote
          · generalize remote.state = state at hduplex
            cases state <;> simp_all [WarpServer.hasDuplex]
    · rw [hother _ hxy] at hmem
      exact hlater.answered j hmem

theorem history_step {d d' : Duplex} {l : DuplexLabel} (hrun : p.duplex.exec s₀ ls = some d)
    (hH : ∀ x, History p s₀ ls d x) (hstep : p.duplex.step d l = some d') (x : Party) :
    History p s₀ (ls ++ [l]) d' x := by
  cases l with
  | worker y label => exact history_worker hH hrun hstep x
  | certify y i nonce => exact history_certify hH hrun hstep x
  | deliver y i => exact history_deliver hH hstep x
  | handle y h ans => exact history_handle hH hrun hstep x
  | reply y i h => exact history_reply hH hstep x

end histories

/-! ## Section 4: Connected -/

/-- No call has been made and no request is on its way. -/
structure Duplex.Fresh (d : Duplex) : Prop where
  calls : ∀ x, (d x).worker.calls = []
  outbox : ∀ x, (d x).outbox = []
  handlers : ∀ x, (d x).handlers = []

/-- When a call of `x` writes `Connected` next, it has, in this order, opened the other
    host's certificate, had its ping answered, written `AwaitingDuplex` and sent
    its request; and after that the other host's record of `x` was
    `AwaitingDuplex` or `Connected`. -/
theorem handshake_of_connected {p : DuplexPair} {s₀ d : Duplex} {ls : List DuplexLabel}
    {x : Party} {i : Nat} (hfresh : s₀.Fresh) (hrun : p.duplex.exec s₀ ls = some d)
    (hwrites : ∃ l d', p.duplex.step d l = some d' ∧ Wrote x i .connected d l d') :
    p.duplex.Passes [Unboxed p x i, Pinged x i, Wrote x i .awaitingDuplex, Asked x i, PeerReady p x]
      s₀ ls := by
  have hinit : ∀ x, History p s₀ [] s₀ x := fun x =>
    { calls := fun i pc hpc => by simp [hfresh.calls x] at hpc
      outbox := fun i hi => by simp [hfresh.outbox x] at hi
      asked := fun i pc req hmem _ => by simp [hfresh.handlers x.peer] at hmem
      answered := fun i hmem => by simp [hfresh.handlers x.peer] at hmem }
  have hH : ∀ x, History p s₀ ls d x :=
    Machine.exec_history (H := fun ls d => ∀ x, History p s₀ ls d x) hinit
      (fun ls d l d' hrun hH hstep => history_step hrun hH hstep) hrun
  -- only the last `set_state` of a call writes `Connected`
  obtain ⟨_, _, _, _, next, hpc⟩ := hwrites
  obtain ⟨hshaped, hpassed⟩ := (hH x).calls i _ hpc
  cases next with
  | fetch => exact hpassed
  | certificate => exact absurd rfl hshaped
  | fail e => exact absurd rfl hshaped
  | duplex => cases hshaped

/-- The hosts `a` and `b` with one group code. -/
def pairOfTwo : DuplexPair where
  crypto := .plain
  connector
    | .a => { uuid := "b", serverFullname := "a", serverHostname := "a",
              authenticator := { groupCode := "Warpinator", certPem := [] } }
    | .b => { uuid := "a", serverFullname := "b", serverHostname := "b",
              authenticator := { groupCode := "Warpinator", certPem := [] } }
  knows x := by cases x <;> rfl

/-- Both hosts know each other, and `b` already waits for `a`. -/
def freshPair : Duplex
  | .a => { worker := .new (.single (.new "b" (.v4 0) 0 0 "b" "")), outbox := [], handlers := [] }
  | .b =>
    { worker := .new (.single { Remote.new "a" (.v4 0) 0 0 "a" "" with state := .awaitingDuplex })
      outbox := []
      handlers := [] }

/-- A call of `a` up to its last `set_state`. -/
def connectingRun : List DuplexLabel :=
  [.worker .a .start, .worker .a (.call 0 .go), .worker .a (.call 0 .go), .worker .a (.call 0 .go),
    .certify .a 0 (List.replicate 24 0), .worker .a (.call 0 .go), .worker .a (.call 0 .go),
    .worker .a (.call 0 .dialed), .worker .a (.call 0 .go), .worker .a (.call 0 .go),
    .worker .a (.call 0 .go), .worker .a (.call 0 .pong), .worker .a (.call 0 .go),
    .worker .a (.call 0 .go), .worker .a (.call 0 .go), .deliver .a 0, .handle .b 0 .go,
    .handle .b 0 .go, .reply .a 0 0, .worker .a (.call 0 .go)]

theorem handshake_connectingRun :
    ∃ d, pairOfTwo.duplex.exec freshPair connectingRun = some d ∧
      pairOfTwo.duplex.Passes [Unboxed pairOfTwo .a 0, Pinged .a 0, Wrote .a 0 .awaitingDuplex,
        Asked .a 0, PeerReady pairOfTwo .a] freshPair connectingRun := by
  have hfresh : freshPair.Fresh :=
    ⟨fun x => by cases x <;> rfl, fun x => by cases x <;> rfl, fun x => by cases x <;> rfl⟩
  exact ⟨_, rfl, handshake_of_connected hfresh rfl ⟨_, _, rfl, rfl, .fetch, rfl⟩⟩

end Warpinator
