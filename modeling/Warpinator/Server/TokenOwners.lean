import Warpinator.Server.Isolation

/-! # Owners of Tokens

    A cancellation token is made for one outgoing transfer, and no other
    transfer ever gets it.

    A step makes at most one new token (`TokenStep`); `Running.Tokened` is the
    invariant that follows. -/

namespace Warpinator

/-! ## Section 1: Who has a token -/

/-- The transfer `u` stands under `k` with the token. -/
def Instance.Owns (i : Instance) (k u : String) (token : TokenId) : Prop :=
  ∃ r t, i.remote k = some r ∧ t ∈ r.transfers ∧ t.uuid = u ∧ t.kind.token = some token

/-- The activity is about to store the transfer with the token, or to cancel the
    token of the transfer. -/
def Activity.Holds (k u : String) (token : TokenId) : Activity → Prop
  | .call (.sendTransferRequest w (.add t)) =>
    w.uuid = k ∧ t.uuid = u ∧ t.kind.token = some token
  | .call (.peerStopTransfer (.cancel t token' _)) =>
    t.remoteUuid = k ∧ t.uuid = u ∧ token' = token
  | _ => False

def Running.Knows (p : Running) (k u : String) (token : TokenId) : Prop :=
  p.shared.Owns k u token ∨ ∃ a ∈ p.tasks, a.Holds k u token

/-- Every token has been made, and for one transfer only. -/
structure Running.Tokened (p : Running) : Prop where
  issued : ∀ k u token, p.Knows k u token →
    ∃ n c, token = [n, c] ∧ c < p.shared.host.tokens.issued
  owner : ∀ k u k' u' token, p.Knows k u token → p.Knows k' u' token → k = k' ∧ u = u'

/-! ## Section 2: What a step makes of the tokens -/

/-- A step of `a` from `i`, which leaves `i'` and the activities `ts`: what is known
    afterwards was known before, apart from one new token. -/
structure TokenStep (i : Instance) (a : Activity) (i' : Instance) (ts : List Activity) : Prop where
  issued : i.host.tokens.issued ≤ i'.host.tokens.issued
  known : ∃ k₀ u₀ n, ∀ k u token,
    (i'.Owns k u token ∨ ∃ b ∈ ts, b.Holds k u token) →
      i.Owns k u token ∨ a.Holds k u token ∨
        (k = k₀ ∧ u = u₀ ∧ token = [n, i.host.tokens.issued] ∧
          i.host.tokens.issued < i'.host.tokens.issued)

section steps

variable {i i' : Instance} {host : Host} {ans : Answer}

/-- A step that makes no token. -/
theorem TokenStep.old {a : Activity} {ts : List Activity}
    (hissued : i.host.tokens.issued ≤ i'.host.tokens.issued)
    (howns : ∀ k u token, i'.Owns k u token → i.Owns k u token ∨ a.Holds k u token)
    (hholds : ∀ b ∈ ts, ∀ k u token, b.Holds k u token → i.Owns k u token ∨ a.Holds k u token) :
    TokenStep i a i' ts where
  issued := hissued
  known := by
    refine ⟨"", "", 0, fun k u token hknown => ?_⟩
    have hbefore : i.Owns k u token ∨ a.Holds k u token := by
      rcases hknown with hown | ⟨b, hb, hheld⟩
      · exact howns k u token hown
      · exact hholds b hb k u token hheld
    rcases hbefore with hown | hheld
    · exact .inl hown
    · exact .inr (.inl hheld)

theorem none_holds {a : Activity} (h : ∀ k u token, ¬ a.Holds k u token) :
    ∀ b ∈ [a], ∀ k u token, ¬ b.Holds k u token := by
  intro b hb
  rw [List.mem_singleton.1 hb]
  exact h

theorem owns_of_retouched (h : i.host.manager.Retouched i'.host.manager) {k u : String}
    {token : TokenId} (hown : i'.Owns k u token) : i.Owns k u token := by
  obtain ⟨r', t', hr', ht', huuid', htoken'⟩ := hown
  obtain ⟨r, hr, hkept⟩ := h.records k r' hr'
  obtain ⟨t, ht, huuid, htoken⟩ := hkept.tokens t' ht' token htoken'
  exact ⟨r, t, hr, ht, huuid.trans huuid', htoken⟩

/-- A step after which the activity holds nothing. -/
theorem TokenStep.unheld {a : Activity} {ts : List Activity}
    (hissued : i.host.tokens.issued ≤ i'.host.tokens.issued)
    (howns : ∀ k u token, i'.Owns k u token → i.Owns k u token ∨ a.Holds k u token)
    (hholds : ∀ b ∈ ts, ∀ k u token, ¬ b.Holds k u token) : TokenStep i a i' ts :=
  .old hissued howns fun b hb k u token hheld => absurd hheld (hholds b hb k u token)

/-- A step that only touches records up. -/
theorem TokenStep.retouched {a : Activity} {ts : List Activity}
    (hrecords : i.host.manager.Retouched i'.host.manager)
    (hissued : i.host.tokens.issued ≤ i'.host.tokens.issued)
    (hholds : ∀ b ∈ ts, ∀ k u token, ¬ b.Holds k u token) : TokenStep i a i' ts :=
  .unheld hissued (fun _ _ _ hown => .inl (owns_of_retouched hrecords hown)) hholds

/-- A new transfer is the only one that is not owned before. -/
theorem owns_addTransfer {k k' u : String} {t : Transfer} {token : TokenId}
    (hremote : ∀ k', i'.remote k' = (i.host.manager.addTransfer k t).2.remote k')
    (hown : i'.Owns k' u token) :
    i.Owns k' u token ∨ (k' = k ∧ t.uuid = u ∧ t.kind.token = some token) := by
  obtain ⟨r', t', hr', ht', huuid, htoken⟩ := hown
  rw [hremote, RemoteManager.remote_addTransfer] at hr'
  by_cases hk : k' = k
  · rw [if_pos hk] at hr'
    obtain ⟨r, hr, rfl⟩ := Option.map_eq_some_iff.1 hr'
    rcases List.mem_append.1 ht' with hold | hnew
    · exact .inl ⟨r, t', hk ▸ hr, hold, huuid, htoken⟩
    · obtain rfl := List.mem_singleton.1 hnew
      exact .inr ⟨hk, huuid, htoken⟩
  · rw [if_neg hk] at hr'
    exact .inl ⟨r', t', hr', ht', huuid, htoken⟩

theorem owns_addMessage {k k' u : String} {msg : Message} {token : TokenId}
    (hremote : ∀ k', i'.remote k' = (i.host.manager.addMessage k msg).2.remote k')
    (hown : i'.Owns k' u token) : i.Owns k' u token := by
  obtain ⟨r', t', hr', ht', huuid, htoken⟩ := hown
  rw [hremote, RemoteManager.remote_addMessage] at hr'
  by_cases hk : k' = k
  · rw [if_pos hk] at hr'
    obtain ⟨r, hr, rfl⟩ := Option.map_eq_some_iff.1 hr'
    exact ⟨r, t', hk ▸ hr, ht', huuid, htoken⟩
  · rw [if_neg hk] at hr'
    exact ⟨r', t', hr', ht', huuid, htoken⟩

/-! ### Calls -/

theorem process_tokenStep {pc pc' : WarpServer.ProcessPc}
    (h : WarpServer.ProcessMove i.host pc host pc') :
    TokenStep i (.call (.processTransferOpRequest pc)) { i with host := host }
      [.call (.processTransferOpRequest pc')] := by
  have hholds : ∀ b ∈ [Activity.call (.processTransferOpRequest pc')],
      ∀ k u token, ¬ b.Holds k u token := none_holds fun _ _ _ hheld => hheld
  cases h with
  | refused req status => exact .retouched (.refl _) (le_refl _) hholds
  | added req info id now result _ =>
    refine .unheld (le_refl _) (fun k u token hown => ?_) hholds
    -- a transfer that is requested from here is incoming
    rcases owns_addTransfer (i := i) (fun _ => rfl) hown with hbefore | ⟨_, _, htoken⟩
    · exact .inl hbefore
    · cases htoken

theorem sendRequest_tokenStep {w : Worker} {pc pc' : Worker.SendRequestPc}
    (hsound : (Activity.call (.sendTransferRequest w pc)).Sound i)
    (h : w.sendTransferRequest i.host pc ans = some (host, pc')) :
    TokenStep i (.call (.sendTransferRequest w pc)) { i with host := host }
      [.call (.sendTransferRequest w pc')] := by
  have hholds : (∀ t, pc' ≠ .add t) → ∀ b ∈ [Activity.call (.sendTransferRequest w pc')],
      ∀ k u token, ¬ b.Holds k u token := by
    intro hnot
    refine none_holds fun k u token hheld => ?_
    cases pc' with
    | add t => exact hnot t rfl
    | start _ | process _ | request _ _ | announce _ | abort _ _ | returned _ => exact hheld
  -- the transfer takes its token along into the store
  have hadds : ∀ (t : Transfer) (pc' : Worker.SendRequestPc), pc = .add t →
      host = (i.host.addTransfer w.uuid t).2 →
      (∀ b ∈ [Activity.call (.sendTransferRequest w pc')], ∀ k u token, ¬ b.Holds k u token) →
      TokenStep i (.call (.sendTransferRequest w pc)) { i with host := host }
        [.call (.sendTransferRequest w pc')] := by
    rintro t pc'' rfl rfl hnone
    refine .unheld (le_refl _) (fun k u token hown => ?_) hnone
    rcases owns_addTransfer (i := i) (fun _ => rfl) hown with hbefore | ⟨hk, huuid, htoken⟩
    · exact .inl hbefore
    · exact .inr ⟨hk.symm, huuid, htoken⟩
  have htoken := @sendTransferRequest_token w i.host
  cases Worker.sendTransferRequest_move h with
  | refused sourcePaths => exact .retouched (.refl _) (le_refl _) (hholds fun _ h => by cases h)
  -- the one step that issues a token: it is the next child of the worker's token
  | created sourcePaths id now token _ =>
    obtain ⟨n, hn, _⟩ := employs_of_sound hsound
    have hkind := htoken h
    refine ⟨Nat.le_succ _, w.uuid, id.toString, n, fun k u token' hknown => ?_⟩
    rcases hknown with hown | ⟨b, hb, hheld⟩
    · exact .inl hown
    · rw [List.mem_singleton.1 hb] at hheld
      obtain ⟨hk, huuid, htoken'⟩ := hheld
      rw [hkind, hn] at htoken'
      refine .inr (.inr ⟨hk.symm, huuid.symm, ?_, Nat.lt_succ_self _⟩)
      exact (Option.some.inj htoken').symm
  | added transfer => exact hadds transfer _ rfl rfl (hholds fun _ h => by cases h)
  | notAdded transfer e => exact hadds transfer _ rfl rfl (hholds fun _ h => by cases h)
  | processed transfer totals req =>
    exact .retouched (.refl _) (le_refl _) (hholds fun _ h => by cases h)
  | notProcessed transfer e =>
    exact .retouched (.refl _) (le_refl _) (hholds fun _ h => by cases h)
  | answered transfer req =>
    exact .retouched (.refl _) (le_refl _) (hholds fun _ h => by cases h)
  | failed transfer req e =>
    exact .retouched (.refl _) (le_refl _) (hholds fun _ h => by cases h)
  | announced transfer queued _ =>
    exact .retouched (RemoteManager.retouched_updateTransfer _ _ _ queued
      (announce_keepsToken transfer)) (le_refl _) (hholds fun _ h => by cases h)
  | lost transfer e _ => exact .retouched (.refl _) (le_refl _) (hholds fun _ h => by cases h)
  | aborted transfer e queued e' =>
    exact .retouched (RemoteManager.retouched_updateTransfer _ _ _ queued (setState_keepsToken _))
      (le_refl _) (hholds fun _ h => by cases h)

/-- A stop cancels the token of the transfer that it has found. -/
theorem stop_tokenStep {pc pc' : WarpServer.StopPc} (hi : i.Ordered)
    (h : WarpServer.stopTransfer i.host pc ans = some (host, pc')) :
    TokenStep i (.call (.peerStopTransfer pc)) { i with host := host }
      [.call (.peerStopTransfer pc')] := by
  have hholds : (∀ t token s, pc' ≠ .cancel t token s) →
      ∀ b ∈ [Activity.call (.peerStopTransfer pc')], ∀ k u token, ¬ b.Holds k u token := by
    intro hnot
    refine none_holds fun k u token hheld => ?_
    cases pc' with
    | cancel t token' s => exact hnot t token' s rfl
    | lookup _ | update _ _ | returned _ => exact hheld
  have htoken := @stopTransfer_token i.host
  cases WarpServer.stopTransfer_move h with
  | refused req status _ =>
    exact .retouched (.refl _) (le_refl _) (hholds fun _ _ _ h => by cases h)
  -- the token that the stop takes along is owned by the transfer it has found
  | foundOutgoing req info transfer token hinfo hfound =>
    obtain ⟨sourcePaths, hkind⟩ := htoken h
    obtain ⟨r, hr, hfind⟩ := Option.bind_eq_some_iff.1 hfound
    have hmem : transfer ∈ r.transfers := List.mem_of_find?_eq_some hfind
    have hplaced := (hi.transfers _ r transfer hr hmem).1
    refine .old (le_refl _) (fun _ _ _ hown => .inl hown) fun b hb k u token' hheld => .inl ?_
    rw [List.mem_singleton.1 hb] at hheld
    obtain ⟨rfl, rfl, rfl⟩ := hheld
    refine ⟨r, transfer, ?_, hmem, rfl, by rw [hkind]; rfl⟩
    rw [hplaced]
    exact hr
  | foundIncoming req info transfer _ _ =>
    exact .retouched (.refl _) (le_refl _) (hholds fun _ _ _ h => by cases h)
  | cancelled transfer token newState =>
    exact .retouched (.refl _) (le_refl _) (hholds fun _ _ _ h => by cases h)
  | updated transfer newState queued =>
    exact .retouched (RemoteManager.retouched_updateTransfer _ _ _ queued (setState_keepsToken _))
      (le_refl _) (hholds fun _ _ _ h => by cases h)

/-- The calls that may hold a token. -/
def Task.handlesToken : Task → Bool
  | .sendTransferRequest _ _ => true
  | .peerStopTransfer _ => true
  | _ => false

theorem not_holds_of_handles {t : Task} (h : t.handlesToken = false) (k u : String)
    (token : TokenId) : ¬ (Activity.call t).Holds k u token := by
  cases t with
  | sendTransferRequest w pc => cases h
  | peerStopTransfer pc => cases h
  | processTransferOpRequest _ | startTransfer _ | cancelTransferOpRequest _ | acceptTransfer _ _
  | stopTransfer _ _ _ | cancelTransfer _ _ | sendStream _ | receiveStream _ => exact id

/-- Calls stay what they are, and spawn streaming tasks only. -/
theorem step_handlesToken {t t' : Task} {spawned : List Task}
    (h : t.step i.host ans = some (host, t', spawned)) (hnot : t.handlesToken = false) :
    ∀ u ∈ t' :: spawned, u.handlesToken = false := by
  cases task_move h with
  | sendTransferRequest w pc pc₁ _ => cases hnot
  | peerStopTransfer pc pc₁ _ => cases hnot
  | startTransfer pc pc₁ _ => cases pc₁ <;> simp [Task.handlesToken, WarpServer.StartPc.spawned]
  | acceptTransfer w pc pc₁ _ => cases pc₁ <;> simp [Task.handlesToken, Worker.AcceptPc.spawned]
  | processTransferOpRequest _ _ _ | cancelTransferOpRequest _ _ _ | stopTransfer _ _ _ _ _
  | cancelTransfer _ _ _ _ | sendStream _ _ _ | receiveStream _ _ _ => simp [Task.handlesToken]

theorem call_tokenStep {t t' : Task} {spawned : List Task} (hi : i.Ordered)
    (hsound : (Activity.call t).Sound i) (h : t.step i.host ans = some (host, t', spawned)) :
    TokenStep i (.call t) { i with host := host } (.call t' :: spawned.map .call) := by
  by_cases hhandles : t.handlesToken = true
  · cases task_move h with
    | sendTransferRequest w pc pc₁ hstep => exact sendRequest_tokenStep hsound hstep
    | peerStopTransfer pc pc₁ hstep => exact stop_tokenStep hi hstep
    | processTransferOpRequest _ _ _ | startTransfer _ _ _ | cancelTransferOpRequest _ _ _
    | acceptTransfer _ _ _ _ | stopTransfer _ _ _ _ _ | cancelTransfer _ _ _ _ | sendStream _ _ _
    | receiveStream _ _ _ => cases hhandles
  · have hnot : t.handlesToken = false := by simpa using hhandles
    have hholds : ∀ b ∈ Activity.call t' :: spawned.map Activity.call,
        ∀ k u token, ¬ b.Holds k u token := by
      intro b hb k u token
      rw [← List.map_cons] at hb
      obtain ⟨t'', ht'', rfl⟩ := List.mem_map.1 hb
      exact not_holds_of_handles (step_handlesToken h hnot t'' ht'') k u token
    by_cases hstores : t.stores = true
    · cases task_move h with
      | processTransferOpRequest pc pc₁ hstep =>
        exact process_tokenStep (WarpServer.processTransferOpRequest_move hstep)
      | sendTransferRequest w pc pc₁ _ => cases hnot
      | peerStopTransfer _ _ _ | startTransfer _ _ _ | cancelTransferOpRequest _ _ _
      | acceptTransfer _ _ _ _ | stopTransfer _ _ _ _ _ | cancelTransfer _ _ _ _
      | sendStream _ _ _ | receiveStream _ _ _ => cases hstores
    · have htouches := call_touchesUp h (by simpa using hstores)
      exact .retouched htouches.records htouches.issued hholds

/-! ### Everything else -/

theorem start_not_holds (w : Worker) (op : WorkerOp) (k u : String) (token : TokenId) :
    ¬ (op.start w).Holds k u token := by
  cases op with
  | sendTransferRequest _ | acceptTransfer _ _ | stopTransfer _ _ | cancelTransfer _
  | sendMessage _ => exact id

/-- A record that is inserted is empty. -/
theorem admission_tokenStep {s : RegistrationServer} {t t' : Admission} {g : Registry}
    {ans : AdmitAnswer} {spawned : List Admission} (hsound : (Activity.admission t).Sound i)
    (h : t.step s i.registry ans = some (g, t', spawned)) :
    TokenStep i (.admission t) (i.store g t.makes) [.admission t'] := by
  have hholds : ∀ b ∈ [Activity.admission t'], ∀ k u token, ¬ b.Holds k u token :=
    none_holds fun _ _ _ hheld => hheld
  cases (admission_move h).1 with
  | same g' _ hsame => exact .retouched hsame.retouched (le_refl _) hholds
  | insert r hr =>
    refine .unheld (le_refl _) (fun k u token hown => .inl ?_) hholds
    obtain ⟨r', t', hr', ht', huuid, htoken⟩ := hown
    rcases remote_of_inserted hsound hr hr' with hempty | hbefore
    · rw [hempty] at ht'
      cases ht'
    · exact ⟨r', t', hbefore, ht', huuid, htoken⟩

theorem activity_tokenStep {s : Settings} {a a' : Activity} {spawned : List Activity}
    (hi : i.Ordered) (hsound : a.Sound i) (h : ActivityMove s i a i' a' spawned) :
    TokenStep i a i' (a' :: spawned) := by
  cases h with
  | admission t t' g ans spawned hstep => exact admission_tokenStep hsound hstep
  | call t t' host ans spawned hstep => exact call_tokenStep hi hsound hstep
  | sendTextMessage pc pc' host hmove =>
    have hholds : ∀ b ∈ [Activity.sendTextMessage pc'], ∀ k u token, ¬ b.Holds k u token :=
      none_holds fun _ _ _ hheld => hheld
    cases hmove with
    | refused req status => exact .retouched (.refl _) (le_refl _) hholds
    | added req id now result _ =>
      exact .unheld (le_refl _)
        (fun k u token hown => .inl (owns_addMessage (i := i) (fun _ => rfl) hown)) hholds
  | sendMessage w pc pc' host hmove =>
    have hholds : ∀ b ∈ [Activity.sendMessage w pc'], ∀ k u token, ¬ b.Holds k u token :=
      none_holds fun _ _ _ hheld => hheld
    cases hmove with
    | refused text => exact .retouched (.refl _) (le_refl _) hholds
    | created text id now req _ => exact .retouched (.refl _) (le_refl _) hholds
    | answered msg req => exact .retouched (.refl _) (le_refl _) hholds
    | failed msg req status => exact .retouched (.refl _) (le_refl _) hholds
    | added msg result =>
      exact .unheld (le_refl _)
        (fun k u token hown => .inl (owns_addMessage (i := i) (fun _ => rfl) hown)) hholds
  | getWorker uuid op w _ =>
    exact .retouched (.refl _) (le_refl _) (none_holds (start_not_holds w op))
  | missing uuid op =>
    exact .retouched (.refl _) (le_refl _) (none_holds fun _ _ _ hheld => hheld)

end steps

/-! ## Section 3: Every run -/

section runs

variable {s : Settings} {p p' : Running} {l : RunningLabel}

/-- What is known after a step, in terms of what was known before. -/
theorem tokened_of_known (h : p.Tokened) (k₀ u₀ : String) (n : Nat)
    (hissued : p.shared.host.tokens.issued ≤ p'.shared.host.tokens.issued)
    (hknown : ∀ k u token, p'.Knows k u token → p.Knows k u token ∨
      (k = k₀ ∧ u = u₀ ∧ token = [n, p.shared.host.tokens.issued] ∧
        p.shared.host.tokens.issued < p'.shared.host.tokens.issued)) : p'.Tokened where
  issued k u token hafter := by
    rcases hknown k u token hafter with hbefore | ⟨_, _, rfl, hlt⟩
    · obtain ⟨m, c, rfl, hc⟩ := h.issued k u token hbefore
      exact ⟨m, c, rfl, hc.trans_le hissued⟩
    · exact ⟨n, _, rfl, hlt⟩
  owner k u k' u' token hafter hafter' := by
    -- the new token is none of the old ones
    have hfresh : ∀ k u, ¬ p.Knows k u [n, p.shared.host.tokens.issued] := by
      intro k u hbefore
      obtain ⟨m, c, heq, hc⟩ := h.issued k u _ hbefore
      have hnum : p.shared.host.tokens.issued = c := by simpa using congrArg List.getLast? heq
      omega
    rcases hknown k u token hafter with hbefore | ⟨rfl, rfl, rfl, _⟩
    · rcases hknown k' u' token hafter' with hbefore' | ⟨_, _, rfl, _⟩
      · exact h.owner k u k' u' token hbefore hbefore'
      · exact absurd hbefore (hfresh k u)
    · rcases hknown k' u' _ hafter' with hbefore' | ⟨rfl, rfl, _, _⟩
      · exact absurd hbefore' (hfresh k' u')
      · exact ⟨rfl, rfl⟩

theorem tokened_step (hp : p.Sound) (h : p.Tokened)
    (hstep : (activities s).poolStep p l = some p') : p'.Tokened := by
  cases l with
  | run j ans =>
    obtain ⟨a, i', a', spawned, ha, hadvance, rfl⟩ := Tasking.run_cases hstep
    have hmem := List.mem_of_getElem? ha
    obtain ⟨hissued, k₀, u₀, n, hknown⟩ :=
      activity_tokenStep hp.ordered (hp.sound a hmem) (activity_move hadvance)
    refine tokened_of_known h k₀ u₀ n hissued fun k u token hafter => ?_
    have hcases : p.Knows k u token ∨
        (i'.Owns k u token ∨ ∃ b ∈ a' :: spawned, b.Holds k u token) := by
      rcases hafter with hown | ⟨b, hb, hheld⟩
      · exact .inr (.inl hown)
      · have hset : ∀ b ∈ p.tasks.set j a' ++ spawned, b ∈ p.tasks ∨ b ∈ a' :: spawned :=
          Tasking.forall_run (fun b hb => hb) (fun b hb => .inl hb) (.inr List.mem_cons_self)
            fun b hb => .inr (List.mem_cons_of_mem _ hb)
        rcases hset b hb with hold | hnew
        · exact .inl (.inr ⟨b, hold, hheld⟩)
        · exact .inr (.inr ⟨b, hnew, hheld⟩)
    rcases hcases with hbefore | hnew
    · exact .inl hbefore
    · rcases hknown k u token hnew with hown | hheld | hdrawn
      · exact .inl (.inl hown)
      · exact .inl (.inr ⟨a, hmem, hheld⟩)
      · exact .inr hdrawn
  | enter a =>
    obtain ⟨hnew, rfl⟩ := Tasking.enter_cases hstep
    refine tokened_of_known h "" "" 0 (le_refl _) fun k u token hafter => .inl ?_
    rcases hafter with hown | ⟨b, hb, hheld⟩
    · exact .inl hown
    · rcases List.mem_append.1 hb with hold | hself
      · exact .inr ⟨b, hold, hheld⟩
      · obtain rfl := List.mem_singleton.1 hself
        -- whoever enters holds nothing
        unfold Activity.Holds at hheld
        split at hheld
        · cases hnew
        · cases hnew
        · exact hheld.elim
  | env e =>
    cases hstep
    have hissued : (p.shared.change e).host.tokens.issued = p.shared.host.tokens.issued := by
      cases e <;> rfl
    refine tokened_of_known h "" "" 0 hissued.ge fun k u token hafter => .inl ?_
    rcases hafter with hown | hheld
    · exact .inl (owns_of_retouched (retouched_change p.shared e) hown)
    · exact .inr hheld

theorem tokened_new (checks : Bool) : (Running.new checks).Tokened := by
  have hnone : ∀ k u token, ¬ (Running.new checks).Knows k u token := by
    rintro k u token (⟨r, t, hr, _⟩ | ⟨b, hb, _⟩)
    · cases hr
    · cases hb
  exact ⟨fun k u token h => absurd h (hnone k u token),
    fun k u _ _ token h => absurd h (hnone k u token)⟩

/-- In every state of every run, a token belongs to one transfer. -/
theorem tokened_of_reachable {checks : Bool} {ls : List RunningLabel}
    (hrun : (activities s).pool.exec (Running.new checks) ls = some p) : p.Sound ∧ p.Tokened :=
  Machine.exec_invariant (activities s).pool
    (I := fun p : Running => Running.Sound p ∧ Running.Tokened p)
    (fun _ _ _ hI hstep => ⟨sound_step hI.1 hstep, tokened_step hI.1 hI.2 hstep⟩)
    ⟨sound_new checks, tokened_new checks⟩ hrun

end runs

end Warpinator
