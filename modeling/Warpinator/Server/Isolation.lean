import Warpinator.Server.Ordering

/-! # Isolation between Remotes

    The handlers look a transfer up under the `ident` of the request and then
    work under the `remote_uuid` that the transfer carries.  So a call of one
    remote stays away from the others only as long as every transfer is stored
    under its own `remote_uuid`, with a token of the right worker.

    `isolated_of_reachable`: this is so in every state of every run. -/

namespace Warpinator

/-! ## Section 1: Writes under one remote -/

/-- The records of the remotes other than `k` stay as they are, and so do the
    tokens of their transfers. -/
structure Instance.Spares (i : Instance) (k : String) (i' : Instance) : Prop where
  remote : ∀ k', k' ≠ k → i'.remote k' = i.remote k'
  tokens : ∀ k' r t sourcePaths token, k' ≠ k → i.remote k' = some r → t ∈ r.transfers →
    t.kind = .outgoing sourcePaths token →
    i'.host.tokens.isCancelled token = i.host.tokens.isCancelled token

section sparing

variable {i : Instance} {k : String} {host : Host}

theorem spares_of_manager {i' : Instance} (hmanager : i'.host.manager = i.host.manager)
    (htokens : i'.host.tokens = i.host.tokens) : i.Spares k i' where
  remote k' _ := by
    show i'.host.manager.remote k' = i.host.manager.remote k'
    rw [hmanager]
  tokens _ _ _ _ _ _ _ _ _ := by rw [htokens]

/-- A write under `k`. -/
theorem spares_of_write {i' : Instance} {g : Remote → Remote}
    (hwrite : ∀ k', i'.remote k' = if k' = k then (i.remote k).map g else i.remote k')
    (htokens : i'.host.tokens = i.host.tokens) : i.Spares k i' where
  remote k' hne := by rw [hwrite, if_neg hne]
  tokens _ _ _ _ _ _ _ _ _ := by rw [htokens]

theorem spares_update (queued : Nat) (u : String) (f : TransferUpdate) :
    i.Spares k { i with host := (i.host.updateTransfer queued k u f).2 } :=
  spares_of_write (fun k' => RemoteManager.remote_updateTransfer i.host.manager k k' u queued f) rfl

/-- The token of a transfer of `k` is above no token of another remote. -/
theorem spares_cancel (hi : i.Ordered) {token : TokenId} (htoken : i.Belongs k token) :
    i.Spares k { i with host := i.host.cancel token } where
  remote _ _ := rfl
  tokens k' r t sourcePaths token' hne hr ht hkind := by
    have hother : i.Belongs k' token' := (hi.transfers k' r t hr ht).2 sourcePaths token' hkind
    show (i.host.tokens.cancel token).isCancelled token' = i.host.tokens.isCancelled token'
    rw [isCancelled_cancel, htoken.not_prefix hother hne, Bool.false_or]

theorem spares_progress (queued : Nat) (u : String) (before after : List Progress) :
    i.Spares k { i with host := i.host.recordProgress queued k u before after } := by
  refine ⟨fun k' hne => ?_, fun _ _ _ _ _ _ _ _ _ => by rw [recordProgress_tokens]⟩
  show (i.host.recordProgress queued k u before after).manager.remote k' = i.host.manager.remote k'
  unfold Host.recordProgress
  generalize i.host = host
  induction after.drop before.length generalizing host with
  | nil => rfl
  | cons p ps ih =>
    rw [List.foldl_cons, ih]
    exact (RemoteManager.remote_updateTransfer host.manager k k' u queued (.progress p)).trans
      (if_neg hne)

/-- A streaming task works on the record of its own remote. -/
theorem sendStream_spares {task task' : SendTask} {ans : Answer}
    (h : task.step i.host ans = some (host, task')) :
    i.Spares task.remoteUuid { i with host := host } := by
  cases SendTask.step_move h with
  | inner l queued sender _ _ _ => exact spares_progress queued _ _ _
  | decide queued result _ _ => exact spares_of_manager rfl rfl
  | close queued finalState _ => exact spares_update queued _ _
  | leave queued _ => exact spares_of_manager rfl rfl

end sparing

/-! ## Section 2: The calls of one remote -/

/-- A transfer or message call with `ident = k` that has not begun. -/
def Activity.AddressedTo (k : String) : Activity → Prop
  | .call (.processTransferOpRequest (.add req)) => ∀ info ∈ req.info, info.ident = k
  | .call (.startTransfer (.lookup req)) => req.ident = k
  | .call (.peerStopTransfer (.lookup req)) => ∀ info ∈ req.info, info.ident = k
  | .call (.cancelTransferOpRequest (.lookup req)) => req.ident = k
  | .sendTextMessage (.add req) => req.ident = k
  | _ => False

/-- A call of the remote `k` at any of its steps: what it holds is of that
    remote. -/
def Activity.On (i : Instance) (k : String) : Activity → Prop
  | .call (.processTransferOpRequest (.add req)) => ∀ info ∈ req.info, info.ident = k
  | .call (.processTransferOpRequest (.returned _)) => True
  | .call (.startTransfer (.lookup req)) => req.ident = k
  | .call (.startTransfer (.update transfer _ _)) => transfer.remoteUuid = k
  | .call (.startTransfer _) => True
  | .call (.peerStopTransfer (.lookup req)) => ∀ info ∈ req.info, info.ident = k
  | .call (.peerStopTransfer (.cancel transfer token _)) =>
    transfer.remoteUuid = k ∧ i.Belongs k token
  | .call (.peerStopTransfer (.update transfer _)) => transfer.remoteUuid = k
  | .call (.peerStopTransfer (.returned _)) => True
  | .call (.cancelTransferOpRequest (.lookup req)) => req.ident = k
  | .call (.cancelTransferOpRequest (.update transfer _)) => transfer.remoteUuid = k
  | .call (.cancelTransferOpRequest (.returned _)) => True
  | .sendTextMessage (.add req) => req.ident = k
  | .sendTextMessage (.returned _) => True
  | _ => False

theorem Activity.AddressedTo.on {k : String} {t : Activity} (h : t.AddressedTo k) (i : Instance) :
    t.On i k := by
  unfold Activity.AddressedTo at h
  split at h
  · exact h
  · exact h
  · exact h
  · exact h
  · exact h
  · exact h.elim

theorem Activity.On.mono {i i' : Instance} {k : String} {t : Activity} (h : t.On i k)
    (hgrows : i.Grows i') : t.On i' k := by
  unfold Activity.On at h ⊢
  split at h
  all_goals first
    | exact h
    | exact ⟨h.1, h.2.mono hgrows⟩

section serving

variable {i : Instance} {k : String} {host : Host}

/-- A transfer that is found under `k` is one of `k`. -/
theorem placed_of_found (hi : i.Ordered) {id : Nat} {t : Transfer}
    (h : i.host.transferByProtocolId k id = some t) : i.Placed k t := by
  obtain ⟨r, hr, hfind⟩ := Option.bind_eq_some_iff.1 h
  exact hi.transfers k r t hr (List.mem_of_find?_eq_some hfind)

/-- The token that `stop_transfer` cancels is the one of the transfer. -/
theorem stopTransfer_token {req : StopInfo} {transfer : Transfer} {token : TokenId}
    {newState : TransferState} {ans : Answer} {host' : Host}
    (h : WarpServer.stopTransfer host (.lookup req) ans
      = some (host', .cancel transfer token newState)) :
    ∃ sourcePaths, transfer.kind = .outgoing sourcePaths token := by
  cases ans with
  | go queued =>
    dsimp only [WarpServer.stopTransfer] at h
    split at h
    · cases h
    · split at h
      · cases h
      · split at h
        · next sourcePaths token' hkind =>
          cases h
          exact ⟨sourcePaths, hkind⟩
        · cases h
  | noClient | fresh _ _ | processed _ | reply _ | send _ _ | receive _ _ _ => cases h

/-- A step of a call of `k`: it spares the other remotes, and what it goes on with
    or spawns is of `k` again. -/
structure Activity.StaysOn (i : Instance) (k : String) (i' : Instance) (t' : Activity)
    (spawned : List Activity) : Prop where
  spares : i.Spares k i'
  stays : t'.On i' k
  spawned : ∀ u ∈ spawned, ∃ task, u = .call (.sendStream task) ∧ task.remoteUuid = k

theorem Activity.StaysOn.alone {i' : Instance} {t' : Activity} (h : i.Spares k i')
    (hstays : t'.On i' k) : Activity.StaysOn i k i' t' [] :=
  ⟨h, hstays, fun u hu => by cases hu⟩

/-- A new transfer is stored under the `ident` of its request. -/
theorem processTransferOpRequest_ident {req : TransferOpRequest} {ans : Answer} {host' : Host}
    {pc' : WarpServer.ProcessPc}
    (h : WarpServer.processTransferOpRequest host (.add req) ans = some (host', pc')) :
    (∃ result, pc' = .returned result) ∧ (host' = host ∨ ∃ info ∈ req.info, ∃ id now,
      host' = ((host.issue id).addTransfer info.ident (.ofRequest id now info req)).2) := by
  cases ans with
  | go queued =>
    dsimp only [WarpServer.processTransferOpRequest] at h
    split at h
    · cases h
      exact ⟨⟨_, rfl⟩, .inl rfl⟩
    · cases h
  | fresh id now =>
    dsimp only [WarpServer.processTransferOpRequest] at h
    split at h
    · cases h
    · next info hinfo =>
      split at h
      · cases h
      · split at h
        · next host₁ heq =>
          cases h
          exact ⟨⟨_, rfl⟩, .inr ⟨info, hinfo, id, now, by rw [heq]⟩⟩
        · next host₁ heq =>
          cases h
          exact ⟨⟨_, rfl⟩, .inr ⟨info, hinfo, id, now, by rw [heq]⟩⟩
  | noClient | processed _ | reply _ | send _ _ | receive _ _ _ => cases h

theorem process_staysOn {pc pc' : WarpServer.ProcessPc} {ans : Answer}
    (hon : (Activity.call (.processTransferOpRequest pc)).On i k)
    (h : WarpServer.processTransferOpRequest i.host pc ans = some (host, pc')) :
    Activity.StaysOn i k { i with host := host } (.call (.processTransferOpRequest pc')) [] := by
  cases pc with
  | add req =>
    obtain ⟨⟨result, rfl⟩, hhost⟩ := processTransferOpRequest_ident h
    refine .alone ?_ trivial
    rcases hhost with rfl | ⟨info, hinfo, id, now, rfl⟩
    · exact spares_of_manager rfl rfl
    · have hident : info.ident = k := hon info hinfo
      rw [hident]
      exact spares_of_write (fun k' => RemoteManager.remote_addTransfer i.host.manager k k' _) rfl
  | returned result => cases ans <;> cases h

theorem start_staysOn {pc pc' : WarpServer.StartPc} (hi : i.Ordered)
    (hon : (Activity.call (.startTransfer pc)).On i k)
    (h : WarpServer.StartMove i.host pc host pc') :
    Activity.StaysOn i k { i with host := host } (.call (.startTransfer pc'))
      (pc'.spawned.map .call) := by
  cases h with
  | refused req status _ => exact .alone (spares_of_manager rfl rfl) trivial
  | found req transfer sourcePaths token hfound =>
    have hident : req.ident = k := hon
    have hplaced := placed_of_found hi (hident ▸ hfound)
    exact .alone (spares_of_manager rfl rfl) hplaced.1
  | lost transfer sourcePaths token status _ => exact .alone (spares_of_manager rfl rfl) trivial
  | started transfer sourcePaths token queued sources _ =>
    obtain rfl : transfer.remoteUuid = k := hon
    refine ⟨spares_update queued _ _, trivial, fun u hu => ?_⟩
    exact ⟨_, List.mem_singleton.1 hu, rfl⟩

theorem stop_staysOn {pc pc' : WarpServer.StopPc} {ans : Answer} (hi : i.Ordered)
    (hon : (Activity.call (.peerStopTransfer pc)).On i k)
    (h : WarpServer.stopTransfer i.host pc ans = some (host, pc')) :
    Activity.StaysOn i k { i with host := host } (.call (.peerStopTransfer pc')) [] := by
  have htoken := @stopTransfer_token i.host
  cases WarpServer.stopTransfer_move h with
  | refused req status _ => exact .alone (spares_of_manager rfl rfl) trivial
  | foundOutgoing req info transfer token hinfo hfound =>
    have hident : info.ident = k := hon info hinfo
    have hplaced := placed_of_found hi (hident ▸ hfound)
    obtain ⟨sourcePaths, hkind⟩ := htoken h
    exact .alone (spares_of_manager rfl rfl) ⟨hplaced.1, hplaced.2 sourcePaths token hkind⟩
  | foundIncoming req info transfer hinfo hfound =>
    have hident : info.ident = k := hon info hinfo
    have hplaced := placed_of_found hi (hident ▸ hfound)
    exact .alone (spares_of_manager rfl rfl) hplaced.1
  | cancelled transfer token newState => exact .alone (spares_cancel hi hon.2) hon.1
  | updated transfer newState queued =>
    obtain rfl : transfer.remoteUuid = k := hon
    exact .alone (spares_update queued _ _) trivial

theorem cancel_staysOn {pc pc' : WarpServer.CancelPc} (hi : i.Ordered)
    (hon : (Activity.call (.cancelTransferOpRequest pc)).On i k)
    (h : WarpServer.CancelMove i.host pc host pc') :
    Activity.StaysOn i k { i with host := host } (.call (.cancelTransferOpRequest pc')) [] := by
  cases h with
  | refused req status _ => exact .alone (spares_of_manager rfl rfl) trivial
  | found req transfer hfound _ =>
    have hident : req.ident = k := hon
    have hplaced := placed_of_found hi (hident ▸ hfound)
    exact .alone (spares_of_manager rfl rfl) hplaced.1
  | updated transfer newState queued =>
    obtain rfl : transfer.remoteUuid = k := hon
    exact .alone (spares_update queued _ _) trivial

theorem text_staysOn {pc pc' : WarpServer.TextPc} (hon : (Activity.sendTextMessage pc).On i k)
    (h : WarpServer.TextMove i.host pc host pc') :
    Activity.StaysOn i k { i with host := host } (.sendTextMessage pc') [] := by
  cases h with
  | refused req status => exact .alone (spares_of_manager rfl rfl) trivial
  | added req id now result _ =>
    obtain rfl : req.ident = k := hon
    refine .alone ?_ trivial
    exact spares_of_write (fun k' => RemoteManager.remote_addMessage i.host.manager _ k' _) rfl

theorem activity_staysOn {s : Settings} {i' : Instance} {t t' : Activity} {spawned : List Activity}
    (hi : i.Ordered) (hon : t.On i k) (h : ActivityMove s i t i' t' spawned) :
    Activity.StaysOn i k i' t' spawned := by
  cases h with
  | call t t' host ans spawned hstep =>
    cases task_move hstep with
    | processTransferOpRequest pc pc₁ hcall => exact process_staysOn hon hcall
    | startTransfer pc pc₁ hcall => exact start_staysOn hi hon (WarpServer.startTransfer_move hcall)
    | peerStopTransfer pc pc₁ hcall => exact stop_staysOn hi hon hcall
    | cancelTransferOpRequest pc pc₁ hcall =>
      exact cancel_staysOn hi hon (WarpServer.cancelTransferOpRequest_move hcall)
    | sendTransferRequest _ _ _ _ | acceptTransfer _ _ _ _ | stopTransfer _ _ _ _ _
    | cancelTransfer _ _ _ _ | sendStream _ _ _ | receiveStream _ _ _ => exact hon.elim
  | sendTextMessage pc pc' host hmove => exact text_staysOn hon hmove
  | admission _ _ _ _ _ _ | sendMessage _ _ _ _ _ | getWorker _ _ _ _ | missing _ _ =>
    exact hon.elim

end serving

/-! ## Section 3: Isolation -/

/-- A step of the activity `n` spares the remotes other than `k`, and the tasks
    that it spawns are streaming tasks of `k`. -/
def Running.KeepsTo (s : Settings) (k : String) (n : Nat) (p : Running) (l : RunningLabel) : Prop :=
  ∀ ans t i' t' spawned, l = .run n ans → p.tasks[n]? = some t →
    t.step s p.shared ans = some (i', t', spawned) →
    p.shared.Spares k i' ∧
      ∀ u ∈ spawned, ∃ task, u = .call (.sendStream task) ∧ task.remoteUuid = k

/-- The store is well formed; a call of `k` that enters now keeps to `k`, whatever
    happens around it; and a streaming task keeps to the remote of its transfer. -/
structure Running.Isolated (s : Settings) (p : Running) : Prop where
  wellFormed : p.shared.WellFormed
  calls : ∀ k call ls, call.AddressedTo k →
    (activities s).pool.Along (KeepsTo s k p.tasks.length)
      { p with tasks := p.tasks ++ [call] } ls
  streams : ∀ task ans host task', SendTask.step p.shared.host task ans = some (host, task') →
    p.shared.Spares task.remoteUuid { p.shared with host := host }

section isolation

variable {s : Settings} {p p' : Running} {l : RunningLabel} {k : String} {n : Nat}

/-- The activity `n` is a call of `k`. -/
def Running.Serves (p : Running) (k : String) (n : Nat) : Prop :=
  ∃ t, p.tasks[n]? = some t ∧ t.On p.shared k

theorem serves_step (hp : p.Sound) (h : p.Serves k n)
    (hstep : (activities s).poolStep p l = some p') : p'.Serves k n := by
  obtain ⟨t, ht, hon⟩ := h
  have hlt := (List.getElem?_eq_some_iff.1 ht).1
  cases l with
  | run j ans =>
    obtain ⟨u, i', u', spawned, hu, hadvance, rfl⟩ := Tasking.run_cases hstep
    have hmove := activity_move hadvance
    -- the activity itself stays with its remote; a step of another one leaves it in place
    by_cases hj : j = n
    · subst hj
      obtain rfl : t = u := Option.some.inj (ht.symm.trans hu)
      refine ⟨u', ?_, (activity_staysOn hp.ordered hon hmove).stays⟩
      show (p.tasks.set j u' ++ spawned)[j]? = some u'
      rw [List.getElem?_append_left (by simpa using hlt)]
      simp [hlt]
    · have hgrows := (activity_keepsOrder hp.ordered hp.drawn_stored
        (hp.sound u (List.mem_of_getElem? hu)) hmove).grows
      refine ⟨t, ?_, hon.mono hgrows⟩
      show (p.tasks.set j u' ++ spawned)[n]? = some t
      rw [List.getElem?_append_left (by simpa using hlt), List.getElem?_set_ne hj]
      exact ht
  | enter u =>
    obtain ⟨_, rfl⟩ := Tasking.enter_cases hstep
    refine ⟨t, ?_, hon⟩
    show (p.tasks ++ [u])[n]? = some t
    rw [List.getElem?_append_left hlt]
    exact ht
  | env e =>
    cases hstep
    exact ⟨t, ht, hon.mono (grows_change p.shared e)⟩

theorem keepsTo_of_serves (hp : p.Sound) (h : p.Serves k n) (l : RunningLabel) :
    p.KeepsTo s k n l := by
  intro ans t i' t' spawned _ ht hadvance
  obtain ⟨u, hu, hon⟩ := h
  obtain rfl : u = t := Option.some.inj (hu.symm.trans ht)
  have hstays := activity_staysOn hp.ordered hon (activity_move hadvance)
  exact ⟨hstays.spares, hstays.spawned⟩

theorem isNew_of_addressedTo {t : Activity} (h : t.AddressedTo k) : t.isNew = true := by
  unfold Activity.AddressedTo at h
  split at h
  · rfl
  · rfl
  · rfl
  · rfl
  · rfl
  · exact h.elim

theorem isolated_of_reachable {checks : Bool} {ls : List RunningLabel}
    (hrun : (activities s).pool.exec (Running.new checks) ls = some p) : p.Isolated s := by
  have hp : p.Sound := sound_of_reachable hrun
  refine ⟨hp.wellFormed, fun k call ls hcall => ?_,
    fun task ans host task' h => sendStream_spares h⟩
  have hentered : (activities s).poolStep p (.enter call)
      = some { p with tasks := p.tasks ++ [call] } :=
    if_pos (isNew_of_addressedTo hcall)
  -- the invariant that goes along: everything is sound and the call is of `k`
  refine Machine.along_of_invariant _
    (I := fun q : Running => q.Sound ∧ q.Serves k p.tasks.length) ?_ ?_ ?_ ls
  · rintro q l q' ⟨hq, hserves⟩ hstep
    exact ⟨sound_step hq hstep, serves_step hq hserves hstep⟩
  · rintro q l ⟨hq, hserves⟩
    exact keepsTo_of_serves hq hserves l
  · refine ⟨sound_step hp hentered, call, ?_, hcall.on _⟩
    show (p.tasks ++ [call])[p.tasks.length]? = some call
    simp

end isolation

def settingsOfA : Settings where
  registration := serverOfA
  serverFullname := "a"
  features := messageSupport

/-- The hosts `b` and `c` register themselves and are each sent a transfer. -/
def twoRemotes : List RunningLabel :=
  [.enter (.admission (.register (.lookup registrationOfB))),
    .run 0 (.admission .go), .run 0 (.admission .go), .run 0 (.admission .go),
    .enter (.admission (.register (.lookup { registrationOfB with serviceId := "c" }))),
    .run 1 (.admission .go), .run 1 (.admission .go), .run 1 (.admission .go),
    .enter (.getWorker "b" (.sendTransferRequest [])),
    .run 2 (.call (.go 0)), .run 2 (.call (.fresh ⟨0, 1⟩ 0)), .run 2 (.call (.go 0)),
    .enter (.getWorker "c" (.sendTransferRequest [])),
    .run 3 (.call (.go 0)), .run 3 (.call (.fresh ⟨0, 2⟩ 0)), .run 3 (.call (.go 0))]

theorem isolated_twoRemotes :
    ∃ p, (activities settingsOfA).pool.exec (Running.new false) twoRemotes = some p ∧
      p.shared.registry.transferUuids "b" = some [Uuid.toString ⟨0, 1⟩] ∧
      p.shared.registry.transferUuids "c" = some [Uuid.toString ⟨0, 2⟩] ∧
      Running.Isolated settingsOfA p := by
  have hrun : (activities settingsOfA).pool.exec (Running.new false) twoRemotes = some _ := rfl
  exact ⟨_, hrun, rfl, rfl, isolated_of_reachable hrun⟩

end Warpinator
