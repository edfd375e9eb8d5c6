import Warpinator.Server.Isolation
import Warpinator.Server.Subscriber

/-! # Convergence of Copies

    A dropped update reaches a subscriber only together with a later one, or
    with an event about the transfer that it has yet to hydrate.

    Progress is always followed by the closing update of its task.  What may be
    lost for good is the last update itself: a transfer that is closed when it
    has been stopped or has failed already keeps its discriminant.

    `converges_of_speaksOut`: if no update is lost in this way, the copies agree
    with the store whenever the queue is empty and no streaming task runs. -/

namespace Warpinator

/-! ## Section 1: Updates that a subscriber may miss -/

namespace Observed

/-- An event that names the transfer is still to be hydrated. -/
def Unread (o : Observed) (k u : String) : Prop :=
  ∃ event ∈ o.current.toList ++ o.queue, event.transfer = some (k, u)

/-- The subscriber's copy shows what `t` does. -/
def Shows (o : Observed) (k u : String) (t : Transfer) : Prop :=
  (o.copies k u).map Transfer.shown = some t.shown

/-- A streaming task other than activity `j` will close the transfer. -/
def Owed (o : Observed) (j : Nat) (k u : String) : Prop :=
  ∃ a ∈ o.running.tasks.eraseIdx j, a.streamsTo k u = true

/-- The subscriber gets to see `t` without a further event from activity `j`. -/
def Heeds (o : Observed) (j : Nat) (k u : String) (t : Transfer) : Prop :=
  o.Unread k u ∨ o.Shows k u t ∨ o.Owed j k u

instance (o : Observed) (j : Nat) (k u : String) (t : Transfer) : Decidable (o.Heeds j k u t) :=
  inferInstanceAs (Decidable ((∃ event ∈ _, _) ∨ _ = _ ∨ ∃ a ∈ _, _))

/-- No update but progress is lost on the subscriber, and no task that owes one
    panics. -/
def SpeaksOut (o : Observed) : ObservedLabel → Prop
  | .step (.run j ans) => ∀ a ∈ o.running.tasks[j]?,
      (∀ e ∈ a.updates, ∀ queued ∈ queuedOf (.run j ans), ∀ t ∈ o.manager.transfer e.1 e.2.1,
        e.2.2.Published queued t ∨ o.Heeds j e.1 e.2.1 (e.2.2.apply t)) ∧
      ∀ e ∈ a.panics o.running.shared ans, ∀ t ∈ o.manager.transfer e.1 e.2, o.Heeds j e.1 e.2 t
  | _ => True

instance (o : Observed) : DecidablePred o.SpeaksOut
  | .step (.run j ans) => inferInstanceAs (Decidable (∀ a ∈ o.running.tasks[j]?,
      (∀ e ∈ a.updates, ∀ queued ∈ queuedOf (.run j ans), ∀ t ∈ o.manager.transfer e.1 e.2.1,
        e.2.2.Published queued t ∨ o.Heeds j e.1 e.2.1 (e.2.2.apply t)) ∧
      ∀ e ∈ a.panics o.running.shared ans, ∀ t ∈ o.manager.transfer e.1 e.2, o.Heeds j e.1 e.2 t))
  | .step (.enter _) | .step (.env _) | .recv | .hydrate => .isTrue trivial

/-- Every event is hydrated, and no streaming task has a transfer to close. -/
def Quiet (o : Observed) : Prop :=
  o.current = none ∧ o.queue = [] ∧ ∀ a ∈ o.running.tasks, a.isStreaming = false

instance (o : Observed) : Decidable o.Quiet :=
  inferInstanceAs (Decidable (_ ∧ _ = [] ∧ ∀ a ∈ _, _))

/-- The copy of every transfer agrees with the transfer. -/
def Agrees (o : Observed) : Prop := ∀ k u t, o.manager.transfer k u = some t → o.Shows k u t

end Observed

/-! ## Section 2: Every copy is on its way -/

namespace Observed

/-- What the subscriber knows of a transfer, or will learn. -/
def Tracked (o : Observed) (k u : String) (t : Transfer) : Prop :=
  o.Unread k u ∨ o.Shows k u t ∨ ∃ a ∈ o.running.tasks, a.streamsTo k u = true

structure Sound (o : Observed) : Prop where
  running : o.running.Sound
  gone : o.running.Gone
  received : o.received ≤ o.manager.events.length
  current : ∀ event ∈ o.current, event ∈ o.manager.events
  tracked : ∀ k u t, o.manager.transfer k u = some t → o.Tracked k u t

variable {s : Settings} {o : Observed}

theorem queue_append {running : Running} {es : List WarpEvent}
    (hreceived : o.received ≤ o.manager.events.length)
    (hevents : running.shared.host.manager.events = o.manager.events ++ es) :
    queue { o with running := running } = o.queue ++ es := by
  show running.shared.host.manager.events.drop o.received = _
  rw [hevents, List.drop_append_of_le_length hreceived]
  rfl

theorem Unread.append {running : Running} {es : List WarpEvent} {k u : String}
    (hreceived : o.received ≤ o.manager.events.length)
    (hevents : running.shared.host.manager.events = o.manager.events ++ es) (h : o.Unread k u) :
    Unread { o with running := running } k u := by
  obtain ⟨event, hmem, hnames⟩ := h
  refine ⟨event, ?_, hnames⟩
  rw [queue_append hreceived hevents, ← List.append_assoc]
  exact List.mem_append_left _ hmem

theorem unread_of_new (running : Running) {es : List WarpEvent} {k u : String} {event : WarpEvent}
    (hreceived : o.received ≤ o.manager.events.length)
    (hevents : running.shared.host.manager.events = o.manager.events ++ es) (hmem : event ∈ es)
    (hnames : event.transfer = some (k, u)) : Unread { o with running := running } k u := by
  refine ⟨event, ?_, hnames⟩
  rw [queue_append hreceived hevents]
  exact List.mem_append_right _ (List.mem_append_right _ hmem)

/-- A transfer that a step has told of, or left alone, stays tracked. -/
theorem Sound.tracked_of_tells {silent : String → String → Prop} (h : o.Sound)
    (running : Running) (htells : o.manager.Tells running.shared.host.manager silent) {k u : String}
    {t' : Transfer} (ht' : running.shared.host.manager.transfer k u = some t')
    (hsilent : ¬ silent k u)
    (hstreams : ∀ a ∈ o.running.tasks, a.streamsTo k u = true →
      ∃ a' ∈ running.tasks, a'.streamsTo k u = true) :
    Tracked { o with running := running } k u t' := by
  obtain ⟨es, hevents, _, htold⟩ := htells.told
  rcases htold k u t' ht' hsilent with ⟨t, ht, hshown⟩ | ⟨event, hmem, hnames⟩
  · rcases h.tracked k u t ht with hunread | hshows | ⟨a, ha, hstream⟩
    · exact .inl (hunread.append h.received hevents)
    · right; left
      show (o.copies k u).map Transfer.shown = some t'.shown
      rw [hshown]
      exact hshows
    · exact .inr (.inr (hstreams a ha hstream))
  · exact .inl (unread_of_new running h.received hevents hmem hnames)

/-- The activities other than the one that has run are still there. -/
theorem mem_set_of_ne {ts : List Activity} {j : Nat} {a b : Activity} (a' : Activity)
    (ha : ts[j]? = some a) (hb : b ∈ ts) : b = a ∨ b ∈ ts.set j a' := by
  obtain ⟨before, after, hts, hset⟩ := Tasking.set_eq ha a'
  rw [hts] at hb
  rw [hset]
  rcases List.mem_append.1 hb with hleft | hright
  · exact .inr (List.mem_append_left _ hleft)
  · rcases List.mem_cons.1 hright with rfl | hafter
    · exact .inl rfl
    · exact .inr (List.mem_append_right _ (List.mem_cons_of_mem _ hafter))

theorem mem_set_of_eraseIdx {ts : List Activity} {j : Nat} {a' b : Activity}
    (hb : b ∈ ts.eraseIdx j) : b ∈ ts.set j a' := by
  obtain ⟨n, hne, hn⟩ := List.mem_eraseIdx_iff_getElem?.1 hb
  refine List.mem_of_getElem? (i := n) ?_
  rw [List.getElem?_set_ne (Ne.symm hne)]
  exact hn

/-- What is heeded stays tracked without the activity that runs. -/
theorem Heeds.tracked {i' : Instance} {j : Nat} {a' : Activity} {spawned : List Activity}
    {k u : String} {t : Transfer} {es : List WarpEvent} (h : o.Heeds j k u t)
    (hreceived : o.received ≤ o.manager.events.length)
    (hevents : i'.host.manager.events = o.manager.events ++ es) :
    Tracked { o with running := ⟨i', o.running.tasks.set j a' ++ spawned⟩ } k u t := by
  rcases h with hunread | hshows | ⟨b, hb, hstream⟩
  · exact .inl (hunread.append hreceived hevents)
  · exact .inr (.inl hshows)
  · exact .inr (.inr ⟨b, List.mem_append_left _ (mem_set_of_eraseIdx hb), hstream⟩)

theorem run_tracked {j : Nat} {ans : ActivityAnswer} {a a' : Activity} {i' : Instance}
    {spawned : List Activity} (h : o.Sound) (hC : o.SpeaksOut (.step (.run j ans)))
    (ha : o.running.tasks[j]? = some a)
    (hadvance : a.step s o.running.shared ans = some (i', a', spawned)) (k u : String)
    (t' : Transfer) (ht' : i'.host.manager.transfer k u = some t') :
    Tracked { o with running := ⟨i', o.running.tasks.set j a' ++ spawned⟩ } k u t' := by
  have hself : a' ∈ o.running.tasks.set j a' ++ spawned := by
    obtain ⟨before, after, _, hset⟩ := Tasking.set_eq ha a'
    rw [hset]
    simp
  -- another streaming task goes on, and so does this one unless it has closed
  have hothers : ∀ {k u : String}, (a.streamsTo k u = true → a'.streamsTo k u = true) →
      ∀ b ∈ o.running.tasks, b.streamsTo k u = true →
        ∃ b' ∈ o.running.tasks.set j a' ++ spawned, b'.streamsTo k u = true := by
    intro k u hkept b hb hstream
    rcases mem_set_of_ne a' ha hb with rfl | hmem
    · exact ⟨a', hself, hkept hstream⟩
    · exact ⟨b, List.mem_append_left _ hmem, hstream⟩
  obtain ⟨hupdate, hpanic⟩ := hC a ha
  cases activity_speaks (h.running.sound a (List.mem_of_getElem? ha)) hadvance with
  | told htells hkept =>
    exact h.tracked_of_tells ⟨i', _⟩ htells ht' id (hothers (hkept k u))
  | progress k₀ u₀ htells hstream hkept =>
    by_cases hku : k = k₀ ∧ u = u₀
    · -- the task that has made progress will close the transfer
      obtain ⟨rfl, rfl⟩ := hku
      exact .inr (.inr ⟨a', hself, hstream⟩)
    · exact h.tracked_of_tells ⟨i', _⟩ htells ht' hku (hothers (hkept k u))
  | update queued k₀ u₀ f hans hupdates hmanager hclosed =>
    have htells : o.manager.Tells i'.host.manager fun k' u' => k' = k₀ ∧ u' = u₀ := by
      rw [hmanager]
      exact RemoteManager.tells_updateTransfer queued k₀ u₀ f
    by_cases hku : k = k₀ ∧ u = u₀
    · obtain ⟨rfl, rfl⟩ := hku
      rw [hmanager, transfer_updateTransfer, if_pos ⟨rfl, rfl⟩] at ht'
      obtain ⟨t, ht, rfl⟩ := Option.map_eq_some_iff.1 ht'
      subst hans
      rcases hupdate _ hupdates queued rfl t ht with hpublished | hheeds
      · have hevents := RemoteManager.events_of_published ht hpublished
        rw [← hmanager] at hevents
        exact .inl (unread_of_new ⟨i', _⟩ h.received hevents
          (List.mem_singleton_self _) rfl)
      · obtain ⟨es, hevents, _⟩ := htells.told
        exact hheeds.tracked h.received hevents
    · refine h.tracked_of_tells ⟨i', _⟩ htells ht' hku (hothers fun hstream => ?_)
      exact absurd (hclosed k u hstream) hku
  | panic k₀ u₀ hpanics hmanager hclosed =>
    by_cases hku : k = k₀ ∧ u = u₀
    · obtain ⟨rfl, rfl⟩ := hku
      rw [hmanager] at ht'
      have hevents : i'.host.manager.events = o.manager.events ++ [] := by
        rw [hmanager, List.append_nil]
        rfl
      exact (hpanic _ hpanics t' ht').tracked h.received hevents
    · have htells : o.manager.Tells i'.host.manager fun _ _ => False := by
        rw [hmanager]
        exact .refl _
      refine h.tracked_of_tells ⟨i', _⟩ htells ht' id (hothers fun hstream => ?_)
      exact absurd (hclosed k u hstream) hku

theorem change_tracked (h : o.Sound) (e : InstanceChange) (k u : String) (t' : Transfer)
    (ht' : (o.running.shared.change e).host.manager.transfer k u = some t') :
    Tracked { o with running := { o.running with shared := o.running.shared.change e } }
      k u t' := by
  have hothers : ∀ a ∈ o.running.tasks, a.streamsTo k u = true →
      ∃ a' ∈ o.running.tasks, a'.streamsTo k u = true := fun a ha hstream => ⟨a, ha, hstream⟩
  rcases change_tells o.running.shared e with ⟨k₀, u₀, rfl⟩ | htells
  · -- a removal tells by its own event
    rcases RemoteManager.removeTransfer_cases o.manager k₀ u₀ with hsame | ⟨r, t, hr, _, hremoved⟩
    · have hkept : (o.running.shared.change (.removeTransfer k₀ u₀)).host.manager = o.manager :=
        hsame
      have htells : o.manager.Tells
          (o.running.shared.change (.removeTransfer k₀ u₀)).host.manager fun _ _ => False := by
        rw [hkept]
        exact .refl _
      exact h.tracked_of_tells { o.running with shared := _ } htells ht' id hothers
    · have hmanager : (o.running.shared.change (.removeTransfer k₀ u₀)).host.manager
          = (o.manager.removeTransfer k₀ u₀).2 := rfl
      rw [hremoved] at hmanager
      -- of the removed transfer the new event is unread; any other is where it was
      by_cases hku : k = k₀ ∧ u = u₀
      · obtain ⟨rfl, rfl⟩ := hku
        have hevents : (o.running.shared.change (.removeTransfer k u)).host.manager.events
            = o.manager.events ++ [.transferRemoved k u] := by
          rw [hmanager]
          rfl
        exact .inl (unread_of_new { o.running with shared := _ } h.received hevents
          (List.mem_singleton_self _) rfl)
      · rw [hmanager] at ht'
        have ht : o.manager.transfer k u = some t' := by
          rw [RemoteManager.transfer_of_remote, remote_setRemote] at ht'
          rw [RemoteManager.transfer_of_remote]
          by_cases hk : k = k₀
          · subst hk
            have hne : u ≠ u₀ := fun heq => hku ⟨rfl, heq⟩
            rw [if_pos rfl, Option.bind_some, find_eraseP hne] at ht'
            rw [hr]
            exact ht'
          · rw [if_neg hk] at ht'
            exact ht'
        have hevents : (o.running.shared.change (.removeTransfer k₀ u₀)).host.manager.events
            = o.manager.events ++ [.transferRemoved k₀ u₀] := by
          rw [hmanager]
          rfl
        rcases h.tracked k u t' ht with hunread | hshows | hstreams
        · exact .inl (hunread.append h.received hevents)
        · exact .inr (.inl hshows)
        · exact .inr (.inr hstreams)
  · exact h.tracked_of_tells { o.running with shared := _ } htells ht' id hothers

/-! ### The subscriber's own steps -/

theorem recv_tracked {event : WarpEvent} {rest : List WarpEvent} (hcurrent : o.current = none)
    (hqueue : o.queue = event :: rest) {k u : String} {t : Transfer} (h : o.Tracked k u t) :
    Tracked { o with received := o.received + 1, current := some event } k u t := by
  have hrest : queue { o with received := o.received + 1, current := some event } = rest := by
    show o.manager.events.drop (o.received + 1) = rest
    have hdrop : o.manager.events.drop (o.received + 1)
        = (o.manager.events.drop o.received).drop 1 := by rw [List.drop_drop]
    have hevents : o.manager.events.drop o.received = event :: rest := hqueue
    rw [hdrop, hevents]
    rfl
  rcases h with ⟨e, hmem, hnames⟩ | hshows | hstreams
  · refine .inl ⟨e, ?_, hnames⟩
    rw [hcurrent, hqueue] at hmem
    rw [hrest]
    exact hmem
  · exact .inr (.inl hshows)
  · exact .inr (.inr hstreams)

/-- After its event has been hydrated, a copy shows what is stored. -/
theorem shows_hydrate (h : o.Sound) {event : WarpEvent} (hcurrent : o.current = some event)
    {k u : String} {t : Transfer} (ht : o.manager.transfer k u = some t)
    (hnames : event.transfer = some (k, u)) :
    Shows { o with current := none, copies := o.copies.hydrate o.manager event } k u t := by
  unfold Shows
  cases event with
  | transferAdded k' u' =>
    cases hnames
    simp [Copies.hydrate, Copies.set, ht]
  | transferUpdated k' u' =>
    cases hnames
    simp [Copies.hydrate, Copies.set, ht]
  | transferRemoved k' u' =>
    -- what has been removed is not stored any more
    cases hnames
    obtain ⟨_, hzero⟩ := h.gone k u (h.current _ hcurrent)
    have hnone : o.manager.transfer k u = none := transfer_eq_none_of_load hzero
    rw [hnone] at ht
    cases ht
  | remoteAdded _ | remoteUpdated _ | messageAdded _ _ | messageRemoved _ _ => cases hnames

/-- The other copies stay. -/
theorem hydrate_other {c : Copies} {m : RemoteManager} {event : WarpEvent} {k u : String}
    (hnames : event.transfer ≠ some (k, u)) : c.hydrate m event k u = c k u := by
  have hset : ∀ k' u' t, some (k', u') ≠ some (k, u) → c.set k' u' t k u = c k u := by
    intro k' u' t hne
    refine if_neg fun heq => hne ?_
    rw [heq.1, heq.2]
  cases event with
  | transferAdded k' u' =>
    simp only [Copies.hydrate]
    cases m.transfer k' u' with
    | none => rfl
    | some t => exact hset k' u' _ hnames
  | transferUpdated k' u' =>
    simp only [Copies.hydrate]
    cases m.transfer k' u' with
    | none => rfl
    | some t => exact hset k' u' _ hnames
  | transferRemoved k' u' => exact hset k' u' none hnames
  | remoteAdded _ | remoteUpdated _ | messageAdded _ _ | messageRemoved _ _ => rfl

theorem hydrate_tracked (h : o.Sound) {event : WarpEvent} (hcurrent : o.current = some event)
    {k u : String} {t : Transfer} (ht : o.manager.transfer k u = some t) :
    Tracked { o with current := none, copies := o.copies.hydrate o.manager event } k u t := by
  by_cases hnames : event.transfer = some (k, u)
  · exact .inr (.inl (shows_hydrate h hcurrent ht hnames))
  · rcases h.tracked k u t ht with ⟨e, hmem, he⟩ | hshows | hstreams
    · rw [hcurrent] at hmem
      rcases List.mem_cons.1 hmem with rfl | hqueue
      · exact absurd he hnames
      · exact .inl ⟨e, hqueue, he⟩
    · right; left
      show (o.copies.hydrate o.manager event k u).map Transfer.shown = some t.shown
      rw [hydrate_other hnames]
      exact hshows
    · exact .inr (.inr hstreams)

theorem sound_step {o' : Observed} {l : ObservedLabel} (h : o.Sound) (hC : o.SpeaksOut l)
    (hstep : o.step s l = some o') : o'.Sound := by
  cases observed_move hstep with
  -- the instance runs on, and the subscriber falls behind
  | step l running hfits hrun =>
    have htracked : ∀ k u t', running.shared.host.manager.transfer k u = some t' →
        Tracked { o with running := running } k u t' := by
      cases l with
      | run j ans =>
        obtain ⟨a, i', a', spawned, ha, hadvance, rfl⟩ := Tasking.run_cases hrun
        exact run_tracked h hC ha hadvance
      | enter a =>
        obtain ⟨_, rfl⟩ := Tasking.enter_cases hrun
        intro k u t' ht'
        have htells : o.manager.Tells o.manager fun _ _ => False := .refl _
        refine h.tracked_of_tells ⟨o.running.shared, o.running.tasks ++ [a]⟩ htells ht' id
          fun b hb hstream => ?_
        exact ⟨b, List.mem_append_left _ hb, hstream⟩
      | env e =>
        cases hrun
        exact change_tracked h e
    obtain ⟨es, hevents⟩ := events_step h.running hrun
    refine ⟨Warpinator.sound_step h.running hrun, gone_step h.running h.gone hrun, ?_, ?_, htracked⟩
    · show o.received ≤ running.shared.host.manager.events.length
      rw [hevents, List.length_append]
      exact Nat.le_add_right_of_le h.received
    · intro event hevent
      show event ∈ running.shared.host.manager.events
      rw [hevents]
      exact List.mem_append_left _ (h.current event hevent)
  -- the subscriber takes the next event and has yet to hydrate
  | recv event rest hcurrent hqueue =>
    refine ⟨h.running, h.gone, ?_, ?_, fun k u t ht => ?_⟩
    · have hlen : o.queue.length = o.manager.events.length - o.received := List.length_drop
      rw [hqueue, List.length_cons] at hlen
      show o.received + 1 ≤ o.manager.events.length
      omega
    · intro e he
      obtain rfl : event = e := Option.some.inj he
      have hmem : event ∈ o.queue := by rw [hqueue]; exact List.mem_cons_self
      exact List.mem_of_mem_drop hmem
    · exact recv_tracked hcurrent hqueue (h.tracked k u t ht)
  | hydrate event hcurrent =>
    refine ⟨h.running, h.gone, h.received, ?_, fun k u t ht => hydrate_tracked h hcurrent ht⟩
    intro e he
    cases he

theorem sound_new (checks : Bool) : (Observed.new checks).Sound where
  running := Warpinator.sound_new checks
  gone k u hmem := by cases hmem
  received := Nat.le_refl _
  current event he := by cases he
  tracked k u t ht := by cases ht

theorem isStreaming_of_streamsTo {a : Activity} {k u : String} (h : a.streamsTo k u = true) :
    a.isStreaming = true := by
  unfold Activity.streamsTo at h
  split at h
  · next task =>
    unfold Activity.isStreaming
    split at h
    · next hphase => simp [hphase]
    · next hphase => simp [hphase]
    · cases h
  · next task =>
    unfold Activity.isStreaming
    split at h
    · next hphase => simp [hphase]
    · next hphase => simp [hphase]
    · cases h
  · cases h

end Observed

/-! ## Section 3: Convergence -/

theorem converges_of_speaksOut {s : Settings} {checks : Bool} {ls : List ObservedLabel}
    {o : Observed} (hrun : (observing s).exec (Observed.new checks) ls = some o)
    (hC : (observing s).Along Observed.SpeaksOut (Observed.new checks) ls) (hquiet : o.Quiet) :
    o.Agrees := by
  have hsound : o.Sound := Machine.exec_invariant_along (observing s)
    (fun _ _ _ hC hI hstep => Observed.sound_step hI hC hstep) (Observed.sound_new checks) hC hrun
  obtain ⟨hcurrent, hqueue, hstreams⟩ := hquiet
  intro k u t ht
  rcases hsound.tracked k u t ht with ⟨event, hmem, _⟩ | hshows | ⟨a, ha, hstream⟩
  · rw [hcurrent, hqueue] at hmem
    cases hmem
  · exact hshows
  · have hon := Observed.isStreaming_of_streamsTo hstream
    rw [hstreams a ha] at hon
    cases hon

/-- What `b` asks when it sends a transfer. -/
def requestOfB : TransferOpRequest := Transfer.asProto (.newOutgoing ⟨0, 9⟩ 0 "a" [] []) "b"

/-- A transfer of `b` is accepted, and `b` stops it because of an error. -/
def failedRun : List ObservedLabel :=
  [.step (.enter (.admission (.register (.lookup registrationOfB)))),
    .step (.run 0 (.admission .go)), .step (.run 0 (.admission .go)),
    .step (.run 0 (.admission .go)),
    .step (.enter (.call (.processTransferOpRequest (.add requestOfB)))),
    .step (.run 1 (.call (.fresh ⟨0, 1⟩ 0))),
    .step (.enter (.getWorker "b"
      (.acceptTransfer (Uuid.toString ⟨0, 1⟩) (OsString.ofString "/d")))),
    .step (.run 2 (.call (.go 2))), .step (.run 2 (.call (.go 2))),
    .step (.run 2 (.call (.reply (.ok ())))), .step (.run 2 (.call (.go 2))),
    .step (.enter (.call (.peerStopTransfer (.lookup ⟨requestOfB.info, true⟩)))),
    .step (.run 4 (.call (.go 3))), .step (.run 4 (.call (.go 3))),
    .recv, .hydrate, .recv, .hydrate, .recv, .hydrate, .recv, .hydrate]

/-- The receiving task sees the stream break and closes the transfer. -/
def closingSteps (queued : Nat) : List ObservedLabel :=
  [.step (.run 3 (.call (.receive .streamError none queued))), .step (.run 3 (.call (.go queued)))]

theorem converges_failedRun :
    ∃ o, (observing settingsOfA).exec (Observed.new false)
        (failedRun ++ closingSteps 0 ++ [.recv, .hydrate]) = some o ∧ o.Quiet ∧ o.Agrees := by
  have hquiet : ((observing settingsOfA).exec (Observed.new false)
      (failedRun ++ closingSteps 0 ++ [.recv, .hydrate])).map (fun o => decide o.Quiet)
      = some true := rfl
  obtain ⟨o, hrun, hquiet⟩ := Option.map_eq_some_iff.1 hquiet
  exact ⟨o, hrun, of_decide_eq_true hquiet,
    converges_of_speaksOut hrun (by decide) (of_decide_eq_true hquiet)⟩

/-- `b` is updated 128 times before the receiving task closes the transfer. -/
def backlogRun : List ObservedLabel :=
  failedRun ++ List.replicate 128 (.step (.env (.update "b" .id))) ++ closingSteps 128 ++
    (List.replicate 128 [.recv, .hydrate]).flatten

/-- What the copy and the store show of the transfer of `b`. -/
def Observed.shown (o : Observed) :
    Option (TransferState × Nat × Nat) × Option (TransferState × Nat × Nat) :=
  ((o.copies "b" (Uuid.toString ⟨0, 1⟩)).map Transfer.shown,
    (o.manager.transfer "b" (Uuid.toString ⟨0, 1⟩)).map Transfer.shown)

set_option maxRecDepth 100000 in
/-- The closing update replaces one error by another and is not told of. -/
theorem closing_lost :
    ∃ o, (observing settingsOfA).exec (Observed.new false) backlogRun = some o ∧ o.Quiet ∧
      ¬ o.Agrees := by
  have hseen : ((observing settingsOfA).exec (Observed.new false) backlogRun).map
      (fun o => (decide o.Quiet, o.shown))
      = some (true, some (.failed .remoteError, 0, 0), some (.failed .connectionLost, 0, 0)) := rfl
  obtain ⟨o, hrun, heq⟩ := Option.map_eq_some_iff.1 hseen
  obtain ⟨hquiet, hshown⟩ := Prod.mk.inj heq
  obtain ⟨hcopy, hstored⟩ := Prod.mk.inj hshown
  refine ⟨o, hrun, of_decide_eq_true hquiet, fun hagrees => ?_⟩
  obtain ⟨t, ht, hold⟩ := Option.map_eq_some_iff.1 hstored
  have hshows : (o.copies "b" (Uuid.toString ⟨0, 1⟩)).map Transfer.shown = some t.shown :=
    hagrees _ _ t ht
  rw [hcopy, hold] at hshows
  cases hshows

end Warpinator
