import Warpinator.Server.StateChanges

/-! # Text Messages in a Running Instance

    What every step of an instance does to the messages of a remote: one is
    stored by `send_text_message` when it handles a request, one by `send_message`
    when it has been told of success, and some are taken away by the application,
    or by an admission that puts an empty record in the place of the one that is
    there (`activity_textStep`, `messages_change`). -/

namespace Warpinator

/-! ## Section 1: The messages of a remote -/

def Instance.messages (i : Instance) (k : String) : List Message :=
  ((i.remote k).map Remote.messages).getD []

/-- The texts of the messages under `k` in one direction. -/
def Instance.texts (i : Instance) (k : String) (direction : Direction) : List String :=
  ((i.messages k).filter fun msg => msg.direction = direction).map Message.content

/-- The messages stay where they are in every record. -/
def RemoteManager.SameMessages (m m' : RemoteManager) : Prop :=
  ∀ k, (m'.remote k).map Remote.messages = (m.remote k).map Remote.messages

namespace RemoteManager

variable {m m' : RemoteManager}

theorem SameMessages.refl (m : RemoteManager) : m.SameMessages m := fun _ => rfl

theorem SameMessages.trans {m'' : RemoteManager} (h : m.SameMessages m')
    (h' : m'.SameMessages m'') : m.SameMessages m'' := fun k => (h' k).trans (h k)

/-- A write of at most one record that leaves its messages alone. -/
theorem SameMessages.of_write {k : String} {g : Remote → Remote}
    (hwrite : ∀ k', m'.remote k' = if k' = k then (m.remote k).map g else m.remote k')
    (hg : ∀ r : Remote, (g r).messages = r.messages) : m.SameMessages m' := by
  intro k'
  rw [hwrite]
  by_cases hk : k' = k
  · rw [if_pos hk, hk, Option.map_map]
    exact congrArg (Option.map · (m.remote k)) (funext hg)
  · rw [if_neg hk]

theorem sameMessages_updateTransfer (m : RemoteManager) (queued : Nat) (k u : String)
    (f : TransferUpdate) : m.SameMessages (m.updateTransfer queued k u f).2 :=
  .of_write (fun k' => m.remote_updateTransfer k k' u queued f) fun _ => rfl

theorem sameMessages_addTransfer (m : RemoteManager) (k : String) (t : Transfer) :
    m.SameMessages (m.addTransfer k t).2 :=
  .of_write (fun k' => m.remote_addTransfer k k' t) fun _ => rfl

theorem RecordWrite.sameMessages {k : String} {f : Remote → Remote} {event : WarpEvent}
    (h : m.RecordWrite k f event m') (hf : ∀ r : Remote, (f r).messages = r.messages) :
    m.SameMessages m' := by
  cases h with
  | missed => exact .refl m
  | written hr =>
    refine .of_write (k := k) (g := f) (fun k' => ?_) hf
    rw [remote_setRemote, hr]
    rfl

end RemoteManager

theorem sameMessages_recordProgress (host : Host) (queued : Nat) (k u : String)
    (before after : List Progress) :
    host.manager.SameMessages (host.recordProgress queued k u before after).manager := by
  unfold Host.recordProgress
  induction after.drop before.length generalizing host with
  | nil => exact .refl _
  | cons p ps ih =>
    have hfirst := host.manager.sameMessages_updateTransfer queued k u (.progress p)
    exact hfirst.trans (ih (host.updateTransfer queued k u (.progress p)).2)

theorem SameRecords.sameMessages {g g' : Registry} (h : SameRecords g g') :
    g.manager.SameMessages g'.manager := by
  intro k
  have hk := congrArg (Option.map fun c : String × List Transfer × List Message => c.2.2)
    (h.content k)
  rw [Option.map_map, Option.map_map] at hk
  exact hk

section messages

variable {i i' : Instance}

theorem messages_of_same (h : i.host.manager.SameMessages i'.host.manager) (k : String) :
    i'.messages k = i.messages k := congrArg (Option.getD · []) (h k)

/-- A message is stored where there is a record. -/
theorem messages_addMessage {msg : Message} {k : String}
    (hmanager : i'.host.manager = (i.host.manager.addMessage k msg).2) (k' : String) :
    i'.messages k' = if k' = k ∧ (i.remote k).isSome then i.messages k' ++ [msg]
      else i.messages k' := by
  have hremote : i'.remote k' = _ :=
    (congrArg (·.remote k') hmanager).trans (i.host.manager.remote_addMessage k k' msg)
  unfold Instance.messages
  rw [hremote]
  by_cases hk : k' = k
  · subst hk
    rw [if_pos rfl]
    show (((i.remote k').map _).map _).getD [] = _
    cases i.remote k' <;> simp
  · simp [hk, Instance.remote]

end messages

/-! ## Section 2: What a step does to them -/

/-- A call that is about to send or to store a message. -/
def Activity.isText : Activity → Bool
  | .getWorker _ (.sendMessage _) => true
  | .sendMessage _ _ => true
  | .sendTextMessage _ => true
  | _ => false

/-- The steps of an instance, sorted by what they do to messages. -/
inductive TextStep (s : Settings) (i i' : Instance) : Activity → ActivityAnswer → Activity → Prop
  | other {t t' : Activity} {ans : ActivityAnswer} : t.isText = false → t'.isText = false →
      t ≠ .workerMissing → (∀ k, i'.messages k = i.messages k) → TextStep s i i' t ans t'
  | inserted {t t' : Admission} {ans : ActivityAnswer} (r : Remote) : t.inserts = some r →
      (∀ k, i'.messages k = if k = r.uuid then [] else i.messages k) →
      TextStep s i i' (.admission t) ans (.admission t')
  | missing {uuid text : String} {ans : ActivityAnswer} : i' = i →
      TextStep s i i' (.getWorker uuid (.sendMessage text)) ans .workerMissing
  | asked {uuid text : String} {w : Worker} {ans : ActivityAnswer} : i.getWorker s uuid = some w →
      i' = i → TextStep s i i' (.getWorker uuid (.sendMessage text)) ans
        (.sendMessage w (.start text))
  | created {w : Worker} {text : String} {ans : ActivityAnswer} (id : Uuid) (now : Nat) :
      (∀ k, i'.messages k = i.messages k) →
      TextStep s i i' (.sendMessage w (.start text)) ans
        (.sendMessage w (.request (.new id now w.uuid .sent text)
          ((Message.new id now w.uuid .sent text).asProto w.serverFullname)))
  | answered {w : Worker} {msg : Message} {req : TextMessage} : i' = i →
      TextStep s i i' (.sendMessage w (.request msg req)) (.call (.reply (.ok ())))
        (.sendMessage w (.add msg))
  | sent {w : Worker} {msg : Message} {ans : ActivityAnswer} :
      (∀ k, i'.messages k = if k = w.uuid then i.messages k ++ [msg] else i.messages k) →
      TextStep s i i' (.sendMessage w (.add msg)) ans (.sendMessage w (.returned (.ok ())))
  | notSent {w : Worker} {pc : Worker.SendMessagePc} {e : RemoteWorkerError}
      {ans : ActivityAnswer} : (∀ r, pc ≠ .returned r) → (∀ k, i'.messages k = i.messages k) →
      TextStep s i i' (.sendMessage w pc) ans (.sendMessage w (.returned (.error e)))
  | received {req : TextMessage} {ans : ActivityAnswer} (msg : Message) :
      msg.direction = .received → msg.content = req.message →
      (∀ k, i'.messages k = if k = req.ident then i.messages k ++ [msg] else i.messages k) →
      TextStep s i i' (.sendTextMessage (.add req)) ans (.sendTextMessage (.returned (.ok ())))
  | refused {req : TextMessage} {status : Status} {ans : ActivityAnswer} :
      (∀ k, i'.messages k = i.messages k) →
      TextStep s i i' (.sendTextMessage (.add req)) ans
        (.sendTextMessage (.returned (.error status)))

section steps

variable {s : Settings} {i i' : Instance} {ans : ActivityAnswer}

theorem call_sameMessages {t t' : Task} {spawned : List Task} {host host' : Host} {ans : Answer}
    (h : t.step host ans = some (host', t', spawned)) :
    host.manager.SameMessages host'.manager := by
  cases call_effect h with
  | same hmanager =>
    rw [hmanager]
    exact .refl _
  | progress queued k u before after hmanager =>
    rw [hmanager]
    exact sameMessages_recordProgress host queued k u before after
  | update queued k u f _ hmanager =>
    rw [hmanager]
    exact host.manager.sameMessages_updateTransfer queued k u f
  | add k t hmanager _ _ =>
    rw [hmanager]
    exact host.manager.sameMessages_addTransfer k t

theorem Host.addMessage_cases (host : Host) (k : String) (msg : Message) :
    ((host.addMessage k msg).1 = .ok () ∧ (host.manager.remote k).isSome) ∨
      (host.addMessage k msg = (.error .notFound, host)) := by
  unfold Host.addMessage RemoteManager.addMessage RemoteManager.remote
  cases host.manager.remotes k <;> simp

theorem sendTextMessage_textStep {req : TextMessage} {pc' : WarpServer.TextPc} {host : Host}
    {answer : Answer}
    (h : WarpServer.sendTextMessage s.features i.host (.add req) answer = some (host, pc')) :
    TextStep s i { i with host := host } (.sendTextMessage (.add req)) ans
      (.sendTextMessage pc') := by
  unfold WarpServer.sendTextMessage at h
  cases answer with
  | go queued =>
    dsimp only at h
    split at h
    · cases h
    · cases h
      exact .refused fun _ => rfl
  | fresh id now =>
    dsimp only at h
    split at h
    · split at h
      · cases h
      · rcases (i.host.issue id).addMessage_cases req.ident (.ofTextMessage id now req) with
          ⟨hok, hsome⟩ | hmissing
        · split at h
          · next host₁ heq =>
            cases h
            refine .received (.ofTextMessage id now req) rfl rfl fun k => ?_
            have hmanager : host.manager = (i.host.manager.addMessage req.ident
                (.ofTextMessage id now req)).2 := congrArg (·.2.manager) heq.symm
            have hmessages : Instance.messages { i with host := host } k = _ :=
              messages_addMessage (i := i) hmanager k
            rw [hmessages]
            have hrecord : (i.remote req.ident).isSome := hsome
            simp [hrecord]
          · next heq =>
            rw [heq] at hok
            cases hok
        · rw [hmissing] at h
          cases h
          exact .refused fun _ => rfl
    · cases h
  | noClient | processed _ | reply _ | send _ _ | receive _ _ _ => cases h

theorem sendMessage_textStep {w : Worker} {pc pc' : Worker.SendMessagePc} {host : Host}
    {answer : Answer} (h : w.sendMessage i.host pc answer = some (host, pc')) :
    TextStep s i { i with host := host } (.sendMessage w pc) (.call answer)
      (.sendMessage w pc') := by
  unfold Worker.sendMessage at h
  split at h
  · cases h
    exact .notSent (fun r hr => by cases hr) fun _ => rfl
  · split at h
    · cases h
    · cases h
      exact .created _ _ fun _ => rfl
  · cases h
    exact .answered rfl
  · cases h
    exact .notSent (fun r hr => by cases hr) fun _ => rfl
  · next msg queued =>
    rcases i.host.addMessage_cases w.uuid msg with ⟨hok, hsome⟩ | hmissing
    · split at h
      · next host₁ heq =>
        cases h
        refine .sent fun k => ?_
        have hmanager : host.manager = (i.host.manager.addMessage w.uuid msg).2 :=
          congrArg (·.2.manager) heq.symm
        have hmessages : Instance.messages { i with host := host } k = _ :=
          messages_addMessage (i := i) hmanager k
        rw [hmessages]
        have hrecord : (i.remote w.uuid).isSome := hsome
        simp [hrecord]
      · next heq =>
        rw [heq] at hok
        cases hok
    · rw [hmissing] at h
      cases h
      exact .notSent (fun r hr => by cases hr) fun _ => rfl
  · cases h

theorem messages_inserted {t : Admission} {r : Remote} (hsound : (Activity.admission t).Sound i)
    (hr : t.inserts = some r) (k : String) :
    (i.store (i.registry.insertRemote r) t.makes).messages k
      = if k = r.uuid then [] else i.messages k := by
  have hremote : (i.store (i.registry.insertRemote r) t.makes).remote k
      = if k = r.uuid then some r else i.remote k := remote_insertRemote i.registry k r
  have hempty := (hsound.1 r (Admission.carried_of_inserts hr)).2
  unfold Instance.messages
  rw [hremote]
  by_cases hk : k = r.uuid
  · simp [hk, hempty]
  · rw [if_neg hk, if_neg hk]

/-- What a step of an activity does to the messages, and that it spawns no call. -/
theorem activity_textStep {t t' : Activity} {spawned : List Activity} (hsound : t.Sound i)
    (h : t.step s i ans = some (i', t', spawned)) :
    TextStep s i i' t ans t' ∧ ∀ u ∈ spawned, u.isText = false := by
  unfold Activity.step at h
  split at h
  · next t ans =>
    obtain ⟨⟨g, t₁, spawned₁⟩, hstep, heq⟩ := Option.map_eq_some_iff.1 h
    cases heq
    refine ⟨?_, by simp⟩
    cases (admission_move hstep).1 with
    | same g' _ hsame => exact .other rfl rfl nofun (messages_of_same hsame.sameMessages)
    | insert r hr => exact .inserted r hr (messages_inserted hsound hr)
  · next t ans =>
    obtain ⟨⟨host, t₁, spawned₁⟩, hstep, heq⟩ := Option.map_eq_some_iff.1 h
    cases heq
    refine ⟨.other rfl rfl nofun (messages_of_same (call_sameMessages hstep)), fun u hu => ?_⟩
    obtain ⟨t₂, _, rfl⟩ := List.mem_map.1 hu
    rfl
  · next pc ans =>
    obtain ⟨⟨host, pc₁⟩, hstep, heq⟩ := Option.map_eq_some_iff.1 h
    cases heq
    refine ⟨?_, by simp⟩
    cases pc with
    | add req => exact sendTextMessage_textStep hstep
    | returned result => cases hstep
  · next w pc ans =>
    obtain ⟨⟨host, pc₁⟩, hstep, heq⟩ := Option.map_eq_some_iff.1 h
    cases heq
    exact ⟨sendMessage_textStep hstep, by simp⟩
  · next uuid op queued =>
    split at h
    · next w hw =>
      cases h
      refine ⟨?_, by simp⟩
      cases op with
      | sendMessage text => exact .asked hw rfl
      | sendTransferRequest _ => exact .other rfl rfl nofun fun _ => rfl
      | acceptTransfer _ _ => exact .other rfl rfl nofun fun _ => rfl
      | stopTransfer _ _ => exact .other rfl rfl nofun fun _ => rfl
      | cancelTransfer _ => exact .other rfl rfl nofun fun _ => rfl
    · cases h
      refine ⟨?_, by simp⟩
      cases op with
      | sendMessage text => exact .missing rfl
      | sendTransferRequest _ => exact .other rfl rfl nofun fun _ => rfl
      | acceptTransfer _ _ => exact .other rfl rfl nofun fun _ => rfl
      | stopTransfer _ _ => exact .other rfl rfl nofun fun _ => rfl
      | cancelTransfer _ => exact .other rfl rfl nofun fun _ => rfl
  · cases h

/-! ## Section 3: Texts, and changes from outside -/

theorem texts_append {k : String} {msg : Message} {direction : Direction}
    (h : i'.messages k = i.messages k ++ [msg]) :
    i'.texts k direction
      = i.texts k direction ++ if msg.direction = direction then [msg.content] else [] := by
  unfold Instance.texts
  rw [h, List.filter_append, List.map_append]
  by_cases hdirection : msg.direction = direction <;> simp [hdirection]

theorem texts_congr {k : String} {direction : Direction}
    (h : i'.messages k = i.messages k) : i'.texts k direction = i.texts k direction := by
  unfold Instance.texts
  rw [h]

theorem texts_sublist {k : String} {direction : Direction}
    (h : (i'.messages k).Sublist (i.messages k)) :
    (i'.texts k direction).Sublist (i.texts k direction) := (h.filter _).map _

/-- What a change from outside does to the messages. -/
theorem messages_change (i : Instance) (e : InstanceChange) (k : String) :
    ((i.change e).messages k).Sublist (i.messages k) ∧
      ((∀ u, e ≠ .removeMessage k u) → (i.change e).messages k = i.messages k) := by
  have hsame : ∀ {i' : Instance}, i.host.manager.SameMessages i'.host.manager →
      (i'.messages k).Sublist (i.messages k) ∧
        ((∀ u, e ≠ .removeMessage k u) → i'.messages k = i.messages k) := by
    intro i' h
    rw [messages_of_same h]
    exact ⟨.refl _, fun _ => rfl⟩
  cases e with
  | update uuid f =>
    exact hsame (sameRecords_update i.registry uuid f.content_apply).sameMessages
  | removed fullname =>
    exact hsame
      (sameRecords_update i.registry fullname (f := Remote.removed) fun _ => rfl).sameMessages
  | removeTransfer k' u' =>
    exact hsame ((i.host.manager.removeTransfer_write k' u').sameMessages fun _ => rfl)
  | removeMessage k' u' =>
    have hwrite := i.host.manager.removeMessage_write k' u'
    have hmessages : ∀ k, (i.change (.removeMessage k' u')).messages k
        = (((i.host.manager.removeMessage k' u').2.remote k).map Remote.messages).getD [] :=
      fun _ => rfl
    rw [hmessages]
    generalize (i.host.manager.removeMessage k' u').2 = m' at hwrite ⊢
    cases hwrite with
    | missed => exact ⟨.refl _, fun _ => rfl⟩
    | written hr =>
      rw [remote_setRemote]
      by_cases hk : k = k'
      · subst hk
        refine ⟨?_, fun hnot => absurd rfl (hnot u')⟩
        have hremote : i.remote k = some _ := hr
        unfold Instance.messages
        rw [if_pos rfl, hremote]
        exact List.eraseP_sublist
      · rw [if_neg hk]
        exact ⟨.refl _, fun _ => rfl⟩
  | cancel token => exact hsame (.refl _)
  | files files => exact hsame (.refl _)
  | disk disk => exact hsame (.refl _)

/-- A step that takes messages under `k` away: the application removes one, or an
    admission puts an empty record in the place of the one that is there. -/
def Running.discards (p : Running) (k : String) : RunningLabel → Bool
  | .env (.removeMessage k' _) => k' = k
  | .run n _ =>
    match p.tasks[n]? with
    | some (.admission t) =>
      (t.inserts.any fun r => r.uuid = k) && (p.shared.remote k).isSome
    | _ => false
  | _ => false

end steps

end Warpinator
