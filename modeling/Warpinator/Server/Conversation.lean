import Mathlib.Data.List.Perm.Subperm
import Warpinator.Server.MessageSteps

/-! # Conversations

    One host sends text messages to another one.  Each of the two is a whole
    instance in which anything else may go on; the requests of `send_message` are
    delivered to `send_text_message` once or never, and a call that is told of
    success has been handled.

    1. `Conversation`: the two instances with the calls between them.
    2. `Conversation.Sound`: where each call stands.
    3. `Booked`: what has been stored for the calls on either side.

    The result is `messages_agree`: no message is shown twice or made up, and
    what the sender shows as sent the receiver has got. -/

namespace Warpinator

/-! ## Section 1: Two instances -/

structure Conversation where
  sender : Running
  receiver : Running
  /-- The calls of `send_message` for the receiver, each with the number of its
      activity and its text. -/
  calls : List (Nat × String)
  /-- The activity of the receiver that handles the request of a call. -/
  handler : Nat → Option Nat

inductive ConversationLabel where
  /-- The application of the sender calls `send_message`. -/
  | say (text : String)
  /-- The request of call `n` arrives. -/
  | deliver (n : Nat)
  | sender (l : RunningLabel)
  | receiver (l : RunningLabel)

/-- The number of the next activity. -/
def Running.next (p : Running) : Nat := p.tasks.length

/-- The call has returned `Ok`. -/
def Activity.isOk : Activity → Bool
  | .sendMessage _ (.returned (.ok _)) => true
  | .sendTextMessage (.returned (.ok _)) => true
  | _ => false

def okAt (ts : List Activity) (n : Nat) : Bool := (ts[n]?).any Activity.isOk

theorem okAt_iff {ts : List Activity} {n : Nat} :
    okAt ts n = true ↔ ∃ t, ts[n]? = some t ∧ t.isOk = true := Option.any_eq_true _ _

theorem okAt_enter {ts : List Activity} {n : Nat} (h : n < ts.length) (t : Activity) :
    okAt (ts ++ [t]) n = okAt ts n := by
  rw [okAt, okAt, List.getElem?_append_left h]

namespace Conversation

def new (checks : Bool) : Conversation where
  sender := .new checks
  receiver := .new checks
  calls := []
  handler _ := none

/-- Call `n` has returned `Ok`. -/
def sentBy (v : Conversation) (n : Nat) : Bool := okAt v.sender.tasks n

/-- The request of call `n` has been handled with success. -/
def storedBy (v : Conversation) (n : Nat) : Bool := (v.handler n).any (okAt v.receiver.tasks)

theorem storedBy_iff {v : Conversation} {n : Nat} :
    v.storedBy n = true ↔ ∃ j, v.handler n = some j ∧ okAt v.receiver.tasks j = true :=
  Option.any_eq_true _ _

/-- A reply with success comes after the handler has returned it, and calls for
    the receiver are made by `say`. -/
def senderMay (b : String) (v : Conversation) : RunningLabel → Bool
  | .enter (.getWorker uuid (.sendMessage _)) => uuid ≠ b
  | .run n (.call (.reply (.ok _))) => n ∉ v.calls.map Prod.fst ∨ v.storedBy n
  | _ => true

/-- Nobody else sends messages under the name of the sender. -/
def receiverMay (a : String) : RunningLabel → Bool
  | .enter (.sendTextMessage (.add req)) => req.ident ≠ a
  | _ => true

/-- `sa` and `sb` are the settings of the sender and of the receiver. -/
def step (sa sb : Settings) (v : Conversation) : ConversationLabel → Option Conversation
  | .say text =>
    ((activities sa).poolStep v.sender
      (.enter (.getWorker sb.serverFullname (.sendMessage text)))).map fun p =>
        { v with sender := p, calls := v.calls ++ [(v.sender.next, text)] }
  | .deliver n =>
    match v.sender.tasks[n]?, v.handler n with
    | some (.sendMessage _ (.request _ req)), none =>
      if n ∈ v.calls.map Prod.fst then
        ((activities sb).poolStep v.receiver (.enter (.sendTextMessage (.add req)))).map fun q =>
          { v with receiver := q, handler := Function.update v.handler n (some v.receiver.next) }
      else none
    | _, _ => none
  | .sender l =>
    if v.senderMay sb.serverFullname l then
      ((activities sa).poolStep v.sender l).map fun p => { v with sender := p }
    else none
  | .receiver l =>
    if receiverMay sa.serverFullname l then
      ((activities sb).poolStep v.receiver l).map fun q => { v with receiver := q }
    else none

def machine (sa sb : Settings) : Machine Conversation ConversationLabel where
  step := step sa sb

end Conversation

/-! ## Section 2: The invariant -/

/-- What the activity of a call is, up to its end; `delivered` and `stored` tell
    how far its request has come. -/
def Activity.Calls (a b text : String) (delivered stored : Bool) : Activity → Prop
  | .getWorker uuid (.sendMessage text') => uuid = b ∧ text' = text ∧ delivered = false
  | .workerMissing => delivered = false
  | .sendMessage w (.start text') =>
    w.uuid = b ∧ w.serverFullname = a ∧ text' = text ∧ delivered = false
  | .sendMessage w (.request msg req) =>
    w.uuid = b ∧ msg.direction = .sent ∧ msg.content = text ∧ req.ident = a ∧ req.message = text
  | .sendMessage w (.add msg) =>
    w.uuid = b ∧ msg.direction = .sent ∧ msg.content = text ∧ stored = true
  | .sendMessage _ (.returned (.ok _)) => stored = true
  | .sendMessage _ (.returned (.error _)) => True
  | _ => False

/-- What the activity of a handler is. -/
def Activity.Handles (a text : String) : Activity → Prop
  | .sendTextMessage (.add req) => req.ident = a ∧ req.message = text
  | .sendTextMessage (.returned _) => True
  | _ => False

/-- The activity is about to send or to store a message under `b`. -/
def Activity.TalksTo (b : String) : Activity → Prop
  | .getWorker uuid (.sendMessage _) => uuid = b
  | .sendMessage w (.start _) => w.uuid = b
  | .sendMessage w (.request _ _) => w.uuid = b
  | .sendMessage w (.add _) => w.uuid = b
  | _ => False

/-- The activity is about to store a message of `a`. -/
def Activity.HearsFrom (a : String) : Activity → Prop
  | .sendTextMessage (.add req) => req.ident = a
  | _ => False

namespace Conversation

/-- Where each call stands. -/
structure Sound (a b : String) (v : Conversation) : Prop where
  sender : v.sender.Sound
  receiver : v.receiver.Sound
  calls : (v.calls.map Prod.fst).Nodup
  called : ∀ c ∈ v.calls, ∃ t, v.sender.tasks[c.1]? = some t ∧
    t.Calls a b c.2 (v.handler c.1).isSome (v.storedBy c.1)
  call : ∀ n t, v.sender.tasks[n]? = some t → t.TalksTo b → n ∈ v.calls.map Prod.fst
  handled : ∀ c ∈ v.calls, ∀ j, v.handler c.1 = some j →
    ∃ t, v.receiver.tasks[j]? = some t ∧ t.Handles a c.2
  handler : ∀ j t, v.receiver.tasks[j]? = some t → t.HearsFrom a →
    ∃ n ∈ v.calls.map Prod.fst, v.handler n = some j
  once : ∀ n n' j, v.handler n = some j → v.handler n' = some j → n = n'
  /-- Only calls are delivered. -/
  delivered : ∀ n, (v.handler n).isSome → n ∈ v.calls.map Prod.fst
  /-- What the receiver is about to store of its own is marked as sent. -/
  outgoing : ∀ t ∈ v.receiver.tasks, ∀ w msg, t = .sendMessage w (.add msg) ∨
    (∃ req, t = .sendMessage w (.request msg req)) → msg.direction = .sent

/-- The texts of the calls that satisfy `p`. -/
def textsOf (calls : List (Nat × String)) (p : Nat → Bool) : List String :=
  (calls.filter fun c => p c.1).map Prod.snd

end Conversation

section taskSteps

variable {s : Settings} {i i' : Instance} {t t' : Activity} {ans : ActivityAnswer}
  {a b text : String} {delivered stored : Bool}

theorem uuid_of_getWorker {uuid : String} {w : Worker} (hi : i.Ordered)
    (h : i.getWorker s uuid = some w) : w.uuid = uuid ∧ w.serverFullname = s.serverFullname := by
  obtain ⟨n, hn, h⟩ := Option.bind_eq_some_iff.1 h
  rw [hi.workers uuid n hn] at h
  cases h
  exact ⟨rfl, rfl⟩

/-- A call goes on as a call; it is told of success only if its request has been
    handled. -/
theorem TextStep.calls (h : TextStep s i i' t ans t') (hi : i.Ordered)
    (ht : t.Calls s.serverFullname b text delivered stored)
    (hreply : ans = .call (.reply (.ok ())) → stored = true) :
    t'.Calls s.serverFullname b text delivered stored := by
  cases h with
  | other htext _ hmissing _ =>
    unfold Activity.Calls at ht
    split at ht
    · cases htext
    · exact absurd rfl hmissing
    · cases htext
    · cases htext
    · cases htext
    · cases htext
    · cases htext
    · exact ht.elim
  | inserted r _ _ => exact ht.elim
  | missing _ => exact ht.2.2
  | asked hw _ =>
    obtain ⟨rfl, rfl, hdelivered⟩ := ht
    obtain ⟨huuid, hname⟩ := uuid_of_getWorker hi hw
    exact ⟨huuid, hname, rfl, hdelivered⟩
  | created id now _ =>
    obtain ⟨huuid, hname, rfl, _⟩ := ht
    exact ⟨huuid, rfl, rfl, hname, rfl⟩
  | answered _ =>
    obtain ⟨huuid, hdirection, hcontent, _⟩ := ht
    exact ⟨huuid, hdirection, hcontent, hreply rfl⟩
  | sent _ => exact ht.2.2.2
  | notSent _ _ => trivial
  | received msg _ _ _ => exact ht.elim
  | refused _ => exact ht.elim

theorem TextStep.talksTo (h : TextStep s i i' t ans t') (hi : i.Ordered) (ht' : t'.TalksTo b) :
    t.TalksTo b := by
  cases h with
  | other _ htext _ _ =>
    unfold Activity.TalksTo at ht'
    split at ht'
    · cases htext
    · cases htext
    · cases htext
    · cases htext
    · exact ht'.elim
  | asked hw _ => exact (uuid_of_getWorker hi hw).1.symm.trans ht'
  | created id now _ => exact ht'
  | answered _ => exact ht'
  | inserted _ _ _ | missing _ | sent _ | notSent _ _ | received _ _ _ _ | refused _ =>
    exact ht'.elim

theorem TextStep.handles (h : TextStep s i i' t ans t') (ht : t.Handles a text) :
    t'.Handles a text := by
  cases h with
  | other htext _ _ _ =>
    unfold Activity.Handles at ht
    split at ht
    · cases htext
    · cases htext
    · exact ht.elim
  | received _ _ _ _ | refused _ => trivial
  | inserted _ _ _ | missing _ | asked _ _ | created _ _ _ | answered _ | sent _ | notSent _ _ =>
    exact ht.elim

/-- A handler begins with its request, and no step leads to one. -/
theorem TextStep.not_hearsFrom (h : TextStep s i i' t ans t') : ¬ t'.HearsFrom a := by
  intro ht'
  cases h with
  | other _ htext _ _ =>
    unfold Activity.HearsFrom at ht'
    split at ht'
    · cases htext
    · exact ht'
  | inserted _ _ _ | missing _ | asked _ _ | created _ _ _ | answered _ | sent _ | notSent _ _
  | received _ _ _ _ | refused _ => exact ht'.elim

/-- What has returned takes no step. -/
theorem TextStep.not_isOk (h : TextStep s i i' t ans t') : t.isOk = false := by
  unfold Activity.isOk
  split
  · cases h with
    | other htext _ _ _ => cases htext
    | notSent hpc _ => exact absurd rfl (hpc _)
  · cases h with
    | other htext _ _ _ => cases htext
  · rfl

/-- A message of its own is marked as sent from the beginning. -/
theorem TextStep.outgoing (h : TextStep s i i' t ans t')
    (ht : ∀ w msg, t = .sendMessage w (.add msg) ∨
      (∃ req, t = .sendMessage w (.request msg req)) → msg.direction = .sent)
    {w : Worker} {msg : Message} (ht' : t' = .sendMessage w (.add msg) ∨
      ∃ req, t' = .sendMessage w (.request msg req)) : msg.direction = .sent := by
  cases h with
  | other _ htext _ _ =>
    rcases ht' with rfl | ⟨req, rfl⟩
    · cases htext
    · cases htext
  | created id now _ =>
    rcases ht' with heq | ⟨req, heq⟩
    · cases heq
    · cases heq
      rfl
  | answered _ =>
    rcases ht' with heq | ⟨req, heq⟩
    · cases heq
      exact ht _ _ (.inr ⟨_, rfl⟩)
    · cases heq
  | inserted _ _ _ | missing _ | asked _ _ | sent _ | notSent _ _ | received _ _ _ _ | refused _ =>
    rcases ht' with heq | ⟨req, heq⟩
    · cases heq
    · cases heq

theorem isOk_of_not_isText (h : t.isText = false) : t.isOk = false := by
  unfold Activity.isOk
  split
  · cases h
  · cases h
  · rfl

end taskSteps

/-! ## Section 3: Books -/

namespace Conversation

section books

variable {calls : List (Nat × String)} {p p' : Nat → Bool} {n : Nat} {text : String}

theorem textsOf_congr (h : ∀ c ∈ calls, p' c.1 = p c.1) : textsOf calls p' = textsOf calls p := by
  unfold textsOf
  rw [List.filter_congr h]

theorem textsOf_mono (h : ∀ c ∈ calls, p c.1 = true → p' c.1 = true) :
    (textsOf calls p).Sublist (textsOf calls p') := by
  refine List.Sublist.map _ ?_
  induction calls with
  | nil => exact .slnil
  | cons c calls ih =>
    have hrest := ih fun c' hc' => h c' (List.mem_cons_of_mem _ hc')
    have hfirst := h c List.mem_cons_self
    by_cases hc : p c.1 = true
    · simp only [List.filter_cons, hc, hfirst hc, if_true]
      exact hrest.cons_cons c
    · rw [List.filter_cons, if_neg hc]
      exact hrest.trans (List.Sublist.filter _ (List.sublist_cons_self _ _))

theorem textsOf_append (h : p n = false) (text : String) :
    textsOf (calls ++ [(n, text)]) p = textsOf calls p := by
  simp [textsOf, h]

/-- One more call satisfies the condition. -/
theorem textsOf_perm_cons (hnodup : (calls.map Prod.fst).Nodup) (hc : (n, text) ∈ calls)
    (hold : p n = false) (hnew : p' n = true) (hsame : ∀ c ∈ calls, c.1 ≠ n → p' c.1 = p c.1) :
    (textsOf calls p').Perm (text :: textsOf calls p) := by
  induction calls with
  | nil => cases hc
  | cons c calls ih =>
    obtain ⟨hnot, hrest⟩ := List.nodup_cons.1 hnodup
    unfold textsOf at ih ⊢
    rcases List.mem_cons.1 hc with rfl | hmem
    · -- the numbers of the others differ from `n`
      have hothers : ∀ c ∈ calls, p' c.1 = p c.1 := by
        intro c hmem
        refine hsame c (List.mem_cons_of_mem _ hmem) ?_
        rintro rfl
        exact hnot (List.mem_map.2 ⟨c, hmem, rfl⟩)
      rw [List.filter_cons, List.filter_cons, List.filter_congr hothers]
      simp only [hold, hnew, if_true, Bool.false_eq_true, if_false]
      exact .refl _
    · have hne : c.1 ≠ n := by
        intro heq
        exact hnot (List.mem_map.2 ⟨(n, text), hmem, heq.symm⟩)
      have htail := ih hrest hmem fun c' hc' => hsame c' (List.mem_cons_of_mem _ hc')
      have hhead := hsame c List.mem_cons_self hne
      by_cases hp : p c.1 = true
      · simp only [List.filter_cons, hp, hhead.trans hp, if_true]
        exact (htail.cons c.2).trans (.swap _ _ _)
      · have hp' : ¬ p' c.1 = true := by
          rw [hhead]
          exact hp
        rw [List.filter_cons, List.filter_cons, if_neg hp, if_neg hp']
        exact htail

end books

/-- What a step adds to the messages it adds to the calls, unless messages are
    taken away. -/
inductive Booked (texts calls texts' calls' : List String) (lossy : Bool) : Prop
  | kept (new : List String) : texts' = texts ++ new → calls'.Perm (new ++ calls) →
      Booked texts calls texts' calls' lossy
  | lost : lossy = true → texts'.Sublist texts → calls' = calls →
      Booked texts calls texts' calls' lossy

section booked

variable {texts calls texts' calls' : List String} {lossy : Bool}

theorem Booked.same (htexts : texts' = texts) (hcalls : calls' = calls) :
    Booked texts calls texts' calls' lossy :=
  .kept [] (by rw [htexts, List.append_nil]) (by rw [hcalls]; exact .refl _)

theorem Booked.one (text : String) (htexts : texts' = texts ++ [text])
    (hcalls : calls'.Perm (text :: calls)) : Booked texts calls texts' calls' lossy :=
  .kept [text] htexts hcalls

theorem Booked.subperm (h : Booked texts calls texts' calls' lossy) (hsub : texts.Subperm calls) :
    texts'.Subperm calls' := by
  cases h with
  | kept new htexts hcalls =>
    rw [htexts]
    have happend : (new ++ texts).Subperm (new ++ calls) := (List.subperm_append_left new).2 hsub
    exact (List.perm_append_comm.subperm.trans happend).trans hcalls.symm.subperm
  | lost _ htexts hcalls =>
    rw [hcalls]
    exact htexts.subperm.trans hsub

theorem Booked.perm (h : Booked texts calls texts' calls' lossy) (hkeeps : lossy = false)
    (hperm : texts.Perm calls) : texts'.Perm calls' := by
  cases h with
  | kept new htexts hcalls =>
    rw [htexts]
    exact (List.perm_append_comm.trans (hperm.append_left new)).trans hcalls.symm
  | lost hlossy _ _ =>
    rw [hkeeps] at hlossy
    cases hlossy

end booked

/-! ## Section 4: What a step books -/

section booking

variable {s : Settings} {p : Running} {i' : Instance} {n : Nat} {t t' : Activity}
  {ans : ActivityAnswer} {spawned : List Activity} {a b : String}

theorem okAt_self (ht : p.tasks[n]? = some t) : okAt p.tasks n = t.isOk := by
  rw [okAt, ht]
  rfl

theorem okAt_run_self (ht : p.tasks[n]? = some t) :
    okAt (p.tasks.set n t' ++ spawned) n = t'.isOk := by
  rw [okAt, Tasking.getElem?_run_self ht]
  rfl

theorem okAt_run_of_ne {m : Nat} {u : Activity} (hu : p.tasks[m]? = some u) (hne : m ≠ n) :
    okAt (p.tasks.set n t' ++ spawned) m = okAt p.tasks m := by
  rw [okAt, okAt, Tasking.getElem?_run_of_ne hu hne, hu]

/-- What a step of the sender books. -/
theorem sender_booked {calls : List (Nat × String)} (hnodup : (calls.map Prod.fst).Nodup)
    (hcalled : ∀ c ∈ calls, ∃ t, p.tasks[c.1]? = some t ∧ ∃ delivered stored,
      t.Calls a b c.2 delivered stored)
    (hcall : ∀ n t, p.tasks[n]? = some t → t.TalksTo b → n ∈ calls.map Prod.fst)
    (ht : p.tasks[n]? = some t) (hstep : TextStep s p.shared i' t ans t') :
    Booked (p.shared.texts b .sent) (textsOf calls (okAt p.tasks)) (i'.texts b .sent)
      (textsOf calls (okAt (p.tasks.set n t' ++ spawned))) (p.discards b (.run n ans)) := by
  have hothers : ∀ c ∈ calls, c.1 ≠ n →
      okAt (p.tasks.set n t' ++ spawned) c.1 = okAt p.tasks c.1 := by
    intro c hc hne
    obtain ⟨u, hu, _⟩ := hcalled c hc
    exact okAt_run_of_ne hu hne
  -- the calls stay as they are if the step has no success, or is not one of a call
  have hsame : (t'.isOk = t.isOk ∨ ∀ text d st, ¬ t.Calls a b text d st) →
      textsOf calls (okAt (p.tasks.set n t' ++ spawned)) = textsOf calls (okAt p.tasks) := by
    intro hcases
    refine textsOf_congr fun c hc => ?_
    by_cases hne : c.1 = n
    · obtain ⟨u, hu, _, _, hcalls⟩ := hcalled c hc
      rw [hne, ht] at hu
      cases hu
      rw [hne, okAt_run_self ht, okAt_self ht]
      exact hcases.resolve_right fun hnone => hnone _ _ _ hcalls
    · exact hothers c hc hne
  cases hstep with
  | other htext htext' _ hmessages =>
    have hok := (isOk_of_not_isText htext').trans (isOk_of_not_isText htext).symm
    exact .same (texts_congr (hmessages b)) (hsame (.inl hok))
  | inserted r hr hmessages =>
    by_cases hk : r.uuid = b
    · cases hremote : p.shared.remote b with
      | none =>
        refine .same (texts_congr ?_) (hsame (.inl rfl))
        rw [hmessages, if_pos hk.symm, Instance.messages, hremote]
        rfl
      | some old =>
        refine .lost ?_ (texts_sublist ?_) (hsame (.inl rfl))
        · simp [Running.discards, ht, hr, hk, hremote]
        · rw [hmessages, if_pos hk.symm]
          exact List.nil_sublist _
    · exact .same (texts_congr (by rw [hmessages, if_neg (Ne.symm hk)])) (hsame (.inl rfl))
  | missing hi => exact .same (by rw [hi]) (hsame (.inl rfl))
  | asked _ hi => exact .same (by rw [hi]) (hsame (.inl rfl))
  | created id now hmessages => exact .same (texts_congr (hmessages b)) (hsame (.inl rfl))
  | answered hi => exact .same (by rw [hi]) (hsame (.inl rfl))
  | sent hmessages =>
    next w msg =>
    by_cases hw : w.uuid = b
    · obtain ⟨c, hc, rfl⟩ := List.mem_map.1 (hcall n _ ht hw)
      obtain ⟨u, hu, _, _, hcalls⟩ := hcalled c hc
      cases ht.symm.trans hu
      obtain ⟨_, hdirection, hcontent, _⟩ := hcalls
      refine .one c.2 ?_ (textsOf_perm_cons hnodup hc ?_ ?_ fun c' hc' hne => hothers c' hc' hne)
      · rw [texts_append ((hmessages b).trans (if_pos hw.symm)), if_pos hdirection, hcontent]
      · rw [okAt_self ht]
        rfl
      · rw [okAt_run_self ht]
        rfl
    · refine .same (texts_congr ((hmessages b).trans (if_neg (Ne.symm hw)))) (hsame (.inr ?_))
      exact fun _ _ _ hcalls => hw hcalls.1
  | notSent hpc hmessages =>
    next w pc e =>
    refine .same (texts_congr (hmessages b)) (hsame (.inl ?_))
    cases pc with
    | returned r => exact absurd rfl (hpc r)
    | start _ => rfl
    | request _ _ => rfl
    | add _ => rfl
  | received msg hdirection _ hmessages =>
    next req _ =>
    refine .same ?_ (hsame (.inr fun _ _ _ hcalls => hcalls))
    by_cases hk : b = req.ident
    · rw [texts_append ((hmessages b).trans (if_pos hk)), hdirection, if_neg (by decide),
        List.append_nil]
    · exact texts_congr ((hmessages b).trans (if_neg hk))
  | refused hmessages => exact .same (texts_congr (hmessages b)) (hsame (.inl rfl))

/-- What a step of the receiver books. -/
theorem receiver_booked {calls : List (Nat × String)} {handler : Nat → Option Nat}
    (hnodup : (calls.map Prod.fst).Nodup)
    (hhandled : ∀ c ∈ calls, ∀ j, handler c.1 = some j →
      ∃ t, p.tasks[j]? = some t ∧ t.Handles a c.2)
    (hhandler : ∀ j t, p.tasks[j]? = some t → t.HearsFrom a →
      ∃ n ∈ calls.map Prod.fst, handler n = some j)
    (honce : ∀ n n' j, handler n = some j → handler n' = some j → n = n')
    (houtgoing : ∀ t ∈ p.tasks, ∀ w msg, t = .sendMessage w (.add msg) ∨
      (∃ req, t = .sendMessage w (.request msg req)) → msg.direction = .sent)
    (ht : p.tasks[n]? = some t) (hstep : TextStep s p.shared i' t ans t') :
    Booked (p.shared.texts a .received) (textsOf calls fun m => (handler m).any (okAt p.tasks))
      (i'.texts a .received)
      (textsOf calls fun m => (handler m).any (okAt (p.tasks.set n t' ++ spawned)))
      (p.discards a (.run n ans)) := by
  -- the step ends no handler but the one of its own task
  have hothers : ∀ c ∈ calls, handler c.1 ≠ some n →
      (handler c.1).any (okAt (p.tasks.set n t' ++ spawned))
        = (handler c.1).any (okAt p.tasks) := by
    intro c hc hne
    cases hj : handler c.1 with
    | none => rfl
    | some j =>
      obtain ⟨u, hu, _⟩ := hhandled c hc j hj
      have hjn : j ≠ n := by
        rintro rfl
        exact hne hj
      exact okAt_run_of_ne hu hjn
  -- and a step that ends no call from `a` adds no text to what is booked
  have hsame : (t'.isOk = t.isOk ∨ ∀ text, ¬ t.Handles a text) →
      textsOf calls (fun m => (handler m).any (okAt (p.tasks.set n t' ++ spawned)))
        = textsOf calls fun m => (handler m).any (okAt p.tasks) := by
    intro hcases
    refine textsOf_congr fun c hc => ?_
    by_cases hn : handler c.1 = some n
    · obtain ⟨u, hu, hhandles⟩ := hhandled c hc n hn
      cases ht.symm.trans hu
      rw [hn]
      show okAt _ n = okAt _ n
      rw [okAt_run_self ht, okAt_self ht]
      exact hcases.resolve_right fun hnone => hnone _ hhandles
    · exact hothers c hc hn
  cases hstep with
  | other htext htext' _ hmessages =>
    have hok := (isOk_of_not_isText htext').trans (isOk_of_not_isText htext).symm
    exact .same (texts_congr (hmessages a)) (hsame (.inl hok))
  | inserted r hr hmessages =>
    by_cases hk : r.uuid = a
    · cases hremote : p.shared.remote a with
      | none =>
        refine .same (texts_congr ?_) (hsame (.inl rfl))
        rw [hmessages, if_pos hk.symm, Instance.messages, hremote]
        rfl
      -- the new record starts without the messages of the one it replaces
      | some old =>
        refine .lost ?_ (texts_sublist ?_) (hsame (.inl rfl))
        · simp [Running.discards, ht, hr, hk, hremote]
        · rw [hmessages, if_pos hk.symm]
          exact List.nil_sublist _
    · exact .same (texts_congr (by rw [hmessages, if_neg (Ne.symm hk)])) (hsame (.inl rfl))
  | missing hi => exact .same (by rw [hi]) (hsame (.inl rfl))
  | asked _ hi => exact .same (by rw [hi]) (hsame (.inl rfl))
  | created id now hmessages => exact .same (texts_congr (hmessages a)) (hsame (.inl rfl))
  | answered hi => exact .same (by rw [hi]) (hsame (.inl rfl))
  | sent hmessages =>
    next w msg =>
    refine .same ?_ (hsame (.inr fun _ hhandles => hhandles))
    by_cases hk : a = w.uuid
    -- a message of this host's own is not among the received ones
    · have hdirection := houtgoing _ (List.mem_of_getElem? ht) w msg (.inl rfl)
      rw [texts_append ((hmessages a).trans (if_pos hk)), hdirection, if_neg (by decide),
        List.append_nil]
    · exact texts_congr ((hmessages a).trans (if_neg hk))
  | notSent hpc hmessages =>
    exact .same (texts_congr (hmessages a)) (hsame (.inr fun _ hhandles => hhandles))
  | received msg hdirection hcontent hmessages =>
    next req =>
    by_cases hk : req.ident = a
    -- the handler of one call: it stores the text of that call and ends well
    · obtain ⟨m, hm, hj⟩ := hhandler n _ ht hk
      obtain ⟨c, hc, rfl⟩ := List.mem_map.1 hm
      obtain ⟨u, hu, hhandles⟩ := hhandled c hc n hj
      cases ht.symm.trans hu
      refine .one c.2 ?_ (textsOf_perm_cons hnodup hc ?_ ?_ fun c' hc' hne => ?_)
      · rw [texts_append ((hmessages a).trans (if_pos hk.symm)), if_pos hdirection, hcontent,
          hhandles.2]
      · rw [hj]
        show okAt _ n = false
        rw [okAt_self ht]
        rfl
      · rw [hj]
        show okAt _ n = true
        rw [okAt_run_self ht]
        rfl
      · exact hothers c' hc' fun hj' => hne (honce _ _ n hj' hj)
    · refine .same (texts_congr ((hmessages a).trans (if_neg (Ne.symm hk)))) (hsame (.inr ?_))
      exact fun _ hhandles => hk hhandles.1
  | refused hmessages => exact .same (texts_congr (hmessages a)) (hsame (.inl rfl))

end booking

/-! ## Section 5: Every step -/

section steps

variable {sa sb : Settings} {v v' : Conversation}

/-- Where the calls stand after a step of the sender that does not say anything. -/
theorem Sound.sender_step {a b : String} (h : v.Sound a b) {p : Running} (hp : p.Sound)
    (hcalled : ∀ c ∈ v.calls, ∃ t, p.tasks[c.1]? = some t ∧
      t.Calls a b c.2 (v.handler c.1).isSome (v.storedBy c.1))
    (hcall : ∀ n t, p.tasks[n]? = some t → t.TalksTo b → n ∈ v.calls.map Prod.fst) :
    ({ v with sender := p } : Conversation).Sound a b :=
  { h with sender := hp, called := hcalled, call := hcall }

theorem Sound.sender_run (h : v.Sound sa.serverFullname sb.serverFullname) {n : Nat}
    {ans : ActivityAnswer} {p : Running} (hmay : v.senderMay sb.serverFullname (.run n ans) = true)
    (hstep : (activities sa).poolStep v.sender (.run n ans) = some p) :
    ({ v with sender := p } : Conversation).Sound sa.serverFullname sb.serverFullname := by
  have hp := sound_step h.sender hstep
  obtain ⟨t, i', t', spawned, ht, hrun, rfl⟩ := Tasking.run_cases hstep
  obtain ⟨htext, hspawned⟩ := activity_textStep (h.sender.sound t (List.mem_of_getElem? ht)) hrun
  refine h.sender_step hp (fun c hc => ?_) fun m u hu htalks => ?_
  · obtain ⟨u, hu, hcalls⟩ := h.called c hc
    by_cases hne : c.1 = n
    · rw [hne, ht] at hu
      cases hu
      refine ⟨t', ?_, htext.calls h.sender.ordered hcalls fun hans => ?_⟩
      · rw [hne]
        exact Tasking.getElem?_run_self ht _ _
      · -- a reply with success is waited for
        rw [hans] at hmay
        have hmem : n ∈ v.calls.map Prod.fst := List.mem_map.2 ⟨c, hc, hne⟩
        have hcases : n ∉ v.calls.map Prod.fst ∨ v.storedBy n = true := by
          simpa [senderMay] using hmay
        rw [hne]
        exact hcases.resolve_left (not_not_intro hmem)
    · exact ⟨u, Tasking.getElem?_run_of_ne hu hne _ _, hcalls⟩
  · rcases Tasking.getElem?_run_cases ht hu with ⟨rfl, rfl⟩ | ⟨_, hold⟩ | hnew
    · exact h.call m t ht (htext.talksTo h.sender.ordered htalks)
    · exact h.call m u hold htalks
    · have hnot := hspawned u hnew
      unfold Activity.TalksTo at htalks
      split at htalks
      · cases hnot
      · cases hnot
      · cases hnot
      · cases hnot
      · exact htalks.elim

theorem Sound.sender_other (h : v.Sound sa.serverFullname sb.serverFullname) {l : RunningLabel}
    {p : Running} (hmay : v.senderMay sb.serverFullname l = true)
    (hstep : (activities sa).poolStep v.sender l = some p) :
    ({ v with sender := p } : Conversation).Sound sa.serverFullname sb.serverFullname := by
  have hp := sound_step h.sender hstep
  cases l with
  | run n ans => exact h.sender_run hmay hstep
  | enter t =>
    obtain ⟨hnew, rfl⟩ := Tasking.enter_cases hstep
    refine h.sender_step hp (fun c hc => ?_) fun n u hu htalks => ?_
    · obtain ⟨u, hu, hcalls⟩ := h.called c hc
      exact ⟨u, Tasking.getElem?_enter_of_some hu t, hcalls⟩
    · rcases Tasking.getElem?_enter_cases hu with hold | ⟨_, rfl⟩
      · exact h.call n u hold htalks
      · -- a call for the receiver is made by `say`
        unfold Activity.TalksTo at htalks
        split at htalks
        · next uuid text =>
          have hne : uuid ≠ sb.serverFullname := by simpa [senderMay] using hmay
          exact absurd htalks hne
        · cases hnew
        · cases hnew
        · cases hnew
        · exact htalks.elim
  | env e =>
    cases hstep
    exact h.sender_step hp h.called h.call

theorem Sound.lt_of_call {a b : String} (h : v.Sound a b) {n : Nat}
    (hn : n ∈ v.calls.map Prod.fst) : n < v.sender.next := by
  obtain ⟨c, hc, rfl⟩ := List.mem_map.1 hn
  obtain ⟨t, ht, _⟩ := h.called c hc
  exact (List.getElem?_eq_some_iff.1 ht).1

/-- A new call is not delivered yet. -/
theorem Sound.handler_next {a b : String} (h : v.Sound a b) : v.handler v.sender.next = none := by
  cases hj : v.handler v.sender.next with
  | none => rfl
  | some j =>
    have hmem := h.delivered v.sender.next (by rw [hj]; rfl)
    exact absurd (h.lt_of_call hmem) (Nat.lt_irrefl _)

theorem Sound.said (h : v.Sound sa.serverFullname sb.serverFullname) {text : String} {p : Running}
    (hstep : (activities sa).poolStep v.sender
      (.enter (.getWorker sb.serverFullname (.sendMessage text))) = some p) :
    ({ v with sender := p, calls := v.calls ++ [(v.sender.next, text)] } : Conversation).Sound
      sa.serverFullname sb.serverFullname := by
  have hp := sound_step h.sender hstep
  obtain ⟨_, rfl⟩ := Tasking.enter_cases hstep
  have hnext := h.handler_next
  constructor
  case sender => exact hp
  case receiver => exact h.receiver
  case calls =>
    rw [List.map_append, List.nodup_append]
    refine ⟨h.calls, List.pairwise_singleton _ _, fun n hn m hm => ?_⟩
    have hlt := h.lt_of_call hn
    rw [List.map_singleton, List.mem_singleton] at hm
    omega
  case called =>
    intro c hc
    rcases List.mem_append.1 hc with hold | hnew
    · obtain ⟨t, ht, hcalls⟩ := h.called c hold
      exact ⟨t, Tasking.getElem?_enter_of_some ht _, hcalls⟩
    · obtain rfl := List.mem_singleton.1 hnew
      refine ⟨_, List.getElem?_concat_length, rfl, rfl, ?_⟩
      rw [hnext]
      rfl
  case call =>
    intro n t ht htalks
    rw [List.map_append, List.mem_append]
    rcases Tasking.getElem?_enter_cases ht with hold | ⟨rfl, _⟩
    · exact .inl (h.call n t hold htalks)
    · exact .inr (List.mem_singleton_self _)
  case handled =>
    intro c hc j hj
    rcases List.mem_append.1 hc with hold | hnew
    · exact h.handled c hold j hj
    · obtain rfl := List.mem_singleton.1 hnew
      rw [hnext] at hj
      cases hj
  case handler =>
    intro j t ht hhears
    obtain ⟨n, hn, hj⟩ := h.handler j t ht hhears
    exact ⟨n, by rw [List.map_append]; exact List.mem_append_left _ hn, hj⟩
  case once => exact h.once
  case delivered =>
    intro n hn
    rw [List.map_append]
    exact List.mem_append_left _ (h.delivered n hn)
  case outgoing => exact h.outgoing

theorem Sound.lt_of_handler {a b : String} (h : v.Sound a b) {n j : Nat}
    (hj : v.handler n = some j) : j < v.receiver.next := by
  obtain ⟨c, hc, rfl⟩ := List.mem_map.1 (h.delivered n (by rw [hj]; rfl))
  obtain ⟨t, ht, _⟩ := h.handled c hc j hj
  exact (List.getElem?_eq_some_iff.1 ht).1

/-- Where the calls stand after a step of the receiver. -/
theorem Sound.receiver_step {a b : String} (h : v.Sound a b) {q : Running} (hq : q.Sound)
    (hhandled : ∀ c ∈ v.calls, ∀ j, v.handler c.1 = some j →
      ∃ t, q.tasks[j]? = some t ∧ t.Handles a c.2)
    (hhandler : ∀ j t, q.tasks[j]? = some t → t.HearsFrom a →
      ∃ n ∈ v.calls.map Prod.fst, v.handler n = some j)
    (houtgoing : ∀ t ∈ q.tasks, ∀ w msg, t = .sendMessage w (.add msg) ∨
      (∃ req, t = .sendMessage w (.request msg req)) → msg.direction = .sent)
    (hstored : ∀ n, v.storedBy n = true → (v.handler n).any (okAt q.tasks) = true) :
    ({ v with receiver := q } : Conversation).Sound a b := by
  refine { h with
    receiver := hq, handled := hhandled, handler := hhandler, outgoing := houtgoing
    called := fun c hc => ?_ }
  obtain ⟨t, ht, hcalls⟩ := h.called c hc
  refine ⟨t, ht, ?_⟩
  -- what has been handled stays so
  unfold Activity.Calls at hcalls ⊢
  split at hcalls
  · exact hcalls
  · exact hcalls
  · exact hcalls
  · exact hcalls
  · exact ⟨hcalls.1, hcalls.2.1, hcalls.2.2.1, hstored c.1 hcalls.2.2.2⟩
  · exact hstored c.1 hcalls
  · trivial
  · exact hcalls.elim

theorem Sound.receiver_run {a b : String} (h : v.Sound a b) {n : Nat} {ans : ActivityAnswer}
    {q : Running} (hstep : (activities sb).poolStep v.receiver (.run n ans) = some q) :
    ({ v with receiver := q } : Conversation).Sound a b := by
  have hq := sound_step h.receiver hstep
  obtain ⟨t, i', t', spawned, ht, hrun, rfl⟩ := Tasking.run_cases hstep
  have hmem := List.mem_of_getElem? ht
  obtain ⟨htext, hspawned⟩ := activity_textStep (h.receiver.sound t hmem) hrun
  refine h.receiver_step hq (fun c hc j hj => ?_) (fun j u hu hhears => ?_)
    (fun u hu w msg hpending => ?_) fun m hm => ?_
  · obtain ⟨u, hu, hhandles⟩ := h.handled c hc j hj
    by_cases hne : j = n
    · subst hne
      cases ht.symm.trans hu
      exact ⟨t', Tasking.getElem?_run_self ht _ _, htext.handles hhandles⟩
    · exact ⟨u, Tasking.getElem?_run_of_ne hu hne _ _, hhandles⟩
  · rcases Tasking.getElem?_run_cases ht hu with ⟨rfl, rfl⟩ | ⟨_, hold⟩ | hnew
    · exact absurd hhears htext.not_hearsFrom
    · exact h.handler j u hold hhears
    · have hnot := hspawned u hnew
      unfold Activity.HearsFrom at hhears
      split at hhears
      · cases hnot
      · exact hhears.elim
  · rcases List.mem_append.1 hu with hset | hnew
    · rcases List.mem_or_eq_of_mem_set hset with hold | rfl
      · exact h.outgoing u hold w msg hpending
      · exact htext.outgoing (h.outgoing t hmem) hpending
    · have hnot := hspawned u hnew
      rcases hpending with rfl | ⟨req, rfl⟩
      · cases hnot
      · cases hnot
  · obtain ⟨j, hj, hok⟩ := storedBy_iff.1 hm
    obtain ⟨u, hu, hisOk⟩ := okAt_iff.1 hok
    have hne : j ≠ n := by
      rintro rfl
      cases ht.symm.trans hu
      rw [htext.not_isOk] at hisOk
      cases hisOk
    refine (Option.any_eq_true _ _).2 ⟨j, hj, ?_⟩
    rw [okAt_run_of_ne hu hne]
    exact hok

theorem Sound.receiver_other (h : v.Sound sa.serverFullname sb.serverFullname) {l : RunningLabel}
    {q : Running} (hmay : receiverMay sa.serverFullname l = true)
    (hstep : (activities sb).poolStep v.receiver l = some q) :
    ({ v with receiver := q } : Conversation).Sound sa.serverFullname sb.serverFullname := by
  have hq := sound_step h.receiver hstep
  cases l with
  | run n ans => exact h.receiver_run hstep
  | enter t =>
    obtain ⟨hnew, rfl⟩ := Tasking.enter_cases hstep
    refine h.receiver_step hq (fun c hc j hj => ?_) (fun j u hu hhears => ?_)
      (fun u hu w msg hpending => ?_) fun m hm => ?_
    · obtain ⟨u, hu, hhandles⟩ := h.handled c hc j hj
      exact ⟨u, Tasking.getElem?_enter_of_some hu t, hhandles⟩
    · rcases Tasking.getElem?_enter_cases hu with hold | ⟨_, rfl⟩
      · exact h.handler j u hold hhears
      · unfold Activity.HearsFrom at hhears
        split at hhears
        · next req =>
          have hne : req.ident ≠ sa.serverFullname := by simpa [receiverMay] using hmay
          exact absurd hhears hne
        · exact hhears.elim
    · rcases List.mem_append.1 hu with hold | hself
      · exact h.outgoing u hold w msg hpending
      · obtain rfl := List.mem_singleton.1 hself
        rcases hpending with rfl | ⟨req, rfl⟩
        · cases hnew
        · cases hnew
    · obtain ⟨j, hj, hok⟩ := storedBy_iff.1 hm
      refine (Option.any_eq_true _ _).2 ⟨j, hj, ?_⟩
      exact (okAt_enter (h.lt_of_handler hj) t).trans hok
  | env e =>
    cases hstep
    exact h.receiver_step hq h.handled h.handler h.outgoing fun _ hm => hm

theorem Sound.arrived {a b : String} (h : v.Sound a b) {n : Nat} {w : Worker} {msg : Message}
    {req : TextMessage} {q : Running}
    (ht : v.sender.tasks[n]? = some (.sendMessage w (.request msg req)))
    (hn : v.handler n = none) (hmem : n ∈ v.calls.map Prod.fst)
    (hstep : (activities sb).poolStep v.receiver (.enter (.sendTextMessage (.add req))) = some q) :
    ({ v with receiver := q, handler := Function.update v.handler n (some v.receiver.next) } :
      Conversation).Sound a b := by
  have hq := sound_step h.receiver hstep
  obtain ⟨_, rfl⟩ := Tasking.enter_cases hstep
  -- the request of another call stays where it is
  have hupdate : ∀ m, m ≠ n →
      Function.update v.handler n (some v.receiver.next) m = v.handler m :=
    fun m hne => Function.update_of_ne hne _ _
  have hself : Function.update v.handler n (some v.receiver.next) n = some v.receiver.next :=
    Function.update_self n _ _
  have hold : ∀ m j, v.handler m = some j →
      Function.update v.handler n (some v.receiver.next) m = some j := by
    intro m j hj
    rw [hupdate m (fun heq => by rw [heq, hn] at hj; cases hj)]
    exact hj
  have hcases : ∀ m j, Function.update v.handler n (some v.receiver.next) m = some j →
      v.handler m = some j ∨ (m = n ∧ j = v.receiver.next) := by
    intro m j hj
    by_cases hne : m = n
    · rw [hne, hself] at hj
      exact .inr ⟨hne, (Option.some.inj hj).symm⟩
    · rw [hupdate m hne] at hj
      exact .inl hj
  have hrequest : ∀ c ∈ v.calls, c.1 = n → req.ident = a ∧ req.message = c.2 := by
    intro c hc heq
    obtain ⟨u, hu, hcalls⟩ := h.called c hc
    rw [heq, ht] at hu
    cases hu
    exact hcalls.2.2.2
  constructor
  case sender => exact h.sender
  case receiver => exact hq
  case calls => exact h.calls
  case called =>
    intro c hc
    obtain ⟨u, hu, hcalls⟩ := h.called c hc
    refine ⟨u, hu, ?_⟩
    by_cases hne : c.1 = n
    · rw [hne, ht] at hu
      cases hu
      exact hcalls
    · have hstored : ({ v with
          receiver := { v.receiver with tasks := v.receiver.tasks ++ [.sendTextMessage (.add req)] }
          handler := Function.update v.handler n (some v.receiver.next) } :
            Conversation).storedBy c.1
            = v.storedBy c.1 := by
        unfold storedBy
        dsimp only
        rw [hupdate c.1 hne]
        cases hj : v.handler c.1 with
        | none => rfl
        | some j => exact okAt_enter (h.lt_of_handler hj) _
      rw [hstored]
      dsimp only
      rw [hupdate c.1 hne]
      exact hcalls
  case call => exact h.call
  case handled =>
    intro c hc j hj
    rcases hcases c.1 j hj with hj | ⟨heq, rfl⟩
    · obtain ⟨u, hu, hhandles⟩ := h.handled c hc j hj
      exact ⟨u, Tasking.getElem?_enter_of_some hu _, hhandles⟩
    · exact ⟨_, List.getElem?_concat_length, hrequest c hc heq⟩
  case handler =>
    intro j u hu hhears
    rcases Tasking.getElem?_enter_cases hu with hu | ⟨rfl, rfl⟩
    · obtain ⟨m, hm, hj⟩ := h.handler j u hu hhears
      exact ⟨m, hm, hold m j hj⟩
    · exact ⟨n, hmem, hself⟩
  case once =>
    intro m m' j hj hj'
    rcases hcases m j hj with hj | ⟨rfl, rfl⟩
    · rcases hcases m' j hj' with hj' | ⟨_, rfl⟩
      · exact h.once m m' j hj hj'
      · exact absurd (h.lt_of_handler hj) (Nat.lt_irrefl _)
    · rcases hcases m' _ hj' with hj' | ⟨rfl, _⟩
      · exact absurd (h.lt_of_handler hj') (Nat.lt_irrefl _)
      · rfl
  case delivered =>
    intro m hm
    by_cases hne : m = n
    · rw [hne]
      exact hmem
    · dsimp only at hm
      rw [hupdate m hne] at hm
      exact h.delivered m hm
  case outgoing =>
    intro u hu w' msg' hpending
    rcases List.mem_append.1 hu with hu | hnew
    · exact h.outgoing u hu w' msg' hpending
    · obtain rfl := List.mem_singleton.1 hnew
      rcases hpending with heq | ⟨req', heq⟩
      · cases heq
      · cases heq

/-- The moves of a conversation. -/
inductive Move (sa sb : Settings) (v : Conversation) : ConversationLabel → Conversation → Prop
  | say {text : String} {p : Running} :
      (activities sa).poolStep v.sender
        (.enter (.getWorker sb.serverFullname (.sendMessage text))) = some p →
      Move sa sb v (.say text)
        { v with sender := p, calls := v.calls ++ [(v.sender.next, text)] }
  | deliver {n : Nat} {w : Worker} {msg : Message} {req : TextMessage} {q : Running} :
      v.sender.tasks[n]? = some (.sendMessage w (.request msg req)) → v.handler n = none →
      n ∈ v.calls.map Prod.fst →
      (activities sb).poolStep v.receiver (.enter (.sendTextMessage (.add req))) = some q →
      Move sa sb v (.deliver n)
        { v with receiver := q, handler := Function.update v.handler n (some v.receiver.next) }
  | sender {l : RunningLabel} {p : Running} : v.senderMay sb.serverFullname l = true →
      (activities sa).poolStep v.sender l = some p → Move sa sb v (.sender l) { v with sender := p }
  | receiver {l : RunningLabel} {q : Running} : receiverMay sa.serverFullname l = true →
      (activities sb).poolStep v.receiver l = some q →
      Move sa sb v (.receiver l) { v with receiver := q }

theorem step_move {l : ConversationLabel} (h : step sa sb v l = some v') : Move sa sb v l v' := by
  unfold step at h
  split at h
  · obtain ⟨p, hp, rfl⟩ := Option.map_eq_some_iff.1 h
    exact .say hp
  · next n =>
    split at h
    · next w msg req ht hn =>
      split at h
      · next hmem =>
        obtain ⟨q, hq, rfl⟩ := Option.map_eq_some_iff.1 h
        exact .deliver ht hn hmem hq
      · cases h
    · cases h
  · split at h
    · next hmay =>
      obtain ⟨p, hp, rfl⟩ := Option.map_eq_some_iff.1 h
      exact .sender hmay hp
    · cases h
  · split at h
    · next hmay =>
      obtain ⟨q, hq, rfl⟩ := Option.map_eq_some_iff.1 h
      exact .receiver hmay hq
    · cases h

theorem Move.sound {l : ConversationLabel} (hmove : Move sa sb v l v')
    (h : v.Sound sa.serverFullname sb.serverFullname) :
    v'.Sound sa.serverFullname sb.serverFullname := by
  cases hmove with
  | say hstep => exact h.said hstep
  | deliver ht hn hmem hstep => exact h.arrived ht hn hmem hstep
  | sender hmay hstep => exact h.sender_other hmay hstep
  | receiver hmay hstep => exact h.receiver_other hmay hstep

/-- The step takes messages away that the sender has for the receiver. -/
def senderLoses (b : String) (v : Conversation) : ConversationLabel → Bool
  | .sender l => v.sender.discards b l
  | _ => false

/-- The step takes messages away that the receiver has of the sender. -/
def receiverLoses (a : String) (v : Conversation) : ConversationLabel → Bool
  | .receiver l => v.receiver.discards a l
  | _ => false

theorem change_booked {calls : List String} (i : Instance) (e : InstanceChange) (k : String)
    (direction : Direction) (p : Running) :
    Booked (i.texts k direction) calls ((i.change e).texts k direction) calls
      (p.discards k (.env e)) := by
  obtain ⟨hsub, hsame⟩ := messages_change i e k
  by_cases hremoval : ∃ u, e = .removeMessage k u
  · obtain ⟨u, rfl⟩ := hremoval
    exact .lost (by simp [Running.discards]) (texts_sublist hsub) rfl
  · exact .same (texts_congr (hsame fun u he => hremoval ⟨u, he⟩)) rfl

theorem Move.sender_books {l : ConversationLabel} (hmove : Move sa sb v l v')
    (h : v.Sound sa.serverFullname sb.serverFullname) :
    Booked (v.sender.shared.texts sb.serverFullname .sent) (textsOf v.calls v.sentBy)
      (v'.sender.shared.texts sb.serverFullname .sent) (textsOf v'.calls v'.sentBy)
      (v.senderLoses sb.serverFullname l) := by
  have henter : ∀ t, textsOf v.calls (okAt (v.sender.tasks ++ [t])) = textsOf v.calls v.sentBy := by
    intro t
    refine textsOf_congr fun c hc => okAt_enter ?_ t
    exact h.lt_of_call (List.mem_map.2 ⟨c, hc, rfl⟩)
  cases hmove with
  | @say text p hstep =>
    obtain ⟨_, rfl⟩ := Tasking.enter_cases hstep
    refine .same rfl ?_
    have hnew : okAt (v.sender.tasks ++ [.getWorker sb.serverFullname (.sendMessage text)])
        v.sender.next = false := by
      rw [okAt, Running.next, List.getElem?_concat_length]
      rfl
    exact (textsOf_append hnew text).trans (henter _)
  | deliver _ _ _ _ => exact .same rfl rfl
  | @sender l p hmay hstep =>
    cases l with
    | run n ans =>
      obtain ⟨t, i', t', spawned, ht, hrun, rfl⟩ := Tasking.run_cases hstep
      have htext := (activity_textStep (h.sender.sound t (List.mem_of_getElem? ht)) hrun).1
      refine sender_booked (a := sa.serverFullname) h.calls (fun c hc => ?_) h.call ht htext
      obtain ⟨u, hu, hcalls⟩ := h.called c hc
      exact ⟨u, hu, _, _, hcalls⟩
    | enter t =>
      obtain ⟨_, rfl⟩ := Tasking.enter_cases hstep
      exact .same rfl (henter t)
    | env e =>
      cases hstep
      exact change_booked v.sender.shared e sb.serverFullname .sent v.sender
  | receiver _ _ => exact .same rfl rfl

theorem Move.receiver_books {l : ConversationLabel} (hmove : Move sa sb v l v')
    (h : v.Sound sa.serverFullname sb.serverFullname) :
    Booked (v.receiver.shared.texts sa.serverFullname .received) (textsOf v.calls v.storedBy)
      (v'.receiver.shared.texts sa.serverFullname .received) (textsOf v'.calls v'.storedBy)
      (v.receiverLoses sa.serverFullname l) := by
  have henter : ∀ t, textsOf v.calls (fun n => (v.handler n).any (okAt (v.receiver.tasks ++ [t])))
      = textsOf v.calls v.storedBy := by
    intro t
    refine textsOf_congr fun c _ => ?_
    unfold storedBy
    cases hj : v.handler c.1 with
    | none => rfl
    | some j => exact okAt_enter (h.lt_of_handler hj) t
  cases hmove with
  | @say text p hstep =>
    refine .same rfl ?_
    have hnew : v.storedBy v.sender.next = false := by
      unfold storedBy
      rw [h.handler_next]
      rfl
    exact textsOf_append hnew text
  | @deliver n w msg req q ht hn hmem hstep =>
    obtain ⟨_, rfl⟩ := Tasking.enter_cases hstep
    refine .same rfl ((textsOf_congr fun c hc => ?_).trans (henter (.sendTextMessage (.add req))))
    by_cases hne : c.1 = n
    · -- the handler has only begun
      have hfalse : okAt (v.receiver.tasks ++ [.sendTextMessage (.add req)]) v.receiver.next
          = false := by
        rw [okAt, Running.next, List.getElem?_concat_length]
        rfl
      unfold storedBy
      dsimp only
      rw [hne, hn, Function.update_self]
      exact hfalse
    · unfold storedBy
      dsimp only
      rw [Function.update_of_ne hne]
  | sender _ _ => exact .same rfl rfl
  | @receiver l q hmay hstep =>
    cases l with
    | run n ans =>
      obtain ⟨t, i', t', spawned, ht, hrun, rfl⟩ := Tasking.run_cases hstep
      have htext := (activity_textStep (h.receiver.sound t (List.mem_of_getElem? ht)) hrun).1
      exact receiver_booked h.calls h.handled h.handler h.once h.outgoing ht htext
    | enter t =>
      obtain ⟨_, rfl⟩ := Tasking.enter_cases hstep
      exact .same rfl (henter t)
    | env e =>
      cases hstep
      exact change_booked v.receiver.shared e sa.serverFullname .received v.receiver

end steps

/-! ## Section 6: Every run -/

section runs

variable {sa sb : Settings} {v : Conversation} {ls : List ConversationLabel} {checks : Bool}

theorem sound_new (a b : String) (checks : Bool) : (new checks).Sound a b where
  sender := Warpinator.sound_new checks
  receiver := Warpinator.sound_new checks
  calls := List.nodup_nil
  called _ hc := by cases hc
  call _ _ ht := by cases ht
  handled _ hc := by cases hc
  handler _ _ ht := by cases ht
  once _ _ _ hj := by cases hj
  delivered _ hn := by cases hn
  outgoing _ ht := by cases ht

theorem sound_of_exec (hrun : (machine sa sb).exec (new checks) ls = some v) :
    v.Sound sa.serverFullname sb.serverFullname :=
  (machine sa sb).exec_invariant (fun _ _ _ h hstep => (step_move hstep).sound h)
    (sound_new _ _ checks) hrun

/-- The receiver shows at most what has been handled, and the sender at most what
    its calls have been told of. -/
theorem subperm_of_exec (hrun : (machine sa sb).exec (new checks) ls = some v) :
    (v.receiver.shared.texts sa.serverFullname .received).Subperm (textsOf v.calls v.storedBy) ∧
      (v.sender.shared.texts sb.serverFullname .sent).Subperm (textsOf v.calls v.sentBy) := by
  have hinv := (machine sa sb).exec_invariant
    (I := fun v => v.Sound sa.serverFullname sb.serverFullname ∧
      (v.receiver.shared.texts sa.serverFullname .received).Subperm (textsOf v.calls v.storedBy) ∧
      (v.sender.shared.texts sb.serverFullname .sent).Subperm (textsOf v.calls v.sentBy))
    (fun _ _ _ h hstep => ?_) ⟨sound_new _ _ checks, List.nil_subperm, List.nil_subperm⟩ hrun
  · exact hinv.2
  · have hmove := step_move hstep
    exact ⟨hmove.sound h.1, (hmove.receiver_books h.1).subperm h.2.1,
      (hmove.sender_books h.1).subperm h.2.2⟩

theorem received_perm (hrun : (machine sa sb).exec (new checks) ls = some v)
    (hkeeps : (machine sa sb).Along (fun v l => v.receiverLoses sa.serverFullname l = false)
      (new checks) ls) :
    (v.receiver.shared.texts sa.serverFullname .received).Perm (textsOf v.calls v.storedBy) := by
  have hinv := (machine sa sb).exec_invariant_along
    (I := fun v => v.Sound sa.serverFullname sb.serverFullname ∧
      (v.receiver.shared.texts sa.serverFullname .received).Perm (textsOf v.calls v.storedBy))
    (fun _ _ _ hkeeps h hstep => ?_) ⟨sound_new _ _ checks, .refl _⟩ hkeeps hrun
  · exact hinv.2
  · have hmove := step_move hstep
    exact ⟨hmove.sound h.1, (hmove.receiver_books h.1).perm hkeeps h.2⟩

theorem sent_perm (hrun : (machine sa sb).exec (new checks) ls = some v)
    (hkeeps : (machine sa sb).Along (fun v l => v.senderLoses sb.serverFullname l = false)
      (new checks) ls) :
    (v.sender.shared.texts sb.serverFullname .sent).Perm (textsOf v.calls v.sentBy) := by
  have hinv := (machine sa sb).exec_invariant_along
    (I := fun v => v.Sound sa.serverFullname sb.serverFullname ∧
      (v.sender.shared.texts sb.serverFullname .sent).Perm (textsOf v.calls v.sentBy))
    (fun _ _ _ hkeeps h hstep => ?_) ⟨sound_new _ _ checks, .refl _⟩ hkeeps hrun
  · exact hinv.2
  · have hmove := step_move hstep
    exact ⟨hmove.sound h.1, (hmove.sender_books h.1).perm hkeeps h.2⟩

/-- A call that has returned `Ok` has been handled. -/
theorem Sound.stored_of_sent {a b : String} (h : v.Sound a b) {c : Nat × String} (hc : c ∈ v.calls)
    (hsent : v.sentBy c.1 = true) : v.storedBy c.1 = true := by
  obtain ⟨t, ht, hcalls⟩ := h.called c hc
  obtain ⟨u, hu, hok⟩ := okAt_iff.1 hsent
  cases ht.symm.trans hu
  unfold Activity.isOk at hok
  split at hok
  · exact hcalls
  · exact hcalls.elim
  · cases hok

/-- The texts that have been said. -/
def said (v : Conversation) : List String := v.calls.map Prod.snd

theorem textsOf_sublist_said (p : Nat → Bool) : (textsOf v.calls p).Sublist v.said :=
  List.filter_sublist.map _

/-- No message is shown twice or made up.  As long as the receiver takes none
    away, it shows whatever the sender shows as sent; and as long as neither takes
    any away, and all calls have returned `Ok`, both show what has been said. -/
theorem messages_agree (hrun : (machine sa sb).exec (new checks) ls = some v) :
    (v.receiver.shared.texts sa.serverFullname .received).Subperm v.said ∧
      ((machine sa sb).Along (fun v l => v.receiverLoses sa.serverFullname l = false)
          (new checks) ls →
        (v.sender.shared.texts sb.serverFullname .sent).Subperm
          (v.receiver.shared.texts sa.serverFullname .received) ∧
        ((machine sa sb).Along (fun v l => v.senderLoses sb.serverFullname l = false)
            (new checks) ls →
          (∀ c ∈ v.calls, v.sentBy c.1 = true) →
          (v.sender.shared.texts sb.serverFullname .sent).Perm v.said ∧
          (v.receiver.shared.texts sa.serverFullname .received).Perm v.said)) := by
  have hsound := sound_of_exec hrun
  obtain ⟨hstored, hsent⟩ := subperm_of_exec hrun
  refine ⟨hstored.trans (textsOf_sublist_said _).subperm, fun hreceiver => ?_⟩
  have hreceived := received_perm hrun hreceiver
  have hmono : (textsOf v.calls v.sentBy).Sublist (textsOf v.calls v.storedBy) :=
    textsOf_mono fun c hc => hsound.stored_of_sent hc
  refine ⟨(hsent.trans hmono.subperm).trans hreceived.symm.subperm,
    fun hsender hall => ?_⟩
  -- every call counts on both sides
  have hfull : ∀ p : Nat → Bool, (∀ c ∈ v.calls, p c.1 = true) → textsOf v.calls p = v.said := by
    intro p hp
    unfold textsOf
    rw [List.filter_eq_self.2 hp]
    rfl
  have hsent := sent_perm hrun hsender
  rw [hfull _ hall] at hsent
  rw [hfull _ fun c hc => hsound.stored_of_sent hc (hall c hc)] at hreceived
  exact ⟨hsent, hreceived⟩

end runs

def settingsOfB : Settings where
  registration := { serverOfA with regServiceMessage := registrationOfB }
  serverFullname := "b"
  features := messageSupport

/-- The two hosts register with each other, and `a` sends a message to `b`. -/
def hello : List ConversationLabel :=
  [.sender (.enter (.admission (.register (.lookup registrationOfB)))),
    .sender (.run 0 (.admission .go)), .sender (.run 0 (.admission .go)),
    .sender (.run 0 (.admission .go)),
    .receiver (.enter (.admission (.register (.lookup serverOfA.regServiceMessage)))),
    .receiver (.run 0 (.admission .go)), .receiver (.run 0 (.admission .go)),
    .receiver (.run 0 (.admission .go)),
    .say "hello", .sender (.run 1 (.call (.go 0))), .sender (.run 1 (.call (.fresh ⟨0, 1⟩ 0))),
    .deliver 1, .receiver (.run 1 (.call (.fresh ⟨0, 2⟩ 0))),
    .sender (.run 1 (.call (.reply (.ok ())))), .sender (.run 1 (.call (.go 0)))]

theorem messages_agree_hello : ∃ v,
    (machine settingsOfA settingsOfB).exec (new false) hello = some v ∧ v.said = ["hello"] ∧
      (v.sender.shared.texts "b" .sent).Perm v.said ∧
      (v.receiver.shared.texts "a" .received).Perm v.said := by
  have hrun : ∃ v, (machine settingsOfA settingsOfB).exec (new false) hello = some v ∧
      v.said = ["hello"] ∧ ∀ c ∈ v.calls, v.sentBy c.1 = true := ⟨_, rfl, rfl, by decide +kernel⟩
  obtain ⟨v, hrun, hsaid, hall⟩ := hrun
  exact ⟨v, hrun, hsaid,
    ((messages_agree hrun).2 (by decide +kernel)).2 (by decide +kernel) hall⟩

end Conversation

end Warpinator
