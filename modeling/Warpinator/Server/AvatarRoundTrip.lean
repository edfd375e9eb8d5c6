import Warpinator.Server.Avatar

/-! # The Round Trip of an Avatar

    The bytes of the picture are at any time where the stream has carried them:
    in the task, in its channel, on the wire or with the call.

    * `fetchAvatar_roundTrip`: whatever was stored before, the remote has the
      picture that was served, and a call that fails stores nothing.
    * `fetchAvatar_assigns`: an undisturbed call comes to its end and assigns the
      picture.
    * `storeAvatar_represents`: the step that `connect` takes with all the bytes
      is this. -/

namespace Warpinator

/-! ## Section 1: The stream -/

theorem avatarChunks_flatten (picture : Option (List UInt8)) :
    (avatarChunks picture).flatten = picture.getD [] := by
  cases picture with
  | none => rfl
  | some bytes => exact List.toChunks_flatten bytes

/-- What the task has still to send; `none` while it has not read the picture. -/
def AvatarTask.rest : AvatarTask → Option (List (List UInt8))
  | .handler | .spawned => none
  | .sending chunks => some chunks
  | .closed => some []

/-- The bytes of a call that waits for the stream. -/
def FetchAvatarPc.received : FetchAvatarPc → Option (List UInt8)
  | .request => some []
  | .receive bytes => some bytes
  | _ => none

/-- The chunks that have not arrived. -/
def AvatarFetch.underway (s : AvatarFetch) : List (List UInt8) :=
  s.wire ++ (s.channel ++ s.task.rest.getD [])

/-- A message has from one byte to 64 KiB. -/
def isAvatarChunk (c : List UInt8) : Prop := 0 < c.length ∧ c.length ≤ avatarChunkSize

theorem isAvatarChunk_of_mem {picture : Option (List UInt8)} {c : List UInt8}
    (hc : c ∈ avatarChunks picture) : isAvatarChunk c := by
  cases picture with
  | none => cases hc
  | some bytes => exact List.length_of_mem_toChunks (by decide) hc

theorem underway_move {uuid : String} {s s' : AvatarFetch} {l : AvatarLabel}
    (h : ∀ c ∈ s.underway, isAvatarChunk c) (hmove : AvatarMove uuid s l s') :
    ∀ c ∈ s'.underway, isAvatarChunk c := by
  have hmoved : s'.underway ⊆ s.underway → ∀ c ∈ s'.underway, isAvatarChunk c :=
    fun hsub c hc => h c (hsub hc)
  cases hmove with
  | read htask =>
    intro c hc
    rcases List.mem_append.1 hc with hc | hc
    · exact h c (List.mem_append_left _ hc)
    · rcases List.mem_append.1 hc with hc | hc
      · exact h c (List.mem_append_right _ (List.mem_append_left _ hc))
      · exact isAvatarChunk_of_mem hc
  | transmit c cs hchannel =>
    refine hmoved ?_
    simp [AvatarFetch.underway, hchannel]
  | message bytes c cs hpc hwire =>
    refine hmoved ?_
    simp [AvatarFetch.underway, hwire]
  -- the task sends or gives up what it has
  | send _ _ htask | close htask | checkedNone htask | checkedSome htask =>
    refine hmoved ?_
    simp [AvatarFetch.underway, htask, AvatarTask.rest]
  | hangUp e hpc =>
    refine hmoved ?_
    simp [AvatarFetch.underway, AvatarTask.rest]
  | _ => exact h

/-- No message of a run is empty or too long. -/
theorem underway_run {uuid : String} {client : Bool} {picture : Option (List UInt8)}
    {store : AvatarStore} {ls : List AvatarLabel} {s : AvatarFetch}
    (hrun : (avatarFetch uuid).exec (.start client picture store) ls = some s) :
    ∀ c ∈ s.underway, isAvatarChunk c := by
  refine (avatarFetch uuid).exec_invariant (I := fun s => ∀ c ∈ s.underway, isAvatarChunk c)
    (fun _ _ _ hI h => underway_move hI (avatarFetch_move h)) (fun c hc => ?_) hrun
  cases client with
  | false => cases hc
  | true => cases hc

/-- The bytes that have arrived and those that are still to come are the picture
    that is served. -/
structure AvatarFetch.Streaming (s : AvatarFetch) : Prop where
  undecided : ∀ got, s.pc.received = some got → s.task.rest = none →
    got = [] ∧ s.wire = [] ∧ s.channel = []
  decided : ∀ got chunks, s.pc.received = some got → s.task.rest = some chunks →
    got ++ (s.wire.flatten ++ (s.channel.flatten ++ chunks.flatten)) = s.served.getD []
  complete : ∀ picture, s.pc = .store picture →
    s.task = .closed ∧ picture = receivedPicture (s.served.getD [])

theorem streaming_start (client : Bool) (picture : Option (List UInt8)) (store : AvatarStore) :
    (AvatarFetch.start client picture store).Streaming := by
  cases client with
  | false =>
    refine ⟨fun got hgot => ?_, fun got chunks hgot => ?_, fun picture hpc => ?_⟩
    · cases hgot
    · cases hgot
    · cases hpc
  | true =>
    refine ⟨fun got hgot _ => ?_, fun got chunks _ hrest => ?_, fun picture hpc => ?_⟩
    · exact ⟨(Option.some.inj hgot).symm, rfl, rfl⟩
    · cases hrest
    · cases hpc

theorem streaming_move {uuid : String} {s s' : AvatarFetch} {l : AvatarLabel} (h : s.Streaming)
    (hmove : AvatarMove uuid s l s') : s'.Streaming := by
  cases hmove with
  | setPicture picture => exact ⟨h.undecided, h.decided, h.complete⟩
  | other f => exact ⟨h.undecided, h.decided, h.complete⟩
  | checkedNone htask hpicture =>
    refine ⟨fun got _ hrest => ?_, fun got chunks hgot hrest => ?_, fun picture hpc => ?_⟩
    · cases hrest
    · -- nothing has been sent, and nothing will be
      obtain ⟨rfl, hwire, hchannel⟩ := h.undecided got hgot (by rw [htask]; rfl)
      obtain rfl := Option.some.inj hrest
      show [] ++ (s.wire.flatten ++ (s.channel.flatten ++ [])) = []
      rw [hwire, hchannel]
      rfl
    · cases htask.symm.trans (h.complete picture hpc).1
  | checkedSome htask =>
    refine ⟨fun got hgot _ => h.undecided got hgot (by rw [htask]; rfl),
      fun got chunks _ hrest => ?_, fun picture hpc => ?_⟩
    · cases hrest
    · cases htask.symm.trans (h.complete picture hpc).1
  | read htask =>
    refine ⟨fun got _ hrest => ?_, fun got chunks hgot hrest => ?_, fun picture hpc => ?_⟩
    · cases hrest
    · obtain ⟨rfl, hwire, hchannel⟩ := h.undecided got hgot (by rw [htask]; rfl)
      obtain rfl := Option.some.inj hrest
      show [] ++ (s.wire.flatten ++ (s.channel.flatten ++ (avatarChunks s.picture).flatten)) = _
      rw [hwire, hchannel]
      exact avatarChunks_flatten s.picture
    · cases htask.symm.trans (h.complete picture hpc).1
  | send c cs htask =>
    refine ⟨fun got _ hrest => ?_, fun got chunks hgot hrest => ?_, fun picture hpc => ?_⟩
    · cases hrest
    · obtain rfl := Option.some.inj hrest
      rw [← h.decided got (c :: cs) hgot (by rw [htask]; rfl)]
      simp
    · cases htask.symm.trans (h.complete picture hpc).1
  | close htask =>
    refine ⟨fun got _ hrest => ?_, fun got chunks hgot hrest => ?_, fun picture hpc => ?_⟩
    · cases hrest
    · obtain rfl := Option.some.inj hrest
      exact h.decided got [] hgot (by rw [htask]; rfl)
    · cases htask.symm.trans (h.complete picture hpc).1
  | hangUp e hpc =>
    -- the call has failed
    refine ⟨fun got hgot => ?_, fun got chunks hgot => ?_, fun picture hpc' => ?_⟩
    · rw [show s.pc.received = none by rw [hpc]; rfl] at hgot
      cases hgot
    · rw [show s.pc.received = none by rw [hpc]; rfl] at hgot
      cases hgot
    · cases hpc.symm.trans hpc'
  | transmit c cs hchannel =>
    refine ⟨fun got hgot hrest => ?_, fun got chunks hgot hrest => ?_, h.complete⟩
    · cases hchannel.symm.trans (h.undecided got hgot hrest).2.2
    · rw [← h.decided got chunks hgot hrest, hchannel]
      simp
  | respond hpc =>
    have hgot : s.pc.received = some [] := by rw [hpc]; rfl
    refine ⟨fun got hgot' hrest => ?_, fun got chunks hgot' hrest => ?_, fun picture hpc' => ?_⟩
    · exact h.undecided got (hgot.trans hgot') hrest
    · exact h.decided got chunks (hgot.trans hgot') hrest
    · cases hpc'
  | message bytes c cs hpc hwire =>
    have hgot : s.pc.received = some bytes := by rw [hpc]; rfl
    refine ⟨fun got _ hrest => ?_, fun got chunks hgot' hrest => ?_, fun picture hpc' => ?_⟩
    · cases hwire.symm.trans (h.undecided bytes hgot hrest).2.1
    · obtain rfl := Option.some.inj hgot'
      rw [← h.decided bytes chunks hgot hrest, hwire]
      simp
    · cases hpc'
  | endOfStream bytes hpc hwire hchannel htask =>
    refine ⟨fun got hgot => ?_, fun got chunks hgot => ?_, fun picture hpc' => ?_⟩
    · cases hgot
    · cases hgot
    · have hserved := h.decided bytes [] (by rw [hpc]; rfl) (by rw [htask]; rfl)
      rw [hwire, hchannel] at hserved
      obtain rfl := FetchAvatarPc.store.inj hpc'
      refine ⟨htask, ?_⟩
      rw [← hserved]
      simp
  | fail status hpc | stored picture store hpc hstore | unknown picture hpc hnone =>
    refine ⟨fun got hgot => ?_, fun got chunks hgot => ?_, fun picture hpc' => ?_⟩
    · cases hgot
    · cases hgot
    · cases hpc'

theorem streaming_run {uuid : String} {client : Bool} {picture : Option (List UInt8)}
    {store : AvatarStore} {ls : List AvatarLabel} {s : AvatarFetch}
    (hrun : (avatarFetch uuid).exec (.start client picture store) ls = some s) : s.Streaming :=
  (avatarFetch uuid).exec_invariant (I := AvatarFetch.Streaming)
    (fun _ _ _ hI h => streaming_move hI (avatarFetch_move h))
    (streaming_start client picture store) hrun

theorem served_move {uuid : String} {P : Set (Option (List UInt8))} {s s' : AvatarFetch}
    {l : AvatarLabel} (hmove : AvatarMove uuid s l s') (hpicture : s.picture ∈ P)
    (hserved : s.served ∈ P) (hsets : ∀ picture, l.sets = some picture → picture ∈ P) :
    s'.picture ∈ P ∧ s'.served ∈ P := by
  cases hmove with
  | setPicture picture => exact ⟨hsets picture rfl, hserved⟩
  | checkedNone htask hnone =>
    rw [hnone] at hpicture
    exact ⟨by rw [hnone]; exact hpicture, hpicture⟩
  | read htask => exact ⟨hpicture, hpicture⟩
  | _ => exact ⟨hpicture, hserved⟩

/-- What is served is a picture that the user has had since the call began. -/
theorem served_run {uuid : String} {P : Set (Option (List UInt8))} {s s' : AvatarFetch}
    {ls : List AvatarLabel} (hpicture : s.picture ∈ P) (hserved : s.served ∈ P)
    (hsets : ∀ l ∈ ls, ∀ picture, l.sets = some picture → picture ∈ P)
    (hrun : (avatarFetch uuid).exec s ls = some s') : s'.served ∈ P := by
  induction ls generalizing s with
  | nil => exact Option.some.inj hrun ▸ hserved
  | cons l ls ih =>
    obtain ⟨t, ht, hrun⟩ := (Machine.exec_cons _).1 hrun
    obtain ⟨hpicture', hserved'⟩ :=
      served_move (avatarFetch_move ht) hpicture hserved (hsets l List.mem_cons_self)
    exact ih hpicture' hserved' (fun l' hl' => hsets l' (List.mem_cons_of_mem l hl')) hrun

theorem store_move {uuid : String} {s s' : AvatarFetch} {l : AvatarLabel}
    (hmove : AvatarMove uuid s l s') (hopen : s'.pc ≠ .returned (.ok ())) :
    s'.store = l.onStore s.store ∧ s.pc ≠ .returned (.ok ()) := by
  cases hmove with
  | stored picture store hpc hstore => exact absurd rfl hopen
  | fail status hpc =>
    refine ⟨rfl, fun h => ?_⟩
    rcases hpc with hpc | ⟨bytes, hpc⟩
    · cases hpc.symm.trans h
    · cases hpc.symm.trans h
  | respond hpc | message _ _ _ hpc | endOfStream _ hpc | unknown _ hpc =>
    exact ⟨rfl, fun h => by cases hpc.symm.trans h⟩
  | _ => exact ⟨rfl, hopen⟩

/-- Up to its update a call leaves the records to the others. -/
theorem store_run {uuid : String} {s s' : AvatarFetch} {ls : List AvatarLabel}
    (hrun : (avatarFetch uuid).exec s ls = some s') (hopen : s'.pc ≠ .returned (.ok ())) :
    s'.store = ls.foldl (fun store l => l.onStore store) s.store ∧ s.pc ≠ .returned (.ok ()) := by
  induction ls generalizing s with
  | nil =>
    obtain rfl := Option.some.inj hrun
    exact ⟨rfl, hopen⟩
  | cons l ls ih =>
    obtain ⟨t, ht, hrun⟩ := (Machine.exec_cons _).1 hrun
    obtain ⟨hrest, hopen'⟩ := ih hrun
    obtain ⟨hstore, hpc⟩ := store_move (avatarFetch_move ht) hopen'
    exact ⟨by rw [hrest, hstore, List.foldl_cons], hpc⟩

/-! ## Section 2: The round trip -/

theorem receivedPicture_getD (served : Option (List UInt8)) :
    receivedPicture (served.getD []) = served.filter fun bytes => !bytes.isEmpty := by
  cases served with
  | none => rfl
  | some bytes =>
    cases bytes with
    | nil => rfl
    | cons b bytes => rfl

theorem pictureVersion_ne (version : BitVec 8) : version + 1 ≠ version := by
  bv_omega

theorem foldl_onStore_eq {ls : List AvatarLabel} (h : ∀ f, .other f ∉ ls) (store : AvatarStore) :
    ls.foldl (fun store l => l.onStore store) store = store := by
  induction ls with
  | nil => rfl
  | cons l ls ih =>
    have hl : l.onStore store = store := by
      cases l with
      | other f => exact absurd List.mem_cons_self (h f)
      | _ => rfl
    rw [List.foldl_cons, hl]
    exact ih fun f hf => h f (List.mem_cons_of_mem l hf)

/-- Whatever was stored before, the update of a call that has consumed the stream
    leaves exactly the bytes that were served, under another version.  A call that
    fails leaves the records to the others. -/
theorem fetchAvatar_roundTrip {uuid : String} {client : Bool} {picture : Option (List UInt8)}
    {store : AvatarStore} {ls : List AvatarLabel} {s : AvatarFetch}
    (hrun : (avatarFetch uuid).exec (.start client picture store) ls = some s) :
    (∀ s' r, (avatarFetch uuid).step s .store = some s' → s.store.remotes uuid = some r →
      s'.pc = .returned (.ok ()) ∧
      ∃ served ∈ picture :: ls.filterMap AvatarLabel.sets,
        (∀ bytes, s'.store.picture uuid = some bytes ↔ served = some bytes ∧ bytes ≠ []) ∧
        (s'.store.picture uuid = none ↔ served = none ∨ served = some []) ∧
        ∃ r', s'.store.remotes uuid = some r' ∧ r'.pictureVersion ≠ r.pictureVersion) ∧
    ∀ e, s.pc = .returned (.error e) →
      s.store = ls.foldl (fun store l => l.onStore store) store ∧
      ((∀ f, .other f ∉ ls) → s.store = store) := by
  constructor
  · intro s' r hstep hr
    cases avatarFetch_move hstep with
    | unknown _ _ hnone => cases hnone.symm.trans hr
    | stored stored store' hpc hstore =>
      have hserved : s.served ∈ {p | p ∈ picture :: ls.filterMap AvatarLabel.sets} :=
        served_run List.mem_cons_self List.mem_cons_self
          (fun l hl p hp => List.mem_cons_of_mem _ (List.mem_filterMap.2 ⟨l, hl, hp⟩)) hrun
      obtain ⟨-, rfl⟩ := (streaming_run hrun).complete stored hpc
      obtain ⟨store'', hstore', hremotes, -, hpicture, -⟩ := updateRemoteAsync_of_some hr _
      obtain rfl : store' = store'' := (Prod.mk.inj (hstore.symm.trans hstore')).2
      have hfound : store'.picture uuid = s.served.filter fun bytes => !bytes.isEmpty := by
        rw [hpicture, Function.update_self, receivedPicture_getD]
      refine ⟨rfl, s.served, hserved, fun bytes => ?_, ?_,
        (r.receive s.store.cells (receivedPicture (s.served.getD []))).1, ?_, ?_⟩
      · rw [hfound]
        simp [Option.filter_eq_some_iff]
      · rw [hfound]
        cases s.served with
        | none => simp
        | some bytes => simp [Option.filter]
      · rw [hremotes, Function.update_self]
      · rw [receive_pictureVersion]
        exact pictureVersion_ne r.pictureVersion
  · intro e hpc
    have hopen : s.pc ≠ .returned (.ok ()) := fun h => by cases hpc.symm.trans h
    have hstore := (store_run hrun hopen).1
    exact ⟨hstore, fun halone => hstore.trans (foldl_onStore_eq halone store)⟩

/-- `b` has a picture, and its version is the last one before the counter wraps. -/
def recordsOfB : String → Option AvatarRecord := fun uuid =>
  if uuid = "b" then some { picture := some 0, pictureVersion := 255 } else none

theorem owned_recordsOfB : Owned [[(9 : UInt8), 9]] (arcs recordsOfB) := by
  have hb : ∀ uuid a, arcs recordsOfB uuid = some a → uuid = "b" ∧ a = 0 := by
    intro uuid a ha
    unfold arcs recordsOfB at ha
    split at ha
    · next huuid => exact ⟨huuid, (Option.some.inj ha).symm⟩
    · cases ha
  refine ⟨fun uuid a ha => ?_, fun uuid uuid' a ha ha' => ?_⟩
  · obtain ⟨-, rfl⟩ := hb uuid a ha
    decide
  · exact (hb uuid a ha).1.trans (hb uuid' a ha').1.symm

def storeOfB : AvatarStore where
  remotes := recordsOfB
  cells := [[9, 9]]
  events := []
  owned := owned_recordsOfB

/-- The stream of three bytes has been consumed. -/
def streamedToB : AvatarFetch where
  picture := some [1, 2, 3]
  served := some [1, 2, 3]
  task := .closed
  channel := []
  wire := []
  pc := .store (some [1, 2, 3])
  store := storeOfB

theorem fetchAvatar_roundTrip_small : ∃ s', (avatarFetch "b").exec
      (.start true (some [1, 2, 3]) storeOfB)
      [.check, .read, .respond, .send, .transmit, .message, .close, .endOfStream]
        = some streamedToB ∧
    (avatarFetch "b").step streamedToB .store = some s' ∧
    s'.store.picture "b" = some [1, 2, 3] ∧
    ∃ r', s'.store.remotes "b" = some r' ∧ r'.pictureVersion ≠ 255 := by
  have hrun : (avatarFetch "b").exec (.start true (some [1, 2, 3]) storeOfB)
      [.check, .read, .respond, .send, .transmit, .message, .close, .endOfStream]
        = some streamedToB := rfl
  have hb : storeOfB.remotes "b" = some { picture := some 0, pictureVersion := 255 } := rfl
  obtain ⟨store, hstore, -⟩ := updateRemoteAsync_of_some hb (some [1, 2, 3])
  have hstep : (avatarFetch "b").step streamedToB .store
      = some { streamedToB with store := store, pc := .returned (.ok ()) } := by
    simp only [avatarFetch, AvatarFetch.step, streamedToB, hstore]
  obtain ⟨-, served, hserved, hpicture, -, hversion⟩ :=
    (fetchAvatar_roundTrip hrun).1 _ _ hstep hb
  obtain rfl : served = some [1, 2, 3] := List.mem_singleton.1 hserved
  exact ⟨_, hrun, hstep, (hpicture [1, 2, 3]).2 ⟨rfl, by decide⟩, hversion⟩

/-! ## Section 3: A call without interference -/

/-- The steps of a call that nothing disturbs. -/
def AvatarLabel.undisturbed : AvatarLabel → Bool
  | .setPicture _ | .other _ | .hangUp | .fail _ => false
  | _ => true

/-- The steps that are left while the stream is open. -/
def AvatarTask.left : AvatarTask → Nat
  | .handler | .spawned => 0
  | .sending chunks => 3 * chunks.length + 1
  | .closed => 0

/-- An open stream comes to its end. -/
theorem exists_endOfStream {uuid : String} (n : Nat) {s : AvatarFetch} {bytes : List UInt8}
    (hpc : s.pc = .receive bytes) (hrest : s.task.rest.isSome = true)
    (hleft : s.task.left + 2 * s.channel.length + s.wire.length ≤ n) :
    ∃ ls s' picture, ls.all AvatarLabel.undisturbed = true ∧
      (avatarFetch uuid).exec s ls = some s' ∧ s'.pc = .store picture := by
  -- by induction on the steps that are left; the stream is emptied from its end
  induction n using Nat.strong_induction_on generalizing s bytes with
  | _ n ih =>
    obtain ⟨picture, served, task, channel, wire, pc, store⟩ := s
    obtain rfl : pc = .receive bytes := hpc
    have hnext : ∀ l t, (avatarFetch uuid).step
          ⟨picture, served, task, channel, wire, .receive bytes, store⟩ l = some t →
        l.undisturbed = true → ∀ bytes', t.pc = .receive bytes' → t.task.rest.isSome = true →
        t.task.left + 2 * t.channel.length + t.wire.length < n →
        ∃ ls s' picture', ls.all AvatarLabel.undisturbed = true ∧
          (avatarFetch uuid).exec ⟨picture, served, task, channel, wire, .receive bytes, store⟩ ls
            = some s' ∧ s'.pc = .store picture' := by
      intro l t ht hl bytes' hpc' hrest' hlt
      obtain ⟨ls, s', picture', hls, hrun, hstored⟩ := ih _ hlt hpc' hrest' (Nat.le_refl _)
      refine ⟨l :: ls, s', picture', ?_, (Machine.exec_cons _).2 ⟨t, ht, hrun⟩, hstored⟩
      rw [List.all_cons, hl, hls]
      rfl
    dsimp only at hrest hleft
    cases wire with
    | cons c cs =>
      refine hnext .message _ rfl rfl (bytes ++ c) rfl hrest ?_
      dsimp only [List.length_cons] at hleft ⊢
      omega
    | nil =>
      cases channel with
      | cons c cs =>
        refine hnext .transmit _ rfl rfl bytes rfl hrest ?_
        simp only [List.length_cons, List.length_nil, List.nil_append] at hleft ⊢
        omega
      | nil =>
        cases task with
        | handler => cases hrest
        | spawned => cases hrest
        | closed => exact ⟨[.endOfStream], _, _, rfl, rfl, rfl⟩
        | sending chunks =>
          cases chunks with
          | nil =>
            refine hnext .close _ rfl rfl bytes rfl rfl ?_
            simp only [AvatarTask.left, List.length_nil] at hleft ⊢
            omega
          | cons c cs =>
            refine hnext .send _ rfl rfl bytes rfl rfl ?_
            simp only [AvatarTask.left, List.length_cons, List.length_nil, List.nil_append]
              at hleft ⊢
            omega

/-- The serving side gets to its chunks. -/
theorem exists_decided (uuid : String) (s : AvatarFetch) :
    ∃ ls s', ls.all AvatarLabel.undisturbed = true ∧ (avatarFetch uuid).exec s ls = some s' ∧
      s'.pc = s.pc ∧ s'.task.rest.isSome = true := by
  obtain ⟨picture, served, task, channel, wire, pc, store⟩ := s
  cases task with
  | handler =>
    cases picture with
    | none => exact ⟨[.check], _, rfl, rfl, rfl, rfl⟩
    | some bytes => exact ⟨[.check, .read], _, rfl, rfl, rfl, rfl⟩
  | spawned => exact ⟨[.read], _, rfl, rfl, rfl, rfl⟩
  | sending chunks => exact ⟨[], _, rfl, rfl, rfl, rfl⟩
  | closed => exact ⟨[], _, rfl, rfl, rfl, rfl⟩

/-- A call that waits for the stream is never stuck. -/
theorem exists_consumed (uuid : String) {s : AvatarFetch} (hwaits : s.pc.received.isSome = true) :
    ∃ ls s' picture, ls.all AvatarLabel.undisturbed = true ∧
      (avatarFetch uuid).exec s ls = some s' ∧ s'.pc = .store picture := by
  obtain ⟨ls, t, hls, hrun, hpc, hrest⟩ := exists_decided uuid s
  obtain ⟨ls', u, bytes, hls', hrun', hpc', hrest'⟩ : ∃ ls' u bytes,
      ls'.all AvatarLabel.undisturbed = true ∧ (avatarFetch uuid).exec t ls' = some u ∧
      u.pc = .receive bytes ∧ u.task.rest.isSome = true := by
    cases hs : s.pc with
    | request =>
      -- the handler has answered
      obtain ⟨picture, served, task, channel, wire, pc, store⟩ := t
      obtain rfl : pc = .request := hpc.trans hs
      cases task with
      | handler => cases hrest
      | spawned => cases hrest
      | sending chunks => exact ⟨[.respond], _, [], rfl, rfl, rfl, rfl⟩
      | closed => exact ⟨[.respond], _, [], rfl, rfl, rfl, rfl⟩
    | receive bytes => exact ⟨[], t, bytes, rfl, rfl, hpc.trans hs, hrest⟩
    | store picture =>
      rw [hs] at hwaits
      cases hwaits
    | returned result =>
      rw [hs] at hwaits
      cases hwaits
  obtain ⟨ls'', s', picture, hls'', hrun'', hstored⟩ :=
    exists_endOfStream _ hpc' hrest' (Nat.le_refl _)
  refine ⟨ls ++ ls' ++ ls'', s', picture, ?_, ?_, hstored⟩
  · rw [List.all_append, List.all_append, hls, hls', hls'']
    rfl
  · exact (Machine.exec_append _).2 ⟨u, (Machine.exec_append _).2 ⟨t, hrun, hrun'⟩, hrun''⟩

/-- Undisturbed, the call assigns the picture of the user to the remote. -/
theorem fetchAvatar_assigns {uuid : String} (picture : Option (List UInt8)) {store : AvatarStore}
    {r : AvatarRecord} (hr : store.remotes uuid = some r) :
    ∃ ls s, (avatarFetch uuid).exec (.start true picture store) ls = some s ∧
      s.pc = .returned (.ok ()) ∧
      s.store.picture = Function.update store.picture uuid
        (picture.filter fun b => !b.isEmpty) := by
  obtain ⟨ls, s, stored, hls, hrun, hpc⟩ :=
    exists_consumed uuid (s := .start true picture store) rfl
  have hundisturbed : ∀ l ∈ ls, l.undisturbed = true := List.all_eq_true.1 hls
  have hserved : s.served ∈ ({picture} : Set (Option (List UInt8))) := by
    refine served_run (P := {picture}) (s := .start true picture store) rfl rfl
      (fun l hl p hp => ?_) hrun
    have hl' := hundisturbed l hl
    cases l with
    | setPicture picture => cases hl'
    | _ => cases hp
  have hstore : s.store = store := by
    refine (store_run hrun (fun h => by cases hpc.symm.trans h)).1.trans ?_
    exact foldl_onStore_eq (fun f hf => by cases hundisturbed _ hf) store
  obtain ⟨-, rfl⟩ := (streaming_run hrun).complete stored hpc
  obtain ⟨store', hupdate, -, -, hassigned, -⟩ := updateRemoteAsync_of_some (hstore ▸ hr)
    (receivedPicture (s.served.getD []))
  have hstep : (avatarFetch uuid).step s .store
      = some { s with store := store', pc := .returned (.ok ()) } := by
    simp only [avatarFetch, AvatarFetch.step, hpc, hupdate]
  refine ⟨ls ++ [.store], _, (Machine.exec_append _).2 ⟨s, hrun, (Machine.exec_cons _).2
    ⟨_, hstep, rfl⟩⟩, rfl, ?_⟩
  rw [show s.served = picture from hserved, receivedPicture_getD, hstore] at hassigned
  exact hassigned

/-! ## Section 4: The avatar of a connection -/

/-- The records of a manager with the pictures that are behind their `Arc`s. -/
structure AvatarStore.Represents (s : AvatarStore) (m : RemoteManager) : Prop where
  remotes : ∀ uuid, (m.remotes uuid).map (fun r => (r.picture, r.pictureVersion))
    = (s.remotes uuid).map fun r => (s.picture uuid, r.pictureVersion)
  events : m.events = s.events

/-- What `connect` does with the bytes of the stream in one step, is what the
    call does to the records. -/
theorem storeAvatar_represents {crypto : Crypto} {w : Connector} {c c' : Connection}
    {pc : ConnectPc} {client : Bool} {picture : Option (List UInt8)} {store : AvatarStore}
    {ls : List AvatarLabel} {s s' : AvatarFetch}
    (hrun : (avatarFetch w.uuid).exec (.start client picture store) ls = some s)
    (hstep : (avatarFetch w.uuid).step s .store = some s')
    (hrep : s.store.Represents c.manager)
    (hconnect : w.connect crypto c (.storeAvatar (s.served.getD [])) .go = some (c', pc)) :
    s'.store.Represents c'.manager := by
  have hmanager : c'.manager = (c.manager.updateRemote w.uuid fun r => { r with
      picture := receivedPicture (s.served.getD [])
      pictureVersion := r.pictureVersion + 1 }).2 := by
    obtain ⟨rfl, -⟩ := Prod.mk.inj (Option.some.inj hconnect)
    rfl
  have huuid := hrep.remotes w.uuid
  cases avatarFetch_move hstep with
  | unknown stored hpc hnone =>
    rw [hnone, Option.map_none, Option.map_eq_none_iff] at huuid
    rw [RemoteManager.updateRemote, huuid] at hmanager
    exact hmanager ▸ hrep
  | stored stored store' hpc hstore =>
    obtain ⟨-, rfl⟩ := (streaming_run hrun).complete stored hpc
    cases hr : s.store.remotes w.uuid with
    | none =>
      rw [updateRemoteAsync_of_none hr] at hstore
      cases hstore
    | some r =>
      obtain ⟨store'', hstore', hremotes, -, hpicture, hevents⟩ := updateRemoteAsync_of_some hr _
      obtain rfl : store' = store'' := (Prod.mk.inj (hstore.symm.trans hstore')).2
      rw [hr] at huuid
      obtain ⟨r', hr', hrecord⟩ := Option.map_eq_some_iff.1 huuid
      have hversion : r'.pictureVersion = r.pictureVersion := (Prod.mk.inj hrecord).2
      rw [RemoteManager.updateRemote, hr'] at hmanager
      refine ⟨fun uuid => ?_, ?_⟩
      · rw [hmanager]
        dsimp only [RemoteManager.setRemote]
        rw [hremotes, hpicture]
        by_cases h : uuid = w.uuid
        · subst h
          rw [Function.update_self, Function.update_self, Function.update_self]
          simp [hversion]
        · rw [Function.update_of_ne h, Function.update_of_ne h, Function.update_of_ne h]
          exact hrep.remotes uuid
      · rw [hmanager]
        dsimp only [RemoteManager.setRemote]
        rw [hevents, hrep.events]

end Warpinator
