import Warpinator.Server.ApiVersion

/-! # Malformed Addresses

    `manual_connection` looks at its url in three places: it splits it at the
    last colon, connects to it, and, when the peer has answered and has no
    record yet, reads the host part as an IP address.  The request to the peer
    lies between the second and the third.

    `noSideEffects_iff`: a call of which nothing remains when it refuses the url,
    and which otherwise has the address of the url in the records it writes. -/

namespace Warpinator

/-! ## Section 1: A call -/

/-- A call of `manual_connection`, with what it has done so far. -/
structure ManualCall where
  registry : Registry
  pc : ManualPc
  /-- Host and port of each peer that was sent a `register_service` request. -/
  requests : List (String × String)
  /-- The registries that the steps of the call have found and left. -/
  steps : List (Registry × Registry)
  /-- The records that the call has written, before `connect`. -/
  written : List Remote

inductive ManualLabel where
  | call (ans : AdmitAnswer)
  /-- Whatever else writes to the registry. -/
  | others (g : Registry)

/-- The request goes out as soon as the peer is reached. -/
def ManualPc.requests : ManualPc → AdmitAnswer → List (String × String)
  | .dial ip port, .dialed => [(ip, port)]
  | _, _ => []

/-- The record that a step has written, in the registry that it leaves. -/
def ManualPc.written (g : Registry) : ManualPc → List Remote
  | .update _ _ remote => (g.remote remote.uuid).toList
  | .join (.addRemote r) => [r]
  | _ => []

namespace ManualCall

def start (g : Registry) (url : String) : ManualCall where
  registry := g
  pc := .parse url
  requests := []
  steps := []
  written := []

def advance (c : ManualCall) (ans : AdmitAnswer) (g : Registry) (pc : ManualPc) : ManualCall where
  registry := g
  pc := pc
  requests := c.requests ++ c.pc.requests ans
  steps := c.steps ++ [(c.registry, g)]
  written := c.written ++ c.pc.written g

def step (c : ManualCall) : ManualLabel → Option ManualCall
  | .call ans => (manualConnection c.registry c.pc ans).map fun (g, pc) => c.advance ans g pc
  | .others g => some { c with registry := g }

/-- No step of the call has changed the remotes or the workers. -/
def Unchanged (c : ManualCall) : Prop :=
  ∀ g g', (g, g') ∈ c.steps → g'.manager.remotes = g.manager.remotes ∧ g'.workers = g.workers

/-- The call has refused the url. -/
def Refused (c : ManualCall) : Prop := c.pc = .join (.returned (.error .invalidUrl))

end ManualCall

def manualCall : Machine ManualCall ManualLabel where
  step := ManualCall.step

/-- A url that is refused has had no effect.  A host that is not an IP address
    has had none either, or its address, `addressOf`, is in the records. -/
structure NoSideEffects (addressOf : String → IpAddr) (url : String) (c : ManualCall) : Prop where
  requests : c.Refused → c.requests = []
  unchanged : c.Refused → c.Unchanged
  address : ∀ ip port, splitLast ':' url = some (ip, port) → IpAddr.fromStr ip = none →
    ∀ r ∈ c.written, r.ip = addressOf ip

/-- The host part is an IP address, or the peer has a record, and that has the
    address of the host already. -/
def ManualPc.Readable (addressOf : String → IpAddr) (g : Registry) : ManualPc → Prop
  | .lookup ip service => IpAddr.fromStr ip ≠ none ∨ g.remote service.serviceId ≠ none
  | .update ip _ remote =>
    IpAddr.fromStr ip ≠ none ∨ ∀ r ∈ g.remote remote.uuid, r.ip = addressOf ip
  | _ => True

def UrlReadable (addressOf : String → IpAddr) (c : ManualCall) : ManualLabel → Prop
  | .call _ => c.pc.Readable addressOf c.registry
  | .others _ => True

/-! ## Section 2: The steps of a call -/

/-- What a step does, by program point. -/
inductive ManualMove (g : Registry) : ManualPc → AdmitAnswer → Registry → ManualPc → Prop
  | malformed (url : String) : splitLast ':' url = none →
      ManualMove g (.parse url) .go g (.join (.returned (.error .invalidUrl)))
  | split (url ip port : String) : splitLast ':' url = some (ip, port) →
      ManualMove g (.parse url) .go g (.dial ip port)
  | reached (ip port : String) : ManualMove g (.dial ip port) .dialed g (.register ip)
  | unreached (ip port : String) :
      ManualMove g (.dial ip port) .undialed g (.join (.returned (.error .failedToRegister)))
  | refused (ip : String) (status : Status) :
      ManualMove g (.register ip) (.registered (.error status)) g
        (.join (.returned (.error (.ofCode status.code))))
  | answered (ip : String) (service : ServiceRegistration) :
      ManualMove g (.register ip) (.registered (.ok service)) g (.lookup ip service)
  | known (ip : String) (service : ServiceRegistration) (remote : Remote) :
      g.remote service.serviceId = some remote →
      ManualMove g (.lookup ip service) .go g (.update ip service remote)
  | unreadable (ip : String) (service : ServiceRegistration) :
      g.remote service.serviceId = none → IpAddr.fromStr ip = none →
      ManualMove g (.lookup ip service) .go g (.join (.returned (.error .invalidUrl)))
  | unknown (ip : String) (service : ServiceRegistration) (addr : IpAddr) :
      IpAddr.fromStr ip = some addr →
      ManualMove g (.lookup ip service) .go g (.join (.addWorker (service.asRemote addr)))
  | lost (ip : String) (service : ServiceRegistration) (remote : Remote) :
      g.remote remote.uuid = none →
      ManualMove g (.update ip service remote) .go g (.join .panicked)
  | updated (ip : String) (service : ServiceRegistration) (remote r : Remote) :
      g.remote remote.uuid = some r →
      ManualMove g (.update ip service remote) .go
        (g.updateRemote remote.uuid (service.update ip))
        (.join (manualNext remote.uuid remote.state))
  | join (pc pc' : JoinPc (Except ManualConnectionError Unit)) (ans : AdmitAnswer)
      (g' : Registry) : manualEnd.step g pc ans = some (g', pc') →
      ManualMove g (.join pc) ans g' (.join pc')

theorem manual_move {g g' : Registry} {pc pc' : ManualPc} {ans : AdmitAnswer}
    (h : manualConnection g pc ans = some (g', pc')) : ManualMove g pc ans g' pc' := by
  unfold manualConnection at h
  split at h
  · next url =>
    split at h
    · next hsplit => cases h; exact .malformed url hsplit
    · next ip port hsplit => cases h; exact .split url ip port hsplit
  · cases h; exact .reached _ _
  · cases h; exact .unreached _ _
  · cases h; exact .refused _ _
  · cases h; exact .answered _ _
  · next ip service =>
    split at h
    · next remote hremote => cases h; exact .known ip service remote hremote
    · next hnone =>
      split at h
      · next hip => cases h; exact .unreadable ip service hnone hip
      · next addr hip => cases h; exact .unknown ip service addr hip
  · next ip service remote =>
    split at h
    · next hnone => cases h; exact .lost ip service remote hnone
    · next r hr => cases h; exact .updated ip service remote r hr
  · next pc =>
    obtain ⟨⟨g₁, pc₁⟩, hjoin, heq⟩ := Option.map_eq_some_iff.1 h
    obtain ⟨rfl, rfl⟩ := Prod.mk.inj heq
    exact .join pc pc₁ _ g₁ hjoin
  · cases h

/-! ## Section 3: What a call knows of its url -/

abbrev refusedUrl : JoinPc (Except ManualConnectionError Unit) := .returned (.error .invalidUrl)

theorem manualNext_ne (uuid : String) (state : RemoteState) :
    manualNext uuid state ≠ refusedUrl := by
  cases state <;> simp [manualNext, refusedUrl]

theorem ofCode_ne (code : Code) : ManualConnectionError.ofCode code ≠ .invalidUrl := by
  cases code <;> simp [ManualConnectionError.ofCode]

/-- A call that has got this far does not refuse the url. -/
theorem join_ne {g g' : Registry} {pc pc' : JoinPc (Except ManualConnectionError Unit)}
    {ans : AdmitAnswer} (h : manualEnd.step g pc ans = some (g', pc')) : pc' ≠ refusedUrl := by
  unfold JoinEnd.step at h
  split at h
  · cases h
    simp [refusedUrl]
  · cases h
    simp [refusedUrl, manualEnd]
  · split at h <;> cases h <;> simp [refusedUrl, manualEnd]
  · next result _ =>
    cases h
    cases result <;> simp [refusedUrl, manualEnd]
  · cases h

/-- What holds at the program points of a call. -/
def ManualCall.At (url : String) (c : ManualCall) : ManualPc → Prop
  | .parse u => u = url ∧ c.requests = [] ∧ c.Unchanged
  | .dial ip port => splitLast ':' url = some (ip, port) ∧ c.requests = [] ∧ c.Unchanged
  | .register ip | .lookup ip _ =>
    (∃ port, splitLast ':' url = some (ip, port)) ∧ c.requests ≠ [] ∧ c.Unchanged
  | .update ip _ _ => ∃ port, splitLast ':' url = some (ip, port)
  | .join pc =>
    (pc.adds = true →
      ∀ ip port, splitLast ':' url = some (ip, port) → IpAddr.fromStr ip ≠ none) ∧
    (pc = refusedUrl → c.Unchanged)

def ManualCall.Sound (url : String) (c : ManualCall) : Prop := c.At url c.pc

section

variable {addressOf : String → IpAddr} {url : String} {c : ManualCall}

theorem unchanged_advance (h : c.Unchanged) (ans : AdmitAnswer) (pc : ManualPc) :
    (c.advance ans c.registry pc).Unchanged := by
  intro g g' hmem
  rcases List.mem_append.1 hmem with hold | hnew
  · exact h g g' hold
  · obtain ⟨rfl, rfl⟩ := Prod.mk.inj (List.mem_singleton.1 hnew)
    exact ⟨rfl, rfl⟩

theorem sound_others (h : c.Sound url) (g : Registry) :
    ManualCall.Sound url { c with registry := g } := by
  obtain ⟨registry, pc, requests, steps, written⟩ := c
  cases pc <;> exact h

/-- A step that writes no record and does not refuse the url. -/
theorem noSideEffects_quiet (h : NoSideEffects addressOf url c) {ans : AdmitAnswer} {g : Registry}
    {pc : ManualPc} (hwritten : c.pc.written g = []) (hpc : pc ≠ .join refusedUrl) :
    NoSideEffects addressOf url (c.advance ans g pc) where
  requests hrefused := absurd hrefused hpc
  unchanged hrefused := absurd hrefused hpc
  address ip port hsplit hip r hr := by
    rw [ManualCall.advance, hwritten, List.append_nil] at hr
    exact h.address ip port hsplit hip r hr

/-- A step of the call keeps what it knows of its url. -/
theorem sound_call {ans : AdmitAnswer} {g : Registry} {pc : ManualPc}
    (hmove : ManualMove c.registry c.pc ans g pc) (hsound : c.Sound url) :
    (c.advance ans g pc).Sound url := by
  obtain ⟨registry, pc₀, requests, steps, written⟩ := c
  dsimp only at hmove
  unfold ManualCall.Sound at hsound ⊢
  cases hmove with
  | malformed u hsplit =>
    obtain ⟨rfl, rfl, hquiet⟩ := hsound
    exact ⟨nofun, fun _ => unchanged_advance hquiet _ _⟩
  | split u ip port hsplit =>
    obtain ⟨rfl, rfl, hquiet⟩ := hsound
    exact ⟨hsplit, rfl, unchanged_advance hquiet _ _⟩
  | reached ip port =>
    obtain ⟨hsplit, rfl, hquiet⟩ := hsound
    exact ⟨⟨port, hsplit⟩, List.cons_ne_nil _ _, unchanged_advance hquiet _ _⟩
  | unreached ip port =>
    exact ⟨nofun, nofun⟩
  | refused ip status =>
    refine ⟨nofun, fun hrefused => ?_⟩
    simp [refusedUrl, ofCode_ne status.code] at hrefused
  | answered ip service =>
    obtain ⟨hsplit, hsent, hquiet⟩ := hsound
    refine ⟨hsplit, ?_, unchanged_advance hquiet _ _⟩
    simpa [ManualCall.advance, ManualPc.requests] using hsent
  | known ip service remote hremote => exact hsound.1
  | unreadable ip service hnone hip =>
    obtain ⟨_, _, hquiet⟩ := hsound
    exact ⟨nofun, fun _ => unchanged_advance hquiet _ _⟩
  | unknown ip service addr hip =>
    obtain ⟨⟨port, hsplit⟩, _, _⟩ := hsound
    refine ⟨fun _ ip' port' hsplit' => ?_, nofun⟩
    obtain ⟨rfl, rfl⟩ := Prod.mk.inj (Option.some.inj (hsplit.symm.trans hsplit'))
    simp [hip]
  | lost ip service remote hnone =>
    exact ⟨nofun, nofun⟩
  | updated ip service remote r hr =>
    refine ⟨fun hadds => ?_, fun hrefused => absurd hrefused (manualNext_ne _ _)⟩
    unfold manualNext at hadds
    split at hadds <;> cases hadds
  | join pc pc' ans g' hjoin =>
    exact ⟨fun hadds => hsound.1 (join_adds hjoin hadds),
      fun hrefused => absurd hrefused (join_ne hjoin)⟩

/-- The update of a known remote writes the address of the url, or keeps the one
    that the record has. -/
theorem noSideEffects_updated {ip port : String} {service : ServiceRegistration}
    {remote r : Remote} (hpc : c.pc = .update ip service remote)
    (hsplit : splitLast ':' url = some (ip, port)) (hr : c.registry.remote remote.uuid = some r)
    (h : NoSideEffects addressOf url c) :
    NoSideEffects addressOf url (c.advance .go
        (c.registry.updateRemote remote.uuid (service.update ip))
        (.join (manualNext remote.uuid remote.state))) ↔
      c.pc.Readable addressOf c.registry := by
  obtain ⟨registry, pc₀, requests, steps, written⟩ := c
  dsimp only at hpc hr
  subst hpc
  have hne : ManualPc.join (manualNext remote.uuid remote.state) ≠ .join refusedUrl := by
    intro heq
    exact manualNext_ne remote.uuid remote.state (ManualPc.join.inj heq)
  have hwritten : ManualPc.written (registry.updateRemote remote.uuid (service.update ip))
      (.update ip service remote) = [service.update ip r] := by
    simp [ManualPc.written, remote_updateRemote, hr]
  constructor
  · intro hclean
    by_cases hip : IpAddr.fromStr ip = none
    · right
      intro r' hr'
      obtain rfl := Option.some.inj (hr.symm.trans hr')
      have haddress := hclean.address ip port hsplit hip (service.update ip r)
        (List.mem_append_right _ (by rw [hwritten]; exact List.mem_singleton_self _))
      simpa [ServiceRegistration.update, hip] using haddress
    · exact .inl hip
  · intro hreadable
    refine ⟨fun hrefused => absurd hrefused hne, fun hrefused => absurd hrefused hne, ?_⟩
    intro ip' port' hsplit' hip r' hr'
    obtain ⟨rfl, rfl⟩ := Prod.mk.inj (Option.some.inj (hsplit.symm.trans hsplit'))
    rcases List.mem_append.1 hr' with hold | hnew
    · exact h.address ip port hsplit hip r' hold
    · rw [hwritten] at hnew
      obtain rfl := List.mem_singleton.1 hnew
      have haddress : r.ip = addressOf ip := (hreadable.resolve_left (absurd hip)) r hr
      simpa [ServiceRegistration.update, hip] using haddress

/-- A step of the common rest: the host of a remote that is added is an IP
    address. -/
theorem noSideEffects_join {pc pc' : JoinPc (Except ManualConnectionError Unit)}
    {ans : AdmitAnswer} {g : Registry} (hpc : c.pc = .join pc)
    (hjoin : manualEnd.step c.registry pc ans = some (g, pc')) (hsound : c.Sound url)
    (h : NoSideEffects addressOf url c) :
    NoSideEffects addressOf url (c.advance ans g (.join pc')) := by
  have hne : ManualPc.join pc' ≠ .join refusedUrl := fun heq =>
    join_ne hjoin (ManualPc.join.inj heq)
  unfold ManualCall.Sound at hsound
  rw [hpc] at hsound
  obtain ⟨hadds, _⟩ := hsound
  by_cases hadd : pc.adds = true
  · refine ⟨fun hrefused => absurd hrefused hne, fun hrefused => absurd hrefused hne, ?_⟩
    intro ip port hsplit hip
    exact absurd hip (hadds hadd ip port hsplit)
  · refine noSideEffects_quiet h ?_ hne
    rw [hpc]
    cases pc with
    | addRemote r => exact absurd rfl hadd
    | _ => rfl

/-- A step of the call has no side effects exactly if the url is readable. -/
theorem noSideEffects_call {ans : AdmitAnswer} {g : Registry} {pc : ManualPc}
    (hmove : ManualMove c.registry c.pc ans g pc) (hsound : c.Sound url)
    (h : NoSideEffects addressOf url c) :
    NoSideEffects addressOf url (c.advance ans g pc) ↔ c.pc.Readable addressOf c.registry := by
  obtain ⟨registry, pc₀, requests, steps, written⟩ := c
  dsimp only at hmove
  have hat := hsound
  unfold ManualCall.Sound at hat
  cases hmove with
  | malformed u hsplit =>
    obtain ⟨rfl, rfl, hquiet⟩ := hat
    have hquiet' := unchanged_advance hquiet .go (.join refusedUrl)
    refine iff_of_true ⟨fun _ => rfl, fun _ => hquiet', ?_⟩ trivial
    intro ip port hsplit'
    rw [hsplit] at hsplit'
    cases hsplit'
  | split u ip port hsplit => exact iff_of_true (noSideEffects_quiet h rfl (by simp)) trivial
  | reached ip port => exact iff_of_true (noSideEffects_quiet h rfl (by simp)) trivial
  | unreached ip port =>
    exact iff_of_true (noSideEffects_quiet h rfl (by simp [refusedUrl])) trivial
  | refused ip status =>
    have hne := ofCode_ne status.code
    exact iff_of_true (noSideEffects_quiet h rfl (by simp [refusedUrl, hne])) trivial
  | answered ip service => exact iff_of_true (noSideEffects_quiet h rfl (by simp)) trivial
  | known ip service remote hremote =>
    exact iff_of_true (noSideEffects_quiet h rfl (by simp)) (.inr (by simp [hremote]))
  | unreadable ip service hnone hip =>
    -- the request has been sent
    obtain ⟨_, hsent, _⟩ := hat
    refine iff_of_false (fun hclean => ?_) (by simp [ManualPc.Readable, hnone, hip])
    have hnothing := hclean.requests rfl
    exact hsent (by simpa [ManualCall.advance, ManualPc.requests] using hnothing)
  | unknown ip service addr hip =>
    exact iff_of_true (noSideEffects_quiet h rfl (by simp [refusedUrl])) (.inl (by simp [hip]))
  | lost ip service remote hnone =>
    have hwritten : ManualPc.written g (.update ip service remote) = [] := by
      simp [ManualPc.written, hnone]
    exact iff_of_true (noSideEffects_quiet h hwritten (by simp [refusedUrl]))
      (.inr (by simp [hnone]))
  | updated ip service remote r hr =>
    obtain ⟨port, hsplit⟩ := hat
    exact noSideEffects_updated rfl hsplit hr h
  | join pc pc' ans g' hjoin => exact iff_of_true (noSideEffects_join rfl hjoin hsound h) trivial

end

/-! ## Section 4: Every call -/

theorem noSideEffects_start (addressOf : String → IpAddr) (g : Registry) (url : String) :
    NoSideEffects addressOf url (.start g url) where
  requests _ := rfl
  unchanged _ _ _ hmem := by cases hmem
  address _ _ _ _ _ hr := by cases hr

/-- A call has no side effects where it should have none, whatever else happens
    to the registry, exactly if its url is readable where that matters. -/
theorem noSideEffects_iff (addressOf : String → IpAddr) (g : Registry) (url : String)
    {ls : List ManualLabel} {c : ManualCall} (hrun : manualCall.exec (.start g url) ls = some c) :
    manualCall.Always (NoSideEffects addressOf url) (.start g url) ls
      ↔ manualCall.Along (UrlReadable addressOf) (.start g url) ls := by
  refine manualCall.always_iff_along (I := ManualCall.Sound url) ?_ ?_
    (noSideEffects_start addressOf g url) hrun
  · intro c l c' hsound h hstep
    cases l with
    | call ans =>
      obtain ⟨⟨g', pc'⟩, hcall, rfl⟩ := Option.map_eq_some_iff.1 hstep
      have hmove := manual_move hcall
      exact ⟨sound_call hmove hsound, noSideEffects_call hmove hsound h⟩
    | others g' =>
      obtain rfl := Option.some.inj hstep
      exact ⟨sound_others hsound g', iff_of_true ⟨h.requests, h.unchanged, h.address⟩ trivial⟩
  · exact ⟨rfl, rfl, fun _ _ hmem => by cases hmem⟩

/-- The peer `a` answers, and there is no record for it. -/
def answeredRun : List ManualLabel :=
  [.call .go, .call .dialed, .call (.registered (.ok serverOfA.regServiceMessage)), .call .go]

theorem noSideEffects_ip :
    ∃ c, manualCall.exec (.start .new "10.0.0.6:42001") answeredRun = some c ∧
      (manualCall.Always (NoSideEffects (fun _ => .v4 0) "10.0.0.6:42001")
          (.start .new "10.0.0.6:42001") answeredRun
        ↔ manualCall.Along (UrlReadable fun _ => .v4 0) (.start .new "10.0.0.6:42001")
          answeredRun) ∧
      c.requests = [("10.0.0.6", "42001")] ∧ ¬ c.Refused := by
  refine ⟨_, rfl, noSideEffects_iff _ .new "10.0.0.6:42001" rfl, rfl, fun hrefused => ?_⟩
  cases hrefused

/-- The url is refused when the host name has been sent a request, by which the
    peer has got a record. -/
theorem host_name_registered :
    ∃ c p, manualCall.exec (.start .new "localhost:42001") answeredRun = some c ∧
      c.Refused ∧ c.requests = [("localhost", "42001")] ∧
      (admissions serverOfA).pool.exec Lobby.new registerRun = some p ∧
      (p.shared.remote "b").isSome = true ∧
      ∀ addressOf, ¬ NoSideEffects addressOf "localhost:42001" c := by
  refine ⟨_, _, rfl, rfl, rfl, rfl, by decide, fun addressOf h => ?_⟩
  have hnothing := h.requests rfl
  cases hnothing

end Warpinator
