import Warpinator.Transfers.Accounting

/-! # Whole Transfers

    A transfer in which no operation fails, no poll sees a cancelled token and
    the stream is not lost, with both tasks running at the same time: whatever
    the order of their steps and the sizes of the reads, both sides complete,
    the files of the sources lie in the destination, and both records show all
    bytes.

    A sender that has returned has handed over the chunks of every item
    (`rests_of_sent`).  Here the receiver writes while the sender reads, so every
    prefix of a stream has to be processed well: an undisturbed sender can always
    finish (`undisturbed_returns`), and what is processed is a prefix of what it
    will have handed over. -/

namespace Warpinator

open LexPath

/-! ## Section 1: Undisturbed runs -/

/-- No operation of the file system fails. -/
def IoAnswers.isGood (io : IoAnswers) : Bool :=
  io.finalize.isNone && io.createDirAll.isNone && io.createFile.isNone && io.write.isNone

theorem IoAnswers.eq_good {io : IoAnswers} (h : io.isGood = true) : io = .good io.bps := by
  obtain ⟨finalize, createDirAll, createFile, write, bps⟩ := io
  simp only [isGood, Bool.and_eq_true, Option.isNone_iff_eq_none] at h
  obtain ⟨⟨⟨rfl, rfl⟩, rfl⟩, rfl⟩ := h
  rfl

/-- No failure, no cancellation and no loss of the stream. -/
def LinkLabel.undisturbed : LinkLabel → Bool
  | .send (.send l _) => l.undisturbed
  | .receive (.receive (.message io _) _ _) => io.isGood
  | .receive (.receive .endOfStream fault _) => fault.isNone
  | .receive (.receive _ _ _) => false
  | _ => true

/-- What an undisturbed sender can have come to. -/
def SentUndisturbed (sources : List Source) (s : Sender) : Prop :=
  ∃ ls, (∀ l ∈ ls, SendLabel.undisturbed l = true) ∧ sender.exec (.start sources) ls = some s

theorem SentUndisturbed.step {sources : List Source} {s s' : Sender} {l : SendLabel}
    (h : SentUndisturbed sources s) (hl : l.undisturbed = true) (hstep : sendStep s l = some s') :
    SentUndisturbed sources s' := by
  obtain ⟨ls, hls, hrun⟩ := h
  refine ⟨ls ++ [l], ?_, sender.exec_append.2 ⟨s, hrun, sender.exec_cons.2 ⟨s', hstep, rfl⟩⟩⟩
  intro l' hl'
  rcases List.mem_append.1 hl' with hl' | hl'
  · exact hls l' hl'
  · rw [List.mem_singleton.1 hl']
    exact hl

theorem step_sentUndisturbed {sources : List Source} {s s' : Link} {l : LinkLabel}
    (hstep : s.step l = some s') (hl : l.undisturbed = true)
    (h : SentUndisturbed sources s.sendTask.sender) :
    SentUndisturbed sources s'.sendTask.sender := by
  cases step_senderView hstep with
  | inner l queued _ _ hsend => exact h.step hl hsend
  | phase queued hsender _ => rwa [hsender]
  | other l _ htask => rwa [htask]

/-- A sender that returns has reached the end of its sources. -/
def SendPc.EndsWell (pc : SendPc) : Prop := ∀ result, pc = .returned result → result = .ok true

theorem sourceLoop_endsWell (rest : List Source) : (sourceLoop rest).EndsWell := by
  intro result h
  cases rest with
  | nil => cases h; rfl
  | cons s rest => cases h

theorem resume_endsWell (cont : SendCont) : cont.resume.EndsWell := by
  cases cont with
  | nextSource rest => exact sourceLoop_endsWell rest
  | nextEntry base entries rest => intro result h; cases h

theorem enterSource_endsWell (base : Path) (source : Source) (rest : List Source) :
    (enterSource base source rest).EndsWell := by
  unfold enterSource
  split
  · intro result h; cases h
  · intro result h; cases h
  · exact sourceLoop_endsWell rest

theorem enterEntry_endsWell (base : Path) (e : WalkEntry) (entries : List WalkEntry)
    (rest : List Source) : (enterEntry base e entries rest).EndsWell := by
  unfold enterEntry
  split <;> (intro result h; cases h)

theorem SendMove.endsWell {pc pc' : SendPc} {l : SendLabel} {cs : List FileChunk}
    (h : SendMove pc l pc' cs) (hl : l.undisturbed = true) (hpc : pc.Healthy) : pc'.EndsWell := by
  have hexit := earlyExit_of_undisturbed hl hpc
  cases h with
  | sourceEntered base source rest => exact enterSource_endsWell _ _ _
  | walkDone base rest => exact sourceLoop_endsWell _
  | entryEntered base e entries rest => exact enterEntry_endsWell _ _ _ _
  | dirSent chunk cont => exact resume_endsWell _
  | readEof file cont _ => exact resume_endsWell _
  | fileCancelled file cont => cases hexit
  -- the other returns are early exits
  | sourceRootless source rest hp => simp [earlyExit, hp] at hexit
  | walkCancelled base item entries rest => cases item <;> cases hexit
  | sourceCancelled | sourceFailed | walkError | entryFailed | dirRefused | openFailed
  | readFailed | chunkRefused => cases hexit
  | sourcePolled | walkFailed | walkItem | walkPolled | opened | filePolled | readBytes
  | chunkSent | progressed => intro result h; cases h

theorem SentUndisturbed.healthy {sources : List Source} {s : Sender} (hroot : Rooted sources)
    (h : SentUndisturbed sources s) : s.pc.Healthy ∧ s.pc.EndsWell := by
  obtain ⟨ls, hls, hrun⟩ := h
  refine sender.exec_invariant_along (I := fun s => s.pc.Healthy ∧ s.pc.EndsWell)
    (C := fun _ l => l.undisturbed = true) (fun s l s' hl hs hstep => ?_)
    ⟨sourceLoop_healthy hroot, sourceLoop_endsWell _⟩
    (sender.along_of_forall (fun l hl _ => hls l hl) _) hrun
  obtain ⟨cs, _, hmove⟩ := sendStep_move hstep
  exact ⟨hmove.healthy hl hs.1, hmove.endsWell hl hs.1⟩

/-- An undisturbed sender can be brought to its end without a disturbance. -/
theorem undisturbed_returns (s : Sender) :
    ∃ ls s' result, (∀ l ∈ ls, SendLabel.undisturbed l = true) ∧ sender.exec s ls = some s' ∧
      s'.pc = .returned result := by
  -- the work left is the measure of the induction
  induction hwork : s.pc.work using Nat.strong_induction_on generalizing s with
  | _ n ih =>
    by_cases hret : ∃ result, s.pc = .returned result
    · obtain ⟨result, hret⟩ := hret
      exact ⟨[], s, result, by simp, rfl, hret⟩
    · obtain ⟨l, t, hfault, hsuits, hstep⟩ := sendStep_goes_on s false true
        fun result h => hret ⟨result, h⟩
      have hl : l.undisturbed = true := by
        cases l with
        | poll c => simpa [SendLabel.suits, SendLabel.undisturbed] using hsuits
        | send a => simpa [SendLabel.suits, SendLabel.undisturbed] using hsuits
        | _ => exact hfault
      obtain ⟨cs, _, hmove⟩ := sendStep_move hstep
      obtain ⟨ls, s', result, hls, hrun, hend⟩ := ih t.pc.work (hwork ▸ hmove.work_lt) t rfl
      refine ⟨l :: ls, s', result, ?_, sender.exec_cons.2 ⟨t, hstep, hrun⟩, hend⟩
      intro l' hl'
      rcases List.mem_cons.1 hl' with rfl | hl'
      · exact hl
      · exact hls l' hl'

theorem handed_extends {s s' : Sender} {ls : List SendLabel} (hrun : sender.exec s ls = some s') :
    s.handed <+: s'.handed := by
  refine sender.exec_invariant (I := fun t => s.handed <+: t.handed) (fun t l t' h hstep => ?_)
    List.prefix_rfl hrun
  obtain ⟨cs, hhanded, _⟩ := sendStep_move hstep
  rw [hhanded]
  exact h.trans (List.prefix_append _ _)

/-! ## Section 2: Prefixes of the stream -/

section stream

variable {checks : Bool} {destination : PathBuf} {sts : List SourceTree} {sources : List Source}
  {node : Path → Option Node}

/-- The receiver rests once it has processed what an undisturbed sender has handed
    over before it returned. -/
theorem rests_of_sent (checks : Bool) (hshow : List.Forall₂ SourceTree.Shows sts sources)
    (hdistinct : ((allEntries sts).map sanitizedRel).Nodup)
    (hempty : EmptyDestination destination node) {s : Sender} (hs : SentUndisturbed sources s)
    {result : Except TransferError Bool} (hret : s.pc = .returned result) {acs : ChunkStream}
    (hgood : Faultless acs) (hacs : acs.map Prod.snd = s.handed) :
    ∃ r, processAll checks destination acs (.start node) = .ok r ∧
      RestsAfter checks destination (allItems sources).reverse r := by
  obtain ⟨ls, hls, hrun⟩ := hs
  have hpc : (Sender.start sources).pc.Healthy := sourceLoop_healthy (rooted_of_shows hshow)
  obtain ⟨css, hcss, hchunks⟩ := (emits_of_returned hrun (along_undisturbed hls hpc) hret).items
  have hsendable : ∀ i ∈ allItems sources, i.Sendable checks := by
    intro i hi
    obtain ⟨x, _, hx⟩ := List.mem_filterMap.1 ((allItems_perm hshow).mem_iff.1 hi)
    exact sendable_of_entry hx
  have hapart : (allItems sources).Pairwise Apart :=
    ((allItems_perm hshow).pairwise_iff Apart.symm).2 (pairwise_apart hdistinct)
  have hrest := (restsAfter_start hempty).items hsendable hapart
    (fun j hj => by cases hj) hchunks (hacs.trans hcss) hgood
  rwa [List.append_nil] at hrest

/-- The end of the stream closes the last file, and the sources are delivered. -/
theorem delivered_at_rest {checks : Bool} (hshow : List.Forall₂ SourceTree.Shows sts sources)
    {r : Receiver} (h : RestsAfter checks destination (allItems sources).reverse r) :
    ∃ r', receiveRound checks destination none r .endOfStream = .done (.ok true) r' ∧
      Delivered destination sts r' := by
  obtain ⟨r', hfin, _, hholds⟩ := h.rests.finalized
  refine ⟨r', by simp [receiveRound, leaveLoop, hfin], ?_⟩
  exact delivered_of_holds ((List.reverse_perm _).trans (allItems_perm hshow)) hholds

/-- What has arrived of an undisturbed sender's chunks is processed well. -/
theorem processes_sent (checks : Bool) (hshow : List.Forall₂ SourceTree.Shows sts sources)
    (hdistinct : ((allEntries sts).map sanitizedRel).Nodup)
    (hempty : EmptyDestination destination node) {s : Sender} (hs : SentUndisturbed sources s)
    {acs : ChunkStream} (hgood : Faultless acs) (hacs : acs.map Prod.snd <+: s.handed) :
    ∃ r, processAll checks destination acs (.start node) = .ok r := by
  -- the sender goes on to its end, and the rest of its chunks arrives
  obtain ⟨ls, hls, hrun⟩ := hs
  obtain ⟨ls', s', result, hls', hrun', hret⟩ := undisturbed_returns s
  obtain ⟨rest, hrest⟩ := hacs.trans (handed_extends hrun')
  have hall : ∀ l ∈ ls ++ ls', SendLabel.undisturbed l = true := by
    intro l hl
    rcases List.mem_append.1 hl with hl | hl
    · exact hls l hl
    · exact hls' l hl
  have hgood' : Faultless (acs ++ rest.map fun c => (.good 0, c)) := by
    intro ac hac
    rcases List.mem_append.1 hac with hac | hac
    · exact hgood ac hac
    · obtain ⟨c, _, rfl⟩ := List.mem_map.1 hac
      exact ⟨0, rfl⟩
  have hchunks : (acs ++ rest.map fun c => (IoAnswers.good 0, c)).map Prod.snd = s'.handed := by
    rw [← hrest, List.map_append, List.map_map]
    congr 1
    exact List.map_id _
  have hs' : SentUndisturbed sources s' := ⟨_, hall, sender.exec_append.2 ⟨s, hrun, hrun'⟩⟩
  obtain ⟨r, hprocess, _⟩ := rests_of_sent checks hshow hdistinct hempty hs' hret hgood' hchunks
  obtain ⟨r', hprefix, _⟩ := processAll_append_ok hprocess
  exact ⟨r', hprefix⟩

/-- The paths of directories among the items. -/
def DirPath (is : List Item) (p : String) : Prop :=
  ∃ rel, Item.dir rel ∈ is ∧ p = sanitizePathComponent rel

/-- A directory of the items, or bytes of a file that lies elsewhere. -/
def OfItems (is : List Item) (c : FileChunk) : Prop :=
  (∃ rel, c = .ofDirectory rel ∧ DirPath is (sanitizePathComponent rel)) ∨
    ∃ rel t data, c = .ofFile rel t data ∧ ¬ DirPath is (sanitizePathComponent rel)

/-- The file of the current path is open, unless the path is a directory's. -/
def OpensFiles (is : List Item) (r : Receiver) : Prop :=
  r.state.currentFile = none → ∀ p, r.state.currentPath = some p → DirPath is p

/-- Into an open file, all bytes of a chunk are written. -/
theorem writeChunk_writes {ans : IoAnswers} {data : List UInt8} {r r' : Receiver}
    (h : writeChunk ans data r = .ok r')
    (hfile : r.state.currentFile = none → data = []) :
    progressBytes r'.progress = progressBytes r.progress + data.length ∧
      (r'.state.currentFile = none → r.state.currentFile = none ∧ r' = r) := by
  unfold writeChunk at h
  split at h
  · next hnone =>
    cases h
    exact ⟨by simp [hfile hnone], fun _ => ⟨hnone, rfl⟩⟩
  · split at h
    · cases h
    · cases h
      exact ⟨by simp, by simp⟩

/-- The three ways of a chunk that is processed well. -/
theorem processChunk_ok {ans : IoAnswers} {c : FileChunk} {r r' : Receiver}
    (h : processChunk checks destination ans c r = .ok r') :
    c.kind = .symlink ∨
    (r.state.currentPath = some (sanitizePathComponent c.relativePath) ∧
      writeChunk ans c.chunk r = .ok r') ∨
    ∃ r₁ target, finalizeCurrentFile checks ans.finalize r = .ok r₁ ∧
      openTarget ans c target { r₁ with state := { r₁.state with
          currentPath := some (sanitizePathComponent c.relativePath)
          currentFileMtime := c.time } } = .ok r' := by
  unfold processChunk at h
  split at h
  · next hlink => exact .inl hlink
  dsimp only at h
  split at h
  · cases h
  split at h
  · next hcurrent => exact .inr (.inl ⟨hcurrent, h⟩)
  cases hout : finalizeCurrentFile checks ans.finalize r with
  | err e r₁ => rw [hout] at h; cases h
  | panic r₁ => rw [hout] at h; cases h
  | ok r₁ => rw [hout] at h; exact .inr (.inr ⟨r₁, _, rfl, h⟩)

/-- A chunk that is processed well has all of its bytes written. -/
theorem processChunk_writes {is : List Item} {ans : IoAnswers} {c : FileChunk} {r r' : Receiver}
    (hc : OfItems is c) (hopens : OpensFiles is r)
    (h : processChunk checks destination ans c r = .ok r') :
    progressBytes r'.progress = progressBytes r.progress + c.chunk.length ∧ OpensFiles is r' := by
  have hkind : c.kind ≠ .symlink := by
    rcases hc with ⟨rel, rfl, _⟩ | ⟨rel, t, data, rfl, _⟩ <;> simp
  rcases processChunk_ok h with hlink | ⟨hcurrent, hwrite⟩ | ⟨r₁, target, hfin, hopen⟩
  · exact absurd hlink hkind
  · -- without an open file the path is a directory's, and the chunk is empty
    have hempty : r.state.currentFile = none → c.chunk = [] := by
      intro hnone
      rcases hc with ⟨rel, rfl, _⟩ | ⟨rel, t, data, rfl, hnot⟩
      · rfl
      · exact absurd (hopens hnone _ hcurrent) hnot
    obtain ⟨hbytes, hnone⟩ := writeChunk_writes hwrite hempty
    refine ⟨hbytes, fun hfile => ?_⟩
    obtain ⟨hfile', rfl⟩ := hnone hfile
    exact hopens hfile'
  · have hprogress := finalizeCurrentFile_progress checks ans.finalize r
    rw [hfin] at hprogress
    unfold openTarget at hopen
    rcases hc with ⟨rel, rfl, hdir⟩ | ⟨rel, t, data, rfl, hnot⟩
    · rw [if_pos (ofDirectory_kind rel)] at hopen
      cases hopen
      refine ⟨congrArg progressBytes hprogress, fun _ p hp => ?_⟩
      cases hp
      exact hdir
    · rw [if_neg (by simp)] at hopen
      split at hopen
      · cases hopen
      · obtain ⟨hbytes, hnone⟩ := writeChunk_writes hopen fun hnone => by cases hnone
        refine ⟨hbytes.trans ?_, fun hfile => by cases (hnone hfile).1⟩
        exact congrArg (progressBytes · + data.length) hprogress

theorem processAll_writes {is : List Item} {acs : ChunkStream} {r r' : Receiver}
    (hacs : ∀ ac ∈ acs, OfItems is ac.2) (hopens : OpensFiles is r)
    (h : processAll checks destination acs r = .ok r') :
    progressBytes r'.progress = progressBytes r.progress + chunkBytes (acs.map Prod.snd) := by
  induction acs generalizing r with
  | nil =>
    cases h
    simp
  | cons ac acs ih =>
    obtain ⟨ans, c⟩ := ac
    obtain ⟨r₁, hstep, hrest⟩ := processAll_cons_ok h
    obtain ⟨hbytes, hopens₁⟩ := processChunk_writes (hacs _ List.mem_cons_self) hopens hstep
    have htail := ih (fun ac hac => hacs ac (List.mem_cons_of_mem _ hac)) hopens₁ hrest
    rw [htail, hbytes, List.map_cons, chunkBytes_cons, Nat.add_assoc]

/-- The chunks of a file. -/
theorem FileChunks.ofFile {rel : String} {t : Option FileTime} {data : List UInt8}
    {cs : List FileChunk} (h : FileChunks rel t data cs) :
    ∀ c ∈ cs, ∃ t' data', c = .ofFile rel t' data' := by
  induction h with
  | eof t => simp
  | read t data rest cs _ _ ih =>
    intro c hc
    rcases List.mem_cons.1 hc with rfl | hc
    · exact ⟨t, data, rfl⟩
    · exact ih c hc

theorem exists_item_of_chunks {is : List Item} {css : List (List FileChunk)}
    (h : List.Forall₂ ItemChunks is css) {cs : List FileChunk} (hcs : cs ∈ css) :
    ∃ i ∈ is, ItemChunks i cs := by
  induction h with
  | nil => cases hcs
  | cons hi _ ih =>
    rcases List.mem_cons.1 hcs with rfl | hcs
    · exact ⟨_, List.mem_cons_self, hi⟩
    · obtain ⟨i, hmem, hi⟩ := ih hcs
      exact ⟨i, List.mem_cons_of_mem _ hmem, hi⟩

/-- The chunks of items that are apart come from these items. -/
theorem ofItems_of_chunks {is : List Item} {css : List (List FileChunk)}
    (hapart : is.Pairwise Apart) (hchunks : List.Forall₂ ItemChunks is css) :
    ∀ c ∈ css.flatten, OfItems is c := by
  intro c hc
  obtain ⟨cs, hcs, hc⟩ := List.mem_flatten.1 hc
  obtain ⟨i, hi, hics⟩ := exists_item_of_chunks hchunks hcs
  cases i with
  | dir rel =>
    obtain rfl : cs = [.ofDirectory rel] := hics
    rw [List.mem_singleton.1 hc]
    exact .inl ⟨rel, rfl, rel, hi, rfl⟩
  | file rel t data =>
    obtain ⟨t', data', rfl⟩ := FileChunks.ofFile hics c hc
    refine .inr ⟨rel, t', data', rfl, ?_⟩
    -- a directory with the path of the file would be in its way
    rintro ⟨rel', hdir, hpath⟩
    have hne : Item.file rel t data ≠ .dir rel' := by simp
    have : Std.Symm Apart := ⟨fun _ _ => Apart.symm⟩
    have hpair := hapart.forall hi hdir hne
    exact hpair.ne (by simp only [Item.path, Item.sanitized, Item.rel, hpath])

/-- What a receiver has recorded that has processed all chunks of an undisturbed
    sender. -/
theorem recorded_of_delivered (hshow : List.Forall₂ SourceTree.Shows sts sources)
    (hdistinct : ((allEntries sts).map sanitizedRel).Nodup) {s : Sender}
    (hs : SentUndisturbed sources s) {result : Except TransferError Bool}
    (hret : s.pc = .returned result) {acs : ChunkStream} (hacs : acs.map Prod.snd = s.handed)
    {r : Receiver} (h : processAll checks destination acs (.start node) = .ok r) :
    progressBytes r.progress = itemBytes (allItems sources) := by
  obtain ⟨ls, hls, hrun⟩ := hs
  have hpc : (Sender.start sources).pc.Healthy := sourceLoop_healthy (rooted_of_shows hshow)
  have hemits := emits_of_returned hrun (along_undisturbed hls hpc) hret
  obtain ⟨css, hcss, hchunks⟩ := hemits.items
  have hapart : (allItems sources).Pairwise Apart :=
    ((allItems_perm hshow).pairwise_iff Apart.symm).2 (pairwise_apart hdistinct)
  have hof : ∀ ac ∈ acs, OfItems (allItems sources) ac.2 := by
    intro ac hac
    refine ofItems_of_chunks hapart hchunks ac.2 ?_
    rw [← hcss, ← hacs]
    exact List.mem_map_of_mem hac
  have hopens : OpensFiles (allItems sources) (.start node) := fun _ p hp => by cases hp
  rw [processAll_writes hof hopens h, hacs, hemits.bytes]
  exact Nat.zero_add _

end stream

/-! ## Section 3: The two tasks -/

/-- What the sender has handed over has been processed, or waits in the queue. -/
structure Link.Flowing (checks : Bool) (destination : PathBuf) (node : Path → Option Node)
    (sources : List Source) (s : Link) : Prop where
  sent : SentUndisturbed sources s.sendTask.sender
  checks_eq : s.receiver.checks = checks
  destination_eq : s.receiveTask.destination = destination
  stream : ∃ acs r, Faultless acs ∧ s.sendTask.sender.handed = acs.map Prod.snd ++ s.queue ∧
    processAll checks destination acs (.start node) = .ok r ∧
    (s.receiveTask.phase = .inner ∧ s.receiveTask.receiver = r ∨
      (s.receiveTask.phase = .closing .completed ∨ s.receiveTask.phase = .done) ∧
        s.queue = [] ∧ s.sendTask.phase = .done ∧
        receiveRound checks destination none r .endOfStream
          = .done (.ok true) s.receiveTask.receiver)

section link

variable {checks : Bool} {destination : PathBuf} {sts : List SourceTree} {sources : List Source}
  {node : Path → Option Node}

/-- A sending step: what `tx` takes waits in the queue. -/
theorem send_flowing {s s' : Link} {ans : Answer} (hstep : s.step (.send ans) = some s')
    (hl : (LinkLabel.send ans).undisturbed = true)
    (h : s.Flowing checks destination node sources) :
    s'.Flowing checks destination node sources := by
  have hsent := step_sentUndisturbed hstep hl h.sent
  obtain ⟨acs, r, hgood, hhanded, hprocess, hphase⟩ := h.stream
  simp only [Link.step] at hstep
  split at hstep
  · obtain ⟨⟨host, task⟩, htask, heq⟩ := Option.map_eq_some_iff.1 hstep
    cases heq
    refine ⟨hsent, h.checks_eq, h.destination_eq, acs, r, hgood, ?_, hprocess, ?_⟩
    · -- the new chunks are those that the sender has handed over in the step
      cases SendTask.step_move htask with
      | inner l queued sender _ _ hsend =>
        obtain ⟨cs, hcs, _⟩ := sendStep_move hsend
        show sender.handed
          = acs.map Prod.snd ++ (s.queue ++ sender.handed.drop s.sendTask.sender.handed.length)
        rw [hcs, List.drop_left, hhanded, List.append_assoc]
      | decide queued result _ _ => simpa using hhanded
      | close queued finalState _ => simpa using hhanded
      | leave queued _ => simpa using hhanded
    · rcases hphase with hinner | ⟨_, _, hdone, _⟩
      · exact .inl hinner
      · simp [SendTask.step, hdone] at htask
  · cases hstep

/-- The next chunk of the queue is processed well. -/
theorem processChunk_next (hshow : List.Forall₂ SourceTree.Shows sts sources)
    (hdistinct : ((allEntries sts).map sanitizedRel).Nodup)
    (hempty : EmptyDestination destination node) {s : Sender} (hs : SentUndisturbed sources s)
    {acs : ChunkStream} {r : Receiver} {io : IoAnswers} {chunk : FileChunk}
    {rest : List FileChunk} (hgood : Faultless acs) (hio : io.isGood = true)
    (hhanded : s.handed = acs.map Prod.snd ++ chunk :: rest)
    (hprocess : processAll checks destination acs (.start node) = .ok r) :
    Faultless (acs ++ [(io, chunk)]) ∧
    ∃ r', processChunk checks destination io chunk r = .ok r' ∧
      processAll checks destination (acs ++ [(io, chunk)]) (.start node) = .ok r' := by
  have hgood' : Faultless (acs ++ [(io, chunk)]) := by
    intro ac hac
    rcases List.mem_append.1 hac with hac | hac
    · exact hgood ac hac
    · rw [List.mem_singleton.1 hac]
      exact ⟨io.bps, IoAnswers.eq_good hio⟩
  have hprefix : (acs ++ [(io, chunk)]).map Prod.snd <+: s.handed := by
    rw [hhanded]
    exact ⟨rest, by simp⟩
  obtain ⟨r', hall⟩ := processes_sent checks hshow hdistinct hempty hs hgood' hprefix
  refine ⟨hgood', r', ?_, hall⟩
  rw [processAll_append hprocess] at hall
  obtain ⟨r₁, hstep, hnil⟩ := processAll_cons_ok hall
  cases hnil
  exact hstep

/-- A receiving step: a chunk of the queue is processed well, and the end of the
    stream is met when all of them are. -/
theorem receive_flowing (hshow : List.Forall₂ SourceTree.Shows sts sources)
    (hdistinct : ((allEntries sts).map sanitizedRel).Nodup)
    (hempty : EmptyDestination destination node) {s s' : Link} {ans : Answer}
    (hstep : s.step (.receive ans) = some s')
    (hl : (LinkLabel.receive ans).undisturbed = true) (hreturned : s.Returned)
    (h : s.Flowing checks destination node sources) :
    s'.Flowing checks destination node sources ∧
      ∀ event fault queued result r', ans = .receive event fault queued →
        receiveRound s.receiver.checks s.receiveTask.destination fault s.receiveTask.receiver event
          = .done result r' → result = .ok true := by
  obtain ⟨acs, r, hgood, hhanded, hprocess, hphase⟩ := h.stream
  obtain ⟨queue, harrives, hstep⟩ := Option.bind_eq_some_iff.1 hstep
  obtain ⟨⟨host, task⟩, htask, heq⟩ := Option.map_eq_some_iff.1 hstep
  cases heq
  -- in the loop, a round is one for the next chunk or for the end of the stream
  have hround : ∀ {event fault queued}, ans = .receive event fault queued →
      s.receiveTask.phase = .inner →
      (∃ io chunk r', event = .message io chunk ∧ s.queue = chunk :: queue ∧
        Faultless (acs ++ [(io, chunk)]) ∧
        processAll checks destination (acs ++ [(io, chunk)]) (.start node) = .ok r' ∧
        receiveRound s.receiver.checks s.receiveTask.destination fault s.receiveTask.receiver event
          = .again r') ∨
      (s.queue = [] ∧ queue = [] ∧ s.sendTask.phase = .done ∧
        ∃ r', receiveRound checks destination none r .endOfStream = .done (.ok true) r' ∧
          receiveRound s.receiver.checks s.receiveTask.destination fault s.receiveTask.receiver
            event = .done (.ok true) r') := by
    rintro event fault queued rfl hinner
    have hr : s.receiveTask.receiver = r := by
      rcases hphase with ⟨_, hr⟩ | ⟨hover, _⟩
      · exact hr
      · simp [hinner] at hover
    rw [hr, h.checks_eq, h.destination_eq]
    cases event with
    | cancelled => cases hl
    | streamError => cases hl
    | message io chunk =>
      have hqueue : s.queue = chunk :: queue := by
        simp only [Link.arrives] at harrives
        split at harrives
        · next c rest hcons =>
          split at harrives
          · next hc => cases harrives; rw [hcons, hc]
          · cases harrives
        · cases harrives
      obtain ⟨hgood', r', hchunk, hall⟩ := processChunk_next hshow hdistinct hempty h.sent hgood hl
        (hqueue ▸ hhanded) hprocess
      exact .inl ⟨io, chunk, r', rfl, hqueue, hgood', hall, by simp [receiveRound, hchunk]⟩
    | endOfStream =>
      simp only [Link.arrives] at harrives
      split at harrives
      · next hend =>
        cases harrives
        obtain ⟨hnil, hdone, _⟩ := hend
        obtain rfl : fault = none := Option.isNone_iff_eq_none.1 hl
        obtain ⟨result, hret⟩ := hreturned (by rw [hdone]; simp)
        have hchunks : acs.map Prod.snd = s.sendTask.sender.handed := by
          rw [hhanded, hnil, List.append_nil]
        obtain ⟨r₁, hprocess', hrests⟩ :=
          rests_of_sent checks hshow hdistinct hempty h.sent hret hgood hchunks
        obtain rfl : r₁ = r := by simpa using hprocess'.symm.trans hprocess
        obtain ⟨r', hround, _⟩ := delivered_at_rest hshow hrests
        exact .inr ⟨hnil, rfl, hdone, r', hround, hround⟩
      · cases harrives
  cases ReceiveTask.step_move htask with
  | again event fault queued r₁ hinner _ hagain =>
    rcases hround rfl hinner with ⟨io, chunk, r', rfl, hqueue, hgood', hall, hr'⟩ |
      ⟨_, _, _, r', _, hr'⟩
    · obtain rfl : r' = r₁ := by simpa using hr'.symm.trans hagain
      refine ⟨⟨h.sent, ?_, h.destination_eq, acs ++ [(io, chunk)], r', hgood', ?_, hall,
        .inl ⟨hinner, rfl⟩⟩, ?_⟩
      · simpa using h.checks_eq
      · show s.sendTask.sender.handed = _
        rw [hhanded, hqueue]
        simp
      · rintro event fault queued result r'' ⟨⟩ hdone
        simp [hagain] at hdone
    · simp [hagain] at hr'
  | leave event fault queued result r₁ hinner _ hleave =>
    rcases hround rfl hinner with ⟨io, chunk, r', rfl, _, _, _, hr'⟩ |
      ⟨hnil, rfl, hdone, r', hend, hr'⟩
    · simp [hleave] at hr'
    · obtain ⟨rfl, rfl⟩ : result = .ok true ∧ r₁ = r' := by simpa [hleave] using hr'
      refine ⟨⟨h.sent, h.checks_eq, h.destination_eq, acs, r, hgood, by rwa [hnil] at hhanded,
        hprocess, .inr ⟨.inl rfl, rfl, hdone, hend⟩⟩, ?_⟩
      rintro event fault queued result r'' ⟨⟩ hdone
      obtain ⟨rfl, _⟩ : .ok true = result ∧ r₁ = r'' := by simpa [hleave] using hdone
      rfl
  | panic event fault queued r₁ hinner _ hpanic =>
    rcases hround rfl hinner with ⟨io, chunk, r', rfl, _, _, _, hr'⟩ | ⟨_, _, _, r', _, hr'⟩
    · simp [hpanic] at hr'
    · simp [hpanic] at hr'
  | close queued finalState hclosing =>
    rcases hphase with ⟨hinner, _⟩ | ⟨hover, hnil, hdone, hend⟩
    · simp [hclosing] at hinner
    · cases harrives
      refine ⟨⟨h.sent, h.checks_eq, h.destination_eq, acs, r, hgood, hhanded, hprocess,
        .inr ⟨.inr rfl, hnil, hdone, hend⟩⟩, ?_⟩
      rintro event fault queued result r'' ⟨⟩

end link

/-! ## Section 4: The whole transfer -/

/-- A fresh transfer of static trees into an empty destination. -/
structure StaticSession extends FreshSession where
  trees : List SourceTree
  node : Path → Option Node
  shows : List.Forall₂ SourceTree.Shows trees sources
  /-- No two entries have the same sanitized path. -/
  distinct : ((allEntries trees).map sanitizedRel).Nodup
  started : receiveTask.receiver = .start node
  empty : EmptyDestination receiveTask.destination node

/-- The invariant of an undisturbed run. -/
structure Link.Undisturbed (s : StaticSession) (s' : Link) : Prop where
  sound : s'.Sound
  onRecord : s'.OnRecord (· = .completed)
  flowing : s'.Flowing s.receiver.checks s.receiveTask.destination s.node s.sources

theorem step_undisturbed {s : StaticSession} {t t' : Link} {l : LinkLabel}
    (hl : l.undisturbed = true) (h : t.Undisturbed s) (hstep : t.step l = some t') :
    t'.Undisturbed s := by
  -- a sender that returns returns `Ok(true)`
  have hsent : ∀ result, t.sendTask.sender.pc = .returned result →
      sendFinalState result (t.sender.tokens.isCancelled t.sendTask.cancellationToken)
        = .completed := by
    intro result hret
    rw [(h.flowing.sent.healthy (rooted_of_shows s.shows)).2 result hret]
    rfl
  have hsound := step_sound hstep h.sound
  cases l with
  | send ans =>
    exact ⟨hsound, step_link_onRecord hstep ⟨hsent, by simp⟩ h.onRecord,
      send_flowing hstep hl h.flowing⟩
  | receive ans =>
    obtain ⟨hflowing, hresult⟩ := receive_flowing s.shows s.distinct s.empty hstep hl
      h.sound.returned h.flowing
    refine ⟨hsound, step_link_onRecord hstep ⟨hsent, ?_⟩ h.onRecord, hflowing⟩
    rintro event fault queued result r ⟨⟩ hround
    rw [hresult event fault queued result r rfl hround]
    rfl
  | cancelSender token =>
    refine ⟨hsound, step_link_onRecord hstep ⟨hsent, by simp⟩ h.onRecord, ?_⟩
    cases hstep
    exact ⟨h.flowing.1, h.flowing.2, h.flowing.3, h.flowing.4⟩
  | cancelReceiver token =>
    refine ⟨hsound, step_link_onRecord hstep ⟨hsent, by simp⟩ h.onRecord, ?_⟩
    cases hstep
    exact ⟨h.flowing.1, h.flowing.2, h.flowing.3, h.flowing.4⟩
  | lose =>
    refine ⟨hsound, step_link_onRecord hstep ⟨hsent, by simp⟩ h.onRecord, ?_⟩
    cases hstep
    exact ⟨h.flowing.1, h.flowing.2, h.flowing.3, h.flowing.4⟩

theorem undisturbed_start (s : StaticSession) : s.start.Undisturbed s where
  sound := sound_start s.toSession
  onRecord := onRecord_start s.toSession <| by
    have hbytes := s.sentNone
    unfold Host.shownBytes at hbytes
    obtain ⟨t, ht, _⟩ := Option.map_eq_some_iff.1 hbytes
    show (s.sender.stateOf s.sendTask.remoteUuid s.sendTask.transferUuid).isSome
    simp [Host.stateOf, ht]
  flowing :=
    { sent := by
        have hstart : s.start.sendTask.sender = .start s.sources := s.sendTask_start
        rw [hstart]
        exact ⟨[], by simp, rfl⟩
      checks_eq := rfl
      destination_eq := rfl
      stream := by
        have hstart : s.start.sendTask.sender = .start s.sources := s.sendTask_start
        refine ⟨[], .start s.node, by simp [Faultless], ?_, rfl,
          .inl ⟨s.receiveTask_inner, s.started⟩⟩
        rw [hstart]
        rfl }

/-- Both tasks of an undisturbed transfer end with `Completed`, with the files of
    the sources in the destination and all bytes shown on both sides. -/
theorem whole_transfer (s : StaticSession) {ls : List LinkLabel} {s' : Link}
    (hrun : link.exec s.start ls = some s') (hls : ∀ l ∈ ls, LinkLabel.undisturbed l = true)
    (hover : s'.Over) :
    s'.sent = some .completed ∧ s'.received = some .completed ∧
    Delivered s.receiveTask.destination s.trees s'.receiveTask.receiver ∧
    s'.sender.shownBytes s'.sendTask.remoteUuid s'.sendTask.transferUuid
      = some (itemBytes (allItems s.sources)) ∧
    s'.receiver.shownBytes s'.receiveTask.remoteUuid s'.receiveTask.transferUuid
      = some (itemBytes (allItems s.sources)) := by
  have hinv : s'.Undisturbed s :=
    link.exec_invariant_along (I := fun s' => s'.Undisturbed s)
      (C := fun _ l => l.undisturbed = true) (fun _ _ _ hl h hs => step_undisturbed hl h hs)
      (undisturbed_start s) (link.along_of_forall (fun l hl _ => hls l hl) _) hrun
  have hcounts : s'.Accounted s.sources ∧ s'.Shown 0 0 :=
    link.exec_invariant (I := fun s' => s'.Accounted s.sources ∧ s'.Shown 0 0)
      (fun _ _ _ h hs => ⟨step_link_accounted hs h.1, step_link_shown hs h.2⟩)
      ⟨accounted_start s.toFreshSession, shown_start s.toFreshSession⟩ hrun
  obtain ⟨haccounted, hshown⟩ := hcounts
  obtain ⟨acs, r, hgood, hhanded, hprocess, hphase⟩ := hinv.flowing.stream
  -- the receiving task is not in its loop, and has not panicked
  rcases hphase with ⟨hinner, _⟩ | ⟨hdone, hnil, hsend, hend⟩
  · simp [Link.Over, hinner] at hover
  have hreceive : s'.receiveTask.phase = .done := by
    rcases hover.2 with h | h
    · exact h
    · simp [h] at hdone
  obtain ⟨st, hsent, rfl⟩ := hinv.onRecord.sent.ended (.inr hsend)
  obtain ⟨st, hreceived, rfl⟩ := hinv.onRecord.received.ended hreceive
  obtain ⟨result, hret⟩ := hinv.sound.returned (by rw [hsend]; simp)
  have hchunks : acs.map Prod.snd = s'.sendTask.sender.handed := by
    rw [hhanded, hnil, List.append_nil]
  obtain ⟨sls, hsls, hsender⟩ := hinv.flowing.sent
  obtain ⟨r₁, hprocess', hrests⟩ := rests_of_sent s.receiver.checks s.shows s.distinct s.empty
    hinv.flowing.sent hret hgood hchunks
  obtain rfl : r₁ = r := by simpa using hprocess'.symm.trans hprocess
  obtain ⟨r₂, hend', hdelivered⟩ := delivered_at_rest s.shows hrests
  obtain rfl : r₂ = s'.receiveTask.receiver := by simpa using hend'.symm.trans hend
  refine ⟨hsent, hreceived, hdelivered, ?_, ?_⟩
  · -- the sender has recorded all that it has handed over
    have hpc : (Sender.start s.sources).pc.Healthy := sourceLoop_healthy (rooted_of_shows s.shows)
    have hstay := along_undisturbed hsls hpc
    have hbytes := (emits_of_returned hsender hstay hret).bytes
    have hrecorded := haccounted.recorded
    have hnone : s'.sendTask.sender.pc.unrecorded = 0 := by rw [hret]; rfl
    unfold Recorded at hrecorded
    rw [show s'.sender.shownBytes _ _ = some (0 + _) from hshown.sent]
    congr 1
    omega
  · -- and the receiver all that it has processed
    have hprogress : s'.receiveTask.receiver.progress = r₁.progress := by
      rcases receiveRound_records s.receiver.checks s.receiveTask.destination none r₁ .endOfStream
        with ⟨r', new, hr', _⟩ | ⟨r', hr', hprogress⟩
      · simp [hend] at hr'
      · obtain rfl : s'.receiveTask.receiver = r' := by simpa [hend] using hr'
        exact hprogress
    rw [show s'.receiver.shownBytes _ _ = some (0 + _) from hshown.received, hprogress,
      recorded_of_delivered s.shows s.distinct hinv.flowing.sent hret hchunks hprocess]
    simp

/-- The directory of `smallTree`, from host `c` to host `a`. -/
def smallSession : StaticSession where
  sender := .single "a" (.bare "out" "a" .inProgress (.outgoing [OsString.ofString "/s"] [0]))
  receiver := .single "c" (.bare "in" "c" .inProgress (.incoming (OsString.ofString "/d")))
  sendTask := .new "a" "out" [smallSource] [0]
  receiveTask := .new "c" "in" (OsString.ofString "/d") [0] (emptyTree (OsString.ofString "/d"))
  sources := [smallSource]
  sendTask_start := rfl
  sendTask_inner := rfl
  receiveTask_inner := rfl
  inProgress := by decide
  fresh := rfl
  sentNone := by decide
  receivedNone := by decide
  trees := [smallTree]
  node := emptyTree (OsString.ofString "/d")
  shows := .cons smallTree_shows .nil
  distinct := by decide
  started := rfl
  empty := emptyDestination_emptyTree _

/-- The sender's steps, with the one chunk processed before the sender goes on. -/
def smallWholeRun : List LinkLabel :=
  (smallRun.take 9).map (fun l => .send (.send l 0)) ++
  [.receive (.receive (.message (.good 1) (.ofFile "s/a" (some (.ofSystemTime .epoch)) [7]))
    none 0)] ++
  (smallRun.drop 9).map (fun l => .send (.send l 0)) ++
  [.send (.go 0), .send (.go 0), .send (.go 0), .receive (.receive .endOfStream none 0),
    .receive (.go 0)]

theorem whole_transfer_smallSession :
    ∃ s', link.exec smallSession.start smallWholeRun = some s' ∧
      s'.sent = some .completed ∧ s'.received = some .completed ∧
      Delivered smallSession.receiveTask.destination smallSession.trees s'.receiveTask.receiver ∧
      s'.sender.shownBytes s'.sendTask.remoteUuid s'.sendTask.transferUuid
        = some (itemBytes (allItems smallSession.sources)) ∧
      s'.receiver.shownBytes s'.receiveTask.remoteUuid s'.receiveTask.transferUuid
        = some (itemBytes (allItems smallSession.sources)) := by
  obtain ⟨s', hrun, hover⟩ : ∃ s', link.exec smallSession.start smallWholeRun = some s' ∧
      s'.Over := ⟨_, rfl, rfl, .inl rfl⟩
  exact ⟨s', hrun, whole_transfer smallSession hrun (by decide) hover⟩

end Warpinator
