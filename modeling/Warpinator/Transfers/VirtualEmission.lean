import Warpinator.Transfers.Delivery
import Warpinator.Transfers.Unreadable
import Warpinator.Transfers.WalkDir

/-! # What a Sender over a Virtual File System Emits

    On a file system that stays as it is, the sources are trees, and the walker
    goes through each of them breadth first.  `Stands` says what a program point
    has still to send: the rest of the item that it is at, and the nodes that
    the walk will come to.

    `step_stands` follows a step: it works off the item, or goes on to the next
    node.  `emits_visits` is what a whole run has handed over. -/

namespace Warpinator

open RoseTree

/-! ## Section 1: A file system that stays as it is -/

structure StaticVfs where
  metadata : String → VirtualMetadata
  listDir : ListDir
  contents : String → List UInt8

namespace StaticVfs

/-- The source is a path to the root of the tree, as the file system shows it. -/
structure Shows (fs : StaticVfs) (t : RoseTree VirtualEntry) (source : PathBuf) : Prop where
  path : source.toStr = some t.value.path
  metadata : fs.metadata t.value.path = ⟨t.value.isDir, t.value.name⟩
  lists : Lists fs.listDir t
  named : t.value.name ≠ ""

/-- The file system answers as it is, and nothing fails or is cancelled.  A file
    may show any modification time. -/
def Answers (fs : StaticVfs) (s : VirtualSender) : VirtualLabel → Prop
  | .common l => l.undisturbed = true
  | .metadata answer =>
    ∀ source rest, s.pc = .sourceMetadata source rest → answer = .ok (fs.metadata source)
  | .listDir answer =>
    ∀ entry queue rest, s.pc = .listDir entry queue rest → answer = fs.listDir entry.path
  | .openFile answer =>
    ∀ path rel queue rest, s.pc = .openFile path rel queue rest → answer = .ok (fs.contents path)
  | .fileMetadata answer => ∃ modified, answer = .ok modified

/-- The item that a node is sent as. -/
inductive Presents (fs : StaticVfs) (v : Visit VirtualEntry) : Item → Prop
  | dir : v.tree.value.isDir = true → Presents fs v (.dir (names v.lineage))
  | file (modified : Option SystemTime) : v.tree.value.isDir = false →
      Presents fs v (.file (names v.lineage) (modified.map .ofSystemTime)
        (fs.contents v.tree.value.path))

/-- A node that the walk comes to. -/
structure Walked (fs : StaticVfs) (v : Visit VirtualEntry) : Prop where
  lists : Lists fs.listDir v.tree
  below : ∃ root : VirtualEntry, root.name ≠ "" ∧ [root] <+: v.lineage

end StaticVfs

/-- The nodes of the trees, in the order in which the walk comes to them. -/
def allVisits (trees : List (RoseTree VirtualEntry)) : List (Visit VirtualEntry) :=
  trees.flatMap fun t => visits [t.root]

section walk

variable {fs : StaticVfs} {v : Visit VirtualEntry} {q : List (Visit VirtualEntry)}

@[simp] theorem walkDirEntry_isDir (v : Visit VirtualEntry) :
    (walkDirEntry v).isDir = v.tree.value.isDir := rfl

theorem StaticVfs.Walked.relativePath (h : fs.Walked v) :
    (walkDirEntry v).relativePath = names v.lineage := by
  obtain ⟨root, hroot, hbegin⟩ := h.below
  exact relativePath_walkDirEntry hroot hbegin

theorem StaticVfs.Shows.walked {t : RoseTree VirtualEntry} {source : PathBuf}
    (h : fs.Shows t source) : fs.Walked t.root :=
  ⟨h.lists, t.value, h.named, List.prefix_rfl⟩

/-- The children of a node are walked like the node. -/
theorem walked_expand (h : fs.Walked v) : ∀ w ∈ v.expand, fs.Walked w := by
  intro w hw
  obtain ⟨i, hi, _, habove⟩ := Visit.mem_expand hw
  obtain ⟨root, hroot, hbegin⟩ := h.below
  refine ⟨lists_descend h.lists (a := [i]) ?_, root, hroot, hbegin.trans ?_⟩
  · rw [Visit.descend, hi]
    rfl
  · rw [Visit.lineage, Visit.lineage, habove]
    exact List.prefix_append _ _

theorem walked_pop (h : ∀ w ∈ v :: q, fs.Walked w) : ∀ w ∈ pop (v :: q), fs.Walked w := by
  intro w hw
  rcases List.mem_append.1 hw with hold | hnew
  · exact h w (List.mem_cons_of_mem v hold)
  · exact walked_expand (h v List.mem_cons_self) w hnew

/-- Below a file there is nothing. -/
theorem pop_file (h : fs.Walked v) (hfile : v.tree.value.isDir = false) : pop (v :: q) = q := by
  have hnone : v.expand = [] := by
    rw [← List.map_eq_nil_iff (f := Visit.tree), Visit.expand_trees]
    have hlists := h.lists
    generalize v.tree = t at hlists hfile ⊢
    cases hlists with
    | directory hdir _ _ =>
      rw [RoseTree.value, hdir] at hfile
      cases hfile
    | file _ => rfl
  rw [pop, hnone, List.append_nil]

/-- The walker lists a directory, and its queue is that of the traversal. -/
theorem enqueue_listed (h : fs.Walked v) (hdir : v.tree.value.isDir = true) :
    (walkDirEntry v).enqueue (q.map walkDirEntry) (fs.listDir (walkDirEntry v).path)
      = (pop (v :: q)).map walkDirEntry := by
  obtain ⟨root, hroot, hbegin⟩ := h.below
  have hnext := enqueue_walkDirEntry hroot hbegin h.lists q
  rw [List.map_cons, walkDirNext] at hnext
  simpa only [walkDirEntry_isDir, hdir, if_true] using hnext

end walk

/-! ## Section 2: What is left to send -/

/-- At the program point, the rest of the item `is` is left, and then the nodes
    `vs`. -/
inductive Stands (fs : StaticVfs) : VirtualPc → List Item → List (Visit VirtualEntry) → Prop
  | sourcePoll (source : PathBuf) (t : RoseTree VirtualEntry) (rest : List PathBuf)
      (trees : List (RoseTree VirtualEntry)) : fs.Shows t source →
      List.Forall₂ fs.Shows trees rest →
      Stands fs (.sourcePoll source rest) [] (allVisits (t :: trees))
  | sourceMetadata (source : PathBuf) (t : RoseTree VirtualEntry) (rest : List PathBuf)
      (trees : List (RoseTree VirtualEntry)) : fs.Shows t source →
      List.Forall₂ fs.Shows trees rest →
      Stands fs (.sourceMetadata t.value.path rest) [] (allVisits (t :: trees))
  | listDir (v : Visit VirtualEntry) (q : List (Visit VirtualEntry)) (rest : List PathBuf)
      (trees : List (RoseTree VirtualEntry)) : v.tree.value.isDir = true →
      (∀ w ∈ v :: q, fs.Walked w) → List.Forall₂ fs.Shows trees rest →
      Stands fs (.listDir (walkDirEntry v) (q.map walkDirEntry) rest) []
        (visits (v :: q) ++ allVisits trees)
  | walkPoll (v : Visit VirtualEntry) (q : List (Visit VirtualEntry)) (rest : List PathBuf)
      (trees : List (RoseTree VirtualEntry)) : fs.Walked v → (∀ w ∈ q, fs.Walked w) →
      List.Forall₂ fs.Shows trees rest →
      Stands fs (.walkPoll (walkDirEntry v) (q.map walkDirEntry) rest) []
        (v :: visits q ++ allVisits trees)
  | sendDir (rel : String) (q : List (Visit VirtualEntry)) (rest : List PathBuf)
      (trees : List (RoseTree VirtualEntry)) : (∀ w ∈ q, fs.Walked w) →
      List.Forall₂ fs.Shows trees rest →
      Stands fs (.sendDir (.ofDirectory rel) (q.map walkDirEntry) rest) [.dir rel]
        (visits q ++ allVisits trees)
  | openFile (v : Visit VirtualEntry) (q : List (Visit VirtualEntry)) (rest : List PathBuf)
      (trees : List (RoseTree VirtualEntry)) : v.tree.value.isDir = false →
      (∀ w ∈ q, fs.Walked w) → List.Forall₂ fs.Shows trees rest →
      Stands fs (.openFile v.tree.value.path (names v.lineage) (q.map walkDirEntry) rest) []
        (v :: visits q ++ allVisits trees)
  | fileMetadata (v : Visit VirtualEntry) (q : List (Visit VirtualEntry)) (rest : List PathBuf)
      (trees : List (RoseTree VirtualEntry)) : v.tree.value.isDir = false →
      (∀ w ∈ q, fs.Walked w) → List.Forall₂ fs.Shows trees rest →
      Stands fs (.fileMetadata (names v.lineage) (fs.contents v.tree.value.path)
        (q.map walkDirEntry) rest) [] (v :: visits q ++ allVisits trees)
  | inFile (pc : SendPc) (q : List (Visit VirtualEntry)) (rest : List PathBuf)
      (trees : List (RoseTree VirtualEntry)) : InFile pc → pc.WellFormed →
      (∀ w ∈ q, fs.Walked w) → List.Forall₂ fs.Shows trees rest →
      Stands fs (.inFile pc (q.map walkDirEntry) rest) pc.todo (visits q ++ allVisits trees)
  | returned : Stands fs (.returned (.ok true)) [] []

/-- A step works off the rest of the item, or goes on to the next node. -/
inductive Advances (fs : StaticVfs) : List Item → List (Visit VirtualEntry) → List Item →
    List (Visit VirtualEntry) → List FileChunk → Prop
  | works (is is' : List Item) (vs : List (Visit VirtualEntry)) (cs : List FileChunk) :
      Consumes is is' cs → Advances fs is vs is' vs cs
  | enters (v : Visit VirtualEntry) (i : Item) (vs : List (Visit VirtualEntry)) :
      fs.Presents v i → Advances fs [] (v :: vs) [i] vs []

section points

variable {fs : StaticVfs} {trees : List (RoseTree VirtualEntry)} {rest : List PathBuf}

theorem stands_sourceLoop (hshow : List.Forall₂ fs.Shows trees rest) :
    Stands fs (virtualSourceLoop rest) [] (allVisits trees) := by
  cases hshow with
  | nil => exact .returned
  | cons ht hrest => exact .sourcePoll _ _ _ _ ht hrest

theorem stands_walkNext {q : List (Visit VirtualEntry)} (hq : ∀ w ∈ q, fs.Walked w)
    (hshow : List.Forall₂ fs.Shows trees rest) :
    Stands fs (virtualWalkNext (q.map walkDirEntry) rest) [] (visits q ++ allVisits trees) := by
  cases q with
  | nil => exact stands_sourceLoop hshow
  | cons v q =>
    rw [List.map_cons, virtualWalkNext, walkDirEntry_isDir]
    by_cases hdir : v.tree.value.isDir = true
    · rw [if_pos hdir]
      exact .listDir v q rest trees hdir hq hshow
    · have hfile : v.tree.value.isDir = false := by simpa using hdir
      have hv := hq v List.mem_cons_self
      rw [if_neg hdir, visits_cons, pop_file hv hfile]
      exact .walkPoll v q rest trees hv (fun w hw => hq w (List.mem_cons_of_mem v hw)) hshow

/-- A source is entered at the root of its tree. -/
theorem stands_enterSource {t : RoseTree VirtualEntry} {source : PathBuf} (ht : fs.Shows t source)
    (hshow : List.Forall₂ fs.Shows trees rest) :
    Stands fs (virtualEnterSource t.value.path (fs.metadata t.value.path) rest) []
      (allVisits (t :: trees)) := by
  have hwalked : ∀ w ∈ [t.root], fs.Walked w := by
    intro w hw
    obtain rfl := List.mem_singleton.1 hw
    exact ht.walked
  rw [ht.metadata, virtualEnterSource]
  show Stands fs (if t.value.isDir = true then _ else _) [] (visits [t.root] ++ allVisits trees)
  by_cases hdir : t.value.isDir = true
  · rw [if_pos hdir]
    have hqueue : virtualWalkDir t.value.path t.value.name = [t.root].map walkDirEntry := by
      simp [virtualWalkDir, walkDirEntry, RoseTree.root, names, hdir]
    show Stands fs (virtualWalkNext (virtualWalkDir t.value.path t.value.name) rest) [] _
    rw [hqueue]
    exact stands_walkNext hwalked hshow
  · have hfile : t.root.tree.value.isDir = false := by
      show t.value.isDir = false
      simpa using hdir
    rw [if_neg hdir, visits_cons, pop_file ht.walked hfile]
    have hpoint := @Stands.openFile fs t.root [] rest trees hfile (by simp) hshow
    rwa [show names t.root.lineage = t.value.name by simp [names, Visit.lineage, RoseTree.root]]
      at hpoint

/-- A walked node is entered as the item that it is. -/
theorem stands_enterEntry {v : Visit VirtualEntry} {q : List (Visit VirtualEntry)}
    (hv : fs.Walked v) (hq : ∀ w ∈ q, fs.Walked w) (hshow : List.Forall₂ fs.Shows trees rest) :
    ∃ is vs, Stands fs (virtualEnterEntry (walkDirEntry v) (q.map walkDirEntry) rest) is vs ∧
      Advances fs [] (v :: visits q ++ allVisits trees) is vs [] := by
  rw [virtualEnterEntry, hv.relativePath, walkDirEntry_isDir]
  by_cases hdir : v.tree.value.isDir = true
  · rw [if_pos hdir]
    exact ⟨_, _, .sendDir _ q rest trees hq hshow, .enters v _ _ (.dir hdir)⟩
  · rw [if_neg hdir]
    exact ⟨_, _, .openFile v q rest trees (by simpa using hdir) hq hshow,
      .works _ _ _ _ (.keep _)⟩

/-- A step in `send_file_inner`, and what follows it. -/
theorem stands_fileLoop {pc pc' : SendPc} {l : SendLabel} {cs : List FileChunk}
    {q : List (Visit VirtualEntry)} (hpc : InFile pc) (hwf : pc.WellFormed)
    (hmove : SendMove pc l pc' cs) (hl : l.undisturbed = true) (hq : ∀ w ∈ q, fs.Walked w)
    (hshow : List.Forall₂ fs.Shows trees rest) :
    Stands fs (virtualFileLoop (q.map walkDirEntry) rest pc') pc'.todo
        (visits q ++ allVisits trees) ∧ Consumes pc.todo pc'.todo cs := by
  have hstay : earlyExit pc l = false := by
    refine earlyExit_of_undisturbed hl ?_
    cases hpc <;> exact fun s hs => by cases hs
  refine ⟨?_, hmove.consumes hwf hstay⟩
  have hwf' := hmove.wellFormed
  have hin : ∀ {p : SendPc}, InFile p → p.WellFormed →
      Stands fs (virtualFileLoop (q.map walkDirEntry) rest p) p.todo
        (visits q ++ allVisits trees) := by
    intro p hp hpwf
    have hpoint := @Stands.inFile fs p q rest trees hp hpwf hq hshow
    cases hp <;> exact hpoint
  cases hpc with
  | filePoll file =>
    cases hmove with
    | fileCancelled => cases hl
    | filePolled => exact hin (.readFile file) hwf'
  | readFile file =>
    cases hmove with
    | readFailed _ _ _ => cases hl
    | readEof _ _ _ => exact stands_walkNext hq hshow
    | readBytes _ _ n => exact hin (.sendFile _ _) hwf'
  | sendFile chunk file =>
    cases hmove with
    | chunkSent => exact hin (.progress _ _) hwf'
    | chunkRefused => cases hl
  | progress bytes file =>
    cases hmove with
    | progressed => exact hin (.filePoll _) hwf'

end points

/-! ## Section 3: Runs -/

section runs

variable {fs : StaticVfs} {s s' : VirtualSender}

theorem step_stands {l : VirtualLabel} {is : List Item} {vs : List (Visit VirtualEntry)}
    (h : Stands fs s.pc is vs) (hl : fs.Answers s l) (hstep : s.step l = some s') :
    ∃ cs is' vs', s'.handed = s.handed ++ cs ∧ Stands fs s'.pc is' vs' ∧
      Advances fs is vs is' vs' cs := by
  generalize hpc : s.pc = pc at h
  unfold VirtualSender.step at hstep
  rw [hpc] at hstep
  -- a step that hands nothing over and has the same before it
  have hkeep : ∀ {pc' : VirtualPc} {is : List Item} {vs : List (Visit VirtualEntry)},
      Stands fs pc' is vs → ∃ cs is' vs', (s.goto pc').handed = s.handed ++ cs ∧
        Stands fs (s.goto pc').pc is' vs' ∧ Advances fs is vs is' vs' cs := fun hpoint =>
    ⟨[], _, _, (List.append_nil _).symm, hpoint, .works _ _ _ _ (.keep _)⟩
  cases h with
  | sourcePoll source t rest trees ht hshow =>
    cases l with
    | common l =>
      cases l with
      | poll cancelled =>
        cases cancelled with
        | true => cases hl
        | false =>
          simp only [Bool.false_eq_true, if_false, ht.path] at hstep
          cases hstep
          exact hkeep (.sourceMetadata source t rest trees ht hshow)
      | io _ | next _ | read _ | send _ | progress _ => cases hstep
    | metadata _ | listDir _ | openFile _ | fileMetadata _ => cases hstep
  | sourceMetadata source t rest trees ht hshow =>
    cases l with
    | metadata answer =>
      obtain rfl := hl _ _ hpc
      cases hstep
      exact hkeep (stands_enterSource ht hshow)
    | common _ | listDir _ | openFile _ | fileMetadata _ => cases hstep
  -- the listed entries queue up behind those of the directories before
  | listDir v q rest trees hdir hq hshow =>
    cases l with
    | listDir answer =>
      obtain rfl := hl _ _ _ hpc
      cases hstep
      have hv := hq v List.mem_cons_self
      rw [enqueue_listed hv hdir, visits_cons]
      exact hkeep (.walkPoll v _ rest trees hv (walked_pop hq) hshow)
    | common _ | metadata _ | openFile _ | fileMetadata _ => cases hstep
  | walkPoll v q rest trees hv hq hshow =>
    cases l with
    | common l =>
      cases l with
      | poll cancelled =>
        cases cancelled with
        | true => cases hl
        | false =>
          cases hstep
          obtain ⟨is', vs', hpoint, hadvances⟩ := stands_enterEntry hv hq hshow
          exact ⟨[], is', vs', (List.append_nil _).symm, hpoint, hadvances⟩
      | io _ | next _ | read _ | send _ | progress _ => cases hstep
    | metadata _ | listDir _ | openFile _ | fileMetadata _ => cases hstep
  -- the only chunk of a directory
  | sendDir rel q rest trees hq hshow =>
    cases l with
    | common l =>
      cases l with
      | send accepted =>
        cases accepted with
        | true =>
          cases hstep
          exact ⟨_, [], _, rfl, stands_walkNext hq hshow, .works _ _ _ _ (.dir rel [])⟩
        | false => cases hl
      | poll _ | io _ | next _ | read _ | progress _ => cases hstep
    | metadata _ | listDir _ | openFile _ | fileMetadata _ => cases hstep
  | openFile v q rest trees hfile hq hshow =>
    cases l with
    | openFile answer =>
      obtain rfl := hl _ _ _ _ hpc
      cases hstep
      exact hkeep (.fileMetadata v q rest trees hfile hq hshow)
    | common _ | metadata _ | listDir _ | fileMetadata _ => cases hstep
  | fileMetadata v q rest trees hfile hq hshow =>
    cases l with
    | fileMetadata answer =>
      obtain ⟨modified, rfl⟩ := hl
      cases hstep
      -- from here on the visit is an item: a file with the time that was read
      refine ⟨[], _, _, (List.append_nil _).symm,
        .inFile _ q rest trees (.filePoll _) trivial hq hshow, ?_⟩
      exact .enters v _ _ (.file modified hfile)
    | common _ | metadata _ | listDir _ | openFile _ => cases hstep
  -- the loop over a file is that of the other build
  | inFile pc q rest trees hin hwf hq hshow =>
    cases l with
    | common l =>
      obtain ⟨t, hsend, rfl⟩ := Option.map_eq_some_iff.1 hstep
      obtain ⟨cs, hhanded, hmove⟩ := sendStep_move hsend
      obtain ⟨hpoint, hconsumes⟩ := stands_fileLoop hin hwf hmove hl hq hshow
      exact ⟨cs, _, _, hhanded, hpoint, .works _ _ _ _ hconsumes⟩
    | metadata _ | listDir _ | openFile _ | fileMetadata _ => cases hstep
  | returned => cases l <;> cases hstep

theorem Consumes.before {is is' : List Item} {cs : List FileChunk} (h : Consumes is is' cs)
    (js : List Item) : Consumes (is ++ js) (is' ++ js) cs := by
  cases h with
  | keep is => exact .keep _
  | eof rel t is => exact .eof rel t _
  | dir rel is => exact .dir rel _
  | read rel t data rest is hne hlen => exact .read rel t data rest _ hne hlen

/-- Once what is left has been sent, all of it has been. -/
def Covers (fs : StaticVfs) (trees : List (RoseTree VirtualEntry)) (s : VirtualSender) : Prop :=
  ∃ is vs, Stands fs s.pc is vs ∧ ∀ js cs, List.Forall₂ fs.Presents vs js → Emits (is ++ js) cs →
    ∃ items, List.Forall₂ fs.Presents (allVisits trees) items ∧ Emits items (s.handed ++ cs)

theorem covers_start {trees : List (RoseTree VirtualEntry)} {sources : List PathBuf}
    (hshow : List.Forall₂ fs.Shows trees sources) : Covers fs trees (.start sources) :=
  ⟨[], allVisits trees, stands_sourceLoop hshow, fun js _ hjs hemits => ⟨js, hjs, hemits⟩⟩

theorem step_covers {trees : List (RoseTree VirtualEntry)} {l : VirtualLabel}
    (h : Covers fs trees s) (hl : fs.Answers s l) (hstep : s.step l = some s') :
    Covers fs trees s' := by
  obtain ⟨is, vs, hpoint, hall⟩ := h
  obtain ⟨cs, is', vs', hhanded, hpoint', hadvances⟩ := step_stands hpoint hl hstep
  refine ⟨is', vs', hpoint', fun js cs' hjs hemits => ?_⟩
  rw [hhanded, List.append_assoc]
  cases hadvances with
  | works _ _ _ _ hconsumes => exact hall js _ hjs (.step (hconsumes.before js) hemits)
  | enters v i _ hpresents => exact hall (i :: js) cs' (.cons hpresents hjs) hemits

/-- A run on a file system that stays as it is comes to `Ok(true)`, with the items
    of all nodes handed over in the order of the walk. -/
theorem emits_visits {trees : List (RoseTree VirtualEntry)} {sources : List PathBuf}
    {ls : List VirtualLabel} {result : Except TransferError Bool}
    (hshow : List.Forall₂ fs.Shows trees sources)
    (hrun : virtualSender.exec (.start sources) ls = some s')
    (hanswers : virtualSender.Along fs.Answers (.start sources) ls)
    (hret : s'.pc = .returned result) :
    result = .ok true ∧ ∃ items, List.Forall₂ fs.Presents (allVisits trees) items ∧
      Emits items s'.handed := by
  have hcovers : Covers fs trees s' :=
    virtualSender.exec_invariant_along (fun _ _ _ hl hs hstep => step_covers hs hl hstep)
      (covers_start hshow) hanswers hrun
  obtain ⟨is, vs, hpoint, hall⟩ := hcovers
  rw [hret] at hpoint
  cases hpoint
  obtain ⟨items, hitems, hemits⟩ := hall [] [] .nil .done
  exact ⟨rfl, items, hitems, by rwa [List.append_nil] at hemits⟩

end runs

end Warpinator
