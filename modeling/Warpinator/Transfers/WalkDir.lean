import Warpinator.Lib.RoseTree
import Warpinator.Transfers.VirtualSender

/-! # The Walk of a Virtual Directory

    `VirtualWalkDir::next` called again and again, over a tree that answers
    `list_dir` in the same way every time.

    The queue holds an entry for each node of the tree that a breadth-first
    traversal has in its queue.  The base path of an entry is all the walker
    keeps of the way from the root. -/

namespace Warpinator

open RoseTree

/-! ## Section 1: Calls of the walker -/

/-- `list_dir`. -/
abbrev ListDir := String → Except VirtualFilesystemError (List VirtualEntry)

/-- `VirtualWalkDir::next`, with the queue that it leaves. -/
def walkDirNext (listDir : ListDir) :
    List WalkDirEntry →
      Except VirtualFilesystemError (Option WalkDirEntry) × List WalkDirEntry
  | [] => (.ok none, [])
  | entry :: queue =>
    (.ok (some entry),
      if entry.isDir then entry.enqueue queue (listDir entry.path) else queue)

/-- The queue after `n` calls. -/
def walkDirQueue (listDir : ListDir) (rootPath rootName : String) : Nat → List WalkDirEntry
  | 0 => virtualWalkDir rootPath rootName
  | n + 1 => (walkDirNext listDir (walkDirQueue listDir rootPath rootName n)).2

/-- What call `n` returns. -/
def walkDirReturns (listDir : ListDir) (rootPath rootName : String) (n : Nat) :
    Except VirtualFilesystemError (Option WalkDirEntry) :=
  (walkDirNext listDir (walkDirQueue listDir rootPath rootName n)).1

/-- The sending task asks the walker for its next entry in one step or two. -/
theorem walkPoll_of_next {listDir : ListDir} {s : VirtualSender} {entry : WalkDirEntry}
    {queue : List WalkDirEntry} {rest : List PathBuf}
    (hpc : s.pc = virtualWalkNext (entry :: queue) rest) :
    ∃ run, virtualSender.exec s run
      = some (s.goto (.walkPoll entry (walkDirNext listDir (entry :: queue)).2 rest)) := by
  rw [virtualWalkNext] at hpc
  rw [walkDirNext]
  split at hpc
  · next hdir =>
    have hstep : s.step (.listDir (listDir entry.path))
        = some (s.goto (.walkPoll entry (entry.enqueue queue (listDir entry.path)) rest)) := by
      simp only [VirtualSender.step, hpc]
    refine ⟨[.listDir (listDir entry.path)], ?_⟩
    rw [if_pos hdir]
    show (s.step _).bind _ = _
    rw [hstep]
    rfl
  · next hfile =>
    refine ⟨[], ?_⟩
    rw [if_neg hfile, VirtualSender.goto, ← hpc]
    rfl

/-! ## Section 2: Directory trees -/

/-- `list_dir` lists each directory of the tree and fails nowhere. -/
inductive Lists (listDir : ListDir) : RoseTree VirtualEntry → Prop
  | directory {entry : VirtualEntry} {children : List (RoseTree VirtualEntry)} :
    entry.isDir = true → listDir entry.path = .ok (children.map RoseTree.value) →
      (∀ child ∈ children, Lists listDir child) → Lists listDir (.node entry children)
  | file {entry : VirtualEntry} : entry.isDir = false → Lists listDir (.node entry [])

/-- The names on the way from the root. -/
def names (entries : List VirtualEntry) : String :=
  "/".intercalate (entries.map VirtualEntry.name)

/-- The entry of a node. -/
def walkDirEntry (v : Visit VirtualEntry) : WalkDirEntry where
  isDir := v.tree.value.isDir
  path := v.tree.value.path
  name := v.tree.value.name
  basePath := names v.above

theorem lists_descend {listDir : ListDir} {v w : Visit VirtualEntry} {a : List Nat}
    (hlists : Lists listDir v.tree) (h : v.descend a = some w) : Lists listDir w.tree := by
  induction a generalizing v with
  | nil =>
    obtain rfl := Option.some.inj h
    exact hlists
  | cons i a ih =>
    obtain ⟨child, hchild, hrest⟩ := Option.bind_eq_some_iff.1 h
    refine ih ?_ hrest
    have hmem : child.tree ∈ v.tree.children := by
      rw [← Visit.expand_trees]
      exact List.mem_map_of_mem (List.mem_of_getElem? hchild)
    generalize v.tree = t at hlists hmem
    cases hlists with
    | directory _ _ hall => exact hall _ hmem
    | file _ => cases hmem

/-- The base path below the root is not empty. -/
theorem names_ne {root : VirtualEntry} {above : List VirtualEntry} (hroot : root.name ≠ "") :
    names (root :: above) ≠ "" := by
  intro hempty
  have hlist := congrArg String.toList hempty
  rw [names, List.map_cons] at hlist
  cases above with
  | nil =>
    rw [List.map_nil, String.intercalate_singleton] at hlist
    exact hroot (String.toList_injective hlist)
  | cons e above =>
    rw [List.map_cons, String.intercalate_cons_cons] at hlist
    simp at hlist

/-- The relative path of an entry is made of the names on the way to it. -/
theorem relativePath_walkDirEntry {root : VirtualEntry} {v : Visit VirtualEntry}
    (hroot : root.name ≠ "") (hbegin : [root] <+: v.lineage) :
    (walkDirEntry v).relativePath = names v.lineage := by
  rw [WalkDirEntry.relativePath, Visit.lineage] at *
  show (if (names v.above).isEmpty then v.tree.value.name
    else names v.above ++ "/" ++ v.tree.value.name) = _
  cases habove : v.above with
  | nil => simp [names]
  | cons e above =>
    rw [habove, List.cons_append, List.cons_prefix_cons] at hbegin
    obtain ⟨rfl, _⟩ := hbegin
    have hne : names (root :: above) ≠ "" := names_ne hroot
    rw [if_neg (by simpa using hne), names, names, List.map_append,
      String.intercalate_append_of_ne_nil (by simp) (by simp)]
    simp

/-- What the walker puts in its queue for a node. -/
theorem enqueue_walkDirEntry {listDir : ListDir} {root : VirtualEntry} {v : Visit VirtualEntry}
    (hroot : root.name ≠ "") (hbegin : [root] <+: v.lineage) (hlists : Lists listDir v.tree)
    (q : List (Visit VirtualEntry)) :
    (walkDirNext listDir ((v :: q).map walkDirEntry)).2 = (pop (v :: q)).map walkDirEntry := by
  have hrel := relativePath_walkDirEntry hroot hbegin
  have hchildren : v.expand.map walkDirEntry = (v.tree.children.map RoseTree.value).map
      fun child =>
        { isDir := child.isDir, path := child.path, name := child.name,
          basePath := (walkDirEntry v).relativePath } := by
    rw [hrel, ← Visit.expand_trees, List.map_map, List.map_map]
    refine List.map_congr_left fun child hchild => ?_
    obtain ⟨_, _, _, habove⟩ := Visit.mem_expand hchild
    rw [walkDirEntry, habove]
    rfl
  rw [pop, List.map_append, hchildren, List.map_cons, walkDirNext]
  show (if v.tree.value.isDir then
    (walkDirEntry v).enqueue (q.map walkDirEntry) (listDir v.tree.value.path)
    else q.map walkDirEntry) = _
  generalize v.tree = t at hlists ⊢
  cases hlists with
  | directory hdir hlist _ =>
    rw [RoseTree.value, RoseTree.children, if_pos hdir, hlist, WalkDirEntry.enqueue]
  | file hfile =>
    rw [RoseTree.value, RoseTree.children, if_neg (by simp [hfile])]
    simp

/-! ## Section 3: What the walker returns -/

section

variable {listDir : ListDir} {rootPath rootName : String}
  {children : List (RoseTree VirtualEntry)}

/-- The tree below a root that is walked. -/
abbrev walkedTree (rootPath rootName : String) (children : List (RoseTree VirtualEntry)) :
    RoseTree VirtualEntry :=
  .node { isDir := true, path := rootPath, name := rootName } children

/-- The queue of the walker is the queue of the traversal. -/
theorem walkDirQueue_eq (hname : rootName ≠ "")
    (hlists : Lists listDir (walkedTree rootPath rootName children)) (n : Nat) :
    walkDirQueue listDir rootPath rootName n
      = (pop^[n] [(walkedTree rootPath rootName children).root]).map walkDirEntry := by
  induction n with
  | zero =>
    rw [walkDirQueue, virtualWalkDir]
    simp [walkDirEntry, RoseTree.root, RoseTree.value, names]
  | succ n ih =>
    rw [walkDirQueue, ih, Function.iterate_succ_apply']
    have hnodes := node_of_mem_pop (t := walkedTree rootPath rootName children) n
    generalize pop^[n] [(walkedTree rootPath rootName children).root] = q at hnodes ⊢
    cases q with
    | nil => rfl
    | cons v q =>
      obtain ⟨a, ha⟩ := hnodes v List.mem_cons_self
      exact enqueue_walkDirEntry hname (Visit.descend_lineage ha) (lists_descend hlists ha) q

/-- The calls return the nodes `vs` of the tree and nothing after that. -/
structure WalkedExactly (returns : Nat → Except VirtualFilesystemError (Option WalkDirEntry))
    (t : RoseTree VirtualEntry) (vs : List (Visit VirtualEntry)) : Prop where
  breadthFirst : BreadthFirst t vs
  once : (vs.map Visit.address).Nodup
  returned : ∀ n, returns n = .ok (vs[n]?.map walkDirEntry)
  /-- A directory is returned before what is below it. -/
  topDown : ∀ (i j : Nat) (v w : Visit VirtualEntry), vs[i]? = some v → vs[j]? = some w →
    v.address <+: w.address → v.address ≠ w.address → i < j
  relativePath : ∀ v ∈ vs, (walkDirEntry v).relativePath = names v.lineage

theorem walkDir_exact (hname : rootName ≠ "")
    (hlists : Lists listDir (walkedTree rootPath rootName children)) :
    ∃ vs, WalkedExactly (walkDirReturns listDir rootPath rootName)
      (walkedTree rootPath rootName children) vs := by
  have hvs := breadthFirst_order (walkedTree rootPath rootName children)
  refine ⟨_, hvs, hvs.nodup, fun n => ?_, fun i j v w => hvs.lt_of_below, fun v hv => ?_⟩
  · have hload : load [(walkedTree rootPath rootName children).root]
        ≤ (walkedTree rootPath rootName children).size := by
      simp [load, forestSize, RoseTree.root]
    rw [walkDirReturns, walkDirQueue_eq hname hlists, ← head_pop hload n]
    generalize pop^[n] [(walkedTree rootPath rootName children).root] = q
    cases q with
    | nil => rfl
    | cons v q => rfl
  · obtain ⟨a, ha⟩ := (hvs.mem v).1 hv
    exact relativePath_walkDirEntry hname (Visit.descend_lineage ha)

/-- A directory with a file in a directory. -/
theorem walkDir_photos :
    ∃ vs, WalkedExactly
      (walkDirReturns
        (fun path =>
          if path = "content:1" then .ok [⟨true, "content:2", "2024"⟩]
          else if path = "content:2" then .ok [⟨false, "content:3", "a.jpg"⟩]
          else .error .fileNotFound)
        "content:1" "Photos")
      (walkedTree "content:1" "Photos"
        [.node ⟨true, "content:2", "2024"⟩ [.node ⟨false, "content:3", "a.jpg"⟩ []]]) vs := by
  refine walkDir_exact (by decide) (.directory rfl rfl fun child hchild => ?_)
  obtain rfl := List.mem_singleton.1 hchild
  refine .directory rfl rfl fun file hfile => ?_
  obtain rfl := List.mem_singleton.1 hfile
  exact .file rfl

end

end Warpinator
