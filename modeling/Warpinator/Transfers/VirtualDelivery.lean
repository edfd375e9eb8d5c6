import Warpinator.Transfers.Omissions
import Warpinator.Transfers.VirtualEmission

/-! # Delivery from a Virtual File System

    A sender over a virtual file system, whose names may be any strings, and a
    receiver over a real one.  What arrives is laid out by the names on the way
    to each node, sanitized one by one.

    Unlike the walker of the other build, this one yields the root of a source
    too, so that every directory has a chunk of its own. -/

namespace Warpinator

open LexPath RoseTree

/-! ## Section 1: Names -/

/-- A name that can stand between two slashes. -/
structure LegalName (name : String) : Prop where
  ne_nil : name.toList ≠ []
  no_slash : '/' ∉ name.toList
  ne_dot : name.toList ≠ ['.']
  ne_dotdot : name.toList ≠ ['.', '.']

/-- The name as a component. -/
def LegalName.fileName {name : String} (h : LegalName name) : FileName where
  raw := OsString.ofString name
  ne_nil := by
    intro hnil
    exact h.ne_nil (List.map_eq_nil_iff.1 hnil)
  not_sep_mem := by
    intro hmem
    obtain ⟨c, hc, hsep⟩ := List.mem_map.1 hmem
    cases hsep
    exact h.no_slash hc
  ne_dot := by
    intro hdot
    exact h.ne_dot (OsUnit.char_injective.list_map hdot)
  ne_dotdot := by
    intro hdots
    exact h.ne_dotdot (OsUnit.char_injective.list_map hdots)

/-- The names on the way to a node, sanitized one by one. -/
def sanitizedLineage (entries : List VirtualEntry) : Path :=
  entries.map fun e => .normal ((OsString.ofString e.name).map sanitizeUnit)

theorem ofString_names (entries : List VirtualEntry) :
    OsString.ofString (names entries)
      = [unix.sep].intercalate (entries.map fun e => OsString.ofString e.name) := by
  have hlist : (names entries).toList
      = ['/'].intercalate (entries.map fun e => e.name.toList) := by
    rw [names, String.toList_intercalate, List.map_map]
    rfl
  have hchars : OsString.ofString (names entries) = (names entries).toList.map .char := rfl
  rw [hchars, hlist, map_intercalate, List.map_map]
  rfl

theorem ofString_sanitizePath (s : String) :
    OsString.ofString (sanitizePathComponent s) = (OsString.ofString s).map sanitizeUnit := by
  simp [OsString.ofString, sanitizePathComponent, sanitizeUnit, OsUnit.lossy, Function.comp_def]

section lineages

variable {entries : List VirtualEntry}

/-- The components of a path of legal names are the names. -/
theorem components_names (h : ∀ e ∈ entries, LegalName e.name) :
    components unix (OsString.ofString (names entries))
      = entries.map fun e => .normal (OsString.ofString e.name) := by
  have hpiece : ∀ e ∈ entries, piece unix (OsString.ofString e.name)
      = some (.normal (OsString.ofString e.name)) := by
    intro e he
    show piece unix (h e he).fileName.raw = some (.normal (h e he).fileName.raw)
    generalize (h e he).fileName = n
    simp [piece, n.ne_nil, n.ne_dot, n.ne_dotdot]
  have hsep : ∀ p ∈ entries.map (fun e => OsString.ofString e.name), unix.sep ∉ p := by
    intro p hp
    obtain ⟨e, he, rfl⟩ := List.mem_map.1 hp
    exact (h e he).fileName.not_sep_mem
  rw [components, ofString_names, body_intercalate unix hsep, front_intercalate unix hsep,
    List.nil_append,
    List.filterMap_map]
  · rw [← List.filterMap_eq_map]
    exact List.filterMap_congr hpiece
  · intro p hp
    have hmem := List.mem_of_mem_head? hp
    obtain ⟨e, he, rfl⟩ := List.mem_map.1 hmem
    rw [hpiece e he]
    simp

theorem components_sanitized (h : ∀ e ∈ entries, LegalName e.name) :
    components unix (OsString.ofString (sanitizePathComponent (names entries)))
      = sanitizedLineage entries := by
  rw [ofString_sanitizePath, components_map sanitizeUnit_respects, components_names h,
    List.map_map]
  rfl

theorem namesPath_names (h : ∀ e ∈ entries, LegalName e.name) (hne : entries ≠ []) :
    NamesPath (sanitizePathComponent (names entries)) (sanitizedLineage entries) where
  components := components_sanitized h
  normal c hc := by
    obtain ⟨e, _, rfl⟩ := List.mem_map.1 hc
    rfl
  ne_nil := by simpa [sanitizedLineage] using hne

/-- Equal paths come from equal strings. -/
theorem sanitize_names_congr {entries' : List VirtualEntry}
    (h : sanitizedLineage entries = sanitizedLineage entries') :
    sanitizePathComponent (names entries) = sanitizePathComponent (names entries') := by
  have hunits : (entries.map fun e => OsString.ofString e.name).map (List.map sanitizeUnit)
      = (entries'.map fun e => OsString.ofString e.name).map (List.map sanitizeUnit) := by
    apply normal_injective.list_map
    simpa [sanitizedLineage, Function.comp_def] using h
  have hraw : OsString.ofString (sanitizePathComponent (names entries))
      = OsString.ofString (sanitizePathComponent (names entries')) := by
    rw [ofString_sanitizePath, ofString_sanitizePath, ofString_names, ofString_names,
      map_intercalate, map_intercalate, hunits]
  exact OsString.ofString_injective hraw

end lineages

/-! ## Section 2: The items of the nodes -/

/-- Every name is legal, and no two nodes have the same sanitized relative path. -/
structure Distinct (trees : List (RoseTree VirtualEntry)) : Prop where
  legal : ∀ v ∈ allVisits trees, ∀ e ∈ v.lineage, LegalName e.name
  once : ((allVisits trees).map fun v => sanitizePathComponent (names v.lineage)).Nodup

section nodes

variable {fs : StaticVfs} {trees : List (RoseTree VirtualEntry)} {sources : List PathBuf}
  {v w : Visit VirtualEntry} {i j : Item}

theorem StaticVfs.Presents.rel (h : fs.Presents v i) : i.rel = names v.lineage := by
  cases h <;> rfl

theorem StaticVfs.Presents.isFile (h : fs.Presents v i) : i.isFile = !v.tree.value.isDir := by
  cases h with
  | dir hdir => rw [hdir]; rfl
  | file _ hfile => rw [hfile]; rfl

theorem StaticVfs.Presents.path (h : fs.Presents v i) (hlegal : ∀ e ∈ v.lineage, LegalName e.name) :
    i.path = sanitizedLineage v.lineage := by
  rw [Item.path, Item.sanitized, h.rel]
  exact components_sanitized hlegal

theorem StaticVfs.Presents.sendable {checks : Bool} (h : fs.Presents v i)
    (hlegal : ∀ e ∈ v.lineage, LegalName e.name) : i.Sendable checks where
  names := by
    rw [h.path hlegal, Item.sanitized, h.rel]
    exact namesPath_names hlegal (by simp [Visit.lineage])
  time rel time data hi := by
    cases h with
    | dir _ => cases hi
    | file modified _ =>
      obtain ⟨-, htime, -⟩ := Item.file.inj hi
      obtain ⟨t, -, rfl⟩ := Option.map_eq_some_iff.1 htime
      obtain ⟨t', ht', _⟩ := systemTime_ofSystemTime checks t
      rw [ht']
      rfl

theorem mem_allVisits {v : Visit VirtualEntry} :
    v ∈ allVisits trees ↔ ∃ t ∈ trees, ∃ a, t.node? a = some v := by
  simp only [allVisits, List.mem_flatMap, mem_visits_root]

theorem lists_of_mem (hshow : List.Forall₂ fs.Shows trees sources) :
    ∀ t ∈ trees, Lists fs.listDir t := by
  intro t ht
  induction hshow with
  | nil => cases ht
  | cons hfirst _ ih =>
    rcases List.mem_cons.1 ht with rfl | hrest
    · exact hfirst.lists
    · exact ih hrest

/-- A file is on the way to no other node. -/
theorem not_prefix_of_file (hshow : List.Forall₂ fs.Shows trees sources)
    (hdistinct : Distinct trees)
    (hv : v ∈ allVisits trees) (hw : w ∈ allVisits trees) (hfile : v.tree.value.isDir = false)
    (hne : sanitizedLineage v.lineage ≠ sanitizedLineage w.lineage) :
    ¬ sanitizedLineage v.lineage <+: sanitizedLineage w.lineage := by
  intro hprefix
  -- the part of the way to `w` that has the path of `v`
  obtain ⟨p, hp, hpath⟩ : ∃ p, p <+: w.lineage ∧
      sanitizedLineage p = sanitizedLineage v.lineage := by
    refine ⟨w.lineage.take v.lineage.length, List.take_prefix _ _, ?_⟩
    rw [sanitizedLineage, List.map_take]
    have htake := List.prefix_iff_eq_take.1 hprefix
    rw [show (sanitizedLineage v.lineage).length = v.lineage.length by simp [sanitizedLineage]]
      at htake
    exact htake.symm
  have hpne : p ≠ [] := by
    rintro rfl
    have hnil := hpath.symm
    simp [sanitizedLineage, Visit.lineage] at hnil
  obtain ⟨t, ht, a, ha⟩ := mem_allVisits.1 hw
  obtain ⟨u, b, c, hu, hbelow, rfl⟩ := node_of_prefix ha hp hpne
  have humem : u ∈ allVisits trees := mem_allVisits.2 ⟨t, ht, b, hu⟩
  obtain rfl : u = v :=
    List.inj_on_of_nodup_map hdistinct.once humem hv (sanitize_names_congr hpath)
  -- there is nothing below a file
  have hlists := lists_descend (lists_of_mem hshow t ht) hu
  cases c with
  | nil =>
    obtain rfl : u = w := Option.some.inj hbelow
    exact hne rfl
  | cons i c =>
    obtain ⟨child, hchild, _⟩ := Option.bind_eq_some_iff.1 hbelow
    have hmem : child.tree ∈ u.tree.children := by
      rw [← Visit.expand_trees]
      exact List.mem_map_of_mem (List.mem_of_getElem? hchild)
    generalize u.tree = tree at hlists hmem hfile
    cases hlists with
    | directory hdir _ _ =>
      rw [RoseTree.value, hdir] at hfile
      cases hfile
    | file _ => cases hmem

theorem apart_of_presents (hshow : List.Forall₂ fs.Shows trees sources)
    (hdistinct : Distinct trees) (hv : v ∈ allVisits trees) (hw : w ∈ allVisits trees)
    (hi : fs.Presents v i) (hj : fs.Presents w j)
    (hne : sanitizedLineage v.lineage ≠ sanitizedLineage w.lineage) : Apart i j := by
  have hfile : ∀ {x : Visit VirtualEntry} {k : Item}, fs.Presents x k → k.isFile = true →
      x.tree.value.isDir = false := by
    intro x k hk hkfile
    rw [hk.isFile] at hkfile
    simpa using hkfile
  refine ⟨?_, fun hkind => ?_, fun hkind => ?_⟩ <;>
    rw [hi.path (hdistinct.legal v hv), hj.path (hdistinct.legal w hw)]
  · exact hne
  · exact not_prefix_of_file hshow hdistinct hv hw (hfile hi hkind) hne
  · exact not_prefix_of_file hshow hdistinct hw hv (hfile hj hkind) hne.symm

/-- What holds of any two nodes in order holds of their items. -/
theorem pairwise_of_presents {vs : List (Visit VirtualEntry)} {is : List Item}
    {R : Visit VirtualEntry → Visit VirtualEntry → Prop} (h : List.Forall₂ fs.Presents vs is)
    (hpair : vs.Pairwise R)
    (himp : ∀ v ∈ vs, ∀ w ∈ vs, ∀ i j, fs.Presents v i → fs.Presents w j → R v w → Apart i j) :
    is.Pairwise Apart := by
  induction h with
  | nil => exact .nil
  | @cons v i vs is hi hrest ih =>
    obtain ⟨hfirst, hpair⟩ := List.pairwise_cons.1 hpair
    refine List.pairwise_cons.2 ⟨fun j hj => ?_, ih hpair fun v hv w hw =>
      himp v (List.mem_cons_of_mem _ hv) w (List.mem_cons_of_mem _ hw)⟩
    obtain ⟨n, hn, rfl⟩ := List.mem_iff_getElem.1 hj
    have hn' : n < vs.length := by rwa [hrest.length_eq]
    have hpresents : fs.Presents vs[n] is[n] := List.Forall₂.get hrest hn' hn
    exact himp v List.mem_cons_self _ (List.mem_cons_of_mem _ (List.getElem_mem hn')) i _ hi
      hpresents (hfirst _ (List.getElem_mem hn'))

theorem items_apart (hshow : List.Forall₂ fs.Shows trees sources) (hdistinct : Distinct trees)
    {items : List Item} (hitems : List.Forall₂ fs.Presents (allVisits trees) items) :
    items.Pairwise Apart := by
  have hpair : (allVisits trees).Pairwise fun v w =>
      sanitizedLineage v.lineage ≠ sanitizedLineage w.lineage :=
    (List.pairwise_map.1 hdistinct.once).imp fun hne heq => hne (sanitize_names_congr heq)
  exact pairwise_of_presents hitems hpair fun v hv w hw i j hi hj hne =>
    apart_of_presents hshow hdistinct hv hw hi hj hne

end nodes

/-! ## Section 3: Directories stay -/

/-- The path of an item below `base`. -/
def Item.under (base : Path) (i : Item) : Path := base ++ i.path

/-- The path of a node below `base`, as the receiver reads it. -/
def nodeLocation (base : Path) (v : Visit VirtualEntry) : Path :=
  base ++ sanitizedLineage v.lineage

section directories

variable {checks : Bool} {destination : PathBuf} {ans : IoAnswers} {c : FileChunk}
  {r r' : Receiver}

theorem openTarget_grows {target : PathBuf} (h : openTarget ans c target r = .ok r') :
    r.disk.Grows r'.disk := by
  unfold openTarget at h
  split at h
  · cases h
    exact grows_createDirAll _ _
  · have hparent : r.disk.Grows (createParent ans target r.disk) := by
      unfold createParent
      split
      · exact grows_createDirAll _ _
      · exact .refl _
    have hfile := grows_createFile (d := createParent ans target r.disk) ans.createFile
      target.components
    split at h
    · cases h
    · next heq =>
      rw [heq] at hfile
      exact (hparent.trans hfile).trans (writeChunk_grows h).1

theorem processChunk_grows (h : processChunk checks destination ans c r = .ok r') :
    r.disk.Grows r'.disk := by
  obtain ⟨_, rfl⟩ | ⟨_, _, hwrite⟩ | ⟨_, _, r₁, hfin, hopen⟩ := processChunk_cases h
  · exact .refl _
  · exact (writeChunk_grows hwrite).1
  · have hopened := openTarget_grows hopen
    exact (finalize_grows hfin).1.trans hopened

theorem processAll_grows {acs : ChunkStream} (h : processAll checks destination acs r = .ok r') :
    r.disk.Grows r'.disk := by
  induction acs generalizing r with
  | nil => cases h; exact .refl _
  | cons ac acs ih =>
    obtain ⟨r₁, hstep, hrest⟩ := processAll_cons_ok h
    exact (processChunk_grows hstep).trans (ih hrest)

/-- The chunk of a directory makes it. -/
theorem directory_made {done : List Item} {rel : String} {acs : ChunkStream}
    (h : RestsAfter checks destination done r) (hi : (Item.dir rel).Sendable checks)
    (hapart : ∀ j ∈ done, Apart j (.dir rel)) (hchunks : acs.map Prod.snd = [.ofDirectory rel])
    (hgood : Faultless acs) (hrun : processAll checks destination acs r = .ok r') :
    r'.disk.node ((Item.dir rel).under (resolve destination.components)) = some .dir := by
  obtain ⟨⟨ans, c⟩, rfl, hc⟩ := List.map_eq_singleton_iff.1 hchunks
  obtain ⟨bps, rfl⟩ := hgood _ List.mem_cons_self
  obtain rfl : c = .ofDirectory rel := hc
  obtain ⟨r₁, hstep, hrest⟩ := processAll_cons_ok hrun
  cases hrest
  have hfiles : ∀ e ∈ done.filterMap (Item.storedFile checks), ¬ e.1 <+: (Item.dir rel).path := by
    intro e he
    obtain ⟨j, hj, hje⟩ := List.mem_filterMap.1 he
    obtain ⟨hpath, hfile⟩ := Item.storedFile_spec hje
    rw [hpath]
    exact (hapart j hj).left hfile
  obtain ⟨r₂, hfin, _, hholds⟩ := h.rests.finalized
  obtain ⟨_, hdirs⟩ := hholds.createDirAll (hi.names.resolve_target destination) hfiles
  obtain ⟨hkind, _⟩ | ⟨_, hcurrent, _⟩ | ⟨_, _, r₃, hfin', hopen⟩ := processChunk_cases hstep
  · rw [ofDirectory_kind] at hkind
    cases hkind
  · -- the directory is not the item before
    obtain ⟨j, hj, hji⟩ := h.current _ hcurrent
    have hsame : j.path = (Item.dir rel).path := by
      rw [Item.path, ← hji]
      rfl
    exact absurd hsame (hapart j hj).ne
  · obtain rfl : r₂ = r₃ := Outcome.ok.inj (hfin.symm.trans hfin')
    have hmade := hdirs _ List.prefix_rfl
    rw [openTarget, if_pos (ofDirectory_kind rel)] at hopen
    rw [← Outcome.ok.inj hopen]
    simpa only [FileChunk.target, FileChunk.sanitized, ofDirectory_relativePath, Item.sanitized,
      Item.rel, IoAnswers.good, Item.under] using hmade

/-- The chunks of a list of items, with the directories that they leave. -/
theorem items_made {is done : List Item} {css : List (List FileChunk)} {acs : ChunkStream}
    (h : RestsAfter checks destination done r) (hitems : ∀ i ∈ is, i.Sendable checks)
    (hapart : is.Pairwise Apart) (hdone : ∀ j ∈ done, ∀ i ∈ is, Apart j i)
    (hchunks : List.Forall₂ ItemChunks is css) (hacs : acs.map Prod.snd = css.flatten)
    (hgood : Faultless acs) :
    ∃ r', processAll checks destination acs r = .ok r' ∧
      RestsAfter checks destination (is.reverse ++ done) r' ∧
      ∀ rel, Item.dir rel ∈ is →
        r'.disk.node ((Item.dir rel).under (resolve destination.components)) = some .dir := by
  induction hchunks generalizing acs done r with
  | nil =>
    obtain rfl : acs = [] := List.map_eq_nil_iff.1 hacs
    exact ⟨r, rfl, h, by simp⟩
  | @cons i cs is css hi _ ih =>
    rw [List.flatten_cons] at hacs
    obtain ⟨acs₁, acs₂, rfl, hcs, hcss⟩ := List.map_eq_append_iff.1 hacs
    rw [List.pairwise_cons] at hapart
    have hgood₁ : Faultless acs₁ := fun ac hac => hgood ac (List.mem_append_left _ hac)
    obtain ⟨r₁, hrun₁, hrest₁⟩ := h.item (hitems i List.mem_cons_self)
      (fun j hj => hdone j hj i List.mem_cons_self) (hcs ▸ hi) hgood₁
    obtain ⟨r₂, hrun₂, hrest₂, hdirs⟩ := ih hrest₁
      (fun i hi => hitems i (List.mem_cons_of_mem _ hi)) hapart.2
      (fun j hj k hk => by
        rcases List.mem_cons.1 hj with rfl | hj
        · exact hapart.1 k hk
        · exact hdone j hj k (List.mem_cons_of_mem _ hk))
      hcss fun ac hac => hgood ac (List.mem_append_right _ hac)
    refine ⟨r₂, by rw [processAll_append hrun₁, hrun₂], ?_, fun rel hrel => ?_⟩
    · rwa [List.reverse_cons, List.append_assoc]
    · rcases List.mem_cons.1 hrel with rfl | hrel
      · -- made by its own chunk, and left alone by those of the other items
        refine (processAll_grows hrun₂).dir _ ?_
        exact directory_made h (hitems _ List.mem_cons_self)
          (fun j hj => hdone j hj _ List.mem_cons_self) (hcs.trans hi) hgood₁ hrun₁
      · exact hdirs rel hrel

end directories

/-! ## Section 4: Delivery -/

/-- The directories and the non-empty files of the trees are in the destination,
    and no other files. -/
structure Rebuilt (fs : StaticVfs) (trees : List (RoseTree VirtualEntry)) (destination : PathBuf)
    (r : Receiver) : Prop where
  dirs : ∀ v ∈ allVisits trees, v.tree.value.isDir = true →
    r.disk.node (nodeLocation (resolve destination.components) v) = some .dir
  files : ∀ v ∈ allVisits trees, v.tree.value.isDir = false →
    fs.contents v.tree.value.path ≠ [] →
    ∃ data, r.disk.node (nodeLocation (resolve destination.components) v) = some (.file data) ∧
      data.bytes = fs.contents v.tree.value.path
  only : ∀ l data, resolve destination.components <+: l → r.disk.node l = some (.file data) →
    ∃ v ∈ allVisits trees, v.tree.value.isDir = false ∧
      fs.contents v.tree.value.path ≠ [] ∧ l = nodeLocation (resolve destination.components) v

section delivery

variable {fs : StaticVfs} {trees : List (RoseTree VirtualEntry)} {checks : Bool}
  {destination : PathBuf} {items : List Item}

theorem exists_item {vs : List (Visit VirtualEntry)} {is : List Item}
    (h : List.Forall₂ fs.Presents vs is) {v : Visit VirtualEntry} (hv : v ∈ vs) :
    ∃ i ∈ is, fs.Presents v i := by
  induction h with
  | nil => cases hv
  | cons hi _ ih =>
    rcases List.mem_cons.1 hv with rfl | hrest
    · exact ⟨_, List.mem_cons_self, hi⟩
    · obtain ⟨i, hi, hpresents⟩ := ih hrest
      exact ⟨i, List.mem_cons_of_mem _ hi, hpresents⟩

theorem exists_node {vs : List (Visit VirtualEntry)} {is : List Item}
    (h : List.Forall₂ fs.Presents vs is) {i : Item} (hi : i ∈ is) :
    ∃ v ∈ vs, fs.Presents v i := by
  induction h with
  | nil => cases hi
  | cons hv _ ih =>
    rcases List.mem_cons.1 hi with rfl | hrest
    · exact ⟨_, List.mem_cons_self, hv⟩
    · obtain ⟨v, hv, hpresents⟩ := ih hrest
      exact ⟨v, List.mem_cons_of_mem _ hv, hpresents⟩

theorem Item.storedFile_of_ne (checks : Bool) {rel : String} {t : Option FileTime}
    {data : List UInt8} (hne : data ≠ []) : (Item.file rel t data).storedFile checks =
      some ((Item.file rel t data).path, ⟨data, stamp checks t⟩) :=
  if_neg hne

/-- What the receiver holds after the items of all nodes. -/
theorem rebuilt_of_holds {made : List Path} {is : List Item} {r r' : Receiver}
    (hdistinct : Distinct trees) (hitems : List.Forall₂ fs.Presents (allVisits trees) items)
    (his : ∀ i, i ∈ is ↔ i ∈ items)
    (hholds : Holds (resolve destination.components) (is.filterMap (Item.storedFile checks)) made
      r'.disk) (hgrows : r.disk.Grows r'.disk)
    (hdirs : ∀ rel, Item.dir rel ∈ items →
      r.disk.node ((Item.dir rel).under (resolve destination.components)) = some .dir) :
    Rebuilt fs trees destination r' where
  dirs v hv hdir := by
    obtain ⟨i, hi, hpresents⟩ := exists_item hitems hv
    have hpath := hpresents.path (hdistinct.legal v hv)
    cases hpresents with
    | dir _ =>
      rw [nodeLocation, ← hpath]
      exact hgrows.dir _ (hdirs _ hi)
    | file _ hfile => rw [hdir] at hfile; cases hfile
  files v hv hfile hne := by
    obtain ⟨i, hi, hpresents⟩ := exists_item hitems hv
    have hpath := hpresents.path (hdistinct.legal v hv)
    cases hpresents with
    | dir hdir => rw [hdir] at hfile; cases hfile
    | file modified _ =>
      have hstored := List.mem_filterMap.2 ⟨_, (his _).2 hi, Item.storedFile_of_ne checks hne⟩
      have hnode := hholds.files _ hstored
      rw [nodeLocation, ← hpath]
      exact ⟨_, hnode, rfl⟩
  only l data hl hnode := by
    obtain ⟨e, he, rfl⟩ := hholds.only l data hl hnode
    obtain ⟨i, hi, hie⟩ := List.mem_filterMap.1 he
    obtain ⟨v, hv, hpresents⟩ := exists_node hitems ((his i).1 hi)
    obtain ⟨hpath, _⟩ := Item.storedFile_spec hie
    rw [hpath, hpresents.path (hdistinct.legal v hv)]
    cases hpresents with
    | dir _ => cases hie
    | file modified hfile =>
      refine ⟨v, hv, hfile, ?_, rfl⟩
      intro hnil
      simp [Item.storedFile, hnil] at hie

/-- From a virtual file system whose names are legal and stay apart, to an empty
    destination: if nothing fails or is cancelled, the sender comes to `Ok(true)`,
    its chunks are all processed, the receiver comes to `Ok(true)` at the end of
    the stream, and the destination holds exactly the trees of the sources, apart
    from files without bytes. -/
theorem virtual_delivery {sources : List PathBuf} {ls : List VirtualLabel} {s' : VirtualSender}
    {result : Except TransferError Bool} {acs : ChunkStream} {node : Path → Option Node}
    (checks : Bool) (hshow : List.Forall₂ fs.Shows trees sources) (hdistinct : Distinct trees)
    (hrun : virtualSender.exec (.start sources) ls = some s')
    (hanswers : virtualSender.Along fs.Answers (.start sources) ls)
    (hret : s'.pc = .returned result) (hempty : EmptyDestination destination node)
    (hgood : Faultless acs) (hacs : acs.map Prod.snd = s'.handed) :
    result = .ok true ∧ ∃ r r', processAll checks destination acs (.start node) = .ok r ∧
      receiveRound checks destination none r .endOfStream = .done (.ok true) r' ∧
      Rebuilt fs trees destination r' := by
  obtain ⟨hresult, items, hitems, hemits⟩ := emits_visits hshow hrun hanswers hret
  obtain ⟨css, hcss, hchunks⟩ := hemits.items
  have hsendable : ∀ i ∈ items, i.Sendable checks := by
    intro i hi
    obtain ⟨v, hv, hpresents⟩ := exists_node hitems hi
    exact hpresents.sendable (hdistinct.legal v hv)
  obtain ⟨r, hprocess, hrest, hdirs⟩ := items_made (restsAfter_start hempty) hsendable
    (items_apart hshow hdistinct hitems) (fun j hj => by cases hj) hchunks (hacs.trans hcss) hgood
  obtain ⟨r', hfin, _, hholds⟩ := hrest.rests.finalized
  refine ⟨hresult, r, r', hprocess, by simp [receiveRound, leaveLoop, hfin], ?_⟩
  exact rebuilt_of_holds hdistinct hitems (by simp) hholds (finalize_grows hfin).1 hdirs

end delivery

/-! ## Section 5: A directory with a file -/

/-- The directory `/s` with the file `a`. -/
def smallVfs : StaticVfs where
  metadata path := ⟨path = "/s", if path = "/s" then "s" else "a"⟩
  listDir path := if path = "/s" then .ok [⟨false, "/s/a", "a"⟩] else .error .fileNotFound
  contents path := if path = "/s/a" then [7] else []

def smallVirtualTree : RoseTree VirtualEntry :=
  .node ⟨true, "/s", "s"⟩ [.node ⟨false, "/s/a", "a"⟩ []]

def smallVirtualRun : List VirtualLabel :=
  [.common (.poll false), .metadata (.ok ⟨true, "s"⟩), .listDir (.ok [⟨false, "/s/a", "a"⟩]),
    .common (.poll false), .common (.send true), .common (.poll false), .openFile (.ok [7]),
    .fileMetadata (.ok (some .epoch)), .common (.poll false), .common (.read (.ok 1)),
    .common (.send true), .common (.progress 1), .common (.poll false), .common (.read (.ok 0))]

theorem smallVirtualTree_shows : smallVfs.Shows smallVirtualTree (OsString.ofString "/s") where
  path := by decide
  metadata := rfl
  lists := by
    refine .directory rfl rfl fun child hchild => ?_
    obtain rfl := List.mem_singleton.1 hchild
    exact .file rfl
  named := by decide

theorem smallVirtualTree_distinct : Distinct [smallVirtualTree] where
  legal := by
    have hnames : ∀ v ∈ allVisits [smallVirtualTree], ∀ e ∈ v.lineage,
        e.name = "s" ∨ e.name = "a" := by decide
    intro v hv e he
    rcases hnames v hv e he with h | h <;> rw [h] <;>
      exact ⟨by decide, by decide, by decide, by decide⟩
  once := by decide

theorem smallVirtualRun_answers :
    virtualSender.Along smallVfs.Answers (.start [OsString.ofString "/s"]) smallVirtualRun := by
  refine .cons rfl rfl (.cons ?source rfl (.cons ?list rfl (.cons rfl rfl (.cons rfl rfl
    (.cons rfl rfl (.cons ?contents rfl (.cons ⟨_, rfl⟩ rfl (.cons rfl rfl (.cons rfl rfl
      (.cons rfl rfl (.cons rfl rfl (.cons rfl rfl (.cons rfl rfl trivial)))))))))))))
  case source => intro source rest hpc; cases hpc; rfl
  case list => intro entry queue rest hpc; cases hpc; rfl
  case contents => intro path rel queue rest hpc; cases hpc; rfl

theorem virtual_delivery_small :
    ∃ r r', processAll true (OsString.ofString "/d")
        [(.good 1, .ofDirectory "s"), (.good 1, .ofFile "s/a" (some (.ofSystemTime .epoch)) [7])]
        (.start (emptyTree (OsString.ofString "/d"))) = .ok r ∧
      receiveRound true (OsString.ofString "/d") none r .endOfStream = .done (.ok true) r' ∧
      Rebuilt smallVfs [smallVirtualTree] (OsString.ofString "/d") r' := by
  have hrun : ∃ s', virtualSender.exec (.start [OsString.ofString "/s"]) smallVirtualRun = some s' ∧
      s'.pc = .returned (.ok true) ∧
      s'.handed = [.ofDirectory "s", .ofFile "s/a" (some (.ofSystemTime .epoch)) [7]] :=
    ⟨_, rfl, rfl, rfl⟩
  obtain ⟨s', hrun, hret, hhanded⟩ := hrun
  exact (virtual_delivery true (.cons smallVirtualTree_shows .nil) smallVirtualTree_distinct hrun
    smallVirtualRun_answers hret (emptyDestination_emptyTree _) (by simp [Faultless])
    (by rw [hhanded]; rfl)).2

end Warpinator
