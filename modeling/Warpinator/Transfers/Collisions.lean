import Mathlib.Data.List.Perm.Subperm
import Warpinator.Transfers.Contents

/-! # Source Files with One Target

    The receiver knows a file only by its sanitized relative path, and compares
    it with the path of the chunk before.  Two source files with one path end up
    in one file: the second is appended to the first if it comes directly after
    it, and truncates it otherwise.  A file after a directory chunk with the same
    path has no open file at all, and its bytes are dropped.

    `unmixed_iff_separate`: the source files stay apart exactly if the sender
    loses none of their bytes, their targets are distinct, no file comes directly
    after an item with its own path, and no write fails late. -/

namespace Warpinator

open LexPath

/-! ## Section 1: Senders without a loss -/

section senders

variable {sources : List Source} {s s' : Sender} {l : SendLabel} {ls : List SendLabel}

/-- Once the items left are worked off, at most chunks of directories are missing. -/
def Trails (sources : List Source) (s : Sender) : Prop :=
  ∀ cs, Emits s.pc.todo cs →
    ∃ rest, dataChunks rest = [] ∧ Emits (allItems sources) (s.handed ++ cs ++ rest)

theorem trails_start (sources : List Source) : Trails sources (.start sources) := by
  intro cs hcs
  have htodo : (Sender.start sources).pc.todo = allItems sources := sourceLoop_todo sources
  refine ⟨[], rfl, ?_⟩
  simpa [Sender.start, htodo] using hcs

/-- Items without bytes are worked off by chunks of directories. -/
theorem emits_of_itemBytes_zero {is : List Item} (hzero : itemBytes is = 0) :
    ∃ rest, dataChunks rest = [] ∧ Emits is rest := by
  induction is with
  | nil => exact ⟨[], rfl, .done⟩
  | cons i is ih =>
    rw [itemBytes_cons] at hzero
    obtain ⟨rest, hrest, hemits⟩ := ih (by omega)
    cases i with
    | dir rel => exact ⟨.ofDirectory rel :: rest, hrest, .step (.dir rel is) hemits⟩
    | file rel t data =>
      have hdata : data = [] := List.length_eq_zero_iff.1 (by simp only [Item.data] at hzero; omega)
      subst hdata
      exact ⟨rest, hrest, .step (.eof rel t is) hemits⟩

theorem emits_nil {cs : List FileChunk} (h : Emits [] cs) : cs = [] := by
  obtain ⟨css, rfl, hall⟩ := h.items
  cases hall
  rfl

theorem step_trails (hstep : sendStep s l = some s') (hloss : NoLoss s l) (hwf : s.pc.WellFormed)
    (h : Trails sources s) : Trails sources s' := by
  obtain ⟨cs, hhanded, hmove⟩ := sendStep_move hstep
  intro cs' hcs'
  cases hexit : earlyExit s.pc l with
  | false =>
    rw [hhanded, List.append_assoc s.handed cs cs']
    exact h _ (.step (hmove.consumes hwf hexit) hcs')
  | true =>
    obtain ⟨rfl, htodo⟩ := hmove.abandons hexit
    rw [hhanded, List.append_nil]
    rcases hmove.exit_cases hexit with ⟨file, cont, hpc, _⟩ | ⟨result, hret, _⟩
    · -- a read loop that is stopped at the end of its file
      have hzero := hloss hexit
      have hitem : s.pc.abandoned = [.file file.relativePath file.time []] := by
        simp only [hpc, SendPc.abandoned, itemBytes_cons, FileLoop.item, Item.data] at hzero ⊢
        have hrem : file.remaining = [] := List.length_eq_zero_iff.1 (by omega)
        rw [hrem]
      have hemits : Emits s.pc.todo cs' := by
        rw [htodo, hitem]
        exact .step (.eof _ _ _) hcs'
      exact h cs' hemits
    · -- the task ends, and only directories are left
      have hnil : s'.pc.todo = [] := by rw [hret]; rfl
      rw [hnil] at hcs' htodo
      obtain rfl := emits_nil hcs'
      obtain ⟨trail, htrail, hemits⟩ := emits_of_itemBytes_zero (hloss hexit)
      obtain ⟨rest, hrest, hall⟩ := h trail (by rw [htodo, List.append_nil]; exact hemits)
      refine ⟨trail ++ rest, ?_, ?_⟩
      · rw [dataChunks, List.filter_append]
        exact List.append_eq_nil_iff.2 ⟨htrail, hrest⟩
      · simpa using hall

/-- A sender without a loss hands over all chunks but some of directories at the end. -/
theorem emits_of_noLoss {result : Except TransferError Bool}
    (hrun : sender.exec (.start sources) ls = some s')
    (hloss : sender.Along NoLoss (.start sources) ls) (hret : s'.pc = .returned result) :
    ∃ rest, dataChunks rest = [] ∧ Emits (allItems sources) (s'.handed ++ rest) := by
  have hinv : s'.pc.WellFormed ∧ Trails sources s' :=
    sender.exec_invariant_along (I := fun s => s.pc.WellFormed ∧ Trails sources s)
      (fun _ _ _ hC h hs => ⟨step_wellFormed hs, step_trails hs hC h.1 h.2⟩)
      ⟨sourceLoop_wellFormed _, trails_start _⟩ hloss hrun
  have htodo : s'.pc.todo = [] := by rw [hret]; rfl
  obtain ⟨rest, hrest, hall⟩ := hinv.2 [] (by rw [htodo]; exact .done)
  exact ⟨rest, hrest, by rwa [List.append_nil] at hall⟩

/-- Where as many bytes are handed over as the sources have, none were lost. -/
theorem noLoss_of_bytes (hrun : sender.exec (.start sources) ls = some s')
    (hbytes : itemBytes (allItems sources) ≤ chunkBytes s'.handed) :
    sender.Along NoLoss (.start sources) ls := by
  by_contra hloss
  obtain ⟨pre, l, post, t, u, rfl, _, hpre, hbad, hstep, hpost⟩ :=
    sender.exists_first_bad hrun hloss
  have ht : t.pc.WellFormed ∧ Balanced sources t :=
    sender.exec_invariant (I := fun s => s.pc.WellFormed ∧ Balanced sources s)
      (fun _ _ _ h hs => ⟨step_wellFormed hs, step_balanced hs h.1 h.2⟩)
      ⟨sourceLoop_wellFormed _, balanced_start _⟩ hpre
  have hs' : s'.pc.WellFormed ∧ Short sources s' :=
    sender.exec_invariant (I := fun s => s.pc.WellFormed ∧ Short sources s)
      (fun _ _ _ h hs => ⟨step_wellFormed hs, h.2.step hs h.1⟩)
      ⟨step_wellFormed hstep, step_short hstep hbad ht.1 ht.2⟩ hpost
  have hshort := hs'.2
  unfold Short at hshort
  omega

end senders

/-! ## Section 2: Items and their chunks -/

section parts

variable {is : List Item} {cs rest : List FileChunk} {acs : ChunkStream}

theorem FileChunks.data_chunks {rel : String} {t : Option FileTime} {data : List UInt8}
    (h : FileChunks rel t data cs) : dataChunks cs = cs := by
  induction h with
  | eof t => rfl
  | read t data rest cs _ _ ih => exact congrArg (FileChunk.ofFile rel t data :: ·) ih

theorem ItemChunks.data_chunks {i : Item} (hfile : i.isFile = true) (h : ItemChunks i cs) :
    dataChunks cs = cs := by
  cases i with
  | dir rel => cases hfile
  | file rel t data => exact FileChunks.data_chunks h

theorem FileChunks.first {rel : String} {t : Option FileTime} {data : List UInt8} {c : FileChunk}
    (h : FileChunks rel t data (c :: cs)) :
    ∃ head tail, c = .ofFile rel t head ∧ data = head ++ tail ∧ head ≠ [] ∧
      FileChunks rel none tail cs := by
  cases h with
  | read _ head tail _ hne htail => exact ⟨head, tail, rfl, rfl, hne, htail⟩

/-- A file with bytes has a chunk. -/
theorem FileChunks.ne_nil {rel : String} {t : Option FileTime} {data : List UInt8}
    (h : FileChunks rel t data cs) (hne : data ≠ []) : cs ≠ [] := by
  cases h with
  | eof t => exact absurd rfl hne
  | read t data rest cs _ _ => simp

theorem dataChunks_append (cs cs' : List FileChunk) :
    dataChunks (cs ++ cs') = dataChunks cs ++ dataChunks cs' := List.filter_append _ _

/-- Items none of whose chunks carries bytes are directories. -/
theorem files_of_no_data {css : List (List FileChunk)} (hfull : ∀ i ∈ files is, i.data ≠ [])
    (h : List.Forall₂ ItemChunks is css) (hnone : dataChunks css.flatten = []) : files is = [] := by
  induction h with
  | nil => rfl
  | @cons i cs is css hi _ ih =>
    rw [List.flatten_cons, dataChunks_append, List.append_eq_nil_iff] at hnone
    cases i with
    | dir rel => exact ih hfull hnone.2
    | file rel t data =>
      exfalso
      have hcs := ItemChunks.data_chunks rfl hi
      rw [hnone.1] at hcs
      exact FileChunks.ne_nil hi (hfull _ List.mem_cons_self) hcs.symm

/-- An item with the chunks that carry it and the answers for each. -/
abbrev Part : Type := Item × ChunkStream

/-- A stream cut into the chunks of the items. -/
structure CutInto (acs : ChunkStream) (parts : List Part) : Prop where
  stream : parts.flatMap Prod.snd = acs
  chunks : ∀ x ∈ parts, ItemChunks x.1 (x.2.map Prod.snd)

/-- A stream that lacks no chunk with data is cut into the items, up to some
    directories at the end. -/
theorem exists_parts {css : List (List FileChunk)} (hfull : ∀ i ∈ files is, i.data ≠ [])
    (h : List.Forall₂ ItemChunks is css) (hall : acs.map Prod.snd ++ rest = css.flatten)
    (hrest : dataChunks rest = []) :
    ∃ parts ds, CutInto acs parts ∧ is = parts.map Prod.fst ++ ds ∧ files ds = [] := by
  -- item by item, as far as the stream goes
  induction h generalizing acs with
  | nil =>
    have hnil : acs = [] := by simpa using (List.append_eq_nil_iff.1 hall).1
    subst hnil
    exact ⟨[], [], ⟨rfl, by simp⟩, rfl, rfl⟩
  | @cons i cs is css hi hcss ih =>
    have hfull' : ∀ j ∈ files is, j.data ≠ [] := by
      intro j hj
      exact hfull j (List.mem_filter.2 ⟨List.mem_cons_of_mem i (List.mem_filter.1 hj).1,
        (List.mem_filter.1 hj).2⟩)
    rw [List.flatten_cons] at hall
    have hends : (∃ c, acs.map Prod.snd = cs ++ c ∧ css.flatten = c ++ rest) ∨
        ∃ a, a ≠ [] ∧ cs = acs.map Prod.snd ++ a ∧ rest = a ++ css.flatten := by
      rcases List.append_eq_append_iff.1 hall with ⟨a, hcs, hrest'⟩ | ⟨c, hacs, hcss'⟩
      · by_cases ha : a = []
        · subst ha
          exact .inl ⟨[], by simpa using hcs.symm, by simpa using hrest'.symm⟩
        · exact .inr ⟨a, ha, hcs, hrest'⟩
      · exact .inl ⟨c, hacs, hcss'⟩
    rcases hends with ⟨c, hacs, hflat⟩ | ⟨a, ha, hcs, hrest'⟩
    · obtain ⟨acs₁, acs₂, rfl, hcs, hc⟩ := List.map_eq_append_iff.1 hacs
      have hlater : acs₂.map Prod.snd ++ rest = css.flatten := by rw [hc, ← hflat]
      obtain ⟨parts, ds, hcut, his, hds⟩ := ih hfull' hlater
      refine ⟨(i, acs₁) :: parts, ds, ⟨by simp [hcut.stream], fun x hx => ?_⟩, by simp [his], hds⟩
      rcases List.mem_cons.1 hx with rfl | hx
      · rw [hcs]
        exact hi
      · exact hcut.chunks x hx
    · -- the stream ends before this item, which is a directory
      rw [hrest', dataChunks_append, List.append_eq_nil_iff] at hrest
      cases i with
      | file rel t data =>
        exfalso
        have hdata := ItemChunks.data_chunks rfl hi
        rw [hcs, dataChunks_append, hrest.1] at hdata
        have hlen := congrArg List.length hdata
        have hle : (dataChunks (acs.map Prod.snd)).length ≤ (acs.map Prod.snd).length :=
          List.length_filter_le _ _
        have hpos := List.length_pos_of_ne_nil ha
        simp only [List.length_append, List.length_nil] at hlen
        omega
      | dir rel =>
        have hnil : acs = [] := by
          have hlen := congrArg List.length (hcs.symm.trans hi)
          simp only [List.length_append, List.length_map, List.length_singleton] at hlen
          have hpos := List.length_pos_of_ne_nil ha
          exact List.length_eq_zero_iff.1 (by omega)
        subst hnil
        have hnone : files is = [] := files_of_no_data hfull' hcss hrest.2
        exact ⟨[], .dir rel :: is, ⟨rfl, by simp⟩, rfl, hnone⟩

end parts

/-! ## Section 3: Files that are opened -/

def Item.location (destination : PathBuf) (i : Item) : Path := resolve (i.target destination)

/-- The second item is no file with the path of the first. -/
def Distinguished (i j : Item) : Prop := j.isFile = true → i.sanitized ≠ j.sanitized

section opened

variable {checks : Bool} {destination : PathBuf} {is : List Item}

theorem isChain_congr {i j : Item} (hsame : i.sanitized = j.sanitized) :
    (i :: is).IsChain Distinguished ↔ (j :: is).IsChain Distinguished := by
  simp only [List.isChain_cons, Distinguished, hsame]

/-- Every file after the item is opened exactly if each one is distinguished from
    the item before it. -/
theorem files_destutter'_iff (i : Item) (is : List Item) :
    files (List.destutter' (fun i j : Item => i.sanitized ≠ j.sanitized) i is) = files (i :: is) ↔
      (i :: is).IsChain Distinguished := by
  induction is generalizing i with
  | nil => simp
  | cons j is ih =>
    rw [List.isChain_cons_cons]
    by_cases hsame : i.sanitized = j.sanitized
    · rw [List.destutter'_cons_neg _ (by simpa using hsame)]
      cases hj : j.isFile with
      | true =>
        -- the file is not opened
        refine iff_of_false (fun heq => ?_) fun h => h.1 hj hsame
        have hle : (files (List.destutter' (fun i j : Item => i.sanitized ≠ j.sanitized) i
            is)).length ≤ (files (i :: is)).length :=
          ((List.destutter'_sublist _ _ i).filter _).length_le
        rw [heq] at hle
        cases hi : i.isFile with
        | true =>
          rw [files_cons_file hi, files_cons_file hi, files_cons_file hj] at hle
          simp only [List.length_cons] at hle
          omega
        | false =>
          rw [files_cons_dir hi, files_cons_dir hi, files_cons_file hj] at hle
          simp only [List.length_cons] at hle
          omega
      | false =>
        have hfiles : files (i :: j :: is) = files (i :: is) := by
          cases hi : i.isFile with
          | true => rw [files_cons_file hi, files_cons_file hi, files_cons_dir hj]
          | false => rw [files_cons_dir hi, files_cons_dir hi, files_cons_dir hj]
        have hdist : Distinguished i j := fun hfile => by rw [hj] at hfile; cases hfile
        rw [hfiles, ih i, isChain_congr hsame]
        simp [hdist]
    · rw [List.destutter'_cons_pos _ hsame]
      have hdist : Distinguished i j := fun _ => hsame
      rw [and_iff_right hdist, ← ih j]
      cases hi : i.isFile with
      | true => rw [files_cons_file hi, files_cons_file hi, List.cons_inj_right]
      | false => rw [files_cons_dir hi, files_cons_dir hi]

theorem files_opened_iff (hsends : ∀ i ∈ is, i.sends = true) :
    files (opened is) = files is ↔ is.IsChain Distinguished := by
  unfold opened
  rw [List.filter_eq_self.2 hsends]
  cases is with
  | nil => simp
  | cons i is => exact files_destutter'_iff i is

theorem files_opened_sublist (hsends : ∀ i ∈ is, i.sends = true) :
    (files (opened is)).Sublist (files is) := by
  unfold opened
  rw [List.filter_eq_self.2 hsends]
  exact (List.destutter_sublist _ _).filter _

theorem creates_calls (i : Item) :
    (i.calls destination).filterMap FsCall.creates
      = if i.isFile then [i.location destination] else [] := by
  unfold Item.calls creationCalls
  cases i.isFile with
  | true => cases parent (i.target destination) <;> rfl
  | false => rfl

theorem creates_flatMap (is : List Item) :
    (is.flatMap (Item.calls destination)).filterMap FsCall.creates
      = (files is).map (Item.location destination) := by
  induction is with
  | nil => rfl
  | cons i is ih =>
    rw [List.flatMap_cons, List.filterMap_append, creates_calls, ih]
    cases hi : i.isFile with
    | true => rw [files_cons_file hi]; rfl
    | false => rw [files_cons_dir hi]; rfl

theorem CutInto.forall₂ {acs : ChunkStream} {parts : List Part} (h : CutInto acs parts) :
    List.Forall₂ ItemChunks (parts.map Prod.fst) (parts.map fun x => x.2.map Prod.snd) := by
  rw [List.forall₂_map_left_iff, List.forall₂_map_right_iff, List.forall₂_same]
  exact h.chunks

/-- The files created for a stream are those of the opened items. -/
theorem CutInto.created {acs : ChunkStream} {parts : List Part} {node : Path → Option Node}
    {r : Receiver} (h : CutInto acs parts)
    (hrun : processAll checks destination acs (.start node) = .ok r) :
    r.disk.created = (files (opened (parts.map Prod.fst))).map (Item.location destination) := by
  have hchunks : acs.map Prod.snd = (parts.map fun x => x.2.map Prod.snd).flatten := by
    rw [← h.stream, List.map_flatMap, List.flatMap_def]
  have hcalls : r.disk.calls = chunkCalls destination none (acs.map Prod.snd) := by
    simpa [Receiver.start, ReceiveState.new] using processAll_calls hrun
  rw [hchunks, chunkCalls_items h.forall₂, callsFrom_none] at hcalls
  rw [Disk.created, hcalls, creates_flatMap]

end opened

/-! ## Section 4: Files that are kept apart -/

/-- The source files have targets of their own, and none of them comes directly
    after an item that the receiver takes for the same one. -/
structure Separate (destination : PathBuf) (is : List Item) : Prop where
  targets : ((files is).map (Item.location destination)).Nodup
  neighbours : is.IsChain Distinguished

section apart

variable {checks : Bool} {destination : PathBuf}

theorem landed_of_not_late {fault : Option Fault} {data : List UInt8}
    (h : ∀ e, fault ≠ some (.late e)) : landed fault data = data := by
  unfold landed
  split
  · next e => exact absurd rfl (h e)
  · rfl

theorem file_landed {ans : IoAnswers} {rel : String} {t : Option FileTime} {data : List UInt8}
    {acs : ChunkStream} (hland : NoLateWrite ((ans, .ofFile rel t data) :: acs)) :
    landed ans.write (FileChunk.ofFile rel t data).chunk = data ∧ NoLateWrite acs :=
  ⟨landed_of_not_late (hland _ List.mem_cons_self rfl),
    fun ac hac => hland ac (List.mem_cons_of_mem _ hac)⟩

theorem file_path {ans : IoAnswers} {rel : String} {t : Option FileTime} {data : List UInt8}
    {r r' : Receiver} (h : processChunk checks destination ans (.ofFile rel t data) r = .ok r') :
    r'.state.currentPath = some (sanitizePathComponent rel) := by
  rw [(processChunk_calls h).2, pathAfter, ofFile_kind]
  rfl

/-- The later chunks of a file are appended to the open file. -/
theorem later_bytes {rel : String} {t : Option FileTime} {data : List UInt8} {acs : ChunkStream}
    {r r' : Receiver} {file : OpenFile} (hchunks : FileChunks rel t data (acs.map Prod.snd))
    (hland : NoLateWrite acs) (hcurrent : r.state.currentPath = some (sanitizePathComponent rel))
    (hfile : r.state.currentFile = some file)
    (h : processAll checks destination acs r = .ok r') :
    r'.state.currentPath = some (sanitizePathComponent rel) ∧
      r'.disk.bytesAt = Function.update r.disk.bytesAt file.location
        ((r.disk.bytesAt file.location).map (· ++ data)) := by
  induction acs generalizing t data r file with
  | nil =>
    cases h
    cases hchunks with
    | eof t => exact ⟨hcurrent, by simp⟩
  | cons ac acs ih =>
    obtain ⟨ans, c⟩ := ac
    obtain ⟨r₁, hstep, hrest⟩ := processAll_cons_ok h
    obtain ⟨head, tail, rfl, rfl, _, htail⟩ := hchunks.first
    obtain ⟨hlanded, hland'⟩ := file_landed hland
    -- with its path current and its file open, every later chunk appends
    cases processChunk_effect hstep with
    | idles hnot _ =>
      have hnone := (hnot (ofFile_kind _ _ _)).2
      rw [hfile] at hnone
      cases hnone
    | opens _ _ hnot => exact absurd hcurrent hnot
    | appends file₀ file' _ hfile₀ hfile' hlocation hbytes =>
      obtain rfl : file = file₀ := Option.some.inj (hfile.symm.trans hfile₀)
      obtain ⟨hcurrent', hbytes'⟩ := ih htail hland' (file_path hstep) hfile' hrest
      refine ⟨hcurrent', ?_⟩
      rw [hlanded] at hbytes
      rw [hbytes', hbytes, hlocation, Function.update_self, Function.update_idem]
      simp [Function.comp_def]

/-- All chunks of an item.  A file with bytes, its path not the current one, ends
    up with them; a directory changes no file. -/
theorem item_bytes {i : Item} {acs : ChunkStream} {r r' : Receiver}
    (hchunks : ItemChunks i (acs.map Prod.snd)) (hland : NoLateWrite acs)
    (hfull : i.isFile = true → i.data ≠ [])
    (hnot : i.isFile = true → r.state.currentPath ≠ some i.sanitized)
    (h : processAll checks destination acs r = .ok r') :
    r'.state.currentPath = some i.sanitized ∧
      r'.disk.bytesAt = if i.isFile
        then Function.update r.disk.bytesAt (i.location destination) (some i.data)
        else r.disk.bytesAt := by
  cases i with
  | dir rel =>
    obtain ⟨⟨ans, c⟩, rfl, hc⟩ := List.map_eq_singleton_iff.1 hchunks
    obtain rfl : c = .ofDirectory rel := hc
    obtain ⟨r₁, hstep, hnil⟩ := processAll_cons_ok h
    obtain rfl : r₁ = r' := Outcome.ok.inj hnil
    have hpath := (processChunk_calls hstep).2
    rw [pathAfter, ofDirectory_kind] at hpath
    refine ⟨hpath, ?_⟩
    show r₁.disk.bytesAt = r.disk.bytesAt
    cases processChunk_effect hstep with
    | idles _ hbytes => exact hbytes
    | appends file _ _ _ _ _ hbytes =>
      -- a directory chunk has no bytes
      have hnothing : landed ans.write (FileChunk.ofDirectory rel).chunk = [] := by
        unfold landed
        split <;> rfl
      rw [hbytes, hnothing]
      simp
    | opens _ hkind => rw [ofDirectory_kind] at hkind; cases hkind
  | file rel t data =>
    cases acs with
    | nil =>
      cases hchunks with
      | eof t => exact absurd rfl (hfull rfl)
    | cons ac acs =>
      obtain ⟨ans, c⟩ := ac
      obtain ⟨r₁, hstep, hrest⟩ := processAll_cons_ok h
      obtain ⟨head, tail, rfl, rfl, _, htail⟩ := FileChunks.first hchunks
      obtain ⟨hlanded, hland'⟩ := file_landed hland
      cases processChunk_effect hstep with
      | idles hsame _ => exact absurd (hsame (ofFile_kind _ _ _)).1 (hnot rfl)
      | appends _ _ hsame => exact absurd hsame (hnot rfl)
      | opens file _ _ hfile hlocation hbytes =>
        -- the first chunk creates the file, the others are appended
        obtain ⟨hcurrent', hbytes'⟩ := later_bytes htail hland' (file_path hstep) hfile hrest
        refine ⟨hcurrent', ?_⟩
        rw [hlanded] at hbytes
        rw [hbytes', hbytes, hlocation, Function.update_self, Function.update_idem,
          Option.map_some]
        exact (if_pos rfl).symm

/-- The files of separate items hold their bytes, and no other file changes. -/
theorem parts_bytes {parts : List Part} {r r' : Receiver}
    (hchunks : ∀ x ∈ parts, ItemChunks x.1 (x.2.map Prod.snd))
    (hland : ∀ x ∈ parts, NoLateWrite x.2)
    (hfull : ∀ i ∈ files (parts.map Prod.fst), i.data ≠ [])
    (hfresh : ∀ i ∈ (parts.map Prod.fst).head?, i.isFile = true →
      r.state.currentPath ≠ some i.sanitized)
    (hseparate : Separate destination (parts.map Prod.fst))
    (h : processAll checks destination (parts.flatMap Prod.snd) r = .ok r') :
    (∀ i ∈ files (parts.map Prod.fst), r'.disk.bytesAt (i.location destination) = some i.data) ∧
      ∀ l ∉ (files (parts.map Prod.fst)).map (Item.location destination),
        r'.disk.bytesAt l = r.disk.bytesAt l := by
  induction parts generalizing r with
  | nil =>
    cases h
    exact ⟨by simp [files], fun _ _ => rfl⟩
  | cons x parts ih =>
    obtain ⟨i, acs⟩ := x
    rw [List.flatMap_cons] at h
    obtain ⟨r₁, hitem, hrest⟩ := processAll_append_ok h
    obtain ⟨hnodup, hchain⟩ := hseparate
    rw [List.map_cons] at hfull hnodup hchain ⊢
    obtain ⟨hhead, htail⟩ := List.isChain_cons.1 hchain
    have hmemFull : i.isFile = true → i.data ≠ [] := fun hi =>
      hfull i (by rw [files_cons_file hi]; exact List.mem_cons_self)
    obtain ⟨hcurrent, hbytes⟩ := item_bytes (hchunks _ List.mem_cons_self)
      (hland _ List.mem_cons_self) hmemFull (hfresh i rfl) hitem
    -- the item is the current path, and the next file is told apart from it
    have hfresh' : ∀ j ∈ (parts.map Prod.fst).head?, j.isFile = true →
        r₁.state.currentPath ≠ some j.sanitized := by
      intro j hj hjfile heq
      rw [hcurrent, Option.some.injEq] at heq
      exact hhead j hj hjfile heq
    have hchunks' := fun x hx => hchunks x (List.mem_cons_of_mem _ hx)
    have hland' := fun x hx => hland x (List.mem_cons_of_mem _ hx)
    cases hi : i.isFile with
    | false =>
      rw [files_cons_dir hi] at hfull hnodup ⊢
      rw [hi, if_neg (by simp)] at hbytes
      obtain ⟨hstored, hothers⟩ := ih hchunks' hland' hfull hfresh' ⟨hnodup, htail⟩ hrest
      exact ⟨hstored, fun l hl => (hothers l hl).trans (congrFun hbytes l)⟩
    | true =>
      rw [files_cons_file hi] at hfull hnodup ⊢
      rw [hi, if_pos rfl] at hbytes
      rw [List.map_cons, List.nodup_cons] at hnodup
      obtain ⟨hstored, hothers⟩ := ih hchunks' hland'
        (fun j hj => hfull j (List.mem_cons_of_mem _ hj)) hfresh' ⟨hnodup.2, htail⟩ hrest
      refine ⟨fun j hj => ?_, fun l hl => ?_⟩
      · rcases List.mem_cons.1 hj with rfl | hj
        · -- no later file has this target
          rw [hothers _ hnodup.1, hbytes, Function.update_self]
        · exact hstored j hj
      · rw [List.map_cons, List.mem_cons, not_or] at hl
        rw [hothers l hl.2, hbytes, Function.update_of_ne hl.1]

end apart

/-! ## Section 5: Whole transfers -/

/-- Every source file has a created file of its own that holds exactly its bytes,
    and every regular file in the destination is one of those. -/
def Unmixed (destination : PathBuf) (is : List Item) (d : Disk) : Prop :=
  ∃ locs : List Path, locs.Nodup ∧ locs ⊆ d.created ∧
    List.Forall₂ (fun i l => d.bytesAt l = some i.data) (files is) locs ∧
    ∀ l, resolve destination.components <+: l → (d.bytesAt l).isSome → l ∈ locs

section transfers

variable {checks : Bool} {destination : PathBuf} {sources : List Source} {is : List Item}
  {d : Disk}

theorem total_of_forall₂ {locs : List Path}
    (h : List.Forall₂ (fun (i : Item) l => d.bytesAt l = some i.data) is locs) :
    total d.bytesAt locs = itemBytes is := by
  induction h with
  | nil => rfl
  | @cons i l is locs hi _ ih =>
    rw [itemBytes_cons, ← ih]
    simp [total, hi]

theorem itemChunks_data {i : Item} {cs : List FileChunk} (h : ItemChunks i cs) :
    ∀ c ∈ cs, c.isData = true → c.chunk ≠ [] := by
  cases i with
  | dir rel =>
    obtain rfl : cs = [.ofDirectory rel] := h
    intro c hc hdata
    rw [List.mem_singleton] at hc
    subst hc
    cases hdata
  | file rel t data =>
    change FileChunks rel t data cs at h
    induction h with
    | eof t => simp
    | read t data rest cs hne _ ih =>
      intro c hc hdata
      rcases List.mem_cons.1 hc with rfl | hc
      · exact hne
      · exact ih c hc hdata

theorem CutInto.data_ne_nil {acs : ChunkStream} {parts : List Part} (h : CutInto acs parts) :
    ∀ ac ∈ acs, ac.2.isData = true → ac.2.chunk ≠ [] := by
  intro ac hac
  rw [← h.stream] at hac
  obtain ⟨x, hx, hac⟩ := List.mem_flatMap.1 hac
  exact itemChunks_data (h.chunks x hx) ac.2 (List.mem_map_of_mem hac)

/-- Directories at the end make no difference. -/
theorem separate_append {ds : List Item} (hds : files ds = []) :
    Separate destination (is ++ ds) ↔ Separate destination is := by
  have hfiles : files (is ++ ds) = files is := by
    rw [files, List.filter_append]
    exact (congrArg _ hds).trans (List.append_nil _)
  have hdir : ∀ i j, j ∈ ds → Distinguished i j := by
    intro i j hj hfile
    have hmem : j ∈ files ds := List.mem_filter.2 ⟨hj, hfile⟩
    rw [hds] at hmem
    cases hmem
  constructor
  · rintro ⟨htargets, hchain⟩
    exact ⟨hfiles ▸ htargets, hchain.left_of_append⟩
  · rintro ⟨htargets, hchain⟩
    refine ⟨hfiles.symm ▸ htargets, List.isChain_append.2 ⟨hchain, ?_, ?_⟩⟩
    · exact (List.pairwise_of_forall_mem_list fun i _ j hj => hdir i j hj).isChain
    · intro i _ j hj
      exact hdir i j (List.mem_of_mem_head? hj)

theorem bytesAt_start {node : Path → Option Node} (h : EmptyDestination destination node) {l : Path}
    (hl : resolve destination.components <+: l) : (Receiver.start node).disk.bytesAt l = none := by
  show Disk.bytesAt { node := node, calls := [] } l = none
  unfold Disk.bytesAt
  by_cases heq : l = resolve destination.components
  · simp [h.above l (by rw [heq])]
  · simp [h.below l hl heq]

/-- Where as many distinct files are created as there are source files, these are
    separate. -/
theorem separate_of_created {locs : List Path} (hsends : ∀ i ∈ is, i.sends = true)
    (hopened : d.created = (files (opened is)).map (Item.location destination))
    (hnodup : locs.Nodup) (hsub : locs ⊆ d.created) (hlen : (files is).length = locs.length) :
    Separate destination is := by
  have hsubperm := hnodup.subperm hsub
  have hle := hsubperm.length_le
  rw [← hlen, hopened, List.length_map] at hle
  -- every source file is opened
  have hall : files (opened is) = files is := (files_opened_sublist hsends).eq_of_length_le hle
  rw [hall] at hopened
  -- and the files created are the distinct ones
  have hperm : locs.Perm d.created :=
    hsubperm.perm_of_length_le (by rw [hopened, List.length_map, hlen])
  exact ⟨hopened ▸ hperm.nodup_iff.1 hnodup, (files_opened_iff hsends).1 hall⟩

/-- The last round changes no contents and creates nothing. -/
theorem end_keeps {fault : Option IoErrorKind} {result : Except TransferError Bool}
    {r r' : Receiver} (h : receiveRound checks destination fault r .endOfStream = .done result r') :
    r'.disk.bytesAt = r.disk.bytesAt ∧ r'.disk.created = r.disk.created := by
  simp only [receiveRound, leaveLoop] at h
  split at h
  · next hfin =>
    cases h
    refine ⟨(finalize_bytes hfin).1, ?_⟩
    rw [Disk.created, (finalize_grows hfin).2]
    rfl
  · next hfin => exact absurd hfin (finalizeCurrentFile_ne_err _ _ _ _ _)
  · cases h

/-- Of a stream that has been processed to its end, every source file is kept apart
    from the others exactly if the sender has lost no bytes, the files have targets
    of their own, none of them is taken for the item before it, and no write fails
    late. -/
theorem unmixed_iff_separate {ls : List SendLabel} {s' : Sender}
    {result : Except TransferError Bool} {acs : ChunkStream} {node : Path → Option Node}
    {fault : Option IoErrorKind} {r r' : Receiver}
    (hsend : sender.exec (.start sources) ls = some s') (hret : s'.pc = .returned result)
    (hfull : ∀ i ∈ files (allItems sources), i.data ≠ []) (hacs : acs.map Prod.snd = s'.handed)
    (hempty : EmptyDestination destination node)
    (hrun : processAll checks destination acs (.start node) = .ok r)
    (hend : receiveRound checks destination fault r .endOfStream = .done (.ok true) r') :
    Unmixed destination (allItems sources) r'.disk ↔
      sender.Along NoLoss (.start sources) ls ∧ Separate destination (allItems sources) ∧
        NoLateWrite acs := by
  obtain ⟨hbytes, hcreated⟩ := end_keeps hend
  -- without a loss the stream is cut into items, whose files are those of the sources
  have hcut : sender.Along NoLoss (.start sources) ls → ∃ parts ds, CutInto acs parts ∧
      allItems sources = parts.map Prod.fst ++ ds ∧ files ds = [] ∧
      files (allItems sources) = files (parts.map Prod.fst) ∧
      (∀ i ∈ parts.map Prod.fst, i.sends = true) ∧
      chunkBytes s'.handed ≤ itemBytes (allItems sources) := by
    intro hloss
    obtain ⟨rest, hrest, hemits⟩ := emits_of_noLoss hsend hloss hret
    obtain ⟨css, hcss, hitems⟩ := hemits.items
    obtain ⟨parts, ds, hparts, hall, hds⟩ := exists_parts hfull hitems (hacs ▸ hcss) hrest
    have hfiles : files (allItems sources) = files (parts.map Prod.fst) := by
      rw [hall, files, List.filter_append]
      exact (congrArg _ hds).trans (List.append_nil _)
    refine ⟨parts, ds, hparts, hall, hds, hfiles, fun i hi => ?_, ?_⟩
    · cases i with
      | dir rel => rfl
      | file rel t data =>
        have hmem : Item.file rel t data ∈ files (allItems sources) := by
          rw [hfiles]
          exact List.mem_filter.2 ⟨hi, rfl⟩
        simpa [Item.sends, Item.data] using hfull _ hmem
    · rw [hemits.bytes, chunkBytes_append]
      omega
  constructor
  · rintro ⟨locs, hnodup, hsub, hall, _⟩
    -- the bytes of the sources are no more than those that have reached the files
    have hstart : HoldsAtMost (Receiver.start node).disk 0 := by
      intro locs _ hsub
      have hnil : locs = [] := List.subset_nil.1 hsub
      subst hnil
      exact le_rfl
    have hlanded : itemBytes (allItems sources) ≤ landedBytes acs := by
      have hle := processAll_holdsAtMost hrun hstart locs hnodup (hcreated ▸ hsub)
      rwa [← hbytes, total_of_forall₂ hall, itemBytes_files, Nat.zero_add] at hle
    have hhanded : landedBytes acs ≤ chunkBytes s'.handed := hacs ▸ landedBytes_le acs
    have hloss := noLoss_of_bytes hsend (hlanded.trans hhanded)
    obtain ⟨parts, ds, hparts, hitems, hds, hfiles, hsends, hle⟩ := hcut hloss
    have hopened := hparts.created hrun
    have hseparate : Separate destination (parts.map Prod.fst) :=
      separate_of_created hsends (hcreated ▸ hopened) hnodup hsub (by rw [← hfiles, hall.length_eq])
    rw [hitems, separate_append hds]
    exact ⟨hloss, hseparate, noLateWrite_of_landed hparts.data_ne_nil (by rw [hacs]; omega)⟩
  · rintro ⟨hloss, hseparate, hlate⟩
    obtain ⟨parts, ds, hparts, hitems, hds, hfiles, hsends, _⟩ := hcut hloss
    have hsep := (separate_append hds).1 (hitems ▸ hseparate)
    have hlate' : ∀ x ∈ parts, NoLateWrite x.2 := by
      intro x hx ac hac
      refine hlate ac ?_
      rw [← hparts.stream]
      exact List.mem_flatMap.2 ⟨x, hx, hac⟩
    obtain ⟨hstored, hothers⟩ := parts_bytes hparts.chunks hlate' (hfiles ▸ hfull)
      (fun i _ _ => by simp [Receiver.start, ReceiveState.new]) hsep (hparts.stream.symm ▸ hrun)
    refine ⟨(files (allItems sources)).map (Item.location destination), hseparate.targets, ?_, ?_,
      ?_⟩
    · rw [hcreated, hparts.created hrun, (files_opened_iff hsends).2 hsep.neighbours, hfiles]
      exact List.Subset.refl _
    · rw [List.forall₂_map_right_iff, List.forall₂_same, hbytes, hfiles]
      exact hstored
    · -- any other location is as empty as it was
      intro l hl hsome
      by_contra hnot
      rw [hfiles] at hnot
      rw [hbytes, hothers l hnot, bytesAt_start hempty hl] at hsome
      cases hsome

end transfers

/-- The two files of the directory `/s` arrive unmixed. -/
theorem pairSource_unmixed :
    ∃ r', (∃ r, processAll true (OsString.ofString "/d") pairStream
        (.start (emptyTree (OsString.ofString "/d"))) = .ok r ∧
      receiveRound true (OsString.ofString "/d") none r .endOfStream = .done (.ok true) r') ∧
      Unmixed (OsString.ofString "/d") (allItems [pairSource]) r'.disk := by
  have hsend : ∃ s', sender.exec (.start [pairSource]) pairRun = some s' ∧
      s'.pc = .returned (.ok true) ∧ pairStream.map Prod.snd = s'.handed :=
    ⟨_, rfl, rfl, by decide⟩
  obtain ⟨s', hsend, hret, hhanded⟩ := hsend
  have hreceive : ∃ r r', processAll true (OsString.ofString "/d") pairStream
        (.start (emptyTree (OsString.ofString "/d"))) = .ok r ∧
      receiveRound true (OsString.ofString "/d") none r .endOfStream = .done (.ok true) r' :=
    ⟨_, _, rfl, rfl⟩
  obtain ⟨r, r', hrun, hend⟩ := hreceive
  have hfull : ∀ i ∈ files (allItems [pairSource]), i.data ≠ [] := by decide
  have hlocations : (files (allItems [pairSource])).map (Item.location (OsString.ofString "/d"))
      = [resolve (PathBuf.components (OsString.ofString "/d/s/a")),
        resolve (PathBuf.components (OsString.ofString "/d/s/b"))] := rfl
  have hseparate : Separate (OsString.ofString "/d") (allItems [pairSource]) :=
    ⟨by rw [hlocations]; decide, List.isChain_pair.2 fun _ => by decide⟩
  have hlate : NoLateWrite pairStream := by
    intro ac hac _ e
    rcases List.mem_cons.1 hac with rfl | hac
    · exact nofun
    · obtain rfl := List.mem_singleton.1 hac
      exact nofun
  have hloss : sender.Along NoLoss (.start [pairSource]) pairRun :=
    noLoss_of_bytes hsend (by rw [← hhanded]; decide)
  refine ⟨r', ⟨r, hrun, hend⟩, ?_⟩
  exact (unmixed_iff_separate hsend hret hfull hhanded (emptyDestination_emptyTree _) hrun hend).2
    ⟨hloss, hseparate, hlate⟩

/-- Two files of one byte with the same name. -/
def sameName : List Source :=
  [⟨OsString.ofString "/a/x", .file [1] none⟩, ⟨OsString.ofString "/b/x", .file [2] none⟩]

def sameNameRun : List SendLabel :=
  [.poll false, .io none, .io none, .poll false, .read (.ok 1), .send true, .progress 1,
    .poll false, .read (.ok 0), .poll false, .io none, .io none, .poll false, .read (.ok 1),
    .send true, .progress 1, .poll false, .read (.ok 0)]

def sameNameStream : ChunkStream :=
  [(.good 1, .ofFile "x" none [1]), (.good 1, .ofFile "x" none [2])]

/-- Nothing fails, both sides complete, and one file holds the bytes of both. -/
theorem same_name_mixed :
    ∃ s' r r', sender.exec (.start sameName) sameNameRun = some s' ∧
      s'.pc = .returned (.ok true) ∧ sameNameStream.map Prod.snd = s'.handed ∧
      processAll true (OsString.ofString "/d") sameNameStream
        (.start (emptyTree (OsString.ofString "/d"))) = .ok r ∧
      receiveRound true (OsString.ofString "/d") none r .endOfStream = .done (.ok true) r' ∧
      r'.disk.bytesAt (resolve (PathBuf.components (OsString.ofString "/d/x"))) = some [1, 2] ∧
      ¬ Unmixed (OsString.ofString "/d") (allItems sameName) r'.disk := by
  have hrun : ∃ s' r r', sender.exec (.start sameName) sameNameRun = some s' ∧
      s'.pc = .returned (.ok true) ∧ sameNameStream.map Prod.snd = s'.handed ∧
      processAll true (OsString.ofString "/d") sameNameStream
        (.start (emptyTree (OsString.ofString "/d"))) = .ok r ∧
      receiveRound true (OsString.ofString "/d") none r .endOfStream = .done (.ok true) r' ∧
      r'.disk.bytesAt (resolve (PathBuf.components (OsString.ofString "/d/x"))) = some [1, 2] ∧
      r'.disk.created = [resolve (PathBuf.components (OsString.ofString "/d/x"))] :=
    ⟨_, _, _, rfl, rfl, by decide, rfl, rfl, by decide, by decide⟩
  obtain ⟨s', r, r', hsend, hret, hhanded, hreceive, hend, hbytes, hcreated⟩ := hrun
  refine ⟨s', r, r', hsend, hret, hhanded, hreceive, hend, hbytes, ?_⟩
  rintro ⟨locs, _, hsub, hall, _⟩
  -- the file of the first source is the only one created
  cases hall with
  | @cons _ l _ _ hfirst _ =>
    have hl := hsub List.mem_cons_self
    rw [hcreated, List.mem_singleton] at hl
    rw [hl, hbytes] at hfirst
    revert hfirst
    decide

end Warpinator
