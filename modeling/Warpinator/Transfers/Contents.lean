import Warpinator.Transfers.Omissions

/-! # Contents of the Received Files

    The destination seen as a function from locations to bytes, times and
    directories left out.  `processChunk_effect` says once what a chunk that is
    processed does to it: nothing, an append to the open file, or a new file.

    Counting the bytes at distinct locations bounds what a stream can leave in
    the files that it creates (`processAll_holdsAtMost`). -/

namespace Warpinator

open LexPath

/-! ## Section 1: Files and their bytes -/

/-- The bytes of the regular file at a location. -/
def Disk.bytesAt (d : Disk) (l : Path) : Option (List UInt8) :=
  match d.node l with
  | some (.file f) => some f.bytes
  | _ => none

/-- The location that a call of `File::create` resolves to. -/
def FsCall.creates : FsCall → Option Path
  | .createDirAll _ => none
  | .createFile p => some (resolve p)

/-- The locations passed to `File::create` so far, oldest first. -/
def Disk.created (d : Disk) : List Path := d.calls.filterMap FsCall.creates

/-- The bytes of a write that reach the file when `write_all` returns `Ok`. -/
def landed (fault : Option Fault) (data : List UInt8) : List UInt8 :=
  match fault with
  | some (.late _) => []
  | _ => data

section contents

variable {d d' : Disk}

theorem bytesAt_setNode (d : Disk) (l : Path) (f : FileData) :
    (d.setNode l (.file f)).bytesAt = Function.update d.bytesAt l (some f.bytes) := by
  funext l'
  by_cases hl : l' = l
  · subst hl
    simp [Disk.bytesAt]
  · simp [Disk.bytesAt, hl]

theorem bytesAt_append (d : Disk) (l : Path) (data : List UInt8) :
    (d.append l data).bytesAt
      = Function.update d.bytesAt l ((d.bytesAt l).map (· ++ data)) := by
  unfold Disk.append
  split
  · next f hnode =>
    have hbytes : d.bytesAt l = some f.bytes := by simp [Disk.bytesAt, hnode]
    rw [bytesAt_setNode, hbytes]
    rfl
  · next hnode =>
    have hbytes : d.bytesAt l = none := by
      unfold Disk.bytesAt
      split
      · next f hf => exact absurd hf (hnode f)
      · rfl
    rw [hbytes, Option.map_none, ← hbytes, Function.update_eq_self]

theorem bytesAt_writeAll {fault : Option Fault} {file file' : OpenFile} {data : List UInt8}
    (h : d.writeAll fault file data = (.ok file', d')) :
    file'.location = file.location ∧
      d'.bytesAt = Function.update d.bytesAt file.location
        ((d.bytesAt file.location).map (· ++ landed fault data)) := by
  have hsame : Function.update d.bytesAt file.location
      ((d.bytesAt file.location).map (· ++ [])) = d.bytesAt := by simp
  unfold Disk.writeAll at h
  split at h
  · next hdata =>
    subst hdata
    cases h
    have hnothing : landed fault [] = [] := by
      unfold landed
      split <;> rfl
    rw [hnothing]
    exact ⟨rfl, hsame.symm⟩
  · split at h
    · cases h
    · split at h
      · cases h
      · cases h
        exact ⟨rfl, hsame.symm⟩
      · cases h
        exact ⟨rfl, bytesAt_append _ _ _⟩

theorem bytesAt_setTimes (fault : Option IoErrorKind) (file : OpenFile) (time : SystemTime)
    (d : Disk) : (d.setTimes fault file time).bytesAt = d.bytesAt := by
  unfold Disk.setTimes
  split
  · next f hnode =>
    have hbytes : d.bytesAt file.location = some f.bytes := by simp [Disk.bytesAt, hnode]
    rw [bytesAt_setNode, ← hbytes, Function.update_eq_self]
  · rfl

theorem bytesAt_createDirAll (fault : Option IoErrorKind) (p : Path) (d : Disk) :
    (d.createDirAll fault p).2.bytesAt = d.bytesAt := by
  unfold Disk.createDirAll
  cases fault with
  | some e => rfl
  | none =>
    dsimp only
    split
    · rfl
    · funext l
      unfold Disk.bytesAt
      dsimp only
      split_ifs with hnew
      · rw [hnew.1]
      · rfl

theorem bytesAt_createFile {fault : Option IoErrorKind} {p : Path} {file : OpenFile}
    (h : d.createFile fault p = (.ok file, d')) :
    file.location = resolve p ∧ d'.bytesAt = Function.update d.bytesAt (resolve p) (some []) := by
  unfold Disk.createFile at h
  cases fault with
  | some e => cases h
  | none =>
    dsimp only at h
    split at h
    · cases h
    · split at h
      · cases h
      · cases h
        exact ⟨rfl, bytesAt_setNode _ _ _⟩

theorem created_of_calls {calls : List FsCall} (h : d'.calls = d.calls ++ calls) :
    d'.created = d.created ++ calls.filterMap FsCall.creates := by
  rw [Disk.created, h, List.filterMap_append]
  rfl

end contents

/-! ## Section 2: What a chunk does to them -/

def FileChunk.location (destination : PathBuf) (c : FileChunk) : Path :=
  resolve (c.target destination).components

section chunks

variable {checks : Bool} {destination : PathBuf} {ans : IoAnswers} {c : FileChunk}
  {r r' : Receiver}

theorem finalize_bytes {fault : Option IoErrorKind}
    (h : finalizeCurrentFile checks fault r = .ok r') :
    r'.disk.bytesAt = r.disk.bytesAt ∧ r'.state.currentFile = none := by
  unfold finalizeCurrentFile at h
  split at h
  · next hnone => cases h; exact ⟨rfl, hnone⟩
  · split at h
    · split at h
      · cases h
      · cases h; exact ⟨bytesAt_setTimes _ _ _ _, rfl⟩
    · cases h; exact ⟨rfl, rfl⟩

theorem writeChunk_bytes {data : List UInt8} {file : OpenFile}
    (hfile : r.state.currentFile = some file) (h : writeChunk ans data r = .ok r') :
    (∃ file', r'.state.currentFile = some file' ∧ file'.location = file.location) ∧
      r'.disk.bytesAt = Function.update r.disk.bytesAt file.location
        ((r.disk.bytesAt file.location).map (· ++ landed ans.write data)) := by
  simp only [writeChunk, hfile] at h
  split at h
  · cases h
  · next file' d' hwrite =>
    obtain ⟨hlocation, hbytes⟩ := bytesAt_writeAll hwrite
    cases h
    exact ⟨⟨file', rfl, hlocation⟩, hbytes⟩

theorem createParent_bytes (ans : IoAnswers) (target : PathBuf) (d : Disk) :
    (createParent ans target d).bytesAt = d.bytesAt := by
  unfold createParent
  split
  · exact bytesAt_createDirAll _ _ _
  · rfl

/-- The ways of a chunk that is processed, by what it does to the files. -/
inductive Effect (destination : PathBuf) (ans : IoAnswers) (c : FileChunk) (r r' : Receiver) :
    Prop where
  /-- A directory, or a file where the current path has no open file. -/
  | idles :
      (c.kind = .file → r.state.currentPath = some c.sanitized ∧ r.state.currentFile = none) →
      r'.disk.bytesAt = r.disk.bytesAt → Effect destination ans c r r'
  | appends (file file' : OpenFile) :
      r.state.currentPath = some c.sanitized → r.state.currentFile = some file →
      r'.state.currentFile = some file' → file'.location = file.location →
      r'.disk.bytesAt = Function.update r.disk.bytesAt file.location
        ((r.disk.bytesAt file.location).map (· ++ landed ans.write c.chunk)) →
      Effect destination ans c r r'
  | opens (file : OpenFile) :
      c.kind = .file → r.state.currentPath ≠ some c.sanitized →
      r'.state.currentFile = some file → file.location = c.location destination →
      r'.disk.bytesAt = Function.update r.disk.bytesAt (c.location destination)
        (some (landed ans.write c.chunk)) →
      Effect destination ans c r r'

theorem processChunk_effect (h : processChunk checks destination ans c r = .ok r') :
    Effect destination ans c r r' := by
  obtain ⟨hkind, rfl⟩ | ⟨hkind, hcurrent, hwrite⟩ | ⟨hkind, hcurrent, r₁, hfin, hopen⟩ :=
    processChunk_cases h
  · exact .idles (fun hfile => by rw [hkind] at hfile; cases hfile) rfl
  · cases hfile : r.state.currentFile with
    | none =>
      -- the bytes are dropped
      simp only [writeChunk, hfile] at hwrite
      cases hwrite
      exact .idles (fun _ => ⟨hcurrent, hfile⟩) rfl
    | some file =>
      obtain ⟨⟨file', hfile', hlocation⟩, hbytes⟩ := writeChunk_bytes hfile hwrite
      exact .appends file file' hcurrent hfile hfile' hlocation hbytes
  · obtain ⟨hfinBytes, _⟩ := finalize_bytes hfin
    unfold openTarget at hopen
    split at hopen
    · next hdir =>
      cases hopen
      refine .idles (fun hfile => by rw [hdir] at hfile; cases hfile) ?_
      exact (bytesAt_createDirAll _ _ _).trans hfinBytes
    · next hdir =>
      have hfile : c.kind = .file := by
        cases hk : c.kind with
        | file => rfl
        | directory => exact absurd hk hdir
        | symlink => exact absurd hk hkind
      split at hopen
      · cases hopen
      · next file d' hcreate =>
        obtain ⟨hlocation, hcreated⟩ := bytesAt_createFile hcreate
        obtain ⟨⟨file', hfile', hlocation'⟩, hbytes⟩ := writeChunk_bytes rfl hopen
        refine .opens file' hfile hcurrent hfile' (hlocation'.trans hlocation) ?_
        rw [hbytes]
        show Function.update d'.bytesAt file.location ((d'.bytesAt file.location).map _) = _
        rw [hcreated, hlocation, createParent_bytes, hfinBytes]
        simp [FileChunk.location]

/-- The files created by the calls of a chunk. -/
theorem creates_callsAfter (current : Option String) :
    (callsAfter destination current c).filterMap FsCall.creates
      = if c.kind = .file ∧ current ≠ some c.sanitized then [c.location destination] else [] := by
  unfold callsAfter FileChunk.calls creationCalls
  cases hkind : c.kind with
  | symlink => simp
  | directory => by_cases hcurrent : current = some c.sanitized <;> simp [hcurrent, FsCall.creates]
  | file =>
    by_cases hcurrent : current = some c.sanitized
    · simp [hcurrent]
    · simp only [reduceCtorEq, hcurrent, or_self, if_false, decide_false, Bool.false_eq_true, ne_eq,
        not_false_eq_true, and_self, if_true]
      cases parent (c.target destination).components <;> rfl

end chunks

/-! ## Section 3: Counting bytes -/

section counting

variable {checks : Bool} {destination : PathBuf}

/-- The number of bytes at the given locations. -/
def total (f : Path → Option (List UInt8)) (locs : List Path) : Nat :=
  (locs.map fun l => ((f l).getD []).length).sum

theorem total_perm (f : Path → Option (List UInt8)) {locs locs' : List Path}
    (h : locs.Perm locs') : total f locs = total f locs' :=
  (h.map _).sum_nat

theorem total_update_of_notMem {f : Path → Option (List UInt8)} {t : Path} {locs : List Path}
    (v : Option (List UInt8)) (h : t ∉ locs) :
    total (Function.update f t v) locs = total f locs := by
  unfold total
  refine congrArg List.sum (List.map_congr_left fun l hl => ?_)
  have hne : l ≠ t := fun heq => h (heq ▸ hl)
  rw [Function.update_of_ne hne]

/-- Only one of distinct locations is the one that changes. -/
theorem total_update (f : Path → Option (List UInt8)) (t : Path) (v : Option (List UInt8))
    {locs : List Path} (hnodup : locs.Nodup) :
    total (Function.update f t v) locs
      = total f (locs.erase t) + if t ∈ locs then (v.getD []).length else 0 := by
  by_cases ht : t ∈ locs
  · have hnot : t ∉ locs.erase t := hnodup.not_mem_erase
    rw [total_perm _ (List.perm_cons_erase ht), if_pos ht]
    show ((Function.update f t v t).getD []).length + total (Function.update f t v) _ = _
    rw [Function.update_self, total_update_of_notMem v hnot, Nat.add_comm]
  · rw [total_update_of_notMem v ht, List.erase_of_not_mem ht, if_neg ht, Nat.add_zero]

/-- The files created hold no more bytes than this. -/
def HoldsAtMost (d : Disk) (n : Nat) : Prop :=
  ∀ locs : List Path, locs.Nodup → locs ⊆ d.created → total d.bytesAt locs ≤ n

/-- A chunk adds at most the bytes that reach the file. -/
theorem processChunk_holdsAtMost {ans : IoAnswers} {c : FileChunk} {r r' : Receiver} {n : Nat}
    (h : processChunk checks destination ans c r = .ok r') (hn : HoldsAtMost r.disk n) :
    HoldsAtMost r'.disk (n + (landed ans.write c.chunk).length) := by
  have hcreated := created_of_calls (processChunk_calls h).1
  rw [creates_callsAfter] at hcreated
  intro locs hnodup hsub
  cases processChunk_effect h with
  | idles hnot hbytes =>
    rw [if_neg fun hopens => hopens.2 (hnot hopens.1).1, List.append_nil] at hcreated
    rw [hbytes]
    have hle := hn locs hnodup (hcreated ▸ hsub)
    omega
  | appends file file' hcurrent hfile hfile' hlocation hbytes =>
    rw [if_neg fun hopens => hopens.2 hcurrent, List.append_nil] at hcreated
    have hle := hn locs hnodup (hcreated ▸ hsub)
    have hself := total_update r.disk.bytesAt file.location (r.disk.bytesAt file.location) hnodup
    rw [Function.update_eq_self] at hself
    rw [hbytes, total_update _ _ _ hnodup]
    by_cases hmem : file.location ∈ locs
    · rw [if_pos hmem] at hself ⊢
      cases hat : r.disk.bytesAt file.location with
      | none =>
        simp only [Option.map_none, Option.getD_none, List.length_nil]
        omega
      | some data =>
        simp only [hat, Option.map_some, Option.getD_some, List.length_append] at hself ⊢
        omega
    · rw [if_neg hmem] at hself ⊢
      omega
  | opens file hkind hcurrent hfile hlocation hbytes =>
    rw [if_pos ⟨hkind, hcurrent⟩] at hcreated
    -- the other locations were created before
    have hsub' : locs.erase (c.location destination) ⊆ r.disk.created := by
      intro l hl
      have hne : l ≠ c.location destination := fun heq =>
        hnodup.not_mem_erase (heq ▸ hl)
      have hmem := hsub (List.erase_subset hl)
      rw [hcreated, List.mem_append, List.mem_singleton] at hmem
      exact hmem.resolve_right hne
    have hle := hn _ (hnodup.erase _) hsub'
    rw [hbytes, total_update _ _ _ hnodup, Option.getD_some]
    split <;> omega

/-- The bytes of a stream that reach the files. -/
def landedBytes (acs : ChunkStream) : Nat :=
  (acs.map fun ac => (landed ac.1.write ac.2.chunk).length).sum

theorem processAll_holdsAtMost {acs : ChunkStream} {r r' : Receiver} {n : Nat}
    (h : processAll checks destination acs r = .ok r') (hn : HoldsAtMost r.disk n) :
    HoldsAtMost r'.disk (n + landedBytes acs) := by
  induction acs generalizing r n with
  | nil =>
    cases h
    exact hn
  | cons ac acs ih =>
    obtain ⟨ans, c⟩ := ac
    obtain ⟨r₁, hstep, hrest⟩ := processAll_cons_ok h
    have hafter := ih hrest (processChunk_holdsAtMost hstep hn)
    rw [Nat.add_assoc] at hafter
    simpa [landedBytes] using hafter

theorem landed_length_le (fault : Option Fault) (data : List UInt8) :
    (landed fault data).length ≤ data.length := by
  unfold landed
  split <;> simp

theorem landedBytes_le (acs : ChunkStream) : landedBytes acs ≤ chunkBytes (acs.map Prod.snd) := by
  induction acs with
  | nil => exact le_rfl
  | cons ac acs ih =>
    have hle := landed_length_le ac.1.write ac.2.chunk
    simp only [landedBytes, List.map_cons, List.sum_cons, chunkBytes_cons] at ih ⊢
    omega

/-- No chunk of a file is written by a write that fails late. -/
def NoLateWrite (acs : ChunkStream) : Prop :=
  ∀ ac ∈ acs, ac.2.isData = true → ∀ e, ac.1.write ≠ some (.late e)

/-- Where all bytes reach the files, no write of bytes has failed late. -/
theorem noLateWrite_of_landed {acs : ChunkStream}
    (hfull : ∀ ac ∈ acs, ac.2.isData = true → ac.2.chunk ≠ [])
    (hall : chunkBytes (acs.map Prod.snd) ≤ landedBytes acs) : NoLateWrite acs := by
  induction acs with
  | nil => simp [NoLateWrite]
  | cons ac acs ih =>
    have hle := landed_length_le ac.1.write ac.2.chunk
    have hrest := landedBytes_le acs
    simp only [landedBytes, List.map_cons, List.sum_cons, chunkBytes_cons] at hall hrest ih
    intro ac' hac' hdata e hlate
    rcases List.mem_cons.1 hac' with rfl | hac'
    · have hpos := List.length_pos_of_ne_nil (hfull ac' List.mem_cons_self hdata)
      have hlost : landed ac'.1.write ac'.2.chunk = [] := by rw [hlate]; rfl
      rw [hlost, List.length_nil] at hall
      omega
    · exact ih (fun ac hac => hfull ac (List.mem_cons_of_mem _ hac)) (by omega) ac' hac' hdata e
        hlate

end counting

end Warpinator
