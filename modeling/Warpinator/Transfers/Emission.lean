import Warpinator.Transfers.Sender

/-! # What a Sender Emits

    The sources of a transfer are a list of items, directories and files, in
    the order in which the loops visit them.  `todo` is the list that a program
    point has still to send, `Emits` relates items to the chunks that carry
    them completely, and `sendStep_consumes` says once what a step does to
    both.

    A sender that leaves a loop early abandons data.  `NoLoss` is the condition
    that it abandons none.  `step_carries` and `step_short` follow the two sorts
    of steps: without a loss every file still reaches the receiver in full,
    after one the bytes can no longer add up. -/

namespace Warpinator

open LexPath

/-! ## Section 1: Items -/

inductive Item where
  | dir (rel : String)
  /-- `time` goes into the next chunk of the file. -/
  | file (rel : String) (time : Option FileTime) (data : List UInt8)

def Item.isFile : Item → Bool
  | .file .. => true
  | .dir _ => false

def Item.data : Item → List UInt8
  | .file _ _ data => data
  | .dir _ => []

def entryItems (base : Path) (e : WalkEntry) : List Item :=
  match e.kind with
  | .dir => [.dir (relativePath base e.path)]
  | .file bytes modified => [.file (relativePath base e.path) (modified.map .ofSystemTime) bytes]
  | .other => []

def itemsAt (base : Path) (source : Source) : List Item :=
  match source.kind with
  | .file bytes modified =>
    [.file (relativePath base source.path) (modified.map .ofSystemTime) bytes]
  | .dir walk => walk.flatMap (entryItems base)
  | .other => []

/-- The items of one source; its base is its parent directory. -/
def sourceItems (source : Source) : List Item :=
  itemsAt ((parent source.path.components).getD []) source

def allItems (sources : List Source) : List Item := sources.flatMap sourceItems

/-! ## Section 2: What is left to send -/

def SendCont.todo : SendCont → List Item
  | .nextSource rest => allItems rest
  | .nextEntry base entries rest => entries.flatMap (entryItems base) ++ allItems rest

def FileLoop.item (f : FileLoop) : Item := .file f.relativePath f.time f.remaining

def SendPc.todo : SendPc → List Item
  | .sourcePoll source rest => sourceItems source ++ allItems rest
  | .sourceMetadata base source rest => itemsAt base source ++ allItems rest
  | .walkNext base entries rest => entries.flatMap (entryItems base) ++ allItems rest
  | .walkPoll base none entries rest => entries.flatMap (entryItems base) ++ allItems rest
  | .walkPoll base (some e) entries rest =>
    entryItems base e ++ (entries.flatMap (entryItems base) ++ allItems rest)
  | .entryMetadata base e entries rest =>
    entryItems base e ++ (entries.flatMap (entryItems base) ++ allItems rest)
  | .sendDir chunk cont => .dir chunk.relativePath :: cont.todo
  | .openFile f cont => f.item :: cont.todo
  | .filePoll f cont => f.item :: cont.todo
  | .readFile f cont => f.item :: cont.todo
  | .sendFile chunk f cont =>
    .file f.relativePath chunk.time (chunk.chunk ++ f.remaining) :: cont.todo
  | .progress _ f cont => f.item :: cont.todo
  | .returned _ => []

@[simp] theorem sourceLoop_todo (rest : List Source) : (sourceLoop rest).todo = allItems rest := by
  cases rest <;> simp [sourceLoop, SendPc.todo, allItems]

@[simp] theorem resume_todo (cont : SendCont) : cont.resume.todo = cont.todo := by
  cases cont with
  | nextSource rest => exact sourceLoop_todo rest
  | nextEntry base entries rest => rfl

@[simp] theorem enterSource_todo (base : Path) (source : Source) (rest : List Source) :
    (enterSource base source rest).todo = itemsAt base source ++ allItems rest := by
  cases hk : source.kind with
  | other => simp [enterSource, itemsAt, hk]
  | _ => simp [enterSource, itemsAt, hk, SendPc.todo, SendCont.todo, FileLoop.item, FileLoop.time]

@[simp] theorem enterEntry_todo (base : Path) (e : WalkEntry) (entries : List WalkEntry)
    (rest : List Source) :
    (enterEntry base e entries rest).todo
      = entryItems base e ++ (entries.flatMap (entryItems base) ++ allItems rest) := by
  cases hk : e.kind <;>
    simp [enterEntry, entryItems, hk, SendPc.todo, SendCont.todo, FileLoop.item, FileLoop.time,
      FileChunk.ofDirectory]

/-- The chunk that a program point is about to hand over has the right form. -/
def SendPc.WellFormed : SendPc → Prop
  | .sendDir chunk _ => chunk = .ofDirectory chunk.relativePath
  | .sendFile chunk f _ =>
    chunk = .ofFile f.relativePath chunk.time chunk.chunk ∧ chunk.chunk ≠ [] ∧
      chunk.chunk.length ≤ chunkSize ∧ f.firstChunk = false
  | _ => True

theorem sourceLoop_wellFormed (rest : List Source) : (sourceLoop rest).WellFormed := by
  cases rest <;> trivial

theorem resume_wellFormed (cont : SendCont) : cont.resume.WellFormed := by
  cases cont with
  | nextSource rest => exact sourceLoop_wellFormed rest
  | nextEntry base entries rest => trivial

theorem enterSource_wellFormed (base : Path) (source : Source) (rest : List Source) :
    (enterSource base source rest).WellFormed := by
  unfold enterSource
  split
  · trivial
  · trivial
  · exact sourceLoop_wellFormed rest

theorem enterEntry_wellFormed (base : Path) (e : WalkEntry) (entries : List WalkEntry)
    (rest : List Source) : (enterEntry base e entries rest).WellFormed := by
  unfold enterEntry
  split
  · rfl
  · trivial
  · trivial

/-! ## Section 3: What a step does -/

/-- The ways to work off a list of items: leave it, find the end of a file,
    hand over a directory, hand over the next bytes of a file. -/
inductive Consumes : List Item → List Item → List FileChunk → Prop where
  | keep (is : List Item) : Consumes is is []
  | eof (rel : String) (t : Option FileTime) (is : List Item) :
      Consumes (.file rel t [] :: is) is []
  | dir (rel : String) (is : List Item) : Consumes (.dir rel :: is) is [.ofDirectory rel]
  | read (rel : String) (t : Option FileTime) (data rest : List UInt8) (is : List Item) :
      data ≠ [] → data.length ≤ chunkSize →
      Consumes (.file rel t (data ++ rest) :: is) (.file rel none rest :: is)
        [.ofFile rel t data]

/-- The answers on which a function returns before its work is done. -/
def earlyExit : SendPc → SendLabel → Bool
  | _, .poll true => true
  | .sourcePoll source _, .poll false => (parent source.path.components).isNone
  | .walkPoll _ none _ _, .poll false => true
  | _, .io (some _) => true
  | _, .read (.error _) => true
  | _, .send false => true
  | _, _ => false

/-- The items that an early exit at this point leaves behind: a cancelled read
    loop only leaves the rest of its file, the other exits end the task. -/
def SendPc.abandoned : SendPc → List Item
  | .filePoll f _ => [f.item]
  | pc => pc.todo

theorem SendMove.wellFormed {pc pc' : SendPc} {l : SendLabel} {cs : List FileChunk}
    (h : SendMove pc l pc' cs) : pc'.WellFormed := by
  cases h with
  | sourceEntered base source rest => exact enterSource_wellFormed _ _ _
  | walkDone base rest => exact sourceLoop_wellFormed _
  | entryEntered base e entries rest => exact enterEntry_wellFormed _ _ _ _
  | dirSent chunk cont => exact resume_wellFormed _
  | fileCancelled file cont => exact resume_wellFormed _
  | readEof file cont _ => exact resume_wellFormed _
  -- a read that returns bytes returns some, and no more than the buffer holds
  | readBytes file cont n hpos hchunk hlen =>
    refine ⟨rfl, ?_, ?_, rfl⟩
    · show file.remaining.take n ≠ []
      intro h0
      have := congrArg List.length h0
      rw [List.length_take, List.length_nil] at this
      omega
    · show (file.remaining.take n).length ≤ chunkSize
      rw [List.length_take]
      omega
  | _ => trivial

/-- A step that is no early exit works off the items of its program point. -/
theorem SendMove.consumes {pc pc' : SendPc} {l : SendLabel} {cs : List FileChunk}
    (h : SendMove pc l pc' cs) (hwf : pc.WellFormed) (hstay : earlyExit pc l = false) :
    Consumes pc.todo pc'.todo cs := by
  cases h with
  | sourceCancelled source rest => cases hstay
  | sourceRootless source rest hp => simp [earlyExit, hp] at hstay
  -- the steps that work nothing off keep the items; the early exits are excluded
  | sourcePolled base source rest hp =>
    have hitems : sourceItems source = itemsAt base source := by simp [sourceItems, hp]
    simp only [SendPc.todo, hitems]
    exact .keep _
  | sourceFailed base source rest e => cases hstay
  | sourceEntered base source rest => rw [enterSource_todo]; exact .keep _
  | walkFailed base entries rest => exact .keep _
  | walkDone base rest => rw [sourceLoop_todo]; exact .keep _
  | walkItem base e entries rest =>
    simp only [SendPc.todo, List.flatMap_cons, List.append_assoc]
    exact .keep _
  | walkCancelled base item entries rest => cases item <;> cases hstay
  | walkError base entries rest => cases hstay
  | walkPolled base e entries rest => exact .keep _
  | entryFailed base e entries rest k => cases hstay
  | entryEntered base e entries rest => rw [enterEntry_todo]; exact .keep _
  -- a directory is one chunk
  | dirSent chunk cont =>
    rw [resume_todo]
    have hchunk : chunk = .ofDirectory chunk.relativePath := hwf
    rw [hchunk]
    exact .dir _ _
  | dirRefused chunk cont => cases hstay
  | openFailed file cont e => cases hstay
  | opened file cont => exact .keep _
  | fileCancelled file cont => cases hstay
  | filePolled file cont => exact .keep _
  | readFailed file cont e => cases hstay
  -- the file at its end
  | readEof file cont hrem =>
    rw [resume_todo]
    simp only [SendPc.todo, FileLoop.item, hrem]
    exact .eof _ _ _
  | readBytes file cont n hpos hchunk hlen =>
    have hdata : (file.take n).chunk ++ (file.advance n).remaining = file.remaining :=
      List.take_append_drop _ _
    simp only [SendPc.todo, FileLoop.item, hdata]
    exact .keep _
  -- only the first chunk of a file carries its time
  | chunkSent chunk file cont =>
    obtain ⟨hchunk, hne, hlen, hfirst⟩ := hwf
    have htime : file.time = none := by simp [FileLoop.time, hfirst]
    simp only [SendPc.todo, FileLoop.item, htime]
    conv => arg 3; rw [hchunk]
    exact .read _ _ _ _ _ hne hlen
  | chunkRefused chunk file cont => cases hstay
  | progressed bytes bps file cont => exact .keep _

/-- An early exit hands nothing over and leaves the abandoned items behind. -/
theorem SendMove.abandons {pc pc' : SendPc} {l : SendLabel} {cs : List FileChunk}
    (h : SendMove pc l pc' cs) (hexit : earlyExit pc l = true) :
    cs = [] ∧ pc.todo = pc.abandoned ++ pc'.todo := by
  cases h with
  -- the one exit that goes on: the rest of the file is skipped
  | fileCancelled file cont =>
    rw [resume_todo]
    exact ⟨rfl, rfl⟩
  | sourcePolled base source rest hp => simp [earlyExit, hp] at hexit
  | sourceEntered base source rest => cases hexit
  | walkFailed base entries rest => cases hexit
  | walkDone base rest => cases hexit
  | walkItem base e entries rest => cases hexit
  | walkPolled base e entries rest => cases hexit
  | entryEntered base e entries rest => cases hexit
  | dirSent chunk cont => cases hexit
  | opened file cont => cases hexit
  | filePolled file cont => cases hexit
  | readEof file cont _ => cases hexit
  | readBytes file cont n _ _ _ => cases hexit
  | chunkSent chunk file cont => cases hexit
  | progressed bytes bps file cont => cases hexit
  | _ => exact ⟨rfl, (List.append_nil _).symm⟩

/-! ## Section 4: Complete emission -/

/-- Handing over the chunks works off the items. -/
inductive Emits : List Item → List FileChunk → Prop where
  | done : Emits [] []
  | step {is is' : List Item} {cs cs' : List FileChunk} :
      Consumes is is' cs → Emits is' cs' → Emits is (cs ++ cs')

def files (is : List Item) : List Item := is.filter Item.isFile

theorem files_cons_file {is : List Item} {i : Item} (h : i.isFile = true) :
    files (i :: is) = i :: files is := List.filter_cons_of_pos h

theorem files_cons_dir {is : List Item} {i : Item} (h : i.isFile = false) :
    files (i :: is) = files is := List.filter_cons_of_neg (by simp [h])

/-- The chunk carries bytes of a file. -/
def FileChunk.isData (c : FileChunk) : Bool := c.fileType = FileType.file.toInt

def dataChunks (cs : List FileChunk) : List FileChunk := cs.filter FileChunk.isData

/-- Every chunk of every file of the sources has been handed over. -/
def HandedAll (sources : List Source) (handed : List FileChunk) : Prop :=
  Emits (files (allItems sources)) (dataChunks handed)

theorem Consumes.files {is is' : List Item} {cs : List FileChunk} (h : Consumes is is' cs) :
    Consumes (files is) (files is') (dataChunks cs) := by
  cases h with
  | keep is => exact .keep _
  | eof rel t is => exact .eof _ _ _
  | dir rel is => exact .keep _
  | read rel t data rest is hne hlen => exact .read _ _ _ _ _ hne hlen

/-- The number of bytes in a list of items. -/
def itemBytes (is : List Item) : Nat := (is.map fun i => i.data.length).sum

def chunkBytes (cs : List FileChunk) : Nat := (cs.map fun c => c.chunk.length).sum

@[simp] theorem itemBytes_cons (i : Item) (is : List Item) :
    itemBytes (i :: is) = i.data.length + itemBytes is := by
  simp [itemBytes]

@[simp] theorem itemBytes_append (is is' : List Item) :
    itemBytes (is ++ is') = itemBytes is + itemBytes is' := by
  simp [itemBytes]

@[simp] theorem chunkBytes_nil : chunkBytes [] = 0 := rfl

@[simp] theorem chunkBytes_cons (c : FileChunk) (cs : List FileChunk) :
    chunkBytes (c :: cs) = c.chunk.length + chunkBytes cs := by
  simp [chunkBytes]

@[simp] theorem chunkBytes_append (cs cs' : List FileChunk) :
    chunkBytes (cs ++ cs') = chunkBytes cs + chunkBytes cs' := by
  simp [chunkBytes]

theorem chunkBytes_dataChunks_le (cs : List FileChunk) :
    chunkBytes (dataChunks cs) ≤ chunkBytes cs := by
  induction cs with
  | nil => exact le_rfl
  | cons c cs ih =>
    unfold dataChunks at ih ⊢
    rw [List.filter_cons]
    split <;> simp only [chunkBytes_cons] <;> omega

theorem Consumes.bytes {is is' : List Item} {cs : List FileChunk} (h : Consumes is is' cs) :
    itemBytes is = chunkBytes cs + itemBytes is' := by
  cases h with
  | keep is => simp
  | eof rel t is => simp [Item.data]
  | dir rel is => simp [Item.data, FileChunk.ofDirectory]
  | read rel t data rest is _ _ =>
    simp only [itemBytes_cons, chunkBytes_cons, chunkBytes_nil, Item.data, FileChunk.ofFile,
      List.length_append]
    omega

theorem Emits.bytes {is : List Item} {cs : List FileChunk} (h : Emits is cs) :
    itemBytes is = chunkBytes cs := by
  induction h with
  | done => rfl
  | step hc _ ih => rw [hc.bytes, ih, chunkBytes_append]

theorem itemBytes_files (is : List Item) : itemBytes (files is) = itemBytes is := by
  induction is with
  | nil => rfl
  | cons i is ih =>
    cases i with
    | dir rel =>
      show itemBytes (files is) = itemBytes (.dir rel :: is)
      simp [ih, Item.data]
    | file rel t data =>
      show itemBytes (.file rel t data :: files is) = itemBytes (.file rel t data :: is)
      simp [ih]

/-- Items without bytes need no chunk. -/
theorem Emits.prepend {is is' : List Item} {cs : List FileChunk} (hzero : itemBytes is = 0)
    (h : Emits (files is') cs) : Emits (files (is ++ is')) cs := by
  induction is with
  | nil => exact h
  | cons i is ih =>
    rw [itemBytes_cons] at hzero
    have hrest := ih (by omega)
    cases i with
    | dir rel => exact hrest
    | file rel t data =>
      have hdata : data = [] := List.length_eq_zero_iff.1 (by simp only [Item.data] at hzero; omega)
      subst hdata
      exact .step (.eof _ _ _) hrest

/-! ## Section 5: Losses -/

/-- An early exit of the step leaves no byte behind. -/
def NoLoss (s : Sender) (l : SendLabel) : Prop :=
  earlyExit s.pc l = true → itemBytes s.pc.abandoned = 0

/-- Once the items left are worked off, every file has been handed over. -/
def Carries (sources : List Source) (s : Sender) : Prop :=
  ∀ cs, Emits (files s.pc.todo) cs →
    Emits (files (allItems sources)) (dataChunks s.handed ++ cs)

/-- The bytes handed over and the bytes left do not exceed the bytes of the
    sources. -/
def Balanced (sources : List Source) (s : Sender) : Prop :=
  chunkBytes s.handed + itemBytes s.pc.todo ≤ itemBytes (allItems sources)

/-- They do not add up to them. -/
def Short (sources : List Source) (s : Sender) : Prop :=
  chunkBytes s.handed + itemBytes s.pc.todo < itemBytes (allItems sources)

theorem carries_start (sources : List Source) : Carries sources (.start sources) := by
  intro cs hcs
  have htodo : (Sender.start sources).pc.todo = allItems sources := sourceLoop_todo sources
  rwa [htodo] at hcs

theorem balanced_start (sources : List Source) : Balanced sources (.start sources) := by
  have htodo : (Sender.start sources).pc.todo = allItems sources := sourceLoop_todo sources
  show chunkBytes [] + itemBytes (Sender.start sources).pc.todo ≤ _
  rw [htodo, chunkBytes_nil]
  omega

theorem step_carries {sources : List Source} {s s' : Sender} {l : SendLabel}
    (hstep : sendStep s l = some s') (hloss : NoLoss s l) (hwf : s.pc.WellFormed)
    (h : Carries sources s) : Carries sources s' := by
  obtain ⟨cs, hhanded, hmove⟩ := sendStep_move hstep
  intro cs' hcs'
  cases hexit : earlyExit s.pc l with
  | false =>
    have := h _ (.step (hmove.consumes hwf hexit).files hcs')
    rw [hhanded]
    simpa [dataChunks] using this
  | true =>
    obtain ⟨rfl, htodo⟩ := hmove.abandons hexit
    rw [hhanded, List.append_nil]
    apply h
    rw [htodo]
    exact hcs'.prepend (hloss hexit)

/-- What a step does to the byte count. -/
theorem step_bytes {s s' : Sender} {l : SendLabel} (hstep : sendStep s l = some s')
    (hwf : s.pc.WellFormed) :
    chunkBytes s.handed + itemBytes s.pc.todo
      = chunkBytes s'.handed + itemBytes s'.pc.todo
        + (if earlyExit s.pc l = true then itemBytes s.pc.abandoned else 0) := by
  obtain ⟨cs, hhanded, hmove⟩ := sendStep_move hstep
  rw [hhanded, chunkBytes_append]
  cases hexit : earlyExit s.pc l with
  | false =>
    have hbytes := (hmove.consumes hwf hexit).bytes
    simp only [Bool.false_eq_true, if_false]
    omega
  | true =>
    obtain ⟨rfl, htodo⟩ := hmove.abandons hexit
    have hbytes := congrArg itemBytes htodo
    rw [itemBytes_append] at hbytes
    simp only [chunkBytes_nil, if_true]
    omega

theorem step_balanced {sources : List Source} {s s' : Sender} {l : SendLabel}
    (hstep : sendStep s l = some s') (hwf : s.pc.WellFormed) (h : Balanced sources s) :
    Balanced sources s' := by
  have hbytes := step_bytes hstep hwf
  unfold Balanced at h ⊢
  omega

/-- After a loss the bytes no longer add up. -/
theorem step_short {sources : List Source} {s s' : Sender} {l : SendLabel}
    (hstep : sendStep s l = some s') (hloss : ¬ NoLoss s l) (hwf : s.pc.WellFormed)
    (h : Balanced sources s) : Short sources s' := by
  have hbytes := step_bytes hstep hwf
  have hexit : earlyExit s.pc l = true := by
    by_contra hexit
    exact hloss fun h => absurd h hexit
  have hlost : itemBytes s.pc.abandoned ≠ 0 := fun h => hloss fun _ => h
  rw [if_pos hexit] at hbytes
  unfold Balanced at h
  unfold Short
  omega

theorem Short.step {sources : List Source} {s s' : Sender} {l : SendLabel}
    (h : Short sources s) (hstep : sendStep s l = some s') (hwf : s.pc.WellFormed) :
    Short sources s' := by
  have hbytes := step_bytes hstep hwf
  unfold Short at h ⊢
  omega

theorem step_wellFormed {s s' : Sender} {l : SendLabel} (hstep : sendStep s l = some s') :
    s'.pc.WellFormed := by
  obtain ⟨cs, _, hmove⟩ := sendStep_move hstep
  exact hmove.wellFormed

theorem Short.not_handedAll {sources : List Source} {s : Sender} (h : Short sources s) :
    ¬ HandedAll sources s.handed := by
  intro hall
  have hbytes := hall.bytes
  have hle := chunkBytes_dataChunks_le s.handed
  rw [itemBytes_files] at hbytes
  unfold Short at h
  omega

/-- A sender that has returned without a loss has handed over every file. -/
theorem Carries.handedAll {sources : List Source} {s : Sender} {result : Except TransferError Bool}
    (h : Carries sources s) (hret : s.pc = .returned result) : HandedAll sources s.handed := by
  have htodo : s.pc.todo = [] := by rw [hret]; rfl
  have hall := h [] (by rw [htodo]; exact .done)
  rwa [List.append_nil] at hall

/-! ## Section 6: Runs without an early exit -/

/-- Once the items left are worked off, all items have been. -/
def Follows (sources : List Source) (s : Sender) : Prop :=
  ∀ cs, Emits s.pc.todo cs → Emits (allItems sources) (s.handed ++ cs)

theorem follows_start (sources : List Source) : Follows sources (.start sources) := by
  intro cs hcs
  have htodo : (Sender.start sources).pc.todo = allItems sources := sourceLoop_todo sources
  rwa [htodo] at hcs

theorem step_follows {sources : List Source} {s s' : Sender} {l : SendLabel}
    (hstep : sendStep s l = some s') (hstay : earlyExit s.pc l = false) (hwf : s.pc.WellFormed)
    (h : Follows sources s) : Follows sources s' := by
  obtain ⟨cs, hhanded, hmove⟩ := sendStep_move hstep
  intro cs' hcs'
  rw [hhanded, List.append_assoc]
  exact h _ (.step (hmove.consumes hwf hstay) hcs')

/-- A sender that has returned without an early exit has worked off all items. -/
theorem emits_of_returned {sources : List Source} {ls : List SendLabel} {s' : Sender}
    {result : Except TransferError Bool} (hrun : sender.exec (.start sources) ls = some s')
    (hstay : sender.Along (fun s l => earlyExit s.pc l = false) (.start sources) ls)
    (hret : s'.pc = .returned result) : Emits (allItems sources) s'.handed := by
  have hinv : s'.pc.WellFormed ∧ Follows sources s' :=
    sender.exec_invariant_along (I := fun s => s.pc.WellFormed ∧ Follows sources s)
      (fun _ _ _ hC h hs => ⟨step_wellFormed hs, step_follows hs hC h.1 h.2⟩)
      ⟨sourceLoop_wellFormed _, follows_start _⟩ hstay hrun
  have htodo : s'.pc.todo = [] := by rw [hret]; rfl
  have hall := hinv.2 [] (by rw [htodo]; exact .done)
  rwa [List.append_nil] at hall

/-- The chunks that carry one file; only the first has its time. -/
inductive FileChunks (rel : String) : Option FileTime → List UInt8 → List FileChunk → Prop where
  | eof (t : Option FileTime) : FileChunks rel t [] []
  | read (t : Option FileTime) (data rest : List UInt8) (cs : List FileChunk) :
      data ≠ [] → FileChunks rel none rest cs →
      FileChunks rel t (data ++ rest) (.ofFile rel t data :: cs)

/-- The chunks that carry one item. -/
def ItemChunks : Item → List FileChunk → Prop
  | .dir rel, cs => cs = [.ofDirectory rel]
  | .file rel t data, cs => FileChunks rel t data cs

/-- An empty file has no chunk. -/
theorem ItemChunks.of_empty {rel : String} {t : Option FileTime} {cs : List FileChunk}
    (h : ItemChunks (.file rel t []) cs) : cs = [] := by
  have hfile : FileChunks rel t [] cs := h
  generalize hbytes : ([] : List UInt8) = bytes at hfile
  cases hfile with
  | eof t => rfl
  | read t data rest cs hne _ => exact absurd (List.append_eq_nil_iff.1 hbytes.symm).1 hne

/-- The chunks of an emission, item by item. -/
theorem Emits.items {is : List Item} {cs : List FileChunk} (h : Emits is cs) :
    ∃ css, cs = css.flatten ∧ List.Forall₂ ItemChunks is css := by
  induction h with
  | done => exact ⟨[], rfl, .nil⟩
  | step hc _ ih =>
    obtain ⟨css, rfl, hall⟩ := ih
    cases hc with
    | keep is => exact ⟨css, rfl, hall⟩
    | eof rel t is => exact ⟨[] :: css, rfl, .cons (.eof t) hall⟩
    | dir rel is => exact ⟨[.ofDirectory rel] :: css, rfl, .cons rfl hall⟩
    | read rel t data rest is hne _ =>
      -- the chunk goes in front of the other chunks of its file
      cases hall with
      | cons hfile hrest =>
        exact ⟨_, rfl, .cons (.read t data rest _ hne hfile) hrest⟩

end Warpinator
