import Warpinator.Transfers.Totals

/-! # The Totals on the Receiver's Side

    A request carries what `process_paths` found out.  An absent `single_name`
    or `single_mime_type` travels as the empty string, and the receiver takes
    either of them only when the count is 1.

    `SinglesTell` is what the two ends rest on.  Every way through
    `process_paths` keeps it: a single file has a name, and everything else has
    neither of the two fields, also a directory with a single file in it. -/

namespace Warpinator

open LexPath

/-! ## Section 1: Names of files -/

theorem piece_ne_nil {p name : List OsUnit} (h : piece unix p = some (.normal name)) :
    name ≠ [] := by
  unfold piece at h
  split at h
  · cases h
  · next hp =>
    split at h
    · cases h
    · obtain rfl : p = name := by simpa using h
      exact fun hnil => hp (.inl hnil)

/-- A file name is not empty. -/
theorem fileName_ne_nil {path : PathBuf} {name : OsString}
    (h : fileName path.components = some name) : name ≠ [] := by
  have hlast : path.components.getLast? = some (.normal name) := by
    unfold fileName at h
    split at h
    · next name' hlast =>
      obtain rfl := Option.some.inj h
      exact hlast
    · cases h
  have hmem : Component.normal name ∈ front unix path ++ body unix path :=
    List.mem_of_getLast? hlast
  rcases List.mem_append.1 hmem with hfront | hbody
  · -- the front of a path is a root or a dot
    unfold front at hfront
    split at hfront
    · simp at hfront
    · split at hfront <;> simp at hfront
  · obtain ⟨p, _, hp⟩ := List.mem_filterMap.1 hbody
    exact piece_ne_nil hp

theorem toStringLossy_ne {name : OsString} (h : name ≠ []) : name.toStringLossy ≠ "" := by
  intro hempty
  have hlist := OsString.toList_toStringLossy name
  rw [hempty] at hlist
  exact h (List.map_eq_nil_iff.1 hlist.symm)

/-! ## Section 2: What process_paths guarantees -/

/-- Where there is a single name or MIME type, it is not empty and there is
    one file. -/
structure Transfer.SinglesTell (t : Transfer) : Prop where
  singleName : ∀ name ∈ t.singleName, name ≠ "" ∧ t.fileCount = 1
  singleMimeType : ∀ mime ∈ t.singleMimeType, mime ≠ "" ∧ t.fileCount = 1

theorem processAllPaths_singles {t t' : Transfer} {paths : List PathView}
    (h : t.processAllPaths paths = (.ok (), t')) : t'.SinglesTell := by
  unfold Transfer.processAllPaths at h
  split at h
  · cases h
  · obtain rfl := (Prod.mk.inj h).2
    constructor
    · intro name hname
      cases hname
    · intro mime hmime
      cases hmime

theorem processPaths_singles {mime : PathBuf → String} {first : Except IoErrorKind Metadata}
    {t t' : Transfer} {paths : List PathView} (hmime : ∀ path, mime path ≠ "")
    (h : t.processPaths mime first paths = (.ok (), t')) : t'.SinglesTell := by
  unfold Transfer.processPaths at h
  split at h
  · next p =>
    split at h
    · cases h
    · split at h
      · cases h
      · next name hname =>
        obtain rfl := (Prod.mk.inj h).2
        constructor
        · intro single hsingle
          obtain rfl := Option.some.inj hsingle
          exact ⟨toStringLossy_ne (fileName_ne_nil hname), rfl⟩
        · intro single hsingle
          obtain rfl := Option.some.inj hsingle
          exact ⟨hmime p.path, rfl⟩
    · exact processAllPaths_singles h
  · exact processAllPaths_singles h

/-! ## Section 3: The two ends -/

/-- An optional field comes back from the wire. -/
theorem decode_getD {count : Nat} {o : Option String}
    (h : ∀ s ∈ o, s ≠ "" ∧ count = 1) :
    (if count = 1 ∧ o.getD "" ≠ "" then some (o.getD "") else none) = o := by
  cases o with
  | none => simp
  | some s =>
    obtain ⟨hs, hcount⟩ := h s rfl
    rw [Option.getD_some, if_pos ⟨hcount, hs⟩]

/-- `t'` is the record of a receiver to whom `serviceId` offers the transfer `t`. -/
structure Transfer.Conveyed (serviceId : String) (t t' : Transfer) : Prop where
  remoteUuid : t'.remoteUuid = serviceId
  protocolId : t'.protocolId = t.protocolId
  totalBytes : t'.totalBytes = t.totalBytes
  fileCount : t'.fileCount = t.fileCount
  entryNames : t'.entryNames = t.entryNames
  singleName : t'.singleName = t.singleName
  singleMimeType : t'.singleMimeType = t.singleMimeType
  kind : ∃ destination, t'.kind = .incoming destination
  state : t'.state = .waitingPermission
  bytesTransferred : t'.bytesTransferred = 0
  bytesPerSecond : t'.bytesPerSecond = 0

theorem conveyed_of_singles {t : Transfer} (hsingles : t.SinglesTell) (serviceId : String)
    (id : Uuid) (now : Nat) :
    ∃ info, (t.asProto serviceId).info = some info ∧
      Transfer.Conveyed serviceId t (.ofRequest id now info (t.asProto serviceId)) := by
  refine ⟨_, rfl, ?_⟩
  constructor
  case singleName => exact decode_getD hsingles.singleName
  case singleMimeType => exact decode_getD hsingles.singleMimeType
  case kind => exact ⟨_, rfl⟩
  all_goals rfl

/-- What `process_paths` has found reaches the receiver, if `mime_guess` names a
    type and a subtype. -/
theorem request_roundTrip {mime : PathBuf → String} {first : Except IoErrorKind Metadata}
    {t t' : Transfer} {paths : List PathView}
    (hmime : ∀ path, ∃ type subtype, mime path = type ++ "/" ++ subtype)
    (h : t.processPaths mime first paths = (.ok (), t')) (serviceId : String) (id : Uuid)
    (now : Nat) :
    ∃ info, (t'.asProto serviceId).info = some info ∧
      Transfer.Conveyed serviceId t' (.ofRequest id now info (t'.asProto serviceId)) := by
  have hne : ∀ path, mime path ≠ "" := by
    intro path hempty
    obtain ⟨type, subtype, heq⟩ := hmime path
    have hlist := congrArg String.toList (heq.symm.trans hempty)
    simp at hlist
  exact conveyed_of_singles (processPaths_singles hne h) serviceId id now

/-- A transfer after `process_paths`. -/
def processed (path : PathBuf) (metadata : Metadata)
    (walk : List (Option (Except IoErrorKind Metadata))) : Transfer :=
  ((Transfer.newOutgoing ⟨1, 2⟩ 7 "b" [path] []).processPaths (fun _ => "text/plain")
    (.ok metadata) [⟨path, .ok metadata, walk⟩]).2

/-- A file, and a directory with a file in it. -/
theorem request_roundTrip_file_dir :
    (∃ info,
      ((processed (OsString.ofString "/s/a") (.file 5) []).asProto "a").info = some info ∧
      Transfer.Conveyed "a" (processed (OsString.ofString "/s/a") (.file 5) [])
        (.ofRequest ⟨3, 4⟩ 8 info
          ((processed (OsString.ofString "/s/a") (.file 5) []).asProto "a"))) ∧
    ∃ info,
      ((processed (OsString.ofString "/s") .dir [some (.ok (.file 1))]).asProto "a").info
        = some info ∧
      Transfer.Conveyed "a" (processed (OsString.ofString "/s") .dir [some (.ok (.file 1))])
        (.ofRequest ⟨3, 4⟩ 8 info
          ((processed (OsString.ofString "/s") .dir [some (.ok (.file 1))]).asProto "a")) := by
  have hmime : ∀ path : PathBuf, ∃ type subtype : String,
      (fun _ => "text/plain") path = type ++ "/" ++ subtype := fun _ => ⟨"text", "plain", rfl⟩
  constructor
  · have hfile : (Transfer.newOutgoing ⟨1, 2⟩ 7 "b" [OsString.ofString "/s/a"] []).processPaths
        (fun _ => "text/plain") (.ok (.file 5)) [⟨OsString.ofString "/s/a", .ok (.file 5), []⟩]
        = (.ok (), processed (OsString.ofString "/s/a") (.file 5) []) := rfl
    exact request_roundTrip hmime hfile "a" ⟨3, 4⟩ 8
  · have hdir : (Transfer.newOutgoing ⟨1, 2⟩ 7 "b" [OsString.ofString "/s"] []).processPaths
        (fun _ => "text/plain") (.ok .dir)
        [⟨OsString.ofString "/s", .ok .dir, [some (.ok (.file 1))]⟩]
        = (.ok (), processed (OsString.ofString "/s") .dir [some (.ok (.file 1))]) := rfl
    exact request_roundTrip hmime hdir "a" ⟨3, 4⟩ 8

end Warpinator
