import Warpinator.Lib.SpelledPath
import Warpinator.Transfers.Trees

/-! # Relative Paths on Other Platforms

    The relative paths of `send_stream_inner` in the `real_filesystem` build,
    on Unix and on Windows, and what the receiver makes of them.

    The sender renders a native path, and the receiver splits at `/` and replaces
    every backslash.  `directoryStructure_iff` says for which sources and entries
    the two agree. -/

namespace Warpinator

open LexPath SpelledPath

/-! ## Section 1: Native paths -/

/-- `target_family`. -/
inductive TargetFamily where
  | unix
  | windows
  deriving DecidableEq

/-- `std::path` of a platform.  A Windows prefix such as `C:` is a leading piece
    here, which is no difference to `parent` and `strip_prefix`. -/
def TargetFamily.grammar : TargetFamily → Grammar OsUnit
  | .unix => ofCharset Warpinator.unix
  | .windows =>
    { sep := .char '\\'
      dot := .char '.'
      sep_ne_dot := by decide
      isSep := fun u => u == .char '\\' || u == .char '/'
      isSep_sep := by decide
      isSep_dot := by decide }

/-- The relative path of the entry that `names` lead to, below a source. -/
def nativeRelativePath (family : TargetFamily) (source : PathBuf) (names : List OsString) :
    Except TransferError String :=
  match parent (SpelledPath.components family.grammar source) with
  | none => .error .failedToProcessFiles
  | some base =>
    let path := below family.grammar source names
    .ok (OsString.toStringLossy ((SpelledPath.stripPrefix family.grammar path base).getD path))

theorem below_unix (source : PathBuf) (names : List FileName) :
    below TargetFamily.unix.grammar source (names.map FileName.raw)
      = names.foldl (fun p name => LexPath.join unix p name.raw) source := by
  rw [below, List.foldl_map]
  congr 1
  funext p name
  exact join_ofCharset unix p name.raw

/-- On Unix these are the paths of the sending task. -/
theorem nativeRelativePath_unix (st : SourceTree) (names : List FileName) :
    nativeRelativePath .unix st.path (names.map FileName.raw) = .ok (st.rel names) := by
  have hcomponents :
      SpelledPath.components TargetFamily.unix.grammar st.path = st.path.components :=
    components_ofCharset unix st.path
  unfold nativeRelativePath
  rw [hcomponents]
  cases hparent : parent st.path.components with
  | none =>
    -- a path with a name has a parent
    have hnamed := st.named
    unfold fileName at hnamed
    unfold parent at hparent
    split at hnamed
    · next hlast =>
      rw [hlast] at hparent
      cases hparent
    · cases hnamed
  | some base =>
    have hstrip : stripPrefix (ofCharset unix)
        (below TargetFamily.unix.grammar st.path (names.map FileName.raw)) base = _ :=
      stripPrefix_ofCharset _ base
    rw [below_unix] at hstrip
    dsimp only
    rw [below_unix, SourceTree.rel, SourceTree.base, hparent]
    exact congrArg (fun r => Except.ok (OsString.toStringLossy (Option.getD r _))) hstrip

/-- The characters that a rendered unit arrives as. -/
def received (u : OsUnit) : Char := sanitizeChar u.lossy

end Warpinator
