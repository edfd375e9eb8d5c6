import Mathlib.Algebra.Group.Int.Defs
import Mathlib.Algebra.GroupWithZero.Nat
import Warpinator.Lib.LexPath

/-! # Platform Types

    What the program takes from the standard library: OS strings and paths of a
    Unix system, I/O error kinds and file times.  The names are those of the
    standard library.

    A Unix OS string is a byte string.  It is modelled decoded: every maximal
    run of bytes is either a character or an undecodable run, which is the
    decomposition `to_string_lossy` works on. -/

namespace Warpinator

open LexPath

/-! ## Section 1: OS strings and paths -/

/-- A unit of an OS string. -/
inductive OsUnit where
  | char (c : Char)
  /-- A run of bytes that is not valid UTF-8. -/
  | invalid (bytes : List UInt8)
  deriving DecidableEq, Repr

abbrev OsString : Type := List OsUnit

/-- A path as it is spelled. -/
abbrev PathBuf : Type := OsString

/-- A path up to redundant separators, which is how `Path` compares. -/
abbrev Path : Type := List (Component OsUnit)

/-- Separator and dot of Unix paths. -/
def unix : Charset OsUnit where
  sep := .char '/'
  dot := .char '.'
  sep_ne_dot := by decide

def OsUnit.lossy : OsUnit → Char
  | .char c => c
  | .invalid _ => Char.ofNat 0xFFFD

def OsString.ofString (s : String) : OsString := s.toList.map .char

theorem OsUnit.char_injective : Function.Injective OsUnit.char := fun _ _ h => OsUnit.char.inj h

theorem normal_injective : Function.Injective (Component.normal (α := OsUnit)) :=
  fun _ _ h => Component.normal.inj h

theorem OsString.ofString_injective : Function.Injective OsString.ofString :=
  fun _ _ h => String.toList_injective (OsUnit.char_injective.list_map h)

/-- `to_string_lossy`: every undecodable run becomes one U+FFFD. -/
def OsString.toStringLossy (s : OsString) : String := String.ofList (s.map OsUnit.lossy)

def PathBuf.components (p : PathBuf) : Path := LexPath.components unix p

def PathBuf.join (p : PathBuf) (s : String) : PathBuf := LexPath.join unix p (OsString.ofString s)

def PathBuf.startsWith (p base : PathBuf) : Bool := LexPath.startsWith unix p base

def PathBuf.isAbsolute (p : PathBuf) : Bool := LexPath.hasRoot unix p

theorem OsString.toList_toStringLossy (s : OsString) :
    s.toStringLossy.toList = s.map OsUnit.lossy := by
  simp [OsString.toStringLossy]

/-! ## Section 2: I/O errors and file times -/

/-- `std::io::ErrorKind`, as far as the program tells the kinds apart. -/
inductive IoErrorKind where
  | notFound
  | permissionDenied
  | readOnlyFilesystem
  | storageFull
  | fileTooLarge
  | invalidFilename
  | outOfMemory
  | other (code : Nat)
  deriving DecidableEq, Repr

/-- Nanoseconds since the Unix epoch, within the `i64` seconds of a Unix
    timestamp. -/
structure SystemTime where
  nanos : Int
  lower : -(2 ^ 63 * 10 ^ 9) ≤ nanos
  upper : nanos < 2 ^ 63 * 10 ^ 9

instance : DecidableEq SystemTime := fun a b =>
  decidable_of_iff (a.nanos = b.nanos) <| by
    cases a; cases b; simp

def SystemTime.epoch : SystemTime where
  nanos := 0
  lower := by decide
  upper := by decide

/-- The time of `n` nanoseconds after the epoch, `none` where the addition to
    `UNIX_EPOCH` panics. -/
def SystemTime.afterEpoch (n : Nat) : Option SystemTime :=
  if h : (n : Int) < 2 ^ 63 * 10 ^ 9 then
    some ⟨n, by omega, h⟩
  else none

/-- `proto::FileTime`: seconds (`u64`) and microseconds (`u32`). -/
structure FileTime where
  mtime : Nat
  mtimeUsec : Nat
  mtime_lt : mtime < 2 ^ 64
  mtimeUsec_lt : mtimeUsec < 2 ^ 32
  deriving DecidableEq

end Warpinator
