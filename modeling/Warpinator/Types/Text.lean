import Warpinator.Types.Remote

/-! # Text

    The functions of the standard library that the program reads names,
    numbers and addresses with. -/

namespace Warpinator

/-! ## Section 1: Trimming -/

/-- Drop a prefix as often as it is there, `fuel` times at most. -/
def dropPrefixes (pat : List Char) : Nat → List Char → List Char
  | 0, cs => cs
  | fuel + 1, cs =>
    if pat.isPrefixOf cs then dropPrefixes pat fuel (cs.drop pat.length) else cs

/-- `str::trim_end_matches`. -/
def trimEndMatches (s pat : String) : String :=
  String.ofList (dropPrefixes pat.toList.reverse s.toList.length s.toList.reverse).reverse

/-- `str::ends_with`. -/
def EndsWith (s pat : String) : Prop := pat.toList <:+ s.toList

theorem dropPrefixes_of_not {pat cs : List Char} (h : ¬ pat <+: cs) (fuel : Nat) :
    dropPrefixes pat fuel cs = cs := by
  cases fuel with
  | zero => rfl
  | succ fuel =>
    unfold dropPrefixes
    rw [if_neg (by simpa using h)]

/-- Nothing is trimmed from a text that does not end in the pattern. -/
theorem trimEndMatches_of_not {s pat : String} (h : ¬ EndsWith s pat) :
    trimEndMatches s pat = s := by
  unfold trimEndMatches
  rw [dropPrefixes_of_not, List.reverse_reverse, String.ofList_toList]
  intro hpre
  exact h (List.reverse_prefix.1 hpre)

/-- The fuel is enough once it covers the text. -/
theorem dropPrefixes_fuel {pat : List Char} (hpat : pat ≠ []) {fuel fuel' : Nat} {cs : List Char}
    (h : cs.length ≤ fuel) (h' : cs.length ≤ fuel') :
    dropPrefixes pat fuel cs = dropPrefixes pat fuel' cs := by
  have hpos : 0 < pat.length := List.length_pos_iff.2 hpat
  induction fuel generalizing fuel' cs with
  | zero =>
    obtain rfl : cs = [] := List.length_eq_zero_iff.1 (Nat.le_zero.1 h)
    have hnot : ¬ pat <+: [] := fun hpre => hpat (List.prefix_nil.1 hpre)
    rw [dropPrefixes_of_not hnot, dropPrefixes_of_not hnot]
  | succ fuel ih =>
    by_cases hpre : pat <+: cs
    · have hle : pat.length ≤ cs.length := hpre.length_le
      obtain ⟨fuel', rfl⟩ : ∃ k, fuel' = k + 1 := ⟨fuel' - 1, by omega⟩
      unfold dropPrefixes
      rw [if_pos (by simpa using hpre), if_pos (by simpa using hpre)]
      have hdrop : (cs.drop pat.length).length = cs.length - pat.length := List.length_drop
      exact ih (by omega) (by omega)
    · rw [dropPrefixes_of_not hpre, dropPrefixes_of_not hpre]

theorem not_prefix_dropPrefixes {pat : List Char} (hpat : pat ≠ []) {fuel : Nat} {cs : List Char}
    (h : cs.length ≤ fuel) : ¬ pat <+: dropPrefixes pat fuel cs := by
  have hpos : 0 < pat.length := List.length_pos_iff.2 hpat
  induction fuel generalizing cs with
  | zero =>
    obtain rfl : cs = [] := List.length_eq_zero_iff.1 (Nat.le_zero.1 h)
    intro hpre
    exact hpat (List.prefix_nil.1 hpre)
  | succ fuel ih =>
    unfold dropPrefixes
    split
    · next hpre =>
      have hdrop : (cs.drop pat.length).length = cs.length - pat.length := List.length_drop
      exact ih (by omega)
    · next hpre => simpa using hpre

/-- What is trimmed does not end in the pattern any more. -/
theorem not_endsWith_trimEndMatches {pat : String} (hpat : pat.toList ≠ []) (s : String) :
    ¬ EndsWith (trimEndMatches s pat) pat := by
  intro hends
  unfold EndsWith trimEndMatches at hends
  rw [String.toList_ofList] at hends
  have hpre := List.reverse_prefix.2 hends
  rw [List.reverse_reverse] at hpre
  refine not_prefix_dropPrefixes ?_ ?_ hpre
  · simpa using hpat
  · simp

/-- An occurrence at the end changes nothing. -/
theorem trimEndMatches_append_self {pat : String} (hpat : pat.toList ≠ []) (s : String) :
    trimEndMatches (s ++ pat) pat = trimEndMatches s pat := by
  have hpos : 0 < pat.toList.length := List.length_pos_iff.2 hpat
  have hlength :
      (s.toList ++ pat.toList).length = s.toList.length + (pat.toList.length - 1) + 1 := by
    rw [List.length_append]
    omega
  have hdrop : dropPrefixes pat.toList.reverse (s.toList ++ pat.toList).length
      (s.toList ++ pat.toList).reverse
      = dropPrefixes pat.toList.reverse s.toList.length s.toList.reverse := by
    rw [hlength, List.reverse_append]
    conv => lhs; unfold dropPrefixes
    rw [if_pos (by simp), List.drop_left' rfl]
    refine dropPrefixes_fuel ?_ ?_ ?_
    · simpa using hpat
    · simp
    · simp
  unfold trimEndMatches
  rw [String.toList_append, hdrop]

/-- One occurrence is trimmed where only one is there. -/
theorem trimEndMatches_append {s pat : String} (hpat : pat.toList ≠ []) (h : ¬ EndsWith s pat) :
    trimEndMatches (s ++ pat) pat = s :=
  (trimEndMatches_append_self hpat s).trans (trimEndMatches_of_not h)

/-! ## Section 2: Numbers -/

def digitValue (base : Nat) (c : Char) : Option Nat :=
  let value :=
    if c.isDigit then c.toNat - '0'.toNat
    else if 'a' ≤ c ∧ c ≤ 'f' then c.toNat - 'a'.toNat + 10
    else if 'A' ≤ c ∧ c ≤ 'F' then c.toNat - 'A'.toNat + 10
    else base
  if value < base then some value else none

/-- The value of a non-empty run of digits. -/
def digitsValue (base : Nat) (cs : List Char) : Option Nat :=
  if cs.isEmpty then none
  else cs.foldlM (fun n c => (digitValue base c).map fun d => base * n + d) 0

/-- `str::parse` for an unsigned integer of the given width: an optional plus
    sign and decimal digits, without overflow. -/
def parseUnsigned (bits : Nat) (s : String) : Option (BitVec bits) :=
  let digits :=
    match s.toList with
    | '+' :: cs => cs
    | cs => cs
  (digitsValue 10 digits).bind fun n => if n < 2 ^ bits then some (BitVec.ofNat bits n) else none

/-! ## Section 3: Addresses -/

/-- The pieces between the separators. -/
def splitChar (sep : Char) : List Char → List (List Char)
  | [] => [[]]
  | c :: cs =>
    if c = sep then [] :: splitChar sep cs
    else
      match splitChar sep cs with
      | [] => [[c]]
      | piece :: pieces => (c :: piece) :: pieces

/-- An octet of an IPv4 address: no leading zeros. -/
def parseOctet (cs : List Char) : Option Nat :=
  if cs.length > 3 ∨ (cs.length > 1 ∧ cs.head? = some '0') then none
  else (digitsValue 10 cs).bind fun n => if n < 256 then some n else none

def parseIpv4 (cs : List Char) : Option (BitVec 32) :=
  match (splitChar '.' cs).mapM parseOctet with
  | some [a, b, c, d] => some (BitVec.ofNat 32 (((a * 256 + b) * 256 + c) * 256 + d))
  | _ => none

/-- A group of an IPv6 address. -/
def parseGroup (cs : List Char) : Option Nat :=
  if cs.length > 4 then none else digitsValue 16 cs

/-- Groups, of which the last two may be written as an IPv4 address. -/
def parseGroups (ipv4Tail : Bool) : List (List Char) → Option (List Nat)
  | [] => some []
  | [last] =>
    match parseGroup last with
    | some n => some [n]
    | none =>
      if ipv4Tail then
        (parseIpv4 last).map fun addr => [addr.toNat / 65536, addr.toNat % 65536]
      else none
  | group :: groups => do
    let n ← parseGroup group
    let ns ← parseGroups ipv4Tail groups
    return n :: ns

def ipv6OfGroups (groups : List Nat) : BitVec 128 :=
  BitVec.ofNat 128 (groups.foldl (fun n group => n * 65536 + group) 0)

/-- Split at the first `::`. -/
def splitDoubleColon : List Char → Option (List Char × List Char)
  | ':' :: ':' :: cs => some ([], cs)
  | c :: cs => (splitDoubleColon cs).map fun (head, tail) => (c :: head, tail)
  | [] => none

/-- The groups of one side of `::`. -/
def sideGroups (ipv4Tail : Bool) (cs : List Char) : Option (List Nat) :=
  if cs.isEmpty then some [] else parseGroups ipv4Tail (splitChar ':' cs)

def parseIpv6 (cs : List Char) : Option (BitVec 128) :=
  match splitDoubleColon cs with
  | none =>
    (parseGroups true (splitChar ':' cs)).bind fun groups =>
      if groups.length = 8 then some (ipv6OfGroups groups) else none
  | some (head, tail) => do
    let front ← sideGroups false head
    let back ← sideGroups true tail
    if front.length + back.length ≤ 7 then
      some (ipv6OfGroups (front ++ List.replicate (8 - front.length - back.length) 0 ++ back))
    else none

/-- `IpAddr::from_str`. -/
def IpAddr.fromStr (s : String) : Option IpAddr :=
  match parseIpv4 s.toList with
  | some addr => some (.v4 addr)
  | none => (parseIpv6 s.toList).map .v6

example : IpAddr.fromStr "10.0.0.7" = some (.v4 0x0a000007#32) := by decide

example : IpAddr.fromStr "::1" = some (.v6 1#128) := by decide

example : IpAddr.fromStr "10.0.0.07" = none := by decide

def IpAddr.isIpv4 : IpAddr → Bool
  | .v4 _ => true
  | .v6 _ => false

/-- The text before and after the last occurrence of a character. -/
def splitLast (sep : Char) (s : String) : Option (String × String) :=
  match (splitChar sep s.toList).reverse with
  | last :: rest@(_ :: _) =>
    some (String.ofList (List.intercalate [sep] rest.reverse), String.ofList last)
  | _ => none

example : splitLast ':' "[::1]:42000" = some ("[::1]", "42000") := by decide

end Warpinator
