import Mathlib.Data.List.Basic
import Warpinator.Types.Text

/-! # Numbers and Addresses as Text

    A host writes its port and its address into its announcements, and the
    others read them with the functions of `Types/Text.lean`.  What is written is
    what is read. -/

namespace Warpinator

/-! ## Section 1: Numbers -/

theorem digitValue_of_isDigit {c : Char} (h : c.isDigit = true) :
    digitValue 10 c = some (c.toNat - '0'.toNat) := by
  have hle : c.toNat ≤ 57 := by
    simp only [Char.isDigit, Bool.and_eq_true, decide_eq_true_eq] at h
    exact h.2
  unfold digitValue
  simp only [h, if_true]
  rw [if_pos]
  show c.toNat - 48 < 10
  omega

theorem foldlM_digits {cs : List Char} (h : ∀ c ∈ cs, c.isDigit = true) (n : Nat) :
    cs.foldlM (fun n c => (digitValue 10 c).map fun d => 10 * n + d) n
      = some (Nat.ofDigitChars 10 cs n) := by
  induction cs generalizing n with
  | nil => simp
  | cons c cs ih =>
    rw [List.foldlM_cons, digitValue_of_isDigit (h c List.mem_cons_self), Nat.ofDigitChars_cons]
    exact ih (fun d hd => h d (List.mem_cons_of_mem c hd)) _

theorem isDigit_of_mem_toDigits {n : Nat} {c : Char} (h : c ∈ Nat.toDigits 10 n) :
    c.isDigit = true :=
  Nat.isDigit_of_mem_toDigits (by decide) (by decide) h

/-- The digits of a number are read as the number. -/
theorem digitsValue_toDigits (n : Nat) : digitsValue 10 (Nat.toDigits 10 n) = some n := by
  have hne : ¬ (Nat.toDigits 10 n).isEmpty = true := by simp
  unfold digitsValue
  rw [if_neg hne, foldlM_digits fun c hc => isDigit_of_mem_toDigits hc,
    Nat.ofDigitChars_ten_toDigits]

theorem parseUnsigned_toString {bits : Nat} (n : BitVec bits) :
    parseUnsigned bits (toString n.toNat) = some n := by
  have htext : (toString n.toNat).toList = Nat.toDigits 10 n.toNat := by
    rw [Nat.toString_eq_ofList_toDigits, String.toList_ofList]
  -- a number starts with a digit, not with a plus sign
  have hplus : ∀ cs, Nat.toDigits 10 n.toNat ≠ '+' :: cs := by
    intro cs h
    have hdigit : '+'.isDigit = true :=
      isDigit_of_mem_toDigits (n := n.toNat) (by rw [h]; exact List.mem_cons_self)
    cases hdigit
  unfold parseUnsigned
  rw [htext]
  split
  · next cs h => exact absurd h (hplus cs)
  · show (digitsValue 10 (Nat.toDigits 10 n.toNat)).bind _ = _
    rw [digitsValue_toDigits, Option.bind_some, if_pos n.isLt, BitVec.ofNat_toNat,
      BitVec.setWidth_eq]

/-! ## Section 2: Addresses -/

theorem splitChar_of_not_mem {sep : Char} {piece : List Char} (h : sep ∉ piece) :
    splitChar sep piece = [piece] := by
  induction piece with
  | nil => rfl
  | cons c cs ih =>
    obtain ⟨hc, hcs⟩ := not_or.1 (mt List.mem_cons.2 h)
    rw [splitChar, if_neg (Ne.symm hc), ih hcs]

theorem splitChar_append {sep : Char} {piece : List Char} (h : sep ∉ piece) (rest : List Char) :
    splitChar sep (piece ++ sep :: rest) = piece :: splitChar sep rest := by
  induction piece with
  | nil => rw [List.nil_append, splitChar, if_pos rfl]
  | cons c cs ih =>
    obtain ⟨hc, hcs⟩ := not_or.1 (mt List.mem_cons.2 h)
    rw [List.cons_append, splitChar, if_neg (Ne.symm hc), ih hcs]

theorem dot_not_mem_toDigits (n : Nat) : '.' ∉ Nat.toDigits 10 n := by
  intro hmem
  have hdigit : '.'.isDigit = true := isDigit_of_mem_toDigits hmem
  cases hdigit

theorem parseOctet_toDigits : ∀ n < 256, parseOctet (Nat.toDigits 10 n) = some n := by
  decide +kernel

/-- `Ipv4Addr::to_string`. -/
def ipv4Text (addr : BitVec 32) : String :=
  toString (addr.toNat / 16777216) ++ "." ++ toString (addr.toNat / 65536 % 256) ++ "." ++
    toString (addr.toNat / 256 % 256) ++ "." ++ toString (addr.toNat % 256)

theorem toList_ipv4Text (addr : BitVec 32) :
    (ipv4Text addr).toList = Nat.toDigits 10 (addr.toNat / 16777216) ++ '.' ::
      (Nat.toDigits 10 (addr.toNat / 65536 % 256) ++ '.' ::
        (Nat.toDigits 10 (addr.toNat / 256 % 256) ++ '.' ::
          Nat.toDigits 10 (addr.toNat % 256))) := by
  simp [ipv4Text]

theorem parseIpv4_ipv4Text (addr : BitVec 32) : parseIpv4 (ipv4Text addr).toList = some addr := by
  have hlt := addr.isLt
  unfold parseIpv4
  rw [toList_ipv4Text, splitChar_append (dot_not_mem_toDigits _),
    splitChar_append (dot_not_mem_toDigits _), splitChar_append (dot_not_mem_toDigits _),
    splitChar_of_not_mem (dot_not_mem_toDigits _)]
  have hfirst := parseOctet_toDigits (addr.toNat / 16777216) (by omega)
  have hsecond := parseOctet_toDigits (addr.toNat / 65536 % 256) (by omega)
  have hthird := parseOctet_toDigits (addr.toNat / 256 % 256) (by omega)
  have hfourth := parseOctet_toDigits (addr.toNat % 256) (by omega)
  have hvalue : ((addr.toNat / 16777216 * 256 + addr.toNat / 65536 % 256) * 256
      + addr.toNat / 256 % 256) * 256 + addr.toNat % 256 = addr.toNat := by omega
  simp [List.mapM_cons, hfirst, hsecond, hthird, hfourth, hvalue]

theorem fromStr_ipv4Text (addr : BitVec 32) : IpAddr.fromStr (ipv4Text addr) = some (.v4 addr) := by
  unfold IpAddr.fromStr
  rw [parseIpv4_ipv4Text]

end Warpinator
