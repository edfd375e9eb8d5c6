import Mathlib.Algebra.Group.Nat.Defs
import Mathlib.Data.List.Basic

/-! # Base64

    The standard alphabet with canonical padding.  Three bytes make four
    symbols; a last group of one or two bytes is padded.

    * `decode_encode`: decoding inverts encoding.
    * `isBase64_of_mem_encode`: the text consists of symbols and padding. -/

namespace Base64

/-! ## Section 1: Symbols -/

/-- The symbol of a six-bit value. -/
def symbol (v : Nat) : Char :=
  if v < 26 then Char.ofNat (v + 65)
  else if v < 52 then Char.ofNat (v - 26 + 97)
  else if v < 62 then Char.ofNat (v - 52 + 48)
  else if v = 62 then '+'
  else '/'

def value (c : Char) : Option Nat :=
  if 'A' ≤ c ∧ c ≤ 'Z' then some (c.toNat - 65)
  else if 'a' ≤ c ∧ c ≤ 'z' then some (c.toNat - 97 + 26)
  else if '0' ≤ c ∧ c ≤ '9' then some (c.toNat - 48 + 52)
  else if c = '+' then some 62
  else if c = '/' then some 63
  else none

/-- What a text may consist of. -/
def IsBase64 (c : Char) : Prop := c = '=' ∨ ∃ v < 64, c = symbol v

theorem value_symbol {v : Nat} (hv : v < 64) : value (symbol v) = some v := by
  have table : ∀ v : Fin 64, value (symbol v) = some v.val := by decide
  exact table ⟨v, hv⟩

theorem value_pad : value '=' = none := by decide

theorem symbol_ne_pad {v : Nat} (hv : v < 64) : symbol v ≠ '=' := by
  intro heq
  have hvalue := value_symbol hv
  rw [heq, value_pad] at hvalue
  cases hvalue

/-- No symbol breaks a line. -/
theorem IsBase64.ne_break {c : Char} (h : IsBase64 c) : c ≠ '\n' ∧ c ≠ '\r' := by
  rcases h with rfl | ⟨v, hv, rfl⟩
  · decide
  · have table : ∀ v : Fin 64, symbol v ≠ '\n' ∧ symbol v ≠ '\r' := by decide
    exact table ⟨v, hv⟩

/-! ## Section 2: Groups -/

/-- The four symbols of a number below `2 ^ 24`. -/
def quad (n : Nat) : List Char :=
  [symbol (n / 262144), symbol (n / 4096 % 64), symbol (n / 64 % 64), symbol (n % 64)]

def encode : List UInt8 → List Char
  | a :: b :: c :: rest => quad ((a.toNat * 256 + b.toNat) * 256 + c.toNat) ++ encode rest
  | [a, b] =>
    let n := a.toNat * 256 + b.toNat
    [symbol (n / 1024), symbol (n / 16 % 64), symbol (n % 16 * 4), '=']
  | [a] => [symbol (a.toNat / 4), symbol (a.toNat % 4 * 16), '=', '=']
  | [] => []

/-- Three bytes from four symbols. -/
def decodeQuad (c₀ c₁ c₂ c₃ : Char) : Option (List UInt8) := do
  let v₀ ← value c₀
  let v₁ ← value c₁
  let v₂ ← value c₂
  let v₃ ← value c₃
  return [.ofNat (v₀ * 4 + v₁ / 16), .ofNat (v₁ % 16 * 16 + v₂ / 4), .ofNat (v₂ % 4 * 64 + v₃)]

/-- One byte or two from the symbols before the padding.  The bits that are left
    over must be zero. -/
def decodeLast (c₀ c₁ c₂ : Char) : Option (List UInt8) := do
  let v₀ ← value c₀
  let v₁ ← value c₁
  if c₂ = '=' then
    if v₁ % 16 = 0 then return [.ofNat (v₀ * 4 + v₁ / 16)] else none
  else
    let v₂ ← value c₂
    if v₂ % 4 = 0 then return [.ofNat (v₀ * 4 + v₁ / 16), .ofNat (v₁ % 16 * 16 + v₂ / 4)]
    else none

def decode : List Char → Option (List UInt8)
  | c₀ :: c₁ :: c₂ :: c₃ :: rest =>
    if c₃ = '=' ∧ rest = [] then decodeLast c₀ c₁ c₂
    else do
      let bytes ← decodeQuad c₀ c₁ c₂ c₃
      let more ← decode rest
      return bytes ++ more
  | [] => some []
  | _ => none

/-! ## Section 3: Round trip -/

/-- Three bytes are read back from their symbols. -/
theorem decodeQuad_quad (a b c : UInt8) {n : Nat}
    (hn : n = (a.toNat * 256 + b.toNat) * 256 + c.toNat) :
    decodeQuad (symbol (n / 262144)) (symbol (n / 4096 % 64)) (symbol (n / 64 % 64))
      (symbol (n % 64)) = some [a, b, c] := by
  have ha := a.toNat_lt
  have hb := b.toNat_lt
  have hc := c.toNat_lt
  unfold decodeQuad
  rw [value_symbol (by omega), value_symbol (by omega), value_symbol (by omega),
    value_symbol (by omega)]
  have first : n / 262144 * 4 + n / 4096 % 64 / 16 = a.toNat := by omega
  have second : n / 4096 % 64 % 16 * 16 + n / 64 % 64 / 4 = b.toNat := by omega
  have third : n / 64 % 64 % 4 * 64 + n % 64 = c.toNat := by omega
  simp only [Option.bind_eq_bind, Option.bind_some, first, second, third, UInt8.ofNat_toNat,
    Option.pure_def]

theorem decodeLast_two (a b : UInt8) {n : Nat} (hn : n = a.toNat * 256 + b.toNat) :
    decodeLast (symbol (n / 1024)) (symbol (n / 16 % 64)) (symbol (n % 16 * 4)) = some [a, b] := by
  have ha := a.toNat_lt
  have hb := b.toNat_lt
  unfold decodeLast
  rw [value_symbol (by omega), value_symbol (by omega), value_symbol (by omega)]
  have unpadded : symbol (n % 16 * 4) ≠ '=' := symbol_ne_pad (by omega)
  have first : n / 1024 * 4 + n / 16 % 64 / 16 = a.toNat := by omega
  have second : n / 16 % 64 % 16 * 16 + n % 16 * 4 / 4 = b.toNat := by omega
  have left : n % 16 * 4 % 4 = 0 := by omega
  simp only [Option.bind_eq_bind, Option.bind_some, if_neg unpadded, if_pos left, first, second,
    UInt8.ofNat_toNat, Option.pure_def]

theorem decodeLast_one (a : UInt8) :
    decodeLast (symbol (a.toNat / 4)) (symbol (a.toNat % 4 * 16)) '=' = some [a] := by
  have ha := a.toNat_lt
  unfold decodeLast
  rw [value_symbol (by omega), value_symbol (by omega)]
  have first : a.toNat / 4 * 4 + a.toNat % 4 * 16 / 16 = a.toNat := by omega
  have left : a.toNat % 4 * 16 % 16 = 0 := by omega
  simp only [Option.bind_eq_bind, Option.bind_some, if_true, if_pos left, first,
    UInt8.ofNat_toNat, Option.pure_def]

theorem decode_encode (bytes : List UInt8) : decode (encode bytes) = some bytes := by
  induction bytes using encode.induct with
  | case1 a b c rest ih =>
    -- the last symbol of a full group is no padding
    have unpadded : symbol (((a.toNat * 256 + b.toNat) * 256 + c.toNat) % 64) ≠ '=' :=
      symbol_ne_pad (Nat.mod_lt _ (by decide))
    simp only [encode, quad, List.cons_append, List.nil_append, decode]
    rw [if_neg fun h => unpadded h.1, decodeQuad_quad a b c rfl, ih]
    rfl
  | case2 a b =>
    show decode [_, _, _, '='] = _
    rw [decode, if_pos ⟨rfl, rfl⟩, decodeLast_two a b rfl]
  | case3 a =>
    show decode [_, _, '=', '='] = _
    rw [decode, if_pos ⟨rfl, rfl⟩, decodeLast_one]
  | case4 => rfl

theorem isBase64_symbol {v : Nat} (hv : v < 64) : IsBase64 (symbol v) := .inr ⟨v, hv, rfl⟩

theorem isBase64_of_mem_quad {n : Nat} (hn : n < 2 ^ 24) {c : Char} (hc : c ∈ quad n) :
    IsBase64 c := by
  simp only [quad, List.mem_cons, List.not_mem_nil, or_false] at hc
  rcases hc with rfl | rfl | rfl | rfl
  · exact isBase64_symbol (by omega)
  · exact isBase64_symbol (Nat.mod_lt _ (by decide))
  · exact isBase64_symbol (Nat.mod_lt _ (by decide))
  · exact isBase64_symbol (Nat.mod_lt _ (by decide))

theorem isBase64_of_mem_encode {bytes : List UInt8} {c : Char} (hc : c ∈ encode bytes) :
    IsBase64 c := by
  induction bytes using encode.induct with
  | case1 a b c' rest ih =>
    have ha := a.toNat_lt
    have hb := b.toNat_lt
    have hc' := c'.toNat_lt
    rcases List.mem_append.1 hc with hquad | hrest
    · exact isBase64_of_mem_quad (by omega) hquad
    · exact ih hrest
  | case2 a b =>
    have ha := a.toNat_lt
    have hb := b.toNat_lt
    simp only [encode, List.mem_cons, List.not_mem_nil, or_false] at hc
    rcases hc with rfl | rfl | rfl | rfl
    · exact isBase64_symbol (by omega)
    · exact isBase64_symbol (by omega)
    · exact isBase64_symbol (by omega)
    · exact .inl rfl
  | case3 a =>
    have ha := a.toNat_lt
    simp only [encode, List.mem_cons, List.not_mem_nil, or_false] at hc
    rcases hc with rfl | rfl | rfl | rfl
    · exact isBase64_symbol (by omega)
    · exact isBase64_symbol (by omega)
    · exact .inl rfl
    · exact .inl rfl
  | case4 => cases hc

example : encode [77, 97, 110, 77] = "TWFuTQ==".toList := by decide

example : decode "TWFuTR==".toList = none := by decide

end Base64
