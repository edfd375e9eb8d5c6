import Mathlib.Algebra.Group.Nat.Defs
import Mathlib.Data.List.Basic

/-! # Secret Boxes

    A box holds a message under a key and a nonce: the authenticator of the
    encrypted message, then the encrypted message.  The message is encrypted with
    a keystream, whose first bytes are the key of the authenticator.

    * `unbox_box`: a box opens to its message, whatever keystream and
      authenticator are used.
    * `xsalsa20Poly1305`: the keystream XSalsa20 and the authenticator Poly1305. -/

namespace SecretBox

/-! ## Section 1: Boxes -/

structure Cipher where
  /-- The first bytes of the stream of a key and a nonce. -/
  keystream : List UInt8 → List UInt8 → Nat → List UInt8
  length_keystream : ∀ key nonce n, (keystream key nonce n).length = n
  authenticate : List UInt8 → List UInt8 → List UInt8
  length_authenticate : ∀ key message, (authenticate key message).length = 16

def xorBytes (stream message : List UInt8) : List UInt8 :=
  List.zipWith (fun x y => x ^^^ y) stream message

theorem length_xorBytes {stream message : List UInt8} (h : stream.length = message.length) :
    (xorBytes stream message).length = message.length := by
  simp [xorBytes, h]

/-- The stream takes back what it has done. -/
theorem xorBytes_cancel {stream message : List UInt8} (h : stream.length = message.length) :
    xorBytes stream (xorBytes stream message) = message := by
  induction message generalizing stream with
  | nil => simp [xorBytes]
  | cons y message ih =>
    cases stream with
    | nil => cases h
    | cons x stream =>
      show (x ^^^ (x ^^^ y)) :: xorBytes stream (xorBytes stream message) = y :: message
      rw [ih (Nat.succ.inj h), ← UInt8.xor_assoc, UInt8.xor_self, UInt8.zero_xor]

namespace Cipher

variable (c : Cipher) (key nonce : List UInt8)

def box (message : List UInt8) : List UInt8 :=
  let stream := c.keystream key nonce (32 + message.length)
  let body := xorBytes (stream.drop 32) message
  c.authenticate (stream.take 32) body ++ body

def unbox (boxed : List UInt8) : Option (List UInt8) :=
  if boxed.length < 16 then none
  else
    let body := boxed.drop 16
    let stream := c.keystream key nonce (32 + body.length)
    if c.authenticate (stream.take 32) body = boxed.take 16 then
      some (xorBytes (stream.drop 32) body)
    else none

theorem unbox_box (message : List UInt8) :
    c.unbox key nonce (c.box key nonce message) = some message := by
  have hstream : ((c.keystream key nonce (32 + message.length)).drop 32).length
      = message.length := by
    rw [List.length_drop, c.length_keystream]
    omega
  have htag : ∀ key body, ¬ (c.authenticate key body ++ body).length < 16 := by
    intro key body
    rw [List.length_append, c.length_authenticate]
    omega
  unfold unbox box
  dsimp only
  rw [if_neg (htag _ _), List.drop_left' (c.length_authenticate _ _),
    List.take_left' (c.length_authenticate _ _), length_xorBytes hstream, if_pos rfl,
    xorBytes_cancel hstream]

end Cipher

/-! ## Section 2: Words -/

/-- A number from its bytes, the lowest first. -/
def ofBytes (bytes : List UInt8) : Nat :=
  bytes.foldr (fun b n => b.toNat + 256 * n) 0

/-- The lowest bytes of a number. -/
def toBytes : Nat → Nat → List UInt8
  | 0, _ => []
  | count + 1, n => .ofNat n :: toBytes count (n / 256)

theorem length_toBytes (count n : Nat) : (toBytes count n).length = count := by
  induction count generalizing n with
  | zero => rfl
  | succ count ih => simp [toBytes, ih]

/-- The first words of a text. -/
def wordsOf (count : Nat) (bytes : List UInt8) : List UInt32 :=
  (List.range count).map fun i => .ofNat (ofBytes ((bytes.drop (4 * i)).take 4))

def bytesOf (words : List UInt32) : List UInt8 := words.flatMap fun w => toBytes 4 w.toNat

theorem length_bytesOf (words : List UInt32) : (bytesOf words).length = 4 * words.length := by
  simp [bytesOf, List.length_flatMap, length_toBytes, Nat.mul_comm]

def rotateLeft (w n : UInt32) : UInt32 := (w <<< n) ||| (w >>> (32 - n))

/-! ## Section 3: XSalsa20 -/

/-- The quarter round on the words at four places. -/
def quarterRound (i j k l : Nat) (x : List UInt32) : List UInt32 :=
  let y₀ := x.getD i 0
  let y₁ := x.getD j 0
  let y₂ := x.getD k 0
  let y₃ := x.getD l 0
  let z₁ := y₁ ^^^ rotateLeft (y₀ + y₃) 7
  let z₂ := y₂ ^^^ rotateLeft (z₁ + y₀) 9
  let z₃ := y₃ ^^^ rotateLeft (z₂ + z₁) 13
  let z₀ := y₀ ^^^ rotateLeft (z₃ + z₂) 18
  (((x.set i z₀).set j z₁).set k z₂).set l z₃

example : quarterRound 0 1 2 3 [1, 0, 0, 0] = [0x08008145, 0x80, 0x10200, 0x20500000] := by decide

def columnRound (x : List UInt32) : List UInt32 :=
  quarterRound 15 3 7 11 (quarterRound 10 14 2 6 (quarterRound 5 9 13 1 (quarterRound 0 4 8 12 x)))

def rowRound (x : List UInt32) : List UInt32 :=
  quarterRound 15 12 13 14 (quarterRound 10 11 8 9 (quarterRound 5 6 7 4 (quarterRound 0 1 2 3 x)))

def doubleRounds : Nat → List UInt32 → List UInt32
  | 0, x => x
  | n + 1, x => doubleRounds n (rowRound (columnRound x))

/-- The constants, the key and the sixteen bytes of input. -/
def initialState (key input : List UInt8) : List UInt32 :=
  let k := wordsOf 8 key
  [0x61707865] ++ k.take 4 ++ [0x3320646e] ++ wordsOf 4 input ++ [0x79622d32] ++ k.drop 4
    ++ [0x6b206574]

/-- The key that HSalsa20 derives. -/
def hsalsa20 (key input : List UInt8) : List UInt8 :=
  let z := doubleRounds 10 (initialState key input)
  bytesOf ([0, 5, 10, 15, 6, 7, 8, 9].map fun i => z.getD i 0)

/-- A block of 64 bytes of Salsa20. -/
def salsa20 (key nonce : List UInt8) (counter : Nat) : List UInt8 :=
  let x := initialState key (nonce ++ toBytes 8 counter)
  let z := doubleRounds 10 x
  bytesOf ((List.range 16).map fun i => x.getD i 0 + z.getD i 0)

def xsalsa20 (key nonce : List UInt8) (n : Nat) : List UInt8 :=
  let subkey := hsalsa20 key (nonce.take 16)
  ((List.range (n / 64 + 1)).flatMap fun i => salsa20 subkey (nonce.drop 16) i).take n

theorem length_salsa20 (key nonce : List UInt8) (counter : Nat) :
    (salsa20 key nonce counter).length = 64 := by
  simp [salsa20, length_bytesOf]

theorem length_xsalsa20 (key nonce : List UInt8) (n : Nat) : (xsalsa20 key nonce n).length = n := by
  unfold xsalsa20
  dsimp only
  rw [List.length_take, List.length_flatMap]
  simp only [length_salsa20, List.map_const', List.length_range, List.sum_replicate_nat]
  omega

/-! ## Section 4: Poly1305 -/

/-- The text in groups of sixteen bytes, each with a one behind it. -/
def poly1305Blocks (message : List UInt8) : List Nat :=
  (List.range ((message.length + 15) / 16)).map fun i =>
    ofBytes ((message.drop (16 * i)).take 16 ++ [1])

def poly1305 (key message : List UInt8) : List UInt8 :=
  let r := ofBytes (key.take 16) &&& 0x0ffffffc0ffffffc0ffffffc0fffffff
  let s := ofBytes ((key.drop 16).take 16)
  let acc := (poly1305Blocks message).foldl (fun acc block => (acc + block) * r % (2 ^ 130 - 5)) 0
  toBytes 16 (acc + s)

/-- XSalsa20Poly1305. -/
def xsalsa20Poly1305 : Cipher where
  keystream := xsalsa20
  length_keystream := length_xsalsa20
  authenticate := poly1305
  length_authenticate _ _ := length_toBytes 16 _

example : poly1305
    (toBytes 32 0x1bf54941aff6bf4afdb20dfb8a800301a806d542fe52447f336d555778bed685)
    "Cryptographic Forum Research Group".toUTF8.toList
    = toBytes 16 0xa927010caf8b2bc2c6365130c11d06a8 := by decide +kernel

end SecretBox
