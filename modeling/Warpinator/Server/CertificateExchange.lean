import Warpinator.Lib.Base64
import Warpinator.Lib.SecretBox
import Warpinator.Lib.Sha256
import Warpinator.Server.Connection

/-! # The Certificate Exchange

    `request_certificate` boxes the certificate of one host, `receive_certificate`
    of another opens the box.  The text between them may be broken into lines at
    will.

    The code slices the box and makes a key and a nonce of slices, which panics
    for other lengths than theirs.  `certificate_exchange`: nothing panics, the
    certificate arrives, and a box is too short exactly if it cannot hold a
    nonce. -/

namespace Warpinator

/-! ## Section 1: Keys and nonces -/

structure Key where
  bytes : List UInt8
  length_bytes : bytes.length = 32

structure Nonce where
  bytes : List UInt8
  length_bytes : bytes.length = 24

/-- What the code relies on. -/
structure Crypto.Lawful (crypto : Crypto) : Prop where
  length_sha256 : ∀ bytes, (crypto.sha256 bytes).length = 32
  decrypt_encrypt : ∀ (key : Key) (nonce : Nonce) message,
    (crypto.encrypt key.bytes nonce.bytes message).bind (crypto.decrypt key.bytes nonce.bytes)
      = some message
  decode_encode : ∀ bytes, crypto.decode (crypto.encode bytes) = some bytes
  isBase64_encode : ∀ bytes, ∀ c ∈ (crypto.encode bytes).toList, Base64.IsBase64 c

inductive SlicePanic where
  | outOfRange
  | lengthMismatch
  deriving DecidableEq, Repr

/-- `&bytes[..n]`. -/
def sliceTo (bytes : List UInt8) (n : Nat) : Except SlicePanic (List UInt8) :=
  if n ≤ bytes.length then .ok (bytes.take n) else .error .outOfRange

/-- `&bytes[n..]`. -/
def sliceFrom (bytes : List UInt8) (n : Nat) : Except SlicePanic (List UInt8) :=
  if n ≤ bytes.length then .ok (bytes.drop n) else .error .outOfRange

def Key.fromSlice (bytes : List UInt8) : Except SlicePanic Key :=
  if h : bytes.length = 32 then .ok ⟨bytes, h⟩ else .error .lengthMismatch

def Nonce.fromSlice (bytes : List UInt8) : Except SlicePanic Nonce :=
  if h : bytes.length = 24 then .ok ⟨bytes, h⟩ else .error .lengthMismatch

theorem Key.fromSlice_of_length {bytes : List UInt8} (h : bytes.length = 32) :
    Key.fromSlice bytes = .ok ⟨bytes, h⟩ := dif_pos h

theorem Nonce.fromSlice_of_length {bytes : List UInt8} (h : bytes.length = 24) :
    Nonce.fromSlice bytes = .ok ⟨bytes, h⟩ := dif_pos h

theorem ok_bind {ε α β : Type} (x : α) (f : α → Except ε β) : (Except.ok x >>= f) = f x := rfl

/-! ## Section 2: The code, with its panics -/

namespace Authenticator

variable (crypto : Crypto) (a : Authenticator)

def boxCertOrPanic (nonce : Nonce) : Except SlicePanic (Option (List UInt8)) := do
  let key ← Key.fromSlice (a.deriveKey crypto)
  return (crypto.encrypt key.bytes nonce.bytes a.certPem).map fun ciphertext =>
    nonce.bytes ++ ciphertext

def unboxCertOrPanic (boxed : List UInt8) :
    Except SlicePanic (Except CertUnboxError (List UInt8)) :=
  if boxed.length < 24 then .ok (.error .boxTooShort)
  else do
    let key ← Key.fromSlice (a.deriveKey crypto)
    let head ← sliceTo boxed 24
    let nonce ← Nonce.fromSlice head
    let ciphertext ← sliceFrom boxed 24
    match crypto.decrypt key.bytes nonce.bytes ciphertext with
    | some cert => return .ok cert
    | none => return .error .decryptionFailed

def requestCertificateOrPanic (nonce : Nonce) : Except SlicePanic (Except Status String) := do
  match ← a.boxCertOrPanic crypto nonce with
  | some boxed => return .ok (crypto.encode boxed)
  | none => return .error { code := .internal, message := "Failed to box certificate" }

def receiveOrPanic (lockedCert : String) :
    Except SlicePanic (Except ReceiveCertError (List UInt8)) :=
  match crypto.decode (cleanedCert lockedCert) with
  | none => .ok (.error .decodingCertificateFailed)
  | some decoded => do
    match ← a.unboxCertOrPanic crypto decoded with
    | .error .boxTooShort => return .error .malformedCertificate
    | .error .decryptionFailed => return .error .wrongGroupCode
    | .ok certPem => return .ok certPem

variable {crypto} (lawful : crypto.Lawful)

include lawful

theorem length_deriveKey : (a.deriveKey crypto).length = 32 := lawful.length_sha256 _

theorem boxCertOrPanic_eq (nonce : Nonce) :
    a.boxCertOrPanic crypto nonce = .ok (a.boxCert crypto nonce.bytes) := by
  unfold boxCertOrPanic
  rw [Key.fromSlice_of_length (a.length_deriveKey lawful)]
  rfl

/-- Past the check of the length, every slice is in range. -/
theorem unboxCertOrPanic_eq (boxed : List UInt8) :
    a.unboxCertOrPanic crypto boxed = .ok (a.unboxCert crypto boxed) := by
  unfold unboxCertOrPanic unboxCert
  split
  · rfl
  · next hlength =>
    have hrange : 24 ≤ boxed.length := Nat.le_of_not_lt hlength
    have hnonce : (boxed.take 24).length = 24 := by
      rw [List.length_take]
      omega
    rw [Key.fromSlice_of_length (a.length_deriveKey lawful), sliceTo, if_pos hrange, sliceFrom,
      if_pos hrange, ok_bind, ok_bind, Nonce.fromSlice_of_length hnonce, ok_bind, ok_bind]
    dsimp only
    cases crypto.decrypt (a.deriveKey crypto) (boxed.take 24) (boxed.drop 24) with
    | some cert => rfl
    | none => rfl

theorem requestCertificateOrPanic_eq (nonce : Nonce) :
    a.requestCertificateOrPanic crypto nonce = .ok (a.requestCertificate crypto nonce.bytes) := by
  unfold requestCertificateOrPanic requestCertificate
  rw [a.boxCertOrPanic_eq lawful, ok_bind]
  cases a.boxCert crypto nonce.bytes with
  | some boxed => rfl
  | none => rfl

theorem receiveOrPanic_eq (lockedCert : String) :
    a.receiveOrPanic crypto lockedCert = .ok (a.receive crypto lockedCert) := by
  unfold receiveOrPanic receive
  cases crypto.decode (cleanedCert lockedCert) with
  | none => rfl
  | some decoded =>
    dsimp only
    rw [a.unboxCertOrPanic_eq lawful, ok_bind]
    cases a.unboxCert crypto decoded with
    | ok certPem => rfl
    | error e => cases e <;> rfl

/-! ## Section 3: Round trip -/

/-- A box opens with the same group code. -/
theorem unboxCert_boxCert {receiver : Authenticator} (hcode : a.groupCode = receiver.groupCode)
    (nonce : Nonce) :
    ∃ boxed, a.boxCert crypto nonce.bytes = some boxed ∧
      receiver.unboxCert crypto boxed = .ok a.certPem := by
  have hkey : receiver.deriveKey crypto = a.deriveKey crypto := by
    unfold deriveKey
    rw [hcode]
  obtain ⟨ciphertext, hencrypt, hdecrypt⟩ := Option.bind_eq_some_iff.1
    (lawful.decrypt_encrypt ⟨_, a.length_deriveKey lawful⟩ nonce a.certPem)
  refine ⟨nonce.bytes ++ ciphertext, ?_, ?_⟩
  · unfold boxCert
    rw [hencrypt]
    rfl
  · have hlength : ¬ (nonce.bytes ++ ciphertext).length < 24 := by
      rw [List.length_append, nonce.length_bytes]
      omega
    unfold unboxCert
    rw [if_neg hlength, List.take_left' nonce.length_bytes, List.drop_left' nonce.length_bytes,
      hkey, hdecrypt]

omit lawful in
theorem unboxCert_eq_boxTooShort_iff (boxed : List UInt8) :
    a.unboxCert crypto boxed = .error .boxTooShort ↔ boxed.length < 24 := by
  unfold unboxCert
  constructor
  · intro h
    split at h
    · next hlength => exact hlength
    · split at h <;> cases h
  · intro hlength
    rw [if_pos hlength]

end Authenticator

/-- The second text is the first with line breaks put in anywhere. -/
inductive BreaksInserted : List Char → List Char → Prop
  | done : BreaksInserted [] []
  | keep (c : Char) {text wire : List Char} (h : BreaksInserted text wire) :
      BreaksInserted (c :: text) (c :: wire)
  | insert {c : Char} (hc : c = '\n' ∨ c = '\r') {text wire : List Char}
      (h : BreaksInserted text wire) : BreaksInserted text (c :: wire)

theorem BreaksInserted.filter_eq {text wire : List Char} (h : BreaksInserted text wire) :
    wire.filter (fun c => c ≠ '\n' ∧ c ≠ '\r') = text.filter fun c => c ≠ '\n' ∧ c ≠ '\r' := by
  induction h with
  | done => rfl
  | keep c _ ih =>
    rw [List.filter_cons, List.filter_cons, ih]
  | insert hc _ ih =>
    rw [List.filter_cons_of_neg (by rcases hc with rfl | rfl <;> simp), ih]

/-- Cleaning undoes the breaks of a text that has none of its own. -/
theorem cleanedCert_of_breaksInserted {text : String} {wire : List Char}
    (h : BreaksInserted text.toList wire) (hnone : ∀ c ∈ text.toList, c ≠ '\n' ∧ c ≠ '\r') :
    cleanedCert (String.ofList wire) = text := by
  have hkept : text.toList.filter (fun c => c ≠ '\n' ∧ c ≠ '\r') = text.toList :=
    List.filter_eq_self.2 fun c hc => decide_eq_true (hnone c hc)
  unfold cleanedCert
  rw [String.toList_ofList, h.filter_eq, hkept, String.ofList_toList]

/-- The certificate of a host arrives at every host of its group, however the
    text is broken into lines; and any bytes are a box that opens or an error,
    never a panic. -/
theorem certificate_exchange {crypto : Crypto} (lawful : crypto.Lawful) :
    (∀ (sender receiver : Authenticator) (nonce : Nonce),
      sender.groupCode = receiver.groupCode →
      ∃ text, sender.requestCertificateOrPanic crypto nonce = .ok (.ok text) ∧
        ∀ wire, BreaksInserted text.toList wire →
          receiver.receiveOrPanic crypto (String.ofList wire) = .ok (.ok sender.certPem)) ∧
    ∀ (a : Authenticator) (boxed : List UInt8),
      ∃ result, a.unboxCertOrPanic crypto boxed = .ok result ∧
        (result = .error .boxTooShort ↔ boxed.length < 24) := by
  constructor
  · intro sender receiver nonce hcode
    obtain ⟨boxed, hbox, hunbox⟩ := sender.unboxCert_boxCert lawful hcode nonce
    refine ⟨crypto.encode boxed, ?_, ?_⟩
    · rw [sender.requestCertificateOrPanic_eq lawful]
      unfold Authenticator.requestCertificate
      rw [hbox]
    · intro wire hwire
      have hclean : cleanedCert (String.ofList wire) = crypto.encode boxed :=
        cleanedCert_of_breaksInserted hwire fun c hc => (lawful.isBase64_encode boxed c hc).ne_break
      rw [receiver.receiveOrPanic_eq lawful]
      unfold Authenticator.receive
      rw [hclean, lawful.decode_encode]
      dsimp only
      rw [hunbox]
  · intro a boxed
    exact ⟨_, a.unboxCertOrPanic_eq lawful boxed, a.unboxCert_eq_boxTooShort_iff boxed⟩

/-! ## Section 4: The libraries in use -/

/-- SHA-256, XSalsa20Poly1305 and standard base64. -/
def Crypto.standard : Crypto where
  sha256 := Sha256.digest
  encrypt key nonce message := some (SecretBox.xsalsa20Poly1305.box key nonce message)
  decrypt key nonce ciphertext := SecretBox.xsalsa20Poly1305.unbox key nonce ciphertext
  encode bytes := String.ofList (Base64.encode bytes)
  decode text := Base64.decode text.toList

theorem Crypto.standard_bind (key nonce message : List UInt8) :
    (Crypto.standard.encrypt key nonce message).bind (Crypto.standard.decrypt key nonce)
      = SecretBox.xsalsa20Poly1305.unbox key nonce
          (SecretBox.xsalsa20Poly1305.box key nonce message) := by
  simp only [Crypto.standard, Option.bind_some]

theorem Crypto.standard_lawful : Crypto.standard.Lawful where
  length_sha256 bytes := Sha256.length_digest bytes
  decrypt_encrypt key nonce message := by
    rw [standard_bind, SecretBox.Cipher.unbox_box]
  decode_encode bytes := by
    simp only [Crypto.standard, String.toList_ofList, Base64.decode_encode]
  isBase64_encode bytes c hc := by
    simp only [Crypto.standard, String.toList_ofList] at hc
    exact Base64.isBase64_of_mem_encode hc

/-- A line break after every character. -/
theorem breaksInserted_each (text : List Char) :
    BreaksInserted text (text.flatMap fun c => [c, '\r', '\n']) := by
  induction text with
  | nil => exact .done
  | cons c text ih => exact .keep c (.insert (.inr rfl) (.insert (.inl rfl) ih))

/-- A host of the default group. -/
def hostOfGroup (certPem : String) : Authenticator where
  groupCode := "Warpinator"
  certPem := certPem.toUTF8.toList

def nonceOfZeros : Nonce := ⟨List.replicate 24 0, rfl⟩

/-- The certificate of `b` reaches `a`, one character a line. -/
theorem certificate_exchange_standard :
    (∃ text, (hostOfGroup "-----BEGIN").requestCertificateOrPanic .standard nonceOfZeros
        = .ok (.ok text) ∧
      (hostOfGroup "").receiveOrPanic .standard
          (String.ofList (text.toList.flatMap fun c => [c, '\r', '\n']))
        = .ok (.ok "-----BEGIN".toUTF8.toList)) ∧
    ∃ result, (hostOfGroup "").unboxCertOrPanic .standard (List.replicate 23 0) = .ok result ∧
      (result = .error .boxTooShort ↔ (List.replicate 23 (0 : UInt8)).length < 24) := by
  obtain ⟨hround, htotal⟩ := certificate_exchange Crypto.standard_lawful
  refine ⟨?_, htotal _ _⟩
  obtain ⟨text, hrequest, hreceive⟩ :=
    hround (hostOfGroup "-----BEGIN") (hostOfGroup "") nonceOfZeros rfl
  exact ⟨text, hrequest, hreceive _ (breaksInserted_each text.toList)⟩

end Warpinator
