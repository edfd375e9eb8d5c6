import Warpinator.Types.Transfer

/-! # The Authenticator

    `authenticator.rs`: the certificate of a host travels in a box that the
    group code opens.  The cipher, the digest and the text encoding are those
    of the libraries and stay parameters. -/

namespace Warpinator

structure Crypto where
  sha256 : List UInt8 → List UInt8
  /-- XSalsa20Poly1305; arguments are the key, the nonce and the message. -/
  encrypt : List UInt8 → List UInt8 → List UInt8 → Option (List UInt8)
  decrypt : List UInt8 → List UInt8 → List UInt8 → Option (List UInt8)
  /-- Standard base64. -/
  encode : List UInt8 → String
  decode : String → Option (List UInt8)

/-- A cipher that hides nothing. -/
def Crypto.plain : Crypto where
  sha256 := id
  encrypt _ _ message := some message
  decrypt _ _ ciphertext := some ciphertext
  encode bytes := String.ofList (bytes.map fun b => Char.ofNat b.toNat)
  decode text := some (text.toList.map fun c => UInt8.ofNat c.toNat)

inductive CertUnboxError where
  | boxTooShort
  | decryptionFailed
  deriving DecidableEq, Repr

structure Authenticator where
  groupCode : String
  certPem : List UInt8

namespace Authenticator

variable (crypto : Crypto) (a : Authenticator)

def deriveKey : List UInt8 := crypto.sha256 a.groupCode.toUTF8.toList

/-- The box is the nonce followed by the ciphertext. -/
def boxCert (nonce : List UInt8) : Option (List UInt8) :=
  (crypto.encrypt (a.deriveKey crypto) nonce a.certPem).map fun ciphertext => nonce ++ ciphertext

def unboxCert (boxed : List UInt8) : Except CertUnboxError (List UInt8) :=
  if boxed.length < 24 then .error .boxTooShort
  else
    match crypto.decrypt (a.deriveKey crypto) (boxed.take 24) (boxed.drop 24) with
    | some cert => .ok cert
    | none => .error .decryptionFailed

/-- `request_certificate`: the `locked_cert` of the response. -/
def requestCertificate (nonce : List UInt8) : Except Status String :=
  match a.boxCert crypto nonce with
  | some boxed => .ok (crypto.encode boxed)
  | none => .error { code := .internal, message := "Failed to box certificate" }

end Authenticator

end Warpinator
