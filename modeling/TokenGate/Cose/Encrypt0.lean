import TokenGate.Cose.Header

/-!
# COSE_Encrypt0

An encrypted message for a recipient that knows the key. The protected header is authenticated along
with data from outside, as the byte string in which it was received.
-/

namespace TokenGate.Cose

open Cbor

/-- A COSE_Encrypt0 object. -/
structure Encrypt0 where
  /-- The protected header as it was received, or as it is to be sent. -/
  protectedBytes : Bytes
  protectedHeader : Header
  unprotected : Header
  /-- Absent if the ciphertext is detached from the object. -/
  ciphertext : Option Bytes

namespace Encrypt0

/-- The ciphertext member: a byte string, or null where it is detached. -/
def ciphertext? : Value → Option (Option Bytes)
  | .bytes bs => some (some bs)
  | .null => some none
  | _ => none

/-- The object that an array of three is. -/
def ofValue? : Value → Option Encrypt0
  | .array [.bytes protectedBytes, unprotected, ciphertext] => do
    let protectedHeader ← Header.ofProtected? protectedBytes
    let unprotected ← Header.ofValue? unprotected
    let ciphertext ← ciphertext? ciphertext
    some { protectedBytes, protectedHeader, unprotected, ciphertext }
  | _ => none

/-- The object that some bytes are, nothing following it. -/
def decode? (bs : Bytes) : Option Encrypt0 := (decodeExact? bs).bind ofValue?

/-- An object as a value. -/
def toValue (e : Encrypt0) : Value :=
  .array [.bytes e.protectedBytes, e.unprotected.toValue,
    match e.ciphertext with
    | some bs => .bytes bs
    | none => .null]

/-- The bytes of an object. -/
def encode (e : Encrypt0) : Bytes := e.toValue.encode

/-- The additional data that the encryption of an object authenticates. -/
def additionalData (protectedBytes external : Bytes) : Bytes :=
  (Value.array [.text "Encrypt0", .bytes protectedBytes, .bytes external]).encode

/-- Whether two objects are equal, the values in their headers compared as numbers. -/
def eq (a b : Encrypt0) : Bool :=
  a.protectedBytes == b.protectedBytes && a.protectedHeader.eq b.protectedHeader
    && a.unprotected.eq b.unprotected && a.ciphertext == b.ciphertext

end Encrypt0

end TokenGate.Cose
