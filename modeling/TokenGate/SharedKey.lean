import TokenGate.Cipher.Suite
import TokenGate.Cose.Encrypt0

/-!
# The key shared with the issuer

Tokens, and the keys in their confirmations, come as COSE_Encrypt0 objects that the issuer encrypted
with a key it shares with this server. The initialization vector is in the unprotected header, or
else in the protected one. An algorithm named in the protected header has to be the one agreed on.
-/

namespace TokenGate

/-- The algorithms in use between a server and its issuer. -/
inductive CcmAlgorithm where
  | ccm16Tag64Key128
  | ccm16Tag128Key128
  | ccm16Tag128Key256
  deriving DecidableEq, Repr

/-- Why a shared key cannot be set up, or an object neither be made nor be opened with it. -/
inductive CryptoError where
  | unsupportedAlgorithm (label : Int64)
  | keyLength (expected actual : Nat)
  | algorithmMismatch
  | badIv
  | decryptionFailed
  /-- The header of an object to be made has an algorithm or an initialization vector already. -/
  | headerSet
  /-- A message is longer than the algorithm allows. -/
  | messageTooLong
  deriving DecidableEq, Repr

/-- The wording of an error. -/
def CryptoError.message : CryptoError → String
  | unsupportedAlgorithm label => "unsupported algorithm " ++ toString label.toInt
  | keyLength expected actual =>
    "key has " ++ toString actual ++ " bytes, algorithm needs " ++ toString expected
  | algorithmMismatch => "algorithm in message does not match the configured one"
  | badIv => "IV missing or of wrong length"
  | decryptionFailed => "decryption failed"
  | headerSet => "COSE header setup failed"
  | messageTooLong => "message too long"

namespace CcmAlgorithm

/-- The COSE label of an algorithm. -/
def label : CcmAlgorithm → Int64
  | ccm16Tag64Key128 => 10
  | ccm16Tag128Key128 => 30
  | ccm16Tag128Key256 => 31

/-- The lengths of an algorithm. -/
def suite : CcmAlgorithm → Cipher.Suite
  | ccm16Tag64Key128 => ⟨16, 13, 8⟩
  | ccm16Tag128Key128 => ⟨16, 13, 16⟩
  | ccm16Tag128Key256 => ⟨32, 13, 16⟩

/-- The name of an algorithm in descriptions. -/
def name : CcmAlgorithm → String
  | ccm16Tag64Key128 => "AesCcm16_64_128"
  | ccm16Tag128Key128 => "AesCcm16_128_128"
  | ccm16Tag128Key256 => "AesCcm16_128_256"

/-- Every algorithm. -/
def all : List CcmAlgorithm := [ccm16Tag64Key128, ccm16Tag128Key128, ccm16Tag128Key256]

/-- The algorithm with a COSE label. -/
def ofLabel (n : Int64) : Except CryptoError CcmAlgorithm :=
  match all.find? fun a => a.label = n with
  | some a => .ok a
  | none => .error (.unsupportedAlgorithm n)

end CcmAlgorithm

/-- Why an object was not opened. -/
inductive OpenError where
  | crypto (error : CryptoError)
  /-- The ciphertext is not in the object, which nothing here can deal with. -/
  | detached
  deriving DecidableEq, Repr

/-- A key shared with the issuer, as long as its algorithm needs it. -/
structure SharedKey where
  alg : CcmAlgorithm
  key : Bytes
  length_key : key.length = alg.suite.keyLength

namespace SharedKey

/-- The shared key of an algorithm, if the key is of the right length. -/
def create (key : Bytes) (alg : CcmAlgorithm) : Except CryptoError SharedKey :=
  if h : key.length = alg.suite.keyLength then .ok ⟨alg, key, h⟩
  else .error (.keyLength alg.suite.keyLength key.length)

/-- The name of the algorithm, not the key. -/
def describe (k : SharedKey) : String :=
  "CwtCryptoContext \x7b alg: " ++ k.alg.name ++ ", .. \x7d"

/-- The initialization vector of an object. -/
def ivOf (e : Cose.Encrypt0) : Bytes :=
  if e.unprotected.iv.isEmpty then e.protectedHeader.iv else e.unprotected.iv

/-- The plaintext of an object that was encrypted under a shared key. -/
def openEnvelope (k : SharedKey) (e : Cose.Encrypt0) (external : Bytes) :
    Except OpenError Bytes :=
  if e.protectedHeader.alg.any (· ≠ .int k.alg.label) then .error (.crypto .algorithmMismatch)
  else if (ivOf e).length ≠ k.alg.suite.nonceLength then .error (.crypto .badIv)
  else
    match e.ciphertext with
    | none => .error .detached
    | some ciphertext =>
      match k.alg.suite.decrypt? k.key (ivOf e)
        (Cose.Encrypt0.additionalData e.protectedBytes external) ciphertext with
      | some plaintext => .ok plaintext
      | none => .error (.crypto .decryptionFailed)

/-- The protected and the unprotected header with an algorithm and an initialization vector put where
recipients look for them. Neither header may have any of the two before. -/
def announce (label : Int64) (iv : Bytes) (protectedHeader unprotected : Cose.Header) :
    Except CryptoError (Cose.Header × Cose.Header) :=
  if !protectedHeader.iv.isEmpty || !unprotected.iv.isEmpty
    || protectedHeader.alg.isSome || unprotected.alg.isSome then .error .headerSet
  else .ok ({ protectedHeader with alg := some (.int label) }, { unprotected with iv })

/-- A plaintext encrypted under a shared key. -/
def sealEnvelope (k : SharedKey) (plaintext external iv : Bytes) : Except CryptoError Cose.Encrypt0 := do
  if iv.length ≠ k.alg.suite.nonceLength then .error .badIv
  else
    let (protectedHeader, unprotected) ← announce k.alg.label iv {} {}
    let protectedBytes := Cose.Header.toProtected protectedHeader
    match k.alg.suite.encrypt? k.key iv
      (Cose.Encrypt0.additionalData protectedBytes external) plaintext with
    | some ciphertext =>
      .ok { protectedBytes, protectedHeader, unprotected, ciphertext := some ciphertext }
    | none => .error .messageTooLong

end SharedKey

end TokenGate
