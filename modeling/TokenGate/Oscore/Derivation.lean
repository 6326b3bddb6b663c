import TokenGate.Digest.Hkdf
import TokenGate.Oscore.Material

/-!
# OSCORE security contexts

The derivation of keys and of the common initialization vector (RFC 8613 section 3.2), with the
nonces of the two peers added to the master salt (RFC 9203 section 4.3). A context has two sides:
what one peer sends with is what the other receives with.
-/

namespace TokenGate.Oscore

open Cbor

/-- The longest identifier of a peer. -/
def maxIdLength : Nat := 7

/-- The longest nonce of a peer. -/
def maxNonceLength : Nat := 16

/-- The algorithm of material that names none: AES-CCM-16-64-128. -/
def defaultAlgorithm : Int64 := 10

/-- The key derivation function: HKDF with SHA-256. -/
def hkdfSha256 : Int64 := -10

/-- Why no context can be derived. -/
inductive DeriveError where
  | unsupportedVersion (version : UInt64)
  | unsupportedHkdf (hkdf : Int64)
  | unsupportedAlgorithm (alg : Int64)
  | identicalIds
  deriving DecidableEq, Repr

/-- The wording of an error. -/
def DeriveError.message : DeriveError → String
  | unsupportedVersion version => "unsupported OSCORE version " ++ toString version.toNat
  | unsupportedHkdf hkdf => "unsupported HKDF algorithm " ++ toString hkdf.toInt
  | unsupportedAlgorithm alg => "unsupported AEAD algorithm " ++ toString alg.toInt
  | identicalIds => "sender and recipient ID are identical"

/-- The lengths of key and nonce of an AEAD algorithm. -/
def lengths? (alg : Int64) : Option (Nat × Nat) :=
  ([(1, 16, 12), (2, 24, 12), (3, 32, 12), (10, 16, 13), (11, 32, 13), (12, 16, 7), (13, 32, 7),
    (24, 32, 12), (30, 16, 13), (31, 32, 13), (32, 16, 7), (33, 32, 7)] :
    List (Int64 × Nat × Nat)).lookup alg

/-- The info string under which `length` bytes of a kind are expanded for a peer. -/
def info (id : Bytes) (idContext : Option Bytes) (alg : Int64) (kind : String) (length : Nat) :
    Bytes :=
  (Value.array [.bytes id,
    match idContext with
    | some bs => .bytes bs
    | none => .null,
    .ofInt64 alg, .text kind, .uint (UInt64.ofNat length)]).encode

/-- The keys of a context and its common initialization vector. -/
structure DerivedKeys where
  senderKey : Bytes
  recipientKey : Bytes
  commonIv : Bytes
  deriving DecidableEq, Repr

/-- The keys that follow from a master secret and a master salt. -/
def deriveKeys (secret salt : Bytes) (idContext : Option Bytes) (senderId recipientId : Bytes)
    (alg : Int64) : Except DeriveError DerivedKeys :=
  match lengths? alg with
  | none => .error (.unsupportedAlgorithm alg)
  | some (keyLength, nonceLength) =>
    let key := Hkdf.extract salt secret
    let expand (id : Bytes) (kind : String) (length : Nat) : Bytes :=
      Hkdf.expand key (info id idContext alg kind length) length
    .ok { senderKey := expand senderId "Key" keyLength
          recipientKey := expand recipientId "Key" keyLength
          commonIv := expand [] "IV" nonceLength }

/-- The master salt of an exchange: the salt of the material and both nonces, each as a CBOR byte
string. -/
def masterSalt (salt : Option Bytes) (nonce1 nonce2 : Bytes) : Bytes :=
  (Value.bytes (salt.getD [])).encode ++ (Value.bytes nonce1).encode ++ (Value.bytes nonce2).encode

/-- A security context. -/
structure Context where
  alg : Int64
  idContext : Option Bytes
  senderId : Bytes
  recipientId : Bytes
  keys : DerivedKeys
  deriving DecidableEq, Repr

/-- The context that follows from input material and the nonces of an exchange, for the peer that
sends with `senderId` and receives with `recipientId`. -/
def derive (material : Material) (nonce1 nonce2 senderId recipientId : Bytes) :
    Except DeriveError Context :=
  match material.version.filter (· ≠ 1), material.hkdf.filter (· ≠ hkdfSha256) with
  | some version, _ => .error (.unsupportedVersion version)
  | none, some hkdf => .error (.unsupportedHkdf hkdf)
  | none, none =>
    if senderId = recipientId then .error .identicalIds
    else do
      let alg := material.alg.getD defaultAlgorithm
      let keys ← deriveKeys material.ms (masterSalt material.salt nonce1 nonce2)
        material.contextId senderId recipientId alg
      .ok { alg, idContext := material.contextId, senderId, recipientId, keys }

end TokenGate.Oscore
