import TokenGate.Digest.Sha256

/-!
# HMAC and HKDF with SHA-256

A message authentication code keyed by two paddings of the key, and the key derivation that extracts a
pseudorandom key from a secret and expands it under an info string.
-/

namespace TokenGate

namespace Hmac

/-- The length of the blocks that the hash function works on. -/
def blockLength : Nat := 64

/-- The authentication code of a message. A key longer than a block is hashed first. -/
def code (key message : Bytes) : Bytes :=
  let key := if blockLength < key.length then Sha256.hash key else key
  let key := key.padTo blockLength
  Sha256.hash (key.map (· ^^^ 0x5c) ++ Sha256.hash (key.map (· ^^^ 0x36) ++ message))

end Hmac

namespace Hkdf

/-- The pseudorandom key of a secret. -/
def extract (salt secret : Bytes) : Bytes := Hmac.code salt secret

/-- `count` blocks of output, `last` being the one before them and `index` their first number. -/
def outputs (key info : Bytes) : (count : Nat) → (last : Bytes) → (index : Nat) → Bytes
  | 0, _, _ => []
  | count + 1, last, index =>
    let block := Hmac.code key (last ++ info ++ [UInt8.ofNat index])
    block ++ outputs key info count block (index + 1)

/-- `length` bytes for an info string. -/
def expand (key info : Bytes) (length : Nat) : Bytes :=
  (outputs key info ((length + 31) / 32) [] 1).take length

end Hkdf

end TokenGate
