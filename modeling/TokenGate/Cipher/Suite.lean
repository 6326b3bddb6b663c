import TokenGate.Cipher.Aes
import TokenGate.Cipher.Ccm

/-!
# The AES-CCM algorithms of COSE

COSE registers AES-CCM for two key lengths, two nonce lengths and two tag lengths.
-/

namespace TokenGate.Cipher

/-- A choice of lengths, in bytes. -/
structure Suite where
  keyLength : Nat
  nonceLength : Nat
  tagLength : Nat
  deriving DecidableEq, Repr

namespace Suite

/-- The lengths that belong to a COSE algorithm number. -/
def ofLabel? (label : Int) : Option Suite :=
  if label = 10 then some ⟨16, 13, 8⟩
  else if label = 11 then some ⟨32, 13, 8⟩
  else if label = 12 then some ⟨16, 7, 8⟩
  else if label = 13 then some ⟨32, 7, 8⟩
  else if label = 30 then some ⟨16, 13, 16⟩
  else if label = 31 then some ⟨32, 13, 16⟩
  else if label = 32 then some ⟨16, 7, 16⟩
  else if label = 33 then some ⟨32, 7, 16⟩
  else none

/-- The encryption of a message with its tag. -/
def encrypt? (suite : Suite) (key nonce additional message : Bytes) : Option Bytes :=
  Ccm.encrypt? (Aes.encryptWith (Aes.roundKeys key)) suite.tagLength nonce additional message

/-- The message that an encrypted one was made from. -/
def decrypt? (suite : Suite) (key nonce additional ciphertext : Bytes) : Option Bytes :=
  Ccm.decrypt? (Aes.encryptWith (Aes.roundKeys key)) suite.tagLength nonce additional ciphertext

end Suite

end TokenGate.Cipher
