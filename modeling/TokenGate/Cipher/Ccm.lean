import TokenGate.Bytes

/-!
# CCM

Counter mode with a CBC-MAC, over a block cipher with blocks of 16 bytes. The nonce and the length of
the message share 15 bytes, so a longer nonce leaves room for shorter messages only.

The recipient decrypts, encrypts the outcome again, and accepts it if the result is what came in:
the messages accepted are exactly the ones that encryption makes.
-/

namespace TokenGate.Ccm

/-- How many bytes the length of a message and the block counter take next to a nonce. -/
def counterLength (nonce : Bytes) : Nat := 15 - nonce.length

/-- The first block to authenticate: the format, the nonce and the length of the message. -/
def firstBlock (tagLength : Nat) (nonce additional message : Bytes) : Bytes :=
  let flags := (if additional.isEmpty then 0 else 64) + 8 * ((tagLength - 2) / 2)
    + (counterLength nonce - 1)
  UInt8.ofNat flags :: nonce ++ Bytes.ofNat (counterLength nonce) message.length

/-- The additional data as it is authenticated: after its length, which is left out if it is zero. -/
def lengthAndData (additional : Bytes) : Bytes :=
  let n := additional.length
  if n = 0 then []
  else if n < 0xFF00 then Bytes.ofNat 2 n ++ additional
  else if n < 0x100000000 then 0xFF :: 0xFE :: Bytes.ofNat 4 n ++ additional
  else 0xFF :: 0xFF :: Bytes.ofNat 8 n ++ additional

/-- The chained encryption of some blocks, short ones being filled up with zeros. -/
def chain (cipher : Bytes → Bytes) (blocks : List Bytes) : Bytes :=
  blocks.foldl (fun mac block => cipher (mac.xor (block.padTo 16))) (List.replicate 16 0)

/-- The authentication code of a message, before it is encrypted. -/
def mac (cipher : Bytes → Bytes) (tagLength : Nat) (nonce additional message : Bytes) : Bytes :=
  (chain cipher (firstBlock tagLength nonce additional message
    :: (lengthAndData additional).blocks 16 ++ message.blocks 16)).take tagLength

/-- The `i`-th block of the key stream. -/
def streamBlock (cipher : Bytes → Bytes) (nonce : Bytes) (i : Nat) : Bytes :=
  cipher (UInt8.ofNat (counterLength nonce - 1) :: nonce ++ Bytes.ofNat (counterLength nonce) i)

/-- The key stream for a message of some length. -/
def stream (cipher : Bytes → Bytes) (nonce : Bytes) (length : Nat) : Bytes :=
  (List.range ((length + 15) / 16)).flatMap fun i => streamBlock cipher nonce (i + 1)

/-- The encryption of a message with its tag; nothing if the message is too long for the nonce. -/
def encrypt? (cipher : Bytes → Bytes) (tagLength : Nat) (nonce additional message : Bytes) :
    Option Bytes :=
  if message.length < Nat.pow 256 (counterLength nonce) then
    some (message.xor (stream cipher nonce message.length)
      ++ (mac cipher tagLength nonce additional message).xor (streamBlock cipher nonce 0))
  else none

/-- The message that a sealed one was made from; nothing if it was not made with this cipher, nonce
and additional data. -/
def decrypt? (cipher : Bytes → Bytes) (tagLength : Nat) (nonce additional ciphertext : Bytes) :
    Option Bytes :=
  if ciphertext.length < tagLength then none
  else
    let body : Bytes := ciphertext.take (ciphertext.length - tagLength)
    let message := Bytes.xor body (stream cipher nonce body.length)
    if encrypt? cipher tagLength nonce additional message = some ciphertext then some message
    else none

end TokenGate.Ccm
