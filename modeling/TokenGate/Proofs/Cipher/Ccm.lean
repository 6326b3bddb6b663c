import Mathlib.Algebra.Ring.Nat
import Mathlib.Data.List.GetD
import TokenGate.Cipher.Ccm
import TokenGate.Proofs.Cipher.Aes

/-!
# What CCM makes of a message

The encryption of a message is described byte by byte, and a byte string is decrypted to a message if and only if it is that
message's encryption. This holds for messages of any length that the nonce leaves room for, whole blocks or not.
-/

namespace TokenGate

namespace Bytes

theorem getD_xor {as bs : Bytes} {i : Nat} (left : i < as.length) (right : i < bs.length) :
    (as.xor bs).getD i 0 = as.getD i 0 ^^^ bs.getD i 0 := by
  have both : i < (as.xor bs).length := by
    rw [length_xor]
    omega
  rw [List.getD_eq_getElem _ _ both, List.getD_eq_getElem _ _ left, List.getD_eq_getElem _ _ right]
  exact List.getElem_zipWith

/-- Combining with the same string twice changes nothing. -/
theorem xor_xor {as bs : Bytes} (enough : as.length ≤ bs.length) : (as.xor bs).xor bs = as := by
  induction as generalizing bs with
  | nil => rfl
  | cons a as ih =>
    cases bs with
    | nil => nomatch enough
    | cons b bs =>
      have others : Bytes.xor (Bytes.xor as bs) bs = as := ih (Nat.le_of_succ_le_succ enough)
      change (a ^^^ b ^^^ b) :: Bytes.xor (Bytes.xor as bs) bs = a :: as
      rw [others, UInt8.xor_assoc, UInt8.xor_self, UInt8.xor_zero]

/-- Strings of one length are equal if they are byte by byte. -/
theorem eq_of_getD {as bs : Bytes} (length : as.length = bs.length) (each : ∀ i < as.length, as.getD i 0 = bs.getD i 0) :
    as = bs := by
  refine List.ext_getElem length fun i left right => ?_
  rw [← List.getD_eq_getElem _ 0 left, ← List.getD_eq_getElem _ 0 right]
  exact each i left

/-- A byte of a string of blocks is in the block that its position falls into. -/
theorem getD_flatten {size : Nat} {strings : List Bytes} (each : ∀ bs ∈ strings, bs.length = size) {i : Nat}
    (inside : i < strings.length * size) : strings.flatten.getD i 0 = (strings.getD (i / size) []).getD (i % size) 0 := by
  induction strings generalizing i with
  | nil =>
    rw [List.length_nil, Nat.zero_mul] at inside
    nomatch inside
  | cons bs strings ih =>
    rw [List.forall_mem_cons] at each
    rw [List.length_cons, Nat.succ_mul] at inside
    rw [List.flatten_cons]
    by_cases first : i < size
    · have within : i < bs.length := by rwa [each.1]
      rw [List.getD_append _ _ _ _ within, Nat.div_eq_of_lt first, Nat.mod_eq_of_lt first, List.getD_cons_zero]
    · obtain ⟨j, rfl⟩ : ∃ j, i = j + size := ⟨i - size, by omega⟩
      have positive : 0 < size := by
        rcases Nat.eq_zero_or_pos size with rfl | positive
        · rw [Nat.mul_zero] at inside
          omega
        · exact positive
      have beyond : bs.length ≤ j + size := by
        rw [each.1]
        exact Nat.le_add_left size j
      rw [List.getD_append_right _ _ _ _ beyond, each.1, Nat.add_sub_cancel, ih each.2 (by omega), Nat.add_div_right j positive,
        Nat.add_mod_right, List.getD_cons_succ]

end Bytes

namespace Ccm

/-- A cipher that makes blocks of blocks. -/
def IsBlockCipher (cipher : Bytes → Bytes) : Prop := ∀ block : Bytes, block.length = 16 → (cipher block).length = 16

/-- The byte of the key stream for a position in a message. The stream begins with the block after the one for the tag. -/
def streamByte (cipher : Bytes → Bytes) (nonce : Bytes) (i : Nat) : UInt8 :=
  (streamBlock cipher nonce (i / 16 + 1)).getD (i % 16) 0

/-- The encryption of a message: each of its bytes combined with the one of the key stream, and after them each byte of the
authentication code combined with the one of the first block. -/
structure IsEncryption (cipher : Bytes → Bytes) (tagLength : Nat) (nonce additional message ciphertext : Bytes) : Prop where
  fits : message.length < 256 ^ (15 - nonce.length)
  length : ciphertext.length = message.length + tagLength
  body : ∀ i < message.length, ciphertext.getD i 0 = message.getD i 0 ^^^ streamByte cipher nonce i
  tag : ∀ i < tagLength, ciphertext.getD (message.length + i) 0 =
    (mac cipher tagLength nonce additional message).getD i 0 ^^^ (streamBlock cipher nonce 0).getD i 0

/-- A message that is not too long is encrypted, with its code behind it. -/
theorem encrypt?_of_fits (cipher : Bytes → Bytes) (tagLength : Nat) {nonce message : Bytes} (additional : Bytes)
    (fits : message.length < 256 ^ (15 - nonce.length)) :
    encrypt? cipher tagLength nonce additional message =
      some (message.xor (stream cipher nonce message.length) ++
        (mac cipher tagLength nonce additional message).xor (streamBlock cipher nonce 0)) :=
  if_pos fits

/-- A message has only one encryption. -/
theorem IsEncryption.unique {cipher : Bytes → Bytes} {tagLength : Nat} {nonce additional message ciphertext other : Bytes}
    (h : IsEncryption cipher tagLength nonce additional message ciphertext)
    (h' : IsEncryption cipher tagLength nonce additional message other) : ciphertext = other := by
  refine Bytes.eq_of_getD (h.length.trans h'.length.symm) fun i inside => ?_
  by_cases inBody : i < message.length
  · rw [h.body i inBody, h'.body i inBody]
  · obtain ⟨j, rfl⟩ := Nat.exists_eq_add_of_le (Nat.le_of_not_lt inBody)
    have inTag : j < tagLength := by
      rw [h.length] at inside
      omega
    rw [h.tag j inTag, h'.tag j inTag]

/-! ## Lengths -/

section

variable {cipher : Bytes → Bytes} (block : IsBlockCipher cipher)
include block

/-- The chain of the authentication code ends in a block. -/
theorem length_chain (blocks : List Bytes) : (chain cipher blocks).length = 16 := by
  have go : ∀ start : Bytes, start.length = 16 →
      (blocks.foldl (fun mac block => cipher (mac.xor (block.padTo 16))) start).length = 16 := by
    induction blocks with
    | nil => exact fun _ length => length
    | cons first blocks ih =>
      refine fun start length => ih _ (block _ ?_)
      rw [Bytes.length_xor, length, Bytes.length_padTo]
      omega
  exact go _ List.length_replicate

/-- The authentication code has the length that is asked for. -/
theorem length_mac {tagLength : Nat} (short : tagLength ≤ 16) (nonce additional message : Bytes) :
    (mac cipher tagLength nonce additional message).length = tagLength := by
  rw [mac, List.length_take, length_chain block, Nat.min_eq_left short]

variable {nonce : Bytes} (room : nonce.length ≤ 15)
include room

theorem length_streamBlock (i : Nat) : (streamBlock cipher nonce i).length = 16 := by
  refine block _ ?_
  rw [List.length_append, List.length_cons, Bytes.length_ofNat, counterLength]
  omega

theorem length_of_mem_streamBlocks {n : Nat} {bs : Bytes}
    (among : bs ∈ (List.range n).map fun i => streamBlock cipher nonce (i + 1)) : bs.length = 16 := by
  obtain ⟨i, _, rfl⟩ := List.mem_map.mp among
  exact length_streamBlock block room (i + 1)

/-- The key stream consists of whole blocks, so many that there are enough bytes. -/
theorem length_stream (length : Nat) : (stream cipher nonce length).length = (length + 15) / 16 * 16 := by
  rw [stream, List.flatMap_def, Bytes.length_flatten fun _ => length_of_mem_streamBlocks block room, List.length_map,
    List.length_range]

/-- The key stream lasts for the whole message. -/
theorem le_length_stream (length : Nat) : length ≤ (stream cipher nonce length).length := by
  rw [length_stream block room]
  omega

/-- The encrypted message is as long as the message. -/
theorem length_body (message : Bytes) : (message.xor (stream cipher nonce message.length)).length = message.length := by
  rw [Bytes.length_xor, Nat.min_eq_left (le_length_stream block room message.length)]

/-- Within the message the key stream has the byte for each position. -/
theorem getD_stream {length i : Nat} (inside : i < length) :
    (stream cipher nonce length).getD i 0 = streamByte cipher nonce i := by
  have among : i / 16 < ((List.range ((length + 15) / 16)).map fun i => streamBlock cipher nonce (i + 1)).length := by
    rw [List.length_map, List.length_range]
    omega
  rw [stream, List.flatMap_def, Bytes.getD_flatten (fun _ => length_of_mem_streamBlocks block room),
    List.getD_eq_getElem _ _ among, List.getElem_map, List.getElem_range, streamByte]
  rw [List.length_map, List.length_range]
  omega

/-! ## Encryption and decryption -/

variable {tagLength : Nat} (short : tagLength ≤ 16) {additional : Bytes}
include short

/-- What a message is encrypted to is its encryption. -/
theorem isEncryption_of_encrypt? {message ciphertext : Bytes}
    (h : encrypt? cipher tagLength nonce additional message = some ciphertext) :
    IsEncryption cipher tagLength nonce additional message ciphertext := by
  unfold encrypt? at h
  split at h
  · rename_i fits
    cases h
    have enough := le_length_stream block room message.length
    have body := length_body block room message
    have code := length_mac block short nonce additional message
    have first := length_streamBlock block room 0
    refine ⟨fits, ?_, fun i inside => ?_, fun i inside => ?_⟩
    · rw [List.length_append, body, Bytes.length_xor, code, first, Nat.min_eq_left short]
    · rw [List.getD_append _ _ _ _ (by rw [body]; exact inside), Bytes.getD_xor inside (Nat.lt_of_lt_of_le inside enough),
        getD_stream block room inside]
    · rw [List.getD_append_right _ _ _ _ (by rw [body]; exact Nat.le_add_right _ _), body, Nat.add_sub_cancel_left,
        Bytes.getD_xor (by rw [code]; exact inside) (by rw [first]; omega)]
  · nomatch h

/-- A message is encrypted to its encryption, if there is one. -/
theorem encrypt?_eq_some_iff {message ciphertext : Bytes} :
    encrypt? cipher tagLength nonce additional message = some ciphertext ↔
      IsEncryption cipher tagLength nonce additional message ciphertext := by
  refine ⟨isEncryption_of_encrypt? block room short, fun h => ?_⟩
  have made := encrypt?_of_fits cipher tagLength additional h.fits
  rw [made, (isEncryption_of_encrypt? block room short made).unique h]

/-- What a message is encrypted to has the encrypted tag at its end. -/
theorem encrypt?_eq_some_iff_parts {message ciphertext : Bytes} :
    encrypt? cipher tagLength nonce additional message = some ciphertext ↔
      message.length < 256 ^ (15 - nonce.length) ∧ ciphertext.length = message.length + tagLength ∧
      ciphertext.take message.length = message.xor (stream cipher nonce message.length) ∧
      ciphertext.drop message.length = (mac cipher tagLength nonce additional message).xor (streamBlock cipher nonce 0) := by
  have body := length_body block room message
  refine ⟨fun h => ?_, fun ⟨fits, _, front, back⟩ => ?_⟩
  · have encryption := isEncryption_of_encrypt? block room short h
    rw [encrypt?_of_fits cipher tagLength additional encryption.fits] at h
    cases h
    exact ⟨encryption.fits, encryption.length, List.take_left' body, List.drop_left' body⟩
  · rw [encrypt?_of_fits cipher tagLength additional fits, ← front, ← back, List.take_append_drop]

/-- A byte string is decrypted to a message if that message is encrypted to it. -/
theorem decrypt?_eq_some_iff_encrypt? {message ciphertext : Bytes} :
    decrypt? cipher tagLength nonce additional ciphertext = some message ↔
      encrypt? cipher tagLength nonce additional message = some ciphertext := by
  refine ⟨fun h => ?_, fun h => ?_⟩
  · simp only [decrypt?] at h
    split at h
    · nomatch h
    · split at h
      · rename_i again
        cases h
        exact again
      · nomatch h
  · obtain ⟨_, length, front, _⟩ := (encrypt?_eq_some_iff_parts block room short).mp h
    have enough : ¬ ciphertext.length < tagLength := by omega
    have size : ciphertext.length - tagLength = message.length := by omega
    simp only [decrypt?, if_neg enough, size, front, length_body block room message,
      Bytes.xor_xor (le_length_stream block room message.length), h, if_pos]

/-- A byte string is decrypted to a message if it is the encryption of that message, and not otherwise. -/
theorem decrypt?_eq_some_iff {message ciphertext : Bytes} :
    decrypt? cipher tagLength nonce additional ciphertext = some message ↔
      IsEncryption cipher tagLength nonce additional message ciphertext :=
  (decrypt?_eq_some_iff_encrypt? block room short).trans (encrypt?_eq_some_iff block room short)

end

end Ccm

end TokenGate
