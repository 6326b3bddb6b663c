import TokenGate.AccessToken
import TokenGate.Proofs.Cbor.Values
import TokenGate.Proofs.Cipher.Ccm

/-!
# Protection of tokens

A key shared with the issuer opens an envelope if and only if its ciphertext is the encryption of the plaintext under that key, with
the initialization vector and the protected header of that very envelope, and its header names no other algorithm. What is sealed
with the key is therefore opened with it, and nothing else is.
-/

namespace TokenGate

open Cbor

namespace SharedKey

/-! ## Headers -/

/-- An envelope with a header that a key can be used with. An algorithm need not be named in it, but no other one may be. -/
structure Accepts (k : SharedKey) (e : Cose.Encrypt0) : Prop where
  alg : ∀ label, e.protectedHeader.alg = some label → label = .int k.alg.label
  iv : (ivOf e).length = k.alg.suite.nonceLength

section

variable {k : SharedKey} {e : Cose.Encrypt0}

/-- An envelope with an acceptable header is opened by decrypting its ciphertext, if it has one. -/
theorem openEnvelope_of_accepts (h : k.Accepts e) (external : Bytes) :
    k.openEnvelope e external =
      match e.ciphertext with
      | none => .error .detached
      | some ciphertext =>
        match k.alg.suite.decrypt? k.key (ivOf e) (Cose.Encrypt0.additionalData e.protectedBytes external) ciphertext with
        | some plaintext => .ok plaintext
        | none => .error (.crypto .decryptionFailed) := by
  have named : ¬e.protectedHeader.alg.any (· ≠ .int k.alg.label) = true := by
    intro other
    obtain ⟨label, present, apart⟩ := (Option.any_eq_true _ _).mp other
    exact of_decide_eq_true apart (h.alg label present)
  exact (if_neg named).trans (if_neg (not_not.mpr h.iv))

/-- The header is looked at first. -/
theorem openEnvelope_of_not_accepts (h : ¬k.Accepts e) (external : Bytes) :
    ∃ error, k.openEnvelope e external = .error (.crypto error) := by
  unfold openEnvelope
  split
  · exact ⟨_, rfl⟩
  · rename_i named
    split
    · exact ⟨_, rfl⟩
    · rename_i iv
      refine absurd ⟨fun label present => ?_, not_not.mp iv⟩ h
      simpa [present] using named

end

/-! ## Opening -/

/-- An envelope that protects a plaintext, along with data from outside, by a shared key. -/
structure Protects (k : SharedKey) (e : Cose.Encrypt0) (external plaintext : Bytes) : Prop where
  /-- An algorithm need not be named in the protected header, but no other one may be. -/
  alg : ∀ label, e.protectedHeader.alg = some label → label = .int k.alg.label
  /-- The initialization vector of the unprotected header comes first. -/
  encrypted : ∃ iv ciphertext, iv.length = 13 ∧
    (e.unprotected.iv = iv ∨ e.unprotected.iv = [] ∧ e.protectedHeader.iv = iv) ∧ e.ciphertext = some ciphertext ∧
    Ccm.IsEncryption (Aes.encrypt k.key) k.alg.suite.tagLength iv (Cose.Encrypt0.additionalData e.protectedBytes external)
      plaintext ciphertext

variable (k : SharedKey)

/-- The key is as long as AES needs it. -/
theorem isBlockCipher_encrypt : Ccm.IsBlockCipher (Aes.encrypt k.key) := by
  intro block length
  have keyLength := k.length_key
  cases alg : k.alg with
  | ccm16Tag64Key128 | ccm16Tag128Key128 =>
    rw [alg] at keyLength
    exact Aes.length_encrypt (show 0 < 4 by decide) keyLength length
  | ccm16Tag128Key256 =>
    rw [alg] at keyLength
    exact Aes.length_encrypt (show 0 < 8 by decide) keyLength length

/-- All ciphers take nonces of 13 bytes. -/
theorem nonceLength_eq : k.alg.suite.nonceLength = 13 := by
  cases k.alg <;> rfl

/-- No tag is longer than a block. -/
theorem tagLength_le : k.alg.suite.tagLength ≤ 16 := by
  cases k.alg <;> decide

/-- The initialization vector is in one of the two headers. -/
theorem ivOf_eq_iff {e : Cose.Encrypt0} {iv : Bytes} (length : iv.length = 13) :
    ivOf e = iv ↔ e.unprotected.iv = iv ∨ e.unprotected.iv = [] ∧ e.protectedHeader.iv = iv := by
  unfold ivOf
  split
  · rename_i empty
    rw [List.isEmpty_iff] at empty
    have other : e.unprotected.iv ≠ iv := by
      rintro rfl
      rw [empty] at length
      nomatch length
    rw [or_iff_right other, and_iff_right empty]
  · rename_i given
    rw [List.isEmpty_iff] at given
    exact ⟨Or.inl, fun h => h.resolve_right fun h => given h.1⟩

/-- A ciphertext is decrypted to the plaintext that it is the encryption of. -/
theorem decrypt?_eq_some_iff {nonce additional plaintext ciphertext : Bytes} (length : nonce.length = 13) :
    k.alg.suite.decrypt? k.key nonce additional ciphertext = some plaintext ↔
      Ccm.IsEncryption (Aes.encrypt k.key) k.alg.suite.tagLength nonce additional plaintext ciphertext :=
  Ccm.decrypt?_eq_some_iff k.isBlockCipher_encrypt (by omega) k.tagLength_le

/-- An envelope is opened if it protects the plaintext, and not otherwise. -/
theorem openEnvelope_eq_ok_iff {e : Cose.Encrypt0} {external plaintext : Bytes} :
    k.openEnvelope e external = .ok plaintext ↔ k.Protects e external plaintext := by
  by_cases accepts : k.Accepts e
  · rw [openEnvelope_of_accepts accepts]
    have length := accepts.iv.trans k.nonceLength_eq
    cases present : e.ciphertext with
    | none => exact iff_of_false nofun fun ⟨_, _, _, _, _, same, _⟩ => nomatch present.symm.trans same
    | some ciphertext =>
      simp only
      refine ⟨fun opened => ?_, fun ⟨_, iv, _, own, place, same, encryption⟩ => ?_⟩
      · split at opened
        · rename_i decrypted
          cases opened
          have encryption := (k.decrypt?_eq_some_iff length).mp decrypted
          exact ⟨accepts.alg, ivOf e, ciphertext, length, (ivOf_eq_iff length).mp rfl, present, encryption⟩
        · nomatch opened
      · cases (ivOf_eq_iff own).mpr place
        cases present.symm.trans same
        rw [(k.decrypt?_eq_some_iff length).mpr encryption]
  · obtain ⟨error, failed⟩ := openEnvelope_of_not_accepts accepts external
    rw [failed]
    refine iff_of_false nofun fun ⟨alg, iv, _, own, place, _⟩ => accepts ⟨alg, ?_⟩
    rw [(ivOf_eq_iff own).mpr place, own, k.nonceLength_eq]

end SharedKey

/-! ## Sealing -/

/-- A token is read as the envelope that it was written from, if the envelope can be read back. -/
theorem AccessToken.ofValue_encode {e : Cose.Encrypt0} (faithful : e.toValue.IsFaithful maxDepth)
    (read : Cose.Encrypt0.ofValue? e.toValue = some e) : ofValue (.bytes e.encode) = .ok (.sealed e) := by
  have back : decode? e.encode = some e.toValue := faithful.decode?_encode
  have plain : untag 16 (untag 61 e.toValue) = e.toValue := rfl
  simp only [ofValue, parseEnvelope, back, Option.bind_some, plain, read, Except.map]

namespace SharedKey

variable (k : SharedKey)

/-- The envelope that a ciphertext is put in: the algorithm is named in the protected header, and the initialization vector given in
the other one. -/
def envelopeOf (iv ciphertext : Bytes) : Cose.Encrypt0 where
  protectedBytes := Cose.Header.toProtected { alg := some (.int k.alg.label) }
  protectedHeader := { alg := some (.int k.alg.label) }
  unprotected := { iv }
  ciphertext := some ciphertext

/-- The protected header of an envelope is read back. -/
theorem ofProtected?_envelopeOf (iv ciphertext : Bytes) :
    Cose.Header.ofProtected? (k.envelopeOf iv ciphertext).protectedBytes = some (k.envelopeOf iv ciphertext).protectedHeader := by
  unfold envelopeOf
  cases k.alg <;> rfl

/-- The protected header of an envelope fits in memory. -/
theorem length_protectedBytes_envelopeOf (iv ciphertext : Bytes) :
    (k.envelopeOf iv ciphertext).protectedBytes.length < 2 ^ 64 := by
  change (Cose.Header.toProtected { alg := some (.int k.alg.label) }).length < 2 ^ 64
  cases k.alg <;> decide

section

variable {iv : Bytes} (length : iv.length = 13) (ciphertext : Bytes)
include length

theorem toValue_unprotected_envelopeOf : (k.envelopeOf iv ciphertext).unprotected.toValue = .map [(.uint 5, .bytes iv)] := by
  cases iv with
  | nil => nomatch length
  | cons b iv => rfl

/-- The header with the initialization vector is read back. -/
theorem ofValue?_unprotected_envelopeOf :
    Cose.Header.ofValue? (k.envelopeOf iv ciphertext).unprotected.toValue = some (k.envelopeOf iv ciphertext).unprotected := by
  cases iv with
  | nil => nomatch length
  | cons b iv => rfl

/-- An envelope with an initialization vector is read as it is. -/
theorem ofValue_envelopeOf (short : ciphertext.length < 2 ^ 64) :
    AccessToken.ofValue (.bytes (k.envelopeOf iv ciphertext).encode) = .ok (.sealed (k.envelopeOf iv ciphertext)) := by
  have value : (k.envelopeOf iv ciphertext).toValue = .array [.bytes (k.envelopeOf iv ciphertext).protectedBytes,
      (k.envelopeOf iv ciphertext).unprotected.toValue, .bytes ciphertext] := rfl
  refine AccessToken.ofValue_encode ?_ ?_
  · have unprotected : (k.envelopeOf iv ciphertext).unprotected.toValue.IsFaithful (maxDepth - 1) := by
      rw [k.toValue_unprotected_envelopeOf length]
      refine .map (by simp) ?_ ?_
      · rw [List.forall_mem_singleton]
        exact .uint _ 5
      · rw [List.forall_mem_singleton]
        exact .bytes _ (by omega)
    rw [value]
    refine .array (by simp) ?_
    rw [List.forall_mem_cons, List.forall_mem_cons, List.forall_mem_singleton]
    exact ⟨.bytes _ (k.length_protectedBytes_envelopeOf iv ciphertext), unprotected, .bytes _ short⟩
  · rw [value]
    simp only [Cose.Encrypt0.ofValue?, ofProtected?_envelopeOf, k.ofValue?_unprotected_envelopeOf length,
      Cose.Encrypt0.ciphertext?, Option.bind_eq_bind, Option.bind_some]
    rfl

/-- A plaintext that is not too long is sealed in an envelope that protects it. -/
theorem exists_sealEnvelope {plaintext : Bytes} (fits : plaintext.length ≤ 65535) (external : Bytes) :
    ∃ ciphertext, ciphertext.length < 2 ^ 64 ∧ k.sealEnvelope plaintext external iv = .ok (k.envelopeOf iv ciphertext) ∧
      k.Protects (k.envelopeOf iv ciphertext) external plaintext := by
  have room : plaintext.length < 256 ^ (15 - iv.length) := by
    rw [length]
    exact Nat.lt_succ_of_le fits
  have tag := k.tagLength_le
  obtain ⟨ciphertext, made⟩ : ∃ ciphertext, k.alg.suite.encrypt? k.key iv
      (Cose.Encrypt0.additionalData (Cose.Header.toProtected { alg := some (.int k.alg.label) }) external) plaintext =
        some ciphertext :=
    ⟨_, Ccm.encrypt?_of_fits _ _ _ room⟩
  have encryption := Ccm.isEncryption_of_encrypt? k.isBlockCipher_encrypt (by omega) tag made
  refine ⟨ciphertext, ?_, ?_, ?_, iv, ciphertext, length, Or.inl rfl, rfl, encryption⟩
  · rw [encryption.length]
    omega
  · have nonce := length.trans k.nonceLength_eq.symm
    have announced : announce k.alg.label iv {} {} = .ok ({ alg := some (.int k.alg.label) }, { iv }) := rfl
    simp only [sealEnvelope, nonce, ne_eq, not_true_eq_false, if_false, announced, bind, Except.bind, made]
    rfl
  · exact fun label named => (Option.some.inj named).symm

end

/-- Protection by a shared key is exact. An envelope is opened to the plaintext that it protects, and only to that. And the token
made from claims that are read back from their encoding is parsed and opened as those claims. -/
theorem protection_exact :
    (∀ (e : Cose.Encrypt0) (external plaintext : Bytes),
      k.openEnvelope e external = .ok plaintext ↔ k.Protects e external plaintext) ∧
    ∀ (claims : Claims) (plaintext iv : Bytes), claims.encode = .ok plaintext → Claims.decode plaintext = .ok claims →
      plaintext.length ≤ 65535 → iv.length = 13 →
        ∃ token e, AccessToken.sealClaims claims k iv = .ok token ∧ AccessToken.ofValue (.bytes token) = .ok (.sealed e) ∧
          AccessToken.openClaims e k = .ok claims := by
  refine ⟨fun e external plaintext => k.openEnvelope_eq_ok_iff, fun claims plaintext iv written read fits length => ?_⟩
  obtain ⟨ciphertext, short, made, protects⟩ := k.exists_sealEnvelope length fits []
  refine ⟨(k.envelopeOf iv ciphertext).encode, k.envelopeOf iv ciphertext, ?_, k.ofValue_envelopeOf length ciphertext short, ?_⟩
  · simp only [AccessToken.sealClaims, written, made, Except.mapError, bind, Except.bind]
  · simp only [AccessToken.openClaims, k.openEnvelope_eq_ok_iff.mpr protects, read, Except.mapError]

namespace Sample

/-- The key of 32 bytes that a server shares with its issuer. -/
def longKey : SharedKey := ⟨.ccm16Tag128Key256, List.replicate 32 0x61, by decide⟩

/-- Claims of more than a block: an issuer, an audience, an expiration, a key identifier and a scope. -/
def plaintext : Bytes :=
  [0xa5, 0x01, 0x62, 0x41, 0x53, 0x03, 0x63, 0x72, 0x73, 0x31, 0x04, 0x18, 0x64, 0x08, 0xa1, 0x03, 0x43, 0x6b, 0x69, 0x64,
    0x09, 0x66, 0x72, 0x5f, 0x74, 0x65, 0x6d, 0x70]

end Sample

/-- Claims of more than a block are sealed with a key of 32 bytes, and opened again. -/
theorem protection_exact_of_long_key : ∃ claims token e,
    claims.encode = .ok Sample.plaintext ∧ Claims.decode Sample.plaintext = .ok claims ∧ Sample.plaintext.length ≤ 65535 ∧
      AccessToken.sealClaims claims Sample.longKey (List.replicate 13 7) = .ok token ∧
      AccessToken.ofValue (.bytes token) = .ok (.sealed e) ∧ AccessToken.openClaims e Sample.longKey = .ok claims := by
  have outcome : (Claims.decode Sample.plaintext).toOption.map (·.encode.toOption) = some (some Sample.plaintext) := by
    decide +kernel
  cases read : Claims.decode Sample.plaintext with
  | error e =>
    rw [read] at outcome
    nomatch outcome
  | ok claims =>
    rw [read] at outcome
    have same : claims.encode.toOption = some Sample.plaintext := Option.some.inj outcome
    cases written : claims.encode with
    | error e =>
      rw [written] at same
      nomatch same
    | ok bs =>
      rw [written] at same
      cases Option.some.inj same
      obtain ⟨token, e, made, parsed, opened⟩ := (protection_exact Sample.longKey).2 claims Sample.plaintext (List.replicate 13 7)
        written read (by decide) (by decide)
      exact ⟨claims, token, e, written, rfl, by decide, made, parsed, opened⟩

end SharedKey

end TokenGate
