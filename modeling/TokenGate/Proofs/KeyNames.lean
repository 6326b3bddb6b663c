import TokenGate.Repository.Addition
import TokenGate.Proofs.Text.Base64

/-!
# Names of keys

A key with an identifier is filed under a text: the identifier itself if it is text, and otherwise its base64. The two kinds of names
are not told apart. So different identifiers have different names, with one exception: bytes that are no text have the name of the
text that spells them in base64.
-/

namespace TokenGate

namespace KeyName

/-- Some bytes are no text by themselves, and others are the text that spells them in base64. -/
def Spells (kid text : Bytes) : Prop :=
  Text.ofUtf8? kid = none ∧ text = Text.utf8 (Text.Base64.encode kid)

instance (kid text : Bytes) : Decidable (Spells kid text) :=
  inferInstanceAs (Decidable (_ ∧ _))

/-- An identifier that is spelled by another one has its name. -/
theorem ofKid_of_spells {kid text : Bytes} (h : Spells kid text) : ofKid text = ofKid kid := by
  rw [ofKid, ofKid, h.2, Text.ofUtf8?_utf8, h.1, Option.getD_some, Option.getD_none]

/-- Bytes that are no text and have the name of a text are spelled by it. -/
theorem spells_of_ofKid_eq {kid text : Bytes} {s : String} (unread : Text.ofUtf8? kid = none) (read : Text.ofUtf8? text = some s)
    (same : ofKid kid = ofKid text) : Spells kid text := by
  have spelled : Text.Base64.encode kid = s := by
    have texts := congrArg KeyName.text same
    simpa only [ofKid, unread, read, Option.getD_none, Option.getD_some] using texts
  refine ⟨unread, ?_⟩
  rw [spelled]
  exact (Text.utf8_of_ofUtf8? read).symm

/-- Two identifiers have the same name exactly if they are the same, or one of them spells the other. -/
theorem ofKid_eq_iff {a b : Bytes} : ofKid a = ofKid b ↔ a = b ∨ Spells a b ∨ Spells b a := by
  constructor
  · intro same
    cases first : Text.ofUtf8? a with
    | some s =>
      cases second : Text.ofUtf8? b with
      | some t =>
        have texts : s = t := by simpa [ofKid, first, second] using same
        rw [← Text.utf8_of_ofUtf8? first, ← Text.utf8_of_ofUtf8? second, texts]
        exact Or.inl rfl
      | none => exact Or.inr (Or.inr (spells_of_ofKid_eq second first same.symm))
    | none =>
      cases second : Text.ofUtf8? b with
      | some t => exact Or.inr (Or.inl (spells_of_ofKid_eq first second same))
      | none =>
        have texts : Text.Base64.encode a = Text.Base64.encode b := by simpa [ofKid, first, second] using same
        have read := congrArg Text.Base64.decode? texts
        rw [Text.Base64.decode?_encode, Text.Base64.decode?_encode] at read
        exact Or.inl (Option.some.inj read)
  · rintro (rfl | spelled | spelled)
    · rfl
    · exact (ofKid_of_spells spelled).symm
    · exact ofKid_of_spells spelled

end KeyName

namespace PopKey

/-- The identifier that a key is named by, if it is named by one. -/
def identifier? : PopKey → Option Bytes
  | .oscore material => some material.id
  | .cose key => if key.kty = Cose.Key.symmetricType then some key.kid else none

/-- A key that is named by its identifier has the name of the identifier. -/
theorem name_of_identifier? {key : PopKey} {kid : Bytes} {filed : KeyName} (identified : key.identifier? = some kid)
    (named : key.name = .ok filed) : filed = .ofKid kid := by
  cases key with
  | oscore material =>
    cases identified
    exact (Except.ok.inj named).symm
  | cose key =>
    obtain ⟨symmetric, same⟩ := Option.ite_none_right_eq_some.mp identified
    cases same
    rw [name, if_pos symmetric] at named
    split at named
    · nomatch named
    · exact (Except.ok.inj named).symm

end PopKey

namespace Submission

/-- A key that comes along is filed under its own name. -/
theorem name_of_named {key carried : PopKey} {filed : KeyName} (h : named key = .ok (filed, some carried)) :
    carried.name = .ok filed := by
  unfold named at h
  cases name : key.name with
  | error rejection =>
    rw [name] at h
    nomatch h
  | ok own =>
    rw [name] at h
    cases h
    exact name

/-- A key that a token brings along is filed under its own name. -/
theorem name_of_keyOf {shared : SharedKey} {cnf : Confirmation} {filed : KeyName} {carried : PopKey}
    (h : keyOf shared cnf = .ok (filed, some carried)) : carried.name = .ok filed := by
  cases cnf with
  | kid kid => nomatch h
  | key key => exact name_of_named h
  | oscore material => exact name_of_named (show named (.oscore material) = _ from h)
  | encryptedKey envelope =>
    change (decryptKey envelope shared >>= named) = _ at h
    cases opened : decryptKey envelope shared with
    | error e =>
      rw [opened] at h
      nomatch h
    | ok key =>
      rw [opened] at h
      exact name_of_named h

end Submission

end TokenGate
