import TokenGate.PopKey
import TokenGate.Proofs.Claims.Encoding

/-!
# What was decoded

Claims and keys that were decoded from bytes are read back from their own encodings, unless a tag in them stood for an integer or
they were nested so deep that a key does not fit into a confirmation any more. The same is true of a symmetric key, which need not
have been decoded, and of decoded claims with an identifier added.
-/

namespace TokenGate

open Cbor

/-- A value that was decoded from bytes in memory, in which no tag 2 or 3 stands on a byte string of at most 16 bytes, and arrays, maps
and tags are nested at most 250 deep. -/
structure Cbor.Value.IsDecoded (v : Value) : Prop where
  read : ∃ bs : Bytes, bs.length < 2 ^ 64 ∧ Cbor.decode? bs = some v
  plain : v.isPlain = true
  deep : v.depth ≤ 250

/-- What was decoded can be stored, with room for what is put around it. -/
theorem Cbor.Value.IsDecoded.isStorable {v : Value} (h : v.IsDecoded) : v.IsStorable 250 := by
  obtain ⟨bs, short, decoded⟩ := h.read
  exact ⟨h.plain, h.deep, Nat.lt_of_le_of_lt (weight_of_decode? decoded) short⟩

/-! ## Claims -/

namespace Claims

/-- Claims that were decoded. -/
def IsDecoded (c : Claims) : Prop := ∃ v : Value, v.IsDecoded ∧ ofValue v = .ok c

/-- Claims that are read back from their bytes. -/
def IsReadBack (c : Claims) : Prop := ∃ bs, c.encode = .ok bs ∧ decode bs = .ok c

/-- Claims that were decoded can be written and read back, with room for what is put around them. -/
theorem IsDecoded.exists_isRestorable {c : Claims} (h : c.IsDecoded) : ∃ bound < 2 ^ 63, c.IsRestorable 249 bound := by
  obtain ⟨v, decoded, got⟩ := h
  exact isRestorable_of_ofValue decoded.isStorable got

/-- Decoded claims are read back with any identifier. -/
theorem IsDecoded.isReadBack_set {c : Claims} (h : c.IsDecoded) {id : Bytes} (short : id.length < 2 ^ 64) :
    (c.set .cti id).IsReadBack := by
  obtain ⟨bound, few, restorable⟩ := h.exists_isRestorable
  exact (restorable.set ⟨.bytes id, rfl, .bytes 249 short, rfl⟩).exists_encode (by decide) few

/-- The identifier in decoded claims can be written. -/
theorem IsDecoded.length_cti {c : Claims} (h : c.IsDecoded) {id : Bytes} (present : c.cti = some id) : id.length < 2 ^ 64 := by
  obtain ⟨_, _, restorable⟩ := h.exists_isRestorable
  obtain ⟨w, written, faithful, _⟩ := restorable.known .cti id present
  cases written
  cases faithful with
  | bytes _ length => exact length

end Claims

/-! ## Keys -/

namespace PopKey

/-- A key that was decoded, by itself or in a confirmation. -/
inductive IsDecoded : PopKey → Prop
  | cose {v : Value} {key : Cose.Key} (decoded : v.IsDecoded) (read : Cose.Key.ofValue? v = some key) : IsDecoded (.cose key)
  | oscore {v : Value} {material : Oscore.Material} (decoded : v.IsDecoded) (read : Oscore.Material.ofValue? v = some material) :
    IsDecoded (.oscore material)
  | confirmation {v : Value} {key : PopKey} (decoded : v.IsDecoded) (read : Confirmation.ofValue v = .ok key.toConfirmation) :
    IsDecoded key

/-- A key that is read back from the bytes of its confirmation. -/
def IsReadBack (key : PopKey) : Prop :=
  ∃ v, key.toConfirmation.toValue = .ok v ∧ decode? v.encode = some v ∧ Confirmation.ofValue v = .ok key.toConfirmation

/-- A key is read back if its confirmation is. -/
theorem isReadBack_of_faithful {key : PopKey} {depth : Nat} (deep : depth ≤ maxDepth)
    (h : ∃ v, key.toConfirmation.toValue = .ok v ∧ v.IsFaithful depth ∧ Confirmation.ofValue v = .ok key.toConfirmation) :
    key.IsReadBack := by
  obtain ⟨v, written, faithful, again⟩ := h
  exact ⟨v, written, (faithful.mono deep).decode?_encode, again⟩

/-- Decoded keys are read back. -/
theorem IsDecoded.isReadBack {key : PopKey} (h : key.IsDecoded) : key.IsReadBack := by
  cases h with
  | cose decoded read =>
    obtain ⟨w, written, faithful, again⟩ := Cose.Key.exists_value_of_ofValue? decoded.isStorable read
    refine isReadBack_of_faithful (by decide) (Confirmation.exists_value_of_content written faithful ?_)
    exact Confirmation.orMalformed_eq_ok_iff.mpr (congrArg (Option.map Confirmation.key) again)
  | oscore decoded read =>
    obtain ⟨again, faithful⟩ := Oscore.Material.restores 250 _ _ decoded.isStorable read
    refine isReadBack_of_faithful (by decide) (Confirmation.exists_value_of_content rfl faithful ?_)
    exact Confirmation.orMalformed_eq_ok_iff.mpr (congrArg (Option.map Confirmation.oscore) again)
  | confirmation decoded read =>
    exact isReadBack_of_faithful (by decide) (Confirmation.exists_value_of_ofValue decoded.isStorable read)

/-- A key that decoded claims bring along is read back. -/
theorem isReadBack_of_cnf {c : Claims} (decoded : c.IsDecoded) {key : PopKey} (present : c.cnf = some key.toConfirmation) :
    key.IsReadBack := by
  obtain ⟨_, _, restorable⟩ := decoded.exists_isRestorable
  exact isReadBack_of_faithful (by decide) (restorable.known .cnf key.toConfirmation present)

/-- A symmetric key whose parts are in memory. -/
def IsSymmetric (key : PopKey) : Prop :=
  ∃ kid k : Bytes, kid.length < 2 ^ 64 ∧ k.length < 2 ^ 64 ∧ key = .symmetric kid k

/-- Symmetric keys are read back. -/
theorem IsSymmetric.isReadBack {key : PopKey} (h : key.IsSymmetric) : key.IsReadBack := by
  obtain ⟨kid, k, short, short', rfl⟩ := h
  have whole : ∃ w, (symmetric kid k).toConfirmation.content = .ok w ∧ w.IsFaithful 1 ∧
      Cose.Key.ofValue? w = some (.symmetric kid k) := by
    -- An identifier is left out if it is empty.
    cases kid with
    | nil =>
      refine ⟨.map [(.uint 1, .uint 4), (.nint 0, .bytes k)], rfl, .map (by simp) ?_ ?_, rfl⟩
      · simp only [List.forall_mem_cons]
        exact ⟨.uint 0 1, .nint 0 0, nofun⟩
      · simp only [List.forall_mem_cons]
        exact ⟨.uint 0 4, .bytes 0 short', nofun⟩
    | cons b bs =>
      refine ⟨.map [(.uint 1, .uint 4), (.uint 2, .bytes (b :: bs)), (.nint 0, .bytes k)], rfl, .map (by simp) ?_ ?_, rfl⟩
      · simp only [List.forall_mem_cons]
        exact ⟨.uint 0 1, .uint 0 2, .nint 0 0, nofun⟩
      · simp only [List.forall_mem_cons]
        exact ⟨.uint 0 4, .bytes 0 short, .bytes 0 short', nofun⟩
  obtain ⟨w, written, faithful, again⟩ := whole
  refine isReadBack_of_faithful (by decide) (Confirmation.exists_value_of_content written faithful ?_)
  exact Confirmation.orMalformed_eq_ok_iff.mpr (congrArg (Option.map Confirmation.key) again)

end PopKey

end TokenGate
