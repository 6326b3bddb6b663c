import TokenGate.PopKey
import TokenGate.Proofs.Cbor.Nesting
import TokenGate.Proofs.Claims.RoundTrip

/-!
# What can be read again

Claims come back if they are read again with the same expiration, issuer, audience, scope and confirmation, whatever else became of
them. Decoded claims do, with any identifier, unless a tag in what they keep stands for an integer. A key is legible if its
confirmation is read again as some key. A confirmation is nested one level deeper than its key, so that a decoded key that is nested
as deep as can be is not legible.
-/

namespace TokenGate

open Cbor

/-! ## Claims -/

namespace Claims

/-- Claims that grant the same to the same, for as long. -/
structure SameTerms (c c' : Claims) : Prop where
  expiration : c.expiration = c'.expiration
  issuer : c.issuer = c'.issuer
  audience : c.audience = c'.audience
  scope : c.scope = c'.scope
  cnf : c.cnf = c'.cnf

/-- What some claims are once they were written and read again. -/
def reread? (c : Claims) : Option Claims :=
  c.encode.toOption.bind fun bs => (decode bs).toOption

/-- Claims that are read again on the same terms. -/
def ComesBack (c : Claims) : Prop := ∃ again, c.reread? = some again ∧ again.SameTerms c

/-- Decoded claims come back with any identifier, unless a tag in what they keep stands for an integer. -/
theorem comesBack_of_decode {bs : Bytes} {c : Claims} (fits : bs.length < 2 ^ 64) (got : decode bs = .ok c)
    (plain : c.keepsPlain = true) {id : Bytes} (short : id.length < 2 ^ 64) : (c.set .cti id).ComesBack := by
  unfold decode at got
  split at got
  · rename_i v read
    have storable : v.IsStorable (255 + 1) := isStorable_of_decode? read fits (isPlain_of_ofValue got plain)
    obtain ⟨bound, few, restorable⟩ := isRestorable_of_ofValue storable got
    have identified : (c.set .cti id).IsRestorable 255 bound := restorable.set ⟨.bytes id, rfl, .bytes 255 short, rfl⟩
    obtain ⟨out, written, back⟩ := identified.exists_encode (by decide) few
    refine ⟨c.set .cti id, ?_, rfl, rfl, rfl, rfl, rfl⟩
    rw [reread?, written, Except.toOption, Option.bind_some, back]
    rfl
  · nomatch got

end Claims

/-! ## Keys -/

namespace Cose

/-- Nothing is nested in a label. -/
theorem Label.depth_toValue_le (label : Label) (bound : Nat) : label.toValue.depth ≤ bound := by
  cases label with
  | int n =>
    rw [toValue, Value.ofInt64]
    split <;> exact Nat.zero_le bound
  | text s => exact Nat.zero_le bound

namespace Key

/-- A key that was decoded by itself, in whose parameters no tag stands for an integer. -/
def IsPlain (key : Key) : Prop :=
  ∃ bs : Bytes, bs.length < 2 ^ 64 ∧ decode? bs = some key ∧ arePlainParameters key.params = true

/-- The entries of a key as a value, apart from its other parameters, are flat, or lists of labels. -/
theorem depth_le_one_of_mem {key : Key} {e : Value × Value}
    (among : e ∈ (.uint 1, key.kty.toValue) :: bytesEntry 2 key.kid ++ labelEntry 3 key.alg
      ++ (if key.operations.isEmpty then [] else [(.uint 4, .array (key.operations.map Label.toValue))])
      ++ bytesEntry 5 key.baseIv) : e.1.depth = 0 ∧ e.2.depth ≤ 1 := by
  have ofBytes : ∀ n bs, e ∈ bytesEntry n bs → e.1.depth = 0 ∧ e.2.depth ≤ 1 := by
    intro n bs among
    unfold bytesEntry at among
    split at among
    · nomatch among
    · cases List.mem_singleton.mp among
      exact ⟨rfl, Nat.zero_le 1⟩
  simp only [List.mem_append, List.mem_cons] at among
  rcases among with (((rfl | kid) | alg) | operations) | baseIv
  · exact ⟨rfl, Label.depth_toValue_le key.kty 1⟩
  · exact ofBytes 2 key.kid kid
  · obtain ⟨label, _, rfl⟩ := List.mem_map.mp alg
    exact ⟨rfl, Label.depth_toValue_le label 1⟩
  · split at operations
    · nomatch operations
    · cases List.mem_singleton.mp operations
      refine ⟨rfl, Nat.succ_le_succ (Value.depthItems_le fun v listed => ?_)⟩
      obtain ⟨label, _, rfl⟩ := List.mem_map.mp listed
      exact Label.depth_toValue_le label 0
  · exact ofBytes 5 key.baseIv baseIv

/-- A key as a value is nested one level deeper than its other parameters are. -/
theorem depth_toValue_le_iff {key : Key} {w : Value} (h : key.toValue = .ok w) {bound : Nat} (one : 1 ≤ bound) :
    w.depth ≤ bound + 1 ↔ ∀ p ∈ key.params, p.2.depth ≤ bound := by
  unfold toValue at h
  split at h
  · cases h
    rw [Value.depth, Nat.add_le_add_iff_right]
    constructor
    · intro deep p among
      have entry := List.mem_map_of_mem (f := fun p : Label × Value => (p.1.toValue, p.2)) among
      exact Nat.le_trans (Value.depth_le_of_mem_entries (List.mem_append_right _ entry)).2 deep
    · intro each
      refine Value.depthEntries_le fun e among => ?_
      rcases List.mem_append.mp among with own | other
      · obtain ⟨flat, low⟩ := depth_le_one_of_mem own
        exact ⟨flat ▸ Nat.zero_le bound, Nat.le_trans low one⟩
      · obtain ⟨p, listed, rfl⟩ := List.mem_map.mp other
        exact ⟨Label.depth_toValue_le p.1 bound, each p listed⟩
  · cases h

end Key

end Cose

namespace PopKey

/-- What a key is once its confirmation was written and read again. -/
def reread? (key : PopKey) : Option PopKey := do
  let v ← key.toConfirmation.toValue.toOption
  let w ← decode? v.encode
  let confirmation ← (Confirmation.ofValue w).toOption
  ofConfirmation? confirmation

/-- A key that is read again as some key. -/
def IsLegible (key : PopKey) : Prop := key.reread?.isSome = true

instance (key : PopKey) : Decidable key.IsLegible := inferInstanceAs (Decidable (_ = _))

/-- A key that was decoded by itself, and is plain, is legible exactly if it leaves room for its confirmation. -/
theorem isLegible_iff_of_isPlain {key : Cose.Key} (h : key.IsPlain) :
    (cose key).IsLegible ↔ ∀ p ∈ key.params, p.2.depth ≤ 254 := by
  obtain ⟨bs, fits, got, plain⟩ := h
  obtain ⟨v, read, own⟩ := Option.bind_eq_some_iff.mp got
  have whole : read? bs = some (v, []) := read?_of_decodeExact? read
  have storable := isStorable_of_decode? (by rw [decode?, whole]; rfl) fits (Cose.Key.isPlainReader_ofValue? v key own plain)
  obtain ⟨w, written, faithful, again⟩ := Cose.Key.exists_value_of_ofValue? storable own
  have back : Confirmation.ofMethod .coseKey w = .ok (.key key) :=
    Confirmation.orMalformed_eq_ok_iff.mpr (congrArg (Option.map Confirmation.key) again)
  obtain ⟨u, confirmed, deeper, confirms⟩ := Confirmation.exists_value_of_content (c := .key key) written faithful back
  have same : u = .map [(.uint 1, w)] := by
    have wrapped : Confirmation.toValue (.key key) = .ok (.map [(.uint 1, w)]) := by
      simp only [Confirmation.toValue, Confirmation.content, written, bind, Except.bind]
      rfl
    exact Except.ok.inj (confirmed.symm.trans wrapped)
  have depth : u.depth = w.depth + 1 := by
    rw [same]
    simp [Value.depth, Value.depthEntries]
  -- With one more level of room, the confirmation is read as it is.
  have roomy := deeper.readValue_encode []
  rw [List.append_nil] at roomy
  rw [← Cose.Key.depth_toValue_le_iff written (by decide), show w.depth ≤ 254 + 1 ↔ u.depth ≤ maxDepth by
    rw [depth, maxDepth]; omega]
  have begins : (cose key).reread? = (decode? u.encode).bind fun w => (Confirmation.ofValue w).toOption.bind ofConfirmation? := by
    rw [reread?, toConfirmation, confirmed]
    rfl
  rw [IsLegible, begins]
  constructor
  · intro legible
    cases decoded : decode? u.encode with
    | none =>
      rw [decoded] at legible
      cases legible
    | some w' =>
      obtain ⟨⟨_, rest⟩, read', rfl⟩ := Option.map_eq_some_iff.mp decoded
      obtain ⟨rfl, _⟩ := readValue_inj roomy read'
      exact depth_le_of_readValue read' deeper.isPlain
  · intro room
    have decoded : decode? u.encode = some u := by
      rw [decode?, read?, readValue_of_depth_le roomy room, Option.map_some]
    rw [decoded, Option.bind_some, confirms]
    rfl

end PopKey

end TokenGate
