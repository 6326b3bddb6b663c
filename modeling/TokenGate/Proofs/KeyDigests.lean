import TokenGate.Proofs.Cbor.Unambiguity
import TokenGate.Proofs.Cose.Keys
import TokenGate.Repository.Addition

/-!
# Names by digests

A key that is not symmetric is named by the digest of what is written of it without its identifier. The common parameters are
written in the order of their labels, whatever order they came in, but all others as they came. So the name says nothing about the
identifier and the places of common parameters, and something about the order of the others.
-/

namespace TokenGate

open Cbor

namespace Cose.Key

variable {entries entries' : List (Value × Value)} {key key' : Key} {fields fields' : List (Label × Value)}

/-! ## What a key is read from -/

/-- The labels of the parameters that any key may have. -/
def commonLabels : List Int64 := [1, 2, 3, 4, 5]

/-- A key is what the fields of a map are read as. -/
structure IsReadFrom (key : Key) (fields : List (Label × Value)) : Prop where
  kty : (field? fields 1).bind type? = some key.kty
  kid : optionalBytes? (field? fields 2) = some key.kid
  alg : optional? (Label.ofRegistered? Registry.isAlgorithm) (field? fields 3) = some key.alg
  operations : (optional? operations? (field? fields 4)).map (·.getD []) = some key.operations
  baseIv : optionalBytes? (field? fields 5) = some key.baseIv
  params : key.params = fieldsExcept commonLabels fields

/-- A key that is read from a map is what fields under different labels are read as. -/
theorem isReadFrom_of_ofValue? (read : ofValue? (.map entries) = some key) :
    ∃ fields, entries = fields.map toEntry ∧ (fields.map (·.1)).Nodup ∧ key.IsReadFrom fields := by
  simp only [ofValue?, Option.bind_eq_bind, Option.bind_eq_some_iff] at read
  obtain ⟨fields, read, kty, hasKty, kid, hasKid, alg, hasAlg, operations, hasOperations, baseIv, hasIv, same⟩ := read
  obtain ⟨listed, nodup⟩ := fields?_eq_some_iff.mp read
  cases same
  exact ⟨fields, listed, nodup, Option.bind_eq_some_iff.mpr hasKty, hasKid, hasAlg, by rw [hasOperations]; rfl, hasIv, rfl⟩

/-- The entries of a map but for the identifier. -/
def withoutKid (entries : List (Value × Value)) : List (Value × Value) :=
  entries.filter fun e => e.1 ≠ .ofInt64 2

/-- The entries of a map that are no common parameters, in order. -/
def further (entries : List (Value × Value)) : List (Value × Value) :=
  entries.filter fun e => e.1 ∉ commonLabels.map Value.ofInt64

/-- The identifier is a common parameter. -/
theorem further_withoutKid (entries : List (Value × Value)) : further (withoutKid entries) = further entries := by
  rw [further, withoutKid, List.filter_filter]
  refine List.filter_congr fun e _ => ?_
  have kid : Value.ofInt64 2 ∈ commonLabels.map Value.ofInt64 := List.mem_map_of_mem (by decide)
  rw [← Bool.decide_and, decide_eq_decide]
  exact ⟨And.left, fun other => ⟨other, fun same => other (same ▸ kid)⟩⟩

/-- The parameters of a key that are not common ones are the further entries. -/
theorem IsReadFrom.map_params (h : key.IsReadFrom fields) : key.params.map toEntry = further (fields.map toEntry) := by
  have common : ∀ field : Label × Value,
      (toEntry field).1 ∈ commonLabels.map Value.ofInt64 ↔ ∃ n ∈ commonLabels, field.1 = .int n := by
    intro field
    rw [List.mem_map]
    exact exists_congr fun n => and_congr_right fun _ =>
      ⟨fun same => Label.toValue_inj (b := .int n) same.symm, fun same => congrArg Label.toValue same.symm⟩
  rw [h.params, fieldsExcept, further, List.filter_map]
  refine congrArg (List.map toEntry) (List.filter_congr fun field _ => ?_)
  rw [Function.comp_apply, Bool.eq_iff_iff, decide_eq_true_iff, common field]
  simp

/-! ## Keys that differ in identifier and order only -/

/-- Maps with the same entries have the same under every label but that of the identifier. -/
theorem field?_of_alike (alike : (withoutKid (fields'.map toEntry)).Perm (withoutKid (fields.map toEntry)))
    (nodup : (fields.map (·.1)).Nodup) (nodup' : (fields'.map (·.1)).Nodup) {n : Int64} (other : n ≠ 2) :
    field? fields' n = field? fields n := by
  have listed : ∀ (all : List (Label × Value)) v, (.int n, v) ∈ all ↔ (.ofInt64 n, v) ∈ withoutKid (all.map toEntry) := by
    intro all v
    have apart : Value.ofInt64 n ≠ .ofInt64 2 := fun same => other (Value.ofInt64_inj same)
    have entry : toEntry (.int n, v) = (.ofInt64 n, v) := rfl
    rw [withoutKid, List.mem_filter, ← entry, List.mem_map_of_injective toEntry_injective]
    simp [toEntry, Label.toValue, apart]
  refine Option.ext fun v => ?_
  rw [field?_eq_some_iff nodup', field?_eq_some_iff nodup, listed, listed, alike.mem_iff]

/-- Keys that are read from the same entries are the same, but for their identifiers and the order of their further parameters. -/
theorem eq_of_alike (read : ofValue? (.map entries) = some key) (read' : ofValue? (.map entries') = some key')
    (alike : (withoutKid entries').Perm (withoutKid entries)) : key' = { key with kid := key'.kid, params := key'.params } := by
  obtain ⟨fields, rfl, nodup, h⟩ := isReadFrom_of_ofValue? read
  obtain ⟨fields', rfl, nodup', h'⟩ := isReadFrom_of_ofValue? read'
  have same {n : Int64} : n ≠ 2 → field? fields' n = field? fields n := field?_of_alike alike nodup nodup'
  have kty : key'.kty = key.kty := Option.some.inj (by rw [← h.kty, ← h'.kty, same (by decide)])
  have alg : key'.alg = key.alg := Option.some.inj (by rw [← h.alg, ← h'.alg, same (by decide)])
  have operations : key'.operations = key.operations :=
    Option.some.inj (by rw [← h.operations, ← h'.operations, same (by decide)])
  have baseIv : key'.baseIv = key.baseIv := Option.some.inj (by rw [← h.baseIv, ← h'.baseIv, same (by decide)])
  rw [← kty, ← alg, ← operations, ← baseIv]

/-- The entries that are written of the common parameters but the identifier. -/
def commonEntries (key : Key) : List (Value × Value) := (recordOf (known { key with kid := [] }) []).map toEntry

/-- Without its identifier a key is written as its common parameters, in the order of their labels, and the others as they came. -/
theorem toValue_anonymous (read : ofValue? (.map entries) = some key) :
    toValue { key with kid := [] } = .ok (.map (commonEntries key ++ further entries)) := by
  obtain ⟨fields, rfl, nodup, own⟩ := isReadFrom_of_ofValue? read
  have params : (key.params.map (·.1)).Nodup := own.params ▸ nodup.sublist (List.filter_sublist.map _)
  have written : toValue { key with kid := [] } = .ok (.map ((recordOf (known { key with kid := [] }) key.params).map toEntry)) :=
    toValue_eq params
  rw [written, commonEntries, ← own.map_params, ← List.map_append, recordOf, recordOf, List.append_nil]

/-- Keys that are alike but for the identifier have their common parameters written alike. -/
theorem commonEntries_of_alike (read : ofValue? (.map entries) = some key) (read' : ofValue? (.map entries') = some key')
    (alike : (withoutKid entries').Perm (withoutKid entries)) : commonEntries key' = commonEntries key := by
  rw [eq_of_alike read read' alike]
  rfl

end Cose.Key

namespace PopKey

open Cose.Key

/-- A key that is not symmetric is filed under the digest of what is written of it without its identifier, and tokens with it are,
too. -/
theorem name_of_asymmetric {key : Cose.Key} {v : Value} (asymmetric : key.kty ≠ symmetricType)
    (written : Cose.Key.toValue { key with kid := [] } = .ok v) :
    name (.cose key) = .ok (.ofDigest (Sha256.hash v.encode)) ∧
      ∀ shared, Submission.keyOf shared (.key key) = .ok (.ofDigest (Sha256.hash v.encode), some (.cose key)) := by
  have named : name (.cose key) = .ok (.ofDigest (Sha256.hash v.encode)) := by
    rw [name, if_neg asymmetric, written]
  refine ⟨named, fun shared => ?_⟩
  rw [Submission.keyOf, Submission.named, named]

/-- Two keys that were sent with the same parameters, whatever their identifiers and whatever the order, are filed under the digests
of what is written of them without identifiers, and so are tokens with them. Neither the identifiers nor the places of common
parameters go into that: it is the same just if the other parameters came in the same order. -/
theorem digests_iff_ordered (entries entries' : List (Value × Value)) (key key' : Cose.Key)
    (read : Cose.Key.ofValue? (.map entries) = some key) (read' : Cose.Key.ofValue? (.map entries') = some key')
    (asymmetric : key.kty ≠ symmetricType) (alike : (withoutKid entries').Perm (withoutKid entries))
    (writable : (Value.map entries).IsWritable) :
    ∃ v v', Cose.Key.toValue { key with kid := [] } = .ok v ∧ Cose.Key.toValue { key' with kid := [] } = .ok v' ∧
      name (.cose key) = .ok (.ofDigest (Sha256.hash v.encode)) ∧ name (.cose key') = .ok (.ofDigest (Sha256.hash v'.encode)) ∧
      (∀ shared, Submission.keyOf shared (.key key) = .ok (.ofDigest (Sha256.hash v.encode), some (.cose key))) ∧
      (∀ shared, Submission.keyOf shared (.key key') = .ok (.ofDigest (Sha256.hash v'.encode), some (.cose key'))) ∧
      (v'.encode = v.encode ↔ further entries' = further entries) := by
  have asymmetric' : key'.kty ≠ symmetricType := by
    rw [eq_of_alike read read' alike]
    exact asymmetric
  have written := toValue_anonymous read
  have written' := toValue_anonymous read'
  rw [commonEntries_of_alike read read' alike] at written'
  obtain ⟨named, filed⟩ := name_of_asymmetric asymmetric written
  obtain ⟨named', filed'⟩ := name_of_asymmetric asymmetric' written'
  have reordered : (further entries').Perm (further entries) := by
    rw [← further_withoutKid entries', ← further_withoutKid entries]
    exact alike.filter _
  have parts : ∀ e ∈ further entries, e.1.IsWritable ∧ e.2.IsWritable := by
    cases writable with
    | map _ keys values =>
      intro e among
      have sent := List.mem_of_mem_filter among
      exact ⟨keys e sent, values e sent⟩
  exact ⟨_, _, written, written', named, named', filed, filed', Value.encode_reordered_iff reordered parts⟩

namespace Sample

/-- A key on a curve, its coordinates in the usual order. -/
def point : List (Value × Value) := [(.uint 1, .uint 2), (.nint 0, .uint 1), (.nint 1, .bytes [0x11]), (.nint 2, .bytes [0x22])]

/-- The same key with an identifier, and its type between its coordinates. -/
def named : List (Value × Value) :=
  [(.nint 0, .uint 1), (.nint 1, .bytes [0x11]), (.uint 1, .uint 2), (.uint 2, .bytes [0x72]), (.nint 2, .bytes [0x22])]

/-- What a key with two coordinates is read as. -/
def keyOf (kid : Bytes) (coordinates : List (Cose.Label × Value)) : Cose.Key :=
  { kty := ec2Type, kid, params := (.int (-1), .uint 1) :: coordinates }

/-- The coordinate in the first direction. -/
def x : Cose.Label × Value := (.int (-2), .bytes [0x11])

/-- The coordinate in the second direction. -/
def y : Cose.Label × Value := (.int (-3), .bytes [0x22])

end Sample

open Sample in
/-- The name of a key stays the same when an identifier is added to it, but not when its coordinates change places. -/
theorem digests_iff_ordered_of_point :
    name (.cose (keyOf [0x72] [x, y])) = name (.cose (keyOf [] [x, y])) ∧
      name (.cose (keyOf [] [y, x])) ≠ name (.cose (keyOf [] [x, y])) := by
  have plain : Cose.Key.ofValue? (.map point) = some (keyOf [] [x, y]) := by decide
  have writable : (Value.map point).IsWritable := Value.isWritable_of_weight (by decide)
  obtain ⟨v, v', _, _, filed, filed', _, _, same⟩ :=
    digests_iff_ordered point named _ (keyOf [0x72] [x, y]) plain (by decide) (by decide) (by decide) writable
  refine ⟨?_, by decide +kernel⟩
  rw [filed, filed', same.mpr (by decide)]

end PopKey

end TokenGate
