import TokenGate.Claims.Basic
import TokenGate.Proofs.Cose.Headers
import TokenGate.Proofs.Cose.Keys
import TokenGate.Proofs.Oscore.Readings

/-!
# Contents of claims read back

The content of a claim that was read can be written and read back, which for a confirmation is true of each of its four methods.
Input material is written in the order of its labels, whatever the order it came in.
-/

namespace TokenGate

open Cbor Cose

/-! ## Input material -/

namespace Oscore.Material

/-- Material is read back from its map if each of its fields is. -/
theorem isFaithful_toValue {m : Material} {depth : Nat} (kept : ∀ f v, m.field? f = some v → v.IsFaithful depth) :
    m.toValue.IsFaithful (depth + 1) := by
  have few := List.length_filterMap_le (fun f => (m.field? f).map fun v => (Value.uint f.label, v)) Field.all
  refine .map (Nat.lt_of_le_of_lt few (by decide)) (fun e among => ?_) fun e among => ?_
  · obtain ⟨f, _, entered⟩ := List.mem_filterMap.mp among
    obtain ⟨v, _, rfl⟩ := Option.map_eq_some_iff.mp entered
    exact .uint depth f.label
  · obtain ⟨f, _, entered⟩ := List.mem_filterMap.mp among
    obtain ⟨v, present, rfl⟩ := Option.map_eq_some_iff.mp entered
    exact kept f v present

/-- What was read of some material is read back. -/
theorem restores (depth : Nat) : Restores depth ofValue? toValue := by
  intro v m storable got
  refine ⟨ofValue?_toValue m, ?_⟩
  obtain ⟨entries, rfl⟩ := exists_map_of_ofValue? got
  cases depth with
  | zero => nomatch storable.deep
  | succ depth =>
    refine isFaithful_toValue fun f w present => ?_
    rw [field?_of_ofValue? got] at present
    have among : (.uint f.label, w) ∈ entries := mem_valuesOf.mp (List.mem_of_getLast? present)
    exact (storable.of_mem_entries among).2.isFaithful

end Oscore.Material

/-! ## Confirmations -/

namespace Confirmation

/-- A content is found unless it is malformed. -/
theorem orMalformed_eq_ok_iff {α : Type} {read : Option α} {a : α} : orMalformed read = .ok a ↔ read = some a := by
  cases read with
  | none => exact ⟨nofun, nofun⟩
  | some b => exact ⟨fun same => congrArg some (Except.ok.inj same), fun same => congrArg Except.ok (Option.some.inj same)⟩

/-- What is inside the tag can be stored if it can be with the tag. -/
theorem isStorable_untagEncrypt0 {depth : Nat} {v : Value} (storable : v.IsStorable depth) :
    (untagEncrypt0 v).IsStorable depth := by
  unfold untagEncrypt0
  split
  · cases depth with
    | zero => nomatch storable.deep
    | succ depth => exact storable.of_tag.mono (Nat.le_succ depth)
  · exact storable

/-- What was read by some method is read back by that method. -/
theorem exists_content_of_ofMethod {depth : Nat} {method : Method} {v : Value} {c : Confirmation} (storable : v.IsStorable depth)
    (got : ofMethod method v = .ok c) :
    c.method = method ∧ ∃ w, c.content = .ok w ∧ w.IsFaithful depth ∧ ofMethod method w = .ok c := by
  cases method with
  | coseKey =>
    obtain ⟨key, own, rfl⟩ := Option.map_eq_some_iff.mp (orMalformed_eq_ok_iff.mp got)
    obtain ⟨w, written, faithful, again⟩ := Key.exists_value_of_ofValue? storable own
    exact ⟨rfl, w, written, faithful, orMalformed_eq_ok_iff.mpr (congrArg (Option.map Confirmation.key) again)⟩
  | encryptedCoseKey =>
    obtain ⟨envelope, own, rfl⟩ := Option.map_eq_some_iff.mp (orMalformed_eq_ok_iff.mp got)
    obtain ⟨again, faithful⟩ := Encrypt0.restores depth _ _ (isStorable_untagEncrypt0 storable) own
    exact ⟨rfl, _, rfl, faithful, orMalformed_eq_ok_iff.mpr (congrArg (Option.map encryptedKey) again)⟩
  | kid =>
    cases v with
    | bytes bs =>
      cases got
      exact ⟨rfl, _, rfl, storable.isFaithful, rfl⟩
    | _ => nomatch got
  | oscoreInputMaterial =>
    obtain ⟨material, own, rfl⟩ := Option.map_eq_some_iff.mp (orMalformed_eq_ok_iff.mp got)
    obtain ⟨again, faithful⟩ := Oscore.Material.restores depth _ _ storable own
    exact ⟨rfl, _, rfl, faithful, orMalformed_eq_ok_iff.mpr (congrArg (Option.map oscore) again)⟩

/-- A map with a single entry is read by its method. -/
theorem ofValue_map (method : Method) (w : Value) : ofValue (.map [(.uint method.label, w)]) = ofMethod method w := by
  cases method <;> rfl

/-- A confirmation is read back as what its content is read back as. -/
theorem exists_value_of_content {depth : Nat} {c : Confirmation} {w : Value} (written : c.content = .ok w)
    (faithful : w.IsFaithful depth) (again : ofMethod c.method w = .ok c) :
    ∃ w, c.toValue = .ok w ∧ w.IsFaithful (depth + 1) ∧ ofValue w = .ok c := by
  refine ⟨.map [(.uint c.method.label, w)], ?_, ?_, ?_⟩
  · simp only [toValue, written, bind, Except.bind]
  · refine .map (by simp) ?_ ?_
    · simp only [List.forall_mem_cons]
      exact ⟨.uint depth _, nofun⟩
    · simp only [List.forall_mem_cons]
      exact ⟨faithful, nofun⟩
  · rw [ofValue_map]
    exact again

/-- What was read of a confirmation is read back. -/
theorem exists_value_of_ofValue {depth : Nat} {v : Value} {c : Confirmation} (storable : v.IsStorable depth)
    (got : ofValue v = .ok c) : ∃ w, c.toValue = .ok w ∧ w.IsFaithful depth ∧ ofValue w = .ok c := by
  unfold ofValue at got
  split at got
  · rename_i k v
    cases method : orMalformed (k.toUInt64?.bind Method.ofLabel?) with
    | error e =>
      rw [method] at got
      nomatch got
    | ok m =>
      rw [method] at got
      cases depth with
      | zero => nomatch storable.deep
      | succ depth =>
        have inner := (storable.of_mem_entries List.mem_cons_self).2
        obtain ⟨rfl, w, written, faithful, again⟩ := exists_content_of_ofMethod inner got
        exact exists_value_of_content written faithful again
  · nomatch got

end Confirmation

/-! ## All contents -/

namespace ClaimKey

/-- A text is read back from its value. -/
theorem restores_text (depth : Nat) : Restores depth text? .text := by
  intro v s storable got
  cases v with
  | text _ =>
    cases got
    exact ⟨rfl, storable.isFaithful⟩
  | _ => nomatch got

theorem restores_bytes (depth : Nat) : Restores depth bytes? .bytes := by
  intro v bs storable got
  cases v with
  | bytes _ =>
    cases got
    exact ⟨rfl, storable.isFaithful⟩
  | _ => nomatch got

/-- A number is written without the tags that it came with. -/
theorem restores_number (depth : Nat) : Restores depth number? .uint :=
  fun _ n _ _ => ⟨rfl, .uint depth n⟩

theorem restores_scopeClaim (depth : Nat) : Restores depth scopeClaim? ScopeClaim.toValue := by
  intro v claim storable got
  cases v with
  | text _ | bytes _ =>
    cases got
    exact ⟨rfl, storable.isFaithful⟩
  | _ => nomatch got

theorem restores_audience (depth : Nat) : Restores depth audience? Audience.toValue := by
  intro v audience storable got
  cases v with
  | text _ =>
    cases got
    exact ⟨rfl, storable.isFaithful⟩
  | array vs =>
    obtain ⟨names, own, rfl⟩ := Option.map_eq_some_iff.mp got
    have same : names.map Value.text = vs := map_of_mapM own fun w name text => by
      cases w with
      | text _ =>
        cases text
        rfl
      | _ => nomatch text
    rw [Audience.toValue, same]
    exact ⟨got, storable.isFaithful⟩
  | _ => nomatch got

/-- A content that is checked for its type is read back. -/
theorem checked_of_restores {α : Type} {depth : Nat} {read : Value → Option α} {write : α → Value} {rejection : Rejection} {v : Value}
    {a : α} (storable : v.IsStorable depth) (restores : Restores depth read write)
    (got : (match read v with | some a => Except.ok a | none => .error rejection) = .ok a) :
    (write a).IsFaithful depth ∧ (match read (write a) with | some a => Except.ok a | none => .error rejection) = .ok a := by
  cases own : read v with
  | none =>
    rw [own] at got
    cases got
  | some b =>
    rw [own] at got
    cases got
    obtain ⟨again, faithful⟩ := restores v a storable own
    exact ⟨faithful, by rw [again]⟩

/-- What was read of a claim is read back. -/
theorem exists_value_of_ofValue {depth : Nat} {k : ClaimKey} {v : Value} {content : k.Content} (storable : v.IsStorable depth)
    (got : k.ofValue v = .ok content) :
    ∃ w, k.toValue content = .ok w ∧ w.IsFaithful depth ∧ k.ofValue w = .ok content := by
  cases k with
  | cnf => exact Confirmation.exists_value_of_ofValue storable got
  | iss | sub => exact ⟨_, rfl, checked_of_restores storable (restores_text depth) got⟩
  | cti | cnonce => exact ⟨_, rfl, checked_of_restores storable (restores_bytes depth) got⟩
  | exp | nbf | iat | aceProfile | exi => exact ⟨_, rfl, checked_of_restores storable (restores_number depth) got⟩
  | aud => exact ⟨_, rfl, checked_of_restores storable (restores_audience depth) got⟩
  | scope => exact ⟨_, rfl, checked_of_restores storable (restores_scopeClaim depth) got⟩

end ClaimKey

end TokenGate
