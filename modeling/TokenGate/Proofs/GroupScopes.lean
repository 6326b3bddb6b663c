import Mathlib.Data.Nat.Basic
import TokenGate.Proofs.Cbor.Reading
import TokenGate.Scope.Basic

/-!
# Group scopes as bytes

A group scope is written as an array of pairs, each of a name and a mask, and is read back as it was. What is read of bytes that
somebody else wrote is all that their item says: a mask that has other bits than those of roles, or none at all, is refused along
with the whole scope, wherever in the array it stands.
-/

namespace TokenGate

open Cbor

/-! ## Masks -/

namespace Roles

/-- A mask has some of the bits from 1 to 4, which are the numbers of the roles, and no others. -/
def IsMask (mask : UInt64) : Prop :=
  mask ≠ 0 ∧ ∀ i, mask.toNat.testBit i = true → 1 ≤ i ∧ i ≤ 4

variable {mask : UInt64} {roles : Roles}

/-- The known mask has the bits from 1 to 4 and no others. -/
theorem getLsbD_knownMask : ∀ i : Fin 64, knownMask.toBitVec.getLsbD i = true ↔ 1 ≤ i.val ∧ i.val ≤ 4 := by
  decide

/-- Nothing is left of a mask without the known bits exactly if they are all that it has. -/
theorem and_not_knownMask_eq_zero_iff :
    mask &&& ~~~knownMask = 0 ↔ ∀ i, mask.toNat.testBit i = true → 1 ≤ i ∧ i ≤ 4 := by
  rw [← UInt64.toBitVec_inj, UInt64.toBitVec_and, UInt64.toBitVec_not]
  constructor
  · intro nothing i given
    have low : i < 64 := by
      by_contra high
      have wide : mask.toNat < 2 ^ i := Nat.lt_of_lt_of_le mask.toNat_lt (Nat.pow_le_pow_right (by decide) (Nat.not_lt.mp high))
      rw [Nat.testBit_lt_two_pow wide] at given
      nomatch given
    have bit := congrArg (BitVec.getLsbD · i) nothing
    have given : mask.toBitVec.getLsbD i = true := given
    simp [low, given] at bit
    exact (getLsbD_knownMask ⟨i, low⟩).mp bit
  · intro within
    apply BitVec.eq_of_getLsbD_eq
    intro i low
    by_cases given : mask.toBitVec.getLsbD i = true
    · have known : knownMask.toBitVec.getLsbD i = true := (getLsbD_knownMask ⟨i, low⟩).mpr (within i given)
      simp [low, known]
    · simp [given]

/-- The masks that stand for roles are those with their bits. -/
theorem exists_ofMask?_iff : (∃ roles, ofMask? mask = some roles) ↔ IsMask mask := by
  rw [IsMask, ← and_not_knownMask_eq_zero_iff, ofMask?]
  by_cases empty : mask = 0
  · simp [empty]
  · by_cases within : mask &&& ~~~knownMask = 0
    · simp [empty, within]
    · simp [within]

/-- A mask below 32 is the mask of the roles that it stands for, if it stands for any. -/
theorem toMask_of_small : ∀ n : Fin 32,
    (ofMask? (UInt64.ofNat n)).all (fun roles => roles.toMask == UInt64.ofNat n && !roles.isEmpty) = true := by
  decide

/-- No bit of a mask is lost in reading it. -/
theorem ofMask?_eq_some_iff : ofMask? mask = some roles ↔ mask = roles.toMask ∧ roles.isEmpty = false := by
  constructor
  · intro read
    have within := (exists_ofMask?_iff.mp ⟨roles, read⟩).2
    have small : mask.toNat < 32 := by
      refine Nat.lt_pow_two_of_testBit (n := 5) _ fun i high => ?_
      by_contra given
      have low := (within i (Bool.of_not_eq_false given)).2
      omega
    have kept := toMask_of_small ⟨mask.toNat, small⟩
    simp only [UInt64.ofNat_toNat, read, Option.all_some, Bool.and_eq_true, beq_iff_eq, Bool.not_eq_true'] at kept
    exact ⟨kept.1.symm, kept.2⟩
  · rintro ⟨rfl, given⟩
    obtain ⟨a, b, c, d⟩ := roles
    cases a <;> cases b <;> cases c <;> cases d <;> first | rfl | exact absurd given (by decide)

/-- The mask of any roles is one. -/
theorem isMask_toMask (given : roles.isEmpty = false) : IsMask roles.toMask :=
  exists_ofMask?_iff.mp ⟨roles, ofMask?_eq_some_iff.mpr ⟨rfl, given⟩⟩

end Roles

/-! ## Entries -/

namespace GroupEntry

variable {v : Value} {entry : GroupEntry} {rejection : Rejection}

/-- A value is a pair of a name and a mask. -/
def IsPair (v : Value) : Prop :=
  ∃ group mask, v = .array [.text group, .uint mask] ∧ Roles.IsMask mask

/-- An entry is read from the pair that is written for it, and from no other value. -/
theorem ofValue_eq_ok_iff : ofValue v = .ok entry ↔ v = entry.toValue ∧ entry.roles.isEmpty = false := by
  constructor
  · intro read
    unfold ofValue at read
    split at read
    · rename_i group mask
      split at read
      · rename_i roles known
        cases read
        obtain ⟨rfl, given⟩ := Roles.ofMask?_eq_some_iff.mp known
        exact ⟨rfl, given⟩
      · nomatch read
    · nomatch read
    · nomatch read
  · rintro ⟨rfl, given⟩
    simp only [toValue, ofValue, Roles.ofMask?_eq_some_iff.mpr ⟨rfl, given⟩]

/-- What is not read as an entry is no pair, or has a mask that stands for no roles. -/
theorem rejection_of_ofValue (h : ofValue v = .error rejection) :
    rejection = .invalidScopeFormat ∨ rejection = .invalidRoles := by
  unfold ofValue at h
  split at h
  · split at h
    · nomatch h
    · cases h
      exact Or.inr rfl
  · cases h
    exact Or.inr rfl
  · cases h
    exact Or.inl rfl

/-- An entry is read from a pair of a name and a mask, and from nothing else. -/
theorem exists_ofValue_iff : (∃ entry, ofValue v = .ok entry) ↔ IsPair v := by
  constructor
  · rintro ⟨entry, read⟩
    obtain ⟨rfl, given⟩ := ofValue_eq_ok_iff.mp read
    exact ⟨_, _, rfl, Roles.isMask_toMask given⟩
  · rintro ⟨group, mask, rfl, known⟩
    obtain ⟨roles, read⟩ := Roles.exists_ofMask?_iff.mpr known
    exact ⟨⟨group, roles⟩, by simp only [ofValue, read]⟩

/-- Entries are read from the pairs that are written for them, in order, and from nothing else. -/
theorem mapM_ofValue_eq_ok_iff {vs : List Value} {entries : List GroupEntry} :
    vs.mapM ofValue = .ok entries ↔ vs = entries.map toValue ∧ ∀ entry ∈ entries, entry.roles.isEmpty = false := by
  induction vs generalizing entries with
  | nil => cases entries <;> simp [pure, Except.pure]
  | cons v vs ih =>
    rw [mapM_cons_eq_ok]
    constructor
    · rintro ⟨entry, others, first, rest, rfl⟩
      obtain ⟨rfl, given⟩ := ofValue_eq_ok_iff.mp first
      obtain ⟨rfl, all⟩ := ih.mp rest
      exact ⟨rfl, List.forall_mem_cons.mpr ⟨given, all⟩⟩
    · rintro ⟨written, all⟩
      cases entries with
      | nil => nomatch written
      | cons entry others =>
        obtain ⟨given, all⟩ := List.forall_mem_cons.mp all
        obtain ⟨rfl, rfl⟩ := List.cons.inj written
        exact ⟨entry, others, ofValue_eq_ok_iff.mpr ⟨rfl, given⟩, ih.mpr ⟨rfl, all⟩, rfl⟩

/-- One item that is no pair is enough for none to be read. -/
theorem exists_mapM_ofValue_iff {vs : List Value} : (∃ entries, vs.mapM ofValue = .ok entries) ↔ ∀ v ∈ vs, IsPair v := by
  induction vs with
  | nil => simp [pure, Except.pure]
  | cons v vs ih =>
    rw [List.forall_mem_cons, ← ih, ← exists_ofValue_iff]
    simp only [mapM_cons_eq_ok]
    constructor
    · rintro ⟨_, entry, others, first, rest, rfl⟩
      exact ⟨⟨entry, first⟩, others, rest⟩
    · rintro ⟨⟨entry, first⟩, others, rest⟩
      exact ⟨_, entry, others, first, rest, rfl⟩

/-- Entries are rejected for their format or for their roles. -/
theorem rejection_of_mapM {vs : List Value} (h : vs.mapM ofValue = .error rejection) :
    rejection = .invalidScopeFormat ∨ rejection = .invalidRoles := by
  induction vs with
  | nil => nomatch h
  | cons v vs ih =>
    rw [List.mapM_cons] at h
    cases first : ofValue v with
    | error other =>
      rw [first] at h
      cases h
      exact rejection_of_ofValue first
    | ok entry =>
      cases rest : vs.mapM ofValue with
      | error other =>
        rw [first, rest] at h
        cases h
        exact ih rest
      | ok others =>
        rw [first, rest] at h
        nomatch h

/-! ## Scopes -/

variable {bs : Bytes} {entries : List GroupEntry}

/-- A value is an array of at least one pair. -/
def IsScope (v : Value) : Prop :=
  ∃ items, v = .array items ∧ items ≠ [] ∧ ∀ item ∈ items, IsPair item

/-- The format has room for the entries and for their names. -/
structure Fit (entries : List GroupEntry) : Prop where
  length : entries.length < 2 ^ 64
  names : ∀ entry ∈ entries, (Text.utf8 entry.group).length < 2 ^ 64

/-- What is read of a scope is all that it says. -/
theorem decode_eq_ok_iff :
    decode bs = .ok entries ↔
      entries ≠ [] ∧ decode? bs = some (.array (entries.map toValue)) ∧ ∀ entry ∈ entries, entry.roles.isEmpty = false := by
  unfold decode
  split
  · rename_i v vs item
    rw [mapM_ofValue_eq_ok_iff, item, Option.some.injEq, Value.array.injEq]
    constructor
    · rintro ⟨written, all⟩
      refine ⟨?_, written, all⟩
      rintro rfl
      nomatch written
    · rintro ⟨_, written, all⟩
      exact ⟨written, all⟩
  · rename_i other
    refine iff_of_false nofun ?_
    rintro ⟨nonempty, item, _⟩
    cases entries with
    | nil => exact nonempty rfl
    | cons entry others => exact other _ _ item

/-- Entries are read from an array of at least one pair, and from nothing else. -/
theorem exists_decode_iff : (∃ entries, decode bs = .ok entries) ↔ ∃ v, decode? bs = some v ∧ IsScope v := by
  constructor
  · rintro ⟨entries, read⟩
    obtain ⟨nonempty, item, all⟩ := decode_eq_ok_iff.mp read
    refine ⟨_, item, _, rfl, by simpa using nonempty, ?_⟩
    exact exists_mapM_ofValue_iff.mp ⟨entries, mapM_ofValue_eq_ok_iff.mpr ⟨rfl, all⟩⟩
  · rintro ⟨_, item, items, rfl, nonempty, pairs⟩
    obtain ⟨entries, read⟩ := exists_mapM_ofValue_iff.mpr pairs
    obtain ⟨rfl, all⟩ := mapM_ofValue_eq_ok_iff.mp read
    exact ⟨entries, decode_eq_ok_iff.mpr ⟨by simpa using nonempty, item, all⟩⟩

/-- A scope is rejected for its format or for its roles. -/
theorem rejection_of_decode (h : decode bs = .error rejection) :
    rejection = .invalidScopeFormat ∨ rejection = .invalidRoles := by
  unfold decode at h
  split at h
  · exact rejection_of_mapM h
  · cases h
    exact Or.inl rfl

/-- Whatever fits the format is read back from what is written for it. -/
theorem Fit.decode?_encode (fit : Fit entries) : decode? (encode entries) = some (.array (entries.map toValue)) := by
  have pair : ∀ v ∈ entries.map toValue, v.IsFaithful (maxDepth - 1) := by
    intro v among
    obtain ⟨entry, listed, rfl⟩ := List.mem_map.mp among
    refine .array (by decide : 2 < 2 ^ 64) ?_
    intro part within
    simp only [List.mem_cons, List.not_mem_nil, or_false] at within
    rcases within with rfl | rfl
    · exact .text _ (fit.names entry listed)
    · exact .uint _ _
  exact (Value.IsFaithful.array (by simpa using fit.length) pair).decode?_encode

/-- Whatever is read fits the format, if the bytes that it was read from do. -/
theorem fit_of_decode (fits : bs.length < 2 ^ 64) (h : decode bs = .ok entries) : Fit entries := by
  have light := weight_of_decode? (decode_eq_ok_iff.mp h).2.1
  rw [Value.weight] at light
  constructor
  · have length := Value.length_le_weightItems (entries.map toValue)
    rw [List.length_map] at length
    omega
  · intro entry listed
    have part := Value.weight_le_of_mem (List.mem_map_of_mem (f := toValue) listed)
    have name : (Text.utf8 entry.group).length ≤ entry.toValue.weight := by
      simp only [toValue, Value.weight, Value.weightItems]
      omega
    omega

/-- Entries are read back as they were written. Bytes are accepted exactly if their item is a group scope, and then for all that it
says, so that the entries are read again from what is written for them. All other bytes are rejected. -/
theorem coding_exact :
    (∀ entries : List GroupEntry, entries ≠ [] → (∀ entry ∈ entries, entry.roles.isEmpty = false) → Fit entries →
      decode (encode entries) = .ok entries) ∧
    ∀ bs : Bytes,
      (∀ entries, decode bs = .ok entries →
        entries ≠ [] ∧ decode? bs = some (.array (entries.map toValue)) ∧
        (∀ entry ∈ entries, entry.roles.isEmpty = false ∧ Roles.IsMask entry.roles.toMask) ∧
        (bs.length < 2 ^ 64 → decode (encode entries) = .ok entries)) ∧
      ((∃ entries, decode bs = .ok entries) ↔ ∃ v, decode? bs = some v ∧ IsScope v) ∧
      ((¬∃ v, decode? bs = some v ∧ IsScope v) →
        decode bs = .error .invalidScopeFormat ∨ decode bs = .error .invalidRoles) := by
  have written : ∀ entries : List GroupEntry, entries ≠ [] → (∀ entry ∈ entries, entry.roles.isEmpty = false) →
      Fit entries → decode (encode entries) = .ok entries :=
    fun entries nonempty all fit => decode_eq_ok_iff.mpr ⟨nonempty, fit.decode?_encode, all⟩
  refine ⟨written, fun bs => ⟨?_, exists_decode_iff, ?_⟩⟩
  · intro entries read
    obtain ⟨nonempty, item, all⟩ := decode_eq_ok_iff.mp read
    refine ⟨nonempty, item, fun entry among => ⟨all entry among, Roles.isMask_toMask (all entry among)⟩, fun fits => ?_⟩
    exact written entries nonempty all (fit_of_decode fits read)
  · intro other
    cases read : decode bs with
    | ok entries => exact absurd (exists_decode_iff.mp ⟨entries, read⟩) other
    | error rejection =>
      rcases rejection_of_decode read with rfl | rfl
      · exact Or.inl rfl
      · exact Or.inr rfl

namespace Sample

/-- Two groups, one of them without a name. -/
def twoGroups : List GroupEntry := [⟨"g", ⟨true, false, true, false⟩⟩, ⟨"", ⟨false, true, false, false⟩⟩]

/-- The same two groups in an array of unknown length, with long heads, and with a mask that is a tagged byte string. -/
def loose : Bytes := [0x9f, 0x98, 0x02, 0x78, 0x01, 0x67, 0xc2, 0x41, 0x0a, 0x82, 0x60, 0x18, 0x04, 0xff]

/-- The last one of three masks has the bit 5, which is no role's. -/
def unknown : Bytes := [0x83, 0x82, 0x61, 0x61, 0x02, 0x82, 0x61, 0x62, 0x18, 0x1e, 0x82, 0x61, 0x63, 0x18, 0x22]

end Sample

/-- The same entries are read from two encodings, and the unknown bit is not ignored. -/
theorem coding_exact_of_loose :
    decode (encode Sample.twoGroups) = .ok Sample.twoGroups ∧
    decode Sample.loose = .ok Sample.twoGroups ∧ encode Sample.twoGroups ≠ Sample.loose ∧
    decode? Sample.loose = some (.array (Sample.twoGroups.map toValue)) ∧
    (decode Sample.unknown = .error .invalidScopeFormat ∨ decode Sample.unknown = .error .invalidRoles) := by
  obtain ⟨written, read⟩ := coding_exact
  have given : ∀ entry ∈ Sample.twoGroups, entry.roles.isEmpty = false := by decide
  have fit : Fit Sample.twoGroups := ⟨by decide, by decide +kernel⟩
  have accepted : decode Sample.loose = .ok Sample.twoGroups := by decide +kernel
  refine ⟨written _ (by decide) given fit, accepted, by decide +kernel, ((read _).1 _ accepted).2.1, (read _).2.2 ?_⟩
  have item : decode? Sample.unknown =
      some (.array [.array [.text "a", .uint 0x02], .array [.text "b", .uint 0x1e], .array [.text "c", .uint 0x22]]) := by
    decide +kernel
  rintro ⟨_, again, items, rfl, _, pairs⟩
  cases item.symm.trans again
  obtain ⟨_, _, same, _, known⟩ := pairs (.array [.text "c", .uint 0x22]) (by simp)
  cases same
  exact absurd (known 5 (by decide)).2 (by decide)

end GroupEntry

end TokenGate
