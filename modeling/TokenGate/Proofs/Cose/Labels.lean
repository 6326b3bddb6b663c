import Mathlib.Data.List.Nodup
import TokenGate.Cose.Key
import TokenGate.Proofs.Cbor.Reading
import TokenGate.Proofs.Lists

/-!
# Fields read back

A COSE map is written as the fields of known labels that are present, and then all others. Such a map has the fields it was made
of, in whatever order their labels were known before.
-/

namespace TokenGate

namespace Cbor.Value

/-- A number that is not negative has no sign bit. -/
theorem toUInt64_lt_of_nonneg {n : Int64} (h : 0 ≤ n) : n.toUInt64 < 0x8000000000000000 := by
  have bound := n.toInt_lt
  rw [UInt64.lt_iff_toNat_lt, Int64.toNat_toUInt64_of_le h, Int64.toNatClampNeg]
  change n.toInt.toNat < 9223372036854775808
  omega

/-- The complement of a negative number is not negative. -/
theorem nonneg_not_of_neg {n : Int64} (h : n < 0) : 0 ≤ ~~~n := by
  have low := n.le_toInt
  have neg : n.toInt < 0 := Int64.lt_iff_toInt_lt.mp h
  rw [Int64.le_iff_toInt_le, Int64.toInt_not, Int.bmod_eq_of_le (by omega) (by omega)]
  change (0 : Int) ≤ _
  omega

/-- A signed integer is read back. -/
theorem toInt64?_ofInt64 (n : Int64) : (ofInt64 n).toInt64? = some n := by
  unfold ofInt64
  split
  · rename_i neg
    rw [toInt64?, if_pos (toUInt64_lt_of_nonneg (nonneg_not_of_neg neg)), Int64.toInt64_toUInt64, Int64.not_not]
  · rename_i nonneg
    rw [toInt64?, if_pos (toUInt64_lt_of_nonneg (Int64.not_lt.mp nonneg)), Int64.toInt64_toUInt64]

/-- Different numbers are different values. -/
theorem ofInt64_inj {m n : Int64} (same : ofInt64 m = ofInt64 n) : m = n := by
  have read := toInt64?_ofInt64 m
  rw [same, toInt64?_ofInt64] at read
  exact (Option.some.inj read).symm

/-- A number without the sign bit is not negative. -/
theorem nonneg_toInt64 {n : UInt64} (small : n < 0x8000000000000000) : 0 ≤ n.toInt64 := by
  have bound : n.toNat < 9223372036854775808 := UInt64.lt_iff_toNat_lt.mp small
  have value : n.toInt64.toInt = n.toNat := BitVec.toInt_eq_toNat_of_lt (show 2 * n.toNat < 2 ^ 64 by omega)
  rw [Int64.le_iff_toInt_le, value]
  exact Int.natCast_nonneg _

/-- A value that is read as a signed integer is how that one is written. -/
theorem toInt64?_eq_some_iff {v : Value} {n : Int64} : v.toInt64? = some n ↔ v = ofInt64 n := by
  refine ⟨fun read => ?_, fun same => same ▸ toInt64?_ofInt64 n⟩
  cases v with
  | uint m =>
    obtain ⟨small, same⟩ := Option.ite_none_right_eq_some.mp read
    cases same
    rw [ofInt64, if_neg (Int64.not_lt.mpr (nonneg_toInt64 small)), UInt64.toUInt64_toInt64]
  | nint m =>
    obtain ⟨small, same⟩ := Option.ite_none_right_eq_some.mp read
    cases same
    have nonneg := nonneg_toInt64 small
    have neg : ~~~m.toInt64 < 0 := by
      have low := Int64.le_iff_toInt_le.mp nonneg
      have high := m.toInt64.toInt_lt
      change (0 : Int) ≤ _ at low
      rw [Int64.lt_iff_toInt_lt, Int64.toInt_not, Int.bmod_eq_of_le (by omega) (by omega)]
      change _ < (0 : Int)
      omega
    rw [ofInt64, if_pos neg, Int64.not_not, UInt64.toUInt64_toInt64]
  | _ => nomatch read

/-- Only a natural number is read as one. -/
theorem toUInt64?_eq_some_iff {v : Value} {n : UInt64} : v.toUInt64? = some n ↔ v = .uint n := by
  cases v <;> simp [toUInt64?]

/-- A number with a sign is read back at any depth. -/
theorem isFaithful_ofInt64 (n : Int64) (depth : Nat) : (ofInt64 n).IsFaithful depth := by
  unfold ofInt64
  split
  · exact .nint depth _
  · exact .uint depth _

end Cbor.Value

namespace Cose

open Cbor

namespace Label

/-- A value that is no text is a label if it is a number. -/
theorem ofValue?_of_not_text {v : Value} (other : ∀ s, v ≠ .text s) : ofValue? v = v.toInt64?.map .int := by
  unfold ofValue?
  split
  · rename_i s
    exact absurd rfl (other s)
  · rfl

/-- A label is read back. -/
theorem ofValue?_toValue (label : Label) : ofValue? label.toValue = some label := by
  cases label with
  | text s => rfl
  | int n =>
    have other : ∀ s, Value.ofInt64 n ≠ .text s := by
      intro s
      unfold Value.ofInt64
      split <;> nofun
    rw [toValue, ofValue?_of_not_text other, Value.toInt64?_ofInt64, Option.map_some]

/-- A label is read from nothing but how it is written. -/
theorem ofValue?_eq_some_iff {v : Value} {label : Label} : ofValue? v = some label ↔ v = label.toValue := by
  refine ⟨fun read => ?_, fun same => same ▸ ofValue?_toValue label⟩
  unfold ofValue? at read
  split at read
  · cases read
    rfl
  · obtain ⟨n, number, rfl⟩ := Option.map_eq_some_iff.mp read
    exact Value.toInt64?_eq_some_iff.mp number

/-- Different labels are different values. -/
theorem toValue_inj {a b : Label} (same : a.toValue = b.toValue) : a = b :=
  Option.some.inj (by rw [← ofValue?_toValue a, same, ofValue?_toValue])

/-- A label that was read can be written. -/
theorem isFaithful_toValue {v : Value} {label : Label} (h : ofValue? v = some label) {depth : Nat} (kept : v.IsFaithful depth)
    (other : Nat) : label.toValue.IsFaithful other := by
  cases label with
  | int n => exact Value.isFaithful_ofInt64 n other
  | text s =>
    unfold ofValue? at h
    split at h
    · cases h
      cases kept with
      | text _ length => exact .text other length
    · obtain ⟨_, _, same⟩ := Option.map_eq_some_iff.mp h
      nomatch same

variable {registered : Int → Bool}

/-- A registered label is a label. -/
theorem ofValue?_of_ofRegistered? {v : Value} {label : Label} (h : ofRegistered? registered v = some label) :
    ofValue? v = some label := by
  unfold ofRegistered? at h
  split at h
  · rename_i n read
    split at h
    · cases h
      exact read
    · nomatch h
  · rename_i s read
    cases h
    exact read
  · nomatch h

/-- A registered label is read back. -/
theorem ofRegistered?_toValue {v : Value} {label : Label} (h : ofRegistered? registered v = some label) :
    ofRegistered? registered label.toValue = some label := by
  have read := ofValue?_of_ofRegistered? h
  unfold ofRegistered? at h ⊢
  rw [read] at h
  rw [ofValue?_toValue]
  exact h

end Label

/-! ## Fields -/

/-- A field as the entry of a map. -/
def toEntry (field : Label × Value) : Value × Value := (field.1.toValue, field.2)

/-- Different fields are different entries. -/
theorem toEntry_injective : Function.Injective toEntry := by
  rintro ⟨label, v⟩ ⟨label', v'⟩ same
  obtain ⟨labels, values⟩ := Prod.mk.inj same
  exact Prod.ext (Label.toValue_inj labels) values

/-- Fields with different labels are read back. -/
theorem fields?_map {fields : List (Label × Value)} (nodup : (fields.map (·.1)).Nodup) :
    fields? (.map (fields.map toEntry)) = some fields := by
  unfold fields?
  dsimp only
  rw [mapM_map_eq_some]
  · exact if_pos nodup
  · intro field _
    simp only [toEntry, Label.ofValue?_toValue, Option.bind_eq_bind, Option.bind_some]

/-- The fields of a map are its entries. -/
theorem fields?_eq_some_iff {entries : List (Value × Value)} {fields : List (Label × Value)} :
    fields? (.map entries) = some fields ↔ entries = fields.map toEntry ∧ (fields.map (·.1)).Nodup := by
  constructor
  · intro h
    simp only [fields?, Option.bind_eq_bind, Option.bind_eq_some_iff] at h
    obtain ⟨_, read, unique⟩ := h
    obtain ⟨nodup, same⟩ := Option.ite_none_right_eq_some.mp unique
    cases same
    refine ⟨(map_of_mapM read fun e field own => ?_).symm, nodup⟩
    obtain ⟨label, read, same⟩ := Option.bind_eq_some_iff.mp own
    cases same
    exact Prod.ext (Label.ofValue?_eq_some_iff.mp read).symm rfl
  · rintro ⟨rfl, nodup⟩
    exact fields?_map nodup

/-- Fields that are the entries of a map, each under its label. -/
structure AreFieldsOf (fields : List (Label × Value)) (entries : List (Value × Value)) : Prop where
  nodup : (fields.map (·.1)).Nodup
  entry : ∀ field ∈ fields, ∃ k, (k, field.2) ∈ entries ∧ Label.ofValue? k = some field.1
  field : ∀ e ∈ entries, ∃ label, (label, e.2) ∈ fields ∧ Label.ofValue? e.1 = some label
  length : fields.length = entries.length

/-- Fields are those of a map. -/
theorem areFieldsOf_of_fields? {v : Value} {fields : List (Label × Value)} (h : fields? v = some fields) :
    ∃ entries, v = .map entries ∧ AreFieldsOf fields entries := by
  unfold fields? at h
  split at h
  · rename_i entries
    simp only [Option.bind_eq_bind, Option.bind_eq_some_iff] at h
    obtain ⟨fields', read, h⟩ := h
    split at h
    · rename_i nodup
      cases h
      refine ⟨entries, rfl, nodup, fun field among => ?_, fun e among => ?_, length_of_mapM read⟩
      · obtain ⟨⟨k, v⟩, among', own⟩ := exists_of_mem_mapM read among
        simp only [Option.bind_eq_some_iff] at own
        obtain ⟨label, own, same⟩ := own
        cases same
        exact ⟨k, among', own⟩
      · obtain ⟨field, among', own⟩ := exists_mem_of_mapM read among
        simp only [Option.bind_eq_some_iff] at own
        obtain ⟨label, own, same⟩ := own
        cases same
        exact ⟨label, among', own⟩
    · nomatch h
  · nomatch h

/-- What is known of the fields of a map that is nested at most `depth` deep. -/
structure AreStorable (depth : Nat) (fields : List (Label × Value)) : Prop where
  nodup : (fields.map (·.1)).Nodup
  labels : ∀ field ∈ fields, ∀ other, field.1.toValue.IsFaithful other
  values : ∀ field ∈ fields, field.2.IsStorable depth
  length : fields.length < 2 ^ 63

/-- The fields of a map that can be written and read back can be, too. -/
theorem areStorable_of_fields? {depth : Nat} {v : Value} {fields : List (Label × Value)} (h : fields? v = some fields)
    (storable : v.IsStorable (depth + 1)) : AreStorable depth fields := by
  obtain ⟨entries, rfl, are⟩ := areFieldsOf_of_fields? h
  refine ⟨are.nodup, fun field among other => ?_, fun field among => ?_, ?_⟩
  · obtain ⟨k, among', own⟩ := are.entry field among
    exact Label.isFaithful_toValue own (storable.of_mem_entries among').1.isFaithful other
  · obtain ⟨k, among', own⟩ := are.entry field among
    exact (storable.of_mem_entries among').2
  · rw [are.length]
    exact storable.length_entries

/-- A map has fields only within some depth. -/
theorem exists_depth_of_fields? {depth : Nat} {v : Value} {fields : List (Label × Value)} (h : fields? v = some fields)
    (storable : v.IsStorable depth) : ∃ less, depth = less + 1 := by
  obtain ⟨entries, rfl, _⟩ := areFieldsOf_of_fields? h
  cases depth with
  | zero => nomatch storable.deep
  | succ less => exact ⟨less, rfl⟩

/-- A field weighs less than the map that it is in. -/
theorem weight_lt_of_fields? {v : Value} {fields : List (Label × Value)} (h : fields? v = some fields) {field : Label × Value}
    (among : field ∈ fields) : field.2.weight < v.weight := by
  obtain ⟨entries, rfl, are⟩ := areFieldsOf_of_fields? h
  obtain ⟨k, among', _⟩ := are.entry field among
  have := Value.weight_le_of_mem_entries among'
  rw [Value.weight]
  dsimp only at this ⊢
  omega

/-- A field that is found is there. -/
theorem mem_of_field? {fields : List (Label × Value)} {n : Int64} {v : Value} (h : field? fields n = some v) :
    (.int n, v) ∈ fields := by
  obtain ⟨⟨label, w⟩, found, rfl⟩ := Option.map_eq_some_iff.mp h
  have same := List.find?_some found
  simp only [decide_eq_true_eq] at same
  subst same
  exact List.mem_of_find?_eq_some found

/-- A field is what its map has under its label. -/
theorem field?_of_mem {fields : List (Label × Value)} (nodup : (fields.map (·.1)).Nodup) {n : Int64} {v : Value}
    (among : (.int n, v) ∈ fields) : field? fields n = some v := by
  cases found : field? fields n with
  | none =>
    rw [field?, Option.map_eq_none_iff, List.find?_eq_none] at found
    exact absurd (decide_eq_true rfl) (found _ among)
  | some w => exact congrArg (fun field => some field.2) (List.inj_on_of_nodup_map nodup (mem_of_field? found) among rfl)

/-- Where no label comes twice, a field is found exactly if it is there. -/
theorem field?_eq_some_iff {fields : List (Label × Value)} (nodup : (fields.map (·.1)).Nodup) {n : Int64} {v : Value} :
    field? fields n = some v ↔ (.int n, v) ∈ fields :=
  ⟨mem_of_field?, field?_of_mem nodup⟩

/-- The other fields are those under no known label. -/
theorem mem_fieldsExcept {known : List Int64} {fields : List (Label × Value)} {field : Label × Value} :
    field ∈ fieldsExcept known fields ↔ field ∈ fields ∧ ∀ n ∈ known, field.1 ≠ .int n := by
  simp [fieldsExcept]

/-! ## Records -/

/-- The fields of a record: those under known labels that are present, and all others. -/
def recordOf (known : List (Int64 × Option Value)) (others : List (Label × Value)) : List (Label × Value) :=
  known.filterMap (fun (n, v) => v.map (.int n, ·)) ++ others

/-- The labels under which nothing but a known field is found. -/
structure AreApart (known : List (Int64 × Option Value)) (others : List (Label × Value)) : Prop where
  nodup : (known.map (·.1)).Nodup
  nodup' : (others.map (·.1)).Nodup
  apart : ∀ field ∈ others, ∀ n ∈ known.map (·.1), field.1 ≠ .int n

section

variable {known : List (Int64 × Option Value)} {others : List (Label × Value)} (h : AreApart known others)
include h

/-- Under a known label, a record has the known field if it is present. -/
theorem mem_recordOf_known {n : Int64} (isKnown : n ∈ known.map (·.1)) {v : Value} :
    (.int n, v) ∈ recordOf known others ↔ (n, some v) ∈ known := by
  rw [recordOf, List.mem_append, List.mem_filterMap]
  constructor
  · rintro (⟨⟨m, w⟩, among, same⟩ | among)
    · obtain ⟨w', present, same⟩ := Option.map_eq_some_iff.mp same
      cases same
      rw [← show w = some v from present]
      exact among
    · exact absurd rfl (h.apart _ among n isKnown)
  · intro among
    exact Or.inl ⟨_, among, rfl⟩

/-- No label comes twice in a record. -/
theorem nodup_recordOf : ((recordOf known others).map (·.1)).Nodup := by
  have labels : ((known.filterMap fun (n, v) => v.map (Label.int n, ·)).map (·.1)).Sublist (known.map (Label.int ·.1)) := by
    clear h
    induction known with
    | nil => exact List.Sublist.refl []
    | cons field known ih =>
      obtain ⟨n, v⟩ := field
      cases v with
      | none => exact ih.cons _
      | some v => exact ih.cons_cons _
  have known' : (known.map (Label.int ·.1)).Nodup := by
    have labelled := h.nodup.map (f := Label.int) fun _ _ same => Label.int.inj same
    rwa [List.map_map] at labelled
  rw [recordOf, List.map_append, List.nodup_append]
  refine ⟨known'.sublist labels, h.nodup', ?_⟩
  intro label among label' among' same
  subst same
  obtain ⟨⟨n, v⟩, listed, rfl⟩ := List.mem_map.mp (labels.subset among)
  obtain ⟨field, listed', same⟩ := List.mem_map.mp among'
  exact h.apart field listed' n (List.mem_map_of_mem listed) same

/-- What a record has under a known label is the known field. -/
theorem field?_recordOf {n : Int64} {v : Option Value} (among : (n, v) ∈ known) : field? (recordOf known others) n = v := by
  have isKnown : n ∈ known.map (·.1) := List.mem_map_of_mem among
  cases v with
  | some w => exact field?_of_mem (nodup_recordOf h) ((mem_recordOf_known h isKnown).mpr among)
  | none =>
    cases found : field? (recordOf known others) n with
    | none => rfl
    | some w =>
      have there := (mem_recordOf_known h isKnown).mp (mem_of_field? found)
      exact congrArg Prod.snd (List.inj_on_of_nodup_map h.nodup there among rfl)

/-- What a record has under other labels are the others. -/
theorem fieldsExcept_recordOf : fieldsExcept (known.map (·.1)) (recordOf known others) = others := by
  rw [fieldsExcept, recordOf, List.filter_append, List.filter_eq_nil_iff.mpr, List.nil_append, List.filter_eq_self]
  · intro field among
    have apart := h.apart field among
    simpa using apart
  · intro field among
    obtain ⟨⟨n, v⟩, listed, same⟩ := List.mem_filterMap.mp among
    obtain ⟨w, _, rfl⟩ := Option.map_eq_some_iff.mp same
    have isKnown : n ∈ known.map (·.1) := List.mem_map_of_mem listed
    simpa using isKnown

end

/-- A record with known fields that can be written can be written. -/
theorem isFaithful_recordOf {depth : Nat} {known : List (Int64 × Option Value)} {others : List (Label × Value)}
    (each : ∀ n v, (n, some v) ∈ known → v.IsFaithful depth) (labels : ∀ field ∈ others, field.1.toValue.IsFaithful depth)
    (values : ∀ field ∈ others, field.2.IsFaithful depth) (length : known.length + others.length < 2 ^ 64) :
    (Value.map ((recordOf known others).map toEntry)).IsFaithful (depth + 1) := by
  have all : ∀ field ∈ recordOf known others, field.1.toValue.IsFaithful depth ∧ field.2.IsFaithful depth := by
    intro field among
    rcases List.mem_append.mp among with among | among
    · obtain ⟨⟨n, v⟩, listed, same⟩ := List.mem_filterMap.mp among
      obtain ⟨w, present, rfl⟩ := Option.map_eq_some_iff.mp same
      subst present
      exact ⟨Value.isFaithful_ofInt64 n depth, each n w listed⟩
    · exact ⟨labels field among, values field among⟩
  have short : (recordOf known others).length ≤ known.length + others.length := by
    rw [recordOf, List.length_append]
    exact Nat.add_le_add_right (List.length_filterMap_le _ _) _
  refine .map ?_ (fun e among => ?_) fun e among => ?_
  · rw [List.length_map]
    omega
  · obtain ⟨field, listed, rfl⟩ := List.mem_map.mp among
    exact (all field listed).1
  · obtain ⟨field, listed, rfl⟩ := List.mem_map.mp among
    exact (all field listed).2

/-- What is written of a map, its known fields in their order and then all others, is read back. -/
theorem AreStorable.read_recordOf {depth : Nat} {fields : List (Label × Value)} (h : AreStorable depth fields)
    (labels : List Int64) {known : List (Int64 × Option Value)} (same : known.map (·.1) = labels) (nodup : labels.Nodup)
    (few : known.length < 2 ^ 63) (each : ∀ n v, (n, some v) ∈ known → v.IsFaithful depth) :
    (Value.map ((recordOf known (fieldsExcept labels fields)).map toEntry)).IsFaithful (depth + 1) ∧
      ∃ all, fields? (.map ((recordOf known (fieldsExcept labels fields)).map toEntry)) = some all ∧
        (∀ field ∈ known, field? all field.1 = field.2) ∧ fieldsExcept labels all = fieldsExcept labels fields := by
  subst same
  have sub : (fieldsExcept (known.map (·.1)) fields).Sublist fields := List.filter_sublist
  have apart : AreApart known (fieldsExcept (known.map (·.1)) fields) :=
    ⟨nodup, h.nodup.sublist (sub.map _), fun field among => (mem_fieldsExcept.mp among).2⟩
  have room := h.length
  have fewer := sub.length_le
  have faithful := isFaithful_recordOf each (fun field among => h.labels field (sub.subset among) depth)
    (fun field among => (h.values field (sub.subset among)).isFaithful) (by omega)
  exact ⟨faithful, _, fields?_map (nodup_recordOf apart), fun _ among => field?_recordOf apart among,
    fieldsExcept_recordOf apart⟩

/-! ## Writing records -/

/-- The entry of a field of a record, if the field is present. -/
def entryOf (n : Int64) (v : Option Value) : List (Value × Value) := v.toList.map ((Label.int n).toValue, ·)

theorem map_recordOf_cons (n : Int64) (v : Option Value) (known : List (Int64 × Option Value)) (others : List (Label × Value)) :
    (recordOf ((n, v) :: known) others).map toEntry = entryOf n v ++ (recordOf known others).map toEntry := by
  cases v <;> rfl

/-- The field of a byte string that is absent if the string is empty. -/
def bytesField (bs : Bytes) : Option Value := if bs.isEmpty then none else some (.bytes bs)

/-- The field of a list of labels that is absent if the list is empty. -/
def labelsField (labels : List Label) : Option Value :=
  if labels.isEmpty then none else some (.array (labels.map Label.toValue))

/-! ## Fields that are read back -/

/-- What is read of a storable value can be written, and is read back. -/
def Restores {α : Type} (depth : Nat) (read : Value → Option α) (write : α → Value) : Prop :=
  ∀ (v : Value) (a : α), v.IsStorable depth → read v = some a → read (write a) = some a ∧ (write a).IsFaithful depth

/-- A registered label is read back from its value. -/
theorem restores_registered (registered : Int → Bool) (depth : Nat) :
    Restores depth (Label.ofRegistered? registered) Label.toValue :=
  fun _ _ storable read => ⟨Label.ofRegistered?_toValue read,
    Label.isFaithful_toValue (Label.ofValue?_of_ofRegistered? read) storable.isFaithful depth⟩

/-- An optional field is read back. -/
theorem Restores.optional {α : Type} {depth : Nat} {read : Value → Option α} {write : α → Value}
    (h : Restores depth read write) {field : Option Value} (storable : ∀ v, field = some v → v.IsStorable depth)
    {content : Option α} (got : optional? read field = some content) :
    optional? read (content.map write) = some content ∧ ∀ w, content.map write = some w → w.IsFaithful depth := by
  cases field with
  | none =>
    cases got
    exact ⟨rfl, nofun⟩
  | some v =>
    obtain ⟨a, own, rfl⟩ := Option.map_eq_some_iff.mp got
    obtain ⟨again, faithful⟩ := h v a (storable v rfl) own
    refine ⟨congrArg (Option.map some) again, fun w same => ?_⟩
    cases same
    exact faithful

/-- A field of bytes is read back. -/
theorem restores_bytes {depth : Nat} {field : Option Value} (storable : ∀ v, field = some v → v.IsStorable depth) {bs : Bytes}
    (got : optionalBytes? field = some bs) :
    optionalBytes? (bytesField bs) = some bs ∧ ∀ w, bytesField bs = some w → w.IsFaithful depth := by
  unfold optionalBytes? at got
  split at got
  · cases got
    exact ⟨rfl, nofun⟩
  · cases got
    refine ⟨rfl, fun w same => ?_⟩
    cases same
    exact (storable _ rfl).isFaithful
  · nomatch got

/-- A field of labels is read back, if none of its readings is empty. -/
theorem restores_labels {depth : Nat} {read : Value → Option (List Label)}
    (h : ∀ {v labels}, v.IsStorable depth → read v = some labels → labels ≠ [] ∧
      read (.array (labels.map Label.toValue)) = some labels ∧ (Value.array (labels.map Label.toValue)).IsFaithful depth)
    {field : Option Value} (storable : ∀ v, field = some v → v.IsStorable depth) {content : Option (List Label)}
    (got : optional? read field = some content) :
    optional? read (labelsField (content.getD [])) = some content ∧
      ∀ w, labelsField (content.getD []) = some w → w.IsFaithful depth := by
  cases field with
  | none =>
    cases got
    exact ⟨rfl, nofun⟩
  | some v =>
    obtain ⟨labels, own, rfl⟩ := Option.map_eq_some_iff.mp got
    obtain ⟨some, again, faithful⟩ := h (storable v rfl) own
    have present : labelsField labels = Option.some (.array (labels.map Label.toValue)) := by
      rw [labelsField, List.isEmpty_eq_false_iff.mpr some, if_neg Bool.false_ne_true]
    rw [Option.getD_some, present]
    refine ⟨congrArg (Option.map Option.some) again, fun w same => ?_⟩
    cases same
    exact faithful

/-- A list of registered labels is read back. -/
theorem labels?_map {registered : Int → Bool} {labels : List Label} (some : labels ≠ [])
    (each : ∀ label ∈ labels, Label.ofRegistered? registered label.toValue = Option.some label) :
    HeaderOf.labels? (Label.ofRegistered? registered) (.array (labels.map Label.toValue)) = Option.some labels := by
  cases labels with
  | nil => exact absurd rfl some
  | cons label labels => exact mapM_map_eq_some each

/-- A list of labels can be written, if it is no longer than one that was read. -/
theorem isFaithful_labels {registered : Int → Bool} {depth : Nat} {v : Value} {read labels : List Label}
    (got : HeaderOf.labels? (Label.ofRegistered? registered) v = some read) (storable : v.IsStorable depth)
    (sub : ∀ label ∈ labels, label ∈ read) (length : labels.length = read.length) :
    (Value.array (labels.map Label.toValue)).IsFaithful depth := by
  unfold HeaderOf.labels? at got
  split at got
  · rename_i v vs
    cases depth with
    | zero => nomatch storable.deep
    | succ depth =>
      cases storable.isFaithful with
      | array short _ =>
        refine .array ?_ fun w among => ?_
        · rw [List.length_map, length, length_of_mapM got]
          exact short
        · obtain ⟨label, listed, rfl⟩ := List.mem_map.mp among
          obtain ⟨x, among', own⟩ := exists_of_mem_mapM got (sub label listed)
          exact (restores_registered registered depth x label (storable.of_mem among') own).2
  · nomatch got

/-- Labels that are read are registered ones, and there is at least one. -/
theorem ofRegistered?_of_labels? {registered : Int → Bool} {v : Value} {read : List Label}
    (got : HeaderOf.labels? (Label.ofRegistered? registered) v = some read) :
    read ≠ [] ∧ ∀ label ∈ read, Label.ofRegistered? registered label.toValue = some label := by
  unfold HeaderOf.labels? at got
  split at got
  · refine ⟨fun empty => ?_, fun label among => ?_⟩
    · have length := length_of_mapM got
      rw [empty] at length
      nomatch length
    · obtain ⟨x, _, own⟩ := exists_of_mem_mapM got among
      exact Label.ofRegistered?_toValue own
  · nomatch got

end Cose

end TokenGate
