import TokenGate.Oscore.Material
import TokenGate.Proofs.Cose.Labels

/-!
# Readings of input material

A map is input material if its entries are under labels of the material and of the types of these, and the identifier and the
secret come once each. Any other label may come several times, and the last time counts: such a map has a reading in each order of its
entries, but not the same one in all of them.
-/

namespace TokenGate.Oscore.Material

open Cbor

/-! ## Entries by label -/

namespace Field

/-- The labels that have to be there, and only once. -/
def required : List Field := [id, ms]

/-- A value is of the type and in the range that a label asks for. -/
def Admits : Field → Value → Prop
  | id, v | ms, v | salt, v | contextId, v => ∃ bs, v = .bytes bs
  | version, v => ∃ n, v = .uint n
  | hkdf, v | alg, v => ∃ n, v = .ofInt64 n

@[simp]
theorem ofLabel?_label (f : Field) : ofLabel? f.label = some f := by
  cases f <;> rfl

theorem label_of_ofLabel? {n : UInt64} {f : Field} (h : ofLabel? n = some f) : f.label = n := by
  simpa using List.find?_some h

theorem label_inj {f g : Field} (same : f.label = g.label) : f = g :=
  Option.some.inj (by rw [← ofLabel?_label f, same, ofLabel?_label])

end Field

/-- The values that are under a label, in order. -/
def valuesOf (entries : List (Value × Value)) (f : Field) : List Value :=
  (entries.filter fun e => e.1 = .uint f.label).map (·.2)

variable {entries entries' : List (Value × Value)} {e : Value × Value} {f : Field} {v : Value}
  {draft next final : Draft} {m : Material}

/-- An entry adds its value to those under its label. -/
theorem valuesOf_cons_self (f : Field) (v : Value) (entries : List (Value × Value)) :
    valuesOf ((.uint f.label, v) :: entries) f = v :: valuesOf entries f := by
  simp [valuesOf]

theorem valuesOf_cons_of_ne {g : Field} (other : g ≠ f) (v : Value) (entries : List (Value × Value)) :
    valuesOf ((.uint f.label, v) :: entries) g = valuesOf entries g := by
  have label : f.label ≠ g.label := fun same => other (Field.label_inj same).symm
  simp [valuesOf, label]

theorem mem_valuesOf : v ∈ valuesOf entries f ↔ (.uint f.label, v) ∈ entries := mem_map_filter_fst

/-- Every entry is under a label of the material, with a value that this label admits. -/
def AreTyped (entries : List (Value × Value)) : Prop :=
  ∀ e ∈ entries, ∃ f : Field, e.1 = .uint f.label ∧ f.Admits e.2

/-! ## What is entered into a draft -/

/-- The value under a label in a draft, if there is one yet. -/
def Draft.field? (draft : Draft) : Field → Option Value
  | .id => draft.id.map .bytes
  | .version => draft.version.map .uint
  | .ms => draft.ms.map .bytes
  | .hkdf => draft.hkdf.map .ofInt64
  | .alg => draft.alg.map .ofInt64
  | .salt => draft.salt.map .bytes
  | .contextId => draft.contextId.map .bytes

/-- The values that a draft has under a label once some entries have come in. -/
def Draft.values (draft : Draft) (entries : List (Value × Value)) (f : Field) : List Value :=
  (draft.field? f).toList ++ valuesOf entries f

/-- Only the value at the label of an entry is entered. -/
theorem Draft.exists_enter (admitted : f.Admits v) (new : f ∈ Field.required → draft.field? f = none) :
    ∃ next, draft.enter (.uint f.label, v) = some next ∧ ∀ g, next.field? g = if g = f then some v else draft.field? g := by
  cases f with
  | id =>
    obtain ⟨bs, rfl⟩ := admitted
    have absent : draft.id = none := Option.map_eq_none_iff.mp (new (by decide))
    exact ⟨{ draft with id := some bs }, by simp [enter, Value.toUInt64?, absent], fun g => by cases g <;> rfl⟩
  | version =>
    obtain ⟨n, rfl⟩ := admitted
    exact ⟨{ draft with version := some n }, by simp [enter, Value.toUInt64?], fun g => by cases g <;> rfl⟩
  | ms =>
    obtain ⟨bs, rfl⟩ := admitted
    have absent : draft.ms = none := Option.map_eq_none_iff.mp (new (by decide))
    exact ⟨{ draft with ms := some bs }, by simp [enter, Value.toUInt64?, absent], fun g => by cases g <;> rfl⟩
  | hkdf =>
    obtain ⟨n, rfl⟩ := admitted
    exact ⟨{ draft with hkdf := some n }, by simp [enter, Value.toUInt64?, Value.toInt64?_ofInt64],
      fun g => by cases g <;> rfl⟩
  | alg =>
    obtain ⟨n, rfl⟩ := admitted
    exact ⟨{ draft with alg := some n }, by simp [enter, Value.toUInt64?, Value.toInt64?_ofInt64],
      fun g => by cases g <;> rfl⟩
  | salt =>
    obtain ⟨bs, rfl⟩ := admitted
    exact ⟨{ draft with salt := some bs }, by simp [enter, Value.toUInt64?], fun g => by cases g <;> rfl⟩
  | contextId =>
    obtain ⟨bs, rfl⟩ := admitted
    exact ⟨{ draft with contextId := some bs }, by simp [enter, Value.toUInt64?], fun g => by cases g <;> rfl⟩

/-- What is entered is under a label and admitted by it, and new where the label may come only once. -/
theorem Draft.admits_of_enter (entered : draft.enter e = some next) :
    ∃ f : Field, e.1 = .uint f.label ∧ f.Admits e.2 ∧ (f ∈ Field.required → draft.field? f = none) := by
  obtain ⟨k, v⟩ := e
  unfold enter at entered
  simp only [Option.bind_eq_bind, Option.bind_eq_some_iff] at entered
  obtain ⟨n, label, f, known, entered⟩ := entered
  obtain rfl := Value.toUInt64?_eq_some_iff.mp label
  obtain rfl := Field.label_of_ofLabel? known
  refine ⟨f, rfl, ?_⟩
  split at entered
  · obtain ⟨absent, _⟩ := Option.ite_none_right_eq_some.mp entered
    exact ⟨⟨_, rfl⟩, fun _ => Option.map_eq_none_iff.mpr (Option.isNone_iff_eq_none.mp absent)⟩
  · obtain ⟨absent, _⟩ := Option.ite_none_right_eq_some.mp entered
    exact ⟨⟨_, rfl⟩, fun _ => Option.map_eq_none_iff.mpr (Option.isNone_iff_eq_none.mp absent)⟩
  · obtain ⟨n, number, _⟩ := Option.bind_eq_some_iff.mp entered
    exact ⟨⟨n, Value.toUInt64?_eq_some_iff.mp number⟩, fun required => absurd required (by decide)⟩
  · obtain ⟨n, number, _⟩ := Option.bind_eq_some_iff.mp entered
    exact ⟨⟨n, Value.toInt64?_eq_some_iff.mp number⟩, fun required => absurd required (by decide)⟩
  · obtain ⟨n, number, _⟩ := Option.bind_eq_some_iff.mp entered
    exact ⟨⟨n, Value.toInt64?_eq_some_iff.mp number⟩, fun required => absurd required (by decide)⟩
  · exact ⟨⟨_, rfl⟩, fun required => absurd required (by decide)⟩
  · exact ⟨⟨_, rfl⟩, fun required => absurd required (by decide)⟩
  · nomatch entered

/-- What a draft has under each label after an entry is the values that it had and the one of the entry. -/
theorem Draft.field?_enter (entered : draft.enter (.uint f.label, v) = some next) (g : Field) :
    next.field? g = if g = f then some v else draft.field? g := by
  obtain ⟨f', label, admitted, new⟩ := admits_of_enter entered
  obtain rfl := Field.label_inj (Value.uint.inj label)
  obtain ⟨next', entered', fields⟩ := exists_enter admitted new
  rw [entered] at entered'
  cases entered'
  exact fields g

/-! ## Readings of all entries -/

/-- Entries that can be entered into a draft one after the other: a label that has to be there comes once, counting what is in the
draft. -/
structure Draft.Takes (draft : Draft) (entries : List (Value × Value)) : Prop where
  typed : AreTyped entries
  once : ∀ f ∈ Field.required, (draft.values entries f).length ≤ 1

/-- An entry that comes in adds its value behind the one in the draft. -/
theorem Draft.values_cons_self (draft : Draft) (f : Field) (v : Value) (entries : List (Value × Value)) :
    draft.values ((.uint f.label, v) :: entries) f = (draft.field? f).toList ++ v :: valuesOf entries f := by
  rw [values, valuesOf_cons_self]

/-- The entries that follow can be entered just if all of them could. -/
theorem Draft.takes_iff_of_enter (entered : draft.enter e = some next) : next.Takes entries ↔ draft.Takes (e :: entries) := by
  obtain ⟨f, label, admitted, new⟩ := admits_of_enter entered
  obtain ⟨k, v⟩ := e
  subst label
  have fields := field?_enter entered
  have values : ∀ g ∈ Field.required, next.values entries g = draft.values ((.uint f.label, v) :: entries) g := by
    intro g required
    by_cases same : g = f
    · subst same
      rw [values, values_cons_self, fields, if_pos rfl, new required]
      rfl
    · rw [values, values, fields, if_neg same, valuesOf_cons_of_ne same]
  constructor
  · rintro ⟨typed, once⟩
    exact ⟨List.forall_mem_cons.mpr ⟨⟨f, rfl, admitted⟩, typed⟩, fun g required => values g required ▸ once g required⟩
  · rintro ⟨typed, once⟩
    exact ⟨(List.forall_mem_cons.mp typed).2, fun g required => values g required ▸ once g required⟩

/-- The first of entries that can be entered is entered. -/
theorem Draft.Takes.exists_enter (h : draft.Takes (e :: entries)) : ∃ next, draft.enter e = some next := by
  obtain ⟨f, label, admitted⟩ := h.typed e List.mem_cons_self
  obtain ⟨k, v⟩ := e
  subst label
  have new : f ∈ Field.required → draft.field? f = none := by
    intro required
    have once := h.once f required
    rw [values_cons_self] at once
    cases held : draft.field? f with
    | none => rfl
    | some w =>
      rw [held] at once
      exact absurd once (by simp)
  obtain ⟨next, entered, _⟩ := Draft.exists_enter admitted new
  exact ⟨next, entered⟩

/-- Entries are entered one after the other exactly if the draft takes them. -/
theorem Draft.exists_foldlM_iff : (∃ final, entries.foldlM enter draft = some final) ↔ draft.Takes entries := by
  induction entries generalizing draft with
  | nil =>
    refine ⟨fun _ => ⟨List.forall_mem_nil _, fun f _ => ?_⟩, fun _ => ⟨draft, rfl⟩⟩
    rw [values]
    cases draft.field? f <;> simp [valuesOf]
  | cons e entries ih =>
    simp only [List.foldlM_cons, Option.bind_eq_bind, Option.bind_eq_some_iff]
    constructor
    · rintro ⟨final, next, entered, others⟩
      exact (takes_iff_of_enter entered).mp (ih.mp ⟨final, others⟩)
    · intro h
      obtain ⟨next, entered⟩ := h.exists_enter
      obtain ⟨final, others⟩ := ih.mpr ((takes_iff_of_enter entered).mpr h)
      exact ⟨final, next, entered, others⟩

/-- Of the values under a label the last one counts. -/
theorem Draft.field?_foldlM (entered : entries.foldlM enter draft = some final) (f : Field) :
    final.field? f = (draft.values entries f).getLast? := by
  induction entries generalizing draft with
  | nil =>
    cases entered
    rw [values]
    cases final.field? f <;> rfl
  | cons e entries ih =>
    rw [List.foldlM_cons, Option.bind_eq_bind, Option.bind_eq_some_iff] at entered
    obtain ⟨next, first, others⟩ := entered
    obtain ⟨g, label, _, _⟩ := admits_of_enter first
    obtain ⟨k, v⟩ := e
    subst label
    rw [ih others, values, field?_enter first]
    by_cases same : f = g
    · subst same
      rw [if_pos rfl, values_cons_self, List.getLast?_append_of_ne_nil _ (List.cons_ne_nil _ _)]
      rfl
    · rw [if_neg same, values, valuesOf_cons_of_ne same]

/-- Material is a draft with the same values under all labels. -/
theorem Draft.finish_eq_some_iff : draft.finish = some m ↔ ∀ f, draft.field? f = m.field? f := by
  obtain ⟨id, version, ms, hkdf, alg, salt, contextId⟩ := draft
  simp only [finish, Option.bind_eq_bind, Option.bind_eq_some_iff]
  constructor
  · rintro ⟨id, rfl, ms, rfl, same⟩ f
    cases same
    cases f <;> rfl
  · intro same
    have of_map : ∀ {α : Type} {write : α → Value} {a b : Option α}, (∀ x y, write x = write y → x = y) →
        a.map write = b.map write → a = b := fun inj same => Option.map_injective (fun x y => inj x y) same
    have ids : id = some m.id := of_map (fun _ _ => Value.bytes.inj) (same .id)
    have versions : version = m.version := of_map (fun _ _ => Value.uint.inj) (same .version)
    have secrets : ms = some m.ms := of_map (fun _ _ => Value.bytes.inj) (same .ms)
    have hkdfs : hkdf = m.hkdf := of_map (fun _ _ => Value.ofInt64_inj) (same .hkdf)
    have algs : alg = m.alg := of_map (fun _ _ => Value.ofInt64_inj) (same .alg)
    have salts : salt = m.salt := of_map (fun _ _ => Value.bytes.inj) (same .salt)
    have contexts : contextId = m.contextId := of_map (fun _ _ => Value.bytes.inj) (same .contextId)
    subst ids versions secrets hkdfs algs salts contexts
    exact ⟨m.id, rfl, m.ms, rfl, rfl⟩

/-- Entries that input material can be read from. -/
structure AreReadable (entries : List (Value × Value)) : Prop where
  typed : AreTyped entries
  once : ∀ f ∈ Field.required, ∃ v, valuesOf entries f = [v]

/-- Material is read from maps only. -/
theorem exists_map_of_ofValue? (read : ofValue? v = some m) : ∃ entries, v = .map entries := by
  cases v with
  | map entries => exact ⟨entries, rfl⟩
  | _ => nomatch read

/-- The last value under a label is the one that counts. -/
theorem field?_of_ofValue? (read : ofValue? (.map entries) = some m) (f : Field) : m.field? f = (valuesOf entries f).getLast? := by
  simp only [ofValue?, Option.bind_eq_bind, Option.bind_eq_some_iff] at read
  obtain ⟨final, entered, finished⟩ := read
  rw [← Draft.finish_eq_some_iff.mp finished f, Draft.field?_foldlM entered]
  cases f <;> rfl

/-- A draft is material once it has something under the labels that have to be there. -/
theorem Draft.exists_finish_iff : (∃ m, draft.finish = some m) ↔ ∀ f ∈ Field.required, draft.field? f ≠ none := by
  obtain ⟨id, version, ms, hkdf, alg, salt, contextId⟩ := draft
  cases id <;> cases ms <;> simp [finish, Field.required, field?]

/-- Material is read from a map exactly if its entries are readable. -/
theorem exists_ofValue?_iff : (∃ m, ofValue? (.map entries) = some m) ↔ AreReadable entries := by
  have fresh : ∀ f, ({} : Draft).values entries f = valuesOf entries f := fun f => by cases f <;> rfl
  simp only [ofValue?, Option.bind_eq_bind, Option.bind_eq_some_iff]
  constructor
  · rintro ⟨m, final, entered, finished⟩
    have takes := Draft.exists_foldlM_iff.mp ⟨final, entered⟩
    refine ⟨takes.typed, fun f required => List.length_eq_one_iff.mp ?_⟩
    have atMost := takes.once f required
    have present := Draft.exists_finish_iff.mp ⟨m, finished⟩ f required
    rw [fresh] at atMost
    rw [Draft.field?_foldlM entered, fresh, ne_eq, List.getLast?_eq_none_iff] at present
    exact Nat.le_antisymm atMost (List.length_pos_iff.mpr present)
  · rintro ⟨typed, once⟩
    have takes : ({} : Draft).Takes entries := by
      refine ⟨typed, fun f required => ?_⟩
      obtain ⟨v, one⟩ := once f required
      rw [fresh, one]
      exact Nat.le_refl 1
    obtain ⟨final, entered⟩ := Draft.exists_foldlM_iff.mpr takes
    have present : ∀ f ∈ Field.required, final.field? f ≠ none := by
      intro f required
      obtain ⟨v, one⟩ := once f required
      rw [Draft.field?_foldlM entered, fresh, one]
      exact Option.some_ne_none v
    obtain ⟨m, finished⟩ := Draft.exists_finish_iff.mpr present
    exact ⟨m, final, entered, finished⟩

/-! ## Readings of reordered entries -/

/-- In another order there are the same values under each label. -/
theorem valuesOf_perm (reordered : entries'.Perm entries) (f : Field) : (valuesOf entries' f).Perm (valuesOf entries f) :=
  (reordered.filter _).map _

/-- Entries are readable in any order if they are in one. -/
theorem AreReadable.reorder (h : AreReadable entries) (reordered : entries'.Perm entries) : AreReadable entries' where
  typed := fun e among => h.typed e (reordered.subset among)
  once := by
    intro f required
    obtain ⟨v, one⟩ := h.once f required
    have values := valuesOf_perm reordered f
    rw [one] at values
    exact ⟨v, List.perm_singleton.mp values⟩

/-- Material is made of what is under its labels. -/
theorem eq_of_field? {m' : Material} (same : ∀ f, m'.field? f = m.field? f) : m' = m := by
  let draft : Draft := { m with id := some m.id, ms := some m.ms }
  have fields : ∀ f, draft.field? f = m.field? f := fun f => by cases f <;> rfl
  have first : draft.finish = some m := Draft.finish_eq_some_iff.mpr fields
  have second : draft.finish = some m' := Draft.finish_eq_some_iff.mpr fun f => (fields f).trans (same f).symm
  rw [first] at second
  exact (Option.some.inj second).symm

/-- A value that is brought to the end is the one that counts. -/
theorem exists_reorder_getLast? (among : v ∈ valuesOf entries f) :
    ∃ entries', entries'.Perm entries ∧ (valuesOf entries' f).getLast? = some v := by
  have entry := List.perm_cons_erase (mem_valuesOf.mp among)
  refine ⟨entries.erase (.uint f.label, v) ++ [(.uint f.label, v)], ?_, ?_⟩
  · exact (List.perm_append_singleton _ _).trans entry.symm
  · simp [valuesOf]

/-- The order says nothing just if a label that comes several times has the same value each time. -/
theorem reorder_ofValue?_iff (read : ofValue? (.map entries) = some m) :
    (∀ entries', entries'.Perm entries → ofValue? (.map entries') = some m) ↔
      ∀ f, ∀ v ∈ valuesOf entries f, m.field? f = some v := by
  constructor
  · intro stable f v among
    obtain ⟨entries', reordered, last⟩ := exists_reorder_getLast? among
    rw [field?_of_ofValue? (stable entries' reordered) f, last]
  · intro one entries' reordered
    obtain ⟨m', read'⟩ := exists_ofValue?_iff.mpr ((exists_ofValue?_iff.mp ⟨m, read⟩).reorder reordered)
    have fields : ∀ f, m'.field? f = m.field? f := by
      intro f
      have values := valuesOf_perm reordered f
      rw [field?_of_ofValue? read' f]
      cases last : (valuesOf entries' f).getLast? with
      | some v => exact (one f v (values.subset (List.mem_of_getLast? last))).symm
      | none =>
        rw [List.getLast?_eq_none_iff.mp last] at values
        rw [field?_of_ofValue? read f, values.symm.eq_nil]
        rfl
    rw [read', eq_of_field? fields]

/-! ## Material read back -/

/-- What is under a label of some material is of its type. -/
theorem admits_of_field? (present : m.field? f = some v) : f.Admits v := by
  cases f with
  | id | ms =>
    cases present
    exact ⟨_, rfl⟩
  | version | hkdf | alg | salt | contextId =>
    obtain ⟨part, _, rfl⟩ := Option.map_eq_some_iff.mp present
    exact ⟨part, rfl⟩

/-- The parts of some material that are under given labels, as entries. -/
def parts (m : Material) (fields : List Field) : List (Value × Value) :=
  fields.filterMap fun f => (m.field? f).map fun v => (.uint f.label, v)

/-- Of the parts of some material each is under its own label. -/
theorem valuesOf_parts (m : Material) (f : Field) {fields : List Field} (nodup : fields.Nodup) :
    valuesOf (m.parts fields) f = if f ∈ fields then (m.field? f).toList else [] := by
  induction fields with
  | nil => rfl
  | cons g fields ih =>
    obtain ⟨new, nodup⟩ := List.nodup_cons.mp nodup
    have rest := ih nodup
    by_cases same : f = g
    · subst same
      rw [if_neg new] at rest
      rw [if_pos List.mem_cons_self, parts, List.filterMap_cons]
      cases m.field? f with
      | none => exact rest
      | some v => exact (valuesOf_cons_self f v _).trans (congrArg (v :: ·) rest)
    · have among : f ∈ g :: fields ↔ f ∈ fields := List.mem_cons.trans (or_iff_right same)
      simp only [among, ← rest, parts, List.filterMap_cons]
      cases m.field? g with
      | none => rfl
      | some v => exact valuesOf_cons_of_ne same v _

/-- Material is read back. -/
theorem ofValue?_toValue (m : Material) : ofValue? m.toValue = some m := by
  have values : ∀ f, valuesOf (m.parts Field.all) f = (m.field? f).toList :=
    fun f => (valuesOf_parts m f (by decide)).trans (if_pos (by cases f <;> decide))
  have readable : AreReadable (m.parts Field.all) := by
    refine ⟨fun e among => ?_, fun f required => ?_⟩
    · obtain ⟨f, _, part⟩ := List.mem_filterMap.mp among
      obtain ⟨v, present, rfl⟩ := Option.map_eq_some_iff.mp part
      exact ⟨f, rfl, admits_of_field? present⟩
    · rw [values]
      rcases List.mem_cons.mp required with rfl | required
      · exact ⟨_, rfl⟩
      · cases List.mem_singleton.mp required
        exact ⟨_, rfl⟩
  obtain ⟨m', read⟩ := exists_ofValue?_iff.mpr readable
  have fields : ∀ f, m'.field? f = m.field? f := by
    intro f
    rw [field?_of_ofValue? read, values]
    cases m.field? f <;> rfl
  exact read.trans (congrArg some (eq_of_field? fields))

/-! ## One reading -/

/-- Entries that are all under labels of the material and of their types, no label twice, and none missing that has to be there. -/
structure AreStrict (entries : List (Value × Value)) : Prop where
  typed : AreTyped entries
  once : ∀ f : Field, (entries.map (·.1)).count (.uint f.label) ≤ 1
  present : ∀ f ∈ Field.required, ∃ v, (.uint f.label, v) ∈ entries

/-- A value has one reading at most: material is read from it just if it is a map with strict entries, holds what these hold, and is
the same for any order of them. -/
structure HasOneReading (v : Value) : Prop where
  accepted : (∃ m, ofValue? v = some m) ↔ ∃ entries, v = .map entries ∧ AreStrict entries
  exact : ∀ entries m, v = .map entries → ofValue? v = some m → ∀ f w, m.field? f = some w ↔ (.uint f.label, w) ∈ entries
  stable : ∀ entries entries', v = .map entries → entries'.Perm entries → ofValue? (.map entries') = ofValue? v

/-- There are as many values under a label as the label comes up. -/
theorem length_valuesOf (entries : List (Value × Value)) (f : Field) :
    (valuesOf entries f).length = (entries.map (·.1)).count (.uint f.label) :=
  length_map_filter_fst entries _

/-- Entries that can be read are strict unless a label comes twice. -/
theorem areStrict_iff : AreStrict entries ↔ AreReadable entries ∧ ∀ f : Field, (entries.map (·.1)).count (.uint f.label) ≤ 1 := by
  constructor
  · rintro ⟨typed, once, present⟩
    refine ⟨⟨typed, fun f required => List.length_eq_one_iff.mp ?_⟩, once⟩
    obtain ⟨v, among⟩ := present f required
    refine Nat.le_antisymm ?_ (List.length_pos_of_mem (mem_valuesOf.mpr among))
    rw [length_valuesOf]
    exact once f
  · rintro ⟨⟨typed, one⟩, once⟩
    refine ⟨typed, once, fun f required => ?_⟩
    obtain ⟨v, values⟩ := one f required
    exact ⟨v, mem_valuesOf.mp (by rw [values]; exact List.mem_singleton_self v)⟩

/-- Where no label comes twice, the last value is the only one. -/
theorem field?_eq_some_iff (read : ofValue? (.map entries) = some m) (once : (entries.map (·.1)).count (.uint f.label) ≤ 1) :
    m.field? f = some v ↔ (.uint f.label, v) ∈ entries := by
  rw [field?_of_ofValue? read, ← mem_valuesOf]
  rw [← length_valuesOf] at once
  cases values : valuesOf entries f with
  | nil => exact iff_of_false nofun nofun
  | cons w rest =>
    rw [values] at once
    have alone : rest = [] := List.eq_nil_of_length_eq_zero (Nat.le_zero.mp (Nat.le_of_succ_le_succ once))
    rw [alone, List.mem_singleton]
    exact ⟨fun same => (Option.some.inj same).symm, fun same => congrArg some same.symm⟩

/-- All orders of entries are read alike, or all refused, where no label comes twice in what can be read. -/
theorem ofValue?_reordered (once : AreReadable entries → ∀ f : Field, (entries.map (·.1)).count (.uint f.label) ≤ 1)
    (reordered : entries'.Perm entries) : ofValue? (.map entries') = ofValue? (.map entries) := by
  cases read : ofValue? (.map entries) with
  | some m =>
    have one := once (exists_ofValue?_iff.mp ⟨m, read⟩)
    exact (reorder_ofValue?_iff read).mpr
      (fun f v among => (field?_eq_some_iff read (one f)).mpr (mem_valuesOf.mp among)) entries' reordered
  | none =>
    cases read' : ofValue? (.map entries') with
    | none => rfl
    | some m' =>
      obtain ⟨m, again⟩ := exists_ofValue?_iff.mpr ((exists_ofValue?_iff.mp ⟨m', read'⟩).reorder reordered.symm)
      rw [read] at again
      nomatch again

/-- A value has one reading at most just if it is no map that can be read although a label comes twice. Material is read from a map
whose entries are under labels of the material and of their types, with the identifier and the secret there once. It has under each
label the last value that came, so that all orders of the entries are read alike just if no label comes with different values.
Material that was written is read back. -/
theorem hasOneReading_iff (v : Value) (m : Material) :
    (HasOneReading v ↔
      ∀ entries, v = .map entries → AreReadable entries → ∀ f : Field, (entries.map (·.1)).count (.uint f.label) ≤ 1) ∧
    ((∃ m, ofValue? v = some m) ↔ ∃ entries, v = .map entries ∧ AreReadable entries) ∧
    (∀ entries, v = .map entries → ofValue? v = some m →
      (∀ f, m.field? f = (valuesOf entries f).getLast?) ∧
      ((∀ entries', entries'.Perm entries → ofValue? (.map entries') = some m) ↔
        ∀ f, ∀ v ∈ valuesOf entries f, m.field? f = some v)) ∧
    ofValue? m.toValue = some m := by
  have accepted : (∃ m, ofValue? v = some m) ↔ ∃ entries, v = .map entries ∧ AreReadable entries := by
    constructor
    · rintro ⟨m, read⟩
      obtain ⟨entries, rfl⟩ := exists_map_of_ofValue? read
      exact ⟨entries, rfl, exists_ofValue?_iff.mp ⟨m, read⟩⟩
    · rintro ⟨entries, rfl, readable⟩
      exact exists_ofValue?_iff.mpr readable
  refine ⟨⟨fun h entries same readable => ?_, fun once => ⟨?_, ?_, ?_⟩⟩, accepted, ?_, ofValue?_toValue m⟩
  · obtain ⟨entries', same', strict⟩ := h.accepted.mp (accepted.mpr ⟨entries, same, readable⟩)
    obtain rfl := Value.map.inj (same.symm.trans same')
    exact strict.once
  · rw [accepted]
    exact exists_congr fun entries => and_congr_right fun same =>
      ⟨fun readable => areStrict_iff.mpr ⟨readable, once entries same readable⟩, fun strict => (areStrict_iff.mp strict).1⟩
  · rintro entries m rfl read f w
    exact field?_eq_some_iff read (once entries rfl (exists_ofValue?_iff.mp ⟨m, read⟩) f)
  · rintro entries entries' rfl reordered
    exact ofValue?_reordered (once entries rfl) reordered
  · rintro entries rfl read
    exact ⟨field?_of_ofValue? read, reorder_ofValue?_iff read⟩

namespace Sample

/-- Entries with two versions, of which the first one is the version that there is. -/
def versions : List (Value × Value) := [(.uint 0, .bytes [0x41]), (.uint 2, .bytes [0x2a]), (.uint 1, .uint 1), (.uint 1, .uint 2)]

/-- What is read of them. -/
def material : Material := { id := [0x41], ms := [0x2a], version := some 2 }

end Sample

open Material.Sample in
/-- Of two versions the last one is read, so that the order matters. -/
theorem hasOneReading_iff_of_versions :
    ofValue? (.map versions) = some material ∧ ¬ HasOneReading (.map versions) ∧
      ¬ ∀ entries', entries'.Perm versions → ofValue? (.map entries') = some material := by
  have read : ofValue? (.map versions) = some material := by decide
  obtain ⟨one, accepted, each, _⟩ := hasOneReading_iff (.map versions) material
  obtain ⟨_, stable⟩ := each versions rfl read
  have readable : AreReadable versions := exists_ofValue?_iff.mp ⟨material, read⟩
  have first : Value.uint 1 ∈ valuesOf versions .version := mem_valuesOf.mpr (by simp [versions, Field.label])
  refine ⟨read, fun h => ?_, fun every => ?_⟩
  · exact absurd (one.mp h versions rfl readable .version) (by decide)
  · exact absurd (stable.mp every .version _ first) (by decide)

end TokenGate.Oscore.Material
