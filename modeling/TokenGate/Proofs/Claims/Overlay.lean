import TokenGate.Proofs.Claims.Equality

/-!
# Newer claims over older ones

What the authorization server says about a token takes the place of what the token says about itself, claim by claim. Of claims that
the server acts on there is at most one of each kind, but other entries are under keys of any kind, which are compared as numbers
are. As long as no two keys of a claims set are equal, and each equals itself, the newer claims are laid over the older ones as one
table over another, and it does not matter in which order several layers are put together.
-/

namespace TokenGate

open Cbor

/-! ## Equal keys -/

namespace Cbor.Value

/-- Equality of numbers in floating point is symmetric. -/
theorem floatEq_comm (a b : UInt64) : floatEq a b = floatEq b a := by
  rw [floatEq, floatEq, Bool.and_comm (!floatIsNaN a), Bool.and_comm (a <<< 1 == 0), BEq.comm (a := a)]

theorem floatEq_trans {a b c : UInt64} (first : floatEq a b = true) (second : floatEq b c = true) : floatEq a c = true := by
  simp only [floatEq, Bool.and_eq_true, Bool.or_eq_true, beq_iff_eq] at first second ⊢
  obtain ⟨⟨here, _⟩, same⟩ := first
  obtain ⟨⟨_, there⟩, alike⟩ := second
  refine ⟨⟨here, there⟩, ?_⟩
  rcases same with rfl | ⟨zero, nothing⟩
  · exact alike
  · rcases alike with rfl | ⟨_, null⟩
    · exact Or.inr ⟨zero, nothing⟩
    · exact Or.inr ⟨zero, null⟩

mutual

/-- Equality of values is symmetric. -/
theorem eq_comm : ∀ v w : Value, v.eq w = w.eq v
  | .uint _, w | .nint _, w | .bytes _, w | .text _, w | .bool _, w => by cases w <;> simp [eq, BEq.comm]
  | .float _, w => by cases w <;> simp [eq, floatEq_comm]
  | .null, w => by cases w <;> simp [eq]
  | .tag s v, w => by
    cases w with
    | tag t w => simp [eq, eq_comm v w, BEq.comm (a := s)]
    | _ => simp [eq]
  | .array vs, w => by
    cases w with
    | array ws => exact eqItems_comm vs ws
    | _ => simp [eq]
  | .map vs, w => by
    cases w with
    | map ws => exact eqEntries_comm vs ws
    | _ => simp [eq]

theorem eqItems_comm : ∀ vs ws : List Value, eqItems vs ws = eqItems ws vs
  | [], [] => rfl
  | [], _ :: _ | _ :: _, [] => by simp [eqItems]
  | v :: vs, w :: ws => by simp [eqItems, eq_comm v w, eqItems_comm vs ws]

theorem eqEntries_comm : ∀ vs ws : List (Value × Value), eqEntries vs ws = eqEntries ws vs
  | [], [] => rfl
  | [], _ :: _ | _ :: _, [] => by simp [eqEntries]
  | (j, v) :: vs, (k, w) :: ws => by simp [eqEntries, eq_comm j k, eq_comm v w, eqEntries_comm vs ws]

end

mutual

/-- Equality of values is transitive. -/
theorem eq_trans : ∀ {u v w : Value}, u.eq v = true → v.eq w = true → u.eq w = true
  | .uint _, .uint _, .uint _, first, second | .nint _, .nint _, .nint _, first, second
  | .bytes _, .bytes _, .bytes _, first, second | .text _, .text _, .text _, first, second
  | .bool _, .bool _, .bool _, first, second => by
    simp only [eq, beq_iff_eq] at first second ⊢
    exact first.trans second
  | .float _, .float _, .float _, first, second => floatEq_trans first second
  | .null, .null, .null, _, _ => rfl
  | .tag _ _, .tag _ _, .tag _ _, first, second => by
    simp only [eq, Bool.and_eq_true, beq_iff_eq] at first second ⊢
    exact ⟨first.1.trans second.1, eq_trans first.2 second.2⟩
  | .array _, .array _, .array _, first, second => eqItems_trans first second
  | .map _, .map _, .map _, first, second => eqEntries_trans first second

theorem eqItems_trans : ∀ {us vs ws : List Value}, eqItems us vs = true → eqItems vs ws = true → eqItems us ws = true
  | [], [], [], _, _ => rfl
  | _ :: _, _ :: _, _ :: _, first, second => by
    simp only [eqItems, Bool.and_eq_true] at first second ⊢
    exact ⟨eq_trans first.1 second.1, eqItems_trans first.2 second.2⟩

theorem eqEntries_trans :
    ∀ {us vs ws : List (Value × Value)}, eqEntries us vs = true → eqEntries vs ws = true → eqEntries us ws = true
  | [], [], [], _, _ => rfl
  | (_, _) :: _, (_, _) :: _, (_, _) :: _, first, second => by
    simp only [eqEntries, Bool.and_eq_true] at first second ⊢
    exact ⟨⟨eq_trans first.1.1 second.1.1, eq_trans first.1.2 second.1.2⟩, eqEntries_trans first.2 second.2⟩

end

/-- Equal values are equal to the same values. -/
theorem eq_congr {u v : Value} (h : u.eq v = true) (w : Value) : w.eq u = w.eq v := by
  rw [Bool.eq_iff_iff]
  refine ⟨fun first => eq_trans first h, fun first => eq_trans first ?_⟩
  rwa [eq_comm]

end Cbor.Value

/-! ## Tables -/

namespace Claims

variable {older newer newest entries : List (Value × Value)} {e : Value × Value} {j k v : Value}

/-- What entries have under a key: the value of the first one whose key equals it. -/
def valueAt? (entries : List (Value × Value)) (key : Value) : Option Value :=
  (entries.find? (·.1.eq key)).map (·.2)

/-- Entries under keys of which no two are equal, and in none of which there is a NaN. -/
structure AreKeyed (entries : List (Value × Value)) : Prop where
  distinct : entries.Pairwise fun d e => d.1.eq e.1 = false
  noNaN : ∀ e ∈ entries, e.1.hasNoNaN = true

/-- Entries with newer values where there are some. -/
def updated (older newer : List (Value × Value)) : List (Value × Value) :=
  older.map fun e => (e.1, (valueAt? newer e.1).getD e.2)

/-- The newer entries under keys that are not there yet. -/
def added (older newer : List (Value × Value)) : List (Value × Value) :=
  newer.filter fun e => (valueAt? older e.1).isNone

/-- The older entries with newer values where there are some, and then the newer entries under other keys. -/
def merge (older newer : List (Value × Value)) : List (Value × Value) := updated older newer ++ added older newer

/-- There is nothing under a key that no key equals. -/
theorem valueAt?_eq_none_iff : valueAt? entries k = none ↔ ∀ e ∈ entries, e.1.eq k = false := by
  simp [valueAt?, List.find?_eq_none]

/-- The first entry under a key counts. -/
theorem valueAt?_cons : valueAt? (e :: entries) k = if e.1.eq k then some e.2 else valueAt? entries k := by
  rw [valueAt?, List.find?_cons]
  cases e.1.eq k <;> rfl

/-- Earlier entries come first. -/
theorem valueAt?_append : valueAt? (older ++ newer) k = (valueAt? older k).or (valueAt? newer k) := by
  rw [valueAt?, List.find?_append, Option.map_or]
  rfl

/-- Entries have the same under equal keys. -/
theorem valueAt?_congr (h : j.eq k = true) : valueAt? entries j = valueAt? entries k := by
  simp only [valueAt?, Value.eq_congr h]

theorem updated_cons : updated (e :: older) newer = (e.1, (valueAt? newer e.1).getD e.2) :: updated older newer := rfl

theorem added_cons :
    added older (e :: newer) = if valueAt? older e.1 = none then e :: added older newer else added older newer := by
  simp only [added, List.filter_cons, Option.isNone_iff_eq_none]

/-- Updated entries have the newer value under a key that they have, if there is one. -/
theorem valueAt?_updated : valueAt? (updated older newer) k = (valueAt? older k).map (valueAt? newer k).getD := by
  induction older with
  | nil => rfl
  | cons e older ih =>
    rw [updated_cons, valueAt?_cons, valueAt?_cons, ih]
    by_cases same : e.1.eq k = true
    · rw [if_pos same, if_pos same, valueAt?_congr same, Option.map_some]
    · rw [if_neg same, if_neg same]

/-- Under a key that is not there yet, the added entries have what the newer ones have. -/
theorem valueAt?_added (fresh : valueAt? older k = none) : valueAt? (added older newer) k = valueAt? newer k := by
  induction newer with
  | nil => rfl
  | cons e newer ih =>
    rw [added_cons, valueAt?_cons]
    by_cases same : e.1.eq k = true
    · rw [if_pos ((valueAt?_congr same).trans fresh), valueAt?_cons, if_pos same, if_pos same]
    · split <;> simp [valueAt?_cons, same, ih]

/-- Under each key there is what the newer entries have there, or else what the older ones have. -/
theorem valueAt?_merge : valueAt? (merge older newer) k = (valueAt? newer k).or (valueAt? older k) := by
  rw [merge, valueAt?_append, valueAt?_updated]
  cases had : valueAt? older k with
  | none => rw [Option.map_none, Option.none_or, valueAt?_added had, Option.or_none]
  | some v => cases valueAt? newer k <;> rfl

/-- Entries that are updated twice are updated with what the two updates merge to. -/
theorem updated_updated : updated (updated older newer) newest = updated older (merge newer newest) := by
  rw [updated, updated, updated, List.map_map]
  refine List.map_congr_left fun e _ => ?_
  rw [Function.comp_apply, valueAt?_merge]
  cases valueAt? newest e.1 <;> rfl

/-- What is new to merged entries is new to both parts of them. -/
theorem added_merge : added (merge older newer) newest = added older (added newer newest) := by
  rw [added, added, added, List.filter_filter]
  refine List.filter_congr fun e _ => ?_
  rw [valueAt?_merge, Option.isNone_or, Bool.and_comm]

/-- Which entries are added depends on their keys only. -/
theorem updated_added : updated (added older newer) newest = added older (updated newer newest) := by
  rw [updated, added, added, updated, List.filter_map]
  rfl

/-- It does not matter in which order three layers are put together. -/
theorem merge_assoc : merge (merge older newer) newest = merge older (merge newer newest) :=
  calc merge (merge older newer) newest
      = updated (updated older newer) newest ++ updated (added older newer) newest ++ added (merge older newer) newest := by
        rw [merge, updated, merge, List.map_append]
        rfl
    _ = updated older (merge newer newest) ++ (added older (updated newer newest) ++ added older (added newer newest)) := by
        rw [updated_updated, updated_added, added_merge, List.append_assoc]
    _ = merge older (merge newer newest) := by
        rw [added, added, ← List.filter_append]
        rfl

namespace AreKeyed

/-- Leaving entries out keeps them keyed. -/
theorem sublist {part : List (Value × Value)} (h : AreKeyed entries) (within : part.Sublist entries) : AreKeyed part :=
  ⟨h.distinct.sublist within, fun e among => h.noNaN e (within.subset among)⟩

theorem tail (h : AreKeyed (e :: entries)) : AreKeyed entries := h.sublist (List.sublist_cons_self e entries)

/-- No later entry is under the key of the first one. -/
theorem head_fresh (h : AreKeyed (e :: entries)) : valueAt? entries e.1 = none := by
  refine valueAt?_eq_none_iff.mpr fun d among => ?_
  rw [Value.eq_comm]
  exact List.rel_of_pairwise_cons h.distinct among

/-- Each entry's value is what there is under its key. -/
theorem valueAt?_of_mem (h : AreKeyed entries) (among : e ∈ entries) : valueAt? entries e.1 = some e.2 := by
  induction entries with
  | nil => nomatch among
  | cons d entries ih =>
    rw [valueAt?_cons]
    rcases List.mem_cons.mp among with rfl | later
    · rw [Value.eq_self, h.noNaN e among, if_pos rfl]
    · rw [List.rel_of_pairwise_cons h.distinct later, if_neg Bool.false_ne_true, ih h.tail later]

/-- Entries laid over themselves are the same entries. -/
theorem merge_self (h : AreKeyed entries) : Claims.merge entries entries = entries := by
  have values : updated entries entries = entries.map id := by
    refine List.map_congr_left fun e among => ?_
    rw [h.valueAt?_of_mem among]
    rfl
  have none : added entries entries = [] := by
    refine List.filter_eq_nil_iff.mpr fun e among => ?_
    rw [h.valueAt?_of_mem among]
    exact Bool.false_ne_true
  rw [Claims.merge, values, none, List.map_id, List.append_nil]

/-- Entries that were told apart by their keys still are when newer ones have been laid over them. -/
theorem merge (first : AreKeyed older) (second : AreKeyed newer) : AreKeyed (Claims.merge older newer) := by
  refine ⟨List.pairwise_append.mpr ⟨List.pairwise_map.mpr first.distinct, second.distinct.filter _, ?_⟩, ?_⟩
  · intro d among e kept
    obtain ⟨before, within, rfl⟩ := List.mem_map.mp among
    have fresh := Option.isNone_iff_eq_none.mp (List.mem_filter.mp kept).2
    exact valueAt?_eq_none_iff.mp fresh before within
  · intro e among
    rcases List.mem_append.mp among with among | kept
    · obtain ⟨before, within, rfl⟩ := List.mem_map.mp among
      exact first.noNaN before within
    · exact second.noNaN e (List.mem_filter.mp kept).1

end AreKeyed

/-! ## Entries put in one by one -/

/-- A value under a key that is not there updates nothing. -/
theorem updated_single (fresh : valueAt? entries k = none) : updated entries [(k, v)] = entries := by
  have same : updated entries [(k, v)] = entries.map id := by
    refine List.map_congr_left fun e among => ?_
    rw [valueAt?_cons, Value.eq_comm, valueAt?_eq_none_iff.mp fresh e among]
    rfl
  rw [same, List.map_id]

/-- One entry is put in where there is one under its key, or else at the end. -/
theorem putExtra_eq_merge (keyed : AreKeyed entries) : putExtra k v entries = merge entries [(k, v)] := by
  induction entries with
  | nil => rfl
  | cons e entries ih =>
    have first : valueAt? [(k, v)] e.1 = if e.1.eq k then some v else none := by
      rw [valueAt?_cons, Value.eq_comm]
      rfl
    rw [putExtra, merge, updated_cons, added_cons, first, valueAt?_cons]
    by_cases here : e.1.eq k = true
    · have fresh : valueAt? entries k = none := (valueAt?_congr here).symm.trans keyed.head_fresh
      simp [here, updated_single fresh, added]
    · simp only [if_neg here, ih keyed.tail, merge, added_cons]
      rfl

/-- Newer entries laid over a single one under another key follow it. -/
theorem merge_single (fresh : valueAt? newer e.1 = none) : merge [e] newer = e :: newer := by
  have all : added [e] newer = newer := by
    refine List.filter_eq_self.mpr fun d among => ?_
    rw [valueAt?_cons, Value.eq_comm, valueAt?_eq_none_iff.mp fresh d among]
    rfl
  rw [merge, updated_cons, fresh, all]
  rfl

/-- Putting in all newer entries, one after the other, lays them over the older ones. -/
theorem foldl_putExtra_eq_merge (first : AreKeyed older) (second : AreKeyed newer) :
    newer.foldl (fun entries e => putExtra e.1 e.2 entries) older = merge older newer := by
  induction newer generalizing older with
  | nil => simp [merge, updated, added, valueAt?]
  | cons e newer ih =>
    have step : putExtra e.1 e.2 older = merge older [e] := putExtra_eq_merge first
    have single : AreKeyed [e] := second.sublist (List.singleton_sublist.mpr List.mem_cons_self)
    rw [List.foldl_cons, step, ih (first.merge single) second.tail, merge_assoc, merge_single second.head_fresh]

/-- The entries of an overlay are merged. -/
theorem extra_overlay {older newer : Claims} (first : AreKeyed older.extra) (second : AreKeyed newer.extra) :
    (older.overlay newer).extra = merge older.extra newer.extra :=
  foldl_putExtra_eq_merge first second

/-! ## Claims sets -/

/-- Newer claims laid over older ones take their place, one by one, and all others stay: no claim is lost, no key is new that was in
neither set, and the older entries stay where they were, in front of those that are added. To lay the same claims over once more
changes nothing, and layers may be put together from either end. -/
theorem overlay_merges {older newer newest : Claims} (first : AreKeyed older.extra) (second : AreKeyed newer.extra)
    (third : AreKeyed newest.extra) :
    (∀ k, (older.overlay newer).known k = (newer.known k).or (older.known k)) ∧
    (∀ k, valueAt? (older.overlay newer).extra k = (valueAt? newer.extra k).or (valueAt? older.extra k)) ∧
    (∀ e ∈ newer.extra, valueAt? (older.overlay newer).extra e.1 = some e.2) ∧
    (∀ e ∈ older.extra, valueAt? newer.extra e.1 = none → valueAt? (older.overlay newer).extra e.1 = some e.2) ∧
    (older.overlay newer).extra = updated older.extra newer.extra ++ added older.extra newer.extra ∧
    AreKeyed (older.overlay newer).extra ∧
    (older.overlay newer).overlay newer = older.overlay newer ∧
    (older.overlay newer).overlay newest = older.overlay (newer.overlay newest) := by
  have entries := extra_overlay first second
  have keyed : AreKeyed (older.overlay newer).extra := entries ▸ first.merge second
  have value : ∀ k, valueAt? (older.overlay newer).extra k = (valueAt? newer.extra k).or (valueAt? older.extra k) := by
    intro k
    rw [entries, valueAt?_merge]
  refine ⟨fun k => rfl, value, ?_, ?_, entries, keyed, ?_, ?_⟩
  · intro e among
    rw [value, second.valueAt?_of_mem among, Option.some_or]
  · intro e among others
    rw [value, others, Option.none_or, first.valueAt?_of_mem among]
  · refine Claims.ext (fun k => ?_) ?_
    · rw [known_overlay, known_overlay, ← Option.or_assoc, Option.or_self]
    · rw [extra_overlay keyed second, entries, merge_assoc, second.merge_self]
  · have later : AreKeyed (newer.overlay newest).extra := extra_overlay second third ▸ second.merge third
    refine Claims.ext (fun k => ?_) ?_
    · simp only [known_overlay, Option.or_assoc]
    · rw [extra_overlay keyed third, entries, extra_overlay first later, extra_overlay second third, merge_assoc]

namespace Sample

/-- What a token says, in entries under zero and under a text. -/
def stated : Claims :=
  { (empty.set .iss "AS").set .scope (.text "r_temp") with extra := [(.float 0, .uint 1), (.text "use", .uint 2)] }

/-- What the authorization server answers, in an entry under a text and in one under the other zero. -/
def answered : Claims :=
  { (empty.set .scope (.text "r_co2")).set .exp 5 with extra := [(.text "sub", .uint 3), (.float 0x8000000000000000, .uint 4)] }

/-- A later answer, in an entry under a map with the two zeros in it. -/
def answeredLater : Claims := { extra := [(.map [(.float 0, .float 0x8000000000000000)], .null), (.text "use", .uint 5)] }

end Sample

/-- The two zeros are one key, which stays as the token has it. -/
theorem overlay_merges_of_zeros :
    AreKeyed Sample.stated.extra ∧ AreKeyed Sample.answered.extra ∧ AreKeyed Sample.answeredLater.extra ∧
    (Sample.stated.overlay Sample.answered).issuer = some "AS" ∧
    (Sample.stated.overlay Sample.answered).scope = some (.text "r_co2") ∧
    (Sample.stated.overlay Sample.answered).extra = [(.float 0, .uint 4), (.text "use", .uint 2), (.text "sub", .uint 3)] ∧
    valueAt? (Sample.stated.overlay Sample.answered).extra (.float 0x8000000000000000) = some (.uint 4) ∧
    (Sample.stated.overlay Sample.answered).overlay Sample.answered = Sample.stated.overlay Sample.answered ∧
    (Sample.stated.overlay Sample.answered).overlay Sample.answeredLater =
      Sample.stated.overlay (Sample.answered.overlay Sample.answeredLater) := by
  have first : AreKeyed Sample.stated.extra := ⟨by decide +kernel, by decide +kernel⟩
  have second : AreKeyed Sample.answered.extra := ⟨by decide +kernel, by decide +kernel⟩
  have third : AreKeyed Sample.answeredLater.extra := ⟨by decide +kernel, by decide +kernel⟩
  obtain ⟨known, _, newer, _, entries, _, again, layers⟩ := overlay_merges first second third
  refine ⟨first, second, third, known .iss, known .scope, ?_, ?_, again, layers⟩
  · rw [entries]
    decide +kernel
  · exact newer (.float 0x8000000000000000, .uint 4) (by decide +kernel)

end Claims

end TokenGate
