import Mathlib.Logic.Function.Iterate
import TokenGate.Proofs.Claims.Ordering

/-!
# What claims are read from

Claims are read from a map in which every label that the server acts on comes once at most, and with a value of its type. What the
claims then hold is what the map held there, and all other entries are kept.
-/

namespace TokenGate

open Cbor

/-! ## Confirmations -/

namespace Confirmation

variable {v w : Value} {cnf : Confirmation} {method : Method}

/-- A value is the content of a confirmation. Only an encrypted key may come with its tag. -/
def IsContent (v : Value) : Confirmation → Prop
  | .key k => Cose.Key.ofValue? v = some k
  | .encryptedKey envelope =>
    Cose.Encrypt0.ofValue? v = some envelope ∨ ∃ content, v = .tag 16 content ∧ Cose.Encrypt0.ofValue? content = some envelope
  | .kid bs => v = .bytes bs
  | .oscore material => Oscore.Material.ofValue? v = some material

/-- An envelope is read from a value with or without the tag. -/
theorem untagged_eq_some_iff {envelope : Cose.Encrypt0} :
    Cose.Encrypt0.ofValue? (untagEncrypt0 v) = some envelope ↔ Cose.Encrypt0.ofValue? v = some envelope ∨
      ∃ content, v = .tag 16 content ∧ Cose.Encrypt0.ofValue? content = some envelope := by
  unfold untagEncrypt0
  split
  · rename_i content
    refine ⟨fun read => Or.inr ⟨content, rfl, read⟩, ?_⟩
    rintro (read | ⟨_, same, read⟩)
    · nomatch read
    · cases same
      exact read
  · rename_i untagged
    refine ⟨Or.inl, ?_⟩
    rintro (read | ⟨content, rfl, _⟩)
    · exact read
    · exact absurd rfl (untagged content)

/-- A confirmation is read with its own method, from a value that is its content. -/
theorem ofMethod_eq_ok_iff : ofMethod method v = .ok cnf ↔ cnf.method = method ∧ IsContent v cnf := by
  cases method with
  | coseKey => cases cnf <;> simp [ofMethod, orMalformed_eq_ok_iff, Confirmation.method, IsContent]
  | encryptedCoseKey =>
    cases cnf <;> simp [ofMethod, orMalformed_eq_ok_iff, Confirmation.method, IsContent, untagged_eq_some_iff]
  | kid => cases v <;> cases cnf <;> simp [ofMethod, Confirmation.method, IsContent]
  | oscoreInputMaterial => cases cnf <;> simp [ofMethod, orMalformed_eq_ok_iff, Confirmation.method, IsContent]

/-- A method is found by its own label. -/
theorem Method.label_of_ofLabel? {n : UInt64} (h : Method.ofLabel? n = some method) : method.label = n := by
  simpa using List.find?_some h

/-- A confirmation is a map with one entry, whose label is that of a method and whose value is its content. -/
theorem ofValue_eq_ok_iff : ofValue v = .ok cnf ↔ ∃ w, v = .map [(.uint cnf.method.label, w)] ∧ IsContent w cnf := by
  constructor
  · intro read
    unfold ofValue at read
    split at read
    · rename_i k w
      cases known : orMalformed (k.toUInt64?.bind Method.ofLabel?) with
      | error rejection =>
        rw [known] at read
        nomatch read
      | ok method =>
        rw [known] at read
        obtain ⟨n, number, labelled⟩ := Option.bind_eq_some_iff.mp (orMalformed_eq_ok_iff.mp known)
        obtain ⟨rfl, held⟩ := ofMethod_eq_ok_iff.mp read
        rw [Value.toUInt64?_eq_some_iff.mp number, ← Method.label_of_ofLabel? labelled]
        exact ⟨w, rfl, held⟩
    · nomatch read
  · rintro ⟨w, rfl, held⟩
    rw [ofValue_map]
    exact ofMethod_eq_ok_iff.mpr ⟨rfl, held⟩

end Confirmation

/-! ## Contents -/

namespace ClaimKey

variable {v : Value} {k : ClaimKey}

/-- A value is a number, under any number of tags for points in time. -/
def IsNumber (v : Value) (n : UInt64) : Prop := ∃ tags : Nat, v = (Value.tag 1)^[tags] (.uint n)

/-- A number under any other tag is none. -/
theorem number?_tag {number : UInt64} (other : number ≠ 1) (v : Value) : number? (.tag number v) = none := by
  rw [number?]
  · nofun
  · intro w same
    exact other (Value.tag.inj same).1

/-- A number with one more tag for a point in time is the same number. -/
theorem IsNumber.tag {n : UInt64} (h : IsNumber v n) : IsNumber (.tag 1 v) n := by
  obtain ⟨tags, rfl⟩ := h
  exact ⟨tags + 1, (Function.iterate_succ_apply' _ tags _).symm⟩

theorem isNumber_of_number? {n : UInt64} : ∀ {v : Value}, number? v = some n → IsNumber v n
  | .uint _, read => ⟨0, congrArg Value.uint (Option.some.inj read)⟩
  | .tag number v, read => by
    by_cases time : number = 1
    · subst time
      exact (isNumber_of_number? (v := v) read).tag
    · rw [number?_tag time] at read
      nomatch read

/-- What is read as a number is a number under such tags. -/
theorem number?_eq_some_iff {n : UInt64} : number? v = some n ↔ IsNumber v n := by
  refine ⟨isNumber_of_number?, ?_⟩
  rintro ⟨tags, rfl⟩
  induction tags with
  | zero => rfl
  | succ tags ih =>
    rw [Function.iterate_succ_apply', number?]
    exact ih

theorem text?_eq_some_iff {s : String} : text? v = some s ↔ v = .text s := by
  cases v <;> simp [text?]

theorem bytes?_eq_some_iff {bs : Bytes} : bytes? v = some bs ↔ v = .bytes bs := by
  cases v <;> simp [bytes?]

theorem scopeClaim?_eq_some_iff {scope : ScopeClaim} : scopeClaim? v = some scope ↔ v = scope.toValue := by
  cases v <;> cases scope <;> simp [scopeClaim?, ScopeClaim.toValue]

theorem audience?_eq_some_iff {audience : Audience} : audience? v = some audience ↔ v = audience.toValue := by
  constructor
  · intro read
    cases v with
    | text s =>
      cases read
      rfl
    | array vs =>
      obtain ⟨names, each, rfl⟩ := Option.map_eq_some_iff.mp read
      exact congrArg Value.array (map_of_mapM each fun _ _ text => (text?_eq_some_iff.mp text).symm).symm
    | _ => nomatch read
  · rintro rfl
    cases audience with
    | single name => rfl
    | multiple names =>
      have each : (names.map Value.text).mapM text? = some names := mapM_map_eq_some fun _ _ => rfl
      exact congrArg (Option.map Audience.multiple) each

/-- A value is of the type of a claim, and holds some content. -/
def Holds : (k : ClaimKey) → Value → k.Content → Prop
  | iss, v, s => v = .text s
  | sub, v, s => v = .text s
  | aud, v, audience => v = Audience.toValue audience
  | exp, v, n => IsNumber v n
  | nbf, v, n => IsNumber v n
  | iat, v, n => IsNumber v n
  | cti, v, bs => v = .bytes bs
  | cnf, v, c => ∃ w, v = .map [(.uint (Confirmation.method c).label, w)] ∧ Confirmation.IsContent w c
  | scope, v, s => v = ScopeClaim.toValue s
  | aceProfile, v, n => IsNumber v n
  | cnonce, v, bs => v = .bytes bs
  | exi, v, n => IsNumber v n

theorem checked_eq_ok_iff {α : Type} {content : Option α} {rejection : Rejection} {a : α} :
    (match content with | some a => Except.ok a | none => .error rejection) = .ok a ↔ content = some a := by
  cases content <;> simp

/-- A claim is read from the values that are of its type. -/
theorem ofValue_eq_ok_iff {content : k.Content} : k.ofValue v = .ok content ↔ k.Holds v content := by
  cases k with
  | iss | sub => exact checked_eq_ok_iff.trans text?_eq_some_iff
  | aud => exact checked_eq_ok_iff.trans audience?_eq_some_iff
  | exp | nbf | iat | aceProfile | exi => exact checked_eq_ok_iff.trans number?_eq_some_iff
  | cti | cnonce => exact checked_eq_ok_iff.trans bytes?_eq_some_iff
  | scope => exact checked_eq_ok_iff.trans scopeClaim?_eq_some_iff
  | cnf => exact Confirmation.ofValue_eq_ok_iff

end ClaimKey

/-! ## Claims -/

namespace Claims

variable {entries : List (Value × Value)} {c : Claims} {k : ClaimKey} {v : Value}

/-- Only the label of a claim is the key of that claim. -/
theorem keyOf?_eq_some_iff {key : Value} : keyOf? key = some k ↔ key = .uint k.label := by
  constructor
  · intro known
    obtain ⟨n, number, labelled⟩ := Option.bind_eq_some_iff.mp known
    have label : k.label = n := by simpa using List.find?_some labelled
    rw [Value.toUInt64?_eq_some_iff.mp number, label]
  · rintro rfl
    exact keyOf?_label k

/-- The values of a claim are those under its label. -/
theorem valuesOf_eq (entries : List (Value × Value)) (k : ClaimKey) :
    valuesOf entries k = (entries.filter fun e => e.1 = .uint k.label).map (·.2) := by
  simp only [valuesOf, keyOf?_eq_some_iff]

theorem mem_valuesOf : v ∈ valuesOf entries k ↔ (.uint k.label, v) ∈ entries := by
  rw [valuesOf_eq, mem_map_filter_fst]

/-- A claim has as many values as its label comes up. -/
theorem length_valuesOf (entries : List (Value × Value)) (k : ClaimKey) :
    (valuesOf entries k).length = (entries.map (·.1)).count (.uint k.label) := by
  rw [valuesOf_eq, length_map_filter_fst]

/-- Entries in which every label that the server acts on comes once at most, and with a value of its type. -/
structure AreStrict (entries : List (Value × Value)) : Prop where
  once : ∀ k : ClaimKey, (entries.map (·.1)).count (.uint k.label) ≤ 1
  typed : ∀ (k : ClaimKey) (v : Value), (.uint k.label, v) ∈ entries → ∃ content, k.Holds v content

/-- What is kept of entries as it came: those under no label that the server acts on. -/
theorem uninterpreted_eq (entries : List (Value × Value)) :
    uninterpreted entries = entries.filter fun e => ∀ k ∈ ClaimKey.all, e.1 ≠ .uint k.label := by
  refine List.filter_congr fun e _ => ?_
  rw [decide_eq_decide, Option.eq_none_iff_forall_ne_some]
  exact forall_congr' fun k => by simp [keyOf?_eq_some_iff, ClaimKey.mem_all]

/-- Claims are read from a map just if its entries are strict. -/
theorem exists_ofValue_iff : (∃ c, ofValue (.map entries) = .ok c) ↔ AreStrict entries := by
  constructor
  · rintro ⟨c, read⟩
    have completes := foldlM_enter_eq_ok_iff.mp read
    refine ⟨fun k => ?_, fun k v among => ?_⟩
    · rw [← length_valuesOf]
      rcases completes.known k with ⟨none, _⟩ | ⟨_, _, one, _⟩
      · rw [none]
        exact Nat.zero_le 1
      · rw [one]
        exact Nat.le_refl 1
    · have listed := mem_valuesOf.mpr among
      rcases completes.known k with ⟨none, _⟩ | ⟨w, content, one, _, own, _⟩
      · rw [none] at listed
        exact absurd listed List.not_mem_nil
      · rw [one, List.mem_singleton] at listed
        exact ⟨content, ClaimKey.ofValue_eq_ok_iff.mp (listed ▸ own)⟩
  · intro h
    let c : Claims := {
      known := fun k => (valuesOf entries k).head?.bind fun v => (k.ofValue v).toOption
      extra := uninterpreted entries }
    refine ⟨c, foldlM_enter_eq_ok_iff.mpr ⟨fun k => ?_, rfl⟩⟩
    have once := h.once k
    rw [← length_valuesOf] at once
    cases values : valuesOf entries k with
    | nil => exact Or.inl ⟨rfl, by simp [c, values]⟩
    | cons v rest =>
      rw [values] at once
      have alone : rest = [] := List.eq_nil_of_length_eq_zero (Nat.le_zero.mp (Nat.le_of_succ_le_succ once))
      obtain ⟨content, held⟩ := h.typed k v (mem_valuesOf.mp (by rw [values]; exact List.mem_cons_self))
      have own := ClaimKey.ofValue_eq_ok_iff.mpr held
      exact Or.inr ⟨v, content, by rw [alone], rfl, own, by simp [c, values, own, Except.toOption]⟩

/-- Claims hold what the map held under their labels. -/
theorem known_eq_some_iff (read : ofValue (.map entries) = .ok c) {content : k.Content} :
    c.known k = some content ↔ ∃ v, (.uint k.label, v) ∈ entries ∧ k.Holds v content := by
  simp only [← mem_valuesOf, ← ClaimKey.ofValue_eq_ok_iff]
  rcases (foldlM_enter_eq_ok_iff.mp read).known k with ⟨none, absent⟩ | ⟨v, content', one, _, own, found⟩
  · rw [none, absent]
    simp
  · rw [one, found]
    constructor
    · rintro ⟨⟩
      exact ⟨v, List.mem_singleton_self v, own⟩
    · rintro ⟨w, among, own'⟩
      rw [List.mem_singleton.mp among, own] at own'
      exact congrArg some (Except.ok.inj own')

/-- The entries that are kept apart are those under no label of a claim. -/
theorem extra_of_ofValue (read : ofValue (.map entries) = .ok c) :
    c.extra = entries.filter fun e => ∀ k ∈ ClaimKey.all, e.1 ≠ .uint k.label := by
  rw [← uninterpreted_eq]
  exact (foldlM_enter_eq_ok_iff.mp read).extra

end Claims

end TokenGate
