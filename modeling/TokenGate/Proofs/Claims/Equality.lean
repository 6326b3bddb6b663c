import TokenGate.Claims.Basic

/-!
# Claims that equal themselves

Claims are compared as numbers are, so that there may be claims which do not equal themselves: those with a NaN in them, be it in
an entry that the server does not act on, in a parameter of a key, or in a header of an encrypted one. There are no others.
-/

namespace TokenGate

namespace Cbor.Value

/-- A number equals itself unless it is a NaN. -/
theorem floatEq_self (bits : UInt64) : floatEq bits bits = !floatIsNaN bits := by
  simp [floatEq]

mutual

/-- Whether no number in a value is a NaN. -/
def hasNoNaN : Value → Bool
  | .float bits => !floatIsNaN bits
  | .tag _ content => hasNoNaN content
  | .array items => itemsHaveNoNaN items
  | .map entries => entriesHaveNoNaN entries
  | _ => true

/-- Whether no number in the items of an array is a NaN. -/
def itemsHaveNoNaN : List Value → Bool
  | [] => true
  | v :: items => hasNoNaN v && itemsHaveNoNaN items

/-- Whether no number in the entries of a map is a NaN. -/
def entriesHaveNoNaN : List (Value × Value) → Bool
  | [] => true
  | (k, v) :: entries => hasNoNaN k && hasNoNaN v && entriesHaveNoNaN entries

end

mutual

/-- A value equals itself exactly if there is no NaN in it. -/
theorem eq_self : ∀ v : Value, v.eq v = v.hasNoNaN
  | .uint _ | .nint _ | .bytes _ | .text _ | .bool _ => by simp [eq, hasNoNaN]
  | .float bits => floatEq_self bits
  | .null => rfl
  | .tag _ content => by simp [eq, hasNoNaN, eq_self content]
  | .array items => eqItems_self items
  | .map entries => eqEntries_self entries

theorem eqItems_self : ∀ items : List Value, eqItems items items = itemsHaveNoNaN items
  | [] => rfl
  | v :: items => by simp [eqItems, itemsHaveNoNaN, eq_self v, eqItems_self items]

theorem eqEntries_self : ∀ entries : List (Value × Value), eqEntries entries entries = entriesHaveNoNaN entries
  | [] => rfl
  | (k, v) :: entries => by simp [eqEntries, entriesHaveNoNaN, eq_self k, eq_self v, eqEntries_self entries]

end

end Cbor.Value

namespace Cose

namespace CounterSignature

/-- Whether no number in the values of parameters is a NaN. -/
def parametersHaveNoNaN (parameters : List (Label × Cbor.Value)) : Bool := parameters.all (·.2.hasNoNaN)

/-- Parameters equal themselves exactly if there is no NaN in them. -/
theorem eqParameters_self (parameters : List (Label × Cbor.Value)) :
    eqParameters parameters parameters = parametersHaveNoNaN parameters := by
  induction parameters with
  | nil => rfl
  | cons parameter parameters ih => simp [eqParameters, parametersHaveNoNaN, Cbor.Value.eq_self, ih]

mutual

/-- Whether no number in the headers of a counter signature is a NaN. -/
def hasNoNaN : CounterSignature → Bool
  | .mk _ protectedHeader unprotected _ => headerHasNoNaN protectedHeader && headerHasNoNaN unprotected

/-- Whether no number in a header is a NaN. -/
def headerHasNoNaN : HeaderOf CounterSignature → Bool
  | ⟨_, _, _, _, _, _, signatures, rest⟩ => allHaveNoNaN signatures && parametersHaveNoNaN rest

/-- Whether no number in the headers of counter signatures is a NaN. -/
def allHaveNoNaN : List CounterSignature → Bool
  | [] => true
  | s :: signatures => hasNoNaN s && allHaveNoNaN signatures

end

mutual

/-- A counter signature equals itself exactly if there is no NaN in its headers. -/
theorem eq_self : ∀ s : CounterSignature, s.eq s = s.hasNoNaN
  | .mk _ protectedHeader unprotected _ => by
    simp [eq, hasNoNaN, eqHeader_self protectedHeader, eqHeader_self unprotected]

/-- A header equals itself exactly if there is no NaN in it. -/
theorem eqHeader_self : ∀ h : HeaderOf CounterSignature, eqHeader h h = headerHasNoNaN h
  | ⟨_, _, _, _, _, _, signatures, rest⟩ => by
    simp [eqHeader, headerHasNoNaN, eqAll_self signatures, eqParameters_self rest]

theorem eqAll_self : ∀ signatures : List CounterSignature, eqAll signatures signatures = allHaveNoNaN signatures
  | [] => rfl
  | s :: signatures => by simp [eqAll, allHaveNoNaN, eq_self s, eqAll_self signatures]

end

end CounterSignature

/-- Whether no number in the headers of an object is a NaN. -/
def Encrypt0.hasNoNaN (e : Encrypt0) : Bool :=
  CounterSignature.headerHasNoNaN e.protectedHeader && CounterSignature.headerHasNoNaN e.unprotected

theorem Encrypt0.eq_self (e : Encrypt0) : e.eq e = e.hasNoNaN := by
  simp [eq, hasNoNaN, Header.eq, CounterSignature.eqHeader_self]

/-- Whether no number in the parameters of a key is a NaN. -/
def Key.hasNoNaN (key : Key) : Bool := CounterSignature.parametersHaveNoNaN key.params

theorem Key.eq_self (key : Key) : key.eq key = key.hasNoNaN := by
  simp [eq, hasNoNaN, CounterSignature.eqParameters_self]

end Cose

/-- Whether no number in a confirmation is a NaN. -/
def Confirmation.hasNoNaN : Confirmation → Bool
  | .key k => k.hasNoNaN
  | .encryptedKey envelope => envelope.hasNoNaN
  | .kid _ | .oscore _ => true

/-- A confirmation equals itself exactly if there is no NaN in it. -/
theorem Confirmation.eq_self (cnf : Confirmation) : cnf.eq cnf = cnf.hasNoNaN := by
  cases cnf with
  | key k => exact k.eq_self
  | encryptedKey envelope => exact envelope.eq_self
  | kid kid => simp [eq, hasNoNaN]
  | oscore material => simp [eq, hasNoNaN]

namespace Claims

/-- Whether no number in a claims set is a NaN. -/
def hasNoNaN (c : Claims) : Bool :=
  c.cnf.all Confirmation.hasNoNaN && Cbor.Value.entriesHaveNoNaN c.extra

/-- A claims set equals itself exactly if there is no NaN in it. -/
theorem eq_self (c : Claims) : c.eq c = c.hasNoNaN := by
  -- Of the claims that the server acts on, only the confirmation may have numbers in it that are no integers.
  have others : ∀ k : ClaimKey, k ≠ .cnf → ∀ content : k.Content, k.eqContent content content = true := by
    intro k other content
    cases k with
    | cnf => exact absurd rfl other
    | _ => simp [ClaimKey.eqContent]
  rw [eq, hasNoNaN, Cbor.Value.eqEntries_self]
  congr 1
  rw [Bool.eq_iff_iff, List.all_eq_true, Option.all_eq_true]
  constructor
  · intro all cnf present
    have own := all .cnf (ClaimKey.mem_all .cnf)
    simp only [show c.known .cnf = some cnf from present] at own
    exact cnf.eq_self.symm.trans own
  · intro own k _
    cases present : c.known k with
    | none => rfl
    | some content =>
      by_cases other : k = .cnf
      · subst other
        exact (Confirmation.eq_self content).trans (own content present)
      · exact others k other content

/-- Claims sets that are equal have the same claims, except that their confirmations may differ in numbers that are equal. -/
theorem known_eq_of_eq {a b : Claims} (h : a.eq b = true) {k : ClaimKey} (other : k ≠ .cnf) : a.known k = b.known k := by
  rw [eq, Bool.and_eq_true, List.all_eq_true] at h
  have same := h.1 k (ClaimKey.mem_all k)
  cases first : a.known k with
  | none =>
    cases second : b.known k with
    | none => rfl
    | some y =>
      rw [first, second] at same
      nomatch same
  | some x =>
    cases second : b.known k with
    | none =>
      rw [first, second] at same
      nomatch same
    | some y =>
      rw [first, second] at same
      cases k with
      | cnf => exact absurd rfl other
      | _ => exact congrArg some (eq_of_beq same)

/-- An identifier is no number. -/
theorem hasNoNaN_set_cti (c : Claims) (bytes : Bytes) : (c.set .cti bytes).hasNoNaN = c.hasNoNaN := by
  have same : (c.set .cti bytes).cnf = c.cnf := @known_set_of_ne c .cti .cnf bytes (by decide)
  rw [hasNoNaN, hasNoNaN, same, extra_set]

end Claims

end TokenGate
