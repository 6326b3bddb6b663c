import TokenGate.Proofs.Cose.Headers

/-!
# Tags that stand for integers

Where a COSE structure has a meaning for this server, no tag on a short byte string is accepted. A tag that stands for an integer
can therefore only be in the values that are kept without looking at them: those of other parameters of keys, and of other
parameters of headers, also of the headers of counter signatures. Headers that are kept as bytes do not matter here.
-/

namespace TokenGate

open Cbor

namespace Cose

/-! ## Readers -/

/-- Whatever a reader accepts has no tag that stands for an integer, unless there is one in what the reader keeps. -/
def IsPlainReader {α : Type} (read : Value → Option α) (keepsPlain : α → Bool) : Prop :=
  ∀ v a, read v = some a → keepsPlain a = true → v.isPlain = true

theorem isPlainReader_toUInt64? : IsPlainReader Value.toUInt64? fun _ => true := by
  intro v n read _
  cases v with
  | uint _ => rfl
  | _ => nomatch read

/-- A label is an integer or a text. -/
theorem Label.isPlain_of_ofValue? {v : Value} {label : Label} (h : ofValue? v = some label) : v.isPlain = true := by
  cases v with
  | uint _ | nint _ | text _ => rfl
  | _ => nomatch h

/-- A registered label is read from a plain value only. -/
theorem isPlainReader_registered (registered : Int → Bool) : IsPlainReader (Label.ofRegistered? registered) fun _ => true :=
  fun _ _ read _ => Label.isPlain_of_ofValue? (Label.ofValue?_of_ofRegistered? read)

/-- An array is plain if all of its items are read, each by a reader that accepts plain values only. -/
theorem isPlain_of_mapM {α : Type} {read : Value → Option α} {keepsPlain : α → Bool} (h : IsPlainReader read keepsPlain)
    {items : List Value} {as : List α} (got : items.mapM read = some as) (plain : ∀ a ∈ as, keepsPlain a = true) :
    (Value.array items).isPlain = true := by
  rw [Value.isPlain, Value.arePlainItems_eq, List.all_eq_true]
  intro v among
  obtain ⟨a, among', own⟩ := exists_mem_of_mapM got among
  exact h v a own (plain a among')

theorem isPlainReader_labels (registered : Int → Bool) :
    IsPlainReader (HeaderOf.labels? (Label.ofRegistered? registered)) fun _ => true := by
  intro v labels got _
  unfold HeaderOf.labels? at got
  split at got
  · exact isPlain_of_mapM (isPlainReader_registered registered) got fun _ _ => rfl
  · nomatch got

/-- An optional field is plain if it is there. -/
theorem IsPlainReader.optional {α : Type} {read : Value → Option α} {keepsPlain : α → Bool} (h : IsPlainReader read keepsPlain)
    {field : Option Value} {content : Option α} (got : optional? read field = some content)
    (plain : ∀ a, content = some a → keepsPlain a = true) {v : Value} (present : field = some v) : v.isPlain = true := by
  subst present
  obtain ⟨a, own, rfl⟩ := Option.map_eq_some_iff.mp got
  exact h v a own (plain a rfl)

/-- A field of bytes is plain if it is there. -/
theorem isPlain_of_optionalBytes? {field : Option Value} {bs : Bytes} (got : optionalBytes? field = some bs) {v : Value}
    (present : field = some v) : v.isPlain = true := by
  subst present
  cases v with
  | bytes _ => rfl
  | _ => nomatch got

/-! ## Maps -/

/-- Whether no tag in the values of parameters stands for an integer. -/
def arePlainParameters (params : List (Label × Value)) : Bool := params.all (·.2.isPlain)

/-- A map is plain if its known fields and the parameters that are kept are. -/
theorem isPlain_of_fields? {v : Value} {fields : List (Label × Value)} (h : fields? v = some fields) {known : List Int64}
    (each : ∀ n ∈ known, ∀ w, field? fields n = some w → w.isPlain = true)
    (rest : arePlainParameters (fieldsExcept known fields) = true) : v.isPlain = true := by
  obtain ⟨entries, rfl, are⟩ := areFieldsOf_of_fields? h
  rw [Value.isPlain, Value.arePlainEntries_eq, List.all_eq_true]
  intro e among
  obtain ⟨label, among', own⟩ := are.field e among
  rw [Bool.and_eq_true, and_iff_right (Label.isPlain_of_ofValue? own)]
  by_cases isKnown : ∃ n ∈ known, label = .int n
  · obtain ⟨n, listed, rfl⟩ := isKnown
    exact each n listed e.2 (field?_of_mem are.nodup among')
  · refine List.all_eq_true.mp rest (label, e.2) (mem_fieldsExcept.mpr ⟨among', fun n listed same => ?_⟩)
    exact isKnown ⟨n, listed, same⟩

/-! ## Headers -/

namespace CounterSignature

mutual

/-- Whether no tag in the parameters that are kept for a counter signature stands for an integer. -/
def keepsPlain : CounterSignature → Bool
  | .mk _ _ unprotected _ => headerKeepsPlain unprotected

/-- Whether no tag in the parameters that are kept for a header, or for a counter signature in it, stands for an integer. -/
def headerKeepsPlain : HeaderOf CounterSignature → Bool
  | ⟨_, _, _, _, _, _, signatures, rest⟩ => allKeepPlain signatures && arePlainParameters rest

/-- Whether no tag in the parameters that are kept for counter signatures stands for an integer. -/
def allKeepPlain : List CounterSignature → Bool
  | [] => true
  | s :: signatures => keepsPlain s && allKeepPlain signatures

end

/-- Counter signatures keep plain what each of them keeps plain. -/
theorem allKeepPlain_eq (signatures : List CounterSignature) : allKeepPlain signatures = signatures.all keepsPlain := by
  induction signatures with
  | nil => rfl
  | cons s signatures ih => rw [allKeepPlain, ih, List.all_cons]

end CounterSignature

namespace HeaderOf

theorem isPlainReader_contentType : IsPlainReader contentType? fun _ => true :=
  fun v label read _ => isPlainReader_registered Registry.isContentFormat v label (ofRegistered?_of_contentType? read) rfl

variable {σ : Type} {read : Value → Option σ} {keepsPlain : σ → Bool} (h : IsPlainReader read keepsPlain)
include h

/-- Counter signatures were read from a plain value if what is kept of each is plain. -/
theorem isPlainReader_counterSignatures : IsPlainReader (counterSignatures? read) fun signatures => signatures.all keepsPlain := by
  intro v signatures got plain
  rw [List.all_eq_true] at plain
  unfold counterSignatures? at got
  split at got
  · obtain ⟨s, own, rfl⟩ := Option.map_eq_some_iff.mp got
    exact h _ s own (plain s List.mem_cons_self)
  · exact isPlain_of_mapM h got plain
  · nomatch got

/-- A header is plain if the counter signatures and the parameters that are kept are. -/
theorem isPlainReader_ofValue? :
    IsPlainReader (ofValue? read) fun header => header.counterSignatures.all keepsPlain && arePlainParameters header.rest := by
  intro v header got plain
  simp only [ofValue?, Option.bind_eq_bind, Option.bind_eq_some_iff] at got
  obtain ⟨fields, fieldsRead, alg, gotAlg, crit, gotCrit, contentType, gotType, kid, gotKid, iv, gotIv, partialIv, gotPartial,
    signatures, gotSignatures, same⟩ := got
  split at same
  · cases same
  · cases same
    rw [Bool.and_eq_true] at plain
    refine isPlain_of_fields? fieldsRead (fun n listed w => ?_) plain.2
    simp only [List.mem_cons, List.not_mem_nil, or_false] at listed
    rcases listed with rfl | rfl | rfl | rfl | rfl | rfl | rfl
    · exact (isPlainReader_registered _).optional gotAlg fun _ _ => rfl
    · exact (isPlainReader_labels _).optional gotCrit fun _ _ => rfl
    · exact isPlainReader_contentType.optional gotType fun _ _ => rfl
    · exact isPlain_of_optionalBytes? gotKid
    · exact isPlain_of_optionalBytes? gotIv
    · exact isPlain_of_optionalBytes? gotPartial
    · refine (isPlainReader_counterSignatures h).optional gotSignatures fun all same => ?_
      subst same
      exact plain.1

end HeaderOf

/-- A counter signature is plain if the parameters that are kept for it are. -/
theorem CounterSignature.isPlainReader_ofValue? (n : Nat) : IsPlainReader (ofValue? n) keepsPlain := by
  induction n with
  | zero =>
    intro v s got _
    cases got
  | succ n ih =>
    intro v s got plain
    unfold ofValue? at got
    split at got
    · rename_i _ protectedBytes unprotected signature fuel
      cases fuel
      simp only [Option.bind_eq_bind, Option.bind_eq_some_iff] at got
      obtain ⟨protectedHeader, _, header, gotUnprotected, same⟩ := got
      cases same
      rw [keepsPlain, headerKeepsPlain, allKeepPlain_eq] at plain
      have inner := HeaderOf.isPlainReader_ofValue? ih unprotected header gotUnprotected plain
      simp only [Value.isPlain, Value.arePlainItems, inner, Bool.and_self]
    · cases got

/-- A header was read from a plain value if what is kept of it is plain. -/
theorem Header.isPlainReader_ofValue? : IsPlainReader Header.ofValue? CounterSignature.headerKeepsPlain := by
  intro v header got plain
  rw [CounterSignature.headerKeepsPlain, CounterSignature.allKeepPlain_eq] at plain
  exact HeaderOf.isPlainReader_ofValue? (CounterSignature.isPlainReader_ofValue? _) v header got plain

/-- An encrypted object is plain if the parameters that are kept for its unprotected header are. -/
theorem Encrypt0.isPlainReader_ofValue? :
    IsPlainReader ofValue? fun e => CounterSignature.headerKeepsPlain e.unprotected := by
  intro v e got plain
  unfold ofValue? at got
  split at got
  · rename_i protectedBytes unprotected ciphertext
    simp only [Option.bind_eq_bind, Option.bind_eq_some_iff] at got
    obtain ⟨protectedHeader, _, header, gotUnprotected, content, gotContent, same⟩ := got
    cases same
    have inner := Header.isPlainReader_ofValue? unprotected header gotUnprotected plain
    have member : ciphertext.isPlain = true := by
      cases ciphertext with
      | bytes _ | null => rfl
      | _ => cases gotContent
    simp only [Value.isPlain, Value.arePlainItems, inner, member, Bool.and_self]
  · cases got

/-! ## Keys -/

theorem Key.isPlainReader_operations : IsPlainReader operations? fun _ => true := by
  intro v operations got _
  obtain ⟨labels, read, _⟩ := Option.bind_eq_some_iff.mp got
  exact isPlainReader_labels _ v labels read rfl

/-- A key is plain if the parameters that are kept for it are. -/
theorem Key.isPlainReader_ofValue? : IsPlainReader ofValue? fun key => arePlainParameters key.params := by
  intro v key got plain
  simp only [ofValue?, Option.bind_eq_bind, Option.bind_eq_some_iff] at got
  obtain ⟨fields, read, kty, ⟨ktyValue, hasKty, gotKty⟩, kid, gotKid, alg, gotAlg, operations, gotOperations, baseIv, gotIv,
    same⟩ := got
  cases same
  refine isPlain_of_fields? read (fun n listed w present => ?_) plain
  simp only [List.mem_cons, List.not_mem_nil, or_false] at listed
  rcases listed with rfl | rfl | rfl | rfl | rfl
  · rw [hasKty, Option.some.injEq] at present
    subst present
    exact isPlainReader_registered _ _ kty gotKty rfl
  · exact isPlain_of_optionalBytes? gotKid present
  · exact (isPlainReader_registered _).optional gotAlg (fun _ _ => rfl) present
  · exact isPlainReader_operations.optional gotOperations (fun _ _ => rfl) present
  · exact isPlain_of_optionalBytes? gotIv present

end Cose

end TokenGate
