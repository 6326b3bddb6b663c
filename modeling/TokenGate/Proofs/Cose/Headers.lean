import TokenGate.Cose.Encrypt0
import TokenGate.Proofs.Cose.Labels

/-!
# Headers read back

A header that was read can be written and read back, with the counter signatures in it. These are read up to a bound on how deep
they are nested; a value is never nested deeper than it is heavy, so that any bound that is no less than its weight will do.
-/

namespace TokenGate.Cose

open Cbor

/-! ## Headers -/

namespace HeaderOf

/-- A content type is a label that is registered as one. -/
theorem ofRegistered?_of_contentType? {v : Value} {label : Label} (h : contentType? v = some label) :
    Label.ofRegistered? Registry.isContentFormat v = some label := by
  unfold contentType? at h
  split at h
  · rename_i s read
    split at h
    · cases h
      exact read
    · nomatch h
  · exact h

/-- A content type is read back. -/
theorem restores_contentType (depth : Nat) : Restores depth contentType? Label.toValue := by
  intro v label storable got
  have read := ofRegistered?_of_contentType? got
  obtain ⟨again, faithful⟩ := restores_registered _ depth v label storable read
  refine ⟨?_, faithful⟩
  rw [contentType?, read] at got
  rw [contentType?, again]
  exact got

/-- The field of counter signatures: a single one stands for itself. -/
def signaturesField : List Value → Option Value
  | [] => none
  | [v] => some v
  | vs => some (.array vs)

variable {σ : Type}

/-- The parameters of a header with a meaning of their own, `signatures` being the values of its counter signatures. -/
def known (h : HeaderOf σ) (signatures : List Value) : List (Int64 × Option Value) :=
  [(1, h.alg.map Label.toValue), (2, labelsField h.crit), (3, h.contentType.map Label.toValue), (4, bytesField h.kid),
    (5, bytesField h.iv), (6, bytesField h.partialIv), (7, signaturesField signatures)]

/-- A header is written as a record. -/
theorem entries_eq (h : HeaderOf σ) (signatures : List Value) :
    h.entries signatures = (recordOf (h.known signatures) h.rest).map toEntry := by
  have label : ∀ (n : Int64) (m : UInt64) (label : Option Label), (Label.int n).toValue = .uint m →
      entryOf n (label.map Label.toValue) = labelEntry m label := by
    intro n m label same
    cases label with
    | none => rfl
    | some label => simp only [entryOf, labelEntry, same, Option.map_some, Option.toList_some, List.map_cons, List.map_nil]
  have bytes : ∀ (n : Int64) (m : UInt64) (bs : Bytes), (Label.int n).toValue = .uint m →
      entryOf n (bytesField bs) = bytesEntry m bs := by
    intro n m bs same
    cases bs with
    | nil => rfl
    | cons b bs => exact congrArg (fun v => [(v, Value.bytes (b :: bs))]) same
  have crit : entryOf 2 (labelsField h.crit) = if h.crit.isEmpty then [] else [(.uint 2, .array (h.crit.map Label.toValue))] := by
    cases h.crit <;> rfl
  have signatures' : entryOf 7 (signaturesField signatures) = match signatures with
      | [] => []
      | [v] => [(.uint 7, v)]
      | vs => [(.uint 7, .array vs)] := by
    match signatures with
    | [] | [_] | _ :: _ :: _ => rfl
  simp only [entries, known, map_recordOf_cons, label 1 1 _ rfl, label 3 3 _ rfl, bytes 4 4 _ rfl, bytes 5 5 _ rfl,
    bytes 6 6 _ rfl, crit, signatures', List.append_assoc]
  rfl

section

variable {read : Value → Option σ} {write : σ → Value} (each : ∀ depth, Restores depth read write)
  (shape : ∀ v s, read v = some s → ∃ bs rest, write s = .array (.bytes bs :: rest))
include each shape

/-- Counter signatures are read back, whether they were one or several. -/
theorem counterSignatures?_map {depth : Nat} {v : Value} {signatures : List σ} (storable : v.IsStorable depth)
    (got : counterSignatures? read v = some signatures) :
    ∃ w, signaturesField (signatures.map write) = some w ∧ counterSignatures? read w = some signatures ∧ w.IsFaithful depth := by
  have alone : ∀ {v s} {less : Nat}, v.IsStorable less → less ≤ depth → read v = some s →
      ∃ w, signaturesField ([s].map write) = some w ∧ counterSignatures? read w = some [s] ∧ w.IsFaithful depth := by
    intro v s less storable le got
    obtain ⟨again, faithful⟩ := each less v s storable got
    obtain ⟨bs, rest, same⟩ := shape v s got
    refine ⟨write s, rfl, ?_, faithful.mono le⟩
    rw [same] at again ⊢
    rw [counterSignatures?, again, Option.map_some]
  unfold counterSignatures? at got
  split at got
  · obtain ⟨s, own, rfl⟩ := Option.map_eq_some_iff.mp got
    exact alone storable (Nat.le_refl depth) own
  · rename_i vs rest
    cases depth with
    | zero => exact absurd storable.deep (Nat.not_succ_le_zero _)
    | succ depth =>
      have readBack : ∀ s ∈ signatures, read (write s) = some s ∧ (write s).IsFaithful depth := by
        intro s among
        obtain ⟨x, among', own⟩ := exists_of_mem_mapM got among
        exact each depth x s (storable.of_mem among') own
      have whole : (Value.array (signatures.map write)).IsFaithful (depth + 1) := by
        refine .array ?_ fun w among => ?_
        · rw [List.length_map, length_of_mapM got]
          have light := storable.light
          have short := Value.length_le_weightItems (.array vs :: rest)
          rw [Value.weight] at light
          omega
        · obtain ⟨s, listed, rfl⟩ := List.mem_map.mp among
          exact (readBack s listed).2
      have again : (signatures.map write).mapM read = some signatures := mapM_map_eq_some fun s among => (readBack s among).1
      cases signatures with
      | nil => cases length_of_mapM got
      | cons s more =>
        obtain ⟨x, among, own⟩ := exists_of_mem_mapM got List.mem_cons_self
        cases more with
        | nil => exact alone (storable.of_mem among) (Nat.le_succ depth) own
        | cons t more =>
          obtain ⟨bs, rest', same⟩ := shape x s own
          refine ⟨_, rfl, ?_, whole⟩
          rw [List.map_cons, same] at again ⊢
          exact again
  · cases got

/-- The field of counter signatures is read back. -/
theorem restores_signatures {depth : Nat} {field : Option Value} (storable : ∀ v, field = some v → v.IsStorable depth)
    {content : Option (List σ)} (got : optional? (counterSignatures? read) field = some content) :
    optional? (counterSignatures? read) (signaturesField ((content.getD []).map write)) = some content ∧
      ∀ w, signaturesField ((content.getD []).map write) = some w → w.IsFaithful depth := by
  cases field with
  | none =>
    cases got
    exact ⟨rfl, nofun⟩
  | some v =>
    obtain ⟨signatures, own, rfl⟩ := Option.map_eq_some_iff.mp got
    obtain ⟨w, present, again, faithful⟩ := counterSignatures?_map each shape (storable v rfl) own
    rw [Option.getD_some, present]
    refine ⟨congrArg (Option.map some) again, fun w' same => ?_⟩
    cases same
    exact faithful

/-- What was read of a header is read back. -/
theorem restores (depth : Nat) :
    Restores depth (ofValue? read) fun h => .map (h.entries (h.counterSignatures.map write)) := by
  intro v h storable got
  simp only [ofValue?, Option.bind_eq_bind, Option.bind_eq_some_iff] at got
  obtain ⟨fields, fieldsRead, alg, gotAlg, crit, gotCrit, contentType, gotType, kid, gotKid, iv, gotIv, partialIv, gotPartial,
    signatures, gotSignatures, same⟩ := got
  obtain ⟨less, rfl⟩ := exists_depth_of_fields? fieldsRead storable
  have storable := areStorable_of_fields? fieldsRead storable
  have field : ∀ {n v}, field? fields n = some v → v.IsStorable less := fun found => storable.values _ (mem_of_field? found)
  obtain ⟨algAgain, algFaithful⟩ := Restores.optional (restores_registered _ less) (fun _ => field) gotAlg
  obtain ⟨critAgain, critFaithful⟩ := restores_labels (fun storable got => by
    obtain ⟨some, each⟩ := ofRegistered?_of_labels? got
    exact ⟨some, labels?_map some each, isFaithful_labels got storable (fun _ among => among) rfl⟩) (fun _ => field) gotCrit
  obtain ⟨typeAgain, typeFaithful⟩ := Restores.optional (restores_contentType less) (fun _ => field) gotType
  obtain ⟨kidAgain, kidFaithful⟩ := restores_bytes (fun _ => field) gotKid
  obtain ⟨ivAgain, ivFaithful⟩ := restores_bytes (fun _ => field) gotIv
  obtain ⟨partialAgain, partialFaithful⟩ := restores_bytes (fun _ => field) gotPartial
  obtain ⟨signaturesAgain, signaturesFaithful⟩ := restores_signatures each shape (fun _ => field) gotSignatures
  split at same
  · nomatch same
  · rename_i exclusive
    cases same
    have faithful : ∀ n w, (n, some w) ∈ known (⟨alg, crit.getD [], contentType, kid, iv, partialIv, signatures.getD [],
        fieldsExcept [1, 2, 3, 4, 5, 6, 7] fields⟩ : HeaderOf σ) ((signatures.getD []).map write) → w.IsFaithful less := by
      intro n w among
      simp only [known, List.mem_cons, Prod.mk.injEq, List.not_mem_nil, or_false] at among
      rcases among with ⟨_, same⟩ | ⟨_, same⟩ | ⟨_, same⟩ | ⟨_, same⟩ | ⟨_, same⟩ | ⟨_, same⟩ | ⟨_, same⟩
      · exact algFaithful w same.symm
      · exact critFaithful w same.symm
      · exact typeFaithful w same.symm
      · exact kidFaithful w same.symm
      · exact ivFaithful w same.symm
      · exact partialFaithful w same.symm
      · exact signaturesFaithful w same.symm
    obtain ⟨whole, all, again, found, others⟩ := storable.read_recordOf [1, 2, 3, 4, 5, 6, 7] rfl (by decide)
      (by simp [known]) faithful
    simp only [known, List.forall_mem_cons] at found
    simp only [entries_eq]
    refine ⟨?_, whole⟩
    simp only [ofValue?, again, Option.bind_eq_bind, Option.bind_some, found, algAgain, critAgain, typeAgain, kidAgain, ivAgain,
      partialAgain, signaturesAgain, others]
    exact if_neg exclusive

end

section

variable {read more : Value → Option σ} {weight : Nat}
  (further : ∀ v s, v.weight < weight → read v = some s → more v = some s)
include further

/-- Counter signatures are read by any reader that reads each of them. -/
theorem counterSignatures?_mono {v : Value} {signatures : List σ} (light : v.weight < weight)
    (got : counterSignatures? read v = some signatures) : counterSignatures? more v = some signatures := by
  unfold counterSignatures? at got ⊢
  split at got
  · obtain ⟨s, own, rfl⟩ := Option.map_eq_some_iff.mp got
    exact Option.map_eq_some_iff.mpr ⟨s, further _ s light own, rfl⟩
  · refine mapM_mono got fun w among s own => further w s ?_ own
    have := Value.weight_le_of_mem among
    rw [Value.weight] at light
    omega
  · cases got

/-- A header is read by any reader of counter signatures that reads each one in it. -/
theorem ofValue?_mono {v : Value} {h : HeaderOf σ} (light : v.weight ≤ weight) (got : ofValue? read v = some h) :
    ofValue? more v = some h := by
  simp only [ofValue?, Option.bind_eq_bind, Option.bind_eq_some_iff] at got
  obtain ⟨fields, fieldsRead, alg, gotAlg, crit, gotCrit, contentType, gotType, kid, gotKid, iv, gotIv, partialIv, gotPartial,
    signatures, gotSignatures, same⟩ := got
  have again : optional? (counterSignatures? more) (field? fields 7) = some signatures := by
    cases found : field? fields 7 with
    | none =>
      rw [found] at gotSignatures
      exact gotSignatures
    | some w =>
      rw [found] at gotSignatures
      obtain ⟨each, own, rfl⟩ := Option.map_eq_some_iff.mp gotSignatures
      have lighter : w.weight < v.weight := weight_lt_of_fields? fieldsRead (mem_of_field? found)
      exact Option.map_eq_some_iff.mpr ⟨each, counterSignatures?_mono further (by omega) own, rfl⟩
  simp only [ofValue?, Option.bind_eq_bind, fieldsRead, gotAlg, gotCrit, gotType, gotKid, gotIv, gotPartial, again,
    Option.bind_some]
  exact same

/-- A protected header is read by any reader of counter signatures that reads each one in it. -/
theorem ofProtected?_mono {bs : Bytes} {h : HeaderOf σ} (light : bs.length ≤ weight) (got : ofProtected? read bs = some h) :
    ofProtected? more bs = some h := by
  unfold ofProtected? at got
  split at got
  · rename_i empty
    rw [ofProtected?, if_pos empty]
    exact got
  · rename_i present
    obtain ⟨v, decoded, own⟩ := Option.bind_eq_some_iff.mp got
    rw [ofProtected?, if_neg present, decoded]
    exact ofValue?_mono further (Nat.le_trans (weight_of_decodeExact? decoded) light) own

end

end HeaderOf

/-! ## Counter signatures -/

namespace CounterSignature

/-- Counter signatures are written one after the other. -/
theorem values_eq (signatures : List CounterSignature) : values signatures = signatures.map toValue := by
  induction signatures with
  | nil => rfl
  | cons s rest ih => rw [values, ih, List.map_cons]

theorem entriesOf_eq (h : Header) : entriesOf h = h.entries (h.counterSignatures.map toValue) := by
  rw [← values_eq, entriesOf]

/-- A counter signature is written as an array that begins with a byte string. -/
theorem exists_toValue_eq (s : CounterSignature) : ∃ bs rest, toValue s = .array (.bytes bs :: rest) := by
  cases s
  exact ⟨_, _, by rw [toValue]⟩

/-- What was read of a counter signature is read back, up to the same bound. -/
theorem restores (n depth : Nat) : Restores depth (ofValue? n) toValue := by
  induction n generalizing depth with
  | zero =>
    intro v s _ got
    nomatch got
  | succ n ih =>
    intro v s storable got
    unfold ofValue? at got
    split at got
    · rename_i _ protectedBytes unprotected signature fuel
      cases fuel
      simp only [Option.bind_eq_bind, Option.bind_eq_some_iff] at got
      obtain ⟨protectedHeader, gotProtected, header, gotUnprotected, same⟩ := got
      cases same
      cases depth with
      | zero => nomatch storable.deep
      | succ depth =>
        obtain ⟨again, faithful⟩ := HeaderOf.restores ih (fun _ s _ => exists_toValue_eq s) depth _ _
          (storable.of_mem (by simp)) gotUnprotected
        have faithfulBytes : ∀ bs, .bytes bs ∈ [Value.bytes protectedBytes, unprotected, .bytes signature] →
            (Value.bytes bs).IsFaithful depth := fun bs among => (storable.of_mem among).isFaithful
        rw [toValue, entriesOf_eq]
        refine ⟨?_, .array (by simp) ?_⟩
        · simp only [ofValue?, gotProtected, again, Option.bind_eq_bind, Option.bind_some]
        · simp only [List.forall_mem_cons]
          exact ⟨faithfulBytes _ (by simp), faithful, faithfulBytes _ (by simp), nofun⟩
    · nomatch got

/-- A counter signature is read up to any bound that is no less than its weight. -/
theorem ofValue?_of_weight_le {n m : Nat} {v : Value} {s : CounterSignature} (light : v.weight ≤ m)
    (got : ofValue? n v = some s) : ofValue? m v = some s := by
  induction n generalizing m v s with
  | zero => cases got
  | succ n ih =>
    unfold ofValue? at got
    split at got
    · rename_i _ protectedBytes unprotected signature fuel
      cases fuel
      simp only [Option.bind_eq_bind, Option.bind_eq_some_iff] at got
      obtain ⟨protectedHeader, gotProtected, header, gotUnprotected, same⟩ := got
      simp only [Value.weight, Value.weightItems] at light
      cases m with
      | zero => omega
      | succ m =>
        have further : ∀ v s, v.weight < m → ofValue? n v = some s → ofValue? m v = some s :=
          fun v s lighter => ih (Nat.le_of_lt lighter)
        have again := HeaderOf.ofProtected?_mono further (by omega) gotProtected
        have again' := HeaderOf.ofValue?_mono further (by omega) gotUnprotected
        simp only [ofValue?, again, again', Option.bind_eq_bind, Option.bind_some]
        exact same
    · cases got

end CounterSignature

/-! ## Whole headers -/

/-- What was read of a header is read back. -/
theorem Header.restores (depth : Nat) : Restores depth Header.ofValue? Header.toValue := by
  intro v h storable got
  obtain ⟨again, faithful⟩ := HeaderOf.restores (CounterSignature.restores (Header.nesting v))
    (fun _ s _ => CounterSignature.exists_toValue_eq s) depth v h storable got
  simp only [← CounterSignature.entriesOf_eq] at again faithful
  exact ⟨HeaderOf.ofValue?_mono (fun w s lighter => CounterSignature.ofValue?_of_weight_le (Nat.le_of_lt lighter))
    faithful.weight_le again, faithful⟩

/-- An encrypted object is written with the ciphertext member that it was read from. -/
theorem Encrypt0.toValue_of_ciphertext? {e : Encrypt0} {member : Value} (h : ciphertext? member = some e.ciphertext) :
    e.toValue = .array [.bytes e.protectedBytes, e.unprotected.toValue, member] := by
  obtain ⟨protectedBytes, protectedHeader, unprotected, ciphertext⟩ := e
  unfold ciphertext? at h
  split at h <;> cases h <;> rfl

/-- What was read of an encrypted object is read back. -/
theorem Encrypt0.restores (depth : Nat) : Restores depth Encrypt0.ofValue? Encrypt0.toValue := by
  intro v e storable got
  unfold Encrypt0.ofValue? at got
  split at got
  · rename_i protectedBytes unprotected ciphertext
    simp only [Option.bind_eq_bind, Option.bind_eq_some_iff] at got
    obtain ⟨protectedHeader, gotProtected, header, gotUnprotected, content, gotContent, same⟩ := got
    cases same
    cases depth with
    | zero => nomatch storable.deep
    | succ depth =>
      obtain ⟨again, faithful⟩ := Header.restores depth _ _ (storable.of_mem (by simp)) gotUnprotected
      have faithful' : ciphertext.IsFaithful depth := (storable.of_mem (by simp)).isFaithful
      have faithfulBytes : (Value.bytes protectedBytes).IsFaithful depth := (storable.of_mem (by simp)).isFaithful
      rw [toValue_of_ciphertext? gotContent]
      refine ⟨?_, .array (by simp) ?_⟩
      · simp only [ofValue?, gotProtected, again, gotContent, Option.bind_eq_bind, Option.bind_some]
      · simp only [List.forall_mem_cons]
        exact ⟨faithfulBytes, faithful, faithful', nofun⟩
  · nomatch got

end TokenGate.Cose
