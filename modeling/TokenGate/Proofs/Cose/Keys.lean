import TokenGate.Proofs.Cose.Labels

/-!
# Keys read back

A key that was read can be written and read back. Its operations are a set, which is in order from the first reading on.
-/

namespace TokenGate.Cose

open Cbor

/-! ## Labels in order -/

namespace Label

/-- The order of texts: by their length, and by their characters. -/
abbrev compareTexts : String → String → Ordering := compareLex (compareOn String.utf8ByteSize) Ord.compare

/-- Labels compare the other way round when they are swapped. -/
theorem compare_swap (a b : Label) : (compare a b).swap = compare b a := by
  cases a with
  | int m =>
    cases b with
    | int n => exact (Std.OrientedOrd.eq_swap : Ord.compare n.toInt m.toInt = _).symm
    | text t => rfl
  | text s =>
    cases b with
    | int n => rfl
    | text t => exact (Std.OrientedCmp.eq_swap : compareTexts t s = (compareTexts s t).swap).symm

theorem lt_trans {a b c : Label} (h : compare a b = .lt) (h' : compare b c = .lt) : compare a c = .lt := by
  cases a with
  | int m =>
    cases c with
    | int o =>
      cases b with
      | int n => exact (Std.TransCmp.lt_trans h h' : Ord.compare m.toInt o.toInt = .lt)
      | text t => nomatch h'
    | text u => rfl
  | text s =>
    cases b with
    | int n => nomatch h
    | text t =>
      cases c with
      | int o => nomatch h'
      | text u => exact (Std.TransCmp.lt_trans h h' : compareTexts s u = .lt)

/-- Only equal labels compare as equal. -/
theorem eq_of_compare {a b : Label} (h : compare a b = .eq) : a = b := by
  cases a with
  | int m =>
    cases b with
    | int n => exact congrArg int (Int64.toInt_inj.mp (Std.LawfulEqOrd.eq_of_compare h))
    | text t => nomatch h
  | text s =>
    cases b with
    | int n => nomatch h
    | text t =>
      have same : Ord.compare s t = .eq := (Ordering.then_eq_eq.mp h).2
      exact congrArg text (Std.LawfulEqOrd.eq_of_compare same)

/-- Of two different labels one comes before the other. -/
theorem lt_of_not_lt {a b : Label} (apart : a ≠ b) (h : compare a b ≠ .lt) : compare b a = .lt := by
  rw [← compare_swap]
  cases order : compare a b with
  | lt => exact absurd order h
  | eq => exact absurd (eq_of_compare order) apart
  | gt => rfl

theorem ne_of_lt {a b : Label} (h : compare a b = .lt) : a ≠ b := by
  rintro rfl
  have swap := compare_swap a a
  rw [h] at swap
  nomatch swap

end Label

namespace Key

/-- Labels each of which comes before all that follow it. -/
abbrev InOrder (labels : List Label) : Prop := labels.Pairwise fun a b => Label.compare a b = .lt

theorem mem_placeLabel {x label : Label} {labels : List Label} : x ∈ placeLabel label labels ↔ x = label ∨ x ∈ labels := by
  induction labels with
  | nil => simp [placeLabel]
  | cons other rest ih =>
    rw [placeLabel]
    split
    · rw [List.mem_cons]
    · rw [List.mem_cons, ih, List.mem_cons]
      exact or_left_comm

theorem length_placeLabel (label : Label) (labels : List Label) : (placeLabel label labels).length = labels.length + 1 := by
  induction labels with
  | nil => rfl
  | cons other rest ih =>
    rw [placeLabel]
    split
    · rfl
    · rw [List.length_cons, ih, List.length_cons]

/-- A new label is put in its place. -/
theorem InOrder.placeLabel {label : Label} {labels : List Label} (h : InOrder labels) (new : label ∉ labels) :
    InOrder (placeLabel label labels) := by
  induction labels with
  | nil => exact List.pairwise_singleton _ _
  | cons other rest ih =>
    obtain ⟨first, others⟩ := List.pairwise_cons.mp h
    rw [Key.placeLabel]
    split
    · rename_i before
      refine List.pairwise_cons.mpr ⟨fun x among => ?_, h⟩
      rcases List.mem_cons.mp among with rfl | among
      · exact before
      · exact Label.lt_trans before (first x among)
    · rename_i after
      refine List.pairwise_cons.mpr ⟨fun x among => ?_, ih others fun among => new (List.mem_cons_of_mem _ among)⟩
      rcases mem_placeLabel.mp among with rfl | among
      · exact Label.lt_of_not_lt (fun same => new (same ▸ List.mem_cons_self)) after
      · exact first x among

/-- Sorting neither adds a label nor loses one. -/
theorem mem_sortLabels {x : Label} {labels : List Label} : x ∈ sortLabels labels ↔ x ∈ labels := by
  induction labels with
  | nil => exact Iff.rfl
  | cons label labels ih => rw [sortLabels, List.foldr_cons, mem_placeLabel, ← sortLabels, ih, List.mem_cons]

theorem length_sortLabels (labels : List Label) : (sortLabels labels).length = labels.length := by
  induction labels with
  | nil => rfl
  | cons label labels ih => rw [sortLabels, List.foldr_cons, length_placeLabel, ← sortLabels, ih, List.length_cons]

/-- Different labels are brought into their order. -/
theorem inOrder_sortLabels {labels : List Label} (nodup : labels.Nodup) : InOrder (sortLabels labels) := by
  induction labels with
  | nil => exact List.Pairwise.nil
  | cons label labels ih =>
    obtain ⟨new, others⟩ := List.nodup_cons.mp nodup
    exact (ih others).placeLabel fun among => new (mem_sortLabels.mp among)

/-- Labels in order stay as they are. -/
theorem InOrder.sortLabels_eq {labels : List Label} (h : InOrder labels) : sortLabels labels = labels := by
  induction labels with
  | nil => rfl
  | cons label labels ih =>
    obtain ⟨first, others⟩ := List.pairwise_cons.mp h
    rw [sortLabels, List.foldr_cons, ← sortLabels, ih others]
    cases labels with
    | nil => rfl
    | cons other rest => exact if_pos (first other List.mem_cons_self)

/-- Labels in order are different from one another. -/
theorem InOrder.nodup {labels : List Label} (h : InOrder labels) : labels.Nodup :=
  h.imp Label.ne_of_lt

/-- A set of operations is read back. -/
theorem restores_operations {depth : Nat} {v : Value} {operations : List Label} (storable : v.IsStorable depth)
    (got : operations? v = some operations) : operations ≠ [] ∧
      operations? (.array (operations.map Label.toValue)) = some operations ∧
      (Value.array (operations.map Label.toValue)).IsFaithful depth := by
  simp only [operations?, Option.bind_eq_bind, Option.bind_eq_some_iff] at got
  obtain ⟨labels, read, sorted⟩ := got
  split at sorted
  · rename_i nodup
    cases sorted
    obtain ⟨some, each⟩ := ofRegistered?_of_labels? read
    have inOrder := inOrder_sortLabels nodup
    have some' : sortLabels labels ≠ [] := by
      rw [← List.length_pos_iff, length_sortLabels, List.length_pos_iff]
      exact some
    have again := labels?_map some' fun label among => each label (mem_sortLabels.mp among)
    refine ⟨some', ?_, isFaithful_labels read storable (fun label among => mem_sortLabels.mp among) (length_sortLabels labels)⟩
    rw [operations?, again]
    simp only [Option.bind_eq_bind, Option.bind_some, if_pos inOrder.nodup, inOrder.sortLabels_eq]
  · nomatch sorted

/-! ## Keys -/

/-- The parameters of a key with a meaning of their own. -/
def known (key : Key) : List (Int64 × Option Value) :=
  [(1, some key.kty.toValue), (2, bytesField key.kid), (3, key.alg.map Label.toValue), (4, labelsField key.operations),
    (5, bytesField key.baseIv)]

/-- A key is written as a record, if no label comes twice among its other parameters. -/
theorem toValue_eq {key : Key} (nodup : (key.params.map (·.1)).Nodup) :
    key.toValue = .ok (.map ((recordOf key.known key.params).map toEntry)) := by
  have kid : entryOf 2 (bytesField key.kid) = bytesEntry 2 key.kid := by cases key.kid <;> rfl
  have alg : entryOf 3 (key.alg.map Label.toValue) = labelEntry 3 key.alg := by cases key.alg <;> rfl
  have operations : entryOf 4 (labelsField key.operations) =
      if key.operations.isEmpty then [] else [(.uint 4, .array (key.operations.map Label.toValue))] := by
    cases key.operations <;> rfl
  have baseIv : entryOf 5 (bytesField key.baseIv) = bytesEntry 5 key.baseIv := by cases key.baseIv <;> rfl
  rw [toValue, if_pos nodup, known, map_recordOf_cons, map_recordOf_cons, map_recordOf_cons, map_recordOf_cons,
    map_recordOf_cons, kid, alg, operations, baseIv]
  simp only [List.append_assoc]
  rfl

/-- What was read of a key is read back. -/
theorem exists_value_of_ofValue? {depth : Nat} {v : Value} {key : Key} (storable : v.IsStorable depth)
    (got : ofValue? v = some key) : ∃ w, key.toValue = .ok w ∧ w.IsFaithful depth ∧ ofValue? w = some key := by
  simp only [ofValue?, Option.bind_eq_bind, Option.bind_eq_some_iff] at got
  obtain ⟨fields, read, kty, ⟨ktyValue, hasKty, gotKty⟩, kid, gotKid, alg, gotAlg, operations, gotOperations, baseIv, gotIv,
    same⟩ := got
  obtain ⟨less, rfl⟩ := exists_depth_of_fields? read storable
  have storable := areStorable_of_fields? read storable
  have each : ∀ {n v}, field? fields n = some v → v.IsStorable less := fun found => storable.values _ (mem_of_field? found)
  obtain ⟨ktyAgain, ktyFaithful⟩ := restores_registered _ less _ _ (each hasKty) gotKty
  obtain ⟨kidAgain, kidFaithful⟩ := restores_bytes (fun _ => each) gotKid
  obtain ⟨algAgain, algFaithful⟩ := Restores.optional (restores_registered _ less) (fun _ => each) gotAlg
  obtain ⟨operationsAgain, operationsFaithful⟩ := restores_labels restores_operations (fun _ => each) gotOperations
  obtain ⟨ivAgain, ivFaithful⟩ := restores_bytes (fun _ => each) gotIv
  cases same
  have faithful : ∀ n w, (n, some w) ∈ known ⟨kty, kid, alg, operations.getD [], baseIv, fieldsExcept [1, 2, 3, 4, 5] fields⟩ →
      w.IsFaithful less := by
    intro n w among
    simp only [known, List.mem_cons, Prod.mk.injEq, List.not_mem_nil, or_false] at among
    rcases among with ⟨_, same⟩ | ⟨_, same⟩ | ⟨_, same⟩ | ⟨_, same⟩ | ⟨_, same⟩
    · cases same
      exact ktyFaithful
    · exact kidFaithful w same.symm
    · exact algFaithful w same.symm
    · exact operationsFaithful w same.symm
    · exact ivFaithful w same.symm
  obtain ⟨whole, all, again, found, others⟩ := storable.read_recordOf [1, 2, 3, 4, 5] rfl (by decide)
    (by simp [known]) faithful
  refine ⟨_, toValue_eq (storable.nodup.sublist (List.filter_sublist.map _)), whole, ?_⟩
  simp only [known, List.forall_mem_cons] at found
  simp only [ofValue?, again, Option.bind_eq_bind, Option.bind_some, found]
  change Label.ofRegistered? Registry.isKeyType kty.toValue = some kty at ktyAgain
  simp only [type?, ktyAgain, kidAgain, algAgain, operationsAgain, ivAgain, others, Option.bind_some]

end Key

end TokenGate.Cose
