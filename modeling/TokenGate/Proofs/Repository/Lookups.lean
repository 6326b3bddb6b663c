import TokenGate.Repository.Addition

/-!
# What is where after a change

For every change of a repository's state, what its five maps answer afterwards, in terms of what they answered before. Later
modules reason about answers only, never about the maps.
-/

namespace TokenGate

/-! ## Maps -/

section Maps

open Std

variable {α β : Type} {cmp : α → α → Ordering} [TransCmp cmp] [LawfulEqCmp cmp]

omit [TransCmp cmp] in
/-- Comparing keys is deciding whether they are equal. -/
theorem compare_eq_eq_iff {a b : α} : cmp a b = .eq ↔ a = b :=
  ⟨LawfulEqCmp.eq_of_compare, fun h => h ▸ ReflCmp.compare_self⟩

omit [LawfulEqCmp cmp] in
/-- What is in a map has a value. -/
theorem mem_iff_exists_getElem? {m : ExtTreeMap α β cmp} {a : α} : a ∈ m ↔ ∃ v, m[a]? = some v := by
  rw [ExtTreeMap.mem_iff_isSome_getElem?, Option.isSome_iff_exists]

omit [LawfulEqCmp cmp] in
/-- Erasing many keys is erasing them one by one. -/
theorem eraseMany_eq_foldl (m : ExtTreeMap α β cmp) (keys : List α) : m.eraseMany keys = keys.foldl (·.erase ·) m := by
  unfold ExtTreeMap.eraseMany ExtDTreeMap.eraseMany
  simp only [List.forIn_pure_yield_eq_foldl, bind_pure_comp, map_pure, Id.run_pure]
  exact (List.foldl_hom (fun erased : { a // ∀ P : _ → Prop, P m.inner → (∀ t a, P t → P (t.erase a)) → P a } =>
    (⟨erased.1⟩ : ExtTreeMap α β cmp)) (fun _ _ => rfl)).symm

/-- Erased keys have no value any more, and the others keep theirs. -/
theorem getElem?_eraseMany [DecidableEq α] (m : ExtTreeMap α β cmp) (keys : List α) (a : α) :
    (m.eraseMany keys)[a]? = if a ∈ keys then none else m[a]? := by
  rw [eraseMany_eq_foldl]
  induction keys generalizing m with
  | nil => simp
  | cons b keys ih =>
    rw [List.foldl_cons, ih, ExtTreeMap.getElem?_erase]
    by_cases h : a = b
    · simp [h]
    · simp [h, Ne.symm h]

/-- Erasing what is not there changes nothing. -/
theorem erase_of_contains_eq_false {m : ExtTreeMap α β cmp} {a : α} (absent : m.contains a = false) : m.erase a = m := by
  apply ExtTreeMap.ext_getElem?
  intro b
  rw [ExtTreeMap.getElem?_erase]
  split
  · rename_i same
    have same := compare_eq_eq_iff.mp same
    subst same
    exact (ExtTreeMap.getElem?_eq_none_of_contains_eq_false absent).symm
  · rfl

/-- A map is made of its entries. -/
theorem ofList_toList [DecidableEq α] (m : ExtTreeMap α β cmp) : ExtTreeMap.ofList m.toList cmp = m := by
  apply ExtTreeMap.ext_getElem?
  intro a
  cases found : m[a]? with
  | some v =>
    exact ExtTreeMap.getElem?_ofList_of_mem ReflCmp.compare_self ExtTreeMap.distinct_keys_toList
      (ExtTreeMap.mem_toList_iff_getElem?_eq_some.mpr found)
  | none =>
    apply ExtTreeMap.getElem?_ofList_of_contains_eq_false
    simpa using found

/-- A map is made again by inserting its entries one after the other. -/
theorem foldl_insert_toList [DecidableEq α] (m : ExtTreeMap α β cmp) :
    m.toList.foldl (fun made e => made.insert e.1 e.2) ∅ = m := by
  rw [← ExtTreeMap.ofList_eq_foldl, ofList_toList]

end Maps

/-- The material of a key, if it was agreed on out of band. -/
def BoundKey.agreed? (bound : BoundKey) : Option PopKey :=
  if bound.provisioned then some bound.key else none

namespace RepositoryState

/-- The material under a name that was agreed on out of band. -/
def agreedKey? (s : RepositoryState) (name : KeyName) : Option PopKey :=
  (s.keys[name]?).bind BoundKey.agreed?

/-- A key was agreed on out of band if it is there as a provisioned one. -/
theorem agreedKey?_eq_some_iff (s : RepositoryState) (name : KeyName) (key : PopKey) :
    s.agreedKey? name = some key ↔ s.keys[name]? = some ⟨key, true⟩ := by
  rw [agreedKey?, Option.bind_eq_some_iff]
  constructor
  · rintro ⟨⟨material, provisioned⟩, found, agreed⟩
    rw [BoundKey.agreed?, Option.ite_none_right_eq_some] at agreed
    obtain ⟨rfl, same⟩ := agreed
    cases same
    exact found
  · intro found
    exact ⟨_, found, rfl⟩

/-- States that answer the same are equal. -/
theorem eq_of_lookups {s s' : RepositoryState} (tokens : ∀ id : TokenId, s.tokens[id]? = s'.tokens[id]?)
    (byKey : s.byKey = s'.byKey) (keys : ∀ key : KeyName, s.keys[key]? = s'.keys[key]?)
    (senders : ∀ sender : String, s.senders[sender]? = s'.senders[sender]?)
    (challenges : ∀ key : KeyName, s.challenges[key]? = s'.challenges[key]?) : s = s' := by
  cases s
  cases s'
  simp only [mk.injEq]
  exact ⟨Std.ExtTreeMap.ext_getElem? tokens, byKey, Std.ExtTreeMap.ext_getElem? keys,
    Std.ExtTreeMap.ext_getElem? senders, Std.ExtTreeMap.ext_getElem? challenges⟩

/-- The identifiers filed under a key, by the entry of the key. -/
theorem idsOf_eq (s : RepositoryState) (key : KeyName) : s.idsOf key = (s.byKey[key]?).getD ∅ :=
  Std.ExtTreeMap.getD_eq_getD_getElem?

/-! ## Taking a token out -/

/-- The state with a token taken out of the tokens and out of the file of a key. -/
def takeOut (s : RepositoryState) (id : TokenId) (key : KeyName) : RepositoryState :=
  { s with
    tokens := s.tokens.erase id
    byKey := s.byKey.modify key (·.erase id) }

theorem tokens_takeOut (s : RepositoryState) (id other : TokenId) (key : KeyName) :
    (s.takeOut id key).tokens[other]? = if id = other then none else s.tokens[other]? := by
  simp [takeOut, Std.ExtTreeMap.getElem?_erase]

theorem byKey_takeOut (s : RepositoryState) (id : TokenId) (key other : KeyName) :
    (s.takeOut id key).byKey[other]? =
      if key = other then (s.byKey[other]?).map (·.erase id) else s.byKey[other]? := by
  simp only [takeOut, Std.ExtTreeMap.getElem?_modify, compare_eq_eq_iff]
  split
  · rename_i h
    rw [h]
  · rfl

/-- The token is no longer filed under the key, and everything else is where it was. -/
theorem mem_idsOf_takeOut (s : RepositoryState) (id other : TokenId) (key file : KeyName) :
    other ∈ (s.takeOut id key).idsOf file ↔ other ∈ s.idsOf file ∧ ¬(key = file ∧ id = other) := by
  rw [idsOf_eq, idsOf_eq, byKey_takeOut]
  by_cases h : key = file
  · cases found : s.byKey[file]? with
    | none => simp [h]
    | some ids => simp [h, Std.ExtTreeSet.mem_erase, and_comm]
  · simp [h]

/-! ## Releasing a key -/

/-- Whether no token is left to keep a key, which was not agreed on out of band either. -/
def isOrphan (s : RepositoryState) (key : KeyName) : Bool :=
  (s.idsOf key).isEmpty && !s.isProvisioned key

/-- A key is an orphan if nothing is filed under it and it is not provisioned. -/
theorem isOrphan_eq_true_iff (s : RepositoryState) (key : KeyName) :
    s.isOrphan key = true ↔ (∀ id, id ∉ s.idsOf key) ∧ s.isProvisioned key = false := by
  rw [isOrphan, Bool.and_eq_true, Std.ExtTreeSet.isEmpty_iff, Std.ExtTreeSet.eq_empty_iff_forall_not_mem]
  simp

/-- A key is provisioned if it is there as such. -/
theorem isProvisioned_eq_true_iff (s : RepositoryState) (key : KeyName) :
    s.isProvisioned key = true ↔ ∃ bound, s.keys[key]? = some bound ∧ bound.provisioned = true := by
  rw [isProvisioned, Option.any_eq_true]

theorem tokens_dropIfOrphaned (s : RepositoryState) (key : KeyName) :
    (s.dropIfOrphaned key).tokens = s.tokens := by
  unfold dropIfOrphaned releaseKey
  split <;> (try split) <;> rfl

theorem byKey_dropIfOrphaned (s : RepositoryState) (key : KeyName) :
    (s.dropIfOrphaned key).byKey = if (s.idsOf key).isEmpty then s.byKey.erase key else s.byKey := by
  unfold dropIfOrphaned releaseKey
  split <;> (try split) <;> rfl

/-- What is filed stays filed, since an empty file at most goes. -/
theorem mem_idsOf_dropIfOrphaned (s : RepositoryState) (id : TokenId) (key file : KeyName) :
    id ∈ (s.dropIfOrphaned key).idsOf file ↔ id ∈ s.idsOf file := by
  rw [idsOf_eq, byKey_dropIfOrphaned]
  split
  · rename_i empty
    rw [Std.ExtTreeMap.getElem?_erase]
    by_cases h : key = file
    · subst h
      rw [Std.ExtTreeSet.isEmpty_iff] at empty
      simp [empty]
    · simp [h, idsOf_eq]
  · rw [idsOf_eq]

/-- A key that is not provisioned is released together with what hangs on it; nothing else is touched. -/
theorem dropIfOrphaned_of_isOrphan (s : RepositoryState) (key : KeyName) (h : s.isOrphan key = true) :
    s.dropIfOrphaned key =
      { s with
        byKey := s.byKey.erase key
        keys := s.keys.erase key
        senders := s.senders.filter fun _ k => k ≠ key
        challenges := s.challenges.erase key } := by
  rw [isOrphan, Bool.and_eq_true, Bool.not_eq_true'] at h
  have spared : { s with byKey := s.byKey.erase key }.isProvisioned key = false := h.2
  rw [dropIfOrphaned, if_pos h.1, releaseKey, spared]
  rfl

/-- Without an orphan, only an empty file may go. -/
theorem dropIfOrphaned_of_not_isOrphan (s : RepositoryState) (key : KeyName) (h : s.isOrphan key = false) :
    s.dropIfOrphaned key = { s with byKey := (s.dropIfOrphaned key).byKey } := by
  unfold dropIfOrphaned
  split
  · rename_i empty
    rw [isOrphan, empty, Bool.true_and, Bool.not_eq_false'] at h
    have spared : { s with byKey := s.byKey.erase key }.isProvisioned key = true := h
    rw [releaseKey, if_pos spared]
  · rfl

/-- A key goes if it is an orphan, and the others stay. -/
theorem keys_dropIfOrphaned (s : RepositoryState) (key other : KeyName) :
    (s.dropIfOrphaned key).keys[other]? = if key = other ∧ s.isOrphan key = true then none else s.keys[other]? := by
  cases h : s.isOrphan key with
  | true =>
    rw [dropIfOrphaned_of_isOrphan s key h]
    simp [Std.ExtTreeMap.getElem?_erase]
  | false =>
    rw [dropIfOrphaned_of_not_isOrphan s key h]
    simp

/-- A provisioned key is never an orphan. -/
theorem agreedKey?_dropIfOrphaned (s : RepositoryState) (key name : KeyName) :
    (s.dropIfOrphaned key).agreedKey? name = s.agreedKey? name := by
  rw [agreedKey?, agreedKey?, keys_dropIfOrphaned]
  split
  · rename_i orphan
    obtain ⟨rfl, orphan⟩ := orphan
    have learned := ((isOrphan_eq_true_iff s key).mp orphan).2
    cases found : s.keys[key]? with
    | none => rfl
    | some bound =>
      rw [isProvisioned, found, Option.any_some] at learned
      simp [BoundKey.agreed?, learned]
  · rfl

/-- With an orphan go the senders that are bound to it. -/
theorem senders_dropIfOrphaned (s : RepositoryState) (key : KeyName) (sender : String) :
    (s.dropIfOrphaned key).senders[sender]? =
      (s.senders[sender]?).filter fun other => !(decide (key = other) && s.isOrphan key) := by
  cases h : s.isOrphan key with
  | true =>
    rw [dropIfOrphaned_of_isOrphan s key h]
    simp [eq_comm]
  | false =>
    rw [dropIfOrphaned_of_not_isOrphan s key h]
    cases s.senders[sender]? <;> simp [Option.filter]

theorem challenges_dropIfOrphaned (s : RepositoryState) (key other : KeyName) :
    (s.dropIfOrphaned key).challenges[other]? =
      if key = other ∧ s.isOrphan key = true then none else s.challenges[other]? := by
  cases h : s.isOrphan key with
  | true =>
    rw [dropIfOrphaned_of_isOrphan s key h]
    simp [Std.ExtTreeMap.getElem?_erase]
  | false =>
    rw [dropIfOrphaned_of_not_isOrphan s key h]
    simp

end RepositoryState

end TokenGate
