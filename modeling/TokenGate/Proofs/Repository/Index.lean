import TokenGate.Proofs.Repository.Lookups

/-!
# The index of a repository

The tokens of a repository, the files of its keys and the keys themselves have to stay in step. `IsSound` says what that means;
the statements below say that each change of a state keeps it, one change at a time.
-/

namespace TokenGate

/-- What a record says by itself: it is the record of the token with this identifier, and its scope is that of its claims. -/
structure TokenRecord.IsOf (record : TokenRecord) (id : TokenId) : Prop where
  scope : record.claims.scope.map Scope.ofClaim = some (.ok record.scope)
  cti : record.claims.cti = some id.bytes

namespace RepositoryState

/-- A token is filed under the key it is bound to and under no other, and only tokens are filed. -/
def IsIndexed (s : RepositoryState) : Prop :=
  ∀ id key, id ∈ s.idsOf key ↔ ∃ record : TokenRecord, s.tokens[id]? = some record ∧ record.key = key

/-- No key has an empty file, except perhaps one. -/
def IsFiledBut (s : RepositoryState) (spared : Option KeyName) : Prop :=
  ∀ key, spared ≠ some key → s.byKey[key]? ≠ some ∅

/-- What holds of the state of a repository at all times. -/
structure IsSound (s : RepositoryState) : Prop where
  indexed : s.IsIndexed
  filed : s.IsFiledBut none
  /-- The key of every token is there. -/
  keyed : ∀ (id : TokenId) (record : TokenRecord), s.tokens[id]? = some record → record.key ∈ s.keys
  own : ∀ (id : TokenId) (record : TokenRecord), s.tokens[id]? = some record → record.IsOf id

/-- The state of a new repository is sound. -/
theorem IsSound.empty : IsSound {} where
  indexed := by
    intro id key
    simp [idsOf]
  filed := by
    intro key _
    simp
  keyed := by
    intro id record h
    simp at h
  own := by
    intro id record h
    simp at h

/-- A sound state with a different set of channels or challenges is sound. -/
theorem IsSound.congr {s s' : RepositoryState} (h : s.IsSound) (tokens : s'.tokens = s.tokens)
    (byKey : s'.byKey = s.byKey) (keys : ∀ key, key ∈ s.keys → key ∈ s'.keys) : s'.IsSound where
  indexed := by
    intro id key
    have files : s'.idsOf key = s.idsOf key := by rw [idsOf, idsOf, byKey]
    rw [tokens, files]
    exact h.indexed id key
  filed := by
    intro key spared
    rw [byKey]
    exact h.filed key spared
  keyed := by
    intro id record found
    rw [tokens] at found
    exact keys _ (h.keyed id record found)
  own := by
    intro id record found
    rw [tokens] at found
    exact h.own id record found

/-- In a sound state, the files of the keys follow from the tokens. -/
theorem IsSound.byKey_eq {s s' : RepositoryState} (h : s.IsSound) (h' : s'.IsSound)
    (tokens : ∀ id : TokenId, s.tokens[id]? = s'.tokens[id]?) : s.byKey = s'.byKey := by
  have same : ∀ key, s.idsOf key = s'.idsOf key := by
    intro key
    apply Std.ExtTreeSet.ext_mem
    intro id
    rw [h.indexed id key, h'.indexed id key, tokens id]
  apply Std.ExtTreeMap.ext_getElem?
  intro key
  have files := same key
  rw [idsOf_eq, idsOf_eq] at files
  cases left : s.byKey[key]? with
  | none =>
    cases right : s'.byKey[key]? with
    | none => rfl
    | some ids =>
      rw [left, right] at files
      exact absurd (right.trans (congrArg some files.symm)) (h'.filed key (by simp))
  | some ids =>
    cases right : s'.byKey[key]? with
    | none =>
      rw [left, right] at files
      exact absurd (left.trans (congrArg some files)) (h.filed key (by simp))
    | some ids' =>
      rw [left, right] at files
      exact congrArg some files

/-! ## Putting a token in -/

/-- A token that replaces only tokens of its own key is filed correctly. -/
theorem IsIndexed.insertToken {s : RepositoryState} (h : s.IsIndexed) {id : TokenId} {record : TokenRecord}
    (free : ∀ old : TokenRecord, s.tokens[id]? = some old → old.key = record.key) : (s.insertToken id record).IsIndexed := by
  intro other key
  rw [mem_idsOf_insertToken, tokens_insertToken, h other key]
  by_cases same : id = other
  · subst same
    rw [if_pos rfl]
    constructor
    · rintro (⟨filed, _⟩ | ⟨old, found, filed⟩)
      · exact ⟨record, rfl, filed⟩
      · exact ⟨record, rfl, (free old found).symm.trans filed⟩
    · rintro ⟨new, found, filed⟩
      cases found
      exact Or.inl ⟨filed, rfl⟩
  · rw [if_neg same]
    constructor
    · rintro (⟨_, equal⟩ | filed)
      · exact absurd equal same
      · exact filed
    · intro filed
      exact Or.inr filed

/-- The file that a token is put in is not empty. -/
theorem IsFiledBut.insertToken {s : RepositoryState} {spared : Option KeyName} (h : s.IsFiledBut spared) (id : TokenId)
    (record : TokenRecord) : (s.insertToken id record).IsFiledBut spared := by
  intro key rest
  have files : (s.insertToken id record).byKey[key]? =
      if record.key = key then some ((s.idsOf record.key).insert id) else s.byKey[key]? := by
    simp [RepositoryState.insertToken, Std.ExtTreeMap.getElem?_insert]
  rw [files]
  by_cases same : record.key = key
  · rw [if_pos same]
    simp
  · rw [if_neg same]
    exact h key rest

/-- A token of a known key may be put in in place of a token of the same key. -/
theorem IsSound.insertToken {s : RepositoryState} (h : s.IsSound) {id : TokenId} {record : TokenRecord}
    (free : ∀ old : TokenRecord, s.tokens[id]? = some old → old.key = record.key) (known : record.key ∈ s.keys)
    (own : record.IsOf id) : (s.insertToken id record).IsSound where
  indexed := h.indexed.insertToken free
  filed := h.filed.insertToken id record
  keyed := by
    intro other found lookup
    rw [tokens_insertToken] at lookup
    by_cases same : id = other
    · rw [if_pos same] at lookup
      cases lookup
      exact known
    · rw [if_neg same] at lookup
      exact h.keyed other found lookup
  own := by
    intro other found lookup
    rw [tokens_insertToken] at lookup
    by_cases same : id = other
    · rw [if_pos same] at lookup
      cases lookup
      exact same ▸ own
    · rw [if_neg same] at lookup
      exact h.own other found lookup

/-! ## Taking tokens out -/

/-- A token that is taken out of the file of its own key is gone from both maps. -/
theorem IsIndexed.takeOut {s : RepositoryState} (h : s.IsIndexed) {id : TokenId} {key : KeyName}
    (own : ∀ old : TokenRecord, s.tokens[id]? = some old → old.key = key) : (s.takeOut id key).IsIndexed := by
  intro other file
  rw [mem_idsOf_takeOut, tokens_takeOut, h other file]
  by_cases same : id = other
  · subst same
    rw [if_pos rfl]
    constructor
    · rintro ⟨⟨old, found, filed⟩, apart⟩
      exact absurd ⟨(own old found).symm.trans filed, rfl⟩ apart
    · rintro ⟨_, found, _⟩
      cases found
  · rw [if_neg same]
    constructor
    · rintro ⟨filed, _⟩
      exact filed
    · intro filed
      exact ⟨filed, fun both => same both.2⟩

/-- Only the file that a token is taken out of may be left empty. -/
theorem IsFiledBut.takeOut {s : RepositoryState} {key : KeyName} (h : s.IsFiledBut none) (id : TokenId) :
    (s.takeOut id key).IsFiledBut (some key) := by
  intro other spared
  rw [byKey_takeOut, if_neg fun same => spared (congrArg some same)]
  exact h other (by simp)

/-- The file that was perhaps empty is gone if it was. -/
theorem IsFiledBut.dropIfOrphaned {s : RepositoryState} {key : KeyName} (h : s.IsFiledBut (some key)) :
    (s.dropIfOrphaned key).IsFiledBut none := by
  intro other _
  rw [byKey_dropIfOrphaned]
  by_cases same : key = other
  · subst same
    split
    · simp
    · rename_i filled
      intro empty
      rw [idsOf_eq, empty] at filled
      simp at filled
  · have kept := h other fun equal => same (Option.some.inj equal)
    split
    · rw [Std.ExtTreeMap.getElem?_erase]
      simp [same, kept]
    · exact kept

/-- Dropping a key without tokens keeps the tokens indexed. -/
theorem IsIndexed.dropIfOrphaned {s : RepositoryState} (h : s.IsIndexed) (key : KeyName) :
    (s.dropIfOrphaned key).IsIndexed := by
  intro id file
  rw [mem_idsOf_dropIfOrphaned, tokens_dropIfOrphaned]
  exact h id file

/-- An orphan is the key of no token. -/
theorem IsIndexed.ne_of_isOrphan {s : RepositoryState} (h : s.IsIndexed) {key : KeyName} (orphan : s.isOrphan key = true)
    {id : TokenId} {record : TokenRecord} (found : s.tokens[id]? = some record) : key ≠ record.key := by
  intro same
  have empty := ((isOrphan_eq_true_iff s key).mp orphan).1 id
  exact empty ((h id key).mpr ⟨record, found, same.symm⟩)

/-- Releasing an orphan keeps a state sound in which only the file of this key may be empty. -/
theorem IsIndexed.isSound_dropIfOrphaned {s : RepositoryState} {key : KeyName} (indexed : s.IsIndexed)
    (filed : s.IsFiledBut (some key))
    (keyed : ∀ (id : TokenId) (record : TokenRecord), s.tokens[id]? = some record → record.key ∈ s.keys)
    (own : ∀ (id : TokenId) (record : TokenRecord), s.tokens[id]? = some record → record.IsOf id) :
    (s.dropIfOrphaned key).IsSound where
  indexed := indexed.dropIfOrphaned key
  filed := filed.dropIfOrphaned
  keyed := by
    intro id record found
    rw [tokens_dropIfOrphaned] at found
    have known := keyed id record found
    rw [Std.ExtTreeMap.mem_iff_isSome_getElem?] at known ⊢
    rw [keys_dropIfOrphaned, if_neg fun both => indexed.ne_of_isOrphan both.2 found both.1]
    exact known
  own := by
    intro id record found
    rw [tokens_dropIfOrphaned] at found
    exact own id record found

/-- A token is taken out of the file of its own key, which is released if it was the last. -/
theorem removeToken?_eq (s : RepositoryState) (id : TokenId) :
    s.removeToken? id = (s.tokens[id]?).map fun record => (s.takeOut id record.key).dropIfOrphaned record.key :=
  rfl

/-- Taking a token out and releasing its key if it was the last keeps a state sound. -/
theorem IsSound.removeToken? {s next : RepositoryState} (h : s.IsSound) {id : TokenId}
    (removed : s.removeToken? id = some next) : next.IsSound := by
  rw [removeToken?_eq, Option.map_eq_some_iff] at removed
  obtain ⟨record, found, rfl⟩ := removed
  have sub : ∀ (other : TokenId) (r : TokenRecord),
      (s.takeOut id record.key).tokens[other]? = some r → s.tokens[other]? = some r := by
    intro other r lookup
    rw [tokens_takeOut] at lookup
    exact (Option.ite_none_left_eq_some.mp lookup).2
  have own : ∀ old : TokenRecord, s.tokens[id]? = some old → old.key = record.key := by
    intro old lookup
    rw [found] at lookup
    cases lookup
    rfl
  apply IsIndexed.isSound_dropIfOrphaned (h.indexed.takeOut own) (h.filed.takeOut id)
  · intro other r lookup
    exact h.keyed other r (sub other r lookup)
  · intro other r lookup
    exact h.own other r (sub other r lookup)

/-- Removing a token keeps a state sound. -/
theorem IsSound.removeToken {s : RepositoryState} (h : s.IsSound) (id : TokenId) : (s.removeToken id).IsSound := by
  unfold RepositoryState.removeToken
  cases removed : s.removeToken? id with
  | none => exact h
  | some next => exact h.removeToken? removed

/-- A token that is removed is gone, and the others stay. -/
theorem tokens_removeToken (s : RepositoryState) (id other : TokenId) :
    (s.removeToken id).tokens[other]? = if id = other then none else s.tokens[other]? := by
  rw [removeToken, removeToken?_eq]
  cases found : s.tokens[id]? with
  | none =>
    by_cases same : id = other
    · subst same
      simp [found]
    · simp [same]
  | some record =>
    simp only [Option.map_some, Option.getD_some, tokens_dropIfOrphaned, tokens_takeOut]

end RepositoryState

end TokenGate
