import TokenGate.Proofs.Repository.Sweep

/-!
# Additions

What a submission is made of, and what an addition comes to: the tokens of a key cleared away if the token is an update, the key
learned if the token brings it along, and the token put in. An addition never puts a token in the place of one that another key
has, which is what keeps the state sound.
-/

namespace TokenGate

/-! ## Submissions -/

namespace Submission

/-- Where the parts of a submission come from. -/
structure IsFrom (t : Submission) (claims : Claims) (shared : SharedKey) (origin : TokenOrigin) : Prop where
  scope : claims.scope.map Scope.ofClaim = some (.ok t.scope)
  key : ∃ cnf, claims.cnf = some cnf ∧ keyOf shared cnf = .ok (t.key, t.carried)
  id : idOf claims = .ok (t.id, t.isDerived)
  claims : t.claims = claims.set .cti t.id.bytes
  origin : t.origin = origin

/-- A claim that has to be there is there. -/
theorem eq_some_of_required {α : Type} {rejection : Rejection} {claim : Option α} {content : α}
    (h : required rejection claim = .ok content) : claim = some content := by
  cases claim with
  | none => nomatch h
  | some c =>
    cases h
    rfl

/-- A submission is from the claims it was made of. -/
theorem isFrom_of_ofClaims {claims : Claims} {shared : SharedKey} {origin : TokenOrigin} {t : Submission}
    (h : ofClaims claims shared origin = .ok t) : t.IsFrom claims shared origin := by
  unfold ofClaims at h
  cases scopeClaim : required .noScope claims.scope with
  | error e => rw [scopeClaim] at h; nomatch h
  | ok claim =>
  rw [scopeClaim] at h
  cases parsed : Scope.ofClaim claim with
  | error e => simp [bind, Except.bind, parsed, Except.mapError] at h
  | ok scope =>
  cases confirmed : required .noCnf claims.cnf with
  | error e => simp [bind, Except.bind, parsed, Except.mapError, confirmed] at h
  | ok cnf =>
  cases keyed : keyOf shared cnf with
  | error e => simp [bind, Except.bind, parsed, Except.mapError, confirmed, keyed] at h
  | ok key =>
  cases identified : idOf claims with
  | error e => simp [bind, Except.bind, parsed, Except.mapError, confirmed, keyed, identified] at h
  | ok id =>
  simp only [bind, Except.bind, parsed, Except.mapError, confirmed, keyed, identified, Except.ok.injEq] at h
  subst h
  refine ⟨?_, ⟨cnf, eq_some_of_required confirmed, keyed⟩, identified, rfl, rfl⟩
  rw [eq_some_of_required scopeClaim, Option.map_some, parsed]

/-- A key that is named is brought along. -/
theorem carried_of_named {key : PopKey} {name : KeyName} {carried : Option PopKey} (h : named key = .ok (name, carried)) :
    carried = some key := by
  unfold named at h
  split at h
  · cases h
    rfl
  · nomatch h

/-- A token that refers to its key by an identifier is of the key with this name. -/
theorem IsFrom.of_kid {t : Submission} {claims : Claims} {shared : SharedKey} {origin : TokenOrigin}
    (h : t.IsFrom claims shared origin) {kid : Bytes} (refers : claims.cnf = some (.kid kid)) :
    KeyName.ofKid kid = t.key ∧ t.carried = none := by
  obtain ⟨cnf, confirmed, keyed⟩ := h.key
  obtain rfl : Confirmation.kid kid = cnf := Option.some.inj (refers.symm.trans confirmed)
  have same := Except.ok.inj keyed
  rw [Prod.mk.injEq] at same
  exact ⟨same.1, same.2.symm⟩

/-- The record of a submission is that of its token. -/
theorem IsFrom.isOf {t : Submission} {claims : Claims} {shared : SharedKey} {origin : TokenOrigin}
    (h : t.IsFrom claims shared origin) : t.record.IsOf t.id where
  scope := by
    have apart : ClaimKey.cti ≠ ClaimKey.scope := by decide
    have same : t.record.claims.scope = claims.scope := by
      rw [record, h.claims]
      exact Claims.known_set_of_ne claims _ apart
    rw [same]
    exact h.scope
  cti := by
    rw [record, h.claims]
    exact Claims.known_set_self claims .cti t.id.bytes

end Submission

namespace RepositoryState

/-! ## Clearing and learning -/

/-- The tokens filed under a key are gone, and the others stay. -/
theorem tokens_clearTokens (s : RepositoryState) (key : KeyName) (id : TokenId) :
    (s.clearTokens key).tokens[id]? = if id ∈ s.idsOf key then none else s.tokens[id]? := by
  rw [clearTokens, getElem?_eraseMany]
  simp only [Std.ExtTreeSet.mem_toList]

/-- Nothing is filed under the key any more, and under the others what was. -/
theorem mem_idsOf_clearTokens (s : RepositoryState) (key file : KeyName) (id : TokenId) :
    id ∈ (s.clearTokens key).idsOf file ↔ key ≠ file ∧ id ∈ s.idsOf file := by
  rw [idsOf_eq, clearTokens, Std.ExtTreeMap.getElem?_erase]
  by_cases same : key = file
  · simp [same]
  · simp [same, idsOf_eq]

/-- A sound state stays sound when all the tokens of a key go, and the key stays. -/
theorem IsSound.clearTokens {s : RepositoryState} (h : s.IsSound) (key : KeyName) : (s.clearTokens key).IsSound where
  indexed := by
    intro id file
    rw [mem_idsOf_clearTokens, tokens_clearTokens, h.indexed id file]
    constructor
    · rintro ⟨apart, record, found, filed⟩
      refine ⟨record, ?_, filed⟩
      rw [if_neg, found]
      rw [h.indexed id key]
      rintro ⟨other, lookup, own⟩
      rw [found] at lookup
      cases lookup
      exact apart (own.symm.trans filed)
    · rintro ⟨record, found, filed⟩
      obtain ⟨stays, found⟩ := Option.ite_none_left_eq_some.mp found
      refine ⟨?_, record, found, filed⟩
      rintro rfl
      exact stays ((h.indexed id key).mpr ⟨record, found, filed⟩)
  filed := by
    intro file _
    rw [RepositoryState.clearTokens, Std.ExtTreeMap.getElem?_erase]
    split
    · simp
    · exact h.filed file (by simp)
  keyed := by
    intro id record found
    rw [tokens_clearTokens] at found
    exact h.keyed id record (Option.ite_none_left_eq_some.mp found).2
  own := by
    intro id record found
    rw [tokens_clearTokens] at found
    exact h.own id record (Option.ite_none_left_eq_some.mp found).2

theorem tokens_learnKey (s : RepositoryState) (t : Submission) : (s.learnKey t).tokens = s.tokens := by
  unfold learnKey
  split <;> (try split) <;> rfl

theorem byKey_learnKey (s : RepositoryState) (t : Submission) : (s.learnKey t).byKey = s.byKey := by
  unfold learnKey
  split <;> (try split) <;> rfl

theorem senders_learnKey (s : RepositoryState) (t : Submission) : (s.learnKey t).senders = s.senders := by
  unfold learnKey
  split <;> (try split) <;> rfl

theorem challenges_learnKey (s : RepositoryState) (t : Submission) : (s.learnKey t).challenges = s.challenges := by
  unfold learnKey
  split <;> (try split) <;> rfl

/-- Only the key of the token is learned, and only if it is not provisioned. -/
theorem keys_learnKey (s : RepositoryState) (t : Submission) (key : KeyName) :
    (s.learnKey t).keys[key]? =
      if t.key = key ∧ t.carried.isSome = true ∧ s.isProvisioned t.key = false then
        t.carried.map fun carried => ⟨carried, false⟩
      else s.keys[key]? := by
  unfold learnKey
  cases brought : t.carried with
  | none => simp
  | some carried =>
    cases provisioned : s.isProvisioned t.key with
    | true => simp
    | false => simp [Std.ExtTreeMap.getElem?_insert]

/-- Keys that were known are known. -/
theorem mem_keys_learnKey {s : RepositoryState} {t : Submission} {key : KeyName} (h : key ∈ s.keys) :
    key ∈ (s.learnKey t).keys := by
  rw [Std.ExtTreeMap.mem_iff_isSome_getElem?] at h ⊢
  rw [keys_learnKey]
  split
  · rename_i learned
    rw [Option.isSome_map]
    exact learned.2.1
  · exact h

/-- The key of a token that brings it along is known afterwards. -/
theorem mem_keys_learnKey_self {s : RepositoryState} {t : Submission} (known : t.carried = none → t.key ∈ s.keys) :
    t.key ∈ (s.learnKey t).keys := by
  cases brought : t.carried with
  | none => exact mem_keys_learnKey (known brought)
  | some carried =>
    cases provisioned : s.isProvisioned t.key with
    | true =>
      obtain ⟨bound, there, _⟩ := (isProvisioned_eq_true_iff s t.key).mp provisioned
      apply mem_keys_learnKey
      exact mem_iff_exists_getElem?.mpr ⟨bound, there⟩
    | false =>
      rw [Std.ExtTreeMap.mem_iff_isSome_getElem?, keys_learnKey, brought, provisioned]
      simp

/-! ## Additions -/

/-- The state with a token added to those of its key, or in place of them. -/
def withToken (s : RepositoryState) (t : Submission) (isUpdate : Bool) : RepositoryState :=
  ((if isUpdate then s.clearTokens t.key else s).learnKey t).insertToken t.id t.record

/-- What a token displaces. -/
def displacedBy (s : RepositoryState) (t : Submission) (isUpdate : Bool) : Displaced where
  tokens := if isUpdate then s.tokensOf t.key else []
  key := s.keys[t.key]?

/-- What has to hold for a token to be added to a state. -/
structure Admits (s : RepositoryState) (t : Submission) (isUpdate : Bool) : Prop where
  known : t.carried = none → t.key ∈ s.keys
  /-- The identifier of the token is free, or is that of a token that it replaces. -/
  free : ∀ other : TokenRecord, s.tokens[t.id]? = some other → isUpdate = true ∧ other.key = t.key
  /-- Only a known key has tokens to be replaced. -/
  held : isUpdate = true → t.key ∈ s.keys
  own : t.record.IsOf t.id

/-- The token is there after its addition, and the others of its key are not if it is an update. -/
theorem tokens_withToken (s : RepositoryState) (t : Submission) (isUpdate : Bool) (id : TokenId) :
    (s.withToken t isUpdate).tokens[id]? =
      if t.id = id then some t.record
      else if isUpdate = true ∧ id ∈ s.idsOf t.key then none
      else s.tokens[id]? := by
  rw [withToken, tokens_insertToken, tokens_learnKey]
  cases isUpdate with
  | true => simp only [if_true, tokens_clearTokens, true_and]
  | false => simp

/-- A token that is there stays when another one is added, unless that updates the rights of its key. -/
theorem IsIndexed.tokens_withToken_of_tokens {s : RepositoryState} (h : s.IsIndexed) {t : Submission} {isUpdate : Bool}
    (admits : s.Admits t isUpdate) {id : TokenId} {record : TokenRecord} (found : s.tokens[id]? = some record)
    (stays : ¬(isUpdate = true ∧ t.key = record.key)) : (s.withToken t isUpdate).tokens[id]? = some record := by
  rw [tokens_withToken]
  by_cases new : t.id = id
  · subst new
    obtain ⟨updates, own⟩ := admits.free record found
    exact absurd ⟨updates, own.symm⟩ stays
  · rw [if_neg new, if_neg]
    · exact found
    · rintro ⟨updates, filed⟩
      obtain ⟨other, there, own⟩ := (h id t.key).mp filed
      rw [found] at there
      cases there
      exact stays ⟨updates, own.symm⟩

/-- An addition does to the keys what learning the key of the token does. -/
theorem keys_withToken (s : RepositoryState) (t : Submission) (isUpdate : Bool) (key : KeyName) :
    (s.withToken t isUpdate).keys[key]? = (s.learnKey t).keys[key]? := by
  have apart : (s.withToken t isUpdate).keys = ((if isUpdate then s.clearTokens t.key else s).learnKey t).keys := rfl
  rw [apart, keys_learnKey, keys_learnKey]
  cases isUpdate <;> rfl

/-- A token that is there after an addition is the one that was added, or was there before. -/
theorem eq_record_of_tokens_withToken {s : RepositoryState} {t : Submission} {isUpdate : Bool} {id : TokenId}
    {record : TokenRecord} (found : (s.withToken t isUpdate).tokens[id]? = some record) :
    record = t.record ∨ s.tokens[id]? = some record := by
  rw [tokens_withToken] at found
  split at found
  · exact Or.inl (Option.some.inj found).symm
  · exact Or.inr (Option.ite_none_left_eq_some.mp found).2

/-- A key that is there after an addition was brought along, or was there before. -/
theorem carried_of_keys_withToken {s : RepositoryState} {t : Submission} {isUpdate : Bool} {name : KeyName} {bound : BoundKey}
    (found : (s.withToken t isUpdate).keys[name]? = some bound) :
    t.carried = some bound.key ∨ s.keys[name]? = some bound := by
  rw [keys_withToken, keys_learnKey] at found
  split at found
  · obtain ⟨carried, brought, rfl⟩ := Option.map_eq_some_iff.mp found
    exact Or.inl brought
  · exact Or.inr found

/-- The keys agreed on are not replaced, and what is learned from a token is not agreed on. -/
theorem agreedKey?_withToken (s : RepositoryState) (t : Submission) (isUpdate : Bool) (name : KeyName) :
    (s.withToken t isUpdate).agreedKey? name = s.agreedKey? name := by
  rw [agreedKey?, agreedKey?, keys_withToken, keys_learnKey]
  split
  · rename_i learned
    obtain ⟨rfl, _, learned⟩ := learned
    have none : (s.keys[t.key]?).bind BoundKey.agreed? = none := by
      cases found : s.keys[t.key]? with
      | none => rfl
      | some bound =>
        rw [isProvisioned, found, Option.any_some] at learned
        simp [BoundKey.agreed?, learned]
    rw [none]
    cases t.carried <;> rfl
  · rfl

/-- Adding a token binds nobody. -/
theorem senders_withToken (s : RepositoryState) (t : Submission) (isUpdate : Bool) :
    (s.withToken t isUpdate).senders = s.senders := by
  have apart : (s.withToken t isUpdate).senders = ((if isUpdate then s.clearTokens t.key else s).learnKey t).senders := rfl
  rw [apart, senders_learnKey]
  cases isUpdate <;> rfl

theorem challenges_withToken (s : RepositoryState) (t : Submission) (isUpdate : Bool) :
    (s.withToken t isUpdate).challenges = s.challenges := by
  have apart : (s.withToken t isUpdate).challenges =
      ((if isUpdate then s.clearTokens t.key else s).learnKey t).challenges := rfl
  rw [apart, challenges_learnKey]
  cases isUpdate <;> rfl

/-- A token that the state admits leaves a sound state sound. -/
theorem IsSound.withToken {s : RepositoryState} (h : s.IsSound) {t : Submission} {isUpdate : Bool}
    (admits : s.Admits t isUpdate) : (s.withToken t isUpdate).IsSound := by
  have cleared : (if isUpdate then s.clearTokens t.key else s).IsSound := by
    split
    · exact h.clearTokens t.key
    · exact h
  have learned : ((if isUpdate then s.clearTokens t.key else s).learnKey t).IsSound :=
    cleared.congr (tokens_learnKey _ t) (byKey_learnKey _ t) fun _ known => mem_keys_learnKey known
  apply learned.insertToken
  · intro old found
    rw [tokens_learnKey] at found
    cases isUpdate with
    | true =>
      rw [if_pos rfl, tokens_clearTokens] at found
      exact (admits.free old (Option.ite_none_left_eq_some.mp found).2).2
    | false =>
      exact absurd (admits.free old found).1 (by decide)
  · apply mem_keys_learnKey_self
    intro brought
    have known := admits.known brought
    cases isUpdate <;> exact known
  · exact admits.own

/-- What an addition comes to, once the ended tokens are swept: the token was there before, or it is admitted. -/
inductive Adds (swept : RepositoryState) (t : Submission) (senderKey : Option KeyName) (now : UInt64) :
    Outcome AddedToken → Prop
  | again (known : t.carried = none → t.key ∈ swept.keys) (there : swept.isResubmission t = true) :
    Adds swept t senderKey now (.unchanged { id := t.id, key := t.key, isUpdate := false, displaced := none })
  | anew (isUpdate : Bool) (decided : isUpdate = (t.carried.isNone && swept.isUpdate t.key senderKey now))
    (admits : swept.Admits t isUpdate) :
    Adds swept t senderKey now
      (.changed { id := t.id, key := t.key, isUpdate, displaced := some (swept.displacedBy t isUpdate) }
        (swept.withToken t isUpdate))

/-- Whatever is added is added to the swept state in one of these two ways. -/
theorem adds_of_add {s : RepositoryState} {t : Submission} {senderKey : Option KeyName} {now : UInt64}
    {outcome : Outcome AddedToken} (own : t.record.IsOf t.id) (h : s.add t senderKey now = .ok outcome) :
    (s.sweep now).Adds t senderKey now outcome := by
  unfold add at h
  simp only at h
  split at h
  · nomatch h
  rename_i found
  have known : t.carried = none → t.key ∈ (s.sweep now).keys := by
    intro brought
    rw [brought] at found
    simpa using found
  split at h
  · rename_i there
    cases h
    exact .again known there
  split at h
  · nomatch h
  rename_i free
  cases h
  refine .anew _ rfl ⟨known, ?_, ?_, own⟩
  · intro other lookup
    rw [lookup] at free
    simpa using free
  · intro update
    rw [Bool.and_eq_true] at update
    exact known (by simpa using update.1)

end RepositoryState

end TokenGate
