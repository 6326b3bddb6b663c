import TokenGate.Proofs.Claims.Legibility
import TokenGate.Proofs.Repository.Consistency
import TokenGate.Proofs.Repository.Saving

/-!
# Documents read again

What becomes of a state that was written into a document, whatever claims and keys are in it. The document is put together again
exactly if each key is legible, and each token is read again as claims with a scope, and its key is there; each token then has the
claims it was read again with. The state comes back if all tokens have the same terms.
-/

namespace TokenGate

/-- The record of a token once its claims were read again. -/
def TokenRecord.reread? (record : TokenRecord) : Option TokenRecord := do
  let claims ← record.claims.reread?
  let scope ← StoredToken.scopeOf? claims
  some { record with claims, scope }

/-- The record of a token that was decoded, with its identifier, where no tag in what is kept of it stands for an integer. -/
def TokenRecord.IsPlain (id : TokenId) (record : TokenRecord) : Prop :=
  ∃ (bs : Bytes) (c : Claims), bs.length < 2 ^ 64 ∧ Claims.decode bs = .ok c ∧ c.keepsPlain = true ∧ id.bytes.length < 2 ^ 64 ∧
    record.claims = c.set .cti id.bytes

/-- The claims of a plain token come back. -/
theorem TokenRecord.IsPlain.comesBack {id : TokenId} {record : TokenRecord} (h : record.IsPlain id) : record.claims.ComesBack := by
  obtain ⟨bs, c, fits, got, plain, short, same⟩ := h
  rw [same]
  exact Claims.comesBack_of_decode fits got plain short

/-! ## Keys and tokens -/

/-- A key that was written is put back as it is read again, if it is. -/
theorem StoredKey.restore_ofBoundKey {name : KeyName} {bound : BoundKey} {stored : StoredKey}
    (written : ofBoundKey name bound = .ok stored) {s s' : RepositoryState} :
    stored.restore s = .ok s' ↔ ∃ again, bound.key.reread? = some again ∧
      s' = { s with keys := s.keys.insert name ⟨again, bound.provisioned⟩ } := by
  unfold ofBoundKey at written
  cases valued : bound.key.toConfirmation.toValue with
  | error e =>
    rw [valued] at written
    cases written
  | ok v =>
    rw [valued] at written
    cases written
    have read : (keyOf (Text.Base64.encode v.encode)).toOption = bound.key.reread? := by
      rw [keyOf, Text.Base64.decode?_encode, Option.bind_some, PopKey.reread?, valued]
      simp only [Except.toOption, Option.bind_eq_bind, Option.bind_some]
      cases Cbor.decode? v.encode with
      | none => rfl
      | some w =>
        simp only [Option.bind_some]
        cases (Confirmation.ofValue w) with
        | error e => rfl
        | ok confirmation =>
          simp only [Option.bind_some]
          cases PopKey.ofConfirmation? confirmation <;> rfl
    rw [← read, restore]
    cases keyOf (Text.Base64.encode v.encode) with
    | error e => exact iff_of_false (by rintro ⟨⟩) (by rintro ⟨_, ⟨⟩, _⟩)
    | ok key => simp [bind, Except.bind, Except.toOption, eq_comm]

/-- A token that was written is put back as it is read again, if it is and its key is there. -/
theorem StoredToken.restore_ofRecord {id : TokenId} {record : TokenRecord} {stored : StoredToken}
    (written : ofRecord id record = .ok stored) {s s' : RepositoryState} :
    stored.restore s = .ok s' ↔ record.key ∈ s.keys ∧ ∃ again, record.reread? = some again ∧ s' = s.insertToken id again := by
  unfold ofRecord at written
  cases encoded : record.claims.encode with
  | error e =>
    rw [encoded] at written
    cases written
  | ok bs =>
    rw [encoded] at written
    have shape : ∃ reference, stored = ⟨id.toText, Text.Base64.encode bs, record.key, reference⟩ ∧
        originOf reference = record.origin := by
      cases written
      cases record.origin <;> exact ⟨_, rfl, rfl⟩
    obtain ⟨reference, rfl, origin⟩ := shape
    have again : record.claims.reread? = (Claims.decode bs).toOption := by
      rw [Claims.reread?, encoded]
      rfl
    have read : claims? ⟨id.toText, Text.Base64.encode bs, record.key, reference⟩ =
        ((Claims.decode bs).mapError (Corruption.claims id)).map (id, ·) := by
      simp only [claims?, TokenId.ofText?, TokenId.toText, Text.Base64.decode?_encode, Option.map_some]
    cases decoded : Claims.decode bs with
    | error rejection =>
      rw [decoded] at again read
      have failed : restore s ⟨id.toText, Text.Base64.encode bs, record.key, reference⟩ = .error (.claims id rejection) := by
        rw [restore, read]
        rfl
      rw [failed, TokenRecord.reread?, again]
      exact iff_of_false (by rintro ⟨⟩) (by rintro ⟨_, _, ⟨⟩, _⟩)
    | ok claims =>
      rw [decoded] at again read
      have reread : record.reread? = (scopeOf? claims).map fun scope => { record with claims, scope } := by
        simp only [TokenRecord.reread?, again, Except.toOption, Option.bind_eq_bind, Option.bind_some]
        cases scopeOf? claims <;> rfl
      rw [reread]
      cases parsed : scopeOf? claims with
      | none =>
        have failed : restore s ⟨id.toText, Text.Base64.encode bs, record.key, reference⟩ = .error (.scope id) := by
          simp only [restore, read, Except.mapError, Except.map, bind, Except.bind, parsed]
        rw [failed]
        exact iff_of_false (by rintro ⟨⟩) (by rintro ⟨_, _, ⟨⟩, _⟩)
      | some scope =>
        by_cases known : record.key ∈ s.keys
        · have restored := restore_eq (t := ⟨id.toText, Text.Base64.encode bs, record.key, reference⟩) read parsed known
          rw [restored, and_iff_right known, origin]
          simp [eq_comm]
        · have absent : s.keys.contains record.key = false :=
            Bool.eq_false_iff.mpr fun there => known (Std.ExtTreeMap.contains_iff_mem.mp there)
          have failed : restore s ⟨id.toText, Text.Base64.encode bs, record.key, reference⟩ =
              .error (.unknownKey id record.key) := by
            simp only [restore, read, Except.mapError, Except.map, bind, Except.bind, parsed, absent, Bool.false_eq_true,
              if_false]
          rw [failed]
          exact iff_of_false (by rintro ⟨⟩) fun both => known both.1

/-! ## One after the other -/

/-- Keys that were written are put back if all of them are legible, and then they are the keys that are known besides. -/
theorem StoredKey.foldlM_restore {entries : List (KeyName × BoundKey)} {stored : List StoredKey}
    (written : entries.mapM (fun (name, bound) => ofBoundKey name bound) = .ok stored) (s : RepositoryState) :
    ((∃ s', stored.foldlM restore s = .ok s') ↔ ∀ e ∈ entries, e.2.key.IsLegible) ∧
      ∀ s', stored.foldlM restore s = .ok s' → ∀ name, name ∈ s'.keys ↔ name ∈ s.keys ∨ name ∈ entries.map Prod.fst := by
  induction entries generalizing stored s with
  | nil =>
    cases written
    exact ⟨⟨fun _ => nofun, fun _ => ⟨s, rfl⟩⟩, by rintro _ ⟨⟩ name; simp⟩
  | cons e entries ih =>
    obtain ⟨first, rest, own, others, rfl⟩ := mapM_cons_eq_ok.mp written
    have step := fun next => @restore_ofBoundKey _ _ _ own s next
    simp only [foldlM_cons_eq_ok, List.forall_mem_cons]
    refine ⟨⟨?_, ?_⟩, ?_⟩
    · rintro ⟨s', next, restored, back⟩
      obtain ⟨again, read, rfl⟩ := (step next).mp restored
      exact ⟨Option.isSome_of_eq_some read, (ih others _).1.mp ⟨s', back⟩⟩
    · rintro ⟨legible, each⟩
      obtain ⟨again, read⟩ := Option.isSome_iff_exists.mp legible
      obtain ⟨s', back⟩ := (ih others { s with keys := s.keys.insert e.1 ⟨again, e.2.provisioned⟩ }).1.mpr each
      exact ⟨s', _, (step _).mpr ⟨again, read, rfl⟩, back⟩
    · rintro s' ⟨next, restored, back⟩ name
      obtain ⟨again, read, rfl⟩ := (step next).mp restored
      rw [(ih others _).2 s' back name, Std.ExtTreeMap.mem_insert, List.map_cons, List.mem_cons, compare_eq_eq_iff]
      tauto

/-- Tokens that were written are put back if each is read again and its key is there, and then each is there as it was read again. -/
theorem StoredToken.foldlM_restore {entries : List (TokenId × TokenRecord)} {stored : List StoredToken}
    (written : entries.mapM (fun (id, record) => ofRecord id record) = .ok stored) (distinct : (entries.map Prod.fst).Nodup)
    (s : RepositoryState) :
    ((∃ s', stored.foldlM restore s = .ok s') ↔ ∀ e ∈ entries, e.2.key ∈ s.keys ∧ e.2.reread?.isSome = true) ∧
      ∀ s', stored.foldlM restore s = .ok s' → ∀ e ∈ entries, s'.tokens[e.1]? = e.2.reread? := by
  have others : ∀ {entries : List (TokenId × TokenRecord)} {stored : List StoredToken} {s s' : RepositoryState},
      entries.mapM (fun (id, record) => ofRecord id record) = .ok stored → stored.foldlM restore s = .ok s' →
        ∀ id ∉ entries.map Prod.fst, s'.tokens[id]? = s.tokens[id]? := by
    intro entries
    induction entries with
    | nil =>
      rintro _ s s' ⟨⟩ ⟨⟩ id _
      rfl
    | cons e entries ih =>
      intro stored s s' written restored id apart
      obtain ⟨first, rest, own, others, rfl⟩ := mapM_cons_eq_ok.mp written
      obtain ⟨next, one, back⟩ := foldlM_cons_eq_ok.mp restored
      obtain ⟨_, again, _, rfl⟩ := (restore_ofRecord own).mp one
      rw [List.map_cons, List.mem_cons, not_or] at apart
      rw [ih others back id apart.2, RepositoryState.tokens_insertToken, if_neg (Ne.symm apart.1)]
  induction entries generalizing stored s with
  | nil =>
    cases written
    exact ⟨⟨fun _ => nofun, fun _ => ⟨s, rfl⟩⟩, fun _ _ => nofun⟩
  | cons e entries ih =>
    obtain ⟨first, rest, own, later, rfl⟩ := mapM_cons_eq_ok.mp written
    rw [List.map_cons, List.nodup_cons] at distinct
    have step := fun next => @restore_ofRecord _ _ _ own s next
    simp only [foldlM_cons_eq_ok, List.forall_mem_cons]
    refine ⟨⟨?_, ?_⟩, ?_⟩
    · rintro ⟨s', next, restored, back⟩
      obtain ⟨known, again, read, rfl⟩ := (step next).mp restored
      exact ⟨⟨known, Option.isSome_of_eq_some read⟩, (ih later distinct.2 (s.insertToken e.1 again)).1.mp ⟨s', back⟩⟩
    · rintro ⟨⟨known, read⟩, each⟩
      obtain ⟨again, read⟩ := Option.isSome_iff_exists.mp read
      obtain ⟨s', back⟩ := (ih later distinct.2 (s.insertToken e.1 again)).1.mpr each
      exact ⟨s', _, (step _).mpr ⟨known, again, read, rfl⟩, back⟩
    · rintro s' ⟨next, restored, back⟩
      obtain ⟨_, again, read, rfl⟩ := (step next).mp restored
      refine ⟨?_, (ih later distinct.2 _).2 s' back⟩
      rw [others later back e.1 distinct.1, RepositoryState.tokens_insertToken, if_pos rfl, read]

namespace RepositoryState

/-! ## States -/

/-- A document for a state has all its tokens, keys, channels and challenges. -/
theorem ofState_eq_ok {s : RepositoryState} {document : StoreDocument} (h : StoreDocument.ofState s = .ok document) :
    s.tokens.toList.mapM (fun (id, record) => StoredToken.ofRecord id record) = .ok document.tokens ∧
      s.keys.toList.mapM (fun (name, bound) => StoredKey.ofBoundKey name bound) = .ok document.keys ∧
      document.challenges = s.challenges.map fun _ challenge => Text.Base64.encode challenge := by
  unfold StoreDocument.ofState at h
  cases tokens : s.tokens.toList.mapM (fun (id, record) => StoredToken.ofRecord id record) with
  | error e =>
    rw [tokens] at h
    nomatch h
  | ok ts =>
    rw [tokens] at h
    cases keys : s.keys.toList.mapM (fun (name, bound) => StoredKey.ofBoundKey name bound) with
    | error e =>
      rw [keys] at h
      nomatch h
    | ok ks =>
      rw [keys] at h
      cases h
      exact ⟨rfl, rfl, rfl⟩

/-- The document of a state is put together again exactly if each key is legible, and each token is read again and its key is there;
and then each token is there as it was read again. -/
theorem exists_restore_iff {s : RepositoryState} {document : StoreDocument} (written : StoreDocument.ofState s = .ok document) :
    ((∃ s', document.restore = .ok s') ↔
      (∀ (name : KeyName) (bound : BoundKey), s.keys[name]? = some bound → bound.key.IsLegible) ∧
        ∀ (id : TokenId) (record : TokenRecord), s.tokens[id]? = some record →
          record.key ∈ s.keys ∧ record.reread?.isSome = true) ∧
      ∀ s', document.restore = .ok s' → ∀ (id : TokenId) (record : TokenRecord), s.tokens[id]? = some record →
        s'.tokens[id]? = record.reread? := by
  obtain ⟨tokens, keys, challenges⟩ := ofState_eq_ok written
  have distinct : (s.tokens.toList.map Prod.fst).Nodup := by
    rw [List.Nodup, List.pairwise_map]
    exact Std.ExtTreeMap.distinct_keys_toList.imp fun apart same => apart (compare_eq_eq_iff.mpr same)
  obtain ⟨keysBack, keysThere⟩ := StoredKey.foldlM_restore keys {}
  have tokensBack := fun made => StoredToken.foldlM_restore tokens distinct made
  have known : ∀ {withKeys}, document.keys.foldlM StoredKey.restore {} = .ok withKeys →
      ∀ name, name ∈ withKeys.keys ↔ name ∈ s.keys := by
    intro withKeys back name
    rw [keysThere withKeys back name, ← Std.ExtTreeMap.mem_keys, ← Std.ExtTreeMap.map_fst_toList_eq_keys]
    simp
  have legible : (∀ e ∈ s.keys.toList, e.2.key.IsLegible) ↔
      ∀ (name : KeyName) (bound : BoundKey), s.keys[name]? = some bound → bound.key.IsLegible := by
    simp only [Prod.forall, Std.ExtTreeMap.mem_toList_iff_getElem?_eq_some]
  -- Challenges are put back whatever they are.
  have challengesBack : ∀ made : RepositoryState, ∃ restored, document.challenges.toList.foldlM StoreDocument.restoreChallenge made =
      .ok restored ∧ restored.tokens = made.tokens := by
    intro made
    rw [challenges, Std.ExtTreeMap.toList_map]
    exact ⟨_, foldlM_restoreChallenge s.challenges.toList made, rfl⟩
  unfold StoreDocument.restore
  cases withKeys : document.keys.foldlM StoredKey.restore {} with
  | error e =>
    refine ⟨iff_of_false (by rintro ⟨_, ⟨⟩⟩) ?_, nofun⟩
    rintro ⟨each, _⟩
    obtain ⟨made, back⟩ := keysBack.mpr (legible.mpr each)
    nomatch withKeys.symm.trans back
  | ok made =>
    have each := legible.mp (keysBack.mp ⟨made, withKeys⟩)
    obtain ⟨readable, there⟩ := tokensBack made
    simp only [bind, Except.bind, known withKeys, Prod.forall, Std.ExtTreeMap.mem_toList_iff_getElem?_eq_some] at readable there ⊢
    rw [and_iff_right each]
    cases withTokens : document.tokens.foldlM StoredToken.restore made with
    | error e =>
      rw [← readable, withTokens]
      exact ⟨iff_of_false (by rintro ⟨_, ⟨⟩⟩) (by rintro ⟨_, ⟨⟩⟩), nofun⟩
    | ok filled =>
      obtain ⟨restored, back, kept⟩ := challengesBack { filled with senders := document.senders }
      rw [← readable]
      simp only [back]
      refine ⟨iff_of_true ⟨restored, rfl⟩ ⟨filled, withTokens⟩, ?_⟩
      rintro _ ⟨⟩ id record found
      rw [kept]
      exact there filled withTokens id record found

/-! ## Coming back -/

/-- A state that has each token of another one, on the same terms. -/
def Retains (s' s : RepositoryState) : Prop :=
  ∀ (id : TokenId) (record : TokenRecord), s.tokens[id]? = some record →
    ∃ again : TokenRecord, s'.tokens[id]? = some again ∧ again.claims.SameTerms record.claims

/-- A state all of whose tokens come back, whose keys are legible, and in which the key of every token is there. -/
structure ComesBack (s : RepositoryState) : Prop where
  tokens : ∀ (id : TokenId) (record : TokenRecord), s.tokens[id]? = some record → record.claims.ComesBack
  keys : ∀ (name : KeyName) (bound : BoundKey), s.keys[name]? = some bound → bound.key.IsLegible
  keyed : ∀ (id : TokenId) (record : TokenRecord), s.tokens[id]? = some record → record.key ∈ s.keys

/-- A state retains itself. -/
theorem Retains.refl (s : RepositoryState) : s.Retains s :=
  fun _ record found => ⟨record, found, rfl, rfl, rfl, rfl, rfl⟩

/-- A token is read again if its claims come back. -/
theorem reread?_of_comesBack {record : TokenRecord} (own : record.HasOwnScope) (back : record.claims.ComesBack) :
    ∃ again : TokenRecord, record.reread? = some again ∧ again.claims.SameTerms record.claims := by
  obtain ⟨claims, read, same⟩ := back
  have parsed : StoredToken.scopeOf? claims = some record.scope := by
    rw [← own, StoredToken.scopeOf?, StoredToken.scopeOf?, same.scope]
  refine ⟨{ record with claims }, ?_, same⟩
  simp only [TokenRecord.reread?, read, parsed, Option.bind_eq_bind, Option.bind_some]

/-- A token that is read again is read again by its claims. -/
theorem comesBack_of_reread? {record again : TokenRecord} (read : record.reread? = some again)
    (same : again.claims.SameTerms record.claims) : record.claims.ComesBack := by
  simp only [TokenRecord.reread?, Option.bind_eq_bind, Option.bind_eq_some_iff] at read
  obtain ⟨claims, read, scope, _, made⟩ := read
  cases made
  exact ⟨claims, read, same⟩

/-- The document of a state is put together again, with each token on the same terms, exactly if the state comes back. -/
theorem exists_restore_retains_iff {s : RepositoryState} {document : StoreDocument}
    (own : ∀ (id : TokenId) (record : TokenRecord), s.tokens[id]? = some record → record.HasOwnScope)
    (written : StoreDocument.ofState s = .ok document) :
    (∃ s', document.restore = .ok s' ∧ s'.Retains s) ↔ s.ComesBack := by
  obtain ⟨exists_iff, there⟩ := exists_restore_iff written
  constructor
  · rintro ⟨s', restored, retains⟩
    obtain ⟨keys, tokens⟩ := exists_iff.mp ⟨s', restored⟩
    refine ⟨fun id record found => ?_, keys, fun id record found => (tokens id record found).1⟩
    obtain ⟨again, lookup, same⟩ := retains id record found
    exact comesBack_of_reread? ((there s' restored id record found).symm.trans lookup) same
  · rintro ⟨tokens, keys, keyed⟩
    have readable : ∀ (id : TokenId) (record : TokenRecord), s.tokens[id]? = some record →
        ∃ again : TokenRecord, record.reread? = some again ∧ again.claims.SameTerms record.claims :=
      fun id record found => reread?_of_comesBack (own id record found) (tokens id record found)
    obtain ⟨s', restored⟩ := exists_iff.mpr ⟨keys, fun id record found =>
      ⟨keyed id record found, Option.isSome_iff_exists.mpr ((readable id record found).imp fun _ => And.left)⟩⟩
    refine ⟨s', restored, fun id record found => ?_⟩
    obtain ⟨again, read, same⟩ := readable id record found
    exact ⟨again, (there s' restored id record found).trans read, same⟩

end RepositoryState

end TokenGate
