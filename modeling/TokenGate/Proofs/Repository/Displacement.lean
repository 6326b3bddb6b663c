import TokenGate.Proofs.Repository.Undoing

/-!
# Who can displace rights

An addition replaces tokens only if it renews the rights of a key: the token refers to the key by its identifier, its sender is
authenticated with that very key, and the key has a token that has not ended. Then all tokens of this key are replaced, and none
of another one. Any other addition leaves the tokens that have not ended as they are, and is refused if its identifier is taken.
The material of a key is only replaced by a token that brings the key along, unless the key was agreed on.
-/

namespace TokenGate

namespace Repository

/-! ## Operations whose write succeeds -/

/-- An operation in which no write failed. -/
def Effect.IsWritten {α : Type} (effect : Effect α) : Prop :=
  effect.result ≠ .error .storage ∧ ∀ e, effect.result ≠ .error (.encoding e)

/-- A change of an open repository comes about if no write fails. -/
theorem perform_of_isWritten {α : Type} {r : Repository} {host : Host}
    {change : RepositoryState → Except Rejection (Outcome α)} {outcome : Outcome α} (isOpen : r.isOpen = true)
    (changed : change r.state = .ok outcome) (written : (r.perform host change).IsWritten) :
    (r.perform host change).result = .ok outcome.value := by
  unfold Effect.IsWritten at written
  unfold perform at written ⊢
  rw [if_pos isOpen, changed] at written ⊢
  simp only [commit] at written ⊢
  cases next : outcome.next with
  | none => rfl
  | some state =>
    rw [next] at written
    simp only at written ⊢
    rcases r.save_cases state host with ⟨_, saved⟩ | ⟨_, saved⟩ | ⟨failure, _, saved⟩
    · rw [saved]
    · rw [saved] at written
      exact absurd rfl written.1
    · rw [saved] at written
      exact absurd rfl (written.2 failure)

end Repository

namespace Submission

/-- A token brings no key along exactly if it refers to its key by an identifier. -/
theorem IsFrom.carried_eq_none_iff {t : Submission} {claims : Claims} {shared : SharedKey} {origin : TokenOrigin}
    (h : t.IsFrom claims shared origin) : t.carried = none ↔ ∃ kid, claims.cnf = some (.kid kid) := by
  refine ⟨?_, fun ⟨kid, refers⟩ => (h.of_kid refers).2⟩
  intro none
  obtain ⟨cnf, confirmed, keyed⟩ := h.key
  rw [none] at keyed
  cases cnf with
  | kid kid => exact ⟨kid, confirmed⟩
  | key key => nomatch carried_of_named keyed
  | oscore material =>
    have brought : named (.oscore material) = .ok (t.key, Option.none) := keyed
    nomatch carried_of_named brought
  | encryptedKey envelope =>
    change (decryptKey envelope shared >>= named) = .ok (t.key, Option.none) at keyed
    cases opened : decryptKey envelope shared with
    | error e =>
      rw [opened] at keyed
      nomatch keyed
    | ok key =>
      rw [opened] at keyed
      nomatch carried_of_named keyed

end Submission

namespace RepositoryState

/-! ## Renewing the rights of a key -/

/-- Whether claims from a sender renew the rights of a key. -/
structure Renews (s : RepositoryState) (claims : Claims) (senderKey : Option KeyName) (key : KeyName) : Prop where
  /-- The claims refer to the key by its identifier. -/
  refers : ∃ kid, claims.cnf = some (.kid kid) ∧ KeyName.ofKid kid = key
  /-- The sender is authenticated with this very key. -/
  sender : senderKey = some key
  /-- There are rights to renew. -/
  held : ∃ (id : TokenId) (record : TokenRecord), s.tokens[id]? = some record ∧ record.key = key

/-- After the sweep, a key has a token that has not ended if it has any token. -/
theorem IsSound.hasUnexpired_sweep_iff {s : RepositoryState} (h : s.IsSound) (now : UInt64) (key : KeyName) :
    (s.sweep now).hasUnexpired key now = true ↔
      ∃ (id : TokenId) (record : TokenRecord), (s.sweep now).tokens[id]? = some record ∧ record.key = key := by
  have indexed := (h.sweep now).indexed
  simp only [hasUnexpired, List.any_eq_true, Option.any_eq_true, Std.ExtTreeSet.mem_toList]
  constructor
  · rintro ⟨id, filed, _⟩
    obtain ⟨record, found, own⟩ := (indexed id key).mp filed
    exact ⟨id, record, found, own⟩
  · rintro ⟨id, record, found, own⟩
    have alive := ((s.tokens_sweep now id record).mp found).2
    exact ⟨id, (indexed id key).mpr ⟨record, found, own⟩, record, found, by rw [alive, Bool.not_false]⟩

/-- A token is taken for an update exactly if its claims renew the rights of its key. -/
theorem IsSound.isUpdate_iff_renews {s : RepositoryState} (h : s.IsSound) {claims : Claims} {shared : SharedKey}
    {origin : TokenOrigin} {t : Submission} (made : t.IsFrom claims shared origin) (senderKey : Option KeyName)
    (now : UInt64) :
    (t.carried.isNone && (s.sweep now).isUpdate t.key senderKey now) = true ↔
      (s.sweep now).Renews claims senderKey t.key := by
  rw [isUpdate, Bool.and_eq_true, Bool.and_eq_true, Option.isNone_iff_eq_none, made.carried_eq_none_iff, beq_iff_eq,
    h.hasUnexpired_sweep_iff]
  constructor
  · rintro ⟨⟨kid, refers⟩, sender, held⟩
    exact ⟨⟨kid, refers, (made.of_kid refers).1⟩, sender, held⟩
  · rintro ⟨⟨kid, refers, _⟩, sender, held⟩
    exact ⟨⟨kid, refers⟩, sender, held⟩

/-! ## What an addition displaces -/

/-- What an addition does to a swept state: it displaces the tokens of its key if it renews the rights of the key, and nothing
otherwise. -/
structure Displaces (swept after : RepositoryState) (claims : Claims) (senderKey : Option KeyName) (t : Submission)
    (added : AddedToken) : Prop where
  id : added.id = t.id
  key : added.key = t.key
  isUpdate : added.isUpdate = true ↔ swept.Renews claims senderKey t.key
  /-- A renewal replaces all tokens of the key by the new one. -/
  renewed : added.isUpdate = true → ∀ (id : TokenId) (record : TokenRecord), after.tokens[id]? = some record ↔
    (id = t.id ∧ record = t.record) ∨ (swept.tokens[id]? = some record ∧ record.key ≠ t.key)
  /-- Any other token is put in the place of none. -/
  accumulated : added.isUpdate = false → swept.tokens[t.id]? = none ∧ ∀ (id : TokenId) (record : TokenRecord),
    after.tokens[id]? = some record ↔ (id = t.id ∧ record = t.record) ∨ swept.tokens[id]? = some record
  /-- Only the key of the token changes, if the token brings it along and it was not agreed on. -/
  keys : ∀ name : KeyName, after.keys[name]? ≠ swept.keys[name]? →
    name = t.key ∧ (∀ kid, claims.cnf ≠ some (.kid kid)) ∧ swept.isProvisioned t.key = false

/-- A token that a sound state admits displaces what is said. -/
theorem IsSound.displaces_withToken {s : RepositoryState} (h : s.IsSound) {claims : Claims} {shared : SharedKey}
    {origin : TokenOrigin} {t : Submission} (made : t.IsFrom claims shared origin) {senderKey : Option KeyName}
    {isUpdate : Bool} (decided : isUpdate = true ↔ s.Renews claims senderKey t.key) (admits : s.Admits t isUpdate)
    {added : AddedToken} (id : added.id = t.id) (key : added.key = t.key) (same : added.isUpdate = isUpdate) :
    s.Displaces (s.withToken t isUpdate) claims senderKey t added where
  id := id
  key := key
  isUpdate := same ▸ decided
  renewed := by
    rintro update other record
    obtain rfl : isUpdate = true := same.symm.trans update
    rw [tokens_withToken]
    by_cases new : t.id = other
    · subst new
      rw [if_pos rfl]
      constructor
      · intro found
        exact Or.inl ⟨rfl, (Option.some.inj found).symm⟩
      · rintro (⟨_, rfl⟩ | ⟨there, apart⟩)
        · rfl
        · exact absurd (admits.free record there).2 apart
    · rw [if_neg new, Option.ite_none_left_eq_some, or_iff_right fun both => new both.1.symm, h.indexed other t.key]
      constructor
      · rintro ⟨stays, found⟩
        exact ⟨found, fun own => stays ⟨rfl, record, found, own⟩⟩
      · rintro ⟨found, apart⟩
        refine ⟨?_, found⟩
        rintro ⟨_, record', found', own⟩
        rw [found] at found'
        cases found'
        exact apart own
  accumulated := by
    intro addition
    obtain rfl : isUpdate = false := same.symm.trans addition
    have free : s.tokens[t.id]? = none := by
      rw [Option.eq_none_iff_forall_ne_some]
      intro other found
      exact absurd (admits.free other found).1 Bool.false_ne_true
    refine ⟨free, ?_⟩
    intro other record
    rw [tokens_withToken]
    by_cases new : t.id = other
    · subst new
      rw [if_pos rfl, free]
      constructor
      · intro found
        exact Or.inl ⟨rfl, (Option.some.inj found).symm⟩
      · rintro (⟨_, rfl⟩ | there)
        · rfl
        · nomatch there
    · rw [if_neg new, if_neg fun both => Bool.false_ne_true both.1, or_iff_right fun both => new both.1.symm]
  keys := by
    intro name changed
    rw [keys_withToken, keys_learnKey] at changed
    split at changed
    · rename_i learned
      obtain ⟨rfl, brought, learned⟩ := learned
      refine ⟨rfl, ?_, learned⟩
      intro kid refers
      rw [(made.of_kid refers).2] at brought
      nomatch brought
    · exact absurd rfl changed

/-- Whatever an addition displaces, tokens of other keys stay as they are. -/
theorem Displaces.tokens_of_ne {swept after : RepositoryState} {claims : Claims} {senderKey : Option KeyName}
    {t : Submission} {added : AddedToken} (h : swept.Displaces after claims senderKey t added) {id : TokenId}
    {record : TokenRecord} (other : record.key ≠ t.key) :
    after.tokens[id]? = some record ↔ swept.tokens[id]? = some record := by
  have apart : ¬(id = t.id ∧ record = t.record) := by
    rintro ⟨_, rfl⟩
    exact other rfl
  cases update : added.isUpdate with
  | true => rw [h.renewed update, or_iff_right apart, and_iff_left other]
  | false => rw [(h.accumulated update).2, or_iff_right apart]

/-- When a token is added: its key has to be known or brought along, and its identifier has to be free, unless the token is
taken for one that was there before or replaces the one in its place. -/
theorem IsSound.exists_add_eq_ok_iff {s : RepositoryState} (h : s.IsSound) {claims : Claims} {shared : SharedKey}
    {origin : TokenOrigin} {t : Submission} (made : t.IsFrom claims shared origin) (senderKey : Option KeyName)
    (now : UInt64) :
    (∃ outcome, s.add t senderKey now = .ok outcome) ↔ (t.carried = none → t.key ∈ (s.sweep now).keys) ∧
      ((s.sweep now).isResubmission t = true ∨ ∀ other : TokenRecord, (s.sweep now).tokens[t.id]? = some other →
        (s.sweep now).Renews claims senderKey t.key ∧ other.key = t.key) := by
  have decided := h.isUpdate_iff_renews made senderKey now
  have known : (t.carried.isNone && !(s.sweep now).keys.contains t.key) = true ↔
      ¬(t.carried = none → t.key ∈ (s.sweep now).keys) := by
    rw [Bool.and_eq_true, Option.isNone_iff_eq_none, Bool.not_eq_true', ← Bool.not_eq_true,
      ← Std.ExtTreeMap.mem_iff_contains, Classical.not_imp]
  unfold add
  simp only
  split
  · rename_i unknown
    exact iff_of_false nofun fun both => known.mp unknown both.1
  rename_i found
  rw [and_iff_right (not_not.mp (mt known.mpr found))]
  split
  · rename_i there
    exact iff_of_true ⟨_, rfl⟩ (Or.inl there)
  rename_i new
  rw [or_iff_right new]
  split
  · rename_i taken
    refine iff_of_false nofun fun free => ?_
    obtain ⟨other, lookup, apart⟩ := Option.any_eq_true _ _ |>.mp taken
    obtain ⟨renews, own⟩ := free other lookup
    rw [decided.mpr renews, own] at apart
    simp at apart
  · rename_i taken
    refine iff_of_true ⟨_, rfl⟩ fun other lookup => ?_
    rw [lookup, Option.any_some, Bool.or_eq_true, not_or, Bool.not_eq_true', Bool.not_eq_false, decided, decide_eq_true_eq,
      not_not] at taken
    exact taken

end RepositoryState

namespace Repository

/-- An addition that is not resolved, or refused, or takes the token for one that was there before, changes nothing. -/
theorem addToken_unchanged {r : Repository} {host : Host} {claims : Claims} {shared : SharedKey}
    {senderKey : Option KeyName} {origin : TokenOrigin} {t : Submission}
    (made : Submission.ofClaims claims shared origin = .ok t)
    (h : (¬∃ added, (r.addToken host claims shared senderKey origin).result = .ok added) ∨
      (r.state.sweep host.clock).isResubmission t = true) :
    (r.addToken host claims shared senderKey origin).repository = r := by
  cases result : (r.addToken host claims shared senderKey origin).result with
  | error e => exact addToken_error result
  | ok added =>
    rw [addToken_eq made] at h result ⊢
    obtain ⟨_, outcome, changed, _, counted⟩ := perform_ok result
    have there := h.resolve_left (not_not_intro ⟨added, result⟩)
    have none := (RepositoryState.isResubmission_of_add changed).symm.trans there
    rw [counted]
    have own := (Submission.isFrom_of_ofClaims made).isOf
    cases RepositoryState.adds_of_add own changed with
    | again known _ => rfl
    | anew isUpdate decided admits => nomatch none

/-- What an addition may displace, and when it is refused. -/
theorem addToken_displaces {r : Repository} (sound : r.state.IsSound) (host : Host) (claims : Claims) (shared : SharedKey)
    (senderKey : Option KeyName) (origin : TokenOrigin) :
    let swept := r.state.sweep host.clock
    let effect := r.addToken host claims shared senderKey origin
    (∀ e, Submission.ofClaims claims shared origin = .error e → effect.result = .error e ∧ effect.repository = r) ∧
    ∀ t, Submission.ofClaims claims shared origin = .ok t →
      -- An addition, other than of a token that was there before, displaces what it renews.
      (∀ added, effect.result = .ok added → swept.isResubmission t = false →
        swept.Displaces effect.repository.state claims senderKey t added) ∧
      ((¬∃ added, effect.result = .ok added) ∨ swept.isResubmission t = true → effect.repository = r) ∧
      -- In every case, tokens of other keys that have not ended stay as they are.
      (∀ (id : TokenId) (record : TokenRecord), record.key ≠ t.key → record.claims.isExpiredAt host.clock = false →
        (effect.repository.state.tokens[id]? = some record ↔ r.state.tokens[id]? = some record)) ∧
      -- An identifier that is taken is refused, unless this is a renewal that replaces its token.
      (swept.isResubmission t = false → ∀ other : TokenRecord, swept.tokens[t.id]? = some other →
        ¬(swept.Renews claims senderKey t.key ∧ other.key = t.key) → r.isOpen = true →
        ∃ rejection, effect.result = .error (.rejected rejection)) ∧
      -- Nothing else is refused but an unknown key.
      (r.isOpen = true → effect.IsWritten → ((∃ added, effect.result = .ok added) ↔
        (t.carried = none → t.key ∈ swept.keys) ∧ (swept.isResubmission t = true ∨
          ∀ other : TokenRecord, swept.tokens[t.id]? = some other →
            swept.Renews claims senderKey t.key ∧ other.key = t.key))) := by
  intro swept effect
  refine ⟨?_, ?_⟩
  · intro e unresolved
    simp only [effect, addToken, unresolved]
    exact ⟨trivial, trivial⟩
  intro t made
  have from' := Submission.isFrom_of_ofClaims made
  have outcomes := sound.exists_add_eq_ok_iff from' senderKey host.clock
  have displaces : ∀ added, effect.result = .ok added → swept.isResubmission t = false →
      swept.Displaces effect.repository.state claims senderKey t added := by
    intro added ok new
    obtain ⟨_, t', outcome, made', adds, rfl, counted⟩ := addToken_ok ok
    obtain rfl := Except.ok.inj (made.symm.trans made')
    simp only [effect, counted]
    cases adds with
    | again known there => exact absurd (there.symm.trans new) (by decide)
    | anew isUpdate decided admits =>
      refine (sound.sweep host.clock).displaces_withToken from' ?_ admits rfl rfl rfl
      rw [decided]
      exact sound.isUpdate_iff_renews from' senderKey host.clock
  refine ⟨displaces, addToken_unchanged made, ?_, ?_, ?_⟩
  · intro id record other alive
    by_cases changed : (∃ added, effect.result = .ok added) ∧ swept.isResubmission t = false
    · obtain ⟨⟨added, ok⟩, new⟩ := changed
      rw [(displaces added ok new).tokens_of_ne other, RepositoryState.tokens_sweep, and_iff_left alive]
    · have unchanged : effect.repository = r := by
        apply addToken_unchanged made
        rwa [not_and_or, Bool.not_eq_false] at changed
      rw [unchanged]
  · intro new other taken unlike isOpen
    have refused : ¬∃ outcome, r.state.add t senderKey host.clock = .ok outcome := by
      rw [outcomes]
      rintro ⟨_, there | free⟩
      · exact absurd (there.symm.trans new) (by decide)
      · exact unlike (free other taken)
    simp only [effect, addToken_eq made, perform, if_pos isOpen]
    cases added : r.state.add t senderKey host.clock with
    | ok outcome => exact absurd ⟨outcome, added⟩ refused
    | error rejection => exact ⟨rejection, rfl⟩
  · intro isOpen written
    rw [← outcomes]
    simp only [effect, addToken_eq made] at written ⊢
    constructor
    · rintro ⟨added, ok⟩
      obtain ⟨_, outcome, changed, _⟩ := perform_ok ok
      exact ⟨outcome, changed⟩
    · rintro ⟨outcome, changed⟩
      exact ⟨_, perform_of_isWritten isOpen changed written⟩

namespace Sample

/-- A token for `a` from its holder, under an identifier that a token of `b` has. -/
def intrusion : Effect AddedToken :=
  eventful.addToken { clock := 7 } (claims 3 0x61) shared (some ⟨"a"⟩) .selfContained

def renewing : Submission := (Submission.ofClaims (claims 2 0x61) shared .selfContained).toOption.get (by decide +kernel)

def intruding : Submission := (Submission.ofClaims (claims 3 0x61) shared .selfContained).toOption.get (by decide +kernel)

/-- The token of `b`. -/
def held : TokenRecord := ((eventful.state.sweep 7).tokens[intruding.id]?).get (by decide +kernel)

end Sample

/-- The holder of `a` renews the rights of `a`, but cannot take the place of the token of `b`. -/
theorem addToken_displaces_of_renewal :
    Sample.eventful.state.IsSound ∧
    (Sample.eventful.state.sweep 7).Displaces Sample.renewal.repository.state (Sample.claims 2 0x61) (some ⟨"a"⟩)
      Sample.renewing Sample.renewed ∧ Sample.renewed.isUpdate = true ∧
    Sample.held.key = ⟨"b"⟩ ∧ ∃ rejection, Sample.intrusion.result = .error (.rejected rejection) := by
  have sound := Sample.orderly_eventful.isSound_and_isJustAfter.1
  have renews := (addToken_displaces sound { clock := 7 } (Sample.claims 2 0x61) Sample.shared (some ⟨"a"⟩) .selfContained).2
    Sample.renewing (eq_ok_of_toOption (Option.some_get _).symm)
  have intrudes := (addToken_displaces sound { clock := 7 } (Sample.claims 3 0x61) Sample.shared (some ⟨"a"⟩) .selfContained).2
    Sample.intruding (eq_ok_of_toOption (Option.some_get _).symm)
  refine ⟨sound, renews.1 _ (eq_ok_of_toOption (Option.some_get _).symm) (by decide +kernel), by decide +kernel,
    by decide +kernel, ?_⟩
  refine intrudes.2.2.2.1 (by decide +kernel) Sample.held (Option.some_get _).symm ?_ (by decide +kernel)
  rintro ⟨_, own⟩
  exact absurd own (by decide +kernel)

end Repository

end TokenGate
