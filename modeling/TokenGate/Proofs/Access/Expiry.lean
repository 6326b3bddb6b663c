import TokenGate.Proofs.Access.Decisions
import TokenGate.Proofs.Repository.Displacement

/-!
# Ended tokens

A decision leaves out the tokens that are not valid at its time, so that it does not matter to it whether tokens whose validity has
ended are still there. Purging a repository of them takes out these tokens and no others, and is invisible to every later decision,
whatever the application makes of scopes, and whether or not tokens that were posted by reference are asked about again.
-/

namespace TokenGate

/-- A token that is valid at some time has not ended before. -/
theorem Claims.isExpiredAt_of_isValidAt {claims : Claims} {earlier now : UInt64} (le : earlier ≤ now)
    (valid : claims.isValidAt now = true) : claims.isExpiredAt earlier = false := by
  unfold isValidAt at valid
  unfold isExpiredAt
  rw [Bool.and_eq_true] at valid
  cases ends : claims.expiration with
  | none => rfl
  | some last =>
    have running : now < last := by simpa [ends] using valid.2
    rw [Option.any_some, decide_eq_false_iff_not, UInt64.not_le]
    exact UInt64.lt_of_le_of_lt le running

/-- A token has ended exactly if the end of its validity has come. -/
theorem Claims.isExpiredAt_eq_true_iff {claims : Claims} {now : UInt64} :
    claims.isExpiredAt now = true ↔ ∃ last, claims.expiration = some last ∧ last ≤ now := by
  rw [isExpiredAt, Option.any_eq_true]
  simp only [decide_eq_true_eq]

namespace RepositoryState

/-- The sweep takes nothing away that counts then or later. -/
theorem IsSound.entitlements_sweep {s : RepositoryState} (h : s.IsSound) {swept now : UInt64} (le : swept ≤ now)
    (key : KeyName) : (s.sweep swept).entitlements key now = s.entitlements key now := by
  apply h.indexed.entitlements_congr (h.sweep swept).indexed
  intro id record _ valid
  rw [tokens_sweep, and_iff_left (Claims.isExpiredAt_of_isValidAt le valid)]

/-- Every ended token is swept once. -/
theorem nodup_expired (s : RepositoryState) (now : UInt64) : (s.expired now).Nodup := by
  apply List.Pairwise.imp _ (Std.ExtTreeMap.distinct_keys (t := s.tokens.filter fun _ record => record.claims.isExpiredAt now))
  intro a b apart same
  exact apart (compare_eq_eq_iff.mpr same)

/-- The key of a token that stays is as it was. -/
theorem IsWithout.keys_of_tokens {s s' : RepositoryState} {gone : List TokenId} (h : s'.IsWithout s gone) {id : TokenId}
    {record : TokenRecord} (found : s'.tokens[id]? = some record) : s'.keys[record.key]? = s.keys[record.key]? := by
  obtain ⟨there, stays⟩ := (h.tokens id record).mp found
  apply Option.ext
  intro bound
  rw [h.keys]
  exact and_iff_left fun kept => stays (kept.all id record there rfl)

end RepositoryState

namespace Repository

/-- Purging an open repository succeeds, if no write fails. -/
theorem purge_eq_ok {r : Repository} {host : Host} {now : UInt64} (isOpen : r.isOpen = true)
    (written : (r.purge host now).IsWritten) :
    (r.purge host now).result = .ok (r.state.expired now) ∧
      (r.purge host now).repository = { r with state := r.state.sweep now } := by
  have done : ∃ ids, (r.purge host now).result = .ok ids := by
    cases ended : r.state.expired now with
    | nil => exact ⟨_, @perform_of_isWritten _ _ _ _ (.unchanged []) isOpen (by rw [ended]) written⟩
    | cons id ids =>
      exact ⟨_, @perform_of_isWritten _ _ _ _ (.changed (id :: ids) (r.state.sweep now)) isOpen (by rw [ended]) written⟩
  obtain ⟨ids, result⟩ := done
  obtain ⟨rfl, swept⟩ := purge_ok result
  obtain ⟨_, outcome, _, _, counted⟩ := perform_ok result
  have left : (r.purge host now).repository = { r with state := outcome.next.getD r.state } := counted
  refine ⟨result, ?_⟩
  rw [left] at swept ⊢
  exact congrArg (fun state => { r with state }) swept

/-- Tokens may be purged when their validity has ended or be left to the decisions, which comes to the same: the purge takes out the
tokens that have ended by then, and nothing that counts or can be asked for changes for any other token. -/
theorem purge_invisible {r : Repository} (isOpen : r.isOpen = true) (sound : r.state.IsSound) {host : Host} {time : UInt64}
    (written : (r.purge host time).IsWritten) :
    let purged := (r.purge host time).repository
    (∀ introspection key resource method now, time ≤ now →
      purged.access introspection key resource method now = r.access introspection key resource method now) ∧
    ∃ ids, (r.purge host time).result = .ok ids ∧ ids.Nodup ∧
      (∀ id, id ∈ ids ↔ ∃ claims last, r.claims? id = some claims ∧ claims.expiration = some last ∧ last ≤ time) ∧
      (∀ key id, id ∈ purged.tokensOfKey key ↔ id ∈ r.tokensOfKey key ∧ id ∉ ids) ∧
      (∀ id ∈ ids, purged.claims? id = none ∧ purged.keyOfToken? id = none ∧ ∀ later, purged.popKey? later id = none) ∧
      ∀ id ∉ ids, purged.claims? id = r.claims? id ∧ purged.keyOfToken? id = r.keyOfToken? id ∧
        ∀ later, purged.popKey? later id = r.popKey? later id := by
  intro purged
  obtain ⟨result, left⟩ := purge_eq_ok isOpen written
  have without := sound.isWithout_sweep time
  have before : r.visible = r.state := if_pos isOpen
  have after : purged.visible = r.state.sweep time := by
    rw [show purged = _ from left, visible]
    exact if_pos isOpen
  have validator : purged.validator = r.validator := by rw [show purged = _ from left]
  refine ⟨?_, r.state.expired time, result, r.state.nodup_expired time, ?_, ?_, ?_, ?_⟩
  · intro introspection key resource method now le
    rw [Repository.access, Repository.access, before, after, validator]
    exact RepositoryState.access_congr (sound.entitlements_sweep le key) _ introspection resource method
  · intro id
    simp only [RepositoryState.mem_expired_iff, Claims.isExpiredAt_eq_true_iff, claims?, before, Option.map_eq_some_iff]
    constructor
    · rintro ⟨record, found, last, ends, ended⟩
      exact ⟨record.claims, last, ⟨record, found, rfl⟩, ends, ended⟩
    · rintro ⟨claims, last, ⟨record, found, rfl⟩, ends, ended⟩
      exact ⟨record, found, last, ends, ended⟩
  · intro key id
    rw [tokensOfKey, tokensOfKey, before, after, Std.ExtTreeSet.mem_toList, Std.ExtTreeSet.mem_toList]
    exact without.files id key
  · intro id gone
    have absent : (r.state.sweep time).tokens[id]? = none := by
      rw [RepositoryState.sweep, RepositoryState.tokens_foldl_removeToken, if_pos gone]
    refine ⟨?_, ?_, fun later => ?_⟩
    · rw [claims?, after, absent, Option.map_none]
    · rw [keyOfToken?, after, absent, Option.map_none]
    · rw [popKey?, after, absent]
      rfl
  · intro id stays
    have same : (r.state.sweep time).tokens[id]? = r.state.tokens[id]? := by
      rw [RepositoryState.sweep, RepositoryState.tokens_foldl_removeToken, if_neg stays]
    refine ⟨?_, ?_, fun later => ?_⟩
    · rw [claims?, claims?, before, after, same]
    · rw [keyOfToken?, keyOfToken?, before, after, same]
    · rw [popKey?, popKey?, before, after, same]
      cases found : r.state.tokens[id]? with
      | none => rfl
      | some record => simp only [Option.bind_eq_bind, Option.bind_some, without.keys_of_tokens (same.trans found)]

/-- At its very end, one of two tokens of a key is purged. -/
theorem purge_invisible_of_eventful :
    Sample.eventful.isOpen = true ∧ Sample.eventful.state.IsSound ∧ (Sample.eventful.purge {} 5).IsWritten ∧
      Sample.eventful.tokensOfKey ⟨"a"⟩ = [⟨[1]⟩, ⟨[2]⟩] ∧ (Sample.eventful.purge {} 5).result = .ok [⟨[1]⟩] ∧
      (Sample.eventful.purge {} 5).repository.tokensOfKey ⟨"a"⟩ = [⟨[2]⟩] ∧
      ∀ introspection resource method, (Sample.eventful.purge {} 5).repository.access introspection ⟨"a"⟩ resource method 5 =
        Sample.eventful.access introspection ⟨"a"⟩ resource method 5 := by
  have isOpen : Sample.eventful.isOpen = true := by decide +kernel
  have sound := Sample.orderly_eventful.isSound_and_isJustAfter.1
  have result : (Sample.eventful.purge {} 5).result = .ok [⟨[1]⟩] := eq_ok_of_toOption (by decide +kernel)
  have written : (Sample.eventful.purge {} 5).IsWritten := by
    rw [Effect.IsWritten, result]
    exact ⟨nofun, nofun⟩
  refine ⟨isOpen, sound, written, by decide +kernel, result, by decide +kernel, ?_⟩
  intro introspection resource method
  exact (purge_invisible isOpen sound written).1 introspection ⟨"a"⟩ resource method 5 (UInt64.le_refl 5)

end Repository

end TokenGate
