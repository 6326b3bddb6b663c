import TokenGate.Proofs.Access.Separation
import TokenGate.Proofs.Access.Union

/-!
# More tokens give more access

By a policy, a token only ever adds to what the other tokens of its key give, whether it is meaningful or not: everything that
tokens allow together goes back to one or two of them, which are still there among more tokens. So the decision about a key is
monotone in the tokens that count for it, and an operation is judged by the tokens that count after it. One that is added
without replacing others, one that is removed, and one that is left out because the issuer does not confirm it are three cases
of this.
-/

namespace TokenGate

namespace Entitlement

/-- What some tokens allow, more tokens allow. -/
theorem allow_mono {policy : ScopePolicy} {xs ys : List Entitlement} (more : xs ⊆ ys) {resource : String} {method : Method}
    (allowed : allow policy.validator xs resource method = true) : allow policy.validator ys resource method = true := by
  have still : ∀ {P : Entitlement → Prop}, (∃ e ∈ xs, P e) → ∃ e ∈ ys, P e := fun ⟨e, among, holds⟩ => ⟨e, more among, holds⟩
  rw [allow_eq_true_iff] at allowed ⊢
  obtain named | ⟨groups, group, some, resource, manages, gives⟩ := allowed
  · exact Or.inl (still named)
  · exact Or.inr ⟨groups, group, some, resource, still manages, still gives⟩

/-- More tokens are given at least as much access. -/
theorem decide_mono {policy : ScopePolicy} {xs ys : List Entitlement} (more : xs ⊆ ys) (resource : String) (method : Method) :
    decide policy.validator xs resource method ≤ decide policy.validator ys resource method := by
  refine decide_le_decide fun d earned => ?_
  cases d with
  | unauthorized => trivial
  | forbidden =>
    obtain ⟨e, among⟩ := earned
    exact ⟨e, more among⟩
  | methodNotAllowed =>
    obtain ⟨other, allowed⟩ := earned
    exact ⟨other, allow_mono more allowed⟩
  | allowed => exact allow_mono more earned

end Entitlement

namespace RepositoryState

/-- If the valid tokens of a key are kept, so is what they contribute. -/
theorem IsIndexed.entitlements_subset {s s' : RepositoryState} (indexed : s.IsIndexed) (indexed' : s'.IsIndexed) {key : KeyName}
    {now : UInt64}
    (kept : ∀ (id : TokenId) (record : TokenRecord), record.key = key → record.claims.isValidAt now = true →
      s.tokens[id]? = some record → s'.tokens[id]? = some record) :
    s.entitlements key now ⊆ s'.entitlements key now := by
  intro e among
  obtain ⟨id, record, found, own, valid, same⟩ := indexed.mem_entitlements_iff.mp among
  exact indexed'.mem_entitlements_iff.mpr ⟨id, record, kept id record own valid found, own, valid, same⟩

/-- The more the tokens of a key contribute, the more access they give, also when some are left out because the issuer does not
confirm them. -/
theorem access_mono {s s' : RepositoryState} {key : KeyName} {now : UInt64}
    (more : s.entitlements key now ⊆ s'.entitlements key now) (policy : ScopePolicy) (introspection : Option Introspection)
    (resource : String) (method : Method) :
    s.access policy.validator introspection key resource method now ≤
      s'.access policy.validator introspection key resource method now := by
  cases introspection with
  | none => exact Entitlement.decide_mono more resource method
  | some handler => exact Entitlement.decide_mono (List.filter_subset _ more) resource method

/-- Leaving out the tokens that the issuer does not confirm gives no more access. -/
theorem access_some_le (s : RepositoryState) (policy : ScopePolicy) (handler : Introspection) (key : KeyName) (resource : String)
    (method : Method) (now : UInt64) :
    s.access policy.validator (some handler) key resource method now ≤
      s.access policy.validator none key resource method now :=
  Entitlement.decide_mono (List.filter_subset_self _) resource method

/-- No token is left out unless it was posted by reference. -/
theorem access_some_eq {s : RepositoryState} {key : KeyName} {now : UInt64}
    (own : ∀ e ∈ s.entitlements key now, e.origin = .selfContained) (validator : Validator) (handler : Introspection)
    (resource : String) (method : Method) :
    s.access validator (some handler) key resource method now = s.access validator none key resource method now := by
  have all : (s.entitlements key now).filter (Entitlement.isConfirmed handler now) = s.entitlements key now := by
    refine List.filter_eq_self.mpr fun e among => ?_
    rw [Entitlement.isConfirmed, own e among]
  exact congrArg (Entitlement.decide validator · resource method) all

/-- Adding a token that replaces no other adds to what counts then or later. -/
theorem IsSound.entitlements_subset_withToken {s : RepositoryState} (h : s.IsSound) {t : Submission} {clock now : UInt64}
    (admits : (s.sweep clock).Admits t false) (le : clock ≤ now) (key : KeyName) :
    s.entitlements key now ⊆ ((s.sweep clock).withToken t false).entitlements key now := by
  have swept := h.sweep clock
  rw [← h.entitlements_sweep le key]
  refine swept.indexed.entitlements_subset (swept.withToken admits).indexed fun id record _ _ found => ?_
  exact swept.indexed.tokens_withToken_of_tokens admits found fun updates => Bool.false_ne_true updates.1

/-- Removing a token only takes away from what counts. -/
theorem IsSound.entitlements_removeToken_subset {s : RepositoryState} (h : s.IsSound) (id : TokenId) (key : KeyName)
    (now : UInt64) : (s.removeToken id).entitlements key now ⊆ s.entitlements key now :=
  (h.removeToken id).indexed.entitlements_subset h.indexed fun other record _ _ found =>
    ((h.isWithout_removeToken id).tokens other record).mp found |>.1

end RepositoryState

namespace Repository

open RepositoryState

/-- A repository whose tokens contribute more gives more access. -/
theorem access_le_access {r : Repository} {policy : ScopePolicy} (policed : r.validator = policy.validator)
    {s s' : RepositoryState} {key : KeyName} {now : UInt64} (more : s.entitlements key now ⊆ s'.entitlements key now)
    (introspection : Option Introspection) (resource : String) (method : Method) :
    access { r with state := s } introspection key resource method now ≤
      access { r with state := s' } introspection key resource method now := by
  unfold access visible
  rw [policed]
  cases r.isOpen with
  | true => exact access_mono more policy introspection resource method
  | false => exact le_rfl

/-- The more tokens a key has, the more access it has. A token that is added in addition to the others lowers no decision then or
later, and changes none about another key; one that is removed raises no decision; and neither does it to ask the issuer again,
which only matters for tokens that were posted by reference. -/
theorem access_monotone {r : Repository} {policy : ScopePolicy} (sound : r.state.IsSound)
    (policed : r.validator = policy.validator) (host : Host) :
    (∀ claims shared senderKey origin,
      let addition := r.addToken host claims shared senderKey origin
      (∀ added, addition.result = .ok added → added.isUpdate = false) →
      ∀ introspection key resource method now, host.clock ≤ now →
        r.access introspection key resource method now ≤ addition.repository.access introspection key resource method now ∧
        ((∀ added, addition.result = .ok added → added.key ≠ key) →
          addition.repository.access introspection key resource method now =
            r.access introspection key resource method now)) ∧
    (∀ id introspection key resource method now,
      (r.removeToken host id).repository.access introspection key resource method now ≤
        r.access introspection key resource method now) ∧
    ∀ handler key resource method now,
      r.access (some handler) key resource method now ≤ r.access none key resource method now ∧
      ((∀ (id : TokenId) (record : TokenRecord), r.visible.tokens[id]? = some record → record.key = key →
          record.claims.isValidAt now = true → record.origin = .selfContained) →
        r.access (some handler) key resource method now = r.access none key resource method now) := by
  refine ⟨?_, ?_, ?_⟩
  · intro claims shared senderKey origin addition lone introspection key resource method now le
    cases result : addition.result with
    | error e =>
      rw [show addition.repository = r from addToken_error result]
      exact ⟨le_rfl, fun _ => rfl⟩
    | ok added =>
      obtain ⟨_, t, outcome, _, adds, rfl, counted⟩ := addToken_ok result
      have left : addition.repository = { r with state := outcome.next.getD r.state } := counted
      rw [left]
      cases adds with
      | again known there => exact ⟨le_rfl, fun _ => rfl⟩
      | anew isUpdate decided admits =>
        obtain rfl : isUpdate = false := lone _ result
        refine ⟨access_le_access policed (sound.entitlements_subset_withToken admits le key) introspection resource method, ?_⟩
        intro apart
        have same := (sound.sweep host.clock).entitlements_withToken admits (apart _ rfl) now
        exact decidesAs_of_entitlements (same.trans (sound.entitlements_sweep le key)) introspection resource method
  · intro id introspection key resource method now
    cases result : (r.removeToken host id).result with
    | error e =>
      rw [show (r.removeToken host id).repository = r from perform_error result]
    | ok there =>
      rw [removeToken_ok result]
      exact access_le_access policed (sound.entitlements_removeToken_subset id key now) introspection resource method
  · intro handler key resource method now
    unfold access
    rw [policed]
    refine ⟨access_some_le _ policy handler key resource method now, fun own => access_some_eq ?_ _ handler resource method⟩
    intro e among
    obtain ⟨id, record, found, filed, valid, rfl⟩ := (isSound_visible sound).1.indexed.mem_entitlements_iff.mp among
    exact own id record found filed valid

namespace Sample

/-- A policy by which requesters may post to a group, with a token for its manager. -/
def managed : ScopePolicy where
  groups := some
    { managers := .ofList ["gm"]
      groups := .ofList ["g"]
      roleMethods := .ofList [(Role.requester, .ofList [Method.post])] compare }

/-- A repository by that policy, with a token for a requester that is for another server. -/
def strayed : Repository :=
  let r : Repository := { validator := managed.validator }
  ((r.carryOut {} (.provision (popKey 0x61))).1.addToken {} (RepositoryState.Sample.claims 1 ⟨true, false, false, false⟩) shared
    none .selfContained).repository

theorem isSound_strayed : strayed.state.IsSound :=
  have run : Orderly strayed _ := .add (.other (.start _ none) _ _) _ _ _ _ _
  run.isSound_and_isJustAfter.1

/-- The addition of a token for the manager, with a role that allows nothing, that is posted by reference. -/
def joining : Effect AddedToken :=
  strayed.addToken {} ((RepositoryState.Sample.claims 2 ⟨false, false, true, false⟩).set .aud (.single "gm")) shared none
    (.reference "x")

theorem exists_joining_eq_ok : ∃ added, joining.result = .ok added ∧ added.isUpdate = false ∧ added.key = ⟨"a"⟩ := by
  have done : joining.result.toOption.map (fun added => (added.isUpdate, added.key)) = some (false, ⟨"a"⟩) := by decide +kernel
  obtain ⟨added, ok, same⟩ := Option.map_eq_some_iff.mp done
  exact ⟨added, eq_ok_of_toOption ok, Prod.mk.inj same⟩

end Sample

/-- Neither of two tokens gives access to the group, and the first one is not even meaningful, but both together do until the second
one is removed, or is no longer confirmed. -/
theorem access_monotone_of_stray :
    Sample.managed.isMeaningful (.single "rs1") (.groups [⟨"g", ⟨true, false, false, false⟩⟩]) = false ∧
    (∀ added, Sample.joining.result = .ok added → added.isUpdate = false) ∧
    Sample.strayed.access none ⟨"a"⟩ "ace-group/g" .post 5 = .forbidden ∧
    Sample.joining.repository.access none ⟨"a"⟩ "ace-group/g" .post 5 = .allowed ∧
    Sample.joining.repository.access (some fun _ => .inactive) ⟨"a"⟩ "ace-group/g" .post 5 = .forbidden ∧
    (∀ introspection key resource method now,
      Sample.strayed.access introspection key resource method now ≤
        Sample.joining.repository.access introspection key resource method now) ∧
    (∀ introspection resource method now,
      Sample.joining.repository.access introspection ⟨"b"⟩ resource method now =
        Sample.strayed.access introspection ⟨"b"⟩ resource method now) ∧
    (∀ id introspection key resource method now,
      (Sample.joining.repository.removeToken {} id).repository.access introspection key resource method now ≤
        Sample.joining.repository.access introspection key resource method now) ∧
    ∀ handler resource method now,
      Sample.strayed.access (some handler) ⟨"a"⟩ resource method now = Sample.strayed.access none ⟨"a"⟩ resource method now := by
  obtain ⟨added, ok, lone, own⟩ := Sample.exists_joining_eq_ok
  have only : ∀ other, Sample.joining.result = .ok other → other = added :=
    fun _ again => (Except.ok.inj (ok.symm.trans again)).symm
  have policed : Sample.strayed.validator = Sample.managed.validator := rfl
  have still : Sample.joining.repository.validator = Sample.managed.validator := (addToken_stays ..).validator
  obtain ⟨adding, _, asking⟩ := access_monotone Sample.isSound_strayed policed {}
  obtain ⟨_, removing, _⟩ := access_monotone (addToken_isSound Sample.isSound_strayed ok).1 still {}
  have raised := adding _ _ _ _ fun other again => only other again ▸ lone
  refine ⟨by decide +kernel, fun other again => only other again ▸ lone, by decide +kernel, by decide +kernel, by decide +kernel,
    fun introspection key resource method now => (raised introspection key resource method now UInt64.zero_le).1, ?_, removing, ?_⟩
  · intro introspection resource method now
    refine (raised introspection ⟨"b"⟩ resource method now UInt64.zero_le).2 fun other again => ?_
    rw [only other again, own]
    decide
  · intro handler resource method now
    refine (asking handler ⟨"a"⟩ resource method now).2 fun id record found _ _ => ?_
    have own : Sample.strayed.visible.tokens.toList.all (fun p => p.2.origin = .selfContained) = true := by decide +kernel
    exact of_decide_eq_true
      (List.all_eq_true.mp own _ (Std.ExtTreeMap.mem_toList_iff_getElem?_eq_some.mpr found))

end Repository

end TokenGate
