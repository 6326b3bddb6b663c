import TokenGate.Proofs.Access.Endurance
import TokenGate.Proofs.Access.Union
import TokenGate.Proofs.GroupScopes

/-!
# What a meaningful scope gives

Before a token is admitted, its scope is only looked up: a permission name has to be in the table, and a group has to have a
resource. Whether any method goes with them is not asked. A policy may list a name or a role without one, and a token for it is
then admitted that gives no access. Every other meaningful token does.
-/

namespace TokenGate

namespace GroupPolicy

/-- The membership resource of a group is the group's own. -/
theorem groupOf?_membershipResource {policy : GroupPolicy} {group : String} (known : policy.hasMembershipResource group = true) :
    policy.groupOf? (policy.membershipResource group) = some group := by
  have listed : policy.groups.contains group = true := known
  have path : (policy.root.toList ++ ['/']).isPrefixOf? (policy.membershipResource group).toList = some group.toList := by
    rw [List.isPrefixOf?_eq_some_iff_append_eq]
    simp [membershipResource]
  simp only [groupOf?, path, String.ofList_toList, listed, if_true]

end GroupPolicy

/-- A group scope that is read from a claim gives a role in some group. -/
theorem Scope.exists_role_of_ofClaim {claim : ScopeClaim} {entries : List GroupEntry}
    (parsed : Scope.ofClaim claim = .ok (.groups entries)) :
    ∃ entry ∈ entries, ∃ role, entry.roles.contains role = true := by
  cases claim with
  | text s =>
    unfold Scope.ofClaim at parsed
    dsimp only at parsed
    split at parsed <;> nomatch parsed
  | binary bs =>
    have read : GroupEntry.decode bs = .ok entries := by
      unfold Scope.ofClaim at parsed
      dsimp only at parsed
      cases read : GroupEntry.decode bs with
      | error rejection =>
        rw [read] at parsed
        nomatch parsed
      | ok others =>
        rw [read] at parsed
        cases parsed
        rfl
    obtain ⟨nonempty, _, given⟩ := GroupEntry.decode_eq_ok_iff.mp read
    obtain ⟨entry, among⟩ := List.exists_mem_of_ne_nil _ nonempty
    have some : entry.roles.toList ≠ [] := List.isEmpty_eq_false_iff.mp (given entry among)
    obtain ⟨role, listed⟩ := List.exists_mem_of_ne_nil _ some
    exact ⟨entry, among, role, Roles.mem_toList.mp listed⟩

namespace ScopePolicy

variable {policy : ScopePolicy} {audience : Audience} {scope : Scope}

/-- Whether some part of a scope goes with a method: one of its permission names, or a role that it gives in some group. -/
def Offers (policy : ScopePolicy) : Scope → Prop
  | .names names => ∃ name ∈ names, ∃ g ∈ policy.grants, g.name = name ∧ g.methods ≠ []
  | .groups entries => ∃ groups, policy.groups = some groups ∧
      ∃ entry ∈ entries, ∃ role method, entry.roles.contains role = true ∧ groups.allows role method = true

/-- A policy in which some method goes with every permission name, and with every role. -/
structure IsFilled (policy : ScopePolicy) : Prop where
  grants : ∀ g ∈ policy.grants, g.methods ≠ []
  roles : ∀ groups, policy.groups = some groups → ∀ role, ∃ method, groups.allows role method = true

/-- A policy permits what one of its grants names, if it applies to the audience at all. -/
theorem permits_eq_true_iff {name resource : String} {method : Method} :
    policy.permits audience name resource method = true ↔
      policy.appliesTo audience = true ∧
        ∃ g ∈ policy.grants, g.name = name ∧ g.resource = resource ∧ method ∈ g.methods := by
  simp [permits, and_assoc]

/-- A meaningful scope licenses a method on some resource exactly if one goes with some part of it. -/
theorem exists_licenses_iff (meaningful : policy.isMeaningful audience scope = true) :
    (∃ resource method, policy.Licenses audience scope resource method) ↔ policy.Offers scope := by
  cases scope with
  | names names =>
    rw [isMeaningful, Bool.and_eq_true] at meaningful
    simp only [Licenses, Offers, permits_eq_true_iff]
    constructor
    · rintro ⟨resource, method, name, listed, _, g, among, named, _, given⟩
      exact ⟨name, listed, g, among, named, List.ne_nil_of_mem given⟩
    · rintro ⟨name, listed, g, among, named, some⟩
      obtain ⟨method, given⟩ := List.exists_mem_of_ne_nil _ some
      exact ⟨g.resource, method, name, listed, meaningful.1, g, among, named, rfl, given⟩
  | groups entries =>
    rw [isMeaningful, Option.any_eq_true] at meaningful
    obtain ⟨groups, managed, meaningful⟩ := meaningful
    rw [Bool.and_eq_true, List.all_eq_true] at meaningful
    obtain ⟨manager, known⟩ := meaningful
    simp only [Licenses, Offers, permitsGroup_eq_true_iff]
    constructor
    · rintro ⟨_, method, entry, among, groups, managed, _, _, role, given, allows⟩
      exact ⟨groups, managed, entry, among, role, method, given, allows⟩
    · rintro ⟨groups', managed', entry, among, role, method, given, allows⟩
      cases managed.symm.trans managed'
      exact ⟨groups.membershipResource entry.group, method, entry, among, groups, managed, manager,
        GroupPolicy.groupOf?_membershipResource (known entry among), role, given, allows⟩

/-- If a method goes with everything, it goes with every meaningful scope that a claim can have. -/
theorem IsFilled.offers (filled : policy.IsFilled) {claim : ScopeClaim} (parsed : Scope.ofClaim claim = .ok scope)
    (meaningful : policy.isMeaningful audience scope = true) : policy.Offers scope := by
  cases scope with
  | names names =>
    rw [isMeaningful, Bool.and_eq_true, List.any_eq_true] at meaningful
    obtain ⟨_, name, listed, named⟩ := meaningful
    obtain ⟨g, among, named⟩ := List.any_eq_true.mp named
    exact ⟨name, listed, g, among, eq_of_beq named, filled.grants g among⟩
  | groups entries =>
    rw [isMeaningful, Option.any_eq_true] at meaningful
    obtain ⟨groups, managed, _⟩ := meaningful
    obtain ⟨entry, among, role, given⟩ := Scope.exists_role_of_ofClaim parsed
    obtain ⟨method, allows⟩ := filled.roles groups managed role
    exact ⟨groups, managed, entry, among, role, method, given, allows⟩

/-- A token with a meaningful scope, as the only one of its key, gives access to something exactly if a method goes with some part
of the scope. -/
theorem exists_allowed_iff {e : Entitlement} (meaningful : policy.isMeaningful e.audience e.scope = true) :
    (∃ resource method, Entitlement.decide policy.validator [e] resource method = .allowed) ↔ policy.Offers e.scope := by
  have only : ∀ e' ∈ [e], policy.isMeaningful e'.audience e'.scope = true := by
    intro e' same
    rw [List.mem_singleton.mp same]
    exact meaningful
  rw [← exists_licenses_iff meaningful]
  refine exists_congr fun resource => exists_congr fun method => ?_
  simp [Entitlement.decide_eq_allowed_iff only]

end ScopePolicy

namespace Endpoint

/-- Claims that pass the checks of an endpoint are valid at the time. -/
theorem isValidAt_of_validate {e : Endpoint} {claims : Claims} {now : UInt64} (h : e.validate claims now = .ok ()) :
    claims.isValidAt now = true := by
  have alive := not_isExpiredAt_of_validate h
  have begun : claims.notBefore.any (now < ·) = false := by
    unfold validate at h
    by_contra later
    rw [Bool.not_eq_false] at later
    simp only [later, if_true] at h
    split at h
    · nomatch h
    · split at h <;> nomatch h
  rw [Claims.isValidAt, Bool.and_eq_true, Option.all_eq_true, Option.all_eq_true]
  constructor
  · intro start begins
    simpa [begins] using begun
  · intro ending ends
    simpa [Claims.isExpiredAt, ends] using alive

/-- The token of an admitted message is valid, and has a scope that is meaningful for its audience. -/
theorem Receives.holds_meaningful {e : Endpoint} {message : Message} {before after : Server} {admitted : AdmittedToken}
    (h : e.Receives message before (.ok admitted) after) (works : before.Works) (sound : before.repository.state.IsSound) :
    ∃ record, after.Holds admitted.id record ∧ record.claims.isValidAt before.host.clock = true ∧
      e.validator.isMeaningful (Entitlement.ofRecord record).audience record.scope = true := by
  obtain ⟨claims, origin, t, record, presents, holds, same, _⟩ := h.holds works sound
  obtain ⟨_, audience, claim, scope, present, _, given, parsed, meaningful⟩ := of_validate presents.valid
  have ends : record.claims.expiration = claims.expiration := same .exp (by decide) (by decide)
  have begins : record.claims.notBefore = claims.notBefore := same .nbf (by decide) (by decide)
  have aud : record.claims.audience = some audience := (same .aud (by decide) (by decide)).trans present
  have stated := (holds.sound.own _ _ holds.found).scope
  rw [show record.claims.scope = some claim from (same .scope (by decide) (by decide)).trans given, Option.map_some,
    parsed, Option.some.injEq, Except.ok.injEq] at stated
  refine ⟨record, holds, ?_, ?_⟩
  · rw [Claims.isValidAt, begins, ends]
    exact isValidAt_of_validate presents.valid
  · rw [Entitlement.ofRecord, aud, Option.getD_some, ← stated]
    exact meaningful

end Endpoint

namespace ScopePolicy

/-- What a meaningful scope gives to the holder of a token, on its own or along with other tokens, is up to whether a method goes
with some part of it, and in a policy in which one goes with everything it always gives something. The tokens that are admitted are
no exception: each has a meaningful scope and is valid, but without a method it gives no access to anything at any time. -/
theorem grants_iff_offers (policy : ScopePolicy) :
    (∀ e : Entitlement, policy.isMeaningful e.audience e.scope = true →
      ((∃ resource method, Entitlement.decide policy.validator [e] resource method = .allowed) ↔ policy.Offers e.scope)) ∧
    (policy.IsFilled → ∀ claim e, Scope.ofClaim claim = .ok e.scope → policy.isMeaningful e.audience e.scope = true →
      ∃ resource method, Entitlement.decide policy.validator [e] resource method = .allowed) ∧
    ∀ e : Endpoint, e.profile.IsStandard → e.validator = policy.validator →
      ∀ server : Server, server.repository.state.IsSound → server.repository.Saves server.host → server.repository.IsStored →
      server.repository.validator = policy.validator →
      ∀ message admitted, (e.receive message server).1.result = .ok admitted →
      ∃ record, (e.receive message server).2.repository.state.tokens[admitted.id]? = some record ∧
        record.claims.isValidAt server.host.clock = true ∧
        policy.isMeaningful (Entitlement.ofRecord record).audience record.scope = true ∧
        (policy.Offers record.scope → ∃ resource method, ∀ now, record.claims.isValidAt now = true →
          (e.receive message server).2.repository.access none record.key resource method now = .allowed) ∧
        ∀ now, record.claims.isValidAt now = true →
          ((∃ resource method, ((e.receive message server).2.repository.state.withOnly admitted.id record).access policy.validator
            none record.key resource method now = .allowed) ↔ policy.Offers record.scope) := by
  refine ⟨fun e => exists_allowed_iff, ?_, ?_⟩
  · intro filled claim e parsed meaningful
    exact (exists_allowed_iff meaningful).mpr (filled.offers parsed meaningful)
  · intro e standard checked server sound saves stored policed message admitted result
    obtain ⟨_, adds, _, _⟩ := Endpoint.admits_of_receive standard.isTame result
    have works : server.Works := ⟨(Repository.addToken_ok adds).1, saves, stored⟩
    have receives := Endpoint.receive_receives standard message sound saves stored
    rw [result] at receives
    obtain ⟨record, holds, valid, meaningful⟩ := receives.holds_meaningful works sound
    rw [checked] at meaningful
    refine ⟨record, holds.found, valid, meaningful, ?_, ?_⟩
    · intro offers
      obtain ⟨resource, method, licenses⟩ := (exists_licenses_iff meaningful).mpr offers
      exact ⟨resource, method, fun now valid => holds.access (receives.stays.validator.trans policed) valid licenses⟩
    · intro now valid
      refine Iff.trans ?_ (exists_allowed_iff (e := .ofRecord record) meaningful)
      refine exists_congr fun resource => exists_congr fun method => ?_
      rw [holds.sound.access_withOnly policy holds.found valid resource method]

namespace Sample

/-- A policy with a permission name that nothing may be done with, in which requesters alone may do something in the group. -/
def barren : ScopePolicy where
  grants := [⟨"r_temp", "temp", []⟩]
  groups := some { groups := .ofList ["g"], roleMethods := .ofList [(Role.requester, .ofList [Method.post])] compare }

def endpoint : Endpoint := { Endpoint.Sample.endpoint with validator := barren.validator }

def server : Server :=
  { Endpoint.Sample.server with repository := { Repository.Sample.repository with validator := barren.validator } }

/-- A token with the permission name, and one for a monitor of the group. -/
def named : Entitlement := ⟨.single "rs1", .names ["r_temp"], .selfContained⟩

def monitor : Entitlement := ⟨.single "gm", .groups [⟨"g", ⟨false, false, true, false⟩⟩], .selfContained⟩

/-- A grant without methods offers nothing. -/
theorem not_offers_named : ¬barren.Offers named.scope := by
  rintro ⟨name, _, g, among, _, some⟩
  rw [List.mem_singleton.mp among] at some
  exact some rfl

theorem not_offers_monitor : ¬barren.Offers monitor.scope := by
  rintro ⟨groups, same, entry, among, role, method, given, allows⟩
  cases same
  rw [List.mem_singleton.mp among] at given
  cases role with
  | monitor => cases method <;> exact absurd allows (by decide)
  | _ => nomatch given

end Sample

/-- Both tokens are meaningful, and neither gives access to anything, not even if it is admitted; with a method for the name, the
first one does. -/
theorem grants_iff_offers_of_barren :
    Sample.barren.isMeaningful Sample.named.audience Sample.named.scope = true ∧
    (¬∃ resource method, Entitlement.decide Sample.barren.validator [Sample.named] resource method = .allowed) ∧
    Sample.barren.isMeaningful Sample.monitor.audience Sample.monitor.scope = true ∧
    (¬∃ resource method, Entitlement.decide Sample.barren.validator [Sample.monitor] resource method = .allowed) ∧
    (∃ resource method, Entitlement.decide Endpoint.Sample.policy.validator [Sample.named] resource method = .allowed) ∧
    ∃ admitted record, (Sample.endpoint.receive Endpoint.Sample.known Sample.server).1.result = .ok admitted ∧
      (Sample.endpoint.receive Endpoint.Sample.known Sample.server).2.repository.state.tokens[admitted.id]? = some record ∧
      record.claims.isValidAt 0 = true ∧
      ¬∃ resource method, ((Sample.endpoint.receive Endpoint.Sample.known Sample.server).2.repository.state.withOnly admitted.id
        record).access Sample.barren.validator none record.key resource method 0 = .allowed := by
  obtain ⟨apart, _, admits⟩ := grants_iff_offers Sample.barren
  obtain ⟨_, filled, _⟩ := grants_iff_offers Endpoint.Sample.policy
  have named : Sample.barren.isMeaningful Sample.named.audience Sample.named.scope = true := by decide +kernel
  have monitor : Sample.barren.isMeaningful Sample.monitor.audience Sample.monitor.scope = true := by decide +kernel
  refine ⟨named, fun given => Sample.not_offers_named ((apart _ named).mp given), monitor,
    fun given => Sample.not_offers_monitor ((apart _ monitor).mp given), ?_, ?_⟩
  · refine filled ⟨by decide, nofun⟩ (.text "r_temp") Sample.named ?_ (by decide +kernel)
    rfl
  · have done : (Sample.endpoint.receive Endpoint.Sample.known Sample.server).1.result.toOption.map (·.id) = some ⟨[1]⟩ := by
      decide +kernel
    obtain ⟨admitted, ok, id⟩ := Option.map_eq_some_iff.mp done
    have result := Repository.eq_ok_of_toOption ok
    have sound : Sample.server.repository.state.IsSound :=
      show Repository.Sample.repository.state.IsSound from Repository.Sample.orderly_repository.isSound_and_isJustAfter.1
    obtain ⟨record, found, valid, _, _, gives⟩ := admits Sample.endpoint .dtls rfl Sample.server sound nofun nofun rfl _ _ result
    have scope : ((Sample.endpoint.receive Endpoint.Sample.known Sample.server).2.repository.state.tokens[admitted.id]?).map
        (·.scope) = some Sample.named.scope := by
      rw [id]
      decide +kernel
    rw [found, Option.map_some, Option.some.injEq] at scope
    refine ⟨admitted, record, result, found, valid, fun given => Sample.not_offers_named ?_⟩
    rw [← scope]
    exact (gives 0 valid).mp given

end ScopePolicy

end TokenGate
