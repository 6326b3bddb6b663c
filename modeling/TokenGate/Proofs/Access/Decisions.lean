import Mathlib.Data.List.Basic
import TokenGate.Proofs.Repository.Index
import TokenGate.Repository.Decision

/-!
# Decisions by a policy

A decision puts the tokens of a key together: the roles that they give in a group are united, and so are their audiences. By a
policy this gives no more than some token does on its own, provided that every token is meaningful. Without the proviso it
would: roles in a token that is not for a group manager would count along with the audience of one that is.
-/

namespace TokenGate

/-- Whether a scope of a token for an audience allows a method on a resource, by a single one of its names or groups. -/
def ScopePolicy.Licenses (policy : ScopePolicy) (audience : Audience) (scope : Scope) (resource : String) (method : Method) :
    Prop :=
  match scope with
  | .names names => ∃ name ∈ names, policy.permits audience name resource method = true
  | .groups entries => ∃ entry ∈ entries, policy.permitsGroup audience entry.group entry.roles resource method = true

/-! ## Roles -/

namespace Roles

/-- The roles that are listed are those in the set. -/
theorem mem_toList {roles : Roles} {role : Role} : role ∈ roles.toList ↔ roles.contains role = true := by
  rw [toList, List.mem_filter, and_iff_right (Role.mem_all role)]

/-- A role is in a union of sets if it is in one of them. -/
theorem contains_foldl_union {α : Type} (f : α → Roles) (xs : List α) (start : Roles) (role : Role) :
    (xs.foldl (fun roles x => roles ∪ f x) start).contains role = true ↔
      start.contains role = true ∨ ∃ x ∈ xs, (f x).contains role = true := by
  induction xs generalizing start with
  | nil => simp
  | cons x xs ih =>
    rw [List.foldl_cons, ih, contains_union, Bool.or_eq_true, or_assoc]
    simp only [List.mem_cons, exists_eq_or_imp]

theorem not_contains_none (role : Role) : ¬none.contains role = true := by
  cases role <;> exact Bool.false_ne_true

end Roles

/-! ## Group managers -/

namespace GroupPolicy

/-- An audience put together of several is one for a manager if one of them is. -/
theorem isManager_flatMap (policy : GroupPolicy) {α : Type} (names : α → List String) (xs : List α) (nonempty : xs ≠ []) :
    policy.isManager (.multiple (xs.flatMap names)) = true ↔ ∃ x ∈ xs, policy.isManager (.multiple (names x)) = true := by
  simp only [isManager, Audience.names, Bool.or_eq_true, List.any_flatMap, List.any_eq_true]
  constructor
  · rintro (any | ⟨x, among, named⟩)
    · obtain ⟨x, among⟩ := List.exists_mem_of_ne_nil xs nonempty
      exact ⟨x, among, Or.inl any⟩
    · exact ⟨x, among, Or.inr named⟩
  · rintro ⟨x, among, any | named⟩
    · exact Or.inl any
    · exact Or.inr ⟨x, among, named⟩

end GroupPolicy

/-- Roles in a group allow a method on the group's own resource, to those for its manager, if one of them does. -/
theorem ScopePolicy.permitsGroup_eq_true_iff {policy : ScopePolicy} {audience : Audience} {group : String} {roles : Roles}
    {resource : String} {method : Method} :
    policy.permitsGroup audience group roles resource method = true ↔
      ∃ groups : GroupPolicy, policy.groups = some groups ∧ groups.isManager audience = true ∧
        groups.groupOf? resource = some group ∧ ∃ role, roles.contains role = true ∧ groups.allows role method = true := by
  simp only [permitsGroup, Option.any_eq_true, Bool.and_eq_true, beq_iff_eq, List.any_eq_true, Roles.mem_toList, and_assoc]

/-! ## Several tokens -/

namespace Entitlement

/-- Roles in a group allow a method if one of the entries for the group gives a role that does, and one of them is for a
manager. -/
theorem allowsInGroup_eq_true_iff {policy : ScopePolicy} {resource : String} {method : Method}
    {entries : List (GroupEntry × List String)} {group : String} :
    allowsInGroup policy.validator resource method entries group = true ↔
      ∃ groups : GroupPolicy, policy.groups = some groups ∧ groups.groupOf? resource = some group ∧
        (∃ p ∈ entries, p.1.group = group ∧ groups.isManager (.multiple p.2) = true) ∧
        ∃ p ∈ entries, p.1.group = group ∧ ∃ role, p.1.roles.contains role = true ∧ groups.allows role method = true := by
  change policy.permitsGroup (.multiple ((entries.filter fun p => p.1.group == group).flatMap (·.2))) group
    ((entries.filter fun p => p.1.group == group).foldl (fun roles p => roles ∪ p.1.roles) Roles.none) resource method =
      true ↔ _
  have own : ∀ p : GroupEntry × List String,
      p ∈ (entries.filter fun p => p.1.group == group) ↔ p ∈ entries ∧ p.1.group = group := by
    intro p
    rw [List.mem_filter, beq_iff_eq]
  generalize (entries.filter fun p => p.1.group == group) = ofGroup at own
  have roles : ∀ role, (ofGroup.foldl (fun roles p => roles ∪ p.1.roles) Roles.none).contains role = true ↔
      ∃ p ∈ ofGroup, p.1.roles.contains role = true := by
    intro role
    rw [Roles.contains_foldl_union (fun p : GroupEntry × List String => p.1.roles) ofGroup Roles.none role,
      or_iff_right (Roles.not_contains_none role)]
  refine Iff.trans ScopePolicy.permitsGroup_eq_true_iff ?_
  constructor
  · rintro ⟨groups, some, manager, resource, role, given, allows⟩
    obtain ⟨p, among, given⟩ := (roles role).mp given
    obtain ⟨q, among', manager⟩ := (groups.isManager_flatMap (·.2) ofGroup (List.ne_nil_of_mem among)).mp manager
    obtain ⟨there, same⟩ := (own p).mp among
    obtain ⟨there', same'⟩ := (own q).mp among'
    exact ⟨groups, some, resource, ⟨q, there', same', manager⟩, p, there, same, role, given, allows⟩
  · rintro ⟨groups, some, resource, ⟨q, there', same', manager⟩, p, there, same, role, given, allows⟩
    have among := (own p).mpr ⟨there, same⟩
    refine ⟨groups, some, ?_, resource, role, (roles role).mpr ⟨p, among, given⟩, allows⟩
    exact (groups.isManager_flatMap (·.2) ofGroup (List.ne_nil_of_mem among)).mpr ⟨q, (own q).mpr ⟨there', same'⟩, manager⟩

/-- Every entry of a token comes with the names of the token's audience. -/
theorem mem_groupEntries {e : Entitlement} {p : GroupEntry × List String} :
    p ∈ e.groupEntries ↔ (∃ entries, e.scope = .groups entries ∧ p.1 ∈ entries) ∧ p.2 = e.audience.names := by
  unfold groupEntries
  cases e.scope with
  | names names => simp
  | groups entries =>
    obtain ⟨entry, names⟩ := p
    simp only [List.mem_map, Prod.mk.injEq, Scope.groups.injEq, exists_eq_left']
    constructor
    · rintro ⟨_, listed, rfl, rfl⟩
      exact ⟨listed, rfl⟩
    · rintro ⟨listed, rfl⟩
      exact ⟨entry, listed, rfl, rfl⟩

/-- What one token licenses, the tokens allow together. -/
theorem allow_of_licenses {policy : ScopePolicy} {tokens : List Entitlement} {resource : String} {method : Method}
    {e : Entitlement} (among : e ∈ tokens) (licenses : policy.Licenses e.audience e.scope resource method) :
    allow policy.validator tokens resource method = true := by
  unfold allow
  rw [Bool.or_eq_true, List.any_eq_true, List.any_eq_true]
  unfold ScopePolicy.Licenses at licenses
  cases scope : e.scope with
  | names names =>
    rw [scope] at licenses
    obtain ⟨name, listed, permits⟩ := licenses
    refine Or.inl ⟨e, among, ?_⟩
    rw [allowsByName, scope]
    exact List.any_eq_true.mpr ⟨name, listed, permits⟩
  | groups entries =>
    rw [scope] at licenses
    obtain ⟨entry, listed, permits⟩ := licenses
    obtain ⟨groups, some, manager, resource, role, given, allows⟩ := ScopePolicy.permitsGroup_eq_true_iff.mp permits
    have there : (entry, e.audience.names) ∈ tokens.flatMap groupEntries :=
      List.mem_flatMap.mpr ⟨e, among, mem_groupEntries.mpr ⟨⟨entries, scope, listed⟩, rfl⟩⟩
    refine Or.inr ⟨_, there, allowsInGroup_eq_true_iff.mpr ⟨groups, some, resource, ?_, ?_⟩⟩
    · exact ⟨_, there, rfl, manager⟩
    · exact ⟨_, there, rfl, role, given, allows⟩

/-- What one token licenses, it gives access to, whatever other tokens there are. -/
theorem decide_of_licenses {policy : ScopePolicy} {tokens : List Entitlement} {resource : String} {method : Method}
    {e : Entitlement} (among : e ∈ tokens) (licenses : policy.Licenses e.audience e.scope resource method) :
    decide policy.validator tokens resource method = .allowed := by
  have nonempty : tokens.isEmpty = false := List.isEmpty_eq_false_iff.mpr (List.ne_nil_of_mem among)
  unfold decide
  rw [nonempty, if_neg Bool.false_ne_true, if_pos (allow_of_licenses among licenses)]

/-- What tokens allow together, one of them licenses, if those for groups are meaningful. -/
theorem exists_licenses_of_allow {policy : ScopePolicy} {tokens : List Entitlement}
    (meaningful : ∀ e ∈ tokens, ∀ entries, e.scope = .groups entries → policy.isMeaningful e.audience e.scope = true)
    {resource : String} {method : Method}
    (h : allow policy.validator tokens resource method = true) :
    ∃ e ∈ tokens, policy.Licenses e.audience e.scope resource method := by
  unfold allow at h
  rw [Bool.or_eq_true, List.any_eq_true, List.any_eq_true] at h
  rcases h with ⟨e, among, named⟩ | ⟨⟨entry, _⟩, _, grouped⟩
  · refine ⟨e, among, ?_⟩
    unfold allowsByName at named
    unfold ScopePolicy.Licenses
    cases scope : e.scope with
    | names names =>
      rw [scope] at named
      exact List.any_eq_true.mp named
    | groups entries =>
      rw [scope] at named
      nomatch named
  · -- The token that gives the role is for a manager itself, whoever else is.
    obtain ⟨groups, some, resource, _, ⟨entry', _⟩, there, same, role, given, allows⟩ := allowsInGroup_eq_true_iff.mp grouped
    obtain ⟨e, among, listed⟩ := List.mem_flatMap.mp there
    obtain ⟨⟨entries, scope, listed⟩, _⟩ := mem_groupEntries.mp listed
    refine ⟨e, among, ?_⟩
    have manager : groups.isManager e.audience = true := by
      have meaning := meaningful e among entries scope
      rw [scope, ScopePolicy.isMeaningful, some, Option.any_some, Bool.and_eq_true] at meaning
      exact meaning.1
    unfold ScopePolicy.Licenses
    rw [scope]
    refine ⟨entry', listed, ScopePolicy.permitsGroup_eq_true_iff.mpr ⟨groups, some, manager, ?_, role, given, allows⟩⟩
    rw [same]
    exact resource

/-- Meaningful tokens give access exactly if one of them does. -/
theorem decide_eq_allowed_iff {policy : ScopePolicy} {tokens : List Entitlement}
    (meaningful : ∀ e ∈ tokens, policy.isMeaningful e.audience e.scope = true) {resource : String} {method : Method} :
    decide policy.validator tokens resource method = .allowed ↔
      ∃ e ∈ tokens, policy.Licenses e.audience e.scope resource method := by
  constructor
  · intro h
    cases allowed : allow policy.validator tokens resource method with
    | true => exact exists_licenses_of_allow (fun e among _ _ => meaningful e among) allowed
    | false =>
      unfold decide at h
      rw [allowed, if_neg Bool.false_ne_true] at h
      split at h
      · nomatch h
      · split at h
        · nomatch h
        · nomatch h
  · rintro ⟨e, among, licenses⟩
    exact decide_of_licenses among licenses

end Entitlement

/-! ## The tokens of a key -/

namespace RepositoryState

/-- Tokens count for the key they are bound to, while they are valid. -/
theorem IsIndexed.mem_entitlements_iff {s : RepositoryState} (indexed : s.IsIndexed) {key : KeyName} {now : UInt64}
    {e : Entitlement} :
    e ∈ s.entitlements key now ↔ ∃ (id : TokenId) (record : TokenRecord), s.tokens[id]? = some record ∧ record.key = key ∧
      record.claims.isValidAt now = true ∧ .ofRecord record = e := by
  unfold entitlements
  simp only [List.mem_filterMap, Std.ExtTreeSet.mem_toList, Option.ite_none_right_eq_some, Option.some.injEq]
  constructor
  · rintro ⟨record, ⟨id, filed, found⟩, valid, same⟩
    obtain ⟨record', found', own⟩ := (indexed id key).mp filed
    rw [found] at found'
    cases found'
    exact ⟨id, record, found, own, valid, same⟩
  · rintro ⟨id, record, found, own, valid, same⟩
    exact ⟨record, ⟨id, (indexed id key).mpr ⟨record, found, own⟩, found⟩, valid, same⟩

/-- The identifiers of the tokens of a key that are valid at a time. -/
def validIdsOf (s : RepositoryState) (key : KeyName) (now : UInt64) : Std.ExtTreeSet TokenId :=
  (s.idsOf key).filter fun id => (s.tokens[id]?).any (·.claims.isValidAt now)

/-- In a state that files tokens properly, the valid tokens of a key are those bound to it and valid. -/
theorem IsIndexed.mem_validIdsOf {s : RepositoryState} (indexed : s.IsIndexed) {key : KeyName} {now : UInt64} {id : TokenId} :
    id ∈ s.validIdsOf key now ↔ ∃ record : TokenRecord, s.tokens[id]? = some record ∧ record.key = key ∧
      record.claims.isValidAt now = true := by
  simp only [validIdsOf, Std.ExtTreeSet.mem_filter, Std.ExtTreeSet.get_eq, Option.any_eq_true, exists_prop, indexed id key]
  constructor
  · rintro ⟨⟨record, found, own⟩, other, again, valid⟩
    rw [found] at again
    cases again
    exact ⟨record, found, own, valid⟩
  · rintro ⟨record, found, own, valid⟩
    exact ⟨⟨record, found, own⟩, record, found, valid⟩

/-- What the tokens of a key contribute, in the order of their identifiers. -/
theorem entitlements_eq (s : RepositoryState) (key : KeyName) (now : UInt64) :
    s.entitlements key now = (s.validIdsOf key now).toList.filterMap fun id => (s.tokens[id]?).map .ofRecord := by
  rw [entitlements, validIdsOf, List.filterMap_filterMap, Std.ExtTreeSet.toList_filter, List.filterMap_filter]
  congr 1
  funext id
  cases s.tokens[id]? with
  | none => rfl
  | some record => simp only [Option.bind_some, Option.any_some, Option.map_some]

/-- What the tokens of a key contribute depends on those that are bound to it and valid at the time, and on no others. It is the
same list, in the same order, on which decisions that are not by a policy may depend. -/
theorem IsIndexed.entitlements_congr {s s' : RepositoryState} (indexed : s.IsIndexed) (indexed' : s'.IsIndexed) {key : KeyName}
    {now : UInt64}
    (same : ∀ (id : TokenId) (record : TokenRecord), record.key = key → record.claims.isValidAt now = true →
      (s'.tokens[id]? = some record ↔ s.tokens[id]? = some record)) :
    s'.entitlements key now = s.entitlements key now := by
  have ids : s'.validIdsOf key now = s.validIdsOf key now := by
    apply Std.ExtTreeSet.ext_mem
    intro id
    rw [indexed'.mem_validIdsOf, indexed.mem_validIdsOf]
    refine exists_congr fun record => and_congr_left ?_
    rintro ⟨own, valid⟩
    exact same id record own valid
  rw [entitlements_eq, entitlements_eq, ids]
  apply List.filterMap_congr
  intro id among
  obtain ⟨record, found, own, valid⟩ := indexed.mem_validIdsOf.mp (Std.ExtTreeSet.mem_toList.mp among)
  rw [found, (same id record own valid).mpr found]

/-- A decision follows from what the tokens of the key contribute. -/
theorem access_congr {s s' : RepositoryState} {key : KeyName} {now : UInt64}
    (same : s'.entitlements key now = s.entitlements key now) (validator : Validator) (introspection : Option Introspection)
    (resource : String) (method : Method) :
    s'.access validator introspection key resource method now = s.access validator introspection key resource method now := by
  unfold access
  rw [same]

/-- If all tokens of a key are meaningful, access is only given for one of them that is valid and licenses it. -/
theorem IsSound.exists_licenses_of_access {s : RepositoryState} (sound : s.IsSound) {policy : ScopePolicy} {key : KeyName}
    (meaningful : ∀ (id : TokenId) (record : TokenRecord), s.tokens[id]? = some record →
      policy.isMeaningful (Entitlement.ofRecord record).audience record.scope = true)
    {introspection : Option Introspection} {resource : String} {method : Method} {now : UInt64}
    (allowed : s.access policy.validator introspection key resource method now = .allowed) :
    ∃ (id : TokenId) (record : TokenRecord), s.tokens[id]? = some record ∧ record.key = key ∧
      record.claims.isValidAt now = true ∧
      policy.Licenses (Entitlement.ofRecord record).audience record.scope resource method := by
  have counted : ∃ tokens, (∀ e ∈ tokens, e ∈ s.entitlements key now) ∧
      Entitlement.decide policy.validator tokens resource method = .allowed := by
    unfold access at allowed
    cases introspection with
    | none => exact ⟨_, fun _ among => among, allowed⟩
    | some handler => exact ⟨_, fun _ among => (List.mem_filter.mp among).1, allowed⟩
  obtain ⟨tokens, among, allowed⟩ := counted
  have each : ∀ e ∈ tokens, policy.isMeaningful e.audience e.scope = true := by
    intro e listed
    obtain ⟨id, record, found, _, _, rfl⟩ := sound.indexed.mem_entitlements_iff.mp (among e listed)
    exact meaningful id record found
  obtain ⟨e, listed, licenses⟩ := (Entitlement.decide_eq_allowed_iff each).mp allowed
  obtain ⟨id, record, found, own, valid, rfl⟩ := sound.indexed.mem_entitlements_iff.mp (among e listed)
  exact ⟨id, record, found, own, valid, licenses⟩

end RepositoryState

end TokenGate
