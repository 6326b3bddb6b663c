import Mathlib.Data.Nat.Basic
import Mathlib.Data.Set.Basic
import Mathlib.Order.Basic
import Mathlib.Order.Bounds.Defs
import Mathlib.Tactic.Choose
import TokenGate.Proofs.Access.Decisions
import TokenGate.Proofs.Repository.Runs

/-!
# The union of tokens

The tokens of a key give together what the best of them gives on its own, if those for groups are meaningful. Tokens for one
group and one audience are, in any case, as good as a single one that unites their roles.
-/

namespace TokenGate

/-! ## The order of decisions -/

namespace AccessDecision

/-- How much access a decision gives. -/
def rank : AccessDecision → Nat
  | unauthorized => 0
  | forbidden => 1
  | methodNotAllowed => 2
  | allowed => 3

/-- No two answers are of the same rank. -/
theorem rank_injective : Function.Injective rank := by
  intro a b same
  cases a <;> cases b <;> first | rfl | nomatch same

/-- Decisions are ordered by the access that they give. -/
instance : LinearOrder AccessDecision := LinearOrder.lift' rank rank_injective

example : unauthorized < forbidden ∧ forbidden < methodNotAllowed ∧ methodNotAllowed < allowed := by decide

end AccessDecision

namespace Entitlement

/-- What tokens have to do to earn a decision, or one that gives more access. -/
def Earns (validator : Validator) (tokens : List Entitlement) (resource : String) (method : Method) :
    AccessDecision → Prop
  | .unauthorized => True
  | .forbidden => ∃ e, e ∈ tokens
  | .methodNotAllowed => ∃ other, allow validator tokens resource other = true
  | .allowed => allow validator tokens resource method = true

/-- The decision is the highest one that the tokens earn. -/
theorem le_decide_iff {validator : Validator} {tokens : List Entitlement} {resource : String} {method : Method}
    (d : AccessDecision) : d ≤ decide validator tokens resource method ↔ Earns validator tokens resource method d := by
  have others : Method.all.any (allow validator tokens resource) = true ↔
      ∃ other, allow validator tokens resource other = true := by
    rw [List.any_eq_true]
    exact ⟨fun ⟨m, _, h⟩ => ⟨m, h⟩, fun ⟨m, h⟩ => ⟨m, m.mem_all, h⟩⟩
  unfold decide
  split
  · rename_i empty
    rw [List.isEmpty_iff] at empty
    subst empty
    cases d <;> simp +decide [Earns, allow]
  · rename_i nonempty
    rw [List.isEmpty_iff] at nonempty
    have some := List.exists_mem_of_ne_nil _ nonempty
    split
    · rename_i allowed
      cases d <;> simp +decide [Earns, some, allowed]
      exact ⟨method, allowed⟩
    · rename_i refused
      split
      · rename_i more
        rw [others] at more
        cases d <;> simp +decide [Earns, some, refused, more]
      · rename_i none
        rw [others] at none
        cases d <;> simp +decide [Earns, some, refused, none]

/-- Tokens that earn more are given more access. -/
theorem decide_le_decide {validator : Validator} {xs ys : List Entitlement} {resource : String} {method : Method}
    (h : ∀ d, Earns validator xs resource method d → Earns validator ys resource method d) :
    decide validator xs resource method ≤ decide validator ys resource method :=
  (le_decide_iff _).mpr (h _ ((le_decide_iff _).mp le_rfl))

/-- Tokens that are there alike, and allow the same methods, are given the same access. -/
theorem decide_congr {validator : Validator} {xs ys : List Entitlement} {resource : String} {method : Method}
    (some : (∃ e, e ∈ xs) ↔ ∃ e, e ∈ ys)
    (same : ∀ other, allow validator xs resource other = true ↔ allow validator ys resource other = true) :
    decide validator xs resource method = decide validator ys resource method := by
  have earned : ∀ d, Earns validator xs resource method d ↔ Earns validator ys resource method d := by
    intro d
    cases d with
    | unauthorized => exact Iff.rfl
    | forbidden => exact some
    | methodNotAllowed => exact exists_congr same
    | allowed => exact same method
  exact le_antisymm (decide_le_decide fun d => (earned d).mp) (decide_le_decide fun d => (earned d).mpr)

/-! ## Tokens apart -/

/-- What tokens earn together, one of them earns, if those for groups are meaningful. -/
theorem earns_iff_exists {policy : ScopePolicy} {tokens : List Entitlement}
    (meaningful : ∀ e ∈ tokens, ∀ entries, e.scope = .groups entries → policy.isMeaningful e.audience e.scope = true)
    {resource : String} {method : Method} {d : AccessDecision} (more : d ≠ .unauthorized) :
    Earns policy.validator tokens resource method d ↔ ∃ e ∈ tokens, Earns policy.validator [e] resource method d := by
  have alone : ∀ other, allow policy.validator tokens resource other = true ↔
      ∃ e ∈ tokens, allow policy.validator [e] resource other = true := by
    intro other
    constructor
    · intro allowed
      obtain ⟨e, among, licenses⟩ := exists_licenses_of_allow meaningful allowed
      exact ⟨e, among, allow_of_licenses List.mem_cons_self licenses⟩
    · rintro ⟨e, among, allowed⟩
      have own : ∀ e' ∈ [e], ∀ entries, e'.scope = .groups entries → policy.isMeaningful e'.audience e'.scope = true := by
        intro e' same
        rw [List.mem_singleton.mp same]
        exact meaningful e among
      obtain ⟨e', same, licenses⟩ := exists_licenses_of_allow own allowed
      rw [List.mem_singleton.mp same] at licenses
      exact allow_of_licenses among licenses
  cases d with
  | unauthorized => exact absurd rfl more
  | forbidden => exact exists_congr fun e => (and_iff_left ⟨e, List.mem_cons_self⟩).symm
  | allowed => exact alone method
  | methodNotAllowed =>
    constructor
    · rintro ⟨other, allowed⟩
      obtain ⟨e, among, allowed⟩ := (alone other).mp allowed
      exact ⟨e, among, other, allowed⟩
    · rintro ⟨e, among, other, allowed⟩
      exact ⟨other, (alone other).mpr ⟨e, among, allowed⟩⟩

/-- The decision about tokens is the highest one about any of them, if those for groups are meaningful. -/
theorem isGreatest_decide {policy : ScopePolicy} {tokens : List Entitlement}
    (meaningful : ∀ e ∈ tokens, ∀ entries, e.scope = .groups entries → policy.isMeaningful e.audience e.scope = true)
    (some : ∃ e, e ∈ tokens) (resource : String) (method : Method) :
    IsGreatest {d | ∃ e ∈ tokens, decide policy.validator [e] resource method = d}
      (decide policy.validator tokens resource method) := by
  have below : ∀ e ∈ tokens, decide policy.validator [e] resource method ≤ decide policy.validator tokens resource method := by
    intro e among
    refine decide_le_decide fun d earned => ?_
    by_cases more : d = .unauthorized
    · rw [more]
      trivial
    · exact (earns_iff_exists meaningful more).mpr ⟨e, among, earned⟩
  constructor
  · have more : decide policy.validator tokens resource method ≠ .unauthorized := by
      intro none
      exact absurd (none ▸ (le_decide_iff .forbidden).mpr some) (by decide)
    obtain ⟨e, among, earned⟩ := (earns_iff_exists meaningful more).mp ((le_decide_iff _).mp le_rfl)
    exact ⟨e, among, le_antisymm (below e among) ((le_decide_iff _).mpr earned)⟩
  · rintro _ ⟨e, among, rfl⟩
    exact below e among

/-! ## Tokens for a group -/

/-- Whether a token is for the manager of a group that it names. -/
def IsForManager (groups : GroupPolicy) (group : String) (e : Entitlement) : Prop :=
  ∃ entries, e.scope = .groups entries ∧ (∃ entry ∈ entries, entry.group = group) ∧ groups.isManager e.audience = true

/-- Whether a token gives a role in a group that allows a method. -/
def GivesRole (groups : GroupPolicy) (group : String) (method : Method) (e : Entitlement) : Prop :=
  ∃ entries, e.scope = .groups entries ∧
    ∃ entry ∈ entries, entry.group = group ∧ ∃ role, entry.roles.contains role = true ∧ groups.allows role method = true

section

variable {e : Entitlement} {group : String} {roles : Roles} (scope : e.scope = .groups [⟨group, roles⟩])
include scope

/-- A token for a group allows nothing by name. -/
theorem allowsByName_of_groups {validator : Validator} {resource : String} {method : Method} :
    allowsByName validator resource method e = false := by
  rw [allowsByName, scope]

/-- A token for a single group is for the manager of that group, if its audience is one. -/
theorem isForManager_iff {groups : GroupPolicy} {name : String} :
    e.IsForManager groups name ↔ group = name ∧ groups.isManager e.audience = true := by
  simp [IsForManager, scope]

/-- A token for a single group gives the roles that it names, as far as they allow the method. -/
theorem givesRole_iff {groups : GroupPolicy} {name : String} {method : Method} :
    e.GivesRole groups name method ↔
      group = name ∧ ∃ role, roles.contains role = true ∧ groups.allows role method = true := by
  simp [GivesRole, scope]

end

/-- Tokens allow a method together by a name of one of them, or by the role that one of them gives in a group whose manager one
of them is for. -/
theorem allow_eq_true_iff {policy : ScopePolicy} {tokens : List Entitlement} {resource : String} {method : Method} :
    allow policy.validator tokens resource method = true ↔
      (∃ e ∈ tokens, allowsByName policy.validator resource method e = true) ∨
      ∃ groups group, policy.groups = some groups ∧ groups.groupOf? resource = some group ∧
        (∃ e ∈ tokens, e.IsForManager groups group) ∧ ∃ e ∈ tokens, e.GivesRole groups group method := by
  have entered : ∀ p, p ∈ tokens.flatMap groupEntries ↔
      ∃ e ∈ tokens, (∃ entries, e.scope = .groups entries ∧ p.1 ∈ entries) ∧ p.2 = e.audience.names := by
    intro p
    simp only [List.mem_flatMap, mem_groupEntries]
  unfold allow
  rw [Bool.or_eq_true, List.any_eq_true, List.any_eq_true]
  refine or_congr Iff.rfl ⟨?_, ?_⟩
  · rintro ⟨⟨entry, _⟩, _, grouped⟩
    obtain ⟨groups, some, resource, ⟨p, there, same, manager⟩, q, there', same', role, given, allows⟩ :=
      allowsInGroup_eq_true_iff.mp grouped
    obtain ⟨e, among, ⟨entries, scope, listed⟩, names⟩ := (entered p).mp there
    obtain ⟨e', among', ⟨entries', scope', listed'⟩, _⟩ := (entered q).mp there'
    rw [names] at manager
    exact ⟨groups, entry.group, some, resource, ⟨e, among, entries, scope, ⟨p.1, listed, same⟩, manager⟩,
      e', among', entries', scope', q.1, listed', same', role, given, allows⟩
  · rintro ⟨groups, group, some, resource, ⟨e, among, entries, scope, ⟨entry, listed, rfl⟩, manager⟩,
      e', among', entries', scope', entry', listed', same, role, given, allows⟩
    have there := (entered (entry, e.audience.names)).mpr ⟨e, among, ⟨entries, scope, listed⟩, rfl⟩
    have there' := (entered (entry', e'.audience.names)).mpr ⟨e', among', ⟨entries', scope', listed'⟩, rfl⟩
    refine ⟨_, there, allowsInGroup_eq_true_iff.mpr ⟨groups, some, resource, ⟨_, there, rfl, manager⟩, ?_⟩⟩
    exact ⟨_, there', same, role, given, allows⟩

end Entitlement

namespace RepositoryState

/-- The state in which a token is the only one of its key. -/
def withOnly (s : RepositoryState) (id : TokenId) (record : TokenRecord) : RepositoryState :=
  (s.clearTokens record.key).insertToken id record

/-- A token that is the only one of its key is all that counts for the key. -/
theorem IsSound.mem_entitlements_withOnly {s : RepositoryState} (sound : s.IsSound) {id : TokenId} {record : TokenRecord}
    (found : s.tokens[id]? = some record) {now : UInt64} (valid : record.claims.isValidAt now = true) {e : Entitlement} :
    e ∈ (s.withOnly id record).entitlements record.key now ↔ e = .ofRecord record := by
  have filed : id ∈ s.idsOf record.key := (sound.indexed id record.key).mpr ⟨record, found, rfl⟩
  have cleared : (s.clearTokens record.key).tokens[id]? = none := by
    rw [tokens_clearTokens, if_pos filed]
  have indexed : (s.withOnly id record).IsIndexed := by
    refine (sound.clearTokens record.key).indexed.insertToken fun old there => ?_
    rw [cleared] at there
    nomatch there
  rw [indexed.mem_entitlements_iff]
  constructor
  · rintro ⟨other, record', there, own, _, rfl⟩
    rw [withOnly, tokens_insertToken] at there
    by_cases same : id = other
    · rw [if_pos same, Option.some.injEq] at there
      rw [there]
    · rw [if_neg same, tokens_clearTokens, Option.ite_none_left_eq_some] at there
      exact absurd ((sound.indexed other record.key).mpr ⟨record', there.2, own⟩) there.1
  · rintro rfl
    refine ⟨id, record, ?_, rfl, valid, rfl⟩
    rw [withOnly, tokens_insertToken, if_pos rfl]

/-- The decisions that the valid tokens of a key would each be given if they were the key's only one. -/
def decisionsApart (s : RepositoryState) (policy : ScopePolicy) (key : KeyName) (resource : String) (method : Method)
    (now : UInt64) : Set AccessDecision :=
  {d | ∃ (id : TokenId) (record : TokenRecord), s.tokens[id]? = some record ∧ record.key = key ∧
    record.claims.isValidAt now = true ∧ (s.withOnly id record).access policy.validator none key resource method now = d}

/-- The decision about a token that is the only one of its key is the one about what the token contributes. -/
theorem IsSound.access_withOnly {s : RepositoryState} (sound : s.IsSound) (policy : ScopePolicy) {id : TokenId}
    {record : TokenRecord} (found : s.tokens[id]? = some record) {now : UInt64} (valid : record.claims.isValidAt now = true)
    (resource : String) (method : Method) :
    (s.withOnly id record).access policy.validator none record.key resource method now =
      Entitlement.decide policy.validator [.ofRecord record] resource method := by
  have only : ∀ e, e ∈ (s.withOnly id record).entitlements record.key now ↔ e ∈ [Entitlement.ofRecord record] := by
    intro e
    rw [sound.mem_entitlements_withOnly found valid, List.mem_singleton]
  refine Entitlement.decide_congr (exists_congr only) fun other => ?_
  simp only [Entitlement.allow_eq_true_iff, only]

/-- The decisions about the tokens of a key apart are those about what each contributes. -/
theorem IsSound.decisionsApart_eq {s : RepositoryState} (sound : s.IsSound) (policy : ScopePolicy) (key : KeyName)
    (resource : String) (method : Method) (now : UInt64) :
    s.decisionsApart policy key resource method now =
      {d | ∃ e ∈ s.entitlements key now, Entitlement.decide policy.validator [e] resource method = d} := by
  ext d
  simp only [decisionsApart, Set.mem_ofPred_eq, sound.indexed.mem_entitlements_iff]
  constructor
  · rintro ⟨id, record, found, rfl, valid, rfl⟩
    exact ⟨.ofRecord record, ⟨id, record, found, rfl, valid, rfl⟩, (sound.access_withOnly policy found valid resource method).symm⟩
  · rintro ⟨_, ⟨id, record, found, rfl, valid, rfl⟩, rfl⟩
    exact ⟨id, record, found, rfl, valid, sound.access_withOnly policy found valid resource method⟩

/-! ## Joining tokens -/

/-- Tokens of a key in one group and for one audience, and a token of the key that gives the roles of all of them. -/
structure Unites (s : RepositoryState) (now : UInt64) (ids : List TokenId) (joined : TokenRecord) : Prop where
  nonempty : ids ≠ []
  valid : joined.claims.isValidAt now = true
  parts : ∃ (group : String) (roles : TokenId → Roles),
    joined.scope = .groups [⟨group, ids.foldl (fun all id => all ∪ roles id) Roles.none⟩] ∧
    ∀ id ∈ ids, ∃ part : TokenRecord, s.tokens[id]? = some part ∧ part.key = joined.key ∧
      part.claims.isValidAt now = true ∧ part.claims.audience = joined.claims.audience ∧
      part.scope = .groups [⟨group, roles id⟩]

/-- The state with a token in place of others. -/
def withJoined (s : RepositoryState) (ids : List TokenId) (id : TokenId) (joined : TokenRecord) : RepositoryState :=
  (ids.foldl removeToken s).insertToken id joined

/-- A property that a joined token has exactly if one of its parts does is had by some token in either case. -/
theorem IsSound.exists_mem_entitlements_withJoined {s : RepositoryState} (sound : s.IsSound) {now : UInt64} {ids : List TokenId}
    {id : TokenId} {joined : TokenRecord} (free : ∀ old : TokenRecord, s.tokens[id]? = some old → id ∈ ids)
    (valid : joined.claims.isValidAt now = true) {part : TokenId → TokenRecord}
    (parts : ∀ i ∈ ids, s.tokens[i]? = some (part i) ∧ (part i).key = joined.key ∧ (part i).claims.isValidAt now = true)
    {P : Entitlement → Prop} (joins : P (.ofRecord joined) ↔ ∃ i ∈ ids, P (.ofRecord (part i))) :
    (∃ e ∈ (s.withJoined ids id joined).entitlements joined.key now, P e) ↔ ∃ e ∈ s.entitlements joined.key now, P e := by
  obtain ⟨sound', without⟩ := sound.foldl_removeToken ids
  have gone : ∀ old : TokenRecord, (ids.foldl RepositoryState.removeToken s).tokens[id]? ≠ some old := by
    intro old found
    obtain ⟨found, stays⟩ := (without.tokens id old).mp found
    exact stays (free old found)
  have indexed : (s.withJoined ids id joined).IsIndexed :=
    sound'.indexed.insertToken fun old found => absurd found (gone old)
  simp only [indexed.mem_entitlements_iff, sound.indexed.mem_entitlements_iff]
  constructor
  · rintro ⟨_, ⟨other, record, found, own, valid, rfl⟩, holds⟩
    rw [withJoined, tokens_insertToken] at found
    by_cases same : id = other
    · rw [if_pos same, Option.some.injEq] at found
      subst found
      obtain ⟨i, among, holds⟩ := joins.mp holds
      obtain ⟨found, own, valid⟩ := parts i among
      exact ⟨_, ⟨i, part i, found, own, valid, rfl⟩, holds⟩
    · rw [if_neg same] at found
      exact ⟨_, ⟨other, record, ((without.tokens other record).mp found).1, own, valid, rfl⟩, holds⟩
  · rintro ⟨_, ⟨other, record, found, own, valid', rfl⟩, holds⟩
    by_cases among : other ∈ ids
    · rw [(parts other among).1, Option.some.injEq] at found
      subst found
      refine ⟨.ofRecord joined, ⟨id, joined, ?_, rfl, valid, rfl⟩, joins.mpr ⟨other, among, holds⟩⟩
      rw [withJoined, tokens_insertToken, if_pos rfl]
    · refine ⟨_, ⟨other, record, ?_, own, valid', rfl⟩, holds⟩
      rw [withJoined, tokens_insertToken, if_neg]
      · exact (without.tokens other record).mpr ⟨found, among⟩
      · rintro rfl
        exact among (free record found)

/-- Tokens that a joined token unites are as good together as the joined token is in their place. -/
theorem IsSound.access_withJoined {s : RepositoryState} (sound : s.IsSound) (policy : ScopePolicy) {now : UInt64}
    {ids : List TokenId} {id : TokenId} {joined : TokenRecord} (unites : s.Unites now ids joined)
    (free : ∀ old : TokenRecord, s.tokens[id]? = some old → id ∈ ids) (resource : String) (method : Method) :
    (s.withJoined ids id joined).access policy.validator none joined.key resource method now =
      s.access policy.validator none joined.key resource method now := by
  obtain ⟨group, roles, united, each⟩ := unites.parts
  have : Nonempty TokenRecord := ⟨joined⟩
  choose! part found own valid audience scope using each
  obtain ⟨some, among⟩ := List.exists_mem_of_ne_nil _ unites.nonempty
  have sameAudience : ∀ i ∈ ids, (Entitlement.ofRecord (part i)).audience = (Entitlement.ofRecord joined).audience := by
    intro i among
    rw [Entitlement.ofRecord, Entitlement.ofRecord, audience i among]
  have parts := fun i among => And.intro (found i among) (And.intro (own i among) (valid i among))
  have either := fun (P : Entitlement → Prop) joins =>
    sound.exists_mem_entitlements_withJoined free unites.valid parts (P := P) joins
  have there : (∃ e, e ∈ (s.withJoined ids id joined).entitlements joined.key now) ↔ ∃ e, e ∈ s.entitlements joined.key now := by
    simpa only [and_true] using either (fun _ => True) (iff_of_true trivial ⟨some, among, trivial⟩)
  refine Entitlement.decide_congr there fun other => ?_
  rw [Entitlement.allow_eq_true_iff, Entitlement.allow_eq_true_iff]
  refine or_congr (either _ ?_) (exists_congr fun groups => exists_congr fun name => ?_)
  · rw [Entitlement.allowsByName_of_groups united]
    simp only [Bool.false_eq_true, false_iff]
    rintro ⟨i, among, named⟩
    rw [Entitlement.allowsByName_of_groups (scope i among)] at named
    nomatch named
  · refine and_congr_right fun _ => and_congr_right fun _ => and_congr (either _ ?_) (either _ ?_)
    · rw [Entitlement.isForManager_iff united]
      constructor
      · rintro ⟨named, manager⟩
        refine ⟨some, among, (Entitlement.isForManager_iff (scope some among)).mpr ⟨named, ?_⟩⟩
        rw [sameAudience some among]
        exact manager
      · rintro ⟨i, among, manages⟩
        rw [Entitlement.isForManager_iff (scope i among), sameAudience i among] at manages
        exact manages
    · rw [Entitlement.givesRole_iff united]
      constructor
      · rintro ⟨named, role, given, allows⟩
        rw [Roles.contains_foldl_union, or_iff_right (Roles.not_contains_none role)] at given
        obtain ⟨i, among, given⟩ := given
        exact ⟨i, among, (Entitlement.givesRole_iff (scope i among)).mpr ⟨named, role, given, allows⟩⟩
      · rintro ⟨i, among, gives⟩
        obtain ⟨named, role, given, allows⟩ := (Entitlement.givesRole_iff (scope i among)).mp gives
        refine ⟨named, role, ?_, allows⟩
        rw [Roles.contains_foldl_union, or_iff_right (Roles.not_contains_none role)]
        exact ⟨i, among, given⟩

/-- The access to a resource is the highest one that a token of the key gives on its own, if those for groups are meaningful, and
tokens for one group and one audience give it like a single token with all of their roles. -/
theorem IsSound.access_eq_union {s : RepositoryState} (sound : s.IsSound) (policy : ScopePolicy) (key : KeyName)
    (resource : String) (method : Method) (now : UInt64) :
    ((∀ (id : TokenId) (record : TokenRecord), s.tokens[id]? = some record → record.key = key →
        record.claims.isValidAt now = true → ∀ entries, record.scope = .groups entries →
        policy.isMeaningful (Entitlement.ofRecord record).audience record.scope = true) →
      (s.decisionsApart policy key resource method now = ∅ →
        s.access policy.validator none key resource method now = .unauthorized) ∧
      ((s.decisionsApart policy key resource method now).Nonempty →
        IsGreatest (s.decisionsApart policy key resource method now)
          (s.access policy.validator none key resource method now))) ∧
    ∀ (ids : List TokenId) (id : TokenId) (joined : TokenRecord), s.Unites now ids joined → joined.key = key →
      (∀ old : TokenRecord, s.tokens[id]? = some old → id ∈ ids) →
      (s.withJoined ids id joined).access policy.validator none key resource method now =
        s.access policy.validator none key resource method now := by
  rw [sound.decisionsApart_eq]
  refine ⟨fun meaningful => ⟨fun none => ?_, ?_⟩, ?_⟩
  · have empty : s.entitlements key now = [] := by
      refine List.eq_nil_iff_forall_not_mem.mpr fun e among => ?_
      exact Set.eq_empty_iff_forall_notMem.mp none _ ⟨e, among, rfl⟩
    rw [access, empty]
    rfl
  · rintro ⟨_, e, among, _⟩
    refine Entitlement.isGreatest_decide (fun e among entries scope => ?_) ⟨e, among⟩ resource method
    obtain ⟨id, record, found, own, valid, rfl⟩ := sound.indexed.mem_entitlements_iff.mp among
    exact meaningful id record found own valid entries scope
  · rintro ids id joined unites rfl free
    exact sound.access_withJoined policy unites free resource method

namespace Sample

/-- A policy by which requesters may post to a group, and monitors may get from it. -/
def policy : ScopePolicy where
  groups := some
    { groups := .ofList ["g"]
      roleMethods := .ofList [(Role.requester, .ofList [Method.post]), (Role.monitor, .ofList [Method.get])] compare }

/-- The claims of a token for `a` with roles in the group. -/
def claims (cti : UInt8) (roles : Roles) : Claims :=
  ((Repository.Sample.claims cti 0x61).set .aud (.single "rs1")).set .scope (.binary (GroupEntry.encode [⟨"g", roles⟩]))

/-- A repository with a token for a requester and one for a monitor, of the same key. -/
def split : Repository :=
  let requester := (Repository.Sample.repository.addToken {} (claims 1 ⟨true, false, false, false⟩) Repository.Sample.shared
    none .selfContained).repository
  (requester.addToken {} (claims 2 ⟨false, false, true, false⟩) Repository.Sample.shared none .selfContained).repository

theorem isSound_split : split.state.IsSound :=
  have run : Repository.Orderly split _ := .add (.add Repository.Sample.orderly_repository _ _ _ _ _) _ _ _ _ _
  run.isSound_and_isJustAfter.1

/-- The token that joins the two. -/
def joined : TokenRecord where
  claims := claims 1 ⟨true, false, true, false⟩
  scope := .groups [⟨"g", ⟨true, false, true, false⟩⟩]
  key := ⟨"a"⟩
  origin := .selfContained

theorem unites_joined : split.state.Unites 5 [⟨[1]⟩, ⟨[2]⟩] joined where
  nonempty := List.cons_ne_nil _ _
  valid := by decide +kernel
  parts := by
    refine ⟨"g", fun id => if id = ⟨[1]⟩ then ⟨true, false, false, false⟩ else ⟨false, false, true, false⟩, by decide +kernel, ?_⟩
    simp only [List.forall_mem_cons]
    refine ⟨⟨(split.state.tokens[(⟨[1]⟩ : TokenId)]?).get (by decide +kernel), (Option.some_get _).symm, ?_⟩,
      ⟨(split.state.tokens[(⟨[2]⟩ : TokenId)]?).get (by decide +kernel), (Option.some_get _).symm, ?_⟩, by simp⟩
    all_goals decide +kernel

end Sample

/-- The monitor's token alone is enough to get from the group, and so is a single token with both roles. -/
theorem access_eq_union_of_roles :
    Sample.split.state.access Sample.policy.validator none ⟨"a"⟩ "ace-group/g" .get 5 = .allowed ∧
    IsGreatest (Sample.split.state.decisionsApart Sample.policy ⟨"a"⟩ "ace-group/g" .get 5) .allowed ∧
    (Sample.split.state.withJoined [⟨[1]⟩, ⟨[2]⟩] ⟨[1]⟩ Sample.joined).access Sample.policy.validator none ⟨"a"⟩ "ace-group/g"
      .get 5 = .allowed := by
  obtain ⟨greatest, joins⟩ :=
    Sample.isSound_split.access_eq_union Sample.policy ⟨"a"⟩ "ace-group/g" .get 5
  have allowed : Sample.split.state.access Sample.policy.validator none ⟨"a"⟩ "ace-group/g" .get 5 = .allowed := by
    decide +kernel
  have meaningful : Sample.split.state.tokens.toList.all
      (fun p => Sample.policy.isMeaningful (Entitlement.ofRecord p.2).audience p.2.scope) = true := by decide +kernel
  have there : (Sample.split.state.decisionsApart Sample.policy ⟨"a"⟩ "ace-group/g" .get 5).Nonempty :=
    ⟨_, ⟨[1]⟩, (Sample.split.state.tokens[(⟨[1]⟩ : TokenId)]?).get (by decide +kernel), (Option.some_get _).symm,
      by decide +kernel, by decide +kernel, rfl⟩
  rw [allowed] at greatest joins
  refine ⟨allowed, (greatest fun id record found _ _ _ _ => ?_).2 there, joins _ _ _ Sample.unites_joined rfl fun _ _ => ?_⟩
  · exact List.all_eq_true.mp meaningful _ (Std.ExtTreeMap.mem_toList_iff_getElem?_eq_some.mpr found)
  · exact List.mem_cons_self

end RepositoryState

end TokenGate
