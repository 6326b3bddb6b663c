import TokenGate.Proofs.Access.Decisions
import TokenGate.Proofs.Access.History
import TokenGate.Proofs.Admission.Commitments

/-!
# Grounds for access

On a server whose scopes are up to one policy, access is only given for a token that was admitted, whose claims justify it on
their own, and that was kept since.
-/

namespace TokenGate

namespace Endpoint

/-- Claims that an endpoint trusts, and that justify access for the holder of a key at a time. -/
structure Justifies (e : Endpoint) (policy : ScopePolicy) (claims : Claims) (key : KeyName) (resource : String)
    (method : Method) (now : UInt64) : Prop where
  issuer : ∃ issuer ∈ e.issuers, claims.issuer = some issuer
  begun : ∀ start, claims.notBefore = some start → start ≤ now
  unended : ∀ ending, claims.expiration = some ending → now < ending
  holder : ∃ cnf carried, claims.cnf = some cnf ∧ Submission.keyOf e.shared cnf = .ok (key, carried)
  /-- The claims are for a name of the server, and a single name or group in their scope allows the method. -/
  licenses : ∃ audience claim scope, claims.audience = some audience ∧ (∃ name ∈ e.audiences, audience.contains name = true) ∧
    claims.scope = some claim ∧ Scope.ofClaim claim = .ok scope ∧ policy.Licenses audience scope resource method

/-- Claims with another identifier are the same otherwise. -/
theorem known_set_cti (claims : Claims) (id : TokenId) {k : ClaimKey} (apart : .cti ≠ k) :
    (claims.set .cti id.bytes).known k = claims.known k :=
  claims.known_set_of_ne id.bytes apart

/-- What is known of a record that a message puts under an identifier. -/
theorem Puts.of_claims {e : Endpoint} {message : Message} {before : Server} {id : TokenId} {record : TokenRecord}
    (h : e.Puts message before id record) :
    ∃ admitted request claims origin, (e.receive message before).1.result = .ok admitted ∧ admitted.id = id ∧
      admitted.key = record.key ∧ e.read message = .ok (request, claims, origin) ∧ record.claims = claims.set .cti id.bytes ∧
      (∃ issuer ∈ e.issuers, claims.issuer = some issuer) ∧
      (∃ cnf carried, claims.cnf = some cnf ∧ Submission.keyOf e.shared cnf = .ok (record.key, carried)) ∧
      ∃ audience claim, claims.audience = some audience ∧ (∃ name ∈ e.audiences, audience.contains name = true) ∧
        claims.scope = some claim ∧ Scope.ofClaim claim = .ok record.scope ∧
        e.validator.isMeaningful audience record.scope = true := by
  obtain ⟨admitted, claims, origin, t, result, own, key, presents, rfl, rfl⟩ := h
  obtain ⟨request, read⟩ := presents.read
  obtain ⟨issuer, audience, claim, scope, aud, ours, given, parsed, meaningful⟩ := of_validate presents.valid
  have made := Submission.isFrom_of_ofClaims presents.submission
  obtain ⟨cnf, confirmed, keyed⟩ := made.key
  have same : scope = t.scope := by
    have both := made.scope
    rw [given, Option.map_some, parsed, Option.some.injEq, Except.ok.injEq] at both
    exact both
  subst same
  exact ⟨admitted, request, claims, origin, result, own, key, read, made.claims, issuer, ⟨cnf, _, confirmed, keyed⟩, audience,
    claim, aud, ours, given, parsed, meaningful⟩

/-- What a record contributes has the audience of the claims it was made of. -/
theorem audience_ofRecord {record : TokenRecord} {claims : Claims} {id : TokenId} {audience : Audience}
    (made : record.claims = claims.set .cti id.bytes) (present : claims.audience = some audience) :
    (Entitlement.ofRecord record).audience = audience := by
  have same : record.claims.audience = some audience := by
    rw [made, Claims.audience, known_set_cti claims id (by decide)]
    exact present
  rw [Entitlement.ofRecord, same, Option.getD_some]

/-- Claims justify access if a record made of them licenses it. -/
theorem Justifies.of_record {e : Endpoint} {policy : ScopePolicy} {claims : Claims} {id : TokenId} {record : TokenRecord}
    {resource : String} {method : Method} {now : UInt64} (made : record.claims = claims.set .cti id.bytes)
    (issuer : ∃ issuer ∈ e.issuers, claims.issuer = some issuer) (valid : record.claims.isValidAt now = true)
    (holder : ∃ cnf carried, claims.cnf = some cnf ∧ Submission.keyOf e.shared cnf = .ok (record.key, carried))
    {audience : Audience} {claim : ScopeClaim} (present : claims.audience = some audience)
    (ours : ∃ name ∈ e.audiences, audience.contains name = true) (given : claims.scope = some claim)
    (parsed : Scope.ofClaim claim = .ok record.scope)
    (licenses : policy.Licenses (Entitlement.ofRecord record).audience record.scope resource method) :
    e.Justifies policy claims record.key resource method now := by
  rw [audience_ofRecord made present] at licenses
  rw [made, Claims.isValidAt, Bool.and_eq_true, Option.all_eq_true, Option.all_eq_true] at valid
  refine ⟨issuer, ?_, ?_, holder, audience, claim, record.scope, present, ours, given, parsed, licenses⟩
  · intro start begins
    exact of_decide_eq_true (valid.1 start ((known_set_cti claims id (by decide)).trans begins))
  · intro ending ends
    exact of_decide_eq_true (valid.2 ending ((known_set_cti claims id (by decide)).trans ends))

end Endpoint

namespace Server

/-- Whenever access is given, a message was admitted whose claims justify it, and whose token was kept since. -/
theorem exists_admission_of_access {policy : ScopePolicy} {store : Option DiskPath} {host : Host} (channel : Channel)
    (saves : ∀ path, store = some path → host.Accepts path) {events : List Event}
    (proper : ∀ event ∈ events, event.IsUnder policy) {introspection : Option Introspection} {key : KeyName}
    {resource : String} {method : Method} {now : UInt64}
    (allowed : ((fresh policy store host channel).afterAll events).repository.access introspection key resource method now =
      .allowed) :
    ∃ earlier e message later admitted request claims origin record,
      events = earlier ++ .post e message :: later ∧
      (e.receive message ((fresh policy store host channel).afterAll earlier)).1.result = .ok admitted ∧
      e.read message = .ok (request, claims, origin) ∧
      e.Justifies policy claims key resource method now ∧
      admitted.key = key ∧ record.key = key ∧ record.claims = claims.set .cti admitted.id.bytes ∧
      (((fresh policy store host channel).afterAll earlier).step (.post e message)).Keeps admitted.id record later := by
  have under := isUnder_fresh policy channel saves
  have after := under.afterAll proper
  have empty : ∀ id : TokenId, (fresh policy store host channel).repository.state.tokens[id]? = none := by
    intro id
    exact Std.ExtTreeMap.getElem?_empty
  obtain ⟨sound, stored⟩ := Repository.isSound_visible after.inOrder.sound
  unfold Repository.access at allowed
  rw [after.validator] at allowed
  have meaningful : ∀ (id : TokenId) (record : TokenRecord),
      ((fresh policy store host channel).afterAll events).repository.visible.tokens[id]? = some record →
      policy.isMeaningful (Entitlement.ofRecord record).audience record.scope = true := by
    intro id record found
    obtain ⟨earlier, e, message, later, rfl, puts, _⟩ := under.exists_puts empty proper (stored id record found)
    obtain ⟨_, _, claims, _, _, _, _, _, made, _, _, audience, _, present, _, _, _, meaningful⟩ := puts.of_claims
    have posted := proper (.post e message) (List.mem_append_right _ List.mem_cons_self)
    rw [Endpoint.audience_ofRecord made present]
    rw [posted.2] at meaningful
    exact meaningful
  obtain ⟨id, record, found, own, valid, licenses⟩ := sound.exists_licenses_of_access meaningful allowed
  obtain ⟨earlier, e, message, later, split, puts, keeps⟩ := under.exists_puts empty proper (stored id record found)
  obtain ⟨admitted, request, claims, origin, result, rfl, key, read, made, issuer, holder, audience, claim, present, ours,
    given, parsed, _⟩ := puts.of_claims
  subst own
  exact ⟨earlier, e, message, later, admitted, request, claims, origin, record, split, result, read,
    .of_record made issuer valid holder present ours given parsed licenses, key, rfl, made, keeps⟩

namespace Sample

/-- A token for `a` is posted, and is not yet purged. -/
def events : List Event :=
  [.other (.provision (Repository.Sample.popKey 0x61)), .clock 3, .post Endpoint.Sample.endpoint Endpoint.Sample.known,
    .other (.purge 4)]

def server : Server := fresh Endpoint.Sample.policy none {} Endpoint.Sample.channel

theorem isUnder_events : ∀ event ∈ events, event.IsUnder Endpoint.Sample.policy := by
  simp only [events, List.forall_mem_cons]
  exact ⟨trivial, trivial, ⟨.dtls, rfl⟩, trivial, by simp⟩

end Sample

/-- The holder of `a` has access, for which the posted token is the ground. -/
theorem exists_admission_of_sample :
    (Sample.server.afterAll Sample.events).repository.access none ⟨"a"⟩ "temp" .get 5 = .allowed ∧
    ∃ earlier e message later claims, Sample.events = earlier ++ .post e message :: later ∧
      e.Justifies Endpoint.Sample.policy claims ⟨"a"⟩ "temp" .get 5 := by
  have allowed : (Sample.server.afterAll Sample.events).repository.access none ⟨"a"⟩ "temp" .get 5 = .allowed := by
    decide +kernel
  have unsaved : ∀ path, Sample.server.repository.store = some path → Sample.server.host.Accepts path := nofun
  obtain ⟨earlier, e, message, later, _, _, claims, _, _, split, _, _, justifies, _⟩ :=
    exists_admission_of_access Endpoint.Sample.channel unsaved Sample.isUnder_events allowed
  exact ⟨allowed, earlier, e, message, later, claims, split, justifies⟩

end Server

end TokenGate
