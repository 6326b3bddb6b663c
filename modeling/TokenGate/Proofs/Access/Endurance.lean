import TokenGate.Proofs.Access.Decisions
import TokenGate.Proofs.Access.History
import TokenGate.Proofs.Admission.Commitments

/-!
# Tokens last

A token that was admitted gives the access that its claims license, and goes on doing so while its validity lasts, whatever else
is posted, added, removed or purged meanwhile: other tokens only add to what it gives, and nothing but its removal, an update of
the rights of its key and the close of the repository ends it early.
-/

namespace TokenGate

namespace Repository

/-- Whether an operation spares a token: it neither removes the token, nor purges tokens that end as late, nor closes the
repository. -/
def Operation.Spares (id : TokenId) (claims : Claims) : Operation → Prop
  | .remove other => other ≠ id
  | .purge now => claims.isExpiredAt now = false
  | .close => False
  | _ => True

/-- A change of the state does not close a repository. -/
theorem isOpen_perform {α : Type} (r : Repository) (host : Host) (change : RepositoryState → Except Rejection (Outcome α)) :
    (r.perform host change).repository.isOpen = r.isOpen := by
  cases result : (r.perform host change).result with
  | error e => rw [perform_error result]
  | ok value =>
    obtain ⟨_, _, _, _, counted⟩ := perform_ok result
    rw [counted]

/-- Only closing a repository closes it. -/
theorem isOpen_carryOut (r : Repository) (host : Host) {op : Operation} (stays : op ≠ .close) :
    (r.carryOut host op).1.isOpen = r.isOpen := by
  cases op with
  | close => exact absurd rfl stays
  | provision key =>
    change (r.provisionKey host key).repository.isOpen = r.isOpen
    unfold provisionKey
    split
    · rfl
    · exact isOpen_perform r host _
  | _ => exact isOpen_perform r host _

/-- A token that is spared stays. -/
theorem Operation.Changes.tokens_of_tokens {op : Operation} {s s' : RepositoryState} (h : op.Changes s s') (sound : s.IsSound)
    {id : TokenId} {record : TokenRecord} (found : s.tokens[id]? = some record) (spares : op.Spares id record.claims) :
    s'.tokens[id]? = some record := by
  cases h with
  | remove other =>
    exact ((sound.isWithout_removeToken other).tokens id record).mpr
      ⟨found, fun among => spares (List.mem_singleton.mp among).symm⟩
  | purge now => exact (RepositoryState.tokens_sweep s now id record).mpr ⟨found, spares⟩
  | _ => exact found

end Repository

namespace Endpoint

/-- A token stays when a message is posted before its end, unless the message updates the rights of its key. -/
theorem Receives.tokens_of_tokens {e : Endpoint} {message : Message} {before after : Server}
    {result : Except Failure AdmittedToken} (h : e.Receives message before result after)
    (sound : before.repository.state.IsSound) {id : TokenId} {record : TokenRecord}
    (found : before.repository.state.tokens[id]? = some record) (running : record.claims.isExpiredAt before.host.clock = false)
    (stays : ¬(e.Updates message before ∧ ∃ admitted, result = .ok admitted ∧ admitted.key = record.key)) :
    after.repository.state.tokens[id]? = some record := by
  have kept := (RepositoryState.tokens_sweep before.repository.state before.host.clock id record).mpr ⟨found, running⟩
  cases h with
  | refused failure _ repository =>
    rw [repository]
    exact found
  | takenBack presents isUpdate admits failure _ repository =>
    rw [repository]
    exact (tokens_takenBack sound admits id).trans kept
  | again presents decided there _ binds =>
    rw [binds.tokens]
    exact found
  | anew presents isUpdate decided admits committed _ repository _ binds =>
    rw [binds.tokens, repository]
    refine (sound.sweep before.host.clock).indexed.tokens_withToken_of_tokens admits kept ?_
    rintro ⟨updates, own⟩
    exact stays ⟨presents.updates_iff.mpr (decided.symm.trans updates), _, rfl, own⟩

end Endpoint

namespace Server

/-- The servers that one becomes while a token of a key is not removed, the rights of the key are not updated, the repository is
not closed, and the clock and every purge stay before the end of the token. Changes are saved all along. -/
inductive Lasting (id : TokenId) (key : KeyName) (claims : Claims) (start : Server) : Server → Prop
  | start : Lasting id key claims start start
  | environment {server : Server} (before : Lasting id key claims start server) (host : Host) (channel : Channel)
    (saves : server.repository.Saves host) (running : claims.isExpiredAt host.clock = false) :
    Lasting id key claims start { server with host, channel }
  | post {server : Server} (before : Lasting id key claims start server) {e : Endpoint} (standard : e.profile.IsStandard)
    (message : Message)
    (stays : ¬(e.Updates message server ∧
      ∃ admitted, (e.receive message server).1.result = .ok admitted ∧ admitted.key = key)) :
    Lasting id key claims start (e.receive message server).2
  | add {server : Server} (before : Lasting id key claims start server) (posted : Claims) (shared : SharedKey)
    (senderKey : Option KeyName) (origin : TokenOrigin)
    (stays : ∀ added, (server.repository.addToken server.host posted shared senderKey origin).result = .ok added →
      ¬(added.isUpdate = true ∧ added.key = key)) :
    Lasting id key claims start { server with
      repository := (server.repository.addToken server.host posted shared senderKey origin).repository
      host := (server.repository.addToken server.host posted shared senderKey origin).host }
  | other {server : Server} (before : Lasting id key claims start server) (op : Repository.Operation)
    (spares : op.Spares id claims) :
    Lasting id key claims start { server with
      repository := (server.repository.carryOut server.host op).1
      host := (server.repository.carryOut server.host op).2 }

/-- A working server that holds a token which has not ended. -/
structure Holds (server : Server) (id : TokenId) (record : TokenRecord) : Prop where
  works : server.Works
  sound : server.repository.state.IsSound
  found : server.repository.state.tokens[id]? = some record
  running : record.claims.isExpiredAt server.host.clock = false

/-- A server that works works on if its repository is not closed, and is set up as before. -/
theorem Works.of_stays {before after : Server} (h : before.Works) (isOpen : after.repository.isOpen = before.repository.isOpen)
    (stays : Endpoint.Stays before after) : after.Works :=
  ⟨isOpen.trans h.isOpen, stays.saves h.saves, stays.stored h.stored⟩

/-- A message that does not update the rights of its key leaves a token where it is. -/
theorem Holds.receive {server : Server} {id : TokenId} {record : TokenRecord} (h : server.Holds id record) {e : Endpoint}
    (standard : e.profile.IsStandard) (message : Message)
    (stays : ¬(e.Updates message server ∧
      ∃ admitted, (e.receive message server).1.result = .ok admitted ∧ admitted.key = record.key)) :
    (e.receive message server).2.Holds id record := by
  have receives := Endpoint.receive_receives standard message h.sound h.works.saves h.works.stored
  refine ⟨h.works.of_stays receives.isOpen receives.stays, receives.isSound h.sound,
    receives.tokens_of_tokens h.sound h.found h.running stays, ?_⟩
  rw [receives.stays.clock]
  exact h.running

/-- An addition that does not update the rights of its key leaves a token where it is. -/
theorem Holds.addToken {server : Server} {id : TokenId} {record : TokenRecord} (h : server.Holds id record) (claims : Claims)
    (shared : SharedKey) (senderKey : Option KeyName) (origin : TokenOrigin)
    (stays : ∀ added, (server.repository.addToken server.host claims shared senderKey origin).result = .ok added →
      ¬(added.isUpdate = true ∧ added.key = record.key)) :
    Holds { server with
      repository := (server.repository.addToken server.host claims shared senderKey origin).repository
      host := (server.repository.addToken server.host claims shared senderKey origin).host } id record := by
  have kept := server.repository.addToken_stays server.host claims shared senderKey origin
  have running : record.claims.isExpiredAt (server.repository.addToken server.host claims shared senderKey origin).host.clock =
      false := by
    rw [show (server.repository.addToken server.host claims shared senderKey origin).host.clock = _ from kept.clock]
    exact h.running
  cases result : (server.repository.addToken server.host claims shared senderKey origin).result with
  | error e =>
    have same := Repository.addToken_error result
    refine ⟨h.works.of_stays ?_ kept, ?_, ?_, running⟩
    · simp only [same]
    · simp only [same]
      exact h.sound
    · simp only [same]
      exact h.found
  | ok added =>
    obtain ⟨_, t, outcome, _, adds, rfl, counted⟩ := Repository.addToken_ok result
    refine ⟨h.works.of_stays ?_ kept, (Repository.addToken_isSound h.sound result).1, ?_, running⟩
    · simp only [counted]
    · simp only [counted]
      cases adds with
      | again known there => exact h.found
      | anew isUpdate decided admits =>
        refine (h.sound.sweep server.host.clock).indexed.tokens_withToken_of_tokens admits ?_ (stays _ result)
        exact (RepositoryState.tokens_sweep server.repository.state server.host.clock id record).mpr ⟨h.found, h.running⟩

/-- An operation that spares a token leaves it where it is. -/
theorem Holds.carryOut {server : Server} {id : TokenId} {record : TokenRecord} (h : server.Holds id record)
    {op : Repository.Operation} (spares : op.Spares id record.claims) :
    Holds { server with
      repository := (server.repository.carryOut server.host op).1
      host := (server.repository.carryOut server.host op).2 } id record := by
  have stays := server.repository.carryOut_stays server.host op
  have changes := server.repository.changes_carryOut server.host op
  have isOpen : (server.repository.carryOut server.host op).1.isOpen = server.repository.isOpen := by
    refine server.repository.isOpen_carryOut server.host ?_
    rintro rfl
    exact spares
  refine ⟨h.works.of_stays isOpen stays, changes.isSound h.sound, changes.tokens_of_tokens h.sound h.found spares, ?_⟩
  rw [show (server.repository.carryOut server.host op).2.clock = _ from stays.clock]
  exact h.running

/-- While a token lasts, the servers hold it. -/
theorem Lasting.holds {start later : Server} {id : TokenId} {record : TokenRecord} {claims : Claims}
    (lasting : start.Lasting id record.key claims later) (same : record.claims.expiration = claims.expiration)
    (h : start.Holds id record) : later.Holds id record := by
  have runs : ∀ now, claims.isExpiredAt now = record.claims.isExpiredAt now := by
    intro now
    rw [Claims.isExpiredAt, Claims.isExpiredAt, same]
  induction lasting with
  | start => exact h
  | environment before host channel saves running ih =>
    exact ⟨⟨ih.works.isOpen, saves, ih.works.stored⟩, ih.sound, ih.found, (runs host.clock).symm.trans running⟩
  | post before standard message stays ih => exact ih.receive standard message stays
  | add before posted shared senderKey origin stays ih => exact ih.addToken posted shared senderKey origin stays
  | other before op spares ih =>
    refine ih.carryOut ?_
    cases op with
    | purge now => exact (runs now).symm.trans spares
    | _ => exact spares

/-- While a token lasts, so do the policy and whatever else the repository was set up with. -/
theorem Lasting.validator {start later : Server} {id : TokenId} {record : TokenRecord} {claims : Claims}
    (lasting : start.Lasting id record.key claims later) (same : record.claims.expiration = claims.expiration)
    (h : start.Holds id record) : later.repository.validator = start.repository.validator := by
  induction lasting with
  | start => rfl
  | environment before host channel saves running ih => exact ih
  | @post server before e standard message stays ih =>
    have held := before.holds same h
    have receives := Endpoint.receive_receives standard message held.sound held.works.saves held.works.stored
    exact receives.stays.validator.trans ih
  | @add server before posted shared senderKey origin stays ih =>
    exact (server.repository.addToken_stays server.host posted shared senderKey origin).validator.trans ih
  | @other server before op spares ih => exact (server.repository.carryOut_stays server.host op).validator.trans ih

/-- A server gives the access that a token licenses which it holds, while the token is valid. -/
theorem Holds.access {server : Server} {id : TokenId} {record : TokenRecord} (h : server.Holds id record) {policy : ScopePolicy}
    (policed : server.repository.validator = policy.validator) {resource : String} {method : Method} {now : UInt64}
    (valid : record.claims.isValidAt now = true)
    (licenses : policy.Licenses (Entitlement.ofRecord record).audience record.scope resource method) :
    server.repository.access none record.key resource method now = .allowed := by
  have visible : server.repository.visible = server.repository.state := if_pos h.works.isOpen
  rw [Repository.access, visible, policed]
  exact Entitlement.decide_of_licenses
    (h.sound.indexed.mem_entitlements_iff.mpr ⟨id, record, h.found, rfl, valid, rfl⟩) licenses

end Server

namespace Endpoint

/-- A server on which a token was admitted holds it. -/
theorem Receives.holds {e : Endpoint} {message : Message} {before after : Server} {admitted : AdmittedToken}
    (h : e.Receives message before (.ok admitted) after) (works : before.Works) (sound : before.repository.state.IsSound) :
    ∃ claims origin t record, e.Presents message before claims origin t ∧ after.Holds admitted.id record ∧
      (∀ k, k ≠ .cti → k ≠ .cnf → record.claims.known k = claims.known k) ∧
      (record.key = admitted.key ↔ ¬e.Misattributes message before) := by
  obtain ⟨claims, origin, t, record, presents, found, states, own⟩ := h.exists_record
  have same := fun (k : ClaimKey) (apart : k ≠ .cti) (other : k ≠ .cnf) => states.known_eq apart other
  refine ⟨claims, origin, t, record, presents, ⟨works.of_stays h.isOpen h.stays, h.isSound sound, found, ?_⟩, same, own⟩
  rw [h.stays.clock, Claims.isExpiredAt, Claims.expiration, same .exp (by decide) (by decide)]
  exact not_isExpiredAt_of_validate presents.valid

/-- A token that is admitted gives the access that its own claims license, from then on and at every time at which they are valid,
for as long as it is left alone. What it gives, it gives to the holder of the key that it is bound to, which is the one that the
reply names unless the token was taken for one of another key. -/
theorem receive_endures {e : Endpoint} (standard : e.profile.IsStandard) {server : Server}
    (sound : server.repository.state.IsSound) (saves : server.repository.Saves server.host)
    (stored : server.repository.IsStored) {policy : ScopePolicy} (policed : server.repository.validator = policy.validator)
    {message : Message} {admitted : AdmittedToken} (result : (e.receive message server).1.result = .ok admitted) :
    ∃ request claims origin audience claim scope record,
      e.read message = .ok (request, claims, origin) ∧ claims.audience = some audience ∧ claims.scope = some claim ∧
      Scope.ofClaim claim = .ok scope ∧ (record.key = admitted.key ↔ ¬e.Misattributes message server) ∧
      ∀ later, (e.receive message server).2.Lasting admitted.id record.key claims later →
        later.repository.state.tokens[admitted.id]? = some record ∧
        ∀ resource method now, claims.isValidAt now = true → policy.Licenses audience scope resource method →
          later.repository.access none record.key resource method now = .allowed := by
  obtain ⟨_, adds, _, _⟩ := admits_of_receive standard.isTame result
  have works : server.Works := ⟨(Repository.addToken_ok adds).1, saves, stored⟩
  have receives := receive_receives standard message sound saves stored
  rw [result] at receives
  obtain ⟨claims, origin, t, record, presents, holds, same, own⟩ := receives.holds works sound
  obtain ⟨request, read⟩ := presents.read
  obtain ⟨_, audience, claim, scope, present, _, given, parsed, _⟩ := of_validate presents.valid
  have ends : record.claims.expiration = claims.expiration := same .exp (by decide) (by decide)
  have begins : record.claims.notBefore = claims.notBefore := same .nbf (by decide) (by decide)
  have licensed : (Entitlement.ofRecord record).audience = audience ∧ record.scope = scope := by
    have aud : record.claims.audience = some audience := (same .aud (by decide) (by decide)).trans present
    have stated := (holds.sound.own _ _ holds.found).scope
    rw [show record.claims.scope = some claim from (same .scope (by decide) (by decide)).trans given, Option.map_some,
      parsed, Option.some.injEq, Except.ok.injEq] at stated
    exact ⟨by rw [Entitlement.ofRecord, aud, Option.getD_some], stated.symm⟩
  refine ⟨request, claims, origin, audience, claim, scope, record, read, present, given, parsed, own, ?_⟩
  intro later lasting
  have held := lasting.holds ends holds
  have still := (lasting.validator ends holds).trans (receives.stays.validator.trans policed)
  refine ⟨held.found, fun resource method now valid licenses => held.access still ?_ ?_⟩
  · rw [Claims.isValidAt, begins, ends]
    exact valid
  · rw [licensed.1, licensed.2]
    exact licenses

namespace Sample

/-- An endpoint whose issuer knows a token for `a` that ends, and another one that does not. -/
def busy : Endpoint :=
  { endpoint with
    introspection := some fun text =>
      if text = "x" then .active (claims.set .exp 9) else if text = "y" then .active (claims.set .cti [2]) else .inactive }

/-- The message with the reference that the issuer does not know. -/
def stray : Message := { payload := [0x61, 0x7a] }

/-- A server whose scopes are up to the policy of the endpoint. -/
def policed : Server := { server with repository := { server.repository with validator := policy.validator } }

/-- What becomes of a server as another token is added for `a`, time passes, tokens are purged, and a message is rejected. -/
def traffic (server : Server) : Server :=
  let joined := (busy.receive unknown server).2
  let waited := { joined with host := { joined.host with clock := 8 } }
  let purged := waited.step (.other (.purge 8))
  (busy.receive stray purged).2

/-- Neither message has a sender, so that a token which ends at 9 lasts. -/
theorem lasting_traffic {server : Server} (unsaved : (busy.receive unknown server).2.repository.store = none) (key : KeyName) :
    server.Lasting ⟨[1]⟩ key (claims.set .exp 9) (traffic server) := by
  have running : (claims.set .exp 9).isExpiredAt 8 = false := by decide +kernel
  refine .post (.other (.environment (.post .start .dtls unknown ?_) _ _ ?_ running) (.purge 8) running) .dtls stray ?_
  · exact fun updates => not_updates_of_sender rfl updates.1
  · intro path stored
    rw [unsaved] at stored
    nomatch stored
  · exact fun updates => not_updates_of_sender rfl updates.1

end Sample

/-- The token gives access until just before its end, whatever happens around it. -/
theorem receive_endures_of_traffic :
    ∃ admitted, (Sample.busy.receive Sample.known Sample.policed).1.result = .ok admitted ∧ admitted.key = ⟨"a"⟩ ∧
      (Sample.traffic (Sample.busy.receive Sample.known Sample.policed).2).repository.tokensOfKey ⟨"a"⟩ = [⟨[1]⟩, ⟨[2]⟩] ∧
      (Sample.traffic (Sample.busy.receive Sample.known Sample.policed).2).repository.access none ⟨"a"⟩ "temp" .get 8 =
        .allowed := by
  have done : (Sample.busy.receive Sample.known Sample.policed).1.result.toOption.map (fun a => (a.id, a.key)) =
      some (⟨[1]⟩, ⟨"a"⟩) := by decide +kernel
  obtain ⟨admitted, ok, same⟩ := Option.map_eq_some_iff.mp done
  obtain ⟨id, key⟩ := Prod.mk.inj same
  have result := Repository.eq_ok_of_toOption ok
  have sound : Sample.policed.repository.state.IsSound :=
    show Repository.Sample.repository.state.IsSound from Repository.Sample.orderly_repository.isSound_and_isJustAfter.1
  obtain ⟨_, claims, _, audience, claim, scope, record, read, present, given, parsed, bound, endures⟩ :=
    receive_endures (e := Sample.busy) .dtls sound nofun nofun rfl result
  obtain ⟨request, presented⟩ : ∃ request, Sample.busy.read Sample.known =
      .ok (request, Sample.claims.set .exp 9, .reference "x") := ⟨_, rfl⟩
  rw [presented] at read
  cases read
  cases given
  cases parsed
  cases present
  have own : record.key = ⟨"a"⟩ := (bound.mpr (not_misattributes_of_tokens (by rfl) _)).trans key
  refine ⟨admitted, result, key, by decide +kernel, ?_⟩
  rw [id, own] at endures
  exact (endures _ (Sample.lasting_traffic (by decide +kernel) _)).2 "temp" .get 8 (by decide +kernel)
    ⟨"r_temp", by decide +kernel, by decide +kernel⟩

end Endpoint

end TokenGate
