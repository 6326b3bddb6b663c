import TokenGate.Proofs.Access.History
import TokenGate.Proofs.Admission.Commitments
import TokenGate.Proofs.Oscore.Identifiers

/-!
# Updates under OSCORE

A client that uses OSCORE gets its rights updated without another exchange if its token only refers to a key. Whose rights these
are is a matter of the sender. It has to be bound to the key, or it is bound to none and has the very name of the key; a client
whose sender is no longer bound to its own key may be taken for the holder of another one in this way.
-/

namespace TokenGate

/-! ## Contexts -/

namespace Profile

variable {request : Request} {claims : Claims} {exchanging : Bool} {setup : Setup}

/-- Welcoming a member leaves the contexts as they are. -/
theorem JoinRequest.contexts_welcome (join : JoinRequest) (known : Std.ExtTreeMap String GroupInfo) (token : CommittedToken)
    (contexts : Oscore.Contexts) : Action.Keeps (fun server => server.channel.contexts = contexts) (join.welcome known token) :=
  .bind (fun _ same => same) fun _ => .bind (fun _ same => same) fun _ => .pure _

/-- Without an exchange, no use is made of the contexts. -/
theorem Asks.contexts_eq (asks : Asks request claims false setup) (token : CommittedToken) (contexts : Oscore.Contexts) :
    Action.Keeps (fun server => server.channel.contexts = contexts) (setup token) := by
  generalize none : false = exchanging at asks
  induction asks with
  | nothing => exact .pure _
  | exchange _ => nomatch none
  | welcoming _ join known ih => exact .bind (ih none) fun _ => .bind (join.contexts_welcome known token contexts) fun _ => .pure _

/-- What is left to do once an identifier is handed out does not hand out another one. -/
theorem OscoreExchange.lastId_finish (key : KeyName) (nonce2 id2 : Bytes) (context : Oscore.Context) (id : UInt8) :
    Action.Keeps (fun server => server.channel.contexts.lastId = id) (finish key nonce2 id2 context) := by
  refine .bind (fun _ same => same) fun _ => .bind ?_ fun evicted => ?_
  · intro server same
    refine Eq.trans ?_ same
    change (server.channel.contexts.insert ⟨context, key⟩).2.lastId = _
    unfold Oscore.Contexts.insert
    split <;> rfl
  · cases evicted with
    | none => exact .pure _
    | some old => exact .bind (.tryCatch (fun _ same => same) fun _ => .pure _) fun _ => .pure _

/-- An exchange hands out an identifier, even if nothing comes of it. -/
theorem OscoreExchange.lastId_establish (exchange : OscoreExchange) (token : CommittedToken) (server : Server) :
    ((exchange.establish token).run server).2.channel.contexts.lastId ≠ server.channel.contexts.lastId := by
  have taken := (server.channel.contexts.lastId_takeId exchange.id1).2
  rw [establish_eq]
  rw [Action.run_bind, Action.run_freshNonce]
  simp only
  rw [Action.run_bind, Action.run_onContexts]
  simp only
  refine Eq.trans_ne ?_ taken
  refine Action.Keeps.bind ?_ (fun context => lastId_finish token.key _ _ context _) _ rfl
  exact fun _ same => same

/-- An exchange is made with the material in the claims, and hands out an identifier. -/
theorem Asks.exchanges (asks : Asks request claims true setup) :
    (∃ material, claims.cnf = some (.oscore material)) ∧ ∀ token server,
      ((setup token).run server).2.channel.contexts.lastId ≠ server.channel.contexts.lastId := by
  generalize exchanges : true = exchanging at asks
  induction asks with
  | nothing => nomatch exchanges
  | @exchange exchange read =>
    refine ⟨?_, exchange.lastId_establish⟩
    unfold OscoreExchange.ofRequest at read
    simp only [bind, Except.bind] at read
    split at read
    · nomatch read
    split at read
    · nomatch read
    split at read
    · rename_i material confirmed
      exact ⟨material, confirmed⟩
    · nomatch read
  | @welcoming _ setup _ join known ih =>
    obtain ⟨confirmed, hands⟩ := ih exchanges
    refine ⟨confirmed, fun token server => ?_⟩
    have handed := hands token server
    unfold Setup.welcoming
    rw [Action.run_bind]
    rcases ran : (setup token).run server with ⟨failure | parameters, server'⟩
    · rw [ran] at handed
      exact handed
    · rw [ran] at handed
      have keeps : Action.Keeps (fun last => last.channel.contexts = server'.channel.contexts) (do
          let more ← join.welcome known token
          Pure.pure (parameters ++ more) : Action Failure Parameters) :=
        .bind (join.contexts_welcome known token _) fun _ => .pure _
      have same := keeps server' rfl
      simp only at same ⊢
      rw [same]
      exact handed

end Profile

/-! ## Tokens replaced -/

/-- An update leaves the key with one token. -/
theorem RepositoryState.idsOf_withToken_of_update (s : RepositoryState) (t : Submission) :
    ((s.withToken t true).idsOf t.key).toList = [t.id] := by
  have cleared : ((s.clearTokens t.key).learnKey t).idsOf t.key = ∅ := by
    rw [idsOf_eq, byKey_learnKey, clearTokens, Std.ExtTreeMap.getElem?_erase_self]
    rfl
  have filed : (s.withToken t true).idsOf t.key = (∅ : Std.ExtTreeSet TokenId).insert t.id := by
    rw [withToken, if_pos rfl, insertToken, idsOf_eq]
    simp only [Submission.record, Std.ExtTreeMap.getElem?_insert_self, Option.getD_some, cleared]
  rw [filed]
  rfl

/-- What it is for a token with given claims to be taken for an update of the rights of a key. -/
theorem Repository.updateApplies_eq_true_iff (r : Repository) (host : Host) (claims : Claims) (senderKey : Option KeyName) :
    r.updateApplies host claims senderKey = true ↔ ∃ kid, claims.cnf = some (.kid kid) ∧
      senderKey = some (.ofKid kid) ∧ r.visible.hasUnexpired (.ofKid kid) host.clock = true := by
  unfold updateApplies
  split
  · rename_i kid confirmed
    simp only [RepositoryState.isUpdate, Bool.and_eq_true, beq_iff_eq]
    constructor
    · rintro ⟨sender, held⟩
      exact ⟨kid, confirmed, sender, held⟩
    · rintro ⟨other, same, sender, held⟩
      rw [confirmed] at same
      cases same
      exact ⟨sender, held⟩
  · rename_i other
    refine iff_of_false Bool.false_ne_true ?_
    rintro ⟨kid, confirmed, _⟩
    exact other kid confirmed

/-- Where only channels and challenges change, the tokens of a key stay. -/
theorem Server.Binds.tokensOfKey {before after : Server} (h : before.Binds after) (key : KeyName) :
    after.repository.tokensOfKey key = before.repository.tokensOfKey key := by
  unfold Repository.tokensOfKey Repository.visible
  rw [h.isOpen]
  split
  · rw [RepositoryState.idsOf, RepositoryState.idsOf, h.byKey]
  · rfl

namespace Endpoint

variable {e : Endpoint} {message : Message} {before : Server}

/-- A message by which the rights of a key are updated: its tokens are replaced, and no exchange takes place. -/
structure UpdatesRights (e : Endpoint) (message : Message) (before : Server) (key : KeyName) : Prop where
  held : before.repository.visible.hasUnexpired key before.host.clock = true
  replaced : ∃ admitted, (e.receive message before).1.result = .ok admitted ∧ admitted.key = key ∧
    (e.receive message before).2.repository.tokensOfKey key = [admitted.id]
  noExchange : (e.receive message before).2.channel.contexts = before.channel.contexts

/-- Whether the sender of a message is bound to a key, or is bound to none and has the name of the key. -/
def IsSentFor (message : Message) (before : Server) (key : KeyName) : Prop :=
  ∃ sender, message.sender = some sender ∧ (before.repository.keyOfSender? sender = some key ∨
    before.repository.keyOfSender? sender = none ∧ sender = key.text)

/-- The key of a sender is the one that is bound to it, or the one that it is named after. -/
theorem senderKey_eq_some_iff (message : Message) (before : Server) (key : KeyName) :
    senderKey message before = some key ↔ IsSentFor message before key := by
  rw [senderKey, Option.map_eq_some_iff]
  refine exists_congr fun sender => and_congr_right fun _ => ?_
  rw [resolveSender]
  cases before.repository.keyOfSender? sender with
  | none =>
    simp only [Option.getD_none, true_and]
    constructor
    · rintro rfl
      exact Or.inr rfl
    · rintro (bound | rfl)
      · cases bound
      · rfl
  | some bound => simp

/-- The addition that belongs to an admission, if it is one of an update. -/
theorem IsPrepared.updates {p : Prepared} {added : AddedToken} (prepared : e.IsPrepared message before p)
    (adds : (p.addition e before).result = .ok added) (agreed : added.isUpdate = p.accepted.isUpdate)
    (update : p.accepted.isUpdate = true) :
    (∃ kid, p.claims.cnf = some (.kid kid)) ∧ IsSentFor message before added.key ∧
      before.repository.visible.hasUnexpired added.key before.host.clock = true ∧
      (p.addTo e before).repository.tokensOfKey added.key = [added.id] := by
  have decided := prepared.isUpdate.symm.trans update
  obtain ⟨kid, confirmed, sender, held⟩ := (Repository.updateApplies_eq_true_iff _ _ _ _).mp decided
  obtain ⟨isOpen, t, outcome, made, added', rfl, counted⟩ := Repository.addToken_ok adds
  have named : t.key = .ofKid kid := ((Submission.isFrom_of_ofClaims made).of_kid confirmed).1.symm
  cases added' with
  | again known there => nomatch agreed.trans update
  | anew isUpdate _ admits =>
    obtain rfl : isUpdate = true := agreed.trans update
    refine ⟨⟨kid, confirmed⟩, ?_, ?_, ?_⟩
    · rw [← senderKey_eq_some_iff, sender, ← named]
      rfl
    · rw [named] at *
      exact held
    · have left : (p.addTo e before).repository = { before.repository with
          state := (before.repository.state.sweep before.host.clock).withToken t true } := counted
      rw [Repository.tokensOfKey, Repository.visible, left, if_pos isOpen]
      exact RepositoryState.idsOf_withToken_of_update _ t

/-- Under OSCORE, a message updates the rights of a key exactly if it is admitted with a token that only refers to the key. Its
sender is then bound to the key, or bound to none and called like the key. -/
theorem updatesRights_iff (uses : e.profile.UsesOscore) (message : Message) (before : Server) (key : KeyName) :
    e.UpdatesRights message before key ↔
      (∃ admitted, (e.receive message before).1.result = .ok admitted ∧ admitted.key = key) ∧
      (∃ request claims origin kid, e.read message = .ok (request, claims, origin) ∧ claims.cnf = some (.kid kid)) ∧
      IsSentFor message before key := by
  constructor
  · rintro ⟨_, ⟨admitted, result, rfl, _⟩, noExchange⟩
    refine ⟨⟨admitted, result, rfl⟩, ?_⟩
    have admits := admits_of_receive uses.isStandard.isTame result
    generalize (e.receive message before).2 = after at admits noExchange
    obtain @⟨p, added, extras, after, prepared, adds, agreed, setUp⟩ := admits
    have asks := uses.asks prepared.checked
    cases decided : p.accepted.isUpdate with
    | true =>
      obtain ⟨⟨kid, confirmed⟩, sent, _⟩ := prepared.updates adds agreed decided
      exact ⟨⟨_, _, _, kid, prepared.read, confirmed⟩, sent⟩
    | false =>
      rw [decided] at asks
      have handed := asks.exchanges.2 (p.committed added) (p.addTo e before)
      rw [setUp] at handed
      exact absurd (congrArg Oscore.Contexts.lastId noExchange) handed
  · rintro ⟨⟨admitted, result, rfl⟩, ⟨request, claims, origin, kid, read, confirmed⟩, _⟩
    have admits := admits_of_receive uses.isStandard.isTame result
    have received := result
    generalize left : (e.receive message before).2 = after at admits
    obtain @⟨p, added, extras, after, prepared, adds, agreed, setUp⟩ := admits
    have asks := uses.asks prepared.checked
    have same := prepared.read.symm.trans read
    cases decided : p.accepted.isUpdate with
    | true =>
      obtain ⟨_, _, held, single⟩ := prepared.updates adds agreed decided
      rw [decided] at asks
      have binds := asks.isTame.binds (p.committed added) (p.addTo e before)
      have contexts := asks.contexts_eq (p.committed added) before.channel.contexts (p.addTo e before) rfl
      rw [setUp] at binds contexts
      refine ⟨held, ⟨_, received, rfl, ?_⟩, ?_⟩
      · rw [left, binds.tokensOfKey]
        exact single
      · rw [left]
        exact contexts
    | false =>
      rw [decided] at asks
      obtain ⟨material, other⟩ := asks.exchanges.1
      cases same
      rw [confirmed] at other
      nomatch other

namespace Sample

/-- The endpoint for clients that use OSCORE. -/
def oscore : Endpoint := { endpoint with profile := .oscore }

/-- A message with the reference that the issuer knows, from a sender with the name of a key. -/
def namesake : Message := { payload := [0xa1, 0x01, 0x61, 0x78], sender := some "a" }

/-- A server on which `a` has a token, and no sender is bound. -/
def granted : Server := { server with repository := (Repository.Sample.add server.repository 2 0x61 none).repository }

end Sample

/-- The rights of a key are updated by a sender that is not bound to any key, since it is called like this one. -/
theorem updatesRights_iff_of_namesake :
    Sample.oscore.UpdatesRights Sample.namesake Sample.granted ⟨"a"⟩ ∧
      Sample.granted.repository.keyOfSender? "a" = none := by
  have unbound : Sample.granted.repository.keyOfSender? "a" = none := by decide +kernel
  refine ⟨(updatesRights_iff (e := Sample.oscore) .oscore _ _ _).mpr ⟨?_, ?_, ?_⟩, unbound⟩
  · have there : (Sample.oscore.receive Sample.namesake Sample.granted).1.result.toOption.any (·.key = ⟨"a"⟩) = true := by
      decide +kernel
    obtain ⟨admitted, some, own⟩ := Option.any_eq_true _ _ |>.mp there
    exact ⟨admitted, Repository.eq_ok_of_toOption some, of_decide_eq_true own⟩
  · exact ⟨_, _, _, [0x61], rfl, rfl⟩
  · exact ⟨"a", rfl, Or.inr ⟨unbound, rfl⟩⟩

end Endpoint

end TokenGate
