import TokenGate.Proofs.Access.History
import TokenGate.Proofs.Admission.Channels

/-!
# Exchanges

Both ends of an exchange come to the same keys. The server finds the context by the identifier that it replied with, the context is
the one that follows from what went over the channel, and it belongs to the key of the token. What the client derives with the roles
of the peers exchanged is the other side of it. For this, nothing has to be known of the repository, whose store may fail to take
the changes at any time; of the contexts, only that there are not too many, and that the server chose their identifiers.
-/

namespace TokenGate

/-! ## Two sides of a context -/

namespace Oscore

/-- A context and that of the other peer: what one of them sends with, the other receives with. -/
structure Context.IsOppositeOf (peer context : Context) : Prop where
  alg : peer.alg = context.alg
  idContext : peer.idContext = context.idContext
  senderId : peer.senderId = context.recipientId
  recipientId : peer.recipientId = context.senderId
  senderKey : peer.keys.senderKey = context.keys.recipientKey
  recipientKey : peer.keys.recipientKey = context.keys.senderKey
  commonIv : peer.keys.commonIv = context.keys.commonIv

/-- Where one peer can derive its keys, so can the other one. -/
theorem deriveKeys_swap {secret salt senderId recipientId : Bytes} {idContext : Option Bytes} {alg : Int64} {keys : DerivedKeys}
    (derived : deriveKeys secret salt idContext senderId recipientId alg = .ok keys) :
    deriveKeys secret salt idContext recipientId senderId alg =
      .ok { senderKey := keys.recipientKey, recipientKey := keys.senderKey, commonIv := keys.commonIv } := by
  unfold deriveKeys at derived ⊢
  split at derived
  · nomatch derived
  · cases derived
    rfl

/-- Peers that derive from the same material and nonces, each with the identifiers in its own order, get the two sides of a
context. -/
theorem derive_swap {material : Material} {nonce1 nonce2 senderId recipientId : Bytes} {context : Context}
    (h : derive material nonce1 nonce2 senderId recipientId = .ok context) :
    ∃ peer, derive material nonce1 nonce2 recipientId senderId = .ok peer ∧ peer.IsOppositeOf context := by
  obtain ⟨version, hkdf, apart, keys, derived, rfl⟩ := derive_eq_ok_iff.mp h
  exact ⟨_, derive_eq_ok_iff.mpr ⟨version, hkdf, Ne.symm apart, _, deriveKeys_swap derived, rfl⟩,
    rfl, rfl, rfl, rfl, rfl, rfl, rfl⟩

namespace Contexts

/-- A context that came in is found by its identifier. -/
theorem find_insert (contexts : Contexts) (entry : StoredContext) :
    ((contexts.insert entry).2.find entry.context.recipientId).1 = some entry := by
  have first : ∃ others, (contexts.insert entry).2.entries = entry :: others := by
    unfold insert
    split
    · exact ⟨_, rfl⟩
    · exact ⟨_, rfl⟩
  obtain ⟨others, entries⟩ := first
  simp only [find, entries, List.find?_cons, beq_self_eq_true]

/-- It is one of the contexts that makes room for another one. -/
theorem mem_of_insert {contexts : Contexts} {entry old : StoredContext} (evicted : (contexts.insert entry).1 = some old) :
    old ∈ contexts.entries := by
  unfold insert at evicted
  split at evicted
  · nomatch evicted
  · exact List.mem_of_getLast? evicted

/-- The contexts after an insertion are among those before it and the new one. -/
theorem mem_insert {contexts : Contexts} {entry other : StoredContext} (among : other ∈ (contexts.insert entry).2.entries) :
    other = entry ∨ other ∈ contexts.entries := by
  unfold insert at among
  split at among
  · exact List.mem_cons.mp among
  · exact (List.mem_cons.mp among).imp_right fun stays => (List.dropLast_subset _) stays

/-- No more contexts than there may be, whose identifiers were handed out here. -/
structure IsIssued (contexts : Contexts) : Prop where
  few : contexts.entries.length ≤ maxContexts
  single : ∀ entry ∈ contexts.entries, ∃ id, entry.context.recipientId = [id]

/-- The order of contexts does not matter. -/
theorem IsIssued.perm {contexts contexts' : Contexts} (h : contexts.IsIssued) (perm : contexts'.entries.Perm contexts.entries) :
    contexts'.IsIssued :=
  ⟨perm.length_eq ▸ h.few, fun entry among => h.single entry (perm.mem_iff.mp among)⟩

/-- A context under an identifier that was given out may be put in. -/
theorem IsIssued.insert {contexts : Contexts} (h : contexts.IsIssued) {entry : StoredContext} {id : UInt8}
    (own : entry.context.recipientId = [id]) : (contexts.insert entry).2.IsIssued where
  few := contexts.length_insert_le entry h.few
  single := by
    intro other among
    rcases mem_insert among with rfl | before
    · exact ⟨id, own⟩
    · exact h.single other before

end Contexts

end Oscore

/-! ## Servers that make exchanges -/

namespace Profile

/-- What is left to do once a context is derived stores it under the identifier that was handed out. -/
theorem OscoreExchange.keeps_isIssued_finish (key : KeyName) (nonce2 : Bytes) {id : UInt8} {context : Oscore.Context}
    (own : context.recipientId = [id]) :
    Action.Keeps (fun server => server.channel.contexts.IsIssued) (finish key nonce2 [id] context) := by
  refine .bind (fun _ issued => issued) fun _ => ?_
  refine .bind (fun _ issued => Oscore.Contexts.IsIssued.insert issued own) fun evicted => ?_
  cases evicted with
  | none => exact .pure _
  | some old => exact .bind (.tryCatch (fun _ issued => issued) fun _ => .pure _) fun _ => .pure _

/-- A server on which an exchange has begun: a nonce was drawn and an identifier was handed out. -/
def OscoreExchange.begun (exchange : OscoreExchange) (server : Server) : Server :=
  { server with
    channel := { server.channel with
      nonces := (server.channel.nonces.take Action.nonceLength).2
      contexts := (server.channel.contexts.takeId exchange.id1).2 } }

/-- Once an exchange has begun, a context is derived from the nonce and the identifier. -/
theorem OscoreExchange.run_establish (exchange : OscoreExchange) (token : CommittedToken) (server : Server) :
    (exchange.establish token).run server =
      match Oscore.derive exchange.material exchange.nonce1 (server.channel.nonces.take Action.nonceLength).1 exchange.id1
        [(server.channel.contexts.takeId exchange.id1).2.lastId] with
      | .error _ => (.error (.rejected .malformedCnf), exchange.begun server)
      | .ok context => (finish token.key (server.channel.nonces.take Action.nonceLength).1
          [(server.channel.contexts.takeId exchange.id1).2.lastId] context).run (exchange.begun server) := by
  rw [establish_eq, Action.run_bind, Action.run_freshNonce]
  simp only
  rw [Action.run_bind, Action.run_onContexts]
  simp only
  rw [Action.run_bind, Action.run_ofExcept, (server.channel.contexts.lastId_takeId exchange.id1).1]
  cases Oscore.derive exchange.material exchange.nonce1 (server.channel.nonces.take Action.nonceLength).1 exchange.id1
    [(server.channel.contexts.takeId exchange.id1).2.lastId] <;> rfl

/-- Setups only store contexts under identifiers that are handed out for them. -/
theorem OscoreExchange.keeps_isIssued (exchange : OscoreExchange) (token : CommittedToken) :
    Action.Keeps (fun server => server.channel.contexts.IsIssued) (exchange.establish token) := by
  intro server issued
  have kept : (exchange.begun server).channel.contexts.IsIssued := issued.perm (List.Perm.refl _)
  rw [run_establish]
  split
  · exact kept
  · rename_i context derived
    exact keeps_isIssued_finish token.key _ (Oscore.derive_ok derived).2.1 _ kept

/-- What a request asks for keeps identifiers among those that are given out. -/
theorem Asks.keeps_isIssued {request : Request} {claims : Claims} {exchanging : Bool} {setup : Setup}
    (asks : Asks request claims exchanging setup) (token : CommittedToken) :
    Action.Keeps (fun server => server.channel.contexts.IsIssued) (setup token) := by
  induction asks with
  | nothing => exact .pure _
  | exchange _ => exact OscoreExchange.keeps_isIssued _ token
  | welcoming _ join known ih =>
    have welcomes : Action.Keeps (fun server => server.channel.contexts.IsIssued) (join.welcome known token) :=
      .bind (fun _ holds => holds) fun _ => .bind (fun _ holds => holds) fun _ => .pure _
    exact .bind ih fun _ => .bind welcomes fun _ => .pure _

end Profile

namespace Endpoint

variable {e : Endpoint} {message : Message} {before : Server}

/-- The channel of a server after a message is as it was, or as the setup for the token left it. -/
theorem channel_receive (tame : e.profile.IsTame) (message : Message) (before : Server) :
    (e.receive message before).2.channel = before.channel ∨
    ∃ p added, e.IsPrepared message before p ∧
      (e.receive message before).2.channel = ((p.accepted.setup (p.committed added)).run (p.addTo e before)).2.channel := by
  have ran : ((e.run message).run before).2.channel = before.channel ∨
      ∃ p added, e.IsPrepared message before p ∧
        ((e.run message).run before).2.channel = ((p.accepted.setup (p.committed added)).run (p.addTo e before)).2.channel := by
    rw [run_eq_prepare tame]
    cases prepares : e.prepare message before with
    | error failed => exact Or.inl rfl
    | ok p =>
      simp only
      rw [Endpoint.after, Action.run_adapt, run_commit_eq]
      cases adds : (p.addition e before).result with
      | error failure => exact Or.inl rfl
      | ok added =>
        by_cases agreed : added.isUpdate = p.accepted.isUpdate
        · refine Or.inr ⟨p, added, (isPrepared_iff e message before p).mpr prepares, ?_⟩
          simp only
          rw [run_finish_of_agreed agreed]
          rcases (p.accepted.setup (p.committed added)).run (p.addTo e before) with ⟨failure | extras, after⟩
          · simp only [run_failAfter]
          · rfl
        · left
          simp only [finish, ne_eq, if_pos agreed, run_failAfter]
          rfl
  unfold receive
  rcases run : (e.run message).run before with ⟨⟨stage, failure⟩ | admitted, after⟩
  · rw [run] at ran
    cases failure with
    | detached => exact Or.inl rfl
    | rejected rejection => exact ran
    | internal text => exact ran
  · rw [run] at ran
    exact ran

end Endpoint

namespace Server

/-- A server that was fresh once, and to which contexts only come by messages. In between contexts are used, and anything may happen
to the host and to the repository. -/
inductive Serves : Server → Prop
  | start (host : Host) (repository : Repository) (nonces challenges : RandomSource) :
    Serves { host, repository, channel := { nonces, challenges } }
  | meanwhile {server : Server} (before : Serves server) (host : Host) (repository : Repository) :
    Serves { server with host, repository }
  | post {server : Server} (before : Serves server) {e : Endpoint} (standard : e.profile.IsStandard) (message : Message) :
    Serves (e.receive message server).2
  | find {server : Server} (before : Serves server) (recipientId : Bytes) :
    Serves { server with channel := { server.channel with contexts := (server.channel.contexts.find recipientId).2 } }

/-- A server that serves has only identifiers that are given out. -/
theorem Serves.isIssued {server : Server} (h : server.Serves) : server.channel.contexts.IsIssued := by
  induction h with
  | start host repository nonces challenges => exact ⟨Nat.zero_le _, nofun⟩
  | meanwhile _ host repository ih => exact ih
  | @post server before e standard message ih =>
    rcases Endpoint.channel_receive standard.isTame message server with same | ⟨p, added, prepared, same⟩
    · rw [same]
      exact ih
    · rw [same]
      obtain ⟨_, asks⟩ := standard.asks prepared.checked
      exact asks.keeps_isIssued (p.committed added) (p.addTo e server) ih
  | find _ recipientId ih => exact ih.perm (Oscore.Contexts.entries_find_perm _ recipientId)

end Server

/-! ## Bound senders and given challenges -/

namespace Repository

/-- A sender that was bound is known. -/
theorem keyOfSender?_bindSender {r : Repository} {host : Host} {sender : String} {key : KeyName}
    (ok : (r.bindSender host sender key).result = .ok ()) :
    (r.bindSender host sender key).repository.keyOfSender? sender = some key := by
  obtain ⟨isOpen, outcome, changed, _, counted⟩ := perform_ok ok
  cases changed
  have counted : (r.bindSender host sender key).repository = _ := counted
  rw [counted, keyOfSender?, visible, if_pos isOpen]
  exact Std.ExtTreeMap.getElem?_insert_self

/-- To forget a sender does nothing to another one, whether it comes about or not. -/
theorem keyOfSender?_unbindSender (r : Repository) (host : Host) {sender other : String} (apart : sender ≠ other) :
    (r.unbindSender host sender).repository.keyOfSender? other = r.keyOfSender? other := by
  have isOpen : (r.unbindSender host sender).repository.isOpen = r.isOpen := (r.unbindSender_binds host sender).isOpen
  have changes : (Operation.unbind sender).Changes r.state (r.unbindSender host sender).repository.state :=
    r.changes_carryOut host (.unbind sender)
  rw [keyOfSender?, keyOfSender?, visible, visible, isOpen]
  split
  · generalize (r.unbindSender host sender).repository.state = state at changes
    cases changes with
    | nothing => rfl
    | unbind => simp only [Std.ExtTreeMap.getElem?_erase, compare_eq_eq_iff, if_neg apart]
  · rfl

/-- A challenge that was given is known, and the senders are as they were. -/
theorem challenge?_setChallenge {r : Repository} {host : Host} {key : KeyName} {challenge : Bytes}
    (ok : (r.setChallenge host key challenge).result = .ok ()) :
    (r.setChallenge host key challenge).repository.challenge? key = some challenge ∧
      ∀ sender, (r.setChallenge host key challenge).repository.keyOfSender? sender = r.keyOfSender? sender := by
  obtain ⟨isOpen, outcome, changed, _, counted⟩ := perform_ok ok
  cases changed
  have counted : (r.setChallenge host key challenge).repository = _ := counted
  constructor
  · rw [counted, challenge?, visible, if_pos isOpen]
    exact Std.ExtTreeMap.getElem?_insert_self
  · intro sender
    rw [counted]
    simp only [keyOfSender?, visible, if_pos isOpen]
    rfl

end Repository

/-! ## What an exchange comes to -/

namespace Profile

open OscoreExchange (senderOf)

/-- What a server has of an exchange once it is made: the context that follows from it belongs to a key, is found by the identifier
that was handed out for it, and authenticates with the key. -/
structure OscoreExchange.IsMade (exchange : OscoreExchange) (key : KeyName) (nonce2 id2 : Bytes) (context : Oscore.Context)
    (after : Server) : Prop where
  derived : Oscore.derive exchange.material exchange.nonce1 nonce2 exchange.id1 id2 = .ok context
  found : (after.channel.contexts.find id2).1 = some ⟨context, key⟩
  bound : after.repository.keyOfSender? (senderOf id2) = some key

/-- The parameters of a reply that tell the client about the server's side of an exchange. -/
def OscoreExchange.replied (nonce2 id2 : Bytes) : Parameters :=
  [(Parameter.nonce2.label, .bytes nonce2), (Parameter.serverRecipientId.label, .bytes id2)]

/-- Where the identifier of a derived context is not in use, what is left to do makes the exchange. -/
theorem OscoreExchange.isMade_of_finish {exchange : OscoreExchange} {key : KeyName} {nonce2 : Bytes} {id : UInt8}
    {context : Oscore.Context} (derived : Oscore.derive exchange.material exchange.nonce1 nonce2 exchange.id1 [id] = .ok context)
    {server after : Server} (issued : server.channel.contexts.IsIssued)
    (fresh : ∀ entry ∈ server.channel.contexts.entries, entry.context.recipientId ≠ [id]) {extras : Parameters}
    (ran : (finish key nonce2 [id] context).run server = (.ok extras, after)) :
    extras = replied nonce2 [id] ∧ exchange.IsMade key nonce2 [id] context after := by
  have own : context.recipientId = [id] := (Oscore.derive_ok derived).2.1
  have found := server.channel.contexts.find_insert ⟨context, key⟩
  rw [own] at found
  unfold finish at ran
  rw [Action.run_bind, Action.run_committing] at ran
  cases binds : (server.repository.bindSender server.host (senderOf [id]) key).result with
  | error failure =>
    rw [binds] at ran
    nomatch ran
  | ok _ =>
    have bound := Repository.keyOfSender?_bindSender binds
    rw [binds] at ran
    simp only [Except.mapError] at ran
    rw [Action.run_bind, Action.run_onContexts] at ran
    simp only at ran
    cases evicted : (server.channel.contexts.insert ⟨context, key⟩).1 with
    | none =>
      rw [evicted] at ran
      cases ran
      exact ⟨rfl, derived, found, bound⟩
    | some old =>
      -- The context that makes room received with another byte, so its sender is another one.
      have apart : senderOf old.context.recipientId ≠ senderOf [id] := by
        obtain ⟨byte, single⟩ := issued.single old (Oscore.Contexts.mem_of_insert evicted)
        intro same
        rw [single] at same
        apply fresh old (Oscore.Contexts.mem_of_insert evicted)
        rw [single, senderOf_singleton_inj same]
      rw [evicted] at ran
      simp only at ran
      rw [Action.run_bind, Action.run_tryCatch, Action.run_committing] at ran
      have kept := (Repository.keyOfSender?_unbindSender (server.repository.bindSender server.host (senderOf [id]) key).repository
        (server.repository.bindSender server.host (senderOf [id]) key).host apart).trans bound
      generalize (server.repository.bindSender server.host (senderOf [id]) key).repository = repository at ran kept
      generalize (server.repository.bindSender server.host (senderOf [id]) key).host = host at ran kept
      cases unbinds : (repository.unbindSender host (senderOf old.context.recipientId)).result with
      | error failure =>
        rw [unbinds] at ran
        cases ran
        exact ⟨rfl, derived, found, kept⟩
      | ok _ =>
        rw [unbinds] at ran
        cases ran
        exact ⟨rfl, derived, found, kept⟩

/-- An exchange that is established is made. -/
theorem OscoreExchange.isMade_of_establish {exchange : OscoreExchange} {token : CommittedToken} {server after : Server}
    (issued : server.channel.contexts.IsIssued) {extras : Parameters}
    (ran : (exchange.establish token).run server = (.ok extras, after)) :
    ∃ nonce2 id2 context, extras = replied nonce2 id2 ∧ exchange.IsMade token.key nonce2 id2 context after := by
  have kept : (exchange.begun server).channel.contexts.IsIssued := issued.perm (List.Perm.refl _)
  have fresh := (server.channel.contexts.takeId_fresh issued.few exchange.id1).2
  rw [(server.channel.contexts.lastId_takeId exchange.id1).1] at fresh
  rw [run_establish] at ran
  split at ran
  · nomatch ran
  · rename_i context derived
    exact ⟨_, _, context, isMade_of_finish derived kept fresh ran⟩

/-- A welcome replies with the challenge that is given, and leaves an exchange as it was made. -/
theorem JoinRequest.challenge?_of_welcome {join : JoinRequest} {known : Std.ExtTreeMap String GroupInfo} {token : CommittedToken}
    {server after : Server} {more : Parameters} (ran : (join.welcome known token).run server = (.ok more, after)) :
    (∃ challenge rest, more = (Parameter.kdcChallenge.label, .bytes challenge) :: rest ∧
      after.repository.challenge? token.key = some challenge) ∧
    after.channel.contexts = server.channel.contexts ∧
      ∀ sender, after.repository.keyOfSender? sender = server.repository.keyOfSender? sender := by
  have drawn : ∃ challenge channel, Action.freshChallenge.run server = (.ok challenge, { server with channel }) ∧
      channel.contexts = server.channel.contexts := ⟨_, _, rfl, rfl⟩
  obtain ⟨challenge, channel, draws, contexts⟩ := drawn
  unfold welcome at ran
  rw [Action.run_bind_of_ok draws, Action.run_bind, Action.run_committing] at ran
  simp only at ran
  cases gives : (server.repository.setChallenge server.host token.key challenge).result with
  | error failure =>
    rw [gives] at ran
    nomatch ran
  | ok _ =>
    obtain ⟨given, same⟩ := Repository.challenge?_setChallenge gives
    rw [gives] at ran
    cases ran
    exact ⟨⟨challenge, _, rfl, given⟩, contexts, same⟩

/-! ## First requests -/

/-- The profiles for exchanges: OSCORE, without or with the joining of groups. -/
inductive Exchanges : (joining : Bool) → Profile → Prop
  | alone : Exchanges false .oscore
  | joining (policy : GroupPolicy) (known : Std.ExtTreeMap String GroupInfo) : Exchanges true (oscore.groupJoin policy known)

/-- A profile that exchanges nonces uses OSCORE. -/
theorem Exchanges.usesOscore {joining : Bool} {profile : Profile} (h : profile.Exchanges joining) : profile.UsesOscore := by
  cases h with
  | alone => exact .oscore
  | joining policy known => exact .groupJoin .oscore policy known

/-- What an exchange is for: the parameters of a request, and the material of a token. -/
structure OscoreExchange.IsFor (exchange : OscoreExchange) (request : Request) (claims : Claims) : Prop where
  nonce1 : request.find? .nonce1 = some (.bytes exchange.nonce1)
  id1 : request.find? .clientRecipientId = some (.bytes exchange.id1)
  material : claims.cnf = some (.oscore exchange.material)

/-- A byte string that was read from a request is there. -/
theorem OscoreExchange.find?_of_bytesParam {request : Request} {parameter : Parameter} {name : String} {maxLength : Nat}
    {bs : Bytes} (read : bytesParam request parameter name maxLength = .ok bs) : request.find? parameter = some (.bytes bs) := by
  unfold bytesParam at read
  split at read
  · rename_i given
    split at read
    · cases read
      exact given
    · nomatch read
  · nomatch read

/-- What a request is read as is in it, and in the token. -/
theorem OscoreExchange.isFor_of_ofRequest {request : Request} {claims : Claims} {exchange : OscoreExchange}
    (read : ofRequest request claims = .ok exchange) : exchange.IsFor request claims := by
  unfold ofRequest at read
  cases nonce : bytesParam request .nonce1 "nonce1" Oscore.maxNonceLength with
  | error rejection =>
    rw [nonce] at read
    nomatch read
  | ok nonce1 =>
    cases id : bytesParam request .clientRecipientId "ace_client_recipientid" Oscore.maxIdLength with
    | error rejection =>
      simp only [nonce, id, bind, Except.bind] at read
      nomatch read
    | ok id1 =>
      simp only [nonce, id, bind, Except.bind] at read
      split at read
      · rename_i material confirmed
        cases read
        exact ⟨find?_of_bytesParam nonce, find?_of_bytesParam id, confirmed⟩
      · nomatch read

/-- A join is read from every token with a group scope. -/
theorem JoinRequest.isSome_of_ofRequest {policy : GroupPolicy} {request : Request} {claims : Claims} {bs : Bytes}
    (scope : claims.scope = some (.binary bs)) {wanted : Option JoinRequest} (read : ofRequest policy request claims = .ok wanted) :
    ∃ join, wanted = some join := by
  unfold ofRequest at read
  rw [scope] at read
  simp only at read
  cases decoded : GroupEntry.decode bs with
  | error rejection =>
    rw [decoded] at read
    nomatch read
  | ok entries =>
    simp only [decoded, bind, Except.bind] at read
    split at read
    · cases asked : asksForSignInfo request with
      | error rejection =>
        rw [asked] at read
        nomatch read
      | ok signInfo =>
        rw [asked] at read
        cases read
        exact ⟨_, rfl⟩
    · nomatch read

/-- The check of a first request asks for the exchange in it, and for a welcome if groups are joined. -/
theorem Exchanges.setup_of_check {joining : Bool} {profile : Profile} (h : profile.Exchanges joining) {request : Request}
    {claims : Claims} {server : Server} {setup : Setup}
    (checked : ((profile.check request claims false).run server).1 = .ok setup) :
    ∃ exchange : OscoreExchange, exchange.IsFor request claims ∧
      (setup = exchange.establish ∧ (joining = true → ∀ bs, claims.scope ≠ some (.binary bs)) ∨
        ∃ join known, setup = Setup.welcoming exchange.establish join known) := by
  have alone : ∀ {first : Setup}, ((oscore.check request claims false).run server).1 = .ok first →
      ∃ exchange : OscoreExchange, exchange.IsFor request claims ∧ first = exchange.establish := by
    intro first checked
    rw [run_check_oscore] at checked
    cases read : OscoreExchange.ofRequest request claims with
    | error rejection =>
      rw [read] at checked
      nomatch checked
    | ok exchange =>
      rw [read] at checked
      cases checked
      exact ⟨exchange, OscoreExchange.isFor_of_ofRequest read, rfl⟩
  cases h with
  | alone =>
    obtain ⟨exchange, isFor, rfl⟩ := alone checked
    exact ⟨exchange, isFor, Or.inl ⟨rfl, nofun⟩⟩
  | joining policy known =>
    obtain ⟨first, checked', setups⟩ := exists_of_check_groupJoin isTame_oscore checked
    obtain ⟨exchange, isFor, rfl⟩ := alone checked'
    refine ⟨exchange, isFor, ?_⟩
    rcases setups with ⟨none, rfl⟩ | ⟨join, _, rfl⟩
    · refine Or.inl ⟨rfl, fun _ bs scope => ?_⟩
      obtain ⟨join, some⟩ := JoinRequest.isSome_of_ofRequest scope none
      nomatch some
    · exact Or.inr ⟨join, known, rfl⟩

/-- What is set up for a first request makes the exchange in it, and gives a challenge if the token has a group scope. -/
theorem Exchanges.isMade_of_check {joining : Bool} {profile : Profile} (h : profile.Exchanges joining) {request : Request}
    {claims : Claims} {checking : Server} {setup : Setup}
    (checked : ((profile.check request claims false).run checking).1 = .ok setup) {token : CommittedToken} {server after : Server}
    (issued : server.channel.contexts.IsIssued) {extras : Parameters} (ran : (setup token).run server = (.ok extras, after)) :
    ∃ exchange : OscoreExchange, exchange.IsFor request claims ∧
      ∃ nonce2 id2 context more, extras = OscoreExchange.replied nonce2 id2 ++ more ∧
        exchange.IsMade token.key nonce2 id2 context after ∧
        (joining = true → ∀ scope, claims.scope = some (.binary scope) → ∃ challenge rest,
          more = (Parameter.kdcChallenge.label, .bytes challenge) :: rest ∧
            after.repository.challenge? token.key = some challenge) := by
  obtain ⟨exchange, isFor, ⟨rfl, groupless⟩ | ⟨join, known, rfl⟩⟩ := h.setup_of_check checked
  · obtain ⟨nonce2, id2, context, rfl, made⟩ := OscoreExchange.isMade_of_establish issued ran
    refine ⟨exchange, isFor, nonce2, id2, context, [], rfl, made, ?_⟩
    intro joins scope given
    exact absurd given (groupless joins scope)
  · rw [Setup.welcoming, Action.run_bind] at ran
    rcases established : (exchange.establish token).run server with ⟨failure | parameters, middle⟩
    · rw [established] at ran
      nomatch ran
    rw [established] at ran
    simp only at ran
    obtain ⟨nonce2, id2, context, rfl, made⟩ := OscoreExchange.isMade_of_establish issued established
    rw [Action.run_bind] at ran
    rcases welcomed : (join.welcome known token).run middle with ⟨failure | more, joined⟩
    · rw [welcomed] at ran
      nomatch ran
    rw [welcomed] at ran
    cases ran
    obtain ⟨challenge, contexts, senders⟩ := JoinRequest.challenge?_of_welcome welcomed
    have kept : exchange.IsMade token.key nonce2 id2 context after :=
      ⟨made.derived, contexts ▸ made.found, (senders _).trans made.bound⟩
    exact ⟨exchange, isFor, nonce2, id2, context, more, rfl, kept, fun _ _ _ => challenge⟩

end Profile

namespace Endpoint

/-- What both ends of an exchange have of it, when a first request was admitted: the reply tells the client what it needs to derive
the other side of the context that the server finds. -/
structure Exchanged (e : Endpoint) (message : Message) (before : Server) (joining : Bool) (claims : Claims)
    (exchange : Profile.OscoreExchange) (admitted : AdmittedToken) (nonce2 id2 : Bytes) (context : Oscore.Context) : Prop where
  key : admitted.key = .ofKid exchange.material.id
  made : exchange.IsMade admitted.key nonce2 id2 context (e.receive message before).2
  peer : ∃ peer, Oscore.derive exchange.material exchange.nonce1 nonce2 id2 exchange.id1 = .ok peer ∧ peer.IsOppositeOf context
  replies : ∃ more, (e.process message before).1 = some
      { code := .created
        payload := Parameters.encode ((Parameter.cti.label, .bytes admitted.id.bytes) ::
          (Profile.OscoreExchange.replied nonce2 id2 ++ more)) } ∧
    (joining = true → ∀ scope, claims.scope = some (.binary scope) → ∃ challenge rest,
      more = (Parameter.kdcChallenge.label, .bytes challenge) :: rest ∧
        (e.receive message before).2.repository.challenge? admitted.key = some challenge)

/-- A token with OSCORE material is added under the name of the material. -/
theorem key_of_addToken {r : Repository} {host : Host} {claims : Claims} {shared : SharedKey} {senderKey : Option KeyName}
    {origin : TokenOrigin} {added : AddedToken} (adds : (r.addToken host claims shared senderKey origin).result = .ok added)
    {material : Oscore.Material} (confirmed : claims.cnf = some (.oscore material)) : added.key = .ofKid material.id := by
  obtain ⟨_, t, outcome, made, comes, rfl, _⟩ := Repository.addToken_ok adds
  have own : t.key = .ofKid material.id := by
    obtain ⟨cnf, given, named⟩ := (Submission.isFrom_of_ofClaims made).key
    rw [confirmed] at given
    cases given
    exact (congrArg Prod.fst (Except.ok.inj named)).symm
  cases comes with
  | again known there => exact own
  | anew isUpdate decided admits => exact own

/-- Both ends of an exchange agree, on whatever server a first request is admitted. -/
theorem exchanged_of_receive {e : Endpoint} {joining : Bool} (exchanges : e.profile.Exchanges joining) {message : Message}
    {before : Server} (serves : before.Serves) (first : ¬e.Updates message before) {admitted : AdmittedToken}
    (ok : (e.receive message before).1.result = .ok admitted) :
    ∃ request claims origin, e.read message = .ok (request, claims, origin) ∧
      ∃ exchange : Profile.OscoreExchange, exchange.IsFor request claims ∧
        ∃ nonce2 id2 context, e.Exchanged message before joining claims exchange admitted nonce2 id2 context := by
  have replies : (e.process message before).1 = reply? (.ok admitted) := congrArg reply? ok
  have admits := admits_of_receive exchanges.usesOscore.isStandard.isTame ok
  generalize left : (e.receive message before).2 = after at admits
  obtain @⟨p, added, extras, _, prepared, adds, agreed, setUp⟩ := admits
  have new : p.accepted.isUpdate = false := by
    cases decided : p.accepted.isUpdate with
    | false => rfl
    | true => exact absurd ⟨_, _, _, prepared.read, prepared.isUpdate.symm.trans decided⟩ first
  have checked := prepared.checked
  rw [new] at checked
  have issued : (p.addTo e before).channel.contexts.IsIssued := serves.isIssued
  obtain ⟨exchange, isFor, nonce2, id2, context, more, rfl, made, challenge⟩ := exchanges.isMade_of_check checked issued setUp
  refine ⟨p.request, p.claims, p.origin, prepared.read, exchange, isFor, nonce2, id2, context, ?_⟩
  subst left
  exact ⟨key_of_addToken adds isFor.material, made, Oscore.derive_swap made.derived, more, replies, challenge⟩

namespace Sample

/-- A policy with a single group. -/
def groups : GroupPolicy := { groups := .ofList ["g"] }

/-- An endpoint for joining the group, whose issuer knows a token with OSCORE material. -/
def joiner : Endpoint :=
  { Server.Sample.exchanger with
    profile := Profile.oscore.groupJoin groups ∅
    validator := ScopePolicy.validator { groups := some groups }
    introspection := some fun _ => .active
      ((claims.set .cnf (.oscore { id := [0x61], ms := List.replicate 16 0x2a })).set .scope
        (.binary [0x81, 0x82, 0x61, 0x67, 0x02])) }

/-- A fresh server. -/
def unused : Server := { host := {}, repository := { validator := joiner.validator }, channel }

end Sample

/-- A first request to join a group, with which both ends of the exchange agree. -/
theorem exchanged_of_receive_of_group :
    ∃ admitted, (Sample.joiner.receive Server.Sample.exchange Sample.unused).1.result = .ok admitted ∧
      ∃ claims exchange nonce2 id2 context,
        Sample.joiner.Exchanged Server.Sample.exchange Sample.unused true claims exchange admitted nonce2 id2 context := by
  have admits : (Sample.joiner.receive Server.Sample.exchange Sample.unused).1.result.toOption.isSome = true := by decide +kernel
  obtain ⟨admitted, found⟩ := Option.isSome_iff_exists.mp admits
  have ok := Repository.eq_ok_of_toOption found
  have exchanges : Sample.joiner.profile.Exchanges true := .joining Sample.groups ∅
  have serves : Sample.unused.Serves := .start _ _ _ _
  obtain ⟨_, claims, _, _, exchange, _, nonce2, id2, context, exchanged⟩ :=
    exchanged_of_receive exchanges serves (not_updates_of_sender rfl) ok
  exact ⟨admitted, ok, claims, exchange, nonce2, id2, context, exchanged⟩

end Endpoint

end TokenGate
