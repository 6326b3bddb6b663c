import TokenGate.Proofs.Admission.AllOrNothing
import TokenGate.Proofs.Admission.Commitments
import TokenGate.Proofs.Protection

/-!
# Replies

A posted message gets a reply on every server, with one exception: nothing here deals with an encrypted object that comes without
its ciphertext. The exception is a matter of the message alone as long as it is about the token itself. For the key in a
confirmation it depends on the server in so far as the claims have to be valid and the profile content with the request.
-/

namespace TokenGate

/-! ## Missing ciphertexts -/

/-- An object that a key would be used on, if its ciphertext were not missing. -/
structure SharedKey.Misses (k : SharedKey) (envelope : Cose.Encrypt0) : Prop where
  alg : ∀ label, envelope.protectedHeader.alg = some label → label = .int k.alg.label
  iv : (ivOf envelope).length = k.alg.suite.nonceLength
  ciphertext : envelope.ciphertext = none

/-- The missing ciphertext is noticed once the header is found to be right. -/
theorem SharedKey.openEnvelope_eq_detached_iff (k : SharedKey) (envelope : Cose.Encrypt0) (external : Bytes) :
    k.openEnvelope envelope external = .error .detached ↔ k.Misses envelope := by
  by_cases accepts : k.Accepts envelope
  · rw [openEnvelope_of_accepts accepts]
    cases ciphertext : envelope.ciphertext with
    | none => exact iff_of_true rfl ⟨accepts.alg, accepts.iv, ciphertext⟩
    | some bs =>
      refine iff_of_false ?_ fun misses => nomatch ciphertext.symm.trans misses.ciphertext
      simp only
      split <;> exact nofun
  · obtain ⟨error, failed⟩ := openEnvelope_of_not_accepts accepts external
    rw [failed]
    exact iff_of_false nofun fun misses => accepts ⟨misses.alg, misses.iv⟩

namespace Submission

/-- The key of a confirmation is missing only if it is encrypted and its ciphertext is missing. -/
theorem keyOf_eq_detached_iff (shared : SharedKey) (cnf : Confirmation) :
    keyOf shared cnf = .error .detached ↔ ∃ envelope, cnf = .encryptedKey envelope ∧ shared.Misses envelope := by
  have names : ∀ key, named key ≠ .error .detached := by
    intro key
    unfold named
    split <;> exact nofun
  cases cnf with
  | kid kid => exact iff_of_false nofun nofun
  | key key => exact iff_of_false (names _) nofun
  | oscore material => exact iff_of_false (names (.oscore material)) nofun
  | encryptedKey envelope =>
    simp only [keyOf, Confirmation.encryptedKey.injEq, exists_eq_left']
    rw [← shared.openEnvelope_eq_detached_iff envelope []]
    unfold decryptKey
    cases shared.openEnvelope envelope [] with
    | error failure => cases failure <;> simp [bind, Except.bind]
    | ok plaintext =>
      refine iff_of_false ?_ nofun
      simp only
      cases Cose.Key.decode? plaintext with
      | none => exact nofun
      | some key => exact names _

/-- What is missing from claims with a scope is at most the ciphertext of their key. -/
theorem ofClaims_eq_detached_iff {claims : Claims} {claim : ScopeClaim} {scope : Scope} (given : claims.scope = some claim)
    (parsed : Scope.ofClaim claim = .ok scope) (shared : SharedKey) (origin : TokenOrigin) :
    ofClaims claims shared origin = .error .detached ↔
      ∃ envelope, claims.cnf = some (.encryptedKey envelope) ∧ shared.Misses envelope := by
  unfold ofClaims
  simp only [required, given, parsed, bind, Except.bind, Except.mapError]
  cases confirmed : claims.cnf with
  | none => exact iff_of_false nofun nofun
  | some cnf =>
    simp only [Option.some.injEq]
    rw [← keyOf_eq_detached_iff]
    cases keyOf shared cnf with
    | error failure => simp
    | ok key =>
      refine iff_of_false ?_ nofun
      unfold idOf
      cases claims.cti with
      | some bytes => exact nofun
      | none => cases claims.encode <;> exact nofun

end Submission

/-- Nothing is missing for a change of a repository's state. -/
theorem Repository.perform_ne_detached {α : Type} (r : Repository) (host : Host)
    (change : RepositoryState → Except Rejection (Outcome α)) : (r.perform host change).result ≠ .error .detached := by
  unfold perform
  split
  · cases change r.state with
    | error rejection => rintro ⟨⟩
    | ok outcome =>
      simp only [commit]
      cases outcome.next with
      | none => rintro ⟨⟩
      | some state =>
        rcases r.save_cases state host with ⟨host', saved⟩ | ⟨host', saved⟩ | ⟨failure, _, saved⟩ <;>
          simp only [saved] <;> rintro ⟨⟩
  · rintro ⟨⟩

/-! ## Actions that are answered -/

namespace Action

variable {α β : Type}

/-- An action in which no ciphertext is ever found missing. -/
def Answers (x : Action Failure α) : Prop :=
  ∀ server : Server, (x.run server).1 ≠ .error .detached

theorem Answers.pure (a : α) : Answers (Pure.pure a) := fun _ => nofun

/-- An action that always succeeds has an answer. -/
theorem Answers.of_ok {x : Action Failure α} (h : ∀ server, ∃ a server', x.run server = (.ok a, server')) : Answers x := by
  intro server
  obtain ⟨a, server', ran⟩ := h server
  rw [ran]
  exact nofun

/-- An operation that meets no missing ciphertext makes an action with an answer. -/
theorem Answers.committing {operation : Repository → Host → Repository.Effect α}
    (h : ∀ r host, (operation r host).result ≠ .error .detached) : Answers (Action.committing operation) := by
  intro server
  have found := h server.repository server.host
  rw [run_committing]
  cases result : (operation server.repository server.host).result with
  | ok a => exact nofun
  | error failure =>
    rw [result] at found
    cases failure with
    | detached => exact absurd rfl found
    | _ => exact nofun

theorem Answers.bind {x : Action Failure α} {f : α → Action Failure β} (h : Answers x) (rest : ∀ a, Answers (f a)) :
    Answers (x >>= f) := by
  intro server
  have first := h server
  rw [run_bind]
  rcases ran : x.run server with ⟨failure | a, server'⟩
  · rw [ran] at first
    simpa using first
  · exact rest a server'

theorem Answers.tryCatch {x : Action Failure α} {handle : Failure → Action Failure α} (h : Answers x)
    (rest : ∀ failure, failure ≠ .detached → Answers (handle failure)) : Answers (tryCatch x handle) := by
  intro server
  have first := h server
  rw [run_tryCatch]
  rcases ran : x.run server with ⟨failure | a, server'⟩
  · rw [ran] at first
    exact rest failure (fun missing => first (congrArg Except.error missing)) server'
  · exact nofun

end Action

namespace Profile

/-- Establishing a context has an answer. -/
theorem OscoreExchange.answers_establish (exchange : OscoreExchange) (token : CommittedToken) :
    Action.Answers (exchange.establish token) := by
  rw [establish_eq]
  refine .bind (.of_ok fun server => ⟨_, _, rfl⟩) fun nonce2 => ?_
  refine .bind (.of_ok fun server => ⟨_, _, rfl⟩) fun id2 => ?_
  refine .bind ?_ fun context => ?_
  · intro server
    rw [Action.run_ofExcept]
    cases Oscore.derive exchange.material exchange.nonce1 nonce2 exchange.id1 id2 <;> exact nofun
  · unfold finish
    refine .bind (.committing fun r host => r.perform_ne_detached host _) fun _ => ?_
    refine .bind (.of_ok fun server => ⟨_, _, rfl⟩) fun evicted => ?_
    cases evicted with
    | none => exact .pure _
    | some old =>
      exact .bind (.tryCatch (.committing fun r host => r.perform_ne_detached host _) fun _ _ => .pure _) fun _ => .pure _

theorem JoinRequest.answers_welcome (join : JoinRequest) (known : Std.ExtTreeMap String GroupInfo) (token : CommittedToken) :
    Action.Answers (join.welcome known token) := by
  refine .bind (.of_ok fun server => ⟨_, _, rfl⟩) fun challenge => ?_
  exact .bind (.committing fun r host => r.perform_ne_detached host _) fun _ => .pure _

/-- No setup finds a ciphertext missing. -/
theorem Asks.answers {request : Request} {claims : Claims} {exchanging : Bool} {setup : Setup}
    (asks : Asks request claims exchanging setup) (token : CommittedToken) : Action.Answers (setup token) := by
  induction asks with
  | nothing => exact .pure _
  | exchange _ => exact OscoreExchange.answers_establish _ token
  | welcoming _ join known ih => exact .bind ih fun _ => .bind (join.answers_welcome known token) fun _ => .pure _

end Profile

namespace Endpoint

variable {e : Endpoint} {message : Message} {server : Server}

/-- Once a token is added, nothing is found missing. -/
theorem answers_finish {p : Prepared} (answers : ∀ token, Action.Answers (p.accepted.setup token)) (added : AddedToken) :
    Action.Answers (finish p.request p.claims p.accepted added) := by
  have fails : ∀ {α : Type} (failure : Failure), failure ≠ .detached →
      Action.Answers (failAfter added failure : Action Failure α) := by
    intro α failure other server
    rw [run_failAfter]
    simpa using other
  unfold finish
  split
  · exact fails _ nofun
  · exact .bind (.tryCatch (answers _) fun failure other => fails failure other) fun _ => .pure _

/-! ## Messages without a reply -/

/-- A ciphertext that is missing from a message: the one of its token, or the one of the key in the token's confirmation. -/
inductive MissesCiphertext (e : Endpoint) (message : Message) (server : Server) : Prop
  | token {request : Request} {envelope : Cose.Encrypt0}
    (decoded : Request.decode message.payload e.profile.requiresMap = .ok request)
    (extracted : extract request = .ok (.sealed envelope)) (misses : e.shared.Misses envelope)
  | confirmation {p : Prepared} {envelope : Cose.Encrypt0} (prepared : e.IsPrepared message server p)
    (confirmed : p.claims.cnf = some (.encryptedKey envelope)) (misses : e.shared.Misses envelope)

/-- Resolving a token finds something missing only if that is the ciphertext of the token. -/
theorem resolve_eq_detached_iff (e : Endpoint) (token : AccessToken) :
    e.resolve token = .error .detached ↔ ∃ envelope, token = .sealed envelope ∧ e.shared.Misses envelope := by
  have asks : ∀ handler text, introspect handler text ≠ .error .detached := by
    intro handler text
    unfold introspect
    cases handler text <;> exact nofun
  cases token with
  | reference text =>
    refine iff_of_false ?_ nofun
    simp only [resolve, resolveReference]
    cases e.introspection with
    | none => exact nofun
    | some handler =>
      simp only
      cases asked : introspect handler text with
      | error failure =>
        rintro ⟨⟩
        exact asks handler text asked
      | ok answer => cases answer <;> exact nofun
  | «sealed» envelope =>
    simp only [resolve, AccessToken.sealed.injEq, exists_eq_left']
    rw [← e.shared.openEnvelope_eq_detached_iff envelope []]
    unfold resolveSealed AccessToken.openClaims
    cases e.shared.openEnvelope envelope [] with
    | error failure => cases failure <;> simp [Except.map]
    | ok plaintext =>
      refine iff_of_false ?_ nofun
      simp only
      cases Claims.decode plaintext with
      | error rejection => exact nofun
      | ok claims =>
        simp only [Except.mapError]
        split
        · rename_i handler cti _ _
          cases asked : introspect handler (TokenId.mk cti).toText with
          | error failure =>
            rintro ⟨⟩
            exact asks _ _ asked
          | ok answer => cases answer <;> exact nofun
        · exact nofun

/-- Reading a message finds something missing only if that is the ciphertext of its token. -/
theorem read_eq_detached_iff (e : Endpoint) (message : Message) :
    (∃ stage, e.read message = .error (stage, .detached)) ↔
      ∃ request envelope, Request.decode message.payload e.profile.requiresMap = .ok request ∧
        extract request = .ok (.sealed envelope) ∧ e.shared.Misses envelope := by
  unfold read
  cases decoded : Request.decode message.payload e.profile.requiresMap with
  | error rejection => exact iff_of_false nofun nofun
  | ok request =>
    simp only [bind, Except.bind, Except.mapError, Except.ok.injEq, exists_and_left, exists_eq_left']
    cases extracted : extract request with
    | error rejection => exact iff_of_false nofun nofun
    | ok token =>
      have missing := e.resolve_eq_detached_iff token
      simp only [Except.ok.injEq]
      rw [← missing]
      cases e.resolve token with
      | error failure => simp
      | ok presented => exact iff_of_false nofun nofun

/-- Before the commit, only the ciphertext of the token can be found missing. -/
theorem prepare_eq_detached_iff (standard : e.profile.IsStandard) (message : Message) (server : Server) :
    (∃ stage, e.prepare message server = .error (stage, .detached)) ↔ ∃ stage, e.read message = .error (stage, .detached) := by
  unfold prepare
  cases e.read message with
  | error failed => simp [bind, Except.bind]
  | ok presented =>
    obtain ⟨request, claims, origin⟩ := presented
    refine iff_of_false ?_ nofun
    simp only [bind, Except.bind]
    cases e.validate claims server.host.clock with
    | error rejection => exact nofun
    | ok _ =>
      cases checked : ((e.profile.check request claims (server.repository.updateApplies server.host claims
          (senderKey message server))).run server).1 with
      | error failure =>
        obtain ⟨rejection, rfl⟩ := standard.rejects checked
        exact nofun
      | ok setup => exact nofun

/-- An addition finds something missing only if that is the ciphertext of the key. -/
theorem IsPrepared.addition_eq_detached_iff {p : Prepared} (prepared : e.IsPrepared message server p) :
    (p.addition e server).result = .error .detached ↔
      ∃ envelope, p.claims.cnf = some (.encryptedKey envelope) ∧ e.shared.Misses envelope := by
  obtain ⟨_, _, claim, scope, _, _, given, parsed, _⟩ := of_validate prepared.valid
  rw [← Submission.ofClaims_eq_detached_iff given parsed e.shared p.origin]
  unfold Prepared.addition Repository.addToken
  cases Submission.ofClaims p.claims e.shared p.origin with
  | error failure => simp
  | ok t => exact iff_of_false (server.repository.perform_ne_detached server.host _) nofun

/-- A message finds no reply exactly if a ciphertext is missing from it. -/
theorem run_eq_detached_iff (standard : e.profile.IsStandard) :
    (∃ stage, ((e.run message).run server).1 = .error (stage, .detached)) ↔ e.MissesCiphertext message server := by
  rw [run_eq_prepare standard.isTame]
  have before := prepare_eq_detached_iff standard message server
  have whole := e.read_eq_detached_iff message
  cases prepare : e.prepare message server with
  | error failed =>
    rw [prepare] at before
    have prepares : ∀ p, ¬e.IsPrepared message server p := by
      intro p prepared
      rw [isPrepared_iff, prepare] at prepared
      cases prepared
    simp only [Except.error.injEq] at before ⊢
    refine before.trans (whole.trans ⟨?_, ?_⟩)
    · rintro ⟨request, envelope, decoded, extracted, misses⟩
      exact .token decoded extracted misses
    · rintro (⟨decoded, extracted, misses⟩ | ⟨prepared, _, _⟩)
      · exact ⟨_, _, decoded, extracted, misses⟩
      · exact absurd prepared (prepares _)
  | ok p =>
    have prepared := (isPrepared_iff e message server p).mpr prepare
    have missing := prepared.addition_eq_detached_iff
    have commits : (∃ stage, ((after .validated (e.commit p.request p.claims p.origin p.accepted)).run server).1 =
        .error (stage, .detached)) ↔ (p.addition e server).result = .error .detached := by
      rw [after, Action.run_adapt, run_commit_eq]
      cases result : (p.addition e server).result with
      | error failure => cases failure <;> simp [Failure.ofRepository, Failure.internalError, Except.mapError]
      | ok added =>
        obtain ⟨_, asks⟩ := standard.asks prepared.checked
        have answers := answers_finish (p := p) asks.answers added (p.addTo e server)
        refine iff_of_false ?_ (by rintro ⟨⟩)
        rintro ⟨stage, failed⟩
        simp only at failed
        cases finished : ((finish p.request p.claims p.accepted added).run (p.addTo e server)).1 with
        | ok admitted =>
          rw [finished] at failed
          cases failed
        | error failure =>
          rw [finished] at failed answers
          cases failed
          exact answers rfl
    refine commits.trans (missing.trans ⟨?_, ?_⟩)
    · rintro ⟨envelope, confirmed, misses⟩
      exact .confirmation prepared confirmed misses
    · rintro (⟨decoded, extracted, misses⟩ | ⟨prepared', confirmed, misses⟩)
      · obtain ⟨stage, failed⟩ := whole.mpr ⟨_, _, decoded, extracted, misses⟩
        rw [prepared.read] at failed
        cases failed
      · rw [isPrepared_iff, prepare] at prepared'
        cases prepared'
        exact ⟨_, confirmed, misses⟩

/-- A posted message gets a reply on every server, unless a ciphertext is missing from it, and then nothing happens. -/
theorem process_replies_iff (standard : e.profile.IsStandard) (message : Message) (server : Server) :
    ((∃ reply, (e.process message server).1 = some reply) ↔ ¬e.MissesCiphertext message server) ∧
      (e.MissesCiphertext message server → (e.process message server).2 = server) := by
  rw [← run_eq_detached_iff standard]
  unfold process receive
  rcases (e.run message).run server with ⟨⟨stage, failure⟩ | admitted, after⟩
  · cases failure with
    | rejected rejection => exact ⟨iff_of_true ⟨_, rfl⟩ nofun, nofun⟩
    | internal text => exact ⟨iff_of_true ⟨_, rfl⟩ nofun, nofun⟩
    | detached => exact ⟨iff_of_false nofun (not_not_intro ⟨stage, rfl⟩), fun _ => rfl⟩
  · exact ⟨iff_of_true ⟨_, rfl⟩ nofun, nofun⟩

namespace Sample

/-- A message that is nothing but an encrypted object without its ciphertext. -/
def detached : Message := { payload := [0x83, 0x40, 0xa1, 0x05, 0x4d] ++ List.replicate 13 0x07 ++ [0xf6] }

/-- Claims that bring along a key in such an object. -/
def enclosing : Claims :=
  claims.set .cnf (.encryptedKey
    { protectedBytes := [], protectedHeader := {}, unprotected := { iv := List.replicate 13 0x07 }, ciphertext := none })

/-- An endpoint whose issuer knows a token with such claims. -/
def encloser : Endpoint := { endpoint with introspection := some fun _ => .active enclosing }

end Sample

/-- A known reference gets a reply. A token without its ciphertext gets none, and neither does a token whose key has none. -/
theorem process_replies_iff_of_detached :
    (∃ reply, (Sample.endpoint.process Sample.known Sample.server).1 = some reply) ∧
    Sample.endpoint.MissesCiphertext Sample.detached Sample.server ∧
    (Sample.endpoint.process Sample.detached Sample.server).2 = Sample.server ∧
    Sample.encloser.MissesCiphertext Sample.known Sample.server ∧
    (Sample.encloser.process Sample.known Sample.server).2 = Sample.server := by
  have token := process_replies_iff (e := Sample.endpoint) .dtls Sample.detached Sample.server
  have confirmation := process_replies_iff (e := Sample.encloser) .dtls Sample.known Sample.server
  have silent : (Sample.endpoint.process Sample.detached Sample.server).1 = none := by decide +kernel
  have silent' : (Sample.encloser.process Sample.known Sample.server).1 = none := by decide +kernel
  rw [silent] at token
  rw [silent'] at confirmation
  have misses := not_not.mp (mt token.1.mpr nofun)
  have misses' := not_not.mp (mt confirmation.1.mpr nofun)
  exact ⟨Option.isSome_iff_exists.mp (by decide +kernel), misses, token.2 misses, misses', confirmation.2 misses'⟩

end Endpoint

end TokenGate
