import TokenGate.Proofs.Admission.Stages

/-!
# Commitments

The admission of a token on any server at all, be its repository in order or not, and whether it saves or not. `Endpoint.prepare`
is what is decided before the commit, `Profile.Asks` lists the setups that profiles ask for, and `Endpoint.Admits` says how a
message gets through to its end.
-/

namespace TokenGate

/-! ## What actions keep -/

namespace Action

/-- An action on the contexts leaves everything else as it is. -/
theorem run_onContexts {α : Type} (operation : Oscore.Contexts → α × Oscore.Contexts) (server : Server) :
    (onContexts operation).run server = (.ok (operation server.channel.contexts).1,
      { server with channel := { server.channel with contexts := (operation server.channel.contexts).2 } }) := rfl

/-- A fresh nonce is the next one of the channel. -/
theorem run_freshNonce (server : Server) :
    freshNonce.run server = (.ok (server.channel.nonces.take nonceLength).1,
      { server with channel := { server.channel with nonces := (server.channel.nonces.take nonceLength).2 } }) := rfl

variable {ε α β : Type} {P : Server → Prop}

/-- An action that keeps a property of servers, whether it succeeds or not. -/
def Keeps (P : Server → Prop) (x : Action ε α) : Prop :=
  ∀ server : Server, P server → P (x.run server).2

theorem Keeps.pure (a : α) : Keeps P (Pure.pure a : Action ε α) := fun _ holds => holds

theorem Keeps.bind {x : Action ε α} {f : α → Action ε β} (h : Keeps P x) (rest : ∀ a, Keeps P (f a)) : Keeps P (x >>= f) := by
  intro server holds
  have first := h server holds
  rw [run_bind]
  rcases ran : x.run server with ⟨_ | a, server'⟩
  · rw [ran] at first
    exact first
  · rw [ran] at first
    exact rest a server' first

theorem Keeps.tryCatch {x : Action ε α} {handle : ε → Action ε α} (h : Keeps P x) (rest : ∀ e, Keeps P (handle e)) :
    Keeps P (tryCatch x handle) := by
  intro server holds
  have first := h server holds
  rw [run_tryCatch]
  rcases ran : x.run server with ⟨e | _, server'⟩
  · rw [ran] at first
    exact rest e server' first
  · rw [ran] at first
    exact first

end Action

/-! ## Setups -/

/-- A setup, and after it the welcome to groups. -/
def Setup.welcoming (setup : Setup) (join : Profile.JoinRequest) (known : Std.ExtTreeMap String Profile.GroupInfo) : Setup :=
  fun token => do
    let parameters ← setup token
    let more ← join.welcome known token
    pure (parameters ++ more)

namespace Profile

/-- The setups that profiles ask for, when a request comes with a token of some claims, and whether an exchange is made. -/
inductive Asks (request : Request) (claims : Claims) : (exchanging : Bool) → Setup → Prop
  | nothing : Asks request claims false noSetup
  | exchange {exchange : OscoreExchange} (read : OscoreExchange.ofRequest request claims = .ok exchange) :
    Asks request claims true exchange.establish
  | welcoming {exchanging : Bool} {setup : Setup} (asks : Asks request claims exchanging setup) (join : JoinRequest)
    (known : Std.ExtTreeMap String GroupInfo) : Asks request claims exchanging (setup.welcoming join known)

/-- Setups that are asked for are tame. -/
theorem Asks.isTame {request : Request} {claims : Claims} {exchanging : Bool} {setup : Setup}
    (asks : Asks request claims exchanging setup) : Setup.IsTame setup := by
  induction asks with
  | nothing => exact isTame_noSetup
  | exchange _ => exact OscoreExchange.isTame_establish _
  | welcoming _ join known ih => exact isTame_welcome ih join known

/-- The profiles for clients that use OSCORE. -/
inductive UsesOscore : Profile → Prop
  | oscore : UsesOscore .oscore
  | groupJoin {inner : Profile} (uses : UsesOscore inner) (policy : GroupPolicy) (known : Std.ExtTreeMap String GroupInfo) :
    UsesOscore (inner.groupJoin policy known)

variable {profile : Profile} {request : Request} {claims : Claims} {isUpdate : Bool} {server : Server}

/-- A profile that uses OSCORE, with or without groups, is a standard one. -/
theorem UsesOscore.isStandard (uses : profile.UsesOscore) : profile.IsStandard := by
  induction uses with
  | oscore => exact .oscore
  | groupJoin _ policy known ih => exact .groupJoin ih policy known

/-- A check under OSCORE asks for nothing if the token is an update, and else for what the request says. -/
theorem run_check_oscore (request : Request) (claims : Claims) (isUpdate : Bool) (server : Server) :
    (oscore.check request claims isUpdate).run server =
      (if isUpdate then .ok noSetup
        else ((OscoreExchange.ofRequest request claims).mapError Failure.rejected).map OscoreExchange.establish, server) := by
  cases isUpdate with
  | true => rfl
  | false =>
    change (Action.ofExcept ((OscoreExchange.ofRequest request claims).mapError Failure.rejected) >>= fun exchange =>
      pure exchange.establish : Action Failure Setup).run server = _
    rw [Action.run_bind, Action.run_ofExcept]
    cases OscoreExchange.ofRequest request claims <;> rfl

/-- With groups, what is asked for is what the profile asks for without them, perhaps with a welcome. -/
theorem exists_of_check_groupJoin {inner : Profile} (tame : inner.IsTame) {policy : GroupPolicy}
    {known : Std.ExtTreeMap String GroupInfo} {setup : Setup}
    (checked : (((inner.groupJoin policy known).check request claims isUpdate).run server).1 = .ok setup) :
    ∃ first, ((inner.check request claims isUpdate).run server).1 = .ok first ∧
      (JoinRequest.ofRequest policy request claims = .ok none ∧ setup = first ∨
        ∃ join, JoinRequest.ofRequest policy request claims = .ok (some join) ∧ setup = first.welcoming join known) := by
  obtain ⟨result, ran, _⟩ := tame request claims isUpdate
  cases result with
  | error failure =>
    have failed : ((inner.groupJoin policy known).check request claims isUpdate).run server = (.error failure, server) :=
      Action.run_bind_of_error (ran server)
    rw [failed] at checked
    nomatch checked
  | ok first =>
    refine ⟨first, congrArg Prod.fst (ran server), ?_⟩
    rw [run_check_groupJoin policy known (ran server)] at checked
    cases joins : JoinRequest.ofRequest policy request claims with
    | error rejection =>
      rw [joins] at checked
      nomatch checked
    | ok wanted =>
      rw [joins] at checked
      cases wanted with
      | none =>
        cases checked
        exact Or.inl ⟨rfl, rfl⟩
      | some join =>
        cases checked
        exact Or.inr ⟨join, rfl, rfl⟩

/-- What a check that succeeds comes to is a setup that may be asked for. -/
theorem IsStandard.asks (standard : profile.IsStandard) {setup : Setup}
    (checked : ((profile.check request claims isUpdate).run server).1 = .ok setup) :
    ∃ exchanging, Asks request claims exchanging setup := by
  induction standard generalizing setup with
  | dtls =>
    cases checked
    exact ⟨false, .nothing⟩
  | oscore =>
    rw [run_check_oscore] at checked
    cases isUpdate with
    | true =>
      cases checked
      exact ⟨false, .nothing⟩
    | false =>
      cases read : OscoreExchange.ofRequest request claims with
      | error rejection =>
        rw [read] at checked
        nomatch checked
      | ok exchange =>
        rw [read] at checked
        cases checked
        exact ⟨true, .exchange read⟩
  | groupJoin standard policy known ih =>
    obtain ⟨first, checked', ⟨_, rfl⟩ | ⟨join, _, rfl⟩⟩ := exists_of_check_groupJoin standard.isTame checked
    · exact ih checked'
    · obtain ⟨exchanging, asks⟩ := ih checked'
      exact ⟨exchanging, .welcoming asks join known⟩

/-- Under OSCORE, an exchange is made unless the token is an update. -/
theorem UsesOscore.asks (uses : profile.UsesOscore) {setup : Setup}
    (checked : ((profile.check request claims isUpdate).run server).1 = .ok setup) : Asks request claims (!isUpdate) setup := by
  induction uses generalizing setup with
  | oscore =>
    rw [run_check_oscore] at checked
    cases isUpdate with
    | true =>
      cases checked
      exact .nothing
    | false =>
      cases read : OscoreExchange.ofRequest request claims with
      | error rejection =>
        rw [read] at checked
        nomatch checked
      | ok exchange =>
        rw [read] at checked
        cases checked
        exact .exchange read
  | groupJoin uses policy known ih =>
    obtain ⟨first, checked', ⟨_, rfl⟩ | ⟨join, _, rfl⟩⟩ := exists_of_check_groupJoin uses.isStandard.isTame checked
    · exact ih checked'
    · exact .welcoming (ih checked') join known

/-- A check that fails rejects the request. -/
theorem IsStandard.rejects (standard : profile.IsStandard) {failure : Failure}
    (checked : ((profile.check request claims isUpdate).run server).1 = .error failure) :
    ∃ rejection, failure = .rejected rejection := by
  induction standard with
  | dtls => nomatch checked
  | oscore =>
    rw [run_check_oscore] at checked
    cases isUpdate with
    | true => nomatch checked
    | false =>
      cases read : OscoreExchange.ofRequest request claims with
      | error rejection =>
        rw [read] at checked
        cases checked
        exact ⟨rejection, rfl⟩
      | ok exchange =>
        rw [read] at checked
        nomatch checked
  | @groupJoin inner standard policy known ih =>
    obtain ⟨result, ran, _⟩ := standard.isTame request claims isUpdate
    cases result with
    | error first =>
      have failed : ((inner.groupJoin policy known).check request claims isUpdate).run server = (.error first, server) :=
        Action.run_bind_of_error (ran server)
      rw [failed] at checked
      rw [ran server] at ih
      exact ih checked
    | ok first =>
      rw [run_check_groupJoin policy known (ran server)] at checked
      cases joins : JoinRequest.ofRequest policy request claims with
      | error rejection =>
        rw [joins] at checked
        cases checked
        exact ⟨rejection, rfl⟩
      | ok wanted =>
        rw [joins] at checked
        nomatch checked

end Profile

namespace Endpoint

/-! ## Before the commit -/

/-- What is known of claims that pass the checks of an endpoint. -/
theorem of_validate {e : Endpoint} {claims : Claims} {now : UInt64} (h : e.validate claims now = .ok ()) :
    (∃ issuer ∈ e.issuers, claims.issuer = some issuer) ∧
    ∃ audience claim scope, claims.audience = some audience ∧ (∃ name ∈ e.audiences, audience.contains name = true) ∧
      claims.scope = some claim ∧ Scope.ofClaim claim = .ok scope ∧ e.validator.isMeaningful audience scope = true := by
  unfold validate at h
  split at h
  · nomatch h
  rename_i issuer
  split at h
  · nomatch h
  split at h
  · nomatch h
  split at h
  · nomatch h
  rename_i audience present
  split at h
  · nomatch h
  rename_i ours
  split at h
  · nomatch h
  rename_i claim given
  rw [Bool.not_eq_true', Bool.not_eq_false, Option.any_eq_true] at issuer
  rw [Bool.not_eq_true', Bool.not_eq_false, List.any_eq_true] at ours
  obtain ⟨name, issues, trusted⟩ := issuer
  refine ⟨⟨name, List.contains_iff_mem.mp trusted, issues⟩, audience, claim, ?_⟩
  cases parsed : Scope.ofClaim claim with
  | error _ =>
    rw [parsed] at h
    nomatch h
  | ok scope =>
    rw [parsed] at h
    simp only [bind, Except.bind] at h
    split at h
    · rename_i meaningful
      exact ⟨scope, present, ours, given, rfl, meaningful⟩
    · nomatch h

/-- Claims that pass the checks of an endpoint have not ended. -/
theorem not_isExpiredAt_of_validate {e : Endpoint} {claims : Claims} {now : UInt64} (h : e.validate claims now = .ok ()) :
    claims.isExpiredAt now = false := by
  unfold validate at h
  split at h
  · nomatch h
  split at h
  · nomatch h
  rename_i alive
  exact Bool.not_eq_true _ ▸ alive

/-- What is known of a message when its token is to be committed. -/
structure Prepared where
  request : Request
  claims : Claims
  origin : TokenOrigin
  accepted : Accepted

/-- What is decided about a message on a server before anything is committed. -/
def prepare (e : Endpoint) (message : Message) (server : Server) : Except (Stage × Failure) Prepared := do
  let (request, claims, origin) ← e.read message
  (e.validate claims server.host.clock).mapError fun rejection => (.claimsResolved, .rejected rejection)
  let isUpdate := server.repository.updateApplies server.host claims (senderKey message server)
  let setup ← ((e.profile.check request claims isUpdate).run server).1.mapError (.claimsResolved, ·)
  .ok { request, claims, origin, accepted := { senderKey := senderKey message server, isUpdate, setup } }

/-- A message that was read, whose claims are valid, and which the profile has nothing against. -/
structure IsPrepared (e : Endpoint) (message : Message) (server : Server) (p : Prepared) : Prop where
  read : e.read message = .ok (p.request, p.claims, p.origin)
  valid : e.validate p.claims server.host.clock = .ok ()
  senderKey : p.accepted.senderKey = senderKey message server
  isUpdate : p.accepted.isUpdate = server.repository.updateApplies server.host p.claims (Endpoint.senderKey message server)
  checked : ((e.profile.check p.request p.claims p.accepted.isUpdate).run server).1 = .ok p.accepted.setup

/-- A message is prepared exactly if each step of the preparation succeeds. -/
theorem isPrepared_iff (e : Endpoint) (message : Message) (server : Server) (p : Prepared) :
    e.IsPrepared message server p ↔ e.prepare message server = .ok p := by
  constructor
  · intro h
    obtain ⟨request, claims, origin, key, isUpdate, setup⟩ := p
    obtain ⟨read, valid, sender, decided, checked⟩ := h
    simp only at read valid sender decided checked
    subst sender decided
    simp only [prepare, read, valid, checked, bind, Except.bind, Except.mapError]
  · intro h
    unfold prepare at h
    cases read : e.read message with
    | error failed =>
      rw [read] at h
      nomatch h
    | ok presented =>
      obtain ⟨request, claims, origin⟩ := presented
      cases valid : e.validate claims server.host.clock with
      | error rejection =>
        simp only [read, valid, bind, Except.bind, Except.mapError] at h
        nomatch h
      | ok _ =>
        cases checked : ((e.profile.check request claims (server.repository.updateApplies server.host claims
            (senderKey message server))).run server).1 with
        | error failure =>
          simp only [read, valid, checked, bind, Except.bind, Except.mapError] at h
          nomatch h
        | ok setup =>
          simp only [read, valid, checked, bind, Except.bind, Except.mapError] at h
          cases h
          exact ⟨read, valid, rfl, rfl, checked⟩

/-- Before the commit nothing is done to the server. -/
theorem run_eq_prepare {e : Endpoint} (tame : e.profile.IsTame) (message : Message) (server : Server) :
    (e.run message).run server =
      match e.prepare message server with
      | .error failed => (.error failed, server)
      | .ok p => (after .validated (e.commit p.request p.claims p.origin p.accepted)).run server := by
  rw [run_eq]
  unfold prepare
  cases e.read message with
  | error failed => rfl
  | ok presented =>
    obtain ⟨request, claims, origin⟩ := presented
    simp only [bind, Except.bind]
    have accepts : (after .claimsResolved (e.accept request claims message.sender)).run server =
        (((e.accept request claims message.sender).run server).1.mapError (.claimsResolved, ·),
          ((e.accept request claims message.sender).run server).2) := Action.run_adapt _ _ _
    have begins : (e.accept request claims message.sender).run server = _ := Action.run_bind_of_ok (Action.run_get server)
    rw [Action.run_bind, Action.run_ofExcept] at begins
    cases valid : e.validate claims server.host.clock with
    | error rejection =>
      rw [valid] at begins
      rw [begins] at accepts
      exact Action.run_bind_of_error accepts
    | ok _ =>
      rw [valid] at begins
      obtain ⟨result, checks, _⟩ := tame request claims
        (server.repository.updateApplies server.host claims (senderKey message server))
      rw [checks server]
      cases result with
      | error failure =>
        rw [begins.trans (Action.run_bind_of_error (checks server))] at accepts
        exact Action.run_bind_of_error accepts
      | ok setup =>
        rw [begins.trans (Action.run_bind_of_ok (checks server))] at accepts
        exact Action.run_bind_of_ok accepts

/-! ## The commit -/

namespace Prepared

variable (p : Prepared) (e : Endpoint)

/-- The addition of a prepared token to the repository of a server. -/
def addition (server : Server) : Repository.Effect AddedToken :=
  server.repository.addToken server.host p.claims e.shared p.accepted.senderKey p.origin

/-- The server as the addition of a prepared token leaves it. -/
def addTo (server : Server) : Server where
  host := (p.addition e server).host
  repository := (p.addition e server).repository
  channel := server.channel

/-- What a profile is told about an added token. -/
def committed (added : AddedToken) : CommittedToken where
  id := added.id
  key := added.key
  claims := p.claims
  request := p.request
  isUpdate := p.accepted.isUpdate

end Prepared

/-- The commit adds the token, and goes on if that succeeds. -/
theorem run_commit_eq (e : Endpoint) (p : Prepared) (server : Server) :
    (e.commit p.request p.claims p.origin p.accepted).run server =
      match (p.addition e server).result with
      | .error failure => (.error (Failure.ofRepository failure), p.addTo e server)
      | .ok added => (finish p.request p.claims p.accepted added).run (p.addTo e server) := by
  rw [commit_eq, Action.run_bind, Action.run_committing]
  unfold Prepared.addTo Prepared.addition
  cases (server.repository.addToken server.host p.claims e.shared p.accepted.senderKey p.origin).result <;> rfl

/-- A token that was added as expected is set up for, and taken back if that fails. -/
theorem run_finish_of_agreed {p : Prepared} {added : AddedToken} (agreed : added.isUpdate = p.accepted.isUpdate)
    (server : Server) :
    (finish p.request p.claims p.accepted added).run server =
      match (p.accepted.setup (p.committed added)).run server with
      | (.ok extras, after) => (.ok { id := added.id, key := added.key, extras }, after)
      | (.error failure, after) => (failAfter added failure).run after := by
  unfold finish
  rw [if_neg (not_not_intro agreed)]
  change (tryCatch (p.accepted.setup (p.committed added)) (fun failure => failAfter added failure) >>= fun extras =>
    pure { id := added.id, key := added.key, extras } : Action Failure AdmittedToken).run server = _
  rw [Action.run_bind, Action.run_tryCatch]
  rcases (p.accepted.setup (p.committed added)).run server with ⟨failure | extras, after⟩
  · simp only [run_failAfter]
  · rfl

/-! ## Admitted messages -/

/-- How a message is admitted: it is prepared, its token is added as was expected, and the setup succeeds. -/
inductive Admits (e : Endpoint) (message : Message) (before : Server) : AdmittedToken → Server → Prop
  | intro {p : Prepared} {added : AddedToken} {extras : Parameters} {after : Server} (prepared : e.IsPrepared message before p)
    (adds : (p.addition e before).result = .ok added) (agreed : added.isUpdate = p.accepted.isUpdate)
    (setUp : (p.accepted.setup (p.committed added)).run (p.addTo e before) = (.ok extras, after)) :
    Admits e message before { id := added.id, key := added.key, extras } after

variable {e : Endpoint} {message : Message} {before : Server}

/-- The run of a message that is admitted. -/
theorem Admits.run {admitted : AdmittedToken} {after : Server} (tame : e.profile.IsTame)
    (h : e.Admits message before admitted after) : (e.run message).run before = (.ok admitted, after) := by
  obtain ⟨prepared, adds, agreed, setUp⟩ := h
  rw [run_eq_prepare tame, (isPrepared_iff e message before _).mp prepared]
  simp only
  rw [Endpoint.after, Action.run_adapt, run_commit_eq, adds]
  simp only
  rw [run_finish_of_agreed agreed, setUp]
  rfl

/-- A message that is admitted is answered so. -/
theorem Admits.receive {admitted : AdmittedToken} {after : Server} (tame : e.profile.IsTame)
    (h : e.Admits message before admitted after) :
    e.receive message before = (⟨Stage.committed.upTo, .ok admitted⟩, after) := by
  rw [Endpoint.receive, h.run tame]

/-- A message whose token is not added in the way that was expected is refused, and the token is taken back. -/
theorem IsPrepared.receive_of_disagreed {p : Prepared} {added : AddedToken} (tame : e.profile.IsTame)
    (prepared : e.IsPrepared message before p) (adds : (p.addition e before).result = .ok added)
    (disagreed : added.isUpdate ≠ p.accepted.isUpdate) :
    e.receive message before = (⟨Stage.validated.upTo ++ [.rejected], .error .internalError⟩,
      { p.addTo e before with
        repository := ((p.addTo e before).repository.withdraw (p.addTo e before).host added).repository
        host := ((p.addTo e before).repository.withdraw (p.addTo e before).host added).host }) := by
  unfold Endpoint.receive
  rw [run_eq_prepare tame, (isPrepared_iff e message before p).mp prepared]
  simp only
  rw [Endpoint.after, Action.run_adapt, run_commit_eq, adds]
  simp only
  unfold finish
  rw [if_pos disagreed, run_failAfter]
  rfl

/-- A message whose run succeeds is admitted. -/
theorem admits_of_run {admitted : AdmittedToken} {after : Server} (tame : e.profile.IsTame)
    (h : (e.run message).run before = (.ok admitted, after)) : e.Admits message before admitted after := by
  rw [run_eq_prepare tame] at h
  cases prepared : e.prepare message before with
  | error failed =>
    rw [prepared] at h
    nomatch h
  | ok p =>
    rw [prepared] at h
    simp only at h
    rw [Endpoint.after, Action.run_adapt, run_commit_eq] at h
    cases adds : (p.addition e before).result with
    | error failure =>
      rw [adds] at h
      nomatch h
    | ok added =>
      rw [adds] at h
      simp only at h
      by_cases agreed : added.isUpdate = p.accepted.isUpdate
      · rw [run_finish_of_agreed agreed] at h
        rcases setUp : (p.accepted.setup (p.committed added)).run (p.addTo e before) with ⟨failure | extras, after'⟩
        · rw [setUp] at h
          simp only [run_failAfter] at h
          nomatch h
        · rw [setUp] at h
          cases h
          exact .intro ((isPrepared_iff e message before p).mpr prepared) adds agreed setUp
      · unfold finish at h
        rw [if_pos agreed, run_failAfter] at h
        nomatch h

/-- An admission succeeds only in this way. -/
theorem admits_of_receive {admitted : AdmittedToken} (tame : e.profile.IsTame)
    (h : (e.receive message before).1.result = .ok admitted) :
    e.Admits message before admitted (e.receive message before).2 := by
  apply admits_of_run tame
  unfold receive at h ⊢
  rcases ran : (e.run message).run before with ⟨⟨stage, failure⟩ | token, after⟩
  · rw [ran] at h
    cases failure <;> nomatch h
  · rw [ran] at h
    cases h
    rfl

end Endpoint

end TokenGate
