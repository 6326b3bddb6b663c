import TokenGate.Profile.GroupJoin
import TokenGate.Profile.Oscore
import TokenGate.Proofs.Admission.Actions

/-!
# What profiles do

The profiles there are check a request without doing anything, and their setups are tame: they touch nothing of the repository
but channels and challenges, and a setup that fails on a server that works has touched nothing at all, nor stored a context.
-/

namespace TokenGate

/-- The profiles there are: DTLS, OSCORE, and either of them with the joining of groups. -/
inductive Profile.IsStandard : Profile → Prop
  | dtls : IsStandard .dtls
  | oscore : IsStandard .oscore
  | groupJoin {inner : Profile} (standard : IsStandard inner) (policy : GroupPolicy)
    (known : Std.ExtTreeMap String Profile.GroupInfo) : IsStandard (inner.groupJoin policy known)

/-- A setup that changes no tokens and no keys, and leaves no trace if it fails on a server that works. -/
structure Setup.IsTame (setup : Setup) : Prop where
  binds : ∀ token, Action.Binds (setup token)
  undone : ∀ token (server : Server) (failure : Failure), server.Works → ((setup token).run server).1 = .error failure →
    ((setup token).run server).2.repository = server.repository ∧
      ((setup token).run server).2.channel.contexts.entries = server.channel.contexts.entries

namespace Profile

theorem isTame_noSetup : Setup.IsTame noSetup where
  binds := fun _ => .pure _
  undone := fun _ _ _ _ failed => nomatch failed

/-! ## OSCORE -/

namespace OscoreExchange

/-- What is left to do once a context is derived: to bind its sender, and no longer the sender of the context that made room. -/
def finish (key : KeyName) (nonce2 id2 : Bytes) (context : Oscore.Context) : Action Failure Parameters := do
  Action.committing fun r host => r.bindSender host (senderOf id2) key
  let evicted ← Action.onContexts fun contexts => contexts.insert ⟨context, key⟩
  match evicted with
  | none => pure ()
  | some old => try
      Action.committing fun r host => r.unbindSender host (senderOf old.context.recipientId)
    catch _ => pure ()
  pure [(Parameter.nonce2.label, .bytes nonce2), (Parameter.serverRecipientId.label, .bytes id2)]

/-- A context is established in steps: nonce, identifier, derivation, and what comes of it. -/
theorem establish_eq (exchange : OscoreExchange) (token : CommittedToken) :
    exchange.establish token = (do
      let nonce2 ← Action.freshNonce
      let id2 ← Action.onContexts fun contexts => contexts.takeId exchange.id1
      let context ← Action.ofExcept
        ((Oscore.derive exchange.material exchange.nonce1 nonce2 exchange.id1 id2).mapError fun _ =>
          .rejected .malformedCnf)
      finish token.key nonce2 id2 context) := rfl

/-- Finishing an exchange changes nothing but channels and challenges. -/
theorem binds_finish (key : KeyName) (nonce2 id2 : Bytes) (context : Oscore.Context) :
    Action.Binds (finish key nonce2 id2 context) := by
  refine .bind (.committing fun r host => r.bindSender_binds host _ _) fun _ => ?_
  refine .bind (.of_channel fun server => ⟨_, _, rfl⟩) fun evicted => ?_
  cases evicted with
  | none => exact .pure _
  | some old =>
    have unbinds := Action.Binds.committing fun r host => r.unbindSender_binds host (senderOf old.context.recipientId)
    exact .bind (.tryCatch unbinds fun _ => .pure _) fun _ => .pure _

/-- On a server that works, nothing fails once a context is derived. -/
theorem run_finish {server : Server} (works : server.Works) (key : KeyName) (nonce2 id2 : Bytes) (context : Oscore.Context)
    (failure : Failure) : ((finish key nonce2 id2 context).run server).1 ≠ .error failure := by
  have bound := works.bindSender (senderOf id2) key
  unfold finish
  rw [Action.run_bind, Action.run_committing, bound]
  simp only [Except.mapError]
  rw [Action.run_bind]
  have inserted : ∀ server₁ : Server, ∃ evicted server₂,
      (Action.onContexts fun contexts => contexts.insert ⟨context, key⟩).run server₁ = (.ok evicted, server₂) :=
    fun _ => ⟨_, _, rfl⟩
  obtain ⟨evicted, server₂, same⟩ := inserted _
  rw [same]
  cases evicted with
  | none => exact nofun
  | some old =>
    simp only
    rw [Action.run_bind, Action.run_tryCatch]
    rcases (Action.committing fun r host => r.unbindSender host (senderOf old.context.recipientId)).run server₂ with
      ⟨_ | _, _⟩ <;> exact nofun

/-- Only the derivation of the context can fail, when nothing but a nonce and an identifier was used. -/
theorem isTame_establish (exchange : OscoreExchange) : Setup.IsTame exchange.establish where
  binds := by
    intro token
    rw [establish_eq]
    refine .bind (.of_channel fun server => ⟨_, _, rfl⟩) fun nonce2 => ?_
    refine .bind (.of_channel fun server => ⟨_, _, rfl⟩) fun id2 => ?_
    exact .bind (.ofExcept _) fun context => binds_finish token.key nonce2 id2 context
  undone := by
    intro token server failure works failed
    rw [establish_eq] at failed ⊢
    have drawn : ∃ nonce2 server₁, Action.freshNonce.run server = (.ok nonce2, server₁) ∧ server.Binds server₁ ∧
        server₁.repository = server.repository ∧
        server₁.channel.contexts.entries = server.channel.contexts.entries := ⟨_, _, rfl, .refl _, rfl, rfl⟩
    obtain ⟨nonce2, server₁, ran, binds, repository, entries⟩ := drawn
    rw [Action.run_bind_of_ok ran] at failed ⊢
    have taken : ∃ id2 server₂, (Action.onContexts fun contexts => contexts.takeId exchange.id1).run server₁ =
        (.ok id2, server₂) ∧ server₁.Binds server₂ ∧ server₂.repository = server₁.repository ∧
        server₂.channel.contexts.entries = server₁.channel.contexts.entries := ⟨_, _, rfl, .refl _, rfl, rfl⟩
    obtain ⟨id2, server₂, ran', binds', repository', entries'⟩ := taken
    rw [Action.run_bind_of_ok ran'] at failed ⊢
    cases derived : Oscore.derive exchange.material exchange.nonce1 nonce2 exchange.id1 id2 with
    | error e =>
      rw [Action.run_bind, Action.run_ofExcept]
      exact ⟨repository'.trans repository, entries'.trans entries⟩
    | ok context =>
      rw [Action.run_bind, Action.run_ofExcept, derived] at failed
      exact absurd failed (run_finish ((binds.trans binds').works works) _ _ _ _ failure)

end OscoreExchange

/-! ## Joining groups -/

/-- Welcoming a member changes nothing but channels and challenges. -/
theorem JoinRequest.binds_welcome (join : JoinRequest) (known : Std.ExtTreeMap String GroupInfo) (token : CommittedToken) :
    Action.Binds (join.welcome known token) := by
  refine .bind (.of_channel fun server => ⟨_, _, rfl⟩) fun challenge => ?_
  exact .bind (.committing fun r host => r.setChallenge_binds host _ _) fun _ => .pure _

/-- On a server that works, a challenge can be given. -/
theorem JoinRequest.run_welcome (join : JoinRequest) (known : Std.ExtTreeMap String GroupInfo) (token : CommittedToken)
    {server : Server} (works : server.Works) (failure : Failure) :
    ((join.welcome known token).run server).1 ≠ .error failure := by
  have drawn : ∃ challenge server₁, Action.freshChallenge.run server = (.ok challenge, server₁) ∧ server.Binds server₁ :=
    ⟨_, _, rfl, .refl _⟩
  obtain ⟨challenge, server₁, ran, binds⟩ := drawn
  unfold welcome
  rw [Action.run_bind_of_ok ran, Action.run_bind, Action.run_committing, (binds.works works).setChallenge]
  exact nofun

/-- A setup followed by a welcome is tame, since it is only the setup that can fail. -/
theorem isTame_welcome {setup : Setup} (tame : Setup.IsTame setup) (join : JoinRequest)
    (known : Std.ExtTreeMap String GroupInfo) :
    Setup.IsTame fun token => do
      let parameters ← setup token
      let more ← join.welcome known token
      pure (parameters ++ more) where
  binds := fun token => .bind (tame.binds token) fun _ => .bind (join.binds_welcome known token) fun _ => .pure _
  undone := by
    intro token server failure works failed
    have binds := tame.binds token server
    have undone := tame.undone token server failure works
    rw [Action.run_bind] at failed ⊢
    rcases ran : (setup token).run server with ⟨_ | parameters, server₁⟩
    · rw [ran] at failed undone
      exact undone failed
    · rw [ran] at failed binds
      simp only at failed
      have welcomed := join.run_welcome known token (binds.works works)
      rw [Action.run_bind] at failed
      rcases ran' : (join.welcome known token).run server₁ with ⟨e | more, server₂⟩
      · rw [ran'] at welcomed
        exact absurd rfl (welcomed e)
      · rw [ran'] at failed
        nomatch failed

/-! ## Checks -/

/-- A profile that checks a request without doing anything, and whose setups are tame. -/
def IsTame (profile : Profile) : Prop :=
  ∀ (request : Request) (claims : Claims) (isUpdate : Bool), ∃ result : Except Failure Setup,
    (∀ server, (profile.check request claims isUpdate).run server = (result, server)) ∧
    ∀ setup, result = .ok setup → Setup.IsTame setup

/-- With DTLS nothing is left to do once a token is there. -/
theorem isTame_dtls : dtls.IsTame := by
  intro request claims isUpdate
  refine ⟨.ok noSetup, fun _ => rfl, ?_⟩
  rintro _ ⟨⟩
  exact isTame_noSetup

/-- An exchange of nonces changes nothing but channels and challenges. -/
theorem isTame_oscore : oscore.IsTame := by
  intro request claims isUpdate
  cases isUpdate with
  | true =>
    refine ⟨.ok noSetup, fun _ => rfl, ?_⟩
    rintro _ ⟨⟩
    exact isTame_noSetup
  | false =>
    refine ⟨((OscoreExchange.ofRequest request claims).mapError .rejected).map OscoreExchange.establish, ?_, ?_⟩
    · intro server
      change (Action.ofExcept ((OscoreExchange.ofRequest request claims).mapError Failure.rejected) >>= fun exchange =>
        pure exchange.establish : Action Failure Setup).run server = _
      rw [Action.run_bind, Action.run_ofExcept]
      cases OscoreExchange.ofRequest request claims <;> rfl
    · intro setup checked
      cases read : OscoreExchange.ofRequest request claims with
      | error _ =>
        rw [read] at checked
        nomatch checked
      | ok exchange =>
        rw [read] at checked
        cases checked
        exact exchange.isTame_establish

/-- What is checked for a group comes after the check of the profile that the groups are added to. -/
theorem run_check_groupJoin {inner : Profile} (policy : GroupPolicy) (known : Std.ExtTreeMap String GroupInfo)
    {request : Request} {claims : Claims} {isUpdate : Bool} {setup : Setup} {server : Server}
    (ran : (inner.check request claims isUpdate).run server = (.ok setup, server)) :
    ((inner.groupJoin policy known).check request claims isUpdate).run server =
      (((JoinRequest.ofRequest policy request claims).mapError Failure.rejected).map fun
        | none => setup
        | some join => fun token => do
          let parameters ← setup token
          let more ← join.welcome known token
          pure (parameters ++ more), server) := by
  refine (Action.run_bind_of_ok ran).trans ?_
  rw [Action.run_bind, Action.run_ofExcept]
  cases JoinRequest.ofRequest policy request claims with
  | error rejection => rfl
  | ok wanted => cases wanted <;> rfl

/-- Joining a group adds nothing to what a tame profile may change. -/
theorem IsTame.groupJoin {inner : Profile} (tame : inner.IsTame) (policy : GroupPolicy)
    (known : Std.ExtTreeMap String GroupInfo) : (inner.groupJoin policy known).IsTame := by
  intro request claims isUpdate
  obtain ⟨result, ran, tame⟩ := tame request claims isUpdate
  cases result with
  | error failure => exact ⟨.error failure, fun server => Action.run_bind_of_error (ran server), nofun⟩
  | ok setup =>
    refine ⟨_, fun server => run_check_groupJoin policy known (ran server), ?_⟩
    intro joined checked
    cases joins : JoinRequest.ofRequest policy request claims with
    | error rejection =>
      rw [joins] at checked
      nomatch checked
    | ok wanted =>
      rw [joins] at checked
      cases checked
      cases wanted with
      | none => exact tame setup rfl
      | some join => exact isTame_welcome (tame setup rfl) join known

/-- The profiles there are do what profiles may do. -/
theorem IsStandard.isTame {profile : Profile} (standard : profile.IsStandard) : profile.IsTame := by
  induction standard with
  | dtls => exact isTame_dtls
  | oscore => exact isTame_oscore
  | groupJoin _ policy known ih => exact ih.groupJoin policy known

end Profile

end TokenGate
