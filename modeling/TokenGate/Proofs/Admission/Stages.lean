import TokenGate.Admission.Basic
import TokenGate.Proofs.Admission.Profiles

/-!
# The stages of an admission

Everything before the commit depends on the message and leaves the server as it is; `Endpoint.read` is the part of it that does
not even look at the server. The commit is undone if the profile fails after it. `Endpoint.Receives` lists what a posted message
can come to, and later statements go by its cases.
-/

namespace TokenGate

namespace Endpoint

/-! ## Reading a message -/

/-- The request in a message, the claims of its token, and how the token was presented. -/
def read (e : Endpoint) (message : Message) : Except (Stage × Failure) (Request × Claims × TokenOrigin) := do
  let request ← (Request.decode message.payload e.profile.requiresMap).mapError fun rejection =>
    (.awaitingPayload, .rejected rejection)
  let token ← (extract request).mapError fun rejection => (.payloadDecoded, .rejected rejection)
  let (claims, origin) ← (e.resolve token).mapError (.tokenExtracted, ·)
  .ok (request, claims, origin)

/-- A stage that does nothing but decide. -/
theorem run_after_ofExcept {α : Type} (stage : Stage) (result : Except Failure α) (server : Server) :
    (after stage (Action.ofExcept result)).run server = (result.mapError (stage, ·), server) := rfl

/-- A message is read first, and what was read is accepted and committed. -/
theorem run_eq (e : Endpoint) (message : Message) (server : Server) :
    (e.run message).run server =
      match e.read message with
      | .error failed => (.error failed, server)
      | .ok (request, claims, origin) =>
        (after .claimsResolved (e.accept request claims message.sender) >>= fun accepted =>
          after .validated (e.commit request claims origin accepted)).run server := by
  unfold run read
  cases decoded : Request.decode message.payload e.profile.requiresMap with
  | error rejection =>
    refine (Action.run_bind_of_error (run_after_ofExcept _ _ server)).trans ?_
    rfl
  | ok request =>
    refine (Action.run_bind_of_ok (run_after_ofExcept _ _ server)).trans ?_
    cases extracted : extract request with
    | error rejection =>
      refine (Action.run_bind_of_error (run_after_ofExcept _ _ server)).trans ?_
      simp [bind, Except.bind, Except.mapError, extracted]
    | ok token =>
      refine (Action.run_bind_of_ok (run_after_ofExcept _ _ server)).trans ?_
      cases resolved : e.resolve token with
      | error failure =>
        refine (Action.run_bind_of_error (run_after_ofExcept _ _ server)).trans ?_
        simp [bind, Except.bind, Except.mapError, extracted, resolved]
      | ok presented =>
        refine (Action.run_bind_of_ok (run_after_ofExcept _ _ server)).trans ?_
        simp [bind, Except.bind, Except.mapError, extracted, resolved]

/-! ## Accepting claims -/

/-- What is known of claims that were accepted on a server. -/
structure IsAccepted (e : Endpoint) (server : Server) (claims : Claims) (sender : Option String) (accepted : Accepted) :
    Prop where
  valid : e.validate claims server.host.clock = .ok ()
  senderKey : accepted.senderKey = sender.map (resolveSender server.repository)
  isUpdate : accepted.isUpdate = server.repository.updateApplies server.host claims accepted.senderKey
  tame : Setup.IsTame accepted.setup

/-- Accepting claims does nothing to the server. -/
theorem run_accept {e : Endpoint} (standard : e.profile.IsStandard) (request : Request) (claims : Claims)
    (sender : Option String) (server : Server) :
    ∃ result : Except Failure Accepted, (e.accept request claims sender).run server = (result, server) ∧
      ∀ accepted, result = .ok accepted → e.IsAccepted server claims sender accepted := by
  unfold accept
  cases valid : e.validate claims server.host.clock with
  | error rejection =>
    refine ⟨.error (.rejected rejection), ?_, nofun⟩
    refine (Action.run_bind_of_ok (Action.run_get server)).trans ?_
    rw [Action.run_bind, Action.run_ofExcept, valid]
    rfl
  | ok _ =>
    obtain ⟨result, checks, tame⟩ := standard.isTame request claims
      (server.repository.updateApplies server.host claims (sender.map (resolveSender server.repository)))
    cases result with
    | error failure =>
      refine ⟨.error failure, ?_, nofun⟩
      refine (Action.run_bind_of_ok (Action.run_get server)).trans ?_
      rw [Action.run_bind, Action.run_ofExcept, valid]
      exact Action.run_bind_of_error (checks server)
    | ok setup =>
      refine ⟨.ok {
        senderKey := sender.map (resolveSender server.repository)
        isUpdate := server.repository.updateApplies server.host claims (sender.map (resolveSender server.repository))
        setup }, ?_, ?_⟩
      · refine (Action.run_bind_of_ok (Action.run_get server)).trans ?_
        rw [Action.run_bind, Action.run_ofExcept, valid]
        exact Action.run_bind_of_ok (checks server)
      · rintro _ ⟨⟩
        exact ⟨valid, rfl, rfl, tame setup rfl⟩

/-! ## Taking a token back -/

/-- Taking a token back fails as it was told to, whatever comes of the withdrawal. -/
theorem run_failAfter {α : Type} (added : AddedToken) (failure : Failure) (server : Server) :
    (failAfter added failure : Action Failure α).run server =
      (.error failure, { server with
        repository := (server.repository.withdraw server.host added).repository
        host := (server.repository.withdraw server.host added).host }) := by
  have taken : ∃ result, (tryCatch (Action.committing fun r host => r.withdraw host added) fun _ => pure () :
      Action Failure Unit).run server = (.ok result, { server with
        repository := (server.repository.withdraw server.host added).repository
        host := (server.repository.withdraw server.host added).host }) := by
    rw [Action.run_tryCatch, Action.run_committing]
    cases (server.repository.withdraw server.host added).result with
    | ok _ => exact ⟨(), rfl⟩
    | error _ => exact ⟨(), rfl⟩
  obtain ⟨result, ran⟩ := taken
  exact Action.run_bind_of_ok ran

/-! ## What a message comes to -/

/-- A token in a message that was read and accepted. -/
structure Presents (e : Endpoint) (message : Message) (before : Server) (claims : Claims) (origin : TokenOrigin)
    (t : Submission) : Prop where
  read : ∃ request, e.read message = .ok (request, claims, origin)
  valid : e.validate claims before.host.clock = .ok ()
  submission : Submission.ofClaims claims e.shared origin = .ok t

/-- The key that the sender of a message is authenticated with. -/
def senderKey (message : Message) (before : Server) : Option KeyName :=
  message.sender.map (resolveSender before.repository)

/-- What is left of the repository if a token is added to it and taken back. -/
def takenBack (before : Server) (t : Submission) (isUpdate : Bool) : RepositoryState :=
  let swept := before.repository.state.sweep before.host.clock
  ((swept.withToken t isUpdate).undo t.id t.key (swept.displacedBy t isUpdate)).dropIfOrphaned t.key

/-- A token that is added and taken back leaves the tokens that are there after the sweep. -/
theorem tokens_takenBack {before : Server} (sound : before.repository.state.IsSound) {t : Submission} {isUpdate : Bool}
    (admits : (before.repository.state.sweep before.host.clock).Admits t isUpdate) (id : TokenId) :
    (takenBack before t isUpdate).tokens[id]? = (before.repository.state.sweep before.host.clock).tokens[id]? := by
  rw [takenBack, RepositoryState.tokens_dropIfOrphaned]
  exact (sound.sweep before.host.clock).tokens_undo_withToken admits id

/-- How the repository is set up, the time, and whether changes are saved are as before. -/
abbrev Stays (before after : Server) : Prop :=
  Repository.Stays (before.repository, before.host) (after.repository, after.host)

/-- What a posted message can come to. -/
inductive Receives (e : Endpoint) (message : Message) (before : Server) : Except Failure AdmittedToken → Server → Prop
  /-- Nothing was committed. -/
  | refused (failure : Failure) (after : Server) (repository : after.repository = before.repository)
    (entries : after.channel.contexts.entries = before.channel.contexts.entries) (stays : Stays before after) :
    Receives e message before (.error failure) after
  /-- A token was committed and taken back. -/
  | takenBack {claims : Claims} {origin : TokenOrigin} {t : Submission} (presents : e.Presents message before claims origin t)
    (isUpdate : Bool) (admits : (before.repository.state.sweep before.host.clock).Admits t isUpdate) (failure : Failure)
    (after : Server) (repository : after.repository = { before.repository with state := takenBack before t isUpdate })
    (entries : after.channel.contexts.entries = before.channel.contexts.entries) (stays : Stays before after) :
    Receives e message before (.error failure) after
  /-- The token was there before. -/
  | again {claims : Claims} {origin : TokenOrigin} {t : Submission} (presents : e.Presents message before claims origin t)
    (decided : before.repository.updateApplies before.host claims (senderKey message before) = false)
    (there : (before.repository.state.sweep before.host.clock).isResubmission t = true) (after : Server)
    (binds : before.Binds after) (extras : Parameters) :
    Receives e message before (.ok { id := t.id, key := t.key, extras }) after
  /-- A token was committed, and replaced the others of its key if it is an update. -/
  | anew {claims : Claims} {origin : TokenOrigin} {t : Submission} (presents : e.Presents message before claims origin t)
    (isUpdate : Bool) (decided : isUpdate = before.repository.updateApplies before.host claims (senderKey message before))
    (admits : (before.repository.state.sweep before.host.clock).Admits t isUpdate) (committed after : Server)
    (repository : committed.repository = { before.repository with
      state := (before.repository.state.sweep before.host.clock).withToken t isUpdate })
    (stays : Stays before committed) (binds : committed.Binds after) (extras : Parameters) :
    Receives e message before (.ok { id := t.id, key := t.key, extras }) after

/-- The addition of a token that was not there before. -/
def additionOf (before : Server) (t : Submission) (isUpdate : Bool) : AddedToken where
  id := t.id
  key := t.key
  isUpdate := isUpdate
  displaced := some ((before.repository.state.sweep before.host.clock).displacedBy t isUpdate)

/-- Taking back a token that was just committed succeeds on a server that saves. -/
theorem withdraw_committed {before committed : Server} (sound : before.repository.state.IsSound)
    (stored : before.repository.IsStored) (works : committed.Works) {t : Submission} {isUpdate : Bool}
    (admits : (before.repository.state.sweep before.host.clock).Admits t isUpdate)
    (repository : committed.repository = { before.repository with
      state := (before.repository.state.sweep before.host.clock).withToken t isUpdate }) :
    (committed.repository.withdraw committed.host (additionOf before t isUpdate)).repository =
      { before.repository with state := takenBack before t isUpdate } := by
  have swept := sound.sweep before.host.clock
  have ok : (committed.repository.withdraw committed.host (additionOf before t isUpdate)).result = .ok () := by
    refine Repository.withdraw_eq_ok rfl works.isOpen works.saves ?_
    intro store
    have after := works.stored store
    rw [repository] at after store ⊢
    refine Repository.storable_undo_withToken swept admits ?_ after
    refine (stored store).mono (fun id record found => ?_) fun name bound found => ?_
    · exact ((RepositoryState.tokens_sweep _ before.host.clock id record).mp found).1
    · exact (((sound.isWithout_sweep before.host.clock).keys name bound).mp found).1
  rw [Repository.withdraw_ok rfl ok, repository]
  rfl

/-- What is left to do once a token is added. -/
def finish (request : Request) (claims : Claims) (accepted : Accepted) (added : AddedToken) :
    Action Failure AdmittedToken :=
  if added.isUpdate ≠ accepted.isUpdate then failAfter added .internalError
  else do
    let token : CommittedToken :=
      { id := added.id, key := added.key, claims, request, isUpdate := accepted.isUpdate }
    let extras ←
      try accepted.setup token
      catch failure => failAfter added failure
    pure { id := added.id, key := added.key, extras }

/-- A token is committed by adding it, and then finishing what the request asks for. -/
theorem commit_eq (e : Endpoint) (request : Request) (claims : Claims) (origin : TokenOrigin) (accepted : Accepted) :
    e.commit request claims origin accepted =
      (Action.committing fun r host => r.addToken host claims e.shared accepted.senderKey origin) >>=
        finish request claims accepted := rfl

/-- Once a token is added, either the setup succeeds, or the token is taken back from the repository as the addition left it. -/
theorem run_finish (request : Request) (claims : Claims) {accepted : Accepted} (tame : Setup.IsTame accepted.setup)
    (added : AddedToken) {committed : Server} (works : committed.Works) :
    (added.isUpdate = accepted.isUpdate ∧ ∃ extras after, committed.Binds after ∧
      (finish request claims accepted added).run committed = (.ok { id := added.id, key := added.key, extras }, after)) ∨
    ∃ failure undoing, committed.Binds undoing ∧ undoing.repository = committed.repository ∧
      undoing.channel.contexts.entries = committed.channel.contexts.entries ∧
      (finish request claims accepted added).run committed =
        (.error failure, { undoing with
          repository := (undoing.repository.withdraw undoing.host added).repository
          host := (undoing.repository.withdraw undoing.host added).host }) := by
  unfold finish
  by_cases agreed : added.isUpdate = accepted.isUpdate
  · rw [if_neg (not_not_intro agreed)]
    generalize ({ id := added.id, key := added.key, claims, request, isUpdate := accepted.isUpdate } : CommittedToken) = token
    have binds := tame.binds token committed
    have undone := fun failure => tame.undone token committed failure works
    rw [Action.run_bind, Action.run_tryCatch]
    rcases ran : (accepted.setup token).run committed with ⟨failure | extras, undoing⟩
    · rw [ran] at binds undone
      obtain ⟨repository, entries⟩ := undone failure rfl
      refine Or.inr ⟨failure, undoing, binds, repository, entries, ?_⟩
      simp only [run_failAfter]
    · rw [ran] at binds
      exact Or.inl ⟨agreed, extras, undoing, binds, rfl⟩
  · rw [if_pos agreed]
    exact Or.inr ⟨.internalError, committed, .refl committed, rfl, rfl, run_failAfter added _ committed⟩

/-- A server on which an addition succeeded works. -/
theorem works_of_addToken {before : Server} (saves : before.repository.Saves before.host) (stored : before.repository.IsStored)
    {claims : Claims} {shared : SharedKey} {senderKey : Option KeyName} {origin : TokenOrigin} {added : AddedToken}
    (ok : (before.repository.addToken before.host claims shared senderKey origin).result = .ok added) :
    Server.Works { before with
      repository := (before.repository.addToken before.host claims shared senderKey origin).repository
      host := (before.repository.addToken before.host claims shared senderKey origin).host } where
  isOpen := by
    obtain ⟨isOpen, _, _, _, _, _, counted⟩ := Repository.addToken_ok ok
    simp only [counted]
    exact isOpen
  saves := (before.repository.addToken_stays before.host claims shared senderKey origin).saves saves
  stored := (before.repository.addToken_stays before.host claims shared senderKey origin).stored stored

/-- What the commit of an accepted token comes to on a server that saves. -/
theorem run_commit {e : Endpoint} {message : Message} {before : Server} (sound : before.repository.state.IsSound)
    (saves : before.repository.Saves before.host) (stored : before.repository.IsStored) {request : Request} {claims : Claims}
    {origin : TokenOrigin} {accepted : Accepted} (read : e.read message = .ok (request, claims, origin))
    (isAccepted : e.IsAccepted before claims message.sender accepted) :
    e.Receives message before ((e.commit request claims origin accepted).run before).1
      ((e.commit request claims origin accepted).run before).2 := by
  rw [commit_eq, Action.run_bind, Action.run_committing]
  cases result : (before.repository.addToken before.host claims e.shared accepted.senderKey origin).result with
  | error failure =>
    have stays := before.repository.addToken_stays before.host claims e.shared accepted.senderKey origin
    exact .refused _ _ (Repository.addToken_error result) rfl stays
  | ok added =>
    have works := works_of_addToken saves stored result
    obtain ⟨_, t, outcome, submission, adds, rfl, counted⟩ := Repository.addToken_ok result
    have presents : e.Presents message before claims origin t := ⟨⟨request, read⟩, isAccepted.valid, submission⟩
    have added := before.repository.addToken_stays before.host claims e.shared accepted.senderKey origin
    simp only [Except.mapError]
    generalize sameCommitted : ({ before with
      repository := (before.repository.addToken before.host claims e.shared accepted.senderKey origin).repository
      host := (before.repository.addToken before.host claims e.shared accepted.senderKey origin).host } : Server) =
        committed at works
    have repository : committed.repository = { before.repository with state := outcome.next.getD before.repository.state } := by
      rw [← sameCommitted]
      exact counted
    have entries : committed.channel.contexts.entries = before.channel.contexts.entries := by rw [← sameCommitted]
    have stays : Stays before committed := by
      rw [← sameCommitted]
      exact added
    rcases run_finish request claims isAccepted.tame outcome.value works with
      ⟨agreed, extras, after, binds, ran⟩ | ⟨failure, undoing, binds, same, kept, ran⟩
    · rw [ran]
      cases adds with
      | again known there =>
        have unchanged : before.Binds committed := by
          exact ⟨by rw [repository]; rfl, by rw [repository]; rfl, by rw [repository]; rfl, by rw [repository], stays⟩
        refine .again presents ?_ there after (unchanged.trans binds) extras
        rw [senderKey, ← isAccepted.senderKey]
        exact isAccepted.isUpdate.symm.trans agreed.symm
      | anew isUpdate decided admits =>
        refine .anew presents isUpdate ?_ admits committed after repository stays binds extras
        rw [senderKey, ← isAccepted.senderKey]
        exact agreed.trans isAccepted.isUpdate
    · rw [ran]
      have undone := stays.trans (binds.stays.trans (undoing.repository.withdraw_stays undoing.host outcome.value))
      cases adds with
      | again known there =>
        refine .refused failure _ ?_ (kept.trans entries) undone
        exact (Repository.withdraw_of_again rfl).trans (same.trans repository)
      | anew isUpdate decided admits =>
        refine .takenBack presents isUpdate admits failure _ ?_ (kept.trans entries) undone
        exact withdraw_committed sound stored (binds.works works) admits (same.trans repository)

/-- What the run of a message through the stages comes to on a server that saves. -/
theorem run_receives {e : Endpoint} (standard : e.profile.IsStandard) (message : Message) {before : Server}
    (sound : before.repository.state.IsSound) (saves : before.repository.Saves before.host)
    (stored : before.repository.IsStored) :
    e.Receives message before (((e.run message).run before).1.mapError Prod.snd) ((e.run message).run before).2 := by
  rw [run_eq]
  cases read : e.read message with
  | error failed => exact .refused failed.2 before rfl rfl (.refl _)
  | ok presented =>
    obtain ⟨request, claims, origin⟩ := presented
    obtain ⟨result, ran, isAccepted⟩ := run_accept standard request claims message.sender before
    cases result with
    | error failure =>
      have failed : (after .claimsResolved (e.accept request claims message.sender)).run before =
          (.error (.claimsResolved, failure), before) := by
        unfold after
        rw [Action.run_adapt, ran]
        rfl
      simp only [Action.run_bind_of_error failed]
      exact .refused failure before rfl rfl (.refl _)
    | ok accepted =>
      have succeeded : (after .claimsResolved (e.accept request claims message.sender)).run before =
          (.ok accepted, before) := by
        unfold after
        rw [Action.run_adapt, ran]
        rfl
      have commits := run_commit sound saves stored read (isAccepted accepted rfl)
      simp only [Action.run_bind_of_ok succeeded]
      unfold after
      rw [Action.run_adapt]
      cases result : ((e.commit request claims origin accepted).run before).1 with
      | error failure =>
        rw [result] at commits
        exact commits
      | ok admitted =>
        rw [result] at commits
        exact commits

/-- What a posted message comes to on a server that saves. -/
theorem receive_receives {e : Endpoint} (standard : e.profile.IsStandard) (message : Message) {before : Server}
    (sound : before.repository.state.IsSound) (saves : before.repository.Saves before.host)
    (stored : before.repository.IsStored) :
    e.Receives message before (e.receive message before).1.result (e.receive message before).2 := by
  have receives := run_receives standard message sound saves stored
  unfold receive
  rcases ran : (e.run message).run before with ⟨⟨stage, failure⟩ | admitted, after⟩
  · rw [ran] at receives
    cases failure with
    | detached => exact .refused .detached before rfl rfl (.refl _)
    | rejected rejection => exact receives
    | internal text => exact receives
  · rw [ran] at receives
    exact receives

/-- The trace of an admission ends as the admission does. -/
theorem receive_trace (e : Endpoint) (message : Message) (before : Server) :
    (e.receive message before).1.trace.getLast? =
      some (match (e.receive message before).1.result with
        | .ok _ => .committed
        | .error _ => .rejected) := by
  unfold receive
  rcases (e.run message).run before with ⟨⟨stage, failure⟩ | admitted, after⟩
  · cases failure <;> exact List.getLast?_concat
  · rfl

/-! ## What stays -/

/-- A posted message does not change how the repository is set up, and takes no time. -/
theorem Receives.stays {e : Endpoint} {message : Message} {before after : Server} {result : Except Failure AdmittedToken}
    (h : e.Receives message before result after) : Stays before after := by
  cases h with
  | refused failure _ _ _ stays => exact stays
  | takenBack presents isUpdate admits failure _ _ _ stays => exact stays
  | again presents decided there _ binds => exact binds.stays
  | anew presents isUpdate decided admits committed _ _ stays binds => exact stays.trans binds.stays

/-- A posted message does not open or close the repository. -/
theorem Receives.isOpen {e : Endpoint} {message : Message} {before after : Server} {result : Except Failure AdmittedToken}
    (h : e.Receives message before result after) : after.repository.isOpen = before.repository.isOpen := by
  cases h with
  | refused failure _ repository => rw [repository]
  | takenBack presents isUpdate admits failure _ repository => rw [repository]
  | again presents decided there _ binds => exact binds.isOpen
  | anew presents isUpdate decided admits committed _ repository stays binds => rw [binds.isOpen, repository]

/-- A posted message leaves a sound state sound. -/
theorem Receives.isSound {e : Endpoint} {message : Message} {before after : Server} {result : Except Failure AdmittedToken}
    (h : e.Receives message before result after) (sound : before.repository.state.IsSound) :
    after.repository.state.IsSound := by
  have swept := sound.sweep before.host.clock
  cases h with
  | refused failure _ repository => exact repository ▸ sound
  | takenBack presents isUpdate admits failure _ repository =>
    rw [repository]
    exact swept.isSound_undo_withToken admits
  | again presents decided there _ binds => exact binds.isSound sound
  | anew presents isUpdate decided admits committed _ repository stays binds =>
    refine binds.isSound ?_
    rw [repository]
    exact swept.withToken admits

end Endpoint

end TokenGate
