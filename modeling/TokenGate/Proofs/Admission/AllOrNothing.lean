import TokenGate.Proofs.Admission.Stages
import TokenGate.Proofs.Claims.Equality

/-!
# Admission is all or nothing

On every server that was reached from an empty repository, a posted message either leaves behind a token, or else what it found,
apart from ended tokens that were swept. What is said of a token that is left behind is that it is there under the identifier of
the reply, with the claims of the message. It is bound to the key of the reply too, unless it was taken for one that was there
before with another key: tokens without an identifier of their own are compared by their claims, and claims that count as equal may
confirm different keys.
-/

namespace TokenGate

namespace Server

/-! ## Servers that were reached -/

/-- A server reached from one with an empty repository by any operations and posted messages, except that no token was withdrawn
other than by an admission. The host and the channel may change at any time; writes may fail, but not during an admission. -/
inductive Reached : Server → Prop
  | start (validator : Validator) (store : Option DiskPath) (host : Host) (channel : Channel) :
    Reached { host, repository := { validator, store }, channel }
  | environment {server : Server} (before : Reached server) (host : Host) (channel : Channel) :
    Reached { server with host, channel }
  | post {server : Server} (before : Reached server) {e : Endpoint} (standard : e.profile.IsStandard)
    (saves : server.repository.Saves server.host) (message : Message) : Reached (e.receive message server).2
  | add {server : Server} (before : Reached server) (claims : Claims) (shared : SharedKey) (senderKey : Option KeyName)
    (origin : TokenOrigin) :
    Reached { server with
      repository := (server.repository.addToken server.host claims shared senderKey origin).repository
      host := (server.repository.addToken server.host claims shared senderKey origin).host }
  | other {server : Server} (before : Reached server) (op : Repository.Operation) :
    Reached { server with
      repository := (server.repository.carryOut server.host op).1
      host := (server.repository.carryOut server.host op).2 }

/-- A server whose repository is sound, settled, and stored if it has a store file. -/
structure IsInOrder (server : Server) : Prop where
  sound : server.repository.state.IsSound
  settled : server.repository.state.IsSettled
  stored : server.repository.IsStored

/-- Where only channels and challenges change, a settled state stays settled. -/
theorem Binds.isSettled {before after : Server} (h : before.Binds after) (settled : before.repository.state.IsSettled) :
    after.repository.state.IsSettled :=
  settled.congr (fun id => by rw [h.tokens]) fun key => by rw [h.keys]

/-- A server on which a message was posted stays in order. -/
theorem IsInOrder.of_receives {before after : Server} (h : before.IsInOrder) {e : Endpoint} {message : Message}
    {result : Except Failure AdmittedToken} (receives : e.Receives message before result after) : after.IsInOrder := by
  have swept := h.sound.sweep before.host.clock
  have settled := h.settled.of_isWithout (h.sound.isWithout_sweep before.host.clock)
  refine ⟨receives.isSound h.sound, ?_, receives.stays.stored h.stored⟩
  cases receives with
  | refused failure _ repository => exact repository ▸ h.settled
  | takenBack presents isUpdate admits failure _ repository =>
    rw [repository]
    exact settled.congr (Endpoint.tokens_takenBack h.sound admits) (swept.keys_undo_withToken settled admits)
  | again presents decided there _ binds => exact binds.isSettled h.settled
  | anew presents isUpdate decided admits committed _ repository stays binds =>
    refine binds.isSettled ?_
    rw [repository]
    exact settled.withToken swept admits

/-- A server with an empty repository is in order. -/
theorem IsInOrder.start (validator : Validator) (store : Option DiskPath) (host : Host) (channel : Channel) :
    IsInOrder { host, repository := { validator, store }, channel } := by
  refine ⟨RepositoryState.IsSound.empty, ?_, ?_⟩
  · intro key bound found
    simp at found
  · intro _
    exact ⟨by simp, by simp⟩

/-- A server on which an operation is carried out stays in order. -/
theorem IsInOrder.carryOut {server : Server} (h : server.IsInOrder) (op : Repository.Operation) :
    IsInOrder { server with
      repository := (server.repository.carryOut server.host op).1
      host := (server.repository.carryOut server.host op).2 } := by
  have changes := server.repository.changes_carryOut server.host op
  exact ⟨changes.isSound h.sound, changes.isSettled h.sound h.settled,
    (server.repository.carryOut_stays server.host op).stored h.stored⟩

/-- Every server that was reached is in order. -/
theorem Reached.isInOrder {server : Server} (h : Reached server) : server.IsInOrder := by
  induction h with
  | start validator store host channel => exact .start validator store host channel
  | environment before host channel ih => exact ⟨ih.sound, ih.settled, ih.stored⟩
  | post before standard saves message ih =>
    exact ih.of_receives (Endpoint.receive_receives standard message ih.sound saves ih.stored)
  | @add server before claims shared senderKey origin ih =>
    refine ⟨?_, server.repository.addToken_isSettled ih.sound ih.settled server.host claims shared senderKey origin,
      (server.repository.addToken_stays server.host claims shared senderKey origin).stored ih.stored⟩
    cases result : (server.repository.addToken server.host claims shared senderKey origin).result with
    | error e =>
      simp only [Repository.addToken_error result]
      exact ih.sound
    | ok added => exact (Repository.addToken_isSound ih.sound result).1
  | other before op ih => exact ih.carryOut op

/-- A server left as it was, except that ended tokens may be gone, with the keys, channels and challenges that only they kept. -/
structure IsRolledBack (before after : Server) : Prop where
  state : ∃ gone, (∀ id ∈ gone, id ∈ before.repository.state.expired before.host.clock) ∧
    after.repository.state.IsWithout before.repository.state gone
  contexts : after.channel.contexts.entries = before.channel.contexts.entries

end Server

namespace Endpoint

/-- Whether the token in a message is taken for one that was there before, which is bound to another key. -/
def Misattributes (e : Endpoint) (message : Message) (before : Server) : Prop :=
  ∃ claims origin t record, e.Presents message before claims origin t ∧
    (before.repository.state.sweep before.host.clock).isResubmission t = true ∧
    (before.repository.state.sweep before.host.clock).tokens[t.id]? = some record ∧ record.key ≠ t.key

/-- There is one token in a message. -/
theorem Presents.unique {e : Endpoint} {message : Message} {before : Server} {claims claims' : Claims}
    {origin origin' : TokenOrigin} {t t' : Submission} (h : e.Presents message before claims origin t)
    (h' : e.Presents message before claims' origin' t') : t = t' := by
  obtain ⟨request, read⟩ := h.read
  obtain ⟨request', read'⟩ := h'.read
  rw [read] at read'
  cases read'
  exact Except.ok.inj (h.submission.symm.trans h'.submission)

/-- Where there are no tokens, no message is taken for one that was there before. -/
theorem not_misattributes_of_tokens {e : Endpoint} {server : Server} (none : server.repository.state.tokens = ∅)
    (message : Message) : ¬e.Misattributes message server := by
  rintro ⟨_, _, t, record, _, _, found, _⟩
  have found := ((RepositoryState.tokens_sweep _ _ t.id record).mp found).1
  simp [none] at found

/-- Taking back a token that was just committed leaves the sweep, if whatever is known of a key goes with it. -/
theorem takenBack_eq {before : Server} (inOrder : before.IsInOrder) (anchored : before.repository.state.IsAnchored)
    {t : Submission} {isUpdate : Bool} (admits : (before.repository.state.sweep before.host.clock).Admits t isUpdate) :
    takenBack before t isUpdate = before.repository.state.sweep before.host.clock := by
  have without := inOrder.sound.isWithout_sweep before.host.clock
  exact (inOrder.sound.sweep before.host.clock).undo_withToken (inOrder.settled.of_isWithout without)
    (anchored.of_isWithout without) admits

/-- A posted message that is rejected leaves the server as it was. -/
theorem Receives.isRolledBack {e : Endpoint} {message : Message} {before after : Server} {failure : Failure}
    (h : e.Receives message before (.error failure) after) (inOrder : before.IsInOrder)
    (anchored : before.repository.state.IsAnchored) : before.IsRolledBack after := by
  cases h with
  | refused _ _ repository entries =>
    refine ⟨⟨[], by simp, ?_⟩, entries⟩
    rw [repository]
    exact .refl inOrder.sound.indexed (by simp)
  | takenBack presents isUpdate admits _ _ repository entries =>
    refine ⟨⟨_, fun _ among => among, ?_⟩, entries⟩
    rw [repository, takenBack_eq inOrder anchored admits]
    exact inOrder.sound.isWithout_sweep before.host.clock

/-- A token states the claims of a message, with its identifier among them; where it was there before, its own count as equal to
them. -/
def States (record : TokenRecord) (claims : Claims) (id : TokenId) : Prop :=
  record.claims = claims.set .cti id.bytes ∨ record.claims.eq (claims.set .cti id.bytes) = true

/-- Apart from its identifier and its confirmation, a token has the claims that it states. -/
theorem States.known_eq {record : TokenRecord} {claims : Claims} {id : TokenId} (h : States record claims id) {k : ClaimKey}
    (apart : k ≠ .cti) (other : k ≠ .cnf) : record.claims.known k = claims.known k := by
  rw [← claims.known_set_of_ne id.bytes apart.symm]
  rcases h with same | equal
  · rw [same]
  · exact Claims.known_eq_of_eq equal other

/-- A posted message that is admitted leaves a token behind under the identifier in the reply, which states the claims of the
message. It is bound to the key in the reply unless it was taken for one of another key. -/
theorem Receives.exists_record {e : Endpoint} {message : Message} {before after : Server} {admitted : AdmittedToken}
    (h : e.Receives message before (.ok admitted) after) :
    ∃ claims origin t record, e.Presents message before claims origin t ∧
      after.repository.state.tokens[admitted.id]? = some record ∧ States record claims admitted.id ∧
      (record.key = admitted.key ↔ ¬e.Misattributes message before) := by
  have stated : ∀ {claims origin t}, e.Presents message before claims origin t → t.claims = claims.set .cti t.id.bytes :=
    fun presents => (Submission.isFrom_of_ofClaims presents.submission).claims
  cases h with
  | @again claims origin t presents decided there _ binds =>
    -- The token that is there has the identifier and the claims of this one, but its key was never compared.
    have resubmitted := there
    rw [RepositoryState.isResubmission, Bool.and_eq_true, Option.any_eq_true] at there
    obtain ⟨_, record, found, same⟩ := there
    refine ⟨claims, origin, t, record, presents, ?_, ?_, ?_⟩
    · rw [binds.tokens]
      exact ((RepositoryState.tokens_sweep _ before.host.clock t.id record).mp found).1
    · rw [stated presents] at same
      exact .inr same
    · constructor
      · rintro own ⟨_, _, t', record', presents', _, found', other⟩
        obtain rfl := presents.unique presents'
        rw [found] at found'
        cases found'
        exact other own
      · intro right
        by_contra other
        exact right ⟨claims, origin, t, record, presents, resubmitted, found, other⟩
  | @anew claims origin t presents isUpdate decided admits committed _ repository stays binds =>
    refine ⟨claims, origin, t, t.record, presents, ?_, .inl (stated presents), ?_⟩
    · rw [binds.tokens, repository]
      exact (RepositoryState.tokens_withToken _ t isUpdate t.id).trans (if_pos rfl)
    · refine iff_of_true rfl ?_
      rintro ⟨_, _, t', record', presents', _, found', other⟩
      obtain rfl := presents.unique presents'
      -- If the identifier is taken, it is by a token of the same key that is replaced.
      exact other (admits.free record' found').2

/-- A token that is left behind is filed under its key. -/
theorem Receives.isBound {e : Endpoint} {message : Message} {before after : Server} {admitted : AdmittedToken}
    (h : e.Receives message before (.ok admitted) after) (sound : before.repository.state.IsSound) :
    ∃ request claims origin record, e.read message = .ok (request, claims, origin) ∧
      after.repository.state.tokens[admitted.id]? = some record ∧ States record claims admitted.id ∧
      admitted.id ∈ after.repository.state.idsOf record.key ∧
      (record.key = admitted.key ↔ ¬e.Misattributes message before) := by
  obtain ⟨claims, origin, _, record, presents, found, states, own⟩ := h.exists_record
  obtain ⟨request, read⟩ := presents.read
  exact ⟨request, claims, origin, record, read, found, states, ((h.isSound sound).indexed _ _).mpr ⟨record, found, rfl⟩, own⟩

/-- An admission is all or nothing: a message that is rejected leaves the server as it was, one that is admitted leaves its token
behind, with the claims of the message, and the trace ends accordingly. -/
theorem receive_all_or_nothing {e : Endpoint} (standard : e.profile.IsStandard) {server : Server} (reached : server.Reached)
    (saves : server.repository.Saves server.host) (anchored : server.repository.state.IsAnchored) (message : Message) :
    (∀ failure, (e.receive message server).1.result = .error failure → server.IsRolledBack (e.receive message server).2) ∧
    (∀ admitted, (e.receive message server).1.result = .ok admitted →
      ∃ request claims origin record, e.read message = .ok (request, claims, origin) ∧
        (e.receive message server).2.repository.state.tokens[admitted.id]? = some record ∧ States record claims admitted.id ∧
        admitted.id ∈ (e.receive message server).2.repository.state.idsOf record.key ∧
        (record.key = admitted.key ↔ ¬e.Misattributes message server)) ∧
    ((∃ admitted, (e.receive message server).1.result = .ok admitted) ↔
      (e.receive message server).1.trace.getLast? = some .committed) ∧
    ((∃ failure, (e.receive message server).1.result = .error failure) ↔
      (e.receive message server).1.trace.getLast? = some .rejected) := by
  have inOrder := reached.isInOrder
  have receives := receive_receives standard message inOrder.sound saves inOrder.stored
  have trace := e.receive_trace message server
  refine ⟨?_, ?_, ?_, ?_⟩
  · intro failure rejected
    rw [rejected] at receives
    exact receives.isRolledBack inOrder anchored
  · intro admitted committed
    rw [committed] at receives
    exact receives.isBound inOrder.sound
  · rw [trace]
    cases (e.receive message server).1.result with
    | ok admitted => exact iff_of_true ⟨admitted, rfl⟩ rfl
    | error failure => exact iff_of_false nofun nofun
  · rw [trace]
    cases (e.receive message server).1.result with
    | ok admitted => exact iff_of_false nofun nofun
    | error failure => exact iff_of_true ⟨failure, rfl⟩ rfl

namespace Sample

/-- A policy with a single grant. -/
def policy : ScopePolicy := { grants := [⟨"r_temp", "temp", [.get]⟩] }

/-- The claims of a token for `a`. -/
def claims : Claims := ((Repository.Sample.claims 1 0x61).set .iss "AS").set .aud (.single "rs1")

/-- An endpoint whose issuer knows one reference. -/
def endpoint : Endpoint where
  profile := .dtls
  shared := Repository.Sample.shared
  validator := policy.validator
  introspection := some fun text => if text = "x" then .active claims else .inactive
  issuers := ["AS"]
  audiences := ["rs1"]

/-- The messages with the reference that the issuer knows, and with another one. -/
def known : Message := { payload := [0x61, 0x78] }

def unknown : Message := { payload := [0x61, 0x79] }

def channel : Channel := { nonces := ⟨fun _ => 0, 0⟩, challenges := ⟨fun _ => 0, 0⟩ }

/-- A server that knows the keys `a` and `b`, and no token. -/
def server : Server := { host := {}, repository := Repository.Sample.repository, channel }

/-- Two keys are provisioned one after the other. -/
theorem reached_server : server.Reached := by
  have start := Server.Reached.start (ScopePolicy.validator {}) none {} channel
  have first := (start.other (.provision (Repository.Sample.popKey 0x61))).environment {} channel
  exact (first.other (.provision (Repository.Sample.popKey 0x62))).environment {} channel

theorem saves_server : server.repository.Saves server.host := nofun

/-- Nobody has a channel or a challenge yet. -/
theorem isAnchored_server : server.repository.state.IsAnchored where
  senders sender key found := by
    have none : server.repository.state.senders = ∅ := by rfl
    simp [none] at found
  challenges key challenge found := by
    have none : server.repository.state.challenges = ∅ := by rfl
    simp [none] at found

/-- No message is taken for a token that was there before, since there is none. -/
theorem not_misattributes (message : Message) : ¬endpoint.Misattributes message server :=
  not_misattributes_of_tokens (by rfl) message

end Sample

/-- A token that is known to the issuer is admitted, with the claims that the issuer knows and bound to the key in the reply; another
one is rejected. -/
theorem receive_all_or_nothing_of_references :
    (∃ admitted record, (Sample.endpoint.receive Sample.known Sample.server).1.result = .ok admitted ∧
      (Sample.endpoint.receive Sample.known Sample.server).2.repository.state.tokens[admitted.id]? = some record ∧
      States record Sample.claims admitted.id ∧ record.key = admitted.key) ∧
    Sample.server.IsRolledBack (Sample.endpoint.receive Sample.unknown Sample.server).2 := by
  have known := receive_all_or_nothing (e := Sample.endpoint) .dtls Sample.reached_server Sample.saves_server
    Sample.isAnchored_server Sample.known
  have unknown := receive_all_or_nothing (e := Sample.endpoint) .dtls Sample.reached_server Sample.saves_server
    Sample.isAnchored_server Sample.unknown
  refine ⟨?_, ?_⟩
  · obtain ⟨admitted, result⟩ := known.2.2.1.mpr (by decide +kernel)
    obtain ⟨_, claims, _, record, read, found, states, _, own⟩ := known.2.1 admitted result
    cases read
    exact ⟨admitted, record, result, found, states, own.mpr (Sample.not_misattributes _)⟩
  · obtain ⟨failure, result⟩ := unknown.2.2.2.mpr (by decide +kernel)
    exact unknown.1 failure result

end Endpoint

end TokenGate
