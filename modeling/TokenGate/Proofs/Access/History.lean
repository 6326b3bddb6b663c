import Mathlib.Data.List.Induction
import TokenGate.Proofs.Admission.AllOrNothing

/-!
# Where tokens come from

The events in the life of a server, each of which leaves it in a state of its own. Tokens only get there by a message whose
admission succeeds. A token that is there was put there by the last such message for its identifier, and nothing has taken it
away since.
-/

namespace TokenGate

/-- An event in the life of a server. -/
inductive Event where
  | post (e : Endpoint) (message : Message)
  | other (op : Repository.Operation)
  | clock (now : UInt64)

/-- An event in the life of a server whose scopes are up to a policy. -/
def Event.IsUnder (policy : ScopePolicy) : Event → Prop
  | .post e _ => e.profile.IsStandard ∧ e.validator = policy.validator
  | _ => True

namespace Server

/-- The server after an event. -/
def step (server : Server) : Event → Server
  | .post e message => (e.receive message server).2
  | .other op => { server with
      repository := (server.repository.carryOut server.host op).1
      host := (server.repository.carryOut server.host op).2 }
  | .clock now => { server with host := { server.host with clock := now } }

/-- The server after several events. -/
def afterAll (server : Server) (events : List Event) : Server := events.foldl step server

/-- A run that comes by an event is a run up to the event, the event, and a run from there. -/
theorem afterAll_middle (server : Server) (earlier : List Event) (event : Event) (later : List Event) :
    server.afterAll (earlier ++ event :: later) = ((server.afterAll earlier).step event).afterAll later := by
  rw [afterAll, List.foldl_append]
  rfl

/-- The last event of a run comes after all others. -/
theorem afterAll_concat (server : Server) (events : List Event) (event : Event) :
    server.afterAll (events ++ [event]) = (server.afterAll events).step event :=
  server.afterAll_middle events event []

/-- A server that knows nothing, whose scopes are up to a policy. -/
def fresh (policy : ScopePolicy) (store : Option DiskPath) (host : Host) (channel : Channel) : Server where
  host := host
  repository := { validator := policy.validator, store }
  channel := channel

/-- A server in order, whose changes are saved and whose scopes are up to a policy. -/
structure IsUnder (server : Server) (policy : ScopePolicy) : Prop where
  inOrder : server.IsInOrder
  saves : server.repository.Saves server.host
  validator : server.repository.validator = policy.validator

/-- A fresh server is in order. -/
theorem isUnder_fresh (policy : ScopePolicy) {store : Option DiskPath} {host : Host} (channel : Channel)
    (saves : ∀ path, store = some path → host.Accepts path) : (fresh policy store host channel).IsUnder policy :=
  ⟨.start policy.validator store host channel, saves, rfl⟩

end Server

/-- Whether a message is taken for an update of the rights of a key. -/
def Endpoint.Updates (e : Endpoint) (message : Message) (before : Server) : Prop :=
  ∃ request claims origin, e.read message = .ok (request, claims, origin) ∧
    before.repository.updateApplies before.host claims (Endpoint.senderKey message before) = true

/-- A message without a sender updates no rights. -/
theorem Endpoint.not_updates_of_sender {e : Endpoint} {message : Message} {before : Server} (unknown : message.sender = none) :
    ¬e.Updates message before := by
  rintro ⟨_, _, _, _, applies⟩
  rw [senderKey, unknown, Repository.updateApplies] at applies
  split at applies
  · simp [RepositoryState.isUpdate] at applies
  · cases applies

/-- Whether a message puts a record under an identifier. -/
def Endpoint.Puts (e : Endpoint) (message : Message) (before : Server) (id : TokenId) (record : TokenRecord) : Prop :=
  ∃ admitted claims origin t, (e.receive message before).1.result = .ok admitted ∧ admitted.id = id ∧
    admitted.key = record.key ∧ e.Presents message before claims origin t ∧ t.id = id ∧ t.record = record

/-- Whether an event takes a token of a key away: the token is removed or purged, or the rights of the key are updated. -/
def Event.Takes (before : Server) (id : TokenId) (key : KeyName) : Event → Prop
  | .post e message => e.Updates message before ∧
    ∃ admitted, (e.receive message before).1.result = .ok admitted ∧ admitted.key = key
  | .other (.remove removed) => removed = id ∧ (before.repository.removeToken before.host removed).result = .ok true
  | .other (.purge now) => ∃ ids, (before.repository.purge before.host now).result = .ok ids ∧ id ∈ ids
  | _ => False

/-! ## One event -/

/-- A host does not depend on the time in writing files. -/
theorem Host.Accepts.setClock {host : Host} {path : DiskPath} (h : host.Accepts path) (now : UInt64) :
    Accepts { host with clock := now } path := by
  intro content
  obtain ⟨written, renamed, wrote, moved, _⟩ := replaceFile_eq_true_iff.mp (h content)
  unfold replaceFile
  simp only [wrote, moved]

/-- A server whose scopes are up to a policy stays so. -/
theorem Server.IsUnder.step {server : Server} {policy : ScopePolicy} (h : server.IsUnder policy) {event : Event}
    (proper : event.IsUnder policy) : (server.step event).IsUnder policy := by
  cases event with
  | post e message =>
    have receives := Endpoint.receive_receives proper.1 message h.inOrder.sound h.saves h.inOrder.stored
    have stays := receives.stays
    exact ⟨h.inOrder.of_receives receives, stays.saves h.saves, stays.validator.trans h.validator⟩
  | other op =>
    have stays := server.repository.carryOut_stays server.host op
    exact ⟨h.inOrder.carryOut op, stays.saves h.saves, stays.validator.trans h.validator⟩
  | clock now =>
    exact ⟨⟨h.inOrder.sound, h.inOrder.settled, h.inOrder.stored⟩, fun path stored => (h.saves path stored).setClock now,
      h.validator⟩

/-- Whether the message with a token is taken for an update depends on the claims of the token. -/
theorem Endpoint.Presents.updates_iff {e : Endpoint} {message : Message} {before : Server} {claims : Claims}
    {origin : TokenOrigin} {t : Submission} (h : e.Presents message before claims origin t) :
    e.Updates message before ↔
      before.repository.updateApplies before.host claims (Endpoint.senderKey message before) = true := by
  obtain ⟨request, read⟩ := h.read
  constructor
  · rintro ⟨_, _, _, again, applies⟩
    rw [read] at again
    cases again
    exact applies
  · intro applies
    exact ⟨request, claims, origin, read, applies⟩

/-- A token that is there after a message was either put there by it, or was there before and is not replaced by it. -/
theorem Endpoint.Receives.tokens {e : Endpoint} {message : Message} {before after : Server}
    {result : Except Failure AdmittedToken} (h : e.Receives message before result after)
    (sound : before.repository.state.IsSound) {id : TokenId} {record : TokenRecord} (found : after.repository.state.tokens[id]? = some record) :
    (∃ admitted claims origin t, result = .ok admitted ∧ admitted.id = id ∧ admitted.key = record.key ∧
      e.Presents message before claims origin t ∧ t.id = id ∧ t.record = record) ∨
    (before.repository.state.tokens[id]? = some record ∧
      ¬(e.Updates message before ∧ ∃ admitted, result = .ok admitted ∧ admitted.key = record.key)) := by
  have swept := sound.sweep before.host.clock
  cases h with
  | refused failure _ repository =>
    rw [repository] at found
    exact Or.inr ⟨found, nofun⟩
  | takenBack presents isUpdate admits failure _ repository =>
    rw [repository] at found
    have found := (Endpoint.tokens_takenBack sound admits id).symm.trans found
    exact Or.inr ⟨((RepositoryState.tokens_sweep _ _ id record).mp found).1, nofun⟩
  | again presents decided there _ binds =>
    rw [binds.tokens] at found
    refine Or.inr ⟨found, ?_⟩
    rintro ⟨updates, _⟩
    rw [presents.updates_iff.mp updates] at decided
    nomatch decided
  | @anew claims origin t presents isUpdate decided admits committed _ repository stays binds =>
    rw [binds.tokens, repository] at found
    have found := (RepositoryState.tokens_withToken _ t isUpdate id).symm.trans found
    split at found
    · rename_i same
      cases found
      exact Or.inl ⟨_, claims, origin, t, rfl, same, rfl, presents, same, rfl⟩
    -- The others of the key are gone if the token is an update, so a token that is there is not of that key.
    · split at found
      · nomatch found
      · rename_i kept
        refine Or.inr ⟨((RepositoryState.tokens_sweep _ _ id record).mp found).1, ?_⟩
        rintro ⟨updates, _, ⟨⟩, own⟩
        have replaces : isUpdate = true := decided.trans (presents.updates_iff.mp updates)
        exact kept ⟨replaces, (swept.indexed id _).mpr ⟨record, found, own.symm⟩⟩

/-- A token that is there after an operation is not taken away by it. -/
theorem Repository.Operation.not_takes {before : Server} (sound : before.repository.state.IsSound)
    {op : Repository.Operation} {id : TokenId} {record : TokenRecord}
    (found : (before.step (.other op)).repository.state.tokens[id]? = some record) :
    ¬(Event.other op).Takes before id record.key := by
  intro takes
  cases op with
  | remove removed =>
    obtain ⟨rfl, ok⟩ := takes
    have left : (before.step (.other (.remove removed))).repository.state = before.repository.state.removeToken removed :=
      congrArg Repository.state (removeToken_ok ok)
    rw [left] at found
    exact (((sound.isWithout_removeToken removed).tokens removed record).mp found).2 (List.mem_singleton_self removed)
  | purge now =>
    obtain ⟨ids, ok, among⟩ := takes
    obtain ⟨rfl, purged⟩ := purge_ok ok
    have left : (before.step (.other (.purge now))).repository.state = before.repository.state.sweep now := purged
    rw [left] at found
    exact (((sound.isWithout_sweep now).tokens id record).mp found).2 among
  | _ => exact takes

/-- A token that is there after an event was either put there by it, or was there before and is not taken away by it. -/
theorem Server.IsUnder.tokens_step {server : Server} {policy : ScopePolicy} (h : server.IsUnder policy) {event : Event}
    (proper : event.IsUnder policy) {id : TokenId} {record : TokenRecord}
    (found : (server.step event).repository.state.tokens[id]? = some record) :
    (∃ e message, event = .post e message ∧ e.Puts message server id record) ∨
    (server.repository.state.tokens[id]? = some record ∧ ¬event.Takes server id record.key) := by
  cases event with
  | post e message =>
    have receives := Endpoint.receive_receives proper.1 message h.inOrder.sound h.saves h.inOrder.stored
    exact (receives.tokens h.inOrder.sound found).imp_left fun puts => ⟨e, message, rfl, puts⟩
  | other op =>
    have there := (server.repository.changes_carryOut server.host op).tokens h.inOrder.sound id record found
    exact Or.inr ⟨there, Repository.Operation.not_takes h.inOrder.sound found⟩
  | clock now => exact Or.inr ⟨found, not_false⟩

/-! ## Several events -/

namespace Server

/-- A token is there all along, and no event takes it away. -/
def Keeps (server : Server) (id : TokenId) (record : TokenRecord) : List Event → Prop
  | [] => server.repository.state.tokens[id]? = some record
  | event :: events => server.repository.state.tokens[id]? = some record ∧ ¬event.Takes server id record.key ∧
    (server.step event).Keeps id record events

/-- A token that was kept so far is kept by one more event, unless the event takes it away. -/
theorem Keeps.concat {server : Server} {id : TokenId} {record : TokenRecord} {events : List Event}
    (h : server.Keeps id record events) {event : Event} (kept : ¬event.Takes (server.afterAll events) id record.key)
    (found : (server.afterAll (events ++ [event])).repository.state.tokens[id]? = some record) :
    server.Keeps id record (events ++ [event]) := by
  induction events generalizing server with
  | nil => exact ⟨h, kept, found⟩
  | cons first rest ih =>
    obtain ⟨there, stays, keeps⟩ := h
    exact ⟨there, stays, ih keeps kept found⟩

/-- A server whose scopes are up to a policy stays so however many events there are. -/
theorem IsUnder.afterAll {server : Server} {policy : ScopePolicy} (h : server.IsUnder policy) {events : List Event}
    (proper : ∀ event ∈ events, event.IsUnder policy) : (server.afterAll events).IsUnder policy := by
  induction events generalizing server with
  | nil => exact h
  | cons event events ih =>
    rw [List.forall_mem_cons] at proper
    exact ih (h.step proper.1) proper.2

/-- A token that is there was put there by a message, and was kept since. -/
theorem IsUnder.exists_puts {start : Server} {policy : ScopePolicy} (h : start.IsUnder policy)
    (empty : ∀ id : TokenId, start.repository.state.tokens[id]? = none) {events : List Event}
    (proper : ∀ event ∈ events, event.IsUnder policy) {id : TokenId} {record : TokenRecord}
    (found : (start.afterAll events).repository.state.tokens[id]? = some record) :
    ∃ earlier e message later, events = earlier ++ .post e message :: later ∧
      e.Puts message (start.afterAll earlier) id record ∧
      ((start.afterAll earlier).step (.post e message)).Keeps id record later := by
  -- From the end of the run: the last event put the token there, or an earlier one did and the last kept it.
  induction events using List.reverseRecOn with
  | nil =>
    have none := empty id
    rw [show start.repository.state.tokens[id]? = some record from found] at none
    nomatch none
  | append_singleton events event ih =>
    rw [List.forall_mem_append] at proper
    have last := proper.2 event (List.mem_singleton_self event)
    have step := found
    rw [afterAll_concat] at step
    rcases (h.afterAll proper.1).tokens_step last step with ⟨e, message, rfl, puts⟩ | ⟨there, kept⟩
    · exact ⟨events, e, message, [], rfl, puts, step⟩
    · obtain ⟨earlier, e, message, later, rfl, puts, keeps⟩ := ih proper.1 there
      rw [List.append_assoc, List.cons_append, afterAll_middle] at found
      rw [afterAll_middle] at kept
      exact ⟨earlier, e, message, later ++ [event], List.append_assoc _ _ _, puts, keeps.concat kept found⟩

end Server

end TokenGate
