import TokenGate.Proofs.Admission.AllOrNothing
import TokenGate.Proofs.Admission.Commitments
import TokenGate.Proofs.Oscore.Derivation
import TokenGate.Proofs.Oscore.Identifiers

/-!
# Contexts and senders

A context that is established comes with a binding of its sender, and the two go different ways from there: contexts make room for
others, and the repository forgets a binding along with its key. `Oscore.Contexts.InStep` is what holds of both all along, on
every server on which only exchanges bind senders.
-/

namespace TokenGate

/-! ## Senders that are forgotten -/

namespace RepositoryState

/-- A state that binds no sender otherwise than another one does. -/
def BindsNoMore (s' s : RepositoryState) : Prop :=
  ∀ (sender : String) (key : KeyName), s'.senders[sender]? = some key → s.senders[sender]? = some key

theorem BindsNoMore.of_eq {s s' : RepositoryState} (same : s'.senders = s.senders) : s'.BindsNoMore s := by
  intro sender key bound
  rw [same] at bound
  exact bound

theorem BindsNoMore.trans {s s' s'' : RepositoryState} (h : s''.BindsNoMore s') (h' : s'.BindsNoMore s) : s''.BindsNoMore s :=
  fun sender key bound => h' sender key (h sender key bound)

/-- Dropping a key without tokens binds no further sender. -/
theorem bindsNoMore_dropIfOrphaned (s : RepositoryState) (key : KeyName) : (s.dropIfOrphaned key).BindsNoMore s := by
  intro sender bound found
  rw [senders_dropIfOrphaned, Option.filter_eq_some_iff] at found
  exact found.1

theorem bindsNoMore_removeToken (s : RepositoryState) (id : TokenId) : (s.removeToken id).BindsNoMore s := by
  rw [removeToken, removeToken?_eq]
  cases s.tokens[id]? with
  | none => exact .of_eq rfl
  | some record => exact (bindsNoMore_dropIfOrphaned _ record.key).trans (.of_eq rfl)

theorem bindsNoMore_sweep (s : RepositoryState) (now : UInt64) : (s.sweep now).BindsNoMore s := by
  rw [sweep]
  generalize s.expired now = ids
  induction ids generalizing s with
  | nil => exact .of_eq rfl
  | cons id ids ih => exact (ih (s.removeToken id)).trans (s.bindsNoMore_removeToken id)

end RepositoryState

namespace Repository

/-- Only binding a sender binds a sender. -/
theorem Operation.Changes.bindsNoMore {op : Operation} {s s' : RepositoryState} (h : op.Changes s s')
    (apart : ∀ sender key, op ≠ .bind sender key) : s'.BindsNoMore s := by
  cases h with
  | nothing => exact .of_eq rfl
  | remove id => exact s.bindsNoMore_removeToken id
  | purge now => exact s.bindsNoMore_sweep now
  | provision named => exact .of_eq rfl
  | bind sender key => exact absurd rfl (apart sender key)
  | unbind sender =>
    intro other key bound
    rw [Std.ExtTreeMap.getElem?_erase, Option.ite_none_left_eq_some] at bound
    exact bound.2
  | challenge key challenge => exact .of_eq rfl

/-- Adding a token binds no sender. -/
theorem addToken_bindsNoMore (r : Repository) (host : Host) (claims : Claims) (shared : SharedKey) (senderKey : Option KeyName)
    (origin : TokenOrigin) : (r.addToken host claims shared senderKey origin).repository.state.BindsNoMore r.state := by
  apply @addToken_keeps _ _ _ _ _ _ (fun state => state.BindsNoMore r.state) (.of_eq rfl)
  intro t isUpdate _
  exact (RepositoryState.BindsNoMore.of_eq (RepositoryState.senders_withToken _ t isUpdate)).trans
    (r.state.bindsNoMore_sweep host.clock)

/-- Taking a token back binds no sender, however late it is. -/
theorem withdraw_bindsNoMore (r : Repository) (host : Host) (added : AddedToken) :
    (r.withdraw host added).repository.state.BindsNoMore r.state := by
  apply @withdraw_keeps _ _ _ (fun state => state.BindsNoMore r.state) (.of_eq rfl)
  intro d _
  exact (RepositoryState.bindsNoMore_dropIfOrphaned _ _).trans (.of_eq (r.state.senders_undo added.id added.key d))

/-- A change of an open repository without a store file always comes about, and does nothing to the host. -/
theorem perform_of_unstored {α : Type} {r : Repository} (isOpen : r.isOpen = true) (unstored : r.store = none) (host : Host)
    {change : RepositoryState → Except Rejection (Outcome α)} {outcome : Outcome α} (changed : change r.state = .ok outcome) :
    r.perform host change = ⟨.ok outcome.value, { r with state := outcome.next.getD r.state }, host⟩ := by
  obtain ⟨validator, store, _, state⟩ := r
  subst isOpen unstored
  simp only [perform, if_true, changed, commit, save]
  cases outcome.next <;> rfl

/-- On an open repository without a store file, a sender can be bound. -/
theorem bindSender_of_unstored {r : Repository} (isOpen : r.isOpen = true) (unstored : r.store = none) (host : Host)
    (sender : String) (key : KeyName) :
    r.bindSender host sender key =
      ⟨.ok (), { r with state := { r.state with senders := r.state.senders.insert sender key } }, host⟩ :=
  @perform_of_unstored Unit r isOpen unstored host
    (fun s => .ok (.changed () { s with senders := s.senders.insert sender key })) _ rfl

/-- On an open repository without a store file, a sender can be forgotten. -/
theorem unbindSender_of_unstored {r : Repository} (isOpen : r.isOpen = true) (unstored : r.store = none) (host : Host)
    (sender : String) :
    ∃ state, r.unbindSender host sender = ⟨.ok (), { r with state }, host⟩ ∧
      ∀ (other : String) (key : KeyName), state.senders[other]? = some key →
        sender ≠ other ∧ r.state.senders[other]? = some key := by
  unfold unbindSender
  by_cases there : r.state.senders.contains sender = true
  · refine ⟨_, perform_of_unstored isOpen unstored host (if_pos there), ?_⟩
    intro other key bound
    simp only [Outcome.changed, Option.getD_some, Std.ExtTreeMap.getElem?_erase, compare_eq_eq_iff,
      Option.ite_none_left_eq_some] at bound
    exact bound
  · refine ⟨_, perform_of_unstored isOpen unstored host (if_neg there), ?_⟩
    intro other key bound
    refine ⟨?_, bound⟩
    rintro rfl
    simp only [Outcome.unchanged, Option.getD_none] at bound
    rw [Std.ExtTreeMap.contains_eq_isSome_getElem?, bound] at there
    exact there rfl

end Repository

/-! ## Contexts and their senders -/

namespace Oscore

namespace Contexts

open Profile.OscoreExchange (senderOf)

/-- Contexts, and senders that are bound to keys, in step: every binding is that of the sender of a context to the context's
key. -/
structure InStep (contexts : Contexts) (senders : Std.ExtTreeMap String KeyName) : Prop where
  few : contexts.entries.length ≤ maxContexts
  single : ∀ entry ∈ contexts.entries, ∃ id, entry.context.recipientId = [id]
  distinct : (contexts.entries.map (·.context.recipientId)).Nodup
  apart : ∀ entry ∈ contexts.entries, entry.context.recipientId ≠ entry.context.senderId
  stored : ∀ (sender : String) (key : KeyName), senders[sender]? = some key →
    ∃ entry ∈ contexts.entries, senderOf entry.context.recipientId = sender ∧ entry.key = key

variable {contexts : Contexts} {senders senders' : Std.ExtTreeMap String KeyName}

/-- The sender of a context is bound to the context's key, or to nothing. -/
theorem InStep.bound (h : contexts.InStep senders) {entry : StoredContext} (among : entry ∈ contexts.entries) :
    senders[senderOf entry.context.recipientId]? = some entry.key ∨ senders[senderOf entry.context.recipientId]? = none := by
  cases found : senders[senderOf entry.context.recipientId]? with
  | none => exact Or.inr rfl
  | some key =>
    left
    obtain ⟨other, among', same, rfl⟩ := h.stored _ _ found
    obtain ⟨id, own⟩ := h.single entry among
    obtain ⟨id', own'⟩ := h.single other among'
    rw [own, own'] at same
    have equal : other.context.recipientId = entry.context.recipientId := by
      rw [own, own', Profile.OscoreExchange.senderOf_singleton_inj same]
    rw [List.inj_on_of_nodup_map h.distinct among' among equal]

/-- Senders may be forgotten. -/
theorem InStep.mono (h : contexts.InStep senders)
    (fewer : ∀ (sender : String) (key : KeyName), senders'[sender]? = some key → senders[sender]? = some key) :
    contexts.InStep senders' :=
  ⟨h.few, h.single, h.distinct, h.apart, fun sender key found => h.stored sender key (fewer sender key found)⟩

/-- The order of the contexts does not matter, and neither does the last identifier. -/
theorem InStep.perm (h : contexts.InStep senders) {contexts' : Contexts} (perm : contexts'.entries.Perm contexts.entries) :
    contexts'.InStep senders where
  few := perm.length_eq ▸ h.few
  single := fun entry among => h.single entry (perm.mem_iff.mp among)
  distinct := (perm.map _).nodup_iff.mpr h.distinct
  apart := fun entry among => h.apart entry (perm.mem_iff.mp among)
  stored := by
    intro sender key found
    obtain ⟨entry, among, own⟩ := h.stored sender key found
    exact ⟨entry, perm.mem_iff.mpr among, own⟩

/-- A context with an identifier of its own comes in, its sender is bound, and the sender of the context that made room for it is
forgotten. -/
theorem InStep.insert (h : contexts.InStep senders) {entry : StoredContext} {id : UInt8}
    (own : entry.context.recipientId = [id]) (apart : entry.context.recipientId ≠ entry.context.senderId)
    (fresh : ∀ other ∈ contexts.entries, other.context.recipientId ≠ [id])
    (bound : ∀ (sender : String) (key : KeyName), senders'[sender]? = some key →
      (senderOf [id] = sender ∧ entry.key = key ∨ senders[sender]? = some key) ∧
        ∀ old, (contexts.insert entry).1 = some old → senderOf old.context.recipientId ≠ sender) :
    (contexts.insert entry).2.InStep senders' := by
  -- The contexts that stay are those there were, or those without the one that makes room.
  obtain ⟨stay, entries, sub, kept⟩ : ∃ stay, (contexts.insert entry).2.entries = entry :: stay ∧
      stay.Sublist contexts.entries ∧ ∀ other ∈ contexts.entries, other ∈ stay ∨ (contexts.insert entry).1 = some other := by
    unfold Contexts.insert
    split
    · exact ⟨_, rfl, List.Sublist.refl _, fun other among => Or.inl among⟩
    · refine ⟨_, rfl, List.dropLast_sublist _, fun other among => ?_⟩
      have whole := List.dropLast_append_getLast (List.ne_nil_of_mem among)
      rw [← whole, List.mem_append, List.mem_singleton] at among
      rcases among with early | last
      · exact Or.inl early
      · right
        rw [last]
        exact List.getLast?_eq_some_getLast _
  refine ⟨contexts.length_insert_le entry h.few, ?_, ?_, ?_, ?_⟩
  · rw [entries, List.forall_mem_cons]
    exact ⟨⟨id, own⟩, fun other among => h.single other (sub.subset among)⟩
  · rw [entries, List.map_cons, List.nodup_cons, own]
    refine ⟨?_, h.distinct.sublist (sub.map _)⟩
    intro among
    obtain ⟨other, stays, same⟩ := List.mem_map.mp among
    exact fresh other (sub.subset stays) same
  · rw [entries, List.forall_mem_cons]
    exact ⟨apart, fun other among => h.apart other (sub.subset among)⟩
  · intro sender key found
    rw [entries]
    obtain ⟨⟨rfl, rfl⟩ | before, spared⟩ := bound sender key found
    · exact ⟨entry, List.mem_cons_self, by rw [own], rfl⟩
    · obtain ⟨other, among, rfl, rfl⟩ := h.stored sender key before
      rcases kept other among with stays | left
      · exact ⟨other, List.mem_cons_of_mem _ stays, rfl, rfl⟩
      · exact absurd rfl (spared other left)

end Contexts

end Oscore

/-! ## Servers in step -/

namespace Server

/-- A server without a store file whose contexts and senders are in step. -/
structure IsInStep (server : Server) : Prop where
  unstored : server.repository.store = none
  inStep : server.channel.contexts.InStep server.repository.state.senders

/-- A server that keeps its contexts, and forgets senders at most, stays in step. -/
theorem IsInStep.of_bindsNoMore {server server' : Server} (h : server.IsInStep)
    (store : server'.repository.store = server.repository.store)
    (contexts : server'.channel.contexts.entries = server.channel.contexts.entries)
    (fewer : server'.repository.state.BindsNoMore server.repository.state) : server'.IsInStep where
  unstored := store.trans h.unstored
  inStep := (h.inStep.mono fewer).perm (contexts ▸ List.Perm.refl _)

/-- A server in step that takes changes. -/
structure IsAtWork (server : Server) : Prop where
  isOpen : server.repository.isOpen = true
  inStep : server.IsInStep

end Server

namespace Profile

/-- What is left to do once a context is derived for a fresh identifier keeps a server in step. -/
theorem OscoreExchange.keeps_finish {server : Server} (h : server.IsAtWork) (key : KeyName) (nonce2 : Bytes) {id : UInt8}
    {context : Oscore.Context} (own : context.recipientId = [id]) (apart : context.recipientId ≠ context.senderId)
    (fresh : ∀ other ∈ server.channel.contexts.entries, other.context.recipientId ≠ [id]) :
    ((finish key nonce2 [id] context).run server).2.IsAtWork := by
  obtain ⟨isOpen, unstored, inStep⟩ := h
  unfold finish
  rw [Action.run_bind, Action.run_committing, Repository.bindSender_of_unstored isOpen unstored]
  simp only [Except.mapError]
  rw [Action.run_bind, Action.run_onContexts]
  simp only
  have binds : ∀ (sender : String) (bound : KeyName),
      (server.repository.state.senders.insert (senderOf [id]) key)[sender]? = some bound →
        senderOf [id] = sender ∧ key = bound ∨ server.repository.state.senders[sender]? = some bound := by
    intro sender bound found
    simp only [Std.ExtTreeMap.getElem?_insert, compare_eq_eq_iff] at found
    split at found
    · rename_i same
      exact Or.inl ⟨same, Option.some.inj found⟩
    · exact Or.inr found
  cases evicted : (server.channel.contexts.insert ⟨context, key⟩).1 with
  | none =>
    refine ⟨isOpen, unstored, inStep.insert own apart fresh fun sender bound found => ⟨binds sender bound found, ?_⟩⟩
    rw [evicted]
    exact nofun
  | some old =>
    simp only
    rw [Action.run_bind, Action.run_tryCatch, Action.run_committing]
    obtain ⟨state, unbinds, fewer⟩ := Repository.unbindSender_of_unstored
      (r := { server.repository with
        state := { server.repository.state with senders := server.repository.state.senders.insert (senderOf [id]) key } })
      isOpen unstored server.host (senderOf old.context.recipientId)
    rw [unbinds]
    refine ⟨isOpen, unstored, inStep.insert own apart fresh fun sender bound found => ?_⟩
    obtain ⟨apart, found⟩ := fewer sender bound found
    refine ⟨binds sender bound found, ?_⟩
    rw [evicted]
    rintro _ ⟨⟩
    exact apart

/-- An exchange keeps a server in step, whether a context comes of it or not. -/
theorem OscoreExchange.keeps_establish (exchange : OscoreExchange) (token : CommittedToken) :
    Action.Keeps Server.IsAtWork (exchange.establish token) := by
  rintro server ⟨isOpen, unstored, inStep⟩
  obtain ⟨other, fresh⟩ := server.channel.contexts.takeId_fresh inStep.few exchange.id1
  have handed := (server.channel.contexts.lastId_takeId exchange.id1).1
  have kept : (server.channel.contexts.takeId exchange.id1).2.InStep server.repository.state.senders :=
    inStep.perm (List.Perm.refl _)
  rw [establish_eq, Action.run_bind, Action.run_freshNonce]
  simp only
  rw [Action.run_bind, Action.run_onContexts]
  simp only
  generalize (server.channel.contexts.takeId exchange.id1).2.lastId = id at handed
  rw [handed] at other fresh ⊢
  rw [Action.run_bind, Action.run_ofExcept]
  cases derived : Oscore.derive exchange.material exchange.nonce1 (server.channel.nonces.take Action.nonceLength).1
      exchange.id1 [id] with
  | error failure => exact ⟨isOpen, unstored, kept⟩
  | ok context =>
    obtain ⟨sends, receives, apart⟩ := Oscore.derive_ok derived
    simp only [Except.mapError]
    refine keeps_finish ?_ token.key _ receives ?_ fresh
    · exact ⟨isOpen, unstored, kept⟩
    · rw [sends, receives]
      exact Ne.symm apart

/-- Welcoming a member keeps the server at work. -/
theorem JoinRequest.keeps_welcome (join : JoinRequest) (known : Std.ExtTreeMap String GroupInfo) (token : CommittedToken) :
    Action.Keeps Server.IsAtWork (join.welcome known token) := by
  refine .bind (fun server h => ⟨h.isOpen, h.inStep.unstored, h.inStep.inStep⟩) fun challenge => ?_
  refine .bind (fun server h => ?_) fun _ => .pure _
  have binds := server.repository.setChallenge_binds server.host token.key challenge
  have changes := server.repository.changes_carryOut server.host (.challenge token.key challenge)
  exact ⟨binds.isOpen.trans h.isOpen, h.inStep.of_bindsNoMore binds.stays.store rfl (changes.bindsNoMore nofun)⟩

/-- Setups keep a server in step. -/
theorem Asks.keeps {request : Request} {claims : Claims} {exchanging : Bool} {setup : Setup}
    (asks : Asks request claims exchanging setup) (token : CommittedToken) :
    Action.Keeps Server.IsAtWork (setup token) := by
  induction asks with
  | nothing => exact .pure _
  | exchange _ => exact OscoreExchange.keeps_establish _ token
  | welcoming _ join known ih => exact .bind ih fun _ => .bind (join.keeps_welcome known token) fun _ => .pure _

end Profile

namespace Endpoint

variable {e : Endpoint} {server : Server}

/-- Taking a token back keeps channels and contexts in step. -/
theorem isInStep_failAfter {α : Type} (h : server.IsInStep) (added : AddedToken) (failure : Failure) :
    ((failAfter added failure : Action Failure α).run server).2.IsInStep := by
  rw [run_failAfter]
  exact h.of_bindsNoMore (server.repository.withdraw_stays server.host added).store rfl
    (server.repository.withdraw_bindsNoMore server.host added)

/-- The commit of a token keeps a server in step. -/
theorem isInStep_commit (h : server.IsInStep) {p : Prepared}
    (keeps : ∀ token, Action.Keeps Server.IsAtWork (p.accepted.setup token)) :
    ((e.commit p.request p.claims p.origin p.accepted).run server).2.IsInStep := by
  have added : (p.addTo e server).IsInStep :=
    h.of_bindsNoMore (server.repository.addToken_stays server.host p.claims e.shared p.accepted.senderKey p.origin).store rfl
      (server.repository.addToken_bindsNoMore server.host p.claims e.shared p.accepted.senderKey p.origin)
  rw [run_commit_eq]
  cases adds : (p.addition e server).result with
  | error failure => exact added
  | ok token =>
    simp only
    by_cases agreed : token.isUpdate = p.accepted.isUpdate
    · obtain ⟨isOpen, _, _, _, _, _, counted⟩ := Repository.addToken_ok adds
      have work : (p.addTo e server).IsAtWork := by
        refine ⟨?_, added⟩
        rw [Prepared.addTo, Prepared.addition, counted]
        exact isOpen
      have kept := keeps (p.committed token) _ work
      rw [run_finish_of_agreed agreed]
      rcases setUp : (p.accepted.setup (p.committed token)).run (p.addTo e server) with ⟨failure | extras, after⟩
      · rw [setUp] at kept
        exact isInStep_failAfter kept.inStep token failure
      · rw [setUp] at kept
        exact kept.inStep
    · unfold finish
      rw [if_pos agreed]
      exact isInStep_failAfter added token _

/-- A posted message keeps a server in step. -/
theorem isInStep_receive (standard : e.profile.IsStandard) (message : Message) (h : server.IsInStep) :
    (e.receive message server).2.IsInStep := by
  have kept : ((e.run message).run server).2.IsInStep := by
    rw [run_eq_prepare standard.isTame]
    cases prepare : e.prepare message server with
    | error failed => exact h
    | ok p =>
      have prepared := (isPrepared_iff e message server p).mpr prepare
      obtain ⟨_, asks⟩ := standard.asks prepared.checked
      exact isInStep_commit h asks.keeps
  unfold receive
  rcases ran : (e.run message).run server with ⟨⟨stage, failure⟩ | admitted, after⟩
  · rw [ran] at kept
    cases failure with
    | detached => exact h
    | rejected rejection => exact kept
    | internal text => exact kept
  · rw [ran] at kept
    exact kept

end Endpoint

/-! ## Runs -/

namespace Server

open Profile.OscoreExchange (senderOf)

/-- A server reached from a fresh one without a store file, on which nothing but exchanges binds senders. The host may change at
any time, and tokens may be taken back however late. -/
inductive OnlyExchangesBind : Server → Prop
  | start (validator : Validator) (host : Host) (nonces challenges : RandomSource) :
    OnlyExchangesBind { host, repository := { validator }, channel := { nonces, challenges } }
  | environment {server : Server} (before : OnlyExchangesBind server) (host : Host) : OnlyExchangesBind { server with host }
  | post {server : Server} (before : OnlyExchangesBind server) {e : Endpoint} (standard : e.profile.IsStandard)
    (message : Message) : OnlyExchangesBind (e.receive message server).2
  | add {server : Server} (before : OnlyExchangesBind server) (claims : Claims) (shared : SharedKey)
    (senderKey : Option KeyName) (origin : TokenOrigin) :
    OnlyExchangesBind { server with
      repository := (server.repository.addToken server.host claims shared senderKey origin).repository
      host := (server.repository.addToken server.host claims shared senderKey origin).host }
  | withdraw {server : Server} (before : OnlyExchangesBind server) (added : AddedToken) :
    OnlyExchangesBind { server with
      repository := (server.repository.withdraw server.host added).repository
      host := (server.repository.withdraw server.host added).host }
  | other {server : Server} (before : OnlyExchangesBind server) (op : Repository.Operation)
    (apart : ∀ sender key, op ≠ .bind sender key) :
    OnlyExchangesBind { server with
      repository := (server.repository.carryOut server.host op).1
      host := (server.repository.carryOut server.host op).2 }
  | find {server : Server} (before : OnlyExchangesBind server) (recipientId : Bytes) :
    OnlyExchangesBind { server with
      channel := { server.channel with contexts := (server.channel.contexts.find recipientId).2 } }

/-- A server on which only exchanges bind senders is in step. -/
theorem OnlyExchangesBind.isInStep {server : Server} (h : server.OnlyExchangesBind) : server.IsInStep := by
  induction h with
  | start validator host nonces challenges =>
    refine ⟨rfl, Nat.zero_le _, nofun, List.nodup_nil, nofun, ?_⟩
    intro sender key bound
    simp at bound
  | environment before host ih => exact ⟨ih.unstored, ih.inStep⟩
  | post before standard message ih => exact Endpoint.isInStep_receive standard message ih
  | @add server before claims shared senderKey origin ih =>
    exact ih.of_bindsNoMore (server.repository.addToken_stays server.host claims shared senderKey origin).store rfl
      (server.repository.addToken_bindsNoMore server.host claims shared senderKey origin)
  | @withdraw server before added ih =>
    exact ih.of_bindsNoMore (server.repository.withdraw_stays server.host added).store rfl
      (server.repository.withdraw_bindsNoMore server.host added)
  | @other server before op apart ih =>
    exact ih.of_bindsNoMore (server.repository.carryOut_stays server.host op).store rfl
      ((server.repository.changes_carryOut server.host op).bindsNoMore apart)
  | @find server before recipientId ih =>
    exact ⟨ih.unstored, ih.inStep.perm (server.channel.contexts.entries_find_perm recipientId)⟩

/-- A server whose contexts and senders agree. -/
structure ChannelsAgree (server : Server) : Prop where
  few : server.channel.contexts.entries.length ≤ 16
  single : ∀ entry ∈ server.channel.contexts.entries, entry.context.recipientId.length = 1
  distinct : (server.channel.contexts.entries.map (·.context.recipientId)).Nodup
  apart : ∀ entry ∈ server.channel.contexts.entries, entry.context.recipientId ≠ entry.context.senderId
  bound : ∀ entry ∈ server.channel.contexts.entries,
    server.repository.keyOfSender? (senderOf entry.context.recipientId) = some entry.key ∨
      server.repository.keyOfSender? (senderOf entry.context.recipientId) = none
  stored : ∀ (sender : String) (key : KeyName), server.repository.keyOfSender? sender = some key →
    ∃ entry ∈ server.channel.contexts.entries, senderOf entry.context.recipientId = sender ∧ entry.key = key

/-- Where only exchanges bind senders, contexts and senders agree: a context has an identifier of its own, whose sender is bound to
the key of the context or to nothing, and every binding is that of a context. -/
theorem OnlyExchangesBind.channelsAgree {server : Server} (h : server.OnlyExchangesBind) : server.ChannelsAgree := by
  have inStep := h.isInStep.inStep
  have known : ∀ sender, server.repository.keyOfSender? sender = server.repository.state.senders[sender]? ∨
      server.repository.keyOfSender? sender = none := by
    intro sender
    unfold Repository.keyOfSender? Repository.visible
    split
    · exact Or.inl rfl
    · exact Or.inr (by simp)
  refine ⟨inStep.few, ?_, inStep.distinct, inStep.apart, ?_, ?_⟩
  · intro entry among
    obtain ⟨id, own⟩ := inStep.single entry among
    rw [own, List.length_singleton]
  · intro entry among
    rcases known (senderOf entry.context.recipientId) with same | none
    · rw [same]
      exact inStep.bound among
    · exact Or.inr none
  · intro sender key bound
    rcases known sender with same | none
    · exact inStep.stored sender key (same.symm.trans bound)
    · nomatch none.symm.trans bound

namespace Sample

/-- An endpoint whose issuer knows a token with OSCORE material. -/
def exchanger : Endpoint :=
  { Endpoint.Sample.endpoint with
    profile := .oscore
    introspection := some fun _ => .active
      (Endpoint.Sample.claims.set .cnf (.oscore { id := [0x61], ms := List.replicate 16 0x2a })) }

/-- A request for an exchange with a peer that receives under the first identifier. -/
def exchange : Message :=
  { payload := [0xa3, 0x01, 0x61, 0x78, 0x18, 0x28, 0x41, 0x05, 0x18, 0x2b, 0x41, 0x01] }

/-- A fresh server after the exchange. -/
def exchanged : Server :=
  (exchanger.receive exchange
    { host := {}, repository := { validator := ScopePolicy.validator {} }, channel := Endpoint.Sample.channel }).2

theorem onlyExchangesBind_exchanged : exchanged.OnlyExchangesBind := .post (.start _ {} _ _) .oscore exchange

end Sample

/-- After an exchange, there is a context whose sender is bound to the key of the token. -/
theorem channelsAgree_of_exchange :
    Sample.exchanged.channel.contexts.entries.map (·.context.recipientId) = [[2]] ∧
      Sample.exchanged.repository.keyOfSender? (senderOf [2]) = some ⟨"a"⟩ ∧ Sample.exchanged.ChannelsAgree :=
  ⟨by decide +kernel, by decide +kernel, Sample.onlyExchangesBind_exchanged.channelsAgree⟩

end Server

end TokenGate
