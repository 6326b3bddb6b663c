import TokenGate.Admission.Server
import TokenGate.Proofs.Repository.Saving

/-!
# Actions

How the actions of an admission run, one statement for each way to put them together. What a profile does to the repository is a
matter of its channels and challenges only: `Repository.Binds` says so for an operation, and `Action.Binds` for an action as a
whole, which has it from its parts.
-/

namespace TokenGate

namespace Action

variable {ε ε' α β : Type}

/-! ## Running actions -/

theorem run_get (server : Server) : (get : Action ε Server).run server = (.ok server, server) := rfl

theorem run_ofExcept (result : Except ε α) (server : Server) : (ofExcept result).run server = (result, server) := rfl

/-- An action with its failures renamed does the same otherwise. -/
theorem run_adapt (f : ε → ε') (x : Action ε α) (server : Server) :
    (ExceptT.adapt f x : Action ε' α).run server = ((x.run server).1.mapError f, (x.run server).2) := rfl

/-- After an action that succeeds comes the next one; after one that fails, nothing. -/
theorem run_bind (x : Action ε α) (f : α → Action ε β) (server : Server) :
    (x >>= f).run server =
      match x.run server with
      | (.ok a, server') => (f a).run server'
      | (.error e, server') => (.error e, server') := by
  have same : (x >>= f).run server =
      (fun p : Except ε α × Server => (ExceptT.bindCont (m := StateM Server) f p.1) p.2) (x.run server) := rfl
  rw [same]
  rcases x.run server with ⟨_ | _, server'⟩ <;> rfl

theorem run_bind_of_ok {x : Action ε α} {f : α → Action ε β} {server server' : Server} {a : α}
    (h : x.run server = (.ok a, server')) : (x >>= f).run server = (f a).run server' := by
  rw [run_bind, h]

theorem run_bind_of_error {x : Action ε α} {f : α → Action ε β} {server server' : Server} {e : ε}
    (h : x.run server = (.error e, server')) : (x >>= f).run server = (.error e, server') := by
  rw [run_bind, h]

/-- A failure is handled where the action left the server. -/
theorem run_tryCatch (x : Action ε α) (handle : ε → Action ε α) (server : Server) :
    (tryCatch x handle).run server =
      match x.run server with
      | (.ok a, server') => (.ok a, server')
      | (.error e, server') => (handle e).run server' := by
  simp only [tryCatch, tryCatchThe, MonadExceptOf.tryCatch, ExceptT.tryCatch, ExceptT.run, ExceptT.mk, bind, StateT.bind]
  rcases x server with ⟨_ | _, server'⟩ <;> rfl

/-- An action that is an operation on the repository leaves behind what the operation does. -/
theorem run_committing (operation : Repository → Host → Repository.Effect α) (server : Server) :
    (committing operation).run server =
      ((operation server.repository server.host).result.mapError Failure.ofRepository,
        { server with
          repository := (operation server.repository server.host).repository
          host := (operation server.repository server.host).host }) := rfl

end Action

namespace Repository

/-- A repository in which at most channels and challenges changed. -/
structure Binds (before after : Repository × Host) : Prop where
  tokens : after.1.state.tokens = before.1.state.tokens
  byKey : after.1.state.byKey = before.1.state.byKey
  keys : after.1.state.keys = before.1.state.keys
  isOpen : after.1.isOpen = before.1.isOpen
  stays : Stays before after

theorem Binds.refl (before : Repository × Host) : Binds before before :=
  ⟨rfl, rfl, rfl, rfl, Stays.refl before⟩

theorem Binds.trans {first second third : Repository × Host} (h : Binds first second) (h' : Binds second third) :
    Binds first third :=
  ⟨h'.tokens.trans h.tokens, h'.byKey.trans h.byKey, h'.keys.trans h.keys, h'.isOpen.trans h.isOpen, h.stays.trans h'.stays⟩

/-- An operation that changes only channels and challenges. -/
theorem perform_binds {α : Type} {r : Repository} {host : Host} {change : RepositoryState → Except Rejection (Outcome α)}
    (h : ∀ outcome next, change r.state = .ok outcome → outcome.next = some next →
      next.tokens = r.state.tokens ∧ next.byKey = r.state.byKey ∧ next.keys = r.state.keys) :
    Binds (r, host) (r.perform host change).after := by
  have stays := perform_stays r host change
  cases result : (r.perform host change).result with
  | error e =>
    have same : (r.perform host change).after.1 = r := perform_error result
    exact ⟨by rw [same], by rw [same], by rw [same], by rw [same], stays⟩
  | ok value =>
    obtain ⟨_, outcome, changed, _, counted⟩ := perform_ok result
    have same : (r.perform host change).after.1 = { r with state := outcome.next.getD r.state } := counted
    cases next : outcome.next with
    | none =>
      rw [next] at same
      exact ⟨by rw [same]; rfl, by rw [same]; rfl, by rw [same]; rfl, by rw [same], stays⟩
    | some state =>
      rw [next] at same
      obtain ⟨tokens, byKey, keys⟩ := h outcome state changed next
      exact ⟨by rw [same]; exact tokens, by rw [same]; exact byKey, by rw [same]; exact keys, by rw [same], stays⟩

/-- Recording the key of a sender changes nothing but channels and challenges. -/
theorem bindSender_binds (r : Repository) (host : Host) (sender : String) (key : KeyName) :
    Binds (r, host) (r.bindSender host sender key).after := by
  apply perform_binds
  intro outcome next changed counted
  cases changed
  cases counted
  exact ⟨rfl, rfl, rfl⟩

theorem unbindSender_binds (r : Repository) (host : Host) (sender : String) :
    Binds (r, host) (r.unbindSender host sender).after := by
  apply perform_binds
  intro outcome next changed counted
  split at changed
  · cases changed
    cases counted
    exact ⟨rfl, rfl, rfl⟩
  · cases changed
    nomatch counted

theorem setChallenge_binds (r : Repository) (host : Host) (key : KeyName) (challenge : Bytes) :
    Binds (r, host) (r.setChallenge host key challenge).after := by
  apply perform_binds
  intro outcome next changed counted
  cases changed
  cases counted
  exact ⟨rfl, rfl, rfl⟩

end Repository

namespace Server

/-- A server that is open for changes, and saves them. -/
structure Works (server : Server) : Prop where
  isOpen : server.repository.isOpen = true
  saves : server.repository.Saves server.host
  stored : server.repository.IsStored

/-- A server in whose repository at most channels and challenges changed. -/
def Binds (before after : Server) : Prop :=
  Repository.Binds (before.repository, before.host) (after.repository, after.host)

theorem Binds.refl (server : Server) : server.Binds server := Repository.Binds.refl _

theorem Binds.trans {first second third : Server} (h : first.Binds second) (h' : second.Binds third) : first.Binds third :=
  Repository.Binds.trans h h'

/-- A server that works keeps working when only channels and challenges change. -/
theorem Binds.works {before after : Server} (h : before.Binds after) (works : before.Works) : after.Works :=
  ⟨h.isOpen.trans works.isOpen, h.stays.saves works.saves, h.stays.stored works.stored⟩

/-- Where only channels and challenges change, a sound state stays sound. -/
theorem Binds.isSound {before after : Server} (h : before.Binds after) (sound : before.repository.state.IsSound) :
    after.repository.state.IsSound :=
  sound.congr h.tokens h.byKey fun key known => by
    rw [h.keys]
    exact known

end Server

/-! ## Actions that only bind -/

namespace Action

variable {ε α β : Type}

/-- An action that leaves the tokens and the keys of every server as they are. -/
def Binds (x : Action ε α) : Prop :=
  ∀ server : Server, server.Binds (x.run server).2

theorem Binds.pure (a : α) : Binds (Pure.pure a : Action ε α) :=
  fun server => Server.Binds.refl server

theorem Binds.ofExcept (result : Except ε α) : Binds (Action.ofExcept result) :=
  fun server => Server.Binds.refl server

/-- What happens to the channel is nothing to the repository. -/
theorem Binds.of_channel {x : Action ε α}
    (h : ∀ server, ∃ result channel, x.run server = (result, { server with channel })) : Binds x := by
  intro server
  obtain ⟨result, channel, same⟩ := h server
  rw [same]
  exact Repository.Binds.refl _

/-- An operation that changes nothing but channels and challenges makes an action of that kind. -/
theorem Binds.committing {operation : Repository → Host → Repository.Effect α}
    (h : ∀ r host, Repository.Binds (r, host) (operation r host).after) : Binds (Action.committing operation) :=
  fun server => h server.repository server.host

theorem Binds.bind {x : Action ε α} {f : α → Action ε β} (h : Binds x) (rest : ∀ a, Binds (f a)) : Binds (x >>= f) := by
  intro server
  have first := h server
  rw [run_bind]
  rcases result : x.run server with ⟨_ | a, server'⟩
  · rw [result] at first
    exact first
  · rw [result] at first
    exact first.trans (rest a server')

theorem Binds.tryCatch {x : Action ε α} {handle : ε → Action ε α} (h : Binds x) (rest : ∀ e, Binds (handle e)) :
    Binds (tryCatch x handle) := by
  intro server
  have first := h server
  rw [run_tryCatch]
  rcases result : x.run server with ⟨e | _, server'⟩
  · rw [result] at first
    exact first.trans (rest e server')
  · rw [result] at first
    exact first

end Action

/-! ## Operations on a server that works -/

namespace Server

/-- A server that works sets a challenge. -/
theorem Works.setChallenge {server : Server} (h : server.Works) (key : KeyName) (challenge : Bytes) :
    (server.repository.setChallenge server.host key challenge).result = .ok () :=
  (Repository.perform_eq_ok h.isOpen h.saves rfl fun _ next stored => by
    cases next
    exact (h.stored stored).mono (fun _ _ found => found) fun _ _ found => found).1

/-- A server that works binds a sender. -/
theorem Works.bindSender {server : Server} (h : server.Works) (sender : String) (key : KeyName) :
    (server.repository.bindSender server.host sender key).result = .ok () :=
  (Repository.perform_eq_ok h.isOpen h.saves rfl fun _ next stored => by
    cases next
    exact (h.stored stored).mono (fun _ _ found => found) fun _ _ found => found).1

end Server

end TokenGate
