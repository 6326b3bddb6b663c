import TokenGate.Proofs.Repository.InPlace
import TokenGate.Proofs.Repository.Undoing

/-!
# Failed operations

An operation ends in one of a few ways: it is refused, or the new state cannot be saved, or nothing is to be done, or a new state was
saved. None of them leaves anything half done, also when the operation changes the state in place and has to put back what it has
changed. Whatever made it fail, the repository and its store file are as they were, with tokens that have ended and are yet to be
swept; and what changed in memory is in the file.
-/

namespace TokenGate

/-- A store file that is given free is read as before. -/
theorem Host.readFile_release (host : Host) (store : Option DiskPath) (path : DiskPath) :
    (host.release store).readFile path = host.readFile path := by
  cases store <;> rfl

namespace Repository

/-! ## Saving -/

/-- A state that could not be saved leaves the store file as it was. -/
theorem readFile_of_save_error {r : Repository} {path : DiskPath} (store : r.store = some path) {state : RepositoryState}
    {host host' : Host} {e : RepositoryError} (failed : r.save state host = (.error e, host')) :
    host'.readFile path = host.readFile path := by
  unfold save at failed
  simp only [store] at failed
  cases encoded : StoreDocument.ofState state with
  | error failure =>
    rw [encoded] at failed
    cases failed
    rfl
  | ok document =>
    simp only [encoded] at failed
    cases replaced : host.replaceFile path document.encode with
    | mk success after =>
      rw [replaced] at failed
      cases success with
      | true => nomatch failed
      | false =>
        cases failed
        have kept := Host.readFile_of_not_replaceFile (congrArg Prod.fst replaced)
        rw [replaced] at kept
        exact kept

/-- A state that was saved is what the store file says. -/
theorem readFile_of_save {r : Repository} {path : DiskPath} (store : r.store = some path) {state : RepositoryState}
    {host host' : Host} (saved : r.save state host = (.ok (), host')) :
    ∃ document, StoreDocument.ofState state = .ok document ∧ host'.readFile path = .ok document.encode := by
  unfold save at saved
  simp only [store] at saved
  cases encoded : StoreDocument.ofState state with
  | error failure =>
    rw [encoded] at saved
    nomatch saved
  | ok document =>
    simp only [encoded] at saved
    cases replaced : host.replaceFile path document.encode with
    | mk success after =>
      rw [replaced] at saved
      cases success with
      | false => nomatch saved
      | true =>
        cases saved
        have content := Host.readFile_of_replaceFile (congrArg Prod.fst replaced)
        rw [replaced] at content
        exact ⟨document, rfl, content⟩

/-! ## How an operation ends -/

/-- The ways in which an operation on a repository ends. -/
inductive Ended {α : Type} (r : Repository) (host : Host) : Effect α → Prop
  | refused (e : RepositoryError) : Ended r host ⟨.error e, r, host⟩
  | unsaved {state : RepositoryState} {e : RepositoryError} {host' : Host} (failed : r.save state host = (.error e, host')) :
    Ended r host ⟨.error e, r, host'⟩
  | unchanged (value : α) : Ended r host ⟨.ok value, r, host⟩
  | changed (value : α) {state : RepositoryState} {host' : Host} (saved : r.save state host = (.ok (), host')) :
    Ended r host ⟨.ok value, { r with state }, host'⟩
  | closed (value : α) {host' : Host} (saved : r.save r.state host = (.ok (), host')) :
    Ended r host ⟨.ok value, { r with isOpen := false }, host'.release r.store⟩

/-- A change of state ends in one of these ways. -/
theorem ended_perform {α : Type} (r : Repository) (host : Host) (change : RepositoryState → Except Rejection (Outcome α)) :
    Ended r host (r.perform host change) := by
  unfold perform
  split
  · cases change r.state with
    | error rejection => exact .refused (.rejected rejection)
    | ok outcome =>
      simp only [commit]
      cases outcome.next with
      | none => exact .unchanged outcome.value
      | some state =>
        simp only
        cases saved : r.save state host with
        | mk result host' =>
          cases result with
          | ok _ => exact .changed outcome.value saved
          | error e => exact .unsaved saved
  · exact .refused .closed

/-- The operations that change a repository, each with what it answers. -/
inductive Mutation : Type → Type
  | add (claims : Claims) (shared : SharedKey) (senderKey : Option KeyName) (origin : TokenOrigin) : Mutation AddedToken
  | withdraw (added : AddedToken) : Mutation Unit
  | remove (id : TokenId) : Mutation Bool
  | purge (now : UInt64) : Mutation (List TokenId)
  | provision (key : PopKey) : Mutation KeyName
  | bind (sender : String) (key : KeyName) : Mutation Unit
  | unbind (sender : String) : Mutation Unit
  | challenge (key : KeyName) (challenge : Bytes) : Mutation Unit
  | close : Mutation Unit

/-- What an operation leaves behind. -/
def Mutation.run (r : Repository) (host : Host) : {α : Type} → Mutation α → Effect α
  | _, .add claims shared senderKey origin => r.addToken host claims shared senderKey origin
  | _, .withdraw added => r.withdraw host added
  | _, .remove id => r.removeToken host id
  | _, .purge now => r.purge host now
  | _, .provision key => r.provisionKey host key
  | _, .bind sender key => r.bindSender host sender key
  | _, .unbind sender => r.unbindSender host sender
  | _, .challenge key given => r.setChallenge host key given
  | _, .close => r.close host

/-- The operation in steps that change the repository in place. -/
def Mutation.inPlace : {α : Type} → Mutation α → InPlace α
  | _, .add claims shared senderKey origin => .addToken claims shared senderKey origin
  | _, .withdraw added => .withdraw added
  | _, .remove id => .removeToken id
  | _, .purge now => .purge now
  | _, .provision key => .provisionKey key
  | _, .bind sender key => .bindSender sender key
  | _, .unbind sender => .unbindSender sender
  | _, .challenge key given => .setChallenge key given
  | _, .close => .close

/-- In steps an operation leaves the same behind. -/
theorem Mutation.effect_inPlace {α : Type} (m : Mutation α) (r : Repository) (host : Host) :
    m.inPlace.effect r host = m.run r host := by
  cases m with
  | add claims shared senderKey origin => exact InPlace.effect_addToken claims shared senderKey origin
  | withdraw added => exact InPlace.effect_withdraw added
  | remove id => exact InPlace.effect_removeToken id
  | purge now => exact InPlace.effect_purge now
  | provision key => exact InPlace.effect_provisionKey key
  | bind sender key => exact InPlace.effect_bindSender sender key
  | unbind sender => exact InPlace.effect_unbindSender sender
  | challenge key given => exact InPlace.effect_setChallenge key given
  | close => exact InPlace.effect_close

/-- Every operation ends in one of these ways. -/
theorem Mutation.ended (r : Repository) (host : Host) {α : Type} (m : Mutation α) : Ended r host (m.run r host) := by
  cases m with
  | add claims shared senderKey origin =>
    change Ended r host (r.addToken host claims shared senderKey origin)
    unfold addToken
    cases Submission.ofClaims claims shared origin with
    | error e => exact .refused e
    | ok t => exact ended_perform r host _
  | withdraw added =>
    change Ended r host (r.withdraw host added)
    unfold Repository.withdraw
    split
    · exact .unchanged ()
    · exact ended_perform r host _
  | provision key =>
    change Ended r host (r.provisionKey host key)
    unfold provisionKey
    cases key.name with
    | error rejection => exact .refused (.rejected rejection)
    | ok name => exact ended_perform r host _
  | close =>
    change Ended r host (r.close host)
    unfold Repository.close
    split
    · cases saved : r.save r.state host with
      | mk result host' =>
        cases result with
        | ok _ => exact .closed () saved
        | error e => exact .unsaved saved
    · exact .refused .closed
  | remove id => exact (ended_perform r host _ : Ended r host (r.removeToken host id))
  | purge now => exact (ended_perform r host _ : Ended r host (r.purge host now))
  | bind sender key => exact (ended_perform r host _ : Ended r host (r.bindSender host sender key))
  | unbind sender => exact (ended_perform r host _ : Ended r host (r.unbindSender host sender))
  | challenge key challenge => exact (ended_perform r host _ : Ended r host (r.setChallenge host key challenge))

/-- Where an operation failed, the repository and its store file are as they were; where it changed the repository, the file says
what was made of it. -/
theorem Ended.keeps {α : Type} {r : Repository} {host : Host} {effect : Effect α} (ended : Ended r host effect) :
    (∀ e, effect.result = .error e → effect.repository = r ∧
      ∀ path, r.store = some path → effect.host.readFile path = host.readFile path) ∧
    ∀ value, effect.result = .ok value → effect.repository ≠ r → ∀ path, r.store = some path →
      ∃ document, StoreDocument.ofState effect.repository.state = .ok document ∧
        effect.host.readFile path = .ok document.encode := by
  cases ended with
  | refused e => exact ⟨fun _ _ => ⟨rfl, fun _ _ => rfl⟩, nofun⟩
  | unsaved failed => exact ⟨fun _ _ => ⟨rfl, fun _ store => readFile_of_save_error store failed⟩, nofun⟩
  | unchanged value => exact ⟨nofun, fun _ _ apart => absurd rfl apart⟩
  | changed value saved => exact ⟨nofun, fun _ _ _ path store => readFile_of_save store saved⟩
  | closed value saved =>
    refine ⟨nofun, fun _ _ _ path store => ?_⟩
    rw [Host.readFile_release]
    exact readFile_of_save store saved

/-- An operation that fails leaves the repository and its store file as they were, and one that succeeds leaves in the file what it
made of the repository. This is also what it leaves behind in steps that change the repository in place and put back what they have
changed: on every way out on which the change does not count, all of it is put back. -/
theorem Mutation.leaves_no_trace {α : Type} (m : Mutation α) (r : Repository) (host : Host) :
    (∀ e, (m.run r host).result = .error e → (m.run r host).repository = r ∧
      ∀ path, r.store = some path → (m.run r host).host.readFile path = host.readFile path) ∧
    (∀ value, (m.run r host).result = .ok value → (m.run r host).repository ≠ r → ∀ path, r.store = some path →
      ∃ document, StoreDocument.ofState (m.run r host).repository.state = .ok document ∧
        (m.run r host).host.readFile path = .ok document.encode) ∧
    m.inPlace.effect r host = m.run r host := by
  have ended := m.ended r host
  exact ⟨ended.keeps.1, ended.keeps.2, m.effect_inPlace r host⟩

namespace Sample

/-- A repository whose store file is to be in a directory that is missing. -/
def astray : Repository := { eventful with store := some ⟨"missing/store.json"⟩ }

end Sample

/-- The sweep cannot be saved, and the token that has ended is still there. -/
theorem leaves_no_trace_of_astray :
    ((Mutation.purge 5).run Sample.astray {}).result = .error .storage ∧
      ((Mutation.purge 5).run Sample.astray {}).repository = Sample.astray ∧
      Sample.astray.state.expired 5 = [⟨[1]⟩] := by
  have failed : ((Mutation.purge 5).run Sample.astray {}).result = .error .storage := by
    have answered : (match ((Mutation.purge 5).run Sample.astray {}).result with
      | .ok _ => none
      | .error e => some e) = some RepositoryError.storage := by decide +kernel
    split at answered
    · nomatch answered
    · rename_i e failed
      rw [failed, Option.some.inj answered]
  exact ⟨failed, ((Mutation.leaves_no_trace (.purge 5) Sample.astray {}).1 _ failed).1, by decide +kernel⟩

end Repository

end TokenGate
