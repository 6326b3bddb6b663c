import TokenGate.Proofs.Repository.Documents
import TokenGate.Proofs.Repository.Failures

/-!
# Reopening

An operation whose write succeeds leaves the same in the store file as in memory, so that a repository that is created on the file
again is the one that was closed or dropped. `Recorded` are the runs from a new file in which every write succeeds, all claims and
keys were decoded, and a token is only withdrawn right after it was added.
-/

namespace TokenGate

/-! ## States that are read back -/

namespace RepositoryState

/-- A state with less in it is read back too. -/
theorem IsReadBack.mono {s s' : RepositoryState} (h : s.IsReadBack)
    (tokens : ∀ (id : TokenId) (record : TokenRecord), s'.tokens[id]? = some record → s.tokens[id]? = some record)
    (keys : ∀ (name : KeyName) (bound : BoundKey), s'.keys[name]? = some bound → s.keys[name]? = some bound) :
    s'.IsReadBack :=
  ⟨fun id record found => h.tokens id record (tokens id record found),
    fun name bound found => h.keys name bound (keys name bound found)⟩

/-- A state without anything is read back. -/
theorem IsReadBack.empty : IsReadBack {} where
  tokens id record found := by simp at found
  keys name bound found := by simp at found

/-- A state that is read back is so after a sweep. -/
theorem IsReadBack.sweep {s : RepositoryState} (h : s.IsReadBack) (sound : s.IsSound) (now : UInt64) :
    (s.sweep now).IsReadBack :=
  h.mono (fun id record found => ((RepositoryState.tokens_sweep _ now id record).mp found).1)
    fun name bound found => (((sound.isWithout_sweep now).keys name bound).mp found).1

/-- A state is read back with a token if its claims are, and the key that it brings along. -/
theorem IsReadBack.withToken {s : RepositoryState} (h : s.IsReadBack) {t : Submission} (claims : t.claims.IsReadBack)
    (carried : ∀ key, t.carried = some key → key.IsReadBack) (isUpdate : Bool) : (s.withToken t isUpdate).IsReadBack where
  tokens := by
    intro id record found
    rcases eq_record_of_tokens_withToken found with rfl | early
    · exact claims
    · exact h.tokens id record early
  keys := by
    intro name bound found
    rcases carried_of_keys_withToken found with brought | early
    · exact carried bound.key brought
    · exact h.keys name bound early

/-- A state is read back once an addition to it was undone. -/
theorem IsReadBack.undo_withToken {s : RepositoryState} (h : s.IsReadBack) (sound : s.IsSound) {t : Submission} {isUpdate : Bool}
    (admits : s.Admits t isUpdate) (after : (s.withToken t isUpdate).IsReadBack) :
    (((s.withToken t isUpdate).undo t.id t.key (s.displacedBy t isUpdate)).dropIfOrphaned t.key).IsReadBack where
  tokens := by
    intro id record found
    rw [tokens_dropIfOrphaned, sound.tokens_undo_withToken admits] at found
    exact h.tokens id record found
  keys := by
    intro name bound found
    rw [keys_dropIfOrphaned, Option.ite_none_left_eq_some] at found
    rcases keys_of_undo_withToken found.2 with early | late
    · exact h.keys name bound early
    · exact after.keys name bound late

end RepositoryState

namespace Submission

/-- The claims of a submission are read back if those that it was made of were decoded. -/
theorem IsFrom.isReadBack_claims {t : Submission} {claims : Claims} {shared : SharedKey} {origin : TokenOrigin}
    (made : t.IsFrom claims shared origin) (decoded : claims.IsDecoded) : t.claims.IsReadBack := by
  rw [made.claims]
  apply decoded.isReadBack_set
  have identified := made.id
  unfold idOf at identified
  cases present : claims.cti with
  | some bytes =>
    rw [present] at identified
    have own : TokenId.mk bytes = t.id := congrArg Prod.fst (Except.ok.inj identified)
    rw [← own]
    exact decoded.length_cti present
  | none =>
    rw [present] at identified
    cases encoded : claims.encode with
    | error e =>
      rw [encoded] at identified
      nomatch identified
    | ok bs =>
      rw [encoded] at identified
      have derived : TokenId.derive bs = t.id := congrArg Prod.fst (Except.ok.inj identified)
      rw [← derived]
      exact Nat.lt_of_le_of_lt (List.length_take_le TokenId.derivedLength _) (by decide)

/-- The key that a submission brings along is read back if the claims that it was made of were decoded, and their key, where it is
encrypted. -/
theorem IsFrom.isReadBack_carried {t : Submission} {claims : Claims} {shared : SharedKey} {origin : TokenOrigin}
    (made : t.IsFrom claims shared origin) (decoded : claims.IsDecoded)
    (opened : ∀ envelope key, claims.cnf = some (.encryptedKey envelope) → decryptKey envelope shared = .ok key → key.IsDecoded)
    {key : PopKey} (brought : t.carried = some key) : key.IsReadBack := by
  obtain ⟨cnf, confirmed, keyed⟩ := made.key
  rw [brought] at keyed
  cases cnf with
  | kid kid => nomatch congrArg Prod.snd (Except.ok.inj keyed)
  | key k =>
    cases carried_of_named keyed
    exact PopKey.isReadBack_of_cnf decoded confirmed
  | oscore material =>
    have named : named (.oscore material) = .ok (t.key, some key) := keyed
    cases carried_of_named named
    exact PopKey.isReadBack_of_cnf decoded confirmed
  | encryptedKey envelope =>
    change (decryptKey envelope shared >>= named) = .ok (t.key, some key) at keyed
    cases inside : decryptKey envelope shared with
    | error e =>
      rw [inside] at keyed
      nomatch keyed
    | ok k =>
      rw [inside] at keyed
      cases carried_of_named keyed
      exact (opened envelope key confirmed inside).isReadBack

end Submission

namespace Repository

/-- A state from which the token that was just added can be withdrawn, so that what is left is sound and read back. -/
def Releases (s : RepositoryState) (added : AddedToken) : Prop :=
  ∀ displaced, added.displaced = some displaced →
    ((s.undo added.id added.key displaced).dropIfOrphaned added.key).IsSound ∧
      ((s.undo added.id added.key displaced).dropIfOrphaned added.key).IsReadBack

/-- The addition of decoded claims leaves a state that is read back, and from which the token can be withdrawn. -/
theorem addToken_isReadBack {r : Repository} (sound : r.state.IsSound) (readBack : r.state.IsReadBack) {host : Host}
    {claims : Claims} {shared : SharedKey} {senderKey : Option KeyName} {origin : TokenOrigin} (decoded : claims.IsDecoded)
    (opened : ∀ envelope key, claims.cnf = some (.encryptedKey envelope) → Submission.decryptKey envelope shared = .ok key →
      key.IsDecoded) {added : AddedToken} (h : (r.addToken host claims shared senderKey origin).result = .ok added) :
    (r.addToken host claims shared senderKey origin).repository.state.IsReadBack ∧
      Releases (r.addToken host claims shared senderKey origin).repository.state added := by
  obtain ⟨_, t, outcome, resolved, adds, rfl, counted⟩ := addToken_ok h
  rw [counted]
  cases adds with
  | again known there => exact ⟨readBack, nofun⟩
  | anew isUpdate decided admits =>
    have made := Submission.isFrom_of_ofClaims resolved
    have swept := readBack.sweep sound host.clock
    have after := swept.withToken (made.isReadBack_claims decoded) (fun _ => made.isReadBack_carried decoded opened) isUpdate
    refine ⟨after, ?_⟩
    rintro displaced ⟨⟩
    have before := sound.sweep host.clock
    exact ⟨before.isSound_undo_withToken admits, swept.undo_withToken before admits after⟩

/-- The other operations leave a state that is read back, if a provisioned key is. -/
theorem Operation.Changes.isReadBack {op : Operation} {s s' : RepositoryState} (h : op.Changes s s') (sound : s.IsSound)
    (readBack : s.IsReadBack) (provisioned : ∀ key, op = .provision key → key.IsReadBack) : s'.IsReadBack where
  tokens id record found := readBack.tokens id record (h.tokens sound id record found)
  keys name bound found := by
    rcases h.keys sound name bound found with early | same
    · exact readBack.keys name bound early
    · exact provisioned bound.key same

/-! ## What is saved -/

/-- What comes to pass when no write fails: nothing, a change of state that was saved, or the closing of a repository whose state
was saved. -/
inductive Saved (r : Repository) (host : Host) : Repository × Host → Prop
  | nothing : Saved r host (r, host)
  | change {state : RepositoryState} {host' : Host} (saved : r.save state host = (.ok (), host')) :
    Saved r host ({ r with state }, host')
  | closed {host' : Host} (saved : r.save r.state host = (.ok (), host')) :
    Saved r host ({ r with isOpen := false }, host'.release r.store)

/-- However an operation ends, nothing is saved but what counts, unless a write fails. -/
theorem Ended.saved {α : Type} {r : Repository} {host : Host} {effect : Effect α} (h : Ended r host effect)
    (written : effect.result ≠ .error .storage) : Saved r host effect.after := by
  cases h with
  | refused e => exact .nothing
  | @unsaved state e host' failed =>
    rcases r.save_cases state host with ⟨_, saved⟩ | ⟨_, saved⟩ | ⟨_, _, saved⟩
    · nomatch failed.symm.trans saved
    · cases failed.symm.trans saved
      exact absurd rfl written
    · cases failed.symm.trans saved
      exact .nothing
  | unchanged value => exact .nothing
  | changed value saved => exact .change saved
  | closed value saved => exact .closed saved

/-- An addition leaves the state saved, unless the file could not be written. -/
theorem saved_addToken {r : Repository} {host : Host} {claims : Claims} {shared : SharedKey} {senderKey : Option KeyName}
    {origin : TokenOrigin} (written : (r.addToken host claims shared senderKey origin).result ≠ .error .storage) :
    Saved r host (r.addToken host claims shared senderKey origin).after :=
  (Mutation.ended r host (.add claims shared senderKey origin)).saved written

theorem saved_withdraw {r : Repository} {host : Host} {added : AddedToken}
    (written : (r.withdraw host added).result ≠ .error .storage) : Saved r host (r.withdraw host added).after :=
  (Mutation.ended r host (.withdraw added)).saved written

theorem saved_close {r : Repository} {host : Host} (written : (r.close host).result ≠ .error .storage) :
    Saved r host (r.close host).after :=
  (Mutation.ended r host .close).saved written

/-- No write of an operation fails. -/
def Writes (r : Repository) (host : Host) : Operation → Prop
  | .remove id => (r.removeToken host id).result ≠ .error .storage
  | .purge now => (r.purge host now).result ≠ .error .storage
  | .provision key => (r.provisionKey host key).result ≠ .error .storage
  | .bind sender key => (r.bindSender host sender key).result ≠ .error .storage
  | .unbind sender => (r.unbindSender host sender).result ≠ .error .storage
  | .challenge key challenge => (r.setChallenge host key challenge).result ≠ .error .storage
  | .close => (r.close host).result ≠ .error .storage

/-- Any other operation leaves the state saved, if no write of it fails. -/
theorem saved_carryOut {r : Repository} {host : Host} {op : Operation} (written : r.Writes host op) :
    Saved r host (r.carryOut host op) := by
  cases op with
  | remove id => exact (Mutation.ended r host (.remove id)).saved written
  | purge now => exact (Mutation.ended r host (.purge now)).saved written
  | provision key => exact (Mutation.ended r host (.provision key)).saved written
  | bind sender key => exact (Mutation.ended r host (.bind sender key)).saved written
  | unbind sender => exact (Mutation.ended r host (.unbind sender)).saved written
  | challenge key challenge => exact (Mutation.ended r host (.challenge key challenge)).saved written
  | close => exact saved_close written

/-! ## Memory and file -/

/-- Only the content of the store file decides what is loaded. -/
theorem load_congr {host host' : Host} {path : DiskPath} (same : host'.readFile path = host.readFile path) :
    load host' path = load host path := by
  unfold load
  rw [same]

/-- The store file is free once the repository is gone. -/
theorem isLive_discard {r : Repository} {path : DiskPath} {host : Host} (store : r.store = some path)
    (live : host.isLive path = r.isOpen) : (r.discard host).isLive path = false := by
  unfold discard
  split
  · simp [store, Host.release, Host.isLive]
  · rename_i closed
    rw [live, Bool.eq_false_iff]
    exact closed

/-- A file is as it was once the repository is gone. -/
theorem readFile_discard (r : Repository) (host : Host) (path : DiskPath) :
    (r.discard host).readFile path = host.readFile path := by
  unfold discard
  split
  · exact Host.readFile_release host r.store path
  · rfl

/-- A state that was saved is loaded, if it is sound and read back. -/
theorem load_of_save {r : Repository} {path : DiskPath} {state : RepositoryState} {host host' : Host} (store : r.store = some path)
    (sound : state.IsSound) (readBack : state.IsReadBack) (saved : r.save state host = (.ok (), host')) :
    load host' path = .ok state ∧ host'.live = host.live := by
  obtain ⟨document, kept, restored⟩ := readBack.exists_restore sound
  unfold save at saved
  simp only [store, kept] at saved
  have live := host.live_replaceFile path document.encode
  cases replaced : host.replaceFile path document.encode with
  | mk success after =>
    rw [replaced] at saved live
    cases success with
    | false => nomatch saved
    | true =>
      cases saved
      have content := Host.readFile_of_replaceFile (congrArg Prod.fst replaced)
      rw [replaced] at content
      refine ⟨?_, live⟩
      unfold load
      simp only [content, document.decode?_encode, restored]
      rfl

/-- A repository and its store file in step: the state of the repository is the one that is loaded, and the file is in use as long
as the repository is open. -/
structure IsInStep (path : DiskPath) (r : Repository) (host : Host) : Prop where
  store : r.store = some path
  sound : r.state.IsSound
  readBack : r.state.IsReadBack
  loads : load host path = .ok r.state
  live : host.isLive path = r.isOpen

/-- What comes to pass when no write fails leaves memory and file in step. -/
theorem IsInStep.of_saved {path : DiskPath} {r : Repository} {host : Host} (h : IsInStep path r host) {after : Repository × Host}
    (saved : Saved r host after) (sound : after.1.state.IsSound) (readBack : after.1.state.IsReadBack) :
    IsInStep path after.1 after.2 := by
  cases saved with
  | nothing => exact h
  | change saved =>
    obtain ⟨loads, live⟩ := load_of_save h.store sound readBack saved
    refine ⟨h.store, sound, readBack, loads, ?_⟩
    rw [Host.isLive, live]
    exact h.live
  | closed saved =>
    obtain ⟨loads, live⟩ := load_of_save h.store sound readBack saved
    refine ⟨h.store, sound, readBack, ?_, ?_⟩
    · rw [h.store]
      exact loads
    · simp [h.store, Host.release, Host.isLive]

/-- Neither closing nor dropping a repository changes what is loaded. -/
theorem IsInStep.load_discard {path : DiskPath} {r : Repository} {host : Host} (h : IsInStep path r host) :
    load (r.discard host) path = .ok r.state :=
  (load_congr (r.readFile_discard host path)).trans h.loads

/-- A repository whose file is in step is created again as it was. -/
theorem IsInStep.create_discard {path : DiskPath} {r : Repository} {host : Host} (h : IsInStep path r host) (validator : Validator) :
    create validator (some path) (r.discard host) =
      .ok ({ r with validator, isOpen := true }, (r.discard host).claim path) := by
  simp only [create, isLive_discard h.store h.live, Bool.false_eq_true, if_false, h.load_discard, h.store, bind, Except.bind]

/-- It is then in step with its file again. -/
theorem IsInStep.created {path : DiskPath} {r : Repository} {host : Host} (h : IsInStep path r host) (validator : Validator) :
    IsInStep path { r with validator, isOpen := true } ((r.discard host).claim path) :=
  ⟨h.store, h.sound, h.readBack, h.load_discard, by simp [Host.claim, Host.isLive]⟩

/-- An open repository whose file is in step is closed unless a write fails. -/
theorem IsInStep.close_eq_ok {path : DiskPath} {r : Repository} {host : Host} (h : IsInStep path r host) (isOpen : r.isOpen = true)
    (written : (r.close host).result ≠ .error .storage) :
    (r.close host).result = .ok () ∧ (r.close host).repository = { r with isOpen := false } := by
  unfold close at written ⊢
  rw [if_pos isOpen] at written ⊢
  rcases r.save_cases r.state host with ⟨_, saved⟩ | ⟨_, saved⟩ | ⟨failure, unwritten, saved⟩
  · rw [saved]
    exact ⟨rfl, rfl⟩
  · rw [saved] at written
    exact absurd rfl written
  · obtain ⟨document, kept, _⟩ := h.readBack.exists_restore h.sound
    nomatch unwritten.symm.trans kept

/-! ## Runs -/

/-- A repository and its host after a run from a new store file in which every write succeeded and everything was decoded; and the
token that was just added, if the last operation added one. In between, the host may change in any way that leaves the file and its
use alone, and the repository may be created again once it is closed or dropped. -/
inductive Recorded (path : DiskPath) : Repository → Host → Option AddedToken → Prop
  | start {validator : Validator} {host : Host} {created : Repository × Host} (new : host.readFile path = .error .missing)
    (opened : create validator (some path) host = .ok created) : Recorded path created.1 created.2 none
  | add {r : Repository} {host : Host} {last : Option AddedToken} (before : Recorded path r host last) {claims : Claims}
    {shared : SharedKey} {senderKey : Option KeyName} {origin : TokenOrigin} (decoded : claims.IsDecoded)
    (opened : ∀ envelope key, claims.cnf = some (.encryptedKey envelope) → Submission.decryptKey envelope shared = .ok key →
      key.IsDecoded)
    (written : (r.addToken host claims shared senderKey origin).result ≠ .error .storage) :
    Recorded path (r.addToken host claims shared senderKey origin).repository
      (r.addToken host claims shared senderKey origin).host (r.addToken host claims shared senderKey origin).result.toOption
  | withdraw {r : Repository} {host : Host} {added : AddedToken} (before : Recorded path r host (some added))
    (written : (r.withdraw host added).result ≠ .error .storage) :
    Recorded path (r.withdraw host added).repository (r.withdraw host added).host none
  | other {r : Repository} {host : Host} {last : Option AddedToken} (before : Recorded path r host last) {op : Operation}
    (provisioned : ∀ key, op = .provision key → key.IsDecoded ∨ key.IsSymmetric) (written : r.Writes host op) :
    Recorded path (r.carryOut host op).1 (r.carryOut host op).2 none
  | meanwhile {r : Repository} {host host' : Host} {last : Option AddedToken} (before : Recorded path r host last)
    (file : host'.readFile path = host.readFile path) (use : host'.isLive path = host.isLive path) : Recorded path r host' last
  | reopen {r : Repository} {host : Host} {last : Option AddedToken} (before : Recorded path r host last) {validator : Validator}
    {created : Repository × Host} (opened : create validator (some path) (r.discard host) = .ok created) :
    Recorded path created.1 created.2 none

/-- A withdrawal of a token that the state releases leaves a state that is sound and read back. -/
theorem Releases.withdraw {r : Repository} {added : AddedToken} (releases : Releases r.state added) (sound : r.state.IsSound)
    (readBack : r.state.IsReadBack) (host : Host) :
    (r.withdraw host added).repository.state.IsSound ∧ (r.withdraw host added).repository.state.IsReadBack :=
  @withdraw_keeps _ _ _ (fun state => state.IsSound ∧ state.IsReadBack) ⟨sound, readBack⟩ releases

/-- Memory and file are in step after every such run, and the token that was just added can be withdrawn. -/
theorem Recorded.isInStep {path : DiskPath} {r : Repository} {host : Host} {last : Option AddedToken}
    (run : Recorded path r host last) : IsInStep path r host ∧ ∀ added, last = some added → Releases r.state added := by
  induction run with
  | @start validator host created new opened =>
    have loads : load host path = .ok {} := by
      unfold load
      rw [new]
    unfold create at opened
    simp only [loads, bind, Except.bind] at opened
    split at opened
    · nomatch opened
    · cases opened
      refine ⟨⟨rfl, .empty, .empty, loads, ?_⟩, nofun⟩
      simp [Host.claim, Host.isLive]
  | @add r host last before claims shared senderKey origin decoded opened written ih =>
    obtain ⟨step, _⟩ := ih
    cases result : (r.addToken host claims shared senderKey origin).result with
    | error e =>
      have same : (r.addToken host claims shared senderKey origin).after.1 = r := addToken_error result
      exact ⟨step.of_saved (saved_addToken written) (by rw [same]; exact step.sound) (by rw [same]; exact step.readBack), nofun⟩
    | ok added =>
      obtain ⟨sound, _⟩ := addToken_isSound step.sound result
      obtain ⟨readBack, releases⟩ := addToken_isReadBack step.sound step.readBack decoded opened result
      refine ⟨step.of_saved (saved_addToken written) sound readBack, ?_⟩
      rintro other ⟨⟩
      exact releases
  | @withdraw r host added before written ih =>
    obtain ⟨step, releases⟩ := ih
    obtain ⟨sound, readBack⟩ := (releases added rfl).withdraw step.sound step.readBack host
    exact ⟨step.of_saved (saved_withdraw written) sound readBack, nofun⟩
  | @other r host last before op provisioned written ih =>
    obtain ⟨step, _⟩ := ih
    have changes := r.changes_carryOut host op
    have keys : ∀ key, op = .provision key → key.IsReadBack := by
      intro key same
      rcases provisioned key same with decoded | symmetric
      · exact decoded.isReadBack
      · exact symmetric.isReadBack
    have readBack := changes.isReadBack step.sound step.readBack keys
    exact ⟨step.of_saved (saved_carryOut written) (changes.isSound step.sound) readBack, nofun⟩
  | meanwhile before file use ih =>
    obtain ⟨step, releases⟩ := ih
    exact ⟨⟨step.store, step.sound, step.readBack, (load_congr file).trans step.loads, use.trans step.live⟩, releases⟩
  | @reopen r host last before validator created opened ih =>
    obtain ⟨step, _⟩ := ih
    cases opened.symm.trans (step.create_discard validator)
    exact ⟨step.created validator, nofun⟩

/-- Reopening is invisible: on the store file of a repository that was closed or dropped, the repository is created again as it was,
with all its tokens, the files of their keys, the keys, the channels and the challenges. -/
theorem Recorded.create_eq {path : DiskPath} {r : Repository} {host : Host} {last : Option AddedToken}
    (run : Recorded path r host last) :
    (∀ validator, create validator (some path) (r.discard host) =
      .ok ({ r with validator, isOpen := true }, (r.discard host).claim path)) ∧
    (r.isOpen = true →
      -- With the same decisions of the application, it is the very same repository.
      create r.validator (some path) (r.discard host) = .ok (r, (r.discard host).claim path) ∧
      ((r.close host).result ≠ .error .storage → (r.close host).result = .ok () ∧
        create r.validator (some path) (r.close host).host = .ok (r, (r.close host).host.claim path))) := by
  obtain ⟨step, _⟩ := run.isInStep
  refine ⟨step.create_discard, ?_⟩
  intro isOpen
  have same : ({ r with isOpen := true } : Repository) = r := by rw [← isOpen]
  have dropped := step.create_discard r.validator
  rw [same] at dropped
  refine ⟨dropped, ?_⟩
  intro written
  obtain ⟨ok, left⟩ := step.close_eq_ok isOpen written
  have closed : IsInStep path { r with isOpen := false } (r.close host).host := by
    rw [← left]
    refine step.of_saved (saved_close written) ?_ ?_
    · exact (r.state_close host).symm ▸ step.sound
    · exact (r.state_close host).symm ▸ step.readBack
  have again := closed.create_discard r.validator
  simp only [same] at again
  exact ⟨ok, again⟩

namespace Sample

def storeFile : DiskPath := ⟨"/tokens"⟩

/-- The bytes of a token that brings a symmetric key along, with the identifier `k`. -/
def postedBytes : Bytes :=
  [0xa3, 0x07, 0x41, 0x01, 0x08, 0xa1, 0x01, 0xa3, 0x01, 0x04, 0x02, 0x41, 0x6b, 0x20, 0x41, 0x00, 0x09, 0x66, 0x72, 0x5f, 0x74,
    0x65, 0x6d, 0x70]

def postedValue : Cbor.Value := (Cbor.decode? postedBytes).get (by decide +kernel)

def posted : Claims := (Claims.ofValue postedValue).toOption.get (by decide +kernel)

theorem isDecoded_posted : posted.IsDecoded :=
  ⟨postedValue, ⟨⟨postedBytes, by decide, (Option.some_get _).symm⟩, by decide +kernel, by decide +kernel⟩,
    eq_ok_of_toOption (Option.some_get _).symm⟩

/-- A repository on a new file, which then gets to know the key `a` and a token of the key `k` by a reference. -/
def opened : Repository × Host :=
  (create (ScopePolicy.validator {}) (some storeFile) {}).toOption.get (by decide +kernel)

def agreed : Repository × Host := opened.1.carryOut opened.2 (.provision (popKey 0x61))

def referred : Effect AddedToken := agreed.1.addToken agreed.2 posted shared none (.reference "token")

/-- The host after the repository was dropped, and after it was closed. -/
def dropped : Host := referred.repository.discard referred.host

def closed : Effect Unit := referred.repository.close referred.host

theorem recorded_referred : Recorded storeFile referred.repository referred.host referred.result.toOption := by
  have start : Recorded storeFile opened.1 opened.2 none :=
    .start (by decide +kernel) (eq_ok_of_toOption (Option.some_get _).symm)
  have provisioned : Recorded storeFile agreed.1 agreed.2 none := by
    refine .other start ?_ ?_
    · rintro key ⟨⟩
      exact Or.inr ⟨[0x61], _, by decide, by decide, rfl⟩
    · change (opened.1.provisionKey opened.2 (popKey 0x61)).result ≠ .error .storage
      exact ne_error_of_toOption (by decide +kernel)
  refine .add provisioned isDecoded_posted ?_ (ne_error_of_toOption (by decide +kernel))
  intro envelope key encrypted
  have brought : posted.cnf.any (fun cnf => cnf.method = .coseKey) = true := by decide +kernel
  rw [encrypted] at brought
  nomatch brought

end Sample

/-- The token, its reference and the keys are there again after the repository was dropped or closed. -/
theorem create_eq_of_reference :
    Sample.referred.repository.tokensOfKey ⟨"k"⟩ = [⟨[1]⟩] ∧
    create Sample.referred.repository.validator (some Sample.storeFile) Sample.dropped =
      .ok (Sample.referred.repository, Sample.dropped.claim Sample.storeFile) ∧
    Sample.closed.result = .ok () ∧
    create Sample.referred.repository.validator (some Sample.storeFile) Sample.closed.host =
      .ok (Sample.referred.repository, Sample.closed.host.claim Sample.storeFile) := by
  obtain ⟨_, again⟩ := Sample.recorded_referred.create_eq
  obtain ⟨dropped, closed⟩ := again (by decide +kernel)
  exact ⟨by decide +kernel, dropped, closed (ne_error_of_toOption (by decide +kernel))⟩

end Repository

end TokenGate
