import TokenGate.Proofs.Repository.Runs
import TokenGate.Proofs.Writing

/-!
# Saving

A change counts once it is saved, which needs a host that carries out the write, and an encoding for all that the state has. Both
last: a write that succeeded can be repeated, and a state with less in it than one that was saved has an encoding too.
-/

namespace TokenGate

/-! ## Encodings -/

/-- Applying a function that may fail to all elements succeeds if it does for each. -/
theorem exists_mapM_eq_ok_iff {α β ε : Type} (f : α → Except ε β) (xs : List α) :
    (∃ ys, xs.mapM f = .ok ys) ↔ ∀ x ∈ xs, ∃ y, f x = .ok y := by
  induction xs with
  | nil => simp [pure, Except.pure]
  | cons x xs ih =>
    rw [List.mapM_cons, List.forall_mem_cons, ← ih]
    cases first : f x with
    | error e => simp [bind, Except.bind]
    | ok y =>
      cases rest : xs.mapM f with
      | error e => simp [bind, Except.bind]
      | ok ys => simp [bind, Except.bind, pure, Except.pure]

/-- A token can be written down exactly if its claims have an encoding. -/
theorem StoredToken.exists_ofRecord_eq_ok_iff (id : TokenId) (record : TokenRecord) :
    (∃ stored, ofRecord id record = .ok stored) ↔ ∃ encoded, record.claims.encode = .ok encoded := by
  unfold ofRecord
  cases record.claims.encode with
  | error e => simp [bind, Except.bind]
  | ok encoded => simp [bind, Except.bind]

/-- A key can be written down exactly if its confirmation has an encoding. -/
theorem StoredKey.exists_ofBoundKey_eq_ok_iff (name : KeyName) (bound : BoundKey) :
    (∃ stored, ofBoundKey name bound = .ok stored) ↔ ∃ v, bound.key.toConfirmation.toValue = .ok v := by
  unfold ofBoundKey
  cases bound.key.toConfirmation.toValue with
  | error e => simp [bind, Except.bind]
  | ok v => simp [bind, Except.bind]

namespace RepositoryState

/-- A state all of whose tokens and keys have an encoding. -/
structure IsStorable (s : RepositoryState) : Prop where
  tokens : ∀ (id : TokenId) (record : TokenRecord), s.tokens[id]? = some record → ∃ encoded, record.claims.encode = .ok encoded
  keys : ∀ (name : KeyName) (bound : BoundKey), s.keys[name]? = some bound → ∃ v, bound.key.toConfirmation.toValue = .ok v

/-- There is a document for a state exactly if all that is in it has an encoding. -/
theorem exists_ofState_eq_ok_iff (s : RepositoryState) : (∃ document, StoreDocument.ofState s = .ok document) ↔ s.IsStorable := by
  have tokens := exists_mapM_eq_ok_iff (fun p : TokenId × TokenRecord => StoredToken.ofRecord p.1 p.2) s.tokens.toList
  have keys := exists_mapM_eq_ok_iff (fun p : KeyName × BoundKey => StoredKey.ofBoundKey p.1 p.2) s.keys.toList
  have both : (∃ document, StoreDocument.ofState s = .ok document) ↔
      (∃ ts, s.tokens.toList.mapM (fun p => StoredToken.ofRecord p.1 p.2) = .ok ts) ∧
        ∃ ks, s.keys.toList.mapM (fun p => StoredKey.ofBoundKey p.1 p.2) = .ok ks := by
    unfold StoreDocument.ofState
    cases s.tokens.toList.mapM (fun p => StoredToken.ofRecord p.1 p.2) with
    | error e => simp [bind, Except.bind]
    | ok ts =>
      cases s.keys.toList.mapM (fun p => StoredKey.ofBoundKey p.1 p.2) with
      | error e => simp [bind, Except.bind]
      | ok ks => simp [bind, Except.bind]
  rw [both, tokens, keys]
  constructor
  · rintro ⟨eachToken, eachKey⟩
    refine ⟨?_, ?_⟩
    · intro id record found
      have among := Std.ExtTreeMap.mem_toList_iff_getElem?_eq_some.mpr found
      exact (StoredToken.exists_ofRecord_eq_ok_iff id record).mp (eachToken (id, record) among)
    · intro name bound found
      have among := Std.ExtTreeMap.mem_toList_iff_getElem?_eq_some.mpr found
      exact (StoredKey.exists_ofBoundKey_eq_ok_iff name bound).mp (eachKey (name, bound) among)
  · rintro ⟨eachToken, eachKey⟩
    refine ⟨?_, ?_⟩
    · rintro ⟨id, record⟩ among
      have found := Std.ExtTreeMap.mem_toList_iff_getElem?_eq_some.mp among
      exact (StoredToken.exists_ofRecord_eq_ok_iff id record).mpr (eachToken id record found)
    · rintro ⟨name, bound⟩ among
      have found := Std.ExtTreeMap.mem_toList_iff_getElem?_eq_some.mp among
      exact (StoredKey.exists_ofBoundKey_eq_ok_iff name bound).mpr (eachKey name bound found)

/-- A state with less in it is storable too. -/
theorem IsStorable.mono {s s' : RepositoryState} (h : s.IsStorable)
    (tokens : ∀ (id : TokenId) (record : TokenRecord), s'.tokens[id]? = some record → s.tokens[id]? = some record)
    (keys : ∀ (name : KeyName) (bound : BoundKey), s'.keys[name]? = some bound → s.keys[name]? = some bound) :
    s'.IsStorable :=
  ⟨fun id record found => h.tokens id record (tokens id record found),
    fun name bound found => h.keys name bound (keys name bound found)⟩

end RepositoryState

namespace Repository

/-! ## What stays -/

/-- The state of a repository is in its store file, if it has one; so there is a document for it. -/
def IsStored (r : Repository) : Prop :=
  r.store.isSome = true → r.state.IsStorable

/-- A host that carries out the writes of a repository. -/
def Saves (r : Repository) (host : Host) : Prop :=
  ∀ path, r.store = some path → host.Accepts path

/-- What no operation changes: how the repository was set up, whether it is stored and its host carries out writes, and the
time. -/
structure Stays (before after : Repository × Host) : Prop where
  validator : after.1.validator = before.1.validator
  store : after.1.store = before.1.store
  clock : after.2.clock = before.2.clock
  stored : before.1.IsStored → after.1.IsStored
  saves : before.1.Saves before.2 → after.1.Saves after.2

theorem Stays.refl (before : Repository × Host) : Stays before before :=
  ⟨rfl, rfl, rfl, id, id⟩

theorem Stays.trans {first second third : Repository × Host} (h : Stays first second) (h' : Stays second third) :
    Stays first third :=
  ⟨h'.validator.trans h.validator, h'.store.trans h.store, h'.clock.trans h.clock, h'.stored ∘ h.stored, h'.saves ∘ h.saves⟩

/-- Replacing a file does not take time, and can be repeated if it can be done. -/
theorem replaceFile_stays (host : Host) (path : DiskPath) (content : Bytes) :
    (host.replaceFile path content).2.clock = host.clock ∧
      (host.Accepts path → (host.replaceFile path content).2.Accepts path) := by
  refine ⟨?_, fun accepts => Host.accepts_of_replaceFile (accepts content)⟩
  unfold Host.replaceFile
  cases host.disk.writeAt? path.temporary content with
  | none => rfl
  | some written => cases moved : written.renameAt? path.temporary path <;> simp only [moved]

/-- Saving succeeds, or a write fails, or there is no encoding and nothing is written. -/
theorem save_cases (r : Repository) (state : RepositoryState) (host : Host) :
    (∃ host', r.save state host = (.ok (), host')) ∨ (∃ host', r.save state host = (.error .storage, host')) ∨
      ∃ failure, StoreDocument.ofState state = .error failure ∧ r.save state host = (.error (.encoding failure), host) := by
  unfold save
  cases r.store with
  | none => exact Or.inl ⟨host, rfl⟩
  | some path =>
    cases StoreDocument.ofState state with
    | error failure => exact Or.inr (Or.inr ⟨failure, rfl, rfl⟩)
    | ok document =>
      simp only
      cases host.replaceFile path document.encode with
      | mk success host' =>
        cases success with
        | true => exact Or.inl ⟨host', rfl⟩
        | false => exact Or.inr (Or.inl ⟨host', rfl⟩)

/-- Saving does not take time, and can be repeated if it can be done. -/
theorem save_stays (r : Repository) (state : RepositoryState) (host : Host) :
    (r.save state host).2.clock = host.clock ∧ (r.Saves host → r.Saves (r.save state host).2) ∧
      ((r.save state host).1 = .ok () → r.store.isSome = true → state.IsStorable) := by
  unfold save Saves
  cases store : r.store with
  | none => simp
  | some path =>
    cases encoded : StoreDocument.ofState state with
    | error e => simp
    | ok document =>
      obtain ⟨clock, accepts⟩ := replaceFile_stays host path document.encode
      have storable := (RepositoryState.exists_ofState_eq_ok_iff state).mp ⟨document, encoded⟩
      cases replaced : host.replaceFile path document.encode with
      | mk success host' =>
        rw [replaced] at clock accepts
        cases success <;> simp_all

/-- A state that has an encoding can be saved if the host carries out the write. -/
theorem save_eq_ok {r : Repository} {state : RepositoryState} {host : Host} (saves : r.Saves host)
    (storable : r.store.isSome = true → state.IsStorable) : (r.save state host).1 = .ok () := by
  unfold save
  cases store : r.store with
  | none => rfl
  | some path =>
    obtain ⟨document, encoded⟩ := (RepositoryState.exists_ofState_eq_ok_iff state).mpr (storable (by rw [store, Option.isSome_some]))
    have written := saves path store document.encode
    simp only [encoded]
    cases replaced : host.replaceFile path document.encode with
    | mk success host' =>
      rw [replaced] at written
      cases written
      rfl

/-- Saving a state leaves the setup as it is. -/
theorem commit_stays {α : Type} (r : Repository) (host : Host) (outcome : Outcome α) :
    Stays (r, host) (r.commit host outcome).after := by
  unfold commit
  cases outcome.next with
  | none => exact Stays.refl _
  | some next =>
    obtain ⟨clock, saves, storable⟩ := save_stays r next host
    cases saved : r.save next host with
    | mk result host' =>
      rw [saved] at clock saves storable
      simp only [saved]
      cases result with
      | ok _ => exact ⟨rfl, rfl, clock, fun _ => storable rfl, saves⟩
      | error _ => exact ⟨rfl, rfl, clock, id, saves⟩

/-- An operation changes neither how the repository was set up, nor whether its changes are saved. -/
theorem perform_stays {α : Type} (r : Repository) (host : Host)
    (change : RepositoryState → Except Rejection (Outcome α)) : Stays (r, host) (r.perform host change).after := by
  unfold perform
  split
  · cases change r.state with
    | error _ => exact Stays.refl _
    | ok outcome => exact commit_stays r host outcome
  · exact Stays.refl _

theorem addToken_stays (r : Repository) (host : Host) (claims : Claims) (shared : SharedKey) (senderKey : Option KeyName)
    (origin : TokenOrigin) : Stays (r, host) (r.addToken host claims shared senderKey origin).after := by
  unfold addToken
  split
  · exact Stays.refl _
  · exact perform_stays r host _

theorem withdraw_stays (r : Repository) (host : Host) (added : AddedToken) :
    Stays (r, host) (r.withdraw host added).after := by
  unfold withdraw
  split
  · exact Stays.refl _
  · exact perform_stays r host _

theorem close_stays (r : Repository) (host : Host) : Stays (r, host) (r.close host).after := by
  unfold close
  split
  · obtain ⟨clock, saves, storable⟩ := save_stays r r.state host
    cases saved : r.save r.state host with
    | mk result host' =>
      rw [saved] at clock saves storable
      cases result with
      | ok _ =>
        have released : (host'.release r.store).clock = host'.clock ∧ (host'.release r.store).disk = host'.disk := by
          cases r.store <;> exact ⟨rfl, rfl⟩
        refine ⟨rfl, rfl, released.1.trans clock, fun _ => storable rfl, ?_⟩
        intro before path store content
        have written := saves before path store content
        rw [← written]
        unfold Host.replaceFile
        simp only [Effect.after, released.2]
        cases host'.disk.writeAt? path.temporary content with
        | none => rfl
        | some disk => cases moved : disk.renameAt? path.temporary path <;> simp only [moved]
      | error _ => exact ⟨rfl, rfl, clock, id, saves⟩
  · exact Stays.refl _

theorem carryOut_stays (r : Repository) (host : Host) (op : Operation) : Stays (r, host) (r.carryOut host op) := by
  cases op with
  | provision key =>
    change Stays (r, host) (r.provisionKey host key).after
    unfold provisionKey
    split
    · exact Stays.refl _
    · exact perform_stays r host _
  | close => exact close_stays r host
  | remove id => exact perform_stays r host _
  | purge now => exact perform_stays r host _
  | bind sender key => exact perform_stays r host _
  | unbind sender => exact perform_stays r host _
  | challenge key challenge => exact perform_stays r host _

/-- A change of an open repository comes about if the host carries out the write and there is an encoding. -/
theorem perform_eq_ok {α : Type} {r : Repository} {host : Host} {change : RepositoryState → Except Rejection (Outcome α)}
    {outcome : Outcome α} (isOpen : r.isOpen = true) (saves : r.Saves host) (changed : change r.state = .ok outcome)
    (storable : ∀ next, outcome.next = some next → r.store.isSome = true → next.IsStorable) :
    (r.perform host change).result = .ok outcome.value ∧
      (r.perform host change).repository = { r with state := outcome.next.getD r.state } := by
  have result : (r.perform host change).result = .ok outcome.value := by
    unfold perform
    rw [if_pos isOpen, changed]
    simp only [commit]
    cases next : outcome.next with
    | none => rfl
    | some state =>
      have saved := save_eq_ok saves (storable state next)
      simp only
      cases effect : r.save state host with
      | mk done host' =>
        rw [effect] at saved
        cases saved
        rfl
  obtain ⟨_, other, same, _, counted⟩ := perform_ok result
  rw [changed] at same
  cases same
  exact ⟨result, counted⟩

/-- An addition that was saved can be undone if the state before it had an encoding. -/
theorem storable_undo_withToken {s : RepositoryState} (sound : s.IsSound) {t : Submission} {isUpdate : Bool}
    (admits : s.Admits t isUpdate) (before : s.IsStorable) (after : (s.withToken t isUpdate).IsStorable) :
    (((s.withToken t isUpdate).undo t.id t.key (s.displacedBy t isUpdate)).dropIfOrphaned t.key).IsStorable := by
  refine ⟨?_, ?_⟩
  · intro id record found
    rw [RepositoryState.tokens_dropIfOrphaned, sound.tokens_undo_withToken admits] at found
    exact before.tokens id record found
  · intro name bound found
    rw [RepositoryState.keys_dropIfOrphaned, Option.ite_none_left_eq_some] at found
    rcases RepositoryState.keys_of_undo_withToken found.2 with early | late
    · exact before.keys name bound early
    · exact after.keys name bound late

/-- A withdrawal from an open repository comes about if the host carries out the write and there is an encoding. -/
theorem withdraw_eq_ok {r : Repository} {host : Host} {added : AddedToken} {displaced : Displaced}
    (new : added.displaced = some displaced) (isOpen : r.isOpen = true) (saves : r.Saves host)
    (storable : r.store.isSome = true → ((r.state.undo added.id added.key displaced).dropIfOrphaned added.key).IsStorable) :
    (r.withdraw host added).result = .ok () := by
  have performed : r.withdraw host added = r.perform host fun s => .ok (s.withdraw added) := by
    rw [withdraw, new]
    rfl
  have changed : (Except.ok (r.state.withdraw added) : Except Rejection (Outcome Unit)) =
      .ok (.changed () ((r.state.undo added.id added.key displaced).dropIfOrphaned added.key)) := by
    rw [RepositoryState.withdraw_of_displaced new]
  rw [performed]
  refine (perform_eq_ok isOpen saves changed ?_).1
  intro next counted
  cases counted
  exact storable

end Repository

end TokenGate
