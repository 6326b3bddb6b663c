import TokenGate.Proofs.Repository.Saving

/-!
# Undoing an addition

An addition followed at once by the withdrawal of what it added leaves the state as the sweep left it; or as it was, if the token
was there before. This holds after every orderly run, provided that channels and challenges are only of known keys: then whatever
a released key takes along came with the token.
-/

namespace TokenGate

namespace RepositoryState

/-- A withdrawal keeps a state settled: it only takes tokens of a key that is released if it is left without any. -/
theorem IsSettled.undo {s : RepositoryState} (h : s.IsSettled) (indexed : s.IsIndexed) {id : TokenId} {key : KeyName}
    {displaced : Displaced} (of : displaced.IsOf key) (own : ∀ old : TokenRecord, s.tokens[id]? = some old → old.key = key)
    (free : ∀ p ∈ displaced.tokens, ∀ old : TokenRecord, s.tokens[p.1]? = some old → old.key = key) :
    ((s.undo id key displaced).dropIfOrphaned key).IsSettled := by
  intro name bound found learned
  rw [keys_dropIfOrphaned, Option.ite_none_left_eq_some] at found
  obtain ⟨stays, found⟩ := found
  rw [tokens_dropIfOrphaned]
  by_cases same : key = name
  · subst same
    have spared : (s.undo id key displaced).isProvisioned key = false := by
      rw [isProvisioned, found, Option.any_some, learned]
    by_contra none
    apply stays
    refine ⟨rfl, (isOrphan_eq_true_iff _ key).mpr ⟨?_, spared⟩⟩
    intro other filed
    exact none ⟨other, (indexed.undo of own free other key).mp filed⟩
  · rw [keys_undo, if_neg same] at found
    obtain ⟨other, record, there, held⟩ := h name bound found learned
    have apart : record.key ≠ key := fun equal => same (equal.symm.trans held)
    refine ⟨other, record, (tokens_undo s of.distinct other record).mpr (Or.inr ⟨?_, ?_, there⟩), held⟩
    · intro among
      obtain ⟨p, back, rfl⟩ := List.mem_map.mp among
      exact apart (free p back record there)
    · rintro rfl
      exact apart (own record there)

/-- What was added is taken for a token that was there before exactly if nothing was displaced. -/
theorem isResubmission_of_add {s : RepositoryState} {t : Submission} {senderKey : Option KeyName} {now : UInt64}
    {outcome : Outcome AddedToken} (h : s.add t senderKey now = .ok outcome) :
    (s.sweep now).isResubmission t = outcome.value.displaced.isNone := by
  unfold add at h
  simp only at h
  split at h
  · nomatch h
  split at h
  · rename_i there
    cases h
    exact there
  · rename_i new
    split at h
    · nomatch h
    · cases h
      rw [Bool.not_eq_true] at new
      exact new

end RepositoryState

namespace Repository

/-- A withdrawal right after the addition keeps the state settled. -/
theorem withdraw_isSettled {r : Repository} (settled : r.state.IsSettled) {added : AddedToken}
    (after : IsJustAfter r.state added) (host : Host) : (r.withdraw host added).repository.state.IsSettled := by
  apply withdraw_keeps settled
  intro d displaced
  obtain ⟨swept, t, sound, admits, id, key, rfl, state⟩ := after d displaced
  rw [id, key]
  rw [state] at settled ⊢
  exact settled.undo (sound.withToken admits).indexed (sound.isOf_displacedBy admits)
    (fun _ => RepositoryState.key_of_tokens_withToken (Or.inl rfl))
    fun _ among _ => RepositoryState.key_of_tokens_withToken (Or.inr (List.mem_map_of_mem among))

/-- Every learned key has a token after every orderly run. -/
theorem Orderly.isSettled {r : Repository} {last : Option AddedToken} (h : Orderly r last) : r.state.IsSettled := by
  induction h with
  | start validator store =>
    intro key bound found
    simp at found
  | add before host claims shared senderKey origin ih =>
    exact addToken_isSettled before.isSound_and_isJustAfter.1 ih host claims shared senderKey origin
  | withdraw before host ih => exact withdraw_isSettled ih (before.isSound_and_isJustAfter.2 _ rfl) host
  | @other r last before host op ih => exact (r.changes_carryOut host op).isSettled before.isSound_and_isJustAfter.1 ih

/-- A repository with a store file is stored after every orderly run. -/
theorem Orderly.isStored {r : Repository} {last : Option AddedToken} (h : Orderly r last) : r.IsStored := by
  induction h with
  | start validator store =>
    intro _
    exact ⟨by simp, by simp⟩
  | @add r last before host claims shared senderKey origin ih =>
    exact (r.addToken_stays host claims shared senderKey origin).stored ih
  | @withdraw r added before host ih => exact (r.withdraw_stays host added).stored ih
  | @other r last before host op ih => exact (r.carryOut_stays host op).stored ih

/-- An addition is the change of the state that its submission makes. -/
theorem addToken_eq {claims : Claims} {shared : SharedKey} {origin : TokenOrigin} {t : Submission}
    (made : Submission.ofClaims claims shared origin = .ok t) (r : Repository) (host : Host) (senderKey : Option KeyName) :
    r.addToken host claims shared senderKey origin = r.perform host fun s => s.add t senderKey host.clock := by
  rw [addToken, made]

/-- An addition and its withdrawal leave the state that the sweep left, or the state as it was if the token was there before. -/
theorem withdraw_addToken {r : Repository} {last : Option AddedToken} (run : Orderly r last) (anchored : r.state.IsAnchored)
    {host : Host} {claims : Claims} {shared : SharedKey} {senderKey : Option KeyName} {origin : TokenOrigin}
    {added : AddedToken} (ok : (r.addToken host claims shared senderKey origin).result = .ok added) {later : Host}
    (saves : r.Saves later) :
    ∃ t, Submission.ofClaims claims shared origin = .ok t ∧
      ((r.addToken host claims shared senderKey origin).repository.withdraw later added).result = .ok () ∧
      ((r.addToken host claims shared senderKey origin).repository.withdraw later added).repository =
        { r with state :=
            if (r.state.sweep host.clock).isResubmission t then r.state else r.state.sweep host.clock } ∧
      (r.state.sweep host.clock).IsWithout r.state (r.state.expired host.clock) := by
  have sound := run.isSound_and_isJustAfter.1
  have without := sound.isWithout_sweep host.clock
  have swept := sound.sweep host.clock
  have stored := (r.addToken_stays host claims shared senderKey origin).stored run.isStored
  obtain ⟨isOpen, t, outcome, made, adds, rfl, counted⟩ := addToken_ok ok
  refine ⟨t, made, ?_⟩
  have resubmitted : (r.state.sweep host.clock).isResubmission t = outcome.value.displaced.isNone := by
    rw [addToken_eq made] at ok
    obtain ⟨_, other, changed, same, _⟩ := perform_ok ok
    rw [RepositoryState.isResubmission_of_add changed, same]
  rw [resubmitted]
  simp only [Effect.after] at stored
  rw [counted] at stored ⊢
  cases adds with
  | again known there => exact ⟨rfl, rfl, without⟩
  | anew isUpdate decided admits =>
    have restored := swept.undo_withToken (run.isSettled.of_isWithout without) (anchored.of_isWithout without) admits
    have taken : (Repository.withdraw { r with state := (r.state.sweep host.clock).withToken t isUpdate } later
        { id := t.id, key := t.key, isUpdate
          displaced := some ((r.state.sweep host.clock).displacedBy t isUpdate) }).result = .ok () := by
      refine withdraw_eq_ok rfl isOpen saves ?_
      intro store
      have before := (run.isStored store).mono
        (fun id record found => ((RepositoryState.tokens_sweep _ host.clock id record).mp found).1)
        fun name bound found => ((without.keys name bound).mp found).1
      exact storable_undo_withToken swept admits before (stored store)
    refine ⟨taken, ?_, without⟩
    have undone := withdraw_ok rfl taken
    simp only [restored] at undone
    exact undone

namespace Sample

/-- A token that has an end and a token without one, of different keys, and a channel of the first key. -/
def eventful : Repository :=
  let b := (add repository 3 0x62 none).repository
  let ending := (b.addToken {} ((claims 1 0x61).set .exp 5) shared none .selfContained).repository
  (((add ending 2 0x61 none).repository).carryOut {} (.bind "channel" ⟨"a"⟩)).1

theorem orderly_eventful : Orderly eventful none :=
  .other (.add (.add (.add orderly_repository _ _ _ _ _) _ _ _ _ _) _ _ _ _ _) _ _

theorem isAnchored_eventful : eventful.state.IsAnchored where
  senders sender key found := by
    have only : eventful.state.senders.toList.all (fun p => decide (p.2 ∈ eventful.state.keys)) = true := by decide +kernel
    have listed := Std.ExtTreeMap.mem_toList_iff_getElem?_eq_some.mpr found
    exact of_decide_eq_true (List.all_eq_true.mp only _ listed)
  challenges key challenge found := by
    have none : eventful.state.challenges.isEmpty = true := by decide +kernel
    rw [Std.ExtTreeMap.isEmpty_iff] at none
    simp [none] at found

theorem saves_eventful (host : Host) : eventful.Saves host := by
  intro path stored
  have none : eventful.store.isNone = true := by decide +kernel
  rw [stored] at none
  nomatch none

/-- An update for `a`, once one of the tokens that it would replace has ended. -/
def renewal : Effect AddedToken :=
  eventful.addToken { clock := 7 } (claims 2 0x61) shared (some ⟨"a"⟩) .selfContained

def renewed : AddedToken := renewal.result.toOption.get (by decide +kernel)

end Sample

/-- An update that reuses the identifier of a token it replaces is taken back: this token is there again, and the one that had
ended is not. -/
theorem withdraw_addToken_of_renewal :
    Orderly Sample.eventful none ∧ Sample.eventful.state.IsAnchored ∧ Sample.renewal.result = .ok Sample.renewed ∧
      Sample.renewed.isUpdate = true ∧
      (Sample.renewal.repository.withdraw {} Sample.renewed).repository.state = Sample.eventful.state.sweep 7 ∧
      Sample.eventful.tokensOfKey ⟨"a"⟩ = [⟨[1]⟩, ⟨[2]⟩] ∧
      (Sample.renewal.repository.withdraw {} Sample.renewed).repository.tokensOfKey ⟨"a"⟩ = [⟨[2]⟩] := by
  have ok : Sample.renewal.result = .ok Sample.renewed := eq_ok_of_toOption (Option.some_get _).symm
  obtain ⟨t, made, _, left, _⟩ :=
    withdraw_addToken Sample.orderly_eventful Sample.isAnchored_eventful ok (Sample.saves_eventful {})
  have identified : t.isDerived = false := by
    have given := (Submission.isFrom_of_ofClaims made).id
    have present : Submission.idOf (Sample.claims 2 0x61) = .ok (⟨[2]⟩, false) := rfl
    exact (congrArg Prod.snd (Except.ok.inj (present.symm.trans given))).symm
  have new : (Sample.eventful.state.sweep 7).isResubmission t = false := by
    rw [RepositoryState.isResubmission, identified, Bool.false_and]
  refine ⟨Sample.orderly_eventful, Sample.isAnchored_eventful, ok, by decide +kernel, ?_, by decide +kernel, by decide +kernel⟩
  have state := congrArg Repository.state left
  simp only at state
  rw [new, if_neg Bool.false_ne_true] at state
  exact state

end Repository

end TokenGate
