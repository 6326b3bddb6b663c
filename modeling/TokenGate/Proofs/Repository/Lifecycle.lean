import Mathlib.Logic.Function.Basic
import TokenGate.Proofs.Repository.LateWithdrawal
import TokenGate.Proofs.Repository.Undoing

/-!
# The life of a key

A key that was learned from a token is known as long as some token is bound to it, and not longer. A key that was agreed on out of
band stays, and only agreeing on it anew changes its material. `Supervised` are the orderly runs in which channels and challenges
are only given to known keys, as the profiles do it. They come with a ledger of what was agreed on, which goes by the answers of the
operations; that the repository keeps what the ledger says is proved along the run.
-/

namespace TokenGate

namespace RepositoryState

/-! ## Channels and challenges -/

/-- A state stays anchored while its keys stay and whatever is hung on a key is hung on a known one. -/
theorem IsAnchored.of_keys {s s' : RepositoryState} (h : s.IsAnchored) (keys : ∀ key, key ∈ s.keys → key ∈ s'.keys)
    (senders : ∀ (sender : String) (key : KeyName), s'.senders[sender]? = some key →
      s.senders[sender]? = some key ∨ key ∈ s.keys)
    (challenges : ∀ (key : KeyName) (challenge : Bytes), s'.challenges[key]? = some challenge →
      s.challenges[key]? = some challenge ∨ key ∈ s.keys) : s'.IsAnchored where
  senders sender key found := keys key ((senders sender key found).elim (h.senders sender key) id)
  challenges key challenge found := keys key ((challenges key challenge found).elim (h.challenges key challenge) id)

/-- Nothing hangs on a key in an empty state. -/
theorem IsAnchored.empty : IsAnchored {} where
  senders sender key found := by simp at found
  challenges key challenge found := by simp at found

/-- An addition leaves the known keys known. -/
theorem IsAnchored.withToken {s : RepositoryState} (h : s.IsAnchored) (t : Submission) (isUpdate : Bool) :
    (s.withToken t isUpdate).IsAnchored := by
  apply h.of_keys
  · intro key known
    have learned := mem_keys_learnKey (t := t) known
    rw [Std.ExtTreeMap.mem_iff_isSome_getElem?] at learned ⊢
    rw [keys_withToken]
    exact learned
  · intro sender key found
    rw [senders_withToken] at found
    exact Or.inl found
  · intro key challenge found
    rw [challenges_withToken] at found
    exact Or.inl found

/-- Undoing an addition leaves the known keys known. -/
theorem IsAnchored.undo {s : RepositoryState} (h : s.IsAnchored) (id : TokenId) (key : KeyName) (displaced : Displaced) :
    (s.undo id key displaced).IsAnchored := by
  apply h.of_keys
  · intro other known
    rw [Std.ExtTreeMap.mem_iff_isSome_getElem?] at known ⊢
    rw [keys_undo]
    split
    · rw [Option.isSome_or, known, Bool.or_true]
    · exact known
  · intro sender other found
    rw [senders_undo] at found
    exact Or.inl found
  · intro other challenge found
    rw [challenges_undo] at found
    exact Or.inl found

/-- A key that is released takes along what hangs on it. -/
theorem IsAnchored.dropIfOrphaned {s : RepositoryState} (h : s.IsAnchored) (key : KeyName) :
    (s.dropIfOrphaned key).IsAnchored := by
  have known : ∀ other, other ∈ s.keys → ¬(key = other ∧ s.isOrphan key = true) → other ∈ (s.dropIfOrphaned key).keys := by
    intro other there stays
    rw [Std.ExtTreeMap.mem_iff_isSome_getElem?] at there ⊢
    rw [keys_dropIfOrphaned, if_neg stays]
    exact there
  refine ⟨?_, ?_⟩
  · intro sender other found
    rw [senders_dropIfOrphaned, Option.filter_eq_some_iff] at found
    refine known other (h.senders sender other found.1) ?_
    rw [not_and_or, Bool.not_eq_true]
    simpa using found.2
  · intro other challenge found
    rw [challenges_dropIfOrphaned, Option.ite_none_left_eq_some] at found
    exact known other (h.challenges other challenge found.2) found.1

end RepositoryState

namespace Repository

/-! ## Supervised runs -/

/-- Whether an operation hangs something on a known key, if on any. -/
def Operation.IsOfKnownKey (s : RepositoryState) : Operation → Prop
  | .bind _ key => key ∈ s.keys
  | .challenge key _ => key ∈ s.keys
  | _ => True

/-- What is agreed on after an operation, with the latest material of each key. -/
def agreedAfter (agreed : KeyName → Option PopKey) (r : Repository) (host : Host) : Operation → KeyName → Option PopKey
  | .provision key =>
    match (r.provisionKey host key).result with
    | .ok name => Function.update agreed name (some key)
    | .error _ => agreed
  | _ => agreed

/-- A repository reached from an empty one by any operations on any hosts, where a token is only withdrawn right after it was
added, and channels and challenges are only given to known keys; the token that was just added, if the last operation added one; and
the keys that were agreed on out of band. -/
inductive Supervised : Repository → Option AddedToken → (KeyName → Option PopKey) → Prop
  | start (validator : Validator) (store : Option DiskPath) : Supervised { validator, store } none fun _ => none
  | add {r : Repository} {last : Option AddedToken} {agreed : KeyName → Option PopKey} (before : Supervised r last agreed)
    (host : Host) (claims : Claims) (shared : SharedKey) (senderKey : Option KeyName) (origin : TokenOrigin) :
    Supervised (r.addToken host claims shared senderKey origin).repository
      (r.addToken host claims shared senderKey origin).result.toOption agreed
  | withdraw {r : Repository} {added : AddedToken} {agreed : KeyName → Option PopKey}
    (before : Supervised r (some added) agreed) (host : Host) : Supervised (r.withdraw host added).repository none agreed
  | other {r : Repository} {last : Option AddedToken} {agreed : KeyName → Option PopKey} (before : Supervised r last agreed)
    (host : Host) (op : Operation) (known : op.IsOfKnownKey r.state) :
    Supervised (r.carryOut host op).1 none (agreedAfter agreed r host op)

/-- A supervised run is orderly. -/
theorem Supervised.orderly {r : Repository} {last : Option AddedToken} {agreed : KeyName → Option PopKey}
    (h : Supervised r last agreed) : Orderly r last := by
  induction h with
  | start validator store => exact .start validator store
  | add _ host claims shared senderKey origin ih => exact .add ih host claims shared senderKey origin
  | withdraw _ host ih => exact .withdraw ih host
  | other _ host op _ ih => exact .other ih host op

/-! ## What hangs on keys -/

/-- An addition, whether it succeeds or not, keeps a state anchored. -/
theorem addToken_isAnchored {r : Repository} (sound : r.state.IsSound) (anchored : r.state.IsAnchored) (host : Host)
    (claims : Claims) (shared : SharedKey) (senderKey : Option KeyName) (origin : TokenOrigin) :
    (r.addToken host claims shared senderKey origin).repository.state.IsAnchored := by
  apply addToken_keeps anchored
  intro t isUpdate _
  exact (anchored.of_isWithout (sound.isWithout_sweep host.clock)).withToken t isUpdate

/-- A withdrawal, whenever it takes place, keeps a state anchored. -/
theorem withdraw_isAnchored {r : Repository} (anchored : r.state.IsAnchored) (added : AddedToken) (host : Host) :
    (r.withdraw host added).repository.state.IsAnchored :=
  withdraw_keeps anchored fun d _ => (anchored.undo added.id added.key d).dropIfOrphaned added.key

/-- An operation keeps a state anchored if what it hangs on a key, it hangs on a known one. -/
theorem Operation.Changes.isAnchored {op : Operation} {s s' : RepositoryState} (h : op.Changes s s') (sound : s.IsSound)
    (anchored : s.IsAnchored) (known : op.IsOfKnownKey s) : s'.IsAnchored := by
  cases h with
  | nothing => exact anchored
  | remove id => exact anchored.of_isWithout (sound.isWithout_removeToken id)
  | purge now => exact anchored.of_isWithout (sound.isWithout_sweep now)
  | provision named =>
    exact anchored.of_keys (fun key there => Std.ExtTreeMap.mem_insert.mpr (Or.inr there)) (fun _ _ => Or.inl) fun _ _ => Or.inl
  | bind sender key =>
    refine anchored.of_keys (fun _ there => there) ?_ fun _ _ => Or.inl
    intro other bound found
    rw [Std.ExtTreeMap.getElem?_insert] at found
    split at found
    · exact Or.inr (Option.some.inj found ▸ known)
    · exact Or.inl found
  | unbind sender =>
    refine anchored.of_keys (fun _ there => there) ?_ fun _ _ => Or.inl
    intro other bound found
    rw [Std.ExtTreeMap.getElem?_erase, Option.ite_none_left_eq_some] at found
    exact Or.inl found.2
  | challenge key challenge =>
    refine anchored.of_keys (fun _ there => there) (fun _ _ => Or.inl) ?_
    intro other given found
    rw [Std.ExtTreeMap.getElem?_insert] at found
    split at found
    · rename_i same
      exact Or.inr (compare_eq_eq_iff.mp same ▸ known)
    · exact Or.inl found

/-- Every channel and every challenge is of a known key after every supervised run. -/
theorem Supervised.isAnchored {r : Repository} {last : Option AddedToken} {agreed : KeyName → Option PopKey}
    (h : Supervised r last agreed) : r.state.IsAnchored := by
  induction h with
  | start validator store => exact RepositoryState.IsAnchored.empty
  | add before host claims shared senderKey origin ih =>
    exact addToken_isAnchored before.orderly.isSound_and_isJustAfter.1 ih host claims shared senderKey origin
  | withdraw before host ih => exact withdraw_isAnchored ih _ host
  | @other r _ _ before host op known ih =>
    exact (r.changes_carryOut host op).isAnchored before.orderly.isSound_and_isJustAfter.1 ih known

/-! ## What was agreed on -/

/-- An addition leaves what was agreed on. -/
theorem agreedKey?_addToken {r : Repository} (sound : r.state.IsSound) (host : Host) (claims : Claims) (shared : SharedKey)
    (senderKey : Option KeyName) (origin : TokenOrigin) (name : KeyName) :
    (r.addToken host claims shared senderKey origin).repository.state.agreedKey? name = r.state.agreedKey? name := by
  apply @addToken_keeps _ _ _ _ _ _ (fun state => state.agreedKey? name = r.state.agreedKey? name) rfl
  intro t isUpdate _
  rw [RepositoryState.agreedKey?_withToken]
  exact (sound.isWithout_sweep host.clock).agreedKey?_eq name

/-- A withdrawal right after the addition leaves what was agreed on, since nothing took place in between. -/
theorem agreedKey?_withdraw {r : Repository} {added : AddedToken} (after : IsJustAfter r.state added) (host : Host)
    (name : KeyName) : (r.withdraw host added).repository.state.agreedKey? name = r.state.agreedKey? name := by
  apply @withdraw_keeps _ _ _ (fun state => state.agreedKey? name = r.state.agreedKey? name) rfl
  intro d displaced
  have clear : IsClear added {} r.state := ⟨fun _ _ _ listed => listed.elim, fun _ _ _ _ listed => nomatch listed⟩
  exact after.tracks.agreedKey?_undo clear displaced name

/-- After an operation, what is agreed on is what its answer says. -/
theorem agreedKey?_carryOut {r : Repository} (sound : r.state.IsSound) {agreed : KeyName → Option PopKey}
    (before : r.state.agreedKey? = agreed) (host : Host) (op : Operation) :
    (r.carryOut host op).1.state.agreedKey? = agreedAfter agreed r host op := by
  have others : (∀ key, op ≠ .provision key) → (r.carryOut host op).1.state.agreedKey? = agreed := by
    intro apart
    funext name
    rw [(r.changes_carryOut host op).agreedKey?_eq sound apart name, before]
  cases op with
  | provision key =>
    change (r.provisionKey host key).repository.state.agreedKey? = _
    simp only [agreedAfter]
    cases result : (r.provisionKey host key).result with
    | error e =>
      rw [provisionKey_error result]
      exact before
    | ok name =>
      funext other
      simp only
      rw [provisionKey_ok result, RepositoryState.agreedKey?, Std.ExtTreeMap.getElem?_insert, Function.update_apply]
      by_cases same : name = other
      · simp [same, BoundKey.agreed?]
      · rw [if_neg (Ne.symm same), ← before, if_neg (by simpa using same)]
        rfl
  | remove id => exact others (by simp)
  | purge now => exact others (by simp)
  | bind sender key => exact others (by simp)
  | unbind sender => exact others (by simp)
  | challenge key challenge => exact others (by simp)
  | close => exact others (by simp)

/-- What was agreed on is what the ledger says after every supervised run. -/
theorem Supervised.agreedKey?_eq {r : Repository} {last : Option AddedToken} {agreed : KeyName → Option PopKey}
    (h : Supervised r last agreed) : r.state.agreedKey? = agreed := by
  induction h with
  | start validator store =>
    funext name
    simp [RepositoryState.agreedKey?]
  | add before host claims shared senderKey origin ih =>
    funext name
    rw [agreedKey?_addToken before.orderly.isSound_and_isJustAfter.1, ih]
  | withdraw before host ih =>
    funext name
    rw [agreedKey?_withdraw (before.orderly.isSound_and_isJustAfter.2 _ rfl), ih]
  | other before host op _ ih => exact agreedKey?_carryOut before.orderly.isSound_and_isJustAfter.1 ih host op

/-- A key that was not agreed on is known exactly as long as a token is bound to it, and one that was agreed on stays as it was last
agreed on. Every channel and every challenge is of a known key. -/
theorem Supervised.lifecycle {r : Repository} {last : Option AddedToken} {agreed : KeyName → Option PopKey}
    (h : Supervised r last agreed) :
    (∀ name, agreed name = none → (name ∈ r.state.keys ↔
      ∃ (id : TokenId) (record : TokenRecord), r.state.tokens[id]? = some record ∧ record.key = name)) ∧
    (∀ name key, agreed name = some key ↔ r.state.keys[name]? = some ⟨key, true⟩) ∧
    (∀ (sender : String) (key : KeyName), r.state.senders[sender]? = some key → key ∈ r.state.keys) ∧
    ∀ (key : KeyName) (challenge : Bytes), r.state.challenges[key]? = some challenge → key ∈ r.state.keys := by
  have sound := h.orderly.isSound_and_isJustAfter.1
  have settled := h.orderly.isSettled
  have ledger := h.agreedKey?_eq
  refine ⟨?_, ?_, h.isAnchored.senders, h.isAnchored.challenges⟩
  · intro name unlisted
    constructor
    · intro known
      obtain ⟨bound, found⟩ := mem_iff_exists_getElem?.mp known
      apply settled name bound found
      rw [← ledger, RepositoryState.agreedKey?, found, Option.bind_some, BoundKey.agreed?] at unlisted
      simpa using unlisted
    · rintro ⟨id, record, found, rfl⟩
      exact sound.keyed id record found
  · intro name key
    rw [← ledger]
    exact r.state.agreedKey?_eq_some_iff name key

namespace Sample

/-- The addition of a token that brings the key `c` along. -/
def learning : Effect AddedToken :=
  let material : Oscore.Material := { id := [0x63], ms := List.replicate 16 0x63 }
  repository.addToken {} ((claims 3 0x63).set .cnf (.oscore material)) shared none .selfContained

/-- The repository once a channel of `c` was bound. -/
def learned : Repository :=
  (learning.repository.carryOut {} (.bind "channel" ⟨"c"⟩)).1

/-- The keys `a` and `b` are all that was agreed on. -/
def ledger : KeyName → Option PopKey :=
  Function.update (Function.update (fun _ => none) ⟨"a"⟩ (some (popKey 0x61))) ⟨"b"⟩ (some (popKey 0x62))

theorem supervised_learned : Supervised learned none ledger := by
  have empty : Supervised { validator := ScopePolicy.validator {} } none fun _ => none := .start _ none
  have provisioned : Supervised repository none ledger := .other (.other empty {} (.provision (popKey 0x61)) trivial) {}
    (.provision (popKey 0x62)) trivial
  refine .other (.add provisioned {} _ shared none .selfContained) {} (.bind "channel" ⟨"c"⟩) ?_
  change _ ∈ learning.repository.state.keys
  rw [Std.ExtTreeMap.mem_iff_contains]
  decide +kernel

end Sample

/-- The learned key goes with its token, and its channel with it; a key that was agreed on stays without a token. -/
theorem lifecycle_of_learned :
    Supervised Sample.learned none Sample.ledger ∧ (⟨"c"⟩ : KeyName) ∈ Sample.learned.state.keys ∧
      Sample.learned.keyOfSender? "channel" = some ⟨"c"⟩ ∧
      Supervised (Sample.learned.carryOut {} (.remove ⟨[3]⟩)).1 none Sample.ledger ∧
      (⟨"c"⟩ : KeyName) ∉ (Sample.learned.carryOut {} (.remove ⟨[3]⟩)).1.state.keys ∧
      (Sample.learned.carryOut {} (.remove ⟨[3]⟩)).1.keyOfSender? "channel" = none ∧
      (Sample.learned.carryOut {} (.remove ⟨[3]⟩)).1.state.keys[(⟨"a"⟩ : KeyName)]? = some ⟨Sample.popKey 0x61, true⟩ := by
  have before := Sample.supervised_learned.lifecycle
  have run : Supervised (Sample.learned.carryOut {} (.remove ⟨[3]⟩)).1 none Sample.ledger :=
    .other Sample.supervised_learned {} (.remove ⟨[3]⟩) trivial
  have after := run.lifecycle
  have unlisted : Sample.ledger ⟨"c"⟩ = none := by decide +kernel
  have bound : Sample.learned.keyOfSender? "channel" = some ⟨"c"⟩ := by decide +kernel
  have empty : (Sample.learned.carryOut {} (.remove ⟨[3]⟩)).1.state.tokens.isEmpty = true := by decide +kernel
  refine ⟨Sample.supervised_learned, before.2.2.1 "channel" ⟨"c"⟩ bound, bound, run, ?_, by decide +kernel, ?_⟩
  · rw [after.1 ⟨"c"⟩ unlisted]
    rintro ⟨id, record, found, _⟩
    rw [Std.ExtTreeMap.isEmpty_iff] at empty
    simp [empty] at found
  · exact (after.2.1 ⟨"a"⟩ _).mp (by decide +kernel)

end Repository

end TokenGate
