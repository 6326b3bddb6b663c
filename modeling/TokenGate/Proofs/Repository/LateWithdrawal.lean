import TokenGate.Proofs.Repository.Runs

/-!
# Late withdrawals

Between the addition of a token and its withdrawal other operations may take place. A `Journal` keeps what they did that has to
last: the tokens they put in, and the keys that became known out of band. The withdrawal puts back what the addition displaced
without a look at the journal. So it is safe exactly if the journal is clear of it: no token put in since stands at one of the
identifiers concerned, and the key was not agreed on since with other material than it had before. This holds with any number of
additions that are yet to be withdrawn, in whatever order.
-/

namespace TokenGate

/-- The identifiers at which an addition put a token in: none if the token was there before. -/
def AddedToken.entered (added : AddedToken) : List TokenId :=
  if added.displaced.isSome then [added.id] else []

/-- The identifiers at which a withdrawal puts tokens back. -/
def AddedToken.returned (added : AddedToken) : List TokenId :=
  ((added.displaced.map Displaced.tokens).getD []).map Prod.fst

namespace Repository

/-- What took place since an addition and has to last. -/
structure Journal where
  /-- The identifiers at which tokens were put in that are still there. -/
  tokens : TokenId → Prop := fun _ => False
  /-- The keys that were provisioned, with the latest material of each. -/
  keys : KeyName → Option PopKey := fun _ => none

namespace Journal

/-- The journal after tokens were put in at some identifiers. What is no longer there is struck out. -/
def adding (j : Journal) (s : RepositoryState) (put : List TokenId) : Journal :=
  { j with tokens := fun id => id ∈ s.tokens ∧ (j.tokens id ∨ id ∈ put) }

/-- The journal after a key was provisioned. -/
def provisioning (j : Journal) (name : KeyName) (key : PopKey) : Journal :=
  { j with keys := fun other => if name = other then some key else j.keys other }

/-- The journal after an operation that puts no token in. -/
def after (j : Journal) (r : Repository) (host : Host) (op : Operation) : Journal :=
  let kept := j.adding (r.carryOut host op).1.state []
  match op with
  | .provision key =>
    match (r.provisionKey host key).result with
    | .ok name => kept.provisioning name key
    | .error _ => kept
  | _ => kept

end Journal

/-- What a withdrawal has to leave: an index that agrees with the tokens, the tokens put in since, each bound to its own key, and
the keys provisioned since. -/
structure IsSafe (j : Journal) (before after : RepositoryState) : Prop where
  indexed : after.IsIndexed
  tokens : ∀ id, j.tokens id → ∀ record : TokenRecord, before.tokens[id]? = some record → after.tokens[id]? = some record
  keys : ∀ name key, j.keys name = some key → after.keys[name]? = some ⟨key, true⟩

/-- What a withdrawal puts back stands in the way of nothing in the journal. -/
structure IsClear (added : AddedToken) (j : Journal) (s : RepositoryState) : Prop where
  /-- A token put in since, at the identifier of the added token or of a displaced one, is the very token displaced. -/
  tokens : ∀ displaced, added.displaced = some displaced → ∀ id, j.tokens id → (id = added.id ∨ id ∈ added.returned) →
    ∀ record : TokenRecord, s.tokens[id]? = some record → (id, record) ∈ displaced.tokens
  /-- If the key was there before and was provisioned since, it was provisioned with this material before. -/
  key : ∀ displaced, added.displaced = some displaced → ∀ key previous, j.keys added.key = some key →
    displaced.key = some previous → previous = ⟨key, true⟩

/-- A repository reached from an empty one, with the additions that may yet be withdrawn and what took place since each of them.
An addition may be withdrawn at any time, as long as its journal is clear. What fails leaves everything as it is. -/
inductive Careful : Repository → List (AddedToken × Journal) → Prop
  | start (validator : Validator) (store : Option DiskPath) : Careful { validator, store } []
  | add {r : Repository} {pending : List (AddedToken × Journal)} (before : Careful r pending) (host : Host)
    (claims : Claims) (shared : SharedKey) (senderKey : Option KeyName) (origin : TokenOrigin) (added : AddedToken)
    (ok : (r.addToken host claims shared senderKey origin).result = .ok added) :
    Careful (r.addToken host claims shared senderKey origin).repository
      ((added, {}) :: pending.map fun p =>
        (p.1, p.2.adding (r.addToken host claims shared senderKey origin).repository.state added.entered))
  | withdraw {r : Repository} {added : AddedToken} {j : Journal} {early late : List (AddedToken × Journal)}
    (before : Careful r (early ++ (added, j) :: late)) (clear : IsClear added j r.state) (host : Host)
    (ok : (r.withdraw host added).result = .ok ()) :
    Careful (r.withdraw host added).repository
      ((early ++ late).map fun p => (p.1, p.2.adding (r.withdraw host added).repository.state added.returned))
  | other {r : Repository} {pending : List (AddedToken × Journal)} (before : Careful r pending) (host : Host)
    (op : Operation) : Careful (r.carryOut host op).1 (pending.map fun p => (p.1, p.2.after r host op))

/-! ## What holds meanwhile -/

/-- How a state and a journal fit to an addition that may yet be withdrawn. -/
structure Tracks (added : AddedToken) (j : Journal) (s : RepositoryState) : Prop where
  displaced : ∀ displaced, added.displaced = some displaced → displaced.IsOf added.key
  /-- At the identifiers concerned, whatever is not in the journal is of the key of the added token. -/
  tokens : ∀ displaced, added.displaced = some displaced → ∀ id, (id = added.id ∨ id ∈ added.returned) →
    ¬j.tokens id → ∀ record : TokenRecord, s.tokens[id]? = some record → record.key = added.key
  /-- A key in the journal is as the journal has it. -/
  keys : ∀ name key, j.keys name = some key → s.agreedKey? name = some key
  /-- Unless it is in the journal, the key of the added token is agreed on as it was before. -/
  rest : ∀ displaced, added.displaced = some displaced → j.keys added.key = none →
    s.agreedKey? added.key = displaced.key.bind BoundKey.agreed?

/-- A journal keeps pace with a state to which tokens are put in that it notes, and keys agreed on that it notes. -/
theorem Tracks.adding {added : AddedToken} {j : Journal} {s s' : RepositoryState} (h : Tracks added j s) {put : List TokenId}
    (tokens : ∀ (id : TokenId) (record : TokenRecord), s'.tokens[id]? = some record →
      s.tokens[id]? = some record ∨ id ∈ put)
    {keys : KeyName → Option PopKey}
    (agreed : ∀ name, (keys name = j.keys name ∧ s'.agreedKey? name = s.agreedKey? name) ∨
      ∃ key, keys name = some key ∧ s'.agreedKey? name = some key) :
    Tracks added { j.adding s' put with keys } s' where
  displaced := h.displaced
  tokens := by
    intro displaced new id concerned absent record found
    have there : id ∈ s'.tokens := mem_iff_exists_getElem?.mpr ⟨record, found⟩
    rcases tokens id record found with before | entered
    · exact h.tokens displaced new id concerned (fun listed => absent ⟨there, Or.inl listed⟩) record before
    · exact absurd ⟨there, Or.inr entered⟩ absent
  keys := by
    intro name key listed
    rcases agreed name with ⟨same, stays⟩ | ⟨material, noted, found⟩
    · rw [stays]
      exact h.keys name key (same.symm.trans listed)
    · exact (found.trans noted.symm).trans listed
  rest := by
    intro displaced new (unlisted : keys added.key = none)
    rcases agreed added.key with ⟨same, stays⟩ | ⟨key, noted, _⟩
    · rw [stays]
      exact h.rest displaced new (same.symm.trans unlisted)
    · rw [noted] at unlisted
      nomatch unlisted

/-- The journal is empty right after the addition, and everything fits. -/
theorem IsJustAfter.tracks {s : RepositoryState} {added : AddedToken} (after : IsJustAfter s added) : Tracks added {} s where
  displaced := by
    intro displaced new
    obtain ⟨swept, t, before, admits, _, key, rfl, _⟩ := after displaced new
    rw [key]
    exact before.isOf_displacedBy admits
  tokens := by
    intro displaced new id concerned _ record found
    obtain ⟨swept, t, _, _, same, key, rfl, rfl⟩ := after displaced new
    rw [key]
    apply RepositoryState.key_of_tokens_withToken _ found
    rcases concerned with rfl | among
    · exact Or.inl same.symm
    · rw [AddedToken.returned, new] at among
      exact Or.inr among
  keys := fun _ _ listed => nomatch listed
  rest := by
    intro displaced new _
    obtain ⟨swept, t, _, _, _, key, rfl, rfl⟩ := after displaced new
    rw [key, RepositoryState.agreedKey?_withToken]
    rfl

/-- The tokens in the journals are what an addition puts in, apart from what was there before. -/
theorem Tracks.add {added : AddedToken} {j : Journal} {r : Repository} (h : Tracks added j r.state)
    (sound : r.state.IsSound) {host : Host} {claims : Claims} {shared : SharedKey} {senderKey : Option KeyName}
    {origin : TokenOrigin} {new : AddedToken}
    (ok : (r.addToken host claims shared senderKey origin).result = .ok new) :
    Tracks added (j.adding (r.addToken host claims shared senderKey origin).repository.state new.entered)
      (r.addToken host claims shared senderKey origin).repository.state := by
  obtain ⟨_, t, outcome, _, adds, rfl, counted⟩ := addToken_ok ok
  rw [counted]
  cases adds with
  | again known there => exact h.adding (fun _ _ found => Or.inl found) fun _ => Or.inl ⟨rfl, rfl⟩
  | anew isUpdate decided admits =>
    refine h.adding ?_ ?_
    · intro id record found
      rw [Outcome.changed, Option.getD_some, RepositoryState.tokens_withToken] at found
      split at found
      · rename_i same
        exact Or.inr (List.mem_singleton.mpr same.symm)
      · have there := (Option.ite_none_left_eq_some.mp found).2
        exact Or.inl ((RepositoryState.tokens_sweep _ host.clock id record).mp there).1
    · intro name
      refine Or.inl ⟨rfl, ?_⟩
      rw [Outcome.changed, Option.getD_some, RepositoryState.agreedKey?_withToken]
      exact (sound.isWithout_sweep host.clock).agreedKey?_eq name

/-- Any other operation only takes tokens away, and a key that it provisions is noted. -/
theorem Tracks.other {added : AddedToken} {j : Journal} {r : Repository} (h : Tracks added j r.state)
    (sound : r.state.IsSound) (host : Host) (op : Operation) :
    Tracks added (j.after r host op) (r.carryOut host op).1.state := by
  have changes := r.changes_carryOut host op
  have tokens : ∀ (id : TokenId) (record : TokenRecord), (r.carryOut host op).1.state.tokens[id]? = some record →
      r.state.tokens[id]? = some record ∨ id ∈ [] :=
    fun id record found => Or.inl (changes.tokens sound id record found)
  -- Only provisioning changes what was agreed on.
  have others : (∀ key, op ≠ .provision key) →
      Tracks added (j.adding (r.carryOut host op).1.state []) (r.carryOut host op).1.state :=
    fun apart => h.adding tokens fun name => Or.inl ⟨rfl, changes.agreedKey?_eq sound apart name⟩
  cases op with
  | provision key =>
    cases result : (r.provisionKey host key).result with
    | error e =>
      have same : (r.carryOut host (.provision key)).1 = r := provisionKey_error result
      simp only [Journal.after, result]
      refine h.adding tokens fun name => Or.inl ⟨rfl, ?_⟩
      rw [same]
    | ok name =>
      have state : (r.carryOut host (.provision key)).1.state =
          { r.state with keys := r.state.keys.insert name ⟨key, true⟩ } := provisionKey_ok result
      simp only [Journal.after, result]
      refine h.adding tokens ?_
      intro other
      rw [state, RepositoryState.agreedKey?, Std.ExtTreeMap.getElem?_insert]
      by_cases same : name = other
      · exact Or.inr ⟨key, if_pos same, by simp [same, BoundKey.agreed?]⟩
      · refine Or.inl ⟨if_neg same, ?_⟩
        simp [same, RepositoryState.agreedKey?]
  | remove id => exact others (by simp)
  | purge now => exact others (by simp)
  | bind sender key => exact others (by simp)
  | unbind sender => exact others (by simp)
  | challenge key challenge => exact others (by simp)
  | close => exact others (by simp)

/-! ## Withdrawing late -/

/-- The identifiers at which tokens are put back. -/
theorem returned_of_displaced {added : AddedToken} {displaced : Displaced} (new : added.displaced = some displaced) :
    added.returned = displaced.tokens.map Prod.fst := by
  rw [AddedToken.returned, new]
  rfl

/-- Whatever stands at the identifiers concerned is of the key of the added token, whether the journal knows it or not. -/
theorem Tracks.key_of_isClear {added : AddedToken} {j : Journal} {s : RepositoryState} (h : Tracks added j s)
    (clear : IsClear added j s) {displaced : Displaced} (new : added.displaced = some displaced) {id : TokenId}
    (concerned : id = added.id ∨ id ∈ added.returned) {record : TokenRecord} (found : s.tokens[id]? = some record) :
    record.key = added.key := by
  by_cases listed : j.tokens id
  · exact (h.displaced displaced new).filed _ (clear.tokens displaced new id listed concerned record found)
  · exact h.tokens displaced new id concerned listed record found

/-- A withdrawal that the journal is clear of does not change what was agreed on. -/
theorem Tracks.agreedKey?_undo {added : AddedToken} {j : Journal} {s : RepositoryState} (h : Tracks added j s)
    (clear : IsClear added j s) {displaced : Displaced} (new : added.displaced = some displaced) (name : KeyName) :
    ((s.undo added.id added.key displaced).dropIfOrphaned added.key).agreedKey? name = s.agreedKey? name := by
  rw [RepositoryState.agreedKey?_dropIfOrphaned, RepositoryState.agreedKey?, RepositoryState.keys_undo]
  by_cases same : added.key = name
  · subst same
    rw [if_pos rfl]
    cases before : displaced.key with
    | none => rfl
    | some previous =>
      rw [Option.some_or]
      cases listed : j.keys added.key with
      | none =>
        rw [h.rest displaced new listed, before]
      | some key =>
        rw [h.keys added.key key listed, clear.key displaced new key previous listed before]
        rfl
  · rw [if_neg same]
    rfl

/-- A withdrawal that the journal is clear of keeps a state sound. -/
theorem Tracks.isSound_undo {added : AddedToken} {j : Journal} {s : RepositoryState} (h : Tracks added j s)
    (sound : s.IsSound) (clear : IsClear added j s) {displaced : Displaced} (new : added.displaced = some displaced) :
    ((s.undo added.id added.key displaced).dropIfOrphaned added.key).IsSound := by
  refine sound.undo (h.displaced displaced new) ?_ ?_
  · intro old found
    exact h.key_of_isClear clear new (Or.inl rfl) found
  · intro p among old found
    refine h.key_of_isClear clear new (Or.inr ?_) found
    rw [returned_of_displaced new]
    exact List.mem_map_of_mem among

/-- What is left once an addition is undone is safe exactly if the journal was clear of it. -/
theorem Tracks.isSafe_undo_iff {added : AddedToken} {j : Journal} {s : RepositoryState} (h : Tracks added j s)
    (sound : s.IsSound) {displaced : Displaced} (new : added.displaced = some displaced) :
    IsSafe j s ((s.undo added.id added.key displaced).dropIfOrphaned added.key) ↔ IsClear added j s := by
  have of := h.displaced displaced new
  have returned := returned_of_displaced new
  constructor
  -- What stands in the way of something put back would not be there afterwards.
  · intro safe
    refine ⟨?_, ?_⟩
    · intro other same id listed concerned record found
      obtain rfl : displaced = other := Option.some.inj (new.symm.trans same)
      have kept := safe.tokens id listed record found
      rw [RepositoryState.tokens_dropIfOrphaned, RepositoryState.tokens_undo s of.distinct, ← returned] at kept
      rcases kept with back | ⟨absent, apart, _⟩
      · exact back
      · rcases concerned with rfl | among
        · exact absurd rfl apart
        · exact absurd among absent
    · intro other same key previous listed before
      obtain rfl : displaced = other := Option.some.inj (new.symm.trans same)
      have kept := safe.keys added.key key listed
      rw [RepositoryState.keys_dropIfOrphaned, Option.ite_none_left_eq_some, RepositoryState.keys_undo, if_pos rfl,
        before, Option.some_or] at kept
      exact Option.some.inj kept.2
  · intro clear
    refine ⟨(h.isSound_undo sound clear new).indexed, ?_, ?_⟩
    · intro id listed record found
      rw [RepositoryState.tokens_dropIfOrphaned, RepositoryState.tokens_undo s of.distinct, ← returned]
      by_cases concerned : id = added.id ∨ id ∈ added.returned
      · exact Or.inl (clear.tokens displaced new id listed concerned record found)
      · rw [not_or] at concerned
        exact Or.inr ⟨concerned.2, Ne.symm concerned.1, found⟩
    · intro name key listed
      rw [← RepositoryState.agreedKey?_eq_some_iff, h.agreedKey?_undo clear new name]
      exact h.keys name key listed

/-- The tokens that are put back are noted in the other journals. -/
theorem Tracks.withdraw {added other : AddedToken} {j k : Journal} {r : Repository} (h : Tracks added j r.state)
    (withdrawn : Tracks other k r.state) (clear : IsClear other k r.state) {host : Host}
    (ok : (r.withdraw host other).result = .ok ()) :
    Tracks added (j.adding (r.withdraw host other).repository.state other.returned)
      (r.withdraw host other).repository.state := by
  cases displaced : other.displaced with
  | none =>
    rw [withdraw_of_again displaced]
    exact h.adding (fun _ _ found => Or.inl found) fun _ => Or.inl ⟨rfl, rfl⟩
  | some d =>
    rw [withdraw_ok displaced ok]
    refine h.adding ?_ fun name => Or.inl ⟨rfl, withdrawn.agreedKey?_undo clear displaced name⟩
    intro id record found
    rw [RepositoryState.tokens_dropIfOrphaned,
      RepositoryState.tokens_undo r.state (withdrawn.displaced d displaced).distinct] at found
    rcases found with back | ⟨_, _, stayed⟩
    · rw [returned_of_displaced displaced]
      exact Or.inr (List.mem_map_of_mem back)
    · exact Or.inl stayed

/-- A withdrawal that the journal is clear of keeps a repository sound. -/
theorem Tracks.isSound_withdraw {added : AddedToken} {j : Journal} {r : Repository} (h : Tracks added j r.state)
    (sound : r.state.IsSound) (clear : IsClear added j r.state) (host : Host) :
    (r.withdraw host added).repository.state.IsSound :=
  withdraw_keeps sound fun _ displaced => h.isSound_undo sound clear displaced

/-- The state stays sound, and every journal keeps pace with it. -/
theorem Careful.isSound_and_tracks {r : Repository} {pending : List (AddedToken × Journal)} (h : Careful r pending) :
    r.state.IsSound ∧ ∀ p ∈ pending, Tracks p.1 p.2 r.state := by
  induction h with
  | start validator store => exact ⟨RepositoryState.IsSound.empty, by simp⟩
  | add before host claims shared senderKey origin added ok ih =>
    obtain ⟨sound, after⟩ := addToken_isSound ih.1 ok
    refine ⟨sound, ?_⟩
    intro p among
    rcases List.mem_cons.mp among with rfl | older
    · exact after.tracks
    · obtain ⟨q, there, rfl⟩ := List.mem_map.mp older
      exact (ih.2 q there).add ih.1 ok
  | withdraw before clear host ok ih =>
    have own := ih.2 _ (List.mem_append_right _ List.mem_cons_self)
    refine ⟨own.isSound_withdraw ih.1 clear host, ?_⟩
    intro p among
    obtain ⟨q, there, rfl⟩ := List.mem_map.mp among
    refine (ih.2 q ?_).withdraw own clear ok
    rcases List.mem_append.mp there with early | late
    · exact List.mem_append_left _ early
    · exact List.mem_append_right _ (List.mem_cons_of_mem _ late)
  | @other r pending before host op ih =>
    refine ⟨(r.changes_carryOut host op).isSound ih.1, ?_⟩
    intro p among
    obtain ⟨q, there, rfl⟩ := List.mem_map.mp among
    exact (ih.2 q there).other ih.1 host op

/-- A withdrawal, whenever it takes place, is safe unless it succeeds though the journal is not clear of it. -/
theorem withdraw_isSafe_iff {r : Repository} {pending : List (AddedToken × Journal)} (h : Careful r pending)
    {added : AddedToken} {j : Journal} (among : (added, j) ∈ pending) (host : Host) :
    IsSafe j r.state (r.withdraw host added).repository.state ↔
      ((r.withdraw host added).result = .ok () → IsClear added j r.state) := by
  obtain ⟨sound, all⟩ := h.isSound_and_tracks
  have tracks : Tracks added j r.state := all _ among
  have unchanged : IsSafe j r.state r.state :=
    ⟨sound.indexed, fun _ _ _ found => found, fun name key listed =>
      (RepositoryState.agreedKey?_eq_some_iff _ name key).mp (tracks.keys name key listed)⟩
  cases displaced : added.displaced with
  | none =>
    rw [withdraw_of_again displaced]
    have clear : IsClear added j r.state := ⟨by simp [displaced], by simp [displaced]⟩
    exact ⟨fun _ _ => clear, fun _ => unchanged⟩
  | some d =>
    cases result : (r.withdraw host added).result with
    | error e =>
      rw [withdraw_error result]
      exact ⟨fun _ ok => absurd ok nofun, fun _ => unchanged⟩
    | ok _ =>
      rw [withdraw_ok displaced result]
      exact (tracks.isSafe_undo_iff sound displaced).trans ⟨fun clear _ => clear, fun clear => clear rfl⟩

namespace Sample

/-- The identifier that the update set free, taken by a token of another key. -/
def reuse : Effect AddedToken := add update.repository 1 0x62 none

def reused : AddedToken := reuse.result.toOption.get (by decide +kernel)

/-- What took place since the update: a token was committed. -/
def journal : Journal := Journal.adding {} reuse.repository.state reused.entered

/-- The token of `a` was added, updated, and its identifier reused. -/
theorem careful_reuse : ∃ pending, Careful reuse.repository pending ∧ (updated, journal) ∈ pending := by
  have provisioned : Careful repository [] := .other (.other (.start _ none) _ _) _ _
  have firstAdded : first.result = .ok (first.result.toOption.get (by decide +kernel)) :=
    eq_ok_of_toOption (Option.some_get _).symm
  have updateAdded : update.result = .ok updated := eq_ok_of_toOption (Option.some_get _).symm
  have reuseAdded : reuse.result = .ok reused := eq_ok_of_toOption (Option.some_get _).symm
  exact ⟨_, .add (.add (.add provisioned {} _ _ _ _ _ firstAdded) {} _ _ _ _ _ updateAdded) {} _ _ _ _ _ reuseAdded,
    List.mem_cons_of_mem _ List.mem_cons_self⟩

/-- The displaced token, and the one that stands in its place. -/
def displaced : Displaced := updated.displaced.get (by decide +kernel)

def standing : TokenRecord := (reuse.repository.state.tokens[(⟨[1]⟩ : TokenId)]?).get (by decide +kernel)

end Sample

/-- An update is withdrawn after the identifier of the token that it replaced was reused: the token of `b` is lost, and that of
`a` is filed under both keys. -/
theorem withdraw_not_isSafe_of_reuse :
    ∃ r pending added j, Careful r pending ∧ (added, j) ∈ pending ∧ ¬IsSafe j r.state (r.withdraw {} added).repository.state ∧
      r.keyOfToken? ⟨[1]⟩ = some ⟨"b"⟩ ∧ (r.withdraw {} added).repository.keyOfToken? ⟨[1]⟩ = some ⟨"a"⟩ ∧
      (r.withdraw {} added).repository.tokensOfKey ⟨"b"⟩ = [⟨[1]⟩] := by
  obtain ⟨pending, run, among⟩ := Sample.careful_reuse
  refine ⟨_, pending, _, _, run, among, ?_, by decide +kernel, by decide +kernel, by decide +kernel⟩
  rw [withdraw_isSafe_iff run among {}]
  intro clear
  have taken : (Sample.reuse.repository.withdraw {} Sample.updated).result.toOption = some () := by decide +kernel
  have listed : Sample.journal.tokens ⟨[1]⟩ := by
    refine ⟨?_, Or.inr (by decide +kernel)⟩
    rw [Std.ExtTreeMap.mem_iff_contains]
    decide +kernel
  have back := (clear (eq_ok_of_toOption taken)).tokens Sample.displaced (Option.some_get _).symm ⟨[1]⟩ listed
    (Or.inr (by decide +kernel)) Sample.standing (Option.some_get _).symm
  have displaced : Sample.displaced.tokens.all (fun p => decide (p.2.key = ⟨"a"⟩)) = true := by decide +kernel
  have standing : Sample.standing.key = ⟨"b"⟩ := by decide +kernel
  have key := of_decide_eq_true (List.all_eq_true.mp displaced _ back)
  rw [standing] at key
  exact absurd key (by decide)

end Repository

end TokenGate
