import TokenGate.Proofs.Repository.Documents
import TokenGate.Proofs.Repository.Runs

/-!
# Whatever was withdrawn

A token that is withdrawn late, after other operations, may leave tokens in the files of other keys, and in the end a token whose key
is gone. `IsConsistent` says what still holds then, of a state that was reached by any operations or put together from any document:
every token is in the file of its own key, and its scope is that of its claims. As long as tokens are only withdrawn promptly, the
key of every token is there as well.
-/

namespace TokenGate

/-- A record whose scope is that of its claims. -/
def TokenRecord.HasOwnScope (record : TokenRecord) : Prop := StoredToken.scopeOf? record.claims = some record.scope

namespace RepositoryState

/-- What holds of a state whatever tokens were withdrawn from it, and as long as they were only withdrawn promptly. -/
structure IsConsistent (prompt : Prop) (s : RepositoryState) : Prop where
  filed : ∀ (id : TokenId) (record : TokenRecord), s.tokens[id]? = some record → id ∈ s.idsOf record.key
  own : ∀ (id : TokenId) (record : TokenRecord), s.tokens[id]? = some record → record.HasOwnScope
  keyed : prompt → ∀ (id : TokenId) (record : TokenRecord), s.tokens[id]? = some record → record.key ∈ s.keys

variable {prompt : Prop} {s s' : RepositoryState}

/-- A state without tokens is consistent. -/
theorem IsConsistent.empty (prompt : Prop) : IsConsistent prompt {} where
  filed id record found := by simp at found
  own id record found := by simp at found
  keyed _ id record found := by simp at found

/-- A state is consistent if all its tokens are of a state that is, and their files and keys are there as they were. -/
theorem IsConsistent.of_fewer (h : s.IsConsistent prompt)
    (fewer : ∀ (id : TokenId) (record : TokenRecord), s'.tokens[id]? = some record → s.tokens[id]? = some record ∧
      (id ∈ s.idsOf record.key → id ∈ s'.idsOf record.key) ∧ (record.key ∈ s.keys → record.key ∈ s'.keys)) :
    s'.IsConsistent prompt where
  filed := by
    intro id record found
    obtain ⟨there, files, _⟩ := fewer id record found
    exact files (h.filed id record there)
  own id record found := h.own id record (fewer id record found).1
  keyed := by
    intro promptly id record found
    obtain ⟨there, _, keys⟩ := fewer id record found
    exact keys (h.keyed promptly id record there)

/-- A state with other channels, other challenges and more keys is consistent. -/
theorem IsConsistent.congr (h : s.IsConsistent prompt) (tokens : s'.tokens = s.tokens) (byKey : s'.byKey = s.byKey)
    (keys : ∀ key, key ∈ s.keys → key ∈ s'.keys) : s'.IsConsistent prompt := by
  refine h.of_fewer fun id record found => ⟨tokens ▸ found, fun filed => ?_, keys record.key⟩
  rw [idsOf, byKey]
  exact filed

/-- A token that has its own scope, and whose key is known, may be put in. -/
theorem IsConsistent.insertToken (h : s.IsConsistent prompt) {id : TokenId} {record : TokenRecord} (own : record.HasOwnScope)
    (known : prompt → record.key ∈ s.keys) : (s.insertToken id record).IsConsistent prompt where
  filed := by
    intro other found lookup
    rw [tokens_insertToken] at lookup
    rw [mem_idsOf_insertToken]
    split at lookup
    · rename_i same
      cases lookup
      exact Or.inl ⟨rfl, same⟩
    · exact Or.inr (h.filed other found lookup)
  own := by
    intro other found lookup
    rw [tokens_insertToken] at lookup
    split at lookup
    · cases lookup
      exact own
    · exact h.own other found lookup
  keyed := by
    intro promptly other found lookup
    rw [tokens_insertToken] at lookup
    split at lookup
    · cases lookup
      exact known promptly
    · exact h.keyed promptly other found lookup

/-! ## Taking tokens out -/

/-- It does no harm to take a token out of a file that is not its own. -/
theorem IsConsistent.takeOut (h : s.IsConsistent prompt) (id : TokenId) (key : KeyName) : (s.takeOut id key).IsConsistent prompt := by
  refine h.of_fewer fun other record found => ?_
  rw [tokens_takeOut, Option.ite_none_left_eq_some] at found
  exact ⟨found.2, fun filed => (mem_idsOf_takeOut s id other key _).mpr ⟨filed, fun both => found.1 both.2⟩, fun known => known⟩

/-- A key with a token is in use, since the token is in its file. -/
theorem IsConsistent.dropIfOrphaned (h : s.IsConsistent prompt) (key : KeyName) : (s.dropIfOrphaned key).IsConsistent prompt := by
  refine h.of_fewer fun id record found => ?_
  rw [tokens_dropIfOrphaned] at found
  refine ⟨found, (mem_idsOf_dropIfOrphaned s id key _).mpr, fun known => ?_⟩
  rw [Std.ExtTreeMap.mem_iff_isSome_getElem?] at known ⊢
  rw [keys_dropIfOrphaned, if_neg]
  · exact known
  · rintro ⟨rfl, orphan⟩
    exact ((isOrphan_eq_true_iff s _).mp orphan).1 id (h.filed id record found)

theorem IsConsistent.removeToken (h : s.IsConsistent prompt) (id : TokenId) : (s.removeToken id).IsConsistent prompt := by
  rw [RepositoryState.removeToken, removeToken?_eq]
  cases s.tokens[id]? with
  | none => exact h
  | some record => exact (h.takeOut id record.key).dropIfOrphaned record.key

theorem IsConsistent.sweep (h : s.IsConsistent prompt) (now : UInt64) : (s.sweep now).IsConsistent prompt := by
  unfold RepositoryState.sweep
  generalize s.expired now = ids
  induction ids generalizing s with
  | nil => exact h
  | cons id ids ih => exact ih (h.removeToken id)

/-! ## Adding and withdrawing -/

/-- A token that the state admits keeps it consistent. -/
theorem IsConsistent.withToken (h : s.IsConsistent prompt) {t : Submission} {isUpdate : Bool} (admits : s.Admits t isUpdate) :
    (s.withToken t isUpdate).IsConsistent prompt := by
  have cleared : (if isUpdate then s.clearTokens t.key else s).IsConsistent prompt := by
    split
    · refine h.of_fewer fun id record found => ?_
      rw [tokens_clearTokens, Option.ite_none_left_eq_some] at found
      obtain ⟨apart, there⟩ := found
      refine ⟨there, fun filed => (mem_idsOf_clearTokens s t.key _ id).mpr ⟨?_, filed⟩, fun known => known⟩
      intro same
      rw [same] at apart
      exact apart filed
    · exact h
  have keys : (if isUpdate then s.clearTokens t.key else s).keys = s.keys := by split <;> rfl
  have learned := cleared.congr (tokens_learnKey _ t) (byKey_learnKey _ t) fun key => mem_keys_learnKey
  refine learned.insertToken (StoredToken.scopeOf?_of_isOf admits.own) fun _ => mem_keys_learnKey_self fun carried => ?_
  rw [keys]
  exact admits.known carried

/-- Tokens may be put back whatever has taken their places. -/
theorem IsConsistent.putBack (h : s.IsConsistent prompt) {tokens : List (TokenId × TokenRecord)}
    (own : ∀ p ∈ tokens, p.2.HasOwnScope) (keyed : prompt → ∀ p ∈ tokens, p.2.key ∈ s.keys) :
    (s.putBack tokens).IsConsistent prompt := by
  induction tokens generalizing s with
  | nil => exact h
  | cons p rest ih =>
    rw [List.forall_mem_cons] at own
    have first : (s.insertToken p.1 p.2).IsConsistent prompt :=
      h.insertToken own.1 fun promptly => keyed promptly p List.mem_cons_self
    exact ih first own.2 fun promptly q among => keyed promptly q (List.mem_cons_of_mem _ among)

/-- An addition may be undone however late, if the keys of the tokens that are put back are there, or late withdrawals are
allowed for. -/
theorem IsConsistent.undo (h : s.IsConsistent prompt) {id : TokenId} {key : KeyName} {displaced : Displaced}
    (own : ∀ p ∈ displaced.tokens, p.2.HasOwnScope) (keyed : prompt → ∀ p ∈ displaced.tokens, p.2.key ∈ s.keys) :
    ((s.undo id key displaced).dropIfOrphaned key).IsConsistent prompt := by
  refine IsConsistent.dropIfOrphaned ?_ key
  have without : (if s.tokens.contains id then s.takeOut id key else s).IsConsistent prompt := by
    split
    · exact h.takeOut id key
    · exact h
  have back := without.putBack own fun promptly p among => by
    split
    · exact keyed promptly p among
    · exact keyed promptly p among
  unfold RepositoryState.undo
  cases displaced.key with
  | none => exact back
  | some bound => exact back.congr rfl rfl fun other known => Std.ExtTreeMap.mem_insert.mpr (Or.inr known)

/-! ## Documents -/

/-- The identifier of a kept token is read from its text. -/
theorem ofText?_of_claims? {t : StoredToken} {id : TokenId} {claims : Claims} (read : t.claims? = .ok (id, claims)) :
    TokenId.ofText? t.id = some id := by
  unfold StoredToken.claims? at read
  split at read
  · nomatch read
  · rename_i own named
    split at read
    · nomatch read
    · rename_i bytes _
      cases decoded : Claims.decode bytes with
      | error e =>
        rw [decoded] at read
        nomatch read
      | ok found =>
        rw [decoded] at read
        cases read
        exact named

/-- A kept token that is put back is put in under its identifier, with the scope of its claims, if its key is there. -/
theorem restoreToken_eq_ok {t : StoredToken} (h : t.restore s = .ok s') :
    ∃ id record, TokenId.ofText? t.id = some id ∧ record.key = t.key ∧ record.HasOwnScope ∧ record.key ∈ s.keys ∧
      s' = s.insertToken id record := by
  unfold StoredToken.restore at h
  cases read : t.claims? with
  | error e =>
    rw [read] at h
    nomatch h
  | ok p =>
    obtain ⟨id, claims⟩ := p
    have named := ofText?_of_claims? read
    simp only [read, bind, Except.bind] at h
    cases parsed : StoredToken.scopeOf? claims with
    | none =>
      rw [parsed] at h
      nomatch h
    | some scope =>
      simp only [parsed] at h
      split at h
      · rename_i known
        cases h
        exact ⟨id, ⟨claims, scope, t.key, _⟩, named, rfl, parsed, Std.ExtTreeMap.contains_iff_mem.mp known, rfl⟩
      · nomatch h

/-- A state that was put together from a document has the tokens of the document, put back one after the other into a state without
tokens. -/
theorem exists_of_restore {document : StoreDocument} (h : document.restore = .ok s) :
    ∃ start filled : RepositoryState, start.tokens = ∅ ∧ start.byKey = ∅ ∧
      document.tokens.foldlM StoredToken.restore start = .ok filled ∧
        s.tokens = filled.tokens ∧ s.byKey = filled.byKey ∧ s.keys = filled.keys := by
  unfold StoreDocument.restore at h
  cases keys : document.keys.foldlM StoredKey.restore {} with
  | error e =>
    rw [keys] at h
    nomatch h
  | ok start =>
    simp only [keys, bind, Except.bind] at h
    cases tokens : document.tokens.foldlM StoredToken.restore start with
    | error e =>
      rw [tokens] at h
      nomatch h
    | ok filled =>
      simp only [tokens] at h
      have bare : start.tokens = ∅ ∧ start.byKey = ∅ := by
        refine foldlM_keeps (P := fun s => s.tokens = ∅ ∧ s.byKey = ∅) (fun {made k next} restored before => ?_) keys ⟨rfl, rfl⟩
        unfold StoredKey.restore at restored
        cases key : StoredKey.keyOf k.cnf with
        | error e =>
          rw [key] at restored
          nomatch restored
        | ok key' =>
          rw [key] at restored
          cases restored
          exact before
      refine ⟨start, filled, bare.1, bare.2, tokens, ?_⟩
      refine foldlM_keeps (P := fun s => s.tokens = filled.tokens ∧ s.byKey = filled.byKey ∧ s.keys = filled.keys)
        (fun {made kept next} restored before => ?_) h ⟨rfl, rfl, rfl⟩
      unfold StoreDocument.restoreChallenge at restored
      split at restored
      · cases restored
        exact before
      · nomatch restored

/-- A state that was put together from a document, whatever its content, is consistent. -/
theorem isConsistent_of_restore {document : StoreDocument} (h : document.restore = .ok s) (prompt : Prop) :
    s.IsConsistent prompt := by
  obtain ⟨start, filled, bare, unfiled, restored, tokens, byKey, keys⟩ := exists_of_restore h
  have first : start.IsConsistent prompt := by
    refine (IsConsistent.empty prompt).of_fewer fun id record found => ?_
    rw [bare] at found
    simp at found
  have second : filled.IsConsistent prompt := by
    refine foldlM_keeps (P := IsConsistent prompt) (fun restored before => ?_) restored first
    obtain ⟨id, record, _, _, own, known, rfl⟩ := restoreToken_eq_ok restored
    exact before.insertToken own fun _ => known
  exact second.congr tokens byKey fun _ known => keys ▸ known

end RepositoryState

namespace Repository

open RepositoryState

variable {prompt : Prop} {r : Repository}

/-! ## Operations -/

/-- A state that was loaded is that of a new repository, if there is no file, or was put together from the document in the file. -/
theorem load_ok {host : Host} {path : DiskPath} {state : RepositoryState} (h : load host path = .ok state) :
    (host.readFile path = .error .missing ∧ state = {}) ∨
    ∃ content document, host.readFile path = .ok content ∧ StoreDocument.decode? content = some document ∧
      document.restore = .ok state := by
  unfold load at h
  split at h
  · rename_i missing
    cases h
    exact Or.inl ⟨missing, rfl⟩
  · nomatch h
  · rename_i content there
    split at h
    · nomatch h
    · rename_i document decoded
      cases restored : document.restore with
      | error e =>
        rw [restored] at h
        nomatch h
      | ok state' =>
        rw [restored] at h
        cases h
        exact Or.inr ⟨content, document, there, decoded, restored⟩

/-- A state that was loaded, from whatever file, is consistent. -/
theorem isConsistent_of_load {host : Host} {path : DiskPath} {state : RepositoryState} (h : load host path = .ok state)
    (prompt : Prop) : state.IsConsistent prompt := by
  rcases load_ok h with ⟨_, rfl⟩ | ⟨_, _, _, _, restored⟩
  · exact .empty prompt
  · exact isConsistent_of_restore restored prompt

/-- An operation other than adding and withdrawing keeps a state consistent. -/
theorem Operation.Changes.isConsistent {op : Operation} {s s' : RepositoryState} (h : op.Changes s s')
    (consistent : s.IsConsistent prompt) : s'.IsConsistent prompt := by
  cases h with
  | nothing => exact consistent
  | remove id => exact consistent.removeToken id
  | purge now => exact consistent.sweep now
  | provision named => exact consistent.congr rfl rfl fun key known => Std.ExtTreeMap.mem_insert.mpr (Or.inr known)
  | bind sender key => exact consistent.congr rfl rfl fun _ known => known
  | unbind sender => exact consistent.congr rfl rfl fun _ known => known
  | challenge key challenge => exact consistent.congr rfl rfl fun _ known => known

/-- What an added token displaced can be put back into a state: it has its own scopes, and its keys are there, or late withdrawals
are allowed for. -/
structure Fits (prompt : Prop) (added : AddedToken) (s : RepositoryState) : Prop where
  own : ∀ displaced, added.displaced = some displaced → ∀ p ∈ displaced.tokens, p.2.HasOwnScope
  keyed : prompt → ∀ displaced, added.displaced = some displaced → ∀ p ∈ displaced.tokens, p.2.key ∈ s.keys

/-- Where tokens may be withdrawn late, it does not matter when. -/
theorem Fits.late {added : AddedToken} {s : RepositoryState} (h : Fits prompt added s) (s' : RepositoryState) : Fits False added s' :=
  ⟨h.own, False.elim⟩

/-- What fits a state fits any other one with the same keys. -/
theorem Fits.congr {added : AddedToken} {s s' : RepositoryState} (h : Fits prompt added s) (keys : s'.keys = s.keys) :
    Fits prompt added s' :=
  ⟨h.own, keys ▸ h.keyed⟩

/-- An addition keeps a state consistent, and what it displaced can be put back. -/
theorem addToken_isConsistent (consistent : r.state.IsConsistent prompt) (host : Host) (claims : Claims) (shared : SharedKey)
    (senderKey : Option KeyName) (origin : TokenOrigin) :
    (r.addToken host claims shared senderKey origin).repository.state.IsConsistent prompt ∧
      ∀ added, (r.addToken host claims shared senderKey origin).result = .ok added →
        Fits prompt added (r.addToken host claims shared senderKey origin).repository.state := by
  have swept := consistent.sweep host.clock
  refine ⟨addToken_keeps consistent fun t isUpdate admits => swept.withToken admits, fun added ok => ?_⟩
  obtain ⟨_, t, outcome, _, adds, rfl, counted⟩ := addToken_ok ok
  rw [counted]
  cases adds with
  | again known there => exact ⟨nofun, nofun⟩
  | anew isUpdate decided admits =>
    have there : ∀ displaced, some ((r.state.sweep host.clock).displacedBy t isUpdate) = some displaced →
        ∀ p ∈ displaced.tokens, (r.state.sweep host.clock).tokens[p.1]? = some p.2 := by
      rintro _ ⟨⟩ p among
      unfold displacedBy tokensOf at among
      split at among
      · obtain ⟨id, _, found⟩ := List.mem_filterMap.mp among
        obtain ⟨record, lookup, rfl⟩ := Option.map_eq_some_iff.mp found
        exact lookup
      · nomatch among
    refine ⟨fun displaced new p among => swept.own p.1 p.2 (there displaced new p among), fun promptly displaced new p among => ?_⟩
    have known := mem_keys_learnKey (t := t) (swept.keyed promptly p.1 p.2 (there displaced new p among))
    rw [Std.ExtTreeMap.mem_iff_isSome_getElem?] at known ⊢
    rw [Outcome.changed, Option.getD_some, keys_withToken]
    exact known

/-- A withdrawal keeps a state consistent, however late, if what was displaced can be put back. -/
theorem withdraw_isConsistent (consistent : r.state.IsConsistent prompt) {added : AddedToken} (fits : Fits prompt added r.state)
    (host : Host) : (r.withdraw host added).repository.state.IsConsistent prompt :=
  withdraw_keeps consistent fun displaced new => consistent.undo (fits.own displaced new) fun promptly => fits.keyed promptly displaced new

end Repository

end TokenGate
