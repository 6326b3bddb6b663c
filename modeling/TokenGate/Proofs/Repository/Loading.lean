import TokenGate.Proofs.Repository.Consistency

/-!
# Loaded stores

What can be said of a state that was loaded from a file, whatever the file holds. The files of the keys are made up anew, token by
token, as if every identifier were new, but a document may list one identifier several times. The record that comes last replaces
the others, while the identifier stays in the file of each key that it was listed under. So the index agrees with the tokens just
if no identifier is listed under two keys.
-/

namespace TokenGate

namespace StoreDocument

/-- A document that lists a token with an identifier under a key. -/
def Lists (d : StoreDocument) (id : TokenId) (key : KeyName) : Prop :=
  ∃ t ∈ d.tokens, TokenId.ofText? t.id = some id ∧ t.key = key

/-- A document that lists no identifier under two keys. -/
def ListsOnce (d : StoreDocument) : Prop :=
  ∀ id key key', d.Lists id key → d.Lists id key' → key = key'

end StoreDocument

namespace RepositoryState

variable {s s' : RepositoryState}

/-- A state in which only identifiers of tokens are filed, though perhaps under several keys. -/
def FilesTokens (s : RepositoryState) : Prop :=
  ∀ id key, id ∈ s.idsOf key → ∃ record : TokenRecord, s.tokens[id]? = some record

/-- A token that is put in is filed, next to those that are. -/
theorem FilesTokens.insertToken (h : s.FilesTokens) (id : TokenId) (record : TokenRecord) :
    (s.insertToken id record).FilesTokens := by
  intro other key filed
  rw [mem_idsOf_insertToken] at filed
  rw [tokens_insertToken]
  by_cases same : id = other
  · exact ⟨record, if_pos same⟩
  · rw [if_neg same]
    rcases filed with ⟨_, equal⟩ | before
    · exact absurd equal same
    · exact h other key before

/-- Tokens that are put back are filed under the keys they are listed under, and stay filed so. -/
theorem mem_idsOf_of_foldlM {tokens : List StoredToken} (h : tokens.foldlM StoredToken.restore s = .ok s') (id : TokenId)
    (key : KeyName) :
    id ∈ s'.idsOf key ↔ (∃ t ∈ tokens, TokenId.ofText? t.id = some id ∧ t.key = key) ∨ id ∈ s.idsOf key := by
  induction tokens generalizing s with
  | nil =>
    cases h
    simp
  | cons t tokens ih =>
    obtain ⟨next, restored, others⟩ := foldlM_cons_eq_ok.mp h
    obtain ⟨own, record, named, bound, _, _, rfl⟩ := restoreToken_eq_ok restored
    have listed : (record.key = key ∧ own = id) ↔ TokenId.ofText? t.id = some id ∧ t.key = key := by
      rw [named, bound, Option.some.injEq, and_comm]
    rw [ih others, mem_idsOf_insertToken, listed, List.exists_mem_cons_iff, or_assoc, or_left_comm]

variable {document : StoreDocument}

/-- What a document lists is filed as listed, only tokens are filed, and no file is empty. -/
theorem filed_of_restore (h : document.restore = .ok s) :
    (∀ id key, id ∈ s.idsOf key ↔ document.Lists id key) ∧ s.FilesTokens ∧ s.IsFiledBut none := by
  obtain ⟨start, filled, _, unfiled, restored, tokens, byKey, _⟩ := exists_of_restore h
  have files : ∀ key, s.idsOf key = filled.idsOf key := fun key => by rw [idsOf, idsOf, byKey]
  have bare : ∀ id key, id ∉ start.idsOf key := fun id key => by simp [idsOf, unfiled]
  refine ⟨fun id key => ?_, fun id key filed => ?_, fun key spared => ?_⟩
  · rw [files, mem_idsOf_of_foldlM restored id key, or_iff_left (bare id key)]
    rfl
  · have first : start.FilesTokens := fun id key filed => absurd filed (bare id key)
    have last : filled.FilesTokens := by
      refine foldlM_keeps (P := FilesTokens) (fun put before => ?_) restored first
      obtain ⟨own, record, _, _, _, _, rfl⟩ := restoreToken_eq_ok put
      exact before.insertToken own record
    rw [tokens]
    exact last id key (files key ▸ filed)
  · have first : start.IsFiledBut none := fun key _ => by simp [unfiled]
    have last : filled.IsFiledBut none := by
      refine foldlM_keeps (P := fun s => s.IsFiledBut none) (fun put before => ?_) restored first
      obtain ⟨own, record, _, _, _, _, rfl⟩ := restoreToken_eq_ok put
      exact before.insertToken own record
    rw [byKey]
    exact last key spared

/-- The index of a state that was put together from a document agrees with its tokens just if the document lists no identifier under
two keys. -/
theorem isIndexed_iff_of_restore (h : document.restore = .ok s) : s.IsIndexed ↔ document.ListsOnce := by
  obtain ⟨listed, files, _⟩ := filed_of_restore h
  have consistent := isConsistent_of_restore h True
  constructor
  · intro indexed id key key' lists lists'
    obtain ⟨record, found, rfl⟩ := (indexed id key).mp ((listed id key).mpr lists)
    obtain ⟨record', found', rfl⟩ := (indexed id key').mp ((listed id key').mpr lists')
    rw [found] at found'
    cases found'
    rfl
  · intro once id key
    constructor
    · intro filed
      obtain ⟨record, found⟩ := files id key filed
      have own := (listed id record.key).mp (consistent.filed id record found)
      exact ⟨record, found, once id record.key key own ((listed id key).mp filed)⟩
    · rintro ⟨record, found, rfl⟩
      exact consistent.filed id record found

end RepositoryState

namespace Repository

/-- The document in a file, if there is one. -/
def documentIn? (host : Host) (path : DiskPath) : Option StoreDocument :=
  (host.readFile path).toOption.bind StoreDocument.decode?

/-- Whatever is loaded, no file of a key is empty, and each token is in the file of its key, with a key that is there and with the
scope of its claims; and the index agrees with the tokens just if the document lists no identifier under two keys. -/
theorem load_isIndexed_iff {host : Host} {path : DiskPath} {state : RepositoryState} (h : load host path = .ok state) :
    state.IsFiledBut none ∧
    (∀ (id : TokenId) (record : TokenRecord), state.tokens[id]? = some record →
      id ∈ state.idsOf record.key ∧ record.key ∈ state.keys ∧ record.HasOwnScope) ∧
    (state.IsIndexed ↔ ∀ document, documentIn? host path = some document → document.ListsOnce) := by
  have consistent := isConsistent_of_load h True
  have each : ∀ (id : TokenId) (record : TokenRecord), state.tokens[id]? = some record →
      id ∈ state.idsOf record.key ∧ record.key ∈ state.keys ∧ record.HasOwnScope :=
    fun id record found =>
      ⟨consistent.filed id record found, consistent.keyed trivial id record found, consistent.own id record found⟩
  rcases load_ok h with ⟨missing, rfl⟩ | ⟨content, document, there, decoded, restored⟩
  · refine ⟨RepositoryState.IsSound.empty.filed, each, iff_of_true RepositoryState.IsSound.empty.indexed ?_⟩
    intro document found
    rw [documentIn?, missing] at found
    nomatch found
  · refine ⟨(RepositoryState.filed_of_restore restored).2.2, each, (RepositoryState.isIndexed_iff_of_restore restored).trans ?_⟩
    have found : documentIn? host path = some document := by
      rw [documentIn?, there]
      exact decoded
    rw [found]
    simp

namespace Sample

/-- A document with one identifier for a token of the key `a` and for one of the key `b`. -/
def twice : StoreDocument where
  tokens := [⟨"AQ==", "owdBAQihA0FhCWZyX3RlbXA=", ⟨"a"⟩, none⟩, ⟨"AQ==", "owdBAQihA0FiCWNjbzI=", ⟨"b"⟩, none⟩]
  keys := [⟨⟨"a"⟩, "oQGjAQQCQWEgUGFhYWFhYWFhYWFhYWFhYWE=", true⟩, ⟨⟨"b"⟩, "oQGjAQQCQWIgUGJiYmJiYmJiYmJiYmJiYmI=", true⟩]
  senders := ∅
  challenges := ∅

/-- The place of a store file, and a host with the document in it. -/
def storePath : DiskPath := ⟨"tokens.json"⟩

def edited : Host := (({} : Host).replaceFile storePath twice.encode).2

end Sample

/-- The document is loaded. The token is in the file of either key, and the key `b` is the one that it is bound to. -/
theorem load_isIndexed_iff_of_twice :
    ∃ state, load Sample.edited Sample.storePath = .ok state ∧
      (state.idsOf ⟨"a"⟩).toList = [⟨[1]⟩] ∧ (state.idsOf ⟨"b"⟩).toList = [⟨[1]⟩] ∧
      (state.tokens[(⟨[1]⟩ : TokenId)]?).map (·.key) = some ⟨"b"⟩ ∧ ¬state.IsIndexed := by
  have computed : ((load Sample.edited Sample.storePath).toOption.map fun state => ((state.idsOf ⟨"a"⟩).toList,
      (state.idsOf ⟨"b"⟩).toList, (state.tokens[(⟨[1]⟩ : TokenId)]?).map (·.key))) =
        some ([⟨[1]⟩], [⟨[1]⟩], some ⟨"b"⟩) := by decide +kernel
  have content : Sample.edited.readFile Sample.storePath = .ok Sample.twice.encode := by decide +kernel
  obtain ⟨state, found, files⟩ := Option.map_eq_some_iff.mp computed
  rw [Prod.mk.injEq, Prod.mk.injEq] at files
  have loads := eq_ok_of_toOption found
  refine ⟨state, loads, files.1, files.2.1, files.2.2, fun indexed => ?_⟩
  have there : documentIn? Sample.edited Sample.storePath = some Sample.twice := by
    rw [documentIn?, content, Except.toOption, Option.bind_some, StoreDocument.decode?_encode]
  have once := (load_isIndexed_iff loads).2.2.mp indexed _ there
  have same := once ⟨[1]⟩ ⟨"a"⟩ ⟨"b"⟩ ⟨_, List.mem_cons_self, by decide, rfl⟩
    ⟨_, List.mem_cons_of_mem _ List.mem_cons_self, by decide, rfl⟩
  exact absurd same (by decide)

end Repository

end TokenGate
