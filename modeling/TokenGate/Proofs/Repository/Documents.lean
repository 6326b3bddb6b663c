import TokenGate.Proofs.Claims.Decoded
import TokenGate.Proofs.Json.Values
import TokenGate.Proofs.Lists
import TokenGate.Proofs.Repository.Index
import TokenGate.Proofs.Text.Base64
import TokenGate.Repository.Document

/-!
# Store documents read back

Every document is read back from its bytes, and the state that is kept in it is put together again: first the keys, then the tokens,
each of which finds its key there, and then all else. The files of the keys follow from the tokens.
-/

namespace TokenGate

namespace Json

/-- A text is read back. -/
theorem text?_ofText (s : String) : (ofText s).text? = some s := unescape?_escape s

/-- The members of an object are read back. -/
theorem members?_ofMembers (members : List (String × Json)) : (ofMembers members).members? = some members := by
  rw [ofMembers, members?]
  refine mapM_map_eq_some fun member _ => ?_
  simp only [unescape?_escape, Option.map_some]

/-- The parts of a record are read back by their names. -/
theorem parts?_ofMembers (names : List String) (members : List (String × Json)) :
    (ofMembers members).parts? names = names.mapM fun name =>
      match members.filter fun member => member.1 == name with
      | [] => some none
      | [(_, part)] => some (some part)
      | _ => none := by
  have all := members?_ofMembers members
  rw [ofMembers] at all ⊢
  rw [parts?, all]
  · rfl
  · nofun

/-- An object of readable members can be read. -/
theorem isReadable_ofMembers {depth : Nat} {members : List (String × Json)} (values : ∀ m ∈ members, m.2.IsReadable depth) :
    (ofMembers members).IsReadable (depth + 1) := by
  refine .object (fun m among => ?_) fun m among => ?_
  · obtain ⟨member, _, rfl⟩ := List.mem_map.mp among
    exact ⟨member.1, rfl⟩
  · obtain ⟨member, listed, rfl⟩ := List.mem_map.mp among
    exact values member listed

end Json

namespace StoredToken

/-- A reference is read back. -/
theorem reference?_ofText (text : String) : reference? (some (.ofText text)) = some (some text) :=
  congrArg (Option.map some) (Json.text?_ofText text)

/-- A token is read back. -/
theorem ofJson?_toJson (t : StoredToken) : ofJson? t.toJson = some t := by
  obtain ⟨id, claims, ⟨key⟩, reference⟩ := t
  cases reference with
  | none =>
    rw [ofJson?, toJson, Json.parts?_ofMembers]
    simp [Json.text?_ofText, reference?]
  | some text =>
    rw [ofJson?, toJson, Json.parts?_ofMembers]
    simp [Json.text?_ofText, reference?_ofText]

/-- The value that a token is written as can be read. -/
theorem isReadable_toJson (t : StoredToken) : t.toJson.IsReadable 2 := by
  have text : ∀ s, (Json.ofText s).IsReadable 1 := Json.IsReadable.text 0
  refine Json.isReadable_ofMembers ?_
  cases t.reference with
  | none =>
    simp only [List.append_nil, List.forall_mem_cons]
    exact ⟨text _, text _, text _, nofun⟩
  | some reference =>
    simp only [List.cons_append, List.nil_append, List.forall_mem_cons]
    exact ⟨text _, text _, text _, text _, nofun⟩

end StoredToken

namespace StoredKey

/-- A key is read back. -/
theorem ofJson?_toJson (k : StoredKey) : ofJson? k.toJson = some k := by
  obtain ⟨⟨name⟩, cnf, provisioned⟩ := k
  rw [ofJson?, toJson, Json.parts?_ofMembers]
  simp [Json.text?_ofText, Json.bool?]

/-- The value that a key is written as can be read. -/
theorem isReadable_toJson (k : StoredKey) : k.toJson.IsReadable 2 := by
  refine Json.isReadable_ofMembers ?_
  simp only [List.forall_mem_cons]
  exact ⟨.text 0 _, .text 0 _, .bool 0 _, nofun⟩

end StoredKey

namespace StoreDocument

/-- Pairs of texts are read back. -/
theorem texts?_ofMembers (texts : List (String × String)) :
    texts? (some (.ofMembers (texts.map fun (name, text) => (name, .ofText text)))) = some texts := by
  rw [texts?, Json.members?_ofMembers, Option.bind_eq_bind, Option.bind_some]
  exact mapM_map_eq_some fun e _ => congrArg (Option.map (e.1, ·)) (Json.text?_ofText e.2)

/-- Senders are read back, with the names of their keys. -/
theorem texts?_senders (senders : Std.ExtTreeMap String KeyName) :
    texts? (some (.ofMembers (senders.toList.map fun (sender, key) => (sender, .ofText key.text)))) =
      some (senders.toList.map fun (sender, key) => (sender, key.text)) := by
  have all := texts?_ofMembers (senders.toList.map fun (sender, key) => (sender, key.text))
  rw [List.map_map] at all
  exact all

theorem texts?_challenges (challenges : Std.ExtTreeMap KeyName String) :
    texts? (some (.ofMembers (challenges.toList.map fun (key, challenge) => (key.text, .ofText challenge)))) =
      some (challenges.toList.map fun (key, challenge) => (key.text, challenge)) := by
  have all := texts?_ofMembers (challenges.toList.map fun (key, challenge) => (key.text, challenge))
  rw [List.map_map] at all
  exact all

/-- A document is read back from its value. -/
theorem ofJson?_toJson (d : StoreDocument) : ofJson? d.toJson = some d := by
  obtain ⟨tokens, keys, senders, challenges⟩ := d
  have tokens' : (tokens.map StoredToken.toJson).mapM StoredToken.ofJson? = some tokens :=
    mapM_map_eq_some fun t _ => t.ofJson?_toJson
  have keys' : (keys.map StoredKey.toJson).mapM StoredKey.ofJson? = some keys :=
    mapM_map_eq_some fun k _ => k.ofJson?_toJson
  have senders' : Std.ExtTreeMap.ofList
      ((senders.toList.map fun (sender, key) => (sender, key.text)).map fun (sender, key) => (sender, KeyName.mk key)) =
        senders := by
    rw [List.map_map]
    exact (congrArg (Std.ExtTreeMap.ofList · compare) (List.map_id senders.toList)).trans (ofList_toList senders)
  have challenges' : Std.ExtTreeMap.ofList
      ((challenges.toList.map fun (key, challenge) => (key.text, challenge)).map fun (key, challenge) => (KeyName.mk key, challenge)) =
        challenges := by
    rw [List.map_map]
    exact (congrArg (Std.ExtTreeMap.ofList · compare) (List.map_id challenges.toList)).trans (ofList_toList challenges)
  have parts : Json.parts? ["tokens", "keys", "senders", "challenges"] (toJson ⟨tokens, keys, senders, challenges⟩) =
      some [some (.array (tokens.map StoredToken.toJson)), some (.array (keys.map StoredKey.toJson)),
        some (.ofMembers (senders.toList.map fun (sender, key) => (sender, .ofText key.text))),
        some (.ofMembers (challenges.toList.map fun (key, challenge) => (key.text, .ofText challenge)))] := by
    rw [toJson, Json.parts?_ofMembers]
    rfl
  rw [ofJson?, parts]
  simp only [Option.bind_eq_bind, Option.bind_some, Json.items?, texts?_senders, texts?_challenges, tokens', keys', senders',
    challenges']

/-- The value that a document is written as can be read. -/
theorem isReadable_toJson (d : StoreDocument) : d.toJson.IsReadable 4 := by
  have texts : ∀ texts : List (String × String),
      (Json.ofMembers (texts.map fun (name, text) => (name, .ofText text))).IsReadable 3 := by
    intro texts
    refine Json.isReadable_ofMembers fun m among => ?_
    obtain ⟨e, _, rfl⟩ := List.mem_map.mp among
    exact .text 1 e.2
  have senders := texts (d.senders.toList.map fun e => (e.1, e.2.text))
  have challenges := texts (d.challenges.toList.map fun e => (e.1.text, e.2))
  rw [List.map_map] at senders challenges
  refine Json.isReadable_ofMembers ?_
  simp only [List.forall_mem_cons]
  refine ⟨.array fun v among => ?_, .array fun v among => ?_, senders, challenges, nofun⟩
  · obtain ⟨t, _, rfl⟩ := List.mem_map.mp among
    exact t.isReadable_toJson
  · obtain ⟨k, _, rfl⟩ := List.mem_map.mp among
    exact k.isReadable_toJson

/-- A document is read back from its bytes. -/
theorem decode?_encode (d : StoreDocument) : decode? d.encode = some d := by
  have enough : 4 ≤ d.toJson.encode.length + 1 := by
    simp only [Json.encode, toJson, Json.ofMembers, List.map_cons, Json.render, Json.newline, List.length_append, List.length_cons,
      List.length_replicate]
    omega
  rw [decode?, encode, d.isReadable_toJson.decode?_encode enough, Option.bind_some, ofJson?_toJson]

end StoreDocument

/-! ## States -/

/-- A key is read back from its confirmation. -/
theorem PopKey.ofConfirmation?_toConfirmation (key : PopKey) : ofConfirmation? key.toConfirmation = some key := by
  cases key <;> rfl

/-- A kept key is put back. -/
theorem StoredKey.exists_restore {name : KeyName} {bound : BoundKey} (h : bound.key.IsReadBack) :
    ∃ stored, ofBoundKey name bound = .ok stored ∧
      ∀ s : RepositoryState, restore s stored = .ok { s with keys := s.keys.insert name bound } := by
  obtain ⟨v, written, decoded, again⟩ := h
  have key : keyOf (Text.Base64.encode v.encode) = .ok bound.key := by
    rw [keyOf, Text.Base64.decode?_encode, Option.bind_some, decoded]
    simp only [again, Except.toOption, Option.bind_some, PopKey.ofConfirmation?_toConfirmation]
  refine ⟨⟨name, Text.Base64.encode v.encode, bound.provisioned⟩, ?_, fun s => ?_⟩
  · simp only [ofBoundKey, written, bind, Except.bind]
  · simp only [restore, key, bind, Except.bind]

/-- The scope of a token is read back from its claims. -/
theorem StoredToken.scopeOf?_of_isOf {id : TokenId} {record : TokenRecord} (own : record.IsOf id) :
    scopeOf? record.claims = some record.scope := by
  obtain ⟨claim, present, parsed⟩ := Option.map_eq_some_iff.mp own.scope
  rw [scopeOf?, present, Option.bind_some, parsed]
  rfl

/-- The origin of a token by its reference. -/
def StoredToken.originOf : Option String → TokenOrigin
  | some text => .reference text
  | none => .selfContained

/-- A token is put back if its identifier and its claims are read back, and its key is there. -/
theorem StoredToken.restore_eq {t : StoredToken} {id : TokenId} {claims : Claims} {scope : Scope} {s : RepositoryState}
    (read : t.claims? = .ok (id, claims)) (parsed : scopeOf? claims = some scope) (known : t.key ∈ s.keys) :
    t.restore s = .ok (s.insertToken id { claims, scope, key := t.key, origin := originOf t.reference }) := by
  have there : s.keys.contains t.key = true := Std.ExtTreeMap.contains_iff_mem.mpr known
  simp only [restore, read, parsed, there, bind, Except.bind, if_true]
  cases t.reference <;> rfl

/-- A kept token is put back if its key is there. -/
theorem StoredToken.exists_restore {id : TokenId} {record : TokenRecord} (own : record.IsOf id) (h : record.claims.IsReadBack) :
    ∃ stored, ofRecord id record = .ok stored ∧
      ∀ s : RepositoryState, record.key ∈ s.keys → restore s stored = .ok (s.insertToken id record) := by
  obtain ⟨bs, written, again⟩ := h
  have parsed := scopeOf?_of_isOf own
  obtain ⟨claims, scope, key, origin⟩ := record
  have read : ∀ reference, claims? ⟨id.toText, Text.Base64.encode bs, key, reference⟩ = .ok (id, claims) := by
    intro reference
    simp only [claims?, TokenId.ofText?, TokenId.toText, Text.Base64.decode?_encode, Option.map_some]
    rw [again]
    rfl
  cases origin with
  | selfContained =>
    refine ⟨⟨id.toText, Text.Base64.encode bs, key, none⟩, ?_, fun s known => restore_eq (read none) parsed known⟩
    simp only [ofRecord, written, bind, Except.bind]
  | reference text =>
    refine ⟨⟨id.toText, Text.Base64.encode bs, key, some text⟩, ?_, fun s known => restore_eq (read (some text)) parsed known⟩
    simp only [ofRecord, written, bind, Except.bind]

namespace RepositoryState

/-- A state all of whose tokens and keys are read back. -/
structure IsReadBack (s : RepositoryState) : Prop where
  tokens : ∀ (id : TokenId) (record : TokenRecord), s.tokens[id]? = some record → record.claims.IsReadBack
  keys : ∀ (name : KeyName) (bound : BoundKey), s.keys[name]? = some bound → bound.key.IsReadBack

/-- The keys of a state are put back. -/
theorem IsReadBack.exists_keys {s : RepositoryState} (h : s.IsReadBack) :
    ∃ keys, s.keys.toList.mapM (fun (name, bound) => StoredKey.ofBoundKey name bound) = .ok keys ∧
      keys.foldlM StoredKey.restore {} = .ok { keys := s.keys } := by
  let put (made : RepositoryState) (e : KeyName × BoundKey) := { made with keys := made.keys.insert e.1 e.2 }
  have each : ∀ e ∈ s.keys.toList, ∃ stored, StoredKey.ofBoundKey e.1 e.2 = .ok stored ∧
      ∀ made, True → StoredKey.restore made stored = .ok (put made e) ∧ True := by
    intro e among
    obtain ⟨stored, written, restored⟩ :=
      StoredKey.exists_restore (h.keys e.1 e.2 (Std.ExtTreeMap.mem_toList_iff_getElem?_eq_some.mp among))
    exact ⟨stored, written, fun made _ => ⟨restored made, trivial⟩⟩
  obtain ⟨keys, written, back⟩ := exists_mapM_foldlM (fun (name, bound) => StoredKey.ofBoundKey name bound) StoredKey.restore
    put (fun _ => True) each
  have all : s.keys.toList.foldl put {} = { keys := s.keys.toList.foldl (fun made e => made.insert e.1 e.2) ∅ } :=
    List.foldl_hom (fun keys => ({ keys } : RepositoryState)) fun _ _ => rfl
  refine ⟨keys, written, ?_⟩
  rw [(back {} trivial).1, all, foldl_insert_toList]

/-- The tokens of a state are put back where its keys are. -/
theorem IsReadBack.exists_tokens {s : RepositoryState} (h : s.IsReadBack) (sound : s.IsSound) :
    ∃ tokens, s.tokens.toList.mapM (fun (id, record) => StoredToken.ofRecord id record) = .ok tokens ∧
      tokens.foldlM StoredToken.restore { keys := s.keys } =
        .ok { tokens := s.tokens, byKey := s.byKey, keys := s.keys } := by
  let put (made : RepositoryState) (e : TokenId × TokenRecord) := made.insertToken e.1 e.2
  -- What has been put back is sound at every step, since it has no token that the whole state does not have.
  let Partial (made : RepositoryState) : Prop :=
    made.IsSound ∧ (made.keys = s.keys ∧ made.senders = ∅ ∧ made.challenges = ∅) ∧
      ∀ (id : TokenId) (record : TokenRecord), made.tokens[id]? = some record → s.tokens[id]? = some record
  have each : ∀ e ∈ s.tokens.toList, ∃ stored, StoredToken.ofRecord e.1 e.2 = .ok stored ∧
      ∀ made, Partial made → StoredToken.restore made stored = .ok (put made e) ∧ Partial (put made e) := by
    rintro ⟨id, record⟩ among
    have found := Std.ExtTreeMap.mem_toList_iff_getElem?_eq_some.mp among
    obtain ⟨stored, written, restored⟩ := StoredToken.exists_restore (sound.own id record found) (h.tokens id record found)
    refine ⟨stored, written, ?_⟩
    rintro made ⟨soundly, keys, sub⟩
    have known : record.key ∈ made.keys := keys.1 ▸ sound.keyed id record found
    refine ⟨restored made known, soundly.insertToken ?_ known (sound.own id record found), keys, ?_⟩
    · intro old there
      rw [Option.some.inj ((sub id old there).symm.trans found)]
    · intro other record' there
      rw [tokens_insertToken] at there
      split at there
      · rename_i same
        cases there
        exact same ▸ found
      · exact sub other record' there
  obtain ⟨tokens, written, back⟩ := exists_mapM_foldlM (fun (id, record) => StoredToken.ofRecord id record) StoredToken.restore
    put Partial each
  have start : Partial { keys := s.keys } :=
    ⟨IsSound.empty.congr rfl rfl fun _ none => absurd none Std.ExtTreeMap.not_mem_empty, ⟨rfl, rfl, rfl⟩,
      fun id record there => by simp at there⟩
  obtain ⟨restored, soundly, ⟨keys, senders, challenges⟩, _⟩ := back _ start
  have all : (s.tokens.toList.foldl put { keys := s.keys }).tokens = s.tokens :=
    (List.foldl_hom RepositoryState.tokens fun _ _ => rfl).symm.trans (foldl_insert_toList s.tokens)
  have files := soundly.byKey_eq sound fun id => by rw [all]
  refine ⟨tokens, written, restored.trans (congrArg Except.ok ?_)⟩
  generalize s.tokens.toList.foldl put { keys := s.keys } = made at all files keys senders challenges
  obtain ⟨_, _, _, _, _⟩ := made
  cases all
  cases files
  cases keys
  cases senders
  cases challenges
  rfl

/-- Challenges are put back. -/
theorem foldlM_restoreChallenge (entries : List (KeyName × Bytes)) (made : RepositoryState) :
    (entries.map fun (key, challenge) => (key, Text.Base64.encode challenge)).foldlM StoreDocument.restoreChallenge made =
      .ok { made with challenges := entries.foldl (fun made e => made.insert e.1 e.2) made.challenges } := by
  induction entries generalizing made with
  | nil => rfl
  | cons e rest ih =>
    have first : StoreDocument.restoreChallenge made (e.1, Text.Base64.encode e.2) =
        .ok { made with challenges := made.challenges.insert e.1 e.2 } := by
      rw [StoreDocument.restoreChallenge, Text.Base64.decode?_encode]
    rw [List.map_cons, List.foldlM_cons, first]
    exact ih _

/-- A state that is read back is kept, and put together again. -/
theorem IsReadBack.exists_restore {s : RepositoryState} (h : s.IsReadBack) (sound : s.IsSound) :
    ∃ document, StoreDocument.ofState s = .ok document ∧ document.restore = .ok s := by
  obtain ⟨keys, keysWritten, keysBack⟩ := h.exists_keys
  obtain ⟨tokens, tokensWritten, tokensBack⟩ := h.exists_tokens sound
  refine ⟨{ tokens, keys, senders := s.senders
            challenges := s.challenges.map fun _ challenge => Text.Base64.encode challenge }, ?_, ?_⟩
  · simp only [StoreDocument.ofState, tokensWritten, keysWritten, bind, Except.bind]
  · have challenges := foldlM_restoreChallenge s.challenges.toList
      { tokens := s.tokens, byKey := s.byKey, keys := s.keys, senders := s.senders }
    rw [foldl_insert_toList] at challenges
    simp only [StoreDocument.restore, keysBack, tokensBack, bind, Except.bind, Std.ExtTreeMap.toList_map]
    exact challenges

end RepositoryState

end TokenGate
