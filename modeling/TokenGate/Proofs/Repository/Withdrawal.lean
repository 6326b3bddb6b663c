import TokenGate.Proofs.Repository.Addition

/-!
# Withdrawals

A withdrawal takes an added token out, puts back what it displaced, and releases the key if nothing keeps it. It keeps the state
sound as long as nothing else has come to stand in the way: at the identifiers concerned there are tokens of the same key only.
Right after the addition it undoes the addition, which leaves the sweep; this needs that whatever is known of a key goes with it.
-/

namespace TokenGate

/-- What an addition displaced is of one key: tokens of it, each at its identifier, only if the key was there. -/
structure Displaced.IsOf (displaced : Displaced) (key : KeyName) : Prop where
  filed : ∀ p ∈ displaced.tokens, p.2.key = key
  own : ∀ p ∈ displaced.tokens, p.2.IsOf p.1
  distinct : (displaced.tokens.map Prod.fst).Nodup
  keyed : displaced.tokens ≠ [] → displaced.key.isSome = true

namespace RepositoryState

/-! ## Putting tokens back -/

/-- The state with tokens put back in. -/
def putBack (s : RepositoryState) (tokens : List (TokenId × TokenRecord)) : RepositoryState :=
  tokens.foldl (fun s (id, record) => s.insertToken id record) s

@[simp]
theorem putBack_nil (s : RepositoryState) : s.putBack [] = s := rfl

@[simp]
theorem putBack_cons (s : RepositoryState) (id : TokenId) (record : TokenRecord) (rest : List (TokenId × TokenRecord)) :
    s.putBack ((id, record) :: rest) = (s.insertToken id record).putBack rest := rfl

/-- Putting tokens back concerns nothing but the tokens and their files. -/
theorem putBack_eq (s : RepositoryState) (tokens : List (TokenId × TokenRecord)) :
    s.putBack tokens = { s with tokens := (s.putBack tokens).tokens, byKey := (s.putBack tokens).byKey } := by
  induction tokens generalizing s with
  | nil => rfl
  | cons head rest ih =>
    rw [putBack_cons, ih]
    rfl

/-- What was put back is there, and everything else is as it was. -/
theorem tokens_putBack (s : RepositoryState) {tokens : List (TokenId × TokenRecord)}
    (distinct : (tokens.map Prod.fst).Nodup) (id : TokenId) (record : TokenRecord) :
    (s.putBack tokens).tokens[id]? = some record ↔
      (id, record) ∈ tokens ∨ (id ∉ tokens.map Prod.fst ∧ s.tokens[id]? = some record) := by
  induction tokens generalizing s with
  | nil => simp
  | cons head rest ih =>
    obtain ⟨other, old⟩ := head
    rw [List.map_cons, List.nodup_cons] at distinct
    rw [putBack_cons, ih (s.insertToken other old) distinct.2, tokens_insertToken, List.mem_cons, List.map_cons, List.mem_cons]
    by_cases same : other = id
    · subst same
      have fresh : (other, record) ∉ rest := fun among =>
        distinct.1 (List.mem_map.mpr ⟨(other, record), among, rfl⟩)
      simp [fresh, distinct.1, eq_comm]
    · simp [same, Ne.symm same]

/-- Tokens of one key that replace only tokens of this key are filed correctly. -/
theorem IsIndexed.putBack {s : RepositoryState} (h : s.IsIndexed) {key : KeyName} {tokens : List (TokenId × TokenRecord)}
    (filed : ∀ p ∈ tokens, p.2.key = key)
    (free : ∀ p ∈ tokens, ∀ old : TokenRecord, s.tokens[p.1]? = some old → old.key = key) :
    (s.putBack tokens).IsIndexed := by
  induction tokens generalizing s with
  | nil => exact h
  | cons head rest ih =>
    obtain ⟨id, record⟩ := head
    have own : record.key = key := filed (id, record) (by simp)
    apply ih (h.insertToken fun old found => (free (id, record) (by simp) old found).trans own.symm)
    · intro p among
      exact filed p (List.mem_cons_of_mem _ among)
    · intro p among old found
      rw [tokens_insertToken] at found
      split at found
      · cases found
        exact own
      · exact free p (List.mem_cons_of_mem _ among) old found

/-- Tokens that are put back leave no file empty. -/
theorem IsFiledBut.putBack {s : RepositoryState} {spared : Option KeyName} (h : s.IsFiledBut spared)
    (tokens : List (TokenId × TokenRecord)) : (s.putBack tokens).IsFiledBut spared := by
  induction tokens generalizing s with
  | nil => exact h
  | cons head rest ih => exact ih (h.insertToken head.1 head.2)

/-! ## Undoing an addition -/

/-- The state with a token taken out, if it is there, what it displaced put back, and the key as it was. -/
def undo (s : RepositoryState) (id : TokenId) (key : KeyName) (displaced : Displaced) : RepositoryState :=
  let restored := (if s.tokens.contains id then s.takeOut id key else s).putBack displaced.tokens
  match displaced.key with
  | some bound => { restored with keys := restored.keys.insert key bound }
  | none => restored

/-- A withdrawal undoes the addition and releases the key. -/
theorem withdraw_of_displaced {s : RepositoryState} {added : AddedToken} {displaced : Displaced}
    (h : added.displaced = some displaced) :
    s.withdraw added = .changed () ((s.undo added.id added.key displaced).dropIfOrphaned added.key) := by
  unfold withdraw
  rw [h]
  rfl

/-- A token that is not there is not taken out, which makes no difference. -/
theorem tokens_takeOut_if (s : RepositoryState) (id other : TokenId) (key : KeyName) :
    (if s.tokens.contains id then s.takeOut id key else s).tokens[other]? =
      if id = other then none else s.tokens[other]? := by
  split
  · exact tokens_takeOut s id other key
  · rename_i absent
    split
    · rename_i same
      subst same
      rw [Std.ExtTreeMap.contains_eq_isSome_getElem?] at absent
      simpa using absent
    · rfl

/-- An undoing takes the token out, puts back what it displaced, and changes nothing else of tokens and files. -/
theorem undo_eq (s : RepositoryState) (id : TokenId) (key : KeyName) (displaced : Displaced) :
    (s.undo id key displaced).tokens =
        ((if s.tokens.contains id then s.takeOut id key else s).putBack displaced.tokens).tokens ∧
      (s.undo id key displaced).byKey =
        ((if s.tokens.contains id then s.takeOut id key else s).putBack displaced.tokens).byKey := by
  unfold undo
  cases displaced.key <;> exact ⟨rfl, rfl⟩

/-- The tokens are those displaced and, at other identifiers, those that are there, without the one taken back. -/
theorem tokens_undo (s : RepositoryState) {id : TokenId} {key : KeyName} {displaced : Displaced}
    (distinct : (displaced.tokens.map Prod.fst).Nodup) (other : TokenId) (record : TokenRecord) :
    (s.undo id key displaced).tokens[other]? = some record ↔
      (other, record) ∈ displaced.tokens ∨
        (other ∉ displaced.tokens.map Prod.fst ∧ id ≠ other ∧ s.tokens[other]? = some record) := by
  rw [(undo_eq s id key displaced).1, tokens_putBack _ distinct, tokens_takeOut_if, Option.ite_none_left_eq_some]

/-- The key is what it was before, if it was there, and otherwise what it is. -/
theorem keys_undo (s : RepositoryState) (id : TokenId) (key other : KeyName) (displaced : Displaced) :
    (s.undo id key displaced).keys[other]? =
      if key = other then displaced.key.or s.keys[other]? else s.keys[other]? := by
  have apart : ((if s.tokens.contains id then s.takeOut id key else s).putBack displaced.tokens).keys = s.keys := by
    rw [putBack_eq]
    split <;> rfl
  unfold undo
  cases before : displaced.key with
  | none =>
    simp only [apart]
    split <;> rfl
  | some bound =>
    simp only [apart, Std.ExtTreeMap.getElem?_insert, compare_eq_eq_iff]
    split <;> rfl

theorem senders_undo (s : RepositoryState) (id : TokenId) (key : KeyName) (displaced : Displaced) :
    (s.undo id key displaced).senders = s.senders := by
  have apart : ((if s.tokens.contains id then s.takeOut id key else s).putBack displaced.tokens).senders = s.senders := by
    rw [putBack_eq]
    split <;> rfl
  unfold undo
  cases displaced.key <;> exact apart

theorem challenges_undo (s : RepositoryState) (id : TokenId) (key : KeyName) (displaced : Displaced) :
    (s.undo id key displaced).challenges = s.challenges := by
  have apart : ((if s.tokens.contains id then s.takeOut id key else s).putBack displaced.tokens).challenges =
      s.challenges := by
    rw [putBack_eq]
    split <;> rfl
  unfold undo
  cases displaced.key <;> exact apart

/-- The index agrees with the tokens if only tokens of the key stand at the identifiers concerned. -/
theorem IsIndexed.undo {s : RepositoryState} (h : s.IsIndexed) {id : TokenId} {key : KeyName} {displaced : Displaced}
    (of : displaced.IsOf key) (own : ∀ old : TokenRecord, s.tokens[id]? = some old → old.key = key)
    (free : ∀ p ∈ displaced.tokens, ∀ old : TokenRecord, s.tokens[p.1]? = some old → old.key = key) :
    (s.undo id key displaced).IsIndexed := by
  have without : (if s.tokens.contains id then s.takeOut id key else s).IsIndexed := by
    split
    · exact h.takeOut own
    · exact h
  have back := without.putBack of.filed <| by
    intro p among old found
    rw [tokens_takeOut_if] at found
    exact free p among old (Option.ite_none_left_eq_some.mp found).2
  obtain ⟨tokens, byKey⟩ := undo_eq s id key displaced
  intro other file
  rw [tokens, idsOf, byKey]
  exact back other file

/-- After an undoing no file is empty, except perhaps that of the key. -/
theorem IsFiledBut.undo {s : RepositoryState} (h : s.IsFiledBut none) (id : TokenId) (key : KeyName)
    (displaced : Displaced) : (s.undo id key displaced).IsFiledBut (some key) := by
  have without : (if s.tokens.contains id then s.takeOut id key else s).IsFiledBut (some key) := by
    split
    · exact h.takeOut id
    · intro other _
      exact h other (by simp)
  intro other rest
  rw [(undo_eq s id key displaced).2]
  exact without.putBack displaced.tokens other rest

/-- A withdrawal keeps a state sound if only tokens of the key stand at the identifiers concerned. -/
theorem IsSound.undo {s : RepositoryState} (h : s.IsSound) {id : TokenId} {key : KeyName} {displaced : Displaced}
    (of : displaced.IsOf key) (own : ∀ old : TokenRecord, s.tokens[id]? = some old → old.key = key)
    (free : ∀ p ∈ displaced.tokens, ∀ old : TokenRecord, s.tokens[p.1]? = some old → old.key = key) :
    ((s.undo id key displaced).dropIfOrphaned key).IsSound := by
  apply (h.indexed.undo of own free).isSound_dropIfOrphaned (h.filed.undo id key displaced)
  · intro other record found
    rw [Std.ExtTreeMap.mem_iff_isSome_getElem?, keys_undo]
    rcases (tokens_undo s of.distinct other record).mp found with back | ⟨_, _, stayed⟩
    · rw [of.filed _ back, if_pos rfl]
      have there := of.keyed (List.ne_nil_of_mem back)
      simp [there]
    · have known := h.keyed other record stayed
      rw [Std.ExtTreeMap.mem_iff_isSome_getElem?] at known
      split
      · simp [known]
      · exact known
  · intro other record found
    rcases (tokens_undo s of.distinct other record).mp found with back | ⟨_, _, stayed⟩
    · exact of.own _ back
    · exact h.own other record stayed

/-! ## What is displaced -/

/-- The tokens of a key are those that are bound to it. -/
theorem IsSound.mem_tokensOf {s : RepositoryState} (h : s.IsSound) (key : KeyName) (id : TokenId) (record : TokenRecord) :
    (id, record) ∈ s.tokensOf key ↔ s.tokens[id]? = some record ∧ record.key = key := by
  simp only [tokensOf, List.mem_filterMap, Std.ExtTreeSet.mem_toList, Option.map_eq_some_iff, Prod.mk.injEq]
  constructor
  · rintro ⟨other, filed, r, found, rfl, rfl⟩
    obtain ⟨r', lookup, own⟩ := (h.indexed other key).mp filed
    rw [found] at lookup
    cases lookup
    exact ⟨found, own⟩
  · rintro ⟨found, own⟩
    exact ⟨id, (h.indexed id key).mpr ⟨record, found, own⟩, record, found, rfl, rfl⟩

/-- Every token of a key is among its tokens once. -/
theorem nodup_tokensOf (s : RepositoryState) (key : KeyName) : ((s.tokensOf key).map Prod.fst).Nodup := by
  rw [List.Nodup, List.pairwise_map]
  apply List.Pairwise.filterMap _ _ (Std.ExtTreeSet.distinct_toList (t := s.idsOf key))
  intro a b apart p atA q atB same
  rw [Option.map_eq_some_iff] at atA atB
  obtain ⟨_, _, rfl⟩ := atA
  obtain ⟨_, _, rfl⟩ := atB
  exact apart (compare_eq_eq_iff.mpr same)

/-- What a token displaces is of its key. -/
theorem IsSound.isOf_displacedBy {s : RepositoryState} (h : s.IsSound) {t : Submission} {isUpdate : Bool}
    (admits : s.Admits t isUpdate) : (s.displacedBy t isUpdate).IsOf t.key := by
  cases isUpdate with
  | false =>
    refine ⟨?_, ?_, ?_, ?_⟩ <;> simp [displacedBy]
  | true =>
    refine ⟨?_, ?_, s.nodup_tokensOf t.key, ?_⟩
    · intro p among
      exact ((h.mem_tokensOf t.key p.1 p.2).mp among).2
    · intro p among
      exact h.own p.1 p.2 ((h.mem_tokensOf t.key p.1 p.2).mp among).1
    · intro _
      have held := admits.held rfl
      rw [Std.ExtTreeMap.mem_iff_isSome_getElem?] at held
      exact held

/-! ## Undoing right away -/

/-- Every learned key has a token that keeps it. -/
def IsSettled (s : RepositoryState) : Prop :=
  ∀ (key : KeyName) (bound : BoundKey), s.keys[key]? = some bound → bound.provisioned = false →
    ∃ (id : TokenId) (record : TokenRecord), s.tokens[id]? = some record ∧ record.key = key

/-- Every channel and every challenge is of a known key. -/
structure IsAnchored (s : RepositoryState) : Prop where
  senders : ∀ (sender : String) (key : KeyName), s.senders[sender]? = some key → key ∈ s.keys
  challenges : ∀ (key : KeyName) (challenge : Bytes), s.challenges[key]? = some challenge → key ∈ s.keys

/-- What is settled stays so when tokens go, with the keys that only they kept. -/
theorem IsSettled.of_isWithout {s s' : RepositoryState} (h : s.IsSettled) {gone : List TokenId}
    (without : s'.IsWithout s gone) : s'.IsSettled := by
  intro key bound found learned
  obtain ⟨there, stays⟩ := (without.keys key bound).mp found
  obtain ⟨id, record, lookup, own⟩ := h key bound there learned
  by_contra none
  have all : ∀ (id : TokenId) (record : TokenRecord), s.tokens[id]? = some record → record.key = key → id ∈ gone := by
    intro id record lookup own
    by_contra apart
    exact none ⟨id, record, (without.tokens id record).mpr ⟨lookup, apart⟩, own⟩
  apply stays
  refine ⟨⟨id, all id record lookup own, record, lookup, own⟩, all, ?_⟩
  rw [isProvisioned, there, Option.any_some, learned]

/-- What is anchored stays so when tokens go, with the keys that only they kept. -/
theorem IsAnchored.of_isWithout {s s' : RepositoryState} (h : s.IsAnchored) {gone : List TokenId}
    (without : s'.IsWithout s gone) : s'.IsAnchored := by
  have known : ∀ key, key ∈ s.keys → ¬s.IsKeptBy gone key → key ∈ s'.keys := by
    intro key there stays
    obtain ⟨bound, found⟩ := mem_iff_exists_getElem?.mp there
    exact mem_iff_exists_getElem?.mpr ⟨bound, (without.keys key bound).mpr ⟨found, stays⟩⟩
  refine ⟨?_, ?_⟩
  · intro sender key found
    obtain ⟨there, stays⟩ := (without.senders sender key).mp found
    exact known key (h.senders sender key there) stays
  · intro key challenge found
    obtain ⟨there, stays⟩ := (without.challenges key challenge).mp found
    exact known key (h.challenges key challenge there) stays

/-- Whether a state is settled is a matter of its tokens and keys. -/
theorem IsSettled.congr {s s' : RepositoryState} (h : s.IsSettled) (tokens : ∀ id : TokenId, s'.tokens[id]? = s.tokens[id]?)
    (keys : ∀ key : KeyName, s'.keys[key]? = s.keys[key]?) : s'.IsSettled := by
  intro key bound found learned
  rw [keys] at found
  obtain ⟨id, record, lookup, own⟩ := h key bound found learned
  exact ⟨id, record, (tokens id).trans lookup, own⟩

/-- A token that is added keeps its key. -/
theorem IsSettled.withToken {s : RepositoryState} (h : s.IsSettled) (sound : s.IsSound) {t : Submission} {isUpdate : Bool}
    (admits : s.Admits t isUpdate) : (s.withToken t isUpdate).IsSettled := by
  intro key bound found learned
  by_cases same : t.key = key
  · exact ⟨t.id, t.record, by rw [tokens_withToken, if_pos rfl], same⟩
  · rw [keys_withToken, keys_learnKey, if_neg fun both => same both.1] at found
    obtain ⟨id, record, lookup, own⟩ := h key bound found learned
    refine ⟨id, record, ?_, own⟩
    rw [tokens_withToken, if_neg, if_neg, lookup]
    · rintro ⟨_, filed⟩
      obtain ⟨r, there, held⟩ := (sound.indexed id t.key).mp filed
      rw [lookup] at there
      cases there
      exact same (held.symm.trans own)
    · rintro rfl
      exact same ((admits.free record lookup).2.symm.trans own)

/-- The tokens that are there after an addition was undone are those that were there before. -/
theorem IsSound.tokens_undo_withToken {s : RepositoryState} (h : s.IsSound) {t : Submission} {isUpdate : Bool}
    (admits : s.Admits t isUpdate) (id : TokenId) :
    ((s.withToken t isUpdate).undo t.id t.key (s.displacedBy t isUpdate)).tokens[id]? = s.tokens[id]? := by
  apply Option.ext
  intro record
  rw [tokens_undo _ (h.isOf_displacedBy admits).distinct, tokens_withToken]
  cases isUpdate with
  | false =>
    -- Nothing was displaced, and the identifier was free.
    have free : s.tokens[t.id]? = none := by
      rw [Option.eq_none_iff_forall_ne_some]
      intro other found
      exact absurd (admits.free other found).1 (by decide)
    by_cases same : t.id = id
    · subst same
      simp [displacedBy, free]
    · simp [displacedBy, same]
  | true =>
    have displaced : ∀ (id : TokenId) (record : TokenRecord), (id, record) ∈ (s.displacedBy t true).tokens ↔
        s.tokens[id]? = some record ∧ record.key = t.key := fun id record => h.mem_tokensOf t.key id record
    rw [displaced]
    constructor
    · rintro (⟨found, _⟩ | ⟨_, apart, found⟩)
      · exact found
      · rw [if_neg apart] at found
        exact (Option.ite_none_left_eq_some.mp found).2
    · intro found
      by_cases own : record.key = t.key
      · exact Or.inl ⟨found, own⟩
      · right
        have unlike : ∀ other : TokenRecord, s.tokens[id]? = some other → other.key ≠ t.key := by
          intro other lookup
          rw [found] at lookup
          cases lookup
          exact own
        have apart : t.id ≠ id := by
          rintro rfl
          exact own (admits.free record found).2
        refine ⟨?_, apart, ?_⟩
        · intro among
          obtain ⟨p, back, same⟩ := List.mem_map.mp among
          obtain ⟨lookup, held⟩ := (displaced p.1 p.2).mp back
          exact unlike p.2 (same ▸ lookup) held
        · rw [if_neg apart, if_neg, found]
          rintro ⟨_, filed⟩
          obtain ⟨other, lookup, held⟩ := (h.indexed id t.key).mp filed
          exact unlike other lookup held

/-- Right after an addition, only tokens of its key stand at the identifiers concerned. -/
theorem key_of_tokens_withToken {s : RepositoryState} {t : Submission} {isUpdate : Bool} {id : TokenId}
    (concerned : t.id = id ∨ id ∈ (s.displacedBy t isUpdate).tokens.map Prod.fst) {record : TokenRecord}
    (found : (s.withToken t isUpdate).tokens[id]? = some record) : record.key = t.key := by
  rw [tokens_withToken] at found
  split at found
  · cases found
    rfl
  · rename_i apart
    rcases concerned with same | displaced
    · exact absurd same apart
    cases isUpdate with
    | false => nomatch displaced
    | true =>
      obtain ⟨⟨other, record'⟩, among, rfl⟩ := List.mem_map.mp displaced
      obtain ⟨stays, _⟩ := Option.ite_none_left_eq_some.mp found
      obtain ⟨filed, member, same⟩ := List.mem_filterMap.mp among
      obtain ⟨r, _, equal⟩ := Option.map_eq_some_iff.mp same
      cases equal
      exact absurd ⟨rfl, Std.ExtTreeSet.mem_toList.mp member⟩ stays

/-- Undoing an addition at once leaves the tokens indexed. -/
theorem IsSound.isIndexed_undo_withToken {s : RepositoryState} (h : s.IsSound) {t : Submission} {isUpdate : Bool}
    (admits : s.Admits t isUpdate) :
    ((s.withToken t isUpdate).undo t.id t.key (s.displacedBy t isUpdate)).IsIndexed :=
  (h.withToken admits).indexed.undo (h.isOf_displacedBy admits) (fun _ => key_of_tokens_withToken (Or.inl rfl))
    fun _ among _ => key_of_tokens_withToken (Or.inr (List.mem_map_of_mem among))

/-- Undoing an addition right away keeps the state sound. -/
theorem IsSound.isSound_undo_withToken {s : RepositoryState} (h : s.IsSound) {t : Submission} {isUpdate : Bool}
    (admits : s.Admits t isUpdate) :
    (((s.withToken t isUpdate).undo t.id t.key (s.displacedBy t isUpdate)).dropIfOrphaned t.key).IsSound :=
  (h.withToken admits).undo (h.isOf_displacedBy admits) (fun _ => key_of_tokens_withToken (Or.inl rfl))
    fun _ among _ => key_of_tokens_withToken (Or.inr (List.mem_map_of_mem among))

/-- The keys are as before, except that a key that was not there is there, learned from the token. -/
theorem keys_undo_withToken (s : RepositoryState) (t : Submission) (isUpdate : Bool) (key : KeyName) :
    ((s.withToken t isUpdate).undo t.id t.key (s.displacedBy t isUpdate)).keys[key]? =
      if t.key = key ∧ s.keys[key]? = none then t.carried.map fun carried => ⟨carried, false⟩ else s.keys[key]? := by
  rw [keys_undo, keys_withToken, keys_learnKey, displacedBy]
  by_cases same : t.key = key
  · subst same
    cases before : s.keys[t.key]? with
    | some bound => simp
    | none => cases t.carried <;> simp [isProvisioned, before]
  · simp [same]

/-- A key that is there after an addition was undone was there before the addition, or right after it. -/
theorem keys_of_undo_withToken {s : RepositoryState} {t : Submission} {isUpdate : Bool} {name : KeyName} {bound : BoundKey}
    (found : ((s.withToken t isUpdate).undo t.id t.key (s.displacedBy t isUpdate)).keys[name]? = some bound) :
    s.keys[name]? = some bound ∨ (s.withToken t isUpdate).keys[name]? = some bound := by
  rw [keys_undo] at found
  split at found
  · rename_i same
    subst same
    exact Option.or_eq_some_iff.mp found |>.imp_right And.right
  · exact Or.inr found

/-- Once the addition is undone, its key is an orphan if it was not there before. -/
theorem IsSound.isOrphan_undo_withToken {s : RepositoryState} (h : s.IsSound) (settled : s.IsSettled) {t : Submission}
    {isUpdate : Bool} (admits : s.Admits t isUpdate) :
    ((s.withToken t isUpdate).undo t.id t.key (s.displacedBy t isUpdate)).isOrphan t.key = true ↔
      s.keys[t.key]? = none := by
  have tokens := h.tokens_undo_withToken admits
  have keys := s.keys_undo_withToken t isUpdate t.key
  have indexed := h.isIndexed_undo_withToken admits
  rw [isOrphan_eq_true_iff]
  constructor
  · rintro ⟨empty, learned⟩
    by_contra there
    obtain ⟨bound, before⟩ := Option.ne_none_iff_exists'.mp there
    rw [if_neg fun both => there both.2, before] at keys
    rw [isProvisioned, keys, Option.any_some] at learned
    obtain ⟨id, record, found, own⟩ := settled t.key bound before learned
    exact empty id ((indexed id t.key).mpr ⟨record, (tokens id).trans found, own⟩)
  · intro unknown
    constructor
    · intro id filed
      obtain ⟨record, found, own⟩ := (indexed id t.key).mp filed
      have known := h.keyed id record ((tokens id).symm.trans found)
      rw [Std.ExtTreeMap.mem_iff_isSome_getElem?, own, unknown] at known
      cases known
    · rw [if_pos ⟨rfl, unknown⟩] at keys
      rw [isProvisioned, keys]
      cases t.carried <;> rfl

/-- Once the addition is undone and its key released, the keys are as before. -/
theorem IsSound.keys_undo_withToken {s : RepositoryState} (h : s.IsSound) (settled : s.IsSettled) {t : Submission}
    {isUpdate : Bool} (admits : s.Admits t isUpdate) (key : KeyName) :
    (((s.withToken t isUpdate).undo t.id t.key (s.displacedBy t isUpdate)).dropIfOrphaned t.key).keys[key]? =
      s.keys[key]? := by
  simp only [keys_dropIfOrphaned, h.isOrphan_undo_withToken settled admits]
  by_cases new : t.key = key ∧ s.keys[t.key]? = none
  · rw [if_pos new, ← new.1, new.2]
  · rw [if_neg new, RepositoryState.keys_undo_withToken, if_neg]
    rintro ⟨same, none⟩
    exact new ⟨same, same ▸ none⟩

/-- Undoing an addition right away leaves the state to which the token was added. -/
theorem IsSound.undo_withToken {s : RepositoryState} (h : s.IsSound) (settled : s.IsSettled) (anchored : s.IsAnchored)
    {t : Submission} {isUpdate : Bool} (admits : s.Admits t isUpdate) :
    ((s.withToken t isUpdate).undo t.id t.key (s.displacedBy t isUpdate)).dropIfOrphaned t.key = s := by
  have orphan := h.isOrphan_undo_withToken settled admits
  have tokens : ∀ id : TokenId,
      (((s.withToken t isUpdate).undo t.id t.key (s.displacedBy t isUpdate)).dropIfOrphaned t.key).tokens[id]? =
        s.tokens[id]? := by
    intro id
    rw [tokens_dropIfOrphaned]
    exact h.tokens_undo_withToken admits id
  -- What hangs on the key was there before only if the key was.
  have unknown : ∀ key, key ∈ s.keys → ¬(t.key = key ∧ s.keys[t.key]? = none) := by
    rintro key known ⟨rfl, none⟩
    rw [Std.ExtTreeMap.mem_iff_isSome_getElem?, none] at known
    nomatch known
  apply eq_of_lookups tokens ((h.isSound_undo_withToken admits).byKey_eq h tokens)
    (h.keys_undo_withToken settled admits)
  · intro sender
    rw [senders_dropIfOrphaned, senders_undo, senders_withToken]
    cases bound : s.senders[sender]? with
    | none => rfl
    | some key =>
      have stays := unknown key (anchored.senders sender key bound)
      rw [← orphan, not_and_or, Bool.not_eq_true] at stays
      exact Option.filter_some_pos (by simpa using stays)
  · intro key
    rw [challenges_dropIfOrphaned, challenges_undo, challenges_withToken]
    split
    · rename_i gone
      rw [orphan] at gone
      cases given : s.challenges[key]? with
      | none => rfl
      | some challenge => exact absurd gone (unknown key (anchored.challenges key challenge given))
    · rfl

end RepositoryState

end TokenGate
