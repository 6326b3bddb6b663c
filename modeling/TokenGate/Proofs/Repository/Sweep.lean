import Mathlib.Tactic.ByContra
import TokenGate.Proofs.Repository.Index

/-!
# What goes with a token

When the last token of a key goes, a key that was learned goes too, with its channels and its challenge. `IsWithout` says when one
state is another one without some tokens and without all that only they kept. Taking tokens out in turn comes to taking them out
all at once, so that the sweep of ended tokens is described by the tokens alone.
-/

namespace TokenGate

namespace RepositoryState

/-- A key that was learned from tokens, all of which are among some tokens. -/
structure IsKeptBy (s : RepositoryState) (gone : List TokenId) (key : KeyName) : Prop where
  filed : ∃ id ∈ gone, ∃ record, s.tokens[id]? = some record ∧ record.key = key
  all : ∀ (id : TokenId) (record : TokenRecord), s.tokens[id]? = some record → record.key = key → id ∈ gone
  learned : s.isProvisioned key = false

/-- A state that is another one without some tokens, and without the keys, the channels and the challenges that only they kept. -/
structure IsWithout (s' s : RepositoryState) (gone : List TokenId) : Prop where
  tokens : ∀ (id : TokenId) (record : TokenRecord),
    s'.tokens[id]? = some record ↔ s.tokens[id]? = some record ∧ id ∉ gone
  files : ∀ (id : TokenId) (key : KeyName), id ∈ s'.idsOf key ↔ id ∈ s.idsOf key ∧ id ∉ gone
  keys : ∀ (key : KeyName) (bound : BoundKey),
    s'.keys[key]? = some bound ↔ s.keys[key]? = some bound ∧ ¬s.IsKeptBy gone key
  senders : ∀ (sender : String) (key : KeyName),
    s'.senders[sender]? = some key ↔ s.senders[sender]? = some key ∧ ¬s.IsKeptBy gone key
  challenges : ∀ (key : KeyName) (challenge : Bytes),
    s'.challenges[key]? = some challenge ↔ s.challenges[key]? = some challenge ∧ ¬s.IsKeptBy gone key

/-- Tokens that are not there keep no key. -/
theorem not_isKeptBy_of_absent {s : RepositoryState} {gone : List TokenId} (absent : ∀ id ∈ gone, s.tokens[id]? = none)
    (key : KeyName) : ¬s.IsKeptBy gone key := by
  rintro ⟨⟨id, among, record, found, _⟩, _, _⟩
  rw [absent id among] at found
  cases found

/-- Without tokens that are not there, a state is as it was. -/
theorem IsWithout.refl {s : RepositoryState} (indexed : s.IsIndexed) {gone : List TokenId}
    (absent : ∀ id ∈ gone, s.tokens[id]? = none) : s.IsWithout s gone where
  tokens := by
    intro id record
    constructor
    · intro found
      refine ⟨found, fun among => ?_⟩
      rw [absent id among] at found
      cases found
    · exact And.left
  files := by
    intro id key
    constructor
    · intro filed
      refine ⟨filed, fun among => ?_⟩
      obtain ⟨record, found, _⟩ := (indexed id key).mp filed
      rw [absent id among] at found
      cases found
    · exact And.left
  keys := fun key _ => ⟨fun found => ⟨found, not_isKeptBy_of_absent absent key⟩, And.left⟩
  senders := fun _ key => ⟨fun found => ⟨found, not_isKeptBy_of_absent absent key⟩, And.left⟩
  challenges := fun key _ => ⟨fun found => ⟨found, not_isKeptBy_of_absent absent key⟩, And.left⟩

/-- Whether a key is provisioned does not change while it stays. -/
theorem IsWithout.isProvisioned_eq {s' s : RepositoryState} {gone : List TokenId} (h : s'.IsWithout s gone) {key : KeyName}
    (stays : ¬s.IsKeptBy gone key) : s'.isProvisioned key = s.isProvisioned key := by
  have same : s'.keys[key]? = s.keys[key]? := by
    apply Option.ext
    intro bound
    rw [h.keys key bound]
    exact and_iff_left stays
  rw [isProvisioned, isProvisioned, same]

/-- The keys agreed on stay as they are. -/
theorem IsWithout.agreedKey?_eq {s' s : RepositoryState} {gone : List TokenId} (h : s'.IsWithout s gone) (name : KeyName) :
    s'.agreedKey? name = s.agreedKey? name := by
  apply Option.ext
  intro key
  rw [agreedKey?_eq_some_iff, agreedKey?_eq_some_iff, h.keys, and_iff_left_iff_imp]
  intro there kept
  have learned := kept.learned
  rw [isProvisioned, there, Option.any_some] at learned
  cases learned

/-- What keeps a key when tokens go in two turns. -/
theorem IsWithout.isKeptBy_append {s' s : RepositoryState} {first second : List TokenId} (h : s'.IsWithout s first)
    (key : KeyName) : s.IsKeptBy (first ++ second) key ↔ s.IsKeptBy first key ∨ s'.IsKeptBy second key := by
  constructor
  · intro kept
    by_cases before : s.IsKeptBy first key
    · exact Or.inl before
    -- The first turn leaves some token of the key, and the second takes all that it leaves.
    · right
      refine ⟨?_, ?_, (h.isProvisioned_eq before).trans kept.learned⟩
      · by_contra none
        apply before
        have all : ∀ (id : TokenId) (record : TokenRecord), s.tokens[id]? = some record → record.key = key → id ∈ first := by
          intro id record found own
          by_contra later
          rcases List.mem_append.mp (kept.all id record found own) with early | late
          · exact later early
          · exact none ⟨id, late, record, (h.tokens id record).mpr ⟨found, later⟩, own⟩
        obtain ⟨id, _, record, found, own⟩ := kept.filed
        exact ⟨⟨id, all id record found own, record, found, own⟩, all, kept.learned⟩
      · intro id record found own
        obtain ⟨there, later⟩ := (h.tokens id record).mp found
        rcases List.mem_append.mp (kept.all id record there own) with early | late
        · exact absurd early later
        · exact late
  · rintro (kept | kept)
    · obtain ⟨id, among, found⟩ := kept.filed
      exact ⟨⟨id, List.mem_append_left _ among, found⟩,
        fun other record there own => List.mem_append_left _ (kept.all other record there own), kept.learned⟩
    · obtain ⟨id, among, record, found, own⟩ := kept.filed
      obtain ⟨there, later⟩ := (h.tokens id record).mp found
      have stays : ¬s.IsKeptBy first key := fun before => later (before.all id record there own)
      refine ⟨⟨id, List.mem_append_right _ among, record, there, own⟩, ?_, (h.isProvisioned_eq stays).symm.trans kept.learned⟩
      intro other r lookup filed
      by_cases early : other ∈ first
      · exact List.mem_append_left _ early
      · exact List.mem_append_right _ (kept.all other r ((h.tokens other r).mpr ⟨lookup, early⟩) filed)

/-- Tokens that go in turn might as well go together. -/
theorem IsWithout.append {s'' s' s : RepositoryState} {first second : List TokenId} (h : s'.IsWithout s first)
    (h' : s''.IsWithout s' second) : s''.IsWithout s (first ++ second) where
  tokens := by
    intro id record
    rw [h'.tokens, h.tokens, List.mem_append, not_or, and_assoc]
  files := by
    intro id key
    rw [h'.files, h.files, List.mem_append, not_or, and_assoc]
  keys := by
    intro key bound
    rw [h'.keys, h.keys, h.isKeptBy_append, not_or, and_assoc]
  senders := by
    intro sender key
    rw [h'.senders, h.senders, h.isKeptBy_append, not_or, and_assoc]
  challenges := by
    intro key challenge
    rw [h'.challenges, h.challenges, h.isKeptBy_append, not_or, and_assoc]

/-! ## Removing tokens -/

/-- Once a token is taken out, its key is an orphan if the token was all that kept it. -/
theorem IsSound.isOrphan_takeOut_iff {s : RepositoryState} (h : s.IsSound) {id : TokenId} {record : TokenRecord}
    (found : s.tokens[id]? = some record) (key : KeyName) :
    record.key = key ∧ (s.takeOut id record.key).isOrphan record.key = true ↔ s.IsKeptBy [id] key := by
  rw [isOrphan_eq_true_iff]
  constructor
  · rintro ⟨rfl, empty, learned⟩
    refine ⟨⟨id, by simp, record, found, rfl⟩, ?_, learned⟩
    intro other r lookup own
    by_contra apart
    apply empty other
    rw [mem_idsOf_takeOut]
    refine ⟨(h.indexed other record.key).mpr ⟨r, lookup, own⟩, ?_⟩
    rintro ⟨_, rfl⟩
    exact apart (by simp)
  · rintro ⟨⟨other, among, r, lookup, own⟩, all, learned⟩
    have same : other = id := by simpa using among
    subst same
    rw [found] at lookup
    cases lookup
    refine ⟨own, ?_, own ▸ learned⟩
    intro file filed
    obtain ⟨there, apart⟩ := (mem_idsOf_takeOut s other file record.key record.key).mp filed
    obtain ⟨r', lookup', own'⟩ := (h.indexed file record.key).mp there
    have alone : file = other := by simpa using all file r' lookup' (own'.trans own)
    exact apart ⟨rfl, alone.symm⟩

/-- Removing a token leaves the state without it. -/
theorem IsSound.isWithout_removeToken {s : RepositoryState} (h : s.IsSound) (id : TokenId) :
    (s.removeToken id).IsWithout s [id] := by
  cases found : s.tokens[id]? with
  | none =>
    have unchanged : s.removeToken id = s := by
      rw [RepositoryState.removeToken, removeToken?_eq, found, Option.map_none, Option.getD_none]
    rw [unchanged]
    apply IsWithout.refl h.indexed
    intro other among
    rw [List.mem_singleton.mp among, found]
  | some record =>
    have removed : s.removeToken id = (s.takeOut id record.key).dropIfOrphaned record.key := by
      rw [RepositoryState.removeToken, removeToken?_eq, found, Option.map_some, Option.getD_some]
    have orphan := h.isOrphan_takeOut_iff found
    refine ⟨?_, ?_, ?_, ?_, ?_⟩
    · intro other r
      rw [tokens_removeToken, Option.ite_none_left_eq_some, List.mem_singleton, eq_comm, and_comm]
    · intro other key
      rw [removed, mem_idsOf_dropIfOrphaned, mem_idsOf_takeOut, List.mem_singleton, and_congr_right_iff]
      intro filed
      constructor
      · rintro apart rfl
        obtain ⟨r, lookup, own⟩ := (h.indexed other key).mp filed
        rw [found] at lookup
        cases lookup
        exact apart ⟨own, rfl⟩
      · rintro apart ⟨_, rfl⟩
        exact apart rfl
    · intro key bound
      rw [removed, keys_dropIfOrphaned, Option.ite_none_left_eq_some, orphan key, and_comm]
      rfl
    · intro sender key
      rw [removed, senders_dropIfOrphaned, Option.filter_eq_some_iff, ← orphan key, not_and_or, Bool.not_eq_true]
      simp only [Bool.not_eq_true', Bool.and_eq_false_iff, decide_eq_false_iff_not]
      rfl
    · intro key challenge
      rw [removed, challenges_dropIfOrphaned, Option.ite_none_left_eq_some, orphan key, and_comm]
      rfl

/-- Removing tokens one by one keeps a state sound and leaves it without them. -/
theorem IsSound.foldl_removeToken {s : RepositoryState} (h : s.IsSound) (ids : List TokenId) :
    (ids.foldl RepositoryState.removeToken s).IsSound ∧ (ids.foldl RepositoryState.removeToken s).IsWithout s ids := by
  induction ids generalizing s with
  | nil =>
    exact ⟨h, IsWithout.refl h.indexed (by simp)⟩
  | cons id ids ih =>
    obtain ⟨sound, without⟩ := ih (h.removeToken id)
    exact ⟨sound, (h.isWithout_removeToken id).append without⟩

/-! ## The sweep -/

/-- The tokens that are swept are those whose validity has ended. -/
theorem mem_expired_iff (s : RepositoryState) (now : UInt64) (id : TokenId) :
    id ∈ s.expired now ↔ ∃ record, s.tokens[id]? = some record ∧ record.claims.isExpiredAt now = true := by
  rw [expired, Std.ExtTreeMap.mem_keys, Std.ExtTreeMap.mem_iff_isSome_getElem?, Std.ExtTreeMap.getElem?_filter',
    Option.isSome_iff_exists]
  simp only [Option.filter_eq_some_iff]

/-- The sweep keeps a state sound. -/
theorem IsSound.sweep {s : RepositoryState} (h : s.IsSound) (now : UInt64) : (s.sweep now).IsSound :=
  (h.foldl_removeToken (s.expired now)).1

/-- The sweep leaves a state without the tokens whose validity has ended. -/
theorem IsSound.isWithout_sweep {s : RepositoryState} (h : s.IsSound) (now : UInt64) :
    (s.sweep now).IsWithout s (s.expired now) :=
  (h.foldl_removeToken (s.expired now)).2

/-- Tokens that are removed one after the other are gone, and the others stay. -/
theorem tokens_foldl_removeToken (s : RepositoryState) (ids : List TokenId) (id : TokenId) :
    (ids.foldl RepositoryState.removeToken s).tokens[id]? = if id ∈ ids then none else s.tokens[id]? := by
  induction ids generalizing s with
  | nil => simp
  | cons first ids ih =>
    rw [List.foldl_cons, ih, tokens_removeToken]
    by_cases same : first = id
    · simp [same]
    · simp [same, Ne.symm same]

/-- What is there after the sweep was there before and has not ended. -/
theorem tokens_sweep (s : RepositoryState) (now : UInt64) (id : TokenId) (record : TokenRecord) :
    (s.sweep now).tokens[id]? = some record ↔ s.tokens[id]? = some record ∧ record.claims.isExpiredAt now = false := by
  rw [RepositoryState.sweep, tokens_foldl_removeToken, Option.ite_none_left_eq_some, mem_expired_iff]
  constructor
  · rintro ⟨alive, found⟩
    refine ⟨found, ?_⟩
    by_contra ended
    exact alive ⟨record, found, by simpa using ended⟩
  · rintro ⟨found, alive⟩
    refine ⟨?_, found⟩
    rintro ⟨other, lookup, ended⟩
    rw [found] at lookup
    cases lookup
    rw [alive] at ended
    cases ended

end RepositoryState

end TokenGate
