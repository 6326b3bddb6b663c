import TokenGate.Proofs.Access.Expiry
import TokenGate.Proofs.KeyNames
import TokenGate.Proofs.Repository.Lifecycle

/-!
# Which keys are kept apart

Tokens of one key decide nothing about another one, and a key is only found under its own name. Whether two identifiers of keys are
kept apart is thus a matter of their names: they are, unless they are the same, or one of them is no text and the other one is the
text that spells it in base64. Then a token that refers to one of them takes the key of the other.
-/

namespace TokenGate

/-- The confirmation of a token names an identifier: it refers to it, or the key that it brings along has it. -/
def Claims.Names (claims : Claims) (shared : SharedKey) (kid : Bytes) : Prop :=
  ∃ cnf, claims.cnf = some cnf ∧ (cnf = .kid kid ∨
    ∃ filed key, Submission.keyOf shared cnf = .ok (filed, some key) ∧ key.identifier? = some kid)

/-- A token is bound to the name of the identifier that it names. -/
theorem Submission.IsFrom.key_of_names {t : Submission} {claims : Claims} {shared : SharedKey} {origin : TokenOrigin}
    (h : t.IsFrom claims shared origin) {kid : Bytes} (names : claims.Names shared kid) : t.key = .ofKid kid := by
  obtain ⟨cnf, confirmed, refers | ⟨filed, key, keyed, identified⟩⟩ := names
  · rw [refers] at confirmed
    exact (h.of_kid confirmed).1.symm
  · obtain ⟨cnf', confirmed', keyed'⟩ := h.key
    obtain rfl := Option.some.inj (confirmed.symm.trans confirmed')
    obtain ⟨rfl, _⟩ := Prod.mk.inj (Except.ok.inj (keyed.symm.trans keyed'))
    exact PopKey.name_of_identifier? identified (Submission.name_of_keyOf keyed)

namespace RepositoryState

/-! ## Decisions about other keys -/

/-- An addition to the tokens of one key changes nothing for another one. -/
theorem IsSound.entitlements_withToken {s : RepositoryState} (h : s.IsSound) {t : Submission} {isUpdate : Bool}
    (admits : s.Admits t isUpdate) {key : KeyName} (apart : t.key ≠ key) (now : UInt64) :
    (s.withToken t isUpdate).entitlements key now = s.entitlements key now := by
  apply h.indexed.entitlements_congr (h.withToken admits).indexed
  rintro id record rfl _
  rw [tokens_withToken]
  by_cases new : t.id = id
  · subst new
    rw [if_pos rfl]
    refine iff_of_false ?_ ?_
    · rintro ⟨⟩
      exact apart rfl
    · intro found
      exact apart (admits.free record found).2.symm
  · rw [if_neg new, Option.ite_none_left_eq_some, and_iff_right_iff_imp]
    rintro found ⟨_, filed⟩
    obtain ⟨other, lookup, own⟩ := (h.indexed id t.key).mp filed
    rw [found] at lookup
    cases lookup
    exact apart own.symm

/-- The removal of a token of one key changes nothing for another one. -/
theorem IsSound.entitlements_removeToken {s : RepositoryState} (h : s.IsSound) {id : TokenId} {record : TokenRecord}
    (found : s.tokens[id]? = some record) {key : KeyName} (apart : record.key ≠ key) (now : UInt64) :
    (s.removeToken id).entitlements key now = s.entitlements key now := by
  apply h.indexed.entitlements_congr (h.removeToken id).indexed
  rintro other held rfl _
  rw [(h.isWithout_removeToken id).tokens, and_iff_left_iff_imp, List.mem_singleton]
  rintro there rfl
  rw [found] at there
  cases there
  exact apart rfl

/-! ## Names -/

/-- Every key is filed under its own name. -/
def IsNamed (s : RepositoryState) : Prop :=
  ∀ (filed : KeyName) (bound : BoundKey), s.keys[filed]? = some bound → bound.key.name = .ok filed

/-- The keys that stay are filed as before. -/
theorem IsNamed.of_isWithout {s s' : RepositoryState} (h : s.IsNamed) {gone : List TokenId} (without : s'.IsWithout s gone) :
    s'.IsNamed :=
  fun filed bound found => h filed bound ((without.keys filed bound).mp found).1

/-- A key that a token brings along is learned under its own name. -/
theorem IsNamed.withToken {s : RepositoryState} (h : s.IsNamed) {t : Submission}
    (carried : ∀ key, t.carried = some key → key.name = .ok t.key) (isUpdate : Bool) : (s.withToken t isUpdate).IsNamed := by
  intro filed bound found
  rw [keys_withToken, keys_learnKey] at found
  split at found
  · rename_i learned
    obtain ⟨rfl, _⟩ := learned
    obtain ⟨key, brought, rfl⟩ := Option.map_eq_some_iff.mp found
    exact carried key brought
  · exact h filed bound found

/-- A key that is put back is put back under its own name. -/
theorem IsNamed.undo {s : RepositoryState} (h : s.IsNamed) {key : KeyName} {displaced : Displaced}
    (own : ∀ bound, displaced.key = some bound → bound.key.name = .ok key) (id : TokenId) :
    ((s.undo id key displaced).dropIfOrphaned key).IsNamed := by
  intro filed bound found
  rw [keys_dropIfOrphaned, Option.ite_none_left_eq_some, keys_undo] at found
  obtain ⟨_, found⟩ := found
  split at found
  · rename_i same
    subst same
    rcases Option.or_eq_some_iff.mp found with back | ⟨_, there⟩
    · exact own bound back
    · exact h key bound there
  · exact h filed bound found

end RepositoryState

namespace Repository

open RepositoryState

/-- An operation files keys under their own names only. -/
theorem Operation.Changes.isNamed {op : Operation} {s s' : RepositoryState} (h : op.Changes s s') (sound : s.IsSound)
    (named : s.IsNamed) : s'.IsNamed := by
  cases h with
  | nothing => exact named
  | remove id => exact named.of_isWithout (sound.isWithout_removeToken id)
  | purge now => exact named.of_isWithout (sound.isWithout_sweep now)
  | provision own =>
    intro filed bound found
    rw [Std.ExtTreeMap.getElem?_insert] at found
    split at found
    · rename_i same
      cases found
      exact compare_eq_eq_iff.mp same ▸ own
    · exact named filed bound found
  | bind sender key => exact named
  | unbind sender => exact named
  | challenge key challenge => exact named

/-- After every careful run, every key is filed under its own name, and so is every key that a withdrawal would put back. -/
theorem Careful.isNamed {r : Repository} {pending : List (AddedToken × Journal)} (h : Careful r pending) :
    r.state.IsNamed ∧ ∀ p ∈ pending, ∀ displaced, p.1.displaced = some displaced → ∀ bound, displaced.key = some bound →
      bound.key.name = .ok p.1.key := by
  induction h with
  | start validator store => exact ⟨fun filed bound found => by simp at found, by simp⟩
  | @add r pending before host claims shared senderKey origin added ok ih =>
    obtain ⟨named, displacements⟩ := ih
    have swept := named.of_isWithout (before.isSound_and_tracks.1.isWithout_sweep host.clock)
    obtain ⟨_, t, outcome, made, adds, rfl, counted⟩ := addToken_ok ok
    obtain ⟨cnf, _, keyed⟩ := (Submission.isFrom_of_ofClaims made).key
    have carried : ∀ key, t.carried = some key → key.name = .ok t.key := by
      intro key brought
      rw [brought] at keyed
      exact Submission.name_of_keyOf keyed
    rw [counted]
    refine ⟨?_, ?_⟩
    · cases adds with
      | again known there => exact named
      | anew isUpdate decided admits => exact swept.withToken carried isUpdate
    · intro p among
      rcases List.mem_cons.mp among with rfl | older
      · intro displaced new bound held
        cases adds with
        | again known there => nomatch new
        | anew isUpdate decided admits =>
          cases new
          exact swept t.key bound held
      · obtain ⟨q, there, rfl⟩ := List.mem_map.mp older
        exact displacements q there
  | @withdraw r added j early late before clear host ok ih =>
    obtain ⟨named, displacements⟩ := ih
    refine ⟨withdraw_keeps named ?_, ?_⟩
    · intro d displaced
      exact named.undo (displacements _ (List.mem_append_right _ List.mem_cons_self) d displaced) added.id
    · intro p among
      obtain ⟨q, there, rfl⟩ := List.mem_map.mp among
      apply displacements q
      rcases List.mem_append.mp there with early | late
      · exact List.mem_append_left _ early
      · exact List.mem_append_right _ (List.mem_cons_of_mem _ late)
  | @other r pending before host op ih =>
    refine ⟨(r.changes_carryOut host op).isNamed before.isSound_and_tracks.1 ih.1, ?_⟩
    intro p among
    obtain ⟨q, there, rfl⟩ := List.mem_map.mp among
    exact ih.2 q there

/-! ## Keeping keys apart -/

/-- A repository decides about the holder of a key at a time as another one does. -/
def DecidesAs (r' r : Repository) (key : KeyName) (now : UInt64) : Prop :=
  ∀ introspection resource method,
    r'.access introspection key resource method now = r.access introspection key resource method now

/-- Decisions are the same if the tokens of the key contribute the same. -/
theorem decidesAs_of_entitlements {r : Repository} {state : RepositoryState} {key : KeyName} {now : UInt64}
    (same : state.entitlements key now = r.state.entitlements key now) : DecidesAs { r with state } r key now := by
  intro introspection resource method
  unfold access visible
  cases r.isOpen with
  | true => exact access_congr same r.validator introspection resource method
  | false => rfl

/-- Keys with one identifier are kept apart from those with a second one, in every run in which what is withdrawn late is clear of
what took place since. -/
structure KeepsApart (first second : Bytes) : Prop where
  /-- A token that names the second identifier changes no decision about the first key when it is added. All that may be missing
  afterwards, and only at earlier times, are tokens that had ended. -/
  added : ∀ {r : Repository} {pending : List (AddedToken × Journal)}, Careful r pending →
    ∀ (host : Host) {claims : Claims} {shared : SharedKey} (senderKey : Option KeyName) (origin : TokenOrigin),
    claims.Names shared second →
    let after := (r.addToken host claims shared senderKey origin).repository
    (∀ now, host.clock ≤ now → after.DecidesAs r (.ofKid first) now) ∧
    ((∀ now, after.DecidesAs r (.ofKid first) now) ∨
      ∀ now, after.DecidesAs { r with state := r.state.sweep host.clock } (.ofKid first) now)
  /-- Nor does it when it is taken back. -/
  withdrawn : ∀ {r : Repository} {added : AddedToken} {j : Journal} {early late : List (AddedToken × Journal)},
    Careful r (early ++ (added, j) :: late) → IsClear added j r.state → added.key = .ofKid second →
    ∀ host now, (r.withdraw host added).repository.DecidesAs r (.ofKid first) now
  /-- Nor does it when it is removed. -/
  removed : ∀ {r : Repository} {pending : List (AddedToken × Journal)}, Careful r pending → ∀ {id : TokenId},
    r.keyOfToken? id = some (.ofKid second) → ∀ host now, (r.removeToken host id).repository.DecidesAs r (.ofKid first) now
  /-- A token that refers to the first identifier is bound to a key that does not have the second one. -/
  resolved : ∀ {r : Repository} {pending : List (AddedToken × Journal)}, Careful r pending →
    ∀ {host : Host} {claims : Claims} {shared : SharedKey} {senderKey : Option KeyName} {origin : TokenOrigin}
      {added : AddedToken}, claims.cnf = some (.kid first) →
    (r.addToken host claims shared senderKey origin).result = .ok added →
    added.key = .ofKid first ∧ ∃ bound : BoundKey,
      (r.addToken host claims shared senderKey origin).repository.state.keys[KeyName.ofKid first]? = some bound ∧
      bound.key.identifier? ≠ some second

/-- A token of one key changes no decision about another one when it is added. -/
theorem addToken_decidesAs {r : Repository} (sound : r.state.IsSound) (host : Host) {claims : Claims} {shared : SharedKey}
    (senderKey : Option KeyName) (origin : TokenOrigin) {kid : Bytes} (names : claims.Names shared kid) {key : KeyName}
    (apart : key ≠ .ofKid kid) :
    let after := (r.addToken host claims shared senderKey origin).repository
    (∀ now, host.clock ≤ now → after.DecidesAs r key now) ∧
    ((∀ now, after.DecidesAs r key now) ∨
      ∀ now, after.DecidesAs { r with state := r.state.sweep host.clock } key now) := by
  intro after
  have unchanged : after = r → (∀ now, host.clock ≤ now → after.DecidesAs r key now) ∧
      ((∀ now, after.DecidesAs r key now) ∨
        ∀ now, after.DecidesAs { r with state := r.state.sweep host.clock } key now) := by
    intro same
    rw [same]
    exact ⟨fun _ _ _ _ _ => rfl, Or.inl fun _ _ _ _ => rfl⟩
  cases result : (r.addToken host claims shared senderKey origin).result with
  | error e => exact unchanged (addToken_error result)
  | ok added =>
    obtain ⟨_, t, outcome, made, adds, _, counted⟩ := addToken_ok result
    cases adds with
    | again known there => exact unchanged counted
    | anew isUpdate decided admits =>
      have other : t.key ≠ key := by
        rw [(Submission.isFrom_of_ofClaims made).key_of_names names]
        exact apart.symm
      have same := (sound.sweep host.clock).entitlements_withToken admits other
      have left : after = { r with state := (r.state.sweep host.clock).withToken t isUpdate } := counted
      rw [left]
      refine ⟨?_, Or.inr ?_⟩
      · intro now le
        exact decidesAs_of_entitlements ((same now).trans (sound.entitlements_sweep le key))
      · intro now
        exact @decidesAs_of_entitlements { r with state := r.state.sweep host.clock } _ _ _ (same now)

/-- A change decides as before if every new state does. -/
theorem perform_decidesAs {α : Type} {r : Repository} {host : Host} {change : RepositoryState → Except Rejection (Outcome α)}
    {key : KeyName} {now : UInt64}
    (same : ∀ outcome next, change r.state = .ok outcome → outcome.next = some next →
      next.entitlements key now = r.state.entitlements key now) : (r.perform host change).repository.DecidesAs r key now := by
  cases result : (r.perform host change).result with
  | error e =>
    rw [perform_error result]
    exact fun _ _ _ => rfl
  | ok value =>
    obtain ⟨_, outcome, changed, _, counted⟩ := perform_ok result
    rw [counted]
    cases next : outcome.next with
    | none => exact fun _ _ _ => rfl
    | some state => exact decidesAs_of_entitlements (same outcome state changed next)

/-- A token of one key changes no decision about another one when it is removed. -/
theorem removeToken_decidesAs {r : Repository} (sound : r.state.IsSound) {id : TokenId} {own key : KeyName}
    (bound : r.keyOfToken? id = some own) (apart : own ≠ key) (host : Host) (now : UInt64) :
    (r.removeToken host id).repository.DecidesAs r key now := by
  apply perform_decidesAs
  intro outcome next changed counted
  obtain ⟨record, there, rfl⟩ := Option.map_eq_some_iff.mp bound
  have found : r.state.tokens[id]? = some record := by
    unfold visible at there
    split at there
    · exact there
    · simp at there
  have removed : next = r.state.removeToken id := by
    rw [RepositoryState.removeToken]
    cases removed : r.state.removeToken? id with
    | none =>
      rw [removed] at changed
      cases changed
      cases counted
    | some other =>
      rw [removed] at changed
      cases changed
      exact (Option.some.inj counted).symm
  rw [removed]
  exact sound.entitlements_removeToken found apart now

/-- A token of one key changes no decision about another one when it is taken back and what took place since is clear of it. -/
theorem Tracks.withdraw_decidesAs {added : AddedToken} {j : Journal} {r : Repository} (h : Tracks added j r.state)
    (sound : r.state.IsSound) (clear : IsClear added j r.state) {key : KeyName} (apart : added.key ≠ key) (host : Host)
    (now : UInt64) : (r.withdraw host added).repository.DecidesAs r key now := by
  cases displaced : added.displaced with
  | none =>
    rw [withdraw_of_again displaced]
    exact fun _ _ _ => rfl
  | some d =>
    cases result : (r.withdraw host added).result with
    | error e =>
      rw [withdraw_error result]
      exact fun _ _ _ => rfl
    | ok _ =>
      rw [withdraw_ok displaced result]
      apply decidesAs_of_entitlements
      apply sound.indexed.entitlements_congr (h.isSound_undo sound clear displaced).indexed
      rintro id record rfl _
      have of := h.displaced d displaced
      rw [tokens_dropIfOrphaned, tokens_undo r.state of.distinct, ← returned_of_displaced displaced]
      constructor
      · rintro (back | ⟨_, _, stayed⟩)
        · exact absurd (of.filed _ back).symm apart
        · exact stayed
      · intro there
        have unconcerned : ¬(id = added.id ∨ id ∈ added.returned) := fun concerned =>
          apart (h.key_of_isClear clear displaced concerned there).symm
        rw [not_or] at unconcerned
        exact Or.inr ⟨unconcerned.2, Ne.symm unconcerned.1, there⟩

/-- A token that only refers to its key is bound to a key that is there, under the name of the identifier. -/
theorem addToken_refers {r : Repository} (sound : r.state.IsSound) {host : Host} {claims : Claims} {shared : SharedKey}
    {senderKey : Option KeyName} {origin : TokenOrigin} {added : AddedToken} {kid : Bytes}
    (refers : claims.cnf = some (.kid kid)) (ok : (r.addToken host claims shared senderKey origin).result = .ok added) :
    added.key = .ofKid kid ∧
      KeyName.ofKid kid ∈ (r.addToken host claims shared senderKey origin).repository.state.keys := by
  obtain ⟨_, t, outcome, made, adds, rfl, counted⟩ := addToken_ok ok
  obtain ⟨own, brought⟩ := (Submission.isFrom_of_ofClaims made).of_kid refers
  rw [counted, own]
  cases adds with
  | again known _ =>
    obtain ⟨bound, found⟩ := mem_iff_exists_getElem?.mp (known brought)
    have before := (((sound.isWithout_sweep host.clock).keys t.key bound).mp found).1
    exact ⟨rfl, mem_iff_exists_getElem?.mpr ⟨bound, before⟩⟩
  | anew isUpdate decided admits =>
    have stored : ((r.state.sweep host.clock).withToken t isUpdate).tokens[t.id]? = some t.record := by
      rw [tokens_withToken, if_pos rfl]
    exact ⟨rfl, ((sound.sweep host.clock).withToken admits).keyed t.id t.record stored⟩

/-- Identifiers with different names are kept apart. -/
theorem keepsApart_of_ne {first second : Bytes} (apart : KeyName.ofKid first ≠ KeyName.ofKid second) :
    KeepsApart first second where
  added run host _ _ senderKey origin names := addToken_decidesAs run.isSound_and_tracks.1 host senderKey origin names apart
  withdrawn run clear own host now := by
    obtain ⟨sound, tracks⟩ := run.isSound_and_tracks
    have tracked := tracks _ (List.mem_append_right _ List.mem_cons_self)
    exact tracked.withdraw_decidesAs sound clear (own ▸ apart.symm) host now
  removed run id bound := removeToken_decidesAs run.isSound_and_tracks.1 bound apart.symm
  resolved := by
    intro r pending run host claims shared senderKey origin added refers ok
    obtain ⟨own, known⟩ := addToken_refers run.isSound_and_tracks.1 refers ok
    obtain ⟨bound, found⟩ := mem_iff_exists_getElem?.mp known
    refine ⟨own, bound, found, fun identified => ?_⟩
    have named := (Careful.add run host claims shared senderKey origin added ok).isNamed.1 _ bound found
    exact apart (PopKey.name_of_identifier? identified named)

namespace Sample

/-- A repository that knows one key, by its identifier. -/
def knowing (kid : Bytes) : Repository :=
  (carryOut { validator := ScopePolicy.validator {} } {} (.provision (.oscore { id := kid, ms := [] }))).1

/-- Provisioning one key under its own name is careful. -/
theorem careful_knowing (kid : Bytes) : Careful (knowing kid) [] :=
  .other (.start _ none) {} _

/-- The claims of a token that refers to a key. -/
def referring (kid : Bytes) : Claims :=
  ((Claims.empty.set .cti [1]).set .cnf (.kid kid)).set .scope (.text "r_temp")

theorem agreedKey?_knowing (kid : Bytes) :
    (knowing kid).state.agreedKey? (.ofKid kid) = some (.oscore { id := kid, ms := [] }) := by
  rw [agreedKey?_eq_some_iff]
  exact Std.ExtTreeMap.getElem?_insert_self

/-- A token that refers to a key by an identifier that has its name is added. -/
theorem exists_addToken_knowing {kid other : Bytes} (same : KeyName.ofKid other = KeyName.ofKid kid) :
    ∃ added, ((knowing kid).addToken {} (referring other) shared none .selfContained).result = .ok added := by
  have sound := (careful_knowing kid).isSound_and_tracks.1
  obtain ⟨t, made⟩ : ∃ t, Submission.ofClaims (referring other) shared .selfContained = .ok t := ⟨_, rfl⟩
  have source := Submission.isFrom_of_ofClaims made
  have refers : (referring other).cnf = some (.kid other) := rfl
  have known : t.key ∈ ((knowing kid).state.sweep 0).keys := by
    have stays := ((sound.isWithout_sweep 0).agreedKey?_eq (.ofKid kid)).trans (agreedKey?_knowing kid)
    rw [← (source.of_kid refers).1, same]
    exact mem_iff_exists_getElem?.mpr ⟨_, (agreedKey?_eq_some_iff _ _ _).mp stays⟩
  have free : ∀ record : TokenRecord, ((knowing kid).state.sweep 0).tokens[t.id]? ≠ some record := by
    intro record found
    have empty : (knowing kid).state.tokens = ∅ := rfl
    have there := ((tokens_sweep _ 0 t.id record).mp found).1
    simp [empty] at there
  obtain ⟨outcome, changed⟩ := (sound.exists_add_eq_ok_iff source none 0).mpr
    ⟨fun _ => known, Or.inr fun record found => absurd found (free record)⟩
  have unsaved : (knowing kid).store = none := rfl
  rw [addToken_eq made]
  exact ⟨_, (perform_eq_ok rfl (by simp [Saves, unsaved]) changed (by simp [unsaved])).1⟩

end Sample

/-- Identifiers with the same name are not kept apart: a token that refers to one of them takes the key of the other. -/
theorem not_keepsApart_of_eq {first second : Bytes} (same : KeyName.ofKid first = KeyName.ofKid second) :
    ¬KeepsApart first second := by
  intro h
  have run := Sample.careful_knowing second
  obtain ⟨added, ok⟩ := Sample.exists_addToken_knowing same
  obtain ⟨_, bound, found, apart⟩ := h.resolved run rfl ok
  have stays := (agreedKey?_addToken run.isSound_and_tracks.1 {} (Sample.referring first) Sample.shared none .selfContained
    (.ofKid second)).trans (Sample.agreedKey?_knowing second)
  rw [agreedKey?_eq_some_iff, ← same, found] at stays
  cases stays
  exact apart rfl

/-- Keys with different identifiers are kept apart exactly if neither identifier is the text that spells the other one in base64. -/
theorem keepsApart_iff {first second : Bytes} :
    KeepsApart first second ↔ first ≠ second ∧ ¬KeyName.Spells first second ∧ ¬KeyName.Spells second first := by
  rw [← not_or, ← not_or, ← KeyName.ofKid_eq_iff]
  exact ⟨fun h same => not_keepsApart_of_eq same h, keepsApart_of_ne⟩

/-- A single byte that is no text, and the text `/w==` that spells it. -/
theorem not_keepsApart_of_spelling :
    ([0xff] : Bytes) ≠ Text.utf8 "/w==" ∧ ¬KeepsApart [0xff] (Text.utf8 "/w==") ∧ ¬KeepsApart (Text.utf8 "/w==") [0xff] ∧
      KeepsApart (Text.utf8 "a") (Text.utf8 "b") := by
  have spelled : KeyName.Spells [0xff] (Text.utf8 "/w==") := by decide +kernel
  refine ⟨by decide +kernel, ?_, ?_, keepsApart_iff.mpr (by decide +kernel)⟩
  · exact fun h => (keepsApart_iff.mp h).2.1 spelled
  · exact fun h => (keepsApart_iff.mp h).2.2 spelled

end Repository

end TokenGate
