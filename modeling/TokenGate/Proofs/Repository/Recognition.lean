import TokenGate.Proofs.Admission.Retransmission
import TokenGate.Proofs.Claims.Ordering

/-!
# Tokens that are recognized

A token without an identifier is known by its claims, and claims are the same in whatever order their entries come. As long as a
token is there and has not ended, it is recognized when it comes again: neither the sender, nor how the token was presented, nor
anything else in the repository makes a difference, and nothing is changed.
-/

namespace TokenGate

namespace Submission

/-- What a token is resolved to is determined by its claims, but for how it was presented. -/
theorem IsFrom.ofClaims_eq {t : Submission} {claims : Claims} {shared : SharedKey} {origin : TokenOrigin}
    (h : t.IsFrom claims shared origin) (origin' : TokenOrigin) :
    ofClaims claims shared origin' = .ok { t with origin := origin' } := by
  obtain ⟨claim, given, parsed⟩ := Option.map_eq_some_iff.mp h.scope
  obtain ⟨cnf, confirmed, keyed⟩ := h.key
  simp only [ofClaims, given, confirmed, required, parsed, keyed, h.id, h.claims, bind, Except.bind, Except.mapError]

end Submission

namespace Repository

section

variable {r later : Repository} {host host' : Host} {claims : Claims} {shared : SharedKey} {senderKey : Option KeyName}
  {origin : TokenOrigin} {added : AddedToken}

/-- What can be known of a token is in the state of an open repository. -/
theorem exists_record_of_claims? {id : TokenId} {found : Claims} (known : r.claims? id = some found) :
    r.isOpen = true ∧ ∃ record, r.state.tokens[id]? = some record ∧ record.claims = found := by
  obtain ⟨record, there, rfl⟩ := Option.map_eq_some_iff.mp known
  unfold visible at there
  split at there
  · rename_i isOpen
    exact ⟨isOpen, record, there, rfl⟩
  · simp at there

/-- A token that was added is there, with claims that count as its own. -/
theorem exists_claims?_addToken {t : Submission} (made : Submission.ofClaims claims shared origin = .ok t)
    (numbers : t.claims.hasNoNaN = true) (ok : (r.addToken host claims shared senderKey origin).result = .ok added) :
    ∃ found, (r.addToken host claims shared senderKey origin).repository.claims? added.id = some found ∧
      found.eq t.claims = true := by
  obtain ⟨isOpen, id, _, ⟨_, _, there, same⟩ | ⟨_, _, left⟩⟩ := addToken_again_or_anew made ok
  · rw [RepositoryState.isResubmission, Bool.and_eq_true, Option.any_eq_true] at there
    obtain ⟨_, record, found, equal⟩ := there
    have before := ((r.state.tokens_sweep host.clock t.id record).mp found).1
    refine ⟨record.claims, ?_, equal⟩
    rw [same, claims?, visible, if_pos isOpen, id, before]
    rfl
  · refine ⟨t.claims, ?_, t.claims.eq_self.trans numbers⟩
    rw [left, claims?, visible, if_pos isOpen, id, RepositoryState.tokens_withToken, if_pos rfl]
    rfl

/-- A repository that still has a token as it was added: with the claims that were left in the repository then, and with its key. -/
structure StillHas (later first : Repository) (added : AddedToken) : Prop where
  claims : later.claims? added.id = first.claims? added.id
  key : later.keyOfToken? added.id = some added.key

/-- A token without an identifier of its own is recognized while it is there and has not ended, and nothing changes. -/
theorem addToken_of_stillHas (ok : (r.addToken host claims shared senderKey origin).result = .ok added)
    (unnamed : claims.cti = none) (numbers : claims.hasNoNaN = true) (sound : later.state.IsSound)
    (has : later.StillHas (r.addToken host claims shared senderKey origin).repository added)
    (alive : claims.isExpiredAt host'.clock = false) (senderKey' : Option KeyName) (origin' : TokenOrigin) :
    later.addToken host' claims shared senderKey' origin' =
      ⟨.ok { id := added.id, key := added.key, isUpdate := false, displaced := none }, later, host'⟩ := by
  obtain ⟨_, t, _, made, _⟩ := addToken_ok ok
  have from' := Submission.isFrom_of_ofClaims made
  obtain ⟨_, id, key, _⟩ := addToken_again_or_anew made ok
  have numbers' : t.claims.hasNoNaN = true := by rw [from'.claims, Claims.hasNoNaN_set_cti, numbers]
  obtain ⟨kept, left, equal⟩ := exists_claims?_addToken made numbers' ok
  obtain ⟨isOpen, record, there, rfl⟩ := exists_record_of_claims? (has.claims.trans left)
  rw [id] at there
  have own : record.key = t.key := by
    have known := has.key
    rw [keyOfToken?, visible, if_pos isOpen, id, there, key] at known
    exact Option.some.inj known
  -- The token that is there ends when this one does, so it stays.
  have alive' : record.claims.isExpiredAt host'.clock = false := by
    have same : record.claims.expiration = t.claims.expiration := Claims.known_eq_of_eq equal (by decide)
    rw [Claims.isExpiredAt, same]
    exact (from'.isExpiredAt_record host'.clock).trans alive
  have stays : (later.state.sweep host'.clock).tokens[t.id]? = some record :=
    (later.state.tokens_sweep host'.clock t.id record).mpr ⟨there, alive'⟩
  have resubmitted : (later.state.sweep host'.clock).isResubmission { t with origin := origin' } = true := by
    rw [RepositoryState.isResubmission, from'.isDerived unnamed, stays, Option.any_some, equal, Bool.and_self]
  have known : t.key ∈ (later.state.sweep host'.clock).keys := own ▸ (sound.sweep host'.clock).keyed t.id record stays
  rw [addToken_eq (from'.ofClaims_eq origin'), id, key]
  exact perform_of_unchanged isOpen (RepositoryState.add_of_isResubmission (t := { t with origin := origin' })
    (fun _ => known) resubmitted senderKey')

end

/-- A map that was read as claims is read as the same claims in any other order of its entries, so that the bytes they are written
as, and the identifier that is derived from these, are the same too. A token with such claims, if it has no identifier of its own, is
recognized in any order of the entries, while it is there as it was added and has not ended. -/
theorem recognizes_reordered {entries : List (Cbor.Value × Cbor.Value)} {claims : Claims}
    (read : Claims.ofValue (.map entries) = .ok claims) :
    (∀ entries', Claims.Reorders entries' entries → Claims.ofValue (.map entries') = .ok claims) ∧
    ∀ (r : Repository) (host : Host) (shared : SharedKey) (senderKey : Option KeyName) (origin : TokenOrigin) (added : AddedToken),
      (r.addToken host claims shared senderKey origin).result = .ok added → claims.cti = none → claims.hasNoNaN = true →
      ∀ (later : Repository) (host' : Host), later.state.IsSound →
        later.StillHas (r.addToken host claims shared senderKey origin).repository added → claims.isExpiredAt host'.clock = false →
        ∀ entries' claims', Claims.Reorders entries' entries → Claims.ofValue (.map entries') = .ok claims' →
          ∀ (senderKey' : Option KeyName) (origin' : TokenOrigin), later.addToken host' claims' shared senderKey' origin' =
            ⟨.ok { id := added.id, key := added.key, isUpdate := false, displaced := none }, later, host'⟩ := by
  have same : ∀ entries', Claims.Reorders entries' entries → Claims.ofValue (.map entries') = .ok claims :=
    fun _ reorders => reorders.ofValue_eq read
  refine ⟨same, ?_⟩
  intro r host shared senderKey origin added ok unnamed numbers later host' sound has alive entries' claims' reorders read'
    senderKey' origin'
  obtain rfl : claims = claims' := Except.ok.inj ((same entries' reorders).symm.trans read')
  exact addToken_of_stillHas ok unnamed numbers sound has alive senderKey' origin'

namespace Sample

/-- The entries of claims that refer to the key `a`, with two that the server does not act on. -/
def entries : List (Cbor.Value × Cbor.Value) :=
  [(.uint 9, .text "r_temp"), (.text "x", .uint 1), (.uint 8, .map [(.uint 3, .bytes [0x61])]), (.text "y", .null)]

/-- The entries with the first one at the end. -/
def reordered : List (Cbor.Value × Cbor.Value) :=
  [(.text "x", .uint 1), (.uint 8, .map [(.uint 3, .bytes [0x61])]), (.text "y", .null), (.uint 9, .text "r_temp")]

/-- The claims that they are. -/
def entered : Claims :=
  (((Claims.empty.set .scope (.text "r_temp")).addExtra (.text "x") (.uint 1)).set .cnf (.kid [0x61])).addExtra (.text "y") .null

/-- The addition of a token with these claims. -/
def entering : Effect AddedToken := repository.addToken {} entered shared none .selfContained

/-- With the token, the repository is sound. -/
theorem isSound_entering : entering.repository.state.IsSound :=
  (Orderly.add orderly_repository _ _ _ _ _).isSound_and_isJustAfter.1

end Sample

/-- A token that comes again later, in another order, by reference, and from a client that is authenticated with its key, is
recognized and does not count as an update. -/
theorem recognizes_reordered_of_sender :
    Sample.reordered.Perm Sample.entries ∧ Claims.ofValue (.map Sample.reordered) = .ok Sample.entered ∧
      ∃ added, Sample.entering.result = .ok added ∧ added.key = ⟨"a"⟩ ∧
        Sample.entering.repository.addToken { clock := 5 } Sample.entered Sample.shared (some ⟨"a"⟩) (.reference "x") =
          ⟨.ok { id := added.id, key := added.key, isUpdate := false, displaced := none }, Sample.entering.repository,
            { clock := 5 }⟩ := by
  have perm : (Sample.reordered.take 3 ++ Sample.reordered.drop 3).Perm (Sample.reordered.drop 3 ++ Sample.reordered.take 3) :=
    List.perm_append_comm
  have reorders : Claims.Reorders Sample.reordered Sample.entries := ⟨perm, rfl⟩
  have read : Claims.ofValue (.map Sample.entries) = .ok Sample.entered := rfl
  obtain ⟨same, recognized⟩ := recognizes_reordered read
  obtain ⟨added, found⟩ := Option.isSome_iff_exists.mp (show Sample.entering.result.toOption.isSome = true by decide +kernel)
  have ok := eq_ok_of_toOption found
  have outcome : (Sample.entering.result.toOption.map fun added =>
      (added.key, Sample.entering.repository.keyOfToken? added.id)) = some (⟨"a"⟩, some ⟨"a"⟩) := by decide +kernel
  rw [found] at outcome
  obtain ⟨key, bound⟩ := Prod.mk.inj (Option.some.inj outcome)
  refine ⟨reorders.perm, same _ reorders, added, ok, key, ?_⟩
  have has : Sample.entering.repository.StillHas Sample.entering.repository added := ⟨rfl, bound.trans (congrArg some key.symm)⟩
  exact recognized _ _ _ _ _ added ok rfl (by decide) _ _ Sample.isSound_entering has rfl _ _ reorders (same _ reorders) _ _

end Repository

end TokenGate
