import TokenGate.Proofs.Access.History
import TokenGate.Proofs.Admission.Updates
import TokenGate.Proofs.Claims.Equality
import TokenGate.Proofs.Repository.Undoing

/-!
# Posting a message again

A token without an identifier gets one that is derived from its claims, so that the token is recognized when it is added again, and
nothing changes then. An admission goes wrong all the same if it takes the token for an update, as it does if the token only refers
to its key and the sender is authenticated with that key: by then the token is one that could be updated.
-/

namespace TokenGate

namespace Submission

variable {t : Submission} {claims : Claims} {shared : SharedKey} {origin : TokenOrigin}

/-- Claims without an identifier get one that is derived from them. -/
theorem IsFrom.isDerived (h : t.IsFrom claims shared origin) (unnamed : claims.cti = none) : t.isDerived = true := by
  have given := h.id
  unfold idOf at given
  rw [unnamed] at given
  cases encoded : claims.encode with
  | error failure =>
    rw [encoded] at given
    nomatch given
  | ok bytes =>
    rw [encoded] at given
    exact (congrArg Prod.snd (Except.ok.inj given)).symm

/-- A token ends when its claims say so. -/
theorem IsFrom.isExpiredAt_record (h : t.IsFrom claims shared origin) (now : UInt64) :
    t.record.claims.isExpiredAt now = claims.isExpiredAt now := by
  have same : t.record.claims.expiration = claims.expiration := by
    rw [record, h.claims]
    exact @Claims.known_set_of_ne claims .cti .exp t.id.bytes (by decide)
  rw [Claims.isExpiredAt, Claims.isExpiredAt, same]

end Submission

namespace RepositoryState

/-! ## Sweeping once more -/

/-- Nothing is swept from a state in which no token has ended. -/
theorem sweep_eq_self {s : RepositoryState} {now : UInt64}
    (alive : ∀ (id : TokenId) (record : TokenRecord), s.tokens[id]? = some record → record.claims.isExpiredAt now = false) :
    s.sweep now = s := by
  have none : s.expired now = [] := by
    rw [List.eq_nil_iff_forall_not_mem]
    intro id ended
    obtain ⟨record, found, ended⟩ := (mem_expired_iff s now id).mp ended
    rw [alive id record found] at ended
    nomatch ended
  rw [sweep, none, List.foldl_nil]

/-! ## Adding once more -/

/-- A token is taken for itself if it is there with claims that equal themselves. -/
theorem isResubmission_of_tokens {s : RepositoryState} {t : Submission} (derived : t.isDerived = true)
    (numbers : t.claims.hasNoNaN = true) (there : s.tokens[t.id]? = some t.record) : s.isResubmission t = true := by
  rw [isResubmission, derived, there, Bool.true_and, Option.any_some]
  exact t.claims.eq_self.trans numbers

/-- The key of a token has a token that has not ended, once one is added that has not. -/
theorem hasUnexpired_withToken (s : RepositoryState) {t : Submission} (isUpdate : Bool) {now : UInt64}
    (alive : t.record.claims.isExpiredAt now = false) : (s.withToken t isUpdate).hasUnexpired t.key now = true := by
  rw [hasUnexpired, List.any_eq_true]
  refine ⟨t.id, ?_, ?_⟩
  · rw [Std.ExtTreeSet.mem_toList, withToken, mem_idsOf_insertToken]
    exact Or.inl ⟨rfl, rfl⟩
  · rw [tokens_withToken, if_pos rfl, Option.any_some, alive]
    rfl

/-- A token that is there already is not added once more. -/
theorem add_of_isResubmission {s : RepositoryState} {t : Submission} {now : UInt64}
    (known : t.carried = none → t.key ∈ (s.sweep now).keys) (there : (s.sweep now).isResubmission t = true)
    (senderKey : Option KeyName) :
    s.add t senderKey now = .ok (.unchanged { id := t.id, key := t.key, isUpdate := false, displaced := none }) := by
  have found : ¬(t.carried.isNone && !(s.sweep now).keys.contains t.key) = true := by
    rw [Bool.and_eq_true, not_and, Option.isNone_iff_eq_none]
    intro brought
    simpa using known brought
  unfold add
  simp only
  rw [if_neg found, if_pos there]

end RepositoryState

namespace Repository

variable {r : Repository} {host : Host} {claims : Claims} {shared : SharedKey} {senderKey : Option KeyName}
  {origin : TokenOrigin} {added : AddedToken} {t : Submission}

/-- An operation that changes nothing leaves repository and host as they were. -/
theorem perform_of_unchanged {α : Type} {change : RepositoryState → Except Rejection (Outcome α)} {value : α}
    (isOpen : r.isOpen = true) (changed : change r.state = .ok (.unchanged value)) :
    r.perform host change = ⟨.ok value, r, host⟩ := by
  unfold perform
  rw [if_pos isOpen, changed]
  rfl

/-- What an addition that succeeds leaves behind: all as it was if the token was there before, and else the token. -/
theorem addToken_again_or_anew (made : Submission.ofClaims claims shared origin = .ok t)
    (ok : (r.addToken host claims shared senderKey origin).result = .ok added) :
    r.isOpen = true ∧ added.id = t.id ∧ added.key = t.key ∧
      (((t.carried = none → t.key ∈ (r.state.sweep host.clock).keys) ∧ added.isUpdate = false ∧
          (r.state.sweep host.clock).isResubmission t = true ∧
          r.addToken host claims shared senderKey origin = ⟨.ok added, r, host⟩) ∨
        (r.state.sweep host.clock).isResubmission t = false ∧ (r.state.sweep host.clock).Admits t added.isUpdate ∧
          (r.addToken host claims shared senderKey origin).repository =
            { r with state := (r.state.sweep host.clock).withToken t added.isUpdate }) := by
  rw [addToken_eq made] at ok ⊢
  obtain ⟨isOpen, outcome, changed, rfl, counted⟩ := perform_ok ok
  have resubmitted := RepositoryState.isResubmission_of_add changed
  have adds := RepositoryState.adds_of_add (Submission.isFrom_of_ofClaims made).isOf changed
  cases adds with
  | again known there =>
    exact ⟨isOpen, rfl, rfl, Or.inl ⟨known, rfl, there, perform_of_unchanged isOpen changed⟩⟩
  | anew isUpdate decided admits => exact ⟨isOpen, rfl, rfl, Or.inr ⟨resubmitted, admits, counted⟩⟩

/-- A token without an identifier of its own that was added is recognized if it is added again at the same time, whoever sends it,
and nothing changes. -/
theorem addToken_addToken (ok : (r.addToken host claims shared senderKey origin).result = .ok added)
    (unnamed : claims.cti = none) (numbers : claims.hasNoNaN = true) (alive : claims.isExpiredAt host.clock = false)
    {later : Host} (time : later.clock = host.clock) (senderKey' : Option KeyName) :
    (r.addToken host claims shared senderKey origin).repository.addToken later claims shared senderKey' origin =
      ⟨.ok { id := added.id, key := added.key, isUpdate := false, displaced := none },
        (r.addToken host claims shared senderKey origin).repository, later⟩ := by
  obtain ⟨isOpen, t, _, made, _⟩ := addToken_ok ok
  have from' := Submission.isFrom_of_ofClaims made
  have derived := from'.isDerived unnamed
  have numbers' : t.claims.hasNoNaN = true := by rw [from'.claims, Claims.hasNoNaN_set_cti, numbers]
  have alive' := (from'.isExpiredAt_record host.clock).trans alive
  obtain ⟨_, id, key, ⟨known, _, there, same⟩ | ⟨_, admits, left⟩⟩ := addToken_again_or_anew made ok
  · rw [same, addToken_eq made, id, key]
    exact perform_of_unchanged isOpen (time ▸ RepositoryState.add_of_isResubmission known there senderKey')
  · rw [left, addToken_eq made, id, key]
    -- No token is left that has ended, so that a second sweep does nothing.
    have swept : ((r.state.sweep host.clock).withToken t added.isUpdate).sweep host.clock =
        (r.state.sweep host.clock).withToken t added.isUpdate := by
      apply RepositoryState.sweep_eq_self
      intro other record found
      rcases RepositoryState.eq_record_of_tokens_withToken found with rfl | before
      · exact alive'
      · exact ((r.state.tokens_sweep host.clock other record).mp before).2
    have there : ((r.state.sweep host.clock).withToken t added.isUpdate).isResubmission t = true := by
      apply RepositoryState.isResubmission_of_tokens derived numbers'
      rw [RepositoryState.tokens_withToken, if_pos rfl]
    have known : t.key ∈ ((r.state.sweep host.clock).withToken t added.isUpdate).keys := by
      rw [Std.ExtTreeMap.mem_iff_isSome_getElem?, RepositoryState.keys_withToken,
        ← Std.ExtTreeMap.mem_iff_isSome_getElem?]
      exact RepositoryState.mem_keys_learnKey_self admits.known
    refine perform_of_unchanged isOpen ?_
    rw [time]
    exact RepositoryState.add_of_isResubmission (fun _ => swept.symm ▸ known) (swept.symm ▸ there) senderKey'

end Repository

namespace Endpoint

/-! ## Posting once more -/

/-- A message that comes again, whose token only refers to its key, was new when it came first, and is from a sender that is
authenticated with that key now. -/
structure IsTakenForUpdate (message : Message) (claims : Claims) (before after : Server) (key : KeyName) : Prop where
  refers : ∃ kid, claims.cnf = some (.kid kid)
  sender : senderKey message after = some key
  new : after ≠ before

variable {e : Endpoint} {message : Message} {before after : Server} {trace : List Stage} {admitted : AdmittedToken}
  {request : Request} {claims : Claims} {origin : TokenOrigin}

/-- The setup of the profile for DTLS does nothing, and neither does its check. -/
theorem IsPrepared.setup_eq {p : Prepared} (dtls : e.profile = .dtls) (prepared : e.IsPrepared message before p) :
    p.accepted.setup = Profile.noSetup := by
  have checked := prepared.checked
  rw [dtls] at checked
  exact (Except.ok.inj checked).symm

/-- The clock stands still while a token is added. -/
theorem clock_addTo (p : Prepared) (e : Endpoint) (server : Server) : (p.addTo e server).host.clock = server.host.clock :=
  (server.repository.addToken_stays server.host p.claims e.shared p.accepted.senderKey p.origin).clock

/-- What is known of a message that was prepared before, if it is prepared again on a server under DTLS. -/
def Prepared.again (p : Prepared) (message : Message) (server : Server) : Prepared :=
  { p with accepted :=
    { senderKey := Endpoint.senderKey message server
      isUpdate := server.repository.updateApplies server.host p.claims (Endpoint.senderKey message server)
      setup := Profile.noSetup } }

/-- A message that was prepared is prepared again at the same time. -/
theorem IsPrepared.again {p : Prepared} (dtls : e.profile = .dtls) (prepared : e.IsPrepared message before p)
    (time : after.host.clock = before.host.clock) : e.IsPrepared message after (p.again message after) := by
  refine ⟨prepared.read, ?_, rfl, rfl, ?_⟩
  · rw [time]
    exact prepared.valid
  · rw [dtls]
    rfl

/-- The token of a message that comes again is recognized, and nothing changes. -/
theorem IsPrepared.addition_again {p : Prepared} {added : AddedToken} (prepared : e.IsPrepared message before p)
    (unnamed : p.claims.cti = none) (numbers : p.claims.hasNoNaN = true) (adds : (p.addition e before).result = .ok added) :
    (p.again message (p.addTo e before)).addition e (p.addTo e before) =
      ⟨.ok { id := added.id, key := added.key, isUpdate := false, displaced := none },
        (p.addTo e before).repository, (p.addTo e before).host⟩ :=
  Repository.addToken_addToken adds unnamed numbers (not_isExpiredAt_of_validate prepared.valid) (clock_addTo p e before) _

/-- Right after an admission, the message is taken for an update exactly if its token is a new one that only refers to its key, and
the sender is authenticated with the key. -/
theorem IsPrepared.updateApplies_iff {p : Prepared} {added : AddedToken} (prepared : e.IsPrepared message before p)
    (unnamed : p.claims.cti = none) (numbers : p.claims.hasNoNaN = true)
    (adds : (p.addition e before).result = .ok added) (agreed : added.isUpdate = p.accepted.isUpdate) :
    (p.addTo e before).repository.updateApplies (p.addTo e before).host p.claims (Endpoint.senderKey message (p.addTo e before)) =
      true ↔ IsTakenForUpdate message p.claims before (p.addTo e before) added.key := by
  obtain ⟨_, t, _, made, _⟩ := Repository.addToken_ok adds
  have from' := Submission.isFrom_of_ofClaims made
  have numbers' : t.claims.hasNoNaN = true := by rw [from'.claims, Claims.hasNoNaN_set_cti, numbers]
  have alive := (from'.isExpiredAt_record before.host.clock).trans (not_isExpiredAt_of_validate prepared.valid)
  obtain ⟨isOpen, id, key, cases⟩ := Repository.addToken_again_or_anew made adds
  rw [Repository.updateApplies_eq_true_iff, clock_addTo]
  constructor
  · rintro ⟨kid, confirmed, sender, held⟩
    have named := (from'.of_kid confirmed).1.symm
    refine ⟨⟨kid, confirmed⟩, by rw [sender, key, named], ?_⟩
    -- If the server were the same, the token would have been taken for an update before, too, and not for one that is there.
    intro same
    have expected : p.accepted.isUpdate = true := by
      rw [prepared.isUpdate, Repository.updateApplies_eq_true_iff]
      rw [same] at sender held
      exact ⟨kid, confirmed, sender, held⟩
    rcases cases with ⟨_, plain, _⟩ | ⟨other, _, left⟩
    · rw [expected, plain] at agreed
      nomatch agreed
    · have there : (before.repository.state.sweep before.host.clock).tokens[t.id]? = some t.record := by
        rw [RepositoryState.tokens_sweep]
        refine ⟨?_, alive⟩
        have left' : before.repository = _ := (congrArg Server.repository same).symm.trans left
        rw [left', RepositoryState.tokens_withToken, if_pos rfl]
      rw [RepositoryState.isResubmission_of_tokens (from'.isDerived unnamed) numbers' there] at other
      nomatch other
  · rintro ⟨⟨kid, confirmed⟩, sender, new⟩
    have named := (from'.of_kid confirmed).1.symm
    refine ⟨kid, confirmed, by rw [sender, key, named], ?_⟩
    rcases cases with ⟨_, _, _, same⟩ | ⟨_, _, left⟩
    · refine absurd ?_ new
      rw [Prepared.addTo, Prepared.addition, same]
    · have visible : (p.addTo e before).repository.visible =
          (before.repository.state.sweep before.host.clock).withToken t added.isUpdate := by
        rw [Prepared.addTo, Prepared.addition, left, Repository.visible]
        exact if_pos isOpen
      rw [visible, ← named]
      exact RepositoryState.hasUnexpired_withToken _ _ alive

/-- What a message comes to if it is posted again. -/
theorem receive_again (dtls : e.profile = .dtls) (read : e.read message = .ok (request, claims, origin))
    (unnamed : claims.cti = none) (numbers : claims.hasNoNaN = true)
    (first : e.receive message before = (⟨trace, .ok admitted⟩, after)) :
    (e.receive message after).2 = after ∧
      (¬IsTakenForUpdate message claims before after admitted.key → (e.receive message after).1.result = .ok admitted) ∧
      (IsTakenForUpdate message claims before after admitted.key →
        (e.receive message after).1.result = .error .internalError) := by
  have tame : e.profile.IsTame := dtls ▸ Profile.isTame_dtls
  have admits := admits_of_receive tame (congrArg (fun received => received.1.result) first)
  rw [first] at admits
  simp only at admits
  obtain @⟨p, added, extras, _, prepared, adds, agreed, setUp⟩ := admits
  have same := prepared.read.symm.trans read
  rw [prepared.setup_eq dtls] at setUp
  cases setUp
  cases same
  simp only
  rw [← prepared.updateApplies_iff unnamed numbers adds agreed]
  have again := prepared.again dtls (clock_addTo p e before)
  have adds' := prepared.addition_again unnamed numbers adds
  generalize p.addTo e before = after at again adds' ⊢
  have result := congrArg Repository.Effect.result adds'
  have unchanged : (p.again message after).addTo e after = after := by rw [Prepared.addTo, adds']
  cases decided : after.repository.updateApplies after.host p.claims (Endpoint.senderKey message after) with
  | false =>
    have received := (Admits.intro again result decided.symm rfl).receive tame
    rw [received]
    exact ⟨unchanged, fun _ => rfl, nofun⟩
  | true =>
    have disagreed : false ≠ (p.again message after).accepted.isUpdate := Bool.false_ne_true.trans_eq decided.symm
    rw [again.receive_of_disagreed tame result disagreed, unchanged]
    exact ⟨rfl, fun expected => absurd rfl expected, fun _ => rfl⟩

namespace Sample

/-- An endpoint that takes tokens of an issuer without a name, if they are encrypted. -/
def opener : Endpoint :=
  { endpoint with
    introspection := none
    issuers := [""]
    audiences := [""]
    validator := ScopePolicy.validator { grants := [⟨"x", "temp", [.get]⟩] } }

/-- A message with a token that has no identifier and only refers to the key `a`. -/
def referring : Message where
  payload := [0x83, 0x40, 0xa1, 0x05, 0x4d] ++ List.replicate 13 0x00 ++ [0x55, 0x71, 0x79, 0x92, 0x0e, 0x60, 0x9d,
    0x2d, 0x6f, 0x11, 0x0f, 0x3f, 0x17, 0xe6, 0xd7, 0x74, 0x93, 0x8d, 0xe5, 0xc5, 0xbd, 0x71]

/-- The same message from a sender that is authenticated with the key. -/
def authenticated : Message := { referring with sender := some "a" }

/-- What a message comes to on a server without tokens. -/
def posted (message : Message) : Admission × Server := opener.receive message server

/-- Whether the claims of a message are without an identifier and without NaN. -/
def isPlain (message : Message) : Bool :=
  (opener.read message).toOption.any fun (_, claims, _) => claims.cti.isNone && claims.hasNoNaN

/-- Whether a message is admitted if it comes once, and if it comes again. -/
def isAdmitted (message : Message) : Bool × Bool :=
  ((posted message).1.result.isOk, (opener.receive message (posted message).2).1.result.isOk)

end Sample

/-- The token is admitted again, unless the sender is authenticated. The server stays as it is in either case. -/
theorem receive_again_of_reference :
    (∃ admitted, (Sample.posted Sample.referring).1.result = .ok admitted ∧
      (Sample.opener.receive Sample.referring (Sample.posted Sample.referring).2).1.result = .ok admitted) ∧
    (∃ admitted, (Sample.posted Sample.authenticated).1.result = .ok admitted ∧
      (Sample.opener.receive Sample.authenticated (Sample.posted Sample.authenticated).2).1.result = .error .internalError ∧
      (Sample.opener.receive Sample.authenticated (Sample.posted Sample.authenticated).2).2 =
        (Sample.posted Sample.authenticated).2) := by
  -- All of this is computed at once, so that the token is decrypted only once.
  have computed : (Sample.isPlain Sample.referring = true ∧ Sample.isPlain Sample.authenticated = true) ∧
      Sample.isAdmitted Sample.referring = (true, true) ∧ Sample.isAdmitted Sample.authenticated = (true, false) := by
    decide +kernel
  obtain ⟨⟨plain, plain'⟩, twice, once⟩ := computed
  have again : ∀ message : Message, Sample.isPlain message = true → (Sample.isAdmitted message).1 = true →
      ∃ admitted, (Sample.posted message).1.result = .ok admitted ∧
        (Sample.opener.receive message (Sample.posted message).2).2 = (Sample.posted message).2 ∧
        ((Sample.opener.receive message (Sample.posted message).2).1.result = .ok admitted ∨
          (Sample.opener.receive message (Sample.posted message).2).1.result = .error .internalError) := by
    intro message plain admits
    obtain ⟨⟨request, claims, origin⟩, read, own⟩ := Option.any_eq_true _ _ |>.mp plain
    simp only [Bool.and_eq_true, Option.isNone_iff_eq_none] at own
    cases result : (Sample.posted message).1.result with
    | error failure =>
      rw [Sample.isAdmitted, result] at admits
      nomatch admits
    | ok admitted =>
      obtain ⟨unchanged, repeated, refused⟩ := receive_again rfl (Repository.eq_ok_of_toOption read) own.1 own.2
        (show Sample.opener.receive message Sample.server = (⟨_, .ok admitted⟩, _) from Prod.ext (by rw [← result]; rfl) rfl)
      exact ⟨admitted, rfl, unchanged, (em _).symm.imp repeated refused⟩
  obtain ⟨admitted, first, _, second⟩ := again _ plain (congrArg Prod.fst twice)
  obtain ⟨admitted', first', unchanged, second'⟩ := again _ plain' (congrArg Prod.fst once)
  refine ⟨⟨admitted, first, second.resolve_right ?_⟩, admitted', first', second'.resolve_left ?_, unchanged⟩
  · intro refused
    have other := congrArg Prod.snd twice
    rw [Sample.isAdmitted, refused] at other
    nomatch other
  · intro repeated
    have other := congrArg Prod.snd once
    rw [Sample.isAdmitted, repeated] at other
    nomatch other

end Endpoint

end TokenGate
