import TokenGate.Proofs.Admission.Retransmission

/-!
# The order of additions

Tokens that have identifiers of their own, all different, that have not ended and whose senders are not authenticated do not get
into each other's way: none of them replaces, sweeps or stands for another. So it does not matter in which order they are added.
Only where two of them bring along a key under one name does the order show, in which of the two keys is there in the end.
-/

namespace TokenGate

/-- A token to be added, from a sender that is not authenticated. -/
structure Offer where
  claims : Claims
  shared : SharedKey
  origin : TokenOrigin

namespace Offer

/-- What the token of an offer is resolved to. -/
def submission? (o : Offer) : Option Submission :=
  (Submission.ofClaims o.claims o.shared o.origin).toOption

/-- Whether the token of an offer brings a key along, under a name. -/
def Brings (o : Offer) (name : KeyName) (key : PopKey) : Prop :=
  ∃ cnf, o.claims.cnf = some cnf ∧ Submission.keyOf o.shared cnf = .ok (name, some key)

/-- The submission of an offer is made from its claims. -/
theorem isFrom_of_submission? {o : Offer} {t : Submission} (h : o.submission? = some t) :
    t.IsFrom o.claims o.shared o.origin :=
  Submission.isFrom_of_ofClaims (Repository.eq_ok_of_toOption h)

end Offer

namespace Submission

variable {t : Submission} {claims : Claims} {shared : SharedKey} {origin : TokenOrigin}

/-- A token has the identifier in its claims, which is not derived then. -/
theorem IsFrom.of_cti (h : t.IsFrom claims shared origin) {bytes : Bytes} (given : claims.cti = some bytes) :
    t.id = ⟨bytes⟩ ∧ t.isDerived = false := by
  have identified := h.id
  rw [idOf, given] at identified
  obtain ⟨id, derived⟩ := Prod.mk.inj (Except.ok.inj identified)
  exact ⟨id.symm, derived.symm⟩

/-- A key that a token brings along is the one in its claims. -/
theorem IsFrom.brings {o : Offer} (h : t.IsFrom o.claims o.shared o.origin) {key : PopKey} (brought : t.carried = some key) :
    o.Brings t.key key := by
  obtain ⟨cnf, confirmed, keyed⟩ := h.key
  exact ⟨cnf, confirmed, brought ▸ keyed⟩

end Submission

namespace RepositoryState

/-! ## Many tokens -/

/-- The state with tokens added one after the other, none of them in place of others. -/
def withTokens (s : RepositoryState) (ts : List Submission) : RepositoryState :=
  ts.foldl (fun s t => s.withToken t false) s

/-- Tokens are added one after the other. -/
theorem withTokens_cons (s : RepositoryState) (t : Submission) (ts : List Submission) :
    s.withTokens (t :: ts) = (s.withToken t false).withTokens ts :=
  rfl

/-- Tokens with different identifiers are all there afterwards, along with those that were there. -/
theorem tokens_withTokens {ts : List Submission} (distinct : ts.Pairwise fun t t' => t.id ≠ t'.id) (s : RepositoryState)
    (id : TokenId) (record : TokenRecord) :
    (s.withTokens ts).tokens[id]? = some record ↔
      (∃ t ∈ ts, t.id = id ∧ t.record = record) ∨ (∀ t ∈ ts, t.id ≠ id) ∧ s.tokens[id]? = some record := by
  induction ts generalizing s with
  | nil => simp [withTokens]
  | cons t ts ih =>
    obtain ⟨apart, distinct⟩ := List.pairwise_cons.mp distinct
    rw [withTokens_cons, ih distinct, tokens_withToken]
    by_cases own : t.id = id
    · subst own
      have others : ∀ t' ∈ ts, t'.id ≠ t.id := fun t' among => (apart t' among).symm
      have none : ¬∃ t' ∈ ts, t'.id = t.id ∧ t'.record = record := fun ⟨t', among, same, _⟩ => others t' among same
      simpa [none] using fun _ => others
    · simp [own]

theorem senders_withTokens (s : RepositoryState) (ts : List Submission) : (s.withTokens ts).senders = s.senders := by
  induction ts generalizing s with
  | nil => rfl
  | cons t ts ih => rw [withTokens_cons, ih, senders_withToken]

theorem challenges_withTokens (s : RepositoryState) (ts : List Submission) :
    (s.withTokens ts).challenges = s.challenges := by
  induction ts generalizing s with
  | nil => rfl
  | cons t ts ih => rw [withTokens_cons, ih, challenges_withToken]

/-- A key is provisioned if its material was agreed on. -/
theorem isProvisioned_eq_isSome (s : RepositoryState) (name : KeyName) :
    s.isProvisioned name = (s.agreedKey? name).isSome := by
  rw [isProvisioned, agreedKey?]
  cases s.keys[name]? with
  | none => rfl
  | some bound => cases provisioned : bound.provisioned <;> simp [BoundKey.agreed?, provisioned]

/-- An addition makes no key a provisioned one, and keeps those that are. -/
theorem isProvisioned_withToken (s : RepositoryState) (t : Submission) (isUpdate : Bool) (name : KeyName) :
    (s.withToken t isUpdate).isProvisioned name = s.isProvisioned name := by
  rw [isProvisioned_eq_isSome, isProvisioned_eq_isSome, agreedKey?_withToken]

/-- Whether one of some tokens brings along a key under a name. -/
def IsBrought (ts : List Submission) (name : KeyName) : Prop :=
  ∃ t ∈ ts, t.key = name ∧ t.carried.isSome = true

/-- The key under a name is one of those that the tokens bring along for it, if they bring any and it is not provisioned, and
otherwise the one it was. -/
theorem keys_withTokens (s : RepositoryState) (ts : List Submission) (name : KeyName) :
    (IsBrought ts name ∧ s.isProvisioned name = false →
      ∃ t ∈ ts, t.key = name ∧ ∃ key, t.carried = some key ∧ (s.withTokens ts).keys[name]? = some ⟨key, false⟩) ∧
    (¬(IsBrought ts name ∧ s.isProvisioned name = false) → (s.withTokens ts).keys[name]? = s.keys[name]?) := by
  induction ts generalizing s with
  | nil => exact ⟨fun ⟨⟨_, among, _⟩, _⟩ => (List.not_mem_nil among).elim, fun _ => rfl⟩
  | cons t ts ih =>
    obtain ⟨later, kept⟩ := ih (s.withToken t false)
    rw [isProvisioned_withToken] at later kept
    rw [withTokens_cons]
    by_cases rest : IsBrought ts name ∧ s.isProvisioned name = false
    · refine ⟨fun _ => ?_, fun none => ?_⟩
      · obtain ⟨t', among, brings⟩ := later rest
        exact ⟨t', List.mem_cons_of_mem t among, brings⟩
      · obtain ⟨⟨t', among, brings⟩, learned⟩ := rest
        exact absurd ⟨⟨t', List.mem_cons_of_mem t among, brings⟩, learned⟩ none
    · rw [kept rest, keys_withToken, keys_learnKey]
      refine ⟨fun ⟨⟨t', among, own, brings⟩, learned⟩ => ?_, fun none => ?_⟩
      · rcases List.mem_cons.mp among with rfl | among
        · subst own
          obtain ⟨key, brought⟩ := Option.isSome_iff_exists.mp brings
          rw [if_pos ⟨rfl, brings, learned⟩, brought]
          exact ⟨t', List.mem_cons_self, rfl, key, brought, rfl⟩
        · exact absurd ⟨⟨t', among, own, brings⟩, learned⟩ rest
      · rw [if_neg]
        rintro ⟨rfl, brings, learned⟩
        exact none ⟨⟨t, List.mem_cons_self, rfl, brings⟩, learned⟩

/-! ## States that agree -/

/-- States that agree on everything but the material of keys, and there differ only if two different keys were brought along under
one name. -/
structure AgreesWith (s s' : RepositoryState) (brought : KeyName → PopKey → Prop) : Prop where
  tokens : s.tokens = s'.tokens
  byKey : s.byKey = s'.byKey
  senders : s.senders = s'.senders
  challenges : s.challenges = s'.challenges
  keys : ∀ name : KeyName, s.keys[name]? = s'.keys[name]? ∨
    ∃ key key', key ≠ key' ∧ brought name key ∧ brought name key' ∧
      s.keys[name]? = some ⟨key, false⟩ ∧ s'.keys[name]? = some ⟨key', false⟩

/-- A state agrees with itself. -/
theorem AgreesWith.refl (s : RepositoryState) (brought : KeyName → PopKey → Prop) : s.AgreesWith s brought :=
  ⟨rfl, rfl, rfl, rfl, fun _ => Or.inl rfl⟩

/-- Decisions about access are made from the tokens and their files. -/
theorem AgreesWith.access_eq {s s' : RepositoryState} {brought : KeyName → PopKey → Prop} (h : s.AgreesWith s' brought)
    (validator : Validator) (introspection : Option Introspection) (key : KeyName) (resource : String) (method : Method)
    (now : UInt64) :
    s.access validator introspection key resource method now = s'.access validator introspection key resource method now := by
  have same : s.entitlements key now = s'.entitlements key now := by
    simp only [entitlements, idsOf, h.tokens, h.byKey]
  unfold RepositoryState.access
  rw [same]

/-- The order in which tokens with different identifiers are put in shows in the material of keys only. -/
theorem agreesWith_of_perm {s : RepositoryState} {ts ts' : List Submission} (perm : ts.Perm ts')
    (distinct : ts.Pairwise fun t t' => t.id ≠ t'.id) (sound : (s.withTokens ts).IsSound)
    (sound' : (s.withTokens ts').IsSound) :
    (s.withTokens ts).AgreesWith (s.withTokens ts') fun name key => ∃ t ∈ ts, t.key = name ∧ t.carried = some key := by
  have distinct' : ts'.Pairwise fun t t' => t.id ≠ t'.id := perm.pairwise distinct fun apart => apart.symm
  have tokens : ∀ id : TokenId, (s.withTokens ts).tokens[id]? = (s.withTokens ts').tokens[id]? := by
    intro id
    apply Option.ext
    intro record
    rw [tokens_withTokens distinct, tokens_withTokens distinct']
    simp only [perm.mem_iff]
  refine ⟨Std.ExtTreeMap.ext_getElem? tokens, sound.byKey_eq sound' tokens, ?_, ?_, ?_⟩
  · rw [senders_withTokens, senders_withTokens]
  · rw [challenges_withTokens, challenges_withTokens]
  · intro name
    have same : IsBrought ts' name ↔ IsBrought ts name := by simp only [IsBrought, perm.mem_iff]
    obtain ⟨brought, kept⟩ := s.keys_withTokens ts name
    obtain ⟨brought', kept'⟩ := s.keys_withTokens ts' name
    rw [same] at brought' kept'
    by_cases learns : IsBrought ts name ∧ s.isProvisioned name = false
    · obtain ⟨t, among, own, key, brings, found⟩ := brought learns
      obtain ⟨t', among', own', key', brings', found'⟩ := brought' learns
      by_cases equal : key = key'
      · exact Or.inl (by rw [found, found', equal])
      · exact Or.inr ⟨key, key', equal, ⟨t, among, own, brings⟩, ⟨t', perm.mem_iff.mpr among', own', brings'⟩, found, found'⟩
    · exact Or.inl ((kept learns).trans (kept' learns).symm)

end RepositoryState

namespace Repository

/-! ## Runs of additions -/

/-- A repository accepts the tokens of some offers one after the other, on whatever hosts whose clocks show the same time. -/
inductive Takes (now : UInt64) : Repository → List Offer → Repository → Prop
  | nothing (r : Repository) : Takes now r [] r
  | next {r r' : Repository} {host : Host} {o : Offer} {offers : List Offer} (time : host.clock = now)
    (ok : ∃ added, (r.addToken host o.claims o.shared none o.origin).result = .ok added)
    (rest : Takes now (r.addToken host o.claims o.shared none o.origin).repository offers r') :
    Takes now r (o :: offers) r'

variable {r r' r'' : Repository} {now : UInt64} {offers offers' : List Offer}

/-- An accepted token that has an identifier of its own, from a sender that is not authenticated, is put in, and replaces none. -/
theorem addToken_of_offer {host : Host} {o : Offer} {added : AddedToken} (explicit : o.claims.cti ≠ none)
    (ok : (r.addToken host o.claims o.shared none o.origin).result = .ok added) :
    ∃ t, o.submission? = some t ∧
      (r.addToken host o.claims o.shared none o.origin).repository =
        { r with state := (r.state.sweep host.clock).withToken t false } := by
  obtain ⟨_, t, outcome, made, adds, _, counted⟩ := addToken_ok ok
  have from' := Submission.isFrom_of_ofClaims made
  refine ⟨t, by rw [Offer.submission?, made]; rfl, ?_⟩
  rw [counted]
  cases adds with
  | again known there =>
    obtain ⟨bytes, given⟩ := Option.ne_none_iff_exists'.mp explicit
    rw [RepositoryState.isResubmission, (from'.of_cti given).2] at there
    cases there
  | anew isUpdate decided admits =>
    have fresh : isUpdate = false := by rw [decided, RepositoryState.isUpdate]; simp
    rw [fresh]
    rfl

/-- The tokens of a run are put into the state that is left after the sweep; later sweeps find nothing to do. -/
theorem Takes.eq_withTokens (h : Takes now r offers r') (explicit : ∀ o ∈ offers, o.claims.cti ≠ none)
    (alive : ∀ o ∈ offers, o.claims.isExpiredAt now = false) (sound : r.state.IsSound) :
    r' = { r with state := r'.state } ∧ r'.state.IsSound ∧
      r'.state.sweep now = (r.state.sweep now).withTokens (offers.filterMap Offer.submission?) ∧
      (offers ≠ [] → r'.state.sweep now = r'.state) := by
  induction h with
  | nothing r => exact ⟨rfl, sound, rfl, fun filled => absurd rfl filled⟩
  | @next r r' host o offers time ok rest ih =>
    obtain ⟨added, ok⟩ := ok
    obtain ⟨explicitFirst, explicit⟩ := List.forall_mem_cons.mp explicit
    obtain ⟨aliveFirst, alive⟩ := List.forall_mem_cons.mp alive
    obtain ⟨t, made, after⟩ := addToken_of_offer explicitFirst ok
    obtain ⟨same, sound', swept, settled⟩ := ih explicit alive (addToken_isSound sound ok).1
    rw [after, time] at same swept rest
    have first : ((r.state.sweep now).withToken t false).sweep now = (r.state.sweep now).withToken t false := by
      apply RepositoryState.sweep_eq_self
      intro id record found
      rcases RepositoryState.eq_record_of_tokens_withToken found with rfl | before
      · exact ((Offer.isFrom_of_submission? made).isExpiredAt_record now).trans aliveFirst
      · exact ((r.state.tokens_sweep now id record).mp before).2
    refine ⟨same, sound', ?_, fun _ => ?_⟩
    · rw [swept, List.filterMap_cons_some made, RepositoryState.withTokens_cons, first]
    · cases rest with
      | nothing => exact first
      | next time ok rest => exact settled (List.cons_ne_nil _ _)

/-- Tokens with different identifiers of their own, that have not ended and come from senders that are not authenticated, may be
accepted in any order. The orders agree on the tokens, the files, the channels and the challenges, and so on every decision about
access. They agree on the keys as well, unless two of the tokens bring along different keys under one name. -/
theorem agreesWith_of_takes_perm (sound : r.state.IsSound) (perm : offers.Perm offers')
    (explicit : ∀ o ∈ offers, o.claims.cti ≠ none)
    (distinct : offers.Pairwise fun o o' => o.claims.cti ≠ o'.claims.cti)
    (alive : ∀ o ∈ offers, o.claims.isExpiredAt now = false) (taken : Takes now r offers r')
    (taken' : Takes now r offers' r'') :
    (r'.state.AgreesWith r''.state fun name key => ∃ o ∈ offers, o.Brings name key) ∧
      ∀ (introspection : Option Introspection) (key : KeyName) (resource : String) (method : Method) (time : UInt64),
        r'.access introspection key resource method time = r''.access introspection key resource method time := by
  obtain ⟨same, after, swept, settled⟩ := taken.eq_withTokens explicit alive sound
  obtain ⟨same', after', swept', settled'⟩ := taken'.eq_withTokens (fun o among => explicit o (perm.mem_iff.mpr among))
    (fun o among => alive o (perm.mem_iff.mpr among)) sound
  have agrees : r'.state.AgreesWith r''.state fun name key => ∃ o ∈ offers, o.Brings name key := by
    cases offers with
    | nil =>
      cases List.nil_perm.mp perm
      cases taken
      cases taken'
      exact .refl _ _
    | cons o rest =>
      have filled : offers' ≠ [] := fun none => List.cons_ne_nil o rest (List.perm_nil.mp (none ▸ perm))
      have ids : ((o :: rest).filterMap Offer.submission?).Pairwise fun t t' => t.id ≠ t'.id := by
        rw [List.pairwise_filterMap]
        refine distinct.imp_of_mem fun {p q} among among' apart t made t' made' => ?_
        obtain ⟨bytes, given⟩ := Option.ne_none_iff_exists'.mp (explicit p among)
        obtain ⟨bytes', given'⟩ := Option.ne_none_iff_exists'.mp (explicit q among')
        rw [((Offer.isFrom_of_submission? made).of_cti given).1, ((Offer.isFrom_of_submission? made').of_cti given').1]
        rw [given, given'] at apart
        exact fun equal => apart (congrArg (fun id => some id.bytes) equal)
      rw [settled (List.cons_ne_nil o rest)] at swept
      rw [settled' filled] at swept'
      have agreed := RepositoryState.agreesWith_of_perm (perm.filterMap Offer.submission?) ids (swept ▸ after) (swept' ▸ after')
      rw [← swept, ← swept'] at agreed
      have brings : ∀ name key, (∃ t ∈ (o :: rest).filterMap Offer.submission?, t.key = name ∧ t.carried = some key) →
          ∃ p ∈ o :: rest, p.Brings name key := by
        rintro name key ⟨t, among, rfl, brought⟩
        obtain ⟨p, there, made⟩ := List.mem_filterMap.mp among
        exact ⟨p, there, (Offer.isFrom_of_submission? made).brings brought⟩
      refine ⟨agreed.tokens, agreed.byKey, agreed.senders, agreed.challenges, fun name => ?_⟩
      rcases agreed.keys name with equal | ⟨key, key', apart, brought, brought', found⟩
      · exact Or.inl equal
      · exact Or.inr ⟨key, key', apart, brings name key brought, brings name key' brought', found⟩
  refine ⟨agrees, fun introspection key resource method time => ?_⟩
  rw [same, same', access, access, visible, visible]
  cases r.isOpen with
  | true => exact agrees.access_eq _ _ _ _ _ _
  | false => rfl

namespace Sample

/-- A token that refers to a known key, and two tokens that bring along different keys under one name. -/
def three : List Offer :=
  [⟨claims 1 0x61, shared, .selfContained⟩,
    ⟨(claims 2 0x63).set .cnf (.key (.symmetric [0x63] (List.replicate 16 1))), shared, .selfContained⟩,
    ⟨(claims 3 0x63).set .cnf (.key (.symmetric [0x63] (List.replicate 16 2))), shared, .reference "ref"⟩]

/-- The repository after all of some offers were accepted, if they were. -/
def taken? (r : Repository) : List Offer → Option Repository
  | [] => some r
  | o :: offers =>
    let effect := r.addToken {} o.claims o.shared none o.origin
    if effect.result.toOption.isSome then taken? effect.repository offers else none

/-- Offers that were all taken are taken one after the other. -/
theorem takes_of_taken? (h : taken? r offers = some r') : Takes 0 r offers r' := by
  induction offers generalizing r with
  | nil =>
    cases h
    exact .nothing _
  | cons o offers ih =>
    obtain ⟨accepted, rest⟩ := Option.ite_none_right_eq_some.mp h
    obtain ⟨added, found⟩ := Option.isSome_iff_exists.mp accepted
    exact .next rfl ⟨added, eq_ok_of_toOption found⟩ (ih rest)

/-- The repository after the three tokens, and after the same in reverse. -/
def forth : Repository := (taken? repository three).get (by decide +kernel)

def back : Repository := (taken? repository three.reverse).get (by decide +kernel)

end Sample

/-- Both orders end with the three tokens. The keys that the last two bring along tell the orders apart. -/
theorem agreesWith_of_takes_reverse :
    Sample.forth.tokensOfKey ⟨"c"⟩ = [⟨[2]⟩, ⟨[3]⟩] ∧ Sample.forth.state.tokens = Sample.back.state.tokens ∧
      Sample.forth.popKey? {} ⟨[2]⟩ = some (.symmetric [0x63] (List.replicate 16 2)) ∧
      Sample.back.popKey? {} ⟨[2]⟩ = some (.symmetric [0x63] (List.replicate 16 1)) :=
  have agrees := agreesWith_of_takes_perm Sample.orderly_repository.isSound_and_isJustAfter.1 (List.reverse_perm Sample.three).symm
    (by decide +kernel) (by decide +kernel) (by decide +kernel) (Sample.takes_of_taken? (Option.some_get _).symm)
    (Sample.takes_of_taken? (Option.some_get _).symm)
  ⟨by decide +kernel, agrees.1.tokens, by decide +kernel, by decide +kernel⟩

end Repository

end TokenGate
