import TokenGate.Proofs.Claims.Strictness

/-!
# Claims of any kind

Claims can also be kept as values that say themselves of which kind they are, whatever they are filed under. Then each accessor
asks for the kind of its claim, and what is there of another kind looks as if it were absent. It never comes to that: all that is filed
under a label, by decoding or later, is of the kind that is asked for there. So such claims are the same as claims whose types go with
the labels.
-/

namespace TokenGate

open Cbor

/-! ## Contents of any kind -/

/-- What a claim holds, of any of the kinds that there are. -/
inductive ClaimValue where
  | text (s : String)
  | bytes (bs : Bytes)
  | uint (n : UInt64)
  | audience (audience : Audience)
  | scope (scope : ScopeClaim)
  | cnf (cnf : Confirmation)

namespace ClaimValue

/-- The text that is held. -/
def text? : ClaimValue → Option String
  | text s => some s
  | _ => none

/-- The bytes that are held. -/
def bytes? : ClaimValue → Option Bytes
  | bytes bs => some bs
  | _ => none

/-- The number that is held. -/
def uint? : ClaimValue → Option UInt64
  | uint n => some n
  | _ => none

/-- The audience that is held. -/
def audience? : ClaimValue → Option Audience
  | audience a => some a
  | _ => none

/-- The scope that is held. -/
def scope? : ClaimValue → Option ScopeClaim
  | scope s => some s
  | _ => none

/-- The confirmation that is held. -/
def cnf? : ClaimValue → Option Confirmation
  | cnf c => some c
  | _ => none

end ClaimValue

namespace ClaimKey

/-- A content with its kind, as it is filed when it is given to a claim. -/
def wrap : (k : ClaimKey) → k.Content → ClaimValue
  | iss, s => .text s
  | sub, s => .text s
  | aud, a => .audience a
  | exp, n => .uint n
  | nbf, n => .uint n
  | iat, n => .uint n
  | cti, bs => .bytes bs
  | cnf, c => .cnf c
  | scope, s => .scope s
  | aceProfile, n => .uint n
  | cnonce, bs => .bytes bs
  | exi, n => .uint n

/-- What the accessor of a claim makes of a value: its content, if the value is of the kind that is asked for. -/
def unwrap? : (k : ClaimKey) → ClaimValue → Option k.Content
  | iss, v => v.text?
  | sub, v => v.text?
  | aud, v => v.audience?
  | exp, v => v.uint?
  | nbf, v => v.uint?
  | iat, v => v.uint?
  | cti, v => v.bytes?
  | cnf, v => v.cnf?
  | scope, v => v.scope?
  | aceProfile, v => v.uint?
  | cnonce, v => v.bytes?
  | exi, v => v.uint?

/-- What is filed under its kind is found again. -/
@[simp]
theorem unwrap?_wrap (k : ClaimKey) (content : k.Content) : k.unwrap? (k.wrap content) = some content := by
  cases k <;> rfl

/-- A claim as it is decoded, the kind of what is filed being that of the value that came. -/
def decode (k : ClaimKey) (v : Value) : Except Rejection ClaimValue :=
  match k, v with
  | iss, .text s | sub, .text s => .ok (.text s)
  | aud, .text s => .ok (.audience (.single s))
  | aud, .array vs =>
    match vs.mapM text? with
    | some names => .ok (.audience (.multiple names))
    | none => .error aud.wrongType
  | exp, v | nbf, v | iat, v | exi, v | aceProfile, v =>
    match number? v with
    | some n => .ok (.uint n)
    | none => .error k.wrongType
  | cti, .bytes bs | cnonce, .bytes bs => .ok (.bytes bs)
  | scope, .text s => .ok (.scope (.text s))
  | scope, .bytes bs => .ok (.scope (.binary bs))
  | cnf, v => (Confirmation.ofValue v).map .cnf
  | k, _ => .error k.wrongType

/-- What is decoded is of the kind that the accessor asks for. -/
theorem decode_eq (k : ClaimKey) (v : Value) : k.decode v = (k.ofValue v).map k.wrap := by
  cases k with
  | iss | sub | cti | cnonce | scope => cases v <;> rfl
  | exp | nbf | iat | aceProfile | exi =>
    simp only [decode, ofValue]
    cases number? v <;> rfl
  | aud =>
    cases v with
    | array vs =>
      simp only [decode, ofValue, audience?]
      cases vs.mapM text? <;> rfl
    | _ => rfl
  | cnf => rfl

end ClaimKey

/-! ## Claims of any kind -/

/-- A claims set whose claims may be of any kind. -/
structure LooseClaims where
  /-- The claims that the server acts on. -/
  known : ClaimKey → Option ClaimValue := fun _ => none
  /-- All other entries, in order. -/
  extra : List (Value × Value) := []

namespace LooseClaims

@[ext]
theorem ext {a b : LooseClaims} (known : ∀ k, a.known k = b.known k) (extra : a.extra = b.extra) : a = b := by
  cases a
  cases b
  simp only [mk.injEq]
  exact ⟨funext known, extra⟩

/-- Whether a claim is present, of whichever kind. -/
def contains (c : LooseClaims) (k : ClaimKey) : Bool := (c.known k).isSome

/-- What the accessor of a claim finds. -/
def accessor (c : LooseClaims) (k : ClaimKey) : Option k.Content := (c.known k).bind k.unwrap?

/-- The claims with a value filed as one of them. -/
def put (c : LooseClaims) (k : ClaimKey) (v : ClaimValue) : LooseClaims :=
  { c with known := fun j => if k = j then some v else c.known j }

/-- The claims without one of them. -/
def remove (c : LooseClaims) (k : ClaimKey) : LooseClaims :=
  { c with known := fun j => if k = j then none else c.known j }

/-- The claims with another entry that the server does not act on. -/
def addExtra (c : LooseClaims) (key value : Value) : LooseClaims :=
  { c with extra := c.extra ++ [(key, value)] }

/-- The claims replaced by those of a newer set where it has them. -/
def overlay (c newer : LooseClaims) : LooseClaims where
  known k := (newer.known k).or (c.known k)
  extra := newer.extra.foldl (fun extra (k, v) => Claims.putExtra k v extra) c.extra

/-- The claims with another entry of the map read. -/
def enter (c : LooseClaims) (entry : Value × Value) : Except Rejection LooseClaims :=
  match Claims.keyOf? entry.1 with
  | none => .ok (c.addExtra entry.1 entry.2)
  | some k => do
    let value ← k.decode entry.2
    if c.contains k then .error (.malformedClaim k.name) else .ok (c.put k value)

/-- The claims set that a value is. -/
def ofValue : Value → Except Rejection LooseClaims
  | .map entries => entries.foldlM enter {}
  | _ => .error .tokenInvalid

end LooseClaims

namespace Claims

/-- What the accessor of a claim finds. -/
def accessor (c : Claims) : (k : ClaimKey) → Option k.Content
  | .iss => c.issuer
  | .sub => c.subject
  | .aud => c.audience
  | .exp => c.expiration
  | .nbf => c.notBefore
  | .iat => c.issuedAt
  | .cti => c.cti
  | .cnf => c.cnf
  | .scope => c.scope
  | .aceProfile => c.aceProfile
  | .cnonce => c.cnonce
  | .exi => c.expiresIn

/-- The accessor of a claim finds its content. -/
theorem accessor_eq (c : Claims) (k : ClaimKey) : c.accessor k = c.known k := by
  cases k <;> rfl

/-- The claims with the kind of each of them. -/
def loosen (c : Claims) : LooseClaims where
  known k := (c.known k).map k.wrap
  extra := c.extra

variable {c : Claims}

@[simp]
theorem contains_loosen (c : Claims) (k : ClaimKey) : c.loosen.contains k = c.contains k :=
  Option.isSome_map

/-- Nothing is overlooked for its kind. -/
@[simp]
theorem accessor_loosen (c : Claims) (k : ClaimKey) : c.loosen.accessor k = c.accessor k := by
  rw [accessor_eq]
  change ((c.known k).map k.wrap).bind k.unwrap? = c.known k
  cases c.known k with
  | none => rfl
  | some content => exact k.unwrap?_wrap content

/-! ## What is done with claims -/

/-- A claim that is set is filed under its own kind. -/
theorem loosen_set (c : Claims) (k : ClaimKey) (content : k.Content) :
    (c.set k content).loosen = c.loosen.put k (k.wrap content) := by
  refine LooseClaims.ext (fun j => ?_) rfl
  by_cases same : k = j
  · subst same
    simp [loosen, LooseClaims.put]
  · simp [loosen, LooseClaims.put, known_set_of_ne c content same, same]

theorem loosen_addExtra (c : Claims) (key value : Value) : (c.addExtra key value).loosen = c.loosen.addExtra key value := rfl

theorem loosen_remove (c : Claims) (k : ClaimKey) : (c.remove k).loosen = c.loosen.remove k := by
  refine LooseClaims.ext (fun j => ?_) rfl
  by_cases same : k = j <;> simp [loosen, LooseClaims.remove, known_remove, same]

theorem loosen_overlay (c newer : Claims) : (c.overlay newer).loosen = c.loosen.overlay newer.loosen := by
  refine LooseClaims.ext (fun k => ?_) rfl
  simp only [loosen, LooseClaims.overlay, known_overlay]
  cases newer.known k <;> rfl

/-- An entry is read into claims whether or not their kinds are told. -/
theorem loosen_enter (c : Claims) (e : Value × Value) : c.loosen.enter e = (c.enter e).map loosen := by
  unfold LooseClaims.enter enter
  cases keyOf? e.1 with
  | none => rfl
  | some k =>
    simp only [ClaimKey.decode_eq, contains_loosen]
    cases k.ofValue e.2 with
    | error rejection => rfl
    | ok content =>
      simp only [Except.map, bind, Except.bind]
      split
      · rfl
      · rw [← loosen_set]

theorem loosen_foldlM (entries : List (Value × Value)) (c : Claims) :
    entries.foldlM LooseClaims.enter c.loosen = (entries.foldlM enter c).map loosen := by
  induction entries generalizing c with
  | nil => rfl
  | cons e entries ih =>
    rw [List.foldlM_cons, List.foldlM_cons, loosen_enter]
    cases c.enter e with
    | error rejection => rfl
    | ok next => exact ih next

/-- A value is read as the same claims, each filed under its own kind. -/
theorem loosen_ofValue (v : Value) : LooseClaims.ofValue v = (ofValue v).map loosen := by
  cases v with
  | map entries => exact loosen_foldlM entries empty
  | _ => rfl

/-- How claims came about: by decoding, and by what was done with decoded claims. -/
inductive History where
  | decoded (v : Value)
  | given (earlier : History) (k : ClaimKey) (content : k.Content)
  | extended (earlier : History) (key value : Value)
  | removed (earlier : History) (k : ClaimKey)
  | overlaid (earlier newer : History)

namespace History

/-- The claims that came about. -/
def claims : History → Except Rejection Claims
  | decoded v => ofValue v
  | given earlier k content => do .ok ((← earlier.claims).set k content)
  | extended earlier key value => do .ok ((← earlier.claims).addExtra key value)
  | removed earlier k => do .ok ((← earlier.claims).remove k)
  | overlaid earlier newer => do .ok ((← earlier.claims).overlay (← newer.claims))

/-- The claims of any kind that came about. -/
def loose : History → Except Rejection LooseClaims
  | decoded v => LooseClaims.ofValue v
  | given earlier k content => do .ok ((← earlier.loose).put k (k.wrap content))
  | extended earlier key value => do .ok ((← earlier.loose).addExtra key value)
  | removed earlier k => do .ok ((← earlier.loose).remove k)
  | overlaid earlier newer => do .ok ((← earlier.loose).overlay (← newer.loose))

/-- What is done with claims of any kind keeps each of them of the kind that goes with its label. -/
theorem loose_eq (h : History) : h.loose = h.claims.map loosen := by
  induction h with
  | decoded v => exact loosen_ofValue v
  | given earlier k content ih =>
    rw [loose, claims, ih]
    cases earlier.claims with
    | error rejection => rfl
    | ok c => exact congrArg Except.ok (loosen_set c k content).symm
  | extended earlier key value ih =>
    rw [loose, claims, ih]
    cases earlier.claims with
    | error rejection => rfl
    | ok c => exact congrArg Except.ok (loosen_addExtra c key value).symm
  | removed earlier k ih =>
    rw [loose, claims, ih]
    cases earlier.claims with
    | error rejection => rfl
    | ok c => exact congrArg Except.ok (loosen_remove c k).symm
  | overlaid earlier newer ih ih' =>
    rw [loose, claims, ih, ih']
    cases earlier.claims with
    | error rejection => rfl
    | ok c =>
      cases newer.claims with
      | error rejection => rfl
      | ok other => exact congrArg Except.ok (loosen_overlay c other).symm

end History

/-- Claims that hold a time at which the token ends have ended from then on. -/
theorem exists_end_of_contains (h : c.contains .exp) : ∃ exp, c.accessor .exp = some exp ∧
    ∀ now : UInt64, exp ≤ now → c.isExpiredAt now = true ∧ c.isValidAt now = false := by
  obtain ⟨exp, present⟩ := Option.isSome_iff_exists.mp h
  have found : c.expiration = some exp := present
  refine ⟨exp, found, fun now ended => ⟨by simp [isExpiredAt, found, ended], ?_⟩⟩
  simp [isValidAt, found, UInt64.not_lt.mpr ended]

/-- Claims are decoded from the maps in which every label that the server acts on comes once at most, with a value of its type. They
then hold what the map held there, and all its other entries in order. Whatever is done with decoded claims, even if the kind of what
is filed under a label is looked at only when it is asked for, the claims that are present are the ones whose accessors find something;
so a time at which a token ends is never overlooked. -/
theorem decoded_exactly :
    (∀ v, (∃ c, ofValue v = .ok c) ↔ ∃ entries, v = .map entries ∧ AreStrict entries) ∧
    (∀ entries c, ofValue (.map entries) = .ok c →
      (∀ (k : ClaimKey) (content : k.Content),
        c.accessor k = some content ↔ ∃ v, (.uint k.label, v) ∈ entries ∧ k.Holds v content) ∧
      c.extra = entries.filter fun e => ∀ k ∈ ClaimKey.all, e.1 ≠ .uint k.label) ∧
    ∀ h : History, h.loose = h.claims.map loosen ∧ ∀ c, h.claims = .ok c →
      (∀ k, (c.loosen.contains k ↔ (c.loosen.accessor k).isSome) ∧ c.contains k = c.loosen.contains k ∧
        c.accessor k = c.loosen.accessor k) ∧
      (c.contains .exp → ∃ exp, c.accessor .exp = some exp ∧
        ∀ now, exp ≤ now → c.isExpiredAt now = true ∧ c.isValidAt now = false) := by
  refine ⟨fun v => ?_, fun entries c read => ⟨fun k content => ?_, extra_of_ofValue read⟩, fun h => ⟨h.loose_eq, fun c _ => ?_⟩⟩
  · constructor
    · rintro ⟨c, read⟩
      cases v with
      | map entries => exact ⟨entries, rfl, exists_ofValue_iff.mp ⟨c, read⟩⟩
      | _ => nomatch read
    · rintro ⟨entries, rfl, strict⟩
      exact exists_ofValue_iff.mpr strict
  · rw [accessor_eq]
    exact known_eq_some_iff read
  · refine ⟨fun k => ⟨?_, (contains_loosen c k).symm, (accessor_loosen c k).symm⟩, exists_end_of_contains⟩
    rw [contains_loosen, accessor_loosen, accessor_eq]
    rfl

namespace Sample

/-- Claims with a time at which the token ends, under two tags, and an entry under a label that is a text. -/
def tagged : List (Value × Value) := [(.text "4", .uint 1), (.uint 4, .tag 1 (.tag 1 (.uint 10)))]

/-- The same claims after another time came in, with an identifier that was taken out again. -/
def renewed : History :=
  .removed (.overlaid (.decoded (.map tagged)) (.given (.given (.decoded (.map [])) .exp 20) .cti [0x01])) .cti

end Sample

/-- Tags do not make a time disappear, and neither does what is done with the claims later. -/
theorem decoded_exactly_of_tagged :
    (∃ c, ofValue (.map Sample.tagged) = .ok c ∧ c.accessor .exp = some 10 ∧ c.extra = [(.text "4", .uint 1)]) ∧
      ∃ c, Sample.renewed.claims = .ok c ∧ Sample.renewed.loose = .ok c.loosen ∧ c.loosen.accessor .exp = some 20 ∧
        (c.loosen.contains .cti = true ↔ (c.loosen.accessor .cti).isSome = true) ∧ c.isValidAt 20 = false := by
  obtain ⟨_, exact, typed⟩ := decoded_exactly
  refine ⟨⟨_, rfl, ?_⟩, ?_⟩
  · obtain ⟨held, others⟩ := exact Sample.tagged _ rfl
    exact ⟨(held .exp 10).mpr ⟨_, List.mem_cons_of_mem _ List.mem_cons_self, 2, rfl⟩, others.trans (by decide)⟩
  · obtain ⟨same, each⟩ := typed Sample.renewed
    refine ⟨_, rfl, same, ?_⟩
    obtain ⟨kinds, ends⟩ := each _ rfl
    obtain ⟨exp, present, ended⟩ := ends rfl
    cases present
    exact ⟨(kinds .exp).2.2.symm, (kinds .cti).1, (ended 20 (by decide)).2⟩

end Claims

end TokenGate
