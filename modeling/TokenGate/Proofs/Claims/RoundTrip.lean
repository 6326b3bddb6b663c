import TokenGate.Proofs.Claims.Encoding
import TokenGate.Proofs.Cose.Plain

/-!
# Claims sets come back

Claims that were read can be written, and what is written is read as the same claims, bit by bit, in whatever order and with
whatever tags and lengths they first came. Only what the server keeps without looking at it may stand in the way: a tag there that
stands for an integer may come back as another value.
-/

namespace TokenGate

open Cbor Cose

/-! ## What is kept -/

namespace Oscore.Material

/-- What a field of the material admits is plain. -/
theorem Field.isPlain_of_admits {f : Field} {v : Value} (admitted : f.Admits v) : v.isPlain = true := by
  cases f with
  | id | version | ms | salt | contextId =>
    obtain ⟨_, rfl⟩ := admitted
    rfl
  | hkdf | alg =>
    obtain ⟨n, rfl⟩ := admitted
    unfold Value.ofInt64
    split <;> rfl

/-- Input material is read as a whole, and none of it is kept as it came. -/
theorem isPlainReader_ofValue? : IsPlainReader ofValue? fun _ => true := by
  intro v m got _
  obtain ⟨entries, rfl⟩ := exists_map_of_ofValue? got
  rw [Value.isPlain, Value.arePlainEntries_eq, List.all_eq_true]
  intro e among
  obtain ⟨f, label, admitted⟩ := (exists_ofValue?_iff.mp ⟨m, got⟩).typed e among
  rw [label, Bool.and_eq_true]
  exact ⟨rfl, Field.isPlain_of_admits admitted⟩

end Oscore.Material

namespace Confirmation

/-- Whether no tag in the parameters that are kept for a confirmation stands for an integer. -/
def keepsPlain : Confirmation → Bool
  | .key k => arePlainParameters k.params
  | .encryptedKey envelope => CounterSignature.headerKeepsPlain envelope.unprotected
  | .kid _ | .oscore _ => true

/-- A value is plain if it is without the tag of an encrypted object. -/
theorem isPlain_of_untagEncrypt0 {v : Value} (plain : (untagEncrypt0 v).isPlain = true) : v.isPlain = true := by
  unfold untagEncrypt0 at plain
  split at plain
  · exact Value.isPlain_tag (by decide) plain
  · exact plain

/-- A content that is read with a method is plain if what is kept of it is. -/
theorem isPlain_of_ofMethod {method : Method} {v : Value} {c : Confirmation} (got : ofMethod method v = .ok c)
    (plain : c.keepsPlain = true) : v.isPlain = true := by
  cases method with
  | coseKey =>
    obtain ⟨k, own, rfl⟩ := Option.map_eq_some_iff.mp (orMalformed_eq_ok_iff.mp got)
    rw [keepsPlain] at plain
    exact Key.isPlainReader_ofValue? v k own plain
  | encryptedCoseKey =>
    obtain ⟨envelope, own, rfl⟩ := Option.map_eq_some_iff.mp (orMalformed_eq_ok_iff.mp got)
    rw [keepsPlain] at plain
    exact isPlain_of_untagEncrypt0 (Encrypt0.isPlainReader_ofValue? _ envelope own plain)
  | kid =>
    cases v with
    | bytes bs => rfl
    | _ => nomatch got
  | oscoreInputMaterial =>
    obtain ⟨material, own, rfl⟩ := Option.map_eq_some_iff.mp (orMalformed_eq_ok_iff.mp got)
    exact Oscore.Material.isPlainReader_ofValue? v material own rfl

/-- A confirmation was read from a plain value if what is kept of it is plain. -/
theorem isPlain_of_ofValue {v : Value} {c : Confirmation} (got : ofValue v = .ok c) (plain : c.keepsPlain = true) :
    v.isPlain = true := by
  unfold ofValue at got
  split at got
  · rename_i k v
    cases method : orMalformed (k.toUInt64?.bind Method.ofLabel?) with
    | error e =>
      rw [method] at got
      cases got
    | ok m =>
      rw [method] at got
      obtain ⟨n, number, _⟩ := Option.bind_eq_some_iff.mp (orMalformed_eq_ok_iff.mp method)
      simp only [Value.isPlain, Value.arePlainEntries, isPlainReader_toUInt64? k n number rfl, isPlain_of_ofMethod got plain,
        Bool.and_self]
  · cases got

end Confirmation

namespace ClaimKey

/-- Whether no tag in what is kept for a claim stands for an integer. -/
def keepsPlain : (k : ClaimKey) → k.Content → Bool
  | cnf, c => Confirmation.keepsPlain c
  | iss, _ | sub, _ | aud, _ | exp, _ | nbf, _ | iat, _ | cti, _ | scope, _ | aceProfile, _ | cnonce, _ | exi, _ => true

/-- Texts are read from plain values only. -/
theorem isPlainReader_text : IsPlainReader text? fun _ => true := by
  intro v s got _
  cases v with
  | text _ => rfl
  | _ => nomatch got

theorem isPlainReader_bytes : IsPlainReader bytes? fun _ => true := by
  intro v bs got _
  cases v with
  | bytes _ => rfl
  | _ => nomatch got

/-- A tag for a point in time does not stand for an integer. -/
theorem isPlainReader_number : IsPlainReader number? fun _ => true := by
  intro v n got _
  fun_induction number? v with
  | case1 => rfl
  | case2 v ih => exact Value.isPlain_tag (by decide) (ih got)
  | case3 => nomatch got

theorem isPlainReader_audience : IsPlainReader audience? fun _ => true := by
  intro v audience got _
  cases v with
  | text _ => rfl
  | array vs =>
    obtain ⟨names, own, rfl⟩ := Option.map_eq_some_iff.mp got
    exact isPlain_of_mapM isPlainReader_text own fun _ _ => rfl
  | _ => nomatch got

theorem isPlainReader_scopeClaim : IsPlainReader scopeClaim? fun _ => true := by
  intro v claim got _
  cases v with
  | text _ | bytes _ => rfl
  | _ => nomatch got

/-- A content that is checked for its type is plain if its reader accepts plain values only. -/
theorem isPlain_of_checked {α : Type} {read : Value → Option α} (h : IsPlainReader read fun _ => true) {rejection : Rejection}
    {v : Value} {a : α} (got : (match read v with | some a => Except.ok a | none => .error rejection) = .ok a) :
    v.isPlain = true := by
  cases own : read v with
  | none =>
    rw [own] at got
    nomatch got
  | some b => exact h v b own rfl

/-- A claim was read from a plain value if what is kept of it is plain. -/
theorem isPlain_of_ofValue {k : ClaimKey} {v : Value} {content : k.Content} (got : k.ofValue v = .ok content)
    (plain : k.keepsPlain content = true) : v.isPlain = true := by
  cases k with
  | cnf => exact Confirmation.isPlain_of_ofValue got plain
  | iss | sub => exact isPlain_of_checked isPlainReader_text got
  | cti | cnonce => exact isPlain_of_checked isPlainReader_bytes got
  | exp | nbf | iat | aceProfile | exi => exact isPlain_of_checked isPlainReader_number got
  | aud => exact isPlain_of_checked isPlainReader_audience got
  | scope => exact isPlain_of_checked isPlainReader_scopeClaim got

end ClaimKey

namespace Claims

/-- Whether no tag in what is kept for some claims, or among the entries that the server does not act on, stands for an integer. -/
def keepsPlain (c : Claims) : Bool :=
  (ClaimKey.all.all fun k => (c.known k).all k.keepsPlain) && Value.arePlainEntries c.extra

/-- Claims keep plain what each claim keeps plain, next to entries that are plain. -/
theorem keepsPlain_iff {c : Claims} : c.keepsPlain = true ↔
    (∀ k content, c.known k = some content → k.keepsPlain content = true) ∧
    ∀ e ∈ c.extra, e.1.isPlain = true ∧ e.2.isPlain = true := by
  simp only [keepsPlain, Value.arePlainEntries_eq, Bool.and_eq_true, List.all_eq_true, Option.all_eq_true, ClaimKey.mem_all,
    true_implies]

/-- An entry is plain if it left the claims plain, and so were the claims before it. -/
theorem isPlain_of_enter {c next : Claims} {e : Value × Value} (entered : c.enter e = .ok next) (plain : next.keepsPlain = true) :
    (e.1.isPlain = true ∧ e.2.isPlain = true) ∧ c.keepsPlain = true := by
  obtain ⟨known, extra⟩ := keepsPlain_iff.mp plain
  obtain ⟨_, rfl⟩ | ⟨k, content, key, read, new, rfl⟩ := enter_eq_ok entered
  · refine ⟨extra e (List.mem_append_right _ List.mem_cons_self), keepsPlain_iff.mpr ⟨known, fun other among => ?_⟩⟩
    exact extra other (List.mem_append_left _ among)
  · obtain ⟨n, number, _⟩ := Option.bind_eq_some_iff.mp key
    have value := ClaimKey.isPlain_of_ofValue read (known k content (c.known_set_self k content))
    refine ⟨⟨isPlainReader_toUInt64? e.1 n number rfl, value⟩, keepsPlain_iff.mpr ⟨fun j other present => known j other ?_, extra⟩⟩
    have apart : k ≠ j := by
      rintro rfl
      rw [new] at present
      nomatch present
    rw [known_set_of_ne c content apart, present]

/-- Entries are plain if they left the claims plain. -/
theorem isPlain_of_foldlM {entries : List (Value × Value)} {c final : Claims} (entered : entries.foldlM enter c = .ok final)
    (plain : final.keepsPlain = true) : (∀ e ∈ entries, e.1.isPlain = true ∧ e.2.isPlain = true) ∧ c.keepsPlain = true := by
  induction entries generalizing c with
  | nil =>
    cases entered
    exact ⟨nofun, plain⟩
  | cons e rest ih =>
    obtain ⟨next, first, entered⟩ := foldlM_cons_eq_ok.mp entered
    obtain ⟨others, between⟩ := ih entered
    obtain ⟨own, before⟩ := isPlain_of_enter first between
    exact ⟨List.forall_mem_cons.mpr ⟨own, others⟩, before⟩

/-- A value is plain if the claims that it is read as are. -/
theorem isPlain_of_ofValue {v : Value} {c : Claims} (got : ofValue v = .ok c) (plain : c.keepsPlain = true) :
    v.isPlain = true := by
  cases v with
  | map entries =>
    rw [Value.isPlain, Value.arePlainEntries_eq, List.all_eq_true]
    intro e among
    rw [Bool.and_eq_true]
    exact (isPlain_of_foldlM got plain).1 e among
  | _ => cases got

/-- Claims that were read are written, and read back as they are, so that they are written the same way again. It matters neither
in which order, with which tags and with which lengths they came, nor by which method they confirm a key. Only a tag that stands
for an integer must not be in what the server keeps without looking at it. -/
theorem exists_encode_of_decode {bs : Bytes} {c : Claims} (fits : bs.length < 2 ^ 64) (got : decode bs = .ok c)
    (plain : c.keepsPlain = true) :
    ∃ out, c.encode = .ok out ∧ decode out = .ok c ∧ ∀ again, decode out = .ok again → again.encode = .ok out := by
  unfold decode at got
  split at got
  · rename_i v read
    have storable := isStorable_of_decode? read fits (isPlain_of_ofValue got plain)
    obtain ⟨bound, few, restorable⟩ := isRestorable_of_ofValue storable got
    obtain ⟨out, written, back⟩ := restorable.exists_encode (by decide) few
    refine ⟨out, written, back, fun again read => ?_⟩
    rw [back] at read
    cases read
    exact written
  · nomatch got

namespace Sample

/-- Claims in a map without a length, the labels out of order: an unknown one with a negative zero, an encrypted key under its tag
with a counter signature in an array and its ciphertext in pieces, an expiration under two tags, an integer of 17 bytes under
another unknown label, and an issuer in pieces. -/
def loose : Bytes :=
  [0xbf,
    0x61, 0x78, 0xfb, 0x80, 0, 0, 0, 0, 0, 0, 0,
    0x08, 0xa1, 0x02, 0xd0, 0x83, 0x43, 0xa1, 0x01, 0x0a,
      0xa2, 0x61, 0x79, 0xf6, 0x07, 0x81, 0x83, 0x40, 0xa1, 0x04, 0x41, 0x6b, 0x41, 0x73,
      0x5f, 0x41, 0xaa, 0x41, 0xbb, 0xff,
    0x04, 0xc1, 0xc1, 0x18, 0x64,
    0x0a, 0xc2, 0x51, 1, 0, 0, 0, 0, 0, 0, 0, 0, 0, 0, 0, 0, 0, 0, 0, 0,
    0x01, 0x7f, 0x61, 0x61, 0x62, 0xc3, 0xa9, 0xff,
    0xff]

/-- The same claims as they are written. -/
def tidy : Bytes :=
  [0xa5,
    0x01, 0x63, 0x61, 0xc3, 0xa9,
    0x04, 0x18, 0x64,
    0x08, 0xa1, 0x02, 0x83, 0x43, 0xa1, 0x01, 0x0a,
      0xa2, 0x07, 0x83, 0x40, 0xa1, 0x04, 0x41, 0x6b, 0x41, 0x73, 0x61, 0x79, 0xf6,
      0x42, 0xaa, 0xbb,
    0x61, 0x78, 0xf9, 0x80, 0,
    0x0a, 0xc2, 0x51, 1, 0, 0, 0, 0, 0, 0, 0, 0, 0, 0, 0, 0, 0, 0, 0, 0]

end Sample

/-- Claims that came in a loose form are written in the tidy one. -/
theorem exists_encode_of_decode_of_loose :
    Sample.loose.length < 2 ^ 64 ∧ ∃ c, decode Sample.loose = .ok c ∧ c.keepsPlain = true ∧
      c.encode = .ok Sample.tidy ∧ decode Sample.tidy = .ok c := by
  have outcome : ((decode Sample.loose).toOption.map fun c => (c.keepsPlain, c.encode.toOption)) =
      some (true, some Sample.tidy) := by decide +kernel
  cases got : decode Sample.loose with
  | error e =>
    rw [got] at outcome
    nomatch outcome
  | ok c =>
    rw [got] at outcome
    obtain ⟨plain, same⟩ := Prod.mk.inj (Option.some.inj outcome)
    obtain ⟨out, written, back, _⟩ := exists_encode_of_decode (by decide) got plain
    rw [written] at same
    cases Option.some.inj same
    exact ⟨by decide, c, rfl, plain, written, back⟩

end Claims

end TokenGate
