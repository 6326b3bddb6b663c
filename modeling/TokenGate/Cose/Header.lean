import TokenGate.Cbor.Decoding
import TokenGate.Cbor.Encoding
import TokenGate.Cose.Registry
import TokenGate.Text.Blank

/-!
# COSE headers

A header is a map of parameters, seven of them with a meaning here. One of the seven holds counter
signatures, which have headers of their own, one of these inside a byte string. That byte string is
kept as it was received, since it is what signatures and authentication tags are computed over.
-/

namespace TokenGate.Cose

open Cbor

/-- The parameters of a header whose counter signatures are of type `σ`. Empty lists and byte strings
stand for absent parameters. -/
structure HeaderOf (σ : Type) where
  alg : Option Label := none
  crit : List Label := []
  contentType : Option Label := none
  kid : Bytes := []
  iv : Bytes := []
  partialIv : Bytes := []
  counterSignatures : List σ := []
  /-- All other parameters, in order. -/
  rest : List (Label × Value) := []

/-- A counter signature: its headers, the protected one also as received, and the signature. -/
inductive CounterSignature where
  | mk (protectedBytes : Bytes) (protectedHeader unprotected : HeaderOf CounterSignature)
    (signature : Bytes)

/-- The header of a COSE object. -/
abbrev Header := HeaderOf CounterSignature

/-- Whether a text may stand for a content type: two parts around a slash, no blanks at its ends. -/
def isMediaType (s : String) : Bool :=
  !s.isEmpty && Text.isTrimmed s && s.toList.count '/' == 1

namespace HeaderOf

/-- A content type: a registered format, or the text of a media type. -/
def contentType? (v : Value) : Option Label :=
  match Label.ofRegistered? Registry.isContentFormat v with
  | some (.text s) => if isMediaType s then some (.text s) else none
  | other => other

/-- A list of labels that is not empty, each accepted by `read`. -/
def labels? (read : Value → Option Label) : Value → Option (List Label)
  | .array (v :: vs) => (v :: vs).mapM read
  | _ => none

/-- Counter signatures: an array of them, or a single one, which begins with a byte string. -/
def counterSignatures? {σ : Type} (read : Value → Option σ) : Value → Option (List σ)
  | .array (.bytes bs :: rest) => (read (.array (.bytes bs :: rest))).map ([·])
  | .array (.array vs :: rest) => (.array vs :: rest).mapM read
  | _ => none

/-- The header that a map of parameters is, `read` taking a counter signature. The two kinds of
initialization vector exclude each other. -/
def ofValue? {σ : Type} (read : Value → Option σ) (v : Value) : Option (HeaderOf σ) := do
  let fields ← fields? v
  let alg ← optional? (Label.ofRegistered? Registry.isAlgorithm) (field? fields 1)
  let crit ← optional? (labels? (Label.ofRegistered? Registry.isHeaderParameter)) (field? fields 2)
  let contentType ← optional? contentType? (field? fields 3)
  let kid ← optionalBytes? (field? fields 4)
  let iv ← optionalBytes? (field? fields 5)
  let partialIv ← optionalBytes? (field? fields 6)
  let counterSignatures ← optional? (counterSignatures? read) (field? fields 7)
  if !iv.isEmpty && !partialIv.isEmpty then none
  else
    some { alg, crit := crit.getD [], contentType, kid, iv, partialIv
           counterSignatures := counterSignatures.getD []
           rest := fieldsExcept [1, 2, 3, 4, 5, 6, 7] fields }

/-- The header inside the byte string of a protected header; the empty string is an empty header. -/
def ofProtected? {σ : Type} (read : Value → Option σ) (bs : Bytes) : Option (HeaderOf σ) :=
  if bs.isEmpty then some {} else (decodeExact? bs).bind (ofValue? read)

/-- The entries of a header, `signatures` being the values of its counter signatures. -/
def entries {σ : Type} (h : HeaderOf σ) (signatures : List Value) : List (Value × Value) :=
  labelEntry 1 h.alg
    ++ (if h.crit.isEmpty then [] else [(.uint 2, .array (h.crit.map Label.toValue))])
    ++ labelEntry 3 h.contentType
    ++ bytesEntry 4 h.kid ++ bytesEntry 5 h.iv ++ bytesEntry 6 h.partialIv
    ++ (match signatures with
        | [] => []
        | [v] => [(.uint 7, v)]
        | vs => [(.uint 7, .array vs)])
    ++ h.rest.map fun (label, v) => (label.toValue, v)

end HeaderOf

namespace CounterSignature

/-- The counter signature that an array is, if counter signatures in it are nested less than `depth`
deep. -/
def ofValue? : (depth : Nat) → Value → Option CounterSignature
  | depth + 1, .array [.bytes protectedBytes, unprotected, .bytes signature] => do
    let protectedHeader ← HeaderOf.ofProtected? (ofValue? depth) protectedBytes
    let unprotected ← HeaderOf.ofValue? (ofValue? depth) unprotected
    some (.mk protectedBytes protectedHeader unprotected signature)
  | _, _ => none

mutual

/-- A counter signature as a value. -/
def toValue : CounterSignature → Value
  | .mk protectedBytes _ unprotected signature =>
    .array [.bytes protectedBytes, .map (entriesOf unprotected), .bytes signature]

/-- The entries of a header with counter signatures. -/
def entriesOf : HeaderOf CounterSignature → List (Value × Value)
  | ⟨alg, crit, contentType, kid, iv, partialIv, signatures, rest⟩ =>
    (⟨alg, crit, contentType, kid, iv, partialIv, signatures, rest⟩ : Header).entries
      (values signatures)

/-- Counter signatures as values. -/
def values : List CounterSignature → List Value
  | [] => []
  | s :: rest => toValue s :: values rest

end

/-- Whether two lists of parameters are equal, their values compared as numbers. -/
def eqParameters : List (Label × Value) → List (Label × Value) → Bool
  | [], [] => true
  | (j, a) :: as, (k, b) :: bs => j == k && a.eq b && eqParameters as bs
  | _, _ => false

mutual

/-- Whether two counter signatures are equal, their values compared as numbers. -/
def eq : CounterSignature → CounterSignature → Bool
  | .mk p ph uh s, .mk q qh vh t => p == q && eqHeader ph qh && eqHeader uh vh && s == t

/-- Whether two headers are equal, their values compared as numbers. -/
def eqHeader : HeaderOf CounterSignature → HeaderOf CounterSignature → Bool
  | ⟨alg, crit, contentType, kid, iv, partialIv, signatures, rest⟩,
    ⟨alg', crit', contentType', kid', iv', partialIv', signatures', rest'⟩ =>
    alg == alg' && crit == crit' && contentType == contentType' && kid == kid' && iv == iv'
      && partialIv == partialIv' && eqAll signatures signatures' && eqParameters rest rest'

/-- Whether two lists of counter signatures are equal, one by one. -/
def eqAll : List CounterSignature → List CounterSignature → Bool
  | [], [] => true
  | a :: as, b :: bs => eq a b && eqAll as bs
  | _, _ => false

end

end CounterSignature

namespace Header

/-- A bound on how deep counter signatures can be nested in a value: no more than there are bytes in
its encoding, since each level takes some. -/
def nesting (v : Value) : Nat := v.encode.length

/-- The header that a map of parameters is. -/
def ofValue? (v : Value) : Option Header :=
  HeaderOf.ofValue? (CounterSignature.ofValue? (nesting v)) v

/-- The header inside the byte string of a protected header. -/
def ofProtected? (bs : Bytes) : Option Header :=
  HeaderOf.ofProtected? (CounterSignature.ofValue? bs.length) bs

/-- A header as a value. -/
def toValue (h : Header) : Value := .map (CounterSignature.entriesOf h)

/-- The byte string of a protected header, empty if the header is. -/
def toProtected (h : Header) : Bytes :=
  match CounterSignature.entriesOf h with
  | [] => []
  | entries => (Value.map entries).encode

/-- Whether two headers are equal, their values compared as numbers. -/
def eq (g h : Header) : Bool := CounterSignature.eqHeader g h

end Header

end TokenGate.Cose
