import TokenGate.Admission.Basic
import TokenGate.Cbor.Head

/-!
# Request creation hints

What a server tells a client without a token about where to get one, and what for (RFC 9200 section
5.3). Hints are a small map, which is read entry by entry. How many entries the map announces does not
matter, only that nothing unexpected is among them; of a repeated entry the last one counts.
-/

namespace TokenGate

open Cbor

/-- Hints for a client that asks for a token. -/
structure Hints where
  /-- Where to get a token. -/
  asUri : String
  audience : String
  scope : Option String := none
  cnonce : Option Bytes := none
  deriving DecidableEq, Repr

/-- Why hints cannot be read. -/
inductive HintsError where
  | noMap
  | unexpectedElement
  | missingComponents
  | noString
  /-- The input ends inside a string. -/
  | unfinishedString
  | invalidText
  /-- A string is announced that is longer than any string can be, which nothing here can deal with. -/
  | oversizedString
  deriving DecidableEq, Repr

/-- The wording of an error. -/
def HintsError.message : HintsError → String
  | noMap => "Map expected"
  | unexpectedElement => "Unexpected element"
  | missingComponents => "Components missing"
  | noString => "String element expected"
  | unfinishedString => "End of file reached mid-stream"
  | invalidText => "Text string contained invalid (non-UTF8) bytes"
  | oversizedString => "capacity overflow"

namespace Hints

/-- The labels of hints. -/
inductive Field where
  | asUri
  | audience
  | scope
  | cnonce
  deriving DecidableEq, Repr

namespace Field

/-- Every label. -/
def all : List Field := [asUri, audience, scope, cnonce]

/-- The number of a label. -/
def label : Field → UInt64
  | asUri => 1
  | audience => 5
  | scope => 9
  | cnonce => 39

/-- The label with a number. -/
def ofLabel? (n : UInt64) : Option Field := all.find? fun f => f.label = n

end Field

/-- Hints as a map. -/
def toValue (hints : Hints) : Value :=
  .map ([(.uint Field.asUri.label, .text hints.asUri),
      (.uint Field.audience.label, .text hints.audience)]
    ++ (hints.scope.map fun s => (.uint Field.scope.label, .text s)).toList
    ++ (hints.cnonce.map fun bs => (.uint Field.cnonce.label, .bytes bs)).toList)

/-- The bytes of hints. -/
def encode (hints : Hints) : Bytes := hints.toValue.encode

/-- The length from which on there are no strings any more. That there is room for any shorter one is taken for granted. -/
def lengthLimit : Nat := 0x8000000000000000

/-- As many bytes as a string has. Room is made for the string before the first of them is read. -/
def takeString (length : UInt64) (bs : Bytes) : Except HintsError (Bytes × Bytes) :=
  if lengthLimit ≤ length.toNat then .error .oversizedString
  else
    match bs.splitAt? length.toNat with
    | some parts => .ok parts
    | none => .error .unfinishedString

/-- Takes a text of known length off the front of some bytes. -/
def takeText (bs : Bytes) : Except HintsError (String × Bytes) :=
  match Head.read bs with
  | .ok (.text (some length), rest) => do
    let (content, rest) ← takeString length rest
    match Text.ofUtf8? content with
    | some s => .ok (s, rest)
    | none => .error .invalidText
  | _ => .error .noString

/-- Takes a byte string of known length off the front of some bytes. -/
def takeBytes (bs : Bytes) : Except HintsError (Bytes × Bytes) :=
  match Head.read bs with
  | .ok (.bytes (some length), rest) => takeString length rest
  | _ => .error .noString

/-- Hints of which not every entry has been read yet. -/
structure Draft where
  asUri : Option String := none
  audience : Option String := none
  scope : Option String := none
  cnonce : Option Bytes := none
  deriving DecidableEq, Repr

/-- Reads the value under a label into a draft. -/
def Draft.enter (draft : Draft) (field : Field) (bs : Bytes) : Except HintsError (Draft × Bytes) :=
  match field with
  | .asUri => (takeText bs).map fun (s, rest) => ({ draft with asUri := some s }, rest)
  | .audience => (takeText bs).map fun (s, rest) => ({ draft with audience := some s }, rest)
  | .scope => (takeText bs).map fun (s, rest) => ({ draft with scope := some s }, rest)
  | .cnonce => (takeBytes bs).map fun (s, rest) => ({ draft with cnonce := some s }, rest)

/-- Reads entries into a draft, up to a stop or the end of the input. -/
def readEntries (draft : Draft) : (fuel : Nat) → Bytes → Except HintsError Draft
  | 0, _ => .ok draft
  | fuel + 1, bs =>
    match Head.read bs with
    | .error .endOfInput | .ok (.stop, _) => .ok draft
    | .ok (.uint label, rest) =>
      match Field.ofLabel? label with
      | some field => do
        let (draft, rest) ← draft.enter field rest
        readEntries draft fuel rest
      | none => .error .unexpectedElement
    | _ => .error .unexpectedElement

/-- The hints of a draft, which need a place to get a token and an audience. -/
def Draft.finish (draft : Draft) : Except HintsError Hints :=
  match draft.asUri, draft.audience with
  | some asUri, some audience =>
    .ok { asUri, audience, scope := draft.scope, cnonce := draft.cnonce }
  | _, _ => .error .missingComponents

/-- The hints that some bytes are. -/
def decode (bs : Bytes) : Except HintsError Hints :=
  match Head.read bs with
  | .ok (.map _, rest) => do (← readEntries {} bs.length rest).finish
  | _ => .error .noMap

end Hints

namespace Endpoint

/-- The hints for clients whose requests were refused for lack of a token. -/
def hints (e : Endpoint) : Hints where
  asUri := e.asUri
  audience := e.audiences.head?.getD ""

end Endpoint

end TokenGate
