import TokenGate.Cbor.Head
import TokenGate.Cbor.Value

/-!
# Writing CBOR

Every item has one written form: shortest heads, definite lengths, numbers in the shortest format
that keeps their bits. Map entries are written in the order they have.
-/

namespace TokenGate.Cbor.Value

mutual

/-- The bytes of a value. -/
def encode : Value → Bytes
  | .uint n => Head.write 0 n
  | .nint n => Head.write 1 n
  | .bytes bs => Head.write 2 (UInt64.ofNat bs.length) ++ bs
  | .text s => Head.write 3 (UInt64.ofNat (Text.utf8 s).length) ++ Text.utf8 s
  | .array items => Head.write 4 (UInt64.ofNat items.length) ++ encodeItems items
  | .map entries => Head.write 5 (UInt64.ofNat entries.length) ++ encodeEntries entries
  | .tag number content => Head.write 6 number ++ encode content
  | .bool false => [0xF4]
  | .bool true => [0xF5]
  | .null => [0xF6]
  | .float bits => Head.writeFloat bits

/-- The bytes of some values, one after the other. -/
def encodeItems : List Value → Bytes
  | [] => []
  | v :: vs => encode v ++ encodeItems vs

/-- The bytes of some map entries, each key before its value. -/
def encodeEntries : List (Value × Value) → Bytes
  | [] => []
  | (k, v) :: rest => encode k ++ encode v ++ encodeEntries rest

end

end TokenGate.Cbor.Value
