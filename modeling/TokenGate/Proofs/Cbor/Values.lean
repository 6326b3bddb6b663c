import Mathlib.Algebra.Ring.Nat
import TokenGate.Cbor.Decoding
import TokenGate.Cbor.Encoding
import TokenGate.Proofs.Cbor.Heads

/-!
# Values read back

A value that is written is read back, unless it is nested too deep, has a part that is too long for the format, or has a tagged
byte string that a reader takes for an integer. `IsFaithful` says that it is none of these.
-/

namespace TokenGate.Cbor

namespace Value

/-- Whether a reader takes a tag on some content for an integer. -/
def standsForInteger (number : UInt64) : Value → Bool
  | .bytes bs => (number == 2 || number == 3) && bs.length ≤ 16
  | _ => false

/-- A value that its encoding stands for, to a reader of some depth. -/
inductive IsFaithful : (depth : Nat) → Value → Prop
  | uint (depth : Nat) (n : UInt64) : IsFaithful depth (.uint n)
  | nint (depth : Nat) (n : UInt64) : IsFaithful depth (.nint n)
  | bytes (depth : Nat) {bs : Bytes} (length : bs.length < 2 ^ 64) : IsFaithful depth (.bytes bs)
  | text (depth : Nat) {s : String} (length : (Text.utf8 s).length < 2 ^ 64) : IsFaithful depth (.text s)
  | float (depth : Nat) (bits : UInt64) : IsFaithful depth (.float bits)
  | bool (depth : Nat) (b : Bool) : IsFaithful depth (.bool b)
  | null (depth : Nat) : IsFaithful depth .null
  | tag {depth : Nat} {number : UInt64} {content : Value} (plain : standsForInteger number content = false)
    (inner : IsFaithful depth content) : IsFaithful (depth + 1) (.tag number content)
  | array {depth : Nat} {items : List Value} (length : items.length < 2 ^ 64)
    (inner : ∀ v ∈ items, IsFaithful depth v) : IsFaithful (depth + 1) (.array items)
  | map {depth : Nat} {entries : List (Value × Value)} (length : entries.length < 2 ^ 64)
    (keys : ∀ e ∈ entries, IsFaithful depth e.1) (values : ∀ e ∈ entries, IsFaithful depth e.2) :
    IsFaithful (depth + 1) (.map entries)

/-- A reader of more depth reads no less. -/
theorem IsFaithful.mono {depth more : Nat} {v : Value} (h : v.IsFaithful depth) (le : depth ≤ more) : v.IsFaithful more := by
  induction h generalizing more with
  | uint _ n => exact .uint _ n
  | nint _ n => exact .nint _ n
  | bytes _ length => exact .bytes _ length
  | text _ length => exact .text _ length
  | float _ bits => exact .float _ bits
  | bool _ b => exact .bool _ b
  | null _ => exact .null _
  | tag plain _ ih =>
    cases more with
    | zero => nomatch le
    | succ more => exact .tag plain (ih (Nat.le_of_succ_le_succ le))
  | array length _ ih =>
    cases more with
    | zero => nomatch le
    | succ more => exact .array length fun v among => ih v among (Nat.le_of_succ_le_succ le)
  | map length _ _ keys values =>
    cases more with
    | zero => nomatch le
    | succ more =>
      have le := Nat.le_of_succ_le_succ le
      exact .map length (fun e among => keys e among le) fun e among => values e among le

/-- The head that the encoding of a value begins with. -/
def head : Value → Head
  | .uint n => .uint n
  | .nint n => .nint n
  | .bytes bs => .bytes (some (UInt64.ofNat bs.length))
  | .text s => .text (some (UInt64.ofNat (Text.utf8 s).length))
  | .float bits => .float bits
  | .bool b => .simple (if b then 21 else 20)
  | .null => .simple 22
  | .tag number _ => .tag number
  | .array items => .array (some (UInt64.ofNat items.length))
  | .map entries => .map (some (UInt64.ofNat entries.length))

/-- What comes after the head. -/
def body : Value → Bytes
  | .bytes bs => bs
  | .text s => Text.utf8 s
  | .tag _ content => encode content
  | .array items => encodeItems items
  | .map entries => encodeEntries entries
  | _ => []

/-- The head of a value is read back. -/
theorem read_encode (v : Value) (rest : Bytes) : Head.read (v.encode ++ rest) = .ok (v.head, v.body ++ rest) := by
  cases v with
  | uint n => exact Head.read_write_uint n rest
  | nint n => exact Head.read_write_nint n rest
  | bytes bs => rw [encode, List.append_assoc, Head.read_write_bytes, head, body]
  | text s => rw [encode, List.append_assoc, Head.read_write_text, head, body]
  | float bits => exact Head.read_writeFloat bits rest
  | bool b => cases b <;> rfl
  | null => rfl
  | tag number content => rw [encode, List.append_assoc, Head.read_write_tag, head, body]
  | array items => rw [encode, List.append_assoc, Head.read_write_array, head, body]
  | map entries => rw [encode, List.append_assoc, Head.read_write_map, head, body]

end Value

/-! ## Reading what was written -/

/-- A length that a head can tell is told. -/
theorem toNat_ofNat_of_lt {n : Nat} (h : n < 2 ^ 64) : (UInt64.ofNat n).toNat = n :=
  UInt64.toNat_ofNat_of_lt' h

/-- Items that are each read back are read back one after the other. -/
theorem readCount_encodeItems {item : Reader Value} {items : List Value}
    (each : ∀ v ∈ items, ∀ rest, item (v.encode ++ rest) = some (v, rest)) (rest : Bytes) :
    readCount item items.length (Value.encodeItems items ++ rest) = some (items, rest) := by
  induction items with
  | nil => rfl
  | cons v vs ih =>
    have first := each v List.mem_cons_self (Value.encodeItems vs ++ rest)
    have others := ih fun v among => each v (List.mem_cons_of_mem _ among)
    simp only [List.length_cons, Value.encodeItems, List.append_assoc, readCount, first, others, Option.bind_eq_bind,
      Option.bind_some]

/-- Entries whose keys and values are each read back are read back one after the other. -/
theorem readCount_encodeEntries {item : Reader Value} {entries : List (Value × Value)}
    (keys : ∀ e ∈ entries, ∀ rest, item (e.1.encode ++ rest) = some (e.1, rest))
    (values : ∀ e ∈ entries, ∀ rest, item (e.2.encode ++ rest) = some (e.2, rest)) (rest : Bytes) :
    readCount (readEntry item) entries.length (Value.encodeEntries entries ++ rest) = some (entries, rest) := by
  induction entries with
  | nil => rfl
  | cons e es ih =>
    obtain ⟨k, v⟩ := e
    have key := keys (k, v) List.mem_cons_self (v.encode ++ (Value.encodeEntries es ++ rest))
    have value := values (k, v) List.mem_cons_self (Value.encodeEntries es ++ rest)
    have others := ih (fun e among => keys e (List.mem_cons_of_mem _ among))
      (fun e among => values e (List.mem_cons_of_mem _ among))
    simp only [List.length_cons, Value.encodeEntries, List.append_assoc, readCount, readEntry, key, value, others,
      Option.bind_eq_bind, Option.bind_some]

/-- What begins the encoding of a value that is no byte string does not begin that of a byte string. -/
theorem Value.head_ne_bytes {v : Value} (other : ∀ bs, v ≠ .bytes bs) (length : Option UInt64) : v.head ≠ .bytes length := by
  cases v with
  | bytes bs => exact absurd rfl (other bs)
  | _ => nofun

/-- A tag that stands for no integer is not taken for one. -/
theorem taggedDigits?_encode {number : UInt64} {content : Value} {depth : Nat}
    (plain : Value.standsForInteger number content = false) (inner : content.IsFaithful depth) (rest : Bytes) :
    taggedDigits? number (content.encode ++ rest) = none := by
  unfold taggedDigits?
  split
  · rename_i integral
    by_cases string : ∃ bs, content = .bytes bs
    · obtain ⟨bs, rfl⟩ := string
      cases inner with
      | bytes _ length =>
        have long : ¬UInt64.ofNat bs.length ≤ 16 := by
          rw [UInt64.le_iff_toNat_le, toNat_ofNat_of_lt length]
          intro short
          have tagged : (number == 2 || number == 3) = true := by simpa using integral
          rw [Value.standsForInteger, tagged, Bool.true_and] at plain
          exact of_decide_eq_false plain short
        rw [Value.encode, List.append_assoc, Head.read_write_bytes]
        exact if_neg long
    · have other := Value.head_ne_bytes fun bs same => string ⟨bs, same⟩
      rw [Value.read_encode]
      generalize content.head = head at other
      cases head with
      | bytes length => exact absurd rfl (other length)
      | _ => rfl
  · rfl

/-- A faithful value that is written is read back, whatever follows it. -/
theorem Value.IsFaithful.readValue_encode {depth : Nat} {v : Value} (h : v.IsFaithful depth) (rest : Bytes) :
    readValue depth (v.encode ++ rest) = some (v, rest) := by
  induction h generalizing rest with
  | uint depth n => simp only [readValue, encode, Head.read_write_uint]
  | nint depth n => simp only [readValue, encode, Head.read_write_nint]
  | @bytes depth bs length =>
    simp only [readValue, encode, List.append_assoc, Head.read_write_bytes, readBytes, toNat_ofNat_of_lt length,
      Bytes.splitAt?_append rest rfl, Option.map_some]
  | @text depth s length =>
    simp only [readValue, encode, List.append_assoc, Head.read_write_text, readText, toNat_ofNat_of_lt length,
      Bytes.splitAt?_append rest rfl, Text.ofUtf8?_utf8, Option.bind_eq_bind, Option.bind_some, Option.map_some]
  | float depth bits => simp only [readValue, encode, Head.read_writeFloat]
  | bool depth b => cases b <;> cases depth <;> rfl
  | null depth => cases depth <;> rfl
  | tag plain inner ih =>
    simp only [readValue, encode, List.append_assoc, Head.read_write_tag, taggedDigits?_encode plain inner, ih,
      Option.map_some]
  | array length inner ih =>
    simp only [readValue, encode, List.append_assoc, Head.read_write_array, readAll, toNat_ofNat_of_lt length,
      readCount_encodeItems ih, Option.map_some]
  | map length _ _ keys values =>
    simp only [readValue, encode, List.append_assoc, Head.read_write_map, readAll, toNat_ofNat_of_lt length,
      readCount_encodeEntries keys values, Option.map_some]

/-- A faithful value is all that its encoding holds. -/
theorem Value.IsFaithful.read?_encode {v : Value} (h : v.IsFaithful maxDepth) : read? v.encode = some (v, []) := by
  have read := h.readValue_encode []
  rw [List.append_nil] at read
  exact read

/-- A value that is read back faithfully is decoded from its bytes. -/
theorem Value.IsFaithful.decode?_encode {v : Value} (h : v.IsFaithful maxDepth) : decode? v.encode = some v := by
  rw [decode?, h.read?_encode, Option.map_some]

end TokenGate.Cbor
