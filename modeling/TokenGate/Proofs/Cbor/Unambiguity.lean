import TokenGate.Proofs.Cbor.Reading

/-!
# Encodings told apart

What is written of a value says where it ends and which value it is, whatever follows it: its head has the number of what is in it,
and its parts do the same. This is true of every value whose lengths can be written at all, also of those that a reader takes for
another one.
-/

namespace TokenGate.Cbor

namespace Value

/-- Encodings that begin with each other's bytes have the same head, and what comes after it is the same. -/
theorem head_eq_of_append {v w : Value} {x y : Bytes} (same : v.encode ++ x = w.encode ++ y) :
    v.head = w.head ∧ v.body ++ x = w.body ++ y := by
  have read := read_encode v x
  rw [same, read_encode w y] at read
  obtain ⟨head, body⟩ := Prod.mk.inj (Except.ok.inj read)
  exact ⟨head.symm, body.symm⟩

/-- A value whose lengths can all be written. -/
inductive IsWritable : Value → Prop
  | uint (n : UInt64) : IsWritable (.uint n)
  | nint (n : UInt64) : IsWritable (.nint n)
  | bytes {bs : Bytes} (length : bs.length < 2 ^ 64) : IsWritable (.bytes bs)
  | text {s : String} (length : (Text.utf8 s).length < 2 ^ 64) : IsWritable (.text s)
  | float (bits : UInt64) : IsWritable (.float bits)
  | bool (b : Bool) : IsWritable (.bool b)
  | null : IsWritable .null
  | tag (number : UInt64) {content : Value} (inner : IsWritable content) : IsWritable (.tag number content)
  | array {items : List Value} (length : items.length < 2 ^ 64) (inner : ∀ v ∈ items, IsWritable v) : IsWritable (.array items)
  | map {entries : List (Value × Value)} (length : entries.length < 2 ^ 64) (keys : ∀ e ∈ entries, IsWritable e.1)
    (values : ∀ e ∈ entries, IsWritable e.2) : IsWritable (.map entries)

/-- A value that is told apart from any other by its head and what comes after it, whatever follows. -/
def IsTold (v : Value) : Prop :=
  ∀ ⦃w : Value⦄, w.IsWritable → v.head = w.head → ∀ ⦃x y : Bytes⦄, v.body ++ x = w.body ++ y → v = w ∧ x = y

section

variable {x y : Bytes}

/-- What is told apart is the same wherever the bytes are the same, and so is what follows. -/
theorem IsTold.append_inj {v w : Value} (told : v.IsTold) (writable : w.IsWritable) (same : v.encode ++ x = w.encode ++ y) :
    v = w ∧ x = y := by
  obtain ⟨heads, bodies⟩ := head_eq_of_append same
  exact told writable heads bodies

/-- As many items that are each told apart are told apart one after the other. -/
theorem encodeItems_append_inj {vs ws : List Value} (told : ∀ v ∈ vs, v.IsTold) (writable : ∀ w ∈ ws, w.IsWritable)
    (length : vs.length = ws.length) (same : encodeItems vs ++ x = encodeItems ws ++ y) : vs = ws ∧ x = y := by
  induction vs generalizing ws with
  | nil =>
    cases List.eq_nil_of_length_eq_zero length.symm
    exact ⟨rfl, same⟩
  | cons v vs ih =>
    cases ws with
    | nil => nomatch length
    | cons w ws =>
      rw [List.forall_mem_cons] at told writable
      simp only [encodeItems, List.append_assoc] at same
      obtain ⟨rfl, others⟩ := told.1.append_inj writable.1 same
      obtain ⟨rfl, rest⟩ := ih told.2 writable.2 (Nat.succ.inj length) others
      exact ⟨rfl, rest⟩

/-- As many entries whose keys and values are each told apart are told apart one after the other. -/
theorem encodeEntries_append_inj {es fs : List (Value × Value)} (told : ∀ e ∈ es, e.1.IsTold ∧ e.2.IsTold)
    (writable : ∀ f ∈ fs, f.1.IsWritable ∧ f.2.IsWritable) (length : es.length = fs.length)
    (same : encodeEntries es ++ x = encodeEntries fs ++ y) : es = fs ∧ x = y := by
  induction es generalizing fs with
  | nil =>
    cases List.eq_nil_of_length_eq_zero length.symm
    exact ⟨rfl, same⟩
  | cons e es ih =>
    cases fs with
    | nil => nomatch length
    | cons f fs =>
      obtain ⟨k, v⟩ := e
      obtain ⟨l, w⟩ := f
      rw [List.forall_mem_cons] at told writable
      simp only [encodeEntries, List.append_assoc] at same
      obtain ⟨rfl, values⟩ := told.1.1.append_inj writable.1.1 same
      obtain ⟨rfl, others⟩ := told.1.2.append_inj writable.1.2 values
      obtain ⟨rfl, rest⟩ := ih told.2 writable.2 (Nat.succ.inj length) others
      exact ⟨rfl, rest⟩

/-- Lengths that can be written are told apart. -/
theorem length_inj {m n : Nat} (small : m < 2 ^ 64) (small' : n < 2 ^ 64) (same : some (UInt64.ofNat m) = some (UInt64.ofNat n)) :
    m = n := by
  rw [← toNat_ofNat_of_lt small, Option.some.inj same, toNat_ofNat_of_lt small']

/-- A value that can be written is told apart from any other one. -/
theorem IsWritable.isTold {v : Value} (h : v.IsWritable) : v.IsTold := by
  intro w writable heads x y bodies
  induction h generalizing w x y with
  | uint | nint | float =>
    cases writable <;> cases heads
    exact ⟨rfl, bodies⟩
  | bool b =>
    cases writable with
    | bool c => cases b <;> cases c <;> first | exact ⟨rfl, bodies⟩ | nomatch heads
    | null => cases b <;> nomatch heads
    | _ => nomatch heads
  | null =>
    cases writable with
    | bool c => cases c <;> nomatch heads
    | null => exact ⟨rfl, bodies⟩
    | _ => nomatch heads
  | bytes length =>
    cases writable with
    | bytes length' =>
      obtain ⟨strings, rest⟩ := List.append_inj bodies (length_inj length length' (Head.bytes.inj heads))
      exact ⟨congrArg Value.bytes strings, rest⟩
    | _ => nomatch heads
  | text length =>
    cases writable with
    | text length' =>
      obtain ⟨strings, rest⟩ := List.append_inj bodies (length_inj length length' (Head.text.inj heads))
      exact ⟨congrArg Value.text (Text.utf8_injective strings), rest⟩
    | _ => nomatch heads
  | tag number _ ih =>
    cases writable with
    | tag number' inner =>
      cases heads
      have told : IsTold _ := fun _ writable heads _ _ bodies => ih writable heads bodies
      obtain ⟨rfl, rest⟩ := told.append_inj inner bodies
      exact ⟨rfl, rest⟩
    | _ => nomatch heads
  | array length _ ih =>
    cases writable with
    | array length' inner =>
      have told : ∀ v ∈ _, IsTold v := fun v among _ writable heads _ _ bodies => ih v among writable heads bodies
      obtain ⟨rfl, rest⟩ := encodeItems_append_inj told inner (length_inj length length' (Head.array.inj heads)) bodies
      exact ⟨rfl, rest⟩
    | _ => nomatch heads
  | @map entries length _ _ keys values =>
    cases writable with
    | map length' keys' values' =>
      have told : ∀ e ∈ entries, IsTold e.1 ∧ IsTold e.2 := fun e among =>
        ⟨fun _ writable heads _ _ bodies => keys e among writable heads bodies,
          fun _ writable heads _ _ bodies => values e among writable heads bodies⟩
      obtain ⟨rfl, rest⟩ := encodeEntries_append_inj told (fun e among => ⟨keys' e among, values' e among⟩)
        (length_inj length length' (Head.map.inj heads)) bodies
      exact ⟨rfl, rest⟩
    | _ => nomatch heads

/-- An encoding says which value it is of, and where it ends. -/
theorem IsWritable.encode_append_inj {v w : Value} (h : v.IsWritable) (h' : w.IsWritable)
    (same : v.encode ++ x = w.encode ++ y) : v = w ∧ x = y :=
  h.isTold.append_inj h' same

end

/-- Entries are written one after the other. -/
theorem encodeEntries_append (es fs : List (Value × Value)) : encodeEntries (es ++ fs) = encodeEntries es ++ encodeEntries fs := by
  induction es with
  | nil => rfl
  | cons e es ih =>
    obtain ⟨k, v⟩ := e
    simp only [List.cons_append, encodeEntries, ih, List.append_assoc]

/-- Two maps that begin alike and go on with the same entries are written alike just if these are in the same order. -/
theorem encode_reordered_iff {common rest rest' : List (Value × Value)} (reordered : rest'.Perm rest)
    (writable : ∀ e ∈ rest, e.1.IsWritable ∧ e.2.IsWritable) :
    (Value.map (common ++ rest')).encode = (Value.map (common ++ rest)).encode ↔ rest' = rest := by
  refine ⟨fun same => ?_, fun same => same ▸ rfl⟩
  simp only [encode, List.length_append, reordered.length_eq, encodeEntries_append] at same
  have rests := List.append_cancel_left (List.append_cancel_left same)
  have told : ∀ e ∈ rest', e.1.IsTold ∧ e.2.IsTold := fun e among =>
    (writable e (reordered.subset among)).imp IsWritable.isTold IsWritable.isTold
  exact (encodeEntries_append_inj told writable reordered.length_eq (congrArg (· ++ []) rests)).1

/-! ## Values that can be written -/

mutual

/-- A value that is not too large can be written. -/
theorem isWritable_of_weight : ∀ {v : Value}, v.weight < 2 ^ 64 → v.IsWritable
  | .uint n, _ => .uint n
  | .nint n, _ => .nint n
  | .bytes _, light => .bytes (Nat.lt_of_succ_lt light)
  | .text _, light => .text (Nat.lt_of_succ_lt light)
  | .float bits, _ => .float bits
  | .bool b, _ => .bool b
  | .null, _ => .null
  | .tag number _, light => .tag number (isWritable_of_weight (Nat.lt_of_succ_lt light))
  | .array items, light => by
    have light : weightItems items < 2 ^ 64 := Nat.lt_of_succ_lt light
    have length := length_le_weightItems items
    exact .array (by omega) (isWritable_of_weightItems light)
  | .map entries, light => by
    have light : weightEntries entries < 2 ^ 64 := Nat.lt_of_succ_lt light
    have length := length_le_weightEntries entries
    have each := isWritable_of_weightEntries light
    exact .map (by omega) (fun e among => (each e among).1) fun e among => (each e among).2

theorem isWritable_of_weightItems : ∀ {items : List Value}, weightItems items < 2 ^ 64 → ∀ v ∈ items, v.IsWritable
  | [], _ => List.forall_mem_nil _
  | v :: vs, light => by
    rw [weightItems] at light
    exact List.forall_mem_cons.mpr ⟨isWritable_of_weight (by omega), isWritable_of_weightItems (by omega)⟩

theorem isWritable_of_weightEntries : ∀ {entries : List (Value × Value)}, weightEntries entries < 2 ^ 64 →
    ∀ e ∈ entries, e.1.IsWritable ∧ e.2.IsWritable
  | [], _ => List.forall_mem_nil _
  | (k, v) :: rest, light => by
    rw [weightEntries] at light
    have key : k.weight < 2 ^ 64 := by omega
    have value : v.weight < 2 ^ 64 := by omega
    exact List.forall_mem_cons.mpr ⟨⟨isWritable_of_weight key, isWritable_of_weight value⟩, isWritable_of_weightEntries (by omega)⟩

end

/-- A number of 64 bits with a sign can be written. -/
theorem isWritable_ofInt64 (n : Int64) : (ofInt64 n).IsWritable := by
  unfold ofInt64
  split
  · exact .nint _
  · exact .uint _

end Value

end TokenGate.Cbor
