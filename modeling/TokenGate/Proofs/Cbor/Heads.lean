import TokenGate.Cbor.Head

/-!
# Heads read back

A head that is written is read back, whatever follows it, and so is a number in floating point.
-/

namespace TokenGate

namespace Bytes

/-- Bytes are split where two strings were put together. -/
theorem splitAt?_append {n : Nat} {front : Bytes} (back : Bytes) (length : front.length = n) :
    splitAt? n (front ++ back) = some (front, back) := by
  subst length
  simp [splitAt?]

end Bytes

namespace Cbor

namespace Head

/-- A first byte is taken apart again. -/
theorem parts_of_lead : ∀ (major : Fin 8) (info : Fin 32),
    UInt8.ofNat (major.val * 32 + info.val) &&& 0x1F = UInt8.ofNat info.val ∧
      UInt8.ofNat (major.val * 32 + info.val) >>> 5 = UInt8.ofNat major.val := by
  decide +kernel

/-- A first byte and what follows it are read as a head. -/
theorem read_lead {major info : Nat} (small : major < 8) (low : info < 32) {argument : Argument} {head : Head}
    {bs rest : Bytes} (read : Argument.read (UInt8.ofNat info) bs = .ok (argument, rest))
    (made : ofArgument (UInt8.ofNat major) argument = .ok head) :
    Head.read (UInt8.ofNat (major * 32 + info) :: bs) = .ok (head, rest) := by
  obtain ⟨low, high⟩ := parts_of_lead ⟨major, small⟩ ⟨info, low⟩
  simp only at low high
  simp only [Head.read, low, high, read, made, bind, Except.bind]

/-- The low bits of a first byte announce an argument of a width. -/
def Announces (info width : Nat) (make : Nat → Argument) : Prop :=
  info < 32 ∧ ∀ bs, Argument.read (UInt8.ofNat info) bs =
    match bs.splitAt? width with
    | some (digits, rest) => .ok (make digits.toNat, rest)
    | none => .error .endOfInput

/-- Behind 24 there is an argument of one byte. -/
theorem announces_one : Announces 24 1 .one := ⟨by decide, fun _ => rfl⟩

theorem announces_two : Announces 25 2 .two := ⟨by decide, fun _ => rfl⟩

theorem announces_four : Announces 26 4 .four := ⟨by decide, fun _ => rfl⟩

theorem announces_eight : Announces 27 8 .eight := ⟨by decide, fun _ => rfl⟩

/-- An argument of a width is read back, as far as it fits the width. -/
theorem Announces.read {info width : Nat} {make : Nat → Argument} (h : Announces info width make) (n : Nat) (rest : Bytes) :
    Argument.read (UInt8.ofNat info) (Bytes.ofNat width n ++ rest) = .ok (make (n % Nat.pow 256 width), rest) := by
  obtain ⟨_, announced⟩ := h
  rw [announced, Bytes.splitAt?_append rest (Bytes.length_ofNat width n)]
  simp only [Bytes.toNat_ofNat]

/-- A head that is written is read back, in whichever form its argument is. -/
theorem read_write {major : Nat} (small : major < 8) {n : UInt64} {head : Head}
    (made : ∀ argument : Argument, argument.number? = some n → ofArgument (UInt8.ofNat major) argument = .ok head)
    (rest : Bytes) : Head.read (write major n ++ rest) = .ok (head, rest) := by
  have number : some (UInt64.ofNat n.toNat) = some n := congrArg some UInt64.ofNat_toNat
  have word : ∀ {info width : Nat} {make : Nat → Argument}, Announces info width make → n.toNat < Nat.pow 256 width →
      (make n.toNat).number? = some n →
      Head.read (UInt8.ofNat (major * 32 + info) :: (Bytes.ofNat width n.toNat ++ rest)) = .ok (head, rest) := by
    intro info width make announces fits number
    have read := announces.read n.toNat rest
    rw [Nat.mod_eq_of_lt fits] at read
    exact read_lead small announces.1 read (made _ number)
  unfold write
  split
  · rename_i short
    have below : n.toNat < 24 := UInt64.lt_iff_toNat_lt.mp short
    have kept : (UInt8.ofNat n.toNat).toNat = n.toNat := UInt8.toNat_ofNat_of_lt' (Nat.lt_trans below (by decide))
    refine read_lead small (by omega) ?_ (made (.short (UInt8.ofNat n.toNat)) ?_)
    · rw [Argument.read, if_pos]
      · rfl
      · rw [UInt8.lt_iff_toNat_lt, kept]
        exact below
    · rw [Argument.number?, Option.some.injEq, ← UInt64.toNat_inj, UInt8.toNat_toUInt64, kept]
  · rename_i long
    split
    · rename_i one
      have fits : n.toNat < Nat.pow 256 1 := UInt64.lt_iff_toNat_lt.mp one
      exact word announces_one fits number
    · split
      · rename_i two
        have fits : n.toNat < Nat.pow 256 2 := UInt64.lt_iff_toNat_lt.mp two
        exact word announces_two fits number
      · split
        · rename_i four
          have fits : n.toNat < Nat.pow 256 4 := UInt64.lt_iff_toNat_lt.mp four
          exact word announces_four fits number
        · exact word announces_eight n.toNat_lt number

section

variable (n : UInt64) (rest : Bytes)

/-- A natural number is read back from its head. -/
theorem read_write_uint : Head.read (write 0 n ++ rest) = .ok (.uint n, rest) :=
  read_write (by decide) (fun _ number => by simp [ofArgument, number]) rest

theorem read_write_nint : Head.read (write 1 n ++ rest) = .ok (.nint n, rest) :=
  read_write (by decide) (fun _ number => by simp [ofArgument, number]) rest

theorem read_write_bytes : Head.read (write 2 n ++ rest) = .ok (.bytes (some n), rest) :=
  read_write (by decide) (fun _ number => by simp [ofArgument, number]) rest

theorem read_write_text : Head.read (write 3 n ++ rest) = .ok (.text (some n), rest) :=
  read_write (by decide) (fun _ number => by simp [ofArgument, number]) rest

theorem read_write_array : Head.read (write 4 n ++ rest) = .ok (.array (some n), rest) :=
  read_write (by decide) (fun _ number => by simp [ofArgument, number]) rest

theorem read_write_map : Head.read (write 5 n ++ rest) = .ok (.map (some n), rest) :=
  read_write (by decide) (fun _ number => by simp [ofArgument, number]) rest

theorem read_write_tag : Head.read (write 6 n ++ rest) = .ok (.tag n, rest) :=
  read_write (by decide) (fun _ number => by simp [ofArgument, number]) rest

end

/-! ## Numbers in floating point -/

/-- Only the low 16 bits count for a number of 16 bits. -/
theorem widen_half_mod (n : Nat) : FloatFormat.half.widen (n % Nat.pow 256 2) = FloatFormat.half.widen n := by
  have split : FloatFormat.half.split (n % Nat.pow 256 2) = FloatFormat.half.split n := by
    change (n % 65536 / 1024 / 32 % 2, n % 65536 / 1024 % 32, n % 65536 % 1024) = (n / 1024 / 32 % 2, n / 1024 % 32, n % 1024)
    simp only [Prod.mk.injEq]
    omega
  rw [FloatFormat.widen, FloatFormat.widen, split]

/-- Only the low 32 bits count for a number of 32 bits. -/
theorem widen_single_mod (n : Nat) : FloatFormat.single.widen (n % Nat.pow 256 4) = FloatFormat.single.widen n := by
  have split : FloatFormat.single.split (n % Nat.pow 256 4) = FloatFormat.single.split n := by
    change (n % 4294967296 / 8388608 / 256 % 2, n % 4294967296 / 8388608 % 256, n % 4294967296 % 8388608) =
      (n / 8388608 / 256 % 2, n / 8388608 % 256, n % 8388608)
    simp only [Prod.mk.injEq]
    omega
  rw [FloatFormat.widen, FloatFormat.widen, split]

/-- A number in half precision is widened. -/
theorem ofArgument_two (n : Nat) : ofArgument 7 (.two n) = .ok (.float (UInt64.ofNat (FloatFormat.half.widen n))) := rfl

theorem ofArgument_four (n : Nat) : ofArgument 7 (.four n) = .ok (.float (UInt64.ofNat (FloatFormat.single.widen n))) := rfl

theorem ofArgument_eight (n : Nat) : ofArgument 7 (.eight n) = .ok (.float (UInt64.ofNat n)) := rfl

/-- A number in floating point is read back with the same bits, in whichever format it is. -/
theorem read_writeFloat (bits : UInt64) (rest : Bytes) : Head.read (writeFloat bits ++ rest) = .ok (.float bits, rest) := by
  have number : UInt64.ofNat bits.toNat = bits := UInt64.ofNat_toNat
  have float : ∀ {info width : Nat} {make : Nat → Argument} {n : Nat} {first : UInt8}, Announces info width make →
      UInt8.ofNat (7 * 32 + info) = first → ofArgument 7 (make (n % Nat.pow 256 width)) = .ok (.float bits) →
      Head.read (first :: Bytes.ofNat width n ++ rest) = .ok (.float bits, rest) := by
    rintro info width make n first announces rfl made
    exact read_lead (by decide) announces.1 (announces.read n rest) made
  have half := fun n => @FloatFormat.widen_of_narrow? FloatFormat.half bits.toNat n
  have single := fun n => @FloatFormat.widen_of_narrow? FloatFormat.single bits.toNat n
  unfold writeFloat
  -- How the shorter forms are found does not matter, and is not to be evaluated.
  generalize FloatFormat.half.narrow? bits.toNat = short at half
  generalize FloatFormat.single.narrow? bits.toNat = middle at single
  match short, middle with
  | some n, _ =>
    refine float announces_two rfl ?_
    rw [ofArgument_two, widen_half_mod, half n rfl, number]
  | none, some n =>
    refine float announces_four rfl ?_
    rw [ofArgument_four, widen_single_mod, single n rfl, number]
  | none, none =>
    refine float announces_eight rfl ?_
    rw [ofArgument_eight, Nat.mod_eq_of_lt bits.toNat_lt, number]

end Head

end Cbor

end TokenGate
