import TokenGate.Text.Base64

/-!
# Base64 read back

Every byte string is read back from its standard form.
-/

namespace TokenGate.Text.Base64

/-- A digit has its value, and is not the padding. -/
theorem value?_digit (n : Nat) :
    value? standardDigits (digit standardDigits n) = some (n % 64) ∧ digit standardDigits n ≠ '=' := by
  have small : ∀ k : Fin 64, value? standardDigits (standardDigits.getD k '=') = some k.val ∧ standardDigits.getD k '=' ≠ '=' := by
    decide +kernel
  exact small ⟨n % 64, Nat.mod_lt n (by decide)⟩

/-- Four characters of which the last one is no padding are a whole group. -/
theorem decodeChars?_group {a b c d : Char} (whole : d ≠ '=') (rest : List Char) :
    decodeChars? (a :: b :: c :: d :: rest) = (do
      let n := (((← value? standardDigits a) * 64 + (← value? standardDigits b)) * 64
        + (← value? standardDigits c)) * 64 + (← value? standardDigits d)
      let tail ← decodeChars? rest
      some (UInt8.ofNat (n / 65536) :: UInt8.ofNat (n / 256) :: UInt8.ofNat n :: tail)) := by
  rw [decodeChars?]
  · intro _ same
    exact absurd same whole
  · intro same
    exact absurd same whole

theorem ofNat_eq_of_mod {b : UInt8} {n : Nat} (same : n % 256 = b.toNat) : UInt8.ofNat n = b :=
  UInt8.toNat_inj.mp same

/-- Bytes are read back from their digits. -/
theorem decodeChars?_encodeWith (bs : Bytes) : decodeChars? (encodeWith standardDigits ['='] bs) = some bs := by
  have value (n : Nat) : value? standardDigits (digit standardDigits n) = some (n % 64) := (value?_digit n).1
  match bs with
  | [] => rfl
  | [a] =>
    have := a.toNat_lt
    simp only [encodeWith, List.cons_append, List.nil_append, decodeChars?, value, Option.bind_eq_bind, Option.bind_some]
    rw [if_pos (by omega), ofNat_eq_of_mod (b := a) (by omega)]
  | [a, b] =>
    have := a.toNat_lt
    have := b.toNat_lt
    have other := (value?_digit ((a.toNat * 256 + b.toNat) * 4)).2
    simp only [encodeWith, List.cons_append, List.nil_append]
    rw [decodeChars?]
    · simp only [value, Option.bind_eq_bind, Option.bind_some]
      rw [if_pos (by omega), ofNat_eq_of_mod (b := a) (by omega), ofNat_eq_of_mod (b := b) (by omega)]
    · exact other
  | a :: b :: c :: rest =>
    have := a.toNat_lt
    have := b.toNat_lt
    have := c.toNat_lt
    have again := decodeChars?_encodeWith rest
    simp only [encodeWith, List.cons_append, List.nil_append]
    rw [decodeChars?_group (value?_digit _).2]
    simp only [value, again, Option.bind_eq_bind, Option.bind_some]
    rw [ofNat_eq_of_mod (b := a) (by omega), ofNat_eq_of_mod (b := b) (by omega), ofNat_eq_of_mod (b := c) (by omega)]

/-- Every byte string is read back. -/
theorem decode?_encode (bs : Bytes) : decode? (encode bs) = some bs := by
  rw [decode?, encode, String.toList_ofList, decodeChars?_encodeWith]

end TokenGate.Text.Base64
