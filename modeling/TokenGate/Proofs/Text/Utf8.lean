import TokenGate.Text.Utf8

/-!
# Bytes of texts

The bytes of a text are those of its characters, one after the other: a single one below 128 for an ASCII character, and bytes from
128 on for any other.
-/

namespace TokenGate.Text

/-- Texts are written one after the other. -/
theorem utf8_append (s t : String) : utf8 (s ++ t) = utf8 s ++ utf8 t := by
  simp [utf8, String.toUTF8_eq_toByteArray]

/-- A text is written character by character. -/
theorem utf8_ofList (cs : List Char) : utf8 (String.ofList cs) = cs.flatMap String.utf8EncodeChar := by
  simp [utf8, List.utf8Encode]

theorem utf8_join (texts : List String) : utf8 (String.join texts) = (texts.map utf8).flatten := by
  induction texts with
  | nil => rfl
  | cons s ss ih => rw [String.join_cons, utf8_append, ih, List.map_cons, List.flatten_cons]

/-- A character of ASCII is written as its code. -/
theorem utf8EncodeChar_of_ascii {c : Char} (ascii : c.toNat < 128) : String.utf8EncodeChar c = [UInt8.ofNat c.toNat] :=
  if_pos (Nat.le_of_lt_succ ascii)

/-- No byte of any other character is one of ASCII. -/
theorem le_of_mem_utf8EncodeChar {c : Char} (other : 128 ≤ c.toNat) {b : UInt8} (among : b ∈ String.utf8EncodeChar c) :
    128 ≤ b.toNat := by
  have long : ¬c.val.toNat ≤ 0x7f := Nat.not_le_of_lt other
  have high : ∀ n, 128 ≤ n → n < 256 → 128 ≤ (UInt8.ofNat n).toNat := by
    intro n le lt
    rw [UInt8.toNat_ofNat_of_lt' lt]
    exact le
  unfold String.utf8EncodeChar at among
  simp only [long, if_false] at among
  split at among
  · simp only [List.mem_cons, List.not_mem_nil, or_false] at among
    rcases among with rfl | rfl <;> exact high _ (by omega) (by omega)
  · split at among
    · simp only [List.mem_cons, List.not_mem_nil, or_false] at among
      rcases among with rfl | rfl | rfl <;> exact high _ (by omega) (by omega)
    · simp only [List.mem_cons, List.not_mem_nil, or_false] at among
      rcases among with rfl | rfl | rfl | rfl <;> exact high _ (by omega) (by omega)

end TokenGate.Text
