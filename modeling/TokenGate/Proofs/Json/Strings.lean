import TokenGate.Json.Quoted
import TokenGate.Proofs.Text.Utf8

/-!
# Strings read back

A text in its written form is found again up to the closing quote, and is read back from it. Both go character by character, of
which there are three kinds: those with a short escape, other control characters, and all others.
-/

namespace TokenGate.Json

/-- How a character is written. -/
inductive IsWritten (c : Char) : List Char → Prop
  | short {name : Char} (listed : (name, c) ∈ shortEscapes) (other : name ≠ '/') : IsWritten c ['\\', name]
  | control (low : c.toNat < 0x20) : IsWritten c (['\\', 'u', '0', '0'] ++ Text.Hex.digits (byteOf c))
  | plain (quote : c ≠ '"') (backslash : c ≠ '\\') (high : 0x20 ≤ c.toNat) : IsWritten c [c]

/-- Every character is written in one of these ways. -/
theorem isWritten_escapeChar (c : Char) : IsWritten c (escapeChar c) := by
  unfold escapeChar
  split
  · rename_i name meaning found
    have same := List.find?_some found
    have among := List.mem_filter.mp (List.mem_of_find?_eq_some found)
    simp only [beq_iff_eq] at same
    subst same
    exact .short among.1 (by simpa using among.2)
  · rename_i found
    have apart : ∀ e ∈ shortEscapes.filter (·.1 ≠ '/'), e.2 ≠ c := by
      simpa [List.find?_eq_none] using found
    split
    · rename_i low
      exact .control low
    · rename_i high
      exact .plain (fun same => apart ('"', '"') (by decide) same.symm) (fun same => apart ('\\', '\\') (by decide) same.symm)
        (Nat.le_of_not_lt high)

/-! ## Reading the text -/

/-- Four digits of which the last two are those of a control character are its number. -/
theorem unitOf?_control {c : Char} (low : c.toNat < 0x20) :
    ∃ x y, Text.Hex.digits (byteOf c) = [x, y] ∧ unitOf? ['0', '0', x, y] = some c.toNat := by
  have each : ∀ n : Fin 32, unitOf? (['0', '0'] ++ Text.Hex.digits (UInt8.ofNat n)) = some n.val := by decide +kernel
  exact ⟨_, _, rfl, each ⟨c.toNat, low⟩⟩

/-- The part that is read of a written character. -/
theorem exists_piece {c : Char} {written : List Char} (h : IsWritten c written) (rest : List Char) :
    ∃ piece, (piece = .char c ∨ c.toNat < 0x20 ∧ piece = .unit c.toNat) ∧
      pieces? (written ++ rest) = (pieces? rest).bind fun more => some (piece :: more) := by
  cases h with
  | @short name listed other =>
    refine ⟨.char c, Or.inl rfl, ?_⟩
    simp only [shortEscapes, List.mem_cons, Prod.mk.injEq, List.not_mem_nil, or_false] at listed
    rcases listed with ⟨rfl, rfl⟩ | ⟨rfl, rfl⟩ | ⟨rfl, rfl⟩ | ⟨rfl, rfl⟩ | ⟨rfl, rfl⟩ | ⟨rfl, rfl⟩ | ⟨rfl, rfl⟩ | ⟨rfl, rfl⟩
    all_goals rfl
  | control low =>
    obtain ⟨x, y, digits, number⟩ := unitOf?_control low
    refine ⟨.unit c.toNat, Or.inr ⟨low, rfl⟩, ?_⟩
    rw [digits]
    simp only [List.cons_append, List.nil_append, pieces?, number, Option.bind_eq_bind, Option.bind_some]
  | plain _ backslash _ =>
    refine ⟨.char c, Or.inl rfl, ?_⟩
    rw [List.singleton_append, pieces?]
    · rfl
    all_goals
      intros
      simp_all

/-- The characters of a written text are those of the text. -/
theorem joinPieces?_escape (cs : List Char) : (pieces? (cs.flatMap escapeChar)).bind joinPieces? = some cs := by
  induction cs with
  | nil => rfl
  | cons c cs ih =>
    obtain ⟨piece, kind, read⟩ := exists_piece (isWritten_escapeChar c) (cs.flatMap escapeChar)
    obtain ⟨pieces, others, joined⟩ := Option.bind_eq_some_iff.mp ih
    rw [List.flatMap_cons, read, others]
    change joinPieces? (piece :: pieces) = some (c :: cs)
    rcases kind with rfl | ⟨low, rfl⟩
    · rw [joinPieces?, joined, Option.map_some]
    · have leading : isLeading c.toNat = false := by
        rw [isLeading, Bool.and_eq_false_imp, decide_eq_true_eq]
        omega
      have trailing : isTrailing c.toNat = false := by
        rw [isTrailing, Bool.and_eq_false_imp, decide_eq_true_eq]
        omega
      have first : joinPieces? (.unit c.toNat :: pieces) = (joinPieces? pieces).map (Char.ofNat c.toNat :: ·) := by
        rw [joinPieces?.eq_def]
        simp only [leading, trailing, Bool.false_eq_true, if_false]
      rw [first, joined, Char.ofNat_toNat, Option.map_some]

/-- Every text is read back. -/
theorem unescape?_escape (s : String) : unescape? (escape s) = some s := by
  obtain ⟨pieces, read, joined⟩ := Option.bind_eq_some_iff.mp (joinPieces?_escape s.toList)
  rw [unescape?, escape, Text.ofUtf8?_utf8, Option.bind_eq_bind, Option.bind_some, String.toList_ofList, read]
  simp only [Option.bind_eq_bind, Option.bind_some, joined, String.ofList_toList]

/-! ## Finding the closing quote -/

/-- Bytes that mean nothing but themselves are passed over. -/
theorem scanString_plain {bs : Bytes} (plain : ∀ b ∈ bs, 0x20 ≤ b ∧ b ≠ 0x22 ∧ b ≠ 0x5C) (rest : Bytes) :
    scanString (bs ++ rest) = (scanString rest).map fun (written, rest) => (bs ++ written, rest) := by
  induction bs with
  | nil => simp
  | cons b bs ih =>
    obtain ⟨high, quote, backslash⟩ := plain b List.mem_cons_self
    have others := ih fun b among => plain b (List.mem_cons_of_mem _ among)
    have first : scanString (b :: (bs ++ rest)) =
        (scanString (bs ++ rest)).map fun (written, rest) => (b :: written, rest) := by
      rw [scanString]
      · exact if_neg fun h => h.elim (UInt8.not_lt.mpr high) backslash
      · exact quote
      · exact fun _ _ _ _ _ same _ => backslash same
      · exact fun _ _ same _ => backslash same
    rw [List.cons_append, first, others, Option.map_map]
    rfl

/-- The code of a control character is two hexadecimal digits. -/
theorem exists_bytes_control {c : Char} (low : c.toNat < 0x20) :
    ∃ x y, (Text.Hex.digits (byteOf c)).flatMap String.utf8EncodeChar = [x, y] ∧
      (Text.Hex.value? x).isSome = true ∧ (Text.Hex.value? y).isSome = true := by
  have each : ∀ n : Fin 32, ((Text.Hex.digits (UInt8.ofNat n)).flatMap String.utf8EncodeChar).length = 2 ∧
      ∀ b ∈ (Text.Hex.digits (UInt8.ofNat n)).flatMap String.utf8EncodeChar, (Text.Hex.value? b).isSome = true := by
    decide +kernel
  match digits : (Text.Hex.digits (byteOf c)).flatMap String.utf8EncodeChar, each ⟨c.toNat, low⟩ with
  | [x, y], ⟨_, hexadecimal⟩ => exact ⟨x, y, rfl, hexadecimal x (by simp), hexadecimal y (by simp)⟩

/-- A written character is passed over. -/
theorem scanString_of_isWritten {c : Char} {written : List Char} (h : IsWritten c written) (rest : Bytes) :
    scanString (written.flatMap String.utf8EncodeChar ++ rest) =
      (scanString rest).map fun (more, rest) => (written.flatMap String.utf8EncodeChar ++ more, rest) := by
  cases h with
  | @short name listed other =>
    simp only [shortEscapes, List.mem_cons, Prod.mk.injEq, List.not_mem_nil, or_false] at listed
    rcases listed with ⟨rfl, rfl⟩ | ⟨rfl, rfl⟩ | ⟨rfl, rfl⟩ | ⟨rfl, rfl⟩ | ⟨rfl, rfl⟩ | ⟨rfl, rfl⟩ | ⟨rfl, rfl⟩ | ⟨rfl, rfl⟩
    all_goals rfl
  | control low =>
    obtain ⟨x, y, digits, hex, hex'⟩ := exists_bytes_control low
    have written : (['\\', 'u', '0', '0'] ++ Text.Hex.digits (byteOf c)).flatMap String.utf8EncodeChar =
        [0x5C, 0x75, 0x30, 0x30, x, y] := by
      rw [List.flatMap_append, digits]
      rfl
    have hexadecimal : [0x30, 0x30, x, y].all (fun digit => (Text.Hex.value? digit).isSome) = true := by
      simp only [List.all_cons, hex, hex', List.all_nil, Bool.and_true]
      decide
    rw [written]
    simp only [List.cons_append, List.nil_append, scanString, hexadecimal, if_true]
  | plain quote backslash high =>
    refine scanString_plain (fun b among => ?_) rest
    rw [List.flatMap_singleton] at among
    by_cases ascii : c.toNat < 128
    · rw [Text.utf8EncodeChar_of_ascii ascii, List.mem_singleton] at among
      subst among
      have number : (UInt8.ofNat c.toNat).toNat = c.toNat := UInt8.toNat_ofNat_of_lt' (Nat.lt_trans ascii (by decide))
      refine ⟨UInt8.le_iff_toNat_le.mpr (by rw [number]; exact high), fun same => quote ?_, fun same => backslash ?_⟩
      · rw [← UInt8.toNat_inj, number] at same
        exact Char.toNat_inj.mp same
      · rw [← UInt8.toNat_inj, number] at same
        exact Char.toNat_inj.mp same
    · have high := Text.le_of_mem_utf8EncodeChar (Nat.le_of_not_lt ascii) among
      refine ⟨UInt8.le_iff_toNat_le.mpr (Nat.le_trans (by decide) high), ?_, ?_⟩
      · rintro rfl
        exact absurd high (by decide)
      · rintro rfl
        exact absurd high (by decide)

/-- A written text ends at the next quote. -/
theorem scanString_escape (s : String) (rest : Bytes) : scanString (escape s ++ byteOf '"' :: rest) = some (escape s, rest) := by
  have each : ∀ cs : List Char, scanString ((cs.flatMap escapeChar).flatMap String.utf8EncodeChar ++ byteOf '"' :: rest) =
      some ((cs.flatMap escapeChar).flatMap String.utf8EncodeChar, rest) := by
    intro cs
    induction cs with
    | nil => rfl
    | cons c cs ih =>
      rw [List.flatMap_cons, List.flatMap_append, List.append_assoc, scanString_of_isWritten (isWritten_escapeChar c), ih,
        Option.map_some]
  rw [escape, Text.utf8_ofList]
  exact each s.toList

end TokenGate.Json
