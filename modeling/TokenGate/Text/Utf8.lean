import TokenGate.Bytes

/-!
# Text as bytes

Text is Unicode, and its bytes are UTF-8. Reading is exact: what is read writes back to the same
bytes, and every text reads back as itself.
-/

namespace TokenGate.Text

/-- The UTF-8 bytes of a text. -/
def utf8 (s : String) : Bytes :=
  s.toUTF8.data.toList

/-- The text that some bytes spell; nothing if they are not well-formed UTF-8. -/
def ofUtf8? (bs : Bytes) : Option String :=
  String.fromUTF8? ⟨bs.toArray⟩

/-- A text is read back from its bytes. -/
theorem ofUtf8?_utf8 (s : String) : ofUtf8? (utf8 s) = some s := by
  have h : ByteArray.mk (utf8 s).toArray = s.toUTF8 := rfl
  rw [ofUtf8?, h]
  exact dif_pos s.isValidUTF8

/-- The bytes that a text is read from are the ones it is written to. -/
theorem utf8_of_ofUtf8? {bs : Bytes} {s : String} (h : ofUtf8? bs = some s) : utf8 s = bs := by
  simp only [ofUtf8?, String.fromUTF8?] at h
  split at h
  · cases h
    rfl
  · cases h

/-- Different texts have different bytes. -/
theorem utf8_injective {s t : String} (h : utf8 s = utf8 t) : s = t :=
  Option.some.inj ((ofUtf8?_utf8 s).symm.trans ((congrArg ofUtf8? h).trans (ofUtf8?_utf8 t)))

end TokenGate.Text
