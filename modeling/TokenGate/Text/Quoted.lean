import TokenGate.Text.Blank
import TokenGate.Text.Mark
import TokenGate.Text.Unseen

/-!
# Quoted text

Descriptions show text between quotes. Quotes, backslashes and characters that cannot be made out are
escaped, the latter by their code point in hexadecimal.
-/

namespace TokenGate.Text.Quoted

/-- Whether a character cannot be made out when it stands by itself. -/
def isHidden (c : Char) : Bool := isUnseen c || isMark c

/-- The hexadecimal digits of a number, without leading zeros. -/
def hexDigits (n : Nat) : List Char :=
  Nat.toDigits 16 n

/-- A character as it stands between two `quote`s. -/
def escape (quote : Char) (c : Char) : List Char :=
  if c = quote ∨ c = '\\' then ['\\', c]
  else if c = '\n' then ['\\', 'n']
  else if c = '\r' then ['\\', 'r']
  else if c = '\t' then ['\\', 't']
  else if c.toNat = 0 then ['\\', '0']
  else if isHidden c then "\\u\x7b".toList ++ hexDigits c.toNat ++ ['}']
  else [c]

/-- The single quote. -/
def apostrophe : Char := Char.ofNat 39

/-- A character between single quotes. -/
def char (c : Char) : String :=
  String.ofList (apostrophe :: escape apostrophe c ++ [apostrophe])

/-- A text between double quotes. -/
def string (s : String) : String :=
  String.ofList ('"' :: s.toList.flatMap (escape '"') ++ ['"'])

end TokenGate.Text.Quoted
