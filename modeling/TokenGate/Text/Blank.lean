/-!
# White space

The characters with the Unicode property `White_Space`, and the words that they separate.
-/

namespace TokenGate.Text

/-- Whether a character has the Unicode property `White_Space`. -/
def isBlank (c : Char) : Bool :=
  let n := c.toNat
  (9 ≤ n && n ≤ 13) || n == 0x20 || n == 0x85 || n == 0xA0 || n == 0x1680
    || (0x2000 ≤ n && n ≤ 0x200A) || n == 0x2028 || n == 0x2029 || n == 0x202F || n == 0x205F
    || n == 0x3000

/-- The words among some characters, `word` being the beginning of the first one in reverse. -/
def wordsFrom (word : List Char) : List Char → List (List Char)
  | [] => if word.isEmpty then [] else [word.reverse]
  | c :: rest =>
    if isBlank c then
      if word.isEmpty then wordsFrom [] rest else word.reverse :: wordsFrom [] rest
    else wordsFrom (c :: word) rest

/-- The words of a text: its longest pieces without white space. -/
def words (s : String) : List String :=
  (wordsFrom [] s.toList).map String.ofList

/-- Whether a text neither begins nor ends with white space. -/
def isTrimmed (s : String) : Bool :=
  !(s.toList.head?.any isBlank) && !(s.toList.getLast?.any isBlank)

end TokenGate.Text
