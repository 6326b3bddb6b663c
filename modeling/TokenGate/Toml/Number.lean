import TokenGate.Text.Hex
import TokenGate.Toml.Basic
import TokenGate.Toml.Line

/-!
# Numbers in TOML

Integers in four bases, and numbers with a fraction or an exponent. No setting takes one of the
latter, so only its extent is told; but one that is too large for 64 bits makes a document invalid.
-/

namespace TokenGate.Toml

/-- Digits up to anything else. Between two digits there may be an underscore. -/
def readDigits (isDigit : Char → Bool) : List Char → List Char × List Char
  | '_' :: d :: rest =>
    if isDigit d then
      let (digits, rest) := readDigits isDigit rest
      (d :: digits, rest)
    else ([], '_' :: d :: rest)
  | d :: rest =>
    if isDigit d then
      let (digits, rest) := readDigits isDigit rest
      (d :: digits, rest)
    else ([], d :: rest)
  | [] => ([], [])

/-- The value of a digit below a base. -/
def digitValue? (base : Nat) (c : Char) : Option Nat :=
  if c.toNat < 0x80 then
    ((Text.Hex.value? (UInt8.ofNat c.toNat)).map UInt8.toNat).filter (· < base)
  else none

/-- The number that digits of a base stand for. -/
def valueOf (base : Nat) (digits : List Char) : Nat :=
  digits.foldl (fun n c => n * base + (digitValue? base c).getD 0) 0

/-- A number in a base, the first character of which is a digit. -/
def readNatural (base : Nat) (cs : List Char) : Option (Nat × List Char) :=
  let isDigit (c : Char) : Bool := (digitValue? base c).isSome
  if cs.head?.any isDigit then
    let (digits, rest) := readDigits isDigit cs
    some (valueOf base digits, rest)
  else none

/-- A decimal number, which begins with a zero only if it is one. -/
def readDecimal : Reader Nat
  | '0' :: rest => some (0, rest)
  | cs => readNatural 10 cs

/-- The integer with a value, if it has 64 bits. -/
def integerOf? (n : Int) : Option Toml :=
  if -0x8000000000000000 ≤ n ∧ n < 0x8000000000000000 then some (.integer (Int64.ofInt n)) else none

/-- An integer: decimal with an optional sign, or in another base without one. -/
def readInteger : Reader Toml
  | '0' :: 'x' :: cs => do
    let (n, rest) ← readNatural 16 cs
    some (← integerOf? n, rest)
  | '0' :: 'o' :: cs => do
    let (n, rest) ← readNatural 8 cs
    some (← integerOf? n, rest)
  | '0' :: 'b' :: cs => do
    let (n, rest) ← readNatural 2 cs
    some (← integerOf? n, rest)
  | '-' :: cs => do
    let (n, rest) ← readDecimal cs
    some (← integerOf? (-n), rest)
  | '+' :: cs => do
    let (n, rest) ← readDecimal cs
    some (← integerOf? n, rest)
  | cs => do
    let (n, rest) ← readDecimal cs
    some (← integerOf? n, rest)

/-- Some characters without a sign in front. -/
def skipSign : List Char → List Char
  | '+' :: rest | '-' :: rest => rest
  | cs => cs

/-- Decimal digits, of which there is at least one. -/
def readFigures : Reader (List Char) := fun cs =>
  if cs.head?.any Char.isDigit then some (readDigits Char.isDigit cs) else none

/-- An exponent. -/
def readExponent : Reader Int
  | 'e' :: cs | 'E' :: cs => do
    let (n, rest) ← readNatural 10 (skipSign cs)
    some (if cs.head? = some '-' then -n else n, rest)
  | _ => none

/-- The digits of a fraction and an exponent, of which at most one is left out. -/
def readFraction : Reader (List Char × Int)
  | '.' :: cs => do
    let (figures, cs) ← readFigures cs
    match readExponent cs with
    | some (exponent, rest) => some ((figures, exponent), rest)
    | none => some ((figures, 0), cs)
  | cs => do
    let (exponent, rest) ← readExponent cs
    some (([], exponent), rest)

/-- The least number that is too large: half a unit of the last binary place above the largest one
that 64 bits can hold. It has 309 digits. -/
def tooLarge : Nat := Nat.pow 2 970 * (Nat.pow 2 54 - 1)

/-- Whether a number is too large that has the point `whole` places after the beginning of some
digits. The part before the point decides. -/
def isTooLarge (digits : List Char) (whole : Int) : Bool :=
  let significant := digits.dropWhile (· = '0')
  let whole := (whole - (digits.length - significant.length : Nat)).toNat
  significant ≠ []
    && (309 < whole || tooLarge ≤ valueOf 10 ((significant ++ List.replicate whole '0').take whole))

/-- What follows a number that is no integer. Like an integer it begins with a zero only if nothing
else is before the point; and only below zero may it be too large. -/
def afterReal? (cs : List Char) : Option (List Char) :=
  match skipSign cs with
  | 'i' :: 'n' :: 'f' :: rest | 'n' :: 'a' :: 'n' :: rest => some rest
  | unsigned => do
    let (whole, rest) ← readFigures unsigned
    let ((fraction, exponent), rest) ← readFraction rest
    let isPadded := whole.head? = some '0' ∧ whole.length ≠ 1
    let overflows := cs.head? ≠ some '-' ∧ isTooLarge (whole ++ fraction) (whole.length + exponent)
    if isPadded ∨ overflows then none else some rest

end TokenGate.Toml
