/-!
# Ranges of characters

A property of characters can be told by the ranges of code points that have it.
-/

namespace TokenGate.Text

/-- Ranges of code points by their first and last one, in ascending order. -/
abbrev Ranges := List (Nat × Nat)

namespace Ranges

/-- Whether a code point is in one of the ranges. Those after it need no look. -/
def contains : Ranges → Nat → Bool
  | [], _ => false
  | (first, last) :: rest, n => first ≤ n && (n ≤ last || contains rest n)

end Ranges

end TokenGate.Text
