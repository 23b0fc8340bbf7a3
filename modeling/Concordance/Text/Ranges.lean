/-!
# Ranges of Characters

A class of characters as a list of ranges of code points.

## Main definitions

* `Ranges`: First and last code point of each range.
* `Ranges.contains`: Is a character in one of them?
-/

namespace Concordance

namespace Text

/-- First and last code point of each range, in ascending order. -/
abbrev Ranges := List (Nat × Nat)

/-- Is the character in one of the ranges? -/
def Ranges.contains (ranges : Ranges) (c : Char) : Bool :=
  ranges.any fun (first, last) => first ≤ c.toNat && c.toNat ≤ last

end Text

end Concordance
