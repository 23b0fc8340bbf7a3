import Concordance.Text.Ranges

/-!
# Blanks

The characters that show nothing and only keep others apart, by the property
White_Space of Unicode.

## Main definitions

* `isBlank`: The class.
* `trimBlanks`: A text without the blanks around it.
-/

namespace Concordance

namespace Text

/-- The blank characters. -/
def blankRanges : Ranges :=
  [(0x9, 0xD), (0x20, 0x20), (0x85, 0x85), (0xA0, 0xA0), (0x1680, 0x1680), (0x2000, 0x200A),
   (0x2028, 0x2029), (0x202F, 0x202F), (0x205F, 0x205F), (0x3000, 0x3000)]

/-- Does the character only keep others apart? -/
def isBlank (c : Char) : Bool :=
  blankRanges.contains c

/-- Without the blanks at both ends. -/
def trimBlanks (cs : List Char) : List Char :=
  ((cs.dropWhile isBlank).reverse.dropWhile isBlank).reverse

end Text

end Concordance
