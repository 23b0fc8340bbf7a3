import Concordance.Text.Case
import Concordance.Text.CombiningClass
import Concordance.Text.Decomposition

/-!
# Folding

Bringing text into the form in which words are compared: without diacritics and
in lower case, so that a reader finds `Café` by asking for `cafe`.

A character is taken apart first, because only then is its diacritic a
character of its own that can be dropped. Lower-casing comes last: it looks at
neighbours, and a diacritic between two letters would stand in its way.

## Main definitions

* `isDiacritic`: A mark that folding drops.
* `foldChars`, `fold`: The folded form of a text.
-/

namespace Concordance

namespace Text

/-- The blocks of combining marks that folding drops. Marks outside them belong
    to scripts in which they are more than an ornament. -/
def diacriticRanges : Ranges :=
  [(0x300, 0x36F), (0x1AB0, 0x1AFF), (0x1DC0, 0x1DFF), (0x20D0, 0x20FF), (0xFE20, 0xFE2F)]

/-- Is the character a mark that folding drops? -/
def isDiacritic (c : Char) : Bool :=
  diacriticRanges.contains c

/-- The folded form of a sequence of characters. -/
def foldChars (cs : List Char) : List Char :=
  lowercase ((arrange (cs.flatMap decompose)).filter fun c => !isDiacritic c)

/-- The folded form of a text. -/
def fold (text : String) : String :=
  String.ofList (foldChars text.toList)

end Text

end Concordance
