import Concordance.Text.Fold

/-!
# Words

Cutting text into words, and deciding which of them are worth an entry.

Folded text is cut at everything that is not a word character. Each piece is a
candidate and takes up one position in its document, whether or not it ends up
in the index, so that distances between words are those of the text as written.

A candidate is then prepared, by folding and by trimming punctuation off its
ends, and checked. The same two steps serve the one who builds an index and the
one who asks it, and so both agree on what a word is.

## Main definitions

* `isWordChar`: The characters a word is made of.
* `candidates`: The pieces of a folded text.
* `prepare`: The index form of a piece.
* `Sizes`: How short and how long a word may be.
* `check`: Why a prepared word is not indexed, if it is not.
-/

namespace Concordance

namespace Word

/-- Letters, digits, and the punctuation that occurs inside words. -/
def isWordChar (c : Char) : Bool :=
  c.isAlphanum || c = '&' || c = '\'' || c = '-' || c = '_'

/-- The pieces between the characters that cut a text, empty ones among them.
    There is always one piece more than there are cuts. -/
def pieces : List Char → List (List Char)
  | [] => [[]]
  | c :: cs =>
    if isWordChar c then
      match pieces cs with
      | piece :: rest => (c :: piece) :: rest
      | [] => [[c]]
    else [] :: pieces cs

/-- The candidate words of folded characters, in order. -/
def candidateChars (folded : List Char) : List (List Char) :=
  (pieces folded).filter fun piece => !piece.isEmpty

/-- The candidate words of a folded text, in order. -/
def candidates (folded : String) : List String :=
  (candidateChars folded.toList).map String.ofList

/-- Without the punctuation at both ends, so that a quoted word is the word. -/
def trimChars (cs : List Char) : List Char :=
  ((cs.dropWhile fun c => !c.isAlphanum).reverse.dropWhile fun c => !c.isAlphanum).reverse

/-- The index form of one piece. -/
def prepareChars (raw : List Char) : List Char :=
  trimChars (Text.foldChars raw)

/-- The index form of one piece. -/
def prepare (raw : String) : String :=
  String.ofList (prepareChars raw.toList)

/-- How short and how long a word may be, in characters. -/
structure Sizes where
  smallest : Nat := 2
  largest : Nat := 25
deriving DecidableEq, Repr

/-- Can a word of these sizes exist, and is it more than nothing? -/
def Sizes.isRange (sizes : Sizes) : Bool :=
  sizes.smallest ≠ 0 && sizes.smallest ≤ sizes.largest

/-- Why a word is not indexed. -/
inductive Rejection where
  | tooShort
  | tooLong
  | foreignCharacter
  | letterless
deriving DecidableEq, Repr

/-- The first thing that is wrong with a prepared word, if anything is. -/
def checkChars (sizes : Sizes) (word : List Char) : Option Rejection :=
  if word.length < sizes.smallest then some .tooShort
  else if word.length > sizes.largest then some .tooLong
  else if !word.all isWordChar then some .foreignCharacter
  else if !word.any Char.isAlpha then some .letterless
  else none

/-- The first thing that is wrong with a prepared word, if anything is. -/
def check (sizes : Sizes) (word : String) : Option Rejection :=
  checkChars sizes word.toList

end Word

end Concordance
