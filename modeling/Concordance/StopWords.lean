import Concordance.StopWords.English
import Concordance.Text.Blank
import Concordance.Text.Fold
import Concordance.Utf8

/-!
# Stop Words

The words that are never indexed.

A set of stop words starts from the built-in English list, from a list that
someone wrote down, or empty. It grows while an index is built, by the words
that turn out to be in too many documents, and is then stored with the index so
that a query can say which of its words took no part.

The words are kept in the order in which they came. Their stored order is the
order of their bytes, which is what a search by halving needs.

## Main definitions

* `StopWords`: The set, a list without repetition.
* `StopWords.ofList`, `StopWords.parse`: From words, and from a word list.
* `StopWords.contains`, `StopWords.insert`: Asking and adding.
* `StopWords.sorted`: The words in stored order.
-/

namespace Concordance

/-- Words that are never indexed. -/
structure StopWords where
  words : List String := []
deriving DecidableEq, Repr

namespace StopWords

/-- Is the word, taken as it is, in the set? -/
def contains (stops : StopWords) (word : String) : Bool :=
  stops.words.contains word

/-- The set with a word added, as it is. -/
def insert (stops : StopWords) (word : String) : StopWords :=
  if stops.contains word then stops else ⟨stops.words ++ [word]⟩

/-- The set with several words added, from the left. -/
def insertAll (stops : StopWords) (words : List String) : StopWords :=
  words.foldl insert stops

/-- No stop words. -/
def empty : StopWords :=
  {}

/-- The folded forms of some words. -/
def ofList (words : List String) : StopWords :=
  empty.insertAll (words.map Text.fold)

/-- The lines of a text, without the newlines between them. -/
def lines : List Char → List (List Char)
  | [] => [[]]
  | c :: cs =>
    if c = '\n' then [] :: lines cs
    else
      match lines cs with
      | line :: rest => (c :: line) :: rest
      | [] => [[c]]

/-- The words of a word list: one to a line, blanks around it dropped, empty
    lines and comments passed over. -/
def parse (text : String) : StopWords :=
  ofList (((lines text.toList).map Text.trimBlanks).filterMap fun line =>
    match line with
    | [] => none
    | '#' :: _ => none
    | word => some (String.ofList word))

/-- The common words of English. -/
def builtin : StopWords :=
  ofList english

/-- Does one word come before another in stored order, or equal it? -/
def storedBefore (a b : String) : Bool :=
  decide (Utf8.bytes a ≤ Utf8.bytes b)

/-- The words in stored order. -/
def sorted (stops : StopWords) : List String :=
  stops.words.mergeSort storedBefore

end StopWords

end Concordance
