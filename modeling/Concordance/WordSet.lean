import Concordance.Utf8

/-!
# Sets of Words

Words by ascending bytes, without repetition.

A query reports the words that took no part in it. They turn up in any order and
more than once; a reader wants them sorted.

## Main definitions

* `WordSet.insert`, `WordSet.union`: Adding words.
-/

namespace Concordance

/-- Words by ascending bytes, without repetition. -/
abbrev WordSet := List String

namespace WordSet

/-- The set with a word added. -/
def insert (word : String) : WordSet → WordSet
  | [] => [word]
  | other :: rest =>
    if word = other then other :: rest
    else if Utf8.bytes word < Utf8.bytes other then word :: other :: rest
    else other :: insert word rest

/-- The words of both sets. -/
def union (set words : WordSet) : WordSet :=
  words.foldl (fun set word => insert word set) set

end WordSet

end Concordance
