/-!
# Postings

What an index knows about one word in one document.

A word's postings are kept by ascending document. A document's share may arrive
in several parts, because the words in memory are written out whenever they grow
too many, and this can happen in the middle of a document. `extend` puts a later
part behind an earlier one, so that nothing shows where the cut was.

The ids of the meta names that a word occurred under are an ascending list
without repetition, which is the one form of a set of ids.

## Main definitions

* `IdSet.insert`, `IdSet.union`: Ascending lists as sets.
* `Posting`: One word in one document.
* `Posting.extend`: Two parts of one document's share.
* `Posting.passes`: Does the posting pass a query's filter?
-/

namespace Concordance

namespace IdSet

/-- Puts an id into an ascending list, unless it is there. -/
def insert (id : UInt32) : List UInt32 → List UInt32
  | [] => [id]
  | x :: xs =>
    if id < x then id :: x :: xs
    else if id = x then x :: xs
    else x :: insert id xs

/-- Puts several ids into an ascending list. -/
def union (set : List UInt32) (ids : List UInt32) : List UInt32 :=
  ids.foldl (fun set id => insert id set) set

end IdSet

/-- The sum of two counts, or the largest count if that is less. -/
def addCounts (a b : UInt32) : UInt32 :=
  if a.toNat + b.toNat < UInt32.size then a + b else 0xFFFFFFFF

/-- What an index knows about one word in one document. -/
structure Posting where
  document : UInt32
  occurrences : UInt32 := 0
  rank : UInt32 := 0
  /-- The meta names it occurred under, ascending; none for ordinary text. -/
  metaIds : List UInt32 := []
  /-- Where it occurred, counted in words, ascending. -/
  positions : List UInt32 := []
deriving DecidableEq, Repr

namespace Posting

/-- Does the posting pass the filter of a query? No filter lets everything
    pass. -/
def passes (posting : Posting) : Option UInt32 → Bool
  | none => true
  | some id => posting.metaIds.contains id

/-- The posting with a later part of the same document's share put behind. -/
def extend (posting later : Posting) : Posting :=
  { posting with
    occurrences := addCounts posting.occurrences later.occurrences
    metaIds := IdSet.union posting.metaIds later.metaIds
    positions := posting.positions ++ later.positions }

end Posting

end Concordance
