import Concordance.SpreadLimit
import Concordance.Index
import Concordance.Query.Tree
import Concordance.Rank
import Concordance.WordSet

/-!
# Evaluating Queries

From a tree to the documents that match it, with a score for each.

A word's documents are those of its postings that pass its filter, scored by
rank. `and` keeps the documents of all operands and takes the mean of their
scores, `or` keeps those of any operand and takes the sum. `not` keeps every
other document, all with one score. `near` keeps documents in which an occurrence
of one word is close enough to an occurrence of the other; negated, it keeps
documents that have one of the words and no such pair.

Words in too many documents are passed over and reported, as if the index did
not have them.

## Main definitions

* `Scores`: Documents with their scores.
* `anyWithin`: Are two positions close enough?
* `Evaluation.occurrences`: Where a word is.
* `QueryTree.eval`: The documents that match a tree.
-/

namespace Concordance

/-- Documents with something for each, by ascending document. -/
abbrev ByDocument (α : Type) := List (UInt32 × α)

/-- Documents with their scores. -/
abbrev Scores := ByDocument Nat

namespace ByDocument

variable {α : Type}

/-- Changes what there is for a document, beginning with `initial` if there is
    nothing yet. -/
def update (document : UInt32) (initial : α) (f : α → α) : ByDocument α → ByDocument α
  | [] => [(document, f initial)]
  | (other, a) :: rest =>
    if other = document then (other, f a) :: rest
    else if document < other then (document, f initial) :: (other, a) :: rest
    else (other, a) :: update document initial f rest

end ByDocument

namespace Scores

/-- Adds to the score of a document. -/
def add (scores : Scores) (document : UInt32) (score : Nat) : Scores :=
  ByDocument.update document 0 (· + score) scores

/-- The documents of either, with the sum of their scores. -/
def union (scores others : Scores) : Scores :=
  others.foldl (fun scores (document, score) => scores.add document score) scores

/-- The documents of both, with the sum of their scores. -/
def inter (scores others : Scores) : Scores :=
  scores.filterMap fun (document, score) =>
    (List.lookup document others).map fun other => (document, score + other)

/-- Every score divided by a number. -/
def divide (scores : Scores) (n : Nat) : Scores :=
  scores.map fun (document, score) => (document, score / n)

/-- The documents below `count` that have no score, with one score for each. -/
def complement (scores : Scores) (count : Nat) (score : Nat) : Scores :=
  (List.range count).filterMap fun document =>
    match List.lookup (UInt32.ofNat document) scores with
    | some _ => none
    | none => some (UInt32.ofNat document, score)

end Scores

/-- The distance between two positions. -/
def gap (a b : UInt32) : Nat :=
  if a < b then b.toNat - a.toNat else a.toNat - b.toNat

/-- Are a position of the first list and one of the second at most `distance`
    apart? Both lists ascend, so the smaller of two positions that are too far
    apart can be passed over for good. -/
def anyWithin (distance : Nat) : List UInt32 → List UInt32 → Bool
  | [], _ => false
  | _ :: _, [] => false
  | a :: as, b :: bs =>
    -- The other list has nothing nearer to the smaller position than its own first one.
    if gap a b ≤ distance then true
    else if a < b then anyWithin distance as (b :: bs)
    else anyWithin distance (a :: as) bs
termination_by as bs => as.length + bs.length

/-- A word in one document: the sum of its ranks, and its positions. -/
structure Sighting where
  score : Nat := 0
  positions : List UInt32 := []
deriving DecidableEq, Repr

/-- What an evaluation works on. -/
structure Evaluation where
  index : Index
  limit : SpreadLimit := {}
  reach : Nat := 10

namespace Evaluation

/-- Adds a posting to the occurrences in its document. -/
def note (found : ByDocument Sighting) (posting : Posting) : ByDocument Sighting :=
  ByDocument.update posting.document {} (fun occurrences =>
    { score := occurrences.score + posting.rank.toNat
      positions := occurrences.positions ++ posting.positions }) found

/-- Adds the postings of `count` entries from entry `i` on. The words passed
    over as too common are added to `ignored`. -/
def collectFrom (evaluation : Evaluation) (metaId : Option UInt32) :
    (count i : Nat) → ByDocument Sighting → WordSet →
    Except Error (ByDocument Sighting × WordSet)
  | 0, _, found, ignored => .ok (found, ignored)
  | count + 1, i, found, ignored =>
    match evaluation.index.storedWord i with
    | .error e => .error e
    | .ok entry =>
      match entry.postings with
      | .error e => .error e
      | .ok postings =>
        if evaluation.limit.exceededBy postings.length evaluation.index.numDocuments then
          evaluation.collectFrom metaId count (i + 1) found (WordSet.insert entry.word ignored)
        else
          evaluation.collectFrom metaId count (i + 1)
            ((postings.filter fun posting => posting.passes metaId).foldl note found) ignored

/-- The positions of several entries are brought into one order. -/
def sortPositions (occurrences : Sighting) : Sighting :=
  { occurrences with
    positions := occurrences.positions.mergeSort fun a b => decide (a ≤ b) }

/-- Where a word is, document by document. -/
def occurrences (evaluation : Evaluation) (word : WordLeaf) (ignored : WordSet) :
    Except Error (ByDocument Sighting × WordSet) :=
  match evaluation.collectFrom word.metaId (word.stop - word.start) word.start [] ignored with
  | .error e => .error e
  | .ok (found, ignored) =>
    -- One entry has its positions in order. Those of several follow one another.
    if 1 < word.stop - word.start then
      .ok (found.map fun (document, o) => (document, sortPositions o), ignored)
    else .ok (found, ignored)

/-- The documents in which two words are near, or, negated, those that have one
    of them and in which they are never near. -/
def pairScores (distance : Nat) (negated : Bool) (left right : ByDocument Sighting) :
    Scores :=
  let ofLeft := left.filterMap fun (document, a) =>
    match List.lookup document right with
    | some b =>
      if anyWithin distance a.positions b.positions != negated then
        some (document, (a.score + b.score) / 2)
      else none
    | none => if negated then some (document, a.score) else none
  -- A document with both words was decided on the left, so that the right one adds none.
  if negated then
    Scores.union ofLeft (right.filterMap fun (document, b) =>
      match List.lookup document left with
      | some _ => none
      | none => some (document, b.score))
  else ofLeft

/-- The documents that match all of several operands, with the mean score. -/
def meanScores : List Scores → Scores
  | [] => []
  | first :: rest => (rest.foldl Scores.inter first).divide (rest.length + 1)

end Evaluation

namespace QueryTree

mutual

/-- The documents that match a tree, and the words that were passed over added
    to `ignored`. -/
def eval (evaluation : Evaluation) (ignored : WordSet) :
    QueryTree → Except Error (Scores × WordSet)
  | .empty => .ok ([], ignored)
  | .word w =>
    match evaluation.occurrences w ignored with
    | .error e => .error e
    | .ok (found, ignored) => .ok (found.map fun (document, o) => (document, o.score), ignored)
  | .and children =>
    match evalAll evaluation ignored children with
    | .error e => .error e
    | .ok (scores, ignored) => .ok (Evaluation.meanScores scores, ignored)
  | .or children =>
    match evalAll evaluation ignored children with
    | .error e => .error e
    | .ok (scores, ignored) => .ok (scores.foldl Scores.union [], ignored)
  | .not child =>
    match child.eval evaluation ignored with
    | .error e => .error e
    | .ok (scores, ignored) =>
      .ok (Scores.complement scores evaluation.index.numDocuments Rank.absence, ignored)
  | .near negated (.word left) (.word right) =>
    match evaluation.occurrences left ignored with
    | .error e => .error e
    | .ok (ofLeft, ignored) =>
      match evaluation.occurrences right ignored with
      | .error e => .error e
      | .ok (ofRight, ignored) =>
        .ok (Evaluation.pairScores evaluation.reach negated ofLeft ofRight, ignored)
  | .near _ _ _ => .error (.malformed .nearOperands)

/-- The documents that match each of several trees. -/
def evalAll (evaluation : Evaluation) (ignored : WordSet) :
    List QueryTree → Except Error (List Scores × WordSet)
  | [] => .ok ([], ignored)
  | child :: rest =>
    match child.eval evaluation ignored with
    | .error e => .error e
    | .ok (scores, ignored) =>
      match evalAll evaluation ignored rest with
      | .error e => .error e
      | .ok (others, ignored) => .ok (scores :: others, ignored)

end

end QueryTree

end Concordance
