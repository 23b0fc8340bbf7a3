/-!
# Spread Limits

When a word is in too many documents to be worth an entry.

The limit is applied twice. When an index is built, words beyond it become stop
words. When a query is answered, words beyond its own limit are passed over and
reported. A percentage of one hundred is no limit.

## Main definitions

* `SpreadLimit`: A number of documents and a percentage.
* `SpreadLimit.exceededBy`: Is a word in too many documents?
-/

namespace Concordance

/-- Over how many documents a word may be spread. -/
structure SpreadLimit where
  maxDocuments : Nat := UInt64.size - 1
  maxPercent : Nat := 100
deriving DecidableEq, Repr

/-- Is a word that is in `documents` of `total` documents in too many? -/
def SpreadLimit.exceededBy (limit : SpreadLimit) (documents total : Nat) : Bool :=
  limit.maxDocuments < documents ||
    (limit.maxPercent < 100 && limit.maxPercent * total < 100 * documents)

end Concordance
