/-!
# Ranks

How well a document answers.

The rank of a posting grows with the logarithm of the occurrences in the
document. It shrinks with the occurrences everywhere, because a common word says
little, and with the length of the document. It is computed once, when all
occurrences of a word are known, and is at least one.

The scores of an answer are compared with the best of them and brought into the
range from one to a hundred.

## Main definitions

* `ofPosting`: The rank of one word in one document.
* `relative`: A score on the scale of the best one.
-/

namespace Concordance

namespace Rank

/-- Spreads ranks well for documents of common size. -/
def scale : Float := 1000000.0

/-- The score of a document that a `not` lets through. -/
def absence : Nat := 100

/-- The rank of a word that occurs `occurrences` times in a document of `words`
    words and `total` times everywhere. -/
def ofPosting (occurrences : UInt32) (total : UInt64) (words : UInt32) : UInt32 :=
  if occurrences = 0 ∨ total = 0 then 1
  else
    let rank := (occurrences.toFloat.log + 10.0) * (scale / total.toFloat)
      / (max words 1).toFloat
    if rank ≥ (0xFFFFFFFF : UInt32).toFloat then 0xFFFFFFFF else max rank.floor.toUInt32 1

/-- A score on the scale of the best one, from one to a hundred. The quotient is
    cut to 32 bits, which is more than a score up to the best one needs. -/
def relative (score top : Nat) : Nat :=
  if top = 0 then 1 else max 1 (min 100 (score * 100 / top % UInt32.size))

end Rank

end Concordance
