import Concordance.Indexing.Options

/-!
# Search Options

What can be chosen about answering a query.

## Main definitions

* `SearchOptions`: The choices, with the common ones as defaults.
* `SearchOptions.validate`: The first choice that makes no sense.
-/

namespace Concordance

/-- What can be chosen about answering a query. -/
structure SearchOptions where
  spread : SpreadLimit := {}
  /-- Words that are so many positions apart are still near. -/
  reach : Nat := 10
  /-- No more results than this are returned. -/
  pageSize : Option Nat := none
  /-- So many results are passed over first. -/
  pageStart : Nat := 0
  /-- What the index was built with, so that both agree on what a word is. -/
  sizes : Word.Sizes := {}
deriving DecidableEq, Repr

/-- The first choice that makes no sense. -/
def SearchOptions.validate (options : SearchOptions) : Except Error Unit :=
  validateLimits options.spread options.sizes

end Concordance
