import Concordance.Error
import Concordance.SpreadLimit
import Concordance.Word

/-!
# Indexing Options

What can be chosen about building an index.

## Main definitions

* `IndexingOptions`: The choices, with the common ones as defaults.
* `IndexingOptions.validate`: The first choice that makes no sense.
-/

namespace Concordance

/-- Sizes and a percentage that make no sense, the percentage first. Both who
    builds an index and who asks it make these choices. -/
def validateLimits (spread : SpreadLimit) (sizes : Word.Sizes) : Except Error Unit :=
  if 100 < spread.maxPercent then .error (.invalid (.percentage spread.maxPercent))
  else if !sizes.isRange then .error (.invalid (.wordSizes sizes.smallest sizes.largest))
  else .ok ()

/-- What can be chosen about building an index. -/
structure IndexingOptions where
  /-- So many words are held in memory before they are written out. -/
  runSize : Nat := 250000
  spread : SpreadLimit := {}
  sizes : Word.Sizes := {}
  /-- Where words are written out to; a place of the system's choice if none. -/
  scratch : Option String := none
deriving DecidableEq, Repr

/-- The first choice that makes no sense. -/
def IndexingOptions.validate (options : IndexingOptions) : Except Error Unit :=
  if options.runSize = 0 then .error (.invalid .noThreshold)
  else validateLimits options.spread options.sizes

end Concordance
