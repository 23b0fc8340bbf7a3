import Concordance.Disk.Tree
import Concordance.StopWords

/-!
# Where Stop Words Come From

The stop words that an index starts out with, as they are asked for.

A word list in a file has to be text from its first byte to its last: half a
list would silently index the other half.

## Main definitions

* `StopWords.Source`: Where to take stop words from.
* `StopWords.Source.load`: The stop words.
-/

namespace Concordance

namespace StopWords

/-- Where to take stop words from. -/
inductive Source where
  | builtin
  | nowhere
  | words (list : List String)
  /-- A word list in a file. -/
  | file (path : String)
deriving DecidableEq, Repr

/-- The word list in a file. -/
def ofFile (disk : Disk) (path : String) : Except Error StopWords :=
  match disk.read path with
  | .error cause => .error (.cannotOpen path cause)
  | .ok content =>
    match Utf8.decode content with
    | .error _ => .error (.cannotOpen path .notText)
    | .ok text => .ok (parse text)

/-- The stop words of a source. -/
def Source.load (disk : Disk) : Source → Except Error StopWords
  | .builtin => .ok StopWords.builtin
  | .nowhere => .ok StopWords.empty
  | .words list => .ok (ofList list)
  | .file path => ofFile disk path

end StopWords

end Concordance
