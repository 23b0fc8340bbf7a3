import Concordance.Layout.OffsetTable
import Concordance.Total

/-!
# Index Headers

The five segments of an index, and the tables at its front.

An index begins with five offset tables in a fixed order, one for each segment,
and the entries follow in the same order. The size of the header depends only
on the numbers of entries. So a writer that knows these numbers can leave room
for the header, put down the entries, and fill in their places afterwards.

## Main definitions

* `SegmentName`: The five segments.
* `Sections`: Something for each segment.
* `readTables`: The five tables of an index.
* `Header`: A header that is being filled in.
-/

namespace Concordance

/-- The segments of an index, in the order in which they are stored. -/
inductive SegmentName where
  | words
  | stopWords
  | directories
  | files
  | metaNames
deriving DecidableEq, Repr

namespace SegmentName

/-- All segments, in stored order. -/
def all : List SegmentName :=
  [.words, .stopWords, .directories, .files, .metaNames]

/-- How a segment is called in messages. -/
def spelling : SegmentName → String
  | .words => "words"
  | .stopWords => "stop words"
  | .directories => "directories"
  | .files => "files"
  | .metaNames => "meta names"

end SegmentName

/-- Something for each segment. -/
structure Sections (α : Type) where
  words : α
  stopWords : α
  directories : α
  files : α
  metaNames : α
deriving DecidableEq, Repr

namespace Sections

variable {α β : Type}

/-- What there is for one segment. -/
def get (sections : Sections α) : SegmentName → α
  | .words => sections.words
  | .stopWords => sections.stopWords
  | .directories => sections.directories
  | .files => sections.files
  | .metaNames => sections.metaNames

/-- Changes what there is for one segment. -/
def modify (sections : Sections α) (kind : SegmentName) (f : α → α) : Sections α :=
  match kind with
  | .words => { sections with words := f sections.words }
  | .stopWords => { sections with stopWords := f sections.stopWords }
  | .directories => { sections with directories := f sections.directories }
  | .files => { sections with files := f sections.files }
  | .metaNames => { sections with metaNames := f sections.metaNames }

/-- Something else for each segment. -/
def map (f : α → β) (sections : Sections α) : Sections β :=
  ⟨f sections.words, f sections.stopWords, f sections.directories, f sections.files,
    f sections.metaNames⟩

/-- What there is for the segments, in stored order. -/
def toList (sections : Sections α) : List α :=
  [sections.words, sections.stopWords, sections.directories, sections.files, sections.metaNames]

end Sections

/-- The five tables at the front of an index, each where the one before ends. -/
def readTables (blob : Blob) : Except Error (Sections OffsetTable) := do
  let (words, next) ← OffsetTable.parse blob 0
  let (stopWords, next) ← OffsetTable.parse blob next
  let (directories, next) ← OffsetTable.parse blob next
  let (files, next) ← OffsetTable.parse blob next
  let (metaNames, _) ← OffsetTable.parse blob next
  .ok ⟨words, stopWords, directories, files, metaNames⟩

/-- A header that is being filled in: the places of the entries of each segment,
    zero where the place is not known yet. -/
structure Header where
  offsets : Sections (List Nat)
deriving DecidableEq, Repr

namespace Header

/-- A header with room for so many entries. -/
def blank (counts : Sections Nat) : Header :=
  ⟨counts.map fun count => List.replicate count 0⟩

/-- The number of entries that a segment has room for. -/
def count (header : Header) (kind : SegmentName) : Nat :=
  (header.offsets.get kind).length

/-- Fills in the place of one entry. -/
def fill (header : Header) (kind : SegmentName) (i offset : Nat) : Header :=
  ⟨header.offsets.modify kind fun offsets => offsets.set i offset⟩

/-- The size of the header. -/
def byteLength (header : Header) : Nat :=
  total (fun offsets => OffsetTable.byteLength offsets.length) header.offsets.toList

/-- The bytes of the header. -/
def encode (header : Header) : Bytes :=
  header.offsets.toList.flatMap OffsetTable.encode

end Header

end Concordance
