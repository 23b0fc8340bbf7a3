import Concordance.Layout.Header
import Concordance.Path
import Concordance.Posting.Codec
import Concordance.Record
import Concordance.Segment

/-!
# Indexes

An index that was opened for reading.

Opening looks at the header and at nothing else. Whatever is wrong with an entry
shows when that entry is asked for.

## Main definitions

* `Index`: A blob and its five tables.
* `Index.open?`: Any bytes as an index.
* `Index.storedWord`, `document`, `directory`, `nameId`, `isStopWord`: Lookups.
* `Index.stats`: The sizes of the segments.
-/

namespace Concordance

/-- An index that was opened for reading. -/
structure Index where
  blob : Blob
  tables : Sections OffsetTable

/-- The size of an index and of its segments. -/
structure Stats where
  bytes : Nat
  words : Nat
  stopWords : Nat
  directories : Nat
  files : Nat
  metaNames : Nat
deriving DecidableEq, Repr

namespace Index

/-- Opens the bytes of an index. -/
def open? (blob : Blob) : Except Error Index :=
  (readTables blob).map fun tables => ⟨blob, tables⟩

/-- One of the five segments. -/
def segment (index : Index) (kind : SegmentName) : Segment :=
  ⟨index.blob, index.tables.get kind⟩

/-- The words. -/
def words (index : Index) : Segment :=
  index.segment .words

/-- The number of documents; their ids are the numbers below it. -/
def numDocuments (index : Index) : Nat :=
  (index.segment .files).size

/-- The record of a document. -/
def document (index : Index) (id : UInt32) : Except Error Record :=
  (index.segment .files).get id.toNat >>= Record.decode

/-- The path of a directory. -/
def directory (index : Index) (id : UInt32) : Except Error String :=
  (index.segment .directories).get id.toNat >>= decodeText

/-- The path of a document: its directory, and its name behind it. -/
def pathOf (index : Index) (record : Record) : Except Error String :=
  (index.directory record.directory).map fun directory => Path.join directory record.name

/-- Word entry `i`. -/
def storedWord (index : Index) (i : Nat) : Except Error StoredWord :=
  index.words.get i >>= StoredWord.parse

/-- The place of a word among the words. -/
def placeOf (index : Index) (word : String) : Except Error (Option Nat) :=
  index.words.find (Utf8.bytes word)

/-- The places of the words that begin with `lead`. -/
def wordsWithPrefix (index : Index) (lead : String) : Except Error (Nat × Nat) :=
  index.words.leadRange (Utf8.bytes lead)

/-- Is the word one of the stop words? -/
def isStopWord (index : Index) (word : String) : Except Error Bool :=
  ((index.segment .stopWords).find (Utf8.bytes word)).map Option.isSome

/-- The id of a meta name, if any document used it. -/
def nameId (index : Index) (name : String) : Except Error (Option UInt32) := do
  let segment := index.segment .metaNames
  match ← segment.find (Utf8.bytes name) with
  | none => .ok none
  | some i =>
    let entry ← segment.get i
    let (_, id) ← MetaName.decode entry
    .ok (some id)

/-- The sizes of the segments. -/
def stats (index : Index) : Stats where
  bytes := index.blob.size
  words := index.tables.words.count
  stopWords := index.tables.stopWords.count
  directories := index.tables.directories.count
  files := index.tables.files.count
  metaNames := index.tables.metaNames.count

end Index

end Concordance
