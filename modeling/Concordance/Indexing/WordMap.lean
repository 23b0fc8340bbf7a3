import Concordance.Posting.Codec
import Concordance.Segment

/-!
# Word Maps

The words of the documents read last, on their way into an index.

A map holds the bytes of each word with the word's postings, words by ascending
bytes and postings by ascending document. Documents are read one after the
other, so the document being read is always the last of any word's postings.

A map that is written out is a run: one offset table and the entries behind it.
The ranks in a run are zero, because a rank needs all occurrences of a word and
a run may hold only a part of them.

## Main definitions

* `WordMap.record`: One more occurrence of a word.
* `WordMap.encode`: The bytes of a run.
* `Run.segment`: A run that is read back.
-/

namespace Concordance

/-- Words and their postings, by ascending bytes of the words. -/
abbrev WordMap := List (Bytes × List Posting)

namespace WordMap

/-- One more occurrence in a document. -/
def note (position : UInt32) (metaId : Option UInt32) (posting : Posting) : Posting :=
  { posting with
    occurrences := addCounts posting.occurrences 1
    metaIds :=
      match metaId with
      | none => posting.metaIds
      | some id => IdSet.insert id posting.metaIds
    positions := posting.positions ++ [position] }

/-- One more occurrence of a word in the document being read. -/
def noteIn (document position : UInt32) (metaId : Option UInt32) : List Posting → List Posting
  | [] => [note position metaId { document }]
  | [posting] =>
    if posting.document = document then [note position metaId posting]
    else [posting, note position metaId { document }]
  | posting :: next :: rest => posting :: noteIn document position metaId (next :: rest)

/-- One more occurrence of a word, given by its bytes, in the document being
    read. -/
def record (key : Bytes) (document position : UInt32) (metaId : Option UInt32) :
    WordMap → WordMap
  | [] => [(key, noteIn document position metaId [])]
  | (other, postings) :: rest =>
    if key = other then (other, noteIn document position metaId postings) :: rest
    else if key < other then
      (key, noteIn document position metaId []) :: (other, postings) :: rest
    else (other, postings) :: record key document position metaId rest

/-- Where entries lie that follow each other from `start` on. -/
def offsetsFrom (start : Nat) : List Bytes → List Nat
  | [] => []
  | entry :: rest => start :: offsetsFrom (start + entry.length) rest

/-- The entries of a map, as they are stored. -/
def entries (words : WordMap) : List Bytes :=
  words.map fun (key, postings) => key ++ 0 :: StoredWord.encodePostings postings

/-- The bytes of a run. -/
def encode (words : WordMap) : Bytes :=
  OffsetTable.encode (offsetsFrom (OffsetTable.byteLength words.length) (entries words))
    ++ (entries words).flatten

end WordMap

namespace Run

/-- A run that is read back. -/
def segment (run : Bytes) : Except Error Segment :=
  let blob : Blob := run.toArray
  (OffsetTable.parse blob 0).map fun (table, _) => ⟨blob, table⟩

end Run

end Concordance
