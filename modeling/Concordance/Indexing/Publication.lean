import Concordance.Indexing.Merge
import Concordance.Indexing.Session
import Concordance.Rank

/-!
# Publishing an Index

From the end of a session to the file that others open.

The sources are merged twice. The first time nothing is kept of a word but
whether it is in too many documents; those that are become stop words, and the
others are counted. Then every number of entries is known. The writer leaves room
for a header of that size, puts down the entries one after the other, those of the
words as they are merged again, and at the end fills the places in. Each merge
decides for itself which words stay, so it is the writer that sees to it that no
more entries come than there is room for.

Nothing of this happens at the path that was asked for. The bytes go into a new
file beside it, and the finished file is moved there in one step. Whatever goes
wrong before that, the new file is taken away again and the old one is untouched.

## Main definitions

* `Contents`: What goes into an index.
* `Writer`: An index that is being written.
* `PublicationSummary`: What came out.
* `Contents.survey`: The first merge.
* `Contents.encode`: The second merge, and the bytes of an index.
* `Contents.publish`: Writing an index to a path.
* `Session.finish`: The end of a session.
-/

namespace Concordance

/-- What goes into an index, besides stop words. -/
structure Contents where
  sources : List Segment
  files : List Record
  directories : List String
  metaNames : List (String × UInt32)
  limit : SpreadLimit

/-- What came out of a merge. -/
structure PublicationSummary where
  sources : Nat
  words : Nat
  stopWords : Nat
  /-- The words that became stop words. -/
  demoted : List String
deriving DecidableEq, Repr

/-- An index that is being written: the header as far as it is known, the place
    of the next entry, and the entries so far, the last one first. -/
structure Writer where
  header : Header
  position : Nat
  written : List Bytes := []
deriving DecidableEq, Repr

namespace Writer

/-- A writer that has left room for the header. -/
def start (header : Header) : Writer :=
  { header, position := header.byteLength }

/-- Puts down entry `i` of a segment. -/
def push (writer : Writer) (kind : SegmentName) (i : Nat) (entry : Bytes) :
    Except Error Writer :=
  if writer.header.count kind ≤ i then
    .error (.corrupt (.segmentGrew kind.spelling (writer.header.count kind)))
  else
    .ok {
      header := writer.header.fill kind i writer.position
      position := writer.position + entry.length
      written := entry :: writer.written }

/-- Puts down the entries of a segment from entry `i` on. -/
def pushAll (writer : Writer) (kind : SegmentName) (i : Nat) :
    List Bytes → Except Error Writer
  | [] => .ok writer
  | entry :: rest =>
    match writer.push kind i entry with
    | .error e => .error e
    | .ok writer => writer.pushAll kind (i + 1) rest

/-- The bytes of the finished index. -/
def finish (writer : Writer) : Bytes :=
  writer.header.encode ++ writer.written.reverse.flatten

end Writer

namespace WordPostings

/-- The occurrences of a word in all documents. -/
def occurrences (merged : WordPostings) : Nat :=
  total (fun posting => posting.occurrences.toNat) merged.postings

/-- The postings of a word with their ranks. -/
def ranked (merged : WordPostings) (files : List Record) : Except Error (List Posting) :=
  collect (merged.postings.map fun posting =>
    match files[posting.document.toNat]? with
    | none => .error (.corrupt (.unknownDocument posting.document.toNat))
    | some record =>
      .ok { posting with
        rank := Rank.ofPosting posting.occurrences (UInt64.ofNat merged.occurrences) record.words })

/-- The entry of a word. -/
def entry (files : List Record) (merged : WordPostings) : Except Error Bytes :=
  (merged.ranked files).map (StoredWord.encode merged.word)

end WordPostings

namespace Contents

/-- Is a merged word in too many documents? -/
def isTooCommon (contents : Contents) (merged : WordPostings) : Bool :=
  contents.limit.exceededBy merged.postings.length contents.files.length

/-- Does one meta name come before another in stored order, or equal it? -/
def metaBefore (a b : String × UInt32) : Bool :=
  if a.1 = b.1 then a.2 ≤ b.2 else StopWords.storedBefore a.1 b.1

/-- The meta names in stored order. -/
def sortedMetaNames (contents : Contents) : List (String × UInt32) :=
  contents.metaNames.mergeSort metaBefore

/-- What a merge is gone through for the first time to find out: how many words stay,
    and which become stop words. -/
structure Survey where
  kept : Nat := 0
  demoted : List String := []
deriving DecidableEq, Repr

/-- Takes one more merged word into account. -/
def count (contents : Contents) (survey : Survey) (merged : WordPostings) : Survey :=
  if contents.isTooCommon merged then
    { survey with demoted := survey.demoted ++ [merged.word] }
  else { survey with kept := survey.kept + 1 }

/-- Merges all sources to see which words stay. -/
def survey (contents : Contents) : Except Error Survey :=
  (Merge.sources contents.sources).map fun merged => merged.foldl contents.count {}

/-- Puts down the entries of merged words that stay, from entry `i` on. -/
def pushWords (contents : Contents) (writer : Writer) (i : Nat) :
    List WordPostings → Except Error Writer
  | [] => .ok writer
  | merged :: rest =>
    if contents.isTooCommon merged then contents.pushWords writer i rest
    else
      match merged.entry contents.files with
      | .error e => .error e
      | .ok entry =>
        match writer.push .words i entry with
        | .error e => .error e
        | .ok writer => contents.pushWords writer (i + 1) rest

/-- The bytes of an index, given the number of words that stay and the stop words.
    All sources are merged again for the entries of the words. -/
def encode (contents : Contents) (kept : Nat) (stopWords : List String) :
    Except Error Bytes := do
  let metaNames := contents.sortedMetaNames
  let writer := Writer.start (Header.blank {
    words := kept
    stopWords := stopWords.length
    directories := contents.directories.length
    files := contents.files.length
    metaNames := metaNames.length })
  let merged ← Merge.sources contents.sources
  let writer ← contents.pushWords writer 0 merged
  let writer ← writer.pushAll .stopWords 0 (stopWords.map nulClosed)
  let writer ← writer.pushAll .directories 0 (contents.directories.map nulClosed)
  let writer ← writer.pushAll .files 0 (contents.files.map Record.encode)
  let writer ← writer.pushAll .metaNames 0
    (metaNames.map fun (name, id) => MetaName.encode name id)
  .ok writer.finish

/-- One of the names that a file has before it is finished. The shortest takes
    eighteen bytes. -/
def provisionalName (n : Nat) : String :=
  String.ofList ('.' :: List.replicate (n + 17) '~')

/-- A name that no entry of a directory has: the first free one of
    provisional names that are one more than the entries. -/
def unusedName (entries : List (String × Node)) : String :=
  let names := (List.range (entries.length + 1)).map provisionalName
  (names.find? fun name => (Node.lookup name entries).isNone).getD (provisionalName 0)

/-- The directory that a file of this path lies in. -/
def directoryOf (path : String) : String :=
  match Path.parent path with
  | none => "."
  | some parent => if parent.isEmpty then "." else parent

/-- Makes a file with the content at a path, in one step as others see it. The
    content is only asked for once there is a place for it. -/
def publishBytes (disk : Disk) (path : String) (content : Except Error Bytes) :
    Except Error Unit × Disk :=
  match disk.directoryAt (directoryOf path) (provisionalName 0) with
  | .error cause => (.error (.cannotCreate (directoryOf path) cause), disk)
  | .ok location =>
    let entries :=
      match disk.root.get? location with
      | some (.directory entries) => entries
      | _ => []
    let name := unusedName entries
    let begun := disk.put location name (.file [])
    match content with
    -- From here on the new file is there, and it goes away again with any error.
    | .error e => (.error e, begun.erase location name)
    | .ok bytes =>
      let written := begun.put location name (.file bytes)
      match written.moveOnto location name path with
      | .error cause => (.error (.cannotReplace path cause), written.erase location name)
      | .ok published => (.ok (), published)

/-- Writes the index once its words are surveyed. Words in too many documents are
    added to the stop words. -/
def publish (contents : Contents) (stopWords : StopWords) (disk : Disk) (path : String) :
    Except Error PublicationSummary × Disk :=
  match contents.survey with
  | .error e => (.error e, disk)
  | .ok ⟨kept, demoted⟩ =>
    -- The header has to know how many stop words there are before the words are put down.
    let stops := (stopWords.insertAll demoted).sorted
    match publishBytes disk path (contents.encode kept stops) with
    | (.error e, disk) => (.error e, disk)
    | (.ok (), disk) =>
      (.ok {
        sources := contents.sources.length
        words := kept
        stopWords := stops.length
        demoted }, disk)

end Contents

namespace Session

/-- The sources of the index: what is being added to, and the runs. -/
def sources (session : Session) : Except Error (List Segment) :=
  (collect (session.runs.map Run.segment)).map fun runs =>
    -- The documents of the base have the smallest numbers, so it comes first.
    (session.base.map Index.words).toList ++ runs

/-- Writes out what is left in memory and publishes the index. -/
def finish (session : Session) (disk : Disk) (path : String) :
    Except Error PublicationSummary × Disk :=
  let session := if session.words.isEmpty then session else session.flush
  match session.sources with
  | .error e => (.error e, disk)
  | .ok sources =>
    let contents : Contents := {
      sources
      files := session.files
      directories := session.directories
      metaNames := session.metaNames
      limit := session.options.spread }
    contents.publish session.stopWords disk path

end Session

end Concordance
