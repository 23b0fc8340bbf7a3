import Concordance.Disk.Tree
import Concordance.Index
import Concordance.Indexing.Options
import Concordance.Indexing.WordMap
import Concordance.StopWords

/-!
# Indexing Sessions

All that is known while an index is being built.

A session numbers directories, documents and meta names in the order in which
they turn up, and counts the words of the document being read. Every candidate
takes up a position and adds to the word count of its document; only an accepted
one is recorded. A word is accepted if it passes the check and neither it nor
its stem is a stop word. What is recorded is the stem.

Recorded words are counted. When there are as many as the configuration allows,
the word map is written out as a run and a new one is begun. This may happen in
the middle of a document.

A session that adds to an existing index starts from the directories, records,
meta names and stop words of that index. The words of the index stay where they
are until the end.

## Main definitions

* `Session`: The state of one session.
* `Session.start?`, `Session.extend?`: A new index, and a longer one.
* `Session.beginDocument`, `readText`, `readWord`, `retitle`, `endDocument`: One
  document.
* `Operation`, `Session.apply`: What a caller can do, as data.
-/

namespace Concordance

/-- The state of one session. -/
structure Session where
  options : IndexingOptions
  stemmer : String → String := id
  stopWords : StopWords
  /-- The words since the last run was written. -/
  words : WordMap := []
  /-- How many words were recorded since then. -/
  sinceFlush : Nat := 0
  files : List Record := []
  directories : List String := []
  /-- Folded meta names with their ids, in the order in which they came. -/
  metaNames : List (String × UInt32) := []
  /-- The runs that were written, the first one first. -/
  runs : List Bytes := []
  /-- The index that is being added to. -/
  base : Option Index := none

/-- A document being read: its id, the position of its next word, and how many
    words it has so far. -/
structure Draft where
  document : UInt32
  position : UInt32 := 0
  words : UInt32 := 0
deriving DecidableEq, Repr

/-- A part of a document. -/
inductive Part where
  /-- Text, cut into words, under a meta name or none. -/
  | text (text : String) (metaId : Option UInt32)
  /-- A single word. -/
  | word (raw : String) (metaId : Option UInt32)
  | title (title : String)
  | metaName (name : String)
deriving DecidableEq, Repr

/-- What a caller of a session can do. -/
inductive Operation where
  | directory (path : String)
  | metaName (name : String)
  | file (directory : UInt32) (name : String) (size : UInt64) (title : Option String)
      (parts : List Part)
deriving DecidableEq, Repr

namespace Session

/-- The name of the directory for the runs of a session, in the place for them. -/
def runsName : String :=
  String.ofList (List.replicate 13 '~')

/-- A new session, once its configuration makes sense and there is a place for
    its runs. -/
def start? (disk : Disk) (options : IndexingOptions) (stopWords : StopWords) :
    Except Error Session := do
  options.validate
  match options.scratch with
  | none => .ok { options, stopWords }
  | some path =>
    match disk.directoryAt path runsName with
    | .error cause => .error (.cannotCreate path cause)
    | .ok _ => .ok { options, stopWords }

/-- The id of a directory: the one it was given before, or the next. -/
def internDirectory (session : Session) (path : String) : Session × UInt32 :=
  match session.directories.idxOf? path with
  | some i => (session, UInt32.ofNat i)
  | none =>
    ({ session with directories := session.directories ++ [path] },
      UInt32.ofNat session.directories.length)

/-- Gives a meta name an id, in the place of the id that it has. -/
def setMetaName (name : String) (id : UInt32) : List (String × UInt32) → List (String × UInt32)
  | [] => [(name, id)]
  | (other, old) :: rest =>
    if other = name then (name, id) :: rest else (other, old) :: setMetaName name id rest

/-- The id of a meta name: the one its folded form was given before, or the
    next. -/
def internName (session : Session) (name : String) : Session × UInt32 :=
  let name := Text.fold name
  match session.metaNames.lookup name with
  | some id => (session, id)
  | none =>
    let id := UInt32.ofNat session.metaNames.length
    ({ session with metaNames := session.metaNames ++ [(name, id)] }, id)

/-- Takes over what an index has besides its words. -/
def takeOver (session : Session) (index : Index) : Except Error Session := do
  let stops ← collect ((index.segment .stopWords).entries.map (· >>= decodeText))
  let session := { session with stopWords := session.stopWords.insertAll stops }
  -- A path that is listed twice is registered once, and all behind it get smaller ids.
  let directories ← collect ((index.segment .directories).entries.map (· >>= decodeText))
  let session := directories.foldl (fun session path => (session.internDirectory path).1) session
  let files ← collect ((index.segment .files).entries.map (· >>= Record.decode))
  let session := { session with files := session.files ++ files }
  let names ← collect ((index.segment .metaNames).entries.map (· >>= MetaName.decode))
  let metaNames := names.foldl (fun all (name, id) => setMetaName name id all) session.metaNames
  .ok { session with metaNames }

/-- A session that adds to an index. -/
def extend? (disk : Disk) (path : String) (options : IndexingOptions) : Except Error Session := do
  match disk.openFile path with
  | .error cause => .error (.cannotOpen path cause)
  | .ok bytes =>
    let index ← Index.open? bytes.toArray
    let session ← start? disk options StopWords.empty
    let session ← session.takeOver index
    .ok { session with base := some index }

/-- Writes the words in memory out as a run. -/
def flush (session : Session) : Session :=
  { session with runs := session.runs ++ [session.words.encode], words := [], sinceFlush := 0 }

/-- Records an occurrence of a word, and flushes if that was one too many. -/
def record (session : Session) (word : String) (document position : UInt32)
    (metaId : Option UInt32) : Session :=
  let session :=
    { session with
      words := session.words.record (Utf8.bytes word) document position metaId
      sinceFlush := session.sinceFlush + 1 }
  if session.options.runSize ≤ session.sinceFlush then session.flush else session

/-- What a prepared word is recorded as: its stem, if it is accepted. -/
def accept (session : Session) (word : String) : Option String :=
  if (Word.check session.options.sizes word).isSome then none
  else if session.stopWords.contains word then none
  else
    -- The word was looked up already, and a stem that is the word needs no second look.
    let stem := session.stemmer word
    if stem ≠ word ∧ session.stopWords.contains stem then none else some stem

/-- Begins a document. Its title is its name, as long as it has no other. -/
def beginDocument (session : Session) (directory : UInt32) (name : String) (size : UInt64)
    (title : Option String) : Session × Draft :=
  ({ session with
      files := session.files ++ [{ directory, name, size, title := title.getD name }] },
    { document := UInt32.ofNat session.files.length })

/-- Replaces the title of the document being read. -/
def retitle (session : Session) (draft : Draft) (title : String) : Session :=
  { session with
    files := session.files.modify draft.document.toNat fun record => { record with title } }

/-- Takes in the next word of the document being read. -/
def readWord (session : Session) (draft : Draft) (raw : String) (metaId : Option UInt32) :
    Session × Draft :=
  -- A word that is not accepted leaves a gap among the positions.
  let next :=
    { draft with
      position := addCounts draft.position 1
      words := addCounts draft.words 1 }
  match session.accept (Word.prepare raw) with
  | none => (session, next)
  | some stem => (session.record stem draft.document draft.position metaId, next)

/-- Takes in several words. -/
def readWords (session : Session) (draft : Draft) (raws : List String)
    (metaId : Option UInt32) : Session × Draft :=
  raws.foldl (fun (session, draft) raw => session.readWord draft raw metaId) (session, draft)

/-- Takes in the words of a text. -/
def readText (session : Session) (draft : Draft) (text : String) (metaId : Option UInt32) :
    Session × Draft :=
  session.readWords draft (Word.candidates (Text.fold text)) metaId

/-- Ends a document: its record now has the word count. -/
def endDocument (session : Session) (draft : Draft) : Session :=
  { session with
    files := session.files.modify draft.document.toNat fun record =>
      { record with words := draft.words } }

/-- Takes in a part of a document. -/
def applyPart (session : Session) (draft : Draft) : Part → Session × Draft
  | .text text metaId => session.readText draft text metaId
  | .word raw metaId => session.readWord draft raw metaId
  | .title title => (session.retitle draft title, draft)
  | .metaName name => ((session.internName name).1, draft)

/-- Takes in a whole document. -/
def addDocument (session : Session) (directory : UInt32) (name : String) (size : UInt64)
    (title : Option String) (parts : List Part) : Session :=
  let (session, draft) := session.beginDocument directory name size title
  let (session, draft) := parts.foldl (fun (session, draft) part => session.applyPart draft part)
    (session, draft)
  session.endDocument draft

/-- Does what a caller asks for. -/
def apply (session : Session) : Operation → Session
  | .directory path => (session.internDirectory path).1
  | .metaName name => (session.internName name).1
  | .file directory name size title parts => session.addDocument directory name size title parts

/-- Does several things, from the left. -/
def run (session : Session) (operations : List Operation) : Session :=
  operations.foldl apply session

end Session

end Concordance
