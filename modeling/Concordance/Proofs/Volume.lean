import Concordance.Proofs.Layout.Writer
import Concordance.Proofs.Record
import Concordance.Proofs.WordMap.Stored

/-!
# Volumes

What an index says, without its bytes.

A `Volume` has a map of words, and lists of everything else. Its bytes are opened
again, and what the index then says in each of its segments is what the volume has
there. The segments have nothing to do with each other in this. The words are read
back if they can be stored, whatever the titles of the documents are, and this is
why the two are kept apart below.

## Main definitions

* `Volume`: What an index says.
* `Volume.bytes`: The bytes of an index that says it.
* `Volume.Sound`: Words in order, with postings of documents that are there.
* `Index.Lists`: An index that says what a volume does, words apart.

## Theorems

* `Volume.entries_of_open`, `Volume.size_segment`: A segment has the entries of the volume.
* `Volume.collect_stopWords`, `collect_directories`, `collect_files`, `collect_metaNames`: A list
  is read back by itself.
* `Volume.open?_bytes`: A volume is read back.
-/

namespace Concordance

/-- What an index says. Words have the bytes that they are sorted by. -/
structure Volume where
  words : WordMap
  stopWords : List String
  directories : List String
  files : List Record
  metaNames : List (String × UInt32)
deriving DecidableEq, Repr

namespace Volume

/-- The entries of an index. -/
def sections (volume : Volume) : Sections (List Bytes) where
  words := volume.words.entries
  stopWords := volume.stopWords.map nulClosed
  directories := volume.directories.map nulClosed
  files := volume.files.map Record.encode
  metaNames := volume.metaNames.map fun (name, id) => MetaName.encode name id

/-- The bytes of an index. -/
def bytes (volume : Volume) : Bytes :=
  indexBytes volume.sections

/-- No entry is empty. -/
theorem sections_ne_nil (volume : Volume) (kind : SegmentName) :
    [] ∉ volume.sections.get kind := by
  cases kind with
  | words =>
    intro hmem
    rcases List.mem_map.mp hmem with ⟨_, -, heq⟩
    exact absurd heq (List.append_ne_nil_of_right_ne_nil _ (List.cons_ne_nil _ _))
  | stopWords => simp [sections, Sections.get, nulClosed_ne_nil]
  | directories => simp [sections, Sections.get, nulClosed_ne_nil]
  | files => simp [sections, Sections.get, Record.encode_ne_nil]
  | metaNames => simp [sections, Sections.get, MetaName.encode_ne_nil]

/-- A volume whose words are in order, with postings of documents that are there. -/
structure Sound (volume : Volume) : Prop where
  proper : volume.words.Proper
  tidy : ∀ e ∈ volume.words, TidyPostings e.2
  storable : volume.words.Storable
  inside : ∀ e ∈ volume.words, ∀ p ∈ e.2, p.document.toNat < volume.files.length

/-- A volume whose texts can be closed. -/
structure Closable (volume : Volume) : Prop where
  stopWords : ∀ word ∈ volume.stopWords, NulFree word
  directories : ∀ path ∈ volume.directories, NulFree path
  files : ∀ record ∈ volume.files, record.Closable
  metaNames : ∀ name ∈ volume.metaNames, NulFree name.1

end Volume

/-- An index that says what a volume does, words apart. -/
structure Index.Lists (index : Index) (volume : Volume) : Prop where
  stopWords : collect ((index.segment .stopWords).entries.map (· >>= decodeText))
    = .ok volume.stopWords
  directories : collect ((index.segment .directories).entries.map (· >>= decodeText))
    = .ok volume.directories
  files : collect ((index.segment .files).entries.map (· >>= Record.decode)) = .ok volume.files
  metaNames : collect ((index.segment .metaNames).entries.map (· >>= MetaName.decode))
    = .ok volume.metaNames

/-- Entries that are read by a reader that stops by itself are read back. -/
theorem collect_followedBy {α : Type} {encode : α → Bytes} {decode : Bytes → Except Error α}
    {as : List α} (h : ∀ a ∈ as, ∀ rest, decode (encode a ++ rest) = .ok a) {behind : Bytes}
    {entries : List (Except Error Bytes)}
    (hentries : entries = (followedBy behind (as.map encode)).map .ok) :
    collect (entries.map (· >>= decode)) = .ok as := by
  have hread : entries.map (· >>= decode) = as.map .ok := by
    rw [hentries, List.map_map]
    exact map_followedBy encode decode id h behind
  rw [hread, collect_map_ok]

namespace Volume

section Opened

variable (volume : Volume) {index : Index} (hsize : volume.bytes.length < UInt64.size)
  (hopen : Index.open? volume.bytes.toArray = .ok index)

include hsize hopen

/-- The entries of an opened volume are those that it was written with. -/
theorem entries_of_open (kind : SegmentName) : ∃ behind, (index.segment kind).entries
    = (followedBy behind (volume.sections.get kind)).map .ok := by
  rcases Index.open?_indexBytes hsize volume.sections_ne_nil with ⟨index', hopen', hentries⟩
  rcases Except.ok.inj (hopen'.symm.trans hopen) with rfl
  exact ⟨_, hentries kind⟩

/-- Stop words that can be closed are read back. -/
theorem collect_stopWords (h : ∀ word ∈ volume.stopWords, NulFree word) :
    collect ((index.segment .stopWords).entries.map (· >>= decodeText)) = .ok volume.stopWords := by
  rcases volume.entries_of_open hsize hopen .stopWords with ⟨behind, hentries⟩
  exact collect_followedBy (fun word hword => decodeText_nulClosed (h word hword)) hentries

/-- So are directories. -/
theorem collect_directories (h : ∀ path ∈ volume.directories, NulFree path) :
    collect ((index.segment .directories).entries.map (· >>= decodeText))
      = .ok volume.directories := by
  rcases volume.entries_of_open hsize hopen .directories with ⟨behind, hentries⟩
  exact collect_followedBy (fun path hpath => decodeText_nulClosed (h path hpath)) hentries

/-- So are records. -/
theorem collect_files (h : ∀ record ∈ volume.files, record.Closable) :
    collect ((index.segment .files).entries.map (· >>= Record.decode)) = .ok volume.files := by
  rcases volume.entries_of_open hsize hopen .files with ⟨behind, hentries⟩
  exact collect_followedBy (fun record hrecord => Record.decode_encode (h record hrecord)) hentries

/-- So are meta names. -/
theorem collect_metaNames (h : ∀ name ∈ volume.metaNames, NulFree name.1) :
    collect ((index.segment .metaNames).entries.map (· >>= MetaName.decode))
      = .ok volume.metaNames := by
  rcases volume.entries_of_open hsize hopen .metaNames with ⟨behind, hentries⟩
  exact collect_followedBy (fun name hname => MetaName.decode_encode (h name hname) name.2) hentries

end Opened

/-- A segment has as many entries as there are, whatever comes behind the last one. -/
theorem size_segment {volume : Volume} {index : Index} (hsize : volume.bytes.length < UInt64.size)
    (hopen : Index.open? volume.bytes.toArray = .ok index) (kind : SegmentName) :
    (index.segment kind).size = (volume.sections.get kind).length := by
  rcases volume.entries_of_open hsize hopen kind with ⟨behind, hentries⟩
  have hlength := congrArg List.length hentries
  rw [List.length_map, followedBy_length, Segment.entries, List.length_map,
    List.length_range] at hlength
  exact hlength

/-- A volume is read back. -/
theorem open?_bytes (volume : Volume) (hsize : volume.bytes.length < UInt64.size) :
    ∃ index, Index.open? volume.bytes.toArray = .ok index
      ∧ index.numDocuments = volume.files.length
      ∧ (volume.words.Storable → index.words.Holds volume.words)
      ∧ (volume.Closable → index.Lists volume) := by
  rcases Index.open?_indexBytes hsize volume.sections_ne_nil with ⟨index, hopen, hentries⟩
  refine ⟨index, hopen, ?_, fun h => ?_, fun h => ⟨?_, ?_, ?_, ?_⟩⟩
  · exact (size_segment hsize hopen .files).trans (List.length_map _)
  · exact Segment.holds_of_entries h _ (hentries .words)
  · exact volume.collect_stopWords hsize hopen h.stopWords
  · exact volume.collect_directories hsize hopen h.directories
  · exact volume.collect_files hsize hopen h.files
  · exact volume.collect_metaNames hsize hopen h.metaNames

/-- Its lists are found with the tables that its sections make. -/
theorem lists_tables (volume : Volume) (hsize : volume.bytes.length < UInt64.size)
    (h : volume.Closable) :
    Index.Lists ⟨volume.bytes.toArray, volume.sections.tables⟩ volume := by
  obtain ⟨index, hopen, -, -, hlists⟩ := volume.open?_bytes hsize
  rcases Except.ok.inj (hopen.symm.trans (Index.open?_eq hsize)) with rfl
  exact hlists h

end Volume

end Concordance
