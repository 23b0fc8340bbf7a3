import Concordance.Proofs.Decoding
import Concordance.Proofs.Indexing.Atomicity
import Concordance.Proofs.Indexing.Closable
import Concordance.Proofs.Layout.Cut
import Concordance.Proofs.Merge.Anything
import Concordance.Proofs.Record.Delimited

/-!
# Truncated Indexes

An index that was cut off anywhere is found to be corrupt by someone who reads all of it.

Nothing in an index says how long it is, and the last entry of each segment is taken to go on
up to the end of the file. So most of a truncated index still looks well, and whatever is
found has to be found at the very last entry. If the cut is in the header then the tables are
not all there. If it is behind the header then the last entry is cut off, or begins behind
the cut. A place behind the cut is refused, and an entry that was cut off misses its end.

The last entry is never one of a word. A word that was written has a posting, so there is a
document, and records are stored behind words. All other entries end with a text or a number,
and say where they end if their texts can be closed.

## Main definitions

* `SegmentName.decode`: Reading an entry up to its end.
* `Index.ShowsCorruption`: A file in which reading everything comes upon a corruption.

## Theorems

* `Sections.exists_last`: The segment that is stored last.
* `Index.showsCorruption_of_cut`: Cutting off any end of an index shows.
* `Session.truncation_shows`: So it does where a session has written the index.
-/

namespace Concordance

/-- Reads an entry of a segment up to its end, and all postings of a word. -/
def SegmentName.decode : SegmentName → Bytes → Except Error Unit
  | .words, entry => (StoredWord.parse entry >>= StoredWord.decode).map fun _ => ()
  | .stopWords, entry => (decodeText entry).map fun _ => ()
  | .directories, entry => (decodeText entry).map fun _ => ()
  | .files, entry => (Record.decode entry).map fun _ => ()
  | .metaNames, entry => (MetaName.decode entry).map fun _ => ()

/-- A file that is no index, or has an entry in it that can not be read. In either case it
    is found to be corrupt. -/
def Index.ShowsCorruption (blob : Blob) : Prop :=
  (∃ cause, open? blob = .error (.corrupt cause))
  ∨ ∃ index, open? blob = .ok index ∧ ∃ kind i, i < (index.segment kind).size
    ∧ ∃ cause, (index.segment kind).get i >>= kind.decode = .error (.corrupt cause)

/-- Some segment is the last one with entries, if there are any. -/
theorem Sections.exists_last {α : Type} (sections : Sections (List α)) :
    (∀ kind, sections.get kind = [])
    ∨ ∃ kind, sections.get kind ≠ [] ∧ (sections.after kind).flatten = [] := by
  by_cases hnames : sections.metaNames = []
  · by_cases hfiles : sections.files = []
    · by_cases hdirectories : sections.directories = []
      · by_cases hstops : sections.stopWords = []
        · by_cases hwords : sections.words = []
          · exact Or.inl fun kind => by cases kind <;> assumption
          · exact Or.inr ⟨.words, hwords, by simp [after, hstops, hdirectories, hfiles, hnames]⟩
        · exact Or.inr ⟨.stopWords, hstops, by simp [after, hdirectories, hfiles, hnames]⟩
      · exact Or.inr ⟨.directories, hdirectories, by simp [after, hfiles, hnames]⟩
    · exact Or.inr ⟨.files, hfiles, by simp [after, hnames]⟩
  · exact Or.inr ⟨.metaNames, hnames, rfl⟩

namespace Index

variable {sections : Sections (List Bytes)}

/-- Cutting off any end of an index shows, if it has records wherever it has words, and the
    other entries say where they end. -/
theorem showsCorruption_of_cut (hsize : (indexBytes sections).length < UInt64.size)
    (hne : ∀ kind, [] ∉ sections.get kind) (hwords : sections.words ≠ [] → sections.files ≠ [])
    (hentries : ∀ kind ≠ .words, ∀ entry ∈ sections.get kind, ∀ part behind,
      entry = part ++ behind → behind ≠ [] → ∃ cause, kind.decode part = .error (.corrupt cause))
    {part behind : Bytes} (hcut : indexBytes sections = part ++ behind) (hbehind : behind ≠ []) :
    ShowsCorruption part.toArray := by
  -- A part that can not be opened shows it. Otherwise its tables are all there.
  have hlength := congrArg List.length hcut
  rw [List.length_append] at hlength
  have hpos := List.length_pos_iff.mpr hbehind
  rcases hopen : open? part.toArray with e | index
  · rcases open?_corrupt (by rw [List.size_toArray]; omega) hopen with ⟨cause, rfl⟩
    exact Or.inl ⟨cause, hopen⟩
  rcases open?_cut hsize hcut hopen with ⟨rfl, hinside⟩
  rcases sections.exists_last with hempty | ⟨kind, hlast, hafter⟩
  · -- A header is all there is, and it was read in full.
    have htable := hinside .metaNames
    have hentries : sections.toList.flatten = [] := by
      simp only [List.flatten_eq_nil_iff]
      intro entries hmem
      rcases Sections.exists_of_mem_toList hmem with ⟨kind, rfl⟩
      exact hempty kind
    have hall : (indexBytes sections).length
        = Sections.tablesLength (sections.before .metaNames) + 8 := by
      have hnames : sections.metaNames = [] := hempty .metaNames
      rw [indexBytes, hentries, List.flatten_nil, List.append_nil, sections.header_length]
      simp only [Sections.tablesLength, Sections.toList, Sections.before, total_cons, total_nil,
        hnames, OffsetTable.byteLength, List.length_nil]
      omega
    rw [Sections.table, hempty] at htable
    simp only [List.length_nil] at htable
    omega
  · have hkind : kind ≠ .words := by
      rintro rfl
      exact hwords hlast (List.flatten_eq_nil_iff.mp hafter _ (by simp [Sections.after]))
    -- The last entry of all is the one that was cut, or is missing.
    obtain ⟨i, hi, hend⟩ : ∃ i, ∃ hi : i < (sections.get kind).length,
        ¬ i + 1 < (sections.get kind).length :=
      ⟨(sections.get kind).length - 1, by have := List.length_pos_iff.mpr hlast; omega, by omega⟩
    rcases (sections.entriesAt kind).split hi with ⟨front, hbytes, hfront⟩
    rw [List.drop_eq_nil_of_le (by omega), hafter] at hbytes
    simp only [List.flatten_nil, List.append_nil] at hbytes
    have hoffset := offset_ofSections hsize hne kind hi
    rw [hcut, ← hfront] at hoffset
    refine Or.inr ⟨_, hopen, kind, i, ?_, ?_⟩
    · rw [segment, Sections.tables_get]
      exact hi
    · rw [segment, Sections.tables_get, Segment.get_cut (hinside kind) hend hoffset]
      split
      · rename_i hplace
        -- It begins inside of the part, which has less than all of it.
        have hprefix : front <+: part := by
          refine List.prefix_of_prefix_length_le ⟨_, (hbytes.symm.trans hcut)⟩ ⟨behind, rfl⟩
            (Nat.le_of_lt hplace)
        rcases hprefix with ⟨rest, rfl⟩
        rw [hbytes, List.append_assoc, List.append_cancel_left_eq] at hcut
        rw [List.drop_left]
        exact hentries kind hkind _ (List.getElem_mem hi) rest behind hcut hbehind
      · exact ⟨_, rfl⟩

end Index

/-- A word with postings can only be ranked where there are documents. -/
theorem WordPostings.files_ne_nil {files : List Record} {word : WordPostings} {entry : Bytes}
    (h : word.entry files = .ok entry) (hne : word.postings ≠ []) : files ≠ [] := by
  rintro rfl
  rcases exists_of_map h with ⟨ranked, hranked, -⟩
  rcases exists_of_collect hranked with ⟨hlength, hmem⟩
  rcases List.exists_mem_of_length_pos (hlength ▸ List.length_pos_iff.mpr hne) with ⟨p, hp⟩
  rcases hmem p hp with ⟨q, -, hq⟩
  exact absurd hq (by simp)

/-- An entry that says where it ends is found to be cut off. -/
theorem Delimited.cut_map {α : Type} {decode : Bytes → Except Error α} {entry : Bytes} {a : α}
    (h : Delimited decode entry a) {part behind : Bytes} (hcut : entry = part ++ behind)
    (hbehind : behind ≠ []) :
    ∃ cause, ((decode part).map fun _ => ()) = .error (.corrupt cause) := by
  rcases h.cut part behind hcut hbehind with ⟨cause, hcause⟩
  exact ⟨cause, by rw [hcause]; rfl⟩

namespace Session

variable {session : Session}

/-- The entries that are no words are found to be cut off. -/
theorem Closable.cut (h : session.Closable) {stopWords : List String}
    (hstops : ∀ word ∈ stopWords, NulFree word) (segments : List Segment) (words : List Bytes)
    {kind : SegmentName} (hkind : kind ≠ .words) :
    ∀ entry ∈ ((session.contents segments).sections words stopWords).get kind, ∀ part behind,
      entry = part ++ behind → behind ≠ [] →
        ∃ cause, kind.decode part = .error (.corrupt cause) := by
  intro entry hentry part behind
  cases kind with
  | words => exact absurd rfl hkind
  | stopWords =>
    rcases List.mem_map.mp hentry with ⟨word, hword, rfl⟩
    exact (decodeText_delimited (hstops word hword)).cut_map
  | directories =>
    rcases List.mem_map.mp hentry with ⟨path, hpath, rfl⟩
    exact (decodeText_delimited (h.directories path hpath)).cut_map
  | files =>
    rcases List.mem_map.mp hentry with ⟨record, hrecord, rfl⟩
    exact (Record.delimited (h.files record hrecord)).cut_map
  -- Names are written in their order, and so are no others than those of the session.
  | metaNames =>
    rcases List.mem_map.mp hentry with ⟨name, hname, rfl⟩
    exact (MetaName.delimited (h.metaNames name (List.mem_mergeSort.mp hname)) name.2).cut_map

/-- Cutting off any end of an index shows. It is enough that the session was given texts
    that can be closed: what it takes over from a file, and the words of documents, are
    read up to a NUL and can be closed by themselves. -/
theorem truncation_shows (begun : session.Begun) (stemmer : String → String)
    {operations : List Operation} (closable : ∀ op ∈ operations, op.Closable) {disk after : Disk}
    {path : String} {summary : PublicationSummary}
    (h : ({ session with stemmer }.run operations).finish disk path = (.ok summary, after)) :
    ∃ bytes location, ({ session with stemmer }.run operations).Publishes summary bytes
      ∧ disk.placeOf path = .ok location ∧ after.item? location = some (.file bytes)
      ∧ (bytes.length < UInt64.size → ∀ part behind, bytes = part ++ behind → behind ≠ [] →
        Index.ShowsCorruption part.toArray) := by
  -- What the session ends with can be closed, whichever stemmer it has.
  have hbegun := begun.closable
  have hstarted : ({ session with stemmer } : Session).Closable :=
    ⟨hbegun.stopWords, hbegun.directories, hbegun.files, hbegun.metaNames⟩
  have hdone := hstarted.run closable
  generalize { session with stemmer }.run operations = done at h hdone ⊢
  obtain ⟨segments, survey, bytes, -, hsurvey, hencode, hpublishes, hbytes⟩ := exists_of_finish h
  rcases Contents.publishBytes_ok hbytes with ⟨location, hlocation, hgains⟩
  refine ⟨bytes, location, hpublishes, hlocation, by rw [hgains, if_pos rfl], ?_⟩
  obtain ⟨merged, words, hmerge, rfl, hwords, rfl⟩ := Contents.exists_of_encode hsurvey hencode
  intro hsize part behind hcut hbehind
  refine Index.showsCorruption_of_cut hsize
    (Contents.sections_ne_nil (Contents.nil_notMem_entries hwords) _) (fun hne => ?_)
    (fun kind => hdone.cut (fun word hword => ?_) segments words) hcut hbehind
  · -- A word that was written has a posting, and that was ranked.
    rcases List.exists_mem_of_ne_nil _ hne with ⟨entry, hentry⟩
    rcases (exists_of_collect hwords).2 entry hentry with ⟨word, hword, hranked⟩
    have hpostings := (Merge.exists_entry_of_sources hmerge word (List.mem_filter.mp hword).1).2
    rw [Contents.sections, ne_eq, List.map_eq_nil_iff]
    exact WordPostings.files_ne_nil hranked hpostings
  · -- A stop word was one before, or was read as a word.
    rcases StopWords.mem_insertAll.mp (List.mem_mergeSort.mp hword) with hword | hword
    · exact hdone.stopWords word hword
    · rcases List.mem_map.mp hword with ⟨merged, hmem, rfl⟩
      exact Merge.nulFree_of_sources hmerge merged (List.mem_filter.mp hmem).1

/-- A new session of two documents, where the word that both have becomes a stop word. -/
theorem truncation_shows_of_two :
    let options : IndexingOptions := { spread := { maxDocuments := 1 } }
    let session : Session := { options, stopWords := .empty }
    let operations : List Operation := [.metaName "title",
      .file 0 "one" 11 none [.text "Cats, dogs." none], .file 0 "two" 4 none [.text "Dogs" none]]
    session.Begun ∧ (∀ op ∈ operations, op.Closable)
    ∧ ∃ summary after bytes location,
      (session.run operations).finish {} "index" = (.ok summary, after)
      ∧ (session.run operations).Publishes summary bytes
      ∧ Disk.placeOf {} "index" = .ok location ∧ after.item? location = some (.file bytes)
      ∧ bytes.length < UInt64.size
      ∧ ∀ part behind, bytes = part ++ behind → behind ≠ [] →
        Index.ShowsCorruption part.toArray := by
  intro options session operations
  have hstart : start? {} options .empty = .ok session := rfl
  have hbegun : session.Begun := .new (by simp [StopWords.empty]) hstart
  have hclosable : ∀ op ∈ operations, op.Closable := by decide
  let merged : List WordPostings := [
    ⟨"cats", [{ document := 0, occurrences := 1, positions := [0] }]⟩,
    ⟨"dogs", [{ document := 0, occurrences := 1, positions := [1] },
      { document := 1, occurrences := 1, positions := [0] }]⟩]
  have hsources : ((session.run operations).closed.sources >>= Merge.sources).toOption
      = some merged := by
    decide +kernel
  obtain ⟨segments, -, -, hvolume⟩ := exists_publishes_volume hsources (by decide +kernel)
  -- The disk is empty, so that the index can be put at its path.
  have hfinish := hvolume.finish_eq (Contents.publishBytes_empty _)
  rcases truncation_shows hbegun id hclosable hfinish with
    ⟨bytes, location, hpublishes, hlocation, hitem, hshows⟩
  have hsize : bytes.length < UInt64.size := by
    rw [hpublishes.unique hvolume]
    exact Volume.length_bytes_lt (by decide +kernel)
  exact ⟨hbegun, hclosable, _, _, bytes, location, hfinish, hpublishes, hlocation, hitem, hsize,
    hshows hsize⟩

end Session

end Concordance
