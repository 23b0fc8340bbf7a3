import Concordance.Indexing.Publication
import Concordance.Proofs.Collect
import Concordance.Proofs.Layout

/-!
# An Index Is Read Back

The five segments of a written index are found again, each with its entries.

The writer knows how many entries there will be and nothing about how long they
are. So the header is put together while the entries are, and what has to be seen
is that every place is filled in and that it is the right one. `indexBytes` is the
index as it should be, where each segment begins at the end of the one before, and
the writer produces just that (`Contents.encode_eq`).

Words are merged twice, once to count them and once to put them down. Both merges yield
the same words and split them at the same limit, so there is room for every word that
comes the second time, and none of it is left.

## Main definitions

* `Contents.kept`, `Contents.demoted`: The two parts of merged words.
* `Sections.before`, `Sections.after`: The segments around one.
* `indexBytes`: The bytes of an index with given entries.
* `Contents.sections`: The entries of an index.

## Theorems

* `Contents.survey_eq`: What the first merge finds out.
* `Contents.pushWords_eq`: The second merge puts down the words that stay.
* `Writer.pushAll_eq`: All entries of a segment are put down.
* `Contents.encode_eq`: The bytes of an index.
* `Index.open?_eq`: The tables of an index are read back.
* `Index.open?_indexBytes`: So are its segments.
-/

namespace Concordance

namespace Sections

variable {α : Type}

@[simp]
theorem get_modify_self (sections : Sections α) (kind : SegmentName) (f : α → α) :
    (sections.modify kind f).get kind = f (sections.get kind) := by
  cases kind <;> rfl

theorem modify_modify (sections : Sections α) (kind : SegmentName) (f g : α → α) :
    (sections.modify kind f).modify kind g = sections.modify kind (g ∘ f) := by
  cases kind <;> rfl

/-- Putting in what is there changes nothing. -/
theorem modify_get (sections : Sections α) (kind : SegmentName) (f : α → α)
    (h : f (sections.get kind) = sections.get kind) : sections.modify kind f = sections := by
  cases kind <;> simp only [Sections.get] at h <;> simp only [Sections.modify, h]

end Sections

/-- Filling places in leaves as many as there are. -/
@[simp]
theorem Header.count_fill (header : Header) (kind other : SegmentName) (i offset : Nat) :
    (header.fill kind i offset).count other = header.count other := by
  cases kind <;> cases other <;>
    simp [Header.fill, Header.count, Sections.modify, Sections.get]

namespace Contents

variable (contents : Contents)

/-- The merged words that stay. -/
def kept (merged : List WordPostings) : List WordPostings :=
  merged.filter fun word => !contents.isTooCommon word

/-- Those that become stop words. -/
def demoted (merged : List WordPostings) : List String :=
  (merged.filter contents.isTooCommon).map WordPostings.word

/-- What stays and what is demoted, beyond what was found before. -/
theorem foldl_count (merged : List WordPostings) (survey : Survey) :
    merged.foldl contents.count survey = {
      kept := survey.kept + (contents.kept merged).length
      demoted := survey.demoted ++ contents.demoted merged } := by
  induction merged generalizing survey with
  | nil => simp [kept, demoted]
  | cons word merged ih =>
    rw [List.foldl_cons, ih, count]
    by_cases hcommon : contents.isTooCommon word = true
    · simp [kept, demoted, hcommon]
    · simp [kept, demoted, hcommon]
      omega

/-- The first merge finds out how many words stay and which do not. -/
theorem survey_eq {merged : List WordPostings}
    (hmerge : Merge.sources contents.sources = .ok merged) :
    contents.survey = .ok ⟨(contents.kept merged).length, contents.demoted merged⟩ := by
  rw [survey, hmerge, Except.map, foldl_count]
  simp

/-- The second merge puts down the words that stay, if there is room for them. It can only
    fail with a word that can not be ranked. -/
theorem pushWords_eq (merged : List WordPostings) (writer : Writer) (i : Nat)
    (hroom : i + (contents.kept merged).length ≤ writer.header.count .words) :
    contents.pushWords writer i merged
      = collect ((contents.kept merged).map (WordPostings.entry contents.files)) >>=
          writer.pushAll .words i := by
  induction merged generalizing writer i with
  | nil => rfl
  | cons word merged ih =>
    rw [pushWords]
    by_cases hcommon : contents.isTooCommon word = true
    · -- A word that became a stop word is passed over, and takes no place.
      have hkept : contents.kept (word :: merged) = contents.kept merged := by
        simp [kept, hcommon]
      rw [hkept] at hroom
      rw [if_pos hcommon, hkept, ih writer i hroom]
    · have hkept : contents.kept (word :: merged) = word :: contents.kept merged := by
        simp [kept, hcommon]
      rw [hkept, List.length_cons] at hroom
      rw [if_neg hcommon, hkept, List.map_cons]
      rcases hentry : word.entry contents.files with e | entry
      · rfl
      · -- There is room for this entry, and then for the others behind it.
        have hpush : writer.push .words i entry = .ok {
            header := writer.header.fill .words i writer.position
            position := writer.position + entry.length
            written := entry :: writer.written } := by
          rw [Writer.push, if_neg (by omega)]
        have hrest := ih {
            header := writer.header.fill .words i writer.position
            position := writer.position + entry.length
            written := entry :: writer.written } (i + 1) (by rw [Header.count_fill]; omega)
        simp only [hpush, hrest, collect]
        rcases collect ((contents.kept merged).map (WordPostings.entry contents.files))
          with e | words
        · rfl
        · show _ = writer.pushAll .words i (entry :: words)
          rw [Writer.pushAll, hpush]
          rfl

end Contents

namespace Writer

/-- All entries of a segment are put down, if there is room for them. -/
theorem pushAll_eq (writer : Writer) (kind : SegmentName) (entries : List Bytes)
    (before : List Nat)
    (h : writer.header.offsets.get kind = before ++ List.replicate entries.length 0) :
    writer.pushAll kind before.length entries = .ok {
      header := ⟨writer.header.offsets.modify kind fun _ =>
        before ++ WordMap.offsetsFrom writer.position entries⟩
      position := writer.position + entries.flatten.length
      written := entries.reverse ++ writer.written } := by
  induction entries generalizing writer before with
  | nil =>
    have hsame := Sections.modify_get writer.header.offsets kind (fun _ => before ++ []) h.symm
    rw [pushAll, WordMap.offsetsFrom, hsame]
    rfl
  | cons entry rest ih =>
    have hcount : writer.header.count kind = before.length + (rest.length + 1) := by
      rw [Header.count, h, List.length_append, List.length_replicate, List.length_cons]
    -- The first place that is still zero is filled in.
    have hset : (before ++ List.replicate (rest.length + 1) 0).set before.length writer.position
        = before ++ [writer.position] ++ List.replicate rest.length 0 := by
      rw [List.set_append_right _ _ (Nat.le_refl _), Nat.sub_self, List.replicate_succ,
        List.set_cons_zero, List.append_assoc, List.singleton_append]
    have hrest := ih
      { header := writer.header.fill kind before.length writer.position
        position := writer.position + entry.length
        written := entry :: writer.written }
      (before ++ [writer.position])
      (by rw [Header.fill, Sections.get_modify_self, h, List.length_cons, hset])
    rw [List.length_append, List.length_singleton] at hrest
    rw [pushAll, push, if_neg (by omega)]
    refine hrest.trans ?_
    -- Filling in one place and then the others is filling in all of them at once.
    have hfilled : (Header.fill writer.header kind before.length writer.position).offsets.modify
        kind (fun _ => before ++ [writer.position]
          ++ WordMap.offsetsFrom (writer.position + entry.length) rest)
        = writer.header.offsets.modify kind fun _ =>
          before ++ WordMap.offsetsFrom writer.position (entry :: rest) := by
      rw [Header.fill, Sections.modify_modify, List.append_assoc]
      rfl
    rw [hfilled, List.flatten_cons, List.length_append, Nat.add_assoc, List.reverse_cons,
      List.append_assoc, List.singleton_append]

end Writer

namespace Sections

section Order

variable {α : Type} (sections : Sections α)

/-- What there is for the segments stored before one. -/
def before : SegmentName → List α
  | .words => []
  | .stopWords => [sections.words]
  | .directories => [sections.words, sections.stopWords]
  | .files => [sections.words, sections.stopWords, sections.directories]
  | .metaNames => [sections.words, sections.stopWords, sections.directories, sections.files]

/-- What there is for the segments stored behind one. -/
def after : SegmentName → List α
  | .words => [sections.stopWords, sections.directories, sections.files, sections.metaNames]
  | .stopWords => [sections.directories, sections.files, sections.metaNames]
  | .directories => [sections.files, sections.metaNames]
  | .files => [sections.metaNames]
  | .metaNames => []

theorem toList_split (kind : SegmentName) :
    sections.toList = sections.before kind ++ sections.get kind :: sections.after kind := by
  cases kind <;> rfl

end Order

variable (sections : Sections (List Bytes))

/-- The size of tables for these entries. -/
def tablesLength (segments : List (List Bytes)) : Nat :=
  total (fun entries => OffsetTable.byteLength entries.length) segments

/-- Where the entries of a segment begin: behind the header and the entries of the
    segments before it. -/
def start (kind : SegmentName) : Nat :=
  tablesLength sections.toList + (sections.before kind).flatten.flatten.length

/-- The places of the entries of each segment. -/
def places : Sections (List Nat) where
  words := WordMap.offsetsFrom (sections.start .words) sections.words
  stopWords := WordMap.offsetsFrom (sections.start .stopWords) sections.stopWords
  directories := WordMap.offsetsFrom (sections.start .directories) sections.directories
  files := WordMap.offsetsFrom (sections.start .files) sections.files
  metaNames := WordMap.offsetsFrom (sections.start .metaNames) sections.metaNames

theorem places_get (kind : SegmentName) :
    sections.places.get kind
      = WordMap.offsetsFrom (sections.start kind) (sections.get kind) := by
  cases kind <;> rfl

end Sections

/-- The bytes of an index with these entries. -/
def indexBytes (sections : Sections (List Bytes)) : Bytes :=
  Header.encode ⟨sections.places⟩ ++ sections.toList.flatten.flatten

namespace Contents

/-- The entries of an index, where those of its words are known. -/
def sections (contents : Contents) (words : List Bytes) (stopWords : List String) :
    Sections (List Bytes) where
  words
  stopWords := stopWords.map nulClosed
  directories := contents.directories.map nulClosed
  files := contents.files.map Record.encode
  metaNames := contents.sortedMetaNames.map fun (name, id) => MetaName.encode name id

/-- The bytes of an index: it can be written as soon as the entries of its words
    can. -/
theorem encode_eq (contents : Contents) {merged : List WordPostings}
    (hmerge : Merge.sources contents.sources = .ok merged) (stopWords : List String) :
    contents.encode (contents.kept merged).length stopWords
      = (collect ((contents.kept merged).map (WordPostings.entry contents.files))).map fun words =>
          indexBytes (contents.sections words stopWords) := by
  have hpush := fun writer => contents.pushWords_eq merged writer 0
  simp only [encode, hmerge, bind, Except.bind]
  rw [hpush _ (by simp [Writer.start, Header.count, Header.blank, Sections.map, Sections.get])]
  rcases hw : collect ((contents.kept merged).map (WordPostings.entry contents.files))
    with e | words
  · rfl
  have hlen : (contents.kept merged).length = words.length := by
    have hmap := congrArg List.length (collect_eq_ok hw)
    rwa [List.length_map, List.length_map] at hmap
  simp only [hlen, bind, Except.bind, Except.map]
  -- Each segment has room for its entries, and filling one leaves the others.
  rw [show (0 : Nat) = ([] : List Nat).length from rfl]
  rw [Writer.pushAll_eq _ .words words [] rfl]
  simp only []
  rw [Writer.pushAll_eq _ .stopWords _ [] (by rw [List.length_map]; rfl)]
  simp only []
  rw [Writer.pushAll_eq _ .directories _ [] (by rw [List.length_map]; rfl)]
  simp only []
  rw [Writer.pushAll_eq _ .files _ [] (by rw [List.length_map]; rfl)]
  simp only []
  rw [Writer.pushAll_eq _ .metaNames _ [] (by rw [List.length_map]; rfl)]
  simp only [Except.ok.injEq, Writer.finish, indexBytes]
  -- The header is as long as it will be once it is filled in.
  have hstart : (Writer.start (Header.blank {
      words := words.length
      stopWords := stopWords.length
      directories := contents.directories.length
      files := contents.files.length
      metaNames := contents.sortedMetaNames.length })).position
      = Sections.tablesLength (contents.sections words stopWords).toList := by
    simp only [Writer.start, Header.byteLength, Header.blank, Sections.map, Sections.toList,
      Sections.tablesLength, sections, total_cons, total_nil, List.length_replicate,
      List.length_map]
  congr 1
  · simp only [hstart, Sections.places, Sections.start, Sections.before, List.flatten_append,
      List.flatten_cons, List.flatten_nil, List.append_nil, List.length_append, ← Nat.add_assoc]
    rfl
  · simp only [Writer.start, Sections.toList, sections, List.append_nil, List.reverse_append,
      List.reverse_reverse, List.flatten_append, List.flatten_cons, List.flatten_nil,
      List.append_assoc]

end Contents

namespace Sections

/-- The table of a segment is behind those of the segments before it. -/
theorem tableAt (sections : Sections (List Bytes)) (kind : SegmentName) :
    TableAt (indexBytes sections) (tablesLength (sections.before kind))
      (sections.places.get kind) := by
  refine ⟨(sections.places.before kind).flatMap OffsetTable.encode,
    (sections.places.after kind).flatMap OffsetTable.encode ++ sections.toList.flatten.flatten,
    ?_, ?_⟩
  · rw [indexBytes, Header.encode, sections.places.toList_split kind, List.flatMap_append,
      List.flatMap_cons]
    simp only [List.append_assoc]
  · cases kind <;> simp only [before, tablesLength, places, List.flatMap_cons, List.flatMap_nil,
      List.length_append, List.length_nil, OffsetTable.encode_length, WordMap.offsetsFrom_length,
      total_cons, total_nil]

/-- The header is as large as its tables. -/
theorem header_length (sections : Sections (List Bytes)) :
    (Header.encode ⟨sections.places⟩).length = tablesLength sections.toList := by
  simp only [Header.encode, toList, List.flatMap_cons, List.flatMap_nil, List.length_append,
    List.length_nil, OffsetTable.encode_length, places, WordMap.offsetsFrom_length,
    tablesLength, total_cons, total_nil]

/-- The entries of a segment are behind those of the segments before it. -/
theorem entriesAt (sections : Sections (List Bytes)) (kind : SegmentName) :
    EntriesAt (indexBytes sections) (sections.start kind) (sections.get kind)
      (sections.after kind).flatten.flatten := by
  refine ⟨Header.encode ⟨sections.places⟩ ++ (sections.before kind).flatten.flatten, ?_, ?_⟩
  · rw [indexBytes]
    conv => lhs; rw [sections.toList_split kind]
    rw [List.flatten_append, List.flatten_append, List.flatten_cons, List.flatten_append]
    simp only [List.append_assoc]
  · rw [List.length_append, header_length, start]

/-- The table of a segment, as it is read. -/
def table (sections : Sections (List Bytes)) (kind : SegmentName) : OffsetTable :=
  ⟨(sections.get kind).length, tablesLength (sections.before kind) + 8⟩

/-- The five tables, as they are read. -/
def tables (sections : Sections (List Bytes)) : Sections OffsetTable where
  words := sections.table .words
  stopWords := sections.table .stopWords
  directories := sections.table .directories
  files := sections.table .files
  metaNames := sections.table .metaNames

theorem tables_get (sections : Sections (List Bytes)) (kind : SegmentName) :
    sections.tables.get kind = sections.table kind := by
  cases kind <;> rfl

end Sections

namespace Index

/-- The tables of an index are read back. -/
theorem open?_eq {sections : Sections (List Bytes)}
    (hsize : (indexBytes sections).length < UInt64.size) :
    open? (indexBytes sections).toArray
      = .ok ⟨(indexBytes sections).toArray, sections.tables⟩ := by
  -- Each table is found where the one before it ends.
  have hparse : ∀ kind, OffsetTable.parse (indexBytes sections).toArray
      (Sections.tablesLength (sections.before kind))
      = .ok (sections.table kind, Sections.tablesLength (sections.before kind)
          + OffsetTable.byteLength (sections.get kind).length) := by
    intro kind
    rw [OffsetTable.parse_tableAt hsize (sections.tableAt kind), sections.places_get,
      WordMap.offsetsFrom_length]
    rfl
  have hwords := hparse .words
  have hstops := hparse .stopWords
  have hdirectories := hparse .directories
  have hfiles := hparse .files
  have hnames := hparse .metaNames
  simp only [Sections.get, Sections.before, Sections.tablesLength, total_cons, total_nil,
    Nat.add_zero, Nat.zero_add] at *
  simp only [Nat.add_assoc] at *
  simp only [open?, readTables, hwords, hstops, hdirectories, hfiles, hnames, bind, Except.bind,
    Except.map]
  rfl

/-- The segments of an index are read back. -/
theorem open?_indexBytes {sections : Sections (List Bytes)}
    (hsize : (indexBytes sections).length < UInt64.size)
    (hne : ∀ kind, [] ∉ sections.get kind) :
    ∃ index, open? (indexBytes sections).toArray = .ok index
      ∧ ∀ kind, (index.segment kind).entries
          = (followedBy (sections.after kind).flatten.flatten (sections.get kind)).map .ok := by
  refine ⟨_, open?_eq hsize, fun kind => ?_⟩
  have htable := sections.tableAt kind
  rw [sections.places_get] at htable
  rw [segment, sections.tables_get]
  exact Segment.entries_eq hsize htable (sections.entriesAt kind) (hne kind)

end Index

end Concordance
