import Concordance.Proofs.Indexing.Published

/-!
# Where Everything Is

The places in the header of an index lead to its entries, and leave nothing out.

An index is a header and then the entries of its segments, one after the other. So the
places of all five tables, taken in order, begin where the header ends, and each of them
is as far behind the one before it as that entry is long. As no entry is empty they
ascend, and none is the zero that stands in the header until a place is known.

What a segment yields for an entry is the entry, except for the last one, which yields
everything behind it as well. A reader of an entry has to know by itself where to stop.

The index is written in two merges, and it is the first that tells how much room there
will be. The second can fail where a word has a posting of a document that there is not.
It never fails for want of room, whatever the sources are.

## Main definitions

* `Index.places`: The places of all entries.
* `Index.LaidOut`: An index with given entries, each of them where it should be.

## Theorems

* `Contents.unknownDocument_of_encode`: What goes wrong in the second merge.
* `Index.laidOut`: An index is opened with every entry in its place.
* `Contents.publish_laidOut`: So is an index that was written.
-/

namespace Concordance

namespace WordMap

/-- Places go on where the entries before end. -/
theorem offsetsFrom_append (start : Nat) (front behind : List Bytes) :
    offsetsFrom start (front ++ behind)
      = offsetsFrom start front ++ offsetsFrom (start + front.flatten.length) behind := by
  induction front generalizing start with
  | nil => rfl
  | cons entry front ih =>
    rw [List.cons_append, offsetsFrom, ih, offsetsFrom, List.cons_append, List.flatten_cons,
      List.length_append, Nat.add_assoc]

theorem le_of_mem_offsetsFrom {start place : Nat} {entries : List Bytes}
    (h : place ∈ offsetsFrom start entries) : start ≤ place := by
  induction entries generalizing start with
  | nil => exact absurd h List.not_mem_nil
  | cons entry entries ih =>
    rcases List.mem_cons.mp h with rfl | h
    · exact Nat.le_refl _
    · exact Nat.le_trans (Nat.le_add_right _ _) (ih h)

/-- Places ascend if no entry is empty. -/
theorem offsetsFrom_ascend (start : Nat) {entries : List Bytes} (hne : [] ∉ entries) :
    (offsetsFrom start entries).Pairwise (· < ·) := by
  induction entries generalizing start with
  | nil => exact List.Pairwise.nil
  | cons entry entries ih =>
    rw [List.mem_cons, not_or] at hne
    refine List.pairwise_cons.mpr ⟨fun place hplace => ?_, ih _ hne.2⟩
    have hbehind := le_of_mem_offsetsFrom hplace
    have hlength := List.length_pos_iff.mpr (Ne.symm hne.1)
    omega

end WordMap

namespace WordPostings

/-- A word can not be ranked if one of its postings is of a document that there is not. -/
theorem unknownDocument_of_entry {files : List Record} {word : WordPostings} {e : Error}
    (h : word.entry files = .error e) :
    ∃ posting ∈ word.postings, files.length ≤ posting.document.toNat
      ∧ e = .corrupt (.unknownDocument posting.document.toNat) := by
  have hranked : word.ranked files = .error e := error_of_map h
  rcases List.mem_map.mp (mem_of_collect_error hranked) with ⟨posting, hposting, heq⟩
  rcases hget : files[posting.document.toNat]? with _ | record
  · rw [hget] at heq
    exact ⟨posting, hposting, List.getElem?_eq_none_iff.mp hget, (Except.error.inj heq).symm⟩
  · rw [hget] at heq
    exact absurd heq (by simp)

theorem entry_ne_nil {files : List Record} {word : WordPostings} {entry : Bytes}
    (h : word.entry files = .ok entry) : entry ≠ [] := by
  rcases exists_of_map h with ⟨postings, -, rfl⟩
  exact List.append_ne_nil_of_left_ne_nil (nulClosed_ne_nil _) _

end WordPostings

namespace Contents

variable {contents : Contents}

/-- Words with postings of known documents only are all that the second merge asks for.
    In particular there is room for every word. -/
theorem unknownDocument_of_encode {survey : Survey} (hsurvey : contents.survey = .ok survey)
    {stopWords : List String} {e : Error}
    (h : contents.encode survey.kept stopWords = .error e) :
    ∃ merged, Merge.sources contents.sources = .ok merged
      ∧ ∃ word ∈ contents.kept merged, ∃ posting ∈ word.postings,
        contents.files.length ≤ posting.document.toNat
        ∧ e = .corrupt (.unknownDocument posting.document.toNat) := by
  rcases exists_of_map hsurvey with ⟨merged, hmerge, -⟩
  rcases Except.ok.inj (hsurvey.symm.trans (contents.survey_eq hmerge)) with rfl
  rw [encode_eq contents hmerge] at h
  -- What is laid out fails as the entry of a word does that is kept.
  rcases List.mem_map.mp (mem_of_collect_error (error_of_map h)) with ⟨word, hword, hentry⟩
  exact ⟨merged, hmerge, word, hword, WordPostings.unknownDocument_of_entry hentry⟩

/-- No entry of an index is empty. -/
theorem sections_ne_nil {words : List Bytes} (hwords : [] ∉ words) (stopWords : List String)
    (kind : SegmentName) : [] ∉ (contents.sections words stopWords).get kind := by
  -- Each of the others has a text in it, which is closed.
  cases kind with
  | words => exact hwords
  | stopWords => simp [sections, Sections.get, nulClosed_ne_nil]
  | directories => simp [sections, Sections.get, nulClosed_ne_nil]
  | files => simp [sections, Sections.get, Record.encode_ne_nil]
  | metaNames => simp [sections, Sections.get, MetaName.encode_ne_nil]

end Contents

theorem Sections.exists_of_mem_toList {α : Type} {sections : Sections α} {a : α}
    (h : a ∈ sections.toList) : ∃ kind, sections.get kind = a := by
  simp only [toList, List.mem_cons, List.not_mem_nil, or_false] at h
  rcases h with rfl | rfl | rfl | rfl | rfl
  · exact ⟨.words, rfl⟩
  · exact ⟨.stopWords, rfl⟩
  · exact ⟨.directories, rfl⟩
  · exact ⟨.files, rfl⟩
  · exact ⟨.metaNames, rfl⟩

namespace Index

/-- The size of the header. -/
def headerLength (index : Index) : Nat :=
  total (fun kind => OffsetTable.byteLength (index.segment kind).size) SegmentName.all

/-- The places of all entries, in stored order, as they are read out of the header. -/
def places (index : Index) : List (Except Error Nat) :=
  SegmentName.all.flatMap fun kind =>
    (List.range (index.segment kind).size).map ((index.segment kind).table.offset index.blob)

/-- An index with these entries, each of them where it should be. -/
structure LaidOut (index : Index) (sections : Sections (List Bytes)) : Prop where
  /-- There are as many entries as there should be. -/
  size : ∀ kind, (index.segment kind).size = (sections.get kind).length
  /-- The first entry is behind the header, and every other one behind the one before. -/
  places : index.places
    = (WordMap.offsetsFrom index.headerLength sections.toList.flatten).map .ok
  ascend : (WordMap.offsetsFrom index.headerLength sections.toList.flatten).Pairwise (· < ·)
  /-- No place is the one that stands for a place which is not known. -/
  filled : .ok 0 ∉ index.places
  /-- The file is read from the place of an entry up to its end, or if it is the last one of
      its segment, up to the end of the file. -/
  get : ∀ kind i (h : i < (sections.get kind).length), ∃ front behind,
    index.blob.toList = front ++ (sections.get kind)[i] ++ behind
    ∧ (index.segment kind).table.offset index.blob i = .ok front.length
    ∧ (index.segment kind).get i
      = .ok ((sections.get kind)[i]
          ++ if i + 1 < (sections.get kind).length then [] else behind)

section Opened

variable {sections : Sections (List Bytes)} (hsize : (indexBytes sections).length < UInt64.size)
  (hne : ∀ kind, [] ∉ sections.get kind)

/-- The index that is opened. -/
def ofSections (sections : Sections (List Bytes)) : Index :=
  ⟨(indexBytes sections).toArray, sections.tables⟩

theorem segment_ofSections (kind : SegmentName) :
    (ofSections sections).segment kind
      = ⟨(indexBytes sections).toArray, sections.table kind⟩ := by
  rw [segment, ofSections, sections.tables_get]

theorem headerLength_ofSections :
    (ofSections sections).headerLength = Sections.tablesLength sections.toList := by
  simp only [headerLength, SegmentName.all, segment_ofSections, total_cons, total_nil,
    Sections.tablesLength, Sections.toList, Segment.size, Sections.table, Sections.get]

include hsize hne

theorem offset_ofSections (kind : SegmentName) {i : Nat} (hi : i < (sections.get kind).length) :
    (sections.table kind).offset (indexBytes sections).toArray i
      = .ok (sections.start kind + ((sections.get kind).take i).flatten.length) := by
  have htable := sections.tableAt kind
  rw [sections.places_get] at htable
  exact Segment.offset_eq hsize htable (sections.entriesAt kind) (hne kind) hi

/-- The places of one segment. -/
theorem range_map_offset (kind : SegmentName) :
    (List.range (sections.get kind).length).map
        ((sections.table kind).offset (indexBytes sections).toArray)
      = (WordMap.offsetsFrom (sections.start kind) (sections.get kind)).map .ok := by
  refine List.ext_getElem (by simp) fun i hi hi' => ?_
  rw [List.length_map, List.length_range] at hi
  rw [List.getElem_map, List.getElem_map, List.getElem_range, WordMap.getElem_offsetsFrom,
    offset_ofSections hsize hne kind hi]

/-- The places of all segments, one behind the other. -/
theorem places_ofSections :
    (ofSections sections).places
      = (WordMap.offsetsFrom (Sections.tablesLength sections.toList)
          sections.toList.flatten).map .ok := by
  have hkind : (fun kind => (List.range ((ofSections sections).segment kind).size).map
        (((ofSections sections).segment kind).table.offset (ofSections sections).blob))
      = fun kind => (WordMap.offsetsFrom (sections.start kind) (sections.get kind)).map .ok := by
    funext kind
    rw [segment_ofSections]
    exact range_map_offset hsize hne kind
  rw [places, hkind]
  simp only [SegmentName.all, List.flatMap_cons, List.flatMap_nil, List.append_nil,
    ← List.map_append, Sections.start, Sections.before, Sections.toList, Sections.get,
    List.flatten_cons, List.flatten_nil, WordMap.offsetsFrom_append, List.length_append,
    List.length_nil, List.flatten_append, Nat.add_assoc, Nat.add_zero]

/-- An entry is read from its place. -/
theorem get_ofSections (kind : SegmentName) {i : Nat} (hi : i < (sections.get kind).length) :
    ∃ front behind, indexBytes sections = front ++ (sections.get kind)[i] ++ behind
      ∧ (sections.table kind).offset (indexBytes sections).toArray i = .ok front.length
      ∧ Segment.get ⟨(indexBytes sections).toArray, sections.table kind⟩ i
        = .ok ((sections.get kind)[i]
            ++ if i + 1 < (sections.get kind).length then [] else behind) := by
  have htable := sections.tableAt kind
  rw [sections.places_get] at htable
  have hentries := sections.entriesAt kind
  rcases hentries.split hi with ⟨front, hbytes, hfront⟩
  refine ⟨front, _, hbytes, hfront ▸ offset_ofSections hsize hne kind hi, ?_⟩
  by_cases hnext : i + 1 < (sections.get kind).length
  · rw [if_pos hnext, List.append_nil]
    exact Segment.get_eq hsize htable hentries (hne kind) hnext
  · rw [if_neg hnext, List.drop_eq_nil_of_le (by omega), List.flatten_nil, List.nil_append]
    exact Segment.get_last_eq hsize htable hentries (hne kind) hi hnext

/-- An index is opened with every entry in its place. -/
theorem laidOut :
    ∃ index, open? (indexBytes sections).toArray = .ok index ∧ index.LaidOut sections := by
  have hplaces := places_ofSections hsize hne
  have hall : [] ∉ sections.toList.flatten := by
    intro hmem
    rcases List.mem_flatten.mp hmem with ⟨entries, hentries, hnil⟩
    rcases Sections.exists_of_mem_toList hentries with ⟨kind, rfl⟩
    exact hne kind hnil
  refine ⟨ofSections sections, open?_eq hsize, fun kind => ?_, ?_, ?_, ?_, fun kind i hi => ?_⟩
  · rw [segment_ofSections]
    rfl
  · rw [headerLength_ofSections, hplaces]
  · -- No entry is empty, so that each begins behind the one before.
    exact WordMap.offsetsFrom_ascend _ hall
  · -- Even without entries, a header has bytes in it.
    intro hmem
    rw [hplaces] at hmem
    rcases List.mem_map.mp hmem with ⟨place, hplace, heq⟩
    have hle := WordMap.le_of_mem_offsetsFrom hplace
    rw [Except.ok.inj heq, Sections.toList, Sections.tablesLength, total_cons,
      OffsetTable.byteLength] at hle
    omega
  · rw [segment_ofSections]
    exact get_ofSections hsize hne kind hi

end Opened

end Index

namespace Contents

/-- What went well when an index was written. -/
theorem exists_of_publish {contents : Contents} {stopWords : StopWords} {disk after : Disk}
    {path : String} {summary : PublicationSummary}
    (h : contents.publish stopWords disk path = (.ok summary, after)) :
    ∃ survey bytes, contents.survey = .ok survey
      ∧ contents.encode survey.kept (stopWords.insertAll survey.demoted).sorted = .ok bytes
      ∧ publishBytes disk path (.ok bytes) = (.ok (), after)
      ∧ summary = {
          sources := contents.sources.length
          words := survey.kept
          stopWords := (stopWords.insertAll survey.demoted).sorted.length
          demoted := survey.demoted } := by
  rw [publish] at h
  rcases hsurvey : contents.survey with e | survey
  · rw [hsurvey] at h
    exact absurd h (by simp)
  simp only [hsurvey] at h
  -- What was written were bytes, so the second merge had come to its end.
  rcases hpublish : publishBytes disk path
      (contents.encode survey.kept (stopWords.insertAll survey.demoted).sorted)
    with ⟨e | ⟨⟨⟩⟩, disk'⟩
  · rw [hpublish] at h
    exact absurd h (by simp)
  · rw [hpublish] at h
    simp only [Prod.mk.injEq, Except.ok.injEq] at h
    rcases exists_of_publishBytes hpublish with ⟨bytes, hbytes⟩
    rcases h with ⟨rfl, rfl⟩
    exact ⟨survey, bytes, rfl, hbytes, hbytes ▸ hpublish, rfl⟩

/-- What went well when its bytes were put together. One entry is put down for each word
    that was counted. -/
theorem exists_of_encode {contents : Contents} {survey : Survey}
    (hsurvey : contents.survey = .ok survey) {stopWords : List String} {bytes : Bytes}
    (h : contents.encode survey.kept stopWords = .ok bytes) :
    ∃ merged words, Merge.sources contents.sources = .ok merged
      ∧ survey = ⟨words.length, contents.demoted merged⟩
      ∧ collect ((contents.kept merged).map (WordPostings.entry contents.files)) = .ok words
      ∧ bytes = indexBytes (contents.sections words stopWords) := by
  rcases exists_of_map hsurvey with ⟨merged, hmerge, -⟩
  rcases Except.ok.inj (hsurvey.symm.trans (contents.survey_eq hmerge)) with rfl
  rw [encode_eq contents hmerge] at h
  rcases exists_of_map h with ⟨words, hwords, rfl⟩
  refine ⟨merged, words, hmerge, ?_, hwords, rfl⟩
  rw [(exists_of_collect hwords).1]

/-- No entry of a word is empty. -/
theorem nil_notMem_entries {files : List Record} {merged : List WordPostings} {words : List Bytes}
    (h : collect (merged.map (WordPostings.entry files)) = .ok words) : [] ∉ words := fun hmem =>
  (exists_of_collect h).2 _ hmem |>.elim fun _ h => WordPostings.entry_ne_nil h.2 rfl

/-- An index is written as its entries ask for. The first merge counts the words that the
    second puts down, so the second never fails for want of room; and when all is written,
    there are as many entries as were reported, and each is in its place. -/
theorem publish_laidOut (contents : Contents) (stopWords : StopWords) (disk : Disk)
    (path : String) :
    (∀ survey, contents.survey = .ok survey → ∀ stops e,
      contents.encode survey.kept stops = .error e →
        ∃ document, e = .corrupt (.unknownDocument document))
    ∧ ∀ summary after, contents.publish stopWords disk path = (.ok summary, after) →
      ∃ merged words bytes,
        let stops := (stopWords.insertAll (contents.demoted merged)).sorted
        Merge.sources contents.sources = .ok merged
        ∧ collect ((contents.kept merged).map (WordPostings.entry contents.files)) = .ok words
        ∧ contents.survey = .ok ⟨words.length, contents.demoted merged⟩
        ∧ summary = ⟨contents.sources.length, words.length, stops.length, contents.demoted merged⟩
        ∧ publishBytes disk path (.ok bytes) = (.ok (), after)
        ∧ (bytes.length < UInt64.size → ∃ index, Index.open? bytes.toArray = .ok index
          ∧ index.LaidOut (contents.sections words stops)) := by
  refine ⟨fun survey hsurvey stops e h => ?_, fun summary after h => ?_⟩
  · rcases unknownDocument_of_encode hsurvey h with ⟨-, -, -, -, posting, -, -, heq⟩
    exact ⟨_, heq⟩
  · -- Both merges go over the same words, and what is reported is what the second has put down.
    rcases exists_of_publish h with ⟨survey, bytes, hsurvey, hbytes, hpublish, rfl⟩
    rcases exists_of_encode hsurvey hbytes with ⟨merged, words, hmerge, rfl, hwords, rfl⟩
    exact ⟨merged, words, _, hmerge, hwords, hsurvey, rfl, hpublish, fun hsize =>
      Index.laidOut hsize (sections_ne_nil (nil_notMem_entries hwords) _)⟩

/-- One word of two documents is written and the other demoted. Without the documents, the
    word that is written has a posting of one that there is not. -/
theorem publish_laidOut_of_two :
    let words : WordMap := [
      (Utf8.bytes "cats", [{ document := 0, occurrences := 1, positions := [0] }]),
      (Utf8.bytes "dogs", [{ document := 0, occurrences := 1, positions := [1] },
        { document := 1, occurrences := 1, positions := [0] }])]
    let contents : Contents := {
      sources := [⟨words.encode.toArray, ⟨2, 8⟩⟩]
      files := [⟨0, "one", 11, 2, ""⟩, ⟨0, "two", 4, 1, ""⟩]
      directories := ["."]
      metaNames := []
      limit := { maxDocuments := 1 } }
    (∃ after entry bytes index,
      contents.publish .empty {} "index" = (.ok ⟨1, 1, 1, ["dogs"]⟩, after)
      ∧ publishBytes {} "index" (.ok bytes) = (.ok (), after) ∧ bytes.length < UInt64.size
      ∧ Index.open? bytes.toArray = .ok index
      ∧ index.LaidOut (contents.sections [entry] ["dogs"]))
    ∧ ∃ e document, { contents with files := [] }.encode 1 ["dogs"] = .error e
      ∧ e = .corrupt (.unknownDocument document) := by
  intro words contents
  let merged : List WordPostings := [
    ⟨"cats", [{ document := 0, occurrences := 1, positions := [0] }]⟩,
    ⟨"dogs", [{ document := 0, occurrences := 1, positions := [1] },
      { document := 1, occurrences := 1, positions := [0] }]⟩]
  have hmerge : Merge.sources contents.sources = .ok merged :=
    eq_ok_of_toOption (by decide +kernel)
  have hkept : contents.kept merged = merged.take 1 := by decide +kernel
  have hdemoted : contents.demoted merged = ["dogs"] := by decide +kernel
  have hstops : (StopWords.empty.insertAll ["dogs"]).sorted = ["dogs"] := by decide +kernel
  have hsurvey : contents.survey = .ok ⟨1, ["dogs"]⟩ := by
    rw [contents.survey_eq hmerge, hkept, hdemoted]
    rfl
  constructor
  · -- What is written is no larger than it looks before anything is ranked.
    let volume : Volume := {
      words := (WordPostings.table (merged.take 1)).ranked contents.files
      stopWords := ["dogs"]
      directories := ["."]
      files := contents.files
      metaNames := contents.sortedMetaNames }
    have hencode : contents.encode 1 ["dogs"] = .ok volume.bytes := by
      have h := contents.encode_eq hmerge ["dogs"]
      rw [hkept, WordPostings.collect_entry (by decide +kernel)] at h
      exact h
    have hpublish : contents.publish .empty {} "index"
        = (.ok ⟨1, 1, 1, ["dogs"]⟩, { root := .directory [("index", .file volume.bytes)] }) := by
      simp only [publish, hsurvey, hstops, hencode, publishBytes_empty]
      rfl
    rcases (publish_laidOut contents .empty {} "index").2 _ _ hpublish with
      ⟨merged', entries, bytes, hmerge', hentries, -, hsummary, hbytes, hindex⟩
    rcases Except.ok.inj (hmerge.symm.trans hmerge') with rfl
    simp only [hdemoted, hstops] at hindex
    -- The entry is one with a rank, so it is given by its number only.
    have hone : entries.length = 1 := by
      rw [(exists_of_collect hentries).1, hkept]
      rfl
    rcases List.length_eq_one_iff.mp hone with ⟨entry, rfl⟩
    have hsize : bytes.length < UInt64.size := by
      rw [publishBytes_empty] at hbytes
      simp only [Prod.mk.injEq, Disk.mk.injEq, Node.directory.injEq, List.cons.injEq,
        Node.file.injEq, and_true, true_and] at hbytes
      rw [hbytes]
      exact Volume.length_bytes_lt (by decide +kernel)
    rcases hindex hsize with ⟨index, hopen, hlaid⟩
    exact ⟨_, entry, bytes, index, hpublish, hbytes, hsize, hopen, hlaid⟩
  · -- Whether the document is there only shows when the word is ranked.
    let other : Contents := { contents with files := [] }
    have hmerge' : Merge.sources other.sources = .ok merged := hmerge
    have hkept' : other.kept merged = merged.take 1 := by decide +kernel
    have hdemoted' : other.demoted merged = ["dogs"] := by decide +kernel
    have hsurvey' : other.survey = .ok ⟨1, ["dogs"]⟩ := by
      rw [other.survey_eq hmerge', hkept', hdemoted']
      rfl
    have hfails : other.encode 1 ["dogs"] = .error (.corrupt (.unknownDocument 0)) := by
      have h := other.encode_eq hmerge' ["dogs"]
      rw [hkept'] at h
      exact h
    rcases (publish_laidOut other .empty {} "index").1 _ hsurvey' _ _ hfails with ⟨document, heq⟩
    exact ⟨_, document, hfails, heq⟩

end Contents

end Concordance
