import Concordance.Proofs.Indexing.Finished

/-!
# An Extended Index Is in Order

Whatever file a session adds to, the index that it ends in is in order.

Nothing is asked of the file but that it could be taken over and that the session could be
ended. It may have words twice or in any order, postings of documents that it does not have,
stop words in any order, and directories and meta names more than once. What a session takes
over besides words goes into sets at once, and so nothing is registered twice from the
beginning on. What it is asked to do later on only adds to these sets. Words are merged, and
the merge looks at their order.

Texts are another matter. Directories and meta names are apart from each other as they were
registered, but what is read back of them ends at the first NUL. So they are known to be in
order for a reader only where no text that the session was given has one. What came from the
file was read in the same way, and the words of documents never have one.

## Main definitions

* `Session.Distinct`: A session in which nothing is registered twice.
* `Volume.ListsOrdered`: A volume whose lists are in order.

## Theorems

* `Session.Distinct.extend`: So is a session that begins with any file.
* `Session.Distinct.run`: Whatever it is asked to do.
* `Session.extension_wellOrdered`: The index that it ends in is in order.
-/

namespace Concordance

/-- A volume whose stop words and meta names ascend, and whose directories are all different. -/
structure Volume.ListsOrdered (volume : Volume) : Prop where
  stopWords : volume.stopWords.Pairwise fun a b => Utf8.bytes a < Utf8.bytes b
  metaNames : volume.metaNames.Pairwise fun a b => Utf8.bytes a.1 < Utf8.bytes b.1
  directories : volume.directories.Nodup

namespace Session

variable {session : Session}

/-- A session in which nothing is registered twice. -/
structure Distinct (session : Session) : Prop where
  stopWords : session.stopWords.Distinct
  directories : session.directories.Nodup
  metaNames : NamesDistinct session.metaNames

/-- What is taken over from an index is put to what is there. -/
theorem Distinct.takeOver {taken : Session} {index : Index} (h : session.Distinct)
    (htaken : session.takeOver index = .ok taken) : taken.Distinct := by
  obtain ⟨stops, paths, files, names, -, -, -, -, rfl⟩ := exists_of_takeOver htaken
  exact ⟨h.stopWords.insertAll stops, foldl_addDirectory_nodup h.directories paths,
    h.metaNames.foldl_setMetaName names⟩

/-- Nothing is there twice in a session that has just taken over a file. -/
theorem Distinct.extend {disk : Disk} {path : String} {options : IndexingOptions}
    (h : extend? disk path options = .ok session) : session.Distinct := by
  rcases exists_of_extend? h with ⟨bytes, index, taken, -, -, htaken, rfl⟩
  have hempty : ({ options, stopWords := .empty } : Session).Distinct :=
    ⟨List.nodup_nil, List.nodup_nil, show NamesDistinct [] from List.nodup_nil⟩
  have hdistinct := hempty.takeOver htaken
  exact ⟨hdistinct.stopWords, hdistinct.directories, hdistinct.metaNames⟩

/-- Nor is it later on. -/
theorem Distinct.run (h : session.Distinct) (operations : List Operation) :
    (session.run operations).Distinct := by
  rcases session.run_registers operations with ⟨words, sinceFlush, runs, files, hrun⟩
  rw [hrun]
  exact ⟨h.stopWords, foldl_addDirectory_nodup h.directories _, h.metaNames.foldl_addName _⟩

/-- So what it ends in has its lists in order. -/
theorem Distinct.listsOrdered (h : session.Distinct) (merged : List WordPostings) :
    (session.volume merged).ListsOrdered :=
  ⟨(h.stopWords.insertAll _).sorted_ascend, h.metaNames.sorted_ascend, h.directories⟩

/-- A session that takes over any file, and is asked to do anything, ends in an index that is
    in order, if it can be ended at all. Words ascend, and each has postings of documents that
    ascend and are there, with ranks. Stop words and meta names ascend, and all directories
    are different. Readers find words and stop words so, and the other lists as well if what
    the session was given has no NUL in its texts. -/
theorem extension_wellOrdered {disk : Disk} {path : String} {options : IndexingOptions}
    (extend : extend? disk path options = .ok session) (stemmer : String → String)
    (operations : List Operation) {target after : Disk} {place : String}
    {summary : PublicationSummary}
    (h : ({ session with stemmer }.run operations).finish target place = (.ok summary, after)) :
    ∃ merged location,
      let done := { session with stemmer }.run operations
      let volume := done.volume merged
      done.Publishes summary volume.bytes ∧ target.placeOf place = .ok location
      ∧ after.item? location = some (.file volume.bytes)
      ∧ volume.WordsOrdered ∧ volume.ListsOrdered
      ∧ (volume.bytes.length < UInt64.size →
        ∃ index, Index.open? volume.bytes.toArray = .ok index ∧ index.ShowsWords volume
          ∧ collect ((index.segment .stopWords).entries.map (· >>= decodeText))
            = .ok volume.stopWords
          ∧ ((∀ op ∈ operations, op.Closable) → index.Lists volume)) := by
  have hbegun := (Begun.extended extend).closable
  have hstarted : ({ session with stemmer } : Session).Closable :=
    ⟨hbegun.stopWords, hbegun.directories, hbegun.files, hbegun.metaNames⟩
  have hdistinct : ({ session with stemmer } : Session).Distinct :=
    ⟨(Distinct.extend extend).stopWords, (Distinct.extend extend).directories,
      (Distinct.extend extend).metaNames⟩
  obtain ⟨segments, merged, location, -, hmerge, hwords, hpublishes, hlocation, hitem⟩ :=
    exists_volume_of_finish h
  refine ⟨merged, location, hpublishes, hlocation, hitem, hwords,
    (hdistinct.run operations).listsOrdered merged, fun hsize => ?_⟩
  rcases hwords.exists_index hsize with ⟨index, hopen, hshows⟩
  -- Operations leave the stop words as they were taken over.
  have hstops : ∀ word ∈ ({ session with stemmer }.run operations).stopWords.words,
      NulFree word := by
    rcases ({ session with stemmer } : Session).run_registers operations with ⟨_, _, _, _, hrun⟩
    rw [hrun]
    exact hbegun.stopWords
  refine ⟨index, hopen, hshows, ?_, fun closable => ?_⟩
  · exact Volume.collect_stopWords _ hsize hopen (nulFree_volume_stopWords hstops hmerge)
  · obtain ⟨index', hopen', -, -, hlists⟩ := Volume.open?_bytes _ hsize
    rcases Except.ok.inj (hopen.symm.trans hopen') with rfl
    exact hlists ((hstarted.run closable).volume hmerge)

/-- A file that has its texts twice is added to. A posting in it is of the document that is
    added, with a position behind those of the document, and then the postings of this word
    can not be read. -/
theorem extension_wellOrdered_of_disorder :
    let base : Volume := {
      words := [(Utf8.bytes "cats", [{ document := 0, occurrences := 1, positions := [7] }]),
        (Utf8.bytes "dogs", [{ document := 1, occurrences := 1, positions := [7] }])]
      stopWords := ["the", "the"]
      directories := [".", "."]
      files := [⟨0, "one", 4, 1, ""⟩]
      metaNames := [("title", 3), ("title", 4)] }
    let disk : Disk := { root := .directory [("index", .file base.bytes)] }
    let operations : List Operation := [.metaName "Title", .directory "letters",
      .file 1 "two" 14 none [.text "The dogs, cats." none]]
    (∀ op ∈ operations, op.Closable)
    ∧ ∃ session summary after merged location,
      let volume := (session.run operations).volume merged
      extend? disk "index" {} = .ok session
      ∧ (session.run operations).finish disk "index" = (.ok summary, after)
      ∧ disk.placeOf "index" = .ok location
      ∧ after.item? location = some (.file volume.bytes)
      ∧ volume.WordsOrdered ∧ volume.ListsOrdered ∧ volume.bytes.length < UInt64.size
      ∧ ∃ index, Index.open? volume.bytes.toArray = .ok index ∧ index.ShowsWords volume
        ∧ index.Lists volume := by
  intro base disk operations
  have hclosable : ∀ op ∈ operations, op.Closable := by decide
  let index : Index := ⟨base.bytes.toArray, base.sections.tables⟩
  let session : Session := {
    options := {}
    stopWords := StopWords.empty.insertAll base.stopWords
    files := base.files
    directories := ["."]
    metaNames := [("title", 4)]
    base := some index }
  -- What is taken over is read from the lists of the file, where each text is kept once.
  have hextend : extend? disk "index" {} = .ok session := by
    have hsize : base.bytes.length < UInt64.size := by decide +kernel
    have hbase : base.Closable :=
      ⟨by decide +kernel, by decide +kernel, fun record hrecord => by
        rw [List.mem_singleton.mp hrecord]
        exact ⟨by decide, by decide⟩, by decide +kernel⟩
    obtain ⟨index', hopen', -, -, hlists⟩ := base.open?_bytes hsize
    have hopen : Index.open? base.bytes.toArray = .ok index := Index.open?_eq hsize
    rcases Except.ok.inj (hopen'.symm.trans hopen) with rfl
    exact extend?_lists (Disk.openFile_root rfl) hopen (hlists hbase) rfl
  let merged : List WordPostings := [
    ⟨"cats", [{ document := 0, occurrences := 1, positions := [7] },
      { document := 1, occurrences := 1, positions := [2] }]⟩,
    ⟨"dogs", [{ document := 1, occurrences := 2, positions := [7, 1] }]⟩]
  have hsources : ((session.run operations).closed.sources >>= Merge.sources).toOption
      = some merged := by
    decide +kernel
  obtain ⟨segments, -, -, hvolume⟩ := exists_publishes_volume hsources (by decide +kernel)
  have hnot : ∀ inner, Node.lookup "index" [("index", .file base.bytes)]
      ≠ some (.directory inner) := fun _ => by simp [Node.lookup]
  -- Nothing is in the way of the new index but the old one, which it replaces.
  have hfinish := hvolume.finish_eq (Contents.publishBytes_root hnot _)
  obtain ⟨merged', location, hpublishes, hlocation, hitem, hwords, hlists, hread⟩ :=
    extension_wellOrdered hextend id operations hfinish
  have hsize : ((session.run operations).volume merged').bytes.length < UInt64.size := by
    rw [hpublishes.unique hvolume]
    exact Volume.length_bytes_lt (by decide +kernel)
  rcases hread hsize with ⟨index, hopen, hshows, -, hindex⟩
  exact ⟨hclosable, session, _, _, merged', location, hextend, hfinish, hlocation, hitem, hwords,
    hlists, hsize, index, hopen, hshows, hindex hclosable⟩

end Session

end Concordance
