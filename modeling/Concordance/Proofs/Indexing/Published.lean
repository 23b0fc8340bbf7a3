import Concordance.Proofs.Decoding
import Concordance.Proofs.Disk.Output
import Concordance.Proofs.Indexing.Flushing
import Concordance.Proofs.Indexing.Registration
import Concordance.Proofs.Size

/-!
# Published Indexes

What every index has in common that sessions have written, one upon the other.

A session begins anew, or with an index that another session has published, and so there
are chains of sessions behind an index. `Published` has one constructor for each, and
what is known of an index is an induction along the chain. It is that the index is a
sound volume. Nothing is asked of the texts in it for this, the stems of words apart. So
it holds where directories or titles can not be read back as well: a session that took
them over then has others, but as many documents.

An index is said to be published by what its session does wherever a file can be written.
There is only one such index (`Session.Publishes.unique`), and to see this it is enough to
look at one file in one place.

## Main definitions

* `Session.EndsIn`: A session that publishes an index after it was asked to do something.
* `Published`: The bytes of an index that sessions have written.
* `Index.Sound`: An index that decodes, with words in order and documents that are there.

## Theorems

* `Session.Publishes.unique`: A session publishes one index.
* `Session.exists_of_extend?`, `Session.extend?_lists`: How a session that adds to an index
  begins.
* `Published.exists_session`: A published index is what a session ends in, and sound.
* `Published.exists_index`: It opens as a sound index.
-/

namespace Concordance

namespace Session

/-- A session publishes one index. -/
theorem Publishes.unique {session : Session} {summary summary' : PublicationSummary}
    {bytes bytes' : Bytes} (h : session.Publishes summary bytes)
    (h' : session.Publishes summary' bytes') : bytes = bytes' := by
  have heq := (h {} "index").symm.trans (h' {} "index")
  simp only [Contents.publishBytes_empty, Prod.mk.injEq, Disk.mk.injEq, Node.directory.injEq,
    List.cons.injEq, Node.file.injEq, and_true, true_and] at heq
  exact heq.2

/-- And it reports one thing. -/
theorem Publishes.unique_summary {session : Session} {summary summary' : PublicationSummary}
    {bytes bytes' : Bytes} (h : session.Publishes summary bytes)
    (h' : session.Publishes summary' bytes') : summary = summary' := by
  have heq := (h {} "index").symm.trans (h' {} "index")
  simp only [Contents.publishBytes_empty, Prod.mk.injEq, Except.ok.injEq] at heq
  exact heq.1

/-- A session that has begun, and publishes an index once it was asked to do several
    things. Its stems can be stored, documents can be told apart by their ids, and its
    files are no larger than files can be. -/
structure EndsIn (session : Session) (stemmer : String → String) (operations : List Operation)
    (bytes : Bytes) : Prop where
  nulFree : StemsNulFree session.options.sizes stemmer
  room : session.files.length + (records operations).length < UInt32.size
  fit : ({ session with stemmer }.run operations).RunsFit
  publishes : ∃ summary, ({ session with stemmer }.run operations).Publishes summary bytes
  size : bytes.length < UInt64.size

/-- What it publishes is what it ends in, and a sound volume. -/
theorem EndsIn.exists_merged {session : Session} {stemmer : String → String}
    {operations : List Operation} {bytes : Bytes} (h : session.EndsIn stemmer operations bytes)
    {base : WordMap} (hbegun : { session with stemmer }.HasRecorded base []) :
    ∃ merged, bytes = (({ session with stemmer }.run operations).volume merged).bytes
      ∧ (({ session with stemmer }.run operations).volume merged).Sound
      ∧ ({ session with stemmer }.run operations).files.length < UInt32.size := by
  -- What the session logs, it merges; and what it merges is what it writes.
  have hroom := Nat.le_of_lt h.room
  have hdone := hbegun.run (acceptsNulFree_of_stems h.nulFree) hroom
  rcases hdone.publishes h.fit with ⟨merged, sources, hmerges, hpublishes⟩
  rcases h.publishes with ⟨summary, hbytes⟩
  refine ⟨merged, hbytes.unique hpublishes, hdone.volume_sound hmerges, ?_⟩
  rw [length_files_run { session with stemmer } operations hroom]
  exact h.room

/-- A session that adds to an index has taken it over at its beginning. -/
theorem exists_of_extend? {disk : Disk} {path : String} {options : IndexingOptions}
    {session : Session} (h : extend? disk path options = .ok session) :
    ∃ bytes index taken, disk.openFile path = .ok bytes ∧ Index.open? bytes.toArray = .ok index
      ∧ takeOver { options, stopWords := .empty } index = .ok taken
      ∧ session = { taken with base := some index } := by
  rcases hfile : disk.openFile path with cause | bytes
  · rw [extend?, hfile] at h
    exact absurd h (by simp)
  · rw [extend?, hfile] at h
    rcases exists_of_bind h with ⟨index, hopen, h⟩
    rcases exists_of_bind h with ⟨started, hstarted, h⟩
    rcases eq_of_start? hstarted with rfl
    rcases exists_of_bind h with ⟨taken, htaken, h⟩
    exact ⟨bytes, index, taken, rfl, hopen, htaken, (Except.ok.inj h).symm⟩

/-- Adding to an index is starting from what it says. -/
theorem extend?_lists {disk : Disk} {path : String} {options : IndexingOptions} {bytes : Bytes}
    {index : Index} {volume : Volume} {started : Session}
    (hfile : disk.openFile path = .ok bytes) (hopen : Index.open? bytes.toArray = .ok index)
    (hlists : index.Lists volume) (hstarted : start? disk options .empty = .ok started) :
    extend? disk path options = .ok {
      options
      stopWords := StopWords.empty.insertAll volume.stopWords
      files := volume.files
      directories := volume.directories.foldl addDirectory []
      metaNames := volume.metaNames.foldl (fun all (name, id) => setMetaName name id all) []
      base := some index } := by
  rcases eq_of_start? hstarted with rfl
  simp only [extend?, hfile, hopen, hstarted, bind, Except.bind, takeOver_eq hlists]

/-- It has as many documents as the index, and its words to begin with. Its stop words are
    those of the index. -/
theorem extend?_keeps {disk : Disk} {path : String} {options : IndexingOptions} {bytes : Bytes}
    {index : Index} {session : Session} (hfile : disk.openFile path = .ok bytes)
    (hopen : Index.open? bytes.toArray = .ok index)
    (h : extend? disk path options = .ok session) :
    session.words = [] ∧ session.runs = [] ∧ session.base = some index
      ∧ session.files.length = index.numDocuments
      ∧ ∃ stops, collect ((index.segment .stopWords).entries.map (· >>= decodeText)) = .ok stops
        ∧ session.stopWords = StopWords.empty.insertAll stops := by
  rcases exists_of_extend? h with ⟨bytes', index', taken, hfile', hopen', htaken, rfl⟩
  rcases Except.ok.inj (hfile'.symm.trans hfile) with rfl
  rcases Except.ok.inj (hopen'.symm.trans hopen) with rfl
  rcases exists_of_takeOver htaken with ⟨stops, paths, files, names, hstops, -, hfiles, -, rfl⟩
  exact ⟨rfl, rfl, rfl, Segment.length_of_collect_entries hfiles, stops, hstops, rfl⟩

/-- It has recorded nothing yet, if the index is a sound volume. -/
theorem HasRecorded.extend {disk : Disk} {path : String} {options : IndexingOptions}
    {volume : Volume} (hsound : volume.Sound) (hsize : volume.bytes.length < UInt64.size)
    (hfile : disk.openFile path = .ok volume.bytes) {session : Session}
    (h : extend? disk path options = .ok session) (stemmer : String → String) :
    { session with stemmer }.HasRecorded volume.words [] := by
  rcases volume.open?_bytes hsize with ⟨index, hopen, hcount, hwords, -⟩
  rcases extend?_keeps hfile hopen h with ⟨hempty, hruns, hbase, hlength, -⟩
  have hholds : { session with stemmer }.BaseHolds volume.words := by
    rw [BaseHolds, hbase]
    exact hwords hsound.storable
  refine HasRecorded.start hempty hruns hholds hsound.proper hsound.tidy hsound.storable ?_
  intro e he p hp
  show p.document.toNat < session.files.length
  rw [hlength, hcount]
  exact hsound.inside e he p hp

end Session

/-- The bytes of an index that a session has written, which began anew or with such an
    index. -/
inductive Published : Bytes → Prop
  | new {disk : Disk} {options : IndexingOptions} {stopWords : StopWords} {session : Session}
    {stemmer : String → String} {operations : List Operation} {bytes : Bytes}
    (start : Session.start? disk options stopWords = .ok session)
    (ends : session.EndsIn stemmer operations bytes) : Published bytes
  | extended {base : Bytes} {disk : Disk} {path : String} {options : IndexingOptions}
    {session : Session} {stemmer : String → String} {operations : List Operation} {bytes : Bytes}
    (published : Published base) (file : disk.openFile path = .ok base)
    (extend : Session.extend? disk path options = .ok session)
    (ends : session.EndsIn stemmer operations bytes) : Published bytes

/-- An index that decodes, with words in order, and with postings of documents that are
    there. -/
structure Index.Sound (index : Index) (words : List WordPostings) : Prop where
  decode : index.decodeWords = .ok words
  proper : (WordPostings.table words).Proper
  tidy : ∀ entry ∈ words, TidyPostings entry.postings
  inside : ∀ entry ∈ words, ∀ p ∈ entry.postings, p.document.toNat < index.numDocuments
  count : index.numDocuments < UInt32.size

/-- A sound volume opens as a sound index, with its words and as many documents. -/
theorem Volume.Sound.exists_index {volume : Volume} (h : volume.Sound)
    (hsize : volume.bytes.length < UInt64.size) (hcount : volume.files.length < UInt32.size) :
    ∃ index words, Index.open? volume.bytes.toArray = .ok index ∧ index.Sound words
      ∧ WordPostings.table words = volume.words ∧ index.numDocuments = volume.files.length := by
  rcases volume.open?_bytes hsize with ⟨index, hopen, hfiles, hwords, -⟩
  rcases Index.decodeWords_of_holds (hwords h.storable) with ⟨words, hdecode, htable⟩
  have hmem : ∀ entry ∈ words, (Utf8.bytes entry.word, entry.postings) ∈ volume.words :=
    fun entry hentry => htable ▸ List.mem_map_of_mem hentry
  refine ⟨index, words, hopen, ⟨hdecode, htable ▸ h.proper, fun entry hentry => ?_,
    fun entry hentry p hp => ?_, hfiles ▸ hcount⟩, htable, hfiles⟩
  · exact h.tidy _ (hmem entry hentry)
  · rw [hfiles]
    exact h.inside _ (hmem entry hentry) p hp

namespace Published

theorem size {bytes : Bytes} (h : Published bytes) : bytes.length < UInt64.size := by
  cases h with
  | new _ ends => exact ends.size
  | extended _ _ _ ends => exact ends.size

/-- A new session with stems as words publishes a sound index, where it was computed what it
    merges. -/
theorem of_merge {options : IndexingOptions} {stopWords : StopWords} {operations : List Operation}
    {merged : List WordPostings}
    (start : Session.start? {} options stopWords = .ok { options, stopWords })
    (room : (records operations).length < UInt32.size)
    (fit : (({ options, stopWords } : Session).run operations).RunsFit)
    (merges : ((({ options, stopWords } : Session).run operations).closed.sources
      >>= Merge.sources).toOption = some merged)
    (size : ((({ options, stopWords } : Session).run operations).volume merged).sizeBound
      < UInt64.size) :
    Published ((({ options, stopWords } : Session).run operations).volume merged).bytes
      ∧ ((({ options, stopWords } : Session).run operations).volume merged).Sound := by
  have hdone := Session.HasRecorded.new_run options stopWords (stemsNulFree_id _)
    (Nat.le_of_lt room)
  obtain ⟨segments, merged', hsources, hmerge, hproper, hpostings⟩ :=
    Session.closed_merge hdone.logged hdone.holds hdone.follows fit
  -- There is one list that the runs merge to.
  have hmerged : ((({ options, stopWords } : Session).run operations).closed.sources
      >>= Merge.sources) = .ok merged' := by
    rw [hsources]
    exact hmerge
  rcases Except.ok.inj ((eq_ok_of_toOption merges).symm.trans hmerged) with rfl
  have hmerges : Session.Merges [] _ merged := ⟨hproper, hpostings⟩
  have hends : Session.EndsIn { options, stopWords } id operations
      ((({ options, stopWords } : Session).run operations).volume merged).bytes :=
    ⟨stemsNulFree_id _, show 0 + _ < _ by omega, fit, ⟨_, Session.publishes_volume hsources hmerge
      fun word hword => hmerges.inside hdone hword⟩, Volume.length_bytes_lt size⟩
  exact ⟨.new start hends, hdone.volume_sound hmerges⟩

/-- A published index is what a session ends in, and a sound volume. -/
theorem exists_session {bytes : Bytes} (h : Published bytes) :
    ∃ (session : Session) (merged : List WordPostings), bytes = (session.volume merged).bytes
      ∧ (session.volume merged).Sound ∧ session.files.length < UInt32.size := by
  induction h with
  | new start ends =>
    rcases Session.eq_of_start? start with rfl
    exact ⟨_, ends.exists_merged (Session.HasRecorded.new _ _ _)⟩
  | extended published file extend ends ih =>
    rcases ih with ⟨base, merged, rfl, hsound, -⟩
    exact ⟨_, ends.exists_merged (Session.HasRecorded.extend hsound published.size file extend _)⟩

/-- It opens as a sound index. -/
theorem exists_index {bytes : Bytes} (h : Published bytes) :
    ∃ index words, Index.open? bytes.toArray = .ok index ∧ index.Sound words := by
  rcases h.exists_session with ⟨session, merged, rfl, hsound, hcount⟩
  rcases hsound.exists_index h.size hcount with ⟨index, words, hopen, hindex, -, -⟩
  exact ⟨index, words, hopen, hindex⟩

end Published

end Concordance
