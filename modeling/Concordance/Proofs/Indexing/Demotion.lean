import Concordance.Proofs.Indexing.Atomicity
import Concordance.Proofs.Indexing.Built
import Concordance.Proofs.Lookups
import Concordance.Proofs.Merge.Anything
import Concordance.Proofs.Query.Ignored

/-!
# Words That Become Stop Words

The words that a session merges are split by its limit, and stay apart in all that follows.

A word is demoted for the number of its documents, and this is known only when all sources
have been merged. What was a stop word before was looked for much earlier, when a word was
read. That both add up to two sets without a word in common is an invariant of a chain of
sessions (`Session.Apart`). A session begins with stop words that no word of its index is
one of. It records none of them. So what it merges has none of them either, and of merged
words each is demoted or kept. These are the stop words and the words that the next session
begins with, since what can be closed is read back as it was.

## Main definitions

* `SpreadLimit.Exceeded`: A limit that is exceeded, in numbers.
* `Session.Chained`: A session at the end of a chain of sessions.
* `Session.Apart`: A session of which no stop word is a word of its index.
* `Index.Splits`: An index in which merged words are split by a limit.

## Theorems

* `Session.Chained.exists_apart`: Stop words stay apart along a chain.
* `Session.demotion_splits`: A session at its end splits what it merges.
-/

namespace Concordance

/-- More documents than a limit allows, or a larger part of all of them. -/
def SpreadLimit.Exceeded (limit : SpreadLimit) (documents total : Nat) : Prop :=
  limit.maxDocuments < documents
    ∨ limit.maxPercent < 100 ∧ limit.maxPercent * total < 100 * documents

theorem SpreadLimit.exceededBy_iff {limit : SpreadLimit} {documents total : Nat} :
    limit.exceededBy documents total = true ↔ limit.Exceeded documents total := by
  simp only [exceededBy, Exceeded, Bool.or_eq_true, Bool.and_eq_true, decide_eq_true_eq]

namespace Session

/-- A session that begins anew, with stop words that can be closed, or with an index that
    such a session has published. -/
inductive Chained : Session → Prop
  | new {disk : Disk} {options : IndexingOptions} {stopWords : StopWords} {session : Session}
    (distinct : stopWords.Distinct) (closable : ∀ word ∈ stopWords.words, NulFree word)
    (start : start? disk options stopWords = .ok session) : Chained session
  | extended {before session : Session} {stemmer : String → String}
    {operations : List Operation} {bytes : Bytes} {disk : Disk} {path : String}
    {options : IndexingOptions} (chained : Chained before)
    (ends : before.EndsIn stemmer operations bytes) (file : disk.openFile path = .ok bytes)
    (extend : extend? disk path options = .ok session) : Chained session

/-- A session that has recorded nothing, and has no word of its index for a stop word. -/
structure Apart (session : Session) (base : WordMap) : Prop where
  recorded : ∀ stemmer, { session with stemmer }.HasRecorded base []
  distinct : session.stopWords.Distinct
  closable : ∀ word ∈ session.stopWords.words, NulFree word
  apart : ∀ e ∈ base, ∀ word ∈ session.stopWords.words, e.1 ≠ Utf8.bytes word

/-- Words with the same name have the same postings. -/
theorem Merges.postings_unique {base : WordMap} {log : Log} {merged : List WordPostings}
    (h : Merges base log merged) {word other : WordPostings} (hword : word ∈ merged)
    (hother : other ∈ merged) (hsame : word.word = other.word) :
    word.postings = other.postings := by
  rw [h.postings_eq hword, h.postings_eq hother, hsame]

section Merged

variable {session : Session} {base : WordMap} {start : Nat} {corpus : List (List Candidate)}
  {merged : List WordPostings}

/-- No merged word is a stop word, if no word of the base is. -/
theorem Merges.notMem_stopWords (h : Merges base (Log.ofCorpus session.accept start corpus) merged)
    (hapart : ∀ e ∈ base, ∀ word ∈ session.stopWords.words, e.1 ≠ Utf8.bytes word)
    {word : WordPostings} (hword : word ∈ merged) : word.word ∉ session.stopWords.words := by
  intro hstop
  -- A merged word has a posting, which is either one of the base or one that was recorded.
  rcases List.exists_mem_of_ne_nil _ (h.proper.nonempty _ (List.mem_map_of_mem hword)) with ⟨p, hp⟩
  rw [h.postings_eq hword] at hp
  rcases List.mem_append.mp hp with hp | hp
  · exact hapart _ (WordMap.mem_of_postingsOf (List.ne_nil_of_mem hp)) _ hstop rfl
  · -- What was recorded is a stem that was accepted.
    rcases exists_of_mem_fuse hp with ⟨q, hq, -⟩
    rcases List.mem_map.mp hq with ⟨occurrence, hmem, -⟩
    rcases List.mem_filter.mp hmem with ⟨hmem, hkey⟩
    rcases Log.mem_ofCorpus.mp hmem with ⟨i, candidates, -, hmem⟩
    rcases Log.mem_ofDocument.mp hmem with ⟨j, candidate, stem, -, haccept, rfl⟩
    have hstem : stem = word.word := Utf8.bytes_injective (of_decide_eq_true hkey)
    have hfree := (accept_eq_some_iff.mp haccept).2.2.1
    rw [hstem, StopWords.contains_iff.mpr hstop] at hfree
    exact absurd hfree (by simp)

theorem mem_demoted {stop : String} : stop ∈ session.demoted merged
    ↔ ∃ word ∈ merged, session.tooCommon word = true ∧ word.word = stop := by
  simp only [demoted, List.mem_map, List.mem_filter, and_assoc]

/-- The stop words that a session publishes are those that it has and the demoted ones. -/
theorem mem_stopWords_volume {stop : String} : stop ∈ (session.volume merged).stopWords
    ↔ stop ∈ session.stopWords.words ∨ stop ∈ session.demoted merged :=
  List.mem_mergeSort.trans StopWords.mem_insertAll

/-- A word that is kept is not demoted as well. -/
theorem Merges.notMem_demoted {log : Log} (h : Merges base log merged) {word : WordPostings}
    (hword : word ∈ merged) (hrare : session.tooCommon word = false) :
    word.word ∉ session.demoted merged := by
  intro hin
  -- A demoted word of the same name would have the same postings.
  rcases mem_demoted.mp hin with ⟨other, hother, hcommon, hsame⟩
  rw [tooCommon, h.postings_unique hother hword hsame] at hcommon
  exact absurd (hcommon.symm.trans hrare) (by simp)

/-- No word that a session publishes is one of the stop words that it publishes. -/
theorem Merges.volume_apart {log : Log} (h : Merges base log merged) {done : Session}
    (hfree : ∀ word ∈ merged, word.word ∉ done.stopWords.words) :
    ∀ e ∈ (done.volume merged).words, ∀ word ∈ (done.volume merged).stopWords,
      e.1 ≠ Utf8.bytes word := by
  intro e he stop hstop heq
  rcases exists_of_mem_volume he with ⟨word, hword, hkept, rfl⟩
  rcases Utf8.bytes_injective heq with rfl
  rcases mem_stopWords_volume.mp hstop with hin | hdemoted
  · exact hfree word hword hin
  · exact h.notMem_demoted hword hkept hdemoted

end Merged

/-- What a session leaves as it is, whatever it is asked to do. -/
theorem run_settings (session : Session) (operations : List Operation)
    (hroom : session.files.length + (records operations).length ≤ UInt32.size) :
    (session.run operations).stopWords = session.stopWords
      ∧ (session.run operations).options = session.options := by
  rcases session.run_keeps operations hroom with ⟨words, sinceFlush, runs, hkeeps⟩
  rw [hkeeps]
  exact ⟨rfl, rfl⟩

/-- What is merged at the end of a session has none of its stop words. -/
theorem Apart.exists_merged {session : Session} {base : WordMap} (h : session.Apart base)
    {stemmer : String → String} (hnul : StemsNulFree session.options.sizes stemmer)
    {operations : List Operation}
    (hroom : session.files.length + (records operations).length < UInt32.size)
    (hfit : ({ session with stemmer }.run operations).RunsFit) :
    ∃ log segments merged, ({ session with stemmer }.run operations).HasRecorded base log
      ∧ ({ session with stemmer }.run operations).closed.sources = .ok segments
      ∧ Merge.sources segments = .ok merged ∧ Merges base log merged
      ∧ ∀ word ∈ merged, word.word ∉ session.stopWords.words := by
  have hdone := (h.recorded stemmer).run (acceptsNulFree_of_stems hnul) (Nat.le_of_lt hroom)
  obtain ⟨segments, merged, hsources, hmerge, hproper, hpostings⟩ :=
    closed_merge hdone.logged hdone.holds hdone.follows hfit
  have hmerges : Merges base _ merged := ⟨hproper, hpostings⟩
  exact ⟨_, segments, merged, hdone, hsources, hmerge, hmerges,
    fun word hword hstop => hmerges.notMem_stopWords h.apart hword hstop⟩

/-- A session begins apart with an index that has words apart from stop words. -/
theorem Apart.of_volume {volume : Volume} (hsound : volume.Sound)
    (hsize : volume.bytes.length < UInt64.size) (hnul : ∀ word ∈ volume.stopWords, NulFree word)
    (hapart : ∀ e ∈ volume.words, ∀ word ∈ volume.stopWords, e.1 ≠ Utf8.bytes word)
    {disk : Disk} {path : String} (hfile : disk.openFile path = .ok volume.bytes)
    {options : IndexingOptions} {session : Session}
    (h : extend? disk path options = .ok session) : session.Apart volume.words := by
  -- Stop words that can be closed are stop words of the next session.
  have hstops : session.stopWords = StopWords.empty.insertAll volume.stopWords := by
    rcases volume.open?_bytes hsize with ⟨index, hopen, -⟩
    rcases extend?_keeps hfile hopen h with ⟨-, -, -, -, stops, hread, hstops⟩
    rcases Except.ok.inj (hread.symm.trans (volume.collect_stopWords hsize hopen hnul)) with rfl
    exact hstops
  have hempty : StopWords.empty.Distinct := List.Pairwise.nil
  have hmem : ∀ word ∈ session.stopWords.words, word ∈ volume.stopWords := fun word hword =>
    (StopWords.mem_insertAll.mp (hstops ▸ hword)).resolve_left List.not_mem_nil
  exact ⟨HasRecorded.extend hsound hsize hfile h, hstops ▸ hempty.insertAll _,
    fun word hword => hnul word (hmem word hword),
    fun e he word hword => hapart e he word (hmem word hword)⟩

/-- The stop words that a session publishes can be closed. -/
theorem Apart.nulFree_stopWords {session : Session} {base : WordMap} (h : session.Apart base)
    {segments : List Segment} {merged : List WordPostings}
    (hmerge : Merge.sources segments = .ok merged) {done : Session}
    (hdone : done.stopWords = session.stopWords) :
    ∀ word ∈ (done.volume merged).stopWords, NulFree word := by
  intro word hword
  rcases mem_stopWords_volume.mp hword with hin | hdemoted
  · exact h.closable word (hdone ▸ hin)
  · rcases mem_demoted.mp hdemoted with ⟨entry, hentry, -, rfl⟩
    exact Merge.nulFree_of_sources hmerge entry hentry

/-- Stop words stay apart along a chain. -/
theorem Chained.exists_apart {session : Session} (h : session.Chained) :
    ∃ base, session.Apart base := by
  induction h with
  | @new disk options stopWords session distinct closable start =>
    rcases eq_of_start? start with rfl
    exact ⟨[], fun stemmer => HasRecorded.new options stemmer stopWords, distinct, closable,
      fun e he => absurd he List.not_mem_nil⟩
  -- The next session begins with the stop words that the last one has stored.
  | @extended before session stemmer operations bytes disk path options chained ends file extend
      ih =>
    rcases ih with ⟨base, hbase⟩
    obtain ⟨log, segments, merged, hdone, hsources, hmerge, hmerges, hfree⟩ :=
      hbase.exists_merged ends.nulFree ends.room ends.fit
    have hsettings := run_settings { before with stemmer } operations (Nat.le_of_lt ends.room)
    rcases ends.publishes with ⟨summary, hpublishes⟩
    rcases hpublishes.unique (publishes_volume hsources hmerge
      fun word hword => hmerges.inside hdone hword) with rfl
    exact ⟨_, Apart.of_volume (hdone.volume_sound hmerges) ends.size
      (hbase.nulFree_stopWords hmerge hsettings.1)
      (hmerges.volume_apart (by rw [hsettings.1]; exact hfree)) file extend⟩

end Session

/-- An index of merged words, of which those that exceed a limit were made stop words. -/
structure Index.Splits (index : Index) (limit : SpreadLimit) (files : List Record)
    (initial : StopWords) (merged : List WordPostings) (summary : PublicationSummary)
    (words : List WordPostings) (stops : List String) : Prop where
  decodeWords : index.decodeWords = .ok words
  decodeStops : collect ((index.segment .stopWords).entries.map (· >>= decodeText)) = .ok stops
  total : index.numDocuments = files.length
  /-- A merged word has one posting for each of its documents. -/
  documents : ∀ word ∈ merged, word.postings.Pairwise (fun p q => p.document < q.document)
    ∧ ∀ p ∈ word.postings, p.document.toNat < index.numDocuments
  demoted : ∀ word ∈ merged, limit.Exceeded word.postings.length index.numDocuments →
    word.word ∈ summary.demoted ∧ word.word ∈ stops ∧ ∀ entry ∈ words, entry.word ≠ word.word
  kept : ∀ word ∈ merged, ¬ limit.Exceeded word.postings.length index.numDocuments →
    word.withRanks files ∈ words ∧ word.word ∉ summary.demoted
  /-- Nothing comes from elsewhere. -/
  words_merged : ∀ entry ∈ words, ∃ word ∈ merged, entry = word.withRanks files
  demoted_merged : ∀ stop ∈ summary.demoted, ∃ word ∈ merged, stop = word.word
  ascend : stops.Pairwise fun a b => Utf8.bytes a < Utf8.bytes b
  mem_stops : ∀ stop, stop ∈ stops ↔ stop ∈ initial.words ∨ stop ∈ summary.demoted
  apart : ∀ entry ∈ words, entry.word ∉ stops
  counts : summary.words = index.words.size
    ∧ summary.stopWords = (index.segment .stopWords).size
  /-- A query under the same limit is told of nothing but what was left out in reading. -/
  unignored : ∀ (search : SearchOptions) (stemmer : String → String) (query : String)
    (tree : QueryTree) (left : WordSet), search.spread = limit → search.validate = .ok () →
    Searcher.parse ⟨index, search, stemmer⟩ query = .ok (tree, left) →
      ∃ ranked, Searcher.ranked ⟨index, search, stemmer⟩ query = .ok (ranked, WordSet.union [] left)

namespace Session

section Published

variable {done : Session} {base : WordMap} {log : Log} {merged : List WordPostings}

theorem tooCommon_iff {word : WordPostings} : done.tooCommon word = true
    ↔ done.options.spread.Exceeded word.postings.length done.files.length :=
  SpreadLimit.exceededBy_iff

/-- A session whose stop words are none of its merged words splits these. -/
theorem Merges.splits (h : Merges base log merged) (hrecorded : done.HasRecorded base log)
    (hfree : ∀ word ∈ merged, word.word ∉ done.stopWords.words)
    (hdistinct : done.stopWords.Distinct)
    (hnul : ∀ word ∈ (done.volume merged).stopWords, NulFree word)
    (hcount : done.files.length < UInt32.size)
    (hsize : (done.volume merged).bytes.length < UInt64.size) (sources : Nat) :
    ∃ index words, Index.open? (done.volume merged).bytes.toArray = .ok index
      ∧ index.Splits done.options.spread done.files done.stopWords merged
        (done.summary merged sources) words (done.volume merged).stopWords := by
  obtain ⟨index, words, hopen, hsound, htable, htotal⟩ :=
    (hrecorded.volume_sound h).exists_index hsize hcount
  have htotal : index.numDocuments = done.files.length := htotal
  have hwords := words_eq_of_volume htable
  have hstops := (done.volume merged).collect_stopWords hsize hopen hnul
  have hmem : ∀ entry, entry ∈ words
      ↔ ∃ word ∈ merged, done.tooCommon word = false ∧ word.withRanks done.files = entry := by
    intro entry
    rw [hwords]
    simp only [List.mem_map, List.mem_filter, Bool.not_eq_true', and_assoc]
  -- The volume has its words apart from its stop words, and what is read is what it has.
  have hentry : ∀ entry ∈ words, entry.word ∉ (done.volume merged).stopWords := by
    intro entry hentry hin
    have hvolume : (Utf8.bytes entry.word, entry.postings) ∈ (done.volume merged).words := by
      rw [← htable]
      exact List.mem_map_of_mem hentry
    exact h.volume_apart hfree _ hvolume _ hin rfl
  exact ⟨index, words, hopen, {
    decodeWords := hsound.decode
    decodeStops := hstops
    total := htotal
    documents := fun word hword =>
      ⟨(h.tidy hrecorded.follows hword).ascending, htotal ▸ h.inside hrecorded hword⟩
    demoted := fun word hword hmany => by
      have hin := mem_demoted.mpr ⟨word, hword, tooCommon_iff.mpr (htotal ▸ hmany), rfl⟩
      have hstop := mem_stopWords_volume.mpr (Or.inr hin)
      exact ⟨hin, hstop, fun entry hentry' hsame => hentry entry hentry' (hsame ▸ hstop)⟩
    kept := fun word hword hfew => by
      have hrare : done.tooCommon word = false :=
        Bool.eq_false_iff.mpr fun hcommon => hfew (htotal ▸ tooCommon_iff.mp hcommon)
      exact ⟨(hmem _).mpr ⟨word, hword, hrare, rfl⟩, h.notMem_demoted hword hrare⟩
    words_merged := fun entry hentry => by
      rcases (hmem entry).mp hentry with ⟨word, hword, -, rfl⟩
      exact ⟨word, hword, rfl⟩
    demoted_merged := fun stop hin => by
      rcases mem_demoted.mp hin with ⟨word, hword, -, rfl⟩
      exact ⟨word, hword, rfl⟩
    ascend := (hdistinct.insertAll _).sorted_ascend
    mem_stops := fun stop => mem_stopWords_volume
    apart := hentry
    counts := by
      have hlength := congrArg List.length htable
      rw [WordPostings.table, List.length_map] at hlength
      exact ⟨hlength.symm.trans (Index.length_of_decodeWords hsound.decode),
        Segment.length_of_collect_entries hstops⟩
    unignored := fun search stemmer query tree left hspread hvalid hparse => by
      refine Searcher.ranked_of_rare hsound (fun entry hentry => ?_) hvalid hparse
      rcases (hmem entry).mp hentry with ⟨word, -, hrare, rfl⟩
      rw [length_withRanks]
      exact hspread ▸ htotal ▸ hrare }⟩

end Published

/-- A session at the end of a chain splits what it merges, whatever its limit is. Each
    merged word becomes a stop word if it exceeds the limit, and is a word of the index with
    all its postings if it does not. The stop words of the index are those that the session
    began with and these, and none of them is a word of the index. -/
theorem demotion_splits {session : Session} (chained : session.Chained)
    {stemmer : String → String} (nulFree : StemsNulFree session.options.sizes stemmer)
    {operations : List Operation}
    (room : session.files.length + (records operations).length < UInt32.size)
    (fit : ({ session with stemmer }.run operations).RunsFit) {disk after : Disk} {path : String}
    {summary : PublicationSummary}
    (h : ({ session with stemmer }.run operations).finish disk path = (.ok summary, after)) :
    ∃ segments merged bytes location,
      ({ session with stemmer }.run operations).closed.sources = .ok segments
      ∧ Merge.sources segments = .ok merged
      ∧ ({ session with stemmer }.run operations).Publishes summary bytes
      ∧ disk.placeOf path = .ok location ∧ after.item? location = some (.file bytes)
      ∧ (bytes.length < UInt64.size → ∃ index words stops, Index.open? bytes.toArray = .ok index
        ∧ index.Splits session.options.spread ({ session with stemmer }.run operations).files
          session.stopWords merged summary words stops) := by
  rcases chained.exists_apart with ⟨base, hapart⟩
  obtain ⟨log, segments, merged, hdone, hsources, hmerge, hmerges, hfree⟩ :=
    hapart.exists_merged nulFree room fit
  have hcount : ({ session with stemmer }.run operations).files.length < UInt32.size := by
    rw [length_files_run { session with stemmer } operations (Nat.le_of_lt room)]
    exact room
  rcases run_settings { session with stemmer } operations (Nat.le_of_lt room) with
    ⟨hstops, hoptions⟩
  rcases finish_ok h with ⟨bytes, location, hpublishes, hlocation, hgains⟩
  -- Only one volume can be published, so that the bytes on the disk are those of the merged words.
  have hvolume := publishes_volume hsources hmerge fun word hword => hmerges.inside hdone hword
  refine ⟨segments, merged, bytes, location, hsources, hmerge, hpublishes, hlocation,
    by rw [hgains, if_pos rfl], fun hsize => ?_⟩
  rcases hpublishes.unique hvolume with rfl
  rcases hpublishes.unique_summary hvolume with rfl
  obtain ⟨index, words, hopen, hsplits⟩ := hmerges.splits hdone (by rw [hstops]; exact hfree)
    (by rw [hstops]; exact hapart.distinct) (hapart.nulFree_stopWords hmerge hstops) hcount hsize
    segments.length
  rw [hstops, hoptions] at hsplits
  exact ⟨index, words, _, hopen, hsplits⟩

/-- A word of two documents is demoted, and stored beside the stop word that there was. -/
theorem demotion_splits_of_two :
    let options : IndexingOptions := { spread := { maxDocuments := 1 } }
    let session : Session := { options, stopWords := ⟨["the"]⟩ }
    let operations : List Operation := [.file 0 "one" 15 none [.text "The cats, dogs." none],
      .file 0 "two" 4 none [.text "Dogs" none]]
    session.Chained ∧ StemsNulFree session.options.sizes id
    ∧ session.files.length + (records operations).length < UInt32.size
    ∧ (session.run operations).RunsFit
    ∧ ∃ summary after segments merged bytes location index words stops,
      (session.run operations).finish {} "index" = (.ok summary, after)
      ∧ (session.run operations).closed.sources = .ok segments
      ∧ Merge.sources segments = .ok merged
      ∧ merged.map WordPostings.word = ["cats", "dogs"] ∧ summary.demoted = ["dogs"]
      ∧ Disk.placeOf {} "index" = .ok location ∧ after.item? location = some (.file bytes)
      ∧ bytes.length < UInt64.size ∧ Index.open? bytes.toArray = .ok index
      ∧ index.Splits options.spread (session.run operations).files ⟨["the"]⟩ merged summary
        words stops := by
  intro options session operations
  have hstart : start? {} options ⟨["the"]⟩ = .ok session := rfl
  have hchained : session.Chained := .new (List.pairwise_singleton _ _) (by decide) hstart
  have hfit : (session.run operations).RunsFit := by decide +kernel
  let merged : List WordPostings := [
    ⟨"cats", [{ document := 0, occurrences := 1, positions := [1] }]⟩,
    ⟨"dogs", [{ document := 0, occurrences := 1, positions := [2] },
      { document := 1, occurrences := 1, positions := [0] }]⟩]
  have hsources : ((session.run operations).closed.sources >>= Merge.sources).toOption
      = some merged := by
    decide +kernel
  obtain ⟨segments, hsegments, hmerge, hvolume⟩ :=
    exists_publishes_volume hsources (by decide +kernel)
  have hdemoted : (session.run operations).demoted merged = ["dogs"] := by decide +kernel
  have hreported : ((session.run operations).summary merged segments.length).demoted
      = ["dogs"] := by
    rw [Session.summary, hdemoted]
  have hfinish := hvolume.finish_eq (Contents.publishBytes_empty _)
  obtain ⟨segments', merged', bytes, location, hsegments', hmerge', hpublishes, hlocation, hitem,
    hsplits⟩ := demotion_splits hchained (stemsNulFree_id _) (by decide) hfit hfinish
  rcases Except.ok.inj (hsegments.symm.trans hsegments') with rfl
  rcases Except.ok.inj (hmerge.symm.trans hmerge') with rfl
  have hsize : bytes.length < UInt64.size := by
    -- Both stop words are stored in order, and nothing has to be sorted for the others.
    have hstops : ((session.run operations).volume merged).stopWords = ["dogs", "the"] := by
      have hmembers : (session.stopWords.insertAll ["dogs"]).words.Perm ["dogs", "the"] :=
        List.Perm.swap ..
      have hsorted : ["dogs", "the"].Pairwise fun a b => StopWords.storedBefore a b = true := by
        decide +kernel
      show ((session.run operations).stopWords.insertAll
        ((session.run operations).demoted merged)).sorted = _
      rw [hdemoted, (run_settings session operations (by decide)).1]
      have hsame : (session.stopWords.insertAll ["dogs"]).sorted
          = StopWords.sorted ⟨["dogs", "the"]⟩ :=
        StopWords.sorted_eq_of_perm hmembers
      exact hsame.trans (List.mergeSort_of_pairwise hsorted)
    have heq : (session.run operations).volume merged
        = { (session.run operations).volume merged with stopWords := ["dogs", "the"] } := by
      rw [← hstops]
    rw [hpublishes.unique hvolume, heq]
    exact Volume.length_bytes_lt (by decide +kernel)
  rcases hsplits hsize with ⟨index, words, stops, hopen, hindex⟩
  exact ⟨hchained, stemsNulFree_id _, by decide, hfit, _, _, segments, merged, bytes, location,
    index, words, stops, hfinish, hsegments, hmerge, rfl, hreported, hlocation, hitem, hsize, hopen,
    hindex⟩

end Session

end Concordance
