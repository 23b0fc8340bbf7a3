import Concordance.Proofs.Indexing.Published
import Concordance.Proofs.Indexing.Reference
import Concordance.Proofs.Lookups

/-!
# Indexes of New Sessions

What an index says of the words that a new session has merged.

Merged words are split by a limit. Those in too many documents become stop words, and the
others are the words of the index. The merge knows nothing of the limit, so sessions that
differ in it alone split the same words. `Index.Built` has the words before they were split,
and says what each lookup comes to in terms of them.

What merged words have to do with documents is known from their log, whatever the numbers
of words in the documents are.

## Main definitions

* `SpreadLimit.keeps`, `SpreadLimit.demotes`: The two parts of merged words.
* `Index.Built`: What is looked up in an index of merged words.

## Theorems

* `Session.Merges.documents_iff`: The documents of a merged word are those that have it.
* `Session.new_built`: A new session publishes an index of what it merges.
-/

namespace Concordance

namespace SpreadLimit

variable (limit : SpreadLimit) (total : Nat) (merged : List WordPostings)

/-- The words that are not in too many of all documents. -/
def keeps : List WordPostings :=
  merged.filter fun entry => !limit.exceededBy entry.postings.length total

/-- Those that are. -/
def demotes : List String :=
  (merged.filter fun entry => limit.exceededBy entry.postings.length total).map WordPostings.word

variable {limit total merged}

theorem mem_keeps {entry : WordPostings} :
    entry ∈ limit.keeps total merged
      ↔ entry ∈ merged ∧ limit.exceededBy entry.postings.length total = false := by
  rw [keeps, List.mem_filter, Bool.not_eq_true']

theorem mem_demotes {word : String} :
    word ∈ limit.demotes total merged
      ↔ ∃ entry ∈ merged, limit.exceededBy entry.postings.length total = true
        ∧ entry.word = word := by
  simp only [demotes, List.mem_map, List.mem_filter, and_assoc]

/-- The common limit is beyond the number of documents that an index can have. -/
theorem exceededBy_default {documents : Nat} (h : documents < UInt32.size) (total : Nat) :
    exceededBy {} documents total = false := by
  have hs : UInt64.size = 18446744073709551616 := rfl
  have hs' : UInt32.size = 4294967296 := rfl
  simp only [exceededBy, Nat.lt_irrefl, decide_false, Bool.false_and, Bool.or_false,
    decide_eq_false_iff_not]
  omega

/-- So it keeps all words that an index can have, and demotes none. -/
theorem keeps_default (h : ∀ entry ∈ merged, entry.postings.length < UInt32.size) (total : Nat) :
    keeps {} total merged = merged := by
  refine List.filter_eq_self.mpr fun entry hentry => ?_
  rw [exceededBy_default (h entry hentry), Bool.not_false]

theorem demotes_default (h : ∀ entry ∈ merged, entry.postings.length < UInt32.size)
    (total : Nat) : demotes {} total merged = [] := by
  refine List.eq_nil_iff_forall_not_mem.mpr fun word hword => ?_
  rcases mem_demotes.mp hword with ⟨entry, hentry, hmany, -⟩
  exact absurd (hmany.symm.trans (exceededBy_default (h entry hentry) total)) (by simp)

end SpreadLimit

/-- What is looked up in an index that was built of merged words, given what it was to
    leave out and the names that it was to have. -/
structure Index.Built (index : Index) (merged : List WordPostings) (limit : SpreadLimit)
    (stopWords : StopWords) (names : List (String × UInt32)) : Prop where
  sound : index.Sound (limit.keeps index.numDocuments merged)
  isStopWord : ∀ word, index.isStopWord word
    = .ok ((stopWords.insertAll (limit.demotes index.numDocuments merged)).words.any fun stop =>
      storedKey stop == Utf8.bytes word)
  placeOf : ∀ word, index.placeOf word
    = .ok ((limit.keeps index.numDocuments merged).findIdx? fun entry => entry.word == word)
  wordsWithPrefix : ∀ lead, ∃ start stop, index.wordsWithPrefix lead = .ok (start, stop)
    ∧ ((limit.keeps index.numDocuments merged).drop start).take (stop - start)
      = (limit.keeps index.numDocuments merged).filter fun entry =>
        (Utf8.bytes lead).isPrefixOf (Utf8.bytes entry.word)
  nameId : (∀ name ∈ names, NulFree name.1) →
    ∀ name, index.nameId name = .ok (names.lookup name)

/-- Stop words that can be stored are stop words of the index, and so are demoted words. -/
theorem Index.Built.isStopWord_of_mem {index : Index} {merged : List WordPostings}
    {limit : SpreadLimit} {stopWords : StopWords} {names : List (String × UInt32)}
    (h : index.Built merged limit stopWords names) {word : String} (hnul : NulFree word)
    (hmem : word ∈ stopWords.words ∨ word ∈ limit.demotes index.numDocuments merged) :
    index.isStopWord word = .ok true := by
  rw [h.isStopWord]
  refine congrArg Except.ok (List.any_eq_true.mpr ⟨word, StopWords.mem_insertAll.mpr hmem, ?_⟩)
  rw [storedKey_of_nulFree hnul, beq_self_eq_true]

namespace Session

section Merged

variable {session : Session} {operations : List Operation} {merged : List WordPostings}

/-- The documents of a merged word are those that have it. -/
theorem Merges.documents_iff
    (h : Merges [] (Log.ofCorpus session.accept 0 (corpus operations)) merged)
    (hroom : (corpus operations).length ≤ UInt32.size) {entry : WordPostings}
    (hentry : entry ∈ merged) (i : Nat) :
    (∃ p ∈ entry.postings, p.document.toNat = i)
      ↔ ∃ candidates, (corpus operations)[i]? = some candidates
        ∧ ∃ candidate ∈ candidates, session.rules.finds entry.word candidate := by
  rw [h.postings_of_log hentry]
  constructor
  · rintro ⟨p, hp, rfl⟩
    rcases Log.exists_gathers_of_mem hroom hp with ⟨candidates, hget, hfinds, -⟩
    exact ⟨candidates, hget, hfinds⟩
  · rintro ⟨candidates, hget, hfinds⟩
    exact Log.exists_mem_of_finds hroom hget hfinds

/-- A merged word has a posting for each document that has it. -/
theorem Merges.length_postings
    (h : Merges [] (Log.ofCorpus session.accept 0 (corpus operations)) merged)
    (hroom : (corpus operations).length ≤ UInt32.size) {entry : WordPostings}
    (hentry : entry ∈ merged) :
    entry.postings.length = session.rules.documentsWith entry.word (corpus operations) := by
  rw [h.postings_of_log hentry, Log.length_fuse_postingsOf hroom]

/-- A merged word is the stem of a word that was accepted. -/
theorem Merges.nulFree (h : Merges [] (Log.ofCorpus session.accept 0 (corpus operations)) merged)
    (hroom : (corpus operations).length ≤ UInt32.size)
    (hnul : StemsNulFree session.options.sizes session.stemmer) {entry : WordPostings}
    (hentry : entry ∈ merged) : NulFree entry.word := by
  obtain ⟨_, _, candidate, _, hfinds⟩ :=
    (h.mem_iff hroom entry.word).mp (List.mem_map_of_mem hentry)
  simp only [Rules.finds, Session.rules, Bool.and_eq_true, Option.isNone_iff_eq_none,
    beq_iff_eq] at hfinds
  exact hfinds.2 ▸ hnul _ hfinds.1.1.1

end Merged

/-- Ranks change neither the words nor how many documents they are in. -/
theorem length_withRanks (files : List Record) (entry : WordPostings) :
    (entry.withRanks files).postings.length = entry.postings.length := by
  rw [WordPostings.withRanks, rankAll, List.length_map]

theorem keeps_withRanks (limit : SpreadLimit) (total : Nat) (files : List Record)
    (merged : List WordPostings) :
    limit.keeps total (merged.map (WordPostings.withRanks files))
      = (limit.keeps total merged).map (WordPostings.withRanks files) := by
  rw [SpreadLimit.keeps, SpreadLimit.keeps, List.filter_map]
  refine congrArg _ (List.filter_congr fun entry _ => ?_)
  rw [Function.comp_apply, length_withRanks]

theorem demotes_withRanks (limit : SpreadLimit) (total : Nat) (files : List Record)
    (merged : List WordPostings) :
    limit.demotes total (merged.map (WordPostings.withRanks files))
      = limit.demotes total merged := by
  rw [SpreadLimit.demotes, SpreadLimit.demotes, List.filter_map, List.map_map]
  refine congrArg _ (List.filter_congr fun entry _ => ?_)
  rw [Function.comp_apply, length_withRanks]

/-- The names that a new session has, in stored order. -/
def storedNames (operations : List Operation) : List (String × UInt32) :=
  ((operations.flatMap Operation.names).foldl addName []).mergeSort Contents.metaBefore

theorem storedNames_ascend (operations : List Operation) :
    (storedNames operations).Pairwise fun a b => Utf8.bytes a.1 ≤ Utf8.bytes b.1 :=
  sortedNames_ascend _

/-- What a new session ends in, in terms of the parts of the words that it merges. -/
theorem volume_new_run (options : IndexingOptions) (stemmer : String → String)
    (stopWords : StopWords) (operations : List Operation)
    (hroom : (records operations).length ≤ UInt32.size) (merged : List WordPostings) :
    (({ options, stemmer, stopWords } : Session).run operations).volume merged = {
      words := WordPostings.table (options.spread.keeps (corpus operations).length
        (merged.map (WordPostings.withRanks (records operations))))
      stopWords := (stopWords.insertAll (options.spread.demotes (corpus operations).length
        (merged.map (WordPostings.withRanks (records operations))))).sorted
      directories := (operations.filterMap Operation.path?).foldl addDirectory []
      files := records operations
      metaNames := storedNames operations } := by
  obtain ⟨_, _, _, hrun⟩ := new_run_keeps options stemmer stopWords operations hroom
  rw [keeps_withRanks, demotes_withRanks, WordPostings.table_withRanks, hrun, length_corpus]
  rfl

/-- A new session publishes an index of what it merges. -/
theorem new_built (options : IndexingOptions) (stopWords : StopWords)
    (stemmer : String → String) (hnul : StemsNulFree options.sizes stemmer)
    (operations : List Operation) (hroom : (records operations).length < UInt32.size)
    (hfit : (({ options, stemmer, stopWords } : Session).run operations).RunsFit) :
    ∃ merged summary bytes,
      Merges [] (Log.ofCorpus ({ options, stemmer, stopWords } : Session).accept 0
        (corpus operations)) merged
      ∧ (({ options, stemmer, stopWords } : Session).run operations).Publishes summary bytes
      ∧ (bytes.length < UInt64.size → ∃ index, Index.open? bytes.toArray = .ok index
        ∧ index.numDocuments = (corpus operations).length
        ∧ index.Built (merged.map (WordPostings.withRanks (records operations))) options.spread
          stopWords (storedNames operations)) := by
  have hdone := HasRecorded.new_run options stopWords hnul (Nat.le_of_lt hroom)
  rcases hdone.publishes hfit with ⟨merged, sources, hmerges, hpublishes⟩
  refine ⟨merged, _, _, hmerges, hpublishes, fun hsize => ?_⟩
  have hsound := hdone.volume_sound hmerges
  rw [volume_new_run options stemmer stopWords operations (Nat.le_of_lt hroom)] at hsize hsound ⊢
  -- The words of the index are not given but found, and the table tells which they are.
  rcases hsound.exists_index hsize hroom with ⟨index, words, hopen, hindex, htable, hfiles⟩
  rcases WordPostings.table_injective htable with rfl
  have htotal : index.numDocuments = (corpus operations).length :=
    hfiles.trans (length_corpus _).symm
  refine ⟨index, hopen, htotal, ?_⟩
  rw [← htotal] at hindex hopen hsize hsound
  exact {
    sound := hindex
    isStopWord := Volume.isStopWord_eq hsize hopen rfl
    placeOf := Volume.placeOf_eq hsize hopen hsound.storable hsound.proper rfl
    wordsWithPrefix := Volume.wordsWithPrefix_eq hsize hopen hsound.storable hsound.proper rfl
    nameId := fun hnul => Volume.nameId_eq hsize hopen hnul (storedNames_ascend _) }

end Session

end Concordance
