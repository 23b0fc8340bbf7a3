import Concordance.Proofs.Indexing.Published
import Concordance.Proofs.Indexing.Reference
import Concordance.Proofs.Indexing.Registration

/-!
# Adding to an Index Is Building It Anew

A session that adds documents to an index publishes what a new session would that reads
all documents.

The new session starts from the stop words that the first index ended with, among them
the words that it demoted. These have no postings in the index. A new session has none
for them either, because it rejects them as stop words. It could reject more than these,
namely words that have a demoted stem, or whose stem was recorded although they are stop
words now. Stemming twice is stemming once, so a demoted word is its own stem, and this
does not happen: the occurrences of every other word are those of the first session.

Ranks are not compared. The index has ranks of its own documents only, and they are
overwritten when it is added to. So everything is compared up to ranks.

## Main definitions

* `WordPostings.unranked`: A word whose postings have no ranks.

## Theorems

* `Rules.finds_of_more`: What becomes of a word when stop words are added.
* `Session.Merges.map_unranked_eq`: Both sessions merge to the same words.
* `Session.extend_publishesLike`: Both sessions publish the same index.
-/

namespace Concordance

section Unranked

/-- A word whose postings have no ranks. -/
def WordPostings.unranked (entry : WordPostings) : WordPostings :=
  ⟨entry.word, entry.postings.map Posting.unranked⟩

/-- Ranks are overwritten, whatever they were. -/
theorem rankAll_unranked (files : List Record) (postings : List Posting) :
    rankAll files (postings.map Posting.unranked) = rankAll files postings := by
  have htotal : total (fun p => p.occurrences.toNat) (postings.map Posting.unranked)
      = total (fun p => p.occurrences.toNat) postings := by
    induction postings with
    | nil => rfl
    | cons p postings ih =>
      rw [List.map_cons, total_cons, total_cons, ih]
      rfl
  rw [rankAll, rankAll, List.map_map, htotal]
  rfl

theorem map_unranked_rankAll (files : List Record) (postings : List Posting) :
    (rankAll files postings).map Posting.unranked = postings.map Posting.unranked := by
  rw [rankAll, List.map_map]
  rfl

theorem WordPostings.table_unranked (merged : List WordPostings) :
    table (merged.map unranked)
      = (table merged).map fun (key, postings) => (key, postings.map Posting.unranked) := by
  rw [table, table, List.map_map, List.map_map]
  rfl

namespace Session

variable (session : Session) (merged : List WordPostings)

theorem filter_unranked (p : WordPostings → Bool) (h : ∀ entry, p entry.unranked = p entry) :
    (merged.map WordPostings.unranked).filter p
      = (merged.filter p).map WordPostings.unranked := by
  have hp : p ∘ WordPostings.unranked = p := funext h
  rw [List.filter_map, hp]

theorem tooCommon_unranked (entry : WordPostings) :
    session.tooCommon entry.unranked = session.tooCommon entry := by
  rw [tooCommon, tooCommon, WordPostings.unranked, List.length_map]

/-- The words that are demoted do not depend on ranks. -/
theorem demoted_unranked :
    session.demoted (merged.map WordPostings.unranked) = session.demoted merged := by
  rw [demoted, filter_unranked merged _ session.tooCommon_unranked, List.map_map]
  rfl

/-- Nothing that a session ends in depends on ranks. -/
theorem volume_unranked :
    session.volume (merged.map WordPostings.unranked) = session.volume merged := by
  have hkept : ∀ entry : WordPostings,
      (!session.tooCommon entry.unranked) = !session.tooCommon entry :=
    fun entry => by rw [tooCommon_unranked]
  rw [volume, volume, demoted_unranked, filter_unranked merged _ hkept,
    WordPostings.table_unranked, WordMap.ranked, WordMap.ranked, List.map_map]
  congr 1
  refine List.map_congr_left fun e _ => ?_
  exact congrArg (Prod.mk e.1) (rankAll_unranked session.files e.2)

end Session

end Unranked

namespace Session

variable {session : Session} {merged : List WordPostings}

/-- The words that stay are those of the table that are not too common. -/
theorem volume_words : (session.volume merged).words
    = WordMap.ranked session.files ((WordPostings.table merged).filter fun e =>
        !session.options.spread.exceededBy e.2.length session.files.length) := by
  rw [volume, WordPostings.table, WordPostings.table, List.filter_map]
  rfl

/-- A word has the postings that were merged, unless they are too many. -/
theorem postingsOf_volume (h : (WordPostings.table merged).Proper) (key : Bytes) :
    (session.volume merged).words.postingsOf key = rankAll session.files
      (if session.options.spread.exceededBy
          ((WordPostings.table merged).postingsOf key).length session.files.length
        then [] else (WordPostings.table merged).postingsOf key) := by
  have hfilter := WordMap.postingsOf_filter h.ascend
    (fun postings => !session.options.spread.exceededBy postings.length session.files.length) key
  rw [volume_words, WordMap.ranked, WordMap.postingsOf_map rfl, hfilter]
  rcases session.options.spread.exceededBy
    ((WordPostings.table merged).postingsOf key).length session.files.length with _ | _
  · rfl
  · rfl

/-- The demoted words are those that have too many postings. -/
theorem mem_demoted_iff (h : (WordPostings.table merged).Proper) {word : String} :
    word ∈ session.demoted merged
      ↔ (WordPostings.table merged).postingsOf (Utf8.bytes word) ≠ []
        ∧ session.options.spread.exceededBy
            ((WordPostings.table merged).postingsOf (Utf8.bytes word)).length
            session.files.length = true := by
  constructor
  · intro hmem
    rcases List.mem_map.mp hmem with ⟨entry, hentry, rfl⟩
    rcases List.mem_filter.mp hentry with ⟨hentry, hcommon⟩
    have hin := List.mem_map_of_mem
      (f := fun word : WordPostings => (Utf8.bytes word.word, word.postings)) hentry
    rw [WordMap.postingsOf_of_mem h.ascend hin]
    exact ⟨h.nonempty _ hin, hcommon⟩
  · -- A word with postings is the word of an entry, and that has these postings.
    rintro ⟨hne, hcommon⟩
    rcases List.mem_map.mp (WordMap.mem_of_postingsOf hne) with ⟨entry, hentry, heq⟩
    rcases Prod.mk.inj heq with ⟨hkey, hpostings⟩
    refine List.mem_map.mpr ⟨entry, List.mem_filter.mpr ⟨hentry, ?_⟩, Utf8.bytes_injective hkey⟩
    rw [tooCommon, hpostings]
    exact hcommon

end Session

namespace Rules

/-- Adding stop words makes the words that are added disappear, and no other, if these
    words are stems. -/
theorem finds_of_more {rules others : Rules} {more : List String}
    (hsizes : others.sizes = rules.sizes) (hstemmer : others.stemmer = rules.stemmer)
    (hmem : ∀ w, w ∈ others.stopWords.words ↔ w ∈ rules.stopWords.words ∨ w ∈ more)
    (hstems : ∀ w ∈ more, rules.stemmer w = w) (word : String) (candidate : Candidate) :
    others.finds word candidate = (rules.finds word candidate && !more.contains word) := by
  have hcontains : ∀ w, others.stopWords.contains w
      = (rules.stopWords.contains w || more.contains w) := by
    intro w
    rw [Bool.eq_iff_iff, Bool.or_eq_true, StopWords.contains_iff, StopWords.contains_iff,
      List.contains_iff_mem, hmem]
  rw [Bool.eq_iff_iff]
  simp only [finds, hsizes, hstemmer, hcontains, Bool.and_eq_true, Option.isNone_iff_eq_none,
    Bool.not_eq_true', Bool.or_eq_false_iff, beq_iff_eq]
  constructor
  · rintro ⟨⟨⟨hcheck, hprepared, -⟩, hword, hmore⟩, hstem⟩
    exact ⟨⟨⟨⟨hcheck, hprepared⟩, hword⟩, hstem⟩, hmore⟩
  · rintro ⟨⟨⟨⟨hcheck, hprepared⟩, hword⟩, hstem⟩, hmore⟩
    refine ⟨⟨⟨hcheck, hprepared, ?_⟩, hword, hmore⟩, hstem⟩
    -- A prepared word that was added is its own stem, and so it is the word.
    refine Bool.eq_false_iff.mpr fun hin => ?_
    have hsame := hstems _ (List.contains_iff_mem.mp hin)
    rw [hstem] at hsame
    rw [hsame, hin] at hmore
    exact absurd hmore (by simp)

end Rules

/-- The occurrences of a word after stop words were added that are stems: none if it is
    one of them, the same if not. -/
theorem Log.postingsOf_of_more {session other : Session} {more : List String}
    (hsizes : other.options.sizes = session.options.sizes)
    (hstemmer : other.stemmer = session.stemmer)
    (hmem : ∀ w, w ∈ other.stopWords.words ↔ w ∈ session.stopWords.words ∨ w ∈ more)
    (hstems : ∀ w ∈ more, session.stemmer w = w) (start : Nat)
    (corpus : List (List Candidate)) (word : String) :
    (Log.ofCorpus other.accept start corpus).postingsOf (Utf8.bytes word)
      = if word ∈ more then []
        else (Log.ofCorpus session.accept start corpus).postingsOf (Utf8.bytes word) := by
  have hfinds : ∀ candidate, other.rules.finds word candidate
      = (session.rules.finds word candidate && !more.contains word) :=
    Rules.finds_of_more hsizes hstemmer hmem hstems word
  -- Both sides are asked document by document.
  rw [Log.postingsOf_ofCorpus, Log.postingsOf_ofCorpus]
  by_cases hin : word ∈ more
  · -- A word that was added is found nowhere.
    have hnone : ∀ (document : UInt32) (candidates : List Candidate),
        other.rules.singles word document candidates = [] := by
      intro document candidates
      have hfound : other.rules.found word candidates = [] := by
        refine List.filter_eq_nil_iff.mpr fun ⟨candidate, _⟩ _ => ?_
        show ¬ other.rules.finds word candidate = true
        rw [hfinds, List.contains_iff_mem.mpr hin]
        simp
      rw [Rules.singles, hfound, List.map_nil]
    rw [if_pos hin, List.flatMap_eq_nil_iff]
    exact fun placed _ => hnone _ _
  · -- Any other word is found where it was.
    have hsame : ∀ (document : UInt32) (candidates : List Candidate),
        other.rules.singles word document candidates
          = session.rules.singles word document candidates := by
      intro document candidates
      have hnot : more.contains word = false := Bool.eq_false_iff.mpr fun h =>
        hin (List.contains_iff_mem.mp h)
      have hfound : other.rules.found word candidates = session.rules.found word candidates := by
        refine List.filter_congr fun ⟨candidate, _⟩ _ => ?_
        show other.rules.finds word candidate = session.rules.finds word candidate
        rw [hfinds, hnot, Bool.not_false, Bool.and_true]
      rw [Rules.singles, Rules.singles, hfound]
    rw [if_neg hin]
    simp only [hsame]

namespace Session

/-- Words that were merged from a log without a base are stems. -/
theorem stemmer_of_mem_demoted {options : IndexingOptions} {stopWords : StopWords}
    {stemmer : String → String} (hidem : ∀ word, stemmer (stemmer word) = stemmer word)
    {operations : List Operation} (hroom : (corpus operations).length ≤ UInt32.size)
    {merged : List WordPostings}
    (h : Merges [] (Log.ofCorpus ({ options, stemmer, stopWords } : Session).accept 0
      (corpus operations)) merged) {session : Session} {word : String}
    (hword : word ∈ session.demoted merged) : stemmer word = word := by
  have hmem : word ∈ merged.map WordPostings.word := by
    rcases List.mem_map.mp hword with ⟨entry, hentry, rfl⟩
    exact List.mem_map_of_mem (List.mem_filter.mp hentry).1
  rcases (h.mem_iff hroom word).mp hmem with ⟨candidates, -, candidate, -, hfinds⟩
  rw [← accept_eq_some_iff_finds] at hfinds
  rcases accept_eq_some_iff.mp hfinds with ⟨-, -, -, hstem⟩
  rw [hstem]
  exact hidem _

/-- Up to ranks, the words of an index have the occurrences that a session finds which
    starts from the stop words of the index. -/
theorem postingsOf_volume_unranked {session other ended : Session} {corpus : List (List Candidate)}
    {merged : List WordPostings}
    (h : Merges [] (Log.ofCorpus session.accept 0 corpus) merged)
    (hsizes : other.options.sizes = session.options.sizes)
    (hstemmer : other.stemmer = session.stemmer)
    (hmem : ∀ w, w ∈ other.stopWords.words
      ↔ w ∈ session.stopWords.words ∨ w ∈ ended.demoted merged)
    (hstems : ∀ w ∈ ended.demoted merged, session.stemmer w = w) (key : Bytes) :
    ((ended.volume merged).words.postingsOf key).map Posting.unranked
      = (fuse ((Log.ofCorpus other.accept 0 corpus).postingsOf key)).map Posting.unranked := by
  rw [postingsOf_volume h.proper, map_unranked_rankAll, h.postings, WordMap.postingsOf_nil,
    List.nil_append]
  by_cases hkey : ∃ word, Utf8.bytes word = key
  · rcases hkey with ⟨word, rfl⟩
    -- A word became a stop word or kept all of its postings.
    have hdemoted : word ∈ ended.demoted merged ↔ _ := mem_demoted_iff h.proper
    rw [h.postings, WordMap.postingsOf_nil, List.nil_append] at hdemoted
    rw [Log.postingsOf_of_more hsizes hstemmer hmem hstems]
    by_cases hin : word ∈ ended.demoted merged
    · rw [if_pos (hdemoted.mp hin).2, if_pos hin]
      rfl
    · rw [if_neg hin]
      by_cases hmany : ended.options.spread.exceededBy
          (fuse ((Log.ofCorpus session.accept 0 corpus).postingsOf (Utf8.bytes word))).length
          ended.files.length = true
      · have hnil : fuse ((Log.ofCorpus session.accept 0 corpus).postingsOf (Utf8.bytes word))
            = [] := Classical.byContradiction fun hne => hin (hdemoted.mpr ⟨hne, hmany⟩)
        rw [if_pos hmany, hnil]
      · rw [if_neg hmany]
  · -- A key that is no word is in no log.
    have hnone : ∀ log : Log, log.postingsOf key = [] := by
      intro log
      rw [Log.postingsOf, List.map_eq_nil_iff, List.filter_eq_nil_iff]
      intro occurrence _ hsame
      exact hkey ⟨occurrence.word, of_decide_eq_true hsame⟩
    rw [hnone, hnone]
    split <;> rfl

/-- A base and a log merge to the same words as two logs, if the base has the postings
    of the first. -/
theorem Merges.map_unranked_eq {base : WordMap} {old new : Log} {merged other : List WordPostings}
    (h : Merges base new merged) (h' : Merges [] (old ++ new) other)
    (hbase : ∀ key, (base.postingsOf key).map Posting.unranked
      = (fuse (old.postingsOf key)).map Posting.unranked)
    (hbehind : ∀ a ∈ old, ∀ b ∈ new, a.document < b.document) :
    merged.map WordPostings.unranked = other.map WordPostings.unranked := by
  have hproper : ∀ {words : List WordPostings}, (WordPostings.table words).Proper →
      (WordPostings.table (words.map WordPostings.unranked)).Proper := by
    intro words hwords
    rw [WordPostings.table_unranked]
    exact hwords.map fun postings hne hnil => hne (List.map_eq_nil_iff.mp hnil)
  refine WordPostings.table_injective
    (WordMap.ext (hproper h.proper) (hproper h'.proper) fun key => ?_)
  -- No document is in both logs, so their postings do not touch.
  have hsplit : fuse (Log.postingsOf (old ++ new) key)
      = fuse (old.postingsOf key) ++ fuse (new.postingsOf key) := by
    rw [Log.postingsOf_append]
    refine fuse_append_of_lt fun p hp q hq => ?_
    rcases List.mem_map.mp hp with ⟨a, ha, rfl⟩
    rcases List.mem_map.mp hq with ⟨b, hb, rfl⟩
    exact hbehind a (List.mem_filter.mp ha).1 b (List.mem_filter.mp hb).1
  rw [WordPostings.table_unranked, WordPostings.table_unranked,
    WordMap.postingsOf_map List.map_nil, WordMap.postingsOf_map List.map_nil, h.postings,
    h'.postings, WordMap.postingsOf_nil, List.nil_append, hsplit, List.map_append,
    List.map_append, hbase]

/-- The index of a session depends on the members of its stop words and meta names
    only. -/
theorem volume_congr_perm {session other : Session} (hstops : session.stopWords.Distinct)
    (hperm : session.stopWords.words.Perm other.stopWords.words)
    (hspread : session.options.spread = other.options.spread)
    (hfiles : session.files = other.files) (hdirectories : session.directories = other.directories)
    (hnames : session.metaNames.Perm other.metaNames) (merged : List WordPostings) :
    session.volume merged = other.volume merged
      ∧ session.demoted merged = other.demoted merged := by
  have hcommon := tooCommon_congr hspread (congrArg List.length hfiles)
  have hdemoted : session.demoted merged = other.demoted merged := by
    rw [demoted, demoted, hcommon]
  have hsorted := StopWords.sorted_eq_of_perm
    (hstops.insertAll_perm (hstops.perm hperm) hperm (other.demoted merged))
  refine ⟨?_, hdemoted⟩
  rw [volume, volume, hdemoted, hsorted, hfiles, hdirectories, hcommon,
    sortedNames_eq_of_perm hnames]

/-- What is recorded depends on the sizes, the members of the stop words, and the
    stemmer. -/
theorem accept_congr {session other : Session}
    (hsizes : session.options.sizes = other.options.sizes)
    (hperm : session.stopWords.words.Perm other.stopWords.words)
    (hstemmer : session.stemmer = other.stemmer) : session.accept = other.accept := by
  funext word
  rw [accept, accept, hsizes, StopWords.contains_congr fun w => hperm.mem_iff, hstemmer]

/-- If nothing is there twice, it is there as it was. -/
theorem extend?_eq {disk : Disk} {path : String} {options : IndexingOptions} {bytes : Bytes}
    {index : Index} {volume : Volume} {started : Session}
    (hfile : disk.openFile path = .ok bytes) (hopen : Index.open? bytes.toArray = .ok index)
    (hlists : index.Lists volume) (hdirectories : volume.directories.Nodup)
    (hnames : NamesDistinct volume.metaNames)
    (hstarted : start? disk options .empty = .ok started) :
    extend? disk path options = .ok {
      options
      stopWords := StopWords.empty.insertAll volume.stopWords
      files := volume.files
      directories := volume.directories
      metaNames := volume.metaNames
      base := some index } := by
  have hpaths : volume.directories.foldl addDirectory [] = volume.directories :=
    foldl_addDirectory_of_nodup hdirectories
  have hids := @foldl_setMetaName_of_distinct [] volume.metaNames hnames
  rw [extend?_lists hfile hopen hlists hstarted, hpaths, hids, List.nil_append]

section NewVolume

variable (options : IndexingOptions) (stemmer : String → String) (stopWords : StopWords)
  {operations : List Operation} (hroom : (records operations).length ≤ UInt32.size)
  (merged : List WordPostings)

include hroom

/-- What a new session ends in, besides its words. -/
theorem new_volume_lists :
    let volume := (({ options, stemmer, stopWords } : Session).run operations).volume merged
    volume.stopWords = (stopWords.insertAll ((({ options, stemmer, stopWords } : Session).run
        operations).demoted merged)).sorted
      ∧ volume.directories = (operations.filterMap Operation.path?).foldl addDirectory []
      ∧ volume.files = records operations
      ∧ volume.metaNames = ((operations.flatMap Operation.names).foldl addName []).mergeSort
        Contents.metaBefore := by
  rcases new_run_keeps options stemmer stopWords operations hroom with ⟨_, _, _, hrun⟩
  rw [hrun]
  exact ⟨rfl, rfl, rfl, rfl⟩

/-- All of it can be read back if texts can be closed. -/
theorem new_volume_closable (hoperations : ∀ op ∈ operations, op.Closable)
    (hstops : ∀ word ∈ stopWords.words, NulFree word)
    (hstorable : (WordPostings.table merged).Storable) :
    ((({ options, stemmer, stopWords } : Session).run operations).volume merged).Closable := by
  obtain ⟨hsorted, hdirectories, hfiles, hnames⟩ :=
    new_volume_lists options stemmer stopWords hroom merged
  refine ⟨fun word hword => ?_, ?_, ?_, fun name hname => ?_⟩
  · rw [hsorted, StopWords.sorted, List.mem_mergeSort, StopWords.mem_insertAll] at hword
    rcases hword with hword | hword
    · exact hstops word hword
    · -- A demoted word was merged, and so it can be stored.
      rcases List.mem_map.mp hword with ⟨entry, hentry, rfl⟩
      obtain ⟨stored, hnul, hkey⟩ := hstorable.keys (Utf8.bytes entry.word, entry.postings)
        (List.mem_map_of_mem (List.mem_filter.mp hentry).1)
      rw [← Utf8.bytes_injective hkey]
      exact hnul
  · rw [hdirectories]
    exact directories_closable hoperations (by simp)
  · rw [hfiles]
    exact records_closable hoperations
  · rw [hnames, List.mem_mergeSort] at hname
    exact metaNames_closable hoperations (by simp) name hname

end NewVolume

/-- A session that adds to an index with the words of `base` is where a new session is
    that has read the documents of the index, ranks and the order of names apart. -/
structure Resumes (session fresh : Session) (base : WordMap) (old : List Operation) : Prop where
  sizes : session.options.sizes = fresh.options.sizes
  spread : session.options.spread = fresh.options.spread
  stemmer : session.stemmer = fresh.stemmer
  distinct : session.stopWords.Distinct
  stopWords : session.stopWords.words.Perm fresh.stopWords.words
  files : session.files = records old
  directories : session.directories = (old.filterMap Operation.path?).foldl addDirectory []
  metaNames : session.metaNames.Perm ((old.flatMap Operation.names).foldl addName [])
  recorded : session.HasRecorded base []
  postings : ∀ key, (base.postingsOf key).map Posting.unranked
    = (fuse ((Log.ofCorpus fresh.accept 0 (corpus old)).postingsOf key)).map Posting.unranked

/-- Both sessions register the same when they go on. -/
theorem Resumes.volume_eq {session : Session} {options : IndexingOptions}
    {stemmer : String → String} {stopWords : StopWords} {base : WordMap}
    {old new : List Operation}
    (h : session.Resumes { options, stemmer, stopWords } base old)
    (hroom : (records (old ++ new)).length ≤ UInt32.size) (merged : List WordPostings) :
    (session.run new).volume merged
        = (({ options, stemmer, stopWords } : Session).run (old ++ new)).volume merged
      ∧ (session.run new).demoted merged
        = (({ options, stemmer, stopWords } : Session).run (old ++ new)).demoted merged := by
  have hrecords : records (old ++ new) = records old ++ records new := List.filterMap_append
  obtain ⟨_, _, _, hrun⟩ := session.run_keeps new (by
    rw [h.files, ← List.length_append, ← hrecords]
    exact hroom)
  rcases new_run_keeps options stemmer stopWords (old ++ new) hroom with ⟨_, _, _, hrun'⟩
  -- What is registered first is in front on both sides. Only the meta names may have another order.
  refine volume_congr_perm ?_ ?_ ?_ ?_ ?_ ?_ merged
  · rw [hrun]
    exact h.distinct
  · rw [hrun, hrun']
    exact h.stopWords
  · rw [hrun, hrun']
    exact h.spread
  · rw [hrun, hrun', h.files, hrecords]
  · rw [hrun, hrun', h.directories, List.filterMap_append, List.foldl_append]
  · rw [hrun, hrun', List.flatMap_append, List.foldl_append]
    exact foldl_addName_perm h.metaNames _

/-- Both sessions publish the same when they go on. -/
theorem Resumes.publishesLike {session : Session} {options : IndexingOptions}
    {stemmer : String → String} {stopWords : StopWords} {base : WordMap}
    {old new : List Operation}
    (h : session.Resumes { options, stemmer, stopWords } base old)
    (hnul : StemsNulFree options.sizes stemmer)
    (hroom : (records (old ++ new)).length ≤ UInt32.size) (hfit : (session.run new).RunsFit)
    (hfit' : (({ options, stemmer, stopWords } : Session).run (old ++ new)).RunsFit) :
    (session.run new).PublishesLike
      (({ options, stemmer, stopWords } : Session).run (old ++ new)) := by
  have hrecords : records (old ++ new) = records old ++ records new := List.filterMap_append
  have hcorpus : corpus (old ++ new) = corpus old ++ corpus new := List.filterMap_append
  have hlength : session.files.length = 0 + (corpus old).length := by
    rw [h.files, length_corpus, Nat.zero_add]
  have haccept := accept_congr h.sizes h.stopWords h.stemmer
  have hnulE : session.AcceptsNulFree := by
    rw [AcceptsNulFree, haccept]
    exact acceptsNulFree_of_stems hnul
  have hroomNew : session.files.length + (records new).length ≤ UInt32.size := by
    rw [h.files, ← List.length_append, ← hrecords]
    exact hroom
  have hdone := h.recorded.run hnulE hroomNew
  have hdone' := HasRecorded.new_run options stopWords hnul hroom
  rw [List.nil_append, haccept, hlength] at hdone
  rw [hcorpus, Log.ofCorpus_append] at hdone'
  rcases hdone.publishes hfit with ⟨merged, sources, hmerges, hpublishes⟩
  rcases hdone'.publishes hfit' with ⟨other, sources', hmerges', hpublishes'⟩
  -- Ranks in the base are stale, but they are computed anew before anything is written.
  have hunranked := hmerges.map_unranked_eq hmerges' h.postings fun a ha b hb => by
    rw [length_corpus] at hb
    rw [hrecords, List.length_append] at hroom
    have hlt := (Log.document_of_mem_ofCorpus (by rw [length_corpus]; omega) ha).2
    have hle := (Log.document_of_mem_ofCorpus (by rw [length_corpus]; omega) hb).1
    rw [length_corpus] at hlt
    rw [UInt32.lt_iff_toNat_lt]
    omega
  -- So the volumes may be compared without them.
  rcases h.volume_eq hroom (merged.map WordPostings.unranked) with ⟨hvolume, hdemoted⟩
  rw [volume_unranked, hunranked, volume_unranked] at hvolume
  rw [demoted_unranked, hunranked, demoted_unranked] at hdemoted
  exact publishesLike_of_volume hpublishes hpublishes' hvolume hdemoted

/-- A session that takes an index over resumes where the index ended, if the new session
    starts from the stop words of the index. -/
theorem Resumes.of_volume {volume : Volume} (hsound : volume.Sound) {index : Index}
    (hholds : index.words.Holds volume.words) {options options' : IndexingOptions}
    {stemmer : String → String} {stopWords : StopWords} {old : List Operation}
    (hsizes : options.sizes = options'.sizes) (hspread : options.spread = options'.spread)
    (hdistinct : stopWords.Distinct) (hstops : volume.stopWords.Perm stopWords.words)
    (hfiles : volume.files = records old)
    (hdirectories : volume.directories
      = (old.filterMap Operation.path?).foldl addDirectory [])
    (hnames : volume.metaNames.Perm ((old.flatMap Operation.names).foldl addName []))
    (hpostings : ∀ key, (volume.words.postingsOf key).map Posting.unranked
      = (fuse ((Log.ofCorpus
          ({ options := options', stemmer, stopWords } : Session).accept 0
          (corpus old)).postingsOf key)).map Posting.unranked) :
    Resumes {
      options
      stemmer
      stopWords := StopWords.empty.insertAll volume.stopWords
      files := volume.files
      directories := volume.directories
      metaNames := volume.metaNames
      base := some index } { options := options', stemmer, stopWords } volume.words old where
  sizes := hsizes
  spread := hspread
  stemmer := rfl
  distinct := StopWords.Distinct.insertAll List.nodup_nil _
  stopWords := (StopWords.empty_insertAll_perm (hdistinct.perm hstops.symm)).trans hstops
  files := hfiles
  directories := hdirectories
  metaNames := hnames
  -- Nothing is recorded yet, and all postings are those of the index.
  recorded := HasRecorded.start rfl rfl hholds hsound.proper hsound.tidy hsound.storable
    hsound.inside
  postings := hpostings

/-- A session that adds documents to an index publishes what a new session does that
    reads all documents, starts from the stop words that the index ended with, and has
    the same limit. -/
theorem extend_publishesLike (disk : Disk) (options : IndexingOptions) (stopWords : StopWords)
    (hdistinct : stopWords.Distinct) (hstops : ∀ word ∈ stopWords.words, NulFree word)
    (stemmer : String → String) (hnul : StemsNulFree options.sizes stemmer)
    (hidem : ∀ word, stemmer (stemmer word) = stemmer word) (old new : List Operation)
    (hold : ∀ op ∈ old, op.Closable) (hroom : (records (old ++ new)).length < UInt32.size)
    {first : Session} (hfirst : start? disk options stopWords = .ok first)
    (hfit : ({ first with stemmer }.run old).RunsFit) :
    ∃ summary bytes, ({ first with stemmer }.run old).Publishes summary bytes
      ∧ ∀ (disk' : Disk) (path : String) (options' : IndexingOptions) (started : Session),
        bytes.length < UInt64.size → disk'.openFile path = .ok bytes →
        options'.sizes = options.sizes → start? disk' options' .empty = .ok started →
        ∃ second, extend? disk' path options' = .ok second
          ∧ ∀ (disk'' : Disk) (options'' : IndexingOptions) (final : StopWords) (third : Session),
            options''.sizes = options.sizes → options''.spread = options'.spread →
            final.words.Perm (stopWords.insertAll summary.demoted).words →
            start? disk'' options'' final = .ok third →
            ({ second with stemmer }.run new).RunsFit →
            ({ third with stemmer }.run (old ++ new)).RunsFit →
            ({ second with stemmer }.run new).PublishesLike
              ({ third with stemmer }.run (old ++ new)) := by
  rcases eq_of_start? hfirst with rfl
  have hrecords : records (old ++ new) = records old ++ records new := List.filterMap_append
  have hroomOld : (records old).length ≤ UInt32.size := by
    rw [hrecords, List.length_append] at hroom
    omega
  have hcorpusOld : (corpus old).length ≤ UInt32.size := by
    rw [length_corpus]
    exact hroomOld
  -- The first session, and the index that it publishes.
  have hdone := HasRecorded.new_run options stopWords hnul hroomOld
  rcases hdone.publishes hfit with ⟨merged, sources, hmerges, hpublishes⟩
  obtain ⟨hsorted, hdirectories, hfiles, hnames⟩ :=
    new_volume_lists options stemmer stopWords hroomOld merged
  have hsound := hdone.volume_sound hmerges
  have hclosable := new_volume_closable options stemmer stopWords hroomOld merged hold hstops
    (hmerges.storable hdone.follows hdone.storable)
  refine ⟨_, _, hpublishes, fun disk' path options' started hsize hfile hsizes hstarted => ?_⟩
  -- The second session, which takes the index over.
  rcases Volume.open?_bytes _ hsize with ⟨index, hopen, -, hwords, hlists⟩
  have hnodup : ((({ options, stemmer, stopWords } : Session).run old).volume
      merged).directories.Nodup := by
    rw [hdirectories]
    exact foldl_addDirectory_nodup List.nodup_nil _
  have hasked : NamesDistinct ((({ options, stemmer, stopWords } : Session).run old).volume
      merged).metaNames := by
    rw [hnames]
    exact ((List.mergeSort_perm _ _).map Prod.fst).nodup_iff.mpr
      (NamesDistinct.foldl_addName (show NamesDistinct [] from List.nodup_nil) _)
  refine ⟨_, extend?_eq hfile hopen (hlists hclosable) hnodup hasked hstarted, ?_⟩
  -- The third session, which starts from its stop words.
  intro disk'' options'' final third hsizes' hspread hfinal hthird hfit' hfit''
  rcases eq_of_start? hthird with rfl
  have hstored := hdistinct.insertAll
    ((({ options, stemmer, stopWords } : Session).run old).demoted merged)
  have hresumes := Resumes.of_volume hsound (hwords hsound.storable) (hsizes.trans hsizes'.symm)
    hspread.symm (hstored.perm hfinal.symm)
    (hsorted ▸ (List.mergeSort_perm _ StopWords.storedBefore).trans hfinal.symm) hfiles
    hdirectories (hnames ▸ List.mergeSort_perm _ _)
    (postingsOf_volume_unranked hmerges hsizes' rfl
      (fun w => hfinal.mem_iff.trans StopWords.mem_insertAll)
      fun w hw => stemmer_of_mem_demoted hidem hcorpusOld hmerges hw)
  exact hresumes.publishesLike (hsizes' ▸ hnul) (Nat.le_of_lt hroom) hfit' hfit''

/-- A word that the first index demotes is passed over in the documents that are added. -/
theorem extend_publishesLike_demoted :
    let old : List Operation := [.directory "letters",
      .file 0 "one" 14 none [.text "Sense, and wit." none],
      .file 0 "two" 9 (some "Second") [.metaName "Reason", .text "No sense." (some 0)]]
    let new : List Operation := [.file 0 "three" 14 none [.text "Sense and wits." none]]
    ∃ summary bytes,
      (({ options := { spread := { maxDocuments := 1 } }, stopWords := .empty } :
        Session).run old).Publishes summary bytes
      ∧ ∀ (disk : Disk) (path : String), bytes.length < UInt64.size →
        disk.openFile path = .ok bytes →
        ∃ second, extend? disk path {} = .ok second
          ∧ (({ second with stemmer := id }.run new).RunsFit →
            (({ options := {}, stopWords := StopWords.empty.insertAll summary.demoted } :
              Session).run (old ++ new)).RunsFit →
            ({ second with stemmer := id }.run new).PublishesLike
              (({ options := {}, stopWords := StopWords.empty.insertAll summary.demoted } :
                Session).run (old ++ new))) := by
  intro old new
  have hfit : (({ options := { spread := { maxDocuments := 1 } }, stopWords := .empty } :
      Session).run old).RunsFit := by decide +kernel
  obtain ⟨summary, bytes, hpublishes, hextend⟩ := extend_publishesLike {}
    { spread := { maxDocuments := 1 } } .empty List.nodup_nil
    (fun _ hword => absurd hword List.not_mem_nil) id (stemsNulFree_id _) (fun _ => rfl) old new
    (by decide) (by decide) rfl hfit
  refine ⟨summary, bytes, hpublishes, fun disk path hsize hfile => ?_⟩
  rcases hextend disk path {} _ hsize hfile rfl rfl with ⟨second, hsecond, hlike⟩
  refine ⟨second, hsecond, fun hfit' hfit'' => ?_⟩
  -- The new session takes over the words that the first index has demoted.
  have h := hlike {} {} (StopWords.empty.insertAll summary.demoted)
    { options := {}, stopWords := StopWords.empty.insertAll summary.demoted } rfl rfl
    (List.Perm.refl _) rfl
  exact h hfit' hfit''

end Session

end Concordance
