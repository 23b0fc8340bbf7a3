import Concordance.Proofs.Decoding
import Concordance.Proofs.Indexing.Flushing
import Concordance.Proofs.Posting.Gather

/-!
# An Index Is the Inverted Index of Its Documents

What the words of an index say, in terms of the documents that were read.

The reference takes the candidates of each document and looks for a word among them,
place by place. It knows nothing of maps, runs or merges. `IsInvertedIndex` says what
the words of an index have to be by this reference, and the words that a new session
publishes are just that.

The way there is short once a session is known by its log. The occurrences of a word
in one document are its places, and gathering them gives the posting which the
reference asks for. Documents are fused one by one, so the postings of a word are
these in the order of the documents.

## Main definitions

* `Rules`: What decides about the words of documents.
* `Rules.finds`, `Rules.places`: Where a word is, by the reference.
* `IsInvertedIndex`: Words with the postings that they should have.

## Theorems

* `Session.words_eq_of_volume`: The words of an index are merged words with their ranks.
* `Session.Merges.isInvertedIndex`: The words that a session publishes.
-/

namespace Concordance

/-- What decides about the words of documents. -/
structure Rules where
  sizes : Word.Sizes
  stopWords : StopWords
  stemmer : String → String

namespace Rules

variable (rules : Rules) (word : String)

/-- Is a candidate an occurrence of a word? It is if it passes the check, if neither
    it nor its stem is a stop word, and if the word is its stem. -/
def finds (candidate : Candidate) : Bool :=
  let prepared := Word.prepare candidate.raw
  (Word.check rules.sizes prepared).isNone && !rules.stopWords.contains prepared
    && !rules.stopWords.contains word && rules.stemmer prepared == word

/-- The occurrences of a word in a document, each with its place among all
    candidates. -/
def found (candidates : List Candidate) : List (Candidate × Nat) :=
  candidates.zipIdx.filter fun (candidate, _) => rules.finds word candidate

/-- The places of a word among all candidates of a document. -/
def places (candidates : List Candidate) : List Nat :=
  (rules.found word candidates).map Prod.snd

/-- The number of documents that have a word. -/
def documentsWith (corpus : List (List Candidate)) : Nat :=
  corpus.countP fun candidates => !(rules.places word candidates).isEmpty

/-- The number of times that a word is in some documents. -/
def occurrencesIn (corpus : List (List Candidate)) : Nat :=
  total (fun candidates => (rules.places word candidates).length) corpus

end Rules

/-- The posting that a word should have in a document with these candidates. -/
structure IsPostingOf (rules : Rules) (corpus : List (List Candidate)) (word : String)
    (candidates : List Candidate) (posting : Posting) : Prop where
  positions : posting.positions.map UInt32.toNat = rules.places word candidates
  occurrences : posting.occurrences.toNat = (rules.places word candidates).length
  metaIds_ascend : posting.metaIds.Pairwise (· < ·)
  mem_metaIds : ∀ id, id ∈ posting.metaIds
    ↔ ∃ candidate ∈ candidates, rules.finds word candidate ∧ candidate.metaId = some id
  rank : posting.rank = Rank.ofPosting posting.occurrences
    (UInt64.ofNat (rules.occurrencesIn word corpus)) (UInt32.ofNat candidates.length)

/-- Words with the postings that they should have, given the candidates of all
    documents. -/
structure IsInvertedIndex (rules : Rules) (corpus : List (List Candidate))
    (words : List WordPostings) : Prop where
  ascend : words.Pairwise fun a b => Utf8.bytes a.word < Utf8.bytes b.word
  mem_iff : ∀ word, word ∈ words.map WordPostings.word
    ↔ ∃ candidates ∈ corpus, ∃ candidate ∈ candidates, rules.finds word candidate
  documents_ascend : ∀ entry ∈ words,
    entry.postings.Pairwise fun p q => p.document < q.document
  /-- The documents are those that have the word. -/
  documents : ∀ entry ∈ words, ∀ i, (∃ p ∈ entry.postings, p.document.toNat = i)
    ↔ ∃ candidates, corpus[i]? = some candidates
      ∧ ∃ candidate ∈ candidates, rules.finds entry.word candidate
  postings : ∀ entry ∈ words, ∀ p ∈ entry.postings, ∀ candidates,
    corpus[p.document.toNat]? = some candidates →
      IsPostingOf rules corpus entry.word candidates p

/-- The rules of a session. -/
def Session.rules (session : Session) : Rules :=
  ⟨session.options.sizes, session.stopWords, session.stemmer⟩

theorem Session.accept_eq_some_iff_finds {session : Session} {word : String}
    {candidate : Candidate} :
    session.accept (Word.prepare candidate.raw) = some word
      ↔ session.rules.finds word candidate = true := by
  rw [Session.accept_eq_some_iff]
  simp only [Rules.finds, Session.rules, Bool.and_eq_true, Option.isNone_iff_eq_none,
    Bool.not_eq_true', beq_iff_eq, and_assoc]
  rw [eq_comm (a := word)]

namespace Rules

variable {rules : Rules} {word : String} {candidates : List Candidate}

/-- A word occurs where it is found. -/
theorem mem_found {candidate : Candidate} {i : Nat} :
    (candidate, i) ∈ rules.found word candidates
      ↔ candidates[i]? = some candidate ∧ rules.finds word candidate := by
  rw [found, List.mem_filter, List.mem_zipIdx_iff_getElem?]

/-- Places are places of candidates. -/
theorem lt_of_mem_found {candidate : Candidate} {i : Nat}
    (h : (candidate, i) ∈ rules.found word candidates) : i < candidates.length :=
  (List.getElem?_eq_some_iff.mp (mem_found.mp h).1).1

theorem found_ne_nil :
    rules.found word candidates ≠ [] ↔ ∃ candidate ∈ candidates, rules.finds word candidate := by
  constructor
  · intro h
    rcases List.exists_mem_of_ne_nil _ h with ⟨⟨candidate, i⟩, hmem⟩
    rcases mem_found.mp hmem with ⟨hget, hfinds⟩
    exact ⟨candidate, List.mem_of_getElem? hget, hfinds⟩
  · rintro ⟨candidate, hmem, hfinds⟩
    rcases List.mem_iff_getElem?.mp hmem with ⟨i, hget⟩
    exact List.ne_nil_of_mem (mem_found.mpr ⟨hget, hfinds⟩)

/-- There are no more places than candidates. -/
theorem length_places_le (rules : Rules) (word : String) (candidates : List Candidate) :
    (rules.places word candidates).length ≤ candidates.length := by
  rw [places, List.length_map]
  refine Nat.le_trans (List.length_filter_le ..) ?_
  exact Nat.le_of_eq List.length_zipIdx

/-- The occurrences of a word in a document, as postings of their own. -/
def singles (rules : Rules) (word : String) (document : UInt32) (candidates : List Candidate) :
    List Posting :=
  (rules.found word candidates).map fun (candidate, i) =>
    Posting.single document (clip i) candidate.metaId

theorem singles_document {document : UInt32} :
    ∀ p ∈ rules.singles word document candidates, p.document = document := by
  intro p hp
  rcases List.mem_map.mp hp with ⟨_, -, rfl⟩
  rfl

theorem singles_namesAscend {document : UInt32} :
    ∀ p ∈ rules.singles word document candidates, p.NamesAscend := by
  intro p hp
  rcases List.mem_map.mp hp with ⟨⟨⟨raw, _ | id⟩, i⟩, -, rfl⟩
  · exact List.Pairwise.nil
  · exact List.pairwise_singleton _ _

theorem singles_ne_nil {document : UInt32} :
    rules.singles word document candidates ≠ []
      ↔ ∃ candidate ∈ candidates, rules.finds word candidate := by
  rw [← found_ne_nil, singles, ne_eq, List.map_eq_nil_iff]

theorem places_eq_nil_iff {document : UInt32} :
    rules.places word candidates = [] ↔ rules.singles word document candidates = [] := by
  rw [places, singles, List.map_eq_nil_iff, List.map_eq_nil_iff]

/-- A document that has a word has one posting for it. -/
theorem exists_posting {document : UInt32} (h : rules.singles word document candidates ≠ []) :
    ∃ posting, fuse (rules.singles word document candidates) = [posting]
      ∧ Gathers (rules.singles word document candidates) posting ∧ posting.document = document := by
  rcases exists_gathers h singles_document singles_namesAscend with ⟨posting, hfuse, hgathers⟩
  rcases List.exists_mem_of_ne_nil _ h with ⟨single, hsingle⟩
  refine ⟨posting, hfuse, hgathers, ?_⟩
  rw [← hgathers.document single hsingle, singles_document single hsingle]

/-- All occurrences of a word in a document, put together, are the posting that it
    should have there, but for the rank. -/
theorem isPostingOf_of_gathers {document : UInt32} {posting : Posting}
    (h : Gathers (rules.singles word document candidates) posting)
    (hlength : candidates.length < UInt32.size) (corpus : List (List Candidate)) {rank : UInt32}
    (hrank : rank = Rank.ofPosting posting.occurrences
      (UInt64.ofNat (rules.occurrencesIn word corpus)) (UInt32.ofNat candidates.length)) :
    IsPostingOf rules corpus word candidates { posting with rank } := by
  refine ⟨?_, ?_, h.names, fun id => ?_, hrank⟩
  · have hpositions : posting.positions
        = (rules.found word candidates).map fun (_, i) => clip i := by
      rw [h.positions, singles, List.flatMap_map, List.map_eq_flatMap]
      rfl
    show posting.positions.map UInt32.toNat = _
    -- There are fewer candidates than positions, so no position is clipped.
    rw [hpositions, List.map_map, places]
    refine List.map_congr_left fun ⟨candidate, i⟩ hmem => ?_
    have hlt := lt_of_mem_found hmem
    show (clip i).toNat = i
    rw [toNat_clip, Nat.min_eq_left (by omega)]
  · show posting.occurrences.toNat = _
    have htotal : ∀ found : List (Candidate × Nat),
        total (fun part => part.occurrences.toNat) (found.map fun (candidate, i) =>
          Posting.single document (clip i) candidate.metaId) = found.length := by
      intro found
      induction found with
      | nil => rfl
      | cons _ _ ih =>
        rw [List.map_cons, total_cons, ih, List.length_cons, Nat.add_comm]
        rfl
    -- For the same reason the count does not stop at the largest one.
    have hle := rules.length_places_le word candidates
    rw [places, List.length_map] at hle ⊢
    rw [h.occurrences, singles, htotal, Nat.min_eq_left (by omega)]
  · show id ∈ posting.metaIds ↔ _
    rw [h.mem_metaIds]
    constructor
    · rintro ⟨part, hpart, hid⟩
      rcases List.mem_map.mp hpart with ⟨⟨candidate, i⟩, hmem, rfl⟩
      rcases mem_found.mp hmem with ⟨hget, hfinds⟩
      exact ⟨candidate, List.mem_of_getElem? hget, hfinds, Option.mem_toList.mp hid⟩
    · rintro ⟨candidate, hmem, hfinds, hid⟩
      rcases List.mem_iff_getElem?.mp hmem with ⟨i, hget⟩
      exact ⟨_, List.mem_map_of_mem (mem_found.mpr ⟨hget, hfinds⟩), Option.mem_toList.mpr hid⟩

end Rules

namespace Log

variable (session : Session) (word : String)

/-- The occurrences of a word that are recorded of a document are those which the
    reference finds. -/
theorem postingsOf_ofDocument (document : UInt32) (candidates : List Candidate) :
    (ofDocument session.accept document 0 candidates).postingsOf (Utf8.bytes word)
      = session.rules.singles word document candidates := by
  rw [postingsOf, ofDocument, Rules.singles, Rules.found]
  induction candidates.zipIdx with
  | nil => rfl
  | cons placed rest ih =>
    rcases placed with ⟨candidate, i⟩
    rw [List.filterMap_cons, List.filter_cons]
    rcases haccept : session.accept (Word.prepare candidate.raw) with _ | stem
    · -- A rejected candidate takes a place and leaves nothing there.
      have hfinds : session.rules.finds word candidate = false := by
        refine Bool.eq_false_iff.mpr fun h => ?_
        rw [← Session.accept_eq_some_iff_finds, haccept] at h
        exact absurd h (by simp)
      simp only [haccept, hfinds, Option.map_none, Bool.false_eq_true, if_false] at ih ⊢
      exact ih
    · simp only [haccept, Option.map_some, List.filter_cons] at ih ⊢
      by_cases hstem : stem = word
      · -- A candidate that was accepted is recorded under its stem, and under no other word.
        have hfinds : session.rules.finds word candidate = true := by
          rw [← Session.accept_eq_some_iff_finds, haccept, hstem]
        have hkey : Occurrence.key ⟨stem, document, clip i, candidate.metaId⟩
            = Utf8.bytes word := by rw [hstem, Occurrence.key]
        rw [if_pos (decide_eq_true hkey), if_pos hfinds, List.map_cons, List.map_cons, ih]
        rfl
      · have hfinds : session.rules.finds word candidate = false := by
          refine Bool.eq_false_iff.mpr fun h => hstem ?_
          rw [← Session.accept_eq_some_iff_finds, haccept] at h
          exact Option.some.inj h
        have hkey : Occurrence.key ⟨stem, document, clip i, candidate.metaId⟩
            ≠ Utf8.bytes word := fun h => hstem (Utf8.bytes_injective h)
        rw [if_neg (by simpa using hkey), hfinds, if_neg (by simp), ih]

/-- So are those of all documents. -/
theorem postingsOf_ofCorpus (start : Nat) (corpus : List (List Candidate)) :
    (ofCorpus session.accept start corpus).postingsOf (Utf8.bytes word)
      = (corpus.zipIdx start).flatMap fun (candidates, i) =>
          session.rules.singles word (UInt32.ofNat i) candidates := by
  induction corpus generalizing start with
  | nil => rfl
  | cons candidates corpus ih =>
    rw [ofCorpus_cons, postingsOf_append, ih, postingsOf_ofDocument, List.zipIdx_cons,
      List.flatMap_cons]

/-- The postings of a word come document by document. -/
theorem fuse_postingsOf_ofCorpus {corpus : List (List Candidate)}
    (h : corpus.length ≤ UInt32.size) :
    fuse ((ofCorpus session.accept 0 corpus).postingsOf (Utf8.bytes word))
      = corpus.zipIdx.flatMap fun (candidates, i) =>
          fuse (session.rules.singles word (UInt32.ofNat i) candidates) := by
  rw [postingsOf_ofCorpus]
  refine fuse_flatMap_of_lt (List.pairwise_iff_getElem.mpr fun i j hi hj hij p hp q hq => ?_)
  rw [List.length_zipIdx] at hi hj
  simp only [List.getElem_zipIdx, Nat.zero_add] at hp hq
  rw [Rules.singles_document p hp, Rules.singles_document q hq, UInt32.lt_iff_toNat_lt,
    UInt32.toNat_ofNat', UInt32.toNat_ofNat']
  have hs : UInt32.size = 4294967296 := rfl
  omega

variable {session word} {corpus : List (List Candidate)}

/-- Each posting of a word has gathered the word's occurrences in a document. -/
theorem exists_gathers_of_mem (h : corpus.length ≤ UInt32.size) {p : Posting}
    (hp : p ∈ fuse ((ofCorpus session.accept 0 corpus).postingsOf (Utf8.bytes word))) :
    ∃ candidates, corpus[p.document.toNat]? = some candidates
      ∧ (∃ candidate ∈ candidates, session.rules.finds word candidate)
      ∧ Gathers (session.rules.singles word p.document candidates) p := by
  rw [fuse_postingsOf_ofCorpus session word h] at hp
  rcases List.mem_flatMap.mp hp with ⟨⟨candidates, i⟩, hmem, hp⟩
  have hget := List.mem_zipIdx_iff_getElem?.mp hmem
  have hlt : i < UInt32.size := Nat.lt_of_lt_of_le (List.getElem?_eq_some_iff.mp hget).1 h
  -- The posting is among those of one document, which is the one that it names.
  have hne : session.rules.singles word (UInt32.ofNat i) candidates ≠ [] := by
    intro hnil
    simp only [hnil] at hp
    exact absurd hp List.not_mem_nil
  rcases Rules.exists_posting hne with ⟨posting, hfuse, hgathers, hdoc⟩
  simp only [hfuse, List.mem_singleton] at hp
  rcases hp with rfl
  rw [← hdoc] at hgathers
  refine ⟨candidates, ?_, Rules.singles_ne_nil.mp hne, hgathers⟩
  rw [hdoc, UInt32.toNat_ofNat', Nat.mod_eq_of_lt hlt]
  exact hget

/-- Each document that has a word is among the word's postings. -/
theorem exists_mem_of_finds (h : corpus.length ≤ UInt32.size) {i : Nat}
    {candidates : List Candidate} (hget : corpus[i]? = some candidates)
    (hfinds : ∃ candidate ∈ candidates, session.rules.finds word candidate) :
    ∃ p ∈ fuse ((ofCorpus session.accept 0 corpus).postingsOf (Utf8.bytes word)),
      p.document.toNat = i := by
  have hlt : i < UInt32.size := Nat.lt_of_lt_of_le (List.getElem?_eq_some_iff.mp hget).1 h
  have hne : session.rules.singles word (UInt32.ofNat i) candidates ≠ [] :=
    Rules.singles_ne_nil.mpr hfinds
  rcases Rules.exists_posting hne with ⟨posting, hfuse, -, hdoc⟩
  refine ⟨posting, ?_, ?_⟩
  · rw [fuse_postingsOf_ofCorpus session word h]
    refine List.mem_flatMap.mpr ⟨(candidates, i), List.mem_zipIdx_iff_getElem?.mpr hget, ?_⟩
    simp only [hfuse, List.mem_singleton]
  · rw [hdoc, UInt32.toNat_ofNat', Nat.mod_eq_of_lt hlt]

/-- What is counted in the postings of a word can be counted document by document. -/
theorem total_fuse_postingsOf (h : corpus.length ≤ UInt32.size) {f : Posting → Nat}
    {g : List Candidate → Nat} (hone : ∀ candidates ∈ corpus, ∀ document,
      total f (fuse (session.rules.singles word document candidates)) = g candidates) :
    total f (fuse ((ofCorpus session.accept 0 corpus).postingsOf (Utf8.bytes word)))
      = total g corpus := by
  rw [fuse_postingsOf_ofCorpus session word h]
  clear h
  generalize 0 = start
  induction corpus generalizing start with
  | nil => rfl
  | cons candidates corpus ih =>
    rw [List.zipIdx_cons, List.flatMap_cons, total_append, total_cons,
      ih fun c hc => hone c (List.mem_cons_of_mem _ hc),
      hone candidates List.mem_cons_self (UInt32.ofNat start)]

/-- The counts of a word add up to its occurrences. -/
theorem total_occurrences (h : corpus.length ≤ UInt32.size)
    (hlengths : ∀ candidates ∈ corpus, candidates.length < UInt32.size) :
    total (fun p => p.occurrences.toNat)
        (fuse ((ofCorpus session.accept 0 corpus).postingsOf (Utf8.bytes word)))
      = session.rules.occurrencesIn word corpus := by
  refine total_fuse_postingsOf h fun candidates hmem document => ?_
  by_cases hnil : session.rules.singles word document candidates = []
  · rw [hnil, Rules.places_eq_nil_iff.mpr hnil]
    rfl
  · rcases Rules.exists_posting hnil with ⟨posting, hfuse, hgathers, -⟩
    have hcount := (Rules.isPostingOf_of_gathers hgathers (hlengths _ hmem) [] rfl).occurrences
    rw [hfuse, total_cons, total_nil, Nat.add_zero]
    exact hcount

/-- A word has as many postings as there are documents with it. -/
theorem length_fuse_postingsOf (h : corpus.length ≤ UInt32.size) :
    (fuse ((ofCorpus session.accept 0 corpus).postingsOf (Utf8.bytes word))).length
      = session.rules.documentsWith word corpus := by
  -- Postings are counted like occurrences, each as one.
  have hlength : ∀ postings : List Posting, postings.length = total (fun _ => 1) postings := by
    intro postings
    induction postings with
    | nil => rfl
    | cons _ _ ih => rw [List.length_cons, total_cons, ih, Nat.add_comm]
  have hcount : session.rules.documentsWith word corpus
      = total (fun candidates => if (session.rules.places word candidates).isEmpty then 0 else 1)
        corpus := by
    rw [Rules.documentsWith]
    clear h
    induction corpus with
    | nil => rfl
    | cons candidates corpus ih =>
      rw [List.countP_cons, total_cons, ih, Nat.add_comm]
      cases (session.rules.places word candidates).isEmpty <;> rfl
  rw [hlength, hcount]
  refine total_fuse_postingsOf h fun candidates _ document => ?_
  by_cases hnil : session.rules.singles word document candidates = []
  · rw [hnil, Rules.places_eq_nil_iff.mpr hnil]
    rfl
  · rcases Rules.exists_posting hnil with ⟨posting, hfuse, -, -⟩
    have hplaces : (session.rules.places word candidates).isEmpty = false := by
      rw [List.isEmpty_eq_false_iff]
      exact fun hplaces => hnil (Rules.places_eq_nil_iff.mp hplaces)
    rw [hfuse, hplaces]
    rfl

end Log

/-- The word counts of records are those of their documents. -/
theorem wordsIn_records {operations : List Operation} {document : UInt32}
    {candidates : List Candidate}
    (h : (corpus operations)[document.toNat]? = some candidates) :
    wordsIn (records operations) document = clip candidates.length := by
  have hwords := congrArg (·[document.toNat]?) (words_records operations)
  simp only [List.getElem?_map, h, Option.map_some] at hwords
  rcases Option.map_eq_some_iff.mp hwords with ⟨record, hget, hcount⟩
  rw [wordsIn, hget]
  exact hcount

/-- A word with the ranks of its postings. -/
def WordPostings.withRanks (files : List Record) (entry : WordPostings) : WordPostings :=
  ⟨entry.word, rankAll files entry.postings⟩

theorem WordPostings.table_withRanks (files : List Record) (merged : List WordPostings) :
    table (merged.map (withRanks files)) = (table merged).ranked files := by
  rw [table, table, WordMap.ranked, List.map_map, List.map_map]
  rfl

namespace Session

/-- The words that a session publishes are the merged words that it keeps, with their ranks. -/
theorem words_eq_of_volume {session : Session} {merged words : List WordPostings}
    (h : WordPostings.table words = (session.volume merged).words) :
    words = (merged.filter fun word => !session.tooCommon word).map
      (WordPostings.withRanks session.files) := by
  refine WordPostings.table_injective (h.trans ?_)
  rw [WordPostings.table_withRanks]
  rfl

/-- If none of them is spread too far, then these are all merged words. -/
theorem words_eq_of_rare {session : Session} {merged words : List WordPostings}
    (h : WordPostings.table words = (session.volume merged).words)
    (hrare : ∀ word ∈ merged, session.tooCommon word = false) :
    words = merged.map (WordPostings.withRanks session.files) := by
  rw [words_eq_of_volume h, List.filter_eq_self.mpr fun word hword => by rw [hrare word hword]; rfl]

section Merged

variable {session : Session} {operations : List Operation} {merged : List WordPostings}

/-- Words that were merged from a log alone have the postings of the log. -/
theorem Merges.postings_of_log {log : Log} (h : Merges [] log merged) {entry : WordPostings}
    (hentry : entry ∈ merged) : entry.postings = fuse (log.postingsOf (Utf8.bytes entry.word)) := by
  rw [h.postings_eq hentry, WordMap.postingsOf_nil, List.nil_append]

/-- The words that a log without a base merges to are those of the reference. -/
theorem Merges.mem_iff (h : Merges [] (Log.ofCorpus session.accept 0 (corpus operations)) merged)
    (hroom : (corpus operations).length ≤ UInt32.size) (word : String) :
    word ∈ merged.map WordPostings.word
      ↔ ∃ candidates ∈ corpus operations, ∃ candidate ∈ candidates,
        session.rules.finds word candidate := by
  constructor
  · intro hword
    rcases List.mem_map.mp hword with ⟨entry, hentry, rfl⟩
    have hne : entry.postings ≠ [] := h.proper.nonempty _ (List.mem_map_of_mem hentry)
    rw [h.postings_of_log hentry] at hne
    rcases List.exists_mem_of_ne_nil _ hne with ⟨p, hp⟩
    rcases Log.exists_gathers_of_mem hroom hp with ⟨candidates, hget, hfinds, -⟩
    exact ⟨candidates, List.mem_of_getElem? hget, hfinds⟩
  · -- A candidate that is found leaves a posting, and the words with postings are those of the
    -- table.
    rintro ⟨candidates, hmem, hfinds⟩
    rcases List.mem_iff_getElem?.mp hmem with ⟨i, hget⟩
    rcases Log.exists_mem_of_finds hroom hget hfinds with ⟨p, hp, -⟩
    have hne : (WordPostings.table merged).postingsOf (Utf8.bytes word) ≠ [] := by
      rw [h.postings, WordMap.postingsOf_nil, List.nil_append]
      exact List.ne_nil_of_mem hp
    rcases List.mem_map.mp (WordMap.mem_of_postingsOf hne) with ⟨entry, hentry, heq⟩
    have hbytes := congrArg Prod.fst heq
    rw [← Utf8.bytes_injective hbytes]
    exact List.mem_map_of_mem hentry

/-- Words that were merged from a log without a base, once they have their ranks, are
    what they should be. -/
theorem Merges.isInvertedIndex
    (h : Merges [] (Log.ofCorpus session.accept 0 (corpus operations)) merged)
    (hfollows : Follows [] (Log.ofCorpus session.accept 0 (corpus operations)))
    (hroom : (corpus operations).length ≤ UInt32.size)
    (hlengths : ∀ candidates ∈ corpus operations, candidates.length < UInt32.size) :
    IsInvertedIndex session.rules (corpus operations)
      (merged.map (WordPostings.withRanks (records operations))) := by
  refine ⟨?_, fun word => ?_, ?_, ?_, ?_⟩
  · have hascend : merged.Pairwise fun a b => Utf8.bytes a.word < Utf8.bytes b.word :=
      (List.pairwise_map (R := fun a b : Bytes × List Posting => a.1 < b.1)).mp h.proper.ascend
    exact List.pairwise_map.mpr hascend
  · rw [List.map_map]
    exact h.mem_iff hroom word
  · intro ranked hranked
    rcases List.mem_map.mp hranked with ⟨entry, hentry, rfl⟩
    exact List.pairwise_map.mpr (h.tidy hfollows hentry).ascending
  · intro ranked hranked i
    rcases List.mem_map.mp hranked with ⟨entry, hentry, rfl⟩
    constructor
    · rintro ⟨q, hq, rfl⟩
      rcases List.mem_map.mp hq with ⟨p, hp, rfl⟩
      rw [h.postings_of_log hentry] at hp
      rcases Log.exists_gathers_of_mem hroom hp with ⟨candidates, hget, hfinds, -⟩
      exact ⟨candidates, hget, hfinds⟩
    · rintro ⟨candidates, hget, hfinds⟩
      rcases Log.exists_mem_of_finds hroom hget hfinds with ⟨p, hp, hdoc⟩
      rw [WordPostings.withRanks, ← h.postings_of_log hentry] at hp
      exact ⟨_, List.mem_map_of_mem hp, hdoc⟩
  · intro ranked hranked q hq candidates hget
    rcases List.mem_map.mp hranked with ⟨entry, hentry, rfl⟩
    rcases List.mem_map.mp hq with ⟨p, hp, rfl⟩
    have hlog := h.postings_of_log hentry
    rw [hlog] at hp
    rcases Log.exists_gathers_of_mem hroom hp with ⟨candidates', hget', -, hgathers⟩
    -- There is one document at a place.
    have hsame : candidates' = candidates := Option.some.inj (hget'.symm.trans hget)
    rw [hsame] at hgathers
    have hlength := hlengths candidates (List.mem_of_getElem? hget)
    refine Rules.isPostingOf_of_gathers hgathers hlength (corpus operations) ?_
    have hclip : clip candidates.length = UInt32.ofNat candidates.length := by
      rw [clip, Nat.min_eq_left (by omega)]
    rw [wordsIn_records hget, hlog, Log.total_occurrences hroom hlengths, hclip]

end Merged

/-- The words that a new session publishes are the inverted index of its documents,
    if its limit demotes no word. -/
theorem publishes_invertedIndex (disk : Disk) (options : IndexingOptions)
    (stopWords : StopWords) (stemmer : String → String)
    (hnul : StemsNulFree options.sizes stemmer) (operations : List Operation)
    (hroom : (records operations).length < UInt32.size)
    (hlengths : ∀ candidates ∈ corpus operations, candidates.length < UInt32.size)
    (hlimit : ∀ word, options.spread.exceededBy
      (Rules.documentsWith ⟨options.sizes, stopWords, stemmer⟩ word (corpus operations))
      (corpus operations).length = false)
    {session : Session} (hstart : start? disk options stopWords = .ok session)
    (hfit : ({ session with stemmer }.run operations).RunsFit) :
    ∃ summary bytes, ({ session with stemmer }.run operations).Publishes summary bytes
      ∧ summary.demoted = []
      ∧ (bytes.length < UInt64.size → ∃ index words, Index.open? bytes.toArray = .ok index
        ∧ index.decodeWords = .ok words
        ∧ IsInvertedIndex ⟨options.sizes, stopWords, stemmer⟩ (corpus operations) words) := by
  rcases eq_of_start? hstart with rfl
  have hdone := HasRecorded.new_run options stopWords hnul (Nat.le_of_lt hroom)
  rcases hdone.publishes hfit with ⟨merged, sources, hmerges, hpublishes⟩
  have hdocuments : (corpus operations).length ≤ UInt32.size := by
    rw [length_corpus]
    omega
  obtain ⟨_, _, _, hrun⟩ := new_run_keeps options stemmer stopWords operations
    (Nat.le_of_lt hroom)
  -- No word is spread over more documents than the limit allows.
  have hkept : ∀ entry ∈ merged,
      (({ options, stemmer, stopWords } : Session).run operations).tooCommon entry = false := by
    intro entry hentry
    rw [tooCommon, hmerges.postings_of_log hentry, Log.length_fuse_postingsOf hdocuments, hrun,
      ← length_corpus]
    exact hlimit entry.word
  have hdemoted : (({ options, stemmer, stopWords } : Session).run operations).demoted merged
      = [] := by
    rw [demoted, List.filter_eq_nil_iff.mpr fun entry hentry => by rw [hkept entry hentry]; simp]
    rfl
  refine ⟨_, _, hpublishes, hdemoted, fun hsize => ?_⟩
  rcases Volume.open?_bytes _ hsize with ⟨index, hopen, -, hwords, -⟩
  obtain ⟨words, hdecode, htable⟩ :=
    Index.decodeWords_of_holds (hwords (hdone.volume_sound hmerges).storable)
  have hwords : words = merged.map (WordPostings.withRanks (records operations)) := by
    rw [words_eq_of_rare htable hkept, hrun]
  refine ⟨index, words, hopen, hdecode, ?_⟩
  rw [hwords]
  exact hmerges.isInvertedIndex hdone.follows hdocuments hlengths

/-- Two documents, in which a rejected word keeps its place. -/
theorem publishes_invertedIndex_of_two :
    let read : List Operation := [.file 0 "one" 9 none [.text "Sense, a sense." (some 4)],
      .file 0 "two" 4 none [.word "none" none, .word "Sense" none]]
    ∃ summary bytes,
      (({ options := {}, stopWords := .empty } : Session).run read).Publishes summary bytes
      ∧ summary.demoted = []
      ∧ (bytes.length < UInt64.size → ∃ index words, Index.open? bytes.toArray = .ok index
        ∧ index.decodeWords = .ok words
        ∧ IsInvertedIndex ⟨{}, .empty, id⟩ (corpus read) words) := by
  intro read
  -- Without a limit no word is in too many documents.
  have hlimit : ∀ word, SpreadLimit.exceededBy {}
      (Rules.documentsWith ⟨{}, .empty, id⟩ word (corpus read)) (corpus read).length = false := by
    intro word
    have hle : Rules.documentsWith ⟨{}, .empty, id⟩ word (corpus read) ≤ 2 := List.countP_le_length
    simp only [SpreadLimit.exceededBy, Nat.lt_irrefl, decide_false, Bool.false_and, Bool.or_false,
      decide_eq_false_iff_not]
    have hs : UInt64.size = 18446744073709551616 := rfl
    omega
  have hfit : (({ options := {}, stopWords := .empty } : Session).run read).RunsFit := by
    decide +kernel
  have h := publishes_invertedIndex {} {} .empty id (stemsNulFree_id _) read (by decide)
    (by decide +kernel) hlimit rfl hfit
  exact h

end Session

end Concordance
