import Concordance.Indexing.Publication
import Concordance.Proofs.Indexing.Session
import Concordance.Proofs.Merge

/-!
# Where Runs Are Cut Does Not Matter

The runs of a session hold its log, however it was cut into runs.

A run is written whenever there are enough words in memory, in the middle of a
document or not. `Logged` says that the runs and the map in memory are those of
successive pieces of a log. Recording keeps this, whether it writes a run or not.
When the runs are merged again every word has all of its occurrences in the log
fused (`closed_merge`). Nothing in this says where the pieces ended.

## Main definitions

* `StemsNulFree`: What a stemmer must yield.
* `Session.Logged`: Runs and memory hold a log.
* `Session.closed`: A session whose memory was written out.
* `Session.BaseHolds`: What the index that is added to holds.
* `Session.HasRecorded`: A session that has recorded a log on top of an index.

## Theorems

* `Session.Logged.recordAll`: Recording keeps a session logged.
* `Session.closed_merge`: What the sources of a session merge to.
* `Session.HasRecorded.run`: Sessions of this kind stay so.
-/

namespace Concordance

/-- The stems of words that pass the check can be stored. -/
def StemsNulFree (sizes : Word.Sizes) (stemmer : String → String) : Prop :=
  ∀ word, Word.check sizes word = none → NulFree (stemmer word)

/-- A word that passes the check can be stored. -/
theorem Word.nulFree_of_check {sizes : Word.Sizes} {word : String}
    (h : Word.check sizes word = none) : NulFree word := by
  intro hmem
  rcases hall : word.toList.all Word.isWordChar with _ | _
  · rw [Word.check, Word.checkChars, hall] at h
    split at h
    · exact absurd h (by simp)
    · split at h <;> exact absurd h (by simp)
  · exact absurd (List.all_eq_true.mp hall _ hmem) (by decide)

/-- So can its stem, if it is its own stem. -/
theorem stemsNulFree_id (sizes : Word.Sizes) : StemsNulFree sizes id :=
  fun _ => Word.nulFree_of_check

namespace Session

/-- The runs and the map in memory hold the pieces of a log. -/
def Logged (session : Session) (log : Log) : Prop :=
  ∃ pieces : List Log, ∃ rest : Log, log = pieces.flatten ++ rest
    ∧ session.runs = pieces.map (fun piece => piece.words.encode) ∧ session.words = rest.words

/-- A session whose memory was written out, if there was anything in it. -/
def closed (session : Session) : Session :=
  if session.words.isEmpty then session else session.flush

/-- The words of the index that is added to; none if there is no such index. -/
def BaseHolds (session : Session) (words : WordMap) : Prop :=
  match session.base with
  | none => words = []
  | some index => index.words.Holds words

theorem Logged.noted {session : Session} {log : Log} (h : session.Logged log)
    (occurrence : Occurrence) : (session.noted occurrence).Logged (log ++ [occurrence]) := by
  rcases h with ⟨pieces, rest, rfl, hruns, hwords⟩
  refine ⟨pieces, rest ++ [occurrence], List.append_assoc .., hruns, ?_⟩
  rw [Log.words, List.foldl_append, ← Log.words, ← hwords]
  rfl

theorem Logged.flush {session : Session} {log : Log} (h : session.Logged log) :
    session.flush.Logged log := by
  rcases h with ⟨pieces, rest, rfl, hruns, hwords⟩
  refine ⟨pieces ++ [rest], [], ?_, ?_, rfl⟩
  · rw [List.flatten_append, List.flatten_cons, List.flatten_nil, List.append_nil, List.append_nil]
  · rw [Session.flush, hruns, hwords, List.map_append]
    rfl

/-- Recording keeps a session logged. -/
theorem Logged.recordOne {session : Session} {log : Log} (h : session.Logged log)
    (occurrence : Occurrence) : (session.recordOne occurrence).Logged (log ++ [occurrence]) := by
  rw [recordOne_eq]
  split
  · exact (h.noted occurrence).flush
  · exact h.noted occurrence

theorem Logged.recordAll {session : Session} {log : Log} (h : session.Logged log) (more : Log) :
    (session.recordAll more).Logged (log ++ more) := by
  induction more generalizing session log with
  | nil =>
    rw [List.append_nil]
    exact h
  | cons occurrence more ih =>
    have hrest := ih (h.recordOne occurrence)
    rw [List.append_assoc, List.singleton_append] at hrest
    exact hrest

/-- A session that was asked to do several things holds what it recorded. -/
theorem Logged.run {session : Session} {log : Log} (h : session.Logged log)
    {operations : List Operation}
    (hroom : session.files.length + (records operations).length ≤ UInt32.size) :
    (session.run operations).Logged
      (log ++ Log.ofCorpus session.accept session.files.length (corpus operations)) := by
  rw [run_eq session operations hroom]
  exact h.recordAll _

/-- All of the log is in the runs once memory was written out. -/
theorem Logged.closed {session : Session} {log : Log} (h : session.Logged log) :
    ∃ pieces : List Log, log = pieces.flatten
      ∧ session.closed.runs = pieces.map fun piece => piece.words.encode := by
  rcases h with ⟨pieces, rest, rfl, hruns, hwords⟩
  by_cases hempty : session.words.isEmpty = true
  · have hrest : rest = [] := Log.eq_nil_of_words (by rw [← hwords, List.isEmpty_iff.mp hempty])
    refine ⟨pieces, ?_, ?_⟩
    · rw [hrest, List.append_nil]
    · rw [Session.closed, if_pos hempty, hruns]
  · refine ⟨pieces ++ [rest], ?_, ?_⟩
    · rw [List.flatten_append, List.flatten_cons, List.flatten_nil, List.append_nil]
    · rw [Session.closed, if_neg hempty, Session.flush, hruns, hwords, List.map_append]
      rfl

/-- The runs of a session are read back as segments that hold the pieces. -/
theorem collect_runs {pieces : List Log} (h : ∀ piece ∈ pieces, piece.Orderly)
    (hsize : ∀ piece ∈ pieces, piece.words.encode.length < UInt64.size) :
    ∃ held : List (Segment × WordMap),
      collect ((pieces.map fun piece => piece.words.encode).map Run.segment)
          = .ok (held.map Prod.fst)
        ∧ held.map Prod.snd = pieces.map Log.words ∧ ∀ s ∈ held, s.1.Holds s.2 := by
  induction pieces with
  | nil => exact ⟨[], rfl, rfl, fun _ hs => absurd hs List.not_mem_nil⟩
  | cons piece pieces ih =>
    obtain ⟨held, hcollect, hmaps, hholds⟩ := ih (fun p hp => h p (List.mem_cons_of_mem _ hp))
      fun p hp => hsize p (List.mem_cons_of_mem _ hp)
    -- What was written of the first piece is read as a segment that holds it.
    obtain ⟨segment, hsegment, hpiece⟩ :=
      Run.holds (h piece List.mem_cons_self).words_storable (hsize piece List.mem_cons_self)
    refine ⟨(segment, piece.words) :: held, ?_, ?_, ?_⟩
    · rw [List.map_cons, List.map_cons, hsegment, collect, hcollect]
      rfl
    · rw [List.map_cons, hmaps, List.map_cons]
    · intro s hs
      rcases List.mem_cons.mp hs with rfl | hs
      · exact hpiece
      · exact hholds s hs

/-- The index that is added to is one more segment, in front of the runs. -/
theorem BaseHolds.exists_held {session : Session} {base : WordMap} (h : session.BaseHolds base)
    (hproper : base.Proper) :
    ∃ front : List (Segment × WordMap),
      front.map Prod.fst = (session.base.map Index.words).toList
        ∧ (∀ s ∈ front, s.1.Holds s.2) ∧ (∀ s ∈ front, s.2.Proper)
        ∧ ∀ key, front.flatMap (fun s => s.2.postingsOf key) = base.postingsOf key := by
  rw [BaseHolds] at h
  rcases hbase : session.base with _ | index
  · rw [hbase] at h
    refine ⟨[], rfl, fun s hs => absurd hs List.not_mem_nil,
      fun s hs => absurd hs List.not_mem_nil, fun key => ?_⟩
    rw [show base = [] from h]
    rfl
  · -- It is the only one in front, so that what it has of a word is what all of them have.
    rw [hbase] at h
    refine ⟨[(index.words, base)], rfl, fun s hs => ?_, fun s hs => ?_, fun key => ?_⟩
    · rw [List.mem_singleton.mp hs]
      exact h
    · rw [List.mem_singleton.mp hs]
      exact hproper
    · rw [List.flatMap_cons, List.flatMap_nil, List.append_nil]

section Merge

variable {base : WordMap} {log : Log}

/-- Postings of the base and of a log, in the order of their documents. -/
structure Follows (base : WordMap) (log : Log) : Prop where
  proper : base.Proper
  tidy : ∀ e ∈ base, TidyPostings e.2
  orderly : log.Orderly
  /-- The documents of the log come behind those of the base. -/
  behind : ∀ e ∈ base, ∀ p ∈ e.2, ∀ occurrence ∈ log, p.document < occurrence.document

theorem Follows.base_tidy (h : Follows base log) (key : Bytes) :
    TidyPostings (base.postingsOf key) := by
  by_cases hne : base.postingsOf key = []
  · rw [hne]
    exact ⟨fun _ hp => absurd hp List.not_mem_nil, List.Pairwise.nil⟩
  · exact h.tidy _ (WordMap.mem_of_postingsOf hne)

theorem Follows.postings_behind (h : Follows base log) (key : Bytes) :
    ∀ p ∈ base.postingsOf key, ∀ q ∈ log.postingsOf key, p.document < q.document := by
  intro p hp q hq
  rcases List.mem_map.mp hq with ⟨occurrence, hmem, rfl⟩
  exact h.behind _ (WordMap.mem_of_postingsOf (List.ne_nil_of_mem hp)) p hp occurrence
    (List.mem_filter.mp hmem).1

/-- Postings that were fused piece by piece are those of the whole log. -/
theorem Follows.fuse_pieces {pieces : List Log} (h : Follows base pieces.flatten) (key : Bytes) :
    fuse (base.postingsOf key ++ pieces.flatMap fun piece => fuse (piece.postingsOf key))
      = base.postingsOf key ++ fuse (Log.postingsOf pieces.flatten key) := by
  have hbase := h.base_tidy key
  have hnames : ∀ piece ∈ pieces, ∀ p ∈ Log.postingsOf piece key, p.NamesAscend :=
    fun piece _ p hp => (piece.postingsOf_tidy key p hp).names
  calc fuse (base.postingsOf key ++ pieces.flatMap fun piece => fuse (piece.postingsOf key))
      = (pieces.flatMap fun piece => fuse (piece.postingsOf key)).foldl attach
          (base.postingsOf key) := by
        rw [fuse, List.foldl_append, ← fuse, fuse_of_ascending hbase.ascending]
    _ = (Log.postingsOf pieces.flatten key).foldl attach (base.postingsOf key) := by
        rw [foldl_attach_flatMap_fuse _ _ hnames fun p hp => (hbase.tidy p hp).names,
          Log.postingsOf_flatten]
    _ = fuse (base.postingsOf key ++ Log.postingsOf pieces.flatten key) := by
        rw [fuse, List.foldl_append, ← fuse, fuse_of_ascending hbase.ascending]
    _ = base.postingsOf key ++ fuse (Log.postingsOf pieces.flatten key) := by
        rw [fuse_append_of_lt (h.postings_behind key), fuse_of_ascending hbase.ascending]

/-- Documents do not go back from one piece to the next. -/
theorem Follows.pairwise_pieces {pieces : List Log} (h : Follows base pieces.flatten)
    (key : Bytes) :
    (base.postingsOf key ++ pieces.flatMap fun piece => fuse (piece.postingsOf key)).Pairwise
      fun p q => p.document ≤ q.document := by
  have hordered := List.pairwise_flatten.mp h.orderly.ordered
  refine List.pairwise_append.mpr ⟨(h.base_tidy key).ascending.imp UInt32.le_of_lt,
    List.pairwise_flatMap.mpr ⟨fun piece hpiece => ?_, ?_⟩, ?_⟩
  · have hpiece' := h.orderly.sublist (List.sublist_flatten_of_mem hpiece)
    exact (fuse_tidy (piece.postingsOf_tidy key)
      (hpiece'.postingsOf_precedes key)).ascending.imp UInt32.le_of_lt
  · -- Postings of two pieces go back to occurrences, which are in order.
    refine hordered.2.imp fun {a b} hab p hp q hq => ?_
    rcases exists_of_mem_fuse hp with ⟨p', hp', heq⟩
    rcases exists_of_mem_fuse hq with ⟨q', hq', heq'⟩
    rcases List.mem_map.mp hp' with ⟨o, ho, rfl⟩
    rcases List.mem_map.mp hq' with ⟨o', ho', rfl⟩
    rw [← heq, ← heq']
    exact (hab o (List.mem_filter.mp ho).1 o' (List.mem_filter.mp ho').1).document_le
  · -- Documents of the log all come behind those of the base.
    intro p hp q hq
    rcases List.mem_flatMap.mp hq with ⟨piece, hpiece, hq⟩
    rcases exists_of_mem_fuse hq with ⟨q', hq', heq⟩
    have hmem : q' ∈ Log.postingsOf pieces.flatten key := by
      rw [Log.postingsOf_flatten]
      exact List.mem_flatMap.mpr ⟨piece, hpiece, hq'⟩
    rw [← heq]
    exact UInt32.le_of_lt (h.postings_behind key p hp q' hmem)

/-- What the sources of a session merge to: each word has its postings in the base
    and its occurrences in the log, put together. -/
theorem closed_merge {session : Session} (hlogged : session.Logged log)
    (hbase : session.BaseHolds base) (h : Follows base log)
    (hsize : ∀ run ∈ session.closed.runs, run.length < UInt64.size) :
    ∃ segments merged, session.closed.sources = .ok segments
      ∧ Merge.sources segments = .ok merged ∧ (WordPostings.table merged).Proper
      ∧ ∀ key, (WordPostings.table merged).postingsOf key
          = base.postingsOf key ++ fuse (log.postingsOf key) := by
  rcases hlogged.closed with ⟨pieces, rfl, hruns⟩
  have horderly : ∀ piece ∈ pieces, piece.Orderly := fun piece hpiece =>
    h.orderly.sublist (List.sublist_flatten_of_mem hpiece)
  obtain ⟨held, hcollect, hmaps, hholds⟩ := collect_runs horderly fun piece hpiece =>
    hsize _ (by rw [hruns]; exact List.mem_map_of_mem hpiece)
  -- Runs hold the fused postings of the pieces that they were cut from.
  have hheld : ∀ key, held.flatMap (fun s => s.2.postingsOf key)
      = pieces.flatMap fun piece => fuse (piece.postingsOf key) := by
    intro key
    have hmap : held.flatMap (fun s => s.2.postingsOf key)
        = (held.map Prod.snd).flatMap (WordMap.postingsOf · key) := by rw [List.flatMap_map]
    rw [hmap, hmaps, List.flatMap_map]
    congr 1
    funext piece
    exact piece.postingsOf_words key
  -- Nothing more is asked of the runs than that they are maps.
  have hproper : ∀ s ∈ held, s.2.Proper := by
    intro s hs
    rcases List.mem_map.mp (hmaps ▸ List.mem_map_of_mem (f := Prod.snd) hs) with ⟨piece, -, heq⟩
    rw [← heq]
    exact piece.words_proper
  -- The base comes first, as its documents do.
  have hsources : session.closed.sources
      = .ok ((session.base.map Index.words).toList ++ held.map Prod.fst) := by
    have hclosed : session.closed.base = session.base := by
      rw [Session.closed]
      split <;> rfl
    rw [sources, hruns, hcollect, hclosed]
    rfl
  obtain ⟨front, hfront, hfrontHolds, hfrontProper, hfrontPostings⟩ :=
    hbase.exists_held h.proper
  have hall : ∀ key, (front ++ held).flatMap (fun s => s.2.postingsOf key)
      = base.postingsOf key ++ pieces.flatMap fun piece => fuse (piece.postingsOf key) := by
    intro key
    rw [List.flatMap_append, hfrontPostings, hheld]
  have hmem : ∀ {P : Segment × WordMap → Prop}, (∀ s ∈ front, P s) → (∀ s ∈ held, P s) →
      ∀ s ∈ front ++ held, P s :=
    fun hf hh s hs => (List.mem_append.mp hs).elim (hf s) (hh s)
  have hfst : (front ++ held).map Prod.fst = front.map Prod.fst ++ held.map Prod.fst :=
    List.map_append
  obtain ⟨merged, hmerge, htable, hpostings⟩ := Merge.sources_eq hfst
    (hmem hfrontHolds hholds) (hmem hfrontProper hproper) fun key => by
      rw [hall]
      exact h.pairwise_pieces key
  refine ⟨_, merged, hsources, ?_, htable, fun key => ?_⟩
  · rw [← hfront]
    exact hmerge
  · rw [hpostings, hall, h.fuse_pieces]

end Merge

/-- A session has recorded a log, on top of an index with the words of `base`. -/
structure HasRecorded (session : Session) (base : WordMap) (log : Log) : Prop where
  logged : session.Logged log
  holds : session.BaseHolds base
  follows : Follows base log
  storable : base.Storable
  /-- All documents are known. -/
  baseInside : ∀ e ∈ base, ∀ p ∈ e.2, p.document.toNat < session.files.length
  logInside : ∀ occurrence ∈ log, occurrence.document.toNat < session.files.length

/-- No file has as many bytes as there are places of 64 bits. -/
def RunsFit (session : Session) : Prop :=
  ∀ run ∈ session.closed.runs, run.length < UInt64.size

instance (session : Session) : Decidable session.RunsFit :=
  inferInstanceAs (Decidable (∀ run ∈ session.closed.runs, run.length < UInt64.size))

/-- The words that a session accepts can be stored. -/
def AcceptsNulFree (session : Session) : Prop :=
  ∀ word stem, session.accept word = some stem → NulFree stem

/-- A stemmer that yields no NULs is all that it takes. -/
theorem acceptsNulFree_of_stems {session : Session}
    (h : StemsNulFree session.options.sizes session.stemmer) : session.AcceptsNulFree := by
  intro word stem haccept
  rcases accept_eq_some_iff.mp haccept with ⟨hcheck, -, -, rfl⟩
  exact h word hcheck

/-- A session keeps recording, on top of the same index. -/
theorem HasRecorded.run {session : Session} {base : WordMap} {log : Log}
    (h : session.HasRecorded base log) (hnul : session.AcceptsNulFree)
    {operations : List Operation}
    (hroom : session.files.length + (records operations).length ≤ UInt32.size) :
    (session.run operations).HasRecorded base
      (log ++ Log.ofCorpus session.accept session.files.length (corpus operations)) := by
  rcases session.run_keeps operations hroom with ⟨words, sinceFlush, runs, hkeeps⟩
  have hroom' : session.files.length + (corpus operations).length ≤ UInt32.size := by
    rw [length_corpus]
    exact hroom
  have horderly := Log.ofCorpus_orderly hnul hroom'
  -- The log goes on where the documents that are there end.
  have hlength := session.length_files_run operations hroom
  refine ⟨h.logged.run hroom, ?_, ⟨h.follows.proper, h.follows.tidy, ⟨?_, ?_⟩, ?_⟩, h.storable,
    ?_, ?_⟩
  · rw [BaseHolds, hkeeps]
    exact h.holds
  · intro occurrence hmem
    rcases List.mem_append.mp hmem with hmem | hmem
    · exact h.follows.orderly.nulFree occurrence hmem
    · exact horderly.nulFree occurrence hmem
  · refine List.pairwise_append.mpr ⟨h.follows.orderly.ordered, horderly.ordered, ?_⟩
    intro a ha b hb
    refine Or.inl ?_
    show a.document < b.document
    rw [UInt32.lt_iff_toNat_lt]
    exact Nat.lt_of_lt_of_le (h.logInside a ha) (Log.document_of_mem_ofCorpus hroom' hb).1
  · intro e he p hp occurrence hmem
    rcases List.mem_append.mp hmem with hmem | hmem
    · exact h.follows.behind e he p hp occurrence hmem
    · rw [UInt32.lt_iff_toNat_lt]
      exact Nat.lt_of_lt_of_le (h.baseInside e he p hp)
        (Log.document_of_mem_ofCorpus hroom' hmem).1
  · intro e he p hp
    rw [hlength]
    exact Nat.lt_of_lt_of_le (h.baseInside e he p hp) (Nat.le_add_right ..)
  · intro occurrence hmem
    rw [hlength]
    rcases List.mem_append.mp hmem with hmem | hmem
    · exact Nat.lt_of_lt_of_le (h.logInside occurrence hmem) (Nat.le_add_right ..)
    · rw [← length_corpus]
      exact (Log.document_of_mem_ofCorpus hroom' hmem).2

/-- A session that only knows the index it adds to has recorded nothing. -/
theorem HasRecorded.start {session : Session} {base : WordMap} (hwords : session.words = [])
    (hruns : session.runs = []) (hholds : session.BaseHolds base) (hproper : base.Proper)
    (htidy : ∀ e ∈ base, TidyPostings e.2) (hstorable : base.Storable)
    (hinside : ∀ e ∈ base, ∀ p ∈ e.2, p.document.toNat < session.files.length) :
    session.HasRecorded base [] :=
  ⟨⟨[], [], rfl, hruns, hwords⟩, hholds,
    ⟨hproper, htidy, ⟨fun _ ho => absurd ho List.not_mem_nil, List.Pairwise.nil⟩,
      fun _ _ _ _ _ ho => absurd ho List.not_mem_nil⟩,
    hstorable, hinside, fun _ ho => absurd ho List.not_mem_nil⟩

/-- A new session has recorded nothing. -/
theorem HasRecorded.new (options : IndexingOptions) (stemmer : String → String)
    (stopWords : StopWords) :
    ({ options, stemmer, stopWords } : Session).HasRecorded [] [] :=
  HasRecorded.start rfl rfl rfl ⟨List.Pairwise.nil, fun _ he => absurd he List.not_mem_nil⟩
    (fun _ he => absurd he List.not_mem_nil)
    ⟨fun _ he => absurd he List.not_mem_nil, fun _ he => absurd he List.not_mem_nil⟩
    fun _ he => absurd he List.not_mem_nil

/-- A new session that was asked to do several things has recorded their log. -/
theorem HasRecorded.new_run (options : IndexingOptions) {stemmer : String → String}
    (stopWords : StopWords) (hnul : StemsNulFree options.sizes stemmer)
    {operations : List Operation} (hroom : (records operations).length ≤ UInt32.size) :
    (({ options, stemmer, stopWords } : Session).run operations).HasRecorded []
      (Log.ofCorpus ({ options, stemmer, stopWords } : Session).accept 0 (corpus operations)) :=
  (HasRecorded.new options stemmer stopWords).run (acceptsNulFree_of_stems hnul) (by
    rw [List.length_nil, Nat.zero_add]
    exact hroom)

/-- It has registered what they asked for. -/
theorem new_run_keeps (options : IndexingOptions) (stemmer : String → String)
    (stopWords : StopWords) (operations : List Operation)
    (hroom : (records operations).length ≤ UInt32.size) :
    ∃ words sinceFlush runs, ({ options, stemmer, stopWords } : Session).run operations = {
      options, stemmer, stopWords, words, sinceFlush, runs
      files := records operations
      directories := (operations.filterMap Operation.path?).foldl addDirectory []
      metaNames := (operations.flatMap Operation.names).foldl addName [] } :=
  run_keeps { options, stemmer, stopWords } operations (by
    rw [List.length_nil, Nat.zero_add]
    exact hroom)

end Session

end Concordance
