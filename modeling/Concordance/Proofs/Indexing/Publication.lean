import Concordance.Proofs.Indexing.Runs
import Concordance.Proofs.Volume

/-!
# What a Session Publishes

The index that a session ends in, as a value.

`Session.volume` is the volume that a merge leads to. It depends on the merged words,
on what was registered, and on the stop words, and this is all that the bytes of the
index depend on.

Publishing them may still fail, where there is no place for the file. So a session
`Publishes` bytes if these are what it writes wherever anything can be written. It
is the same file in the same place for sessions that publish the same bytes.

## Main definitions

* `Session.volume`: The index that a session ends in.
* `Session.Publishes`: What a session writes and reports.
* `Session.PublishesLike`: The same index from two sessions.

## Theorems

* `Session.publishes_volume`, `Session.exists_publishes_volume`: A session publishes its volume.
* `Session.HasRecorded.publishes`: What a session that has recorded a log
  publishes.
-/

namespace Concordance

/-- The number of words in a document. -/
def wordsIn (files : List Record) (document : UInt32) : UInt32 :=
  match files[document.toNat]? with
  | none => 0
  | some record => record.words

/-- The postings of a word with their ranks. -/
def rankAll (files : List Record) (postings : List Posting) : List Posting :=
  postings.map fun posting =>
    { posting with
      rank := Rank.ofPosting posting.occurrences
        (UInt64.ofNat (total (fun posting => posting.occurrences.toNat) postings))
        (wordsIn files posting.document) }

/-- A map whose postings have their ranks. -/
def WordMap.ranked (files : List Record) (words : WordMap) : WordMap :=
  words.map fun (key, postings) => (key, rankAll files postings)

namespace WordPostings

/-- Merged words are known by their map. -/
theorem table_injective {merged other : List WordPostings} (h : table merged = table other) :
    merged = other := by
  induction merged generalizing other with
  | nil =>
    rw [table, List.map_nil, eq_comm, table, List.map_eq_nil_iff] at h
    exact h.symm
  | cons word merged ih =>
    rcases other with _ | ⟨word', other⟩
    · exact absurd h (by simp [table])
    · simp only [table, List.map_cons, List.cons.injEq, Prod.mk.injEq] at h
      rcases h with ⟨⟨hword, hpostings⟩, hrest⟩
      rcases word with ⟨w, ps⟩
      rcases word' with ⟨w', ps'⟩
      rw [ih hrest, show w = w' from Utf8.bytes_injective hword, show ps = ps' from hpostings]

/-- All postings of known documents can be ranked. -/
theorem ranked_eq {merged : WordPostings} {files : List Record}
    (h : ∀ p ∈ merged.postings, p.document.toNat < files.length) :
    merged.ranked files = .ok (rankAll files merged.postings) := by
  refine collect_map_eq fun p hp => ?_
  have hget := List.getElem?_eq_getElem (h p hp)
  simp only [hget, wordsIn, occurrences]

/-- The entries of merged words are those of their map. -/
theorem collect_entry {merged : List WordPostings} {files : List Record}
    (h : ∀ word ∈ merged, ∀ p ∈ word.postings, p.document.toNat < files.length) :
    collect (merged.map (WordPostings.entry files))
      = .ok ((table merged).ranked files).entries := by
  rw [collect_map_eq fun word hword => by rw [entry, ranked_eq (h word hword)]; rfl]
  congr 1
  rw [WordMap.entries, WordMap.ranked, table, List.map_map, List.map_map]
  refine List.map_congr_left fun word _ => ?_
  rw [StoredWord.encode, nulClosed, List.append_assoc]
  rfl

end WordPostings

namespace Session

variable (session : Session) (merged : List WordPostings)

/-- Is a merged word in too many documents? -/
def tooCommon (word : WordPostings) : Bool :=
  session.options.spread.exceededBy word.postings.length session.files.length

/-- The merged words that become stop words. -/
def demoted : List String :=
  (merged.filter session.tooCommon).map WordPostings.word

/-- The index that a session ends in, given what its sources merge to. -/
def volume : Volume where
  words := (WordPostings.table (merged.filter fun word => !session.tooCommon word)).ranked
    session.files
  stopWords := (session.stopWords.insertAll (session.demoted merged)).sorted
  directories := session.directories
  files := session.files
  metaNames := session.metaNames.mergeSort Contents.metaBefore

/-- What a session reports, given what its sources merge to. -/
def summary (sources : Nat) : PublicationSummary where
  sources
  words := (session.volume merged).words.length
  stopWords := (session.volume merged).stopWords.length
  demoted := session.demoted merged

/-- The session writes these bytes and reports this, wherever it is ended and
    anything can be written. -/
def Publishes (session : Session) (summary : PublicationSummary) (bytes : Bytes) : Prop :=
  ∀ disk path, session.finish disk path =
    match Contents.publishBytes disk path (.ok bytes) with
    | (.error e, disk) => (.error e, disk)
    | (.ok (), disk) => (.ok summary, disk)

variable {session merged}

/-- Writing out what is in memory leaves everything else. -/
theorem closed_eq : ∃ runs sinceFlush,
    session.closed = { session with runs, words := [], sinceFlush } := by
  rw [closed]
  split
  · rename_i hempty
    exact ⟨session.runs, session.sinceFlush, by rw [← List.isEmpty_iff.mp hempty]⟩
  · exact ⟨session.runs ++ [session.words.encode], 0, rfl⟩

/-- What a session publishes, given its sources. -/
def contents (session : Session) (sources : List Segment) : Contents where
  sources
  files := session.files
  directories := session.directories
  metaNames := session.metaNames
  limit := session.options.spread

/-- Ending a session is publishing what it has, once its sources are there. -/
theorem finish_eq {segments : List Segment} (h : session.closed.sources = .ok segments)
    (disk : Disk) (path : String) :
    session.finish disk path
      = (session.contents segments).publish session.stopWords disk path := by
  rcases session.closed_eq with ⟨runs, sinceFlush, hclosed⟩
  rw [finish, ← closed, h, hclosed]
  rfl

/-- The bytes of its volume. Words that become stop words are not ranked. -/
theorem encode_contents {segments : List Segment} (hmerge : Merge.sources segments = .ok merged)
    (h : ∀ word ∈ merged, session.tooCommon word = false →
      ∀ p ∈ word.postings, p.document.toNat < session.files.length) :
    (session.contents segments).encode ((session.contents segments).kept merged).length
        (session.stopWords.insertAll (session.demoted merged)).sorted
      = .ok (session.volume merged).bytes := by
  have hmerge' : Merge.sources (session.contents segments).sources = .ok merged := hmerge
  have hkept : ∀ word ∈ (session.contents segments).kept merged,
      ∀ p ∈ word.postings, p.document.toNat < (session.contents segments).files.length := by
    intro word hword
    rcases List.mem_filter.mp hword with ⟨hmem, hcommon⟩
    exact h word hmem ((Bool.not_eq_true' _).mp hcommon)
  rw [Contents.encode_eq _ hmerge', WordPostings.collect_entry hkept]
  rfl

/-- The volume has one word for each that is not too common. -/
theorem length_words_volume : (session.volume merged).words.length
    = (merged.filter fun word => !session.tooCommon word).length := by
  rw [volume, WordMap.ranked, List.length_map, WordPostings.table, List.length_map]

/-- A session publishes its volume. -/
theorem publishes_volume {segments : List Segment}
    (hsources : session.closed.sources = .ok segments)
    (hmerge : Merge.sources segments = .ok merged)
    (hin : ∀ word ∈ merged, ∀ p ∈ word.postings, p.document.toNat < session.files.length) :
    session.Publishes (session.summary merged segments.length) (session.volume merged).bytes := by
  intro disk path
  have hmerge' : Merge.sources (session.contents segments).sources = .ok merged := hmerge
  have hdemoted : (session.contents segments).demoted merged = session.demoted merged := rfl
  -- What is reported counts merged words.
  have hlength : (session.volume merged).words.length
      = ((session.contents segments).kept merged).length := length_words_volume
  rw [finish_eq hsources, Contents.publish, Contents.survey_eq _ hmerge']
  simp only [hdemoted]
  rw [encode_contents hmerge fun word hword _ => hin word hword, ← hlength]
  rcases Contents.publishBytes disk path (.ok (session.volume merged).bytes) with ⟨e | _, disk'⟩
  · rfl
  · rfl

/-- So it does if what it merges was computed. Of the sources themselves nothing has to be known. -/
theorem exists_publishes_volume
    (hmerges : (session.closed.sources >>= Merge.sources).toOption = some merged)
    (hin : ∀ word ∈ merged, ∀ p ∈ word.postings, p.document.toNat < session.files.length) :
    ∃ segments, session.closed.sources = .ok segments ∧ Merge.sources segments = .ok merged
      ∧ session.Publishes (session.summary merged segments.length)
        (session.volume merged).bytes := by
  rcases exists_of_bind (eq_ok_of_toOption hmerges) with ⟨segments, hsources, hmerge⟩
  exact ⟨segments, hsources, hmerge, publishes_volume hsources hmerge hin⟩

/-- Merged words with the postings of a base and a log. -/
structure Merges (base : WordMap) (log : Log) (merged : List WordPostings) : Prop where
  proper : (WordPostings.table merged).Proper
  postings : ∀ key, (WordPostings.table merged).postingsOf key
    = base.postingsOf key ++ fuse (log.postingsOf key)

/-- There is one way to merge a base and a log. -/
theorem Merges.unique {base : WordMap} {log : Log} {merged other : List WordPostings}
    (h : Merges base log merged) (h' : Merges base log other) : merged = other :=
  WordPostings.table_injective (WordMap.ext h.proper h'.proper fun key => by
    rw [h.postings, h'.postings])

/-- The postings of a merged word. -/
theorem Merges.postings_eq {base : WordMap} {log : Log} {merged : List WordPostings}
    (h : Merges base log merged) {word : WordPostings} (hword : word ∈ merged) :
    word.postings = base.postingsOf (Utf8.bytes word.word)
      ++ fuse (log.postingsOf (Utf8.bytes word.word)) := by
  rw [← h.postings, WordMap.postingsOf_of_mem h.proper.ascend
    (List.mem_map_of_mem (f := fun word : WordPostings => (Utf8.bytes word.word, word.postings))
      hword)]

/-- The postings of a merged word are tidy. -/
theorem Merges.tidy {base : WordMap} {log : Log} {merged : List WordPostings}
    (h : Merges base log merged) (hfollows : Follows base log) {word : WordPostings}
    (hword : word ∈ merged) : TidyPostings word.postings := by
  have hbase := hfollows.base_tidy (Utf8.bytes word.word)
  have hlog := fuse_tidy (log.postingsOf_tidy (Utf8.bytes word.word))
    (hfollows.orderly.postingsOf_precedes _)
  rw [h.postings_eq hword]
  refine ⟨fun p hp => (List.mem_append.mp hp).elim (hbase.tidy p) (hlog.tidy p),
    List.pairwise_append.mpr ⟨hbase.ascending, hlog.ascending, fun p hp q hq => ?_⟩⟩
  rcases exists_of_mem_fuse hq with ⟨q', hq', heq⟩
  rw [← heq]
  exact hfollows.postings_behind _ p hp q' hq'

/-- Merged words can be stored if those of the base can. -/
theorem Merges.storable {base : WordMap} {log : Log} {merged : List WordPostings}
    (h : Merges base log merged) (hfollows : Follows base log) (hbase : base.Storable) :
    (WordPostings.table merged).Storable := by
  refine ⟨fun e he => ?_, fun e he => ?_⟩
  · rcases List.mem_map.mp he with ⟨word, hword, rfl⟩
    refine ⟨word.word, ?_, rfl⟩
    -- A word has some posting. It is stored in the base, or it was logged.
    rcases List.exists_mem_of_ne_nil _ (h.proper.nonempty _ he) with ⟨p, hp⟩
    rw [h.postings_eq hword] at hp
    rcases List.mem_append.mp hp with hp | hp
    · obtain ⟨stored, hnul, hkey⟩ :=
        hbase.keys _ (WordMap.mem_of_postingsOf (List.ne_nil_of_mem hp))
      rw [← Utf8.bytes_injective hkey]
      exact hnul
    · rcases exists_of_mem_fuse hp with ⟨q, hq, -⟩
      rcases List.mem_map.mp hq with ⟨occurrence, hmem, -⟩
      rcases List.mem_filter.mp hmem with ⟨hmem, hkey⟩
      rw [← Utf8.bytes_injective (of_decide_eq_true hkey)]
      exact hfollows.orderly.nulFree occurrence hmem
  · rcases List.mem_map.mp he with ⟨word, hword, rfl⟩
    exact ⟨h.proper.nonempty _ he, (h.tidy hfollows hword).tidy⟩

/-- The documents of merged words are known. -/
theorem Merges.inside {base : WordMap} {log : Log} {merged : List WordPostings}
    (h : Merges base log merged) {session : Session} (hrecorded : session.HasRecorded base log)
    {word : WordPostings} (hword : word ∈ merged) :
    ∀ p ∈ word.postings, p.document.toNat < session.files.length := by
  intro p hp
  rw [h.postings_eq hword] at hp
  rcases List.mem_append.mp hp with hp | hp
  · exact hrecorded.baseInside _ (WordMap.mem_of_postingsOf (List.ne_nil_of_mem hp)) p hp
  · rcases exists_of_mem_fuse hp with ⟨q, hq, heq⟩
    rcases List.mem_map.mp hq with ⟨occurrence, hmem, rfl⟩
    rw [← heq]
    exact hrecorded.logInside occurrence (List.mem_filter.mp hmem).1

/-- The words of a volume are merged words, with other ranks. -/
theorem exists_of_mem_volume {session : Session} {merged : List WordPostings}
    {e : Bytes × List Posting} (h : e ∈ (session.volume merged).words) :
    ∃ word ∈ merged, session.tooCommon word = false
      ∧ e = (Utf8.bytes word.word, rankAll session.files word.postings) := by
  rcases List.mem_map.mp h with ⟨e', he', rfl⟩
  rcases List.mem_map.mp he' with ⟨word, hword, rfl⟩
  rcases List.mem_filter.mp hword with ⟨hmem, hkept⟩
  exact ⟨word, hmem, by simpa using hkept, rfl⟩

/-- The volume that a session ends in is sound. -/
theorem HasRecorded.volume_sound {session : Session} {base : WordMap} {log : Log}
    (h : session.HasRecorded base log) {merged : List WordPostings}
    (hmerges : Merges base log merged) : (session.volume merged).Sound := by
  have hstorable := hmerges.storable h.follows h.storable
  -- Ranks change neither which postings there are nor what makes them tidy.
  have hnonempty : ∀ word ∈ merged, rankAll session.files word.postings ≠ [] := by
    intro word hword
    rw [rankAll, ne_eq, List.map_eq_nil_iff]
    exact hmerges.proper.nonempty _ (List.mem_map_of_mem hword)
  have htidy : ∀ word ∈ merged, TidyPostings (rankAll session.files word.postings) := by
    intro word hword
    have hword := hmerges.tidy h.follows hword
    refine ⟨fun p hp => ?_, List.pairwise_map.mpr hword.ascending⟩
    rcases List.mem_map.mp hp with ⟨q, hq, rfl⟩
    exact ⟨(hword.tidy q hq).names, (hword.tidy q hq).positions⟩
  refine ⟨⟨?_, fun e he => ?_⟩, fun e he => ?_, ⟨fun e he => ?_, fun e he => ?_⟩,
    fun e he p hp => ?_⟩
  · have hascend : merged.Pairwise fun a b => Utf8.bytes a.word < Utf8.bytes b.word :=
      (List.pairwise_map (R := fun a b : Bytes × List Posting => a.1 < b.1)).mp
        hmerges.proper.ascend
    exact List.pairwise_map.mpr (List.pairwise_map.mpr (hascend.sublist List.filter_sublist))
  · rcases exists_of_mem_volume he with ⟨word, hword, -, rfl⟩
    exact hnonempty word hword
  · rcases exists_of_mem_volume he with ⟨word, hword, -, rfl⟩
    exact htidy word hword
  · rcases exists_of_mem_volume he with ⟨word, hword, -, rfl⟩
    exact hstorable.keys (Utf8.bytes word.word, word.postings) (List.mem_map_of_mem hword)
  · rcases exists_of_mem_volume he with ⟨word, hword, -, rfl⟩
    exact ⟨hnonempty word hword, (htidy word hword).tidy⟩
  · rcases exists_of_mem_volume he with ⟨word, hword, -, rfl⟩
    rcases List.mem_map.mp hp with ⟨q, hq, rfl⟩
    exact hmerges.inside h hword q hq

/-- A session that has recorded a log publishes the volume that it merges to. -/
theorem HasRecorded.publishes {session : Session} {base : WordMap} {log : Log}
    (h : session.HasRecorded base log) (hfit : session.RunsFit) :
    ∃ merged sources, Merges base log merged
      ∧ session.Publishes (session.summary merged sources) (session.volume merged).bytes := by
  obtain ⟨segments, merged, hsources, hmerge, hproper, hpostings⟩ :=
    closed_merge h.logged h.holds h.follows hfit
  have hmerges : Merges base log merged := ⟨hproper, hpostings⟩
  exact ⟨merged, segments.length, hmerges,
    publishes_volume hsources hmerge fun word hword => hmerges.inside h hword⟩

/-- Two sessions publish the same index, and report the same about it. -/
def PublishesLike (session other : Session) : Prop :=
  ∃ bytes summary summary', session.Publishes summary bytes ∧ other.Publishes summary' bytes
    ∧ summary.words = summary'.words ∧ summary.stopWords = summary'.stopWords
    ∧ summary.demoted = summary'.demoted

/-- Sessions do so if they end in the same volume. -/
theorem publishesLike_of_volume {session other : Session} {merged merged' : List WordPostings}
    {sources sources' : Nat}
    (h : session.Publishes (session.summary merged sources) (session.volume merged).bytes)
    (h' : other.Publishes (other.summary merged' sources') (other.volume merged').bytes)
    (hvolume : session.volume merged = other.volume merged')
    (hdemoted : session.demoted merged = other.demoted merged') : session.PublishesLike other := by
  rw [← hvolume] at h'
  refine ⟨_, _, _, h, h', ?_, ?_, hdemoted⟩
  · rw [summary, summary, hvolume]
  · rw [summary, summary, hvolume]

end Session

end Concordance
