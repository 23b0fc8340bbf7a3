import Concordance.Proofs.Decoding
import Concordance.Proofs.Indexing.Atomicity
import Concordance.Proofs.Indexing.Closable
import Concordance.Proofs.Merge.Order

/-!
# What a Session Leaves Behind

Any session that could be ended has written an index with its words in order.

What a session merges may come from files that nobody has looked at, so there is no telling
whether it can be ended. But if it can, then every step that could have found something wrong
has not. The merge has read words in order, and documents in order for each of them, and
whatever has a posting in the index was ranked, so that its document is there. All of this is
known of the index then, although nothing was known of the files.

One thing is not looked at, which is where in a document a word is. Positions that a file has
for a document that is not its own may come behind those of the document itself. Then they
are written, but can not be read. So an index is said to show its words if all postings that
can be read are those that were written.

## Main definitions

* `RankedPostings`: Postings of documents in order, with their ranks.
* `Volume.WordsOrdered`: A volume with words in order, each with such postings.
* `Index.ShowsWords`: An index that says about words what a volume does.

## Theorems

* `Rank.ofPosting_pos`: No rank is zero.
* `Session.Closable.volume`: A session whose texts can be closed ends in a volume whose texts can.
* `Session.exists_volume_of_finish`: What a session that was ended has written.
* `Volume.WordsOrdered.exists_index`: Its index shows words in order.
-/

namespace Concordance

theorem one_le_toNat_max (n : UInt32) : 1 ≤ (max n 1).toNat := by
  show 1 ≤ (if n ≤ 1 then 1 else n).toNat
  split
  · exact Nat.le_refl 1
  · rename_i h
    rw [UInt32.le_iff_toNat_le, UInt32.toNat_one] at h
    omega

/-- No rank is zero, whatever numbers it was computed from. -/
theorem Rank.ofPosting_pos (occurrences : UInt32) (total : UInt64) (words : UInt32) :
    1 ≤ (ofPosting occurrences total words).toNat := by
  rw [ofPosting]
  split
  · exact Nat.le_refl 1
  · simp only []
    split
    · decide
    · exact one_le_toNat_max _

/-- Postings of documents in order, each of a document that there is, and with a rank. -/
structure RankedPostings (documents : Nat) (postings : List Posting) : Prop where
  nonempty : postings ≠ []
  ascending : postings.Pairwise fun p q => p.document < q.document
  inside : ∀ p ∈ postings, p.document.toNat < documents
  ranked : ∀ p ∈ postings, 1 ≤ p.rank.toNat
  names : ∀ p ∈ postings, p.NamesAscend

/-- Ranking changes the ranks and nothing else. -/
theorem rankedPostings_rankAll {files : List Record} {postings : List Posting}
    (hne : postings ≠ []) (hasc : postings.Pairwise fun p q => p.document < q.document)
    (hnames : ∀ p ∈ postings, p.NamesAscend)
    (hinside : ∀ p ∈ postings, p.document.toNat < files.length) :
    RankedPostings files.length (rankAll files postings) := by
  refine ⟨?_, List.pairwise_map.mpr hasc, fun p hp => ?_, fun p hp => ?_, fun p hp => ?_⟩
  · rw [rankAll, ne_eq, List.map_eq_nil_iff]
    exact hne
  · rcases List.mem_map.mp hp with ⟨q, hq, rfl⟩
    exact hinside q hq
  · rcases List.mem_map.mp hp with ⟨q, hq, rfl⟩
    exact Rank.ofPosting_pos _ _ _
  · rcases List.mem_map.mp hp with ⟨q, hq, rfl⟩
    exact hnames q hq

/-- A word that could be ranked has postings of documents that there are. -/
theorem WordPostings.inside_of_entry {files : List Record} {word : WordPostings} {entry : Bytes}
    (h : word.entry files = .ok entry) : ∀ p ∈ word.postings, p.document.toNat < files.length := by
  intro p hp
  rcases exists_of_map h with ⟨ranked, hranked, -⟩
  rcases ok_of_collect hranked hp with ⟨q, -, hq⟩
  refine Nat.lt_of_not_le fun hle => ?_
  rw [List.getElem?_eq_none hle] at hq
  exact absurd hq (by simp)

/-- A volume with words in order, each with postings of documents in order. -/
structure Volume.WordsOrdered (volume : Volume) : Prop where
  ascend : KeysAscend volume.words
  keys : ∀ e ∈ volume.words, ∃ word, NulFree word ∧ Utf8.bytes word = e.1
  postings : ∀ e ∈ volume.words, RankedPostings volume.files.length e.2

namespace Session

variable {session : Session} {disk after : Disk} {path : String} {summary : PublicationSummary}

/-- Whatever was merged and ranked is in order. -/
theorem wordsOrdered_of_merge {segments : List Segment} {merged : List WordPostings}
    (hmerge : Merge.sources segments = .ok merged)
    (hinside : ∀ word ∈ merged, session.tooCommon word = false →
      ∀ p ∈ word.postings, p.document.toNat < session.files.length) :
    (session.volume merged).WordsOrdered := by
  refine ⟨?_, fun e he => ?_, fun e he => ?_⟩
  · have hascend : merged.Pairwise fun a b => Utf8.bytes a.word < Utf8.bytes b.word :=
      (List.pairwise_map (R := fun a b : Bytes × List Posting => a.1 < b.1)).mp
        (Merge.ascend_of_sources hmerge)
    exact List.pairwise_map.mpr (List.pairwise_map.mpr (hascend.sublist List.filter_sublist))
  · rcases exists_of_mem_volume he with ⟨word, hword, -, rfl⟩
    exact ⟨word.word, Merge.nulFree_of_sources hmerge word hword, rfl⟩
  · rcases exists_of_mem_volume he with ⟨word, hword, hkept, rfl⟩
    have ⟨hasc, hnames⟩ := Merge.ordered_of_sources hmerge word hword
    exact rankedPostings_rankAll (Merge.exists_entry_of_sources hmerge word hword).2 hasc hnames
      (hinside word hword hkept)

/-- The stop words that a session ends with can be closed, if those that it began with can
    be. The others were words of its sources. -/
theorem nulFree_volume_stopWords {segments : List Segment} {merged : List WordPostings}
    (hstops : ∀ word ∈ session.stopWords.words, NulFree word)
    (hmerge : Merge.sources segments = .ok merged) :
    ∀ word ∈ (session.volume merged).stopWords, NulFree word := by
  intro word hword
  rcases StopWords.mem_insertAll.mp (List.mem_mergeSort.mp hword) with hword | hword
  · exact hstops word hword
  · rcases List.mem_map.mp hword with ⟨entry, hentry, rfl⟩
    exact Merge.nulFree_of_sources hmerge entry (List.mem_filter.mp hentry).1

/-- A session whose texts can be closed ends in a volume whose texts can be closed. -/
theorem Closable.volume (h : session.Closable) {segments : List Segment}
    {merged : List WordPostings} (hmerge : Merge.sources segments = .ok merged) :
    (session.volume merged).Closable :=
  ⟨nulFree_volume_stopWords h.stopWords hmerge, h.directories, h.files,
    fun name hname => h.metaNames name (List.mem_mergeSort.mp hname)⟩

/-- What a session that was ended has written is the volume that its sources merge to, with
    words in order. -/
theorem exists_volume_of_finish (h : session.finish disk path = (.ok summary, after)) :
    ∃ segments merged location, session.closed.sources = .ok segments
      ∧ Merge.sources segments = .ok merged
      ∧ (session.volume merged).WordsOrdered
      ∧ session.Publishes summary (session.volume merged).bytes
      ∧ disk.placeOf path = .ok location
      ∧ after.item? location = some (.file (session.volume merged).bytes) := by
  obtain ⟨segments, survey, bytes, hsources, hsurvey, hencode, hpublishes, hbytes⟩ :=
    exists_of_finish h
  rcases Contents.publishBytes_ok hbytes with ⟨location, hlocation, hgains⟩
  obtain ⟨merged, words, hmerge, rfl, hwords, -⟩ := Contents.exists_of_encode hsurvey hencode
  -- There is an entry for each word that stays, so all of its documents were found.
  have hinside : ∀ word ∈ merged, session.tooCommon word = false →
      ∀ p ∈ word.postings, p.document.toNat < session.files.length := by
    intro word hword hkept
    have hmem : word ∈ (session.contents segments).kept merged :=
      List.mem_filter.mpr ⟨hword, (Bool.not_eq_true' _).mpr hkept⟩
    rcases ok_of_collect hwords hmem with ⟨entry, -, hentry⟩
    exact WordPostings.inside_of_entry hentry
  have hvolume : (session.contents segments).encode _ _ = _ := encode_contents hmerge hinside
  rw [← (exists_of_collect hwords).1] at hvolume
  rcases Except.ok.inj (hencode.symm.trans hvolume) with rfl
  exact ⟨segments, merged, location, hsources, hmerge, wordsOrdered_of_merge hmerge hinside,
    hpublishes, hlocation, by rw [hgains, if_pos rfl]⟩

end Session

/-- An index that has the words of a volume, and of each word no postings but those of the
    volume. They may not be readable, but are tidy if they are. -/
structure Index.ShowsWords (index : Index) (volume : Volume) : Prop where
  numDocuments : index.numDocuments = volume.files.length
  size : index.words.size = volume.words.length
  word : ∀ i (hi : i < volume.words.length), ∃ stored, index.storedWord i = .ok stored
    ∧ stored.key = volume.words[i].1
    ∧ ∀ postings, stored.postings = .ok postings →
      postings = volume.words[i].2 ∧ TidyPostings postings

/-- The index of a volume with words in order shows its words. -/
theorem Volume.WordsOrdered.exists_index {volume : Volume} (h : volume.WordsOrdered)
    (hsize : volume.bytes.length < UInt64.size) :
    ∃ index, Index.open? volume.bytes.toArray = .ok index ∧ index.ShowsWords volume := by
  rcases Index.open?_indexBytes hsize volume.sections_ne_nil with ⟨index, hopen, hentries⟩
  refine ⟨index, hopen, (size_segment hsize hopen .files).trans (List.length_map _),
    (size_segment hsize hopen .words).trans (List.length_map _), fun i hi => ?_⟩
  have hi' : i < (volume.sections.get .words).length := by
    rw [show (volume.sections.get .words).length = volume.words.length from List.length_map _]
    exact hi
  rcases Segment.exists_get (hentries .words) hi' with ⟨rest, hget⟩
  have hmem := List.getElem_mem hi
  have hpostings := h.postings _ hmem
  rcases h.keys _ hmem with ⟨word, hnul, hkey⟩
  -- The entry is that of the word, with whatever lies behind it in the file.
  have hentry : (volume.sections.get .words)[i] = StoredWord.encode word volume.words[i].2 := by
    have hmap : (volume.sections.get .words)[i]
        = volume.words[i].1 ++ 0 :: StoredWord.encodePostings volume.words[i].2 :=
      List.getElem_map _
    rw [hmap, StoredWord.encode, nulClosed, hkey, List.append_assoc, List.singleton_append]
  rw [hentry] at hget
  refine ⟨_, (congrArg (· >>= StoredWord.parse) hget).trans
    (StoredWord.parse_encode hnul volume.words[i].2 rest), hkey, fun postings hread => ?_⟩
  rcases StoredWord.eq_of_postings hpostings.nonempty hpostings.names hread with ⟨rfl, htidy⟩
  exact ⟨rfl, htidy, hpostings.ascending⟩

/-- What is read of such an index are the words of the volume. -/
theorem Index.ShowsWords.reads {index : Index} {volume : Volume} (h : index.ShowsWords volume)
    {words : List WordPostings} (hwords : WordPostings.table words = volume.words) :
    index.Reads words := by
  have hlength : words.length = volume.words.length := by
    rw [← hwords]
    exact (List.length_map _).symm
  refine ⟨hlength.trans h.size.symm, fun i hi stored postings hstored hpostings => ?_⟩
  obtain ⟨stored', hstored', -, hread⟩ := h.word i (hlength ▸ hi)
  rcases Except.ok.inj (hstored.symm.trans hstored') with rfl
  rcases hread postings hpostings with ⟨rfl, htidy⟩
  refine ⟨?_, htidy⟩
  simp only [← hwords, WordPostings.table, List.getElem_map]

end Concordance
