import Concordance.Proofs.Indexing.Published
import Concordance.Proofs.Layout.Cut
import Concordance.Proofs.Lookups

/-!
# Lookups in Published Indexes

A lookup in an index that sessions have written finds what is stored there, if it is there.

Lookups go by halves, which comes to looking at every entry as long as the keys are in order.
They are in order in each index that a session ends in, since it sorts what it writes. Nothing
is asked of the texts: what is stored is what the key of an entry says, and this is all that a
text can be compared with. Only with names there may be more to it than the key. A name with a
NUL in it has an entry that is found, but may not be read, and then a lookup fails.

## Main definitions

* `Segment.Has`: There is an entry with a text as its key.
* `Index.Finds`: What lookups in an index come to.

## Theorems

* `Segment.HasKeys.has_iff`: The texts of a segment are among its keys.
* `Session.exists_finds`, `Published.exists_finds`: A published index finds what is stored in it.
-/

namespace Concordance

namespace Segment

variable {segment : Segment} {keys : List Bytes} {text : String}

/-- There is an entry with a text as its key. -/
def Has (segment : Segment) (text : String) : Prop :=
  ∃ i, segment.key i = .ok (Utf8.bytes text)

theorem HasKeys.has_iff (h : segment.HasKeys keys) :
    segment.Has text ↔ Utf8.bytes text ∈ keys := by
  constructor
  · rintro ⟨i, hi⟩
    rcases exists_of_bind hi with ⟨entry, hentry, -⟩
    have hlt : i < keys.length := h.size ▸ lt_of_get hentry
    rw [← Except.ok.inj ((h.key i hlt).symm.trans hi)]
    exact List.getElem_mem hlt
  · intro hmem
    rcases List.mem_iff_getElem.mp hmem with ⟨i, hi, hkey⟩
    exact ⟨i, (h.key i hi).trans (congrArg Except.ok hkey)⟩

/-- A text is looked up with success, and found if it is there. -/
theorem HasKeys.exists_find (h : segment.HasKeys keys) (hsorted : keys.Pairwise (· ≤ ·))
    (text : String) :
    ∃ place, segment.find (Utf8.bytes text) = .ok place ∧ (place.isSome ↔ segment.Has text) := by
  refine ⟨_, h.find hsorted _, ?_⟩
  rw [h.has_iff, List.isSome_idxOf?]

end Segment

/-- What lookups in an index come to, in terms of what is stored there. -/
structure Index.Finds (index : Index) (words : List WordPostings) : Prop where
  sound : index.Sound words
  isStopWord : ∀ word, ∃ stored, index.isStopWord word = .ok stored
    ∧ (stored ↔ (index.segment .stopWords).Has word)
  nameId : ∀ name, index.nameId name = .ok none ↔ ¬ (index.segment .metaNames).Has name
  placeOf : ∀ word, index.placeOf word = .ok (words.findIdx? fun entry => entry.word == word)
  wordsWithPrefix : ∀ lead, ∃ start stop, index.wordsWithPrefix lead = .ok (start, stop)
    ∧ (words.drop start).take (stop - start)
      = words.filter fun entry => (Utf8.bytes lead).isPrefixOf (Utf8.bytes entry.word)

namespace Volume

variable {volume : Volume} {index : Index}

/-- Stop words are found if they were sorted. -/
theorem isStopWord_iff_has (hsize : volume.bytes.length < UInt64.size)
    (hopen : Index.open? volume.bytes.toArray = .ok index)
    (hsorted : volume.stopWords.Pairwise fun a b => Utf8.bytes a ≤ Utf8.bytes b) (word : String) :
    ∃ stored, index.isStopWord word = .ok stored
      ∧ (stored ↔ (index.segment .stopWords).Has word) := by
  -- Keys are cut at the first NUL, which keeps their order.
  have hkeys : (volume.stopWords.map storedKey).Pairwise (· ≤ ·) :=
    List.pairwise_map.mpr (hsorted.imp cut_le_cut)
  rcases (hasKeys_stopWords hsize hopen).exists_find hkeys word with ⟨place, hplace, hiff⟩
  refine ⟨place.isSome, ?_, hiff⟩
  rw [Index.isStopWord, hplace]
  rfl

/-- And so are names, though the entry of a name may not be read. -/
theorem nameId_eq_none_iff (hsize : volume.bytes.length < UInt64.size)
    (hopen : Index.open? volume.bytes.toArray = .ok index)
    (hsorted : volume.metaNames.Pairwise fun a b => Utf8.bytes a.1 ≤ Utf8.bytes b.1)
    (name : String) :
    index.nameId name = .ok none ↔ ¬ (index.segment .metaNames).Has name := by
  have hkeys : (volume.metaNames.map fun name => storedKey name.1).Pairwise (· ≤ ·) :=
    List.pairwise_map.mpr (hsorted.imp cut_le_cut)
  rcases (hasKeys_metaNames hsize hopen).exists_find hkeys name with ⟨place, hplace, hiff⟩
  rw [← hiff]
  rcases place with _ | i
  · refine iff_of_true ?_ (by simp)
    simp only [Index.nameId, hplace, bind, Except.bind]
  · -- Whatever comes of the entry, it is not nothing.
    refine iff_of_false (fun hnone => ?_) (by simp)
    rcases exists_of_bind hnone with ⟨place, hplace', hnone⟩
    rcases Except.ok.inj (hplace.symm.trans hplace') with rfl
    rcases exists_of_bind hnone with ⟨entry, -, hnone⟩
    rcases exists_of_bind hnone with ⟨⟨name, id⟩, -, hnone⟩
    exact absurd (Except.ok.inj hnone) (by simp)

end Volume

/-- A session writes its stop words in order. -/
theorem Session.volume_stopWords_ascend (session : Session) (merged : List WordPostings) :
    (session.volume merged).stopWords.Pairwise fun a b => Utf8.bytes a ≤ Utf8.bytes b :=
  (List.pairwise_mergeSort storedBefore_trans storedBefore_total _).imp of_decide_eq_true

/-- And its names. -/
theorem Session.volume_metaNames_ascend (session : Session) (merged : List WordPostings) :
    (session.volume merged).metaNames.Pairwise fun a b => Utf8.bytes a.1 ≤ Utf8.bytes b.1 :=
  sortedNames_ascend _

/-- A session ends in an index that finds what is stored in it, if that is a sound volume. -/
theorem Session.exists_finds {session : Session} {merged : List WordPostings}
    (h : (session.volume merged).Sound) (hsize : (session.volume merged).bytes.length < UInt64.size)
    (hcount : session.files.length < UInt32.size) :
    ∃ index words, Index.open? (session.volume merged).bytes.toArray = .ok index
      ∧ index.Finds words ∧ WordPostings.table words = (session.volume merged).words := by
  obtain ⟨index, words, hopen, hindex, htable, -⟩ := h.exists_index hsize hcount
  refine ⟨index, words, hopen, ?_, htable⟩
  exact {
    sound := hindex
    isStopWord := Volume.isStopWord_iff_has hsize hopen (session.volume_stopWords_ascend merged)
    nameId := Volume.nameId_eq_none_iff hsize hopen (session.volume_metaNames_ascend merged)
    placeOf := Volume.placeOf_eq hsize hopen h.storable h.proper htable.symm
    wordsWithPrefix := Volume.wordsWithPrefix_eq hsize hopen h.storable h.proper htable.symm }

/-- So a published index finds what is stored in it. -/
theorem Published.exists_finds {bytes : Bytes} (h : Published bytes) :
    ∃ index words, Index.open? bytes.toArray = .ok index ∧ index.Finds words := by
  have hsize := h.size
  rcases h.exists_session with ⟨session, merged, rfl, hsound, hcount⟩
  rcases Session.exists_finds hsound hsize hcount with ⟨index, words, hopen, hfinds, -⟩
  exact ⟨index, words, hopen, hfinds⟩

end Concordance
