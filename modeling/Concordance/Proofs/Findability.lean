import Concordance.Proofs.Query.Leaves
import Concordance.Proofs.Size
import Concordance.Proofs.Word
import Mathlib.Data.List.Perm.Subperm

/-!
# No Word Is Missed

A document is found by each of its words, or whoever asks is told that the word was left out.

Indexing and asking go different ways. A text is folded, cut, folded again and trimmed, and
checked against a set in memory. A query is folded once and trimmed by the one who cuts it,
and is checked against what the index has stored. By then words may have joined the stop
words, because they are in too many documents.

A word goes the same way on both sides up to its check, since a prepared word is a query for
itself. From there on the stop words decide. The stored ones are those of the indexer and
the demoted words, so what the indexer leaves out, the query ignores. Anything else has its
stem in the index, with the documents that have it.

## Main definitions

* `documents`: The parts of all documents that are read.

## Theorems

* `Index.Built.ranked_word`: What a query for one word comes to.
* `Session.new_findable`: No word is missed.
-/

namespace Concordance

/-- The parts of a document, if one is read. -/
def Operation.parts? : Operation → Option (List Part)
  | .file _ _ _ _ parts => some parts
  | _ => none

/-- The parts of all documents that are read. -/
def documents (operations : List Operation) : List (List Part) :=
  operations.filterMap Operation.parts?

theorem corpus_eq (operations : List Operation) :
    corpus operations = (documents operations).map fun parts => parts.flatMap Part.candidates := by
  rw [corpus, documents, List.map_filterMap]
  refine congrArg (operations.filterMap ·) (funext fun op => ?_)
  cases op <;> rfl

/-- Candidates of a text are candidates of its document. -/
theorem mem_corpus_of_text {operations : List Operation} {document : Nat} {parts : List Part}
    {text raw : String} {metaId : Option UInt32}
    (hparts : (documents operations)[document]? = some parts) (hpart : .text text metaId ∈ parts)
    (hraw : raw ∈ Word.candidates (Text.fold text)) :
    ∃ candidates, (corpus operations)[document]? = some candidates
      ∧ ⟨raw, metaId⟩ ∈ candidates := by
  rw [corpus_eq, List.getElem?_map, hparts]
  exact ⟨_, rfl, List.mem_flatMap.mpr ⟨_, hpart, List.mem_map_of_mem hraw⟩⟩

/-- A plain word is read as its leaf. -/
theorem Searcher.parse_plain {searcher : Searcher} {word : String}
    (hplain : Word.Plain word.toList) (hfree : word ∉ ["", "and", "or", "not", "near"])
    {tree : QueryTree} {skipped : Option String}
    (hleaf : Parser.wordLeaf searcher.lookup .any word = .ok (tree, skipped))
    (hspread : tree.distribute = .ok tree) :
    searcher.parse word = .ok (tree, skipped.toList) :=
  parse_eq_ok_iff.mpr ⟨_, _, hplain.tokenize_eq hfree, Parser.parse_word hleaf, hspread⟩

/-- A word has no more postings than there are documents. -/
theorem Index.Sound.length_lt {index : Index} {words : List WordPostings} (h : index.Sound words)
    {entry : WordPostings} (hentry : entry ∈ words) : entry.postings.length < UInt32.size := by
  have hdistinct : (entry.postings.map fun p => p.document.toNat).Nodup :=
    List.pairwise_map.mpr ((h.tidy entry hentry).ascending.imp fun {p q} hlt =>
      Nat.ne_of_lt (UInt32.lt_iff_toNat_lt.mp hlt))
  have hsubset : (entry.postings.map fun p => p.document.toNat)
      ⊆ List.range index.numDocuments := by
    intro i hi
    rcases List.mem_map.mp hi with ⟨p, hp, rfl⟩
    exact List.mem_range.mpr (h.inside entry hentry p hp)
  have hle := (List.subperm_of_subset hdistinct hsubset).length_le
  rw [List.length_map, List.length_range] at hle
  exact Nat.lt_of_le_of_lt hle h.count

namespace Index.Built

variable {index : Index} {merged : List WordPostings} {limit : SpreadLimit}
  {stopWords : StopWords} {names : List (String × UInt32)}

/-- A query for one word is ignored, or it matches the documents that have the stem of the
    word, if there is no limit on how common words may be. -/
theorem ranked_word (h : index.Built merged limit stopWords names) (stemmer : String → String)
    {search : SearchOptions} (hvalid : search.validate = .ok ()) (hspread : search.spread = {})
    {word : String} (hplain : Word.Plain word.toList)
    (hfree : word ∉ ["", "and", "or", "not", "near"]) :
    ∃ ranked ignored, Searcher.ranked ⟨index, search, stemmer⟩ word = .ok (ranked, ignored)
      ∧ ((ranked = [] ∧ word ∈ ignored)
        ∨ Word.check search.sizes word = none ∧ index.isStopWord word = .ok false
          ∧ index.isStopWord (stemmer word) = .ok false
          ∧ ∀ document, (∃ hit ∈ ranked, hit.1 = document)
            ↔ ∃ entry ∈ limit.keeps index.numDocuments merged, entry.word = stemmer word
              ∧ ∃ p ∈ entry.postings, p.document = document) := by
  let searcher : Searcher := ⟨index, search, stemmer⟩
  have hstop : ∀ word, ∃ stored, searcher.lookup.index.isStopWord word = .ok stored :=
    fun word => ⟨_, h.isStopWord word⟩
  have hsound : searcher.index.Sound (limit.keeps index.numDocuments merged) := h.sound
  rcases Parser.stemOf_cases hstop word with hskip | ⟨hstem, hcheck, hword, hstop'⟩
  · have hleaf : Parser.wordLeaf searcher.lookup .any word = .ok (.empty, some word) := by
      rw [Parser.wordLeaf, hskip]
    have hparse := Searcher.parse_plain hplain hfree hleaf (by rw [QueryTree.distribute])
    rcases Searcher.ranked_of_parse hsound hvalid hparse with ⟨ranked, passed, hranked, hhits⟩
    refine ⟨ranked, _, hranked, Or.inl ⟨?_, WordSet.mem_insert_self word passed⟩⟩
    refine List.eq_nil_iff_forall_not_mem.mpr fun hit hhit => (hhits hit.1).mp ⟨hit, hhit, rfl⟩ ?_
    rw [QueryTree.scoreIn]
  · -- The leaf has the entry of the stem, if there is one, and the documents of that.
    let words := limit.keeps index.numDocuments merged
    let range := placeRange (words.findIdx? fun entry => entry.word == stemmer word)
    let leaf : WordLeaf := ⟨stemmer word, range.1, range.2, none⟩
    have hleaf : Parser.wordLeaf searcher.lookup .any word = .ok (.word leaf, none) :=
      Parser.wordLeaf_of_stem hstem (Parser.entriesOf_any (h.placeOf _))
    have hparse := Searcher.parse_plain hplain hfree hleaf (by rw [QueryTree.distribute])
    rcases Searcher.ranked_of_parse hsound hvalid hparse with ⟨ranked, passed, hranked, hhits⟩
    refine ⟨ranked, _, hranked, Or.inr ⟨hcheck, hword, hstop', fun document => ?_⟩⟩
    have hcovers : (searcher.evaluation.setting words).Covers leaf
        fun entry => entry.word == stemmer word := WordPostings.slice_place h.sound.proper _
    rw [hhits, QueryTree.scoreIn, hcovers.wordScore_ne_none]
    constructor
    · rintro ⟨entry, hentry, hsame, -, p, hp, -, hdocument⟩
      exact ⟨entry, hentry, beq_iff_eq.mp hsame, p, hp, hdocument⟩
    · rintro ⟨entry, hentry, hsame, p, hp, hdocument⟩
      refine ⟨entry, hentry, beq_iff_eq.mpr hsame, ?_, p, hp, rfl, hdocument⟩
      -- The limit is beyond any number of documents.
      rw [show (searcher.evaluation.setting _).limit = {} from hspread]
      exact SpreadLimit.exceededBy_default (h.sound.length_lt hentry) _

/-- A candidate that is checked and not left out by the index was accepted by the indexer:
    what is no stop word of the index is none of the indexer. -/
theorem finds_of_free (h : index.Built merged limit stopWords names) {sizes : Word.Sizes}
    {stemmer : String → String} (hnul : StemsNulFree sizes stemmer) (candidate : Candidate)
    (hcheck : Word.check sizes (Word.prepare candidate.raw) = none)
    (hword : index.isStopWord (Word.prepare candidate.raw) = .ok false)
    (hstem : index.isStopWord (stemmer (Word.prepare candidate.raw)) = .ok false) :
    Rules.finds ⟨sizes, stopWords, stemmer⟩ (stemmer (Word.prepare candidate.raw)) candidate := by
  have hfree : ∀ word, NulFree word → index.isStopWord word = .ok false →
      stopWords.contains word = false := by
    intro word hnul hstored
    refine Bool.eq_false_iff.mpr fun hcontains => ?_
    have hstop := h.isStopWord_of_mem hnul (Or.inl (StopWords.contains_iff.mp hcontains))
    exact absurd (hstop.symm.trans hstored) (by simp)
  simp only [Rules.finds, hcheck, hfree _ (Word.nulFree_of_check hcheck) hword,
    hfree _ (hnul _ hcheck) hstem, Option.isNone_none, Bool.not_false, beq_self_eq_true,
    Bool.and_self]

/-- A merged word is in the index, unless it has become a stop word there. -/
theorem mem_keeps_of_free (h : index.Built merged limit stopWords names) {entry : WordPostings}
    (hentry : entry ∈ merged) (hnul : NulFree entry.word)
    (hfree : index.isStopWord entry.word = .ok false) :
    entry ∈ limit.keeps index.numDocuments merged := by
  refine SpreadLimit.mem_keeps.mpr ⟨hentry, Bool.eq_false_iff.mpr fun hcommon => ?_⟩
  have hstop := h.isStopWord_of_mem hnul
    (Or.inr (SpreadLimit.mem_demotes.mpr ⟨entry, hentry, hcommon, rfl⟩))
  exact absurd (hstop.symm.trans hfree) (by simp)

end Index.Built

/-- Whatever sizes a session could be started with can be searched with, without a limit. -/
theorem SearchOptions.validate_of_start? {disk : Disk} {options : IndexingOptions}
    {stopWords : StopWords} {session : Session}
    (h : Session.start? disk options stopWords = .ok session) {search : SearchOptions}
    (hspread : search.spread = {}) (hsizes : search.sizes = options.sizes) :
    search.validate = .ok () := by
  rw [Session.start?] at h
  rcases exists_of_bind h with ⟨⟨⟩, hoptions, -⟩
  rw [IndexingOptions.validate] at hoptions
  split at hoptions
  · exact absurd hoptions (by simp)
  · rw [validateLimits] at hoptions
    rw [validate, validateLimits, hspread, hsizes, if_neg (by decide)]
    split at hoptions
    · exact absurd hoptions (by simp)
    · exact hoptions

namespace Session

/-- A new session publishes an index in which no word is missed. Whoever asks for a prepared
    candidate of a text finds its document, or is told that the word was left out; and finds
    only documents with a candidate that was accepted and has the same stem. -/
theorem new_findable (disk : Disk) (options : IndexingOptions) (stopWords : StopWords)
    (stemmer : String → String) (hnul : StemsNulFree options.sizes stemmer)
    (operations : List Operation) (hroom : (records operations).length < UInt32.size)
    {session : Session} (hstart : start? disk options stopWords = .ok session)
    (hfit : ({ session with stemmer }.run operations).RunsFit) :
    ∃ summary bytes, ({ session with stemmer }.run operations).Publishes summary bytes
      ∧ (bytes.length < UInt64.size → ∃ index, Index.open? bytes.toArray = .ok index
        ∧ ∀ (search : SearchOptions) (document : Nat) (parts : List Part) (text : String)
            (metaId : Option UInt32) (raw : String),
          search.spread = {} → search.sizes = options.sizes →
          (documents operations)[document]? = some parts → .text text metaId ∈ parts →
          raw ∈ Word.candidates (Text.fold text) →
          Word.prepare raw ∉ ["", "and", "or", "not", "near"] →
          ∃ ranked ignored,
            Searcher.ranked ⟨index, search, stemmer⟩ (Word.prepare raw) = .ok (ranked, ignored)
            ∧ ((∃ hit ∈ ranked, hit.1.toNat = document) ∨ Word.prepare raw ∈ ignored)
            ∧ ∀ hit ∈ ranked, ∃ candidates, (corpus operations)[hit.1.toNat]? = some candidates
              ∧ ∃ candidate ∈ candidates, Rules.finds ⟨options.sizes, stopWords, stemmer⟩
                (stemmer (Word.prepare raw)) candidate) := by
  have hvalid : ∀ search : SearchOptions, search.spread = {} → search.sizes = options.sizes →
      search.validate = .ok () := fun _ => SearchOptions.validate_of_start? hstart
  rcases eq_of_start? hstart with rfl
  obtain ⟨merged, summary, bytes, hmerges, hpublishes, hindex⟩ :=
    new_built options stopWords stemmer hnul operations hroom hfit
  refine ⟨summary, bytes, hpublishes, fun hsize => ?_⟩
  rcases hindex hsize with ⟨index, hopen, -, hbuilt⟩
  refine ⟨index, hopen, fun search document parts text metaId raw hspread hsizes hparts hpart hraw
    hfree => ?_⟩
  have hdocuments : (corpus operations).length ≤ UInt32.size := by
    rw [length_corpus]
    exact Nat.le_of_lt hroom
  obtain ⟨ranked, ignored, hranked, hcases⟩ :=
    hbuilt.ranked_word stemmer (hvalid search hspread hsizes) hspread (Word.plain_prepare hraw)
      hfree
  refine ⟨ranked, ignored, hranked, ?_⟩
  rcases hcases with ⟨rfl, hignored⟩ | ⟨hcheck, hword, hstem, hmatches⟩
  · -- The word was left out, and nothing is found.
    exact ⟨Or.inr hignored, fun hit hhit => absurd hhit List.not_mem_nil⟩
  · refine ⟨Or.inl ?_, fun hit hhit => ?_⟩
    · -- The candidate was accepted, so its stem was merged, with the document.
      rw [hsizes] at hcheck
      obtain ⟨candidates, hget, hcandidate⟩ := mem_corpus_of_text hparts hpart hraw
      have hfinds := hbuilt.finds_of_free hnul ⟨raw, metaId⟩ hcheck hword hstem
      rcases List.mem_map.mp ((hmerges.mem_iff hdocuments _).mpr
        ⟨candidates, List.mem_of_getElem? hget, _, hcandidate, hfinds⟩) with ⟨entry, hentry, hsame⟩
      rcases (hmerges.documents_iff hdocuments hentry document).mpr
        ⟨candidates, hget, _, hcandidate, hsame ▸ hfinds⟩ with ⟨p, hp, hdocument⟩
      have hkept := hbuilt.mem_keeps_of_free
        (List.mem_map_of_mem (f := WordPostings.withRanks (records operations)) hentry)
        (hsame ▸ hnul _ hcheck) (hsame ▸ hstem)
      rcases (hmatches p.document).mpr ⟨_, hkept, hsame, _, List.mem_map_of_mem hp, rfl⟩
        with ⟨hit, hhit, hsame⟩
      exact ⟨hit, hhit, hsame ▸ hdocument⟩
    · -- A hit has a posting of the stem, and all of these come from candidates with it.
      rcases (hmatches hit.1).mp ⟨hit, hhit, rfl⟩ with ⟨entry, hentry, hsame, p, hp, hdocument⟩
      rcases List.mem_map.mp (SpreadLimit.mem_keeps.mp hentry).1 with ⟨plain, hplain, rfl⟩
      rcases List.mem_map.mp hp with ⟨q, hq, rfl⟩
      rw [← hdocument, ← hsame]
      exact (hmerges.documents_iff hdocuments hplain _).mp ⟨q, hq, rfl⟩

/-- A word of one document, and one of both, which are too many. -/
theorem new_findable_of_two :
    let read : List Operation := [.file 0 "one" 11 none [.text "Cats, dogs." none],
      .file 0 "two" 4 none [.text "Dogs" none]]
    let options : IndexingOptions := { spread := { maxDocuments := 1 } }
    ∃ summary bytes index,
      (({ options, stopWords := .empty } : Session).run read).Publishes summary bytes
      ∧ bytes.length < UInt64.size ∧ Index.open? bytes.toArray = .ok index
      ∧ ∀ word ∈ ["cats", "dogs"], ∃ ranked ignored,
        Searcher.ranked ⟨index, {}, id⟩ word = .ok (ranked, ignored)
        ∧ ((∃ hit ∈ ranked, hit.1.toNat = 0) ∨ word ∈ ignored)
        ∧ ∀ hit ∈ ranked, ∃ candidates, (corpus read)[hit.1.toNat]? = some candidates
          ∧ ∃ candidate ∈ candidates, Rules.finds ⟨{}, .empty, id⟩ word candidate := by
  intro read options
  let session : Session := { options, stopWords := .empty }
  let merged : List WordPostings := [
    ⟨"cats", [{ document := 0, occurrences := 1, positions := [0] }]⟩,
    ⟨"dogs", [{ document := 0, occurrences := 1, positions := [1] },
      { document := 1, occurrences := 1, positions := [0] }]⟩]
  have hsources : ((session.run read).closed.sources >>= Merge.sources).toOption = some merged := by
    decide +kernel
  obtain ⟨segments, -, -, hvolume⟩ := exists_publishes_volume hsources (by decide +kernel)
  obtain ⟨summary, bytes, hpublishes, hfindable⟩ := new_findable {} options .empty id
    (stemsNulFree_id _) read (by decide) rfl (by decide +kernel)
  have hsize : bytes.length < UInt64.size := by
    rw [hpublishes.unique hvolume]
    exact Volume.length_bytes_lt (by decide +kernel)
  rcases hfindable hsize with ⟨index, hopen, hwords⟩
  refine ⟨summary, bytes, index, hpublishes, hsize, hopen, fun word hword => ?_⟩
  -- Both are pieces of the text, and are prepared as they are.
  have hpieces : ∀ word ∈ ["cats", "dogs"], word ∈ Word.candidates (Text.fold "Cats, dogs.")
      ∧ Word.prepare word = word ∧ word ∉ ["", "and", "or", "not", "near"] := by
    decide +kernel
  rcases hpieces word hword with ⟨hraw, hprepare, hfree⟩
  have h := hwords {} 0 _ "Cats, dogs." none word rfl rfl rfl List.mem_cons_self hraw
    (by rw [hprepare]; exact hfree)
  rw [hprepare] at h
  exact h

end Session

end Concordance
