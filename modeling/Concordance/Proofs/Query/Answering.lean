import Concordance.Proofs.Indexing.Built
import Concordance.Proofs.Query.Acceptance
import Concordance.Proofs.Query.Leaves
import Concordance.Proofs.Query.Reading

/-!
# Answers to Derived Queries

What an index of merged words answers, from the tokens of a query to its documents.

All lookups in such an index succeed, so they make up a vocabulary, and a query that is
derived has a tree in terms of it. As long as there is no nearness in the tree, it is
evaluated as it was read, to the documents that match it. Of its leaves it is known which
words they have, whether these are looked up by themselves or by their beginning.

## Main definitions

* `Vocabulary.of`: What lookups in an index say.

## Theorems

* `Index.Built.describes`: All lookups in an index of merged words succeed.
* `Setting.covers_leaf`: Which entries the leaves of a derived query have.
* `Searcher.ranked_nearFree`: What a query without nearness is answered with.
-/

namespace Concordance

namespace Grammar

open Concordance.Parser

/-- What lookups in an index say, where they succeed. -/
def Vocabulary.of (lookup : Lookup) : Vocabulary where
  nameId name := (lookup.index.nameId name).toOption.join
  placeOf word := (lookup.index.placeOf word).toOption.join
  placesFrom lead := (lookup.index.wordsWithPrefix lead).toOption.getD (0, 0)
  isStopWord word := (lookup.index.isStopWord word).toOption.getD false
  stemmer := lookup.stemmer
  sizes := lookup.sizes

namespace Vocabulary

variable {lookup : Lookup}

theorem of_nameId {name : String} {id : Option UInt32} (h : lookup.index.nameId name = .ok id) :
    (of lookup).nameId name = id :=
  congrArg (fun result => (Except.toOption result).join) h

theorem of_placeOf {word : String} {place : Option Nat}
    (h : lookup.index.placeOf word = .ok place) : (of lookup).placeOf word = place :=
  congrArg (fun result => (Except.toOption result).join) h

theorem of_placesFrom {lead : String} {range : Nat × Nat}
    (h : lookup.index.wordsWithPrefix lead = .ok range) :
    (of lookup).placesFrom lead = range :=
  congrArg (fun result => (Except.toOption result).getD (0, 0)) h

theorem of_isStopWord {word : String} {stored : Bool}
    (h : lookup.index.isStopWord word = .ok stored) : (of lookup).isStopWord word = stored :=
  congrArg (fun result => (Except.toOption result).getD false) h

/-- The entries of a word are those with the word, if it has the place of the first of them. -/
theorem slice_entries {vocabulary : Vocabulary} {words : List WordPostings} {word : String}
    (h : (WordPostings.table words).Proper)
    (hplace : vocabulary.placeOf word = words.findIdx? fun entry => entry.word == word) :
    let range := vocabulary.entries word
    (words.drop range.1).take (range.2 - range.1)
      = words.filter fun entry => entry.word == word := by
  rw [entries, hplace]
  exact WordPostings.slice_place h word

end Vocabulary

end Grammar

open Grammar

namespace Index.Built

variable {index : Index} {merged : List WordPostings} {limit : SpreadLimit}
  {stopWords : StopWords} {names : List (String × UInt32)}
  (h : index.Built merged limit stopWords names) (stemmer : String → String) (sizes : Word.Sizes)

include h

/-- All lookups in an index of merged words succeed. -/
theorem describes (hnames : ∀ name ∈ names, NulFree name.1) :
    (Vocabulary.of ⟨index, stemmer, sizes⟩).Describes ⟨index, stemmer, sizes⟩ where
  nameId name := by
    rw [Vocabulary.of_nameId (h.nameId hnames name)]
    exact h.nameId hnames name
  placeOf word := by
    rw [Vocabulary.of_placeOf (h.placeOf word)]
    exact h.placeOf word
  placesFrom lead := by
    rcases h.wordsWithPrefix lead with ⟨start, stop, hrange, -⟩
    rw [Vocabulary.of_placesFrom hrange]
    exact hrange
  isStopWord word := by
    rw [Vocabulary.of_isStopWord (h.isStopWord word)]
    exact h.isStopWord word
  stemmer := rfl
  sizes := rfl

/-- The entries of a word are those with the word. -/
theorem slice_entries (word : String) :
    let range := (Vocabulary.of ⟨index, stemmer, sizes⟩).entries word
    ((limit.keeps index.numDocuments merged).drop range.1).take (range.2 - range.1)
      = (limit.keeps index.numDocuments merged).filter fun entry => entry.word == word :=
  Vocabulary.slice_entries h.sound.proper (Vocabulary.of_placeOf (h.placeOf word))

/-- The entries of a wildcard are those that begin like it. -/
theorem slice_places (lead : String) :
    let range := (Vocabulary.of ⟨index, stemmer, sizes⟩).placesFrom lead
    ((limit.keeps index.numDocuments merged).drop range.1).take (range.2 - range.1)
      = (limit.keeps index.numDocuments merged).filter fun entry =>
        (Utf8.bytes lead).isPrefixOf (Utf8.bytes entry.word) := by
  rcases h.wordsWithPrefix lead with ⟨start, stop, hrange, hslice⟩
  rw [Vocabulary.of_placesFrom hrange]
  exact hslice

end Index.Built

/-- A leaf under a name has the entries of its range, but none if no document used the name. -/
theorem Setting.covers_leaf {setting : Setting} {test : WordPostings → Bool} {range : Nat × Nat}
    (h : (setting.words.drop range.1).take (range.2 - range.1) = setting.words.filter test)
    (filter : Parser.NameFilter) (word : String) :
    ∃ leaf, Grammar.Vocabulary.leaf filter word range = .word leaf
      ∧ leaf.metaId = filter.required
      ∧ setting.Covers leaf fun entry => decide (filter ≠ .unknown) && test entry := by
  refine ⟨_, rfl, rfl, ?_⟩
  rw [Covers]
  by_cases hfilter : filter = .unknown
  · simp [hfilter]
  · simp [hfilter, h]

/-- A query without nearness is evaluated as it was read. -/
theorem Searcher.parse_nearFree (searcher : Searcher) {vocabulary : Vocabulary}
    (h : vocabulary.Describes searcher.lookup) {text : String} {query : Query}
    (htokens : tokenize (Text.fold text) = .ok (query.spelling ++ [.finish]))
    (hnesting : query.nesting ≤ 256) (hoperators : query.operators ≤ 256)
    (hfree : (query.tree vocabulary .any).NearFree) :
    searcher.parse text
      = .ok (query.tree vocabulary .any, WordSet.union [] (query.skipped vocabulary)) := by
  have hlinks := Nat.le_trans (query.links_le vocabulary .any) hoperators
  exact parse_eq_ok_iff.mpr ⟨_, _, htokens, parse_spelling h query hnesting hlinks,
    hfree.distribute_eq⟩

/-- What such a query is answered with. -/
theorem Searcher.ranked_nearFree (searcher : Searcher) {vocabulary : Vocabulary}
    {words : List WordPostings} (h : vocabulary.Describes searcher.lookup)
    (hsound : searcher.index.Sound words) (hvalid : searcher.options.validate = .ok ())
    {text : String} {query : Query}
    (htokens : tokenize (Text.fold text) = .ok (query.spelling ++ [.finish]))
    (hnesting : query.nesting ≤ 256) (hoperators : query.operators ≤ 256)
    (hfree : (query.tree vocabulary .any).NearFree) :
    ∃ ranked ignored, searcher.ranked text = .ok (ranked, ignored)
      ∧ ∀ document, (∃ hit ∈ ranked, hit.1 = document)
        ↔ (query.tree vocabulary .any).accepts (searcher.evaluation.setting words) document := by
  obtain ⟨ranked, passed, hranked, hhits⟩ := ranked_of_parse hsound hvalid
    (searcher.parse_nearFree h htokens hnesting hoperators hfree)
  refine ⟨ranked, _, hranked, fun document => ?_⟩
  rw [hhits, QueryTree.accepts, Option.isSome_iff_ne_none]

end Concordance
