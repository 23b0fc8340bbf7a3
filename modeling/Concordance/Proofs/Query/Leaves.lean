import Concordance.Proofs.Indexing.Built
import Concordance.Proofs.Query.Denotation
import Concordance.Proofs.WordSet

/-!
# Which Documents a Leaf Matches

A leaf matches the documents of its entries.

A leaf has places in an index. What matters about them is which entries are there, and these
can be told by a test: a plain word has the entries with its stem, and a wildcard those that
begin like it. Where leaves of different indexes have entries by the same test, they can be
compared, though their places cannot.

## Main definitions

* `placeRange`: The entry at a place, as a range.
* `Setting.Covers`: The entries of a leaf are those that pass a test.

## Theorems

* `WordPostings.slice_place`: The place of a word has the entries with that word.
* `Setting.Covers.wordScore_ne_none`: The documents that a leaf matches.
* `Parser.parse_word`: How a query for one word is read.
* `Searcher.ranked_of_eval`: What a query comes to, once it was read and evaluated.
* `Searcher.exists_of_ranked`: What can be ranked was.
* `Searcher.ranked_of_parse`: A query that can be read is answered.
-/

namespace Concordance

/-- The entry at a place, as a range. -/
def placeRange (place : Option Nat) : Nat × Nat :=
  place.elim (0, 0) fun i => (i, i + 1)

/-- What is found first is all that there is to be found, if no two elements pass. -/
theorem slice_findIdx? {α : Type} {as : List α} {test : α → Bool}
    (h : as.Pairwise fun a b => test a = true → test b = false) :
    (as.drop (placeRange (as.findIdx? test)).1).take
        ((placeRange (as.findIdx? test)).2 - (placeRange (as.findIdx? test)).1)
      = as.filter test := by
  rcases hfind : as.findIdx? test with _ | i
  · rw [eq_comm, placeRange, Option.elim_none, Nat.sub_self, List.take_zero,
      List.filter_eq_nil_iff]
    exact fun a ha => Bool.eq_false_iff.mp (List.findIdx?_eq_none_iff.mp hfind a ha)
  · -- On the elements before the first one that passes.
    rw [placeRange, Option.elim_some, Nat.add_sub_cancel_left]
    induction as generalizing i with
    | nil => exact absurd hfind (by simp)
    | cons a as ih =>
      rw [List.findIdx?_cons] at hfind
      rcases List.pairwise_cons.mp h with ⟨hfirst, hrest⟩
      by_cases ha : test a = true
      · rw [if_pos ha] at hfind
        rcases Option.some.inj hfind with rfl
        -- Nothing behind the element passes.
        have hnone : as.filter test = [] := List.filter_eq_nil_iff.mpr fun b hb =>
          Bool.eq_false_iff.mp (hfirst b hb ha)
        rw [List.filter_cons_of_pos ha, hnone]
        rfl
      · rw [if_neg ha] at hfind
        rcases Option.map_eq_some_iff.mp hfind with ⟨j, hj, rfl⟩
        rw [List.filter_cons_of_neg ha, List.drop_succ_cons]
        exact ih hrest j hj

/-- The place of a word has the entries with that word. -/
theorem WordPostings.slice_place {words : List WordPostings} (h : (table words).Proper)
    (word : String) :
    let range := placeRange (words.findIdx? fun entry => entry.word == word)
    (words.drop range.1).take (range.2 - range.1)
      = words.filter fun entry => entry.word == word := by
  have hascend : words.Pairwise fun a b => Utf8.bytes a.word < Utf8.bytes b.word :=
    (List.pairwise_map (R := fun a b : Bytes × List Posting => a.1 < b.1)).mp h.ascend
  refine slice_findIdx? (hascend.imp fun {a b} hab ha => beq_eq_false_iff_ne.mpr fun hb => ?_)
  rw [beq_iff_eq.mp ha, hb] at hab
  exact List.lt_irrefl _ hab

namespace Setting

/-- The entries of a leaf are those that pass a test. -/
def Covers (setting : Setting) (leaf : WordLeaf) (test : WordPostings → Bool) : Prop :=
  (setting.words.drop leaf.start).take (leaf.stop - leaf.start) = setting.words.filter test

/-- The documents that a leaf matches are those of its entries, but for entries that are in
    too many documents. -/
theorem Covers.wordScore_ne_none {setting : Setting} {leaf : WordLeaf}
    {test : WordPostings → Bool} (h : setting.Covers leaf test) (document : UInt32) :
    setting.wordScore leaf document ≠ none
      ↔ ∃ entry ∈ setting.words, test entry = true
        ∧ setting.limit.exceededBy entry.postings.length setting.documents = false
        ∧ ∃ p ∈ entry.postings, p.passes leaf.metaId = true ∧ p.document = document := by
  -- There is a score where there are postings to take it from.
  have hsome : setting.wordScore leaf document ≠ none ↔ setting.postingsIn leaf document ≠ [] := by
    rw [wordScore]
    split <;> simp_all
  have hexists : setting.postingsIn leaf document ≠ []
      ↔ ∃ p, p ∈ setting.postingsIn leaf document :=
    ⟨List.exists_mem_of_ne_nil _, fun hexists => hexists.elim fun _ => List.ne_nil_of_mem⟩
  rw [hsome, hexists, postingsIn, postings, entries, h]
  simp only [List.mem_filter, List.mem_flatMap, Bool.not_eq_true', decide_eq_true_eq]
  constructor
  · rintro ⟨p, ⟨⟨entry, ⟨⟨hentry, htest⟩, hkept⟩, hp⟩, hpasses⟩, hdocument⟩
    exact ⟨entry, hentry, htest, hkept, p, hp, hpasses, hdocument⟩
  · rintro ⟨entry, hentry, htest, hkept, p, hp, hpasses, hdocument⟩
    exact ⟨p, ⟨⟨entry, ⟨⟨hentry, htest⟩, hkept⟩, hp⟩, hpasses⟩, hdocument⟩

end Setting

namespace Parser

/-- A word is skipped, or it is looked up by its stem, and then neither is a stop word. -/
theorem stemOf_cases {lookup : Lookup}
    (h : ∀ word, ∃ stored, lookup.index.isStopWord word = .ok stored) (word : String) :
    stemOf lookup word = .ok none
      ∨ stemOf lookup word = .ok (some (lookup.stemmer word))
        ∧ Word.check lookup.sizes word = none ∧ lookup.index.isStopWord word = .ok false
        ∧ lookup.index.isStopWord (lookup.stemmer word) = .ok false := by
  rw [stemOf]
  -- A word that is its own stem is looked for only once.
  rcases hcheck : Word.check lookup.sizes word with _ | rejection
  · rw [if_neg (by simp)]
    rcases h word with ⟨_ | _, hword⟩
    · simp only [hword]
      by_cases hsame : lookup.stemmer word = word
      · rw [if_pos hsame, hsame]
        exact Or.inr ⟨rfl, trivial, trivial, hword⟩
      · rw [if_neg hsame]
        rcases h (lookup.stemmer word) with ⟨_ | _, hstem⟩
        · simp only [hstem]
          exact Or.inr ⟨trivial, trivial, trivial, trivial⟩
        · simp only [hstem]
          exact Or.inl trivial
    · simp only [hword]
      exact Or.inl trivial
  · exact Or.inl (if_pos rfl)

/-- If a word is looked up, then by its stem, and neither is a stop word. -/
theorem stemOf_eq_some {lookup : Lookup} {word stem : String}
    (h : stemOf lookup word = .ok (some stem)) :
    stem = lookup.stemmer word ∧ Word.check lookup.sizes word = none
      ∧ lookup.index.isStopWord word = .ok false ∧ lookup.index.isStopWord stem = .ok false := by
  rw [stemOf] at h
  split at h
  · exact absurd (Except.ok.inj h) (by simp)
  · rename_i hcheck
    have hcheck : Word.check lookup.sizes word = none := by simpa using hcheck
    split at h
    · exact absurd h (by simp)
    · exact absurd (Except.ok.inj h) (by simp)
    · rename_i hword
      -- The stem is only looked up if it is another word, and else it was looked up before.
      by_cases hsame : lookup.stemmer word = word
      · rw [if_pos hsame] at h
        rcases Option.some.inj (Except.ok.inj h) with rfl
        exact ⟨rfl, hcheck, hword, by rw [hsame]; exact hword⟩
      · rw [if_neg hsame] at h
        split at h
        · exact absurd h (by simp)
        · exact absurd (Except.ok.inj h) (by simp)
        · rename_i hstop
          rcases Option.some.inj (Except.ok.inj h) with rfl
          exact ⟨rfl, hcheck, hword, hstop⟩

theorem entriesOf_any {lookup : Lookup} {word : String} {place : Option Nat}
    (h : lookup.index.placeOf word = .ok place) :
    entriesOf lookup .any word = .ok (placeRange place) := by
  rw [entriesOf, if_neg (by decide), h]
  cases place <;> rfl

theorem wordLeaf_of_stem {lookup : Lookup} {filter : NameFilter} {word stem : String}
    {range : Nat × Nat} (h : stemOf lookup word = .ok (some stem))
    (h' : entriesOf lookup filter stem = .ok range) :
    wordLeaf lookup filter word
      = .ok (.word ⟨stem, range.1, range.2, filter.required⟩, none) := by
  rw [wordLeaf, h]
  simp only [h']

/-- A word at the end of a query is read as its leaf. -/
theorem operand_word {lookup : Lookup} (scope : Scope) {word : String} {tree : QueryTree}
    {ignored : Option String} (h : wordLeaf lookup scope.filter word = .ok (tree, ignored)) :
    operand lookup scope { tokens := [.word word, .finish] }
      = .ok (tree, ⟨({ tokens := [.finish] } : Progress).report ignored, by
        rw [report_tokens]; exact Nat.lt_succ_self _⟩) := by
  rw [operand, primary]
  simp only [h]

/-- How a query for one word is read. -/
theorem parse_word {lookup : Lookup} {word : String} {tree : QueryTree} {ignored : Option String}
    (h : wordLeaf lookup .any word = .ok (tree, ignored)) :
    parse lookup [.word word, .finish] = .ok (tree, ignored.toList) := by
  have hoperand := operand_word {} h
  unfold parse
  simp only []
  rw [query]
  simp only [hoperand]
  rw [chain]
  cases ignored <;> rfl

/-- How a query for what one word does not match is read. -/
theorem parse_not {lookup : Lookup} {word : String} {tree : QueryTree} {ignored : Option String}
    (h : wordLeaf lookup .any word = .ok (tree, ignored)) :
    parse lookup [.not, .word word, .finish] = .ok (.not tree, ignored.toList) := by
  have hchild := operand_word { nesting := 1 } h
  have hlimit : ¬ depthLimit < 0 + 1 := by decide
  unfold parse
  simp only []
  rw [query, operand, primary]
  simp only [hlimit, if_false, Nat.zero_add, hchild]
  rw [chain]
  cases ignored <;> rfl

end Parser

namespace Searcher

/-- Ranking neither adds nor drops documents. -/
theorem mem_rankScores {scores : Scores} {document : UInt32} :
    (∃ hit ∈ rankScores scores, hit.1 = document) ↔ scores.lookup document ≠ none := by
  have hlookup : scores.lookup document ≠ none ↔ ∃ entry ∈ scores, entry.1 = document := by
    rw [ne_eq, List.lookup_eq_none_iff]
    constructor
    · intro h
      refine Classical.byContradiction fun hnone => h fun entry hentry => bne_iff_ne.mpr ?_
      exact fun heq => hnone ⟨entry, hentry, heq.symm⟩
    · rintro ⟨entry, hentry, rfl⟩ hall
      exact bne_iff_ne.mp (hall entry hentry) rfl
  rw [hlookup]
  simp only [rankScores, List.mem_mergeSort, List.mem_map]
  constructor
  · rintro ⟨_, ⟨entry, hentry, rfl⟩, hdocument⟩
    exact ⟨entry, hentry, hdocument⟩
  · rintro ⟨entry, hentry, hdocument⟩
    exact ⟨_, ⟨entry, hentry, rfl⟩, hdocument⟩

/-- What a query comes to, once it was read and evaluated. -/
theorem ranked_of_eval {searcher : Searcher} (hvalid : searcher.options.validate = .ok ())
    {query : String} {tree : QueryTree} {left passed : WordSet} {scores : Scores}
    (hparse : searcher.parse query = .ok (tree, left))
    (heval : tree.eval searcher.evaluation [] = .ok (scores, passed)) :
    searcher.ranked query = .ok (rankScores scores, WordSet.union passed left) := by
  rw [ranked, hvalid]
  show (Searcher.parse _ _ >>= _) = _
  rw [hparse]
  show (QueryTree.eval _ _ _ >>= _) = _
  rw [heval]
  rfl

/-- What can be ranked was read and evaluated. -/
theorem exists_of_ranked {searcher : Searcher} {query : String} {ranked : List (UInt32 × Nat)}
    {ignored : WordSet} (h : searcher.ranked query = .ok (ranked, ignored)) :
    ∃ tree left scores passed, searcher.parse query = .ok (tree, left)
      ∧ tree.eval searcher.evaluation [] = .ok (scores, passed)
      ∧ ranked = rankScores scores ∧ ignored = WordSet.union passed left := by
  rcases exists_of_bind h with ⟨_, -, h⟩
  rcases exists_of_bind h with ⟨⟨tree, left⟩, hparse, h⟩
  rcases exists_of_bind h with ⟨⟨scores, passed⟩, heval, h⟩
  rcases Prod.mk.inj (Except.ok.inj h) with ⟨rfl, rfl⟩
  exact ⟨tree, left, scores, passed, hparse, heval, rfl, rfl⟩

/-- A query that can be read is answered with the documents that its tree has scores for. -/
theorem ranked_of_parse {searcher : Searcher} {words : List WordPostings}
    (h : searcher.index.Sound words) (hvalid : searcher.options.validate = .ok ()) {query : String}
    {tree : QueryTree} {left : WordSet} (hparse : searcher.parse query = .ok (tree, left)) :
    ∃ ranked passed, searcher.ranked query = .ok (ranked, WordSet.union passed left)
      ∧ ∀ document, (∃ hit ∈ ranked, hit.1 = document)
        ↔ tree.scoreIn (searcher.evaluation.setting words) document ≠ none := by
  have hdecode : searcher.evaluation.index.decodeWords = .ok words := h.decode
  have hdocuments : searcher.evaluation.index.numDocuments ≤ UInt32.size := Nat.le_of_lt h.count
  obtain ⟨scores, passed, heval, hanswers⟩ :=
    QueryTree.eval_answers hdecode h.tidy hdocuments (parse_spread hparse) []
  refine ⟨rankScores scores, passed, ranked_of_eval hvalid hparse heval, fun document => ?_⟩
  rw [mem_rankScores, hanswers.score]

end Searcher

end Concordance
