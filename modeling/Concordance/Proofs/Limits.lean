import Concordance.Proofs.Query.Answering
import Concordance.Proofs.Query.Voices

/-!
# Two Places for One Limit

How common words may be can be limited when an index is built, or when it is asked.

Both limits count the same documents, so they pass over the same words. They do so at
different times. A limit of the index has made its common words stop words, which are left
out while a query is read. A limit of the query is applied to the entries of a leaf, when
the tree is already there. A wildcard has the same documents either way, and so has a word
that is not common. A common word has none either way, but it is an operand with one limit
and not with the other.

Whether a query feels that is told by the voices of its words. A word is silent if both
indexes skip it, and drowned if its stem is common. There is no voice for a word that has a
stem which is not common, but is itself the common stem of other words. Stop words are looked
for before stemming too, so that the second index skips it, and the first one does not.

## Main definitions

* `Rules.isCommon`: Is a word in too many documents?
* `Vocabulary.voiceOf`: The voice of a word.
* `Index.Twins`: Two indexes of the same words, one of which was built with a limit.

## Theorems

* `Index.Twins.hears`: What words and wildcards come to in both.
* `Index.Twins.ranked_agree`: Queries with a voice match the same documents in both.
* `Index.Twins.ranked_conjunction`: Conjunctions of what is common and what is not do not.
* `Session.limits_agree`: The first of these, of what two sessions publish.
-/

namespace Concordance

/-- Is a word in too many of some documents? -/
def Rules.isCommon (rules : Rules) (limit : SpreadLimit) (corpus : List (List Candidate))
    (word : String) : Bool :=
  limit.exceededBy (rules.documentsWith word corpus) corpus.length

/-- A word that is in no document is not common. -/
theorem SpreadLimit.exceededBy_zero (limit : SpreadLimit) (total : Nat) :
    limit.exceededBy 0 total = false := by
  simp [exceededBy]

/-- A word that is common was merged, since it would be in no document otherwise. -/
theorem Session.Merges.mem_of_isCommon {session : Session} {operations : List Operation}
    {merged : List WordPostings}
    (h : Merges [] (Log.ofCorpus session.accept 0 (corpus operations)) merged)
    (hroom : (corpus operations).length ≤ UInt32.size) {limit : SpreadLimit} {word : String}
    (hcommon : session.rules.isCommon limit (corpus operations) word = true) :
    word ∈ merged.map WordPostings.word := by
  refine Classical.byContradiction fun hmem => ?_
  rw [h.mem_iff hroom] at hmem
  have hnone : session.rules.documentsWith word (corpus operations) = 0 := by
    refine List.countP_eq_zero.mpr fun candidates hcandidates hplaces => hmem ?_
    refine ⟨candidates, hcandidates, Rules.found_ne_nil.mp fun hnil => ?_⟩
    rw [Rules.places, hnil] at hplaces
    exact absurd hplaces Bool.false_ne_true
  rw [Rules.isCommon, hnone, SpreadLimit.exceededBy_zero] at hcommon
  exact absurd hcommon Bool.false_ne_true

/-- A setting without its limit, but only with the words that the limit keeps. -/
def Setting.pruned (setting : Setting) : Setting :=
  { setting with
    words := setting.limit.keeps setting.documents setting.words
    limit := {} }

namespace Setting

variable {setting : Setting} {test : WordPostings → Bool}

/-- A leaf whose entries are all in too many documents matches nothing. -/
theorem Covers.accepts_eq_false {leaf : WordLeaf} (h : setting.Covers leaf test)
    (hmany : ∀ entry ∈ setting.words, test entry = true →
      setting.limit.exceededBy entry.postings.length setting.documents = true)
    (document : UInt32) : (QueryTree.word leaf).accepts setting document = false := by
  rw [QueryTree.accepts, QueryTree.scoreIn, Bool.eq_false_iff, ne_eq, Option.isSome_iff_ne_none,
    h.wordScore_ne_none]
  rintro ⟨entry, hentry, htest, hrare, -⟩
  exact absurd ((hmany entry hentry htest).symm.trans hrare) (by simp)

/-- Leaves with entries by one test match the same documents: what is in too many is passed
    over with the limit, and is not there without it. -/
theorem Covers.accepts_pruned {leaf leaf' : WordLeaf} (h : setting.Covers leaf test)
    (h' : setting.pruned.Covers leaf' test) (hmeta : leaf'.metaId = leaf.metaId)
    (hlengths : ∀ entry ∈ setting.words, entry.postings.length < UInt32.size)
    (document : UInt32) :
    (QueryTree.word leaf).accepts setting document
      = (QueryTree.word leaf').accepts setting.pruned document := by
  rw [QueryTree.accepts, QueryTree.accepts, QueryTree.scoreIn, QueryTree.scoreIn,
    Bool.eq_iff_iff, Option.isSome_iff_ne_none, Option.isSome_iff_ne_none,
    h.wordScore_ne_none, h'.wordScore_ne_none, hmeta]
  constructor
  · rintro ⟨entry, hentry, htest, hrare, hp⟩
    exact ⟨entry, SpreadLimit.mem_keeps.mpr ⟨hentry, hrare⟩, htest,
      SpreadLimit.exceededBy_default (hlengths entry hentry) _, hp⟩
  · rintro ⟨entry, hentry, htest, -, hp⟩
    rcases SpreadLimit.mem_keeps.mp hentry with ⟨hentry, hrare⟩
    exact ⟨entry, hentry, htest, hrare, hp⟩

end Setting

namespace Grammar

open Concordance.Parser

/-- The voice of a word, if common words are stop words of the second index only. It is none
    if the word is skipped there for another one's sake. -/
def Vocabulary.voiceOf (vocabulary : Vocabulary) (common : String → Bool) (word : String) :
    Option Voice :=
  if vocabulary.skips word then some .silent
  else if common (vocabulary.stemmer word) then some .drowned
  else if common word then none
  else some .heard

/-- What is known of a word by its voice. -/
theorem Vocabulary.voiceOf_eq_some {vocabulary : Vocabulary} {common : String → Bool}
    {word : String} {voice : Voice} (h : vocabulary.voiceOf common word = some voice) :
    (voice = .silent ∧ vocabulary.skips word = true)
      ∨ vocabulary.skips word = false
        ∧ ((voice = .drowned ∧ common (vocabulary.stemmer word) = true)
          ∨ (voice = .heard ∧ common (vocabulary.stemmer word) = false ∧ common word = false)) := by
  rw [voiceOf] at h
  cases hskips : vocabulary.skips word <;> cases hstem : common (vocabulary.stemmer word) <;>
    cases hword : common word <;> simp_all

end Grammar

open Grammar
open Concordance.Parser (NameFilter)

/-- A choice that makes sense with a limit does without one. -/
theorem SearchOptions.validate_unlimited {search : SearchOptions}
    (h : search.validate = .ok ()) :
    ({ search with spread := {} } : SearchOptions).validate = .ok () := by
  rw [validate, validateLimits] at h ⊢
  rw [if_neg (Nat.lt_irrefl 100)]
  split at h
  · exact absurd h (by simp)
  · exact h

/-- Two indexes of the same words. Of these, the second one has those for stop words that are
    common. -/
structure Index.Twins (index other : Index) (merged : List WordPostings) (limit : SpreadLimit)
    (stopWords : StopWords) (names : List (String × UInt32)) (common : String → Bool) : Prop where
  whole : index.Built merged {} stopWords names
  limited : other.Built merged limit stopWords names
  total : other.numDocuments = index.numDocuments
  lengths : ∀ entry ∈ merged, entry.postings.length < UInt32.size
  nulFree : ∀ entry ∈ merged, NulFree entry.word
  names : ∀ name ∈ names, NulFree name.1
  spread : ∀ entry ∈ merged,
    limit.exceededBy entry.postings.length index.numDocuments = common entry.word
  merged : ∀ word, common word = true → word ∈ merged.map WordPostings.word

namespace Index.Twins

variable {index other : Index} {merged : List WordPostings} {limit : SpreadLimit}
  {stopWords : StopWords} {names : List (String × UInt32)} {common : String → Bool}

/-- All words are words of the first index. -/
theorem sound (h : index.Twins other merged limit stopWords names common) :
    index.Sound merged := by
  have hsound := h.whole.sound
  rwa [SpreadLimit.keeps_default h.lengths] at hsound

/-- The words that are demoted are those that are common. -/
theorem mem_demotes (h : index.Twins other merged limit stopWords names common) (word : String) :
    word ∈ limit.demotes index.numDocuments merged ↔ common word = true := by
  rw [SpreadLimit.mem_demotes]
  constructor
  · rintro ⟨entry, hentry, hcommon, rfl⟩
    exact (h.spread entry hentry).symm.trans hcommon
  · intro hcommon
    rcases List.mem_map.mp (h.merged word hcommon) with ⟨entry, hentry, rfl⟩
    exact ⟨entry, hentry, (h.spread entry hentry).trans hcommon, rfl⟩

/-- The second index has common words for stop words, and all that the first one has. -/
theorem isStopWord (h : index.Twins other merged limit stopWords names common)
    (stemmer : String → String) (sizes : Word.Sizes) (word : String) :
    (Vocabulary.of ⟨other, stemmer, sizes⟩).isStopWord word
      = ((Vocabulary.of ⟨index, stemmer, sizes⟩).isStopWord word || common word) := by
  have hsecond := h.limited.isStopWord word
  rw [h.total] at hsecond
  rw [Vocabulary.of_isStopWord hsecond, Vocabulary.of_isStopWord (h.whole.isStopWord word),
    SpreadLimit.demotes_default h.lengths, Bool.eq_iff_iff, Bool.or_eq_true,
    ← h.mem_demotes, List.any_eq_true, List.any_eq_true]
  simp only [StopWords.mem_insertAll, beq_iff_eq]
  constructor
  · rintro ⟨stop, hstop | hdemoted, hkey⟩
    · exact Or.inl ⟨stop, Or.inl hstop, hkey⟩
    · -- Demoted words have no null byte, so that each is stored under a key of its own.
      rcases SpreadLimit.mem_demotes.mp hdemoted with ⟨entry, hentry, -, rfl⟩
      rw [storedKey_of_nulFree (h.nulFree entry hentry)] at hkey
      exact Or.inr (Utf8.bytes_injective hkey ▸ hdemoted)
  · rintro (⟨stop, hstop | hnone, hkey⟩ | hdemoted)
    · exact ⟨stop, Or.inl hstop, hkey⟩
    · exact absurd hnone List.not_mem_nil
    · rcases SpreadLimit.mem_demotes.mp hdemoted with ⟨entry, hentry, -, rfl⟩
      exact ⟨_, Or.inr hdemoted, storedKey_of_nulFree (h.nulFree entry hentry)⟩

/-- Leaves that are heard have entries by one test in both indexes. -/
theorem leaf_relates (h : index.Twins other merged limit stopWords names common)
    {range range' : Nat × Nat} {test : WordPostings → Bool} {reach : Nat}
    (hrange : (merged.drop range.1).take (range.2 - range.1) = merged.filter test)
    (hrange' : ((limit.keeps index.numDocuments merged).drop range'.1).take (range'.2 - range'.1)
      = (limit.keeps index.numDocuments merged).filter test)
    (document : UInt32) (filter : NameFilter) (word : String) :
    Voice.heard.Relates ⟨merged, index.numDocuments, limit, reach⟩
      (Setting.pruned ⟨merged, index.numDocuments, limit, reach⟩) document
      (Vocabulary.leaf filter word range) (Vocabulary.leaf filter word range') := by
  let setting : Setting := ⟨merged, index.numDocuments, limit, reach⟩
  obtain ⟨leaf, hleaf, hmeta, hcovers⟩ := setting.covers_leaf hrange filter word
  obtain ⟨leaf', hleaf', hmeta', hcovers'⟩ := setting.pruned.covers_leaf hrange' filter word
  rw [hleaf, hleaf']
  exact ⟨rfl, rfl, .word leaf, .word leaf',
    hcovers.accepts_pruned hcovers' (hmeta'.trans hmeta.symm) h.lengths document⟩

/-- A leaf for a common word matches nothing where its limit is applied. -/
theorem accepts_common (h : index.Twins other merged limit stopWords names common)
    {range : Nat × Nat} {stem : String} (hcommon : common stem = true)
    (hrange : (merged.drop range.1).take (range.2 - range.1)
      = merged.filter fun entry => entry.word == stem)
    (reach : Nat) (document : UInt32) (filter : NameFilter) (word : String) :
    (Vocabulary.leaf filter word range).accepts ⟨merged, index.numDocuments, limit, reach⟩ document
      = false := by
  let setting : Setting := ⟨merged, index.numDocuments, limit, reach⟩
  obtain ⟨leaf, hleaf, -, hcovers⟩ := setting.covers_leaf hrange filter word
  rw [hleaf]
  refine hcovers.accepts_eq_false (fun entry hentry htest => ?_) document
  rw [Bool.and_eq_true, beq_iff_eq] at htest
  exact (h.spread entry hentry).trans (htest.2 ▸ hcommon)

/-- The second index skips common words too, and words with a stem that is common. -/
theorem skips_eq (h : index.Twins other merged limit stopWords names common)
    (stemmer : String → String) (sizes : Word.Sizes) (text : String) :
    (Vocabulary.of ⟨other, stemmer, sizes⟩).skips text
      = ((Vocabulary.of ⟨index, stemmer, sizes⟩).skips text
        || (common text || common (stemmer text))) := by
  have hstem := h.isStopWord stemmer sizes (stemmer text)
  rw [Vocabulary.skips, Vocabulary.skips, h.isStopWord stemmer sizes text]
  show (_ || Vocabulary.isStopWord _ (stemmer text))
    = (_ || Vocabulary.isStopWord _ (stemmer text) || _)
  rw [hstem]
  simp only [Vocabulary.of]
  ac_rfl

/-- Words have their voices in both indexes. -/
theorem word_relates (h : index.Twins other merged limit stopWords names common)
    (stemmer : String → String) (sizes : Word.Sizes) (reach : Nat) (document : UInt32)
    {text : String} {voice : Voice} (filter : NameFilter)
    (hvoice : (Vocabulary.of ⟨index, stemmer, sizes⟩).voiceOf common text = some voice) :
    voice.Relates ⟨merged, index.numDocuments, limit, reach⟩
      (Setting.pruned ⟨merged, index.numDocuments, limit, reach⟩) document
      ((Primary.word text).tree (Vocabulary.of ⟨index, stemmer, sizes⟩) filter)
      ((Primary.word text).tree (Vocabulary.of ⟨other, stemmer, sizes⟩) filter) := by
  have hslice := h.whole.slice_entries stemmer sizes (stemmer text)
  have hslice' := h.limited.slice_entries stemmer sizes (stemmer text)
  rw [SpreadLimit.keeps_default h.lengths] at hslice
  rw [h.total] at hslice'
  rw [Primary.tree, Primary.tree, h.skips_eq]
  rcases Vocabulary.voiceOf_eq_some hvoice with
    ⟨rfl, hskips⟩ | ⟨hskips, ⟨rfl, hstem⟩ | ⟨rfl, hstem, hword⟩⟩
  · -- Both skip it.
    rw [hskips, if_pos rfl, Bool.true_or, if_pos rfl]
    exact ⟨rfl, rfl, .empty, .empty, QueryTree.accepts_empty.trans QueryTree.accepts_empty.symm⟩
  · -- Only the second index skips the word, and the first one matches nothing with it.
    have hstem : common (stemmer text) = true := hstem
    rw [hskips, if_neg Bool.false_ne_true, hstem, Bool.or_true, Bool.or_true, if_pos rfl]
    exact ⟨rfl, rfl, .word _, .empty,
      (h.accepts_common hstem hslice reach document filter _).trans QueryTree.accepts_empty.symm⟩
  · -- Neither skips it, and both have a leaf for it.
    have hstem : common (stemmer text) = false := hstem
    rw [hskips, hstem, hword, Bool.or_false, Bool.or_false, if_neg Bool.false_ne_true]
    exact h.leaf_relates hslice hslice' document filter (stemmer text)

/-- Words and wildcards have their voices in both indexes. -/
theorem hears (h : index.Twins other merged limit stopWords names common)
    (stemmer : String → String) (sizes : Word.Sizes) (reach : Nat) (document : UInt32) :
    Hears ((Vocabulary.of ⟨index, stemmer, sizes⟩).voiceOf common)
      (Vocabulary.of ⟨index, stemmer, sizes⟩) (Vocabulary.of ⟨other, stemmer, sizes⟩)
      ⟨merged, index.numDocuments, limit, reach⟩
      (Setting.pruned ⟨merged, index.numDocuments, limit, reach⟩) document where
  documents := rfl
  nameId := by
    funext name
    rw [Vocabulary.of_nameId (h.limited.nameId h.names name),
      Vocabulary.of_nameId (h.whole.nameId h.names name)]
  word text filter voice hvoice := h.word_relates stemmer sizes reach document filter hvoice
  wildcard lead filter := by
    -- A wildcard stands for the words at its places, which are not the same in both.
    have hrange := h.whole.slice_places stemmer sizes lead
    have hrange' := h.limited.slice_places stemmer sizes lead
    rw [SpreadLimit.keeps_default h.lengths] at hrange
    rw [h.total] at hrange'
    exact h.leaf_relates hrange hrange' document filter lead

section Asking

variable {search : SearchOptions}
  (h : index.Twins other merged search.spread stopWords names common)
  (stemmer : String → String) (hvalid : search.validate = .ok ()) {text : String} {query : Query}
  (htokens : tokenize (Text.fold text) = .ok (query.spelling ++ [.finish]))
  (hnesting : query.nesting ≤ 256) (hoperators : query.operators ≤ 256)

include h hvalid htokens hnesting hoperators

/-- What the first index answers, if it is asked with the limit. -/
theorem ranked_whole
    (hfree : (query.tree (Vocabulary.of ⟨index, stemmer, search.sizes⟩) .any).NearFree) :
    ∃ ranked ignored, Searcher.ranked ⟨index, search, stemmer⟩ text = .ok (ranked, ignored)
      ∧ ∀ document, (∃ hit ∈ ranked, hit.1 = document)
        ↔ (query.tree (Vocabulary.of ⟨index, stemmer, search.sizes⟩) .any).accepts
          ⟨merged, index.numDocuments, search.spread, search.reach⟩ document :=
  Searcher.ranked_nearFree ⟨index, search, stemmer⟩
    (h.whole.describes stemmer search.sizes h.names) h.sound hvalid htokens hnesting hoperators
    hfree

/-- What the second index answers without one. -/
theorem ranked_limited
    (hfree : (query.tree (Vocabulary.of ⟨other, stemmer, search.sizes⟩) .any).NearFree) :
    ∃ ranked ignored, Searcher.ranked ⟨other, { search with spread := {} }, stemmer⟩ text
        = .ok (ranked, ignored)
      ∧ ∀ document, (∃ hit ∈ ranked, hit.1 = document)
        ↔ (query.tree (Vocabulary.of ⟨other, stemmer, search.sizes⟩) .any).accepts
          (Setting.pruned ⟨merged, index.numDocuments, search.spread, search.reach⟩) document := by
  rw [Setting.pruned, ← h.total]
  exact Searcher.ranked_nearFree ⟨other, { search with spread := {} }, stemmer⟩
    (h.limited.describes stemmer search.sizes h.names) h.limited.sound
    (SearchOptions.validate_unlimited hvalid) htokens hnesting hoperators hfree

/-- Queries with a voice match the same documents in both indexes. -/
theorem ranked_agree {voice : Voice}
    (hvoice : query.voice ((Vocabulary.of ⟨index, stemmer, search.sizes⟩).voiceOf common)
      = some voice) :
    ∃ ranked ignored ranked' ignored',
      Searcher.ranked ⟨index, search, stemmer⟩ text = .ok (ranked, ignored)
      ∧ Searcher.ranked ⟨other, { search with spread := {} }, stemmer⟩ text
        = .ok (ranked', ignored')
      ∧ ∀ document, (∃ hit ∈ ranked, hit.1 = document) ↔ ∃ hit ∈ ranked', hit.1 = document := by
  -- Nearness is not a matter of the document, and any one will do for that.
  have hrelates := fun document =>
    query.relates (h.hears stemmer search.sizes search.reach document) .any hvoice
  obtain ⟨ranked, ignored, hranked, hhits⟩ := h.ranked_whole stemmer hvalid htokens hnesting
    hoperators (hrelates 0).nearFree
  obtain ⟨ranked', ignored', hranked', hhits'⟩ := h.ranked_limited stemmer hvalid htokens hnesting
    hoperators (hrelates 0).nearFree'
  refine ⟨ranked, ignored, ranked', ignored', hranked, hranked', fun document => ?_⟩
  rw [hhits, hhits', (hrelates document).accepts]

end Asking

/-- A conjunction of what is common and what is not matches nothing with a limit of the query.
    With a limit of the index, it matches what the other part does by itself. -/
theorem ranked_conjunction {search : SearchOptions}
    (h : index.Twins other merged search.spread stopWords names common)
    (stemmer : String → String) (hvalid : search.validate = .ok ()) {text part : String}
    {first next : Operand} {relop : Relop} (hrelop : relop.operator = .and)
    (htokens : tokenize (Text.fold text)
      = .ok ((Query.chain first (.cons relop next .nil)).spelling ++ [.finish]))
    (hpart : tokenize (Text.fold part) = .ok ((Query.chain next .nil).spelling ++ [.finish]))
    (hnesting : (Query.chain first (.cons relop next .nil)).nesting ≤ 256)
    (hoperators : (Query.chain first (.cons relop next .nil)).operators ≤ 256)
    (hfirst : first.voice ((Vocabulary.of ⟨index, stemmer, search.sizes⟩).voiceOf common)
      = some .drowned)
    (hnext : next.voice ((Vocabulary.of ⟨index, stemmer, search.sizes⟩).voiceOf common)
      = some .heard) :
    ∃ ignored ranked ignored' alone left,
      Searcher.ranked ⟨index, search, stemmer⟩ text = .ok ([], ignored)
      ∧ Searcher.ranked ⟨other, { search with spread := {} }, stemmer⟩ text
        = .ok (ranked, ignored')
      ∧ Searcher.ranked ⟨other, { search with spread := {} }, stemmer⟩ part = .ok (alone, left)
      ∧ ∀ document, (∃ hit ∈ ranked, hit.1 = document) ↔ ∃ hit ∈ alone, hit.1 = document := by
  have htrees := fun document => Query.conjunction
    (h.hears stemmer search.sizes search.reach document) hrelop hfirst hnext .any
  -- Without its drowned operand the second tree is that of the other part.
  rcases htrees 0 with ⟨hfree, -, hfree', htree⟩
  have halone : (Query.chain next .nil).tree (Vocabulary.of ⟨other, stemmer, search.sizes⟩) .any
      = next.tree (Vocabulary.of ⟨other, stemmer, search.sizes⟩) .any := by
    rw [Query.tree, Links.operands, Parser.chainTree_single]
  obtain ⟨none, ignored, hnone, hnohits⟩ := h.ranked_whole stemmer hvalid htokens hnesting
    hoperators hfree
  obtain ⟨ranked, ignored', hranked, hhits⟩ := h.ranked_limited stemmer hvalid htokens hnesting
    hoperators (by rw [htree]; exact hfree')
  simp only [Query.nesting, Links.nesting, Query.operators, Links.operators] at hnesting hoperators
  obtain ⟨alone, left, hleft, hhits'⟩ := h.ranked_limited stemmer hvalid hpart
    (by simp only [Query.nesting, Links.nesting]; omega)
    (by simp only [Query.operators, Links.operators]; omega) (by rw [halone]; exact hfree')
  have hnil : none = [] := by
    refine List.eq_nil_iff_forall_not_mem.mpr fun hit hhit => ?_
    have haccepts := (hnohits hit.1).mp ⟨hit, hhit, rfl⟩
    rw [(htrees hit.1).2.1] at haccepts
    exact absurd haccepts Bool.false_ne_true
  refine ⟨ignored, ranked, ignored', alone, left, hnil ▸ hnone, hranked, hleft, fun document => ?_⟩
  rw [hhits, hhits', htree, halone]

end Index.Twins

namespace Session

/-- Two new sessions that differ in their limit merge the same words. -/
theorem new_twins (options : IndexingOptions) (stopWords : StopWords)
    (stemmer : String → String) (hnul : StemsNulFree options.sizes stemmer)
    (operations : List Operation) (hroom : (records operations).length < UInt32.size)
    (hnames : ∀ name ∈ operations.flatMap Operation.names, NulFree name)
    (hfit : (({ options := { options with spread := {} }, stemmer, stopWords } : Session).run
      operations).RunsFit)
    (hfit' : (({ options, stemmer, stopWords } : Session).run operations).RunsFit) :
    ∃ summary bytes summary' bytes',
      (({ options := { options with spread := {} }, stemmer, stopWords } : Session).run
        operations).Publishes summary bytes
      ∧ (({ options, stemmer, stopWords } : Session).run operations).Publishes summary' bytes'
      ∧ (bytes.length < UInt64.size → bytes'.length < UInt64.size →
        ∃ index other merged, Index.open? bytes.toArray = .ok index
          ∧ Index.open? bytes'.toArray = .ok other
          ∧ index.Twins other merged options.spread stopWords (storedNames operations)
            (Rules.isCommon ⟨options.sizes, stopWords, stemmer⟩ options.spread
              (corpus operations))) := by
  have hdocuments : (corpus operations).length ≤ UInt32.size := by
    rw [length_corpus]
    exact Nat.le_of_lt hroom
  obtain ⟨merged, summary, bytes, hmerges, hpublishes, hindex⟩ :=
    new_built { options with spread := {} } stopWords stemmer hnul operations hroom hfit
  obtain ⟨merged', summary', bytes', hmerges', hpublishes', hindex'⟩ :=
    new_built options stopWords stemmer hnul operations hroom hfit'
  -- The limit has no part in what is merged.
  rcases hmerges'.unique hmerges with rfl
  refine ⟨summary, bytes, summary', bytes', hpublishes, hpublishes', fun hsize hsize' => ?_⟩
  rcases hindex hsize with ⟨index, hopen, htotal, hbuilt⟩
  rcases hindex' hsize' with ⟨other, hopen', htotal', hbuilt'⟩
  have hlength : ∀ entry ∈ merged', entry.postings.length < UInt32.size := by
    intro entry hentry
    rw [hmerges.length_postings hdocuments hentry]
    refine Nat.lt_of_le_of_lt List.countP_le_length ?_
    rw [length_corpus]
    exact hroom
  refine ⟨index, other, _, hopen, hopen', {
    whole := hbuilt
    limited := hbuilt'
    total := htotal'.trans htotal.symm
    lengths := ?_
    nulFree := ?_
    names := ?_
    spread := ?_
    merged := ?_ }⟩
  · refine List.forall_mem_map.mpr fun entry hentry => ?_
    rw [length_withRanks]
    exact hlength entry hentry
  · have hnulFree : ∀ entry ∈ merged', NulFree entry.word := fun entry hentry =>
      hmerges.nulFree hdocuments hnul hentry
    exact List.forall_mem_map.mpr hnulFree
  · exact fun name hname =>
      nulFree_of_mem_foldl_addName (by simp) hnames name (List.mem_mergeSort.mp hname)
  · -- A word has a posting for each document that it is counted in.
    refine List.forall_mem_map.mpr fun entry hentry => ?_
    rw [length_withRanks, hmerges.length_postings hdocuments hentry, htotal]
    rfl
  · intro word hcommon
    rw [List.map_map]
    exact hmerges.mem_of_isCommon hdocuments hcommon

/-- Asking an index that was built without a limit with that limit, and asking one that was
    built with it without any, come to the same documents for every query that has a voice:
    there is no nearness in it, and no `and` between what is common and what is not. -/
theorem limits_agree (disk : Disk) (options : IndexingOptions) (stopWords : StopWords)
    (stemmer : String → String) (hnul : StemsNulFree options.sizes stemmer)
    (operations : List Operation) (hroom : (records operations).length < UInt32.size)
    (hnames : ∀ name ∈ operations.flatMap Operation.names, NulFree name)
    {session session' : Session}
    (hstart : start? disk { options with spread := {} } stopWords = .ok session)
    (hstart' : start? disk options stopWords = .ok session')
    (hfit : ({ session with stemmer }.run operations).RunsFit)
    (hfit' : ({ session' with stemmer }.run operations).RunsFit) :
    ∃ summary bytes summary' bytes',
      ({ session with stemmer }.run operations).Publishes summary bytes
      ∧ ({ session' with stemmer }.run operations).Publishes summary' bytes'
      ∧ (bytes.length < UInt64.size → bytes'.length < UInt64.size →
        ∃ index index', Index.open? bytes.toArray = .ok index
          ∧ Index.open? bytes'.toArray = .ok index'
          ∧ ∀ (search : SearchOptions) (text : String) (query : Query) (voice : Voice),
            search.validate = .ok () → search.spread = options.spread →
            tokenize (Text.fold text) = .ok (query.spelling ++ [.finish]) →
            query.nesting ≤ 256 → query.operators ≤ 256 →
            query.voice ((Vocabulary.of ⟨index, stemmer, search.sizes⟩).voiceOf
              (Rules.isCommon ⟨options.sizes, stopWords, stemmer⟩ options.spread
                (corpus operations))) = some voice →
            ∃ ranked ignored ranked' ignored',
              Searcher.ranked ⟨index, search, stemmer⟩ text = .ok (ranked, ignored)
              ∧ Searcher.ranked ⟨index', { search with spread := {} }, stemmer⟩ text
                = .ok (ranked', ignored')
              ∧ ∀ document,
                (∃ hit ∈ ranked, hit.1 = document) ↔ ∃ hit ∈ ranked', hit.1 = document) := by
  rcases eq_of_start? hstart with rfl
  rcases eq_of_start? hstart' with rfl
  obtain ⟨summary, bytes, summary', bytes', hpublishes, hpublishes', hindexes⟩ :=
    new_twins options stopWords stemmer hnul operations hroom hnames hfit hfit'
  refine ⟨summary, bytes, summary', bytes', hpublishes, hpublishes', fun hsize hsize' => ?_⟩
  rcases hindexes hsize hsize' with ⟨index, index', merged, hopen, hopen', htwins⟩
  -- The two indexes have the same words, but for the common ones.
  refine ⟨index, index', hopen, hopen', fun search text query voice hvalid hspread htokens hnesting
    hoperators hvoice => ?_⟩
  rw [← hspread] at htwins hvoice
  exact htwins.ranked_agree stemmer hvalid htokens hnesting hoperators hvoice

/-- Three documents with a common word, and a query for that word or another one. -/
theorem limits_agree_alternatives :
    let read : List Operation := [.file 0 "one" 8 none [.text "Cat, dog" none],
      .file 0 "two" 3 none [.text "Cat" none], .file 0 "three" 9 none [.text "Cat, bird" none]]
    let limit : SpreadLimit := { maxDocuments := 2 }
    ∃ summary bytes summary' bytes' index index',
      (({ options := {}, stopWords := .empty } : Session).run read).Publishes summary bytes
      ∧ (({ options := { spread := limit }, stopWords := .empty } : Session).run read).Publishes
        summary' bytes'
      ∧ bytes.length < UInt64.size ∧ bytes'.length < UInt64.size
      ∧ Index.open? bytes.toArray = .ok index ∧ Index.open? bytes'.toArray = .ok index'
      ∧ ∃ ranked ignored ranked' ignored',
        Searcher.ranked ⟨index, { spread := limit }, id⟩ "cat or bird" = .ok (ranked, ignored)
        ∧ Searcher.ranked ⟨index', {}, id⟩ "cat or bird" = .ok (ranked', ignored')
        ∧ ∀ document, (∃ hit ∈ ranked, hit.1 = document) ↔ ∃ hit ∈ ranked', hit.1 = document := by
  intro read limit
  let session : Session := { options := {}, stopWords := .empty }
  let session' : Session := { options := { spread := limit }, stopWords := .empty }
  let merged : List WordPostings := [
    ⟨"bird", [{ document := 2, occurrences := 1, positions := [1] }]⟩,
    ⟨"cat", [{ document := 0, occurrences := 1, positions := [0] },
      { document := 1, occurrences := 1, positions := [0] },
      { document := 2, occurrences := 1, positions := [0] }]⟩,
    ⟨"dog", [{ document := 0, occurrences := 1, positions := [1] }]⟩]
  have hsources : ((session.run read).closed.sources >>= Merge.sources).toOption = some merged := by
    decide +kernel
  have hsources' : ((session'.run read).closed.sources >>= Merge.sources).toOption
      = some merged := by
    decide +kernel
  obtain ⟨_, -, -, hvolume⟩ := exists_publishes_volume hsources (by decide +kernel)
  obtain ⟨_, -, -, hvolume'⟩ := exists_publishes_volume hsources' (by decide +kernel)
  have hstart : start? {} {} .empty = .ok session := rfl
  have hstart' : start? {} { spread := limit } .empty = .ok session' := rfl
  obtain ⟨summary, bytes, summary', bytes', hpublishes, hpublishes', hindexes⟩ :=
    limits_agree {} { spread := limit } .empty id (stemsNulFree_id _) read (by decide)
      (by decide +kernel) hstart hstart' (by decide +kernel) (by decide +kernel)
  rcases hpublishes.unique hvolume with rfl
  rcases hpublishes'.unique hvolume' with rfl
  have hsize : ((session.run read).volume merged).bytes.length < UInt64.size :=
    Volume.length_bytes_lt (by decide +kernel)
  have hsize' : ((session'.run read).volume merged).bytes.length < UInt64.size :=
    Volume.length_bytes_lt (by decide +kernel)
  rcases hindexes hsize hsize' with ⟨index, index', hopen, hopen', hagree⟩
  let query : Query := .chain (.plain (.word "cat")) (.cons .or (.plain (.word "bird")) .nil)
  have htokens : tokenize (Text.fold "cat or bird") = .ok (query.spelling ++ [.finish]) :=
    eq_ok_of_toOption (by decide +kernel)
  -- The index without a limit skips nothing that passes the check.
  have hempty : ((session.run read).stopWords.insertAll ((session.run read).demoted merged)).words
      = [] := by
    decide +kernel
  have hskips : ∀ word, Word.check {} word = none →
      (Vocabulary.of ⟨index, id, {}⟩).skips word = false := by
    intro word hcheck
    have hstop : ∀ word, index.isStopWord word = .ok false := by
      intro word
      rw [Volume.isStopWord_eq hsize hopen rfl, hempty]
      rfl
    rw [Vocabulary.skips, Vocabulary.of_isStopWord (hstop _), Vocabulary.of_isStopWord (hstop _)]
    exact congrArg (fun rejection => rejection.isSome || false || false) hcheck
  let common := Rules.isCommon ⟨{}, .empty, id⟩ limit (corpus read)
  have hcat : (Vocabulary.of ⟨index, id, {}⟩).voiceOf common "cat" = some .drowned := by
    have hcommon : common (id "cat") = true := by decide +kernel
    rw [Vocabulary.voiceOf, hskips "cat" (by decide +kernel), if_neg Bool.false_ne_true,
      show (Vocabulary.of ⟨index, id, {}⟩).stemmer = id from rfl, if_pos hcommon]
  have hbird : (Vocabulary.of ⟨index, id, {}⟩).voiceOf common "bird" = some .heard := by
    have hcommon : common (id "bird") = false := by decide +kernel
    rw [Vocabulary.voiceOf, hskips "bird" (by decide +kernel), if_neg Bool.false_ne_true,
      show (Vocabulary.of ⟨index, id, {}⟩).stemmer = id from rfl, hcommon,
      if_neg Bool.false_ne_true, if_neg (by decide +kernel)]
  have hvoice : query.voice ((Vocabulary.of ⟨index, id, {}⟩).voiceOf common) = some .heard := by
    simp only [query, Query.voice, Links.voice, Operand.voice, Primary.voice, hcat, hbird]
    rfl
  exact ⟨summary, _, summary', _, index, index', hpublishes, hpublishes', hsize, hsize', hopen,
    hopen', hagree { spread := limit } "cat or bird" query .heard rfl rfl htokens (by decide)
      (by decide) hvoice⟩

end Session

end Concordance
