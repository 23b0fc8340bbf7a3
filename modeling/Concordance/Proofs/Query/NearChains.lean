import Concordance.Proofs.Indexing.Stored
import Concordance.Proofs.Query.Answering
import Concordance.Proofs.Query.Groups

/-!
# Queries with Nothing but Nearness

What a query finds that has words in it, `near` between them, and groups around some of them.

Such a query is read as a tree that has the same groups. For this its words have to be looked up,
and nothing else has to be: that a name could not be, in an index which has names with a NUL in
them, is of no concern here. Each leaf then has the one entry of its word, and whether leaves are
near can be told of the words of the index.

What is found is told by the pairs of words that the groups make. These are the words that are
next to each other in every chain that is written without groups, and where groups have two
words.

## Main definitions

* `Setting.Close`: Two words are near each other in a document.
* `Grammar.Query.bracketing?`: The words of such a query, in their groups.
* `Grammar.Vocabulary.Knows`: A word is looked up.

## Theorems

* `Grammar.Query.reads_bracketing`: The tree of such a query.
* `Published.near_groups`: The documents that it finds.
-/

namespace Concordance

namespace Setting

variable {setting : Setting} {document : UInt32}

/-- A word that is not in too many documents has a position in a document. -/
def Occurs (setting : Setting) (word : String) (document position : UInt32) : Prop :=
  ∃ entry ∈ setting.words, entry.word = word
    ∧ setting.limit.exceededBy entry.postings.length setting.documents = false
    ∧ ∃ posting ∈ entry.postings, posting.document = document ∧ position ∈ posting.positions

instance {word : String} {position : UInt32} : Decidable (setting.Occurs word document position) :=
  inferInstanceAs (Decidable (∃ entry ∈ setting.words, _))

/-- Two words are near each other in a document. -/
def Close (setting : Setting) (word other : String) (document : UInt32) : Prop :=
  ∃ a b, setting.Occurs word document a ∧ setting.Occurs other document b
    ∧ Near setting.reach a b

/-- Ranks have nothing to do with positions. -/
theorem occurs_withRanks {words : List WordPostings} {files : List Record} {documents : Nat}
    {limit : SpreadLimit} {reach : Nat} {word : String} {position : UInt32} :
    Occurs ⟨words.map (WordPostings.withRanks files), documents, limit, reach⟩ word document
        position
      ↔ Occurs ⟨words, documents, limit, reach⟩ word document position := by
  simp only [Occurs, WordPostings.withRanks, rankAll, List.mem_map, exists_exists_and_eq_and,
    List.length_map]

/-- The positions of a leaf are those of the word that it stands for. -/
theorem Covers.mem_positionsIn {leaf : WordLeaf}
    (h : setting.Covers leaf fun entry => entry.word == leaf.word) (hmeta : leaf.metaId = none)
    {position : UInt32} :
    position ∈ setting.positionsIn leaf document ↔ setting.Occurs leaf.word document position := by
  have hpasses : ∀ posting : Posting, posting.passes leaf.metaId = true := fun posting => by
    rw [hmeta]
    rfl
  simp only [positionsIn, postingsIn, postings, entries, List.mem_flatMap, List.mem_filter, hpasses,
    and_true, decide_eq_true_eq, Bool.not_eq_true', Occurs]
  rw [h]
  simp only [List.mem_filter, beq_iff_eq]
  -- Both sides say the same in another order.
  constructor
  · rintro ⟨posting, ⟨⟨entry, ⟨⟨hentry, hword⟩, hkept⟩, hposting⟩, hdocument⟩, hposition⟩
    exact ⟨entry, hentry, hword, hkept, posting, hposting, hdocument, hposition⟩
  · rintro ⟨entry, hentry, hword, hkept, posting, hposting, hdocument, hposition⟩
    exact ⟨posting, ⟨⟨entry, ⟨⟨hentry, hword⟩, hkept⟩, hposting⟩, hdocument⟩, hposition⟩

/-- So their nearness is that of the words. -/
theorem Covers.nearIn_iff_close {left right : WordLeaf}
    (hl : setting.Covers left fun entry => entry.word == left.word)
    (hr : setting.Covers right fun entry => entry.word == right.word) (hleft : left.metaId = none)
    (hright : right.metaId = none) :
    setting.nearIn left right document ↔ setting.Close left.word right.word document := by
  rw [nearIn_iff, Close]
  simp only [hl.mem_positionsIn hleft, hr.mem_positionsIn hright]
  constructor
  · rintro ⟨a, ha, b, hb, hnear⟩
    exact ⟨a, b, ha, hb, hnear⟩
  · rintro ⟨a, b, ha, hb, hnear⟩
    exact ⟨a, ha, b, hb, hnear⟩

end Setting

namespace Grammar

open Concordance.Parser

mutual

/-- The words of a query in their groups, if there is nothing but `near` between them. -/
def Query.bracketing? : Query → Option (Bracketing String)
  | .chain first rest => first.bracketing?.bind rest.bracketing?

/-- The same of a chain, given what it begins with. -/
def Links.bracketing? : Links → Bracketing String → Option (Bracketing String)
  | .nil, sofar => some sofar
  | .cons .near next rest, sofar =>
    next.bracketing?.bind fun word => rest.bracketing? (.near sofar word)
  | .cons _ _ _, _ => none

def Operand.bracketing? : Operand → Option (Bracketing String)
  | .named _ _ => none
  | .plain primary => primary.bracketing?

def Primary.bracketing? : Primary → Option (Bracketing String)
  | .group query => query.bracketing?
  | .word text => some (.word text)
  | _ => none

end

/-- A chain has the words that it begins with. -/
theorem Links.mem_words_of_bracketing? {bracketing : Bracketing String} {text : String} :
    ∀ {rest : Links} {sofar : Bracketing String}, rest.bracketing? sofar = some bracketing →
      text ∈ sofar.words → text ∈ bracketing.words
  | .nil, sofar, h, htext => by
    rw [Links.bracketing?] at h
    rwa [← Option.some.inj h]
  | .cons relop next rest, sofar, h, htext => by
    cases relop with
    | near =>
      rw [Links.bracketing?, Option.bind_eq_some_iff] at h
      rcases h with ⟨word, -, h⟩
      exact mem_words_of_bracketing? h (List.mem_append_left _ htext)
    | _ => exact absurd h (by simp [Links.bracketing?])

variable {vocabulary : Vocabulary} {lookup : Lookup}

/-- The leaf of a word, under no name. -/
def Vocabulary.leafOf (vocabulary : Vocabulary) (text : String) : WordLeaf :=
  let range := vocabulary.entries (vocabulary.stemmer text)
  ⟨vocabulary.stemmer text, range.1, range.2, none⟩

/-- A word is not left out, and looking it up succeeds. -/
structure Vocabulary.Knows (vocabulary : Vocabulary) (lookup : Lookup) (text : String) : Prop where
  kept : vocabulary.skips text = false
  described : (Primary.word text).Described vocabulary lookup

theorem Vocabulary.Knows.tree {text : String} (h : vocabulary.Knows lookup text) :
    (Primary.word text).tree vocabulary .any = .word (vocabulary.leafOf text) := by
  rw [Primary.tree, h.kept]
  rfl

mutual

/-- Such a query is read as a tree with the same groups, and no word of it is left out. -/
theorem Query.reads_bracketing {bracketing : Bracketing String} :
    ∀ {query : Query}, query.bracketing? = some bracketing →
      (∀ text ∈ bracketing.words, vocabulary.Knows lookup text) →
        query.Described vocabulary lookup ∧ query.skipped vocabulary = []
          ∧ query.tree vocabulary .any = (bracketing.map vocabulary.leafOf).tree
  | .chain first rest, h, hknows => by
    rw [Query.bracketing?, Option.bind_eq_some_iff] at h
    rcases h with ⟨word, hfirst, hrest⟩
    obtain ⟨hdescribed, hskipped, htree⟩ := Operand.reads_bracketing hfirst fun text htext =>
      hknows text (Links.mem_words_of_bracketing? hrest htext)
    -- The operand that the chain begins with is the bracketing that its links go on from.
    obtain ⟨hdescribed', hskipped', trees, hoperands, hspeak, hchain⟩ :=
      Links.reads_bracketing hrest hknows
    refine ⟨⟨hdescribed, hdescribed'⟩, ?_, ?_⟩
    · rw [Query.skipped, hskipped, hskipped', List.append_nil]
    · -- A chain of nothing but nearness leans to the left, if no operand is left out of it.
      rw [Query.tree, hoperands, htree, ← hchain, ← chainTree_near .and, List.map_map]
      · rfl
      · rw [List.map_map, List.forall_mem_cons]
        exact ⟨Bracketing.isEmpty_tree _, by simpa using hspeak⟩

theorem Links.reads_bracketing {bracketing : Bracketing String} :
    ∀ {rest : Links} {sofar : Bracketing String}, rest.bracketing? sofar = some bracketing →
      (∀ text ∈ bracketing.words, vocabulary.Knows lookup text) →
        rest.Described vocabulary lookup ∧ rest.skipped vocabulary = [] ∧ ∃ trees : List QueryTree,
          rest.operands vocabulary .any = trees.map (fun tree => (.near false, tree))
            ∧ (∀ tree ∈ trees, tree.isEmpty = false)
            ∧ (sofar.map vocabulary.leafOf).tree.leanLeft (trees.map (Prod.mk false))
              = (bracketing.map vocabulary.leafOf).tree
  | .nil, sofar, h, _ => by
    rw [Links.bracketing?] at h
    rw [← Option.some.inj h]
    exact ⟨trivial, rfl, [], rfl, by simp, rfl⟩
  | .cons relop next rest, sofar, h, hknows => by
    cases relop with
    | near =>
      rw [Links.bracketing?, Option.bind_eq_some_iff] at h
      -- The words of the operand are on the right of what the rest of the chain begins with.
      rcases h with ⟨word, hnext, hrest⟩
      obtain ⟨hdescribed, hskipped, htree⟩ := Operand.reads_bracketing hnext fun text htext =>
        hknows text (Links.mem_words_of_bracketing? hrest (List.mem_append_right _ htext))
      obtain ⟨hdescribed', hskipped', trees, hoperands, hspeak, hchain⟩ :=
        Links.reads_bracketing hrest hknows
      refine ⟨⟨hdescribed, hdescribed'⟩, ?_, next.tree vocabulary .any :: trees, ?_, ?_, ?_⟩
      · rw [Links.skipped, hskipped, hskipped', List.append_nil]
      · rw [Links.operands, hoperands]
        rfl
      · rw [htree]
        exact List.forall_mem_cons.mpr ⟨Bracketing.isEmpty_tree _, hspeak⟩
      · rw [htree]
        exact hchain
    -- Any other operator, and there would be no bracketing.
    | _ => exact absurd h (by simp [Links.bracketing?])

theorem Operand.reads_bracketing {bracketing : Bracketing String} :
    ∀ {operand : Operand}, operand.bracketing? = some bracketing →
      (∀ text ∈ bracketing.words, vocabulary.Knows lookup text) →
        operand.Described vocabulary lookup ∧ operand.skipped vocabulary = []
          ∧ operand.tree vocabulary .any = (bracketing.map vocabulary.leafOf).tree
  | .named _ _, h, _ => absurd h (by simp [Operand.bracketing?])
  | .plain _, h, hknows => Primary.reads_bracketing h hknows

theorem Primary.reads_bracketing {bracketing : Bracketing String} :
    ∀ {primary : Primary}, primary.bracketing? = some bracketing →
      (∀ text ∈ bracketing.words, vocabulary.Knows lookup text) →
        primary.Described vocabulary lookup ∧ primary.skipped vocabulary = []
          ∧ primary.tree vocabulary .any = (bracketing.map vocabulary.leafOf).tree
  | .group _, h, hknows => Query.reads_bracketing h hknows
  | .not _, h, _ => absurd h (by simp [Primary.bracketing?])
  | .wildcard _, h, _ => absurd h (by simp [Primary.bracketing?])
  | .word text, h, hknows => by
    rw [Primary.bracketing?] at h
    rw [← Option.some.inj h] at hknows ⊢
    have hknown := hknows text List.mem_cons_self
    refine ⟨hknown.described, ?_, hknown.tree⟩
    rw [Primary.skipped, hknown.kept]
    rfl

end

/-- A word that has a stem is known, if the stem can be looked up. -/
theorem Vocabulary.knows_of_stemOf {text stem : String} {place : Option Nat}
    (hstem : stemOf lookup text = .ok (some stem))
    (hplace : lookup.index.placeOf stem = .ok place) :
    (of lookup).Knows lookup text := by
  obtain ⟨rfl, hcheck, hword, hstop⟩ := stemOf_eq_some hstem
  have hskips : (of lookup).skips text = false := by
    rw [skips, of_isStopWord hword]
    show ((Word.check lookup.sizes text).isSome || false
      || (of lookup).isStopWord (lookup.stemmer text)) = false
    rw [hcheck, of_isStopWord hstop]
    rfl
  -- Looking the stem up gives the leaf that the vocabulary has for it, under any name.
  refine ⟨hskips, fun filter => ?_⟩
  have hentries : entriesOf lookup filter (lookup.stemmer text)
      = .ok (if filter = .unknown then (0, 0) else (of lookup).entries (lookup.stemmer text)) := by
    rw [entriesOf, hplace, Vocabulary.entries, of_placeOf hplace]
    split
    · rfl
    · cases place <;> rfl
  rw [wordLeaf_of_stem hstem hentries, Primary.tree, hskips]
  rfl

end Grammar

open Grammar

/-- A published index opens as a sound one, in which every word can be looked up. -/
theorem Published.exists_places {bytes : Bytes} (h : Published bytes) :
    ∃ index words, Index.open? bytes.toArray = .ok index ∧ index.Sound words
      ∧ ∀ word, index.placeOf word = .ok (words.findIdx? fun entry => entry.word == word) := by
  rcases h.exists_finds with ⟨index, words, hopen, hfinds⟩
  exact ⟨index, words, hopen, hfinds.sound, hfinds.placeOf⟩

/-- The leaf of a word has the entries of its stem. -/
theorem Grammar.Vocabulary.covers_leafOf {searcher : Searcher} {words : List WordPostings}
    (h : (WordPostings.table words).Proper) {text : String}
    (hplace : searcher.index.placeOf (searcher.stemmer text)
      = .ok (words.findIdx? fun entry => entry.word == searcher.stemmer text)) :
    (searcher.evaluation.setting words).Covers ((of searcher.lookup).leafOf text)
      fun entry => entry.word == searcher.stemmer text := by
  rw [Setting.Covers]
  exact slice_entries h (of_placeOf hplace)

/-- In a published index, a query of words with nothing but `near` between them finds the documents
    in which the words of all pairs are near that the groups of the query make. Words that are next
    to each other are a pair, so these are near in all that is found. There are no other pairs if
    no group on the right of a `near` has three words or more, as in a chain without groups. -/
theorem Published.near_groups {bytes : Bytes} (h : Published bytes) :
    ∃ index words, Index.open? bytes.toArray = .ok index ∧ index.decodeWords = .ok words
      ∧ ∀ (options : SearchOptions) (stemmer : String → String) (text : String) (query : Query)
          (bracketing : Bracketing String),
        options.validate = .ok () →
        tokenize (Text.fold text) = .ok (query.spelling ++ [.finish]) →
        query.bracketing? = some bracketing → 2 ≤ bracketing.words.length →
        query.nesting ≤ 256 → query.operators ≤ 256 →
        let searcher : Searcher := ⟨index, options, stemmer⟩
        (∀ word ∈ bracketing.words, ∃ stem, Parser.stemOf searcher.lookup word = .ok (some stem)) →
        let near (pair : String × String) (document : UInt32) : Prop :=
          (searcher.evaluation.setting words).Close (stemmer pair.1) (stemmer pair.2) document
        ∃ ranked ignored, searcher.ranked text = .ok (ranked, ignored)
          ∧ (∀ document, (∃ hit ∈ ranked, hit.1 = document)
            ↔ ∀ pair ∈ bracketing.pairs, near pair document)
          ∧ (∀ hit ∈ ranked, ∀ pair ∈ neighbours bracketing.words, near pair hit.1)
          ∧ (bracketing.Short → ∀ document, (∃ hit ∈ ranked, hit.1 = document)
            ↔ ∀ pair ∈ neighbours bracketing.words, near pair document) := by
  rcases h.exists_places with ⟨index, words, hopen, hsound, hplaces⟩
  refine ⟨index, words, hopen, hsound.decode, ?_⟩
  intro options stemmer text query bracketing hvalid htokens hbracketing hlength hnesting hoperators
    searcher hstems near
  let vocabulary := Vocabulary.of searcher.lookup
  have hknows : ∀ word ∈ bracketing.words, vocabulary.Knows searcher.lookup word :=
    fun word hword => by
      rcases hstems word hword with ⟨stem, hstem⟩
      exact Vocabulary.knows_of_stemOf hstem (hplaces stem)
  -- The query is read as a tree with its groups, and this can be spread.
  obtain ⟨hdescribed, hskipped, htree⟩ := Query.reads_bracketing hbracketing hknows
  have hread := parse_described query hdescribed hnesting
    (Nat.le_trans (query.links_le vocabulary .any) hoperators)
  rw [htree, hskipped] at hread
  have hlength' : 2 ≤ (bracketing.map vocabulary.leafOf).words.length := by
    rwa [Bracketing.words_map, List.length_map]
  obtain ⟨node, hnode, haccepts⟩ := Bracketing.distribute_accepts hlength'
  have hparse : searcher.parse text = .ok (node, []) :=
    Searcher.parse_eq_ok_iff.mpr ⟨_, _, htokens, hread, hnode⟩
  obtain ⟨ranked, passed, hranked, hhits⟩ := Searcher.ranked_of_parse hsound hvalid hparse
  -- What is near in the setting is told of leaves, and what is asked for of words.
  have hnear : ∀ w v document, (searcher.evaluation.setting words).nearIn (vocabulary.leafOf w)
      (vocabulary.leafOf v) document ↔ near (w, v) document := fun w v document =>
    (Vocabulary.covers_leafOf hsound.proper (hplaces (stemmer w))).nearIn_iff_close
      (Vocabulary.covers_leafOf hsound.proper (hplaces (stemmer v))) rfl rfl
  have hfound : ∀ document, (∃ hit ∈ ranked, hit.1 = document)
      ↔ ∀ pair ∈ bracketing.pairs, near pair document := by
    intro document
    rw [hhits, ← Option.isSome_iff_ne_none]
    refine (haccepts _ document).trans ?_
    rw [Bracketing.pairs_map, List.forall_mem_map]
    exact forall₂_congr fun pair _ => hnear pair.1 pair.2 document
  -- Words next to each other are a pair always, and the only pairs if the groups are short.
  refine ⟨ranked, _, hranked, hfound, fun hit hhit => ?_, fun hshort document => ?_⟩
  · exact fun pair hpair => (hfound hit.1).mp ⟨hit, hhit, rfl⟩ pair
      (Bracketing.mem_pairs_of_neighbours hpair)
  · rw [hfound]
    exact forall_congr' fun pair => imp_congr_left hshort.mem_pairs_iff

/-- Four words in a row, and a group of the last three. The first word has to be near the third one
    as well, which it is in one of the documents only. -/
theorem Published.near_groups_of_three :
    let read : List Operation := [.file 0 "one" 15 none [.text "Cat dog emu fox" none],
      .file 0 "two" 19 none [.text "Emu cat dog emu fox" none]]
    let session : Session := { options := {}, stopWords := .empty }
    ∃ merged index words ranked ignored, Published ((session.run read).volume merged).bytes
      ∧ Index.open? ((session.run read).volume merged).bytes.toArray = .ok index
      ∧ index.decodeWords = .ok words
      ∧ Searcher.ranked ⟨index, { reach := 1 }, id⟩ "cat near (dog near emu near fox)"
        = .ok (ranked, ignored)
      ∧ (∀ hit ∈ ranked, hit.1 ≠ 0) ∧ (∃ hit ∈ ranked, hit.1 = 1)
      ∧ ∀ pair ∈ neighbours ["cat", "dog", "emu", "fox"],
        Setting.Close ⟨words, index.numDocuments, {}, 1⟩ pair.1 pair.2 0 := by
  intro read session
  let merged : List WordPostings := [
    ⟨"cat", [{ document := 0, occurrences := 1, positions := [0] },
      { document := 1, occurrences := 1, positions := [1] }]⟩,
    ⟨"dog", [{ document := 0, occurrences := 1, positions := [1] },
      { document := 1, occurrences := 1, positions := [2] }]⟩,
    ⟨"emu", [{ document := 0, occurrences := 1, positions := [2] },
      { document := 1, occurrences := 2, positions := [0, 3] }]⟩,
    ⟨"fox", [{ document := 0, occurrences := 1, positions := [3] },
      { document := 1, occurrences := 1, positions := [4] }]⟩]
  have hsources : ((session.run read).closed.sources >>= Merge.sources).toOption = some merged := by
    decide +kernel
  obtain ⟨hpublished, hsound⟩ :=
    Published.of_merge rfl (by decide) (by decide +kernel) hsources (by decide +kernel)
  rcases Published.near_groups hpublished with ⟨index, words, hopen, hdecode, hfinds⟩
  obtain ⟨index', words', hopen', hindex, htable, hcount⟩ :=
    hsound.exists_index hpublished.size (by decide +kernel)
  rcases Except.ok.inj (hopen.symm.trans hopen') with rfl
  rcases Except.ok.inj (hdecode.symm.trans hindex.decode) with rfl
  have hwords := Session.words_eq_of_rare htable (by decide +kernel)
  -- The query as it is read, and its words in their groups.
  let query : Query := .chain (.plain (.word "cat")) (.cons .near (.plain (.group
    (.chain (.plain (.word "dog")) (.cons .near (.plain (.word "emu"))
      (.cons .near (.plain (.word "fox")) .nil))))) .nil)
  let bracketing : Bracketing String :=
    .near (.word "cat") (.near (.near (.word "dog") (.word "emu")) (.word "fox"))
  have htokens : tokenize (Text.fold "cat near (dog near emu near fox)")
      = .ok (query.spelling ++ [.finish]) := eq_ok_of_toOption (by decide +kernel)
  -- There are no stop words, so that every word has a stem.
  have hempty : ((session.run read).stopWords.insertAll ((session.run read).demoted merged)).words
      = [] := by
    decide +kernel
  have hstop : ∀ word, index.isStopWord word = .ok false := by
    intro word
    rw [Volume.isStopWord_eq hpublished.size hopen rfl, hempty]
    rfl
  have hstems : ∀ word ∈ bracketing.words, ∃ stem,
      Parser.stemOf ⟨index, id, {}⟩ word = .ok (some stem) := by
    intro word hword
    have hchecks : ∀ word ∈ bracketing.words, (Word.check {} word).isSome = false := by
      decide +kernel
    refine ⟨word, ?_⟩
    rw [Parser.stemOf, hchecks word hword, if_neg Bool.false_ne_true]
    simp only [hstop, id, if_true]
  obtain ⟨ranked, ignored, hranked, hfound, -, -⟩ := hfinds { reach := 1 } id _ query bracketing rfl
    htokens rfl (by decide) (by decide) (by decide) hstems
  -- From here on positions are those of the merged words, and can be computed.
  have hoccurs : ∀ {word document position},
      Setting.Occurs ⟨words, index.numDocuments, {}, 1⟩ word document position
        ↔ Setting.Occurs ⟨merged, 2, {}, 1⟩ word document position := by
    intro word document position
    have hfiles : ((session.run read).volume merged).files.length = 2 := by decide +kernel
    rw [hwords, hcount, hfiles]
    exact Setting.occurs_withRanks
  have hclose : ∀ {word other document} (a b : UInt32),
      Setting.Occurs ⟨merged, 2, {}, 1⟩ word document a →
      Setting.Occurs ⟨merged, 2, {}, 1⟩ other document b → Near 1 a b →
        Setting.Close ⟨words, index.numDocuments, {}, 1⟩ word other document :=
    fun a b ha hb hnear => ⟨a, b, hoccurs.mpr ha, hoccurs.mpr hb, hnear⟩
  refine ⟨merged, index, words, ranked, ignored, hpublished, hopen, hdecode, hranked,
    fun hit hhit hzero => ?_, (hfound 1).mpr ?_, ?_⟩
  · -- In the first document the first word and the third are two places apart.
    obtain ⟨a, b, ha, hb, hnear⟩ := (hfound 0).mp ⟨hit, hhit, hzero⟩ ("cat", "emu") (by decide)
    have ha : a = 0 := by simpa [merged, Setting.Occurs, SpreadLimit.exceededBy] using hoccurs.mp ha
    have hb : b = 2 := by simpa [merged, Setting.Occurs, SpreadLimit.exceededBy] using hoccurs.mp hb
    have hnear : Near 1 0 2 := ha ▸ hb ▸ hnear
    exact absurd hnear (by decide)
  · -- In the second one the third word is there twice, once before the first.
    rw [show bracketing.pairs = [("cat", "dog"), ("cat", "emu"), ("dog", "emu"), ("emu", "fox")]
      by decide]
    simp only [List.forall_mem_cons]
    exact ⟨hclose 1 2 (by decide) (by decide) (by decide),
      hclose 1 0 (by decide) (by decide) (by decide),
      hclose 2 3 (by decide) (by decide) (by decide),
      hclose 3 4 (by decide) (by decide) (by decide), by simp⟩
  · rw [show neighbours ["cat", "dog", "emu", "fox"]
      = [("cat", "dog"), ("dog", "emu"), ("emu", "fox")] from rfl]
    simp only [List.forall_mem_cons]
    exact ⟨hclose 0 1 (by decide) (by decide) (by decide),
      hclose 1 2 (by decide) (by decide) (by decide),
      hclose 2 3 (by decide) (by decide) (by decide), by simp⟩

end Concordance
