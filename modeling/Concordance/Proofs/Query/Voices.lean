import Concordance.Proofs.Query.Acceptance
import Concordance.Proofs.Query.Grammar

/-!
# Words That Are Passed Over

One query for two indexes, of which the second has more stop words.

A word that only the second index has for a stop word is left out of the tree there. In the
first it is looked up. If it matches nothing there, be it for being in too many documents, it
is still an operand. This is the same for `or`, which nothing is added to, and for `not`. It
is not the same for `and`: a conjunction with an operand that matches nothing matches nothing,
and one of which an operand is left out matches what the others do.

So a query can be told by itself for which both indexes match the same documents. Every part
of it has a voice: it says nothing in both trees, or nothing in the second one and matches
nothing in the first, or it is heard in both. Voices are joined along chains, which only
fails where `and` stands between a drowned part and one that is heard.

## Main definitions

* `Voice`: What a part of a query comes to in two trees.
* `Query.voice`: The voice of a query, if it has one.
* `Hears`: What words and wildcards come to in two indexes.

## Theorems

* `Query.relates`: A query with a voice matches the same documents in both trees.
* `Query.conjunction`: A query that has none, and matches different documents.
-/

namespace Concordance

namespace Grammar

open Concordance.Parser

/-- What a part of a query comes to in the trees of two indexes. -/
inductive Voice where
  /-- It says nothing in either tree. -/
  | silent
  /-- It says nothing in the second tree, and matches nothing in the first one. -/
  | drowned
  /-- It says the same in both. -/
  | heard
deriving DecidableEq, Repr

/-- The voice of two parts with an operator between them. What is drowned adds nothing to
    what is heard, but it takes everything away. -/
def Voice.join (sofar : Voice) (op : Operator) (next : Voice) : Option Voice :=
  match op with
  | .near _ => none
  | op =>
    if sofar = .silent then some next
    else if next = .silent ∨ next = sofar then some sofar
    else if op = .or then some .heard
    else none

/-- Parts are only joined by `and` to silence and to their like, and what is joined is as loud
    as its loudest part. -/
theorem Voice.join_eq_some {sofar next joined : Voice} {op : Operator}
    (h : sofar.join op next = some joined) : (op = .and ∨ op = .or)
      ∧ (op = .and → sofar ≠ .silent → next ≠ .silent → next = sofar)
      ∧ (joined = .silent ↔ sofar = .silent ∧ next = .silent)
      ∧ (joined = .heard ↔ sofar = .heard ∨ next = .heard) := by
  cases op <;> cases sofar <;> cases next <;> cases joined <;> simp_all [join]

section Voices

variable (words : String → Option Voice)

mutual

/-- The voice of a query, given those of its words. -/
def Query.voice : Query → Option Voice
  | .chain first rest => first.voice.bind rest.voice

/-- The voice of a chain, given that of its operands so far. -/
def Links.voice : Links → Voice → Option Voice
  | .nil, sofar => some sofar
  | .cons relop next rest, sofar =>
    next.voice.bind fun voice => (sofar.join relop.operator voice).bind rest.voice

def Operand.voice : Operand → Option Voice
  | .named _ primary => primary.voice
  | .plain primary => primary.voice

def Primary.voice : Primary → Option Voice
  | .group query => query.voice
  | .not operand => operand.voice.map fun _ => .heard
  | .word text => words text
  | .wildcard _ => some .heard

end

end Voices

/-- The trees of a part with a voice, and whether a document matches them. -/
structure Voice.Relates (voice : Voice) (setting other : Setting) (document : UInt32)
    (tree tree' : QueryTree) : Prop where
  isEmpty : tree.isEmpty = decide (voice = .silent)
  isEmpty' : tree'.isEmpty = decide (voice ≠ .heard)
  nearFree : tree.NearFree
  nearFree' : tree'.NearFree
  accepts : tree.accepts setting document = tree'.accepts other document

namespace Voice.Relates

variable {voice next joined : Voice} {setting other : Setting} {document : UInt32}
  {tree tree' : QueryTree} {operands operands' : List (Operator × QueryTree)}

/-- What is not heard matches nothing. -/
theorem accepts_eq_false (h : voice.Relates setting other document tree tree')
    (hvoice : voice ≠ .heard) :
    tree.accepts setting document = false ∧ tree'.accepts other document = false := by
  have hempty := h.isEmpty'
  rw [decide_eq_true hvoice] at hempty
  have hnothing : tree'.accepts other document = false := by
    rw [eq_empty_of_isEmpty hempty]
    exact QueryTree.accepts_empty
  exact ⟨h.accepts.trans hnothing, hnothing⟩

/-- A chain of one operand is that operand. -/
theorem single (h : voice.Relates setting other document tree tree') (op : Operator) :
    voice.Relates setting other document (chainTree [(op, tree)]) (chainTree [(op, tree')]) := by
  rw [chainTree_single, chainTree_single]
  exact h

/-- Voices are joined as trees are. -/
theorem join (h : voice.Relates setting other document (chainTree operands) (chainTree operands'))
    (hnext : next.Relates setting other document tree tree') {op : Operator}
    (hjoin : voice.join op next = some joined) :
    joined.Relates setting other document (chainTree (operands ++ [(op, tree)]))
      (chainTree (operands' ++ [(op, tree')])) := by
  obtain ⟨hop, hlike, hsilent, hheard⟩ := Voice.join_eq_some hjoin
  refine ⟨?_, ?_, nearFree_chainTree_concat h.nearFree hnext.nearFree hop,
    nearFree_chainTree_concat h.nearFree' hnext.nearFree' hop, ?_⟩
  · rw [isEmpty_chainTree_concat, h.isEmpty, hnext.isEmpty, ← Bool.decide_and]
    exact decide_eq_decide.mpr hsilent.symm
  · rw [isEmpty_chainTree_concat, h.isEmpty', hnext.isEmpty', ← Bool.decide_and]
    exact decide_eq_decide.mpr (not_or.symm.trans (not_congr hheard.symm))
  · have hfalse := h.accepts_eq_false
    have hfalse' := hnext.accepts_eq_false
    rw [accepts_chainTree_concat hop, accepts_chainTree_concat hop, h.isEmpty, h.isEmpty',
      hnext.isEmpty, hnext.isEmpty', ← h.accepts, ← hnext.accepts]
    -- What is not heard is false on both sides, and `and` has its like on its other side.
    generalize (chainTree operands).accepts setting document = sofar at *
    generalize tree.accepts setting document = more at *
    clear h hnext hjoin hsilent hheard
    rcases hop with rfl | rfl <;> cases voice <;> cases next <;> simp_all

/-- What is negated matches the documents that are left. -/
theorem not (h : voice.Relates setting other document tree tree')
    (hdocuments : other.documents = setting.documents) :
    Voice.heard.Relates setting other document (.not tree) (.not tree') :=
  ⟨rfl, rfl, .not h.nearFree, .not h.nearFree', by
    rw [QueryTree.accepts_not, QueryTree.accepts_not, h.accepts, hdocuments]⟩

end Voice.Relates

/-- Words have these voices in two indexes, with the same names, and wildcards are heard. -/
structure Hears (words : String → Option Voice) (vocabulary vocabulary' : Vocabulary)
    (setting other : Setting) (document : UInt32) : Prop where
  documents : other.documents = setting.documents
  nameId : vocabulary'.nameId = vocabulary.nameId
  word : ∀ text filter voice, words text = some voice → voice.Relates setting other document
    ((Primary.word text).tree vocabulary filter) ((Primary.word text).tree vocabulary' filter)
  wildcard : ∀ lead filter, Voice.heard.Relates setting other document
    ((Primary.wildcard lead).tree vocabulary filter)
    ((Primary.wildcard lead).tree vocabulary' filter)

section Relates

variable {words : String → Option Voice} {vocabulary vocabulary' : Vocabulary}
  {setting other : Setting} {document : UInt32}

mutual

/-- A query with a voice comes to what its voice says. -/
theorem Query.relates (h : Hears words vocabulary vocabulary' setting other document)
    (query : Query) (filter : NameFilter) {voice : Voice}
    (hvoice : query.voice words = some voice) :
    voice.Relates setting other document (query.tree vocabulary filter)
      (query.tree vocabulary' filter) := by
  cases query with
  | chain first rest =>
    rw [Query.voice] at hvoice
    rcases Option.bind_eq_some_iff.mp hvoice with ⟨sofar, hfirst, hrest⟩
    exact rest.relates h filter ((first.relates h filter hfirst).single .and) hrest

/-- A chain goes on from what its operands so far come to. -/
theorem Links.relates (h : Hears words vocabulary vocabulary' setting other document)
    (rest : Links) (filter : NameFilter) {sofar voice : Voice}
    {operands operands' : List (Operator × QueryTree)}
    (hsofar : sofar.Relates setting other document (chainTree operands) (chainTree operands'))
    (hvoice : rest.voice words sofar = some voice) :
    voice.Relates setting other document
      (chainTree (operands ++ rest.operands vocabulary filter))
      (chainTree (operands' ++ rest.operands vocabulary' filter)) := by
  cases rest with
  | nil =>
    rw [Links.voice] at hvoice
    rw [Links.operands, Links.operands, List.append_nil, List.append_nil]
    exact Option.some.inj hvoice ▸ hsofar
  | cons relop next rest =>
    -- The next operand is joined first, so that the rest goes on from a longer chain.
    rw [Links.voice] at hvoice
    rcases Option.bind_eq_some_iff.mp hvoice with ⟨more, hnext, hvoice⟩
    rcases Option.bind_eq_some_iff.mp hvoice with ⟨joined, hjoin, hrest⟩
    have hjoined := hsofar.join (next.relates h filter hnext) hjoin
    rw [Links.operands, Links.operands, List.append_cons operands, List.append_cons operands']
    exact rest.relates h filter hjoined hrest

theorem Operand.relates (h : Hears words vocabulary vocabulary' setting other document)
    (operand : Operand) (filter : NameFilter) {voice : Voice}
    (hvoice : operand.voice words = some voice) :
    voice.Relates setting other document (operand.tree vocabulary filter)
      (operand.tree vocabulary' filter) := by
  cases operand with
  | named name primary =>
    have hfilter : vocabulary'.filterOf name = vocabulary.filterOf name := by
      rw [Vocabulary.filterOf, Vocabulary.filterOf, h.nameId]
    rw [Operand.tree, Operand.tree, hfilter]
    exact primary.relates h _ hvoice
  | plain primary => exact primary.relates h filter hvoice

theorem Primary.relates (h : Hears words vocabulary vocabulary' setting other document)
    (primary : Primary) (filter : NameFilter) {voice : Voice}
    (hvoice : primary.voice words = some voice) :
    voice.Relates setting other document (primary.tree vocabulary filter)
      (primary.tree vocabulary' filter) := by
  cases primary with
  | group query => exact query.relates h filter hvoice
  | not operand =>
    rw [Primary.voice] at hvoice
    rcases Option.map_eq_some_iff.mp hvoice with ⟨inner, hinner, rfl⟩
    exact (operand.relates h filter hinner).not h.documents
  | word text =>
    rw [Primary.voice] at hvoice
    exact h.word text filter voice hvoice
  | wildcard lead =>
    rw [Primary.voice] at hvoice
    exact Option.some.inj hvoice ▸ h.wildcard lead filter

end

/-- Between what is drowned and what is heard, `and` takes everything away in the first tree,
    and nothing in the second. -/
theorem Query.conjunction (h : Hears words vocabulary vocabulary' setting other document)
    {first next : Operand} {relop : Relop} (hrelop : relop.operator = .and)
    (hfirst : first.voice words = some .drowned) (hnext : next.voice words = some .heard)
    (filter : NameFilter) :
    let query := Query.chain first (.cons relop next .nil)
    (query.tree vocabulary filter).NearFree
      ∧ (query.tree vocabulary filter).accepts setting document = false
      ∧ (next.tree vocabulary' filter).NearFree
      ∧ query.tree vocabulary' filter = next.tree vocabulary' filter := by
  have hfirst := (first.relates h filter hfirst).single .and
  have hnext := next.relates h filter hnext
  -- Both trees are chains of the same two operands, and only the vocabulary is another one.
  have htree : ∀ vocabulary, (Query.chain first (.cons relop next .nil)).tree vocabulary filter
      = chainTree ([(.and, first.tree vocabulary filter)]
        ++ [(.and, next.tree vocabulary filter)]) := by
    intro vocabulary
    rw [Query.tree, Links.operands, Links.operands, hrelop]
    rfl
  intro query
  rw [htree, htree]
  refine ⟨nearFree_chainTree_concat hfirst.nearFree hnext.nearFree (.inl rfl), ?_, hnext.nearFree',
    chainTree_concat_first hfirst.isEmpty' hnext.isEmpty'⟩
  rw [accepts_chainTree_and hfirst.isEmpty hnext.isEmpty, (hfirst.accepts_eq_false (by decide)).1,
    Bool.false_and]

end Relates

end Grammar

end Concordance
