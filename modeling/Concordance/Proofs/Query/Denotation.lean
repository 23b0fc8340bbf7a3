import Concordance.Proofs.Query.Occurrences
import Concordance.Proofs.Query.Parsing

/-!
# What a Query Means

The documents that a tree asks for, and their scores, without a word about how they are
found.

`QueryTree.scoreIn` is about one document. It has no maps and no errors in it, and looks
at the words of an index as a list. Whether a document matches, and how well, depends on
how it does for the operands, and for a word on its postings there.

Evaluation goes through the tree once, and through whole maps of documents at each node.
That it comes to the same for every document is an induction on the tree. The tree has to
be spread, since `near` is only evaluated between words. That there is anything to compare is
another matter. For this the leaves have to lie inside the words of the index, and all words
have to decode, since all entries of a leaf are read.

## Main definitions

* `Setting.nearIn`: Are two words near in a document?
* `QueryTree.scoreIn`: The score of a document for a tree.
* `Setting.Answers`: The documents that match a tree, with their scores.

## Theorems

* `QueryTree.eval_and`, `QueryTree.eval_near` and their siblings: Evaluation node by node.
* `QueryTree.Spread.answers_of_eval`: A tree is answered where it can be evaluated.
* `QueryTree.Spread.eval_ok`: It can be evaluated where all words decode.
-/

namespace Concordance

/-- Do two words have near positions in a document? -/
def Setting.nearIn (setting : Setting) (left right : WordLeaf) (document : UInt32) : Bool :=
  decide (∃ a ∈ setting.positionsIn left document, ∃ b ∈ setting.positionsIn right document,
    Near setting.reach a b)

namespace QueryTree

mutual

/-- The score of a document for a tree, if it matches. -/
def scoreIn (setting : Setting) (document : UInt32) : QueryTree → Option Nat
  | .empty => none
  | .word w => setting.wordScore w document
  | .and children =>
    (Scores.sumOfAll (scoresIn setting document children)).map (· / children.length)
  | .or children => Scores.sumOfAny (scoresIn setting document children)
  | .not child =>
    if document.toNat < setting.documents ∧ child.scoreIn setting document = none then some 100
    else none
  | .near negated (.word left) (.word right) =>
    Evaluation.pairOf negated (setting.nearIn left right document)
      (setting.wordScore left document) (setting.wordScore right document)
  | .near _ _ _ => none

/-- The score of a document for each of several trees. -/
def scoresIn (setting : Setting) (document : UInt32) : List QueryTree → List (Option Nat)
  | [] => []
  | child :: rest => child.scoreIn setting document :: scoresIn setting document rest

end

end QueryTree

/-- The documents that match a tree, with their scores. -/
structure Setting.Answers (setting : Setting) (tree : QueryTree) (scores : Scores) : Prop where
  ascend : KeysAscend scores
  score : ∀ document, scores.lookup document = tree.scoreIn setting document

namespace Setting

variable {setting : Setting} {left right : WordLeaf} {ofLeft ofRight : ByDocument Sighting}

/-- A document that is not there has no positions. -/
theorem positionsIn_of_none {leaf : WordLeaf} {document : UInt32}
    (h : setting.wordScore leaf document = none) : setting.positionsIn leaf document = [] := by
  rw [wordScore] at h
  split at h
  · rename_i hnil
    rw [positionsIn, hnil]
    rfl
  · exact absurd h (by simp)

/-- The scan finds near positions just where there are any. -/
theorem Sights.scan_eq (hl : setting.Sights left ofLeft) (hr : setting.Sights right ofRight)
    (document : UInt32) :
    Evaluation.scan setting.reach (ofLeft.lookup document) (ofRight.lookup document)
      = setting.nearIn left right document := by
  have hleft := hl.score document
  have hright := hr.score document
  rw [nearIn]
  rcases ha : ofLeft.lookup document with _ | a
  · rw [ha] at hleft
    rw [positionsIn_of_none hleft.symm]
    exact (decide_eq_false (by simp)).symm
  · rcases hb : ofRight.lookup document with _ | b
    · rw [hb] at hright
      rw [positionsIn_of_none hright.symm]
      exact (decide_eq_false (by simp)).symm
    · -- Both words are in the document, with their positions in order.
      rcases hl.positions document a ha with ⟨hascend, hmem⟩
      rcases hr.positions document b hb with ⟨hascend', hmem'⟩
      rw [Bool.eq_iff_iff, decide_eq_true_iff, Evaluation.scan, anyWithin_iff hascend hascend']
      simp only [hmem, hmem']

/-- Two words come to what they should. -/
theorem Sights.pairScores (hl : setting.Sights left ofLeft) (hr : setting.Sights right ofRight)
    (negated : Bool) :
    setting.Answers (.near negated (.word left) (.word right))
      (Evaluation.pairScores setting.reach negated ofLeft ofRight) := by
  refine ⟨Evaluation.keysAscend_pairScores _ _ hl.ascend, fun document => ?_⟩
  rw [Evaluation.lookup_pairScores _ _ hl.ascend hr.ascend, hl.scan_eq hr, hl.score, hr.score,
    QueryTree.scoreIn]

end Setting

namespace QueryTree

section Nodes

variable (evaluation : Evaluation) (ignored : WordSet)

/-- The documents that a word is in match it. -/
theorem eval_word (leaf : WordLeaf) :
    (QueryTree.word leaf).eval evaluation ignored
      = (evaluation.occurrences leaf ignored).map fun found =>
        (found.1.map fun (document, o) => (document, o.score), found.2) := by
  rw [eval]
  cases evaluation.occurrences leaf ignored <;> rfl

/-- An operator between operands has them all evaluated, and then puts their scores together. -/
theorem eval_and (children : List QueryTree) :
    (QueryTree.and children).eval evaluation ignored
      = (evalAll evaluation ignored children).map fun found =>
        (Evaluation.meanScores found.1, found.2) := by
  rw [eval]
  cases evalAll evaluation ignored children <;> rfl

theorem eval_or (children : List QueryTree) :
    (QueryTree.or children).eval evaluation ignored
      = (evalAll evaluation ignored children).map fun found =>
        (found.1.foldl Scores.union [], found.2) := by
  rw [eval]
  cases evalAll evaluation ignored children <;> rfl

theorem eval_not (child : QueryTree) :
    (QueryTree.not child).eval evaluation ignored
      = (child.eval evaluation ignored).map fun found =>
        (Scores.complement found.1 evaluation.index.numDocuments Rank.absence, found.2) := by
  rw [eval]
  cases child.eval evaluation ignored <;> rfl

/-- Of two words the left one is looked for first. -/
theorem eval_near (negated : Bool) (left right : WordLeaf) :
    (QueryTree.near negated (.word left) (.word right)).eval evaluation ignored
      = evaluation.occurrences left ignored >>= fun found =>
        (evaluation.occurrences right found.2).map fun found' =>
          (Evaluation.pairScores evaluation.reach negated found.1 found'.1, found'.2) := by
  rw [eval]
  rcases evaluation.occurrences left ignored with e | ⟨ofLeft, passed⟩
  · rfl
  · simp only [bind, Except.bind]
    cases evaluation.occurrences right passed <;> rfl

/-- The words that one tree passes over are handed on to the next. -/
theorem evalAll_cons (child : QueryTree) (rest : List QueryTree) :
    evalAll evaluation ignored (child :: rest)
      = child.eval evaluation ignored >>= fun found =>
        (evalAll evaluation found.2 rest).map fun found' => (found.1 :: found'.1, found'.2) := by
  rw [evalAll]
  rcases child.eval evaluation ignored with e | ⟨scores, passed⟩
  · rfl
  · simp only [bind, Except.bind]
    cases evalAll evaluation passed rest <;> rfl

end Nodes

variable {evaluation : Evaluation} {words : List WordPostings}

/-- Several trees are answered one by one. -/
theorem evalAll_answers {setting : Setting} {children : List QueryTree}
    (h : ∀ child ∈ children, ∀ ignored scores ignored',
      child.eval evaluation ignored = .ok (scores, ignored') → setting.Answers child scores)
    {ignored ignored' : WordSet} {operands : List Scores}
    (hall : evalAll evaluation ignored children = .ok (operands, ignored')) :
    (∀ operand ∈ operands, KeysAscend operand)
      ∧ ∀ document, operands.map (List.lookup document) = scoresIn setting document children := by
  induction children generalizing ignored ignored' operands with
  | nil =>
    rw [evalAll] at hall
    rcases Prod.mk.inj (Except.ok.inj hall) with ⟨rfl, -⟩
    exact ⟨fun _ ho => absurd ho List.not_mem_nil, fun _ => by rw [scoresIn]; rfl⟩
  | cons child children ih =>
    rw [evalAll_cons] at hall
    rcases exists_of_bind hall with ⟨⟨scores, passed⟩, hchild, hall⟩
    rcases exists_of_map hall with ⟨⟨others, passed'⟩, hrest, heq⟩
    rcases Prod.mk.inj heq with ⟨rfl, -⟩
    -- The first child was asked with the words that were ignored so far, and its scores do not
    -- depend on them.
    have hscores := h child List.mem_cons_self _ _ _ hchild
    obtain ⟨hascend, hlookup⟩ := ih (fun c hc => h c (List.mem_cons_of_mem _ hc)) hrest
    refine ⟨List.forall_mem_cons.mpr ⟨hscores.ascend, hascend⟩, fun document => ?_⟩
    rw [List.map_cons, hscores.score, hlookup, scoresIn]

theorem length_scoresIn (setting : Setting) (document : UInt32) (children : List QueryTree) :
    (scoresIn setting document children).length = children.length := by
  induction children with
  | nil => rw [scoresIn]; rfl
  | cons child children ih => rw [scoresIn, List.length_cons, ih, List.length_cons]

/-- A tree is answered where it can be evaluated. -/
theorem Spread.answers_of_eval {P : WordLeaf → Prop} (h : evaluation.index.Reads words)
    (hcount : evaluation.index.numDocuments ≤ UInt32.size) {tree : QueryTree}
    (htree : tree.Spread P) {ignored ignored' : WordSet} {scores : Scores}
    (heval : tree.eval evaluation ignored = .ok (scores, ignored')) :
    (evaluation.setting words).Answers tree scores := by
  induction htree generalizing ignored ignored' scores with
  | empty =>
    rw [eval] at heval
    rcases Prod.mk.inj (Except.ok.inj heval) with ⟨rfl, -⟩
    exact ⟨List.Pairwise.nil, fun document => by rw [scoreIn]; rfl⟩
  | @word leaf _ =>
    rw [eval_word] at heval
    rcases exists_of_map heval with ⟨⟨found, passed⟩, hfound, heq⟩
    rcases Prod.mk.inj heq with ⟨rfl, -⟩
    have hsights := Evaluation.sights_of_occurrences h hfound
    refine ⟨hsights.ascend.map (fun _ _ => rfl), fun document => ?_⟩
    rw [scoreIn, ← hsights.score]
    exact KeysAscend.lookup_map (fun _ _ => rfl) _ document
  | @and children hne _ ih =>
    rw [eval_and] at heval
    rcases exists_of_map heval with ⟨⟨operands, passed⟩, hall, heq⟩
    rcases Prod.mk.inj heq with ⟨rfl, -⟩
    obtain ⟨hascend, hlookup⟩ :=
      evalAll_answers (fun c hc ignored scores ignored' => ih c hc) hall
    refine ⟨Evaluation.keysAscend_meanScores hascend, fun document => ?_⟩
    have hlength := congrArg List.length (hlookup document)
    rw [List.length_map, length_scoresIn] at hlength
    -- A tree that was read has no empty conjunction.
    have hsome : operands ≠ [] := by
      rintro rfl
      exact hne (List.eq_nil_of_length_eq_zero hlength.symm)
    rw [Evaluation.lookup_meanScores hascend hsome, hlookup, hlength, scoreIn]
  | @or children _ ih =>
    rw [eval_or] at heval
    rcases exists_of_map heval with ⟨⟨operands, passed⟩, hall, heq⟩
    rcases Prod.mk.inj heq with ⟨rfl, -⟩
    obtain ⟨hascend, hlookup⟩ :=
      evalAll_answers (fun c hc ignored scores ignored' => ih c hc) hall
    refine ⟨Scores.keysAscend_unionAll List.Pairwise.nil, fun document => ?_⟩
    rw [Scores.lookup_unionAll List.Pairwise.nil hascend, hlookup, scoreIn, List.lookup_nil,
      Option.merge_none_left]
  | @not child _ ih =>
    rw [eval_not] at heval
    rcases exists_of_map heval with ⟨⟨scores', passed⟩, hchild, heq⟩
    rcases Prod.mk.inj heq with ⟨rfl, -⟩
    refine ⟨Scores.keysAscend_complement _ hcount _, fun document => ?_⟩
    -- The complement is taken of exactly the documents that match.
    rw [Scores.lookup_complement _ hcount, (ih hchild).score, scoreIn]
    rfl
  | @near negated left right _ _ =>
    rw [eval_near] at heval
    rcases exists_of_bind heval with ⟨⟨ofLeft, passed⟩, hleft, heval⟩
    rcases exists_of_map heval with ⟨⟨ofRight, passed'⟩, hright, heq⟩
    rcases Prod.mk.inj heq with ⟨rfl, -⟩
    exact (Evaluation.sights_of_occurrences h hleft).pairScores
      (Evaluation.sights_of_occurrences h hright) negated

theorem evalAll_ok {children : List QueryTree}
    (h : ∀ child ∈ children, ∀ ignored, ∃ scores ignored',
      child.eval evaluation ignored = .ok (scores, ignored')) (ignored : WordSet) :
    ∃ operands ignored', evalAll evaluation ignored children = .ok (operands, ignored') := by
  induction children generalizing ignored with
  | nil => exact ⟨[], ignored, by rw [evalAll]⟩
  | cons child children ih =>
    rcases h child List.mem_cons_self ignored with ⟨scores, passed, hchild⟩
    rcases ih (fun c hc => h c (List.mem_cons_of_mem _ hc)) passed with ⟨others, passed', hrest⟩
    refine ⟨scores :: others, passed', ?_⟩
    rw [evalAll, hchild]
    simp only [hrest]

/-- A tree can be evaluated where all words decode. -/
theorem Spread.eval_ok (h : evaluation.index.decodeWords = .ok words) {tree : QueryTree}
    (htree : tree.Spread (Parser.Inside evaluation.index)) (ignored : WordSet) :
    ∃ scores ignored', tree.eval evaluation ignored = .ok (scores, ignored') := by
  have hinside : ∀ leaf, Parser.Inside evaluation.index leaf → leaf.stop ≤ words.length :=
    fun leaf hleaf => by rw [Index.length_of_decodeWords h]; exact hleaf
  induction htree generalizing ignored with
  | empty => exact ⟨[], ignored, by rw [eval]⟩
  | word hleaf =>
    rcases Evaluation.occurrences_ok h (hinside _ hleaf) ignored with ⟨found, passed, hfound⟩
    exact ⟨_, passed, by rw [eval, hfound]⟩
  | and _ _ ih =>
    rcases evalAll_ok ih ignored with ⟨operands, passed, hall⟩
    exact ⟨_, passed, by rw [eval, hall]⟩
  | or _ ih =>
    rcases evalAll_ok ih ignored with ⟨operands, passed, hall⟩
    exact ⟨_, passed, by rw [eval, hall]⟩
  | not _ ih =>
    rcases ih ignored with ⟨scores, passed, hchild⟩
    exact ⟨_, passed, by rw [eval, hchild]⟩
  -- The words of the right leaf are looked up behind those of the left, whatever was ignored there.
  | near hleft hright =>
    rcases Evaluation.occurrences_ok h (hinside _ hleft) ignored with ⟨ofLeft, passed, hofLeft⟩
    rcases Evaluation.occurrences_ok h (hinside _ hright) passed with ⟨ofRight, passed', hofRight⟩
    rw [eval, hofLeft]
    simp only [hofRight]
    exact ⟨_, _, rfl⟩

/-- Evaluating a tree succeeds and answers it, where all words decode. -/
theorem eval_answers (h : evaluation.index.decodeWords = .ok words)
    (htidy : ∀ entry ∈ words, TidyPostings entry.postings)
    (hcount : evaluation.index.numDocuments ≤ UInt32.size) {tree : QueryTree}
    (htree : tree.Spread (Parser.Inside evaluation.index)) (ignored : WordSet) :
    ∃ scores ignored', tree.eval evaluation ignored = .ok (scores, ignored')
      ∧ (evaluation.setting words).Answers tree scores := by
  rcases htree.eval_ok h ignored with ⟨scores, ignored', heval⟩
  exact ⟨scores, ignored', heval,
    htree.answers_of_eval (Index.reads_of_decodeWords h htidy) hcount heval⟩

end QueryTree

end Concordance
