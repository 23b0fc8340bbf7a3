import Concordance.Proofs.Query.Alternatives
import Concordance.Proofs.Query.Leaves

/-!
# Words That Are Passed Over

What evaluation reports, whatever a tree makes of the documents that it finds.

A query is told twice which of its words took no part. Some are left out while it is read,
because they are stop words or could not be words of an index. Others are passed over when
the tree is evaluated, because they are in too many documents. The second kind only comes
from entries that a leaf goes through, and these are entries of the index.

Evaluation stops at no operand. A conjunction of which one part finds nothing looks at the
other parts as well, and so does nearness. So what is passed over can be told of the leaves
of a tree one by one, and the nodes above them do not matter.

## Main definitions

* `Setting.passedOver`: The words of a leaf that are in too many documents.

## Theorems

* `QueryTree.eval_ignored`: Evaluation passes over the words of all leaves that are in too many
  documents.
* `Searcher.ignored_of_ranked`: What is reported is what was left out in reading, and this.
* `Searcher.ranked_of_rare`: Only the former, where no word is in too many documents.
-/

namespace Concordance

/-- The words of a leaf that are in too many documents. -/
def Setting.passedOver (setting : Setting) (leaf : WordLeaf) : List String :=
  (((setting.words.drop leaf.start).take (leaf.stop - leaf.start)).filter fun entry =>
    setting.limit.exceededBy entry.postings.length setting.documents).map WordPostings.word

/-- They are words of the index. -/
theorem Setting.passedOver_eq_nil {setting : Setting}
    (h : ∀ entry ∈ setting.words,
      setting.limit.exceededBy entry.postings.length setting.documents = false)
    (leaf : WordLeaf) : setting.passedOver leaf = [] := by
  rw [passedOver, List.map_eq_nil_iff, List.filter_eq_nil_iff]
  intro entry hentry
  rw [h entry (List.mem_of_mem_drop (List.mem_of_mem_take hentry))]
  exact Bool.false_ne_true

/-- The words of a leaf are told by the test that its entries pass. -/
theorem Setting.Covers.mem_passedOver {setting : Setting} {leaf : WordLeaf}
    {test : WordPostings → Bool} (h : setting.Covers leaf test) {word : String} :
    word ∈ setting.passedOver leaf
      ↔ ∃ entry ∈ setting.words, entry.word = word
        ∧ setting.limit.exceededBy entry.postings.length setting.documents = true
        ∧ test entry = true := by
  rw [Covers] at h
  rw [passedOver, h, List.mem_map]
  simp only [List.mem_filter]
  exact exists_congr fun entry => by tauto

namespace Evaluation

variable {evaluation : Evaluation} {words : List WordPostings} {ignored ignored' : WordSet}

theorem collectFrom_ignored (h : evaluation.index.decodeWords = .ok words) {metaId : Option UInt32}
    {count i : Nat} {found found' : ByDocument Sighting}
    (hcollect : evaluation.collectFrom metaId count i found ignored = .ok (found', ignored')) :
    ignored' = ignored.union ((((words.drop i).take count).filter fun entry =>
      evaluation.limit.exceededBy entry.postings.length evaluation.index.numDocuments).map
        WordPostings.word) := by
  induction count generalizing i found ignored with
  | zero =>
    rw [List.take_zero]
    exact (Prod.mk.inj (Except.ok.inj hcollect)).2.symm
  | succ count ih =>
    rw [collectFrom_succ] at hcollect
    rcases exists_of_bind hcollect with ⟨stored, hstored, hcollect⟩
    rcases exists_of_bind hcollect with ⟨postings, hpostings, hcollect⟩
    -- An entry that could be read is one of the words.
    rcases exists_of_bind hstored with ⟨bytes, hbytes, -⟩
    have hlt : i < words.length := by
      rw [Index.length_of_decodeWords h]
      exact Segment.lt_of_get hbytes
    rcases Index.storedWord_of_decodeWords h hlt with ⟨stored', hstored', hword, hpostings'⟩
    rcases Except.ok.inj (hstored.symm.trans hstored') with rfl
    rcases Except.ok.inj (hpostings.symm.trans hpostings') with rfl
    rw [List.drop_eq_getElem_cons hlt, List.take_succ_cons]
    rw [hword] at hcollect
    rcases hcommon : evaluation.limit.exceededBy words[i].postings.length
      evaluation.index.numDocuments with _ | _
    · rw [hcommon, if_neg Bool.false_ne_true] at hcollect
      rw [List.filter_cons_of_neg (by simp [hcommon])]
      exact ih hcollect
    · rw [hcommon, if_pos rfl] at hcollect
      rw [List.filter_cons_of_pos (by exact hcommon), List.map_cons]
      exact ih hcollect

theorem occurrences_ignored (h : evaluation.index.decodeWords = .ok words) {leaf : WordLeaf}
    {found : ByDocument Sighting}
    (hfound : evaluation.occurrences leaf ignored = .ok (found, ignored')) :
    ignored' = ignored.union ((evaluation.setting words).passedOver leaf) := by
  rw [occurrences_eq_map] at hfound
  rcases exists_of_map hfound with ⟨⟨sightings, passed⟩, hcollect, heq⟩
  rcases collectFrom_ignored h hcollect with rfl
  exact (Prod.mk.inj heq).2.symm

end Evaluation

namespace QueryTree

variable {evaluation : Evaluation} {words : List WordPostings}

mutual

/-- Evaluation passes over the words of all leaves that are in too many documents. -/
theorem eval_ignored (h : evaluation.index.decodeWords = .ok words) : (tree : QueryTree) →
    {ignored ignored' : WordSet} → {scores : Scores} →
    tree.eval evaluation ignored = .ok (scores, ignored') →
    ignored' = ignored.union (tree.leaves.flatMap (evaluation.setting words).passedOver)
  | .empty, _, _, _, heval => by
    rw [eval] at heval
    exact (Prod.mk.inj (Except.ok.inj heval)).2.symm
  | .word leaf, ignored, _, _, heval => by
    rw [eval_word] at heval
    rcases exists_of_map heval with ⟨⟨found, passed⟩, hfound, heq⟩
    rw [leaves, List.flatMap_singleton, ← (Prod.mk.inj heq).2]
    exact Evaluation.occurrences_ignored h hfound
  | .and children, ignored, _, _, heval => by
    rw [eval_and] at heval
    rcases exists_of_map heval with ⟨⟨operands, passed⟩, hall, heq⟩
    rw [leaves, ← (Prod.mk.inj heq).2]
    exact evalAll_ignored h children hall
  | .or children, ignored, _, _, heval => by
    rw [eval_or] at heval
    rcases exists_of_map heval with ⟨⟨operands, passed⟩, hall, heq⟩
    rw [leaves, ← (Prod.mk.inj heq).2]
    exact evalAll_ignored h children hall
  | .not child, ignored, _, _, heval => by
    rw [eval_not] at heval
    rcases exists_of_map heval with ⟨⟨scores, passed⟩, hchild, heq⟩
    rw [leaves, ← (Prod.mk.inj heq).2]
    exact eval_ignored h child hchild
  | .near negated left right, ignored, _, _, heval => by
    cases left with
    | word first =>
      cases right with
      | word last =>
        rw [eval_near] at heval
        rcases exists_of_bind heval with ⟨⟨ofLeft, passed⟩, hfirst, heval⟩
        rcases exists_of_map heval with ⟨⟨ofRight, passed'⟩, hlast, heq⟩
        rw [leaves, leaves, leaves, List.flatMap_append, WordSet.union_append,
          List.flatMap_singleton, List.flatMap_singleton, ← (Prod.mk.inj heq).2,
          Evaluation.occurrences_ignored h hlast, Evaluation.occurrences_ignored h hfirst]
      -- Nearness of anything but words is not evaluated.
      | _ => exact absurd heval (by simp [eval])
    | _ => exact absurd heval (by simp [eval])

theorem evalAll_ignored (h : evaluation.index.decodeWords = .ok words) :
    (children : List QueryTree) → {ignored ignored' : WordSet} → {operands : List Scores} →
    evalAll evaluation ignored children = .ok (operands, ignored') →
    ignored' = ignored.union ((leavesOfAll children).flatMap (evaluation.setting words).passedOver)
  | [], _, _, _, hall => by
    rw [evalAll] at hall
    exact (Prod.mk.inj (Except.ok.inj hall)).2.symm
  | child :: rest, ignored, _, _, hall => by
    rw [evalAll_cons] at hall
    rcases exists_of_bind hall with ⟨⟨scores, passed⟩, hchild, hall⟩
    rcases exists_of_map hall with ⟨⟨others, passed'⟩, hrest, heq⟩
    rw [leavesOfAll, List.flatMap_append, WordSet.union_append, ← (Prod.mk.inj heq).2,
      evalAll_ignored h rest hrest, eval_ignored h child hchild]

end

end QueryTree

namespace Searcher

/-- If no word of the index is in too many documents, then nothing is reported but what was
    left out in reading. -/
theorem ranked_of_rare {searcher : Searcher} {words : List WordPostings}
    (h : searcher.index.Sound words)
    (hrare : ∀ entry ∈ words, searcher.options.spread.exceededBy entry.postings.length
      searcher.index.numDocuments = false)
    (hvalid : searcher.options.validate = .ok ()) {query : String} {tree : QueryTree}
    {left : WordSet} (hparse : searcher.parse query = .ok (tree, left)) :
    ∃ ranked, searcher.ranked query = .ok (ranked, WordSet.union [] left) := by
  have hdecode : searcher.evaluation.index.decodeWords = .ok words := h.decode
  obtain ⟨scores, passed, heval, -⟩ :=
    QueryTree.eval_answers hdecode h.tidy (Nat.le_of_lt h.count) (parse_spread hparse) []
  have hnone : tree.leaves.flatMap (searcher.evaluation.setting words).passedOver = [] :=
    List.flatMap_eq_nil_iff.mpr fun leaf _ => Setting.passedOver_eq_nil hrare leaf
  have hpassed := QueryTree.eval_ignored hdecode tree heval
  rw [hnone] at hpassed
  rcases hpassed with rfl
  exact ⟨_, ranked_of_eval hvalid hparse heval⟩

end Searcher

end Concordance
