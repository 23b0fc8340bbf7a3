import Concordance.Proofs.Indexing.Published
import Concordance.Proofs.Indexing.Reference
import Concordance.Proofs.Query.Acceptance

/-!
# Nearness over Alternatives

Which documents nearness finds, where each operand is a choice of words.

Nearness to alternatives is spread until it is between two words, and what comes of it is one
tree: the left operand, with the right one in place of each of its words, and a pair of words
in place of each of those. A group of groups stays one. So a document matches if it matches
one of the pairs, and this is an induction over one operand inside of one over the other.

For `near` that is as it should be. Two words are near in a document if a position of the one
is near a position of the other, and so an operand might as well have all positions of its
words. For `not near` it is not. That no position of one operand is near the other is said of
all pairs, but one pair of which it is true will do for a document to match. What a group of
alternatives has in common with a wildcard is therefore only that whatever the wildcard finds,
the group finds as well. A wildcard is one word, and has the positions of all its entries.

## Main definitions

* `QueryTree.Alternatives`: Words, and groups of alternatives.
* `QueryTree.leaves`, `QueryTree.graft`: The words of a tree, and a tree with trees for words.
* `Setting.Apart`: The meaning of `not near`, told of two choices of words.
* `WordLeaf.SplitInto`: A word, and words for each of its entries.
* `Evaluation.Finds`: The documents that an evaluation finds for a tree.

## Theorems

* `QueryTree.Alternatives.distribute_near`: How nearness is spread over alternatives.
* `Published.near_alternatives`: `near` finds what has near positions of both operands.
* `Published.notNear_alternatives`: What `not near` finds, and where this is what it means.
-/

namespace Concordance

namespace QueryTree

variable (P : WordLeaf → Prop) in
/-- Words, and groups of alternatives. -/
inductive Alternatives : QueryTree → Prop
  | word {w : WordLeaf} (h : P w) : Alternatives (.word w)
  | or {children : List QueryTree} (h : ∀ c ∈ children, Alternatives c) :
    Alternatives (.or children)

mutual

/-- The words of a tree. -/
def leaves : QueryTree → List WordLeaf
  | .empty => []
  | .word w => [w]
  | .and children => leavesOfAll children
  | .or children => leavesOfAll children
  | .not child => child.leaves
  | .near _ left right => left.leaves ++ right.leaves

/-- The words of several trees. -/
def leavesOfAll : List QueryTree → List WordLeaf
  | [] => []
  | child :: rest => child.leaves ++ leavesOfAll rest

end

mutual

/-- The tree with another tree for each of its words. -/
def graft (f : WordLeaf → QueryTree) : QueryTree → QueryTree
  | .empty => .empty
  | .word w => f w
  | .and children => .and (graftAll f children)
  | .or children => .or (graftAll f children)
  | .not child => .not (child.graft f)
  | .near negated left right => .near negated (left.graft f) (right.graft f)

/-- Several trees, each with other trees for its words. -/
def graftAll (f : WordLeaf → QueryTree) : List QueryTree → List QueryTree
  | [] => []
  | child :: rest => child.graft f :: graftAll f rest

end

theorem graftAll_eq_map (f : WordLeaf → QueryTree) (children : List QueryTree) :
    graftAll f children = children.map (graft f) := by
  induction children with
  | nil => rw [graftAll, List.map_nil]
  | cons child children ih => rw [graftAll, List.map_cons, ih]

theorem leavesOfAll_eq_flatMap (children : List QueryTree) :
    leavesOfAll children = children.flatMap leaves := by
  induction children with
  | nil => rw [leavesOfAll, List.flatMap_nil]
  | cons child children ih => rw [leavesOfAll, List.flatMap_cons, ih]

variable {P : WordLeaf → Prop} {negated : Bool} {left right tree : QueryTree}

namespace Alternatives

theorem parsed (h : tree.Alternatives P) : tree.Parsed P := by
  induction h with
  | word hw => exact .word hw
  | or _ ih => exact .or ih

theorem nearFree (h : tree.Alternatives P) : tree.NearFree := by
  induction h with
  | word => exact .word _
  | or _ ih => exact .or ih

/-- Nearness of one word goes to each of the alternatives. -/
theorem beside_eq (h : right.Alternatives P) (w : WordLeaf) :
    beside negated (.word w) right
      = .ok (right.graft fun v => .near negated (.word w) (.word v)) := by
  induction h with
  -- A word is on the right already.
  | word => rfl
  | or _ ih =>
    rw [QueryTree.beside, besideAll_eq, collect_map_eq ih, graft, graftAll_eq_map]
    rfl

/-- And from each of the alternatives on the left. -/
theorem spreadOver_eq (hl : left.Alternatives P) (hr : right.Alternatives P) :
    spreadOver negated right left
      = .ok (left.graft fun w => right.graft fun v => .near negated (.word w) (.word v)) := by
  induction hl with
  | word => exact hr.beside_eq _
  | or _ ih =>
    -- The right tree is neither negated nor empty, so that every operand is spread over it.
    have hnot : right.isNot = false := by cases hr <;> rfl
    have hempty : right.isEmpty = false := by cases hr <;> rfl
    rw [spreadOver, hnot, hempty, if_neg Bool.false_ne_true, if_neg Bool.false_ne_true,
      spreadOverAll_eq, collect_map_eq ih, graft, graftAll_eq_map]
    rfl

/-- Nearness of alternatives is spread to one tree, with a pair for each choice of words. -/
theorem distribute_near (hl : left.Alternatives P) (hr : right.Alternatives P) (negated : Bool) :
    (near negated left right).distribute
      = .ok (left.graft fun w => right.graft fun v => .near negated (.word w) (.word v)) := by
  have hchain : ∀ n first last, left ≠ .near n first last := by
    intro n first last heq
    rw [heq] at hl
    cases hl
  rw [distribute, connect_eq hchain, hl.nearFree.distribute_eq, hr.nearFree.distribute_eq]
  exact hl.spreadOver_eq hr

/-- A document matches if it matches what there is for one of the words. -/
theorem accepts_graft (h : tree.Alternatives P) (f : WordLeaf → QueryTree) {setting : Setting}
    {document : UInt32} :
    (tree.graft f).accepts setting document
      ↔ ∃ w ∈ tree.leaves, (f w).accepts setting document := by
  induction h with
  | word => simp [graft, leaves]
  | @or children _ ih =>
    rw [graft, graftAll_eq_map, accepts_or, List.any_map, List.any_eq_true, leaves,
      leavesOfAll_eq_flatMap]
    constructor
    · rintro ⟨c, hc, haccepts⟩
      rcases (ih c hc).mp haccepts with ⟨w, hw, haccepts⟩
      exact ⟨w, List.mem_flatMap.mpr ⟨c, hc, hw⟩, haccepts⟩
    · rintro ⟨w, hw, haccepts⟩
      rcases List.mem_flatMap.mp hw with ⟨c, hc, hw⟩
      exact ⟨c, hc, (ih c hc).mpr ⟨w, hw, haccepts⟩⟩

end Alternatives

end QueryTree

namespace Setting

variable (setting : Setting)

/-- The meaning of `not near`, told of two choices of words: one of the words is in the
    document, and no word of the one choice is near a word of the other. -/
structure Apart (left right : List WordLeaf) (document : UInt32) : Prop where
  present : ∃ w ∈ left ++ right, ∃ posting, posting ∈ setting.postingsIn w document
  apart : ∀ w ∈ left, ∀ v ∈ right, ∀ a ∈ setting.positionsIn w document,
    ∀ b ∈ setting.positionsIn v document, ¬ Near setting.reach a b

variable {setting} {w v : WordLeaf} {document : UInt32}

theorem nearIn_iff : setting.nearIn w v document = true
    ↔ ∃ a ∈ setting.positionsIn w document, ∃ b ∈ setting.positionsIn v document,
      Near setting.reach a b :=
  decide_eq_true_iff

theorem isSome_wordScore : (setting.wordScore w document).isSome
    ↔ ∃ posting, posting ∈ setting.postingsIn w document := by
  rw [wordScore]
  split
  · rename_i hnil
    simp [hnil]
  · rename_i hne
    exact iff_of_true rfl (List.exists_mem_of_ne_nil _ hne)

/-- Words that are near are both there. -/
theorem isSome_of_nearIn (h : setting.nearIn w v document = true) :
    (setting.wordScore w document).isSome ∧ (setting.wordScore v document).isSome := by
  rcases nearIn_iff.mp h with ⟨a, ha, b, hb, -⟩
  refine ⟨Option.isSome_iff_ne_none.mpr fun hnone => ?_,
    Option.isSome_iff_ne_none.mpr fun hnone => ?_⟩
  · -- A word without a score has no positions.
    rw [positionsIn_of_none hnone] at ha
    exact absurd ha List.not_mem_nil
  · rw [positionsIn_of_none hnone] at hb
    exact absurd hb List.not_mem_nil

/-- A document has a score for two words that are near. -/
theorem accepts_near : (QueryTree.near false (.word w) (.word v)).accepts setting document
    ↔ setting.nearIn w v document := by
  rw [QueryTree.accepts, QueryTree.scoreIn]
  rcases hnear : setting.nearIn w v document with _ | _
  · -- Words that are not near have no score, whatever their own ones are.
    rcases setting.wordScore w document with _ | a <;>
      rcases setting.wordScore v document with _ | b <;> simp [Evaluation.pairOf]
  · obtain ⟨hw, hv⟩ := isSome_of_nearIn hnear
    rcases Option.isSome_iff_exists.mp hw with ⟨a, ha⟩
    rcases Option.isSome_iff_exists.mp hv with ⟨b, hb⟩
    rw [ha, hb]
    rfl

/-- And, negated, for two words one of which is there and which are not near. -/
theorem accepts_notNear : (QueryTree.near true (.word w) (.word v)).accepts setting document
    ↔ ((setting.wordScore w document).isSome ∨ (setting.wordScore v document).isSome)
      ∧ ¬ setting.nearIn w v document := by
  rw [QueryTree.accepts, QueryTree.scoreIn]
  rcases hnear : setting.nearIn w v document with _ | _
  · -- Otherwise either of the words will do.
    rcases setting.wordScore w document with _ | a <;>
      rcases setting.wordScore v document with _ | b <;> simp [Evaluation.pairOf]
  · obtain ⟨hw, hv⟩ := isSome_of_nearIn hnear
    rcases Option.isSome_iff_exists.mp hw with ⟨a, ha⟩
    rcases Option.isSome_iff_exists.mp hv with ⟨b, hb⟩
    rw [ha, hb]
    simp [Evaluation.pairOf]

/-- What is found for two words is what is meant by them. -/
theorem apart_singletons : setting.Apart [w] [v] document
    ↔ ((setting.wordScore w document).isSome ∨ (setting.wordScore v document).isSome)
      ∧ ¬ setting.nearIn w v document := by
  rw [isSome_wordScore, isSome_wordScore, nearIn_iff]
  constructor
  · rintro ⟨⟨u, hu, hposting⟩, hapart⟩
    refine ⟨?_, fun ⟨a, ha, b, hb, hnear⟩ => hapart w (by simp) v (by simp) a ha b hb hnear⟩
    rcases List.mem_pair.mp hu with rfl | rfl
    · exact .inl hposting
    · exact .inr hposting
  · -- With one word on each side there is one pair of words to be apart.
    rintro ⟨hpresent, hapart⟩
    refine ⟨?_, fun w' hw v' hv a ha b hb hnear => hapart ?_⟩
    · rcases hpresent with hposting | hposting
      · exact ⟨w, by simp, hposting⟩
      · exact ⟨v, by simp, hposting⟩
    · rw [List.mem_singleton.mp hw] at ha
      rw [List.mem_singleton.mp hv] at hb
      exact ⟨a, ha, b, hb, hnear⟩

/-- If no word of one choice is near a word of the other, this is so for a pair of them. -/
theorem Apart.exists_pair {left right : List WordLeaf} (h : setting.Apart left right document)
    (hleft : left ≠ []) (hright : right ≠ []) :
    ∃ w ∈ left, ∃ v ∈ right, setting.Apart [w] [v] document := by
  -- The word that is there makes up a pair with any word of the other choice.
  have hpair : ∀ w ∈ left, ∀ v ∈ right, (∃ u ∈ [w] ++ [v], ∃ posting,
      posting ∈ setting.postingsIn u document) → setting.Apart [w] [v] document := by
    intro w hw v hv hpresent
    refine ⟨hpresent, fun w' hw' v' hv' => ?_⟩
    rw [List.mem_singleton.mp hw', List.mem_singleton.mp hv']
    exact h.apart w hw v hv
  rcases h.present with ⟨u, hu, hposting⟩
  rcases List.mem_append.mp hu with hu | hu
  · rcases List.exists_mem_of_ne_nil right hright with ⟨v, hv⟩
    exact ⟨u, hu, v, hv, hpair u hu v hv ⟨u, by simp, hposting⟩⟩
  · rcases List.exists_mem_of_ne_nil left hleft with ⟨w, hw⟩
    exact ⟨w, hw, u, hu, hpair w hw u hu ⟨u, by simp, hposting⟩⟩

end Setting

/-- A word that stands for several entries, and words for each of these alone. -/
structure WordLeaf.SplitInto (leaf : WordLeaf) (parts : List WordLeaf) : Prop where
  part : ∀ v ∈ parts, leaf.start ≤ v.start ∧ v.start < leaf.stop ∧ v.stop = v.start + 1
    ∧ v.metaId = leaf.metaId
  all : ∀ i, leaf.start ≤ i → i < leaf.stop → ∃ v ∈ parts, v.start = i

namespace Setting

variable {setting : Setting} {leaf : WordLeaf} {parts : List WordLeaf} {document : UInt32}

/-- The postings of a leaf are those of its entries. -/
theorem mem_postingsIn {posting : Posting} : posting ∈ setting.postingsIn leaf document
    ↔ ∃ i entry, leaf.start ≤ i ∧ i < leaf.stop ∧ setting.words[i]? = some entry
      ∧ setting.limit.exceededBy entry.postings.length setting.documents = false
      ∧ posting ∈ entry.postings ∧ posting.passes leaf.metaId = true
      ∧ posting.document = document := by
  -- The entries of a leaf are a slice of the words, and this is told by their places.
  have hslice : ∀ entry, entry ∈ (setting.words.drop leaf.start).take (leaf.stop - leaf.start)
      ↔ ∃ i, leaf.start ≤ i ∧ i < leaf.stop ∧ setting.words[i]? = some entry := by
    intro entry
    rw [List.mem_iff_getElem?]
    constructor
    · rintro ⟨i, hi⟩
      rw [List.getElem?_take] at hi
      split at hi
      · rw [List.getElem?_drop] at hi
        exact ⟨leaf.start + i, by omega, by omega, hi⟩
      · exact absurd hi (by simp)
    · rintro ⟨i, hstart, hstop, hi⟩
      refine ⟨i - leaf.start, ?_⟩
      rw [List.getElem?_take, if_pos (by omega), List.getElem?_drop, Nat.add_sub_cancel' hstart]
      exact hi
  simp only [postingsIn, postings, entries, List.mem_filter, List.mem_flatMap, hslice,
    Bool.not_eq_true', decide_eq_true_eq]
  constructor
  · rintro ⟨⟨⟨entry, ⟨⟨i, hstart, hstop, hi⟩, hkept⟩, hposting⟩, hpasses⟩, hdocument⟩
    exact ⟨i, entry, hstart, hstop, hi, hkept, hposting, hpasses, hdocument⟩
  · rintro ⟨i, entry, hstart, hstop, hi, hkept, hposting, hpasses, hdocument⟩
    exact ⟨⟨⟨entry, ⟨⟨i, hstart, hstop, hi⟩, hkept⟩, hposting⟩, hpasses⟩, hdocument⟩

/-- So they are those of the words that it is split into. -/
theorem mem_postingsIn_split (h : leaf.SplitInto parts) {posting : Posting} :
    posting ∈ setting.postingsIn leaf document
      ↔ ∃ v ∈ parts, posting ∈ setting.postingsIn v document := by
  simp only [mem_postingsIn]
  constructor
  · rintro ⟨i, entry, hstart, hstop, hrest⟩
    rcases h.all i hstart hstop with ⟨v, hv, rfl⟩
    rcases h.part v hv with ⟨-, -, hone, hmeta⟩
    exact ⟨v, hv, v.start, entry, Nat.le_refl _, by omega, by rw [hmeta]; exact hrest⟩
  · -- A part has one entry, which is one of the leaf.
    rintro ⟨v, hv, i, entry, hstart, hstop, hrest⟩
    rcases h.part v hv with ⟨hlow, hhigh, hone, hmeta⟩
    rw [hmeta] at hrest
    exact ⟨i, entry, by omega, by omega, hrest⟩

theorem mem_positionsIn_split (h : leaf.SplitInto parts) {a : UInt32} :
    a ∈ setting.positionsIn leaf document ↔ ∃ v ∈ parts, a ∈ setting.positionsIn v document := by
  simp only [positionsIn, List.mem_flatMap, mem_postingsIn_split h]
  constructor
  · rintro ⟨posting, ⟨v, hv, hposting⟩, ha⟩
    exact ⟨v, hv, posting, hposting, ha⟩
  · rintro ⟨v, hv, posting, hposting, ha⟩
    exact ⟨posting, ⟨v, hv, hposting⟩, ha⟩

/-- A wildcard has the meaning of the words that it stands for. -/
theorem apart_split (h : leaf.SplitInto parts) (left : List WordLeaf) :
    setting.Apart left [leaf] document ↔ setting.Apart left parts document := by
  constructor
  · -- A posting of the wildcard is one of a part, and a position of a part is one of the wildcard.
    rintro ⟨⟨u, hu, posting, hposting⟩, hapart⟩
    constructor
    · rcases List.mem_append.mp hu with hu | hu
      · exact ⟨u, List.mem_append_left _ hu, posting, hposting⟩
      · rw [List.mem_singleton.mp hu] at hposting
        rcases (mem_postingsIn_split h).mp hposting with ⟨v, hv, hposting⟩
        exact ⟨v, List.mem_append_right _ hv, posting, hposting⟩
    · intro w hw v hv a ha b hb
      exact hapart w hw leaf List.mem_cons_self a ha b ((mem_positionsIn_split h).mpr ⟨v, hv, hb⟩)
  · -- And the other way round.
    rintro ⟨⟨u, hu, posting, hposting⟩, hapart⟩
    constructor
    · rcases List.mem_append.mp hu with hu | hu
      · exact ⟨u, List.mem_append_left _ hu, posting, hposting⟩
      · exact ⟨leaf, by simp, posting, (mem_postingsIn_split h).mpr ⟨u, hu, hposting⟩⟩
    · intro w hw v hv a ha b hb
      rw [List.mem_singleton.mp hv] at hb
      rcases (mem_positionsIn_split h).mp hb with ⟨u, hu, hb⟩
      exact hapart w hw u hu a ha b hb

end Setting

/-- Spreading a tree and evaluating it succeeds, and finds the documents with a property. -/
def Evaluation.Finds (evaluation : Evaluation) (tree : QueryTree) (found : UInt32 → Prop) : Prop :=
  ∃ node, tree.distribute = .ok node ∧ ∀ ignored, ∃ scores ignored',
    node.eval evaluation ignored = .ok (scores, ignored')
      ∧ ∀ document, (scores.lookup document).isSome ↔ found document

theorem Evaluation.Finds.congr {evaluation : Evaluation} {tree : QueryTree}
    {found found' : UInt32 → Prop} (h : evaluation.Finds tree found)
    (hiff : ∀ document, found document ↔ found' document) : evaluation.Finds tree found' := by
  rw [← funext fun document => propext (hiff document)]
  exact h

/-- In a sound index a tree that was read is evaluated, if it can be spread. -/
theorem Index.Sound.finds_spread {index : Index} {words : List WordPostings}
    (h : index.Sound words) {tree node : QueryTree} (htree : tree.Parsed (Parser.Inside index))
    (hnode : tree.distribute = .ok node) (limit : SpreadLimit) (reach : Nat) :
    Evaluation.Finds ⟨index, limit, reach⟩ tree fun document =>
      node.accepts ⟨words, index.numDocuments, limit, reach⟩ document := by
  refine ⟨node, hnode, fun ignored => ?_⟩
  let evaluation : Evaluation := ⟨index, limit, reach⟩
  have hdecode : evaluation.index.decodeWords = .ok words := h.decode
  obtain ⟨scores, ignored', heval, hanswers⟩ := QueryTree.eval_answers hdecode h.tidy
    (Nat.le_of_lt h.count) (htree.distribute hnode) ignored
  refine ⟨scores, ignored', heval, fun document => ?_⟩
  rw [hanswers.score]
  rfl

/-- Nearness over alternatives finds what it finds for a pair of their words. -/
theorem Index.Sound.finds_alternatives {index : Index} {words : List WordPostings}
    (h : index.Sound words) {left right : QueryTree}
    (hl : left.Alternatives (Parser.Inside index)) (hr : right.Alternatives (Parser.Inside index))
    (negated : Bool) (limit : SpreadLimit) (reach : Nat) :
    Evaluation.Finds ⟨index, limit, reach⟩ (.near negated left right) fun document =>
      ∃ w ∈ left.leaves, ∃ v ∈ right.leaves,
        (QueryTree.near negated (.word w) (.word v)).accepts
          ⟨words, index.numDocuments, limit, reach⟩ document := by
  have hfinds := h.finds_spread (.near hl.parsed hr.parsed) (hl.distribute_near hr negated) limit
    reach
  refine hfinds.congr fun document => ?_
  rw [hl.accepts_graft]
  exact exists_congr fun w => and_congr_right fun _ => hr.accepts_graft _

/-- In a published index, `not near` over alternatives finds the documents in which some pair
    of their words is not near, and one word of the pair is there. Among them are all documents
    that it is meant to find. If there is one word on both sides, a wildcard possibly, it finds
    no others; and what it finds for a wildcard it also finds for a group of its words. -/
theorem Published.notNear_alternatives {bytes : Bytes} (h : Published bytes) :
    ∃ index words, Index.open? bytes.toArray = .ok index ∧ index.decodeWords = .ok words
      ∧ ∀ (limit : SpreadLimit) (reach : Nat) (left right : QueryTree),
        left.Alternatives (Parser.Inside index) → right.Alternatives (Parser.Inside index) →
          left.leaves ≠ [] → right.leaves ≠ [] →
          let setting : Setting := ⟨words, index.numDocuments, limit, reach⟩
          let pair (document : UInt32) : Prop :=
            ∃ w ∈ left.leaves, ∃ v ∈ right.leaves, setting.Apart [w] [v] document
          Evaluation.Finds ⟨index, limit, reach⟩ (.near true left right) pair
            ∧ (∀ document, setting.Apart left.leaves right.leaves document → pair document)
            ∧ (left.leaves.length = 1 → right.leaves.length = 1 →
              Evaluation.Finds ⟨index, limit, reach⟩ (.near true left right)
                (setting.Apart left.leaves right.leaves))
            ∧ ∀ (w p : WordLeaf), left.leaves = [w] → p.SplitInto right.leaves →
              ∀ document, setting.Apart [w] [p] document → pair document := by
  rcases h.exists_index with ⟨index, words, hopen, hsound⟩
  refine ⟨index, words, hopen, hsound.decode, fun limit reach left right hl hr hleft hright => ?_⟩
  intro setting pair
  have hfinds : Evaluation.Finds ⟨index, limit, reach⟩ (.near true left right) pair := by
    have hfinds := hsound.finds_alternatives hl hr true limit reach
    simp only [Setting.accepts_notNear, ← Setting.apart_singletons] at hfinds
    exact hfinds
  refine ⟨hfinds, fun document hapart => hapart.exists_pair hleft hright, fun hone hone' => ?_,
    fun w p hw hsplit document hapart => ?_⟩
  · -- One word on each side is one pair, and it is meant to be apart as it is found to be.
    rcases List.length_eq_one_iff.mp hone with ⟨w, hw⟩
    rcases List.length_eq_one_iff.mp hone' with ⟨v, hv⟩
    have hpair : pair = setting.Apart left.leaves right.leaves := by
      funext document
      show (∃ _ ∈ left.leaves, ∃ _ ∈ right.leaves, _) = _
      rw [hw, hv]
      simp
    rw [← hpair]
    exact hfinds
  · rw [Setting.apart_split hsplit, ← hw] at hapart
    exact hapart.exists_pair hleft hright

/-- A cat that is near a dog, and a dot elsewhere. The cat is not near that dot, so the group of
    the two words finds it, and the wildcard for them does not. -/
theorem Published.notNear_alternatives_group :
    let read : List Operation := [.file 0 "one" 8 none [.text "Cat, dog" none],
      .file 0 "two" 3 none [.text "Dot" none]]
    let session : Session := { options := {}, stopWords := .empty }
    let cat : WordLeaf := ⟨"cat", 0, 1, none⟩
    let wildcard : WordLeaf := ⟨"do", 1, 3, none⟩
    let group : QueryTree := .or [.word ⟨"dog", 1, 2, none⟩, .word ⟨"dot", 2, 3, none⟩]
    ∃ merged index words, Published ((session.run read).volume merged).bytes
      ∧ Index.open? ((session.run read).volume merged).bytes.toArray = .ok index
      ∧ index.decodeWords = .ok words
      ∧ (QueryTree.word cat).Alternatives (Parser.Inside index)
      ∧ group.Alternatives (Parser.Inside index) ∧ wildcard.SplitInto group.leaves
      ∧ let setting : Setting := ⟨words, index.numDocuments, {}, 10⟩
        let found (document : UInt32) : Prop := ∃ v ∈ group.leaves, setting.Apart [cat] [v] document
        Evaluation.Finds ⟨index, {}, 10⟩ (.near true (.word cat) group) found ∧ found 0
          ∧ ¬ setting.Apart [cat] group.leaves 0
          ∧ Evaluation.Finds ⟨index, {}, 10⟩ (.near true (.word cat) (.word wildcard))
            (setting.Apart [cat] [wildcard]) := by
  intro read session cat wildcard group
  let merged : List WordPostings := [
    ⟨"cat", [{ document := 0, occurrences := 1, positions := [0] }]⟩,
    ⟨"dog", [{ document := 0, occurrences := 1, positions := [1] }]⟩,
    ⟨"dot", [{ document := 1, occurrences := 1, positions := [0] }]⟩]
  have hsources : ((session.run read).closed.sources >>= Merge.sources).toOption = some merged := by
    decide +kernel
  obtain ⟨hpublished, hsound⟩ :=
    Published.of_merge rfl (by decide) (by decide +kernel) hsources (by decide +kernel)
  rcases Published.notNear_alternatives hpublished with ⟨index, words, hopen, hdecode, hfinds⟩
  obtain ⟨index', words', hopen', hindex, htable, -⟩ :=
    hsound.exists_index hpublished.size (by decide +kernel)
  rcases Except.ok.inj (hopen.symm.trans hopen') with rfl
  rcases Except.ok.inj (hdecode.symm.trans hindex.decode) with rfl
  -- The words are the merged ones, with ranks that nothing here depends on.
  have hwords := Session.words_eq_of_rare htable (by decide +kernel)
  have hcount : index.words.size = 3 := by
    rw [← Index.length_of_decodeWords hdecode, hwords]
    rfl
  have hinside : ∀ {leaf : WordLeaf}, leaf.stop ≤ 3 → Parser.Inside index leaf := fun hstop => by
    rw [Parser.Inside, hcount]
    exact hstop
  have hleft : (QueryTree.word cat).Alternatives (Parser.Inside index) :=
    .word (hinside (by decide))
  have hright : group.Alternatives (Parser.Inside index) :=
    .or (List.forall_mem_cons.mpr ⟨.word (hinside (by decide)), List.forall_mem_singleton.mpr
      (.word (hinside (by decide)))⟩)
  have hwildcard : (QueryTree.word wildcard).Alternatives (Parser.Inside index) :=
    .word (hinside (by decide))
  -- The entries of the wildcard are those of the words of the group.
  have hsplit : wildcard.SplitInto group.leaves := by
    refine ⟨by decide, fun i hstart hstop => ?_⟩
    have hi : i = 1 ∨ i = 2 := by
      have hstart : 1 ≤ i := hstart
      have hstop : i < 3 := hstop
      omega
    rcases hi with rfl | rfl
    · exact ⟨⟨"dog", 1, 2, none⟩, by decide, rfl⟩
    · exact ⟨⟨"dot", 2, 3, none⟩, by decide, rfl⟩
  obtain ⟨hgroup, -, -, -⟩ := hfinds {} 10 _ _ hleft hright (by decide) (by decide)
  obtain ⟨-, -, hone, -⟩ := hfinds {} 10 _ _ hleft hwildcard (by decide) (by decide)
  let setting : Setting := ⟨words, index.numDocuments, {}, 10⟩
  -- In the first document there are the first two words, next to each other.
  have hcat : setting.positionsIn cat 0 = [0] := by
    rw [show setting = ⟨_, index.numDocuments, {}, 10⟩ from congrArg (Setting.mk · _ _ _) hwords]
    rfl
  have hdog : setting.positionsIn ⟨"dog", 1, 2, none⟩ 0 = [1] := by
    rw [show setting = ⟨_, index.numDocuments, {}, 10⟩ from congrArg (Setting.mk · _ _ _) hwords]
    rfl
  have hdot : setting.positionsIn ⟨"dot", 2, 3, none⟩ 0 = [] := by
    rw [show setting = ⟨_, index.numDocuments, {}, 10⟩ from congrArg (Setting.mk · _ _ _) hwords]
    rfl
  have hpresent : (setting.wordScore cat 0).isSome := by
    refine Option.isSome_iff_ne_none.mpr fun hnone => ?_
    rw [Setting.positionsIn_of_none hnone] at hcat
    exact absurd hcat (by simp)
  -- So the word is apart from the one that is not there, and not from the other.
  have hdistant : setting.Apart [cat] [⟨"dot", 2, 3, none⟩] 0 := by
    refine Setting.apart_singletons.mpr ⟨.inl hpresent, fun hnear => ?_⟩
    rcases Setting.nearIn_iff.mp hnear with ⟨a, -, b, hb, -⟩
    rw [hdot] at hb
    exact absurd hb List.not_mem_nil
  have hclose : ¬ setting.Apart [cat] group.leaves 0 := by
    intro hapart
    refine hapart.apart cat List.mem_cons_self ⟨"dog", 1, 2, none⟩ (by decide) 0 ?_ 1 ?_ ?_
    · rw [hcat]
      exact List.mem_cons_self
    · rw [hdog]
      exact List.mem_cons_self
    · exact (by decide : Near 10 0 1)
  refine ⟨merged, index, words, hpublished, hopen, hdecode, hleft, hright, hsplit, ?_⟩
  refine ⟨?_, ⟨_, by decide, hdistant⟩, hclose, hone rfl rfl⟩
  simpa only [QueryTree.leaves, List.mem_singleton, exists_eq_left] using hgroup

end Concordance
