import Concordance.Proofs.Layout.Cut
import Concordance.Proofs.Posting.Delimited
import Concordance.Proofs.Query.Acceptance
import Concordance.Proofs.Query.NormalForm
import Concordance.Proofs.Query.Reading

/-!
# Who Is to Blame

A query that was spread is in order, and nothing that goes wrong later is its fault.

A service reports malformed queries to whoever asked, and everything else to whoever runs it.
So it has to be told once and for all, when a query is read and spread, whether it is in
order. Evaluation could still blame it in one place only, where it meets nearness between
operands that are not words, and there is none in a tree that was spread. What else it may
come upon are entries of an index that can not be read.

The index may be anything here, and reading it may go wrong in every way. It is the cause that
is told apart, and causes are followed up from the bytes: a word that is stored, its postings,
the places where a leaf is, and then the tree.

## Theorems

* `QueryTree.Spread.distribute_eq`: There is nothing to spread in a tree that was spread.
* `QueryTree.Spread.eval_blameless`: Evaluating such a tree never blames the request.
* `Parser.kept_solid`: What the parser returns is solid, if it is not empty.
* `Parser.parse_distributes`: A query is refused for one reason, or is in order for good.
-/

namespace Concordance

section Stored

variable {e : Error}

theorem checked_blameless {value : Nat} (h : checked value = .error e) :
    e.blamesRequest = false := by
  rw [checked] at h
  split at h
  · exact absurd h (by simp)
  · rcases Except.error.inj h with rfl
    rfl

/-- The place of an entry is wrong, or outside. -/
theorem OffsetTable.offset_blameless {table : OffsetTable} {blob : Blob} {i : Nat}
    (h : table.offset blob i = .error e) : e.blamesRequest = false := by
  -- Each step that can go wrong finds the index corrupt.
  rw [offset_eq_bind] at h
  split at h
  · rcases Except.error.inj h with rfl
    rfl
  rcases error_of_bind h with h | ⟨place, -, h⟩
  · exact checked_blameless h
  rcases error_of_bind h with h | ⟨field, -, h⟩
  · rw [Blob.behind] at h
    split at h
    · exact absurd h (by simp)
    · rcases Except.error.inj h with rfl
      rfl
  rcases error_of_bind h with h | ⟨raw, -, h⟩
  · rcases Reader.u64_corrupt (Prod.ext h rfl) with ⟨cause, rfl⟩
    rfl
  · split at h
    · exact absurd h (by simp)
    · rcases Except.error.inj h with rfl
      rfl

theorem Segment.get_blameless {segment : Segment} {i : Nat} (h : segment.get i = .error e) :
    e.blamesRequest = false := by
  rw [get_eq_bind] at h
  rcases error_of_bind h with h | ⟨start, -, h⟩
  · exact OffsetTable.offset_blameless h
  · rcases error_of_bind h with h | ⟨stop, -, h⟩
    · -- The end of the last entry is the end of the segment, and nothing is read for it.
      split at h
      · exact OffsetTable.offset_blameless h
      · exact absurd h (by simp)
    · split at h
      · rcases Except.error.inj h with rfl
        rfl
      · rw [Blob.slice] at h
        split at h
        · exact absurd h (by simp)
        · rcases Except.error.inj h with rfl
          rfl

theorem Index.storedWord_blameless {index : Index} {i : Nat} (h : index.storedWord i = .error e) :
    e.blamesRequest = false := by
  rcases error_of_bind h with h | ⟨entry, -, h⟩
  · exact Segment.get_blameless h
  · rcases StoredWord.parse_corrupt h with ⟨cause, rfl⟩
    rfl

end Stored

namespace Evaluation

variable {evaluation : Evaluation} {e : Error}

theorem collectFrom_blameless {metaId : Option UInt32} {count i : Nat}
    {found : ByDocument Sighting} {ignored : WordSet}
    (h : evaluation.collectFrom metaId count i found ignored = .error e) :
    e.blamesRequest = false := by
  induction count generalizing i found ignored with
  | zero => exact absurd h (by simp [collectFrom])
  | succ count ih =>
    rw [collectFrom_succ] at h
    rcases error_of_bind h with h | ⟨entry, -, h⟩
    · exact Index.storedWord_blameless h
    rcases error_of_bind h with h | ⟨postings, -, h⟩
    · rcases StoredWord.postings_corrupt h with ⟨cause, rfl⟩
      rfl
    · split at h
      · exact ih h
      · exact ih h

theorem occurrences_blameless {leaf : WordLeaf} {ignored : WordSet}
    (h : evaluation.occurrences leaf ignored = .error e) : e.blamesRequest = false := by
  rw [occurrences_eq_map] at h
  exact collectFrom_blameless (error_of_map h)

end Evaluation

namespace QueryTree

variable {P : WordLeaf → Prop} {tree : QueryTree}

/-- All nearness of a spread tree is between words. -/
theorem Spread.near_words (h : tree.Spread P) {negated : Bool} {left right : QueryTree}
    (hnear : .near negated left right ∈ tree.subtrees) :
    ∃ v w, left = .word v ∧ right = .word w := by
  induction h with
  | empty => exact absurd (mem_subtrees_empty.mp hnear) (by simp)
  | word => exact absurd (mem_subtrees_word.mp hnear) (by simp)
  | and _ _ ih =>
    rw [mem_subtrees_gather (.inl rfl), or_iff_right (by simp), mem_subtreesOfAll] at hnear
    rcases hnear with ⟨c, hc, hnear⟩
    exact ih c hc hnear
  | or _ ih =>
    rw [mem_subtrees_gather (.inr rfl), or_iff_right (by simp), mem_subtreesOfAll] at hnear
    rcases hnear with ⟨c, hc, hnear⟩
    exact ih c hc hnear
  | not _ ih =>
    rw [mem_subtrees_not, or_iff_right (by simp)] at hnear
    exact ih hnear
  | near =>
    -- Below the words of the pair there is nothing.
    simp only [mem_subtrees_near, mem_subtrees_word, reduceCtorEq, or_false, near.injEq] at hnear
    exact ⟨_, _, hnear.2⟩

/-- There is nothing to spread in a tree that was spread. -/
theorem Spread.distribute_eq (h : tree.Spread P) : tree.distribute = .ok tree := by
  induction h with
  | empty => rw [distribute]
  | word => rw [distribute]
  | and _ _ ih =>
    rw [distribute, distributeAll_of_forall ih]
    rfl
  | or _ ih =>
    rw [distribute, distributeAll_of_forall ih]
    rfl
  | not _ ih =>
    rw [distribute, ih]
    rfl
  | near => exact distribute_words ..

theorem evalAll_blameless {evaluation : Evaluation} {children : List QueryTree}
    (h : ∀ child ∈ children, ∀ ignored e, child.eval evaluation ignored = .error e →
      e.blamesRequest = false) {ignored : WordSet} {e : Error}
    (heval : evalAll evaluation ignored children = .error e) : e.blamesRequest = false := by
  induction children generalizing ignored with
  | nil => exact absurd heval (by simp [evalAll])
  | cons child rest ih =>
    rw [evalAll_cons] at heval
    rcases error_of_bind heval with hchild | ⟨found, -, hrest⟩
    · exact h child List.mem_cons_self ignored e hchild
    · exact ih (fun c hc => h c (List.mem_cons_of_mem _ hc)) (error_of_map hrest)

/-- Evaluating a spread tree never blames the request. -/
theorem Spread.eval_blameless (h : tree.Spread P) {evaluation : Evaluation} {ignored : WordSet}
    {e : Error} (heval : tree.eval evaluation ignored = .error e) : e.blamesRequest = false := by
  induction h generalizing ignored e with
  | empty => exact absurd heval (by simp [eval])
  | word =>
    rw [eval_word] at heval
    exact Evaluation.occurrences_blameless (error_of_map heval)
  | and _ _ ih =>
    rw [eval_and] at heval
    exact evalAll_blameless (fun c hc ignored e => ih c hc) (error_of_map heval)
  | or _ ih =>
    rw [eval_or] at heval
    exact evalAll_blameless (fun c hc ignored e => ih c hc) (error_of_map heval)
  | not _ ih =>
    rw [eval_not] at heval
    exact ih (error_of_map heval)
  | near =>
    -- There is nearness of words only, so the one case that blames the request is not met.
    rw [eval_near] at heval
    rcases error_of_bind heval with hleft | ⟨found, -, hright⟩
    · exact Evaluation.occurrences_blameless hleft
    · exact Evaluation.occurrences_blameless (error_of_map hright)

end QueryTree

namespace Parser

variable {lookup : Lookup}

/-- Where both say something, so does whatever node they are put into. -/
theorem Joined.solid {tree operand longer : QueryTree} (h : Joined tree operand longer)
    (htree : tree = .empty ∨ tree.Solid) (hoperand : operand = .empty ∨ operand.Solid) :
    longer = .empty ∨ longer.Solid := by
  have hsolid : ∀ {tree : QueryTree}, tree.isEmpty ≠ true → tree = .empty ∨ tree.Solid →
      tree.Solid := fun hspeaks h => h.resolve_left fun heq => hspeaks (by rw [heq]; rfl)
  have hmore : ∀ {children : List QueryTree}, operand.Solid → (∀ c ∈ children, c.Solid) →
      ∀ c ∈ children ++ [operand], c.Solid := fun hoperand hall =>
    List.forall_mem_append.mpr ⟨hall, List.forall_mem_singleton.mpr hoperand⟩
  -- An operand that is put to something says something itself, or else it would drop out.
  cases h with
  | dropped => exact htree
  | first => exact hoperand
  | and hspeaks hspeaks' hchildren =>
    refine .inr (.and (List.append_ne_nil_of_right_ne_nil _ (List.cons_ne_nil _ _))
      (hmore (hsolid hspeaks' hoperand) ?_))
    rcases hchildren with rfl | rfl
    · cases hsolid hspeaks htree with
      | and _ hall => exact hall
    · exact List.forall_mem_singleton.mpr (hsolid hspeaks htree)
  | or hspeaks hspeaks' hchildren =>
    refine .inr (.or (List.append_ne_nil_of_right_ne_nil _ (List.cons_ne_nil _ _))
      (hmore (hsolid hspeaks' hoperand) ?_))
    rcases hchildren with rfl | rfl
    · cases hsolid hspeaks htree with
      | or _ hall => exact hall
    · exact List.forall_mem_singleton.mpr (hsolid hspeaks htree)
  | near negated hspeaks hspeaks' =>
    exact .inr (.near (hsolid hspeaks htree) (hsolid hspeaks' hoperand))

/-- What the parser makes out of solid trees is solid, and an empty one drops out. -/
theorem kept_solid : Kept lookup fun _ _ _ tree => tree = .empty ∨ tree.Solid := by
  refine .of_joined (.inl rfl) (fun _ => .inr (.word _)) (fun {child} h => ?_) Joined.solid
  rcases h with rfl | h
  · exact .inr .notEmpty
  · exact .inr (.not h)

/-- Spreading a tree that was read fails just where there is a negation below nearness. -/
theorem parse_settles {tokens : List Token} {tree : QueryTree} {ignored : WordSet}
    (h : parse lookup tokens = .ok (tree, ignored)) :
    (tree.NearNot → tree.distribute = .error (.malformed .nearNot))
      ∧ (¬ tree.NearNot → ∃ node, tree.distribute = .ok node) := by
  rcases parse_keeps kept_solid h with ⟨-, rfl | hsolid⟩
  · exact ⟨fun hnear => absurd hnear QueryTree.not_nearNot_empty,
      fun _ => ⟨.empty, by rw [QueryTree.distribute]⟩⟩
  · rcases hsolid.settles.distribute with ⟨hrefused, hdone⟩
    refine ⟨hrefused, fun hnear => ?_⟩
    rcases hdone hnear with ⟨node, hnode, -⟩
    exact ⟨node, hnode⟩

/-- A query that was read is refused if and only if it has a negation below nearness, and it is
    called malformed then. If it is not refused, it has a normal form: all nearness is between
    two words, spreading it once more changes nothing, and whatever index it is evaluated in, it
    is not called malformed any more. -/
theorem parse_distributes {tokens : List Token} {tree : QueryTree} {ignored : WordSet}
    (h : parse lookup tokens = .ok (tree, ignored)) :
    ((∃ e, tree.distribute = .error e) ↔ tree.NearNot)
      ∧ (∀ e, tree.distribute = .error e → e = .malformed .nearNot)
      ∧ ∀ node, tree.distribute = .ok node →
        (∀ negated left right, .near negated left right ∈ node.subtrees →
            ∃ v w, left = .word v ∧ right = .word w)
          ∧ node.distribute = .ok node
          ∧ ∀ (evaluation : Evaluation) (passed : WordSet) (cause : Malformed),
            node.eval evaluation passed ≠ .error (.malformed cause) := by
  rcases parse_settles h with ⟨hrefused, hdone⟩
  -- A tree without a negation below nearness is spread, so that it can not be refused.
  have hnear : ∀ e, tree.distribute = .error e → tree.NearNot := by
    intro e herror
    by_contra hnot
    rcases hdone hnot with ⟨node, hnode⟩
    exact absurd (hnode.symm.trans herror) (by simp)
  refine ⟨⟨fun ⟨e, herror⟩ => hnear e herror, fun hnot => ⟨_, hrefused hnot⟩⟩,
    fun e herror => ?_, fun node hnode => ?_⟩
  · rw [hrefused (hnear e herror)] at herror
    exact (Except.error.inj herror).symm
  · have hspread : node.Spread (Inside lookup.index) := (parse_parsed h).distribute hnode
    refine ⟨fun negated left right hmem => hspread.near_words hmem, hspread.distribute_eq,
      fun evaluation passed cause heval => ?_⟩
    exact absurd (hspread.eval_blameless heval) (by simp [Error.blamesRequest])

open Grammar in
/-- Two queries to an index that has nothing in it: a negation in a group that nearness is to, and
    a chain that begins with a group, with a negation beside it. -/
theorem parse_distributes_chains :
    let refused : List Token := [.word "cat", .near, .openParen, .word "bird", .or, .not,
      .word "dog", .closeParen, .finish]
    let chain : List Token := [.openParen, .word "cat", .or, .word "bird", .closeParen, .near,
      .word "dog", .near, .wildcard "fo", .not, .word "owl", .finish]
    ∃ index tree tree' node, Index.open? (List.replicate 40 0).toArray = .ok index
      ∧ parse ⟨index, id, {}⟩ refused = .ok (tree, []) ∧ tree.NearNot
      ∧ (∃ e, tree.distribute = .error e)
      ∧ parse ⟨index, id, {}⟩ chain = .ok (tree', []) ∧ ¬ tree'.NearNot
      ∧ tree'.distribute = .ok node ∧ node.distribute = .ok node
      ∧ node.eval ⟨index, {}, 10⟩ [] ≠ .error (.malformed .nearOperands) := by
  intro refused chain
  rcases exists_nothing with ⟨index, hopen, hnothing⟩
  have hdescribes := Vocabulary.describes_nothing hnothing id {}
  let group : Query := .chain (.plain (.word "cat"))
    (.cons .near (.plain (.group (.chain (.plain (.word "bird"))
      (.cons .or (.plain (.not (.plain (.word "dog")))) .nil)))) .nil)
  let links : Query := .chain
    (.plain (.group (.chain (.plain (.word "cat")) (.cons .or (.plain (.word "bird")) .nil))))
    (.cons .near (.plain (.word "dog")) (.cons .near (.plain (.wildcard "fo"))
      (.cons .implied (.plain (.not (.plain (.word "owl")))) .nil)))
  have hgroup := parse_spelling hdescribes group (by decide) (by decide)
  have hlinks := parse_spelling hdescribes links (by decide) (by decide)
  let leaf (word : String) : QueryTree := .word ⟨word, 0, 0, none⟩
  have hnear : (QueryTree.near false (leaf "cat")
      (.or [leaf "bird", .not (leaf "dog")])).NearNot := by
    refine QueryTree.nearNot_near.mpr (.inr ((QueryTree.hasNot_gather (.inr rfl)).mpr ?_))
    exact ⟨.not (leaf "dog"), by simp, QueryTree.hasNot_not⟩
  -- The negation stands beside the chain and not below it.
  have hfar : ¬ (QueryTree.and [.near false (.near false (.or [leaf "cat", leaf "bird"])
      (leaf "dog")) (leaf "fo"), .not (leaf "owl")]).NearNot := by
    rw [QueryTree.nearNot_gather (.inl rfl)]
    have hword : ∀ word, ¬ (leaf word).HasNot := fun _ => QueryTree.not_hasNot_word
    have hor : ¬ (QueryTree.or [leaf "cat", leaf "bird"]).HasNot := by
      rw [QueryTree.hasNot_gather (.inr rfl)]
      simp [hword]
    simp [QueryTree.nearNot_near, QueryTree.nearNot_not, QueryTree.hasNot_near, hword, hor, leaf,
      QueryTree.not_nearNot_word]
  obtain ⟨hrefuses, -, -⟩ := parse_distributes hgroup
  obtain ⟨hkeeps, -, hnormal⟩ := parse_distributes hlinks
  rcases hnode : (links.tree _ .any).distribute with e | node
  · exact absurd (hkeeps.mp ⟨e, hnode⟩) hfar
  · rcases hnormal node hnode with ⟨-, hagain, heval⟩
    exact ⟨index, _, _, node, hopen, hgroup, hnear, hrefuses.mpr hnear, hlinks, hfar, hnode, hagain,
      heval ⟨index, {}, 10⟩ [] .nearOperands⟩

end Parser

end Concordance
