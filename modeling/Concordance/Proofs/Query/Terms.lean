import Concordance.Proofs.Query.Acceptance
import Concordance.Proofs.Query.Alternatives
import Concordance.Proofs.Query.Grammar
import Mathlib.Data.List.Induction

/-!
# Terms of Queries

The words and wildcards of a query, each with the name that it is under.

What is looked up for a query is looked up for its terms, and operators have no part in it. A
name that is set holds for a whole group, so that a term is given the innermost name around it.
The tree of a query has the leaves of its terms, in order and however the operands of a chain are
put together: an operand that says nothing has no leaves either.

## Main definitions

* `Grammar.Term`: A word or a wildcard, with a name.
* `Grammar.Query.terms`: The terms of a query.
* `Grammar.Term.tree`, `Grammar.Term.skipped`: What a term asks for by itself.

## Theorems

* `Parser.leaves_chainTree`: A chain has the leaves of its operands.
* `Grammar.Query.leaves_tree`: A query has the leaves of its terms.
* `Grammar.Query.skipped_eq`: The words that are left out of it are those of its terms.
-/

namespace Concordance

namespace Parser

open QueryTree (leaves)

theorem leaves_foldl_near (negated : Bool) (tree : QueryTree) (trees : List QueryTree) :
    (trees.foldl (.near negated) tree).leaves = tree.leaves ++ trees.flatMap leaves := by
  induction trees generalizing tree with
  | nil => exact (List.append_nil _).symm
  | cons next trees ih => rw [List.foldl_cons, ih, leaves, List.append_assoc, List.flatMap_cons]

/-- A run is joined to a tree with all of its leaves. -/
theorem leaves_joinRun (tree : QueryTree) :
    ∀ run, (joinRun tree run).leaves = tree.leaves ++ run.2.flatMap leaves
  | (.and, trees) => by
    rw [joinRun, leaves, QueryTree.leavesOfAll_eq_flatMap, List.flatMap_cons]
  | (.or, trees) => by
    rw [joinRun, leaves, QueryTree.leavesOfAll_eq_flatMap, List.flatMap_cons]
  | (.near negated, trees) => leaves_foldl_near negated tree trees

theorem leaves_of_isEmpty {tree : QueryTree} (h : tree.isEmpty = true) : tree.leaves = [] := by
  rw [eq_empty_of_isEmpty h, leaves]

/-- A chain has the leaves of its operands. -/
theorem leaves_chainTree (operands : List (Operator × QueryTree)) :
    (chainTree operands).leaves = operands.flatMap fun operand => operand.2.leaves := by
  induction operands using List.reverseRecOn with
  | nil =>
    rw [chainTree, speaking, List.filter_nil, List.flatMap_nil]
    exact leaves_of_isEmpty rfl
  | append_singleton operands last ih =>
    obtain ⟨op, operand⟩ := last
    rw [List.flatMap_append, List.flatMap_singleton, ← ih]
    rcases hoperand : operand.isEmpty with _ | _
    · rcases hchain : (chainTree operands).isEmpty with _ | _
      · rcases chainTree_concat op hchain hoperand with ⟨tree, trees, -, hbefore, hafter⟩ | hafter
        · rw [hafter, hbefore, leaves_joinRun, leaves_joinRun, List.flatMap_append,
            List.flatMap_singleton, List.append_assoc]
        · rw [hafter, leaves_joinRun, List.flatMap_singleton]
      · -- What says something first is the whole chain.
        rw [chainTree_concat_first hchain hoperand, leaves_of_isEmpty hchain, List.nil_append]
    · -- An operand that says nothing has no leaves to lose.
      rw [chainTree_concat_of_isEmpty hoperand, leaves_of_isEmpty hoperand, List.append_nil]

end Parser

namespace Grammar

/-- A word or a wildcard of a query, with the name that it is under, if any. -/
inductive Term where
  | word (name : Option String) (text : String)
  | wildcard (name : Option String) (lead : String)
deriving DecidableEq, Repr

def Term.name : Term → Option String
  | .word name _ => name
  | .wildcard name _ => name

mutual

/-- The terms of a query that is under a name or not. -/
def Query.terms (name : Option String) : Query → List Term
  | .chain first rest => first.terms name ++ rest.terms name

def Links.terms (name : Option String) : Links → List Term
  | .nil => []
  | .cons _ next rest => next.terms name ++ rest.terms name

/-- A name takes the place of the one around it. -/
def Operand.terms (name : Option String) : Operand → List Term
  | .named own primary => primary.terms (some own)
  | .plain primary => primary.terms name

def Primary.terms (name : Option String) : Primary → List Term
  | .group query => query.terms name
  | .not operand => operand.terms name
  | .word text => [.word name text]
  | .wildcard lead => [.wildcard name lead]

end

section Meaning

variable (vocabulary : Vocabulary)

/-- Which occurrences count under a name, or under none. -/
def Vocabulary.filterUnder (name : Option String) : Parser.NameFilter :=
  name.elim .any vocabulary.filterOf

/-- What a term asks for by itself. -/
def Term.tree : Term → QueryTree
  | .word name text => (Primary.word text).tree vocabulary (vocabulary.filterUnder name)
  | .wildcard name lead => (Primary.wildcard lead).tree vocabulary (vocabulary.filterUnder name)

/-- The word of a term, if the index can not have it. -/
def Term.skipped : Term → List String
  | .word _ text => (Primary.word text).skipped vocabulary
  | .wildcard _ lead => (Primary.wildcard lead).skipped vocabulary

mutual

/-- A query has the leaves of its terms. -/
theorem Query.leaves_tree (name : Option String) : ∀ query : Query,
    (query.tree vocabulary (vocabulary.filterUnder name)).leaves
      = (query.terms name).flatMap fun term => (term.tree vocabulary).leaves
  | .chain first rest => by
    rw [Query.tree, Parser.leaves_chainTree, List.flatMap_cons, first.leaves_tree,
      rest.leaves_operands, Query.terms, List.flatMap_append]

theorem Links.leaves_operands (name : Option String) : ∀ rest : Links,
    ((rest.operands vocabulary (vocabulary.filterUnder name)).flatMap fun operand =>
        operand.2.leaves)
      = (rest.terms name).flatMap fun term => (term.tree vocabulary).leaves
  | .nil => rfl
  | .cons _ next rest => by
    rw [Links.operands, List.flatMap_cons, next.leaves_tree, rest.leaves_operands, Links.terms,
      List.flatMap_append]

theorem Operand.leaves_tree (name : Option String) : ∀ operand : Operand,
    (operand.tree vocabulary (vocabulary.filterUnder name)).leaves
      = (operand.terms name).flatMap fun term => (term.tree vocabulary).leaves
  | .named own primary => primary.leaves_tree (some own)
  | .plain primary => primary.leaves_tree name

theorem Primary.leaves_tree (name : Option String) : ∀ primary : Primary,
    (primary.tree vocabulary (vocabulary.filterUnder name)).leaves
      = (primary.terms name).flatMap fun term => (term.tree vocabulary).leaves
  | .group query => query.leaves_tree name
  | .not operand => by
    rw [Primary.tree, QueryTree.leaves, Primary.terms]
    exact operand.leaves_tree name
  | .word text => (List.flatMap_singleton ..).symm
  | .wildcard lead => (List.flatMap_singleton ..).symm

end

mutual

/-- The words that are left out of a query are those of its terms. -/
theorem Query.skipped_eq (name : Option String) : ∀ query : Query,
    query.skipped vocabulary = (query.terms name).flatMap (Term.skipped vocabulary)
  | .chain first rest => by
    rw [Query.skipped, first.skipped_eq name, rest.skipped_eq name, Query.terms,
      List.flatMap_append]

theorem Links.skipped_eq (name : Option String) : ∀ rest : Links,
    rest.skipped vocabulary = (rest.terms name).flatMap (Term.skipped vocabulary)
  | .nil => rfl
  | .cons _ next rest => by
    rw [Links.skipped, next.skipped_eq name, rest.skipped_eq name, Links.terms,
      List.flatMap_append]

theorem Operand.skipped_eq (name : Option String) : ∀ operand : Operand,
    operand.skipped vocabulary = (operand.terms name).flatMap (Term.skipped vocabulary)
  | .named own primary => primary.skipped_eq (some own)
  | .plain primary => primary.skipped_eq name

theorem Primary.skipped_eq (name : Option String) : ∀ primary : Primary,
    primary.skipped vocabulary = (primary.terms name).flatMap (Term.skipped vocabulary)
  | .group query => query.skipped_eq name
  | .not operand => operand.skipped_eq name
  | .word _ => (List.flatMap_singleton ..).symm
  | .wildcard _ => (List.flatMap_singleton ..).symm

end

end Meaning

end Grammar

end Concordance
