import Concordance.Proofs.Query.Chains
import Concordance.Proofs.Query.Denotation

/-!
# Which Documents a Chain Matches

What a tree without nearness matches, score by score left out.

Trees are evaluated to scores, but whether a document has one can be told of the parts of a
tree by themselves: all conjuncts match it, or one alternative does, or the negated part does
not. The parser adds operands to a tree one after the other. Such an operand drops out if it
says nothing, begins the chain if nothing was said before, and is one more conjunct or
alternative otherwise, whether or not it makes a node of its own.

## Main definitions

* `QueryTree.accepts`: Does a document match a tree?
* `QueryTree.NearFree`: A tree without nearness.

## Theorems

* `QueryTree.NearFree.distribute_eq`: There is nothing to spread in such a tree.
* `Parser.accepts_chainTree_concat`: What another operand does to the documents of a chain.
-/

namespace Concordance

namespace QueryTree

variable {setting : Setting} {document : UInt32}

/-- Does a document match a tree? -/
def accepts (setting : Setting) (document : UInt32) (tree : QueryTree) : Bool :=
  (tree.scoreIn setting document).isSome

theorem accepts_empty : accepts setting document .empty = false := by
  rw [accepts, scoreIn]
  rfl

theorem scoresIn_eq_map (children : List QueryTree) :
    scoresIn setting document children = children.map (scoreIn setting document) := by
  induction children with
  | nil => rw [scoresIn, List.map_nil]
  | cons child children ih => rw [scoresIn, List.map_cons, ih]

theorem accepts_and (children : List QueryTree) :
    accepts setting document (.and children) = children.all (accepts setting document) := by
  rw [accepts, scoreIn, Option.isSome_map, scoresIn_eq_map, Scores.sumOfAll, List.all_map]
  split
  · rename_i hall
    exact hall.symm
  · rename_i hall
    exact (Bool.eq_false_iff.mpr hall).symm

theorem accepts_or (children : List QueryTree) :
    accepts setting document (.or children) = children.any (accepts setting document) := by
  rw [accepts, scoreIn, scoresIn_eq_map, Scores.sumOfAny, List.any_map]
  split
  · rename_i hany
    exact hany.symm
  · rename_i hany
    exact (Bool.eq_false_iff.mpr hany).symm

theorem accepts_not (child : QueryTree) :
    accepts setting document (.not child)
      = (decide (document.toNat < setting.documents) && !accepts setting document child) := by
  rw [accepts, scoreIn, accepts]
  rcases child.scoreIn setting document with _ | score
  · by_cases hdocument : document.toNat < setting.documents <;> simp [hdocument]
  · simp

/-- A tree without nearness. -/
inductive NearFree : QueryTree → Prop
  | empty : NearFree .empty
  | word (w : WordLeaf) : NearFree (.word w)
  | and {children : List QueryTree} (h : ∀ c ∈ children, NearFree c) : NearFree (.and children)
  | or {children : List QueryTree} (h : ∀ c ∈ children, NearFree c) : NearFree (.or children)
  | not {child : QueryTree} (h : NearFree child) : NearFree (.not child)

theorem distributeAll_of_forall {children : List QueryTree}
    (h : ∀ c ∈ children, c.distribute = .ok c) : distributeAll children = .ok children := by
  rw [distributeAll_eq, List.map_congr_left h, collect_map_ok]

/-- There is nothing to spread in such a tree. -/
theorem NearFree.distribute_eq {tree : QueryTree} (h : tree.NearFree) :
    tree.distribute = .ok tree := by
  induction h with
  | empty => rw [distribute]
  | word w => rw [distribute]
  | and _ ih =>
    rw [distribute, distributeAll_of_forall ih]
    rfl
  | or _ ih =>
    rw [distribute, distributeAll_of_forall ih]
    rfl
  | not _ ih =>
    rw [distribute, ih]
    rfl

end QueryTree

namespace Parser

variable {operands : List (Operator × QueryTree)} {op : Operator} {operand : QueryTree}

theorem chainTree_single (op : Operator) (tree : QueryTree) : chainTree [(op, tree)] = tree :=
  (Chain.Builds.first op tree).tree.symm

theorem isEmpty_chainTree_concat (operands : List (Operator × QueryTree)) (op : Operator)
    (operand : QueryTree) :
    (chainTree (operands ++ [(op, operand)])).isEmpty
      = ((chainTree operands).isEmpty && operand.isEmpty) := by
  rw [isEmpty_chainTree, isEmpty_chainTree]
  rcases hoperand : operand.isEmpty with _ | _
  · rw [speaking_concat operands op hoperand, Bool.and_false]
    cases speaking operands <;> rfl
  · rw [speaking_concat_empty operands op hoperand, Bool.and_true]

theorem chainTree_concat_of_isEmpty (hoperand : operand.isEmpty = true) :
    chainTree (operands ++ [(op, operand)]) = chainTree operands := by
  rw [chainTree, chainTree, speaking_concat_empty operands op hoperand]

theorem chainTree_concat_first (hchain : (chainTree operands).isEmpty = true)
    (hoperand : operand.isEmpty = false) : chainTree (operands ++ [(op, operand)]) = operand := by
  rw [isEmpty_chainTree, List.isEmpty_iff] at hchain
  rw [chainTree, speaking_concat operands op hoperand, hchain]
  rfl

/-- An operand that says something behind others is one more of a run, or is joined to them. -/
theorem chainTree_concat (op : Operator) (hchain : (chainTree operands).isEmpty = false)
    (hoperand : operand.isEmpty = false) :
    (∃ tree trees, op.collecting = some op ∧ chainTree operands = joinRun tree (op, trees)
        ∧ chainTree (operands ++ [(op, operand)]) = joinRun tree (op, trees ++ [operand]))
      ∨ chainTree (operands ++ [(op, operand)]) = joinRun (chainTree operands) (op, [operand]) := by
  rw [isEmpty_chainTree] at hchain
  rcases hspeaking : speaking operands with _ | ⟨⟨op₀, first⟩, rest⟩
  · rw [hspeaking] at hchain
    exact absurd hchain (by simp)
  · have hchain' : chainTree operands = (runs rest).foldl joinRun first := by
      rw [chainTree, hspeaking]
    have hconcat : chainTree (operands ++ [(op, operand)])
        = (concatRun (op, operand) (runs rest)).foldl joinRun first := by
      rw [chainTree, speaking_concat operands op hoperand, hspeaking, ← runs_concat]
      rfl
    rw [hconcat, hchain']
    -- Only the last run differs, and it is joined last.
    rcases concatRun_cases op operand (runs rest) with
      ⟨before, trees, hop, hbefore, hafter⟩ | ⟨-, -, -, hfold⟩
    · refine .inl ⟨before.foldl joinRun first, trees, hop, ?_, ?_⟩
      · rw [hbefore, List.foldl_append]
        rfl
      · rw [hafter, List.foldl_append]
        rfl
    · exact .inr (hfold first)

variable {setting : Setting} {document : UInt32}

open QueryTree (accepts)

/-- The documents of one more conjunct. -/
theorem accepts_chainTree_and (hchain : (chainTree operands).isEmpty = false)
    (hoperand : operand.isEmpty = false) :
    accepts setting document (chainTree (operands ++ [(.and, operand)]))
      = (accepts setting document (chainTree operands) && accepts setting document operand) := by
  rcases chainTree_concat _ hchain hoperand with ⟨tree, trees, -, hbefore, hafter⟩ | hafter
  · rw [hbefore, hafter, joinRun, joinRun, QueryTree.accepts_and, QueryTree.accepts_and,
      ← List.cons_append, List.all_append, List.all_cons, List.all_cons, List.all_nil,
      Bool.and_true]
  · rw [hafter, joinRun, QueryTree.accepts_and, List.all_cons, List.all_cons, List.all_nil,
      Bool.and_true]

/-- The documents of one more alternative. -/
theorem accepts_chainTree_or (hchain : (chainTree operands).isEmpty = false)
    (hoperand : operand.isEmpty = false) :
    accepts setting document (chainTree (operands ++ [(.or, operand)]))
      = (accepts setting document (chainTree operands) || accepts setting document operand) := by
  rcases chainTree_concat _ hchain hoperand with ⟨tree, trees, -, hbefore, hafter⟩ | hafter
  · rw [hbefore, hafter, joinRun, joinRun, QueryTree.accepts_or, QueryTree.accepts_or,
      ← List.cons_append, List.any_append, List.any_cons, List.any_cons, List.any_nil,
      Bool.or_false]
  · rw [hafter, joinRun, QueryTree.accepts_or, List.any_cons, List.any_cons, List.any_nil,
      Bool.or_false]

/-- What another operand does to the documents of a chain. -/
theorem accepts_chainTree_concat (hop : op = .and ∨ op = .or) :
    accepts setting document (chainTree (operands ++ [(op, operand)]))
      = if operand.isEmpty then accepts setting document (chainTree operands)
        else if (chainTree operands).isEmpty then accepts setting document operand
        else if op = .and then
          accepts setting document (chainTree operands) && accepts setting document operand
        else accepts setting document (chainTree operands) || accepts setting document operand := by
  rcases hsilent : operand.isEmpty with _ | _
  · rw [if_neg Bool.false_ne_true]
    rcases hnone : (chainTree operands).isEmpty with _ | _
    · rw [if_neg Bool.false_ne_true]
      rcases hop with rfl | rfl
      · rw [if_pos rfl, accepts_chainTree_and hnone hsilent]
      · rw [if_neg (by decide), accepts_chainTree_or hnone hsilent]
    · rw [if_pos rfl, chainTree_concat_first hnone hsilent]
  · rw [if_pos rfl, chainTree_concat_of_isEmpty hsilent]

/-- A chain of trees without nearness is one too, if there is none between them. -/
theorem nearFree_chainTree_concat (hchain : (chainTree operands).NearFree)
    (hoperand : operand.NearFree) (hop : op = .and ∨ op = .or) :
    (chainTree (operands ++ [(op, operand)])).NearFree := by
  rcases hsilent : operand.isEmpty with _ | _
  · rcases hnone : (chainTree operands).isEmpty with _ | _
    · rcases chainTree_concat op hnone hsilent with ⟨tree, trees, -, hbefore, hafter⟩ | hafter
      · -- The node that grows is the chain itself, so that its operands are known.
        have hall : ∀ c ∈ tree :: trees, c.NearFree := by
          rw [hbefore] at hchain
          rcases hop with rfl | rfl <;> cases hchain <;> assumption
        have hmore : ∀ c ∈ tree :: (trees ++ [operand]), c.NearFree := by
          intro c hc
          rw [← List.cons_append, List.mem_append, List.mem_singleton] at hc
          rcases hc with hc | rfl
          · exact hall c hc
          · exact hoperand
        rw [hafter]
        rcases hop with rfl | rfl
        · exact .and hmore
        · exact .or hmore
      · -- A new node is above the chain so far and the operand.
        have hboth : ∀ c ∈ [chainTree operands, operand], c.NearFree :=
          List.forall_mem_cons.mpr ⟨hchain, List.forall_mem_singleton.mpr hoperand⟩
        rw [hafter]
        rcases hop with rfl | rfl
        · exact .and hboth
        · exact .or hboth
    · rw [chainTree_concat_first hnone hsilent]
      exact hoperand
  · rw [chainTree_concat_of_isEmpty hsilent]
    exact hchain

end Parser

end Concordance
