import Concordance.Query.Parser
import Concordance.Total

/-!
# Chains of Operands

What a chain of operands comes to, whatever way it was put together.

A chain is its operands in order, each with the operator in front of it. Those that are
empty say nothing, and are left out together with their operators; the operator of the
first that is left stands between nothing and nothing, and is left out as well. What
remains is a first operand and runs of operands behind the same operator. A run of `and`
or of `or` is one node. A run of `near` is one node for each operand, since `near` is
between two.

The parser does not see a chain as a whole. It puts one operand after another to a tree,
and looks at that tree, and at a note of what it did last, for whether a node may grow.
`Builds.extend` says that this is the same, one operand at a time, and when it is refused.

## Main definitions

* `Parser.runs`: Operands by operators.
* `Parser.chainTree`: What a chain comes to.
* `Parser.chainLinks`: The nodes that this takes.
* `Parser.Chain.Builds`: A chain so far stands for the operands so far.

## Theorems

* `Parser.Chain.Builds.extend`: Another operand is put where it belongs.
* `Parser.chainLinks_le`: No operand takes more than one node.
-/

namespace Concordance

namespace Parser

/-- Operands by operators, with another one in front: in the first run if that is behind the
    same operator. -/
def consRun (operand : Operator × QueryTree) :
    List (Operator × List QueryTree) → List (Operator × List QueryTree)
  | [] => [(operand.1, [operand.2])]
  | (op, trees) :: more =>
    if operand.1 = op then (op, operand.2 :: trees) :: more
    else (operand.1, [operand.2]) :: (op, trees) :: more

/-- Operands by operators: those in a row behind the same operator are a run. -/
def runs (operands : List (Operator × QueryTree)) : List (Operator × List QueryTree) :=
  operands.foldr consRun []

/-- A tree with a run of operands behind it: one node that has them all, or if the operator
    is between two, one node for each. -/
def joinRun (tree : QueryTree) : Operator × List QueryTree → QueryTree
  | (.and, trees) => .and (tree :: trees)
  | (.or, trees) => .or (tree :: trees)
  | (.near negated, trees) => trees.foldl (.near negated) tree

/-- The nodes that a run takes. -/
def runLinks : Operator × List QueryTree → Nat
  | (.near _, trees) => trees.length
  | _ => 1

/-- The nodes of several operands with something before them. -/
def nodesOf (operands : List (Operator × QueryTree)) : Nat :=
  total runLinks (runs operands)

/-- The operands that say anything. -/
def speaking (operands : List (Operator × QueryTree)) : List (Operator × QueryTree) :=
  operands.filter fun operand => !operand.2.isEmpty

/-- What a chain comes to. -/
def chainTree (operands : List (Operator × QueryTree)) : QueryTree :=
  match speaking operands with
  | [] => .empty
  | (_, first) :: rest => (runs rest).foldl joinRun first

/-- The nodes that a chain takes. -/
def chainLinks (operands : List (Operator × QueryTree)) : Nat :=
  nodesOf (speaking operands).tail

/-- The operator whose operands a node may take more of. -/
def Operator.collecting : Operator → Option Operator
  | .near _ => none
  | op => some op

/-- The operator whose operands the last of several runs may take more of. -/
def lastCollecting (sofar : List (Operator × List QueryTree)) : Option Operator :=
  sofar.getLast?.bind fun run => run.1.collecting

/-- A chain so far stands for the operands so far. -/
structure Chain.Builds (chain : Chain) (operands : List (Operator × QueryTree)) : Prop where
  tree : chain.tree = chainTree operands
  collects : chain.collects = lastCollecting (runs (speaking operands).tail)

/-- Operands by operators, with another one at the end. -/
def concatRun (operand : Operator × QueryTree) :
    List (Operator × List QueryTree) → List (Operator × List QueryTree)
  | [] => [(operand.1, [operand.2])]
  | [(op, trees)] =>
    if op = operand.1 then [(op, trees ++ [operand.2])]
    else [(op, trees), (operand.1, [operand.2])]
  | run :: next :: more => run :: concatRun operand (next :: more)

/-- It does not matter which end is put first. -/
theorem concatRun_consRun (a b : Operator × QueryTree) :
    ∀ sofar, concatRun b (consRun a sofar) = consRun a (concatRun b sofar)
  | [] => by
    rw [consRun, concatRun, concatRun, consRun]
    split
    · rename_i heq
      rw [heq]
      rfl
    · rfl
  | [(op, trees)] => by
    -- Only a single run is touched from both ends, so that both operators matter.
    rw [consRun, concatRun]
    by_cases ha : a.1 = op
    · rw [if_pos ha, concatRun]
      split
      · rw [consRun, if_pos ha]
        rfl
      · rw [consRun, if_pos ha]
    · rw [if_neg ha, concatRun, concatRun]
      split
      · rw [consRun, if_neg ha]
      · rw [consRun, if_neg ha]
  | (op, trees) :: next :: more => by
    rw [consRun, concatRun, consRun]
    split
    · rw [concatRun]
    · rw [concatRun, concatRun]

/-- Another operand at the end goes to the last run, or begins one. -/
theorem runs_concat (operands : List (Operator × QueryTree)) (operand : Operator × QueryTree) :
    runs (operands ++ [operand]) = concatRun operand (runs operands) := by
  induction operands with
  | nil => rfl
  | cons first rest ih =>
    show consRun first (runs (rest ++ [operand])) = concatRun operand (consRun first (runs rest))
    rw [ih, concatRun_consRun]

theorem concatRun_append (operand : Operator × QueryTree) (op : Operator)
    (trees : List QueryTree) (sofar : List (Operator × List QueryTree)) :
    concatRun operand (sofar ++ [(op, trees)])
      = sofar ++ if op = operand.1 then [(op, trees ++ [operand.2])]
        else [(op, trees), (operand.1, [operand.2])] := by
  induction sofar with
  | nil => rfl
  | cons run more ih =>
    rcases more with _ | ⟨next, more⟩
    · rfl
    · rw [List.cons_append, List.cons_append, concatRun, ← List.cons_append, ih]
      rfl

variable {operands : List (Operator × QueryTree)} {op : Operator} {operand : QueryTree}

theorem speaking_concat (operands : List (Operator × QueryTree)) (op : Operator)
    (hoperand : operand.isEmpty = false) :
    speaking (operands ++ [(op, operand)]) = speaking operands ++ [(op, operand)] := by
  rw [speaking, List.filter_append, List.filter_cons_of_pos (by rw [hoperand]; rfl)]
  rfl

theorem speaking_concat_empty (operands : List (Operator × QueryTree)) (op : Operator)
    (hoperand : operand.isEmpty = true) :
    speaking (operands ++ [(op, operand)]) = speaking operands := by
  rw [speaking, List.filter_append, List.filter_cons_of_neg (by rw [hoperand]; decide),
    List.filter_nil, List.append_nil]
  rfl

theorem isEmpty_of_speaking {rest : List (Operator × QueryTree)}
    (h : speaking operands = (op, operand) :: rest) : operand.isEmpty = false := by
  have hmem : (op, operand) ∈ speaking operands := h ▸ List.mem_cons_self
  exact Bool.not_eq_true' _ ▸ (List.mem_filter.mp hmem).2

theorem eq_empty_of_isEmpty (h : operand.isEmpty = true) : operand = .empty := by
  cases operand with
  | empty => rfl
  | _ => exact absurd h Bool.false_ne_true

/-- Joining says something if there was something to join to. -/
theorem isEmpty_joinRun {tree : QueryTree} (h : tree.isEmpty = false) :
    ∀ run, (joinRun tree run).isEmpty = false
  | (.and, _) => rfl
  | (.or, _) => rfl
  | (.near negated, trees) => by
    rw [joinRun]
    induction trees generalizing tree with
    | nil => exact h
    | cons next trees ih => exact ih rfl

theorem isEmpty_foldl_joinRun {tree : QueryTree} (h : tree.isEmpty = false)
    (more : List (Operator × List QueryTree)) : (more.foldl joinRun tree).isEmpty = false := by
  induction more generalizing tree with
  | nil => exact h
  | cons run more ih => exact ih (isEmpty_joinRun h run)

/-- A chain is empty if no operand says anything. -/
theorem isEmpty_chainTree (operands : List (Operator × QueryTree)) :
    (chainTree operands).isEmpty = (speaking operands).isEmpty := by
  rw [chainTree]
  split
  · rename_i hnone
    rw [hnone]
    rfl
  · rename_i hsome
    rw [hsome, isEmpty_foldl_joinRun (isEmpty_of_speaking hsome)]
    rfl

/-- A node that collects what an operator stands in front of takes one operand more. -/
theorem Chain.extend_grow {tree : QueryTree} (htree : tree.isEmpty = false)
    (hoperand : operand.isEmpty = false) (hop : op.collecting = some op) (trees : List QueryTree)
    (links : Nat) :
    (⟨joinRun tree (op, trees), some op⟩ : Chain).extend op operand links
      = .ok (⟨joinRun tree (op, trees ++ [operand]), some op⟩, links) := by
  unfold extend
  rw [if_neg (by rw [hoperand]; decide), if_neg (by rw [isEmpty_joinRun htree]; decide)]
  cases op with
  | and => rfl
  | or => rfl
  | near negated => exact absurd hop (by simp [Operator.collecting])

/-- Otherwise there is a new node, for as long as that is allowed. -/
theorem Chain.extend_link {chain : Chain} (htree : chain.tree.isEmpty = false)
    (hoperand : operand.isEmpty = false) (hop : chain.collects = some op → op.collecting = none)
    (links : Nat) :
    chain.extend op operand links
      = if depthLimit < links + 1 then .error (.malformed .tooManyOperators)
        else .ok (⟨joinRun chain.tree (op, [operand]), op.collecting⟩, links + 1) := by
  unfold extend
  rw [if_neg (by rw [hoperand]; decide), if_neg (by rw [htree]; decide)]
  split
  · rename_i hcollects
    exact absurd (hop hcollects) (by simp [Operator.collecting])
  · rename_i hcollects
    exact absurd (hop hcollects) (by simp [Operator.collecting])
  · split
    · rfl
    · split <;> rfl

theorem collecting_eq {last : Operator} (h : last.collecting = some op) :
    last = op ∧ op.collecting = some op := by
  cases last with
  | near negated => exact absurd h (by simp [Operator.collecting])
  | _ =>
    rcases Option.some.inj h with rfl
    exact ⟨rfl, rfl⟩

theorem lastCollecting_append (sofar : List (Operator × List QueryTree)) (op : Operator)
    (trees : List QueryTree) : lastCollecting (sofar ++ [(op, trees)]) = op.collecting := by
  rw [lastCollecting, List.getLast?_append]
  rfl

/-- Another operand is one more of a run that collects, or takes a node of its own. -/
theorem concatRun_cases (op : Operator) (operand : QueryTree)
    (sofar : List (Operator × List QueryTree)) :
    (∃ before trees, op.collecting = some op ∧ sofar = before ++ [(op, trees)]
        ∧ concatRun (op, operand) sofar = before ++ [(op, trees ++ [operand])])
      ∨ (lastCollecting sofar = some op → op.collecting = none)
        ∧ lastCollecting (concatRun (op, operand) sofar) = op.collecting
        ∧ total runLinks (concatRun (op, operand) sofar) = total runLinks sofar + 1
        ∧ ∀ tree, (concatRun (op, operand) sofar).foldl joinRun tree
            = joinRun (sofar.foldl joinRun tree) (op, [operand]) := by
  rcases List.eq_nil_or_concat sofar with rfl | ⟨before, ⟨last, trees⟩, hsofar⟩
  · refine .inr ⟨fun h => absurd h (by simp [lastCollecting]), rfl, ?_, fun _ => rfl⟩
    cases op <;> rfl
  · rw [List.concat_eq_append] at hsofar
    rw [hsofar, concatRun_append, lastCollecting_append]
    by_cases hlast : last = op
    · rcases hlast with rfl
      rw [if_pos rfl]
      rcases hop : last.collecting with _ | op'
      · -- The operator is between two, so that the run takes a node more.
        refine .inr ⟨fun _ => rfl, by rw [lastCollecting_append, hop], ?_, fun tree => ?_⟩
        · cases last with
          | near negated => simp [runLinks]; omega
          | _ => exact absurd hop (by simp [Operator.collecting])
        · cases last with
          | near negated => simp [joinRun]
          | _ => exact absurd hop (by simp [Operator.collecting])
      · obtain ⟨rfl, -⟩ := collecting_eq hop
        exact .inl ⟨before, trees, rfl, rfl, rfl⟩
    · -- Another operator begins another run.
      rw [if_neg hlast]
      refine .inr ⟨fun h => absurd (collecting_eq h).1 hlast, ?_, ?_, fun tree => ?_⟩
      · rw [List.append_cons, lastCollecting_append]
      · cases op <;> simp [runLinks] <;> omega
      · simp

/-- The first run is behind the operator of the first operand. -/
theorem runs_cons (first : Operator × QueryTree) (rest : List (Operator × QueryTree)) :
    ∃ trees more, runs (first :: rest) = (first.1, trees) :: more := by
  show ∃ trees more, consRun first (runs rest) = (first.1, trees) :: more
  rcases runs rest with _ | ⟨⟨op, trees⟩, more⟩
  · exact ⟨_, _, rfl⟩
  · rw [consRun]
    split
    · rename_i hop
      exact ⟨_, _, by rw [hop]⟩
    · exact ⟨_, _, rfl⟩

/-- An operand takes a node, unless the next one is of the same run and that collects. -/
theorem nodesOf_cons (first : Operator × QueryTree) (rest : List (Operator × QueryTree)) :
    nodesOf (first :: rest)
      = nodesOf rest + if rest.head?.map Prod.fst = some first.1
          ∧ first.1.collecting = some first.1 then 0 else 1 := by
  show total runLinks (consRun first (runs rest)) = _
  rcases rest with _ | ⟨next, rest⟩
  · rcases first with ⟨_ | _ | _, tree⟩ <;> rfl
  · rcases runs_cons next rest with ⟨trees, more, hruns⟩
    rw [nodesOf, hruns, consRun]
    -- A run of `near` takes a node more for the operand, the other ones have their node.
    by_cases hop : first.1 = next.1
    · rw [if_pos hop]
      rcases first with ⟨_ | _ | negated, tree⟩
      · simp [← hop, runLinks, Operator.collecting]
      · simp [← hop, runLinks, Operator.collecting]
      · simp [← hop, runLinks, Operator.collecting]
        omega
    · rw [if_neg hop, if_neg (by simp [Ne.symm hop])]
      rcases first with ⟨_ | _ | negated, tree⟩ <;> simp [runLinks] <;> omega

/-- Fewer operands take no more nodes, even though other ones stand next to each other. -/
theorem nodesOf_le_of_sublist {fewer more : List (Operator × QueryTree)}
    (h : (fewer.map Prod.fst).Sublist (more.map Prod.fst)) : nodesOf fewer ≤ nodesOf more := by
  induction more generalizing fewer with
  | nil =>
    rcases List.map_eq_nil_iff.mp (List.sublist_nil.mp h) with rfl
    exact Nat.le_refl _
  | cons first rest ih =>
    have hcons := nodesOf_cons first rest
    -- Either the first operand is left out, or it is the first one of both.
    rcases List.sublist_cons_iff.mp h with hrest | ⟨ops, hops, hrest⟩
    · have := ih hrest
      omega
    · rcases fewer with _ | ⟨first', rest'⟩
      · exact Nat.zero_le _
      · rcases List.cons.inj hops with ⟨hop, rfl⟩
        have hrest' := ih hrest
        have hcons' := nodesOf_cons first' rest'
        split at hcons
        · -- The run goes on without the first operand, and so does what is left of it.
          rename_i hsame
          rcases rest with _ | ⟨next, rest⟩
          · exact absurd hsame.1 (by simp)
          · have hnext : next.1 = first.1 := Option.some.inj hsame.1
            rw [hcons, Nat.add_zero]
            rcases List.sublist_cons_iff.mp hrest with hlater | ⟨ops, hops', hlater⟩
            · refine ih ?_
              rw [List.map_cons, List.map_cons, hnext, hop]
              exact hlater.cons_cons _
            · -- The operand that is left out was the first of a run, whose node it took.
              have hhead : rest'.head?.map Prod.fst = some first'.1 := by
                rw [← List.head?_map, hops', List.head?_cons, hnext, hop]
              rw [if_pos ⟨hhead, by rw [hop]; exact hsame.2⟩, Nat.add_zero] at hcons'
              rw [hcons']
              exact hrest'
        · split at hcons' <;> omega

/-- A chain of which some operands are left out takes no more nodes. -/
theorem chainLinks_le_of_sublist {fewer more : List (Operator × QueryTree)}
    (h : ((speaking fewer).map Prod.fst).Sublist ((speaking more).map Prod.fst)) :
    chainLinks fewer ≤ chainLinks more := by
  refine nodesOf_le_of_sublist ?_
  rw [List.map_tail, List.map_tail]
  exact h.tail

theorem chainLinks_le_append (operands more : List (Operator × QueryTree)) :
    chainLinks operands ≤ chainLinks (operands ++ more) := by
  refine chainLinks_le_of_sublist ?_
  rw [speaking, speaking, List.filter_append, List.map_append]
  exact List.sublist_append_left _ _

/-- No operand but the first takes a node, and none takes two. -/
theorem chainLinks_le (first : Operator × QueryTree) (rest : List (Operator × QueryTree)) :
    chainLinks (first :: rest) ≤ rest.length := by
  have hnodes : ∀ operands, nodesOf operands ≤ operands.length := by
    intro operands
    induction operands with
    | nil => exact Nat.le_refl _
    | cons operand more ih =>
      rw [nodesOf_cons, List.length_cons]
      split <;> omega
  have hspeaking : (speaking (first :: rest)).tail.length ≤ rest.length := by
    rw [List.length_tail]
    exact Nat.pred_le_pred (List.length_filter_le _ (first :: rest))
  exact Nat.le_trans (hnodes _) hspeaking

theorem chainLinks_eq {first : Operator × QueryTree} {rest : List (Operator × QueryTree)}
    (h : speaking operands = first :: rest) : chainLinks operands = nodesOf rest := by
  rw [chainLinks, h, List.tail_cons]

namespace Chain.Builds

variable {chain : Chain} {links : Nat}

/-- A chain begins with its first operand. -/
theorem first (op : Operator) (tree : QueryTree) :
    (⟨tree, none⟩ : Chain).Builds [(op, tree)] := by
  rcases htree : tree.isEmpty with _ | _
  · have hspeaking : speaking [(op, tree)] = [(op, tree)] := speaking_concat [] op htree
    exact ⟨by rw [chainTree, hspeaking]; rfl, by rw [hspeaking]; rfl⟩
  · rw [eq_empty_of_isEmpty htree]
    exact ⟨rfl, rfl⟩

/-- An operand that is empty changes nothing. -/
theorem extend_empty (h : chain.Builds operands) (hoperand : operand.isEmpty = true)
    (op : Operator) (links : Nat) :
    chain.extend op operand links = .ok (chain, links)
      ∧ chainLinks (operands ++ [(op, operand)]) = chainLinks operands
      ∧ chain.Builds (operands ++ [(op, operand)]) := by
  have hconcat := speaking_concat_empty operands op hoperand
  refine ⟨?_, ?_, ?_, ?_⟩
  · unfold Chain.extend
    rw [if_pos hoperand]
  · rw [chainLinks, chainLinks, hconcat]
  · rw [h.tree, chainTree, chainTree, hconcat]
  · rw [h.collects, hconcat]

/-- The first operand that is not loses its operator. -/
theorem extend_first (hnone : speaking operands = []) (h : chain.Builds operands)
    (hoperand : operand.isEmpty = false) (op : Operator) (links : Nat) :
    chain.extend op operand links = .ok (⟨operand, none⟩, links)
      ∧ chainLinks (operands ++ [(op, operand)]) = chainLinks operands
      ∧ (⟨operand, none⟩ : Chain).Builds (operands ++ [(op, operand)]) := by
  have hconcat := speaking_concat operands op hoperand
  rw [hnone, List.nil_append] at hconcat
  -- No operand had words so far, and then neither has the chain.
  have htree : chain.tree.isEmpty = true := by
    rw [h.tree, isEmpty_chainTree, hnone]
    rfl
  refine ⟨?_, ?_, ?_, ?_⟩
  · unfold Chain.extend
    rw [if_neg (by rw [hoperand]; decide), if_pos htree]
  · rw [chainLinks, chainLinks, hconcat, hnone]
    rfl
  · rw [chainTree, hconcat]
    rfl
  · rw [hconcat]
    rfl

/-- Another one is one more of the last run, or takes a node of its own. -/
theorem extend_next {op₀ : Operator} {first : QueryTree} {rest : List (Operator × QueryTree)}
    (hsome : speaking operands = (op₀, first) :: rest) (h : chain.Builds operands)
    (hoperand : operand.isEmpty = false) (op : Operator) (links : Nat) :
    (∃ longer, chain.extend op operand links = .ok (longer, links)
        ∧ chainLinks (operands ++ [(op, operand)]) = chainLinks operands
        ∧ longer.Builds (operands ++ [(op, operand)]))
      ∨ ∃ longer, chain.extend op operand links
          = (if depthLimit < links + 1 then .error (.malformed .tooManyOperators)
            else .ok (longer, links + 1))
        ∧ chainLinks (operands ++ [(op, operand)]) = chainLinks operands + 1
        ∧ longer.Builds (operands ++ [(op, operand)]) := by
  have hconcat : speaking (operands ++ [(op, operand)])
      = (op₀, first) :: (rest ++ [(op, operand)]) := by
    rw [speaking_concat operands op hoperand, hsome]
    rfl
  have hfirst := isEmpty_of_speaking hsome
  have htree : chain.tree = (runs rest).foldl joinRun first := by
    rw [h.tree, chainTree, hsome]
  have hcollects : chain.collects = lastCollecting (runs rest) := by
    rw [h.collects, hsome]
    rfl
  rcases concatRun_cases op operand (runs rest) with
    ⟨before, trees, hop, hbefore, hafter⟩ | ⟨hnone, hlast, hsum, hfold⟩
  · -- The node of the last run is the outermost one, where the parser finds it to grow.
    have hgrow := Chain.extend_grow (isEmpty_foldl_joinRun hfirst before) hoperand hop trees links
    have hchain : chain = ⟨joinRun (before.foldl joinRun first) (op, trees), some op⟩ := by
      rw [hbefore, List.foldl_append] at htree
      rw [hbefore, lastCollecting_append, hop] at hcollects
      rcases chain with ⟨tree, collects⟩
      exact (congrArg (Chain.mk · collects) htree).trans (congrArg (Chain.mk _) hcollects)
    refine .inl ⟨_, by rw [hchain]; exact hgrow, ?_, ?_, ?_⟩
    · rw [chainLinks_eq hconcat, chainLinks_eq hsome, nodesOf, nodesOf, runs_concat, hafter,
        hbefore]
      cases op with
      | near negated => exact absurd hop (by simp [Operator.collecting])
      | _ => simp only [total_append, total_cons, runLinks]
    · rw [chainTree, hconcat]
      simp only [runs_concat, hafter, List.foldl_append]
      rfl
    · rw [hconcat, List.tail_cons, runs_concat, hafter, lastCollecting_append, hop]
  · -- It begins a run, and what the chain is so far becomes the first operand of its node.
    have htree' : chain.tree.isEmpty = false := htree ▸ isEmpty_foldl_joinRun hfirst _
    refine .inr ⟨_, Chain.extend_link htree' hoperand (hcollects ▸ hnone) links, ?_, ?_, ?_⟩
    · rw [chainLinks_eq hconcat, chainLinks_eq hsome, nodesOf, nodesOf, runs_concat, hsum]
    · rw [chainTree, hconcat, htree]
      simp only [runs_concat, hfold]
    · rw [hconcat, List.tail_cons, runs_concat]
      exact hlast.symm

/-- Another operand is put where it belongs, for as long as the nodes are few enough. -/
theorem extend (h : chain.Builds operands) (op : Operator) (operand : QueryTree)
    (hlinks : links ≤ depthLimit) :
    ∃ cost, chainLinks (operands ++ [(op, operand)]) = chainLinks operands + cost
      ∧ ((∃ longer, chain.extend op operand links = .ok (longer, links + cost)
          ∧ links + cost ≤ depthLimit ∧ longer.Builds (operands ++ [(op, operand)]))
        ∨ depthLimit < links + cost
          ∧ chain.extend op operand links = .error (.malformed .tooManyOperators)) := by
  -- An operand costs a node only if it begins a run, and is not the first one.
  rcases hoperand : operand.isEmpty with _ | _
  · rcases hspeaking : speaking operands with _ | ⟨⟨op₀, first⟩, rest⟩
    · obtain ⟨heq, hcost, hbuilds⟩ := h.extend_first hspeaking hoperand op links
      exact ⟨0, hcost, .inl ⟨_, heq, hlinks, hbuilds⟩⟩
    · rcases h.extend_next hspeaking hoperand op links with
        ⟨longer, heq, hcost, hbuilds⟩ | ⟨longer, heq, hcost, hbuilds⟩
      · exact ⟨0, hcost, .inl ⟨_, heq, hlinks, hbuilds⟩⟩
      · by_cases hlimit : depthLimit < links + 1
        · rw [if_pos hlimit] at heq
          exact ⟨1, hcost, .inr ⟨hlimit, heq⟩⟩
        · rw [if_neg hlimit] at heq
          exact ⟨1, hcost, .inl ⟨_, heq, Nat.le_of_not_lt hlimit, hbuilds⟩⟩
  · obtain ⟨heq, hcost, hbuilds⟩ := h.extend_empty hoperand op links
    exact ⟨0, hcost, .inl ⟨_, heq, hlinks, hbuilds⟩⟩

end Chain.Builds

end Parser

end Concordance
