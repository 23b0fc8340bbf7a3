import Concordance.Proofs.Query.Blame

/-!
# How Deep Trees Are

No query makes a tree that is too deep to be followed down.

The parser counts two things. It counts the groups and negations around a token, and it counts
the operators that put a node on top of a tree. A node of a tree is there for one or the other:
it is an operator, of which a whole query has only so many, or it is a negation, of which only
so many are around each other. Groups make no nodes, so that they only take away from what
negations may use.

What is spread is deeper than what was read. Nearness of two operands has the shape of the right
one below the shape of the left one, and a chain that is split gets a node on top of its links.
That a tree grows no deeper than by a level for each of its operators rests on a query being
refused where there is a negation below nearness. Two operands that nearness joins are made of
operators alone, and so their depths are not added up without their operators being so, too.

## Main definitions

* `QueryTree.operators`: The conjunctions, disjunctions and nearness of a tree.
* `QueryTree.negations`: The most negations around each other.
* `Parser.Counted`: What the counters of the parser say about a tree.
* `QueryTree.Shallow`: A tree that grows by a level for each operator, on either way of spreading.

## Theorems

* `QueryTree.depth_le`: A tree is as deep as its operators and negations make it.
* `Parser.kept_counted`: The parser counts all operators and negations.
* `QueryTree.Solid.shallow`: Spreading a tree adds a level for each operator at most.
* `Parser.parse_counted`, `Parser.parse_distribute_depth`: Trees of queries are only so deep, as
  they are read and as they are evaluated.
-/

namespace Concordance

namespace QueryTree

/-- Is the node an operator between operands? -/
def isOperator : QueryTree → Bool
  | .and _ => true
  | .or _ => true
  | .near _ _ _ => true
  | _ => false

/-- The number of operators in a tree. -/
def operators (tree : QueryTree) : Nat :=
  tree.subtrees.countP isOperator

mutual

/-- The most negations that are passed on a way down a tree. -/
def negations : QueryTree → Nat
  | .empty => 0
  | .word _ => 0
  | .and children => negationsOfAll children
  | .or children => negationsOfAll children
  | .not child => child.negations + 1
  | .near _ left right => max left.negations right.negations

/-- The most negations that are passed on a way down one of several trees. -/
def negationsOfAll : List QueryTree → Nat
  | [] => 0
  | child :: rest => max child.negations (negationsOfAll rest)

end

section Measures

variable {n : Nat} {tree left right : QueryTree} {children : List QueryTree}
  {wrap : List QueryTree → QueryTree}

theorem depthOfAll_le : depthOfAll children ≤ n ↔ ∀ c ∈ children, c.depth ≤ n := by
  induction children with
  | nil => simp [depthOfAll]
  | cons child rest ih => rw [depthOfAll, Nat.max_le, ih, List.forall_mem_cons]

theorem negationsOfAll_le : negationsOfAll children ≤ n ↔ ∀ c ∈ children, c.negations ≤ n := by
  induction children with
  | nil => simp [negationsOfAll]
  | cons child rest ih => rw [negationsOfAll, Nat.max_le, ih, List.forall_mem_cons]

theorem countP_subtreesOfAll (children : List QueryTree) :
    (subtreesOfAll children).countP isOperator = total operators children := by
  induction children with
  | nil => rfl
  | cons child rest ih =>
    rw [subtreesOfAll, List.countP_append, ih]
    rfl

theorem depth_gather (h : wrap = .and ∨ wrap = .or) :
    (wrap children).depth = depthOfAll children + 1 := by
  rcases h with rfl | rfl <;> rw [depth]

theorem negations_gather (h : wrap = .and ∨ wrap = .or) :
    (wrap children).negations = negationsOfAll children := by
  rcases h with rfl | rfl <;> rw [negations]

theorem operators_gather (h : wrap = .and ∨ wrap = .or) :
    (wrap children).operators = total operators children + 1 := by
  rcases h with rfl | rfl <;>
    rw [operators, subtrees, List.countP_cons_of_pos rfl, countP_subtreesOfAll]

theorem operators_not : (QueryTree.not tree).operators = tree.operators := by
  rw [operators, subtrees, List.countP_cons_of_neg (by simp [isOperator])]
  rfl

theorem operators_near (negated : Bool) :
    (QueryTree.near negated left right).operators = left.operators + right.operators + 1 := by
  rw [operators, subtrees, List.countP_cons_of_pos rfl, List.countP_append]
  rfl

/-- An operand has no more operators than all of them. -/
theorem operators_le_total {child : QueryTree} (h : child ∈ children) :
    child.operators ≤ total operators children :=
  le_total_of_mem operators h

mutual

/-- A tree is as deep as its operators and negations make it, and one leaf. -/
theorem depth_le : ∀ tree : QueryTree, tree.depth ≤ tree.operators + tree.negations + 1
  | .empty => by
    rw [depth]
    exact Nat.le_add_left _ _
  | .word w => by
    rw [depth]
    exact Nat.le_add_left _ _
  | .and children => by
    -- The deepest child has no more of them than all children together.
    rw [depth, operators_gather (.inl rfl), negations]
    exact Nat.succ_le_succ (Nat.le_trans (depthOfAll_le_total children) (by omega))
  | .or children => by
    rw [depth, operators_gather (.inr rfl), negations]
    exact Nat.succ_le_succ (Nat.le_trans (depthOfAll_le_total children) (by omega))
  | .not child => by
    have hchild := depth_le child
    rw [depth, operators_not, negations]
    omega
  | .near negated left right => by
    have hleft := depth_le left
    have hright := depth_le right
    rw [depth, operators_near, negations]
    omega

theorem depthOfAll_le_total : ∀ children : List QueryTree,
    depthOfAll children ≤ total operators children + negationsOfAll children + 1
  | [] => Nat.zero_le _
  | child :: rest => by
    have hchild := depth_le child
    have hrest := depthOfAll_le_total rest
    rw [depthOfAll, negationsOfAll, total_cons]
    omega

end

mutual

/-- No negation is passed in a tree that has none. -/
theorem negations_eq_zero : ∀ tree : QueryTree, ¬ tree.HasNot → tree.negations = 0
  | .empty, _ => by rw [negations]
  | .word w, _ => by rw [negations]
  | .and children, h => by
    rw [hasNot_gather (.inl rfl)] at h
    rw [negations]
    exact negationsOfAll_eq_zero children fun c hc hnot => h ⟨c, hc, hnot⟩
  | .or children, h => by
    rw [hasNot_gather (.inr rfl)] at h
    rw [negations]
    exact negationsOfAll_eq_zero children fun c hc hnot => h ⟨c, hc, hnot⟩
  | .not child, h => absurd hasNot_not h
  | .near negated left right, h => by
    rw [hasNot_near, not_or] at h
    rw [negations, negations_eq_zero left h.1, negations_eq_zero right h.2, Nat.max_self]

theorem negationsOfAll_eq_zero : ∀ children : List QueryTree, (∀ c ∈ children, ¬ c.HasNot) →
    negationsOfAll children = 0
  | [], _ => rfl
  | child :: rest, h => by
    rw [negationsOfAll, negations_eq_zero child (h child List.mem_cons_self),
      negationsOfAll_eq_zero rest fun c hc => h c (List.mem_cons_of_mem _ hc), Nat.max_self]

end

end Measures

end QueryTree

namespace Parser

variable {lookup : Lookup}

/-- What the counters say about a tree that was read in a scope, while the count of operators
    went from `before` to `after`. -/
structure Counted (scope : Scope) (before after : Nat) (tree : QueryTree) : Prop where
  operators : tree.operators + before ≤ after
  links : after ≤ max before depthLimit
  negations : tree.negations + scope.nesting ≤ max scope.nesting depthLimit

/-- A leaf needs not be counted. -/
theorem Counted.leaf {tree : QueryTree} (scope : Scope) (links : Nat)
    (hoperators : tree.operators = 0) (hnegations : tree.negations = 0) :
    Counted scope links links tree where
  operators := Nat.le_of_eq (by rw [hoperators, Nat.zero_add])
  links := Nat.le_max_left _ _
  negations := by rw [hnegations, Nat.zero_add]; exact Nat.le_max_left _ _

/-- An operator that a chain gets is counted, unless it is one with the operator before it. -/
theorem extend_links {chain longer : Chain} {op : Operator} {operand : QueryTree}
    {links after : Nat} (h : chain.extend op operand links = .ok (longer, after)) :
    longer.tree.operators + links ≤ chain.tree.operators + operand.operators + after
      ∧ links ≤ after ∧ after ≤ max links depthLimit := by
  rcases extend_cases h with ⟨rfl, hlonger | hlonger⟩ | ⟨-, -, hcases⟩
  · rw [hlonger]
    exact ⟨by omega, Nat.le_refl _, Nat.le_max_left _ _⟩
  · rw [hlonger]
    exact ⟨by omega, Nat.le_refl _, Nat.le_max_left _ _⟩
  · rcases hcases with ⟨wrap, children, hwrap, hchildren, hlonger, rfl⟩
      | ⟨hroom, rfl, ⟨wrap, hwrap, hlonger⟩ | ⟨negated, hlonger⟩⟩
    · -- The node that grows was counted before.
      refine ⟨?_, Nat.le_refl _, Nat.le_max_left _ _⟩
      simp only [hlonger, hchildren, QueryTree.operators_gather hwrap, total_append, total_cons,
        total_nil]
      omega
    · -- A new node is one operator more, and is counted as one.
      refine ⟨?_, by omega, by omega⟩
      simp only [hlonger, QueryTree.operators_gather hwrap, total_cons, total_nil]
      omega
    · refine ⟨?_, by omega, by omega⟩
      rw [hlonger, QueryTree.operators_near]
      omega

/-- Trees that are joined are beside each other, and so are their negations. -/
theorem Joined.negations {tree operand longer : QueryTree} (h : Joined tree operand longer) :
    longer.negations ≤ max tree.negations operand.negations := by
  have hmore : ∀ {wrap : List QueryTree → QueryTree} {children : List QueryTree},
      wrap = .and ∨ wrap = .or → tree = wrap children ∨ children = [tree] →
        (wrap (children ++ [operand])).negations ≤ max tree.negations operand.negations := by
    intro wrap children hwrap hchildren
    rw [QueryTree.negations_gather hwrap, QueryTree.negationsOfAll_le]
    refine List.forall_mem_append.mpr ⟨fun c hc => Nat.le_trans ?_ (Nat.le_max_left _ _),
      List.forall_mem_singleton.mpr (Nat.le_max_right _ _)⟩
    -- The children before the operand are those of the tree, or it is the only one.
    rcases hchildren with rfl | rfl
    · rw [QueryTree.negations_gather hwrap]
      exact QueryTree.negationsOfAll_le.mp (Nat.le_refl _) c hc
    · exact Nat.le_of_eq (congrArg QueryTree.negations (List.mem_singleton.mp hc))
  cases h with
  | dropped => exact Nat.le_max_left _ _
  | first => exact Nat.le_max_right _ _
  | and _ _ hchildren => exact hmore (.inl rfl) hchildren
  | or _ _ hchildren => exact hmore (.inr rfl) hchildren
  | near negated => exact Nat.le_of_eq (by rw [QueryTree.negations])

/-- All operators and negations of a tree that is read are counted. -/
theorem kept_counted : Kept lookup Counted where
  word h := by
    rcases leaf_of_wordLeaf h with rfl | ⟨leaf, rfl, -⟩
    · exact .leaf _ _ rfl (by rw [QueryTree.negations])
    · exact .leaf _ _ rfl (by rw [QueryTree.negations])
  wildcard h := by
    rcases leaf_of_wildcardLeaf h with ⟨leaf, rfl, -⟩
    exact .leaf _ _ rfl (by rw [QueryTree.negations])
  named h := ⟨h.operators, h.links, h.negations⟩
  -- A group makes the nesting deeper without a node of its own, so that less is left for negations.
  group hroom h := by
    have hinner : _ + (_ + 1) ≤ max (_ + 1) depthLimit := h.negations
    exact ⟨h.operators, h.links, by omega⟩
  not hroom h := by
    have hinner : _ + (_ + 1) ≤ max (_ + 1) depthLimit := h.negations
    refine ⟨by rw [QueryTree.operators_not]; exact h.operators, h.links, ?_⟩
    rw [QueryTree.negations]
    omega
  extend hchain hoperand h := by
    have hcount := extend_links h
    have hnegations := (extend_joined h).negations
    rcases hchain with ⟨hoperators, hlinks, hchain⟩
    rcases hoperand with ⟨hoperators', hlinks', hoperand⟩
    exact ⟨by omega, by omega, by omega⟩

end Parser

namespace QueryTree

section Spreading

variable {P : WordLeaf → Prop} {negated : Bool} {left right tree node : QueryTree}
  {children nodes : List QueryTree} {wrap : List QueryTree → QueryTree}

/-- Links that are joined are below each other at most. -/
theorem Link.joinWord_depth {w : WordLeaf} (hr : Link P right)
    (h : QueryTree.joinWord negated (.word w) right = .ok node) : node.depth ≤ right.depth + 1 := by
  cases hr with
  | word =>
    rcases Except.ok.inj h with rfl
    simp only [depth, Nat.max_self, Nat.le_refl]
  | near =>
    rcases Except.ok.inj h with rfl
    simp only [depth, depthOfAll, Nat.max_self, Nat.max_zero, Nat.le_refl]

theorem Link.join_depth (hl : Link P left) (hr : Link P right)
    (h : QueryTree.join negated left right = .ok node) : node.depth ≤ left.depth + right.depth := by
  cases hl with
  | word =>
    rw [depth, Nat.add_comm]
    exact hr.joinWord_depth h
  | near =>
    rcases exists_of_join_near h with ⟨link, hlink, rfl⟩
    have hdepth := hr.joinWord_depth hlink
    have hright : 1 ≤ right.depth := by cases hr <;> simp [depth]
    simp only [depth, depthOfAll]
    omega

/-- Operands that each become so much deeper. -/
theorem depth_gather_le {f : QueryTree → Except Error QueryTree} {k : Nat}
    (hwrap : wrap = .and ∨ wrap = .or) (h : collect (children.map f) = .ok nodes)
    (hf : ∀ c ∈ children, ∀ node, f c = .ok node → node.depth ≤ k + c.depth) :
    (wrap nodes).depth ≤ k + (wrap children).depth := by
  rw [depth_gather hwrap, depth_gather hwrap, ← Nat.add_assoc]
  refine Nat.succ_le_succ (depthOfAll_le.mpr fun node hnode => ?_)
  rcases (exists_of_collect h).2 node hnode with ⟨c, hc, heq⟩
  have hchild := depthOfAll_le.mp (Nat.le_refl _) c hc
  exact Nat.le_trans (hf c hc node heq) (Nat.add_le_add_left hchild k)

/-- Nearness of a link to a tree puts it below each leaf of the tree. -/
theorem Link.beside_depth (hl : Link P left) (hr : Spread P right)
    (h : QueryTree.beside negated left right = .ok node) :
    node.depth ≤ left.depth + right.depth := by
  induction hr generalizing node with
  | empty =>
    rcases Except.ok.inj h with rfl
    exact Nat.le_add_right _ _
  | word hw => exact hl.join_depth (.word hw) h
  | and _ _ ih =>
    rcases exists_of_beside (.inl rfl) h with ⟨nodes, hnodes, rfl⟩
    exact depth_gather_le (.inl rfl) hnodes fun c hc node => ih c hc
  | or _ ih =>
    rcases exists_of_beside (.inr rfl) h with ⟨nodes, hnodes, rfl⟩
    exact depth_gather_le (.inr rfl) hnodes fun c hc node => ih c hc
  | not => exact absurd h (by simp [QueryTree.beside])
  | near hfirst hlast => exact hl.join_depth (.near hfirst hlast) h

/-- Nearness of two trees has the shape of the one below that of the other. -/
theorem Spread.spreadOver_depth (hl : Spread P left) (hr : Spread P right)
    (h : QueryTree.spreadOver negated right left = .ok node) :
    node.depth ≤ right.depth + left.depth := by
  induction hl generalizing node with
  | empty =>
    -- There is nothing to be near to, and so the other tree stays as it is.
    rw [QueryTree.spreadOver] at h
    split at h
    · exact absurd h (by simp)
    · rcases Except.ok.inj h with rfl
      exact Nat.le_add_right _ _
  | word hw =>
    rw [Nat.add_comm]
    exact (Link.word hw).beside_depth hr h
  | and _ _ ih =>
    rcases exists_of_spreadOver (.inl rfl) h with rfl | ⟨nodes, hnodes, rfl⟩
    · exact Nat.le_add_left _ _
    · exact depth_gather_le (.inl rfl) hnodes fun c hc node => ih c hc
  | or _ ih =>
    rcases exists_of_spreadOver (.inr rfl) h with rfl | ⟨nodes, hnodes, rfl⟩
    · exact Nat.le_add_left _ _
    · exact depth_gather_le (.inr rfl) hnodes fun c hc node => ih c hc
  | not => exact absurd h (by simp [QueryTree.spreadOver])
  | near hfirst hlast =>
    rw [Nat.add_comm]
    exact (Link.near hfirst hlast).beside_depth hr h

/-- A part of a tree is no deeper than the tree. -/
theorem depth_conjuncts {part : QueryTree} (h : part ∈ tree.conjuncts) :
    part.depth ≤ tree.depth := by
  cases tree with
  | and children =>
    rw [depth]
    exact Nat.le_succ_of_le (depthOfAll_le.mp (Nat.le_refl _) part h)
  | empty => exact Nat.le_of_eq (congrArg depth (List.mem_singleton.mp h))
  | word => exact Nat.le_of_eq (congrArg depth (List.mem_singleton.mp h))
  | or => exact Nat.le_of_eq (congrArg depth (List.mem_singleton.mp h))
  | not => exact Nat.le_of_eq (congrArg depth (List.mem_singleton.mp h))
  | near => exact Nat.le_of_eq (congrArg depth (List.mem_singleton.mp h))

end Spreading

/-- A bound on the depth of a tree that was distributed. -/
def shallowness (tree : QueryTree) : Nat :=
  2 * tree.operators + tree.negations + 1

/-- A tree that grows by a level for each operator, if it is distributed, and if nearness of it to
    such a tree is. -/
structure Shallow (tree : QueryTree) : Prop where
  distribute : ∀ node, tree.distribute = .ok node → node.depth ≤ tree.shallowness
  connect : ∀ negated (right : QueryTree), right.Solid →
    (∀ node, right.distribute = .ok node → node.depth ≤ right.shallowness) →
      ∀ node, connect negated tree right = .ok node →
        node.depth ≤ 2 * (tree.operators + right.operators) + 2

/-- For a tree that is no chain the first is enough. -/
theorem Shallow.of_distribute {tree : QueryTree} (hsolid : tree.Solid)
    (h : ∀ n first last, tree ≠ .near n first last)
    (hd : ∀ node, tree.distribute = .ok node → node.depth ≤ tree.shallowness) : tree.Shallow := by
  refine ⟨hd, fun negated right hright hr node hnode => ?_⟩
  -- Nearness to a negation would have been refused, so that both trees have none.
  have hnots : ¬ (tree.HasNot ∨ right.HasNot) := fun hnot => by
    rw [(hsolid.settles.connect negated right hright hright.settles.distribute).refused hnot]
      at hnode
    exact absurd hnode (by simp)
  rw [not_or] at hnots
  have hleft' := negations_eq_zero tree hnots.1
  have hright' := negations_eq_zero right hnots.2
  rcases exists_of_connect h hnode with ⟨left, right', hleft, hafter, hspread⟩
  have hdepth := (hsolid.parsed.distribute hleft).spreadOver_depth
    (hright.parsed.distribute hafter) hspread
  have hdeep := hd left hleft
  have hdeep' := hr right' hafter
  rw [shallowness] at hdeep hdeep'
  omega

/-- A chain gets a node on top of its links, and the operator that it has more than either of
    them makes up for it. -/
theorem Shallow.near {n : Bool} {first last : QueryTree} (hlast : last.Solid) (hf : first.Shallow)
    (hl : last.Shallow) : (QueryTree.near n first last).Shallow := by
  have hlink : ∀ node, QueryTree.connect n first last = .ok node →
      node.depth ≤ 2 * (first.operators + last.operators) + 2 :=
    hf.connect n last hlast hl.distribute
  refine ⟨fun node hnode => ?_, fun negated right hright hr node hnode => ?_⟩
  · -- Alone, the chain is its last link; in front of another operand it is split.
    rw [QueryTree.distribute] at hnode
    have hdepth := hlink node hnode
    rw [shallowness, operators_near]
    omega
  · rcases exists_of_connect_near hnode with ⟨pair, before, hpair, hbefore, rfl⟩
    have hdepth := hlink before hbefore
    have hdepth' := hl.connect negated right hright hr pair hpair
    rw [depth, operators_near]
    -- Each part is one of a link that was there before, or of the new one.
    refine Nat.succ_le_succ (depthOfAll_le.mpr fun part hpart => ?_)
    rcases List.mem_append.mp hpart with hpart | hpart
    · have hle := depth_conjuncts hpart
      omega
    · have hle := depth_conjuncts hpart
      omega

/-- Spreading a tree adds a level for each of its operators at most. -/
theorem Solid.shallow {tree : QueryTree} (h : tree.Solid) : tree.Shallow := by
  have hgather : ∀ {wrap : List QueryTree → QueryTree} {children : List QueryTree},
      wrap = .and ∨ wrap = .or → (∀ c ∈ children, c.Shallow) →
        ∀ node, (distributeAll children).map wrap = .ok node →
          node.depth ≤ (wrap children).shallowness := by
    intro wrap children hwrap hall node hnode
    rw [distributeAll_eq] at hnode
    rcases exists_of_map hnode with ⟨nodes, hnodes, rfl⟩
    rw [depth_gather hwrap, shallowness, operators_gather hwrap, negations_gather hwrap]
    -- The deepest operand has no more operators than all of them, and the node has one more.
    refine Nat.succ_le_succ (depthOfAll_le.mpr fun node hnode => ?_)
    rcases (exists_of_collect hnodes).2 node hnode with ⟨c, hc, heq⟩
    have hchild := (hall c hc).distribute node heq
    have hoperators := operators_le_total hc
    have hnegations := negationsOfAll_le.mp (Nat.le_refl _) c hc
    rw [shallowness] at hchild
    omega
  induction h with
  | word w =>
    refine .of_distribute (.word w) (by simp) fun node hnode => ?_
    rw [QueryTree.distribute] at hnode
    rcases Except.ok.inj hnode with rfl
    rw [depth]
    exact Nat.le_add_left _ _
  | and hne hall ih =>
    refine .of_distribute (.and hne hall) (by simp) fun node hnode => ?_
    rw [QueryTree.distribute] at hnode
    exact hgather (.inl rfl) ih node hnode
  | or hne hall ih =>
    refine .of_distribute (.or hne hall) (by simp) fun node hnode => ?_
    rw [QueryTree.distribute] at hnode
    exact hgather (.inr rfl) ih node hnode
  | notEmpty =>
    refine .of_distribute .notEmpty (by simp) fun node hnode => ?_
    rw [QueryTree.distribute, QueryTree.distribute] at hnode
    rcases Except.ok.inj hnode with rfl
    simp only [depth, shallowness, negations]
    omega
  | not hchild ih =>
    refine .of_distribute (.not hchild) (by simp) fun node hnode => ?_
    rw [QueryTree.distribute] at hnode
    rcases exists_of_map hnode with ⟨child, hchild', rfl⟩
    have hdepth := ih.distribute child hchild'
    rw [shallowness] at hdepth
    rw [depth, shallowness, operators_not, negations]
    omega
  | near _ hlast ihf ihl => exact ihf.near hlast ihl

end QueryTree

namespace Parser

variable {lookup : Lookup}

/-- The counters of the parser bound the operators and negations of what it returns. -/
theorem parse_counted {tokens : List Token} {tree : QueryTree} {ignored : WordSet}
    (h : parse lookup tokens = .ok (tree, ignored)) :
    tree.operators ≤ depthLimit ∧ tree.negations ≤ depthLimit := by
  rcases parse_keeps kept_counted h with ⟨links, hoperators, hlinks, hnegations⟩
  have hnesting : ({} : Scope).nesting = 0 := rfl
  omega

/-- Distributing a tree that was read adds a level for each operator at most. -/
theorem parse_distribute_depth {tokens : List Token} {tree node : QueryTree} {ignored : WordSet}
    (h : parse lookup tokens = .ok (tree, ignored)) (hnode : tree.distribute = .ok node) :
    node.depth ≤ tree.shallowness := by
  rcases parse_keeps kept_solid h with ⟨-, rfl | hsolid⟩
  · rw [QueryTree.distribute] at hnode
    rcases Except.ok.inj hnode with rfl
    rw [QueryTree.depth]
    exact Nat.le_add_left _ _
  · exact hsolid.shallow.distribute node hnode

end Parser

end Concordance
