import Concordance.Proofs.Collect
import Concordance.Query.Proximity

/-!
# Spread Trees

What a tree looks like once every `near` has been brought down to words.

A tree that was read is told apart from a tree that was spread by its nearness alone: in
the first one it is between any operands, in the second one between words. In both of them
a conjunction has operands. Leaves come from the tree that was read, so that whatever
holds of all of its leaves is still true afterwards, and this is why both notions have a
property of leaves in them.

A chain is split into its links before its operands are spread, so `connect` goes down a
tree on another way than `distribute`, and comes back to it. `Spreads` says of a tree what
both of them need of it, and is proved by induction on the tree alone.

## Main definitions

* `QueryTree.Parsed`: A tree that was read.
* `QueryTree.Spread`: A tree with nearness between words only.
* `QueryTree.Spreads`: A tree that ends up spread on either way.

## Theorems

* `QueryTree.exists_of_connect_near`, `QueryTree.exists_of_connect`: What nearness that could be
  spread is made of.
* `QueryTree.Spread.beside`, `QueryTree.Spread.spreadOver`: Spreading keeps trees spread.
* `QueryTree.Parsed.distribute`: A tree that was read is spread.
-/

namespace Concordance

namespace QueryTree

variable (P : WordLeaf → Prop)

/-- A tree that was read: no conjunction is without operands. -/
inductive Parsed : QueryTree → Prop
  | empty : Parsed .empty
  | word {w : WordLeaf} (h : P w) : Parsed (.word w)
  | and {children : List QueryTree} (hne : children ≠ []) (h : ∀ c ∈ children, Parsed c) :
    Parsed (.and children)
  | or {children : List QueryTree} (h : ∀ c ∈ children, Parsed c) : Parsed (.or children)
  | not {child : QueryTree} (h : Parsed child) : Parsed (.not child)
  | near {negated : Bool} {left right : QueryTree} (hl : Parsed left) (hr : Parsed right) :
    Parsed (.near negated left right)

/-- A tree with nearness between words only. -/
inductive Spread : QueryTree → Prop
  | empty : Spread .empty
  | word {w : WordLeaf} (h : P w) : Spread (.word w)
  | and {children : List QueryTree} (hne : children ≠ []) (h : ∀ c ∈ children, Spread c) :
    Spread (.and children)
  | or {children : List QueryTree} (h : ∀ c ∈ children, Spread c) : Spread (.or children)
  | not {child : QueryTree} (h : Spread child) : Spread (.not child)
  | near {negated : Bool} {left right : WordLeaf} (hl : P left) (hr : P right) :
    Spread (.near negated (.word left) (.word right))

/-- A word, or two words that are near. -/
inductive Link : QueryTree → Prop
  | word {w : WordLeaf} (h : P w) : Link (.word w)
  | near {negated : Bool} {left right : WordLeaf} (hl : P left) (hr : P right) :
    Link (.near negated (.word left) (.word right))

variable {P}

theorem Link.spread {tree : QueryTree} (h : Link P tree) : Spread P tree := by
  cases h with
  | word h => exact .word h
  | near hl hr => exact .near hl hr

/-- A conjunction of two trees is spread if they are. -/
theorem Spread.pair {left right : QueryTree} (hl : Spread P left) (hr : Spread P right) :
    Spread P (.and [left, right]) := by
  refine .and (List.cons_ne_nil _ _) fun c hc => ?_
  rcases List.mem_cons.mp hc with rfl | hc
  · exact hl
  · rw [List.mem_singleton.mp hc]
    exact hr

section Links

variable {negated : Bool} {left right tree : QueryTree}

theorem Link.joinWord {w : WordLeaf} (hw : P w) (hr : Link P right)
    (h : joinWord negated (.word w) right = .ok tree) : Spread P tree := by
  cases hr with
  | word h' =>
    rcases Except.ok.inj h with rfl
    exact .near hw h'
  | near hl hr =>
    rcases Except.ok.inj h with rfl
    exact .pair (.near hw hl) (.near hl hr)

/-- A link of two words is kept, and the new link begins at the word that it ends with. -/
theorem exists_of_join_near {n : Bool} {first last : WordLeaf}
    (h : join negated (.near n (.word first) (.word last)) right = .ok tree) :
    ∃ link, joinWord negated (.word last) right = .ok link
      ∧ .and [.near n (.word first) (.word last), link] = tree := by
  have hlast : QueryTree.lastWord (.near n (.word first) (.word last)) = .ok (.word last) := rfl
  rw [QueryTree.join] at h
  simp only [hlast] at h
  rcases hlink : QueryTree.joinWord negated (.word last) right with e | link
  · simp only [hlink, reduceCtorEq] at h
  · simp only [hlink] at h
    exact ⟨link, rfl, Except.ok.inj h⟩

/-- Links are joined at the words that they meet with. -/
theorem Link.join (hl : Link P left) (hr : Link P right)
    (h : join negated left right = .ok tree) : Spread P tree := by
  cases hl with
  | word hw => exact Link.joinWord hw hr h
  | near hfirst hlast =>
    rcases exists_of_join_near h with ⟨link, hlink, rfl⟩
    exact .pair (.near hfirst hlast) (Link.joinWord hlast hr hlink)

end Links

theorem besideAll_eq (negated : Bool) (left : QueryTree) (children : List QueryTree) :
    besideAll negated left children = collect (children.map (beside negated left)) := by
  induction children with
  | nil => rfl
  | cons child rest ih =>
    rw [besideAll, List.map_cons, ih]
    rcases beside negated left child with e | node <;> rfl

theorem spreadOverAll_eq (negated : Bool) (right : QueryTree) (children : List QueryTree) :
    spreadOverAll negated right children = collect (children.map (spreadOver negated right)) := by
  induction children with
  | nil => rfl
  | cons child rest ih =>
    rw [spreadOverAll, List.map_cons, ih]
    rcases spreadOver negated right child with e | node <;> rfl

theorem distributeAll_eq (children : List QueryTree) :
    distributeAll children = collect (children.map distribute) := by
  induction children with
  | nil => rw [distributeAll]; rfl
  | cons child rest ih =>
    rw [distributeAll, List.map_cons, ih]
    rcases child.distribute with e | node <;> rfl

section Operands

variable {negated : Bool} {left right tree : QueryTree} {children : List QueryTree}
  {wrap : List QueryTree → QueryTree}

/-- Nearness of a link to several operands is nearness of it to each of them. -/
theorem exists_of_beside (hwrap : wrap = .and ∨ wrap = .or)
    (h : beside negated left (wrap children) = .ok tree) :
    ∃ nodes, collect (children.map (beside negated left)) = .ok nodes ∧ wrap nodes = tree := by
  rw [← besideAll_eq]
  rcases hwrap with rfl | rfl <;> exact exists_of_map h

/-- So is nearness of several operands, unless there is nothing that they could be near to. -/
theorem exists_of_spreadOver (hwrap : wrap = .and ∨ wrap = .or)
    (h : spreadOver negated right (wrap children) = .ok tree) : wrap children = tree
      ∨ ∃ nodes, collect (children.map (spreadOver negated right)) = .ok nodes
        ∧ wrap nodes = tree := by
  have hcases : (if right.isNot then .error (.malformed .nearNot)
      else if right.isEmpty then .ok (wrap children)
      else (spreadOverAll negated right children).map wrap) = .ok tree := by
    rcases hwrap with rfl | rfl <;> exact h
  split at hcases
  · exact absurd hcases (by simp)
  · split at hcases
    · exact .inl (Except.ok.inj hcases)
    · rw [spreadOverAll_eq] at hcases
      exact .inr (exists_of_map hcases)

end Operands

/-- Operands that were all made of spread ones are spread. -/
theorem Spread.of_collect {f : QueryTree → Except Error QueryTree} {children nodes : List QueryTree}
    (h : collect (children.map f) = .ok nodes)
    (hf : ∀ c ∈ children, ∀ node, f c = .ok node → Spread P node) :
    (∀ node ∈ nodes, Spread P node) ∧ (children ≠ [] → nodes ≠ []) := by
  rcases exists_of_collect h with ⟨hlength, hmem⟩
  refine ⟨fun node hnode => ?_, fun hne hnil => hne ?_⟩
  · rcases hmem node hnode with ⟨c, hc, heq⟩
    exact hf c hc node heq
  · rw [hnil, List.length_nil] at hlength
    exact List.eq_nil_of_length_eq_zero hlength.symm

/-- Nearness of a link to a spread tree is spread. -/
theorem Spread.beside {negated : Bool} {left right tree : QueryTree} (hl : Link P left)
    (hr : Spread P right) (h : beside negated left right = .ok tree) : Spread P tree := by
  induction hr generalizing tree with
  | empty =>
    rcases Except.ok.inj h with rfl
    exact hl.spread
  | word hw => exact hl.join (.word hw) h
  | and hne _ ih =>
    rcases exists_of_beside (.inl rfl) h with ⟨nodes, hnodes, rfl⟩
    obtain ⟨hall, hsome⟩ := Spread.of_collect hnodes fun c hc node => ih c hc
    exact .and (hsome hne) hall
  | or _ ih =>
    rcases exists_of_beside (.inr rfl) h with ⟨nodes, hnodes, rfl⟩
    exact .or (Spread.of_collect hnodes fun c hc node => ih c hc).1
  | not => exact absurd h (by simp [QueryTree.beside])
  | near hfirst hlast => exact hl.join (.near hfirst hlast) h

/-- Nearness of spread trees is spread. -/
theorem Spread.spreadOver {negated : Bool} {left right tree : QueryTree} (hl : Spread P left)
    (hr : Spread P right) (h : spreadOver negated right left = .ok tree) : Spread P tree := by
  induction hl generalizing tree with
  | empty =>
    rw [QueryTree.spreadOver] at h
    split at h
    · exact absurd h (by simp)
    · rcases Except.ok.inj h with rfl
      exact hr
  | word hw => exact Spread.beside (.word hw) hr h
  | @and children hne hc ih =>
    -- Either the other tree is empty and nothing happens, or each child is spread over it.
    rcases exists_of_spreadOver (.inl rfl) h with rfl | ⟨nodes, hnodes, rfl⟩
    · exact .and hne hc
    · obtain ⟨hall, hsome⟩ := Spread.of_collect hnodes fun c hc node => ih c hc
      exact .and (hsome hne) hall
  | @or children hc ih =>
    rcases exists_of_spreadOver (.inr rfl) h with rfl | ⟨nodes, hnodes, rfl⟩
    · exact .or hc
    · exact .or (Spread.of_collect hnodes fun c hc node => ih c hc).1
  | not => exact absurd h (by simp [QueryTree.spreadOver])
  | near hfirst hlast => exact Spread.beside (.near hfirst hlast) hr h

/-- The parts of a spread tree are spread. -/
theorem Spread.conjuncts {tree : QueryTree} (h : Spread P tree) :
    tree.conjuncts ≠ [] ∧ ∀ c ∈ tree.conjuncts, Spread P c := by
  have hself : ∀ node : QueryTree, Spread P node → [node] ≠ [] ∧ ∀ c ∈ [node], Spread P c :=
    fun node hnode => ⟨List.cons_ne_nil _ _, List.forall_mem_singleton.mpr hnode⟩
  cases h with
  | empty => exact hself _ .empty
  | word hw => exact hself _ (.word hw)
  | and hne h => exact ⟨hne, h⟩
  | or h => exact hself _ (.or h)
  | not h => exact hself _ (.not h)
  | near hl hr => exact hself _ (.near hl hr)

/-- A `near` is split into its links where its left operand is one. -/
theorem connect_near (negated n : Bool) (first last right : QueryTree) :
    connect negated (.near n first last) right
      = match connect negated last right with
        | .error e => .error e
        | .ok pair =>
          match connect n first last with
          | .error e => .error e
          | .ok before => .ok (.and (before.conjuncts ++ pair.conjuncts)) :=
  connect.eq_1 ..

/-- Else it spreads over its operands. -/
theorem connect_eq {negated : Bool} {left right : QueryTree}
    (h : ∀ n first last, left ≠ .near n first last) :
    connect negated left right
      = match left.distribute with
        | .error e => .error e
        | .ok left =>
          match right.distribute with
          | .error e => .error e
          | .ok right => spreadOver negated right left :=
  connect.eq_2 negated left right h

/-- A chain that could be spread has its links, each spread by itself, as parts. -/
theorem exists_of_connect_near {negated n : Bool} {first last right node : QueryTree}
    (h : connect negated (.near n first last) right = .ok node) :
    ∃ pair before, connect negated last right = .ok pair ∧ connect n first last = .ok before
      ∧ .and (before.conjuncts ++ pair.conjuncts) = node := by
  rw [connect_near] at h
  rcases hpair : connect negated last right with e | pair
  · simp only [hpair, reduceCtorEq] at h
  · rcases hbefore : connect n first last with e | before
    · simp only [hpair, hbefore, reduceCtorEq] at h
    · simp only [hpair, hbefore] at h
      exact ⟨pair, before, rfl, rfl, Except.ok.inj h⟩

/-- Otherwise both operands could be spread, and then nearness of them. -/
theorem exists_of_connect {negated : Bool} {left right node : QueryTree}
    (hne : ∀ n first last, left ≠ .near n first last)
    (h : connect negated left right = .ok node) :
    ∃ left' right', left.distribute = .ok left' ∧ right.distribute = .ok right'
      ∧ spreadOver negated right' left' = .ok node := by
  rw [connect_eq hne] at h
  rcases hleft : left.distribute with e | left'
  · simp only [hleft, reduceCtorEq] at h
  · rcases hright : right.distribute with e | right'
    · simp only [hleft, hright, reduceCtorEq] at h
    · simp only [hleft, hright] at h
      exact ⟨left', right', rfl, rfl, h⟩

/-- Nearness of two words is as it should be. -/
theorem distribute_words (negated : Bool) (left right : WordLeaf) :
    (near negated (.word left) (.word right)).distribute
      = .ok (.near negated (.word left) (.word right)) := by
  rw [QueryTree.distribute, connect_eq (by intro _ _ _ h; cases h), QueryTree.distribute,
    QueryTree.distribute]
  rfl

/-- The operands of a conjunction are those of two. -/
theorem Spread.append {left right : QueryTree} (hl : Spread P left) (hr : Spread P right) :
    Spread P (.and (left.conjuncts ++ right.conjuncts)) := by
  rcases hl.conjuncts with ⟨hne, hleft⟩
  refine .and (List.append_ne_nil_of_left_ne_nil hne _) fun c hc => ?_
  rcases List.mem_append.mp hc with hc | hc
  · exact hleft c hc
  · exact hr.conjuncts.2 c hc

/-- A tree that is spread if it can be distributed, and nearness of it to such a tree. -/
structure Spreads (P : WordLeaf → Prop) (tree : QueryTree) : Prop where
  distribute : ∀ node, tree.distribute = .ok node → Spread P node
  connect : ∀ negated right, (∀ node, right.distribute = .ok node → Spread P node) →
    ∀ node, connect negated tree right = .ok node → Spread P node

/-- For a tree that is no chain the first is enough. -/
theorem Spreads.of_distribute {tree : QueryTree} (h : ∀ n first last, tree ≠ .near n first last)
    (hd : ∀ node, tree.distribute = .ok node → Spread P node) : Spreads P tree := by
  refine ⟨hd, fun negated right hr node hnode => ?_⟩
  rcases exists_of_connect h hnode with ⟨left', right', hleft, hright, hspread⟩
  exact (hd left' hleft).spreadOver (hr right' hright) hspread

/-- A chain is spread if its operands are. The first link is spread on the way down, and
    again on the way back. -/
theorem Spreads.near {n : Bool} {first last : QueryTree} (hf : Spreads P first)
    (hl : Spreads P last) : Spreads P (.near n first last) := by
  have hlink : ∀ node, QueryTree.connect n first last = .ok node → Spread P node :=
    hf.connect n last hl.distribute
  refine ⟨fun node hnode => ?_, fun negated right hr node hnode => ?_⟩
  · rw [QueryTree.distribute] at hnode
    exact hlink node hnode
  · rcases exists_of_connect_near hnode with ⟨pair, before, hpair, hbefore, rfl⟩
    exact (hlink before hbefore).append (hl.connect negated right hr pair hpair)

/-- A tree that was read spreads. -/
theorem Parsed.spreads {tree : QueryTree} (h : Parsed P tree) : Spreads P tree := by
  induction h with
  | empty =>
    refine .of_distribute (by simp) fun node hnode => ?_
    rw [QueryTree.distribute] at hnode
    rcases Except.ok.inj hnode with rfl
    exact .empty
  | word hw =>
    refine .of_distribute (by simp) fun node hnode => ?_
    rw [QueryTree.distribute] at hnode
    rcases Except.ok.inj hnode with rfl
    exact .word hw
  | and hne _ ih =>
    refine .of_distribute (by simp) fun node hnode => ?_
    rw [QueryTree.distribute, distributeAll_eq] at hnode
    rcases exists_of_map hnode with ⟨nodes, hnodes, rfl⟩
    -- The operands of a conjunction are spread one by one, and there are as many.
    obtain ⟨hall, hsome⟩ := Spread.of_collect hnodes fun c hc => (ih c hc).distribute
    exact .and (hsome hne) hall
  | or _ ih =>
    refine .of_distribute (by simp) fun node hnode => ?_
    rw [QueryTree.distribute, distributeAll_eq] at hnode
    rcases exists_of_map hnode with ⟨nodes, hnodes, rfl⟩
    exact .or (Spread.of_collect hnodes fun c hc => (ih c hc).distribute).1
  | not _ ih =>
    refine .of_distribute (by simp) fun node hnode => ?_
    rw [QueryTree.distribute] at hnode
    rcases exists_of_map hnode with ⟨child, hchild, rfl⟩
    exact .not (ih.distribute child hchild)
  | near _ _ ihf ihl => exact ihf.near ihl

/-- A tree that was read is spread. -/
theorem Parsed.distribute {tree node : QueryTree} (h : Parsed P tree)
    (hnode : tree.distribute = .ok node) : Spread P node :=
  h.spreads.distribute node hnode

end QueryTree

end Concordance
