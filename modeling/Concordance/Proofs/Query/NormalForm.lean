import Concordance.Proofs.Query.Parsing
import Mathlib.Tactic.Choose

/-!
# Which Queries Can Be Spread

Spreading refuses a query for one reason, and it never misses it.

A negation has no positions, so nearness to it means nothing. It may stand anywhere below a
`near`: in a group, in a chain inside a group, or in an operand that is spread twice because
a chain is split there. That it is found in every case is not plain, because spreading stops
where it meets nothing: an empty operand lets the other one through as it is, and over no
alternatives at all there is nothing to go wrong. The parser returns no such trees. What it
does return is `Solid`, and of a solid tree spreading misses no part.

Both ways down a tree are followed at once again, as they are for `Spreads`. What is new is
that they are told when they fail, and so they are told together: `Settled` says of a
computation that it fails on a condition, and has a tree with a property if that does not
hold.

## Main definitions

* `QueryTree.subtrees`: All nodes of a tree.
* `QueryTree.HasNot`, `QueryTree.NearNot`: A negation in a tree, and one below nearness.
* `QueryTree.Solid`: A tree in which every operand says something.
* `QueryTree.Settled`: A computation that fails just on a condition.
* `QueryTree.Settles`: A tree for which both ways of spreading are settled.

## Theorems

* `QueryTree.Settled.gather`: Operands that are settled one by one.
* `QueryTree.Solid.spreadOver_settled`: Nearness of spread trees fails on any negation.
* `QueryTree.Solid.settles`: Spreading fails just where there is a negation below nearness.
-/

namespace Concordance

namespace QueryTree

mutual

/-- All nodes of a tree, each with what is below it. -/
def subtrees : QueryTree → List QueryTree
  | .empty => [.empty]
  | .word w => [.word w]
  | .and children => .and children :: subtreesOfAll children
  | .or children => .or children :: subtreesOfAll children
  | .not child => .not child :: child.subtrees
  | .near negated left right => .near negated left right :: (left.subtrees ++ right.subtrees)

/-- All nodes of several trees. -/
def subtreesOfAll : List QueryTree → List QueryTree
  | [] => []
  | child :: rest => child.subtrees ++ subtreesOfAll rest

end

section Members

variable {node child left right : QueryTree} {children : List QueryTree}

theorem mem_subtreesOfAll : node ∈ subtreesOfAll children ↔ ∃ c ∈ children, node ∈ c.subtrees := by
  induction children with
  | nil =>
    simp only [List.not_mem_nil, false_and, exists_false, iff_false]
    exact List.not_mem_nil
  | cons child children ih =>
    simp only [List.mem_cons, exists_eq_or_imp, ← ih]
    exact List.mem_append

theorem mem_subtrees_empty : node ∈ subtrees .empty ↔ node = .empty :=
  List.mem_singleton

theorem mem_subtrees_word {w : WordLeaf} : node ∈ subtrees (.word w) ↔ node = .word w :=
  List.mem_singleton

theorem mem_subtrees_gather {wrap : List QueryTree → QueryTree} (h : wrap = .and ∨ wrap = .or) :
    node ∈ subtrees (wrap children) ↔ node = wrap children ∨ node ∈ subtreesOfAll children := by
  rcases h with rfl | rfl
  · exact List.mem_cons
  · exact List.mem_cons

theorem mem_subtrees_not :
    node ∈ subtrees (.not child) ↔ node = .not child ∨ node ∈ child.subtrees :=
  List.mem_cons

theorem mem_subtrees_near {negated : Bool} : node ∈ subtrees (.near negated left right)
    ↔ node = .near negated left right ∨ node ∈ left.subtrees ∨ node ∈ right.subtrees :=
  List.mem_cons.trans (or_congr_right List.mem_append)

/-- A tree is one of its nodes. -/
theorem self_mem_subtrees (tree : QueryTree) : tree ∈ tree.subtrees := by
  cases tree <;> exact List.mem_cons_self

end Members

/-- There is a negation in the tree. -/
def HasNot (tree : QueryTree) : Prop :=
  ∃ child, .not child ∈ tree.subtrees

/-- There is nearness in the tree, with a negation anywhere below it. -/
def NearNot (tree : QueryTree) : Prop :=
  ∃ negated left right, .near negated left right ∈ tree.subtrees ∧ (left.HasNot ∨ right.HasNot)

section Nodes

variable {negated : Bool} {w : WordLeaf} {tree left right child : QueryTree}
  {children : List QueryTree} {wrap : List QueryTree → QueryTree}

theorem not_hasNot_word : ¬ HasNot (.word w) := by
  simp [HasNot, mem_subtrees_word]

theorem hasNot_not : HasNot (.not child) :=
  ⟨child, self_mem_subtrees _⟩

theorem hasNot_near : HasNot (.near negated left right) ↔ HasNot left ∨ HasNot right := by
  simp only [HasNot, mem_subtrees_near, reduceCtorEq, false_or, exists_or]

/-- A conjunction or disjunction has the negations of its operands. -/
theorem hasNot_gather (h : wrap = .and ∨ wrap = .or) :
    HasNot (wrap children) ↔ ∃ c ∈ children, HasNot c := by
  have hmem : ∀ child, .not child ∈ subtrees (wrap children)
      ↔ ∃ c ∈ children, .not child ∈ c.subtrees := fun child => by
    rw [mem_subtrees_gather h, mem_subtreesOfAll, or_iff_right]
    rcases h with rfl | rfl <;> simp
  constructor
  · rintro ⟨child, hchild⟩
    rcases (hmem child).mp hchild with ⟨c, hc, hin⟩
    exact ⟨c, hc, child, hin⟩
  · rintro ⟨c, hc, child, hin⟩
    exact ⟨child, (hmem child).mpr ⟨c, hc, hin⟩⟩

theorem not_nearNot_empty : ¬ NearNot .empty := by
  simp [NearNot, mem_subtrees_empty]

theorem not_nearNot_word : ¬ NearNot (.word w) := by
  simp [NearNot, mem_subtrees_word]

theorem nearNot_not : NearNot (.not child) ↔ NearNot child := by
  simp only [NearNot, mem_subtrees_not, reduceCtorEq, false_or]

/-- A conjunction or disjunction has the nearness of its operands. -/
theorem nearNot_gather (h : wrap = .and ∨ wrap = .or) :
    NearNot (wrap children) ↔ ∃ c ∈ children, NearNot c := by
  have hmem : ∀ negated left right, .near negated left right ∈ subtrees (wrap children)
      ↔ ∃ c ∈ children, .near negated left right ∈ c.subtrees := fun negated left right => by
    rw [mem_subtrees_gather h, mem_subtreesOfAll, or_iff_right]
    rcases h with rfl | rfl <;> simp
  constructor
  · rintro ⟨negated, left, right, hnear, hnot⟩
    rcases (hmem negated left right).mp hnear with ⟨c, hc, hin⟩
    exact ⟨c, hc, negated, left, right, hin, hnot⟩
  · rintro ⟨c, hc, negated, left, right, hin, hnot⟩
    exact ⟨negated, left, right, (hmem negated left right).mpr ⟨c, hc, hin⟩, hnot⟩

mutual

/-- What is below a node of a tree is below the tree. -/
theorem subtrees_trans {node below : QueryTree} :
    ∀ tree : QueryTree, node ∈ tree.subtrees → below ∈ node.subtrees → below ∈ tree.subtrees
  | .empty, h, hbelow => by
    rwa [mem_subtrees_empty.mp h] at hbelow
  | .word w, h, hbelow => by
    rwa [mem_subtrees_word.mp h] at hbelow
  | .and children, h, hbelow => by
    rcases (mem_subtrees_gather (.inl rfl)).mp h with rfl | h
    · exact hbelow
    · exact (mem_subtrees_gather (.inl rfl)).mpr (.inr (subtreesOfAll_trans children h hbelow))
  | .or children, h, hbelow => by
    rcases (mem_subtrees_gather (.inr rfl)).mp h with rfl | h
    · exact hbelow
    · exact (mem_subtrees_gather (.inr rfl)).mpr (.inr (subtreesOfAll_trans children h hbelow))
  | .not child, h, hbelow => by
    rcases mem_subtrees_not.mp h with rfl | h
    · exact hbelow
    · exact mem_subtrees_not.mpr (.inr (subtrees_trans child h hbelow))
  | .near negated left right, h, hbelow => by
    -- The node is this one, or is on one of its sides.
    rcases mem_subtrees_near.mp h with rfl | h | h
    · exact hbelow
    · exact mem_subtrees_near.mpr (.inr (.inl (subtrees_trans left h hbelow)))
    · exact mem_subtrees_near.mpr (.inr (.inr (subtrees_trans right h hbelow)))

theorem subtreesOfAll_trans {node below : QueryTree} :
    ∀ children : List QueryTree, node ∈ subtreesOfAll children → below ∈ node.subtrees →
      below ∈ subtreesOfAll children
  | [], h, _ => absurd h List.not_mem_nil
  | child :: rest, h, hbelow => by
    rcases List.mem_append.mp h with h | h
    · exact List.mem_append_left _ (subtrees_trans child h hbelow)
    · exact List.mem_append_right _ (subtreesOfAll_trans rest h hbelow)

end

/-- A negation that is below some nearness of a tree is in the tree. -/
theorem NearNot.hasNot (h : tree.NearNot) : tree.HasNot := by
  rcases h with ⟨negated, left, right, hnear, hnot⟩
  rcases hasNot_near.mpr hnot with ⟨child, hchild⟩
  exact ⟨child, subtrees_trans tree hnear hchild⟩

/-- It is enough to look at the operands of the outermost nearness. -/
theorem nearNot_near : NearNot (.near negated left right) ↔ HasNot left ∨ HasNot right := by
  constructor
  · intro h
    exact hasNot_near.mp h.hasNot
  · intro h
    exact ⟨negated, left, right, self_mem_subtrees _, h⟩

end Nodes

/-- A tree in which every operand says something. A negation may be of nothing, since it is
    still a negation. -/
inductive Solid : QueryTree → Prop
  | word (w : WordLeaf) : Solid (.word w)
  | and {children : List QueryTree} (hne : children ≠ []) (h : ∀ c ∈ children, Solid c) :
    Solid (.and children)
  | or {children : List QueryTree} (hne : children ≠ []) (h : ∀ c ∈ children, Solid c) :
    Solid (.or children)
  | notEmpty : Solid (.not .empty)
  | not {child : QueryTree} (h : Solid child) : Solid (.not child)
  | near {negated : Bool} {left right : QueryTree} (hl : Solid left) (hr : Solid right) :
    Solid (.near negated left right)

/-- A computation that fails just on a condition, and if not has a solid tree. Whether that
    tree has a negation is told with it, for this is what the next computation may fail on. -/
structure Settled (refuses negates : Prop) (result : Except Error QueryTree) : Prop where
  refused : refuses → result = .error (.malformed .nearNot)
  done : ¬ refuses → ∃ node, result = .ok node ∧ node.Solid ∧ (node.HasNot ↔ negates)

section Settling

variable {P : WordLeaf → Prop} {negated : Bool} {tree left right : QueryTree}
  {children : List QueryTree} {wrap : List QueryTree → QueryTree}

theorem Solid.isEmpty (h : tree.Solid) : tree.isEmpty = false := by
  cases h <;> rfl

theorem Solid.gather (h : wrap = .and ∨ wrap = .or) (hne : children ≠ [])
    (hall : ∀ c ∈ children, c.Solid) : (wrap children).Solid := by
  rcases h with rfl | rfl
  · exact .and hne hall
  · exact .or hne hall

/-- A solid tree is one that was read. -/
theorem Solid.parsed (h : tree.Solid) : tree.Parsed fun _ => True := by
  induction h with
  | word w => exact .word trivial
  | and hne _ ih => exact .and hne ih
  | or _ _ ih => exact .or ih
  | notEmpty => exact .not .empty
  | not _ ih => exact .not ih
  | near _ _ ihl ihr => exact .near ihl ihr

theorem Settled.of_iff {refuses refuses' negates negates' : Prop} {result : Except Error QueryTree}
    (h : Settled refuses negates result) (hrefuses : refuses' ↔ refuses)
    (hnegates : negates' ↔ negates) : Settled refuses' negates' result := by
  rw [propext hrefuses, propext hnegates]
  exact h

/-- Nothing can go wrong with a solid tree that is there already. -/
theorem Solid.settled (h : tree.Solid) : Settled False tree.HasNot (.ok tree) :=
  ⟨False.elim, fun _ => ⟨tree, rfl, h, Iff.rfl⟩⟩

/-- Operands of which each is settled make a conjunction or disjunction that is. -/
theorem Settled.gather {refuses negates : QueryTree → Prop}
    {f : QueryTree → Except Error QueryTree} (h : wrap = .and ∨ wrap = .or) (hne : children ≠ [])
    (hall : ∀ c ∈ children, Settled (refuses c) (negates c) (f c)) :
    Settled (∃ c ∈ children, refuses c) (∃ c ∈ children, negates c)
      ((collect (children.map f)).map wrap) := by
  constructor
  · rintro ⟨c, hc, hrefuses⟩
    have hmem : .error (.malformed .nearNot) ∈ children.map f :=
      List.mem_map.mpr ⟨c, hc, (hall c hc).refused hrefuses⟩
    -- All operands that fail do so alike, so it is not asked which of them is the first.
    rw [collect_error_of_mem hmem fun e he => ?_]
    · rfl
    · rcases List.mem_map.mp he with ⟨other, hother, hfails⟩
      by_cases hr : refuses other
      · rw [(hall other hother).refused hr] at hfails
        exact (Except.error.inj hfails).symm
      · rcases (hall other hother).done hr with ⟨node, hnode, -⟩
        exact absurd (hfails.symm.trans hnode) (by simp)
  · intro hnone
    have hdone : ∀ c, ∃ node, c ∈ children →
        f c = .ok node ∧ node.Solid ∧ (node.HasNot ↔ negates c) := fun c => by
      by_cases hc : c ∈ children
      · rcases (hall c hc).done fun hr => hnone ⟨c, hc, hr⟩ with ⟨node, hnode⟩
        exact ⟨node, fun _ => hnode⟩
      · exact ⟨.empty, fun h => absurd h hc⟩
    choose g hg using hdone
    rw [collect_map_eq fun c hc => (hg c hc).1]
    -- If none fails, then each has a tree, and these are the operands of what comes of it.
    refine ⟨wrap (children.map g), rfl,
      Solid.gather h (by simpa using hne) fun node hnode => ?_, ?_⟩
    · rcases List.mem_map.mp hnode with ⟨c, hc, rfl⟩
      exact (hg c hc).2.1
    · rw [hasNot_gather h]
      constructor
      · rintro ⟨node, hnode, hnot⟩
        rcases List.mem_map.mp hnode with ⟨c, hc, rfl⟩
        exact ⟨c, hc, (hg c hc).2.2.mp hnot⟩
      · rintro ⟨c, hc, hnegates⟩
        exact ⟨g c, List.mem_map_of_mem hc, (hg c hc).2.2.mpr hnegates⟩

/-- A word or two near words say something, and there is no negation in them. -/
theorem Link.solid (h : Link P tree) : tree.Solid ∧ ¬ tree.HasNot := by
  cases h with
  | word => exact ⟨.word _, not_hasNot_word⟩
  | near =>
    exact ⟨.near (.word _) (.word _),
      fun h => (hasNot_near.mp h).elim not_hasNot_word not_hasNot_word⟩

/-- So does a conjunction of two such trees. -/
theorem Solid.pair (hl : left.Solid ∧ ¬ left.HasNot) (hr : right.Solid ∧ ¬ right.HasNot) :
    (QueryTree.and [left, right]).Solid ∧ ¬ (QueryTree.and [left, right]).HasNot := by
  refine ⟨.and (List.cons_ne_nil _ _) (by simpa using ⟨hl.1, hr.1⟩), ?_⟩
  rw [hasNot_gather (.inl rfl)]
  simpa using ⟨hl.2, hr.2⟩

theorem Link.joinWord_solid (hr : Link P right) (negated : Bool) (w : WordLeaf) :
    ∃ node, QueryTree.joinWord negated (.word w) right = .ok node ∧ node.Solid ∧ ¬ node.HasNot := by
  cases hr with
  | @word v hv => exact ⟨_, rfl, (Link.near (P := fun _ => True) trivial trivial).solid⟩
  | near hl hr =>
    exact ⟨_, rfl, Solid.pair (Link.near (P := fun _ => True) trivial trivial).solid
      (Link.near hl hr).solid⟩

/-- Links can be joined, and there is no negation in what comes of it. -/
theorem Link.join_solid (hl : Link P left) (hr : Link P right) (negated : Bool) :
    ∃ node, QueryTree.join negated left right = .ok node ∧ node.Solid ∧ ¬ node.HasNot := by
  cases hl with
  | @word w hw => exact hr.joinWord_solid negated w
  | @near n first last hfirst hlast =>
    rcases hr.joinWord_solid negated last with ⟨link, hlink, hsolid⟩
    refine ⟨.and [.near n (.word first) (.word last), link], ?_,
      Solid.pair (Link.near hfirst hlast).solid hsolid⟩
    rw [QueryTree.join]
    simp only [QueryTree.lastWord, hlink]

/-- Nearness of a link to a spread tree fails where that tree has a negation. -/
theorem Link.beside_settled (hl : Link P left) (hr : right.Solid) (hspread : right.Spread P) :
    Settled right.HasNot False (QueryTree.beside negated left right) := by
  -- At a leaf two links meet, which can always be joined.
  have hjoin : ∀ {right}, Link P right → ¬ right.HasNot →
      Settled right.HasNot False (QueryTree.join negated left right) := by
    intro right hright hnot
    rcases hl.join_solid hright negated with ⟨node, hnode, hsolid, hnode'⟩
    exact ⟨fun h => absurd h hnot, fun _ => ⟨node, hnode, hsolid, iff_false_intro hnode'⟩⟩
  induction hr with
  | word w =>
    cases hspread with
    | word hw => exact hjoin (.word hw) not_hasNot_word
  | and hne _ ih =>
    cases hspread with
    | and _ hall =>
      rw [QueryTree.beside, besideAll_eq]
      exact (Settled.gather (.inl rfl) hne fun c hc => ih c hc (hall c hc)).of_iff
        (hasNot_gather (.inl rfl)) (by simp)
  | or hne _ ih =>
    cases hspread with
    | or hall =>
      rw [QueryTree.beside, besideAll_eq]
      exact (Settled.gather (.inr rfl) hne fun c hc => ih c hc (hall c hc)).of_iff
        (hasNot_gather (.inr rfl)) (by simp)
  | notEmpty => exact ⟨fun _ => by rw [QueryTree.beside], fun h => absurd hasNot_not h⟩
  | not => exact ⟨fun _ => by rw [QueryTree.beside], fun h => absurd hasNot_not h⟩
  | near =>
    cases hspread with
    | near hfirst hlast => exact hjoin (.near hfirst hlast) (Link.near hfirst hlast).solid.2

/-- Nearness of spread trees fails where one of them has a negation. -/
theorem Solid.spreadOver_settled (hl : left.Solid) (hleft : left.Spread P) (hr : right.Solid)
    (hright : right.Spread P) :
    Settled (left.HasNot ∨ right.HasNot) False (spreadOver negated right left) := by
  have hlink : ∀ {left}, Link P left → ¬ left.HasNot →
      Settled (left.HasNot ∨ right.HasNot) False (QueryTree.beside negated left right) := by
    intro left hleft hnot
    exact (hleft.beside_settled hr hright).of_iff (or_iff_right hnot) Iff.rfl
  -- Over several operands: a negation on the right is met before the first of them is.
  have hgather : ∀ {wrap : List QueryTree → QueryTree} {children}, wrap = .and ∨ wrap = .or →
      children ≠ [] → (∀ c ∈ children,
        Settled (c.HasNot ∨ right.HasNot) False (spreadOver negated right c)) →
      Settled ((wrap children).HasNot ∨ right.HasNot) False
        (if right.isNot then .error (.malformed .nearNot)
          else if right.isEmpty then .ok (wrap children)
          else (spreadOverAll negated right children).map wrap) := by
    intro wrap children h hne hall
    by_cases hisNot : right.isNot
    · rw [if_pos hisNot]
      have hnot : right.HasNot := by
        cases hr <;> first | exact hasNot_not | exact absurd hisNot (by simp [isNot])
      exact ⟨fun _ => rfl, fun h => absurd (.inr hnot) h⟩
    · rw [if_neg hisNot, hr.isEmpty, if_neg Bool.false_ne_true, spreadOverAll_eq]
      refine (Settled.gather h hne hall).of_iff ?_ (by simp)
      rw [hasNot_gather h]
      constructor
      · rintro (⟨c, hc, hnot⟩ | hnot)
        · exact ⟨c, hc, .inl hnot⟩
        · rcases List.exists_mem_of_ne_nil children hne with ⟨c, hc⟩
          exact ⟨c, hc, .inr hnot⟩
      · rintro ⟨c, hc, hnot | hnot⟩
        · exact .inl ⟨c, hc, hnot⟩
        · exact .inr hnot
  induction hl with
  | word w =>
    cases hleft with
    | word hw => exact hlink (.word hw) not_hasNot_word
  | and hne _ ih =>
    cases hleft with
    | and _ hall => exact hgather (.inl rfl) hne fun c hc => ih c hc (hall c hc)
  | or hne _ ih =>
    cases hleft with
    | or hall => exact hgather (.inr rfl) hne fun c hc => ih c hc (hall c hc)
  | notEmpty => exact ⟨fun _ => by rw [QueryTree.spreadOver], fun h => absurd (.inl hasNot_not) h⟩
  | not => exact ⟨fun _ => by rw [QueryTree.spreadOver], fun h => absurd (.inl hasNot_not) h⟩
  | near =>
    cases hleft with
    | near hfirst hlast => exact hlink (.near hfirst hlast) (Link.near hfirst hlast).solid.2

end Settling

/-- A tree for which both ways of spreading are settled: `distribute` on the negations below
nearness, and `connect`, which is nearness itself, on any negation. -/
structure Settles (tree : QueryTree) : Prop where
  distribute : Settled tree.NearNot tree.HasNot tree.distribute
  connect : ∀ negated (right : QueryTree), right.Solid →
    Settled right.NearNot right.HasNot right.distribute →
      Settled (tree.HasNot ∨ right.HasNot) False (connect negated tree right)

/-- For a tree that is no chain the first is enough. -/
theorem Settles.of_distribute {tree : QueryTree} (hsolid : tree.Solid)
    (h : ∀ n first last, tree ≠ .near n first last)
    (hd : Settled tree.NearNot tree.HasNot tree.distribute) : tree.Settles := by
  refine ⟨hd, fun negated right hright hr => ?_⟩
  rw [connect_eq h]
  -- What can not be spread by itself has a negation, and so nearness to it has to fail too.
  by_cases hleft : tree.NearNot
  · rw [hd.refused hleft]
    exact ⟨fun _ => rfl, fun hnot => absurd (.inl hleft.hasNot) hnot⟩
  · rcases hd.done hleft with ⟨left', hleft', hsolid', hnot'⟩
    by_cases hright' : right.NearNot
    · rw [hleft', hr.refused hright']
      exact ⟨fun _ => rfl, fun hnot => absurd (.inr hright'.hasNot) hnot⟩
    · rcases hr.done hright' with ⟨right', hright', hsolid'', hnot''⟩
      rw [hleft', hright']
      exact (hsolid'.spreadOver_settled (hsolid.parsed.distribute hleft') hsolid''
        (hright.parsed.distribute hright')).of_iff (or_congr hnot'.symm hnot''.symm) Iff.rfl

/-- The parts of a solid tree are solid, and have its negations. -/
theorem Solid.conjuncts {tree : QueryTree} (h : tree.Solid) :
    tree.conjuncts ≠ [] ∧ (∀ c ∈ tree.conjuncts, c.Solid)
      ∧ (tree.HasNot ↔ ∃ c ∈ tree.conjuncts, c.HasNot) := by
  have hself : ∀ node : QueryTree, node.Solid → node.conjuncts = [node] →
      node.conjuncts ≠ [] ∧ (∀ c ∈ node.conjuncts, c.Solid)
        ∧ (node.HasNot ↔ ∃ c ∈ node.conjuncts, c.HasNot) := by
    intro node hnode heq
    rw [heq]
    exact ⟨List.cons_ne_nil _ _, by simpa using hnode, by simp⟩
  cases h with
  | and hne hall => exact ⟨hne, hall, hasNot_gather (.inl rfl)⟩
  | word w => exact hself _ (.word w) rfl
  | or hne hall => exact hself _ (.or hne hall) rfl
  | notEmpty => exact hself _ .notEmpty rfl
  | not h => exact hself _ (.not h) rfl
  | near hl hr => exact hself _ (.near hl hr) rfl

/-- A chain settles if its operands do. A negation in the one that its links share makes both
    of them fail. -/
theorem Settles.near {n : Bool} {first last : QueryTree} (hlast : last.Solid)
    (hf : first.Settles) (hl : last.Settles) : (QueryTree.near n first last).Settles := by
  have hlink := hf.connect n last hlast hl.distribute
  constructor
  · -- By itself a chain is its last link, joined to the links before it.
    rw [QueryTree.distribute]
    rcases hlink with ⟨hrefused, hdone⟩
    refine ⟨fun h => hrefused (nearNot_near.mp h), fun h => ?_⟩
    rcases hdone fun h' => h (nearNot_near.mpr h') with ⟨node, hnode, hsolid, hnot⟩
    refine ⟨node, hnode, hsolid, hnot.trans (iff_of_false not_false fun h' => h ?_)⟩
    exact nearNot_near.mpr (hasNot_near.mp h')
  · intro negated right hright hr
    rw [connect_near, hasNot_near]
    have hpair := hl.connect negated right hright hr
    by_cases hbad : last.HasNot ∨ right.HasNot
    · -- The new link is spread first, and it fails.
      rw [hpair.refused hbad]
      exact ⟨fun _ => rfl, fun hnot => absurd (hbad.imp_left .inr) hnot⟩
    · rcases hpair.done hbad with ⟨pair, hpair, hsolid, hnot⟩
      rw [hpair]
      by_cases hbad' : first.HasNot ∨ last.HasNot
      · -- It does not, but one of those before it does.
        rw [hlink.refused hbad']
        exact ⟨fun _ => rfl, fun hnot => absurd (.inl hbad') hnot⟩
      · rcases hlink.done hbad' with ⟨before, hbefore, hsolid', hnot'⟩
        rw [hbefore]
        refine ⟨fun h => absurd h ?_, fun _ => ⟨_, rfl, .and ?_ fun c hc => ?_, ?_⟩⟩
        · rintro (h | h)
          · exact hbad' h
          · exact hbad (.inr h)
        · exact List.append_ne_nil_of_left_ne_nil hsolid'.conjuncts.1 _
        · rcases List.mem_append.mp hc with hc | hc
          · exact hsolid'.conjuncts.2.1 c hc
          · exact hsolid.conjuncts.2.1 c hc
        · -- Neither link has a negation in it, and the parts are those of the links.
          rw [hasNot_gather (.inl rfl)]
          refine iff_of_false ?_ not_false
          rintro ⟨c, hc, hchild⟩
          rcases List.mem_append.mp hc with hc | hc
          · exact hnot'.mp (hsolid'.conjuncts.2.2.mpr ⟨c, hc, hchild⟩)
          · exact hnot.mp (hsolid.conjuncts.2.2.mpr ⟨c, hc, hchild⟩)

/-- Spreading a solid tree fails just where there is a negation below nearness. -/
theorem Solid.settles {tree : QueryTree} (h : tree.Solid) : tree.Settles := by
  induction h with
  | word w =>
    refine .of_distribute (.word w) (by simp) ?_
    rw [QueryTree.distribute]
    exact (Solid.word w).settled.of_iff (iff_of_false not_nearNot_word not_false) Iff.rfl
  | and hne hall ih =>
    refine .of_distribute (.and hne hall) (by simp) ?_
    rw [QueryTree.distribute, distributeAll_eq]
    exact (Settled.gather (.inl rfl) hne fun c hc => (ih c hc).distribute).of_iff
      (nearNot_gather (.inl rfl)) (hasNot_gather (.inl rfl))
  | or hne hall ih =>
    refine .of_distribute (.or hne hall) (by simp) ?_
    rw [QueryTree.distribute, distributeAll_eq]
    exact (Settled.gather (.inr rfl) hne fun c hc => (ih c hc).distribute).of_iff
      (nearNot_gather (.inr rfl)) (hasNot_gather (.inr rfl))
  | notEmpty =>
    refine .of_distribute .notEmpty (by simp) ?_
    rw [QueryTree.distribute, QueryTree.distribute]
    exact Solid.notEmpty.settled.of_iff
      (iff_of_false (fun h => not_nearNot_empty (nearNot_not.mp h)) not_false) Iff.rfl
  | not hchild ih =>
    refine .of_distribute (.not hchild) (by simp) ?_
    rw [QueryTree.distribute]
    rcases ih.distribute with ⟨hrefused, hdone⟩
    -- A negation is not refused for itself, but for what is below it.
    refine ⟨fun h => ?_, fun h => ?_⟩
    · rw [hrefused (nearNot_not.mp h)]
      rfl
    · rcases hdone fun h' => h (nearNot_not.mpr h') with ⟨node, hnode, hsolid, -⟩
      rw [hnode]
      exact ⟨.not node, rfl, .not hsolid, iff_of_true hasNot_not hasNot_not⟩
  | near _ hlast ihf ihl => exact ihf.near hlast ihl

end QueryTree

end Concordance
