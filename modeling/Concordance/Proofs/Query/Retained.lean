import Concordance.Proofs.Query.Alternatives
import Concordance.Proofs.Query.NormalForm

/-!
# Spreading Keeps the Leaves

Spreading a tree loses no leaf of it and brings in no other.

Nearness multiplies leaves. A word that is near a group is written down beside each operand of
the group, and a word in the middle of a chain ends one link and begins another. All the same
none of them goes away, as long as there is something that it is written down beside. This is
why it has to be a solid tree: a group without operands would take the word beside it along.

Both ways of spreading are followed at once, as a chain goes down the one and comes back by
the other.

## Main definitions

* `QueryTree.Gives`: A computation of a tree with these leaves.
* `QueryTree.Retains`: A tree that keeps its leaves on either way.

## Theorems

* `QueryTree.Link.beside_gives`, `QueryTree.Solid.spreadOver_gives`: Spreading keeps the leaves
  of both operands.
* `QueryTree.Solid.leaves_distribute`: A solid tree keeps its leaves.
-/

namespace Concordance

namespace QueryTree

variable {P : WordLeaf → Prop} {negated : Bool} {tree left right node : QueryTree}
  {children : List QueryTree} {wrap : List QueryTree → QueryTree} {w : WordLeaf}

theorem mem_leavesOfAll : w ∈ leavesOfAll children ↔ ∃ c ∈ children, w ∈ c.leaves := by
  rw [leavesOfAll_eq_flatMap, List.mem_flatMap]

theorem mem_leaves_gather (h : wrap = .and ∨ wrap = .or) :
    w ∈ (wrap children).leaves ↔ ∃ c ∈ children, w ∈ c.leaves := by
  rcases h with rfl | rfl <;> exact mem_leavesOfAll

theorem mem_leaves_near :
    w ∈ (near negated left right).leaves ↔ w ∈ left.leaves ∨ w ∈ right.leaves :=
  List.mem_append

/-- The parts of a tree have its leaves. -/
theorem mem_leaves_conjuncts : (∃ c ∈ tree.conjuncts, w ∈ c.leaves) ↔ w ∈ tree.leaves := by
  have hself : ∀ node : QueryTree, (∃ c ∈ [node], w ∈ c.leaves) ↔ w ∈ node.leaves := by simp
  cases tree with
  | and children => exact (mem_leaves_gather (.inl rfl)).symm
  | _ => exact hself _

/-- If there is a tree, then it has these leaves. -/
def Gives (leaves : WordLeaf → Prop) (result : Except Error QueryTree) : Prop :=
  ∀ node, result = .ok node → ∀ w, w ∈ node.leaves ↔ leaves w

theorem Gives.of_iff {leaves leaves' : WordLeaf → Prop} {result : Except Error QueryTree}
    (h : Gives leaves result) (hiff : ∀ w, leaves' w ↔ leaves w) : Gives leaves' result :=
  fun node hnode w => (h node hnode w).trans (hiff w).symm

theorem gives_error {leaves : WordLeaf → Prop} {e : Error} : Gives leaves (.error e) :=
  fun _ hnode => absurd hnode (by simp)

/-- Operands that give their leaves give them together. -/
theorem Gives.gather {leaves : QueryTree → WordLeaf → Prop} {f : QueryTree → Except Error QueryTree}
    (h : wrap = .and ∨ wrap = .or) (hall : ∀ c ∈ children, Gives (leaves c) (f c)) :
    Gives (fun w => ∃ c ∈ children, leaves c w) ((collect (children.map f)).map wrap) := by
  intro node hnode w
  rcases exists_of_map hnode with ⟨nodes, hnodes, rfl⟩
  rw [mem_leaves_gather h]
  constructor
  · rintro ⟨node, hmem, hw⟩
    rcases (exists_of_collect hnodes).2 node hmem with ⟨c, hc, hnode⟩
    exact ⟨c, hc, (hall c hc node hnode w).mp hw⟩
  · rintro ⟨c, hc, hw⟩
    rcases ok_of_collect hnodes hc with ⟨node, hmem, hnode⟩
    exact ⟨node, hmem, (hall c hc node hnode w).mpr hw⟩

/-- What is beside all operands is there as often as there are any. -/
theorem exists_or_iff {p : Prop} {q : QueryTree → Prop} (hne : children ≠ []) :
    (∃ c ∈ children, p ∨ q c) ↔ p ∨ ∃ c ∈ children, q c := by
  rcases List.exists_mem_of_ne_nil children hne with ⟨first, hfirst⟩
  constructor
  · rintro ⟨c, hc, h | h⟩
    · exact .inl h
    · exact .inr ⟨c, hc, h⟩
  · rintro (h | ⟨c, hc, h⟩)
    · exact ⟨first, hfirst, .inl h⟩
    · exact ⟨c, hc, .inr h⟩

theorem Link.joinWord_gives (hr : Link P right) (negated : Bool) (v : WordLeaf) :
    Gives (fun w => w = v ∨ w ∈ right.leaves) (QueryTree.joinWord negated (.word v) right) := by
  intro node hnode w
  cases hr with
  | word =>
    rcases Except.ok.inj hnode with rfl
    simp [leaves]
  | near =>
    -- The first word of the chain is written down once more.
    rcases Except.ok.inj hnode with rfl
    simp [leaves, leavesOfAll]

/-- Links are joined with all of their words. -/
theorem Link.join_gives (hl : Link P left) (hr : Link P right) (negated : Bool) :
    Gives (fun w => w ∈ left.leaves ∨ w ∈ right.leaves) (QueryTree.join negated left right) := by
  cases hl with
  | word => exact (hr.joinWord_gives negated _).of_iff (by simp [leaves])
  | @near n first last hfirst hlast =>
    intro node hnode w
    rcases exists_of_join_near hnode with ⟨link, hlink, rfl⟩
    -- The last word is in both of the links.
    have hright := hr.joinWord_gives negated last link hlink w
    simp only [leaves, leavesOfAll, List.append_nil, List.mem_append, List.mem_singleton, hright,
      or_assoc, or_self_left]

/-- Nearness of a link to a spread tree keeps the leaves of both. -/
theorem Link.beside_gives (hl : Link P left) (hr : right.Solid) (hspread : right.Spread P) :
    Gives (fun w => w ∈ left.leaves ∨ w ∈ right.leaves) (beside negated left right) := by
  induction hr with
  | word =>
    cases hspread with
    | word hw => exact hl.join_gives (.word hw) negated
  | and hne _ ih =>
    cases hspread with
    | and _ hall =>
      rw [beside, besideAll_eq]
      refine (Gives.gather (.inl rfl) fun c hc => ih c hc (hall c hc)).of_iff fun w => ?_
      rw [mem_leaves_gather (.inl rfl), exists_or_iff hne]
  | or hne _ ih =>
    cases hspread with
    | or hall =>
      rw [beside, besideAll_eq]
      refine (Gives.gather (.inr rfl) fun c hc => ih c hc (hall c hc)).of_iff fun w => ?_
      rw [mem_leaves_gather (.inr rfl), exists_or_iff hne]
  -- Neither has a node to give: nearness to them is refused.
  | notEmpty => exact gives_error
  | not => exact gives_error
  | near =>
    cases hspread with
    | near hfirst hlast => exact hl.join_gives (.near hfirst hlast) negated

/-- Nearness of spread trees keeps the leaves of both. -/
theorem Solid.spreadOver_gives (hl : left.Solid) (hleft : left.Spread P) (hr : right.Solid)
    (hright : right.Spread P) :
    Gives (fun w => w ∈ left.leaves ∨ w ∈ right.leaves) (spreadOver negated right left) := by
  have hgather : ∀ {wrap : List QueryTree → QueryTree} {children}, wrap = .and ∨ wrap = .or →
      children ≠ [] → (∀ c ∈ children,
        Gives (fun w => w ∈ c.leaves ∨ w ∈ right.leaves) (spreadOver negated right c)) →
      Gives (fun w => w ∈ (wrap children).leaves ∨ w ∈ right.leaves)
        (if right.isNot then .error (.malformed .nearNot)
          else if right.isEmpty then .ok (wrap children)
          else (spreadOverAll negated right children).map wrap) := by
    intro wrap children h hne hall
    split
    · exact gives_error
    · rw [hr.isEmpty, if_neg Bool.false_ne_true, spreadOverAll_eq]
      -- There is an operand, so the right tree is written down at least once.
      refine (Gives.gather h hall).of_iff fun w => ?_
      simp only [or_comm (b := w ∈ right.leaves)]
      rw [mem_leaves_gather h, exists_or_iff hne]
  induction hl with
  | word =>
    cases hleft with
    | word hw => exact Link.beside_gives (.word hw) hr hright
  | and hne _ ih =>
    cases hleft with
    | and _ hall => exact hgather (.inl rfl) hne fun c hc => ih c hc (hall c hc)
  | or hne _ ih =>
    cases hleft with
    | or hall => exact hgather (.inr rfl) hne fun c hc => ih c hc (hall c hc)
  | notEmpty => exact gives_error
  | not => exact gives_error
  | near =>
    cases hleft with
    | near hfirst hlast => exact Link.beside_gives (.near hfirst hlast) hr hright

/-- A tree that keeps its leaves: where it is spread, and where nearness to it is. -/
structure Retains (tree : QueryTree) : Prop where
  distribute : Gives (· ∈ tree.leaves) tree.distribute
  connect : ∀ negated (right : QueryTree), right.Solid → Gives (· ∈ right.leaves) right.distribute →
    Gives (fun w => w ∈ tree.leaves ∨ w ∈ right.leaves) (connect negated tree right)

/-- A solid tree that was spread is solid. -/
theorem Solid.distribute_solid (h : tree.Solid) (hnode : tree.distribute = .ok node) :
    node.Solid := by
  rcases h.settles.distribute with ⟨hrefused, hdone⟩
  by_cases hnear : tree.NearNot
  · exact absurd ((hrefused hnear).symm.trans hnode) (by simp)
  · rcases hdone hnear with ⟨node', hnode', hsolid, -⟩
    rcases Except.ok.inj (hnode'.symm.trans hnode) with rfl
    exact hsolid

/-- For a tree that is no chain the first is enough. -/
theorem Retains.of_distribute (hsolid : tree.Solid) (h : ∀ n first last, tree ≠ .near n first last)
    (hd : Gives (· ∈ tree.leaves) tree.distribute) : tree.Retains := by
  refine ⟨hd, fun negated right hright hr node hnode w => ?_⟩
  rcases exists_of_connect h hnode with ⟨left', right', hleft, hafter, hspread⟩
  have hgives := (hsolid.distribute_solid hleft).spreadOver_gives (hsolid.parsed.distribute hleft)
    (hright.distribute_solid hafter) (hright.parsed.distribute hafter) node hspread w
  simp only [hgives, hd left' hleft w, hr right' hafter w]

/-- A chain keeps its leaves if its operands do. -/
theorem Retains.near {n : Bool} {first last : QueryTree} (hlast : last.Solid) (hf : first.Retains)
    (hl : last.Retains) : (QueryTree.near n first last).Retains := by
  have hlink := hf.connect n last hlast hl.distribute
  refine ⟨?_, fun negated right hright hr => ?_⟩
  · rw [QueryTree.distribute]
    exact hlink.of_iff fun w => mem_leaves_near
  · intro node hnode w
    rcases exists_of_connect_near hnode with ⟨pair, before, hpair, hbefore, rfl⟩
    -- The last operand is in both of the links.
    have hin := hlink before hbefore w
    have hin' := hl.connect negated right hright hr pair hpair w
    rw [mem_leaves_gather (.inl rfl)]
    simp only [mem_leaves_near, List.mem_append, or_and_right, exists_or, mem_leaves_conjuncts, hin,
      hin', or_assoc, or_self_left]

end QueryTree

end Concordance
