import Concordance.Proofs.Query.Links

/-!
# Groups in Chains of Nearness

What groups do to words with nearness between them.

A chain that is written without groups asks for each word to be near the next one, and so does a
group on the left of it, which is taken apart like the chain itself. A group on the right is not.
By the time that it meets the operator in front of it, it is the conjunction of its links, and
nearness spreads over a conjunction whichever way that came about: the word in front is joined to
the first word of each link. So that word has to be near all words of the group but the last.

As long as a group on the right has two words this is the next word alone, and groups change
nothing. From three words on they ask for more, and find less.

## Main definitions

* `Bracketing`: Words, and which of them are grouped.
* `Bracketing.pairs`: Which words have to be near each other.
* `Bracketing.tree`: Nearness of words in such groups.
* `neighbours`: The pairs of elements of a list that are next to each other.

## Theorems

* `Bracketing.mem_pairs_of_neighbours`: Words that are next to each other are a pair.
* `Bracketing.Short.mem_pairs_iff`: There are no other pairs if groups on the right are short.
* `Bracketing.distribute_accepts`: A document matches if the words of all pairs are near.
-/

namespace Concordance

/-- The pairs of elements that are next to each other. -/
def neighbours {α : Type} (list : List α) : List (α × α) :=
  list.zip list.tail

/-- Of two lists in a row, the last element and the first are next to each other. -/
theorem mem_neighbours_append {α : Type} {a b : α} (before behind : List α) :
    (a, b) ∈ neighbours (before ++ behind)
      ↔ (a, b) ∈ neighbours before ∨ (before.getLast? = some a ∧ behind.head? = some b)
        ∨ (a, b) ∈ neighbours behind := by
  induction before with
  | nil => simp [neighbours]
  | cons first rest ih =>
    rcases rest with _ | ⟨second, rest⟩
    · rcases behind with _ | ⟨other, behind⟩
      · simp [neighbours]
      · simp [neighbours, eq_comm]
    · simp only [neighbours, List.cons_append, List.tail_cons, List.zip_cons_cons, List.mem_cons,
        List.getLast?_cons_cons, or_assoc] at ih ⊢
      rw [ih]

/-- Words with an operator between them, and which of them are grouped. -/
inductive Bracketing (α : Type) where
  | word (word : α)
  | near (left right : Bracketing α)

namespace Bracketing

section Words

variable {α β : Type}

/-- The words, in order. -/
def words : Bracketing α → List α
  | .word w => [w]
  | .near left right => left.words ++ right.words

/-- Other words in the same groups. -/
def map (f : α → β) : Bracketing α → Bracketing β
  | .word w => .word (f w)
  | .near left right => .near (left.map f) (right.map f)

/-- The words that have to be near the word in front of them: a word by itself, and of a group
    all words but the last. -/
def heads : Bracketing α → List α
  | .word w => [w]
  | .near left right => (left.words ++ right.words).dropLast

/-- The pairs of words that have to be near. -/
def pairs : Bracketing α → List (α × α)
  | .word _ => []
  | .near left right =>
    left.pairs ++ left.words.getLast?.toList.flatMap (fun w => right.heads.map (Prod.mk w))
      ++ right.pairs

/-- No group on the right has three words or more. -/
def Short : Bracketing α → Prop
  | .word _ => True
  | .near left right => right.words.length ≤ 2 ∧ left.Short ∧ right.Short

variable {bracketing left right : Bracketing α} {w v : α}

theorem words_ne_nil : ∀ bracketing : Bracketing α, bracketing.words ≠ []
  | .word _ => List.cons_ne_nil _ _
  | .near left _ => List.append_ne_nil_of_left_ne_nil left.words_ne_nil _

theorem words_map (f : α → β) (bracketing : Bracketing α) :
    (bracketing.map f).words = bracketing.words.map f := by
  induction bracketing with
  | word w => rfl
  | near left right ihl ihr => rw [map, words, words, ihl, ihr, List.map_append]

theorem heads_map (f : α → β) (bracketing : Bracketing α) :
    (bracketing.map f).heads = bracketing.heads.map f := by
  cases bracketing with
  | word w => rfl
  | near left right =>
    rw [map, heads, heads, words_map, words_map, ← List.map_append, List.map_dropLast]

theorem pairs_map (f : α → β) (bracketing : Bracketing α) :
    (bracketing.map f).pairs = bracketing.pairs.map (Prod.map f f) := by
  induction bracketing with
  | word w => rfl
  | near left right ihl ihr =>
    have hlinks : (left.map f).words.getLast?.toList.flatMap
          (fun w => (right.map f).heads.map (Prod.mk w))
        = (left.words.getLast?.toList.flatMap fun w => right.heads.map (Prod.mk w)).map
          (Prod.map f f) := by
      rw [words_map, heads_map, List.getLast?_map]
      cases left.words.getLast? <;> simp
    rw [map, pairs, pairs, ihl, ihr, hlinks, List.map_append, List.map_append]

theorem mem_pairs_near : (w, v) ∈ (near left right).pairs
    ↔ (w, v) ∈ left.pairs ∨ (left.words.getLast? = some w ∧ v ∈ right.heads)
      ∨ (w, v) ∈ right.pairs := by
  simp [pairs]

/-- The first word behind another one has to be near it. -/
theorem head?_heads (bracketing : Bracketing α) :
    bracketing.heads.head? = bracketing.words.head? := by
  cases bracketing with
  | word w => rfl
  | near left right =>
    rw [heads, words, List.dropLast_append_of_ne_nil right.words_ne_nil,
      List.head?_append_of_ne_nil _ left.words_ne_nil,
      List.head?_append_of_ne_nil _ left.words_ne_nil]

/-- It is the only one if there are two words at most. -/
theorem head?_of_mem_heads (hshort : bracketing.words.length ≤ 2) (hv : v ∈ bracketing.heads) :
    bracketing.words.head? = some v := by
  rw [← head?_heads]
  have hlength : bracketing.heads.length ≤ 1 := by
    cases bracketing with
    | word w => exact Nat.le_refl _
    | near left right =>
      -- Each of two sides has a word, and the last word of all is no head.
      rw [words] at hshort
      rw [heads, List.length_dropLast]
      omega
  rcases hheads : bracketing.heads with _ | ⟨first, rest⟩
  · rw [hheads] at hv
    exact absurd hv List.not_mem_nil
  · rw [hheads, List.length_cons] at hlength
    have hrest : rest = [] := List.length_eq_zero_iff.mp (by omega)
    rw [hheads, hrest, List.mem_singleton] at hv
    rw [hv]
    rfl

/-- All words but the last are in front of one that has to be near. -/
theorem mem_dropLast_words : v ∈ bracketing.words.dropLast
    ↔ ∃ other, (v, other) ∈ bracketing.pairs := by
  induction bracketing with
  | word w => simp [words, pairs]
  | near left right ihl ihr =>
    have hlast : v ∈ left.words ↔ v ∈ left.words.dropLast ∨ left.words.getLast? = some v := by
      rcases List.eq_nil_or_concat left.words with hnil | ⟨before, last, hwords⟩
      · exact absurd hnil left.words_ne_nil
      · rw [hwords]
        simp [eq_comm]
    have hheads : ∃ other, other ∈ right.heads := by
      refine List.exists_mem_of_ne_nil _ fun hnil => ?_
      have hhead := right.head?_heads
      rw [hnil, List.head?_nil, eq_comm, List.head?_eq_none_iff] at hhead
      exact right.words_ne_nil hhead
    simp only [words, List.dropLast_append_of_ne_nil right.words_ne_nil, List.mem_append, hlast,
      ihl, ihr, mem_pairs_near, exists_or, exists_and_left, hheads, and_true, or_assoc]

/-- Words that are next to each other are a pair. -/
theorem mem_pairs_of_neighbours (h : (w, v) ∈ neighbours bracketing.words) :
    (w, v) ∈ bracketing.pairs := by
  induction bracketing with
  | word w => exact absurd h (by simp [neighbours, words])
  | near left right ihl ihr =>
    rw [words, mem_neighbours_append] at h
    rw [mem_pairs_near]
    refine h.imp ihl (Or.imp (And.imp_right fun hfirst => ?_) ihr)
    rw [← head?_heads] at hfirst
    exact List.mem_of_mem_head? hfirst

/-- There are no other pairs if groups on the right are short. -/
theorem Short.mem_pairs_iff (h : bracketing.Short) :
    (w, v) ∈ bracketing.pairs ↔ (w, v) ∈ neighbours bracketing.words := by
  refine ⟨fun hpair => ?_, mem_pairs_of_neighbours⟩
  induction bracketing with
  | word w => exact absurd hpair List.not_mem_nil
  | near left right ihl ihr =>
    obtain ⟨hright, hl, hr⟩ := h
    rw [mem_pairs_near] at hpair
    rw [words, mem_neighbours_append]
    exact hpair.imp (ihl hl) (Or.imp (And.imp_right (head?_of_mem_heads hright)) (ihr hr))

end Words

/-- Nearness of words in such groups. -/
def tree : Bracketing WordLeaf → QueryTree
  | .word w => .word w
  | .near left right => .near false left.tree right.tree

theorem isEmpty_tree (bracketing : Bracketing WordLeaf) : bracketing.tree.isEmpty = false := by
  cases bracketing <;> rfl

end Bracketing

namespace QueryTree

/-- Conjunctions of two near words at a time. -/
inductive Paired : QueryTree → Prop
  | near (w v : WordLeaf) : Paired (.near false (.word w) (.word v))
  | and {children : List QueryTree} (h : ∀ c ∈ children, Paired c) : Paired (.and children)

/-- A conjunction of near words asks for two of them. -/
inductive Asks (w v : WordLeaf) : QueryTree → Prop
  | near (negated : Bool) : Asks w v (.near negated (.word w) (.word v))
  | and {children : List QueryTree} {child : QueryTree} (hc : child ∈ children)
    (h : Asks w v child) : Asks w v (.and children)

section Asking

variable {tree node other right : QueryTree} {children : List QueryTree} {w v a b : WordLeaf}

theorem asks_near {negated : Bool} :
    Asks w v (.near negated (.word a) (.word b)) ↔ w = a ∧ v = b := by
  constructor
  · rintro ⟨⟩
    exact ⟨rfl, rfl⟩
  · rintro ⟨rfl, rfl⟩
    exact .near negated

theorem asks_and : Asks w v (.and children) ↔ ∃ c ∈ children, Asks w v c := by
  constructor
  · intro h
    cases h with
    | and hc h => exact ⟨_, hc, h⟩
  · rintro ⟨c, hc, h⟩
    exact .and hc h

theorem asks_conjuncts : (∃ c ∈ tree.conjuncts, Asks w v c) ↔ Asks w v tree := by
  cases tree with
  | and children => rw [asks_and, conjuncts]
  | _ => simp [conjuncts]

theorem Paired.conjuncts (h : tree.Paired) : ∀ c ∈ tree.conjuncts, c.Paired := by
  cases h with
  | near w v => exact List.forall_mem_singleton.mpr (.near w v)
  | and h => exact h

/-- A document matches if it has all that is asked for. -/
theorem Paired.accepts_iff (h : tree.Paired) {setting : Setting} {document : UInt32} :
    tree.accepts setting document ↔ ∀ w v, Asks w v tree → setting.nearIn w v document := by
  induction h with
  | near a b =>
    rw [Setting.accepts_near]
    simp only [asks_near]
    exact ⟨fun hnear w v heq => heq.1 ▸ heq.2 ▸ hnear, fun h => h a b ⟨rfl, rfl⟩⟩
  | and _ ih =>
    rw [accepts_and, List.all_eq_true]
    simp only [asks_and]
    constructor
    · rintro hall w v ⟨c, hc, hasks⟩
      exact (ih c hc).mp (hall c hc) w v hasks
    · intro h c hc
      exact (ih c hc).mpr fun w v hasks => h w v ⟨c, hc, hasks⟩

/-- Nearness of a word to such a conjunction asks for what that asks for, and besides for the
    word near the first word of each link. -/
theorem Paired.beside (h : right.Paired) (w : WordLeaf) :
    ∃ node, QueryTree.beside false (.word w) right = .ok node ∧ node.Paired
      ∧ ∀ a b, Asks a b node ↔ Asks a b right ∨ (a = w ∧ ∃ c, Asks b c right) := by
  induction h with
  | near u v =>
    refine ⟨.and [.near false (.word w) (.word u), .near false (.word u) (.word v)], rfl,
      .and (by simp [Paired.near]), fun a b => ?_⟩
    simp only [asks_and, asks_near, List.mem_cons, List.not_mem_nil, or_false, exists_eq_or_imp,
      exists_eq_left, exists_and_left, exists_eq, and_true]
    rw [or_comm]
  | @and children _ ih =>
    -- Each child has a node that it becomes, and a function takes them all there at once.
    have hdone : ∀ c, ∃ node, c ∈ children → QueryTree.beside false (.word w) c = .ok node
        ∧ node.Paired ∧ ∀ a b, Asks a b node ↔ Asks a b c ∨ (a = w ∧ ∃ x, Asks b x c) := fun c => by
      by_cases hc : c ∈ children
      · rcases ih c hc with ⟨node, hnode⟩
        exact ⟨node, fun _ => hnode⟩
      · exact ⟨.empty, fun h => absurd h hc⟩
    choose f hf using hdone
    refine ⟨.and (children.map f), ?_, .and ?_, fun a b => ?_⟩
    · rw [QueryTree.beside, besideAll_eq, collect_map_eq fun c hc => (hf c hc).1]
      rfl
    · intro node hnode
      rcases List.mem_map.mp hnode with ⟨c, hc, rfl⟩
      exact (hf c hc).2.1
    · simp only [asks_and, List.mem_map, exists_exists_and_eq_and]
      constructor
      · rintro ⟨c, hc, hasks⟩
        rcases ((hf c hc).2.2 a b).mp hasks with hasks | ⟨rfl, x, hasks⟩
        · exact .inl ⟨c, hc, hasks⟩
        · exact .inr ⟨rfl, x, c, hc, hasks⟩
      · rintro (⟨c, hc, hasks⟩ | ⟨rfl, x, c, hc, hasks⟩)
        · exact ⟨c, hc, ((hf c hc).2.2 a b).mpr (.inl hasks)⟩
        · exact ⟨c, hc, ((hf c hc).2.2 a b).mpr (.inr ⟨rfl, x, hasks⟩)⟩

/-- Two conjunctions are one that asks for all of it. -/
theorem Paired.append (h : node.Paired) (h' : other.Paired) :
    (QueryTree.and (node.conjuncts ++ other.conjuncts)).Paired
      ∧ ∀ a b, Asks a b (.and (node.conjuncts ++ other.conjuncts))
          ↔ Asks a b node ∨ Asks a b other := by
  refine ⟨.and (List.forall_mem_append.mpr ⟨h.conjuncts, h'.conjuncts⟩), fun a b => ?_⟩
  rw [asks_and]
  simp only [List.mem_append, or_and_right, exists_or, asks_conjuncts]

end Asking

end QueryTree

namespace Bracketing

open QueryTree (Asks Paired connect)

/-- What words in groups are spread to: a word is itself, and else there is a conjunction that asks
    for all pairs. -/
inductive Unfolds : Bracketing WordLeaf → QueryTree → Prop
  | word (w : WordLeaf) : Unfolds (.word w) (.word w)
  | near {left right : Bracketing WordLeaf} {node : QueryTree} (h : node.Paired)
    (hasks : ∀ w v, Asks w v node ↔ (w, v) ∈ (near left right).pairs) :
    Unfolds (.near left right) node

/-- Words in groups, for which both ways of spreading are known. -/
structure Unfolded (bracketing : Bracketing WordLeaf) : Prop where
  distribute : ∃ node, bracketing.tree.distribute = .ok node ∧ Unfolds bracketing node
  connect : ∀ {right : Bracketing WordLeaf} {node : QueryTree}, right.tree.distribute = .ok node →
    Unfolds right node → ∃ linked, connect false bracketing.tree right.tree = .ok linked
      ∧ Unfolds (.near bracketing right) linked

/-- Nearness of a word to what was spread. -/
theorem Unfolds.beside {right : Bracketing WordLeaf} {node : QueryTree} (h : right.Unfolds node)
    (w : WordLeaf) :
    ∃ linked, QueryTree.beside false (.word w) node = .ok linked
      ∧ Unfolds (.near (.word w) right) linked := by
  cases h with
  | word v =>
    refine ⟨.near false (.word w) (.word v), rfl, .near (.near w v) fun a b => ?_⟩
    rw [QueryTree.asks_near, mem_pairs_near]
    simp [pairs, words, heads, eq_comm]
  | @near first last _ hpaired hasks =>
    rcases hpaired.beside w with ⟨linked, hlinked, hpaired', hasks'⟩
    refine ⟨linked, hlinked, .near hpaired' fun a b => ?_⟩
    -- Each word of the group is the first one of a link, except for the last.
    have hheads : b ∈ (Bracketing.near first last).heads ↔ ∃ c, Asks b c node := by
      simp only [hasks]
      show b ∈ (Bracketing.near first last).words.dropLast ↔ _
      exact mem_dropLast_words
    have hpairs : (a, b) ∈ (Bracketing.near (.word w) (.near first last)).pairs
        ↔ (a, b) ∈ (Bracketing.near first last).pairs
          ∨ (a = w ∧ b ∈ (Bracketing.near first last).heads) := by
      rw [mem_pairs_near]
      simp [pairs, words, or_comm, eq_comm]
    rw [hasks', hasks, hpairs, hheads]

/-- A chain is taken apart, so that its links are those of the chain before and one more. -/
theorem Unfolded.near {first last : Bracketing WordLeaf} (hf : first.Unfolded)
    (hl : last.Unfolded) : (Bracketing.near first last).Unfolded := by
  rcases hl.distribute with ⟨node, hnode, hunfolds⟩
  rcases hf.connect hnode hunfolds with ⟨before, hbefore, hunfolds'⟩
  refine ⟨⟨before, by rw [tree, QueryTree.distribute]; exact hbefore, hunfolds'⟩, ?_⟩
  intro right rnode hrnode hright
  rcases hl.connect hrnode hright with ⟨pair, hpair, hunfolds''⟩
  rcases hunfolds' with - | ⟨hpaired, hasks⟩
  rcases hunfolds'' with - | ⟨hpaired', hasks'⟩
  obtain ⟨hboth, hasks''⟩ := hpaired.append hpaired'
  refine ⟨.and (before.conjuncts ++ pair.conjuncts),
    by rw [tree, QueryTree.connect_near, hpair, hbefore], .near hboth fun w v => ?_⟩
  simp only [hasks'', hasks, hasks', mem_pairs_near, words,
    List.getLast?_append_of_ne_nil _ last.words_ne_nil]
  -- The pairs of the operand that both links have are counted once.
  tauto

theorem unfolded (bracketing : Bracketing WordLeaf) : bracketing.Unfolded := by
  induction bracketing with
  | word w =>
    refine ⟨⟨.word w, by rw [tree, QueryTree.distribute], .word w⟩, fun hnode hunfolds => ?_⟩
    rw [tree, QueryTree.connect_eq (by simp), QueryTree.distribute, hnode]
    exact hunfolds.beside w
  | near left right ihl ihr => exact ihl.near ihr

/-- Nearness of words in groups can be spread, and a document matches if the words of all pairs
    are near. -/
theorem distribute_accepts {bracketing : Bracketing WordLeaf} (h : 2 ≤ bracketing.words.length) :
    ∃ node, bracketing.tree.distribute = .ok node
      ∧ ∀ (setting : Setting) (document : UInt32), node.accepts setting document
        ↔ ∀ pair ∈ bracketing.pairs, setting.nearIn pair.1 pair.2 document := by
  rcases bracketing.unfolded.distribute with ⟨node, hnode, hunfolds⟩
  cases hunfolds with
  | word w => exact absurd h (by simp [words])
  | near hpaired hasks =>
    refine ⟨node, hnode, fun setting document => ?_⟩
    rw [hpaired.accepts_iff, Prod.forall]
    simp only [hasks]

end Bracketing

end Concordance
