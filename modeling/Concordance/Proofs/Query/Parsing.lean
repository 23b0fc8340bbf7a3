import Concordance.Proofs.Query.Spreading
import Concordance.Search

/-!
# What the Parser Returns

Every leaf of a tree that was read lies inside the words of the index.

A leaf has entries that a search in the index has found, and a search never leaves the
ends that it began with. The index may be anything for this: its words need not be in
order, and looking one of them up may fail, in which case there is no tree.

The parser is four functions that call each other, and so there are four statements here
that are proved of each other, along the tokens that are left. They are about anything that
is said of a tree, its scope and the count of operators, that leaves have and that is not lost
on the way up, which is what `Kept` asks for. What an operand may do in a chain is said by
`Joined`, of trees alone.

## Main definitions

* `Parser.Inside`: A leaf that ends inside the words of an index.
* `Parser.Joined`: What becomes of a tree to which an operand is put.
* `Parser.Kept`: What the parser keeps of trees and of what it counts.

## Theorems

* `Segment.search_le`: A search stays between its ends.
* `Parser.extend_cases`: What an operand does in a chain, and what it takes.
* `Parser.extend_joined`: A longer chain is its tree joined with the operand.
* `Parser.parse_keeps`: A tree that was read has all that the parser keeps.
* `Parser.parse_parsed`: A query is read as a tree with all leaves inside.
* `Searcher.parse_spread`: It is spread before it is evaluated.
-/

namespace Concordance

namespace Segment

variable {segment : Segment}

/-- A search stays between its ends. -/
theorem search_le {test : Bytes → Bool} {low high place : Nat} (hle : low ≤ high)
    (h : segment.search test low high = .ok place) : place ≤ high := by
  fun_induction search segment test low high with
  | case1 => exact absurd h (by simp)
  | case2 low high hlt middle key hkey htest ih => exact ih (by omega) h
  | case3 low high hlt middle key hkey htest ih =>
    have hplace := ih (by omega) h
    omega
  | case4 low high hnot =>
    rcases Except.ok.inj h with rfl
    exact hle

/-- A search among entries with keys has a result. -/
theorem search_ok {test : Bytes → Bool} {low high : Nat}
    (h : ∀ i, i < high → ∃ key, segment.key i = .ok key) :
    ∃ place, segment.search test low high = .ok place := by
  fun_induction search segment test low high with
  | case1 low high hlt middle e hkey =>
    rcases h middle (by omega) with ⟨key, hkey'⟩
    exact absurd (hkey.symm.trans hkey') (by simp)
  | case2 low high hlt middle key hkey htest ih => exact ih h
  | case3 low high hlt middle key hkey htest ih => exact ih fun i hi => h i (by omega)
  | case4 low high hnot => exact ⟨low, rfl⟩

theorem firstFailing_le {test : Bytes → Bool} {place : Nat}
    (h : segment.firstFailing test = .ok place) : place ≤ segment.size :=
  search_le (Nat.zero_le _) h

/-- The entries with a key end inside the segment. -/
theorem rangeOf_le {key : Bytes} {start stop : Nat} (h : segment.rangeOf key = .ok (start, stop)) :
    stop ≤ segment.size := by
  rw [rangeOf] at h
  rcases exists_of_bind h with ⟨first, -, h⟩
  rcases exists_of_bind h with ⟨last, hlast, h⟩
  rcases Prod.mk.inj (Except.ok.inj h) with ⟨rfl, rfl⟩
  exact firstFailing_le hlast

/-- An entry that is found is inside the segment. -/
theorem find_lt {key : Bytes} {place : Nat} (h : segment.find key = .ok (some place)) :
    place < segment.size := by
  rw [find] at h
  rcases exists_of_bind h with ⟨⟨start, stop⟩, hrange, h⟩
  have hplace : (if start < stop then some start else none) = some place := Except.ok.inj h
  split at hplace
  · rename_i hlt
    rcases Option.some.inj hplace with rfl
    exact Nat.lt_of_lt_of_le hlt (rangeOf_le hrange)
  · exact absurd hplace (by simp)

/-- The entries that begin alike end inside the segment. -/
theorem leadRange_le {lead : Bytes} {start stop : Nat}
    (h : segment.leadRange lead = .ok (start, stop)) : stop ≤ segment.size := by
  rw [leadRange] at h
  rcases exists_of_bind h with ⟨first, hfirst, h⟩
  rcases exists_of_bind h with ⟨last, hlast, h⟩
  rcases Prod.mk.inj (Except.ok.inj h) with ⟨rfl, rfl⟩
  exact Nat.max_le.mpr ⟨firstFailing_le hfirst, firstFailing_le hlast⟩

end Segment

namespace Parser

variable {lookup : Lookup}

/-- A leaf that ends inside the words of an index. -/
def Inside (index : Index) (leaf : WordLeaf) : Prop :=
  leaf.stop ≤ index.words.size

theorem entriesOf_le {filter : NameFilter} {word : String} {start stop : Nat}
    (h : entriesOf lookup filter word = .ok (start, stop)) : stop ≤ lookup.index.words.size := by
  rw [entriesOf] at h
  split at h
  · rcases Prod.mk.inj (Except.ok.inj h) with ⟨rfl, rfl⟩
    exact Nat.zero_le _
  · rcases hplace : lookup.index.placeOf word with e | _ | place
    · rw [hplace] at h
      exact absurd h (by simp)
    · rw [hplace] at h
      rcases Prod.mk.inj (Except.ok.inj h) with ⟨rfl, rfl⟩
      exact Nat.zero_le _
    · rw [hplace] at h
      rcases Prod.mk.inj (Except.ok.inj h) with ⟨rfl, rfl⟩
      exact Segment.find_lt hplace

theorem entriesFrom_le {filter : NameFilter} {lead : String} {start stop : Nat}
    (h : entriesFrom lookup filter lead = .ok (start, stop)) : stop ≤ lookup.index.words.size := by
  rw [entriesFrom] at h
  split at h
  · rcases Prod.mk.inj (Except.ok.inj h) with ⟨rfl, rfl⟩
    exact Nat.zero_le _
  · exact Segment.leadRange_le h

/-- A word that was looked up is left out, or it lies inside the words of the index. -/
theorem leaf_of_wordLeaf {filter : NameFilter} {word : String} {tree : QueryTree}
    {ignored : Option String} (h : wordLeaf lookup filter word = .ok (tree, ignored)) :
    tree = .empty ∨ ∃ leaf, tree = .word leaf ∧ Inside lookup.index leaf := by
  rw [wordLeaf] at h
  rcases hstem : stemOf lookup word with e | _ | stem
  · rw [hstem] at h
    exact absurd h (by simp)
  · rw [hstem] at h
    exact .inl (Prod.mk.inj (Except.ok.inj h)).1.symm
  · rcases hentries : entriesOf lookup filter stem with e | ⟨start, stop⟩
    · simp only [hstem, hentries, reduceCtorEq] at h
    · simp only [hstem, hentries] at h
      exact .inr ⟨_, (Prod.mk.inj (Except.ok.inj h)).1.symm, entriesOf_le hentries⟩

theorem leaf_of_wildcardLeaf {filter : NameFilter} {lead : String} {tree : QueryTree}
    (h : wildcardLeaf lookup filter lead = .ok tree) :
    ∃ leaf, tree = .word leaf ∧ Inside lookup.index leaf := by
  rw [wildcardLeaf] at h
  rcases hentries : entriesFrom lookup filter lead with e | ⟨start, stop⟩
  · rw [hentries] at h
    exact absurd h (by simp)
  · rw [hentries] at h
    exact ⟨_, (Except.ok.inj h).symm, entriesFrom_le hentries⟩

/-- What an operand does in a chain, and what it takes. If one of the two is empty then there is
    the other. Otherwise a node has one child more, or there is a new node, for which there has to
    be room. -/
theorem extend_cases {chain longer : Chain} {op : Operator} {operand : QueryTree}
    {links after : Nat} (h : chain.extend op operand links = .ok (longer, after)) :
    after = links ∧ (longer.tree = chain.tree ∨ longer.tree = operand)
      ∨ chain.tree.isEmpty ≠ true ∧ operand.isEmpty ≠ true
        ∧ ((∃ wrap children, (wrap = QueryTree.and ∨ wrap = QueryTree.or)
            ∧ chain.tree = wrap children ∧ longer.tree = wrap (children ++ [operand])
            ∧ after = links)
          ∨ links < depthLimit ∧ after = links + 1
            ∧ ((∃ wrap, (wrap = QueryTree.and ∨ wrap = QueryTree.or)
                ∧ longer.tree = wrap [chain.tree, operand])
              ∨ ∃ negated, longer.tree = .near negated chain.tree operand)) := by
  unfold Chain.extend at h
  split at h
  · -- The operand is empty and drops out.
    rcases Prod.mk.inj (Except.ok.inj h) with ⟨rfl, rfl⟩
    exact .inl ⟨rfl, .inl rfl⟩
  · rename_i hoperand
    split at h
    · -- The chain was empty so far.
      rcases Prod.mk.inj (Except.ok.inj h) with ⟨rfl, rfl⟩
      exact .inl ⟨rfl, .inr rfl⟩
    · rename_i htree
      refine .inr ⟨htree, hoperand, ?_⟩
      split at h
      · -- The operator is the one that the chain ends in, so the node grows.
        rename_i children hchildren _
        rcases Prod.mk.inj (Except.ok.inj h) with ⟨rfl, rfl⟩
        exact .inl ⟨_, children, .inl rfl, hchildren, rfl, rfl⟩
      · rename_i children hchildren _
        rcases Prod.mk.inj (Except.ok.inj h) with ⟨rfl, rfl⟩
        exact .inl ⟨_, children, .inr rfl, hchildren, rfl, rfl⟩
      · -- The operator is a node of its own, if there is room for one.
        split at h
        · exact absurd h (by simp)
        · rename_i hroom
          refine .inr ⟨by omega, ?_⟩
          split at h
          · rcases Prod.mk.inj (Except.ok.inj h) with ⟨rfl, rfl⟩
            exact ⟨rfl, .inl ⟨_, .inl rfl, rfl⟩⟩
          · rcases Prod.mk.inj (Except.ok.inj h) with ⟨rfl, rfl⟩
            exact ⟨rfl, .inl ⟨_, .inr rfl, rfl⟩⟩
          · rcases Prod.mk.inj (Except.ok.inj h) with ⟨rfl, rfl⟩
            exact ⟨rfl, .inr ⟨_, rfl⟩⟩

/-- What becomes of a tree to which an operand is put. An empty one of the two drops out, and if
    both say something they become children of one node, which may have been there before. -/
inductive Joined (tree operand : QueryTree) : QueryTree → Prop
  | dropped : Joined tree operand tree
  | first : Joined tree operand operand
  | and {children : List QueryTree} (htree : tree.isEmpty ≠ true)
    (hoperand : operand.isEmpty ≠ true) (h : tree = .and children ∨ children = [tree]) :
    Joined tree operand (.and (children ++ [operand]))
  | or {children : List QueryTree} (htree : tree.isEmpty ≠ true)
    (hoperand : operand.isEmpty ≠ true) (h : tree = .or children ∨ children = [tree]) :
    Joined tree operand (.or (children ++ [operand]))
  | near (negated : Bool) (htree : tree.isEmpty ≠ true) (hoperand : operand.isEmpty ≠ true) :
    Joined tree operand (.near negated tree operand)

/-- A longer chain is its tree joined with the operand. -/
theorem extend_joined {chain longer : Chain} {op : Operator} {operand : QueryTree}
    {links links' : Nat} (h : chain.extend op operand links = .ok (longer, links')) :
    Joined chain.tree operand longer.tree := by
  rcases extend_cases h with ⟨-, hlonger | hlonger⟩ | ⟨htree, hoperand, hcases⟩
  · exact hlonger ▸ .dropped
  · exact hlonger ▸ .first
  · rcases hcases with ⟨_, children, rfl | rfl, hchildren, hlonger, -⟩
      | ⟨-, -, ⟨_, rfl | rfl, hlonger⟩ | ⟨negated, hlonger⟩⟩
    · exact hlonger ▸ .and htree hoperand (.inl hchildren)
    · exact hlonger ▸ .or htree hoperand (.inl hchildren)
    · exact hlonger ▸ .and htree hoperand (.inr rfl)
    · exact hlonger ▸ .or htree hoperand (.inr rfl)
    · exact hlonger ▸ .near negated htree hoperand

/-- A tree that was read and an operand that was read are joined to one. -/
theorem Joined.parsed {P : WordLeaf → Prop} {tree operand longer : QueryTree}
    (h : Joined tree operand longer) (htree : tree.Parsed P) (hoperand : operand.Parsed P) :
    longer.Parsed P := by
  -- The children of the longer node are those that it had and the operand.
  have hmore : ∀ {children : List QueryTree}, (∀ c ∈ children, c.Parsed P) →
      ∀ c ∈ children ++ [operand], c.Parsed P := fun hall =>
    List.forall_mem_append.mpr ⟨hall, List.forall_mem_singleton.mpr hoperand⟩
  cases h with
  | dropped => exact htree
  | first => exact hoperand
  | and _ _ hchildren =>
    refine .and (List.append_ne_nil_of_right_ne_nil _ (List.cons_ne_nil _ _)) (hmore ?_)
    rcases hchildren with rfl | rfl
    · cases htree with
      | and _ hall => exact hall
    · exact List.forall_mem_singleton.mpr htree
  | or _ _ hchildren =>
    refine .or (hmore ?_)
    rcases hchildren with rfl | rfl
    · cases htree with
      | or hall => exact hall
    · exact List.forall_mem_singleton.mpr htree
  | near negated => exact .near htree hoperand

/-- What is said of a tree, the scope that it was read in, and how many operators made trees deeper
    before and after it, if reading on keeps it. A negation may stand only where the nesting of its
    scope is not at its limit, and so may a group. -/
structure Kept (lookup : Lookup) (M : Scope → Nat → Nat → QueryTree → Prop) : Prop where
  word : ∀ {scope : Scope} {links word tree ignored},
    wordLeaf lookup scope.filter word = .ok (tree, ignored) → M scope links links tree
  wildcard : ∀ {scope : Scope} {links lead tree},
    wildcardLeaf lookup scope.filter lead = .ok tree → M scope links links tree
  named : ∀ {scope : Scope} {filter before after tree},
    M { scope with filter } before after tree → M scope before after tree
  group : ∀ {scope : Scope} {before after tree}, scope.nesting < depthLimit →
    M { scope with nesting := scope.nesting + 1, groups := scope.groups + 1 } before after tree →
      M scope before after tree
  not : ∀ {scope : Scope} {before after child}, scope.nesting < depthLimit →
    M { scope with nesting := scope.nesting + 1 } before after child →
      M scope before after (.not child)
  extend : ∀ {scope : Scope} {before middle links after op operand} {chain longer : Chain},
    M scope before middle chain.tree → M scope middle links operand →
      chain.extend op operand links = .ok (longer, after) → M scope before after longer.tree

/-- Of the trees alone, it is enough to look at how they are joined, and not at what they were
    read from. -/
theorem Kept.of_joined {M : QueryTree → Prop} (hempty : M .empty)
    (hleaf : ∀ {leaf}, Inside lookup.index leaf → M (.word leaf))
    (hnot : ∀ {child}, M child → M (.not child))
    (hjoined : ∀ {tree operand longer},
      Joined tree operand longer → M tree → M operand → M longer) :
    Kept lookup fun _ _ _ tree => M tree where
  word h := by
    rcases leaf_of_wordLeaf h with rfl | ⟨leaf, rfl, hinside⟩
    · exact hempty
    · exact hleaf hinside
  wildcard h := by
    rcases leaf_of_wildcardLeaf h with ⟨leaf, rfl, hinside⟩
    exact hleaf hinside
  named h := h
  group _ h := h
  not _ h := hnot h
  extend htree hoperand h := hjoined (extend_joined h) htree hoperand

theorem kept_parsed : Kept lookup fun _ _ _ tree => tree.Parsed (Inside lookup.index) :=
  .of_joined .empty .word .not Joined.parsed

/-- Reporting a word makes no tree deeper. -/
theorem report_links (progress : Progress) (ignored : Option String) :
    (progress.report ignored).links = progress.links := by
  cases ignored <;> rfl

variable {M : Scope → Nat → Nat → QueryTree → Prop}

mutual

theorem query_keeps (hM : Kept lookup M) {scope : Scope} {progress : Progress} {tree : QueryTree}
    {later : After progress} (h : query lookup scope progress = .ok (tree, later)) :
    M scope progress.links later.val.links tree := by
  rw [query] at h
  rcases hfirst : operand lookup scope progress with e | ⟨first, later', hlater⟩
  · simp only [hfirst, reduceCtorEq] at h
  · simp only [hfirst] at h
    rcases hchain : chain lookup scope ⟨first, none⟩ later' with e | ⟨node, last, hlast⟩
    · simp only [hchain, reduceCtorEq] at h
    · simp only [hchain] at h
      rcases Prod.mk.inj (Except.ok.inj h) with ⟨rfl, rfl⟩
      have hsofar := operand_keeps hM hfirst
      exact chain_keeps hM later' hsofar hchain
termination_by 4 * progress.tokens.length + 3
decreasing_by
  all_goals simp_wf
  all_goals omega

theorem chain_keeps (hM : Kept lookup M) {scope : Scope} {sofar : Chain} (progress : Progress)
    {tree : QueryTree} {before : Nat} {later : NotBefore progress}
    (hsofar : M scope before progress.links sofar.tree)
    (h : chain lookup scope sofar progress = .ok (tree, later)) :
    M scope before later.val.links tree := by
  rw [chain] at h
  rcases hop : operator progress.tokens with _ | ⟨op, size⟩
  · simp only [hop] at h
    rcases Prod.mk.inj (Except.ok.inj h) with ⟨rfl, rfl⟩
    exact hsofar
  · have hskipped : (progress.tokens.drop size).length ≤ progress.tokens.length := by
      rw [List.length_drop]
      omega
    simp only [hop] at h
    rcases hnext : operand lookup scope { progress with tokens := progress.tokens.drop size }
      with e | ⟨next, later', hlater⟩
    · simp only [hnext, reduceCtorEq] at h
    · simp only [hnext] at h
      rcases hlonger : sofar.extend op next later'.links with e | ⟨longer, links⟩
      · simp only [hlonger, reduceCtorEq] at h
      · simp only [hlonger] at h
        rcases hrest : chain lookup scope longer { later' with links } with e | ⟨node, last, hlast⟩
        · simp only [hrest, reduceCtorEq] at h
        · simp only [hrest] at h
          rcases Prod.mk.inj (Except.ok.inj h) with ⟨rfl, rfl⟩
          -- What the operand left is shorter, which is why the chain ends.
          have hless : later'.tokens.length < progress.tokens.length :=
            Nat.lt_of_lt_of_le hlater hskipped
          have hoperand := operand_keeps hM hnext
          have hjoined := hM.extend hsofar hoperand hlonger
          exact chain_keeps hM { later' with links } hjoined hrest
termination_by 4 * progress.tokens.length + 2
decreasing_by
  all_goals simp_wf
  all_goals omega

theorem operand_keeps (hM : Kept lookup M) {scope : Scope} {progress : Progress} {tree : QueryTree}
    {later : After progress} (h : operand lookup scope progress = .ok (tree, later)) :
    M scope progress.links later.val.links tree := by
  rw [operand] at h
  split at h
  · -- Under a name only the filter of the scope is another one.
    rename_i name rest ht
    rcases hfilter : filterOf lookup name with e | filter
    · simp only [hfilter, reduceCtorEq] at h
    · simp only [hfilter] at h
      rcases hprimary : primary lookup { scope with filter } { progress with tokens := rest }
        with e | ⟨node, later', hlater⟩
      · simp only [hprimary, reduceCtorEq] at h
      · simp only [hprimary] at h
        rcases Prod.mk.inj (Except.ok.inj h) with ⟨rfl, rfl⟩
        have hrest : rest.length < progress.tokens.length := by
          rw [ht, List.length_cons, List.length_cons]
          omega
        have hnamed := primary_keeps hM hprimary
        exact hM.named hnamed
  · exact primary_keeps hM h
termination_by 4 * progress.tokens.length + 1
decreasing_by
  all_goals simp_wf
  all_goals omega

theorem primary_keeps (hM : Kept lookup M) {scope : Scope} {progress : Progress} {tree : QueryTree}
    {later : After progress} (h : primary lookup scope progress = .ok (tree, later)) :
    M scope progress.links later.val.links tree := by
  rw [primary] at h
  split at h
  · exact absurd h (by simp)
  · exact absurd h (by simp)
  · -- A group, which has to be closed.
    rename_i rest ht
    have hrest : rest.length < progress.tokens.length := by
      rw [ht]
      exact Nat.lt_succ_self _
    split at h
    · exact absurd h (by simp)
    · rename_i hroom
      rcases hquery : query lookup
        { scope with nesting := scope.nesting + 1, groups := scope.groups + 1 }
        { progress with tokens := rest } with e | ⟨node, later', hlater⟩
      · simp only [hquery, reduceCtorEq] at h
      · simp only [hquery] at h
        split at h
        · rcases Prod.mk.inj (Except.ok.inj h) with ⟨rfl, rfl⟩
          have hgroup := query_keeps hM hquery
          exact hM.group (by omega) hgroup
        · exact absurd h (by simp)
  · -- A negation.
    rename_i rest ht
    have hrest : rest.length < progress.tokens.length := by
      rw [ht]
      exact Nat.lt_succ_self _
    split at h
    · exact absurd h (by simp)
    · rename_i hroom
      rcases hoperand : operand lookup { scope with nesting := scope.nesting + 1 }
        { progress with tokens := rest } with e | ⟨child, later', hlater⟩
      · simp only [hoperand, reduceCtorEq] at h
      · simp only [hoperand] at h
        rcases Prod.mk.inj (Except.ok.inj h) with ⟨rfl, rfl⟩
        have hchild := operand_keeps hM hoperand
        exact hM.not (by omega) hchild
  · -- A word, and below a wildcard.
    rename_i word rest ht
    rcases hleaf : wordLeaf lookup scope.filter word with e | ⟨node, ignored⟩
    · simp only [hleaf, reduceCtorEq] at h
    · simp only [hleaf] at h
      rcases Prod.mk.inj (Except.ok.inj h) with ⟨rfl, rfl⟩
      rw [report_links]
      exact hM.word hleaf
  · rcases exists_of_map h with ⟨node, hleaf, heq⟩
    rcases Prod.mk.inj heq with ⟨rfl, rfl⟩
    exact hM.wildcard hleaf
  · exact absurd h (by simp)
termination_by 4 * progress.tokens.length + 0
decreasing_by
  all_goals simp_wf
  all_goals omega

end

/-- What reading keeps is so of a whole query. -/
theorem parse_keeps (hM : Kept lookup M) {tokens : List Token} {tree : QueryTree}
    {ignored : WordSet} (h : parse lookup tokens = .ok (tree, ignored)) :
    ∃ links, M {} 0 links tree := by
  unfold parse at h
  split at h
  · exact absurd h (by simp)
  · exact absurd h (by simp)
  · rcases hquery : query lookup {} { tokens } with e | ⟨node, last, hlast⟩
    · simp only [hquery, reduceCtorEq] at h
    · simp only [hquery] at h
      -- There is a tree only if nothing is left, or nothing but the end.
      split at h
      · rcases Prod.mk.inj (Except.ok.inj h) with ⟨rfl, -⟩
        exact ⟨_, query_keeps hM hquery⟩
      · rcases Prod.mk.inj (Except.ok.inj h) with ⟨rfl, -⟩
        exact ⟨_, query_keeps hM hquery⟩
      · exact absurd h (by simp)
      · exact absurd h (by simp)

/-- All leaves of a tree that was read lie inside the words of the index. -/
theorem parse_parsed {tokens : List Token} {tree : QueryTree} {ignored : WordSet}
    (h : parse lookup tokens = .ok (tree, ignored)) : tree.Parsed (Inside lookup.index) :=
  (parse_keeps kept_parsed h).elim fun _ hparsed => hparsed

end Parser

/-- A query is read as a tree if its text has tokens, the tokens have a tree, and that one can be
    spread. -/
theorem Searcher.parse_eq_ok_iff {searcher : Searcher} {query : String} {node : QueryTree}
    {ignored : WordSet} : searcher.parse query = .ok (node, ignored)
      ↔ ∃ tokens tree, tokenize (Text.fold query) = .ok tokens
        ∧ Parser.parse searcher.lookup tokens = .ok (tree, ignored)
        ∧ tree.distribute = .ok node := by
  constructor
  · intro h
    rcases exists_of_bind h with ⟨tokens, htokens, h⟩
    rcases exists_of_bind h with ⟨⟨tree, left⟩, hread, h⟩
    rcases exists_of_bind h with ⟨spread, hspread, h⟩
    rcases Prod.mk.inj (Except.ok.inj h) with ⟨rfl, rfl⟩
    exact ⟨tokens, tree, htokens, hread, hspread⟩
  · -- The steps are run one after another, each with the result of the last.
    rintro ⟨tokens, tree, htokens, hread, hspread⟩
    rw [parse, htokens]
    show (Parser.parse searcher.lookup tokens >>= _) = _
    rw [hread]
    show (QueryTree.distribute tree >>= _) = _
    rw [hspread]
    rfl

/-- The tree of a query as it will be evaluated is spread. -/
theorem Searcher.parse_spread {searcher : Searcher} {query : String} {tree : QueryTree}
    {ignored : WordSet} (h : searcher.parse query = .ok (tree, ignored)) :
    tree.Spread (Parser.Inside searcher.index) := by
  rcases parse_eq_ok_iff.mp h with ⟨tokens, read, -, hread, hnode⟩
  exact (Parser.parse_parsed hread).distribute hnode

end Concordance
