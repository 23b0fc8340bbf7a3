import Concordance.Index
import Concordance.Query.Tree
import Concordance.Word
import Concordance.WordSet

/-!
# Parsing Queries

From tokens to a tree, words being looked up on the way.

    query    is  operand, and any number of: operator operand
    operand  is  word = primary, or primary
    primary  is  ( query ), not operand, a word, or a wildcard
    operator is  and, or, near, not near, or nothing, which means and

Operators of one chain bind alike and from the left. Several `and` in a row make
one node, so that all of its operands weigh the same, and several `or` do too.

A word that the index can not have, because it is a stop word or fails the
check, is an empty operand. It is reported, and drops out of its chain together
with the operator in front of it. Only `not` keeps it.

Every primary takes a token, which is why parsing ends. Groups and negations may
be nested only so deep, and only so many operators may make the tree deeper, so
that no query makes evaluation run out of space.

## Main definitions

* `Parser.Lookup`: An index, a stemmer and the sizes of words.
* `Parser.Scope`: What holds for the part of a query being read.
* `Parser.Progress`: What is left of a query, and what was found.
* `Parser.parse`: The tree of a query, and the words that were ignored.
-/

namespace Concordance

namespace Parser

/-- Groups and negations around a token, and operators that make the tree
    deeper, are at most so many. -/
def depthLimit : Nat := 256

/-- How words are looked up. -/
structure Lookup where
  index : Index
  stemmer : String → String := id
  sizes : Word.Sizes := {}

/-- Which occurrences of a word count. -/
inductive NameFilter where
  | any
  | named (id : UInt32)
  /-- Those under a name that no document used: none. -/
  | unknown
deriving DecidableEq, Repr

/-- The meta name that a posting must have. -/
def NameFilter.required : NameFilter → Option UInt32
  | .named id => some id
  | _ => none

/-- What holds for the part of a query being read. -/
structure Scope where
  filter : NameFilter := .any
  /-- Groups and negations around it. -/
  nesting : Nat := 0
  /-- Groups around it. -/
  groups : Nat := 0
deriving DecidableEq, Repr

/-- What is left of a query, and what was found so far. -/
structure Progress where
  tokens : List Token
  /-- Operators that made the tree deeper. -/
  links : Nat := 0
  /-- Words that the index can not have. -/
  ignored : WordSet := []
deriving DecidableEq, Repr

/-- An operator between two operands. -/
inductive Operator where
  | and
  | or
  | near (negated : Bool)
deriving DecidableEq, Repr

/-- The operator in front of the next operand, and how many tokens it takes.
    There is none at the end of a query or group. -/
def operator : List Token → Option (Operator × Nat)
  | [] => none
  | .finish :: _ => none
  | .closeParen :: _ => none
  | .and :: _ => some (.and, 1)
  | .or :: _ => some (.or, 1)
  | .near :: _ => some (.near false, 1)
  | .not :: .near :: _ => some (.near true, 2)
  -- Anything else begins an operand, which is joined as if there were an `and`.
  | _ :: _ => some (.and, 0)

/-- A chain up to one of its operators: the tree so far, and the operator whose
    operands it collects, if it is a node of this chain that can take more. -/
structure Chain where
  tree : QueryTree
  collects : Option Operator := none

/-- Puts another operand into a chain, where `links` operators have made trees
    deeper so far. -/
def Chain.extend (chain : Chain) (op : Operator) (operand : QueryTree) (links : Nat) :
    Except Error (Chain × Nat) :=
  if operand.isEmpty then .ok (chain, links)
  else if chain.tree.isEmpty then .ok (⟨operand, none⟩, links)
  else
    -- A group may be a node of the same kind, and it does not grow by what is behind it.
    match op, chain.tree, chain.collects with
    | .and, .and children, some .and => .ok (⟨.and (children ++ [operand]), some .and⟩, links)
    | .or, .or children, some .or => .ok (⟨.or (children ++ [operand]), some .or⟩, links)
    | op, tree, _ =>
      if depthLimit < links + 1 then .error (.malformed .tooManyOperators)
      else
        match op with
        | .and => .ok (⟨.and [tree, operand], some .and⟩, links + 1)
        | .or => .ok (⟨.or [tree, operand], some .or⟩, links + 1)
        | .near negated => .ok (⟨.near negated tree operand, none⟩, links + 1)

/-- The filter that a name sets. -/
def filterOf (lookup : Lookup) (name : String) : Except Error NameFilter :=
  match lookup.index.nameId name with
  | .error e => .error e
  | .ok none => .ok .unknown
  | .ok (some id) => .ok (.named id)

/-- The entries of a plain word. -/
def entriesOf (lookup : Lookup) (filter : NameFilter) (word : String) :
    Except Error (Nat × Nat) :=
  if filter = .unknown then .ok (0, 0)
  else
    match lookup.index.placeOf word with
    | .error e => .error e
    | .ok none => .ok (0, 0)
    | .ok (some i) => .ok (i, i + 1)

/-- The entries of a wildcard. -/
def entriesFrom (lookup : Lookup) (filter : NameFilter) (lead : String) :
    Except Error (Nat × Nat) :=
  if filter = .unknown then .ok (0, 0) else lookup.index.wordsWithPrefix lead

/-- The stem that a word is looked up by, unless the index can not have it. -/
def stemOf (lookup : Lookup) (word : String) : Except Error (Option String) :=
  if (Word.check lookup.sizes word).isSome then .ok none
  else
    match lookup.index.isStopWord word with
    | .error e => .error e
    | .ok true => .ok none
    | .ok false =>
      let stem := lookup.stemmer word
      -- The stem was looked up already if it is the word.
      if stem = word then .ok (some stem)
      else
        match lookup.index.isStopWord stem with
        | .error e => .error e
        | .ok true => .ok none
        | .ok false => .ok (some stem)

/-- The tree of a plain word, and the word itself if it is ignored. -/
def wordLeaf (lookup : Lookup) (filter : NameFilter) (word : String) :
    Except Error (QueryTree × Option String) :=
  match stemOf lookup word with
  | .error e => .error e
  | .ok none => .ok (.empty, some word)
  | .ok (some stem) =>
    match entriesOf lookup filter stem with
    | .error e => .error e
    | .ok (start, stop) => .ok (.word ⟨stem, start, stop, filter.required⟩, none)

/-- The tree of a wildcard. -/
def wildcardLeaf (lookup : Lookup) (filter : NameFilter) (lead : String) :
    Except Error QueryTree :=
  match entriesFrom lookup filter lead with
  | .error e => .error e
  | .ok (start, stop) => .ok (.word ⟨lead, start, stop, filter.required⟩)

/-- The progress with a word reported, if there is one. -/
def Progress.report (progress : Progress) : Option String → Progress
  | none => progress
  | some word => { progress with ignored := WordSet.insert word progress.ignored }

/-- Reporting a word takes no token. -/
theorem report_tokens (progress : Progress) (ignored : Option String) :
    (progress.report ignored).tokens = progress.tokens := by
  cases ignored <;> rfl

/-- Progress that has taken at least one token of what was left before. -/
abbrev After (progress : Progress) : Type :=
  { later : Progress // later.tokens.length < progress.tokens.length }

/-- Progress that has put no token back. -/
abbrev NotBefore (progress : Progress) : Type :=
  { later : Progress // later.tokens.length ≤ progress.tokens.length }

/-- What the end of the tokens means where an operand is due. -/
def unexpectedEnd (scope : Scope) : Error :=
  .malformed (if 0 < scope.groups then .unmatchedOpen else .unexpectedEnd)

mutual

/-- Reads a chain of operands. -/
def query (lookup : Lookup) (scope : Scope) (progress : Progress) :
    Except Error (QueryTree × After progress) :=
  match operand lookup scope progress with
  | .error e => .error e
  | .ok (first, ⟨later, h⟩) =>
    match chain lookup scope ⟨first, none⟩ later with
    | .error e => .error e
    | .ok (tree, ⟨last, h'⟩) => .ok (tree, ⟨last, Nat.lt_of_le_of_lt h' h⟩)
termination_by 4 * progress.tokens.length + 3

/-- Reads on in a chain, as long as there are operators. -/
def chain (lookup : Lookup) (scope : Scope) (sofar : Chain) (progress : Progress) :
    Except Error (QueryTree × NotBefore progress) :=
  match operator progress.tokens with
  | none => .ok (sofar.tree, ⟨progress, Nat.le_refl _⟩)
  | some (op, size) =>
    let skipped : Progress := { progress with tokens := progress.tokens.drop size }
    have hs : skipped.tokens.length ≤ progress.tokens.length := by
      simp only [skipped, List.length_drop]
      omega
    match operand lookup scope skipped with
    | .error e => .error e
    | .ok (next, ⟨later, h⟩) =>
      -- Operators inside of the operand are counted by now, and this one comes behind them.
      match sofar.extend op next later.links with
      | .error e => .error e
      | .ok (longer, links) =>
        match chain lookup scope longer { later with links } with
        | .error e => .error e
        | .ok (tree, ⟨last, h'⟩) =>
          .ok (tree, ⟨last, Nat.le_trans h' (Nat.le_trans (Nat.le_of_lt h) hs)⟩)
termination_by 4 * progress.tokens.length + 2
decreasing_by
  · exact Nat.lt_succ_of_le (Nat.succ_le_succ (Nat.mul_le_mul_left 4 hs))
  · have hlt := Nat.mul_lt_mul_of_pos_left (Nat.lt_of_lt_of_le h hs) (Nat.zero_lt_succ 3)
    exact Nat.add_lt_add_right hlt 2

/-- Reads an operand, under a meta name or not. -/
def operand (lookup : Lookup) (scope : Scope) (progress : Progress) :
    Except Error (QueryTree × After progress) :=
  match ht : progress.tokens with
  | .word name :: .equals :: rest =>
    -- A name holds for one operand, and takes the place of a name around it.
    match filterOf lookup name with
    | .error e => .error e
    | .ok filter =>
      have : rest.length < progress.tokens.length := by
        simp only [ht, List.length_cons]
        omega
      match primary lookup { scope with filter } { progress with tokens := rest } with
      | .error e => .error e
      | .ok (tree, ⟨later, h⟩) =>
        .ok (tree, ⟨later, by simp only [ht, List.length_cons] at *; omega⟩)
  | _ => primary lookup scope progress
termination_by 4 * progress.tokens.length + 1

/-- Reads a group, a negation, a word or a wildcard. -/
def primary (lookup : Lookup) (scope : Scope) (progress : Progress) :
    Except Error (QueryTree × After progress) :=
  match ht : progress.tokens with
  | [] => .error (unexpectedEnd scope)
  | .finish :: _ => .error (unexpectedEnd scope)
  | .openParen :: rest =>
    if depthLimit < scope.nesting + 1 then .error (.malformed .tooDeep)
    else
      -- Only groups are closed, so they are counted apart from negations.
      let inner := { scope with nesting := scope.nesting + 1, groups := scope.groups + 1 }
      have : rest.length < progress.tokens.length := by
        simp only [ht, List.length_cons]
        omega
      match query lookup inner { progress with tokens := rest } with
      | .error e => .error e
      | .ok (tree, ⟨later, h⟩) =>
        match hc : later.tokens with
        | .closeParen :: behind =>
          .ok (tree, ⟨{ later with tokens := behind },
            by simp only [ht, hc, List.length_cons] at *; omega⟩)
        | _ => .error (.malformed .unmatchedOpen)
  | .not :: rest =>
    if depthLimit < scope.nesting + 1 then .error (.malformed .tooDeep)
    else
      have : rest.length < progress.tokens.length := by
        simp only [ht, List.length_cons]
        omega
      match operand lookup { scope with nesting := scope.nesting + 1 }
          { progress with tokens := rest } with
      | .error e => .error e
      | .ok (child, ⟨later, h⟩) =>
        .ok (.not child, ⟨later, by simp only [ht, List.length_cons] at *; omega⟩)
  | .word word :: rest =>
    match wordLeaf lookup scope.filter word with
    | .error e => .error e
    | .ok (tree, ignored) =>
      .ok (tree, ⟨({ progress with tokens := rest } : Progress).report ignored,
        by simp only [report_tokens, ht, List.length_cons]; omega⟩)
  | .wildcard lead :: rest =>
    (wildcardLeaf lookup scope.filter lead).map fun tree =>
      (tree, ⟨{ progress with tokens := rest }, by simp only [ht, List.length_cons]; omega⟩)
  | token :: _ => .error (.malformed (.unexpected token))
termination_by 4 * progress.tokens.length + 0

end

/-- The tree of a query, and its words that were ignored. -/
def parse (lookup : Lookup) (tokens : List Token) : Except Error (QueryTree × WordSet) :=
  match tokens with
  | [] => .error (.malformed .emptyQuery)
  | .finish :: _ => .error (.malformed .emptyQuery)
  | tokens =>
    match query lookup {} { tokens } with
    | .error e => .error e
    | .ok (tree, ⟨last, _⟩) =>
      match last.tokens with
      | [] => .ok (tree, last.ignored)
      | .finish :: _ => .ok (tree, last.ignored)
      | .closeParen :: _ => .error (.malformed .unmatchedClose)
      | token :: _ => .error (.malformed (.unexpected token))

end Parser

end Concordance
