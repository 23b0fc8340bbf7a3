import Concordance.Proofs.Query.Chains

/-!
# The Grammar of Queries

Derivations, and what is said with them.

    query    is  operand, and any number of: relop operand
    operand  is  word = primary, or primary
    primary  is  ( query ), not operand, a word, or a wildcard
    relop    is  and, or, near, not near, or nothing, which means and

A derivation is a tree with one constructor for each alternative of a rule, and tokens
are derived if they are the spelling of some derivation. No tokens are the spelling of
two, but that is left to the parser, which finds the one there is.

What a derivation asks for depends on an index only through what lookups in it say. These
are collected in a vocabulary, so that nothing here can fail. A name that is set holds
for the primary behind it, and for everything in there that no other name is set for.

## Main definitions

* `Grammar.Query`, `Links`, `Operand`, `Primary`: Derivations.
* `spelling`: The tokens that are derived.
* `nesting`, `operators`: Groups and negations around a token; operators.
* `Grammar.Vocabulary`: What lookups in an index say.
* `tree`, `links`, `skipped`: What is asked for, the nodes that this takes, and the words
  that are left out.

## Theorems

* `Grammar.Query.links_le`: Every node has an operator of its own.
-/

namespace Concordance

namespace Grammar

open Concordance.Parser

/-- What may stand between two operands. -/
inductive Relop where
  | and
  | or
  | near
  | notNear
  /-- Nothing at all. -/
  | implied
deriving DecidableEq, Repr

mutual

/-- A chain of operands. -/
inductive Query where
  | chain (first : Operand) (rest : Links)

/-- The operands of a chain behind the first. -/
inductive Links where
  | nil
  | cons (relop : Relop) (next : Operand) (rest : Links)

/-- An operand, under a meta name or not. -/
inductive Operand where
  | named (name : String) (primary : Primary)
  | plain (primary : Primary)

/-- A group, a negation, a word or a wildcard. -/
inductive Primary where
  | group (query : Query)
  | not (operand : Operand)
  | word (text : String)
  | wildcard (lead : String)

end

/-- The tokens of an operator. -/
def Relop.spelling : Relop → List Token
  | .and => [.and]
  | .or => [.or]
  | .near => [.near]
  | .notNear => [.not, .near]
  | .implied => []

/-- What an operator means. -/
def Relop.operator : Relop → Operator
  | .and => .and
  | .or => .or
  | .near => .near false
  | .notNear => .near true
  | .implied => .and

mutual

/-- The tokens of a query. -/
def Query.spelling : Query → List Token
  | .chain first rest => first.spelling ++ rest.spelling

/-- The tokens behind the first operand of a chain. -/
def Links.spelling : Links → List Token
  | .nil => []
  | .cons relop next rest => relop.spelling ++ (next.spelling ++ rest.spelling)

/-- The tokens of an operand. -/
def Operand.spelling : Operand → List Token
  | .named name primary => .word name :: .equals :: primary.spelling
  | .plain primary => primary.spelling

/-- The tokens of a primary. -/
def Primary.spelling : Primary → List Token
  | .group query => .openParen :: (query.spelling ++ [.closeParen])
  | .not operand => .not :: operand.spelling
  | .word text => [.word text]
  | .wildcard lead => [.wildcard lead]

end

mutual

/-- The groups and negations around a token of a query, where they are most. -/
def Query.nesting : Query → Nat
  | .chain first rest => max first.nesting rest.nesting

def Links.nesting : Links → Nat
  | .nil => 0
  | .cons _ next rest => max next.nesting rest.nesting

def Operand.nesting : Operand → Nat
  | .named _ primary => primary.nesting
  | .plain primary => primary.nesting

def Primary.nesting : Primary → Nat
  | .group query => query.nesting + 1
  | .not operand => operand.nesting + 1
  | .word _ => 0
  | .wildcard _ => 0

end

mutual

/-- The operators of all chains of a query, those that are nothing included. -/
def Query.operators : Query → Nat
  | .chain first rest => first.operators + rest.operators

def Links.operators : Links → Nat
  | .nil => 0
  | .cons _ next rest => next.operators + rest.operators + 1

def Operand.operators : Operand → Nat
  | .named _ primary => primary.operators
  | .plain primary => primary.operators

def Primary.operators : Primary → Nat
  | .group query => query.operators
  | .not operand => operand.operators
  | .word _ => 0
  | .wildcard _ => 0

end

/-- What lookups in an index say, and how words get there. -/
structure Vocabulary where
  nameId : String → Option UInt32
  placeOf : String → Option Nat
  placesFrom : String → Nat × Nat
  isStopWord : String → Bool
  stemmer : String → String
  sizes : Word.Sizes

namespace Vocabulary

/-- Which occurrences count under a name. -/
def filterOf (vocabulary : Vocabulary) (name : String) : NameFilter :=
  (vocabulary.nameId name).elim .unknown .named

/-- Is a word one that the index can not have? Its stem must not be a stop word either. -/
def skips (vocabulary : Vocabulary) (word : String) : Bool :=
  (Word.check vocabulary.sizes word).isSome || vocabulary.isStopWord word
    || vocabulary.isStopWord (vocabulary.stemmer word)

/-- A leaf under a name: some entries, but none if no document used the name. -/
def leaf (filter : NameFilter) (word : String) (entries : Nat × Nat) : QueryTree :=
  let known := if filter = .unknown then (0, 0) else entries
  .word ⟨word, known.1, known.2, filter.required⟩

/-- The entry of a word, as a range. -/
def entries (vocabulary : Vocabulary) (word : String) : Nat × Nat :=
  (vocabulary.placeOf word).elim (0, 0) fun place => (place, place + 1)

end Vocabulary

section Meaning

variable (vocabulary : Vocabulary)

mutual

/-- What a query asks for, under a name or not. -/
def Query.tree (filter : NameFilter) : Query → QueryTree
  | .chain first rest => chainTree ((.and, first.tree filter) :: rest.operands filter)

/-- The operands of a chain behind the first, with their operators. -/
def Links.operands (filter : NameFilter) : Links → List (Operator × QueryTree)
  | .nil => []
  | .cons relop next rest => (relop.operator, next.tree filter) :: rest.operands filter

/-- What an operand asks for. -/
def Operand.tree (filter : NameFilter) : Operand → QueryTree
  | .named name primary => primary.tree (vocabulary.filterOf name)
  | .plain primary => primary.tree filter

/-- What a primary asks for. -/
def Primary.tree (filter : NameFilter) : Primary → QueryTree
  | .group query => query.tree filter
  | .not operand => .not (operand.tree filter)
  | .word text =>
    if vocabulary.skips text then .empty
    else
      let stem := vocabulary.stemmer text
      Vocabulary.leaf filter stem (vocabulary.entries stem)
  | .wildcard lead => Vocabulary.leaf filter lead (vocabulary.placesFrom lead)

end

mutual

/-- The nodes that the chains of a query take. -/
def Query.links (filter : NameFilter) : Query → Nat
  | .chain first rest => first.links filter + (rest.links filter
    + chainLinks ((.and, first.tree vocabulary filter) :: rest.operands vocabulary filter))

/-- The nodes that the operands of a chain take by themselves. -/
def Links.links (filter : NameFilter) : Links → Nat
  | .nil => 0
  | .cons _ next rest => next.links filter + rest.links filter

def Operand.links (filter : NameFilter) : Operand → Nat
  | .named name primary => primary.links (vocabulary.filterOf name)
  | .plain primary => primary.links filter

def Primary.links (filter : NameFilter) : Primary → Nat
  | .group query => query.links filter
  | .not operand => operand.links filter
  | .word _ => 0
  | .wildcard _ => 0

end

mutual

/-- The words of a query that the index can not have. -/
def Query.skipped : Query → List String
  | .chain first rest => first.skipped ++ rest.skipped

def Links.skipped : Links → List String
  | .nil => []
  | .cons _ next rest => next.skipped ++ rest.skipped

def Operand.skipped : Operand → List String
  | .named _ primary => primary.skipped
  | .plain primary => primary.skipped

def Primary.skipped : Primary → List String
  | .group query => query.skipped
  | .not operand => operand.skipped
  | .word text => if vocabulary.skips text then [text] else []
  | .wildcard _ => []

end

mutual

/-- Every node has an operator of its own. -/
theorem Query.links_le (filter : NameFilter) :
    ∀ query : Query, query.links vocabulary filter ≤ query.operators
  | .chain first rest => by
    have hfirst := first.links_le filter
    have hrest := rest.links_le filter
    -- The first operand has no operator, and takes no node either.
    have hchain := chainLinks_le (.and, first.tree vocabulary filter)
      (rest.operands vocabulary filter)
    rw [Query.links, Query.operators]
    omega

/-- The nodes of the operands, and one for each of them. -/
theorem Links.links_le (filter : NameFilter) :
    ∀ rest : Links, rest.links vocabulary filter + (rest.operands vocabulary filter).length
      ≤ rest.operators
  | .nil => by rw [Links.links, Links.operands, Links.operators]; exact Nat.le_refl _
  | .cons relop next rest => by
    have hnext := next.links_le filter
    have hrest := rest.links_le filter
    rw [Links.links, Links.operands, Links.operators, List.length_cons]
    omega

theorem Operand.links_le (filter : NameFilter) :
    ∀ operand : Operand, operand.links vocabulary filter ≤ operand.operators
  | .named name primary => primary.links_le (vocabulary.filterOf name)
  | .plain primary => primary.links_le filter

theorem Primary.links_le (filter : NameFilter) :
    ∀ primary : Primary, primary.links vocabulary filter ≤ primary.operators
  | .group query => query.links_le filter
  | .not operand => operand.links_le filter
  | .word _ => Nat.le_refl _
  | .wildcard _ => Nat.le_refl _

end

end Meaning

/-- Every operand begins with a token that no operator has but `not`, and no `near` follows
    a `not` that it begins with. -/
theorem Operand.operator_spelling (operand : Operand) (rest : List Token) :
    operator (operand.spelling ++ rest) = some (.and, 0) := by
  rcases operand with ⟨name, primary⟩ | (query | operand | text | lead)
  · rfl
  · rfl
  · -- Whatever is negated is an operand, so it does not begin with `near` either.
    rcases operand with ⟨name, primary⟩ | (query | operand | text | lead) <;> rfl
  · rfl
  · rfl

theorem Operand.spelling_ne_nil (operand : Operand) : operand.spelling ≠ [] := by
  intro hnil
  have hop := operand.operator_spelling []
  rw [hnil] at hop
  exact absurd hop (by simp [operator])

/-- The operator of a link is read with its tokens. -/
theorem Relop.operator_spelling (relop : Relop) (next : Operand) (rest : List Token) :
    Parser.operator (relop.spelling ++ (next.spelling ++ rest))
      = some (relop.operator, relop.spelling.length) := by
  cases relop with
  | implied => exact next.operator_spelling rest
  | _ => rfl

/-- Wherever an operator is read, it is one of the grammar. -/
theorem exists_relop {tokens : List Token} {op : Operator} {size : Nat}
    (h : operator tokens = some (op, size)) :
    ∃ relop : Relop, relop.operator = op ∧ tokens = relop.spelling ++ tokens.drop size := by
  unfold operator at h
  split at h
  case h_4 => obtain ⟨rfl, rfl⟩ := Prod.mk.inj (Option.some.inj h); exact ⟨.and, rfl, rfl⟩
  case h_5 => obtain ⟨rfl, rfl⟩ := Prod.mk.inj (Option.some.inj h); exact ⟨.or, rfl, rfl⟩
  case h_6 => obtain ⟨rfl, rfl⟩ := Prod.mk.inj (Option.some.inj h); exact ⟨.near, rfl, rfl⟩
  case h_7 => obtain ⟨rfl, rfl⟩ := Prod.mk.inj (Option.some.inj h); exact ⟨.notNear, rfl, rfl⟩
  case h_8 => obtain ⟨rfl, rfl⟩ := Prod.mk.inj (Option.some.inj h); exact ⟨.implied, rfl, rfl⟩
  all_goals exact absurd h (by simp)

mutual

/-- The end of a query is not part of it. -/
theorem Query.finish_notMem : ∀ query : Query, .finish ∉ query.spelling
  | .chain first rest => by
    rw [Query.spelling, List.mem_append]
    exact not_or.mpr ⟨first.finish_notMem, rest.finish_notMem⟩

theorem Links.finish_notMem : ∀ rest : Links, .finish ∉ rest.spelling
  | .nil => List.not_mem_nil
  | .cons relop next rest => by
    have hrelop : .finish ∉ relop.spelling := by cases relop <;> decide
    rw [Links.spelling, List.mem_append, List.mem_append]
    exact not_or.mpr ⟨hrelop, not_or.mpr ⟨next.finish_notMem, rest.finish_notMem⟩⟩

theorem Operand.finish_notMem : ∀ operand : Operand, .finish ∉ operand.spelling
  | .named name primary => by
    rw [Operand.spelling]
    exact List.not_mem_cons_of_ne_of_not_mem (by simp)
      (List.not_mem_cons_of_ne_of_not_mem (by simp) primary.finish_notMem)
  | .plain primary => primary.finish_notMem

theorem Primary.finish_notMem : ∀ primary : Primary, .finish ∉ primary.spelling
  | .group query => by
    rw [Primary.spelling]
    refine List.not_mem_cons_of_ne_of_not_mem (by simp) ?_
    rw [List.mem_append]
    exact not_or.mpr ⟨query.finish_notMem, by decide⟩
  | .not operand => by
    rw [Primary.spelling]
    exact List.not_mem_cons_of_ne_of_not_mem (by simp) operand.finish_notMem
  | .word text => by rw [Primary.spelling]; simp
  | .wildcard lead => by rw [Primary.spelling]; simp

end

/-- A query begins with a token that is not its end. -/
theorem Query.exists_cons : ∀ query : Query,
    ∃ token rest, query.spelling = token :: rest ∧ token ≠ .finish
  | .chain first rest => by
    have hfinish := first.finish_notMem
    rcases hfirst : first.spelling with _ | ⟨token, more⟩
    · exact absurd hfirst first.spelling_ne_nil
    · rw [hfirst] at hfinish
      refine ⟨token, more ++ rest.spelling, ?_, ?_⟩
      · rw [Query.spelling, hfirst, List.cons_append]
      · rintro rfl
        exact hfinish List.mem_cons_self

end Grammar

end Concordance
