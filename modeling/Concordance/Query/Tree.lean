/-!
# Query Trees

What a query asks for, as a tree of operators over words.

A word has been looked up by the time it is in a tree: it stands for a range of
entries of an index, one entry for a plain word and as many as there are for a
wildcard. `near` has two forms, one that asks for words close to each other and
one, negated, that forbids it. They share a constructor because everything but
the last step of evaluation treats them alike.

## Main definitions

* `WordLeaf`: A word that was looked up.
* `QueryTree`: A tree.
* `QueryTree.nodes`, `QueryTree.depth`: How large a tree is, and how deep.
-/

namespace Concordance

/-- A word that was looked up. -/
structure WordLeaf where
  /-- The stem of the word, or the beginning that a wildcard asks for. -/
  word : String
  /-- The first entry that it stands for. -/
  start : Nat
  /-- The entry after the last one. -/
  stop : Nat
  /-- The meta name that it has to occur under. -/
  metaId : Option UInt32
deriving DecidableEq, Repr

/-- What a query asks for. -/
inductive QueryTree where
  /-- Nothing that can be looked up. -/
  | empty
  | word (word : WordLeaf)
  | and (children : List QueryTree)
  | or (children : List QueryTree)
  | not (child : QueryTree)
  /-- Words close to each other; if negated, words that are never so. -/
  | near (negated : Bool) (left right : QueryTree)

namespace QueryTree

/-- Is there nothing to be looked up? -/
def isEmpty : QueryTree → Bool
  | .empty => true
  | _ => false

/-- Is the tree a negation? -/
def isNot : QueryTree → Bool
  | .not _ => true
  | _ => false

mutual

/-- The number of nodes of a tree. -/
def nodes : QueryTree → Nat
  | .empty => 1
  | .word _ => 1
  | .and children => nodesOfAll children + 1
  | .or children => nodesOfAll children + 1
  | .not child => child.nodes + 1
  | .near _ left right => left.nodes + right.nodes + 1

/-- The number of nodes of several trees. -/
def nodesOfAll : List QueryTree → Nat
  | [] => 0
  | child :: rest => child.nodes + nodesOfAll rest

end

mutual

/-- The number of nodes on the longest way down a tree. -/
def depth : QueryTree → Nat
  | .empty => 1
  | .word _ => 1
  | .and children => depthOfAll children + 1
  | .or children => depthOfAll children + 1
  | .not child => child.depth + 1
  | .near _ left right => max left.depth right.depth + 1

/-- The depth of the deepest of several trees. -/
def depthOfAll : List QueryTree → Nat
  | [] => 0
  | child :: rest => max child.depth (depthOfAll rest)

end

end QueryTree

end Concordance
