import Concordance.Error
import Concordance.Query.Tree

/-!
# Spreading Nearness

Bringing `near` down to pairs of words.

Only words have positions, so `near` between larger operands has to be taken
apart. Over alternatives and conjunctions it spreads: `x near (a or b)` becomes
`(x near a) or (x near b)`. A chain `a near b near c` asks that neighbours be
near, and becomes `(a near b) and (b near c)`. Where a chain turns up as an
operand, its word on the side of the operator takes part. A negation has no
positions at all, and nearness to it is an error.

A chain that was written without brackets leans to the left. It is split into its
links first, before anything else spreads, because its inner operands are still
whole then.

## Main definitions

* `QueryTree.firstWord`, `QueryTree.lastWord`: The ends of a chain.
* `QueryTree.beside`, `QueryTree.spreadOver`: Nearness of operands that were
  spread already.
* `QueryTree.distribute`: A tree in which every `near` has words on both sides.
-/

namespace Concordance

namespace QueryTree

mutual

/-- The last word of a chain. -/
def lastWord : QueryTree → Except Error QueryTree
  | .word w => .ok (.word w)
  | .near _ _ right => right.lastWord
  | .and children => lastWordOfAll children
  | _ => .error (.malformed .chainOfNoWord)

/-- The last word of the last of several parts. -/
def lastWordOfAll : List QueryTree → Except Error QueryTree
  | [] => .error (.malformed .emptyChain)
  | [child] => child.lastWord
  | _ :: child :: rest => lastWordOfAll (child :: rest)

end

mutual

/-- The first word of a chain. -/
def firstWord : QueryTree → Except Error QueryTree
  | .word w => .ok (.word w)
  | .near _ left _ => left.firstWord
  | .and children => firstWordOfAll children
  | _ => .error (.malformed .chainOfNoWord)

/-- The first word of the first of several parts. -/
def firstWordOfAll : List QueryTree → Except Error QueryTree
  | [] => .error (.malformed .emptyChain)
  | child :: _ => child.firstWord

end

/-- Nearness of a single word to a word or a chain. -/
def joinWord (negated : Bool) (word right : QueryTree) : Except Error QueryTree :=
  match right with
  | .near _ _ _ =>
    match right.firstWord with
    | .error e => .error e
    | .ok first => .ok (.and [.near negated word first, right])
  | _ => .ok (.near negated word right)

/-- Nearness of a word or a chain to a word or a chain. -/
def join (negated : Bool) (left right : QueryTree) : Except Error QueryTree :=
  match left with
  | .near _ _ _ =>
    match left.lastWord with
    | .error e => .error e
    | .ok last =>
      match joinWord negated last right with
      | .error e => .error e
      | .ok link => .ok (.and [left, link])
  | _ => joinWord negated left right

mutual

/-- Nearness of a word or a chain to any operand, over which it spreads. -/
def beside (negated : Bool) (left : QueryTree) : QueryTree → Except Error QueryTree
  | .not _ => .error (.malformed .nearNot)
  | .empty => .ok left
  | .or children => (besideAll negated left children).map .or
  | .and children => (besideAll negated left children).map .and
  | .word w => join negated left (.word w)
  | .near n l r => join negated left (.near n l r)

/-- Nearness of a word or a chain to each of several operands. -/
def besideAll (negated : Bool) (left : QueryTree) :
    List QueryTree → Except Error (List QueryTree)
  | [] => .ok []
  | child :: rest =>
    match beside negated left child with
    | .error e => .error e
    | .ok node => (besideAll negated left rest).map (node :: ·)

end

mutual

/-- Nearness of any operand, over which it spreads, to `right`. The left operand
    is taken apart before the right one. -/
def spreadOver (negated : Bool) (right : QueryTree) : QueryTree → Except Error QueryTree
  | .not _ => .error (.malformed .nearNot)
  -- A node on the left may have nothing in it that would come upon a negation on the right.
  | .empty => if right.isNot then .error (.malformed .nearNot) else .ok right
  | .or children =>
    if right.isNot then .error (.malformed .nearNot)
    else if right.isEmpty then .ok (.or children)
    else (spreadOverAll negated right children).map .or
  | .and children =>
    if right.isNot then .error (.malformed .nearNot)
    else if right.isEmpty then .ok (.and children)
    else (spreadOverAll negated right children).map .and
  | .word w => beside negated (.word w) right
  | .near n l r => beside negated (.near n l r) right

/-- Nearness of each of several operands to `right`. -/
def spreadOverAll (negated : Bool) (right : QueryTree) :
    List QueryTree → Except Error (List QueryTree)
  | [] => .ok []
  | child :: rest =>
    match spreadOver negated right child with
    | .error e => .error e
    | .ok node => (spreadOverAll negated right rest).map (node :: ·)

end

/-- The parts of a conjunction, or a tree as its only part. -/
def conjuncts : QueryTree → List QueryTree
  | .and children => children
  | node => [node]

mutual

/-- The tree with every `near` brought down to words. -/
def distribute : QueryTree → Except Error QueryTree
  | .and children => (distributeAll children).map .and
  | .or children => (distributeAll children).map .or
  | .not child => child.distribute.map .not
  | .near negated left right => connect negated left right
  | .empty => .ok .empty
  | .word w => .ok (.word w)
termination_by node => 2 * sizeOf node

/-- Several trees, each with every `near` brought down to words. -/
def distributeAll : List QueryTree → Except Error (List QueryTree)
  | [] => .ok []
  | child :: rest =>
    match child.distribute with
    | .error e => .error e
    | .ok child => (distributeAll rest).map (child :: ·)
termination_by children => 2 * sizeOf children

/-- One `near` between operands that are still whole. If the left one is a chain,
    the new link begins at the chain's last operand. -/
def connect (negated : Bool) (left right : QueryTree) : Except Error QueryTree :=
  match left with
  | .near n first last =>
    -- The last operand of the chain takes part in both links.
    match connect negated last right with
    | .error e => .error e
    | .ok pair =>
      match connect n first last with
      | .error e => .error e
      | .ok before => .ok (.and (before.conjuncts ++ pair.conjuncts))
  | left =>
    match left.distribute with
    | .error e => .error e
    | .ok left =>
      match right.distribute with
      | .error e => .error e
      | .ok right => spreadOver negated right left
termination_by 2 * (sizeOf left + sizeOf right) + 1

end

end QueryTree

end Concordance
