/-!
# Query Tokens

The pieces of a query: words, wildcards, brackets and operators.

A query always ends in one `finish` token, so that a reader can look ahead
without asking first whether anything is left.

## Main definitions

* `Token`: One piece of a query.
* `Token.describe`: How an error message names a token.
* `Token.spelling`: The text a token stands for in a query.
-/

namespace Concordance

/-- One piece of a query. -/
inductive Token where
  /-- A word to be looked up. -/
  | word (text : String)
  /-- The start of a word, written with a star behind it. -/
  | wildcard (text : String)
  | openParen
  | closeParen
  | equals
  | and
  | or
  | not
  | near
  /-- The end of the query. -/
  | finish
deriving DecidableEq, Repr, Inhabited

namespace Token

/-- The text a token stands for; the end of the query has none. -/
def spelling : Token → String
  | .word text => text
  | .wildcard text => text ++ "*"
  | .openParen => "("
  | .closeParen => ")"
  | .equals => "="
  | .and => "and"
  | .or => "or"
  | .not => "not"
  | .near => "near"
  | .finish => ""

/-- How an error message names the token. -/
def describe : Token → String
  | .finish => "end of query"
  | token => s!"'{token.spelling}'"

end Token

end Concordance
