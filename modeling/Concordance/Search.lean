import Concordance.Query.Evaluation
import Concordance.Query.Lexer
import Concordance.Search.Options
import Concordance.Query.Parser
import Concordance.Query.Proximity

/-!
# Searching

From the text of a query to a page of ranked documents.

The text is folded and cut into tokens, the tokens are parsed while words are
looked up, nearness is spread, and the tree is evaluated. The scores of the
matching documents become ranks on a scale on which the best document has one
hundred. Documents are listed by rank, the best first, and by id where ranks are
equal, so that pages of one result never overlap.

## Main definitions

* `Searcher`: An index with the choices made about queries.
* `Searcher.parse`: The tree of a query.
* `Searcher.ranked`: All matching documents.
* `Searcher.search`: One page of them.
-/

namespace Concordance

/-- A document of a result. -/
structure Hit where
  document : UInt32
  /-- From one to a hundred, relative to the best document. -/
  rank : Nat
  path : String
  size : UInt64
  title : String
deriving DecidableEq, Repr

/-- One page of a result. -/
structure ResultPage where
  /-- The number of documents on all pages. -/
  total : Nat
  hits : List Hit
  /-- The words that took no part. -/
  ignored : WordSet
deriving DecidableEq, Repr

/-- An index with the choices made about queries. -/
structure Searcher where
  index : Index
  options : SearchOptions := {}
  /-- The stemmer that the index was built with. -/
  stemmer : String → String := id

namespace Searcher

/-- How the words of a query are looked up. -/
def lookup (searcher : Searcher) : Parser.Lookup :=
  { index := searcher.index, stemmer := searcher.stemmer, sizes := searcher.options.sizes }

/-- The tree of a query as it will be evaluated, and the words that were left out
    of it. -/
def parse (searcher : Searcher) (query : String) : Except Error (QueryTree × WordSet) := do
  let tokens ← tokenize (Text.fold query)
  let (tree, ignored) ← Parser.parse searcher.lookup tokens
  let tree ← tree.distribute
  .ok (tree, ignored)

/-- How trees are evaluated. -/
def evaluation (searcher : Searcher) : Evaluation :=
  { index := searcher.index
    limit := searcher.options.spread
    reach := searcher.options.reach }

/-- Is one document listed before another, or are they the same? -/
def listedBefore (a b : UInt32 × Nat) : Bool :=
  b.2 < a.2 || (a.2 == b.2 && a.1 ≤ b.1)

/-- Scored documents by rank, the best first. -/
def rankScores (scores : Scores) : List (UInt32 × Nat) :=
  -- All ranks of a query are relative to one score, whatever page is asked for.
  let top := (scores.map Prod.snd).foldl max 0
  (scores.map fun (document, score) => (document, Rank.relative score top)).mergeSort
    listedBefore

/-- All documents that match a query with their ranks, and the words that took no
    part. -/
def ranked (searcher : Searcher) (query : String) :
    Except Error (List (UInt32 × Nat) × WordSet) := do
  searcher.options.validate
  let (tree, left) ← searcher.parse query
  let (scores, ignored) ← tree.eval searcher.evaluation []
  .ok (rankScores scores, WordSet.union ignored left)

/-- A document of a result, with what the index says about it. -/
def hit (searcher : Searcher) (document : UInt32) (rank : Nat) : Except Error Hit := do
  let record ← searcher.index.document document
  let path ← searcher.index.pathOf record
  .ok { document, rank, path, size := record.size, title := record.title }

/-- The documents of a page. -/
def page (options : SearchOptions) (ranked : List (UInt32 × Nat)) : List (UInt32 × Nat) :=
  match options.pageSize with
  | none => ranked.drop options.pageStart
  | some limit => (ranked.drop options.pageStart).take limit

/-- One page of the documents that match a query. -/
def search (searcher : Searcher) (query : String) : Except Error ResultPage := do
  let (ranked, ignored) ← searcher.ranked query
  let hits ← collect ((page searcher.options ranked).map fun (document, rank) =>
    searcher.hit document rank)
  .ok { total := ranked.length, hits, ignored }

end Searcher

end Concordance
