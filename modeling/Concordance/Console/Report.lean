import Concordance.Console.Json
import Concordance.Indexing.Publication
import Concordance.Search

/-!
# Reports

What a person or a script is shown about an index or a result.

A person gets plain lines, with a little colour on a terminal; a script gets
JSON. A colour is switched on before a text and off behind it, and a text that
is padded is padded together with its colour.

## Main definitions

* `Display`: With colour or without.
* `Report.results`, `Report.stats`, `Report.summary`: Lines for a person.
* `Report.resultsJson`, `Report.statsJson`, `Report.summaryJson`: For a script.
-/

namespace Concordance

/-- How a text is shown on a terminal. -/
structure Display where
  color : Bool := false
deriving DecidableEq, Repr

/-- What a terminal can do to a text. -/
inductive Paint where
  | bold
  | dim
  | green
  | yellow
deriving DecidableEq, Repr

/-- The code that switches a paint on. -/
def Paint.code : Paint → String
  | .bold => "\x1b[1m"
  | .dim => "\x1b[2m"
  | .green => "\x1b[32m"
  | .yellow => "\x1b[33m"

namespace Display

/-- A painted text. -/
def paint (display : Display) (paint : Paint) (text : String) : String :=
  if display.color then paint.code ++ text ++ "\x1b[0m" else text

/-- A rank, three places wide, painted by how good it is. -/
def rank (display : Display) (rank : Nat) : String :=
  let digits := toString rank
  let text := String.ofList (List.replicate (3 - digits.length) ' ') ++ digits
  display.paint (if 75 ≤ rank then .green else if 25 ≤ rank then .yellow else .dim) text

end Display

namespace Report

/-- A text with spaces behind it up to a width. -/
def padded (width : Nat) (text : String) : String :=
  text ++ String.ofList (List.replicate (width - text.length) ' ')

/-- One line of a result. -/
def hitLine (display : Display) (hit : Hit) : String :=
  display.rank hit.rank ++ " " ++ hit.path ++ " " ++ toString hit.size.toNat ++ " " ++ hit.title
    ++ "\n"

/-- A result: the words that took no part, the number of documents, and a line
    for each document of the page. -/
def results (display : Display) (found : ResultPage) : String :=
  let ignored :=
    if found.ignored.isEmpty then ""
    else display.paint .dim ("# ignored: " ++ " ".intercalate found.ignored) ++ "\n"
  let total := display.paint .bold ("# results: " ++ toString found.total) ++ "\n"
  ignored ++ total ++ String.join (found.hits.map (hitLine display))

/-- The sizes of an index, a line for each. -/
def stats (display : Display) (sizes : Stats) : String :=
  let rows := [("bytes", sizes.bytes), ("words", sizes.words), ("stop words", sizes.stopWords),
    ("directories", sizes.directories), ("files", sizes.files), ("meta names", sizes.metaNames)]
  String.join (rows.map fun (label, value) =>
    padded 12 (display.paint .dim label) ++ " " ++ toString value ++ "\n")

/-- What came out of a merge, in one line. -/
def summary (display : Display) (merged : PublicationSummary) (files : Nat) : String :=
  display.paint .green "indexed" ++ s!" {files} files, {merged.words} words, "
    ++ s!"{merged.stopWords} stop words ({merged.demoted.length} demoted) "
    ++ s!"from {merged.sources} sources\n"

/-- A document of a result. -/
def hitJson (hit : Hit) : Json :=
  .object [("doc_id", .integer hit.document.toNat), ("rank", .integer hit.rank),
    ("path", .string hit.path), ("size", .integer hit.size.toNat), ("title", .string hit.title)]

/-- A result. -/
def resultsJson (found : ResultPage) : Json :=
  .object [("total", .integer found.total), ("hits", .list (found.hits.map hitJson)),
    ("ignored", .list (found.ignored.map .string))]

/-- The sizes of an index. -/
def statsJson (sizes : Stats) : Json :=
  .object [("bytes", .integer sizes.bytes), ("words", .integer sizes.words),
    ("stop_words", .integer sizes.stopWords), ("directories", .integer sizes.directories),
    ("files", .integer sizes.files), ("meta_names", .integer sizes.metaNames)]

/-- What came out of a merge. -/
def summaryJson (merged : PublicationSummary) : Json :=
  .object [("sources", .integer merged.sources), ("words", .integer merged.words),
    ("stop_words", .integer merged.stopWords), ("demoted", .list (merged.demoted.map .string))]

end Report

end Concordance
