import Concordance.Console.Command
import Concordance.Console.Report
import Concordance.Indexing.Publication
import Concordance.Search

/-!
# The Program

What a command does to a disk, and what it says.

A command that succeeds prints its report and nothing else. One that fails prints
no report but a single complaint, which says what was being done and then, one
after the other, what went wrong and why. Arguments that ask for nothing are a
failure of their own kind, because nothing was tried.

## Main definitions

* `Outcome`: How a run of the program ends.
* `Program.run`: A run of the program.
-/

namespace Concordance

namespace Console

/-- How a run of the program ends. -/
inductive Outcome where
  /-- Everything was done; this is the report. -/
  | success (report : String)
  /-- Something went wrong. -/
  | failure (complaint : String)
  /-- The arguments ask for nothing that can be done. -/
  | misuse
  /-- The arguments ask how the program is used. -/
  | help
deriving DecidableEq, Repr

/-- The code that the program exits with. -/
def Outcome.exitCode : Outcome → UInt8
  | .success _ => 0
  | .failure _ => 1
  | .misuse => 2
  | .help => 0

namespace Program

/-- The complaint about an error, with what was being done if that is known. -/
def complaint (doing : Option String) (error : Error) : String :=
  match doing with
  | none => "quarry: " ++ error.report
  | some activity => "quarry: " ++ activity ++ ": " ++ error.report

/-- A report for a person or for a script. -/
def report (json : Bool) (plain : String) (structured : Json) : String :=
  if json then structured.pretty ++ "\n" else plain

/-- The session that a command begins with: one that adds to the index that is
    there, or a new one. -/
def openSession (disk : Disk) (order : IndexCommand) : Except Error Session :=
  if order.append && disk.exists? order.output then
    Session.extend? disk order.output order.options
  else do
    let stopWords ← order.stopWords.load disk
    Session.start? disk order.options stopWords

/-- Indexes all inputs. An error comes with the complaint about it. -/
def indexInputs (disk : Disk) (walk : WalkOptions) (session : Session) :
    List String → Except String Session
  | [] => .ok session
  | input :: rest =>
    match session.addTree disk input walk with
    | .error error => .error (complaint (some ("indexing " ++ input)) error)
    | .ok (session, _) => indexInputs disk walk session rest

/-- Builds an index. -/
def index (disk : Disk) (display : Display) (order : IndexCommand) : Outcome × Disk :=
  match openSession disk order with
  | .error error => (.failure (complaint none error), disk)
  | .ok session =>
    match indexInputs disk order.walk session order.inputs with
    | .error complaint => (.failure complaint, disk)
    | .ok session =>
      match session.finish disk order.output with
      | (.error error, disk) =>
        (.failure (complaint (some ("writing " ++ order.output)) error), disk)
      | (.ok merged, disk) =>
        (.success (report order.json (Report.summary display merged session.files.length)
          (Report.summaryJson merged)), disk)

/-- Opens the index at a path. -/
def openIndex (disk : Disk) (path : String) : Except Error Index :=
  match disk.openFile path with
  | .error cause => .error (.cannotOpen path cause)
  | .ok bytes => Index.open? bytes.toArray

/-- Searches an index. -/
def search (disk : Disk) (display : Display) (order : SearchCommand) : Outcome :=
  let found : Except Error ResultPage := do
    let index ← openIndex disk order.index
    Searcher.search { index, options := order.options } order.query
  match found with
  | .error error => .failure (complaint none error)
  | .ok found =>
    .success (report order.json (Report.results display found) (Report.resultsJson found))

/-- Shows the size of an index. -/
def inspect (disk : Disk) (display : Display) (order : InspectCommand) : Outcome :=
  match openIndex disk order.index with
  | .error error => .failure (complaint none error)
  | .ok index =>
    .success (report order.json (Report.stats display index.stats) (Report.statsJson index.stats))

/-- Carries out a command. -/
def carryOut (disk : Disk) (display : Display) : Command → Outcome × Disk
  | .index order => index disk display order
  | .search order => (search disk display order, disk)
  | .inspect order => (inspect disk display order, disk)

/-- A run of the program. -/
def run (disk : Disk) (display : Display) (arguments : List String) : Outcome × Disk :=
  match Command.read arguments with
  | .error .mistake => (.misuse, disk)
  | .error .help => (.help, disk)
  | .ok command => carryOut disk display command

end Program

end Console

end Concordance
