import Concordance.Console.Arguments
import Concordance.Indexing.Walk
import Concordance.Search.Options
import Concordance.StopWords.Source

/-!
# Commands

What the command line can be asked to do.

There are three commands: one builds an index, one searches it, and one shows how
large it is. Each has a grammar for its arguments and a reading of what was
given; what was not given is at its default. An option that only makes the log
longer may stand before the name of the command as well as behind it.

## Main definitions

* `IndexCommand`, `SearchCommand`, `InspectCommand`: The three commands.
* `Command.read`: The command that arguments ask for.
-/

namespace Concordance

namespace Console

/-- Builds an index. -/
structure IndexCommand where
  /-- Files and directories to be indexed. -/
  inputs : List String
  output : String
  /-- Is an index that is there already to be added to? -/
  append : Bool
  walk : WalkOptions
  stopWords : StopWords.Source
  options : IndexingOptions
  json : Bool
deriving DecidableEq, Repr

/-- Searches an index. -/
structure SearchCommand where
  index : String
  query : String
  options : SearchOptions
  json : Bool
deriving DecidableEq, Repr

/-- Shows the size of an index. -/
structure InspectCommand where
  index : String
  json : Bool
deriving DecidableEq, Repr

/-- What the command line can be asked to do. -/
inductive Command where
  | index (order : IndexCommand)
  | search (order : SearchCommand)
  | inspect (order : InspectCommand)
deriving DecidableEq, Repr

/-! ## Options -/

namespace Choice

/-- A longer log. -/
def verbose : OptionForm :=
  { name := "verbose", letter := some 'v', kind := .count }

/-- A report for a script. -/
def json : OptionForm :=
  { name := "json", kind := .flag }

/-- The file to be written. -/
def output : OptionForm :=
  { name := "output", letter := some 'o', kind := .path }

/-- Whether an index is added to. -/
def append : OptionForm :=
  { name := "append", letter := some 'a', kind := .flag }

/-- The extensions of text files, with or without their dot. -/
def extensions : OptionForm :=
  { name := "extensions", letter := some 'e', kind := .texts }

/-- Whether subdirectories are left alone. -/
def noRecurse : OptionForm :=
  { name := "no-recurse", kind := .flag }

/-- A word list. -/
def stopWords : OptionForm :=
  { name := "stop-words", kind := .path }

/-- Whether there are no stop words. -/
def noStopWords : OptionForm :=
  { name := "no-stop-words", kind := .flag }

/-- The number of words held in memory. -/
def runSize : OptionForm :=
  { name := "word-threshold", letter := some 'W', kind := .natural UInt64.size }

/-- The place for words that are written out. -/
def scratch : OptionForm :=
  { name := "temp-dir", kind := .path }

/-- The number of documents that a word may be in. -/
def maxDocuments : OptionForm :=
  { name := "files-max", letter := some 'f', kind := .natural UInt64.size }

/-- The percentage of documents that a word may be in. -/
def maxPercent : OptionForm :=
  { name := "percent-max", letter := some 'p', kind := .signed 101 }

/-- The size of the shortest word. -/
def minWord : OptionForm :=
  { name := "min-word", kind := .natural UInt64.size }

/-- The size of the longest word. -/
def maxWord : OptionForm :=
  { name := "max-word", kind := .natural UInt64.size }

/-- The number of results on a page. -/
def pageSize : OptionForm :=
  { name := "max-results", letter := some 'm', kind := .natural UInt64.size }

/-- The number of results before the page. -/
def skip : OptionForm :=
  { name := "skip", letter := some 's', kind := .natural UInt64.size }

/-- How far apart near words may be. -/
def distance : OptionForm :=
  { name := "distance", letter := some 'd', kind := .signed UInt32.size }

end Choice

/-! ## Reading -/

namespace Given

/-- The limits on common words that were given. -/
def spread (given : Given) : SpreadLimit :=
  let base : SpreadLimit := {}
  { maxDocuments := given.number Choice.maxDocuments base.maxDocuments
    maxPercent := given.number Choice.maxPercent base.maxPercent }

/-- The sizes of words that were given. -/
def sizes (given : Given) : Word.Sizes :=
  let base : Word.Sizes := {}
  { smallest := given.number Choice.minWord base.smallest
    largest := given.number Choice.maxWord base.largest }

/-- The extensions that were given, without the dots in front. -/
def extensions (given : Given) : List String :=
  match given.values Choice.extensions with
  | [] => ({} : WalkOptions).extensions
  | values =>
    (values.flatMap fun value => value.splitOn ",").map fun extension =>
      String.ofList (extension.toList.dropWhile (· = '.'))

end Given

namespace IndexCommand

/-- The arguments of this command. -/
def grammar : Grammar where
  options := [Choice.verbose, Choice.output, Choice.append, Choice.extensions, Choice.noRecurse,
    Choice.stopWords, Choice.noStopWords, Choice.runSize, Choice.scratch, Choice.maxDocuments,
    Choice.maxPercent, Choice.minWord, Choice.maxWord, Choice.json]
  further := some .path

/-- The command for what was given: something to index and a place to write to
    are needed, and a word list and no stop words exclude each other. -/
def ofGiven (given : Given) : Except Stop IndexCommand := do
  if given.positional.isEmpty then .error .mistake
  let some output := given.value? Choice.output | .error .mistake
  let stopWords ←
    match given.value? Choice.stopWords, given.has Choice.noStopWords with
    | some _, true => .error .mistake
    | some path, false => .ok (.file path)
    | none, true => .ok .nowhere
    | none, false => .ok .builtin
  let base : IndexingOptions := {}
  .ok {
    inputs := given.positional
    output
    append := given.has Choice.append
    walk := { extensions := given.extensions, recursive := !given.has Choice.noRecurse }
    stopWords
    options := {
      runSize := given.number Choice.runSize base.runSize
      spread := given.spread
      sizes := given.sizes
      scratch := given.value? Choice.scratch }
    json := given.has Choice.json }

end IndexCommand

namespace SearchCommand

/-- The arguments of this command. -/
def grammar : Grammar where
  options := [Choice.verbose, Choice.pageSize, Choice.skip, Choice.distance, Choice.maxDocuments,
    Choice.maxPercent, Choice.minWord, Choice.maxWord, Choice.json]
  positional := [.path, .text]

/-- The command for what was given: an index and a query are needed. A page has
    a hundred results unless another number is given. -/
def ofGiven (given : Given) : Except Stop SearchCommand :=
  let base : SearchOptions := {}
  match given.positional with
  | [index, query] =>
    .ok {
      index
      query
      options := {
        spread := given.spread
        reach := given.number Choice.distance base.reach
        pageSize := some (given.number Choice.pageSize 100)
        pageStart := given.number Choice.skip base.pageStart
        sizes := given.sizes }
      json := given.has Choice.json }
  | _ => .error .mistake

end SearchCommand

namespace InspectCommand

/-- The arguments of this command. -/
def grammar : Grammar where
  options := [Choice.verbose, Choice.json]
  positional := [.path]

/-- The command for what was given: an index is needed. -/
def ofGiven (given : Given) : Except Stop InspectCommand :=
  match given.positional with
  | [index] => .ok { index, json := given.has Choice.json }
  | _ => .error .mistake

end InspectCommand

namespace Command

/-- The command of a name, with its arguments read. Help is given on the whole
    program or on one command, and no command has commands of its own. -/
def readNamed (name : String) (arguments : List String) : Except Stop Command :=
  if name = "index" then do
    .ok (.index (← IndexCommand.ofGiven (← IndexCommand.grammar.read arguments)))
  else if name = "search" then do
    .ok (.search (← SearchCommand.ofGiven (← SearchCommand.grammar.read arguments)))
  else if name = "inspect" then do
    .ok (.inspect (← InspectCommand.ofGiven (← InspectCommand.grammar.read arguments)))
  else if name = "help" then
    match arguments with
    | [] => .error .help
    | [topic] =>
      .error (if ["index", "search", "inspect", "help"].contains topic then .help else .mistake)
    | _ => .error .mistake
  else .error .mistake

/-- Reads letters in front of the name of a command: a longer log any number of
    times, or a request for help or for the version. -/
def readLetters : List Char → Except Stop Unit
  | [] => .ok ()
  | letter :: rest =>
    if letter = 'v' then readLetters rest
    else .error (if letter = 'h' || letter = 'V' then .help else .mistake)

/-- The command that arguments ask for. -/
def read : List String → Except Stop Command
  | [] => .error .mistake
  | argument :: rest =>
    match argument.toList with
    | '-' :: '-' :: _ =>
      if argument = "--verbose" then read rest
      else .error (if argument = "--help" || argument = "--version" then .help else .mistake)
    | '-' :: c :: cs =>
      match readLetters (c :: cs) with
      | .error stop => .error stop
      | .ok () => read rest
    | _ => readNamed argument rest

/-- The file that the command leaves behind, if it does. -/
def output? : Command → Option String
  | .index order => some order.output
  | _ => none

end Command

end Console

end Concordance
