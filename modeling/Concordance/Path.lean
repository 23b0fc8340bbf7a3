/-!
# Paths

The text of a file path, taken apart and put together.

A path is names with slashes between them. Empty names and dots after the first
place mean nothing, and so a path is looked at without what trails behind its
last name. A leading dot stays, because `./a` and `a` are told apart where paths
are shown.

## Main definitions

* `Path.join`: A name inside a directory.
* `Path.parent`, `Path.fileName`, `Path.extension`: The parts of a path.
* `Path.names`, `Path.steps`: The names in it, and the names to walk along.
-/

namespace Concordance

namespace Path

/-- Does the path begin at the root? -/
def isAbsolute (path : String) : Bool :=
  path.toList.head? = some '/'

/-- The path of `name` as seen from `directory`. An absolute name stays as it
    is. -/
def join (directory name : String) : String :=
  if isAbsolute name || directory.isEmpty then name
  else if directory.toList.getLast? = some '/' then directory ++ name
  else directory ++ "/" ++ name

/-- A path, written backwards, without the slashes and dots behind its last
    name. The root stays. -/
def dropTrailing : List Char → List Char
  | '.' :: '/' :: rest => dropTrailing ('/' :: rest)
  | ['/'] => ['/']
  | '/' :: rest => dropTrailing rest
  | rest => rest

/-- The path before the last name and the last name, both written backwards. No
    last name means that the path is the root or empty. -/
def splitLast (path : String) : List Char × List Char :=
  let trimmed := dropTrailing path.toList.reverse
  if trimmed = ['/'] then ([], [])
  else (trimmed.dropWhile (· ≠ '/'), trimmed.takeWhile (· ≠ '/'))

/-- The directory that a path lies in: empty for a single name, and nothing for
    the root and the empty path. -/
def parent (path : String) : Option String :=
  match splitLast path with
  | (_, []) => none
  | (before, _) => some (String.ofList (dropTrailing before).reverse)

/-- The last name of a path, unless it only points elsewhere. -/
def fileName (path : String) : Option String :=
  match splitLast path with
  | (_, []) => none
  | (_, ['.']) => none
  | (_, ['.', '.']) => none
  | (_, name) => some (String.ofList name.reverse)

/-- What the last name has behind its last dot. A dot in front does not count. -/
def extension (path : String) : Option String :=
  match fileName path with
  | none => none
  | some name =>
    let backwards := name.toList.reverse
    match backwards.dropWhile (· ≠ '.') with
    | [] | [_] => none
    | _ :: _ :: _ => some (String.ofList (backwards.takeWhile (· ≠ '.')).reverse)

/-- Cuts a path at its slashes. -/
def cut : List Char → List (List Char)
  | [] => [[]]
  | c :: cs =>
    if c = '/' then [] :: cut cs
    else
      match cut cs with
      | name :: rest => (c :: name) :: rest
      | [] => [[c]]

/-- The names in a path, in order. -/
def names (path : String) : List String :=
  ((cut path.toList).filter fun name => !name.isEmpty).map String.ofList

/-- Does the path end in a slash? -/
def endsInSlash (path : String) : Bool :=
  path.toList.getLast? = some '/'

/-- The names to walk along. A slash at the end asks for a directory, which the
    name of the directory itself does too. -/
def steps (path : String) : List String :=
  if endsInSlash path then names path ++ ["."] else names path

end Path

end Concordance
