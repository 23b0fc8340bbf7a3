import Concordance.Error
import Concordance.Path
import Concordance.Utf8

/-!
# File Trees

A file system as a value: directories, files, and symbolic links.

A path is resolved by walking from the root or from the working directory, name
by name. A link met on the way is replaced by the path it holds. A link in the
last place is replaced only where the caller follows links, and the number of
links on one walk is bounded, because links can go round in a circle. Names and
whole paths are bounded in size as well.

What resolution yields is a location, the names from the root with no link among
them. Everything that reads or changes the tree works on locations.

## Main definitions

* `Node`: A file, a link, or a directory.
* `Disk`: A tree and a working directory.
* `Disk.resolve`: The location that a path leads to.
* `Disk.read`, `Disk.openFile`, `Disk.list`: Reading.
* `Disk.put`, `Disk.erase`, `Disk.moveOnto`: Changing at a location.
* `Disk.makeDirectory`, `Disk.write`, `Disk.link`: Making what a path names.
-/

namespace Concordance

/-- What a name in a directory stands for. -/
inductive Node where
  | file (content : Bytes)
  /-- A symbolic link, with the path that it holds. -/
  | link (target : String)
  | directory (entries : List (String × Node))

namespace Node

/-- The entry of a directory by its name. -/
def lookup (name : String) : List (String × Node) → Option Node
  | [] => none
  | (other, node) :: rest => if other = name then some node else lookup name rest

/-- The entries of a directory with one put in: in the place of the entry with
    its name, or behind all others. -/
def insert (name : String) (node : Node) : List (String × Node) → List (String × Node)
  | [] => [(name, node)]
  | (other, old) :: rest =>
    if other = name then (name, node) :: rest else (other, old) :: insert name node rest

/-- The entries of a directory without the one of a name. -/
def remove (name : String) (entries : List (String × Node)) : List (String × Node) :=
  entries.filter fun (other, _) => other ≠ name

/-- What lies at a location below a node. -/
def get? : Node → List String → Option Node
  | node, [] => some node
  | .directory entries, name :: rest =>
    match lookup name entries with
    | some node => node.get? rest
    | none => none
  | _, _ :: _ => none

/-- Changes the entries of the directory at a location; nothing changes where
    there is none. -/
def modifyEntries (f : List (String × Node) → List (String × Node)) :
    Node → List String → Node
  | .directory entries, [] => .directory (f entries)
  | .directory entries, name :: rest =>
    match lookup name entries with
    | some node => .directory (insert name (modifyEntries f node rest) entries)
    | none => .directory entries
  | node, _ => node

end Node

/-- A tree of files, and the directory that relative paths begin at. -/
structure Disk where
  root : Node := .directory []
  workingDirectory : List String := []

namespace Disk

/-- The most links on one walk. -/
def maxLinks : Nat := 40

/-- The most bytes in one name. -/
def maxName : Nat := 255

/-- The most bytes in a path. -/
def maxPath : Nat := 4095

/-- What a name stands for in the directory at a location, if it is there. -/
def entry? (root : Node) (here : List String) (name : String) : Except OsError (Option Node) :=
  if maxName < name.utf8ByteSize then .error .nameTooLong
  else .ok (root.get? (here ++ [name]))

/-- Walks from a directory along names, with at most `links` links on the way.
    A link in the last place is passed through only if it is to be followed. -/
def walk (root : Node) (follow : Bool) :
    (links : Nat) → (here : List String) → (names : List String) → Except OsError (List String)
  | _, here, [] => .ok here
  | links, here, name :: rest =>
    if name = "." then walk root follow links here rest
    else if name = ".." then walk root follow links here.dropLast rest
    else
      match entry? root here name with
      | .error cause => .error cause
      | .ok none => .error .noSuchFile
      | .ok (some (.directory _)) => walk root follow links (here ++ [name]) rest
      | .ok (some (.file _)) =>
        if rest.isEmpty then .ok (here ++ [name]) else .error .notDirectory
      | .ok (some (.link target)) =>
        if rest.isEmpty && !follow then .ok (here ++ [name])
        else
          -- The names of the target come first, from the directory that the link is in.
          match links with
          | 0 => .error .tooManyLinks
          | links + 1 =>
            walk root follow links (if Path.isAbsolute target then [] else here)
              (Path.steps target ++ rest)
termination_by links _ names => (links, names.length)

/-- The directory that a path is walked from. -/
def start (disk : Disk) (path : String) : List String :=
  if Path.isAbsolute path then [] else disk.workingDirectory

/-- Is a path short enough to be walked? -/
def fits (path : String) : Bool :=
  path.utf8ByteSize ≤ maxPath

/-- Refuses a path that is never walked: no name has a NUL in it, an empty path
    leads nowhere, and there is a longest path. -/
def checkPath (path : String) : Except OsError Unit :=
  if path.toList.contains '\x00' then .error .nulInPath
  else if path.isEmpty then .error .noSuchFile
  else if fits path then .ok ()
  else .error .nameTooLong

/-- The location that a path leads to. -/
def resolve (disk : Disk) (follow : Bool) (path : String) : Except OsError (List String) := do
  checkPath path
  walk disk.root follow maxLinks (disk.start path) (Path.steps path)

/-- What a path leads to. -/
def node (disk : Disk) (follow : Bool) (path : String) : Except OsError Node := do
  let location ← disk.resolve follow path
  match disk.root.get? location with
  | some node => .ok node
  | none => .error .noSuchFile

/-- Does a path lead anywhere? -/
def exists? (disk : Disk) (path : String) : Bool :=
  (disk.node true path).isOk

/-- The content of a file. -/
def read (disk : Disk) (path : String) : Except OsError Bytes := do
  match ← disk.node true path with
  | .file content => .ok content
  | _ => .error .isDirectory

/-- The content of a file that is to be read at any place, which a directory
    does not allow. -/
def openFile (disk : Disk) (path : String) : Except OsError Bytes := do
  match ← disk.node true path with
  | .file content => .ok content
  | _ => .error .noSuchDevice

/-- The entries of a directory. -/
def list (disk : Disk) (path : String) : Except OsError (List (String × Node)) := do
  match ← disk.node true path with
  | .directory entries => .ok entries
  | _ => .error .notDirectory

/-- The working directory as a path from the root. -/
def workingPath (disk : Disk) : String :=
  "/" ++ "/".intercalate disk.workingDirectory

/-- The location of a directory in which an entry of a name can be made. The
    empty path is the working directory here, and the path of the new entry from
    the root has to be one that can be walked. -/
def directoryAt (disk : Disk) (path name : String) : Except OsError (List String) := do
  checkPath (Path.join (Path.join disk.workingPath path) name)
  let location ← disk.resolve true (if path.isEmpty then "." else path)
  match disk.root.get? location with
  | some (.directory _) => .ok location
  | _ => .error .notDirectory

/-- Puts an entry into the directory at a location. -/
def put (disk : Disk) (location : List String) (name : String) (node : Node) : Disk :=
  { disk with root := disk.root.modifyEntries (Node.insert name node) location }

/-- Takes an entry out of the directory at a location. -/
def erase (disk : Disk) (location : List String) (name : String) : Disk :=
  { disk with root := disk.root.modifyEntries (Node.remove name) location }

/-- Moves the file `name` of the directory at a location onto a path: a file or
    link that is there gives way, a directory does not. A slash behind the path
    asks for a directory, which a file can not become. -/
def moveOnto (disk : Disk) (location : List String) (name : String) (path : String) :
    Except OsError Disk := do
  checkPath path
  match (Path.names path).reverse with
  | [] => .error .busy
  | last :: before =>
    -- The dot asks for a directory. The last name itself is not followed.
    let there ← walk disk.root true maxLinks (disk.start path) (before.reverse ++ ["."])
    if last = "." ∨ last = ".." then .error .busy
    else
      let some node := disk.root.get? (location ++ [name]) | .error .noSuchFile
      let old ← entry? disk.root there last
      if Path.endsInSlash path then .error .notDirectory
      else
        match old with
        | some (.directory _) => .error .isDirectory
        | _ => .ok ((disk.erase location name).put there last node)

/-- Makes the directories along names that are not there yet, and yields the
    last one. What is there and leads to no directory is in the way. -/
def makeDirectories (disk : Disk) : (here : List String) → (names : List String) →
    Except OsError (Disk × List String)
  | here, [] => .ok (disk, here)
  | here, name :: rest =>
    if name = "." ∨ name = ".." then do
      makeDirectories disk (← walk disk.root true maxLinks here [name]) rest
    else
      match entry? disk.root here name with
      | .error cause => .error cause
      | .ok none => makeDirectories (disk.put here name (.directory [])) (here ++ [name]) rest
      | .ok (some _) =>
        -- A link is as good as a directory if it leads to one.
        match walk disk.root true maxLinks here [name, "."] with
        | .ok there => makeDirectories disk there rest
        | .error cause =>
          .error (if rest.isEmpty ∨ cause = .noSuchFile then .alreadyThere else cause)

/-- Makes a directory, and those that it lies in. -/
def makeDirectory (disk : Disk) (path : String) : Except OsError Disk :=
  if path.isEmpty then .ok disk
  else do
    checkPath path
    let (disk, _) ← disk.makeDirectories (disk.start path) (Path.names path)
    .ok disk

/-- The directory and the name of the file that is written at a name: a link is
    followed, at most `links` times, to a name that need not be there yet. -/
def writable (root : Node) : (links : Nat) → (here : List String) → (name : String) →
    Except OsError (List String × String)
  | links, here, name =>
    match entry? root here name with
    | .error cause => .error cause
    | .ok (some (.directory _)) => .error .isDirectory
    | .ok (some (.link target)) =>
      match links, (Path.names target).reverse with
      | 0, _ => .error .tooManyLinks
      | _, [] => .error .isDirectory
      | links + 1, last :: before => do
        let here := if Path.isAbsolute target then [] else here
        let there ← walk root true links here (before.reverse ++ ["."])
        if last = "." ∨ last = ".." ∨ Path.endsInSlash target then .error .isDirectory
        else writable root links there last
    | _ => .ok (here, name)

/-- Writes a file where a path leads, and makes the directories that it lies in. -/
def write (disk : Disk) (path : String) (content : Bytes) : Except OsError Disk := do
  checkPath path
  match (Path.names path).reverse with
  | [] => .error .isDirectory
  | last :: before =>
    let (disk, here) ← disk.makeDirectories (disk.start path) before.reverse
    if last = "." ∨ last = ".." ∨ Path.endsInSlash path then .error .isDirectory
    else
      let (there, name) ← writable disk.root maxLinks here last
      .ok (disk.put there name (.file content))

/-- Makes a link to a path where there is nothing yet, and the directories that
    it lies in. -/
def link (disk : Disk) (path target : String) : Except OsError Disk := do
  checkPath target
  checkPath path
  match (Path.names path).reverse with
  | [] => .error .alreadyThere
  | last :: before =>
    let (disk, here) ← disk.makeDirectories (disk.start path) before.reverse
    if last = "." ∨ last = ".." then .error .alreadyThere
    else
      match ← entry? disk.root here last with
      | some _ => .error .alreadyThere
      | none =>
        if Path.endsInSlash path then .error .noSuchFile
        else .ok (disk.put here last (.link target))

end Disk

end Concordance
