import Concordance.Console.Program

/-!
# The Command Line

Runs a command on the files of this machine.

A command works on a file tree that is a value. What the command will look at is
therefore copied into such a tree first: the inputs with everything in them, the
directory that the index is going to lie in by its names, and single files. The
command is carried out there. If it has published an index, the finished bytes
are written beside the place that was asked for and moved there.

Links on the way to a path are taken for the directories that they lead to, so
the tree has the shape that the names suggest.

## Main definitions

* `Snapshot.load`: A copy of what lies at a path.
* `Snapshot.take`: A copy of all that a command looks at.
* `main`: The program.
-/

namespace Concordance

namespace Snapshot

/-- How much of a directory is copied. -/
inductive Extent where
  /-- No file has its content copied, and directories stay empty. -/
  | outline
  /-- A file with its content, or the names in a directory. -/
  | surface
  /-- Everything. -/
  | whole
deriving DecidableEq, Repr

/-- How much of the entries of a directory is copied. -/
def Extent.below : Extent → Extent
  | .whole => .whole
  | _ => .outline

/-- The text of a path as an entry of the working directory. -/
def entryAt (path : String) : IO.FS.DirEntry :=
  { root := ".", fileName := path }

/-- A copy of what lies at a path, if anything does. -/
partial def load (extent : Extent) (entry : IO.FS.DirEntry) : IO (Option Node) := do
  let some metadata ← (some <$> entry.path.symlinkMetadata) <|> pure none | return none
  match metadata.type with
  | .dir =>
    if extent = .outline then return some (.directory [])
    let mut below := #[]
    for child in ← entry.path.readDir do
      if let some node ← load extent.below child then
        below := below.push (child.fileName, node)
    return some (.directory below.toList)
  | .symlink =>
    let target ← ((·.toString) <$> IO.FS.realPath entry.path) <|> pure "/."
    return some (.link target)
  | _ =>
    if extent = .outline then return some (.file [])
    return some (.file (← IO.FS.readBinFile entry.path).toList)

/-- Puts a copy into a tree, in the place of what may be there. -/
def place (disk : Disk) (path : String) (node : Node) : Disk :=
  let placed := do
    let (disk, here) ← disk.makeDirectories (disk.start path) (Path.steps path).dropLast
    match (Path.steps path).getLast? with
    | none => .ok disk
    | some name =>
      if name = "." ∨ name = ".." then
        match node, (← disk.resolve true path).reverse with
        | .directory _, last :: up => .ok (disk.put up.reverse last node)
        | _, _ => .ok disk
      else .ok (disk.put here name node)
  placed.toOption.getD disk

/-- Copies what lies at a path into a tree, and what it leads to if it is a
    link. What is there already stays, unless everything is asked for. -/
def add (disk : Disk) (extent : Extent) (path : String) : IO Disk := do
  if extent ≠ .whole && (disk.node false path).isOk then return disk
  match ← load extent (entryAt path) with
  | none => return disk
  | some (.link target) =>
    let disk := place disk path (.link target)
    match ← load extent (entryAt target) with
    | some node => return place disk target node
    | none => return disk
  | some node => return place disk path node

/-- A copy of the directory that a new file is going to lie in. -/
def addTarget (disk : Disk) (path : String) : IO Disk := do
  let directory := Contents.directoryOf path
  match ← load .surface (entryAt directory) with
  | some (.directory entries) =>
    let disk := (disk.makeDirectory directory).toOption.getD disk
    return entries.foldl (fun disk (name, node) =>
      let path := Path.join directory name
      if (disk.node false path).isOk then disk else place disk path node) disk
  | _ => return disk

/-- The tree that has nothing in it but the working directory. -/
def bare : IO Disk := do
  let steps := Path.steps (← IO.currentDir).toString
  let disk : Disk := { workingDirectory := steps }
  return (disk.makeDirectory ("/" ++ "/".intercalate steps)).toOption.getD disk

/-- A copy of all that a command looks at. -/
def take (command : Console.Command) : IO Disk := do
  let disk ← bare
  match command with
  | .search order => add disk .surface order.index
  | .inspect order => add disk .surface order.index
  | .index order =>
    let mut disk := disk
    for input in order.inputs do
      disk ← add disk .whole input
    if order.append then
      disk ← add disk .surface order.output
    if let .file path := order.stopWords then
      disk ← add disk .surface path
    if let some path := order.options.scratch then
      disk ← add disk .outline path
    addTarget disk order.output

end Snapshot

namespace Console

/-- How the program is used. -/
def usage : String :=
  "usage: quarry index INPUT... -o INDEX [options]\n" ++
  "       quarry search INDEX QUERY [options]\n" ++
  "       quarry inspect INDEX [--json]\n"

/-- Writes a published index to its place. -/
def publish (disk : Disk) (path : String) : IO Unit := do
  match disk.read path with
  | .error _ => return
  | .ok content =>
    let directory := Contents.directoryOf path
    let entries := (disk.list directory).toOption.getD []
    let fresh := Path.join directory (Contents.unusedName entries)
    IO.FS.writeBinFile fresh ⟨content.toArray⟩
    IO.FS.rename fresh path

/-- Says how a run has ended. -/
def say (outcome : Outcome) : IO Unit := do
  match outcome with
  | .success report => (← IO.getStdout).putStr report
  | .failure complaint => (← IO.getStderr).putStrLn complaint
  | .misuse => (← IO.getStderr).putStr usage
  | .help => (← IO.getStdout).putStr usage

/-- Are colours wanted? -/
def wantsColor : IO Bool := do
  return (← IO.getEnv "NO_COLOR").isNone && (← (← IO.getStdout).isTty)

/-- Carries out what the arguments ask for. -/
def perform (arguments : List String) : IO Outcome := do
  match Command.read arguments with
  | .error .mistake => return .misuse
  | .error .help => return .help
  | .ok command =>
    let disk ← Snapshot.take command
    let (outcome, disk) := Program.carryOut disk { color := ← wantsColor } command
    match outcome, command.output? with
    | .success _, some path => publish disk path
    | _, _ => pure ()
    return outcome

end Console

end Concordance

/-- The program: exits with the code of its outcome. -/
def main (arguments : List String) : IO UInt32 := do
  let outcome ←
    try Concordance.Console.perform arguments
    catch error => pure (.failure s!"quarry: {error}")
  Concordance.Console.say outcome
  return outcome.exitCode.toUInt32
