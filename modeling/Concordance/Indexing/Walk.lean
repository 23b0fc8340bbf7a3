import Concordance.Indexing.Session

/-!
# Walking a Directory

The text files below a directory, one after the other.

A directory's files come by name, and after them its subdirectories by name,
each with everything in it. Because the order depends on names alone, documents
get the same ids whenever the same tree is walked. Symbolic links inside a
directory are passed over. A single file may be named instead of a directory,
and is then taken whatever its extension is.

Names add up on the way down. What has a path that is too long for the file
system can not be looked at, and counts as skipped whatever it is.

The walk keeps a list of directories still to be visited. Visiting one puts its
subdirectories in front of the others, which is what completes one subdirectory
before the next one begins.

## Main definitions

* `WalkOptions`: Which files are taken, and whether subdirectories are visited.
* `Walk.Finding`: What a walk comes upon.
* `Walk.visit`: What there is below directories, in order.
* `Session.addTree`: Indexing what a path leads to.

## Theorems

* `subdirectories_weight_le`: Subdirectories have less in them.
-/

namespace Concordance

/-- Which files a walk takes. -/
structure WalkOptions where
  /-- Extensions without their dot; the case of ASCII letters does not matter. -/
  extensions : List String := ["txt", "text", "md"]
  /-- Are subdirectories visited? -/
  recursive : Bool := true
deriving DecidableEq, Repr

/-- What a walk met. -/
structure WalkStats where
  files : Nat := 0
  skipped : Nat := 0
  bytes : Nat := 0
deriving DecidableEq, Repr

namespace Walk

/-- A directory that is to be visited: its path and what is in it. -/
abbrev Pending := String × List (String × Node)

/-- What a walk comes upon. -/
inductive Finding where
  /-- A wanted file. -/
  | file (path : String) (content : Bytes)
  /-- Something that can not be looked at. -/
  | skipped (path : String)
deriving DecidableEq, Repr

/-- Has a file one of the wanted extensions? -/
def takes (options : WalkOptions) (path : String) : Bool :=
  match Path.extension path with
  | none => false
  | some extension =>
    options.extensions.any fun wanted =>
      wanted.toList.map Char.toLower = extension.toList.map Char.toLower

/-- The entries of a directory by name. -/
def byName (entries : List (String × Node)) : List (String × Node) :=
  entries.mergeSort fun a b => decide (Utf8.bytes a.1 ≤ Utf8.bytes b.1)

/-- What a walk comes upon in a directory. -/
def findings (options : WalkOptions) (path : String) (entries : List (String × Node)) :
    List Finding :=
  entries.filterMap fun (name, node) =>
    let below := Path.join path name
    -- Whether it is a file can not be told of something that can not be looked at.
    if Disk.fits below then
      match node with
      | .file content => if takes options below then some (.file below content) else none
      | _ => none
    else some (.skipped below)

/-- The subdirectories of a directory. -/
def subdirectories (path : String) (entries : List (String × Node)) : List Pending :=
  entries.filterMap fun (name, node) =>
    match node with
    | .directory below =>
      if Disk.fits (Path.join path name) then some (Path.join path name, below) else none
    | _ => none

mutual

/-- The number of files, links and directories in a node, itself included. -/
def nodeWeight : Node → Nat
  | .file _ => 1
  | .link _ => 1
  | .directory entries => entriesWeight entries + 1

/-- The number of files, links and directories in the entries of a directory. -/
def entriesWeight : List (String × Node) → Nat
  | [] => 0
  | entry :: rest => entryWeight entry + entriesWeight rest

/-- The number of files, links and directories in one entry. -/
def entryWeight : String × Node → Nat
  | (_, node) => nodeWeight node

end

/-- What directories that are to be visited have in them. -/
def pendingWeight (pending : List Pending) : Nat :=
  total (fun (_, entries) => entriesWeight entries + 1) pending

/-- The weights of entries, added up. -/
theorem entriesWeight_eq (entries : List (String × Node)) :
    entriesWeight entries = total entryWeight entries := by
  induction entries with
  | nil => simp [entriesWeight]
  | cons entry rest ih => simp [entriesWeight, ih]

/-- Putting entries in order leaves their weight. -/
theorem entriesWeight_byName (entries : List (String × Node)) :
    entriesWeight (byName entries) = entriesWeight entries := by
  rw [entriesWeight_eq, entriesWeight_eq]
  exact total_perm entryWeight (List.mergeSort_perm entries _)

/-- Subdirectories weigh no more than the entries that they are among. -/
theorem subdirectories_weight_le (path : String) (entries : List (String × Node)) :
    pendingWeight (subdirectories path entries) ≤ entriesWeight entries := by
  induction entries with
  | nil => simp [subdirectories, pendingWeight]
  | cons entry rest ih =>
    obtain ⟨name, node⟩ := entry
    cases node with
    | file content =>
      simp only [subdirectories, List.filterMap_cons, entriesWeight, entryWeight, nodeWeight] at *
      omega
    | link target =>
      simp only [subdirectories, List.filterMap_cons, entriesWeight, entryWeight, nodeWeight] at *
      omega
    | directory below =>
      by_cases h : Disk.fits (Path.join path name)
      · simp only [subdirectories, List.filterMap_cons, entriesWeight, entryWeight, nodeWeight,
          pendingWeight, total_cons, h, if_true] at *
        omega
      · simp only [subdirectories, List.filterMap_cons, entriesWeight, entryWeight, nodeWeight,
          h, if_false, Bool.false_eq_true] at *
        omega

/-- What a walk comes upon in the directories that are to be visited, and in
    those below them, in order. -/
def visit (options : WalkOptions) : List Pending → List Finding
  | [] => []
  | (path, entries) :: pending =>
    let entries' := byName entries
    -- What is below comes before the other directories that are left.
    let below := if options.recursive then subdirectories path entries' else []
    findings options path entries' ++ visit options (below ++ pending)
termination_by pending => pendingWeight pending
decreasing_by
  have h := subdirectories_weight_le path (byName entries)
  rw [entriesWeight_byName] at h
  split
  · simp only [pendingWeight, total_append, total_cons] at *
    omega
  · simp only [pendingWeight, List.nil_append, total_cons]
    omega

end Walk

namespace Session

/-- Indexes one file. Bytes that are no text are read as replacement
    characters. -/
def addText (session : Session) (path : String) (content : Bytes) : Session :=
  let (session, directory) := session.internDirectory ((Path.parent path).getD "")
  session.addDocument directory ((Path.fileName path).getD "") (UInt64.ofNat content.length) none
    [.text (Utf8.decodeLossy content) none]

/-- Indexes the files that a walk came upon, and counts what it came upon. -/
def addFindings (session : Session) (stats : WalkStats) :
    List Walk.Finding → Session × WalkStats
  | [] => (session, stats)
  | .file path content :: rest =>
    (session.addText path content).addFindings
      { stats with files := stats.files + 1, bytes := stats.bytes + content.length } rest
  | .skipped _ :: rest =>
    session.addFindings { stats with skipped := stats.skipped + 1 } rest

/-- Indexes the file that a path names, or the wanted files below the directory
    that it leads to. What is no directory to be read is skipped. -/
def addTree (session : Session) (disk : Disk) (path : String) (options : WalkOptions) :
    Except Error (Session × WalkStats) :=
  match disk.node false path with
  | .error cause => .error (.cannotOpen path cause)
  | .ok (.file content) => .ok (session.addFindings {} [.file path content])
  | .ok _ =>
    match disk.list path with
    | .error _ => .ok (session.addFindings {} [.skipped path])
    | .ok entries => .ok (session.addFindings {} (Walk.visit options [(path, entries)]))

end Session

end Concordance
