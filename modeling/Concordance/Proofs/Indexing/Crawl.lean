import Concordance.Proofs.Disk.Walk
import Concordance.Proofs.Indexing.Registration
import Concordance.Proofs.Indexing.Walk

/-!
# Taking In a Directory

What a session has registered once it has walked a directory.

A file that is come upon is taken in like any other document: its directory is registered, and
then it, with its own name as its title. Both are operations that a caller could have asked for
one by one, with one difference. A caller has to know the id of the directory to name it, and
here the session knows it. Ids do not change afterwards, so they are as well told from the
directories that there are in the end, and what a walk does is a list of operations.

How many words a document has is left to the document. It is not known from the tree.

## Main definitions

* `Walk.Found.operations`: What is asked of a session for a file that was found.
* `Session.TakesIn`: A session before and after it has taken in files.

## Theorems

* `Session.addText_takesIn`: One file.
* `Session.foldl_addText_takesIn`: One file after the other.
* `Session.addTree_takesIn`: The files below a directory.
-/

namespace Concordance

/-- The id of a directory among others. -/
def directoryId (directories : List String) (path : String) : UInt32 :=
  UInt32.ofNat (directories.idxOf path)

/-- A record that says nothing about the words of its document. -/
def Record.unworded (record : Record) : Record :=
  { record with words := 0 }

namespace Walk.Found

/-- The path of the directory that a file is in, as it is registered. -/
def directory (root : String) (file : Found) : String :=
  (Path.parent (file.path root)).getD ""

/-- The record of a file. -/
def record (root : String) (directories : List String) (file : Found) : Record where
  directory := directoryId directories (file.directory root)
  name := file.name
  size := UInt64.ofNat file.content.length
  title := file.name

/-- What is asked of a session for a file: to have its directory, and then it. -/
def operations (root : String) (directories : List String) (file : Found) : List Operation :=
  [.directory (file.directory root),
    .file (directoryId directories (file.directory root)) file.name
      (UInt64.ofNat file.content.length) none [.text (Utf8.decodeLossy file.content) none]]

end Walk.Found

/-- A directory that was added is there. -/
theorem mem_addDirectory (directories : List String) (path : String) :
    path ∈ addDirectory directories path := by
  rw [addDirectory_eq]
  split
  · assumption
  · exact List.mem_append_right _ List.mem_cons_self

/-- So are all that were. -/
theorem mem_foldl_addDirectory {directories paths : List String} {path : String}
    (h : path ∈ paths) : path ∈ paths.foldl addDirectory directories := by
  induction paths generalizing directories with
  | nil => exact absurd h List.not_mem_nil
  | cons first paths ih =>
    rcases List.mem_cons.mp h with rfl | h
    · exact (isPrefix_foldl_addDirectory _ paths).subset (mem_addDirectory directories path)
    · exact ih h

/-- A directory keeps its id. -/
theorem directoryId_of_prefix {directories others : List String} {path : String}
    (hmem : path ∈ directories) (h : directories <+: others) :
    directoryId others path = directoryId directories path := by
  rcases h with ⟨more, rfl⟩
  rw [directoryId, List.idxOf_append_of_mem hmem, directoryId]

/-- What a change leaves alone is the same after the change of one element. -/
theorem map_modify {α β : Type} {f : α → α} {g : α → β} (h : ∀ a, g (f a) = g a) (as : List α)
    (i : Nat) : (as.modify i f).map g = as.map g := by
  induction as generalizing i with
  | nil => cases i <;> rfl
  | cons a as ih =>
    cases i with
    | zero => rw [List.modify_zero_cons, List.map_cons, h, List.map_cons]
    | succ i => rw [List.modify_succ_cons, List.map_cons, ih, List.map_cons]

namespace Session

variable (session : Session)

/-- A directory that is registered has the id that it has among all of them. -/
theorem internDirectory_snd (path : String) :
    (session.internDirectory path).2
      = directoryId (addDirectory session.directories path) path := by
  rw [internDirectory, addDirectory, directoryId]
  rcases hfind : session.directories.idxOf? path with _ | i
  · have hnew := List.idxOf?_eq_none_iff.mp hfind
    dsimp only
    rw [List.idxOf_append, if_neg hnew, List.idxOf_cons_self, Nat.zero_add]
  · dsimp only
    rw [List.idxOf_eq_getD_idxOf?, hfind, Option.getD_some]

/-- A document of a text is one more record. -/
theorem files_addDocument_text (directory : UInt32) (name : String) (size : UInt64)
    (text : String) (metaId : Option UInt32) :
    (session.addDocument directory name size none [.text text metaId]).files.map Record.unworded
      = session.files.map Record.unworded ++ [{ directory, name, size, title := name }] := by
  have hparts := foldl_applyPart_eq session (UInt32.ofNat session.files.length) 0
    (session.files ++ [{ directory, name, size, title := (none : Option String).getD name }])
    session.directories session.metaNames [.text text metaId]
  rw [addDocument_steps, hparts, endDocument]
  -- Its title and the number of its words are changed, the one to what it is.
  simp only [registered]
  rw [map_modify, map_modify, List.map_append]
  · rfl
  · intro record
    simp only [Record.unworded, List.foldl_cons, List.foldl_nil, Part.retitled]
  · exact fun record => by simp only [Record.unworded]

/-- Taking in one file is asking for two things. -/
theorem addText_eq_run (path : String) (content : Bytes) :
    session.addText path content = session.run
      [.directory ((Path.parent path).getD ""),
        .file (directoryId (addDirectory session.directories ((Path.parent path).getD ""))
            ((Path.parent path).getD "")) ((Path.fileName path).getD "")
          (UInt64.ofNat content.length) none [.text (Utf8.decodeLossy content) none]] := by
  rw [← internDirectory_snd, run, List.foldl_cons, List.foldl_cons, List.foldl_nil, apply, apply,
    addText]

theorem run_append (operations others : List Operation) :
    session.run (operations ++ others) = (session.run operations).run others :=
  List.foldl_append

/-- A session before and after it has taken in files that are below a directory. It has done what
    one asks for to have them, its directories are in the order of their first files, and there
    is one more record for each file. -/
structure TakesIn (session : Session) (root : String) (files : List Walk.Found)
    (session' : Session) : Prop where
  run : session' = session.run (files.flatMap (Walk.Found.operations root session'.directories))
  directories : session'.directories
    = (files.map (Walk.Found.directory root)).foldl addDirectory session.directories
  records : session'.files.map Record.unworded = session.files.map Record.unworded
    ++ files.map (Walk.Found.record root session'.directories)

variable {session} {root : String}

/-- A file is taken in. -/
theorem addText_takesIn {file : Walk.Found} (h : Path.IsName file.name) :
    session.TakesIn root [file] (session.addText (file.path root) file.content) := by
  have hname : (Path.fileName (file.path root)).getD "" = file.name := by
    rw [Walk.Found.path, h.fileName_join, Option.getD_some]
  have hdirectories : (session.addText (file.path root) file.content).directories
      = addDirectory session.directories (file.directory root) := by
    rw [addText_eq_run]
    rcases session.run_registers _ with ⟨words, sinceFlush, runs, files, hrun⟩
    rw [hrun]
    rfl
  refine ⟨?_, hdirectories, ?_⟩
  · rw [hdirectories, List.flatMap_cons, List.flatMap_nil, List.append_nil, addText_eq_run, hname]
    rfl
  · rw [hdirectories, addText, files_addDocument_text, internDirectory_snd, hname,
      internDirectory_eq]
    rfl

theorem TakesIn.nil (session : Session) (root : String) : session.TakesIn root [] session :=
  ⟨rfl, rfl, (List.append_nil _).symm⟩

/-- More files are taken in. -/
theorem TakesIn.append {session₁ session₂ : Session} {front behind : List Walk.Found}
    (h : session.TakesIn root front session₁) (h' : session₁.TakesIn root behind session₂) :
    session.TakesIn root (front ++ behind) session₂ := by
  -- The directories of the first files are there already, and keep their ids.
  have hids : ∀ file ∈ front, directoryId session₂.directories (file.directory root)
      = directoryId session₁.directories (file.directory root) := by
    intro file hfile
    refine directoryId_of_prefix ?_ ?_
    · rw [h.directories]
      exact mem_foldl_addDirectory (List.mem_map_of_mem hfile)
    · rw [h'.directories]
      exact isPrefix_foldl_addDirectory _ _
  refine ⟨?_, ?_, ?_⟩
  · have hfront : front.flatMap (Walk.Found.operations root session₂.directories)
        = front.flatMap (Walk.Found.operations root session₁.directories) :=
      List.flatMap_congr fun file hfile => by
        rw [Walk.Found.operations, Walk.Found.operations, hids file hfile]
    rw [List.flatMap_append, run_append, hfront, ← h.run]
    exact h'.run
  · rw [h'.directories, h.directories, List.map_append, List.foldl_append]
  · have hfront : front.map (Walk.Found.record root session₂.directories)
        = front.map (Walk.Found.record root session₁.directories) :=
      List.map_congr_left fun file hfile => by
        rw [Walk.Found.record, Walk.Found.record, hids file hfile]
    rw [h'.records, h.records, List.map_append, hfront, List.append_assoc]

/-- Files are taken in one after the other. -/
theorem foldl_addText_takesIn (files : List Walk.Found)
    (h : ∀ file ∈ files, Path.IsName file.name) :
    session.TakesIn root files (files.foldl
      (fun session file => session.addText (file.path root) file.content) session) := by
  induction files generalizing session with
  | nil => exact TakesIn.nil session root
  | cons file files ih =>
    have ⟨hfile, hfiles⟩ := List.forall_mem_cons.mp h
    have hfirst : session.TakesIn root [file] (session.addText (file.path root) file.content) :=
      addText_takesIn hfile
    rw [List.foldl_cons]
    exact hfirst.append (ih hfiles)

/-- What a walk came upon is taken in as far as it can be looked at, and counted. -/
theorem addFindings_eq (session : Session) (stats : WalkStats) (findings : List Walk.Finding) :
    ∃ skipped, session.addFindings stats findings
      = ((Walk.filesOf findings).foldl (fun session file => session.addText file.1 file.2) session,
          { files := stats.files + (Walk.filesOf findings).length
            skipped
            bytes := stats.bytes
              + total (fun file => file.2.length) (Walk.filesOf findings) }) := by
  induction findings generalizing session stats with
  | nil => exact ⟨stats.skipped, rfl⟩
  | cons finding findings ih =>
    cases finding with
    | file path content =>
      rcases ih (session.addText path content)
        { stats with files := stats.files + 1, bytes := stats.bytes + content.length } with
        ⟨skipped, hrest⟩
      refine ⟨skipped, ?_⟩
      rw [addFindings, hrest]
      simp only [Walk.filesOf, List.filterMap_cons, List.foldl_cons, List.length_cons, total_cons,
        Nat.add_assoc, Nat.add_comm 1]
    | skipped path =>
      rcases ih session { stats with skipped := stats.skipped + 1 } with ⟨skipped, hrest⟩
      exact ⟨skipped, hrest⟩

/-- The files below a directory are taken in, in the order of the recursive walk: those that are
    reached through directories, have a wanted extension and can be looked at, each of them
    once. -/
theorem addTree_takesIn {disk : Disk} {path : String} {entries : List (String × Node)}
    (hroot : disk.node false path = .ok (.directory entries)) (hnamed : Walk.Named entries)
    (session : Session) (options : WalkOptions) :
    ∃ session' skipped, session.addTree disk path options = .ok (session',
        { files := (Walk.found options path entries).length
          skipped
          bytes := total (fun file => file.content.length) (Walk.found options path entries) })
      ∧ session.TakesIn path (Walk.found options path entries) session'
      ∧ (Walk.found options path entries).Pairwise Walk.Before
      ∧ ((Walk.found options path entries).map Walk.Found.place).Nodup
      ∧ ∀ file, file ∈ Walk.found options path entries
          ↔ Walk.Reaches entries file ∧ Walk.Wanted options file.name
            ∧ (options.recursive = true ∨ file.folders = [])
            ∧ Disk.fits (file.path path) = true := by
  obtain ⟨skipped, hfindings⟩ :=
    session.addFindings_eq {} (Walk.visit options [(path, entries)])
  rw [Walk.filesOf_visit hnamed, List.foldl_map, List.length_map, total_map] at hfindings
  simp only [Nat.zero_add] at hfindings
  have hnames : ∀ file ∈ Walk.found options path entries, Path.IsName file.name := fun file hfile =>
    (hnamed.isName ((Walk.mem_found hnamed).mp hfile).1).2
  refine ⟨_, skipped, ?_, foldl_addText_takesIn _ hnames, Walk.found_ascend path hnamed,
    Walk.found_nodup path hnamed, fun file => Walk.mem_found hnamed⟩
  rw [addTree, hroot, Disk.list_of_node hroot]
  exact congrArg Except.ok hfindings

/-- A file, a directory with another one in it, and a link to that directory. -/
def nestedEntries : List (String × Node) :=
  [("b.txt", .file [1, 2]), ("sub", .directory [("a.TXT", .file [3])]), ("link", .link "sub")]

theorem nestedEntries_named : Walk.Named nestedEntries := by
  have hinner : Walk.Named [("a.TXT", .file [3])] := by
    refine .intro (by decide) (by decide) fun name inner hmem => ?_
    simp at hmem
  refine .intro (by decide) (by decide) fun name inner hmem => ?_
  simp only [nestedEntries, List.mem_cons, Prod.mk.injEq, Node.directory.injEq, reduceCtorEq,
    and_false, List.not_mem_nil, or_false, false_or] at hmem
  rw [hmem.2]
  exact hinner

/-- The root by its path. -/
theorem node_root (entries : List (String × Node)) :
    Disk.node { root := .directory entries } false "/" = .ok (.directory entries) := by
  have hcheck : Disk.checkPath "/" = .ok () := by
    unfold Disk.checkPath
    rw [if_neg (by decide), if_neg (by decide), if_pos (by decide)]
  have hsteps : Path.steps "/" = ["."] := by decide
  have hstart : Disk.start { root := .directory entries } "/" = [] := by
    unfold Disk.start
    rw [if_pos (by decide)]
  have hwalk : Disk.walk (.directory entries) false Disk.maxLinks [] ["."] = .ok [] := by
    rw [Disk.walk, if_pos rfl, Disk.walk]
  rw [Disk.node, Disk.resolve, hcheck, hsteps, hstart]
  change (Disk.walk (.directory entries) false Disk.maxLinks [] ["."] >>= _) = _
  rw [hwalk]
  rfl

/-- The file that is further down is taken in with the one beside its directory. -/
theorem addTree_takesIn_of_nested : ∃ session' stats,
    addTree { options := {}, stopWords := StopWords.empty }
        { root := .directory nestedEntries } "/" {} = .ok (session', stats)
      ∧ stats.files = (Walk.found {} "/" nestedEntries).length
      ∧ ⟨[], "b.txt", [1, 2]⟩ ∈ Walk.found {} "/" nestedEntries
      ∧ ⟨["sub"], "a.TXT", [3]⟩ ∈ Walk.found {} "/" nestedEntries := by
  obtain ⟨session', skipped, htree, -, -, -, hfound⟩ := addTree_takesIn
    (node_root nestedEntries) nestedEntries_named { options := {}, stopWords := StopWords.empty } {}
  refine ⟨session', _, htree, rfl, (hfound _).mpr ⟨.file (by simp [nestedEntries]), ?_, Or.inl rfl,
    by decide⟩, (hfound _).mpr ⟨?_, ?_, Or.inl rfl, by decide⟩⟩
  · exact ⟨['b'], ['t', 'x', 't'], by decide, by decide, rfl, "txt", by decide, by decide⟩
  · have hinner : Walk.Reaches [("a.TXT", .file [3])] ⟨[], "a.TXT", [3]⟩ := .file List.mem_cons_self
    exact hinner.folder (by simp [nestedEntries])
  · exact ⟨['a'], ['T', 'X', 'T'], by decide, by decide, rfl, "txt", by decide, by decide⟩

end Session

end Concordance
