import Concordance.Proofs.Indexing.Calls
import Concordance.Proofs.Indexing.Rounds

/-!
# Ids Are Never Given Twice

Each directory and each meta name has an id of its own, whatever was called and however often
the index was added to.

An id is made from how much there is already, so it is a new one as long as what is there has
all the ids up to it. For directories this is plain: an id is a place, and an index has them in
their places. A program has them by name as well, so that it does not have to go through all of
them, and `DirectoryTable` is this second account. Both are changed together, and they never
disagree (`DirectoryTable.Indexes.intern`).

Meta names are the harder half. An index has them in the order of their bytes, and so a session
that takes them over has their ids in no order at all. What is left of the order is that no id
below the number of names is missing and none is there twice. That is enough for the next id to
be new, it does not depend on the order of the names, and with the names it comes back from a
file (`Lineage.numbered`). Texts are read back up to a NUL, and this is where it matters that the
sessions before were given none: two names that become one in the file would leave a gap.

## Main definitions

* `DirectoryTable`: Directories by place and by name.
* `DirectoryTable.Indexes`: A table that has each directory under its place.
* `Numbered`: Meta names whose ids are those below their number, each once.
* `Session.Lineage`: A session at its beginning, behind a chain of others.
* `Session.loaded`: The table that a session begins with.
* `Session.Bijective`: A session in which ids and what they stand for determine each other.

## Theorems

* `DirectoryTable.Indexes.lookup_eq_some_iff`: An id is a place.
* `Numbered.foldl_addName`: The next id is a new one.
* `Session.Lineage.numbered`: Ids come back from a file.
* `Session.Lineage.reached_bijective`: Ids and what they stand for stay together.
* `Session.internDirectory_again`, `Session.internName_again`: What was asked for is found again.
* `Session.ids_bijective`: What holds of every session at any time.
-/

namespace Concordance

/-- Directories in the order of their places, and by their names. -/
structure DirectoryTable where
  paths : List String := []
  ids : List (String × UInt32) := []
deriving DecidableEq, Repr

namespace DirectoryTable

/-- The id of a directory: the one it has, or the next. -/
def intern (table : DirectoryTable) (path : String) : DirectoryTable × UInt32 :=
  match table.ids.lookup path with
  | some id => (table, id)
  | none =>
    let id := UInt32.ofNat table.paths.length
    ({ paths := table.paths ++ [path], ids := (path, id) :: table.ids }, id)

/-- A table that was asked for several directories. -/
def internAll (table : DirectoryTable) (paths : List String) : DirectoryTable :=
  paths.foldl (fun table path => (table.intern path).1) table

variable {table : DirectoryTable} {directories : List String}

/-- A table that has each of these directories under its place, and no others. -/
structure Indexes (table : DirectoryTable) (directories : List String) : Prop where
  paths : table.paths = directories
  ids : ∀ path, table.ids.lookup path = (directories.idxOf? path).map UInt32.ofNat

theorem indexes_nil : ({} : DirectoryTable).Indexes [] :=
  ⟨rfl, fun _ => rfl⟩

/-- What a table is asked for goes into both of its accounts, or into neither. -/
theorem Indexes.intern (h : table.Indexes directories) (path : String) :
    (table.intern path).1.Indexes (addDirectory directories path) := by
  rw [DirectoryTable.intern, addDirectory, h.ids]
  rcases hfind : directories.idxOf? path with _ | i
  · refine ⟨congrArg (· ++ [path]) h.paths, fun other => ?_⟩
    show List.lookup other ((path, UInt32.ofNat table.paths.length) :: table.ids) = _
    rw [List.lookup_cons, h.ids, h.paths, List.idxOf?, List.findIdx?_append]
    by_cases heq : other = path
    · rw [heq, beq_self_eq_true]
      show some _ = ((directories.idxOf? path).or _).map _
      rw [hfind]
      simp
    · rw [beq_false_of_ne heq]
      show (directories.idxOf? other).map _ = ((directories.idxOf? other).or _).map _
      simp [List.findIdx?_cons, Ne.symm heq]
  · exact h

/-- The id that is given out is the one that a session gives out. -/
theorem Indexes.intern_snd {session : Session} (h : table.Indexes session.directories)
    (path : String) : (table.intern path).2 = (session.internDirectory path).2 := by
  rw [DirectoryTable.intern, Session.internDirectory, h.ids]
  rcases session.directories.idxOf? path with _ | i
  · exact congrArg (fun paths => UInt32.ofNat paths.length) h.paths
  · rfl

/-- The same holds for several directories. -/
theorem Indexes.internAll (h : table.Indexes directories) (paths : List String) :
    (table.internAll paths).Indexes (paths.foldl addDirectory directories) := by
  induction paths generalizing table directories with
  | nil => exact h
  | cons path paths ih => exact ih (h.intern path)

/-- An id is a place, if there are ids for all places and no directory has two. -/
theorem Indexes.lookup_eq_some_iff (h : table.Indexes directories) (hnodup : directories.Nodup)
    (room : directories.length ≤ UInt32.size) {path : String} {id : UInt32} :
    table.ids.lookup path = some id ↔ directories[id.toNat]? = some path := by
  rw [h.ids, Option.map_eq_some_iff]
  constructor
  · rintro ⟨i, hfind, rfl⟩
    rcases List.idxOf?_eq_some_iff.mp hfind with ⟨hi, heq, -⟩
    rw [UInt32.toNat_ofNat_of_lt' (Nat.lt_of_lt_of_le hi room), List.getElem?_eq_getElem hi, heq]
  · intro hget
    rcases List.getElem?_eq_some_iff.mp hget with ⟨hid, heq⟩
    refine ⟨id.toNat, List.idxOf?_eq_some_iff.mpr ⟨hid, heq, fun j hj hsame => ?_⟩,
      UInt32.ofNat_toNat⟩
    -- Another place with this directory would be the same place.
    have hplace := hnodup.getElem_inj_iff.mp (hsame.trans heq.symm)
    omega

end DirectoryTable

/-- Meta names whose ids are those below their number, each of them once. -/
def Numbered (metaNames : List (String × UInt32)) : Prop :=
  (metaNames.map Prod.snd).Perm ((List.range metaNames.length).map UInt32.ofNat)

section Numbered

variable {metaNames others : List (String × UInt32)}

theorem Numbered.of_perm (h : Numbered metaNames) (hperm : others.Perm metaNames) :
    Numbered others := by
  rw [Numbered, hperm.length_eq]
  exact (hperm.map Prod.snd).trans h

/-- The next id is the one that was missing. -/
theorem Numbered.addName (h : Numbered metaNames) (name : String) :
    Numbered (addName metaNames name) := by
  rw [addName_eq]
  split
  · exact h
  · rw [Numbered, List.length_append, List.length_singleton, List.range_succ, List.map_append,
      List.map_append]
    exact h.append_right _

theorem Numbered.foldl_addName (h : Numbered metaNames) (names : List String) :
    Numbered (names.foldl Concordance.addName metaNames) := by
  induction names generalizing metaNames with
  | nil => exact h
  | cons name names ih => exact ih (h.addName name)

/-- They are numbers below another one as long as there are so many ids. -/
theorem Numbered.toNat (h : Numbered metaNames) (room : metaNames.length ≤ UInt32.size) :
    (metaNames.map fun name => name.2.toNat).Perm (List.range metaNames.length) := by
  have hmap := h.map UInt32.toNat
  rw [List.map_map, List.map_map] at hmap
  have hrange : (List.range metaNames.length).map (UInt32.toNat ∘ UInt32.ofNat)
      = List.range metaNames.length := by
    refine (List.map_congr_left fun i hi => ?_).trans (List.map_id _)
    exact UInt32.toNat_ofNat_of_lt' (Nat.lt_of_lt_of_le (List.mem_range.mp hi) room)
  rw [hrange] at hmap
  exact hmap

end Numbered

/-- A call asks for one directory at the most. -/
theorem Call.paths_eq_of_mem {call : Call} {path : String} (h : path ∈ call.paths) :
    call.paths = [path] := by
  cases call with
  | directory other => rw [List.mem_singleton.mp h, Call.paths]
  | metaName name => exact absurd h List.not_mem_nil
  | file directory name size title => exact absurd h List.not_mem_nil
  | part part => exact absurd h List.not_mem_nil
  | close => exact absurd h List.not_mem_nil

/-- And for one meta name. -/
theorem Call.names_eq_of_mem {call : Call} {name : String} (h : name ∈ call.names) :
    call.names = [name] := by
  cases call with
  | directory path => exact absurd h List.not_mem_nil
  | metaName other => rw [List.mem_singleton.mp h, Call.names]
  | file directory name size title => exact absurd h List.not_mem_nil
  | part part =>
    cases part with
    | text text metaId => exact absurd h List.not_mem_nil
    | word raw metaId => exact absurd h List.not_mem_nil
    | title title => exact absurd h List.not_mem_nil
    | metaName other => rw [List.mem_singleton.mp h, Call.names, Part.names]
  | close => exact absurd h List.not_mem_nil

/-- A call with texts that can be closed. -/
def Call.Closable (call : Call) : Prop :=
  (∀ path ∈ call.paths, NulFree path) ∧ ∀ name ∈ call.names, NulFree name

instance (call : Call) : Decidable call.Closable :=
  inferInstanceAs (Decidable (_ ∧ _))

namespace Session

variable {session : Session}

/-- A directory that is there is found again. -/
theorem internDirectory_of_idxOf? {path : String} {i : Nat}
    (h : session.directories.idxOf? path = some i) :
    session.internDirectory path = (session, UInt32.ofNat i) := by
  rw [internDirectory, h]

/-- So is a meta name. -/
theorem internName_of_lookup {name : String} {id : UInt32}
    (h : session.metaNames.lookup (Text.fold name) = some id) :
    session.internName name = (session, id) := by
  rw [internName, h]

/-- A directory that was asked for is there. -/
theorem idxOf?_addDirectory (session : Session) (path : String) : ∃ i,
    (addDirectory session.directories path).idxOf? path = some i
      ∧ (session.internDirectory path).2 = UInt32.ofNat i := by
  rw [addDirectory, internDirectory]
  rcases hfind : session.directories.idxOf? path with _ | i
  · refine ⟨session.directories.length, ?_, rfl⟩
    show List.findIdx? (· == path) (session.directories ++ [path]) = _
    rw [List.findIdx?_append]
    show (session.directories.idxOf? path).or _ = _
    rw [hfind]
    simp [List.findIdx?_cons]
  · exact ⟨i, hfind, rfl⟩

/-- It keeps its place. -/
theorem idxOf?_foldl_addDirectory {directories : List String} {path : String} {i : Nat}
    (h : directories.idxOf? path = some i) (paths : List String) :
    (paths.foldl addDirectory directories).idxOf? path = some i := by
  rcases isPrefix_foldl_addDirectory directories paths with ⟨behind, hbehind⟩
  rw [← hbehind, List.idxOf?, List.findIdx?_append]
  show (directories.idxOf? path).or _ = _
  rw [h, Option.some_or]

/-- Meta names that can be closed come back from a file, in some order. -/
theorem Leaves.metaNames_perm {done : Session} {bytes : Bytes} (h : done.Leaves [] bytes)
    (hdistinct : NamesDistinct done.metaNames) (hnul : ∀ name ∈ done.metaNames, NulFree name.1)
    {disk : Disk} {path : String} {options : IndexingOptions}
    (hfile : disk.openFile path = .ok bytes) (hextend : extend? disk path options = .ok session) :
    session.metaNames.Perm done.metaNames := by
  obtain ⟨hsize, _, _, _, _, location, hfinish, hplace, hitem⟩ := h
  obtain ⟨_, merged, location', -, -, -, -, hplace', hitem'⟩ := exists_volume_of_finish hfinish
  rcases Except.ok.inj (hplace'.symm.trans hplace) with rfl
  rcases Item.file.inj (Option.some.inj (hitem'.symm.trans hitem)) with rfl
  have hperm : ((done.run []).volume merged).metaNames.Perm done.metaNames :=
    List.mergeSort_perm _ _
  obtain ⟨bytes, index, taken, hfile', hopen, htaken, rfl⟩ := exists_of_extend? hextend
  rcases Except.ok.inj (hfile'.symm.trans hfile) with rfl
  obtain ⟨_, _, _, names, -, -, -, hnames, rfl⟩ := exists_of_takeOver htaken
  have hread := Volume.collect_metaNames _ hsize hopen fun name hname =>
    hnul name (hperm.mem_iff.mp hname)
  rcases Except.ok.inj (hnames.symm.trans hread) with rfl
  -- No name is there twice, so none is given an id in the place of another.
  have hsorted : NamesDistinct ([] ++ ((done.run []).volume merged).metaNames) :=
    (hperm.map Prod.fst).nodup_iff.mpr hdistinct
  exact (foldl_setMetaName_of_distinct hsorted).symm ▸ hperm

/-- The directories that a session begins with, as it was asked for them one by one when it took
    them over from an index. -/
def loaded (session : Session) : DirectoryTable :=
  match session.base with
  | none => {}
  | some index =>
    match collect ((index.segment .directories).entries.map (· >>= decodeText)) with
    | .error _ => {}
    | .ok paths => DirectoryTable.internAll {} paths

/-- They are those of the index. -/
theorem loaded_eq {index : Index} {paths : List String} (hbase : session.base = some index)
    (hpaths : collect ((index.segment .directories).entries.map (· >>= decodeText)) = .ok paths) :
    session.loaded = DirectoryTable.internAll {} paths := by
  rw [loaded, hbase]
  simp only [hpaths]

/-- A session at its beginning: a new one, or one that adds to the index that another session
    has left, after calls with texts that can be closed. -/
inductive Lineage : Session → Prop
  | new {disk : Disk} {options : IndexingOptions} {stopWords : StopWords} {session : Session}
    (start : start? disk options stopWords = .ok session) : Lineage session
  | extended {first : Session} {stemmer : String → String} {calls : List Call} {done : Session}
    {bytes : Bytes} {disk : Disk} {path : String} {options : IndexingOptions} {session : Session}
    (lineage : Lineage first)
    (reached : Stage.takeAll { session := { first with stemmer } } calls
      = some { session := done })
    (closable : ∀ call ∈ calls, call.Closable) (leaves : done.Leaves [] bytes)
    (file : disk.openFile path = .ok bytes) (extend : extend? disk path options = .ok session) :
    Lineage session

namespace Lineage

theorem opened (h : session.Lineage) : session.Opened := by
  cases h with
  | new start => exact .new start
  | extended lineage reached closable leaves file extend => exact .extended extend

/-- A session begins with its directories in their places. -/
theorem indexes (h : session.Lineage) : session.loaded.Indexes session.directories := by
  cases h with
  | new start =>
    rcases eq_of_start? start with rfl
    exact DirectoryTable.indexes_nil
  | extended lineage reached closable leaves file extend =>
    obtain ⟨bytes, index, taken, -, -, htaken, rfl⟩ := exists_of_extend? extend
    obtain ⟨stops, paths, files, names, -, hpaths, -, -, rfl⟩ := exists_of_takeOver htaken
    rw [loaded_eq rfl hpaths]
    exact DirectoryTable.indexes_nil.internAll paths

/-- Meta names have the ids below their number, also where they were taken over from a file. -/
theorem numbered (h : session.Lineage) : Numbered session.metaNames := by
  induction h with
  | new start =>
    rcases eq_of_start? start with rfl
    exact List.Perm.refl _
  | @extended first stemmer calls done bytes disk path options session lineage reached closable
      leaves file extend ih =>
    rcases Stage.takeAll_keeps reached with ⟨_, _, _, _, -, hdone⟩
    -- The names that a file is left with are those of the session, in the order of the names.
    have hnames : done.metaNames = (calls.flatMap Call.names).foldl addName first.metaNames :=
      congrArg Session.metaNames hdone
    have hstorable := lineage.opened.storable
    refine Numbered.of_perm (hnames ▸ ih.foldl_addName _) (leaves.metaNames_perm ?_ ?_ file extend)
    · rw [hnames]
      exact hstorable.distinct.foldl_addName _
    · rw [hnames]
      refine nulFree_of_mem_foldl_addName hstorable.metaNames fun name hname => ?_
      rcases List.mem_flatMap.mp hname with ⟨call, hcall, hname⟩
      exact (closable call hcall).2 name hname

end Lineage

/-- A session in which directories and places, and meta names and the ids below their number,
    determine each other. -/
structure Bijective (session : Session) (table : DirectoryTable) : Prop where
  nodup : session.directories.Nodup
  paths : table.paths = session.directories
  places : ∀ path id, table.ids.lookup path = some id ↔ session.directories[id.toNat]? = some path
  distinct : NamesDistinct session.metaNames
  ids : (session.metaNames.map fun name => name.2.toNat).Perm
    (List.range session.metaNames.length)

section Reached

variable {first : Session} {stemmer : String → String} {calls : List Call} {stage : Stage}

/-- After any calls the directories are still in their places. -/
theorem Lineage.reached_indexes (h : first.Lineage)
    (reached : Stage.takeAll { session := { first with stemmer } } calls = some stage) :
    (first.loaded.internAll (calls.flatMap Call.paths)).Indexes stage.session.directories := by
  rcases Stage.takeAll_keeps reached with ⟨_, _, _, _, -, hstage⟩
  rw [hstage]
  exact h.indexes.internAll _

/-- So are ids and what they stand for, as long as there are ids for all. -/
theorem Lineage.reached_bijective (h : first.Lineage)
    (reached : Stage.takeAll { session := { first with stemmer } } calls = some stage)
    (directories : stage.session.directories.length ≤ UInt32.size)
    (metaNames : stage.session.metaNames.length ≤ UInt32.size) :
    stage.session.Bijective (first.loaded.internAll (calls.flatMap Call.paths)) := by
  rcases Stage.takeAll_keeps reached with ⟨_, _, _, _, -, hstage⟩
  have hindexes := h.reached_indexes reached
  have hstorable := h.opened.storable
  have hnodup : stage.session.directories.Nodup := by
    rw [hstage]
    exact foldl_addDirectory_nodup hstorable.nodup _
  have hdistinct : NamesDistinct stage.session.metaNames := by
    rw [hstage]
    exact hstorable.distinct.foldl_addName _
  -- A new name gets the next id, so that the ids stay those below their number.
  have hnumbered : Numbered stage.session.metaNames := by
    rw [hstage]
    exact h.numbered.foldl_addName _
  exact ⟨hnodup, hindexes.paths, fun path id => hindexes.lookup_eq_some_iff hnodup directories,
    hdistinct, hnumbered.toNat metaNames⟩

end Reached

section Again

variable {stage asked later : Stage} {call : Call} {more : List Call}

/-- A directory that was asked for is found again, whatever was asked for since. -/
theorem internDirectory_again (hcall : Stage.Takes stage call asked)
    (hmore : asked.takeAll more = some later) {path : String} (hpath : path ∈ call.paths) :
    later.session.internDirectory path
      = (later.session, (stage.session.internDirectory path).2) := by
  rcases Stage.takeAll_keeps (Stage.takeAll_cons.mpr ⟨asked, hcall, hmore⟩) with
    ⟨_, _, _, _, -, hlater⟩
  have hpaths : later.session.directories
      = ((call :: more).flatMap Call.paths).foldl addDirectory stage.session.directories :=
    congrArg Session.directories hlater
  rcases stage.session.idxOf?_addDirectory path with ⟨i, hplace, hid⟩
  rw [hid]
  refine internDirectory_of_idxOf? ?_
  rw [hpaths, List.flatMap_cons, List.foldl_append, Call.paths_eq_of_mem hpath]
  exact idxOf?_foldl_addDirectory hplace _

/-- So is a meta name, by any name that is folded to the same. -/
theorem internName_again (hcall : Stage.Takes stage call asked)
    (hmore : asked.takeAll more = some later) {name other : String} (hname : name ∈ call.names)
    (hfold : Text.fold other = Text.fold name) :
    later.session.internName other = (later.session, (stage.session.internName name).2) := by
  rcases Stage.takeAll_keeps (Stage.takeAll_cons.mpr ⟨asked, hcall, hmore⟩) with
    ⟨_, _, _, _, -, hlater⟩
  have hnames : later.session.metaNames
      = ((call :: more).flatMap Call.names).foldl addName stage.session.metaNames :=
    congrArg Session.metaNames hlater
  refine internName_of_lookup ?_
  rw [hnames, List.flatMap_cons, List.foldl_append, Call.names_eq_of_mem hname, hfold]
  exact lookup_foldl_addName lookup_internName _

end Again

/-- A session that began anew, or with an index that such a session has left, has an id for each
    directory and each meta name, and no two have the same. This holds after any calls. Those
    that come later leave the ids that there are, and asking for something once more only finds
    the id that it was given. -/
theorem ids_bijective {first : Session} (lineage : first.Lineage) (stemmer : String → String)
    {calls : List Call} {stage : Stage}
    (reached : Stage.takeAll { session := { first with stemmer } } calls = some stage)
    (directories : stage.session.directories.length < UInt32.size)
    (metaNames : stage.session.metaNames.length < UInt32.size) :
    let table := first.loaded.internAll (calls.flatMap Call.paths)
    stage.session.Bijective table
    ∧ (∀ path, (table.intern path).2 = (stage.session.internDirectory path).2)
    ∧ (∀ more later, stage.takeAll more = some later →
      (∀ path id, table.ids.lookup path = some id →
        (table.internAll (more.flatMap Call.paths)).ids.lookup path = some id)
      ∧ ∀ name id, stage.session.metaNames.lookup name = some id →
        later.session.metaNames.lookup name = some id)
    ∧ ∀ call asked more later, stage.take call = some asked → asked.takeAll more = some later →
      (∀ path ∈ call.paths, later.session.internDirectory path
        = (later.session, (stage.session.internDirectory path).2))
      ∧ ∀ name ∈ call.names, ∀ other, Text.fold other = Text.fold name →
        later.session.internName other
          = (later.session, (stage.session.internName name).2) := by
  intro table
  have hindexes : table.Indexes stage.session.directories := lineage.reached_indexes reached
  refine ⟨lineage.reached_bijective reached (Nat.le_of_lt directories) (Nat.le_of_lt metaNames),
    hindexes.intern_snd, fun more later hmore => ⟨fun path id hid => ?_, fun name id hid => ?_⟩,
    fun call asked more later hcall hmore =>
      ⟨fun path hpath => ?_, fun name hname other hfold => ?_⟩⟩
  · -- Directories are only ever added behind those that there are, and stay where they are.
    rw [hindexes.ids] at hid
    rcases Option.map_eq_some_iff.mp hid with ⟨i, hplace, rfl⟩
    rw [(hindexes.internAll _).ids, idxOf?_foldl_addDirectory hplace]
    rfl
  · rcases Stage.takeAll_keeps hmore with ⟨_, _, _, _, -, hlater⟩
    rw [hlater]
    exact lookup_foldl_addName hid _
  · exact internDirectory_again (Stage.take_eq_some_iff.mp hcall) hmore hpath
  · exact internName_again (Stage.take_eq_some_iff.mp hcall) hmore hname hfold

/-- The file has the meta names in another order than that of their ids. A session that adds to
    it gives out the next id in the middle of a document, and finds the ids from before. -/
theorem ids_bijective_of_two :
    let old : List Call := [.directory "notes", .directory "letters", .metaName "Title",
      .file 1 "one" 0 none, .part (.metaName "Author"), .close]
    let new : List Call := [.directory "poems", .file 2 "two" 5 none, .part (.metaName "Year"),
      .part (.text "Dogs." (some 2)), .close]
    let table : DirectoryTable := {
      paths := ["notes", "letters", "poems"]
      ids := [("poems", 2), ("letters", 1), ("notes", 0)] }
    (∀ call ∈ old, call.Closable)
    ∧ ∃ (first : Session) (stage asked later : Stage), first.Lineage
      ∧ first.metaNames = [("author", 1), ("title", 0)]
      ∧ Stage.takeAll { session := { first with stemmer := id } } new = some stage
      ∧ stage.session.Bijective table
      ∧ stage.session.metaNames = [("author", 1), ("title", 0), ("year", 2)]
      ∧ stage.take (.directory "letters") = some asked
      ∧ asked.takeAll [.metaName "TITLE", .directory "plays"] = some later
      ∧ later.session.internDirectory "letters" = (later.session, 1)
      ∧ later.session.metaNames.lookup "title" = some 0 := by
  intro old new table
  have hclosable : ∀ call ∈ old, call.Closable := by decide
  -- The first session has no words, and so there is nothing in its file that was computed.
  let empty : Session := { options := {}, stopWords := .empty }
  let done : Session := {
    options := {}
    stopWords := .empty
    directories := ["notes", "letters"]
    files := [⟨1, "one", 0, 0, "one"⟩]
    metaNames := [("title", 0), ("author", 1)] }
  have hold : Stage.takeAll { session := { empty with stemmer := id } } old
      = some { session := done } := rfl
  let base : Volume := {
    words := []
    stopWords := []
    directories := ["notes", "letters"]
    files := [⟨1, "one", 0, 0, "one"⟩]
    metaNames := [("author", 1), ("title", 0)] }
  have hnames : done.metaNames.mergeSort Contents.metaBefore = base.metaNames :=
    (sortedNames_eq_of_perm (List.Perm.swap ..)).trans (List.mergeSort_of_pairwise (by decide))
  have hbase : done.volume [] = base :=
    (Volume.mk.injEq ..).mpr ⟨rfl, List.mergeSort_nil, rfl, rfl, hnames⟩
  have hsize : base.bytes.length < UInt64.size :=
    Volume.length_bytes_lt (by decide +kernel)
  have hnone : (done.closed.sources >>= Merge.sources).toOption = some [] := by decide +kernel
  obtain ⟨segments, -, -, hpublishes⟩ := exists_publishes_volume hnone (by simp)
  have hpublishes : (done.run []).Publishes _ _ := hpublishes
  have hleaves : done.Leaves [] base.bytes := hbase ▸ hpublishes.leaves (hbase.symm ▸ hsize)
    (hpublishes.finish_eq (Contents.publishBytes_empty _))
  -- The second one adds to this file.
  let disk : Disk := { root := .directory [("index", .file base.bytes)] }
  let index : Index := ⟨base.bytes.toArray, base.sections.tables⟩
  let first : Session := {
    options := {}
    stopWords := StopWords.empty.insertAll base.stopWords
    files := base.files
    directories := base.directories
    metaNames := base.metaNames
    base := some index }
  have hclosed : base.Closable :=
    ⟨by decide +kernel, by decide +kernel, fun record hrecord => by
      rw [List.mem_singleton.mp hrecord]
      exact ⟨by decide, by decide⟩, by decide +kernel⟩
  have hlists : index.Lists base := base.lists_tables hsize hclosed
  have hdistinct : NamesDistinct base.metaNames :=
    show ["author", "title"].Nodup from by decide
  have hextend : extend? disk "index" {} = .ok first :=
    extend?_eq (Disk.openFile_root rfl) (Index.open?_eq hsize) hlists (by decide) hdistinct rfl
  have hstart : start? {} {} .empty = .ok empty := rfl
  have hlineage : first.Lineage :=
    .extended (.new hstart) hold hclosable hleaves (Disk.openFile_root rfl) hextend
  have htable : first.loaded.internAll (new.flatMap Call.paths) = table := by
    rw [loaded_eq rfl hlists.directories]
    decide
  have hrun : ((Stage.takeAll { session := { first with stemmer := id } } new).bind fun stage =>
      (stage.take (.directory "letters")).bind fun asked =>
        (asked.takeAll [.metaName "TITLE", .directory "plays"]).map fun _ =>
          (stage.session.directories, stage.session.metaNames))
      = some (["notes", "letters", "poems"], [("author", 1), ("title", 0), ("year", 2)]) := by
    decide +kernel
  rcases Option.bind_eq_some_iff.mp hrun with ⟨stage, hreached, hrun⟩
  rcases Option.bind_eq_some_iff.mp hrun with ⟨asked, hasked, hrun⟩
  rcases Option.map_eq_some_iff.mp hrun with ⟨later, hlater, hstage⟩
  rcases Prod.mk.inj hstage with ⟨hdirectories, hnames⟩
  obtain ⟨hbijective, hids, hkept, hagain⟩ := ids_bijective hlineage id hreached
    (by rw [hdirectories]; decide) (by rw [hnames]; decide)
  rw [htable] at hbijective hids
  have hmore : stage.takeAll (.directory "letters" :: _) = some later :=
    Stage.takeAll_cons.mpr ⟨asked, Stage.take_eq_some_iff.mp hasked, hlater⟩
  refine ⟨hclosable, first, stage, asked, later, hlineage, rfl, hreached, hbijective, hnames,
    hasked, hlater, ?_, (hkept _ later hmore).2 "title" 0 (by rw [hnames]; decide)⟩
  have hletters := (hagain _ asked _ later hasked hlater).1 "letters" List.mem_cons_self
  rw [← hids "letters"] at hletters
  exact hletters

end Session

end Concordance
