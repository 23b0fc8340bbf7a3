import Concordance.Indexing.Walk
import Concordance.Proofs.Path
import Concordance.Proofs.Utf8
import Mathlib.Data.List.Basic

/-!
# Walks in Order

The list of directories that a walk keeps does what a recursion would.

A walk takes directories off a list and puts their subdirectories in front of the others. What
it comes upon in several directories is what it comes upon in each of them, one after the other
(`visit_append`), and this is all that there is to the list: a directory is visited completely
before the next one. So the files come as they do in `below`, which calls itself for every
subdirectory, and which knows nothing of a list or of paths.

What is `below` a directory can be said without its order as well. It is every file that is
reached through directories and has a wanted extension, and none of them is there twice.

Paths come in where a path is too long. Then there is nothing to look at, and a path only grows
on the way down: all that is behind such a path is left out, and nothing else is.

## Main definitions

* `Walk.Found`: A file below a directory.
* `Walk.below`: The wanted files below a directory, by a recursion.
* `Walk.found`: Those of them that can be looked at.
* `Walk.Reaches`: A file is reached through directories.
* `Walk.Before`: The order of a walk.
* `Walk.Wanted`: A name has a wanted extension.
* `Walk.Named`: Everything below a directory has a name that can be told from the others.

## Theorems

* `Walk.visit_append`: A walk of several directories.
* `Walk.mem_below`: What is below a directory.
* `Walk.below_ascend`: It comes in the order of names.
* `Walk.filesOf_visit`: A walk comes upon the files that are below a directory.
* `Walk.mem_found`, `Walk.found_nodup`: The files that it comes upon.
-/

namespace Concordance

namespace Walk

/-- A file below a directory: the names of the directories that lead to it, its own name, and
    what is in it. -/
structure Found where
  folders : List String
  name : String
  content : Bytes
deriving DecidableEq, Repr

namespace Found

/-- A file as it is found from one directory further up. -/
def under (folder : String) (found : Found) : Found :=
  { found with folders := folder :: found.folders }

/-- The path of a file below a directory that has a path. -/
def path (root : String) (found : Found) : String :=
  Path.join (found.folders.foldl Path.join root) found.name

/-- Where a file is. -/
def place (found : Found) : List String × String :=
  (found.folders, found.name)

end Found

/-- A wanted file. -/
def file? (options : WalkOptions) : String × Node → Option Found
  | (name, .file content) => if takes options name then some ⟨[], name, content⟩ else none
  | _ => none

/-- A directory. -/
def folder? : String × Node → Option (String × List (String × Node))
  | (name, .directory inner) => some (name, inner)
  | _ => none

/-- The wanted files in a directory. -/
def filesIn (options : WalkOptions) (entries : List (String × Node)) : List Found :=
  entries.filterMap (file? options)

/-- The directories in a directory. -/
def foldersIn (entries : List (String × Node)) : List (String × List (String × Node)) :=
  entries.filterMap folder?

variable {options : WalkOptions} {entries : List (String × Node)}

theorem file?_eq_some {e : String × Node} {found : Found} : file? options e = some found
    ↔ found.folders = [] ∧ e = (found.name, .file found.content)
      ∧ takes options found.name = true := by
  constructor
  · intro hsome
    rcases e with ⟨name, content | target | inner⟩
    · by_cases htakes : takes options name = true
      · rcases Option.some.inj ((if_pos htakes).symm.trans hsome) with rfl
        exact ⟨rfl, rfl, htakes⟩
      · exact absurd ((if_neg htakes).symm.trans hsome) (by simp)
    · exact absurd hsome (by simp [file?])
    · exact absurd hsome (by simp [file?])
  · rintro ⟨hfolders, rfl, htakes⟩
    rw [file?, if_pos htakes, ← hfolders]

theorem folder?_eq_some {e : String × Node} {folder : String × List (String × Node)} :
    folder? e = some folder ↔ e = (folder.1, .directory folder.2) := by
  constructor
  · intro hsome
    rcases e with ⟨name, content | target | inner⟩
    · exact absurd hsome (by simp [folder?])
    · exact absurd hsome (by simp [folder?])
    · rw [← Option.some.inj hsome]
  · rintro rfl
    rfl

theorem mem_filesIn {found : Found} : found ∈ filesIn options entries
    ↔ found.folders = [] ∧ (found.name, .file found.content) ∈ entries
      ∧ takes options found.name = true := by
  rw [filesIn, List.mem_filterMap]
  constructor
  · rintro ⟨e, hmem, hsome⟩
    rcases file?_eq_some.mp hsome with ⟨hfolders, rfl, htakes⟩
    exact ⟨hfolders, hmem, htakes⟩
  · rintro ⟨hfolders, hmem, htakes⟩
    exact ⟨_, hmem, file?_eq_some.mpr ⟨hfolders, rfl, htakes⟩⟩

theorem mem_foldersIn {folder : String × List (String × Node)} :
    folder ∈ foldersIn entries ↔ (folder.1, .directory folder.2) ∈ entries := by
  rw [foldersIn, List.mem_filterMap]
  constructor
  · rintro ⟨e, hmem, hsome⟩
    rwa [folder?_eq_some.mp hsome] at hmem
  · exact fun hmem => ⟨_, hmem, folder?_eq_some.mpr rfl⟩

theorem mem_byName {e : String × Node} : e ∈ byName entries ↔ e ∈ entries :=
  (List.mergeSort_perm entries _).mem_iff

/-- A directory has less in it than the one that it is in. -/
theorem weight_lt {folder : String × List (String × Node)}
    (h : folder ∈ foldersIn (byName entries)) : entriesWeight folder.2 < entriesWeight entries := by
  rw [← entriesWeight_byName entries, entriesWeight_eq (byName entries)]
  exact le_total_of_mem entryWeight (mem_foldersIn.mp h)

/-- The wanted files below a directory: its own by name, and then those below each of its
    directories by name, if directories are gone into. -/
def below (options : WalkOptions) (entries : List (String × Node)) : List Found :=
  filesIn options (byName entries)
    ++ if options.recursive then
        (foldersIn (byName entries)).attach.flatMap fun ⟨folder, _⟩ =>
          (below options folder.2).map (Found.under folder.1)
      else []
termination_by entriesWeight entries
decreasing_by exact weight_lt (by assumption)

/-- The same, without the reason why it ends. -/
theorem below_eq (options : WalkOptions) (entries : List (String × Node)) :
    below options entries = filesIn options (byName entries)
      ++ if options.recursive then (foldersIn (byName entries)).flatMap fun folder =>
          (below options folder.2).map (Found.under folder.1)
        else [] := by
  rw [below, List.flatMap_subtype fun _ _ => rfl, List.unattach_attach]

/-- A file is reached from a directory through directories, and through nothing else. -/
inductive Reaches : List (String × Node) → Found → Prop where
  | file {entries : List (String × Node)} {name : String} {content : Bytes} :
    (name, .file content) ∈ entries → Reaches entries ⟨[], name, content⟩
  | folder {entries inner : List (String × Node)} {name : String} {found : Found} :
    (name, .directory inner) ∈ entries → Reaches inner found → Reaches entries (found.under name)

/-- What is below a directory. -/
theorem mem_below {found : Found} : found ∈ below options entries
    ↔ Reaches entries found ∧ takes options found.name = true
      ∧ (options.recursive = true ∨ found.folders = []) := by
  -- Down the directories one way, and along the names of the file the other way.
  constructor
  · induction entries using below.induct generalizing found with
    | case1 entries ih =>
      rw [below_eq, List.mem_append]
      rintro (hmem | hmem)
      · rcases found with ⟨folders, name, content⟩
        rcases mem_filesIn.mp hmem with ⟨rfl, hfile, htakes⟩
        exact ⟨.file (mem_byName.mp hfile), htakes, Or.inr rfl⟩
      · split at hmem
        · rename_i hrecursive
          rcases List.mem_flatMap.mp hmem with ⟨folder, hfolder, hmem⟩
          rcases List.mem_map.mp hmem with ⟨inside, hinside, rfl⟩
          rcases ih folder hfolder hinside with ⟨hreaches, htakes, -⟩
          exact ⟨.folder (mem_byName.mp (mem_foldersIn.mp hfolder)) hreaches, htakes,
            Or.inl hrecursive⟩
        · exact absurd hmem List.not_mem_nil
  · rintro ⟨hreaches, htakes, hdeep⟩
    induction hreaches with
    | file hfile =>
      rw [below_eq]
      exact List.mem_append_left _ (mem_filesIn.mpr ⟨rfl, mem_byName.mpr hfile, htakes⟩)
    | @folder entries inner name found hfolder hreaches ih =>
      have hrecursive : options.recursive = true :=
        hdeep.resolve_right (List.cons_ne_nil _ _)
      rw [below_eq, if_pos hrecursive]
      refine List.mem_append_right _ (List.mem_flatMap.mpr ⟨(name, inner), ?_, ?_⟩)
      · exact mem_foldersIn.mpr (mem_byName.mpr hfolder)
      · exact List.mem_map_of_mem (ih htakes (Or.inl hrecursive))

/-- Everything in a directory, and in the directories below it, has a name that nothing else in
    the same directory has. -/
inductive Named : List (String × Node) → Prop where
  | intro {entries : List (String × Node)} (distinct : (entries.map Prod.fst).Nodup)
      (names : ∀ e ∈ entries, Path.IsName e.1)
      (inside : ∀ name inner, (name, .directory inner) ∈ entries → Named inner) : Named entries

namespace Named

theorem distinct (h : Named entries) : (entries.map Prod.fst).Nodup := by
  rcases h with ⟨hdistinct, -, -⟩
  exact hdistinct

theorem names (h : Named entries) : ∀ e ∈ entries, Path.IsName e.1 := by
  rcases h with ⟨-, hnames, -⟩
  exact hnames

theorem inside (h : Named entries) {name : String} {inner : List (String × Node)}
    (hinner : (name, .directory inner) ∈ entries) : Named inner := by
  rcases h with ⟨-, -, hinside⟩
  exact hinside name inner hinner

/-- The names on the way to a file are names as well. -/
theorem isName (h : Named entries) {found : Found} (hreaches : Reaches entries found) :
    (∀ folder ∈ found.folders, Path.IsName folder) ∧ Path.IsName found.name := by
  induction hreaches with
  | file hfile => exact ⟨fun folder hfolder => absurd hfolder List.not_mem_nil, h.names _ hfile⟩
  | @folder entries inner name found hfolder hreaches ih =>
    have ⟨hfolders, hname⟩ := ih (h.inside hfolder)
    exact ⟨List.forall_mem_cons.mpr ⟨h.names _ hfolder, hfolders⟩, hname⟩

end Named

/-- The order of a walk: files by name, then what is in directories, directories by name. -/
inductive Before : Found → Found → Prop where
  | files {name other : String} {content content' : Bytes} :
    Utf8.bytes name < Utf8.bytes other → Before ⟨[], name, content⟩ ⟨[], other, content'⟩
  | deeper {name folder : String} {content : Bytes} {found : Found} :
    Before ⟨[], name, content⟩ (found.under folder)
  | folders {folder other : String} {found found' : Found} :
    Utf8.bytes folder < Utf8.bytes other → Before (found.under folder) (found'.under other)
  | inside {folder : String} {found found' : Found} :
    Before found found' → Before (found.under folder) (found'.under folder)

/-- What comes before a file is somewhere else. -/
theorem Before.place_ne {found found' : Found} (h : Before found found') :
    found.place ≠ found'.place := by
  induction h with
  | @files name other _ _ hlt =>
    intro heq
    rw [show name = other from (Prod.mk.inj heq).2] at hlt
    exact List.lt_irrefl _ hlt
  | deeper => exact fun heq => List.cons_ne_nil _ _ (Prod.mk.inj heq).1.symm
  | folders hlt =>
    intro heq
    rw [(List.cons.inj (Prod.mk.inj heq).1).1] at hlt
    exact List.lt_irrefl _ hlt
  | inside _ ih =>
    intro heq
    have ⟨hfolders, hname⟩ := Prod.mk.inj heq
    exact ih (Prod.ext (List.cons.inj hfolders).2 hname)

/-- Entries that can be told apart come in the order of their names. -/
theorem byName_ascend (h : (entries.map Prod.fst).Nodup) :
    (byName entries).Pairwise fun a b => Utf8.bytes a.1 < Utf8.bytes b.1 := by
  have hsorted : (byName entries).Pairwise fun a b =>
      decide (Utf8.bytes a.1 ≤ Utf8.bytes b.1) = true := by
    refine List.pairwise_mergeSort (fun a b c hab hbc => ?_) (fun a b => ?_) entries
    · exact decide_eq_true (List.le_trans (of_decide_eq_true hab) (of_decide_eq_true hbc))
    · rw [Bool.or_eq_true]
      exact (List.le_total _ _).imp decide_eq_true decide_eq_true
  have hdistinct : (byName entries).Pairwise fun a b => a.1 ≠ b.1 :=
    List.pairwise_map.mp (((List.mergeSort_perm entries _).map Prod.fst).nodup_iff.mpr h)
  refine (hsorted.and hdistinct).imp fun {a b} hab => ?_
  exact Classical.byContradiction fun hnot =>
    hab.2 (Utf8.bytes_injective (List.le_antisymm (of_decide_eq_true hab.1) hnot))

/-- What is below a directory comes in the order of a walk. -/
theorem below_ascend (h : Named entries) : (below options entries).Pairwise Before := by
  induction entries using below.induct with
  | case1 entries ih =>
    have hnames := byName_ascend h.distinct
    -- Among the files of the directory itself it is their names that count.
    have hfiles : (filesIn options (byName entries)).Pairwise Before := by
      refine List.pairwise_filterMap.mpr (hnames.imp fun {a b} hlt found hfound other hother => ?_)
      rcases found with ⟨folders, name, content⟩
      rcases other with ⟨folders', name', content'⟩
      rcases file?_eq_some.mp hfound with ⟨rfl, rfl, -⟩
      rcases file?_eq_some.mp hother with ⟨rfl, rfl, -⟩
      exact Before.files hlt
    rw [below_eq]
    split
    · refine List.pairwise_append.mpr ⟨hfiles, List.pairwise_flatMap.mpr ⟨?_, ?_⟩, ?_⟩
      · -- In one folder, below its name.
        intro folder hfolder
        have hinner := ih folder hfolder (h.inside (mem_byName.mp (mem_foldersIn.mp hfolder)))
        exact List.pairwise_map.mpr (hinner.imp Before.inside)
      · -- Between two folders it is their names that count.
        refine List.pairwise_filterMap.mpr
          (hnames.imp fun {a b} hlt folder hfolder other hother => ?_)
        rcases folder?_eq_some.mp hfolder with rfl
        rcases folder?_eq_some.mp hother with rfl
        intro found hfound found' hfound'
        rcases List.mem_map.mp hfound with ⟨inside, -, rfl⟩
        rcases List.mem_map.mp hfound' with ⟨inside', -, rfl⟩
        exact Before.folders hlt
      · -- The files that are there come before all that is deeper.
        intro file hfile other hother
        rcases file with ⟨folders, name, content⟩
        rcases (mem_filesIn.mp hfile).1 with rfl
        rcases List.mem_flatMap.mp hother with ⟨folder, -, hother⟩
        rcases List.mem_map.mp hother with ⟨inside, -, rfl⟩
        exact Before.deeper
    · rw [List.append_nil]
      exact hfiles

/-- A walk of several directories comes upon what is below each of them, one after the other. -/
theorem visit_append (options : WalkOptions) (pending others : List Pending) :
    visit options (pending ++ others) = visit options pending ++ visit options others := by
  fun_induction visit options pending with
  | case1 => rfl
  | case2 path entries pending entries' inner ih =>
    rw [List.cons_append, visit, ← List.append_assoc, List.append_assoc (findings ..)]
    exact congrArg (findings options path entries' ++ ·) ih

/-- A walk of one directory after the other. -/
theorem visit_flatMap (options : WalkOptions) (pending : List Pending) :
    visit options pending = pending.flatMap fun directory => visit options [directory] := by
  induction pending with
  | nil => rw [visit]; rfl
  | cons directory pending ih =>
    rw [← List.singleton_append, visit_append, ih, List.singleton_append, List.flatMap_cons]

/-- What is not kept contributes nothing. -/
theorem flatMap_filter {α β : Type} (as : List α) (keep : α → Bool) (f : α → List β) :
    (as.filter keep).flatMap f = as.flatMap fun a => if keep a then f a else [] := by
  induction as with
  | nil => rfl
  | cons a as ih =>
    rw [List.filter_cons, List.flatMap_cons]
    split
    · rw [List.flatMap_cons, ih]
    · rw [ih, List.nil_append]

/-- The files that a walk came upon. -/
def filesOf (findings : List Finding) : List (String × Bytes) :=
  findings.filterMap fun
    | .file path content => some (path, content)
    | .skipped _ => none

theorem filesOf_append (findings others : List Finding) :
    filesOf (findings ++ others) = filesOf findings ++ filesOf others :=
  List.filterMap_append

theorem filesOf_flatMap {α : Type} (as : List α) (f : α → List Finding) :
    filesOf (as.flatMap f) = as.flatMap fun a => filesOf (f a) :=
  List.filterMap_flatMap ..

/-- The wanted files below a directory that can be looked at, given its path. -/
def found (options : WalkOptions) (root : String) (entries : List (String × Node)) : List Found :=
  (below options entries).filter fun found => Disk.fits (found.path root)

/-- An extension is wanted whatever directory a file is in. -/
theorem takes_join {name : String} (h : Path.IsName name) (directory : String) :
    takes options (Path.join directory name) = takes options name := by
  rw [takes, takes, h.extension_join]

/-- The files that a walk comes upon in a directory. -/
theorem filesOf_findings {root : String} (h : ∀ e ∈ entries, Path.IsName e.1) :
    filesOf (findings options root entries)
      = ((filesIn options entries).filter fun found => Disk.fits (found.path root)).map
          fun found => (found.path root, found.content) := by
  rw [filesOf, findings, filesIn, List.filterMap_filterMap, List.filter_filterMap,
    List.map_filterMap]
  refine List.filterMap_congr fun e he => ?_
  rcases e with ⟨name, node⟩
  have htakes : takes options (Path.join root name) = takes options name := takes_join (h _ he) root
  -- A file is found if its path is not too long, and passed on if its name is wanted.
  cases node with
  | file content =>
    by_cases hwanted : takes options name = true
    · by_cases hfits : Disk.fits (Path.join root name) = true
      · simp [file?, hfits, htakes, hwanted, Found.path, Option.filter_some]
      · simp [file?, hfits, hwanted, Found.path, Option.filter_some]
    · by_cases hfits : Disk.fits (Path.join root name) = true
      · simp [file?, hfits, htakes, hwanted]
      · simp [file?, hfits, hwanted]
  | link target | directory inner =>
    by_cases hfits : Disk.fits (Path.join root name) = true
    · simp [file?, hfits]
    · simp [file?, hfits]

/-- Where a file can be looked at, so can every directory on the way to it. -/
theorem fits_of_path {found : Found} {root : String}
    (hfolders : ∀ folder ∈ found.folders, Path.IsName folder) (hname : Path.IsName found.name)
    (h : Disk.fits (found.path root) = true) : Disk.fits root = true := by
  have hgrow : ∀ (folders : List String) (root : String),
      (∀ folder ∈ folders, Path.IsName folder) →
      root.utf8ByteSize ≤ (folders.foldl Path.join root).utf8ByteSize := by
    intro folders
    induction folders with
    | nil => exact fun root _ => Nat.le_refl _
    | cons folder folders ih =>
      intro root hall
      have ⟨hfirst, hrest⟩ := List.forall_mem_cons.mp hall
      exact Nat.le_trans (Path.utf8ByteSize_le_join hfirst root) (ih _ hrest)
  refine decide_eq_true (Nat.le_trans ?_ (of_decide_eq_true h))
  exact Nat.le_trans (hgrow _ root hfolders) (Path.utf8ByteSize_le_join hname _)

/-- The subdirectories of a directory are the directories in it that can be looked at. -/
theorem subdirectories_eq (root : String) (entries : List (String × Node)) :
    subdirectories root entries
      = ((foldersIn entries).filter fun folder => Disk.fits (Path.join root folder.1)).map
          fun folder => (Path.join root folder.1, folder.2) := by
  rw [subdirectories, foldersIn, List.filter_filterMap, List.map_filterMap]
  refine List.filterMap_congr fun e he => ?_
  rcases e with ⟨name, node⟩
  cases node with
  | file content | link target => rfl
  | directory inner =>
    by_cases hfits : Disk.fits (Path.join root name) = true
    · simp [folder?, hfits, Option.filter_some]
    · simp [folder?, hfits, Option.filter_some]

/-- What is below the directories in a directory is found in those of them that can be looked
    at. -/
theorem found_under {root : String} (h : Named entries) {folder : String × List (String × Node)}
    (hfolder : folder ∈ foldersIn (byName entries)) :
    ((below options folder.2).map (Found.under folder.1)).filter
        (fun found => Disk.fits (found.path root))
      = if Disk.fits (Path.join root folder.1) then
          (found options (Path.join root folder.1) folder.2).map (Found.under folder.1)
        else [] := by
  have hinner := h.inside (mem_byName.mp (mem_foldersIn.mp hfolder))
  split
  · rw [List.filter_map]
    rfl
  · rename_i hfits
    refine List.filter_eq_nil_iff.mpr fun found hfound hpath => hfits ?_
    rcases List.mem_map.mp hfound with ⟨inside, hinside, rfl⟩
    have ⟨hfolders, hname⟩ := hinner.isName (mem_below.mp hinside).1
    exact fits_of_path hfolders hname hpath

/-- A walk comes upon the files that are below a directory, in the same order. -/
theorem filesOf_visit {root : String} (h : Named entries) :
    filesOf (visit options [(root, entries)])
      = (found options root entries).map fun found => (found.path root, found.content) := by
  induction entries using below.induct generalizing root with
  | case1 entries ih =>
    have hnames : ∀ e ∈ byName entries, Path.IsName e.1 := fun e he => h.names e (mem_byName.mp he)
    rw [visit, List.append_nil, filesOf_append, filesOf_findings hnames, found, below_eq,
      List.filter_append, List.map_append]
    congr 1
    split
    · rw [visit_flatMap, filesOf_flatMap, subdirectories_eq, List.flatMap_map, List.filter_flatMap,
        List.map_flatMap]
      -- A folder that is not visited, as its path is too long, has nothing in it with a path that
      -- fits.
      rw [flatMap_filter]
      refine List.flatMap_congr fun folder hfolder => ?_
      rw [found_under h hfolder]
      split
      · rw [ih folder hfolder (h.inside (mem_byName.mp (mem_foldersIn.mp hfolder))), List.map_map]
        rfl
      · rfl
    · rw [visit]
      rfl

/-- A name has a wanted extension: something, a dot, and an extension that is wanted but for the
    case of ASCII letters. -/
def Wanted (options : WalkOptions) (name : String) : Prop :=
  ∃ stem ending : List Char, stem ≠ [] ∧ '.' ∉ ending ∧ name.toList = stem ++ '.' :: ending
    ∧ ∃ wanted ∈ options.extensions,
        wanted.toList.map Char.toLower = ending.map Char.toLower

theorem takes_iff {name : String} (h : Path.IsName name) :
    takes options name = true ↔ Wanted options name := by
  rw [takes]
  constructor
  · intro htakes
    rcases hext : Path.extension name with _ | ending
    · rw [hext] at htakes
      exact absurd htakes (by simp)
    · rw [hext] at htakes
      rcases h.extension_eq_some.mp hext with ⟨hdot, stem, hstem, hname⟩
      rcases List.any_eq_true.mp htakes with ⟨wanted, hwanted, hsame⟩
      exact ⟨stem, ending.toList, hstem, hdot, hname, wanted, hwanted, of_decide_eq_true hsame⟩
  · -- The ending has no dot in it, so it is what stands behind the last one.
    rintro ⟨stem, ending, hstem, hdot, hname, wanted, hwanted, hsame⟩
    have hext : Path.extension name = some (String.ofList ending) := by
      refine h.extension_eq_some.mpr ?_
      rw [String.toList_ofList]
      exact ⟨hdot, stem, hstem, hname⟩
    rw [hext]
    refine List.any_eq_true.mpr ⟨wanted, hwanted, decide_eq_true ?_⟩
    rw [String.toList_ofList]
    exact hsame

/-- What is found below a directory, without its order. -/
theorem mem_found {root : String} (h : Named entries) {file : Found} :
    file ∈ found options root entries ↔ Reaches entries file ∧ Wanted options file.name
      ∧ (options.recursive = true ∨ file.folders = []) ∧ Disk.fits (file.path root) = true := by
  rw [found, List.mem_filter, mem_below, and_assoc, and_assoc]
  refine and_congr_right fun hreaches => ?_
  rw [takes_iff (h.isName hreaches).2]

/-- The files that are found come in the order of a walk. -/
theorem found_ascend (root : String) (h : Named entries) :
    (found options root entries).Pairwise Before :=
  (below_ascend h).sublist List.filter_sublist

/-- And so every file is found once. -/
theorem found_nodup (root : String) (h : Named entries) :
    ((found options root entries).map Found.place).Nodup :=
  List.pairwise_map.mpr ((found_ascend root h).imp Before.place_ne)

end Walk

end Concordance
