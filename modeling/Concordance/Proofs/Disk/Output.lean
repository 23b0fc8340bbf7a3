import Concordance.Proofs.Disk.Walk
import Mathlib.Data.List.Perm.Subperm

/-!
# New Files

A file is made where a path leads, or nothing is changed at all.

The bytes go into a new file first, and what is done to the tree for it is undone whatever
goes wrong later on. For this the new file needs a name of its own. There is always one,
since more names are tried than the directory has entries (`Contents.unusedName_free`). So
taking the file away again gives back the very same tree, and moving it to where it was
asked for is putting it there to begin with.

## Main definitions

* `Disk.GainsFile`: A tree with one more file, or one replaced.

## Theorems

* `Contents.unusedName_free`: There is a name for a new file.
* `Contents.publishBytes_error`, `Contents.publishBytes_ok`: What making a file does to a tree.
* `Contents.publishBytes_root`: A file can be made at the root.
* `Disk.openFile_root`: A file at the root can be read.
-/

namespace Concordance

namespace Contents

theorem provisionalName_injective : Function.Injective provisionalName := by
  intro n m h
  have hlength := congrArg (fun name : String => name.toList.length) h
  simpa [provisionalName, String.toList_ofList] using hlength

/-- There is a name for a new file. -/
theorem unusedName_free (entries : List (String × Node)) :
    Node.lookup (unusedName entries) entries = none := by
  let names := (List.range (entries.length + 1)).map provisionalName
  have hnodup : names.Nodup :=
    List.pairwise_map.mpr (List.nodup_range.imp fun hne heq => hne (provisionalName_injective heq))
  rw [unusedName]
  rcases hfind : names.find? fun name => (Node.lookup name entries).isNone with _ | name
  · -- If all names were taken, there would be as many entries.
    have hsub : names ⊆ entries.map Prod.fst := by
      intro name hname
      have htaken : ¬ (Node.lookup name entries).isNone = true :=
        List.find?_eq_none.mp hfind name hname
      rw [Option.isNone_iff_eq_none] at htaken
      obtain ⟨node, hlookup⟩ := Option.ne_none_iff_exists'.mp htaken
      exact List.mem_map.mpr ⟨_, Node.mem_of_lookup hlookup, rfl⟩
    have hle := (List.subperm_of_subset hnodup hsub).length_le
    rw [List.length_map, List.length_map, List.length_range] at hle
    omega
  · have hfree := List.find?_some hfind
    rw [Option.getD_some]
    exact Option.isNone_iff_eq_none.mp hfree

/-- Where a file is made that has no name yet. -/
theorem exists_fresh {disk : Disk} {path name : String} {location : List String}
    (h : disk.directoryAt path name = .ok location) : ∃ entries,
      disk.root.get? location = some (.directory entries)
      ∧ Node.lookup (unusedName entries) entries = none := by
  rcases Disk.exists_of_directoryAt h with ⟨entries, -, hget⟩
  exact ⟨entries, hget, unusedName_free entries⟩

/-- Something is only made a file if it could be had. -/
theorem exists_of_publishBytes {disk after : Disk} {path : String} {content : Except Error Bytes}
    (h : publishBytes disk path content = (.ok (), after)) : ∃ bytes, content = .ok bytes := by
  rcases content with e | bytes
  · unfold publishBytes at h
    rcases hplace : disk.directoryAt (directoryOf path) (provisionalName 0) with cause | location
    · simp only [hplace, Prod.mk.injEq, reduceCtorEq, false_and] at h
    · simp only [hplace, Prod.mk.injEq, reduceCtorEq, false_and] at h
  · exact ⟨bytes, rfl⟩

/-- If a file is not made, nothing has changed. -/
theorem publishBytes_error {disk after : Disk} {path : String} {content : Except Error Bytes}
    {e : Error} (h : publishBytes disk path content = (.error e, after)) : after = disk := by
  unfold publishBytes at h
  rcases hplace : disk.directoryAt (directoryOf path) (provisionalName 0) with cause | location
  · simp only [hplace, Prod.mk.injEq] at h
    exact h.2.symm
  obtain ⟨entries, hget, hfree⟩ := exists_fresh hplace
  simp only [hplace, hget] at h
  rcases content with e' | bytes
  · simp only [Prod.mk.injEq] at h
    rw [← h.2, Disk.erase_put hget hfree]
  · simp only [Disk.put_put] at h
    rcases hmove : (disk.put location (unusedName entries) (.file bytes)).moveOnto location
        (unusedName entries) path with cause | published
    · simp only [hmove, Prod.mk.injEq] at h
      rw [← h.2, Disk.erase_put hget hfree]
    · simp only [hmove, Prod.mk.injEq, reduceCtorEq, false_and] at h

end Contents

/-- A tree with one more file, or with one in the place of something that was no directory.
    Everything else is as it was. -/
def Disk.GainsFile (disk after : Disk) (location : List String) (content : Bytes) : Prop :=
  ∀ other, after.item? other
    = if other = location then some (.file content) else disk.item? other

namespace Contents

/-- If a file is made, it lies where the path leads, and it is all that has changed. -/
theorem publishBytes_ok {disk after : Disk} {path : String} {bytes : Bytes}
    (h : publishBytes disk path (.ok bytes) = (.ok (), after)) :
    ∃ location, disk.placeOf path = .ok location ∧ disk.GainsFile after location bytes := by
  unfold publishBytes at h
  rcases hplace : disk.directoryAt (directoryOf path) (provisionalName 0) with cause | location
  · simp only [hplace, Prod.mk.injEq, reduceCtorEq, false_and] at h
  obtain ⟨entries, hget, hfree⟩ := exists_fresh hplace
  simp only [hplace, hget, Disk.put_put] at h
  rcases hmove : (disk.put location (unusedName entries) (.file bytes)).moveOnto location
      (unusedName entries) path with cause | published
  · simp only [hmove, Prod.mk.injEq, reduceCtorEq, false_and] at h
  simp only [hmove, Prod.mk.injEq, true_and] at h
  rcases h with rfl
  obtain ⟨last, before, there, node, old, hcheck, hslash, hnames, hdot, hup, hwalk, hnode, hold,
    hfile, rfl⟩ := Disk.exists_of_moveOnto hmove
  rw [Disk.get?_put hget, Option.some.injEq] at hnode
  rcases hnode with rfl
  rw [Disk.erase_put hget hfree]
  -- The walk does not notice the new file, and comes to the directory that it lies in.
  have hwalk' : Disk.walk disk.root true Disk.maxLinks (disk.start path) (before.reverse ++ ["."])
      = .ok there := by
    refine Disk.walk_of_item? (fun other hother => ?_) (by simp) hwalk
    have hnot : ∀ inner, Node.lookup (unusedName entries) entries ≠ some (.directory inner) := by
      simp [hfree]
    have hnew : (disk.put location (unusedName entries) (.file bytes)).item? other
        = if other = location ++ [unusedName entries] then some (.file bytes)
          else disk.item? other := Disk.item?_put_file hget hnot other
    rw [Disk.item?] at hnew
    split at hnew
    · exact absurd hnew (hother bytes)
    · exact hnew.symm
  have hsame := Disk.walk_directoryOf hcheck hslash hnames hdot hplace
  rcases Except.ok.inj (hwalk'.symm.trans hsame) with rfl
  refine ⟨there ++ [last], ?_, Disk.item?_put_file hget fun inner hinner => ?_⟩
  · rw [Disk.placeOf, hnames]
    simp only [hsame]
    rfl
  · -- A directory in the way would have been there with the new file as well.
    have hlast : last ≠ unusedName entries := by
      rintro rfl
      exact absurd (hfree.symm.trans hinner) (by simp)
    unfold Disk.entry? at hold
    split at hold
    · exact absurd hold (by simp)
    · rw [Disk.get?_put_name hget, Node.lookup_insert_of_ne hlast, hinner] at hold
      exact hfile inner (Except.ok.inj hold).symm

end Contents

/-! A tree of which the root is worked in, where a file is to be made beside what is there. -/

section Root

variable (entries : List (String × Node))

/-- A dot leads to where one is. -/
theorem Disk.walk_here (root : Node) : walk root true maxLinks [] ["."] = .ok [] := by
  rw [walk, if_pos rfl, walk]

/-- The root is a place for a file. -/
theorem Disk.directoryAt_root :
    directoryAt { root := .directory entries } "." (Contents.provisionalName 0) = .ok [] := by
  have hcheck : checkPath (Path.join (Path.join "/" ".") (Contents.provisionalName 0))
      = .ok () := by
    unfold checkPath
    rw [if_neg (by decide), if_neg (by decide), if_pos (by decide)]
  have hcheck' : checkPath "." = .ok () := by
    unfold checkPath
    rw [if_neg (by decide), if_neg (by decide), if_pos (by decide)]
  have hworking : workingPath { root := .directory entries } = "/" := by
    show "/" ++ "/".intercalate [] = "/"
    decide
  have hpath : (if ".".isEmpty then "." else ".") = "." := by decide
  have hsteps : Path.steps "." = ["."] := by decide
  have hstart : start { root := .directory entries } "." = [] := by
    unfold start
    rw [if_neg (by decide)]
  -- The path is a dot, and that leads nowhere.
  have hresolve : resolve { root := .directory entries } true "." = .ok [] := by
    rw [resolve, hcheck', hsteps, hstart]
    exact walk_here _
  rw [directoryAt, hworking, hcheck, hpath, hresolve]
  rfl

theorem Disk.checkPath_index : checkPath "index" = .ok () := by
  unfold checkPath
  rw [if_neg (by decide), if_neg (by decide), if_pos (by decide)]

theorem Disk.start_index : start { root := .directory entries } "index" = [] := by
  unfold start
  rw [if_neg (by decide)]

theorem Disk.entry?_index :
    entry? (.directory entries) [] "index" = .ok (Node.lookup "index" entries) := by
  unfold entry?
  rw [if_neg (by decide), List.nil_append, Node.get?_singleton]

variable {entries} {name : String} {node : Node}

/-- A file of the root is moved to another name there, unless that is the name of a
    directory. -/
theorem Disk.moveOnto_root (hname : Node.lookup name entries = some node)
    (hindex : ∀ inner, Node.lookup "index" entries ≠ some (.directory inner)) :
    ({ root := .directory entries } : Disk).moveOnto [] name "index"
      = .ok ((erase { root := .directory entries } [] name).put [] "index" node) := by
  have hnames : (Path.names "index").reverse = ["index"] := by decide
  have hslash : Path.endsInSlash "index" = false := by decide
  have hget : Node.get? (.directory entries) [name] = some node := by
    rw [Node.get?_singleton, hname]
  have hnot : ¬ ("index" = "." ∨ "index" = "..") := by decide
  simp only [moveOnto, checkPath_index, hnames, start_index, List.reverse_nil, List.nil_append,
    walk_here, bind, Except.bind, if_neg hnot, hget, entry?_index, hslash, Bool.false_eq_true,
    if_false]

/-- A file of the root can be read. -/
theorem Disk.openFile_root {content : Bytes}
    (h : Node.lookup "index" entries = some (.file content)) :
    openFile { root := .directory entries } "index" = .ok content := by
  have hsteps : Path.steps "index" = ["index"] := by decide
  have hwalk : walk (.directory entries) true maxLinks [] ["index"] = .ok ["index"] := by
    rw [walk, if_neg (by decide), if_neg (by decide), entry?_index, h]
    rfl
  have hget : Node.get? (.directory entries) ["index"] = some (.file content) := by
    rw [Node.get?_singleton, h]
  simp only [openFile, Disk.node, resolve, checkPath_index, start_index, hsteps, hwalk, hget, bind,
    Except.bind]

theorem Contents.directoryOf_root : directoryOf "index" = "." := by
  decide

/-- What can not be had is why there is no file. -/
theorem Contents.publishBytes_root_error (entries : List (String × Node)) (e : Error) :
    ∃ after, publishBytes { root := .directory entries } "index" (.error e)
      = (.error e, after) := by
  unfold publishBytes
  simp only [directoryOf_root, Disk.directoryAt_root]
  exact ⟨_, rfl⟩

/-- A file can be made at the root, unless there is a directory in the way. -/
theorem Contents.publishBytes_root
    (hindex : ∀ inner, Node.lookup "index" entries ≠ some (.directory inner)) (bytes : Bytes) :
    publishBytes { root := .directory entries } "index" (.ok bytes)
      = (.ok (), ({ root := .directory entries } : Disk).put [] "index" (.file bytes)) := by
  have hroot : Node.get? (.directory entries) [] = some (.directory entries) := rfl
  have hfree := unusedName_free entries
  have hindex' : ∀ inner, Node.lookup "index"
      (Node.insert (unusedName entries) (.file bytes) entries) ≠ some (.directory inner) := by
    intro inner
    by_cases hsame : "index" = unusedName entries
    · rw [hsame, Node.lookup_insert_self]
      simp
    · rw [Node.lookup_insert_of_ne hsame]
      exact hindex inner
  -- The provisional file is put beside it, and moved onto it.
  have hput : Disk.put { root := .directory entries } [] (unusedName entries) (.file bytes)
      = { root := .directory (Node.insert (unusedName entries) (.file bytes) entries) } := by
    rw [Disk.put, Node.modifyEntries]
  have hmove := Disk.moveOnto_root Node.lookup_insert_self hindex'
  rw [← hput, Disk.erase_put hroot hfree] at hmove
  unfold publishBytes
  simp only [directoryOf_root, Disk.directoryAt_root, hroot, Disk.put_put, hmove]

/-- In an empty tree, it becomes the only file. -/
theorem Contents.publishBytes_empty (bytes : Bytes) :
    publishBytes {} "index" (.ok bytes)
      = (.ok (), { root := .directory [("index", .file bytes)] }) :=
  publishBytes_root (fun _ => by simp [Node.lookup]) bytes

end Root

end Concordance
