import Concordance.Proofs.Ascending
import Concordance.Proofs.Disk.Alike
import Mathlib.Data.List.Forall2

/-!
# Links Are Not Followed

A walk does not depend on what lies behind the links that it meets.

Two trees are walked that differ behind links only. The entries of a directory come in the order
of their names, so they come in pairs of one name (`Walk.byName_alike`). A pair of files is one
file, a pair of links is passed over in both trees, and for a pair of directories there is an
induction. Therefore the two walks come upon the same files with the same bytes, and the same
places that can not be looked at (`Walk.visit_alike`).

The path that a walk begins at is another matter. It is looked at without following a link in
its last place, which tells a file from everything else, and then it is listed, and for this the
link is followed. A link that leads to a directory is therefore walked like that directory, one
that leads to a file is not. So there is a condition on the beginning: if it is a link to a
directory in one of the trees, the trees have to be alike behind this link too. Nothing is asked
of any other link, neither of those below the path nor of those below the directory that the
first one leads to.

## Main definitions

* `Walk.Paired`: Two entries of one name that differ behind links only.
* `Walk.inside`: What a walk comes upon behind an entry.
* `Disk.LinksToDirectory`: A path names a link to a directory.

## Theorems

* `Walk.byName_alike`: Entries in pairs.
* `Walk.visit_alike`: The walks of two directories.
* `Session.addTree_unfollowed`: What is taken in does not depend on what is behind links.
-/

namespace Concordance

namespace Walk

variable {options : WalkOptions} {entries entries' : List (String × Node)}

/-- Two entries of one name that differ behind links only. -/
def Paired (entry entry' : String × Node) : Prop :=
  entry'.1 = entry.1 ∧ entry.2.Alike entry'.2

/-- What does not tell two entries of a pair apart does not tell lists of pairs apart. -/
theorem map_eq_of_paired {α : Type} {f : String × Node → α}
    (h : List.Forall₂ Paired entries entries')
    (hf : ∀ entry ∈ entries, ∀ entry' ∈ entries', Paired entry entry' → f entry' = f entry) :
    entries'.map f = entries.map f := by
  induction h with
  | nil => rfl
  | @cons entry entry' rest rest' hentry hrest ih =>
    have hfirst : f entry' = f entry :=
      hf entry List.mem_cons_self entry' List.mem_cons_self hentry
    have hothers : rest'.map f = rest.map f := ih fun a ha b hb =>
      hf a (List.mem_cons_of_mem _ ha) b (List.mem_cons_of_mem _ hb)
    rw [List.map_cons, List.map_cons, hfirst, hothers]

/-- The names in one of two directories that are alike are in the other. -/
theorem names_subset (h : (Node.directory entries).Alike (.directory entries'))
    (hnamed : Named entries) : entries.map Prod.fst ⊆ entries'.map Prod.fst := by
  intro name hname
  rcases List.mem_map.mp hname with ⟨⟨name, node⟩, hmem, rfl⟩
  obtain ⟨node', hlookup, -⟩ := h.entry ((Node.lookup_eq_some_iff hnamed.distinct).mpr hmem)
  exact List.mem_map.mpr ⟨_, Node.mem_of_lookup hlookup, rfl⟩

/-- Directories that are alike have the same names, and they come in the same order. -/
theorem names_byName (h : (Node.directory entries).Alike (.directory entries'))
    (hnamed : Named entries) (hnamed' : Named entries') :
    (byName entries').map Prod.fst = (byName entries).map Prod.fst := by
  have hascend : ∀ {entries : List (String × Node)}, Named entries →
      (((byName entries).map Prod.fst).map Utf8.bytes).Pairwise (· < ·) := by
    intro entries hnamed
    rw [List.map_map]
    exact List.pairwise_map.mpr (byName_ascend hnamed.distinct)
  have hmem : ∀ {entries : List (String × Node)} {name : String},
      name ∈ (byName entries).map Prod.fst ↔ name ∈ entries.map Prod.fst :=
    ((List.mergeSort_perm _ _).map Prod.fst).mem_iff
  refine List.map_injective_iff.mpr (fun _ _ => Utf8.bytes_injective) ?_
  refine eq_of_mem_iff (hascend hnamed') (hascend hnamed) fun bytes => ?_
  rw [List.mem_map, List.mem_map]
  refine exists_congr fun name => and_congr_left fun _ => ?_
  rw [hmem, hmem]
  exact ⟨fun hname => names_subset h.symm hnamed' hname, fun hname => names_subset h hnamed hname⟩

/-- The entries of directories that are alike come in pairs. -/
theorem byName_alike (h : (Node.directory entries).Alike (.directory entries'))
    (hnamed : Named entries) (hnamed' : Named entries') :
    List.Forall₂ Paired (byName entries) (byName entries') := by
  have hnames : List.Forall₂ (fun entry entry' => entry.1 = entry'.1) (byName entries)
      (byName entries') := by
    rw [← List.forall₂_map_right_iff, ← List.forall₂_map_left_iff, List.forall₂_eq_eq_eq]
    exact (names_byName h hnamed hnamed').symm
  rw [List.forall₂_iff_zip] at hnames ⊢
  refine ⟨hnames.1, fun {entry entry'} hzip => ?_⟩
  have hname : entry.1 = entry'.1 := hnames.2 hzip
  have ⟨hentry, hentry'⟩ := List.of_mem_zip hzip
  -- The partner of an entry is what its name leads to on the other side.
  obtain ⟨node', hlookup', halike⟩ := h.entry
    ((Node.lookup_eq_some_iff hnamed.distinct).mpr (mem_byName.mp hentry))
  rw [hname, (Node.lookup_eq_some_iff hnamed'.distinct).mpr (mem_byName.mp hentry')] at hlookup'
  rw [← Option.some.inj hlookup'] at halike
  exact ⟨hname.symm, halike⟩

/-- Directories that are alike have the same wanted files in them. -/
theorem findings_paired (h : List.Forall₂ Paired entries entries') (path : String) :
    findings options path entries' = findings options path entries := by
  have hfilter : ∀ {f : String × Node → Option Finding}, entries'.map f = entries.map f →
      entries'.filterMap f = entries.filterMap f := by
    intro f hf
    have heq := congrArg (List.filterMap id) hf
    rwa [List.filterMap_map, List.filterMap_map] at heq
  refine hfilter (map_eq_of_paired h ?_)
  rintro ⟨name, node⟩ - ⟨name', node'⟩ - ⟨rfl, halike⟩
  rcases node with content | target | inner
  · rcases halike.of_file with rfl
    rfl
  · obtain ⟨target', rfl⟩ := halike.of_link
    rfl
  · obtain ⟨inner', rfl⟩ := halike.of_directory
    rfl

/-- What a walk comes upon behind an entry of a directory, if it goes into directories. -/
def inside (options : WalkOptions) (path : String) : String × Node → List Finding
  | (name, .directory inner) =>
    if Disk.fits (Path.join path name) then visit options [(Path.join path name, inner)] else []
  | _ => []

/-- What a walk comes upon in a directory, and then behind its entries. -/
theorem visit_directory (options : WalkOptions) (path : String)
    (entries : List (String × Node)) :
    visit options [(path, entries)] = findings options path (byName entries)
      ++ if options.recursive then (byName entries).flatMap (inside options path) else [] := by
  rw [visit, List.append_nil]
  congr 1
  split
  · -- Entries that are not directories leave nothing to be visited, and a path that is too long is
    -- left out in the same way on both sides.
    rw [visit_flatMap]
    induction byName entries with
    | nil => rfl
    | cons entry rest ih =>
      rcases entry with ⟨name, content | target | inner⟩
      · exact ih
      · exact ih
      · rw [List.flatMap_cons, ← ih, subdirectories, List.filterMap_cons, inside]
        by_cases hfits : Disk.fits (Path.join path name) = true
        · simp only [hfits, if_true, List.flatMap_cons]
          rfl
        · simp only [hfits]
          rfl
  · rw [visit]

/-- A walk comes upon the same in directories that are alike. -/
theorem visit_alike {path : String} (h : (Node.directory entries).Alike (.directory entries'))
    (hnamed : Named entries) (hnamed' : Named entries') :
    visit options [(path, entries')] = visit options [(path, entries)] := by
  induction entries using below.induct generalizing path entries' with
  | case1 entries ih =>
    have hpairs := byName_alike h hnamed hnamed'
    rw [visit_directory, visit_directory, findings_paired hpairs, List.flatMap_def,
      List.flatMap_def, map_eq_of_paired hpairs]
    rintro ⟨name, node⟩ hmem ⟨name', node'⟩ hmem' ⟨rfl, halike⟩
    rcases node with content | target | inner
    · rcases halike.of_file with rfl
      rfl
    · obtain ⟨target', rfl⟩ := halike.of_link
      rfl
    · obtain ⟨inner', rfl⟩ := halike.of_directory
      rw [inside, inside, ih (_, inner) (mem_foldersIn.mpr hmem) halike
        (hnamed.inside (mem_byName.mp hmem)) (hnamed'.inside (mem_byName.mp hmem'))]

end Walk

namespace Disk

variable {disk other : Disk} {path : String}

/-- A path names a link, and the link leads to a directory. -/
def LinksToDirectory (disk : Disk) (path : String) : Prop :=
  ∃ target entries, disk.node false path = .ok (.link target) ∧ disk.list path = .ok entries

/-- Trees that are alike behind a path that is followed are listed alike. -/
theorem Alike.list (h : Alike true disk other path) {entries : List (String × Node)}
    (hlist : disk.list path = .ok entries) :
    ∃ entries', other.list path = .ok entries'
      ∧ (Node.directory entries).Alike (.directory entries') := by
  obtain ⟨node', hnode', halike⟩ := h.of_ok (list_eq_ok_iff.mp hlist)
  obtain ⟨entries', rfl⟩ := halike.of_directory
  exact ⟨entries', list_eq_ok_iff.mpr hnode', halike⟩

/-- What is no file is listed alike if the trees are alike behind a link to a directory, should
    the path be one. -/
theorem Alike.list_of_node (h : Alike false disk other path)
    (hlink : disk.LinksToDirectory path → Alike true disk other path) {node : Node}
    (hnode : disk.node false path = .ok node) (hfile : ∀ content, node ≠ .file content)
    {entries : List (String × Node)} (hlist : disk.list path = .ok entries) :
    ∃ entries', other.list path = .ok entries'
      ∧ (Node.directory entries).Alike (.directory entries') := by
  rcases node with content | target | inner
  · exact absurd rfl (hfile content)
  · exact (hlink ⟨target, entries, hnode, hlist⟩).list hlist
  · rcases Except.ok.inj (hlist.symm.trans (Disk.list_of_node hnode)) with rfl
    obtain ⟨node', hnode', halike⟩ := h.of_ok hnode
    obtain ⟨entries', rfl⟩ := halike.of_directory
    exact ⟨entries', Disk.list_of_node hnode', halike⟩

end Disk

namespace Session

variable {disk other : Disk} {path : String}

/-- What is no file is listed, whether or not it is a link. -/
theorem addTree_of_not_file (session : Session) (options : WalkOptions) {node : Node}
    (hnode : disk.node false path = .ok node) (hfile : ∀ content, node ≠ .file content) :
    session.addTree disk path options = .ok (session.addFindings {}
      (match disk.list path with
        | .error _ => [.skipped path]
        | .ok entries => Walk.visit options [(path, entries)])) := by
  rcases node with content | target | entries
  · exact absurd rfl (hfile content)
  · rw [addTree, hnode]
    rcases disk.list path with cause | entries
    · rfl
    · rfl
  · rw [addTree, hnode, Disk.list_of_node hnode]

/-- What a session takes in does not depend on what is behind the links at a path and below it.
    The one link that counts is the path itself if it leads to a directory: then what is taken
    in depends on this directory, and not on what is behind the links in it. -/
theorem addTree_unfollowed (hdisk : disk.Named) (hother : other.Named)
    (halike : Disk.Alike false disk other path)
    (hlink : disk.LinksToDirectory path ∨ other.LinksToDirectory path →
      Disk.Alike true disk other path)
    (session : Session) (options : WalkOptions) :
    session.addTree other path options = session.addTree disk path options := by
  rcases hnode : disk.node false path with cause | node
  · rw [addTree, addTree, hnode, halike.of_error hnode]
  obtain ⟨node', hnode', hsame⟩ := halike.of_ok hnode
  -- A file is taken in by itself, and for anything else the entries decide.
  by_cases hfile : ∃ content, node = .file content
  · rcases hfile with ⟨content, rfl⟩
    rw [addTree, addTree, hnode, hnode', hsame.of_file]
  have hfile : ∀ content, node ≠ .file content := fun content heq => hfile ⟨content, heq⟩
  have hfile' : ∀ content, node' ≠ .file content := by
    rintro content rfl
    exact hfile content hsame.symm.of_file
  rw [session.addTree_of_not_file options hnode hfile,
    session.addTree_of_not_file options hnode' hfile']
  congr 2
  rcases hlist : disk.list path with cause | entries
  · -- If the other tree had a directory here, so would this one.
    rcases hlist' : other.list path with cause' | entries'
    · rfl
    · obtain ⟨entries, hlisted, -⟩ := halike.symm.list_of_node
        (fun hlinks => (hlink (Or.inr hlinks)).symm) hnode' hfile' hlist'
      exact absurd (hlist.symm.trans hlisted) (by simp)
  · obtain ⟨entries', hlist', hentries⟩ :=
      halike.list_of_node (fun hlinks => hlink (Or.inl hlinks)) hnode hfile hlist
    rw [hlist']
    exact Walk.visit_alike hentries (hdisk.list hlist) (hother.list hlist')

/-- A directory with a file and a link in it, and a directory that the link leads to. -/
def linked (behind : List (String × Node)) : Disk where
  root := .directory [("c", .directory [("a.txt", .file [97]), ("out", .link "/x")]),
    ("x", .directory behind)]

/-- A file that only the link leads to. -/
def hidden : List (String × Node) :=
  [("s.txt", .file [98])]

theorem linked_named {behind : List (String × Node)} (h : Walk.Named behind) :
    (linked behind).Named := by
  intro entries hentries
  rcases Node.directory.inj hentries with rfl
  have hnames : ∀ name ∈ ["c", "x"], Path.IsName name := by decide
  refine .intro (by decide : ["c", "x"].Nodup)
    (fun e he => hnames e.1 (List.mem_map_of_mem he)) fun name inner hmem => ?_
  simp only [List.mem_cons, Prod.mk.injEq, Node.directory.injEq, List.not_mem_nil, or_false] at hmem
  rcases hmem with ⟨-, rfl⟩ | ⟨-, rfl⟩
  · exact .intro (by decide) (by decide) fun name inner hmem => by simp at hmem
  · exact h

/-- Without following links, there is always the same in the directory. -/
theorem linked_alike (behind behind' : List (String × Node)) :
    Disk.Alike false (linked behind) (linked behind') "/c" :=
  .leads (Disk.node_of_get? (by decide) (by decide) rfl (.inl rfl))
    (Disk.node_of_get? (by decide) (by decide) rfl (.inl rfl)) (.refl _)

/-- The directory is no link. -/
theorem linked_not_linksToDirectory (behind : List (String × Node)) :
    ¬ (linked behind).LinksToDirectory "/c" := by
  rintro ⟨target, entries, hnode, -⟩
  rw [Disk.node_of_get? (by decide) (by decide) rfl (.inl rfl)] at hnode
  exact absurd (Except.ok.inj hnode) (by simp)

/-- The link is followed where it is the path itself. -/
theorem linked_list (behind : List (String × Node)) :
    (linked behind).list "/c/out" = .ok behind := by
  have hout : Disk.entry? (linked behind).root ["c"] "out" = .ok (some (.link "/x")) := rfl
  have hbehind : (linked behind).root.get? ([] ++ ["x"]) = some (.directory behind) := rfl
  have hwalk : Disk.walk (linked behind).root true Disk.maxLinks [] ["c", "out"] = .ok ["x"] :=
    calc Disk.walk (linked behind).root true 40 [] ["c", "out"]
      _ = Disk.walk (linked behind).root true 40 ["c"] ["out"] :=
        Disk.walk_directory (by decide) (by decide) rfl
      _ = Disk.walk (linked behind).root true 39 [] ["x"] :=
        Disk.walk_link (by decide) (by decide) hout
      _ = .ok ["x"] := Disk.walk_get? (by decide) hbehind (.inr (by simp))
  have hresolve : (linked behind).resolve true "/c/out" = .ok ["x"] := by
    rw [Disk.resolve, show Disk.checkPath "/c/out" = .ok () by decide]
    exact hwalk
  refine Disk.list_eq_ok_iff.mpr ?_
  simp only [Disk.node, hresolve, bind, Except.bind]
  rfl

theorem addTree_linked (session : Session) (options : WalkOptions)
    (behind : List (String × Node)) : session.addTree (linked behind) "/c/out" options
      = .ok (session.addFindings {} (Walk.visit options [("/c/out", behind)])) := by
  have hnode : (linked behind).node false "/c/out" = .ok (.link "/x") :=
    Disk.node_of_get? (by decide) (by decide) rfl (.inl rfl)
  rw [session.addTree_of_not_file options hnode (by simp), linked_list]

/-- The hidden file is not noticed in the directory that the link is in, but it is taken in if
    the path is the link itself. So the condition on the path is needed. -/
theorem addTree_unfollowed_of_hidden :
    addTree { options := {}, stopWords := StopWords.empty } (linked hidden) "/c" {}
        = addTree { options := {}, stopWords := StopWords.empty } (linked []) "/c" {}
      ∧ addTree { options := {}, stopWords := StopWords.empty } (linked hidden) "/c/out" {}
        ≠ addTree { options := {}, stopWords := StopWords.empty } (linked []) "/c/out" {} := by
  have hnamed : Walk.Named hidden := .intro (by decide) (by decide) fun name inner hmem => by
    simp [hidden] at hmem
  have hempty : Walk.Named [] := .intro (by decide) (by decide) fun name inner hmem => by
    simp at hmem
  constructor
  · exact addTree_unfollowed (linked_named hempty) (linked_named hnamed) (linked_alike _ _)
      (fun hlink => absurd hlink (not_or.mpr
        ⟨linked_not_linksToDirectory _, linked_not_linksToDirectory _⟩)) _ _
  · -- One walk comes upon the hidden file and the other upon nothing, which shows in the count.
    rw [addTree_linked, addTree_linked]
    intro heq
    have hvisit : Walk.visit {} [("/c/out", hidden)] = [.file "/c/out/s.txt" [98]] := by
      rw [hidden, Walk.visit_directory, Walk.byName, List.mergeSort_singleton]
      decide
    have hvisit' : Walk.visit {} [("/c/out", [])] = [] := by
      rw [Walk.visit_directory, Walk.byName, List.mergeSort_nil]
      rfl
    rw [hvisit, hvisit'] at heq
    have hfiles : (1 : Nat) = 0 := congrArg (fun taken => taken.2.files) (Except.ok.inj heq)
    exact absurd hfiles (by decide)

end Session

end Concordance
